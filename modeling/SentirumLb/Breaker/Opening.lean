import SentirumLb.Lib.Lists
import SentirumLb.Breaker.Changes

/-! # The opening rule

The sliding window is specified over the outcomes that were recorded while the
circuit was closed: it holds the last of them, and an error opens the circuit
when there are enough of them and enough of these are errors. The breaker keeps
a counter in place of a scan, and compares two products of machine words, which
agree with the specification unless one of them wraps.
-/

namespace SentirumLb

namespace CircuitBreaker

/-- A breaker, and the outcomes recorded while it was closed since it was created or last closed. -/
structure Recorded where
  breaker : ClockedBreaker
  outcomes : List Bool

def Recorded.closed (r : Recorded) : Prop := stateOf r.breaker.stateAtomic = .closed

instance (r : Recorded) : Decidable r.closed := inferInstanceAs (Decidable (_ = _))

def Recorded.perform (r : Recorded) (c : TimedCall) : Recorded :=
  let after := (CircuitBreaker.perform r.breaker c).2
  { breaker := after
    outcomes :=
      if r.closed then r.outcomes ++ c.call.outcome.toList
      else if stateOf after.stateAtomic = .closed then []
      else r.outcomes }

def recordAll (config : CircuitBreakerConfig) (nowMs : ℕ) (cs : List TimedCall) : Recorded :=
  cs.foldl Recorded.perform ⟨⟨withConfig config, nowMs⟩, []⟩

/-! ## The specification -/

section Specification

variable (windowSize threshold : ℕ) (outcomes : List Bool)

def errorsInWindow : ℕ := (outcomes.rtake windowSize).count true

def samplesInWindow : ℕ := (outcomes.rtake windowSize).length

def minSamples : ℕ := min (max (windowSize / 4) 5) windowSize

/-- Whether the circuit should be open after these outcomes, the last of which is an error. -/
def ShouldOpen : Prop :=
  samplesInWindow windowSize outcomes * threshold ≤ errorsInWindow windowSize outcomes * 100 ∧
    minSamples windowSize ≤ samplesInWindow windowSize outcomes

/-- The two products compare as machine words in the way they do as numbers: they wrap equally
often, or their remainders happen to be in the same order. -/
def WrapsAlike : Prop :=
  let errors := errorsInWindow windowSize outcomes * 100
  let limit := samplesInWindow windowSize outcomes * threshold
  errors / 2 ^ 64 = limit / 2 ^ 64 ∨
    errors / 2 ^ 64 < limit / 2 ^ 64 ∧ errors % 2 ^ 64 < limit % 2 ^ 64 ∨
    limit / 2 ^ 64 < errors / 2 ^ 64 ∧ limit % 2 ^ 64 ≤ errors % 2 ^ 64

end Specification

structure FollowsWindow (config : CircuitBreakerConfig) (r : Recorded) : Prop where
  window : r.breaker.window = r.outcomes.rtake (withConfig config).windowSize
  success : stateOf (recordSuccess.exec r.breaker).2.stateAtomic = .closed
  error : stateOf (recordError.exec r.breaker).2.stateAtomic = .opened ↔
    ShouldOpen (withConfig config).windowSize config.errorThreshold.toNat (r.outcomes ++ [true])

/-- Where the next error is among enough samples, the products wrap alike. -/
def ComparesAlike (config : CircuitBreakerConfig) (r : Recorded) : Prop :=
  let recorded := r.outcomes ++ [true]
  let windowSize := (withConfig config).windowSize
  minSamples windowSize ≤ samplesInWindow windowSize recorded →
    WrapsAlike windowSize config.errorThreshold.toNat recorded

/-! ## The window along a run -/

variable {config : CircuitBreakerConfig} {r : Recorded} {s : ClockedBreaker}

structure Tracks (config : CircuitBreakerConfig) (r : Recorded) : Prop where
  ready : Requests.Ready config r.breaker
  rep : Rep config r.breaker.toCircuitBreaker
  window : r.closed → r.breaker.window = r.outcomes.rtake r.breaker.windowSize

theorem pushOutcome_window (isError : Bool) (b : CircuitBreaker) : (pushOutcome isError b).window =
    (if b.windowSize ≤ b.window.length then b.window.tail else b.window) ++ [isError] := by
  unfold pushOutcome
  dsimp only
  split
  · next oldest rest hw =>
    rw [hw]
    split <;> rfl
  · next hw => simp [hw]

theorem Rep.windowSize_pos {b : CircuitBreaker} (h : Rep config b) : 0 < b.windowSize := by
  rw [h.windowSize]
  omega

theorem Tracks.perform (hsize : config.windowSize < 2 ^ 64) (h : Tracks config r) (c : TimedCall) :
    Tracks config (r.perform c) := by
  have hrep := h.rep.perform hsize c
  have hconst : (CircuitBreaker.perform r.breaker c).2.windowSize = r.breaker.windowSize := by
    rw [hrep.windowSize, h.rep.windowSize]
  refine ⟨h.ready.perform c, hrep, ?_⟩
  intro hafter
  change stateOf (CircuitBreaker.perform r.breaker c).2.stateAtomic = .closed at hafter
  have houtcomes : (r.perform c).outcomes =
      if stateOf r.breaker.stateAtomic = .closed then r.outcomes ++ c.call.outcome.toList
      else if stateOf (CircuitBreaker.perform r.breaker c).2.stateAtomic = .closed then []
      else r.outcomes := rfl
  change (CircuitBreaker.perform r.breaker c).2.window =
    (r.perform c).outcomes.rtake (CircuitBreaker.perform r.breaker c).2.windowSize
  rw [hconst, houtcomes]
  cases change_exec (h.ready.advance c.waitMs) c.call with
  | quiet hcall hcloses hstate hwindow hhistory =>
    have hbefore : stateOf r.breaker.stateAtomic = .closed := hstate.symm.trans hafter
    rw [if_pos hbefore, hcall hbefore, Option.toList_none, List.append_nil]
    exact hwindow.window.trans (h.window hbefore)
  | pushed isError hcall hclosed htrips hs' =>
    have hbefore : stateOf r.breaker.stateAtomic = .closed := hclosed
    have hwindow : (CircuitBreaker.perform r.breaker c).2.window =
        (pushOutcome isError r.breaker.toCircuitBreaker).window := congrArg (·.window) hs'
    rw [if_pos hbefore, hcall, Option.toList_some, Lists.rtake_concat h.rep.windowSize_pos,
      ← h.window hbefore, hwindow, pushOutcome_window]
  | tripped hcall hclosed htrips hstate hhistory => cases hstate.symm.trans hafter
  | reopened hcall hhalf hstate hhistory => cases hstate.symm.trans hafter
  | halfOpened hcall hopen hstate hhistory => cases hstate.symm.trans hafter
  | closed hcloses hstate hwindow hcount hhistory =>
    have hbefore : stateOf r.breaker.stateAtomic ≠ .closed := by
      have hhalf : stateOf r.breaker.stateAtomic = .halfOpen := hcloses.2.1
      rw [hhalf]
      decide
    rw [if_neg hbefore, if_pos hafter, List.rtake_nil]
    exact hwindow

theorem tracks_recordAll (hsize : config.windowSize < 2 ^ 64) (nowMs : ℕ) (cs : List TimedCall) :
    Tracks config (recordAll config nowMs cs) := by
  unfold recordAll
  induction cs using List.reverseRecOn with
  | nil => exact ⟨Requests.ready_initial config nowMs, rep_withConfig config,
    fun _ => (List.rtake_nil _).symm⟩
  | append_singleton cs c ih =>
    rw [List.foldl_append]
    exact ih.perform hsize c

/-! ## The rule -/

/-- Remainders are in the order of the numbers when the quotients are equal, and otherwise only by
chance. -/
theorem mod_le_mod_iff {a b m : ℕ} : (b % m ≤ a % m ↔ b ≤ a) ↔
    a / m = b / m ∨ a / m < b / m ∧ a % m < b % m ∨ b / m < a / m ∧ b % m ≤ a % m := by
  have ha := Nat.div_add_mod a m
  have hb := Nat.div_add_mod b m
  rcases Nat.eq_zero_or_pos m with rfl | hm
  · simp
  have hla := Nat.mod_lt a hm
  have hlb := Nat.mod_lt b hm
  rcases lt_trichotomy (a / m) (b / m) with h | h | h
  · have hstep : m * (a / m) + m ≤ m * (b / m) := by
      rw [← Nat.mul_succ]
      exact Nat.mul_le_mul_left m h
    have hlt : ¬b ≤ a := by omega
    simp [hlt, h, h.ne, h.not_gt]
  · rw [h] at ha
    have hiff : b % m ≤ a % m ↔ b ≤ a := by omega
    simp [h, hiff]
  · have hstep : m * (b / m) + m ≤ m * (a / m) := by
      rw [← Nat.mul_succ]
      exact Nat.mul_le_mul_left m h
    have hle : b ≤ a := by omega
    simp [hle, h, h.ne', h.not_gt]

theorem exec_recordSuccess_state (h : Tracks config r) (hclosed : r.closed) :
    stateOf (recordSuccess.exec r.breaker).2.stateAtomic = .closed := by
  have hb := (stateOf_eq_closed_iff h.ready.bits_ne).mp hclosed
  rw [exec_recordSuccess_closed hb, pushOutcome_stateAtomic]
  exact hclosed

theorem opens_iff_trips (h : Tracks config r) (hclosed : r.closed) :
    stateOf (recordError.exec r.breaker).2.stateAtomic = .opened ↔ Trips r.breaker := by
  have hne : stateOf r.breaker.stateAtomic ≠ .opened := by
    rw [hclosed]
    decide
  cases change_recordError h.ready with
  | quiet hcall hcloses hstate hwindow hhistory => cases hcall hclosed
  | pushed isError hcall hclosed htrips hs' =>
    cases hcall
    have hs : (recordError.exec r.breaker).2 =
        ⟨pushOutcome true r.breaker.toCircuitBreaker, r.breaker.nowMs⟩ := hs'
    rw [hs, pushOutcome_stateAtomic]
    exact iff_of_false hne (htrips rfl)
  | tripped hcall hclosed htrips hstate hhistory => exact iff_of_true hstate htrips
  | reopened hcall hhalf hstate hhistory => cases hhalf.symm.trans hclosed
  | halfOpened hcall hopen hstate hhistory => exact absurd hopen hne
  | closed hcloses hstate hwindow hcount hhistory => cases hcloses.2.1.symm.trans hclosed

theorem trips_iff (hsize : config.windowSize < 2 ^ 64) (h : Tracks config r) (hclosed : r.closed) :
    Trips r.breaker ↔
      samplesInWindow (withConfig config).windowSize (r.outcomes ++ [true]) *
          config.errorThreshold.toNat % 2 ^ 64 ≤
        errorsInWindow (withConfig config).windowSize (r.outcomes ++ [true]) * 100 % 2 ^ 64 ∧
      minSamples (withConfig config).windowSize ≤
        samplesInWindow (withConfig config).windowSize (r.outcomes ++ [true]) := by
  have hpos := h.rep.windowSize_pos
  have hws : r.breaker.windowSize = (withConfig config).windowSize := h.rep.windowSize
  have hpushed : (pushOutcome true r.breaker.toCircuitBreaker).window =
      (r.outcomes ++ [true]).rtake r.breaker.windowSize := by
    rw [pushOutcome_window, Lists.rtake_concat hpos, ← h.window hclosed]
  have hcount := (window_pushOutcome true (by rw [h.rep.windowSize]; omega) hpos h.rep.window_le
    h.rep.errorCount).2
  have hlen : 0 < ((r.outcomes ++ [true]).rtake r.breaker.windowSize).length := by
    rw [Lists.length_rtake, List.length_append, List.length_singleton]
    omega
  unfold Trips tripsOpen
  rw [hcount, hpushed, h.rep.errorThreshold]
  simp only [hlen, true_and, decide_eq_true_eq]
  rw [hws]
  rfl

theorem followsWindow_iff (hsize : config.windowSize < 2 ^ 64) (h : Tracks config r)
    (hclosed : r.closed) : FollowsWindow config r ↔ ComparesAlike config r := by
  have hws : r.breaker.windowSize = (withConfig config).windowSize := h.rep.windowSize
  have hopens := (opens_iff_trips h hclosed).trans (trips_iff hsize h hclosed)
  have hlike := mod_le_mod_iff (m := 2 ^ 64)
    (a := errorsInWindow (withConfig config).windowSize (r.outcomes ++ [true]) * 100)
    (b := samplesInWindow (withConfig config).windowSize (r.outcomes ++ [true]) *
      config.errorThreshold.toNat)
  constructor
  · intro hfollows hmin
    have herror := hfollows.error
    rw [hopens] at herror
    refine hlike.mp ?_
    simpa only [ShouldOpen, hmin, and_true] using herror
  · intro halike
    refine ⟨hws ▸ h.window hclosed, exec_recordSuccess_state h hclosed, ?_⟩
    rw [hopens]
    unfold ShouldOpen
    exact and_congr_left fun hmin => hlike.mpr (halike hmin)

/-- After every run of operations that leaves the circuit closed, the window holds the last of the
outcomes recorded since it was created or last closed, a success leaves it closed, and an error
opens it as specified, exactly when the products that the next error compares wrap alike. -/
theorem followsWindow_run_iff {nowMs : ℕ} {cs : List TimedCall}
    (hsize : config.windowSize < 2 ^ 64) (hr : recordAll config nowMs cs = r)
    (hclosed : r.closed) : FollowsWindow config r ↔ ComparesAlike config r :=
  followsWindow_iff hsize (hr ▸ tracks_recordAll hsize nowMs cs) hclosed

/-- No product wraps for a window that could fit in memory. -/
theorem comparesAlike_of_window_le (hsize : config.windowSize * 255 < 2 ^ 64) (r : Recorded) :
    ComparesAlike config r := by
  intro _
  have hsamples : samplesInWindow (withConfig config).windowSize (r.outcomes ++ [true]) ≤
      max config.windowSize 1 := by
    rw [samplesInWindow, Lists.length_rtake]
    exact min_le_right _ _
  have herrors : errorsInWindow (withConfig config).windowSize (r.outcomes ++ [true]) ≤
      samplesInWindow (withConfig config).windowSize (r.outcomes ++ [true]) :=
    List.count_le_length
  have hlimit := Nat.mul_le_mul hsamples (Nat.le_of_lt_succ config.errorThreshold.toNat_lt)
  left
  rw [Nat.div_eq_of_lt (by omega), Nat.div_eq_of_lt (by omega)]

/-- Where the window can be allocated, every run that leaves the circuit closed follows the
specification. -/
theorem followsWindow_run {nowMs : ℕ} {cs : List TimedCall}
    (hsize : config.windowSize * 255 < 2 ^ 64) (hr : recordAll config nowMs cs = r)
    (hclosed : r.closed) : FollowsWindow config r :=
  (followsWindow_run_iff (by omega) hr hclosed).mpr (comparesAlike_of_window_le hsize r)

theorem followsWindow_run_default :
    FollowsWindow {} (recordAll {} 0 [⟨3, .finish .error⟩, ⟨5, .finish .success⟩]) :=
  followsWindow_run (by decide) rfl (by decide +kernel)

end CircuitBreaker

end SentirumLb
