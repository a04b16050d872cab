import SentirumLb.Breaker.Transitions

/-! # The representation of the breaker

Every access of every method has one of a few effects. They are listed once;
that the methods have no others is checked method by method, under any
interference. What the state byte, the outcome window and its error counter can
be follows from the list.
-/

namespace SentirumLb

namespace CircuitBreaker

open Prog

inductive Effect (max : ℕ) (s : ClockedBreaker) : ClockedBreaker → Prop where
  | read : Effect max s s
  | inFlight (b : Bool) : Effect max s { s with halfOpenInFlight := b }
  | probeSent (ms : ℕ) : Effect max s { s with halfOpenProbeSentAtMs := ms }
  | openedAt (ms : ℕ) : Effect max s { s with openedAtMs := ms }
  | history (h : List CircuitTransition) : Effect max s { s with history := h }
  | close : Effect max s { s with stateAtomic := stateClosed }
  | opened : Effect max s { s with stateAtomic := stateOpen }
  /-- The half-open byte with fewer successes than close the circuit. -/
  | probes (k : ℕ) (hk : k < max) : Effect max s { s with stateAtomic := halfOpenByte k }
  | push (isError : Bool) : Effect max s ⟨pushOutcome isError s.toCircuitBreaker, s.nowMs⟩
  | clear : Effect max s { s with window := [], errorCount := 0 }
  | tick (ms : ℕ) : Effect max s { s with nowMs := s.nowMs + ms }

def MaxIs (max : ℕ) (_ : Access) (s : ClockedBreaker) : Prop := s.halfOpenMaxRequests = max

abbrev Affects (max : ℕ) {α : Type} (m : Method α) : Prop :=
  m.Sat (MaxIs max) (Effect max) fun _ => True

variable {max : ℕ}

theorem tolerates_effect (hmax : 0 < max) : Tolerates (Effect max) where
  read _ := .read
  inFlight _ b := .inFlight b
  probeSent _ ms := .probeSent ms
  openedAt _ ms := .openedAt ms
  history _ h := .history h
  push _ isError := .push isError
  opened _ := .opened
  halfOpened _ _ _ := .probes 0 hmax

theorem affects_transitionToClosed (hmax : 0 < max) : Affects max transitionToClosed := by
  have hT := tolerates_effect hmax
  refine Tolerates.bind (hT.load _ _) fun current => ?_
  refine Tolerates.bind (hT.storeInFlight _) fun _ => ?_
  refine Tolerates.bind (Tolerates.compareExchangeState hT.read fun s _ => .close) fun _ => ?_
  exact sat_modify fun _ _ => .clear

theorem affects_recordSuccess (hmax : 0 < max) : Affects max recordSuccess := by
  have hT := tolerates_effect hmax
  refine Tolerates.bind (hT.load _ _) fun state => ?_
  split
  · exact sat_modify fun _ _ => .push false
  split
  · refine Tolerates.bind (hT.storeInFlight _) fun _ => ?_
    have hread : readHalfOpenMax.Sat (MaxIs max) (Effect max) fun m => m = max :=
      sat_load hT.read fun _ hG => hG
    refine sat_bind hread fun m hm => ?_
    subst hm
    split
    · exact affects_transitionToClosed hmax
    · next hlt =>
      have hcas : Affects m (compareExchangeState state (halfOpenByte (probeCount state + 1))) :=
        Tolerates.compareExchangeState hT.read fun s _ => .probes _ (not_le.mp hlt)
      exact Tolerates.bind hcas fun _ => Tolerates.pure _
  · exact Tolerates.pure _

/-! ## What the effects keep -/

structure Configured (config : CircuitBreakerConfig) (s : CircuitBreaker) : Prop where
  recoveryTimeoutSecs : s.recoveryTimeoutSecs = config.recoveryTimeoutSecs
  errorThreshold : s.errorThreshold = config.errorThreshold
  windowSize : s.windowSize = Max.max config.windowSize 1
  halfOpenMaxRequests : s.halfOpenMaxRequests = min (Max.max config.halfOpenMaxRequests 1) 63

/-- Closed, open, or half-open with a number of successes below the limit. -/
def ByteOk (max : ℕ) (state : UInt8) : Prop :=
  state.toNat = 0 ∨ state.toNat = 1 ∨ ∃ k < max, state.toNat = 2 + 4 * k

structure Rep (config : CircuitBreakerConfig) (s : CircuitBreaker) : Prop
    extends Configured config s where
  byte : ByteOk s.halfOpenMaxRequests s.stateAtomic
  window_le : s.window.length ≤ s.windowSize
  errorCount : s.errorCount = s.window.count true

variable {config : CircuitBreakerConfig} {s s' : ClockedBreaker}

theorem configured_withConfig (config : CircuitBreakerConfig) :
    Configured config (withConfig config) :=
  ⟨rfl, rfl, rfl, rfl⟩

theorem rep_withConfig (config : CircuitBreakerConfig) : Rep config (withConfig config) :=
  ⟨configured_withConfig config, Or.inl rfl, Nat.zero_le _, rfl⟩

theorem configured_pushOutcome {b : CircuitBreaker} (isError : Bool) (h : Configured config b) :
    Configured config (pushOutcome isError b) := by
  obtain ⟨h1, h2, h3, h4⟩ := h
  unfold pushOutcome
  dsimp only
  split
  · split
    · exact ⟨h1, h2, h3, h4⟩
    · exact ⟨h1, h2, h3, h4⟩
  · exact ⟨h1, h2, h3, h4⟩

theorem Effect.configured (he : Effect max s s') (h : Configured config s.toCircuitBreaker) :
    Configured config s'.toCircuitBreaker := by
  have hsettings := h
  obtain ⟨h1, h2, h3, h4⟩ := h
  cases he with
  | push isError => exact configured_pushOutcome isError hsettings
  | _ => exact ⟨h1, h2, h3, h4⟩

theorem byteOk_halfOpenByte {k : ℕ} (hk : k < max) (hmax : max ≤ 63) :
    ByteOk max (halfOpenByte k) := by
  have hfin : ∀ n : Fin 64, (halfOpenByte n.val).toNat = 2 + 4 * n.val := by decide +kernel
  exact Or.inr (Or.inr ⟨k, hk, hfin ⟨k, by omega⟩⟩)

/-- The error counter follows the window: adding one before taking one off does not lose count,
even where the sum is `2 ^ 64`. -/
theorem window_pushOutcome {b : CircuitBreaker} (isError : Bool) (hsize : b.windowSize < 2 ^ 64)
    (hpos : 0 < b.windowSize) (hle : b.window.length ≤ b.windowSize)
    (hcount : b.errorCount = b.window.count true) :
    (pushOutcome isError b).window.length ≤ b.windowSize ∧
      (pushOutcome isError b).errorCount = (pushOutcome isError b).window.count true := by
  have herrors : b.window.count true ≤ b.window.length := List.count_le_length
  have hone : [isError].count true = if isError then 1 else 0 := by cases isError <;> rfl
  unfold pushOutcome
  dsimp only
  split
  · next oldest rest hw =>
    have hlen : b.window.length = rest.length + 1 := by rw [hw, List.length_cons]
    have hsplit : b.window.count true = rest.count true + if oldest then 1 else 0 := by
      rw [hw, List.count_cons]
      cases oldest <;> rfl
    have hrest : rest.count true ≤ rest.length := List.count_le_length
    split
    · refine ⟨by simpa using by omega, ?_⟩
      simp only [List.count_append, hone]
      cases isError <;> cases oldest <;> simp_all <;> omega
    · refine ⟨by simpa using by omega, ?_⟩
      simp only [List.count_append, hone]
      cases isError
      · simp_all
      · simp_all
        omega
  · next hw =>
    rw [hw, List.count_nil] at hcount
    refine ⟨hpos, ?_⟩
    simp only [hone, hcount]
    cases isError <;> rfl

theorem Effect.rep (hwindow : config.windowSize < 2 ^ 64)
    (he : Effect (min (Max.max config.halfOpenMaxRequests 1) 63) s s')
    (h : Rep config s.toCircuitBreaker) : Rep config s'.toCircuitBreaker := by
  have hsettings := he.configured h.toConfigured
  obtain ⟨h0, hbyte, hle, hcount⟩ := h
  have hmax := h0.halfOpenMaxRequests
  cases he with
  | close => exact ⟨hsettings, Or.inl rfl, hle, hcount⟩
  | opened => exact ⟨hsettings, Or.inr (Or.inl rfl), hle, hcount⟩
  | probes k hk =>
    refine ⟨hsettings, ?_, hle, hcount⟩
    exact byteOk_halfOpenByte (hmax ▸ hk) (by rw [hmax]; exact min_le_right _ _)
  | push isError =>
    have hsize : s.windowSize < 2 ^ 64 := by
      rw [h0.windowSize]
      omega
    have hpos : 0 < s.windowSize := by
      rw [h0.windowSize]
      omega
    obtain ⟨hle', hcount'⟩ := window_pushOutcome isError hsize hpos hle hcount
    refine ⟨hsettings, ?_, ?_, hcount'⟩
    · rw [hsettings.halfOpenMaxRequests, ← hmax, pushOutcome_stateAtomic]
      exact hbyte
    · rw [hsettings.windowSize, ← h0.windowSize]
      exact hle'
  | clear => exact ⟨hsettings, hbyte, Nat.zero_le _, rfl⟩
  | _ => exact ⟨hsettings, hbyte, hle, hcount⟩

/-! ## Interleaved operations -/

inductive Operation where
  | call (c : Call)
  | canAcceptRequest

def Operation.prog : Operation → Method Unit
  | .call c => c.prog
  | .canAcceptRequest => do
      let _ ← CircuitBreaker.canAcceptRequest
      return ()

inductive OperationLabel where
  | start (o : Operation)
  | run (i : ℕ)
  | tick (ms : ℕ)

def OperationLabel.toPool : OperationLabel → PoolLabel Access ClockedBreaker
  | .start o => .spawn o.prog
  | .run i => .run i
  | .tick ms => .env fun s => { s with nowMs := s.nowMs + ms }

def operationStep (p : Calls) (l : OperationLabel) : Option Calls := p.step l.toPool

theorem affects_prog (hmax : 0 < max) (o : Operation) : Affects max o.prog := by
  cases o with
  | canAcceptRequest =>
    exact Tolerates.bind (tolerates_effect hmax).canAcceptRequest fun _ => Tolerates.pure _
  | call c =>
    cases c with
    | allowRequest rounds =>
      exact Tolerates.bind ((tolerates_effect hmax).allowRequest rounds) fun _ => Tolerates.pure _
    | recordSuccess => exact affects_recordSuccess hmax
    | recordError => exact (tolerates_effect hmax).recordError
    | abortProbe => exact (tolerates_effect hmax).abortProbe

theorem configured_exec (o : Operation) (h : Configured config s.toCircuitBreaker) :
    Configured config (o.prog.exec s).2.toCircuitBreaker := by
  have hmax : 0 < min (Max.max config.halfOpenMaxRequests 1) 63 := by omega
  refine (affects_prog hmax o).exec_invariant
    (I := fun s => Configured config s.toCircuitBreaker) ?_ ?_ h
  · exact fun _ s hs => Configured.halfOpenMaxRequests hs
  · exact fun s s' he hs => he.configured hs

/-- What every effect keeps holds after every interleaving of operations. -/
theorem run_effects {I : ClockedBreaker → Prop} {nowMs : ℕ} {ls : List OperationLabel} {p : Calls}
    (hmax : 0 < max) (hguard : ∀ s, I s → s.halfOpenMaxRequests = max)
    (hI : ∀ s s', Effect max s s' → I s → I s')
    (hrun : Runs.run operationStep (idle config nowMs) ls = some p)
    (h0 : I ⟨withConfig config, nowMs⟩) : I p.shared := by
  have hallowed : Runs.Meets Pool.step (Pool.Allowed (fun _ _ => True)
      (fun t => ∃ o : Operation, t = o.prog)
      fun f => ∃ ms, f = fun s : ClockedBreaker => { s with nowMs := s.nowMs + ms })
      (idle config nowMs) (ls.map (·.toPool)) := by
    have htrue : Runs.Meets operationStep (fun _ _ => True) (idle config nowMs) ls :=
      Runs.meets_true _ _
    refine Runs.meets_map _ ?_ htrue
    intro p l _
    cases l with
    | start o => exact ⟨o, rfl⟩
    | run i => exact fun _ _ => trivial
    | tick ms => exact ⟨ms, rfl⟩
  have hrun' : Runs.run Pool.step (idle config nowMs) (ls.map (·.toPool)) = some p := by
    rw [← Runs.run_map]
    exact hrun
  refine Pool.run_invariant_of_guard (G := MaxIs max) (T := Effect max) ?_ ?_ ?_ ?_ hI hallowed
    hrun' h0
  · rintro t ⟨o, rfl⟩
    exact affects_prog hmax o
  · rintro f ⟨ms, rfl⟩ s
    exact .tick ms
  · exact fun s => .read
  · exact fun _ s hs => hguard s hs

theorem rep_of_run {nowMs : ℕ} {ls : List OperationLabel} {p : Calls}
    (hwindow : config.windowSize < 2 ^ 64)
    (hrun : Runs.run operationStep (idle config nowMs) ls = some p) :
    Rep config p.shared.toCircuitBreaker := by
  have hmax : 0 < min (Max.max config.halfOpenMaxRequests 1) 63 := by omega
  exact run_effects (I := fun s => Rep config s.toCircuitBreaker) hmax
    (fun s h => h.halfOpenMaxRequests) (fun s s' he h => he.rep hwindow h) hrun
    (rep_withConfig config)

/-- In every interleaving of operations the state byte is one of the intended ones, the window
holds at most its size, and the error counter is the number of errors in it. -/
theorem rep_run {nowMs : ℕ} {ls : List OperationLabel} {p : Calls}
    (hwindow : config.windowSize < 2 ^ 64)
    (hrun : Runs.run operationStep (idle config nowMs) ls = some p) :
    (p.shared.stateAtomic.toNat = 0 ∨ p.shared.stateAtomic.toNat = 1 ∨
      ∃ k < p.shared.halfOpenMaxRequests, p.shared.stateAtomic.toNat = 2 + 4 * k) ∧
    p.shared.halfOpenMaxRequests ≤ 63 ∧
    p.shared.window.length ≤ p.shared.windowSize ∧
    p.shared.errorCount = p.shared.window.count true := by
  have hrep := rep_of_run hwindow hrun
  refine ⟨hrep.byte, ?_, hrep.window_le, hrep.errorCount⟩
  rw [hrep.halfOpenMaxRequests]
  exact min_le_right _ _

def overlappingSchedule : List OperationLabel :=
  [OperationLabel.start (.call .recordError), OperationLabel.start (.call .recordSuccess),
    OperationLabel.run 0, OperationLabel.run 1, OperationLabel.run 1, OperationLabel.run 0,
    OperationLabel.start (.call .recordError), OperationLabel.run 2, OperationLabel.run 2]

theorem rep_overlappingSchedule :
    ∃ p : Calls, Runs.run operationStep (idle {} 0) overlappingSchedule = some p ∧
      p.shared.window = [false, true, true] ∧ p.shared.errorCount = 2 := by
  have hwindow : (Runs.run operationStep (idle {} 0) overlappingSchedule).map
      (·.shared.window) = some [false, true, true] := by decide +kernel
  obtain ⟨p, hp, hw⟩ := Option.map_eq_some_iff.mp hwindow
  refine ⟨p, hp, hw, ?_⟩
  rw [(rep_run (by decide) hp).2.2.2, hw]
  rfl

end CircuitBreaker

end SentirumLb
