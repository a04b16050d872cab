import SentirumLb.Breaker.Recovery
import SentirumLb.Breaker.Representation

/-! # What an operation changes

An operation that runs alone changes the state of the circuit at most once. The
ways it can do so are listed together with what becomes of the outcome window
and of the transition history, so that results about whole runs are case
analyses of the list.
-/

namespace SentirumLb

namespace CircuitBreaker

open Prog

def SeqCall.outcome : SeqCall → Option Bool
  | .finish .success => some false
  | .finish .error => some true
  | _ => none

def remember (history : List CircuitTransition) (t : CircuitTransition) :
    List CircuitTransition :=
  (if 20 ≤ history.length then history.tail else history) ++ [t]

/-- The operation is the success of the last probe that the circuit waits for. -/
def Closes (s : ClockedBreaker) (call : SeqCall) : Prop :=
  call.outcome = some false ∧ stateOf s.stateAtomic = .halfOpen ∧
    s.halfOpenMaxRequests ≤ probeCount s.stateAtomic + 1

instance (s : ClockedBreaker) (call : SeqCall) : Decidable (Closes s call) :=
  inferInstanceAs (Decidable (_ ∧ _ ∧ _))

/-- An error now opens the closed circuit. -/
def Trips (s : ClockedBreaker) : Prop :=
  tripsOpen s.windowSize s.errorThreshold (pushOutcome true s.toCircuitBreaker).window.length
    (pushOutcome true s.toCircuitBreaker).errorCount = true

structure SameWindow (s s' : ClockedBreaker) : Prop where
  window : s'.window = s.window
  errorCount : s'.errorCount = s.errorCount

inductive Change (call : SeqCall) (s s' : ClockedBreaker) : Prop where
  | quiet (hcall : stateOf s.stateAtomic = .closed → call.outcome = none)
      (hcloses : ¬Closes s call) (hstate : stateOf s'.stateAtomic = stateOf s.stateAtomic)
      (hwindow : SameWindow s s') (hhistory : s'.history = s.history)
  | pushed (isError : Bool) (hcall : call.outcome = some isError)
      (hclosed : stateOf s.stateAtomic = .closed) (htrips : isError = true → ¬Trips s)
      (hs' : s' = ⟨pushOutcome isError s.toCircuitBreaker, s.nowMs⟩)
  | tripped (hcall : call.outcome = some true) (hclosed : stateOf s.stateAtomic = .closed)
      (htrips : Trips s) (hstate : stateOf s'.stateAtomic = .opened)
      (hhistory : s'.history = remember s.history ⟨.closed, .opened, s.nowMs⟩)
  | reopened (hcall : call.outcome = some true) (hhalf : stateOf s.stateAtomic = .halfOpen)
      (hstate : stateOf s'.stateAtomic = .opened)
      (hhistory : s'.history = remember s.history ⟨.halfOpen, .opened, s.nowMs⟩)
  | halfOpened (hcall : call.outcome = none) (hopen : stateOf s.stateAtomic = .opened)
      (hstate : stateOf s'.stateAtomic = .halfOpen)
      (hhistory : s'.history = remember s.history ⟨.opened, .halfOpen, s.nowMs⟩)
  | closed (hcloses : Closes s call) (hstate : stateOf s'.stateAtomic = .closed)
      (hwindow : s'.window = []) (hcount : s'.errorCount = 0)
      (hhistory : s'.history = s.history)

variable {config : CircuitBreakerConfig} {s s' : ClockedBreaker} {call : SeqCall}

/-! ## The state that a byte stands for -/

theorem stateOf_eq_closed_iff {b : UInt8} (h : bits b ≠ 3) :
    stateOf b = .closed ↔ bits b = stateClosed := by
  have hall : ∀ b : UInt8, bits b ≠ 3 → (stateOf b = .closed ↔ bits b = stateClosed) := by
    decide +kernel
  exact hall b h

theorem stateOf_eq_opened_iff {b : UInt8} : stateOf b = .opened ↔ bits b = stateOpen := by
  have hall : ∀ b : UInt8, stateOf b = .opened ↔ bits b = stateOpen := by decide +kernel
  exact hall b

theorem stateOf_eq_halfOpen_iff {b : UInt8} : stateOf b = .halfOpen ↔ bits b = stateHalfOpen := by
  have hall : ∀ b : UInt8, stateOf b = .halfOpen ↔ bits b = stateHalfOpen := by decide +kernel
  exact hall b

theorem stateOf_stateClosed : stateOf stateClosed = .closed := by decide

theorem stateOf_stateOpen : stateOf stateOpen = .opened := by decide

/-! ## The transitions -/

theorem exec_transitionToClosed (s : ClockedBreaker) :
    (transitionToClosed.exec s).2 = { s with
      stateAtomic := stateClosed
      halfOpenInFlight := false
      window := []
      errorCount := 0 } := by
  simp only [transitionToClosed, compareExchangeState, storeInFlight, exec_bind, exec_load,
    exec_modify, exec_modifyGet, if_true]

theorem exec_transitionToOpen (hne : stateOf s.stateAtomic ≠ .opened) :
    (transitionToOpen.exec s).2 = { s with
      stateAtomic := stateOpen
      halfOpenInFlight := false
      openedAtMs := s.nowMs
      history := remember s.history ⟨stateOf s.stateAtomic, .opened, s.nowMs⟩ } := by
  simp only [transitionToOpen, monotonicElapsedMs, storeInFlight, exec_bind, exec_load,
    exec_modify, exec_openLoop, recordOpenTransition, if_neg hne, recordTransition]
  rfl

theorem exec_recordSuccess_closed (h : bits s.stateAtomic = stateClosed) :
    (recordSuccess.exec s).2 = ⟨pushOutcome false s.toCircuitBreaker, s.nowMs⟩ := by
  unfold bits at h
  simp only [recordSuccess, loadState, exec_bind, exec_load, h, if_true, exec_modify]

theorem exec_recordSuccess_closing (h : bits s.stateAtomic = stateHalfOpen)
    (hm : s.halfOpenMaxRequests ≤ probeCount s.stateAtomic + 1) :
    (recordSuccess.exec s).2 =
      (transitionToClosed.exec { s with halfOpenInFlight := false }).2 := by
  have hne : stateHalfOpen ≠ stateClosed := by decide
  unfold bits at h
  simp [recordSuccess, loadState, storeInFlight, readHalfOpenMax, h, hne, hm]

/-! ## The operations -/

theorem change_allowRequest (h : Requests.Ready config s) (rounds : ℕ) :
    Change (.allowRequest rounds) s (SeqCall.exec s (.allowRequest rounds)).2 := by
  have hcloses : ¬Closes s (.allowRequest rounds) := fun hc => by cases hc.1
  obtain ⟨r, s', he⟩ : ∃ r s', (CircuitBreaker.allowRequest 2).exec s = (r, s') := ⟨_, _, rfl⟩
  rw [SeqCall.exec, exec_allowRequest_rounds, he]
  rcases allowRequest_cases h.max_pos h.bits_ne he with
    ⟨-, -, rfl⟩ | ⟨-, rfl⟩ | ⟨-, hb, rfl⟩ | ⟨-, -, -, rfl⟩
  · exact .quiet (fun _ => rfl) hcloses rfl ⟨rfl, rfl⟩ rfl
  · exact .quiet (fun _ => rfl) hcloses rfl ⟨rfl, rfl⟩ rfl
  · refine .halfOpened rfl (stateOf_eq_opened_iff.mpr hb) ?_ rfl
    exact stateOf_eq_halfOpen_iff.mpr (bits_halfOpened s)
  · exact .quiet (fun _ => rfl) hcloses rfl ⟨rfl, rfl⟩ rfl

theorem change_recordSuccess (h : Requests.Ready config s) :
    Change (.finish .success) s (SeqCall.exec s (.finish .success)).2 := by
  change Change _ s (recordSuccess.exec s).2
  rcases recordSuccess_cases (s := s) rfl with ⟨hb, -⟩ | ⟨hb, hm, -⟩ | ⟨hb, hm, hs⟩ | ⟨hb, hb', hs⟩
  · refine .pushed false rfl ((stateOf_eq_closed_iff h.bits_ne).mpr hb) (fun hf => by cases hf) ?_
    exact exec_recordSuccess_closed hb
  · rw [exec_recordSuccess_closing hb hm, exec_transitionToClosed]
    exact .closed ⟨rfl, stateOf_eq_halfOpen_iff.mpr hb, hm⟩ stateOf_stateClosed rfl rfl rfl
  · have hhalf := stateOf_eq_halfOpen_iff.mpr hb
    rw [hs]
    refine .quiet ?_ (fun hc => absurd hc.2.2 (not_le.mpr hm)) ?_ ⟨rfl, rfl⟩ rfl
    · simp [hhalf]
    · rw [hhalf]
      exact stateOf_eq_halfOpen_iff.mpr (bits_halfOpenByte _)
  · rw [hs]
    refine .quiet ?_ ?_ rfl ⟨rfl, rfl⟩ rfl
    · exact fun hc => absurd ((stateOf_eq_closed_iff h.bits_ne).mp hc) hb
    · exact fun hc => absurd (stateOf_eq_halfOpen_iff.mp hc.2.1) hb'

theorem change_recordError (h : Requests.Ready config s) :
    Change (.finish .error) s (SeqCall.exec s (.finish .error)).2 := by
  change Change _ s (recordError.exec s).2
  have hcloses : ¬Closes s (.finish .error) := fun hc => by cases hc.1
  by_cases hc : bits s.stateAtomic = stateClosed
  · have hclosed := (stateOf_eq_closed_iff h.bits_ne).mpr hc
    rw [exec_recordError_closed hc, exec_ite]
    split
    · next htrips =>
      have hstate : stateOf (pushOutcome true s.toCircuitBreaker).stateAtomic = .closed := by
        rw [pushOutcome_stateAtomic, hclosed]
      have hhistory : (pushOutcome true s.toCircuitBreaker).history = s.history := by
        have hwindow := onlyWindow_pushOutcome true s
        unfold OnlyWindow at hwindow
        exact congrArg (·.history) hwindow
      rw [exec_transitionToOpen (by rw [hstate]; decide)]
      refine .tripped rfl hclosed htrips stateOf_stateOpen ?_
      change remember (pushOutcome true s.toCircuitBreaker).history _ = _
      rw [hhistory, hstate]
    · next htrips => exact .pushed true rfl hclosed (fun _ => htrips) rfl
  · by_cases hh : bits s.stateAtomic = stateHalfOpen
    · have hhalf := stateOf_eq_halfOpen_iff.mpr hh
      rw [exec_recordError_halfOpen hh, exec_transitionToOpen (by rw [hhalf]; decide)]
      refine .reopened rfl hhalf stateOf_stateOpen ?_
      rw [hhalf]
    · have hs : (recordError.exec s).2 = s := by
        rcases recordError_cases (s := s) rfl with ⟨hb, -⟩ | ⟨hb, -⟩ | ⟨-, -, hs⟩
        · exact absurd hb hc
        · exact absurd hb hh
        · exact hs
      rw [hs]
      refine .quiet ?_ hcloses rfl ⟨rfl, rfl⟩ rfl
      exact fun hstate => absurd ((stateOf_eq_closed_iff h.bits_ne).mp hstate) hc

/-- Every operation changes the breaker in one of the ways of the list. -/
theorem change_exec (h : Requests.Ready config s) (call : SeqCall) :
    Change call s (call.exec s).2 := by
  cases call with
  | allowRequest rounds => exact change_allowRequest h rounds
  | finish e =>
    cases e with
    | success => exact change_recordSuccess h
    | error => exact change_recordError h
    | abort =>
      change Change _ s (abortProbe.exec s).2
      rw [exec_abortProbe]
      dsimp only
      split
      · exact .quiet (fun _ => rfl) (fun hc => by cases hc.1) rfl ⟨rfl, rfl⟩ rfl
      · exact .quiet (fun _ => rfl) (fun hc => by cases hc.1) rfl ⟨rfl, rfl⟩ rfl
  | canAcceptRequest =>
    rw [SeqCall.exec, exec_canAcceptRequest_state]
    exact .quiet (fun _ => rfl) (fun hc => by cases hc.1) rfl ⟨rfl, rfl⟩ rfl

def SeqCall.toOperation : SeqCall → Operation
  | .allowRequest rounds => .call (.allowRequest (rounds + 2))
  | .finish .success => .call .recordSuccess
  | .finish .error => .call .recordError
  | .finish .abort => .call .abortProbe
  | .canAcceptRequest => .canAcceptRequest

theorem exec_toOperation (call : SeqCall) :
    (call.toOperation.prog.exec s).2 = (call.exec s).2 := by
  cases call with
  | allowRequest rounds => simp [SeqCall.toOperation, Operation.prog, Call.prog, SeqCall.exec]
  | finish e => cases e <;> rfl
  | canAcceptRequest => simp [SeqCall.toOperation, Operation.prog, SeqCall.exec]

theorem Rep.perform (hwindow : config.windowSize < 2 ^ 64) (h : Rep config s.toCircuitBreaker)
    (c : TimedCall) : Rep config (CircuitBreaker.perform s c).2.toCircuitBreaker := by
  have hmax : 0 < min (Max.max config.halfOpenMaxRequests 1) 63 := by omega
  have h' : Rep config (advance s c.waitMs).toCircuitBreaker := h
  rw [CircuitBreaker.perform, ← exec_toOperation]
  refine (affects_prog hmax _).exec_invariant (I := fun s => Rep config s.toCircuitBreaker) ?_ ?_ h'
  · exact fun _ s hs => Configured.halfOpenMaxRequests hs.toConfigured
  · exact fun s s' he hs => he.rep hwindow hs

end CircuitBreaker

end SentirumLb
