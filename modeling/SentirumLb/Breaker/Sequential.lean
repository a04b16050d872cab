import SentirumLb.Breaker.Basic

/-! # The breaker run by one call at a time

What each method does when it runs without interference: a case analysis per
method, with the guard of every case and the fields that it leaves. Results
about runs of calls use these cases and never unfold a method.
-/

namespace SentirumLb

namespace CircuitBreaker

open Prog

variable {s s' : ClockedBreaker}

structure Frame (s s' : ClockedBreaker) : Prop where
  nowMs : s'.nowMs = s.nowMs
  halfOpenMaxRequests : s'.halfOpenMaxRequests = s.halfOpenMaxRequests
  recoveryTimeoutSecs : s'.recoveryTimeoutSecs = s.recoveryTimeoutSecs

theorem Frame.refl (s : ClockedBreaker) : Frame s s := ⟨rfl, rfl, rfl⟩

/-- The outcome window is all that changes. -/
def OnlyWindow (s s' : ClockedBreaker) : Prop :=
  s' = { s with window := s'.window, errorCount := s'.errorCount }

def Recovered (s : ClockedBreaker) : Prop :=
  s.recoveryTimeoutSecs * 1000 % 2 ^ 64 ≤ s.nowMs - s.openedAtMs

def Stuck (s : ClockedBreaker) : Prop :=
  0 < s.halfOpenProbeSentAtMs ∧
    max (s.recoveryTimeoutSecs * 1000 % 2 ^ 64) 100 ≤ s.nowMs - s.halfOpenProbeSentAtMs

instance (s : ClockedBreaker) : Decidable (Recovered s) := inferInstanceAs (Decidable (_ ≤ _))

instance (s : ClockedBreaker) : Decidable (Stuck s) := inferInstanceAs (Decidable (_ ∧ _))

def halfOpened (s : ClockedBreaker) : ClockedBreaker :=
  { s with
    stateAtomic := stateHalfOpen
    halfOpenInFlight := false
    history := (if 20 ≤ s.history.length then s.history.tail else s.history) ++
      [⟨.opened, .halfOpen, s.nowMs⟩] }

def probing (s : ClockedBreaker) : ClockedBreaker :=
  { s with halfOpenInFlight := true, halfOpenProbeSentAtMs := s.nowMs }

theorem OnlyWindow.frame (h : OnlyWindow s s') : Frame s s' := by
  rw [h]
  exact ⟨rfl, rfl, rfl⟩

theorem OnlyWindow.stateAtomic (h : OnlyWindow s s') : s'.stateAtomic = s.stateAtomic := by
  rw [h]

theorem bits_probing (s : ClockedBreaker) :
    bits (probing s).stateAtomic = bits s.stateAtomic := rfl

theorem bits_halfOpened (s : ClockedBreaker) :
    bits (halfOpened s).stateAtomic = stateHalfOpen := by
  change bits stateHalfOpen = stateHalfOpen
  decide

theorem exec_recoveryElapsed (s : ClockedBreaker) :
    recoveryElapsed.exec s = (decide (Recovered s), s) := rfl

theorem exec_canAcceptRequest_state (s : ClockedBreaker) : (canAcceptRequest.exec s).2 = s := by
  have h1 : stateOpen ≠ stateClosed := by decide
  have h2 : stateHalfOpen ≠ stateClosed := by decide
  have h3 : stateHalfOpen ≠ stateOpen := by decide
  have hrecovery := exec_recoveryElapsed s
  rcases bits_cases s.stateAtomic with h | h | h | h
  · unfold bits at h
    simp [canAcceptRequest, loadState, h]
  · unfold bits at h
    simp [canAcceptRequest, loadState, hrecovery, h, h1]
  · unfold bits at h
    by_cases hm : probeCount s.stateAtomic < s.halfOpenMaxRequests <;>
      simp [canAcceptRequest, loadState, readHalfOpenMax, loadInFlight, h, h2, h3, hm]
  · unfold bits at h
    have h4 : (3 : UInt8) ≠ stateClosed ∧ (3 : UInt8) ≠ stateOpen ∧
        (3 : UInt8) ≠ stateHalfOpen := by
      decide
    simp [canAcceptRequest, loadState, h, h4]

theorem exec_tryTransitionToHalfOpen (h : bits s.stateAtomic = stateOpen) :
    tryTransitionToHalfOpen.exec s = (true, halfOpened s) := by
  unfold bits at h
  have h1 : stateOpen ≠ stateHalfOpen := by decide
  have h2 : stateOpen ≠ stateClosed := by decide
  simp [tryTransitionToHalfOpen, loadState, compareExchangeState, h, h1, h2, storeInFlight,
    recordTransition, halfOpened]

theorem exec_resetStuckProbe (s : ClockedBreaker) :
    resetStuckProbe.exec s =
      ((), if s.halfOpenInFlight = true ∧ Stuck s then { s with halfOpenInFlight := false }
        else s) := by
  by_cases hf : s.halfOpenInFlight = true
  · have hrun : resetStuckProbe.exec s =
        (if Stuck s then storeInFlight false else pure () : Method Unit).exec s := by
      simp only [resetStuckProbe, loadInFlight, exec_bind, exec_load, hf, if_true]
      rfl
    rw [hrun]
    by_cases hs : Stuck s <;> simp [storeInFlight, hf, hs]
  · simp [resetStuckProbe, loadInFlight, hf]

theorem setInFlight_eq_self (h : s.halfOpenInFlight = true) :
    { s with halfOpenInFlight := true } = s := by
  rw [← h]

theorem exec_allowRequest_halfOpen (n : ℕ) (h : bits s.stateAtomic = stateHalfOpen) :
    (allowRequest (n + 1)).exec s =
      if s.halfOpenMaxRequests ≤ probeCount s.stateAtomic then (some false, s)
      else if s.halfOpenInFlight = true ∧ ¬ Stuck s then (some false, s)
      else (some true, probing s) := by
  unfold bits at h
  have h1 : stateHalfOpen ≠ stateClosed := by decide
  have h2 : stateHalfOpen ≠ stateOpen := by decide
  rw [allowRequest]
  by_cases hm : s.halfOpenMaxRequests ≤ probeCount s.stateAtomic
  · simp [loadState, readHalfOpenMax, h, h1, h2, hm]
  · by_cases hf : s.halfOpenInFlight = true
    · by_cases hs : Stuck s
      · simp [loadState, readHalfOpenMax, exec_resetStuckProbe, reserveInFlight,
          monotonicElapsedMs, storeProbeSent, probing, h, h1, h2, hm, hf, hs]
      · simp [loadState, readHalfOpenMax, exec_resetStuckProbe, reserveInFlight,
          setInFlight_eq_self, h, h1, h2, hm, hf, hs]
    · simp [loadState, readHalfOpenMax, exec_resetStuckProbe, reserveInFlight,
        monotonicElapsedMs, storeProbeSent, probing, h, h1, h2, hm, hf]

theorem exec_allowRequest_closed (n : ℕ) (h : bits s.stateAtomic = stateClosed) :
    (allowRequest (n + 1)).exec s = (some true, s) := by
  unfold bits at h
  simp [allowRequest, loadState, h]

theorem exec_allowRequest_open (n : ℕ) (h : bits s.stateAtomic = stateOpen) :
    (allowRequest (n + 1)).exec s =
      if Recovered s then (allowRequest n).exec (halfOpened s) else (some false, s) := by
  have hopen := exec_tryTransitionToHalfOpen h
  unfold bits at h
  have h1 : stateOpen ≠ stateClosed := by decide
  by_cases hr : Recovered s
  · simp [allowRequest, loadState, exec_recoveryElapsed, hopen, h, h1, hr]
  · simp [allowRequest, loadState, exec_recoveryElapsed, h, h1, hr]

theorem exec_allowRequest_rounds (n : ℕ) (s : ClockedBreaker) :
    (allowRequest (n + 2)).exec s = (allowRequest 2).exec s := by
  have hhalf := bits_halfOpened s
  rcases bits_cases s.stateAtomic with h | h | h | h
  · rw [exec_allowRequest_closed _ h, exec_allowRequest_closed _ h]
  · rw [exec_allowRequest_open _ h, exec_allowRequest_open _ h,
      exec_allowRequest_halfOpen _ hhalf, exec_allowRequest_halfOpen _ hhalf]
  · rw [exec_allowRequest_halfOpen _ h, exec_allowRequest_halfOpen _ h]
  · unfold bits at h
    have h1 : (3 : UInt8) ≠ stateClosed := by decide
    have h2 : (3 : UInt8) ≠ stateOpen := by decide
    have h3 : (3 : UInt8) ≠ stateHalfOpen := by decide
    simp [allowRequest, loadState, h, h1, h2, h3]

/-- What a call of `allow_request` does: it passes a request through, turns it away, or admits a
probe, in a circuit that was half-open or has just become so. -/
theorem allowRequest_cases {r : Option Bool} (hmax : 0 < s.halfOpenMaxRequests)
    (hvalid : bits s.stateAtomic ≠ 3) (h : (allowRequest 2).exec s = (r, s')) :
    (r = some true ∧ bits s.stateAtomic = stateClosed ∧ s' = s) ∨
    (r = some false ∧ s' = s) ∨
    (r = some true ∧ bits s.stateAtomic = stateOpen ∧ s' = probing (halfOpened s)) ∨
    (r = some true ∧ bits s.stateAtomic = stateHalfOpen ∧
      (s.halfOpenInFlight = true → Stuck s) ∧ s' = probing s) := by
  rcases bits_cases s.stateAtomic with hb | hb | hb | hb
  · rw [exec_allowRequest_closed _ hb] at h
    cases h
    exact Or.inl ⟨rfl, hb, rfl⟩
  · rw [exec_allowRequest_open _ hb] at h
    split at h
    · have hhalf := bits_halfOpened s
      have hfree : ¬ (halfOpened s).halfOpenMaxRequests ≤
          probeCount (halfOpened s).stateAtomic := by
        have hzero : probeCount stateHalfOpen = 0 := by decide
        change ¬ s.halfOpenMaxRequests ≤ probeCount stateHalfOpen
        omega
      have hflight : (halfOpened s).halfOpenInFlight = false := rfl
      rw [exec_allowRequest_halfOpen _ hhalf, if_neg hfree, if_neg (by simp [hflight])] at h
      cases h
      exact Or.inr (Or.inr (Or.inl ⟨rfl, hb, rfl⟩))
    · cases h
      exact Or.inr (Or.inl ⟨rfl, rfl⟩)
  · rw [exec_allowRequest_halfOpen _ hb] at h
    split at h
    · cases h
      exact Or.inr (Or.inl ⟨rfl, rfl⟩)
    · split at h
      · cases h
        exact Or.inr (Or.inl ⟨rfl, rfl⟩)
      · next hn =>
        cases h
        refine Or.inr (Or.inr (Or.inr ⟨rfl, hb, ?_, rfl⟩))
        intro hf
        by_contra hs
        exact hn ⟨hf, hs⟩
  · exact absurd hb hvalid

theorem exec_abortProbe (s : ClockedBreaker) :
    abortProbe.exec s = ((), if bits s.stateAtomic = stateHalfOpen then
      { s with halfOpenProbeSentAtMs := 0, halfOpenInFlight := false } else s) := by
  by_cases h : s.stateAtomic &&& stateMask = stateHalfOpen
  · simp [abortProbe, loadState, storeProbeSent, storeInFlight, bits, h]
  · simp [abortProbe, loadState, bits, h]

/-! ## Outcomes -/

theorem onlyWindow_pushOutcome (isError : Bool) (s : ClockedBreaker) :
    OnlyWindow s ⟨pushOutcome isError s.toCircuitBreaker, s.nowMs⟩ := by
  unfold OnlyWindow pushOutcome
  dsimp only
  split
  · split <;> rfl
  · rfl

theorem exec_openLoop (n : ℕ) (s : ClockedBreaker) :
    ((openLoop (n + 1)).exec s).2 =
      ((recordOpenTransition (stateOf s.stateAtomic)).exec
        { s with stateAtomic := stateOpen }).2 := by
  simp [openLoop, loadState, compareExchangeState]

structure Opened (s s' : ClockedBreaker) : Prop extends Frame s s' where
  stateAtomic : s'.stateAtomic = stateOpen
  inFlight : s'.halfOpenInFlight = false

theorem opened_transitionToOpen (s : ClockedBreaker) : Opened s (transitionToOpen.exec s).2 := by
  simp only [transitionToOpen, monotonicElapsedMs, storeInFlight, exec_bind, exec_load,
    exec_modify, exec_openLoop, recordOpenTransition]
  split
  · exact ⟨⟨rfl, rfl, rfl⟩, rfl, rfl⟩
  · exact ⟨⟨rfl, rfl, rfl⟩, rfl, rfl⟩

structure Closed (s s' : ClockedBreaker) : Prop extends Frame s s' where
  stateAtomic : s'.stateAtomic = stateClosed
  inFlight : s'.halfOpenInFlight = false

theorem closed_transitionToClosed (s : ClockedBreaker) :
    Closed s (transitionToClosed.exec s).2 := by
  simp only [transitionToClosed, compareExchangeState, storeInFlight, exec_bind, exec_load,
    exec_modify, exec_modifyGet, if_true]
  exact ⟨⟨rfl, rfl, rfl⟩, rfl, rfl⟩

theorem recordSuccess_cases (h : (recordSuccess.exec s).2 = s') :
    (bits s.stateAtomic = stateClosed ∧ OnlyWindow s s') ∨
    (bits s.stateAtomic = stateHalfOpen ∧
      s.halfOpenMaxRequests ≤ probeCount s.stateAtomic + 1 ∧ Closed s s') ∨
    (bits s.stateAtomic = stateHalfOpen ∧
      probeCount s.stateAtomic + 1 < s.halfOpenMaxRequests ∧
      s' = { s with
        halfOpenInFlight := false
        stateAtomic := halfOpenByte (probeCount s.stateAtomic + 1) }) ∨
    (bits s.stateAtomic ≠ stateClosed ∧ bits s.stateAtomic ≠ stateHalfOpen ∧ s' = s) := by
  subst h
  by_cases hc : s.stateAtomic &&& stateMask = stateClosed
  · refine Or.inl ⟨hc, ?_⟩
    simp only [recordSuccess, loadState, exec_bind, exec_load, hc, if_true, exec_modify]
    exact onlyWindow_pushOutcome false s
  · by_cases hh : s.stateAtomic &&& stateMask = stateHalfOpen
    · have hne : stateHalfOpen ≠ stateClosed := by decide
      by_cases hm : s.halfOpenMaxRequests ≤ probeCount s.stateAtomic + 1
      · refine Or.inr (Or.inl ⟨hh, hm, ?_⟩)
        have hclosed := closed_transitionToClosed { s with halfOpenInFlight := false }
        have hexec : (recordSuccess.exec s).2 =
            (transitionToClosed.exec { s with halfOpenInFlight := false }).2 := by
          simp [recordSuccess, loadState, storeInFlight, readHalfOpenMax, hh, hne, hm]
        rw [hexec]
        exact ⟨⟨hclosed.nowMs, hclosed.halfOpenMaxRequests, hclosed.recoveryTimeoutSecs⟩,
          hclosed.stateAtomic, hclosed.inFlight⟩
      · refine Or.inr (Or.inr (Or.inl ⟨hh, by omega, ?_⟩))
        simp [recordSuccess, loadState, storeInFlight, readHalfOpenMax, compareExchangeState, hh,
          hne, hm]
    · refine Or.inr (Or.inr (Or.inr ⟨hc, hh, ?_⟩))
      simp [recordSuccess, loadState, hc, hh]

theorem exec_recordError_closed (h : bits s.stateAtomic = stateClosed) :
    recordError.exec s =
      (if tripsOpen s.windowSize s.errorThreshold
          (pushOutcome true s.toCircuitBreaker).window.length
          (pushOutcome true s.toCircuitBreaker).errorCount = true
        then transitionToOpen else pure () : Method Unit).exec
        ⟨pushOutcome true s.toCircuitBreaker, s.nowMs⟩ := by
  unfold bits at h
  simp only [recordError, loadState, exec_bind, exec_load, h, if_true]
  rfl

theorem exec_recordError_halfOpen (h : bits s.stateAtomic = stateHalfOpen) :
    (recordError.exec s).2 = (transitionToOpen.exec { s with halfOpenInFlight := false }).2 := by
  unfold bits at h
  have hne : stateHalfOpen ≠ stateClosed := by decide
  simp [recordError, loadState, storeInFlight, h, hne]

theorem recordError_cases (h : (recordError.exec s).2 = s') :
    (bits s.stateAtomic = stateClosed ∧ (OnlyWindow s s' ∨ Opened s s')) ∨
    (bits s.stateAtomic = stateHalfOpen ∧ Opened s s') ∨
    (bits s.stateAtomic ≠ stateClosed ∧ bits s.stateAtomic ≠ stateHalfOpen ∧ s' = s) := by
  subst h
  by_cases hc : bits s.stateAtomic = stateClosed
  · refine Or.inl ⟨hc, ?_⟩
    have hwindow := onlyWindow_pushOutcome true s
    rw [exec_recordError_closed hc, exec_ite]
    split
    · right
      have hopened := opened_transitionToOpen ⟨pushOutcome true s.toCircuitBreaker, s.nowMs⟩
      have hframe := hwindow.frame
      exact ⟨⟨hopened.nowMs, hopened.halfOpenMaxRequests.trans hframe.halfOpenMaxRequests,
        hopened.recoveryTimeoutSecs.trans hframe.recoveryTimeoutSecs⟩,
        hopened.stateAtomic, hopened.inFlight⟩
    · exact Or.inl hwindow
  · by_cases hh : bits s.stateAtomic = stateHalfOpen
    · refine Or.inr (Or.inl ⟨hh, ?_⟩)
      have hopened := opened_transitionToOpen { s with halfOpenInFlight := false }
      rw [exec_recordError_halfOpen hh]
      exact ⟨⟨hopened.nowMs, hopened.halfOpenMaxRequests, hopened.recoveryTimeoutSecs⟩,
        hopened.stateAtomic, hopened.inFlight⟩
    · refine Or.inr (Or.inr ⟨hc, hh, ?_⟩)
      unfold bits at hc hh
      simp [recordError, loadState, hc, hh]

end CircuitBreaker

end SentirumLb
