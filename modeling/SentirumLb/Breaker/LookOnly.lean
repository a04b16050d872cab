import SentirumLb.Breaker.Representation
import SentirumLb.Breaker.Sequential

/-! # The look-only check

`can_accept_request` answers what `allow_request` would answer, without
reserving a probe. It does not give up a probe that is taken to be lost, which
`allow_request` does, so a circuit that waits for such a probe is reported as
refusing every request.
-/

namespace SentirumLb

namespace CircuitBreaker

open Prog

variable {s : ClockedBreaker}

/-- The circuit waits for a probe that is taken to be lost, and may be probed again. -/
def AwaitsLostProbe (s : ClockedBreaker) : Prop :=
  bits s.stateAtomic = stateHalfOpen ∧ probeCount s.stateAtomic < s.halfOpenMaxRequests ∧
    s.halfOpenInFlight = true ∧ Stuck s

instance (s : ClockedBreaker) : Decidable (AwaitsLostProbe s) :=
  inferInstanceAs (Decidable (_ ∧ _ ∧ _ ∧ _))

theorem exec_canAcceptRequest_closed (h : bits s.stateAtomic = stateClosed) :
    (canAcceptRequest.exec s).1 = true := by
  unfold bits at h
  simp [canAcceptRequest, loadState, h]

theorem exec_canAcceptRequest_open (h : bits s.stateAtomic = stateOpen) :
    (canAcceptRequest.exec s).1 = decide (Recovered s) := by
  unfold bits at h
  have h1 : stateOpen ≠ stateClosed := by decide
  simp [canAcceptRequest, loadState, exec_recoveryElapsed, h, h1]

theorem exec_canAcceptRequest_halfOpen (h : bits s.stateAtomic = stateHalfOpen) :
    (canAcceptRequest.exec s).1 =
      (decide (probeCount s.stateAtomic < s.halfOpenMaxRequests) && !s.halfOpenInFlight) := by
  unfold bits at h
  have h1 : stateHalfOpen ≠ stateClosed := by decide
  have h2 : stateHalfOpen ≠ stateOpen := by decide
  by_cases hm : probeCount s.stateAtomic < s.halfOpenMaxRequests <;>
    simp [canAcceptRequest, loadState, readHalfOpenMax, loadInFlight, h, h1, h2, hm]

theorem exec_checks_of_bits_three (h : bits s.stateAtomic = 3) (n : ℕ) :
    (canAcceptRequest.exec s).1 = false ∧ ((allowRequest (n + 1)).exec s).1 = some false := by
  unfold bits at h
  have h1 : (3 : UInt8) ≠ stateClosed := by decide
  have h2 : (3 : UInt8) ≠ stateOpen := by decide
  have h3 : (3 : UInt8) ≠ stateHalfOpen := by decide
  simp [canAcceptRequest, allowRequest, loadState, h, h1, h2, h3]

theorem exec_allowRequest_open_fst (hmax : 0 < s.halfOpenMaxRequests)
    (h : bits s.stateAtomic = stateOpen) (n : ℕ) :
    ((allowRequest (n + 2)).exec s).1 = some (decide (Recovered s)) := by
  have hfree : ¬(halfOpened s).halfOpenMaxRequests ≤ probeCount (halfOpened s).stateAtomic := by
    have hzero : probeCount stateHalfOpen = 0 := by decide
    change ¬s.halfOpenMaxRequests ≤ probeCount stateHalfOpen
    omega
  have hflight : (halfOpened s).halfOpenInFlight = false := rfl
  rw [exec_allowRequest_open _ h]
  by_cases hr : Recovered s
  · rw [if_pos hr, exec_allowRequest_halfOpen _ (bits_halfOpened s), if_neg hfree,
      if_neg (by simp [hflight]), decide_eq_true hr]
  · rw [if_neg hr, decide_eq_false hr]

theorem checks_agree_iff (hmax : 0 < s.halfOpenMaxRequests) (n : ℕ) :
    ((allowRequest (n + 2)).exec s).1 = some (canAcceptRequest.exec s).1 ↔
      ¬AwaitsLostProbe s := by
  have hnot : bits s.stateAtomic ≠ stateHalfOpen → ¬AwaitsLostProbe s := fun h hs => h hs.1
  have h1 : stateClosed ≠ stateHalfOpen := by decide
  have h2 : stateOpen ≠ stateHalfOpen := by decide
  have h3 : (3 : UInt8) ≠ stateHalfOpen := by decide
  rcases bits_cases s.stateAtomic with h | h | h | h
  · rw [exec_allowRequest_closed _ h, exec_canAcceptRequest_closed h]
    exact ⟨fun _ => hnot (h ▸ h1), fun _ => rfl⟩
  · rw [exec_allowRequest_open_fst hmax h, exec_canAcceptRequest_open h]
    exact ⟨fun _ => hnot (h ▸ h2), fun _ => rfl⟩
  · rw [exec_allowRequest_halfOpen _ h, exec_canAcceptRequest_halfOpen h]
    unfold AwaitsLostProbe
    by_cases hm : s.halfOpenMaxRequests ≤ probeCount s.stateAtomic
    · simp [hm, not_lt.mpr hm]
    · by_cases hf : s.halfOpenInFlight = true
      · by_cases hs : Stuck s <;> simp [h, hm, hf, hs, not_le.mp hm]
      · simp [hm, hf, not_le.mp hm]
  · obtain ⟨hcan, hallow⟩ := exec_checks_of_bits_three h (n + 1)
    rw [hcan, hallow]
    exact ⟨fun _ => hnot (h ▸ h3), fun _ => rfl⟩

/-- In every state that interleaved operations reach, and at every time, the two checks agree
exactly when the circuit does not wait for a lost probe. -/
theorem checks_agree_iff_of_run {config : CircuitBreakerConfig} {startMs : ℕ}
    {ls : List OperationLabel} {p : Calls}
    (hrun : Runs.run operationStep (idle config startMs) ls = some p) (nowMs n : ℕ) :
    ((allowRequest (n + 2)).exec { p.shared with nowMs := nowMs }).1 =
        some (canAcceptRequest.exec { p.shared with nowMs := nowMs }).1 ↔
      ¬AwaitsLostProbe { p.shared with nowMs := nowMs } := by
  have hmax : 0 < min (Max.max config.halfOpenMaxRequests 1) 63 := by omega
  have hconfigured : Configured config p.shared.toCircuitBreaker :=
    run_effects (I := fun s => Configured config s.toCircuitBreaker) hmax
      (fun s h => h.halfOpenMaxRequests) (fun s s' he h => he.configured h) hrun
      (configured_withConfig config)
  exact checks_agree_iff (hconfigured.halfOpenMaxRequests.symm ▸ hmax) n

def lostProbeSchedule : List OperationLabel :=
  [OperationLabel.start (.call .recordError)] ++ List.replicate 8 (OperationLabel.run 0) ++
    [OperationLabel.start (.call (.allowRequest 2))] ++ List.replicate 14 (OperationLabel.run 1)

/-- While the probe may still report back, both checks refuse. -/
theorem checks_agree_lostProbeSchedule :
    ∃ p, Runs.run operationStep (idle tightConfig 5) lostProbeSchedule = some p ∧
      ((allowRequest 2).exec { p.shared with nowMs := 50 }).1 =
        some (canAcceptRequest.exec { p.shared with nowMs := 50 }).1 := by
  have hlost : (Runs.run operationStep (idle tightConfig 5) lostProbeSchedule).map (fun p =>
      decide (AwaitsLostProbe { p.shared with nowMs := 50 })) = some false := by decide +kernel
  obtain ⟨p, hp, hlost⟩ := Option.map_eq_some_iff.mp hlost
  exact ⟨p, hp, (checks_agree_iff_of_run hp 50 0).mpr (of_decide_eq_false hlost)⟩

/-- A hundred milliseconds later only `allow_request` would admit a request. -/
theorem checks_differ_lostProbeSchedule :
    ∃ p, Runs.run operationStep (idle tightConfig 5) (lostProbeSchedule ++ [.tick 100]) = some p ∧
      ((allowRequest 2).exec p.shared).1 = some true ∧
      (canAcceptRequest.exec p.shared).1 = false := by
  have hchecks : (Runs.run operationStep (idle tightConfig 5)
      (lostProbeSchedule ++ [.tick 100])).map (fun p =>
        (((allowRequest 2).exec p.shared).1, (canAcceptRequest.exec p.shared).1)) =
      some (some true, false) := by decide +kernel
  obtain ⟨p, hp, hchecks⟩ := Option.map_eq_some_iff.mp hchecks
  exact ⟨p, hp, Prod.mk.inj hchecks⟩

end CircuitBreaker

end SentirumLb
