import SentirumLb.Lib.Runs
import SentirumLb.Breaker.Requests

/-! # Probe evidence

The byte counts successes while half-open, and the counter is anonymous: a
request that was admitted before the circuit opened counts as a probe when it
ends in success while the circuit is half-open. Runs in which this does not
happen close only on the evidence of probes.
-/

namespace SentirumLb

namespace CircuitBreaker

namespace Requests

variable {config : CircuitBreakerConfig} {s s' : Requests} {l : RequestLabel}
  {ls : List RequestLabel} {nowMs : ℕ}

/-! ## Closing on evidence -/

/-- The probes admitted since the last opening that ended in success. -/
def evidence (s : Requests) : ℕ :=
  s.succeeded.countP fun r => r.halfOpen && r.epoch == s.openings

/-- A success recorded while half-open belongs to a probe admitted since the last opening. -/
def GenuineSuccess (s : Requests) : RequestLabel → Prop
  | .finish i .success => s.bits = stateHalfOpen →
      ∀ r ∈ s.outstanding[i]?, r.halfOpen = true ∧ r.epoch = s.openings
  | _ => True

/-- The counter of the byte does not exceed the evidence. -/
def Counted (s : Requests) : Prop :=
  s.bits = stateHalfOpen → probeCount s.breaker.stateAtomic ≤ s.evidence

theorem countOpening_of_ne_open {openings : ℕ} {b b' : ClockedBreaker}
    (h : CircuitBreaker.bits b'.stateAtomic ≠ stateOpen) :
    countOpening openings b b' = openings := by
  unfold countOpening
  rw [if_neg]
  rintro ⟨-, ho⟩
  exact h ho

theorem evidence_succ {b : ClockedBreaker} {r : Admission} {outstanding : List Admission}
    (hr : r.halfOpen = true ∧ r.epoch = s.openings)
    (hb : CircuitBreaker.bits b.stateAtomic ≠ stateOpen) :
    evidence ⟨b, outstanding, countOpening s.openings s.breaker b, s.succeeded ++ [r]⟩ =
      s.evidence + 1 := by
  unfold evidence
  rw [countOpening_of_ne_open hb, List.countP_append]
  simp [hr.1, hr.2]

/-- The counter stays within the evidence, and a half-open circuit closes only when the evidence is
complete. -/
structure Justified (s s' : Requests) : Prop where
  counted : Counted s'
  closes : s.bits = stateHalfOpen → s'.bits = stateClosed →
    s.breaker.halfOpenMaxRequests ≤ s'.evidence

theorem justified_of_byte_eq (hcount : Counted s)
    (hbyte : s'.breaker.stateAtomic = s.breaker.stateAtomic)
    (hle : s.bits = stateHalfOpen → s.evidence ≤ s'.evidence) : Justified s s' := by
  have hbits : s'.bits = s.bits := congrArg CircuitBreaker.bits hbyte
  constructor
  · intro hh
    have hhalf : s.bits = stateHalfOpen := hbits.symm.trans hh
    rw [hbyte]
    exact (hcount hhalf).trans (hle hhalf)
  · intro hh hc
    exact absurd (hh.symm.trans (hbits.symm.trans hc)) (by decide)

theorem justified_of_bits (hbits : s'.bits ≠ stateHalfOpen)
    (hor : s.bits ≠ stateHalfOpen ∨ s'.bits ≠ stateClosed) : Justified s s' := by
  constructor
  · intro hh
    exact absurd hh hbits
  · intro hh hc
    rcases hor with h | h
    · exact absurd hh h
    · exact absurd hc h

theorem justified_allow {r : Option Bool} {b : ClockedBreaker} {outstanding : List Admission}
    (hready : Ready config s.breaker) (hcount : Counted s)
    (he : (allowRequest 2).exec s.breaker = (r, b)) :
    Justified s { s with breaker := b, outstanding := outstanding } := by
  rcases allowRequest_cases hready.max_pos hready.bits_ne he with
    ⟨-, -, rfl⟩ | ⟨-, rfl⟩ | ⟨-, hb, rfl⟩ | ⟨-, -, -, rfl⟩
  · exact justified_of_byte_eq hcount rfl fun _ => le_rfl
  · exact justified_of_byte_eq hcount rfl fun _ => le_rfl
  · constructor
    · intro _
      have hzero : probeCount stateHalfOpen = 0 := by decide
      change probeCount stateHalfOpen ≤ _
      omega
    · intro hh
      exact absurd (hh.symm.trans hb) (by decide)
  · exact justified_of_byte_eq hcount rfl fun _ => le_rfl

theorem justified_success_halfOpen {r : Admission} {b : ClockedBreaker}
    {outstanding : List Admission} (hready : Ready config s.breaker) (hcount : Counted s)
    (hhalf : s.bits = stateHalfOpen) (hr : r.halfOpen = true ∧ r.epoch = s.openings)
    (he : (recordSuccess.exec s.breaker).2 = b) :
    Justified s ⟨b, outstanding, countOpening s.openings s.breaker b, s.succeeded ++ [r]⟩ := by
  have hle := hcount hhalf
  rcases recordSuccess_cases he with ⟨hc, -⟩ | ⟨-, hmax, hclosed⟩ | ⟨-, hlt, rfl⟩ | ⟨-, hn, -⟩
  · exact absurd (hhalf.symm.trans hc) (by decide)
  · have hbits : CircuitBreaker.bits b.stateAtomic = stateClosed := by
      rw [hclosed.stateAtomic]
      decide
    constructor
    · intro hh
      exact absurd (hbits.symm.trans hh) (by decide)
    · intro _ _
      rw [evidence_succ hr (by rw [hbits]; decide)]
      omega
  · have hbits : CircuitBreaker.bits (halfOpenByte (probeCount s.breaker.stateAtomic + 1)) =
        stateHalfOpen := bits_halfOpenByte _
    have hmax := hready.max_le
    constructor
    · intro _
      rw [evidence_succ hr (by dsimp only; rw [hbits]; decide)]
      dsimp only
      rw [probeCount_halfOpenByte (by omega)]
      omega
    · intro _ hc
      exact absurd (hbits.symm.trans hc) (by decide)
  · exact absurd hhalf hn

theorem justified_success_other {b : ClockedBreaker} {outstanding succeeded : List Admission}
    {n : ℕ} (hhalf : s.bits ≠ stateHalfOpen) (he : (recordSuccess.exec s.breaker).2 = b) :
    Justified s ⟨b, outstanding, n, succeeded⟩ := by
  refine justified_of_bits ?_ (Or.inl hhalf)
  rcases recordSuccess_cases he with ⟨-, hw⟩ | ⟨hb, -⟩ | ⟨hb, -⟩ | ⟨-, -, rfl⟩
  · rw [Requests.bits, hw.stateAtomic]
    exact hhalf
  · exact absurd hb hhalf
  · exact absurd hb hhalf
  · exact hhalf

theorem justified_error {b : ClockedBreaker} {outstanding succeeded : List Admission} {n : ℕ}
    (he : (recordError.exec s.breaker).2 = b) : Justified s ⟨b, outstanding, n, succeeded⟩ := by
  have hopened : Opened s.breaker b → Justified s ⟨b, outstanding, n, succeeded⟩ := by
    intro ho
    have hbits : CircuitBreaker.bits b.stateAtomic = stateOpen := by
      rw [ho.stateAtomic]
      decide
    apply justified_of_bits
    · change CircuitBreaker.bits b.stateAtomic ≠ stateHalfOpen
      rw [hbits]
      decide
    · right
      change CircuitBreaker.bits b.stateAtomic ≠ stateClosed
      rw [hbits]
      decide
  rcases recordError_cases he with ⟨hb, hw | ho⟩ | ⟨-, ho⟩ | ⟨-, hb, rfl⟩
  · have hclosed : s.bits ≠ stateHalfOpen := by
      intro hh
      exact absurd (hh.symm.trans hb) (by decide)
    refine justified_of_bits ?_ (Or.inl hclosed)
    rw [Requests.bits, hw.stateAtomic]
    exact hclosed
  · exact hopened ho
  · exact hopened ho
  · exact justified_of_bits hb (Or.inl hb)

theorem justified_abort {b : ClockedBreaker} {outstanding : List Admission} (hcount : Counted s)
    (he : (abortProbe.exec s.breaker).2 = b) :
    Justified s ⟨b, outstanding, countOpening s.openings s.breaker b, s.succeeded⟩ := by
  have hbyte : b.stateAtomic = s.breaker.stateAtomic := by
    rw [← he, exec_abortProbe]
    dsimp only
    split <;> rfl
  apply justified_of_byte_eq hcount hbyte
  intro hhalf
  have hopenings : countOpening s.openings s.breaker b = s.openings := by
    apply countOpening_of_ne_open
    rw [hbyte]
    exact fun ho => absurd (hhalf.symm.trans ho) (by decide)
  unfold evidence
  rw [hopenings]

theorem justified_step (hready : Ready config s.breaker) (hcount : Counted s)
    (hgenuine : GenuineSuccess s l) (hstep : s.step l = some s') : Justified s s' := by
  rcases step_cases hstep with ⟨r, b, rfl, he, rfl⟩ | ⟨i, e, r, b, rfl, hr, he, rfl⟩ |
    ⟨ms, rfl, rfl⟩
  · exact justified_allow hready hcount he
  · cases e with
    | success =>
      by_cases hhalf : s.bits = stateHalfOpen
      · exact justified_success_halfOpen hready hcount hhalf (hgenuine hhalf r hr) he
      · exact justified_success_other hhalf he
    | error => exact justified_error he
    | abort => exact justified_abort hcount he
  · exact justified_of_byte_eq hcount rfl fun _ => le_rfl

theorem counted_initial (config : CircuitBreakerConfig) (nowMs : ℕ) :
    Counted (initial config nowMs) := by
  intro h
  exact absurd h (by change CircuitBreaker.bits stateClosed ≠ stateHalfOpen; decide)

/-- In every run in which only probes record a success while half-open, the circuit closes only
after `half_open_max_requests` probes admitted since the last opening ended in success. -/
theorem closes_on_evidence {before after : List RequestLabel}
    (hgenuine : Runs.Meets step GenuineSuccess (initial config nowMs) (before ++ l :: after))
    (hrun : Runs.run step (initial config nowMs) before = some s) (hstep : s.step l = some s')
    (hhalf : s.bits = stateHalfOpen) (hclosed : s'.bits = stateClosed) :
    s'.breaker.halfOpenMaxRequests ≤ s'.evidence := by
  rw [List.append_cons] at hgenuine
  have hpart := hgenuine.append_left
  obtain ⟨hready, hcount⟩ := Runs.invariant_of_meets
    (I := fun s => Ready config s.breaker ∧ Counted s)
    (fun _ _ _ hI hC hs => ⟨ready_step hI.1 hs, (justified_step hI.1 hI.2 hC hs).counted⟩)
    hpart.append_left hrun ⟨ready_initial config nowMs, counted_initial config nowMs⟩
  have hclose := (justified_step hready hcount (hpart.last hrun) hstep).closes hhalf hclosed
  have hmax := (ready_step hready hstep).max_eq
  rwa [hmax, ← hready.max_eq]

instance (s : Requests) (l : RequestLabel) : Decidable (GenuineSuccess s l) :=
  match l with
  | .finish i .success => inferInstanceAs (Decidable (s.bits = stateHalfOpen →
      ∀ r ∈ s.outstanding[i]?, r.halfOpen = true ∧ r.epoch = s.openings))
  | .finish _ .error => .isTrue trivial
  | .finish _ .abort => .isTrue trivial
  | .allow => .isTrue trivial
  | .tick _ => .isTrue trivial

theorem closes_on_evidence_one_probe :
    ∃ s s', Runs.run step (initial tightConfig 0) [.allow, .finish 0 .error, .allow] = some s ∧
      s.step (.finish 0 .success) = some s' ∧ s.bits = stateHalfOpen ∧ s'.bits = stateClosed ∧
      s'.breaker.halfOpenMaxRequests ≤ s'.evidence := by
  have hbits : (Runs.run step (initial tightConfig 0) [.allow, .finish 0 .error, .allow]).bind
      (fun s => (s.step (.finish 0 .success)).map fun s' => (s.bits, s'.bits)) =
      some (stateHalfOpen, stateClosed) := by decide +kernel
  obtain ⟨s, hs, hbits⟩ := Option.bind_eq_some_iff.mp hbits
  obtain ⟨s', hs', hbits⟩ := Option.map_eq_some_iff.mp hbits
  obtain ⟨h1, h2⟩ := Prod.mk.inj hbits
  have hgenuine : Runs.Meets step GenuineSuccess (initial tightConfig 0)
      ([.allow, .finish 0 .error, .allow] ++ .finish 0 .success :: []) := by decide +kernel
  exact ⟨s, s', hs, hs', h1, h2, closes_on_evidence hgenuine hs hs' h1 h2⟩

/-- A request admitted while closed ends in success after the circuit opened and went half-open,
and closes it although no probe has ended. -/
theorem closes_without_evidence :
    ∃ s s', Runs.run step (initial tightConfig 0) [.allow, .allow, .finish 1 .error, .allow] =
        some s ∧ s.step (.finish 0 .success) = some s' ∧ s.bits = stateHalfOpen ∧
      s'.bits = stateClosed ∧ ¬ s'.breaker.halfOpenMaxRequests ≤ s'.evidence := by
  have hbits : (Runs.run step (initial tightConfig 0)
      [.allow, .allow, .finish 1 .error, .allow]).bind (fun s =>
        (s.step (.finish 0 .success)).map fun s' =>
          (s.bits, s'.bits, decide (s'.breaker.halfOpenMaxRequests ≤ s'.evidence))) =
      some (stateHalfOpen, stateClosed, false) := by decide +kernel
  obtain ⟨s, hs, hbits⟩ := Option.bind_eq_some_iff.mp hbits
  obtain ⟨s', hs', hbits⟩ := Option.map_eq_some_iff.mp hbits
  obtain ⟨h1, hbits⟩ := Prod.mk.inj hbits
  obtain ⟨h2, h3⟩ := Prod.mk.inj hbits
  exact ⟨s, s', hs, hs', h1, h2, of_decide_eq_false h3⟩

end Requests

end CircuitBreaker

end SentirumLb
