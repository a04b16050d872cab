import SentirumLb.Breaker.Requests

/-! # Open until recovery

Operations are performed one at a time, each some milliseconds after the one
before. From the moment the circuit opens, no operation but `allow_request`
changes anything, and that one turns requests away until the recovery timeout
has passed. The time at which the circuit opened is not moved by outcomes that
come in late.
-/

namespace SentirumLb

namespace CircuitBreaker

open Prog

/-- An operation; `allow_request` with rounds of its loop beyond the two that it needs. -/
inductive SeqCall where
  | allowRequest (rounds : ℕ)
  | finish (e : Ending)
  | canAcceptRequest

structure TimedCall where
  waitMs : ℕ
  call : SeqCall

def SeqCall.isAllow : SeqCall → Bool
  | .allowRequest _ => true
  | _ => false

def SeqCall.exec (s : ClockedBreaker) : SeqCall → Option Bool × ClockedBreaker
  | .allowRequest rounds => (CircuitBreaker.allowRequest (rounds + 2)).exec s
  | .finish e => (none, (e.method.exec s).2)
  | .canAcceptRequest => (none, (CircuitBreaker.canAcceptRequest.exec s).2)

def advance (s : ClockedBreaker) (ms : ℕ) : ClockedBreaker := { s with nowMs := s.nowMs + ms }

def perform (s : ClockedBreaker) (c : TimedCall) : Option Bool × ClockedBreaker :=
  c.call.exec (advance s c.waitMs)

def performAll (s : ClockedBreaker) (cs : List TimedCall) : ClockedBreaker :=
  cs.foldl (fun s c => (perform s c).2) s

def AllowsBefore (deadline : ℕ) (s : ClockedBreaker) : List TimedCall → Prop
  | [] => True
  | c :: cs => (c.call.isAllow = true → s.nowMs + c.waitMs < deadline) ∧
      AllowsBefore deadline (perform s c).2 cs

variable {config : CircuitBreakerConfig} {s s' : ClockedBreaker} {c : TimedCall}

/-! ## The operations -/

theorem openedAtMs_transitionToOpen (s : ClockedBreaker) :
    (transitionToOpen.exec s).2.openedAtMs = s.nowMs := by
  simp only [transitionToOpen, monotonicElapsedMs, storeInFlight, exec_bind, exec_load,
    exec_modify, exec_openLoop, recordOpenTransition]
  split <;> rfl

theorem openedAtMs_recordError (hne : bits s.stateAtomic ≠ stateOpen)
    (ho : bits (recordError.exec s).2.stateAtomic = stateOpen) :
    (recordError.exec s).2.openedAtMs = s.nowMs := by
  by_cases hc : bits s.stateAtomic = stateClosed
  · rw [exec_recordError_closed hc, exec_ite] at ho ⊢
    split
    · exact openedAtMs_transitionToOpen _
    · next ht =>
      rw [if_neg ht] at ho
      have hsame := (onlyWindow_pushOutcome true s).stateAtomic
      exact absurd (hsame ▸ ho) hne
  · by_cases hh : bits s.stateAtomic = stateHalfOpen
    · rw [exec_recordError_halfOpen hh]
      exact openedAtMs_transitionToOpen _
    · rcases recordError_cases (s := s) rfl with ⟨hb, -⟩ | ⟨hb, -⟩ | ⟨-, -, hs⟩
      · exact absurd hb hc
      · exact absurd hb hh
      · rw [hs] at ho
        exact absurd ho hne

theorem Requests.Ready.exec (h : Requests.Ready config s) (call : SeqCall) :
    Requests.Ready config (call.exec s).2 := by
  cases call with
  | allowRequest rounds =>
    rw [SeqCall.exec, exec_allowRequest_rounds]
    exact Requests.ready_allow h rfl
  | finish e => exact Requests.ready_finish h rfl
  | canAcceptRequest =>
    rw [SeqCall.exec, exec_canAcceptRequest_state]
    exact h

theorem Requests.Ready.advance (h : Requests.Ready config s) (ms : ℕ) :
    Requests.Ready config (CircuitBreaker.advance s ms) :=
  ⟨h.bits_ne, h.max_eq, h.recovery⟩

theorem Requests.Ready.perform (h : Requests.Ready config s) (c : TimedCall) :
    Requests.Ready config (CircuitBreaker.perform s c).2 :=
  (h.advance c.waitMs).exec c.call

theorem ready_performAll (config : CircuitBreakerConfig) (nowMs : ℕ) (cs : List TimedCall) :
    Requests.Ready config (performAll ⟨withConfig config, nowMs⟩ cs) := by
  unfold performAll
  induction cs using List.reverseRecOn with
  | nil => exact Requests.ready_initial config nowMs
  | append_singleton cs c ih =>
    rw [List.foldl_append]
    exact ih.perform c

theorem nowMs_exec (h : Requests.Ready config s) (call : SeqCall) :
    (call.exec s).2.nowMs = s.nowMs := by
  cases call with
  | allowRequest rounds =>
    obtain ⟨r, s', he⟩ : ∃ r s', (CircuitBreaker.allowRequest 2).exec s = (r, s') := ⟨_, _, rfl⟩
    rw [SeqCall.exec, exec_allowRequest_rounds, he]
    rcases allowRequest_cases h.max_pos h.bits_ne he with
      ⟨-, -, rfl⟩ | ⟨-, rfl⟩ | ⟨-, -, rfl⟩ | ⟨-, -, -, rfl⟩ <;> rfl
  | finish e =>
    cases e with
    | success =>
      rcases recordSuccess_cases (s := s) rfl with ⟨-, hw⟩ | ⟨-, -, hc⟩ | ⟨-, -, hs⟩ | ⟨-, -, hs⟩
      · exact hw.frame.nowMs
      · exact hc.nowMs
      · exact congrArg (·.nowMs) hs
      · exact congrArg (·.nowMs) hs
    | error =>
      rcases recordError_cases (s := s) rfl with ⟨-, hw | ho⟩ | ⟨-, ho⟩ | ⟨-, -, hs⟩
      · exact hw.frame.nowMs
      · exact ho.nowMs
      · exact ho.nowMs
      · exact congrArg (·.nowMs) hs
    | abort =>
      change (abortProbe.exec s).2.nowMs = s.nowMs
      rw [exec_abortProbe]
      dsimp only
      split <;> rfl
  | canAcceptRequest => rw [SeqCall.exec, exec_canAcceptRequest_state]

theorem nowMs_perform (h : Requests.Ready config s) (c : TimedCall) :
    (perform s c).2.nowMs = s.nowMs + c.waitMs :=
  nowMs_exec (h.advance c.waitMs) c.call

theorem openedAtMs_exec (h : Requests.Ready config s) {call : SeqCall}
    (hne : bits s.stateAtomic ≠ stateOpen)
    (ho : bits (call.exec s).2.stateAtomic = stateOpen) :
    (call.exec s).2.openedAtMs = s.nowMs := by
  cases call with
  | allowRequest rounds =>
    obtain ⟨r, s', he⟩ : ∃ r s', (CircuitBreaker.allowRequest 2).exec s = (r, s') := ⟨_, _, rfl⟩
    rw [SeqCall.exec, exec_allowRequest_rounds, he] at ho
    rcases allowRequest_cases h.max_pos h.bits_ne he with
      ⟨-, -, rfl⟩ | ⟨-, rfl⟩ | ⟨-, -, rfl⟩ | ⟨-, -, -, rfl⟩
    · exact absurd ho hne
    · exact absurd ho hne
    · rw [bits_probing, bits_halfOpened] at ho
      exact absurd ho (by decide)
    · exact absurd ho hne
  | finish e =>
    cases e with
    | success =>
      change bits (recordSuccess.exec s).2.stateAtomic = stateOpen at ho
      rcases recordSuccess_cases (s := s) rfl with ⟨-, hw⟩ | ⟨-, -, hc⟩ | ⟨-, -, hs⟩ | ⟨-, -, hs⟩
      · rw [hw.stateAtomic] at ho
        exact absurd ho hne
      · rw [hc.stateAtomic] at ho
        exact absurd ho (by decide)
      · rw [hs, bits_halfOpenByte] at ho
        exact absurd ho (by decide)
      · rw [hs] at ho
        exact absurd ho hne
    | error => exact openedAtMs_recordError hne ho
    | abort =>
      change bits (abortProbe.exec s).2.stateAtomic = stateOpen at ho
      rw [exec_abortProbe] at ho
      dsimp only at ho
      split at ho
      · exact absurd ho hne
      · exact absurd ho hne
  | canAcceptRequest =>
    rw [SeqCall.exec, exec_canAcceptRequest_state] at ho
    exact absurd ho hne

theorem nowMs_le_performAll (h : Requests.Ready config s) (cs : List TimedCall) :
    s.nowMs ≤ (performAll s cs).nowMs := by
  induction cs generalizing s with
  | nil => exact le_rfl
  | cons c cs ih =>
    have hnow := nowMs_perform h c
    have hle : (perform s c).2.nowMs ≤ (performAll s (c :: cs)).nowMs := ih (h.perform c)
    omega

theorem allowsBefore_of_nowMs_lt {deadline : ℕ} {cs : List TimedCall}
    (h : Requests.Ready config s) (ht : (performAll s cs).nowMs < deadline) :
    AllowsBefore deadline s cs := by
  induction cs generalizing s with
  | nil => trivial
  | cons c cs ih =>
    refine ⟨fun _ => ?_, ih (h.perform c) ht⟩
    have hle : (perform s c).2.nowMs ≤ (performAll s (c :: cs)).nowMs :=
      nowMs_le_performAll (h.perform c) cs
    rw [nowMs_perform h c] at hle
    omega

/-! ## While the circuit is open -/

theorem exec_of_open (hb : bits s.stateAtomic = stateOpen) {call : SeqCall}
    (hcall : call.isAllow = false) : (call.exec s).2 = s := by
  have hne1 : bits s.stateAtomic ≠ stateClosed := by
    rw [hb]
    decide
  have hne2 : bits s.stateAtomic ≠ stateHalfOpen := by
    rw [hb]
    decide
  cases call with
  | allowRequest rounds => cases hcall
  | finish e =>
    cases e with
    | success =>
      rcases recordSuccess_cases (s := s) rfl with ⟨h, -⟩ | ⟨h, -⟩ | ⟨h, -⟩ | ⟨-, -, hs⟩
      · exact absurd h hne1
      · exact absurd h hne2
      · exact absurd h hne2
      · exact hs
    | error =>
      rcases recordError_cases (s := s) rfl with ⟨h, -⟩ | ⟨h, -⟩ | ⟨-, -, hs⟩
      · exact absurd h hne1
      · exact absurd h hne2
      · exact hs
    | abort =>
      change (abortProbe.exec s).2 = s
      rw [exec_abortProbe, if_neg hne2]
  | canAcceptRequest => exact exec_canAcceptRequest_state s

structure OpenSince (config : CircuitBreakerConfig) (t0 : ℕ) (s : ClockedBreaker) : Prop where
  ready : Requests.Ready config s
  isOpen : bits s.stateAtomic = stateOpen
  openedAt : s.openedAtMs = t0
  le_now : t0 ≤ s.nowMs

theorem OpenSince.advance {t0 : ℕ} (h : OpenSince config t0 s) (ms : ℕ) :
    OpenSince config t0 (CircuitBreaker.advance s ms) :=
  ⟨h.ready.advance ms, h.isOpen, h.openedAt, h.le_now.trans (Nat.le_add_right _ _)⟩

section Recovery

variable {t0 : ℕ} (hrec : config.recoveryTimeoutSecs * 1000 < 2 ^ 64)

include hrec

theorem OpenSince.recovered_iff (h : OpenSince config t0 s) :
    Recovered s ↔ t0 + config.recoveryTimeoutSecs * 1000 ≤ s.nowMs := by
  have hle := h.le_now
  unfold Recovered
  rw [h.ready.recovery, Nat.mod_eq_of_lt hrec, h.openedAt]
  omega

/-- Before the recovery timeout has passed, requests are turned away and nothing changes. -/
theorem OpenSince.allow_early (h : OpenSince config t0 s) (rounds : ℕ)
    (ht : s.nowMs < t0 + config.recoveryTimeoutSecs * 1000) :
    (SeqCall.allowRequest rounds).exec s = (some false, s) := by
  have hnot : ¬ Recovered s := by
    rw [h.recovered_iff hrec]
    omega
  rw [SeqCall.exec, exec_allowRequest_open _ h.isOpen, if_neg hnot]

/-- Once it has passed, the next request is admitted as a probe. -/
theorem OpenSince.allow_late (h : OpenSince config t0 s) (rounds : ℕ)
    (ht : t0 + config.recoveryTimeoutSecs * 1000 ≤ s.nowMs) :
    (SeqCall.allowRequest rounds).exec s = (some true, probing (halfOpened s)) := by
  have hfree : ¬ (halfOpened s).halfOpenMaxRequests ≤ probeCount (halfOpened s).stateAtomic := by
    have hzero : probeCount stateHalfOpen = 0 := by decide
    have hpos := h.ready.max_pos
    change ¬ s.halfOpenMaxRequests ≤ probeCount stateHalfOpen
    omega
  have hflight : (halfOpened s).halfOpenInFlight = false := rfl
  rw [SeqCall.exec, exec_allowRequest_open _ h.isOpen, if_pos ((h.recovered_iff hrec).mpr ht),
    exec_allowRequest_halfOpen _ (bits_halfOpened s), if_neg hfree, if_neg (by simp [hflight])]

theorem OpenSince.perform (h : OpenSince config t0 s)
    (hc : c.call.isAllow = true →
      s.nowMs + c.waitMs < t0 + config.recoveryTimeoutSecs * 1000) :
    OpenSince config t0 (CircuitBreaker.perform s c).2 := by
  have hlater := h.advance c.waitMs
  have hsame : (CircuitBreaker.perform s c).2 = CircuitBreaker.advance s c.waitMs := by
    obtain ⟨waitMs, call⟩ := c
    cases hcall : call.isAllow with
    | false => exact exec_of_open hlater.isOpen hcall
    | true =>
      cases call with
      | allowRequest rounds => exact congrArg (·.2) (hlater.allow_early hrec rounds (hc hcall))
      | finish e => cases hcall
      | canAcceptRequest => cases hcall
  rw [hsame]
  exact hlater

theorem OpenSince.performAll {cs : List TimedCall} (h : OpenSince config t0 s)
    (hcs : AllowsBefore (t0 + config.recoveryTimeoutSecs * 1000) s cs) :
    OpenSince config t0 (CircuitBreaker.performAll s cs) := by
  induction cs generalizing s with
  | nil => exact h
  | cons c cs ih => exact ih (h.perform hrec hcs.1) hcs.2

end Recovery

/-- When an operation opens the circuit, requests are turned away until the recovery timeout has
passed, no outcome in the meantime moves the time of the opening, and the first request after that
is admitted as a probe. -/
theorem open_until_recovery {nowMs : ℕ} {before : List TimedCall}
    (hrec : config.recoveryTimeoutSecs * 1000 < 2 ^ 64)
    (hs : performAll ⟨withConfig config, nowMs⟩ before = s) (hs' : (perform s c).2 = s')
    (hne : bits s.stateAtomic ≠ stateOpen) (hopens : bits s'.stateAtomic = stateOpen) :
    let deadline := s'.nowMs + config.recoveryTimeoutSecs * 1000
    (∀ cs waitMs rounds, (performAll s' cs).nowMs + waitMs < deadline →
      (perform (performAll s' cs) ⟨waitMs, .allowRequest rounds⟩).1 = some false) ∧
    (∀ cs, AllowsBefore deadline s' cs →
      bits (performAll s' cs).stateAtomic = stateOpen ∧
        (performAll s' cs).openedAtMs = s'.nowMs) ∧
    (∀ cs waitMs rounds, AllowsBefore deadline s' cs →
      deadline ≤ (performAll s' cs).nowMs + waitMs →
      (perform (performAll s' cs) ⟨waitMs, .allowRequest rounds⟩).1 = some true ∧
        bits (perform (performAll s' cs) ⟨waitMs, .allowRequest rounds⟩).2.stateAtomic =
          stateHalfOpen) := by
  intro deadline
  have hready : Requests.Ready config s := hs ▸ ready_performAll config nowMs before
  have hready' : Requests.Ready config s' := hs' ▸ hready.perform c
  have hopen : OpenSince config s'.nowMs s' := by
    refine ⟨hready', hopens, ?_, le_rfl⟩
    subst hs'
    rw [nowMs_perform hready c]
    exact openedAtMs_exec (hready.advance c.waitMs) hne hopens
  have hlater : ∀ cs waitMs, AllowsBefore deadline s' cs →
      OpenSince config s'.nowMs (advance (performAll s' cs) waitMs) :=
    fun cs waitMs hcs => (hopen.performAll hrec hcs).advance waitMs
  refine ⟨?_, ?_, ?_⟩
  · intro cs waitMs rounds ht
    have hcs : AllowsBefore deadline s' cs := allowsBefore_of_nowMs_lt hready' (by omega)
    exact congrArg (·.1) ((hlater cs waitMs hcs).allow_early hrec rounds ht)
  · intro cs hcs
    have h := hopen.performAll hrec hcs
    exact ⟨h.isOpen, h.openedAt⟩
  · intro cs waitMs rounds hcs ht
    have hexec := (hlater cs waitMs hcs).allow_late hrec rounds ht
    refine ⟨congrArg (·.1) hexec, ?_⟩
    rw [perform, hexec, bits_probing, bits_halfOpened]

def slowConfig : CircuitBreakerConfig := { tightConfig with recoveryTimeoutSecs := 2 }

/-- A late error half-way through the timeout does not delay the probe. -/
theorem open_until_recovery_lateError :
    (perform (performAll (perform ⟨withConfig slowConfig, 0⟩ ⟨5, .finish .error⟩).2
      [⟨1000, .finish .error⟩]) ⟨999, .allowRequest 0⟩).1 = some false ∧
    (perform (performAll (perform ⟨withConfig slowConfig, 0⟩ ⟨5, .finish .error⟩).2
      [⟨1000, .finish .error⟩]) ⟨1000, .allowRequest 0⟩).1 = some true := by
  have hstart : performAll ⟨withConfig slowConfig, 0⟩ [] = ⟨withConfig slowConfig, 0⟩ := rfl
  have h := open_until_recovery (c := ⟨5, .finish .error⟩) (by decide) hstart rfl (by decide)
    (by decide +kernel)
  constructor
  · exact h.1 [⟨1000, .finish .error⟩] 999 0 (by decide +kernel)
  · have hcs : AllowsBefore ((perform ⟨withConfig slowConfig, 0⟩ ⟨5, .finish .error⟩).2.nowMs +
        slowConfig.recoveryTimeoutSecs * 1000)
        (perform ⟨withConfig slowConfig, 0⟩ ⟨5, .finish .error⟩).2 [⟨1000, .finish .error⟩] :=
      ⟨by simp [SeqCall.isAllow], trivial⟩
    exact (h.2.2 _ 1000 0 hcs (by decide +kernel)).1

end CircuitBreaker

end SentirumLb
