import SentirumLb.Breaker.Sequential

/-! # Requests that pass through a breaker

Requests are admitted by `allow_request` and end later, in any order, by
`record_success`, `record_error` or `abort_probe`. Here each call runs to its
end before the next one. None of these calls says which request it is for. The
run keeps what the breaker does not: in which state each request was admitted,
and how often the circuit had opened by then.
-/

namespace SentirumLb

namespace CircuitBreaker

open Prog

structure Admission where
  halfOpen : Bool
  /-- How often the circuit had opened before. -/
  epoch : ℕ
  deriving DecidableEq, Repr

structure Requests where
  breaker : ClockedBreaker
  outstanding : List Admission
  openings : ℕ
  succeeded : List Admission

inductive RequestLabel where
  | allow
  | finish (i : ℕ) (e : Ending)
  | tick (ms : ℕ)
  deriving DecidableEq, Repr

namespace Requests

def bits (s : Requests) : UInt8 := CircuitBreaker.bits s.breaker.stateAtomic

def countOpening (openings : ℕ) (b b' : ClockedBreaker) : ℕ :=
  if CircuitBreaker.bits b.stateAtomic ≠ stateOpen ∧ CircuitBreaker.bits b'.stateAtomic = stateOpen
  then openings + 1 else openings

def step (s : Requests) : RequestLabel → Option Requests
  | .allow =>
      let (r, b) := (allowRequest 2).exec s.breaker
      let admission : Admission :=
        { halfOpen := CircuitBreaker.bits b.stateAtomic = stateHalfOpen
          epoch := s.openings }
      some { s with
        breaker := b
        outstanding := if r = some true then s.outstanding ++ [admission] else s.outstanding }
  | .finish i e =>
      s.outstanding[i]?.map fun r =>
        let b := (e.method.exec s.breaker).2
        { breaker := b
          outstanding := s.outstanding.eraseIdx i
          openings := countOpening s.openings s.breaker b
          succeeded := if e = .success then s.succeeded ++ [r] else s.succeeded }
  | .tick ms => some { s with breaker := { s.breaker with nowMs := s.breaker.nowMs + ms } }

def initial (config : CircuitBreakerConfig) (nowMs : ℕ) : Requests :=
  ⟨⟨withConfig config, nowMs⟩, [], 0, []⟩

/-! ## The breaker along a run -/

structure Ready (config : CircuitBreakerConfig) (b : ClockedBreaker) : Prop where
  bits_ne : CircuitBreaker.bits b.stateAtomic ≠ 3
  max_eq : b.halfOpenMaxRequests = min (max config.halfOpenMaxRequests 1) 63
  recovery : b.recoveryTimeoutSecs = config.recoveryTimeoutSecs

variable {config : CircuitBreakerConfig} {b b' : ClockedBreaker} {s s' : Requests}
  {l : RequestLabel}

theorem ready_initial (config : CircuitBreakerConfig) (nowMs : ℕ) :
    Ready config (initial config nowMs).breaker := by
  refine ⟨?_, rfl, rfl⟩
  change CircuitBreaker.bits stateClosed ≠ 3
  decide

theorem Ready.max_pos (h : Ready config b) : 0 < b.halfOpenMaxRequests := by
  have hmax := h.max_eq
  omega

theorem Ready.max_le (h : Ready config b) : b.halfOpenMaxRequests ≤ 63 := by
  have hmax := h.max_eq
  omega

theorem Ready.of_frame (h : Ready config b) (hf : Frame b b')
    (hb : CircuitBreaker.bits b'.stateAtomic ≠ 3) : Ready config b' where
  bits_ne := hb
  max_eq := hf.halfOpenMaxRequests.trans h.max_eq
  recovery := hf.recoveryTimeoutSecs.trans h.recovery

theorem ready_finish {e : Ending} (h : Ready config b) (he : (e.method.exec b).2 = b') :
    Ready config b' := by
  cases e with
  | success =>
    rcases recordSuccess_cases he with ⟨-, hw⟩ | ⟨-, -, hc⟩ | ⟨-, -, rfl⟩ | ⟨-, -, rfl⟩
    · refine h.of_frame hw.frame ?_
      rw [hw.stateAtomic]
      exact h.bits_ne
    · refine h.of_frame hc.toFrame ?_
      rw [hc.stateAtomic]
      decide
    · refine h.of_frame ⟨rfl, rfl, rfl⟩ ?_
      change CircuitBreaker.bits (halfOpenByte _) ≠ 3
      rw [bits_halfOpenByte]
      decide
    · exact h
  | error =>
    rcases recordError_cases he with ⟨-, hw | ho⟩ | ⟨-, ho⟩ | ⟨-, -, rfl⟩
    · refine h.of_frame hw.frame ?_
      rw [hw.stateAtomic]
      exact h.bits_ne
    · refine h.of_frame ho.toFrame ?_
      rw [ho.stateAtomic]
      decide
    · refine h.of_frame ho.toFrame ?_
      rw [ho.stateAtomic]
      decide
    · exact h
  | abort =>
    subst he
    change Ready config (abortProbe.exec b).2
    rw [exec_abortProbe]
    dsimp only
    split
    · exact h.of_frame ⟨rfl, rfl, rfl⟩ h.bits_ne
    · exact h

theorem ready_allow {r : Option Bool} (h : Ready config b)
    (he : (allowRequest 2).exec b = (r, b')) : Ready config b' := by
  rcases allowRequest_cases h.max_pos h.bits_ne he with
    ⟨-, -, rfl⟩ | ⟨-, rfl⟩ | ⟨-, -, rfl⟩ | ⟨-, -, -, rfl⟩
  · exact h
  · exact h
  · refine h.of_frame ⟨rfl, rfl, rfl⟩ ?_
    rw [bits_probing, bits_halfOpened]
    decide
  · refine h.of_frame ⟨rfl, rfl, rfl⟩ ?_
    rw [bits_probing]
    exact h.bits_ne

theorem step_cases (h : s.step l = some s') :
    (∃ r b, l = .allow ∧ (allowRequest 2).exec s.breaker = (r, b) ∧
      s' = { s with
        breaker := b
        outstanding := if r = some true then s.outstanding ++
          [⟨CircuitBreaker.bits b.stateAtomic = stateHalfOpen, s.openings⟩]
          else s.outstanding }) ∨
    (∃ i e r b, l = .finish i e ∧ s.outstanding[i]? = some r ∧
      (e.method.exec s.breaker).2 = b ∧
      s' = ⟨b, s.outstanding.eraseIdx i, countOpening s.openings s.breaker b,
        if e = .success then s.succeeded ++ [r] else s.succeeded⟩) ∨
    (∃ ms, l = .tick ms ∧
      s' = { s with breaker := { s.breaker with nowMs := s.breaker.nowMs + ms } }) := by
  cases l with
  | allow =>
    cases h
    exact Or.inl ⟨_, _, rfl, rfl, rfl⟩
  | finish i e =>
    obtain ⟨r, hr, rfl⟩ := Option.map_eq_some_iff.mp h
    exact Or.inr (Or.inl ⟨i, e, r, _, rfl, hr, rfl, rfl⟩)
  | tick ms =>
    cases h
    exact Or.inr (Or.inr ⟨ms, rfl, rfl⟩)

theorem ready_step (h : Ready config s.breaker) (hstep : s.step l = some s') :
    Ready config s'.breaker := by
  rcases step_cases hstep with ⟨r, b, -, he, rfl⟩ | ⟨i, e, r, b, -, -, he, rfl⟩ | ⟨ms, -, rfl⟩
  · exact ready_allow h he
  · exact ready_finish h he
  · exact ⟨h.bits_ne, h.max_eq, h.recovery⟩

end Requests

end CircuitBreaker

end SentirumLb
