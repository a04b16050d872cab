import SentirumLb.Breaker.Basic
import SentirumLb.Lib.Lists
import SentirumLb.Lib.Runs

/-! # Probes of requests whose calls overlap

A request calls `allow_request` and, when it is admitted, later one of the three
methods that end it. The accesses of all these calls interleave in any order.
The flag that a probe takes is anonymous: a call can clear it that does not
belong to the probe, be it the end of another request or a transition that
another call has begun. While nothing clears the flag under the request that
took it, there is one probe at a time.
-/

namespace SentirumLb

namespace CircuitBreaker

open Prog

structure Traces where
  seen : UInt8
  reserved : Bool
  deriving DecidableEq

namespace Traces

def note (l : Access) (s s' : ClockedBreaker) (t : Traces) : Traces where
  seen := if l = .stateAtomic then bits s.stateAtomic else t.seen
  reserved := t.reserved || (!s.halfOpenInFlight && s'.halfOpenInFlight)

theorem reserved_note {l : Access} {s s' : ClockedBreaker} {t : Traces} (h : t.reserved = true) :
    (note l s s' t).reserved = true := by
  simp [note, h]

end Traces

structure Request where
  call : Method (Option Bool)
  traces : Traces
  /-- The call that ends it has begun. -/
  ended : Bool

namespace Request

def arriving (rounds : ℕ) : Request := ⟨allowRequest rounds, ⟨stateClosed, false⟩, false⟩

def finish (e : Ending) (r : Request) : Request :=
  { r with call := (do e.method; return none), ended := true }

def inFlight (r : Request) : Bool := !r.ended && r.call.result == some (some true)

def isProbe (r : Request) : Bool := r.inFlight && r.traces.seen == stateHalfOpen

def holdsFlag (r : Request) : Bool := !r.ended && r.traces.reserved

/-- The next access of the request clears the in-flight flag. -/
def clearsFlag (r : Request) (b : ClockedBreaker) : Bool :=
  match r.call with
  | .act _ upd _ => b.halfOpenInFlight && !(upd b).halfOpenInFlight
  | .ret _ => false

end Request

structure Admissions where
  breaker : ClockedBreaker
  requests : List Request

inductive AdmissionLabel where
  | arrive (rounds : ℕ)
  | finish (i : ℕ) (e : Ending)
  | run (i : ℕ)
  | tick (ms : ℕ)
  deriving DecidableEq, Repr

namespace Admissions

def step (s : Admissions) : AdmissionLabel → Option Admissions
  | .arrive rounds => some { s with requests := s.requests ++ [.arriving rounds] }
  | .finish i e =>
      match s.requests[i]? with
      | some r =>
          if r.inFlight then some { s with requests := s.requests.set i (r.finish e) } else none
      | none => none
  | .run i =>
      match s.requests[i]? with
      | some ⟨.act l upd next, traces, ended⟩ =>
          some ⟨upd s.breaker, s.requests.set i
            ⟨next s.breaker, traces.note l s.breaker (upd s.breaker), ended⟩⟩
      | _ => none
  | .tick ms => some { s with breaker := { s.breaker with nowMs := s.breaker.nowMs + ms } }

def initial (config : CircuitBreakerConfig) (nowMs : ℕ) : Admissions :=
  ⟨⟨withConfig config, nowMs⟩, []⟩

def probes (s : Admissions) : ℕ := s.requests.countP (·.isProbe)

/-- The flag is not cleared under a request that set it and has not ended. -/
def KeepsFlag (s : Admissions) : AdmissionLabel → Prop
  | .run i => (∀ r ∈ s.requests[i]?, r.clearsFlag s.breaker = true →
      ∀ q ∈ s.requests, q.holdsFlag = false)
  | _ => True

instance (s : Admissions) (l : AdmissionLabel) : Decidable (KeepsFlag s l) :=
  match l with
  | .run i => inferInstanceAs (Decidable (∀ r ∈ s.requests[i]?, r.clearsFlag s.breaker = true →
      ∀ q ∈ s.requests, q.holdsFlag = false))
  | .arrive _ => .isTrue trivial
  | .finish _ _ => .isTrue trivial
  | .tick _ => .isTrue trivial

end Admissions

/-! ## Admitting a probe -/

abbrev Leaves {α : Type} (t : Traces) (m : Method α) (Q : α → Traces → Prop) : Prop :=
  m.Notes Traces.note t Q

namespace Traces

variable {α : Type} {t : Traces}

theorem leaves_any (m : Method α) : Leaves t m fun _ _ => True :=
  notes_of_kept (I := fun _ => True) (fun _ _ _ _ _ => trivial) m trivial

theorem leaves_reserved (m : Method α) (h : t.reserved = true) :
    Leaves t m fun _ (t : Traces) => t.reserved = true :=
  notes_of_kept (I := fun t : Traces => t.reserved = true) (fun _ _ _ _ => reserved_note) m h

theorem leaves_loadState : Leaves t loadState fun state t => t.seen = bits state :=
  fun _ => rfl

theorem leaves_reserveInFlight :
    Leaves t reserveInFlight fun ok t => ok = true → t.reserved = true := by
  intro s hok
  have hclear : s.halfOpenInFlight = false := by simpa using hok
  simp [note, hclear]

/-- A request that is admitted with the half-open state in view has set the flag. -/
def Reserves (r : Option Bool) (t : Traces) : Prop :=
  r = some true → t.seen = stateHalfOpen → t.reserved = true

theorem leaves_of_ne {r : Option Bool} (h : r ≠ some true) :
    Leaves t (pure r) Reserves := fun hr => absurd hr h

theorem leaves_allowRequest (rounds : ℕ) : Leaves t (allowRequest rounds) Reserves := by
  induction rounds generalizing t with
  | zero => exact leaves_of_ne (by simp)
  | succ rounds ih =>
    refine notes_bind leaves_loadState fun state t hseen => ?_
    split
    · next hclosed =>
      intro _ hhalf
      exact absurd (hclosed.symm.trans (hseen.symm.trans hhalf)) (by decide)
    · split
      · refine notes_bind (leaves_any _) fun elapsed t _ => ?_
        split
        · refine notes_bind (leaves_any _) fun changed t _ => ?_
          split
          · exact ih
          · exact leaves_of_ne (by simp)
        · exact leaves_of_ne (by simp)
      · split
        · refine notes_bind (leaves_any _) fun max t _ => ?_
          split
          · exact leaves_of_ne (by simp)
          · refine notes_bind (leaves_any _) fun _ t _ => ?_
            refine notes_bind leaves_reserveInFlight fun ok t hok => ?_
            split
            · next htrue =>
              refine notes_bind (leaves_reserved _ (hok htrue)) fun _ t hreserved => ?_
              refine notes_bind (leaves_reserved _ hreserved) fun _ t hreserved => ?_
              exact fun _ _ => hreserved
            · exact leaves_of_ne (by simp)
        · exact leaves_of_ne (by simp)

end Traces

/-! ## One probe at a time -/

namespace Admissions

variable {config : CircuitBreakerConfig} {nowMs : ℕ} {s s' : Admissions} {l : AdmissionLabel}
  {ls : List AdmissionLabel}

def holders (s : Admissions) : ℕ := s.requests.countP (·.holdsFlag)

/-- One request at most holds the flag, and then the flag is set. A request that has not ended sets
the flag before it is admitted in the half-open state. -/
structure Exclusive (s : Admissions) : Prop where
  holders : s.holders = 0 ∨ s.holders = 1 ∧ s.breaker.halfOpenInFlight = true
  reserves : ∀ r ∈ s.requests, r.ended = false → Leaves r.traces r.call Traces.Reserves

theorem step_cases (h : s.step l = some s') :
    (∃ rounds, l = .arrive rounds ∧
      s' = { s with requests := s.requests ++ [.arriving rounds] }) ∨
    (∃ i e r, l = .finish i e ∧ s.requests[i]? = some r ∧ r.inFlight = true ∧
      s' = { s with requests := s.requests.set i (r.finish e) }) ∨
    (∃ i a upd next traces ended, l = .run i ∧
      s.requests[i]? = some ⟨.act a upd next, traces, ended⟩ ∧
      s' = ⟨upd s.breaker, s.requests.set i
        ⟨next s.breaker, traces.note a s.breaker (upd s.breaker), ended⟩⟩) ∨
    (∃ ms, l = .tick ms ∧
      s' = { s with breaker := { s.breaker with nowMs := s.breaker.nowMs + ms } }) := by
  cases l with
  | arrive rounds =>
    cases h
    exact Or.inl ⟨rounds, rfl, rfl⟩
  | finish i e =>
    simp only [step] at h
    split at h
    · next r hr =>
      split at h
      · next hflight =>
        cases h
        exact Or.inr (Or.inl ⟨i, e, r, rfl, hr, hflight, rfl⟩)
      · cases h
    · cases h
  | run i =>
    simp only [step] at h
    split at h
    · next a upd next traces ended hr =>
      cases h
      exact Or.inr (Or.inr (Or.inl ⟨i, a, upd, next, traces, ended, rfl, hr, rfl⟩))
    · cases h
  | tick ms =>
    cases h
    exact Or.inr (Or.inr (Or.inr ⟨ms, rfl, rfl⟩))

theorem exclusive_initial (config : CircuitBreakerConfig) (nowMs : ℕ) :
    Exclusive (initial config nowMs) :=
  ⟨Or.inl rfl, fun _ hr => absurd hr List.not_mem_nil⟩

theorem reserves_set {i : ℕ} {r : Request} {b : ClockedBreaker} (h : Exclusive s)
    (hr : r.ended = false → Leaves r.traces r.call Traces.Reserves) :
    ∀ q ∈ (⟨b, s.requests.set i r⟩ : Admissions).requests, q.ended = false →
      Leaves q.traces q.call Traces.Reserves := by
  intro q hq
  rcases List.mem_or_eq_of_mem_set hq with hq | rfl
  · exact h.reserves q hq
  · exact hr

theorem exclusive_arrive (h : Exclusive s) (rounds : ℕ) :
    Exclusive { s with requests := s.requests ++ [.arriving rounds] } where
  holders := by
    have hnew : (Request.arriving rounds).holdsFlag = false := rfl
    have hcount : (s.requests ++ [Request.arriving rounds]).countP (·.holdsFlag) = s.holders := by
      rw [List.countP_append, List.countP_singleton, hnew]
      rfl
    change (s.requests ++ _).countP _ = 0 ∨ (s.requests ++ _).countP _ = 1 ∧ _
    rw [hcount]
    exact h.holders
  reserves r hr hended := by
    rcases List.mem_append.mp hr with hr | hr
    · exact h.reserves r hr hended
    · obtain rfl := List.mem_singleton.mp hr
      exact Traces.leaves_allowRequest rounds

theorem holders_set {i : ℕ} {r : Request} (hr : s.requests[i]? = some r) (b : ClockedBreaker)
    (q : Request) :
    holders ⟨b, s.requests.set i q⟩ + (if r.holdsFlag then 1 else 0) =
      s.holders + if q.holdsFlag then 1 else 0 :=
  Lists.countP_set hr q

theorem exclusive_finish {i : ℕ} {e : Ending} {r : Request} (h : Exclusive s)
    (hr : s.requests[i]? = some r) :
    Exclusive { s with requests := s.requests.set i (r.finish e) } where
  holders := by
    have hended : (r.finish e).holdsFlag = false := rfl
    have hcount := holders_set hr s.breaker (r.finish e)
    rw [hended, if_neg Bool.false_ne_true] at hcount
    rcases h.holders with hzero | ⟨hone, hflag⟩
    · left
      omega
    · by_cases hheld : r.holdsFlag = true
      · rw [if_pos hheld] at hcount
        left
        omega
      · rw [if_neg hheld] at hcount
        exact Or.inr ⟨by omega, hflag⟩
  reserves := reserves_set h (by simp [Request.finish])

/-- An access that sets the flag finds no holder, one that clears it is let through when there is
none, and any other leaves the flag and the holders. -/
theorem exclusive_run {i : ℕ} {a : Access} {upd : ClockedBreaker → ClockedBreaker}
    {next : ClockedBreaker → Method (Option Bool)} {traces : Traces} {ended : Bool}
    (h : Exclusive s) (hkeeps : KeepsFlag s (.run i))
    (hr : s.requests[i]? = some ⟨.act a upd next, traces, ended⟩) :
    Exclusive ⟨upd s.breaker, s.requests.set i
      ⟨next s.breaker, traces.note a s.breaker (upd s.breaker), ended⟩⟩ where
  holders := by
    have hcount := holders_set hr (upd s.breaker)
      ⟨next s.breaker, traces.note a s.breaker (upd s.breaker), ended⟩
    by_cases hsets : (!s.breaker.halfOpenInFlight && (upd s.breaker).halfOpenInFlight) = true
    · obtain ⟨hbefore, hafter⟩ := Bool.and_eq_true_iff.mp hsets
      have hzero : s.holders = 0 := by
        rcases h.holders with hzero | ⟨-, hflag⟩
        · exact hzero
        · simp [hflag] at hbefore
      have hle : holders ⟨upd s.breaker, s.requests.set i
          ⟨next s.breaker, traces.note a s.breaker (upd s.breaker), ended⟩⟩ ≤ 1 := by
        split at hcount <;> split at hcount <;> omega
      rcases Nat.le_one_iff_eq_zero_or_eq_one.mp hle with hnone | hone
      · exact Or.inl hnone
      · exact Or.inr ⟨hone, hafter⟩
    · have htraces : (traces.note a s.breaker (upd s.breaker)).reserved = traces.reserved := by
        simp [Traces.note, Bool.not_eq_true _ ▸ hsets]
      have hsame : holders ⟨upd s.breaker, s.requests.set i
          ⟨next s.breaker, traces.note a s.breaker (upd s.breaker), ended⟩⟩ = s.holders := by
        have hheld : Request.holdsFlag
            ⟨next s.breaker, traces.note a s.breaker (upd s.breaker), ended⟩ =
              Request.holdsFlag ⟨.act a upd next, traces, ended⟩ := by
          simp only [Request.holdsFlag, htraces]
        rw [hheld] at hcount
        omega
      rw [hsame]
      rcases h.holders with hzero | ⟨hone, hflag⟩
      · exact Or.inl hzero
      · refine Or.inr ⟨hone, ?_⟩
        by_contra hafter
        change ¬(upd s.breaker).halfOpenInFlight = true at hafter
        have hclears :
            Request.clearsFlag ⟨.act a upd next, traces, ended⟩ s.breaker = true := by
          simp [Request.clearsFlag, hflag, hafter]
        have hnone : s.holders = 0 :=
          List.countP_eq_zero.mpr fun q hq => by simp [hkeeps _ hr hclears q hq]
        omega
  reserves := by
    refine reserves_set h fun hended => ?_
    exact h.reserves _ (List.mem_of_getElem? hr) hended s.breaker

theorem exclusive_step (h : Exclusive s) (hkeeps : KeepsFlag s l) (hstep : s.step l = some s') :
    Exclusive s' := by
  rcases step_cases hstep with ⟨rounds, -, rfl⟩ | ⟨i, e, r, -, hr, -, rfl⟩ |
    ⟨i, a, upd, next, traces, ended, rfl, hr, rfl⟩ | ⟨ms, -, rfl⟩
  · exact exclusive_arrive h rounds
  · exact exclusive_finish h hr
  · exact exclusive_run h hkeeps hr
  · exact ⟨h.holders, h.reserves⟩

theorem Exclusive.probes_le (h : Exclusive s) : s.probes ≤ s.holders := by
  refine List.countP_mono_left fun r hr hprobe => ?_
  obtain ⟨hflight, hseen⟩ := Bool.and_eq_true_iff.mp hprobe
  obtain ⟨hended, hresult⟩ := Bool.and_eq_true_iff.mp hflight
  have hleaves := h.reserves r hr (by simpa using hended)
  obtain ⟨call, traces, ended⟩ := r
  cases call with
  | act a upd next => simp [Prog.result] at hresult
  | ret a =>
    have hreserved : traces.reserved = true :=
      hleaves (by simpa [Prog.result] using hresult) (by simpa using hseen)
    exact Bool.and_eq_true_iff.mpr ⟨hended, hreserved⟩

/-- In every interleaving of the accesses in which the flag is not cleared under the request that
set it, at most one probe is outstanding at any time. -/
theorem probes_le_one (hkeeps : Runs.Meets step KeepsFlag (initial config nowMs) ls)
    (hrun : Runs.run step (initial config nowMs) ls = some s) : s.probes ≤ 1 := by
  have hexclusive : Exclusive s :=
    Runs.invariant_of_meets (fun _ _ _ hI hC hs => exclusive_step hI hC hs) hkeeps hrun
      (exclusive_initial config nowMs)
  have hle := hexclusive.probes_le
  rcases hexclusive.holders with hzero | ⟨hone, -⟩ <;> omega

def contendedSchedule : List AdmissionLabel :=
  [AdmissionLabel.arrive 2, .run 0, .finish 0 .error] ++ List.replicate 8 (AdmissionLabel.run 0) ++
    [AdmissionLabel.arrive 2, .arrive 2] ++ List.replicate 7 (AdmissionLabel.run 1) ++
    List.replicate 3 (AdmissionLabel.run 2) ++ List.replicate 7 (AdmissionLabel.run 1) ++
    [AdmissionLabel.run 2]

theorem probes_le_one_contendedSchedule :
    ∃ s, Runs.run step (initial tightConfig 0) contendedSchedule = some s ∧ s.probes = 1 ∧
      s.probes ≤ 1 := by
  have hprobes : (Runs.run step (initial tightConfig 0) contendedSchedule).map probes = some 1 := by
    decide +kernel
  obtain ⟨s, hs, hone⟩ := Option.map_eq_some_iff.mp hprobes
  exact ⟨s, hs, hone, probes_le_one (by decide +kernel) hs⟩

/-- A request admitted while closed is turned away by a limit while a probe is in flight, and
another request is admitted next to the probe. -/
def abortedSchedule : List AdmissionLabel :=
  [AdmissionLabel.arrive 2, .arrive 2, .run 0, .run 1, .finish 1 .error] ++
    List.replicate 8 (AdmissionLabel.run 1) ++ [AdmissionLabel.arrive 2] ++
    List.replicate 14 (AdmissionLabel.run 2) ++ [AdmissionLabel.finish 0 .abort] ++
    List.replicate 3 (AdmissionLabel.run 0) ++ [AdmissionLabel.arrive 2] ++
    List.replicate 6 (AdmissionLabel.run 3)

/-- A request is admitted after the call of another one made the circuit half-open, and before that
call clears the flag. Nothing ends. -/
def overtakenSchedule : List AdmissionLabel :=
  [AdmissionLabel.arrive 2, .run 0, .finish 0 .error] ++ List.replicate 8 (AdmissionLabel.run 0) ++
    [AdmissionLabel.arrive 2, .arrive 2] ++ List.replicate 6 (AdmissionLabel.run 1) ++
    List.replicate 6 (AdmissionLabel.run 2) ++ List.replicate 8 (AdmissionLabel.run 1)

theorem exists_of_map_run (h : (Runs.run step (initial config nowMs) ls).map
    (fun s => (s.breaker.nowMs, s.probes)) = some (nowMs, 2)) :
    ∃ s, Runs.run step (initial config nowMs) ls = some s ∧ s.breaker.nowMs = nowMs ∧
      ¬s.probes ≤ 1 := by
  obtain ⟨s, hs, heq⟩ := Option.map_eq_some_iff.mp h
  obtain ⟨hnow, hprobes⟩ := Prod.mk.inj heq
  exact ⟨s, hs, hnow, by omega⟩

/-- Two probes are outstanding although no time has passed. -/
theorem two_probes_outstanding :
    (∃ s, Runs.run step (initial tightConfig 0) abortedSchedule = some s ∧
      s.breaker.nowMs = 0 ∧ ¬s.probes ≤ 1) ∧
    ∃ s, Runs.run step (initial tightConfig 0) overtakenSchedule = some s ∧
      s.breaker.nowMs = 0 ∧ ¬s.probes ≤ 1 :=
  ⟨exists_of_map_run (by decide +kernel), exists_of_map_run (by decide +kernel)⟩

end Admissions

end CircuitBreaker

end SentirumLb
