import SentirumLb.Breaker.Transitions
import SentirumLb.Route.Resolve
import SentirumLb.Route.Table

/-! # Feedback to the breakers

The logging hook records on the breaker of `ctx.picked_target` how a request
went, judged by the status that was stored in `ctx` and by the error that the
proxy gives it. The hooks of any number of requests interleave, and so do the
accesses of the calls that they make. A request that no upstream has answered
is taken for a success when its error carries a status below 500; by then
`ctx.picked_target` is set where the address of the target was refused, or
where an earlier attempt had picked it.
-/

namespace SentirumLb

/-- `pingora::ErrorType`, as far as the handlers tell its values apart. -/
inductive ErrorType where
  | httpStatus (code : ℕ)
  | connectTimedout
  | connectRefused
  | connectNoRoute
  | invalidHttpHeader
  | other
  deriving DecidableEq, Repr

variable {W : Type}

structure ProxyCtx (W : Type) where
  pickedTarget : Option (Target W)
  /-- Zero until a response is seen. -/
  responseStatus : ℕ

def responseStatus (ctx : ProxyCtx W) (error : Option ErrorType) : ℕ :=
  if 0 < ctx.responseStatus then ctx.responseStatus
  else
    match error with
    | some (.httpStatus code) => code
    | some .connectTimedout => 504
    | some .connectRefused => 502
    | some .connectNoRoute => 502
    | some .invalidHttpHeader => 502
    | some .other => 502
    | none => 200

def shouldRecordTargetError (status : ℕ) (error : Option ErrorType) : Bool :=
  decide (500 ≤ status) || error == some .connectTimedout || error == some .connectRefused ||
    error == some .connectNoRoute

/-- The error counts against the target when it is all that is known. -/
def ErrorType.blamesTarget : ErrorType → Bool
  | .httpStatus code => decide (500 ≤ code)
  | _ => true

inductive Rejection where
  | noRoute (noRouteStatus : ℕ)
  | allUnhealthy
  | circuitOpen
  | rateLimited
  | connectionLimit

def Rejection.etype : Rejection → ErrorType
  | .noRoute noRouteStatus => .httpStatus noRouteStatus
  | .allUnhealthy => .httpStatus 503
  | .circuitOpen => .httpStatus 503
  | .rateLimited => .httpStatus 429
  | .connectionLimit => .httpStatus 503

inductive Selection (W : Type) where
  | rejected (r : Rejection)
  | picked (t : Target W) (resolved : Except ResolveError SocketAddr)

namespace Selection

def error : Selection W → Option ErrorType
  | .rejected r => some r.etype
  | .picked _ (.ok _) => none
  | .picked _ (.error e) =>
      if e.kind = .permissionDenied then some (.httpStatus 403) else some .connectNoRoute

/-- A selection that is rejected leaves `ctx.picked_target` as it was. -/
def pick (previous : Option (Target W)) : Selection W → Option (Target W)
  | .rejected _ => previous
  | .picked t _ => some t

end Selection

/-! ## Requests -/

inductive RequestPhase where
  | proxying
  | handled
  | logged
  deriving DecidableEq, Repr

structure HttpRequest (W : Type) where
  ctx : ProxyCtx W
  error : Option ErrorType
  phase : RequestPhase
  /-- The target whose upstream returned a response: a record for the specification, which no hook
  reads. -/
  answeredBy : Option (Target W)

namespace HttpRequest

def newCtx : HttpRequest W := ⟨⟨none, 0⟩, none, .proxying, none⟩

def requestFilter (q : HttpRequest W) : Option (HttpRequest W) :=
  if q.phase = .proxying ∧ q.ctx.pickedTarget.isNone ∧ q.error = none then
    some { q with ctx.responseStatus := 200, phase := .handled }
  else none

/-- An attempt. The proxy makes another one only while it has no response. -/
def upstreamPeer (sel : Selection W) (q : HttpRequest W) : Option (HttpRequest W) :=
  if q.phase = .proxying ∧ q.answeredBy.isNone then
    some { q with ctx.pickedTarget := sel.pick q.ctx.pickedTarget, error := sel.error }
  else none

def responseFilter (status : ℕ) (q : HttpRequest W) : Option (HttpRequest W) :=
  if q.phase = .proxying ∧ q.ctx.pickedTarget.isSome ∧ q.error = none ∧ 100 ≤ status ∧ status < 1000
  then some { q with ctx.responseStatus := status, answeredBy := q.ctx.pickedTarget }
  else none

def fail (e : ErrorType) (q : HttpRequest W) : Option (HttpRequest W) :=
  if q.phase = .proxying then some { q with error := some e } else none

def outcome (q : HttpRequest W) : CircuitBreaker.Call :=
  if shouldRecordTargetError (SentirumLb.responseStatus q.ctx q.error) q.error then .recordError
  else .recordSuccess

/-- The logging hook would take the request for a success although no upstream has answered it: its
error is a status below 500, or there is none. -/
def misjudged (q : HttpRequest W) : Bool :=
  q.ctx.pickedTarget.isSome && q.answeredBy.isNone && !q.error.any ErrorType.blamesTarget

end HttpRequest

/-- A call on a breaker, with the request as its logging hook found it when that made the call. -/
structure Started (W : Type) where
  call : CircuitBreaker.Call
  origin : Option (HttpRequest W)

/-- The call records a success only for a request that the upstream of a target with this breaker
has answered. -/
def Started.Earned (r : Ref) (c : Started W) : Prop :=
  c.call = .recordSuccess →
    ∃ q t, c.origin = some q ∧ q.answeredBy = some t ∧ t.healthTracker = r

inductive ProbeCall where
  | allowRequest (rounds : ℕ)
  | abortProbe

def ProbeCall.call : ProbeCall → CircuitBreaker.Call
  | .allowRequest rounds => .allowRequest rounds
  | .abortProbe => .abortProbe

theorem ProbeCall.call_ne_recordSuccess (c : ProbeCall) : c.call ≠ .recordSuccess := by
  cases c <;> simp [ProbeCall.call]

namespace HttpRequest

structure Sound (q : HttpRequest W) : Prop where
  answered : ∀ t, q.answeredBy = some t → q.ctx.pickedTarget = some t
  handled : q.phase = .handled → q.ctx.pickedTarget = none
  unanswered : q.phase = .proxying → q.answeredBy = none → q.ctx.responseStatus = 0

variable {q q' : HttpRequest W}

theorem sound_newCtx : (newCtx : HttpRequest W).Sound := by
  constructor
  · intro t h
    cases h
  · intro h
    cases h
  · exact fun _ _ => rfl

theorem Sound.requestFilter (h : q.Sound) (hf : q.requestFilter = some q') : q'.Sound := by
  unfold HttpRequest.requestFilter at hf
  split at hf
  · next hc =>
    cases hf
    exact ⟨h.answered, fun _ => Option.isNone_iff_eq_none.mp hc.2.1, nofun⟩
  · cases hf

theorem Sound.upstreamPeer {sel : Selection W} (h : q.Sound)
    (hf : q.upstreamPeer sel = some q') : q'.Sound := by
  unfold HttpRequest.upstreamPeer at hf
  split at hf
  · next hc =>
    cases hf
    have hnone := Option.isNone_iff_eq_none.mp hc.2
    constructor
    · intro t ht
      exact absurd (hnone.symm.trans ht) (by simp)
    · intro hp
      exact absurd (hc.1.symm.trans hp) (by decide)
    · exact h.unanswered
  · cases hf

theorem Sound.responseFilter {status : ℕ} (h : q.Sound)
    (hf : q.responseFilter status = some q') : q'.Sound := by
  unfold HttpRequest.responseFilter at hf
  split at hf
  · next hc =>
    cases hf
    constructor
    · exact fun t ht => ht
    · exact h.handled
    · intro _ hnone
      change q.ctx.pickedTarget = none at hnone
      exact absurd hnone (Option.isSome_iff_ne_none.mp hc.2.1)
  · cases hf

theorem Sound.fail {e : ErrorType} (h : q.Sound) (hf : q.fail e = some q') : q'.Sound := by
  unfold HttpRequest.fail at hf
  split at hf
  · cases hf
    exact ⟨h.answered, h.handled, h.unanswered⟩
  · cases hf

theorem outcome_eq_recordSuccess_iff (h : q.ctx.responseStatus = 0) :
    q.outcome = .recordSuccess ↔ q.error.any ErrorType.blamesTarget = false := by
  have hcall : q.outcome = .recordSuccess ↔
      shouldRecordTargetError (SentirumLb.responseStatus q.ctx q.error) q.error = false := by
    unfold outcome
    split <;> simp_all
  rw [hcall]
  unfold shouldRecordTargetError SentirumLb.responseStatus
  rw [h]
  cases q.error with
  | none => simp
  | some e => cases e <;> simp [ErrorType.blamesTarget]

/-- The hook earns the success that it records, unless it misjudges the request. -/
theorem Sound.earned_iff (h : q.Sound) {t : Target W} (hphase : q.phase ≠ .logged)
    (ht : q.ctx.pickedTarget = some t) :
    Started.Earned t.healthTracker ⟨q.outcome, some q⟩ ↔ q.misjudged = false := by
  unfold Started.Earned misjudged
  cases hanswered : q.answeredBy with
  | some u =>
    have hu := h.answered u hanswered
    rw [ht] at hu
    cases hu
    have hearned : ∃ q' t', some q = some q' ∧ q'.answeredBy = some t' ∧
        t'.healthTracker = t.healthTracker := ⟨q, t, rfl, hanswered, rfl⟩
    simp only [Option.isNone_some, Bool.and_false, Bool.false_and, iff_true]
    exact fun _ => hearned
  | none =>
    have hproxying : q.phase = .proxying := by
      cases hp : q.phase with
      | proxying => rfl
      | handled => exact absurd (ht.symm.trans (h.handled hp)) (by simp)
      | logged => exact absurd hp hphase
    have hiff := outcome_eq_recordSuccess_iff (h.unanswered hproxying hanswered)
    constructor
    · intro hearned
      have hne : q.outcome ≠ .recordSuccess := by
        intro hc
        obtain ⟨q', u, hq', hu, -⟩ := hearned hc
        cases hq'
        exact absurd (hanswered.symm.trans hu) (by simp)
      have hblames := mt hiff.mpr hne
      simpa [ht] using hblames
    · intro hmis hc
      rw [hiff.mp hc] at hmis
      simp [ht] at hmis

end HttpRequest

/-! ## The system -/

structure Feedback (W : Type) where
  breakers : Ref → CircuitBreaker.Calls
  started : Ref → List (Started W)
  requests : List (HttpRequest W)

inductive FeedbackLabel (W : Type) where
  | newCtx
  | requestFilter (i : ℕ)
  | upstreamPeer (i : ℕ) (sel : Selection W)
  | probe (r : Ref) (c : ProbeCall)
  | responseFilter (i : ℕ) (status : ℕ)
  | fail (i : ℕ) (e : ErrorType)
  | logging (i : ℕ) (cbEnabled : Bool)
  | access (r : Ref) (j : ℕ)
  | tick (ms : ℕ)

namespace Feedback

open CircuitBreaker

def initial (breakers : Ref → ClockedBreaker) : Feedback W :=
  ⟨fun r => ⟨breakers r, []⟩, fun _ => [], []⟩

def start (s : Feedback W) (r : Ref) (c : Started W) : Feedback W :=
  { s with
    breakers := Function.update s.breakers r
      { s.breakers r with threads := (s.breakers r).threads ++ [c.call.prog] }
    started := Function.update s.started r (s.started r ++ [c]) }

def updateRequest (s : Feedback W) (i : ℕ) (f : HttpRequest W → Option (HttpRequest W)) :
    Option (Feedback W) :=
  (s.requests[i]?.bind f).map fun q => { s with requests := s.requests.set i q }

def logging (s : Feedback W) (i : ℕ) (q : HttpRequest W) (cbEnabled : Bool) : Feedback W :=
  let s := { s with requests := s.requests.set i { q with phase := .logged } }
  match q.ctx.pickedTarget with
  | some t => if cbEnabled then s.start t.healthTracker ⟨q.outcome, some q⟩ else s
  | none => s

def step (s : Feedback W) : FeedbackLabel W → Option (Feedback W)
  | .newCtx => some { s with requests := s.requests ++ [.newCtx] }
  | .requestFilter i => s.updateRequest i (·.requestFilter)
  | .upstreamPeer i sel => s.updateRequest i (·.upstreamPeer sel)
  | .probe r c => some (s.start r ⟨c.call, none⟩)
  | .responseFilter i status => s.updateRequest i (·.responseFilter status)
  | .fail i e => s.updateRequest i (·.fail e)
  | .logging i cbEnabled =>
      match s.requests[i]? with
      | some q => if q.phase = .logged then none else some (s.logging i q cbEnabled)
      | none => none
  | .access r j =>
      ((s.breakers r).step (.run j)).map fun p =>
        { s with breakers := Function.update s.breakers r p }
  | .tick ms =>
      some { s with
        breakers := fun r =>
          { s.breakers r with shared.nowMs := (s.breakers r).shared.nowMs + ms } }

/-- Every success was recorded for a request that was answered. -/
def Truthful (s : Feedback W) : Prop := ∀ r, ∀ c ∈ s.started r, Started.Earned r c

def bits (s : Feedback W) (r : Ref) : UInt8 := CircuitBreaker.bits (s.breakers r).shared.stateAtomic

/-- When the step closes a half-open circuit, it is an access of a call that records the success of
a request that was answered. -/
def ClosesEarned (s : Feedback W) (l : FeedbackLabel W) : Prop :=
  ∀ s' r, s.step l = some s' → s.bits r = stateHalfOpen → s'.bits r = stateClosed →
    ∃ j c, l = .access r j ∧ (s.started r)[j]? = some c ∧ c.call = .recordSuccess ∧
      Started.Earned r c

/-- The hook does not feed the breaker with a request that it misjudges. -/
def Judged (s : Feedback W) : FeedbackLabel W → Prop
  | .logging i cbEnabled => cbEnabled = true → s.requests[i]?.any HttpRequest.misjudged = false
  | _ => True

instance (s : Feedback W) (l : FeedbackLabel W) : Decidable (s.Judged l) :=
  match l with
  | .logging i cbEnabled =>
      inferInstanceAs (Decidable (cbEnabled = true →
        s.requests[i]?.any HttpRequest.misjudged = false))
  | .newCtx | .requestFilter _ | .upstreamPeer _ _ | .probe _ _ | .responseFilter _ _ | .fail _ _
  | .access _ _ | .tick _ => .isTrue trivial

/-! ## Steps -/

inductive Change (s : Feedback W) : FeedbackLabel W → Feedback W → Prop where
  | proceed {l : FeedbackLabel W} {qs : List (HttpRequest W)}
      (hl : ∀ i cbEnabled, l ≠ .logging i cbEnabled)
      (hqs : (∀ q ∈ s.requests, q.Sound) → ∀ q ∈ qs, q.Sound) :
      Change s l { s with requests := qs }
  | probe (r : Ref) (c : ProbeCall) : Change s (.probe r c) (s.start r ⟨c.call, none⟩)
  | logging {i : ℕ} {q : HttpRequest W} (cbEnabled : Bool) (hq : s.requests[i]? = some q)
      (hphase : q.phase ≠ .logged) : Change s (.logging i cbEnabled) (s.logging i q cbEnabled)
  | access {r : Ref} {j : ℕ} {p : Calls} (hp : (s.breakers r).step (.run j) = some p) :
      Change s (.access r j) { s with breakers := Function.update s.breakers r p }
  | tick (ms : ℕ) :
      Change s (.tick ms) { s with
        breakers := fun r =>
          { s.breakers r with shared.nowMs := (s.breakers r).shared.nowMs + ms } }

variable {s s' : Feedback W} {l : FeedbackLabel W}

theorem change_updateRequest {i : ℕ} {f : HttpRequest W → Option (HttpRequest W)}
    (hl : ∀ i cbEnabled, l ≠ .logging i cbEnabled)
    (hf : ∀ q q', q.Sound → f q = some q' → q'.Sound)
    (h : s.updateRequest i f = some s') : s.Change l s' := by
  obtain ⟨q', hbind, rfl⟩ := Option.map_eq_some_iff.mp h
  obtain ⟨q, hq, hfq⟩ := Option.bind_eq_some_iff.mp hbind
  refine .proceed hl fun hsound u hu => ?_
  rcases List.mem_or_eq_of_mem_set hu with hu | rfl
  · exact hsound u hu
  · exact hf q u (hsound q (List.mem_of_getElem? hq)) hfq

theorem change_of_step (h : s.step l = some s') : s.Change l s' := by
  cases l with
  | newCtx =>
    cases h
    refine .proceed (by simp) fun hsound q hq => ?_
    rcases List.mem_append.mp hq with hq | hq
    · exact hsound q hq
    · exact List.mem_singleton.mp hq ▸ HttpRequest.sound_newCtx
  | requestFilter i => exact change_updateRequest (by simp) (fun _ _ hq => hq.requestFilter) h
  | upstreamPeer i sel => exact change_updateRequest (by simp) (fun _ _ hq => hq.upstreamPeer) h
  | probe r c =>
    cases h
    exact .probe r c
  | responseFilter i status =>
    exact change_updateRequest (by simp) (fun _ _ hq => hq.responseFilter) h
  | fail i e => exact change_updateRequest (by simp) (fun _ _ hq => hq.fail) h
  | logging i cbEnabled =>
    simp only [step] at h
    split at h
    · next q hq =>
      split at h
      · cases h
      · next hphase =>
        cases h
        exact .logging cbEnabled hq hphase
    · cases h
  | access r j =>
    obtain ⟨p, hp, rfl⟩ := Option.map_eq_some_iff.mp h
    exact .access hp
  | tick ms =>
    cases h
    exact .tick ms

theorem logging_cases (s : Feedback W) (i : ℕ) (q : HttpRequest W) (cbEnabled : Bool) :
    ((cbEnabled = true → q.ctx.pickedTarget = none) ∧
      s.logging i q cbEnabled =
        { s with requests := s.requests.set i { q with phase := .logged } }) ∨
    ∃ t, cbEnabled = true ∧ q.ctx.pickedTarget = some t ∧
      s.logging i q cbEnabled =
        start { s with requests := s.requests.set i { q with phase := .logged } } t.healthTracker
          ⟨q.outcome, some q⟩ := by
  unfold logging
  dsimp only
  cases ht : q.ctx.pickedTarget with
  | none => exact Or.inl ⟨fun _ => rfl, rfl⟩
  | some t =>
    cases cbEnabled with
    | true => exact Or.inr ⟨t, rfl, rfl, rfl⟩
    | false => exact Or.inl ⟨fun h => absurd h (by decide), rfl⟩

theorem sound_step (h : ∀ q ∈ s.requests, q.Sound) (hstep : s.step l = some s') :
    ∀ q ∈ s'.requests, q.Sound := by
  cases change_of_step hstep with
  | proceed hl hqs => exact hqs h
  | probe r c => exact h
  | @logging i q cbEnabled hq hphase =>
    have hset : ∀ u ∈ s.requests.set i { q with phase := .logged }, u.Sound := by
      intro u hu
      rcases List.mem_or_eq_of_mem_set hu with hu | rfl
      · exact h u hu
      · have hsound := h q (List.mem_of_getElem? hq)
        exact ⟨hsound.answered, nofun, nofun⟩
    rcases s.logging_cases i q cbEnabled with ⟨-, he⟩ | ⟨t, -, -, he⟩
    · rw [he]
      exact hset
    · rw [he]
      exact hset
  | access hp => exact h
  | tick ms => exact h

/-! ## Successes -/

theorem truthful_start_iff (r : Ref) (c : Started W) :
    (s.start r c).Truthful ↔ s.Truthful ∧ Started.Earned r c := by
  unfold Truthful start
  dsimp only
  rw [Function.forall_update_iff s.started fun r' cs => ∀ c' ∈ cs, Started.Earned r' c',
    List.forall_mem_append, List.forall_mem_singleton]
  constructor
  · rintro ⟨⟨hr, hc⟩, hne⟩
    refine ⟨fun r' => ?_, hc⟩
    by_cases heq : r' = r
    · rw [heq]
      exact hr
    · exact hne r' heq
  · rintro ⟨h, hc⟩
    exact ⟨⟨h r, hc⟩, fun r' _ => h r'⟩

/-- The record of successes stays truthful at the steps that judge rightly, and at no others. -/
theorem truthful_step_iff (h : ∀ q ∈ s.requests, q.Sound) (hstep : s.step l = some s') :
    s'.Truthful ↔ s.Truthful ∧ s.Judged l := by
  cases change_of_step hstep with
  | proceed hl hqs =>
    have hjudged : s.Judged l := by
      cases l with
      | logging i cbEnabled => exact absurd rfl (hl i cbEnabled)
      | _ => trivial
    exact (and_iff_left hjudged).symm
  | probe r c =>
    rw [truthful_start_iff]
    have hearned : Started.Earned r (⟨c.call, none⟩ : Started W) :=
      fun hc => absurd hc c.call_ne_recordSuccess
    simp [hearned, Judged]
  | @logging i q cbEnabled hq hphase =>
    have hsound := h q (List.mem_of_getElem? hq)
    have hjudged : s.Judged (.logging i cbEnabled) ↔
        (cbEnabled = true → q.misjudged = false) := by
      simp [Judged, hq]
    rcases s.logging_cases i q cbEnabled with ⟨hnone, he⟩ | ⟨t, hcb, ht, he⟩
    · have hright : cbEnabled = true → q.misjudged = false := by
        intro hcb
        simp [HttpRequest.misjudged, hnone hcb]
      rw [he, hjudged]
      exact (and_iff_left hright).symm
    · rw [he, truthful_start_iff, hsound.earned_iff hphase ht, hjudged]
      exact and_congr_right fun _ => ⟨fun hm _ => hm, fun hm => hm hcb⟩
  | access hp => exact (and_iff_left trivial).symm
  | tick ms => exact (and_iff_left trivial).symm

/-! ## Closing a circuit -/

def StaysShut (b b' : ClockedBreaker) : Prop :=
  CircuitBreaker.bits b.stateAtomic = stateHalfOpen →
    CircuitBreaker.bits b'.stateAtomic ≠ stateClosed

theorem tolerates_staysShut : Tolerates StaysShut := by
  refine .of_byte (R := fun a b =>
    CircuitBreaker.bits a = stateHalfOpen → CircuitBreaker.bits b ≠ stateClosed) ?_ ?_ ?_
  · intro a ha
    rw [ha]
    decide
  · exact fun _ _ => by decide
  · exact fun _ _ _ _ => by decide

/-- What the accesses of a call can do: only one that records a success can close the circuit. -/
def Attributes (c : Started W) (b b' : ClockedBreaker) : Prop :=
  c.call ≠ .recordSuccess → StaysShut b b'

theorem attributes_prog (c : Started W) :
    Tolerates.Holds (fun _ _ => True) (Attributes c) c.call.prog := by
  by_cases hc : c.call = .recordSuccess
  · exact Prog.sat_of_forall (fun _ _ hne => absurd hc hne) _
  · have hT : Tolerates (Attributes c) := by
      have heq : Attributes c = StaysShut := by
        ext b b'
        exact ⟨fun h => h hc, fun h _ => h⟩
      rw [heq]
      exact tolerates_staysShut
    cases hcall : c.call with
    | allowRequest rounds =>
      exact Tolerates.bind (hT.allowRequest rounds) fun _ => Tolerates.pure _
    | recordSuccess => exact absurd hcall hc
    | recordError => exact hT.recordError
    | abortProbe => exact hT.abortProbe

def Attributed (s : Feedback W) : Prop :=
  ∀ r, (s.breakers r).Tagged (fun _ _ => True) Attributes (s.started r)

theorem Attributed.start (h : s.Attributed) (r : Ref) (c : Started W) :
    (s.start r c).Attributed := by
  intro r'
  unfold Feedback.start
  dsimp only
  by_cases hr : r' = r
  · subst hr
    rw [Function.update_self, Function.update_self]
    exact (h r').spawn (attributes_prog c)
  · rw [Function.update_of_ne hr, Function.update_of_ne hr]
    exact h r'

theorem attributed_step (h : s.Attributed) (hstep : s.step l = some s') : s'.Attributed := by
  cases change_of_step hstep with
  | proceed hl hqs => exact h
  | probe r c => exact h.start r _
  | @logging i q cbEnabled hq hphase =>
    rcases s.logging_cases i q cbEnabled with ⟨-, he⟩ | ⟨t, -, -, he⟩
    · rw [he]
      exact h
    · rw [he]
      exact Attributed.start h _ _
  | @access r j p hp =>
    intro r'
    by_cases hr : r' = r
    · subst hr
      obtain ⟨k, -, -, htagged⟩ := (h r').run (fun _ => trivial) hp
      dsimp only
      rw [Function.update_self]
      exact htagged
    · dsimp only
      rw [Function.update_of_ne hr]
      exact h r'
  | tick ms => exact fun r => h r

@[simp] theorem bits_start (r r' : Ref) (c : Started W) : (s.start r c).bits r' = s.bits r' := by
  unfold bits Feedback.start
  dsimp only
  by_cases hr : r' = r
  · subst hr
    rw [Function.update_self]
  · rw [Function.update_of_ne hr]

theorem closes_cases (h : s.Attributed) {r : Ref} (hstep : s.step l = some s')
    (hhalf : s.bits r = stateHalfOpen) (hclosed : s'.bits r = stateClosed) :
    ∃ j c, l = .access r j ∧ (s.started r)[j]? = some c ∧ c.call = .recordSuccess := by
  have hne : s'.bits r ≠ s.bits r := by
    rw [hhalf, hclosed]
    decide
  cases change_of_step hstep with
  | proceed hl hqs => exact absurd rfl hne
  | probe r' c => exact absurd (bits_start _ _ _) hne
  | @logging i q cbEnabled hq hphase =>
    rcases s.logging_cases i q cbEnabled with ⟨-, he⟩ | ⟨t, -, -, he⟩
    · rw [he] at hne
      exact absurd rfl hne
    · rw [he] at hne
      exact absurd (bits_start _ _ _) hne
  | @access r' j p hp =>
    by_cases hr : r = r'
    · subst hr
      obtain ⟨c, hc, hkept, -⟩ := (h r).run (fun _ => trivial) hp
      refine ⟨j, c, rfl, hc, ?_⟩
      by_contra hcall
      unfold bits at hclosed
      dsimp only at hclosed
      rw [Function.update_self] at hclosed
      exact hkept hcall hhalf hclosed
    · unfold bits at hne
      dsimp only at hne
      rw [Function.update_of_ne hr] at hne
      exact absurd rfl hne
  | tick ms => exact absurd rfl hne

theorem closesEarned (hattributed : s.Attributed) (htruthful : s.Truthful)
    (l : FeedbackLabel W) : s.ClosesEarned l := by
  intro s' r hstep hhalf hclosed
  obtain ⟨j, c, hl, hc, hcall⟩ := closes_cases hattributed hstep hhalf hclosed
  exact ⟨j, c, hl, hc, hcall, htruthful r c (List.mem_of_getElem? hc)⟩

/-- In a run of requests every recorded success was earned by a response of the upstream, and so is
every closing of a half-open circuit, just when no logging hook misjudges its request. -/
theorem success_earned_iff {breakers : Ref → ClockedBreaker} {ls : List (FeedbackLabel W)}
    (hrun : Runs.run step (initial breakers) ls = some s) :
    (s.Truthful ∧ Runs.Meets step ClosesEarned (initial breakers) ls) ↔
      Runs.Meets step Judged (initial breakers) ls := by
  have hsound : ∀ q ∈ (initial breakers : Feedback W).requests, q.Sound := by
    simp [initial]
  have htruthful : (initial breakers : Feedback W).Truthful := by
    intro r c hc
    simp [initial] at hc
  have hattributed : (initial breakers : Feedback W).Attributed := fun r => .nil
  have hiff : s.Truthful ↔ Runs.Meets step Judged (initial breakers) ls := by
    have hrun_iff := Runs.run_iff_meets (I := Truthful) (J := fun s => ∀ q ∈ s.requests, q.Sound)
      (fun _ _ _ hq hs => sound_step hq hs) (fun _ _ _ hq hs => truthful_step_iff hq hs) hrun hsound
    rw [hrun_iff]
    exact and_iff_right htruthful
  constructor
  · rintro ⟨h, -⟩
    exact hiff.mp h
  · intro hjudged
    refine ⟨hiff.mpr hjudged, ?_⟩
    refine Runs.meets_of_invariant (I := fun s => (∀ q ∈ s.requests, q.Sound) ∧ s.Attributed ∧
      s.Truthful) ?_ ?_ hjudged ⟨hsound, hattributed, htruthful⟩
    · rintro s l s' ⟨hq, ha, ht⟩ hj hs
      exact ⟨sound_step hq hs, attributed_step ha hs, (truthful_step_iff hq hs).mpr ⟨ht, hj⟩⟩
    · rintro s l ⟨-, ha, ht⟩
      exact closesEarned ha ht l

/-! ## A probe that is blocked -/

section Examples

attribute [local instance] Platform.plain

def namedBackend : Target ℚ :=
  Table.targetOf default (exampleDef .static .add "svc" "http://backend.example/")

/-- One request whose upstream address is not found, which opens the circuit, and a second one that
is let through as a probe. -/
def probedBackend : List (FeedbackLabel ℚ) :=
  [.newCtx,
   .upstreamPeer 0 (.picked namedBackend (namedBackend.finishResolve (.error .notFound "")).1),
   .logging 0 true] ++ List.replicate 8 (FeedbackLabel.access 0 0) ++
    [.newCtx, .probe 0 (.allowRequest 2)] ++ List.replicate 14 (FeedbackLabel.access 0 1)

def answeredProbe : List (FeedbackLabel ℚ) :=
  probedBackend ++
    [.upstreamPeer 1 (.picked namedBackend
      (namedBackend.finishResolve (.addrs [⟨.v4 ⟨8, 8, 8, 8⟩, 80⟩])).1),
     .responseFilter 1 200, .logging 1 true] ++ List.replicate 7 (FeedbackLabel.access 0 2)

def blockedProbe : List (FeedbackLabel ℚ) :=
  probedBackend ++
    [.upstreamPeer 1 (.picked namedBackend
      (namedBackend.finishResolve (.addrs [⟨.v4 ⟨10, 0, 0, 1⟩, 80⟩])).1),
     .logging 1 true] ++ List.replicate 7 (FeedbackLabel.access 0 2)

def tightBreakers : Ref → ClockedBreaker := fun _ => ⟨withConfig tightConfig, 0⟩

theorem success_earned_answeredProbe :
    ∃ s, Runs.run step (initial tightBreakers) answeredProbe = some s ∧ s.bits 0 = stateClosed ∧
      s.Truthful := by
  have hbits : (Runs.run step (initial tightBreakers) answeredProbe).map (·.bits 0) =
      some stateClosed := by decide +kernel
  obtain ⟨s, hs, hclosed⟩ := Option.map_eq_some_iff.mp hbits
  exact ⟨s, hs, hclosed, ((success_earned_iff hs).mpr (by decide +kernel)).1⟩

/-- The probe that was refused with 403 closes the circuit. -/
theorem success_unearned_blockedProbe :
    ∃ s s', Runs.run step (initial tightBreakers) (blockedProbe.take 34) = some s ∧
      s.step (.access 0 2) = some s' ∧ s.bits 0 = stateHalfOpen ∧ s'.bits 0 = stateClosed ∧
      (∀ q ∈ s.requests, q.answeredBy = none) ∧ ¬ s.Truthful ∧ ¬ s.ClosesEarned (.access 0 2) := by
  have hbits : (Runs.run step (initial tightBreakers) (blockedProbe.take 34)).bind
      (fun s => (s.step (.access 0 2)).map fun s' =>
        ((s.bits 0, s'.bits 0), s.requests.all (·.answeredBy.isNone),
          (s.started 0)[2]?.map fun c => (c.call, c.origin.map (·.answeredBy.isNone)))) =
      some ((stateHalfOpen, stateClosed), true, some (.recordSuccess, some true)) := by
    decide +kernel
  obtain ⟨s, hs, hbits⟩ := Option.bind_eq_some_iff.mp hbits
  obtain ⟨s', hs', hbits⟩ := Option.map_eq_some_iff.mp hbits
  simp only [Prod.mk.injEq, Option.map_eq_some_iff] at hbits
  obtain ⟨⟨hhalf, hclosed⟩, hnone, c, hc, hcall, q, hq, hanswered⟩ := hbits
  have hunearned : ¬ Started.Earned 0 c := by
    intro hearned
    obtain ⟨q', t, hq', ht, -⟩ := hearned hcall
    cases hq.symm.trans hq'
    rw [ht] at hanswered
    cases hanswered
  refine ⟨s, s', hs, hs', hhalf, hclosed, ?_, ?_, ?_⟩
  · intro q hq
    exact Option.isNone_iff_eq_none.mp (List.all_eq_true.mp hnone q hq)
  · intro htruthful
    exact hunearned (htruthful 0 c (List.mem_of_getElem? hc))
  · intro hcloses
    obtain ⟨j, d, hl, hd, -, hearned⟩ := hcloses s' 0 hs' hhalf hclosed
    cases hl
    cases hc.symm.trans hd
    exact hunearned hearned

end Examples

end Feedback

end SentirumLb
