import SentirumLb.Breaker.Changes
import SentirumLb.Breaker.LookOnly
import SentirumLb.Config.Basic
import SentirumLb.Proxy.Feedback
import SentirumLb.Proxy.LookupTarget
import SentirumLb.Proxy.Slots
import SentirumLb.Proxy.TargetRateLimit
import SentirumLb.Route.Deletion

/-! # Selecting the upstream of a request

A call looks a target up, asks its breaker to admit the request, and takes a
token of its rate limit and then a connection slot. The breaker may reserve a
probe for the request, which is given back when a limit turns the request down.
A target that the lookup returned could accept a request a moment ago, and its
breaker admits one still, so a call that runs alone asks no other breaker.
-/

namespace SentirumLb

variable {W : Type}

structure SelectState where
  heap : Heap
  buckets : Ref → TokenBucket
  pick : PickState
  nowNs : ℕ
  /-- The time that passes before each of the next calls that read the clock. -/
  waitsNs : List ℕ

namespace SelectState

def nowMs (s : SelectState) : ℕ := s.nowNs / 1000000

def tick (s : SelectState) : SelectState :=
  match s.waitsNs with
  | [] => s
  | w :: ws => { s with nowNs := s.nowNs + w, waitsNs := ws }

def breaker (s : SelectState) (r : Ref) : CircuitBreaker := (s.heap.trackers r).circuitBreaker

def storeBreaker (s : SelectState) (r : Ref) (b : CircuitBreaker) : SelectState :=
  { s with
    heap.trackers :=
      Function.update s.heap.trackers r { s.heap.trackers r with circuitBreaker := b } }

def onBreaker {α : Type} (m : CircuitBreaker.Method α) (t : Target W) (s : SelectState) :
    α × SelectState :=
  let s := s.tick
  let (a, b) := m.exec ⟨s.breaker t.healthTracker, s.nowMs⟩
  (a, s.storeBreaker t.healthTracker b.toCircuitBreaker)

/-- By `exec_allowRequest_rounds` the loop needs no further rounds. -/
def allowRequest (t : Target W) (s : SelectState) : Bool × SelectState :=
  let (r, s) := s.onBreaker (CircuitBreaker.allowRequest 2) t
  (r == some true, s)

def abortProbe (t : Target W) (s : SelectState) : SelectState :=
  (s.onBreaker CircuitBreaker.abortProbe t).2

def tryAcquireRateLimit (globalRate globalBurst : ℕ) (t : Target W) (s : SelectState) :
    Bool × SelectState :=
  let s := s.tick
  let (granted, b) := (Target.tryAcquireRateLimit t.opts globalRate globalBurst).exec
    ⟨s.buckets t.rateLimiter, s.nowNs, []⟩
  (granted, { s with buckets := Function.update s.buckets t.rateLimiter b.toTokenBucket })

def storeCount (s : SelectState) (t : Target W) (count : ℕ) : SelectState :=
  { s with heap.counters := Function.update s.heap.counters t.activeConnections count }

/-- The loop on the counter, as it ends when nothing interferes. -/
def tryAcquireConnectionSlot (maxConnections : UInt64) (t : Target W) (s : SelectState) :
    Bool × SelectState :=
  let current := s.heap.counters t.activeConnections
  if maxConnections = 0 then (true, s.storeCount t ((current + 1) % 2 ^ 64))
  else if maxConnections.toNat ≤ current then (false, s)
  else (true, s.storeCount t ((current + 1) % 2 ^ 64))

end SelectState

/-! ## The call -/

section Fallback

variable (headers : HeaderMap) (target : Target W)

def findFallback (anyHeaderConstraint : Bool) :
    List (Arc (Target W)) → SelectState → Option (Arc (Target W)) × SelectState
  | [], s => (none, s)
  | t :: ts, s =>
      if t.val.url != target.url && (s.heap.trackers t.val.healthTracker).isProbeHealthy &&
          (!anyHeaderConstraint || t.val.matchesHeaders headers) then
        match s.allowRequest t.val with
        | (true, s) => (some t, s)
        | (false, s) => findFallback anyHeaderConstraint ts s
      else findFallback anyHeaderConstraint ts s

def inlineFallback : List (Route W) → SelectState → Option (Arc (Target W)) × SelectState
  | [], s => (none, s)
  | r :: rs, s =>
      if r.wTargets.isEmpty then inlineFallback rs s
      else
        let anyHeaderConstraint := r.targets.any fun t => (t.val.opts.lookup "header").isSome
        match findFallback headers target anyHeaderConstraint r.targets s with
        | (some t, s) => (some t, s)
        | (none, s) => inlineFallback rs s

end Fallback

def checkBreaker (cbEnabled : Bool) (routes : List (Route W)) (headers : HeaderMap)
    (target : Arc (Target W)) (s : SelectState) : Option (Arc (Target W)) × SelectState :=
  if cbEnabled then
    match s.allowRequest target.val with
    | (true, s) => (some target, s)
    | (false, s) => inlineFallback headers target.val routes s
  else (some target, s)

/-- The rate limit and the connection slot of the target, which becomes `ctx.picked_target`. -/
def acquireTarget (proxy : ProxyConfig) (target : Arc (Target W)) (s : SelectState) :
    Except Rejection (Arc (Target W)) × SelectState :=
  match s.tryAcquireRateLimit proxy.rateLimitPerTarget proxy.rateLimitBurst target.val with
  | (false, s) =>
      (.error .rateLimited, if proxy.circuitBreakerEnabled then s.abortProbe target.val else s)
  | (true, s) =>
      match s.tryAcquireConnectionSlot (.ofNat proxy.maxConnections) target.val with
      | (false, s) =>
          (.error .connectionLimit,
            if proxy.circuitBreakerEnabled then s.abortProbe target.val else s)
      | (true, s) => (.ok target, s)

/-- `select_upstream_peer`, up to the point where `ctx.picked_target` is set. -/
def selectUpstreamPeer [WeightArith W] (proxy : ProxyConfig) (table : Table W)
    (host path : String) (headers : HeaderMap) (s : SelectState) :
    Except Rejection (Arc (Target W)) × SelectState :=
  let matcher := MatcherKind.fromConfig proxy.matcher
  let candidateRoutes := table.matchingRoutes host path matcher
  let env : LookupEnv := ⟨s.heap, s.nowMs, headers⟩
  match env.lookupTarget table host path matcher proxy.strategy proxy.circuitBreakerEnabled
      s.pick with
  | (none, pick) =>
      let rejection : Rejection :=
        if candidateRoutes.isEmpty then .noRoute proxy.noRouteStatus.toNat else .allUnhealthy
      (.error rejection, { s with pick := pick })
  | (some target, pick) =>
      match checkBreaker proxy.circuitBreakerEnabled candidateRoutes headers target
          { s with pick := pick } with
      | (none, s) => (.error .circuitOpen, s)
      | (some target, s) => acquireTarget proxy target s

namespace SelectState

/-! ## The parts -/

variable {s s' : SelectState} {t : Target W}

@[simp] theorem heap_tick (s : SelectState) : s.tick.heap = s.heap := by
  unfold tick
  split <;> rfl

theorem nowMs_le_tick (s : SelectState) : s.nowMs ≤ s.tick.nowMs := by
  unfold tick nowMs
  split
  · exact le_rfl
  · exact Nat.div_le_div_right (Nat.le_add_right _ _)

theorem breaker_tick (s : SelectState) (r : Ref) : s.tick.breaker r = s.breaker r := by
  unfold breaker
  rw [heap_tick]

theorem breaker_storeBreaker (s : SelectState) (r r' : Ref) (b : CircuitBreaker) :
    (s.storeBreaker r b).breaker r' = if r' = r then b else s.breaker r' := by
  unfold breaker storeBreaker
  by_cases h : r' = r
  · subst h
    simp
  · simp [h]

theorem breaker_onBreaker {α : Type} (m : CircuitBreaker.Method α) (t : Target W)
    (s : SelectState) (r : Ref) : (s.onBreaker m t).2.breaker r =
      if r = t.healthTracker then (m.exec ⟨s.breaker r, s.tick.nowMs⟩).2.toCircuitBreaker
      else s.breaker r := by
  unfold onBreaker
  dsimp only
  rw [breaker_storeBreaker, breaker_tick, breaker_tick]
  by_cases h : r = t.healthTracker
  · subst h
    simp
  · simp [h]

theorem counters_onBreaker {α : Type} (m : CircuitBreaker.Method α) (t : Target W)
    (s : SelectState) : (s.onBreaker m t).2.heap.counters = s.heap.counters := by
  change s.tick.heap.counters = s.heap.counters
  rw [heap_tick]

theorem heap_tryAcquireRateLimit (globalRate globalBurst : ℕ) (t : Target W) (s : SelectState) :
    (s.tryAcquireRateLimit globalRate globalBurst t).2.heap = s.heap := heap_tick s

theorem tryAcquireConnectionSlot_false {maxConnections : UInt64}
    (h : s.tryAcquireConnectionSlot maxConnections t = (false, s')) : s' = s := by
  unfold tryAcquireConnectionSlot at h
  dsimp only at h
  split at h
  · cases h
  · split at h
    · cases h
      rfl
    · cases h

open CircuitBreaker in
theorem breaker_abortProbe (t : Target W) (s : SelectState) (r : Ref) :
    ((s.abortProbe t).breaker r).stateAtomic = (s.breaker r).stateAtomic ∧
      ((s.abortProbe t).breaker r).halfOpenInFlight =
        if r = t.healthTracker ∧ stateOf (s.breaker r).stateAtomic = .halfOpen then false
        else (s.breaker r).halfOpenInFlight := by
  unfold abortProbe
  rw [breaker_onBreaker, exec_abortProbe]
  by_cases hr : r = t.healthTracker
  · subst hr
    by_cases hb : stateOf (s.breaker t.healthTracker).stateAtomic = .halfOpen
    · simp [hb, stateOf_eq_halfOpen_iff.mp hb]
    · simp [hb, mt stateOf_eq_halfOpen_iff.mpr hb]
  · simp [hr]

/-- An acquisition that nobody interferes with either ends as the call does or tries again. -/
theorem access_alone (s : SelectState) (a : Acquire W) (spurious : Bool)
    (hcurrent : ∀ c, a.current = some c →
      c = s.heap.counters a.target.activeConnections ∧ c < a.maxConnections.toNat) :
    a.access spurious (s.heap.counters a.target.activeConnections) =
        (if (s.tryAcquireConnectionSlot a.maxConnections a.target).1 then .granted else .refused,
          (s.tryAcquireConnectionSlot a.maxConnections a.target).2.heap.counters
            a.target.activeConnections) ∨
      s.heap.counters a.target.activeConnections < a.maxConnections.toNat ∧
        a.access spurious (s.heap.counters a.target.activeConnections) =
          (.running { a with current := some (s.heap.counters a.target.activeConnections) },
            s.heap.counters a.target.activeConnections) := by
  generalize hcount : s.heap.counters a.target.activeConnections = count at hcurrent
  unfold Acquire.access Acquire.loop tryAcquireConnectionSlot storeCount
  rw [hcount]
  by_cases hmax : a.maxConnections = 0
  · simp [hmax]
  · by_cases hfull : a.maxConnections.toNat ≤ count
    · cases hc : a.current with
      | none => simp [hmax, hfull, hcount]
      | some c =>
        obtain ⟨rfl, hlt⟩ := hcurrent c hc
        omega
    · cases hc : a.current with
      | none => simp [hmax, hfull, not_le.mp hfull]
      | some c =>
        obtain ⟨rfl, hlt⟩ := hcurrent c hc
        cases spurious
        · simp [hmax, hfull]
        · simp [hmax, hfull, hlt]

end SelectState

/-! ## What the lookup promises -/

namespace LookupEnv

variable [WeightArith W] {env : LookupEnv} {t : Arc (Target W)}

theorem canAccept_of_pickFallback {strategy : String} {targets : List (Arc (Target W))}
    {target : Arc (Target W)} {counter : Ref} {s : PickState}
    (h : (env.pickFallback strategy targets target counter s).1 = some t) :
    (env.tracker t.val).canAcceptRequest env.nowMs = true := by
  unfold pickFallback at h
  dsimp only at h
  split at h
  · cases h
  · next hne =>
    have hne' : (targets.filter fun u => u.val.url != target.val.url &&
        (env.tracker u.val).isProbeHealthy && (env.tracker u.val).canAcceptRequest env.nowMs) ≠
        [] := by simpa using hne
    obtain ⟨u, hu, s', he⟩ := pickTargetByStrategy_mem hne' hne' (List.Subset.refl _)
      env.heap.counters strategy counter s
    rw [he] at h
    cases h
    have hfilter := (List.mem_filter.mp hu).2
    simp only [Bool.and_eq_true] at hfilter
    exact hfilter.2

theorem canAccept_of_pickFromRoute {strategy : String} {r : Route W} {s : PickState}
    (h : (env.pickFromRoute strategy true r s).1 = some t) :
    (env.tracker t.val).canAcceptRequest env.nowMs = true := by
  unfold pickFromRoute at h
  split at h
  · cases h
  · split at h
    · cases h
    · dsimp only at h
      split at h
      · cases h
      · split at h
        · next haccept =>
          cases h
          simp only [Bool.not_true, Bool.false_or, Bool.and_eq_true] at haccept
          exact haccept.2
        · exact canAccept_of_pickFallback h

theorem canAccept_of_lookupTarget {table : Table W} {host path strategy : String} {m : MatcherKind}
    {s s' : PickState}
    (h : env.lookupTarget table host path m strategy true s = (some t, s')) :
    (env.tracker t.val).canAcceptRequest env.nowMs = true := by
  unfold lookupTarget at h
  generalize table.matchingRoutes host path m = rs at h
  induction rs generalizing s with
  | nil => cases h
  | cons r rs ih =>
    rw [pickFromRoutes] at h
    split at h
    · next hp =>
      cases h
      exact canAccept_of_pickFromRoute (congrArg Prod.fst hp)
    · exact ih h

end LookupEnv

/-! ## What the breaker does then -/

namespace CircuitBreaker

variable {b : CircuitBreaker} {early late : ℕ}

theorem canAccept_mono (hle : early ≤ late)
    (h : (canAcceptRequest.exec ⟨b, early⟩).1 = true) :
    (canAcceptRequest.exec ⟨b, late⟩).1 = true := by
  rcases bits_cases b.stateAtomic with hb | hb | hb | hb
  · exact exec_canAcceptRequest_closed hb
  · rw [exec_canAcceptRequest_open hb, decide_eq_true_iff] at h ⊢
    exact h.trans (Nat.sub_le_sub_right hle _)
  · rw [exec_canAcceptRequest_halfOpen hb] at h ⊢
    exact h
  · rw [(exec_checks_of_bits_three hb 0).1] at h
    cases h

/-- The request is admitted; a circuit that is then half-open had no probe in flight. -/
theorem allowRequest_of_canAccept (hle : early ≤ late) (hmax : 0 < b.halfOpenMaxRequests)
    (h : (canAcceptRequest.exec ⟨b, early⟩).1 = true) :
    ∃ b', (allowRequest 2).exec ⟨b, late⟩ = (some true, b') ∧
      (stateOf b.stateAtomic = .halfOpen → b.halfOpenInFlight = false) ∧
      (b'.toCircuitBreaker = b ∨ stateOf b'.stateAtomic = .halfOpen) := by
  have hlate := canAccept_mono hle h
  have hflight : stateOf b.stateAtomic = .halfOpen → b.halfOpenInFlight = false := by
    intro hhalf
    rw [exec_canAcceptRequest_halfOpen (stateOf_eq_halfOpen_iff.mp hhalf)] at h
    simpa using (Bool.and_eq_true_iff.mp h).2
  have hagree : ¬AwaitsLostProbe ⟨b, late⟩ := by
    rintro ⟨hhalf, -, hin, -⟩
    have hout := hflight (stateOf_eq_halfOpen_iff.mpr hhalf)
    exact absurd (hin.symm.trans hout) (by decide)
  have hallow := (checks_agree_iff (s := ⟨b, late⟩) hmax 0).mpr hagree
  rw [hlate] at hallow
  have hvalid : bits b.stateAtomic ≠ 3 := by
    intro hthree
    rw [(exec_checks_of_bits_three (s := ⟨b, late⟩) hthree 0).1] at hlate
    cases hlate
  obtain ⟨r, b', he⟩ : ∃ r b', (allowRequest 2).exec ⟨b, late⟩ = (r, b') := ⟨_, _, rfl⟩
  rw [he] at hallow
  cases hallow
  refine ⟨b', he, hflight, ?_⟩
  rcases allowRequest_cases hmax hvalid he with
    ⟨-, -, rfl⟩ | ⟨hr, -⟩ | ⟨-, -, rfl⟩ | ⟨-, hb, -, rfl⟩
  · exact Or.inl rfl
  · cases hr
  · exact Or.inr (stateOf_eq_halfOpen_iff.mpr (bits_halfOpened ⟨b, late⟩))
  · exact Or.inr (stateOf_eq_halfOpen_iff.mpr hb)

end CircuitBreaker

/-! ## Rejected calls -/

open CircuitBreaker

/-- The call leaves no trace on the connection counters, and no probe reserved. -/
structure LeavesNothing (s s' : SelectState) : Prop where
  counters : ∀ r, s'.heap.counters r = s.heap.counters r
  inFlight : ∀ r, stateOf (s.breaker r).stateAtomic = .halfOpen →
    (s'.breaker r).halfOpenInFlight = (s.breaker r).halfOpenInFlight
  noProbe : ∀ r, stateOf (s.breaker r).stateAtomic ≠ .halfOpen →
    stateOf (s'.breaker r).stateAtomic = .halfOpen → (s'.breaker r).halfOpenInFlight = false

variable {proxy : ProxyConfig} {target t : Arc (Target W)} {s s' : SelectState}
  {rejection : Rejection}

theorem acquireTarget_error (hcb : proxy.circuitBreakerEnabled = true)
    (h : acquireTarget proxy target s = (.error rejection, s')) :
    s'.heap.counters = s.heap.counters ∧
      ∃ u : SelectState, u.heap = s.heap ∧ s' = u.abortProbe target.val := by
  have hheap := SelectState.heap_tryAcquireRateLimit proxy.rateLimitPerTarget proxy.rateLimitBurst
    target.val s
  have habort : ∀ u : SelectState, u.heap = s.heap →
      (u.abortProbe target.val).heap.counters = s.heap.counters := by
    intro u hu
    rw [← hu]
    exact SelectState.counters_onBreaker _ _ _
  unfold acquireTarget at h
  split at h
  · next u hu =>
    rw [hu] at hheap
    simp only [hcb, if_true] at h
    cases h
    exact ⟨habort u hheap, u, hheap, rfl⟩
  · next u hu =>
    rw [hu] at hheap
    split at h
    · next v hv =>
      obtain rfl := SelectState.tryAcquireConnectionSlot_false hv
      simp only [hcb, if_true] at h
      cases h
      exact ⟨habort v hheap, v, hheap, rfl⟩
    · cases h

theorem checkBreaker_of_canAccept {routes : List (Route W)} {headers : HeaderMap}
    (hmax : 0 < (s.breaker target.val.healthTracker).halfOpenMaxRequests)
    (hcan : (canAcceptRequest.exec ⟨s.breaker target.val.healthTracker, s.nowMs⟩).1 = true) :
    ∃ u, checkBreaker true routes headers target s = (some target, u) ∧
      u.heap.counters = s.heap.counters ∧
      (∀ r, r ≠ target.val.healthTracker → u.breaker r = s.breaker r) ∧
      (stateOf (s.breaker target.val.healthTracker).stateAtomic = .halfOpen →
        (s.breaker target.val.healthTracker).halfOpenInFlight = false) ∧
      (u.breaker target.val.healthTracker = s.breaker target.val.healthTracker ∨
        stateOf (u.breaker target.val.healthTracker).stateAtomic = .halfOpen) := by
  obtain ⟨b', hexec, hflight, hafter⟩ := allowRequest_of_canAccept s.nowMs_le_tick hmax hcan
  have hfst : (s.allowRequest target.val).1 = true := by
    unfold SelectState.allowRequest SelectState.onBreaker
    dsimp only
    rw [SelectState.breaker_tick, hexec]
    rfl
  have hbreaker : ∀ r, (s.allowRequest target.val).2.breaker r =
      if r = target.val.healthTracker then b'.toCircuitBreaker else s.breaker r := by
    intro r
    have h := SelectState.breaker_onBreaker (CircuitBreaker.allowRequest 2) target.val s r
    by_cases hr : r = target.val.healthTracker
    · subst hr
      rw [if_pos rfl, hexec] at h
      rw [if_pos rfl]
      exact h
    · rw [if_neg hr] at h ⊢
      exact h
  obtain ⟨ok, u, hu⟩ : ∃ ok u, s.allowRequest target.val = (ok, u) := ⟨_, _, rfl⟩
  rw [hu] at hfst hbreaker
  cases hfst
  refine ⟨u, ?_, ?_, fun r hr => ?_, hflight, ?_⟩
  · rw [checkBreaker, if_pos rfl, hu]
  · have h := SelectState.counters_onBreaker (CircuitBreaker.allowRequest 2) target.val s
    change (s.allowRequest target.val).2.heap.counters = s.heap.counters at h
    rwa [hu] at h
  · rw [hbreaker, if_neg hr]
  · rw [hbreaker, if_pos rfl]
    exact hafter

section Rejected

variable [WeightArith W]

/-- A call that is rejected, with breakers enabled and while no other call runs, leaves the
connection counters as they were and reserves no probe. -/
theorem rejection_clean {table : Table W} {host path : String} {headers : HeaderMap}
    (hcb : proxy.circuitBreakerEnabled = true)
    (hbreakers : ∀ r, ∃ config, Configured config (s.breaker r))
    (h : selectUpstreamPeer proxy table host path headers s = (.error rejection, s')) :
    LeavesNothing s s' := by
  unfold selectUpstreamPeer at h
  rw [hcb] at h
  dsimp only at h
  split at h
  · cases h
    exact ⟨fun _ => rfl, fun _ _ => rfl, fun _ hne hhalf => absurd hhalf hne⟩
  · next target pick hlookup =>
    have hcan := LookupEnv.canAccept_of_lookupTarget hlookup
    obtain ⟨config, hconfigured⟩ := hbreakers target.val.healthTracker
    have hmax : 0 < (s.breaker target.val.healthTracker).halfOpenMaxRequests := by
      rw [hconfigured.halfOpenMaxRequests]
      omega
    obtain ⟨u, hcheck, hcounters, hothers, hflight, hadmitted⟩ :=
      checkBreaker_of_canAccept (s := { s with pick := pick }) hmax hcan
    rw [hcheck] at h
    obtain ⟨hcounters', v, hheap, rfl⟩ := acquireTarget_error hcb h
    have hv : ∀ r, v.breaker r = u.breaker r := by
      intro r
      unfold SelectState.breaker
      rw [hheap]
    have hsame : ∀ r, ({ s with pick := pick } : SelectState).breaker r = s.breaker r :=
      fun _ => rfl
    refine ⟨fun r => ?_, fun r hhalf => ?_, fun r hne hhalf => ?_⟩
    · rw [hcounters', hcounters]
    · obtain ⟨-, hin⟩ := SelectState.breaker_abortProbe target.val v r
      rw [hin, hv]
      by_cases hr : r = target.val.healthTracker
      · subst hr
        have hu : stateOf (u.breaker target.val.healthTracker).stateAtomic = .halfOpen := by
          rcases hadmitted with heq | hu
          · rw [heq]
            exact hhalf
          · exact hu
        rw [if_pos ⟨rfl, hu⟩]
        exact (hflight hhalf).symm
      · rw [if_neg fun hc => hr hc.1, hothers r hr, hsame]
    · obtain ⟨hstate, hin⟩ := SelectState.breaker_abortProbe target.val v r
      rw [hstate, hv] at hhalf
      rw [hin, hv]
      by_cases hr : r = target.val.healthTracker
      · rw [if_pos ⟨hr, hhalf⟩]
      · rw [hothers r hr, hsame] at hhalf
        exact absurd hhalf hne

end Rejected

section Examples

attribute [local instance] Platform.plain

def busyState : SelectState where
  heap :=
    { next := 0
      counters := fun _ => 1
      trackers := fun _ =>
        { TargetHealthTracker.withConfig tightConfig with
          circuitBreaker := { withConfig tightConfig with stateAtomic := stateOpen } } }
  buckets := fun _ => TokenBucket.new
  pick := ⟨fun _ => 0, fun _ => 0⟩
  nowNs := 5000000
  waitsNs := [1000000]

/-- The probe that the open circuit admits is given back when the only slot is taken. -/
theorem rejection_clean_busyState :
    let call := selectUpstreamPeer { maxConnections := 1 } Table.webTable "a.example" "/"
      (fun _ => none) busyState
    call.1.isOk = false ∧ stateOf (call.2.breaker 0).stateAtomic = .halfOpen ∧
      LeavesNothing busyState call.2 := by
  intro call
  have hrejected : call.1.isOk = false := by decide +kernel
  refine ⟨hrejected, by decide +kernel, ?_⟩
  cases hcall : call.1 with
  | ok t => simp [hcall, Except.isOk, Except.toBool] at hrejected
  | error rejection =>
    exact rejection_clean rfl (fun _ => ⟨tightConfig, rfl, rfl, rfl, rfl⟩) (Prod.ext hcall rfl)

end Examples

end SentirumLb
