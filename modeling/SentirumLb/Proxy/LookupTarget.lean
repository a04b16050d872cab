import SentirumLb.Breaker.Sequential
import SentirumLb.Route.Lookup
import SentirumLb.Route.Picker
import SentirumLb.Route.Registry

/-! # Selecting a target for a request

The routes that match a request are tried from the most specific one on. In
each, a pick that is unhealthy is replaced by a second pick among the healthy
targets with another URL, and a route without one is passed over. Two targets
with one URL share their tracker, so excluding a URL excludes no healthy
target.
-/

namespace SentirumLb

variable {W : Type}

/-- `can_accept_request` at a time of the monotonic clock. By `exec_canAcceptRequest_state` the call
leaves the breaker as it is. -/
def TargetHealthTracker.canAcceptRequest (nowMs : ℕ) (h : TargetHealthTracker) : Bool :=
  (CircuitBreaker.canAcceptRequest.exec ⟨h.circuitBreaker, nowMs⟩).1

/-- What a lookup reads besides the table: the shared objects, the clock and the request headers. -/
structure LookupEnv where
  heap : Heap
  nowMs : ℕ
  headers : HeaderMap

namespace LookupEnv

def tracker (env : LookupEnv) (t : Target W) : TargetHealthTracker :=
  env.heap.trackers t.healthTracker

/-- A target that a request may be sent to. -/
def eligible (env : LookupEnv) (t : Target W) : Bool :=
  t.matchesHeaders env.headers && (env.tracker t).isProbeHealthy &&
    (env.tracker t).canAcceptRequest env.nowMs

/-- The targets of a route to pick from and their slots, or `none` when the header constraints are
not met. -/
def candidates (env : LookupEnv) (r : Route W) :
    Option (List (Arc (Target W)) × List (Arc (Target W))) :=
  if r.targets.any fun t => (t.val.opts.lookup "header").isSome then
    let matching := r.targets.filter fun t => t.val.matchesHeaders env.headers
    if matching.isEmpty then none
    else some (matching, r.wTargets.filter fun t => t.val.matchesHeaders env.headers)
  else some (r.targets, r.wTargets)

variable [WeightArith W]

def pickFallback (env : LookupEnv) (strategy : String) (targets : List (Arc (Target W)))
    (target : Arc (Target W)) (counter : Ref) (s : PickState) :
    Option (Arc (Target W)) × PickState :=
  let healthyFallbacks := targets.filter fun t =>
    t.val.url != target.val.url && (env.tracker t.val).isProbeHealthy &&
      (env.tracker t.val).canAcceptRequest env.nowMs
  if healthyFallbacks.isEmpty then (none, s)
  else
    pickTargetByStrategy env.heap.counters strategy healthyFallbacks healthyFallbacks counter s

def pickFromRoute (env : LookupEnv) (strategy : String) (cbEnabled : Bool) (r : Route W)
    (s : PickState) : Option (Arc (Target W)) × PickState :=
  if r.wTargets.isEmpty then (none, s)
  else
    match env.candidates r with
    | none => (none, s)
    | some (targets, wTargets) =>
        let wList := if wTargets.isEmpty then targets else wTargets
        match pickTargetByStrategy env.heap.counters strategy targets wList r.rrCounter s with
        | (none, s) => (none, s)
        | (some target, s) =>
            if (env.tracker target.val).isProbeHealthy &&
                (!cbEnabled || (env.tracker target.val).canAcceptRequest env.nowMs) then
              (some target, s)
            else env.pickFallback strategy targets target r.rrCounter s

def pickFromRoutes (env : LookupEnv) (strategy : String) (cbEnabled : Bool) :
    List (Route W) → PickState → Option (Arc (Target W)) × PickState
  | [], s => (none, s)
  | r :: rs, s =>
      match env.pickFromRoute strategy cbEnabled r s with
      | (some t, s) => (some t, s)
      | (none, s) => pickFromRoutes env strategy cbEnabled rs s

def lookupTarget (env : LookupEnv) (table : Table W) (host path : String) (m : MatcherKind)
    (strategy : String) (cbEnabled : Bool) (s : PickState) :
    Option (Arc (Target W)) × PickState :=
  env.pickFromRoutes strategy cbEnabled (table.matchingRoutes host path m) s

/-! ## One route -/

omit [WeightArith W] in
theorem candidates_none {env : LookupEnv} {r : Route W} (h : env.candidates r = none) :
    ∀ t ∈ r.targets, env.eligible t.val = false := by
  unfold candidates at h
  intro t ht
  split at h
  · dsimp only at h
    split at h
    · next hempty =>
      have hmatch := List.filter_eq_nil_iff.mp (List.isEmpty_iff.mp hempty) t ht
      simp [eligible, hmatch]
    · cases h
  · cases h

omit [WeightArith W] in
theorem candidates_some [Platform] {env : LookupEnv} {r : Route W} (hr : r.WellFormed)
    {targets wTargets : List (Arc (Target W))} (h : env.candidates r = some (targets, wTargets)) :
    (∀ t, t ∈ targets ↔ t ∈ r.targets ∧ t.val.matchesHeaders env.headers = true) ∧
      targets ≠ [] ∧ wTargets ⊆ targets := by
  unfold candidates at h
  split at h
  · dsimp only at h
    split at h
    · cases h
    · next hne =>
      cases h
      refine ⟨fun t => List.mem_filter, by simpa using hne, ?_⟩
      intro t ht
      rw [List.mem_filter] at ht ⊢
      exact ⟨hr.wTargets_sub t ht.1, ht.2⟩
  · next hopt =>
    cases h
    refine ⟨?_, hr.targets_ne, hr.wTargets_sub⟩
    intro t
    rw [iff_self_and]
    intro ht
    apply Target.matchesHeaders_of_no_option
    have hnone := List.any_eq_false.mp (Bool.not_eq_true _ ▸ hopt) t ht
    simpa using hnone

/-- The outcome of a pick agrees with whether the targets hold an eligible one. -/
def Complete (env : LookupEnv) (targets : List (Arc (Target W)))
    (pick : Option (Arc (Target W))) : Prop :=
  match pick with
  | some t => t ∈ targets ∧ env.eligible t.val = true
  | none => ∀ t ∈ targets, env.eligible t.val = false

variable {env : LookupEnv}

omit [WeightArith W] in
theorem eligible_eq {t : Target W} (h : t.matchesHeaders env.headers = true) :
    env.eligible t =
      ((env.tracker t).isProbeHealthy && (env.tracker t).canAcceptRequest env.nowMs) := by
  simp [eligible, h]

theorem complete_pickFallback {targets : List (Arc (Target W))} {target : Arc (Target W)}
    (hheaders : ∀ t ∈ targets, t.val.matchesHeaders env.headers = true)
    (hshare : ∀ t ∈ targets, t.val.url = target.val.url →
      t.val.healthTracker = target.val.healthTracker)
    (hpick : ((env.tracker target.val).isProbeHealthy &&
      (env.tracker target.val).canAcceptRequest env.nowMs) = false)
    (strategy : String) (counter : Ref) (s : PickState) :
    env.Complete targets (env.pickFallback strategy targets target counter s).1 := by
  have hfilter : (targets.filter fun t => t.val.url != target.val.url &&
      (env.tracker t.val).isProbeHealthy && (env.tracker t.val).canAcceptRequest env.nowMs) =
      targets.filter fun t => env.eligible t.val := by
    apply List.filter_congr
    intro t ht
    rw [eligible_eq (hheaders t ht)]
    by_cases hurl : t.val.url = target.val.url
    · have htracker : env.tracker t.val = env.tracker target.val :=
        congrArg env.heap.trackers (hshare t ht hurl)
      rw [htracker, Bool.and_assoc, hpick, Bool.and_false]
    · rw [bne_iff_ne.mpr hurl, Bool.true_and]
  unfold pickFallback
  rw [hfilter]
  dsimp only
  split
  · next hempty =>
    intro t ht
    have hnot := List.filter_eq_nil_iff.mp (List.isEmpty_iff.mp hempty) t ht
    simpa using hnot
  · next hne =>
    have hne' : (targets.filter fun t => env.eligible t.val) ≠ [] := by simpa using hne
    obtain ⟨t, ht, s', he⟩ := pickTargetByStrategy_mem hne' hne' (List.Subset.refl _)
      env.heap.counters strategy counter s
    rw [he]
    exact List.mem_filter.mp ht

/-- A round of the loop finds an eligible target of the route exactly if there is one. -/
theorem complete_pickFromRoute [Platform] {r : Route W} (hr : r.WellFormed)
    (hshare : ∀ t ∈ r.targets, ∀ u ∈ r.targets, t.val.url = u.val.url →
      t.val.healthTracker = u.val.healthTracker) (strategy : String) (s : PickState) :
    env.Complete r.targets (env.pickFromRoute strategy true r s).1 := by
  unfold pickFromRoute
  rw [if_neg (by simpa using hr.wTargets_ne)]
  cases hc : env.candidates r with
  | none => exact candidates_none hc
  | some c =>
    obtain ⟨targets, wTargets⟩ := c
    obtain ⟨hmem, hne, hsub⟩ := candidates_some hr hc
    have hlift : ∀ p, env.Complete targets p → env.Complete r.targets p := by
      intro p hp
      cases p with
      | some t => exact ⟨((hmem t).mp hp.1).1, hp.2⟩
      | none =>
        intro t ht
        by_cases hmatch : t.val.matchesHeaders env.headers = true
        · exact hp t ((hmem t).mpr ⟨ht, hmatch⟩)
        · simp [eligible, hmatch]
    have hslots : (if wTargets.isEmpty then targets else wTargets) ≠ [] ∧
        (if wTargets.isEmpty then targets else wTargets) ⊆ targets := by
      split
      · exact ⟨hne, List.Subset.refl _⟩
      · next h => exact ⟨by simpa using h, hsub⟩
    obtain ⟨target, htarget, s', he⟩ := pickTargetByStrategy_mem hne hslots.1 hslots.2
      env.heap.counters strategy r.rrCounter s
    apply hlift
    dsimp only
    rw [he]
    dsimp only
    split
    · next haccept =>
      refine ⟨htarget, ?_⟩
      rw [eligible_eq ((hmem target).mp htarget).2]
      simpa using haccept
    · next hreject =>
      apply complete_pickFallback
      · intro t ht
        exact ((hmem t).mp ht).2
      · intro t ht
        exact hshare t ((hmem t).mp ht).1 target ((hmem target).mp htarget).1
      · simpa using hreject

/-! ## All matching routes -/

omit [WeightArith W] in
def serves (env : LookupEnv) (r : Route W) : Bool := r.targets.any fun t => env.eligible t.val

omit [WeightArith W] in
theorem serves_iff {r : Route W} :
    env.serves r = true ↔ ∃ t ∈ r.targets, env.eligible t.val = true := by
  simp [serves]

/-- The loop ends with an eligible target of the first route that has one. -/
theorem pickFromRoutes_eq_some_iff {strategy : String} {rs : List (Route W)}
    (hrs : ∀ r ∈ rs, ∀ s, env.Complete r.targets (env.pickFromRoute strategy true r s).1)
    (s : PickState) :
    ((env.pickFromRoutes strategy true rs s).1.isSome ↔ ∃ r ∈ rs, env.serves r = true) ∧
      ∀ t, (env.pickFromRoutes strategy true rs s).1 = some t →
        env.eligible t.val = true ∧ ∃ r, rs.find? env.serves = some r ∧ t ∈ r.targets := by
  induction rs generalizing s with
  | nil => simp [pickFromRoutes]
  | cons r rs ih =>
    have hr := hrs r List.mem_cons_self s
    have hrest := ih fun q hq => hrs q (List.mem_cons_of_mem r hq)
    rw [pickFromRoutes]
    generalize hp : env.pickFromRoute strategy true r s = p at hr
    obtain ⟨pick, s'⟩ := p
    cases pick with
    | some t =>
      have hserves : env.serves r = true := serves_iff.mpr ⟨t, hr⟩
      constructor
      · simp [hserves]
      · intro u hu
        cases hu
        exact ⟨hr.2, r, by simp [hserves], hr.1⟩
    | none =>
      have hserves : env.serves r = false := by
        rw [serves, List.any_eq_false]
        intro t ht
        simp [hr t ht]
      simpa [hserves] using hrest s'

/-! ## Managed tables -/

/-- The table of any run of updates, with any state of the trackers, gives a request an eligible
target exactly if some matching route has one, and then one of the first such route. -/
theorem lookupTarget_run [Platform] (cbConfig : Option CircuitBreakerConfig) (heap : Heap)
    (calls : List (Update W × List (Target W))) (env : LookupEnv) (host path : String)
    (m : MatcherKind) (strategy : String) (s : PickState) :
    let table := ((ManagedRouteTable.new cbConfig heap).run calls).table
    let found := (env.lookupTarget table host path m strategy true s).1
    (found.isSome ↔ ∃ r ∈ table.matchingRoutes host path m, ∃ t ∈ r.targets,
        env.eligible t.val = true) ∧
      ∀ t, found = some t → env.eligible t.val = true ∧
        ∃ r, (table.matchingRoutes host path m).find?
          (fun q => q.targets.any fun u => env.eligible u.val) = some r ∧ t ∈ r.targets := by
  intro table found
  have hpublished : ((ManagedRouteTable.new cbConfig heap).run calls).Published :=
    ManagedRouteTable.published_run cbConfig heap calls
  have hcomplete : ∀ r ∈ table.matchingRoutes host path m, ∀ s,
      env.Complete r.targets (env.pickFromRoute strategy true r s).1 := by
    intro r hr s
    obtain ⟨key, hkey⟩ := Table.mem_bucket_of_mem_matchingRoutes hr
    apply complete_pickFromRoute (hpublished.wellFormed.wellFormed_of_mem_bucket hkey)
    intro t ht u hu
    exact hpublished.healthTracker_eq_of_url_eq (Table.hasTarget_of_mem_bucket hkey ht)
      (Table.hasTarget_of_mem_bucket hkey hu)
  have hspec := pickFromRoutes_eq_some_iff hcomplete s
  simp only [serves_iff] at hspec
  exact hspec

end LookupEnv

end SentirumLb
