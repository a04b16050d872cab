import SentirumLb.Proxy.LookupTarget
import SentirumLb.Route.LeastConnections
import SentirumLb.Route.TcpRoutes

/-! # Selecting a target for a TCP connection

The TCP paths keep the first pick from the route that they find. The HTTP path
asks the tracker of its pick whether the target passes its probes, and picks
again or goes on to another route when it does not.
-/

namespace SentirumLb

variable {W : Type} [WeightArith W]

namespace Tcp

def pickFrom (connections : Ref → ℕ) (strategy : String) (route : Route W) (s : PickState) :
    Option (Arc (Target W)) × PickState :=
  pickTargetByStrategy connections strategy route.targets route.wTargets route.rrCounter s

def lookupTarget (connections : Ref → ℕ) (table : Table W) (strategy localAddr : String)
    (s : PickState) : Option (Arc (Target W)) × PickState :=
  match table.lookupTcpRouteForLocalAddr localAddr with
  | some route => pickFrom connections strategy route s
  | none => (none, s)

def lookupSniTarget (connections : Ref → ℕ) (table : Table W) (strategy serverName : String)
    (s : PickState) : Option (Arc (Target W)) × PickState :=
  match table.lookupTcpSniRoute serverName with
  | some route => pickFrom connections strategy route s
  | none => (none, s)

end Tcp

/-! ## What a strategy can pick -/

/-- The targets that the strategy can pick from the route: those in a slot that the round-robin
counter or a random index reaches, or those that are the least loaded for some connection counts. -/
def Route.CanPick (r : Route W) (strategy : String) (t : Arc (Target W)) : Prop :=
  if strategy = "random" ∨ strategy = "rnd" then t ∈ r.wTargets
  else if strategy = "least-connections" ∨ strategy = "lc" then
    ∃ connections, LeastLoaded connections r.targets t
  else t ∈ r.wTargets.take (2 ^ 64)

omit [WeightArith W] in
theorem exists_roundRobinPick_iff {targets wTargets : List (Arc (Target W))} (ht : targets ≠ [])
    (counter : Ref) (t : Arc (Target W)) :
    (∃ s, (roundRobinPick targets wTargets counter s).1 = some t) ↔
      t ∈ wTargets.take (2 ^ 64) := by
  have hpick : ∀ s : PickState, (roundRobinPick targets wTargets counter s).1 =
      wTargets[(s.rrCounters counter).toNat % wTargets.length]? := by
    intro s
    unfold roundRobinPick
    by_cases hw : wTargets = []
    · simp [hw]
    · simp [hw, ht, PickState.fetchAdd]
  simp only [hpick, List.mem_take_iff_getElem]
  constructor
  · rintro ⟨s, hs⟩
    obtain ⟨hlt, he⟩ := List.getElem?_eq_some_iff.mp hs
    refine ⟨_, ?_, he⟩
    have hle := Nat.mod_le (s.rrCounters counter).toNat wTargets.length
    have hbound := (s.rrCounters counter).toNat_lt
    omega
  · rintro ⟨i, hi, rfl⟩
    refine ⟨⟨fun _ => UInt64.ofNat i, fun _ => 0⟩, ?_⟩
    have hsize : i < UInt64.size := by
      change i < 18446744073709551616
      omega
    have hmod : (UInt64.ofNat i).toNat % wTargets.length = i := by
      rw [UInt64.toNat_ofNat_of_lt' hsize]
      exact Nat.mod_eq_of_lt (by omega)
    rw [hmod]
    exact List.getElem?_eq_getElem _

omit [WeightArith W] in
theorem exists_randomPick_iff {wTargets : List (Arc (Target W))} (t : Arc (Target W)) :
    (∃ s, (randomPick wTargets s).1 = some t) ↔ t ∈ wTargets := by
  constructor
  · rintro ⟨s, hs⟩
    unfold randomPick at hs
    split at hs
    · cases hs
    · exact List.mem_of_getElem? hs
  · intro ht
    obtain ⟨i, hi, rfl⟩ := List.getElem_of_mem ht
    refine ⟨⟨fun _ => 0, fun _ => i⟩, ?_⟩
    have hne : wTargets.isEmpty = false := by simpa using List.ne_nil_of_mem ht
    simp [randomPick, PickState.randomRange, hne, Nat.mod_eq_of_lt hi]

theorem Route.canPick_iff [Platform] {r : Route W} (hr : r.WellFormed) (strategy : String)
    (t : Arc (Target W)) :
    r.CanPick strategy t ↔ ∃ connections s, (Tcp.pickFrom connections strategy r s).1 = some t := by
  have hrr := @exists_roundRobinPick_iff W r.targets r.wTargets hr.targets_ne r.rrCounter t
  have hstate : Nonempty PickState := ⟨⟨fun _ => 0, fun _ => 0⟩⟩
  unfold CanPick Tcp.pickFrom pickTargetByStrategy
  by_cases hrandom : strategy = "random" ∨ strategy = "rnd"
  · have hother : ¬(strategy = "round-robin" ∨ strategy = "rr" ∨ strategy = "") := by
      rcases hrandom with rfl | rfl <;> decide
    simp only [if_pos hrandom, if_neg hother, exists_randomPick_iff, exists_const]
  · by_cases hleast : strategy = "least-connections" ∨ strategy = "lc"
    · have hother : ¬(strategy = "round-robin" ∨ strategy = "rr" ∨ strategy = "") := by
        rcases hleast with rfl | rfl <;> decide
      simp only [if_neg hrandom, if_pos hleast, if_neg hother, exists_const,
        leastConnectionsPick_eq_some_iff _ hr.targets_ne]
    · simp only [if_neg hrandom, if_neg hleast, ite_self, hrr, exists_const]

/-! ## Probe health -/

def ProbeHealthy (trackers : Ref → TargetHealthTracker) (t : Arc (Target W)) : Prop :=
  (trackers t.val.healthTracker).isProbeHealthy = true

/-- No unhealthy target is picked while the route has a healthy one. -/
def Respects (trackers : Ref → TargetHealthTracker) (r : Route W)
    (pick : Option (Arc (Target W))) : Prop :=
  ∀ t, pick = some t → ProbeHealthy trackers t ∨ ∀ u ∈ r.targets, ¬ProbeHealthy trackers u

/-- Every pick from the route respects the probes just when all that the strategy can pick is
healthy, or nothing in the route is. -/
theorem respects_pickFrom_iff [Platform] {r : Route W} (hr : r.WellFormed)
    (trackers : Ref → TargetHealthTracker) (strategy : String) :
    (∀ connections s, Respects trackers r (Tcp.pickFrom connections strategy r s).1) ↔
      (∀ t, r.CanPick strategy t → ProbeHealthy trackers t) ∨
        ∀ u ∈ r.targets, ¬ProbeHealthy trackers u := by
  simp only [Route.canPick_iff hr]
  constructor
  · intro h
    by_cases hnone : ∀ u ∈ r.targets, ¬ProbeHealthy trackers u
    · exact Or.inr hnone
    · refine Or.inl ?_
      rintro t ⟨connections, s, hpick⟩
      exact (h connections s t hpick).resolve_right hnone
  · rintro (hall | hnone) connections s t hpick
    · exact Or.inl (hall t ⟨connections, s, hpick⟩)
    · exact Or.inr hnone

namespace LookupEnv

variable {env : LookupEnv}

theorem isProbeHealthy_pickFallback {strategy : String} {targets : List (Arc (Target W))}
    {target t : Arc (Target W)} {counter : Ref} {s : PickState}
    (h : (env.pickFallback strategy targets target counter s).1 = some t) :
    (env.tracker t.val).isProbeHealthy = true := by
  unfold pickFallback at h
  dsimp only at h
  split at h
  · cases h
  · next hne =>
    rw [List.isEmpty_iff] at hne
    obtain ⟨u, hu, s', he⟩ := pickTargetByStrategy_mem hne hne (List.Subset.refl _)
      env.heap.counters strategy counter s
    rw [he] at h
    cases h
    simp only [List.mem_filter, Bool.and_eq_true] at hu
    exact hu.2.1.2

theorem isProbeHealthy_pickFromRoute {strategy : String} {cbEnabled : Bool} {r : Route W}
    {s : PickState} {t : Arc (Target W)}
    (h : (env.pickFromRoute strategy cbEnabled r s).1 = some t) :
    (env.tracker t.val).isProbeHealthy = true := by
  unfold pickFromRoute at h
  split at h
  · cases h
  · split at h
    · cases h
    · dsimp only at h
      split at h
      · cases h
      · next target s' hpick =>
        split at h
        · next haccept =>
          cases h
          rw [Bool.and_eq_true] at haccept
          exact haccept.1
        · exact isProbeHealthy_pickFallback h

/-- The HTTP path never selects an unhealthy target. -/
theorem isProbeHealthy_lookupTarget {table : Table W} {host path : String} {m : MatcherKind}
    {strategy : String} {cbEnabled : Bool} {s : PickState} {t : Arc (Target W)}
    (h : (env.lookupTarget table host path m strategy cbEnabled s).1 = some t) :
    (env.tracker t.val).isProbeHealthy = true := by
  unfold lookupTarget at h
  generalize table.matchingRoutes host path m = routes at h
  induction routes generalizing s with
  | nil => cases h
  | cons r rs ih =>
    rw [pickFromRoutes] at h
    split at h
    · next u s' hpick =>
      cases h
      exact isProbeHealthy_pickFromRoute (congrArg (·.1) hpick)
    · exact ih h

end LookupEnv

/-! ## Managed tables -/

/-- After any updates, the HTTP path never selects an unhealthy target; each TCP path does so from
the route that it finds, in some state of its pickers and with some connection counts, just when
the strategy can pick an unhealthy target of the route and the route has a healthy one. -/
theorem lookups_respect_probes_iff [Platform] (cbConfig : Option CircuitBreakerConfig) (heap : Heap)
    (calls : List (Update W × List (Target W))) :
    let table := ((ManagedRouteTable.new cbConfig heap).run calls).table
    (∀ (env : LookupEnv) host path m strategy cbEnabled s t,
      (env.lookupTarget table host path m strategy cbEnabled s).1 = some t →
        (env.tracker t.val).isProbeHealthy = true) ∧
    (∀ trackers strategy localAddr r, table.lookupTcpRouteForLocalAddr localAddr = some r →
      ((∀ connections s,
        Respects trackers r (Tcp.lookupTarget connections table strategy localAddr s).1) ↔
      (∀ t, r.CanPick strategy t → ProbeHealthy trackers t) ∨
        ∀ u ∈ r.targets, ¬ProbeHealthy trackers u)) ∧
    (∀ trackers strategy serverName r, table.lookupTcpSniRoute serverName = some r →
      ((∀ connections s,
        Respects trackers r (Tcp.lookupSniTarget connections table strategy serverName s).1) ↔
      (∀ t, r.CanPick strategy t → ProbeHealthy trackers t) ∨
        ∀ u ∈ r.targets, ¬ProbeHealthy trackers u)) := by
  intro table
  have hwellFormed : table.WellFormed :=
    (ManagedRouteTable.published_run cbConfig heap calls).wellFormed
  refine ⟨fun env host path m strategy cbEnabled s t => LookupEnv.isProbeHealthy_lookupTarget,
    ?_, ?_⟩
  · intro trackers strategy localAddr r hr
    obtain ⟨key, hkey⟩ := Table.mem_bucket_of_lookupTcpRouteForLocalAddr hr
    simp only [Tcp.lookupTarget, hr]
    exact respects_pickFrom_iff (hwellFormed.wellFormed_of_mem_bucket hkey) trackers strategy
  · intro trackers strategy serverName r hr
    have hkey := Table.mem_bucket_of_lookup_find hr
    simp only [Tcp.lookupSniTarget, hr]
    exact respects_pickFrom_iff (hwellFormed.wellFormed_of_mem_bucket hkey) trackers strategy

section Examples

attribute [local instance] Platform.plain

def tcpCalls : List (Update ℚ × List (Target ℚ)) :=
  [(.loadStatic
    [{ exampleDef .static .add "db" "tcp://10.0.0.1:5432" with src := ":5432" },
      { exampleDef .static .add "db" "tcp://10.0.0.2:5432" with src := ":5432" }], [])]

def firstUnhealthy (ref : Ref) : TargetHealthTracker :=
  { TargetHealthTracker.new none with isHealthy := ref != 1 }

/-- The first connection goes to the unhealthy backend, while the other one is healthy. -/
theorem lookups_respect_probes_firstUnhealthy :
    let table := ((ManagedRouteTable.new none .empty).run tcpCalls).table
    ∃ r t u, table.lookupTcpRouteForLocalAddr "10.1.1.1:5432" = some r ∧
      (Tcp.lookupTarget (fun _ => 0) table "rr" "10.1.1.1:5432"
        ⟨fun _ => 0, fun _ => 0⟩).1 = some t ∧
      ¬ProbeHealthy firstUnhealthy t ∧ u ∈ r.targets ∧ ProbeHealthy firstUnhealthy u := by
  intro table
  have hroute : (table.lookupTcpRouteForLocalAddr "10.1.1.1:5432").map
      (fun r => r.targets.map (·.val.healthTracker)) = some [1, 7] := by
    decide +kernel
  have hpick : (Tcp.lookupTarget (fun _ => 0) table "rr" "10.1.1.1:5432"
      ⟨fun _ => 0, fun _ => 0⟩).1.map (·.val.healthTracker) = some 1 := by
    decide +kernel
  obtain ⟨r, hr, htrackers⟩ := Option.map_eq_some_iff.mp hroute
  obtain ⟨t, ht, htracker⟩ := Option.map_eq_some_iff.mp hpick
  have hmem : 7 ∈ r.targets.map (·.val.healthTracker) := by simp [htrackers]
  obtain ⟨u, hu, hother⟩ := List.mem_map.mp hmem
  refine ⟨r, t, u, hr, ht, ?_, hu, ?_⟩
  · simp [ProbeHealthy, htracker, firstUnhealthy, TargetHealthTracker.isProbeHealthy]
  · simp [ProbeHealthy, hother, firstUnhealthy, TargetHealthTracker.isProbeHealthy]

end Examples

end SentirumLb
