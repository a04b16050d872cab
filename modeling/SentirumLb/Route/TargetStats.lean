import SentirumLb.Lib.WeakMap
import SentirumLb.Breaker.Basic
import SentirumLb.Route.Contents

/-! # Shared objects of targets

Targets with one URL share a connection counter, a health tracker and
statistics, also across rebuilds of the table. The registry finds the object of
a key through weak references, so an object is shared for as long as some
target holds it. A table is built against the registry and the heap; the
targets that are held elsewhere during the build are an argument.
-/

namespace SentirumLb

structure TargetHealthTracker where
  circuitBreaker : CircuitBreaker
  isHealthy : Bool
  consecutiveFailures : ℕ
  consecutiveSuccesses : ℕ

namespace TargetHealthTracker

def withConfig (config : CircuitBreakerConfig) : TargetHealthTracker where
  circuitBreaker := CircuitBreaker.withConfig config
  isHealthy := true
  consecutiveFailures := 0
  consecutiveSuccesses := 0

def new (cbConfig : Option CircuitBreakerConfig) : TargetHealthTracker :=
  withConfig (cbConfig.getD {})

def isProbeHealthy (h : TargetHealthTracker) : Bool := h.isHealthy

def recordHealthCheckSuccess (rise : ℕ) (h : TargetHealthTracker) : TargetHealthTracker :=
  if h.isHealthy then { h with consecutiveFailures := 0 }
  else
    { h with
      consecutiveFailures := 0
      consecutiveSuccesses := h.consecutiveSuccesses + 1
      isHealthy := decide (rise ≤ h.consecutiveSuccesses + 1) }

def recordHealthCheckFailure (fall : ℕ) (h : TargetHealthTracker) : TargetHealthTracker :=
  if !h.isHealthy then { h with consecutiveSuccesses := 0 }
  else
    { h with
      consecutiveSuccesses := 0
      consecutiveFailures := h.consecutiveFailures + 1
      isHealthy := !decide (fall ≤ h.consecutiveFailures + 1) }

end TargetHealthTracker

structure Heap where
  next : Ref
  counters : Ref → ℕ
  trackers : Ref → TargetHealthTracker

def Heap.empty : Heap := ⟨0, fun _ => 0, fun _ => .new none⟩

structure TargetStatsRegistry where
  activeConnections : AssocMap String Ref
  stats : AssocMap String Ref
  edgeStats : AssocMap String Ref
  healthTrackers : AssocMap String Ref
  rateLimiters : AssocMap String Ref

def registryPruneThreshold : ℕ := 512

variable {W : Type}

/-- The object of a key in one of the maps, which is alive when a live target holds it. -/
def objectFor (field : SharedRefs → Ref) (live : List (Target W)) (key : String) (new : Ref)
    (entries : AssocMap String Ref) : Ref × AssocMap String Ref :=
  WeakMap.getOrCreate (fun r => live.any fun t => field t.toSharedRefs == r)
    registryPruneThreshold key new entries

namespace TargetStatsRegistry

def new : TargetStatsRegistry := ⟨∅, ∅, ∅, ∅, ∅⟩

variable (live : List (Target W)) (key : String) (fresh : Ref) (reg : TargetStatsRegistry)

def activeConnectionsFor : Ref × TargetStatsRegistry :=
  let (r, m) := objectFor (·.activeConnections) live key fresh reg.activeConnections
  (r, { reg with activeConnections := m })

def statsFor : Ref × TargetStatsRegistry :=
  let (r, m) := objectFor (·.stats) live key fresh reg.stats
  (r, { reg with stats := m })

def edgeStatsFor : Ref × TargetStatsRegistry :=
  let (r, m) := objectFor (·.edgeStats) live key fresh reg.edgeStats
  (r, { reg with edgeStats := m })

def healthTrackerFor : Ref × TargetStatsRegistry :=
  let (r, m) := objectFor (·.healthTracker) live key fresh reg.healthTrackers
  (r, { reg with healthTrackers := m })

def rateLimiterFor : Ref × TargetStatsRegistry :=
  let (r, m) := objectFor (·.rateLimiter) live key fresh reg.rateLimiters
  (r, { reg with rateLimiters := m })

def clearHealthTrackers (reg : TargetStatsRegistry) : TargetStatsRegistry :=
  { reg with healthTrackers := ∅ }

end TargetStatsRegistry

def RouteDef.edgeStatsKey (d : RouteDef W) : String :=
  d.host ++ "\x1f" ++ d.path ++ "\x1f" ++ d.service ++ "\x1f" ++ d.dst

structure Builder (W : Type) where
  registry : TargetStatsRegistry
  heap : Heap
  table : Table W

namespace Builder

/-- The targets that hold objects: those held elsewhere and those of the table. -/
def live (held : List (Target W)) (b : Builder W) : List (Target W) :=
  held ++ b.table.targets.map (·.val)

variable [Platform] [WeightArith W]

/-- `apply_add` against the registry. Six references are set aside, for five objects that may have
to be made and for the counter of a new route. -/
def add (held : List (Target W)) (cbConfig : Option CircuitBreakerConfig) (d : RouteDef W)
    (b : Builder W) : Builder W :=
  let live := b.live held
  let n := b.heap.next
  let (activeConnections, reg) := b.registry.activeConnectionsFor live d.dst n
  let (healthTracker, reg) := reg.healthTrackerFor live d.dst (n + 1)
  let (stats, reg) := reg.statsFor live d.dst (n + 2)
  let (edgeStats, reg) := reg.edgeStatsFor live d.edgeStatsKey (n + 3)
  let (rateLimiter, reg) :=
    reg.rateLimiterFor live (Target.rateLimiterRegistryKey d.dst d.opts) (n + 4)
  { registry := reg
    heap :=
      { next := n + 6
        counters := Function.update b.heap.counters n 0
        trackers := Function.update b.heap.trackers (n + 1) (.new cbConfig) }
    table := b.table.apply ⟨activeConnections, healthTracker, stats, edgeStats, rateLimiter⟩
      (n + 5) d }

def apply (held : List (Target W)) (cbConfig : Option CircuitBreakerConfig) (b : Builder W)
    (d : RouteDef W) : Builder W :=
  if d.cmd = .add then b.add held cbConfig d
  else { b with table := b.table.apply default 0 d }

end Builder

def Table.fromDefinitionsWithStats [Platform] [WeightArith W] (held : List (Target W))
    (cbConfig : Option CircuitBreakerConfig) (reg : TargetStatsRegistry) (heap : Heap)
    (defs : List (RouteDef W)) : Builder W :=
  let b := defs.foldl (Builder.apply held cbConfig) ⟨reg, heap, Table.new⟩
  { b with table := b.table.finalize }

/-! ## Sharing -/

/-- The map knows the objects of the targets. -/
def Shares (field : SharedRefs → Ref) (m : AssocMap String Ref) (ts : List (Target W)) : Prop :=
  ∀ t ∈ ts, m.lookup t.url = some (field t.toSharedRefs)

/-- The object of a live target is found, and every live target keeps its object. -/
theorem Shares.objectFor {field : SharedRefs → Ref} {m : AssocMap String Ref}
    {ts live : List (Target W)} {key : String} {new : Ref} (h : Shares field m ts)
    (hsub : ts ⊆ live) : Shares field (objectFor field live key new m).2 ts := by
  intro t ht
  apply WeakMap.lookup_getOrCreate_of_live (h t ht)
  rw [List.any_eq_true]
  exact ⟨t, hsub ht, by simp⟩

theorem lookup_objectFor (field : SharedRefs → Ref) (live : List (Target W)) (key : String)
    (new : Ref) (m : AssocMap String Ref) :
    (objectFor field live key new m).2.lookup key = some (objectFor field live key new m).1 :=
  WeakMap.lookup_getOrCreate_self

namespace Builder

variable [Platform] [WeightArith W] {held : List (Target W)}
  {cbConfig : Option CircuitBreakerConfig} {b : Builder W} {d : RouteDef W}

theorem replay_foldl_apply (held : List (Target W)) (cbConfig : Option CircuitBreakerConfig)
    (defs : List (RouteDef W)) (b : Builder W) :
    Table.Replay b.table defs (defs.foldl (apply held cbConfig) b).table := by
  induction defs generalizing b with
  | nil => exact .nil _
  | cons d ds ih =>
    by_cases h : d.cmd = .add
    · have hadd : (b.apply held cbConfig d).table = (b.add held cbConfig d).table := by
        simp [apply, h]
      exact .cons _ _ (hadd ▸ ih (b.apply held cbConfig d))
    · have hother : (b.apply held cbConfig d).table = b.table.apply default 0 d := by
        simp [apply, h]
      exact .cons default 0 (hother ▸ ih (b.apply held cbConfig d))

theorem shares_apply {field : SharedRefs → Ref} {m : AssocMap String Ref} {t : Table W}
    (others : List (Target W)) {shared : SharedRefs} {rr : Ref} (hok : t.Ok)
    (h : Shares field m (others ++ t.targets.map (·.val)))
    (hnew : d.cmd = .add → m.lookup d.dst = some (field shared)) :
    Shares field m (others ++ (t.apply shared rr d).targets.map (·.val)) := by
  intro u hu
  rcases List.mem_append.mp hu with hu | hu
  · exact h u (List.mem_append_left _ hu)
  · obtain ⟨a, ha, rfl⟩ := List.mem_map.mp hu
    rcases Table.hasTarget_apply hok (Table.mem_targets_iff.mp ha) with
      ⟨c, hc, hurl, hrefs⟩ | ⟨hcmd, hurl, hrefs⟩
    · rw [hurl, hrefs]
      exact h c.val (List.mem_append_right _ (List.mem_map_of_mem (Table.mem_targets_iff.mpr hc)))
    · rw [hurl, hrefs]
      exact hnew hcmd

structure TrackerSharing (b : Builder W) : Prop where
  ok : b.table.Ok
  shares : Shares (·.healthTracker) b.registry.healthTrackers (b.table.targets.map (·.val))

/-- The live targets share their counters by URL, and counters are numbered. -/
structure CounterSharing (held : List (Target W)) (b : Builder W) : Prop where
  ok : b.table.Ok
  shares : Shares (·.activeConnections) b.registry.activeConnections (b.live held)
  numbered : WeakMap.Numbered b.heap.next b.registry.activeConnections

theorem trackerSharing_apply (h : TrackerSharing b) : TrackerSharing (b.apply held cbConfig d) := by
  unfold apply
  split
  · have htable : b.table.targets.map (·.val) ⊆ b.live held := List.subset_append_right _ _
    refine ⟨Table.ok_apply _ _ d h.ok, ?_⟩
    exact shares_apply [] h.ok (h.shares.objectFor htable) fun _ => lookup_objectFor _ _ _ _ _
  · next hcmd =>
    refine ⟨Table.ok_apply _ _ d h.ok, ?_⟩
    exact shares_apply [] h.ok h.shares fun hadd => absurd hadd hcmd

theorem counterSharing_apply (h : CounterSharing held b) :
    CounterSharing held (b.apply held cbConfig d) := by
  unfold apply
  split
  · refine ⟨Table.ok_apply _ _ d h.ok, ?_, ?_⟩
    · exact shares_apply held h.ok (h.shares.objectFor (List.Subset.refl _))
        fun _ => lookup_objectFor _ _ _ _ _
    · exact h.numbered.getOrCreate le_rfl (by simp [add])
  · next hcmd =>
    refine ⟨Table.ok_apply _ _ d h.ok, ?_, h.numbered⟩
    exact shares_apply held h.ok h.shares fun hadd => absurd hadd hcmd

/-- The counters that the registry knows have the values, by URL. -/
def Counted (values : String → ℕ) (b : Builder W) : Prop :=
  ∀ url r, b.registry.activeConnections.lookup url = some r → b.heap.counters r = values url

/-- A new counter starts at zero. The URL had no live target, so this is its value if only URLs of
live targets have others. -/
theorem counted_apply {values : String → ℕ} (h : CounterSharing held b)
    (hlive : ∀ url, values url ≠ 0 → ∃ t ∈ held, t.url = url) (hc : b.Counted values) :
    (b.apply held cbConfig d).Counted values := by
  unfold apply
  split
  · intro url r hr
    have hold : ∀ k q, b.registry.activeConnections.lookup k = some q → q ≠ b.heap.next :=
      fun k q hq => (h.numbered.lt k q hq).ne
    change Function.update b.heap.counters b.heap.next 0 r = values url
    rcases WeakMap.lookup_getOrCreate_cases hr with hbefore | ⟨rfl, rfl⟩
    · rw [Function.update_of_ne (hold url r hbefore)]
      exact hc url r hbefore
    · rw [Function.update_self]
      by_contra hne
      obtain ⟨t, ht, hurl⟩ := hlive _ (Ne.symm hne)
      have hmem : t ∈ b.live held := List.mem_append_left _ ht
      have hkept : (b.add held cbConfig d).registry.activeConnections.lookup t.url =
          some t.activeConnections := h.shares.objectFor (List.Subset.refl _) t hmem
      rw [hurl, hr, Option.some.injEq] at hkept
      exact hold t.url t.activeConnections (h.shares t hmem) hkept.symm
  · exact hc

theorem foldl_apply_invariant {I : Builder W → Prop}
    (hstep : ∀ b d, I b → I (b.apply held cbConfig d)) (defs : List (RouteDef W)) (h : I b) :
    I (defs.foldl (apply held cbConfig) b) := by
  induction defs generalizing b with
  | nil => exact h
  | cons d ds ih => exact ih (hstep b d h)

end Builder

namespace Table

variable [Platform] [WeightArith W] (held : List (Target W))
  (cbConfig : Option CircuitBreakerConfig) (reg : TargetStatsRegistry) (heap : Heap)
  (defs : List (RouteDef W))

/-- A table built against the registry is a finalized replay of the definitions. -/
theorem fromDefinitionsWithStats_replay :
    ∃ t, Replay new defs t ∧
      (fromDefinitionsWithStats held cbConfig reg heap defs).table = t.finalize :=
  ⟨_, Builder.replay_foldl_apply held cbConfig defs ⟨reg, heap, new⟩, rfl⟩

theorem counterSharing_fromDefinitionsWithStats {values : String → ℕ}
    (hshares : Shares (·.activeConnections) reg.activeConnections held)
    (hnumbered : WeakMap.Numbered heap.next reg.activeConnections)
    (hlive : ∀ url, values url ≠ 0 → ∃ t ∈ held, t.url = url)
    (hcounted : ∀ url r, reg.activeConnections.lookup url = some r →
      heap.counters r = values url) :
    Builder.CounterSharing held (fromDefinitionsWithStats held cbConfig reg heap defs) ∧
      (fromDefinitionsWithStats held cbConfig reg heap defs).Counted values := by
  have hinit : Builder.CounterSharing held (⟨reg, heap, new⟩ : Builder W) := by
    refine ⟨ok_new, ?_, hnumbered⟩
    intro t ht
    rcases List.mem_append.mp ht with ht | ht
    · exact hshares t ht
    · simp [new, targets, AssocMap.vals] at ht
  have hstep : ∀ b d, Builder.CounterSharing held b ∧ Builder.Counted values b →
      Builder.CounterSharing held (b.apply held cbConfig d) ∧
        (b.apply held cbConfig d).Counted values := by
    rintro b d ⟨h, hc⟩
    exact ⟨Builder.counterSharing_apply h, Builder.counted_apply h hlive hc⟩
  obtain ⟨hbuilt, hvalues⟩ := Builder.foldl_apply_invariant
    (I := fun b => Builder.CounterSharing held b ∧ b.Counted values) hstep defs ⟨hinit, hcounted⟩
  refine ⟨⟨ok_finalize hbuilt.ok, ?_, hbuilt.numbered⟩, hvalues⟩
  intro t ht
  apply hbuilt.shares
  rcases List.mem_append.mp ht with ht | ht
  · exact List.mem_append_left _ ht
  · obtain ⟨a, ha, rfl⟩ := List.mem_map.mp ht
    have hmem := hasTarget_finalize.mp (mem_targets_iff.mp ha)
    exact List.mem_append_right _ (List.mem_map_of_mem (mem_targets_iff.mpr hmem))

/-- Two targets of a built table with one URL have one health tracker. -/
theorem healthTracker_eq_of_url_eq {a b : Arc (Target W)}
    (ha : (fromDefinitionsWithStats held cbConfig reg heap defs).table.HasTarget a)
    (hb : (fromDefinitionsWithStats held cbConfig reg heap defs).table.HasTarget b)
    (hurl : a.val.url = b.val.url) : a.val.healthTracker = b.val.healthTracker := by
  have hinit : Builder.TrackerSharing (⟨reg, heap, new⟩ : Builder W) := by
    refine ⟨ok_new, ?_⟩
    intro t ht
    simp [new, targets, AssocMap.vals] at ht
  have hbuilt : Builder.TrackerSharing
      (defs.foldl (Builder.apply held cbConfig) ⟨reg, heap, new⟩) :=
    Builder.foldl_apply_invariant (fun _ _ h => Builder.trackerSharing_apply h) defs hinit
  have hshares := hbuilt.shares
  have hmem : ∀ c, (fromDefinitionsWithStats held cbConfig reg heap defs).table.HasTarget c →
      c.val ∈ ((defs.foldl (Builder.apply held cbConfig) ⟨reg, heap, new⟩).table.targets.map
        (·.val)) := by
    intro c hc
    exact List.mem_map_of_mem (mem_targets_iff.mpr (hasTarget_finalize.mp hc))
  have hl := hshares a.val (hmem a ha)
  rw [hurl, hshares b.val (hmem b hb)] at hl
  exact (Option.some.inj hl).symm

end Table

end SentirumLb
