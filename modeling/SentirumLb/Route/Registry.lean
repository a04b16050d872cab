import SentirumLb.Route.TargetStats

/-! # The managed route table

The registry keeps the definitions of three sources apart. Every update edits
one section, rebuilds the table from all three and publishes both. Updates are
serialised by a lock, so a run is a list of them; each comes with the targets
that are held outside of the table while it runs.
-/

namespace SentirumLb

structure RouteRegistry (W : Type) where
  staticRoutes : List (RouteDef W)
  kvRoutes : List (RouteDef W)
  serviceRoutes : List (RouteDef W)

variable {W : Type}

namespace RouteRegistry

def new : RouteRegistry W := ⟨[], [], []⟩

def setStatic (r : RouteRegistry W) (routes : List (RouteDef W)) : RouteRegistry W :=
  { r with staticRoutes := routes }

def updateKv (r : RouteRegistry W) (routes : List (RouteDef W)) : RouteRegistry W :=
  { r with kvRoutes := routes }

def updateServices (r : RouteRegistry W) (routes : List (RouteDef W)) : RouteRegistry W :=
  { r with serviceRoutes := routes }

def getAll (r : RouteRegistry W) : List (RouteDef W) :=
  r.staticRoutes ++ r.kvRoutes ++ r.serviceRoutes

def ofSource (r : RouteRegistry W) : RouteSource → List (RouteDef W)
  | .static => r.staticRoutes
  | .consulKv => r.kvRoutes
  | .consulService => r.serviceRoutes

end RouteRegistry

def markSources (defs : List (RouteDef W)) (source : RouteSource) : List (RouteDef W) :=
  defs.map fun d => { d with source := source }

structure ManagedRouteTable (W : Type) where
  registry : RouteRegistry W
  table : Table W
  statsRegistry : TargetStatsRegistry
  cbConfig : Option CircuitBreakerConfig
  heap : Heap

inductive Update (W : Type) where
  | loadStatic (defs : List (RouteDef W))
  | appendStatic (defs : List (RouteDef W))
  | updateKv (defs : List (RouteDef W))
  | updateServices (defs : List (RouteDef W))
  | reconfigureCircuitBreaker (cbConfig : Option CircuitBreakerConfig)

namespace ManagedRouteTable

def new (cbConfig : Option CircuitBreakerConfig) (heap : Heap) : ManagedRouteTable W where
  registry := .new
  table := .new
  statsRegistry := .new
  cbConfig := cbConfig
  heap := heap

variable [Platform] [WeightArith W]

/-- Build the table of a registry and publish both; the old table lives until then. -/
def rebuildAndSwap (held : List (Target W)) (registry : RouteRegistry W)
    (m : ManagedRouteTable W) : ManagedRouteTable W :=
  let b := Table.fromDefinitionsWithStats (held ++ m.table.targets.map (·.val)) m.cbConfig
    m.statsRegistry m.heap registry.getAll
  { m with registry := registry, table := b.table, statsRegistry := b.registry, heap := b.heap }

def loadStatic (held : List (Target W)) (defs : List (RouteDef W)) (m : ManagedRouteTable W) :
    ManagedRouteTable W :=
  m.rebuildAndSwap held (m.registry.setStatic (markSources defs .static))

def appendStatic (held : List (Target W)) (newDefs : List (RouteDef W))
    (m : ManagedRouteTable W) : ManagedRouteTable W :=
  m.rebuildAndSwap held
    (m.registry.setStatic (m.registry.staticRoutes ++ markSources newDefs .static))

def updateKv (held : List (Target W)) (defs : List (RouteDef W)) (m : ManagedRouteTable W) :
    ManagedRouteTable W :=
  m.rebuildAndSwap held (m.registry.updateKv (markSources defs .consulKv))

def updateServices (held : List (Target W)) (defs : List (RouteDef W))
    (m : ManagedRouteTable W) : ManagedRouteTable W :=
  m.rebuildAndSwap held (m.registry.updateServices (markSources defs .consulService))

/-- Trackers are forgotten, so that the rebuilt table makes new ones. -/
def reconfigureCircuitBreaker (held : List (Target W)) (cbConfig : Option CircuitBreakerConfig)
    (m : ManagedRouteTable W) : ManagedRouteTable W :=
  rebuildAndSwap held m.registry
    { m with statsRegistry := m.statsRegistry.clearHealthTrackers, cbConfig := cbConfig }

def perform (m : ManagedRouteTable W) (call : Update W × List (Target W)) :
    ManagedRouteTable W :=
  match call.1 with
  | .loadStatic defs => m.loadStatic call.2 defs
  | .appendStatic defs => m.appendStatic call.2 defs
  | .updateKv defs => m.updateKv call.2 defs
  | .updateServices defs => m.updateServices call.2 defs
  | .reconfigureCircuitBreaker cbConfig => m.reconfigureCircuitBreaker call.2 cbConfig

def built (m : ManagedRouteTable W) : Builder W := ⟨m.statsRegistry, m.heap, m.table⟩

theorem built_perform (m : ManagedRouteTable W) (u : Update W) (held : List (Target W)) :
    ∃ cbConfig reg defs, reg.activeConnections = m.statsRegistry.activeConnections ∧
      (m.perform (u, held)).built = Table.fromDefinitionsWithStats
        (held ++ m.table.targets.map (·.val)) cbConfig reg m.heap defs := by
  cases u with
  | reconfigureCircuitBreaker cbConfig =>
    exact ⟨cbConfig, m.statsRegistry.clearHealthTrackers, _, rfl, rfl⟩
  | _ => exact ⟨m.cbConfig, m.statsRegistry, _, rfl, rfl⟩

def run (m : ManagedRouteTable W) (calls : List (Update W × List (Target W))) :
    ManagedRouteTable W :=
  calls.foldl perform m

end ManagedRouteTable

/-! ## What the sections should hold -/

namespace Update

def isLoadStatic : Update W → Bool
  | .loadStatic _ => true
  | _ => false

def loaded : Update W → Option (List (RouteDef W))
  | .loadStatic defs => some defs
  | _ => none

def appended : Update W → Option (List (RouteDef W))
  | .appendStatic defs => some defs
  | _ => none

def kv : Update W → Option (List (RouteDef W))
  | .updateKv defs => some defs
  | _ => none

def services : Update W → Option (List (RouteDef W))
  | .updateServices defs => some defs
  | _ => none

def writes : Update W → Option RouteSource
  | .loadStatic _ => some .static
  | .appendStatic _ => some .static
  | .updateKv _ => some .consulKv
  | .updateServices _ => some .consulService
  | .reconfigureCircuitBreaker _ => none

end Update

/-- The definitions given by the last replacing update of the section and, for the static section,
by every later append. -/
def sectionSpec (updates : List (Update W)) : RouteSource → List (RouteDef W)
  | .static =>
      ((updates.filterMap Update.loaded).getLast?.getD []) ++
        ((updates.rtakeWhile fun u => !u.isLoadStatic).filterMap Update.appended).flatten
  | .consulKv => (updates.filterMap Update.kv).getLast?.getD []
  | .consulService => (updates.filterMap Update.services).getLast?.getD []

theorem sectionSpec_of_not_writes (us : List (Update W)) {u : Update W} {source : RouteSource}
    (h : u.writes ≠ some source) : sectionSpec (us ++ [u]) source = sectionSpec us source := by
  cases u <;> cases source <;>
    first
    | exact absurd rfl h
    | simp [sectionSpec, Update.loaded, Update.appended, Update.kv, Update.services,
        Update.isLoadStatic]

theorem sectionSpec_loadStatic (us : List (Update W)) (defs : List (RouteDef W)) :
    sectionSpec (us ++ [.loadStatic defs]) .static = defs := by
  simp [sectionSpec, Update.loaded, Update.isLoadStatic]

theorem sectionSpec_appendStatic (us : List (Update W)) (defs : List (RouteDef W)) :
    sectionSpec (us ++ [.appendStatic defs]) .static = sectionSpec us .static ++ defs := by
  simp [sectionSpec, Update.loaded, Update.appended, Update.isLoadStatic]

theorem sectionSpec_updateKv (us : List (Update W)) (defs : List (RouteDef W)) :
    sectionSpec (us ++ [.updateKv defs]) .consulKv = defs := by
  simp [sectionSpec, Update.kv]

theorem sectionSpec_updateServices (us : List (Update W)) (defs : List (RouteDef W)) :
    sectionSpec (us ++ [.updateServices defs]) .consulService = defs := by
  simp [sectionSpec, Update.services]

theorem source_of_mem_markSources {defs : List (RouteDef W)} {source : RouteSource}
    {d : RouteDef W} (h : d ∈ markSources defs source) : d.source = source := by
  obtain ⟨e, -, rfl⟩ := List.mem_map.mp h
  rfl

namespace ManagedRouteTable

variable [Platform] [WeightArith W]

theorem run_concat (m : ManagedRouteTable W) (calls : List (Update W × List (Target W)))
    (call : Update W × List (Target W)) : m.run (calls ++ [call]) = (m.run calls).perform call := by
  simp [run]

theorem ofSource_perform (m : ManagedRouteTable W) (call : Update W × List (Target W))
    {source : RouteSource} (h : call.1.writes ≠ some source) :
    (m.perform call).registry.ofSource source = m.registry.ofSource source := by
  obtain ⟨u, held⟩ := call
  cases u <;> cases source <;> first | rfl | exact absurd rfl h

/-- The sections of the registry hold what the updates gave, marked with their source. -/
theorem ofSource_run (cbConfig : Option CircuitBreakerConfig) (heap : Heap)
    (calls : List (Update W × List (Target W))) (source : RouteSource) :
    ((new cbConfig heap).run calls).registry.ofSource source =
      markSources (sectionSpec (calls.map (·.1)) source) source := by
  induction calls using List.reverseRecOn with
  | nil => cases source <;> rfl
  | append_singleton calls call ih =>
    rw [run_concat, List.map_append, List.map_singleton]
    by_cases hw : call.1.writes = some source
    · obtain ⟨u, held⟩ := call
      cases u with
      | loadStatic defs =>
        cases hw
        rw [sectionSpec_loadStatic]
        rfl
      | appendStatic defs =>
        cases hw
        rw [sectionSpec_appendStatic, markSources, List.map_append, ← markSources, ← ih]
        rfl
      | updateKv defs =>
        cases hw
        rw [sectionSpec_updateKv]
        rfl
      | updateServices defs =>
        cases hw
        rw [sectionSpec_updateServices]
        rfl
      | reconfigureCircuitBreaker cb => cases hw
    · rw [ofSource_perform _ call hw, sectionSpec_of_not_writes _ hw, ih]

/-- The published table was built from all sections of the registry. -/
def Published (m : ManagedRouteTable W) : Prop :=
  ∃ held cbConfig reg heap, m.table =
    (Table.fromDefinitionsWithStats held cbConfig reg heap m.registry.getAll).table

theorem published_perform (m : ManagedRouteTable W) (call : Update W × List (Target W)) :
    (m.perform call).Published := by
  obtain ⟨u, held⟩ := call
  cases u <;> exact ⟨_, _, _, _, rfl⟩

theorem published_run (cbConfig : Option CircuitBreakerConfig) (heap : Heap)
    (calls : List (Update W × List (Target W))) : ((new cbConfig heap).run calls).Published := by
  induction calls using List.reverseRecOn with
  | nil => exact ⟨[], none, .new, heap, rfl⟩
  | append_singleton calls call _ =>
    rw [run_concat]
    exact published_perform _ call

theorem Published.contents_eq {m : ManagedRouteTable W} (h : m.Published) (host path : String) :
    (m.table.contents host path).map Target.eraseRefs = denote m.registry.getAll host path := by
  obtain ⟨held, cbConfig, reg, heap, he⟩ := h
  obtain ⟨t, hreplay, ht⟩ :=
    Table.fromDefinitionsWithStats_replay held cbConfig reg heap m.registry.getAll
  rw [he, ht, hreplay.contents_eq]

theorem Published.wellFormed {m : ManagedRouteTable W} (h : m.Published) :
    m.table.WellFormed := by
  obtain ⟨held, cbConfig, reg, heap, he⟩ := h
  obtain ⟨t, hreplay, ht⟩ :=
    Table.fromDefinitionsWithStats_replay held cbConfig reg heap m.registry.getAll
  rw [he, ht]
  exact hreplay.wellFormed_finalize

theorem Published.healthTracker_eq_of_url_eq {m : ManagedRouteTable W} (h : m.Published)
    {a b : Arc (Target W)} (ha : m.table.HasTarget a) (hb : m.table.HasTarget b)
    (hurl : a.val.url = b.val.url) : a.val.healthTracker = b.val.healthTracker := by
  obtain ⟨held, cbConfig, reg, heap, he⟩ := h
  rw [he] at ha hb
  exact Table.healthTracker_eq_of_url_eq held cbConfig reg heap m.registry.getAll ha hb hurl

def MadeFrom (d : RouteDef W) (t : Target W) : Prop :=
  d.cmd = .add ∧ t.service = d.service ∧ t.url = d.dst ∧ t.tags = d.tags ∧ t.opts = d.opts ∧
    t.source = d.source

theorem madeFrom_of_eq {d : RouteDef W} {t : Target W} {w : W} (hcmd : d.cmd = .add)
    (h : t.unweighted.eraseRefs =
      { (Table.targetOf default d).unweighted with fixedWeight := w }) : MadeFrom d t := by
  have hfields : (t.service, t.url, t.tags, t.opts, t.source) =
      (d.service, d.dst, d.tags, d.opts, d.source) := by
    have hproj := congrArg (fun u : Target W => (u.service, u.url, u.tags, u.opts, u.source)) h
    refine hproj.trans ?_
    unfold Table.targetOf Target.preParse
    dsimp only
    split <;> rfl
  simp only [Prod.mk.injEq] at hfields
  exact ⟨hcmd, hfields⟩

theorem Published.exists_def {m : ManagedRouteTable W} (h : m.Published) {a : Arc (Target W)}
    (ha : m.table.HasTarget a) : ∃ d ∈ m.registry.getAll, d.cmd = .add ∧ ∃ w,
      a.val.unweighted.eraseRefs =
        { (Table.targetOf default d).unweighted with fixedWeight := w } := by
  obtain ⟨host, path, hmem⟩ := Table.mem_contents_of_hasTarget h.wellFormed.toOk ha
  have hden := List.mem_map_of_mem (f := Target.eraseRefs) hmem
  rw [h.contents_eq] at hden
  obtain ⟨d, hd, hcmd, -, -, hw⟩ := Table.mem_denote hden
  exact ⟨d, hd, hcmd, hw⟩

/-- Every target of a published table was made from a definition of the section of its source. -/
theorem Published.madeFrom {m : ManagedRouteTable W} (h : m.Published)
    (hsources : ∀ source, ∀ d ∈ m.registry.ofSource source, d.source = source)
    {a : Arc (Target W)} (ha : m.table.HasTarget a) :
    ∃ d ∈ m.registry.ofSource a.val.source, MadeFrom d a.val := by
  obtain ⟨d, hd, hcmd, w, heq⟩ := h.exists_def ha
  have hmade := madeFrom_of_eq hcmd heq
  have hsection : ∃ source, d ∈ m.registry.ofSource source := by
    unfold RouteRegistry.getAll at hd
    rcases List.mem_append.mp hd with hd | hd
    · rcases List.mem_append.mp hd with hd | hd
      · exact ⟨.static, hd⟩
      · exact ⟨.consulKv, hd⟩
    · exact ⟨.consulService, hd⟩
  obtain ⟨source, hd⟩ := hsection
  have hsource : a.val.source = source := hmade.2.2.2.2.2.trans (hsources source d hd)
  exact ⟨d, hsource ▸ hd, hmade⟩

/-- After any updates, the published table is the one built from the sections of the registry, each
section holds what was last given for it, an update changes no other section, and every target
has the source of the section that its definition is in. -/
theorem published_registry_run (cbConfig : Option CircuitBreakerConfig) (heap : Heap)
    (calls : List (Update W × List (Target W))) :
    let m := (new cbConfig heap).run calls
    (∃ held cb reg h, m.table =
        (Table.fromDefinitionsWithStats held cb reg h m.registry.getAll).table) ∧
      (∀ host path, (m.table.contents host path).map Target.eraseRefs =
        denote (m.registry.staticRoutes ++ m.registry.kvRoutes ++ m.registry.serviceRoutes)
          host path) ∧
      (∀ source, m.registry.ofSource source =
        markSources (sectionSpec (calls.map (·.1)) source) source) ∧
      (∀ call source, call.1.writes ≠ some source →
        (m.perform call).registry.ofSource source = m.registry.ofSource source) ∧
      (∀ a, m.table.HasTarget a → ∃ d ∈ m.registry.ofSource a.val.source,
        d.source = a.val.source ∧ MadeFrom d a.val) := by
  intro m
  have hpublished : m.Published := published_run cbConfig heap calls
  have hsources : ∀ source, ∀ d ∈ m.registry.ofSource source, d.source = source := by
    intro source d hd
    rw [ofSource_run cbConfig heap calls source] at hd
    exact source_of_mem_markSources hd
  refine ⟨hpublished, ?_, ofSource_run cbConfig heap calls, ?_, ?_⟩
  · exact hpublished.contents_eq
  · intro call source hw
    exact ofSource_perform m call hw
  · intro a ha
    obtain ⟨d, hd, hmade⟩ := hpublished.madeFrom hsources ha
    exact ⟨d, hd, hsources _ d hd, hmade⟩

end ManagedRouteTable

end SentirumLb
