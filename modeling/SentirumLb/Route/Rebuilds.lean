import SentirumLb.Breaker.Representation
import SentirumLb.Route.Registry

/-! # Rebuilds while requests are served

An update builds its table one definition at a time and then publishes it.
Meanwhile requests take targets and snapshots of the published table and let go
of those they hold, and traffic drives the breakers. Only the update lock keeps
updates apart. A shared object lives for as long as some target that is held,
published or under construction refers to it; what is let go in the middle of a
build may die there.
-/

namespace SentirumLb

variable {W : Type}

/-- An update in progress: what it will publish, and the definitions that it has yet to apply. -/
structure Rebuild (W : Type) where
  registry : RouteRegistry W
  table : Table W
  defs : List (RouteDef W)

structure Serving (W : Type) where
  managed : ManagedRouteTable W
  held : List (List (Target W))
  rebuild : Option (Rebuild W)

inductive ServingLabel (W : Type) where
  | start (u : Update W)
  | define
  | publish
  | snapshot
  | take (i : ℕ)
  | drop (i : ℕ)
  | traffic (tracker : Ref) (nowMs : ℕ) (o : CircuitBreaker.Operation)

def Update.edit (u : Update W) (r : RouteRegistry W) : RouteRegistry W :=
  match u with
  | .loadStatic defs => r.setStatic (markSources defs .static)
  | .appendStatic defs => r.setStatic (r.staticRoutes ++ markSources defs .static)
  | .updateKv defs => r.updateKv (markSources defs .consulKv)
  | .updateServices defs => r.updateServices (markSources defs .consulService)
  | .reconfigureCircuitBreaker _ => r

def Update.prepare (u : Update W) (m : ManagedRouteTable W) : ManagedRouteTable W :=
  match u with
  | .reconfigureCircuitBreaker cbConfig =>
      { m with statsRegistry := m.statsRegistry.clearHealthTrackers, cbConfig := cbConfig }
  | _ => m

namespace ManagedRouteTable

def published (m : ManagedRouteTable W) : List (Target W) := m.table.targets.map (·.val)

def operate (m : ManagedRouteTable W) (tracker : Ref) (nowMs : ℕ)
    (o : CircuitBreaker.Operation) : ManagedRouteTable W :=
  let t := m.heap.trackers tracker
  let b := (o.prog.exec ⟨t.circuitBreaker, nowMs⟩).2.toCircuitBreaker
  { m with heap := { m.heap with
      trackers := Function.update m.heap.trackers tracker { t with circuitBreaker := b } } }

end ManagedRouteTable

namespace Serving

def new (cbConfig : Option CircuitBreakerConfig) (heap : Heap) : Serving W where
  managed := .new cbConfig heap
  held := []
  rebuild := none

def others (s : Serving W) : List (Target W) := s.held.flatten ++ s.managed.published

def building (s : Serving W) : List (Target W) :=
  match s.rebuild with
  | some rb => rb.table.targets.map (·.val)
  | none => []

/-- The targets that are alive. -/
def live (s : Serving W) : List (Target W) := s.others ++ s.building

variable [Platform] [WeightArith W]

def defineOne (s : Serving W) (rb : Rebuild W) (d : RouteDef W) : Builder W :=
  Builder.apply s.others s.managed.cbConfig ⟨s.managed.statsRegistry, s.managed.heap, rb.table⟩ d

def step (s : Serving W) : ServingLabel W → Option (Serving W)
  | .start u =>
      if s.rebuild.isNone then
        let registry := u.edit s.managed.registry
        some { s with
          managed := u.prepare s.managed
          rebuild := some ⟨registry, Table.new, registry.getAll⟩ }
      else none
  | .define =>
      match s.rebuild with
      | some ⟨registry, table, d :: ds⟩ =>
          let b := s.defineOne ⟨registry, table, d :: ds⟩ d
          some { s with
            managed := { s.managed with statsRegistry := b.registry, heap := b.heap }
            rebuild := some ⟨registry, b.table, ds⟩ }
      | _ => none
  | .publish =>
      match s.rebuild with
      | some ⟨registry, table, []⟩ =>
          some { s with
            managed := { s.managed with registry := registry, table := table.finalize }
            rebuild := none }
      | _ => none
  | .snapshot => some { s with held := s.held ++ [s.managed.published] }
  | .take i => s.managed.published[i]?.map fun t => { s with held := s.held ++ [[t]] }
  | .drop i => some { s with held := s.held.eraseIdx i }
  | .traffic tracker nowMs o => some { s with managed := s.managed.operate tracker nowMs o }

inductive Step (s : Serving W) : Serving W → Prop where
  | start (u : Update W) (h : s.rebuild = none) : Step s { s with
      managed := u.prepare s.managed
      rebuild := some ⟨u.edit s.managed.registry, Table.new, (u.edit s.managed.registry).getAll⟩ }
  | define (registry : RouteRegistry W) (table : Table W) (d : RouteDef W)
      (ds : List (RouteDef W)) (h : s.rebuild = some ⟨registry, table, d :: ds⟩) : Step s { s with
        managed := { s.managed with
          statsRegistry := (s.defineOne ⟨registry, table, d :: ds⟩ d).registry
          heap := (s.defineOne ⟨registry, table, d :: ds⟩ d).heap }
        rebuild := some ⟨registry, (s.defineOne ⟨registry, table, d :: ds⟩ d).table, ds⟩ }
  | publish (registry : RouteRegistry W) (table : Table W)
      (h : s.rebuild = some ⟨registry, table, []⟩) : Step s { s with
        managed := { s.managed with registry := registry, table := table.finalize }
        rebuild := none }
  | hold (held : List (List (Target W))) (h : held.flatten ⊆ s.others) : Step s { s with held }
  | traffic (tracker : Ref) (nowMs : ℕ) (o : CircuitBreaker.Operation) : Step s { s with
      managed := s.managed.operate tracker nowMs o }

theorem step_cases {s s' : Serving W} {e : ServingLabel W} (h : s.step e = some s') :
    Step s s' := by
  cases e with
  | start u =>
    simp only [step] at h
    split at h
    · next hr =>
      cases h
      exact .start u (Option.isNone_iff_eq_none.mp hr)
    · cases h
  | define =>
    simp only [step] at h
    split at h
    · next registry table d ds hr =>
      cases h
      exact .define registry table d ds hr
    · cases h
  | publish =>
    simp only [step] at h
    split at h
    · next registry table hr =>
      cases h
      exact .publish registry table hr
    · cases h
  | snapshot =>
    cases h
    refine .hold _ ?_
    simp [others]
  | take i =>
    obtain ⟨t, ht, rfl⟩ := Option.map_eq_some_iff.mp h
    refine .hold _ ?_
    simp [others, List.mem_of_getElem? ht]
  | drop i =>
    cases h
    refine .hold _ ?_
    intro t ht
    obtain ⟨l, hl, htl⟩ := List.mem_flatten.mp ht
    exact List.mem_append_left _ (List.mem_flatten.mpr ⟨l, List.mem_of_mem_eraseIdx hl, htl⟩)
  | traffic tracker nowMs o =>
    cases h
    exact .traffic tracker nowMs o

theorem run_define (m : ManagedRouteTable W) (held : List (List (Target W)))
    (registry : RouteRegistry W) (table : Table W) (ds : List (RouteDef W)) :
    Runs.run step ⟨m, held, some ⟨registry, table, ds⟩⟩ (List.replicate ds.length .define) =
      let b := ds.foldl (Builder.apply (held.flatten ++ m.published) m.cbConfig)
        ⟨m.statsRegistry, m.heap, table⟩
      some ⟨{ m with statsRegistry := b.registry, heap := b.heap }, held,
        some ⟨registry, b.table, []⟩⟩ := by
  induction ds generalizing m table with
  | nil => rfl
  | cons d ds ih =>
    rw [List.length_cons, List.replicate_succ, Runs.run_cons]
    exact ih _ _

theorem run_update (m : ManagedRouteTable W) (held : List (List (Target W))) (u : Update W) :
    Runs.run step ⟨m, held, none⟩ (.start u ::
        (List.replicate (u.edit m.registry).getAll.length .define ++ [.publish])) =
      some ⟨m.perform (u, held.flatten), held, none⟩ := by
  have hstart : step ⟨m, held, none⟩ (.start u) = some ⟨u.prepare m, held,
      some ⟨u.edit m.registry, Table.new, (u.edit m.registry).getAll⟩⟩ := rfl
  have hdefine := run_define (u.prepare m) held (u.edit m.registry) Table.new
    (u.edit m.registry).getAll
  rw [Runs.run_cons, hstart, Option.bind_some, Runs.run_append, hdefine]
  cases u <;> rfl

end Serving

/-! ## Objects by URL -/

/-- One kind of shared object that the registry keeps by the URL of the target. -/
structure UrlObject (W : Type) [Platform] [WeightArith W] where
  field : SharedRefs → Ref
  entries : TargetStatsRegistry → AssocMap String Ref
  /-- Which of the references set aside for a definition is for this kind. -/
  offset : ℕ
  offset_lt : offset < 6
  entries_add : ∀ (held : List (Target W)) cbConfig d (b : Builder W),
    entries (b.add held cbConfig d).registry =
      (objectFor field (b.live held) d.dst (b.heap.next + offset) (entries b.registry)).2
  table_add : ∀ (held : List (Target W)) cbConfig d (b : Builder W),
    ∃ shared, (b.add held cbConfig d).table = b.table.apply shared (b.heap.next + 5) d ∧
      field shared =
        (objectFor field (b.live held) d.dst (b.heap.next + offset) (entries b.registry)).1

namespace UrlObject

variable [Platform] [WeightArith W]

def activeConnections : UrlObject W where
  field := (·.activeConnections)
  entries := (·.activeConnections)
  offset := 0
  offset_lt := by decide
  entries_add _ _ _ _ := rfl
  table_add _ _ _ _ := ⟨_, rfl, rfl⟩

def stats : UrlObject W where
  field := (·.stats)
  entries := (·.stats)
  offset := 2
  offset_lt := by decide
  entries_add _ _ _ _ := rfl
  table_add _ _ _ _ := ⟨_, rfl, rfl⟩

def healthTracker : UrlObject W where
  field := (·.healthTracker)
  entries := (·.healthTrackers)
  offset := 1
  offset_lt := by decide
  entries_add _ _ _ _ := rfl
  table_add _ _ _ _ := ⟨_, rfl, rfl⟩

variable (o : UrlObject W) {held sub : List (Target W)} {cbConfig : Option CircuitBreakerConfig}
  {b : Builder W} {d : RouteDef W}

/-- A definition keeps the sharing among live targets, and gives the new target its share. -/
theorem shares_apply (hok : b.table.Ok) (hsub : sub ⊆ held)
    (h : Shares o.field (o.entries b.registry) (sub ++ b.table.targets.map (·.val))) :
    Shares o.field (o.entries (b.apply held cbConfig d).registry)
      (sub ++ (b.apply held cbConfig d).table.targets.map (·.val)) := by
  unfold Builder.apply
  split
  · have hlive : sub ++ b.table.targets.map (·.val) ⊆ b.live held :=
      List.append_subset.mpr ⟨List.Subset.trans hsub (List.subset_append_left _ _),
        List.subset_append_right _ _⟩
    obtain ⟨shared, htable, hfield⟩ := o.table_add held cbConfig d b
    rw [o.entries_add, htable]
    exact Builder.shares_apply sub hok (h.objectFor hlive)
      fun _ => (lookup_objectFor _ _ _ _ _).trans (congrArg some hfield.symm)
  · next hcmd => exact Builder.shares_apply sub hok h fun hadd => absurd hadd hcmd

theorem numbered_apply (h : WeakMap.Numbered b.heap.next (o.entries b.registry)) :
    WeakMap.Numbered (b.apply held cbConfig d).heap.next
      (o.entries (b.apply held cbConfig d).registry) := by
  unfold Builder.apply
  split
  · rw [o.entries_add]
    have hlt := o.offset_lt
    exact h.getOrCreate (Nat.le_add_right _ _) (Nat.add_lt_add_left hlt _)
  · exact h

end UrlObject

theorem Shares.subset {field : SharedRefs → Ref} {m : AssocMap String Ref}
    {ts us : List (Target W)} (h : Shares field m ts) (hsub : us ⊆ ts) : Shares field m us :=
  fun t ht => h t (hsub ht)

namespace Serving

variable {s s' : Serving W}

theorem map_targets_finalize_subset (t : Table W) :
    t.finalize.targets.map (·.val) ⊆ t.targets.map (·.val) := by
  intro u hu
  obtain ⟨a, ha, rfl⟩ := List.mem_map.mp hu
  have hmem := Table.hasTarget_finalize.mp (Table.mem_targets_iff.mp ha)
  exact List.mem_map_of_mem (Table.mem_targets_iff.mpr hmem)

theorem live_eq_of_rebuild {rb : Rebuild W} (h : s.rebuild = some rb) :
    s.live = s.others ++ rb.table.targets.map (·.val) := by
  rw [live, building, h]

/-! A step leaves no target alive that was not so before, but for the one that it makes. -/

theorem live_start_subset (u : Update W) (registry : RouteRegistry W) (defs : List (RouteDef W)) :
    live { s with managed := u.prepare s.managed, rebuild := some ⟨registry, Table.new, defs⟩ } ⊆
      s.live := by
  have hnew : (Table.new : Table W).targets.map (·.val) = [] := by
    simp [Table.new, Table.targets, AssocMap.vals]
  have hsame : (u.prepare s.managed).published = s.managed.published := by cases u <;> rfl
  intro t ht
  rw [live_eq_of_rebuild rfl, hnew, List.append_nil, others, hsame] at ht
  exact List.mem_append_left _ ht

theorem live_publish_subset {rb : Rebuild W} (h : s.rebuild = some rb)
    (registry : RouteRegistry W) :
    live { s with
      managed := { s.managed with registry := registry, table := rb.table.finalize }
      rebuild := none } ⊆ s.live := by
  rw [live_eq_of_rebuild h]
  intro t ht
  simp only [live, others, building, List.append_nil, List.mem_append] at ht ⊢
  rcases ht with ht | ht
  · exact Or.inl (Or.inl ht)
  · exact Or.inr (map_targets_finalize_subset rb.table ht)

theorem live_hold_subset {held : List (List (Target W))} (h : held.flatten ⊆ s.others) :
    live { s with held } ⊆ s.live := by
  intro t ht
  simp only [live, others, building, List.mem_append] at ht ⊢
  rcases ht with (ht | ht) | ht
  · exact Or.inl (List.mem_append.mp (h ht))
  · exact Or.inl (Or.inr ht)
  · exact Or.inr ht

variable [Platform]

structure Ok (s : Serving W) : Prop where
  table : s.managed.table.Ok
  rebuild : ∀ rb, s.rebuild = some rb → rb.table.Ok

theorem ok_new (cbConfig : Option CircuitBreakerConfig) (heap : Heap) :
    (new cbConfig heap : Serving W).Ok :=
  ⟨Table.ok_new, fun _ h => by cases h⟩

variable [WeightArith W]

theorem ok_apply {held : List (Target W)} {cbConfig : Option CircuitBreakerConfig}
    {b : Builder W} {d : RouteDef W} (h : b.table.Ok) : (b.apply held cbConfig d).table.Ok := by
  unfold Builder.apply
  split
  · exact Table.ok_apply _ _ d h
  · exact Table.ok_apply _ _ d h

theorem Ok.step (h : s.Ok) (hs : Step s s') : s'.Ok := by
  cases hs with
  | start u hnone =>
    constructor
    · cases u <;> exact h.table
    · rintro rb ⟨⟩
      exact Table.ok_new
  | define registry table d ds hsome =>
    refine ⟨h.table, ?_⟩
    rintro rb ⟨⟩
    exact ok_apply (h.rebuild _ hsome)
  | publish registry table hsome =>
    refine ⟨Table.ok_finalize (h.rebuild _ hsome), ?_⟩
    rintro rb ⟨⟩
  | hold held hsub => exact ⟨h.table, h.rebuild⟩
  | traffic tracker nowMs o => exact ⟨h.table, h.rebuild⟩

/-! ## Counters and statistics -/

/-- The live targets share the objects by URL, and no two URLs share one. -/
structure Shared (o : UrlObject W) (s : Serving W) : Prop where
  ok : s.Ok
  shares : Shares o.field (o.entries s.managed.statsRegistry) s.live
  numbered : WeakMap.Numbered s.managed.heap.next (o.entries s.managed.statsRegistry)

variable {o : UrlObject W}

theorem shared_new (cbConfig : Option CircuitBreakerConfig) (heap : Heap)
    (hempty : o.entries .new = ∅) : Shared o (new cbConfig heap) := by
  refine ⟨ok_new cbConfig heap, ?_, ?_⟩
  · intro t ht
    simp [live, others, building, new, ManagedRouteTable.new, ManagedRouteTable.published,
      Table.new, Table.targets, AssocMap.vals] at ht
  · change WeakMap.Numbered heap.next (o.entries .new)
    rw [hempty]
    exact .empty _

theorem Shared.step (hclear : ∀ reg, o.entries reg.clearHealthTrackers = o.entries reg)
    (h : Shared o s) (hs : Step s s') : Shared o s' := by
  have hok := h.ok.step hs
  cases hs with
  | start u hnone =>
    have hsame : o.entries (u.prepare s.managed).statsRegistry =
        o.entries s.managed.statsRegistry := by
      cases u with
      | reconfigureCircuitBreaker cbConfig => exact hclear _
      | _ => rfl
    have hnext : (u.prepare s.managed).heap = s.managed.heap := by cases u <;> rfl
    refine ⟨hok, ?_, ?_⟩
    · rw [hsame]
      exact h.shares.subset (live_start_subset u _ _)
    · rw [hsame, hnext]
      exact h.numbered
  | define registry table d ds hsome =>
    have hshares := h.shares
    rw [live_eq_of_rebuild hsome] at hshares
    exact ⟨hok, o.shares_apply (h.ok.rebuild _ hsome) (List.Subset.refl _) hshares,
      o.numbered_apply h.numbered⟩
  | publish registry table hsome =>
    exact ⟨hok, h.shares.subset (live_publish_subset hsome registry), h.numbered⟩
  | hold held hsub => exact ⟨hok, h.shares.subset (live_hold_subset hsub), h.numbered⟩
  | traffic tracker nowMs op => exact ⟨hok, h.shares, h.numbered⟩

theorem shared_run (hempty : o.entries .new = ∅)
    (hclear : ∀ reg, o.entries reg.clearHealthTrackers = o.entries reg)
    {cbConfig : Option CircuitBreakerConfig} {heap : Heap} {es : List (ServingLabel W)}
    (hrun : Runs.run step (new cbConfig heap) es = some s) : Shared o s :=
  Runs.invariant (fun _ _ _ hi hstep => hi.step hclear (step_cases hstep)) hrun
    (shared_new cbConfig heap hempty)

/-- Live targets share an object exactly when they have one URL. -/
theorem Shared.eq_iff (h : Shared o s) {a b : Target W} (ha : a ∈ s.live) (hb : b ∈ s.live) :
    o.field a.toSharedRefs = o.field b.toSharedRefs ↔ a.url = b.url :=
  h.numbered.eq_iff (h.shares a ha) (h.shares b hb)

theorem published_subset_live (hs : Step s s') : s'.managed.published ⊆ s.live := by
  have hsame : s.managed.published ⊆ s.live := fun t ht =>
    List.mem_append_left _ (List.mem_append_right _ ht)
  cases hs with
  | start u hnone =>
    cases u <;> exact hsame
  | define registry table d ds hsome => exact hsame
  | publish registry table hsome =>
    rw [live_eq_of_rebuild hsome]
    exact fun t ht => List.mem_append_right _ (map_targets_finalize_subset table ht)
  | hold held hsub => exact hsame
  | traffic tracker nowMs op => exact hsame

theorem published_of_ne_publish {e : ServingLabel W} (h : s.step e = some s')
    (he : e ≠ .publish) : s'.managed.published = s.managed.published := by
  cases e with
  | start u =>
    simp only [step] at h
    split at h
    · cases h
      cases u <;> rfl
    · cases h
  | define =>
    simp only [step] at h
    split at h
    · cases h
      rfl
    · cases h
  | publish => exact absurd rfl he
  | snapshot =>
    cases h
    rfl
  | take i =>
    obtain ⟨t, -, rfl⟩ := Option.map_eq_some_iff.mp h
    rfl
  | drop i =>
    cases h
    rfl
  | traffic tracker nowMs op =>
    cases h
    rfl

/-- Until an update publishes, the published targets stay. -/
theorem published_run_of_not_mem {es : List (ServingLabel W)}
    (hrun : Runs.run step s es = some s') (hes : .publish ∉ es) :
    s'.managed.published = s.managed.published := by
  induction es generalizing s with
  | nil =>
    cases hrun
    rfl
  | cons e es ih =>
    rw [Runs.run_cons, Option.bind_eq_some_iff] at hrun
    obtain ⟨t, ht, hrun⟩ := hrun
    rw [List.mem_cons, not_or] at hes
    rw [ih hrun hes.2, published_of_ne_publish ht (Ne.symm hes.1)]

/-- Counters and statistics survive rebuilds: at any time, whatever requests hold and let go, the
live targets share them exactly when they have one URL, and a URL that is published before and
after an update keeps its own. -/
theorem counters_survive_rebuilds (cbConfig : Option CircuitBreakerConfig) (heap : Heap)
    (es : List (ServingLabel W)) (s : Serving W)
    (hrun : Runs.run step (new cbConfig heap) es = some s) :
    (∀ a ∈ s.live, ∀ b ∈ s.live,
      (a.activeConnections = b.activeConnections ↔ a.url = b.url) ∧
        (a.stats = b.stats ↔ a.url = b.url)) ∧
    ∀ us s₁ s₂, Runs.run step s us = some s₁ → .publish ∉ us → s₁.step .publish = some s₂ →
      ∀ a ∈ s.managed.published, ∀ b ∈ s₂.managed.published, a.url = b.url →
        a.activeConnections = b.activeConnections ∧ a.stats = b.stats := by
  have hshared : ∀ (es : List (ServingLabel W)) (s : Serving W),
      Runs.run step (new cbConfig heap) es = some s →
      Shared .activeConnections s ∧ Shared .stats s :=
    fun es s hrun => ⟨shared_run rfl (fun _ => rfl) hrun, shared_run rfl (fun _ => rfl) hrun⟩
  obtain ⟨hcounters, hstats⟩ := hshared es s hrun
  refine ⟨fun a ha b hb => ⟨hcounters.eq_iff ha hb, hstats.eq_iff ha hb⟩, ?_⟩
  intro us s₁ s₂ hus hnot hpublish a ha b hb hurl
  have hrun₁ : Runs.run step (new cbConfig heap) (es ++ us) = some s₁ := by
    rw [Runs.run_append, hrun, Option.bind_some, hus]
  obtain ⟨hcounters₁, hstats₁⟩ := hshared _ s₁ hrun₁
  rw [← published_run_of_not_mem hus hnot] at ha
  have ha₁ : a ∈ s₁.live := List.mem_append_left _ (List.mem_append_right _ ha)
  have hb₁ : b ∈ s₁.live := published_subset_live (step_cases hpublish) hb
  exact ⟨(hcounters₁.eq_iff ha₁ hb₁).mpr hurl, (hstats₁.eq_iff ha₁ hb₁).mpr hurl⟩

end Serving

section Examples

attribute [local instance] Platform.plain

/-- A backend is loaded, a request takes it, the backend is removed, and while a third update puts
it back the request ends: first the target is made, then the old one is let go. -/
def readdedLabels : List (ServingLabel ℚ) :=
  [.start (.loadStatic [exampleDef .static .add "svc" "http://10.0.0.1:80/"]), .define, .publish,
    .take 0, .start (.loadStatic []), .publish,
    .start (.loadStatic [exampleDef .static .add "svc" "http://10.0.0.1:80/",
      exampleDef .static .add "other" "http://10.0.0.1:80/"]),
    .define, .drop 0, .define, .publish]

theorem counters_survive_rebuilds_readded :
    ∃ s : Serving ℚ, Runs.run Serving.step (.new none .empty) readdedLabels = some s ∧
      s.live.map (fun t => (t.service, t.url)) =
        [("svc", "http://10.0.0.1:80/"), ("other", "http://10.0.0.1:80/")] ∧
      ∀ a ∈ s.live, ∀ b ∈ s.live, a.activeConnections = b.activeConnections := by
  have hlive : (Runs.run Serving.step (.new none .empty) readdedLabels).map
      (fun s => s.live.map fun t => (t.service, t.url)) =
      some [("svc", "http://10.0.0.1:80/"), ("other", "http://10.0.0.1:80/")] := by
    decide +kernel
  obtain ⟨s, hs, hlive⟩ := Option.map_eq_some_iff.mp hlive
  refine ⟨s, hs, hlive, ?_⟩
  have hurl : ∀ t ∈ s.live, t.url = "http://10.0.0.1:80/" := by
    intro t ht
    have hmem := List.mem_map_of_mem (f := fun t : Target ℚ => (t.service, t.url)) ht
    rw [hlive] at hmem
    simp only [List.mem_cons, Prod.mk.injEq, List.not_mem_nil, or_false] at hmem
    rcases hmem with hmem | hmem
    · exact hmem.2
    · exact hmem.2
  intro a ha b hb
  exact (((Serving.counters_survive_rebuilds _ _ _ s hs).1 a ha b hb).1).mpr
    ((hurl a ha).trans (hurl b hb).symm)

end Examples

end SentirumLb
