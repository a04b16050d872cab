import SentirumLb.Route.Registry

/-! # Which source prevails

The registry documents the priority static over kv over service. Merging
replays the sections in that order, so a `del` or `weight` of the kv section is
over before the first service definition is applied. `Prevails` says what the
priority demands of a table, and it is compared with what replaying does: the
service section is laid over the other two as if it stood alone.
-/

namespace SentirumLb

section Priority

variable {W : Type}

namespace RouteDef

def inScope (d : RouteDef W) (host path : String) (u : Target W) : Bool :=
  d.delScope host path && !Route.keepsOnDel d.service d.tags d.delUrl u

def addresses (d : RouteDef W) (host path : String) (u : Target W) : Bool :=
  d.cmd == .weight && d.host == host && d.path == path && Table.weightMatches d u

def matchCount (d : RouteDef W) (c : List (Target W)) : ℕ :=
  c.countP fun u => Table.weightMatches d u

end RouteDef

/-- The last `weight` of the section for the target. -/
def LastWeight (kv : List (RouteDef W)) (d : RouteDef W) (host path : String)
    (u : Target W) : Prop :=
  ∃ before after, kv = before ++ d :: after ∧ d.addresses host path u = true ∧
    ∀ e ∈ after, e.addresses host path u = false

theorem LastWeight.mem {kv : List (RouteDef W)} {d : RouteDef W} {host path : String}
    {u : Target W} (h : LastWeight kv d host path u) : d ∈ kv := by
  obtain ⟨before, after, rfl, -⟩ := h
  simp

theorem LastWeight.addresses {kv : List (RouteDef W)} {d : RouteDef W} {host path : String}
    {u : Target W} (h : LastWeight kv d host path u) : d.addresses host path u = true := by
  obtain ⟨-, -, -, haddr, -⟩ := h
  exact haddr

variable [Platform] [WeightArith W]

/-- A `del` of the section that no later `add` of the section takes back. -/
def StandingDel (kv : List (RouteDef W)) (d : RouteDef W) : Prop :=
  ∃ before after, kv = before ++ d :: after ∧ d.cmd = .del ∧
    ∀ e ∈ after, e.cmd = .add → d.inScope e.host e.path (Table.targetOf default e) = false

/-- The commands of the kv section prevail over service discovery: no discovered target is in the
scope of a standing `del`, and the discovered targets have their share of the last `weight`. -/
def Prevails (kv : List (RouteDef W)) (contents : String → String → List (Target W)) : Prop :=
  (∀ d, StandingDel kv d → ∀ host path, ∀ u ∈ contents host path, u.source = .consulService →
    d.inScope host path u = false) ∧
  ∀ d host path, ∀ u ∈ contents host path, u.source = .consulService →
    LastWeight kv d host path u → u.fixedWeight = d.weight / (d.matchCount (contents host path) : W)

/-- The service section respects the kv section of its own accord: it puts no target in the scope
of a standing `del`, and gives the targets of a `weight` the share that the command gives them. -/
def RouteRegistry.Respectful (r : RouteRegistry W) : Prop :=
  ∀ host path, ∀ u ∈ denote r.serviceRoutes host path,
    (∀ d, StandingDel r.kvRoutes d → d.inScope host path u = false) ∧
    ∀ d, LastWeight r.kvRoutes d host path u → u.fixedWeight = d.weight /
      ((d.matchCount (denote (r.staticRoutes ++ r.kvRoutes) host path) +
        d.matchCount (denote r.serviceRoutes host path) : ℕ) : W)

theorem StandingDel.mem {kv : List (RouteDef W)} {d : RouteDef W} (h : StandingDel kv d) :
    d ∈ kv := by
  obtain ⟨before, after, rfl, -⟩ := h
  simp

/-! ## Laying discovered targets over the rest -/

@[simp] theorem Table.targetOf_source (shared : SharedRefs) (d : RouteDef W) :
    (Table.targetOf shared d).source = d.source := by
  unfold Table.targetOf Target.preParse
  dsimp only
  split <;> rfl

theorem source_of_mem_denote {defs : List (RouteDef W)} {P : RouteSource → Prop}
    (h : ∀ d ∈ defs, P d.source) {host path : String} {u : Target W}
    (hu : u ∈ denote defs host path) : P u.source := by
  obtain ⟨d, hd, -, -, -, w, rfl⟩ := Table.mem_denote hu
  have hsource : (Table.targetOf default d).unweighted.source = d.source :=
    Table.targetOf_source default d
  exact hsource ▸ h d hd

omit [Platform] in
theorem appendNew_append {c : List (Target W)} {t : Target W}
    (h : ∀ e ∈ c, e.source ≠ t.source) (c' : List (Target W)) :
    appendNew t (c ++ c') = c ++ appendNew t c' := by
  have hany : (c.any fun e => Route.sameBackend e t) = false := by
    rw [List.any_eq_false]
    intro e he
    simp [Route.sameBackend, h e he]
  unfold appendNew
  rw [List.any_append, hany, Bool.false_or]
  split
  · rfl
  · rw [List.append_assoc]

theorem foldl_editContents_append {c : List (Target W)} {service : List (RouteDef W)}
    (host path : String) (hadd : ∀ d ∈ service, d.cmd = .add)
    (h : ∀ d ∈ service, ∀ e ∈ c, e.source ≠ d.source) (c' : List (Target W)) :
    service.foldl (fun c d => editContents default d host path c) (c ++ c') =
      c ++ service.foldl (fun c d => editContents default d host path c) c' := by
  induction service generalizing c' with
  | nil => rfl
  | cons d ds ih =>
    have hstep : editContents default d host path (c ++ c') =
        c ++ editContents default d host path c' := by
      unfold editContents
      rw [hadd d List.mem_cons_self]
      dsimp only
      split
      · apply appendNew_append
        intro e he
        rw [Table.targetOf_source]
        exact h d List.mem_cons_self e he
      · rfl
    rw [List.foldl_cons, List.foldl_cons, hstep]
    exact ih (fun e he => hadd e (List.mem_cons_of_mem d he))
      (fun e he => h e (List.mem_cons_of_mem d he)) _

/-- Discovered targets stand behind the others as if they stood alone. -/
theorem denote_append_service {base service : List (RouteDef W)}
    (hadd : ∀ d ∈ service, d.cmd = .add) (hbase : ∀ d ∈ base, d.source ≠ .consulService)
    (hservice : ∀ d ∈ service, d.source = .consulService) (host path : String) :
    denote (base ++ service) host path = denote base host path ++ denote service host path := by
  have hsource : ∀ d ∈ service, ∀ e ∈ denote base host path, e.source ≠ d.source := by
    intro d hd e he
    rw [hservice d hd]
    exact source_of_mem_denote (P := (· ≠ .consulService)) hbase he
  have hfold := foldl_editContents_append host path hadd hsource []
  rw [List.append_nil] at hfold
  unfold denote at hfold ⊢
  rw [List.foldl_append, hfold]

/-! ## When the priority is kept -/

theorem prevails_map_eraseRefs {kv : List (RouteDef W)}
    {contents : String → String → List (Target W)} :
    Prevails kv (fun host path => (contents host path).map Target.eraseRefs) ↔
      Prevails kv contents := by
  unfold Prevails RouteDef.matchCount
  simp only [List.forall_mem_map, List.countP_map]
  rfl

section Merged

variable {r : RouteRegistry W} (hadd : ∀ d ∈ r.serviceRoutes, d.cmd = .add)
  (hsources : ∀ source, ∀ d ∈ r.ofSource source, d.source = source)

include hsources in
omit [Platform] [WeightArith W] in
theorem source_ne_of_mem_base : ∀ d ∈ r.staticRoutes ++ r.kvRoutes, d.source ≠ .consulService := by
  intro d hd
  rcases List.mem_append.mp hd with hd | hd
  · rw [hsources .static d hd]
    decide
  · rw [hsources .consulKv d hd]
    decide

include hadd hsources in
theorem denote_getAll (host path : String) :
    denote r.getAll host path =
      denote (r.staticRoutes ++ r.kvRoutes) host path ++ denote r.serviceRoutes host path :=
  denote_append_service hadd (source_ne_of_mem_base hsources) (hsources .consulService) host path

include hadd hsources in
theorem mem_discovered_iff {host path : String} {u : Target W} :
    (u ∈ denote r.getAll host path ∧ u.source = .consulService) ↔
      u ∈ denote r.serviceRoutes host path := by
  rw [denote_getAll hadd hsources, List.mem_append]
  constructor
  · rintro ⟨hu | hu, hs⟩
    · exact absurd hs (source_of_mem_denote (P := (· ≠ .consulService))
        (source_ne_of_mem_base hsources) hu)
    · exact hu
  · intro hu
    exact ⟨Or.inr hu, source_of_mem_denote (P := (· = .consulService)) (hsources .consulService) hu⟩

include hadd hsources in
/-- Over a merged registry, the priority is kept exactly if the service section respects it. -/
theorem prevails_denote_iff : Prevails r.kvRoutes (denote r.getAll) ↔ r.Respectful := by
  have hcount : ∀ host path (d : RouteDef W),
      d.matchCount (denote r.getAll host path) =
        d.matchCount (denote (r.staticRoutes ++ r.kvRoutes) host path) +
          d.matchCount (denote r.serviceRoutes host path) := by
    intro host path d
    rw [denote_getAll hadd hsources]
    exact List.countP_append
  constructor
  · rintro ⟨hdel, hweight⟩ host path u hu
    obtain ⟨hmem, hs⟩ := (mem_discovered_iff hadd hsources).mpr hu
    constructor
    · intro d hd
      exact hdel d hd host path u hmem hs
    · intro d hd
      rw [← hcount]
      exact hweight d host path u hmem hs hd
  · intro h
    constructor
    · intro d hd host path u hu hs
      exact (h host path u ((mem_discovered_iff hadd hsources).mp ⟨hu, hs⟩)).1 d hd
    · intro d host path u hu hs hd
      rw [hcount]
      exact (h host path u ((mem_discovered_iff hadd hsources).mp ⟨hu, hs⟩)).2 d hd

end Merged

/-- In every run whose service definitions are `add`s, as discovery makes them, the published table
keeps the priority exactly if the service section respects it. -/
theorem ManagedRouteTable.prevails_run_iff (cbConfig : Option CircuitBreakerConfig) (heap : Heap)
    (calls : List (Update W × List (Target W)))
    (hadd : ∀ d ∈ ((new cbConfig heap).run calls).registry.serviceRoutes, d.cmd = .add) :
    Prevails ((new cbConfig heap).run calls).registry.kvRoutes
        ((new cbConfig heap).run calls).table.contents ↔
      ((new cbConfig heap).run calls).registry.Respectful := by
  have hsources : ∀ source, ∀ d ∈ ((new cbConfig heap).run calls).registry.ofSource source,
      d.source = source := by
    intro source d hd
    rw [ofSource_run] at hd
    exact source_of_mem_markSources hd
  rw [← prevails_map_eraseRefs, ← prevails_denote_iff hadd hsources]
  simp only [(published_run cbConfig heap calls).contents_eq]

end Priority

/-! ## A `del` that does not stand -/

section Examples

attribute [local instance] Platform.plain

def discoverAfterDel (service : String) : List (Update ℚ × List (Target ℚ)) :=
  [(.updateKv [exampleDef .consulKv .del "svc" ""], []),
   (.updateServices [exampleDef .consulService .add service "http://10.0.0.1:8080/"], [])]

namespace ManagedRouteTable

/-- The `del` does not keep the discovered service out. -/
theorem not_prevails_deleted_service :
    let m := (new none .empty).run (discoverAfterDel "svc")
    (∀ d ∈ m.registry.serviceRoutes, d.cmd = .add) ∧
      ¬ Prevails m.registry.kvRoutes m.table.contents := by
  refine ⟨by decide, ?_⟩
  rw [← prevails_map_eraseRefs]
  simp only [(published_run _ _ _).contents_eq]
  rintro ⟨hdel, -⟩
  have hstands : StandingDel [exampleDef .consulKv .del "svc" ""]
      (exampleDef .consulKv .del "svc" "") := ⟨[], [], rfl, rfl, by simp⟩
  have hfound : ∃ u ∈ denote ((new none .empty).run (discoverAfterDel "svc")).registry.getAll
      "" "/api", u.source = .consulService ∧
        (exampleDef .consulKv .del "svc" "").inScope "" "/api" u := by
    decide
  obtain ⟨u, hu, hs, hin⟩ := hfound
  rw [hdel _ hstands "" "/api" u hu hs] at hin
  cases hin

/-- A discovered service that the `del` does not name leaves the priority kept. -/
theorem prevails_other_service :
    let m := (new none .empty).run (discoverAfterDel "other")
    (∀ d ∈ m.registry.serviceRoutes, d.cmd = .add) ∧
      Prevails m.registry.kvRoutes m.table.contents := by
  refine ⟨by decide, (prevails_run_iff _ _ _ (by decide)).mpr ?_⟩
  intro host path u hu
  obtain ⟨e, he, -, -, -, w, rfl⟩ := Table.mem_denote hu
  rw [List.mem_singleton.mp he]
  constructor
  · intro d hd
    rw [List.mem_singleton.mp hd.mem]
    have hkeeps : Route.keepsOnDel "svc" [] none (Table.targetOf default
        (exampleDef .consulService .add "other" "http://10.0.0.1:8080/")) = true := by
      decide
    exact Bool.and_eq_false_imp.mpr fun _ => congrArg (!·) hkeeps
  · intro d hd
    have haddr := hd.addresses
    rw [List.mem_singleton.mp hd.mem] at haddr
    cases haddr

end ManagedRouteTable

end Examples

end SentirumLb
