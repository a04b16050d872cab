import SentirumLb.Lib.Lists
import SentirumLb.Route.Duplicates
import SentirumLb.Route.Interleave

/-! # Tables of adds alone

A list of adds behaves like a set. Once a definition is in its route, adding it
again changes nothing. Definitions of different services are never duplicates
of each other, so it does not matter how the services are merged: the order of
the targets differs, and their weights and slots are functions of the targets
as a multiset.
-/

namespace SentirumLb

namespace Table

/-! ## Adding again -/

section Again

variable [Platform]

theorem addToBucket_eq_self {W : Type} [WeightArith W] {host path : String} {target : Target W}
    {rr : Ref} {rs : List (Route W)} {r : Route W} (hr : routeAt rs path = some r)
    (hsame : (r.addTarget target).computeWeights = r) :
    addToBucket host path target rr rs = rs := by
  induction rs with
  | nil => cases hr
  | cons q rs ih =>
    rw [routeAt_cons] at hr
    rw [addToBucket]
    split at hr
    · next hq =>
      cases hr
      rw [if_pos hq, hsame]
    · next hq => rw [if_neg hq, ih hr]

/-- The definition is in the route that it addresses. -/
def Holds (d : RouteDef ℚ) (t : Table ℚ) : Prop := ∃ u ∈ t.contents d.host d.path, d.Present u

theorem applyAdd_eq_self {t : Table ℚ} (hsettled : t.Settled) {d : RouteDef ℚ} (h : Holds d t)
    (shared : SharedRefs) (rr : Ref) : t.applyAdd shared rr d = t := by
  obtain ⟨r, hroute, a, ha, hpresent⟩ := (exists_mem_contents_iff d.present_unweighted).mp h
  have hadd : r.addTarget (targetOf shared d) = r :=
    if_pos (List.any_eq_true.mpr ⟨a, ha, (sameBackend_targetOf_iff shared).mpr hpresent⟩)
  have hsame : (r.addTarget (targetOf shared d)).computeWeights = r := by
    rw [hadd]
    exact hsettled d.host r (mem_of_routeAt hroute).1
  have hroutes : t.routes.upsert d.host [] (addToBucket d.host d.path (targetOf shared d) rr) =
      t.routes := by
    cases hl : t.routes.lookup d.host with
    | none => simp [bucket, hl, routeAt] at hroute
    | some rs =>
      rw [bucket, hl, Option.getD_some] at hroute
      exact AssocMap.upsert_eq_self hl (addToBucket_eq_self hroute hsame)
  rw [applyAdd, hroutes]

theorem prefix_contents_applyAdd (t : Table ℚ) (shared : SharedRefs) (rr : Ref) (d : RouteDef ℚ)
    (host path : String) :
    t.contents host path <+: (t.applyAdd shared rr d).contents host path := by
  rw [contents_applyAdd]
  split
  · unfold appendNew
    split
    · exact List.prefix_rfl
    · exact List.prefix_append _ _
  · exact List.prefix_rfl

theorem holds_applyAdd (t : Table ℚ) (shared : SharedRefs) (rr : Ref) (d : RouteDef ℚ) :
    Holds d (t.applyAdd shared rr d) := by
  unfold Holds
  rw [contents_applyAdd, if_pos ⟨rfl, rfl⟩, appendNew]
  split
  · next h =>
    obtain ⟨u, hu, hsame⟩ := List.any_eq_true.mp h
    exact ⟨u, hu, (sameBackend_targetOf_iff shared).mp hsame⟩
  · refine ⟨(targetOf shared d).unweighted, by simp, ?_⟩
    have hself : Route.sameBackend (targetOf shared d).unweighted (targetOf shared d) = true := by
      rw [sameBackend_iff]
      exact ⟨rfl, rfl, rfl, decide_eq_true rfl⟩
    exact (sameBackend_targetOf_iff shared).mp hself

variable {t t' : Table ℚ} {defs : List (RouteDef ℚ)}

theorem Replay.holds (hr : Replay t defs t') (hadd : ∀ d ∈ defs, d.cmd = .add) {e : RouteDef ℚ}
    (h : Holds e t ∨ e ∈ defs) : Holds e t' := by
  induction hr with
  | nil => simpa using h
  | @cons t t' d ds shared rr _ ih =>
    have happly : t.apply shared rr d = t.applyAdd shared rr d := by
      rw [apply, hadd d List.mem_cons_self]
    rw [happly] at ih
    refine ih (fun d' hd' => hadd d' (List.mem_cons_of_mem _ hd')) ?_
    rcases h with ⟨u, hu, hpresent⟩ | h
    · exact Or.inl ⟨u, (prefix_contents_applyAdd t shared rr d _ _).subset hu, hpresent⟩
    · rcases List.mem_cons.mp h with rfl | h
      · exact Or.inl (holds_applyAdd t shared rr e)
      · exact Or.inr h

/-- Adding what the table holds changes nothing. -/
theorem Replay.eq_self (hr : Replay t defs t') (hadd : ∀ d ∈ defs, d.cmd = .add)
    (hsettled : t.Settled) (h : ∀ d ∈ defs, Holds d t) : t' = t := by
  induction hr with
  | nil => rfl
  | @cons t t' d ds shared rr _ ih =>
    have hsame : t.apply shared rr d = t := by
      rw [apply, hadd d List.mem_cons_self]
      exact applyAdd_eq_self hsettled (h d List.mem_cons_self) shared rr
    rw [hsame] at ih
    exact ih (fun d' hd' => hadd d' (List.mem_cons_of_mem _ hd')) hsettled fun d' hd' =>
      h d' (List.mem_cons_of_mem _ hd')

theorem fromDefinitions_append_self (hadd : ∀ d ∈ defs, d.cmd = .add) :
    fromDefinitions (defs ++ defs) = fromDefinitions defs := by
  have hfirst : Replay new defs (defs.foldl applyFresh (0, new)).2 :=
    foldl_applyFresh_replay defs (0, new)
  have hagain := foldl_applyFresh_replay defs (defs.foldl applyFresh (0, new))
  unfold fromDefinitions
  rw [List.foldl_append, hagain.eq_self hadd (hfirst.settled settled_new) fun d hd =>
    hfirst.holds hadd (Or.inr hd)]

end Again

end Table

/-! ## Weights and slots of a multiset -/

namespace Route

open WeightArith

theorem weightOf_perm {ts ts' : List (Target ℚ)}
    (h : (ts.map (·.fixedWeight)).Perm (ts'.map (·.fixedWeight))) : weightOf ts = weightOf ts' := by
  have hany : (ts.any fun t => lt 0 t.fixedWeight) = ts'.any fun t => lt 0 t.fixedWeight := by
    have hfixed := h.any_eq (f := fun w => lt 0 w)
    rwa [List.any_map, List.any_map] at hfixed
  have htotal : (ts.map fun t => if lt 0 t.fixedWeight then t.fixedWeight else 0).foldl (· + ·) 0 =
      (ts'.map fun t => if lt 0 t.fixedWeight then t.fixedWeight else 0).foldl (· + ·) 0 := by
    have hfixed := h.map fun w => if lt 0 w then w else 0
    rw [List.map_map, List.map_map] at hfixed
    exact hfixed.foldl_op_eq
  have hcount : (ts.countP fun t => le t.fixedWeight 0) =
      ts'.countP fun t => le t.fixedWeight 0 := by
    have hfixed := h.countP_eq fun w => le w 0
    rwa [List.countP_map, List.countP_map] at hfixed
  have hlength : ts.length = ts'.length := by simpa using h.length_eq
  unfold weightOf
  rw [hany, htotal, hcount, hlength]

theorem slotsOf_perm {ts ts' : List (Arc (Target ℚ))}
    (h : (ts.map (·.val.weight)).Perm (ts'.map (·.val.weight))) : slotsOf ts = slotsOf ts' := by
  have hzero : (∀ u ∈ ts, slotsDue u.val.weight = 0) ↔ ∀ u ∈ ts', slotsDue u.val.weight = 0 := by
    have hmem : ∀ us : List (Arc (Target ℚ)), (∀ u ∈ us, slotsDue u.val.weight = 0) ↔
        ∀ w ∈ us.map (·.val.weight), slotsDue w = 0 := by
      simp
    rw [hmem, hmem]
    exact forall_congr' fun w => imp_congr_left h.mem_iff
  have hlength : ts.length = ts'.length := by simpa using h.length_eq
  funext t
  unfold slotsOf
  simp only [hzero, hlength]

/-- A target with its number of slots, without the objects and the address that it was given. -/
def withSlots (r : Route ℚ) (a : Arc (Target ℚ)) : Target ℚ × ℕ :=
  (a.val.eraseRefs, r.wTargets.countP fun u => u.addr == a.addr)

variable {r r' : Route ℚ}

theorem map_withSlots (hsettled : r.computeWeights = r) (hlen : r.targets.length < 2 ^ 64) :
    r.targets.map r.withSlots =
      (r.targets.map (·.val.eraseRefs)).map fun u => (u, slotsOf r.targets u) := by
  rw [List.map_map]
  apply List.map_congr_left
  intro a ha
  have hne : r.targets ≠ [] := List.ne_nil_of_mem ha
  have hassign : assignWeights r.targets = r.targets := by
    rw [← computeWeights_targets, hsettled]
  have hinj := nodup_addr_assignWeights r.targets
  have hw : ∀ t ∈ assignWeights r.targets, 0 ≤ t.val.weight := fun t ht => assignWeights_nonneg ht
  rw [hassign] at hinj hw
  have hslots : r.wTargets = spreadSlots r.targets := by
    have hspread := computeWeights_wTargets hne
    rwa [hsettled] at hspread
  have hcount : (r.wTargets.countP fun u => u.addr == a.addr) = slotsOf r.targets a.val := by
    rw [hslots, (spreadSlots_perm hinj hw hlen hne).countP_eq, countP_groupedSlots hinj hw ha]
  rw [withSlots, hcount]
  rfl

theorem map_eraseRefs_targets (hsettled : r.computeWeights = r) :
    r.targets.map (·.val.eraseRefs) = (r.contents.map Target.eraseRefs).map fun u =>
      { u with weight := weightOf (r.contents.map Target.eraseRefs) u } := by
  have hassign : assignWeights r.targets = r.targets := by
    rw [← computeWeights_targets, hsettled]
  have hvals := map_val_assignWeights r.targets
  rw [hassign] at hvals
  have hweight : weightOf (r.targets.map (·.val)) = weightOf (r.contents.map Target.eraseRefs) := by
    apply weightOf_perm
    rw [contents, List.map_map, List.map_map, List.map_map]
    exact .refl _
  calc r.targets.map (·.val.eraseRefs)
      = (r.targets.map (·.val)).map Target.eraseRefs := by rw [List.map_map]; rfl
    _ = (r.targets.map (·.val)).map fun t => Target.eraseRefs
          { t with weight := weightOf (r.contents.map Target.eraseRefs) t } := by
        rw [← hweight]
        conv_lhs => rw [hvals]
        rw [List.map_map]
        rfl
    _ = _ := by
        rw [contents, List.map_map, List.map_map, List.map_map]
        apply List.map_congr_left
        intro a _
        have hw : ∀ ts : List (Target ℚ),
            weightOf ts a.val.unweighted.eraseRefs = weightOf ts a.val := by
          intro ts
          unfold weightOf
          split <;> rfl
        simp only [Function.comp, hw]
        rfl

theorem map_withSlots_perm (hsettled : r.computeWeights = r) (hsettled' : r'.computeWeights = r')
    (hlen : r.targets.length < 2 ^ 64)
    (h : (r.contents.map Target.eraseRefs).Perm (r'.contents.map Target.eraseRefs)) :
    (r.targets.map r.withSlots).Perm (r'.targets.map r'.withSlots) := by
  have hlen' : r'.targets.length < 2 ^ 64 := by
    have hlength := h.length_eq
    simp only [contents, List.length_map] at hlength
    omega
  have htargets : (r.targets.map (·.val.eraseRefs)).Perm (r'.targets.map (·.val.eraseRefs)) := by
    rw [map_eraseRefs_targets hsettled, map_eraseRefs_targets hsettled',
      weightOf_perm (h.map (·.fixedWeight))]
    exact h.map _
  have hweights : (r.targets.map (·.val.weight)).Perm (r'.targets.map (·.val.weight)) := by
    have hmap := htargets.map (·.weight)
    rwa [List.map_map, List.map_map] at hmap
  rw [map_withSlots hsettled hlen, map_withSlots hsettled' hlen', slotsOf_perm hweights]
  exact htargets.map _

end Route

/-! ## Services merged in another order -/

namespace Table

/-- The lists hold the same definitions, and those of each service in the same order. -/
structure KeepsServiceOrder (defs defs' : List (RouteDef ℚ)) : Prop where
  perm : defs.Perm defs'
  order : ∀ service, (defs.filter fun d => d.service = service) =
    defs'.filter fun d => d.service = service

/-- The tables have the same hosts and paths, and each route the same targets, with the same
weights and numbers of slots, in some order. -/
structure SameUpToOrder (t t' : Table ℚ) : Prop where
  hosts : ∀ host, host ∈ t.routes ↔ host ∈ t'.routes
  paths : ∀ host, (t.bucket host).map (·.path) = (t'.bucket host).map (·.path)
  targets : ∀ host path r r', routeAt (t.bucket host) path = some r →
    routeAt (t'.bucket host) path = some r' →
    (r.targets.map r.withSlots).Perm (r'.targets.map r'.withSlots)

section Merging

variable [Platform] {defs defs' : List (RouteDef ℚ)}

omit [Platform] in
theorem filter_appendNew (service : String) (t : Target ℚ) (c : List (Target ℚ)) :
    ((appendNew t c).filter fun u => u.service = service) =
      if t.service = service then appendNew t (c.filter fun u => u.service = service)
      else c.filter fun u => u.service = service := by
  have hany : t.service = service →
      ((c.filter fun u => u.service = service).any fun e => Route.sameBackend e t) =
        c.any fun e => Route.sameBackend e t := by
    intro hservice
    rw [List.any_filter]
    apply List.any_congr rfl
    intro e
    by_cases he : Route.sameBackend e t = true
    · simp [he, (sameBackend_iff.mp he).1, hservice]
    · simp [he]
  have hunweighted : t.unweighted.service = t.service := rfl
  unfold appendNew
  by_cases hservice : t.service = service
  · rw [if_pos hservice, hany hservice]
    split
    · rfl
    · rw [List.filter_append]
      simp [hunweighted, hservice]
  · rw [if_neg hservice]
    split
    · rfl
    · rw [List.filter_append]
      simp [hunweighted, hservice]

theorem filter_foldl_editContents (hadd : ∀ d ∈ defs, d.cmd = .add) (service host path : String)
    (c : List (Target ℚ)) :
    ((defs.foldl (fun c d => editContents default d host path c) c).filter
        fun u => u.service = service) =
      (defs.filter fun d => d.service = service).foldl
        (fun c d => editContents default d host path c)
        (c.filter fun u => u.service = service) := by
  induction defs generalizing c with
  | nil => rfl
  | cons d ds ih =>
    have hstep : ((editContents default d host path c).filter fun u => u.service = service) =
        if d.service = service then
          editContents default d host path (c.filter fun u => u.service = service)
        else c.filter fun u => u.service = service := by
      unfold editContents
      rw [hadd d List.mem_cons_self]
      dsimp only
      by_cases hroute : d.host = host ∧ d.path = path
      · rw [if_pos hroute, if_pos hroute, filter_appendNew, targetOf_service]
      · rw [if_neg hroute, if_neg hroute, ite_self]
    rw [List.foldl_cons, ih fun d' hd' => hadd d' (List.mem_cons_of_mem _ hd'), hstep,
      List.filter_cons]
    by_cases hservice : d.service = service <;> simp [hservice]

theorem denote_perm (hadd : ∀ d ∈ defs, d.cmd = .add) (h : KeepsServiceOrder defs defs')
    (host path : String) : (denote defs host path).Perm (denote defs' host path) := by
  have hadd' : ∀ d ∈ defs', d.cmd = .add := fun d hd => hadd d (h.perm.mem_iff.mpr hd)
  refine Lists.perm_of_forall_filter_eq (·.service) fun service => ?_
  unfold denote
  rw [filter_foldl_editContents hadd, filter_foldl_editContents hadd', h.order service]

theorem length_foldl_editContents_le (hadd : ∀ d ∈ defs, d.cmd = .add) (host path : String)
    (c : List (Target ℚ)) :
    (defs.foldl (fun c d => editContents default d host path c) c).length ≤
      c.length + defs.length := by
  induction defs generalizing c with
  | nil => exact le_rfl
  | cons d ds ih =>
    have hstep : (editContents default d host path c).length ≤ c.length + 1 := by
      unfold editContents appendNew
      rw [hadd d List.mem_cons_self]
      dsimp only
      split_ifs <;> simp
    have hrest := ih (fun d' hd' => hadd d' (List.mem_cons_of_mem _ hd'))
      (editContents default d host path c)
    rw [List.foldl_cons, List.length_cons]
    omega

omit [Platform] in
theorem settled_finalize {t : Table ℚ} (h : t.Settled) : t.finalize.Settled := by
  intro host r hr
  rw [bucket_finalize, List.mem_insertionSort] at hr
  exact h host r hr

theorem Ok.mem_paths_iff {t : Table ℚ} (h : t.Ok) (host path : String) :
    path ∈ (t.bucket host).map (·.path) ↔ t.contents host path ≠ [] := by
  constructor
  · intro hmem
    obtain ⟨r, hr, rfl⟩ := List.mem_map.mp hmem
    rw [h.contents_of_mem_bucket hr]
    simpa [Route.contents] using ((h.bucketOk host).wellFormed r hr).targets_ne
  · intro hne
    by_contra hmem
    exact hne (contentsOf_eq_nil hmem)

theorem Ok.mem_routes_iff {t : Table ℚ} (h : t.Ok) (host : String) :
    host ∈ t.routes ↔ ∃ path, path ∈ (t.bucket host).map (·.path) := by
  unfold bucket
  rw [← AList.lookup_isSome]
  cases hl : t.routes.lookup host with
  | none => simp
  | some rs =>
    obtain ⟨r, hr⟩ := List.exists_mem_of_ne_nil rs (h.bucket_ne host rs hl)
    exact iff_of_true rfl ⟨r.path, List.mem_map_of_mem hr⟩

theorem WellFormed.sorted_paths {t : Table ℚ} (h : t.WellFormed) (host : String) :
    ((t.bucket host).map (·.path)).Pairwise fun p q =>
      q.utf8ByteSize < p.utf8ByteSize ∨ q.utf8ByteSize = p.utf8ByteSize ∧ q < p := by
  rw [List.pairwise_map]
  unfold bucket
  cases hl : t.routes.lookup host with
  | none => exact .nil
  | some rs => exact h.sorted host rs hl

theorem WellFormed.map_path_eq {t t' : Table ℚ} (h : t.WellFormed) (h' : t'.WellFormed)
    {host : String}
    (hmem : ∀ path, path ∈ (t.bucket host).map (·.path) ↔ path ∈ (t'.bucket host).map (·.path)) :
    (t.bucket host).map (·.path) = (t'.bucket host).map (·.path) := by
  have hperm := (List.perm_ext_iff_of_nodup (h.toOk.bucketOk host).paths_nodup
    (h'.toOk.bucketOk host).paths_nodup).mpr hmem
  refine hperm.eq_of_pairwise ?_ (h.sorted_paths host) (h'.sorted_paths host)
  rintro p q - - (hlt | ⟨heq, hlt⟩) (hlt' | ⟨heq', hlt'⟩)
  · omega
  · omega
  · omega
  · exact absurd hlt' hlt.asymm

/-- Merging the services in another order makes no difference but for the order of the targets,
whatever shared objects they are given. -/
theorem Replay.sameUpToOrder {t t' : Table ℚ} (hr : Replay new defs t) (hr' : Replay new defs' t')
    (hadd : ∀ d ∈ defs, d.cmd = .add) (h : KeepsServiceOrder defs defs')
    (hlen : defs.length < 2 ^ 64) : SameUpToOrder t.finalize t'.finalize := by
  have hwf := hr.wellFormed_finalize
  have hwf' := hr'.wellFormed_finalize
  have hperm : ∀ host path, ((t.finalize.contents host path).map Target.eraseRefs).Perm
      ((t'.finalize.contents host path).map Target.eraseRefs) := by
    intro host path
    rw [hr.contents_eq, hr'.contents_eq]
    exact denote_perm hadd h host path
  have hmem : ∀ host path, path ∈ (t.finalize.bucket host).map (·.path) ↔
      path ∈ (t'.finalize.bucket host).map (·.path) := by
    intro host path
    have hlength := (hperm host path).length_eq
    rw [List.length_map, List.length_map] at hlength
    rw [hwf.toOk.mem_paths_iff, hwf'.toOk.mem_paths_iff, ← List.length_pos_iff,
      ← List.length_pos_iff, hlength]
  constructor
  case hosts =>
    intro host
    rw [hwf.toOk.mem_routes_iff, hwf'.toOk.mem_routes_iff]
    exact exists_congr (hmem host)
  case paths => exact fun host => hwf.map_path_eq hwf' (hmem host)
  case targets =>
    rintro host path r r' hroute hroute'
    obtain ⟨hmemr, rfl⟩ := mem_of_routeAt hroute
    obtain ⟨hmemr', hpath⟩ := mem_of_routeAt hroute'
    have hcontents := hwf.toOk.contents_of_mem_bucket hmemr
    have hsame := hperm host r.path
    rw [hcontents, ← hpath, hwf'.toOk.contents_of_mem_bucket hmemr'] at hsame
    have hle : r.targets.length ≤ defs.length := by
      have hlength := length_foldl_editContents_le hadd host r.path []
      have hdenote := hr.contents_eq host r.path
      rw [hcontents, denote] at hdenote
      rw [← hdenote] at hlength
      simpa [Route.contents] using hlength
    exact Route.map_withSlots_perm (settled_finalize (hr.settled settled_new) host r hmemr)
      (settled_finalize (hr'.settled settled_new) host r' hmemr') (by omega) hsame

end Merging

/-- A list of adds behaves like a set: a second copy of it changes nothing, and the order in which
services are merged makes no difference but for the order of the targets. -/
theorem adds_behave_as_sets [Platform] (defs : List (RouteDef ℚ))
    (hadd : ∀ d ∈ defs, d.cmd = .add) :
    fromDefinitions (defs ++ defs) = fromDefinitions defs ∧
      ∀ defs', KeepsServiceOrder defs defs' → defs.length < 2 ^ 64 →
        SameUpToOrder (fromDefinitions defs) (fromDefinitions defs') :=
  ⟨fromDefinitions_append_self hadd, fun defs' h hlen =>
    (foldl_applyFresh_replay defs (0, new)).sameUpToOrder
      (foldl_applyFresh_replay defs' (0, new)) hadd h hlen⟩

section Examples

attribute [local instance] Platform.plain

def twoServices : List (RouteDef ℚ) :=
  [addWeb, { addWeb with service := "api", dst := "http://10.0.0.2:80/" }]

theorem keepsServiceOrder_twoServices : KeepsServiceOrder twoServices twoServices.reverse := by
  refine ⟨twoServices.reverse_perm.symm, fun service => ?_⟩
  by_cases hweb : "web" = service
  · subst hweb
    rfl
  · by_cases hapi : "api" = service
    · subst hapi
      rfl
    · simp [twoServices, addWeb, exampleDef, hweb, hapi]

/-- The two services come in either order. -/
theorem adds_behave_as_sets_twoServices :
    fromDefinitions (twoServices ++ twoServices) = fromDefinitions twoServices ∧
      SameUpToOrder (fromDefinitions twoServices) (fromDefinitions twoServices.reverse) :=
  have h := adds_behave_as_sets twoServices (by decide)
  ⟨h.1, h.2 _ keepsServiceOrder_twoServices (by decide)⟩

end Examples

end Table

end SentirumLb
