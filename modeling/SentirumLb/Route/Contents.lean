import SentirumLb.Route.TableInvariant

/-! # What a table contains

Every command edits each route on its own: an `add` extends one route, a `del`
filters the routes in its scope, a `weight` rewrites the fixed weights of one
route. The contents of a route, which are its targets without their computed
weights, are therefore a fold of the commands over the empty list. That fold is
the meaning of a list of definitions, and replaying computes it.
-/

namespace SentirumLb

variable {W : Type} [WeightArith W]

def Target.unweighted (t : Target W) : Target W := { t with weight := 0 }

def Target.eraseRefs (t : Target W) : Target W := { t with toSharedRefs := default }

def Route.contents (r : Route W) : List (Target W) := r.targets.map fun a => a.val.unweighted

/-! ## Edits -/

/-- Whether a `del` looks at the route. -/
def RouteDef.delScope (d : RouteDef W) (host path : String) : Bool :=
  if d.tags ≠ [] ∧ d.host = "" ∧ d.delPath = none then true
  else d.host == host && d.delPath.all (path == ·)

def appendNew (t : Target W) (c : List (Target W)) : List (Target W) :=
  if c.any fun e => Route.sameBackend e t then c else c ++ [t.unweighted]

/-- Give the matching targets their share of the weight. -/
def reweigh (d : RouteDef W) (c : List (Target W)) : List (Target W) :=
  let matchCount := c.countP fun t => Table.weightMatches d t
  c.map fun t =>
    if Table.weightMatches d t then { t with fixedWeight := d.weight / (matchCount : W) } else t

variable [Platform]

def editContents (shared : SharedRefs) (d : RouteDef W) (host path : String)
    (c : List (Target W)) : List (Target W) :=
  match d.cmd with
  | .add => if d.host = host ∧ d.path = path then appendNew (Table.targetOf shared d) c else c
  | .del =>
      if d.delScope host path then c.filter fun t => Route.keepsOnDel d.service d.tags d.delUrl t
      else c
  | .weight => if d.host = host ∧ d.path = path then reweigh d c else c

/-- The contents of a route after a list of definitions, without shared objects. -/
def denote (defs : List (RouteDef W)) (host path : String) : List (Target W) :=
  defs.foldl (fun c d => editContents default d host path c) []

/-! ## Routes -/

namespace Route

omit [Platform] in
@[simp] theorem contents_computeWeights (r : Route W) : r.computeWeights.contents = r.contents := by
  rw [contents, computeWeights_targets]
  exact map_assignWeights Target.unweighted (fun _ _ => rfl) r.targets

omit [Platform] in
theorem contents_addTarget (r : Route W) (t : Target W) :
    (r.addTarget t).contents = appendNew t r.contents := by
  have hany : (r.contents.any fun e => sameBackend e t) =
      r.targets.any fun e => sameBackend e.val t := by
    rw [contents, List.any_map]
    rfl
  unfold addTarget appendNew
  rw [hany]
  split
  · rfl
  · simp [contents]

omit [Platform] in
theorem contents_removeTargets (r : Route W) (service : String) (tags : List String)
    (url : Option String) : (r.removeTargets service tags url).contents =
      r.contents.filter fun t => keepsOnDel service tags url t := by
  rw [contents, contents, List.filter_map]
  rfl

end Route

namespace Table

omit [Platform] in
theorem countP_contents (d : RouteDef W) (r : Route W) :
    r.contents.countP (fun t => weightMatches d t) =
      r.targets.countP fun t => weightMatches d t.val := by
  rw [Route.contents, List.countP_map]
  rfl

omit [Platform] in
theorem contents_weightRoute (d : RouteDef W) (r : Route W) :
    (weightRoute d r).contents = reweigh d r.contents := by
  unfold weightRoute reweigh
  dsimp only
  rw [countP_contents]
  split
  · next h0 =>
    have hnone : ∀ t ∈ r.contents, ¬ weightMatches d t = true := by
      rw [← List.countP_eq_zero, countP_contents]
      exact h0
    conv_lhs => rw [← List.map_id r.contents]
    apply List.map_congr_left
    intro t ht
    rw [if_neg (hnone t ht), id]
  · rw [Route.contents_computeWeights, Route.contents, Route.contents, List.map_map, List.map_map]
    apply List.map_congr_left
    intro a _
    by_cases hm : weightMatches d a.val = true
    · have hm' : weightMatches d a.val.unweighted = true := hm
      simp only [Function.comp, hm, hm', if_true]
      rfl
    · have hm' : ¬ weightMatches d a.val.unweighted = true := hm
      simp only [Function.comp, hm, hm']
      rfl

/-! ## Buckets -/

omit [WeightArith W] [Platform] in
def routeAt (rs : List (Route W)) (path : String) : Option (Route W) :=
  rs.find? fun r => r.path = path

omit [Platform] in
def contentsOf (rs : List (Route W)) (path : String) : List (Target W) :=
  ((routeAt rs path).map Route.contents).getD []

omit [Platform] in
def contents (t : Table W) (host path : String) : List (Target W) :=
  contentsOf (t.bucket host) path

omit [WeightArith W] [Platform] in
theorem routeAt_cons (r : Route W) (rs : List (Route W)) (path : String) :
    routeAt (r :: rs) path = if r.path = path then some r else routeAt rs path := by
  unfold routeAt
  by_cases h : r.path = path <;> simp [h]

omit [WeightArith W] [Platform] in
theorem routeAt_eq_none {rs : List (Route W)} {path : String} (h : path ∉ rs.map (·.path)) :
    routeAt rs path = none := by
  refine List.find?_eq_none.mpr fun r hr => ?_
  simp only [decide_eq_true_eq]
  rintro rfl
  exact h (List.mem_map_of_mem hr)

omit [WeightArith W] [Platform] in
theorem mem_of_routeAt {rs : List (Route W)} {path : String} {r : Route W}
    (h : routeAt rs path = some r) : r ∈ rs ∧ r.path = path := by
  unfold routeAt at h
  exact ⟨List.mem_of_find?_eq_some h, by simpa using List.find?_some h⟩

omit [WeightArith W] [Platform] in
theorem routeAt_eq_some {rs : List (Route W)} (h : (rs.map (·.path)).Nodup) {r : Route W}
    (hr : r ∈ rs) : routeAt rs r.path = some r := by
  induction rs with
  | nil => cases hr
  | cons q rs ih =>
    rw [List.map_cons, List.nodup_cons] at h
    rw [routeAt_cons]
    rcases List.mem_cons.mp hr with rfl | hmem
    · rw [if_pos rfl]
    · have hne : q.path ≠ r.path := by
        intro he
        exact h.1 (he ▸ List.mem_map_of_mem hmem)
      rw [if_neg hne]
      exact ih h.2 hmem

omit [WeightArith W] [Platform] in
theorem routeAt_map {f : Route W → Route W} (hf : ∀ r, (f r).path = r.path) (rs : List (Route W))
    (path : String) : routeAt (rs.map f) path = (routeAt rs path).map f := by
  induction rs with
  | nil => rfl
  | cons r rs ih =>
    rw [List.map_cons, routeAt_cons, routeAt_cons, ih, hf]
    split <;> rfl

omit [Platform] in
theorem contentsOf_cons (r : Route W) (rs : List (Route W)) (path : String) :
    contentsOf (r :: rs) path = if r.path = path then r.contents else contentsOf rs path := by
  unfold contentsOf
  rw [routeAt_cons]
  split <;> rfl

omit [Platform] in
theorem contentsOf_eq_nil {rs : List (Route W)} {path : String}
    (h : path ∉ rs.map (·.path)) : contentsOf rs path = [] := by
  unfold contentsOf
  rw [routeAt_eq_none h]
  rfl

omit [Platform] in
theorem contentsOf_eq {rs : List (Route W)} (h : (rs.map (·.path)).Nodup) {r : Route W}
    (hr : r ∈ rs) : contentsOf rs r.path = r.contents := by
  rw [contentsOf, routeAt_eq_some h hr]
  rfl

theorem contentsOf_addToBucket (host path : String) (target : Target W) (rr : Ref)
    (rs : List (Route W)) (p : String) :
    contentsOf (addToBucket host path target rr rs) p =
      if path = p then appendNew target (contentsOf rs p) else contentsOf rs p := by
  induction rs with
  | nil =>
    have hnil : contentsOf ([] : List (Route W)) p = [] := rfl
    rw [addToBucket, contentsOf_cons, Route.contents_computeWeights, Route.contents_addTarget, hnil]
    simp [Route.new, Route.contents]
  | cons r rs ih =>
    rw [addToBucket]
    by_cases hr : r.path = path
    · rw [if_pos hr, contentsOf_cons, contentsOf_cons, Route.contents_computeWeights,
        Route.contents_addTarget]
      subst hr
      by_cases hp : r.path = p <;> simp [hp]
    · rw [if_neg hr, contentsOf_cons, contentsOf_cons, ih]
      by_cases hp : r.path = p
      · have hne : ¬ path = p := fun he => hr (hp.trans he.symm)
        simp [hp, hne]
      · simp [hp]

omit [Platform] in
/-- The route after a `del` that looks at it, which is dropped when no target remains. -/
def delFromRoute (d : RouteDef W) (r : Route W) : Option (Route W) :=
  let r := (r.removeTargets d.service d.tags d.delUrl).computeWeights
  if !r.targets.isEmpty then some r else none

omit [Platform] in
theorem contents_delFromRoute (d : RouteDef W) (r : Route W) :
    ((delFromRoute d r).map Route.contents).getD [] =
      r.contents.filter fun u => Route.keepsOnDel d.service d.tags d.delUrl u := by
  rw [← Route.contents_removeTargets, ← Route.contents_computeWeights, delFromRoute]
  generalize (r.removeTargets d.service d.tags d.delUrl).computeWeights = q
  by_cases hq : q.targets = [] <;> simp [hq, Route.contents]

omit [Platform] in
theorem routeAt_delFromBucket (d : RouteDef W) (scope : Option String) {rs : List (Route W)}
    (h : (rs.map (·.path)).Nodup) (path : String) :
    routeAt (delFromBucket d scope rs) path = ((routeAt rs path).map fun r =>
      if scope.all (path == ·) then (r.removeTargets d.service d.tags d.delUrl).computeWeights
      else r).filter fun r => !r.targets.isEmpty := by
  induction rs with
  | nil => rfl
  | cons r rs ih =>
    rw [List.map_cons, List.nodup_cons] at h
    have hpath : (if scope.all (r.path == ·) then
        (r.removeTargets d.service d.tags d.delUrl).computeWeights else r).path = r.path := by
      split
      · simp [Route.removeTargets]
      · rfl
    unfold delFromBucket at ih ⊢
    rw [List.map_cons, List.filter_cons, routeAt_cons]
    by_cases hp : r.path = path
    · subst hp
      rw [if_pos rfl, Option.map_some, Option.filter_some]
      generalize (if scope.all (r.path == ·) then
        (r.removeTargets d.service d.tags d.delUrl).computeWeights else r) = q at hpath ⊢
      split
      · rw [routeAt_cons, if_pos hpath]
      · -- no other route has the path of the one that is dropped
        rw [ih h.2, routeAt_eq_none h.1]
        rfl
    · rw [if_neg hp, ← ih h.2]
      generalize (if scope.all (r.path == ·) then
        (r.removeTargets d.service d.tags d.delUrl).computeWeights else r) = q at hpath ⊢
      split
      · rw [routeAt_cons, hpath, if_neg hp]
      · rfl

omit [Platform] in
theorem routeAt_map_weightRoute (d : RouteDef W) (rs : List (Route W)) (p : String) :
    routeAt (rs.map fun r => if r.path = d.path then weightRoute d r else r) p =
      if d.path = p then (routeAt rs p).map (weightRoute d) else routeAt rs p := by
  have hpath : ∀ r : Route W, (if r.path = d.path then weightRoute d r else r).path = r.path := by
    intro r
    split
    · exact weightRoute_path d r
    · rfl
  rw [routeAt_map hpath]
  cases hr : routeAt rs p with
  | none => simp
  | some r =>
    rw [Option.map_some, (mem_of_routeAt hr).2]
    by_cases hp : d.path = p
    · simp [hp]
    · simp [hp, Ne.symm hp]

omit [Platform] in
theorem contentsOf_map_weightRoute (d : RouteDef W) (rs : List (Route W)) (p : String) :
    contentsOf (rs.map fun r => if r.path = d.path then weightRoute d r else r) p =
      if d.path = p then reweigh d (contentsOf rs p) else contentsOf rs p := by
  unfold contentsOf
  rw [routeAt_map_weightRoute]
  split
  · cases routeAt rs p with
    | none => rfl
    | some r => exact contents_weightRoute d r
  · rfl

/-! ## Tables -/

section Buckets

variable (t : Table W) (d : RouteDef W) (k : String)

theorem bucket_applyAdd (shared : SharedRefs) (rr : Ref) :
    (t.applyAdd shared rr d).bucket k =
      if d.host = k then addToBucket d.host d.path (targetOf shared d) rr (t.bucket k)
      else t.bucket k := by
  unfold bucket applyAdd
  by_cases h : d.host = k
  · subst h
    simp
  · simp [h, AssocMap.lookup_upsert_ne (Ne.symm h)]

omit [Platform] in
theorem bucket_delFromHost :
    (t.delFromHost d).bucket k =
      if d.host = k then delFromBucket d d.delPath (t.bucket k) else t.bucket k := by
  unfold bucket delFromHost
  dsimp only
  by_cases h : d.host = k
  · subst h
    rw [if_pos rfl]
    split
    · next he =>
      rw [AssocMap.lookup_modify_self, Option.any_map] at he
      cases hl : t.routes.lookup d.host with
      | none => simp [hl] at he
      | some rs =>
        have hnil : delFromBucket d d.delPath rs = [] := by simpa [hl] using he
        simp [hnil]
    · rw [AssocMap.lookup_modify_self]
      cases t.routes.lookup d.host <;> simp [delFromBucket]
  · rw [if_neg h]
    split
    · rw [AList.lookup_erase_ne (Ne.symm h), AssocMap.lookup_modify_ne (Ne.symm h)]
    · rw [AssocMap.lookup_modify_ne (Ne.symm h)]

omit [Platform] in
theorem bucket_delFromAll : (t.delFromAll d).bucket k = delFromBucket d none (t.bucket k) := by
  unfold bucket delFromAll
  rw [AssocMap.lookup_retain, AssocMap.lookup_mapVals]
  cases t.routes.lookup k with
  | none => simp [delFromBucket]
  | some rs =>
    by_cases hnil : delFromBucket d none rs = [] <;> simp [hnil, Option.filter]

omit [Platform] in
theorem bucket_applyDel :
    (t.applyDel d).bucket k =
      if d.tags ≠ [] ∧ d.host = "" ∧ d.delPath = none then delFromBucket d none (t.bucket k)
      else if d.host = k then delFromBucket d d.delPath (t.bucket k)
      else t.bucket k := by
  unfold applyDel
  by_cases hall : d.tags ≠ [] ∧ d.host = "" ∧ d.delPath = none
  · obtain ⟨htags, hhost, hpath⟩ := hall
    rw [if_pos htags, if_neg (by simp [hhost, hpath]), if_pos ⟨htags, hhost, hpath⟩,
      bucket_delFromAll]
  · rw [if_neg hall, ← bucket_delFromHost]
    split
    · next htags =>
      have hscope : d.host ≠ "" ∨ d.delPath.isSome := by
        by_contra hnot
        simp only [not_or, not_not, Option.not_isSome_iff_eq_none] at hnot
        exact hall ⟨htags, hnot⟩
      rw [if_pos hscope]
    · rfl

omit [Platform] in
theorem bucket_applyWeight :
    (t.applyWeight d).bucket k =
      if d.host = k then
        (t.bucket k).map fun r => if r.path = d.path then weightRoute d r else r
      else t.bucket k := by
  unfold bucket applyWeight
  by_cases h : d.host = k
  · subst h
    rw [if_pos rfl, AssocMap.lookup_modify_self]
    cases t.routes.lookup d.host <;> simp
  · rw [if_neg h, AssocMap.lookup_modify_ne (Ne.symm h)]

omit [WeightArith W] [Platform] in
theorem bucket_finalize : t.finalize.bucket k = (t.bucket k).insertionSort Route.SortsBefore := by
  unfold bucket
  rw [lookup_finalize]
  cases t.routes.lookup k <;> simp

end Buckets

omit [WeightArith W] in
theorem Ok.bucketOk {t : Table W} (h : t.Ok) (k : String) : BucketOk k (t.bucket k) := by
  unfold bucket
  cases hl : t.routes.lookup k with
  | none => exact ⟨by simp, by simp, by simp⟩
  | some rs => exact h.bucket_ok k rs hl

theorem routeAt_applyDel {t : Table W} (h : t.Ok) (d : RouteDef W) (host path : String) :
    routeAt ((t.applyDel d).bucket host) path =
      if d.delScope host path then (routeAt (t.bucket host) path).bind (delFromRoute d)
      else routeAt (t.bucket host) path := by
  have hbucket := h.bucketOk host
  have hdel : ∀ scope : Option String, routeAt (delFromBucket d scope (t.bucket host)) path =
      if scope.all (path == ·) then (routeAt (t.bucket host) path).bind (delFromRoute d)
      else routeAt (t.bucket host) path := by
    intro scope
    rw [routeAt_delFromBucket d scope hbucket.paths_nodup]
    cases hr : routeAt (t.bucket host) path with
    | none => simp
    | some r =>
      have hne := (hbucket.wellFormed r (List.mem_of_find?_eq_some hr)).targets_ne
      split
      · rw [Option.map_some, Option.filter_some, Option.bind_some, delFromRoute]
      · simp [Option.filter_some, hne]
  rw [bucket_applyDel, RouteDef.delScope]
  split
  · rw [hdel]
    simp
  · by_cases hk : d.host = host
    · rw [if_pos hk, hdel]
      simp [hk]
    · simp [hk]

theorem contents_applyDel {t : Table W} (h : t.Ok) (d : RouteDef W)
    (host path : String) :
    (t.applyDel d).contents host path =
      if d.delScope host path then
        (t.contents host path).filter fun u => Route.keepsOnDel d.service d.tags d.delUrl u
      else t.contents host path := by
  unfold contents contentsOf
  rw [routeAt_applyDel h]
  split
  · cases routeAt (t.bucket host) path with
    | none => rfl
    | some r =>
      rw [Option.bind_some, contents_delFromRoute]
      rfl
  · rfl

theorem contents_applyAdd (t : Table W) (shared : SharedRefs) (rr : Ref) (d : RouteDef W)
    (host path : String) : (t.applyAdd shared rr d).contents host path =
      if d.host = host ∧ d.path = path then appendNew (targetOf shared d) (t.contents host path)
      else t.contents host path := by
  unfold contents
  rw [bucket_applyAdd]
  by_cases hh : d.host = host
  · rw [if_pos hh, contentsOf_addToBucket]
    simp [hh]
  · simp [hh]

/-- A command edits the contents of each route on its own. -/
theorem contents_apply {t : Table W} (h : t.Ok) (shared : SharedRefs) (rr : Ref) (d : RouteDef W)
    (host path : String) :
    (t.apply shared rr d).contents host path =
      editContents shared d host path (t.contents host path) := by
  unfold apply editContents
  cases d.cmd with
  | add => exact contents_applyAdd t shared rr d host path
  | del => exact contents_applyDel h d host path
  | weight =>
    dsimp only
    unfold contents
    rw [bucket_applyWeight]
    by_cases hh : d.host = host
    · rw [if_pos hh, contentsOf_map_weightRoute]
      simp [hh]
    · simp [hh]

theorem contents_finalize {t : Table W} (h : t.Ok) (host path : String) :
    t.finalize.contents host path = t.contents host path := by
  have hperm := List.perm_insertionSort Route.SortsBefore (t.bucket host)
  have hnodup := (h.bucketOk host).paths_nodup
  unfold contents
  rw [bucket_finalize]
  by_cases hp : path ∈ (t.bucket host).map (·.path)
  · obtain ⟨r, hr, rfl⟩ := List.mem_map.mp hp
    rw [contentsOf_eq hnodup hr,
      contentsOf_eq ((hperm.map _).nodup_iff.mpr hnodup) (hperm.mem_iff.mpr hr)]
  · rw [contentsOf_eq_nil hp, contentsOf_eq_nil]
    intro hmem
    exact hp ((hperm.map _).mem_iff.mp hmem)

/-! ## Definitions -/

theorem eraseRefs_unweighted_targetOf (shared : SharedRefs) (d : RouteDef W) :
    (targetOf shared d).unweighted.eraseRefs = (targetOf default d).unweighted := by
  unfold targetOf Target.preParse
  dsimp only
  split <;> rfl

theorem sameBackend_targetOf (e : Target W) (shared : SharedRefs) (d : RouteDef W) :
    Route.sameBackend e (targetOf shared d) =
      (e.service == d.service && e.url == d.dst && WeightArith.eq e.fixedWeight d.weight &&
        e.source == d.source) :=
  Target.map_preParse (fun t => Route.sameBackend e t) (fun _ _ _ _ _ => rfl) _

theorem map_eraseRefs_editContents (shared : SharedRefs) (d : RouteDef W) (host path : String)
    (c : List (Target W)) :
    (editContents shared d host path c).map Target.eraseRefs =
      editContents default d host path (c.map Target.eraseRefs) := by
  unfold editContents
  cases d.cmd with
  | add =>
    dsimp only
    split
    · have hany : (c.map Target.eraseRefs).any (fun e => Route.sameBackend e (targetOf default d)) =
          c.any fun e => Route.sameBackend e (targetOf shared d) := by
        rw [List.any_map]
        apply List.any_congr rfl
        intro e
        rw [Function.comp, sameBackend_targetOf, sameBackend_targetOf]
        rfl
      unfold appendNew
      rw [hany]
      split
      · rfl
      · rw [List.map_append, List.map_singleton, eraseRefs_unweighted_targetOf]
    · rfl
  | del =>
    dsimp only
    split
    · rw [List.filter_map]
      rfl
    · rfl
  | weight =>
    dsimp only
    split
    · unfold reweigh
      have hcount : (c.map Target.eraseRefs).countP (fun t => weightMatches d t) =
          c.countP fun t => weightMatches d t := by
        rw [List.countP_map]
        rfl
      dsimp only
      rw [hcount, List.map_map, List.map_map]
      apply List.map_congr_left
      intro t _
      have hm : weightMatches d t.eraseRefs = weightMatches d t := rfl
      simp only [Function.comp, hm]
      split <;> rfl
    · rfl

theorem Replay.contents_foldl {t t' : Table W} {defs : List (RouteDef W)}
    (hr : Replay t defs t') (h : t.Ok) (host path : String) :
    (t'.contents host path).map Target.eraseRefs =
      defs.foldl (fun c d => editContents default d host path c)
        ((t.contents host path).map Target.eraseRefs) := by
  induction hr with
  | nil => rfl
  | cons shared rr _ ih =>
    rw [ih (ok_apply shared rr _ h), contents_apply h, map_eraseRefs_editContents, List.foldl_cons]

/-- A table built from definitions contains what the definitions mean. -/
theorem Replay.contents_eq {t : Table W} {defs : List (RouteDef W)} (hr : Replay new defs t)
    (host path : String) :
    (t.finalize.contents host path).map Target.eraseRefs = denote defs host path := by
  rw [contents_finalize (hr.ok ok_new), hr.contents_foldl ok_new]
  rfl

/-! ## Where targets come from -/

@[simp] theorem targetOf_url (shared : SharedRefs) (d : RouteDef W) :
    (targetOf shared d).url = d.dst :=
  Target.map_preParse (·.url) (fun _ _ _ _ _ => rfl) _

@[simp] theorem targetOf_toSharedRefs (shared : SharedRefs) (d : RouteDef W) :
    (targetOf shared d).toSharedRefs = shared :=
  Target.map_preParse (·.toSharedRefs) (fun _ _ _ _ _ => rfl) _

@[simp] theorem targetOf_service (shared : SharedRefs) (d : RouteDef W) :
    (targetOf shared d).service = d.service :=
  Target.map_preParse (·.service) (fun _ _ _ _ _ => rfl) _

theorem mem_editContents {shared : SharedRefs} {d : RouteDef W} {host path : String}
    {c : List (Target W)} {u : Target W} (h : u ∈ editContents shared d host path c) :
    (∃ v ∈ c, ∃ w, u = { v with fixedWeight := w }) ∨
      d.cmd = .add ∧ d.host = host ∧ d.path = path ∧ u = (targetOf shared d).unweighted := by
  unfold editContents at h
  cases hcmd : d.cmd with
  | add =>
    rw [hcmd] at h
    dsimp only at h
    split at h
    · next hroute =>
      unfold appendNew at h
      split at h
      · exact Or.inl ⟨u, h, u.fixedWeight, rfl⟩
      · rcases List.mem_append.mp h with h | h
        · exact Or.inl ⟨u, h, u.fixedWeight, rfl⟩
        · exact Or.inr ⟨rfl, hroute.1, hroute.2, List.mem_singleton.mp h⟩
    · exact Or.inl ⟨u, h, u.fixedWeight, rfl⟩
  | del =>
    rw [hcmd] at h
    dsimp only at h
    split at h
    · exact Or.inl ⟨u, (List.mem_filter.mp h).1, u.fixedWeight, rfl⟩
    · exact Or.inl ⟨u, h, u.fixedWeight, rfl⟩
  | weight =>
    rw [hcmd] at h
    dsimp only at h
    split at h
    · obtain ⟨v, hv, rfl⟩ := List.mem_map.mp h
      refine Or.inl ⟨v, hv, ?_⟩
      split
      · exact ⟨_, rfl⟩
      · exact ⟨v.fixedWeight, rfl⟩
    · exact Or.inl ⟨u, h, u.fixedWeight, rfl⟩

theorem mem_foldl_editContents {defs : List (RouteDef W)} {host path : String}
    {c : List (Target W)} {u : Target W}
    (h : u ∈ defs.foldl (fun c d => editContents default d host path c) c) :
    (∃ v ∈ c, ∃ w, u = { v with fixedWeight := w }) ∨
      ∃ d ∈ defs, d.cmd = .add ∧ d.host = host ∧ d.path = path ∧
        ∃ w, u = { (targetOf default d).unweighted with fixedWeight := w } := by
  induction defs generalizing c with
  | nil => exact Or.inl ⟨u, h, u.fixedWeight, rfl⟩
  | cons d ds ih =>
    rcases ih h with ⟨v, hv, w, rfl⟩ | ⟨e, he, hadd⟩
    · rcases mem_editContents hv with ⟨v', hv', w', rfl⟩ | ⟨hcmd, hh, hp, rfl⟩
      · exact Or.inl ⟨v', hv', w, rfl⟩
      · exact Or.inr ⟨d, List.mem_cons_self, hcmd, hh, hp, w, rfl⟩
    · exact Or.inr ⟨e, List.mem_cons_of_mem _ he, hadd⟩

theorem mem_denote {defs : List (RouteDef W)} {host path : String} {u : Target W}
    (h : u ∈ denote defs host path) : ∃ d ∈ defs, d.cmd = .add ∧ d.host = host ∧ d.path = path ∧
      ∃ w, u = { (targetOf default d).unweighted with fixedWeight := w } := by
  rcases mem_foldl_editContents h with ⟨v, hv, -⟩ | hd
  · cases hv
  · exact hd

theorem Ok.contents_of_mem_bucket {t : Table W} (h : t.Ok) {host : String} {r : Route W}
    (hr : r ∈ t.bucket host) : t.contents host r.path = r.contents :=
  contentsOf_eq (h.bucketOk host).paths_nodup hr

theorem Ok.contents_eq {t : Table W} (h : t.Ok) {host : String} {rs : List (Route W)}
    {r : Route W} (hl : t.routes.lookup host = some rs) (hr : r ∈ rs) :
    t.contents host r.path = r.contents :=
  h.contents_of_mem_bucket (by simpa [bucket, hl] using hr)

theorem mem_contents_of_hasTarget {t : Table W} (h : t.Ok) {a : Arc (Target W)}
    (ha : t.HasTarget a) : ∃ host path, a.val.unweighted ∈ t.contents host path := by
  obtain ⟨host, rs, hl, r, hr, ha⟩ := ha
  refine ⟨host, r.path, ?_⟩
  rw [h.contents_eq hl hr]
  exact List.mem_map_of_mem ha

omit [Platform] in
theorem exists_of_mem_contents {t : Table W} {host path : String} {u : Target W}
    (hu : u ∈ t.contents host path) :
    ∃ r ∈ t.bucket host, r.path = path ∧ ∃ a ∈ r.targets, a.val.unweighted = u := by
  unfold contents contentsOf at hu
  cases hf : routeAt (t.bucket host) path with
  | none => simp [hf] at hu
  | some r =>
    rw [hf, Option.map_some, Option.getD_some] at hu
    obtain ⟨a, ha, rfl⟩ := List.mem_map.mp hu
    exact ⟨r, (mem_of_routeAt hf).1, (mem_of_routeAt hf).2, a, ha, rfl⟩

omit [Platform] in
theorem hasTarget_of_mem_contents {t : Table W} {host path : String} {u : Target W}
    (hu : u ∈ t.contents host path) : ∃ a, t.HasTarget a ∧ a.val.unweighted = u := by
  obtain ⟨r, hr, -, a, ha, rfl⟩ := exists_of_mem_contents hu
  unfold bucket at hr
  cases hl : t.routes.lookup host with
  | none => simp [hl] at hr
  | some rs => exact ⟨a, ⟨host, rs, hl, r, by simpa [hl] using hr, ha⟩, rfl⟩

theorem hasTarget_apply_cases {t : Table W} (h : t.Ok) {shared : SharedRefs} {rr : Ref}
    {d : RouteDef W} {a : Arc (Target W)} (ha : (t.apply shared rr d).HasTarget a) :
    (∃ b, t.HasTarget b ∧ ∃ w, a.val.unweighted = { b.val.unweighted with fixedWeight := w }) ∨
      d.cmd = .add ∧ a.val.unweighted = (targetOf shared d).unweighted := by
  obtain ⟨host, path, hmem⟩ := mem_contents_of_hasTarget (ok_apply shared rr d h) ha
  rw [contents_apply h] at hmem
  rcases mem_editContents hmem with ⟨v, hv, w, he⟩ | ⟨hcmd, -, -, he⟩
  · obtain ⟨b, hb, rfl⟩ := hasTarget_of_mem_contents hv
    exact Or.inl ⟨b, hb, w, he⟩
  · exact Or.inr ⟨hcmd, he⟩

/-- A target after a command has the URL and the objects of one that was there before, or those
that were just given out. -/
theorem hasTarget_apply {t : Table W} (h : t.Ok) {shared : SharedRefs} {rr : Ref}
    {d : RouteDef W} {a : Arc (Target W)} (ha : (t.apply shared rr d).HasTarget a) :
    (∃ b, t.HasTarget b ∧ a.val.url = b.val.url ∧ a.val.toSharedRefs = b.val.toSharedRefs) ∨
      d.cmd = .add ∧ a.val.url = d.dst ∧ a.val.toSharedRefs = shared := by
  have hurl : a.val.unweighted.url = a.val.url := rfl
  have hrefs : a.val.unweighted.toSharedRefs = a.val.toSharedRefs := rfl
  rcases hasTarget_apply_cases h ha with ⟨b, hb, w, he⟩ | ⟨hcmd, he⟩
  · rw [he] at hurl hrefs
    exact Or.inl ⟨b, hb, hurl.symm, hrefs.symm⟩
  · rw [he] at hurl hrefs
    exact Or.inr ⟨hcmd, hurl.symm.trans (targetOf_url shared d),
      hrefs.symm.trans (targetOf_toSharedRefs shared d)⟩

omit [WeightArith W] [Platform] in
theorem hasTarget_finalize {t : Table W} {a : Arc (Target W)} :
    t.finalize.HasTarget a ↔ t.HasTarget a := by
  unfold HasTarget
  constructor
  · rintro ⟨host, rs, hl, r, hr, ha⟩
    rw [lookup_finalize, Option.map_eq_some_iff] at hl
    obtain ⟨rs', hl, rfl⟩ := hl
    exact ⟨host, rs', hl, r, (List.mem_insertionSort _).mp hr, ha⟩
  · rintro ⟨host, rs, hl, r, hr, ha⟩
    refine ⟨host, _, ?_, r, (List.mem_insertionSort Route.SortsBefore).mpr hr, ha⟩
    rw [lookup_finalize, hl, Option.map_some]

end Table

end SentirumLb
