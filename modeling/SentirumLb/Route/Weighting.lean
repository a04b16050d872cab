import SentirumLb.Route.Deletion

/-! # What a `weight` changes

A `weight` gives each target that it matches an equal share of its weight. It
counts the matching targets first and rewrites them in a second pass with the
same test, so the shares add up to the weight. The computed weights and the
slots of the route follow, and nothing else in the table does.
-/

namespace SentirumLb

variable {W : Type}

namespace Table

theorem weightMatches_iff {d : RouteDef W} {u : Target W} : weightMatches d u = true ↔
    (d.service ≠ "" → u.service = d.service) ∧ ∀ tag ∈ d.tags, tag ∈ u.tags := by
  have hservice : (d.service.isEmpty || u.service == d.service) = true ↔
      (d.service ≠ "" → u.service = d.service) := by
    by_cases hs : d.service = "" <;> simp [hs]
  have htags : (d.tags.isEmpty || d.tags.all (u.tags.contains ·)) = true ↔
      ∀ tag ∈ d.tags, tag ∈ u.tags := by
    simp only [Bool.or_eq_true, List.isEmpty_iff, List.all_eq_true, List.contains_iff_mem]
    constructor
    · rintro (hnil | hall) tag htag
      · rw [hnil] at htag
        cases htag
      · exact hall tag htag
    · exact Or.inr
  rw [weightMatches, Bool.and_eq_true, hservice, htags]

section Frame

variable [WeightArith W] {d : RouteDef W}

theorem routeAt_applyWeight (t : Table W) (host path : String) :
    routeAt ((t.applyWeight d).bucket host) path =
      if d.host = host ∧ d.path = path then (routeAt (t.bucket host) path).map (weightRoute d)
      else routeAt (t.bucket host) path := by
  rw [bucket_applyWeight]
  by_cases hh : d.host = host
  · rw [if_pos hh, routeAt_map_weightRoute]
    simp [hh]
  · simp [hh]

theorem map_path_applyWeight (t : Table W) (host : String) :
    ((t.applyWeight d).bucket host).map (·.path) = (t.bucket host).map (·.path) := by
  rw [bucket_applyWeight]
  split
  · exact map_path_weightRoute d (fun r => r.path = d.path) _
  · rfl

theorem weightRoute_eq_self {r : Route W}
    (h : ∀ a ∈ r.targets, ¬ weightMatches d a.val = true) : weightRoute d r = r := by
  have hzero : (r.targets.countP fun a => weightMatches d a.val) = 0 := List.countP_eq_zero.mpr h
  rw [weightRoute, if_pos hzero]

theorem weightRoute_eq (r : Route W) : weightRoute d r =
    { r with targets := (weightRoute d r).targets, wTargets := (weightRoute d r).wTargets } := by
  unfold weightRoute
  dsimp only
  split
  · rfl
  · unfold Route.computeWeights
    dsimp only
    split <;> rfl

variable [Platform]

theorem applyWeight_eq_self_iff {t : Table W} (hok : t.Ok) : t.applyWeight d = t ↔
    ∀ r, routeAt (t.bucket d.host) d.path = some r → weightRoute d r = r := by
  constructor
  · intro h r hr
    have hroute := routeAt_applyWeight (d := d) t d.host d.path
    rw [h, if_pos ⟨rfl, rfl⟩, hr, Option.map_some, Option.some.injEq] at hroute
    exact hroute.symm
  · intro h
    have hroutes : t.routes.modify d.host (fun rs =>
        rs.map fun r => if r.path = d.path then weightRoute d r else r) = t.routes := by
      refine AssocMap.modify_eq_self fun rs hl => ?_
      have hbucket : t.bucket d.host = rs := by
        rw [bucket, hl, Option.getD_some]
      have hnodup := (hok.bucketOk d.host).paths_nodup
      rw [hbucket] at h hnodup
      conv_rhs => rw [← List.map_id rs]
      apply List.map_congr_left
      intro r hr
      split
      · next hp => exact h r (hp ▸ routeAt_eq_some hnodup hr)
      · rfl
    rw [applyWeight, hroutes]

theorem applyWeight_eq_self {t : Table W} (hok : t.Ok)
    (h : ∀ r, routeAt (t.bucket d.host) d.path = some r →
      ∀ a ∈ r.targets, ¬ weightMatches d a.val = true) : t.applyWeight d = t :=
  (applyWeight_eq_self_iff hok).mpr fun r hr => weightRoute_eq_self (h r hr)

end Frame

/-! ## Shares -/

/-- The targets before and after differ in the fixed weights of those that match, which are given
equal shares, and in the weights computed from the fixed ones. -/
structure Shares (d : RouteDef ℚ) (r r' : Route ℚ) : Prop where
  targets : List.Forall₂ (fun a b : Arc (Target ℚ) => b.val.unweighted =
    { a.val.unweighted with
      fixedWeight :=
        if weightMatches d a.val then
          d.weight / ((r.targets.countP fun a => weightMatches d a.val : ℕ) : ℚ)
        else a.val.fixedWeight }) r.targets r'.targets
  sum_eq : (∃ a ∈ r.targets, weightMatches d a.val = true) →
    ((r'.targets.filter fun b => weightMatches d b.val).map (·.val.fixedWeight)).sum = d.weight
  frame : r' = { r with targets := r'.targets, wTargets := r'.wTargets }

/-- The shares of the matching targets add up to the weight. -/
theorem sum_reweigh {d : RouteDef ℚ} {c : List (Target ℚ)}
    (h : ∃ u ∈ c, weightMatches d u = true) :
    (((reweigh d c).filter fun u => weightMatches d u).map (·.fixedWeight)).sum = d.weight := by
  have hpos : 0 < c.countP fun u => weightMatches d u := List.countP_pos_iff.mpr h
  have hfilter : ((reweigh d c).filter fun u => weightMatches d u).map (·.fixedWeight) =
      (c.filter fun u => weightMatches d u).map fun _ =>
        d.weight / ((c.countP fun u => weightMatches d u : ℕ) : ℚ) := by
    unfold reweigh
    dsimp only
    rw [List.filter_map, List.map_map]
    have hmatch : ∀ u ∈ c, ((fun u => weightMatches d u) ∘ fun u =>
        if weightMatches d u then
          { u with fixedWeight := d.weight / ((c.countP fun u => weightMatches d u : ℕ) : ℚ) }
        else u) u = weightMatches d u := by
      intro u _
      simp only [Function.comp]
      split <;> rfl
    rw [List.filter_congr hmatch]
    apply List.map_congr_left
    intro u hu
    rw [Function.comp, if_pos (List.mem_filter.mp hu).2]
  rw [hfilter, List.map_const', List.sum_replicate, ← List.countP_eq_length_filter, nsmul_eq_mul]
  exact mul_div_cancel₀ _ (by exact_mod_cast hpos.ne')

theorem shares_weightRoute (d : RouteDef ℚ) (r : Route ℚ) : Shares d r (weightRoute d r) := by
  have hcontents := contents_weightRoute d r
  refine ⟨?_, ?_, weightRoute_eq r⟩
  · unfold reweigh at hcontents
    dsimp only at hcontents
    rw [countP_contents, Route.contents, Route.contents, List.map_map, ← List.forall₂_eq_eq_eq,
      List.forall₂_map_left_iff, List.forall₂_map_right_iff] at hcontents
    refine hcontents.flip.imp fun a b hb => ?_
    have hm : weightMatches d a.val.unweighted = weightMatches d a.val := rfl
    rw [hb, Function.comp, hm]
    split <;> rfl
  · rintro ⟨a, ha, hm⟩
    have hmatch : ∃ u ∈ r.contents, weightMatches d u = true :=
      ⟨a.val.unweighted, List.mem_map_of_mem ha, hm⟩
    have hsum := sum_reweigh hmatch
    rw [← hcontents, Route.contents, List.filter_map, List.map_map] at hsum
    exact hsum

/-- The command splits its weight over the matching targets of its route, and changes nothing
else. -/
structure SplitsOnly (d : RouteDef ℚ) (t t' : Table ℚ) : Prop where
  own : ∀ r, routeAt (t.bucket d.host) d.path = some r →
    ∃ r', routeAt (t'.bucket d.host) d.path = some r' ∧ Shares d r r'
  others : ∀ host path, (host, path) ≠ (d.host, d.path) →
    routeAt (t'.bucket host) path = routeAt (t.bucket host) path
  hosts : t'.routes.keys = t.routes.keys
  paths : ∀ host, (t'.bucket host).map (·.path) = (t.bucket host).map (·.path)
  cache : t'.allTargetsCache = t.allTargetsCache
  unmatched : (∀ r, routeAt (t.bucket d.host) d.path = some r →
    ∀ a ∈ r.targets, ¬ weightMatches d a.val = true) → t' = t
  absent : routeAt (t.bucket d.host) d.path = none → t' = t

section Command

variable [Platform]

/-- In every table that commands lead to, a `weight` splits exactly and touches nothing else. -/
theorem splitsOnly_apply {t : Table ℚ} {defs : List (RouteDef ℚ)} (hr : Replay new defs t)
    {d : RouteDef ℚ} (hcmd : d.cmd = .weight) (shared : SharedRefs) (rr : Ref) :
    SplitsOnly d t (t.apply shared rr d) := by
  have hok : t.Ok := hr.ok ok_new
  have happly : t.apply shared rr d = t.applyWeight d := by
    rw [apply, hcmd]
  rw [happly]
  constructor
  case own =>
    intro r hroute
    refine ⟨weightRoute d r, ?_, shares_weightRoute d r⟩
    rw [routeAt_applyWeight, if_pos ⟨rfl, rfl⟩, hroute, Option.map_some]
  case others =>
    intro host path hne
    rw [routeAt_applyWeight, if_neg]
    rintro ⟨rfl, rfl⟩
    exact hne rfl
  case hosts => exact AssocMap.keys_modify _ _ _
  case paths => exact map_path_applyWeight t
  case cache => rfl
  case unmatched => exact applyWeight_eq_self hok
  case absent =>
    intro hnone
    refine applyWeight_eq_self hok fun r hroute => ?_
    rw [hnone] at hroute
    cases hroute

end Command

section Examples

attribute [local instance] Platform.plain

def blueDefs : List (RouteDef ℚ) :=
  [{ addWeb with service := "svc-a", tags := ["blue"] },
    { addWeb with service := "svc-b", tags := ["blue"], dst := "http://10.0.0.2:80/" }]

def weightBlue : RouteDef ℚ :=
  { exampleDef .static .weight "" "" with src := "a.example/", weight := 3 / 5, tags := ["blue"] }

def blueTable : Table ℚ := blueDefs.foldl (fun t d => t.apply default 0 d) new

theorem replay_blueTable : Replay new blueDefs blueTable :=
  .cons default 0 (.cons default 0 (.nil _))

/-- Each of two targets gets half of the weight. -/
theorem splitsOnly_weightBlue :
    SplitsOnly weightBlue blueTable (blueTable.apply default 0 weightBlue) ∧
      ((blueTable.apply default 0 weightBlue).contents "a.example" "/").map (·.fixedWeight) =
        [3 / 10, 3 / 10] :=
  ⟨splitsOnly_apply replay_blueTable rfl default 0, by decide +kernel⟩

end Examples

end Table

end SentirumLb
