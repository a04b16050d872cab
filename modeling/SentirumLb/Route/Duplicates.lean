import SentirumLb.Route.Deletion

/-! # What counts as a duplicate

An `add` is dropped when its route has a target of the same service, URL, fixed
weight and source. Tags and options are not compared, so a definition that
differs in them alone never comes into force. A `weight` rewrites one of the
fields that are compared, so it can make two targets alike that were not.
-/

namespace SentirumLb

variable {W : Type} [WeightArith W]

/-! ## Definitions that take effect -/

structure RouteDef.InForce (d : RouteDef W) (u : Target W) : Prop where
  service : u.service = d.service
  url : u.url = d.dst
  tags : u.tags = d.tags
  opts : ∀ name, u.opts.lookup name = d.opts.lookup name

/-- The target agrees with the definition on what an `add` compares. -/
structure RouteDef.Present (d : RouteDef W) (u : Target W) : Prop where
  service : u.service = d.service
  url : u.url = d.dst
  weight : WeightArith.eq u.fixedWeight d.weight = true
  source : u.source = d.source

theorem RouteDef.inForce_unweighted (d : RouteDef W) (u : Target W) :
    d.InForce u.unweighted ↔ d.InForce u :=
  ⟨fun h => ⟨h.service, h.url, h.tags, h.opts⟩, fun h => ⟨h.service, h.url, h.tags, h.opts⟩⟩

theorem RouteDef.present_unweighted (d : RouteDef W) (u : Target W) :
    d.Present u.unweighted ↔ d.Present u :=
  ⟨fun h => ⟨h.service, h.url, h.weight, h.source⟩,
    fun h => ⟨h.service, h.url, h.weight, h.source⟩⟩

namespace Table

/-- The definition is in force in the route that it addresses. -/
def TakesEffect (d : RouteDef W) (t : Table W) : Prop :=
  ∃ r, routeAt (t.bucket d.host) d.path = some r ∧ ∃ a ∈ r.targets, d.InForce a.val

theorem exists_mem_contents_iff {t : Table W} {host path : String} {P : Target W → Prop}
    (hP : ∀ u, P u.unweighted ↔ P u) :
    (∃ u ∈ t.contents host path, P u) ↔
      ∃ r, routeAt (t.bucket host) path = some r ∧ ∃ a ∈ r.targets, P a.val := by
  unfold contents contentsOf
  cases routeAt (t.bucket host) path with
  | none => simp
  | some r => simp [Route.contents, hP]

theorem takesEffect_iff {d : RouteDef W} {t : Table W} :
    TakesEffect d t ↔ ∃ u ∈ t.contents d.host d.path, d.InForce u :=
  (exists_mem_contents_iff d.inForce_unweighted).symm

section Adding

variable [Platform] {d : RouteDef W}

theorem sameBackend_targetOf_iff {u : Target W} (shared : SharedRefs) :
    Route.sameBackend u (targetOf shared d) = true ↔ d.Present u := by
  rw [sameBackend_targetOf]
  simp only [Bool.and_eq_true, beq_iff_eq]
  exact ⟨fun ⟨⟨⟨hs, hu⟩, hw⟩, hsrc⟩ => ⟨hs, hu, hw, hsrc⟩,
    fun h => ⟨⟨⟨h.service, h.url⟩, h.weight⟩, h.source⟩⟩

theorem inForce_targetOf (shared : SharedRefs) : d.InForce (targetOf shared d) where
  service := targetOf_service shared d
  url := targetOf_url shared d
  tags := Target.map_preParse (·.tags) (fun _ _ _ _ _ => rfl) _
  opts name := Target.map_preParse (·.opts.lookup name) (fun _ _ _ _ _ => rfl) _

/-- An `add` takes effect exactly when nothing of the same service, URL, weight and source is in
its route, or when its tags and options are in force there already. -/
theorem takesEffect_apply_iff (t : Table W) (hcmd : d.cmd = .add) (shared : SharedRefs) (rr : Ref) :
    TakesEffect d (t.apply shared rr d) ↔
      (∀ r, routeAt (t.bucket d.host) d.path = some r → ∀ a ∈ r.targets, ¬ d.Present a.val) ∨
        TakesEffect d t := by
  have happly : t.apply shared rr d = t.applyAdd shared rr d := by
    rw [apply, hcmd]
  have habsent : (∀ r, routeAt (t.bucket d.host) d.path = some r →
      ∀ a ∈ r.targets, ¬ d.Present a.val) ↔ ¬ ∃ u ∈ t.contents d.host d.path, d.Present u := by
    rw [exists_mem_contents_iff d.present_unweighted]
    push Not
    rfl
  have hany : ((t.contents d.host d.path).any fun u => Route.sameBackend u (targetOf shared d)) =
      true ↔ ∃ u ∈ t.contents d.host d.path, d.Present u := by
    simp only [List.any_eq_true, sameBackend_targetOf_iff]
  rw [habsent, takesEffect_iff, takesEffect_iff, happly, contents_applyAdd, if_pos ⟨rfl, rfl⟩,
    appendNew]
  split
  · next h => simp [hany.mp h]
  · next h =>
    have hnew : ∃ u ∈ t.contents d.host d.path ++ [(targetOf shared d).unweighted], d.InForce u :=
      ⟨_, by simp, (d.inForce_unweighted _).mpr (inForce_targetOf shared)⟩
    exact iff_of_true hnew (Or.inl (mt hany.mpr h))

end Adding

/-! ## Targets that become alike -/

/-- No two targets of one route agree on what an `add` compares. -/
def Unrepeated (t : Table W) : Prop :=
  ∀ host, ∀ r ∈ t.bucket host, r.targets.Pairwise fun a b => ¬ Route.sameBackend a.val b.val = true

/-- Two targets of the route of a `weight`, of which it gives the matching ones this share, do not
get the same fixed weight from it. -/
structure KeepsApart (d : RouteDef W) (share : W) (a b : Target W) : Prop where
  both : weightMatches d a = true → weightMatches d b = true → ¬ WeightArith.eq share share = true
  left : weightMatches d a = true → ¬ weightMatches d b = true →
    ¬ WeightArith.eq share b.fixedWeight = true
  right : ¬ weightMatches d a = true → weightMatches d b = true →
    ¬ WeightArith.eq a.fixedWeight share = true

/-- A `weight` keeps apart the targets of one service, URL and source in its route. -/
def WeightKeepsApart (d : RouteDef W) (t : Table W) : Prop :=
  ∀ r, routeAt (t.bucket d.host) d.path = some r → r.targets.Pairwise fun a b =>
    a.val.service = b.val.service → a.val.url = b.val.url → a.val.source = b.val.source →
      KeepsApart d (d.weight / ((r.targets.countP fun a => weightMatches d a.val : ℕ) : W))
        a.val b.val

theorem sameBackend_iff {a b : Target W} : Route.sameBackend a b = true ↔
    a.service = b.service ∧ a.url = b.url ∧ a.source = b.source ∧
      WeightArith.eq a.fixedWeight b.fixedWeight = true := by
  unfold Route.sameBackend
  simp only [Bool.and_eq_true, beq_iff_eq]
  tauto

/-- Two targets that an `add` tells apart stay so exactly when the share keeps them apart. -/
theorem not_sameBackend_reweighed_iff {d : RouteDef W} {share : W} {a b : Target W}
    (h : ¬ Route.sameBackend a b = true) :
    ¬ Route.sameBackend (if weightMatches d a then { a with fixedWeight := share } else a)
        (if weightMatches d b then { b with fixedWeight := share } else b) = true ↔
      (a.service = b.service → a.url = b.url → a.source = b.source → KeepsApart d share a b) := by
  rw [sameBackend_iff] at h ⊢
  by_cases ha : weightMatches d a = true <;> by_cases hb : weightMatches d b = true
  all_goals simp only [ha, hb, if_true, if_false, Bool.false_eq_true]
  · exact ⟨fun hne hs hu hsrc =>
      ⟨fun _ _ heq => hne ⟨hs, hu, hsrc, heq⟩, fun _ hn => absurd hb hn, fun hn => absurd ha hn⟩,
      fun hk ⟨hs, hu, hsrc, heq⟩ => (hk hs hu hsrc).both ha hb heq⟩
  · exact ⟨fun hne hs hu hsrc =>
      ⟨fun _ hn => absurd hn hb, fun _ _ heq => hne ⟨hs, hu, hsrc, heq⟩, fun hn => absurd ha hn⟩,
      fun hk ⟨hs, hu, hsrc, heq⟩ => (hk hs hu hsrc).left ha hb heq⟩
  · exact ⟨fun hne hs hu hsrc =>
      ⟨fun hn => absurd hn ha, fun hn => absurd hn ha, fun _ _ heq => hne ⟨hs, hu, hsrc, heq⟩⟩,
      fun hk ⟨hs, hu, hsrc, heq⟩ => (hk hs hu hsrc).right ha hb heq⟩
  · exact ⟨fun _ _ _ _ =>
      ⟨fun hn => absurd hn ha, fun hn => absurd hn ha, fun _ hn => absurd hn hb⟩, fun _ => h⟩

theorem pairwise_reweigh_iff {d : RouteDef W} {c : List (Target W)}
    (h : c.Pairwise fun a b => ¬ Route.sameBackend a b = true) :
    ((reweigh d c).Pairwise fun a b => ¬ Route.sameBackend a b = true) ↔
      c.Pairwise fun a b => a.service = b.service → a.url = b.url → a.source = b.source →
        KeepsApart d (d.weight / ((c.countP fun u => weightMatches d u : ℕ) : W)) a b := by
  unfold reweigh
  dsimp only
  rw [List.pairwise_map]
  constructor
  · exact fun hne => (h.and hne).imp fun hab => (not_sameBackend_reweighed_iff hab.1).mp hab.2
  · exact fun hk => (h.and hk).imp fun hab => (not_sameBackend_reweighed_iff hab.1).mpr hab.2

theorem pairwise_appendNew {t : Target W} {c : List (Target W)}
    (h : c.Pairwise fun a b => ¬ Route.sameBackend a b = true) :
    (appendNew t c).Pairwise fun a b => ¬ Route.sameBackend a b = true := by
  unfold appendNew
  split
  · exact h
  · next hnew =>
    rw [List.any_eq_true, not_exists] at hnew
    refine List.pairwise_append.mpr ⟨h, List.pairwise_singleton _ _, fun a ha b hb hsame => ?_⟩
    rw [List.mem_singleton.mp hb] at hsame
    exact hnew a ⟨ha, hsame⟩

theorem weightKeepsApart_iff {d : RouteDef W} {t : Table W} : WeightKeepsApart d t ↔
    (t.contents d.host d.path).Pairwise fun a b =>
      a.service = b.service → a.url = b.url → a.source = b.source →
        KeepsApart d (d.weight /
          (((t.contents d.host d.path).countP fun u => weightMatches d u : ℕ) : W)) a b := by
  unfold WeightKeepsApart contents contentsOf
  cases routeAt (t.bucket d.host) d.path with
  | none => simp
  | some r =>
    simp only [Option.some.injEq, forall_eq', Option.map_some, Option.getD_some, countP_contents]
    rw [Route.contents, List.pairwise_map]
    have hkeeps : ∀ (share : W) (a b : Target W),
        KeepsApart d share a.unweighted b.unweighted ↔ KeepsApart d share a b := fun share a b =>
      ⟨fun h => ⟨h.both, h.left, h.right⟩, fun h => ⟨h.both, h.left, h.right⟩⟩
    simp only [hkeeps]
    rfl

section Runs

variable [Platform]

theorem unrepeated_iff {t : Table W} (h : t.Ok) : t.Unrepeated ↔
    ∀ host path, (t.contents host path).Pairwise fun a b => ¬ Route.sameBackend a b = true := by
  constructor
  · intro hall host path
    unfold contents contentsOf
    cases hroute : routeAt (t.bucket host) path with
    | none => exact .nil
    | some r => exact List.pairwise_map.mpr (hall host r (mem_of_routeAt hroute).1)
  · intro hall host r hr
    have hcontents := hall host r.path
    rw [h.contents_of_mem_bucket hr] at hcontents
    exact List.pairwise_map.mp hcontents

/-- A command leaves no two targets alike exactly when it is no `weight` that makes them so. -/
theorem unrepeated_apply_iff {t : Table W} (hok : t.Ok) (h : t.Unrepeated) (shared : SharedRefs)
    (rr : Ref) (d : RouteDef W) :
    (t.apply shared rr d).Unrepeated ↔ (d.cmd = .weight → WeightKeepsApart d t) := by
  rw [unrepeated_iff hok] at h
  rw [unrepeated_iff (ok_apply shared rr d hok)]
  simp only [contents_apply hok]
  unfold editContents
  cases d.cmd with
  | add =>
    refine iff_of_true (fun host path => ?_) nofun
    dsimp only
    split
    · exact pairwise_appendNew (h host path)
    · exact h host path
  | del =>
    refine iff_of_true (fun host path => ?_) nofun
    dsimp only
    split
    · exact (h host path).filter _
    · exact h host path
  | weight =>
    rw [weightKeepsApart_iff, ← pairwise_reweigh_iff (h d.host d.path)]
    constructor
    · intro hall _
      have hown := hall d.host d.path
      dsimp only at hown
      rwa [if_pos (And.intro rfl rfl)] at hown
    · intro hown host path
      dsimp only
      split
      · next hroute =>
        rw [← hroute.1, ← hroute.2]
        exact hown rfl
      · exact h host path

omit [Platform] in
theorem unrepeated_new : (new : Table W).Unrepeated := by
  intro host r hr
  simp [bucket, new] at hr

theorem Replay.concat_iff {t t' : Table W} {ds : List (RouteDef W)} {d : RouteDef W} :
    Replay t (ds ++ [d]) t' ↔
      ∃ s shared rr, Replay t ds s ∧ t' = s.apply shared rr d := by
  constructor
  · intro h
    induction ds generalizing t with
    | nil =>
      cases h with
      | cons shared rr hnil =>
        cases hnil
        exact ⟨t, shared, rr, .nil t, rfl⟩
    | cons e ds ih =>
      cases h with
      | cons shared rr hrest =>
        obtain ⟨s, sh, r, hs, rfl⟩ := ih hrest
        exact ⟨s, sh, r, .cons shared rr hs, rfl⟩
  · rintro ⟨s, shared, rr, hs, rfl⟩
    induction hs with
    | nil t => exact .cons shared rr (.nil _)
    | cons sh r _ ih => exact .cons sh r ih

/-- No table on the way has two targets alike exactly when every `weight` keeps the targets of its
route apart. -/
theorem unrepeated_run_iff (defs : List (RouteDef W)) :
    (∀ pre t, pre <+: defs → Replay new pre t → t.Unrepeated) ↔
      ∀ pre d t, pre ++ [d] <+: defs → d.cmd = .weight → Replay new pre t →
        WeightKeepsApart d t := by
  constructor
  · intro hall pre d t hpre hcmd hr
    have hbefore := hall pre t ((List.prefix_append pre [d]).trans hpre) hr
    have hafter := hall (pre ++ [d]) (t.apply default 0 d) hpre
      (Replay.concat_iff.mpr ⟨t, default, 0, hr, rfl⟩)
    exact (unrepeated_apply_iff (hr.ok ok_new) hbefore default 0 d).mp hafter hcmd
  · intro hkeeps pre
    induction pre using List.reverseRecOn with
    | nil =>
      rintro t - hr
      cases hr
      exact unrepeated_new
    | append_singleton pre d ih =>
      intro t hpre hr
      obtain ⟨s, shared, rr, hs, rfl⟩ := Replay.concat_iff.mp hr
      have hbefore := ih s ((List.prefix_append pre [d]).trans hpre) hs
      exact (unrepeated_apply_iff (hs.ok ok_new) hbefore shared rr d).mpr fun hcmd =>
        hkeeps pre d s hpre hcmd hs

end Runs

section Examples

attribute [local instance] Platform.plain

def addCanary : RouteDef ℚ :=
  { addWeb with opts := (∅ : Opts).insert "header" "x-version:v2" }

/-- The definition that differs in its options is accepted and dropped. -/
theorem not_takesEffect_addCanary :
    Replay new [addWeb] webTable ∧ addCanary.cmd = .add ∧
      ¬ TakesEffect addCanary (webTable.apply default 0 addCanary) := by
  have hopts : ∀ r ∈ (webTable.apply default 0 addCanary).bucket addCanary.host,
      ∀ a ∈ r.targets, a.val.opts.lookup "header" = none := by
    decide +kernel
  refine ⟨replay_webTable, rfl, ?_⟩
  rintro ⟨r, hr, a, ha, hforce⟩
  have hheader := hforce.opts "header"
  rw [hopts r (mem_of_routeAt hr).1 a ha] at hheader
  exact absurd hheader (by decide)

/-- A definition of another service takes effect. -/
theorem takesEffect_addOther :
    TakesEffect { addWeb with service := "other" }
      (webTable.apply default 0 { addWeb with service := "other" }) := by
  refine (takesEffect_apply_iff webTable rfl default 0).mpr (Or.inl fun r hr a ha hpresent => ?_)
  have hservice : ∀ r ∈ webTable.bucket "a.example", ∀ a ∈ r.targets, a.val.service ≠ "other" := by
    decide +kernel
  exact hservice r (mem_of_routeAt hr).1 a ha hpresent.service

def weighedTwice : List (RouteDef ℚ) :=
  [{ addWeb with weight := 1 / 5 }, { addWeb with weight := 3 / 10 },
    { addWeb with cmd := .weight, weight := 1 / 2 }]

/-- Both targets end up with the fixed weight `1 / 4`. -/
theorem not_unrepeated_weighedTwice :
    ∃ t, Replay new weighedTwice t ∧ ¬ t.Unrepeated := by
  refine ⟨weighedTwice.foldl (fun t d => t.apply default 0 d) new,
    .cons default 0 (.cons default 0 (.cons default 0 (.nil _))), fun h => ?_⟩
  have halike : ∃ r ∈ (weighedTwice.foldl (fun t d => t.apply default 0 d) new).bucket "a.example",
      ¬ r.targets.Pairwise fun a b => ¬ Route.sameBackend a.val b.val = true := by
    decide +kernel
  obtain ⟨r, hr, hnot⟩ := halike
  exact hnot (h "a.example" r hr)

end Examples

end Table

end SentirumLb
