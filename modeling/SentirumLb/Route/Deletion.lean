import SentirumLb.Route.Contents

/-! # What a `del` removes

A `del` names targets by service, tags and URL, and routes by its source. It
does not find its routes the way an `add` does: a source without a path stands
for all paths of its host, and no source at all stands for the bucket without
host, or for every bucket when tags are given.
-/

namespace SentirumLb

variable {W : Type}

namespace RouteDef

/-- The target meets what the `del` asks of targets, as far as it is given. -/
structure Matches (d : RouteDef W) (u : Target W) : Prop where
  service : d.service ≠ "" → u.service = d.service
  tags : ∀ tag ∈ d.tags, tag ∈ u.tags
  url : d.dst ≠ "" → u.url = d.dst

structure Selects (d : RouteDef W) (host path : String) (u : Target W) : Prop
    extends d.Matches u where
  host : d.src ≠ "" → host = d.host
  path : d.srcPath ≠ "" → path = d.path

theorem keepsOnDel_iff {d : RouteDef W} {u : Target W} :
    Route.keepsOnDel d.service d.tags d.delUrl u = true ↔ ¬ d.Matches u := by
  have hservice : (!d.service.isEmpty && u.service != d.service) = true ↔
      ¬ (d.service ≠ "" → u.service = d.service) := by
    simp
  have htags : (!d.tags.isEmpty && !d.tags.all (u.tags.contains ·)) = true ↔
      ¬ ∀ tag ∈ d.tags, tag ∈ u.tags := by
    simp only [Bool.and_eq_true, Bool.not_eq_true', List.all_eq_false, List.contains_iff_mem]
    constructor
    · rintro ⟨-, tag, htag, hnot⟩ hall
      exact hnot (hall tag htag)
    · intro hnot
      push Not at hnot
      obtain ⟨tag, htag, hnot⟩ := hnot
      exact ⟨by simpa using List.ne_nil_of_mem htag, tag, htag, by simpa using hnot⟩
  unfold Route.keepsOnDel
  split
  · next h => exact iff_of_true rfl fun hm => hservice.mp h hm.service
  · next hs =>
    split
    · next h => exact iff_of_true rfl fun hm => htags.mp h hm.tags
    · next ht =>
      have hrest : d.Matches u ↔ (d.dst ≠ "" → u.url = d.dst) := by
        have hservice' : d.service ≠ "" → u.service = d.service := by
          simpa using mt hservice.mpr hs
        have htags' : ∀ tag ∈ d.tags, tag ∈ u.tags := by
          simpa using mt htags.mpr ht
        exact ⟨Matches.url, fun hurl => ⟨hservice', htags', hurl⟩⟩
      rw [hrest, delUrl]
      by_cases hdst : d.dst = "" <;> simp [hdst]

theorem delPath_of_srcPath_eq {d : RouteDef W} (h : d.srcPath = "") : d.delPath = none := if_pos h

theorem delPath_of_srcPath_ne {d : RouteDef W} (h : d.srcPath ≠ "") : d.delPath = some d.path := by
  rw [delPath, path, if_neg h, if_neg h]

/-- A `del` without a source path looks at the routes of its host, and with tags but without a
host at all routes. -/
theorem delScope_of_srcPath_eq {d : RouteDef W} (h : d.srcPath = "") {host path : String} :
    d.delScope host path = true ↔ host = d.host ∨ d.host = "" ∧ d.tags ≠ [] := by
  unfold delScope
  by_cases hall : d.tags ≠ [] ∧ d.host = ""
  · simp [hall, delPath_of_srcPath_eq h]
  · rw [if_neg fun h' => hall ⟨h'.1, h'.2.1⟩]
    simp only [delPath_of_srcPath_eq h, Option.all_none, Bool.and_true, beq_iff_eq]
    constructor
    · exact fun he => Or.inl he.symm
    · exact fun he => he.elim Eq.symm fun h' => absurd h'.symm hall

/-- With a source path it looks at the route that an `add` with the source extends. -/
theorem delScope_of_srcPath_ne {d : RouteDef W} (h : d.srcPath ≠ "") {host path : String} :
    d.delScope host path = true ↔ host = d.host ∧ path = d.path := by
  unfold delScope
  rw [if_neg (by simp [delPath_of_srcPath_ne h]), eq_comm (a := host)]
  simp [delPath_of_srcPath_ne h]

theorem host_of_src_eq {d : RouteDef W} (h : d.src = "") : d.host = "" := by
  rw [host, srcHost, h]
  rfl

theorem srcPath_of_src_eq {d : RouteDef W} (h : d.src = "") : d.srcPath = "" := by
  rw [srcPath, h]
  rfl

theorem delScope_self (d : RouteDef W) : d.delScope d.host d.path = true := by
  by_cases h : d.srcPath = ""
  · exact (delScope_of_srcPath_eq h).mpr (Or.inl rfl)
  · exact (delScope_of_srcPath_ne h).mpr ⟨rfl, rfl⟩

theorem delScope_of_src_eq {d : RouteDef W} (hsrc : d.src = "") (htags : d.tags = [])
    {host path : String} : d.delScope host path = true ↔ host = "" := by
  rw [delScope_of_srcPath_eq (srcPath_of_src_eq hsrc), host_of_src_eq hsrc]
  simp [htags]

theorem Selects.delScope_eq {d : RouteDef W} {host path : String} {u : Target W}
    (h : d.Selects host path u) (hgiven : d.src ≠ "" ∨ d.tags ≠ []) :
    d.delScope host path = true := by
  by_cases hpath : d.srcPath = ""
  · rw [delScope_of_srcPath_eq hpath]
    by_cases hsrc : d.src = ""
    · exact Or.inr ⟨host_of_src_eq hsrc, hgiven.resolve_left (absurd hsrc)⟩
    · exact Or.inl (h.host hsrc)
  · have hsrc : d.src ≠ "" := fun hsrc => hpath (srcPath_of_src_eq hsrc)
    exact (delScope_of_srcPath_ne hpath).mpr ⟨h.host hsrc, h.path hpath⟩

end RouteDef

namespace Table

/-! ## What remains -/

section Remains

variable [Platform] [WeightArith W]

theorem Ok.forall_targets_iff {t : Table W} (h : t.Ok) {P : String → String → Target W → Prop}
    (hP : ∀ host path u, P host path u.unweighted ↔ P host path u) :
    (∀ host, ∀ r ∈ t.bucket host, ∀ a ∈ r.targets, P host r.path a.val) ↔
      ∀ host path, ∀ u ∈ t.contents host path, P host path u := by
  constructor
  · intro hall host path u hu
    obtain ⟨r, hr, rfl, a, ha, rfl⟩ := exists_of_mem_contents hu
    exact (hP host r.path a.val).mpr (hall host r hr a ha)
  · intro hall host r hr a ha
    refine (hP host r.path a.val).mp (hall host r.path _ ?_)
    rw [h.contents_of_mem_bucket hr]
    exact List.mem_map_of_mem ha

omit [Platform] in
theorem matches_unweighted (d : RouteDef W) (u : Target W) :
    d.Matches u.unweighted ↔ d.Matches u :=
  ⟨fun h => ⟨h.service, h.tags, h.url⟩, fun h => ⟨h.service, h.tags, h.url⟩⟩

omit [Platform] in
theorem selects_unweighted (d : RouteDef W) (host path : String) (u : Target W) :
    d.Selects host path u.unweighted ↔ d.Selects host path u :=
  ⟨fun h => ⟨(matches_unweighted d u).mp h.toMatches, h.host, h.path⟩,
    fun h => ⟨(matches_unweighted d u).mpr h.toMatches, h.host, h.path⟩⟩

/-- No target under any host and path meets all criteria of the `del`. -/
def NoneSelected (t : Table W) (d : RouteDef W) : Prop :=
  ∀ host, ∀ r ∈ t.bucket host, ∀ a ∈ r.targets, ¬ d.Selects host r.path a.val

theorem noneSelected_iff {t : Table W} (h : t.Ok) (d : RouteDef W) :
    NoneSelected t d ↔ ∀ host path, ∀ u ∈ t.contents host path, ¬ d.Selects host path u :=
  h.forall_targets_iff (P := fun host path u => ¬ d.Selects host path u) fun host path u =>
    not_congr (selects_unweighted d host path u)

/-- A `del` removes all that it selects exactly when it has a source or tags, or when what it
selects is in the bucket without host. -/
theorem noneSelected_apply_iff {t : Table W} {defs : List (RouteDef W)} (hr : Replay new defs t)
    {d : RouteDef W} (hcmd : d.cmd = .del) (shared : SharedRefs) (rr : Ref) :
    NoneSelected (t.apply shared rr d) d ↔ d.src ≠ "" ∨ d.tags ≠ [] ∨
      ∀ host, host ≠ "" → ∀ r ∈ t.bucket host, ∀ a ∈ r.targets, ¬ d.Matches a.val := by
  have hok : t.Ok := hr.ok ok_new
  have hbefore : (∀ host, host ≠ "" → ∀ r ∈ t.bucket host, ∀ a ∈ r.targets, ¬ d.Matches a.val) ↔
      ∀ host path, ∀ u ∈ t.contents host path, host ≠ "" → ¬ d.Matches u := by
    rw [← hok.forall_targets_iff (P := fun host _ u => host ≠ "" → ¬ d.Matches u)
      fun host _ u => imp_congr_right fun _ => not_congr (matches_unweighted d u)]
    exact forall_congr' fun host => ⟨fun h r hr a ha hne => h hne r hr a ha,
      fun h hne r hr a ha => h r hr a ha hne⟩
  rw [noneSelected_iff (ok_apply shared rr d hok), hbefore]
  simp only [contents_apply hok, editContents, hcmd]
  constructor
  · intro hnone
    by_cases hsrc : d.src = ""
    · by_cases htags : d.tags = []
      · refine Or.inr (Or.inr fun host path u hu hne hmatch => hnone host path u ?_ ?_)
        · have hscope : ¬ d.delScope host path = true := by
            rwa [RouteDef.delScope_of_src_eq hsrc htags]
          rwa [if_neg hscope]
        · exact ⟨hmatch, absurd hsrc, absurd (RouteDef.srcPath_of_src_eq hsrc)⟩
      · exact Or.inr (Or.inl htags)
    · exact Or.inl hsrc
  · intro hcond host path u hu hsel
    by_cases hscope : d.delScope host path = true
    · rw [if_pos hscope] at hu
      exact RouteDef.keepsOnDel_iff.mp (List.mem_filter.mp hu).2 hsel.toMatches
    · -- out of scope there is something selected only without a source and without tags
      rw [if_neg hscope] at hu
      obtain ⟨hsrc, htags⟩ := not_or.mp (mt hsel.delScope_eq hscope)
      have hne : host ≠ "" := by
        rwa [RouteDef.delScope_of_src_eq (not_not.mp hsrc) (not_not.mp htags)] at hscope
      exact ((hcond.resolve_left hsrc).resolve_left htags) host path u hu hne hsel.toMatches

/-! ## What else changes -/

theorem mem_bucket_apply {t : Table W} {shared : SharedRefs} {rr : Ref} {d : RouteDef W}
    {host : String} {r : Route W} (h : r ∈ (t.apply shared rr d).bucket host) :
    r ∈ t.bucket host ∨ ∃ q : Route W, r = q.computeWeights := by
  have hdel : ∀ {scope : Option String}, r ∈ delFromBucket d scope (t.bucket host) →
      r ∈ t.bucket host ∨ ∃ q : Route W, r = q.computeWeights := by
    intro scope hr
    obtain ⟨-, q, hq, rfl | rfl⟩ := mem_delFromBucket hr
    · exact Or.inl hq
    · exact Or.inr ⟨_, rfl⟩
  unfold apply at h
  split at h
  · rw [bucket_applyAdd] at h
    split at h
    · rcases mem_addToBucket h with h | ⟨q, -, rfl⟩
      · exact Or.inl h
      · exact Or.inr ⟨_, rfl⟩
    · exact Or.inl h
  · rw [bucket_applyDel] at h
    split at h
    · exact hdel h
    · split at h
      · exact hdel h
      · exact Or.inl h
  · rw [bucket_applyWeight] at h
    split at h
    · obtain ⟨q, hq, rfl⟩ := List.mem_map.mp h
      split
      · rcases weightRoute_cases d q with he | ⟨q', he, -⟩
        · rw [he]
          exact Or.inl hq
        · exact Or.inr ⟨q', he⟩
      · exact Or.inl hq
    · exact Or.inl h

/-- The weights of every route are those that recomputing gives. -/
def Settled (t : Table W) : Prop := ∀ host, ∀ r ∈ t.bucket host, r.computeWeights = r

theorem Replay.settled {t t' : Table W} {defs : List (RouteDef W)} (hr : Replay t defs t')
    (h : t.Settled) : t'.Settled := by
  refine hr.invariant (I := Settled) (fun t sh rr d ht host r hmem => ?_) h
  rcases mem_bucket_apply hmem with hmem | ⟨q, rfl⟩
  · exact ht host r hmem
  · exact q.computeWeights_computeWeights

omit [Platform] in
theorem settled_new : (new : Table W).Settled := by
  intro host r hr
  simp [bucket, new] at hr

/-- Only the route that an `add` with the source creates or extends is changed, and it loses
exactly the targets that match. -/
structure ChangesOnly (d : RouteDef W) (t t' : Table W) : Prop where
  others : ∀ host path, (host, path) ≠ (d.host, d.path) →
    routeAt (t'.bucket host) path = routeAt (t.bucket host) path
  own : t'.contents d.host d.path =
    (t.contents d.host d.path).filter fun u => Route.keepsOnDel d.service d.tags d.delUrl u

omit [Platform] in
theorem removeTargets_eq_of_forall {d : RouteDef W} {r : Route W}
    (h : ∀ u ∈ r.contents, ¬ d.Matches u) : r.removeTargets d.service d.tags d.delUrl = r := by
  have hkeep : (r.targets.filter fun a => Route.keepsOnDel d.service d.tags d.delUrl a.val) =
      r.targets := by
    refine List.filter_eq_self.mpr fun a ha => RouteDef.keepsOnDel_iff.mpr ?_
    rw [← matches_unweighted]
    exact h _ (List.mem_map_of_mem ha)
  rw [Route.removeTargets, hkeep]

omit [Platform] in
theorem contents_eq_of_routeAt {t t' : Table W} {host path : String}
    (h : routeAt (t'.bucket host) path = routeAt (t.bucket host) path) :
    t'.contents host path = t.contents host path := by
  rw [contents, contentsOf, h]
  rfl

theorem routeAt_applyDel_of_forall {t : Table W} (hok : t.Ok) (hsettled : t.Settled)
    {d : RouteDef W} {host path : String} (h : ∀ u ∈ t.contents host path, ¬ d.Matches u) :
    routeAt ((t.applyDel d).bucket host) path = routeAt (t.bucket host) path := by
  rw [routeAt_applyDel hok]
  split
  · cases hroute : routeAt (t.bucket host) path with
    | none => rfl
    | some r =>
      obtain ⟨hmem, rfl⟩ := mem_of_routeAt hroute
      have hcontents := hok.contents_of_mem_bucket hmem
      have htargets := ((hok.bucketOk host).wellFormed r hmem).targets_ne
      rw [Option.bind_some, delFromRoute, removeTargets_eq_of_forall (hcontents ▸ h),
        hsettled host r hmem]
      simp [htargets]
  · rfl

/-- A `del` changes only the route that its source names exactly when it names a path, or when
nothing that matches is on the other routes of the host, or on those of any host if it has tags
and names none. -/
theorem changesOnly_apply_iff {t : Table W} {defs : List (RouteDef W)} (hr : Replay new defs t)
    {d : RouteDef W} (hcmd : d.cmd = .del) (shared : SharedRefs) (rr : Ref) :
    ChangesOnly d t (t.apply shared rr d) ↔ d.srcPath ≠ "" ∨
      ∀ host path, (host, path) ≠ (d.host, d.path) → (host = d.host ∨ d.host = "" ∧ d.tags ≠ []) →
        ∀ u ∈ t.contents host path, ¬ d.Matches u := by
  have hok : t.Ok := hr.ok ok_new
  have happly : t.apply shared rr d = t.applyDel d := by
    rw [apply, hcmd]
  rw [happly]
  constructor
  · intro hchanges
    by_cases hpath : d.srcPath = ""
    · refine Or.inr fun host path hne hscope u hu => RouteDef.keepsOnDel_iff.mp ?_
      have hsame := contents_eq_of_routeAt (hchanges.others host path hne)
      rw [contents_applyDel hok, if_pos ((RouteDef.delScope_of_srcPath_eq hpath).mpr hscope),
        List.filter_eq_self] at hsame
      exact hsame u hu
    · exact Or.inl hpath
  · intro hcond
    constructor
    · intro host path hne
      by_cases hscope : d.delScope host path = true
      · refine routeAt_applyDel_of_forall hok (hr.settled settled_new) ?_
        by_cases hpath : d.srcPath = ""
        · exact (hcond.resolve_left (absurd hpath)) host path hne
            ((RouteDef.delScope_of_srcPath_eq hpath).mp hscope)
        · obtain ⟨rfl, rfl⟩ := (RouteDef.delScope_of_srcPath_ne hpath).mp hscope
          exact absurd rfl hne
      · rw [routeAt_applyDel hok, if_neg hscope]
    · rw [contents_applyDel hok, if_pos d.delScope_self]

end Remains

section Examples

attribute [local instance] Platform.plain

def addWeb : RouteDef ℚ :=
  { exampleDef .static .add "web" "http://10.0.0.1:80/" with src := "a.example/" }

def delWeb : RouteDef ℚ := { exampleDef .static .del "web" "" with src := "" }

def webTable : Table ℚ := new.apply default 0 addWeb

theorem replay_webTable : Replay new [addWeb] webTable := .cons default 0 (.nil _)

/-- The service is still there after it was deleted. -/
theorem not_noneSelected_delWeb :
    Replay new [addWeb] webTable ∧ delWeb.cmd = .del ∧ delWeb.service = "web" ∧ delWeb.src = "" ∧
      delWeb.dst = "" ∧ delWeb.tags = [] ∧ ¬ NoneSelected (webTable.apply default 0 delWeb) delWeb ∧
      ∃ r ∈ (webTable.apply default 0 delWeb).bucket "a.example",
        ∃ a ∈ r.targets, a.val.service = "web" := by
  have hleft : ∃ r ∈ (webTable.apply default 0 delWeb).bucket "a.example",
      ∃ a ∈ r.targets, a.val.service = "web" := by
    decide +kernel
  refine ⟨replay_webTable, rfl, rfl, rfl, rfl, rfl, ?_, hleft⟩
  obtain ⟨r, hr, a, ha, hservice⟩ := hleft
  exact fun hnone => hnone "a.example" r hr a ha
    ⟨⟨fun _ => hservice, by simp [delWeb, exampleDef], by simp [delWeb, exampleDef]⟩,
      by simp [delWeb], by simp [delWeb, RouteDef.srcPath, Text.after]⟩

/-- With a source it is deleted. -/
theorem noneSelected_delWeb_source :
    NoneSelected (webTable.apply default 0 { delWeb with src := "a.example" })
      { delWeb with src := "a.example" } :=
  (noneSelected_apply_iff replay_webTable rfl default 0).mpr (Or.inl (by decide))

def apiTable : Table ℚ :=
  webTable.apply default 0 { addWeb with src := "a.example/api", dst := "http://10.0.0.2:80/" }

def delWebRoot : RouteDef ℚ := { delWeb with src := "a.example/" }

theorem replay_apiTable : Replay new
    [addWeb, { addWeb with src := "a.example/api", dst := "http://10.0.0.2:80/" }] apiTable :=
  .cons default 0 (.cons default 0 (.nil _))

/-- The route of the second path goes with the route of the source. -/
theorem not_changesOnly_delWebRoot :
    (∃ defs, Replay new defs apiTable) ∧ delWebRoot.cmd = .del ∧ '/' ∈ delWebRoot.src.toList ∧
      (delWebRoot.host, delWebRoot.path) = ("a.example", "/") ∧
      ¬ ChangesOnly delWebRoot apiTable (apiTable.apply default 0 delWebRoot) := by
  refine ⟨⟨_, replay_apiTable⟩, rfl, by decide, by decide, ?_⟩
  intro hchanges
  have hsame := hchanges.others "a.example" "/api" (by decide)
  have hbefore : (routeAt (apiTable.bucket "a.example") "/api").isSome = true := by
    decide +kernel
  have hafter : (routeAt ((apiTable.apply default 0 delWebRoot).bucket "a.example") "/api").isSome =
      false := by
    decide +kernel
  rw [hsame, hbefore] at hafter
  cases hafter

/-- A source with a path leaves the other route alone. -/
theorem changesOnly_delWebApi :
    ChangesOnly { delWeb with src := "a.example/api" } apiTable
      (apiTable.apply default 0 { delWeb with src := "a.example/api" }) :=
  (changesOnly_apply_iff replay_apiTable rfl default 0).mpr (Or.inl (by decide))

end Examples

end Table

end SentirumLb
