import SentirumLb.Route.TableInvariant

/-! # Route lookup

The lookup functions walk the host bucket and then the catch-all bucket. Here
what a matcher accepts is stated as a relation between texts, and both walks
are related to it: the list of matching routes is a filter of the two buckets,
and the single lookup is the head of that list.
-/

namespace SentirumLb

variable {W : Type} {m : MatcherKind} {path : String}

/-- What the matchers accept. -/
def Route.PathMatches (m : MatcherKind) (path : String) (r : Route W) : Prop :=
  match m with
  | .pathPrefix => r.path.toList <+: path.toList ∨ r.path = "/"
  | .caseInsensitivePrefix =>
      (∃ cs, cs <+: path.toList ∧ cs.map Char.toLower = r.path.toList.map Char.toLower) ∨
        r.path = "/"
  | .glob => r.path = "/" ∨ ∃ g, r.glob = some g ∧ g path = true
  | .exact => path = r.path

theorem Route.pathMatches_iff (r : Route W) :
    r.pathMatches m path = true ↔ r.PathMatches m path := by
  cases m with
  | pathPrefix => simp [pathMatches, PathMatches, Text.startsWith_iff]
  | caseInsensitivePrefix =>
    simp only [pathMatches, PathMatches, startsWithIgnoreAsciiCase, Bool.or_eq_true, beq_iff_eq,
      Text.bytesPrefix_eqIgnoreAsciiCase_iff]
  | glob =>
    cases hg : r.glob with
    | none => simp [pathMatches, PathMatches, hg]
    | some g => simp [pathMatches, PathMatches, hg]
  | exact => simp [pathMatches, PathMatches]

namespace Table

noncomputable def hits (t : Table W) (m : MatcherKind) (path host : String) : List (Route W) :=
  open Classical in (t.bucket host).filter fun r => r.PathMatches m path ∧ r.targets ≠ []

theorem mem_hits {t : Table W} {host : String} {r : Route W} :
    r ∈ t.hits m path host ↔ r ∈ t.bucket host ∧ r.PathMatches m path ∧ r.targets ≠ [] := by
  simp [hits]

theorem mem_bucket {t : Table W} {host : String} {r : Route W} (h : r ∈ t.bucket host) :
    ∃ rs, t.routes.lookup host = some rs ∧ r ∈ rs := by
  unfold bucket at h
  cases hl : t.routes.lookup host with
  | none => simp [hl] at h
  | some rs => exact ⟨rs, rfl, by simpa [hl] using h⟩

theorem hasTarget_of_mem_bucket {t : Table W} {host : String} {r : Route W}
    (h : r ∈ t.bucket host) {a : Arc (Target W)} (ha : a ∈ r.targets) : t.HasTarget a := by
  obtain ⟨rs, hl, hr⟩ := mem_bucket h
  exact ⟨host, rs, hl, r, hr, ha⟩

theorem hostKey_eq (host : String) : hostKey host = Text.toAsciiLowercase host := by
  unfold hostKey
  split
  · rfl
  · next h =>
    refine (Text.toAsciiLowercase_of_isAsciiLowercase ?_).symm
    intro c hc
    simp only [List.any_eq_true, not_exists, not_and, Bool.not_eq_true] at h
    exact h c hc

/-! ## The two walks -/

theorem collectMatchingRoutes_eq (results rs : List (Route W)) :
    collectMatchingRoutes path m results rs =
      results ++ rs.filter fun r => r.pathMatches m path && !r.targets.isEmpty := by
  induction rs generalizing results with
  | nil => simp [collectMatchingRoutes]
  | cons r rs ih =>
    rw [collectMatchingRoutes]
    split
    · next h => simp [ih, h]
    · next h => simp [ih, h]

theorem findMatchingRoute_eq (rs : List (Route W)) :
    findMatchingRoute path m rs =
      (rs.filter fun r => r.pathMatches m path && !r.targets.isEmpty).head? := by
  induction rs with
  | nil => rfl
  | cons r rs ih =>
    rw [findMatchingRoute]
    split
    · next h => simp [h]
    · next h => simp [ih, h]

theorem hits_eq (t : Table W) (host : String) :
    t.hits m path host =
      (t.bucket host).filter fun r => r.pathMatches m path && !r.targets.isEmpty := by
  unfold hits
  apply List.filter_congr
  intro r _
  rw [Bool.eq_iff_iff]
  simp [Route.pathMatches_iff]

theorem matchingRoutes_eq (t : Table W) (host : String) :
    t.matchingRoutes host path m = t.hits m path (Text.toAsciiLowercase host) ++
      if host = "" then [] else t.hits m path "" := by
  rw [matchingRoutes, hostKey_eq, hits_eq, hits_eq, bucket, bucket]
  by_cases h : host = ""
  · subst h
    cases t.routes.lookup (Text.toAsciiLowercase "") <;> simp [collectMatchingRoutes_eq]
  · have hkey : Text.toAsciiLowercase host ≠ "" := by simpa using h
    cases t.routes.lookup (Text.toAsciiLowercase host) <;> cases t.routes.lookup "" <;>
      simp [collectMatchingRoutes_eq, h]

theorem mem_hits_of_mem_matchingRoutes {t : Table W} {host : String} {r : Route W}
    (h : r ∈ t.matchingRoutes host path m) : ∃ key, r ∈ t.hits m path key := by
  rw [matchingRoutes_eq] at h
  rcases List.mem_append.mp h with h | h
  · exact ⟨_, h⟩
  · split at h
    · cases h
    · exact ⟨_, h⟩

theorem mem_bucket_of_mem_matchingRoutes {t : Table W} {host : String} {r : Route W}
    (h : r ∈ t.matchingRoutes host path m) : ∃ key, r ∈ t.bucket key :=
  (mem_hits_of_mem_matchingRoutes h).imp fun _ hkey => (mem_hits.mp hkey).1

theorem lookupRoute_eq (t : Table W) (host : String) :
    t.lookupRoute host path m = (t.matchingRoutes host path m).head? := by
  have hfind : ∀ k, (t.routes.lookup k).bind (findMatchingRoute path m) =
      (t.hits m path k).head? := by
    intro k
    rw [hits_eq, bucket]
    cases t.routes.lookup k with
    | none => simp
    | some rs => simp [findMatchingRoute_eq]
  rw [lookupRoute, hfind, hfind, hostKey_eq, matchingRoutes_eq]
  by_cases h : host = ""
  · -- the catch-all bucket is tried a second time, in vain
    subst h
    cases hh : (t.hits m path "").head? <;> simp [hh]
  · rw [if_neg h, List.head?_append]
    cases (t.hits m path (Text.toAsciiLowercase host)).head? <;> rfl

/-! ## Order -/

section Ordered

variable [Platform] {t : Table W}

theorem WellFormed.pairwise_hits (h : t.WellFormed) (host : String) :
    (t.hits m path host).Pairwise Route.MoreSpecific := by
  rw [hits_eq, bucket]
  cases hl : t.routes.lookup host with
  | none => simp
  | some rs => exact (h.sorted host rs hl).filter _

theorem WellFormed.host_of_mem_bucket (h : t.WellFormed) {host : String} {r : Route W}
    (hr : r ∈ t.bucket host) : r.host = host := by
  obtain ⟨rs, hl, hr⟩ := mem_bucket hr
  exact (h.bucket_ok host rs hl).host_eq r hr

theorem WellFormed.wellFormed_of_mem_bucket (h : t.WellFormed) {host : String} {r : Route W}
    (hr : r ∈ t.bucket host) : r.WellFormed := by
  obtain ⟨rs, hl, hr⟩ := mem_bucket hr
  exact (h.bucket_ok host rs hl).wellFormed r hr

theorem WellFormed.mem_hits (h : t.WellFormed) {host : String} {r : Route W} :
    r ∈ t.hits m path host ↔ r ∈ t.bucket host ∧ r.PathMatches m path := by
  rw [Table.mem_hits]
  constructor
  · rintro ⟨hb, hm, -⟩
    exact ⟨hb, hm⟩
  · rintro ⟨hb, hm⟩
    exact ⟨hb, hm, (h.wellFormed_of_mem_bucket hb).targets_ne⟩

omit [Platform] in
theorem not_moreSpecific_self (r : Route W) : ¬ r.MoreSpecific r := by
  rintro (h | ⟨-, h⟩)
  · exact lt_irrefl _ h
  · exact lt_irrefl _ h

theorem WellFormed.nodup_matchingRoutes (h : t.WellFormed) (host : String) :
    (t.matchingRoutes host path m).Nodup := by
  have hnodup : ∀ k, (t.hits m path k).Nodup := by
    intro k
    refine (h.pairwise_hits k).imp ?_
    rintro a b hab rfl
    exact not_moreSpecific_self a hab
  rw [matchingRoutes_eq]
  by_cases he : host = ""
  · rw [if_pos he, List.append_nil]
    exact hnodup _
  · rw [if_neg he]
    refine List.nodup_append.mpr ⟨hnodup _, hnodup _, ?_⟩
    rintro a ha b hb rfl
    have h1 := h.host_of_mem_bucket (h.mem_hits.mp ha).1
    have h2 := h.host_of_mem_bucket (h.mem_hits.mp hb).1
    rw [h1] at h2
    simp [he] at h2

theorem Route.prefix_or_prefix {a b : Route W} (ha : a.WellFormed) (hb : b.WellFormed)
    (hma : a.PathMatches .pathPrefix path) (hmb : b.PathMatches .pathPrefix path) :
    a.path.toList <+: b.path.toList ∨ b.path.toList <+: a.path.toList := by
  have hroot : ∀ r : Route W, r.WellFormed → "/".toList <+: r.path.toList := by
    intro r hr
    obtain ⟨rest, he⟩ := List.head?_eq_some_iff.mp hr.path_head
    exact ⟨rest, by rw [he]; rfl⟩
  rcases hma with hma | hma
  · rcases hmb with hmb | hmb
    · exact List.prefix_or_prefix_of_prefix hma hmb
    · exact Or.inr (hmb ▸ hroot a ha)
  · exact Or.inl (hma ▸ hroot b hb)

theorem WellFormed.longest_of_head (h : t.WellFormed) {host : String} {r q : Route W}
    (hr : (t.hits .pathPrefix path host).head? = some r) (hq : q ∈ t.hits .pathPrefix path host) :
    q = r ∨ q.path.utf8ByteSize < r.path.utf8ByteSize := by
  obtain ⟨rest, he⟩ := List.head?_eq_some_iff.mp hr
  have hpw : (t.hits .pathPrefix path host).Pairwise Route.MoreSpecific := h.pairwise_hits host
  have hmem := h.mem_hits.mp (List.mem_of_mem_head? hr)
  rw [he] at hq hpw
  rcases List.mem_cons.mp hq with rfl | hrest
  · exact Or.inl rfl
  · rcases (List.pairwise_cons.mp hpw).1 q hrest with hlt | ⟨hsize, hlt⟩
    · exact Or.inr hlt
    · exfalso
      have hqm := h.mem_hits.mp (he ▸ hq)
      rcases Route.prefix_or_prefix (h.wellFormed_of_mem_bucket hqm.1)
        (h.wellFormed_of_mem_bucket hmem.1) hqm.2 hmem.2 with hp | hp
      · rw [Text.eq_of_prefix_of_utf8ByteSize_eq hp hsize] at hlt
        exact lt_irrefl _ hlt
      · rw [Text.eq_of_prefix_of_utf8ByteSize_eq hp hsize.symm] at hlt
        exact lt_irrefl _ hlt

omit [Platform] in
/-- A route that lookup finds comes from the host bucket whenever that bucket has a match. -/
theorem head_of_lookupRoute {host : String} {r : Route W}
    (hr : t.lookupRoute host path m = some r) :
    (t.hits m path (Text.toAsciiLowercase host)).head? = some r ∨
      t.hits m path (Text.toAsciiLowercase host) = [] ∧ host ≠ "" ∧
        (t.hits m path "").head? = some r := by
  rw [lookupRoute_eq, matchingRoutes_eq] at hr
  cases hh : t.hits m path (Text.toAsciiLowercase host) with
  | cons q rest =>
    rw [hh] at hr
    exact Or.inl (by simpa using hr)
  | nil =>
    rw [hh, List.nil_append] at hr
    by_cases he : host = ""
    · simp [he] at hr
    · rw [if_neg he] at hr
      exact Or.inr ⟨rfl, he, hr⟩

end Ordered

section Built

variable [Platform] [WeightArith W]

/-- Lookup in a built table is complete and ordered by specificity: the matching routes are those
of the host bucket and then those of the catch-all bucket, most specific first, and the route
found is the first of them. -/
theorem lookup_fromDefinitions (defs : List (RouteDef W)) (host path : String) (m : MatcherKind) :
    let t := fromDefinitions defs
    let key := Text.toAsciiLowercase host
    t.matchingRoutes host path m =
        t.hits m path key ++ (if host = "" then [] else t.hits m path "") ∧
      (∀ k, ∀ r ∈ t.hits m path k, r.glob = Platform.patternNew r.path) ∧
      (t.matchingRoutes host path m).Nodup ∧
      (t.hits m path key).Pairwise Route.MoreSpecific ∧
      (t.hits m path "").Pairwise Route.MoreSpecific ∧
      t.lookupRoute host path m = (t.matchingRoutes host path m).head? ∧
      (∀ r, t.lookupRoute host path .pathPrefix = some r →
        (∃ q ∈ t.bucket key, q.PathMatches .pathPrefix path) →
        r ∈ t.bucket key ∧ r.PathMatches .pathPrefix path ∧
          ∀ q ∈ t.bucket key, q.PathMatches .pathPrefix path →
            q = r ∨ q.path.utf8ByteSize < r.path.utf8ByteSize) ∧
      (∀ r, t.lookupRoute host path m = some r → host ≠ "" → r.host = "" →
        ∀ q ∈ t.bucket key, ¬ q.PathMatches m path) := by
  intro t key
  have hwf : t.WellFormed := (foldl_applyFresh_replay defs (0, new)).wellFormed_finalize
  refine ⟨matchingRoutes_eq t host, ?_, hwf.nodup_matchingRoutes host, hwf.pairwise_hits key,
    hwf.pairwise_hits "", lookupRoute_eq t host, ?_, ?_⟩
  · intro k r hr
    exact (hwf.wellFormed_of_mem_bucket (hwf.mem_hits.mp hr).1).glob_eq
  · rintro r hr ⟨q, hq, hqm⟩
    rcases head_of_lookupRoute hr with hhead | ⟨hnil, -, -⟩
    · obtain ⟨hb, hm⟩ := hwf.mem_hits.mp (List.mem_of_mem_head? hhead)
      refine ⟨hb, hm, ?_⟩
      intro q hq hqm
      exact hwf.longest_of_head hhead (hwf.mem_hits.mpr ⟨hq, hqm⟩)
    · have hmem := hwf.mem_hits.mpr ⟨hq, hqm⟩
      rw [hnil] at hmem
      cases hmem
  · intro r hr hne hhost q hq hqm
    rcases head_of_lookupRoute hr with hhead | ⟨hnil, -, -⟩
    · have hkey := hwf.host_of_mem_bucket (hwf.mem_hits.mp (List.mem_of_mem_head? hhead)).1
      rw [hhost] at hkey
      exact hne (Text.toAsciiLowercase_eq_empty.mp hkey.symm)
    · have hmem := hwf.mem_hits.mpr ⟨hq, hqm⟩
      rw [hnil] at hmem
      cases hmem

end Built

end Table

end SentirumLb
