import SentirumLb.Route.Table

/-! # The representation invariant of the table

Every command leaves host keys in lowercase and buckets without empty or
repeated routes, and recomputes the slot list of each route it touches. The
invariant is proved for one command and then for every sequence of commands;
finalizing adds the order of the buckets and the list of unique targets.
-/

namespace SentirumLb

variable {W : Type}

/-- `a` is strictly more specific than `b`: a longer path, or an equally long greater one. -/
def Route.MoreSpecific (a b : Route W) : Prop :=
  b.path.utf8ByteSize < a.path.utf8ByteSize ∨
    b.path.utf8ByteSize = a.path.utf8ByteSize ∧ b.path < a.path

variable [Platform]

structure Route.WellFormed (r : Route W) : Prop where
  path_head : r.path.toList.head? = some '/'
  glob_eq : r.glob = Platform.patternNew r.path
  targets_ne : r.targets ≠ []
  addr_nodup : (r.targets.map (·.addr)).Nodup
  wTargets_ne : r.wTargets ≠ []
  wTargets_sub : ∀ t ∈ r.wTargets, t ∈ r.targets

structure BucketOk (host : String) (rs : List (Route W)) : Prop where
  host_eq : ∀ r ∈ rs, r.host = host
  paths_nodup : (rs.map (·.path)).Nodup
  wellFormed : ∀ r ∈ rs, r.WellFormed

namespace Table

structure Ok (t : Table W) : Prop where
  key_lower : ∀ h rs, t.routes.lookup h = some rs → Text.IsAsciiLowercase h
  bucket_ne : ∀ h rs, t.routes.lookup h = some rs → rs ≠ []
  bucket_ok : ∀ h rs, t.routes.lookup h = some rs → BucketOk h rs

theorem ok_new : (new : Table W).Ok := by
  constructor <;> simp [new]

end Table

variable [WeightArith W]

theorem Route.wellFormed_computeWeights {r : Route W} (hp : r.path.toList.head? = some '/')
    (hg : r.glob = Platform.patternNew r.path) (hne : r.targets ≠ []) :
    r.computeWeights.WellFormed := by
  have ht : r.computeWeights.targets ≠ [] := by simpa using hne
  refine ⟨by simpa using hp, ?_, ht, ?_, ?_, ?_⟩
  · rw [computeWeights_path, ← hg]
    unfold computeWeights
    split <;> rfl
  · have he : r.computeWeights.targets.map (·.addr) = r.targets.zipIdx.map (·.2) := by
      rw [computeWeights_targets, assignWeights, List.map_map]
      rfl
    rw [he]
    exact List.nodup_zipIdx_map_snd r.targets
  · rw [computeWeights_wTargets hne]
    exact spreadSlots_ne_nil ht
  · intro t hw
    rw [computeWeights_wTargets hne] at hw
    exact mem_of_mem_spreadSlots hw

omit [Platform] in
theorem Route.addTarget_targets_ne (r : Route W) (t : Target W) : (r.addTarget t).targets ≠ [] := by
  unfold addTarget
  split
  · next h =>
    intro he
    simp [he] at h
  · simp

omit [Platform] in
@[simp] theorem Route.addTarget_path (r : Route W) (t : Target W) :
    (r.addTarget t).path = r.path := by
  unfold addTarget; split <;> rfl

omit [Platform] in
@[simp] theorem Route.addTarget_host (r : Route W) (t : Target W) :
    (r.addTarget t).host = r.host := by
  unfold addTarget; split <;> rfl

omit [Platform] in
@[simp] theorem Route.addTarget_glob (r : Route W) (t : Target W) :
    (r.addTarget t).glob = r.glob := by
  unfold addTarget; split <;> rfl

namespace Table

/-! ## Adding -/

theorem mem_addToBucket {host path : String} {target : Target W} {rr : Ref}
    {rs : List (Route W)} {r : Route W} (h : r ∈ addToBucket host path target rr rs) :
    r ∈ rs ∨ ∃ q, (q ∈ rs ∧ q.path = path ∨ q = Route.new host path rr) ∧
      r = (q.addTarget target).computeWeights := by
  induction rs with
  | nil =>
    rw [addToBucket, List.mem_singleton] at h
    exact Or.inr ⟨_, Or.inr rfl, h⟩
  | cons q rs ih =>
    rw [addToBucket] at h
    split at h
    · next hq =>
      rcases List.mem_cons.mp h with rfl | h
      · exact Or.inr ⟨q, Or.inl ⟨List.mem_cons_self, hq⟩, rfl⟩
      · exact Or.inl (List.mem_cons_of_mem _ h)
    · rcases List.mem_cons.mp h with rfl | h
      · exact Or.inl List.mem_cons_self
      · rcases ih h with h | ⟨q', hq' | hq', he⟩
        · exact Or.inl (List.mem_cons_of_mem _ h)
        · exact Or.inr ⟨q', Or.inl ⟨List.mem_cons_of_mem _ hq'.1, hq'.2⟩, he⟩
        · exact Or.inr ⟨q', Or.inr hq', he⟩

theorem map_path_addToBucket (host path : String) (target : Target W) (rr : Ref)
    (rs : List (Route W)) :
    (addToBucket host path target rr rs).map (·.path) =
      if path ∈ rs.map (·.path) then rs.map (·.path) else rs.map (·.path) ++ [path] := by
  induction rs with
  | nil => simp [addToBucket, Route.new]
  | cons q rs ih =>
    rw [addToBucket]
    by_cases hq : q.path = path
    · simp [hq]
    · rw [if_neg hq, List.map_cons, ih]
      have hmem : path ∈ (q :: rs).map (·.path) ↔ path ∈ rs.map (·.path) := by
        simp [Ne.symm hq]
      simp only [hmem]
      split <;> rfl

theorem addToBucket_ne_nil (host path : String) (target : Target W) (rr : Ref)
    (rs : List (Route W)) : addToBucket host path target rr rs ≠ [] := by
  cases rs with
  | nil => simp [addToBucket]
  | cons q rs => rw [addToBucket]; split <;> simp

theorem bucketOk_addToBucket {host path : String} {target : Target W} {rr : Ref}
    {rs : List (Route W)} (hp : path.toList.head? = some '/') (h : BucketOk host rs) :
    BucketOk host (addToBucket host path target rr rs) := by
  refine ⟨?_, ?_, ?_⟩
  · intro r hr
    rcases mem_addToBucket hr with hr | ⟨q, ⟨hq, -⟩ | rfl, rfl⟩
    · exact h.host_eq r hr
    · simpa using h.host_eq q hq
    · simp [Route.new]
  · rw [map_path_addToBucket]
    split
    · exact h.paths_nodup
    · next hn => exact List.nodup_append.mpr ⟨h.paths_nodup, by simp, by simpa using hn⟩
  · intro r hr
    rcases mem_addToBucket hr with hr | ⟨q, ⟨hq, -⟩ | rfl, rfl⟩
    · exact h.wellFormed r hr
    · have hw := h.wellFormed q hq
      exact Route.wellFormed_computeWeights (by simpa using hw.path_head)
        (by simpa using hw.glob_eq) (q.addTarget_targets_ne target)
    · exact Route.wellFormed_computeWeights (by simpa [Route.new] using hp)
        (by simp [Route.new]) (Route.addTarget_targets_ne _ target)

theorem ok_applyAdd {t : Table W} (shared : SharedRefs) (rr : Ref) (d : RouteDef W) (h : t.Ok) :
    (t.applyAdd shared rr d).Ok := by
  have hcases : ∀ k rs, (t.applyAdd shared rr d).routes.lookup k = some rs →
      t.routes.lookup k = some rs ∨ k = d.host ∧
        rs = addToBucket d.host d.path (targetOf shared d) rr (t.bucket d.host) := by
    intro k rs hk
    by_cases he : k = d.host
    · subst he
      right
      simpa [applyAdd, bucket, eq_comm] using hk
    · left
      simpa [applyAdd, AssocMap.lookup_upsert_ne he] using hk
  have hbucket : BucketOk d.host (t.bucket d.host) := by
    unfold bucket
    cases hb : t.routes.lookup d.host with
    | none => exact ⟨by simp, by simp, by simp⟩
    | some rs => exact h.bucket_ok _ _ hb
  refine ⟨?_, ?_, ?_⟩ <;> intro k rs hk <;> rcases hcases k rs hk with hk | ⟨rfl, rfl⟩
  · exact h.key_lower k rs hk
  · exact d.isAsciiLowercase_host
  · exact h.bucket_ne k rs hk
  · exact addToBucket_ne_nil d.host d.path (targetOf shared d) rr _
  · exact h.bucket_ok k rs hk
  · exact bucketOk_addToBucket d.head_path hbucket

/-! ## Deleting -/

omit [Platform] in
theorem mem_delFromBucket {d : RouteDef W} {path : Option String} {rs : List (Route W)}
    {r : Route W} (h : r ∈ delFromBucket d path rs) :
    r.targets ≠ [] ∧ ∃ q ∈ rs, r = q ∨
      r = (q.removeTargets d.service d.tags d.delUrl).computeWeights := by
  obtain ⟨hm, hne⟩ := List.mem_filter.mp h
  obtain ⟨q, hq, rfl⟩ := List.mem_map.mp hm
  refine ⟨by simpa using hne, q, hq, ?_⟩
  split
  · exact Or.inr rfl
  · exact Or.inl rfl

theorem bucketOk_delFromBucket {host : String} {d : RouteDef W} {path : Option String}
    {rs : List (Route W)} (h : BucketOk host rs) : BucketOk host (delFromBucket d path rs) := by
  refine ⟨?_, ?_, ?_⟩
  · intro r hr
    obtain ⟨-, q, hq, rfl | rfl⟩ := mem_delFromBucket hr
    · exact h.host_eq _ hq
    · simpa [Route.removeTargets] using h.host_eq q hq
  · have hpaths : (rs.map fun r => if path.all (r.path == ·) then
        (r.removeTargets d.service d.tags d.delUrl).computeWeights else r).map (·.path) =
        rs.map (·.path) := by
      rw [List.map_map]
      apply List.map_congr_left
      intro r _
      simp only [Function.comp]
      split
      · simp [Route.removeTargets]
      · rfl
    exact ((List.filter_sublist.map _).nodup (hpaths ▸ h.paths_nodup))
  · intro r hr
    obtain ⟨hne, q, hq, rfl | rfl⟩ := mem_delFromBucket hr
    · exact h.wellFormed _ hq
    · have hw := h.wellFormed q hq
      exact Route.wellFormed_computeWeights hw.path_head hw.glob_eq (by simpa using hne)

theorem ok_delFromHost {t : Table W} (d : RouteDef W) (h : t.Ok) : (t.delFromHost d).Ok := by
  have hcases : ∀ k rs, (t.delFromHost d).routes.lookup k = some rs → rs ≠ [] ∧
      (t.routes.lookup k = some rs ∨ ∃ rs', t.routes.lookup k = some rs' ∧
        rs = delFromBucket d d.delPath rs') := by
    intro k rs hk
    simp only [delFromHost] at hk
    by_cases he : k = d.host
    · subst he
      split at hk
      · simp at hk
      · next hn =>
        simp only [AssocMap.lookup_modify_self] at hk hn
        obtain ⟨rs', hrs', rfl⟩ := Option.map_eq_some_iff.mp hk
        refine ⟨?_, Or.inr ⟨rs', hrs', rfl⟩⟩
        intro hnil
        simp [hrs', hnil] at hn
    · have hk' : t.routes.lookup k = some rs := by
        split at hk
        · rwa [AList.lookup_erase_ne he, AssocMap.lookup_modify_ne he] at hk
        · rwa [AssocMap.lookup_modify_ne he] at hk
      exact ⟨h.bucket_ne k rs hk', Or.inl hk'⟩
  refine ⟨?_, ?_, ?_⟩ <;> intro k rs hk <;>
    obtain ⟨hne, hb | ⟨rs', hb, rfl⟩⟩ := hcases k rs hk
  · exact h.key_lower k rs hb
  · exact h.key_lower k rs' hb
  · exact hne
  · exact hne
  · exact h.bucket_ok k rs hb
  · exact bucketOk_delFromBucket (h.bucket_ok k rs' hb)

theorem ok_delFromAll {t : Table W} (d : RouteDef W) (h : t.Ok) : (t.delFromAll d).Ok := by
  have hcases : ∀ k rs, (t.delFromAll d).routes.lookup k = some rs →
      rs ≠ [] ∧ ∃ rs', t.routes.lookup k = some rs' ∧ rs = delFromBucket d none rs' := by
    intro k rs hk
    simp only [delFromAll, AssocMap.lookup_retain, AssocMap.lookup_mapVals,
      Option.filter_eq_some_iff, Option.map_eq_some_iff] at hk
    obtain ⟨⟨rs', hrs', rfl⟩, hne⟩ := hk
    exact ⟨by simpa using hne, rs', hrs', rfl⟩
  refine ⟨?_, ?_, ?_⟩ <;> intro k rs hk <;> obtain ⟨hne, rs', hb, rfl⟩ := hcases k rs hk
  · exact h.key_lower k rs' hb
  · exact hne
  · exact bucketOk_delFromBucket (h.bucket_ok k rs' hb)

theorem ok_applyDel {t : Table W} (d : RouteDef W) (h : t.Ok) : (t.applyDel d).Ok := by
  unfold applyDel
  split
  · split
    · exact ok_delFromHost d h
    · exact ok_delFromAll d h
  · exact ok_delFromHost d h

/-! ## Weighting -/

omit [Platform] in
theorem weightRoute_cases (d : RouteDef W) (r : Route W) :
    weightRoute d r = r ∨ ∃ q : Route W, weightRoute d r = q.computeWeights ∧ q.host = r.host ∧
      q.path = r.path ∧ q.glob = r.glob ∧ q.targets.length = r.targets.length := by
  unfold weightRoute
  dsimp only
  split
  · exact Or.inl rfl
  · exact Or.inr ⟨_, rfl, rfl, rfl, rfl, by simp⟩

theorem wellFormed_weightRoute {d : RouteDef W} {r : Route W} (h : r.WellFormed) :
    (weightRoute d r).WellFormed := by
  rcases weightRoute_cases d r with he | ⟨q, he, -, hp, hg, hl⟩
  · rwa [he]
  · rw [he]
    refine Route.wellFormed_computeWeights (hp ▸ h.path_head) (by rw [hg, hp]; exact h.glob_eq) ?_
    apply List.ne_nil_of_length_pos
    rw [hl]
    exact List.length_pos_iff.mpr h.targets_ne

omit [Platform] in
@[simp] theorem weightRoute_path (d : RouteDef W) (r : Route W) :
    (weightRoute d r).path = r.path := by
  rcases weightRoute_cases d r with he | ⟨q, he, -, hp, -⟩ <;> simp [*]

omit [Platform] in
@[simp] theorem weightRoute_host (d : RouteDef W) (r : Route W) :
    (weightRoute d r).host = r.host := by
  rcases weightRoute_cases d r with he | ⟨q, he, hh, -⟩ <;> simp [*]

omit [Platform] in
theorem map_path_weightRoute (d : RouteDef W) (p : Route W → Prop) [DecidablePred p]
    (rs : List (Route W)) :
    (rs.map fun r => if p r then weightRoute d r else r).map (·.path) = rs.map (·.path) := by
  rw [List.map_map]
  apply List.map_congr_left
  intro r _
  simp only [Function.comp]
  split <;> simp

theorem ok_applyWeight {t : Table W} (d : RouteDef W) (h : t.Ok) : (t.applyWeight d).Ok := by
  have hcases : ∀ k rs, (t.applyWeight d).routes.lookup k = some rs →
      ∃ rs', t.routes.lookup k = some rs' ∧ ∃ p : Route W → Prop, ∃ _ : DecidablePred p,
        rs = rs'.map fun r => if p r then weightRoute d r else r := by
    intro k rs hk
    by_cases he : k = d.host
    · subst he
      simp only [applyWeight, AssocMap.lookup_modify_self, Option.map_eq_some_iff] at hk
      obtain ⟨rs', hrs', rfl⟩ := hk
      exact ⟨rs', hrs', _, inferInstance, rfl⟩
    · simp only [applyWeight, AssocMap.lookup_modify_ne he] at hk
      exact ⟨rs, hk, fun _ => False, inferInstance, by simp⟩
  refine ⟨?_, ?_, ?_⟩ <;> intro k rs hk <;> obtain ⟨rs', hl, p, _, rfl⟩ := hcases k rs hk
  · exact h.key_lower k rs' hl
  · simpa using h.bucket_ne k rs' hl
  · have hb := h.bucket_ok k rs' hl
    refine ⟨?_, ?_, ?_⟩
    · intro r hr
      obtain ⟨q, hq, rfl⟩ := List.mem_map.mp hr
      split
      · simpa using hb.host_eq q hq
      · exact hb.host_eq q hq
    · rw [map_path_weightRoute]
      exact hb.paths_nodup
    · intro r hr
      obtain ⟨q, hq, rfl⟩ := List.mem_map.mp hr
      split
      · exact wellFormed_weightRoute (hb.wellFormed q hq)
      · exact hb.wellFormed q hq

theorem ok_apply {t : Table W} (shared : SharedRefs) (rr : Ref) (d : RouteDef W) (h : t.Ok) :
    (t.apply shared rr d).Ok := by
  unfold apply
  split
  · exact ok_applyAdd shared rr d h
  · exact ok_applyDel d h
  · exact ok_applyWeight d h

/-- Every sequence of commands keeps the invariant. -/
theorem Replay.ok {t t' : Table W} {ds : List (RouteDef W)} (hr : Replay t ds t') (h : t.Ok) :
    t'.Ok :=
  hr.invariant (fun _ sh rr d => ok_apply sh rr d) h

/-! ## Finalizing -/

omit [Platform] [WeightArith W]

instance : Std.Total (Route.SortsBefore (W := W)) where
  total a b := by
    unfold Route.SortsBefore
    rcases lt_trichotomy a.path.utf8ByteSize b.path.utf8ByteSize with h | h | h
    · exact Or.inr (Or.inl h)
    · rcases le_total b.path a.path with hp | hp
      · exact Or.inl (Or.inr ⟨h.symm, hp⟩)
      · exact Or.inr (Or.inr ⟨h, hp⟩)
    · exact Or.inl (Or.inl h)

instance : IsTrans (Route W) Route.SortsBefore where
  trans a b c := by
    rintro (hab | ⟨hab, pab⟩) (hbc | ⟨hbc, pbc⟩)
    · exact Or.inl (hbc.trans hab)
    · exact Or.inl (hbc ▸ hab)
    · exact Or.inl (hab ▸ hbc)
    · exact Or.inr ⟨hbc.trans hab, pbc.trans pab⟩

theorem pairwise_insertionSort_moreSpecific {rs : List (Route W)}
    (h : (rs.map (·.path)).Nodup) :
    (rs.insertionSort Route.SortsBefore).Pairwise Route.MoreSpecific := by
  have hsorted := List.pairwise_insertionSort Route.SortsBefore rs
  have hne : (rs.insertionSort Route.SortsBefore).Pairwise fun a b => a.path ≠ b.path := by
    rw [← List.pairwise_map]
    exact ((List.perm_insertionSort Route.SortsBefore rs).map _).nodup_iff.mpr h
  refine (hsorted.and hne).imp ?_
  rintro a b ⟨hlt | ⟨he, hle⟩, hab⟩
  · exact Or.inl hlt
  · exact Or.inr ⟨he, lt_of_le_of_ne hle hab.symm⟩

theorem BucketOk.perm [Platform] {host : String} {rs rs' : List (Route W)} (hp : rs'.Perm rs)
    (h : BucketOk host rs) : BucketOk host rs' where
  host_eq r hr := h.host_eq r (hp.mem_iff.mp hr)
  paths_nodup := (hp.map _).nodup_iff.mpr h.paths_nodup
  wellFormed r hr := h.wellFormed r (hp.mem_iff.mp hr)

theorem lookup_finalize (t : Table W) (k : String) :
    t.finalize.routes.lookup k =
      (t.routes.lookup k).map (List.insertionSort Route.SortsBefore) := by
  simp [finalize]

theorem ok_finalize [Platform] {t : Table W} (h : t.Ok) : t.finalize.Ok := by
  refine ⟨?_, ?_, ?_⟩ <;> intro k rs hk <;>
    rw [lookup_finalize, Option.map_eq_some_iff] at hk <;> obtain ⟨rs', hl, rfl⟩ := hk
  · exact h.key_lower k rs' hl
  · intro hnil
    have hperm := List.perm_insertionSort Route.SortsBefore rs'
    rw [hnil] at hperm
    exact h.bucket_ne k rs' hl hperm.nil_eq.symm
  · exact BucketOk.perm (List.perm_insertionSort _ rs') (h.bucket_ok k rs' hl)

theorem sorted_finalize [Platform] {t : Table W} (h : t.Ok) {k : String} {rs : List (Route W)}
    (hk : t.finalize.routes.lookup k = some rs) : rs.Pairwise Route.MoreSpecific := by
  rw [lookup_finalize, Option.map_eq_some_iff] at hk
  obtain ⟨rs', hl, rfl⟩ := hk
  exact pairwise_insertionSort_moreSpecific (h.bucket_ok k rs' hl).paths_nodup

/-! ## The list of unique targets -/

theorem uniqueByUrl_subset (seen : List String) (ts : List (Arc (Target W))) :
    uniqueByUrl seen ts ⊆ ts := by
  induction ts generalizing seen with
  | nil => simp [uniqueByUrl]
  | cons t ts ih =>
    rw [uniqueByUrl]
    split
    · exact List.subset_cons_of_subset t (ih seen)
    · exact List.cons_subset_cons t (ih _)

theorem not_mem_seen_of_mem_uniqueByUrl {seen : List String} {ts : List (Arc (Target W))}
    {a : Arc (Target W)} (h : a ∈ uniqueByUrl seen ts) : a.val.url ∉ seen := by
  induction ts generalizing seen with
  | nil => simp [uniqueByUrl] at h
  | cons t ts ih =>
    rw [uniqueByUrl] at h
    split at h
    · exact ih h
    · next hn =>
      rcases List.mem_cons.mp h with rfl | h
      · simpa using hn
      · exact fun hs => ih h (List.mem_cons_of_mem _ hs)

theorem nodup_map_url_uniqueByUrl (seen : List String) (ts : List (Arc (Target W))) :
    ((uniqueByUrl seen ts).map (·.val.url)).Nodup := by
  induction ts generalizing seen with
  | nil => simp [uniqueByUrl]
  | cons t ts ih =>
    rw [uniqueByUrl]
    split
    · exact ih seen
    · rw [List.map_cons, List.nodup_cons]
      refine ⟨?_, ih _⟩
      intro hmem
      obtain ⟨a, ha, he⟩ := List.mem_map.mp hmem
      exact not_mem_seen_of_mem_uniqueByUrl ha (he ▸ List.mem_cons_self)

theorem url_mem_uniqueByUrl (seen : List String) {ts : List (Arc (Target W))}
    {a : Arc (Target W)} (h : a ∈ ts) :
    a.val.url ∈ seen ∨ ∃ b ∈ uniqueByUrl seen ts, b.val.url = a.val.url := by
  induction ts generalizing seen with
  | nil => cases h
  | cons t ts ih =>
    rw [uniqueByUrl]
    split
    · next hs =>
      rcases List.mem_cons.mp h with rfl | h
      · exact Or.inl (by simpa using hs)
      · exact ih seen h
    · rcases List.mem_cons.mp h with rfl | h
      · exact Or.inr ⟨a, List.mem_cons_self, rfl⟩
      · rcases ih (t.val.url :: seen) h with hs | ⟨b, hb, he⟩
        · rcases List.mem_cons.mp hs with ht | hs
          · exact Or.inr ⟨t, List.mem_cons_self, ht.symm⟩
          · exact Or.inl hs
        · exact Or.inr ⟨b, List.mem_cons_of_mem _ hb, he⟩

def HasTarget (t : Table W) (a : Arc (Target W)) : Prop :=
  ∃ host rs, t.routes.lookup host = some rs ∧ ∃ r ∈ rs, a ∈ r.targets

theorem mem_targets_iff {t : Table W} {a : Arc (Target W)} : a ∈ t.targets ↔ t.HasTarget a := by
  unfold targets HasTarget
  simp only [List.mem_flatMap, List.mem_flatten, AssocMap.mem_vals_iff]
  constructor
  · rintro ⟨r, ⟨rs, ⟨host, hl⟩, hr⟩, ha⟩
    exact ⟨host, rs, hl, r, hr, ha⟩
  · rintro ⟨host, rs, hl, r, hr, ha⟩
    exact ⟨r, ⟨rs, ⟨host, hl⟩, hr⟩, ha⟩

structure WellFormed [Platform] (t : Table W) : Prop extends t.Ok where
  sorted : ∀ h rs, t.routes.lookup h = some rs → rs.Pairwise Route.MoreSpecific
  allTargets_sub : ∀ a ∈ t.allTargets, t.HasTarget a
  allTargets_urls : ∀ a, t.HasTarget a → ∃ b ∈ t.allTargets, b.val.url = a.val.url
  allTargets_nodup : (t.allTargets.map (·.val.url)).Nodup

theorem wellFormed_finalize [Platform] {t : Table W} (h : t.Ok) : t.finalize.WellFormed := by
  have htargets : t.finalize.allTargets = uniqueByUrl [] t.finalize.targets := rfl
  refine ⟨ok_finalize h, fun k rs => sorted_finalize h, ?_, ?_, ?_⟩
  · intro a ha
    rw [htargets] at ha
    exact mem_targets_iff.mp (uniqueByUrl_subset _ _ ha)
  · intro a ha
    rw [htargets]
    rcases url_mem_uniqueByUrl [] (mem_targets_iff.mpr ha) with hs | hb
    · cases hs
    · exact hb
  · rw [htargets]
    exact nodup_map_url_uniqueByUrl _ _

/-- A table replayed from any definitions and finalized is well formed. -/
theorem Replay.wellFormed_finalize [Platform] [WeightArith W] {t : Table W}
    {defs : List (RouteDef W)} (h : Replay new defs t) : t.finalize.WellFormed :=
  Table.wellFormed_finalize (h.ok ok_new)

/-- Whatever definitions a table is built from, it satisfies the representation invariant. -/
theorem wellFormed_fromDefinitions [Platform] [WeightArith W] (defs : List (RouteDef W)) :
    (fromDefinitions defs).WellFormed := by
  have hreplay : Replay new defs (defs.foldl applyFresh (0, new)).2 :=
    foldl_applyFresh_replay defs (0, new)
  exact hreplay.wellFormed_finalize

end Table

end SentirumLb
