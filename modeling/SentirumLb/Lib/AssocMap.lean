import Mathlib

/-! # Hash maps in iteration order

A hash map is an association list without repeated keys, listed in whatever
order the map iterates. Lookups do not depend on that order. The operations
are those of in-place map code: update every value, retain some entries, edit
the value of one key, and edit the value of a key that is created on demand.
-/

/-- A map with keys `κ` and values `ν`, in iteration order. -/
abbrev AssocMap (κ ν : Type) := AList fun _ : κ => ν

namespace AssocMap

variable {κ ν ν' : Type}

def vals (m : AssocMap κ ν) : List ν := m.entries.map (·.2)

def mapVals (f : κ → ν → ν') (m : AssocMap κ ν) : AssocMap κ ν' where
  entries := m.entries.map fun e => ⟨e.1, f e.1 e.2⟩
  nodupKeys := List.NodupKeys.map₂ f m.entries m.nodupKeys

def retain (p : κ → ν → Bool) (m : AssocMap κ ν) : AssocMap κ ν where
  entries := m.entries.filter fun e => p e.1 e.2
  nodupKeys := m.nodupKeys.sublist List.filter_sublist

variable [DecidableEq κ]

def modify (k : κ) (f : ν → ν) (m : AssocMap κ ν) : AssocMap κ ν :=
  m.mapVals fun k' v => if k' = k then f v else v

def upsert (k : κ) (d : ν) (f : ν → ν) (m : AssocMap κ ν) : AssocMap κ ν :=
  if k ∈ m then m.modify k f else AList.insert k (f d) m

def modifyOrInsert (k : κ) (f : ν → ν) (d : ν) (m : AssocMap κ ν) : AssocMap κ ν :=
  if k ∈ m then m.modify k f else AList.insert k d m

def orInsert (k : κ) (d : ν) (m : AssocMap κ ν) : AssocMap κ ν :=
  if k ∈ m then m else AList.insert k d m

theorem lookup_eq_some_iff {m : AssocMap κ ν} {k : κ} {v : ν} :
    m.lookup k = some v ↔ (⟨k, v⟩ : Sigma fun _ : κ => ν) ∈ m.entries :=
  AList.mem_lookup_iff

theorem mem_vals_iff {m : AssocMap κ ν} {v : ν} :
    v ∈ m.vals ↔ ∃ k, m.lookup k = some v := by
  simp only [vals, List.mem_map, lookup_eq_some_iff]
  constructor
  · rintro ⟨⟨k, w⟩, he, rfl⟩
    exact ⟨k, he⟩
  · rintro ⟨k, hk⟩
    exact ⟨⟨k, v⟩, hk, rfl⟩

@[simp] theorem lookup_mapVals (f : κ → ν → ν') (m : AssocMap κ ν) (k : κ) :
    (m.mapVals f).lookup k = (m.lookup k).map (f k) :=
  List.dlookup_map₂ (l := m.entries) (f := f) k

theorem lookup_retain (p : κ → ν → Bool) (m : AssocMap κ ν) (k : κ) :
    (m.retain p).lookup k = (m.lookup k).filter (p k) := by
  ext v
  simp only [Option.filter_eq_some_iff, lookup_eq_some_iff, retain, List.mem_filter]

@[simp] theorem lookup_modify_self (k : κ) (f : ν → ν) (m : AssocMap κ ν) :
    (m.modify k f).lookup k = (m.lookup k).map f := by
  simp [modify]

@[simp] theorem lookup_modify_ne {k k' : κ} (h : k' ≠ k) (f : ν → ν) (m : AssocMap κ ν) :
    (m.modify k f).lookup k' = m.lookup k' := by
  simp [modify, h]

@[simp] theorem keys_modify (k : κ) (f : ν → ν) (m : AssocMap κ ν) :
    (m.modify k f).keys = m.keys := by
  simp [modify, mapVals, AList.keys, List.keys, List.map_map, Function.comp_def]

theorem modify_eq_self {k : κ} {f : ν → ν} {m : AssocMap κ ν}
    (h : ∀ v, m.lookup k = some v → f v = v) : m.modify k f = m := by
  apply AList.ext
  change m.entries.map _ = m.entries
  conv_rhs => rw [← List.map_id m.entries]
  apply List.map_congr_left
  rintro ⟨k', v⟩ he
  by_cases hk : k' = k
  · subst hk
    simp [h v (lookup_eq_some_iff.mpr he)]
  · simp [hk]

@[simp] theorem lookup_modifyOrInsert_self (k : κ) (f : ν → ν) (d : ν) (m : AssocMap κ ν) :
    (m.modifyOrInsert k f d).lookup k = some ((m.lookup k).elim d f) := by
  unfold modifyOrInsert
  split
  · next h =>
    obtain ⟨v, hv⟩ := Option.isSome_iff_exists.mp (AList.lookup_isSome.mpr h)
    simp [hv]
  · next h => simp [AList.lookup_eq_none.mpr h]

@[simp] theorem lookup_modifyOrInsert_ne {k k' : κ} (h : k' ≠ k) (f : ν → ν) (d : ν)
    (m : AssocMap κ ν) : (m.modifyOrInsert k f d).lookup k' = m.lookup k' := by
  unfold modifyOrInsert
  split
  · exact lookup_modify_ne h f m
  · exact AList.lookup_insert_ne h

theorem upsert_eq_modifyOrInsert (k : κ) (d : ν) (f : ν → ν) (m : AssocMap κ ν) :
    m.upsert k d f = m.modifyOrInsert k f (f d) := rfl

@[simp] theorem lookup_upsert_self (k : κ) (d : ν) (f : ν → ν) (m : AssocMap κ ν) :
    (m.upsert k d f).lookup k = some (f ((m.lookup k).getD d)) := by
  rw [upsert_eq_modifyOrInsert, lookup_modifyOrInsert_self]
  cases m.lookup k with
  | none => rfl
  | some v => rfl

@[simp] theorem lookup_upsert_ne {k k' : κ} (h : k' ≠ k) (d : ν) (f : ν → ν)
    (m : AssocMap κ ν) : (m.upsert k d f).lookup k' = m.lookup k' := by
  rw [upsert_eq_modifyOrInsert, lookup_modifyOrInsert_ne h]

theorem upsert_eq_self {k : κ} {d v : ν} {f : ν → ν} {m : AssocMap κ ν}
    (h : m.lookup k = some v) (hf : f v = v) : m.upsert k d f = m := by
  have hmem : k ∈ m := by
    rw [← AList.lookup_isSome, h]
    rfl
  rw [upsert, if_pos hmem]
  refine modify_eq_self fun w hw => ?_
  cases h.symm.trans hw
  exact hf

@[simp] theorem lookup_orInsert_self (k : κ) (d : ν) (m : AssocMap κ ν) :
    (m.orInsert k d).lookup k = some ((m.lookup k).getD d) := by
  unfold orInsert
  split
  · next h =>
    obtain ⟨v, hv⟩ := Option.isSome_iff_exists.mp (AList.lookup_isSome.mpr h)
    simp [hv]
  · next h => simp [AList.lookup_eq_none.mpr h]

@[simp] theorem lookup_orInsert_ne {k k' : κ} (h : k' ≠ k) (d : ν) (m : AssocMap κ ν) :
    (m.orInsert k d).lookup k' = m.lookup k' := by
  unfold orInsert
  split
  · rfl
  · exact AList.lookup_insert_ne h

theorem lookup_of_lookup_erase {m : AssocMap κ ν} {k k' : κ} {v : ν}
    (h : (m.erase k').lookup k = some v) : m.lookup k = some v := by
  by_cases hk : k = k'
  · rw [hk, AList.lookup_erase] at h
    cases h
  · rwa [AList.lookup_erase_ne hk] at h

theorem lookup_of_lookup_foldl_erase {μ : Type} {ks : List (κ × μ)} {m : AssocMap κ ν} {k : κ}
    {v : ν} (h : (ks.foldl (fun m e => m.erase e.1) m).lookup k = some v) :
    m.lookup k = some v := by
  induction ks generalizing m with
  | nil => exact h
  | cons x ks ih => exact lookup_of_lookup_erase (ih h)

theorem lookup_foldl_erase {μ : Type} (ks : List (κ × μ)) (m : AssocMap κ ν) (k : κ) :
    (ks.foldl (fun m e => m.erase e.1) m).lookup k =
      if k ∈ ks.map (·.1) then none else m.lookup k := by
  induction ks generalizing m with
  | nil => rfl
  | cons x ks ih =>
    rw [List.foldl_cons, ih, List.map_cons]
    by_cases hk : k = x.1
    · rw [hk, AList.lookup_erase, ite_self, if_pos List.mem_cons_self]
    · rw [AList.lookup_erase_ne hk]
      simp only [List.mem_cons, hk, false_or]

omit [DecidableEq κ] in
@[simp] theorem length_keys (m : AssocMap κ ν) : m.keys.length = m.entries.length :=
  List.length_map _

theorem length_foldl_erase {μ : Type} {ks : List (κ × μ)} {m : AssocMap κ ν}
    (hnodup : (ks.map (·.1)).Nodup) (hmem : ∀ e ∈ ks, e.1 ∈ m) :
    (ks.foldl (fun m e => m.erase e.1) m).entries.length + ks.length = m.entries.length := by
  induction ks generalizing m with
  | nil => rfl
  | cons x ks ih =>
    rw [List.map_cons, List.nodup_cons] at hnodup
    rw [List.forall_mem_cons] at hmem
    have hrest : ∀ e ∈ ks, e.1 ∈ m.erase x.1 := by
      intro e he
      refine AList.mem_erase.mpr ⟨fun heq => hnodup.1 ?_, hmem.2 e he⟩
      exact heq ▸ List.mem_map_of_mem he
    have herase : (m.erase x.1).entries.length = m.entries.length - 1 := by
      rw [← length_keys, AList.keys_erase, List.length_erase_of_mem (AList.mem_keys.mp hmem.1),
        length_keys]
    have hpos : 0 < m.entries.length := by
      rw [← length_keys]
      exact List.length_pos_of_mem (AList.mem_keys.mp hmem.1)
    rw [List.foldl_cons, List.length_cons, ← Nat.add_assoc, ih hnodup.2 hrest, herase]
    omega

theorem lookup_foldl_push {α : Type} (p : α → Bool) (key : α → κ) (val : α → ν) (l : List α)
    (m : AssocMap κ (List ν)) (k : κ) :
    (l.foldl (fun m a => if p a then m.upsert (key a) [] (· ++ [val a]) else m) m).lookup k =
      if (l.filter fun a => p a && decide (key a = k)) = [] then m.lookup k
      else some ((m.lookup k).getD [] ++
        (l.filter fun a => p a && decide (key a = k)).map val) := by
  induction l generalizing m with
  | nil => rfl
  | cons a l ih =>
    rw [List.foldl_cons, ih]
    by_cases hp : p a = true
    · by_cases hk : key a = k
      · subst hk
        simp only [hp, if_true, lookup_upsert_self, Option.getD_some, List.filter_cons,
          Bool.true_and, decide_true, List.map_cons]
        by_cases hl : (l.filter fun b => p b && decide (key b = key a)) = []
        · simp [hl]
        · simp [hl]
      · simp only [hp, if_true, lookup_upsert_ne (Ne.symm hk), List.filter_cons, hk, decide_false,
          Bool.and_false, Bool.false_eq_true, if_false]
    · simp [hp]

end AssocMap
