import SentirumLb.Lib.Lines

/-! # Texts put together with a separator

What holds of the characters of the pieces and of the separator holds of the whole. A text
of trimmed pieces is trimmed, and words come apart again at whitespace.
-/

namespace Text

section Intercalate

variable {sep : String} {l : List String}

theorem forall_mem_intercalate {P : Char → Prop} (hsep : ∀ c ∈ sep.toList, P c)
    (hl : ∀ s ∈ l, ∀ c ∈ s.toList, P c) : ∀ c ∈ (sep.intercalate l).toList, P c := by
  induction l with
  | nil => simp
  | cons s l ih =>
    have hs := hl s List.mem_cons_self
    by_cases hnil : l = []
    · rw [hnil, String.intercalate_singleton]
      exact hs
    · rw [String.intercalate_cons_of_ne_nil hnil, String.toList_append, String.toList_append,
        List.forall_mem_append, List.forall_mem_append]
      exact ⟨⟨hs, hsep⟩, ih fun t ht => hl t (List.mem_cons_of_mem s ht)⟩

theorem intercalate_ne_empty (hne : l ≠ []) (hl : ∀ s ∈ l, s ≠ "") : sep.intercalate l ≠ "" := by
  obtain ⟨s, l, rfl⟩ := List.exists_cons_of_ne_nil hne
  have hs := hl s List.mem_cons_self
  by_cases hnil : l = []
  · rw [hnil, String.intercalate_singleton]
    exact hs
  · rw [String.intercalate_cons_of_ne_nil hnil]
    simp [hs]

theorem Trimmed.append {s t : String} (hs : Trimmed s) (ht : Trimmed t) (hsne : s ≠ "")
    (htne : t ≠ "") : Trimmed (s ++ sep ++ t) where
  head c hc := by
    rw [String.append_assoc, String.toList_append,
      List.head?_append_of_ne_nil _ (by simpa using hsne)] at hc
    exact hs.head c hc
  last c hc := by
    rw [String.toList_append, List.getLast?_append_of_ne_nil _ (by simpa using htne)] at hc
    exact ht.last c hc

theorem trimmed_intercalate (hl : ∀ s ∈ l, s ≠ "" ∧ Trimmed s) : Trimmed (sep.intercalate l) := by
  induction l with
  | nil => exact trimmed_of_forall (by simp)
  | cons s l ih =>
    obtain ⟨hsne, hs⟩ := hl s List.mem_cons_self
    have hl' : ∀ t ∈ l, t ≠ "" ∧ Trimmed t := fun t ht => hl t (List.mem_cons_of_mem s ht)
    by_cases hnil : l = []
    · rw [hnil, String.intercalate_singleton]
      exact hs
    · rw [String.intercalate_cons_of_ne_nil hnil]
      exact hs.append (ih hl') hsne (intercalate_ne_empty hnil fun t ht => (hl' t ht).1)

end Intercalate

theorem Trimmed.trim_eq {s : String} (hs : Trimmed s) : trim s = s :=
  trim_eq_of_append (l := []) (r := []) (by simp) (by simp) (by simp) hs

theorem splitWhitespace_intercalate {sep : Char} (hsep : isWhitespace sep = true) {l : List String}
    (hl : ∀ s ∈ l, s ≠ "" ∧ ∀ c ∈ s.toList, isWhitespace c = false) :
    splitWhitespace ((String.singleton sep).intercalate l) = l := by
  induction l with
  | nil => simp [splitWhitespace]
  | cons s l ih =>
    obtain ⟨hne, hword⟩ := hl s List.mem_cons_self
    have hne' : s.toList ≠ [] := by simpa using hne
    by_cases hnil : l = []
    · rw [hnil, String.intercalate_singleton, splitWhitespace, List.splitOnP_eq_singleton hword]
      simp [hne]
    · have hrest := ih fun t ht => hl t (List.mem_cons_of_mem s ht)
      rw [splitWhitespace] at hrest ⊢
      rw [String.intercalate_cons_of_ne_nil hnil, String.toList_append, String.toList_append,
        String.toList_singleton, List.append_assoc, List.singleton_append,
        List.splitOnP_append_cons_of_forall_mem hword sep hsep,
        List.filter_cons_of_pos (by simpa using hne), List.map_cons, hrest, String.ofList_toList]

theorem length_split (c : Char) (s : String) : (split c s).length = s.toList.count c + 1 := by
  rw [split, List.length_map]
  generalize s.toList = cs
  induction cs with
  | nil => rfl
  | cons x cs ih =>
    rw [List.splitOn_cons_eq_if_modifyHead, List.count_cons]
    split
    · rw [List.length_cons, ih]
    · rw [List.length_modifyHead, ih]

theorem trimMatches_eq {set : List Char} {s t : String} {l r : List Char}
    (hs : s.toList = l ++ t.toList ++ r) (hl : ∀ c ∈ l, c ∈ set) (hr : ∀ c ∈ r, c ∈ set)
    (ht : ∀ c ∈ t.toList, c ∉ set) : trimMatches set s = t := by
  have hfront : ∀ m rest : List Char, (∀ c ∈ m, set.contains c = true) →
      (m ++ rest).dropWhile (set.contains ·) = rest.dropWhile (set.contains ·) :=
    fun _ _ hm => List.dropWhile_append_of_pos hm
  have hstop : ∀ m : List Char, (∀ c ∈ m, c ∉ set) → m.dropWhile (set.contains ·) = m := by
    intro m hm
    cases m with
    | nil => rfl
    | cons c m =>
      refine List.dropWhile_cons_of_neg ?_
      rw [List.contains_iff_mem]
      exact hm c List.mem_cons_self
  rw [trimMatches, hs, List.append_assoc,
    hfront l _ fun c hc => List.contains_iff_mem.mpr (hl c hc)]
  cases hcs : t.toList with
  | nil =>
    have hall := hfront r [] fun c hc => List.contains_iff_mem.mpr (hr c hc)
    rw [List.append_nil] at hall
    rw [List.nil_append, hall, List.dropWhile_nil, List.rdropWhile_nil]
    exact (String.toList_inj.mp (by simp [hcs])).symm
  | cons c m =>
    have hc : ¬set.contains c = true := by
      rw [List.contains_iff_mem]
      exact ht c (by simp [hcs])
    rw [List.cons_append, List.dropWhile_cons_of_neg hc, ← List.cons_append, ← hcs, List.rdropWhile,
      List.reverse_append, hfront, hstop, List.reverse_reverse, String.ofList_toList]
    · simpa using ht
    · simpa using hr

theorem trimMatches_eq_self {set : List Char} {s : String} (h : ∀ c ∈ s.toList, c ∉ set) :
    trimMatches set s = s :=
  trimMatches_eq (l := []) (r := []) (by simp) (by simp) (by simp) h

end Text
