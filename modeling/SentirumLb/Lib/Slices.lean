import SentirumLb.Lib.Text

/-! # Slices of texts

Searches in a text give byte offsets, and a slice takes two of them. A slice
whose offsets are not in order, not in range or not between two characters has
no value, where the program would panic.
-/

namespace Text

def slice (start stop : ℕ) (cs : List Char) : Option (List Char) :=
  if start ≤ stop then
    (takeBytes start cs).bind fun skipped => takeBytes (stop - start) (cs.drop skipped.length)
  else none

def find (pattern : List Char) : List Char → Option ℕ
  | [] => if pattern.isPrefixOf [] then some 0 else none
  | c :: cs =>
      if pattern.isPrefixOf (c :: cs) then some 0
      else (find pattern cs).map (c.utf8Size + ·)

def rfind (c : Char) : List Char → Option ℕ
  | [] => none
  | d :: cs =>
      match rfind c cs with
      | some i => some (d.utf8Size + i)
      | none => if d = c then some 0 else none

variable {cs : List Char}

theorem slice_eq_some_iff {start stop : ℕ} {m : List Char} : slice start stop cs = some m ↔
    ∃ a b, cs = a ++ m ++ b ∧ String.utf8Len a = start ∧ start + String.utf8Len m = stop := by
  unfold slice
  constructor
  · intro h
    split at h
    · next hle =>
      obtain ⟨a, ha, hm⟩ := Option.bind_eq_some_iff.mp h
      obtain ⟨⟨rest, rfl⟩, hlen⟩ := takeBytes_eq_some_iff.mp ha
      rw [List.drop_left] at hm
      obtain ⟨⟨b, rfl⟩, hstop⟩ := takeBytes_eq_some_iff.mp hm
      exact ⟨a, b, (List.append_assoc _ _ _).symm, hlen, by omega⟩
    · cases h
  · rintro ⟨a, b, rfl, rfl, rfl⟩
    have ha : takeBytes (String.utf8Len a) (a ++ m ++ b) = some a :=
      takeBytes_eq_some_iff.mpr ⟨⟨m ++ b, (List.append_assoc _ _ _).symm⟩, rfl⟩
    rw [if_pos (Nat.le_add_right _ _), ha, Option.bind_some, List.append_assoc, List.drop_left,
      Nat.add_sub_cancel_left]
    exact takeBytes_eq_some_iff.mpr ⟨⟨b, rfl⟩, rfl⟩

theorem find_eq_some {pattern : List Char} {i : ℕ} (h : find pattern cs = some i) :
    ∃ a b, cs = a ++ pattern ++ b ∧ String.utf8Len a = i ∧
      (i = 0 ↔ pattern <+: cs) := by
  induction cs generalizing i with
  | nil =>
    unfold find at h
    split at h
    · next hp =>
      cases h
      have hnil := List.prefix_nil.mp (List.isPrefixOf_iff_prefix.mp hp)
      exact ⟨[], [], by simp [hnil], rfl, by simp [hnil]⟩
    · cases h
  | cons c cs ih =>
    unfold find at h
    split at h
    · next hp =>
      cases h
      have hprefix := List.isPrefixOf_iff_prefix.mp hp
      obtain ⟨b, hb⟩ := hprefix
      exact ⟨[], b, hb.symm, rfl, by simp [hb ▸ List.prefix_append pattern b]⟩
    · next hp =>
      obtain ⟨j, hj, rfl⟩ := Option.map_eq_some_iff.mp h
      obtain ⟨a, b, rfl, rfl, -⟩ := ih hj
      have hpos := c.utf8Size_pos
      refine ⟨c :: a, b, rfl, by rw [String.utf8Len_cons, Nat.add_comm], ?_⟩
      constructor
      · intro hzero
        omega
      · intro hprefix
        exact absurd (List.isPrefixOf_iff_prefix.mpr hprefix) hp

theorem find_eq_none_iff {pattern : List Char} : find pattern cs = none ↔ ¬pattern <:+: cs := by
  induction cs with
  | nil =>
    unfold find
    simp [List.isPrefixOf_iff_prefix]
  | cons c cs ih =>
    unfold find
    rw [List.infix_cons_iff, not_or, ← ih]
    by_cases hp : pattern <+: c :: cs
    · simp [List.isPrefixOf_iff_prefix, hp]
    · simp [List.isPrefixOf_iff_prefix, hp]

theorem not_mem_of_rfind_eq_none {c : Char} (h : rfind c cs = none) : c ∉ cs := by
  induction cs with
  | nil => simp
  | cons d cs ih =>
    unfold rfind at h
    cases hr : rfind c cs with
    | some j => simp [hr] at h
    | none =>
      simp only [hr, ite_eq_right_iff, reduceCtorEq, imp_false] at h
      simp only [List.mem_cons, not_or]
      exact ⟨fun he => h he.symm, ih hr⟩

theorem rfind_eq_some {c : Char} {i : ℕ} (h : rfind c cs = some i) :
    ∃ a b, cs = a ++ c :: b ∧ c ∉ b ∧ String.utf8Len a = i := by
  induction cs generalizing i with
  | nil => cases h
  | cons d cs ih =>
    unfold rfind at h
    cases hr : rfind c cs with
    | some j =>
      rw [hr] at h
      cases h
      obtain ⟨a, b, rfl, hb, rfl⟩ := ih hr
      exact ⟨d :: a, b, rfl, hb, by rw [String.utf8Len_cons, Nat.add_comm]⟩
    | none =>
      rw [hr] at h
      simp only [Option.ite_none_right_eq_some, Option.some.injEq] at h
      obtain ⟨rfl, rfl⟩ := h
      exact ⟨[], cs, rfl, not_mem_of_rfind_eq_none hr, rfl⟩

theorem rfind_of_not_mem {c : Char} (h : c ∉ cs) : rfind c cs = none := by
  cases hr : rfind c cs with
  | none => rfl
  | some i =>
    obtain ⟨a, b, rfl, -, -⟩ := rfind_eq_some hr
    exact absurd (List.mem_append_right a List.mem_cons_self) h

theorem rfind_append_cons {c : Char} {a b : List Char} (hb : c ∉ b) :
    rfind c (a ++ c :: b) = some (String.utf8Len a) := by
  induction a with
  | nil =>
    rw [List.nil_append, rfind, rfind_of_not_mem hb]
    exact if_pos rfl
  | cons d a ih => rw [List.cons_append, rfind, ih, String.utf8Len_cons, Nat.add_comm]

theorem find_append {c : Char} {p a b : List Char} (ha : c ∉ a) :
    find (c :: p) (a ++ (c :: p ++ b)) = some (String.utf8Len a) := by
  induction a with
  | nil =>
    have hprefix : (c :: p).isPrefixOf (c :: (p ++ b)) = true :=
      List.isPrefixOf_iff_prefix.mpr (List.prefix_append (c :: p) b)
    rw [List.nil_append, List.cons_append, find, if_pos hprefix]
    rfl
  | cons d a ih =>
    rw [List.mem_cons, not_or] at ha
    have hprefix : ¬(c :: p).isPrefixOf (d :: (a ++ (c :: p ++ b))) = true := by
      rw [List.isPrefixOf_iff_prefix, List.cons_prefix_cons]
      exact fun h => ha.1 h.1
    rw [List.cons_append, find, if_neg hprefix, ih ha.2, Option.map_some, String.utf8Len_cons,
      Nat.add_comm]

end Text
