import SentirumLb.Lib.Text

/-! # Numerals with a suffix

What is left of a text when all copies of a suffix are cut off its end. A numeral
keeps its last digit, so the copies of a suffix that has no digits are exactly
what stands behind the numeral.
-/

namespace Text

def copies (k : ℕ) (p : List Char) : List Char := (List.replicate k p).flatten

@[simp] theorem copies_zero (p : List Char) : copies 0 p = [] := rfl

theorem copies_succ (k : ℕ) (p : List Char) : copies (k + 1) p = p ++ copies k p := by
  rw [copies, List.replicate_succ, List.flatten_cons, ← copies]

theorem copies_succ' (k : ℕ) (p : List Char) : copies (k + 1) p = copies k p ++ p := by
  rw [copies, List.replicate_succ', List.flatten_append, ← copies]
  simp

theorem reverse_copies (k : ℕ) (p : List Char) : (copies k p).reverse = copies k p.reverse := by
  induction k with
  | zero => rfl
  | succ k ih => rw [copies_succ, List.reverse_append, ih, ← copies_succ']

theorem length_copies (k : ℕ) (p : List Char) : (copies k p).length = k * p.length := by
  rw [copies, List.length_flatten, List.map_replicate, List.sum_replicate, smul_eq_mul]

theorem mem_of_mem_copies {k : ℕ} {p : List Char} {c : Char} (h : c ∈ copies k p) : c ∈ p := by
  rw [copies, List.mem_flatten] at h
  obtain ⟨l, hl, hc⟩ := h
  exact List.eq_of_mem_replicate hl ▸ hc

theorem dropPattern_spec {p : List Char} (hp : p ≠ []) {n : ℕ} {cs : List Char}
    (hn : cs.length ≤ n) : ∃ k, cs = copies k p ++ dropPattern p n cs ∧
      ¬p <+: dropPattern p n cs := by
  have hpos := List.length_pos_iff.mpr hp
  induction n generalizing cs with
  | zero =>
    rw [List.eq_nil_of_length_eq_zero (Nat.le_zero.mp hn)]
    exact ⟨0, rfl, fun h => hp (List.prefix_nil.mp h)⟩
  | succ n ih =>
    unfold dropPattern
    split
    · next h =>
      obtain ⟨rest, rfl⟩ := List.isPrefixOf_iff_prefix.mp h
      rw [List.length_append] at hn
      rw [List.drop_left]
      have hrest : rest.length ≤ n := by omega
      obtain ⟨k, hk, hnot⟩ := ih hrest
      refine ⟨k + 1, ?_, hnot⟩
      rw [copies_succ, List.append_assoc, ← hk]
    · next h => exact ⟨0, rfl, fun hprefix => h (List.isPrefixOf_iff_prefix.mpr hprefix)⟩

theorem dropPattern_copies_append {p rest : List Char} (hp : p ≠ []) (hrest : ¬p <+: rest)
    {k n : ℕ} (hn : (copies k p ++ rest).length ≤ n) :
    dropPattern p n (copies k p ++ rest) = rest := by
  have hpos := List.length_pos_iff.mpr hp
  induction k generalizing n with
  | zero =>
    cases n with
    | zero => rfl
    | succ n =>
      unfold dropPattern
      rw [copies_zero, List.nil_append, if_neg (mt List.isPrefixOf_iff_prefix.mp hrest)]
  | succ k ih =>
    rw [copies_succ, List.append_assoc] at hn ⊢
    rw [List.length_append] at hn
    cases n with
    | zero => omega
    | succ n =>
      unfold dropPattern
      rw [if_pos (List.isPrefixOf_iff_prefix.mpr (List.prefix_append _ _)), List.drop_left]
      exact ih (by omega)

theorem trimEndMatches_eq_iff {s p core : String} (hp : p ≠ "") :
    trimEndMatches s p = core ↔ ¬p.toList <:+ core.toList ∧
      ∃ k, s.toList = core.toList ++ copies k p.toList := by
  have hp' : p.toList.reverse ≠ [] := by simpa using hp
  have hlen : s.toList.reverse.length ≤ s.length := by
    rw [List.length_reverse, String.length_toList]
  constructor
  · rintro rfl
    obtain ⟨k, hk, hnot⟩ := dropPattern_spec hp' hlen
    rw [trimEndMatches, String.toList_ofList, ← List.reverse_prefix, List.reverse_reverse]
    refine ⟨hnot, k, ?_⟩
    have hrev := congrArg List.reverse hk
    rwa [List.reverse_reverse, List.reverse_append, reverse_copies, List.reverse_reverse] at hrev
  · rintro ⟨hnot, k, hs⟩
    rw [← List.reverse_prefix] at hnot
    have hrev : s.toList.reverse = copies k p.toList.reverse ++ core.toList.reverse := by
      rw [hs, List.reverse_append, reverse_copies]
    rw [trimEndMatches, hrev, dropPattern_copies_append hp' hnot (hrev ▸ hlen),
      List.reverse_reverse, String.ofList_toList]

theorem mem_of_mem_trimEndMatches {s p : String} (hp : p ≠ "") {c : Char}
    (h : c ∈ (trimEndMatches s p).toList) : c ∈ s.toList := by
  obtain ⟨-, k, hs⟩ := (trimEndMatches_eq_iff hp).mp rfl
  rw [hs]
  exact List.mem_append_left _ h

theorem mem_of_mem_trimStartMatches {s p : String} (hp : p ≠ "") {c : Char}
    (h : c ∈ (trimStartMatches s p).toList) : c ∈ s.toList := by
  have hp' : p.toList ≠ [] := by simpa using hp
  obtain ⟨k, hs, -⟩ := dropPattern_spec hp' (String.length_toList (s := s)).le
  rw [trimStartMatches, String.toList_ofList] at h
  rw [hs]
  exact List.mem_append_right _ h

theorem parseNat_trimEndMatches_iff {s p : String} (hp : p ≠ "")
    (hdigits : ∀ c ∈ p.toList, c.isDigit = false) {bound n : ℕ} :
    parseNat bound (trimEndMatches s p) = some n ↔
      ∃ signed ds k, s.toList = plusSign signed ++ ds ++ copies k p.toList ∧ IsNumeral ds ∧
        Nat.ofDigitChars 10 ds 0 = n ∧ n < bound := by
  constructor
  · intro h
    obtain ⟨signed, ds, hcore, hds, hn, hlt⟩ := parseNat_eq_some_iff.mp h
    obtain ⟨-, k, hs⟩ := (trimEndMatches_eq_iff hp).mp rfl
    exact ⟨signed, ds, k, by rw [hs, hcore], hds, hn, hlt⟩
  · rintro ⟨signed, ds, k, hs, hds, hn, hlt⟩
    have hcore : trimEndMatches s p = String.ofList (plusSign signed ++ ds) := by
      refine (trimEndMatches_eq_iff hp).mpr ⟨?_, k, by rw [String.toList_ofList, hs]⟩
      rw [String.toList_ofList]
      exact hds.not_suffix (by simpa using hp) hdigits
    rw [hcore]
    exact parseNat_eq_some_iff.mpr ⟨signed, ds, String.toList_ofList, hds, hn, hlt⟩

end Text
