import Mathlib

/-! # Lists

What becomes of a count, and of an elementwise relation to another list, when
one element of a list is replaced by another; lists that are put together from
parts; and the last entries of a list that grows at its end.
-/

namespace Lists

variable {α β : Type}

theorem countP_set {p : α → Bool} {l : List α} {i : ℕ} {a : α} (h : l[i]? = some a) (b : α) :
    (l.set i b).countP p + (if p a then 1 else 0) = l.countP p + if p b then 1 else 0 := by
  obtain ⟨hi, rfl⟩ := List.getElem?_eq_some_iff.mp h
  have hpos : p l[i] = true → 0 < l.countP p := by
    intro hp
    exact List.countP_pos_iff.mpr ⟨l[i], List.getElem_mem hi, hp⟩
  rw [List.countP_set hi]
  by_cases hp : p l[i] = true
  · have := hpos hp
    rw [if_pos hp]
    omega
  · rw [if_neg hp]
    omega

theorem forall₂_set {R : α → β → Prop} {as : List α} {bs : List β} {i : ℕ} {a : α}
    (h : List.Forall₂ R as bs) (ha : as[i]? = some a) :
    ∃ b, bs[i]? = some b ∧ R a b ∧ ∀ a', R a' b → List.Forall₂ R (as.set i a') bs := by
  induction h generalizing i with
  | nil => simp at ha
  | @cons x y xs ys hxy hrest ih =>
    cases i with
    | zero =>
      cases ha
      exact ⟨y, rfl, hxy, fun a' ha' => .cons ha' hrest⟩
    | succ i =>
      obtain ⟨b, hb, hab, hset⟩ := ih ha
      exact ⟨b, hb, hab, fun a' ha' => .cons hxy (hset a' ha')⟩

theorem flatMap_append_eq_iff {l : List α} {f g : α → List β} :
    l.flatMap (fun a => f a ++ g a) = l.flatMap g ↔ ∀ a ∈ l, f a = [] := by
  constructor
  · intro h
    induction l with
    | nil => simp
    | cons a l ih =>
      rw [List.flatMap_cons, List.flatMap_cons] at h
      have hlen := congrArg List.length h
      have hle : (l.flatMap g).length ≤ (l.flatMap fun a => f a ++ g a).length := by
        simp only [List.length_flatMap, List.length_append]
        exact List.sum_le_sum fun a _ => Nat.le_add_left _ _
      simp only [List.length_append] at hlen
      have ha : f a = [] := List.eq_nil_of_length_eq_zero (by omega)
      rw [ha, List.nil_append] at h
      exact List.forall_mem_cons.mpr ⟨ha, ih (List.append_cancel_left h)⟩
  · intro h
    exact List.flatMap_congr fun a ha => by rw [h a ha, List.nil_append]

/-- Lists with the same entries of every key are permutations of each other. -/
theorem perm_of_forall_filter_eq {κ : Type} [DecidableEq κ] (key : α → κ) {l l' : List α}
    (h : ∀ k, (l.filter fun a => key a = k).Perm (l'.filter fun a => key a = k)) : l.Perm l' := by
  classical
  refine List.perm_iff_count.mpr fun a => ?_
  have hcount : ∀ m : List α, (m.filter fun b => key b = key a).count a = m.count a :=
    fun m => List.count_filter (by simp)
  rw [← hcount l, ← hcount l', (h (key a)).count_eq]

/-! ## The last entries -/

theorem rtake_of_length_le {l : List α} {n : ℕ} (h : l.length ≤ n) : l.rtake n = l := by
  rw [List.rtake, Nat.sub_eq_zero_of_le h, List.drop_zero]

theorem length_rtake (l : List α) (n : ℕ) : (l.rtake n).length = min l.length n := by
  rw [List.rtake, List.length_drop]
  omega

theorem rtake_concat {n : ℕ} (hn : 0 < n) (l : List α) (a : α) : (l ++ [a]).rtake n =
    (if n ≤ (l.rtake n).length then (l.rtake n).tail else l.rtake n) ++ [a] := by
  obtain ⟨m, rfl⟩ : ∃ m, n = m + 1 := ⟨n - 1, by omega⟩
  rw [List.rtake_concat_succ]
  congr 1
  split
  · next hfull =>
    rw [length_rtake] at hfull
    rw [List.rtake, List.rtake, List.tail_drop]
    congr 1
    omega
  · next hroom =>
    rw [length_rtake] at hroom
    rw [rtake_of_length_le (by omega), rtake_of_length_le (by omega)]

/-- Leaving entries out makes no difference to the last ones exactly when none of these is left
out. -/
theorem rtake_filter_eq_iff {p : α → Bool} {l : List α} {n : ℕ} :
    (l.filter p).rtake n = l.rtake n ↔ ∀ a ∈ l.rtake n, p a = true := by
  constructor
  · intro h a ha
    rw [← h] at ha
    exact (List.mem_filter.mp (List.mem_of_mem_drop ha)).2
  · intro h
    have hlast : (l.rtake n).filter p = l.rtake n := List.filter_eq_self.mpr h
    have hsplit : l.filter p = (l.take (l.length - n)).filter p ++ l.rtake n := by
      conv_lhs => rw [← List.take_append_drop (l.length - n) l, List.filter_append]
      rw [← List.rtake, hlast]
    by_cases hn : l.length ≤ n
    · rw [hsplit, Nat.sub_eq_zero_of_le hn]
      simp [rtake_of_length_le hn]
    · have hlen : (l.rtake n).length = n := by
        rw [length_rtake]
        omega
      rw [hsplit, List.rtake, List.length_append, hlen, Nat.add_sub_cancel, List.drop_left]

theorem length_le_one_of_nodup {l : List α} (h : l.Nodup) (heq : ∀ a ∈ l, ∀ b ∈ l, a = b) :
    l.length ≤ 1 := by
  match l with
  | [] => simp
  | [a] => simp
  | a :: b :: rest => simp [heq a (by simp) b (by simp)] at h

/-! ## The first hit -/

theorem findSome?_filter {p : α → Bool} {f : α → Option β} (l : List α) :
    (l.filter p).findSome? f = l.findSome? fun a => if p a then f a else none := by
  induction l with
  | nil => rfl
  | cons a l ih =>
    by_cases hp : p a
    · rw [List.filter_cons_of_pos hp, List.findSome?_cons, List.findSome?_cons, if_pos hp, ih]
    · rw [List.filter_cons_of_neg hp, List.findSome?_cons, if_neg hp, ih]

/-- The first hit is the same in every order of a list exactly when all hits are equal. -/
theorem findSome?_perm_iff {f : α → Option β} {l : List α} :
    (∀ l' : List α, l'.Perm l → l'.findSome? f = l.findSome? f) ↔
      ∀ a ∈ l, ∀ b ∈ l, ∀ x ∈ f a, ∀ y ∈ f b, x = y := by
  constructor
  · intro h
    have hfirst : ∀ a ∈ l, ∀ x ∈ f a, l.findSome? f = some x := by
      intro a ha x hx
      obtain ⟨s, t, rfl⟩ := List.append_of_mem ha
      rw [← h (a :: (s ++ t)) List.perm_middle.symm, List.findSome?_cons, hx]
    intro a ha b hb x hx y hy
    exact Option.some.inj ((hfirst a ha x hx).symm.trans (hfirst b hb y hy))
  · intro h l' hperm
    cases hl' : l'.findSome? f with
    | none =>
      rw [List.findSome?_eq_none_iff] at hl'
      exact (List.findSome?_eq_none_iff.mpr fun a ha => hl' a (hperm.mem_iff.mpr ha)).symm
    | some x =>
      obtain ⟨a, ha, hx⟩ := List.exists_of_findSome?_eq_some hl'
      have hsome : (l.findSome? f).isSome :=
        List.findSome?_isSome_iff.mpr ⟨a, hperm.mem_iff.mp ha, by rw [hx]; rfl⟩
      obtain ⟨y, hy⟩ := Option.isSome_iff_exists.mp hsome
      obtain ⟨b, hb, hfb⟩ := List.exists_of_findSome?_eq_some hy
      rw [hy, h a (hperm.mem_iff.mp ha) b hb x hx y hfb]

end Lists
