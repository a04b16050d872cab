import Mathlib

/-! # Histograms

A value is counted in the first bucket whose upper bound it does not exceed, and
in one more bucket when it exceeds all of them. The buckets are disjoint. Their
sums up to each bound count the values up to the bound, as long as the bounds
ascend, and the sum of all counts every value. The counts need not be natural
numbers: those of a machine word count modulo its size.
-/

namespace Histogram

variable {α : Type} [LinearOrder α] {β : Type} [AddCommMonoidWithOne β]

def observe : List α → α → List β → List β
  | b :: bounds, x, c :: counts =>
      if x ≤ b then (c + 1) :: counts else c :: observe bounds x counts
  | [], _, c :: counts => (c + 1) :: counts
  | _, _, [] => []

/-- The sums up to each bucket, on top of what was summed before. -/
def cumulative : β → List β → List β
  | _, [] => []
  | acc, c :: counts => (acc + c) :: cumulative (acc + c) counts

/-- How many of the values are up to each bound, and how many there are. -/
def upTo (bounds : List α) (xs : List α) : List β :=
  bounds.map (fun b => ((xs.countP (· ≤ b) : ℕ) : β)) ++ [(xs.length : β)]

theorem length_observe (bounds : List α) (x : α) (counts : List β) :
    (observe bounds x counts).length = counts.length := by
  induction bounds generalizing counts with
  | nil => cases counts <;> rfl
  | cons b bounds ih =>
    cases counts with
    | nil => rfl
    | cons c counts =>
      unfold observe
      split
      · rfl
      · rw [List.length_cons, List.length_cons, ih]

theorem length_cumulative (acc : β) (counts : List β) :
    (cumulative acc counts).length = counts.length := by
  induction counts generalizing acc with
  | nil => rfl
  | cons c counts ih => rw [cumulative, List.length_cons, List.length_cons, ih]

theorem cumulative_succ (acc : β) (counts : List β) :
    cumulative (acc + 1) counts = (cumulative acc counts).map (· + 1) := by
  induction counts generalizing acc with
  | nil => rfl
  | cons c counts ih =>
    have hcomm : acc + 1 + c = acc + c + 1 := add_right_comm acc 1 c
    rw [cumulative, cumulative, List.map_cons, hcomm, ih]

theorem cumulative_observe {bounds : List α} (hsorted : bounds.Pairwise (· ≤ ·)) (x : α)
    (acc : β) {counts : List β} (hlen : counts.length = bounds.length + 1) :
    cumulative acc (observe bounds x counts) =
      List.zipWith (· + ·) (cumulative acc counts)
        (bounds.map (fun b => if x ≤ b then 1 else 0) ++ [1]) := by
  induction bounds generalizing acc counts with
  | nil =>
    obtain ⟨c, rfl⟩ := List.length_eq_one_iff.mp hlen
    simp [observe, cumulative, add_assoc]
  | cons b bounds ih =>
    cases counts with
    | nil => cases hlen
    | cons c counts =>
      rw [List.length_cons, List.length_cons, Nat.add_right_cancel_iff] at hlen
      obtain ⟨hb, hsorted⟩ := List.pairwise_cons.mp hsorted
      unfold observe
      split
      · next hx =>
        have hones : bounds.map (fun b => if x ≤ b then (1 : β) else 0) ++ [1] =
            List.replicate counts.length 1 := by
          rw [hlen, List.replicate_succ', List.append_cancel_right_eq]
          refine List.eq_replicate_iff.mpr ⟨List.length_map _, ?_⟩
          intro n hn
          obtain ⟨b', hb', rfl⟩ := List.mem_map.mp hn
          exact if_pos (hx.trans (hb b' hb'))
        rw [cumulative, cumulative, List.map_cons, List.cons_append, List.zipWith_cons_cons,
          if_pos hx, hones, ← add_assoc, cumulative_succ]
        congr 1
        rw [← length_cumulative (acc + c) counts, ← List.map_const', List.zipWith_map_right,
          List.zipWith_self]
      · next hx =>
        rw [cumulative, cumulative, List.map_cons, List.cons_append, List.zipWith_cons_cons,
          if_neg hx, ih hsorted (acc + c) hlen, add_zero]

theorem upTo_concat (bounds xs : List α) (x : α) :
    (upTo bounds (xs ++ [x]) : List β) = List.zipWith (· + ·) (upTo bounds xs)
      (bounds.map (fun b => if x ≤ b then 1 else 0) ++ [1]) := by
  unfold upTo
  rw [List.zipWith_append (by rw [List.length_map, List.length_map]), List.zipWith_map,
    List.zipWith_self, List.length_append]
  congr 1
  · refine List.map_congr_left fun b _ => ?_
    simp [List.countP_append, List.countP_singleton]
  · simp

/-- After any values, the sums up to the bounds count the values up to them. -/
theorem cumulative_foldl_observe {bounds : List α} (hsorted : bounds.Pairwise (· ≤ ·))
    (xs : List α) :
    cumulative (0 : β) (xs.foldl (fun counts x => observe bounds x counts)
      (List.replicate (bounds.length + 1) 0)) = upTo bounds xs := by
  have hlen : ∀ xs : List α, (xs.foldl (fun counts x => observe bounds x counts)
      (List.replicate (bounds.length + 1) (0 : β))).length = bounds.length + 1 := by
    intro xs
    induction xs using List.reverseRecOn with
    | nil => exact List.length_replicate
    | append_singleton xs x ih => rw [List.foldl_concat, length_observe, ih]
  induction xs using List.reverseRecOn with
  | nil =>
    have hzeros : ∀ n : ℕ, cumulative (0 : β) (List.replicate n 0) = List.replicate n 0 := by
      intro n
      induction n with
      | zero => rfl
      | succ n ih => rw [List.replicate_succ, cumulative, add_zero, ih]
    rw [List.foldl_nil, hzeros, upTo, List.replicate_succ', List.length_nil]
    simp
  | append_singleton xs x ih =>
    rw [List.foldl_concat, cumulative_observe hsorted x 0 (hlen xs), ih, upTo_concat]

theorem pairwise_upTo {bounds : List α} (hsorted : bounds.Pairwise (· ≤ ·)) (xs : List α) :
    (upTo bounds xs : List ℕ).Pairwise (· ≤ ·) := by
  refine List.pairwise_append.mpr ⟨?_, List.pairwise_singleton _ _, ?_⟩
  · refine List.pairwise_map.mpr (hsorted.imp fun {b b'} hb => ?_)
    refine List.countP_mono_left fun x _ hx => ?_
    exact decide_eq_true ((of_decide_eq_true hx).trans hb)
  · intro n hn m hm
    obtain ⟨b, -, rfl⟩ := List.mem_map.mp hn
    rw [List.mem_singleton.mp hm]
    exact List.countP_le_length

end Histogram
