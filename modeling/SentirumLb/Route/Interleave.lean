import SentirumLb.Route.Weights

/-! # Exact slot counts

With exact rational weights, the slot list of a route holds every target as
often as its weight says. The merge loop is the part that could go wrong: it
takes its slots from the group with the smallest position, and positions are
compared with `f64::MAX`. A group that has slots left stands at a position
below the number of slots, so the group taken always has one left.
-/

namespace SentirumLb

namespace Route

open WeightArith

/-! ## The slots a weight is due -/

/-- A share of 1000 rounded to the nearest, and at least one slot for a positive weight. -/
def slotsDue (w : ℚ) : ℕ :=
  let count := ⌊1000 * min w 1000 + 1 / 2⌋.toNat
  if count = 0 ∧ 0 < w then 1 else count

def slotsOf (ts : List (Arc (Target ℚ))) (t : Target ℚ) : ℕ :=
  if ∀ u ∈ ts, slotsDue u.val.weight = 0 then max 1 ⌊1000 / (ts.length : ℚ) + 1 / 2⌋.toNat
  else slotsDue t.weight

@[simp] theorem lt_rat (a b : ℚ) : lt a b = decide (a < b) := rfl

theorem clamp_rat {w : ℚ} (h : 0 ≤ w) : clamp 0 1000 w = min w 1000 := by
  change (if w < 0 then 0 else if 1000 < w then 1000 else w) = min w 1000
  rw [if_neg (not_lt.mpr h)]
  split
  · next hlt => rw [min_eq_right hlt.le]
  · next hle => rw [min_eq_left (not_lt.mp hle)]

theorem roundUsize_rat {x : ℚ} (h : x ≤ 1000000) : roundUsize x = ⌊x + 1 / 2⌋.toNat := by
  change min ⌊x + 1 / 2⌋.toNat (2 ^ 64 - 1) = _
  have hfloor : ⌊x + 1 / 2⌋ < 1000001 := by
    rw [Int.floor_lt]
    push_cast
    linarith
  omega

theorem slotCount_eq {t : Target ℚ} (h : 0 ≤ t.weight) : slotCount t = slotsDue t.weight := by
  have hround : roundUsize (clamp 0 ((1000 : ℕ) : ℚ) t.weight * ((1000 : ℕ) : ℚ)) =
      ⌊1000 * min t.weight 1000 + 1 / 2⌋.toNat := by
    rw [Nat.cast_ofNat, clamp_rat h, mul_comm]
    apply roundUsize_rat
    have hle : min t.weight 1000 ≤ 1000 := min_le_right _ _
    linarith
  unfold slotCount slotsDue
  simp only [lt_rat, decide_eq_true_eq]
  simp only [hround]

theorem share_le (n : ℕ) : 1000 / (n : ℚ) ≤ 1000 := by
  rcases Nat.eq_zero_or_pos n with rfl | hn
  · simp
  · have h1 : (1 : ℚ) ≤ n := by exact_mod_cast hn
    rw [div_le_iff₀ (by linarith)]
    linarith

theorem equalSlotCount_eq (n : ℕ) :
    equalSlotCount (W := ℚ) n = max 1 ⌊1000 / (n : ℚ) + 1 / 2⌋.toNat := by
  have hle := share_le n
  unfold equalSlotCount
  rw [max_comm, ← roundUsize_rat (by linarith)]
  congr 2
  push_cast
  ring

theorem groupedSlots_eq {ts : List (Arc (Target ℚ))} (hw : ∀ t ∈ ts, 0 ≤ t.val.weight) :
    groupedSlots ts = ts.flatMap fun t => List.replicate (slotsOf ts t.val) t := by
  have hslots : ts.flatMap (fun t => List.replicate (slotCount t.val) t) =
      ts.flatMap fun t => List.replicate (slotsDue t.val.weight) t :=
    List.flatMap_congr fun t ht => by rw [slotCount_eq (hw t ht)]
  have hzero : (ts.flatMap fun t => List.replicate (slotsDue t.val.weight) t) = [] ↔
      ∀ u ∈ ts, slotsDue u.val.weight = 0 := by
    simp [List.flatMap_eq_nil_iff, List.replicate_eq_nil_iff]
  unfold groupedSlots slotsOf
  simp only [hslots, List.isEmpty_iff, hzero]
  split
  · simp only [equalSlotCount_eq]
  · rfl

/-! ## Runs of slots -/

/-- An address names one allocation. -/
def AddrInj (ts : List (Arc (Target ℚ))) : Prop :=
  ∀ a ∈ ts, ∀ b ∈ ts, a.addr = b.addr → a = b

def expand (groups : List (Arc (Target ℚ) × ℕ)) : List (Arc (Target ℚ)) :=
  groups.flatMap fun g => List.replicate g.2 g.1

theorem expand_runs {ts : List (Arc (Target ℚ))} (h : AddrInj ts) : expand (runs ts) = ts := by
  induction ts with
  | nil => rfl
  | cons t ts ih =>
    have ht : AddrInj ts := fun a ha b hb =>
      h a (List.mem_cons_of_mem t ha) b (List.mem_cons_of_mem t hb)
    have hts := ih ht
    rw [runs]
    split
    · next u c rest hr =>
      rw [hr] at hts
      have hu : u ∈ ts := mem_of_mem_runs (hr ▸ List.mem_cons_self)
      split
      · next haddr =>
        have hut : u = t := h u (List.mem_cons_of_mem t hu) t List.mem_cons_self haddr
        subst hut
        conv_rhs => rw [← hts]
        simp [expand, List.replicate_succ]
      · conv_rhs => rw [← hts]
        simp [expand]
    · next hr =>
      rw [hr] at hts
      simp only [expand, List.flatMap_nil] at hts
      simp [expand, ← hts]

theorem pos_of_mem_runs {ts : List (Arc (Target ℚ))} {g : Arc (Target ℚ) × ℕ}
    (h : g ∈ runs ts) : 0 < g.2 := by
  induction ts generalizing g with
  | nil => simp [runs] at h
  | cons t ts ih =>
    rw [runs] at h
    split at h
    · next u c rest hr =>
      rw [hr] at ih
      split at h
      · rcases List.mem_cons.mp h with rfl | h
        · exact Nat.succ_pos c
        · exact ih (List.mem_cons_of_mem _ h)
      · rcases List.mem_cons.mp h with rfl | h
        · exact Nat.one_pos
        · exact ih h
    · rw [List.mem_singleton.mp h]
      exact Nat.one_pos

@[simp] theorem length_expand (groups : List (Arc (Target ℚ) × ℕ)) :
    (expand groups).length = (groups.map (·.2)).sum := by
  simp [expand, List.length_flatMap]

/-! ## The merge -/

theorem betterGroup_cases (best : ℕ × ℚ) (e : (ℕ × ℚ) × ℕ) :
    (0 < e.1.1 ∧ e.1.2 < best.2 ∧ betterGroup best e = (e.2, e.1.2)) ∨
      ((0 < e.1.1 → best.2 ≤ e.1.2) ∧ betterGroup best e = best) := by
  unfold betterGroup
  simp only [lt_rat, decide_eq_true_eq]
  split
  · next h => exact Or.inl ⟨h.1, h.2, rfl⟩
  · next h => exact Or.inr ⟨fun he => not_lt.mp fun hlt => h ⟨he, hlt⟩, rfl⟩

theorem foldl_betterGroup_le (l : List ((ℕ × ℚ) × ℕ)) (best : ℕ × ℚ) :
    (l.foldl betterGroup best).2 ≤ best.2 ∧
      ∀ e ∈ l, 0 < e.1.1 → (l.foldl betterGroup best).2 ≤ e.1.2 := by
  induction l generalizing best with
  | nil => simp
  | cons e l ih =>
    obtain ⟨hle, hall⟩ := ih (betterGroup best e)
    rw [List.foldl_cons]
    rcases betterGroup_cases best e with ⟨he, hlt, hb⟩ | ⟨he, hb⟩
    · rw [hb] at hle hall ⊢
      refine ⟨hle.trans hlt.le, ?_⟩
      intro x hx hx0
      rcases List.mem_cons.mp hx with rfl | hx
      · exact hle
      · exact hall x hx hx0
    · rw [hb] at hle hall ⊢
      refine ⟨hle, ?_⟩
      intro x hx hx0
      rcases List.mem_cons.mp hx with rfl | hx
      · exact hle.trans (he hx0)
      · exact hall x hx hx0

theorem foldl_betterGroup_mem (l : List ((ℕ × ℚ) × ℕ)) (best : ℕ × ℚ) :
    l.foldl betterGroup best = best ∨
      ∃ e ∈ l, 0 < e.1.1 ∧ l.foldl betterGroup best = (e.2, e.1.2) := by
  induction l generalizing best with
  | nil => exact Or.inl rfl
  | cons e l ih =>
    rw [List.foldl_cons]
    rcases ih (betterGroup best e) with hfrom | ⟨x, hx, hx0, hfrom⟩
    · rw [hfrom]
      rcases betterGroup_cases best e with ⟨he, -, hb⟩ | ⟨-, hb⟩
      · exact Or.inr ⟨e, List.mem_cons_self, he, hb⟩
      · exact Or.inl hb
    · exact Or.inr ⟨x, List.mem_cons_of_mem e hx, hx0, hfrom⟩

/-- The group taken has a slot left, if some group with a slot left stands below `f64::MAX`. -/
theorem bestGroup_remaining {remaining : List ℕ} {positions : List ℚ} {i r : ℕ} {p : ℚ}
    (hr : remaining[i]? = some r) (hp : positions[i]? = some p) (hpos : 0 < r)
    (hlt : p < maxValue) : ∃ left, remaining[bestGroup remaining positions]? = some (left + 1) := by
  have hmem : ((r, p), i) ∈ (remaining.zip positions).zipIdx := by
    rw [List.mem_zipIdx_iff_getElem?, List.getElem?_zip_eq_some]
    exact ⟨hr, hp⟩
  have hbest := (foldl_betterGroup_le _ (0, maxValue)).2 _ hmem hpos
  rcases foldl_betterGroup_mem (remaining.zip positions).zipIdx (0, maxValue) with
    hfrom | ⟨e, he, he0, hfrom⟩
  · rw [hfrom] at hbest
    exact absurd hbest (not_le.mpr hlt)
  · rw [List.mem_zipIdx_iff_getElem?, List.getElem?_zip_eq_some] at he
    refine ⟨e.1.1 - 1, ?_⟩
    rw [bestGroup, hfrom, he.1]
    congr 1
    omega

/-- The merge loop with checked arithmetic: `none` where an index is out of range or a counter
falls below zero. -/
def interleaveLoopChecked (groups : List (Arc (Target ℚ) × ℕ)) (n : ℕ) :
    ℕ → List ℕ → List ℚ → Option (List (Arc (Target ℚ)))
  | 0, _, _ => some []
  | k + 1, remaining, positions =>
      let g := bestGroup remaining positions
      match groups[g]?, remaining[g]?, positions[g]? with
      | some (t, c), some (left + 1), some position =>
          (interleaveLoopChecked groups n k (remaining.set g left)
            (positions.set g (position + (n : ℚ) / (c : ℚ)))).map (t :: ·)
      | _, _, _ => none

/-- Where a group of `c` slots stands when `r` of them are left. -/
def positionAt (n c r : ℕ) : ℚ := (n : ℚ) / c * (1 / 2 + (c - r))

theorem positionAt_lt {n c r : ℕ} (hr : 0 < r) (hc : 0 < c) (hn : 0 < n) :
    positionAt n c r < n := by
  have hr1 : (1 : ℚ) ≤ r := by exact_mod_cast hr
  have hc1 : (0 : ℚ) < c := by exact_mod_cast hc
  have hn1 : (0 : ℚ) < n := by exact_mod_cast hn
  calc positionAt n c r < (n : ℚ) / c * c :=
        mul_lt_mul_of_pos_left (by linarith) (div_pos hn1 hc1)
    _ = n := by field_simp

theorem positionAt_succ (n c left : ℕ) :
    positionAt n c (left + 1) + (n : ℚ) / c = positionAt n c left := by
  unfold positionAt
  push_cast
  ring

/-- What is left of every group is at most its size, and says where the group stands. -/
structure Merging (groups : List (Arc (Target ℚ) × ℕ)) (n : ℕ) (remaining : List ℕ)
    (positions : List ℚ) : Prop where
  length_eq : remaining.length = groups.length
  le : ∀ (i : ℕ) t (c r : ℕ), groups[i]? = some (t, c) → remaining[i]? = some r → r ≤ c
  position : ∀ (i : ℕ) t (c r : ℕ), groups[i]? = some (t, c) → remaining[i]? = some r →
    positions[i]? = some (positionAt n c r)

def expandLeft (groups : List (Arc (Target ℚ) × ℕ)) (remaining : List ℕ) :
    List (Arc (Target ℚ)) :=
  (groups.zip remaining).flatMap fun e => List.replicate e.2 e.1.1

theorem expandLeft_sizes (groups : List (Arc (Target ℚ) × ℕ)) :
    expandLeft groups (groups.map (·.2)) = expand groups := by
  induction groups with
  | nil => rfl
  | cons g groups ih => simpa [expandLeft, expand] using ih

theorem length_expandLeft {groups : List (Arc (Target ℚ) × ℕ)} {remaining : List ℕ}
    (h : remaining.length = groups.length) :
    (expandLeft groups remaining).length = remaining.sum := by
  have hsnd : (groups.zip remaining).map Prod.snd = remaining := List.map_snd_zip h.le
  conv_rhs => rw [← hsnd]
  simp [expandLeft, List.length_flatMap]

theorem expandLeft_take {groups : List (Arc (Target ℚ) × ℕ)} {remaining : List ℕ} {g left : ℕ}
    {t : Arc (Target ℚ)} {c : ℕ} (hg : groups[g]? = some (t, c))
    (hr : remaining[g]? = some (left + 1)) :
    (expandLeft groups remaining).Perm (t :: expandLeft groups (remaining.set g left)) := by
  induction groups generalizing remaining g with
  | nil => simp at hg
  | cons x groups ih =>
    cases remaining with
    | nil => simp at hr
    | cons r remaining =>
      cases g with
      | zero =>
        simp only [List.getElem?_cons_zero, Option.some.injEq] at hg hr
        subst hg hr
        simp [expandLeft, List.replicate_succ]
      | succ g =>
        simp only [List.getElem?_cons_succ] at hg hr
        have hrest := ih hg hr
        simp only [expandLeft, List.zip_cons_cons, List.flatMap_cons, List.set_cons_succ] at hrest ⊢
        exact (hrest.append_left _).trans List.perm_middle

section Merge

variable {groups : List (Arc (Target ℚ) × ℕ)} {n k : ℕ} {remaining : List ℕ} {positions : List ℚ}

theorem Merging.take (hm : Merging groups n remaining positions) {g left c : ℕ}
    {t : Arc (Target ℚ)} (hg : groups[g]? = some (t, c)) (hr : remaining[g]? = some (left + 1)) :
    Merging groups n (remaining.set g left)
      (positions.set g (positionAt n c (left + 1) + (n : ℚ) / c)) where
  length_eq := by rw [List.length_set, hm.length_eq]
  le i u d r hi hri := by
    rw [List.getElem?_set] at hri
    split at hri
    · next hig =>
      subst hig
      rw [hg] at hi
      cases hi
      have hle := hm.le g t c (left + 1) hg hr
      split at hri <;> cases hri
      omega
    · exact hm.le i u d r hi hri
  position i u d r hi hri := by
    rw [List.getElem?_set] at hri ⊢
    have hlt : g < positions.length :=
      (List.getElem?_eq_some_iff.mp (hm.position g t c (left + 1) hg hr)).1
    split at hri
    · next hig =>
      subst hig
      rw [hg] at hi
      cases hi
      split at hri <;> cases hri
      rw [if_pos rfl, if_pos hlt, positionAt_succ]
    · next hig =>
      rw [if_neg hig]
      exact hm.position i u d r hi hri

variable (hsize : ∀ g ∈ groups, 0 < g.2 ∧ g.2 < 2 ^ 64) (hn : 0 < n) (hmax : (n : ℚ) < maxValue)

include hsize hn hmax

theorem Merging.exists_best (hm : Merging groups n remaining positions) (hsum : 0 < remaining.sum) :
    ∃ t c left, groups[bestGroup remaining positions]? = some (t, c) ∧
      remaining[bestGroup remaining positions]? = some (left + 1) := by
  obtain ⟨r, hr, hr0⟩ : ∃ r ∈ remaining, 0 < r := by
    by_contra h
    have hzero : remaining.sum = 0 := List.sum_eq_zero fun x hx => by
      by_contra hx0
      exact h ⟨x, hx, Nat.pos_of_ne_zero hx0⟩
    omega
  obtain ⟨i, hi, hri⟩ := List.getElem_of_mem hr
  have hri? : remaining[i]? = some r := by rw [List.getElem?_eq_getElem hi, hri]
  obtain ⟨⟨t, c⟩, hg⟩ : ∃ g, groups[i]? = some g :=
    ⟨_, List.getElem?_eq_getElem (hm.length_eq ▸ hi)⟩
  have hc := (hsize _ (List.mem_of_getElem? hg)).1
  obtain ⟨left, hleft⟩ := bestGroup_remaining hri? (hm.position i t c r hg hri?) hr0
    ((positionAt_lt hr0 hc hn).trans hmax)
  have hlt : bestGroup remaining positions < groups.length := by
    rw [← hm.length_eq]
    exact (List.getElem?_eq_some_iff.mp hleft).1
  exact ⟨_, _, left, List.getElem?_eq_getElem hlt, hleft⟩

theorem Merging.exists_step (hm : Merging groups n remaining positions)
    (hsum : remaining.sum = k + 1) :
    ∃ t c left, groups[bestGroup remaining positions]? = some (t, c) ∧
      remaining[bestGroup remaining positions]? = some (left + 1) ∧
      usizePred (left + 1) = left ∧
      (if 0 < c then (n : ℚ) / (c : ℚ) else maxValue) = (n : ℚ) / c ∧
      (remaining.set (bestGroup remaining positions) left).sum = k := by
  obtain ⟨t, c, left, hg, hr⟩ := hm.exists_best hsize hn hmax (by omega)
  refine ⟨t, c, left, hg, hr, ?_, if_pos (hsize _ (List.mem_of_getElem? hg)).1, ?_⟩
  · have hle := hm.le _ t c (left + 1) hg hr
    have hc : c < 2 ^ 64 := (hsize _ (List.mem_of_getElem? hg)).2
    unfold usizePred
    omega
  · have hlen := (expandLeft_take hg hr).length_eq
    rw [List.length_cons, length_expandLeft hm.length_eq,
      length_expandLeft (by rw [List.length_set, hm.length_eq])] at hlen
    omega

/-- The merge emits the slots that are left, in some order, and no counter underflows. -/
theorem Merging.interleaveLoop_perm (hm : Merging groups n remaining positions)
    (hsum : remaining.sum = k) :
    interleaveLoopChecked groups n k remaining positions =
        some (interleaveLoop groups n k remaining positions) ∧
      (interleaveLoop groups n k remaining positions).Perm (expandLeft groups remaining) := by
  induction k generalizing remaining positions with
  | zero =>
    refine ⟨rfl, ?_⟩
    have hnil : expandLeft groups remaining = [] := by
      simp only [expandLeft, List.flatMap_eq_nil_iff, List.replicate_eq_nil_iff]
      intro e he
      exact List.sum_eq_zero_iff.mp hsum e.2 (List.of_mem_zip he).2
    rw [hnil, interleaveLoop]
  | succ k ih =>
    obtain ⟨t, c, left, hg, hr, hpred, hstride, hsum'⟩ := hm.exists_step hsize hn hmax hsum
    have hp := hm.position _ t c (left + 1) hg hr
    obtain ⟨hchecked, hperm⟩ := ih (hm.take hg hr) hsum'
    rw [interleaveLoop, interleaveLoopChecked]
    simp only [hg, hr, hp, hpred, hstride, hchecked, Option.map_some, true_and]
    exact (hperm.cons t).trans (expandLeft_take hg hr).symm

end Merge

theorem merging_start {groups : List (Arc (Target ℚ) × ℕ)} (hsize : ∀ g ∈ groups, 0 < g.2) {n : ℕ}
    (hn : (groups.map (·.2)).sum = n) :
    Merging groups n (groups.map (·.2)) (groups.map fun g =>
      if lt 0 (g.2 : ℚ) then (((groups.map (·.2)).sum : ℕ) : ℚ) / (g.2 : ℚ) * half
      else maxValue) where
  length_eq := List.length_map _
  le i t c r hg hr := by
    simp only [List.getElem?_map, hg, Option.map_some, Option.some.injEq] at hr
    omega
  position i t c r hg hr := by
    simp only [List.getElem?_map, hg, Option.map_some, Option.some.injEq] at hr ⊢
    subst hr
    have hc : (0 : ℚ) < c := by exact_mod_cast hsize _ (List.mem_of_getElem? hg)
    rw [lt_rat, decide_eq_true hc, if_pos rfl, hn]
    change (n : ℚ) / c * (1 / 2) = positionAt n c c
    rw [positionAt, sub_self, add_zero]

def interleaveChecked (groups : List (Arc (Target ℚ) × ℕ)) (n : ℕ) :
    Option (List (Arc (Target ℚ))) :=
  let remaining : List ℕ := groups.map (·.2)
  let positions := groups.map fun g =>
    if lt 0 (g.2 : ℚ) then ((remaining.sum : ℕ) : ℚ) / (g.2 : ℚ) * half else maxValue
  interleaveLoopChecked groups n n remaining positions

/-- `interleave` reorders the slots of its groups, and no counter of it underflows. -/
theorem interleave_perm {groups : List (Arc (Target ℚ) × ℕ)} {n : ℕ}
    (hsize : ∀ g ∈ groups, 0 < g.2 ∧ g.2 < 2 ^ 64) (hne : groups ≠ [])
    (hn : (groups.map (·.2)).sum = n) (hmax : (n : ℚ) < maxValue) :
    interleaveChecked groups n = some (interleave groups n) ∧
      (interleave groups n).Perm (expand groups) := by
  have hpos : 0 < n := by
    obtain ⟨g, hg⟩ := List.exists_mem_of_ne_nil groups hne
    have hle : g.2 ≤ (groups.map (·.2)).sum := List.le_sum_of_mem (List.mem_map_of_mem hg)
    have := (hsize g hg).1
    omega
  have hm := merging_start (fun g hg => (hsize g hg).1) hn
  rw [← expandLeft_sizes]
  exact hm.interleaveLoop_perm hsize hpos hmax hn

/-! ## The slot list -/

theorem cast_lt_maxValue {n : ℕ} (h : n ≤ 2 ^ 64 * 1000000) : (n : ℚ) < maxValue := by
  have hcast : (n : ℚ) ≤ 2 ^ 64 * 1000000 := by exact_mod_cast h
  have hpow : (2 : ℚ) ^ 64 ≤ 2 ^ 971 := pow_le_pow_right₀ one_le_two (by decide)
  calc (n : ℚ) ≤ 2 ^ 64 * 1000000 := hcast
    _ < (2 ^ 53 - 1) * 2 ^ 64 := by norm_num
    _ ≤ (2 ^ 53 - 1) * 2 ^ 971 := mul_le_mul_of_nonneg_left hpow (by norm_num)

theorem slotsDue_le (w : ℚ) : slotsDue w ≤ 1000000 := by
  have hle : min w 1000 ≤ 1000 := min_le_right _ _
  have hfloor : ⌊1000 * min w 1000 + 1 / 2⌋ < 1000001 := by
    rw [Int.floor_lt]
    push_cast
    linarith
  unfold slotsDue
  dsimp only
  split <;> omega

theorem slotsOf_le (ts : List (Arc (Target ℚ))) (t : Target ℚ) : slotsOf ts t ≤ 1000000 := by
  unfold slotsOf
  split
  · have hle := share_le ts.length
    have hfloor : ⌊1000 / (ts.length : ℚ) + 1 / 2⌋ < 1001 := by
      rw [Int.floor_lt]
      push_cast
      linarith
    omega
  · exact slotsDue_le t.weight

theorem countP_flatMap_replicate {ts : List (Arc (Target ℚ))} (hinj : (ts.map (·.addr)).Nodup)
    (f : Arc (Target ℚ) → ℕ) {t : Arc (Target ℚ)} (ht : t ∈ ts) :
    (ts.flatMap fun u => List.replicate (f u) u).countP (fun u => u.addr == t.addr) = f t := by
  induction ts with
  | nil => simp at ht
  | cons u ts ih =>
    rw [List.map_cons, List.nodup_cons] at hinj
    rw [List.flatMap_cons, List.countP_append, List.countP_replicate]
    rcases List.mem_cons.mp ht with rfl | ht
    · have hzero : (ts.flatMap fun u => List.replicate (f u) u).countP
          (fun u => u.addr == t.addr) = 0 := by
        rw [List.countP_eq_zero]
        intro v hv
        obtain ⟨u, hu, hvu⟩ := List.mem_flatMap.mp hv
        rw [List.eq_of_mem_replicate hvu, beq_iff_eq]
        intro he
        exact hinj.1 (he ▸ List.mem_map_of_mem hu)
      simp [hzero]
    · have hne : u.addr ≠ t.addr := fun he => hinj.1 (he ▸ List.mem_map_of_mem ht)
      rw [ih hinj.2 ht]
      simp [hne]

theorem le_countP_expand {groups : List (Arc (Target ℚ) × ℕ)} {t : Arc (Target ℚ)} {c : ℕ}
    (h : (t, c) ∈ groups) : c ≤ (expand groups).countP fun u => u.addr == t.addr := by
  have hsub : (List.replicate c t).Sublist (expand groups) :=
    List.sublist_flatten_of_mem (List.mem_map_of_mem h)
  calc c = (List.replicate c t).countP fun u => u.addr == t.addr := by
        rw [List.countP_replicate, beq_self_eq_true, if_pos rfl]
    _ ≤ _ := hsub.countP_le

section SlotList

variable {ts : List (Arc (Target ℚ))} (hinj : (ts.map (·.addr)).Nodup)
  (hw : ∀ t ∈ ts, 0 ≤ t.val.weight)

include hinj in
theorem expand_runs_groupedSlots : expand (runs (groupedSlots ts)) = groupedSlots ts := by
  apply expand_runs
  intro a ha b hb he
  exact List.inj_on_of_nodup_map hinj (mem_of_mem_groupedSlots ha) (mem_of_mem_groupedSlots hb) he

include hw in
theorem length_groupedSlots_le : (groupedSlots ts).length ≤ ts.length * 1000000 := by
  rw [groupedSlots_eq hw, List.length_flatMap]
  simp only [List.length_replicate]
  have hsum := List.sum_le_card_nsmul (ts.map fun t => slotsOf ts t.val) 1000000 (by
    intro x hx
    obtain ⟨t, -, rfl⟩ := List.mem_map.mp hx
    exact slotsOf_le ts t.val)
  simpa using hsum

include hinj hw

theorem countP_groupedSlots {t : Arc (Target ℚ)} (ht : t ∈ ts) :
    (groupedSlots ts).countP (fun u => u.addr == t.addr) = slotsOf ts t.val := by
  rw [groupedSlots_eq hw]
  exact countP_flatMap_replicate hinj (fun u => slotsOf ts u.val) ht

theorem size_of_mem_runs {g : Arc (Target ℚ) × ℕ} (hg : g ∈ runs (groupedSlots ts)) :
    0 < g.2 ∧ g.2 < 2 ^ 64 := by
  refine ⟨pos_of_mem_runs hg, ?_⟩
  have ht : g.1 ∈ ts := mem_of_mem_groupedSlots (mem_of_mem_runs hg)
  have hle : g.2 ≤ slotsOf ts g.1.val := by
    rw [← countP_groupedSlots hinj hw ht]
    conv_rhs => rw [← expand_runs_groupedSlots hinj]
    exact le_countP_expand hg
  have := slotsOf_le ts g.1.val
  omega

variable (hlen : ts.length < 2 ^ 64)

include hlen

theorem interleave_groupedSlots (hne : ts ≠ []) :
    interleaveChecked (runs (groupedSlots ts)) (groupedSlots ts).length =
        some (interleave (runs (groupedSlots ts)) (groupedSlots ts).length) ∧
      (interleave (runs (groupedSlots ts)) (groupedSlots ts).length).Perm (groupedSlots ts) := by
  have hexp := expand_runs_groupedSlots hinj
  have hsum : ((runs (groupedSlots ts)).map (·.2)).sum = (groupedSlots ts).length := by
    conv_rhs => rw [← hexp]
    exact (length_expand _).symm
  have hruns : runs (groupedSlots ts) ≠ [] := by
    intro hr
    rw [hr] at hexp
    exact groupedSlots_ne_nil hne hexp.symm
  have hmax : ((groupedSlots ts).length : ℚ) < maxValue :=
    cast_lt_maxValue ((length_groupedSlots_le hw).trans (Nat.mul_le_mul_right _ hlen.le))
  have hmerge := interleave_perm (fun g hg => size_of_mem_runs hinj hw hg) hruns hsum hmax
  rwa [hexp] at hmerge

theorem spreadSlots_perm (hne : ts ≠ []) : (spreadSlots ts).Perm (groupedSlots ts) := by
  unfold spreadSlots
  dsimp only
  split
  · split
    · exact (interleave_groupedSlots hinj hw hlen hne).2
    · exact .refl _
  · exact .refl _

end SlotList

/-! ## The weights of a route -/

theorem weightOf_nonneg (ts : List (Target ℚ)) (t : Target ℚ) : 0 ≤ weightOf ts t := by
  unfold weightOf
  split
  · dsimp only
    split
    · next h => exact (decide_eq_true_eq.mp h).le
    · split
      · exact div_nonneg (le_max_right _ _) (Nat.cast_nonneg _)
      · exact le_rfl
  · exact div_nonneg zero_le_one (Nat.cast_nonneg _)

theorem assignWeights_nonneg {ts : List (Arc (Target ℚ))} {t : Arc (Target ℚ)}
    (h : t ∈ assignWeights ts) : 0 ≤ t.val.weight := by
  obtain ⟨e, -, rfl⟩ := List.mem_map.mp h
  exact weightOf_nonneg _ _

theorem nodup_addr_assignWeights (ts : List (Arc (Target ℚ))) :
    ((assignWeights ts).map (·.addr)).Nodup := by
  have haddr : (assignWeights ts).map (·.addr) = List.range' 0 ts.length := by
    rw [assignWeights, List.map_map]
    exact List.zipIdx_map_snd 0 ts
  rw [haddr]
  exact List.nodup_range'

@[simp] theorem length_assignWeights (ts : List (Arc (Target ℚ))) :
    (assignWeights ts).length = ts.length := by
  simp [assignWeights]

end Route

end SentirumLb
