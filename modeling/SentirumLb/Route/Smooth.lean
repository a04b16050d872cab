import SentirumLb.Lib.Apportion
import SentirumLb.Route.RoundRobin

/-! # Smooth interleaving

The merge loop hands out slots greedily: the group it takes stands lowest, and
is the first of those that do. Every prefix of the slot list then holds about
as many slots of a group as its share of the prefix, and groups of one size
take turns.
-/

namespace SentirumLb

namespace Route

open WeightArith

section Picks

variable {W : Type} [WeightArith W]

def picksLoop (groups : List (Arc (Target W) × ℕ)) (n : ℕ) : ℕ → List ℕ → List W → List ℕ
  | 0, _, _ => []
  | k + 1, remaining, positions =>
      let g := bestGroup remaining positions
      match groups[g]?, remaining[g]?, positions[g]? with
      | some (_, c), some left, some position =>
          let stride : W := if 0 < c then (n : W) / (c : W) else maxValue
          g :: picksLoop groups n k (remaining.set g (usizePred left))
            (positions.set g (position + stride))
      | _, _, _ => []

def picks (groups : List (Arc (Target W) × ℕ)) (n : ℕ) : List ℕ :=
  let remaining : List ℕ := groups.map (·.2)
  let total := remaining.sum
  let positions := groups.map fun g =>
    if lt 0 (g.2 : W) then (total : W) / (g.2 : W) * half else maxValue
  picksLoop groups n n remaining positions

omit [WeightArith W] in
def targetAt (groups : List (Arc (Target W) × ℕ)) (g : ℕ) : Option (Arc (Target W)) :=
  groups[g]?.map (·.1)

theorem map_some_interleaveLoop (groups : List (Arc (Target W) × ℕ)) (n k : ℕ)
    (remaining : List ℕ) (positions : List W) :
    (interleaveLoop groups n k remaining positions).map some =
      (picksLoop groups n k remaining positions).map (targetAt groups) := by
  induction k generalizing remaining positions with
  | zero => rfl
  | succ k ih =>
    rw [interleaveLoop, picksLoop]
    cases hg : groups[bestGroup remaining positions]? with
    | none => rfl
    | some e =>
      cases remaining[bestGroup remaining positions]? with
      | none => rfl
      | some left =>
        cases positions[bestGroup remaining positions]? with
        | none => rfl
        | some position => simp only [List.map_cons, ih, targetAt, hg, Option.map_some]

theorem map_some_interleave (groups : List (Arc (Target W) × ℕ)) (n : ℕ) :
    (interleave groups n).map some = (picks groups n).map (targetAt groups) :=
  map_some_interleaveLoop groups n n _ _

end Picks

/-! ## The group taken -/

theorem foldl_betterGroup_cases (l : List ((ℕ × ℚ) × ℕ)) (best : ℕ × ℚ) :
    l.foldl betterGroup best = best ∨ (l.foldl betterGroup best).2 < best.2 := by
  induction l generalizing best with
  | nil => exact Or.inl rfl
  | cons e l ih =>
    rw [List.foldl_cons]
    rcases betterGroup_cases best e with ⟨-, hlt, hb⟩ | ⟨-, hb⟩
    · rw [hb]
      exact Or.inr ((foldl_betterGroup_le l (e.2, e.1.2)).1.trans_lt hlt)
    · rw [hb]
      exact ih best

theorem foldl_betterGroup_first {l : List ((ℕ × ℚ) × ℕ)} {best : ℕ × ℚ}
    (hsorted : l.Pairwise fun a b => a.2 < b.2) (hlt : (l.foldl betterGroup best).2 < best.2) :
    ∀ e ∈ l, 0 < e.1.1 → e.2 < (l.foldl betterGroup best).1 →
      (l.foldl betterGroup best).2 < e.1.2 := by
  induction l generalizing best with
  | nil => simp
  | cons e l ih =>
    obtain ⟨he, hl⟩ := List.pairwise_cons.mp hsorted
    rw [List.foldl_cons] at hlt ⊢
    intro x hx hx0 hfirst
    rcases betterGroup_cases best e with ⟨he0, -, hb⟩ | ⟨hbest, hb⟩
    · rw [hb] at hlt hfirst ⊢
      rcases foldl_betterGroup_cases l (e.2, e.1.2) with hsame | hbelow
      · -- the entry itself is the best, and every other one comes after it
        exfalso
        rw [hsame] at hfirst
        rcases List.mem_cons.mp hx with rfl | hx
        · exact lt_irrefl _ hfirst
        · exact lt_asymm hfirst (he x hx)
      · rcases List.mem_cons.mp hx with rfl | hx
        · exact hbelow
        · exact ih hl hbelow x hx hx0 hfirst
    · rw [hb] at hlt hfirst ⊢
      rcases List.mem_cons.mp hx with rfl | hx
      · exact hlt.trans_le (hbest hx0)
      · exact ih hl hlt x hx hx0 hfirst

theorem pairwise_zipIdx {α : Type} (l : List α) : l.zipIdx.Pairwise fun a b => a.2 < b.2 := by
  rw [← List.pairwise_map (f := Prod.snd) (R := (· < ·)), List.zipIdx_map_snd]
  exact List.pairwise_lt_range'

theorem bestGroup_least {remaining : List ℕ} {positions : List ℚ} {g i r : ℕ} {x y : ℚ}
    (hg : bestGroup remaining positions = g) (hx : positions[g]? = some x)
    (hgpos : ∃ left, remaining[g]? = some (left + 1)) (hmax : x < maxValue)
    (hr : remaining[i]? = some r) (hy : positions[i]? = some y) (hpos : 0 < r) :
    x ≤ y ∧ (i < g → x < y) := by
  obtain ⟨left, hleft⟩ := hgpos
  have hmem : ∀ {j s z}, remaining[j]? = some s → positions[j]? = some z →
      ((s, z), j) ∈ (remaining.zip positions).zipIdx := by
    intro j s z hs hz
    rw [List.mem_zipIdx_iff_getElem?, List.getElem?_zip_eq_some]
    exact ⟨hs, hz⟩
  have hall := (foldl_betterGroup_le (remaining.zip positions).zipIdx (0, maxValue)).2
  have hbelow : ((remaining.zip positions).zipIdx.foldl betterGroup (0, maxValue)).2 <
      (0, (maxValue : ℚ)).2 := (hall _ (hmem hleft hx) (Nat.succ_pos left)).trans_lt hmax
  have hbest : ((remaining.zip positions).zipIdx.foldl betterGroup (0, maxValue)).2 = x := by
    rcases foldl_betterGroup_mem (remaining.zip positions).zipIdx (0, maxValue) with
      hfrom | ⟨e, he, -, hfrom⟩
    · rw [hfrom] at hbelow
      exact absurd hbelow (lt_irrefl _)
    · rw [List.mem_zipIdx_iff_getElem?, List.getElem?_zip_eq_some] at he
      have heg : e.2 = g := by rw [← hg, bestGroup, hfrom]
      rw [heg, hx] at he
      rw [hfrom]
      exact (Option.some.inj he.2).symm
  refine ⟨hbest ▸ hall _ (hmem hr hy) hpos, fun hi => ?_⟩
  have hfirst := foldl_betterGroup_first (pairwise_zipIdx _) hbelow _ (hmem hr hy) hpos
    (by rw [← hg] at hi; exact hi)
  rwa [hbest] at hfirst

theorem positionAt_le_iff {n c d m m' : ℕ} (hn : 0 < n) (hc : 0 < c) (hd : 0 < d) (hm : m ≤ c)
    (hm' : m' ≤ d) : positionAt n c (c - m) ≤ positionAt n d (d - m') ↔
      (2 * m + 1) * d ≤ (2 * m' + 1) * c := by
  have hn0 : (0 : ℚ) < n := by exact_mod_cast hn
  have hc0 : (0 : ℚ) < c := by exact_mod_cast hc
  have hd0 : (0 : ℚ) < d := by exact_mod_cast hd
  have hleft : positionAt n c (c - m) = n / 2 * ((2 * m + 1) / c) := by
    unfold positionAt
    push_cast [hm]
    field_simp
    ring
  have hright : positionAt n d (d - m') = n / 2 * ((2 * m' + 1) / d) := by
    unfold positionAt
    push_cast [hm']
    field_simp
    ring
  rw [hleft, hright, mul_le_mul_iff_right₀ (by positivity), div_le_div_iff₀ hc0 hd0]
  exact_mod_cast Iff.rfl

theorem positionAt_lt_iff {n c d m m' : ℕ} (hn : 0 < n) (hc : 0 < c) (hd : 0 < d) (hm : m ≤ c)
    (hm' : m' ≤ d) : positionAt n c (c - m) < positionAt n d (d - m') ↔
      (2 * m + 1) * d < (2 * m' + 1) * c := by
  rw [← not_le, positionAt_le_iff hn hd hc hm' hm, not_le]

/-! ## The loop is greedy -/

/-- The number of slots that a group is due. -/
def due (groups : List (Arc (Target ℚ) × ℕ)) (g : ℕ) : ℕ := (groups.map (·.2)).getD g 0

theorem due_eq {groups : List (Arc (Target ℚ) × ℕ)} {g c : ℕ} {t : Arc (Target ℚ)}
    (h : groups[g]? = some (t, c)) : due groups g = c := by
  simp [due, h]

theorem sum_due (groups : List (Arc (Target ℚ) × ℕ)) :
    ∑ g ∈ Finset.range groups.length, due groups g = (groups.map (·.2)).sum := by
  induction groups with
  | nil => rfl
  | cons g groups ih =>
    rw [List.length_cons, Finset.sum_range_succ', List.map_cons, List.sum_cons, ← ih, add_comm]
    rfl

section Greedy

variable {groups : List (Arc (Target ℚ) × ℕ)} {n k : ℕ} {remaining : List ℕ}
  {positions : List ℚ} {p : List ℕ}

/-- What is left of every group is what it is due less what it was given. -/
def Given (groups : List (Arc (Target ℚ) × ℕ)) (p : List ℕ) (remaining : List ℕ) : Prop :=
  ∀ g < groups.length, remaining[g]? = some (due groups g - p.count g)

theorem given_start (groups : List (Arc (Target ℚ) × ℕ)) :
    Given groups [] (groups.map (·.2)) := by
  intro g hg
  simp [due, hg]

theorem Given.take (hgiven : Given groups p remaining) {g left : ℕ} (hg : g < groups.length)
    (hleft : remaining[g]? = some (left + 1)) :
    Given groups (p ++ [g]) (remaining.set g left) := by
  intro h hh
  rw [List.getElem?_set, Apportion.count_append_singleton]
  by_cases hgh : g = h
  · subst hgh
    have hbefore := hgiven g hg
    rw [hleft] at hbefore
    have hcount := Option.some.inj hbefore
    have hlt : g < remaining.length := (List.getElem?_eq_some_iff.mp hleft).1
    rw [if_pos rfl, if_pos hlt, if_pos rfl]
    congr 1
    omega
  · rw [if_neg hgh, if_neg hgh, Nat.add_zero]
    exact hgiven h hh

variable (hsize : ∀ g ∈ groups, 0 < g.2 ∧ g.2 < 2 ^ 64) (hn : 0 < n) (hmax : (n : ℚ) < maxValue)

include hsize hn hmax

theorem next_bestGroup (hm : Merging groups n remaining positions)
    (hgiven : Given groups p remaining) (hsum : 0 < remaining.sum) :
    Apportion.Next (due groups) groups.length p (bestGroup remaining positions) := by
  obtain ⟨t, c, left, hg, hleft⟩ := hm.exists_best hsize hn hmax hsum
  have hlt : bestGroup remaining positions < groups.length := (List.getElem?_eq_some_iff.mp hg).1
  have hc := (hsize _ (List.mem_of_getElem? hg)).1
  have hbefore := hgiven _ hlt
  rw [hleft, due_eq hg, Option.some.injEq] at hbefore
  have hx := hm.position _ t c (left + 1) hg hleft
  have hxmax := (positionAt_lt (Nat.succ_pos left) hc hn).trans hmax
  have hothers : ∀ h < groups.length, p.count h < due groups h →
      (2 * p.count (bestGroup remaining positions) + 1) * due groups h ≤
          (2 * p.count h + 1) * c ∧
        (h < bestGroup remaining positions →
          (2 * p.count (bestGroup remaining positions) + 1) * due groups h <
            (2 * p.count h + 1) * c) := by
    intro h hh hdue
    obtain ⟨⟨u, d⟩, hgroup⟩ : ∃ e, groups[h]? = some e := ⟨_, List.getElem?_eq_getElem hh⟩
    have hd := (hsize _ (List.mem_of_getElem? hgroup)).1
    have hr := hgiven h hh
    rw [due_eq hgroup] at hr hdue ⊢
    have hleast := bestGroup_least rfl hx ⟨left, hleft⟩ hxmax hr (hm.position h u d _ hgroup hr)
      (by omega)
    have hcg : p.count (bestGroup remaining positions) ≤ c := by omega
    rw [hbefore, positionAt_le_iff hn hc hd hcg hdue.le,
      positionAt_lt_iff hn hc hd hcg hdue.le] at hleast
    exact hleast
  refine ⟨hlt, ?_, fun h hh hdue => ?_, fun h hh hdue => ?_⟩
  · rw [due_eq hg]
    omega
  · rw [due_eq hg]
    exact (hothers h hh hdue).1
  · rw [due_eq hg]
    exact (hothers h (hh.trans hlt) hdue).2 hh

/-- The loop goes on with a greedy apportionment until all slots are handed out. -/
theorem greedy_picksLoop (hm : Merging groups n remaining positions)
    (hgiven : Given groups p remaining) (hp : Apportion.Greedy (due groups) groups.length p)
    (hsum : remaining.sum = k) :
    Apportion.Greedy (due groups) groups.length (p ++ picksLoop groups n k remaining positions) ∧
      (picksLoop groups n k remaining positions).length = k := by
  induction k generalizing remaining positions p with
  | zero => simpa [picksLoop] using hp
  | succ k ih =>
    obtain ⟨t, c, left, hg, hleft, hpred, hstride, hsum'⟩ := hm.exists_step hsize hn hmax hsum
    have hnext := next_bestGroup hsize hn hmax hm hgiven (by omega)
    have hposition := hm.position _ t c (left + 1) hg hleft
    obtain ⟨hgreedy, hlength⟩ := ih (hm.take hg hleft) (hgiven.take hnext.lt hleft)
      (.snoc hp hnext) hsum'
    rw [picksLoop]
    simp only [hg, hleft, hposition, hpred, hstride]
    refine ⟨?_, by rw [List.length_cons, hlength]⟩
    rwa [List.append_assoc, List.singleton_append] at hgreedy

end Greedy

/-! ## The slot list -/

section Smooth

variable {groups : List (Arc (Target ℚ) × ℕ)} {n : ℕ}

theorem targetAt_eq {g : ℕ} (h : g < groups.length) :
    targetAt groups g = some (groups[g]).1 := by
  simp [targetAt, h]

theorem countP_of_map_targetAt (hnodup : (groups.map (·.1.addr)).Nodup)
    {slots : List (Arc (Target ℚ))} {p : List ℕ} (hp : ∀ g ∈ p, g < groups.length)
    (hslots : slots.map some = p.map (targetAt groups)) {g c : ℕ} {t : Arc (Target ℚ)}
    (hg : groups[g]? = some (t, c)) :
    slots.countP (fun u => u.addr == t.addr) = p.count g := by
  have hany : slots.countP (fun u => u.addr == t.addr) =
      (slots.map some).countP fun o => o.any fun u => u.addr == t.addr := by
    rw [List.countP_map]
    rfl
  rw [hany, hslots, List.countP_map, List.count]
  apply List.countP_congr
  intro h hh
  have hlt := hp h hh
  obtain ⟨hglt, hgroup⟩ := List.getElem?_eq_some_iff.mp hg
  rw [Function.comp_apply, targetAt_eq hlt]
  have hg' : g < (groups.map (·.1.addr)).length := by simpa using hglt
  have hh' : h < (groups.map (·.1.addr)).length := by simpa using hlt
  have ht : t.addr = (groups.map (·.1.addr))[g] := by simp [hgroup]
  have hu : (groups[h]).1.addr = (groups.map (·.1.addr))[h] := by simp
  simp only [Option.any_some, beq_iff_eq]
  rw [ht, hu, hnodup.getElem_inj_iff]

theorem range_block {b G s : ℕ} (hb : b < s) :
    (((List.range (G * s)).map (· % G)).drop (b * G)).take G = List.range G := by
  have hle : b * G + G ≤ G * s := by
    calc b * G + G = (b + 1) * G := by ring
      _ ≤ s * G := Nat.mul_le_mul_right _ hb
      _ = G * s := Nat.mul_comm _ _
  apply List.ext_getElem
  · simp only [List.length_take, List.length_drop, List.length_map, List.length_range]
    omega
  · intro i hi _
    have hiG : i < G := by simpa using (List.length_take ▸ hi : i < _) |>.trans_le (min_le_left _ _)
    simp [Nat.mod_eq_of_lt hiG]

variable (hpos : ∀ g ∈ groups, 0 < g.2) (hn : (groups.map (·.2)).sum = n) (hsize : n < 2 ^ 64)

include hpos hn hsize

theorem greedy_picks (hne : groups ≠ []) :
    Apportion.Greedy (due groups) groups.length (picks groups n) ∧ (picks groups n).length = n := by
  have hle : ∀ g ∈ groups, g.2 ≤ n := fun g hg =>
    hn ▸ List.le_sum_of_mem (List.mem_map_of_mem hg)
  have hbound : ∀ g ∈ groups, 0 < g.2 ∧ g.2 < 2 ^ 64 := fun g hg =>
    ⟨hpos g hg, (hle g hg).trans_lt hsize⟩
  have hn0 : 0 < n := by
    obtain ⟨g, hg⟩ := List.exists_mem_of_ne_nil groups hne
    exact (hpos g hg).trans_le (hle g hg)
  exact greedy_picksLoop hbound hn0 (cast_lt_maxValue (by omega)) (merging_start hpos hn)
    (given_start groups) .nil hn

/-- In every prefix of the picks, a group is within half a slot and half its share of a round of
what it is due. -/
theorem picks_deviation_le {k g c : ℕ} {t : Arc (Target ℚ)} (hk : k ≤ n)
    (hg : groups[g]? = some (t, c)) :
    |(((picks groups n).take k).count g : ℚ) - k * c / n| ≤
      1 / 2 + groups.length * c / (2 * n) := by
  have hmem := List.mem_of_getElem? hg
  obtain ⟨hgreedy, hlength⟩ := greedy_picks hpos hn hsize (List.ne_nil_of_mem hmem)
  have hlt : g < groups.length := (List.getElem?_eq_some_iff.mp hg).1
  have hn0 : 0 < n := by
    have hc : 0 < c := hpos _ hmem
    have hle : c ≤ n := hn ▸ List.le_sum_of_mem (List.mem_map_of_mem hmem)
    omega
  have hdeviation := (hgreedy.take k).deviation_le hlt ((sum_due groups).trans hn) hn0
  rwa [due_eq hg, List.length_take, hlength, min_eq_left hk] at hdeviation

/-- The slot list follows the picks, every prefix of it holds about the share of every target, and
groups of one size take turns. -/
theorem interleave_smooth (hgroups : 2 ≤ groups.length) :
    (interleave groups n).map some = (picks groups n).map (targetAt groups) ∧
      (∀ k ≤ n, ∀ (g : ℕ) (t : Arc (Target ℚ)) (c : ℕ), groups[g]? = some (t, c) →
        |(((picks groups n).take k).count g : ℚ) - k * c / n| ≤
          1 / 2 + groups.length * c / (2 * n)) ∧
      ((groups.map (·.1.addr)).Nodup → ∀ k ≤ n, ∀ t (c : ℕ), (t, c) ∈ groups →
        |((((interleave groups n).take k).countP fun u => u.addr == t.addr : ℕ) : ℚ) -
            k * c / n| ≤ 1 / 2 + groups.length * c / (2 * n)) ∧
      ∀ s, (∀ g ∈ groups, g.2 = s) → ∀ b < s,
        ((interleave groups n).drop (b * groups.length)).take groups.length =
          groups.map (·.1) := by
  have hslots := map_some_interleave groups n
  have hne : groups ≠ [] := List.ne_nil_of_length_pos (by omega)
  obtain ⟨hgreedy, hlength⟩ := greedy_picks hpos hn hsize hne
  refine ⟨hslots, fun k hk g t c hg => picks_deviation_le hpos hn hsize hk hg, ?_, ?_⟩
  · intro hnodup k hk t c hmem
    obtain ⟨g, hg⟩ := List.getElem?_of_mem hmem
    have hprefix : ((interleave groups n).take k).map some =
        ((picks groups n).take k).map (targetAt groups) := by
      rw [List.map_take, hslots, List.map_take]
    rw [countP_of_map_targetAt hnodup (hgreedy.take k).lt_of_mem hprefix hg]
    exact picks_deviation_le hpos hn hsize hk hg
  · intro s hs b hb
    have hdue : ∀ g < groups.length, due groups g = s := by
      intro g hg
      rw [due_eq (t := groups[g].1) (c := groups[g].2) (List.getElem?_eq_getElem hg)]
      exact hs _ (List.getElem_mem hg)
    have hround := (hgreedy.eq_round_robin hdue).1
    have htotal : n = groups.length * s := by
      rw [← hn, ← sum_due, Finset.sum_congr rfl fun g hg => hdue g (Finset.mem_range.mp hg)]
      simp
    have hblock : ((picks groups n).drop (b * groups.length)).take groups.length =
        List.range groups.length := by
      rw [hround, hlength, htotal]
      exact range_block hb
    apply List.map_injective_iff.mpr (Option.some_injective _)
    rw [List.map_take, List.map_drop, hslots, ← List.map_drop, ← List.map_take, hblock]
    apply List.ext_getElem (by simp)
    intro g hg _
    simp only [List.length_map, List.length_range] at hg
    simp [targetAt_eq hg]

end Smooth

def exampleGroups : List (Arc (Target ℚ) × ℕ) :=
  runs (groupedSlots exampleRoute.computeWeights.targets)

theorem interleave_smooth_exampleGroups :
    picks exampleGroups 3 = [1, 0, 1] ∧
      ∀ k ≤ 3, ∀ (g : ℕ) (t : Arc (Target ℚ)) (c : ℕ), exampleGroups[g]? = some (t, c) →
        |(((picks exampleGroups 3).take k).count g : ℚ) - k * c / (3 : ℕ)| ≤
          1 / 2 + exampleGroups.length * c / (2 * (3 : ℕ)) := by
  have hsum : (exampleGroups.map (·.2)).sum = 3 := by decide +kernel
  have hlength : 2 ≤ exampleGroups.length := by decide +kernel
  exact ⟨by decide +kernel,
    (interleave_smooth (fun g hg => pos_of_mem_runs hg) hsum (by decide) hlength).2.1⟩

end Route

end SentirumLb
