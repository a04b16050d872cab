import Mathlib

/-! # Greedy apportionment

Slots are handed out one by one to groups that are due a number of slots each.
A group that has `m` of its `c` slots stands at `(m + 1 / 2) / c`, and the next
slot goes to the first of the groups that stand lowest. Any two groups then stay
level up to half a slot of each, and summing over all groups bounds how far a
group is from its share. Groups that are due the same are served in turn.
-/

namespace Apportion

open Finset

/-- The next slot goes to `g`: a group that is due one, stands lowest, and is the first of these.
Positions are compared crosswise. -/
structure Next (c : ℕ → ℕ) (G : ℕ) (p : List ℕ) (g : ℕ) : Prop where
  lt : g < G
  due : p.count g < c g
  least : ∀ h < G, p.count h < c h → (2 * p.count g + 1) * c h ≤ (2 * p.count h + 1) * c g
  first : ∀ h < g, p.count h < c h → (2 * p.count g + 1) * c h < (2 * p.count h + 1) * c g

inductive Greedy (c : ℕ → ℕ) (G : ℕ) : List ℕ → Prop where
  | nil : Greedy c G []
  | snoc {p : List ℕ} {g : ℕ} (hp : Greedy c G p) (hg : Next c G p g) : Greedy c G (p ++ [g])

variable {c : ℕ → ℕ} {G : ℕ} {p q : List ℕ} {g h : ℕ}

theorem count_append_singleton (p : List ℕ) (g h : ℕ) :
    (p ++ [g]).count h = p.count h + if g = h then 1 else 0 := by
  simp [List.count_append, List.count_singleton]

theorem Greedy.of_append (hpq : Greedy c G (p ++ q)) : Greedy c G p := by
  induction q using List.reverseRecOn with
  | nil => simpa using hpq
  | append_singleton q g ih =>
    rw [← List.append_assoc] at hpq
    generalize hr : p ++ q ++ [g] = r at hpq
    cases hpq with
    | nil => simp at hr
    | snoc hp hg =>
      obtain ⟨rfl, -⟩ := List.append_inj' hr rfl
      exact ih hp

theorem Greedy.take (hp : Greedy c G p) (k : ℕ) : Greedy c G (p.take k) := by
  rw [← List.take_append_drop k p] at hp
  exact hp.of_append

theorem Greedy.count_le (hp : Greedy c G p) (g : ℕ) : p.count g ≤ c g := by
  induction hp with
  | nil => simp
  | @snoc p x hp hx ih =>
    rw [count_append_singleton]
    have hdue := hx.due
    split
    · next h =>
      subst h
      omega
    · exact ih

theorem Greedy.lt_of_mem (hp : Greedy c G p) : ∀ g ∈ p, g < G := by
  induction hp with
  | nil => simp
  | snoc hp hx ih =>
    intro g hg
    rcases List.mem_append.mp hg with hg | hg
    · exact ih g hg
    · exact List.mem_singleton.mp hg ▸ hx.lt

theorem sum_count (hp : ∀ g ∈ p, g < G) : ∑ g ∈ range G, p.count g = p.length := by
  induction p with
  | nil => simp
  | cons x p ih =>
    have hx : x ∈ range G := mem_range.mpr (hp x List.mem_cons_self)
    simp only [List.count_cons, beq_iff_eq, sum_add_distrib, List.length_cons]
    rw [ih fun g hg => hp g (List.mem_cons_of_mem x hg), sum_ite_eq, if_pos hx]

/-! ## Any two groups stay level -/

/-- No group is ahead of another by more than half a slot of each. -/
def Level (c : ℕ → ℕ) (p : List ℕ) (g h : ℕ) : Prop :=
  2 * p.count g * c h ≤ 2 * p.count h * c g + c g + c h

theorem Next.level (hx : Next c G p g) (hp : p.count h ≤ c h) (hh : h < G) :
    (2 * p.count g + 1) * c h ≤ (2 * p.count h + 1) * c g := by
  rcases hp.lt_or_eq with hdue | hdone
  · exact hx.least h hh hdue
  · rw [hdone]
    have hg := hx.due
    calc (2 * p.count g + 1) * c h ≤ 2 * c g * c h := Nat.mul_le_mul_right _ (by omega)
      _ = 2 * c h * c g := by ring
      _ ≤ (2 * c h + 1) * c g := Nat.mul_le_mul_right _ (by omega)

theorem Greedy.level (hp : Greedy c G p) : ∀ g < G, ∀ h < G, Level c p g h := by
  induction hp with
  | nil =>
    intro g _ h _
    simp [Level]
  | @snoc p x hp hx ih =>
    intro g hg h hh
    have hbefore := ih g hg h hh
    unfold Level at hbefore ⊢
    rw [count_append_singleton, count_append_singleton]
    by_cases hgx : x = g
    · subst hgx
      by_cases hhx : x = h
      · subst hhx
        omega
      · have hnext := hx.level (hp.count_le h) hh
        rw [if_pos rfl, if_neg hhx]
        ring_nf at hnext ⊢
        omega
    · rw [if_neg hgx, Nat.add_zero]
      refine hbefore.trans ?_
      have hmono : 2 * p.count h * c g ≤ 2 * (p.count h + if x = h then 1 else 0) * c g :=
        Nat.mul_le_mul_right _ (by omega)
      omega

theorem Greedy.deviation_le (hp : Greedy c G p) (hg : g < G) {n : ℕ}
    (hn : ∑ h ∈ range G, c h = n) (hpos : 0 < n) :
    |(p.count g : ℚ) - p.length * c g / n| ≤ 1 / 2 + G * c g / (2 * n) := by
  have hcount : ∑ h ∈ range G, (p.count h : ℚ) = p.length := by
    exact_mod_cast sum_count hp.lt_of_mem
  have hsum : ∑ h ∈ range G, (c h : ℚ) = n := by exact_mod_cast hn
  have hn0 : (0 : ℚ) < n := by exact_mod_cast hpos
  have hupper : 2 * (p.count g * n : ℚ) ≤ 2 * (p.length * c g) + G * c g + n := by
    have hle : ∑ h ∈ range G, (2 * p.count g * c h : ℚ) ≤
        ∑ h ∈ range G, (2 * p.count h * c g + c g + c h : ℚ) := by
      refine sum_le_sum fun h hh => ?_
      exact_mod_cast hp.level g hg h (mem_range.mp hh)
    simp only [sum_add_distrib, ← mul_sum, ← sum_mul, sum_const, card_range, nsmul_eq_mul, hsum,
      hcount] at hle
    linarith
  have hlower : 2 * (p.length * c g : ℚ) ≤ 2 * (p.count g * n) + n + G * c g := by
    have hle : ∑ h ∈ range G, (2 * p.count h * c g : ℚ) ≤
        ∑ h ∈ range G, (2 * p.count g * c h + c h + c g : ℚ) := by
      refine sum_le_sum fun h hh => ?_
      exact_mod_cast hp.level h (mem_range.mp hh) g hg
    simp only [sum_add_distrib, ← mul_sum, ← sum_mul, sum_const, card_range, nsmul_eq_mul, hsum,
      hcount] at hle
    linarith
  have hscale : (p.count g : ℚ) - p.length * c g / n =
      (p.count g * n - p.length * c g) / n := by
    field_simp
  have hbound : (1 : ℚ) / 2 + G * c g / (2 * n) = (n + G * c g) / 2 / n := by
    field_simp
  rw [hscale, hbound, abs_div, abs_of_pos hn0]
  refine div_le_div_of_nonneg_right ?_ hn0.le
  rw [abs_le]
  constructor <;> linarith

/-! ## Groups that are due the same -/

def turns (G n g : ℕ) : ℕ := n / G + if g < n % G then 1 else 0

theorem turns_succ (n : ℕ) (hg : g < G) :
    turns G (n + 1) g = turns G n g + if n % G = g then 1 else 0 := by
  have hG : 0 < G := by omega
  have hdiv := Nat.div_add_mod n G
  have hr := Nat.mod_lt n hG
  unfold turns
  by_cases hlast : n % G + 1 = G
  · have hlen : n + 1 = G * (n / G + 1) + 0 := by
      rw [Nat.mul_add]
      omega
    have hq : (n + 1) / G = n / G + 1 := by
      rw [hlen, Nat.add_zero, Nat.mul_div_cancel_left _ hG]
    have hm : (n + 1) % G = 0 := by rw [hlen, Nat.add_zero, Nat.mul_mod_right]
    rw [hq, hm]
    split_ifs <;> omega
  · have hlen : n + 1 = G * (n / G) + (n % G + 1) := by omega
    have hsmall : n % G + 1 < G := by omega
    have hq : (n + 1) / G = n / G := by
      rw [hlen, Nat.mul_add_div hG, Nat.div_eq_of_lt hsmall, Nat.add_zero]
    have hm : (n + 1) % G = n % G + 1 := by
      rw [hlen, Nat.mul_add_mod, Nat.mod_eq_of_lt hsmall]
    rw [hq, hm]
    split_ifs <;> omega

theorem Next.eq_mod {s : ℕ} (hx : Next c G p g) (hc : ∀ h < G, c h = s)
    (hcount : ∀ h < G, p.count h = turns G p.length h) : g = p.length % G := by
  have hr : p.length % G < G := Nat.mod_lt _ (Nat.zero_lt_of_lt hx.lt)
  have hcg := hc g hx.lt
  have hcr := hc _ hr
  have hdue := hx.due
  have hs : 0 < s := by omega
  have hcountg := hcount g hx.lt
  have hcountr := hcount _ hr
  unfold turns at hcountg hcountr
  rw [if_neg (lt_irrefl _)] at hcountr
  rcases lt_trichotomy g (p.length % G) with hlt | heq | hgt
  · exfalso
    rw [if_pos hlt] at hcountg
    have hleast := hx.least _ hr (by omega)
    rw [hcr, hcg] at hleast
    have := Nat.le_of_mul_le_mul_right hleast hs
    omega
  · exact heq
  · exfalso
    rw [if_neg (by omega)] at hcountg
    have hfirst := hx.first _ hgt (by omega)
    rw [hcr, hcg, hcountr, hcountg] at hfirst
    exact lt_irrefl _ hfirst

/-- After `k` slots, the groups before `k % G` are one slot ahead. -/
theorem Greedy.eq_round_robin {s : ℕ} (hp : Greedy c G p) (hc : ∀ g < G, c g = s) :
    p = (List.range p.length).map (· % G) ∧ ∀ g < G, p.count g = turns G p.length g := by
  induction hp with
  | nil => simp [turns]
  | @snoc p x hp hx ih =>
    obtain ⟨heq, hcount⟩ := ih
    have hxr : x = p.length % G := hx.eq_mod hc hcount
    refine ⟨?_, fun g hg => ?_⟩
    · rw [List.length_append, List.length_singleton, List.range_succ, List.map_append, ← heq, hxr]
      rfl
    · rw [count_append_singleton, hcount g hg, List.length_append, List.length_singleton,
        turns_succ _ hg, hxr]

end Apportion
