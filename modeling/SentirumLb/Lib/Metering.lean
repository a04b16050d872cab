import Mathlib

/-! # Metered grants

A meter holds tokens up to a cap and is refilled as time passes; a grant costs
a fixed number of them. Refills may lose what is rounded away, so the refill of
a span is only superadditive. Over any interval the grants cost at most the cap
and what the interval refills, whatever the moments at which the meter is read.
-/

/-- A cap, the cost of a grant, and the most that is refilled in a span of time. -/
structure Meter where
  cap : ℕ
  cost : ℕ
  refill : ℕ → ℕ
  refill_add_le : ∀ a b, refill a + refill b ≤ refill (a + b)

namespace Meter

/-- A refill of `rate` tokens in every `unit` of time, rounded down. -/
def linear (cap cost rate unit : ℕ) : Meter where
  cap := cap
  cost := cost
  refill d := rate * d / unit
  refill_add_le a b := by
    rw [Nat.mul_add]
    exact Nat.div_add_div_le_add_div

theorem refill_mono (m : Meter) {a b : ℕ} (h : a ≤ b) : m.refill a ≤ m.refill b := by
  obtain ⟨d, rfl⟩ := Nat.exists_eq_add_of_le h
  have hadd := m.refill_add_le a d
  omega

def grants (a b : ℕ) (log : List (ℕ × Bool)) : ℕ :=
  log.countP fun e => e.2 && decide (a ≤ e.1) && decide (e.1 ≤ b)

/-- What an attempt costs. -/
def paid (m : Meter) (granted : Bool) : ℕ := if granted then m.cost else 0

variable {m : Meter} {tokens tokens' last now : ℕ} {log : List (ℕ × Bool)} {granted : Bool}

/-- The grants are paid for, in every interval that ends now and in every other one. -/
structure Metered (m : Meter) (tokens last : ℕ) (log : List (ℕ × Bool)) : Prop where
  le_cap : tokens ≤ m.cap
  le_last : ∀ e ∈ log, e.1 ≤ last
  spent : ∀ a ≤ last, m.cost * grants a last log + tokens ≤ m.cap + m.refill (last - a)
  window : ∀ a b, a ≤ b → m.cost * grants a b log ≤ m.cap + m.refill (b - a)

theorem grants_append (a b : ℕ) (log : List (ℕ × Bool)) (now : ℕ) (granted : Bool) :
    grants a b (log ++ [(now, granted)]) =
      grants a b log + if granted = true ∧ a ≤ now ∧ now ≤ b then 1 else 0 := by
  simp [grants, List.countP_append, List.countP_singleton, and_assoc]

theorem grants_eq_zero {a b : ℕ} (hlog : ∀ e ∈ log, e.1 ≤ last) (h : last < a) :
    grants a b log = 0 := by
  rw [grants, List.countP_eq_zero]
  intro e he
  have := hlog e he
  simp only [Bool.and_eq_true, decide_eq_true_eq, not_and]
  omega

theorem grants_eq_last {a b : ℕ} (hlog : ∀ e ∈ log, e.1 ≤ last) (h : last ≤ b) :
    grants a b log = grants a last log := by
  apply List.countP_congr
  intro e he
  have hlast : e.1 ≤ last := hlog e he
  simp [hlast, hlast.trans h]

theorem metered_start (h : tokens ≤ m.cap) (last : ℕ) : m.Metered tokens last [] where
  le_cap := h
  le_last := by simp
  spent a _ := by
    simp only [grants, List.countP_nil]
    omega
  window a b _ := by simp [grants]

theorem Metered.skip (h : m.Metered tokens last log) (hnow : last ≤ now) :
    m.Metered tokens now log where
  le_cap := h.le_cap
  le_last e he := (h.le_last e he).trans hnow
  spent a ha := by
    rw [grants_eq_last h.le_last hnow]
    have hcap := h.le_cap
    by_cases hal : a ≤ last
    · have hspent := h.spent a hal
      have hmono := m.refill_mono (Nat.sub_le_sub_right hnow a)
      omega
    · rw [grants_eq_zero h.le_last (Nat.lt_of_not_le hal)]
      omega
  window := h.window

theorem Metered.take (h : m.Metered tokens last log) (hnow : last ≤ now)
    (hcap : tokens' + m.paid granted ≤ m.cap)
    (hrefill : tokens' + m.paid granted ≤ tokens + m.refill (now - last)) :
    m.Metered tokens' now (log ++ [(now, granted)]) := by
  have hlog : ∀ e ∈ log ++ [(now, granted)], e.1 ≤ now := by
    intro e he
    rcases List.mem_append.mp he with he | he
    · exact (h.le_last e he).trans hnow
    · rw [List.mem_singleton.mp he]
  have hcost : ∀ a ≤ now, m.cost * grants a now (log ++ [(now, granted)]) =
      m.cost * grants a last log + m.paid granted := by
    intro a ha
    rw [grants_append, grants_eq_last h.le_last hnow, Nat.mul_add, paid]
    by_cases hg : granted = true <;> simp [hg, ha]
  have hspent : ∀ a ≤ now, m.cost * grants a now (log ++ [(now, granted)]) + tokens' ≤
      m.cap + m.refill (now - a) := by
    intro a ha
    rw [hcost a ha]
    by_cases hal : a ≤ last
    · have hbefore := h.spent a hal
      have hadd := m.refill_add_le (last - a) (now - last)
      have hspan : last - a + (now - last) = now - a := by omega
      rw [hspan] at hadd
      omega
    · rw [grants_eq_zero h.le_last (Nat.lt_of_not_le hal)]
      omega
  refine ⟨by omega, hlog, hspent, ?_⟩
  intro a b hab
  by_cases hb : now ≤ b
  · rw [grants_eq_last hlog hb]
    by_cases ha : a ≤ now
    · have hmono := m.refill_mono (Nat.sub_le_sub_right hb a)
      have := hspent a ha
      omega
    · rw [grants_eq_zero hlog (Nat.lt_of_not_le ha)]
      omega
  · rw [grants_append, if_neg (by omega), Nat.add_zero]
    exact h.window a b hab

/-- The bound of a linear meter, with the rounding multiplied out. -/
theorem Metered.linear_window {cap cost rate unit : ℕ}
    (h : (linear cap cost rate unit).Metered tokens last log) {a b : ℕ} (hab : a ≤ b) :
    cost * grants a b log * unit ≤ cap * unit + rate * (b - a) := by
  have hwindow : cost * grants a b log ≤ cap + rate * (b - a) / unit := h.window a b hab
  calc cost * grants a b log * unit ≤ (cap + rate * (b - a) / unit) * unit :=
        Nat.mul_le_mul_right _ hwindow
    _ = cap * unit + rate * (b - a) / unit * unit := Nat.add_mul _ _ _
    _ ≤ cap * unit + rate * (b - a) := Nat.add_le_add_left (Nat.div_mul_le_self _ _) _

/-! ## Readings one after the other -/

/-- What a meter refills in all when it is read at the end of each of the spans. -/
def refills (m : Meter) (spans : List ℕ) : ℕ := (spans.map m.refill).sum

@[simp] theorem refills_nil (m : Meter) : m.refills [] = 0 := rfl

@[simp] theorem refills_cons (m : Meter) (d : ℕ) (spans : List ℕ) :
    m.refills (d :: spans) = m.refill d + m.refills spans := by
  simp [refills]

/-- Reading more often never refills more. -/
theorem refills_le (m : Meter) (spans : List ℕ) : m.refills spans ≤ m.refill spans.sum := by
  induction spans with
  | nil => exact Nat.zero_le _
  | cons d spans ih =>
    rw [refills_cons, List.sum_cons]
    exact (Nat.add_le_add_left ih _).trans (m.refill_add_le d spans.sum)

variable {cap cost rate unit : ℕ}

theorem linear_refills_mul_le (spans : List ℕ) :
    (linear cap cost rate unit).refills spans * unit ≤ rate * spans.sum :=
  (Nat.mul_le_mul_right unit (refills_le _ spans)).trans (Nat.div_mul_le_self _ _)

theorem mul_sum_le_linear_refills (hunit : 0 < unit) (spans : List ℕ) :
    rate * spans.sum ≤ ((linear cap cost rate unit).refills spans + spans.length) * unit := by
  induction spans with
  | nil => simp
  | cons d spans ih =>
    have hone : rate * d ≤ (rate * d / unit + 1) * unit :=
      (Nat.lt_mul_of_div_lt (Nat.lt_succ_self _) hunit).le
    have hcons : (linear cap cost rate unit).refills (d :: spans) =
        rate * d / unit + (linear cap cost rate unit).refills spans := refills_cons _ _ _
    rw [hcons, List.sum_cons, List.length_cons]
    calc rate * (d + spans.sum) = rate * d + rate * spans.sum := Nat.mul_add _ _ _
      _ ≤ (rate * d / unit + 1) * unit +
          ((linear cap cost rate unit).refills spans + spans.length) * unit :=
        Nat.add_le_add hone ih
      _ = _ := by ring

section Field

variable {K : Type} [Field K] [LinearOrder K] [IsStrictOrderedRing K]

theorem linear_refills_le_div (hunit : 0 < unit) (spans : List ℕ) :
    ((linear cap cost rate unit).refills spans : K) ≤ rate * spans.sum / unit := by
  rw [le_div_iff₀ (Nat.cast_pos.mpr hunit)]
  exact_mod_cast linear_refills_mul_le spans

theorem div_le_linear_refills (hunit : 0 < unit) (spans : List ℕ) :
    (rate * spans.sum / unit : K) ≤ (linear cap cost rate unit).refills spans + spans.length := by
  rw [div_le_iff₀ (Nat.cast_pos.mpr hunit)]
  exact_mod_cast mul_sum_le_linear_refills hunit spans

end Field

end Meter
