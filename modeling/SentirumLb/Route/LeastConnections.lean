import SentirumLb.Route.Picker

/-! # The least loaded target

Each pass of the picker keeps the first target with the lowest score. The score
of the weighted pass is a load in millionths, cut off to an integer, so that the
loads of two targets with one score differ by less than a millionth. The other
pass starts from nothing, since it runs only when the weighted one found nothing.
-/

namespace SentirumLb

variable {W : Type}

/-! ## One pass -/

/-- The step of a pass that skips some targets. -/
def lowerUnless (skip : Target W → Bool) (score : Target W → ℕ)
    (best : Option (Arc (Target W) × ℕ)) (t : Arc (Target W)) : Option (Arc (Target W) × ℕ) :=
  if skip t.val then best else lowerScore score best t

/-- The target is the first one of the list with the lowest score, of those that are not skipped. -/
structure FirstLowest (skip : Target W → Bool) (score : Target W → ℕ) (ts : List (Arc (Target W)))
    (t : Arc (Target W)) : Prop where
  notSkipped : skip t.val = false
  split : ∃ before behind, ts = before ++ t :: behind ∧
    (∀ u ∈ before, skip u.val = false → score t.val < score u.val) ∧
    ∀ u ∈ behind, skip u.val = false → score t.val ≤ score u.val

variable {skip : Target W → Bool} {score : Target W → ℕ} {ts : List (Arc (Target W))}
  {t x : Arc (Target W)}

theorem FirstLowest.le (h : FirstLowest skip score ts t) {u : Arc (Target W)} (hu : u ∈ ts)
    (hskip : skip u.val = false) : score t.val ≤ score u.val := by
  obtain ⟨before, behind, rfl, hbefore, hbehind⟩ := h.split
  rcases List.mem_append.mp hu with hu | hu
  · exact (hbefore u hu hskip).le
  · rcases List.mem_cons.mp hu with rfl | hu
    · exact le_rfl
    · exact hbehind u hu hskip

theorem FirstLowest.unique (h : FirstLowest skip score ts t) (hx : FirstLowest skip score ts x) :
    t = x := by
  obtain ⟨before, behind, hsplit, hbefore, hbehind⟩ := h.split
  obtain ⟨before', behind', hsplit', hbefore', hbehind'⟩ := hx.split
  rcases List.append_eq_append_iff.mp (hsplit.symm.trans hsplit') with
    ⟨between, rfl, hrest⟩ | ⟨between, rfl, hrest⟩
  · cases between with
    | nil => exact (List.cons.inj hrest).1
    | cons u between =>
      obtain ⟨rfl, rfl⟩ := List.cons.inj hrest
      have hlt := hbefore' t (by simp) h.notSkipped
      have hle := hbehind x (by simp) hx.notSkipped
      omega
  · cases between with
    | nil => exact (List.cons.inj hrest).1.symm
    | cons u between =>
      obtain ⟨rfl, rfl⟩ := List.cons.inj hrest
      have hlt := hbefore x (by simp) hx.notSkipped
      have hle := hbehind' t (by simp) h.notSkipped
      omega

theorem FirstLowest.keep (h : FirstLowest skip score ts t)
    (hx : skip x.val = false → score t.val ≤ score x.val) :
    FirstLowest skip score (ts ++ [x]) t := by
  obtain ⟨before, behind, rfl, hbefore, hbehind⟩ := h.split
  refine ⟨h.notSkipped, before, behind ++ [x], by simp, hbefore, ?_⟩
  intro u hu
  rcases List.mem_append.mp hu with hu | hu
  · exact hbehind u hu
  · rw [List.mem_singleton.mp hu]
    exact hx

theorem FirstLowest.replace (hskip : skip x.val = false)
    (hx : ∀ u ∈ ts, skip u.val = false → score x.val < score u.val) :
    FirstLowest skip score (ts ++ [x]) x :=
  ⟨hskip, ts, [], rfl, hx, nofun⟩

theorem foldl_lowerUnless (skip : Target W → Bool) (score : Target W → ℕ)
    (ts : List (Arc (Target W))) :
    match ts.foldl (lowerUnless skip score) none with
    | some b => b.2 = score b.1.val ∧ FirstLowest skip score ts b.1
    | none => ∀ t ∈ ts, skip t.val = true := by
  induction ts using List.reverseRecOn with
  | nil => exact nofun
  | append_singleton ts x ih =>
    rw [List.foldl_concat]
    cases hbest : ts.foldl (lowerUnless skip score) none with
    | none =>
      rw [hbest] at ih
      unfold lowerUnless
      split_ifs with hskip
      · rintro t ht
        rcases List.mem_append.mp ht with ht | ht
        · exact ih t ht
        · rw [List.mem_singleton.mp ht]
          exact hskip
      · refine ⟨rfl, .replace (Bool.eq_false_iff.mpr hskip) fun u hu hnot => ?_⟩
        simp [ih u hu] at hnot
    | some b =>
      rw [hbest] at ih
      obtain ⟨hscore, hfirst⟩ := ih
      unfold lowerUnless lowerScore
      split_ifs with hskip hlower
      · exact ⟨hscore, hfirst.keep fun hnot => by simp [hskip] at hnot⟩
      · rw [Option.all_some, decide_eq_true_eq, hscore] at hlower
        exact ⟨rfl, .replace (Bool.eq_false_iff.mpr hskip) fun u hu hnot =>
          hlower.trans_le (hfirst.le hu hnot)⟩
      · rw [Option.all_some, decide_eq_true_eq, hscore, not_lt] at hlower
        exact ⟨hscore, hfirst.keep fun _ => hlower⟩

theorem leastConnectionsPick_eq [WeightArith W] (connections : Ref → ℕ)
    (targets : List (Arc (Target W))) :
    leastConnectionsPick connections targets =
      ((targets.foldl (lowerUnless (fun u => WeightArith.le u.weight 0) (loadScore connections))
          none).or
        (targets.foldl (lowerUnless (fun _ => false) fun u => connections u.activeConnections)
          none)).map (·.1) := by
  have hstep : lowerUnless (fun _ : Target W => false) (fun u => connections u.activeConnections) =
      lowerScore fun u => connections u.activeConnections := rfl
  rw [hstep]
  unfold leastConnectionsPick lowerUnless
  dsimp only
  cases targets.foldl (fun best (t : Arc (Target W)) => if WeightArith.le t.val.weight 0 then best
    else lowerScore (loadScore connections) best t) none with
  | none => rfl
  | some b => rfl

/-- The first target with the lowest load per weight among those with a weight, or the first with
the fewest connections when there are none. -/
def LeastLoaded [WeightArith W] (connections : Ref → ℕ) (targets : List (Arc (Target W)))
    (t : Arc (Target W)) : Prop :=
  FirstLowest (fun u => WeightArith.le u.weight 0) (loadScore connections) targets t ∨
    (∀ u ∈ targets, WeightArith.le u.val.weight 0 = true) ∧
      FirstLowest (fun _ => false) (fun u => connections u.activeConnections) targets t

theorem LeastLoaded.unique [WeightArith W] {connections : Ref → ℕ}
    (h : LeastLoaded connections ts t) (hx : LeastLoaded connections ts x) : t = x := by
  have hweighed : ∀ {u : Arc (Target W)},
      FirstLowest (fun u => WeightArith.le u.weight 0) (loadScore connections) ts u →
        ¬∀ u ∈ ts, WeightArith.le u.val.weight 0 = true := by
    intro u hu hnone
    obtain ⟨before, behind, rfl, -⟩ := hu.split
    exact Bool.false_ne_true (hu.notSkipped.symm.trans (hnone u (by simp)))
  rcases h with h | ⟨hnone, h⟩
  · exact h.unique (hx.resolve_right fun hx => hweighed h hx.1)
  · exact h.unique (hx.resolve_left fun hx => hweighed hx hnone).2

theorem exists_leastConnectionsPick [WeightArith W] (connections : Ref → ℕ)
    {targets : List (Arc (Target W))} (hne : targets ≠ []) :
    ∃ t, leastConnectionsPick connections targets = some t ∧
      LeastLoaded connections targets t := by
  have hweighted := foldl_lowerUnless (fun u : Target W => WeightArith.le u.weight 0)
    (loadScore connections) targets
  have hall := foldl_lowerUnless (fun _ : Target W => false)
    (fun u => connections u.activeConnections) targets
  rw [leastConnectionsPick_eq]
  cases hfirst : targets.foldl (lowerUnless (fun u : Target W => WeightArith.le u.weight 0)
      (loadScore connections)) none with
  | some b =>
    rw [hfirst] at hweighted
    exact ⟨b.1, rfl, Or.inl hweighted.2⟩
  | none =>
    rw [hfirst] at hweighted
    cases hsecond : targets.foldl (lowerUnless (fun _ : Target W => false)
        fun u => connections u.activeConnections) none with
    | some b =>
      rw [hsecond] at hall
      exact ⟨b.1, rfl, Or.inr ⟨hweighted, hall.2⟩⟩
    | none =>
      rw [hsecond] at hall
      obtain ⟨u, us, rfl⟩ := List.exists_cons_of_ne_nil hne
      exact absurd (hall u List.mem_cons_self) Bool.false_ne_true

/-- The picker returns the least loaded target. -/
theorem leastConnectionsPick_eq_some_iff [WeightArith W] (connections : Ref → ℕ)
    {targets : List (Arc (Target W))} (hne : targets ≠ []) :
    leastConnectionsPick connections targets = some t ↔ LeastLoaded connections targets t := by
  obtain ⟨u, hu, hleast⟩ := exists_leastConnectionsPick connections hne
  rw [hu, Option.some.injEq]
  constructor
  · rintro rfl
    exact hleast
  · exact hleast.unique

/-! ## Loads as exact rationals -/

def load (connections : Ref → ℕ) (t : Target ℚ) : ℚ :=
  connections t.activeConnections / t.weight

def Fits (connections : Ref → ℕ) (t : Target ℚ) : Prop := load connections t * 10 ^ 6 < 2 ^ 64

variable {connections : Ref → ℕ}

theorem loadScore_eq {t : Target ℚ} (hfits : Fits connections t) :
    loadScore connections t = ⌊load connections t * 10 ^ 6⌋.toNat := by
  have hfloor : ⌊load connections t * 10 ^ 6⌋ < 2 ^ 64 := by
    rw [Int.floor_lt]
    exact_mod_cast hfits
  have hscore : loadScore connections t =
      min ⌊load connections t * ((1000000 : ℕ) : ℚ)⌋.toNat (2 ^ 64 - 1) := rfl
  have hmillion : ((1000000 : ℕ) : ℚ) = 10 ^ 6 := by norm_num
  rw [hscore, hmillion, min_eq_left]
  omega

/-- A score that is no higher is that of a load that is higher by less than a millionth. -/
theorem load_le_of_loadScore_le {t u : Target ℚ} (ht : 0 < t.weight) (hu : 0 < u.weight)
    (hfitsT : Fits connections t) (hfitsU : Fits connections u)
    (h : loadScore connections t ≤ loadScore connections u) :
    load connections t ≤ load connections u + 1 / 10 ^ 6 := by
  have hpos : ∀ v : Target ℚ, 0 < v.weight → 0 ≤ ⌊load connections v * 10 ^ 6⌋ := by
    intro v hv
    refine Int.floor_nonneg.mpr ?_
    have hload : 0 ≤ load connections v := div_nonneg (Nat.cast_nonneg _) hv.le
    positivity
  rw [loadScore_eq hfitsT, loadScore_eq hfitsU] at h
  have hfloor : ⌊load connections t * 10 ^ 6⌋ ≤ ⌊load connections u * 10 ^ 6⌋ := by
    have ht0 := hpos t ht
    have hu0 := hpos u hu
    omega
  have hcast : (⌊load connections t * 10 ^ 6⌋ : ℚ) ≤ ⌊load connections u * 10 ^ 6⌋ :=
    Int.cast_le.mpr hfloor
  have hlt := Int.lt_floor_add_one (load connections t * 10 ^ 6)
  have hle := Int.floor_le (load connections u * 10 ^ 6)
  linarith

/-- From targets whose scores do not saturate, the picker returns one: when some weight is positive,
one of positive weight whose load is minimal up to a millionth; when all are zero, one with the
fewest connections; and none in front of it has its score. -/
theorem leastConnectionsPick_optimal (connections : Ref → ℕ) (targets : List (Arc (Target ℚ)))
    (hne : targets ≠ [])
    (hfits : ∀ t ∈ targets, 0 < t.val.weight → Fits connections t.val) :
    ∃ before t behind, targets = before ++ t :: behind ∧
      leastConnectionsPick connections targets = some t ∧
      ((∃ u ∈ targets, 0 < u.val.weight) →
        0 < t.val.weight ∧
        (∀ u ∈ targets, 0 < u.val.weight →
          load connections t.val ≤ load connections u.val + 1 / 10 ^ 6) ∧
        ∀ u ∈ before, 0 < u.val.weight →
          loadScore connections u.val ≠ loadScore connections t.val) ∧
      ((∀ u ∈ targets, u.val.weight = 0) →
        (∀ u ∈ targets, connections t.val.activeConnections ≤
          connections u.val.activeConnections) ∧
        ∀ u ∈ before, connections u.val.activeConnections ≠
          connections t.val.activeConnections) := by
  have hskip : ∀ u : Target ℚ, WeightArith.le u.weight 0 = false ↔ 0 < u.weight := by
    intro u
    exact decide_eq_false_iff_not.trans not_le
  obtain ⟨t, ht, hweighted | ⟨hzero, hall⟩⟩ := exists_leastConnectionsPick connections hne
  · obtain ⟨before, behind, hsplit, hbefore, -⟩ := hweighted.split
    have hmem : t ∈ targets := by simp [hsplit]
    have hpos : 0 < t.val.weight := (hskip _).mp hweighted.notSkipped
    refine ⟨before, t, behind, hsplit, ht, fun _ => ⟨hpos, ?_, ?_⟩, ?_⟩
    · intro u hu hu0
      exact load_le_of_loadScore_le hpos hu0 (hfits t hmem hpos) (hfits u hu hu0)
        (hweighted.le hu ((hskip _).mpr hu0))
    · intro u hu hu0
      exact (hbefore u hu ((hskip _).mpr hu0)).ne'
    · intro hnone
      exact absurd (hnone t hmem) hpos.ne'
  · obtain ⟨before, behind, hsplit, hbefore, -⟩ := hall.split
    refine ⟨before, t, behind, hsplit, ht, ?_, fun _ => ⟨?_, ?_⟩⟩
    · rintro ⟨u, hu, hu0⟩
      have hle := hzero u hu
      rw [(hskip u.val).mpr hu0] at hle
      cases hle
    · exact fun u hu => hall.le hu rfl
    · exact fun u hu => (hbefore u hu rfl).ne'

section Examples

attribute [local instance] Platform.plain

def weighedBackend (addr : ℕ) (weight : ℚ) : Arc (Target ℚ) :=
  ⟨addr, { Table.targetOf default (exampleDef .static .add "svc" "http://10.0.0.1:80/") with
    weight := weight }⟩

theorem leastConnectionsPick_optimal_two_backends :
    ∃ t, leastConnectionsPick (fun _ => 3) [weighedBackend 0 0, weighedBackend 1 (1 / 2)] =
      some t ∧ 0 < t.val.weight := by
  have hfits : ∀ t ∈ [weighedBackend 0 0, weighedBackend 1 (1 / 2)], 0 < t.val.weight →
      Fits (fun _ => 3) t.val := by
    simp only [List.mem_cons, List.not_mem_nil, or_false, forall_eq_or_imp, forall_eq, Fits, load,
      weighedBackend]
    norm_num
  obtain ⟨before, t, behind, -, ht, hpositive, -⟩ :=
    leastConnectionsPick_optimal (fun _ => 3) _ (List.cons_ne_nil _ _) hfits
  refine ⟨t, ht, (hpositive ⟨weighedBackend 1 (1 / 2), by simp, ?_⟩).1⟩
  change (0 : ℚ) < 1 / 2
  norm_num

end Examples

end SentirumLb
