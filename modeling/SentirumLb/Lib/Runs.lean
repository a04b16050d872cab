import Mathlib

/-! # Runs of a labelled step function

A step function takes a state and a label to the next state, when the label is
enabled. A run is a list of labels that are enabled one after the other. An
invariant that every step keeps holds after every run; one that is kept only by
the steps that meet a condition holds after every run all of whose steps do.
What the steps emit makes a log of the run.
-/

namespace Runs

variable {σ ℓ : Type} (step : σ → ℓ → Option σ)

def run (s : σ) : List ℓ → Option σ
  | [] => some s
  | l :: ls => (step s l).bind fun s' => run s' ls

/-- Every step of the run meets the condition in the state it starts from. -/
def Meets (C : σ → ℓ → Prop) (s : σ) : List ℓ → Prop
  | [] => True
  | l :: ls => C s l ∧ ∀ s', step s l = some s' → Meets C s' ls

def log {α : Type} (emits : σ → ℓ → List α) (s : σ) : List ℓ → List α
  | [] => []
  | l :: ls =>
      emits s l ++ match step s l with
        | some s' => log emits s' ls
        | none => []

variable {step} {C : σ → ℓ → Prop} {s s' : σ} {ls : List ℓ} {l : ℓ}

theorem run_cons : run step s (l :: ls) = (step s l).bind fun t => run step t ls := rfl

theorem run_append (s : σ) (ls ls' : List ℓ) :
    run step s (ls ++ ls') = (run step s ls).bind fun t => run step t ls' := by
  induction ls generalizing s with
  | nil => rfl
  | cons l ls ih => simp only [List.cons_append, run_cons, Option.bind_assoc, ih]

theorem run_concat_eq_some_iff {ls : List ℓ} :
    run step s (ls ++ [l]) = some s' ↔ ∃ t, run step s ls = some t ∧ step t l = some s' := by
  have hlast : ∀ t, run step t [l] = step t l := by
    intro t
    rw [run_cons]
    exact Option.bind_fun_some _
  simp only [run_append, Option.bind_eq_some_iff, hlast]

/-- What holds of the labels so far and the state, and is kept by every step. -/
theorem trace_invariant {I : List ℓ → σ → Prop} (h0 : I [] s)
    (hstep : ∀ ls l t t', I ls t → step t l = some t' → I (ls ++ [l]) t')
    (hr : run step s ls = some s') : I ls s' := by
  induction ls using List.reverseRecOn generalizing s' with
  | nil =>
    cases hr
    exact h0
  | append_singleton ls l ih =>
    obtain ⟨t, ht, hl⟩ := run_concat_eq_some_iff.mp hr
    exact hstep ls l t s' (ih ht) hl

theorem log_concat {α : Type} {emits : σ → ℓ → List α} (hr : run step s ls = some s') (l : ℓ) :
    log step emits s (ls ++ [l]) = log step emits s ls ++ emits s' l := by
  induction ls generalizing s with
  | nil =>
    cases hr
    change emits s' l ++ _ = [] ++ emits s' l
    cases step s' l <;> exact List.append_nil _
  | cons k ls ih =>
    obtain ⟨t, ht, hr⟩ := Option.bind_eq_some_iff.mp hr
    rw [List.cons_append, log, log, ht, List.append_assoc]
    exact congrArg (emits s k ++ ·) (ih hr)

theorem log_invariant {α : Type} {emits : σ → ℓ → List α} {I : List ℓ → List α → σ → Prop}
    (h0 : I [] [] s)
    (hstep : ∀ ls emitted l t t', I ls emitted t → step t l = some t' →
      I (ls ++ [l]) (emitted ++ emits t l) t')
    (hr : run step s ls = some s') : I ls (log step emits s ls) s' := by
  induction ls using List.reverseRecOn generalizing s' with
  | nil =>
    cases hr
    exact h0
  | append_singleton ls l ih =>
    obtain ⟨t, ht, hl⟩ := run_concat_eq_some_iff.mp hr
    rw [log_concat ht]
    exact hstep ls _ l t s' (ih ht) hl

theorem meets_true (s : σ) (ls : List ℓ) : Meets step (fun _ _ => True) s ls := by
  induction ls generalizing s with
  | nil => trivial
  | cons l ls ih => exact ⟨trivial, fun s' _ => ih s'⟩

theorem invariant_of_meets {I : σ → Prop}
    (hstep : ∀ s l s', I s → C s l → step s l = some s' → I s')
    (hm : Meets step C s ls) (hr : run step s ls = some s') (h0 : I s) : I s' := by
  induction ls generalizing s with
  | nil =>
    cases hr
    exact h0
  | cons l ls ih =>
    rw [run_cons, Option.bind_eq_some_iff] at hr
    obtain ⟨t, ht, hr⟩ := hr
    exact ih (hm.2 t ht) hr (hstep s l t h0 hm.1 ht)

/-- A state predicate kept by every step holds after every run. -/
theorem invariant {I : σ → Prop} (hstep : ∀ s l s', I s → step s l = some s' → I s')
    (hr : run step s ls = some s') (h0 : I s) : I s' :=
  invariant_of_meets (fun s l s' hi _ => hstep s l s' hi) (meets_true s ls) hr h0

/-- A state predicate that survives exactly the steps that meet the condition holds after a run just
when all of its steps do. -/
theorem run_iff_meets {I J : σ → Prop} (hJ : ∀ s l s', J s → step s l = some s' → J s')
    (hstep : ∀ s l s', J s → step s l = some s' → (I s' ↔ I s ∧ C s l))
    (hr : run step s ls = some s') (h0 : J s) : I s' ↔ I s ∧ Meets step C s ls := by
  induction ls generalizing s with
  | nil =>
    cases hr
    simp [Meets]
  | cons l ls ih =>
    rw [run_cons, Option.bind_eq_some_iff] at hr
    obtain ⟨t, ht, hr⟩ := hr
    rw [ih hr (hJ s l t h0 ht), hstep s l t h0 ht, and_assoc]
    simp [Meets, ht]

theorem meets_of_invariant {I : σ → Prop} {D : σ → ℓ → Prop}
    (hstep : ∀ s l s', I s → C s l → step s l = some s' → I s')
    (hD : ∀ s l, I s → D s l) (hm : Meets step C s ls) (h0 : I s) : Meets step D s ls := by
  induction ls generalizing s with
  | nil => trivial
  | cons l ls ih => exact ⟨hD s l h0, fun t ht => ih (hm.2 t ht) (hstep s l t h0 hm.1 ht)⟩

/-- A state predicate that a step keeps exactly when it meets the condition holds all along a run
just when all steps of the run do. -/
theorem forall_prefix_iff_meets {I J : σ → Prop}
    (hJ : ∀ s l s', J s → step s l = some s' → J s')
    (hstep : ∀ s l s', J s → I s → step s l = some s' → (I s' ↔ C s l))
    (hr : run step s ls = some s') (hj : J s) (hi : I s) :
    (∀ pre t, pre <+: ls → run step s pre = some t → I t) ↔ Meets step C s ls := by
  induction ls generalizing s with
  | nil =>
    refine ⟨fun _ => trivial, ?_⟩
    rintro - pre t hpre ht
    cases List.prefix_nil.mp hpre
    cases ht
    exact hi
  | cons l ls ih =>
    rw [run_cons, Option.bind_eq_some_iff] at hr
    obtain ⟨u, hu, hr⟩ := hr
    have hnext := hstep s l u hj hi hu
    constructor
    · intro h
      have hIu : I u := by
        refine h [l] u (by simp) ?_
        rw [run_cons, hu]
        rfl
      refine ⟨hnext.mp hIu, fun t ht => ?_⟩
      cases hu.symm.trans ht
      refine (ih hr (hJ s l u hj hu) hIu).mp fun pre t hpre ht' => ?_
      refine h (l :: pre) t (List.cons_prefix_cons.mpr ⟨rfl, hpre⟩) ?_
      rw [run_cons, hu]
      exact ht'
    · rintro ⟨hC, hm⟩ pre t hpre ht
      have hIu : I u := hnext.mpr hC
      cases pre with
      | nil =>
        cases ht
        exact hi
      | cons k pre =>
        obtain ⟨rfl, hrest⟩ := List.cons_prefix_cons.mp hpre
        rw [run_cons, hu] at ht
        exact (ih hr (hJ s k u hj hu) hIu).mpr (hm u hu) pre t hrest ht

theorem Meets.append_left {ls ls' : List ℓ} (hm : Meets step C s (ls ++ ls')) :
    Meets step C s ls := by
  induction ls generalizing s with
  | nil => trivial
  | cons k ls ih => exact ⟨hm.1, fun t ht => ih (hm.2 t ht)⟩

theorem Meets.and {D : σ → ℓ → Prop} (hC : Meets step C s ls) (hD : Meets step D s ls) :
    Meets step (fun s l => C s l ∧ D s l) s ls := by
  induction ls generalizing s with
  | nil => trivial
  | cons l ls ih => exact ⟨⟨hC.1, hD.1⟩, fun t ht => ih (hC.2 t ht) (hD.2 t ht)⟩

theorem meets_append {ls ls' : List ℓ} (hr : run step s ls = some s') :
    Meets step C s (ls ++ ls') ↔ Meets step C s ls ∧ Meets step C s' ls' := by
  induction ls generalizing s with
  | nil =>
    cases hr
    simp [Meets]
  | cons l ls ih =>
    rw [run_cons, Option.bind_eq_some_iff] at hr
    obtain ⟨t, ht, hr⟩ := hr
    simp only [List.cons_append, Meets, ht, Option.some.injEq, forall_eq', ih hr, and_assoc]

theorem Meets.last (hm : Meets step C s (ls ++ [l])) (hr : run step s ls = some s') : C s' l :=
  ((meets_append hr).mp hm).2.1

/-! ## The latest step that matters -/

section Since

variable (step) {α : Type} (records : σ → ℓ → Option α) (disturbs : σ → ℓ → Prop)
  (C : σ → ℓ → Prop)

/-- A step of the run recorded `x`, no later step disturbed it, and every step from it on meets the
condition. -/
def Since (s₀ : σ) (ls : List ℓ) (x : α) : Prop :=
  ∃ pre l post a b, ls = pre ++ l :: post ∧ run step s₀ pre = some a ∧ step a l = some b ∧
    records a l = some x ∧ C a l ∧ Meets step (fun s l => ¬disturbs s l ∧ C s l) b post

variable {step records disturbs C}

/-- The last step recorded `x` itself, or did not disturb what was recorded before it. -/
theorem since_concat {s₀ s s' : σ} {ls : List ℓ} {l : ℓ} {x : α} (hr : run step s₀ ls = some s)
    (hs : step s l = some s') : Since step records disturbs C s₀ (ls ++ [l]) x ↔
      C s l ∧ (records s l = some x ∨ ¬disturbs s l ∧ Since step records disturbs C s₀ ls x) := by
  constructor
  · rintro ⟨pre, k, post, a, b, hls, hpre, hab, hx, hC, hpost⟩
    rcases List.eq_nil_or_concat post with rfl | ⟨post, l', rfl⟩
    · obtain ⟨rfl, hk⟩ := List.append_inj' hls rfl
      cases hk
      rw [hr] at hpre
      cases hpre
      exact ⟨hC, Or.inl hx⟩
    · rw [List.concat_eq_append, ← List.cons_append, ← List.append_assoc] at hls
      obtain ⟨rfl, hl⟩ := List.append_inj' hls rfl
      cases hl
      have hb : run step b post = some s := by
        rw [run_append, hpre, Option.bind_some, run_cons, hab, Option.bind_some] at hr
        exact hr
      rw [List.concat_eq_append, meets_append hb] at hpost
      obtain ⟨hpost, ⟨hdisturbs, hC'⟩, -⟩ := hpost
      exact ⟨hC', Or.inr ⟨hdisturbs, pre, k, post, a, b, rfl, hpre, hab, hx, hC, hpost⟩⟩
  · rintro ⟨hC, hx | ⟨hdisturbs, pre, k, post, a, b, rfl, hpre, hab, hx, hCa, hpost⟩⟩
    · exact ⟨ls, l, [], s, s', rfl, hr, hs, hx, hC, trivial⟩
    · have hb : run step b post = some s := by
        rw [run_append, hpre, Option.bind_some, run_cons, hab, Option.bind_some] at hr
        exact hr
      refine ⟨pre, k, post ++ [l], a, b, by simp, hpre, hab, hx, hCa, ?_⟩
      rw [meets_append hb]
      exact ⟨hpost, ⟨hdisturbs, hC⟩, fun _ _ => trivial⟩

theorem not_since_nil {s₀ : σ} {x : α} : ¬Since step records disturbs C s₀ [] x := by
  rintro ⟨pre, l, post, a, b, h, -⟩
  simp at h

end Since

instance decidableMeets [∀ s l, Decidable (C s l)] :
    ∀ (s : σ) (ls : List ℓ), Decidable (Meets step C s ls)
  | _, [] => .isTrue trivial
  | s, l :: ls =>
      match h : step s l with
      | none => decidable_of_iff (C s l) (by simp [Meets, h])
      | some s' =>
          have := decidableMeets s' ls
          decidable_of_iff (C s l ∧ Meets step C s' ls) (by simp [Meets, h])

/-! ## Relabelling -/

variable {ℓ' : Type} (f : ℓ' → ℓ)

theorem run_map (s : σ) (ls : List ℓ') :
    run (fun s l => step s (f l)) s ls = run step s (ls.map f) := by
  induction ls generalizing s with
  | nil => rfl
  | cons l ls ih => simp only [List.map_cons, run_cons, ih]

theorem meets_map {C' : σ → ℓ' → Prop} (hC : ∀ s l, C' s l → C s (f l)) {s : σ} {ls : List ℓ'}
    (hm : Meets (fun s l => step s (f l)) C' s ls) : Meets step C s (ls.map f) := by
  induction ls generalizing s with
  | nil => trivial
  | cons l ls ih => exact ⟨hC s l hm.1, fun t ht => ih (hm.2 t ht)⟩

end Runs
