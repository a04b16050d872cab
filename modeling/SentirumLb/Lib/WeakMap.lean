import SentirumLb.Lib.AssocMap

/-! # Maps of weak references

A map that remembers the object of a key as long as somebody else keeps the
object alive. A lookup returns the object when it is alive and makes a new one
otherwise; when the map has grown past a bound it first forgets the entries of
dead objects. Which objects are alive is an argument, since it is decided
outside the map.
-/

namespace WeakMap

variable {κ ρ : Type} [DecidableEq κ]

def getOrCreate (live : ρ → Bool) (bound : ℕ) (k : κ) (new : ρ) (m : AssocMap κ ρ) :
    ρ × AssocMap κ ρ :=
  match (m.lookup k).filter live with
  | some r => (r, m)
  | none => (new, (if bound < m.entries.length then m.retain fun _ r => live r else m).insert k new)

variable {live : ρ → Bool} {bound : ℕ} {k k' : κ} {new r : ρ} {m : AssocMap κ ρ}

theorem lookup_getOrCreate_self :
    (getOrCreate live bound k new m).2.lookup k = some (getOrCreate live bound k new m).1 := by
  unfold getOrCreate
  split
  · next r h => exact (Option.filter_eq_some_iff.mp h).1
  · exact AList.lookup_insert _

theorem lookup_getOrCreate_of_live (h : m.lookup k' = some r) (hlive : live r = true) :
    (getOrCreate live bound k new m).2.lookup k' = some r := by
  unfold getOrCreate
  split
  · exact h
  · next hnone =>
    have hne : k' ≠ k := by
      rintro rfl
      rw [Option.filter_eq_none_iff] at hnone
      exact hnone r h hlive
    rw [AList.lookup_insert_ne hne]
    split
    · rw [AssocMap.lookup_retain, h]
      simp [hlive]
    · exact h

theorem lookup_getOrCreate_cases (h : (getOrCreate live bound k new m).2.lookup k' = some r) :
    m.lookup k' = some r ∨ k' = k ∧ r = new := by
  unfold getOrCreate at h
  split at h
  · exact Or.inl h
  · by_cases hk : k' = k
    · subst hk
      rw [AList.lookup_insert, Option.some.injEq] at h
      exact Or.inr ⟨rfl, h.symm⟩
    · rw [AList.lookup_insert_ne hk] at h
      split at h
      · rw [AssocMap.lookup_retain, Option.filter_eq_some_iff] at h
        exact Or.inl h.1
      · exact Or.inl h

/-! ## Numbered objects -/

/-- Objects are numbered, no two keys share one, and all have numbers below the next. -/
structure Numbered (next : ℕ) (m : AssocMap κ ℕ) : Prop where
  lt : ∀ k r, m.lookup k = some r → r < next
  inj : ∀ k k' r, m.lookup k = some r → m.lookup k' = some r → k = k'

theorem Numbered.empty (next : ℕ) : Numbered next (∅ : AssocMap κ ℕ) := by
  constructor <;> simp

theorem Numbered.getOrCreate {next new next' : ℕ} {live : ℕ → Bool} {m : AssocMap κ ℕ}
    (h : Numbered next m) (hnew : next ≤ new) (hnext : new < next') :
    Numbered next' (getOrCreate live bound k new m).2 where
  lt k' r hk := by
    rcases lookup_getOrCreate_cases hk with hk | ⟨-, rfl⟩
    · have := h.lt k' r hk
      omega
    · exact hnext
  inj k₁ k₂ r h₁ h₂ := by
    rcases lookup_getOrCreate_cases h₁ with hm₁ | ⟨hk₁, hr₁⟩
    · rcases lookup_getOrCreate_cases h₂ with hm₂ | ⟨-, hr₂⟩
      · exact h.inj k₁ k₂ r hm₁ hm₂
      · have := h.lt k₁ r hm₁
        omega
    · rcases lookup_getOrCreate_cases h₂ with hm₂ | ⟨hk₂, -⟩
      · have := h.lt k₂ r hm₂
        omega
      · rw [hk₁, hk₂]

/-- Two keys have one object exactly when they are one key. -/
theorem Numbered.eq_iff {next r r' : ℕ} {m : AssocMap κ ℕ} (h : Numbered next m)
    (hr : m.lookup k = some r) (hr' : m.lookup k' = some r') : r = r' ↔ k = k' := by
  constructor
  · rintro rfl
    exact h.inj k k' r hr hr'
  · rintro rfl
    exact Option.some.inj (hr.symm.trans hr')

end WeakMap
