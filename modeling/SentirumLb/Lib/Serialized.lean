import SentirumLb.Lib.Atomic

/-! # Programs behind a lock

Programs of atomic actions that run one at a time: a program waits for the lock,
acts on the shared state while it holds it, and gives its result when it
releases it. A program without actions needs no lock. However arrivals and
actions interleave, the results and the state are those of the finished programs
run alone, one after the other.
-/

namespace Serialized

variable {ι ℓ σ α : Type}

structure State (ι ℓ σ α : Type) where
  shared : σ
  waiting : List ι
  holder : Option (ι × Prog ℓ σ α)
  finished : List (ι × α)

inductive Label (ι : Type) where
  | arrive (i : ι)
  | acquire (k : ℕ)
  | act
  | release

def start (s : σ) : State ι ℓ σ α := ⟨s, [], none, []⟩

def step (body : ι → Prog ℓ σ α) (s : State ι ℓ σ α) : Label ι → Option (State ι ℓ σ α)
  | .arrive i =>
      match body i with
      | .ret a => some { s with finished := s.finished ++ [(i, a)] }
      | .act .. => some { s with waiting := s.waiting ++ [i] }
  | .acquire k =>
      match s.holder, s.waiting[k]? with
      | none, some i =>
          some { s with waiting := s.waiting.eraseIdx k, holder := some (i, body i) }
      | _, _ => none
  | .act =>
      match s.holder with
      | some (i, .act _ upd next) =>
          some { s with shared := upd s.shared, holder := some (i, next s.shared) }
      | _ => none
  | .release =>
      match s.holder with
      | some (i, .ret a) => some { s with holder := none, finished := s.finished ++ [(i, a)] }
      | _ => none

/-- Calls with their results that take the state from one to the next, each as the relation says. -/
inductive Chain (R : ι → α → σ → σ → Prop) (s : σ) : List (ι × α) → σ → Prop where
  | nil : Chain R s [] s
  | snoc {h : List (ι × α)} {t u : σ} {i : ι} {a : α} (hc : Chain R s h t) (hr : R i a t u) :
      Chain R s (h ++ [(i, a)]) u

def Alone (body : ι → Prog ℓ σ α) (i : ι) (a : α) (t u : σ) : Prop := (body i).exec t = (a, u)

/-- What the holder is going to do is what its program does, run alone from the state in which it
got the lock. -/
def Pending (body : ι → Prog ℓ σ α) (s : State ι ℓ σ α) (t : σ) : Prop :=
  match s.holder with
  | none => s.shared = t
  | some (i, p) => p.exec s.shared = (body i).exec t

variable {body : ι → Prog ℓ σ α} {R : ι → α → σ → σ → Prop} {s₀ t : σ} {s s' : State ι ℓ σ α}

theorem Chain.mono {R' : ι → α → σ → σ → Prop} {h : List (ι × α)} (hc : Chain R s₀ h t)
    (hR : ∀ i a t u, R i a t u → R' i a t u) : Chain R' s₀ h t := by
  induction hc with
  | nil => exact .nil
  | snoc hc hr ih => exact ih.snoc (hR _ _ _ _ hr)

/-- A predicate that every call keeps holds at the end of a chain. -/
theorem Chain.invariant {I : σ → Prop} {h : List (ι × α)} (hc : Chain R s₀ h t)
    (hR : ∀ i a t u, R i a t u → I t → I u) (h0 : I s₀) : I t := by
  induction hc with
  | nil => exact h0
  | snoc hc hr ih => exact hR _ _ _ _ hr ih

theorem Chain.foldl_eq {β : Type} {f : σ → β} {g : β → ι × α → β} {h : List (ι × α)}
    (hc : Chain R s₀ h t) (hR : ∀ i a t u, R i a t u → f u = g (f t) (i, a)) :
    f t = h.foldl g (f s₀) := by
  induction hc with
  | nil => rfl
  | snoc hc hr ih => rw [List.foldl_append, ← ih, hR _ _ _ _ hr, List.foldl_cons, List.foldl_nil]

theorem step_serial {l : Label ι} (hc : Chain (Alone body) s₀ s.finished t)
    (hp : Pending body s t) (hstep : step body s l = some s') :
    ∃ t', Chain (Alone body) s₀ s'.finished t' ∧ Pending body s' t' := by
  cases l with
  | arrive i =>
    simp only [step] at hstep
    split at hstep
    · next a hbody =>
      cases hstep
      exact ⟨t, hc.snoc (by rw [Alone, hbody]; rfl), hp⟩
    · cases hstep
      exact ⟨t, hc, hp⟩
  | acquire k =>
    simp only [step] at hstep
    split at hstep
    · next i hholder _ =>
      cases hstep
      have hshared : s.shared = t := by simpa [Pending, hholder] using hp
      exact ⟨t, hc, by rw [Pending, hshared]⟩
    · cases hstep
  | act =>
    simp only [step] at hstep
    split at hstep
    · next i l upd next hholder =>
      cases hstep
      rw [Pending, hholder] at hp
      exact ⟨t, hc, hp⟩
    · cases hstep
  | release =>
    simp only [step] at hstep
    split at hstep
    · next i a hholder =>
      cases hstep
      rw [Pending, hholder] at hp
      have hrun : (a, s.shared) = (body i).exec t := hp
      exact ⟨s.shared, hc.snoc hrun.symm, rfl⟩
    · cases hstep

/-- The finished calls, run alone one after the other, give the same results; when the lock is free,
they also leave the same state. -/
theorem run_serial {ls : List (Label ι)}
    (hrun : Runs.run (step body) (start s₀) ls = some s) :
    ∃ t, Chain (Alone body) s₀ s.finished t ∧ Pending body s t := by
  refine Runs.invariant
    (I := fun s => ∃ t, Chain (Alone body) s₀ s.finished t ∧ Pending body s t) ?_ hrun
    ⟨s₀, .nil, rfl⟩
  rintro s l s' ⟨t, hc, hp⟩ hstep
  exact step_serial hc hp hstep

end Serialized
