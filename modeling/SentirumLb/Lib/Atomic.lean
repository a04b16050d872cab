import SentirumLb.Lib.Lists
import SentirumLb.Lib.Runs

/-! # Programs of atomic actions

A program is a tree of atomic actions on a shared state. Each action has a
label that names the access. Run alone, a program is a state transformer; run
in a pool, its actions interleave with those of other programs in any order.

`Sat` is the obligation of one thread against arbitrary interference: each of
its actions, taken in any state whatsoever, satisfies a two-state guarantee. A
pool of threads that meet their obligations satisfies the guarantee at every
step.
-/

/-- A program with labels `ℓ`, shared state `σ` and result `α`. -/
inductive Prog (ℓ σ α : Type) where
  | ret (a : α)
  /-- Replace the state, and go on with what the state was. -/
  | act (l : ℓ) (upd : σ → σ) (next : σ → Prog ℓ σ α)

namespace Prog

variable {ℓ σ α β : Type}

def bind : Prog ℓ σ α → (α → Prog ℓ σ β) → Prog ℓ σ β
  | ret a, f => f a
  | act l upd next, f => act l upd fun s => (next s).bind f

instance : Monad (Prog ℓ σ) where
  pure := ret
  bind := bind

def load (l : ℓ) (get : σ → α) : Prog ℓ σ α := act l id fun s => ret (get s)

def modify (l : ℓ) (upd : σ → σ) : Prog ℓ σ Unit := act l upd fun _ => ret ()

/-- Update the state and return a value read from what it was. -/
def modifyGet (l : ℓ) (upd : σ → σ) (get : σ → α) : Prog ℓ σ α := act l upd fun s => ret (get s)

def result : Prog ℓ σ α → Option α
  | ret a => some a
  | act _ _ _ => none

/-! ## Running alone -/

def exec : Prog ℓ σ α → σ → α × σ
  | ret a, s => (a, s)
  | act _ upd next, s => (next s).exec (upd s)

@[simp] theorem exec_pure (a : α) (s : σ) : (pure a : Prog ℓ σ α).exec s = (a, s) := rfl

@[simp] theorem exec_bind (p : Prog ℓ σ α) (f : α → Prog ℓ σ β) (s : σ) :
    (p >>= f).exec s = (f (p.exec s).1).exec (p.exec s).2 := by
  change (p.bind f).exec s = _
  induction p generalizing s with
  | ret a => rfl
  | act l upd next ih => exact ih s (upd s)

@[simp] theorem exec_ite (c : Prop) [Decidable c] (p q : Prog ℓ σ α) (s : σ) :
    (if c then p else q).exec s = if c then p.exec s else q.exec s := by
  split <;> rfl

@[simp] theorem exec_load (l : ℓ) (get : σ → α) (s : σ) : (load l get).exec s = (get s, s) := rfl

@[simp] theorem exec_modify (l : ℓ) (upd : σ → σ) (s : σ) :
    (modify l upd).exec s = ((), upd s) := rfl

@[simp] theorem exec_modifyGet (l : ℓ) (upd : σ → σ) (get : σ → α) (s : σ) :
    (modifyGet l upd get).exec s = (get s, upd s) := rfl

/-! ## Obligations under interference -/

variable (G : ℓ → σ → Prop) (T : σ → σ → Prop)

/-- Every action taken where `G` allows it satisfies `T`, and every result satisfies `Q`. -/
def Sat : Prog ℓ σ α → (α → Prop) → Prop
  | ret a, Q => Q a
  | act l upd next, Q => ∀ s, G l s → T s (upd s) ∧ (next s).Sat Q

variable {G T} {Q : α → Prop} {R : β → Prop}

theorem sat_bind {p : Prog ℓ σ α} {f : α → Prog ℓ σ β} (hp : p.Sat G T Q)
    (hf : ∀ a, Q a → (f a).Sat G T R) : (p >>= f).Sat G T R := by
  change (p.bind f).Sat G T R
  induction p with
  | ret a => exact hf a hp
  | act l upd next ih =>
    intro s hG
    obtain ⟨hT, hnext⟩ := hp s hG
    exact ⟨hT, ih s hnext⟩

theorem sat_load (hT : ∀ s, T s s) {l : ℓ} {get : σ → α} (h : ∀ s, G l s → Q (get s)) :
    Sat G T (load l get) Q :=
  fun s hG => ⟨hT s, h s hG⟩

theorem sat_modifyGet {l : ℓ} {upd : σ → σ} {get : σ → α} (hT : ∀ s, G l s → T s (upd s))
    (h : ∀ s, G l s → Q (get s)) : Sat G T (modifyGet l upd get) Q :=
  fun s hG => ⟨hT s hG, h s hG⟩

theorem sat_modify {l : ℓ} {upd : σ → σ} (hT : ∀ s, G l s → T s (upd s)) :
    Sat G T (modify l upd) fun _ => True :=
  fun s hG => ⟨hT s hG, trivial⟩

theorem sat_of_forall (hT : ∀ s s', T s s') (p : Prog ℓ σ α) : p.Sat G T fun _ => True := by
  induction p with
  | ret a => trivial
  | act l upd next ih => exact fun s _ => ⟨hT _ _, ih s⟩

theorem Sat.exec_invariant {p : Prog ℓ σ α} {I : σ → Prop} (hp : p.Sat G T Q)
    (hG : ∀ l s, I s → G l s) (hI : ∀ s s', T s s' → I s → I s') {s : σ} (h : I s) :
    I (p.exec s).2 := by
  induction p generalizing s with
  | ret a => exact h
  | act l upd next ih =>
    obtain ⟨hT, hnext⟩ := hp s (hG l s h)
    exact ih s hnext (hI _ _ hT h)

/-! ## Notes under interference -/

section Notes

variable {γ : Type} (note : ℓ → σ → σ → γ → γ)

/-- A thread notes each of its actions with the states before and after it. Whatever runs in
between, its result and its notes satisfy `Q`. -/
def Notes : Prog ℓ σ α → γ → (α → γ → Prop) → Prop
  | ret a, g, Q => Q a g
  | act l upd next, g, Q => ∀ s, (next s).Notes (note l s (upd s) g) Q

variable {note} {Q : α → γ → Prop} {R : β → γ → Prop} {g : γ}

theorem notes_bind {p : Prog ℓ σ α} {f : α → Prog ℓ σ β} (hp : p.Notes note g Q)
    (hf : ∀ a g, Q a g → (f a).Notes note g R) : (p >>= f).Notes note g R := by
  change (p.bind f).Notes note g R
  induction p generalizing g with
  | ret a => exact hf a g hp
  | act l upd next ih => exact fun s => ih s (hp s)

theorem notes_of_kept {I : γ → Prop} (hI : ∀ l s s' g, I g → I (note l s s' g))
    (p : Prog ℓ σ α) (h : I g) : p.Notes note g fun _ g => I g := by
  induction p generalizing g with
  | ret a => exact h
  | act l upd next ih => exact fun s => ih s (hI _ _ _ _ h)

end Notes

end Prog

/-! ## Pools of threads -/

structure Pool (ℓ σ : Type) (α : Type := Unit) where
  shared : σ
  threads : List (Prog ℓ σ α)

inductive PoolLabel (ℓ σ : Type) (α : Type := Unit) where
  | spawn (p : Prog ℓ σ α)
  | run (i : ℕ)
  | env (f : σ → σ)

namespace Pool

variable {ℓ σ α : Type}

def step (p : Pool ℓ σ α) : PoolLabel ℓ σ α → Option (Pool ℓ σ α)
  | .spawn t => some { p with threads := p.threads ++ [t] }
  | .run i =>
      match p.threads[i]? with
      | some (.act _ upd next) =>
          some { shared := upd p.shared, threads := p.threads.set i (next p.shared) }
      | _ => none
  | .env f => some { p with shared := f p.shared }

def nextLabel (p : Pool ℓ σ α) (i : ℕ) : Option ℓ :=
  match p.threads[i]? with
  | some (.act l _ _) => some l
  | _ => none

def result (p : Pool ℓ σ α) (i : ℕ) : Option α := p.threads[i]?.bind Prog.result

variable (G : ℓ → σ → Prop) (T : σ → σ → Prop) (Starts : Prog ℓ σ α → Prop)
  (Env : (σ → σ) → Prop)

/-- What a step must meet: threads start as allowed, act where `G` allows it, and the environment
does only what is allowed. -/
def Allowed (p : Pool ℓ σ α) : PoolLabel ℓ σ α → Prop
  | .spawn t => Starts t
  | .run i => ∀ l, p.nextLabel i = some l → G l p.shared
  | .env f => Env f

variable {G T Starts Env} {p p' : Pool ℓ σ α} {e : PoolLabel ℓ σ α}

theorem step_run_cases {i : ℕ} (h : p.step (.run i) = some p') :
    ∃ l upd next, p.threads[i]? = some (.act l upd next) ∧
      p' = ⟨upd p.shared, p.threads.set i (next p.shared)⟩ := by
  simp only [step] at h
  split at h
  · next l upd next hi =>
    cases h
    exact ⟨l, upd, next, hi, rfl⟩
  · cases h

theorem result_set {i : ℕ} {s : σ} {t : Prog ℓ σ α} (h : i < p.threads.length) :
    Pool.result ⟨s, p.threads.set i t⟩ i = t.result := by
  simp [result, h]

theorem step_sat (hstart : ∀ t, Starts t → t.Sat G T fun _ => True)
    (henv : ∀ f, Env f → ∀ s, T s (f s)) (hT : ∀ s, T s s)
    (hthreads : ∀ t ∈ p.threads, t.Sat G T fun _ => True) (hallowed : Allowed G Starts Env p e)
    (hstep : p.step e = some p') :
    T p.shared p'.shared ∧ ∀ t ∈ p'.threads, t.Sat G T fun _ => True := by
  cases e with
  | spawn t =>
    cases hstep
    refine ⟨hT _, ?_⟩
    intro u hu
    rcases List.mem_append.mp hu with hu | hu
    · exact hthreads u hu
    · exact List.mem_singleton.mp hu ▸ hstart t hallowed
  | run i =>
    obtain ⟨l, upd, next, hi, rfl⟩ := step_run_cases hstep
    have hlabel : p.nextLabel i = some l := by simp [nextLabel, hi]
    obtain ⟨hact, hnext⟩ := hthreads _ (List.mem_of_getElem? hi) p.shared (hallowed l hlabel)
    refine ⟨hact, ?_⟩
    intro u hu
    rcases List.mem_or_eq_of_mem_set hu with hu | rfl
    · exact hthreads u hu
    · exact hnext
  | env f =>
    cases hstep
    exact ⟨henv f hallowed _, hthreads⟩

section Runs

variable {s : σ} {es : List (PoolLabel ℓ σ α)} (hstart : ∀ t, Starts t → t.Sat G T fun _ => True)
  (henv : ∀ f, Env f → ∀ s, T s (f s)) (hT : ∀ s, T s s)

include hstart henv hT

/-- A state predicate that the guarantee keeps holds after every run of allowed steps. -/
theorem run_invariant {I : σ → Prop} (hI : ∀ s s', T s s' → I s → I s')
    (hallowed : Runs.Meets step (Allowed G Starts Env) ⟨s, []⟩ es)
    (hrun : Runs.run step ⟨s, []⟩ es = some p) (h0 : I s) :
    I p.shared ∧ ∀ t ∈ p.threads, t.Sat G T fun _ => True := by
  refine Runs.invariant_of_meets
    (I := fun p => I p.shared ∧ ∀ t ∈ p.threads, t.Sat G T fun _ => True) ?_ hallowed hrun
    ⟨h0, by simp⟩
  rintro p e p' ⟨hp, hthreads⟩ hC hs
  obtain ⟨hact, hthreads'⟩ := step_sat hstart henv hT hthreads hC hs
  exact ⟨hI _ _ hact hp, hthreads'⟩

/-- When the predicate gives the guard of every action, it holds after every run whose threads and
environment are as allowed. -/
theorem run_invariant_of_guard {I : σ → Prop} (hG : ∀ l s, I s → G l s)
    (hI : ∀ s s', T s s' → I s → I s')
    (hallowed : Runs.Meets step (Allowed (fun _ _ => True) Starts Env) ⟨s, []⟩ es)
    (hrun : Runs.run step ⟨s, []⟩ es = some p) (h0 : I s) : I p.shared := by
  have hkept : I p.shared ∧ ∀ t ∈ p.threads, t.Sat G T fun _ => True := by
    refine Runs.invariant_of_meets
      (I := fun p => I p.shared ∧ ∀ t ∈ p.threads, t.Sat G T fun _ => True) ?_ hallowed hrun
      ⟨h0, by simp⟩
    rintro p e p' ⟨hp, hthreads⟩ hC hs
    have hguarded : Allowed G Starts Env p e := by
      cases e with
      | spawn t => exact hC
      | run i => exact fun l _ => hG l _ hp
      | env f => exact hC
    obtain ⟨hact, hthreads'⟩ := step_sat hstart henv hT hthreads hguarded hs
    exact ⟨hI _ _ hact hp, hthreads'⟩
  exact hkept.1

/-- The guarantee and the predicate it keeps hold at the last step of every run of allowed
steps. -/
theorem run_sat {I : σ → Prop} (hI : ∀ s s', T s s' → I s → I s')
    (hallowed : Runs.Meets step (Allowed G Starts Env) ⟨s, []⟩ (es ++ [e]))
    (hrun : Runs.run step ⟨s, []⟩ es = some p) (h0 : I s) (hstep : p.step e = some p') :
    I p.shared ∧ T p.shared p'.shared := by
  obtain ⟨hp, hthreads⟩ := run_invariant hstart henv hT hI hallowed.append_left hrun h0
  exact ⟨hp, (step_sat hstart henv hT hthreads (hallowed.last hrun) hstep).1⟩

end Runs

/-! ## Threads with tags -/

variable {κ : Type} {K : κ → σ → σ → Prop} {tags : List κ}

/-- Every thread satisfies the guarantee of its tag; the tags are listed as the threads are. -/
def Tagged (G : ℓ → σ → Prop) (K : κ → σ → σ → Prop) (p : Pool ℓ σ α) (tags : List κ) : Prop :=
  List.Forall₂ (fun t k => t.Sat G (K k) fun _ => True) p.threads tags

theorem Tagged.spawn (h : p.Tagged G K tags) {t : Prog ℓ σ α} {k : κ}
    (ht : t.Sat G (K k) fun _ => True) :
    Tagged G K { p with threads := p.threads ++ [t] } (tags ++ [k]) :=
  List.rel_append h (.cons ht .nil)

theorem Tagged.run (h : p.Tagged G K tags) {i : ℕ} (hG : ∀ l, G l p.shared)
    (hstep : p.step (.run i) = some p') :
    ∃ k, tags[i]? = some k ∧ K k p.shared p'.shared ∧ p'.Tagged G K tags := by
  obtain ⟨l, upd, next, hi, rfl⟩ := step_run_cases hstep
  obtain ⟨k, hk, hsat, hset⟩ := Lists.forall₂_set h hi
  obtain ⟨hact, hnext⟩ := hsat p.shared (hG l)
  exact ⟨k, hk, hact, hset _ hnext⟩

end Pool
