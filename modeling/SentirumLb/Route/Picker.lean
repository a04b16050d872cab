import SentirumLb.Route.TargetStats

/-! # Target selection strategies

Pickers walk the slot list of a route or compare the loads of its targets. The
counter of a route and the random generator are state; the generator yields an
arbitrary stream of values, so every outcome of a random pick is covered.
-/

namespace SentirumLb

structure PickState where
  rrCounters : Ref → UInt64
  /-- The values that the random generator is going to yield. -/
  rng : ℕ → ℕ

namespace PickState

def fetchAdd (s : PickState) (counter : Ref) : UInt64 × PickState :=
  (s.rrCounters counter,
    { s with rrCounters := Function.update s.rrCounters counter (s.rrCounters counter + 1) })

def randomRange (s : PickState) (n : ℕ) : ℕ × PickState :=
  (s.rng 0 % n, { s with rng := fun i => s.rng (i + 1) })

end PickState

variable {W : Type}

def roundRobinPick (targets wTargets : List (Arc (Target W))) (counter : Ref) (s : PickState) :
    Option (Arc (Target W)) × PickState :=
  if wTargets.isEmpty || targets.isEmpty then (none, s)
  else
    let (counterVal, s) := s.fetchAdd counter
    (wTargets[counterVal.toNat % wTargets.length]?, s)

def randomPick (wTargets : List (Arc (Target W))) (s : PickState) :
    Option (Arc (Target W)) × PickState :=
  if wTargets.isEmpty then (none, s)
  else
    let (idx, s) := s.randomRange wTargets.length
    (wTargets[idx]?, s)

/-- Keep the best target so far unless the next one has a lower score. -/
def lowerScore (score : Target W → ℕ) (best : Option (Arc (Target W) × ℕ)) (t : Arc (Target W)) :
    Option (Arc (Target W) × ℕ) :=
  if best.all fun b => score t.val < b.2 then some (t, score t.val) else best

section LeastConnections

variable [WeightArith W]

open WeightArith

/-- `active_connections / weight * 1e6` -/
def loadScore (connections : Ref → ℕ) (t : Target W) : ℕ :=
  truncU64 ((connections t.activeConnections : W) / t.weight * ((1000000 : ℕ) : W))

/-- The lowest load per weight, or the fewest connections when no target has a weight. -/
def leastConnectionsPick (connections : Ref → ℕ) (targets : List (Arc (Target W))) :
    Option (Arc (Target W)) :=
  let weighted := targets.foldl (fun best t =>
    if le t.val.weight 0 then best else lowerScore (loadScore connections) best t) none
  let best :=
    if weighted.isNone then
      targets.foldl (lowerScore fun t => connections t.activeConnections) none
    else weighted
  best.map (·.1)

def pickTargetByStrategy (connections : Ref → ℕ) (strategy : String)
    (targets wTargets : List (Arc (Target W))) (counter : Ref) (s : PickState) :
    Option (Arc (Target W)) × PickState :=
  if strategy = "round-robin" ∨ strategy = "rr" ∨ strategy = "" then
    roundRobinPick targets wTargets counter s
  else if strategy = "random" ∨ strategy = "rnd" then randomPick wTargets s
  else if strategy = "least-connections" ∨ strategy = "lc" then
    (leastConnectionsPick connections targets, s)
  else roundRobinPick targets wTargets counter s

end LeastConnections

/-! ## Every strategy picks a target -/

theorem roundRobinPick_mem {targets wTargets : List (Arc (Target W))} (ht : targets ≠ [])
    (hw : wTargets ≠ []) (counter : Ref) (s : PickState) :
    ∃ t ∈ wTargets, (roundRobinPick targets wTargets counter s).1 = some t := by
  have hlt : (s.rrCounters counter).toNat % wTargets.length < wTargets.length :=
    Nat.mod_lt _ (List.length_pos_iff.mpr hw)
  refine ⟨wTargets[(s.rrCounters counter).toNat % wTargets.length], List.getElem_mem hlt, ?_⟩
  simp [roundRobinPick, PickState.fetchAdd, ht, hw]

theorem randomPick_mem {wTargets : List (Arc (Target W))} (hw : wTargets ≠ []) (s : PickState) :
    ∃ t ∈ wTargets, (randomPick wTargets s).1 = some t := by
  have hlt : s.rng 0 % wTargets.length < wTargets.length :=
    Nat.mod_lt _ (List.length_pos_iff.mpr hw)
  refine ⟨wTargets[s.rng 0 % wTargets.length], List.getElem_mem hlt, ?_⟩
  simp [randomPick, PickState.randomRange, hw]

theorem lowerScore_mem {score : Target W → ℕ} {best : Option (Arc (Target W) × ℕ)}
    {t : Arc (Target W)} {b : Arc (Target W) × ℕ} (h : lowerScore score best t = some b) :
    b.1 = t ∨ best = some b := by
  unfold lowerScore at h
  split at h
  · exact Or.inl (congrArg (·.1) (Option.some.inj h)).symm
  · exact Or.inr h

theorem isSome_lowerScore (score : Target W → ℕ) (best : Option (Arc (Target W) × ℕ))
    (t : Arc (Target W)) : (lowerScore score best t).isSome := by
  unfold lowerScore
  split
  · rfl
  · next h =>
    cases best with
    | none => simp at h
    | some b => rfl

theorem foldl_best_mem
    {step : Option (Arc (Target W) × ℕ) → Arc (Target W) → Option (Arc (Target W) × ℕ)}
    (hstep : ∀ best t b, step best t = some b → b.1 = t ∨ best = some b)
    {ts : List (Arc (Target W))} {best : Option (Arc (Target W) × ℕ)} {b : Arc (Target W) × ℕ}
    (h : ts.foldl step best = some b) : b.1 ∈ ts ∨ best = some b := by
  induction ts generalizing best with
  | nil => exact Or.inr h
  | cons t ts ih =>
    rcases ih h with hmem | hbest
    · exact Or.inl (List.mem_cons_of_mem t hmem)
    · rcases hstep best t b hbest with rfl | hbest
      · exact Or.inl List.mem_cons_self
      · exact Or.inr hbest

theorem isSome_foldl_lowerScore {score : Target W → ℕ} {ts : List (Arc (Target W))}
    {best : Option (Arc (Target W) × ℕ)} (h : ts ≠ [] ∨ best.isSome) :
    (ts.foldl (lowerScore score) best).isSome := by
  induction ts generalizing best with
  | nil => simpa using h
  | cons t ts ih => exact ih (Or.inr (isSome_lowerScore score best t))

variable [WeightArith W]

theorem leastConnectionsPick_mem {targets : List (Arc (Target W))} (ht : targets ≠ [])
    (connections : Ref → ℕ) :
    ∃ t ∈ targets, leastConnectionsPick connections targets = some t := by
  unfold leastConnectionsPick
  dsimp only
  split
  · -- no target has a weight, so the second pass decides
    have hsome : (targets.foldl (lowerScore fun t => connections t.activeConnections)
        none).isSome := isSome_foldl_lowerScore (Or.inl ht)
    obtain ⟨b, hb⟩ := Option.isSome_iff_exists.mp hsome
    refine ⟨b.1, ?_, by rw [hb, Option.map_some]⟩
    rcases foldl_best_mem (fun _ _ _ h => lowerScore_mem h) hb with hmem | hnone
    · exact hmem
    · cases hnone
  · next hw =>
    rw [Option.isNone_iff_eq_none, ← ne_eq, Option.ne_none_iff_exists'] at hw
    obtain ⟨b, hb⟩ := hw
    refine ⟨b.1, ?_, by rw [hb, Option.map_some]⟩
    have hstep : ∀ (best : Option (Arc (Target W) × ℕ)) (t : Arc (Target W)) (c),
        (if WeightArith.le t.val.weight 0 then best
          else lowerScore (loadScore connections) best t) = some c → c.1 = t ∨ best = some c := by
      intro best t c h
      split at h
      · exact Or.inr h
      · exact lowerScore_mem h
    rcases foldl_best_mem hstep hb with hmem | hnone
    · exact hmem
    · cases hnone

/-- From targets with slots of their own, every strategy picks one of the targets. -/
theorem pickTargetByStrategy_mem {targets wTargets : List (Arc (Target W))} (ht : targets ≠ [])
    (hw : wTargets ≠ []) (hsub : wTargets ⊆ targets) (connections : Ref → ℕ) (strategy : String)
    (counter : Ref) (s : PickState) :
    ∃ t ∈ targets, ∃ s',
      pickTargetByStrategy connections strategy targets wTargets counter s = (some t, s') := by
  have hpick : ∃ t ∈ targets,
      (pickTargetByStrategy connections strategy targets wTargets counter s).1 = some t := by
    have hrr := roundRobinPick_mem ht hw counter s
    have hrandom := randomPick_mem hw s
    unfold pickTargetByStrategy
    split
    · exact hrr.imp fun t h => ⟨hsub h.1, h.2⟩
    · split
      · exact hrandom.imp fun t h => ⟨hsub h.1, h.2⟩
      · split
        · exact leastConnectionsPick_mem ht connections
        · exact hrr.imp fun t h => ⟨hsub h.1, h.2⟩
  obtain ⟨t, hmem, he⟩ := hpick
  exact ⟨t, hmem, _, Prod.ext he rfl⟩

end SentirumLb
