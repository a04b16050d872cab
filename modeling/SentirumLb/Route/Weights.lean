import SentirumLb.Route.Target

/-! # Routes and their weighted slots

A route owns its targets and a slot list that repeats every target in
proportion to its weight. The slot list is rebuilt after each change: weights
are assigned, slots counted, and the groups of equal slots interleaved. An
allocation of the route is named by an address; `Arc::make_mut` gives every
target an allocation of its own, which is numbered by the position it holds.
-/

namespace SentirumLb

/-- An allocation with its address, which is unique within the owning route. -/
structure Arc (α : Type) where
  addr : ℕ
  val : α

structure Route (W : Type) where
  host : String
  path : String
  glob : Option (String → Bool)
  targets : List (Arc (Target W))
  wTargets : List (Arc (Target W))
  rrCounter : Ref

variable {W : Type}

namespace Route

def new [Platform] (host path : String) (rr : Ref) : Route W where
  host := host
  path := path
  glob := Platform.patternNew path
  targets := []
  wTargets := []
  rrCounter := rr

/-- Whether a `del` with these criteria leaves the target in place. -/
def keepsOnDel (service : String) (tags : List String) (url : Option String)
    (t : Target W) : Bool :=
  if !service.isEmpty && t.service != service then true
  else if !tags.isEmpty && !tags.all (t.tags.contains ·) then true
  else match url with
    | some url => t.url != url
    | none => false

def removeTargets (r : Route W) (service : String) (tags : List String) (url : Option String) :
    Route W :=
  { r with targets := r.targets.filter fun t => keepsOnDel service tags url t.val }

variable [WeightArith W]

open WeightArith

/-- The identity that `add_target` de-duplicates by. -/
def sameBackend (t u : Target W) : Bool :=
  t.service == u.service && t.url == u.url && eq t.fixedWeight u.fixedWeight &&
    t.source == u.source

def addTarget (r : Route W) (t : Target W) : Route W :=
  if r.targets.any fun e => sameBackend e.val t then r
  else { r with targets := r.targets ++ [⟨r.targets.length, t⟩] }

/-- The weight of every target: its fixed weight, or a share of what the fixed ones leave. -/
def weightOf (ts : List (Target W)) : Target W → W :=
  if ts.any fun t => lt 0 t.fixedWeight then
    let totalFixed :=
      (ts.map fun t => if lt 0 t.fixedWeight then t.fixedWeight else 0).foldl (· + ·) 0
    let dynamicCount : W := (ts.countP fun t => le t.fixedWeight 0 : ℕ)
    let remaining := WeightArith.max (1 - totalFixed) 0
    let dynamicWeight := if lt 0 dynamicCount then remaining / dynamicCount else 0
    fun t => if lt 0 t.fixedWeight then t.fixedWeight else dynamicWeight
  else fun _ => 1 / (ts.length : W)

/-- `Arc::make_mut` on every target, writing its weight. -/
def assignWeights (ts : List (Arc (Target W))) : List (Arc (Target W)) :=
  ts.zipIdx.map fun e => ⟨e.2, { e.1.val with weight := weightOf (ts.map (·.val)) e.1.val }⟩

/-- The number of slots of a target: its share of 1000, and at least one for a positive weight. -/
def slotCount (t : Target W) : ℕ :=
  let count := roundUsize (clamp 0 ((1000 : ℕ) : W) t.weight * ((1000 : ℕ) : W))
  if count = 0 ∧ lt 0 t.weight then 1 else count

/-- The slots of every target in the fallback, when all weights are zero. -/
def equalSlotCount (n : ℕ) : ℕ :=
  Max.max (roundUsize (1 / (n : W) * ((1000 : ℕ) : W))) 1

def groupedSlots (ts : List (Arc (Target W))) : List (Arc (Target W)) :=
  let slots := ts.flatMap fun t => List.replicate (slotCount t.val) t
  if slots.isEmpty then
    ts.flatMap fun t => List.replicate (equalSlotCount (W := W) ts.length) t
  else slots

omit [WeightArith W] in
def runs : List (Arc (Target W)) → List (Arc (Target W) × ℕ)
  | [] => []
  | t :: ts =>
      match runs ts with
      | (u, c) :: rest => if u.addr = t.addr then (t, c + 1) :: rest else (t, 1) :: (u, c) :: rest
      | [] => [(t, 1)]

/-- The better of the best group so far and the next one, given as slots left, position, index. -/
def betterGroup (best : ℕ × W) (e : (ℕ × W) × ℕ) : ℕ × W :=
  if 0 < e.1.1 ∧ lt e.1.2 best.2 then (e.2, e.1.2) else best

/-- The first group with the smallest position among those with slots left, or group 0. -/
def bestGroup (remaining : List ℕ) (positions : List W) : ℕ :=
  ((remaining.zip positions).zipIdx.foldl betterGroup (0, maxValue)).1

def usizePred (n : ℕ) : ℕ := (n + (2 ^ 64 - 1)) % 2 ^ 64

/-- The merge loop: take a slot from the best group and advance it by its stride. -/
def interleaveLoop (groups : List (Arc (Target W) × ℕ)) (n : ℕ) :
    ℕ → List ℕ → List W → List (Arc (Target W))
  | 0, _, _ => []
  | k + 1, remaining, positions =>
      let g := bestGroup remaining positions
      match groups[g]?, remaining[g]?, positions[g]? with
      | some (t, c), some left, some position =>
          let stride : W := if 0 < c then (n : W) / (c : W) else maxValue
          t :: interleaveLoop groups n k (remaining.set g (usizePred left))
            (positions.set g (position + stride))
      -- the indices are in range: see `length_interleaveLoop`
      | _, _, _ => []

def interleave (groups : List (Arc (Target W) × ℕ)) (n : ℕ) : List (Arc (Target W)) :=
  let remaining : List ℕ := groups.map (·.2)
  let total := remaining.sum
  let positions := groups.map fun g =>
    if lt 0 (g.2 : W) then (total : W) / (g.2 : W) * half else maxValue
  interleaveLoop groups n n remaining positions

def spreadSlots (ts : List (Arc (Target W))) : List (Arc (Target W)) :=
  let slots := groupedSlots ts
  if 1 < ts.length ∧ slots ≠ [] then
    if 1 < (runs slots).length then interleave (runs slots) slots.length else slots
  else slots

/-- Recompute the weights and the slot list; called after every change of the targets. -/
def computeWeights (r : Route W) : Route W :=
  if r.targets.isEmpty then { r with wTargets := [] }
  else
    let ts := assignWeights r.targets
    { r with targets := ts, wTargets := spreadSlots ts }

/-! ## What recomputing keeps -/

theorem bestGroup_lt {remaining : List ℕ} {positions : List W} {m : ℕ}
    (hr : remaining.length = m) (hm : 0 < m) : bestGroup remaining positions < m := by
  have hfold : ∀ (l : List ((ℕ × W) × ℕ)) (best : ℕ × W), best.1 < m → (∀ e ∈ l, e.2 < m) →
      (l.foldl betterGroup best).1 < m := by
    intro l
    induction l with
    | nil => intro best hb _; exact hb
    | cons e l ih =>
      intro best hb hl
      have he : e.2 < m := hl e List.mem_cons_self
      apply ih _ _ fun x hx => hl x (List.mem_cons_of_mem _ hx)
      unfold betterGroup
      split <;> assumption
  apply hfold _ _ hm
  intro e he
  have hlt := List.snd_lt_of_mem_zipIdx he
  simp only [List.length_zip] at hlt
  omega

theorem length_interleaveLoop (groups : List (Arc (Target W) × ℕ)) (n k : ℕ)
    (remaining : List ℕ) (positions : List W) (hg : groups ≠ [])
    (hr : remaining.length = groups.length) (hp : positions.length = groups.length) :
    (interleaveLoop groups n k remaining positions).length = k := by
  induction k generalizing remaining positions with
  | zero => rfl
  | succ k ih =>
    have hlt : bestGroup remaining positions < groups.length :=
      bestGroup_lt hr (List.length_pos_iff.mpr hg)
    rw [interleaveLoop, List.getElem?_eq_getElem hlt,
      List.getElem?_eq_getElem (hr.symm ▸ hlt), List.getElem?_eq_getElem (hp.symm ▸ hlt)]
    simp only [List.length_cons, Nat.add_right_cancel_iff]
    exact ih _ _ (by simpa using hr) (by simpa using hp)

theorem mem_interleaveLoop {groups : List (Arc (Target W) × ℕ)} {n k : ℕ}
    {remaining : List ℕ} {positions : List W} {t : Arc (Target W)}
    (h : t ∈ interleaveLoop groups n k remaining positions) : ∃ c, (t, c) ∈ groups := by
  induction k generalizing remaining positions with
  | zero => simp [interleaveLoop] at h
  | succ k ih =>
    rw [interleaveLoop] at h
    split at h
    · next u c _ _ hg _ _ =>
      rcases List.mem_cons.mp h with rfl | h
      · exact ⟨c, List.mem_of_getElem? hg⟩
      · exact ih h
    · simp at h

omit [WeightArith W] in
theorem mem_of_mem_runs {ts : List (Arc (Target W))} {t : Arc (Target W)} {c : ℕ}
    (h : (t, c) ∈ runs ts) : t ∈ ts := by
  induction ts generalizing t c with
  | nil => simp [runs] at h
  | cons u ts ih =>
    rw [runs] at h
    split at h
    · next v d rest hr =>
      rw [hr] at ih
      split at h
      · rcases List.mem_cons.mp h with h | h
        · simp_all
        · exact List.mem_cons_of_mem _ (ih (List.mem_cons_of_mem _ h))
      · rcases List.mem_cons.mp h with h | h
        · simp_all
        · exact List.mem_cons_of_mem _ (ih h)
    · simp_all

theorem mem_of_mem_groupedSlots {ts : List (Arc (Target W))} {t : Arc (Target W)}
    (h : t ∈ groupedSlots ts) : t ∈ ts := by
  unfold groupedSlots at h
  dsimp only at h
  split at h <;>
  · obtain ⟨u, hu, ht⟩ := List.mem_flatMap.mp h
    exact (List.eq_of_mem_replicate ht) ▸ hu

/-- The fallback gives every target a slot, so some slot is left whatever the weights are. -/
theorem groupedSlots_ne_nil {ts : List (Arc (Target W))} (h : ts ≠ []) : groupedSlots ts ≠ [] := by
  unfold groupedSlots
  dsimp only
  split
  · intro he
    obtain ⟨t, ht⟩ := List.exists_mem_of_ne_nil ts h
    have hz := List.flatMap_eq_nil_iff.mp he t ht
    simp only [List.replicate_eq_nil_iff, equalSlotCount] at hz
    omega
  · next hs => simpa using hs

theorem mem_of_mem_spreadSlots {ts : List (Arc (Target W))} {t : Arc (Target W)}
    (h : t ∈ spreadSlots ts) : t ∈ ts := by
  unfold spreadSlots at h
  dsimp only at h
  split at h
  · split at h
    · obtain ⟨c, hc⟩ := mem_interleaveLoop h
      exact mem_of_mem_groupedSlots (mem_of_mem_runs hc)
    · exact mem_of_mem_groupedSlots h
  · exact mem_of_mem_groupedSlots h

theorem spreadSlots_ne_nil {ts : List (Arc (Target W))} (h : ts ≠ []) : spreadSlots ts ≠ [] := by
  have hs := groupedSlots_ne_nil h
  unfold spreadSlots
  dsimp only
  split
  · split
    · next hr =>
      apply List.ne_nil_of_length_pos
      rw [interleave, length_interleaveLoop _ _ _ _ _ (List.ne_nil_of_length_pos (by omega))
        (by simp) (by simp)]
      exact List.length_pos_iff.mpr hs
    · exact hs
  · exact hs

@[simp] theorem computeWeights_host (r : Route W) : r.computeWeights.host = r.host := by
  unfold computeWeights; split <;> rfl

@[simp] theorem computeWeights_path (r : Route W) : r.computeWeights.path = r.path := by
  unfold computeWeights; split <;> rfl

@[simp] theorem computeWeights_rrCounter (r : Route W) :
    r.computeWeights.rrCounter = r.rrCounter := by
  unfold computeWeights; split <;> rfl

@[simp] theorem computeWeights_targets (r : Route W) :
    r.computeWeights.targets = assignWeights r.targets := by
  unfold computeWeights
  split
  · next h => simp [List.isEmpty_iff.mp h, assignWeights]
  · rfl

theorem computeWeights_wTargets {r : Route W} (h : r.targets ≠ []) :
    r.computeWeights.wTargets = spreadSlots r.computeWeights.targets := by
  rw [computeWeights_targets, computeWeights, if_neg (by simpa using h)]

@[simp] theorem assignWeights_eq_nil {ts : List (Arc (Target W))} :
    assignWeights ts = [] ↔ ts = [] := by
  simp [assignWeights]

theorem map_assignWeights {β : Type} (f : Target W → β)
    (hf : ∀ t w, f { t with weight := w } = f t) (ts : List (Arc (Target W))) :
    (assignWeights ts).map (fun a => f a.val) = ts.map fun a => f a.val := by
  simp only [assignWeights, List.map_map]
  conv_rhs => rw [← List.zipIdx_map_fst 0 ts, List.map_map]
  apply List.map_congr_left
  intro e _
  exact hf _ _

/-! ## Recomputing again -/

theorem weightOf_map_weight (ts : List (Target W)) (w : Target W → W) :
    weightOf (ts.map fun t => { t with weight := w t }) = weightOf ts := by
  simp only [weightOf, List.any_map, List.map_map, List.countP_map, List.length_map,
    Function.comp_def]

theorem weightOf_weight (ts : List (Target W)) (t : Target W) (w : W) :
    weightOf ts { t with weight := w } = weightOf ts t := by
  unfold weightOf
  split <;> rfl

theorem map_val_assignWeights (ts : List (Arc (Target W))) : (assignWeights ts).map (·.val) =
    (ts.map (·.val)).map fun t => { t with weight := weightOf (ts.map (·.val)) t } := by
  refine List.ext_getElem? fun i => ?_
  simp only [assignWeights, List.getElem?_map, List.getElem?_zipIdx]
  cases ts[i]? <;> rfl

theorem assignWeights_assignWeights (ts : List (Arc (Target W))) :
    assignWeights (assignWeights ts) = assignWeights ts := by
  have hweight : weightOf ((assignWeights ts).map (·.val)) = weightOf (ts.map (·.val)) := by
    rw [map_val_assignWeights, weightOf_map_weight]
  refine List.ext_getElem? fun i => ?_
  rw [assignWeights, hweight]
  simp only [assignWeights, List.getElem?_map, List.getElem?_zipIdx]
  cases ts[i]? with
  | none => rfl
  | some a => simp [weightOf_weight]

theorem computeWeights_computeWeights (r : Route W) :
    r.computeWeights.computeWeights = r.computeWeights := by
  by_cases hr : r.targets = []
  · simp [computeWeights, hr]
  · simp [computeWeights, hr, assignWeights_assignWeights]

end Route

end SentirumLb
