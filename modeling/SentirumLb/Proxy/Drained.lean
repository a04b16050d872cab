import SentirumLb.Proxy.TcpLookup
import SentirumLb.Route.AddOnly
import SentirumLb.Route.Interleave

/-! # Drained targets

A target whose weight is 0 has no slot, and least-connections skips it. Both
rules are about the lists that a picker is handed, and a lookup hands it other
lists than those of the route: the targets that match the headers when none of
them has a slot, and the healthy targets with another URL when the first pick
is refused.
-/

namespace SentirumLb

open WeightArith

/-! ## Slots and weights -/

namespace Route

theorem slotsDue_eq_zero_iff {w : ℚ} (hw : 0 ≤ w) : slotsDue w = 0 ↔ w = 0 := by
  unfold slotsDue
  dsimp only
  constructor
  · intro h
    split at h
    · cases h
    · next hno => exact (hw.eq_or_lt.resolve_right fun hpos => hno ⟨h, hpos⟩).symm
  · rintro rfl
    norm_num

theorem mem_groupedSlots_iff {ts : List (Arc (Target ℚ))} (hw : ∀ t ∈ ts, 0 ≤ t.val.weight)
    (hsome : ∃ u ∈ ts, u.val.weight ≠ 0) {t : Arc (Target ℚ)} :
    t ∈ groupedSlots ts ↔ t ∈ ts ∧ t.val.weight ≠ 0 := by
  obtain ⟨u, hu, hne⟩ := hsome
  have hdue : ∀ t : Target ℚ, slotsOf ts t = slotsDue t.weight := by
    intro t
    rw [slotsOf, if_neg]
    exact fun hall => hne ((slotsDue_eq_zero_iff (hw u hu)).mp (hall u hu))
  rw [groupedSlots_eq hw]
  simp only [List.mem_flatMap, hdue, List.mem_replicate]
  constructor
  · rintro ⟨v, hv, hcount, rfl⟩
    exact ⟨hv, fun hzero => hcount ((slotsDue_eq_zero_iff (hw t hv)).mpr hzero)⟩
  · rintro ⟨ht, hweight⟩
    exact ⟨t, ht, fun hzero => hweight ((slotsDue_eq_zero_iff (hw t ht)).mp hzero), rfl⟩

theorem exists_weightOf_ne_zero {ts : List (Target ℚ)} (hne : ts ≠ []) :
    ∃ t ∈ ts, weightOf ts t ≠ 0 := by
  by_cases hfixed : ts.any fun t => lt 0 t.fixedWeight
  · obtain ⟨t, ht, hpos⟩ := List.any_eq_true.mp hfixed
    refine ⟨t, ht, ?_⟩
    rw [weightOf, if_pos hfixed, if_pos hpos]
    exact (decide_eq_true_eq.mp hpos).ne'
  · obtain ⟨t, ht⟩ := List.exists_mem_of_ne_nil ts hne
    refine ⟨t, ht, ?_⟩
    rw [weightOf, if_neg hfixed]
    have hlen : (ts.length : ℚ) ≠ 0 := by
      exact_mod_cast (List.length_pos_iff.mpr hne).ne'
    exact div_ne_zero one_ne_zero hlen

/-- A route as it is after its weights are computed; a `Vec` has less than `2 ^ 64` elements. -/
structure Weighed (r : Route ℚ) : Prop where
  settled : r.computeWeights = r
  targets_ne : r.targets ≠ []
  length_lt : r.targets.length < 2 ^ 64

namespace Weighed

variable {r : Route ℚ} (h : r.Weighed)

include h

theorem targets_eq : r.targets = assignWeights r.targets :=
  (congrArg Route.targets h.settled).symm.trans (computeWeights_targets r)

theorem weight_nonneg {t : Arc (Target ℚ)} (ht : t ∈ r.targets) : 0 ≤ t.val.weight :=
  assignWeights_nonneg (h.targets_eq ▸ ht)

theorem weight_eq {t : Arc (Target ℚ)} (ht : t ∈ r.targets) :
    t.val.weight = weightOf (r.targets.map (·.val)) t.val := by
  rw [h.targets_eq] at ht
  obtain ⟨e, -, rfl⟩ := List.mem_map.mp ht
  exact (weightOf_weight _ _ _).symm

theorem exists_weight : ∃ t ∈ r.targets, t.val.weight ≠ 0 := by
  have hne : r.targets.map (·.val) ≠ [] := by simpa using h.targets_ne
  obtain ⟨_, hmem, hweight⟩ := exists_weightOf_ne_zero hne
  obtain ⟨t, ht, rfl⟩ := List.mem_map.mp hmem
  exact ⟨t, ht, h.weight_eq ht ▸ hweight⟩

theorem mem_wTargets_iff {t : Arc (Target ℚ)} :
    t ∈ r.wTargets ↔ t ∈ r.targets ∧ t.val.weight ≠ 0 := by
  have hslots : r.wTargets = spreadSlots r.targets := by
    have hwTargets := computeWeights_wTargets h.targets_ne
    rwa [h.settled] at hwTargets
  have haddr : (r.targets.map (·.addr)).Nodup := by
    rw [h.targets_eq]
    exact nodup_addr_assignWeights r.targets
  have hw : ∀ t ∈ r.targets, 0 ≤ t.val.weight := fun t => h.weight_nonneg
  rw [hslots, (spreadSlots_perm haddr hw h.length_lt h.targets_ne).mem_iff,
    mem_groupedSlots_iff hw h.exists_weight]

end Weighed

end Route

/-! ## Picks and weights -/

theorem leastConnectionsPick_weight {connections : Ref → ℕ} {ts : List (Arc (Target ℚ))}
    {t : Arc (Target ℚ)} (h : leastConnectionsPick connections ts = some t)
    (hweight : t.val.weight ≤ 0) : ∀ u ∈ ts, u.val.weight ≤ 0 := by
  have hfilter : (ts.foldl (fun best t => if le t.val.weight 0 then best
        else lowerScore (loadScore connections) best t) none) =
      (ts.filter fun t => !le t.val.weight 0).foldl (lowerScore (loadScore connections)) none := by
    rw [List.foldl_filter]
    congr 1
    funext best t
    cases le t.val.weight 0 <;> rfl
  unfold leastConnectionsPick at h
  rw [hfilter] at h
  dsimp only at h
  split at h
  · next hnone =>
    intro u hu
    by_contra hpos
    have hmem : u ∈ ts.filter fun t => !le t.val.weight 0 := by
      simpa [List.mem_filter, hu, le] using hpos
    have hsome : ((ts.filter fun t => !le t.val.weight 0).foldl
        (lowerScore (loadScore connections)) none).isSome :=
      isSome_foldl_lowerScore (Or.inl (List.ne_nil_of_mem hmem))
    rw [Option.isNone_iff_eq_none] at hnone
    rw [hnone] at hsome
    cases hsome
  · obtain ⟨b, hb, rfl⟩ := Option.map_eq_some_iff.mp h
    rcases foldl_best_mem (fun _ _ _ h => lowerScore_mem h) hb with hmem | hnone
    · have hpos := (List.mem_filter.mp hmem).2
      simp only [le, Bool.not_eq_true', decide_eq_false_iff_not] at hpos
      exact absurd hweight hpos
    · cases hnone

theorem pickTargetByStrategy_weight {connections : Ref → ℕ} {strategy : String}
    {targets wTargets : List (Arc (Target ℚ))} {counter : Ref} {s : PickState}
    {t : Arc (Target ℚ)}
    (h : (pickTargetByStrategy connections strategy targets wTargets counter s).1 = some t) :
    t ∈ wTargets ∨ (t.val.weight ≤ 0 → ∀ u ∈ targets, u.val.weight ≤ 0) := by
  have hrr : (roundRobinPick targets wTargets counter s).1 = some t → t ∈ wTargets := by
    intro hpick
    unfold roundRobinPick at hpick
    split at hpick
    · cases hpick
    · exact List.mem_of_getElem? hpick
  have hrandom : (randomPick wTargets s).1 = some t → t ∈ wTargets :=
    fun hpick => (exists_randomPick_iff t).mp ⟨s, hpick⟩
  unfold pickTargetByStrategy at h
  split at h
  · exact Or.inl (hrr h)
  · split at h
    · exact Or.inl (hrandom h)
    · split at h
      · exact Or.inr (leastConnectionsPick_weight h)
      · exact Or.inl (hrr h)

namespace LookupEnv

/-! ## What a round can give -/

section Round

variable (env : LookupEnv)

def accepts (cbEnabled : Bool) (t : Target ℚ) : Bool :=
  (env.tracker t).isProbeHealthy && (!cbEnabled || (env.tracker t).canAcceptRequest env.nowMs)

def isAvailable (t : Target ℚ) : Bool :=
  (env.tracker t).isProbeHealthy && (env.tracker t).canAcceptRequest env.nowMs

def Matching (r : Route ℚ) (t : Arc (Target ℚ)) : Prop :=
  t ∈ r.targets ∧ t.val.matchesHeaders env.headers = true

/-- What the first pick is made from: the matching targets with a weight, or all if there are
none. -/
def FirstPick (r : Route ℚ) (t : Arc (Target ℚ)) : Prop :=
  env.Matching r t ∧ (t.val.weight ≠ 0 ∨ ∀ u, env.Matching r u → u.val.weight = 0)

def SecondPick (r : Route ℚ) (first t : Arc (Target ℚ)) : Prop :=
  env.Matching r t ∧ t.val.url ≠ first.val.url ∧ env.isAvailable t.val = true

def CanGive (cbEnabled : Bool) (r : Route ℚ) (t : Arc (Target ℚ)) : Prop :=
  env.FirstPick r t ∧ env.accepts cbEnabled t.val = true ∨
    ∃ first, env.FirstPick r first ∧ env.accepts cbEnabled first.val = false ∧
      env.SecondPick r first t

def CanPass (cbEnabled : Bool) (r : Route ℚ) : Prop :=
  (∀ t, ¬env.Matching r t) ∨
    ∃ first, env.FirstPick r first ∧ env.accepts cbEnabled first.val = false ∧
      ∀ t, ¬env.SecondPick r first t

/-- A target without a weight gets through: it is accepted while no matching target has a weight, or
it is available while one with a weight and another URL is refused. -/
def Leaks (cbEnabled : Bool) (r : Route ℚ) : Prop :=
  ∃ t, env.Matching r t ∧ t.val.weight = 0 ∧
    ((∀ u, env.Matching r u → u.val.weight = 0) ∧ env.accepts cbEnabled t.val = true ∨
      ∃ u, env.Matching r u ∧ u.val.weight ≠ 0 ∧ env.accepts cbEnabled u.val = false ∧
        u.val.url ≠ t.val.url ∧ env.isAvailable t.val = true)

end Round

variable {env : LookupEnv} {cbEnabled : Bool}

theorem accepts_of_isAvailable {t : Target ℚ} (h : env.isAvailable t = true) :
    env.accepts cbEnabled t = true := by
  simp only [isAvailable, accepts, Bool.and_eq_true, Bool.or_eq_true] at h ⊢
  exact ⟨h.1, Or.inr h.2⟩

theorem leaks_iff {r : Route ℚ} :
    env.Leaks cbEnabled r ↔ ∃ t, t.val.weight = 0 ∧ env.CanGive cbEnabled r t := by
  constructor
  · rintro ⟨t, hmatch, hzero, (⟨hall, haccept⟩ | ⟨u, hu, hweight, hrefused, hurl, havail⟩)⟩
    · exact ⟨t, hzero, Or.inl ⟨⟨hmatch, Or.inr hall⟩, haccept⟩⟩
    · exact ⟨t, hzero, Or.inr ⟨u, ⟨hu, Or.inl hweight⟩, hrefused, hmatch, hurl.symm, havail⟩⟩
  · rintro ⟨t, hzero, (⟨⟨hmatch, hfirst⟩, haccept⟩ | ⟨u, ⟨hu, hfirst⟩, hrefused, hsecond⟩)⟩
    · exact ⟨t, hmatch, hzero, Or.inl ⟨hfirst.resolve_left (absurd hzero), haccept⟩⟩
    · obtain ⟨hmatch, hurl, havail⟩ := hsecond
      refine ⟨t, hmatch, hzero, ?_⟩
      rcases hfirst with hweight | hall
      · exact Or.inr ⟨u, hu, hweight, hrefused, hurl.symm, havail⟩
      · exact Or.inl ⟨hall, accepts_of_isAvailable havail⟩

/-! ## What a round gives -/

theorem candidates_eq {r : Route ℚ} (hr : r.Weighed) :
    env.candidates r =
      if (r.targets.filter fun t => t.val.matchesHeaders env.headers).isEmpty then none
      else some (r.targets.filter fun t => t.val.matchesHeaders env.headers,
        r.wTargets.filter fun t => t.val.matchesHeaders env.headers) := by
  unfold candidates
  split
  · rfl
  · next hopt =>
    have hmatch : ∀ t ∈ r.targets, t.val.matchesHeaders env.headers = true := by
      intro t ht
      apply Target.matchesHeaders_of_no_option
      have hnone := List.any_eq_false.mp (Bool.not_eq_true _ ▸ hopt) t ht
      simpa using hnone
    have hslots : ∀ t ∈ r.wTargets, t.val.matchesHeaders env.headers = true :=
      fun t ht => hmatch t (hr.mem_wTargets_iff.mp ht).1
    rw [List.filter_eq_self.mpr hmatch, List.filter_eq_self.mpr hslots,
      if_neg (by simpa using hr.targets_ne)]

theorem mem_slots_iff {r : Route ℚ} {targets wTargets : List (Arc (Target ℚ))}
    (htargets : ∀ t, t ∈ targets ↔ env.Matching r t)
    (hslots : ∀ t, t ∈ wTargets ↔ env.Matching r t ∧ t.val.weight ≠ 0) (t : Arc (Target ℚ)) :
    (t ∈ if wTargets.isEmpty then targets else wTargets) ↔ env.FirstPick r t := by
  split
  · next hempty =>
    rw [List.isEmpty_iff, List.eq_nil_iff_forall_not_mem] at hempty
    have hall : ∀ u, env.Matching r u → u.val.weight = 0 := by
      intro u hu
      by_contra hweight
      exact hempty u ((hslots u).mpr ⟨hu, hweight⟩)
    rw [htargets]
    exact ⟨fun ht => ⟨ht, Or.inr hall⟩, fun ht => ht.1⟩
  · next hsome =>
    obtain ⟨u, hu⟩ := List.exists_mem_of_ne_nil _ (mt List.isEmpty_iff.mpr hsome)
    rw [hslots]
    constructor
    · exact fun ht => ⟨ht.1, Or.inl ht.2⟩
    · rintro ⟨ht, (hweight | hall)⟩
      · exact ⟨ht, hweight⟩
      · exact absurd (hall u ((hslots u).mp hu).1) ((hslots u).mp hu).2

variable (env) in
theorem candidates_of_weighed {r : Route ℚ} (hr : r.Weighed) :
    match env.candidates r with
    | none => ∀ t, ¬env.Matching r t
    | some (targets, wTargets) =>
        targets ≠ [] ∧ (∀ t, t ∈ targets ↔ env.Matching r t) ∧
          ∀ t, (t ∈ if wTargets.isEmpty then targets else wTargets) ↔ env.FirstPick r t := by
  have hmem : ∀ t, t ∈ (r.targets.filter fun t => t.val.matchesHeaders env.headers) ↔
      env.Matching r t := fun t => List.mem_filter
  have hslots : ∀ t, t ∈ (r.wTargets.filter fun t => t.val.matchesHeaders env.headers) ↔
      env.Matching r t ∧ t.val.weight ≠ 0 := by
    intro t
    rw [List.mem_filter, hr.mem_wTargets_iff, Matching]
    tauto
  rw [candidates_eq hr]
  split
  · next hnone =>
    split at hnone
    · next hempty =>
      rw [List.isEmpty_iff] at hempty
      intro t ht
      rw [← hmem t, hempty] at ht
      cases ht
    · cases hnone
  · next targets wTargets hsome =>
    split at hsome
    · cases hsome
    · next hne =>
      cases hsome
      exact ⟨by simpa using hne, hmem, mem_slots_iff hmem hslots⟩

theorem firstPick_of_candidates {r : Route ℚ} (hr : r.Weighed)
    {targets wTargets : List (Arc (Target ℚ))}
    (hcandidates : env.candidates r = some (targets, wTargets)) (connections : Ref → ℕ)
    (strategy : String) (s : PickState) :
    ∃ t s', pickTargetByStrategy connections strategy targets
        (if wTargets.isEmpty then targets else wTargets) r.rrCounter s = (some t, s') ∧
      env.FirstPick r t := by
  have hlists := env.candidates_of_weighed hr
  rw [hcandidates] at hlists
  obtain ⟨hne, htargets, hslots⟩ := hlists
  have hslotsNe : (if wTargets.isEmpty then targets else wTargets) ≠ [] := by
    split
    · exact hne
    · next hsome => exact mt List.isEmpty_iff.mpr hsome
  have hsub : (if wTargets.isEmpty then targets else wTargets) ⊆ targets :=
    fun t ht => (htargets t).mpr ((hslots t).mp ht).1
  obtain ⟨t, ht, s', hpick⟩ :=
    pickTargetByStrategy_mem hne hslotsNe hsub connections strategy r.rrCounter s
  refine ⟨t, s', hpick, ?_⟩
  rcases pickTargetByStrategy_weight (congrArg (·.1) hpick) with hmem | hleast
  · exact (hslots t).mp hmem
  · refine ⟨(htargets t).mp ht, ?_⟩
    by_cases hweight : t.val.weight = 0
    · refine Or.inr fun u hu => le_antisymm ?_ (hr.weight_nonneg hu.1)
      exact hleast hweight.le u ((htargets u).mpr hu)
    · exact Or.inl hweight

theorem mem_healthyFallbacks {targets : List (Arc (Target ℚ))} {r : Route ℚ}
    (htargets : ∀ t, t ∈ targets ↔ env.Matching r t) {first t : Arc (Target ℚ)} :
    t ∈ (targets.filter fun t => t.val.url != first.val.url &&
      (env.tracker t.val).isProbeHealthy && (env.tracker t.val).canAcceptRequest env.nowMs) ↔
      env.SecondPick r first t := by
  rw [List.mem_filter, htargets, Bool.and_assoc, Bool.and_eq_true, bne_iff_ne]
  rfl

theorem wTargets_isEmpty {r : Route ℚ} (hr : r.Weighed) : r.wTargets.isEmpty = false := by
  obtain ⟨t, ht, hweight⟩ := hr.exists_weight
  simpa using List.ne_nil_of_mem (hr.mem_wTargets_iff.mpr ⟨ht, hweight⟩)

theorem pickFromRoute_of_none {r : Route ℚ} (hr : r.Weighed)
    (hcandidates : env.candidates r = none) (strategy : String) (s : PickState) :
    env.pickFromRoute strategy cbEnabled r s = (none, s) := by
  rw [pickFromRoute, if_neg (by simp [wTargets_isEmpty hr]), hcandidates]

theorem pickFromRoute_of_pick {r : Route ℚ} (hr : r.Weighed)
    {targets wTargets : List (Arc (Target ℚ))}
    (hcandidates : env.candidates r = some (targets, wTargets)) {strategy : String}
    {s s' : PickState} {first : Arc (Target ℚ)}
    (hpick : pickTargetByStrategy env.heap.counters strategy targets
      (if wTargets.isEmpty then targets else wTargets) r.rrCounter s = (some first, s')) :
    env.pickFromRoute strategy cbEnabled r s =
      if env.accepts cbEnabled first.val then (some first, s')
      else env.pickFallback strategy targets first r.rrCounter s' := by
  rw [pickFromRoute, if_neg (by simp [wTargets_isEmpty hr]), hcandidates]
  dsimp only
  rw [hpick]
  rfl

variable (env cbEnabled) in
/-- Every outcome of a round is one that it can have. -/
theorem pickFromRoute_sound {r : Route ℚ} (hr : r.Weighed) (strategy : String) (s : PickState) :
    match (env.pickFromRoute strategy cbEnabled r s).1 with
    | some t => env.CanGive cbEnabled r t
    | none => env.CanPass cbEnabled r := by
  have hlists := env.candidates_of_weighed hr
  cases hcandidates : env.candidates r with
  | none =>
    rw [hcandidates] at hlists
    rw [pickFromRoute_of_none hr hcandidates]
    exact Or.inl hlists
  | some lists =>
    obtain ⟨targets, wTargets⟩ := lists
    rw [hcandidates] at hlists
    obtain ⟨-, htargets, -⟩ := hlists
    obtain ⟨first, s', hpick, hfirst⟩ :=
      firstPick_of_candidates hr hcandidates env.heap.counters strategy s
    rw [pickFromRoute_of_pick hr hcandidates hpick]
    cases haccept : env.accepts cbEnabled first.val with
    | true => exact Or.inl ⟨hfirst, haccept⟩
    | false =>
      rw [if_neg Bool.false_ne_true]
      unfold pickFallback
      dsimp only
      by_cases hempty : (targets.filter fun t => t.val.url != first.val.url &&
          (env.tracker t.val).isProbeHealthy &&
          (env.tracker t.val).canAcceptRequest env.nowMs).isEmpty
      · rw [if_pos hempty]
        rw [List.isEmpty_iff, List.eq_nil_iff_forall_not_mem] at hempty
        exact Or.inr ⟨first, hfirst, haccept,
          fun t ht => hempty t ((mem_healthyFallbacks htargets).mpr ht)⟩
      · have hne := mt List.isEmpty_iff.mpr hempty
        obtain ⟨t, ht, s'', hfallback⟩ := pickTargetByStrategy_mem hne hne (List.Subset.refl _)
          env.heap.counters strategy r.rrCounter s'
        rw [if_neg hempty, hfallback]
        exact Or.inr ⟨first, hfirst, haccept, (mem_healthyFallbacks htargets).mp ht⟩

/-! ## Every outcome is that of some random picks -/

def pushRng (n : ℕ) (s : PickState) : PickState where
  rrCounters := s.rrCounters
  rng
    | 0 => n
    | i + 1 => s.rng i

theorem exists_randomPick {wTargets : List (Arc (Target ℚ))} {t : Arc (Target ℚ)}
    (ht : t ∈ wTargets) (targets : List (Arc (Target ℚ))) (connections : Ref → ℕ) (counter : Ref)
    (s' : PickState) :
    ∃ s, pickTargetByStrategy connections "random" targets wTargets counter s = (some t, s') := by
  obtain ⟨i, hi, rfl⟩ := List.getElem_of_mem ht
  refine ⟨pushRng i s', ?_⟩
  have hne : wTargets.isEmpty = false := by simpa using List.ne_nil_of_mem ht
  have hother : ¬("random" = "round-robin" ∨ "random" = "rr" ∨ "random" = "") := by decide
  rw [pickTargetByStrategy, if_neg hother, if_pos (Or.inl rfl)]
  simp [randomPick, PickState.randomRange, hne, pushRng, Nat.mod_eq_of_lt hi]

variable (cbEnabled) in
theorem exists_random_first {r : Route ℚ} (hr : r.Weighed) {first : Arc (Target ℚ)}
    (h : env.FirstPick r first) :
    ∃ targets, (∀ t, t ∈ targets ↔ env.Matching r t) ∧ ∀ s', ∃ s,
      env.pickFromRoute "random" cbEnabled r s =
        if env.accepts cbEnabled first.val then (some first, s')
        else env.pickFallback "random" targets first r.rrCounter s' := by
  have hlists := env.candidates_of_weighed hr
  cases hcandidates : env.candidates r with
  | none =>
    rw [hcandidates] at hlists
    exact absurd h.1 (hlists first)
  | some lists =>
    obtain ⟨targets, wTargets⟩ := lists
    rw [hcandidates] at hlists
    obtain ⟨-, htargets, hslots⟩ := hlists
    refine ⟨targets, htargets, fun s' => ?_⟩
    obtain ⟨s, hpick⟩ := exists_randomPick ((hslots first).mpr h) targets env.heap.counters
      r.rrCounter s'
    exact ⟨s, pickFromRoute_of_pick hr hcandidates hpick⟩

theorem exists_random_give {r : Route ℚ} (hr : r.Weighed) {t : Arc (Target ℚ)}
    (h : env.CanGive cbEnabled r t) :
    ∃ s, (env.pickFromRoute "random" cbEnabled r s).1 = some t := by
  obtain ⟨last⟩ : Nonempty PickState := ⟨⟨fun _ => 0, fun _ => 0⟩⟩
  rcases h with ⟨hfirst, haccept⟩ | ⟨first, hfirst, hrefused, hsecond⟩
  · obtain ⟨targets, -, hround⟩ := exists_random_first cbEnabled hr hfirst
    obtain ⟨s, hs⟩ := hround last
    exact ⟨s, by rw [hs, if_pos haccept]⟩
  · obtain ⟨targets, htargets, hround⟩ := exists_random_first cbEnabled hr hfirst
    have hmem := (mem_healthyFallbacks htargets).mpr hsecond
    obtain ⟨s₂, hfallback⟩ :=
      exists_randomPick hmem (targets.filter _) env.heap.counters r.rrCounter last
    obtain ⟨s₁, hs⟩ := hround s₂
    refine ⟨s₁, ?_⟩
    rw [hs, hrefused, if_neg Bool.false_ne_true, pickFallback,
      if_neg (mt List.isEmpty_iff.mp (List.ne_nil_of_mem hmem)), hfallback]

theorem exists_random_pass {r : Route ℚ} (hr : r.Weighed) (h : env.CanPass cbEnabled r)
    (s' : PickState) : ∃ s, env.pickFromRoute "random" cbEnabled r s = (none, s') := by
  rcases h with hnone | ⟨first, hfirst, hrefused, hnone⟩
  · have hlists := env.candidates_of_weighed hr
    cases hcandidates : env.candidates r with
    | none => exact ⟨s', pickFromRoute_of_none hr hcandidates "random" s'⟩
    | some lists =>
      obtain ⟨targets, wTargets⟩ := lists
      rw [hcandidates] at hlists
      obtain ⟨t, ht⟩ := List.exists_mem_of_ne_nil _ hlists.1
      exact absurd ((hlists.2.1 t).mp ht) (hnone t)
  · obtain ⟨targets, htargets, hround⟩ := exists_random_first cbEnabled hr hfirst
    obtain ⟨s, hs⟩ := hround s'
    refine ⟨s, ?_⟩
    have hempty : (targets.filter fun t => t.val.url != first.val.url &&
        (env.tracker t.val).isProbeHealthy &&
        (env.tracker t.val).canAcceptRequest env.nowMs).isEmpty := by
      rw [List.isEmpty_iff, List.eq_nil_iff_forall_not_mem]
      exact fun t ht => hnone t ((mem_healthyFallbacks htargets).mp ht)
    rw [hs, hrefused, if_neg Bool.false_ne_true, pickFallback, if_pos hempty]

/-! ## All matching routes -/

/-- A lookup can give what a round can, once every round in front of it can pass. -/
theorem exists_pickFromRoutes_iff {rs : List (Route ℚ)} (hrs : ∀ r ∈ rs, r.Weighed)
    {t : Arc (Target ℚ)} :
    (∃ strategy s, (env.pickFromRoutes strategy cbEnabled rs s).1 = some t) ↔
      ∃ pre r post, rs = pre ++ r :: post ∧ (∀ q ∈ pre, env.CanPass cbEnabled q) ∧
        env.CanGive cbEnabled r t := by
  constructor
  · rintro ⟨strategy, s, h⟩
    induction rs generalizing s with
    | nil => cases h
    | cons r rs ih =>
      have hround := env.pickFromRoute_sound cbEnabled (hrs r List.mem_cons_self) strategy s
      rw [pickFromRoutes] at h
      generalize env.pickFromRoute strategy cbEnabled r s = outcome at h hround
      obtain ⟨pick, s'⟩ := outcome
      cases pick with
      | some u =>
        cases h
        exact ⟨[], r, rs, rfl, by simp, hround⟩
      | none =>
        obtain ⟨pre, q, post, rfl, hpre, hgive⟩ :=
          ih (fun q hq => hrs q (List.mem_cons_of_mem r hq)) s' h
        exact ⟨r :: pre, q, post, rfl, List.forall_mem_cons.mpr ⟨hround, hpre⟩, hgive⟩
  · rintro ⟨pre, r, post, rfl, hpre, hgive⟩
    refine ⟨"random", ?_⟩
    induction pre with
    | nil =>
      obtain ⟨s, hs⟩ := exists_random_give (hrs r (by simp)) hgive
      refine ⟨s, ?_⟩
      rw [List.nil_append, pickFromRoutes]
      generalize env.pickFromRoute "random" cbEnabled r s = outcome at hs
      obtain ⟨pick, s'⟩ := outcome
      cases hs
      rfl
    | cons q pre ih =>
      rw [List.forall_mem_cons] at hpre
      obtain ⟨s', hs'⟩ := ih (fun p hp => hrs p (List.mem_cons_of_mem q hp)) hpre.2
      obtain ⟨s, hs⟩ := exists_random_pass (hrs q (by simp)) hpre.1 s'
      refine ⟨s, ?_⟩
      rw [List.cons_append, pickFromRoutes, hs]
      exact hs'

/-- No lookup of a request gives a target without a weight, by any strategy and with any counters,
just when no matching route leaks one that the lookup can come to. -/
theorem drained_iff {table : Table ℚ} (hsettled : table.Settled)
    (hlen : ∀ key, ∀ r ∈ table.bucket key, r.targets.length < 2 ^ 64) (env : LookupEnv)
    (host path : String) (m : MatcherKind) (cbEnabled : Bool) :
    (∀ strategy s t, (env.lookupTarget table host path m strategy cbEnabled s).1 = some t →
        t.val.weight ≠ 0) ↔
      ∀ pre r post, table.matchingRoutes host path m = pre ++ r :: post →
        (∀ q ∈ pre, env.CanPass cbEnabled q) → ¬env.Leaks cbEnabled r := by
  have hrs : ∀ r ∈ table.matchingRoutes host path m, r.Weighed := by
    intro r hr
    obtain ⟨key, hhit⟩ := Table.mem_hits_of_mem_matchingRoutes hr
    obtain ⟨hkey, -, hne⟩ := Table.mem_hits.mp hhit
    exact ⟨hsettled key r hkey, hne, hlen key r hkey⟩
  constructor
  · intro hnever pre r post hsplit hpre hleaks
    obtain ⟨t, hzero, hgive⟩ := leaks_iff.mp hleaks
    obtain ⟨strategy, s, hs⟩ :=
      (exists_pickFromRoutes_iff hrs).mpr ⟨pre, r, post, hsplit, hpre, hgive⟩
    exact hnever strategy s t hs hzero
  · intro hnone strategy s t hs hzero
    obtain ⟨pre, r, post, hsplit, hpre, hgive⟩ :=
      (exists_pickFromRoutes_iff hrs).mp ⟨strategy, s, hs⟩
    exact hnone pre r post hsplit hpre (leaks_iff.mpr ⟨t, hzero, hgive⟩)

end LookupEnv

theorem ManagedRouteTable.Published.settled [Platform] {m : ManagedRouteTable ℚ}
    (h : m.Published) : m.table.Settled := by
  obtain ⟨held, cbConfig, reg, heap, he⟩ := h
  obtain ⟨t, hreplay, ht⟩ :=
    Table.fromDefinitionsWithStats_replay held cbConfig reg heap m.registry.getAll
  rw [he, ht]
  exact Table.settled_finalize (hreplay.settled Table.settled_new)

section Examples

attribute [local instance] Platform.plain

def drainedCalls : List (Update ℚ × List (Target ℚ)) :=
  [(.loadStatic
    [{ exampleDef .static .add "web" "http://10.0.0.1:80" with weight := 1 },
      exampleDef .static .add "web" "http://10.0.0.2:80"], [])]

def drainedTable : Table ℚ := ((ManagedRouteTable.new none .empty).run drainedCalls).table

def drainedEnv : LookupEnv := ⟨{ Heap.empty with trackers := firstUnhealthy }, 0, fun _ => none⟩

/-- When the backend with the weight is down, the drained one gets its traffic. -/
theorem lookupTarget_drained :
    (∃ r ∈ drainedTable.matchingRoutes "shop.example" "/api" .pathPrefix,
        r.targets.map (fun t => (t.val.url, t.val.weight)) =
          [("http://10.0.0.1:80", 1), ("http://10.0.0.2:80", 0)]) ∧
      ∃ t, (drainedEnv.lookupTarget drainedTable "shop.example" "/api" .pathPrefix "rr" true
          ⟨fun _ => 0, fun _ => 0⟩).1 = some t ∧ t.val.weight = 0 := by
  have hroutes : (drainedTable.matchingRoutes "shop.example" "/api" .pathPrefix).map
      (fun r => r.targets.map fun t => (t.val.url, t.val.weight)) =
        [[("http://10.0.0.1:80", 1), ("http://10.0.0.2:80", 0)]] := by decide +kernel
  have hpick : (drainedEnv.lookupTarget drainedTable "shop.example" "/api" .pathPrefix "rr" true
      ⟨fun _ => 0, fun _ => 0⟩).1.map (·.val.weight) = some 0 := by decide +kernel
  constructor
  · exact List.mem_map.mp (hroutes ▸ List.mem_singleton_self _)
  · obtain ⟨t, ht, hzero⟩ := Option.map_eq_some_iff.mp hpick
    exact ⟨t, ht, hzero⟩

theorem length_lt_drainedTable : ∀ key, ∀ r ∈ drainedTable.bucket key,
    r.targets.length < 2 ^ 64 := by
  have hall : drainedTable.routes.vals.all
      (fun rs => rs.all fun r => decide (r.targets.length < 2 ^ 64)) = true := by decide +kernel
  intro key r hr
  obtain ⟨rs, hlookup, hmem⟩ := Table.mem_bucket hr
  have hrs := List.all_eq_true.mp hall rs (AssocMap.mem_vals_iff.mpr ⟨key, hlookup⟩)
  simpa using List.all_eq_true.mp hrs r hmem

def upEnv : LookupEnv := ⟨Heap.empty, 0, fun _ => none⟩

/-- While both backends are up, the drained one gets nothing. -/
theorem drained_iff_drainedTable :
    (∃ t, (upEnv.lookupTarget drainedTable "shop.example" "/api" .pathPrefix "rr" false
        ⟨fun _ => 0, fun _ => 0⟩).1 = some t) ∧
      ∀ strategy s t, (upEnv.lookupTarget drainedTable "shop.example" "/api" .pathPrefix strategy
        false s).1 = some t → t.val.weight ≠ 0 := by
  refine ⟨Option.isSome_iff_exists.mp (by decide +kernel), ?_⟩
  refine (LookupEnv.drained_iff (ManagedRouteTable.published_run none .empty drainedCalls).settled
    length_lt_drainedTable _ _ _ _ _).mpr ?_
  rintro pre r post hsplit - ⟨t, -, -, (⟨hall, -⟩ | ⟨u, -, -, hrefused, -⟩)⟩
  · have hsome : (drainedTable.matchingRoutes "shop.example" "/api" .pathPrefix).all
        (fun r => r.targets.any fun t =>
          t.val.matchesHeaders (fun _ => none) && decide (t.val.weight ≠ 0)) = true := by
      decide +kernel
    have hr := List.all_eq_true.mp hsome r (hsplit ▸ by simp)
    obtain ⟨u, hu, hweight⟩ := List.any_eq_true.mp hr
    rw [Bool.and_eq_true, decide_eq_true_eq] at hweight
    exact hweight.2 (hall u ⟨hu, hweight.1⟩)
  · have haccept : LookupEnv.accepts upEnv false u.val = true := rfl
    rw [haccept] at hrefused
    cases hrefused

end Examples

end SentirumLb
