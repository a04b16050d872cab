import SentirumLb.Lib.Runs
import SentirumLb.Route.Interleave
import SentirumLb.Route.Picker

/-! # Weighted round robin under concurrency

A round-robin pick touches shared memory once, with the `fetch_add` on the
counter of its route; after that it indexes the slot list of its snapshot. Any
number of picks run at once, on any routes, each in these two steps. Since the
counter hands out consecutive values, any stretch of picks as long as the slot
list walks through it once, from wherever the counter stood.
-/

namespace SentirumLb

/-- A pick that has taken its counter value, and what it returned when it is done. -/
structure PickCall (W : Type) where
  route : Route W
  value : UInt64
  returned : Option (Option (Arc (Target W)))

structure Picking (W : Type) where
  state : PickState
  calls : List (PickCall W)

inductive PickLabel (W : Type) where
  | start (r : Route W)
  | finish (i : ℕ)

variable {W : Type}

namespace PickCall

def slot (c : PickCall W) : Option (Arc (Target W)) :=
  c.route.wTargets[c.value.toNat % c.route.wTargets.length]?

def gave (c : PickCall W) (addr : ℕ) : Bool :=
  c.returned.any fun o => o.any fun t => t.addr == addr

end PickCall

namespace Picking

def step (p : Picking W) : PickLabel W → Option (Picking W)
  | .start r =>
      -- a route without targets returns `None` before it touches the counter
      if r.wTargets.isEmpty || r.targets.isEmpty then some p
      else
        let (counterVal, s) := p.state.fetchAdd r.rrCounter
        some { state := s, calls := p.calls ++ [⟨r, counterVal, none⟩] }
  | .finish i =>
      match p.calls[i]? with
      | some c =>
          if c.returned.isNone then
            some { p with calls := p.calls.set i { c with returned := some c.slot } }
          else none
      | none => none

/-- Run alone, the two steps of a pick are `roundRobinPick`. -/
theorem run_pick (p : Picking W) {r : Route W} (ht : r.targets ≠ []) (hw : r.wTargets ≠ []) :
    Runs.run step p [.start r, .finish p.calls.length] =
      some
        { state := (roundRobinPick r.targets r.wTargets r.rrCounter p.state).2
          calls := p.calls ++ [⟨r, p.state.rrCounters r.rrCounter,
            some (roundRobinPick r.targets r.wTargets r.rrCounter p.state).1⟩] } := by
  simp [Runs.run, step, roundRobinPick, PickState.fetchAdd, PickCall.slot, ht, hw]

def on (p : Picking W) (counter : Ref) : List (PickCall W) :=
  p.calls.filter fun c => c.route.rrCounter == counter

theorem on_append (s : PickState) (calls : List (PickCall W)) (c : PickCall W) (counter : Ref) :
    on ⟨s, calls ++ [c]⟩ counter =
      if c.route.rrCounter = counter then on ⟨s, calls⟩ counter ++ [c]
      else on ⟨s, calls⟩ counter := by
  by_cases h : c.route.rrCounter = counter <;> simp [on, h]

/-- Picks on a counter took consecutive values, and whoever returned gave the slot selected. -/
structure Served (s : PickState) (p : Picking W) : Prop where
  values : ∀ counter, (p.on counter).map (·.value) =
    (List.range (p.on counter).length).map fun k => s.rrCounters counter + UInt64.ofNat k
  counter_eq : ∀ counter, p.state.rrCounters counter =
    s.rrCounters counter + UInt64.ofNat (p.on counter).length
  answers : ∀ c ∈ p.calls, ∀ o, c.returned = some o → o = c.slot

theorem served_start (s : PickState) : Served s (⟨s, []⟩ : Picking W) where
  values _ := rfl
  counter_eq _ := by simp [on]
  answers _ hc := by simp at hc

variable {s : PickState} {p p' : Picking W}

theorem Served.fetch (h : Served s p) (r : Route W) :
    Served s { state := (p.state.fetchAdd r.rrCounter).2,
               calls := p.calls ++ [⟨r, (p.state.fetchAdd r.rrCounter).1, none⟩] } := by
  constructor
  · intro counter
    have hv : (on ⟨(p.state.fetchAdd r.rrCounter).2, p.calls⟩ counter).map (·.value) = _ :=
      h.values counter
    rw [on_append]
    split
    · next he =>
      change r.rrCounter = counter at he
      subst he
      rw [List.map_append, hv, List.length_append, List.length_singleton, List.range_succ,
        List.map_append, List.map_singleton, List.map_singleton]
      congr 2
      exact h.counter_eq r.rrCounter
    · exact hv
  · intro counter
    have hc := h.counter_eq counter
    rw [on_append]
    split
    · next he =>
      change r.rrCounter = counter at he
      subst he
      rw [List.length_append, List.length_singleton, UInt64.ofNat_add, ← add_assoc]
      have hadd : (p.state.fetchAdd r.rrCounter).2.rrCounters r.rrCounter =
          p.state.rrCounters r.rrCounter + 1 := Function.update_self _ _ _
      rw [hadd, hc]
      rfl
    · next he =>
      change ¬ r.rrCounter = counter at he
      rw [PickState.fetchAdd]
      exact (Function.update_of_ne (Ne.symm he) _ _).trans hc
  · intro c hc o ho
    rcases List.mem_append.mp hc with hc | hc
    · exact h.answers c hc o ho
    · rw [List.mem_singleton.mp hc] at ho
      cases ho

theorem filter_map_set {α β : Type} {q : α → Bool} {v : α → β} {l : List α} {i : ℕ} {a b : α}
    (hi : l[i]? = some a) (hq : q b = q a) (hv : v b = v a) :
    ((l.set i b).filter q).map v = (l.filter q).map v := by
  induction l generalizing i with
  | nil => rfl
  | cons x l ih =>
    cases i with
    | zero =>
      cases hi
      simp only [List.set_cons_zero, List.filter_cons, hq]
      split
      · rw [List.map_cons, List.map_cons, hv]
      · rfl
    | succ i =>
      have hrest := ih hi
      simp only [List.set_cons_succ, List.filter_cons]
      split
      · rw [List.map_cons, List.map_cons, hrest]
      · exact hrest

theorem Served.finish (h : Served s p) {i : ℕ} {c : PickCall W} (hi : p.calls[i]? = some c) :
    Served s { p with calls := p.calls.set i { c with returned := some c.slot } } := by
  have hvalues : ∀ counter,
      (on { p with calls := p.calls.set i { c with returned := some c.slot } } counter).map
        (·.value) = (p.on counter).map (·.value) :=
    fun counter => filter_map_set hi rfl rfl
  have hlength : ∀ counter,
      (on { p with calls := p.calls.set i { c with returned := some c.slot } } counter).length =
        (p.on counter).length := fun counter => by
    simpa using congrArg List.length (hvalues counter)
  constructor
  · intro counter
    rw [hvalues, hlength]
    exact h.values counter
  · intro counter
    rw [hlength]
    exact h.counter_eq counter
  · intro d hd o ho
    rcases List.mem_or_eq_of_mem_set hd with hd | rfl
    · exact h.answers d hd o ho
    · exact (Option.some.inj ho).symm

theorem Served.step (h : Served s p) {e : PickLabel W} (hs : p.step e = some p') :
    Served s p' := by
  cases e with
  | start r =>
    simp only [Picking.step] at hs
    split at hs
    · cases hs
      exact h
    · cases hs
      exact h.fetch r
  | finish i =>
    simp only [Picking.step] at hs
    split at hs
    · next c hi =>
      split at hs
      · cases hs
        exact h.finish hi
      · cases hs
    · cases hs

theorem served_run {es : List (PickLabel W)} (hr : Runs.run Picking.step ⟨s, []⟩ es = some p) :
    Served s p :=
  Runs.invariant (fun _ _ _ hi hs => hi.step hs) hr (served_start s)

/-- A stretch of `m` picks on a counter, the first of which is the `i`-th. -/
def stretch (p : Picking W) (counter : Ref) (i m : ℕ) : List (PickCall W) :=
  ((p.on counter).drop i).take m

theorem Served.stretch_values (h : Served s p) {counter : Ref} {i m : ℕ}
    (hi : i + m ≤ (p.on counter).length)
    (hwrap : (s.rrCounters counter + UInt64.ofNat i).toNat + m ≤ 2 ^ 64) :
    (p.stretch counter i m).map (·.value.toNat) =
      List.range' (s.rrCounters counter + UInt64.ofNat i).toNat m := by
  have hdrop : ((List.range (p.on counter).length).drop i).take m = List.range' i m := by
    rw [List.range_eq_range', List.drop_range', List.take_range'_of_length_ge (by omega)]
    simp
  have hvalues : (p.stretch counter i m).map (·.value) =
      (List.range m).map fun k => s.rrCounters counter + UInt64.ofNat (i + k) := by
    rw [stretch, List.map_take, List.map_drop, h.values counter, ← List.map_drop, ← List.map_take,
      hdrop, List.range'_eq_map_range, List.map_map]
    rfl
  have htoNat : (p.stretch counter i m).map (·.value.toNat) =
      ((p.stretch counter i m).map (·.value)).map UInt64.toNat := by
    rw [List.map_map]
    rfl
  rw [htoNat, hvalues, List.map_map, List.range'_eq_map_range]
  apply List.map_congr_left
  intro k hk
  have hk := List.mem_range.mp hk
  have hsize : k < UInt64.size := by
    change k < 2 ^ 64
    omega
  simp only [Function.comp_apply, UInt64.ofNat_add, ← add_assoc]
  rw [UInt64.toNat_add, UInt64.toNat_ofNat_of_lt' hsize, Nat.mod_eq_of_lt (by omega)]

theorem Served.stretch_returned (h : Served s p) {r : Route W} {i : ℕ}
    (hown : ∀ c ∈ p.calls, c.route.rrCounter = r.rrCounter → c.route = r)
    (hi : i + r.wTargets.length ≤ (p.on r.rrCounter).length)
    (hwrap : (s.rrCounters r.rrCounter + UInt64.ofNat i).toNat + r.wTargets.length ≤ 2 ^ 64)
    (hdone : ∀ c ∈ p.stretch r.rrCounter i r.wTargets.length, c.returned.isSome) :
    (p.stretch r.rrCounter i r.wTargets.length).map (·.returned) =
      (r.wTargets.rotate (s.rrCounters r.rrCounter + UInt64.ofNat i).toNat).map (some ∘ some) := by
  have hslot : ∀ c ∈ p.stretch r.rrCounter i r.wTargets.length,
      c.returned = some r.wTargets[c.value.toNat % r.wTargets.length]? := by
    intro c hc
    have hon : c ∈ p.on r.rrCounter := List.mem_of_mem_drop (List.mem_of_mem_take hc)
    obtain ⟨hmem, hcounter⟩ := List.mem_filter.mp hon
    obtain ⟨o, ho⟩ := Option.isSome_iff_exists.mp (hdone c hc)
    rw [ho, h.answers c hmem o ho, PickCall.slot, hown c hmem (by simpa using hcounter)]
  have hmap : (p.stretch r.rrCounter i r.wTargets.length).map (·.returned) =
      ((p.stretch r.rrCounter i r.wTargets.length).map (·.value.toNat)).map
        fun v => some r.wTargets[v % r.wTargets.length]? := by
    rw [List.map_map]
    exact List.map_congr_left hslot
  rw [hmap, h.stretch_values hi hwrap]
  apply List.ext_getElem
  · simp
  · intro k hk hk'
    have hk : k < r.wTargets.length := by simpa using hk
    simp [List.getElem_rotate, add_comm k]

/-- Over a full turn of the counter every slot is returned once. -/
theorem Served.stretch_perm (h : Served s p) {r : Route W} {i : ℕ}
    (hown : ∀ c ∈ p.calls, c.route.rrCounter = r.rrCounter → c.route = r)
    (hi : i + r.wTargets.length ≤ (p.on r.rrCounter).length)
    (hwrap : (s.rrCounters r.rrCounter + UInt64.ofNat i).toNat + r.wTargets.length ≤ 2 ^ 64)
    (hdone : ∀ c ∈ p.stretch r.rrCounter i r.wTargets.length, c.returned.isSome) (addr : ℕ) :
    (p.stretch r.rrCounter i r.wTargets.length).countP (·.gave addr) =
      r.wTargets.countP fun t => t.addr == addr := by
  have hgave : ((p.stretch r.rrCounter i r.wTargets.length).map (·.returned)).countP
      (fun o => o.any fun t => t.any fun t => t.addr == addr) =
      (p.stretch r.rrCounter i r.wTargets.length).countP (·.gave addr) := List.countP_map
  rw [← hgave, h.stretch_returned hown hi hwrap hdone, List.countP_map]
  exact (List.rotate_perm _ _).countP_eq _

end Picking

namespace Route

/-- Weighted round robin is exact: the slot list holds every target as often as its weight says,
and so does every stretch of picks that goes once around the list. The number of targets is that of
a `Vec`, and so a `usize`. -/
theorem roundRobin_exact (r : Route ℚ) (hne : r.targets ≠ []) (hlen : r.targets.length < 2 ^ 64) :
    (∀ t ∈ r.computeWeights.targets, r.computeWeights.wTargets.countP (fun u => u.addr == t.addr) =
      slotsOf r.computeWeights.targets t.val) ∧
    r.computeWeights.wTargets.Perm (groupedSlots r.computeWeights.targets) ∧
    interleaveChecked (runs (groupedSlots r.computeWeights.targets))
        (groupedSlots r.computeWeights.targets).length =
      some (interleave (runs (groupedSlots r.computeWeights.targets))
        (groupedSlots r.computeWeights.targets).length) ∧
    ∀ (s : PickState) (es : List (PickLabel ℚ)) (p : Picking ℚ) (i : ℕ),
      Runs.run Picking.step ⟨s, []⟩ es = some p →
      (∀ c ∈ p.calls, c.route.rrCounter = r.rrCounter → c.route = r.computeWeights) →
      i + r.computeWeights.wTargets.length ≤ (p.on r.rrCounter).length →
      (s.rrCounters r.rrCounter + UInt64.ofNat i).toNat + r.computeWeights.wTargets.length ≤
        2 ^ 64 →
      (p.stretch r.rrCounter i r.computeWeights.wTargets.length).map (·.value.toNat) =
        List.range' (s.rrCounters r.rrCounter + UInt64.ofNat i).toNat
          r.computeWeights.wTargets.length ∧
      ((∀ c ∈ p.stretch r.rrCounter i r.computeWeights.wTargets.length, c.returned.isSome) →
        ∀ t ∈ r.computeWeights.targets,
          (p.stretch r.rrCounter i r.computeWeights.wTargets.length).countP (·.gave t.addr) =
            slotsOf r.computeWeights.targets t.val) := by
  have hts : r.computeWeights.targets = assignWeights r.targets := computeWeights_targets r
  have hne' : r.computeWeights.targets ≠ [] := by simpa using hne
  have hinj : (r.computeWeights.targets.map (·.addr)).Nodup := by
    rw [hts]
    exact nodup_addr_assignWeights r.targets
  have hw : ∀ t ∈ r.computeWeights.targets, 0 ≤ t.val.weight := by
    intro t ht
    exact assignWeights_nonneg (hts ▸ ht)
  have hlen' : r.computeWeights.targets.length < 2 ^ 64 := by simpa using hlen
  have hperm : r.computeWeights.wTargets.Perm (groupedSlots r.computeWeights.targets) := by
    rw [computeWeights_wTargets hne]
    exact spreadSlots_perm hinj hw hlen' hne'
  have hcount : ∀ t ∈ r.computeWeights.targets,
      r.computeWeights.wTargets.countP (fun u => u.addr == t.addr) =
        slotsOf r.computeWeights.targets t.val := by
    intro t ht
    rw [hperm.countP_eq, countP_groupedSlots hinj hw ht]
  refine ⟨hcount, hperm, (interleave_groupedSlots hinj hw hlen' hne').1, ?_⟩
  intro s es p i hrun hown hi hwrap
  have hserved := Picking.served_run hrun
  refine ⟨hserved.stretch_values hi hwrap, ?_⟩
  intro hdone t ht
  rw [← computeWeights_rrCounter r] at hown hi hwrap hdone ⊢
  rw [hserved.stretch_perm hown hi hwrap hdone, hcount t ht]

def exampleRoute : Route ℚ where
  host := ""
  path := "/"
  glob := none
  targets := [1 / 1000, 2 / 1000].map fun w => ⟨0,
    { activeConnections := 0, healthTracker := 0, stats := 0, edgeStats := 0, rateLimiter := 0
      service := "svc", url := "http://10.0.0.1:80/", fixedWeight := w, weight := 0, tags := []
      opts := ∅, source := .static, parsedHost := none, parsedPort := none, parsedTls := false
      parsedProtocol := .http }⟩
  wTargets := []
  rrCounter := 7

def exampleLabels (r : Route ℚ) : List (PickLabel ℚ) :=
  [.start r, .start r, .start r, .start r, .finish 3, .finish 0, .finish 2, .finish 1]

theorem run_exampleLabels {r : Route ℚ} (ht : r.targets ≠ []) (hw : r.wTargets ≠ []) :
    ∃ p, Runs.run Picking.step ⟨⟨fun _ => 4, fun _ => 0⟩, []⟩ (exampleLabels r) = some p ∧
      p.calls = [4, 5, 6, 7].map fun v => ⟨r, v, some (PickCall.slot ⟨r, v, none⟩)⟩ := by
  simp [exampleLabels, Runs.run, Picking.step, PickState.fetchAdd, PickCall.slot, ht, hw]

theorem roundRobin_exact_overlappingPicks :
    ∃ p, Runs.run Picking.step ⟨⟨fun _ => 4, fun _ => 0⟩, []⟩
        (exampleLabels exampleRoute.computeWeights) = some p ∧
      (p.stretch 7 1 3).map (·.value.toNat) = [5, 6, 7] ∧
      (p.stretch 7 1 3).countP (·.gave 0) = 1 ∧ (p.stretch 7 1 3).countP (·.gave 1) = 2 := by
  have hne : exampleRoute.targets ≠ [] := by simp [exampleRoute]
  have hlen : exampleRoute.computeWeights.wTargets.length = 3 := by decide +kernel
  have hslots : exampleRoute.computeWeights.targets.map (fun t =>
      (t.addr, slotsOf exampleRoute.computeWeights.targets t.val)) = [(0, 1), (1, 2)] := by
    decide +kernel
  obtain ⟨p, hrun, hcalls⟩ := run_exampleLabels (r := exampleRoute.computeWeights)
    (by simpa using hne) (List.ne_nil_of_length_pos (by omega))
  have hon : p.on exampleRoute.rrCounter = p.calls := by
    rw [Picking.on, List.filter_eq_self, hcalls]
    simp
  have h := (roundRobin_exact exampleRoute hne (by decide)).2.2.2 _ _ p 1 hrun
    (by rw [hcalls]; simp) (by rw [hlen, hon, hcalls]; decide) (by rw [hlen]; decide)
  rw [hlen] at h
  have hdone : ∀ c ∈ p.stretch exampleRoute.rrCounter 1 3, c.returned.isSome := by
    rw [Picking.stretch, hon, hcalls]
    simp
  obtain ⟨t, ht, htslots⟩ := List.mem_map.mp (hslots ▸ List.mem_cons_self)
  obtain ⟨u, hu, huslots⟩ := List.mem_map.mp
    (hslots ▸ List.mem_cons_of_mem _ (List.mem_singleton_self _))
  have ht1 := h.2 hdone t ht
  have hu1 := h.2 hdone u hu
  rw [(Prod.mk.inj htslots).1, (Prod.mk.inj htslots).2] at ht1
  rw [(Prod.mk.inj huslots).1, (Prod.mk.inj huslots).2] at hu1
  exact ⟨p, hrun, h.1, ht1, hu1⟩

end Route

end SentirumLb
