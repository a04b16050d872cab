import SentirumLb.Lib.Lists
import SentirumLb.Proxy.Slots

/-! # Conservation of connection slots

The counter of a URL counts the parties that were given a slot on it and have
not ended. This holds for as long as no request is granted a slot while its
`ctx.picked_target` is set: there the first slot is forgotten, and the logging
hook gives back the second one only.
-/

namespace SentirumLb

namespace Gateway

variable {W : Type}

/-- Every counter that a target refers to has the number of holders of the URL. -/
def Conserved (g : Gateway W) : Prop := ∀ t ∈ g.live, g.count t = g.holders t.url

/-- The access grants a slot to a request whose `ctx.picked_target` is set. -/
def overwrites (g : Gateway W) (i : ℕ) (spurious : Bool) : Bool :=
  match (g.parties[i]?).map Party.phase with
  | some (.acquiring c a) =>
      (a.access spurious (g.count a.target)).1.isGranted && c.pickedTarget.isSome
  | _ => false

def overflows (g : Gateway W) (i : ℕ) (spurious : Bool) : Bool :=
  match (g.parties[i]?).map Party.phase with
  | some (.acquiring _ a) =>
      (a.access spurious (g.count a.target)).1.isGranted &&
        decide (2 ^ 64 ≤ g.holders a.target.url + 1)
  | _ => false

/-- The step grants no slot to a request that has one, and leaves the counters in range. -/
def Balanced (g : Gateway W) : GatewayLabel W → Prop
  | .access i spurious => g.overwrites i spurious = false ∧ g.overflows i spurious = false
  | _ => True

instance (g : Gateway W) (l : GatewayLabel W) : Decidable (g.Balanced l) :=
  match l with
  | .access _ _ => inferInstanceAs (Decidable (_ ∧ _))
  | .update _ | .newCtx | .accept | .lookup _ _ _ | .fallback _ _ | .reject _ | .finish _ =>
      .isTrue trivial

theorem Balanced.of_granted {g : Gateway W} {i : ℕ} {spurious : Bool} {p : Party W} {c : Caller W}
    {a : Acquire W} (h : g.Balanced (.access i spurious)) (hp : g.parties[i]? = some p)
    (hphase : p.phase = .acquiring c a)
    (hgranted : (a.access spurious (g.count a.target)).1 = .granted) :
    c.pickedTarget = none ∧ g.holders a.target.url + 1 < 2 ^ 64 := by
  obtain ⟨hoverwrites, hoverflows⟩ := h
  have hmap : (g.parties[i]?).map Party.phase = some (.acquiring c a) := by
    rw [hp, Option.map_some, hphase]
  unfold overwrites at hoverwrites
  unfold overflows at hoverflows
  simp only [hmap, hgranted, AcquireResult.isGranted, Bool.true_and] at hoverwrites hoverflows
  refine ⟨by simpa using hoverwrites, ?_⟩
  have := of_decide_eq_false hoverflows
  omega

/-! ## The invariant -/

/-- The parties that hold a slot are those that give one back, and the counters count them. -/
structure Inv [Platform] (g : Gateway W) : Prop where
  sharing : Builder.CounterSharing g.held g.managed.built
  counted : g.managed.built.Counted g.holders
  bounded : ∀ url, g.holders url < 2 ^ 64
  given_eq : ∀ p ∈ g.parties, p.phase.isEnded = false →
    p.given = (p.phase.slot.map (·.url)).toList

variable {g g' : Gateway W} {i : ℕ} {p p' : Party W}

theorem slot_mem_held {phase : Phase W} {t : Target W} (h : phase.slot = some t) :
    t ∈ phase.held := by
  cases phase with
  | idle c => exact Option.mem_toList.mpr h
  | acquiring c a => exact List.mem_cons_of_mem _ (Option.mem_toList.mpr h)
  | guarded u => exact Option.mem_toList.mpr h
  | ended => cases h

theorem holds_eq {p : Party W} (hrunning : p.phase.isEnded = false)
    (hgiven : p.given = (p.phase.slot.map (·.url)).toList) (url : String) :
    p.holds url = true ↔ ∃ t, p.phase.slot = some t ∧ t.url = url := by
  unfold Party.holds
  rw [hrunning, hgiven]
  cases p.phase.slot with
  | none => simp
  | some t => simp [eq_comm]

theorem holders_setParty (hp : g.parties[i]? = some p) (p' : Party W) (url : String) :
    (g.setParty i p').holders url + (if p.holds url = true then 1 else 0) =
      g.holders url + if p'.holds url = true then 1 else 0 :=
  Lists.countP_set hp p'

theorem mem_held_setParty {t : Target W} (h : t ∈ (g.setParty i p').held) :
    t ∈ g.held ∨ t ∈ p'.phase.held := by
  obtain ⟨q, hq, ht⟩ := List.mem_flatMap.mp h
  rcases List.mem_or_eq_of_mem_set hq with hq | rfl
  · exact Or.inl (List.mem_flatMap.mpr ⟨q, hq, ht⟩)
  · exact Or.inr ht

section Steps

variable [Platform]

theorem Inv.exists_held (h : g.Inv) (url : String) (hne : g.holders url ≠ 0) :
    ∃ t ∈ g.held, t.url = url := by
  obtain ⟨p, hp, hholds⟩ := List.countP_pos_iff.mp (Nat.pos_of_ne_zero hne)
  have hrunning : p.phase.isEnded = false := by
    unfold Party.holds at hholds
    simpa using (Bool.and_eq_true_iff.mp hholds).1
  obtain ⟨t, hslot, hurl⟩ := (holds_eq hrunning (h.given_eq p hp hrunning) url).mp hholds
  exact ⟨t, List.mem_flatMap.mpr ⟨p, hp, slot_mem_held hslot⟩, hurl⟩

theorem Inv.count_eq (h : g.Inv) {t : Target W} (ht : t ∈ g.live) :
    g.count t = g.holders t.url :=
  h.counted t.url t.activeConnections (h.sharing.shares t ht)

theorem Inv.setParty (h : g.Inv) (hheld : p'.phase.held ⊆ g.live)
    (hgiven : p'.phase.isEnded = false → p'.given = (p'.phase.slot.map (·.url)).toList)
    (hbounded : ∀ url, (g.setParty i p').holders url < 2 ^ 64) {counters : Ref → ℕ}
    (hcounted : ∀ url r, g.managed.statsRegistry.activeConnections.lookup url = some r →
      counters r = (g.setParty i p').holders url) :
    Inv { g.setParty i p' with managed.heap.counters := counters } := by
  refine ⟨⟨h.sharing.ok, ?_, h.sharing.numbered⟩, hcounted, hbounded, ?_⟩
  · intro t ht
    apply h.sharing.shares
    rcases List.mem_append.mp ht with ht | ht
    · rcases mem_held_setParty ht with ht | ht
      · exact List.mem_append_left _ ht
      · exact hheld ht
    · exact List.mem_append_right _ ht
  · intro q hq hrunning
    rcases List.mem_or_eq_of_mem_set hq with hq | rfl
    · exact h.given_eq q hq hrunning
    · exact hgiven hrunning

theorem Inv.storeCount (h : g.Inv) {t : Target W} (ht : t ∈ g.live) {values : String → ℕ}
    {count : ℕ} (hcount : count = values t.url)
    (hother : ∀ url, url ≠ t.url → values url = g.holders url) :
    ∀ url r, g.managed.statsRegistry.activeConnections.lookup url = some r →
      Function.update g.managed.heap.counters t.activeConnections count r = values url := by
  intro url r hr
  by_cases hurl : url = t.url
  · have hshared := h.sharing.shares t ht
    rw [hurl] at hr ⊢
    cases hr.symm.trans hshared
    rw [Function.update_self, hcount]
  · have hne : r ≠ t.activeConnections := by
      rintro rfl
      exact hurl (h.sharing.numbered.inj _ _ _ hr (h.sharing.shares t ht))
    rw [Function.update_of_ne hne, hother url hurl]
    exact h.counted url r hr

theorem inv_continues (h : g.Inv) (hp : g.parties[i]? = some p) {phase : Phase W}
    (hc : g.Continues p.phase phase) : Inv (g.setParty i { p with phase := phase }) := by
  have hgiven := h.given_eq p (List.mem_of_getElem? hp) hc.running
  have hholds : ∀ url, Party.holds { p with phase := phase } url = p.holds url := by
    intro url
    unfold Party.holds
    cases hended : phase.isEnded with
    | false => rw [hc.running]
    | true => simp [hgiven, hc.slot_none hended]
  have hholders : ∀ url, (g.setParty i { p with phase := phase }).holders url = g.holders url := by
    intro url
    have hset := holders_setParty hp { p with phase := phase } url
    rw [hholds] at hset
    omega
  apply h.setParty hc.held_sub
  · intro _
    rw [hc.slot_eq]
    exact hgiven
  · intro url
    rw [hholders]
    exact h.bounded url
  · intro url r hr
    rw [hholders]
    exact h.counted url r hr

theorem inv_grant (h : g.Inv) (hp : g.parties[i]? = some p) {c : Caller W} {a : Acquire W}
    (hphase : p.phase = .acquiring c a) (hpicked : c.pickedTarget = none)
    (hroom : g.holders a.target.url + 1 < 2 ^ 64) :
    Inv ((g.storeCount a.target ((g.count a.target + 1) % 2 ^ 64)).setParty i
      ⟨.granted a.target c, a.target.url :: p.given⟩) := by
  have ha : a.target ∈ g.live := held_subset_live hp (by rw [hphase]; exact List.mem_cons_self)
  have hslot : p.phase.slot = none := by rw [hphase]; exact hpicked
  have hrunning : p.phase.isEnded = false := by rw [hphase]; rfl
  have hnil : p.given = [] := by
    rw [h.given_eq p (List.mem_of_getElem? hp) hrunning, hslot]
    rfl
  have hslot' : (Phase.granted a.target c).slot = some a.target := by cases c <;> rfl
  have hheld' : (Phase.granted a.target c).held = [a.target] := by cases c <;> rfl
  have hrunning' : (Phase.granted a.target c).isEnded = false := by cases c <;> rfl
  have hholders : ∀ url, (g.setParty i ⟨.granted a.target c, a.target.url :: p.given⟩).holders url =
      g.holders url + if url = a.target.url then 1 else 0 := by
    intro url
    have hset := holders_setParty hp ⟨.granted a.target c, a.target.url :: p.given⟩ url
    unfold Party.holds at hset
    simpa [hnil, hrunning'] using hset
  apply h.setParty
  · rw [hheld']
    exact List.cons_subset.mpr ⟨ha, List.nil_subset _⟩
  · intro _
    rw [hslot', hnil]
    rfl
  · intro url
    rw [hholders]
    have := h.bounded url
    split
    · next hurl => rw [hurl]; exact hroom
    · exact this
  · apply h.storeCount ha
    · rw [hholders, if_pos rfl, h.count_eq ha, Nat.mod_eq_of_lt hroom]
    · intro url hurl
      rw [hholders, if_neg hurl, Nat.add_zero]

theorem inv_release (h : g.Inv) (hp : g.parties[i]? = some p) (hrunning : p.phase.isEnded = false)
    {t : Target W} (hslot : p.phase.slot = some t) :
    Inv ((g.releaseConnectionSlot t).setParty i { p with phase := .ended }) := by
  have ht : t ∈ g.live := held_subset_live hp (slot_mem_held hslot)
  have hgiven : p.given = [t.url] := by
    rw [h.given_eq p (List.mem_of_getElem? hp) hrunning, hslot]
    rfl
  have hholders : ∀ url, (g.setParty i { p with phase := .ended }).holders url +
      (if url = t.url then 1 else 0) = g.holders url := by
    intro url
    have hset := holders_setParty hp { p with phase := .ended } url
    unfold Party.holds at hset
    have hended : (Phase.ended : Phase W).isEnded = true := rfl
    simpa [hgiven, hrunning, hended] using hset
  apply h.setParty (List.nil_subset _)
  · intro hended
    cases hended
  · intro url
    have := hholders url
    have := h.bounded url
    omega
  · apply h.storeCount ht
    · have hone := hholders t.url
      have hlt := h.bounded t.url
      rw [if_pos rfl] at hone
      rw [h.count_eq ht]
      omega
    · intro url hurl
      have hsame := hholders url
      rw [if_neg hurl] at hsame
      exact hsame

theorem inv_initial (cbConfig : Option CircuitBreakerConfig) (heap : Heap) :
    (initial cbConfig heap : Gateway W).Inv := by
  refine ⟨⟨Table.ok_new, ?_, WeakMap.Numbered.empty heap.next⟩, ?_, ?_, ?_⟩
  · intro t ht
    simp [initial, held, Builder.live, ManagedRouteTable.built, ManagedRouteTable.new, Table.new,
      Table.targets, AssocMap.vals] at ht
  · intro url r hr
    simp [initial, ManagedRouteTable.built, ManagedRouteTable.new, TargetStatsRegistry.new] at hr
  · intro url
    simp [initial, holders]
  · simp [initial]

theorem inv_arrive (h : g.Inv) {c : Caller W} (hc : c.pickedTarget = none) :
    Inv { g with parties := g.parties ++ [⟨.idle c, []⟩] } := by
  have hheld : held { g with parties := g.parties ++ [⟨.idle c, []⟩] } = g.held := by
    simp [held, Phase.held, Phase.slot, hc]
  have hholders : holders { g with parties := g.parties ++ [⟨.idle c, []⟩] } = g.holders := by
    ext url
    simp [holders, Party.holds]
  refine ⟨?_, ?_, ?_, ?_⟩
  · rw [hheld]
    exact h.sharing
  · rw [hholders]
    exact h.counted
  · rw [hholders]
    exact h.bounded
  · intro p hp hrunning
    rcases List.mem_append.mp hp with hp | hp
    · exact h.given_eq p hp hrunning
    · rw [List.mem_singleton.mp hp, Phase.slot, hc]
      rfl

variable [WeightArith W]

theorem inv_update (h : g.Inv) (u : Update W) :
    Inv { g with managed := g.managed.perform (u, g.held) } := by
  obtain ⟨cbConfig, reg, defs, hreg, hbuilt⟩ := g.managed.built_perform u g.held
  have hlive : ∀ url, g.holders url ≠ 0 → ∃ t ∈ g.live, t.url = url := by
    intro url hne
    obtain ⟨t, ht, hurl⟩ := h.exists_held url hne
    exact ⟨t, List.mem_append_left _ ht, hurl⟩
  have hshares : Shares (·.activeConnections) reg.activeConnections g.live := by
    rw [hreg]
    exact h.sharing.shares
  have hnumbered : WeakMap.Numbered g.managed.heap.next reg.activeConnections := by
    rw [hreg]
    exact h.sharing.numbered
  obtain ⟨hsharing, hcounted⟩ := Table.counterSharing_fromDefinitionsWithStats g.live cbConfig reg
    g.managed.heap defs hshares hnumbered hlive (by rw [hreg]; exact h.counted)
  refine ⟨?_, ?_, h.bounded, h.given_eq⟩
  · -- the targets of the old table are no longer kept alive by it
    change Builder.CounterSharing g.held (g.managed.perform (u, g.held)).built
    rw [hbuilt]
    refine ⟨hsharing.ok, ?_, hsharing.numbered⟩
    intro t ht
    apply hsharing.shares
    rcases List.mem_append.mp ht with ht | ht
    · exact List.mem_append_left _ (List.mem_append_left _ ht)
    · exact List.mem_append_right _ ht
  · change (g.managed.perform (u, g.held)).built.Counted g.holders
    rw [hbuilt]
    exact hcounted

theorem inv_step {l : GatewayLabel W} (h : g.Inv) (hbalanced : g.Balanced l)
    (hstep : g.step l = some g') : g'.Inv := by
  cases change_of_step hstep with
  | update u => exact inv_update h u
  | arrive c hc => exact inv_arrive h hc
  | proceed hp hcontinues => exact inv_continues h hp hcontinues
  | grant hp hphase hgranted =>
    obtain ⟨hpicked, hroom⟩ := hbalanced.of_granted hp hphase hgranted
    exact inv_grant h hp hphase hpicked hroom
  | release hp hrunning hslot => exact inv_release h hp hrunning hslot

/-- In every run in which no request is granted a second slot, each counter is the number of
parties that hold a slot on its URL; whoever gives a slot back finds the counter above zero; and
once all parties have ended the counters are zero. -/
theorem conserved_run {cbConfig : Option CircuitBreakerConfig} {heap : Heap}
    {ls : List (GatewayLabel W)} (hbalanced : Runs.Meets step Balanced (initial cbConfig heap) ls)
    (hrun : Runs.run step (initial cbConfig heap) ls = some g) :
    g.Conserved ∧
      (∀ p ∈ g.parties, ∀ t ∈ p.phase.slot, 0 < g.count t) ∧
      ((∀ p ∈ g.parties, p.phase.isEnded = true) → ∀ t ∈ g.live, g.count t = 0) := by
  have hinv : g.Inv := Runs.invariant_of_meets (I := Inv)
    (fun _ _ _ h hb hs => inv_step h hb hs) hbalanced hrun (inv_initial cbConfig heap)
  refine ⟨fun t ht => hinv.count_eq ht, ?_, ?_⟩
  · intro p hp t hslot
    have hrunning : p.phase.isEnded = false := by
      cases hphase : p.phase with
      | ended => rw [hphase] at hslot; cases hslot
      | _ => rfl
    have hholds : p.holds t.url = true :=
      (holds_eq hrunning (hinv.given_eq p hp hrunning) t.url).mpr ⟨t, hslot, rfl⟩
    have hheld : t ∈ g.held := List.mem_flatMap.mpr ⟨p, hp, slot_mem_held hslot⟩
    rw [hinv.count_eq (List.mem_append_left _ hheld)]
    exact List.countP_pos_iff.mpr ⟨p, hp, hholds⟩
  · intro hended t ht
    rw [hinv.count_eq ht]
    apply List.countP_eq_zero.mpr
    intro p hp
    simp [Party.holds, hended p hp]

end Steps

/-! ## A retried request -/

section Examples

attribute [local instance] Platform.plain

def oneBackend : GatewayLabel ℚ :=
  .update (.updateServices [exampleDef .consulService .add "svc" "http://10.0.0.1:8080/"])

def sharedBackend : List (GatewayLabel ℚ) :=
  [oneBackend, .newCtx, .lookup 0 0 0, .access 0 false, .accept, .lookup 1 0 2, .access 1 false,
   .access 1 false, .finish 0]

def retriedRequest : List (GatewayLabel ℚ) :=
  [oneBackend, .newCtx, .lookup 0 0 0, .access 0 false, .lookup 0 0 0, .access 0 false, .finish 0]

theorem conserved_sharedBackend :
    ∃ g, Runs.run step (initial none .empty) sharedBackend = some g ∧
      g.live.map g.count = [1, 1] ∧ g.Conserved := by
  have hcount : (Runs.run step (initial none .empty) sharedBackend).map
      (fun g => g.live.map g.count) = some [1, 1] := by decide +kernel
  obtain ⟨g, hg, hone⟩ := Option.map_eq_some_iff.mp hcount
  exact ⟨g, hg, hone, (conserved_run (by decide +kernel) hg).1⟩

/-- The first slot of a retried request is never given back. -/
theorem leaked_slot_retriedRequest :
    ∃ g, Runs.run step (initial none .empty) retriedRequest = some g ∧ ¬ g.Conserved ∧
      (∀ p ∈ g.parties, p.phase.isEnded = true) ∧ ∃ t ∈ g.live, g.count t = 1 := by
  have hend : ((Runs.run step (initial none .empty) retriedRequest).map fun g =>
      (g.parties.all (·.phase.isEnded), g.live.map fun t => (g.count t, g.holders t.url))) =
      some (true, [(1, 0)]) := by decide +kernel
  obtain ⟨g, hg, he⟩ := Option.map_eq_some_iff.mp hend
  rw [Prod.mk.injEq, List.all_eq_true] at he
  obtain ⟨hended, hcounts⟩ := he
  have hmem : (1, 0) ∈ g.live.map fun t => (g.count t, g.holders t.url) := by
    rw [hcounts]
    exact List.mem_singleton_self _
  obtain ⟨t, ht, hleak⟩ := List.mem_map.mp hmem
  rw [Prod.mk.injEq] at hleak
  refine ⟨g, hg, ?_, hended, t, ht, hleak.1⟩
  intro hconserved
  have := hconserved t ht
  omega

end Examples

end Gateway

end SentirumLb
