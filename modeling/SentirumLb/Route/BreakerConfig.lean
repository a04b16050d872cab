import SentirumLb.Route.Rebuilds

/-! # The configuration of the breakers

Trackers are cached by URL across rebuilds, and each was made with the
configuration of its time. Reconfiguring forgets all of them before it sets the
new configuration and builds. While it builds, the old table is still
published, so what holds of the published trackers holds between updates; what
holds of the entries of the registry holds at all times.
-/

namespace SentirumLb

variable {W : Type}

/-- The tracker has a breaker with the settings of the current configuration. -/
def ManagedRouteTable.Current (m : ManagedRouteTable W) (tracker : Ref) : Prop :=
  CircuitBreaker.Configured (m.cbConfig.getD {}) (m.heap.trackers tracker).circuitBreaker

namespace Serving

theorem current_operate {m : ManagedRouteTable W} {r : Ref} (h : m.Current r) (tracker : Ref)
    (nowMs : ℕ) (o : CircuitBreaker.Operation) : (m.operate tracker nowMs o).Current r := by
  change CircuitBreaker.Configured _ (Function.update m.heap.trackers tracker _ r).circuitBreaker
  by_cases hr : r = tracker
  · subst hr
    rw [Function.update_self]
    exact CircuitBreaker.configured_exec o h
  · rw [Function.update_of_ne hr]
    exact h

/-- The entries of the registry are current, and know the trackers of the table that is to be
published or, between updates, of the published one. -/
structure TrackersCurrent [Platform] (s : Serving W) : Prop where
  ok : s.Ok
  numbered : WeakMap.Numbered s.managed.heap.next s.managed.statsRegistry.healthTrackers
  current : ∀ url r, s.managed.statsRegistry.healthTrackers.lookup url = some r →
    s.managed.Current r
  building : Shares (·.healthTracker) s.managed.statsRegistry.healthTrackers s.building
  published : s.rebuild = none →
    Shares (·.healthTracker) s.managed.statsRegistry.healthTrackers s.managed.published

variable [Platform]

theorem trackersCurrent_new (cbConfig : Option CircuitBreakerConfig) (heap : Heap) :
    TrackersCurrent (new cbConfig heap : Serving W) where
  ok := ok_new cbConfig heap
  numbered := .empty _
  current url r hr := by
    change (∅ : AssocMap String Ref).lookup url = some r at hr
    simp at hr
  building t ht := by simp [Serving.building, new] at ht
  published _ t ht := by
    simp [new, ManagedRouteTable.new, ManagedRouteTable.published, Table.new, Table.targets,
      AssocMap.vals] at ht

variable [WeightArith W] {s s' : Serving W}

/-- A definition makes trackers of the current configuration, and leaves the others alone. -/
theorem current_defineOne {rb : Rebuild W} {d : RouteDef W}
    (hnumbered : WeakMap.Numbered s.managed.heap.next s.managed.statsRegistry.healthTrackers)
    (h : ∀ url r, s.managed.statsRegistry.healthTrackers.lookup url = some r →
      s.managed.Current r)
    (url : String) (r : Ref)
    (hr : (s.defineOne rb d).registry.healthTrackers.lookup url = some r) :
    CircuitBreaker.Configured (s.managed.cbConfig.getD {})
      ((s.defineOne rb d).heap.trackers r).circuitBreaker := by
  unfold defineOne Builder.apply at hr ⊢
  split at hr
  · next hcmd =>
    rw [if_pos hcmd]
    change CircuitBreaker.Configured _ (Function.update s.managed.heap.trackers
      (s.managed.heap.next + 1) (.new s.managed.cbConfig) r).circuitBreaker
    rcases WeakMap.lookup_getOrCreate_cases hr with hbefore | ⟨-, rfl⟩
    · have hlt : r < s.managed.heap.next + 1 := Nat.lt_succ_of_lt (hnumbered.lt url r hbefore)
      rw [Function.update_of_ne hlt.ne]
      exact h url r hbefore
    · rw [Function.update_self]
      exact CircuitBreaker.configured_withConfig _
  · next hcmd =>
    rw [if_neg hcmd]
    exact h url r hr

theorem TrackersCurrent.step (h : s.TrackersCurrent) (hs : Step s s') : s'.TrackersCurrent := by
  have hok := h.ok.step hs
  cases hs with
  | start u hnone =>
    have hnew : (Table.new : Table W).targets.map (·.val) = [] := by
      simp [Table.new, Table.targets, AssocMap.vals]
    have hbuilding : ∀ m : AssocMap String Ref,
        Shares (·.healthTracker) m ((Table.new : Table W).targets.map (·.val)) := by
      intro m t ht
      simp [hnew] at ht
    cases u with
    | reconfigureCircuitBreaker cbConfig =>
      refine ⟨hok, .empty _, ?_, hbuilding _, fun hn => by cases hn⟩
      intro url r hr
      change (∅ : AssocMap String Ref).lookup url = some r at hr
      simp at hr
    | _ => exact ⟨hok, h.numbered, h.current, hbuilding _, fun hn => by cases hn⟩
  | define registry table d ds hsome =>
    have hshares := h.building
    rw [Serving.building, hsome] at hshares
    refine ⟨hok, UrlObject.healthTracker.numbered_apply h.numbered, ?_, ?_,
      fun hn => by cases hn⟩
    · exact current_defineOne h.numbered h.current
    · exact UrlObject.healthTracker.shares_apply (h.ok.rebuild _ hsome) (List.nil_subset _) hshares
  | publish registry table hsome =>
    have hshares := h.building
    rw [Serving.building, hsome] at hshares
    refine ⟨hok, h.numbered, h.current, fun t ht => by simp [Serving.building] at ht, ?_⟩
    exact fun _ => hshares.subset (map_targets_finalize_subset table)
  | hold held hsub => exact ⟨hok, h.numbered, h.current, h.building, h.published⟩
  | traffic tracker nowMs o =>
    refine ⟨hok, h.numbered, ?_, h.building, h.published⟩
    exact fun url r hr => current_operate (h.current url r hr) tracker nowMs o

theorem trackersCurrent_run {cbConfig : Option CircuitBreakerConfig} {heap : Heap}
    {es : List (ServingLabel W)} (hrun : Runs.run step (new cbConfig heap) es = some s) :
    s.TrackersCurrent :=
  Runs.invariant (fun _ _ _ hi hstep => hi.step (step_cases hstep)) hrun
    (trackersCurrent_new cbConfig heap)

/-- Whenever no update is in progress, every published target has a breaker of the current
configuration, so has every tracker that the registry knows, and targets with one URL have one
tracker. -/
theorem breakers_current (cbConfig : Option CircuitBreakerConfig) (heap : Heap)
    (es : List (ServingLabel W)) (s : Serving W)
    (hrun : Runs.run step (new cbConfig heap) es = some s) (hidle : s.rebuild = none) :
    (∀ t ∈ s.managed.published, CircuitBreaker.Configured (s.managed.cbConfig.getD {})
      (s.managed.heap.trackers t.healthTracker).circuitBreaker) ∧
    (∀ url r, s.managed.statsRegistry.healthTrackers.lookup url = some r →
      CircuitBreaker.Configured (s.managed.cbConfig.getD {})
        (s.managed.heap.trackers r).circuitBreaker) ∧
    ∀ a ∈ s.managed.published, ∀ b ∈ s.managed.published, a.url = b.url →
      a.healthTracker = b.healthTracker := by
  have h := trackersCurrent_run hrun
  have hshares := h.published hidle
  refine ⟨?_, h.current, ?_⟩
  · intro t ht
    exact h.current t.url t.healthTracker (hshares t ht)
  · intro a ha b hb hurl
    have hla := hshares a ha
    rw [hurl, hshares b hb] at hla
    exact (Option.some.inj hla).symm

end Serving

section Examples

attribute [local instance] Platform.plain

/-- A backend is loaded and its breaker sees an error, a request takes the backend, and the
breakers are reconfigured while the request still holds the old tracker. -/
def reconfiguredLabels : List (ServingLabel ℚ) :=
  [.start (.loadStatic [exampleDef .static .add "svc" "http://10.0.0.1:80/"]), .define, .publish,
    .take 0, .traffic 1 0 (.call .recordError),
    .start (.reconfigureCircuitBreaker (some CircuitBreaker.tightConfig)), .define, .publish]

theorem breakers_current_reconfigured :
    ∃ s : Serving ℚ, Runs.run Serving.step (.new none .empty) reconfiguredLabels = some s ∧
      (s.managed.published.map (·.healthTracker), s.held.flatten.map (·.healthTracker)) =
        ([7], [1]) ∧
      (s.managed.heap.trackers 7).circuitBreaker.windowSize = 1 := by
  have hs : (Runs.run Serving.step (.new none .empty) reconfiguredLabels).map (fun s =>
      (s.rebuild.isNone, s.managed.cbConfig, s.managed.published.map (·.healthTracker),
        s.held.flatten.map (·.healthTracker))) =
      some (true, some CircuitBreaker.tightConfig, [7], [1]) := by
    decide +kernel
  obtain ⟨s, hs, he⟩ := Option.map_eq_some_iff.mp hs
  simp only [Prod.mk.injEq] at he
  obtain ⟨hidle, hconfig, hpublished, hheld⟩ := he
  refine ⟨s, hs, by rw [hpublished, hheld], ?_⟩
  have h := (Serving.breakers_current _ _ _ s hs (Option.isNone_iff_eq_none.mp hidle)).1
  obtain ⟨t, ht, ht7⟩ := List.mem_map.mp (hpublished ▸ List.mem_singleton_self 7)
  have hsize := (h t ht).windowSize
  rw [ht7, hconfig] at hsize
  exact hsize

end Examples

end SentirumLb
