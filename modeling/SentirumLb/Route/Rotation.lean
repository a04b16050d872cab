import SentirumLb.Lib.Runs
import SentirumLb.Route.Picker
import SentirumLb.Route.Rebuilds

/-! # Round-robin counters across updates

Every route has a counter of its own, that its picks advance. An update builds
the new table from nothing, so each route of it gets a counter that did not
exist before; a route that was there already does not hand its own on. The
rotation therefore continues over an update only where there is nothing to
continue.
-/

namespace SentirumLb

variable {W : Type}

namespace Table

def routeOf (t : Table W) (host path : String) : Option (Route W) := routeAt (t.bucket host) path

section Counters

variable [WeightArith W]

@[simp] theorem addTarget_rrCounter (r : Route W) (t : Target W) :
    (r.addTarget t).rrCounter = r.rrCounter := by
  unfold Route.addTarget
  split <;> rfl

@[simp] theorem weightRoute_rrCounter (d : RouteDef W) (r : Route W) :
    (weightRoute d r).rrCounter = r.rrCounter := by
  unfold weightRoute
  dsimp only
  split <;> simp

theorem rrCounter_delFromBucket {d : RouteDef W} {path : Option String} {rs : List (Route W)}
    {r : Route W} (h : r ∈ delFromBucket d path rs) : ∃ q ∈ rs, r.rrCounter = q.rrCounter := by
  obtain ⟨-, q, hq, rfl | rfl⟩ := mem_delFromBucket h
  · exact ⟨_, hq, rfl⟩
  · exact ⟨q, hq, by simp [Route.removeTargets]⟩

theorem rrCounter_applyDel {t : Table W} {d : RouteDef W} {host : String} {r : Route W}
    (h : r ∈ (t.applyDel d).bucket host) : ∃ q ∈ t.bucket host, r.rrCounter = q.rrCounter := by
  have hhost : r ∈ (t.delFromHost d).bucket host →
      ∃ q ∈ t.bucket host, r.rrCounter = q.rrCounter := by
    intro h
    rw [bucket_delFromHost] at h
    split at h
    · exact rrCounter_delFromBucket h
    · exact ⟨r, h, rfl⟩
  unfold applyDel at h
  split at h
  · split at h
    · exact hhost h
    · rw [bucket_delFromAll] at h
      exact rrCounter_delFromBucket h
  · exact hhost h

variable [Platform]

theorem rrCounter_apply {t : Table W} {shared : SharedRefs} {rr : Ref} {d : RouteDef W}
    {host : String} {r : Route W} (h : r ∈ (t.apply shared rr d).bucket host) :
    (d.cmd = .add ∧ r.rrCounter = rr) ∨ ∃ q ∈ t.bucket host, r.rrCounter = q.rrCounter := by
  unfold apply at h
  split at h
  · next hcmd =>
    rw [bucket_applyAdd] at h
    split at h
    · rcases mem_addToBucket h with h | ⟨q, hq | rfl, rfl⟩
      · exact Or.inr ⟨r, h, rfl⟩
      · exact Or.inr ⟨q, hq.1, by simp⟩
      · exact Or.inl ⟨hcmd, by simp [Route.new]⟩
    · exact Or.inr ⟨r, h, rfl⟩
  · exact Or.inr (rrCounter_applyDel h)
  · rw [bucket_applyWeight] at h
    split at h
    · obtain ⟨q, hq, rfl⟩ := List.mem_map.mp h
      refine Or.inr ⟨q, hq, ?_⟩
      split <;> simp
    · exact Or.inr ⟨r, h, rfl⟩

end Counters

theorem mem_bucket_of_routeOf {t : Table W} {host path : String} {r : Route W}
    (h : t.routeOf host path = some r) : r ∈ t.bucket host ∧ r.path = path :=
  mem_of_routeAt h

end Table

structure Builder.CountersFrom (lo : Ref) (b : Builder W) : Prop where
  le_next : lo ≤ b.heap.next
  mem : ∀ host, ∀ r ∈ b.table.bucket host, lo ≤ r.rrCounter ∧ r.rrCounter < b.heap.next

section Building

variable [Platform] [WeightArith W]

theorem Builder.countersFrom_apply {held : List (Target W)}
    {cbConfig : Option CircuitBreakerConfig} {lo : Ref} (b : Builder W) (d : RouteDef W)
    (h : b.CountersFrom lo) : (b.apply held cbConfig d).CountersFrom lo := by
  have hle := h.le_next
  unfold Builder.apply
  split
  · have hnext : (b.add held cbConfig d).heap.next = b.heap.next + 6 := rfl
    refine ⟨hle.trans (Nat.le_add_right _ _), ?_⟩
    intro host r hr
    rw [hnext]
    rcases Table.rrCounter_apply hr with ⟨-, hrr⟩ | ⟨q, hq, hrr⟩
    · rw [hrr]
      exact ⟨hle.trans (Nat.le_add_right _ _), Nat.add_lt_add_left (by decide) _⟩
    · rw [hrr]
      exact ⟨(h.mem host q hq).1, Nat.lt_of_lt_of_le (h.mem host q hq).2 (Nat.le_add_right _ _)⟩
  · next hcmd =>
    refine ⟨hle, ?_⟩
    intro host r hr
    rcases Table.rrCounter_apply hr with ⟨hadd, -⟩ | ⟨q, hq, hrr⟩
    · exact absurd hadd hcmd
    · rw [hrr]
      exact h.mem host q hq

theorem Table.countersFrom_fromDefinitionsWithStats (held : List (Target W))
    (cbConfig : Option CircuitBreakerConfig) (reg : TargetStatsRegistry) (heap : Heap)
    (defs : List (RouteDef W)) :
    (fromDefinitionsWithStats held cbConfig reg heap defs).CountersFrom heap.next := by
  have hinit : (⟨reg, heap, new⟩ : Builder W).CountersFrom heap.next :=
    ⟨le_rfl, by simp [bucket, new]⟩
  have hbuilt : (defs.foldl (Builder.apply held cbConfig) ⟨reg, heap, new⟩).CountersFrom
      heap.next :=
    Builder.foldl_apply_invariant (fun b d h => b.countersFrom_apply d h) defs hinit
  refine ⟨hbuilt.le_next, ?_⟩
  intro host r hr
  change r ∈ (Table.finalize _).bucket host at hr
  rw [bucket_finalize] at hr
  exact hbuilt.mem host r ((List.perm_insertionSort _ _).mem_iff.mp hr)

end Building

structure Rotating (W : Type) where
  managed : ManagedRouteTable W
  picks : PickState

inductive RotatingLabel (W : Type) where
  | update (u : Update W) (held : List (Target W))
  | pick (counter : Ref)

/-- The route of every host and path goes on with the counter that it had, at the value that the
counter had. -/
def Rotating.Continues (before after : Rotating W) : Prop :=
  ∀ host path r r', before.managed.table.routeOf host path = some r →
    after.managed.table.routeOf host path = some r' →
    r'.rrCounter = r.rrCounter ∧
      after.picks.rrCounters r'.rrCounter = before.picks.rrCounters r.rrCounter

namespace Rotating

variable [Platform] [WeightArith W]

/-- Counters that did not exist before an update start at zero. -/
def step (s : Rotating W) : RotatingLabel W → Rotating W
  | .update u held =>
      { managed := s.managed.perform (u, held)
        picks := { s.picks with
          rrCounters := fun r =>
            if r < s.managed.heap.next then s.picks.rrCounters r else 0 } }
  | .pick counter => { s with picks := (s.picks.fetchAdd counter).2 }

def run (s : Rotating W) (ls : List (RotatingLabel W)) : Rotating W := ls.foldl step s

def new (cbConfig : Option CircuitBreakerConfig) (heap : Heap) (picks : PickState) : Rotating W :=
  ⟨.new cbConfig heap, picks⟩

/-- No host and path have targets both before and after the update. -/
def NothingStays (m : ManagedRouteTable W) (u : Update W) : Prop :=
  ∀ host path, denote m.registry.getAll host path = [] ∨
    denote (u.edit m.registry).getAll host path = []

theorem run_managed (s : Rotating W) (ls : List (RotatingLabel W)) :
    ∃ calls, (s.run ls).managed = s.managed.run calls := by
  induction ls using List.reverseRecOn with
  | nil => exact ⟨[], rfl⟩
  | append_singleton ls l ih =>
    obtain ⟨calls, hcalls⟩ := ih
    have hrun : s.run (ls ++ [l]) = (s.run ls).step l := by simp [run]
    cases l with
    | update u held =>
      refine ⟨calls ++ [(u, held)], ?_⟩
      rw [hrun, ManagedRouteTable.run_concat, ← hcalls]
      rfl
    | pick counter =>
      refine ⟨calls, ?_⟩
      rw [hrun, ← hcalls]
      rfl

end Rotating

namespace ManagedRouteTable

variable [Platform] [WeightArith W] {m : ManagedRouteTable W}

theorem registry_perform (u : Update W) (held : List (Target W)) :
    (m.perform (u, held)).registry = u.edit m.registry := by
  cases u <;> rfl

/-- A route is published exactly when the definitions leave it a target. -/
theorem Published.routeOf_isSome_iff (h : m.Published) (host path : String) :
    (∃ r, m.table.routeOf host path = some r) ↔ denote m.registry.getAll host path ≠ [] := by
  rw [← h.contents_eq, ne_eq, List.map_eq_nil_iff]
  unfold Table.contents Table.contentsOf
  change (∃ r, m.table.routeOf host path = some r) ↔
    ¬ ((m.table.routeOf host path).map Route.contents).getD [] = []
  cases hr : m.table.routeOf host path with
  | none => simp
  | some r =>
    have hmem := (Table.mem_bucket_of_routeOf hr).1
    have hne := ((h.wellFormed.toOk.bucketOk host).wellFormed r hmem).targets_ne
    simpa [Route.contents] using hne

def CountersMade (m : ManagedRouteTable W) : Prop :=
  ∀ host, ∀ r ∈ m.table.bucket host, r.rrCounter < m.heap.next

theorem countersFrom_perform (m : ManagedRouteTable W) (call : Update W × List (Target W)) :
    (m.perform call).built.CountersFrom m.heap.next := by
  obtain ⟨u, held⟩ := call
  obtain ⟨cbConfig, reg, defs, -, hbuilt⟩ := m.built_perform u held
  rw [hbuilt]
  exact Table.countersFrom_fromDefinitionsWithStats _ _ _ _ _

theorem countersMade_run (cbConfig : Option CircuitBreakerConfig) (heap : Heap)
    (calls : List (Update W × List (Target W))) : ((new cbConfig heap).run calls).CountersMade := by
  induction calls using List.reverseRecOn with
  | nil =>
    intro host r hr
    simp [run, new, Table.bucket, Table.new] at hr
  | append_singleton calls call _ =>
    rw [run_concat]
    exact fun host r hr => ((countersFrom_perform _ call).mem host r hr).2

end ManagedRouteTable

namespace Rotating

variable [Platform] [WeightArith W]

/-- Where a route stays, its new counter is not the old one. -/
theorem continues_step_iff {s : Rotating W} (hpublished : s.managed.Published)
    (hmade : s.managed.CountersMade) (u : Update W) (held : List (Target W)) :
    Continues s (s.step (.update u held)) ↔ NothingStays s.managed u := by
  have hpublished' : (s.managed.perform (u, held)).Published :=
    ManagedRouteTable.published_perform _ _
  have hroute := hpublished.routeOf_isSome_iff
  have hroute' := hpublished'.routeOf_isSome_iff
  rw [ManagedRouteTable.registry_perform] at hroute'
  constructor
  · intro h host path
    by_contra hstays
    rw [not_or] at hstays
    obtain ⟨r, hr⟩ := (hroute host path).mpr hstays.1
    obtain ⟨r', hr'⟩ := (hroute' host path).mpr hstays.2
    have hsame := (h host path r r' hr hr').1
    have hold := hmade host r (Table.mem_bucket_of_routeOf hr).1
    have hnew := ((ManagedRouteTable.countersFrom_perform s.managed (u, held)).mem host r'
      (Table.mem_bucket_of_routeOf hr').1).1
    rw [hsame] at hnew
    exact absurd hold (not_lt.mpr hnew)
  · intro h host path r r' hr hr'
    rcases h host path with hnone | hnone
    · exact absurd hnone ((hroute host path).mp ⟨r, hr⟩)
    · exact absurd hnone ((hroute' host path).mp ⟨r', hr'⟩)

/-- In every run of updates and picks, the rotation continues over all updates exactly when no
update leaves a host and path with targets that had some before. -/
theorem rotation_continues_iff (cbConfig : Option CircuitBreakerConfig) (heap : Heap)
    (picks : PickState) (ls : List (RotatingLabel W)) :
    (∀ before u held after, ls = before ++ .update u held :: after →
      Continues ((new cbConfig heap picks).run before)
        ((new cbConfig heap picks).run (before ++ [.update u held]))) ↔
    ∀ before u held after, ls = before ++ .update u held :: after →
      NothingStays ((new cbConfig heap picks).run before).managed u := by
  have hstep : ∀ before u held, Continues ((new cbConfig heap picks : Rotating W).run before)
      ((new cbConfig heap picks).run (before ++ [.update u held])) ↔
      NothingStays ((new cbConfig heap picks).run before).managed u := by
    intro before u held
    obtain ⟨calls, hcalls⟩ := run_managed (new cbConfig heap picks) before
    have hpublished : ((new cbConfig heap picks : Rotating W).run before).managed.Published := by
      rw [hcalls]
      exact ManagedRouteTable.published_run cbConfig heap calls
    have hmade : ((new cbConfig heap picks : Rotating W).run before).managed.CountersMade := by
      rw [hcalls]
      exact ManagedRouteTable.countersMade_run cbConfig heap calls
    have hrun : (new cbConfig heap picks : Rotating W).run (before ++ [.update u held]) =
        ((new cbConfig heap picks).run before).step (.update u held) := by simp [run]
    rw [hrun]
    exact continues_step_iff hpublished hmade u held
  constructor
  · intro h before u held after hls
    exact (hstep before u held).mp (h before u held after hls)
  · intro h before u held after hls
    exact (hstep before u held).mpr (h before u held after hls)

end Rotating

section Examples

attribute [local instance] Platform.plain

def pickedOnce : Rotating ℚ :=
  (Rotating.new none .empty ⟨fun _ => 0, fun _ => 0⟩).run
    [.update (.loadStatic [exampleDef .static .add "svc" "http://10.0.0.1:80/"]) [], .pick 5]

/-- Loading the same definition again starts its rotation over. -/
theorem rotation_restarts_reloaded :
    let reloaded := pickedOnce.step
      (.update (.loadStatic [exampleDef .static .add "svc" "http://10.0.0.1:80/"]) [])
    (pickedOnce.managed.table.routeOf "" "/api").map
        (fun r => (r.rrCounter, pickedOnce.picks.rrCounters r.rrCounter)) = some (5, 1) ∧
      (reloaded.managed.table.routeOf "" "/api").map
        (fun r => (r.rrCounter, reloaded.picks.rrCounters r.rrCounter)) = some (11, 0) ∧
      ¬ Rotating.Continues pickedOnce reloaded := by
  intro reloaded
  have hbefore : (pickedOnce.managed.table.routeOf "" "/api").map
      (fun r => (r.rrCounter, pickedOnce.picks.rrCounters r.rrCounter)) = some (5, 1) := by
    decide +kernel
  have hafter : (reloaded.managed.table.routeOf "" "/api").map
      (fun r => (r.rrCounter, reloaded.picks.rrCounters r.rrCounter)) = some (11, 0) := by
    decide +kernel
  refine ⟨hbefore, hafter, ?_⟩
  intro h
  obtain ⟨r, hr, hcounter⟩ := Option.map_eq_some_iff.mp hbefore
  obtain ⟨r', hr', hcounter'⟩ := Option.map_eq_some_iff.mp hafter
  have hsame := (h "" "/api" r r' hr hr').1
  rw [(Prod.mk.inj hcounter).1, (Prod.mk.inj hcounter').1] at hsame
  exact absurd hsame (by decide)

end Examples

end SentirumLb
