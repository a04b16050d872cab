import SentirumLb.Lib.Runs
import SentirumLb.Route.Registry

/-! # Connection slots

A request takes a slot of its target in `select_upstream_peer` and gives it back
in the logging hook; a TCP connection holds its slot through a guard. What ties
the two ends together is `ctx.picked_target`. The parties interleave at every
access to a counter, and with updates of the route table. Which target a lookup
returns is left open: any target of the published table.
-/

namespace SentirumLb

variable {W : Type}

structure Acquire (W : Type) where
  target : Target W
  maxConnections : UInt64
  current : Option ℕ

inductive AcquireResult (W : Type) where
  | running (a : Acquire W)
  | granted
  | refused

def AcquireResult.isGranted : AcquireResult W → Bool
  | .granted => true
  | _ => false

namespace Acquire

def loop (a : Acquire W) (current : ℕ) : AcquireResult W :=
  if a.maxConnections.toNat ≤ current then .refused
  else .running { a with current := some current }

/-- One access to the counter: the `fetch_add`, the first load, or a `compare_exchange_weak`, which
may fail for no reason. -/
def access (a : Acquire W) (spurious : Bool) (count : ℕ) : AcquireResult W × ℕ :=
  if a.maxConnections = 0 then (.granted, (count + 1) % 2 ^ 64)
  else
    match a.current with
    | none => (a.loop count, count)
    | some current =>
        if count = current ∧ spurious = false then (.granted, (count + 1) % 2 ^ 64)
        else (a.loop count, count)

theorem loop_cases (a : Acquire W) (current : ℕ) :
    a.loop current = .refused ∨ a.loop current = .running { a with current := some current } := by
  unfold loop
  split
  · exact Or.inl rfl
  · exact Or.inr rfl

theorem access_cases (a : Acquire W) (spurious : Bool) (count : ℕ) :
    a.access spurious count = (.granted, (count + 1) % 2 ^ 64) ∨
      a.access spurious count = (.refused, count) ∨
      ∃ current, a.access spurious count = (.running { a with current := current }, count) := by
  have hloop : (a.loop count, count) = (.refused, count) ∨
      ∃ current, (a.loop count, count) = (.running { a with current := current }, count) := by
    rcases a.loop_cases count with h | h
    · exact Or.inl (congrArg (·, count) h)
    · exact Or.inr ⟨some count, congrArg (·, count) h⟩
  unfold access
  split
  · exact Or.inl rfl
  · split
    · exact Or.inr hloop
    · split
      · exact Or.inl rfl
      · exact Or.inr hloop

end Acquire

/-- Who asks for a slot: a request with its `ctx.picked_target`, or a TCP connection. -/
inductive Caller (W : Type) where
  | http (pickedTarget : Option (Target W))
  | tcp

namespace Caller

def pickedTarget : Caller W → Option (Target W)
  | .http picked => picked
  | .tcp => none

end Caller

inductive Phase (W : Type) where
  /-- Between two callbacks, or before a target is looked up. -/
  | idle (c : Caller W)
  | acquiring (c : Caller W) (a : Acquire W)
  | guarded (target : Target W)
  | ended

namespace Phase

/-- The caller has the slot; a request overwrites its `ctx.picked_target`. -/
def granted (target : Target W) : Caller W → Phase W
  | .http _ => .idle (.http (some target))
  | .tcp => .guarded target

/-- The caller returns without a slot: a request may be retried, a connection is over. -/
def refused : Caller W → Phase W
  | .http picked => .idle (.http picked)
  | .tcp => .ended

def slot : Phase W → Option (Target W)
  | .idle c => c.pickedTarget
  | .acquiring c _ => c.pickedTarget
  | .guarded target => some target
  | .ended => none

def held : Phase W → List (Target W)
  | .acquiring c a => a.target :: c.pickedTarget.toList
  | phase => phase.slot.toList

def isEnded : Phase W → Bool
  | .ended => true
  | _ => false

end Phase

/-- A request or TCP connection. The URLs of the slots that it was given are a record for the
specification, which no step reads. -/
structure Party (W : Type) where
  phase : Phase W
  given : List String

/-- The party was given a slot on the URL and has not ended. -/
def Party.holds (p : Party W) (url : String) : Bool :=
  !p.phase.isEnded && p.given.contains url

structure Gateway (W : Type) where
  managed : ManagedRouteTable W
  parties : List (Party W)

inductive GatewayLabel (W : Type) where
  | update (u : Update W)
  | newCtx
  | accept
  | lookup (i n : ℕ) (maxConnections : UInt64)
  /-- The breaker turns the target down and target `n` is used instead. -/
  | fallback (i n : ℕ)
  | reject (i : ℕ)
  | access (i : ℕ) (spurious : Bool)
  /-- The logging hook, or the drop of a connection. -/
  | finish (i : ℕ)

namespace Gateway

def held (g : Gateway W) : List (Target W) := g.parties.flatMap (·.phase.held)

/-- The targets that exist: those that parties hold and those of the table. -/
def live (g : Gateway W) : List (Target W) := g.held ++ g.managed.table.targets.map (·.val)

def count (g : Gateway W) (t : Target W) : ℕ := g.managed.heap.counters t.activeConnections

/-- The requests and connections that were given a slot on the URL and have not ended. -/
def holders (g : Gateway W) (url : String) : ℕ := g.parties.countP fun p => p.holds url

def target (g : Gateway W) (n : ℕ) : Option (Target W) :=
  (g.managed.table.targets[n]?).map (·.val)

def setParty (g : Gateway W) (i : ℕ) (p : Party W) : Gateway W :=
  { g with parties := g.parties.set i p }

def storeCount (g : Gateway W) (t : Target W) (count : ℕ) : Gateway W :=
  { g with
    managed.heap.counters :=
      Function.update g.managed.heap.counters t.activeConnections count }

def releaseConnectionSlot (g : Gateway W) (t : Target W) : Gateway W :=
  g.storeCount t ((g.count t + (2 ^ 64 - 1)) % 2 ^ 64)

def releasePicked (g : Gateway W) : Option (Target W) → Gateway W
  | some t => g.releaseConnectionSlot t
  | none => g

def afterAccess (g : Gateway W) (i : ℕ) (p : Party W) (c : Caller W) (a : Acquire W)
    (outcome : AcquireResult W × ℕ) : Gateway W :=
  let g := g.storeCount a.target outcome.2
  match outcome.1 with
  | .running a' => g.setParty i { p with phase := .acquiring c a' }
  | .granted => g.setParty i ⟨.granted a.target c, a.target.url :: p.given⟩
  | .refused => g.setParty i { p with phase := .refused c }

variable [Platform] [WeightArith W]

def step (g : Gateway W) : GatewayLabel W → Option (Gateway W)
  | .update u => some { g with managed := g.managed.perform (u, g.held) }
  | .newCtx => some { g with parties := g.parties ++ [⟨.idle (.http none), []⟩] }
  | .accept => some { g with parties := g.parties ++ [⟨.idle .tcp, []⟩] }
  | .lookup i n maxConnections => do
      let p ← g.parties[i]?
      let t ← g.target n
      match p.phase with
      | .idle c => some (g.setParty i { p with phase := .acquiring c ⟨t, maxConnections, none⟩ })
      | _ => none
  | .fallback i n => do
      let p ← g.parties[i]?
      let t ← g.target n
      match p.phase with
      | .acquiring (.http picked) ⟨_, maxConnections, none⟩ =>
          some (g.setParty i
            { p with phase := .acquiring (.http picked) ⟨t, maxConnections, none⟩ })
      | _ => none
  | .reject i => do
      let p ← g.parties[i]?
      match p.phase with
      | .acquiring (.http picked) ⟨_, _, none⟩ =>
          some (g.setParty i { p with phase := .idle (.http picked) })
      | _ => none
  | .access i spurious => do
      let p ← g.parties[i]?
      match p.phase with
      | .acquiring c a => some (g.afterAccess i p c a (a.access spurious (g.count a.target)))
      | _ => none
  | .finish i => do
      let p ← g.parties[i]?
      match p.phase with
      | .idle c => some ((g.releasePicked c.pickedTarget).setParty i { p with phase := .ended })
      | .guarded t => some ((g.releaseConnectionSlot t).setParty i { p with phase := .ended })
      | _ => none

def initial (cbConfig : Option CircuitBreakerConfig) (heap : Heap) : Gateway W :=
  ⟨.new cbConfig heap, []⟩

/-! ## What a step does -/

section Steps

variable {g g' : Gateway W} {i : ℕ} {p : Party W}

omit [Platform] [WeightArith W] in
theorem storeCount_count (g : Gateway W) (t : Target W) : g.storeCount t (g.count t) = g := by
  unfold storeCount count
  rw [Function.update_eq_self]

omit [Platform] [WeightArith W] in
theorem held_subset_live (hp : g.parties[i]? = some p) : p.phase.held ⊆ g.live := by
  intro t ht
  apply List.mem_append_left
  exact List.mem_flatMap.mpr ⟨p, List.mem_of_getElem? hp, ht⟩

omit [Platform] [WeightArith W] in
theorem target_mem_live {n : ℕ} {t : Target W} (h : g.target n = some t) : t ∈ g.live := by
  obtain ⟨a, ha, rfl⟩ := Option.map_eq_some_iff.mp h
  exact List.mem_append_right _ (List.mem_map_of_mem (List.mem_of_getElem? ha))

structure Continues (g : Gateway W) (phase phase' : Phase W) : Prop where
  running : phase.isEnded = false
  slot_eq : phase'.slot = phase.slot
  slot_none : phase'.isEnded = true → phase.slot = none
  held_sub : phase'.held ⊆ g.live

omit [Platform] [WeightArith W] in
theorem continues_acquiring {c : Caller W} {a : Acquire W} (hp : g.parties[i]? = some p)
    (hphase : p.phase = .idle c ∨ ∃ b, p.phase = .acquiring c b) (ha : a.target ∈ g.live) :
    g.Continues p.phase (.acquiring c a) := by
  have hpicked : c.pickedTarget.toList ⊆ g.live := by
    refine List.Subset.trans ?_ (held_subset_live hp)
    rcases hphase with h | ⟨b, h⟩
    · rw [h]
      exact List.Subset.refl _
    · rw [h]
      exact List.subset_cons_self _ _
  refine ⟨?_, ?_, by simp [Phase.isEnded], List.cons_subset.mpr ⟨ha, hpicked⟩⟩
  · rcases hphase with h | ⟨b, h⟩ <;> rw [h] <;> rfl
  · rcases hphase with h | ⟨b, h⟩ <;> rw [h] <;> rfl

omit [Platform] [WeightArith W] in
theorem continues_refused {c : Caller W} {a : Acquire W} (hp : g.parties[i]? = some p)
    (hphase : p.phase = .acquiring c a) : g.Continues p.phase (.refused c) := by
  have hheld := held_subset_live hp
  rw [hphase] at hheld ⊢
  cases c with
  | http picked => exact ⟨rfl, rfl, by simp [Phase.refused, Phase.isEnded],
      List.Subset.trans (List.subset_cons_self _ _) hheld⟩
  | tcp => exact ⟨rfl, rfl, fun _ => rfl, List.nil_subset _⟩

inductive Change (g : Gateway W) : GatewayLabel W → Gateway W → Prop where
  | update (u : Update W) :
      Change g (.update u) { g with managed := g.managed.perform (u, g.held) }
  | arrive {l : GatewayLabel W} (c : Caller W) (hc : c.pickedTarget = none) :
      Change g l { g with parties := g.parties ++ [⟨.idle c, []⟩] }
  | proceed {l : GatewayLabel W} {i : ℕ} {p : Party W} {phase : Phase W}
      (hp : g.parties[i]? = some p) (hcontinues : g.Continues p.phase phase) :
      Change g l (g.setParty i { p with phase := phase })
  | grant {i : ℕ} {spurious : Bool} {p : Party W} {c : Caller W} {a : Acquire W}
      (hp : g.parties[i]? = some p) (hphase : p.phase = .acquiring c a)
      (hgranted : (a.access spurious (g.count a.target)).1 = .granted) :
      Change g (.access i spurious)
        ((g.storeCount a.target ((g.count a.target + 1) % 2 ^ 64)).setParty i
          ⟨.granted a.target c, a.target.url :: p.given⟩)
  | release {l : GatewayLabel W} {i : ℕ} {p : Party W} {t : Target W}
      (hp : g.parties[i]? = some p) (hrunning : p.phase.isEnded = false)
      (hslot : p.phase.slot = some t) :
      Change g l ((g.releaseConnectionSlot t).setParty i { p with phase := .ended })

theorem change_access {spurious : Bool} {c : Caller W} {a : Acquire W}
    (hp : g.parties[i]? = some p) (hphase : p.phase = .acquiring c a) :
    g.Change (.access i spurious)
      (g.afterAccess i p c a (a.access spurious (g.count a.target))) := by
  unfold afterAccess
  rcases a.access_cases spurious (g.count a.target) with he | he | ⟨current, he⟩
  · have hgranted : (a.access spurious (g.count a.target)).1 = .granted := congrArg (·.1) he
    rw [he]
    exact .grant hp hphase hgranted
  · rw [he, storeCount_count]
    exact .proceed hp (continues_refused hp hphase)
  · rw [he, storeCount_count]
    have ha : a.target ∈ g.live := by
      apply held_subset_live hp
      rw [hphase]
      exact List.mem_cons_self
    exact .proceed hp (continues_acquiring (a := { a with current := current }) hp
      (Or.inr ⟨a, hphase⟩) ha)

theorem change_finish_idle {l : GatewayLabel W} {c : Caller W} (hp : g.parties[i]? = some p)
    (hphase : p.phase = .idle c) :
    g.Change l ((g.releasePicked c.pickedTarget).setParty i { p with phase := .ended }) := by
  have hslot : p.phase.slot = c.pickedTarget := by rw [hphase, Phase.slot]
  have hrunning : p.phase.isEnded = false := by rw [hphase]; rfl
  cases hpicked : c.pickedTarget with
  | some t => exact .release hp hrunning (hslot.trans hpicked)
  | none =>
    have hnone : p.phase.slot = none := hslot.trans hpicked
    exact .proceed hp ⟨hrunning, hnone.symm, fun _ => hnone, List.nil_subset _⟩

theorem change_of_step {l : GatewayLabel W} (h : g.step l = some g') : g.Change l g' := by
  cases l with
  | update u =>
    cases h
    exact .update u
  | newCtx =>
    cases h
    exact .arrive (.http none) rfl
  | accept =>
    cases h
    exact .arrive .tcp rfl
  | lookup i n maxConnections =>
    simp only [step, bind, Option.bind_eq_some_iff] at h
    obtain ⟨p, hp, t, ht, h⟩ := h
    split at h
    · next c hphase =>
      cases h
      exact .proceed hp (continues_acquiring hp (Or.inl hphase) (target_mem_live ht))
    · cases h
  | fallback i n =>
    simp only [step, bind, Option.bind_eq_some_iff] at h
    obtain ⟨p, hp, t, ht, h⟩ := h
    split at h
    · next hphase =>
      cases h
      exact .proceed hp (continues_acquiring hp (Or.inr ⟨_, hphase⟩) (target_mem_live ht))
    · cases h
  | reject i =>
    simp only [step, bind, Option.bind_eq_some_iff] at h
    obtain ⟨p, hp, h⟩ := h
    split at h
    · next hphase =>
      cases h
      exact .proceed hp (continues_refused hp hphase)
    · cases h
  | access i spurious =>
    simp only [step, bind, Option.bind_eq_some_iff] at h
    obtain ⟨p, hp, h⟩ := h
    split at h
    · next c a hphase =>
      cases h
      exact change_access hp hphase
    · cases h
  | finish i =>
    simp only [step, bind, Option.bind_eq_some_iff] at h
    obtain ⟨p, hp, h⟩ := h
    split at h
    · next c hphase =>
      cases h
      exact change_finish_idle hp hphase
    · next t hphase =>
      cases h
      exact .release hp (by rw [hphase]; rfl) (by rw [hphase, Phase.slot])
    · cases h

end Steps

end Gateway

end SentirumLb
