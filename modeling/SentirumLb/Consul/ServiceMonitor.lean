import SentirumLb.Consul.Checks
import SentirumLb.Lib.Runs

/-! # The service watcher

The watcher asks for the health checks, turns a snapshot that is new into
routes, and sends them on. A snapshot that could not be turned into routes is
kept and taken up again in the next round, in place of a question for a newer
one. The index of a snapshot is recorded when its routes are sent, so that the
snapshot kept never looks like one that was dealt with.
-/

namespace SentirumLb

namespace Consul

structure Snapshot where
  checks : List HealthCheck
  index : ℕ

/-- The catalog lookups that the snapshot needs all succeed. -/
def Snapshot.Complete (snap : Snapshot) (config : ConsulConfig) (catalog : Catalog) : Prop :=
  Consul.Complete config catalog snap.checks config.tagPrefix

inductive RouteUpdate (W : Type) where
  | services (defs : List (RouteDef W))
  | manual (text : String)
  | error (message : String)

inductive WatchEvent (W : Type) where
  | getHealthChecks (index : ℕ)
  | send (update : RouteUpdate W)
  | sleep (secs : ℕ)
  | poll

/-- What a round meets: the answer to a question for the health checks, the catalog, and whether
anyone listens to the updates. -/
structure Round where
  health : Except String Snapshot
  catalog : Catalog
  channelOpen : Bool

structure Watch where
  lastIndex : ℕ
  backoffSecs : ℕ
  pendingChecks : Option Snapshot
  stopped : Bool

namespace Watch

def initial : Watch := ⟨0, 1, none, false⟩

def backOff (s : Watch) : ℕ := min (s.backoffSecs * 2) 60

variable {W : Type} [Zero W] [ParseWeight W]

/-- The round from the point where it has a snapshot. -/
def attempt (config : ConsulConfig) (r : Round) (s : Watch) (snap : Snapshot) :
    Watch × List (WatchEvent W) :=
  if snap.index = s.lastIndex then
    ({ s with backoffSecs := 1 }, if s.lastIndex = 0 then [.poll] else [])
  else
    match processChecks config r.catalog snap.checks config.tagPrefix with
    | .ok defs =>
        ({ s with lastIndex := snap.index, backoffSecs := 1, stopped := !r.channelOpen },
          [.send (.services defs)])
    | .error message =>
        ({ s with pendingChecks := some snap, backoffSecs := s.backOff },
          [.send (.error message), .sleep s.backoffSecs])

def round (config : ConsulConfig) (r : Round) (s : Watch) : Watch × List (WatchEvent W) :=
  match s.pendingChecks with
  | some snap => attempt config r { s with pendingChecks := none } snap
  | none =>
      match r.health with
      | .ok snap =>
          let (s', events) := attempt config r s snap
          (s', .getHealthChecks s.lastIndex :: events)
      | .error e =>
          ({ s with backoffSecs := s.backOff },
            [.getHealthChecks s.lastIndex, .send (.error e), .sleep s.backoffSecs])

/-- The snapshot that a round works on. -/
def snapshot (s : Watch) (r : Round) : Option Snapshot := s.pendingChecks.or r.health.toOption

variable (W) in
def step (config : ConsulConfig) (s : Watch) (r : Round) : Option Watch :=
  if s.stopped then none else some (s.round config r : Watch × List (WatchEvent W)).1

def events (config : ConsulConfig) (s : Watch) : List Round → List (WatchEvent W)
  | [] => []
  | r :: rs =>
      let (s', done) := s.round config r
      if s.stopped then [] else done ++ events config s' rs

/-! ## Rounds -/

/-- The question for the health checks, which is left out while a snapshot is kept. -/
def query (s : Watch) : List (WatchEvent W) :=
  if s.pendingChecks.isSome then [] else [.getHealthChecks s.lastIndex]

inductive Outcome (config : ConsulConfig) (r : Round) (s : Watch) :
    Watch × List (WatchEvent W) → Prop where
  | failed (message : String) (hsnap : s.snapshot r = none) :
      Outcome config r s ({ s with backoffSecs := s.backOff },
        s.query ++ [.send (.error message), .sleep s.backoffSecs])
  | unchanged {snap : Snapshot} (hsnap : s.snapshot r = some snap)
      (heq : snap.index = s.lastIndex) :
      Outcome config r s ({ s with pendingChecks := none, backoffSecs := 1 },
        s.query ++ if s.lastIndex = 0 then [.poll] else [])
  | published {snap : Snapshot} {defs : List (RouteDef W)} (hsnap : s.snapshot r = some snap)
      (hne : snap.index ≠ s.lastIndex) (hcomplete : snap.Complete config r.catalog)
      (hdefs : processChecks config r.catalog snap.checks config.tagPrefix = .ok defs) :
      Outcome config r s
        ({ s with
            pendingChecks := none
            lastIndex := snap.index
            backoffSecs := 1
            stopped := !r.channelOpen },
          s.query ++ [.send (.services defs)])
  | kept {snap : Snapshot} (message : String) (hsnap : s.snapshot r = some snap)
      (hne : snap.index ≠ s.lastIndex) (hfails : ¬ snap.Complete config r.catalog) :
      Outcome config r s ({ s with pendingChecks := some snap, backoffSecs := s.backOff },
        s.query ++ [.send (.error message), .sleep s.backoffSecs])

variable {config : ConsulConfig} {r : Round} {s : Watch} {snap : Snapshot}

theorem round_eq_attempt (h : s.snapshot r = some snap) :
    (s.round config r : Watch × List (WatchEvent W)) =
      ((attempt config r { s with pendingChecks := none } snap : Watch × List (WatchEvent W)).1,
        s.query ++ (attempt config r { s with pendingChecks := none } snap).2) := by
  unfold snapshot at h
  unfold round query
  cases hpending : s.pendingChecks with
  | some kept =>
    rw [hpending] at h
    cases h
    rfl
  | none =>
    rw [hpending, Option.none_or] at h
    cases hhealth : r.health with
    | error e =>
      rw [hhealth] at h
      cases h
    | ok answered =>
      rw [hhealth] at h
      cases h
      have hs : { s with pendingChecks := none } = s := by rw [← hpending]
      rw [hs]
      rfl

theorem outcome_round (config : ConsulConfig) (r : Round) (s : Watch) :
    Outcome config r s (s.round config r : Watch × List (WatchEvent W)) := by
  cases hsnap : s.snapshot r with
  | none =>
    obtain ⟨hpending, hhealth⟩ := Option.or_eq_none_iff.mp hsnap
    cases hanswer : r.health with
    | ok answered =>
      rw [hanswer] at hhealth
      cases hhealth
    | error message =>
      have hround : (s.round config r : Watch × List (WatchEvent W)) =
          ({ s with backoffSecs := s.backOff },
            s.query ++ [.send (.error message), .sleep s.backoffSecs]) := by
        simp [round, query, hpending, hanswer]
      rw [hround]
      exact .failed message hsnap
  | some snap =>
    rw [round_eq_attempt hsnap]
    by_cases heq : snap.index = s.lastIndex
    · rw [attempt, if_pos heq]
      exact .unchanged hsnap heq
    · rw [attempt, if_neg heq]
      cases hchecks : (processChecks config r.catalog snap.checks config.tagPrefix :
          Except String (List (RouteDef W))) with
      | ok defs =>
        have hcomplete : snap.Complete config r.catalog :=
          (processChecks_eq_ok_iff _ _ _ _).mp ⟨defs, hchecks⟩
        exact .published hsnap heq hcomplete hchecks
      | error message =>
        have hfails : ¬ snap.Complete config r.catalog := by
          intro hcomplete
          obtain ⟨defs, hdefs⟩ := (processChecks_eq_ok_iff (W := W) _ _ _ _).mpr hcomplete
          rw [hchecks] at hdefs
          cases hdefs
        exact .kept message hsnap heq hfails

/-- A round with a new snapshot publishes it, or keeps it when a lookup fails. -/
theorem round_new_cases {out : Watch × List (WatchEvent W)} (hout : s.round config r = out)
    (hsnap : s.snapshot r = some snap) (hne : snap.index ≠ s.lastIndex) :
    (¬ snap.Complete config r.catalog ∧
        out.1 = { s with pendingChecks := some snap, backoffSecs := s.backOff } ∧
        ∃ message, out.2 = s.query ++ [.send (.error message), .sleep s.backoffSecs]) ∨
      (snap.Complete config r.catalog ∧ out.1.lastIndex = snap.index ∧
        ∃ defs, processChecks config r.catalog snap.checks config.tagPrefix = .ok defs ∧
          out.2 = s.query ++ [.send (.services defs)]) := by
  have houtcome := s.outcome_round (W := W) config r
  rw [hout] at houtcome
  cases houtcome with
  | failed message hnone =>
    rw [hsnap] at hnone
    cases hnone
  | unchanged hsnap' heq =>
    cases hsnap.symm.trans hsnap'
    exact absurd heq hne
  | published hsnap' hne' hcomplete hdefs =>
    cases hsnap.symm.trans hsnap'
    exact .inr ⟨hcomplete, rfl, _, hdefs, rfl⟩
  | kept message hsnap' hne' hfails =>
    cases hsnap.symm.trans hsnap'
    exact .inl ⟨hfails, rfl, message, rfl⟩

/-! ## The snapshot that is kept -/

/-- A snapshot that is kept is not the one that was dealt with last. -/
def Fresh (s : Watch) : Prop := ∀ snap, s.pendingChecks = some snap → snap.index ≠ s.lastIndex

theorem fresh_round (h : s.Fresh) (config : ConsulConfig) (r : Round) :
    (s.round config r : Watch × List (WatchEvent W)).1.Fresh := by
  have hout := s.outcome_round (W := W) config r
  generalize (s.round config r : Watch × List (WatchEvent W)) = out at hout ⊢
  cases hout with
  | failed message hsnap => exact h
  | unchanged hsnap heq =>
    rintro snap hnone
    cases hnone
  | published hsnap hne hcomplete hdefs =>
    rintro snap hnone
    cases hnone
  | kept message hsnap hne hfails =>
    rintro kept hkept
    cases hkept
    exact hne

structure Keeps (snap : Snapshot) (s : Watch) : Prop where
  pending : s.pendingChecks = some snap
  fresh : snap.index ≠ s.lastIndex
  running : s.stopped = false

omit [Zero W] [ParseWeight W] in
theorem Keeps.query_eq (h : Keeps snap s) : (s.query : List (WatchEvent W)) = [] := by
  simp [query, h.pending]

theorem Keeps.snapshot_eq (h : Keeps snap s) (r : Round) : s.snapshot r = some snap := by
  rw [snapshot, h.pending, Option.some_or]

theorem Keeps.run_incomplete (h : Keeps snap s) {rs : List Round}
    (hfails : ∀ q ∈ rs, ¬ snap.Complete config q.catalog) :
    ∃ t, Runs.run (step W config) s rs = some t ∧ Keeps snap t ∧
      ∀ index, .getHealthChecks index ∉ (s.events config rs : List (WatchEvent W)) := by
  induction rs generalizing s with
  | nil => exact ⟨s, rfl, h, fun _ => List.not_mem_nil⟩
  | cons r rs ih =>
    obtain ⟨-, hs', message, hevents⟩ | ⟨hcomplete, -⟩ :=
      round_new_cases (W := W) rfl (h.snapshot_eq r) h.fresh
    · have hkeeps : Keeps snap (s.round config r : Watch × List (WatchEvent W)).1 := by
        rw [hs']
        exact ⟨rfl, h.fresh, h.running⟩
      obtain ⟨t, ht, hkept, hquiet⟩ :=
        ih hkeeps fun q hq => hfails q (List.mem_cons_of_mem _ hq)
      refine ⟨t, ?_, hkept, ?_⟩
      · rw [Runs.run_cons, step, if_neg (by simp [h.running])]
        exact ht
      · intro index
        simp only [events]
        rw [if_neg (by simp [h.running]), hevents, h.query_eq]
        simpa using hquiet index
    · exact absurd hcomplete (hfails r List.mem_cons_self)

/-- The first round in which the lookups succeed publishes the snapshot and does nothing else. -/
theorem Keeps.round_complete (h : Keeps snap s) (hcomplete : snap.Complete config r.catalog) :
    ∃ defs : List (RouteDef W),
      processChecks config r.catalog snap.checks config.tagPrefix = .ok defs ∧
      (s.round config r).2 = [.send (.services defs)] ∧
      (s.round config r : Watch × List (WatchEvent W)).1.lastIndex = snap.index := by
  obtain ⟨hfails, -⟩ | ⟨-, hindex, defs, hdefs, hevents⟩ :=
    round_new_cases (W := W) rfl (h.snapshot_eq r) h.fresh
  · exact absurd hcomplete hfails
  · rw [h.query_eq, List.nil_append] at hevents
    exact ⟨defs, hdefs, hevents, hindex⟩

/-! ## Every round of every run -/

/-- The round takes the snapshot up: it was kept, or it is an answer that is new. -/
def Accepts (s : Watch) (r : Round) (snap : Snapshot) : Prop :=
  s.pendingChecks = some snap ∨
    s.pendingChecks = none ∧ r.health = .ok snap ∧ snap.index ≠ s.lastIndex

theorem Fresh.accepts_iff (h : s.Fresh) (r : Round) (snap : Snapshot) :
    s.Accepts r snap ↔ s.snapshot r = some snap ∧ snap.index ≠ s.lastIndex := by
  unfold Accepts snapshot
  cases hpending : s.pendingChecks with
  | some kept =>
    have hne := h kept hpending
    constructor
    · rintro (heq | ⟨hnone, -⟩)
      · cases heq
        exact ⟨rfl, hne⟩
      · cases hnone
    · rintro ⟨heq, -⟩
      exact .inl heq
  | none =>
    cases hhealth : r.health with
    | ok answered => simp [Except.toOption]
    | error message => simp [Except.toOption]

/-- What a round from `s` to `s'` with the given events does with its snapshot. -/
structure Publishes (config : ConsulConfig) (r : Round) (s s' : Watch)
    (events : List (WatchEvent W)) : Prop where
  complete : ∀ defs, .send (.services defs) ∈ events →
    ∃ snap, s.Accepts r snap ∧ snap.Complete config r.catalog ∧
      processChecks config r.catalog snap.checks config.tagPrefix = .ok defs ∧
      s'.lastIndex = snap.index
  /-- The index moves only together with a publication, and to the index of what is published. -/
  index : s'.lastIndex ≠ s.lastIndex →
    ∃ snap defs, s.Accepts r snap ∧ s'.lastIndex = snap.index ∧ .send (.services defs) ∈ events
  accepted : ∀ snap, s.Accepts r snap → snap.Complete config r.catalog →
    ∃ defs, .send (.services defs) ∈ events
  /-- An incomplete snapshot is attempted again, without a question for the health checks, for as
  many rounds as it takes, and is published in the first round in which it is complete. -/
  retried : ∀ snap, s.Accepts r snap → ¬ snap.Complete config r.catalog →
    ∀ rs : List Round, (∀ q ∈ rs, ¬ snap.Complete config q.catalog) →
      ∃ t, Runs.run (step W config) s' rs = some t ∧
        (∀ index, .getHealthChecks index ∉ (s'.events config rs : List (WatchEvent W))) ∧
        ∀ q : Round, snap.Complete config q.catalog →
          ∃ defs : List (RouteDef W),
            processChecks config q.catalog snap.checks config.tagPrefix = .ok defs ∧
            (t.round config q).2 = [.send (.services defs)] ∧
            (t.round config q : Watch × List (WatchEvent W)).1.lastIndex = snap.index
  unchanged : ∀ snap, s.pendingChecks = none → r.health = .ok snap → snap.index = s.lastIndex →
    ∀ defs, .send (.services defs) ∉ events

omit [Zero W] [ParseWeight W] in
theorem services_not_mem_query (defs : List (RouteDef W)) :
    .send (.services defs) ∉ s.query := by
  unfold query
  split <;> simp

theorem step_eq_some_iff {s' : Watch} :
    step W config s r = some s' ↔
      s.stopped = false ∧ (s.round config r : Watch × List (WatchEvent W)).1 = s' := by
  unfold step
  split <;> simp_all

theorem fresh_run {rs : List Round} (hrun : Runs.run (step W config) initial rs = some s) :
    s.Fresh := by
  refine Runs.invariant (I := Fresh) ?_ hrun ?_
  · intro s r s' h hstep
    obtain ⟨-, rfl⟩ := step_eq_some_iff.mp hstep
    exact fresh_round h config r
  · rintro snap hnone
    cases hnone

theorem round_sends (hfresh : s.Fresh) {defs : List (RouteDef W)}
    (hsent : .send (.services defs) ∈ (s.round config r : Watch × List (WatchEvent W)).2) :
    ∃ snap, s.Accepts r snap ∧ snap.Complete config r.catalog ∧
      processChecks config r.catalog snap.checks config.tagPrefix = .ok defs ∧
      (s.round config r : Watch × List (WatchEvent W)).1.lastIndex = snap.index := by
  have hout := s.outcome_round (W := W) config r
  have hquery := s.services_not_mem_query defs
  generalize (s.round config r : Watch × List (WatchEvent W)) = out at hsent hout ⊢
  cases hout with
  | failed message hsnap => simp [hquery] at hsent
  | unchanged hsnap heq =>
    rw [List.mem_append, or_iff_right hquery] at hsent
    split at hsent <;> simp at hsent
  | @published snap defs' hsnap hne hcomplete hdefs =>
    simp only [List.mem_append, hquery, List.mem_singleton, false_or] at hsent
    cases hsent
    exact ⟨snap, (hfresh.accepts_iff r snap).mpr ⟨hsnap, hne⟩, hcomplete, hdefs, rfl⟩
  | kept message hsnap hne hfails => simp [hquery] at hsent

theorem round_sends_of_index_ne (s : Watch)
    (hindex : (s.round config r : Watch × List (WatchEvent W)).1.lastIndex ≠ s.lastIndex) :
    ∃ defs, .send (.services defs) ∈ (s.round config r : Watch × List (WatchEvent W)).2 := by
  have hout := s.outcome_round (W := W) config r
  generalize (s.round config r : Watch × List (WatchEvent W)) = out at hindex hout ⊢
  cases hout with
  | failed message hsnap => exact absurd rfl hindex
  | unchanged hsnap heq => exact absurd rfl hindex
  | @published snap defs hsnap hne hcomplete hdefs => exact ⟨defs, by simp⟩
  | kept message hsnap hne hfails => exact absurd rfl hindex

/-- Every round of the watcher, in every run, publishes only a complete snapshot, moves the index
with it, and keeps a snapshot that it could not publish until it can. -/
theorem publishes_run {rs : List Round} {s' : Watch}
    (hrun : Runs.run (step W config) initial rs = some s) (hstep : step W config s r = some s') :
    Publishes config r s s' (s.round config r : Watch × List (WatchEvent W)).2 := by
  have hfresh := fresh_run hrun
  obtain ⟨hrunning, rfl⟩ := step_eq_some_iff.mp hstep
  constructor
  · intro defs hsent
    exact round_sends hfresh hsent
  · intro hindex
    obtain ⟨defs, hsent⟩ := s.round_sends_of_index_ne hindex
    obtain ⟨snap, haccepts, -, -, hsnap⟩ := round_sends hfresh hsent
    exact ⟨snap, defs, haccepts, hsnap, hsent⟩
  · intro snap haccepts hcomplete
    obtain ⟨hsnap, hne⟩ := (hfresh.accepts_iff r snap).mp haccepts
    obtain ⟨hfails, -⟩ | ⟨-, -, defs, -, hevents⟩ := round_new_cases (W := W) rfl hsnap hne
    · exact absurd hcomplete hfails
    · exact ⟨defs, by simp [hevents]⟩
  · intro snap haccepts hfails rs hrs
    obtain ⟨hsnap, hne⟩ := (hfresh.accepts_iff r snap).mp haccepts
    obtain ⟨-, hs', -⟩ | ⟨hcomplete, -⟩ := round_new_cases (W := W) rfl hsnap hne
    · have hkeeps : Keeps snap (s.round config r : Watch × List (WatchEvent W)).1 := by
        rw [hs']
        exact ⟨rfl, hne, hrunning⟩
      obtain ⟨t, ht, hkept, hquiet⟩ := hkeeps.run_incomplete (W := W) hrs
      exact ⟨t, ht, hquiet, fun q => hkept.round_complete⟩
    · exact absurd hcomplete hfails
  · intro snap hnone hhealth heq defs hsent
    obtain ⟨snap', haccepts, -⟩ := round_sends hfresh hsent
    obtain ⟨hsnap, hne⟩ := (hfresh.accepts_iff r snap').mp haccepts
    rw [snapshot, hnone, hhealth] at hsnap
    cases hsnap
    exact hne heq

abbrev parseWhole : ParseWeight ℚ := ⟨fun text => (Text.parseNat (2 ^ 64) text).map Nat.cast⟩

def webSnapshot : Snapshot :=
  ⟨[{ node := "n1", checkId := "service:web", status := "passing", serviceName := "web",
      serviceId := "web-1", serviceTags := ["urlprefix-/"] }], 7⟩

def webService : CatalogService :=
  { id := "web-1", node := "n1", address := "10.0.0.1", serviceAddress := ""
    servicePort := 80, serviceTags := ["urlprefix-/"] }

def webCatalog : Catalog := ⟨fun _ => .ok [webService], id, fun _ => .refl _⟩

def brokenCatalog : Catalog := ⟨fun _ => .error "timeout", id, fun _ => .refl _⟩

/-- The snapshot that meets a catalog out of order is published in the second round. -/
theorem publishes_run_secondRound :
    let _ := parseWhole
    let first : Round := ⟨.ok webSnapshot, brokenCatalog, true⟩
    let second : Round := ⟨.error "unreachable", webCatalog, true⟩
    ∃ s s', Runs.run (step ℚ {}) initial [first] = some s ∧ step ℚ {} s second = some s' ∧
      s.lastIndex = 0 ∧ s'.lastIndex = 7 ∧
      Publishes {} second s s' (s.round {} second : Watch × List (WatchEvent ℚ)).2 := by
  intro _ first second
  have h : (Runs.run (step ℚ {}) initial [first]).map (fun s =>
      (s.lastIndex, (step ℚ {} s second).map Watch.lastIndex)) = some (0, some 7) := by
    decide +kernel
  obtain ⟨s, hs, heq⟩ := Option.map_eq_some_iff.mp h
  obtain ⟨hfirst, hsecond⟩ := Prod.mk.injEq .. ▸ heq
  obtain ⟨s', hs', hindex⟩ := Option.map_eq_some_iff.mp hsecond
  exact ⟨s, s', hs, hs', hfirst, hindex, publishes_run hs hs'⟩

end Watch

end Consul

end SentirumLb
