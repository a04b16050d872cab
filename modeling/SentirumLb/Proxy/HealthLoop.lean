import SentirumLb.Lib.Runs
import SentirumLb.Proxy.HealthCheck
import SentirumLb.Route.BreakerConfig
import SentirumLb.Route.RiseFall

/-! # The loop of the active health checks

A round reads the configuration, takes a snapshot of the published targets and
probes them, a few at a time. Meanwhile updates rebuild the table, traffic drives
the breakers and the configuration changes. What the loop leaves in the trackers
is compared with the log of what it has read and asked.
-/

namespace SentirumLb

deriving instance DecidableEq for HealthCheckConfig

variable {W : Type}

def ProbeEnv.result (env : ProbeEnv W) (config : HealthCheckConfig) (t : Target W) : ProbeResult :=
  if env.probe config t then .passed config.rise else .failed config.fall

theorem ProbeEnv.checkTarget_eq (env : ProbeEnv W) (config : HealthCheckConfig) (t : Target W)
    (tracker : TargetHealthTracker) : env.checkTarget config t tracker =
      ((env.result config t).isPassed, tracker.record (env.result config t)) := by
  unfold checkTarget result
  split <;> rfl

structure HealthRound (W : Type) where
  /-- The period of the ticker whose tick began the round. -/
  ticker : Duration
  late : Bool
  config : ProxyConfig
  published : List (Target W)
  asked : List (Target W × ProbeEnv W) := []

inductive HealthPhase (W : Type) where
  | checking
  | waiting
  | probing (round : HealthRound W) (inFlight queued : List (Target W))
  | stopped

structure HealthLoop (W : Type) where
  serving : Serving W
  config : ProxyConfig
  shutdown : Bool := false
  checker : HealthCheckConfig
  disabled : Bool
  tickerPeriod : Duration
  phase : HealthPhase W := .checking
  probesTotal : ℕ := 0
  probeFailuresTotal : ℕ := 0
  rounds : List (HealthRound W) := []

inductive HealthLabel (W : Type) where
  | serving (e : ServingLabel W)
  | configure (config : ProxyConfig)
  | shutdown
  | check
  | tick
  | notice
  | probed (i : ℕ) (env : ProbeEnv W)

def disabledGuard : Duration := .fromSecs 1

def maxProbeConcurrency : ℕ := 32

def HealthCheckConfig.disabled (config : HealthCheckConfig) : Bool := config.interval.isZero

def HealthCheckConfig.tickerPeriod (config : HealthCheckConfig) : Duration :=
  if config.disabled then disabledGuard else config.interval

def Serving.setTracker (s : Serving W) (tracker : Ref) (t : TargetHealthTracker) : Serving W :=
  { s with managed := { s.managed with heap := { s.managed.heap with
      trackers := Function.update s.managed.heap.trackers tracker t } } }

def Serving.tracker (s : Serving W) (r : Ref) : TargetHealthTracker := s.managed.heap.trackers r

namespace HealthRound

def checker (round : HealthRound W) : HealthCheckConfig := .fromProxyConfig round.config

def outcomes (round : HealthRound W) : List (Target W × ProbeResult) :=
  round.asked.map fun (t, env) => (t, env.result round.checker t)

def ask (t : Target W) (env : ProbeEnv W) (round : HealthRound W) : HealthRound W :=
  { round with asked := round.asked ++ [(t, env)] }

@[simp] theorem outcomes_ask (t : Target W) (env : ProbeEnv W) (round : HealthRound W) :
    (round.ask t env).outcomes = round.outcomes ++ [(t, env.result round.checker t)] := by
  simp [outcomes, ask, checker]

end HealthRound

namespace HealthPhase

def isProbing : HealthPhase W → Bool
  | probing .. => true
  | _ => false

def current : HealthPhase W → List (HealthRound W)
  | probing round _ _ => [round]
  | _ => []

/-- While the loop probes, the first of those who hold targets is the loop. -/
def allows (phase : HealthPhase W) : ServingLabel W → Bool
  | .drop 0 => !phase.isProbing
  | _ => true

end HealthPhase

namespace HealthLoop

def start (config : ProxyConfig) (serving : Serving W) : HealthLoop W where
  serving := serving
  config := config
  checker := .fromProxyConfig config
  disabled := (HealthCheckConfig.fromProxyConfig config).disabled
  tickerPeriod := (HealthCheckConfig.fromProxyConfig config).tickerPeriod

def endRound (round : HealthRound W) (s : HealthLoop W) : HealthLoop W :=
  { s with phase := .checking, rounds := s.rounds ++ [round] }

def begun (s : HealthLoop W) : HealthRound W where
  ticker := s.tickerPeriod
  late := s.shutdown
  config := s.config
  published := s.serving.managed.published

def setTicker (period : Duration) (s : HealthLoop W) : HealthLoop W :=
  if period ≠ s.tickerPeriod then { s with tickerPeriod := period } else s

def setDisabled (disabled : Bool) (s : HealthLoop W) : HealthLoop W :=
  if disabled ≠ s.disabled then { s with disabled := disabled } else s

def setChecker (config : HealthCheckConfig) (s : HealthLoop W) : HealthLoop W :=
  if config ≠ s.checker then { s with checker := config } else s

/-- The wait is over: the configuration is read again, and the targets if the checks are enabled. -/
def tick (s : HealthLoop W) : HealthLoop W :=
  let config := HealthCheckConfig.fromProxyConfig s.config
  let round := s.begun
  let s := (s.setTicker config.tickerPeriod).setDisabled config.disabled
  if s.disabled then s.endRound round
  else
    let s := s.setChecker config
    let targets := s.serving.managed.table.allTargets.map (·.val)
    if targets.isEmpty then s.endRound round
    else { s with
      serving := { s.serving with held := s.serving.managed.published :: s.serving.held }
      phase := .probing round (targets.take maxProbeConcurrency)
        (targets.drop maxProbeConcurrency) }

/-- A probe ends, and the next target takes its place. The snapshot is let go with the last. -/
def probed (t : Target W) (env : ProbeEnv W) (round : HealthRound W)
    (inFlight queued : List (Target W)) (s : HealthLoop W) : HealthLoop W :=
  let (passed, tracker) := env.checkTarget s.checker t (s.serving.tracker t.healthTracker)
  let round := round.ask t env
  let s := { s with
    serving := s.serving.setTracker t.healthTracker tracker
    probesTotal := s.probesTotal + 1
    probeFailuresTotal := s.probeFailuresTotal + if passed then 0 else 1 }
  if inFlight.isEmpty && queued.isEmpty then
    endRound round { s with serving := { s.serving with held := s.serving.held.tail } }
  else { s with phase := .probing round (inFlight ++ queued.take 1) (queued.drop 1) }

variable [Platform] [WeightArith W]

def step (s : HealthLoop W) : HealthLabel W → Option (HealthLoop W)
  | .serving e =>
      if s.phase.allows e then (s.serving.step e).map fun serving => { s with serving } else none
  | .configure config => some { s with config }
  | .shutdown => some { s with shutdown := true }
  | .check =>
      match s.phase with
      | .checking => some { s with phase := if s.shutdown then .stopped else .waiting }
      | _ => none
  | .tick =>
      match s.phase with
      | .waiting => some s.tick
      | _ => none
  | .notice =>
      match s.phase with
      | .waiting => if s.shutdown then some { s with phase := .stopped } else none
      | _ => none
  | .probed i env =>
      match s.phase with
      | .probing round inFlight queued =>
          inFlight[i]?.map fun t => s.probed t env round (inFlight.eraseIdx i) queued
      | _ => none

end HealthLoop

/-! ## Trackers and rebuilds -/

theorem Tracks.circuitBreaker {t : TargetHealthTracker} {r : HealthReference} (h : Tracks t r)
    (b : CircuitBreaker) : Tracks { t with circuitBreaker := b } r :=
  ⟨h.isHealthy_eq, h.failures_eq, h.successes_eq⟩

@[simp] theorem TargetHealthTracker.circuitBreaker_record (t : TargetHealthTracker)
    (p : ProbeResult) : (t.record p).circuitBreaker = t.circuitBreaker := by
  cases p with
  | passed rise =>
    unfold record recordHealthCheckSuccess
    dsimp only
    split <;> rfl
  | failed fall =>
    unfold record recordHealthCheckFailure
    dsimp only
    split <;> rfl

namespace Serving

variable {s s' : Serving W}

/-- What a step does to a tracker: traffic can reach its breaker, and one that was not given out can
be made. -/
inductive TrackerChange (s : Serving W) (r : Ref) : TargetHealthTracker → Prop where
  | breaker (b : CircuitBreaker) : TrackerChange s r { s.tracker r with circuitBreaker := b }
  | made (cbConfig : Option CircuitBreakerConfig) (h : s.managed.heap.next ≤ r) :
      TrackerChange s r (.new cbConfig)

theorem TrackerChange.same (s : Serving W) (r : Ref) : TrackerChange s r (s.tracker r) :=
  .breaker (s.tracker r).circuitBreaker

variable [Platform]

structure Numbered (s : Serving W) : Prop extends s.TrackersCurrent where
  table : s.managed.table.WellFormed
  others : ∀ t ∈ s.others, t.healthTracker < s.managed.heap.next

theorem Numbered.live (h : s.Numbered) : ∀ t ∈ s.live, t.healthTracker < s.managed.heap.next := by
  intro t ht
  rcases List.mem_append.mp ht with ht | ht
  · exact h.others t ht
  · exact h.numbered.lt _ _ (h.building t ht)

theorem numbered_new (cbConfig : Option CircuitBreakerConfig) (heap : Heap) :
    Numbered (new cbConfig heap : Serving W) := by
  have hnone : ∀ a : Arc (Target W), ¬(Table.new : Table W).HasTarget a := by
    rintro a ⟨host, rs, hl, -⟩
    simp [Table.new] at hl
  refine ⟨trackersCurrent_new cbConfig heap, ⟨Table.ok_new, ?_, ?_, ?_, ?_⟩, ?_⟩
  · intro h rs hl
    simp [new, ManagedRouteTable.new, Table.new] at hl
  · rintro a ⟨⟩
  · exact fun a ha => absurd ha (hnone a)
  · exact List.nodup_nil
  · intro t ht
    simp [Serving.others, new, ManagedRouteTable.new, ManagedRouteTable.published, Table.new,
      Table.targets, AssocMap.vals] at ht

theorem Numbered.record (h : s.Numbered) (r : Ref) (p : ProbeResult) :
    (s.setTracker r ((s.tracker r).record p)).Numbered := by
  refine ⟨⟨⟨h.ok.table, h.ok.rebuild⟩, h.numbered, fun url q hq => ?_, h.building, h.published⟩,
    h.table, h.others⟩
  change CircuitBreaker.Configured _
    (Function.update s.managed.heap.trackers r ((s.tracker r).record p) q).circuitBreaker
  by_cases hqr : q = r
  · subst hqr
    rw [Function.update_self, TargetHealthTracker.circuitBreaker_record]
    exact h.current url q hq
  · rw [Function.update_of_ne hqr]
    exact h.current url q hq

variable [WeightArith W]

theorem trackerChange_of_step (h : Step s s') (r : Ref) : TrackerChange s r (s'.tracker r) := by
  cases h with
  | start u hnone => cases u <;> exact .same s r
  | define registry table d ds hsome =>
    unfold tracker defineOne Builder.apply
    dsimp only
    split
    · change TrackerChange s r (Function.update s.managed.heap.trackers
        (s.managed.heap.next + 1) (.new s.managed.cbConfig) r)
      by_cases hr : r = s.managed.heap.next + 1
      · subst hr
        rw [Function.update_self]
        exact .made _ (Nat.le_succ _)
      · rw [Function.update_of_ne hr]
        exact .same s r
    · exact .same s r
  | publish registry table hsome => exact .same s r
  | hold held hsub => exact .same s r
  | traffic tracker nowMs o =>
    change TrackerChange s r (Function.update s.managed.heap.trackers tracker _ r)
    by_cases hr : r = tracker
    · subst hr
      rw [Function.update_self]
      exact .breaker _
    · rw [Function.update_of_ne hr]
      exact .same s r

theorem next_le_of_step (h : Step s s') : s.managed.heap.next ≤ s'.managed.heap.next := by
  cases h with
  | start u hnone => cases u <;> exact le_rfl
  | define registry table d ds hsome =>
    unfold defineOne Builder.apply
    dsimp only
    split
    · exact Nat.le_add_right _ 6
    · exact le_rfl
  | publish registry table hsome => exact le_rfl
  | hold held hsub => exact le_rfl
  | traffic tracker nowMs o => exact le_rfl

theorem Numbered.step (h : s.Numbered) (hs : Step s s') : s'.Numbered := by
  have hcurrent := h.toTrackersCurrent.step hs
  have hnext := next_le_of_step hs
  cases hs with
  | start u hnone =>
    cases u <;> exact ⟨hcurrent, h.table, h.others⟩
  | define registry table d ds hsome =>
    exact ⟨hcurrent, h.table, fun t ht => (h.others t ht).trans_le hnext⟩
  | publish registry table hsome =>
    refine ⟨hcurrent, Table.wellFormed_finalize (h.ok.rebuild _ hsome), fun t ht => h.live t ?_⟩
    exact live_publish_subset hsome registry (List.mem_append_left _ ht)
  | hold held hsub =>
    refine ⟨hcurrent, h.table, fun t ht => ?_⟩
    rcases List.mem_append.mp ht with ht | ht
    · exact h.others t (hsub ht)
    · exact h.others t (List.mem_append_right _ ht)
  | traffic tracker nowMs o => exact ⟨hcurrent, h.table, h.others⟩

end Serving

namespace HealthLoop

/-! ## What a step can be -/

variable {s s' : HealthLoop W}

def allRounds (s : HealthLoop W) : List (HealthRound W) := s.rounds ++ s.phase.current

theorem allRounds_of_not_probing (h : s.phase.isProbing = false) : s.allRounds = s.rounds := by
  cases hphase : s.phase with
  | probing round inFlight queued =>
    rw [hphase] at h
    cases h
  | _ => simp [allRounds, hphase, HealthPhase.current]

theorem setTicker_eq (period : Duration) (s : HealthLoop W) :
    s.setTicker period = { s with tickerPeriod := period } := by
  unfold setTicker
  split
  · rfl
  · next h => rw [not_not.mp h]

theorem setDisabled_eq (disabled : Bool) (s : HealthLoop W) :
    s.setDisabled disabled = { s with disabled := disabled } := by
  unfold setDisabled
  split
  · rfl
  · next h => rw [not_not.mp h]

theorem setChecker_eq (config : HealthCheckConfig) (s : HealthLoop W) :
    s.setChecker config = { s with checker := config } := by
  unfold setChecker
  split
  · rfl
  · next h => rw [not_not.mp h]

def targets (s : HealthLoop W) : List (Target W) :=
  s.serving.managed.table.allTargets.map (·.val)

theorem tick_eq (s : HealthLoop W) : s.tick =
    let config := s.begun.checker
    let next := { s with tickerPeriod := config.tickerPeriod, disabled := config.disabled }
    if config.disabled then next.endRound s.begun
    else if s.targets.isEmpty then endRound s.begun { next with checker := config }
    else { next with
      checker := config
      serving := { s.serving with held := s.serving.managed.published :: s.serving.held }
      phase := .probing s.begun (s.targets.take maxProbeConcurrency)
        (s.targets.drop maxProbeConcurrency) } := by
  unfold tick
  simp only [setTicker_eq, setDisabled_eq, setChecker_eq]
  rfl

@[simp] theorem allRounds_endRound (round : HealthRound W) (s : HealthLoop W) :
    (s.endRound round).allRounds = s.rounds ++ [round] := by
  simp [endRound, allRounds, HealthPhase.current]

@[simp] theorem tickerPeriod_endRound (round : HealthRound W) (s : HealthLoop W) :
    (s.endRound round).tickerPeriod = s.tickerPeriod := rfl

@[simp] theorem disabled_endRound (round : HealthRound W) (s : HealthLoop W) :
    (s.endRound round).disabled = s.disabled := rfl

@[simp] theorem serving_endRound (round : HealthRound W) (s : HealthLoop W) :
    (s.endRound round).serving = s.serving := rfl

structure Reads (s s' : HealthLoop W) : Prop where
  allRounds : s'.allRounds = s.allRounds ++ [s.begun]
  tickerPeriod : s'.tickerPeriod = s.begun.checker.tickerPeriod
  disabled : s'.disabled = s.begun.checker.disabled
  shutdown : s'.shutdown = s.shutdown
  probesTotal : s'.probesTotal = s.probesTotal
  probeFailuresTotal : s'.probeFailuresTotal = s.probeFailuresTotal
  managed : s'.serving.managed = s.serving.managed
  phase : s'.phase ≠ .waiting

theorem reads_tick (h : s.phase = .waiting) : s.Reads s.tick := by
  have hrounds : s.allRounds = s.rounds := allRounds_of_not_probing (by rw [h]; rfl)
  have hend : ∀ checker, s.Reads (endRound s.begun { s with
      tickerPeriod := s.begun.checker.tickerPeriod
      disabled := s.begun.checker.disabled
      checker := checker }) := by
    intro checker
    constructor
    · rw [allRounds_endRound, hrounds]
    · rw [tickerPeriod_endRound]
    · rw [disabled_endRound]
    · rfl
    · rfl
    · rfl
    · rfl
    · nofun
  rw [tick_eq]
  dsimp only
  split
  · exact hend s.checker
  · split
    · exact hend s.begun.checker
    · constructor
      · rw [hrounds]
        rfl
      · dsimp only
      · dsimp only
      · rfl
      · rfl
      · rfl
      · rfl
      · nofun

structure Counts (s : HealthLoop W) (t : Target W) (env : ProbeEnv W) (round : HealthRound W)
    (s' : HealthLoop W) : Prop where
  allRounds : s'.allRounds = s.rounds ++ [round.ask t env]
  tickerPeriod : s'.tickerPeriod = s.tickerPeriod
  disabled : s'.disabled = s.disabled
  shutdown : s'.shutdown = s.shutdown
  probesTotal : s'.probesTotal = s.probesTotal + 1
  probeFailuresTotal : s'.probeFailuresTotal =
    s.probeFailuresTotal + if (env.result s.checker t).isPassed then 0 else 1
  tracker : ∀ r, s'.serving.tracker r =
    if r = t.healthTracker then (s.serving.tracker r).record (env.result s.checker t)
    else s.serving.tracker r
  next : s'.serving.managed.heap.next = s.serving.managed.heap.next
  phase : s'.phase ≠ .waiting

theorem counts_probed (t : Target W) (env : ProbeEnv W) (round : HealthRound W)
    (inFlight queued : List (Target W)) (s : HealthLoop W) :
    s.Counts t env round (s.probed t env round inFlight queued) := by
  have htracker : ∀ r, (s.serving.setTracker t.healthTracker
      ((s.serving.tracker t.healthTracker).record (env.result s.checker t))).tracker r =
      if r = t.healthTracker then (s.serving.tracker r).record (env.result s.checker t)
      else s.serving.tracker r := by
    intro r
    change Function.update s.serving.managed.heap.trackers t.healthTracker _ r = _
    rw [Function.update_apply]
    split
    · next hr => rw [hr]
    · rfl
  unfold probed
  rw [ProbeEnv.checkTarget_eq]
  dsimp only
  split
  · exact ⟨allRounds_endRound _ _, rfl, rfl, rfl, rfl, rfl, htracker, rfl, nofun⟩
  · exact ⟨rfl, rfl, rfl, rfl, rfl, rfl, htracker, rfl, nofun⟩

variable [Platform] [WeightArith W]

inductive Change (s : HealthLoop W) : HealthLoop W → Prop where
  | serving (serving : Serving W) (h : Serving.Step s.serving serving) :
      Change s { s with serving }
  | outside (config : ProxyConfig) (shutdown : Bool) (h : s.shutdown = true → shutdown = true) :
      Change s { s with config, shutdown }
  | wait (h : s.phase = .checking) (hshutdown : s.shutdown = false) :
      Change s { s with phase := .waiting }
  | stop (h : s.phase.isProbing = false) : Change s { s with phase := .stopped }
  | tick (h : s.phase = .waiting) : Change s s.tick
  | probed (t : Target W) (env : ProbeEnv W) (round : HealthRound W)
      (inFlight rest queued : List (Target W)) (h : s.phase = .probing round inFlight queued)
      (hperm : inFlight.Perm (t :: rest)) : Change s (s.probed t env round rest queued)

theorem change_of_step {l : HealthLabel W} (h : s.step l = some s') : Change s s' := by
  cases l with
  | serving e =>
    simp only [step] at h
    split at h
    · obtain ⟨serving, hserving, rfl⟩ := Option.map_eq_some_iff.mp h
      exact .serving serving (Serving.step_cases hserving)
    · cases h
  | configure config =>
    cases h
    exact .outside config s.shutdown id
  | shutdown =>
    cases h
    exact .outside s.config true fun _ => rfl
  | check =>
    simp only [step] at h
    split at h
    · next hphase =>
      cases h
      split
      · exact .stop (by rw [hphase]; rfl)
      · next hshutdown => exact .wait hphase (Bool.not_eq_true _ ▸ hshutdown)
    · cases h
  | tick =>
    simp only [step] at h
    split at h
    · next hphase =>
      obtain rfl := Option.some.inj h
      exact .tick hphase
    · cases h
  | notice =>
    simp only [step] at h
    split at h
    · next hphase =>
      split at h
      · cases h
        exact .stop (by rw [hphase]; rfl)
      · cases h
    · cases h
  | probed i env =>
    simp only [step] at h
    split at h
    · next round inFlight queued hphase =>
      obtain ⟨t, ht, rfl⟩ := Option.map_eq_some_iff.mp h
      obtain ⟨hi, rfl⟩ := List.getElem?_eq_some_iff.mp ht
      exact .probed _ env round inFlight _ queued hphase
        (List.getElem_cons_eraseIdx_perm hi).symm
    · cases h

end HealthLoop

/-! ## Rounds -/

namespace HealthRound

/-- The targets stand for the published ones, with each URL once. -/
structure Covers (published ts : List (Target W)) : Prop where
  nodup : (ts.map (·.url)).Nodup
  subset : ts ⊆ published
  urls : ∀ t ∈ published, ∃ u ∈ ts, u.url = t.url

theorem Covers.perm {published ts us : List (Target W)} (h : Covers published ts)
    (hperm : ts.Perm us) : Covers published us where
  nodup := (hperm.map _).nodup_iff.mp h.nodup
  subset := fun _ hu => h.subset (hperm.mem_iff.mpr hu)
  urls t ht := by
    obtain ⟨u, hu, hurl⟩ := h.urls t ht
    exact ⟨u, hperm.mem_iff.mp hu, hurl⟩

/-- A round that was disabled asks nothing; with the pending targets any other one asks for every
published URL once. -/
structure Complete (round : HealthRound W) (pending : List (Target W)) : Prop where
  disabled : round.checker.disabled = true → round.asked = [] ∧ pending = []
  enabled : round.checker.disabled = false →
    Covers round.published (round.asked.map (·.1) ++ pending)

theorem Complete.ask {round : HealthRound W} {t : Target W} {pending rest : List (Target W)}
    (h : round.Complete pending) (hperm : pending.Perm (t :: rest)) (env : ProbeEnv W) :
    (round.ask t env).Complete rest where
  disabled hdisabled := by
    have hnil := (h.disabled hdisabled).2
    rw [hnil, List.nil_perm] at hperm
    cases hperm
  enabled henabled := by
    refine (h.enabled henabled).perm ((hperm.append_left _).trans ?_)
    simp [HealthRound.ask]

end HealthRound

theorem Table.WellFormed.covers [Platform] {t : Table W} (h : t.WellFormed) :
    HealthRound.Covers (t.targets.map (·.val)) (t.allTargets.map (·.val)) where
  nodup := by
    rw [List.map_map]
    exact h.allTargets_nodup
  subset u hu := by
    obtain ⟨a, ha, rfl⟩ := List.mem_map.mp hu
    exact List.mem_map_of_mem (Table.mem_targets_iff.mpr (h.allTargets_sub a ha))
  urls u hu := by
    obtain ⟨a, ha, rfl⟩ := List.mem_map.mp hu
    obtain ⟨b, hb, hurl⟩ := h.allTargets_urls a (Table.mem_targets_iff.mp ha)
    exact ⟨b.val, List.mem_map_of_mem hb, hurl⟩

namespace HealthLoop

variable {s s' : HealthLoop W}

/-- Every target of a round that is over was probed, and the others of the round that goes on are in
flight or queued. As many are in flight as can be. -/
structure Covered (s : HealthLoop W) : Prop where
  rounds : ∀ round ∈ s.rounds, round.Complete []
  probing : ∀ round inFlight queued, s.phase = .probing round inFlight queued →
    round.Complete (inFlight ++ queued) ∧ s.checker = round.checker ∧
      inFlight.length = min maxProbeConcurrency (inFlight ++ queued).length ∧ inFlight ≠ []

theorem Covered.of_phase (h : s.Covered) {phase : HealthPhase W}
    (hphase : phase.isProbing = false) : Covered { s with phase := phase } where
  rounds := h.rounds
  probing := by
    rintro round inFlight queued rfl
    cases hphase

theorem Covered.endRound (h : ∀ round ∈ s.rounds, round.Complete []) {round : HealthRound W}
    (hround : round.Complete []) : (s.endRound round).Covered where
  rounds r hr := by
    rcases List.mem_append.mp hr with hr | hr
    · exact h r hr
    · rw [List.mem_singleton.mp hr]
      exact hround
  probing := nofun

theorem Covered.probed (h : s.Covered) {t : Target W} {round : HealthRound W}
    {inFlight rest queued : List (Target W)} (hphase : s.phase = .probing round inFlight queued)
    (hperm : inFlight.Perm (t :: rest)) (env : ProbeEnv W) :
    (s.probed t env round rest queued).Covered := by
  obtain ⟨hcomplete, hchecker, hlength, -⟩ := h.probing round inFlight queued hphase
  have hask := hcomplete.ask (hperm.append_right queued) env
  unfold HealthLoop.probed
  rw [ProbeEnv.checkTarget_eq]
  dsimp only
  split
  · next hlast =>
    rw [Bool.and_eq_true, List.isEmpty_iff, List.isEmpty_iff] at hlast
    rw [hlast.1, hlast.2] at hask
    apply Covered.endRound
    · exact h.rounds
    · exact hask
  · next hmore =>
    refine ⟨h.rounds, ?_⟩
    rintro round' inFlight' queued' ⟨⟩
    have hsplit : (rest ++ queued.take 1) ++ queued.drop 1 = rest ++ queued := by
      rw [List.append_assoc, List.take_append_drop]
    rw [hsplit]
    refine ⟨hask, hchecker, ?_, ?_⟩
    · have hcount := hperm.length_eq
      simp only [List.length_append, List.length_cons, List.length_take] at hcount hlength ⊢
      omega
    · intro hnil
      rw [List.append_eq_nil_iff, List.take_eq_nil_iff] at hnil
      obtain ⟨rfl, hnil | rfl⟩ := hnil
      · cases hnil
      · exact hmore rfl

theorem Covered.mem_published (h : s.Covered) {round : HealthRound W} (hround : round ∈ s.allRounds)
    {p : Target W × ProbeEnv W} (hp : p ∈ round.asked) : p.1 ∈ round.published := by
  obtain ⟨pending, hcomplete⟩ : ∃ pending, round.Complete pending := by
    rcases List.mem_append.mp hround with hround | hround
    · exact ⟨[], h.rounds round hround⟩
    · cases hphase : s.phase with
      | probing current inFlight queued =>
        rw [hphase, HealthPhase.current, List.mem_singleton] at hround
        rw [hround]
        exact ⟨_, (h.probing current inFlight queued hphase).1⟩
      | _ =>
        rw [hphase] at hround
        cases hround
  cases hdisabled : round.checker.disabled with
  | true =>
    rw [(hcomplete.disabled hdisabled).1] at hp
    cases hp
  | false =>
    exact (hcomplete.enabled hdisabled).subset
      (List.mem_append_left _ (List.mem_map_of_mem hp))

/-! ## The log -/

def outcomes (s : HealthLoop W) : List (Target W × ProbeResult) :=
  s.allRounds.flatMap HealthRound.outcomes

def results (s : HealthLoop W) (r : Ref) : List ProbeResult :=
  (s.outcomes.filter fun p => p.1.healthTracker = r).map (·.2)

/-- The health that the results speak for. -/
def reference (s : HealthLoop W) (r : Ref) : HealthReference :=
  (s.results r).foldl HealthReference.step .start

def read (start : ProxyConfig) (s : HealthLoop W) : List HealthCheckConfig :=
  .fromProxyConfig start :: s.allRounds.map (·.checker)

theorem outcomes_of_reads (h : s.Reads s') : s'.outcomes = s.outcomes := by
  rw [outcomes, h.allRounds, List.flatMap_append]
  exact List.append_nil _

theorem outcomes_of_counts {t : Target W} {env : ProbeEnv W} {round : HealthRound W}
    {inFlight queued : List (Target W)} (hphase : s.phase = .probing round inFlight queued)
    (h : s.Counts t env round s') :
    s'.outcomes = s.outcomes ++ [(t, env.result round.checker t)] := by
  have hrounds : s.allRounds = s.rounds ++ [round] := by rw [allRounds, hphase]; rfl
  rw [outcomes, outcomes, h.allRounds, hrounds]
  simp

theorem reference_of_counts {t : Target W} {env : ProbeEnv W} {round : HealthRound W}
    {inFlight queued : List (Target W)} (hphase : s.phase = .probing round inFlight queued)
    (h : s.Counts t env round s') (r : Ref) :
    s'.reference r =
      if r = t.healthTracker then (s.reference r).step (env.result round.checker t)
      else s.reference r := by
  unfold reference results
  rw [outcomes_of_counts hphase h, List.filter_append]
  split
  · next hr => simp [hr]
  · next hr => simp [Ne.symm hr]

/-! ## The ticker, the counts and shutdown -/

structure Kept (start : ProxyConfig) (s : HealthLoop W) : Prop where
  /-- The ticker has the period that the configuration read last says, or that of the guard when
  the checks are disabled. -/
  tickers : s.allRounds.map (·.ticker) ++ [s.tickerPeriod] = (s.read start).map (·.tickerPeriod)
  disabled : ((s.read start).map (·.disabled)).getLast? = some s.disabled
  probesTotal : s.probesTotal = s.outcomes.length
  probeFailuresTotal : s.probeFailuresTotal = s.outcomes.countP fun p => !p.2.isPassed
  late : (s.allRounds.filter (·.late)).length ≤ 1
  shutdown : s.shutdown = false → s.allRounds.filter (·.late) = []
  waiting : s.phase = .waiting → s.allRounds.filter (·.late) = []

theorem kept_start (start : ProxyConfig) (serving : Serving W) :
    Kept start (HealthLoop.start start serving) where
  tickers := by simp [HealthLoop.start, read, allRounds, HealthPhase.current]
  disabled := by simp [HealthLoop.start, read, allRounds, HealthPhase.current]
  probesTotal := rfl
  probeFailuresTotal := rfl
  late := Nat.zero_le _
  shutdown _ := rfl
  waiting _ := rfl

variable {start : ProxyConfig}

theorem Kept.goto (h : s.Kept start) (hphase : s.phase.isProbing = false)
    {phase : HealthPhase W} (hnext : phase.isProbing = false)
    (hwait : phase = .waiting → s.shutdown = false) : Kept start { s with phase := phase } := by
  have hrounds : allRounds { s with phase := phase } = s.allRounds := by
    rw [allRounds_of_not_probing hphase]
    exact allRounds_of_not_probing hnext
  have houtcomes : outcomes { s with phase := phase } = s.outcomes := by
    rw [outcomes, outcomes, hrounds]
  have hread : read start { s with phase := phase } = s.read start := by rw [read, read, hrounds]
  constructor
  · rw [hrounds, hread]
    exact h.tickers
  · rw [hread]
    exact h.disabled
  · rw [houtcomes]
    exact h.probesTotal
  · rw [houtcomes]
    exact h.probeFailuresTotal
  · rw [hrounds]
    exact h.late
  · rw [hrounds]
    exact h.shutdown
  · rw [hrounds]
    exact fun hphase => h.shutdown (hwait hphase)

theorem Kept.reads (h : s.Kept start) (hphase : s.phase = .waiting) (hreads : s.Reads s') :
    s'.Kept start := by
  have hlate : s'.allRounds.filter (·.late) = [s.begun].filter (·.late) := by
    rw [hreads.allRounds, List.filter_append, h.waiting hphase, List.nil_append]
  have hread : s'.read start = s.read start ++ [s.begun.checker] := by
    simp [read, hreads.allRounds]
  constructor
  · rw [hreads.allRounds, hread, List.map_append, List.map_append, ← h.tickers, hreads.tickerPeriod]
    rfl
  · rw [hread, List.map_append, hreads.disabled, List.map_singleton, List.getLast?_concat]
  · rw [hreads.probesTotal, outcomes_of_reads hreads]
    exact h.probesTotal
  · rw [hreads.probeFailuresTotal, outcomes_of_reads hreads]
    exact h.probeFailuresTotal
  · rw [hlate]
    exact List.length_filter_le _ _
  · intro hshutdown
    rw [hreads.shutdown] at hshutdown
    rw [hlate]
    simp [begun, hshutdown]
  · exact fun hwaiting => absurd hwaiting hreads.phase

theorem Kept.counts (h : s.Kept start) {t : Target W} {env : ProbeEnv W} {round : HealthRound W}
    {inFlight queued : List (Target W)} (hphase : s.phase = .probing round inFlight queued)
    (hchecker : s.checker = round.checker) (hcounts : s.Counts t env round s') :
    s'.Kept start := by
  have hrounds : s.allRounds = s.rounds ++ [round] := by rw [allRounds, hphase]; rfl
  have hread : s'.read start = s.read start := by
    simp [read, hrounds, hcounts.allRounds, HealthRound.ask, HealthRound.checker]
  have hlate : (s'.allRounds.filter (·.late)).length = (s.allRounds.filter (·.late)).length := by
    simp only [hrounds, hcounts.allRounds, ← List.countP_eq_length_filter, List.countP_append]
    rfl
  constructor
  · have htickers : s'.allRounds.map (·.ticker) = s.allRounds.map (·.ticker) := by
      simp [hrounds, hcounts.allRounds, HealthRound.ask]
    rw [hread, htickers, hcounts.tickerPeriod]
    exact h.tickers
  · rw [hread, hcounts.disabled]
    exact h.disabled
  · rw [hcounts.probesTotal, outcomes_of_counts hphase hcounts, List.length_append, h.probesTotal]
    rfl
  · rw [hcounts.probeFailuresTotal, outcomes_of_counts hphase hcounts, List.countP_append,
      h.probeFailuresTotal, hchecker]
    cases hpassed : (env.result round.checker t).isPassed <;> simp [hpassed]
  · rw [hlate]
    exact h.late
  · intro hshutdown
    rw [hcounts.shutdown] at hshutdown
    rw [← List.length_eq_zero_iff, hlate, h.shutdown hshutdown]
    rfl
  · exact fun hwaiting => absurd hwaiting hcounts.phase

/-! ## The results and the trackers -/

variable [Platform]

theorem Covered.tick (h : s.Covered) (hnumbered : s.serving.Numbered) : s.tick.Covered := by
  have hcovers : HealthRound.Covers s.begun.published s.targets := hnumbered.table.covers
  rw [tick_eq]
  dsimp only
  split
  · next hdisabled =>
    apply Covered.endRound
    · exact h.rounds
    · exact ⟨fun _ => ⟨rfl, rfl⟩, fun henabled => absurd hdisabled (by rw [henabled]; decide)⟩
  · next henabled =>
    split
    · next hempty =>
      rw [List.isEmpty_iff.mp hempty] at hcovers
      apply Covered.endRound
      · exact h.rounds
      · exact ⟨fun _ => ⟨rfl, rfl⟩, fun _ => hcovers⟩
    · next hne =>
      refine ⟨h.rounds, ?_⟩
      rintro round inFlight queued ⟨⟩
      refine ⟨⟨fun hdisabled => absurd hdisabled henabled, fun _ => ?_⟩, rfl, ?_, ?_⟩
      · rw [List.take_append_drop]
        exact hcovers
      · rw [List.take_append_drop, List.length_take]
      · intro hnil
        rw [List.take_eq_nil_iff] at hnil
        rcases hnil with hnil | hnil
        · cases hnil
        · exact hne (List.isEmpty_iff.mpr hnil)

/-- The trackers are those that the results speak for, and were given out before their targets were
published. -/
structure Recorded (s : HealthLoop W) : Prop where
  numbered : s.serving.Numbered
  covered : s.Covered
  published : ∀ round ∈ s.allRounds, ∀ t ∈ round.published,
    t.healthTracker < s.serving.managed.heap.next
  tracks : ∀ r, Tracks (s.serving.tracker r) (s.reference r)

theorem Recorded.reference_of_le (h : s.Recorded) {r : Ref}
    (hr : s.serving.managed.heap.next ≤ r) : s.reference r = .start := by
  have hnone : s.outcomes.filter (fun p => p.1.healthTracker = r) = [] := by
    rw [List.filter_eq_nil_iff]
    rintro p hp heq
    obtain ⟨round, hround, hp⟩ := List.mem_flatMap.mp hp
    obtain ⟨q, hq, rfl⟩ := List.mem_map.mp hp
    have hlt := h.published round hround q.1 (h.covered.mem_published hround hq)
    exact absurd (of_decide_eq_true heq ▸ hlt) (Nat.not_lt.mpr hr)
  rw [reference, results, hnone]
  rfl

theorem Recorded.goto (h : s.Recorded) (hphase : s.phase.isProbing = false)
    {phase : HealthPhase W} (hnext : phase.isProbing = false) :
    Recorded { s with phase := phase } := by
  have hrounds : allRounds { s with phase := phase } = s.allRounds := by
    rw [allRounds_of_not_probing hphase]
    exact allRounds_of_not_probing hnext
  refine ⟨h.numbered, h.covered.of_phase hnext, ?_, ?_⟩
  · rw [hrounds]
    exact h.published
  · intro r
    have hsame : reference { s with phase := phase } r = s.reference r := by
      rw [reference, results, outcomes, hrounds]
      rfl
    rw [hsame]
    exact h.tracks r

theorem recorded_start (start : ProxyConfig) (cbConfig : Option CircuitBreakerConfig) :
    Recorded (HealthLoop.start start (.new cbConfig .empty) : HealthLoop W) where
  numbered := Serving.numbered_new cbConfig .empty
  covered := ⟨by rintro _ ⟨⟩, nofun⟩
  published := by rintro _ ⟨⟩
  tracks _ := tracks_start none

variable [WeightArith W]

theorem numbered_tick (h : s.serving.Numbered) : s.tick.serving.Numbered := by
  rw [tick_eq]
  dsimp only
  split
  · rw [serving_endRound]
    exact h
  · split
    · rw [serving_endRound]
      exact h
    · refine h.step (.hold (s.serving.managed.published :: s.serving.held) ?_)
      rw [List.flatten_cons]
      exact List.append_subset.mpr
        ⟨List.subset_append_right _ _, List.subset_append_left _ _⟩

theorem numbered_probed (h : s.serving.Numbered) (t : Target W) (env : ProbeEnv W)
    (round : HealthRound W) (inFlight queued : List (Target W)) :
    (s.probed t env round inFlight queued).serving.Numbered := by
  have hrecord := h.record t.healthTracker (env.result s.checker t)
  unfold probed
  rw [ProbeEnv.checkTarget_eq]
  dsimp only
  split
  · refine hrecord.step (.hold s.serving.held.tail fun u hu => ?_)
    obtain ⟨l, hl, hul⟩ := List.mem_flatten.mp hu
    exact List.mem_append_left _ (List.mem_flatten.mpr ⟨l, List.mem_of_mem_tail hl, hul⟩)
  · exact hrecord

theorem Recorded.serving (h : s.Recorded) {serving : Serving W}
    (hs : Serving.Step s.serving serving) : Recorded { s with serving } where
  numbered := h.numbered.step hs
  covered := ⟨h.covered.rounds, h.covered.probing⟩
  published round hround t ht :=
    (h.published round hround t ht).trans_le (Serving.next_le_of_step hs)
  tracks r := by
    change Tracks (serving.tracker r) (s.reference r)
    have hchange := Serving.trackerChange_of_step hs r
    generalize serving.tracker r = tracker at hchange ⊢
    cases hchange with
    | breaker b => exact (h.tracks r).circuitBreaker b
    | made cbConfig hr =>
      rw [h.reference_of_le hr]
      exact tracks_start cbConfig

theorem Recorded.tick (h : s.Recorded) (hphase : s.phase = .waiting) : s.tick.Recorded := by
  have hreads := reads_tick hphase
  refine ⟨numbered_tick h.numbered, h.covered.tick h.numbered, ?_, ?_⟩
  · rw [hreads.allRounds, hreads.managed]
    intro round hround t ht
    rcases List.mem_append.mp hround with hround | hround
    · exact h.published round hround t ht
    · rw [List.mem_singleton.mp hround] at ht
      exact h.numbered.others t (List.mem_append_right _ ht)
  · intro r
    have htracker : s.tick.serving.tracker r = s.serving.tracker r := by
      rw [Serving.tracker, hreads.managed]
      rfl
    rw [htracker, reference, results, outcomes_of_reads hreads]
    exact h.tracks r

theorem Recorded.probed (h : s.Recorded) {t : Target W} {round : HealthRound W}
    {inFlight rest queued : List (Target W)} (hphase : s.phase = .probing round inFlight queued)
    (hperm : inFlight.Perm (t :: rest)) (env : ProbeEnv W) :
    (s.probed t env round rest queued).Recorded := by
  have hcounts := counts_probed t env round rest queued s
  have hchecker := (h.covered.probing round inFlight queued hphase).2.1
  have hrounds : s.allRounds = s.rounds ++ [round] := by rw [allRounds, hphase]; rfl
  refine ⟨numbered_probed h.numbered t env round rest queued,
    h.covered.probed hphase hperm env, ?_, ?_⟩
  · rw [hcounts.allRounds, hcounts.next]
    intro r hr u hu
    rcases List.mem_append.mp hr with hr | hr
    · exact h.published r (hrounds ▸ List.mem_append_left _ hr) u hu
    · rw [List.mem_singleton.mp hr] at hu
      exact h.published round (hrounds ▸ List.mem_append_right _ (List.mem_singleton_self _)) u hu
  · intro r
    rw [hcounts.tracker, reference_of_counts hphase hcounts, hchecker]
    split
    · exact (h.tracks r).record _
    · exact h.tracks r

theorem Recorded.step (h : s.Recorded) (hs : s.Change s') : s'.Recorded := by
  cases hs with
  | serving serving hserving => exact h.serving hserving
  | outside config shutdown hshutdown =>
    exact ⟨h.numbered, ⟨h.covered.rounds, h.covered.probing⟩, h.published, h.tracks⟩
  | wait hphase hshutdown => exact h.goto (by rw [hphase]; rfl) rfl
  | stop hphase => exact h.goto hphase rfl
  | tick hphase => exact h.tick hphase
  | probed t env round inFlight rest queued hphase hperm => exact h.probed hphase hperm env

theorem Kept.step (h : s.Kept start) (hcovered : s.Covered) (hs : s.Change s') :
    s'.Kept start := by
  cases hs with
  | serving serving hserving =>
    exact ⟨h.tickers, h.disabled, h.probesTotal, h.probeFailuresTotal, h.late, h.shutdown,
      h.waiting⟩
  | outside config shutdown hshutdown =>
    refine ⟨h.tickers, h.disabled, h.probesTotal, h.probeFailuresTotal, h.late, fun hno => ?_,
      h.waiting⟩
    refine h.shutdown (Bool.eq_false_iff.mpr fun hyes => ?_)
    rw [hshutdown hyes] at hno
    cases hno
  | wait hphase hshutdown => exact h.goto (by rw [hphase]; rfl) rfl fun _ => hshutdown
  | stop hphase => exact h.goto hphase rfl nofun
  | tick hphase => exact h.reads hphase (reads_tick hphase)
  | probed t env round inFlight rest queued hphase hperm =>
    exact h.counts hphase (hcovered.probing round inFlight queued hphase).2.1
      (counts_probed t env round rest queued s)

/-! ## Runs -/

theorem recorded_run {cbConfig : Option CircuitBreakerConfig} {ls : List (HealthLabel W)}
    (hrun : Runs.run step (HealthLoop.start start (.new cbConfig .empty)) ls = some s) :
    s.Recorded ∧ s.Kept start :=
  Runs.invariant (I := fun s => s.Recorded ∧ s.Kept start)
    (fun _ _ _ h hs => ⟨h.1.step (change_of_step hs), h.2.step h.1.covered (change_of_step hs)⟩)
    hrun ⟨recorded_start start cbConfig, kept_start start _⟩

/-- However updates, traffic, changes of the configuration, shutdown and probes take turns: every
live target is as healthy as the results counted in its tracker say, each round that is over has
probed every URL that was published at its start once, or none if it was disabled, and the loop sets
its ticker and counts as the configurations it read tell it to. -/
theorem rounds_run (start : ProxyConfig) (cbConfig : Option CircuitBreakerConfig)
    (ls : List (HealthLabel W)) (s : HealthLoop W)
    (hrun : Runs.run step (HealthLoop.start start (.new cbConfig .empty)) ls = some s) :
    (∀ t ∈ s.serving.live, (s.serving.tracker t.healthTracker).isProbeHealthy =
      (s.reference t.healthTracker).healthy) ∧
    s.Covered ∧ s.Kept start := by
  obtain ⟨hrecorded, hkept⟩ := recorded_run hrun
  refine ⟨fun t _ => ?_, hrecorded.covered, hkept⟩
  exact (hrecorded.tracks t.healthTracker).isHealthy_eq

end HealthLoop

section Examples

attribute [local instance] Platform.plain

def unanswered : ProbeEnv ℚ where
  nowMs := 0
  resolution := ⟨DnsCache.new, [], []⟩
  answer := .addrs [⟨.v4 ⟨10, 0, 0, 1⟩, 80⟩]
  get _ _ _ _ := none
  connect _ _ := false

def probedConfig (interval : String) : ProxyConfig :=
  { healthCheckInterval := interval, healthCheckFall := 2 }

/-- Two rounds find a backend down, one of them while it is put under another service, and one round
in between is disabled. -/
def downLabels : List (HealthLabel ℚ) :=
  [.serving (.start (.loadStatic [exampleDef .static .add "svc" "http://10.0.0.1:80/"])),
    .serving .define, .serving .publish, .check, .tick, .probed 0 unanswered,
    .configure (probedConfig "0s"), .check, .tick, .configure (probedConfig "5s"), .check, .tick,
    .serving (.start (.loadStatic [exampleDef .static .add "other" "http://10.0.0.1:80/"])),
    .serving .define, .serving .publish, .probed 0 unanswered, .shutdown, .check]

theorem HealthLoop.rounds_run_downLabels :
    ∃ s : HealthLoop ℚ, Runs.run step (start (probedConfig "10s") (.new none .empty)) downLabels =
        some s ∧
      s.serving.live.map (fun t => (t.service, (s.serving.tracker t.healthTracker).isHealthy)) =
        [("other", false)] ∧
      s.allRounds.map (·.ticker) ++ [s.tickerPeriod] =
        [.fromSecs 10, .fromSecs 10, .fromSecs 1, .fromSecs 5] := by
  have hrun : (Runs.run step (start (probedConfig "10s") (.new none .empty)) downLabels).map
      (fun s => (s.serving.live.map fun t => (t.service, (s.reference t.healthTracker).healthy),
        (s.read (probedConfig "10s")).map (·.tickerPeriod))) =
      some ([("other", false)], [.fromSecs 10, .fromSecs 10, .fromSecs 1, .fromSecs 5]) := by
    decide +kernel
  obtain ⟨s, hs, he⟩ := Option.map_eq_some_iff.mp hrun
  obtain ⟨hhealthy, -, hkept⟩ := rounds_run _ _ _ s hs
  rw [Prod.mk.injEq] at he
  refine ⟨s, hs, ?_, hkept.tickers.trans he.2⟩
  rw [← he.1]
  refine List.map_congr_left fun t ht => ?_
  exact congrArg (t.service, ·) (hhealthy t ht)

end Examples

end SentirumLb
