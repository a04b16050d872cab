import SentirumLb.Proxy.RateLimit
import SentirumLb.Route.Target

/-! # The rate limit of a target

A target limits its requests by the options of its route, or by the global
setting when these name no rate. Targets that are rebuilt get the bucket of
their predecessors and configure it again; so does a call that finds the global
setting changed. Configuring fills a bucket that it finds empty, which is meant
for the first configuration and is wrong for any later one.
-/

namespace SentirumLb

namespace Target

open TokenBucket Prog

def preParseRateLimiter (opts : Opts) : Method Unit :=
  match rateLimitOverride opts with
  | some (rate, burst) => configure rate burst
  | none => pure ()

/-- Without an override, a bucket that reports another setting is configured first. -/
def tryAcquireRateLimit (opts : Opts) (globalRate globalBurst : ℕ) : Method Bool := do
  if rateLimitOverride opts = none then
    let current ← configuredRateBurst
    if current ≠ (globalRate, globalBurst) then configure globalRate globalBurst
  tryAcquire

/-! ## Calls and rebuilds -/

/-- The bucket that the targets share, and what the calls returned, with the times of the calls. -/
structure LimitedTarget where
  bucket : ClockedBucket
  returned : List (ℕ × Bool)

inductive LimitLabel where
  | call
  | rebuild
  | tick (ns : ℕ)

variable (opts : Opts) (globalRate globalBurst : ℕ)

def limitStep (s : LimitedTarget) : LimitLabel → Option LimitedTarget
  | .call =>
      let (granted, bucket) := (tryAcquireRateLimit opts globalRate globalBurst).exec s.bucket
      some ⟨bucket, s.returned ++ [(s.bucket.nowNs, granted)]⟩
  | .rebuild => some { s with bucket := ((preParseRateLimiter opts).exec s.bucket).2 }
  | .tick ns => some { s with bucket := { s.bucket with nowNs := s.bucket.nowNs + ns } }

def limitStart (nowNs : ℕ) : LimitedTarget :=
  ⟨((preParseRateLimiter opts).exec ⟨TokenBucket.new, nowNs, []⟩).2, []⟩

def limitPolicy : ℕ × ℕ := (rateLimitOverride opts).getD (globalRate, globalBurst)

/-- The step configures the bucket. -/
def Reconfigures (s : LimitedTarget) : LimitLabel → Prop
  | .call => rateLimitOverride opts = none ∧
      (configuredRateBurst.exec s.bucket).1 ≠ (globalRate, globalBurst)
  | .rebuild => rateLimitOverride opts ≠ none
  | .tick _ => False

/-- A step that configures the bucket anew does not find it empty. -/
def SparesEmpty (s : LimitedTarget) (l : LimitLabel) : Prop :=
  Reconfigures opts globalRate globalBurst s l →
    s.bucket.rate = unconfigured ∨ s.bucket.state.tokens ≠ 0

variable {opts globalRate globalBurst} {rate burst nowNs : ℕ}

theorem exec_tryAcquireRateLimit_of_not {s : LimitedTarget}
    (h : ¬Reconfigures opts globalRate globalBurst s .call) :
    (tryAcquireRateLimit opts globalRate globalBurst).exec s.bucket =
      tryAcquire.exec s.bucket := by
  have hstate := exec_configuredRateBurst_state s.bucket
  by_cases hopts : rateLimitOverride opts = none
  · have hsame : (configuredRateBurst.exec s.bucket).1 = (globalRate, globalBurst) :=
      not_not.mp fun hne => h ⟨hopts, hne⟩
    simp [tryAcquireRateLimit, hopts, hsame, hstate]
  · simp [tryAcquireRateLimit, hopts]

theorem exec_tryAcquireRateLimit {s : LimitedTarget}
    (h : Reconfigures opts globalRate globalBurst s .call) :
    (tryAcquireRateLimit opts globalRate globalBurst).exec s.bucket =
      tryAcquire.exec ((configure globalRate globalBurst).exec s.bucket).2 := by
  have hstate := exec_configuredRateBurst_state s.bucket
  simp [tryAcquireRateLimit, h.1, h.2, hstate]

/-- The shared bucket is still as new, which only the global setting allows, or it conforms to the
policy; what was returned is what its critical sections decided. -/
def Tracks (opts : Opts) (rate burst : ℕ) (s : LimitedTarget) : Prop :=
  s.returned = s.bucket.outcomes ∧
    (Conforms rate burst s.bucket ∨
      rateLimitOverride opts = none ∧ s.bucket = ⟨TokenBucket.new, s.bucket.nowNs, []⟩)

section Policy

variable (hpolicy : limitPolicy opts globalRate globalBurst = (rate, burst)) (hrate : 0 < rate)
  (hfits : Fits rate burst)

include hpolicy hrate hfits

theorem tracks_start (nowNs : ℕ) : Tracks opts rate burst (limitStart opts nowNs) := by
  unfold limitStart preParseRateLimiter
  cases hopts : rateLimitOverride opts with
  | none => exact ⟨rfl, Or.inr ⟨hopts, rfl⟩⟩
  | some o =>
    have ho : o = (rate, burst) := by simpa [limitPolicy, hopts] using hpolicy
    subst ho
    have hconforms := conforms_configure_new hrate hfits nowNs
    refine ⟨?_, Or.inl hconforms⟩
    dsimp only
    rw [exec_configure hrate hfits]

omit hpolicy hfits in
theorem tracks_tryAcquire {s : LimitedTarget} {b : ClockedBucket} (hb : Conforms rate burst b)
    (hnow : b.nowNs = s.bucket.nowNs) (hout : s.returned = b.outcomes) :
    Tracks opts rate burst
      ⟨(tryAcquire.exec b).2, s.returned ++ [(s.bucket.nowNs, (tryAcquire.exec b).1)]⟩ := by
  refine ⟨?_, Or.inl hb.tryAcquire⟩
  dsimp only
  rw [outcomes_tryAcquire (hb.rate_ne hrate), hout, hnow]

omit hpolicy in
theorem conforms_configure {s : LimitedTarget} (h : Tracks opts rate burst s)
    (hspares : s.bucket.rate = unconfigured ∨ s.bucket.state.tokens ≠ 0) :
    Conforms rate burst ((configure rate burst).exec s.bucket).2 := by
  rcases h.2 with hconforms | ⟨-, hnew⟩
  · exact hconforms.configure hrate hfits (hspares.resolve_left (hconforms.rate_ne hrate))
  · rw [hnew]
    exact conforms_configure_new hrate hfits _

theorem tracks_call {s s' : LimitedTarget} (h : Tracks opts rate burst s)
    (hspares : SparesEmpty opts globalRate globalBurst s .call)
    (hstep : limitStep opts globalRate globalBurst s .call = some s') :
    Tracks opts rate burst s' := by
  cases hstep
  by_cases hre : Reconfigures opts globalRate globalBurst s .call
  · have hglobal : (globalRate, globalBurst) = (rate, burst) := by
      simpa [limitPolicy, hre.1] using hpolicy
    cases hglobal
    have hb := conforms_configure hrate hfits h (hspares hre)
    rw [exec_tryAcquireRateLimit hre]
    refine tracks_tryAcquire hrate hb ?_ ?_
    · rw [exec_configure hrate hfits]
    · rw [exec_configure hrate hfits, h.1]
  · rw [exec_tryAcquireRateLimit_of_not hre]
    rcases h.2 with hconforms | ⟨hopts, hnew⟩
    · exact tracks_tryAcquire hrate hconforms rfl h.1
    · -- a new bucket reports a rate of zero, which the policy is not
      exfalso
      apply hre
      have hglobal : (globalRate, globalBurst) = (rate, burst) := by
        simpa [limitPolicy, hopts] using hpolicy
      cases hglobal
      refine ⟨hopts, ?_⟩
      rw [hnew]
      intro hreport
      exact hrate.ne (congrArg Prod.fst hreport)

theorem tracks_rebuild {s s' : LimitedTarget} (h : Tracks opts rate burst s)
    (hspares : SparesEmpty opts globalRate globalBurst s .rebuild)
    (hstep : limitStep opts globalRate globalBurst s .rebuild = some s') :
    Tracks opts rate burst s' := by
  cases hstep
  cases hopts : rateLimitOverride opts with
  | none => simpa only [preParseRateLimiter, hopts, exec_pure] using h
  | some o =>
    have ho : o = (rate, burst) := by simpa [limitPolicy, hopts] using hpolicy
    subst ho
    have hne : rateLimitOverride opts ≠ none := by simp [hopts]
    have hb := conforms_configure hrate hfits h (hspares hne)
    simp only [preParseRateLimiter, hopts]
    refine ⟨?_, Or.inl hb⟩
    dsimp only
    rw [exec_configure hrate hfits, h.1]

omit hpolicy hrate hfits in
theorem tracks_tick {s : LimitedTarget} (h : Tracks opts rate burst s) (ns : ℕ) :
    Tracks opts rate burst
      { s with bucket := { s.bucket with nowNs := s.bucket.nowNs + ns } } := by
  refine ⟨h.1, ?_⟩
  rcases h.2 with hconforms | ⟨hopts, hnew⟩
  · exact Or.inl (hconforms.tick ns)
  · right
    refine ⟨hopts, ?_⟩
    dsimp only
    rw [hnew]

end Policy

theorem Tracks.grants_le {s : LimitedTarget} (h : Tracks opts rate burst s) {a b : ℕ}
    (hab : a ≤ b) : Meter.grants a b s.returned * 10 ^ 9 ≤
      max burst 1 * 10 ^ 9 + rate * (b - a) := by
  rw [h.1]
  rcases h.2 with hconforms | ⟨-, hnew⟩
  · exact hconforms.grants_le hab
  · rw [hnew]
    simp [Meter.grants]

section Runs

variable (hpolicy : limitPolicy opts globalRate globalBurst = (rate, burst)) (hrate : 0 < rate)
  (hfits : Fits rate burst)

include hpolicy hrate hfits

theorem tracks_step {s s' : LimitedTarget} {l : LimitLabel} (h : Tracks opts rate burst s)
    (hspares : SparesEmpty opts globalRate globalBurst s l)
    (hstep : limitStep opts globalRate globalBurst s l = some s') : Tracks opts rate burst s' := by
  cases l with
  | call => exact tracks_call hpolicy hrate hfits h hspares hstep
  | rebuild => exact tracks_rebuild hpolicy hrate hfits h hspares hstep
  | tick ns =>
    cases hstep
    exact tracks_tick h ns

/-- In every run in which no step configures the bucket anew while it is empty, the calls that
return true in an interval are bounded by the burst and what the rate gives. -/
theorem grants_le_of_sparesEmpty {ls : List LimitLabel} {s : LimitedTarget}
    (hspares : Runs.Meets (limitStep opts globalRate globalBurst)
      (SparesEmpty opts globalRate globalBurst) (limitStart opts nowNs) ls)
    (hrun : Runs.run (limitStep opts globalRate globalBurst) (limitStart opts nowNs) ls =
      some s) {a b : ℕ} (hab : a ≤ b) :
    Meter.grants a b s.returned * 10 ^ 9 ≤ max burst 1 * 10 ^ 9 + rate * (b - a) := by
  have htracks := Runs.invariant_of_meets (I := Tracks opts rate burst)
    (fun s l s' h hs hstep => tracks_step hpolicy hrate hfits h hs hstep) hspares hrun
    (tracks_start hpolicy hrate hfits nowNs)
  exact htracks.grants_le hab

/-- Under the global setting with a burst of at least one the bucket is configured just once, so
the bound holds in every run. -/
theorem grants_le_of_global (hopts : rateLimitOverride opts = none) (hburst : 1 ≤ burst)
    {ls : List LimitLabel} {s : LimitedTarget}
    (hrun : Runs.run (limitStep opts globalRate globalBurst) (limitStart opts nowNs) ls =
      some s) {a b : ℕ} (hab : a ≤ b) :
    Meter.grants a b s.returned * 10 ^ 9 ≤ max burst 1 * 10 ^ 9 + rate * (b - a) := by
  have hglobal : (globalRate, globalBurst) = (rate, burst) := by
    simpa [limitPolicy, hopts] using hpolicy
  have hspares : ∀ s l, Tracks opts rate burst s → SparesEmpty opts globalRate globalBurst s l := by
    intro s l h hre
    rcases h.2 with hconforms | ⟨-, hnew⟩
    · exfalso
      cases l with
      | call =>
        apply hre.2
        rw [hconforms.configuredRateBurst hrate, hglobal, max_eq_left hburst]
      | rebuild => exact hre hopts
      | tick ns => exact hre
    · left
      rw [hnew]
      rfl
  have htracks := Runs.invariant (I := Tracks opts rate burst)
    (fun s l s' h hstep => tracks_step hpolicy hrate hfits h (hspares s l h) hstep) hrun
    (tracks_start hpolicy hrate hfits nowNs)
  exact htracks.grants_le hab

end Runs

def burstOfTwo : Opts := AList.insert "burst" "2" (AList.insert "ratelimit" "1" ∅)

instance (opts : Opts) (globalRate globalBurst : ℕ) (s : LimitedTarget) (l : LimitLabel) :
    Decidable (Reconfigures opts globalRate globalBurst s l) :=
  match l with
  | .call => inferInstanceAs (Decidable (_ ∧ _))
  | .rebuild => inferInstanceAs (Decidable (¬_))
  | .tick _ => inferInstanceAs (Decidable False)

instance (opts : Opts) (globalRate globalBurst : ℕ) (s : LimitedTarget) (l : LimitLabel) :
    Decidable (SparesEmpty opts globalRate globalBurst s l) :=
  inferInstanceAs (Decidable (_ → _))

/-- A rebuild between the two requests finds a token left. -/
theorem grants_le_of_sparesEmpty_burstOfTwo :
    ∃ s, Runs.run (limitStep burstOfTwo 0 100) (limitStart burstOfTwo 7)
        [.call, .rebuild, .call, .call, .tick (10 ^ 9)] = some s ∧
      s.returned = [(7, true), (7, true), (7, false)] ∧
      Meter.grants 7 7 s.returned * 10 ^ 9 ≤ max 2 1 * 10 ^ 9 + 1 * (7 - 7) := by
  have hlog : (Runs.run (limitStep burstOfTwo 0 100) (limitStart burstOfTwo 7)
      [.call, .rebuild, .call, .call, .tick (10 ^ 9)]).map (·.returned) =
      some [(7, true), (7, true), (7, false)] := by decide +kernel
  obtain ⟨s, hs, hlog⟩ := Option.map_eq_some_iff.mp hlog
  exact ⟨s, hs, hlog, grants_le_of_sparesEmpty (by decide +kernel) (by decide) (by decide)
    (by decide +kernel) hs le_rfl⟩

/-- Each rebuild after a burst grants another burst, at the same time. -/
theorem not_grants_le_of_rebuilds :
    ∃ s, Runs.run (limitStep burstOfTwo 0 100) (limitStart burstOfTwo 7)
        [.call, .call, .rebuild, .call, .call] = some s ∧
      ¬Meter.grants 7 7 s.returned * 10 ^ 9 ≤ max 2 1 * 10 ^ 9 + 1 * (7 - 7) := by
  have hlog : (Runs.run (limitStep burstOfTwo 0 100) (limitStart burstOfTwo 7)
      [.call, .call, .rebuild, .call, .call]).map (·.returned) =
      some [(7, true), (7, true), (7, true), (7, true)] := by decide +kernel
  obtain ⟨s, hs, hlog⟩ := Option.map_eq_some_iff.mp hlog
  refine ⟨s, hs, ?_⟩
  rw [hlog]
  decide

/-- With a global burst of zero every call fills the bucket first. -/
theorem not_grants_le_of_burst_zero :
    ∃ s, Runs.run (limitStep ∅ 1 0) (limitStart ∅ 7) [.call, .call, .call] = some s ∧
      ¬Meter.grants 7 7 s.returned * 10 ^ 9 ≤ max 0 1 * 10 ^ 9 + 1 * (7 - 7) := by
  have hlog : (Runs.run (limitStep ∅ 1 0) (limitStart ∅ 7) [.call, .call, .call]).map
      (·.returned) = some [(7, true), (7, true), (7, true)] := by decide +kernel
  obtain ⟨s, hs, hlog⟩ := Option.map_eq_some_iff.mp hlog
  refine ⟨s, hs, ?_⟩
  rw [hlog]
  decide

end Target

end SentirumLb
