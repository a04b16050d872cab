import SentirumLb.Admin.ConfigHandler
import SentirumLb.Breaker.FullWindow
import SentirumLb.Breaker.Sequential
import SentirumLb.Proxy.RateLimit
import SentirumLb.Route.DnsFreshness

/-! # Settings inside machine arithmetic

Breakers, buckets and the DNS cache multiply their settings in wrapping `u64`
arithmetic. Validation bounds the lifetimes of cached names and the error
threshold, and nothing else of what is multiplied. The products fit exactly
when the recovery timeout, the window and the rates stay below bounds that
nothing checks.
-/

namespace SentirumLb

/-- The breaker settings in force, which are the defaults when breakers are disabled. -/
def Config.breakerSettings (c : Config) : CircuitBreakerConfig :=
  (circuitBreakerConfigFromProxy c.proxy).getD {}

def LimitInUse (c : Config) (opts : Opts) (rate burst : ℕ) : Prop :=
  (rate = c.proxy.rateLimitPerTarget ∧ burst = c.proxy.rateLimitBurst) ∨
    Target.rateLimitOverride opts = some (rate, burst)

open CircuitBreaker in
/-- No product of a setting leaves `u64`, no window asks for more than a vector can hold, and what
is computed from the settings is what they say. -/
structure StaysInside (c : Config) (opts : Opts) : Prop where
  recovery : c.breakerSettings.recoveryTimeoutSecs * 1000 < 2 ^ 64
  buckets : ∀ rate burst, LimitInUse c opts rate burst → 0 < rate →
    TokenBucket.Fits rate burst
  decisions : ∀ nowMs ls p, Runs.run operationStep (idle c.breakerSettings nowMs) ls = some p →
    let pushed := pushOutcome true p.shared.toCircuitBreaker
    pushed.errorCount * 100 < 2 ^ 64 ∧
      pushed.window.length * pushed.errorThreshold.toNat < 2 ^ 64
  expiry : ∀ nowMs < 2 ^ 63, ∀ ttlSecs ∈ [c.proxy.dnsCacheTtl, c.proxy.dnsNegativeCacheTtl],
    nowMs + ttlSecs * 1000 < 2 ^ 64
  capacity : (withConfig c.breakerSettings).windowSize ≤ 2 ^ 63 - 1
  reported : ∀ rate burst, LimitInUse c opts rate burst → 0 < rate → ∀ s : ClockedBucket,
    (TokenBucket.configuredRateBurst.exec ((TokenBucket.configure rate burst).exec s).2).1 =
      (rate, max burst 1)
  longer : ∀ (s : ClockedBreaker) (secs : ℕ),
    s.recoveryTimeoutSecs = c.breakerSettings.recoveryTimeoutSecs →
    secs ≤ s.recoveryTimeoutSecs → (recoveryElapsed.exec s).1 = true →
    (recoveryElapsed.exec { s with recoveryTimeoutSecs := secs }).1 = true

/-- The largest recovery timeout, window and rate whose products fit. -/
def maxRecoverySecs : ℕ := 18446744073709551
def maxWindowSize : ℕ := 184467440737095516
def maxRate : ℕ := 18446744073709

structure WithinLimits (c : Config) (opts : Opts) : Prop where
  breaker : c.proxy.circuitBreakerEnabled = true →
    c.proxy.circuitBreakerRecoveryTimeout ≤ maxRecoverySecs ∧
      c.proxy.circuitBreakerWindowSize ≤ maxWindowSize
  rates : ∀ rate burst, LimitInUse c opts rate burst → 0 < rate →
    rate ≤ maxRate ∧ burst ≤ maxRate

variable {c : Config} {opts : Opts}

theorem fits_iff (rate burst : ℕ) :
    TokenBucket.Fits rate burst ↔ rate ≤ maxRate ∧ burst ≤ maxRate := by
  unfold TokenBucket.Fits TokenBucket.scale maxRate
  omega

theorem breakerSettings_recovery_iff :
    c.breakerSettings.recoveryTimeoutSecs * 1000 < 2 ^ 64 ↔
      (c.proxy.circuitBreakerEnabled = true →
        c.proxy.circuitBreakerRecoveryTimeout ≤ maxRecoverySecs) := by
  unfold Config.breakerSettings circuitBreakerConfigFromProxy maxRecoverySecs
  by_cases h : c.proxy.circuitBreakerEnabled = true
  · simp only [h, if_true, Option.getD_some, true_implies]
    omega
  · simp [h]

theorem breakerSettings_window_iff :
    c.breakerSettings.windowSize ≤ maxWindowSize ↔
      (c.proxy.circuitBreakerEnabled = true →
        c.proxy.circuitBreakerWindowSize ≤ maxWindowSize) := by
  unfold Config.breakerSettings circuitBreakerConfigFromProxy
  by_cases h : c.proxy.circuitBreakerEnabled = true
  · simp [h]
  · simp [h, maxWindowSize]

section Decisions

open CircuitBreaker

variable {config : CircuitBreakerConfig}

theorem decisions_of_window_le (hthreshold : config.errorThreshold ≤ 100)
    (hwindow : config.windowSize ≤ maxWindowSize) {nowMs : ℕ} {ls : List OperationLabel}
    {p : Calls} (hrun : Runs.run operationStep (idle config nowMs) ls = some p) :
    let pushed := pushOutcome true p.shared.toCircuitBreaker
    pushed.errorCount * 100 < 2 ^ 64 ∧
      pushed.window.length * pushed.errorThreshold.toNat < 2 ^ 64 := by
  intro pushed
  unfold maxWindowSize at hwindow
  have hrep := rep_of_run (by omega) hrun
  have hsize := hrep.windowSize
  obtain ⟨hlen, hcount⟩ := window_pushOutcome true (by omega) (by omega) hrep.window_le
    hrep.errorCount
  have herrors : pushed.errorCount ≤ pushed.window.length := hcount ▸ List.count_le_length
  have hlen' : pushed.window.length ≤ p.shared.windowSize := hlen
  have hpercent : pushed.errorThreshold.toNat ≤ 100 := by
    rw [(configured_pushOutcome true hrep.toConfigured).errorThreshold]
    exact hthreshold
  refine ⟨by omega, ?_⟩
  calc pushed.window.length * pushed.errorThreshold.toNat
      ≤ pushed.window.length * 100 := Nat.mul_le_mul_left _ hpercent
    _ < 2 ^ 64 := by omega

/-- A larger window can hold errors enough for the product to wrap. -/
theorem exists_decision_of_lt_window (hwindow : maxWindowSize < config.windowSize) (nowMs : ℕ) :
    ∃ ls p, Runs.run operationStep (idle config nowMs) ls = some p ∧
      2 ^ 64 ≤ (pushOutcome true p.shared.toCircuitBreaker).errorCount * 100 := by
  obtain ⟨n, hn⟩ : ∃ n, n = maxWindowSize := ⟨_, rfl⟩
  rw [← hn] at hwindow
  unfold maxWindowSize at hn
  have hsize : (withConfig config).windowSize = max config.windowSize 1 := rfl
  obtain ⟨ls, hls⟩ := run_readers (s := ⟨withConfig config, nowMs⟩) rfl n
  obtain ⟨p, hp, hpsize, hlen, hcount, -⟩ :=
    @run_pushes ⟨withConfig config, nowMs⟩ (List.replicate n pushError) n
      (fun i hi => by rw [List.getElem?_replicate, if_pos hi])
      (show n ≤ (withConfig config).windowSize by omega) rfl rfl (by omega)
  refine ⟨ls ++ (List.range n).map .run, p, ?_, ?_⟩
  · rw [Runs.run_append, idle, hls, Option.bind_some, hp]
  · have hpsize' : p.shared.windowSize = (withConfig config).windowSize := hpsize
    rw [pushOutcome_true_of_room (by omega)]
    simp only [hcount]
    omega

end Decisions

theorem recoveryElapsed_of_le {s : ClockedBreaker} {secs : ℕ}
    (hfits : s.recoveryTimeoutSecs * 1000 < 2 ^ 64) (hle : secs ≤ s.recoveryTimeoutSecs)
    (h : (CircuitBreaker.recoveryElapsed.exec s).1 = true) :
    (CircuitBreaker.recoveryElapsed.exec { s with recoveryTimeoutSecs := secs }).1 = true := by
  rw [CircuitBreaker.exec_recoveryElapsed, decide_eq_true_iff] at h ⊢
  unfold CircuitBreaker.Recovered at h ⊢
  rw [Nat.mod_eq_of_lt hfits] at h
  calc secs * 1000 % 2 ^ 64 ≤ secs * 1000 := Nat.mod_le _ _
    _ ≤ s.recoveryTimeoutSecs * 1000 := Nat.mul_le_mul_right _ hle
    _ ≤ s.nowMs - s.openedAtMs := h

section Accepted

variable [HeaderNames]

theorem breakerSettings_errorThreshold (h : c.validate = none) :
    c.breakerSettings.errorThreshold ≤ 100 := by
  have hthreshold := Config.errorThreshold_of_validate h
  unfold Config.breakerSettings circuitBreakerConfigFromProxy
  split
  · exact hthreshold
  · decide

/-- For an accepted configuration, everything stays inside the arithmetic exactly when the settings
that are multiplied are within their bounds. -/
theorem staysInside_iff (h : c.validate = none) (opts : Opts) :
    StaysInside c opts ↔ WithinLimits c opts := by
  constructor
  · intro hinside
    refine ⟨fun henabled => ?_, fun rate burst huse hrate => ?_⟩
    · refine ⟨breakerSettings_recovery_iff.mp hinside.recovery henabled, ?_⟩
      refine breakerSettings_window_iff.mp ?_ henabled
      by_contra hwindow
      obtain ⟨ls, p, hrun, hwraps⟩ := exists_decision_of_lt_window (not_le.mp hwindow) 0
      have hfits := (hinside.decisions 0 ls p hrun).1
      omega
    · exact (fits_iff rate burst).mp (hinside.buckets rate burst huse hrate)
  · intro hwithin
    have hrecovery := breakerSettings_recovery_iff.mpr fun he => (hwithin.breaker he).1
    have hwindow := breakerSettings_window_iff.mpr fun he => (hwithin.breaker he).2
    have hbuckets : ∀ rate burst, LimitInUse c opts rate burst → 0 < rate →
        TokenBucket.Fits rate burst := fun rate burst huse hrate =>
      (fits_iff rate burst).mpr (hwithin.rates rate burst huse hrate)
    constructor
    case recovery => exact hrecovery
    case buckets => exact hbuckets
    case decisions =>
      intro nowMs ls p hrun
      exact decisions_of_window_le (breakerSettings_errorThreshold h) hwindow hrun
    case expiry =>
      obtain ⟨httl, hnegative⟩ := Config.dnsTtls_of_validate h
      intro nowMs hnow ttlSecs httlSecs
      simp only [List.mem_cons, List.not_mem_nil, or_false] at httlSecs
      omega
    case capacity =>
      have hsize : (CircuitBreaker.withConfig c.breakerSettings).windowSize =
          max c.breakerSettings.windowSize 1 := rfl
      unfold maxWindowSize at hwindow
      omega
    case reported =>
      intro rate burst huse hrate s
      exact TokenBucket.configuredRateBurst_configure hrate (hbuckets rate burst huse hrate) s
    case longer =>
      intro s secs hs hle
      exact recoveryElapsed_of_le (hs ▸ hrecovery) hle

end Accepted

def patientConfig (secs : ℕ) : Config :=
  { sampleConfig with
    proxy := { sampleConfig.proxy with circuitBreakerRecoveryTimeout := secs } }

section

attribute [local instance] tokenNames

def tenASecond : Opts := AList.insert "burst" "50" (AList.insert "ratelimit" "10" ∅)

theorem staysInside_patientConfig :
    (patientConfig 3600).validate = none ∧ StaysInside (patientConfig 3600) tenASecond := by
  have hvalid : (patientConfig 3600).validate = none := by decide +kernel
  have hopts : Target.rateLimitOverride tenASecond = some (10, 50) := by decide +kernel
  refine ⟨hvalid, (staysInside_iff hvalid tenASecond).mpr ⟨fun _ => by decide, ?_⟩⟩
  rintro rate burst (⟨rfl, rfl⟩ | huse) hrate
  · exact absurd hrate (by decide)
  · rw [hopts] at huse
    cases huse
    decide

/-- A recovery timeout that is accepted, and whose milliseconds wrap to less than half a second. -/
theorem not_staysInside_patientConfig :
    (patientConfig 18446744073709552).validate = none ∧
      ¬StaysInside (patientConfig 18446744073709552) ∅ := by
  refine ⟨by decide +kernel, ?_⟩
  intro hinside
  have hfits := breakerSettings_recovery_iff.mp hinside.recovery rfl
  exact absurd hfits (by decide)

end

end SentirumLb
