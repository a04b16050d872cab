import SentirumLb.Route.TargetStats

/-! # Rise and fall

A tracker keeps two counts and resets each on other branches than it increments
it on. The reference machine keeps no count: it keeps the results since its
state last changed, and measures the run of equal results that these end with.
-/

namespace SentirumLb

/-- The result of a probe, with the threshold in force at that time. -/
inductive ProbeResult where
  | passed (rise : ℕ)
  | failed (fall : ℕ)

namespace ProbeResult

def isPassed : ProbeResult → Bool
  | passed _ => true
  | failed _ => false

def threshold : ProbeResult → ℕ
  | passed rise => rise
  | failed fall => fall

end ProbeResult

def TargetHealthTracker.record (t : TargetHealthTracker) : ProbeResult → TargetHealthTracker
  | .passed rise => t.recordHealthCheckSuccess rise
  | .failed fall => t.recordHealthCheckFailure fall

def streak (passed : Bool) (results : List Bool) : ℕ := (results.rtakeWhile (· == passed)).length

@[simp] theorem streak_nil (passed : Bool) : streak passed [] = 0 := rfl

@[simp] theorem streak_concat_self (passed : Bool) (results : List Bool) :
    streak passed (results ++ [passed]) = streak passed results + 1 := by
  simp [streak]

@[simp] theorem streak_concat_not (passed : Bool) (results : List Bool) :
    streak passed (results ++ [!passed]) = 0 := by
  simp [streak]

/-- Whether a target is healthy, and the results since that last changed. -/
structure HealthReference where
  healthy : Bool
  since : List Bool

namespace HealthReference

/-- A target is healthy at first. -/
def start : HealthReference := ⟨true, []⟩

/-- The state changes on a result that speaks against it, once the run of such results that it ends
is as long as the threshold of this call. -/
def step (r : HealthReference) (p : ProbeResult) : HealthReference :=
  if p.isPassed ≠ r.healthy ∧ p.threshold ≤ streak p.isPassed (r.since ++ [p.isPassed]) then
    ⟨p.isPassed, []⟩
  else ⟨r.healthy, r.since ++ [p.isPassed]⟩

end HealthReference

/-- The count that can change the state is the run of results against it. -/
structure Tracks (t : TargetHealthTracker) (r : HealthReference) : Prop where
  isHealthy_eq : t.isHealthy = r.healthy
  failures_eq : r.healthy = true → t.consecutiveFailures = streak false r.since
  successes_eq : r.healthy = false → t.consecutiveSuccesses = streak true r.since

theorem tracks_start (cbConfig : Option CircuitBreakerConfig) :
    Tracks (.new cbConfig) .start := ⟨rfl, fun _ => rfl, nofun⟩

theorem Tracks.passed {t : TargetHealthTracker} {r : HealthReference} (h : Tracks t r) (rise : ℕ) :
    Tracks (t.recordHealthCheckSuccess rise) (r.step (.passed rise)) := by
  obtain ⟨hhealthy, hfailures, hsuccesses⟩ := h
  unfold TargetHealthTracker.recordHealthCheckSuccess HealthReference.step
  cases hr : r.healthy with
  | true =>
    rw [hhealthy, hr, if_pos rfl, if_neg (by simp [ProbeResult.isPassed])]
    exact ⟨rfl, fun _ => (streak_concat_not false r.since).symm, nofun⟩
  | false =>
    rw [hhealthy, hr, if_neg Bool.false_ne_true]
    simp only [ProbeResult.isPassed, ProbeResult.threshold, streak_concat_self, ← hsuccesses hr]
    split
    · next hrise => exact ⟨by simpa using hrise, fun _ => rfl, nofun⟩
    · next hno =>
      refine ⟨by simpa using hno, nofun, fun _ => ?_⟩
      rw [streak_concat_self, ← hsuccesses hr]

theorem Tracks.failed {t : TargetHealthTracker} {r : HealthReference} (h : Tracks t r) (fall : ℕ) :
    Tracks (t.recordHealthCheckFailure fall) (r.step (.failed fall)) := by
  obtain ⟨hhealthy, hfailures, hsuccesses⟩ := h
  unfold TargetHealthTracker.recordHealthCheckFailure HealthReference.step
  cases hr : r.healthy with
  | false =>
    rw [hhealthy, hr, if_pos (by decide), if_neg (by simp [ProbeResult.isPassed])]
    exact ⟨rfl, nofun, fun _ => (streak_concat_not true r.since).symm⟩
  | true =>
    rw [hhealthy, hr, if_neg (by decide)]
    simp only [ProbeResult.isPassed, ProbeResult.threshold, streak_concat_self, ← hfailures hr]
    split
    · next hfall => exact ⟨by simpa using hfall, nofun, fun _ => rfl⟩
    · next hno =>
      refine ⟨by simpa using hno, fun _ => ?_, nofun⟩
      rw [streak_concat_self, ← hfailures hr]

theorem Tracks.record {t : TargetHealthTracker} {r : HealthReference} (h : Tracks t r)
    (p : ProbeResult) : Tracks (t.record p) (r.step p) := by
  cases p with
  | passed rise => exact h.passed rise
  | failed fall => exact h.failed fall

theorem Tracks.foldl {t : TargetHealthTracker} {r : HealthReference} (h : Tracks t r)
    (results : List ProbeResult) :
    Tracks (results.foldl TargetHealthTracker.record t) (results.foldl HealthReference.step r) := by
  induction results generalizing t r with
  | nil => exact h
  | cons p results ih => exact ih (h.record p)

/-- After any results, with thresholds that change from call to call, a target is healthy just when
the reference machine says so. -/
theorem isProbeHealthy_eq_reference (cbConfig : Option CircuitBreakerConfig)
    (results : List ProbeResult) :
    (results.foldl TargetHealthTracker.record (.new cbConfig)).isProbeHealthy =
      (results.foldl HealthReference.step .start).healthy :=
  ((tracks_start cbConfig).foldl results).isHealthy_eq

structure TargetHealthTracker.Fits (t : TargetHealthTracker) : Prop where
  failures_lt : t.isHealthy = true → t.consecutiveFailures + 1 < 2 ^ 64
  successes_lt : t.isHealthy = false → t.consecutiveSuccesses + 1 < 2 ^ 64

/-- No count wraps: one that stays is less than the threshold, which is a `usize`. -/
theorem TargetHealthTracker.fits_record {t : TargetHealthTracker} {p : ProbeResult}
    (hp : p.threshold < 2 ^ 64) : (t.record p).Fits := by
  have hone : 0 + 1 < 2 ^ 64 := by decide
  cases p with
  | passed rise =>
    unfold TargetHealthTracker.record recordHealthCheckSuccess
    dsimp only
    split
    · next hhealthy =>
      exact ⟨fun _ => hone, fun hno => absurd (hhealthy.symm.trans hno) (by decide)⟩
    · refine ⟨fun _ => hone, fun hno => ?_⟩
      have hlt : t.consecutiveSuccesses + 1 < rise := by simpa using hno
      exact (Nat.succ_le_of_lt hlt).trans_lt hp
  | failed fall =>
    unfold TargetHealthTracker.record recordHealthCheckFailure
    dsimp only
    split
    · next hno =>
      rw [Bool.not_eq_true'] at hno
      exact ⟨fun hhealthy => absurd (hno.symm.trans hhealthy) (by decide), fun _ => hone⟩
    · refine ⟨fun hhealthy => ?_, fun _ => hone⟩
      have hlt : t.consecutiveFailures + 1 < fall := by simpa using hhealthy
      exact (Nat.succ_le_of_lt hlt).trans_lt hp

theorem fits_foldl (cbConfig : Option CircuitBreakerConfig) {results : List ProbeResult}
    (hresults : ∀ p ∈ results, p.threshold < 2 ^ 64) :
    (results.foldl TargetHealthTracker.record (.new cbConfig)).Fits := by
  induction results using List.reverseRecOn with
  | nil => exact ⟨fun _ => (by decide : 0 + 1 < 2 ^ 64), nofun⟩
  | append_singleton results p _ =>
    rw [List.foldl_append]
    exact TargetHealthTracker.fits_record (hresults p (by simp))

example : ([.failed 2, .failed 2, .passed 1, .failed 2].foldl HealthReference.step
    .start).healthy = true := by decide

end SentirumLb
