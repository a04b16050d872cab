import SentirumLb.Lib.Atomic
import SentirumLb.Lib.Metering

/-! # Token buckets

A bucket counts in fixed point: a token is `scale` units. The rate and the
burst are atomics of their own, what is left and the time of the last refill
stand under one lock, and the section under it is one action. Multiplications
are those of `u64`, which wrap. Besides the clock, the state keeps the readings
and the outcomes of the sections that ran.
-/

namespace SentirumLb

namespace TokenBucket

/-- Fixed-point scaling factor: the units of one token. -/
def scale : ℕ := 1000000

def unconfigured : ℕ := 0

end TokenBucket

structure BucketState where
  /-- Available tokens, in units. -/
  tokens : ℕ
  lastRefillNs : ℕ
  deriving DecidableEq, Repr

structure TokenBucket where
  state : BucketState
  rate : ℕ
  burst : ℕ
  deriving DecidableEq, Repr

/-- A bucket, the clock it reads, and the outcomes of its critical sections with their readings. -/
structure ClockedBucket extends TokenBucket where
  nowNs : ℕ
  outcomes : List (ℕ × Bool)
  deriving DecidableEq, Repr

namespace BucketState

/-- An empty bucket is filled, and the clock of the first refill starts. -/
def fillEmpty (scaledBurst nowNs : ℕ) (s : BucketState) : BucketState where
  tokens := if s.tokens = 0 then scaledBurst else s.tokens
  lastRefillNs := if s.lastRefillNs = 0 then nowNs else s.lastRefillNs

/-- The product is computed in `u128` and truncated to `u64`; the sum saturates. -/
def refill (rate burst nowNs : ℕ) (s : BucketState) : BucketState :=
  let elapsedNs := nowNs - s.lastRefillNs
  if 0 < elapsedNs then
    { tokens := min (min (s.tokens + rate * elapsedNs / 10 ^ 9 % 2 ^ 64) (2 ^ 64 - 1)) burst
      lastRefillNs := nowNs }
  else s

def consume (s : BucketState) : BucketState × Bool :=
  if s.tokens < TokenBucket.scale then (s, false)
  else ({ s with tokens := s.tokens - TokenBucket.scale }, true)

end BucketState

namespace TokenBucket

def new : TokenBucket := ⟨⟨0, 0⟩, unconfigured, 0⟩

inductive Access where
  | rate
  | burst
  | state
  deriving DecidableEq, Repr

abbrev Method := Prog Access ClockedBucket

open Prog

def storeRate (rate : ℕ) : Method Unit := modify .rate fun s => { s with rate := rate }

def storeBurst (burst : ℕ) : Method Unit := modify .burst fun s => { s with burst := burst }

def loadRate : Method ℕ := load .rate (·.rate)

def loadBurst : Method ℕ := load .burst (·.burst)

/-- Rate 0 means unlimited. -/
def configure (rate burst : ℕ) : Method Unit := do
  if rate = 0 then
    storeRate unconfigured
    storeBurst 0
  else
    let scaledRate := rate * scale % 2 ^ 64
    let scaledBurst := max burst 1 * scale % 2 ^ 64
    storeRate scaledRate
    storeBurst scaledBurst
    modify .state fun s => { s with state := s.state.fillEmpty scaledBurst s.nowNs }

def refillAndConsume (rate burst : ℕ) : Method Bool :=
  let attempt (s : ClockedBucket) := (s.state.refill rate burst s.nowNs).consume
  modifyGet .state
    (fun s => { s with
      state := (attempt s).1
      outcomes := s.outcomes ++ [(s.nowNs, (attempt s).2)] })
    fun s => (attempt s).2

def tryAcquire : Method Bool := do
  let rate ← loadRate
  if rate = unconfigured then return true
  else
    let burst ← loadBurst
    refillAndConsume rate burst

def configuredRateBurst : Method (ℕ × ℕ) := do
  let rate ← loadRate
  if rate = unconfigured then return (0, 0)
  else
    let burst ← loadBurst
    return (rate / scale, burst / scale)

/-! ## One critical section -/

/-- The meter that a bucket with this rate and burst is, in units and nanoseconds. -/
def meter (rate burst : ℕ) : Meter :=
  .linear (max burst 1 * scale) scale (rate * scale) (10 ^ 9)

@[simp] theorem meter_cap (rate burst : ℕ) : (meter rate burst).cap = max burst 1 * scale := rfl

@[simp] theorem meter_paid (rate burst : ℕ) (granted : Bool) :
    (meter rate burst).paid granted = if granted then scale else 0 := rfl

@[simp] theorem meter_refill (rate burst d : ℕ) :
    (meter rate burst).refill d = rate * scale * d / 10 ^ 9 := rfl

end TokenBucket

namespace BucketState

open TokenBucket

variable {rate burst nowNs : ℕ} {s : BucketState}

theorem refill_last (h : s.lastRefillNs ≤ nowNs) :
    (s.refill rate burst nowNs).lastRefillNs = nowNs := by
  unfold refill
  dsimp only
  split
  · rfl
  · omega

theorem refill_tokens_le_burst (h : s.tokens ≤ burst) :
    (s.refill rate burst nowNs).tokens ≤ burst := by
  unfold refill
  dsimp only
  split
  · exact min_le_right _ _
  · exact h

theorem refill_tokens_le :
    (s.refill rate burst nowNs).tokens ≤
      s.tokens + rate * (nowNs - s.lastRefillNs) / 10 ^ 9 := by
  unfold refill
  dsimp only
  split
  · have hmod := Nat.mod_le (rate * (nowNs - s.lastRefillNs) / 10 ^ 9) (2 ^ 64)
    exact (min_le_left _ _).trans ((min_le_left _ _).trans (Nat.add_le_add_left hmod _))
  · exact Nat.le_add_right _ _

theorem consume_last : s.consume.1.lastRefillNs = s.lastRefillNs := by
  by_cases h : s.tokens < scale <;> simp [consume, h]

theorem consume_tokens : s.consume.1.tokens + (if s.consume.2 then scale else 0) = s.tokens := by
  by_cases h : s.tokens < scale
  · simp [consume, h]
  · simp only [consume, h, if_false, if_true]
    omega

/-- An attempt keeps the grants within what the meter allows. -/
theorem metered_attempt {log : List (ℕ × Bool)} (hlast : s.lastRefillNs ≤ nowNs)
    (h : (meter rate burst).Metered s.tokens s.lastRefillNs log) :
    let attempt := (s.refill (rate * scale) (max burst 1 * scale) nowNs).consume
    (meter rate burst).Metered attempt.1.tokens attempt.1.lastRefillNs
      (log ++ [(nowNs, attempt.2)]) := by
  intro attempt
  have hpaid : attempt.1.tokens + (meter rate burst).paid attempt.2 =
      (s.refill (rate * scale) (max burst 1 * scale) nowNs).tokens := by
    rw [meter_paid]
    exact consume_tokens
  have hcap := h.le_cap
  rw [meter_cap] at hcap
  rw [show attempt.1.lastRefillNs = nowNs from consume_last.trans (refill_last hlast)]
  refine h.take hlast ?_ ?_
  · rw [hpaid, meter_cap]
    exact refill_tokens_le_burst hcap
  · rw [hpaid, meter_refill]
    exact refill_tokens_le

end BucketState

namespace TokenBucket

open Prog

/-! ## Interleaved calls -/

inductive AcquireLabel where
  | call
  | run (i : ℕ)
  | tick (ns : ℕ)

/-- The calls on a bucket, and the results of those that returned, with the clock at the critical
section. -/
structure Acquires where
  calls : Pool Access ClockedBucket Bool
  returned : List (ℕ × Bool)

def acquireStep (s : Acquires) : AcquireLabel → Option Acquires
  | .call => (s.calls.step (.spawn tryAcquire)).map fun calls => { s with calls := calls }
  | .run i => (s.calls.step (.run i)).map fun calls =>
      ⟨calls, s.returned ++ (calls.result i).toList.map fun ok => (s.calls.shared.nowNs, ok)⟩
  | .tick ns => (s.calls.step (.env fun b => { b with nowNs := b.nowNs + ns })).map fun calls =>
      { s with calls := calls }

def configuredOnce (rate burst nowNs : ℕ) : Acquires :=
  ⟨⟨((configure rate burst).exec ⟨new, nowNs, []⟩).2, []⟩, []⟩

/-- The bucket is configured so, and has granted no more than its meter allows. -/
structure Conforms (rate burst : ℕ) (s : ClockedBucket) : Prop where
  rate_eq : s.rate = rate * scale
  burst_eq : s.burst = max burst 1 * scale
  last_le : s.state.lastRefillNs ≤ s.nowNs
  metered : (meter rate burst).Metered s.state.tokens s.state.lastRefillNs s.outcomes

/-- The factors of a scaled rate and burst that fit into a `u64`. -/
def Fits (rate burst : ℕ) : Prop := rate * scale < 2 ^ 64 ∧ max burst 1 * scale < 2 ^ 64

instance (rate burst : ℕ) : Decidable (Fits rate burst) := inferInstanceAs (Decidable (_ ∧ _))

variable {rate burst nowNs : ℕ}

theorem exec_configure (hrate : 0 < rate) (hfits : Fits rate burst) (s : ClockedBucket) :
    (configure rate burst).exec s = ((), { s with
      state := s.state.fillEmpty (max burst 1 * scale) s.nowNs
      rate := rate * scale
      burst := max burst 1 * scale }) := by
  simp only [configure, if_neg hrate.ne', Nat.mod_eq_of_lt hfits.1, Nat.mod_eq_of_lt hfits.2,
    storeRate, storeBurst, exec_bind, exec_modify]

theorem conforms_configure_new (hrate : 0 < rate) (hfits : Fits rate burst) (nowNs : ℕ) :
    Conforms rate burst ((configure rate burst).exec ⟨new, nowNs, []⟩).2 := by
  rw [exec_configure hrate hfits]
  exact ⟨rfl, rfl, le_rfl, Meter.metered_start le_rfl nowNs⟩

theorem Conforms.tick {s : ClockedBucket} (h : Conforms rate burst s) (ns : ℕ) :
    Conforms rate burst { s with nowNs := s.nowNs + ns } :=
  ⟨h.rate_eq, h.burst_eq, h.last_le.trans (Nat.le_add_right _ _), h.metered⟩

theorem Conforms.attempt {s : ClockedBucket} (h : Conforms rate burst s) :
    Conforms rate burst ((refillAndConsume (rate * scale) (max burst 1 * scale)).exec s).2 := by
  refine ⟨h.rate_eq, h.burst_eq, ?_, BucketState.metered_attempt h.last_le h.metered⟩
  exact (BucketState.consume_last.trans (BucketState.refill_last h.last_le)).le

/-- Every access of a call, whatever ran before it, keeps the bucket within its meter. -/
theorem sat_tryAcquire (rate burst : ℕ) :
    tryAcquire.Sat (fun _ s => Conforms rate burst s)
      (fun s s' => Conforms rate burst s → Conforms rate burst s') fun _ => True := by
  have hrate : (loadRate).Sat (fun _ s => Conforms rate burst s)
      (fun s s' => Conforms rate burst s → Conforms rate burst s') fun r => r = rate * scale :=
    sat_load (fun _ h => h) fun _ h => h.rate_eq
  refine sat_bind hrate ?_
  rintro r rfl
  split
  · trivial
  · have hburst : (loadBurst).Sat (fun _ s => Conforms rate burst s)
        (fun s s' => Conforms rate burst s → Conforms rate burst s')
        fun b => b = max burst 1 * scale :=
      sat_load (fun _ h => h) fun _ h => h.burst_eq
    refine sat_bind hburst ?_
    rintro b rfl
    exact sat_modifyGet (fun s _ h => h.attempt) fun _ _ => trivial

theorem Conforms.rate_ne {s : ClockedBucket} (h : Conforms rate burst s) (hrate : 0 < rate) :
    s.rate ≠ unconfigured := by
  rw [h.rate_eq]
  exact Nat.mul_ne_zero hrate.ne' (by decide)

/-- Each access of a call keeps the bucket within its meter, and an outcome is noted when the call
returns it. -/
def Reports (rate burst : ℕ) : Method Bool → Prop
  | .ret _ => True
  | .act _ upd next => ∀ s, Conforms rate burst s →
      Conforms rate burst (upd s) ∧
        (upd s).outcomes = s.outcomes ++ (next s).result.toList.map (fun ok => (s.nowNs, ok)) ∧
        Reports rate burst (next s)

theorem reports_refillAndConsume :
    Reports rate burst (refillAndConsume (rate * scale) (max burst 1 * scale)) := by
  intro s hs
  exact ⟨hs.attempt, rfl, trivial⟩

theorem reports_tryAcquire (hrate : 0 < rate) : Reports rate burst tryAcquire := by
  intro s hs
  have hnext : (if s.rate = unconfigured then pure true
      else loadBurst >>= fun b => refillAndConsume s.rate b) =
        (Prog.act .burst id fun b => refillAndConsume s.rate b.burst : Method Bool) :=
    if_neg (hs.rate_ne hrate)
  refine ⟨hs, ?_⟩
  change s.outcomes = s.outcomes ++ (Prog.result (if s.rate = unconfigured then pure true
      else loadBurst >>= fun b => refillAndConsume s.rate b)).toList.map _ ∧
    Reports rate burst (if s.rate = unconfigured then pure true
      else loadBurst >>= fun b => refillAndConsume s.rate b)
  rw [hnext, hs.rate_eq]
  refine ⟨(List.append_nil _).symm, fun b hb => ⟨hb, (List.append_nil _).symm, ?_⟩⟩
  dsimp only
  rw [hb.burst_eq]
  exact reports_refillAndConsume

structure Acquires.Ok (rate burst : ℕ) (s : Acquires) : Prop where
  conforms : Conforms rate burst s.calls.shared
  returned : s.returned = s.calls.shared.outcomes
  reports : ∀ t ∈ s.calls.threads, Reports rate burst t

theorem Acquires.Ok.step (hrate : 0 < rate) {s s' : Acquires} {l : AcquireLabel}
    (h : s.Ok rate burst) (hstep : acquireStep s l = some s') : s'.Ok rate burst := by
  cases l with
  | call =>
    cases hstep
    refine ⟨h.conforms, h.returned, fun t ht => ?_⟩
    rcases List.mem_append.mp ht with ht | ht
    · exact h.reports t ht
    · exact List.mem_singleton.mp ht ▸ reports_tryAcquire hrate
  | run i =>
    obtain ⟨calls, hcalls, rfl⟩ := Option.map_eq_some_iff.mp hstep
    obtain ⟨a, upd, next, hi, rfl⟩ := Pool.step_run_cases hcalls
    obtain ⟨hi', -⟩ := List.getElem?_eq_some_iff.mp hi
    obtain ⟨hconforms, houtcomes, hreports⟩ :=
      h.reports _ (List.mem_of_getElem? hi) _ h.conforms
    refine ⟨hconforms, ?_, fun t ht => ?_⟩
    · rw [Pool.result_set hi', h.returned, houtcomes]
    · rcases List.mem_or_eq_of_mem_set ht with ht | rfl
      · exact h.reports t ht
      · exact hreports
  | tick ns =>
    cases hstep
    exact ⟨h.conforms.tick ns, h.returned, h.reports⟩

theorem Acquires.ok_configuredOnce (hrate : 0 < rate) (hfits : Fits rate burst) (nowNs : ℕ) :
    (configuredOnce rate burst nowNs).Ok rate burst where
  conforms := conforms_configure_new hrate hfits nowNs
  returned := by
    rw [configuredOnce, exec_configure hrate hfits]
  reports t ht := absurd ht List.not_mem_nil

theorem Conforms.grants_le {s : ClockedBucket} (h : Conforms rate burst s) {a b : ℕ}
    (hab : a ≤ b) :
    Meter.grants a b s.outcomes * 10 ^ 9 ≤ max burst 1 * 10 ^ 9 + rate * (b - a) := by
  have hwindow := Meter.Metered.linear_window h.metered hab
  have hscale : 0 < scale := by decide
  refine Nat.le_of_mul_le_mul_left ?_ hscale
  calc scale * (Meter.grants a b s.outcomes * 10 ^ 9)
      = scale * Meter.grants a b s.outcomes * 10 ^ 9 := (Nat.mul_assoc _ _ _).symm
    _ ≤ max burst 1 * scale * 10 ^ 9 + rate * scale * (b - a) := hwindow
    _ = scale * (max burst 1 * 10 ^ 9 + rate * (b - a)) := by ring

/-! ## Calls that run alone -/

/-- Configuring a bucket that is not empty again keeps its tokens. -/
theorem Conforms.configure {s : ClockedBucket} (h : Conforms rate burst s) (hrate : 0 < rate)
    (hfits : Fits rate burst) (htokens : s.state.tokens ≠ 0) :
    Conforms rate burst ((configure rate burst).exec s).2 := by
  have hlast : s.state.lastRefillNs ≤
      (s.state.fillEmpty (max burst 1 * scale) s.nowNs).lastRefillNs ∧
      (s.state.fillEmpty (max burst 1 * scale) s.nowNs).lastRefillNs ≤ s.nowNs := by
    have hle := h.last_le
    unfold BucketState.fillEmpty
    dsimp only
    split <;> omega
  rw [exec_configure hrate hfits]
  refine ⟨rfl, rfl, hlast.2, ?_⟩
  have hkept : (s.state.fillEmpty (max burst 1 * scale) s.nowNs).tokens = s.state.tokens :=
    if_neg htokens
  rw [hkept]
  exact h.metered.skip hlast.1

theorem Conforms.tryAcquire {s : ClockedBucket} (h : Conforms rate burst s) :
    Conforms rate burst (tryAcquire.exec s).2 :=
  (sat_tryAcquire rate burst).exec_invariant (fun _ _ hs => hs) (fun _ _ hT hs => hT hs) h

theorem exec_tryAcquire {s : ClockedBucket} (h : s.rate ≠ unconfigured) :
    tryAcquire.exec s = (refillAndConsume s.rate s.burst).exec s := by
  rw [tryAcquire, loadRate, exec_bind, exec_load, exec_ite, if_neg h, loadBurst, exec_bind,
    exec_load]

theorem outcomes_tryAcquire {s : ClockedBucket} (h : s.rate ≠ unconfigured) :
    (tryAcquire.exec s).2.outcomes = s.outcomes ++ [(s.nowNs, (tryAcquire.exec s).1)] := by
  rw [exec_tryAcquire h]
  rfl

theorem exec_configuredRateBurst_state (s : ClockedBucket) :
    (configuredRateBurst.exec s).2 = s := by
  rw [TokenBucket.configuredRateBurst, loadRate, exec_bind, exec_load, exec_ite]
  split <;> rfl

theorem configuredRateBurst_eq {s : ClockedBucket} (hrate : 0 < rate) (h : s.rate = rate * scale)
    (hburst : s.burst = burst * scale) : (configuredRateBurst.exec s).1 = (rate, burst) := by
  have hscale : 0 < scale := by decide
  have hne : s.rate ≠ unconfigured := h ▸ Nat.mul_ne_zero hrate.ne' hscale.ne'
  rw [TokenBucket.configuredRateBurst, loadRate, exec_bind, exec_load, exec_ite, if_neg hne,
    loadBurst, exec_bind, exec_load, exec_pure, h, hburst, Nat.mul_div_left _ hscale,
    Nat.mul_div_left _ hscale]

theorem configuredRateBurst_configure (hrate : 0 < rate) (hfits : Fits rate burst)
    (s : ClockedBucket) :
    (configuredRateBurst.exec ((configure rate burst).exec s).2).1 = (rate, max burst 1) := by
  rw [exec_configure hrate hfits]
  exact configuredRateBurst_eq hrate rfl rfl

theorem Conforms.configuredRateBurst {s : ClockedBucket} (h : Conforms rate burst s)
    (hrate : 0 < rate) : (configuredRateBurst.exec s).1 = (rate, max burst 1) :=
  configuredRateBurst_eq hrate h.rate_eq h.burst_eq

/-! ## The bound -/

/-- In every interleaving of calls, the bucket holds at most its burst, and over every interval at
most its burst and what the rate gives of the calls return true. -/
theorem grants_le_of_run (hrate : 0 < rate) (hfits : Fits rate burst) {ls : List AcquireLabel}
    {s : Acquires} (hrun : Runs.run acquireStep (configuredOnce rate burst nowNs) ls = some s) :
    s.calls.shared.state.tokens ≤ max burst 1 * scale ∧
      ∀ a b, a ≤ b → Meter.grants a b s.returned * 10 ^ 9 ≤
        max burst 1 * 10 ^ 9 + rate * (b - a) := by
  have h : s.Ok rate burst := Runs.invariant (fun _ _ _ h hs => h.step hrate hs) hrun
    (Acquires.ok_configuredOnce hrate hfits nowNs)
  refine ⟨h.conforms.metered.le_cap, fun a b hab => ?_⟩
  rw [h.returned]
  exact h.conforms.grants_le hab

def contendedCalls : List AcquireLabel :=
  [.call, .call, .run 0, .run 1, .run 1, .run 0, .run 0, .run 1, .tick (10 ^ 9), .call,
    .run 2, .run 2, .run 2]

theorem grants_le_of_run_contendedCalls :
    ∃ s, Runs.run acquireStep (configuredOnce 1 0 5) contendedCalls = some s ∧
      s.returned = [(5, true), (5, false), (1000000005, true)] ∧
      s.calls.shared.state.tokens ≤ max 0 1 * scale ∧
      ∀ a b, a ≤ b → Meter.grants a b s.returned * 10 ^ 9 ≤
        max 0 1 * 10 ^ 9 + 1 * (b - a) := by
  have hlog : (Runs.run acquireStep (configuredOnce 1 0 5) contendedCalls).map
      (·.returned) = some [(5, true), (5, false), (1000000005, true)] := by
    decide +kernel
  obtain ⟨s, hs, hlog⟩ := Option.map_eq_some_iff.mp hlog
  exact ⟨s, hs, hlog, grants_le_of_run (by decide) (by decide) hs⟩

end TokenBucket

end SentirumLb
