import SentirumLb.Proxy.RateLimit

/-! # Drift of the refill

A call of `try_acquire` that finds time to have passed rounds the refill down
and moves the time of the last refill on, so the remainder is lost. Over calls
that the cap and the word size do not touch, what is lost is at most one unit
for each call.
-/

namespace SentirumLb

namespace BucketState

variable {rate burst nowNs : ℕ} {s : BucketState}

/-- A refill at this time is not cut short by the word size or by the burst. -/
def Unclipped (rate burst nowNs : ℕ) (s : BucketState) : Prop :=
  s.lastRefillNs < nowNs →
    s.tokens + rate * (nowNs - s.lastRefillNs) / 10 ^ 9 < 2 ^ 64 ∧
      s.tokens + rate * (nowNs - s.lastRefillNs) / 10 ^ 9 ≤ burst

instance : Decidable (s.Unclipped rate burst nowNs) := inferInstanceAs (Decidable (_ → _))

theorem Unclipped.refill_tokens (h : s.Unclipped rate burst nowNs) :
    (s.refill rate burst nowNs).tokens =
      s.tokens + rate * (nowNs - s.lastRefillNs) / 10 ^ 9 := by
  unfold refill
  dsimp only
  split
  · next hpos =>
    obtain ⟨hword, hburst⟩ := h (Nat.lt_of_sub_pos hpos)
    have hmod : rate * (nowNs - s.lastRefillNs) / 10 ^ 9 % 2 ^ 64 =
        rate * (nowNs - s.lastRefillNs) / 10 ^ 9 :=
      Nat.mod_eq_of_lt ((Nat.le_add_left _ _).trans_lt hword)
    have hsat : s.tokens + rate * (nowNs - s.lastRefillNs) / 10 ^ 9 ≤ 2 ^ 64 - 1 :=
      Nat.le_pred_of_lt hword
    rw [hmod]
    exact (congrArg (min · burst) (min_eq_left hsat)).trans (min_eq_left hburst)
  · next hpos => simp [Nat.eq_zero_of_not_pos hpos]

theorem refill_last_add :
    (s.refill rate burst nowNs).lastRefillNs = s.lastRefillNs + (nowNs - s.lastRefillNs) := by
  unfold refill
  dsimp only
  split
  · next hpos => exact (Nat.add_sub_of_le (Nat.lt_of_sub_pos hpos).le).symm
  · omega

end BucketState

namespace TokenBucket

def acquireAfter (s : ClockedBucket) (gapNs : ℕ) : Bool × ClockedBucket :=
  tryAcquire.exec { s with nowNs := s.nowNs + gapNs }

def acquires (s : ClockedBucket) : List ℕ → List Bool × ClockedBucket
  | [] => ([], s)
  | gapNs :: gaps =>
      let first := acquireAfter s gapNs
      let others := acquires first.2 gaps
      (first.1 :: others.1, others.2)

/-- No call finds a refill that overflows or goes over the burst. -/
def NeverCapped (s : ClockedBucket) : List ℕ → Prop
  | [] => True
  | gapNs :: gaps =>
      s.state.Unclipped s.rate s.burst (s.nowNs + gapNs) ∧ NeverCapped (acquireAfter s gapNs).2 gaps

instance decidableNeverCapped : ∀ (s : ClockedBucket) (gaps : List ℕ),
    Decidable (NeverCapped s gaps)
  | _, [] => .isTrue trivial
  | s, gapNs :: gaps =>
      have := decidableNeverCapped (acquireAfter s gapNs).2 gaps
      inferInstanceAs (Decidable (_ ∧ _))

def elapsedNs (s : ClockedBucket) (gaps : List ℕ) : ℕ :=
  if gaps = [] then 0 else s.nowNs + gaps.sum - s.state.lastRefillNs

def spans (s : ClockedBucket) : List ℕ → List ℕ
  | [] => []
  | gapNs :: gaps =>
      (s.nowNs + gapNs - s.state.lastRefillNs) :: spans (acquireAfter s gapNs).2 gaps

def meterOf (s : ClockedBucket) : Meter := .linear s.burst scale s.rate (10 ^ 9)

variable {s : ClockedBucket}

/-! ## One call -/

theorem acquireAfter_eq (h : s.rate ≠ unconfigured) (gapNs : ℕ) :
    acquireAfter s gapNs =
      let attempt := (s.state.refill s.rate s.burst (s.nowNs + gapNs)).consume
      (attempt.2, { s with
        nowNs := s.nowNs + gapNs
        state := attempt.1
        outcomes := s.outcomes ++ [(s.nowNs + gapNs, attempt.2)] }) :=
  exec_tryAcquire h

theorem acquireAfter_rate (h : s.rate ≠ unconfigured) (gapNs : ℕ) :
    (acquireAfter s gapNs).2.rate = s.rate := by
  rw [acquireAfter_eq h]

theorem meterOf_acquireAfter (h : s.rate ≠ unconfigured) (gapNs : ℕ) :
    meterOf (acquireAfter s gapNs).2 = meterOf s := by
  rw [acquireAfter_eq h]
  rfl

theorem acquireAfter_nowNs (h : s.rate ≠ unconfigured) (gapNs : ℕ) :
    (acquireAfter s gapNs).2.nowNs = s.nowNs + gapNs := by
  rw [acquireAfter_eq h]

theorem acquireAfter_last (h : s.rate ≠ unconfigured) (gapNs : ℕ) :
    (acquireAfter s gapNs).2.state.lastRefillNs =
      s.state.lastRefillNs + (s.nowNs + gapNs - s.state.lastRefillNs) := by
  rw [acquireAfter_eq h]
  exact BucketState.consume_last.trans BucketState.refill_last_add

theorem acquireAfter_tokens (h : s.rate ≠ unconfigured) {gapNs : ℕ}
    (hfree : s.state.Unclipped s.rate s.burst (s.nowNs + gapNs)) :
    (acquireAfter s gapNs).2.state.tokens + (if (acquireAfter s gapNs).1 then scale else 0) =
      s.state.tokens + (meterOf s).refill (s.nowNs + gapNs - s.state.lastRefillNs) := by
  rw [acquireAfter_eq h]
  exact BucketState.consume_tokens.trans hfree.refill_tokens

/-! ## Calls one after the other -/

theorem length_spans (s : ClockedBucket) (gaps : List ℕ) :
    (spans s gaps).length = gaps.length := by
  induction gaps generalizing s with
  | nil => rfl
  | cons gapNs gaps ih => rw [spans, List.length_cons, List.length_cons, ih]

theorem sum_spans (h : s.rate ≠ unconfigured) (gaps : List ℕ) :
    (spans s gaps).sum = elapsedNs s gaps := by
  induction gaps generalizing s with
  | nil => rfl
  | cons gapNs gaps ih =>
    have hrate : (acquireAfter s gapNs).2.rate ≠ unconfigured := by
      rw [acquireAfter_rate h]
      exact h
    rw [spans, List.sum_cons, ih hrate, elapsedNs, elapsedNs, acquireAfter_last h,
      acquireAfter_nowNs h, if_neg (List.cons_ne_nil gapNs gaps), List.sum_cons]
    split
    · next hnil => simp [hnil]
    · omega

/-- The tokens that are left and those that were granted are the ones at the start and the rounded
refills. -/
theorem acquires_tokens (h : s.rate ≠ unconfigured) {gaps : List ℕ} (hfree : NeverCapped s gaps) :
    (acquires s gaps).2.state.tokens + scale * (acquires s gaps).1.count true =
      s.state.tokens + (meterOf s).refills (spans s gaps) := by
  induction gaps generalizing s with
  | nil => rfl
  | cons gapNs gaps ih =>
    obtain ⟨hone, hrest⟩ := hfree
    have hrate : (acquireAfter s gapNs).2.rate ≠ unconfigured := by
      rw [acquireAfter_rate h]
      exact h
    have htail := ih hrate hrest
    have hhead := acquireAfter_tokens h hone
    rw [meterOf_acquireAfter h] at htail
    have hcount : scale * (acquires s (gapNs :: gaps)).1.count true =
        scale * (acquires (acquireAfter s gapNs).2 gaps).1.count true +
          (if (acquireAfter s gapNs).1 then scale else 0) := by
      rw [acquires, List.count_cons, Nat.mul_add]
      cases (acquireAfter s gapNs).1 <;> rfl
    calc (acquires (acquireAfter s gapNs).2 gaps).2.state.tokens +
          scale * (acquires s (gapNs :: gaps)).1.count true
        = (acquireAfter s gapNs).2.state.tokens + (if (acquireAfter s gapNs).1 then scale else 0) +
          (meterOf s).refills (spans (acquireAfter s gapNs).2 gaps) := by omega
      _ = s.state.tokens + (meterOf s).refills (spans s (gapNs :: gaps)) := by
        rw [hhead, spans, Meter.refills_cons, Nat.add_assoc]

/-- Over calls that nothing clips, the balance is what the elapsed time gives and the grants leave,
less at most one unit for each call. -/
theorem acquires_tokens_drift (s : ClockedBucket) (gaps : List ℕ) (hrate : s.rate ≠ unconfigured)
    (hfree : NeverCapped s gaps) :
    (s.state.tokens + s.rate * elapsedNs s gaps / 10 ^ 9 - gaps.length -
        scale * (acquires s gaps).1.count true : ℚ) ≤ (acquires s gaps).2.state.tokens ∧
      ((acquires s gaps).2.state.tokens : ℚ) ≤
        s.state.tokens + s.rate * elapsedNs s gaps / 10 ^ 9 -
          scale * (acquires s gaps).1.count true := by
  have hupper : ((meterOf s).refills (spans s gaps) : ℚ) ≤
      s.rate * elapsedNs s gaps / 10 ^ 9 := by
    rw [← sum_spans hrate]
    exact_mod_cast Meter.linear_refills_le_div (K := ℚ) (by decide) (spans s gaps)
  have hlower : (s.rate * elapsedNs s gaps / 10 ^ 9 : ℚ) ≤
      (meterOf s).refills (spans s gaps) + gaps.length := by
    rw [← sum_spans hrate, ← length_spans s gaps]
    exact_mod_cast Meter.div_le_linear_refills (K := ℚ) (by decide) (spans s gaps)
  have htokens : ((acquires s gaps).2.state.tokens + scale * (acquires s gaps).1.count true : ℚ) =
      s.state.tokens + (meterOf s).refills (spans s gaps) := by
    exact_mod_cast acquires_tokens hrate hfree
  constructor <;> linarith

def polled : ClockedBucket := (acquires ((configure 3 10).exec ⟨new, 5, []⟩).2 [0, 0]).2

theorem acquires_tokens_drift_polled :
    (acquires polled [111, 333333333, 1]).1 = [true, true, true] ∧
      elapsedNs polled [111, 333333333, 1] = 333333445 ∧
      (acquires polled [111, 333333333, 1]).2.state.tokens = 5999999 ∧
      (polled.state.tokens + polled.rate * elapsedNs polled [111, 333333333, 1] / 10 ^ 9 - 3 -
          scale * 3 : ℚ) ≤ 5999999 ∧
      (5999999 : ℚ) ≤
        polled.state.tokens + polled.rate * elapsedNs polled [111, 333333333, 1] / 10 ^ 9 -
          scale * 3 := by
  have hdrift := acquires_tokens_drift polled [111, 333333333, 1] (by decide +kernel)
    (by decide +kernel)
  have hgrants : (acquires polled [111, 333333333, 1]).1 = [true, true, true] := by decide +kernel
  have htokens : (acquires polled [111, 333333333, 1]).2.state.tokens = 5999999 := by
    decide +kernel
  rw [hgrants, htokens] at hdrift
  exact ⟨hgrants, by decide +kernel, htokens, hdrift⟩

end TokenBucket

end SentirumLb
