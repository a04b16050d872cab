import SentirumLb.Lib.Histogram
import SentirumLb.Lib.Text

/-! # Request metrics

Every request is counted by its status and by its latency. The latency buckets
are disjoint counters, and the exported ones are their sums. The status counters
have no place for an informational status: whatever is not counted elsewhere is
counted as a server error.
-/

namespace SentirumLb

/-- The latency buckets, which are disjoint. -/
structure LatencyBuckets where
  latencyBucket1ms : UInt64 := 0
  latencyBucket5ms : UInt64 := 0
  latencyBucket10ms : UInt64 := 0
  latencyBucket25ms : UInt64 := 0
  latencyBucket50ms : UInt64 := 0
  latencyBucket100ms : UInt64 := 0
  latencyBucket250ms : UInt64 := 0
  latencyBucket500ms : UInt64 := 0
  latencyBucket1s : UInt64 := 0
  latencyBucket5s : UInt64 := 0
  latencyBucketInf : UInt64 := 0
  deriving DecidableEq, Repr

structure Metrics extends LatencyBuckets where
  requestsTotal : UInt64 := 0
  requestsErrorTotal : UInt64 := 0
  latencySumUs : UInt64 := 0
  status2xx : UInt64 := 0
  status3xx : UInt64 := 0
  status4xx : UInt64 := 0
  status5xx : UInt64 := 0
  deriving DecidableEq, Repr

def LatencyBuckets.record (latencyUs : ℕ) (m : LatencyBuckets) : LatencyBuckets :=
  if latencyUs ≤ 1000 then { m with latencyBucket1ms := m.latencyBucket1ms + 1 }
  else if latencyUs ≤ 5000 then { m with latencyBucket5ms := m.latencyBucket5ms + 1 }
  else if latencyUs ≤ 10000 then { m with latencyBucket10ms := m.latencyBucket10ms + 1 }
  else if latencyUs ≤ 25000 then { m with latencyBucket25ms := m.latencyBucket25ms + 1 }
  else if latencyUs ≤ 50000 then { m with latencyBucket50ms := m.latencyBucket50ms + 1 }
  else if latencyUs ≤ 100000 then { m with latencyBucket100ms := m.latencyBucket100ms + 1 }
  else if latencyUs ≤ 250000 then { m with latencyBucket250ms := m.latencyBucket250ms + 1 }
  else if latencyUs ≤ 500000 then { m with latencyBucket500ms := m.latencyBucket500ms + 1 }
  else if latencyUs ≤ 1000000 then { m with latencyBucket1s := m.latencyBucket1s + 1 }
  else if latencyUs ≤ 5000000 then { m with latencyBucket5s := m.latencyBucket5s + 1 }
  else { m with latencyBucketInf := m.latencyBucketInf + 1 }

namespace Metrics

def new : Metrics := {}

def recordStatus (status : ℕ) (m : Metrics) : Metrics :=
  if 200 ≤ status ∧ status ≤ 299 then { m with status2xx := m.status2xx + 1 }
  else if 300 ≤ status ∧ status ≤ 399 then { m with status3xx := m.status3xx + 1 }
  else if 400 ≤ status ∧ status ≤ 499 then
    { m with
      status4xx := m.status4xx + 1
      requestsErrorTotal := m.requestsErrorTotal + 1 }
  else
    -- the catch-all arm
    { m with
      status5xx := m.status5xx + 1
      requestsErrorTotal := m.requestsErrorTotal + 1 }

def recordRequest (status latencyUs : ℕ) (m : Metrics) : Metrics :=
  recordStatus status
    { m with
      toLatencyBuckets := m.toLatencyBuckets.record latencyUs
      requestsTotal := m.requestsTotal + 1
      latencySumUs := m.latencySumUs + UInt64.ofNat latencyUs }

def renderBuckets (m : Metrics) : List (String × UInt64) :=
  let b1ms := m.latencyBucket1ms
  let b5ms := b1ms + m.latencyBucket5ms
  let b10ms := b5ms + m.latencyBucket10ms
  let b25ms := b10ms + m.latencyBucket25ms
  let b50ms := b25ms + m.latencyBucket50ms
  let b100ms := b50ms + m.latencyBucket100ms
  let b250ms := b100ms + m.latencyBucket250ms
  let b500ms := b250ms + m.latencyBucket500ms
  let b1s := b500ms + m.latencyBucket1s
  let b5s := b1s + m.latencyBucket5s
  let bInf := b5s + m.latencyBucketInf
  [("0.001", b1ms), ("0.005", b5ms), ("0.01", b10ms), ("0.025", b25ms), ("0.05", b50ms),
    ("0.1", b100ms), ("0.25", b250ms), ("0.5", b500ms), ("1", b1s), ("5", b5s), ("+Inf", bInf)]

def recordAll (calls : List (ℕ × ℕ)) : Metrics :=
  calls.foldl (fun m c => m.recordRequest c.1 c.2) new

/-! ## Buckets -/

open scoped UInt64.CommRing

def latencyBounds : List ℕ :=
  [1000, 5000, 10000, 25000, 50000, 100000, 250000, 500000, 1000000, 5000000]

/-- A decimal number of seconds, in microseconds. -/
def microsOfLabel (le : String) : Option ℕ :=
  match Text.splitOnce '.' le with
  | none => (Text.parseNat (2 ^ 64) le).map (· * 10 ^ 6)
  | some (whole, frac) =>
      match Text.parseNat (2 ^ 64) whole, Text.parseNat (2 ^ 64) frac with
      | some w, some f =>
          if frac.length ≤ 6 then some (w * 10 ^ 6 + f * 10 ^ (6 - frac.length)) else none
      | _, _ => none

def latencyBuckets (m : LatencyBuckets) : List UInt64 :=
  [m.latencyBucket1ms, m.latencyBucket5ms, m.latencyBucket10ms, m.latencyBucket25ms,
    m.latencyBucket50ms, m.latencyBucket100ms, m.latencyBucket250ms, m.latencyBucket500ms,
    m.latencyBucket1s, m.latencyBucket5s, m.latencyBucketInf]

theorem latencyBuckets_record (latencyUs : ℕ) (m : LatencyBuckets) :
    latencyBuckets (m.record latencyUs) =
      Histogram.observe latencyBounds latencyUs (latencyBuckets m) := by
  simp only [LatencyBuckets.record, apply_ite latencyBuckets]
  simp only [latencyBuckets, latencyBounds, Histogram.observe, apply_ite (List.cons _)]

theorem toLatencyBuckets_recordStatus (status : ℕ) (m : Metrics) :
    (m.recordStatus status).toLatencyBuckets = m.toLatencyBuckets := by
  unfold recordStatus
  split_ifs <;> rfl

theorem latencyBuckets_recordAll (calls : List (ℕ × ℕ)) :
    latencyBuckets (recordAll calls).toLatencyBuckets =
      (calls.map (·.2)).foldl (fun counts x => Histogram.observe latencyBounds x counts)
        (List.replicate (latencyBounds.length + 1) 0) := by
  induction calls using List.reverseRecOn with
  | nil => rfl
  | append_singleton calls c ih =>
    rw [recordAll, List.foldl_concat, ← recordAll, List.map_append, List.map_singleton,
      List.foldl_concat, ← ih, recordRequest, toLatencyBuckets_recordStatus,
      latencyBuckets_record]

theorem map_snd_renderBuckets (m : Metrics) :
    m.renderBuckets.map (·.2) =
      Histogram.cumulative 0 (latencyBuckets m.toLatencyBuckets) := by
  simp [renderBuckets, latencyBuckets, Histogram.cumulative]

theorem map_fst_renderBuckets (m : Metrics) :
    m.renderBuckets.map (microsOfLabel ·.1) = latencyBounds.map some ++ [none] := by
  have hlabels : (["0.001", "0.005", "0.01", "0.025", "0.05", "0.1", "0.25", "0.5", "1", "5",
      "+Inf"].map microsOfLabel) = latencyBounds.map some ++ [none] := by decide +kernel
  rw [← hlabels]
  rfl

theorem toNat_of_eq_natCast {c : UInt64} {n : ℕ} (h : c = (n : UInt64)) (hn : n < 2 ^ 64) :
    c.toNat = n := by
  subst h
  exact UInt64.toNat_ofNat_of_lt' hn

theorem map_toNat_upTo {calls : List ℕ} (hfew : calls.length < 2 ^ 64) :
    (Histogram.upTo latencyBounds calls).map UInt64.toNat =
      Histogram.upTo latencyBounds calls := by
  unfold Histogram.upTo
  rw [List.map_append, List.map_map]
  congr 1
  · refine List.map_congr_left fun b _ => ?_
    exact toNat_of_eq_natCast rfl (List.countP_le_length.trans_lt hfew)
  · exact congrArg (fun n => [n]) (toNat_of_eq_natCast rfl hfew)

/-! ## Counting by status -/

theorem recordRequest_counters (status latencyUs : ℕ) (m : Metrics) :
    let m' := m.recordRequest status latencyUs
    m'.requestsTotal = m.requestsTotal + 1 ∧
      m'.status2xx = m.status2xx + (if status / 100 = 2 then 1 else 0) ∧
      m'.status3xx = m.status3xx + (if status / 100 = 3 then 1 else 0) ∧
      m'.status4xx = m.status4xx + (if status / 100 = 4 then 1 else 0) ∧
      m'.status5xx = m.status5xx + (if status / 100 < 2 ∨ 5 ≤ status / 100 then 1 else 0) ∧
      m'.requestsErrorTotal =
        m.requestsErrorTotal + (if status / 100 < 2 ∨ 4 ≤ status / 100 then 1 else 0) := by
  unfold recordRequest recordStatus
  split
  · have hclass : status / 100 = 2 := by omega
    simp [hclass]
  · split
    · have hclass : status / 100 = 3 := by omega
      simp [hclass]
    · split
      · have hclass : status / 100 = 4 := by omega
        simp [hclass]
      · have hclass : status / 100 < 2 ∨ 5 ≤ status / 100 := by omega
        have h2 : status / 100 ≠ 2 := by omega
        have h3 : status / 100 ≠ 3 := by omega
        have h4 : status / 100 ≠ 4 := by omega
        have herror : status / 100 < 2 ∨ 4 ≤ status / 100 := by omega
        simp only [if_neg h2, if_neg h3, if_neg h4, if_pos hclass, if_pos herror, add_zero,
          and_self]

theorem natCast_countP_concat (p : ℕ × ℕ → Bool) (calls : List (ℕ × ℕ)) (c : ℕ × ℕ) :
    (((calls ++ [c]).countP p : ℕ) : UInt64) = calls.countP p + if p c then 1 else 0 := by
  rw [List.countP_append, List.countP_singleton, Nat.cast_add, Nat.cast_ite, Nat.cast_one,
    Nat.cast_zero]

/-- The counters count modulo the size of a word. -/
theorem counters_recordAll (calls : List (ℕ × ℕ)) :
    let m := recordAll calls
    m.requestsTotal = (calls.length : UInt64) ∧
      m.status2xx = (calls.countP (fun c => c.1 / 100 = 2) : UInt64) ∧
      m.status3xx = (calls.countP (fun c => c.1 / 100 = 3) : UInt64) ∧
      m.status4xx = (calls.countP (fun c => c.1 / 100 = 4) : UInt64) ∧
      m.status5xx = (calls.countP (fun c => c.1 / 100 < 2 ∨ 5 ≤ c.1 / 100) : UInt64) ∧
      m.requestsErrorTotal = (calls.countP (fun c => c.1 / 100 < 2 ∨ 4 ≤ c.1 / 100) : UInt64) := by
  induction calls using List.reverseRecOn with
  | nil => exact ⟨rfl, rfl, rfl, rfl, rfl, rfl⟩
  | append_singleton calls c ih =>
    obtain ⟨htotal, h2, h3, h4, h5, herrors⟩ := recordRequest_counters c.1 c.2 (recordAll calls)
    have hconcat : recordAll (calls ++ [c]) = (recordAll calls).recordRequest c.1 c.2 :=
      List.foldl_concat _ _ _ _
    simp only [hconcat, natCast_countP_concat, decide_eq_true_eq, List.length_append,
      List.length_singleton, Nat.cast_add, Nat.cast_one]
    exact ⟨by rw [htotal, ih.1], by rw [h2, ih.2.1], by rw [h3, ih.2.2.1], by rw [h4, ih.2.2.2.1],
      by rw [h5, ih.2.2.2.2.1], by rw [herrors, ih.2.2.2.2.2]⟩

/-! ## When the metrics add up -/

/-- The exported metrics say how many requests had which status and which latency. -/
structure AddsUp (calls : List (ℕ × ℕ)) (m : Metrics) : Prop where
  status2xx : m.status2xx.toNat = calls.countP fun c => c.1 / 100 = 2
  status3xx : m.status3xx.toNat = calls.countP fun c => c.1 / 100 = 3
  status4xx : m.status4xx.toNat = calls.countP fun c => c.1 / 100 = 4
  status5xx : m.status5xx.toNat = calls.countP fun c => c.1 / 100 = 5
  errors : m.requestsErrorTotal.toNat = calls.countP fun c => c.1 / 100 = 4 ∨ c.1 / 100 = 5
  bucket : ∀ e ∈ m.renderBuckets, e.1 ≠ "+Inf" → ∃ bound, microsOfLabel e.1 = some bound ∧
    e.2.toNat = calls.countP fun c => c.2 ≤ bound
  ascending : m.renderBuckets.Pairwise fun e f => e.2 ≤ f.2
  inf : m.renderBuckets.getLast? = some ("+Inf", m.requestsTotal)

theorem map_snd_renderBuckets_recordAll (calls : List (ℕ × ℕ)) :
    (recordAll calls).renderBuckets.map (·.2) =
      Histogram.upTo latencyBounds (calls.map (·.2)) := by
  have hsorted : latencyBounds.Pairwise (· ≤ ·) := by decide
  rw [map_snd_renderBuckets, latencyBuckets_recordAll]
  exact Histogram.cumulative_foldl_observe hsorted _

theorem map_toNat_renderBuckets_recordAll {calls : List (ℕ × ℕ)} (hfew : calls.length < 2 ^ 64) :
    (recordAll calls).renderBuckets.map (·.2.toNat) =
      Histogram.upTo latencyBounds (calls.map (·.2)) := by
  rw [← map_toNat_upTo (by rwa [List.length_map]), ← map_snd_renderBuckets_recordAll, List.map_map]
  rfl

theorem bucket_recordAll {calls : List (ℕ × ℕ)} (hfew : calls.length < 2 ^ 64)
    {e : String × UInt64} (he : e ∈ (recordAll calls).renderBuckets) (hinf : e.1 ≠ "+Inf") :
    ∃ bound, microsOfLabel e.1 = some bound ∧
      e.2.toNat = calls.countP fun c => c.2 ≤ bound := by
  have hcounts := map_toNat_renderBuckets_recordAll hfew
  have hlabels := map_fst_renderBuckets (recordAll calls)
  obtain ⟨i, hi, rfl⟩ := List.getElem_of_mem he
  have hlen : (recordAll calls).renderBuckets.length = 11 := rfl
  have hlt : i < latencyBounds.length := by
    by_contra hge
    have hlast : i = 10 := by
      change ¬i < 10 at hge
      omega
    subst hlast
    exact hinf rfl
  refine ⟨latencyBounds[i], ?_, ?_⟩
  · have hl := congrArg (·[i]?) hlabels
    simpa [List.getElem?_append_left, hlt, hi] using hl
  · have hc := congrArg (·[i]?) hcounts
    simpa [Histogram.upTo, List.countP_map, Function.comp_def, List.getElem?_append_left, hlt,
      hi] using hc

theorem getLast?_renderBuckets_recordAll (calls : List (ℕ × ℕ)) :
    (recordAll calls).renderBuckets.getLast? =
      some ("+Inf", (recordAll calls).requestsTotal) := by
  obtain ⟨htotal, -⟩ := counters_recordAll calls
  have hlast := congrArg List.getLast? (map_snd_renderBuckets_recordAll calls)
  rw [List.getLast?_map, Histogram.upTo, List.getLast?_concat, List.length_map, ← htotal] at hlast
  obtain ⟨e, he, hcount⟩ := Option.map_eq_some_iff.mp hlast
  have hlabel : (recordAll calls).renderBuckets.getLast?.map (·.1) = some "+Inf" := rfl
  rw [he, Option.map_some, Option.some.injEq] at hlabel
  rw [he, ← hcount, ← hlabel]

theorem countP_add {α : Type} {l : List α} {p q r : α → Bool}
    (h : ∀ a ∈ l, (if q a then 1 else 0) = (if p a then 1 else 0) + (if r a then 1 else 0)) :
    l.countP q = l.countP p + l.countP r := by
  induction l with
  | nil => rfl
  | cons a l ih =>
    have ha := h a List.mem_cons_self
    have hl := ih fun b hb => h b (List.mem_cons_of_mem a hb)
    rw [List.countP_cons, List.countP_cons, List.countP_cons]
    omega

/-- After any requests with a status from 100 to 599, as many as the counters can count, the metrics
add up exactly when none of the statuses was informational. -/
theorem addsUp_recordAll_iff (calls : List (ℕ × ℕ)) (hfew : calls.length < 2 ^ 64)
    (hstatus : ∀ c ∈ calls, 100 ≤ c.1 ∧ c.1 ≤ 599) :
    AddsUp calls (recordAll calls) ↔ ∀ c ∈ calls, 200 ≤ c.1 := by
  obtain ⟨-, h2, h3, h4, h5, herrors⟩ := counters_recordAll calls
  have hcount : ∀ {c : UInt64} {p : ℕ × ℕ → Bool}, c = (calls.countP p : UInt64) →
      c.toNat = calls.countP p :=
    fun h => toNat_of_eq_natCast h (List.countP_le_length.trans_lt hfew)
  have hserver : calls.countP (fun c => c.1 / 100 < 2 ∨ 5 ≤ c.1 / 100) =
      calls.countP (fun c => c.1 / 100 = 5) + calls.countP (fun c => c.1 < 200) := by
    refine countP_add fun c hc => ?_
    have hc := hstatus c hc
    simp only [decide_eq_true_eq]
    split_ifs <;> omega
  have hboth : calls.countP (fun c => c.1 / 100 < 2 ∨ 4 ≤ c.1 / 100) =
      calls.countP (fun c => c.1 / 100 = 4 ∨ c.1 / 100 = 5) +
        calls.countP (fun c => c.1 < 200) := by
    refine countP_add fun c hc => ?_
    have hc := hstatus c hc
    simp only [decide_eq_true_eq]
    split_ifs <;> omega
  have hnone : calls.countP (fun c => c.1 < 200) = 0 ↔ ∀ c ∈ calls, 200 ≤ c.1 := by
    simp [List.countP_eq_zero]
  rw [← hnone]
  constructor
  · intro h
    have hsame := h.status5xx
    rw [hcount h5] at hsame
    omega
  · intro hzero
    refine ⟨hcount h2, hcount h3, hcount h4, (hcount h5).trans (by omega),
      (hcount herrors).trans (by omega), fun e he => bucket_recordAll hfew he, ?_, ?_⟩
    · have hsorted : latencyBounds.Pairwise (· ≤ ·) := by decide
      have hpairwise := Histogram.pairwise_upTo hsorted (calls.map (·.2))
      rwa [← map_toNat_renderBuckets_recordAll hfew, List.pairwise_map] at hpairwise
    · exact getLast?_renderBuckets_recordAll calls

theorem addsUp_recordAll_iff_two_calls :
    AddsUp [(200, 500), (404, 6000000)] (recordAll [(200, 500), (404, 6000000)]) :=
  (addsUp_recordAll_iff _ (by decide) (by decide)).mpr (by decide)

/-- An upgraded WebSocket is counted as a server error. -/
theorem not_addsUp_websocket : ¬AddsUp [(101, 250)] (recordAll [(101, 250)]) :=
  fun h => absurd h.status5xx (by decide)

end Metrics

end SentirumLb
