import Mathlib
import SentirumLb.Lib.AssocMap
import SentirumLb.Lib.Recent

/-! # The flow of requests over the topology

The admin API samples the counters of every target at most once in a second and
shows rates over the last seconds. The clock is read before the lock is taken,
so calls can come with times in any order. Rates are exact rationals here.
-/

namespace SentirumLb.Admin

def sampleIntervalMs : ℕ := 1000

def historyRetentionMs : ℕ := 6000

def staleRetentionMs : ℕ := 60000

structure TopologyFlowMetrics where
  rps1s : ℚ := 0
  rps5s : ℚ := 0
  bps1s : ℚ := 0
  bps5s : ℚ := 0
  deltaRequests : ℕ := 0
  deltaBytes : ℕ := 0
  lastActiveMsAgo : Option ℕ := none
  activityLevel : String := ""

structure CounterSample where
  atMs : ℕ
  requests : ℕ
  bytes : ℕ
deriving DecidableEq

structure FlowHistory where
  samples : List CounterSample := []
  lastActiveMs : Option ℕ := none

namespace FlowHistory

def record (atMs requests bytes : ℕ) (lastAccessSecs : Option ℕ) (h : FlowHistory) :
    FlowHistory :=
  let samples := Recent.record CounterSample.atMs historyRetentionMs h.samples
    ⟨atMs, requests, bytes⟩
  match lastAccessSecs with
  | some secs =>
      { samples := samples
        lastActiveMs := if 0 < secs then some (min (secs * 1000) (2 ^ 64 - 1)) else h.lastActiveMs }
  | none =>
      let previous := samples.reverse[1]?.getD ⟨atMs, requests, bytes⟩
      { samples := samples
        lastActiveMs :=
          if previous.requests < requests ∨ previous.bytes < bytes then some atMs
          else h.lastActiveMs }

def rateOverWindow (h : FlowHistory) (latest : CounterSample) (windowMs : ℕ)
    (value : CounterSample → ℕ) : ℚ :=
  let baseline := (h.samples.reverse.find? fun sample =>
    windowMs ≤ latest.atMs - sample.atMs).or h.samples.head?
  match baseline with
  | none => 0
  | some baseline =>
      let elapsedMs := latest.atMs - baseline.atMs
      if elapsedMs = 0 then 0
      else ((value latest - value baseline : ℕ) : ℚ) * 1000 / elapsedMs

def flow (nowMs : ℕ) (h : FlowHistory) : TopologyFlowMetrics :=
  match h.samples.getLast? with
  | none => {}
  | some latest =>
      let previous := h.samples.reverse[1]?
      let deltaRequests := (previous.map fun prev => latest.requests - prev.requests).getD 0
      let deltaBytes := (previous.map fun prev => latest.bytes - prev.bytes).getD 0
      let rps1s := h.rateOverWindow latest 1000 (·.requests)
      let rps5s := h.rateOverWindow latest 5000 (·.requests)
      let bps1s := h.rateOverWindow latest 1000 (·.bytes)
      let bps5s := h.rateOverWindow latest 5000 (·.bytes)
      let lastActiveMsAgo := h.lastActiveMs.map fun last => nowMs - last
      let activityLevel :=
        if 0 < deltaRequests ∨ 0 < deltaBytes ∨ 1 ≤ rps1s then "hot"
        else if 0 < rps5s ∨ 0 < bps5s ∨ lastActiveMsAgo.any (· ≤ 30000) then "warm"
        else "idle"
      ⟨rps1s, rps5s, bps1s, bps5s, deltaRequests, deltaBytes, lastActiveMsAgo, activityLevel⟩

def hasRecentSamples (nowMs : ℕ) (h : FlowHistory) : Bool :=
  h.samples.getLast?.any fun sample => nowMs - sample.atMs ≤ staleRetentionMs

end FlowHistory

structure EdgeReading where
  key : String
  requests : ℕ
  bytes : ℕ
  lastAccess : ℕ

structure FlowCall where
  nowMs : ℕ
  requestsTotal : ℕ
  bytesReceivedTotal : ℕ
  targets : List EdgeReading

structure TopologyFlowState where
  lastRefreshMs : ℕ := 0
  lb : FlowHistory := {}
  edges : AssocMap String FlowHistory := ∅

structure TopologyFlowSnapshot where
  lb : TopologyFlowMetrics
  edges : AssocMap String TopologyFlowMetrics

namespace TopologyFlowState

def recordEdge (nowMs : ℕ) (edges : AssocMap String FlowHistory) (t : EdgeReading) :
    AssocMap String FlowHistory :=
  edges.upsert t.key {} (FlowHistory.record nowMs t.requests t.bytes (some t.lastAccess))

def Refreshes (s : TopologyFlowState) (c : FlowCall) : Prop :=
  sampleIntervalMs ≤ c.nowMs - s.lastRefreshMs ∨ s.lastRefreshMs = 0

instance (s : TopologyFlowState) (c : FlowCall) : Decidable (s.Refreshes c) :=
  inferInstanceAs (Decidable (_ ∨ _))

def refresh (s : TopologyFlowState) (c : FlowCall) : TopologyFlowState where
  lastRefreshMs := c.nowMs
  lb := s.lb.record c.nowMs c.requestsTotal c.bytesReceivedTotal none
  edges := (c.targets.foldl (recordEdge c.nowMs) s.edges).retain fun key history =>
    c.targets.any (·.key == key) || history.hasRecentSamples c.nowMs

/-- `TopologyFlowCache::snapshot`: the state after a call, and what it shows. -/
def snapshot (s : TopologyFlowState) (c : FlowCall) : TopologyFlowState × TopologyFlowSnapshot :=
  let s := if s.Refreshes c then s.refresh c else s
  (s, ⟨s.lb.flow c.nowMs, s.edges.mapVals fun _ history => history.flow c.nowMs⟩)

def run (s : TopologyFlowState) (calls : List FlowCall) : TopologyFlowState :=
  calls.foldl (fun s c => (s.snapshot c).1) s

/-! ## What the samples are -/

def lastTime (log : List FlowCall) : ℕ := (log.getLast?.map (·.nowMs)).getD 0

def refreshLog (calls : List FlowCall) : List FlowCall :=
  calls.foldl (fun log c =>
    if sampleIntervalMs ≤ c.nowMs - lastTime log ∨ lastTime log = 0 then log ++ [c] else log) []

def sightingsIn (key : String) (c : FlowCall) : List CounterSample :=
  (c.targets.filter (·.key = key)).map fun t => ⟨c.nowMs, t.requests, t.bytes⟩

def sightings (key : String) (log : List FlowCall) : List CounterSample :=
  (log.flatMap (sightingsIn key)).foldl (Recent.push CounterSample.atMs) []

def totals (log : List FlowCall) : List CounterSample :=
  (log.map fun c => ⟨c.nowMs, c.requestsTotal, c.bytesReceivedTotal⟩).foldl
    (Recent.push CounterSample.atMs) []

/-- The samples that are left of a key after some refreshes: those of the last while before it was
read last, unless that was too long ago. -/
def left (key : String) (log : List FlowCall) : Option (List CounterSample) :=
  (sightings key log).getLast?.bind fun latest =>
    if lastTime log - latest.atMs ≤ staleRetentionMs then
      some (Recent.within CounterSample.atMs historyRetentionMs latest.atMs (sightings key log))
    else none

/-- Refreshes come in order, and a while apart unless the first was at time zero. -/
structure Spaced (log : List FlowCall) : Prop where
  le_lastTime : ∀ c ∈ log, c.nowMs ≤ lastTime log
  gap : ∀ c ∈ log, ∀ d ∈ log, c.nowMs < d.nowMs →
    c.nowMs = 0 ∨ c.nowMs + sampleIntervalMs ≤ d.nowMs

theorem lastTime_concat (log : List FlowCall) (c : FlowCall) : lastTime (log ++ [c]) = c.nowMs := by
  simp [lastTime]

theorem Spaced.concat {log : List FlowCall} (h : Spaced log) {c : FlowCall}
    (hc : sampleIntervalMs ≤ c.nowMs - lastTime log ∨ lastTime log = 0) :
    Spaced (log ++ [c]) ∧ lastTime log ≤ c.nowMs := by
  have hinterval : 0 < sampleIntervalMs := by decide
  have hle : lastTime log ≤ c.nowMs := by omega
  refine ⟨⟨?_, ?_⟩, hle⟩
  · intro d hd
    rw [lastTime_concat]
    obtain hd | hd := List.mem_append.mp hd
    · exact (h.le_lastTime d hd).trans hle
    · rw [List.mem_singleton.mp hd]
  · intro d hd e he hlt
    obtain hd | hd := List.mem_append.mp hd
    · have hdle := h.le_lastTime d hd
      obtain he | he := List.mem_append.mp he
      · exact h.gap d hd e he hlt
      · rw [List.mem_singleton.mp he]
        omega
    · rw [List.mem_singleton.mp hd] at hlt
      obtain he | he := List.mem_append.mp he
      · have hele := h.le_lastTime e he
        omega
      · rw [List.mem_singleton.mp he] at hlt
        exact absurd hlt (lt_irrefl _)

theorem lookup_foldl_recordEdge (nowMs : ℕ) (targets : List EdgeReading)
    (edges : AssocMap String FlowHistory) (key : String) :
    ((targets.foldl (recordEdge nowMs) edges).lookup key).map (·.samples) =
      ((targets.filter (·.key = key)).map fun t =>
        (⟨nowMs, t.requests, t.bytes⟩ : CounterSample)).foldl
          (fun stored x => some (Recent.record CounterSample.atMs historyRetentionMs
            (stored.getD []) x)) ((edges.lookup key).map (·.samples)) := by
  induction targets generalizing edges with
  | nil => rfl
  | cons t targets ih =>
    rw [List.foldl_cons, ih]
    by_cases hkey : t.key = key
    · subst hkey
      rw [List.filter_cons_of_pos (by simp), List.map_cons, List.foldl_cons, recordEdge,
        AssocMap.lookup_upsert_self]
      cases edges.lookup t.key <;> rfl
    · rw [List.filter_cons_of_neg (by simpa using hkey), recordEdge,
        AssocMap.lookup_upsert_ne (Ne.symm hkey)]

/-- What is stored of a key and all its readings agree in what is not too old at a time. -/
structure Agrees (now : ℕ) (stored : Option (List CounterSample))
    (readings : List CounterSample) : Prop where
  stored_ordered : Recent.Ordered CounterSample.atMs (stored.getD [])
  stored_le : ∀ a ∈ stored.getD [], a.atMs ≤ now
  ordered : Recent.Ordered CounterSample.atMs readings
  le : ∀ a ∈ readings, a.atMs ≤ now
  within_eq : Recent.within CounterSample.atMs historyRetentionMs now (stored.getD []) =
    Recent.within CounterSample.atMs historyRetentionMs now readings

theorem Agrees.record {now : ℕ} {stored : Option (List CounterSample)}
    {readings : List CounterSample} (h : Agrees now stored readings) {x : CounterSample}
    (hx : x.atMs = now) :
    Recent.record CounterSample.atMs historyRetentionMs (stored.getD []) x =
        Recent.within CounterSample.atMs historyRetentionMs now
          (Recent.push CounterSample.atMs readings x) ∧
      Agrees now (some (Recent.within CounterSample.atMs historyRetentionMs now
        (Recent.push CounterSample.atMs readings x)))
        (Recent.push CounterSample.atMs readings x) := by
  subst hx
  have hordered := Recent.ordered_push h.ordered h.le
  constructor
  · exact Recent.record_eq_within h.stored_ordered h.ordered h.stored_le h.le h.within_eq
  · constructor
    · exact hordered.filter _
    · exact fun a ha => Recent.le_of_mem_push h.le (List.mem_filter.mp ha).1
    · exact hordered
    · exact fun a ha => Recent.le_of_mem_push h.le ha
    · exact Recent.within_within le_rfl _

theorem Agrees.mono {now now' : ℕ} {stored : Option (List CounterSample)}
    {readings : List CounterSample} (h : Agrees now stored readings) (hnow : now ≤ now') :
    Agrees now' stored readings := by
  constructor
  · exact h.stored_ordered
  · exact fun a ha => (h.stored_le a ha).trans hnow
  · exact h.ordered
  · exact fun a ha => (h.le a ha).trans hnow
  · rw [← Recent.within_within hnow, h.within_eq, Recent.within_within hnow]

theorem Agrees.foldl {now : ℕ} {xs : List CounterSample} (hxs : ∀ x ∈ xs, x.atMs = now)
    (hne : xs ≠ []) {stored : Option (List CounterSample)} {readings : List CounterSample}
    (h : Agrees now stored readings) :
    xs.foldl (fun stored x => some (Recent.record CounterSample.atMs historyRetentionMs
        (stored.getD []) x)) stored =
      some (Recent.within CounterSample.atMs historyRetentionMs now
        (xs.foldl (Recent.push CounterSample.atMs) readings)) ∧
    (∃ latest, (xs.foldl (Recent.push CounterSample.atMs) readings).getLast? = some latest ∧
      latest.atMs = now) ∧
    Recent.Ordered CounterSample.atMs (xs.foldl (Recent.push CounterSample.atMs) readings) := by
  induction xs generalizing stored readings with
  | nil => exact absurd rfl hne
  | cons x xs ih =>
    obtain ⟨hrecord, hagrees⟩ := h.record (hxs x List.mem_cons_self)
    rw [List.foldl_cons, List.foldl_cons, hrecord]
    by_cases hxs' : xs = []
    · subst hxs'
      exact ⟨rfl, ⟨x, Recent.getLast?_push _ _, hxs x List.mem_cons_self⟩, hagrees.ordered⟩
    · exact ih (fun y hy => hxs y (List.mem_cons_of_mem _ hy)) hxs' hagrees

structure Sighted (key : String) (log : List FlowCall) : Prop where
  ordered : Recent.Ordered CounterSample.atMs (sightings key log)
  of_log : ∀ a ∈ sightings key log, ∃ c ∈ log, a.atMs = c.nowMs

theorem sightings_concat (key : String) (log : List FlowCall) (c : FlowCall) :
    sightings key (log ++ [c]) =
      (sightingsIn key c).foldl (Recent.push CounterSample.atMs) (sightings key log) := by
  simp [sightings, List.foldl_append]

theorem agrees_left {key : String} {log : List FlowCall} (h : Sighted key log)
    (hspaced : Spaced log) {now : ℕ} (hnow : lastTime log ≤ now) :
    Agrees now (left key log) (sightings key log) := by
  have hle : ∀ a ∈ sightings key log, a.atMs ≤ now := by
    intro a ha
    obtain ⟨c, hc, hatMs⟩ := h.of_log a ha
    exact hatMs ▸ (hspaced.le_lastTime c hc).trans hnow
  cases hlast : (sightings key log).getLast? with
  | none =>
    have hnil : sightings key log = [] := List.getLast?_eq_none_iff.mp hlast
    rw [left, hlast, hnil]
    exact ⟨.nil, by simp, .nil, by simp, rfl⟩
  | some latest =>
    obtain ⟨older, hsightings⟩ := List.getLast?_eq_some_iff.mp hlast
    have hmax : ∀ a ∈ sightings key log, a.atMs ≤ latest.atMs := by
      intro a ha
      rw [hsightings] at ha
      obtain ha | ha := List.mem_append.mp ha
      · have hordered := h.ordered
        rw [hsightings] at hordered
        exact ((List.pairwise_append.mp hordered).2.2 a ha latest (by simp)).le
      · rw [List.mem_singleton.mp ha]
    rw [left, hlast, Option.bind_some]
    by_cases hrecent : lastTime log - latest.atMs ≤ staleRetentionMs
    · rw [if_pos hrecent]
      refine ⟨h.ordered.filter _, fun a ha => hle a (List.mem_filter.mp ha).1, h.ordered, hle, ?_⟩
      exact Recent.within_within (hle latest (List.mem_of_getLast? hlast)) _
    · rw [if_neg hrecent]
      refine ⟨.nil, by simp, h.ordered, hle, ?_⟩
      symm
      rw [Option.getD_none, Recent.within, Recent.within, List.filter_nil,
        List.filter_eq_nil_iff]
      intro a ha
      have hamax := hmax a ha
      rw [decide_eq_true_eq]
      unfold staleRetentionMs at hrecent
      unfold historyRetentionMs
      omega

structure Follows (log : List FlowCall) (s : TopologyFlowState) : Prop where
  lastRefreshMs : s.lastRefreshMs = lastTime log
  spaced : Spaced log
  sighted : ∀ key, Sighted key log
  lb_agrees : Agrees (lastTime log) (some s.lb.samples) (totals log)
  lb : s.lb.samples =
    Recent.within CounterSample.atMs historyRetentionMs (lastTime log) (totals log)
  edges : ∀ key, (s.edges.lookup key).map (·.samples) = left key log

theorem follows_nil : Follows [] {} := by
  refine ⟨rfl, ⟨by simp, by simp⟩, fun key => ⟨.nil, ?_⟩, ?_, rfl, fun key => rfl⟩
  · rintro a ⟨⟩
  · exact ⟨.nil, by simp, .nil, by rintro a ⟨⟩, rfl⟩

theorem Sighted.concat {key : String} {log : List FlowCall} (h : Sighted key log)
    (hspaced : Spaced log) {c : FlowCall} (hnow : lastTime log ≤ c.nowMs) :
    Sighted key (log ++ [c]) := by
  have hxs : ∀ x ∈ sightingsIn key c, x.atMs = c.nowMs := by
    intro x hx
    obtain ⟨t, -, rfl⟩ := List.mem_map.mp hx
    rfl
  constructor
  · rw [sightings_concat]
    by_cases hne : sightingsIn key c = []
    · rw [hne]
      exact h.ordered
    · exact ((agrees_left h hspaced hnow).foldl hxs hne).2.2
  · intro a ha
    rw [sightings_concat] at ha
    obtain ha | ha := Recent.mem_of_mem_foldl_push ha
    · obtain ⟨d, hd, hatMs⟩ := h.of_log a ha
      exact ⟨d, List.mem_append_left _ hd, hatMs⟩
    · exact ⟨c, by simp, hxs a ha⟩

theorem filter_left {key : String} {log : List FlowCall} {c : FlowCall}
    (hnow : lastTime log ≤ c.nowMs) (hunread : sightingsIn key c = [])
    {stored : Option FlowHistory} (hstored : stored.map (·.samples) = left key log) :
    (stored.filter fun history => history.hasRecentSamples c.nowMs).map (·.samples) =
      left key (log ++ [c]) := by
  have hsame : sightings key (log ++ [c]) = sightings key log := by
    rw [sightings_concat, hunread]
    rfl
  unfold left at hstored ⊢
  rw [hsame, lastTime_concat]
  cases hlast : (sightings key log).getLast? with
  | none =>
    rw [hlast, Option.bind_none, Option.map_eq_none_iff] at hstored
    rw [hstored]
    rfl
  | some latest =>
    rw [hlast, Option.bind_some] at hstored
    rw [Option.bind_some]
    by_cases hrecent : c.nowMs - latest.atMs ≤ staleRetentionMs
    · have hbefore : lastTime log - latest.atMs ≤ staleRetentionMs := by omega
      rw [if_pos hbefore] at hstored
      obtain ⟨history, rfl, hsamples⟩ := Option.map_eq_some_iff.mp hstored
      have hkept : history.hasRecentSamples c.nowMs := by
        rw [FlowHistory.hasRecentSamples, hsamples, Recent.getLast?_within hlast]
        simpa using hrecent
      rw [if_pos hrecent, Option.filter_some_pos hkept, Option.map_some, hsamples]
    · rw [if_neg hrecent]
      split at hstored
      · obtain ⟨history, rfl, hsamples⟩ := Option.map_eq_some_iff.mp hstored
        have hdropped : history.hasRecentSamples c.nowMs = false := by
          rw [FlowHistory.hasRecentSamples, hsamples, Recent.getLast?_within hlast]
          simpa using hrecent
        rw [Option.filter_some_neg (by simp [hdropped]), Option.map_none]
      · rw [Option.map_eq_none_iff] at hstored
        rw [hstored]
        rfl

theorem samples_record (atMs requests bytes : ℕ) (lastAccessSecs : Option ℕ) (h : FlowHistory) :
    (h.record atMs requests bytes lastAccessSecs).samples =
      Recent.record CounterSample.atMs historyRetentionMs h.samples ⟨atMs, requests, bytes⟩ := by
  cases lastAccessSecs <;> rfl

theorem totals_concat (log : List FlowCall) (c : FlowCall) :
    totals (log ++ [c]) = Recent.push CounterSample.atMs (totals log)
      ⟨c.nowMs, c.requestsTotal, c.bytesReceivedTotal⟩ := by
  simp [totals, List.foldl_append]

theorem Follows.refresh {log : List FlowCall} {s : TopologyFlowState} (h : Follows log s)
    {c : FlowCall} (hc : s.Refreshes c) : Follows (log ++ [c]) (s.refresh c) := by
  have hrefreshes : sampleIntervalMs ≤ c.nowMs - lastTime log ∨ lastTime log = 0 := by
    rw [← h.lastRefreshMs]
    exact hc
  obtain ⟨hspaced, hnow⟩ := h.spaced.concat hrefreshes
  obtain ⟨hrecord, hagrees⟩ := (h.lb_agrees.mono hnow).record
    (x := ⟨c.nowMs, c.requestsTotal, c.bytesReceivedTotal⟩) rfl
  have hlb : (s.refresh c).lb.samples = Recent.within CounterSample.atMs historyRetentionMs
      c.nowMs (totals (log ++ [c])) := by
    rw [totals_concat]
    exact (samples_record _ _ _ _ _).trans hrecord
  refine ⟨(lastTime_concat log c).symm, hspaced,
    fun key => (h.sighted key).concat h.spaced hnow, ?_, ?_, ?_⟩
  · rw [hlb, lastTime_concat, totals_concat]
    exact hagrees
  · rw [hlb, lastTime_concat]
  intro key
  have hfold := lookup_foldl_recordEdge c.nowMs c.targets s.edges key
  rw [h.edges key] at hfold
  change (((c.targets.foldl (recordEdge c.nowMs) s.edges).retain _).lookup key).map _ = _
  rw [AssocMap.lookup_retain]
  generalize (c.targets.foldl (recordEdge c.nowMs) s.edges).lookup key = stored at hfold ⊢
  by_cases hread : sightingsIn key c = []
  · have hkey : ¬c.targets.any (·.key == key) := by
      have hnil := List.map_eq_nil_iff.mp hread
      rw [List.filter_eq_nil_iff] at hnil
      simpa using hnil
    rw [← sightingsIn, hread] at hfold
    simp only [hkey, Bool.false_or]
    exact filter_left hnow hread hfold
  · have hkey : c.targets.any (·.key == key) := by
      by_contra hany
      refine hread (List.map_eq_nil_iff.mpr (List.filter_eq_nil_iff.mpr ?_))
      simpa using hany
    have hxs : ∀ x ∈ sightingsIn key c, x.atMs = c.nowMs := by
      intro x hx
      obtain ⟨t, -, rfl⟩ := List.mem_map.mp hx
      rfl
    obtain ⟨hstored, ⟨latest, hlatest, hatMs⟩, -⟩ :=
      (agrees_left (h.sighted key) h.spaced hnow).foldl hxs hread
    rw [← sightingsIn, hstored] at hfold
    obtain ⟨history, rfl, hsamples⟩ := Option.map_eq_some_iff.mp hfold
    rw [Option.filter_some_pos (by simp [hkey]), Option.map_some, hsamples, left,
      sightings_concat, hlatest, Option.bind_some, lastTime_concat, hatMs, Nat.sub_self,
      if_pos (Nat.zero_le _)]

theorem refreshLog_concat (calls : List FlowCall) (c : FlowCall) :
    refreshLog (calls ++ [c]) =
      if sampleIntervalMs ≤ c.nowMs - lastTime (refreshLog calls) ∨
          lastTime (refreshLog calls) = 0 then refreshLog calls ++ [c]
      else refreshLog calls := by
  rw [refreshLog, List.foldl_append]
  rfl

theorem follows_run (calls : List FlowCall) : Follows (refreshLog calls) (run {} calls) := by
  induction calls using List.reverseRecOn with
  | nil => exact follows_nil
  | append_singleton calls c ih =>
    have hrun : run {} (calls ++ [c]) = ((run {} calls).snapshot c).1 := by
      simp [run, List.foldl_append]
    have hlog : refreshLog (calls ++ [c]) =
        if (run {} calls).Refreshes c then refreshLog calls ++ [c] else refreshLog calls := by
      rw [refreshLog_concat, ← ih.lastRefreshMs]
      rfl
    rw [hrun, hlog]
    by_cases hc : (run {} calls).Refreshes c
    · have hstate : ((run {} calls).snapshot c).1 = (run {} calls).refresh c := if_pos hc
      rw [hstate, if_pos hc]
      exact ih.refresh hc
    · have hstate : ((run {} calls).snapshot c).1 = run {} calls := if_neg hc
      rw [hstate, if_neg hc]
      exact ih

/-- Times that are a while apart unless the first is zero are few in one retention span. -/
theorem length_le_of_spaced {ns : List ℕ} {now : ℕ} (hlt : ns.Pairwise (· < ·))
    (hgap : ∀ a ∈ ns, ∀ b ∈ ns, a < b → a = 0 ∨ a + sampleIntervalMs ≤ b)
    (hrecent : ∀ a ∈ ns, a ≤ now ∧ now - a ≤ historyRetentionMs) : ns.length ≤ 7 := by
  have hinterval : 0 < sampleIntervalMs := by decide
  cases ns with
  | nil => exact Nat.zero_le _
  | cons n ns =>
    obtain ⟨hn, hns⟩ := List.pairwise_cons.mp hlt
    obtain ⟨hnnow, hnrecent⟩ := hrecent n List.mem_cons_self
    have hnsgap : ns.Pairwise fun a b => a + sampleIntervalMs ≤ b := by
      refine hns.imp_of_mem ?_
      intro a b ha hb hab
      have hpos := hn a ha
      obtain rfl | hle := hgap a (List.mem_cons_of_mem _ ha) b (List.mem_cons_of_mem _ hb) hab
      · exact absurd hpos (Nat.not_lt_zero _)
      · exact hle
    by_cases hzero : n = 0
    · have hlength := Recent.length_le_of_gaps hinterval 1 now hnsgap
        (fun a ha => Nat.one_le_of_lt (hn a ha))
        (fun a ha => (hrecent a (List.mem_cons_of_mem _ ha)).1)
      have hnow : (now - 1) / sampleIntervalMs ≤ 5 := by
        subst hzero
        unfold historyRetentionMs at hnrecent
        unfold sampleIntervalMs
        omega
      rw [List.length_cons]
      omega
    · have hall : (n :: ns).Pairwise fun a b => a + sampleIntervalMs ≤ b := by
        refine List.pairwise_cons.mpr ⟨fun b hb => ?_, hnsgap⟩
        exact (hgap n List.mem_cons_self b (List.mem_cons_of_mem _ hb) (hn b hb)).resolve_left hzero
      have hlo : ∀ a ∈ n :: ns, now - historyRetentionMs ≤ a := by
        intro a ha
        have harecent := (hrecent a ha).2
        omega
      have hlength := Recent.length_le_of_gaps hinterval (now - historyRetentionMs) now hall hlo
        fun a ha => (hrecent a ha).1
      have hnow : (now - (now - historyRetentionMs)) / sampleIntervalMs ≤ 6 := by
        unfold historyRetentionMs sampleIntervalMs
        omega
      omega

theorem length_within_le {log : List FlowCall} (hspaced : Spaced log)
    {readings : List CounterSample} (hordered : Recent.Ordered CounterSample.atMs readings)
    (hlog : ∀ a ∈ readings, ∃ c ∈ log, a.atMs = c.nowMs) {now : ℕ}
    (hle : ∀ a ∈ readings, a.atMs ≤ now) :
    (Recent.within CounterSample.atMs historyRetentionMs now readings).length ≤ 7 := by
  rw [← List.length_map CounterSample.atMs]
  apply length_le_of_spaced
  · rw [List.pairwise_map]
    exact hordered.filter _
  · intro a ha b hb hab
    obtain ⟨x, hx, rfl⟩ := List.mem_map.mp ha
    obtain ⟨y, hy, rfl⟩ := List.mem_map.mp hb
    obtain ⟨c, hc, hxc⟩ := hlog x (List.mem_filter.mp hx).1
    obtain ⟨d, hd, hyd⟩ := hlog y (List.mem_filter.mp hy).1
    rw [hxc, hyd] at hab ⊢
    exact hspaced.gap c hc d hd hab
  · intro a ha
    obtain ⟨x, hx, rfl⟩ := List.mem_map.mp ha
    obtain ⟨hmem, hrecent⟩ := List.mem_filter.mp hx
    exact ⟨hle x hmem, of_decide_eq_true hrecent⟩

theorem of_mem_totals {log : List FlowCall} {a : CounterSample} (ha : a ∈ totals log) :
    ∃ c ∈ log, a.atMs = c.nowMs := by
  obtain ⟨⟨⟩⟩ | ha := Recent.mem_of_mem_foldl_push ha
  obtain ⟨c, hc, rfl⟩ := List.mem_map.mp ha
  exact ⟨c, hc, rfl⟩

theorem Follows.length_lb_le {log : List FlowCall} {s : TopologyFlowState} (h : Follows log s) :
    s.lb.samples.length ≤ 7 := by
  rw [h.lb]
  exact length_within_le h.spaced h.lb_agrees.ordered (fun a ha => of_mem_totals ha)
    h.lb_agrees.le

theorem Follows.length_edge_le {log : List FlowCall} {s : TopologyFlowState} (h : Follows log s)
    {key : String} {history : FlowHistory} (hlookup : s.edges.lookup key = some history) :
    history.samples ≠ [] ∧ history.samples.length ≤ 7 := by
  have hedges := h.edges key
  rw [hlookup, Option.map_some, left] at hedges
  obtain ⟨latest, hlatest, hsamples⟩ := Option.bind_eq_some_iff.mp hedges.symm
  split at hsamples
  · obtain ⟨older, hsightings⟩ := List.getLast?_eq_some_iff.mp hlatest
    have hsamples := Option.some.inj hsamples
    rw [← hsamples]
    constructor
    · intro hnil
      have hlast : (Recent.within CounterSample.atMs historyRetentionMs latest.atMs
          (sightings key log)).getLast? = some latest := Recent.getLast?_within hlatest
      rw [hnil] at hlast
      cases hlast
    · refine length_within_le h.spaced (h.sighted key).ordered (h.sighted key).of_log ?_
      intro a ha
      have hordered := (h.sighted key).ordered
      rw [hsightings] at ha hordered
      obtain ha | ha := List.mem_append.mp ha
      · exact ((List.pairwise_append.mp hordered).2.2 a ha latest (by simp)).le
      · rw [List.mem_singleton.mp ha]
  · cases hsamples

/-! ## What the rates are -/

/-- The sample that a rate starts from: the last one that is a window older than the latest, or the
oldest where none is so old. -/
structure Baseline (samples : List CounterSample) (latest : CounterSample) (windowMs : ℕ)
    (b : CounterSample) : Prop where
  mem : b ∈ samples
  le_of_window : ∀ a ∈ samples, windowMs ≤ latest.atMs - a.atMs → a.atMs ≤ b.atMs
  oldest : latest.atMs - b.atMs < windowMs → ∀ a ∈ samples, b.atMs ≤ a.atMs

/-- The rate in a second at which a counter has grown, by its samples, up to the latest. -/
def IsRate (samples : List CounterSample) (windowMs : ℕ) (value : CounterSample → ℕ) (r : ℚ) :
    Prop :=
  ∃ latest b, samples.getLast? = some latest ∧ Baseline samples latest windowMs b ∧
    (latest.atMs = b.atMs → r = 0) ∧
    (b.atMs < latest.atMs →
      r * (latest.atMs - b.atMs : ℕ) = (value latest - value b : ℕ) * 1000)

/-- The rates over a second and over five, and the change since the sample before the last. -/
structure Rates (samples : List CounterSample) (m : TopologyFlowMetrics) : Prop where
  rps1s : IsRate samples 1000 (·.requests) m.rps1s
  rps5s : IsRate samples 5000 (·.requests) m.rps5s
  bps1s : IsRate samples 1000 (·.bytes) m.bps1s
  bps5s : IsRate samples 5000 (·.bytes) m.bps5s
  delta : ∀ older previous latest, samples = older ++ [previous, latest] →
    m.deltaRequests = latest.requests - previous.requests ∧
      m.deltaBytes = latest.bytes - previous.bytes
  delta_single : samples.length = 1 → m.deltaRequests = 0 ∧ m.deltaBytes = 0

theorem isRate_rateOverWindow {h : FlowHistory} {latest : CounterSample}
    (hordered : Recent.Ordered CounterSample.atMs h.samples)
    (hlatest : h.samples.getLast? = some latest) (windowMs : ℕ) (value : CounterSample → ℕ) :
    IsRate h.samples windowMs value (h.rateOverWindow latest windowMs value) := by
  have hbaseline : ∃ b, Baseline h.samples latest windowMs b ∧
      (h.samples.reverse.find? fun sample => windowMs ≤ latest.atMs - sample.atMs).or
        h.samples.head? = some b := by
    cases hfind : h.samples.reverse.find? fun sample => windowMs ≤ latest.atMs - sample.atMs with
    | some b =>
      refine ⟨b, ?_, rfl⟩
      obtain ⟨hold, newer, older, hreverse, hnewer⟩ := List.find?_eq_some_iff_append.mp hfind
      have hold : windowMs ≤ latest.atMs - b.atMs := of_decide_eq_true hold
      have hmem : ∀ a, a ∈ h.samples ↔ a ∈ newer ++ b :: older := by
        intro a
        rw [← hreverse, List.mem_reverse]
      have hdecreasing : (newer ++ b :: older).Pairwise fun a a' => a'.atMs < a.atMs := by
        rw [← hreverse, List.pairwise_reverse]
        exact hordered
      refine ⟨(hmem b).mpr (by simp), fun a ha hwindow => ?_, fun hyoung => ?_⟩
      · obtain hnew | hrest := List.mem_append.mp ((hmem a).mp ha)
        · exact absurd hwindow (by simpa using hnewer a hnew)
        · obtain rfl | holder := List.mem_cons.mp hrest
          · exact le_rfl
          · have hpair := (List.pairwise_append.mp hdecreasing).2.1
            exact ((List.pairwise_cons.mp hpair).1 a holder).le
      · omega
    | none =>
      have hyoung := List.find?_eq_none.mp hfind
      cases hsamples : h.samples with
      | nil => simp [hsamples] at hlatest
      | cons b rest =>
        refine ⟨b, ⟨List.mem_cons_self, fun a ha hwindow => ?_, fun _ a ha => ?_⟩, rfl⟩
        · refine absurd hwindow ?_
          simpa using hyoung a (by rwa [hsamples, List.mem_reverse])
        · obtain rfl | hrest := List.mem_cons.mp ha
          · exact le_rfl
          · rw [hsamples] at hordered
            exact ((List.pairwise_cons.mp hordered).1 a hrest).le
  obtain ⟨b, hb, hfound⟩ := hbaseline
  refine ⟨latest, b, hlatest, hb, fun hsame => ?_, fun hlt => ?_⟩
  · simp only [FlowHistory.rateOverWindow, hfound]
    exact if_pos (by omega)
  · have helapsed : latest.atMs - b.atMs ≠ 0 := by omega
    have hne : ((latest.atMs - b.atMs : ℕ) : ℚ) ≠ 0 := Nat.cast_ne_zero.mpr helapsed
    simp only [FlowHistory.rateOverWindow, hfound, if_neg helapsed]
    exact div_mul_cancel₀ _ hne

theorem rates_flow {h : FlowHistory} (hordered : Recent.Ordered CounterSample.atMs h.samples)
    (hne : h.samples ≠ []) (nowMs : ℕ) : Rates h.samples (h.flow nowMs) := by
  obtain ⟨latest, hlatest⟩ := Option.ne_none_iff_exists'.mp (mt List.getLast?_eq_none_iff.mp hne)
  have hrate := isRate_rateOverWindow hordered hlatest
  have hdelta : ∀ older previous last, h.samples = older ++ [previous, last] →
      (h.flow nowMs).deltaRequests = last.requests - previous.requests ∧
        (h.flow nowMs).deltaBytes = last.bytes - previous.bytes := by
    intro older previous last hsamples
    simp [FlowHistory.flow, hsamples]
  have hsingle : h.samples.length = 1 →
      (h.flow nowMs).deltaRequests = 0 ∧ (h.flow nowMs).deltaBytes = 0 := by
    intro hlength
    obtain ⟨only, hsamples⟩ := List.length_eq_one_iff.mp hlength
    simp [FlowHistory.flow, hsamples]
  refine ⟨?_, ?_, ?_, ?_, hdelta, hsingle⟩
  · simpa only [FlowHistory.flow, hlatest] using hrate 1000 (·.requests)
  · simpa only [FlowHistory.flow, hlatest] using hrate 5000 (·.requests)
  · simpa only [FlowHistory.flow, hlatest] using hrate 1000 (·.bytes)
  · simpa only [FlowHistory.flow, hlatest] using hrate 5000 (·.bytes)

theorem Follows.ordered_edge {log : List FlowCall} {s : TopologyFlowState} (h : Follows log s)
    {key : String} {history : FlowHistory} (hlookup : s.edges.lookup key = some history) :
    Recent.Ordered CounterSample.atMs history.samples := by
  have hagrees := agrees_left (h.sighted key) h.spaced le_rfl
  rw [← h.edges key, hlookup] at hagrees
  exact hagrees.stored_ordered

theorem refreshLog_ne_nil (calls : List FlowCall) (c : FlowCall) :
    refreshLog (calls ++ [c]) ≠ [] := by
  rw [refreshLog_concat]
  split
  · simp
  · next hkept =>
    intro hnil
    exact hkept (.inr (by rw [hnil]; rfl))

theorem Follows.lb_ne_nil {log : List FlowCall} {s : TopologyFlowState} (h : Follows log s)
    (hne : log ≠ []) : s.lb.samples ≠ [] := by
  obtain ⟨init, c, rfl⟩ := List.eq_nil_or_concat' log |>.resolve_left hne
  have hlast : (totals (init ++ [c])).getLast? =
      some ⟨c.nowMs, c.requestsTotal, c.bytesReceivedTotal⟩ := by
    rw [totals_concat, Recent.getLast?_push]
  intro hnil
  have hwithin : (Recent.within CounterSample.atMs historyRetentionMs c.nowMs
      (totals (init ++ [c]))).getLast? = _ := Recent.getLast?_within hlast
  rw [h.lb, lastTime_concat] at hnil
  rw [hnil] at hwithin
  cases hwithin

/-- After every sequence of calls the samples that are kept are those of the refreshes that are
recent enough, and shown are the rates of what is kept. -/
theorem snapshot_run (calls : List FlowCall) (c : FlowCall) :
    let log := refreshLog (calls ++ [c])
    let after := ((run {} calls).snapshot c).1
    let shown := ((run {} calls).snapshot c).2
    Spaced log ∧
      after.lb.samples = Recent.within CounterSample.atMs historyRetentionMs (lastTime log)
        (totals log) ∧
      after.lb.samples.length ≤ 7 ∧
      Rates after.lb.samples shown.lb ∧
      ∀ key, (after.edges.lookup key).map (·.samples) = left key log ∧
        (∀ history ∈ after.edges.lookup key,
          history.samples ≠ [] ∧ history.samples.length ≤ 7) ∧
        (after.edges.lookup key = none → shown.edges.lookup key = none) ∧
        ∀ history ∈ after.edges.lookup key,
          ∃ m, shown.edges.lookup key = some m ∧ Rates history.samples m := by
  have hrun : ((run {} calls).snapshot c).1 = run {} (calls ++ [c]) := by
    simp [run, List.foldl_append]
  have hfollows := follows_run (calls ++ [c])
  rw [← hrun] at hfollows
  have hlb := hfollows.lb_ne_nil (refreshLog_ne_nil calls c)
  refine ⟨hfollows.spaced, hfollows.lb, hfollows.length_lb_le,
    rates_flow hfollows.lb_agrees.stored_ordered hlb c.nowMs, fun key => ?_⟩
  have hshown : ((run {} calls).snapshot c).2.edges.lookup key =
      (((run {} calls).snapshot c).1.edges.lookup key).map (·.flow c.nowMs) :=
    AssocMap.lookup_mapVals _ _ _
  refine ⟨hfollows.edges key, fun history hhistory => hfollows.length_edge_le hhistory, ?_, ?_⟩
  · intro hnone
    rw [hshown, hnone]
    rfl
  · intro history hhistory
    refine ⟨history.flow c.nowMs, by rw [hshown, hhistory]; rfl, ?_⟩
    exact rates_flow (hfollows.ordered_edge hhistory) (hfollows.length_edge_le hhistory).1 c.nowMs

end TopologyFlowState

end SentirumLb.Admin
