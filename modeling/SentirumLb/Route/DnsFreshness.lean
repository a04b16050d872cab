import SentirumLb.Lib.Runs
import SentirumLb.Route.DnsCache

/-! # Freshness of the DNS cache

Positive and negative entries share one map. An entry that is found was put
there by the latest store for its name that was allowed to store anything, and
nothing removed it since; one that was put there is found until it expires, is
removed, or has to make room for others.
-/

namespace SentirumLb

inductive DnsCall where
  | store (host : String) (addrs : List SocketAddr)
  | storeNegative (host : String)
  | lookupStatus (host : String)
  | remove (host : String)
  | clear
  | setTtl (defaultSecs negativeSecs : ℕ)

namespace DnsCache

structure Clocked where
  cache : DnsCache
  nowMs : ℕ

structure Stored where
  addrs : List SocketAddr
  negative : Bool
  atMs : ℕ
  /-- The lifetime in force at that time. -/
  ttlSecs : ℕ

def Stored.entry (st : Stored) : DnsCacheEntry :=
  ⟨st.addrs, expiry st.atMs st.ttlSecs, st.negative⟩

def Stored.outcome (st : Stored) : LookupOutcome :=
  if st.negative then .negative else .positive st.addrs

def stored (nowMs : ℕ) (c : DnsCache) : DnsCall → Option (String × Stored)
  | .store host addrs => some (host, ⟨addrs, false, nowMs, c.defaultTtlSecs⟩)
  | .storeNegative host => some (host, ⟨[], true, nowMs, c.negativeTtlSecs⟩)
  | _ => none

def stores (k : String) (s : Clocked) (l : ℕ × DnsCall) : Option Stored :=
  (s.cache.stored l.1 l.2).bind fun r => if k = r.1 ∧ r.2.ttlSecs ≠ 0 then some r.2 else none

def changesTtl (c : DnsCache) : DnsCall → Prop
  | .setTtl d n => c.defaultTtlSecs ≠ d ∨ c.negativeTtlSecs ≠ n
  | _ => False

/-- The call ends what was stored for the name before. -/
def disturbs (k : String) (s : Clocked) (l : ℕ × DnsCall) : Prop :=
  (stores k s l).isSome = true ∨ l.2 = .remove k ∨ l.2 = .clear ∨ s.cache.changesTtl l.2

section Calls

variable [Platform]

def perform (nowMs : ℕ) (c : DnsCache) : DnsCall → DnsCache
  | .store host addrs => c.store nowMs host addrs
  | .storeNegative host => c.storeNegative nowMs host
  | .lookupStatus host => (c.lookupStatus nowMs host).2
  | .remove host => c.remove host
  | .clear => c.clear
  | .setTtl defaultSecs negativeSecs => c.setTtl defaultSecs negativeSecs

/-- Calls come at times that do not decrease. -/
def step (s : Clocked) (l : ℕ × DnsCall) : Option Clocked :=
  if s.nowMs ≤ l.1 then some ⟨s.cache.perform l.1 l.2, l.1⟩ else none

def unexpired (nowMs : ℕ) (c : DnsCache) : AssocMap String DnsCacheEntry :=
  c.inner.retain fun _ e => !decide (e.expiresAtMs ≤ nowMs)

/-- The call stores something while there is no room for all unexpired entries, and the one of the
name, which has not expired, is dropped. -/
def evicts (k : String) (s : Clocked) (l : ℕ × DnsCall) : Prop :=
  ∃ r c, s.cache.stored l.1 l.2 = some r ∧ r.2.ttlSecs ≠ 0 ∧
    c = { s.cache with inner := s.cache.inner.insert r.1 r.2.entry } ∧
    dnsCacheMaxEntries < (c.unexpired l.1).entries.length ∧
    ((c.unexpired l.1).lookup k).isSome = true ∧
    (s.cache.perform l.1 l.2).inner.lookup k = none

/-- The latest call that stored something for the name stored this, and it was not removed since;
the calls from it on meet the condition. -/
def LatestStore (C : Clocked → ℕ × DnsCall → Prop) (s₀ : Clocked) (ls : List (ℕ × DnsCall))
    (k : String) (st : Stored) : Prop :=
  Runs.Since step (stores k) (disturbs k) C s₀ ls st

/-! ## One call -/

variable {nowMs : ℕ} {c : DnsCache} {k : String} {e : DnsCacheEntry} {s s' s₀ : Clocked}
  {l : ℕ × DnsCall} {ls : List (ℕ × DnsCall)} {st : Stored}

theorem perform_of_stored {call : DnsCall} {r : String × Stored}
    (h : c.stored nowMs call = some r) :
    c.perform nowMs call = c.storeEntry nowMs r.2.ttlSecs r.1 r.2.addrs r.2.negative ∧
      r.2.atMs = nowMs := by
  cases call with
  | store host addrs =>
    cases h
    exact ⟨rfl, rfl⟩
  | storeNegative host =>
    cases h
    exact ⟨rfl, rfl⟩
  | _ => cases h

theorem storeEntry_zero (c : DnsCache) (nowMs : ℕ) (host : String) (addrs : List SocketAddr)
    (negative : Bool) : c.storeEntry nowMs 0 host addrs negative = c := rfl

omit [Platform] in
theorem stores_eq_some_iff : stores k s l = some st ↔
    s.cache.stored l.1 l.2 = some (k, st) ∧ st.ttlSecs ≠ 0 := by
  unfold stores
  constructor
  · intro h
    obtain ⟨⟨host, r⟩, hr, h⟩ := Option.bind_eq_some_iff.mp h
    rw [Option.ite_none_right_eq_some, Option.some.injEq] at h
    obtain ⟨⟨rfl, httl⟩, rfl⟩ := h
    exact ⟨hr, httl⟩
  · rintro ⟨hr, httl⟩
    simp [hr, httl]

theorem lookup_evictIfOverCapacity (nowMs : ℕ) (c : DnsCache) (h : c.inner.lookup k = some e)
    (hfresh : nowMs < e.expiresAtMs) :
    (c.evictIfOverCapacity nowMs).inner.lookup k = some e ∨
      dnsCacheMaxEntries < (c.unexpired nowMs).entries.length ∧
        ((c.unexpired nowMs).lookup k).isSome = true ∧
        (c.evictIfOverCapacity nowMs).inner.lookup k = none := by
  have hkept : (c.unexpired nowMs).lookup k = some e := by
    rw [unexpired, AssocMap.lookup_retain, h, Option.filter_some, if_pos (by simpa using hfresh)]
  have hshrinks := shrinks_evictIfOverCapacity nowMs c k
  cases hafter : (c.evictIfOverCapacity nowMs).inner.lookup k with
  | some e' =>
    have he := hshrinks e' hafter
    rw [h] at he
    exact Or.inl he.symm
  | none =>
    refine Or.inr ⟨?_, by simp [hkept], rfl⟩
    by_contra hroom
    rw [Nat.not_lt] at hroom
    unfold unexpired at hroom hkept
    unfold evictIfOverCapacity at hafter
    dsimp only at hafter
    split at hafter
    · rw [h] at hafter
      cases hafter
    · exact Option.some_ne_none e (hkept.symm.trans hafter)

omit [Platform] in
theorem disturbs_of_stored {r : String × Stored} (h : s.cache.stored l.1 l.2 = some r) :
    disturbs k s l ↔ k = r.1 ∧ r.2.ttlSecs ≠ 0 := by
  obtain ⟨t, call⟩ := l
  have hstores : (stores k s (t, call)).isSome = true ↔ k = r.1 ∧ r.2.ttlSecs ≠ 0 := by
    unfold stores
    rw [h, Option.bind_some, Option.isSome_ite]
  cases call with
  | store host addrs => simp [disturbs, hstores, changesTtl]
  | storeNegative host => simp [disturbs, hstores, changesTtl]
  | _ => cases h

theorem lookup_perform_cases (h : (s.cache.perform l.1 l.2).inner.lookup k = some e) :
    (∃ st, stores k s l = some st ∧ e = st.entry) ∨
      ¬disturbs k s l ∧ s.cache.inner.lookup k = some e := by
  cases hstored : s.cache.stored l.1 l.2 with
  | some r =>
    obtain ⟨hperform, hat⟩ := perform_of_stored hstored
    rw [hperform] at h
    rcases lookup_storeEntry_cases h with ⟨rfl, httl, rfl⟩ | ⟨hne, hbefore⟩
    · refine Or.inl ⟨r.2, stores_eq_some_iff.mpr ⟨hstored, httl⟩, ?_⟩
      rw [Stored.entry, hat]
    · exact Or.inr ⟨fun hd => hne ((disturbs_of_stored hstored).mp hd), hbefore⟩
  | none =>
    refine Or.inr ?_
    obtain ⟨t, call⟩ := l
    cases call with
    | store host addrs => cases hstored
    | storeNegative host => cases hstored
    | lookupStatus host =>
      refine ⟨?_, shrinks_lookupStatus t host s.cache k e h⟩
      simp [disturbs, stores, stored, changesTtl]
    | remove host =>
      have hbefore := shrinks_remove host s.cache k e h
      refine ⟨?_, hbefore⟩
      rintro (hst | hremove | hclear | hchange)
      · simp [stores, stored] at hst
      · cases hremove
        rw [perform, DnsCache.remove, AList.lookup_erase] at h
        cases h
      · cases hclear
      · exact hchange
    | clear => simp [perform, DnsCache.clear] at h
    | setTtl d n =>
      have hsame : ¬s.cache.changesTtl (.setTtl d n) := by
        intro hchange
        change s.cache.defaultTtlSecs ≠ d ∨ s.cache.negativeTtlSecs ≠ n at hchange
        simp [perform, setTtl, hchange, DnsCache.clear] at h
      refine ⟨?_, shrinks_setTtl d n s.cache k e h⟩
      simpa [disturbs, stores, stored] using hsame

theorem lookup_perform_of_stores (hst : stores k s l = some st) (hroom : ¬evicts k s l)
    (hfresh : l.1 < st.entry.expiresAtMs) :
    (s.cache.perform l.1 l.2).inner.lookup k = some st.entry := by
  obtain ⟨hstored, httl⟩ := stores_eq_some_iff.mp hst
  obtain ⟨hperform, hat⟩ := perform_of_stored hstored
  have hentry : st.entry = ⟨st.addrs, expiry l.1 st.ttlSecs, st.negative⟩ := by
    rw [Stored.entry, show st.atMs = l.1 from hat]
  have hevict := lookup_evictIfOverCapacity l.1
    { s.cache with inner := s.cache.inner.insert k st.entry }
    (AList.lookup_insert s.cache.inner) hfresh
  have hafter : s.cache.perform l.1 l.2 =
      evictIfOverCapacity l.1 { s.cache with inner := s.cache.inner.insert k st.entry } := by
    rw [hperform, storeEntry, if_neg httl, hentry]
  rcases hevict with hkept | ⟨hover, hsome, hnone⟩
  · rw [hafter, hkept]
  · exact absurd ⟨_, _, hstored, httl, rfl, hover, hsome, by rw [hafter, hnone]⟩ hroom

omit [Platform] in
theorem lookup_lookupStatus {host : String} (h : c.inner.lookup k = some e)
    (hfresh : nowMs < e.expiresAtMs) : (c.lookupStatus nowMs host).2.inner.lookup k = some e := by
  unfold lookupStatus
  split
  · exact h
  · next entry hentry =>
    split
    · next hexpired =>
      have hne : k ≠ host := by
        rintro rfl
        rw [h, Option.some.injEq] at hentry
        subst hentry
        exact Nat.not_le.mpr hfresh hexpired
      rw [DnsCache.remove, AList.lookup_erase_ne hne, h]
    · split <;> exact h

theorem lookup_perform_of_not_disturbs (hdisturbs : ¬disturbs k s l) (hroom : ¬evicts k s l)
    (h : s.cache.inner.lookup k = some e) (hfresh : l.1 < e.expiresAtMs) :
    (s.cache.perform l.1 l.2).inner.lookup k = some e := by
  cases hstored : s.cache.stored l.1 l.2 with
  | some r =>
    obtain ⟨hperform, hat⟩ := perform_of_stored hstored
    by_cases httl : r.2.ttlSecs = 0
    · rw [hperform, httl, storeEntry_zero, h]
    · have hne : k ≠ r.1 := fun hk => hdisturbs ((disturbs_of_stored hstored).mpr ⟨hk, httl⟩)
      have hafter : s.cache.perform l.1 l.2 =
          evictIfOverCapacity l.1 { s.cache with inner := s.cache.inner.insert r.1 r.2.entry } := by
        rw [hperform, storeEntry, if_neg httl, Stored.entry, hat]
      have hinsert : (s.cache.inner.insert r.1 r.2.entry).lookup k = some e := by
        rw [AList.lookup_insert_ne hne, h]
      rcases lookup_evictIfOverCapacity l.1
        { s.cache with inner := s.cache.inner.insert r.1 r.2.entry } hinsert hfresh with
        hkept | ⟨hover, hsome, hnone⟩
      · rw [hafter, hkept]
      · exact absurd ⟨r, _, hstored, httl, rfl, hover, hsome, by rw [hafter, hnone]⟩ hroom
  | none =>
    obtain ⟨t, call⟩ := l
    cases call with
    | store host addrs => cases hstored
    | storeNegative host => cases hstored
    | lookupStatus host => exact lookup_lookupStatus h hfresh
    | remove host =>
      have hne : k ≠ host := by
        rintro rfl
        exact hdisturbs (Or.inr (Or.inl rfl))
      rw [perform, DnsCache.remove, AList.lookup_erase_ne hne, h]
    | clear => exact absurd (Or.inr (Or.inr (Or.inl rfl))) hdisturbs
    | setTtl d n =>
      have hsame : ¬(s.cache.defaultTtlSecs ≠ d ∨ s.cache.negativeTtlSecs ≠ n) :=
        fun hchange => hdisturbs (Or.inr (Or.inr (Or.inr hchange)))
      simp only [perform, setTtl, if_neg hsame, h]

/-! ## Runs -/

theorem step_eq_some_iff : step s l = some s' ↔
    s.nowMs ≤ l.1 ∧ s' = ⟨s.cache.perform l.1 l.2, l.1⟩ := by
  rw [step, Option.ite_none_right_eq_some, Option.some.injEq, eq_comm (a := s')]

/-- Every entry was put there by the latest store for its name. -/
theorem latestStore_of_lookup {d n t₀ : ℕ}
    (hrun : Runs.run step ⟨withTtl d n, t₀⟩ ls = some s) (h : s.cache.inner.lookup k = some e) :
    ∃ st, LatestStore (fun _ _ => True) ⟨withTtl d n, t₀⟩ ls k st ∧ e = st.entry := by
  induction ls using List.reverseRecOn generalizing s with
  | nil =>
    cases hrun
    simp [withTtl] at h
  | append_singleton ls l ih =>
    rw [Runs.run_append, Option.bind_eq_some_iff] at hrun
    obtain ⟨a, ha, hlast⟩ := hrun
    have hstep : step a l = some s := by simpa [Runs.run_cons, Runs.run] using hlast
    obtain ⟨hle, rfl⟩ := step_eq_some_iff.mp hstep
    rcases lookup_perform_cases h with ⟨st, hst, rfl⟩ | ⟨hdisturbs, hbefore⟩
    · exact ⟨st, (Runs.since_concat ha hstep).mpr ⟨trivial, Or.inl hst⟩, rfl⟩
    · obtain ⟨st, hsince, rfl⟩ := ih ha hbefore
      exact ⟨st, (Runs.since_concat ha hstep).mpr ⟨trivial, Or.inr ⟨hdisturbs, hsince⟩⟩, rfl⟩

/-- What the latest store put there is there until it expires or is dropped for room. -/
theorem lookup_of_latestStore (hrun : Runs.run step s₀ ls = some s)
    (h : LatestStore (fun s l => ¬evicts k s l) s₀ ls k st) :
    st.atMs ≤ s.nowMs ∧
      (s.nowMs < st.entry.expiresAtMs → s.cache.inner.lookup k = some st.entry) := by
  induction ls using List.reverseRecOn generalizing s with
  | nil => exact absurd h Runs.not_since_nil
  | append_singleton ls l ih =>
    rw [Runs.run_append, Option.bind_eq_some_iff] at hrun
    obtain ⟨a, ha, hlast⟩ := hrun
    have hstep : step a l = some s := by simpa [Runs.run_cons, Runs.run] using hlast
    obtain ⟨hle, rfl⟩ := step_eq_some_iff.mp hstep
    obtain ⟨hroom, hst | ⟨hdisturbs, hsince⟩⟩ := (Runs.since_concat ha hstep).mp h
    · refine ⟨?_, lookup_perform_of_stores hst hroom⟩
      exact (perform_of_stored (stores_eq_some_iff.mp hst).1).2.le
    · obtain ⟨hat, hbefore⟩ := ih ha hsince
      refine ⟨hat.trans hle, fun hfresh => ?_⟩
      exact lookup_perform_of_not_disturbs hdisturbs hroom (hbefore (lt_of_le_of_lt hle hfresh))
        hfresh

/-! ## Lookups -/

omit [Platform] in
theorem lookupStatus_ne_miss (h : (c.lookupStatus nowMs k).1 ≠ .miss) :
    ∃ e, c.inner.lookup k = some e ∧ nowMs < e.expiresAtMs := by
  unfold lookupStatus at h
  split at h
  · exact absurd rfl h
  · next e he =>
    split at h
    · exact absurd rfl h
    · next hfresh => exact ⟨e, he, Nat.lt_of_not_le hfresh⟩

omit [Platform] in
theorem lookupStatus_entry (h : c.inner.lookup k = some st.entry)
    (hfresh : nowMs < st.entry.expiresAtMs) : (c.lookupStatus nowMs k).1 = st.outcome := by
  unfold lookupStatus
  rw [h]
  dsimp only
  rw [if_neg (Nat.not_le.mpr hfresh), Stored.outcome]
  cases hneg : st.negative <;> simp [Stored.entry, hneg]

/-- After any calls at times that do not decrease, a lookup answers with what the latest store for
the name put there, within its lifetime. It does answer so until the entry is dropped for room, if
the time of expiry fits the `u64` that it is computed in. While a lifetime is zero its stores do
nothing. -/
theorem lookupStatus_fresh {d n t₀ : ℕ} (hrun : Runs.run step ⟨withTtl d n, t₀⟩ ls = some s)
    (k : String) {t : ℕ} (ht : s.nowMs ≤ t) :
    ((s.cache.lookupStatus t k).1 ≠ .miss →
      ∃ st, LatestStore (fun _ _ => True) ⟨withTtl d n, t₀⟩ ls k st ∧
        (s.cache.lookupStatus t k).1 = st.outcome ∧ t < st.atMs + 1000 * st.ttlSecs) ∧
      (∀ st, LatestStore (fun s l => ¬evicts k s l) ⟨withTtl d n, t₀⟩ ls k st →
        st.atMs + 1000 * st.ttlSecs < 2 ^ 64 → t < st.atMs + 1000 * st.ttlSecs →
        (s.cache.lookupStatus t k).1 = st.outcome) ∧
      (s.cache.defaultTtlSecs = 0 → ∀ host addrs, s.cache.store t host addrs = s.cache) ∧
      (s.cache.negativeTtlSecs = 0 → ∀ host, s.cache.storeNegative t host = s.cache) := by
  refine ⟨?_, ?_, ?_, ?_⟩
  · intro hne
    obtain ⟨e, he, hfresh⟩ := lookupStatus_ne_miss hne
    obtain ⟨st, hsince, rfl⟩ := latestStore_of_lookup hrun he
    refine ⟨st, hsince, lookupStatus_entry he hfresh, lt_of_lt_of_le hfresh ?_⟩
    rw [Stored.entry, expiry, Nat.mul_comm]
    exact Nat.mod_le _ _
  · intro st hsince hfits hlt
    obtain ⟨-, hlookup⟩ := lookup_of_latestStore hrun hsince
    have hexpires : st.entry.expiresAtMs = st.atMs + 1000 * st.ttlSecs := by
      rw [Stored.entry, expiry, Nat.mul_comm, Nat.mod_eq_of_lt hfits]
    have hfresh : t < st.entry.expiresAtMs := by rw [hexpires]; exact hlt
    exact lookupStatus_entry (hlookup (lt_of_le_of_lt ht hfresh)) hfresh
  · intro hzero host addrs
    rw [store, hzero, storeEntry_zero]
  · intro hzero host
    rw [storeNegative, hzero, storeEntry_zero]

end Calls

attribute [local instance] Platform.plain

def sampleCalls : List (ℕ × DnsCall) :=
  [(0, .store "a:80" [⟨.v4 ⟨10, 0, 0, 1⟩, 80⟩]), (5, .storeNegative "b:80"), (9, .setTtl 30 10),
    (20000, .lookupStatus "b:80")]

theorem lookupStatus_fresh_sampleCalls : ∃ s,
    Runs.run step ⟨withTtl 30 10, 0⟩ sampleCalls = some s ∧
      (s.cache.lookupStatus 29999 "a:80").1 = .positive [⟨.v4 ⟨10, 0, 0, 1⟩, 80⟩] ∧
      ∃ st, LatestStore (fun _ _ => True) ⟨withTtl 30 10, 0⟩ sampleCalls "a:80" st ∧
        (s.cache.lookupStatus 29999 "a:80").1 = st.outcome := by
  have hs : (Runs.run step ⟨withTtl 30 10, 0⟩ sampleCalls).map
      (fun s => (s.nowMs, (s.cache.lookupStatus 29999 "a:80").1)) =
        some (20000, .positive [⟨.v4 ⟨10, 0, 0, 1⟩, 80⟩]) := by decide +kernel
  obtain ⟨s, hrun, he⟩ := Option.map_eq_some_iff.mp hs
  rw [Prod.mk.injEq] at he
  obtain ⟨hnow, hanswer⟩ := he
  obtain ⟨hfound, -⟩ := lookupStatus_fresh hrun "a:80" (t := 29999) (by omega)
  obtain ⟨st, hsince, houtcome, -⟩ := hfound (by rw [hanswer]; simp)
  exact ⟨s, hrun, hanswer, st, hsince, houtcome⟩

/-- A lifetime of `2 ^ 63` seconds is `500 * 2 ^ 64` milliseconds. -/
def overflowingCalls : List (ℕ × DnsCall) :=
  [(0, .setTtl (2 ^ 63) 60), (0, .store "a:80" [⟨.v4 ⟨10, 0, 0, 1⟩, 80⟩])]

/-- What was stored is not returned, long before the end of its lifetime. -/
theorem miss_overflowingCalls : ∃ s st,
    Runs.run step ⟨withTtl 30 10, 0⟩ overflowingCalls = some s ∧
      LatestStore (fun s l => ¬evicts "a:80" s l) ⟨withTtl 30 10, 0⟩ overflowingCalls "a:80" st ∧
      s.nowMs ≤ 1 ∧ 1 < st.atMs + 1000 * st.ttlSecs ∧
      (s.cache.lookupStatus 1 "a:80").1 ≠ st.outcome := by
  let st : Stored := ⟨[⟨.v4 ⟨10, 0, 0, 1⟩, 80⟩], false, 0, 2 ^ 63⟩
  let a : Clocked := ⟨⟨∅, 2 ^ 63, 60⟩, 0⟩
  have hroom : ¬evicts "a:80" a (0, .store "a:80" st.addrs) := by
    rintro ⟨r, c, hstored, -, rfl, hover, -⟩
    cases hstored
    exact absurd hover (by decide +kernel)
  refine ⟨_, st, rfl, ⟨[(0, .setTtl (2 ^ 63) 60)], (0, .store "a:80" st.addrs), [], a, _, rfl, rfl,
    rfl, rfl, hroom, trivial⟩, by decide, by decide, by decide +kernel⟩

end DnsCache

end SentirumLb
