import SentirumLb.Route.Target

/-! # The DNS cache

A map from `host:port` to resolved addresses, with an expiry per entry. Times
are milliseconds of a monotonic clock in a `u64`, and are arguments here.
Counters that only report hits and misses are left out.
-/

namespace SentirumLb

inductive LookupOutcome where
  | positive (addrs : List SocketAddr)
  | negative
  | miss
  deriving DecidableEq

structure DnsCacheEntry where
  addrs : List SocketAddr
  expiresAtMs : ℕ
  negative : Bool
  deriving DecidableEq

structure DnsCache where
  inner : AssocMap String DnsCacheEntry
  defaultTtlSecs : ℕ
  negativeTtlSecs : ℕ

@[irreducible] def dnsCacheMaxEntries : ℕ := 10000

namespace DnsCache

def withTtl (defaultTtlSecs negativeTtlSecs : ℕ) : DnsCache := ⟨∅, defaultTtlSecs, negativeTtlSecs⟩

def new : DnsCache := withTtl 30 10

def clear (c : DnsCache) : DnsCache := { c with inner := ∅ }

def remove (host : String) (c : DnsCache) : DnsCache := { c with inner := c.inner.erase host }

def setTtl (defaultSecs negativeSecs : ℕ) (c : DnsCache) : DnsCache :=
  let c' := { c with defaultTtlSecs := defaultSecs, negativeTtlSecs := negativeSecs }
  if c.defaultTtlSecs ≠ defaultSecs ∨ c.negativeTtlSecs ≠ negativeSecs then c'.clear else c'

@[simp] theorem defaultTtlSecs_setTtl (d n : ℕ) (c : DnsCache) :
    (c.setTtl d n).defaultTtlSecs = d := by
  unfold setTtl
  dsimp only
  split <;> rfl

@[simp] theorem negativeTtlSecs_setTtl (d n : ℕ) (c : DnsCache) :
    (c.setTtl d n).negativeTtlSecs = n := by
  unfold setTtl
  dsimp only
  split <;> rfl

/-- An expired entry is removed and counts as a miss. -/
def lookupStatus (nowMs : ℕ) (host : String) (c : DnsCache) : LookupOutcome × DnsCache :=
  match c.inner.lookup host with
  | none => (.miss, c)
  | some entry =>
      if entry.expiresAtMs ≤ nowMs then (.miss, c.remove host)
      else if entry.negative then (.negative, c)
      else (.positive entry.addrs, c)

section Store

variable [Platform]

def evictIfOverCapacity (nowMs : ℕ) (c : DnsCache) : DnsCache :=
  if c.inner.entries.length ≤ dnsCacheMaxEntries then c
  else
    let kept := c.inner.retain fun _ e => !decide (e.expiresAtMs ≤ nowMs)
    if kept.entries.length ≤ dnsCacheMaxEntries then { c with inner := kept }
    else
      let entries := kept.entries.map fun e => (e.1, e.2.expiresAtMs)
      let toRemove := kept.entries.length - dnsCacheMaxEntries
      let entries :=
        if toRemove < entries.length then Platform.selectNth toRemove entries else entries
      { c with inner := (entries.take toRemove).foldl (fun m e => m.erase e.1) kept }

/-- The expiry of an entry stored now, in wrapping `u64` arithmetic. -/
def expiry (nowMs ttlSecs : ℕ) : ℕ := (nowMs + ttlSecs * 1000) % 2 ^ 64

/-- Insert an entry that lives for the given time, unless that time is zero. -/
def storeEntry (nowMs ttlSecs : ℕ) (host : String) (addrs : List SocketAddr) (negative : Bool)
    (c : DnsCache) : DnsCache :=
  if ttlSecs = 0 then c
  else
    evictIfOverCapacity nowMs
      { c with inner := c.inner.insert host ⟨addrs, expiry nowMs ttlSecs, negative⟩ }

def store (nowMs : ℕ) (host : String) (addrs : List SocketAddr) (c : DnsCache) : DnsCache :=
  c.storeEntry nowMs c.defaultTtlSecs host addrs false

def storeNegative (nowMs : ℕ) (host : String) (c : DnsCache) : DnsCache :=
  c.storeEntry nowMs c.negativeTtlSecs host [] true

end Store

/-! ## Where entries come from -/

def Shrinks (c c' : DnsCache) : Prop :=
  ∀ k e, c'.inner.lookup k = some e → c.inner.lookup k = some e

theorem Shrinks.refl (c : DnsCache) : Shrinks c c := fun _ _ h => h

theorem shrinks_remove (host : String) (c : DnsCache) : Shrinks c (c.remove host) := by
  intro k e h
  exact AssocMap.lookup_of_lookup_erase h

theorem shrinks_clear (c : DnsCache) : Shrinks c c.clear := by
  intro k e h
  simp [clear] at h

theorem shrinks_setTtl (d n : ℕ) (c : DnsCache) : Shrinks c (c.setTtl d n) := by
  unfold setTtl
  dsimp only
  split
  · exact shrinks_clear _
  · exact Shrinks.refl _

theorem shrinks_lookupStatus (nowMs : ℕ) (host : String) (c : DnsCache) :
    Shrinks c (c.lookupStatus nowMs host).2 := by
  unfold lookupStatus
  split
  · exact Shrinks.refl c
  · split
    · exact shrinks_remove host c
    · split <;> exact Shrinks.refl c

theorem lookup_of_lookupStatus {nowMs : ℕ} {host : String} {c : DnsCache}
    {addrs : List SocketAddr} (h : (c.lookupStatus nowMs host).1 = .positive addrs) :
    ∃ e, c.inner.lookup host = some e ∧ e.addrs = addrs := by
  unfold lookupStatus at h
  split at h
  · cases h
  · next entry hentry =>
    split at h
    · cases h
    · split at h
      · cases h
      · cases h
        exact ⟨entry, hentry, rfl⟩

variable [Platform]

theorem shrinks_evictIfOverCapacity (nowMs : ℕ) (c : DnsCache) :
    Shrinks c (c.evictIfOverCapacity nowMs) := by
  have hretain : ∀ k e, (c.inner.retain fun _ e => !decide (e.expiresAtMs ≤ nowMs)).lookup k =
      some e → c.inner.lookup k = some e := by
    intro k e h
    rw [AssocMap.lookup_retain, Option.filter_eq_some_iff] at h
    exact h.1
  unfold evictIfOverCapacity
  dsimp only
  split
  · exact Shrinks.refl c
  · split
    · exact hretain
    · intro k e h
      apply hretain
      exact AssocMap.lookup_of_lookup_foldl_erase h

theorem lookup_storeEntry_cases {nowMs ttlSecs : ℕ} {host : String} {addrs : List SocketAddr}
    {negative : Bool} {c : DnsCache} {k : String} {e : DnsCacheEntry}
    (h : (c.storeEntry nowMs ttlSecs host addrs negative).inner.lookup k = some e) :
    (k = host ∧ ttlSecs ≠ 0 ∧ e = ⟨addrs, expiry nowMs ttlSecs, negative⟩) ∨
      ¬(k = host ∧ ttlSecs ≠ 0) ∧ c.inner.lookup k = some e := by
  unfold storeEntry at h
  split at h
  · next h0 => exact Or.inr ⟨fun hk => hk.2 h0, h⟩
  · next h0 =>
    have hi := shrinks_evictIfOverCapacity nowMs _ k e h
    by_cases hk : k = host
    · subst hk
      rw [AList.lookup_insert, Option.some.injEq] at hi
      exact Or.inl ⟨rfl, h0, hi.symm⟩
    · rw [AList.lookup_insert_ne hk] at hi
      exact Or.inr ⟨fun hk' => hk hk'.1, hi⟩

theorem lookup_storeEntry {nowMs ttlSecs : ℕ} {host : String} {addrs : List SocketAddr}
    {negative : Bool} {c : DnsCache} {k : String} {e : DnsCacheEntry}
    (h : (c.storeEntry nowMs ttlSecs host addrs negative).inner.lookup k = some e) :
    c.inner.lookup k = some e ∨ k = host ∧ e.addrs = addrs ∧ e.negative = negative := by
  rcases lookup_storeEntry_cases h with ⟨hk, -, rfl⟩ | ⟨-, he⟩
  · exact Or.inr ⟨hk, rfl, rfl⟩
  · exact Or.inl he

end DnsCache

end SentirumLb
