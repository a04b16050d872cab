import SentirumLb.Route.DnsFreshness

/-! # Eviction from the DNS cache

A cache that a store leaves too large first loses its expired entries, and then,
if that is not enough, as many of those that expire first as it has too many. A
partial selection finds these: it puts the entries with the smallest expiry in
front, in no particular order.
-/

namespace SentirumLb

/-- A selection puts the `n` entries with the smallest keys in front. -/
structure Platform.SelectsNth [Platform] : Prop where
  perm : ∀ n l, n < l.length → (Platform.selectNth n l).Perm l
  le : ∀ n l, n < l.length → ∀ a ∈ (Platform.selectNth n l).take n,
    ∀ b ∈ (Platform.selectNth n l).drop n, a.2 ≤ b.2

namespace DnsCache

def size (c : DnsCache) : ℕ := c.inner.entries.length

/-- What an eviction leaves of a cache. -/
structure Evicted (nowMs : ℕ) (c c' : DnsCache) : Prop where
  size_le : c'.size ≤ dnsCacheMaxEntries
  shrinks : Shrinks c c'
  removed : ∀ k e, c.inner.lookup k = some e → c'.inner.lookup k = none → e.expiresAtMs ≤ nowMs ∨
    ∀ k' e', c'.inner.lookup k' = some e' → e.expiresAtMs ≤ e'.expiresAtMs
  eq_of_size_le : c.size ≤ dnsCacheMaxEntries → c' = c

theorem dnsCacheMaxEntries_pos : 0 < dnsCacheMaxEntries := by
  rw [dnsCacheMaxEntries]
  decide

theorem lookup_unexpired {nowMs : ℕ} {c : DnsCache} {k : String} {e : DnsCacheEntry}
    (h : c.inner.lookup k = some e) (hfresh : ¬e.expiresAtMs ≤ nowMs) :
    (c.unexpired nowMs).lookup k = some e := by
  rw [unexpired, AssocMap.lookup_retain, h, Option.filter_some, if_pos (by simpa using hfresh)]

theorem Shrinks.size_le {c c' : DnsCache} (h : Shrinks c c') : c'.size ≤ c.size := by
  refine (List.subperm_of_subset c'.inner.nodupKeys.nodup ?_).length_le
  intro e he
  exact AssocMap.lookup_eq_some_iff.mp (h _ _ (AssocMap.lookup_eq_some_iff.mpr he))

def expiries (m : AssocMap String DnsCacheEntry) : List (String × ℕ) :=
  m.entries.map fun e => (e.1, e.2.expiresAtMs)

theorem mem_expiries_iff {m : AssocMap String DnsCacheEntry} {x : String × ℕ} :
    x ∈ expiries m ↔ ∃ e, m.lookup x.1 = some e ∧ e.expiresAtMs = x.2 := by
  obtain ⟨k, expiry⟩ := x
  simp only [expiries, List.mem_map, AssocMap.lookup_eq_some_iff]
  constructor
  · rintro ⟨e, he, heq⟩
    cases heq
    exact ⟨e.2, he, rfl⟩
  · rintro ⟨e, he, rfl⟩
    exact ⟨⟨k, e⟩, he, rfl⟩

theorem length_foldl_erase_expiries {m : AssocMap String DnsCacheEntry} {l : List (String × ℕ)}
    (hperm : l.Perm (expiries m)) {n : ℕ} (hn : n ≤ m.entries.length) :
    ((l.take n).foldl (fun m e => m.erase e.1) m).entries.length + n = m.entries.length := by
  have hnodup : (l.map (·.1)).Nodup := by
    refine (hperm.map _).nodup_iff.mpr ?_
    rw [expiries, List.map_map]
    exact m.nodupKeys
  have hkeys : ∀ x ∈ l.take n, x.1 ∈ m := by
    intro x hx
    obtain ⟨e, he, -⟩ := mem_expiries_iff.mp (hperm.mem_iff.mp (List.mem_of_mem_take hx))
    exact AList.lookup_isSome.mp (he ▸ rfl)
  have hlen : l.length = m.entries.length := by rw [hperm.length_eq, expiries, List.length_map]
  have herase := AssocMap.length_foldl_erase (hnodup.sublist ((List.take_sublist n l).map _)) hkeys
  rwa [List.length_take, hlen, Nat.min_eq_left hn] at herase

section Evict

variable [Platform]

/-- The second phase removes as many entries as there are too many, and those that expire first. -/
theorem evict_selected (hselects : Platform.SelectsNth) {limit : ℕ} (hpos : 0 < limit)
    {m : AssocMap String DnsCacheEntry} (hlarge : limit < m.entries.length) :
    let entries := m.entries.map fun e => (e.1, e.2.expiresAtMs)
    let toRemove := m.entries.length - limit
    let m' := ((Platform.selectNth toRemove entries).take toRemove).foldl
      (fun m e => m.erase e.1) m
    m'.entries.length = limit ∧
      ∀ k e, m.lookup k = some e → m'.lookup k = none →
        ∀ k' e', m'.lookup k' = some e' → e.expiresAtMs ≤ e'.expiresAtMs := by
  intro entries toRemove m'
  have hlt : toRemove < entries.length := by
    rw [List.length_map]
    exact Nat.sub_lt (by omega) hpos
  have hperm : (Platform.selectNth toRemove entries).Perm (expiries m) := hselects.perm _ _ hlt
  have hlength : m'.entries.length + toRemove = m.entries.length :=
    length_foldl_erase_expiries hperm (Nat.sub_le _ _)
  refine ⟨by omega, ?_⟩
  intro k e he hgone k' e' he'
  simp only [m', AssocMap.lookup_foldl_erase] at hgone he'
  rw [Option.ite_none_left_eq_some] at he'
  have hfront : (k, e.expiresAtMs) ∈ (Platform.selectNth toRemove entries).take toRemove := by
    split at hgone
    · next hkey =>
      obtain ⟨x, hx, rfl⟩ := List.mem_map.mp hkey
      obtain ⟨e₁, he₁, hexpiry⟩ :=
        mem_expiries_iff.mp (hperm.mem_iff.mp (List.mem_of_mem_take hx))
      rw [he, Option.some.injEq] at he₁
      rwa [he₁, hexpiry]
    · rw [he] at hgone
      cases hgone
  have hback : (k', e'.expiresAtMs) ∈ (Platform.selectNth toRemove entries).drop toRemove := by
    have hall : (k', e'.expiresAtMs) ∈ Platform.selectNth toRemove entries :=
      hperm.mem_iff.mpr (mem_expiries_iff.mpr ⟨e', he'.2, rfl⟩)
    rw [← List.take_append_drop toRemove (Platform.selectNth toRemove entries),
      List.mem_append] at hall
    exact hall.resolve_left fun hin => he'.1 (List.mem_map_of_mem hin)
  exact hselects.le _ _ hlt _ hfront _ hback

theorem evicted_evictIfOverCapacity (hselects : Platform.SelectsNth) (nowMs : ℕ) (c : DnsCache) :
    Evicted nowMs c (c.evictIfOverCapacity nowMs) := by
  have hshrinks := shrinks_evictIfOverCapacity nowMs c
  unfold evictIfOverCapacity at hshrinks ⊢
  dsimp only at hshrinks ⊢
  by_cases hsmall : c.inner.entries.length ≤ dnsCacheMaxEntries
  · rw [if_pos hsmall] at hshrinks ⊢
    refine ⟨hsmall, hshrinks, fun k e he hgone => ?_, fun _ => rfl⟩
    rw [he] at hgone
    cases hgone
  · rw [if_neg hsmall] at hshrinks ⊢
    by_cases hkept : (c.unexpired nowMs).entries.length ≤ dnsCacheMaxEntries
    · rw [unexpired] at hkept
      rw [if_pos hkept] at hshrinks ⊢
      refine ⟨hkept, hshrinks, fun k e he hgone => Or.inl ?_, fun h => absurd h hsmall⟩
      by_contra hfresh
      have hfound := lookup_unexpired he hfresh
      rw [unexpired] at hfound
      rw [hfound] at hgone
      cases hgone
    · have hlarge := Nat.lt_of_not_le hkept
      obtain ⟨hsize, horder⟩ := evict_selected hselects dnsCacheMaxEntries_pos hlarge
      have hcut : (c.unexpired nowMs).entries.length - dnsCacheMaxEntries <
          ((c.unexpired nowMs).entries.map fun e => (e.1, e.2.expiresAtMs)).length := by
        rw [List.length_map]
        exact Nat.sub_lt (Nat.lt_of_le_of_lt (Nat.zero_le _) hlarge) dnsCacheMaxEntries_pos
      have hfresh : ∀ k e, c.inner.lookup k = some e → ¬e.expiresAtMs ≤ nowMs →
          (c.unexpired nowMs).lookup k = some e := fun k e => lookup_unexpired
      rw [unexpired] at hkept hsize horder hcut hfresh
      rw [if_neg hkept, if_pos hcut] at hshrinks ⊢
      refine ⟨hsize.le, hshrinks, fun k e he hgone => ?_, fun h => absurd h hsmall⟩
      by_cases hexpired : e.expiresAtMs ≤ nowMs
      · exact Or.inl hexpired
      · exact Or.inr (horder k e (hfresh k e he hexpired) hgone)

/-- A store leaves the cache alone while the lifetime is zero, and evicts otherwise. -/
theorem evicted_perform (hselects : Platform.SelectsNth) {nowMs : ℕ} {c : DnsCache}
    {call : DnsCall} {r : String × Stored} (h : c.stored nowMs call = some r) :
    (r.2.ttlSecs = 0 → c.perform nowMs call = c) ∧
      (r.2.ttlSecs ≠ 0 → Evicted nowMs { c with inner := c.inner.insert r.1 r.2.entry }
        (c.perform nowMs call)) := by
  obtain ⟨hperform, hat⟩ := perform_of_stored h
  rw [hperform]
  constructor
  · intro httl
    rw [httl, storeEntry_zero]
  · intro httl
    rw [storeEntry, if_neg httl, Stored.entry, hat]
    exact evicted_evictIfOverCapacity hselects nowMs _

theorem size_perform_le (hselects : Platform.SelectsNth) {nowMs : ℕ} {c : DnsCache}
    {call : DnsCall} (h : c.size ≤ dnsCacheMaxEntries) :
    (c.perform nowMs call).size ≤ dnsCacheMaxEntries := by
  cases hstored : c.stored nowMs call with
  | some r =>
    obtain ⟨hzero, hevicted⟩ := evicted_perform hselects hstored
    by_cases httl : r.2.ttlSecs = 0
    · rwa [hzero httl]
    · exact (hevicted httl).size_le
  | none =>
    refine le_trans (Shrinks.size_le ?_) h
    cases call with
    | store host addrs => cases hstored
    | storeNegative host => cases hstored
    | lookupStatus host => exact shrinks_lookupStatus nowMs host c
    | remove host => exact shrinks_remove host c
    | clear => exact shrinks_clear c
    | setTtl d n => exact shrinks_setTtl d n c

/-- Sequential calls keep a cache within its limit; and of whatever a cache holds, a store removes
nothing unless it is too large, and then only what is expired or expires no later than all it
keeps. -/
theorem eviction_spec (hselects : Platform.SelectsNth) :
    (∀ defaultTtlSecs negativeTtlSecs t₀ ls s,
      Runs.run step ⟨withTtl defaultTtlSecs negativeTtlSecs, t₀⟩ ls = some s →
        s.cache.size ≤ dnsCacheMaxEntries) ∧
    ∀ c nowMs call r, stored nowMs c call = some r →
      (r.2.ttlSecs = 0 → c.perform nowMs call = c) ∧
      (r.2.ttlSecs ≠ 0 → Evicted nowMs { c with inner := c.inner.insert r.1 r.2.entry }
        (c.perform nowMs call)) := by
  refine ⟨?_, fun c nowMs call r h => evicted_perform hselects h⟩
  intro defaultTtlSecs negativeTtlSecs t₀ ls s hrun
  refine Runs.invariant (I := fun s : Clocked => s.cache.size ≤ dnsCacheMaxEntries) ?_ hrun
    (Nat.zero_le _)
  intro s l s' hs hstep
  rw [(step_eq_some_iff.mp hstep).2]
  exact size_perform_le hselects hs

end Evict

section Examples

attribute [local instance] Platform.plain

theorem selectsNth_plain : Platform.SelectsNth := by
  have hsort : ∀ n l, Platform.selectNth n l =
      l.insertionSort fun a b : String × ℕ => a.2 ≤ b.2 := fun _ _ => rfl
  refine ⟨fun n l _ => ?_, fun n l _ a ha b hb => ?_⟩
  · rw [hsort]
    exact List.perm_insertionSort _ l
  · rw [hsort] at ha hb
    have htotal : Std.Total (fun a b : String × ℕ => a.2 ≤ b.2) := ⟨fun a b => le_total a.2 b.2⟩
    have htrans : IsTrans (String × ℕ) (fun a b => a.2 ≤ b.2) := ⟨fun _ _ _ => le_trans⟩
    have hsorted := List.pairwise_insertionSort (fun a b : String × ℕ => a.2 ≤ b.2) l
    rw [← List.take_append_drop n (l.insertionSort _), List.pairwise_append] at hsorted
    exact hsorted.2.2 a ha b hb

/-- A new cache after a store, and a store into a cache with one entry. -/
theorem eviction_spec_oneEntry :
    (new.store 0 "a:80" []).size ≤ dnsCacheMaxEntries ∧
      Evicted 9
        ⟨(AList.insert "a:80" ⟨[], 3, false⟩ ∅).insert "b:80" ⟨[], expiry 9 30, false⟩, 30, 10⟩
        (store 9 "b:80" [] ⟨AList.insert "a:80" ⟨[], 3, false⟩ ∅, 30, 10⟩) := by
  obtain ⟨hruns, hstores⟩ := eviction_spec selectsNth_plain
  refine ⟨hruns 30 10 0 [(0, .store "a:80" [])] ⟨new.store 0 "a:80" [], 0⟩ rfl, ?_⟩
  exact (hstores ⟨AList.insert "a:80" ⟨[], 3, false⟩ ∅, 30, 10⟩ 9 (.store "b:80" [])
    ("b:80", ⟨[], false, 9, 30⟩) rfl).2 (by decide)

end Examples

end DnsCache

end SentirumLb
