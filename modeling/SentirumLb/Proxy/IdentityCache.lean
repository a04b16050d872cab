import SentirumLb.Lib.Fifo
import SentirumLb.Proxy.ClientCert

/-! # The cache of client identities

The cache keeps its identities in a map and the keys of the map in a queue, and
edits the two one after the other. Together they are a bounded first-in
first-out map.
-/

namespace SentirumLb

namespace ClientCertIdentityCache

inductive Call where
  | insert (digestHex : String) (identity : ClientCertIdentity)
  | get (digestHex : String)

def perform (c : ClientCertIdentityCache) : Call → ClientCertIdentityCache
  | .insert digestHex identity => c.insert digestHex identity
  | .get _ => c

def run (calls : List Call) : ClientCertIdentityCache := calls.foldl perform {}

def size (c : ClientCertIdentityCache) : ℕ := c.entries.keys.length

def stored (calls : List Call) : List (String × ClientCertIdentity) :=
  calls.foldl (fun l call =>
    match call with
    | .insert digestHex identity =>
        Fifo.insert clientCertIdentityCacheCapacity digestHex identity l
    | .get _ => l) []

/-- The queue and the map hold the keys and the values of the list. -/
structure Represents (c : ClientCertIdentityCache) (l : List (String × ClientCertIdentity)) :
    Prop where
  order : c.order = l.map (·.1)
  entries : ∀ k v, c.entries.lookup k = some v ↔ (k, v) ∈ l
  nodup : (l.map (·.1)).Nodup
  length_le : l.length ≤ clientCertIdentityCacheCapacity

variable {c : ClientCertIdentityCache} {l : List (String × ClientCertIdentity)} {k : String}
  {v : ClientCertIdentity}

theorem Represents.mem_iff (h : c.Represents l) : k ∈ c.entries ↔ k ∈ l.map (·.1) := by
  rw [← AList.lookup_isSome, Option.isSome_iff_exists, List.mem_map]
  constructor
  · rintro ⟨v, hv⟩
    exact ⟨(k, v), (h.entries k v).mp hv, rfl⟩
  · rintro ⟨⟨k', v⟩, hmem, rfl⟩
    exact ⟨v, (h.entries k' v).mpr hmem⟩

theorem Represents.size_eq (h : c.Represents l) : c.size = l.length := by
  have hperm : c.entries.keys.Perm (l.map (·.1)) := by
    refine (List.perm_ext_iff_of_nodup c.entries.keys_nodup h.nodup).mpr fun k => ?_
    rw [← AList.mem_keys, h.mem_iff]
  rw [size, hperm.length_eq, List.length_map]

theorem evict_of_le {entries : AssocMap String ClientCertIdentity} {order : List String}
    (h : entries.keys.length ≤ clientCertIdentityCacheCapacity) :
    evict entries order = ⟨entries, order⟩ := by
  cases order with
  | nil => rfl
  | cons oldest order => rw [evict, if_neg (not_lt.mpr h)]

theorem length_keys_insert (h : k ∉ c.entries) :
    (AList.insert k v c.entries).keys.length = c.size + 1 := by
  rw [AList.keys_insert, List.erase_of_not_mem (mt AList.mem_keys.mpr h), List.length_cons, size]

theorem insert_of_mem (h : k ∈ c.entries) : c.insert k v = c := if_pos h

theorem insert_of_lt (h : k ∉ c.entries) (hroom : c.size < clientCertIdentityCacheCapacity) :
    c.insert k v = ⟨AList.insert k v c.entries, c.order ++ [k]⟩ := by
  rw [ClientCertIdentityCache.insert, if_neg h]
  refine evict_of_le ?_
  rw [length_keys_insert h]
  exact hroom

theorem insert_of_full (h : k ∉ c.entries) (hfull : c.size = clientCertIdentityCacheCapacity)
    {oldest : String} {rest : List String} (horder : c.order = oldest :: rest)
    (hold : oldest ∈ c.entries) :
    c.insert k v = ⟨(AList.insert k v c.entries).erase oldest, rest ++ [k]⟩ := by
  have hmem : oldest ∈ (AList.insert k v c.entries).keys := by
    rw [← AList.mem_keys, AList.mem_insert]
    exact Or.inr hold
  rw [ClientCertIdentityCache.insert, if_neg h, evictIfNeeded]
  dsimp only
  rw [horder, List.cons_append, evict, if_pos (by rw [length_keys_insert h]; omega)]
  refine evict_of_le ?_
  rw [AList.keys_erase, List.length_erase_of_mem hmem, length_keys_insert h]
  omega

theorem Represents.not_mem (h : c.Represents l) {k : String} (hk : k ∉ c.entries)
    (v : ClientCertIdentity) : (k, v) ∉ l := fun hmem =>
  hk (h.mem_iff.mpr (List.mem_map_of_mem (f := (·.1)) hmem))

theorem Represents.lookup_insert_of_lt (h : c.Represents l) {k : String}
    {v : ClientCertIdentity} (hk : k ∉ c.entries)
    (hroom : l.length < clientCertIdentityCacheCapacity) (k' : String) (v' : ClientCertIdentity) :
    (c.insert k v).entries.lookup k' = some v' ↔
      (k', v') ∈ Fifo.insert clientCertIdentityCacheCapacity k v l := by
  rw [insert_of_lt hk (h.size_eq ▸ hroom), Fifo.mem_insert_of_lt (mt h.mem_iff.mpr hk) hroom]
  by_cases hkk : k' = k
  · subst hkk
    simp [h.not_mem hk, eq_comm]
  · rw [AList.lookup_insert_ne hkk, h.entries]
    simp [hkk]

theorem Represents.lookup_insert_of_full (h : c.Represents l) {k oldest : String}
    {v value : ClientCertIdentity} {rest : List (String × ClientCertIdentity)}
    (hk : k ∉ c.entries) (hroom : ¬l.length < clientCertIdentityCacheCapacity)
    (hl : l = (oldest, value) :: rest)
    (hinsert : c.insert k v =
      ⟨(AList.insert k v c.entries).erase oldest, rest.map (·.1) ++ [k]⟩)
    (k' : String) (v' : ClientCertIdentity) :
    (c.insert k v).entries.lookup k' = some v' ↔
      (k', v') ∈ Fifo.insert clientCertIdentityCacheCapacity k v l := by
  rw [hinsert, Fifo.mem_insert_of_full hl h.nodup (mt h.mem_iff.mpr hk) hroom]
  by_cases hko : k' = oldest
  · subst hko
    simp [AList.lookup_erase]
  · rw [AList.lookup_erase_ne hko]
    by_cases hkk : k' = k
    · subst hkk
      simp [hko, h.not_mem hk, eq_comm]
    · rw [AList.lookup_insert_ne hkk, h.entries]
      simp [hko, hkk]

theorem Represents.insert (h : c.Represents l) (k : String) (v : ClientCertIdentity) :
    (c.insert k v).Represents (Fifo.insert clientCertIdentityCacheCapacity k v l) := by
  have hsize := h.size_eq
  have hle := Fifo.length_insert_le (k := k) (v := v)
    (show 0 < clientCertIdentityCacheCapacity by decide) h.length_le
  have hnodup : ((Fifo.insert clientCertIdentityCacheCapacity k v l).map (·.1)).Nodup :=
    Fifo.nodup_insert h.nodup
  by_cases hk : k ∈ c.entries
  · rw [insert_of_mem hk, Fifo.insert_of_mem (h.mem_iff.mp hk)]
    exact h
  · have hk' := mt h.mem_iff.mpr hk
    by_cases hroom : l.length < clientCertIdentityCacheCapacity
    · refine ⟨?_, h.lookup_insert_of_lt hk hroom, hnodup, hle⟩
      rw [insert_of_lt hk (hsize ▸ hroom), Fifo.insert_of_lt hk' hroom, List.map_append, h.order]
      rfl
    · have hfull : c.size = clientCertIdentityCacheCapacity :=
        hsize.trans (le_antisymm h.length_le (not_lt.mp hroom))
      obtain ⟨⟨oldest, value⟩, rest, hl⟩ := List.exists_cons_of_length_pos
        (show 0 < l.length from (show 0 < clientCertIdentityCacheCapacity by decide).trans_le
          (not_lt.mp hroom))
      have horder : c.order = oldest :: rest.map (·.1) := by rw [h.order, hl, List.map_cons]
      have hold : oldest ∈ c.entries := h.mem_iff.mpr (by simp [hl])
      have hinsert := insert_of_full (v := v) hk hfull horder hold
      refine ⟨?_, h.lookup_insert_of_full hk hroom hl hinsert, hnodup, hle⟩
      rw [hinsert, Fifo.insert_of_full hk' hroom, hl, List.map_append]
      rfl

theorem represents_run (calls : List Call) : (run calls).Represents (stored calls) := by
  induction calls using List.reverseRecOn with
  | nil => exact ⟨rfl, fun _ _ => ⟨nofun, nofun⟩, .nil, Nat.zero_le _⟩
  | append_singleton calls call ih =>
    rw [run, stored, List.foldl_concat, List.foldl_concat]
    cases call with
    | insert k v => exact ih.insert k v
    | get k => exact ih

/-- After any calls the queue has the keys of the map, each once, in the order in which they were
inserted, and there are no more than the capacity. To insert a key that is there changes nothing;
at the capacity, a new key takes the place of the oldest one and of no other. -/
theorem run_isFifo (calls : List Call) :
    let c := run calls
    (∀ k, k ∈ c.order ↔ k ∈ c.entries) ∧ c.order.Nodup ∧
      c.order = (stored calls).map (·.1) ∧ (∀ k v, c.get k = some v ↔ (k, v) ∈ stored calls) ∧
      c.size ≤ clientCertIdentityCacheCapacity ∧
      (∀ k v, k ∈ c.entries → c.insert k v = c) ∧
      (∀ k v, k ∉ c.entries → c.size < clientCertIdentityCacheCapacity →
        (c.insert k v).order = c.order ++ [k] ∧
          ∀ k', (c.insert k v).get k' = if k' = k then some v else c.get k') ∧
      ∀ k v, k ∉ c.entries → c.size = clientCertIdentityCacheCapacity →
        ∃ oldest rest, c.order = oldest :: rest ∧ (c.insert k v).order = rest ++ [k] ∧
          ∀ k', (c.insert k v).get k' =
            if k' = oldest then none else if k' = k then some v else c.get k' := by
  intro c
  have h : c.Represents (stored calls) := represents_run calls
  have hmem : ∀ k, k ∈ c.order ↔ k ∈ c.entries := fun k => by rw [h.order, h.mem_iff]
  refine ⟨hmem, h.order ▸ h.nodup, h.order, h.entries, h.size_eq ▸ h.length_le,
    fun k v => insert_of_mem, ?_, ?_⟩
  · intro k v hk hroom
    rw [insert_of_lt hk hroom]
    refine ⟨rfl, fun k' => ?_⟩
    split
    · next hkk => exact hkk ▸ AList.lookup_insert _
    · next hkk => exact AList.lookup_insert_ne hkk
  · intro k v hk hfull
    cases horder : c.order with
    | nil =>
      have hzero : c.size = 0 := by
        rw [h.size_eq, ← List.length_map (·.1), ← h.order, horder, List.length_nil]
      exact absurd (hzero.symm.trans hfull) (by decide)
    | cons oldest rest =>
      have hold : oldest ∈ c.entries := (hmem oldest).mp (by rw [horder]; exact List.mem_cons_self)
      refine ⟨oldest, rest, rfl, ?_⟩
      rw [insert_of_full hk hfull horder hold]
      refine ⟨rfl, fun k' => ?_⟩
      split
      · next hko => exact hko ▸ AList.lookup_erase _ _
      · next hko =>
        refine (AList.lookup_erase_ne hko).trans ?_
        split
        · next hkk => exact hkk ▸ AList.lookup_insert _
        · next hkk => exact AList.lookup_insert_ne hkk

end ClientCertIdentityCache

end SentirumLb
