import Mathlib

/-! # Ring buffers

A buffer that grows up to its capacity and then overwrites its oldest entry. Its
write position is that of the newest entry, and read backwards from there it
holds the last entries that were pushed. A search collects hits in this order
and stops when it has enough; it looks whether it has enough after each hit.
-/

structure RingBuffer (α : Type) (cap : ℕ) where
  entries : List α
  /-- The index of the newest entry. -/
  writePos : ℕ
  len : ℕ
  length_entries : entries.length = len
  len_le : len ≤ cap
  writePos_lt : 0 < len → writePos < len
  writePos_eq : len < cap → writePos = len - 1

namespace RingBuffer

variable {α : Type} {cap : ℕ}

def empty : RingBuffer α cap where
  entries := []
  writePos := 0
  len := 0
  length_entries := rfl
  len_le := Nat.zero_le _
  writePos_lt h := h
  writePos_eq _ := rfl

def push (a : α) (r : RingBuffer α cap) : RingBuffer α cap :=
  if h : r.len < cap then
    { entries := r.entries ++ [a]
      writePos := r.len
      len := r.len + 1
      length_entries := by rw [List.length_append, r.length_entries, List.length_singleton]
      len_le := h
      writePos_lt := fun _ => Nat.lt_succ_self _
      writePos_eq := fun _ => rfl }
  else
    { r with
      entries := r.entries.set ((r.writePos + 1) % cap) a
      writePos := (r.writePos + 1) % cap
      length_entries := by rw [List.length_set, r.length_entries]
      writePos_lt := fun hpos => by
        have hcap : r.len = cap := le_antisymm r.len_le (not_lt.mp h)
        rw [hcap]
        exact Nat.mod_lt _ (hcap ▸ hpos)
      writePos_eq := fun hlt => absurd hlt h }

def placeBefore (cap pos i : ℕ) : ℕ := (pos + cap - i) % cap

def index (r : RingBuffer α cap) (i : ℕ) : ℕ :=
  if r.len < cap then r.len - 1 - i else placeBefore cap r.writePos i

theorem index_lt {r : RingBuffer α cap} {i : ℕ} (h : i < r.len) :
    r.index i < r.entries.length := by
  have hle := r.len_le
  rw [r.length_entries]
  unfold index
  split
  · omega
  · next hfull =>
    have hcap : r.len = cap := le_antisymm hle (not_lt.mp hfull)
    rw [hcap]
    exact Nat.mod_lt _ (by omega)

/-- The entries from the newest to the oldest. -/
def newestFirst (r : RingBuffer α cap) : List α :=
  List.ofFn fun i : Fin r.len => r.entries.get ⟨r.index i, index_lt i.isLt⟩

def collect (limit : ℕ) (p : α → Bool) : List α → List α → List α
  | result, [] => result
  | result, e :: es =>
      if p e then
        let result := result ++ [e]
        if limit ≤ result.length then result else collect limit p result es
      else collect limit p result es

def recent (limit : ℕ) (p : α → Bool) (r : RingBuffer α cap) : List α :=
  collect limit p [] r.newestFirst

/-! ## Counting back -/

theorem placeBefore_of_le {pos i : ℕ} (hi : i ≤ pos) (hpos : pos < cap) :
    placeBefore cap pos i = pos - i := by
  have hsplit : pos + cap - i = pos - i + cap := by omega
  rw [placeBefore, hsplit, Nat.add_mod_right, Nat.mod_eq_of_lt (by omega)]

theorem placeBefore_of_lt {pos i : ℕ} (hpos : pos < i) (hi : i ≤ cap) :
    placeBefore cap pos i = pos + cap - i := by
  rw [placeBefore, Nat.mod_eq_of_lt (by omega)]

theorem next_eq {pos : ℕ} (hpos : pos < cap) :
    (pos + 1) % cap = if pos + 1 = cap then 0 else pos + 1 := by
  split
  · next he => rw [he, Nat.mod_self]
  · exact Nat.mod_eq_of_lt (by omega)

theorem placeBefore_next {pos i : ℕ} (hpos : pos < cap) (hi : i < cap) :
    placeBefore cap ((pos + 1) % cap) (i + 1) = placeBefore cap pos i := by
  rw [next_eq hpos]
  split
  · rw [placeBefore_of_lt (by omega) (by omega), placeBefore_of_le (by omega) hpos]
    omega
  · by_cases hle : i ≤ pos
    · rw [placeBefore_of_le (by omega) (by omega), placeBefore_of_le hle hpos]
      omega
    · rw [placeBefore_of_lt (by omega) (by omega), placeBefore_of_lt (by omega) (by omega)]
      omega

theorem placeBefore_ne_next {pos i : ℕ} (hpos : pos < cap) (hi : i + 1 < cap) :
    (pos + 1) % cap ≠ placeBefore cap pos i := by
  rw [next_eq hpos]
  by_cases hle : i ≤ pos
  · rw [placeBefore_of_le hle hpos]
    split <;> omega
  · rw [placeBefore_of_lt (by omega) (by omega)]
    split <;> omega

/-! ## A buffer holds the last entries -/

variable {r : RingBuffer α cap} {i : ℕ}

@[simp] theorem length_newestFirst : r.newestFirst.length = r.len := List.length_ofFn

theorem index_eq (h : i < r.len) : r.index i = placeBefore cap r.writePos i := by
  unfold index
  split
  · next hlt =>
    have hpos := r.writePos_eq hlt
    rw [placeBefore_of_le (by omega) (by omega), hpos]
  · rfl

theorem getElem?_newestFirst (h : i < r.len) :
    r.newestFirst[i]? = r.entries[placeBefore cap r.writePos i]? := by
  have hlt := index_lt h
  have hget : r.newestFirst[i]? = some (r.entries.get ⟨r.index i, hlt⟩) := by
    simp [newestFirst, h]
  rw [hget, ← index_eq h, List.getElem?_eq_getElem hlt]
  rfl

theorem push_of_lt (a : α) (h : r.len < cap) :
    (r.push a).entries = r.entries ++ [a] ∧ (r.push a).writePos = r.len ∧
      (r.push a).len = r.len + 1 := by
  rw [push, dif_pos h]
  exact ⟨rfl, rfl, rfl⟩

theorem push_of_full (a : α) (h : ¬r.len < cap) :
    (r.push a).entries = r.entries.set ((r.writePos + 1) % cap) a ∧
      (r.push a).writePos = (r.writePos + 1) % cap ∧ (r.push a).len = r.len := by
  rw [push, dif_neg h]
  exact ⟨rfl, rfl, rfl⟩

theorem len_push (a : α) (r : RingBuffer α cap) : (r.push a).len = min (r.len + 1) cap := by
  have hle := r.len_le
  by_cases h : r.len < cap
  · rw [(push_of_lt a h).2.2, min_eq_left h]
  · rw [(push_of_full a h).2.2]
    omega

theorem newestFirst_push_zero (a : α) (h : 0 < (r.push a).len) :
    (r.push a).newestFirst[0]? = some a := by
  have hle := r.len_le
  have hlen := len_push a r
  rw [getElem?_newestFirst h]
  by_cases hlt : r.len < cap
  · obtain ⟨hentries, hpos, -⟩ := push_of_lt a hlt
    rw [hentries, hpos, placeBefore_of_le (Nat.zero_le _) hlt, Nat.sub_zero,
      ← r.length_entries, List.getElem?_concat_length]
  · obtain ⟨hentries, hpos, -⟩ := push_of_full a hlt
    have hnext : (r.writePos + 1) % cap < cap := Nat.mod_lt _ (by omega)
    rw [hentries, hpos, placeBefore_of_le (Nat.zero_le _) hnext, Nat.sub_zero,
      List.getElem?_set_self]
    rw [r.length_entries]
    omega

theorem newestFirst_push_succ (a : α) (h : i + 1 < (r.push a).len) :
    (r.push a).newestFirst[i + 1]? = r.newestFirst[i]? := by
  have hle := r.len_le
  have hlen := len_push a r
  rw [getElem?_newestFirst h, getElem?_newestFirst (by omega)]
  by_cases hlt : r.len < cap
  · obtain ⟨hentries, hpos, -⟩ := push_of_lt a hlt
    have hlast := r.writePos_eq hlt
    have hsame : r.len - (i + 1) = r.writePos - i := by omega
    rw [hentries, hpos, placeBefore_of_le (by omega) hlt, placeBefore_of_le (by omega) (by omega),
      hsame, List.getElem?_append_left]
    rw [r.length_entries]
    omega
  · obtain ⟨hentries, hpos, -⟩ := push_of_full a hlt
    have hwrite := r.writePos_lt (by omega)
    rw [hentries, hpos, placeBefore_next (by omega) (by omega),
      List.getElem?_set_ne (placeBefore_ne_next (by omega) (by omega))]

theorem newestFirst_push (a : α) (r : RingBuffer α cap) :
    (r.push a).newestFirst = (a :: r.newestFirst).take cap := by
  have hle := r.len_le
  have hlen := len_push a r
  ext1 i
  by_cases hi : i < (r.push a).len
  · rw [List.getElem?_take, if_pos (by omega)]
    cases i with
    | zero => exact newestFirst_push_zero a hi
    | succ i => exact newestFirst_push_succ a hi
  · rw [List.getElem?_eq_none (by simpa using hi), List.getElem?_eq_none]
    rw [List.length_take, List.length_cons, length_newestFirst]
    omega

theorem newestFirst_foldl_push (es : List α) :
    (es.foldl (fun r e => r.push e) (empty : RingBuffer α cap)).newestFirst =
      es.reverse.take cap := by
  induction es using List.reverseRecOn with
  | nil =>
    rw [List.reverse_nil, List.take_nil]
    rfl
  | append_singleton es e ih =>
    rw [List.foldl_concat, newestFirst_push, ih, List.reverse_append, List.reverse_singleton,
      List.singleton_append]
    cases cap with
    | zero => rfl
    | succ cap =>
      rw [List.take_succ_cons, List.take_succ_cons, List.take_take, min_eq_left (Nat.le_succ cap)]

/-! ## A search finds one hit too many when none is asked for -/

theorem collect_eq (limit : ℕ) (p : α → Bool) (result es : List α) :
    collect limit p result es =
      result ++ (es.filter p).take (max (limit - result.length) 1) := by
  induction es generalizing result with
  | nil => simp [collect]
  | cons e es ih =>
    unfold collect
    split
    · next hp =>
      dsimp only
      rw [List.filter_cons_of_pos hp, List.length_append, List.length_singleton]
      split
      · next hlimit =>
        have hone : max (limit - result.length) 1 = 1 := by omega
        rw [hone, List.take_succ_cons, List.take_zero]
      · next hlimit =>
        have hmore : max (limit - result.length) 1 = max (limit - (result.length + 1)) 1 + 1 := by
          omega
        rw [ih, List.length_append, List.length_singleton, hmore, List.take_succ_cons,
          List.append_assoc, List.singleton_append]
    · next hp => rw [ih, List.filter_cons_of_neg hp]

theorem recent_eq (limit : ℕ) (p : α → Bool) (r : RingBuffer α cap) :
    r.recent limit p = (r.newestFirst.filter p).take (max limit 1) := by
  rw [recent, collect_eq, List.length_nil, Nat.sub_zero, List.nil_append]

/-- The search returns as many hits as asked for, unless it is asked for none and there are some. -/
theorem recent_eq_take_iff (limit : ℕ) (p : α → Bool) (r : RingBuffer α cap) :
    r.recent limit p = (r.newestFirst.filter p).take limit ↔
      limit ≠ 0 ∨ ∀ e ∈ r.newestFirst, p e = false := by
  rw [recent_eq]
  constructor
  · intro h
    rw [or_iff_not_imp_left, not_not]
    rintro rfl e he
    rw [max_eq_right (Nat.zero_le 1), List.take_zero, List.take_eq_nil_iff] at h
    have hnil := h.resolve_left one_ne_zero
    simpa using List.filter_eq_nil_iff.mp hnil e he
  · rintro (hlimit | hnone)
    · rw [max_eq_left (Nat.one_le_iff_ne_zero.mpr hlimit)]
    · have hnil : r.newestFirst.filter p = [] :=
        List.filter_eq_nil_iff.mpr fun e he => by simp [hnone e he]
      rw [hnil, List.take_nil, List.take_nil]

end RingBuffer
