import Mathlib

/-! # Bounded first-in first-out maps

Keys with their values, in the order in which the keys came. A key that is there
keeps its place and its value. A new key comes last, and the first one goes when
there is no room.
-/

namespace Fifo

variable {κ ν : Type} [DecidableEq κ]

def insert (cap : ℕ) (k : κ) (v : ν) (l : List (κ × ν)) : List (κ × ν) :=
  if k ∈ l.map (·.1) then l
  else if l.length < cap then l ++ [(k, v)]
  else l.tail ++ [(k, v)]

variable {cap : ℕ} {k : κ} {v : ν} {l : List (κ × ν)}

theorem insert_of_mem (h : k ∈ l.map (·.1)) : insert cap k v l = l := if_pos h

theorem insert_of_lt (h : k ∉ l.map (·.1)) (hroom : l.length < cap) :
    insert cap k v l = l ++ [(k, v)] := by
  rw [insert, if_neg h, if_pos hroom]

theorem insert_of_full (h : k ∉ l.map (·.1)) (hfull : ¬l.length < cap) :
    insert cap k v l = l.tail ++ [(k, v)] := by
  rw [insert, if_neg h, if_neg hfull]

theorem length_insert_le (hcap : 0 < cap) (hle : l.length ≤ cap) :
    (insert cap k v l).length ≤ cap := by
  unfold insert
  split_ifs
  · exact hle
  · rw [List.length_append, List.length_singleton]
    omega
  · rw [List.length_append, List.length_singleton, List.length_tail]
    omega

omit [DecidableEq κ] in
theorem nodup_concat {ks : List κ} (h : ks.Nodup) (hk : k ∉ ks) : (ks ++ [k]).Nodup := by
  rw [← List.concat_eq_append]
  exact h.concat hk

theorem nodup_insert (h : (l.map (·.1)).Nodup) : ((insert cap k v l).map (·.1)).Nodup := by
  unfold insert
  split_ifs with hmem hroom
  · exact h
  · rw [List.map_append]
    exact nodup_concat h hmem
  · rw [List.map_append, List.map_tail]
    exact nodup_concat (h.sublist (List.tail_sublist _)) fun hk => hmem (List.mem_of_mem_tail hk)

theorem mem_insert_of_lt (h : k ∉ l.map (·.1)) (hroom : l.length < cap) {k' : κ} {v' : ν} :
    (k', v') ∈ insert cap k v l ↔ (k', v') ∈ l ∨ (k' = k ∧ v' = v) := by
  rw [insert_of_lt h hroom, List.mem_append, List.mem_singleton, Prod.mk.injEq]

theorem mem_insert_of_full {oldest : κ} {value : ν} {rest : List (κ × ν)}
    (hl : l = (oldest, value) :: rest) (hnodup : (l.map (·.1)).Nodup) (h : k ∉ l.map (·.1))
    (hfull : ¬l.length < cap) {k' : κ} {v' : ν} :
    (k', v') ∈ insert cap k v l ↔ k' ≠ oldest ∧ ((k', v') ∈ l ∨ (k' = k ∧ v' = v)) := by
  rw [insert_of_full h hfull, hl, List.tail_cons, List.mem_append, List.mem_singleton,
    List.mem_cons, Prod.mk.injEq, Prod.mk.injEq]
  rw [hl, List.map_cons, List.nodup_cons] at hnodup
  rw [hl, List.map_cons, List.mem_cons, not_or] at h
  constructor
  · rintro (hrest | ⟨rfl, rfl⟩)
    · refine ⟨?_, Or.inl (Or.inr hrest)⟩
      rintro rfl
      exact hnodup.1 (List.mem_map_of_mem (f := (·.1)) hrest)
    · exact ⟨h.1, Or.inr ⟨rfl, rfl⟩⟩
  · rintro ⟨hne, (⟨hold, -⟩ | hrest) | hnew⟩
    · exact absurd hold hne
    · exact Or.inl hrest
    · exact Or.inr hnew

end Fifo
