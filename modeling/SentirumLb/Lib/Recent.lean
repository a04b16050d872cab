import Mathlib

/-! # Samples of the recent past

Samples come in the order of their times, and one replaces another of the same
time. With each sample those are dropped that are too old by then. What is left
are the samples of the last while, whatever was dropped before.
-/

namespace Recent

variable {α : Type} (time : α → ℕ) (span : ℕ)

/-- Add a sample, in the place of one of the same time. -/
def push (l : List α) (x : α) : List α :=
  if l.getLast?.map time = some (time x) then l.dropLast ++ [x] else l ++ [x]

/-- Add a sample, and drop those that are too old by then. -/
def record (l : List α) (x : α) : List α :=
  (push time l x).dropWhile fun a => span < time x - time a

/-- The samples that are not too old at a time. -/
def within (now : ℕ) (l : List α) : List α := l.filter fun a => now - time a ≤ span

def Ordered (l : List α) : Prop := l.Pairwise fun a b => time a < time b

variable {time span} {l l' : List α} {x : α}

theorem ordered_push (h : Ordered time l) (hx : ∀ a ∈ l, time a ≤ time x) :
    Ordered time (push time l x) := by
  unfold push
  split
  · next hlast =>
    obtain ⟨last, hmem, htime⟩ := Option.map_eq_some_iff.mp hlast
    obtain ⟨init, rfl⟩ := List.getLast?_eq_some_iff.mp hmem
    rw [List.dropLast_concat]
    have hinit := List.pairwise_append.mp h
    refine List.pairwise_append.mpr ⟨hinit.1, List.pairwise_singleton _ _, ?_⟩
    intro a ha b hb
    obtain rfl := List.mem_singleton.mp hb
    rw [← htime]
    exact hinit.2.2 a ha last (List.mem_singleton_self _)
  · next hlast =>
    refine List.pairwise_append.mpr ⟨h, List.pairwise_singleton _ _, ?_⟩
    intro a ha b hb
    obtain rfl := List.mem_singleton.mp hb
    rcases List.eq_nil_or_concat l with rfl | ⟨init, last, rfl⟩
    · cases ha
    · have hne : time last ≠ time b := by simpa using hlast
      rw [List.concat_eq_append] at h ha hx
      have hlt : time last < time b := lt_of_le_of_ne (hx last (by simp)) hne
      obtain ha | ha := List.mem_append.mp ha
      · exact ((List.pairwise_append.mp h).2.2 a ha last (by simp)).trans hlt
      · rwa [List.mem_singleton.mp ha]

theorem mem_of_mem_push {a : α} (ha : a ∈ push time l x) : a ∈ l ∨ a = x := by
  unfold push at ha
  split at ha
  · rw [List.mem_append, List.mem_singleton] at ha
    exact ha.imp_left List.mem_of_mem_dropLast
  · rwa [List.mem_append, List.mem_singleton] at ha

theorem le_of_mem_push (hx : ∀ a ∈ l, time a ≤ time x) {a : α} (ha : a ∈ push time l x) :
    time a ≤ time x := by
  obtain ha | rfl := mem_of_mem_push ha
  · exact hx a ha
  · exact le_rfl

theorem mem_of_mem_foldl_push {xs : List α} {a : α} (ha : a ∈ xs.foldl (push time) l) :
    a ∈ l ∨ a ∈ xs := by
  induction xs generalizing l with
  | nil => exact .inl ha
  | cons x xs ih =>
    obtain ha | ha := ih ha
    · obtain ha | rfl := mem_of_mem_push ha
      · exact .inl ha
      · exact .inr List.mem_cons_self
    · exact .inr (List.mem_cons_of_mem _ ha)

theorem getLast?_push (l : List α) (x : α) : (push time l x).getLast? = some x := by
  unfold push
  split <;> simp

theorem getLast?_within (h : l.getLast? = some x) :
    (within time span (time x) l).getLast? = some x := by
  obtain ⟨init, rfl⟩ := List.getLast?_eq_some_iff.mp h
  simp [within, List.filter_append]

theorem within_within {now now' : ℕ} (h : now ≤ now') (l : List α) :
    within time span now' (within time span now l) = within time span now' l := by
  unfold within
  rw [List.filter_filter]
  congr 1
  funext a
  have hage : now' - time a ≤ span → now - time a ≤ span := by omega
  by_cases ha : now' - time a ≤ span <;> simp [ha, hage]

theorem within_push (h : Ordered time l) (hx : ∀ a ∈ l, time a ≤ time x) :
    within time span (time x) (push time l x) = push time (within time span (time x) l) x := by
  have hself : ∀ init : List α, within time span (time x) (init ++ [x]) =
      within time span (time x) init ++ [x] := by
    intro init
    simp [within, List.filter_append]
  rcases List.eq_nil_or_concat l with rfl | ⟨init, last, rfl⟩
  · exact hself []
  · rw [List.concat_eq_append] at h hx ⊢
    by_cases hlast : time last = time x
    · have hwithin : within time span (time x) (init ++ [last]) =
          within time span (time x) init ++ [last] := by
        simp [within, List.filter_append, hlast]
      simp [push, hwithin, hlast, hself]
    · have hne : (within time span (time x) (init ++ [last])).getLast?.map time ≠
          some (time x) := by
        intro heq
        obtain ⟨a, ha, htime⟩ := Option.map_eq_some_iff.mp heq
        have hmem : a ∈ init ++ [last] := (List.mem_filter.mp (List.mem_of_getLast? ha)).1
        obtain hmem | hmem := List.mem_append.mp hmem
        · have hlt := (List.pairwise_append.mp h).2.2 a hmem last (by simp)
          have hle := hx last (by simp)
          omega
        · rw [List.mem_singleton.mp hmem] at htime
          exact hlast htime
      rw [push, if_neg (by simpa using hlast), push, if_neg hne, hself]

theorem dropWhile_eq_within (h : Ordered time l) (now : ℕ) :
    (l.dropWhile fun a => span < now - time a) = within time span now l := by
  induction l with
  | nil => rfl
  | cons a l ih =>
    obtain ⟨ha, hl⟩ := List.pairwise_cons.mp h
    by_cases hold : span < now - time a
    · have hnot : ¬decide (now - time a ≤ span) = true := by
        rw [decide_eq_true_eq]
        exact not_le.mpr hold
      rw [List.dropWhile_cons, if_pos (decide_eq_true hold), ih hl, within, within,
        List.filter_cons, if_neg hnot]
    · have hall : ∀ b ∈ a :: l, decide (now - time b ≤ span) = true := by
        intro b hb
        rw [decide_eq_true_eq]
        obtain rfl | hb := List.mem_cons.mp hb
        · omega
        · have hlt := ha b hb
          omega
      have hnot : ¬decide (span < now - time a) = true := by
        rwa [decide_eq_true_eq]
      rw [List.dropWhile_cons, if_neg hnot, within, List.filter_eq_self.mpr hall]

theorem record_eq_within (hl : Ordered time l) (hl' : Ordered time l')
    (hx : ∀ a ∈ l, time a ≤ time x) (hx' : ∀ a ∈ l', time a ≤ time x)
    (h : within time span (time x) l = within time span (time x) l') :
    record time span l x = within time span (time x) (push time l' x) := by
  rw [record, dropWhile_eq_within (ordered_push hl hx), within_push hl hx, h,
    ← within_push hl' hx']

/-- How many numbers with a gap of at least `d` between them there are in an interval. -/
theorem length_le_of_gaps {d : ℕ} (hd : 0 < d) (lo hi : ℕ) {ns : List ℕ}
    (hgaps : ns.Pairwise fun a b => a + d ≤ b) (hlo : ∀ n ∈ ns, lo ≤ n) (hhi : ∀ n ∈ ns, n ≤ hi) :
    ns.length ≤ (hi - lo) / d + 1 := by
  induction ns generalizing lo with
  | nil => exact Nat.zero_le _
  | cons n ns ih =>
    obtain ⟨hn, hns⟩ := List.pairwise_cons.mp hgaps
    have hlon := hlo n List.mem_cons_self
    cases ns with
    | nil => exact Nat.succ_le_succ (Nat.zero_le _)
    | cons m ns =>
      have hih := ih (n + d) hns hn fun k hk => hhi k (List.mem_cons_of_mem _ hk)
      have hm := hn m List.mem_cons_self
      have hmhi := hhi m (List.mem_cons_of_mem _ List.mem_cons_self)
      have hdiv : (hi - (n + d)) / d + 1 ≤ (hi - lo) / d := by
        rw [← Nat.add_div_right _ hd]
        exact Nat.div_le_div_right (by omega)
      rw [List.length_cons]
      omega

end Recent
