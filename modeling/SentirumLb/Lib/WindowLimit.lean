import Mathlib

/-! # A failure limit over fixed windows, with checks in flight

Checks are let through as long as fewer than `max` failures were counted in the
current window; a check that was let through is carried out later, and is
counted later still. A window starts with the first operation that finds none,
and is over `len` time units later. When a check is let through only while the
failures counted and the checks not yet counted are fewer than `max`, at most
`max` checks are carried out within any window.
-/

namespace WindowLimit

/-- The limiter, with the times at which checks were carried out and windows were started. -/
structure State where
  now : ℕ
  /-- The count and the start of the last window, which may be over. -/
  entry : Option (ℕ × ℕ)
  pending : ℕ
  uncounted : ℕ
  checks : List ℕ
  windows : List ℕ

namespace State

variable (len : ℕ) (s : State)

/-- The window, when it is not over. -/
def live : Option (ℕ × ℕ) := s.entry.filter fun e => decide (s.now < e.2 + len)

/-- The count and the start of the window that an operation finds or starts. -/
def current : ℕ × ℕ := (s.live len).getD (0, s.now)

def opened : List ℕ := if (s.live len).isNone then s.windows ++ [s.now] else s.windows

def since (t : ℕ) : ℕ := s.checks.countP fun c => decide (t ≤ c)

def within (w : ℕ) : ℕ := s.checks.countP fun c => decide (w ≤ c ∧ c < w + len)

def touch : State := { s with entry := some (s.current len), windows := s.opened len }

end State

inductive Step (len max : ℕ) (s : State) : State → Prop where
  | stay : Step len max s s
  | refuse : Step len max s (s.touch len)
  | pass (h : (s.current len).1 + s.pending < max) :
      Step len max s { s.touch len with pending := s.pending + 1 }
  | forget (h : s.live len = none) : Step len max s { s with entry := none }
  | check (h : s.uncounted < s.pending) :
      Step len max s { s with checks := s.checks ++ [s.now], uncounted := s.uncounted + 1 }
  | count (h : 0 < s.uncounted) :
      Step len max s { s with
        entry := some ((s.current len).1 + 1, (s.current len).2)
        windows := s.opened len
        pending := s.pending - 1
        uncounted := s.uncounted - 1 }
  | tick (ms : ℕ) : Step len max s { s with now := s.now + ms }

/-- The checks of the current window are counted or in flight, and there is room for them. -/
structure Inv (len max : ℕ) (s : State) : Prop where
  room : (s.current len).1 + s.pending ≤ max
  uncounted_le : s.uncounted ≤ s.pending
  recent : s.since (s.current len).2 ≤ (s.current len).1 + s.uncounted
  past : ∀ t ∈ s.checks, t ≤ s.now
  ended : ∀ w ∈ s.windows, w + len ≤ s.now ∨ ∃ n, s.live len = some (n, w)
  bounded : ∀ w ∈ s.windows, s.within len w ≤ max

variable {len max : ℕ} {s s' : State}

theorem within_le_since (s : State) (w : ℕ) : s.within len w ≤ s.since w := by
  apply List.countP_mono_left
  intro c _ hc
  simp only [decide_eq_true_eq] at hc ⊢
  exact hc.1

theorem current_of_live {e : ℕ × ℕ} (h : s.live len = some e) : s.current len = e := by
  simp [State.current, h]

theorem current_of_over (h : s.live len = none) : s.current len = (0, s.now) := by
  simp [State.current, h]

theorem live_eq_some_iff {e : ℕ × ℕ} :
    s.live len = some e ↔ s.entry = some e ∧ s.now < e.2 + len := by
  simp [State.live, Option.filter_eq_some_iff]

theorem now_lt_current (hlen : 0 < len) (s : State) : s.now < (s.current len).2 + len := by
  cases h : s.live len with
  | none =>
    rw [current_of_over h]
    exact Nat.lt_add_of_pos_right hlen
  | some e =>
    rw [current_of_live h]
    exact (live_eq_some_iff.mp h).2

theorem live_of_entry (hlen : 0 < len) {n : ℕ} (hnow : s'.now = s.now)
    (hentry : s'.entry = some (n, (s.current len).2)) :
    s'.live len = some (n, (s.current len).2) := by
  rw [live_eq_some_iff]
  refine ⟨hentry, ?_⟩
  rw [hnow]
  exact now_lt_current hlen s

theorem mem_opened {w : ℕ} (h : w ∈ s.opened len) :
    w ∈ s.windows ∨ (s.live len = none ∧ w = s.now) := by
  unfold State.opened at h
  split at h
  · next hnone =>
    rcases List.mem_append.mp h with h | h
    · exact Or.inl h
    · exact Or.inr ⟨Option.isNone_iff_eq_none.mp hnone, List.mem_singleton.mp h⟩
  · exact Or.inl h

theorem Inv.opened_cases (h : Inv len max s) {w : ℕ} (hw : w ∈ s.opened len) :
    (w + len ≤ s.now ∧ w ∈ s.windows) ∨ w = (s.current len).2 := by
  rcases mem_opened hw with hw | ⟨hnone, rfl⟩
  · rcases h.ended w hw with hover | ⟨n, hn⟩
    · exact Or.inl ⟨hover, hw⟩
    · right
      rw [current_of_live hn]
  · right
    rw [current_of_over hnone]

theorem Inv.since_le (h : Inv len max s) : s.since (s.current len).2 ≤ max := by
  have h1 := h.recent
  have h2 := h.uncounted_le
  have h3 := h.room
  omega

theorem Inv.touch (hlen : 0 < len) (h : Inv len max s) {n : ℕ}
    (hnow : s'.now = s.now) (hentry : s'.entry = some (n, (s.current len).2))
    (hchecks : s'.checks = s.checks) (hwindows : s'.windows = s.opened len)
    (hroom : n + s'.pending ≤ max) (hle : s'.uncounted ≤ s'.pending)
    (hsame : n + s'.uncounted = (s.current len).1 + s.uncounted) : Inv len max s' := by
  have hlive := live_of_entry hlen hnow hentry
  have hcurrent := current_of_live hlive
  have hsince : ∀ t, s'.since t = s.since t := by
    intro t
    rw [State.since, hchecks]
    rfl
  have hwithin : ∀ w, s'.within len w = s.within len w := by
    intro w
    rw [State.within, hchecks]
    rfl
  constructor
  · rw [hcurrent]
    exact hroom
  · exact hle
  · rw [hcurrent, hsince]
    have hrecent := h.recent
    dsimp only
    omega
  · rw [hchecks, hnow]
    exact h.past
  · intro w hw
    rw [hwindows] at hw
    rw [hnow]
    rcases h.opened_cases hw with ⟨hover, -⟩ | rfl
    · exact Or.inl hover
    · exact Or.inr ⟨n, hlive⟩
  · intro w hw
    rw [hwindows] at hw
    rw [hwithin]
    rcases h.opened_cases hw with ⟨-, hw⟩ | rfl
    · exact h.bounded w hw
    · exact (within_le_since s _).trans h.since_le

theorem since_append (s : State) (t : ℕ) :
    ({ s with checks := s.checks ++ [s.now] } : State).since t =
      s.since t + if t ≤ s.now then 1 else 0 := by
  simp [State.since, List.countP_append, List.countP_cons]

/-! ## One lemma per kind of step -/

theorem Inv.forget (h : Inv len max s) (hover : s.live len = none) :
    Inv len max { s with entry := none } := by
  have hlive : ({ s with entry := none } : State).live len = none := rfl
  have hcurrent : ({ s with entry := none } : State).current len = s.current len := by
    rw [current_of_over hlive, current_of_over hover]
  refine ⟨?_, h.uncounted_le, ?_, h.past, ?_, h.bounded⟩
  · rw [hcurrent]
    exact h.room
  · rw [hcurrent]
    exact h.recent
  · intro w hw
    rcases h.ended w hw with hw | ⟨n, hn⟩
    · exact Or.inl hw
    · rw [hover] at hn
      cases hn

theorem Inv.check (h : Inv len max s) (hlt : s.uncounted < s.pending) :
    Inv len max { s with checks := s.checks ++ [s.now], uncounted := s.uncounted + 1 } := by
  have hroom := h.room
  have hrecent := h.recent
  have hle : ({ s with checks := s.checks ++ [s.now] } : State).since (s.current len).2 ≤
      s.since (s.current len).2 + 1 := by
    rw [since_append]
    split <;> omega
  constructor
  · exact hroom
  · exact hlt
  · change ({ s with checks := s.checks ++ [s.now] } : State).since (s.current len).2 ≤
      (s.current len).1 + (s.uncounted + 1)
    omega
  · intro t ht
    rcases List.mem_append.mp ht with ht | ht
    · exact h.past t ht
    · exact (List.mem_singleton.mp ht).le
  · exact h.ended
  · intro w hw
    rcases h.ended w hw with hover | ⟨n, hn⟩
    · have hsame : ({ s with checks := s.checks ++ [s.now] } : State).within len w =
          s.within len w := by
        simp [State.within, List.countP_append, hover]
      exact hsame.trans_le (h.bounded w hw)
    · have hwithin : ({ s with checks := s.checks ++ [s.now] } : State).within len w ≤
          ({ s with checks := s.checks ++ [s.now] } : State).since w := within_le_since _ w
      have hw : w = (s.current len).2 := by rw [current_of_live hn]
      rw [hw] at hwithin ⊢
      refine hwithin.trans ?_
      omega

section Tick

variable {ms : ℕ}

theorem live_of_live_tick {e : ℕ × ℕ}
    (h : ({ s with now := s.now + ms } : State).live len = some e) : s.live len = some e := by
  rw [live_eq_some_iff] at h ⊢
  exact ⟨h.1, lt_of_le_of_lt (Nat.le_add_right _ _) h.2⟩

theorem le_of_over_tick {e : ℕ × ℕ} (h : ({ s with now := s.now + ms } : State).live len = none)
    (hbefore : s.live len = some e) : e.2 + len ≤ s.now + ms := by
  by_contra hlt
  have hstill : ({ s with now := s.now + ms } : State).live len = some e :=
    live_eq_some_iff.mpr ⟨(live_eq_some_iff.mp hbefore).1, not_le.mp hlt⟩
  rw [h] at hstill
  cases hstill

theorem Inv.tick_live (h : Inv len max s) {e : ℕ × ℕ}
    (hlive : ({ s with now := s.now + ms } : State).live len = some e) :
    Inv len max { s with now := s.now + ms } := by
  have hbefore : s.live len = some e := live_of_live_tick hlive
  have hcurrent : ({ s with now := s.now + ms } : State).current len = s.current len := by
    rw [current_of_live hlive, current_of_live hbefore]
  constructor
  · rw [hcurrent]
    exact h.room
  · exact h.uncounted_le
  · rw [hcurrent]
    exact h.recent
  · exact fun t ht => (h.past t ht).trans (Nat.le_add_right _ _)
  · intro w hw
    rcases h.ended w hw with hw | ⟨n, hn⟩
    · exact Or.inl (hw.trans (Nat.le_add_right _ _))
    · exact Or.inr ⟨n, by rw [hlive, ← hbefore, hn]⟩
  · exact h.bounded

/-- Once the window is over, none of the checks since is left to be counted in another. -/
theorem Inv.since_tick_le (h : Inv len max s)
    (hover : ({ s with now := s.now + ms } : State).live len = none) :
    s.since (s.now + ms) ≤ s.uncounted := by
  cases hbefore : s.live len with
  | none =>
    have hrecent := h.recent
    rw [current_of_over hbefore, Nat.zero_add] at hrecent
    refine le_trans (List.countP_mono_left ?_) hrecent
    intro c _ hc
    simp only [decide_eq_true_eq] at hc ⊢
    exact (Nat.le_add_right _ _).trans hc
  | some e =>
    have hend := le_of_over_tick hover hbefore
    have hlt := (live_eq_some_iff.mp hbefore).2
    have hzero : s.since (s.now + ms) = 0 := by
      apply List.countP_eq_zero.mpr
      intro c hc
      have hpast := h.past c hc
      simp only [decide_eq_true_eq]
      omega
    omega

theorem Inv.tick_over (h : Inv len max s)
    (hover : ({ s with now := s.now + ms } : State).live len = none) :
    Inv len max { s with now := s.now + ms } := by
  have hcurrent := current_of_over hover
  have hroom := h.room
  constructor
  · rw [hcurrent]
    dsimp only
    omega
  · exact h.uncounted_le
  · rw [hcurrent, Nat.zero_add]
    exact h.since_tick_le hover
  · exact fun t ht => (h.past t ht).trans (Nat.le_add_right _ _)
  · intro w hw
    left
    rcases h.ended w hw with hw | ⟨n, hn⟩
    · exact hw.trans (Nat.le_add_right _ _)
    · exact le_of_over_tick hover hn
  · exact h.bounded

end Tick

theorem inv_step (hlen : 0 < len) (h : Inv len max s) (hstep : Step len max s s') :
    Inv len max s' := by
  cases hstep with
  | stay => exact h
  | refuse => exact h.touch hlen rfl rfl rfl rfl h.room h.uncounted_le rfl
  | pass hroom =>
    exact h.touch hlen rfl rfl rfl rfl hroom (Nat.le_succ_of_le h.uncounted_le) rfl
  | forget hover => exact h.forget hover
  | check hlt => exact h.check hlt
  | count hpos =>
    have hroom := h.room
    have hle := h.uncounted_le
    refine h.touch hlen rfl rfl rfl rfl ?_ ?_ ?_
    · dsimp only
      omega
    · dsimp only
      omega
    · dsimp only
      omega
  | tick ms =>
    cases hlive : ({ s with now := s.now + ms } : State).live len with
    | some e => exact h.tick_live hlive
    | none => exact h.tick_over hlive

end WindowLimit
