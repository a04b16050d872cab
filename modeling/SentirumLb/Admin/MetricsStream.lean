import SentirumLb.Lib.Runs

/-! # The stream of metrics

All clients of the stream listen to one channel, which is kept in a slot behind
a read-write lock. The first client makes the channel and starts the task that
sends to it; the task empties the slot when nobody listens any more. What is done
under the lock is one step. Clients leave at any time.
-/

namespace SentirumLb.Admin

structure Receiver where
  channel : ℕ
  changed : Bool := false

inductive StreamTask where
  | ticking
  /-- It has seen that nobody listens, and waits for the write lock. -/
  | stopping
  | sending
deriving DecidableEq

structure MetricsStream where
  slot : Option ℕ := none
  nextChannel : ℕ := 0
  receivers : List Receiver := []
  /-- The handlers that found no channel, and wait for the write lock. -/
  missed : ℕ := 0
  tasks : List StreamTask := []

inductive StreamLabel where
  | lookUp
  /-- A handler that found no channel looks again under the write lock. -/
  | lookAgain
  | disconnect (j : ℕ)
  | deliver (j : ℕ)
  | check (t : ℕ)
  | clear (t : ℕ)
  | send (t : ℕ)

namespace MetricsStream

def subscribe (channel : ℕ) (s : MetricsStream) : MetricsStream :=
  { s with receivers := s.receivers ++ [{ channel := channel }] }

def receiverCount (channel : ℕ) (s : MetricsStream) : ℕ :=
  s.receivers.countP (·.channel = channel)

def unheard (s : MetricsStream) : Bool := s.slot.all fun channel => s.receiverCount channel = 0

def broadcast (s : MetricsStream) : MetricsStream :=
  { s with receivers := s.receivers.map fun r =>
      if s.slot = some r.channel then { r with changed := true } else r }

def step (s : MetricsStream) : StreamLabel → Option MetricsStream
  | .lookUp =>
      match s.slot with
      | some channel => some (s.subscribe channel)
      | none => some { s with missed := s.missed + 1 }
  | .lookAgain =>
      if s.missed = 0 then none
      else
        let s := { s with missed := s.missed - 1 }
        match s.slot with
        | some channel => some (s.subscribe channel)
        | none =>
            some { s.subscribe s.nextChannel with
              slot := some s.nextChannel
              nextChannel := s.nextChannel + 1
              tasks := s.tasks ++ [.ticking] }
  | .disconnect j =>
      if j < s.receivers.length then some { s with receivers := s.receivers.eraseIdx j } else none
  | .deliver j =>
      s.receivers[j]?.map fun r =>
        { s with receivers := s.receivers.set j { r with changed := false } }
  | .check t =>
      if s.tasks[t]? = some .ticking then
        some { s with tasks := s.tasks.set t (if s.unheard then .stopping else .sending) }
      else none
  | .clear t =>
      if s.tasks[t]? = some .stopping then
        if s.slot.isSome ∧ s.unheard then
          some { s with slot := none, tasks := s.tasks.eraseIdx t }
        else some { s with tasks := s.tasks.set t .sending }
      else none
  | .send t =>
      if s.tasks[t]? = some .sending then
        some { s.broadcast with tasks := s.tasks.set t .ticking }
      else none

/-! ## One channel, one task -/

/-- A task runs just when there is a channel, and every client listens to that channel. -/
structure Ok (s : MetricsStream) : Prop where
  tasks : s.tasks.length = if s.slot.isSome then 1 else 0
  receivers : ∀ r ∈ s.receivers, s.slot = some r.channel

variable {s s' : MetricsStream}

theorem ok_empty : ({} : MetricsStream).Ok := ⟨rfl, by simp⟩

theorem Ok.receivers_eq_nil_of_unheard (h : s.Ok) (hunheard : s.unheard) : s.receivers = [] := by
  by_contra hne
  obtain ⟨r, hr⟩ := List.exists_mem_of_ne_nil _ hne
  have hslot := h.receivers r hr
  simp only [unheard, hslot, Option.all_some, decide_eq_true_eq, receiverCount,
    List.countP_eq_zero] at hunheard
  exact hunheard r hr rfl

theorem Ok.subscribe (h : s.Ok) {channel : ℕ} (hslot : s.slot = some channel) :
    (s.subscribe channel).Ok := by
  refine ⟨h.tasks, ?_⟩
  intro r hr
  obtain hr | rfl := by simpa [MetricsStream.subscribe] using hr
  · exact h.receivers r hr
  · exact hslot

theorem Ok.step (h : s.Ok) {l : StreamLabel} (hs : s.step l = some s') : s'.Ok := by
  cases l with
  | lookUp =>
    rw [MetricsStream.step] at hs
    split at hs
    · next channel hslot =>
      cases hs
      exact h.subscribe hslot
    · cases hs
      exact ⟨h.tasks, h.receivers⟩
  | lookAgain =>
    rw [MetricsStream.step] at hs
    split at hs
    · cases hs
    · dsimp only at hs
      split at hs
      · next channel hslot =>
        cases hs
        have hmissed : ({ s with missed := s.missed - 1 } : MetricsStream).Ok :=
          ⟨h.tasks, h.receivers⟩
        exact hmissed.subscribe hslot
      · next hslot =>
        cases hs
        have hnone : s.receivers = [] := by
          by_contra hne
          obtain ⟨r, hr⟩ := List.exists_mem_of_ne_nil _ hne
          have hsome := h.receivers r hr
          rw [hslot] at hsome
          cases hsome
        have htasks := h.tasks
        rw [hslot] at htasks
        refine ⟨?_, ?_⟩
        · simpa using htasks
        · simp [MetricsStream.subscribe, hnone]
  | disconnect j =>
    obtain ⟨-, rfl⟩ := Option.ite_some_none_eq_some.mp hs
    exact ⟨h.tasks, fun r hr => h.receivers r (List.mem_of_mem_eraseIdx hr)⟩
  | deliver j =>
    obtain ⟨r, hr, rfl⟩ := Option.map_eq_some_iff.mp hs
    refine ⟨h.tasks, fun r' hr' => ?_⟩
    obtain hr' | rfl := List.mem_or_eq_of_mem_set hr'
    · exact h.receivers r' hr'
    · exact h.receivers r (List.mem_of_getElem? hr)
  | check t =>
    obtain ⟨-, rfl⟩ := Option.ite_some_none_eq_some.mp hs
    exact ⟨by simpa using h.tasks, h.receivers⟩
  | clear t =>
    obtain ⟨htask, hs⟩ := Option.ite_none_right_eq_some.mp hs
    split at hs
    · next hclear =>
      cases hs
      have hlength := h.tasks
      rw [if_pos hclear.1] at hlength
      have ht := (List.getElem?_eq_some_iff.mp htask).1
      refine ⟨?_, ?_⟩
      · simp [List.length_eraseIdx_of_lt ht, hlength]
      · simp [h.receivers_eq_nil_of_unheard hclear.2]
    · cases hs
      exact ⟨by simpa using h.tasks, h.receivers⟩
  | send t =>
    obtain ⟨-, rfl⟩ := Option.ite_some_none_eq_some.mp hs
    refine ⟨by simpa using! h.tasks, ?_⟩
    intro r hr
    obtain ⟨r', hr', rfl⟩ := List.mem_map.mp hr
    have hslot := h.receivers r' hr'
    change s.slot = some (if s.slot = some r'.channel then _ else r').channel
    rw [if_pos hslot]
    exact hslot

theorem ok_run {ls : List StreamLabel} (hr : Runs.run step {} ls = some s) : s.Ok :=
  Runs.invariant (fun _ _ _ h hs => h.step hs) hr ok_empty

theorem Ok.changed_of_send (h : s.Ok) {t : ℕ} (hs : s.step (.send t) = some s') :
    s'.receivers.length = s.receivers.length ∧ ∀ r ∈ s'.receivers, r.changed := by
  obtain ⟨-, rfl⟩ := Option.ite_some_none_eq_some.mp hs
  refine ⟨List.length_map _, ?_⟩
  intro r hr
  obtain ⟨r', hr', rfl⟩ := List.mem_map.mp hr
  rw [if_pos (h.receivers r' hr')]

theorem Ok.receivers_eq_nil (h : s.Ok) (hnone : s.tasks = []) : s.receivers = [] := by
  by_contra hne
  obtain ⟨r, hr⟩ := List.exists_mem_of_ne_nil _ hne
  have htasks := h.tasks
  rw [h.receivers r hr, hnone] at htasks
  cases htasks

/-- A task that nobody listens to ends with its next tick, unless a client comes in between. -/
theorem Ok.stops (h : s.Ok) {t : ℕ} (ht : s.tasks[t]? = some .ticking) (hnone : s.receivers = []) :
    Runs.run MetricsStream.step s [.check t, .clear t] =
      some { s with slot := none, tasks := [] } := by
  have hunheard : s.unheard := by
    cases hslot : s.slot <;> simp [unheard, hslot, receiverCount, hnone]
  have hlt := (List.getElem?_eq_some_iff.mp ht).1
  have htasks := h.tasks
  have hsome : s.slot.isSome := by
    by_contra hslot
    rw [if_neg hslot] at htasks
    omega
  rw [if_pos hsome] at htasks
  have hstopping : (s.tasks.set t .stopping)[t]? = some .stopping := by
    rw [List.getElem?_set_self hlt]
  have herase : (s.tasks.set t .stopping).eraseIdx t = [] := by
    rw [← List.length_eq_zero_iff, List.length_eraseIdx_of_lt (by simpa using hlt),
      List.length_set, htasks]
  rw [Runs.run_cons, MetricsStream.step, if_pos ht, hunheard, if_pos rfl, Option.bind_some,
    Runs.run_cons, MetricsStream.step, if_pos hstopping, if_pos ⟨hsome, hunheard⟩,
    Option.bind_some, herase]
  rfl

/-- However handlers, clients and tasks take turns: there is one task just when there is a channel,
every client listens to it, so each value that is sent reaches all of them, and no client is left
without a task; a task that nobody listens to ends. -/
theorem stream_run {ls : List StreamLabel} (hr : Runs.run step {} ls = some s) :
    s.Ok ∧ (s.tasks = [] → s.receivers = []) ∧
      (∀ t s', s.step (.send t) = some s' →
        s'.receivers.length = s.receivers.length ∧ ∀ r ∈ s'.receivers, r.changed) ∧
      (∀ t, s.tasks[t]? = some .ticking → s.receivers = [] →
        Runs.run step s [.check t, .clear t] = some { s with slot := none, tasks := [] }) := by
  have hok := ok_run hr
  exact ⟨hok, hok.receivers_eq_nil, fun _ _ => hok.changed_of_send, fun _ => hok.stops⟩

/-- Two clients meet an empty slot, and a third one comes in just before the task would end. -/
def sampleStreamLabels : List StreamLabel :=
  [.lookUp, .lookUp, .lookAgain, .lookAgain, .disconnect 0, .disconnect 0, .check 0, .lookUp,
    .clear 0, .send 0]

theorem stream_run_sampleStreamLabels :
    ∃ s, Runs.run step {} sampleStreamLabels = some s ∧ s.receivers.length = 1 ∧ s.Ok := by
  have hrun : (Runs.run step {} sampleStreamLabels).map (fun s => s.receivers.length) =
      some 1 := by
    decide
  obtain ⟨s, hs, hlength⟩ := Option.map_eq_some_iff.mp hrun
  exact ⟨s, hs, hlength, (stream_run hs).1⟩

end MetricsStream

end SentirumLb.Admin
