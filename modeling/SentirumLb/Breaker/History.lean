import SentirumLb.Lib.Lists
import SentirumLb.Lib.Runs
import SentirumLb.Breaker.Changes

/-! # The transition history

The history is meant to be the last twenty changes of the state. Each transition
records itself, and the one that closes the circuit does not, so the history is
that of the other transitions.
-/

namespace SentirumLb

namespace CircuitBreaker

open Prog

def transitionHistory : Method (List CircuitTransition) := load .history (·.history)

structure Logged where
  breaker : ClockedBreaker
  changes : List CircuitTransition

def Logged.step (l : Logged) (c : TimedCall) : Option Logged :=
  let after := (perform l.breaker c).2
  let source := stateOf l.breaker.stateAtomic
  let target := stateOf after.stateAtomic
  some ⟨after, if source = target then l.changes
    else l.changes ++ [⟨source, target, after.nowMs⟩]⟩

def Logged.fresh (config : CircuitBreakerConfig) (nowMs : ℕ) : Logged :=
  ⟨⟨withConfig config, nowMs⟩, []⟩

/-- Each change starts where the one before it ended. -/
def Chained (changes : List CircuitTransition) : Prop :=
  changes.IsChain fun a b => a.target = b.source

/-- The history is complete: it lists the last twenty changes, these follow one another, and the
last one led to the current state. -/
structure HistoryComplete (l : Logged) : Prop where
  last : (transitionHistory.exec l.breaker).1 = l.changes.rtake 20
  chained : Chained (transitionHistory.exec l.breaker).1
  current : ∀ t ∈ (transitionHistory.exec l.breaker).1.getLast?,
    t.target = (currentState.exec l.breaker).1

/-- Whether a change is recorded: all are but those that close the circuit. -/
def isRecorded (t : CircuitTransition) : Bool := decide (t.target ≠ .closed)

variable {config : CircuitBreakerConfig} {l l' : Logged} {c : TimedCall} {s s' : ClockedBreaker}
  {call : SeqCall}

/-! ## What an operation records -/

theorem pushOutcome_history (isError : Bool) (b : CircuitBreaker) :
    (pushOutcome isError b).history = b.history := by
  unfold pushOutcome
  dsimp only
  split
  · split <;> rfl
  · rfl

/-- The state stays and nothing is recorded, or it changes and that is recorded, or the circuit
closes and that is not. -/
theorem Change.history (h : Change call s s') :
    (¬Closes s call ∧ stateOf s.stateAtomic = stateOf s'.stateAtomic ∧
      s'.history = s.history) ∨
    (¬Closes s call ∧ stateOf s.stateAtomic ≠ stateOf s'.stateAtomic ∧
      stateOf s'.stateAtomic ≠ .closed ∧ s'.history = remember s.history
        ⟨stateOf s.stateAtomic, stateOf s'.stateAtomic, s.nowMs⟩) ∨
    (Closes s call ∧ stateOf s.stateAtomic ≠ stateOf s'.stateAtomic ∧
      stateOf s'.stateAtomic = .closed ∧ s'.history = s.history) := by
  cases h with
  | quiet hcall hcloses hstate hwindow hhistory => exact Or.inl ⟨hcloses, hstate.symm, hhistory⟩
  | pushed isError hcall hclosed htrips hs' =>
    refine Or.inl ⟨fun hc => ?_, ?_, ?_⟩
    · exact absurd (hclosed.symm.trans hc.2.1) (by simp)
    · rw [hs', pushOutcome_stateAtomic]
    · rw [hs', pushOutcome_history]
  | tripped hcall hclosed htrips hstate hhistory =>
    refine Or.inr (Or.inl ⟨fun hc => absurd (hclosed.symm.trans hc.2.1) (by simp), ?_⟩)
    rw [hclosed, hstate]
    exact ⟨by decide, by decide, hhistory⟩
  | reopened hcall hhalf hstate hhistory =>
    refine Or.inr (Or.inl ⟨fun hc => absurd (hcall.symm.trans hc.1) (by simp), ?_⟩)
    rw [hhalf, hstate]
    exact ⟨by decide, by decide, hhistory⟩
  | halfOpened hcall hopen hstate hhistory =>
    refine Or.inr (Or.inl ⟨fun hc => absurd (hcall.symm.trans hc.1) (by simp), ?_⟩)
    rw [hopen, hstate]
    exact ⟨by decide, by decide, hhistory⟩
  | closed hcloses hstate hwindow hcount hhistory =>
    refine Or.inr (Or.inr ⟨hcloses, ?_, hstate, hhistory⟩)
    rw [hcloses.2.1, hstate]
    decide

theorem history_perform (h : Requests.Ready config s) (c : TimedCall) :
    (¬Closes s c.call ∧ stateOf s.stateAtomic = stateOf (perform s c).2.stateAtomic ∧
      (perform s c).2.history = s.history) ∨
    (¬Closes s c.call ∧ stateOf s.stateAtomic ≠ stateOf (perform s c).2.stateAtomic ∧
      stateOf (perform s c).2.stateAtomic ≠ .closed ∧
      (perform s c).2.history = remember s.history ⟨stateOf s.stateAtomic,
        stateOf (perform s c).2.stateAtomic, (perform s c).2.nowMs⟩) ∨
    (Closes s c.call ∧ stateOf s.stateAtomic ≠ stateOf (perform s c).2.stateAtomic ∧
      stateOf (perform s c).2.stateAtomic = .closed ∧ (perform s c).2.history = s.history) := by
  rw [nowMs_perform h c]
  exact (change_exec (h.advance c.waitMs) c.call).history

/-! ## The history along a run -/

structure Logs (config : CircuitBreakerConfig) (l : Logged) : Prop where
  ready : Requests.Ready config l.breaker
  history : l.breaker.history = (l.changes.filter isRecorded).rtake 20
  chained : Chained l.changes
  current : ∀ t ∈ l.changes.getLast?, t.target = stateOf l.breaker.stateAtomic

theorem logs_fresh (config : CircuitBreakerConfig) (nowMs : ℕ) :
    Logs config (Logged.fresh config nowMs) :=
  ⟨Requests.ready_initial config nowMs, rfl, List.isChain_nil, by simp [Logged.fresh]⟩

theorem chained_concat {changes : List CircuitTransition} {t : CircuitTransition}
    (h : Chained changes) (hlast : ∀ u ∈ changes.getLast?, u.target = t.source) :
    Chained (changes ++ [t]) := by
  refine List.isChain_append.mpr ⟨h, List.isChain_singleton t, ?_⟩
  intro u hu v hv
  cases hv
  exact hlast u hu

theorem remember_rtake (changes : List CircuitTransition) (t : CircuitTransition) :
    remember (changes.rtake 20) t = (changes ++ [t]).rtake 20 :=
  (Lists.rtake_concat (by decide) changes t).symm

theorem Logs.step (h : Logs config l) (hstep : l.step c = some l') : Logs config l' := by
  cases hstep
  have hready := h.ready.perform c
  rcases history_perform h.ready c with
    ⟨-, hsame, hhistory⟩ | ⟨-, hne, hopen, hhistory⟩ | ⟨-, hne, hclosed, hhistory⟩
  · rw [if_pos hsame]
    refine ⟨hready, hhistory.trans h.history, h.chained, ?_⟩
    rw [← hsame]
    exact h.current
  · rw [if_neg hne]
    refine ⟨hready, ?_, chained_concat h.chained h.current, by simp⟩
    have hrecorded : isRecorded ⟨stateOf l.breaker.stateAtomic,
        stateOf (perform l.breaker c).2.stateAtomic, (perform l.breaker c).2.nowMs⟩ = true :=
      decide_eq_true hopen
    rw [List.filter_append, List.filter_singleton, hrecorded, Bool.cond_true, ← remember_rtake,
      ← h.history]
    exact hhistory
  · rw [if_neg hne]
    refine ⟨hready, ?_, chained_concat h.chained h.current, by simp⟩
    have hrecorded : isRecorded ⟨stateOf l.breaker.stateAtomic,
        stateOf (perform l.breaker c).2.stateAtomic, (perform l.breaker c).2.nowMs⟩ = false :=
      decide_eq_false (not_not.mpr hclosed)
    rw [List.filter_append, List.filter_singleton, hrecorded, Bool.cond_false, List.append_nil]
    exact hhistory.trans h.history

/-- The history is complete when none of the last twenty changes closed the circuit. -/
theorem Logs.complete_iff (h : Logs config l) :
    HistoryComplete l ↔ ∀ t ∈ l.changes.rtake 20, isRecorded t = true := by
  rw [← Lists.rtake_filter_eq_iff, ← h.history]
  constructor
  · exact fun hcomplete => hcomplete.last
  · intro hlast
    refine ⟨hlast, ?_, ?_⟩
    · change Chained l.breaker.history
      rw [hlast]
      exact h.chained.drop _
    · change ∀ t ∈ l.breaker.history.getLast?, t.target = stateOf l.breaker.stateAtomic
      rw [hlast]
      intro t ht
      refine h.current t ?_
      rw [List.rtake, List.getLast?_drop] at ht
      split at ht
      · cases ht
      · exact ht

theorem forall_rtake_concat_iff {changes : List CircuitTransition} {t : CircuitTransition}
    (h : ∀ u ∈ changes.rtake 20, isRecorded u = true) :
    (∀ u ∈ (changes ++ [t]).rtake 20, isRecorded u = true) ↔ isRecorded t = true := by
  rw [List.rtake_concat_succ]
  constructor
  · exact fun hall => hall t (by simp)
  · intro ht u hu
    rcases List.mem_append.mp hu with hu | hu
    · exact h u ((List.drop_sublist_drop_left changes (by omega)).subset hu)
    · rw [List.mem_singleton.mp hu]
      exact ht

/-- A complete history stays complete exactly when the operation does not close the circuit. -/
theorem Logs.step_complete_iff (h : Logs config l) (hcomplete : HistoryComplete l)
    (hstep : l.step c = some l') : HistoryComplete l' ↔ ¬Closes l.breaker c.call := by
  have hlogs' := h.step hstep
  rw [h.complete_iff] at hcomplete
  rw [hlogs'.complete_iff]
  cases hstep
  rcases history_perform h.ready c with
    ⟨hcloses, hsame, -⟩ | ⟨hcloses, hne, hopen, -⟩ | ⟨hcloses, hne, hclosed, -⟩
  · rw [if_pos hsame]
    exact iff_of_true hcomplete hcloses
  · rw [if_neg hne, forall_rtake_concat_iff hcomplete]
    exact iff_of_true (decide_eq_true hopen) hcloses
  · rw [if_neg hne, forall_rtake_concat_iff hcomplete]
    refine iff_of_false ?_ (not_not.mpr hcloses)
    exact fun hrecorded => of_decide_eq_true hrecorded hclosed

/-- Along a run of operations the history is complete in every state reached, exactly when no
operation of the run is the success that closes the circuit. -/
theorem history_complete_iff (config : CircuitBreakerConfig) (nowMs : ℕ) (cs : List TimedCall) :
    (∀ pre l, pre <+: cs → Runs.run Logged.step (Logged.fresh config nowMs) pre = some l →
      HistoryComplete l) ↔
    Runs.Meets Logged.step (fun l c => ¬Closes l.breaker c.call) (Logged.fresh config nowMs)
      cs := by
  have hruns : ∀ l, ∃ l', Runs.run Logged.step l cs = some l' := by
    induction cs with
    | nil => exact fun l => ⟨l, rfl⟩
    | cons c cs ih => exact fun l => ih _
  obtain ⟨l', hl'⟩ := hruns (Logged.fresh config nowMs)
  refine Runs.forall_prefix_iff_meets (J := Logs config) ?_ ?_ hl' (logs_fresh config nowMs) ?_
  · exact fun l c l' h hstep => h.step hstep
  · exact fun l c l' h hcomplete hstep => h.step_complete_iff hcomplete hstep
  · exact (logs_fresh config nowMs).complete_iff.mpr (by simp [Logged.fresh])

def closingCalls : List TimedCall :=
  [⟨5, .finish .error⟩, ⟨5, .allowRequest 0⟩, ⟨5, .finish .success⟩]

/-- The circuit is closed again, and its history ends half-open. -/
theorem not_complete_closingCalls :
    ∃ l, Runs.run Logged.step (Logged.fresh tightConfig 0) closingCalls = some l ∧
      (currentState.exec l.breaker).1 = .closed ∧ ¬HistoryComplete l := by
  have hrun : (Runs.run Logged.step (Logged.fresh tightConfig 0) closingCalls).map
      (fun l => (l.breaker.history.getLast?, (currentState.exec l.breaker).1)) =
        some (some ⟨.opened, .halfOpen, 10⟩, .closed) := by decide +kernel
  obtain ⟨l, hl, he⟩ := Option.map_eq_some_iff.mp hrun
  obtain ⟨hlast, hstate⟩ := Prod.mk.inj he
  refine ⟨l, hl, hstate, fun hcomplete => ?_⟩
  have hcurrent := hcomplete.current ⟨.opened, .halfOpen, 10⟩ hlast
  rw [hstate] at hcurrent
  cases hcurrent

end CircuitBreaker

end SentirumLb
