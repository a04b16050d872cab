import SentirumLb.Breaker.Basic

/-! # The accesses of the methods

Outside of closing the circuit and counting a success, a method writes the
state byte in two ways only: it opens the circuit, or it takes an open one to
half-open. A relation that tolerates these writes and the updates of the other
fields holds at every access of such a method, under any interference. Each
result about interleaved calls gives its own relation.
-/

namespace SentirumLb

namespace CircuitBreaker

open Prog

/-- The relation holds between the states before and after each access but those that close the
circuit or count a success. -/
structure Tolerates (T : ClockedBreaker → ClockedBreaker → Prop) : Prop where
  read : ∀ s, T s s
  inFlight : ∀ s b, T s { s with halfOpenInFlight := b }
  probeSent : ∀ s ms, T s { s with halfOpenProbeSentAtMs := ms }
  openedAt : ∀ s ms, T s { s with openedAtMs := ms }
  history : ∀ s h, T s { s with history := h }
  push : ∀ s isError, T s ⟨pushOutcome isError s.toCircuitBreaker, s.nowMs⟩
  opened : ∀ s, T s { s with stateAtomic := stateOpen }
  halfOpened : ∀ s, bits s.stateAtomic ≠ stateHalfOpen → bits s.stateAtomic ≠ stateClosed →
    T s { s with stateAtomic := stateHalfOpen }

theorem pushOutcome_stateAtomic (isError : Bool) (s : CircuitBreaker) :
    (pushOutcome isError s).stateAtomic = s.stateAtomic := by
  unfold pushOutcome
  dsimp only
  split
  · split <;> rfl
  · rfl

namespace Tolerates

variable {G : Access → ClockedBreaker → Prop} {T : ClockedBreaker → ClockedBreaker → Prop}

theorem of_byte {R : UInt8 → UInt8 → Prop} (hrefl : ∀ a, R a a) (hopen : ∀ a, R a stateOpen)
    (hhalf : ∀ a, bits a ≠ stateHalfOpen → bits a ≠ stateClosed → R a stateHalfOpen) :
    Tolerates fun s s' => R s.stateAtomic s'.stateAtomic where
  read s := hrefl _
  inFlight s b := hrefl _
  probeSent s ms := hrefl _
  openedAt s ms := hrefl _
  history s h := hrefl _
  push s isError := by
    rw [pushOutcome_stateAtomic]
    exact hrefl _
  opened s := hopen _
  halfOpened s := hhalf _

abbrev Holds (G : Access → ClockedBreaker → Prop) (T : ClockedBreaker → ClockedBreaker → Prop)
    {α : Type} (m : Method α) : Prop :=
  m.Sat G T fun _ => True

theorem pure {α : Type} (a : α) : Holds G T (Pure.pure a) := trivial

theorem bind {α β : Type} {m : Method α} {f : α → Method β} (hm : Holds G T m)
    (hf : ∀ a, Holds G T (f a)) : Holds G T (m >>= f) :=
  sat_bind hm fun a _ => hf a

theorem compareExchangeState (hread : ∀ s, T s s) {current new : UInt8}
    (h : ∀ s, s.stateAtomic = current → T s { s with stateAtomic := new }) :
    Holds G T (CircuitBreaker.compareExchangeState current new) := by
  refine sat_modifyGet (fun s _ => ?_) fun _ _ => trivial
  split
  · next he => exact h s he
  · exact hread s

variable (hT : Tolerates T)

include hT

theorem load {α : Type} (l : Access) (get : ClockedBreaker → α) : Holds G T (Prog.load l get) :=
  sat_load hT.read fun _ _ => trivial

theorem storeInFlight (b : Bool) : Holds G T (CircuitBreaker.storeInFlight b) :=
  sat_modify fun s _ => hT.inFlight s b

theorem storeProbeSent (ms : ℕ) : Holds G T (CircuitBreaker.storeProbeSent ms) :=
  sat_modify fun s _ => hT.probeSent s ms

theorem recordTransition (source target : CircuitState) :
    Holds G T (CircuitBreaker.recordTransition source target) :=
  sat_modify fun s _ => hT.history s _

theorem recoveryElapsed : Holds G T CircuitBreaker.recoveryElapsed := by
  refine bind (hT.load _ _) fun _ => ?_
  refine bind (hT.load _ _) fun _ => ?_
  exact bind (hT.load _ _) fun _ => pure _

theorem canAcceptRequest : Holds G T CircuitBreaker.canAcceptRequest := by
  refine bind (hT.load _ _) fun state => ?_
  split
  · exact pure _
  split
  · exact hT.recoveryElapsed
  split
  · refine bind (hT.load _ _) fun _ => ?_
    split
    · exact bind (hT.load _ _) fun _ => pure _
    · exact pure _
  · exact pure _

theorem tryTransitionToHalfOpen : Holds G T CircuitBreaker.tryTransitionToHalfOpen := by
  refine bind (hT.load _ _) fun current => ?_
  split
  · exact pure _
  · next hhalf =>
    split
    · exact pure _
    · next hclosed =>
      have hcas : Holds G T (CircuitBreaker.compareExchangeState current stateHalfOpen) := by
        refine compareExchangeState hT.read fun s hs => ?_
        exact hT.halfOpened s (hs ▸ hhalf) (hs ▸ hclosed)
      refine bind hcas fun r => ?_
      split
      · refine bind (hT.storeInFlight _) fun _ => ?_
        exact bind (hT.recordTransition _ _) fun _ => pure _
      · exact pure _

theorem resetStuckProbe : Holds G T CircuitBreaker.resetStuckProbe := by
  refine bind (hT.load _ _) fun inFlight => ?_
  split
  · refine bind (hT.load _ _) fun _ => ?_
    refine bind (hT.load _ _) fun _ => ?_
    refine bind (hT.load _ _) fun _ => ?_
    split
    · exact hT.storeInFlight _
    · exact pure _
  · exact pure _

theorem allowRequest (rounds : ℕ) : Holds G T (CircuitBreaker.allowRequest rounds) := by
  induction rounds with
  | zero => exact pure _
  | succ rounds ih =>
    refine bind (hT.load _ _) fun state => ?_
    split
    · exact pure _
    split
    · refine bind hT.recoveryElapsed fun elapsed => ?_
      split
      · refine bind hT.tryTransitionToHalfOpen fun moved => ?_
        split
        · exact ih
        · exact pure _
      · exact pure _
    split
    · refine bind (hT.load _ _) fun _ => ?_
      split
      · exact pure _
      · refine bind hT.resetStuckProbe fun _ => ?_
        have hreserve : Holds G T reserveInFlight :=
          sat_modifyGet (fun s _ => hT.inFlight s true) fun _ _ => trivial
        refine bind hreserve fun reserved => ?_
        split
        · refine bind (hT.load _ _) fun _ => ?_
          exact bind (hT.storeProbeSent _) fun _ => pure _
        · exact pure _
    · exact pure _

theorem abortProbe : Holds G T CircuitBreaker.abortProbe := by
  refine bind (hT.load _ _) fun state => ?_
  split
  · exact bind (hT.storeProbeSent _) fun _ => hT.storeInFlight _
  · exact pure _

theorem recordOpenTransition (source : CircuitState) :
    Holds G T (CircuitBreaker.recordOpenTransition source) := by
  unfold CircuitBreaker.recordOpenTransition
  split
  · exact pure _
  · exact hT.recordTransition _ _

theorem openLoop (attempts : ℕ) : Holds G T (CircuitBreaker.openLoop attempts) := by
  induction attempts with
  | zero => exact pure _
  | succ attempts ih =>
    refine bind (hT.load _ _) fun current => ?_
    refine bind (compareExchangeState hT.read fun s _ => hT.opened s) fun r => ?_
    split
    · exact hT.recordOpenTransition _
    · split
      · exact pure _
      · split
        · -- the forced store needs no byte read before: every state may open
          have hstore : Holds G T (storeState stateOpen) := sat_modify fun s _ => hT.opened s
          exact bind hstore fun _ => hT.recordOpenTransition _
        · exact ih

theorem transitionToOpen : Holds G T CircuitBreaker.transitionToOpen := by
  refine bind (hT.load _ _) fun now => ?_
  refine bind (sat_modify fun s _ => hT.openedAt s now) fun _ => ?_
  exact bind (hT.storeInFlight _) fun _ => hT.openLoop 64

theorem recordError : Holds G T CircuitBreaker.recordError := by
  refine bind (hT.load _ _) fun state => ?_
  split
  · refine bind (sat_modifyGet (fun s _ => hT.push s true) fun _ _ => trivial) fun trips => ?_
    split
    · exact hT.transitionToOpen
    · exact pure _
  split
  · exact bind (hT.storeInFlight _) fun _ => hT.transitionToOpen
  · exact pure _

end Tolerates

end CircuitBreaker

end SentirumLb
