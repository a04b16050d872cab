import SentirumLb.Breaker.Accesses

/-! # Transitions of the state bits under concurrency

Any number of calls run against one breaker, one atomic access at a time. Every
write of the state byte is a compare-exchange from a byte read before, or a
forced store of the open state, so each change of the state bits is decided by
the byte that was read. The one write that can leave the intended cycle is that
of `transition_to_closed`, which reads the byte again after the decision to
close was taken: when it finds the circuit reopened it closes it all the same.
-/

namespace SentirumLb

namespace CircuitBreaker

open Prog

inductive LegalChange : UInt8 → UInt8 → Prop where
  | trip : LegalChange stateClosed stateOpen
  | probe : LegalChange stateOpen stateHalfOpen
  | reopen : LegalChange stateHalfOpen stateOpen
  | recover : LegalChange stateHalfOpen stateClosed

/-- A write of one byte over another keeps the bits valid and changes them legally, if at all. -/
def LegalWrite (a b : UInt8) : Prop :=
  bits a ≠ 3 → bits b ≠ 3 ∧ (bits b = bits a ∨ LegalChange (bits a) (bits b))

def LegalStep (s s' : ClockedBreaker) : Prop := LegalWrite s.stateAtomic s'.stateAtomic

theorem legalWrite_refl (a : UInt8) : LegalWrite a a := fun h => ⟨h, Or.inl rfl⟩

theorem legalWrite_open (a : UInt8) : LegalWrite a stateOpen := by
  intro ha
  refine ⟨by decide, ?_⟩
  rcases bits_cases a with h | h | h | h
  · rw [h]
    exact Or.inr .trip
  · rw [h]
    exact Or.inl rfl
  · rw [h]
    exact Or.inr .reopen
  · exact absurd h ha

theorem legalWrite_halfOpen {a : UInt8} (h1 : bits a ≠ stateHalfOpen) (h2 : bits a ≠ stateClosed) :
    LegalWrite a stateHalfOpen := by
  intro ha
  refine ⟨by decide, ?_⟩
  rcases bits_cases a with h | h | h | h
  · exact absurd h h2
  · rw [h]
    exact Or.inr .probe
  · exact absurd h h1
  · exact absurd h ha

theorem legalWrite_closed {a : UInt8} (h1 : bits a ≠ stateOpen) : LegalWrite a stateClosed := by
  intro ha
  refine ⟨by decide, ?_⟩
  rcases bits_cases a with h | h | h | h
  · rw [h]
    exact Or.inl rfl
  · exact absurd h h1
  · rw [h]
    exact Or.inr .recover
  · exact absurd h ha

theorem legalWrite_halfOpenByte {a : UInt8} (h : bits a = stateHalfOpen) (probes : ℕ) :
    LegalWrite a (halfOpenByte probes) := by
  intro _
  rw [bits_halfOpenByte, h]
  exact ⟨by decide, Or.inl rfl⟩

/-! ## The methods -/

/-- The reload before closing does not find the circuit open. -/
def ReloadOk (l : Access) (s : ClockedBreaker) : Prop :=
  l = .closingReload → bits s.stateAtomic ≠ stateOpen

abbrev Legal {α : Type} (m : Method α) : Prop := m.Sat ReloadOk LegalStep fun _ => True

theorem tolerates_legalStep : Tolerates LegalStep :=
  .of_byte legalWrite_refl legalWrite_open fun _ => legalWrite_halfOpen

theorem legal_transitionToClosed : Legal transitionToClosed := by
  have hreload : (load .closingReload (·.stateAtomic) : Method UInt8).Sat ReloadOk LegalStep
      fun current => bits current ≠ stateOpen :=
    sat_load tolerates_legalStep.read fun _ hG => hG rfl
  refine sat_bind hreload fun current hcurrent => ?_
  refine Tolerates.bind (tolerates_legalStep.storeInFlight _) fun _ => ?_
  have hcas : Legal (compareExchangeState current stateClosed) := by
    refine Tolerates.compareExchangeState tolerates_legalStep.read fun s hs => ?_
    exact legalWrite_closed (hs ▸ hcurrent)
  refine Tolerates.bind hcas fun _ => ?_
  exact sat_modify fun s _ => legalWrite_refl s.stateAtomic

theorem legal_recordSuccess : Legal recordSuccess := by
  refine Tolerates.bind (tolerates_legalStep.load _ _) fun state => ?_
  split
  · exact sat_modify fun s _ => tolerates_legalStep.push s false
  split
  · next h =>
    refine Tolerates.bind (tolerates_legalStep.storeInFlight _) fun _ => ?_
    refine Tolerates.bind (tolerates_legalStep.load _ _) fun max => ?_
    split
    · exact legal_transitionToClosed
    · have hcas : Legal (compareExchangeState state (halfOpenByte (probeCount state + 1))) := by
        refine Tolerates.compareExchangeState tolerates_legalStep.read fun s hs => ?_
        exact legalWrite_halfOpenByte (hs ▸ h) _
      exact Tolerates.bind hcas fun _ => Tolerates.pure _
  · exact Tolerates.pure _

/-! ## Interleaved calls -/

inductive Call where
  | allowRequest (rounds : ℕ)
  | recordSuccess
  | recordError
  | abortProbe
  deriving DecidableEq

def Call.prog : Call → Method Unit
  | .allowRequest rounds => do
      let _ ← CircuitBreaker.allowRequest rounds
      return ()
  | .recordSuccess => CircuitBreaker.recordSuccess
  | .recordError => CircuitBreaker.recordError
  | .abortProbe => CircuitBreaker.abortProbe

inductive CallLabel where
  | call (c : Call)
  | run (i : ℕ)
  | tick (ms : ℕ)

def CallLabel.toPool : CallLabel → PoolLabel Access ClockedBreaker
  | .call c => .spawn c.prog
  | .run i => .run i
  | .tick ms => .env fun s => { s with nowMs := s.nowMs + ms }

abbrev Calls := Pool Access ClockedBreaker

def callStep (p : Calls) (l : CallLabel) : Option Calls := p.step l.toPool

def idle (config : CircuitBreakerConfig) (nowMs : ℕ) : Calls :=
  ⟨⟨withConfig config, nowMs⟩, []⟩

/-- When the next access is the reload of `transition_to_closed`, the circuit is not open. -/
def ReloadsNotOpen (p : Calls) : CallLabel → Prop
  | .run i => p.nextLabel i = some .closingReload → bits p.shared.stateAtomic ≠ stateOpen
  | .call _ => True
  | .tick _ => True

instance (p : Calls) (l : CallLabel) : Decidable (ReloadsNotOpen p l) :=
  match l with
  | .run i => inferInstanceAs (Decidable (p.nextLabel i = some .closingReload →
      bits p.shared.stateAtomic ≠ stateOpen))
  | .call _ => .isTrue trivial
  | .tick _ => .isTrue trivial

theorem legal_prog (c : Call) : Legal c.prog := by
  cases c with
  | allowRequest rounds =>
    exact Tolerates.bind (tolerates_legalStep.allowRequest rounds) fun _ => Tolerates.pure _
  | recordSuccess => exact legal_recordSuccess
  | recordError => exact tolerates_legalStep.recordError
  | abortProbe => exact tolerates_legalStep.abortProbe

/-- The pool steps of calls are allowed ones when no reload finds the circuit open. -/
theorem meets_allowed {p : Calls} {ls : List CallLabel}
    (h : Runs.Meets callStep ReloadsNotOpen p ls) :
    Runs.Meets Pool.step (Pool.Allowed ReloadOk (fun t => ∃ c : Call, t = c.prog)
      fun f => ∃ ms, f = fun s => { s with nowMs := s.nowMs + ms }) p (ls.map (·.toPool)) := by
  refine Runs.meets_map _ ?_ h
  intro p l hl
  cases l with
  | call c => exact ⟨c, rfl⟩
  | run i =>
    rintro a ha rfl
    exact hl ha
  | tick ms => exact ⟨ms, rfl⟩

/-- In every interleaving in which no reload before closing finds the circuit open, every change
of the state bits is a legal one. -/
theorem legalChange_of_reloadsNotOpen {config : CircuitBreakerConfig} {nowMs : ℕ}
    {before after : List CallLabel} {l : CallLabel} {p p' : Calls}
    (hreload : Runs.Meets callStep ReloadsNotOpen (idle config nowMs) (before ++ l :: after))
    (hrun : Runs.run callStep (idle config nowMs) before = some p)
    (hstep : callStep p l = some p')
    (hchange : bits p'.shared.stateAtomic ≠ bits p.shared.stateAtomic) :
    LegalChange (bits p.shared.stateAtomic) (bits p'.shared.stateAtomic) := by
  have hpart : Runs.Meets callStep ReloadsNotOpen (idle config nowMs) (before ++ [l]) := by
    rw [List.append_cons] at hreload
    exact hreload.append_left
  have hallowed := meets_allowed hpart
  rw [List.map_append] at hallowed
  have hrun' : Runs.run Pool.step (idle config nowMs) (before.map (·.toPool)) = some p := by
    rw [← Runs.run_map]
    exact hrun
  obtain ⟨hvalid, hlegal⟩ := Pool.run_sat (I := fun s => bits s.stateAtomic ≠ 3)
    (by rintro t ⟨c, rfl⟩; exact legal_prog c)
    (by rintro f ⟨ms, rfl⟩ s; exact legalWrite_refl _)
    tolerates_legalStep.read (fun s s' hT hs => (hT hs).1) hallowed hrun'
    (show bits stateClosed ≠ 3 by decide) hstep
  exact (hlegal hvalid).2.resolve_left hchange

/-- An error opens the circuit, a probe is admitted, and its success closes the circuit. -/
def recoverySchedule : List CallLabel :=
  [CallLabel.call .recordError] ++ List.replicate 8 (CallLabel.run 0) ++
    [CallLabel.call (.allowRequest 2)] ++ List.replicate 14 (CallLabel.run 1) ++
    [CallLabel.call .recordSuccess] ++ List.replicate 7 (CallLabel.run 2)

theorem legalChange_recoverySchedule :
    ∃ p p' : Calls,
      Runs.run callStep (idle tightConfig 0) (recoverySchedule.take 30) = some p ∧
      callStep p (.run 2) = some p' ∧ bits p.shared.stateAtomic = stateHalfOpen ∧
      LegalChange (bits p.shared.stateAtomic) (bits p'.shared.stateAtomic) := by
  have hbits : (Runs.run callStep (idle tightConfig 0) (recoverySchedule.take 30)).bind
      (fun p => (callStep p (.run 2)).map fun p' =>
        (bits p.shared.stateAtomic, bits p'.shared.stateAtomic)) =
      some (stateHalfOpen, stateClosed) := by decide +kernel
  obtain ⟨p, hp, hbits⟩ := Option.bind_eq_some_iff.mp hbits
  obtain ⟨p', hp', hbits⟩ := Option.map_eq_some_iff.mp hbits
  obtain ⟨h1, h2⟩ := Prod.mk.inj hbits
  have hreload : Runs.Meets callStep ReloadsNotOpen (idle tightConfig 0)
      (recoverySchedule.take 30 ++ .run 2 :: [.run 2]) := by decide +kernel
  have hchange : bits p'.shared.stateAtomic ≠ bits p.shared.stateAtomic := by
    rw [h1, h2]
    decide
  exact ⟨p, p', hp, hp', h1, legalChange_of_reloadsNotOpen hreload hp hp' hchange⟩

/-- The same, but before the success is recorded in full an error of another request reopens the
circuit. -/
def reopenedSchedule : List CallLabel :=
  recoverySchedule.take 24 ++
    [CallLabel.call .recordSuccess] ++ List.replicate 3 (CallLabel.run 2) ++
    [CallLabel.call .recordError] ++ List.replicate 7 (CallLabel.run 3) ++
    List.replicate 2 (CallLabel.run 2)

/-- The circuit goes from open to closed without passing through half-open. -/
theorem open_to_closed_reopenedSchedule :
    ∃ p p' : Calls, Runs.run callStep (idle tightConfig 0) reopenedSchedule = some p ∧
      callStep p (.run 2) = some p' ∧ bits p.shared.stateAtomic = stateOpen ∧
      bits p'.shared.stateAtomic = stateClosed ∧
      ¬ LegalChange (bits p.shared.stateAtomic) (bits p'.shared.stateAtomic) := by
  have hbits : (Runs.run callStep (idle tightConfig 0) reopenedSchedule).bind
      (fun p => (callStep p (.run 2)).map fun p' =>
        (bits p.shared.stateAtomic, bits p'.shared.stateAtomic)) =
      some (stateOpen, stateClosed) := by decide +kernel
  obtain ⟨p, hp, hbits⟩ := Option.bind_eq_some_iff.mp hbits
  obtain ⟨p', hp', hbits⟩ := Option.map_eq_some_iff.mp hbits
  obtain ⟨h1, h2⟩ := Prod.mk.inj hbits
  refine ⟨p, p', hp, hp', h1, h2, ?_⟩
  rw [h1, h2]
  intro h
  cases h

end CircuitBreaker

end SentirumLb
