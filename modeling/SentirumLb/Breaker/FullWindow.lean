import SentirumLb.Breaker.Representation

/-! # Windows full of errors

Calls that read the closed state before any of them trips the breaker may all
push their errors, so the window can hold as many errors as it has room for.
-/

namespace SentirumLb

namespace CircuitBreaker

open Prog

def afterPush (s : ClockedBreaker) : Method Unit :=
  let pushed := pushOutcome true s.toCircuitBreaker
  if tripsOpen s.windowSize s.errorThreshold pushed.window.length pushed.errorCount then
    transitionToOpen
  else return ()

def pushError : Method Unit :=
  .act .window (fun s => ⟨pushOutcome true s.toCircuitBreaker, s.nowMs⟩) afterPush

def recordErrorIn (state : UInt8) : Method Unit :=
  if state &&& stateMask = stateClosed then pushError
  else if state &&& stateMask = stateHalfOpen then do
    storeInFlight false
    transitionToOpen
  else return ()

theorem recordError_eq : recordError = .act .stateAtomic id fun s => recordErrorIn s.stateAtomic :=
  rfl

variable {s : ClockedBreaker}

theorem operationStep_run {threads : List (Method Unit)} {i : ℕ} {l : Access}
    {upd : ClockedBreaker → ClockedBreaker} {next : ClockedBreaker → Method Unit}
    (h : threads[i]? = some (.act l upd next)) :
    operationStep ⟨s, threads⟩ (.run i) = some ⟨upd s, threads.set i (next s)⟩ := by
  simp [operationStep, OperationLabel.toPool, Pool.step, h]

theorem run_readers (hclosed : s.stateAtomic = stateClosed) (k : ℕ) :
    ∃ ls, Runs.run operationStep ⟨s, []⟩ ls = some ⟨s, List.replicate k pushError⟩ := by
  induction k with
  | zero => exact ⟨[], rfl⟩
  | succ k ih =>
    obtain ⟨ls, hls⟩ := ih
    refine ⟨ls ++ [.start (.call .recordError), .run k], ?_⟩
    have hstart : operationStep ⟨s, List.replicate k pushError⟩ (.start (.call .recordError)) =
        some ⟨s, List.replicate k pushError ++ [recordError]⟩ := rfl
    have hlast : (List.replicate k pushError ++ [recordError])[k]? =
        some (.act .stateAtomic id fun s => recordErrorIn s.stateAtomic) := by
      simp [recordError_eq]
    have hread : recordErrorIn s.stateAtomic = pushError := by
      rw [hclosed]
      rfl
    rw [Runs.run_append, hls, Option.bind_some, Runs.run_cons, hstart, Option.bind_some,
      Runs.run_cons, operationStep_run hlast, Option.bind_some, hread, List.replicate_succ']
    simp [Runs.run]

theorem pushOutcome_true_of_room {b : CircuitBreaker} (h : b.window.length < b.windowSize) :
    pushOutcome true b =
      { b with window := b.window ++ [true], errorCount := (b.errorCount + 1) % 2 ^ 64 } := by
  unfold pushOutcome
  cases hw : b.window with
  | nil => rfl
  | cons oldest rest =>
    rw [hw] at h
    simp only [List.length_cons] at h ⊢
    rw [if_neg (by omega)]
    rfl

theorem run_pushes {threads : List (Method Unit)} (n : ℕ)
    (hthreads : ∀ i < n, threads[i]? = some pushError) (hroom : n ≤ s.windowSize)
    (hempty : s.window = []) (hcount : s.errorCount = 0) (hn : n < 2 ^ 64) :
    ∃ p : Calls, Runs.run operationStep ⟨s, threads⟩ ((List.range n).map .run) = some p ∧
      p.shared.windowSize = s.windowSize ∧ p.shared.window.length = n ∧ p.shared.errorCount = n ∧
      ∀ i, n ≤ i → p.threads[i]? = threads[i]? := by
  induction n with
  | zero => exact ⟨⟨s, threads⟩, rfl, rfl, by simp [hempty], hcount, fun _ _ => rfl⟩
  | succ n ih =>
    obtain ⟨p, hp, hsize, hlen, herrors, hrest⟩ :=
      ih (fun i hi => hthreads i (by omega)) (by omega) (by omega)
    have hnext : p.threads[n]? = some pushError := by
      rw [hrest n le_rfl]
      exact hthreads n (by omega)
    have hpush := pushOutcome_true_of_room (b := p.shared.toCircuitBreaker) (by omega)
    refine ⟨⟨⟨pushOutcome true p.shared.toCircuitBreaker, p.shared.nowMs⟩,
      p.threads.set n (afterPush p.shared)⟩, ?_, ?_, ?_, ?_, ?_⟩
    · rw [List.range_succ, List.map_append, Runs.run_append, hp, Option.bind_some, List.map_cons,
        Runs.run_cons, operationStep_run hnext]
      rfl
    · rw [hpush]
      exact hsize
    · rw [hpush]
      simp [hlen]
    · rw [hpush]
      simp only [herrors]
      omega
    · intro i hi
      rw [List.getElem?_set_ne (by omega)]
      exact hrest i (by omega)

end CircuitBreaker

end SentirumLb
