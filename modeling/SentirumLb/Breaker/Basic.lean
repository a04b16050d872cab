import SentirumLb.Lib.Atomic

/-! # The circuit breaker

The breaker keeps its state and the number of successful probes in one byte,
and further atomics around it. Every method is a program of atomic accesses, so
that the same definitions are run alone and interleaved. Sections under the
window or the history lock are single actions, since all that they touch is
touched under that lock only. The clock is part of the state and moves only
when the environment moves it.
-/

namespace SentirumLb

inductive CircuitState where
  | closed
  | opened
  | halfOpen
  deriving DecidableEq, Repr

structure CircuitTransition where
  source : CircuitState
  target : CircuitState
  elapsedMs : ℕ
  deriving DecidableEq, Repr

structure CircuitBreakerConfig where
  errorThreshold : UInt8 := 50
  windowSize : ℕ := 100
  recoveryTimeoutSecs : ℕ := 30
  halfOpenMaxRequests : ℕ := 3
  deriving DecidableEq, Repr

structure CircuitBreaker where
  /-- Bits 0-1 hold the state, bits 2-7 the probe counter. -/
  stateAtomic : UInt8
  recoveryTimeoutSecs : ℕ
  errorThreshold : UInt8
  windowSize : ℕ
  halfOpenMaxRequests : ℕ
  window : List Bool
  errorCount : ℕ
  openedAtMs : ℕ
  halfOpenInFlight : Bool
  halfOpenProbeSentAtMs : ℕ
  history : List CircuitTransition
  deriving DecidableEq

structure ClockedBreaker extends CircuitBreaker where
  nowMs : ℕ
  deriving DecidableEq

def stateMask : UInt8 := 0x03
def stateClosed : UInt8 := 0
def stateOpen : UInt8 := 1
def stateHalfOpen : UInt8 := 2

def probeCount (state : UInt8) : ℕ := ((state >>> 2) &&& 0x3F).toNat

def halfOpenByte (probes : ℕ) : UInt8 := stateHalfOpen ||| (probes.toUInt8 <<< 2)

namespace CircuitBreaker

/-- The counter must fit the six bits that it has, so `halfOpenMaxRequests` is clamped. -/
def withConfig (config : CircuitBreakerConfig) : CircuitBreaker where
  stateAtomic := stateClosed
  recoveryTimeoutSecs := config.recoveryTimeoutSecs
  errorThreshold := config.errorThreshold
  windowSize := max config.windowSize 1
  halfOpenMaxRequests := min (max config.halfOpenMaxRequests 1) 63
  window := []
  errorCount := 0
  openedAtMs := 0
  halfOpenInFlight := false
  halfOpenProbeSentAtMs := 0
  history := []

/-- The accesses. The load that opens `transition_to_closed` has a name of its own, and `config`
reads the fields that never change. -/
inductive Access where
  | config
  | stateAtomic
  | closingReload
  | recoveryTimeoutSecs
  | openedAtMs
  | halfOpenInFlight
  | halfOpenProbeSentAtMs
  | monotonicElapsedMs
  | window
  | history
  deriving DecidableEq, Repr

abbrev Method := Prog Access ClockedBreaker

open Prog

def loadState : Method UInt8 := load .stateAtomic (·.stateAtomic)

def compareExchangeState (current new : UInt8) : Method (Except UInt8 Unit) :=
  modifyGet .stateAtomic
    (fun s => if s.stateAtomic = current then { s with stateAtomic := new } else s)
    fun s => if s.stateAtomic = current then .ok () else .error s.stateAtomic

def storeState (new : UInt8) : Method Unit :=
  modify .stateAtomic fun s => { s with stateAtomic := new }

def readHalfOpenMax : Method ℕ := load .config (·.halfOpenMaxRequests)

def loadInFlight : Method Bool := load .halfOpenInFlight (·.halfOpenInFlight)

def storeInFlight (b : Bool) : Method Unit :=
  modify .halfOpenInFlight fun s => { s with halfOpenInFlight := b }

def reserveInFlight : Method Bool :=
  modifyGet .halfOpenInFlight (fun s => { s with halfOpenInFlight := true })
    fun s => !s.halfOpenInFlight

def storeProbeSent (ms : ℕ) : Method Unit :=
  modify .halfOpenProbeSentAtMs fun s => { s with halfOpenProbeSentAtMs := ms }

def monotonicElapsedMs : Method ℕ := load .monotonicElapsedMs (·.nowMs)

/-- `recovery_timeout_secs * 1000`, in wrapping `u64` arithmetic. -/
def recoveryMs : Method ℕ :=
  load .recoveryTimeoutSecs fun s => s.recoveryTimeoutSecs * 1000 % 2 ^ 64

def recoveryElapsed : Method Bool := do
  let recoveryTimeout ← recoveryMs
  let openedAt ← load .openedAtMs (·.openedAtMs)
  let now ← monotonicElapsedMs
  return decide (recoveryTimeout ≤ now - openedAt)

def canAcceptRequest : Method Bool := do
  let state ← loadState
  if state &&& stateMask = stateClosed then return true
  else if state &&& stateMask = stateOpen then recoveryElapsed
  else if state &&& stateMask = stateHalfOpen then
    let max ← readHalfOpenMax
    if probeCount state < max then
      let inFlight ← loadInFlight
      return !inFlight
    else return false
  else return false

def recordTransition (source target : CircuitState) : Method Unit :=
  modify .history fun s =>
    let kept := if 20 ≤ s.history.length then s.history.tail else s.history
    { s with history := kept ++ [⟨source, target, s.nowMs⟩] }

def tryTransitionToHalfOpen : Method Bool := do
  let current ← loadState
  if current &&& stateMask = stateHalfOpen then return true
  else if current &&& stateMask = stateClosed then return true
  else
    match ← compareExchangeState current stateHalfOpen with
    | .ok _ =>
        storeInFlight false
        recordTransition .opened .halfOpen
        return true
    | .error actual => return decide (actual &&& stateMask ≠ stateOpen)

/-- The probe that is in flight for too long is taken to be lost. -/
def resetStuckProbe : Method Unit := do
  if ← loadInFlight then
    let probeSent ← load .halfOpenProbeSentAtMs (·.halfOpenProbeSentAtMs)
    let recoveryMs ← recoveryMs
    let now ← monotonicElapsedMs
    if 0 < probeSent ∧ max recoveryMs 100 ≤ now - probeSent then storeInFlight false

/-- The loop of `allow_request`, for the given number of rounds; `none` when these run out. -/
def allowRequest : ℕ → Method (Option Bool)
  | 0 => return none
  | rounds + 1 => do
      let state ← loadState
      if state &&& stateMask = stateClosed then return some true
      else if state &&& stateMask = stateOpen then
        if ← recoveryElapsed then
          if ← tryTransitionToHalfOpen then allowRequest rounds
          else return some false
        else return some false
      else if state &&& stateMask = stateHalfOpen then
        let max ← readHalfOpenMax
        if max ≤ probeCount state then return some false
        else
          resetStuckProbe
          if ← reserveInFlight then
            let now ← monotonicElapsedMs
            storeProbeSent now
            return some true
          else return some false
      else return some false

/-- Release a reserved probe when the request is rejected before any upstream attempt. -/
def abortProbe : Method Unit := do
  let state ← loadState
  if state &&& stateMask = stateHalfOpen then
    storeProbeSent 0
    storeInFlight false

/-! ## Outcomes -/

/-- The state that a byte stands for; the fourth pattern of the bits is read as closed. -/
def stateOf (state : UInt8) : CircuitState :=
  if state &&& stateMask = stateOpen then .opened
  else if state &&& stateMask = stateHalfOpen then .halfOpen
  else .closed

def currentState : Method CircuitState := do
  let state ← loadState
  return stateOf state

def recordOpenTransition (source : CircuitState) : Method Unit :=
  if source = .opened then return () else recordTransition source .opened

/-- The loop of `transition_to_open`, with the attempts left before the byte is overwritten. -/
def openLoop : ℕ → Method Unit
  | 0 => return ()
  | attempts + 1 => do
      let current ← loadState
      match ← compareExchangeState current stateOpen with
      | .ok _ => recordOpenTransition (stateOf current)
      | .error actual =>
          if actual &&& stateMask = stateOpen then return ()
          else if attempts = 0 then
            storeState stateOpen
            recordOpenTransition (stateOf current)
          else openLoop attempts

def transitionToOpen : Method Unit := do
  let now ← monotonicElapsedMs
  modify .openedAtMs fun s => { s with openedAtMs := now }
  storeInFlight false
  openLoop 64

def transitionToClosed : Method Unit := do
  let current ← load .closingReload (·.stateAtomic)
  storeInFlight false
  let _ ← compareExchangeState current stateClosed
  modify .window fun s => { s with window := [], errorCount := 0 }

def pushOutcome (isError : Bool) (s : CircuitBreaker) : CircuitBreaker :=
  let count := if isError then (s.errorCount + 1) % 2 ^ 64 else s.errorCount
  match s.window with
  | oldest :: rest =>
      if s.windowSize ≤ s.window.length then
        { s with
          window := rest ++ [isError]
          errorCount := if oldest then (count + (2 ^ 64 - 1)) % 2 ^ 64 else count }
      else { s with window := s.window ++ [isError], errorCount := count }
  | [] => { s with window := [isError], errorCount := count }

/-- Whether a window of this length with this many errors opens the circuit. -/
def tripsOpen (windowSize : ℕ) (errorThreshold : UInt8) (windowLen errors : ℕ) : Bool :=
  let minSamples := min (max (windowSize / 4) 5) windowSize
  let errorRateMeets :=
    0 < windowLen ∧ windowLen * errorThreshold.toNat % 2 ^ 64 ≤ errors * 100 % 2 ^ 64
  errorRateMeets ∧ minSamples ≤ windowLen

def recordSuccess : Method Unit := do
  let state ← loadState
  if state &&& stateMask = stateClosed then
    modify .window fun s => ⟨pushOutcome false s.toCircuitBreaker, s.nowMs⟩
  else if state &&& stateMask = stateHalfOpen then
    storeInFlight false
    let max ← readHalfOpenMax
    if max ≤ probeCount state + 1 then transitionToClosed
    else
      let _ ← compareExchangeState state (halfOpenByte (probeCount state + 1))
      return ()
  else return ()

def recordError : Method Unit := do
  let state ← loadState
  if state &&& stateMask = stateClosed then
    let trips ← modifyGet .window (fun s => ⟨pushOutcome true s.toCircuitBreaker, s.nowMs⟩)
      fun s =>
        let pushed := pushOutcome true s.toCircuitBreaker
        tripsOpen s.windowSize s.errorThreshold pushed.window.length pushed.errorCount
    if trips then transitionToOpen
  else if state &&& stateMask = stateHalfOpen then
    storeInFlight false
    transitionToOpen
  else return ()

inductive Ending where
  | success
  | error
  | abort
  deriving DecidableEq, Repr

def Ending.method : Ending → Method Unit
  | .success => recordSuccess
  | .error => recordError
  | .abort => abortProbe

/-! ## The state byte -/

def bits (state : UInt8) : UInt8 := state &&& stateMask

theorem bits_cases (b : UInt8) :
    bits b = stateClosed ∨ bits b = stateOpen ∨ bits b = stateHalfOpen ∨ bits b = 3 := by
  revert b
  decide +kernel

theorem bits_halfOpenByte (probes : ℕ) : bits (halfOpenByte probes) = stateHalfOpen := by
  have h : ∀ x : UInt8, bits (stateHalfOpen ||| (x <<< 2)) = stateHalfOpen := by decide +kernel
  exact h _

theorem probeCount_halfOpenByte {probes : ℕ} (h : probes < 64) :
    probeCount (halfOpenByte probes) = probes := by
  have hfin : ∀ n : Fin 64, probeCount (halfOpenByte n.val) = n.val := by decide +kernel
  exact hfin ⟨probes, h⟩

/-- A breaker that one error opens, that may be probed at once and that one probe closes. -/
def tightConfig : CircuitBreakerConfig where
  errorThreshold := 50
  windowSize := 1
  recoveryTimeoutSecs := 0
  halfOpenMaxRequests := 1

end CircuitBreaker

end SentirumLb
