import SentirumLb.Admin.Auth
import SentirumLb.Lib.Runs

/-! # The admin server

Login calls, logouts, authenticated requests and cleanup ticks share the map of
login attempts and the map of sessions. A step is one operation on one of the
maps, or a password check; the clock is read in the step that uses it, except
that the cleanup of the attempts uses the time of the check before it. Calls
interleave in any order, and the configuration may be another one at each step.
-/

namespace SentirumLb

namespace Admin

inductive LoginPhase where
  | entered
  | passed (nowMs : ℕ)
  | cleaned
  | verified (user : Option String)
  | granted (user token : String)
  | answered (response : LoginResponse)

structure LoginCall where
  req : LoginRequest
  phase : LoginPhase

inductive AuthPhase where
  | bearer
  | query
  | decided (accepted : Bool)
  deriving DecidableEq

structure AuthCall where
  request : AdminRequest
  expected : String
  phase : AuthPhase

def AuthCall.queryIsAdmin (c : AuthCall) : Bool :=
  c.expected != "" && c.request.queryToken.any (constantTimeEq · c.expected)

structure Acceptance where
  token : String
  session : SessionEntry
  atMs : ℕ

/-- The state of the server. The last four fields are records for the specification, which no
handler reads. -/
structure Server where
  nowMs : ℕ
  loginAttempts : LoginAttempts
  sessions : Sessions
  logins : List LoginCall
  requests : List AuthCall
  verifications : List (String × ℕ)
  windows : List (String × ℕ)
  acceptances : List Acceptance
  lastSweepMs : ℕ

inductive ServerLabel where
  | login (req : LoginRequest)
  | check (i : ℕ)
  | clean (i : ℕ)
  | verify (i : ℕ) (config : ServerConfig)
  | count (i : ℕ)
  | grant (i : ℕ) (token : String)
  | clear (i : ℕ)
  | logout (bearer : Option String)
  /-- A cleanup tick, which does nothing where the lock is taken. -/
  | cleanup (locked : Bool)
  | request (r : AdminRequest) (config : ServerConfig)
  | lookupBearer (j : ℕ)
  | lookupQuery (j : ℕ)
  | tick (ms : ℕ)

namespace Server

def initial (nowMs : ℕ) : Server := ⟨nowMs, ∅, ∅, [], [], [], [], [], 0⟩

/-- An operation on the attempts of the user starts a window: there is none, or it has expired. -/
def startsWindow (s : Server) (username : String) : Bool :=
  (s.loginAttempts.lookup username).all (·.expired s.nowMs)

def recordWindow (s : Server) (username : String) : List (String × ℕ) :=
  if s.startsWindow username then s.windows ++ [(username, s.nowMs)] else s.windows

def setLogin (s : Server) (i : ℕ) (c : LoginCall) (phase : LoginPhase) : Server :=
  { s with logins := s.logins.set i { c with phase := phase } }

def setRequest (s : Server) (j : ℕ) (c : AuthCall) (phase : AuthPhase) : Server :=
  { s with requests := s.requests.set j { c with phase := phase } }

/-! ## The login handler -/

def check (s : Server) (i : ℕ) (c : LoginCall) : Server :=
  if c.req.tooLong then s.setLogin i c (.answered invalidCredentials)
  else
    let (rateLimited, m) := checkAttempts s.nowMs c.req.username s.loginAttempts
    setLogin { s with loginAttempts := m, windows := s.recordWindow c.req.username } i c
      (if rateLimited then .answered tooManyAttempts else .passed s.nowMs)

def clean (s : Server) (i : ℕ) (c : LoginCall) (checkedMs : ℕ) : Server :=
  setLogin { s with loginAttempts := retainAttempts checkedMs s.loginAttempts } i c .cleaned

def verify [Bcrypt] (s : Server) (i : ℕ) (c : LoginCall) (config : ServerConfig) : Server :=
  setLogin { s with verifications := s.verifications ++ [(c.req.username, s.nowMs)] } i c
    (.verified (authenticate config c.req))

def count (s : Server) (i : ℕ) (c : LoginCall) : Server :=
  setLogin { s with
    loginAttempts := countFailure s.nowMs c.req.username s.loginAttempts
    windows := s.recordWindow c.req.username } i c (.answered invalidCredentials)

def grant (s : Server) (i : ℕ) (c : LoginCall) (user token : String) : Server :=
  setLogin { s with
    sessions := (evictExpiredSessions s.nowMs s.sessions).insert token ⟨user, s.nowMs⟩
    lastSweepMs := s.nowMs } i c (.granted user token)

def clear (s : Server) (i : ℕ) (c : LoginCall) (user token : String) : Server :=
  setLogin { s with loginAttempts := s.loginAttempts.erase c.req.username } i c
    (.answered (loginSuccessful user token))

/-! ## Sessions -/

def logout (s : Server) : Option String → Server
  | some token => { s with sessions := s.sessions.erase token }
  | none => s

def cleanup (s : Server) (locked : Bool) : Server :=
  if locked then s
  else { s with sessions := retainSessions s.nowMs s.sessions, lastSweepMs := s.nowMs }

def request (s : Server) (r : AdminRequest) (config : ServerConfig) : Server :=
  let c : AuthCall :=
    { request := r
      expected := config.adminToken
      phase := if r.tokenAuth config.adminToken then .decided true else .bearer }
  { s with requests := s.requests ++ [c] }

def lookupSession (s : Server) (j : ℕ) (c : AuthCall) (otherwise : AuthPhase) :
    Option String → Server
  | some token =>
      match s.sessions.lookup token with
      | some session =>
          setRequest { s with acceptances := s.acceptances ++ [⟨token, session, s.nowMs⟩] } j c
            (.decided true)
      | none => s.setRequest j c otherwise
  | none => s.setRequest j c otherwise

def acceptance (s : Server) (token : Option String) : Option Acceptance :=
  token.bind fun t => (s.sessions.lookup t).map fun e => ⟨t, e, s.nowMs⟩

theorem lookupSession_eq (s : Server) (j : ℕ) (c : AuthCall) (otherwise : AuthPhase)
    (token : Option String) :
    ∃ phase, s.lookupSession j c otherwise token =
      setRequest { s with acceptances := s.acceptances ++ (s.acceptance token).toList } j c
        phase := by
  unfold lookupSession acceptance
  cases token with
  | none => exact ⟨otherwise, by simp⟩
  | some t =>
    dsimp only
    cases hlookup : s.sessions.lookup t with
    | none => exact ⟨otherwise, by simp [hlookup]⟩
    | some e => exact ⟨.decided true, by simp [hlookup]⟩

/-- The query check compares with the admin token before it looks into the sessions. -/
def lookupQuery (s : Server) (j : ℕ) (c : AuthCall) : Server :=
  if c.queryIsAdmin then s.setRequest j c (.decided true)
  else s.lookupSession j c (.decided false) c.request.queryToken

/-! ## Steps -/

def onLogin (s : Server) (i : ℕ) (f : LoginCall → Option Server) : Option Server :=
  s.logins[i]?.bind f

def onRequest (s : Server) (j : ℕ) (f : AuthCall → Option Server) : Option Server :=
  s.requests[j]?.bind f

def step [Bcrypt] (s : Server) : ServerLabel → Option Server
  | .login req => some { s with logins := s.logins ++ [⟨req, .entered⟩] }
  | .check i => s.onLogin i fun c =>
      match c.phase with
      | .entered => some (s.check i c)
      | _ => none
  | .clean i => s.onLogin i fun c =>
      match c.phase with
      | .passed checkedMs => some (s.clean i c checkedMs)
      | _ => none
  | .verify i config => s.onLogin i fun c =>
      match c.phase with
      | .cleaned => some (s.verify i c config)
      | _ => none
  | .count i => s.onLogin i fun c =>
      match c.phase with
      | .verified none => some (s.count i c)
      | _ => none
  | .grant i token => s.onLogin i fun c =>
      match c.phase with
      | .verified (some user) => some (s.grant i c user token)
      | _ => none
  | .clear i => s.onLogin i fun c =>
      match c.phase with
      | .granted user token => some (s.clear i c user token)
      | _ => none
  | .logout bearer => some (s.logout bearer)
  | .cleanup locked => some (s.cleanup locked)
  | .request r config => some (s.request r config)
  | .lookupBearer j => s.onRequest j fun c =>
      match c.phase with
      | .bearer => some (s.lookupSession j c .query c.request.bearer)
      | _ => none
  | .lookupQuery j => s.onRequest j fun c =>
      match c.phase with
      | .query => some (s.lookupQuery j c)
      | _ => none
  | .tick ms => some { s with nowMs := s.nowMs + ms }

inductive Change [Bcrypt] (s : Server) : ServerLabel → Server → Prop where
  | login (req : LoginRequest) :
      Change s (.login req) { s with logins := s.logins ++ [⟨req, .entered⟩] }
  | check {i : ℕ} {c : LoginCall} (hc : s.logins[i]? = some c) (hphase : c.phase = .entered) :
      Change s (.check i) (s.check i c)
  | clean {i : ℕ} {c : LoginCall} {checkedMs : ℕ} (hc : s.logins[i]? = some c)
      (hphase : c.phase = .passed checkedMs) : Change s (.clean i) (s.clean i c checkedMs)
  | verify {i : ℕ} {c : LoginCall} (config : ServerConfig) (hc : s.logins[i]? = some c)
      (hphase : c.phase = .cleaned) : Change s (.verify i config) (s.verify i c config)
  | count {i : ℕ} {c : LoginCall} (hc : s.logins[i]? = some c)
      (hphase : c.phase = .verified none) : Change s (.count i) (s.count i c)
  | grant {i : ℕ} {c : LoginCall} {user : String} (token : String) (hc : s.logins[i]? = some c)
      (hphase : c.phase = .verified (some user)) :
      Change s (.grant i token) (s.grant i c user token)
  | clear {i : ℕ} {c : LoginCall} {user token : String} (hc : s.logins[i]? = some c)
      (hphase : c.phase = .granted user token) : Change s (.clear i) (s.clear i c user token)
  | logout (bearer : Option String) : Change s (.logout bearer) (s.logout bearer)
  | cleanup (locked : Bool) : Change s (.cleanup locked) (s.cleanup locked)
  | request (r : AdminRequest) (config : ServerConfig) :
      Change s (.request r config) (s.request r config)
  | lookupBearer {j : ℕ} {c : AuthCall} (hc : s.requests[j]? = some c)
      (hphase : c.phase = .bearer) :
      Change s (.lookupBearer j) (s.lookupSession j c .query c.request.bearer)
  | lookupQuery {j : ℕ} {c : AuthCall} (hc : s.requests[j]? = some c) (hphase : c.phase = .query) :
      Change s (.lookupQuery j) (s.lookupQuery j c)
  | tick (ms : ℕ) : Change s (.tick ms) { s with nowMs := s.nowMs + ms }

theorem change_of_step [Bcrypt] {s s' : Server} {l : ServerLabel} (h : s.step l = some s') :
    s.Change l s' := by
  cases l with
  | login req =>
    cases h
    exact .login req
  | check i =>
    obtain ⟨c, hc, h⟩ := Option.bind_eq_some_iff.mp h
    split at h
    · next hphase =>
      cases h
      exact .check hc hphase
    · cases h
  | clean i =>
    obtain ⟨c, hc, h⟩ := Option.bind_eq_some_iff.mp h
    split at h
    · next hphase =>
      cases h
      exact .clean hc hphase
    · cases h
  | verify i config =>
    obtain ⟨c, hc, h⟩ := Option.bind_eq_some_iff.mp h
    split at h
    · next hphase =>
      cases h
      exact .verify config hc hphase
    · cases h
  | count i =>
    obtain ⟨c, hc, h⟩ := Option.bind_eq_some_iff.mp h
    split at h
    · next hphase =>
      cases h
      exact .count hc hphase
    · cases h
  | grant i token =>
    obtain ⟨c, hc, h⟩ := Option.bind_eq_some_iff.mp h
    split at h
    · next hphase =>
      cases h
      exact .grant token hc hphase
    · cases h
  | clear i =>
    obtain ⟨c, hc, h⟩ := Option.bind_eq_some_iff.mp h
    split at h
    · next hphase =>
      cases h
      exact .clear hc hphase
    · cases h
  | logout bearer =>
    cases h
    exact .logout bearer
  | cleanup locked =>
    cases h
    exact .cleanup locked
  | request r config =>
    cases h
    exact .request r config
  | lookupBearer j =>
    obtain ⟨c, hc, h⟩ := Option.bind_eq_some_iff.mp h
    split at h
    · next hphase =>
      cases h
      exact .lookupBearer hc hphase
    · cases h
  | lookupQuery j =>
    obtain ⟨c, hc, h⟩ := Option.bind_eq_some_iff.mp h
    split at h
    · next hphase =>
      cases h
      exact .lookupQuery hc hphase
    · cases h
  | tick ms =>
    cases h
    exact .tick ms

end Server

end Admin

end SentirumLb
