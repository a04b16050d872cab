import SentirumLb.Lib.AssocMap
import SentirumLb.Lib.Text

/-! # Admin authentication

The pieces of the login handler, of the authentication middleware and of the
session sweeps, each as a function of the maps it works on and of the time it
reads. Times are milliseconds of a monotonic clock, and durations are compared
in whole seconds.
-/

namespace SentirumLb

namespace Admin

def sessionTtlSecs : ℕ := 24 * 60 * 60

def sessionMaxCapacity : ℕ := 10000

def loginMaxAttempts : ℕ := 5

def loginWindowSecs : ℕ := 60

/-- `now.duration_since(earlier).as_secs()`, which is zero when `earlier` is later. -/
def secsSince (nowMs earlierMs : ℕ) : ℕ := (nowMs - earlierMs) / 1000

/-! ## Credentials -/

class Bcrypt where
  /-- `verify(password, hash)`, with `false` for an error. -/
  verify : String → String → Bool

@[reducible] def noBcrypt : Bcrypt := ⟨fun _ _ => false⟩

structure AdminUser where
  username : String
  password : String

structure ServerConfig where
  adminToken : String
  adminUsers : List AdminUser

def exampleConfig : ServerConfig := ⟨"", [⟨"admin", "correct horse"⟩]⟩

structure LoginRequest where
  username : String
  password : String

structure LoginResponse where
  success : Bool
  message : String
  user : Option String
  token : Option String

/-- Constant-time comparison. The lengths are compared in their last eight bits. -/
def constantTimeEq (a b : String) : Bool :=
  let aBytes := Text.bytes a
  let bBytes := Text.bytes b
  let diff := (aBytes.length ^^^ bBytes.length).toUInt8
  (List.range (max aBytes.length bBytes.length)).foldl
    (fun diff i => diff ||| (aBytes.getD i 0 ^^^ bBytes.getD i 0)) diff == 0

section Credentials

variable [Bcrypt]

def verifyPassword (password hash : String) : Bool :=
  if Text.startsWith hash "$2" then Bcrypt.verify password hash else constantTimeEq password hash

def authenticate (config : ServerConfig) (req : LoginRequest) : Option String :=
  let valid := config.adminUsers.any fun u =>
    u.username == req.username && verifyPassword req.password u.password
  let legacyValid := config.adminToken != "" && constantTimeEq req.password config.adminToken
  if valid then
    some (((config.adminUsers.find? fun u => u.username == req.username).map
      (·.username)).getD req.username)
  else if legacyValid then some "admin"
  else none

end Credentials

def LoginRequest.tooLong (req : LoginRequest) : Bool :=
  decide (256 < req.username.utf8ByteSize) || decide (256 < req.password.utf8ByteSize)

def invalidCredentials : LoginResponse := ⟨false, "Invalid credentials", none, none⟩

def tooManyAttempts : LoginResponse := ⟨false, "Too many login attempts", none, none⟩

def loginSuccessful (user token : String) : LoginResponse :=
  ⟨true, "Login successful", some user, some token⟩

/-! ## The rate limit -/

/-- Failures in the current window, and its start. -/
structure Attempts where
  count : ℕ
  windowStartMs : ℕ
  deriving DecidableEq, Repr

abbrev LoginAttempts := AssocMap String Attempts

def Attempts.expired (nowMs : ℕ) (a : Attempts) : Bool :=
  decide (loginWindowSecs ≤ secsSince nowMs a.windowStartMs)

/-- The entry as the check leaves it: an expired window starts anew. -/
def Attempts.refresh (nowMs : ℕ) (a : Attempts) : Attempts :=
  if a.expired nowMs then ⟨0, nowMs⟩ else a

/-- Whether the check turns the call down, and the map after it. -/
def checkAttempts (nowMs : ℕ) (username : String) (m : LoginAttempts) : Bool × LoginAttempts :=
  ((m.lookup username).any fun a => decide (loginMaxAttempts ≤ (a.refresh nowMs).count),
    m.modifyOrInsert username (·.refresh nowMs) ⟨0, nowMs⟩)

def retainAttempts (nowMs : ℕ) (m : LoginAttempts) : LoginAttempts :=
  m.retain fun _ a => !a.expired nowMs

def Attempts.countFailure (nowMs : ℕ) (a : Attempts) : Attempts :=
  if a.expired nowMs then ⟨1, nowMs⟩ else { a with count := (a.count + 1) % 2 ^ 32 }

def countFailure (nowMs : ℕ) (username : String) (m : LoginAttempts) : LoginAttempts :=
  m.modifyOrInsert username (·.countFailure nowMs) ⟨1, nowMs⟩

/-! ## Sessions -/

structure SessionEntry where
  user : String
  createdAtMs : ℕ
  deriving DecidableEq, Repr

abbrev Sessions := AssocMap String SessionEntry

def SessionEntry.expired (nowMs : ℕ) (e : SessionEntry) : Bool :=
  decide (sessionTtlSecs ≤ secsSince nowMs e.createdAtMs)

def retainSessions (nowMs : ℕ) (sessions : Sessions) : Sessions :=
  sessions.retain fun _ e => !e.expired nowMs

/-- Evict sessions that have exceeded their lifetime, and the oldest ones above the capacity. -/
def evictExpiredSessions (nowMs : ℕ) (sessions : Sessions) : Sessions :=
  let kept := retainSessions nowMs sessions
  if sessionMaxCapacity < kept.entries.length then
    let entries := (kept.entries.map fun e => (e.1, e.2.createdAtMs)).insertionSort
      fun a b => a.2 ≤ b.2
    let toRemove := kept.entries.length - sessionMaxCapacity
    (entries.take toRemove).foldl (fun m e => m.erase e.1) kept
  else kept

/-! ## The middleware -/

def hexVal (b : UInt8) : UInt8 :=
  if 0x30 ≤ b && b ≤ 0x39 then b - 0x30
  else if 0x61 ≤ b && b ≤ 0x66 then b - 0x61 + 10
  else if 0x41 ≤ b && b ≤ 0x46 then b - 0x41 + 10
  else 0

/-- The bytes of a percent-encoded value; digits that are missing at its end are zeros. -/
def percentDecode : List UInt8 → List UInt8
  | [] => []
  | b :: bs =>
      if b = 0x25 then
        match bs with
        | [] => [hexVal 0x30 <<< 4 ||| hexVal 0x30]
        | [hi] => [hexVal hi <<< 4 ||| hexVal 0x30]
        | hi :: lo :: rest => (hexVal hi <<< 4 ||| hexVal lo) :: percentDecode rest
      else if b = 0x2B then 0x20 :: percentDecode bs
      else b :: percentDecode bs

/-- What the middleware reads of a request: the values of two headers where they are readable, and
the query of its URI. -/
structure AdminRequest where
  authorization : Option String
  xAdminToken : Option String
  isGet : Bool
  query : Option String

namespace AdminRequest

def bearer (r : AdminRequest) : Option String :=
  r.authorization.bind (Text.stripPrefix · "Bearer ")

/-- The value of the first `token` parameter, which is read of GET requests only. -/
def queryToken (r : AdminRequest) : Option String :=
  if r.isGet then do
    let query ← r.query
    let pairs := (Text.split '&' query).filterMap (Text.splitOnce '=')
    let (_, value) ← pairs.find? fun p => p.1 == "token"
    return Text.fromUtf8Lossy (percentDecode (Text.bytes value))
  else none

def tokenAuth (expected : String) (r : AdminRequest) : Bool :=
  expected != "" &&
    (r.bearer.any (constantTimeEq · expected) || r.xAdminToken.any (constantTimeEq · expected))

end AdminRequest

end Admin

end SentirumLb
