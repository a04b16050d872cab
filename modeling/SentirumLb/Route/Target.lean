import SentirumLb.Net.IpAddr
import SentirumLb.Route.Definition

/-! # Target backends

A target is one backend of a route: its definition, the parts of its URL that
are parsed once, and the shared objects it was given. Shared objects are heap
allocations, named by a reference, so that two targets share a counter exactly
when their references agree. URL and glob parsing belong to other crates and
are parameters.
-/

namespace SentirumLb

/-- Identity of a heap object that several owners share. -/
abbrev Ref := ℕ

structure Url where
  scheme : String
  hostStr : Option String
  port : Option UInt16
  portOrKnownDefault : Option UInt16

/-- What the code calls outside of this repository: `url::Url::parse`, `glob::Pattern::new` with
`Pattern::matches`, and the reordering that `select_nth_unstable_by_key` leaves open. -/
class Platform where
  urlParse : String → Option Url
  patternNew : String → Option (String → Bool)
  selectNth : ℕ → List (String × ℕ) → List (String × ℕ)

/-- The calls on plain inputs: URLs `scheme://host:port/..` and patterns without wildcards. -/
@[reducible] def Platform.plain : Platform where
  urlParse s :=
    match Text.split '/' s with
    | scheme :: "" :: authority :: _ =>
        let port := ((Text.after ':' authority).bind (Text.parseNat (2 ^ 16))).map Nat.toUInt16
        some
          { scheme := Text.before ':' scheme
            hostStr := some (Text.before ':' authority)
            port := port
            portOrKnownDefault := port }
    | _ => none
  patternNew p := some fun path => path == p
  selectNth _ l := l.insertionSort fun a b => a.2 ≤ b.2

inductive UpstreamProtocol where
  | http
  | https
  | grpc
  | grpcs
  | ws
  | wss
  | tcp
  deriving DecidableEq, Repr

namespace UpstreamProtocol

def fromSchemeOrProto (value : String) : Option UpstreamProtocol :=
  let v := Text.toAsciiLowercase value
  if v = "http" then some .http
  else if v = "https" then some .https
  else if v = "grpc" then some .grpc
  else if v = "grpcs" then some .grpcs
  else if v = "ws" then some .ws
  else if v = "wss" then some .wss
  else if v = "tcp" then some .tcp
  else none

def usesTls : UpstreamProtocol → Bool
  | .https | .grpcs | .wss => true
  | _ => false

def defaultPort : UpstreamProtocol → Option UInt16
  | .http | .ws => some 80
  | .https | .wss => some 443
  | .grpc => some 80
  | .grpcs => some 443
  | .tcp => none

end UpstreamProtocol

structure SharedRefs where
  activeConnections : Ref
  healthTracker : Ref
  stats : Ref
  edgeStats : Ref
  rateLimiter : Ref
  deriving DecidableEq, Inhabited

structure Target (W : Type) extends SharedRefs where
  service : String
  url : String
  /-- Fixed weight for traffic distribution (0 = dynamic). -/
  fixedWeight : W
  weight : W
  tags : List String
  opts : Opts
  source : RouteSource
  parsedHost : Option String
  parsedPort : Option UInt16
  parsedTls : Bool
  parsedProtocol : UpstreamProtocol

abbrev HeaderMap := String → Option String

variable {W : Type}

namespace Target

def rateLimitOverride (opts : Opts) : Option (ℕ × ℕ) := do
  let rate ← (opts.lookup "ratelimit").bind (Text.parseNat (2 ^ 64))
  let burst := ((opts.lookup "burst").bind (Text.parseNat (2 ^ 64))).getD rate
  pure (rate, burst)

def rateLimiterRegistryKey (url : String) (opts : Opts) : String :=
  match rateLimitOverride opts with
  | some (rate, burst) => url ++ "\x1foverride:" ++ toString rate ++ ":" ++ toString burst
  | none => url ++ "\x1fglobal"

/-- The URL part of `pre_parse`; it leaves the parsed fields alone when the URL does not parse. -/
def preParse [Platform] (t : Target W) : Target W :=
  match Platform.urlParse t.url with
  | some parsed =>
      let protocol :=
        (((t.opts.lookup "proto").bind UpstreamProtocol.fromSchemeOrProto) <|>
          UpstreamProtocol.fromSchemeOrProto parsed.scheme).getD .http
      { t with
        parsedHost := parsed.hostStr
        parsedProtocol := protocol
        parsedPort := parsed.port <|> protocol.defaultPort <|> parsed.portOrKnownDefault
        parsedTls := protocol.usesTls }
  | none => t

theorem map_preParse [Platform] {β : Type} (f : Target W → β)
    (hf : ∀ t host port tls protocol, f { t with
      parsedHost := host
      parsedPort := port
      parsedTls := tls
      parsedProtocol := protocol } = f t) (t : Target W) : f t.preParse = f t := by
  unfold preParse
  split
  · exact hf t _ _ _ _
  · rfl

def upstreamHost (t : Target W) : String :=
  (t.parsedHost.map (Text.trimMatches ['[', ']'])).getD "127.0.0.1"

def upstreamPort (t : Target W) : UInt16 :=
  (t.parsedPort <|> t.parsedProtocol.defaultPort).getD 80

def ssrfSkipVerify (t : Target W) : Bool := t.opts.lookup "ssrfskipverify" == some "true"

def sourceAllowsPrivateUpstreams (t : Target W) : Bool :=
  t.source == .consulKv || t.source == .consulService

/-- Whether the host of the URL may be proxied to, before any name is resolved. -/
def isHostSafe (t : Target W) : Bool :=
  match t.parsedHost.map (Text.trimMatches ['[', ']']) with
  | none => false
  | some host =>
      match IpAddr.parse host with
      | some ip =>
          if isIpAlwaysBlocked ip then false
          else if isIpRfc1918 ip then t.sourceAllowsPrivateUpstreams
          else true
      | none =>
          -- only ASCII letters lowercase to the letters of these names
          let lower := Text.toAsciiLowercase host
          !(lower == "localhost" || Text.endsWith lower ".localhost" ||
            Text.endsWith lower ".local")

def headerMatches (t : Target W) : List (String × String) :=
  match t.opts.lookup "header" with
  | some v => (Text.split ',' v).filterMap fun pair => Text.splitOnce ':' (Text.trim pair)
  | none => []

def matchesHeaders (t : Target W) (headers : HeaderMap) : Bool :=
  t.headerMatches.all fun c => headers c.1 == some c.2

theorem matchesHeaders_of_no_option {t : Target W} (h : t.opts.lookup "header" = none)
    (headers : HeaderMap) : t.matchesHeaders headers = true := by
  simp [matchesHeaders, headerMatches, h]

end Target

end SentirumLb
