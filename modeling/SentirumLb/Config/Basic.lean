import SentirumLb.Admin.Auth
import SentirumLb.Consul.Checks

/-! # The configuration and its readers

Durations, keepalive specifications and timeouts are kept as the texts of the
configuration file. Their readers fall back silently: a duration that is not
recognised is zero or absent, and a malformed keepalive is disabled.
-/

namespace SentirumLb

/-- A span of time in milliseconds. -/
structure Duration where
  millis : ℕ
  deriving DecidableEq, Repr

namespace Duration

def zero : Duration := ⟨0⟩
def fromMillis (n : ℕ) : Duration := ⟨n⟩
def fromSecs (n : ℕ) : Duration := ⟨n * 1000⟩
def isZero (d : Duration) : Bool := d.millis == 0

end Duration

/-! ## The sections -/

structure ServerConfig extends Admin.ServerConfig where
  listen : String
  adminListen : String := "127.0.0.1:9998"
  adminToken := ""
  adminUsers := []
  /-- Number of worker threads (0 = auto). -/
  workers : ℕ := 0
  drainTimeout : String := "30s"

structure ConsulConfig extends Consul.ConsulConfig where
  address : String := "127.0.0.1:8500"
  scheme : String := "http"
  token : String := ""
  kvPrefix : String := "/sentirum-lb/routes"
  /-- Health poll interval. "0s" = use blocking queries. -/
  pollInterval : String := "0s"
  serviceDiscovery : Bool := true
  kvWatching : Bool := true
  gracefulShutdown : Bool := true

structure ProxyConfig where
  strategy : String := "round-robin"
  matcher : String := "prefix"
  requestIdHeader : String := "X-Request-ID"
  noRouteStatus : UInt16 := 404
  connectTimeout : String := "5s"
  readTimeout : String := "30s"
  writeTimeout : String := "30s"
  idleTimeout : String := "120s"
  enableH2c : Bool := false
  upstreamH2MaxStreams : ℕ := 128
  upstreamH2PingInterval : String := ""
  poolSize : ℕ := 128
  /-- DNS cache TTL in seconds (0 = disabled). -/
  dnsCacheTtl : ℕ := 30
  dnsNegativeCacheTtl : ℕ := 10
  maxConnections : ℕ := 10000
  trustedProxies : List String := []
  circuitBreakerEnabled : Bool := true
  circuitBreakerErrorThreshold : UInt8 := 50
  circuitBreakerWindowSize : ℕ := 100
  circuitBreakerRecoveryTimeout : ℕ := 30
  circuitBreakerHalfOpenMax : ℕ := 3
  healthCheckInterval : String := "15s"
  healthCheckTimeout : String := "5s"
  healthCheckFall : ℕ := 3
  healthCheckRise : ℕ := 2
  rateLimitPerTarget : ℕ := 0
  rateLimitBurst : ℕ := 100
  healthCheckPath : String := "/"
  healthCheckTlsSkipVerify : Bool := false
  /-- `"idle,interval,count"`; empty disables. -/
  upstreamTcpKeepalive : String := "15s,5s,3"
  upstreamUserTimeout : String := "30s"
  downstreamTcpKeepalive : String := "15s,5s,3"
  /-- Read timeout of streaming responses; empty falls back to `readTimeout`. -/
  streamReadTimeout : String := "3600s"
  deriving DecidableEq

structure LoggingConfig where
  level : String := "info"
  format : String := "json"
  deriving DecidableEq

structure TcpConfig where
  mode : String := ""
  listen : String := ""
  refresh : String := "5s"

structure TlsConfig where
  /-- `file` or `consul_kv`. -/
  source : String := ""
  certPath : String := ""
  keyPath : String := ""
  listen : String := ""
  consulCertPrefix : String := "/fabio/cert"
  strictSni : Bool := false
  requireInitialSnapshot : Bool := false
  clientAuth : String := ""
  clientCaSource : String := ""
  clientCaPath : String := ""
  clientCaConsulPrefix : String := ""
  clientCaUpgradeCn : String := ""
  ocspStaplingEnabled : Bool := false
  http2 : Bool := true

structure Config where
  server : ServerConfig
  consul : ConsulConfig
  proxy : ProxyConfig := {}
  logging : LoggingConfig := {}
  tls : TlsConfig := {}
  /-- Additional TLS listeners; `tls` is listener 0. -/
  tlsListeners : List TlsConfig := []
  tcp : TcpConfig := {}

/-! ## Durations -/

namespace Config

/-- A number with a unit. All copies of the unit are cut off the end. -/
def parseOptionalDuration (s : String) : Option Duration :=
  let s := Text.trim s
  let number (unit : String) := Text.parseNat (2 ^ 64) (Text.trimEndMatches s unit)
  -- `checked_mul` in a `u64`
  let scaled (unit : String) (factor : ℕ) :=
    ((number unit).map (· * factor)).filter (· < 2 ^ 64)
  if s = "" then none
  else if Text.endsWith s "ms" then (number "ms").map .fromMillis
  else if Text.endsWith s "s" then (number "s").map .fromSecs
  else if Text.endsWith s "m" then (scaled "m" 60).map .fromSecs
  else if Text.endsWith s "h" then (scaled "h" 3600).map .fromSecs
  else none

def parseDuration (s : String) : Duration := (parseOptionalDuration (Text.trim s)).getD .zero

@[simp] theorem parseOptionalDuration_trim (s : String) :
    parseOptionalDuration (Text.trim s) = parseOptionalDuration s := by
  simp only [parseOptionalDuration, Text.trim_trim]

theorem parseDuration_eq_of_some {s : String} {d : Duration}
    (h : parseOptionalDuration s = some d) : parseDuration s = d := by
  rw [parseDuration, parseOptionalDuration_trim, h, Option.getD_some]

theorem parseOptionalDuration_of_blank {s : String} (h : Text.trim s = "") :
    parseOptionalDuration s = none := by
  simp [parseOptionalDuration, h]

end Config

/-! ## Keepalive -/

structure ParsedKeepalive where
  idle : Duration
  interval : Duration
  count : ℕ
  /-- Zero means the system default. -/
  userTimeout : Duration
  deriving DecidableEq

def keepaliveParts (spec : String) : List String := (Text.split ',' spec).map Text.trim

def ParsedKeepalive.parse (spec userTimeout : String) : Option ParsedKeepalive :=
  let spec := Text.trim spec
  if spec = "" then none
  else match keepaliveParts spec with
    | [a, b, c] =>
        match Config.parseOptionalDuration a, Config.parseOptionalDuration b,
          Text.parseNat (2 ^ 64) c with
        | some idle, some interval, some count =>
            if 0 < count then
              some ⟨idle, interval, count, (Config.parseOptionalDuration userTimeout).getD .zero⟩
            else none
        | _, _, _ => none
    | _ => none

theorem ParsedKeepalive.parse_eq_some_iff {spec userTimeout : String} {k : ParsedKeepalive} :
    parse spec userTimeout = some k ↔ Text.trim spec ≠ "" ∧
      (∃ a b c, keepaliveParts (Text.trim spec) = [a, b, c] ∧
        Config.parseOptionalDuration a = some k.idle ∧
        Config.parseOptionalDuration b = some k.interval ∧
        Text.parseNat (2 ^ 64) c = some k.count) ∧ 0 < k.count ∧
      k.userTimeout = (Config.parseOptionalDuration userTimeout).getD .zero := by
  unfold parse
  dsimp only
  constructor
  · intro h
    split at h
    · cases h
    · next hspec =>
      split at h
      · next a b c hparts =>
        split at h
        · next idle interval count ha hb hc =>
          rw [Option.ite_none_right_eq_some, Option.some.injEq] at h
          obtain ⟨hcount, rfl⟩ := h
          exact ⟨hspec, ⟨a, b, c, hparts, ha, hb, hc⟩, hcount, rfl⟩
        · cases h
      · cases h
  · rintro ⟨hspec, ⟨a, b, c, hparts, ha, hb, hc⟩, hcount, huser⟩
    rw [if_neg hspec, hparts]
    simp only [ha, hb, hc, hcount, ← huser, if_true]

/-! ## Where the texts are read -/

structure ParsedProxyTimeouts where
  connect : Duration
  read : Duration
  write : Duration
  idle : Duration
  h2PingInterval : Option Duration
  /-- Read timeout of streaming responses; `none` means `read`. -/
  streamRead : Option Duration
  upstreamKeepalive : Option ParsedKeepalive
  downstreamKeepalive : Option ParsedKeepalive

def ParsedProxyTimeouts.fromProxyConfig (cfg : ProxyConfig) : ParsedProxyTimeouts where
  connect := Config.parseDuration cfg.connectTimeout
  read := Config.parseDuration cfg.readTimeout
  write := Config.parseDuration cfg.writeTimeout
  idle := Config.parseDuration cfg.idleTimeout
  h2PingInterval := Config.parseOptionalDuration cfg.upstreamH2PingInterval
  streamRead := Config.parseOptionalDuration cfg.streamReadTimeout
  upstreamKeepalive := ParsedKeepalive.parse cfg.upstreamTcpKeepalive cfg.upstreamUserTimeout
  downstreamKeepalive := ParsedKeepalive.parse cfg.downstreamTcpKeepalive ""

structure HealthCheckConfig where
  interval : Duration
  timeout : Duration
  fall : ℕ
  rise : ℕ
  path : String
  tlsSkipVerify : Bool

def HealthCheckConfig.fromProxyConfig (config : ProxyConfig) : HealthCheckConfig where
  interval := Config.parseDuration config.healthCheckInterval
  timeout := Config.parseDuration config.healthCheckTimeout
  fall := config.healthCheckFall
  rise := config.healthCheckRise
  path := config.healthCheckPath
  tlsSkipVerify := config.healthCheckTlsSkipVerify

def normalizeQueryWait (value : String) : String :=
  match Config.parseOptionalDuration value with
  | some duration => if !duration.isZero then Text.trim value else "5m"
  | none => "5m"

inductive TcpMode where
  | disabled
  | tcp (listen : String)
  | tcpSni (listen : String)
  | httpsTcpSni
  | tcpDynamic (refresh : Duration)
  deriving DecidableEq

def resolveTcpMode (config : Config) : Except String TcpMode :=
  let mode := Text.toAsciiLowercase (Text.trim config.tcp.mode)
  let listen := Text.trim config.tcp.listen
  if mode = "" ∨ mode = "disabled" then .ok .disabled
  else if mode = "tcp" then
    if listen = "" then .error "tcp.listen cannot be empty when tcp.mode=tcp" else .ok (.tcp listen)
  else if mode = "tcp+sni" then
    if listen = "" then .error "tcp.listen cannot be empty when tcp.mode=tcp+sni"
    else .ok (.tcpSni listen)
  else if mode = "tcp-dynamic" then
    .ok (.tcpDynamic ((Config.parseOptionalDuration config.tcp.refresh).getD (.fromSecs 5)))
  else if mode = "https+tcp+sni" then .ok .httpsTcpSni
  else
    .error (s!"unknown tcp.mode '{mode}', expected 'tcp', 'tcp+sni', 'https+tcp+sni', " ++
      "or 'tcp-dynamic'")

example : Config.parseOptionalDuration " 150ms" = some ⟨150⟩ := by decide +kernel
example : Config.parseOptionalDuration "2h" = some ⟨7200000⟩ := by decide +kernel
example : ParsedKeepalive.parse "15s, 5s ,3" "30s" = some ⟨⟨15000⟩, ⟨5000⟩, 3, ⟨30000⟩⟩ := by
  decide +kernel

end SentirumLb
