import SentirumLb.Config.Basic
import SentirumLb.Net.Cidr

/-! # Validation of the configuration

Every check gives the texts of what it found wrong, and a configuration is
accepted when no check found anything. The validators of durations, keepalive
specifications and address ranges are written apart from the readers of the
same texts; what is accepted is never misread.
-/

namespace SentirumLb

class HeaderNames where
  isValid : String → Bool

/-! ## Single fields -/

def validateDurationField (name value : String) (allowZero : Bool) : List String :=
  let trimmed := Text.trim value
  if trimmed = "" then [s!"{name} must not be empty"]
  else match Config.parseOptionalDuration trimmed with
    | some duration =>
        if allowZero || !duration.isZero then [] else [s!"{name} must be > 0, got {trimmed}"]
    | none => [s!"{name} has invalid duration '{trimmed}' (expected e.g. 150ms, 5s, 2m)"]

def validateOptionalDurationField (name value : String) : List String :=
  if Text.trim value = "" then [] else validateDurationField name value true

def isPositiveDuration (s : String) : Bool :=
  (Config.parseOptionalDuration s).any (!·.isZero)

def isPositiveCount (s : String) : Bool := (Text.parseNat (2 ^ 64) s).any (0 < ·)

def validateKeepaliveField (name value : String) : List String :=
  let trimmed := Text.trim value
  if trimmed = "" then []
  else match keepaliveParts trimmed with
    | [a, b, c] =>
        (if isPositiveDuration a then []
          else [s!"{name} idle must be a positive duration, got '{a}'"]) ++
        (if isPositiveDuration b then []
          else [s!"{name} interval must be a positive duration, got '{b}'"]) ++
        (if isPositiveCount c then []
          else [s!"{name} count must be a positive integer, got '{c}'"])
    | _ =>
        [s!"{name} must be 'idle,interval,count' (e.g. '15s,5s,3') or empty, got '{trimmed}'"]

def validateCidr (cidr : String) : Except String Unit :=
  let cidr := Text.trim cidr
  if cidr = "" then .error "empty CIDR"
  else match Text.splitOnce '/' cidr with
    | none => .error s!"CIDR '{cidr}' missing '/' separator"
    | some (ip, prefixStr) =>
        match IpAddr.parse ip with
        | none => .error s!"invalid IP '{ip}': invalid IP address syntax"
        | some _ =>
            match Text.parseNat 256 prefixStr with
            | none => .error s!"prefix '{prefixStr}' not a number"
            | some prefixLen =>
                let ipIsV4 := ip.toList.contains '.' && !ip.toList.contains ':'
                let maxPrefix := if ipIsV4 then 32 else 128
                let family := if ipIsV4 then "IPv4" else "IPv6"
                if maxPrefix < prefixLen then
                  .error s!"prefix {prefixLen} > {maxPrefix} for {family}"
                else .ok ()

/-! ## The whole configuration -/

def require (condition : Bool) (message : String) : List String :=
  if condition then [] else [message]

namespace ProxyConfig

def durationErrors (p : ProxyConfig) : List String :=
  validateDurationField "proxy.connect_timeout" p.connectTimeout true ++
  validateDurationField "proxy.read_timeout" p.readTimeout true ++
  validateDurationField "proxy.write_timeout" p.writeTimeout true ++
  validateDurationField "proxy.idle_timeout" p.idleTimeout true ++
  validateOptionalDurationField "proxy.upstream_h2_ping_interval" p.upstreamH2PingInterval ++
  validateDurationField "proxy.health_check_interval" p.healthCheckInterval true ++
  validateDurationField "proxy.health_check_timeout" p.healthCheckTimeout true

def streamErrors (p : ProxyConfig) : List String :=
  validateOptionalDurationField "proxy.stream_read_timeout" p.streamReadTimeout ++
  validateOptionalDurationField "proxy.upstream_user_timeout" p.upstreamUserTimeout ++
  validateKeepaliveField "proxy.upstream_tcp_keepalive" p.upstreamTcpKeepalive ++
  validateKeepaliveField "proxy.downstream_tcp_keepalive" p.downstreamTcpKeepalive

def routingErrors [HeaderNames] (p : ProxyConfig) : List String :=
  require (["", "prefix", "iprefix", "glob", "exact"].contains p.matcher)
    s!"proxy.matcher must be one of prefix|iprefix|glob|exact, got '{p.matcher}'" ++
  require (["", "round-robin", "rr", "random", "rnd", "least-connections", "lc"].contains
      p.strategy)
    s!"proxy.strategy must be one of round-robin|random|least-connections, got '{p.strategy}'" ++
  require (p.healthCheckRise != 0) "proxy.health_check_rise must be >= 1" ++
  require (p.healthCheckFall != 0) "proxy.health_check_fall must be >= 1" ++
  require (100 ≤ p.noRouteStatus && p.noRouteStatus ≤ 599)
    s!"proxy.no_route_status must be a valid HTTP status (100-599), got {p.noRouteStatus}" ++
  require (p.requestIdHeader == "" || HeaderNames.isValid p.requestIdHeader)
    s!"proxy.request_id_header is not a valid HTTP header name: '{p.requestIdHeader}'"

def limitErrors (p : ProxyConfig) : List String :=
  require (p.circuitBreakerErrorThreshold ≤ 100)
    s!"circuit_breaker_error_threshold must be 0-100, got {p.circuitBreakerErrorThreshold}" ++
  require (p.circuitBreakerWindowSize != 0) "circuit_breaker_window_size must be > 0" ++
  require (p.circuitBreakerRecoveryTimeout != 0) "circuit_breaker_recovery_timeout must be > 0" ++
  require (p.circuitBreakerHalfOpenMax != 0) "circuit_breaker_half_open_max must be > 0" ++
  require (p.dnsCacheTtl ≤ 3600)
    s!"dns_cache_ttl should be <= 3600 (1 hour), got {p.dnsCacheTtl} seconds" ++
  require (p.dnsNegativeCacheTtl ≤ 300)
    s!"dns_negative_cache_ttl should be <= 300 (5 min), got {p.dnsNegativeCacheTtl} seconds"

def cidrErrors (p : ProxyConfig) : List String :=
  p.trustedProxies.flatMap fun cidr =>
    match validateCidr cidr with
    | .ok () => []
    | .error e => [s!"Invalid CIDR '{cidr}': {e}"]

def healthPathErrors (p : ProxyConfig) : List String :=
  require (Text.startsWith p.healthCheckPath "/")
    s!"health_check_path must start with '/', got '{p.healthCheckPath}'" ++
  require (!(p.healthCheckPath.toList.tails.any ['.', '.'].isPrefixOf))
    (s!"health_check_path must not contain '..' (path traversal), " ++
      s!"got '{p.healthCheckPath}'")

end ProxyConfig

def TlsConfig.fileErrors (t : TlsConfig) (certMessage keyMessage : String) : List String :=
  if t.source = "file" then
    require (t.certPath != "") certMessage ++ require (t.keyPath != "") keyMessage
  else []

def TlsConfig.prefixError (t : TlsConfig) (tag : String) : List String :=
  require (t.consulCertPrefix == "" || Text.startsWith t.consulCertPrefix "/")
    s!"{tag}.consul_cert_prefix must start with '/'"

def TlsConfig.clientAuthError (t : TlsConfig) (tag : String) : List String :=
  require (t.clientAuth == "" || t.clientAuth == "optional" || t.clientAuth == "required")
    s!"{tag}.client_auth must be 'optional', 'required', or empty"

def TlsConfig.errors (t : TlsConfig) : List String :=
  t.fileErrors "tls.cert_path required when tls.source='file'"
    "tls.key_path required when tls.source='file'" ++
  t.prefixError "tls" ++ t.clientAuthError "tls"

def Config.listenerErrors (c : Config) (i : ℕ) (listener : TlsConfig) : List String :=
  let tag := s!"tls_listeners[{i}]"
  require (Text.trim listener.listen != "")
    s!"{tag}.listen is required for additional TLS listeners" ++
  listener.fileErrors s!"{tag}.cert_path required when {tag}.source='file'"
    s!"{tag}.key_path required when {tag}.source='file'" ++
  listener.clientAuthError tag ++ listener.prefixError tag ++
  require (listener.listen != c.tls.listen)
    s!"{tag}.listen '{listener.listen}' conflicts with primary [tls].listen" ++
  (c.tlsListeners.take i).zipIdx.flatMap fun (earlier, j) =>
    require (listener.listen != earlier.listen)
      s!"{tag}.listen '{listener.listen}' conflicts with tls_listeners[{j}].listen"

namespace Config

variable [HeaderNames]

def errors (c : Config) : List String :=
  validateDurationField "server.drain_timeout" c.server.drainTimeout false ++
  validateDurationField "consul.poll_interval" c.consul.pollInterval true ++
  c.proxy.durationErrors ++
  -- the timer of the dynamic listeners refuses a zero interval
  validateDurationField "tcp.refresh" c.tcp.refresh false ++
  c.proxy.streamErrors ++ c.proxy.routingErrors ++ c.proxy.limitErrors ++ c.proxy.cidrErrors ++
  c.proxy.healthPathErrors ++ c.tls.errors ++
  c.tlsListeners.zipIdx.flatMap (fun (listener, i) => c.listenerErrors i listener) ++
  require (c.server.workers ≤ 256)
    s!"workers should be <= 256, got {c.server.workers} (consider 0 for auto)" ++
  require (c.proxy.upstreamH2MaxStreams ≤ 1000)
    s!"upstream_h2_max_streams should be <= 1000, got {c.proxy.upstreamH2MaxStreams}"

def validate (c : Config) : Option String :=
  if c.errors = [] then none else some ("; ".intercalate c.errors)

end Config

/-! ## What is accepted is read -/

theorem validateDurationField_eq_nil_iff {name value : String} {allowZero : Bool} :
    validateDurationField name value allowZero = [] ↔
      ∃ d, Config.parseOptionalDuration value = some d ∧ (allowZero || !d.isZero) = true := by
  unfold validateDurationField
  dsimp only
  rw [Config.parseOptionalDuration_trim]
  by_cases hblank : Text.trim value = ""
  · simp [hblank, Config.parseOptionalDuration_of_blank hblank]
  · rw [if_neg hblank]
    cases hparse : Config.parseOptionalDuration value with
    | none => simp
    | some d => cases allowZero <;> simp

theorem validateOptionalDurationField_eq_nil_iff {name value : String} :
    validateOptionalDurationField name value = [] ↔
      Text.trim value = "" ∨ ∃ d, Config.parseOptionalDuration value = some d := by
  unfold validateOptionalDurationField
  by_cases hblank : Text.trim value = ""
  · simp [hblank]
  · rw [if_neg hblank, validateDurationField_eq_nil_iff]
    simp [hblank]

theorem isPositiveDuration_iff {s : String} : isPositiveDuration s = true ↔
    ∃ d, Config.parseOptionalDuration s = some d ∧ 0 < d.millis := by
  rw [isPositiveDuration, Option.any_eq_true]
  simp [Duration.isZero, Nat.pos_iff_ne_zero]

theorem isPositiveCount_iff {s : String} : isPositiveCount s = true ↔
    ∃ n, Text.parseNat (2 ^ 64) s = some n ∧ 0 < n := by
  rw [isPositiveCount, Option.any_eq_true]
  simp

theorem validateKeepaliveField_eq_nil_iff {name spec : String} :
    validateKeepaliveField name spec = [] ↔ Text.trim spec = "" ∨
      ∃ a b c, keepaliveParts (Text.trim spec) = [a, b, c] ∧ isPositiveDuration a = true ∧
        isPositiveDuration b = true ∧ isPositiveCount c = true := by
  unfold validateKeepaliveField
  dsimp only
  by_cases hblank : Text.trim spec = ""
  · simp [hblank]
  · rw [if_neg hblank]
    split
    · next a b c hparts => simp [hparts, hblank, and_assoc]
    · next hparts =>
      simp only [List.cons_ne_nil, hblank, false_or, false_iff]
      rintro ⟨a, b, c, h, -⟩
      exact hparts a b c h

theorem exists_keepalive {name spec : String} (h : validateKeepaliveField name spec = [])
    (hspec : Text.trim spec ≠ "") (userTimeout : String) :
    ∃ k, ParsedKeepalive.parse spec userTimeout = some k ∧ 0 < k.idle.millis ∧
      0 < k.interval.millis ∧ 0 < k.count := by
  rcases validateKeepaliveField_eq_nil_iff.mp h with hblank | ⟨a, b, c, hparts, ha, hb, hc⟩
  · exact absurd hblank hspec
  · obtain ⟨idle, ha, hidle⟩ := isPositiveDuration_iff.mp ha
    obtain ⟨interval, hb, hinterval⟩ := isPositiveDuration_iff.mp hb
    obtain ⟨count, hc, hcount⟩ := isPositiveCount_iff.mp hc
    let k : ParsedKeepalive :=
      ⟨idle, interval, count, (Config.parseOptionalDuration userTimeout).getD .zero⟩
    refine ⟨k, ?_, hidle, hinterval, hcount⟩
    exact ParsedKeepalive.parse_eq_some_iff.mpr
      ⟨hspec, ⟨a, b, c, hparts, ha, hb, hc⟩, hcount, rfl⟩

theorem ipText_isV4 {ip : String} {a : Ipv4Addr} (h : IpAddr.parse ip = some (.v4 a)) :
    (ip.toList.contains '.' && !ip.toList.contains ':') = true := by
  obtain ⟨hdot, hcolon⟩ := IpAddr.dot_mem_of_parse_v4 h
  simp [hdot, hcolon]

/-- An accepted range is parsed. The validator tells the family by the text, the parser by the
address; the text of an IPv4 address always has a dot and no colon. -/
theorem isSome_parse_of_validateCidr {s : String} (h : validateCidr s = .ok ()) :
    (CidrRange.parse s).isSome = true := by
  unfold validateCidr at h
  dsimp only at h
  split at h
  · cases h
  · split at h
    · cases h
    · next ip prefixStr hsplit =>
      split at h
      · cases h
      · next network hip =>
        split at h
        · cases h
        · next prefixLen hbits =>
          rw [ite_eq_right_iff] at h
          have hle := Nat.le_of_not_lt fun hlt => nomatch h hlt
          have hfit : prefixLen ≤ network.maxPrefix := by
            cases network with
            | v4 a => rwa [if_pos (ipText_isV4 hip)] at hle
            | v6 a =>
              change prefixLen ≤ 128
              split at hle <;> omega
          obtain ⟨l, r, hs, hl, hr⟩ := Text.trim_spec s
          rw [(Text.splitOnce_eq_some_iff.mp hsplit).1] at hs
          rw [CidrRange.parse_eq_some hs hl hr hip hbits hfit]
          rfl

namespace Config

variable [HeaderNames] {c : Config}

theorem validate_eq_none_iff : c.validate = none ↔ c.errors = [] := by
  simp [validate]

/-- The duration texts that must be there, each with what its reader makes of it. -/
def durationReads (c : Config) : List (String × Duration) :=
  let timeouts := ParsedProxyTimeouts.fromProxyConfig c.proxy
  let health := HealthCheckConfig.fromProxyConfig c.proxy
  [(c.server.drainTimeout, parseDuration c.server.drainTimeout),
    (c.consul.pollInterval, parseDuration c.consul.pollInterval),
    (c.proxy.connectTimeout, timeouts.connect), (c.proxy.readTimeout, timeouts.read),
    (c.proxy.writeTimeout, timeouts.write), (c.proxy.idleTimeout, timeouts.idle),
    (c.proxy.healthCheckInterval, health.interval), (c.proxy.healthCheckTimeout, health.timeout),
    (c.tcp.refresh, parseDuration c.tcp.refresh),
    (normalizeQueryWait c.consul.pollInterval,
      parseDuration (normalizeQueryWait c.consul.pollInterval))]

/-- The duration texts that may be blank, each with what its reader makes of it. -/
def optionalDurationReads (c : Config) : List (String × Option Duration) :=
  let timeouts := ParsedProxyTimeouts.fromProxyConfig c.proxy
  [(c.proxy.upstreamH2PingInterval, timeouts.h2PingInterval),
    (c.proxy.streamReadTimeout, timeouts.streamRead),
    (c.proxy.upstreamUserTimeout, parseOptionalDuration c.proxy.upstreamUserTimeout)]

def keepaliveSpecs (c : Config) : List String :=
  [c.proxy.upstreamTcpKeepalive, c.proxy.downstreamTcpKeepalive]

omit [HeaderNames] in
theorem parse_normalizeQueryWait (value : String) :
    ∃ d, parseOptionalDuration (normalizeQueryWait value) = some d ∧ 0 < d.millis := by
  have hdefault : parseOptionalDuration "5m" = some ⟨300000⟩ := by decide +kernel
  unfold normalizeQueryWait
  split
  · next d hd =>
    split
    · next hpos =>
      rw [parseOptionalDuration_trim]
      exact ⟨d, hd, by simpa [Duration.isZero, Nat.pos_iff_ne_zero] using hpos⟩
    · exact ⟨_, hdefault, by decide⟩
  · exact ⟨_, hdefault, by decide⟩

/-- The checks that an accepted configuration passed. -/
theorem checks_of_validate (h : c.validate = none) :
    validateDurationField "server.drain_timeout" c.server.drainTimeout false = [] ∧
      validateDurationField "consul.poll_interval" c.consul.pollInterval true = [] ∧
      c.proxy.durationErrors = [] ∧
      validateDurationField "tcp.refresh" c.tcp.refresh false = [] ∧
      c.proxy.streamErrors = [] ∧ c.proxy.cidrErrors = [] ∧ c.proxy.limitErrors = [] := by
  rw [validate_eq_none_iff] at h
  simp only [errors, List.append_eq_nil_iff] at h
  obtain ⟨⟨⟨⟨⟨⟨h, hcidr⟩, -⟩, -⟩, -⟩, -⟩, -⟩ := h
  obtain ⟨⟨⟨⟨⟨⟨hdrain, hpoll⟩, hdurations⟩, hrefresh⟩, hstream⟩, -⟩, hlimit⟩ := h
  exact ⟨hdrain, hpoll, hdurations, hrefresh, hstream, hcidr, hlimit⟩

theorem durations_of_validate (h : c.validate = none) :
    ∀ r ∈ c.durationReads, parseOptionalDuration r.1 = some r.2 := by
  have hread : ∀ {name value : String} {allowZero : Bool},
      validateDurationField name value allowZero = [] →
      parseOptionalDuration value = some (parseDuration value) := by
    intro name value allowZero hv
    obtain ⟨d, hd, -⟩ := validateDurationField_eq_nil_iff.mp hv
    rw [hd, parseDuration_eq_of_some hd]
  obtain ⟨hdrain, hpoll, hdurations, hrefresh, -, -⟩ := checks_of_validate h
  simp only [ProxyConfig.durationErrors, List.append_eq_nil_iff] at hdurations
  obtain ⟨⟨⟨⟨⟨⟨hconnect, hread'⟩, hwrite⟩, hidle⟩, -⟩, hinterval⟩, htimeout⟩ := hdurations
  obtain ⟨wait, hwait, -⟩ := parse_normalizeQueryWait c.consul.pollInterval
  simp only [durationReads, ParsedProxyTimeouts.fromProxyConfig, HealthCheckConfig.fromProxyConfig,
    List.forall_mem_cons]
  refine ⟨hread hdrain, hread hpoll, hread hconnect, hread hread', hread hwrite, hread hidle,
    hread hinterval, hread htimeout, hread hrefresh, ?_, List.forall_mem_nil _⟩
  rw [hwait, parseDuration_eq_of_some hwait]

theorem optionalDurations_of_validate (h : c.validate = none) :
    ∀ r ∈ c.optionalDurationReads, Text.trim r.1 = "" ∧ r.2 = none ∨
      parseOptionalDuration r.1 = r.2 ∧ r.2.isSome = true := by
  have hread : ∀ {name value : String}, validateOptionalDurationField name value = [] →
      Text.trim value = "" ∧ parseOptionalDuration value = none ∨
        True ∧ (parseOptionalDuration value).isSome = true := by
    intro name value hv
    rcases validateOptionalDurationField_eq_nil_iff.mp hv with hblank | ⟨d, hd⟩
    · exact Or.inl ⟨hblank, parseOptionalDuration_of_blank hblank⟩
    · exact Or.inr ⟨trivial, by rw [hd, Option.isSome_some]⟩
  obtain ⟨-, -, hdurations, -, hstream, -⟩ := checks_of_validate h
  simp only [ProxyConfig.durationErrors, List.append_eq_nil_iff] at hdurations
  simp only [ProxyConfig.streamErrors, List.append_eq_nil_iff] at hstream
  obtain ⟨⟨⟨-, hping⟩, -⟩, -⟩ := hdurations
  obtain ⟨⟨⟨hstreamRead, huser⟩, -⟩, -⟩ := hstream
  simp only [optionalDurationReads, ParsedProxyTimeouts.fromProxyConfig, List.forall_mem_cons]
  exact ⟨hread hping, hread hstreamRead, hread huser, by simp⟩

theorem refresh_of_validate (h : c.validate = none) :
    ∃ d, parseOptionalDuration c.tcp.refresh = some d ∧ 0 < d.millis ∧
      ∀ refresh, resolveTcpMode c = .ok (.tcpDynamic refresh) → refresh = d := by
  obtain ⟨-, -, -, hrefresh, -, -⟩ := checks_of_validate h
  obtain ⟨d, hd, hpos⟩ := validateDurationField_eq_nil_iff.mp hrefresh
  refine ⟨d, hd, by simpa [Duration.isZero, Nat.pos_iff_ne_zero] using hpos, ?_⟩
  intro refresh hmode
  unfold resolveTcpMode at hmode
  dsimp only at hmode
  rw [hd, Option.getD_some] at hmode
  repeat' split at hmode
  all_goals cases hmode
  rfl

theorem keepalives_of_validate (h : c.validate = none) :
    ∀ spec ∈ c.keepaliveSpecs, ∀ userTimeout,
      ((ParsedKeepalive.parse spec userTimeout).isSome = true ↔ Text.trim spec ≠ "") ∧
        ∀ k, ParsedKeepalive.parse spec userTimeout = some k →
          0 < k.idle.millis ∧ 0 < k.interval.millis ∧ 0 < k.count := by
  have hread : ∀ {name spec : String}, validateKeepaliveField name spec = [] → ∀ userTimeout,
      ((ParsedKeepalive.parse spec userTimeout).isSome = true ↔ Text.trim spec ≠ "") ∧
        ∀ k, ParsedKeepalive.parse spec userTimeout = some k →
          0 < k.idle.millis ∧ 0 < k.interval.millis ∧ 0 < k.count := by
    intro name spec hv userTimeout
    by_cases hblank : Text.trim spec = ""
    · simp [ParsedKeepalive.parse, hblank]
    · obtain ⟨k, hk, hpos⟩ := exists_keepalive hv hblank userTimeout
      rw [hk]
      refine ⟨by simp [hblank], ?_⟩
      rintro _ ⟨⟩
      exact hpos
  obtain ⟨-, -, -, -, hstream, -⟩ := checks_of_validate h
  simp only [ProxyConfig.streamErrors, List.append_eq_nil_iff] at hstream
  obtain ⟨⟨-, hupstream⟩, hdownstream⟩ := hstream
  simp only [keepaliveSpecs, List.forall_mem_cons]
  exact ⟨hread hupstream, hread hdownstream, by simp⟩

theorem trustedProxies_of_validate (h : c.validate = none) :
    ∀ s ∈ c.proxy.trustedProxies, (CidrRange.parse s).isSome = true := by
  obtain ⟨-, -, -, -, -, hcidr, -⟩ := checks_of_validate h
  intro s hs
  rw [ProxyConfig.cidrErrors, List.flatMap_eq_nil_iff] at hcidr
  have hvalid := hcidr s hs
  split at hvalid
  · next u hu => exact isSome_parse_of_validateCidr hu
  · cases hvalid

theorem dnsTtls_of_validate (h : c.validate = none) :
    c.proxy.dnsCacheTtl ≤ 3600 ∧ c.proxy.dnsNegativeCacheTtl ≤ 300 := by
  obtain ⟨-, -, -, -, -, -, hlimit⟩ := checks_of_validate h
  simp only [ProxyConfig.limitErrors, List.append_eq_nil_iff] at hlimit
  obtain ⟨⟨-, httl⟩, hnegative⟩ := hlimit
  exact ⟨by simpa [require] using httl, by simpa [require] using hnegative⟩

theorem errorThreshold_of_validate (h : c.validate = none) :
    c.proxy.circuitBreakerErrorThreshold ≤ 100 := by
  obtain ⟨-, -, -, -, -, -, hlimit⟩ := checks_of_validate h
  simp only [ProxyConfig.limitErrors, List.append_eq_nil_iff] at hlimit
  simpa [require] using hlimit.1.1.1.1.1

omit [HeaderNames] in
theorem length_parseTrustedProxies {raw : List String}
    (h : ∀ s ∈ raw, (CidrRange.parse s).isSome = true) :
    (parseTrustedProxies raw).length = raw.length := by
  induction raw with
  | nil => rfl
  | cons s raw ih =>
    obtain ⟨c, hc⟩ := Option.isSome_iff_exists.mp (h s List.mem_cons_self)
    rw [parseTrustedProxies, List.filterMap_cons_some hc, List.length_cons, List.length_cons,
      ← parseTrustedProxies, ih fun t ht => h t (List.mem_cons_of_mem _ ht)]

/-- A configuration that is accepted is read as it was written: no duration falls back, no keepalive
is dropped but a blank one, and no trusted proxy is lost. -/
theorem reads_of_validate (c : Config) (h : c.validate = none) :
    (∀ r ∈ c.durationReads, parseOptionalDuration r.1 = some r.2) ∧
      (∀ r ∈ c.optionalDurationReads, Text.trim r.1 = "" ∧ r.2 = none ∨
        parseOptionalDuration r.1 = r.2 ∧ r.2.isSome = true) ∧
      (∃ d, parseOptionalDuration c.tcp.refresh = some d ∧ 0 < d.millis ∧
        ∀ refresh, resolveTcpMode c = .ok (.tcpDynamic refresh) → refresh = d) ∧
      (∀ spec ∈ c.keepaliveSpecs, ∀ userTimeout,
        ((ParsedKeepalive.parse spec userTimeout).isSome = true ↔ Text.trim spec ≠ "") ∧
          ∀ k, ParsedKeepalive.parse spec userTimeout = some k →
            0 < k.idle.millis ∧ 0 < k.interval.millis ∧ 0 < k.count) ∧
      (∀ s ∈ c.proxy.trustedProxies, (CidrRange.parse s).isSome = true) ∧
      (parseTrustedProxies c.proxy.trustedProxies).length = c.proxy.trustedProxies.length := by
  have htrusted := trustedProxies_of_validate h
  exact ⟨durations_of_validate h, optionalDurations_of_validate h, refresh_of_validate h,
    keepalives_of_validate h, htrusted, length_parseTrustedProxies htrusted⟩

end Config

abbrev tokenNames : HeaderNames where
  isValid s := s != "" && s.toList.all fun c =>
    c.isAlphanum || ("!#$%&'*+-.^_`|~".toList.contains c)

def sampleConfig : Config where
  server := { listen := ":9999" }
  consul := {}
  proxy := { trustedProxies := [" 10.0.0.0/8 ", "2400:cb00::/32"] }

section

attribute [local instance] tokenNames

theorem reads_of_validate_sampleConfig : sampleConfig.validate = none ∧
    (parseTrustedProxies sampleConfig.proxy.trustedProxies).length = 2 := by
  have hvalid : sampleConfig.validate = none := by decide +kernel
  obtain ⟨-, -, -, -, -, hlength⟩ := Config.reads_of_validate sampleConfig hvalid
  exact ⟨hvalid, hlength⟩

end

end SentirumLb
