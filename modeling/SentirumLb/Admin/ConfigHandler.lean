import SentirumLb.Config.Validation
import SentirumLb.Lib.Serialized
import SentirumLb.Route.DnsCache
import SentirumLb.Route.Registry

/-! # Hot reload of the configuration

An update names some fields of the proxy section; a reset puts the startup
configuration back. Both take the same lock, validate, and then change four
things one after the other: the lifetimes of the DNS cache, the stored
configuration, the parsed trusted ranges and the settings of the breakers. The
last two are changed only when the handler finds that they need to be.
-/

namespace SentirumLb

/-! ## Requests -/

structure ProxyConfigUpdate where
  strategy : Option String := none
  matcher : Option String := none
  requestIdHeader : Option String := none
  noRouteStatus : Option UInt16 := none
  connectTimeout : Option String := none
  readTimeout : Option String := none
  writeTimeout : Option String := none
  idleTimeout : Option String := none
  streamReadTimeout : Option String := none
  upstreamTcpKeepalive : Option String := none
  upstreamUserTimeout : Option String := none
  downstreamTcpKeepalive : Option String := none
  enableH2c : Option Bool := none
  upstreamH2MaxStreams : Option ℕ := none
  upstreamH2PingInterval : Option String := none
  poolSize : Option ℕ := none
  maxConnections : Option ℕ := none
  dnsCacheTtl : Option ℕ := none
  dnsNegativeCacheTtl : Option ℕ := none
  trustedProxies : Option (List String) := none
  circuitBreakerEnabled : Option Bool := none
  circuitBreakerErrorThreshold : Option UInt8 := none
  circuitBreakerWindowSize : Option ℕ := none
  circuitBreakerRecoveryTimeout : Option ℕ := none
  circuitBreakerHalfOpenMax : Option ℕ := none
  healthCheckInterval : Option String := none
  healthCheckTimeout : Option String := none
  healthCheckFall : Option ℕ := none
  healthCheckRise : Option ℕ := none
  rateLimitPerTarget : Option ℕ := none
  rateLimitBurst : Option ℕ := none
  healthCheckPath : Option String := none
  healthCheckTlsSkipVerify : Option Bool := none

structure LoggingConfigUpdate where
  level : Option String := none
  format : Option String := none

/-- A partial update: only the fields that are given are applied. -/
structure ConfigUpdateRequest where
  proxy : Option ProxyConfigUpdate := none
  logging : Option LoggingConfigUpdate := none

/-- The fields that are fixed at startup. They must not be given. -/
def unsupportedRuntimeUpdates (update : ConfigUpdateRequest) : List String :=
  let given (name : String) (isGiven : Bool) := if isGiven then [name] else []
  (match update.proxy with
    | none => []
    | some proxy =>
        given "proxy.enable_h2c" proxy.enableH2c.isSome ++
        given "proxy.pool_size" proxy.poolSize.isSome ++
        given "proxy.downstream_tcp_keepalive" proxy.downstreamTcpKeepalive.isSome) ++
  (match update.logging with
    | none => []
    | some logging =>
        given "logging.level" logging.level.isSome ++ given "logging.format" logging.format.isSome)

def circuitBreakerConfigFromProxy (proxy : ProxyConfig) : Option CircuitBreakerConfig :=
  if proxy.circuitBreakerEnabled then
    some {
      errorThreshold := proxy.circuitBreakerErrorThreshold
      windowSize := proxy.circuitBreakerWindowSize
      recoveryTimeoutSecs := proxy.circuitBreakerRecoveryTimeout
      halfOpenMaxRequests := proxy.circuitBreakerHalfOpenMax }
  else none

/-- The proxy section with the given fields. The fields fixed at startup are never copied. -/
def ProxyConfigUpdate.apply (u : ProxyConfigUpdate) (p : ProxyConfig) : ProxyConfig :=
  { p with
    strategy := u.strategy.getD p.strategy
    matcher := u.matcher.getD p.matcher
    requestIdHeader := u.requestIdHeader.getD p.requestIdHeader
    noRouteStatus := u.noRouteStatus.getD p.noRouteStatus
    connectTimeout := u.connectTimeout.getD p.connectTimeout
    readTimeout := u.readTimeout.getD p.readTimeout
    writeTimeout := u.writeTimeout.getD p.writeTimeout
    idleTimeout := u.idleTimeout.getD p.idleTimeout
    streamReadTimeout := u.streamReadTimeout.getD p.streamReadTimeout
    upstreamTcpKeepalive := u.upstreamTcpKeepalive.getD p.upstreamTcpKeepalive
    upstreamUserTimeout := u.upstreamUserTimeout.getD p.upstreamUserTimeout
    upstreamH2MaxStreams := u.upstreamH2MaxStreams.getD p.upstreamH2MaxStreams
    upstreamH2PingInterval := u.upstreamH2PingInterval.getD p.upstreamH2PingInterval
    maxConnections := u.maxConnections.getD p.maxConnections
    dnsCacheTtl := u.dnsCacheTtl.getD p.dnsCacheTtl
    dnsNegativeCacheTtl := u.dnsNegativeCacheTtl.getD p.dnsNegativeCacheTtl
    circuitBreakerEnabled := u.circuitBreakerEnabled.getD p.circuitBreakerEnabled
    circuitBreakerErrorThreshold :=
      u.circuitBreakerErrorThreshold.getD p.circuitBreakerErrorThreshold
    circuitBreakerWindowSize := u.circuitBreakerWindowSize.getD p.circuitBreakerWindowSize
    circuitBreakerRecoveryTimeout :=
      u.circuitBreakerRecoveryTimeout.getD p.circuitBreakerRecoveryTimeout
    circuitBreakerHalfOpenMax := u.circuitBreakerHalfOpenMax.getD p.circuitBreakerHalfOpenMax
    healthCheckInterval := u.healthCheckInterval.getD p.healthCheckInterval
    healthCheckTimeout := u.healthCheckTimeout.getD p.healthCheckTimeout
    healthCheckFall := u.healthCheckFall.getD p.healthCheckFall
    healthCheckRise := u.healthCheckRise.getD p.healthCheckRise
    healthCheckPath := u.healthCheckPath.getD p.healthCheckPath
    healthCheckTlsSkipVerify := u.healthCheckTlsSkipVerify.getD p.healthCheckTlsSkipVerify
    rateLimitPerTarget := u.rateLimitPerTarget.getD p.rateLimitPerTarget
    rateLimitBurst := u.rateLimitBurst.getD p.rateLimitBurst
    trustedProxies := u.trustedProxies.getD p.trustedProxies }

def LoggingConfigUpdate.apply (u : LoggingConfigUpdate) (l : LoggingConfig) : LoggingConfig :=
  ⟨u.level.getD l.level, u.format.getD l.format⟩

def ConfigUpdateRequest.apply (update : ConfigUpdateRequest) (current : Config) : Config :=
  { current with
    proxy := update.proxy.elim current.proxy (·.apply current.proxy)
    logging := update.logging.elim current.logging (·.apply current.logging) }

def ConfigUpdateRequest.namesTrustedProxies (update : ConfigUpdateRequest) : Bool :=
  update.proxy.any (·.trustedProxies.isSome)

/-! ## The handlers -/

/-- What the handlers share: the stored configuration and what is derived from it. -/
structure Runtime (W : Type) where
  config : Config
  dnsCache : DnsCache
  trustedProxies : List CidrRange
  routeTable : ManagedRouteTable W

inductive ConfigRequest where
  | update (request : ConfigUpdateRequest)
  | reset

structure ConfigCall (W : Type) where
  request : ConfigRequest
  held : List (Target W) := []

inductive ConfigResponse where
  | failed (error : String)
  | updated
  | restored (after : Config)

inductive ConfigAccess where
  | loadConfig
  | setTtl
  | storeConfig
  | storeTrustedProxies
  | reconfigureCircuitBreaker

section Handlers

variable {W : Type} [Platform] [WeightArith W] [HeaderNames]

abbrev Handler (W α : Type) := Prog ConfigAccess (Runtime W) α

def reloadTrustedProxies : Handler W Unit := do
  let config ← Prog.load .loadConfig (·.config)
  Prog.modify .storeTrustedProxies fun s =>
    { s with trustedProxies := parseTrustedProxies config.proxy.trustedProxies }

def applyConfig (held : List (Target W)) (oldCbConfig : Option CircuitBreakerConfig)
    (newConfig : Config) (reloadTrusted : Bool) : Handler W Unit := do
  let newCbConfig := circuitBreakerConfigFromProxy newConfig.proxy
  Prog.modify .setTtl fun s => { s with
    dnsCache :=
      s.dnsCache.setTtl newConfig.proxy.dnsCacheTtl newConfig.proxy.dnsNegativeCacheTtl }
  Prog.modify .storeConfig fun s => { s with config := newConfig }
  if reloadTrusted then reloadTrustedProxies else pure ()
  if oldCbConfig ≠ newCbConfig then
    Prog.modify .reconfigureCircuitBreaker fun s =>
      { s with routeTable := s.routeTable.reconfigureCircuitBreaker held newCbConfig }
  else pure ()

def configUpdateHandler (held : List (Target W)) (update : ConfigUpdateRequest) :
    Handler W ConfigResponse :=
  let unsupported := unsupportedRuntimeUpdates update
  if unsupported ≠ [] then
    pure (.failed ("Runtime update is not supported for: " ++ ", ".intercalate unsupported))
  else do
    let current ← Prog.load .loadConfig (·.config)
    let tempConfig := update.apply current
    let oldCbConfig := circuitBreakerConfigFromProxy current.proxy
    match tempConfig.validate with
    | some validationError => pure (.failed ("Validation failed: " ++ validationError))
    | none =>
        applyConfig held oldCbConfig tempConfig update.namesTrustedProxies
        pure .updated

def configResetHandler (held : List (Target W)) (startup : Config) :
    Handler W ConfigResponse := do
  let current ← Prog.load .loadConfig (·.config)
  let oldCbConfig := circuitBreakerConfigFromProxy current.proxy
  match startup.validate with
  | some validationError => pure (.failed ("Validation failed: " ++ validationError))
  | none =>
      applyConfig held oldCbConfig startup true
      let after ← Prog.load .loadConfig (·.config)
      pure (.restored after)

def handleConfig (startup : Config) (call : ConfigCall W) : Handler W ConfigResponse :=
  match call.request with
  | .update request => configUpdateHandler call.held request
  | .reset => configResetHandler call.held startup

end Handlers

/-! ## Fields -/

inductive ProxyField where
  | strategy | matcher | requestIdHeader | noRouteStatus | connectTimeout | readTimeout
  | writeTimeout | idleTimeout | enableH2c | upstreamH2MaxStreams | upstreamH2PingInterval
  | poolSize | dnsCacheTtl | dnsNegativeCacheTtl | maxConnections | trustedProxies
  | circuitBreakerEnabled | circuitBreakerErrorThreshold | circuitBreakerWindowSize
  | circuitBreakerRecoveryTimeout | circuitBreakerHalfOpenMax | healthCheckInterval
  | healthCheckTimeout | healthCheckFall | healthCheckRise | rateLimitPerTarget
  | rateLimitBurst | healthCheckPath | healthCheckTlsSkipVerify | upstreamTcpKeepalive
  | upstreamUserTimeout | downstreamTcpKeepalive | streamReadTimeout

namespace ProxyField

abbrev Value : ProxyField → Type
  | .trustedProxies => List String
  | .noRouteStatus => UInt16
  | .circuitBreakerErrorThreshold => UInt8
  | .enableH2c | .circuitBreakerEnabled | .healthCheckTlsSkipVerify => Bool
  | .upstreamH2MaxStreams | .poolSize | .dnsCacheTtl | .dnsNegativeCacheTtl | .maxConnections
  | .circuitBreakerWindowSize | .circuitBreakerRecoveryTimeout | .circuitBreakerHalfOpenMax
  | .healthCheckFall | .healthCheckRise | .rateLimitPerTarget | .rateLimitBurst => ℕ
  | _ => String

end ProxyField

def ProxyConfig.get (p : ProxyConfig) : (f : ProxyField) → f.Value
  | .strategy => p.strategy
  | .matcher => p.matcher
  | .requestIdHeader => p.requestIdHeader
  | .noRouteStatus => p.noRouteStatus
  | .connectTimeout => p.connectTimeout
  | .readTimeout => p.readTimeout
  | .writeTimeout => p.writeTimeout
  | .idleTimeout => p.idleTimeout
  | .enableH2c => p.enableH2c
  | .upstreamH2MaxStreams => p.upstreamH2MaxStreams
  | .upstreamH2PingInterval => p.upstreamH2PingInterval
  | .poolSize => p.poolSize
  | .dnsCacheTtl => p.dnsCacheTtl
  | .dnsNegativeCacheTtl => p.dnsNegativeCacheTtl
  | .maxConnections => p.maxConnections
  | .trustedProxies => p.trustedProxies
  | .circuitBreakerEnabled => p.circuitBreakerEnabled
  | .circuitBreakerErrorThreshold => p.circuitBreakerErrorThreshold
  | .circuitBreakerWindowSize => p.circuitBreakerWindowSize
  | .circuitBreakerRecoveryTimeout => p.circuitBreakerRecoveryTimeout
  | .circuitBreakerHalfOpenMax => p.circuitBreakerHalfOpenMax
  | .healthCheckInterval => p.healthCheckInterval
  | .healthCheckTimeout => p.healthCheckTimeout
  | .healthCheckFall => p.healthCheckFall
  | .healthCheckRise => p.healthCheckRise
  | .rateLimitPerTarget => p.rateLimitPerTarget
  | .rateLimitBurst => p.rateLimitBurst
  | .healthCheckPath => p.healthCheckPath
  | .healthCheckTlsSkipVerify => p.healthCheckTlsSkipVerify
  | .upstreamTcpKeepalive => p.upstreamTcpKeepalive
  | .upstreamUserTimeout => p.upstreamUserTimeout
  | .downstreamTcpKeepalive => p.downstreamTcpKeepalive
  | .streamReadTimeout => p.streamReadTimeout

def ProxyConfigUpdate.named (u : ProxyConfigUpdate) : (f : ProxyField) → Option f.Value
  | .strategy => u.strategy
  | .matcher => u.matcher
  | .requestIdHeader => u.requestIdHeader
  | .noRouteStatus => u.noRouteStatus
  | .connectTimeout => u.connectTimeout
  | .readTimeout => u.readTimeout
  | .writeTimeout => u.writeTimeout
  | .idleTimeout => u.idleTimeout
  | .enableH2c => u.enableH2c
  | .upstreamH2MaxStreams => u.upstreamH2MaxStreams
  | .upstreamH2PingInterval => u.upstreamH2PingInterval
  | .poolSize => u.poolSize
  | .dnsCacheTtl => u.dnsCacheTtl
  | .dnsNegativeCacheTtl => u.dnsNegativeCacheTtl
  | .maxConnections => u.maxConnections
  | .trustedProxies => u.trustedProxies
  | .circuitBreakerEnabled => u.circuitBreakerEnabled
  | .circuitBreakerErrorThreshold => u.circuitBreakerErrorThreshold
  | .circuitBreakerWindowSize => u.circuitBreakerWindowSize
  | .circuitBreakerRecoveryTimeout => u.circuitBreakerRecoveryTimeout
  | .circuitBreakerHalfOpenMax => u.circuitBreakerHalfOpenMax
  | .healthCheckInterval => u.healthCheckInterval
  | .healthCheckTimeout => u.healthCheckTimeout
  | .healthCheckFall => u.healthCheckFall
  | .healthCheckRise => u.healthCheckRise
  | .rateLimitPerTarget => u.rateLimitPerTarget
  | .rateLimitBurst => u.rateLimitBurst
  | .healthCheckPath => u.healthCheckPath
  | .healthCheckTlsSkipVerify => u.healthCheckTlsSkipVerify
  | .upstreamTcpKeepalive => u.upstreamTcpKeepalive
  | .upstreamUserTimeout => u.upstreamUserTimeout
  | .downstreamTcpKeepalive => u.downstreamTcpKeepalive
  | .streamReadTimeout => u.streamReadTimeout

def ConfigUpdateRequest.named (update : ConfigUpdateRequest) (f : ProxyField) : Option f.Value :=
  update.proxy.bind (·.named f)

/-! ## What a request does -/

theorem of_unsupportedRuntimeUpdates_eq_nil {update : ConfigUpdateRequest}
    (h : unsupportedRuntimeUpdates update = []) :
    (∀ u, update.proxy = some u →
        u.enableH2c = none ∧ u.poolSize = none ∧ u.downstreamTcpKeepalive = none) ∧
      ∀ l, update.logging = some l → l.level = none ∧ l.format = none := by
  unfold unsupportedRuntimeUpdates at h
  rw [List.append_eq_nil_iff] at h
  constructor
  · intro u hu
    simpa [hu, and_assoc] using h.1
  · intro l hl
    simpa [hl] using h.2

theorem ConfigUpdateRequest.get_apply {update : ConfigUpdateRequest}
    (h : unsupportedRuntimeUpdates update = []) (current : Config) (f : ProxyField) :
    (update.apply current).proxy.get f = (update.named f).getD (current.proxy.get f) := by
  obtain ⟨hproxy, -⟩ := of_unsupportedRuntimeUpdates_eq_nil h
  unfold apply named
  cases hu : update.proxy with
  | none => rfl
  | some u =>
    obtain ⟨hh2c, hpool, hdownstream⟩ := hproxy u hu
    cases f with
    | enableH2c => simp [ProxyConfigUpdate.named, ProxyConfig.get, ProxyConfigUpdate.apply, hh2c]
    | poolSize => simp [ProxyConfigUpdate.named, ProxyConfig.get, ProxyConfigUpdate.apply, hpool]
    | downstreamTcpKeepalive =>
      simp [ProxyConfigUpdate.named, ProxyConfig.get, ProxyConfigUpdate.apply, hdownstream]
    | _ => rfl

theorem ConfigUpdateRequest.apply_eq {update : ConfigUpdateRequest}
    (h : unsupportedRuntimeUpdates update = []) (current : Config) :
    update.apply current = { current with proxy := (update.apply current).proxy } := by
  obtain ⟨-, hlogging⟩ := of_unsupportedRuntimeUpdates_eq_nil h
  unfold apply
  cases hl : update.logging with
  | none => rfl
  | some l =>
    obtain ⟨hlevel, hformat⟩ := hlogging l hl
    simp [LoggingConfigUpdate.apply, hlevel, hformat]

theorem ConfigUpdateRequest.trustedProxies_apply {update : ConfigUpdateRequest}
    (h : update.namesTrustedProxies = false) (current : Config) :
    (update.apply current).proxy.trustedProxies = current.proxy.trustedProxies := by
  unfold apply
  cases hu : update.proxy with
  | none => rfl
  | some u =>
    have hnone : u.trustedProxies = none := by simpa [namesTrustedProxies, hu] using h
    simp [ProxyConfigUpdate.apply, hnone]

variable {W : Type}

/-- What is derived from the stored configuration is what the configuration says. -/
structure Runtime.Agrees (s : Runtime W) : Prop where
  dnsTtl : s.dnsCache.defaultTtlSecs = s.config.proxy.dnsCacheTtl
  dnsNegativeTtl : s.dnsCache.negativeTtlSecs = s.config.proxy.dnsNegativeCacheTtl
  trusted : s.trustedProxies = parseTrustedProxies s.config.proxy.trustedProxies
  /-- One range for every configured entry. -/
  trusted_length : s.trustedProxies.length = s.config.proxy.trustedProxies.length
  breaker : s.routeTable.cbConfig = circuitBreakerConfigFromProxy s.config.proxy

def Runtime.boot (config : Config) (heap : Heap) : Runtime W where
  config := config
  dnsCache := DnsCache.new.setTtl config.proxy.dnsCacheTtl config.proxy.dnsNegativeCacheTtl
  trustedProxies := parseTrustedProxies config.proxy.trustedProxies
  routeTable := .new (circuitBreakerConfigFromProxy config.proxy) heap

theorem Runtime.agrees_boot [HeaderNames] {config : Config} (h : config.validate = none)
    (heap : Heap) : (boot config heap : Runtime W).Agrees where
  dnsTtl := by simp [boot]
  dnsNegativeTtl := by simp [boot]
  trusted := rfl
  trusted_length := Config.length_parseTrustedProxies (Config.trustedProxies_of_validate h)
  breaker := rfl

section Handlers

variable [Platform] [WeightArith W]

theorem exec_applyConfig (held : List (Target W)) (oldCbConfig : Option CircuitBreakerConfig)
    (newConfig : Config) (reloadTrusted : Bool) (s : Runtime W) :
    (applyConfig held oldCbConfig newConfig reloadTrusted).exec s = ((), {
      config := newConfig
      dnsCache := s.dnsCache.setTtl newConfig.proxy.dnsCacheTtl
        newConfig.proxy.dnsNegativeCacheTtl
      trustedProxies :=
        if reloadTrusted then parseTrustedProxies newConfig.proxy.trustedProxies
        else s.trustedProxies
      routeTable :=
        if oldCbConfig ≠ circuitBreakerConfigFromProxy newConfig.proxy then
          s.routeTable.reconfigureCircuitBreaker held
            (circuitBreakerConfigFromProxy newConfig.proxy)
        else s.routeTable }) := by
  unfold applyConfig reloadTrustedProxies
  cases reloadTrusted <;>
    by_cases hcb : oldCbConfig ≠ circuitBreakerConfigFromProxy newConfig.proxy <;> simp [hcb]

variable [HeaderNames]

/-- Applying a valid configuration makes the derived state follow, when it agreed before and the
trusted ranges are reloaded unless their texts stay. -/
theorem agrees_applyConfig {held : List (Target W)} {newConfig : Config} {reloadTrusted : Bool}
    {s : Runtime W} (hs : s.Agrees) (hvalid : newConfig.validate = none)
    (htrusted : reloadTrusted = false →
      newConfig.proxy.trustedProxies = s.config.proxy.trustedProxies) :
    ((applyConfig held (circuitBreakerConfigFromProxy s.config.proxy) newConfig
      reloadTrusted).exec s).2.Agrees := by
  rw [exec_applyConfig]
  refine ⟨by simp, by simp, ?_, ?_, ?_⟩
  · cases reloadTrusted with
    | true => rfl
    | false => simpa [htrusted rfl] using hs.trusted
  · cases reloadTrusted with
    | true =>
      exact Config.length_parseTrustedProxies (Config.trustedProxies_of_validate hvalid)
    | false => simpa [htrusted rfl] using hs.trusted_length
  · dsimp only
    split
    · rfl
    · next hsame => rw [hs.breaker, not_not.mp hsame]

/-- What a call does to the stored configuration, by its response. -/
def Effect (startup : Config) (call : ConfigCall W) : ConfigResponse → Runtime W → Runtime W → Prop
  | .failed _, s, s' => s' = s
  | .updated, s, s' => ∃ update, call.request = .update update ∧
      (∀ f, s'.config.proxy.get f = (update.named f).getD (s.config.proxy.get f)) ∧
      s'.config = { s.config with proxy := s'.config.proxy }
  | .restored after, _, s' => call.request = .reset ∧ s'.config = startup ∧ after = startup

theorem effect_update (startup : Config) (held : List (Target W)) (update : ConfigUpdateRequest)
    (s : Runtime W) :
    let out := (configUpdateHandler held update).exec s
    Effect startup ⟨.update update, held⟩ out.1 s out.2 ∧ (s.Agrees → out.2.Agrees) := by
  intro out
  by_cases hunsupported : unsupportedRuntimeUpdates update ≠ []
  · have hout : out = (.failed ("Runtime update is not supported for: " ++
        ", ".intercalate (unsupportedRuntimeUpdates update)), s) := by
      simp only [out, configUpdateHandler, if_pos hunsupported]
      rfl
    rw [hout]
    exact ⟨rfl, id⟩
  · cases hvalid : (update.apply s.config).validate with
    | some e =>
      have hout : out = (.failed ("Validation failed: " ++ e), s) := by
        simp [out, configUpdateHandler, hunsupported, hvalid]
      rw [hout]
      exact ⟨rfl, id⟩
    | none =>
      have hout : out = (.updated, ((applyConfig held
          (circuitBreakerConfigFromProxy s.config.proxy) (update.apply s.config)
          update.namesTrustedProxies).exec s).2) := by
        simp [out, configUpdateHandler, hunsupported, hvalid]
      have hsupported := not_not.mp hunsupported
      rw [hout]
      refine ⟨⟨update, rfl, ?_, ?_⟩, fun hs => agrees_applyConfig hs hvalid ?_⟩
      · rw [exec_applyConfig]
        exact ConfigUpdateRequest.get_apply hsupported s.config
      · rw [exec_applyConfig]
        exact ConfigUpdateRequest.apply_eq hsupported s.config
      · exact fun h => ConfigUpdateRequest.trustedProxies_apply h s.config

theorem effect_reset (startup : Config) (held : List (Target W)) (s : Runtime W) :
    let out := (configResetHandler held startup).exec s
    Effect startup ⟨.reset, held⟩ out.1 s out.2 ∧ (s.Agrees → out.2.Agrees) := by
  intro out
  cases hvalid : startup.validate with
  | some e =>
    have hout : out = (.failed ("Validation failed: " ++ e), s) := by
      simp [out, configResetHandler, hvalid]
    rw [hout]
    exact ⟨rfl, id⟩
  | none =>
    have hout : out = (.restored startup, ((applyConfig held
        (circuitBreakerConfigFromProxy s.config.proxy) startup true).exec s).2) := by
      simp [out, configResetHandler, hvalid, exec_applyConfig]
    rw [hout]
    refine ⟨⟨rfl, ?_, rfl⟩, fun hs => agrees_applyConfig hs hvalid (by simp)⟩
    rw [exec_applyConfig]

theorem effect_handleConfig (startup : Config) (call : ConfigCall W) (s : Runtime W) :
    let out := (handleConfig startup call).exec s
    Effect startup call out.1 s out.2 ∧ (s.Agrees → out.2.Agrees) := by
  obtain ⟨request, held⟩ := call
  cases request with
  | update update => exact effect_update startup held update s
  | reset => exact effect_reset startup held s

/-! ## Runs -/

def valueAfter (startup : Config) (f : ProxyField) (v : f.Value) :
    ConfigCall W × ConfigResponse → f.Value
  | (⟨.update update, _⟩, .updated) => (update.named f).getD v
  | (_, .restored _) => startup.proxy.get f
  | _ => v

omit [Platform] [WeightArith W] [HeaderNames] in
theorem Effect.get_eq {startup : Config} {call : ConfigCall W} {response : ConfigResponse}
    {s s' : Runtime W} (h : Effect startup call response s s') (f : ProxyField) :
    s'.config.proxy.get f = valueAfter startup f (s.config.proxy.get f) (call, response) := by
  cases response with
  | failed e =>
    cases h
    obtain ⟨request, held⟩ := call
    cases request <;> rfl
  | updated =>
    obtain ⟨update, hrequest, hget, -⟩ := h
    obtain ⟨request, held⟩ := call
    cases hrequest
    exact hget f
  | restored after =>
    obtain ⟨hrequest, hconfig, -⟩ := h
    obtain ⟨request, held⟩ := call
    cases hrequest
    rw [hconfig]
    rfl

/-- However calls interleave, each does what its response says and keeps what is derived from the
configuration in agreement with it, and no accepted change is lost: a field has the value that the
accepted calls, in the order in which they finished, leave it. -/
theorem config_calls_agree {startup : Config} {s₀ : Runtime W} (h0 : s₀.Agrees)
    {ls : List (Serialized.Label (ConfigCall W))}
    {s : Serialized.State (ConfigCall W) ConfigAccess (Runtime W) ConfigResponse}
    (hrun : Runs.run (Serialized.step (handleConfig startup)) (Serialized.start s₀) ls = some s) :
    ∃ t, Serialized.Chain (fun call response a b =>
        Effect startup call response a b ∧ (a.Agrees → b.Agrees)) s₀ s.finished t ∧
      (s.holder = none → s.shared = t) ∧ t.Agrees ∧
      ∀ f, t.config.proxy.get f =
        s.finished.foldl (valueAfter startup f) (s₀.config.proxy.get f) := by
  obtain ⟨t, halone, hpending⟩ := Serialized.run_serial hrun
  have hchain : Serialized.Chain (fun call response a b =>
      Effect startup call response a b ∧ (a.Agrees → b.Agrees)) s₀ s.finished t := by
    apply halone.mono
    intro call response a b hexec
    have heffect := effect_handleConfig startup call a
    rw [show (handleConfig startup call).exec a = (response, b) from hexec] at heffect
    exact heffect
  refine ⟨t, hchain, ?_, ?_, ?_⟩
  · intro hfree
    rw [Serialized.Pending, hfree] at hpending
    exact hpending
  · exact hchain.invariant (fun _ _ _ _ hr => hr.2) h0
  · intro f
    exact hchain.foldl_eq (f := fun r => r.config.proxy.get f) fun _ _ _ _ hr => hr.1.get_eq f

end Handlers

/-! A call that names a field of startup is refused while another holds the lock. -/

section

attribute [local instance] Platform.plain tokenNames

def lifetimeUpdate : ConfigCall ℚ where
  request := .update { proxy := some {
    dnsCacheTtl := some 60, trustedProxies := some ["192.168.0.0/16"] } }

def poolUpdate : ConfigCall ℚ where
  request := .update { proxy := some { poolSize := some 5, readTimeout := some "1s" } }

def sampleCalls : List (Serialized.Label (ConfigCall ℚ)) :=
  [.arrive lifetimeUpdate, .acquire 0, .act, .act, .arrive poolUpdate, .act, .act, .act, .release]

theorem config_calls_agree_sampleCalls : ∃ s,
    Runs.run (Serialized.step (handleConfig sampleConfig))
      (Serialized.start (Runtime.boot sampleConfig Heap.empty)) sampleCalls = some s ∧
    s.finished.length = 2 ∧ s.shared.Agrees ∧ s.shared.config.proxy.get .dnsCacheTtl = 60 ∧
    s.shared.config.proxy.get .readTimeout = "30s" := by
  have hvalid : sampleConfig.validate = none := by decide +kernel
  have hs : (Runs.run (Serialized.step (handleConfig sampleConfig))
      (Serialized.start (Runtime.boot sampleConfig Heap.empty)) sampleCalls).map
        (fun s => (s.holder.isNone, s.finished.length, s.shared.config.proxy.dnsCacheTtl,
          s.shared.config.proxy.readTimeout)) = some (true, 2, 60, "30s") := by decide +kernel
  obtain ⟨s, hrun, he⟩ := Option.map_eq_some_iff.mp hs
  simp only [Prod.mk.injEq, Option.isNone_iff_eq_none] at he
  obtain ⟨hfree, hlength, httl, hread⟩ := he
  obtain ⟨t, -, hshared, hagrees, -⟩ :=
    config_calls_agree (Runtime.agrees_boot hvalid Heap.empty) hrun
  exact ⟨s, hrun, hlength, hshared hfree ▸ hagrees, httl, hread⟩

end

end SentirumLb
