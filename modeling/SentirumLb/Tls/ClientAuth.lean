import SentirumLb.Config.Basic
import SentirumLb.Tls.ClientCa
import SentirumLb.Tls.Watcher

/-! # Client authentication in the handshake

A listener picks its certificate and sets up the verification of client
certificates in one callback, which OpenSSL runs for every handshake. Without
the certificate and its key the handshake fails, so the callback refuses a
client by leaving before it attaches them. The stores may change in between.
-/

namespace SentirumLb

/-! ## Settings -/

structure SslVerifyMode where
  peer : Bool
  failIfNoPeerCert : Bool
deriving DecidableEq

def SslVerifyMode.off : SslVerifyMode := ⟨false, false⟩

inductive ClientAuthMode where
  | off
  | optional
  | required
deriving DecidableEq

namespace ClientAuthMode

def resolve (config : TlsConfig) : Except TlsError ClientAuthMode :=
  let other := Text.toAsciiLowercase (Text.trim config.clientAuth)
  if ["", "off", "disabled", "none"].contains other then .ok off
  else if ["optional", "request"].contains other then .ok optional
  else if ["required", "require", "verify"].contains other then .ok required
  else
    .error (.configError
      s!"unknown tls.client_auth '{other}', expected 'optional' or 'required'")

def verifyMode : ClientAuthMode → Option SslVerifyMode
  | off => none
  | optional => some ⟨true, false⟩
  | required => some ⟨true, true⟩

end ClientAuthMode

inductive ClientCaSource where
  | file (path : String)
  | consulKv (keyPrefix : String)
deriving DecidableEq

structure ClientAuthConfig where
  mode : ClientAuthMode
  source : ClientCaSource
  caUpgradeCn : String
deriving DecidableEq

def consulSources : List String := ["consul", "consul_kv", "fabio_consul"]

namespace ClientAuthConfig

def resolveSource (config : TlsConfig) : Except TlsError ClientCaSource :=
  let other := Text.toAsciiLowercase (Text.trim config.clientCaSource)
  if other = "file" then
    let path := Text.trim config.clientCaPath
    if path = "" then
      .error (.configError "tls.client_ca_path cannot be empty when tls.client_ca_source=file")
    else .ok (.file path)
  else if consulSources.contains other then
    let keyPrefix := Text.trim config.clientCaConsulPrefix
    if keyPrefix = "" then
      .error (.configError
        "tls.client_ca_consul_prefix cannot be empty when tls.client_ca_source=consul_kv")
    else .ok (.consulKv keyPrefix)
  else if other = "" then
    .error (.configError "tls.client_ca_source is required when tls.client_auth is enabled")
  else
    .error (.configError
      s!"unknown tls.client_ca_source '{other}', expected 'file' or 'consul_kv'")

def resolve (config : TlsConfig) : Except TlsError (Option ClientAuthConfig) := do
  let mode ← ClientAuthMode.resolve config
  if mode = .off then return none
  let source ← resolveSource config
  return some ⟨mode, source, Text.trim config.clientCaUpgradeCn⟩

end ClientAuthConfig

structure ConsulTlsConfig where
  certPrefix : String
  strictSni : Bool
  requireInitialSnapshot : Bool
deriving DecidableEq

inductive TlsMode where
  | file (tls : TlsCertConfig)
  | consulKv (tls : ConsulTlsConfig)
deriving DecidableEq

def TlsMode.resolve (config : TlsConfig) : Except TlsError (Option TlsMode) :=
  let other := Text.toAsciiLowercase (Text.trim config.source)
  if other = "" then
    if config.certPath ≠ "" ∨ config.keyPath ≠ "" then
      .ok (some (.file ⟨config.certPath, config.keyPath⟩))
    else .ok none
  else if other = "file" then .ok (some (.file ⟨config.certPath, config.keyPath⟩))
  else if consulSources.contains other then
    let certPrefix := Text.trim config.consulCertPrefix
    if certPrefix = "" then
      .error (.configError
        "tls.consul_cert_prefix cannot be empty when tls.source=consul_kv")
    else .ok (some (.consulKv ⟨certPrefix, config.strictSni, config.requireInitialSnapshot⟩))
  else
    .error (.configError s!"unknown tls.source '{other}', expected 'file' or 'consul_kv'")

/-! ## The callback -/

structure SslHandle (X K : Type) where
  verify : SslVerifyMode := .off
  verifyStore : Option (List X) := none
  /-- The verify callback is installed, with this name of an upgraded CA. -/
  verifyCallback : Option String := none
  leaf : Option X := none
  key : Option K := none
  chain : List X := []

/-- The errors of the OpenSSL functions that attach something to a connection. -/
class SslExt (X K : Type) where
  setVerifyCertStore : List X → Option String
  useCertificate : X → Option String
  usePrivateKey : K → Option String
  addChainCert : X → Option String

inductive ServerCertificateSource (X K : Type) where
  | static (cert : LoadedCertificate (CertParts X K))
  | dynamic (store : DynamicCertStore (CertParts X K))

structure ClientAuthState (X : Type) where
  mode : ClientAuthMode
  store : DynamicClientCaStore X
  caUpgradeCn : String

structure TlsSelector (X K : Type) where
  serverCerts : ServerCertificateSource X K
  clientAuth : Option (ClientAuthState X)

section Code

variable {X K : Type}

def ServerCertificateSource.select (serverName : Option String) :
    ServerCertificateSource X K → Option (LoadedCertificate (CertParts X K))
  | .static cert => some cert
  | .dynamic store => store.selectForServerName serverName

def buildTlsSelector (serverCerts : ServerCertificateSource X K)
    (clientAuth : Option (ClientAuthMode × DynamicClientCaStore X)) : TlsSelector X K :=
  ⟨serverCerts, clientAuth.map fun (mode, store) => ⟨mode, store, store.caUpgradeCn⟩⟩

variable [SslExt X K]

variable (K) in
def ClientAuthState.configureSsl (auth : ClientAuthState X) (ssl : SslHandle X K) :
    Except TlsError (SslHandle X K) :=
  match auth.mode.verifyMode with
  | none => .ok ssl
  | some verifyMode =>
      match auth.store.currentStore with
      | none =>
          if auth.mode = .required then
            .error (.configError "client auth required but no client CA store is loaded")
          else .ok { ssl with verify := .off, verifyCallback := none }
      | some snapshot =>
          match snapshot.store with
          | none => .error (.configError "client CA snapshot missing verify store")
          | some verifyStore =>
              match SslExt.setVerifyCertStore K verifyStore with
              | some e =>
                  .error (.configError s!"failed to attach client CA verify store: {e}")
              | none => .ok { ssl with
                  verifyStore := some verifyStore
                  verify := verifyMode
                  verifyCallback := some auth.caUpgradeCn }

/-- Add the certificates of a chain up to the first that OpenSSL does not take. -/
def addChain (ssl : SslHandle X K) : List X → SslHandle X K
  | [] => ssl
  | cert :: certs =>
      match SslExt.addChainCert K cert with
      | some _ => ssl
      | none => addChain { ssl with chain := ssl.chain ++ [cert] } certs

def attach (parts : CertParts X K) (ssl : SslHandle X K) : SslHandle X K :=
  match SslExt.useCertificate K parts.leaf with
  | some _ => ssl
  | none =>
      let ssl := { ssl with leaf := some parts.leaf }
      match SslExt.usePrivateKey X parts.key with
      | some _ => ssl
      | none => addChain { ssl with key := some parts.key } parts.chain

def TlsSelector.attachSelected (sel : TlsSelector X K) (serverName : Option String)
    (ssl : SslHandle X K) : SslHandle X K :=
  match sel.serverCerts.select serverName with
  | none => ssl
  | some cert => attach cert.parts ssl

/-- `certificate_callback`. Where setting up the verification fails, the callback leaves at once. -/
def TlsSelector.certificateCallback (sel : TlsSelector X K) (serverName : Option String)
    (ssl : SslHandle X K) : SslHandle X K :=
  match sel.clientAuth with
  | none => sel.attachSelected serverName ssl
  | some auth =>
      match auth.configureSsl K ssl with
      | .error _ => ssl
      | .ok ssl => sel.attachSelected serverName ssl

end Code

/-! ## One handshake -/

namespace SslHandle

variable {X K : Type} [SslExt X K]

/-- What a served client has to pass, for the mode and the CA certificates that are stored. -/
def Protected (auth : Option ClientAuthMode) (caUpgradeCn : String) (cas : Option (List X))
    (ssl : SslHandle X K) : Prop :=
  match auth, cas with
  | some .required, some cas => ssl.verify = ⟨true, true⟩ ∧ ssl.verifyStore = some cas ∧
      ssl.verifyCallback = some caUpgradeCn
  | some .required, none => False
  | some .optional, some cas => ssl.verify = ⟨true, false⟩ ∧ ssl.verifyStore = some cas ∧
      ssl.verifyCallback = some caUpgradeCn
  | _, _ => ssl.verify = .off

structure Bare (ssl : SslHandle X K) : Prop where
  leaf : ssl.leaf = none
  key : ssl.key = none
  chain : ssl.chain = []

/-- The certificate is attached, with its key unless OpenSSL refuses that, and behind the key with
its chain up to the first certificate that OpenSSL refuses. -/
structure Presents (cert : LoadedCertificate (CertParts X K)) (ssl : SslHandle X K) : Prop where
  leaf : ssl.leaf = some cert.parts.leaf
  key : ssl.key = if SslExt.usePrivateKey X cert.parts.key = none then some cert.parts.key else none
  chain : ssl.chain = if SslExt.usePrivateKey X cert.parts.key = none then
    cert.parts.chain.takeWhile fun x => (SslExt.addChainCert K x).isNone else []

/-- The selected certificate is attached unless OpenSSL refuses its leaf. -/
def Attached (ssl : SslHandle X K) : Option (LoadedCertificate (CertParts X K)) → Prop
  | none => ssl.Bare
  | some cert => (SslExt.useCertificate K cert.parts.leaf = none → ssl.Presents cert) ∧
      (SslExt.useCertificate K cert.parts.leaf ≠ none → ssl.Bare)

theorem Presents.whole {cert : LoadedCertificate (CertParts X K)} {ssl : SslHandle X K}
    (h : ssl.Presents cert) (hkey : SslExt.usePrivateKey X cert.parts.key = none)
    (hchain : ∀ x ∈ cert.parts.chain, SslExt.addChainCert K x = none) :
    ssl.leaf = some cert.parts.leaf ∧ ssl.key = some cert.parts.key ∧
      ssl.chain = cert.parts.chain := by
  have hall : ∀ x ∈ cert.parts.chain, (SslExt.addChainCert K x).isNone = true := by
    intro x hx
    rw [hchain x hx]
    rfl
  exact ⟨h.leaf, h.key.trans (if_pos hkey),
    (h.chain.trans (if_pos hkey)).trans (List.takeWhile_eq_self_iff.mpr hall)⟩

theorem addChain_eq (certs : List X) (ssl : SslHandle X K) :
    addChain ssl certs = { ssl with
      chain := ssl.chain ++ certs.takeWhile fun x => (SslExt.addChainCert K x).isNone } := by
  induction certs generalizing ssl with
  | nil => simp [addChain]
  | cons cert certs ih =>
    unfold addChain
    cases hadd : SslExt.addChainCert K cert with
    | some e => simp [hadd]
    | none => simp [ih, hadd]

theorem attach_verify (parts : CertParts X K) (ssl : SslHandle X K) :
    (attach parts ssl).verify = ssl.verify ∧ (attach parts ssl).verifyStore = ssl.verifyStore ∧
      (attach parts ssl).verifyCallback = ssl.verifyCallback := by
  unfold attach
  cases SslExt.useCertificate K parts.leaf with
  | some e => exact ⟨rfl, rfl, rfl⟩
  | none =>
    dsimp only
    cases SslExt.usePrivateKey X parts.key with
    | some e => exact ⟨rfl, rfl, rfl⟩
    | none =>
      dsimp only
      rw [addChain_eq]
      exact ⟨rfl, rfl, rfl⟩

theorem attached_attach {cert : LoadedCertificate (CertParts X K)} {ssl : SslHandle X K}
    (hbare : ssl.Bare) : (attach cert.parts ssl).Attached (some cert) := by
  unfold attach
  cases hleaf : SslExt.useCertificate K cert.parts.leaf with
  | some e => exact ⟨fun h => absurd (hleaf.symm.trans h) (Option.some_ne_none e), fun _ => hbare⟩
  | none =>
    refine ⟨fun _ => ?_, fun h => absurd hleaf h⟩
    dsimp only
    cases hkey : SslExt.usePrivateKey X cert.parts.key with
    | some e => exact ⟨rfl, by simp [hkey, hbare.key], by simp [hkey, hbare.chain]⟩
    | none =>
      dsimp only
      rw [addChain_eq]
      exact ⟨rfl, by simp [hkey], by simp [hkey, hbare.chain]⟩

end SslHandle

namespace ClientAuthState

variable {X K : Type} [SslExt X K]

variable (K) in
/-- The verification of clients cannot be set up: there is nothing to verify against where a
certificate is required, or OpenSSL refuses what there is. -/
def Refuses (auth : Option ClientAuthMode) (cas : Option (List X)) : Prop :=
  auth = some .required ∧ cas = none ∨
    ∃ mode certs, auth = some mode ∧ mode ≠ .off ∧ cas = some certs ∧
      SslExt.setVerifyCertStore K certs ≠ none

theorem configureSsl_of_refuses {auth : ClientAuthState X}
    (h : Refuses K (some auth.mode) auth.store.snapshot.store) :
    ∃ e, auth.configureSsl K ({} : SslHandle X K) = .error e := by
  unfold configureSsl DynamicClientCaStore.currentStore
  obtain ⟨hmode, hstore⟩ | ⟨mode, certs, hmode, hon, hstore, hset⟩ := h
  · obtain hmode := Option.some.inj hmode
    simp [hmode, hstore, ClientAuthMode.verifyMode]
  · obtain rfl := Option.some.inj hmode
    obtain ⟨e, he⟩ := Option.ne_none_iff_exists'.mp hset
    cases hmode : auth.mode with
    | off => exact absurd hmode hon
    | optional => simp [hstore, he, ClientAuthMode.verifyMode]
    | required => simp [hstore, he, ClientAuthMode.verifyMode]

theorem configureSsl_of_not_refuses {auth : ClientAuthState X}
    (h : ¬Refuses K (some auth.mode) auth.store.snapshot.store) :
    ∃ ssl, auth.configureSsl K {} = .ok ssl ∧ ssl.Bare ∧
      ssl.Protected (some auth.mode) auth.caUpgradeCn auth.store.snapshot.store := by
  unfold SslHandle.Protected configureSsl DynamicClientCaStore.currentStore
  cases hstore : auth.store.snapshot.store with
  | none =>
    cases hmode : auth.mode with
    | required => exact absurd (.inl ⟨by rw [hmode], hstore⟩) h
    | off => exact ⟨_, rfl, ⟨rfl, rfl, rfl⟩, rfl⟩
    | optional => exact ⟨_, rfl, ⟨rfl, rfl, rfl⟩, rfl⟩
  | some cas =>
    have hset : auth.mode ≠ .off → SslExt.setVerifyCertStore K cas = none := by
      intro hon
      by_contra hset
      exact h (.inr ⟨auth.mode, cas, rfl, hon, hstore, hset⟩)
    cases hmode : auth.mode with
    | off => exact ⟨_, rfl, ⟨rfl, rfl, rfl⟩, rfl⟩
    | optional =>
      simp only [ClientAuthMode.verifyMode, Option.map_some, hstore, hset (by simp [hmode])]
      exact ⟨_, rfl, ⟨rfl, rfl, rfl⟩, rfl, rfl, rfl⟩
    | required =>
      simp only [ClientAuthMode.verifyMode, Option.map_some, hstore, hset (by simp [hmode])]
      exact ⟨_, rfl, ⟨rfl, rfl, rfl⟩, rfl, rfl, rfl⟩

end ClientAuthState

/-! ## Every handshake of a listener -/

inductive ListenerEvent (X K : Type) where
  | clientCas (r : CaReload)
  | certs (r : DynamicCertStore.ConsulReload)
  | swapCert (cert : LoadedCertificate (CertParts X K))

namespace TlsSelector

open ClientCaSnapshot DynamicClientCaStore

variable {X K : Type} [Openssl X K] [OpensslStores X]

def onEvent (sel : TlsSelector X K) : ListenerEvent X K → TlsSelector X K
  | .clientCas r =>
      { sel with clientAuth := sel.clientAuth.map fun auth =>
          { auth with store := auth.store.applySnapshot r.entries r.consulIndex r.now } }
  | .certs r =>
      match sel.serverCerts with
      | .static _ => sel
      | .dynamic store =>
          { sel with
            serverCerts := .dynamic (store.applyConsulSnapshot r.entries r.consulIndex r.now) }
  | .swapCert cert =>
      match sel.serverCerts with
      | .static _ => { sel with serverCerts := .static cert }
      | .dynamic _ => sel

def onEvents (sel : TlsSelector X K) (events : List (ListenerEvent X K)) : TlsSelector X K :=
  events.foldl onEvent sel

def caReloads (events : List (ListenerEvent X K)) : List CaReload :=
  events.filterMap fun
    | .clientCas r => some r
    | _ => none

theorem clientAuth_onEvent (sel : TlsSelector X K) (event : ListenerEvent X K) :
    (sel.onEvent event).clientAuth = sel.clientAuth.map fun auth =>
      { auth with store := auth.store.applySnapshots (caReloads [event]) } := by
  have hnone : sel.clientAuth = sel.clientAuth.map fun auth =>
      { auth with store := auth.store.applySnapshots [] } := by
    change sel.clientAuth = sel.clientAuth.map id
    rw [Option.map_id_fun, id]
  cases event with
  | clientCas r => rfl
  | certs r =>
    rw [onEvent]
    cases sel.serverCerts with
    | static cert => exact hnone
    | dynamic store => exact hnone
  | swapCert cert =>
    rw [onEvent]
    cases sel.serverCerts with
    | static cert' => exact hnone
    | dynamic store => exact hnone

theorem clientAuth_onEvents (sel : TlsSelector X K) (events : List (ListenerEvent X K)) :
    (sel.onEvents events).clientAuth = sel.clientAuth.map fun auth =>
      { auth with store := auth.store.applySnapshots (caReloads events) } := by
  induction events generalizing sel with
  | nil =>
    change sel.clientAuth = sel.clientAuth.map id
    rw [Option.map_id_fun, id]
  | cons event events ih =>
    have hreloads : caReloads (event :: events) = caReloads [event] ++ caReloads events :=
      List.filterMap_append (l := [event])
    change ((sel.onEvent event).onEvents events).clientAuth = _
    rw [ih, clientAuth_onEvent, Option.map_map, hreloads]
    simp only [Function.comp_def, applySnapshots_append]

variable [SslExt X K]

omit [Openssl X K] [OpensslStores X] in
theorem attached_attachSelected {sel : TlsSelector X K} {serverName : Option String}
    {ssl : SslHandle X K} (hbare : ssl.Bare) :
    (sel.attachSelected serverName ssl).Attached (sel.serverCerts.select serverName) := by
  unfold attachSelected
  cases sel.serverCerts.select serverName with
  | none => exact hbare
  | some cert => exact SslHandle.attached_attach hbare

omit [Openssl X K] [OpensslStores X] in
theorem protected_attachSelected {sel : TlsSelector X K} {serverName : Option String}
    {ssl : SslHandle X K} {auth : Option ClientAuthMode} {caUpgradeCn : String}
    {cas : Option (List X)} (h : ssl.Protected auth caUpgradeCn cas) :
    (sel.attachSelected serverName ssl).Protected auth caUpgradeCn cas := by
  have hkept : (sel.attachSelected serverName ssl).verify = ssl.verify ∧
      (sel.attachSelected serverName ssl).verifyStore = ssl.verifyStore ∧
      (sel.attachSelected serverName ssl).verifyCallback = ssl.verifyCallback := by
    unfold attachSelected
    cases sel.serverCerts.select serverName with
    | none => exact ⟨rfl, rfl, rfl⟩
    | some cert => exact SslHandle.attach_verify cert.parts ssl
  obtain ⟨hverify, hstore, hcallback⟩ := hkept
  unfold SslHandle.Protected at h ⊢
  rw [hverify, hstore, hcallback]
  exact h

omit [Openssl X K] [OpensslStores X] in
theorem certificateCallback_eq (sel : TlsSelector X K) (serverName : Option String) :
    let auth := sel.clientAuth.map (·.mode)
    let cas := sel.clientAuth.bind (·.store.snapshot.store)
    let ssl := sel.certificateCallback serverName {}
    (ClientAuthState.Refuses K auth cas → ssl = {}) ∧
      (¬ClientAuthState.Refuses K auth cas →
        ssl.Protected auth (sel.clientAuth.elim "" (·.caUpgradeCn)) cas ∧
          ssl.Attached (sel.serverCerts.select serverName)) := by
  have hnew : ({} : SslHandle X K).Bare := ⟨rfl, rfl, rfl⟩
  unfold certificateCallback
  cases hauth : sel.clientAuth with
  | none =>
    refine ⟨?_, fun _ => ⟨protected_attachSelected rfl, attached_attachSelected hnew⟩⟩
    rintro (⟨hmode, -⟩ | ⟨mode, certs, hmode, -⟩) <;> cases hmode
  | some auth =>
    dsimp only [Option.map_some, Option.bind_some, Option.elim_some]
    constructor
    · intro hrefuses
      obtain ⟨e, he⟩ := auth.configureSsl_of_refuses hrefuses
      rw [he]
    · intro hsets
      obtain ⟨ssl, hssl, hbare, hprotected⟩ := auth.configureSsl_of_not_refuses hsets
      rw [hssl]
      exact ⟨protected_attachSelected hprotected, attached_attachSelected hbare⟩

omit [Openssl X K] [OpensslStores X] in
theorem protected_of_leaf {sel : TlsSelector X K} {serverName : Option String}
    (h : (sel.certificateCallback serverName {}).leaf ≠ none) :
    (sel.certificateCallback serverName {}).Protected (sel.clientAuth.map (·.mode))
      (sel.clientAuth.elim "" (·.caUpgradeCn)) (sel.clientAuth.bind (·.store.snapshot.store)) := by
  obtain ⟨hrefused, hset⟩ := sel.certificateCallback_eq serverName
  by_cases hrefuses : ClientAuthState.Refuses K (sel.clientAuth.map (·.mode))
      (sel.clientAuth.bind (·.store.snapshot.store))
  · exact absurd (congrArg SslHandle.leaf (hrefused hrefuses)) h
  · exact (hset hrefuses).1

/-- The CA certificates of the last snapshot that was accepted. -/
def clientCas (reloads : List CaReload) : Option (List X) :=
  (Latest.latest (fun r : CaReload => (accepted r.entries).map ofUsable)
    ({} : ClientCaSnapshot X) reloads).store

omit [Openssl X K] [SslExt X K] in
/-- Once a snapshot was accepted there are always CA certificates. -/
theorem exists_clientCas_cons {first : CaReload} (hfirst : (accepted (X := X) first.entries).isSome)
    (reloads : List CaReload) :
    ∃ cas, cas ≠ [] ∧ clientCas (first :: reloads) = some (cas : List X) := by
  have hofUsable : ∀ (r : CaReload) (snapshot : ClientCaSnapshot X),
      (accepted r.entries).map ofUsable = some snapshot →
      ∃ cas, cas ≠ [] ∧ snapshot.store = some cas := by
    intro r snapshot hsnapshot
    obtain ⟨usable, husable, rfl⟩ := Option.map_eq_some_iff.mp hsnapshot
    exact ⟨_, flatMap_ne_nil_of_accepted husable, rfl⟩
  obtain ⟨usable, husable⟩ := Option.isSome_iff_exists.mp hfirst
  rw [clientCas, Latest.latest_cons]
  apply Latest.latest_mem (P := fun snapshot : ClientCaSnapshot X =>
    ∃ cas, cas ≠ [] ∧ snapshot.store = some cas)
  · exact hofUsable first _ (by simp [husable])
  · exact fun r _ snapshot hsnapshot => hofUsable r snapshot hsnapshot

/-- A listener is built with certificates and with the CA certificates of some snapshots, and later
its certificates and CA certificates change. Whatever came in, a connection is left alone when the
verification of its client cannot be set up as the mode says against the CA certificates that were
accepted last. Otherwise it is set up so, and of the selected certificate everything is attached
that OpenSSL does not refuse. -/
theorem certificateCallback_onEvents (serverCerts : ServerCertificateSource X K)
    (auth : Option (ClientAuthMode × String)) (loads : List CaReload)
    (events : List (ListenerEvent X K)) (serverName : Option String) :
    let sel := (buildTlsSelector serverCerts (auth.map fun (mode, caUpgradeCn) =>
      (mode, (new caUpgradeCn).applySnapshots loads))).onEvents events
    let cas := auth.bind fun _ => clientCas (loads ++ caReloads events)
    let ssl := sel.certificateCallback serverName {}
    (ClientAuthState.Refuses K (auth.map (·.1)) cas → ssl = {}) ∧
      (¬ClientAuthState.Refuses K (auth.map (·.1)) cas →
        ssl.Protected (auth.map (·.1)) (auth.elim "" (·.2)) cas ∧
          ssl.Attached (sel.serverCerts.select serverName)) := by
  intro sel cas ssl
  have hauth : sel.clientAuth = auth.map fun (mode, caUpgradeCn) =>
      ⟨mode, (new caUpgradeCn).applySnapshots (loads ++ caReloads events), caUpgradeCn⟩ := by
    rw [clientAuth_onEvents, buildTlsSelector, Option.map_map, Option.map_map]
    congr 1
    funext ⟨mode, caUpgradeCn⟩
    simp only [Function.comp_apply, caUpgradeCn_applySnapshots, applySnapshots_append]
    rfl
  have hcallback := sel.certificateCallback_eq serverName
  rw [hauth] at hcallback
  cases auth with
  | none => exact hcallback
  | some auth =>
    have hcas : ((new auth.2).applySnapshots (loads ++ caReloads events)).snapshot.store =
        clientCas (X := X) (loads ++ caReloads events) :=
      congrArg ClientCaSnapshot.store
        (tracks_new (X := X) auth.2 (loads ++ caReloads events)).snapshot
    dsimp only [Option.map_some, Option.bind_some, Option.elim_some] at hcallback
    rw [hcas] at hcallback
    exact hcallback

end TlsSelector

end SentirumLb
