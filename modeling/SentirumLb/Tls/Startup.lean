import SentirumLb.Config.Validation
import SentirumLb.Tls.ClientAuth

/-! # Starting the TLS listeners

The process sets up one listener for each TLS section, the primary one first.
Where a listener cannot be set up, the process exits if it is the primary one,
and otherwise goes on without it. What files, Consul, OpenSSL and the operating
system answer is given by an environment.
-/

namespace SentirumLb

/-- What the process meets while it starts. Listeners are counted from the primary one. -/
structure StartupEnv (X K : Type) where
  pemEntries : String → Except TlsError FabioEntries
  /-- What Consul answers to the first question for the client CAs of a listener. -/
  clientCas : ℕ → Except String (FabioEntries × ℕ)
  certs : ℕ → Except String (FabioEntries × ℕ)
  validateFiles : TlsCertConfig → Except TlsError Unit
  loadFiles : TlsCertConfig → Except TlsError (LoadedCertificate (CertParts X K))
  acceptorError : ℕ → Option String
  loopback : Except String String
  now : ℕ → ℕ

structure ConsulKeyWatcher where
  listener : ℕ
  keyPrefix : String
  initialIndex : ℕ
deriving DecidableEq

structure TlsListener (X K : Type) where
  index : ℕ
  addr : String
  config : TlsConfig
  selector : TlsSelector X K

structure Startup (X K : Type) where
  listeners : List (TlsListener X K) := []
  tlsServices : List ConsulKeyWatcher := []
  clientCaServices : List ConsulKeyWatcher := []
  fileCertWatchers : List (ℕ × TlsCertConfig) := []
  httpsFallbackReady : Bool := false

structure StartedProcess (X K : Type) extends Startup X K where
  tcpMode : TcpMode
  tcpHttpsFallbackAddr : Option String

def rsplitOnce (c : Char) (s : String) : Option (String × String) :=
  let cs := s.toList.reverse
  if cs.contains c then
    some (String.ofList ((cs.dropWhile (· ≠ c)).drop 1).reverse,
      String.ofList (cs.takeWhile (· ≠ c)).reverse)
  else none

/-- The port behind that of plain HTTP, unless an address is given. -/
def tlsListenAddr (httpListen tlsListen : String) : String :=
  if Text.trim tlsListen ≠ "" then tlsListen
  else
    match rsplitOnce ':' (Text.trim httpListen) with
    | none => ":10000"
    | some (host, port) =>
        match Text.parseNat (2 ^ 16) port with
        | none => ":10000"
        | some httpPort =>
            let tlsPort := if httpPort + 1 < 2 ^ 16 then httpPort + 1 else 10000
            s!"{host}:{tlsPort}"

namespace Startup

variable {X K : Type}

/-- The listener cannot be set up: the process exits, or leaves it out. -/
def giveUp (i : ℕ) (st : Startup X K) : Option (Startup X K) :=
  if i = 0 then none else some st

def addListener (l : TlsListener X K) (st : Startup X K) : Startup X K :=
  { st with
    listeners := st.listeners ++ [l]
    httpsFallbackReady := st.httpsFallbackReady || l.index == 0 }

def listenAddr (config : Config) (fallbackAddr : Option String) (i : ℕ) (tlsCfg : TlsConfig) :
    Option String :=
  if i = 0 then
    some (fallbackAddr.getD (tlsListenAddr config.server.listen config.tls.listen))
  else if Text.trim tlsCfg.listen = "" then none
  else some (tlsListenAddr config.server.listen tlsCfg.listen)

section Code

variable [Openssl X K] [OpensslStores X] (env : StartupEnv X K)

def withClientAuth (i : ℕ) (tlsCfg : TlsConfig) (st : Startup X K)
    (next : Option (ClientAuthMode × DynamicClientCaStore X) → Startup X K →
      Option (Startup X K)) : Option (Startup X K) :=
  match ClientAuthConfig.resolve tlsCfg with
  | .error _ => st.giveUp i
  | .ok none => next none st
  | .ok (some auth) =>
      let store := DynamicClientCaStore.new auth.caUpgradeCn
      match auth.source with
      | .file path =>
          match store.loadFromPath (env.pemEntries path) (env.now i) with
          | (.error _, _) => st.giveUp i
          | (.ok (), store) => next (some (auth.mode, store)) st
      | .consulKv keyPrefix =>
          match env.clientCas i with
          | .error _ => st.giveUp i
          | .ok (entries, initialIndex) =>
              let store := store.applySnapshot entries initialIndex (env.now i)
              if store.status.loadedEntries.isEmpty then st.giveUp i
              else
                next (some (auth.mode, store)) { st with
                  clientCaServices := st.clientCaServices ++ [⟨i, keyPrefix, initialIndex⟩] }

def initialCerts (i : ℕ) (strictSni : Bool) : DynamicCertStore (CertParts X K) × ℕ :=
  let store := DynamicCertStore.new strictSni
  match env.certs i with
  | .error _ => (store, 0)
  | .ok (entries, initialIndex) =>
      (store.applyConsulSnapshot entries initialIndex env.now, initialIndex)

def serveTls (i : ℕ) (addr : String) (tlsCfg : TlsConfig)
    (clientAuth : Option (ClientAuthMode × DynamicClientCaStore X)) (st : Startup X K) :
    Option (Startup X K) :=
  match TlsMode.resolve tlsCfg with
  | .error _ => st.giveUp i
  | .ok none => some st
  | .ok (some (.file tls)) =>
      match env.validateFiles tls with
      | .error _ => st.giveUp i
      | .ok () =>
          match env.loadFiles tls with
          | .error _ => st.giveUp i
          | .ok cert =>
              match env.acceptorError i with
              | some _ => st.giveUp i
              | none =>
                  let l := ⟨i, addr, tlsCfg, buildTlsSelector (.static cert) clientAuth⟩
                  some { st.addListener l with
                    fileCertWatchers := st.fileCertWatchers ++ [(i, tls)] }
  | .ok (some (.consulKv tls)) =>
      let (store, initialIndex) := initialCerts env i tls.strictSni
      if tls.requireInitialSnapshot ∧ store.status.loadedCertificates = [] then st.giveUp i
      else
        match env.acceptorError i with
        | some _ => st.giveUp i
        | none =>
            let l := ⟨i, addr, tlsCfg, buildTlsSelector (.dynamic store) clientAuth⟩
            some { st.addListener l with
              tlsServices := st.tlsServices ++ [⟨i, tls.certPrefix, initialIndex⟩] }

def startListener (config : Config) (fallbackAddr : Option String) (st : Startup X K)
    (section_ : TlsConfig × ℕ) : Option (Startup X K) :=
  let (tlsCfg, i) := section_
  match listenAddr config fallbackAddr i tlsCfg with
  | none => some st
  | some addr => withClientAuth env i tlsCfg st (serveTls env i addr tlsCfg)

def startListeners (config : Config) (fallbackAddr : Option String) (sections : List TlsConfig) :
    Option (Startup X K) :=
  sections.zipIdx.foldlM (startListener env config fallbackAddr) {}

/-- How TCP is proxied, and the address behind it for the primary HTTPS listener. -/
def resolveTcp (config : Config) : TcpMode × Option String :=
  match resolveTcpMode config with
  | .error _ => (.disabled, none)
  | .ok .httpsTcpSni =>
      match env.loopback with
      | .ok addr => (.httpsTcpSni, some addr)
      | .error _ => (.disabled, none)
  | .ok mode => (mode, none)

/-- The start of the process, which has no value where it exits. -/
def start [HeaderNames] (config : Config) : Option (StartedProcess X K) :=
  if config.validate ≠ none then none
  else
    let tcp := resolveTcp env config
    (startListeners env config tcp.2 (config.tls :: config.tlsListeners)).map fun st =>
      let tcpMode :=
        if tcp.1 = .httpsTcpSni ∧ !st.httpsFallbackReady then .disabled else tcp.1
      { st with tcpMode := tcpMode, tcpHttpsFallbackAddr := tcp.2 }

end Code

/-! ## What a listener is set up with -/

section Rounds

variable [Openssl X K] [OpensslStores X] {env : StartupEnv X K}

variable (env) in
/-- The CA certificates that a listener begins with: what is read at the configured path, or what
Consul answers first. -/
inductive InitialCas (i : ℕ) (auth : ClientAuthConfig) : CaReload → Prop where
  | file {path : String} {entries : FabioEntries} : auth.source = .file path →
      env.pemEntries path = .ok entries → InitialCas i auth ⟨entries, 0, env.now i⟩
  | consul {keyPrefix : String} {entries : FabioEntries} {index : ℕ} :
      auth.source = .consulKv keyPrefix → env.clientCas i = .ok (entries, index) →
      InitialCas i auth ⟨entries, index, env.now i⟩

/-- The watcher of the CA certificates of a listener, which goes on from the first ones. -/
def caWatcher (i : ℕ) (first : CaReload) : ClientCaSource → List ConsulKeyWatcher
  | .file _ => []
  | .consulKv keyPrefix => [⟨i, keyPrefix, first.consulIndex⟩]

variable (env) in
/-- The client authentication of a listener is as its section says, and its first CA certificates
were accepted. -/
inductive AuthReady (i : ℕ) (tlsCfg : TlsConfig) :
    Option (ClientAuthMode × DynamicClientCaStore X) → List ConsulKeyWatcher → Prop where
  | off : ClientAuthConfig.resolve tlsCfg = .ok none → AuthReady i tlsCfg none []
  | on {auth : ClientAuthConfig} {first : CaReload} :
      ClientAuthConfig.resolve tlsCfg = .ok (some auth) → InitialCas env i auth first →
      (ClientCaSnapshot.accepted (X := X) first.entries).isSome →
      AuthReady i tlsCfg
        (some (auth.mode, (DynamicClientCaStore.new auth.caUpgradeCn).applySnapshots [first]))
        (caWatcher i first auth.source)

variable (env) in
/-- The certificates that a listener begins with: those of its files, or what Consul answers first,
or none yet where the section goes without. -/
inductive CertsReady (i : ℕ) (tlsCfg : TlsConfig) : ServerCertificateSource X K → Prop where
  | file {tls : TlsCertConfig} {cert : LoadedCertificate (CertParts X K)} :
      TlsMode.resolve tlsCfg = .ok (some (.file tls)) → env.validateFiles tls = .ok () →
      env.loadFiles tls = .ok cert → CertsReady i tlsCfg (.static cert)
  | consul {tls : ConsulTlsConfig} {entries : FabioEntries} {index : ℕ}
      {store : DynamicCertStore (CertParts X K)} :
      TlsMode.resolve tlsCfg = .ok (some (.consulKv tls)) → env.certs i = .ok (entries, index) →
      store = (DynamicCertStore.new tls.strictSni).applyConsulSnapshot entries index env.now →
      (tls.requireInitialSnapshot → store.status.loadedCertificates ≠ []) →
      CertsReady i tlsCfg (.dynamic store)
  | unanswered {tls : ConsulTlsConfig} {e : String} :
      TlsMode.resolve tlsCfg = .ok (some (.consulKv tls)) → env.certs i = .error e →
      ¬tls.requireInitialSnapshot →
      CertsReady i tlsCfg (.dynamic (DynamicCertStore.new tls.strictSni))

omit [Openssl X K] [OpensslStores X] in
theorem giveUp_eq_some_iff {i : ℕ} {st st' : Startup X K} :
    st.giveUp i = some st' ↔ i ≠ 0 ∧ st = st' := by
  simp [giveUp]

omit [Openssl X K] in
theorem isSome_accepted_of_loadedEntries (caUpgradeCn : String) {r : CaReload}
    (h : ((DynamicClientCaStore.new caUpgradeCn : DynamicClientCaStore X).applySnapshots
      [r]).status.loadedEntries ≠ []) : (ClientCaSnapshot.accepted (X := X) r.entries).isSome := by
  have htracks := DynamicClientCaStore.tracks_new (X := X) caUpgradeCn [r]
  cases haccepted : ClientCaSnapshot.accepted (X := X) r.entries with
  | some usable => rfl
  | none =>
    rw [htracks.listed.1, htracks.snapshot] at h
    simp [Latest.latest, haccepted] at h

omit [Openssl X K] in
theorem withClientAuth_cases {i : ℕ} {tlsCfg : TlsConfig} {st st' : Startup X K}
    {next : Option (ClientAuthMode × DynamicClientCaStore X) → Startup X K → Option (Startup X K)}
    (h : withClientAuth env i tlsCfg st next = some st') :
    (i ≠ 0 ∧ st = st') ∨ ∃ auth services, AuthReady env i tlsCfg auth services ∧
      next auth { st with clientCaServices := st.clientCaServices ++ services } = some st' := by
  unfold withClientAuth at h
  cases hauth : ClientAuthConfig.resolve tlsCfg with
  | error e =>
    rw [hauth] at h
    exact .inl (giveUp_eq_some_iff.mp h)
  | ok auth =>
    rw [hauth] at h
    cases auth with
    | none =>
      refine .inr ⟨none, [], .off hauth, ?_⟩
      rw [List.append_nil]
      exact h
    | some auth =>
      dsimp only at h
      cases hsource : auth.source with
      | file path =>
        rw [hsource] at h
        dsimp only at h
        cases hread : env.pemEntries path with
        | error e =>
          rw [hread] at h
          exact .inl (giveUp_eq_some_iff.mp h)
        | ok entries =>
          rw [hread, DynamicClientCaStore.loadFromPath] at h
          split at h
          · exact .inl (giveUp_eq_some_iff.mp h)
          · next store hloaded =>
            split at hloaded
            · cases hloaded
            · next hne =>
              cases hloaded
              have haccepted := isSome_accepted_of_loadedEntries auth.caUpgradeCn
                (r := ⟨entries, 0, env.now i⟩) fun hnil => hne (List.isEmpty_iff.mpr hnil)
              refine .inr ⟨_, _, .on hauth (.file hsource hread) haccepted, ?_⟩
              rw [hsource, caWatcher, List.append_nil]
              exact h
      | consulKv keyPrefix =>
        rw [hsource] at h
        dsimp only at h
        cases hanswer : env.clientCas i with
        | error e =>
          rw [hanswer] at h
          exact .inl (giveUp_eq_some_iff.mp h)
        | ok answer =>
          obtain ⟨entries, initialIndex⟩ := answer
          rw [hanswer] at h
          dsimp only at h
          split at h
          · exact .inl (giveUp_eq_some_iff.mp h)
          · next hne =>
            have haccepted := isSome_accepted_of_loadedEntries auth.caUpgradeCn
              (r := ⟨entries, initialIndex, env.now i⟩) fun hnil => hne (List.isEmpty_iff.mpr hnil)
            refine .inr ⟨_, _, .on hauth (.consul hsource hanswer) haccepted, ?_⟩
            rw [hsource]
            exact h

def fileCertWatcher (l : TlsListener X K) : Option (ℕ × TlsCertConfig) :=
  match TlsMode.resolve l.config with
  | .ok (some (.file tls)) => some (l.index, tls)
  | _ => none

/-- The watcher of the certificates of a listener, from the index that its store has seen. -/
def tlsService (l : TlsListener X K) : Option ConsulKeyWatcher :=
  match TlsMode.resolve l.config, l.selector.serverCerts with
  | .ok (some (.consulKv tls)), .dynamic store =>
      some ⟨l.index, tls.certPrefix, store.status.lastConsulIndex⟩
  | _, _ => none

omit [OpensslStores X] in
theorem lastConsulIndex_initialCerts (i : ℕ) (strictSni : Bool) :
    (initialCerts env i strictSni).1.status.lastConsulIndex = (initialCerts env i strictSni).2 := by
  unfold initialCerts
  cases env.certs i with
  | error e => rfl
  | ok answer => exact DynamicCertStore.lastConsulIndex_applyConsulSnapshot _ _ _ _

omit [OpensslStores X] in
theorem certsReady_initialCerts {i : ℕ} {tlsCfg : TlsConfig} {tls : ConsulTlsConfig}
    (hmode : TlsMode.resolve tlsCfg = .ok (some (.consulKv tls)))
    (hinitial : ¬(tls.requireInitialSnapshot ∧
      (initialCerts env i tls.strictSni).1.status.loadedCertificates = [])) :
    CertsReady env i tlsCfg (.dynamic (initialCerts env i tls.strictSni).1) := by
  unfold initialCerts at hinitial ⊢
  cases hanswer : env.certs i with
  | error e =>
    rw [hanswer] at hinitial
    exact .unanswered hmode hanswer fun hrequired => hinitial ⟨hrequired, rfl⟩
  | ok answer =>
    obtain ⟨entries, index⟩ := answer
    rw [hanswer] at hinitial
    exact .consul hmode hanswer rfl fun hrequired hnil => hinitial ⟨hrequired, hnil⟩

def added (l : TlsListener X K) (st : Startup X K) : Startup X K :=
  { st.addListener l with
    tlsServices := st.tlsServices ++ (tlsService l).toList
    fileCertWatchers := st.fileCertWatchers ++ (fileCertWatcher l).toList }

omit [OpensslStores X] in
theorem serveTls_cases {i : ℕ} {addr : String} {tlsCfg : TlsConfig}
    {clientAuth : Option (ClientAuthMode × DynamicClientCaStore X)} {st st' : Startup X K}
    (h : serveTls env i addr tlsCfg clientAuth st = some st') :
    ((i ≠ 0 ∨ TlsMode.resolve tlsCfg = .ok none) ∧ st = st') ∨
      ∃ serverCerts, CertsReady env i tlsCfg serverCerts ∧ env.acceptorError i = none ∧
        st' = st.added ⟨i, addr, tlsCfg, buildTlsSelector serverCerts clientAuth⟩ := by
  have hgiveUp : st.giveUp i = some st' →
      (i ≠ 0 ∨ TlsMode.resolve tlsCfg = .ok none) ∧ st = st' := by
    intro hst
    obtain ⟨hi, hst⟩ := giveUp_eq_some_iff.mp hst
    exact ⟨.inl hi, hst⟩
  unfold serveTls at h
  cases hmode : TlsMode.resolve tlsCfg with
  | error e =>
    rw [hmode] at h hgiveUp
    exact .inl (hgiveUp h)
  | ok mode =>
    rw [hmode] at h hgiveUp
    cases mode with
    | none =>
      cases h
      exact .inl ⟨.inr rfl, rfl⟩
    | some mode =>
      cases mode with
      | file tls =>
        dsimp only at h
        cases hvalid : env.validateFiles tls with
        | error e => exact .inl (hgiveUp (by rwa [hvalid] at h))
        | ok _ =>
          rw [hvalid] at h
          dsimp only at h
          cases hload : env.loadFiles tls with
          | error e => exact .inl (hgiveUp (by rwa [hload] at h))
          | ok cert =>
            rw [hload] at h
            dsimp only at h
            cases hacceptor : env.acceptorError i with
            | some e => exact .inl (hgiveUp (by rwa [hacceptor] at h))
            | none =>
              rw [hacceptor] at h
              cases h
              refine .inr ⟨.static cert, .file hmode hvalid hload, rfl, ?_⟩
              simp [added, tlsService, fileCertWatcher, hmode, addListener]
      | consulKv tls =>
        dsimp only at h
        split at h
        · exact .inl (hgiveUp h)
        · next hinitial =>
          cases hacceptor : env.acceptorError i with
          | some e => exact .inl (hgiveUp (by rwa [hacceptor] at h))
          | none =>
            rw [hacceptor] at h
            cases h
            refine .inr ⟨_, certsReady_initialCerts hmode hinitial, rfl, ?_⟩
            simp [added, tlsService, fileCertWatcher, hmode, addListener, buildTlsSelector,
              lastConsulIndex_initialCerts]

omit [OpensslStores X] in
theorem CertsReady.resolve_ne {i : ℕ} {tlsCfg : TlsConfig}
    {serverCerts : ServerCertificateSource X K} (h : CertsReady env i tlsCfg serverCerts) :
    TlsMode.resolve tlsCfg ≠ .ok none := by
  cases h with
  | file hmode => simp [hmode]
  | consul hmode => simp [hmode]
  | unanswered hmode => simp [hmode]

variable (env) in
inductive Outcome (config : Config) (fallbackAddr : Option String) (st : Startup X K) (i : ℕ)
    (tlsCfg : TlsConfig) : Startup X K → Prop where
  | leftOut {services : List ConsulKeyWatcher} :
      i ≠ 0 ∨ TlsMode.resolve tlsCfg = .ok none →
      services = [] ∨ (∃ auth, AuthReady env i tlsCfg auth services) →
      Outcome config fallbackAddr st i tlsCfg
        { st with clientCaServices := st.clientCaServices ++ services }
  | added {addr : String} {auth : Option (ClientAuthMode × DynamicClientCaStore X)}
      {services : List ConsulKeyWatcher} {serverCerts : ServerCertificateSource X K} :
      listenAddr config fallbackAddr i tlsCfg = some addr → AuthReady env i tlsCfg auth services →
      CertsReady env i tlsCfg serverCerts → env.acceptorError i = none →
      Outcome config fallbackAddr st i tlsCfg
        (added ⟨i, addr, tlsCfg, buildTlsSelector serverCerts auth⟩
          { st with clientCaServices := st.clientCaServices ++ services })

theorem outcome_startListener {config : Config} {fallbackAddr : Option String} {i : ℕ}
    {tlsCfg : TlsConfig} {st st' : Startup X K}
    (h : startListener env config fallbackAddr st (tlsCfg, i) = some st') :
    Outcome env config fallbackAddr st i tlsCfg st' := by
  have hleftOut : i ≠ 0 → Outcome env config fallbackAddr st i tlsCfg st := by
    intro hi
    have hout : Outcome env config fallbackAddr st i tlsCfg
        { st with clientCaServices := st.clientCaServices ++ [] } := .leftOut (.inl hi) (.inl rfl)
    rwa [List.append_nil] at hout
  unfold startListener at h
  dsimp only at h
  cases haddr : listenAddr config fallbackAddr i tlsCfg with
  | none =>
    rw [haddr] at h
    cases h
    have hi : i ≠ 0 := by
      rintro rfl
      simp [listenAddr] at haddr
    exact hleftOut hi
  | some addr =>
    rw [haddr] at h
    obtain ⟨hi, rfl⟩ | ⟨auth, services, hready, hnext⟩ := withClientAuth_cases h
    · exact hleftOut hi
    · obtain ⟨hnone, rfl⟩ | ⟨serverCerts, hcerts, hacceptor, rfl⟩ := serveTls_cases hnext
      · exact .leftOut hnone (.inr ⟨auth, hready⟩)
      · exact .added haddr hready hcerts hacceptor

/-! ## What the process serves -/

variable (env) in
structure Sound (config : Config) (fallbackAddr : Option String) (sections : List TlsConfig)
    (st : Startup X K) : Prop where
  configured : ∀ l ∈ st.listeners, sections[l.index]? = some l.config ∧
    listenAddr config fallbackAddr l.index l.config = some l.addr
  increasing : (st.listeners.map (·.index)).Pairwise (· < ·)
  ready : ∀ l ∈ st.listeners, env.acceptorError l.index = none ∧ ∃ auth services serverCerts,
    AuthReady env l.index l.config auth services ∧ services ⊆ st.clientCaServices ∧
      CertsReady env l.index l.config serverCerts ∧ l.selector = buildTlsSelector serverCerts auth
  /-- The primary listener is up just when its section asks for one. -/
  primary : (∃ l ∈ st.listeners, l.index = 0) ↔
    ∃ tlsCfg, sections.head? = some tlsCfg ∧ TlsMode.resolve tlsCfg ≠ .ok none
  httpsFallbackReady : st.httpsFallbackReady ↔ ∃ l ∈ st.listeners, l.index = 0
  tlsServices : st.tlsServices = st.listeners.filterMap tlsService
  fileCertWatchers : st.fileCertWatchers = st.listeners.filterMap fileCertWatcher

theorem sound_nil (config : Config) (fallbackAddr : Option String) :
    Sound env config fallbackAddr [] ({} : Startup X K) := by
  constructor <;> simp

theorem Sound.index_lt {config : Config} {fallbackAddr : Option String}
    {sections : List TlsConfig} {st : Startup X K} (h : Sound env config fallbackAddr sections st)
    {l : TlsListener X K} (hl : l ∈ st.listeners) : l.index < sections.length :=
  (List.getElem?_eq_some_iff.mp (h.configured l hl).1).1

theorem Sound.leftOut {config : Config} {fallbackAddr : Option String}
    {sections : List TlsConfig} {tlsCfg : TlsConfig} {st : Startup X K}
    (h : Sound env config fallbackAddr sections st) (services : List ConsulKeyWatcher)
    (hskip : sections.length ≠ 0 ∨ TlsMode.resolve tlsCfg = .ok none) :
    Sound env config fallbackAddr (sections ++ [tlsCfg])
      { st with clientCaServices := st.clientCaServices ++ services } := by
  constructor
  · intro l hl
    obtain ⟨hget, haddr⟩ := h.configured l hl
    exact ⟨by rw [List.getElem?_append_left (h.index_lt hl), hget], haddr⟩
  · exact h.increasing
  · intro l hl
    obtain ⟨hacceptor, auth, caServices, serverCerts, hready, hsubset, hcerts⟩ := h.ready l hl
    exact ⟨hacceptor, auth, caServices, serverCerts, hready,
      fun _ hw => List.mem_append_left _ (hsubset hw), hcerts⟩
  · cases sections with
    | cons first rest => exact h.primary
    | nil =>
      have hnone : TlsMode.resolve tlsCfg = .ok none := by simpa using hskip
      simpa [hnone] using h.primary
  · exact h.httpsFallbackReady
  · exact h.tlsServices
  · exact h.fileCertWatchers

theorem Sound.added {config : Config} {fallbackAddr : Option String}
    {sections : List TlsConfig} {st : Startup X K} (h : Sound env config fallbackAddr sections st)
    {l : TlsListener X K} {auth : Option (ClientAuthMode × DynamicClientCaStore X)}
    {services : List ConsulKeyWatcher} {serverCerts : ServerCertificateSource X K}
    (hindex : l.index = sections.length)
    (haddr : listenAddr config fallbackAddr l.index l.config = some l.addr)
    (hready : AuthReady env l.index l.config auth services)
    (hcerts : CertsReady env l.index l.config serverCerts)
    (hacceptor : env.acceptorError l.index = none)
    (hselector : l.selector = buildTlsSelector serverCerts auth) :
    Sound env config fallbackAddr (sections ++ [l.config])
      (added l { st with clientCaServices := st.clientCaServices ++ services }) := by
  have hmem : ∀ l', l' ∈ st.listeners ++ [l] ↔ l' ∈ st.listeners ∨ l' = l := by simp
  constructor
  · intro l' hl'
    obtain hl' | rfl := (hmem l').mp hl'
    · obtain ⟨hget, haddr'⟩ := h.configured l' hl'
      exact ⟨by rw [List.getElem?_append_left (h.index_lt hl'), hget], haddr'⟩
    · exact ⟨by rw [hindex, List.getElem?_concat_length], haddr⟩
  · change ((st.listeners ++ [l]).map (·.index)).Pairwise (· < ·)
    rw [List.map_append, List.pairwise_append]
    refine ⟨h.increasing, by simp, ?_⟩
    intro i hi j hj
    obtain ⟨l', hl', rfl⟩ := List.mem_map.mp hi
    obtain rfl : j = l.index := by simpa using hj
    rw [hindex]
    exact h.index_lt hl'
  · intro l' hl'
    obtain hl' | rfl := (hmem l').mp hl'
    · obtain ⟨hacceptor', auth', caServices, serverCerts', hready', hsubset, hcerts'⟩ :=
        h.ready l' hl'
      exact ⟨hacceptor', auth', caServices, serverCerts', hready',
        fun _ hw => List.mem_append_left _ (hsubset hw), hcerts'⟩
    · exact ⟨hacceptor, auth, services, serverCerts, hready, List.subset_append_right _ _, hcerts,
        hselector⟩
  · change (∃ l' ∈ st.listeners ++ [l], l'.index = 0) ↔ _
    cases sections with
    | nil => exact iff_of_true ⟨l, by simp, hindex⟩ ⟨l.config, rfl, hcerts.resolve_ne⟩
    | cons first rest =>
      rw [List.head?_append_of_ne_nil _ (List.cons_ne_nil first rest), ← h.primary]
      have hne : l.index ≠ 0 := by
        rw [hindex]
        exact Nat.succ_ne_zero _
      simp [hmem, or_and_right, exists_or, hne]
  · change (st.httpsFallbackReady || l.index == 0) = true ↔ ∃ l' ∈ st.listeners ++ [l], l'.index = 0
    rw [Bool.or_eq_true, h.httpsFallbackReady]
    simp [or_and_right, exists_or]
  · change st.tlsServices ++ _ = (st.listeners ++ [l]).filterMap tlsService
    rw [List.filterMap_append, h.tlsServices]
    cases hservice : tlsService l <;> simp [hservice]
  · change st.fileCertWatchers ++ _ = (st.listeners ++ [l]).filterMap fileCertWatcher
    rw [List.filterMap_append, h.fileCertWatchers]
    cases hwatcher : fileCertWatcher l <;> simp [hwatcher]

theorem sound_startListeners {config : Config} {fallbackAddr : Option String}
    {sections : List TlsConfig} {st : Startup X K}
    (h : startListeners env config fallbackAddr sections = some st) :
    Sound env config fallbackAddr sections st := by
  induction sections using List.reverseRecOn generalizing st with
  | nil =>
    cases h
    exact sound_nil config fallbackAddr
  | append_singleton sections tlsCfg ih =>
    unfold startListeners at h ih
    rw [List.zipIdx_append, List.foldlM_append] at h
    obtain ⟨before, hbefore, hround⟩ := Option.bind_eq_some_iff.mp h
    have hsound := ih hbefore
    have hround : startListener env config fallbackAddr before (tlsCfg, sections.length) =
        some st := by simpa using hround
    cases outcome_startListener hround with
    | leftOut hskip hservices => exact hsound.leftOut _ hskip
    | @added addr auth services serverCerts haddr hready hcerts hacceptor =>
      exact hsound.added (l := ⟨sections.length, addr, tlsCfg, buildTlsSelector serverCerts auth⟩)
        rfl haddr hready hcerts hacceptor rfl

theorem start_eq_some [HeaderNames] {config : Config} {process : StartedProcess X K}
    (h : start env config = some process) :
    config.validate = none ∧ process.tcpHttpsFallbackAddr = (resolveTcp env config).2 ∧
      startListeners env config process.tcpHttpsFallbackAddr (config.tls :: config.tlsListeners) =
        some process.toStartup ∧
      process.tcpMode =
        if (resolveTcp env config).1 = .httpsTcpSni ∧ !process.httpsFallbackReady then .disabled
        else (resolveTcp env config).1 := by
  unfold start at h
  by_cases hvalid : config.validate = none
  · rw [if_neg (not_not.mpr hvalid)] at h
    obtain ⟨st, hst, hprocess⟩ := Option.map_eq_some_iff.mp h
    dsimp only at hprocess
    subst hprocess
    dsimp only
    exact ⟨hvalid, rfl, hst, rfl⟩
  · rw [if_pos hvalid] at h
    cases h

omit [Openssl X K] [OpensslStores X] in
theorem resolveTcp_fst_eq_httpsTcpSni_iff {config : Config} :
    (resolveTcp env config).1 = .httpsTcpSni ↔
      resolveTcpMode config = .ok .httpsTcpSni ∧ ∃ addr, env.loopback = .ok addr := by
  unfold resolveTcp
  split
  · next hmode => simp [hmode]
  · next hmode =>
    cases hloopback : env.loopback with
    | ok addr => simp [hmode]
    | error e => simp
  · next mode hne hmode =>
    rw [hmode]
    simp only [Except.ok.injEq]
    exact iff_of_false hne fun h => hne h.1

omit [Openssl X K] [OpensslStores X] in
theorem resolveTcp_snd_eq_some_iff {config : Config} {addr : String} :
    (resolveTcp env config).2 = some addr ↔
      resolveTcpMode config = .ok .httpsTcpSni ∧ env.loopback = .ok addr := by
  unfold resolveTcp
  split
  · next hmode => simp [hmode]
  · next hmode =>
    cases hloopback : env.loopback with
    | ok addr => simp [hmode]
    | error e => simp
  · next mode hne hmode =>
    rw [hmode]
    simp only [Except.ok.injEq, reduceCtorEq, false_iff]
    exact fun h => hne h.1

/-- A process that has started was configured soundly. What it runs for TLS was read for its
sections, and TCP is proxied in front of the primary listener only if that listener is up, at the
loopback address that was allocated. -/
theorem sound_start [HeaderNames] {config : Config} {process : StartedProcess X K}
    (h : start env config = some process) :
    config.validate = none ∧
      Sound env config process.tcpHttpsFallbackAddr (config.tls :: config.tlsListeners)
        process.toStartup ∧
      (∀ addr, process.tcpHttpsFallbackAddr = some addr ↔
        resolveTcpMode config = .ok .httpsTcpSni ∧ env.loopback = .ok addr) ∧
      (process.tcpMode = .httpsTcpSni ↔ resolveTcpMode config = .ok .httpsTcpSni ∧
        (∃ addr, env.loopback = .ok addr) ∧ TlsMode.resolve config.tls ≠ .ok none) ∧
      (process.tcpMode = .httpsTcpSni →
        ∃ l ∈ process.listeners, l.index = 0 ∧ env.loopback = .ok l.addr) := by
  obtain ⟨hvalid, haddr, hlisteners, hmode⟩ := start_eq_some h
  have hsound := sound_startListeners hlisteners
  have hready : process.httpsFallbackReady ↔ TlsMode.resolve config.tls ≠ .ok none := by
    rw [hsound.httpsFallbackReady, hsound.primary]
    simp
  have hmode_iff : process.tcpMode = .httpsTcpSni ↔
      (resolveTcp env config).1 = .httpsTcpSni ∧ process.httpsFallbackReady := by
    rw [hmode]
    by_cases hsni : (resolveTcp env config).1 = .httpsTcpSni <;>
      cases process.httpsFallbackReady <;> simp [hsni]
  refine ⟨hvalid, hsound, ?_, ?_, ?_⟩
  · intro addr
    rw [haddr, resolveTcp_snd_eq_some_iff]
  · rw [hmode_iff, hready, resolveTcp_fst_eq_httpsTcpSni_iff, and_assoc]
  · intro hsni
    obtain ⟨hresolved, hup⟩ := hmode_iff.mp hsni
    obtain ⟨l, hl, hindex⟩ := hsound.httpsFallbackReady.mp hup
    refine ⟨l, hl, hindex, ?_⟩
    have hlisten := (hsound.configured l hl).2
    obtain ⟨hconfigured, addr, hloopback⟩ := resolveTcp_fst_eq_httpsTcpSni_iff.mp hresolved
    rw [hindex, listenAddr, if_pos rfl, haddr,
      resolveTcp_snd_eq_some_iff.mpr ⟨hconfigured, hloopback⟩, Option.getD_some] at hlisten
    rw [hloopback, Option.some.inj hlisten]

theorem ClientAuthConfig.mode_ne_off_of_resolve {tlsCfg : TlsConfig} {auth : ClientAuthConfig}
    (h : ClientAuthConfig.resolve tlsCfg = .ok (some auth)) : auth.mode ≠ .off := by
  unfold ClientAuthConfig.resolve at h
  cases hmode : ClientAuthMode.resolve tlsCfg with
  | error e => simp [hmode, bind, Except.bind] at h
  | ok mode =>
    simp only [hmode, bind, Except.bind] at h
    split at h
    · cases h
    · next hoff =>
      cases hsource : ClientAuthConfig.resolveSource tlsCfg with
      | error e => simp [hsource] at h
      | ok source =>
        simp only [hsource] at h
        cases h
        exact hoff

variable (env) in
/-- How the clients of the `i`-th listener are verified when its section is read so, after some more
snapshots of CA certificates. -/
inductive Verified (i : ℕ) (reloads : List CaReload) (ssl : SslHandle X K) :
    Except TlsError (Option ClientAuthConfig) → Prop where
  | off : ssl.verify = .off → Verified i reloads ssl (.ok none)
  | on {auth : ClientAuthConfig} {first : CaReload} {cas : List X} :
      auth.mode.verifyMode = some ssl.verify → ssl.verifyCallback = some auth.caUpgradeCn →
      InitialCas env i auth first → (ClientCaSnapshot.accepted (X := X) first.entries).isSome →
      TlsSelector.clientCas (first :: reloads) = some cas → cas ≠ [] →
      ssl.verifyStore = some cas → Verified i reloads ssl (.ok (some auth))

omit [Openssl X K] in
theorem verified_of_protected {i : ℕ} {auth : ClientAuthConfig} {first : CaReload}
    {reloads : List CaReload} {ssl : SslHandle X K} (hmode : auth.mode ≠ .off)
    (hinitial : InitialCas env i auth first)
    (hfirst : (ClientCaSnapshot.accepted (X := X) first.entries).isSome)
    (h : ssl.Protected (some auth.mode) auth.caUpgradeCn
      (TlsSelector.clientCas (first :: reloads))) :
    Verified env i reloads ssl (.ok (some auth)) := by
  obtain ⟨cas, hne, hcas⟩ := TlsSelector.exists_clientCas_cons hfirst reloads
  rw [hcas] at h
  unfold SslHandle.Protected at h
  cases hauth : auth.mode with
  | off => exact absurd hauth hmode
  | optional =>
    rw [hauth] at h
    obtain ⟨hverify, hstore, hcallback⟩ := h
    exact .on (by rw [hauth, hverify]; rfl) hcallback hinitial hfirst hcas hne hstore
  | required =>
    rw [hauth] at h
    obtain ⟨hverify, hstore, hcallback⟩ := h
    exact .on (by rw [hauth, hverify]; rfl) hcallback hinitial hfirst hcas hne hstore

/-- Every handshake that a listener of a started process serves, whatever snapshots and
certificates came in since: where its section asks for client certificates, the client is verified
as the section says, against the last CA certificates that were accepted, counting from those that
the process read for the section, and there are some. No listener serves with a section that cannot
be read. -/
theorem verified_of_start [HeaderNames] [SslExt X K] {config : Config}
    {process : StartedProcess X K} (h : start env config = some process) {l : TlsListener X K}
    (hl : l ∈ process.listeners) (events : List (ListenerEvent X K)) (serverName : Option String)
    (hserved : ((l.selector.onEvents events).certificateCallback serverName {}).leaf ≠ none) :
    Verified env l.index (TlsSelector.caReloads events)
      ((l.selector.onEvents events).certificateCallback serverName {})
      (ClientAuthConfig.resolve l.config) := by
  have hsound := sound_startListeners (start_eq_some h).2.2.1
  generalize hresolved : ClientAuthConfig.resolve l.config = resolved
  obtain ⟨-, auth, services, serverCerts, hready, -, -, hselector⟩ := hsound.ready l hl
  have hprotected := TlsSelector.protected_of_leaf hserved
  have hclientAuth : (l.selector.onEvents events).clientAuth =
      (auth.map fun a => ⟨a.1, a.2.applySnapshots (TlsSelector.caReloads events),
        a.2.caUpgradeCn⟩) := by
    rw [TlsSelector.clientAuth_onEvents, hselector, buildTlsSelector, Option.map_map]
    rfl
  rw [hclientAuth] at hprotected
  generalize (l.selector.onEvents events).certificateCallback serverName {} = ssl at hprotected ⊢
  cases hready with
  | off hresolve =>
    obtain rfl : resolved = .ok none := hresolved.symm.trans hresolve
    exact .off hprotected
  | @on authConfig first hresolve hinitial hfirst =>
    obtain rfl : resolved = .ok (some authConfig) := hresolved.symm.trans hresolve
    apply verified_of_protected (ClientAuthConfig.mode_ne_off_of_resolve hresolve) hinitial hfirst
    have htracks := DynamicClientCaStore.tracks_new (X := X) authConfig.caUpgradeCn
      (first :: TlsSelector.caReloads events)
    rw [TlsSelector.clientCas, ← htracks.snapshot]
    simp only [Option.map_some, Option.elim_some, Option.bind_some,
      DynamicClientCaStore.caUpgradeCn_applySnapshots] at hprotected
    exact hprotected

end Rounds

/-! ## An example -/

section Example

open PemWriter

@[reducible] def sampleOpensslStores : OpensslStores Bool where
  pemBeginRe := ⟨findPemBegin, findsLeftmost_findPemBegin⟩
  x509FromPem pem := .ok (decide ("MIIB1".toList <:+: pem))
  utf8Error _ := "invalid utf-8"
  identity _ := ⟨some "ca.example", none, none, none, none, none⟩
  newError := none
  addError _ _ := none

@[reducible] def sampleSslExt : SslExt Bool Bool where
  setVerifyCertStore _ := none
  useCertificate _ := none
  usePrivateKey _ := none
  addChainCert _ := none

attribute [local instance] tokenNames sampleOpenssl sampleOpensslStores sampleSslExt

def sampleEnv : StartupEnv Bool Bool where
  pemEntries _ :=
    .ok (.ofList [("clients.pem", sampleWriter.encode ⟨[(noGap, .certificate true)], noGap⟩)])
  clientCas _ := .error "connection refused"
  certs _ := .error "connection refused"
  validateFiles _ := .ok ()
  loadFiles _ := .ok ⟨"a.pem", ⟨true, [false], true⟩, ["one.example"]⟩
  acceptorError _ := none
  loopback := .ok "127.0.0.1:40000"
  now _ := 7

def sampleTlsConfig : Config :=
  { sampleConfig with
    tcp := { mode := "https+tcp+sni", listen := ":443" }
    tls := {
      source := "file"
      certPath := "a.pem"
      keyPath := "a.key"
      clientAuth := "required"
      clientCaSource := "file"
      clientCaPath := "clients.pem" } }

theorem sound_start_sampleTlsConfig :
    ∃ process, start sampleEnv sampleTlsConfig = some process ∧
      process.tcpMode = .httpsTcpSni ∧ ∃ l ∈ process.listeners, l.addr = "127.0.0.1:40000" := by
  have hstart : (start sampleEnv sampleTlsConfig).isSome := by decide +kernel
  obtain ⟨process, hprocess⟩ := Option.isSome_iff_exists.mp hstart
  obtain ⟨-, -, -, hmode, hup⟩ := sound_start hprocess
  have hsni : process.tcpMode = .httpsTcpSni :=
    hmode.mpr ⟨by decide +kernel, ⟨_, rfl⟩, by decide +kernel⟩
  obtain ⟨l, hl, -, hloopback⟩ := hup hsni
  exact ⟨process, hprocess, hsni, l, hl, (Except.ok.inj hloopback).symm⟩

def sampleEvents : List (ListenerEvent Bool Bool) := [.clientCas ⟨∅, 8, 9⟩]

theorem verified_of_start_sampleEvents :
    ∃ process, start sampleEnv sampleTlsConfig = some process ∧ ∃ l ∈ process.listeners,
      Verified sampleEnv l.index (TlsSelector.caReloads sampleEvents)
        ((l.selector.onEvents sampleEvents).certificateCallback (some "one.example") {})
        (ClientAuthConfig.resolve l.config) := by
  have hstart : ((start sampleEnv sampleTlsConfig).map fun process =>
      process.listeners.map fun l =>
        ((l.selector.onEvents sampleEvents).certificateCallback (some "one.example") {}).leaf) =
      some [some true] := by
    decide +kernel
  obtain ⟨process, hprocess, hleafs⟩ := Option.map_eq_some_iff.mp hstart
  have hmem : some true ∈ process.listeners.map fun l =>
      ((l.selector.onEvents sampleEvents).certificateCallback (some "one.example") {}).leaf := by
    rw [hleafs]
    exact List.mem_singleton_self _
  obtain ⟨l, hl, hserved⟩ := List.mem_map.mp hmem
  have hne : ((l.selector.onEvents sampleEvents).certificateCallback
      (some "one.example") {}).leaf ≠ none := by
    rw [hserved]
    exact Option.some_ne_none true
  exact ⟨process, hprocess, l, hl, verified_of_start hprocess hl _ _ hne⟩

end Example

end Startup

end SentirumLb
