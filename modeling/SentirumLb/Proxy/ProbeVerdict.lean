import SentirumLb.Proxy.HealthCheck
import SentirumLb.Route.Registry

/-! # Who a probe speaks for

Targets with one URL share a health tracker, and one of them is probed for all.
Its verdict is right for the others when they are admitted to the same
addresses and are reached over the same protocol. The URL decides the host, but
the source of a definition and its options decide the rest.
-/

namespace SentirumLb

variable {W : Type}

section Definitions

variable [Platform]

/-! ## What the URL decides -/

def urlHost (url : String) : String :=
  ((((Platform.urlParse url).bind (·.hostStr)).map (Text.trimMatches ['[', ']'])).getD "127.0.0.1")

def protocolFor (opts : Opts) (parsed : Url) : UpstreamProtocol :=
  (((opts.lookup "proto").bind UpstreamProtocol.fromSchemeOrProto) <|>
    UpstreamProtocol.fromSchemeOrProto parsed.scheme).getD .http

structure Target.Parsed (t : Target W) : Prop where
  host : t.parsedHost = (Platform.urlParse t.url).bind (·.hostStr)
  protocol : t.parsedProtocol = ((Platform.urlParse t.url).map (protocolFor t.opts)).getD .http
  tls : t.parsedTls = t.parsedProtocol.usesTls
  port : t.parsedPort = (Platform.urlParse t.url).bind fun parsed =>
    parsed.port <|> (protocolFor t.opts parsed).defaultPort <|> parsed.portOrKnownDefault

theorem Table.parsed_targetOf [WeightArith W] (shared : SharedRefs) (d : RouteDef W) :
    (targetOf shared d).Parsed := by
  unfold targetOf Target.preParse
  cases hparse : Platform.urlParse d.dst with
  | none => constructor <;> simp [hparse, UpstreamProtocol.usesTls]
  | some parsed => constructor <;> simp [hparse, protocolFor]

/-- What SSRF protection makes of a host before its name is resolved. -/
inductive HostClass where
  | blocked
  | privateAddress
  | publicAddress
  /-- A name, whose addresses are checked once they are known. -/
  | name
  deriving DecidableEq

def isLocalName (host : String) : Bool :=
  let lower := Text.toAsciiLowercase host
  lower == "localhost" || Text.endsWith lower ".localhost" || Text.endsWith lower ".local"

def HostClass.of (host : String) : HostClass :=
  match IpAddr.parse host with
  | some ip =>
      if isIpAlwaysBlocked ip then .blocked
      else if isIpRfc1918 ip then .privateAddress
      else .publicAddress
  | none => if isLocalName host then .blocked else .name

/-! ## What targets of one URL must share -/

/-- The options and sources give both targets the same treatment by SSRF protection. -/
def SharesAdmission (a b : Target W) : Prop :=
  match HostClass.of (urlHost a.url) with
  | .blocked => a.ssrfSkipVerify = b.ssrfSkipVerify
  | .privateAddress =>
      (a.ssrfSkipVerify || a.sourceAllowsPrivateUpstreams) =
        (b.ssrfSkipVerify || b.sourceAllowsPrivateUpstreams)
  | .publicAddress => True
  | .name =>
      a.ssrfSkipVerify = b.ssrfSkipVerify ∧
        (a.ssrfSkipVerify = true ∨
          a.sourceAllowsPrivateUpstreams = b.sourceAllowsPrivateUpstreams)

/-- The protocols both use TLS or both do not, and without a port in the URL they stand for the same
one. -/
def SharesProtocol (a b : Target W) : Prop :=
  ∀ parsed, Platform.urlParse a.url = some parsed →
    (protocolFor a.opts parsed).usesTls = (protocolFor b.opts parsed).usesTls ∧
      (parsed.port = none →
        (protocolFor a.opts parsed = .tcp ↔ protocolFor b.opts parsed = .tcp) ∨
          parsed.portOrKnownDefault.getD 80 = 80)

/-- Whichever of the two is probed, the verdict and the tracker after it are the same, and they
agree on what the probe looks at. -/
structure SharesVerdict (a b : Target W) : Prop where
  admitted : a.admitted = b.admitted
  port : a.upstreamPort = b.upstreamPort
  tls : a.upstreamTls = b.upstreamTls
  verdict : ∀ env : ProbeEnv W, env.Lawful a → ∀ config tracker,
    env.checkTarget config a tracker = env.checkTarget config b tracker

end Definitions

/-! ## Admission -/

section Pairs

variable [Platform] {a b : Target W}

theorem Target.Parsed.upstreamHost_eq (h : a.Parsed) : a.upstreamHost = urlHost a.url := by
  unfold upstreamHost urlHost
  rw [h.host]

omit [Platform] in
/-- The class of the host decides admission, with the source and the option. -/
theorem Target.isHostSafe_eq (t : Target W) : t.isHostSafe =
    match HostClass.of t.upstreamHost with
    | .blocked => false
    | .privateAddress => t.sourceAllowsPrivateUpstreams
    | .publicAddress => true
    | .name => true := by
  unfold isHostSafe upstreamHost
  cases hhost : t.parsedHost.map (Text.trimMatches ['[', ']']) with
  | none =>
    have hlocal : HostClass.of "127.0.0.1" = .blocked := by decide +kernel
    simp only [Option.getD_none, hlocal]
  | some host =>
    simp only [Option.getD_some, HostClass.of]
    cases IpAddr.parse host with
    | some ip =>
      cases hblocked : isIpAlwaysBlocked ip <;> cases hprivate : isIpRfc1918 ip <;>
        simp [hblocked, hprivate]
    | none =>
      change (!isLocalName host) = _
      by_cases hlocal : isLocalName host = true <;> simp [hlocal]

theorem Target.Parsed.admitted_eq {t : Target W} (h : t.Parsed) : t.admitted =
    match HostClass.of (urlHost t.url) with
    | .blocked => t.ssrfSkipVerify
    | .privateAddress => t.ssrfSkipVerify || t.sourceAllowsPrivateUpstreams
    | .publicAddress => true
    | .name => true := by
  rw [admitted, t.isHostSafe_eq, h.upstreamHost_eq]
  cases HostClass.of (urlHost t.url) with
  | privateAddress => exact Bool.or_comm _ _
  | _ => rfl

omit [Platform] in
theorem HostClass.of_spec (host : String) :
    match HostClass.of host with
    | .blocked => True
    | .privateAddress => ∃ ip, IpAddr.parse host = some ip ∧ isIpAlwaysBlocked ip = false
    | .publicAddress => ∃ ip, IpAddr.parse host = some ip ∧ isIpAlwaysBlocked ip = false ∧
        isIpRfc1918 ip = false
    | .name => IpAddr.parse host = none := by
  unfold HostClass.of
  cases IpAddr.parse host with
  | some ip =>
    cases hblocked : isIpAlwaysBlocked ip <;> cases hprivate : isIpRfc1918 ip <;>
      simp [hblocked, hprivate]
  | none => cases isLocalName host <;> simp

theorem SharesAdmission.blocks_eq (hshares : SharesAdmission a b) (ha : a.Parsed) (hb : b.Parsed)
    (hurl : a.url = b.url) {env : ProbeEnv W} (hlawful : env.Lawful a)
    (hadmitted : a.admitted = true) (hadmitted' : b.admitted = true) {addr : SocketAddr}
    (haddr : env.Offers a addr) : a.blocks addr = b.blocks addr := by
  have hlocal : ∀ ip, IpAddr.parse (urlHost a.url) = some ip → addr.ip = ip := by
    intro ip hip
    rw [← ha.upstreamHost_eq] at hip
    exact hlawful.offers_literal hip haddr
  have hspec := HostClass.of_spec (urlHost a.url)
  rw [ha.admitted_eq] at hadmitted
  rw [hb.admitted_eq, ← hurl] at hadmitted'
  unfold SharesAdmission at hshares
  unfold Target.blocks
  cases hclass : HostClass.of (urlHost a.url) with
  | blocked =>
    simp only [hclass] at hadmitted hadmitted'
    rw [hadmitted, hadmitted']
    rfl
  | privateAddress =>
    rw [hclass] at hspec hadmitted hadmitted'
    obtain ⟨ip, hip, hblocked⟩ := hspec
    rw [hlocal ip hip, hblocked]
    have hopen : ∀ t : Target W, (t.ssrfSkipVerify || t.sourceAllowsPrivateUpstreams) = true →
        (!t.ssrfSkipVerify && (false || !t.sourceAllowsPrivateUpstreams && isIpRfc1918 ip)) =
          false := by
      intro t ht
      cases hskip : t.ssrfSkipVerify <;> simp_all
    rw [hopen a hadmitted, hopen b hadmitted']
  | publicAddress =>
    rw [hclass] at hspec
    obtain ⟨ip, hip, hblocked, hprivate⟩ := hspec
    rw [hlocal ip hip, hblocked, hprivate]
    simp
  | name =>
    rw [hclass] at hshares
    obtain ⟨hskip, hskips | hsource⟩ := hshares
    · rw [← hskip, hskips]
      rfl
    · rw [hskip, hsource]

theorem SharesAdmission.admitted_eq (hshares : SharesAdmission a b) (ha : a.Parsed)
    (hb : b.Parsed) (hurl : a.url = b.url) : a.admitted = b.admitted := by
  rw [ha.admitted_eq, hb.admitted_eq, ← hurl]
  unfold SharesAdmission at hshares
  cases hclass : HostClass.of (urlHost a.url) <;> rw [hclass] at hshares
  · exact hshares
  · exact hshares

/-! ## Telling targets apart -/

omit [Platform] in
def answeringWith (ip : IpAddr) : ProbeEnv W where
  nowMs := 0
  resolution := ⟨DnsCache.new, [], []⟩
  answer := .addrs [⟨ip, 80⟩]
  get _ _ _ _ := some 200
  connect _ _ := true

theorem lawful_answeringWith {t : Target W} {ip : IpAddr}
    (h : ∀ ip', IpAddr.parse t.upstreamHost = some ip' → ip = ip') :
    (answeringWith ip).Lawful t where
  reached := ⟨[], rfl⟩
  stored := by simp [answeringWith]
  answered := by
    rintro addrs hanswer ip' hip addr haddr
    cases hanswer
    rw [List.mem_singleton.mp haddr]
    exact h ip' hip

omit [Platform] in
theorem probe_answeringWith {t : Target W} (h : t.admitted = true) (ip : IpAddr)
    (config : HealthCheckConfig) :
    (answeringWith ip).probe config t = !t.blocks ⟨ip, 80⟩ := by
  have hresolved : (answeringWith ip).resolveUpstreamAddr t =
      (t.finishResolve (.addrs [⟨ip, 80⟩])).1 := by
    simp [ProbeEnv.resolveUpstreamAddr, Target.startResolve, Target.refused_eq, h,
      answeringWith, DnsCache.lookupStatus, DnsCache.new, DnsCache.withTtl]
  rw [ProbeEnv.probe, hresolved, Target.finishResolve]
  cases t.blocks ⟨ip, 80⟩ with
  | true => rfl
  | false => simp [ProbeEnv.probeHttp, answeringWith]

theorem SharesVerdict.sharesAdmission (h : SharesVerdict a b) (ha : a.Parsed) (hb : b.Parsed)
    (hurl : a.url = b.url) : SharesAdmission a b := by
  have hadmitted := h.admitted
  rw [ha.admitted_eq, hb.admitted_eq, ← hurl] at hadmitted
  unfold SharesAdmission
  cases hclass : HostClass.of (urlHost a.url) with
  | blocked => simpa only [hclass] using hadmitted
  | privateAddress => simpa only [hclass] using hadmitted
  | publicAddress => trivial
  | name =>
    have hadmitted_a : a.admitted = true := by rw [ha.admitted_eq, hclass]
    have hadmitted_b : b.admitted = true := by rw [hb.admitted_eq, ← hurl, hclass]
    have hparse := HostClass.of_spec (urlHost a.url)
    rw [hclass, ← ha.upstreamHost_eq] at hparse
    have hblocks : ∀ ip, a.blocks ⟨ip, 80⟩ = b.blocks ⟨ip, 80⟩ := by
      intro ip
      have hverdict := congrArg Prod.fst (h.verdict (answeringWith ip)
        (lawful_answeringWith (by simp [hparse])) .default (TargetHealthTracker.new none))
      simp only [ProbeEnv.fst_checkTarget, probe_answeringWith hadmitted_a,
        probe_answeringWith hadmitted_b] at hverdict
      exact Bool.not_inj hverdict
    have hloopback := hblocks (.v4 ⟨127, 0, 0, 1⟩)
    have hprivate := hblocks (.v4 ⟨10, 0, 0, 1⟩)
    have hskip : a.ssrfSkipVerify = b.ssrfSkipVerify := by
      simpa [Target.blocks, isIpAlwaysBlocked, isIpv4AlwaysBlocked, Ipv4Addr.isLoopback]
        using hloopback
    refine ⟨hskip, ?_⟩
    cases hskips : a.ssrfSkipVerify with
    | true => exact Or.inl rfl
    | false =>
      have hopen : isIpAlwaysBlocked (.v4 ⟨10, 0, 0, 1⟩) = false := by decide
      have hrfc1918 : isIpRfc1918 (.v4 ⟨10, 0, 0, 1⟩) = true := by decide
      right
      simpa [Target.blocks, ← hskip, hskips, hopen, hrfc1918] using hprivate

/-! ## Ports and TLS -/

omit [Platform] in
theorem UpstreamProtocol.defaultPort_eq (p : UpstreamProtocol) :
    p.defaultPort = if p = .tcp then none else some (if p.usesTls then 443 else 80) := by
  cases p <;> rfl

theorem Target.Parsed.upstreamPort_eq {t : Target W} (h : t.Parsed) {parsed : Url}
    (hparse : Platform.urlParse t.url = some parsed) : t.upstreamPort = parsed.port.getD
      (if protocolFor t.opts parsed = .tcp then parsed.portOrKnownDefault.getD 80
        else if (protocolFor t.opts parsed).usesTls then 443 else 80) := by
  have hprotocol := h.protocol
  have hport := h.port
  rw [hparse] at hprotocol hport
  simp only [Option.map_some, Option.getD_some, Option.bind_some] at hprotocol hport
  rw [upstreamPort, hport, hprotocol, UpstreamProtocol.defaultPort_eq]
  cases parsed.port with
  | some port => rfl
  | none =>
    split
    · cases parsed.portOrKnownDefault <;> rfl
    · rfl

/-- Agreement on the port and on TLS comes down to the protocols. -/
theorem port_and_tls_iff (ha : a.Parsed) (hb : b.Parsed) (hurl : a.url = b.url) :
    (a.upstreamPort = b.upstreamPort ∧ a.upstreamTls = b.upstreamTls) ↔ SharesProtocol a b := by
  have htls : ∀ t : Target W, t.Parsed → t.upstreamTls =
      (((Platform.urlParse t.url).map (protocolFor t.opts)).getD .http).usesTls := by
    intro t ht
    rw [Target.upstreamTls, ht.tls, ht.protocol]
  rw [htls a ha, htls b hb, ← hurl]
  cases hparse : Platform.urlParse a.url with
  | none =>
    have hport : ∀ t : Target W, t.Parsed → t.url = a.url → t.upstreamPort = 80 := by
      intro t ht hta
      rw [Target.upstreamPort, ht.port, ht.protocol, hta, hparse]
      rfl
    rw [hport a ha rfl, hport b hb hurl.symm]
    simp [SharesProtocol, hparse]
  | some parsed =>
    rw [ha.upstreamPort_eq hparse, hb.upstreamPort_eq (hurl ▸ hparse)]
    simp only [SharesProtocol, hparse, Option.some.injEq, forall_eq', Option.map_some,
      Option.getD_some]
    generalize protocolFor a.opts parsed = p
    generalize protocolFor b.opts parsed = q
    cases parsed.port with
    | some port => simp
    | none =>
      simp only [Option.getD_none, forall_const]
      by_cases hp : p = .tcp <;> by_cases hq : q = .tcp
      · simp [hp, hq]
      · subst hp
        cases hqtls : q.usesTls <;> simp [hq, UpstreamProtocol.usesTls]
      · subst hq
        cases hptls : p.usesTls <;> simp [hp, UpstreamProtocol.usesTls, eq_comm]
      · cases hptls : p.usesTls <;> cases hqtls : q.usesTls <;> simp [hp, hq]

/-- Two targets of one URL share their verdicts just when they share admission and protocol. -/
theorem sharesVerdict_iff (ha : a.Parsed) (hb : b.Parsed) (hurl : a.url = b.url) :
    SharesVerdict a b ↔ SharesAdmission a b ∧ SharesProtocol a b := by
  constructor
  · intro h
    exact ⟨h.sharesAdmission ha hb hurl, (port_and_tls_iff ha hb hurl).mp ⟨h.port, h.tls⟩⟩
  · rintro ⟨hadmission, hprotocol⟩
    obtain ⟨hport, htls⟩ := (port_and_tls_iff ha hb hurl).mpr hprotocol
    have hadmitted := hadmission.admitted_eq ha hb hurl
    have hhost : a.upstreamHost = b.upstreamHost := by
      rw [ha.upstreamHost_eq, hb.upstreamHost_eq, hurl]
    refine ⟨hadmitted, hport, htls, ?_⟩
    intro env hlawful config tracker
    refine env.checkTarget_congr config hhost hport htls hadmitted ?_ tracker
    intro hok addr haddr
    exact hadmission.blocks_eq ha hb hurl hlawful hok (hadmitted ▸ hok) haddr

end Pairs

/-! ## Managed tables -/

section Tables

variable [Platform] [WeightArith W]

theorem ManagedRouteTable.Published.parsed {m : ManagedRouteTable W} (h : m.Published)
    {a : Arc (Target W)} (ha : m.table.HasTarget a) : a.val.Parsed := by
  obtain ⟨d, -, -, w, heq⟩ := h.exists_def ha
  have hparsed : a.val.unweighted.eraseRefs.Parsed := by
    rw [heq]
    obtain ⟨hhost, hprotocol, htls, hport⟩ := Table.parsed_targetOf default d
    exact ⟨hhost, hprotocol, htls, hport⟩
  obtain ⟨hhost, hprotocol, htls, hport⟩ := hparsed
  exact ⟨hhost, hprotocol, htls, hport⟩

/-- After any updates, the targets of a URL have one tracker, and the verdict on it is the same
whichever of them is probed just when their sources and options agree in what decides admission
and protocol. -/
theorem probe_verdicts_shared_iff (cbConfig : Option CircuitBreakerConfig) (heap : Heap)
    (calls : List (Update W × List (Target W))) (url : String) :
    let table := ((ManagedRouteTable.new cbConfig heap).run calls).table
    (∀ a b, table.HasTarget a → table.HasTarget b → a.val.url = url → b.val.url = url →
      a.val.healthTracker = b.val.healthTracker ∧ SharesVerdict a.val b.val) ↔
    (∀ a b, table.HasTarget a → table.HasTarget b → a.val.url = url → b.val.url = url →
      SharesAdmission a.val b.val ∧ SharesProtocol a.val b.val) := by
  intro table
  have hpublished := ManagedRouteTable.published_run cbConfig heap calls
  refine forall₂_congr fun a b => forall₄_congr fun ha hb haurl hburl => ?_
  have hurl : a.val.url = b.val.url := haurl.trans hburl.symm
  rw [sharesVerdict_iff (hpublished.parsed ha) (hpublished.parsed hb) hurl]
  exact and_iff_right (hpublished.healthTracker_eq_of_url_eq ha hb hurl)

end Tables

section Examples

attribute [local instance] Platform.plain

def sharedBackend : List (Update ℚ × List (Target ℚ)) :=
  [(.loadStatic [exampleDef .static .add "web" "http://10.0.0.1:80/"], []),
    (.updateServices [exampleDef .consulService .add "web" "http://10.0.0.1:80/"], [])]

/-- The static target is the one that is probed and its probe is refused; a probe of the Consul
target would pass. -/
theorem probe_verdicts_shared_sharedBackend :
    let table := ((ManagedRouteTable.new none .empty).run sharedBackend).table
    ∃ a b, table.allTargets = [a] ∧ table.HasTarget a ∧ table.HasTarget b ∧
      a.val.url = b.val.url ∧ a.val.healthTracker = b.val.healthTracker ∧
      a.val.admitted = false ∧ b.val.admitted = true ∧
      ∃ env : ProbeEnv ℚ, env.Lawful a.val ∧
        ∀ config, env.probe config a.val = false ∧ env.probe config b.val = true := by
  intro table
  have hprobed : table.allTargets.map (fun t => (t.val.url, t.val.healthTracker, t.val.admitted)) =
      [("http://10.0.0.1:80/", 1, false)] := by
    decide +kernel
  have hhost : table.allTargets.map (fun t => t.val.upstreamHost) = ["10.0.0.1"] := by
    decide +kernel
  have hother : ("http://10.0.0.1:80/", 1, true, false) ∈ table.targets.map fun t =>
      (t.val.url, t.val.healthTracker, t.val.admitted, t.val.blocks ⟨.v4 ⟨10, 0, 0, 1⟩, 80⟩) := by
    decide +kernel
  obtain ⟨a, ha⟩ : ∃ a, table.allTargets = [a] := by
    apply List.length_eq_one_iff.mp
    simpa using congrArg List.length hprobed
  simp only [ha, List.map_cons, List.map_nil, List.cons.injEq, Prod.mk.injEq, and_true]
    at hprobed hhost
  obtain ⟨haurl, hatracker, hadmitted⟩ := hprobed
  obtain ⟨b, hb, hbfields⟩ := List.mem_map.mp hother
  simp only [Prod.mk.injEq] at hbfields
  obtain ⟨hburl, hbtracker, hadmitted', hblocks⟩ := hbfields
  have hwellFormed : table.WellFormed :=
    (ManagedRouteTable.published_run none .empty sharedBackend).wellFormed
  refine ⟨a, b, ha, hwellFormed.allTargets_sub a (by simp [ha]), Table.mem_targets_iff.mp hb,
    haurl.trans hburl.symm, hatracker.trans hbtracker.symm, hadmitted, hadmitted',
    answeringWith (.v4 ⟨10, 0, 0, 1⟩), ?_, ?_⟩
  · apply lawful_answeringWith
    have hparse : IpAddr.parse "10.0.0.1" = some (.v4 ⟨10, 0, 0, 1⟩) := by decide +kernel
    rw [hhost, hparse]
    exact fun ip h => Option.some.inj h
  · intro config
    constructor
    · exact ProbeEnv.probe_of_refused _ config hadmitted
    · rw [probe_answeringWith hadmitted', hblocks]
      rfl

end Examples

end SentirumLb
