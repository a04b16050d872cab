import SentirumLb.Consul.Published
import SentirumLb.Proxy.ProbeVerdict
import SentirumLb.Route.HeaderOption
import SentirumLb.Route.StandardUrls

/-! # Where registered instances are dialled

A tag turns the address and the port of an instance into a URL, which the target takes
apart again. An IPv6 address does not come back, for it goes into the URL without
brackets, and neither does port 80 when the `proto` option asks for TLS in a way that
leaves the URL with the scheme `http`.
-/

namespace SentirumLb

namespace Consul

def schemeFor (opts : Opts) : String :=
  match opts.lookup "proto" with
  | some "https" => "https"
  | some "grpc" => "grpc"
  | some "grpcs" => "grpcs"
  | some "tcp" => "tcp"
  | _ => "http"

theorem schemeFor_cases (opts : Opts) :
    (∃ proto, opts.lookup "proto" = some proto ∧ schemeFor opts = proto ∧
      (proto = "https" ∨ proto = "grpc" ∨ proto = "grpcs" ∨ proto = "tcp")) ∨
    (schemeFor opts = "http" ∧ ∀ proto, opts.lookup "proto" = some proto →
      proto ≠ "https" ∧ proto ≠ "grpc" ∧ proto ≠ "grpcs" ∧ proto ≠ "tcp") := by
  unfold schemeFor
  split
  case h_1 h => exact Or.inl ⟨_, h, rfl, by simp⟩
  case h_2 h => exact Or.inl ⟨_, h, rfl, by simp⟩
  case h_3 h => exact Or.inl ⟨_, h, rfl, by simp⟩
  case h_4 h => exact Or.inl ⟨_, h, rfl, by simp⟩
  case h_5 h₁ h₂ h₃ h₄ =>
    refine Or.inr ⟨rfl, fun proto hproto => ?_⟩
    refine ⟨?_, ?_, ?_, ?_⟩ <;> rintro rfl <;> contradiction

theorem schemeFor_mem (opts : Opts) :
    schemeFor opts ∈ ["http", "https", "grpc", "grpcs", "tcp"] := by
  rcases schemeFor_cases opts with ⟨proto, -, hscheme, rfl | rfl | rfl | rfl⟩ | ⟨hscheme, -⟩ <;>
    simp [hscheme]

variable {W : Type} [WeightText W]

theorem schemeFor_congr {opts opts' : Opts} (h : opts.lookup "proto" = opts'.lookup "proto") :
    schemeFor opts = schemeFor opts' := by
  unfold schemeFor
  rw [h]

theorem lookup_proto_parseTag {config : ConsulConfig} {tag address service src rawOpts : String}
    {port : UInt16} (htag : parseUrlprefixTag tag config.tagPrefix = some (src, rawOpts))
    {d : RouteDef W} (hd : parseTag config tag address port service = some d) :
    d.opts.lookup "proto" = (parseOpts rawOpts).lookup "proto" := by
  rw [parseTag, htag, Option.map_some, Option.some.injEq] at hd
  subst hd
  dsimp only
  rw [AssocMap.lookup_retain]
  cases (parseOpts rawOpts).lookup "proto" <;> rfl

theorem isUrlFor_parseTag {config : ConsulConfig} {tag address service : String} {port : UInt16}
    {d : RouteDef W} (hd : parseTag config tag address port service = some d) :
    IsUrlFor (schemeFor d.opts) address port d.dst := by
  obtain ⟨⟨src, rawOpts⟩, htag, hfields⟩ := Option.map_eq_some_iff.mp hd
  rw [schemeFor_congr (lookup_proto_parseTag htag hd)]
  subst hfields
  have hmem := schemeFor_mem (parseOpts rawOpts)
  have hschemes : ∀ scheme ∈ ["http", "https", "grpc", "grpcs", "tcp"], scheme ≠ "" ∧
      scheme ≠ "file" ∧ scheme.toList.all Char.isLower = true := by
    decide +kernel
  obtain ⟨hne, hfile, hlower⟩ := hschemes _ hmem
  constructor
  case isScheme => exact ⟨hne, List.all_eq_true.mp hlower⟩
  case ne_file => exact hfile
  case text =>
    dsimp only
    change ∃ tail, (tail = "" ∨ tail = "/") ∧
      (if schemeFor (parseOpts rawOpts) = "tcp" then
        "tcp://" ++ (address ++ ":" ++ toString port.toNat)
      else schemeFor (parseOpts rawOpts) ++ "://" ++ (address ++ ":" ++ toString port.toNat) ++
        "/") = _
    split
    · next htcp =>
      refine ⟨"", Or.inl rfl, ?_⟩
      rw [htcp, String.append_empty]
      rfl
    · exact ⟨"/", Or.inr rfl, rfl⟩

/-- The `proto` option asks for TLS, but not by a scheme that the URL gets. -/
def TlsOverHttp (opts : Opts) : Prop :=
  ∃ proto protocol, opts.lookup "proto" = some proto ∧ proto ≠ "https" ∧ proto ≠ "grpcs" ∧
    UpstreamProtocol.fromSchemeOrProto proto = some protocol ∧ protocol.usesTls = true

theorem defaultPort_schemeFor (opts : Opts) : UrlSyntax.defaultPort (schemeFor opts) =
    if schemeFor opts = "https" then some 443 else if schemeFor opts = "http" then some 80
    else none := by
  have hmem := schemeFor_mem opts
  generalize schemeFor opts = scheme at hmem
  simp only [List.mem_cons, List.not_mem_nil, or_false] at hmem
  rcases hmem with rfl | rfl | rfl | rfl | rfl <;> decide

theorem schemeFor_eq_https_iff (opts : Opts) :
    schemeFor opts = "https" ↔ opts.lookup "proto" = some "https" := by
  rcases schemeFor_cases opts with ⟨proto, hproto, hscheme, -⟩ | ⟨hscheme, hother⟩
  · rw [hproto, hscheme, Option.some.injEq]
  · rw [hscheme]
    exact iff_of_false (by decide) fun h => (hother _ h).1 rfl

theorem usesTls_iff_of_http {opts : Opts} (h : schemeFor opts = "http") {url : Url}
    (hscheme : url.scheme = "http") : (protocolFor opts url).usesTls = true ↔ TlsOverHttp opts := by
  have hhttp : UpstreamProtocol.fromSchemeOrProto "http" = some .http := by decide
  have hother : ∀ proto, opts.lookup "proto" = some proto →
      proto ≠ "https" ∧ proto ≠ "grpcs" := by
    rcases schemeFor_cases opts with ⟨proto, -, hproto, hfour⟩ | ⟨-, hother⟩
    · rw [h] at hproto
      subst hproto
      exact absurd hfour (by decide)
    · exact fun proto hproto => ⟨(hother proto hproto).1, (hother proto hproto).2.2.1⟩
  unfold protocolFor TlsOverHttp
  rw [hscheme, hhttp]
  cases hlookup : opts.lookup "proto" with
  | none => simp [UpstreamProtocol.usesTls]
  | some proto =>
    obtain ⟨hhttps, hgrpcs⟩ := hother proto hlookup
    cases hprotocol : UpstreamProtocol.fromSchemeOrProto proto with
    | none => simp [hprotocol, UpstreamProtocol.usesTls]
    | some protocol => simp [hprotocol, hhttps, hgrpcs]

theorem TlsOverHttp.schemeFor_eq {opts : Opts} (h : TlsOverHttp opts) :
    schemeFor opts = "http" := by
  obtain ⟨proto, protocol, hproto, hhttps, hgrpcs, hprotocol, htls⟩ := h
  rcases schemeFor_cases opts with ⟨_, hproto', -, rfl | rfl | rfl | rfl⟩ | ⟨hscheme, -⟩
  · exact absurd (Option.some.inj (hproto.symm.trans hproto')) hhttps
  · cases hproto.symm.trans hproto'
    cases hprotocol.symm.trans (by decide : _ = some UpstreamProtocol.grpc)
    cases htls
  · exact absurd (Option.some.inj (hproto.symm.trans hproto')) hgrpcs
  · cases hproto.symm.trans hproto'
    cases hprotocol.symm.trans (by decide : _ = some UpstreamProtocol.tcp)
    cases htls
  · exact hscheme

theorem port_getD_eq_iff (opts : Opts) (port : UInt16) {url : Url} {host : String}
    (hurl : url = Url.ofParts ⟨schemeFor opts, some host,
      if UrlSyntax.defaultPort (schemeFor opts) = some port then none else some port⟩) :
    url.port.getD (if protocolFor opts url = .tcp then url.portOrKnownDefault.getD 80
      else if (protocolFor opts url).usesTls then 443 else 80) = port ↔
      ¬(port = 80 ∧ TlsOverHttp opts) := by
  have hscheme : url.scheme = schemeFor opts := by rw [hurl, Url.ofParts]
  by_cases hdefault : UrlSyntax.defaultPort (schemeFor opts) = some port
  · have hport : url.port = none := by rw [hurl, Url.ofParts, if_pos hdefault]
    have hknown : url.portOrKnownDefault = some port := by
      rw [hurl, Url.ofParts, if_pos hdefault]
      exact hdefault
    rw [hport, hknown, Option.getD_none, Option.getD_some]
    rw [defaultPort_schemeFor] at hdefault
    split at hdefault
    · next hhttps =>
      cases hdefault
      have hprotocol : protocolFor opts url = .https := by
        have hfrom : UpstreamProtocol.fromSchemeOrProto "https" = some .https := by decide
        rw [protocolFor, (schemeFor_eq_https_iff opts).mp hhttps, Option.bind_some, hfrom]
        rfl
      simp [hprotocol, UpstreamProtocol.usesTls]
    · split at hdefault
      · next hhttp =>
        cases hdefault
        have htls := usesTls_iff_of_http hhttp (hscheme.trans hhttp)
        by_cases htcp : protocolFor opts url = .tcp
        · rw [htcp] at htls ⊢
          simpa [UpstreamProtocol.usesTls] using htls
        · rw [if_neg htcp, ← htls]
          cases (protocolFor opts url).usesTls <;> decide
      · cases hdefault
  · have hport : url.port = some port := by rw [hurl, Url.ofParts, if_neg hdefault]
    rw [hport, Option.getD_some]
    refine iff_of_true rfl ?_
    rintro ⟨rfl, htls⟩
    rw [defaultPort_schemeFor, htls.schemeFor_eq] at hdefault
    exact hdefault (by decide)

theorem trimMatches_of_isHostChar {s : String} (h : ∀ c ∈ s.toList, IsHostChar c) :
    Text.trimMatches ['[', ']'] s = s :=
  Text.trimMatches_eq_self fun c hc => by simpa using (h c hc).ne.2

section Dial

variable [Platform]

variable (W) in
/-- Whatever the tag of the instance asks for, its target goes to the address and the port that are
registered. -/
def DialledAsRegistered (config : ConsulConfig) (inst : CatalogService) (service tag : String) :
    Prop :=
  ∀ d : RouteDef W, parseTag config tag inst.routeAddress inst.servicePort service = some d →
    ∀ shared,
      Text.eqIgnoreAsciiCase (Table.targetOf shared d).upstreamHost inst.routeAddress = true ∧
      (Table.targetOf shared d).upstreamPort = inst.servicePort

variable {IsALabel : String → Prop} {parseHost : Bool → String → Option String}

theorem dialled_host (hurls : StandardUrls IsALabel parseHost) {address : String}
    (hhost : IsRegisteredHost IsALabel address) (hv6 : ∀ a : Ipv6Addr, address ≠ a.toText)
    {port : UInt16} {d : RouteDef W} (hurl : IsUrlFor (schemeFor d.opts) address port d.dst)
    (shared : SharedRefs) :
    Text.eqIgnoreAsciiCase (Table.targetOf shared d).upstreamHost address = true ∧
      ((Table.targetOf shared d).upstreamPort = port ↔ ¬(port = 80 ∧ TlsOverHttp d.opts)) := by
  obtain ⟨hne, hchars, hparse⟩ :=
    hurls.parseHost_eq hhost hv6 (UrlSyntax.isSpecial (schemeFor d.opts))
  have hplatform := hurls.urlParse_of_host hurl hne hchars
  rw [hparse, Option.map_some] at hplatform
  have hparsed := Table.parsed_targetOf shared d
  have htarget : Platform.urlParse (Table.targetOf shared d).url = _ :=
    (congrArg Platform.urlParse (Table.targetOf_url shared d)).trans hplatform
  constructor
  · have hhostChars : ∀ c ∈ (if UrlSyntax.isSpecial (schemeFor d.opts) then
        Text.toAsciiLowercase address else address).toList, IsHostChar c := by
      split
      · intro c hc
        rw [Text.toAsciiLowercase, String.toList_ofList] at hc
        obtain ⟨x, hx, rfl⟩ := List.mem_map.mp hc
        exact (hchars x hx).toLower
      · exact hchars
    have htrim := trimMatches_of_isHostChar hhostChars
    rw [hparsed.upstreamHost_eq, urlHost, htarget]
    simp only [Url.ofParts, Option.bind_some, Option.map_some, Option.getD_some, htrim]
    rw [Text.eqIgnoreAsciiCase, beq_iff_eq]
    split
    · exact Text.toAsciiLowercase_of_isAsciiLowercase (Text.isAsciiLowercase_toAsciiLowercase _)
    · rfl
  · rw [hparsed.upstreamPort_eq htarget, targetOf_opts]
    exact port_getD_eq_iff d.opts port rfl

theorem dialled_ipv6 (hurls : StandardUrls IsALabel parseHost) {a : Ipv6Addr} {scheme : String}
    {port : UInt16} {d : RouteDef W} (hurl : IsUrlFor scheme a.toText port d.dst)
    (shared : SharedRefs) : (Table.targetOf shared d).upstreamHost = "127.0.0.1" := by
  have hchars : ∀ c ∈ a.toText.toList, IsHostChar c ∨ c = ':' := by
    intro c hc
    have hchar := a.isV6Char_toText c hc
    unfold IpParser.IsV6Char IpParser.IsV4Char at hchar
    unfold IsHostChar
    tauto
  have hplatform := hurls.urlParse_of_colons hurl hchars a.colon_mem_toText
  rw [(Table.parsed_targetOf shared d).upstreamHost_eq, Table.targetOf_url, urlHost, hplatform]
  rfl

/-- A definition for an address and a port has its target go there, unless the address is an IPv6
address, or the port is 80 and the `proto` option asks for TLS over a URL with the scheme `http`. -/
theorem dialled_iff (hurls : StandardUrls IsALabel parseHost) {address : String}
    (hhost : IsRegisteredHost IsALabel address) {port : UInt16} {d : RouteDef W}
    (hurl : IsUrlFor (schemeFor d.opts) address port d.dst) (shared : SharedRefs) :
    (Text.eqIgnoreAsciiCase (Table.targetOf shared d).upstreamHost address = true ∧
        (Table.targetOf shared d).upstreamPort = port) ↔
      (∀ a : Ipv6Addr, address ≠ a.toText) ∧ ¬(port = 80 ∧ TlsOverHttp d.opts) := by
  constructor
  · rintro ⟨hsame, hport⟩
    have hv6 : ∀ a : Ipv6Addr, address ≠ a.toText := by
      rintro a rfl
      rw [dialled_ipv6 hurls hurl, Text.eqIgnoreAsciiCase, beq_iff_eq] at hsame
      have hcolon : ':' ∈ (Text.toAsciiLowercase a.toText).toList := by
        rw [Text.toAsciiLowercase, String.toList_ofList]
        exact List.mem_map.mpr ⟨':', a.colon_mem_toText, by decide⟩
      rw [← hsame] at hcolon
      exact absurd hcolon (by decide +kernel)
    exact ⟨hv6, (dialled_host hurls hhost hv6 hurl shared).2.mp hport⟩
  · rintro ⟨hv6, hport⟩
    obtain ⟨hsame, hiff⟩ := dialled_host hurls hhost hv6 hurl shared
    exact ⟨hsame, hiff.mpr hport⟩

/-- Every definition that a snapshot publishes is for an instance, and its target goes there under
the same condition. -/
theorem exists_dialled_iff_of_mem_processChecks (hurls : StandardUrls IsALabel parseHost)
    {config : ConsulConfig} {catalog : Catalog} {checks : List HealthCheck} {tagPrefix : String}
    {defs : List (RouteDef W)} (hdefs : processChecks config catalog checks tagPrefix = .ok defs)
    {d : RouteDef W} (hd : d ∈ defs) (shared : SharedRefs) :
    ∃ service inst, Published config catalog checks tagPrefix service inst d ∧
      (IsRegisteredHost IsALabel inst.routeAddress →
        ((Text.eqIgnoreAsciiCase (Table.targetOf shared d).upstreamHost inst.routeAddress = true ∧
            (Table.targetOf shared d).upstreamPort = inst.servicePort) ↔
          (∀ a : Ipv6Addr, inst.routeAddress ≠ a.toText) ∧
            ¬(inst.servicePort = 80 ∧ TlsOverHttp d.opts))) := by
  obtain ⟨service, inst, hpublished⟩ := (mem_processChecks_iff hdefs).mp hd
  obtain ⟨tag, -, -, htag⟩ := hpublished.brought
  exact ⟨service, inst, hpublished, fun hhost => dialled_iff hurls hhost (isUrlFor_parseTag htag)
    shared⟩

/-- A registered instance is dialled as it is registered, unless its address is an IPv6 address, or
its port is 80 and the `proto` option asks for TLS over a URL that has the scheme `http`. -/
theorem dialledAsRegistered_iff (hurls : StandardUrls IsALabel parseHost) (config : ConsulConfig)
    {inst : CatalogService} (hhost : IsRegisteredHost IsALabel inst.routeAddress)
    (service : String) {tag src rawOpts : String}
    (htag : parseUrlprefixTag tag config.tagPrefix = some (src, rawOpts)) :
    DialledAsRegistered W config inst service tag ↔
      (∀ a : Ipv6Addr, inst.routeAddress ≠ a.toText) ∧
        ¬(inst.servicePort = 80 ∧ TlsOverHttp (parseOpts rawOpts)) := by
  have hopts : ∀ d : RouteDef W,
      parseTag config tag inst.routeAddress inst.servicePort service = some d →
      (TlsOverHttp d.opts ↔ TlsOverHttp (parseOpts rawOpts)) := by
    intro d hd
    rw [TlsOverHttp, lookup_proto_parseTag htag hd, TlsOverHttp]
  obtain ⟨d, hd⟩ : ∃ d : RouteDef W,
      parseTag config tag inst.routeAddress inst.servicePort service = some d := by
    rw [parseTag, htag]
    exact ⟨_, rfl⟩
  constructor
  · intro h
    have hdialled := (dialled_iff hurls hhost (isUrlFor_parseTag hd) default).mp (h d hd default)
    rwa [hopts d hd] at hdialled
  · intro h d hd shared
    rw [← hopts d hd] at h
    exact (dialled_iff hurls hhost (isUrlFor_parseTag hd) shared).mpr h

end Dial

section Examples

attribute [local instance] Platform.standard RouteParser.wholeWeights

def exampleInstance (serviceAddress : String) (servicePort : UInt16) : CatalogService where
  id := "api-1"
  node := "node-1"
  address := "10.0.0.9"
  serviceAddress := serviceAddress
  servicePort := servicePort
  serviceTags := []

def dialled (inst : CatalogService) (tag : String) : Option (String × UInt16) :=
  (parseTag {} tag inst.routeAddress inst.servicePort "api" : Option (RouteDef ℚ)).map fun d =>
    ((Table.targetOf default d).upstreamHost, (Table.targetOf default d).upstreamPort)

theorem not_dialledAsRegistered_of_ne {inst : CatalogService} {tag host : String} {port : UInt16}
    (h : dialled inst tag = some (host, port)) (hne : port ≠ inst.servicePort) :
    ¬DialledAsRegistered ℚ {} inst "api" tag := by
  intro hall
  obtain ⟨d, hd, hdialled⟩ := Option.map_eq_some_iff.mp h
  exact hne ((Prod.ext_iff.mp hdialled).2.symm.trans (hall d hd default).2)

/-- An IPv6 address is dialled as the machine itself, and port 80 as port 443 for `wss`. -/
theorem not_dialledAsRegistered_ipv6 :
    ¬DialledAsRegistered ℚ {} (exampleInstance (Ipv6Addr.mk 0x2001 0xdb8 0 0 0 0 0 1).toText 8080)
        "api" "urlprefix-/api" ∧
      dialled (exampleInstance (Ipv6Addr.mk 0x2001 0xdb8 0 0 0 0 0 1).toText 8080)
        "urlprefix-/api" = some ("127.0.0.1", 80) ∧
      ¬DialledAsRegistered ℚ {} (exampleInstance (Ipv4Addr.mk 10 0 0 1).toText 80)
        "api" "urlprefix-/api proto=wss" ∧
      dialled (exampleInstance (Ipv4Addr.mk 10 0 0 1).toText 80) "urlprefix-/api proto=wss" =
        some ("10.0.0.1", 443) := by
  have hipv6 : dialled (exampleInstance (Ipv6Addr.mk 0x2001 0xdb8 0 0 0 0 0 1).toText 8080)
      "urlprefix-/api" = some ("127.0.0.1", 80) := by
    decide +kernel
  have hwss : dialled (exampleInstance (Ipv4Addr.mk 10 0 0 1).toText 80)
      "urlprefix-/api proto=wss" = some ("10.0.0.1", 443) := by
    decide +kernel
  exact ⟨not_dialledAsRegistered_of_ne hipv6 (by decide), hipv6,
    not_dialledAsRegistered_of_ne hwss (by decide), hwss⟩

/-- The default port of a scheme is left out of the URL, and comes back. -/
theorem dialledAsRegistered_https :
    DialledAsRegistered ℚ {} (exampleInstance (Ipv4Addr.mk 10 0 0 1).toText 443) "api"
      "urlprefix-/api proto=https" := by
  have htag : parseUrlprefixTag "urlprefix-/api proto=https" "urlprefix-" =
      some ("/api", "proto=https") := by
    decide +kernel
  refine (dialledAsRegistered_iff (standardUrls_standard fun _ => False) {} (.ipv4 _) "api"
    htag).mpr ⟨fun a ha => ?_, ?_⟩
  · have hcolon := a.colon_mem_toText
    rw [← ha] at hcolon
    exact absurd hcolon (by decide +kernel)
  · rintro ⟨hport, -⟩
    exact absurd hport (by decide)

end Examples

end Consul

end SentirumLb
