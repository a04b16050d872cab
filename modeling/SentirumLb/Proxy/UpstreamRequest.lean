import SentirumLb.Config.Validation
import SentirumLb.Proxy.Authority
import SentirumLb.Proxy.ClientCert
import SentirumLb.Proxy.Rewrite

/-! # The request sent upstream

The upstream request starts as a copy of the client's. What is written over the
copy, and what is taken out of it, decides what a client can make the upstream
believe. When the peer is not trusted and has an address, nothing gets through
that the client says about itself.
-/

namespace SentirumLb

open Http

variable {W : Type}

structure DownstreamSession where
  header : RequestHeader
  peer : Option PeerIp
  tls : Option TlsSession

structure UpstreamRequest where
  uri : Uri
  headers : Headers

def UpstreamProtocol.requiresHttp2 : UpstreamProtocol → Bool
  | .grpc | .grpcs => true
  | _ => false

def Target.requiresHttp2 (t : Target W) : Bool := t.parsedProtocol.requiresHttp2

def insertRequestId [HeaderNames] (requestIdHeader requestId : String) (upstream : Headers) :
    Except String Headers :=
  if requestIdHeader = "" then pure upstream
  else if HeaderNames.isValid requestIdHeader then
    insertHeader (Text.toAsciiLowercase requestIdHeader) requestId upstream
  else .error s!"invalid header name {requestIdHeader}"

/-- The client's host is replaced for a target that overrides it or needs HTTP/2. -/
def insertHost (t : Target W) (upstream : Headers) : Except String Headers :=
  if t.requiresHttp2 || t.hostOverride.isSome then
    insertHeader "host" t.upstreamAuthority upstream
  else pure upstream

def addressTo [HttpUri] (pickedTarget : Option (Target W)) (upstream : UpstreamRequest) :
    Except String UpstreamRequest :=
  match pickedTarget with
  | none => pure upstream
  | some t => do
      let headers ← insertHost t upstream.headers
      return ⟨(rewriteUpstreamUri upstream.uri t).getD upstream.uri, headers⟩

def prepareUpstreamRequest [HeaderNames] [HttpUri] (config : ProxyConfig) (requestId : String)
    (session : DownstreamSession) (upstream : UpstreamRequest) (pickedTarget : Option (Target W))
    (trustedProxies : List CidrRange) (cache : ClientCertIdentityCache) :
    Except String UpstreamRequest × ClientCertIdentityCache :=
  let forwarded := do
    let headers ← insertRequestId config.requestIdHeader requestId upstream.headers
    appendForwardedHeaders session.header headers session.tls.isSome
      (session.peer.map PeerIp.text) trustedProxies
  match forwarded with
  | .error e => (.error e, cache)
  | .ok headers =>
      let ((headers, written), cache) := appendClientCertificateHeaders session.tls headers cache
      (written.bind fun _ => addressTo pickedTarget ⟨upstream.uri, headers⟩, cache)

/-! ## An untrusted peer -/

/-- The headers that an upstream reads to learn who the client is. -/
def clientHeaders : List String := clientIdentityNames ++ clientCertHeaders

def announce (host : String) (p : PeerIp) (downstreamIsTls : Bool) (upstream : Headers) :
    Headers :=
  let upstream := (upstream.insert "x-forwarded-for" p.value).remove "cf-connecting-ip"
  let upstream :=
    if host ≠ "" then upstream.insert "x-forwarded-host" ⟨Text.bytes host⟩ else upstream
  upstream.insert "x-forwarded-proto" ⟨Text.bytes (if downstreamIsTls then "https" else "http")⟩

theorem appendForwardedHeaders_of_untrusted {p : PeerIp} {trustedProxies : List CidrRange}
    (h : isTrustedProxy p.text trustedProxies = false) (r : RequestHeader) (upstream : Headers)
    (downstreamIsTls : Bool) :
    appendForwardedHeaders r upstream downstreamIsTls (some p.text) trustedProxies =
      .ok (announce ((r.text "host").getD "") p downstreamIsTls upstream) := by
  have hpeer : IsHeaderText p.text := isHeaderText_peer (some p)
  have hhost : IsHeaderText ((r.text "host").getD "") := isHeaderText_getD (by decide +kernel)
  have hproto : IsHeaderText (if downstreamIsTls then "https" else "http") := by
    cases downstreamIsTls <;> decide +kernel
  simp only [appendForwardedHeaders, Option.getD_some, h, forwardedFor, forwardedProto,
    forwardConnectingIp, Bool.false_eq_true, if_false, insertUnlessEmpty, if_pos p.nonempty,
    insertHeader_eq hpeer, insertHeader_eq hproto]
  by_cases hempty : (r.text "host").getD "" = ""
  · simp only [hempty, ne_eq, not_true_eq_false, if_false]
    rfl
  · simp only [ne_eq, hempty, not_false_eq_true, if_true, insertHeader_eq hhost, announce]
    rfl

theorem agreeBut_announce {upstream upstream' : Headers}
    (ha : Headers.AgreeBut clientHeaders upstream upstream') (host : String) (p : PeerIp)
    (downstreamIsTls : Bool) :
    Headers.AgreeBut clientCertHeaders (announce host p downstreamIsTls upstream)
      (announce host p downstreamIsTls upstream') := by
  have hcf := (ha.insert "x-forwarded-for" p.value).remove "cf-connecting-ip"
  by_cases hempty : host = ""
  · simp only [announce, hempty, ne_eq, not_true_eq_false, if_false]
    exact (hcf.insert "x-forwarded-proto" _).mono (by decide)
  · simp only [announce, hempty, ne_eq, not_false_eq_true, if_true]
    exact ((hcf.insert "x-forwarded-host" _).insert "x-forwarded-proto" _).mono (by decide)

theorem clientIdentity_announce (host : String) (p : PeerIp) (downstreamIsTls : Bool)
    (upstream : Headers) :
    clientIdentity (announce host p downstreamIsTls upstream) =
      [[p.value], [⟨Text.bytes (if downstreamIsTls then "https" else "http")⟩], []] := by
  by_cases hempty : host = "" <;> simp [clientIdentity, clientIdentityNames, announce, hempty]

/-! ## What is written behind the announcement -/

theorem insertRequestId_agree [HeaderNames] {names : List String} {upstream upstream' : Headers}
    (ha : Headers.AgreeBut names upstream upstream') (requestIdHeader requestId : String) :
    (∃ e, insertRequestId requestIdHeader requestId upstream = .error e ∧
      insertRequestId requestIdHeader requestId upstream' = .error e) ∨
    ∃ out out', insertRequestId requestIdHeader requestId upstream = .ok out ∧
      insertRequestId requestIdHeader requestId upstream' = .ok out' ∧
      Headers.AgreeBut names out out' := by
  unfold insertRequestId insertHeader
  split
  · exact .inr ⟨upstream, upstream', rfl, rfl, ha⟩
  · split
    · cases HeaderValue.fromStr requestId with
      | none => exact .inl ⟨_, rfl, rfl⟩
      | some v => exact .inr ⟨_, _, rfl, rfl, (ha.insert _ v).mono List.filter_sublist.subset⟩
    · exact .inl ⟨_, rfl, rfl⟩

theorem getAll_insertHost {t : Target W} {upstream out : Headers} {name : String}
    (hname : name ≠ "host") (h : insertHost t upstream = .ok out) :
    out.getAll name = upstream.getAll name := by
  unfold insertHost insertHeader at h
  split at h
  · cases hv : HeaderValue.fromStr t.upstreamAuthority with
    | none => rw [hv] at h; cases h
    | some v =>
      rw [hv] at h
      cases h
      exact Headers.getAll_insert_ne hname upstream
  · cases h
    rfl

theorem addressTo_of_bind [HttpUri] {written : Except String Unit}
    {pickedTarget : Option (Target W)} {upstream out : UpstreamRequest}
    (h : (written.bind fun _ => addressTo pickedTarget upstream) = .ok out) :
    addressTo pickedTarget upstream = .ok out := by
  cases written with
  | error e => cases h
  | ok => exact h

theorem getAll_addressTo [HttpUri] {pickedTarget : Option (Target W)}
    {upstream out : UpstreamRequest} {name : String} (hname : name ≠ "host")
    (h : addressTo pickedTarget upstream = .ok out) :
    out.headers.getAll name = upstream.headers.getAll name := by
  cases pickedTarget with
  | none => cases h; rfl
  | some t =>
    cases hhost : insertHost t upstream.headers with
    | error e => simp only [addressTo, hhost, bind, Except.bind, reduceCtorEq] at h
    | ok headers =>
      simp only [addressTo, hhost, bind, Except.bind] at h
      cases h
      exact getAll_insertHost hname hhost

section Host

variable {headers out : Headers}
  (h : ∀ name, name ≠ "host" → out.getAll name = headers.getAll name)

include h

theorem clientIdentity_congr : clientIdentity out = clientIdentity headers := by
  have hhost : "host" ∉ clientIdentityNames := by decide
  exact List.map_congr_left fun name hname => h name fun heq => hhost (heq ▸ hname)

theorem assertsIdentity_congr : AssertsIdentity out ↔ AssertsIdentity headers := by
  have hhost : "host" ∉ clientCertHeaders := by decide
  refine exists_congr fun name => and_congr_right fun hname => ?_
  rw [h name fun heq => hhost (heq ▸ hname)]

end Host

theorem appendClientCertificateHeaders_congr {upstream upstream' : Headers}
    (ha : Headers.AgreeBut clientCertHeaders upstream upstream') (session : Option TlsSession)
    (cache : ClientCertIdentityCache) :
    appendClientCertificateHeaders session upstream cache =
      appendClientCertificateHeaders session upstream' cache := by
  unfold Headers.AgreeBut at ha
  unfold appendClientCertificateHeaders
  rw [ha]

theorem clientIdentity_appendClientCertificateHeaders (session : Option TlsSession)
    (upstream : Headers) (cache : ClientCertIdentityCache) :
    clientIdentity (appendClientCertificateHeaders session upstream cache).1.1 =
      clientIdentity upstream := by
  have hname : ∀ name ∈ clientIdentityNames,
      (appendClientCertificateHeaders session upstream cache).1.1.getAll name =
        upstream.getAll name := by
    intro name hname
    have hdisjoint : ∀ n ∈ clientIdentityNames, n ∉ clientCertHeaders := by decide
    have hcert : name ∉ clientCertHeaders := hdisjoint name hname
    unfold appendClientCertificateHeaders writeIdentity
    dsimp only
    split
    · exact Headers.getAll_without hcert upstream
    · rw [getAll_insertHeaders, Headers.getAll_without hcert]
      intro f hf heq
      refine hcert ?_
      simp only [ClientCertIdentity.headers, List.mem_cons, List.not_mem_nil, or_false] at hf
      rcases hf with rfl | rfl | rfl | rfl | rfl | rfl | rfl <;> simp [heq, clientCertHeaders]
  exact List.map_congr_left hname

/-! ## The whole request -/

theorem text_eq_of_sameBut {names : List String} {r r' : RequestHeader} {name : String}
    (h : SameBut names r r') (hname : name ∉ names) : r.text name = r'.text name := by
  rw [RequestHeader.text, RequestHeader.text, Headers.get, Headers.get,
    ← Headers.getAll_without hname r.headers, ← Headers.getAll_without hname r'.headers, h.2]

section Untrusted

variable [HeaderNames] [HttpUri] {config : ProxyConfig} {requestId : String} {p : PeerIp}
  {trustedProxies : List CidrRange}

theorem prepareUpstreamRequest_of_ok {r : RequestHeader} {tls : Option TlsSession}
    {upstream : UpstreamRequest} {headers : Headers}
    (h : isTrustedProxy p.text trustedProxies = false)
    (hid : insertRequestId config.requestIdHeader requestId upstream.headers = .ok headers)
    (pickedTarget : Option (Target W)) (cache : ClientCertIdentityCache) :
    let announced := announce ((r.text "host").getD "") p tls.isSome headers
    let appended := appendClientCertificateHeaders tls announced cache
    prepareUpstreamRequest config requestId ⟨r, some p, tls⟩ upstream pickedTarget trustedProxies
        cache =
      (appended.1.2.bind fun _ => addressTo pickedTarget ⟨upstream.uri, appended.1.1⟩,
        appended.2) := by
  intro announced appended
  simp only [prepareUpstreamRequest, hid, bind, Except.bind, Option.map_some,
    appendForwardedHeaders_of_untrusted h]
  rfl

theorem prepareUpstreamRequest_of_error {session : DownstreamSession} {upstream : UpstreamRequest}
    {e : String}
    (hid : insertRequestId config.requestIdHeader requestId upstream.headers = .error e)
    (pickedTarget : Option (Target W)) (cache : ClientCertIdentityCache) :
    prepareUpstreamRequest config requestId session upstream pickedTarget trustedProxies cache =
      (.error e, cache) := by
  simp only [prepareUpstreamRequest, hid, bind, Except.bind]

/-- Two requests of an untrusted peer that differ in what they say about the client are sent
upstream as one and the same. The upstream reads the address of the peer, and it reads of a
certificate just when the identity of the session counts as verified. -/
theorem prepareUpstreamRequest_of_untrusted
    (h : isTrustedProxy p.text trustedProxies = false) {r r' : RequestHeader}
    (hr : SameBut clientHeaders r r') (tls : Option TlsSession) (uri : Uri)
    (pickedTarget : Option (Target W)) (cache : ClientCertIdentityCache) :
    let result (r : RequestHeader) := prepareUpstreamRequest config requestId ⟨r, some p, tls⟩
      ⟨uri, r.headers⟩ pickedTarget trustedProxies cache
    result r = result r' ∧ ∀ out, (result r).1 = .ok out →
      clientIdentity out.headers =
        [[p.value], [⟨Text.bytes (if tls.isSome then "https" else "http")⟩], []] ∧
      (AssertsIdentity out.headers ↔
        ((clientCertificateIdentity tls cache).1.filter (·.verified)).isSome) := by
  intro result
  obtain ⟨e, he, he'⟩ | ⟨headers, headers', hid, hid', ha⟩ :=
    insertRequestId_agree hr.2 config.requestIdHeader requestId
  · have herror : result r = (.error e, cache) := prepareUpstreamRequest_of_error he _ _
    have herror' : result r' = (.error e, cache) := prepareUpstreamRequest_of_error he' _ _
    rw [herror, herror']
    exact ⟨rfl, fun out hout => nomatch hout⟩
  · have hresult : result r = _ := prepareUpstreamRequest_of_ok h hid pickedTarget cache
    have hresult' : result r' = _ := prepareUpstreamRequest_of_ok h hid' pickedTarget cache
    have hhost : r.text "host" = r'.text "host" := text_eq_of_sameBut hr (by decide)
    constructor
    · -- what still differs behind the announcement is stripped with the certificates
      have hstripped := agreeBut_announce ha ((r.text "host").getD "") p tls.isSome
      rw [hresult, hresult', ← hhost, appendClientCertificateHeaders_congr hstripped]
    · intro out hout
      rw [hresult] at hout
      have hout := addressTo_of_bind hout
      have hothers : ∀ name, name ≠ "host" → out.headers.getAll name = _ :=
        fun name hname => getAll_addressTo hname hout
      rw [clientIdentity_congr hothers, assertsIdentity_congr hothers]
      refine ⟨?_, assertsIdentity_append_iff tls _ cache⟩
      rw [clientIdentity_appendClientCertificateHeaders, clientIdentity_announce]

end Untrusted

section Examples

attribute [local instance] tokenNames HttpUri.plain

def examplePeer : PeerIp := ⟨"192.0.2.61", by decide, by decide +kernel⟩

def spoofingRequest : RequestHeader where
  headers := [("x-forwarded-for", ⟨Text.bytes "203.0.113.50"⟩),
    ("accept", ⟨Text.bytes "text/html"⟩), ("x-client-cert-verified", ⟨Text.bytes "true"⟩)]
  authority := none

def honestRequest : RequestHeader := ⟨[("accept", ⟨Text.bytes "text/html"⟩)], none⟩

theorem prepareUpstreamRequest_of_untrusted_spoofingRequest :
    let result (r : RequestHeader) := prepareUpstreamRequest {} "6f1c" ⟨r, some examplePeer, none⟩
      ⟨usersUri, r.headers⟩ (some rewritingTarget) [] {}
    result spoofingRequest = result honestRequest ∧
      (result honestRequest).1.toOption.map (fun out => (out.uri.path, out.headers.getAll "accept"))
        = some ("/v2/users", [⟨Text.bytes "text/html"⟩]) := by
  have huntrusted : isTrustedProxy examplePeer.text [] = false := by decide +kernel
  have hsame : SameBut clientHeaders spoofingRequest honestRequest := ⟨rfl, by decide +kernel⟩
  exact ⟨(prepareUpstreamRequest_of_untrusted huntrusted hsame none usersUri _ _).1,
    by decide +kernel⟩

end Examples

end SentirumLb
