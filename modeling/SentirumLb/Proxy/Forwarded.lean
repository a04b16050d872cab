import SentirumLb.Lib.Headers
import SentirumLb.Net.Cidr

/-! # Forwarded headers

The upstream request starts as a copy of the client's headers, so a header that
tells the upstream who the client is must be overwritten or removed on every
path. A path that writes nothing passes on what the client sent.
-/

namespace SentirumLb

open Http

structure RequestHeader where
  headers : Headers
  authority : Option String

def RequestHeader.text (r : RequestHeader) (name : String) : Option String :=
  (r.headers.get name).bind HeaderValue.toStr

def hostHeader (r : RequestHeader) : String :=
  (((r.text "host").filter (· ≠ "")).or r.authority).getD ""

def insertHeader (name value : String) (upstream : Headers) : Except String Headers :=
  match HeaderValue.fromStr value with
  | some v => .ok (upstream.insert name v)
  | none => .error s!"invalid value of header {name}"

def insertUnlessEmpty (name value : String) (upstream : Headers) : Except String Headers :=
  if value ≠ "" then insertHeader name value upstream else pure upstream

/-- The value for `X-Forwarded-For`: a trusted peer is added to the list it sent. -/
def forwardedFor (downstream : RequestHeader) (peerIp : String) (trusted : Bool) : String :=
  if trusted then
    match downstream.text "x-forwarded-for" with
    | some existing => if peerIp ≠ "" then existing ++ ", " ++ peerIp else existing
    | none => peerIp
  else peerIp

def forwardedProto (downstream : RequestHeader) (downstreamIsTls trusted : Bool) : String :=
  let own := if downstreamIsTls then "https" else "http"
  if trusted then (downstream.text "x-forwarded-proto").getD own else own

/-- The copy of the client's header is overwritten or removed. -/
def forwardConnectingIp (cfIp : Option String) (upstream : Headers) : Except String Headers :=
  match cfIp with
  | some s => insertHeader "cf-connecting-ip" s upstream
  | none => pure (upstream.remove "cf-connecting-ip")

def appendForwardedHeaders (downstream : RequestHeader) (upstream : Headers)
    (downstreamIsTls : Bool) (peerAddr : Option String) (trustedProxies : List CidrRange) :
    Except String Headers := do
  let host := (downstream.text "host").getD ""
  let peerIp := peerAddr.getD ""
  let trusted := isTrustedProxy peerIp trustedProxies
  let upstream ←
    insertUnlessEmpty "x-forwarded-for" (forwardedFor downstream peerIp trusted) upstream
  let upstream ←
    forwardConnectingIp (if trusted then downstream.text "cf-connecting-ip" else none) upstream
  let upstream ← insertUnlessEmpty "x-forwarded-host" host upstream
  insertHeader "x-forwarded-proto" (forwardedProto downstream downstreamIsTls trusted) upstream

structure PeerIp where
  text : String
  nonempty : text ≠ ""
  visible : ∀ b ∈ Text.bytes text, HeaderValue.isVisibleAscii b = true

def PeerIp.value (p : PeerIp) : HeaderValue := ⟨Text.bytes p.text⟩

def forward (downstream : RequestHeader) (downstreamIsTls : Bool) (peer : Option PeerIp)
    (trustedProxies : List CidrRange) : Except String Headers :=
  appendForwardedHeaders downstream downstream.headers downstreamIsTls (peer.map (·.text))
    trustedProxies

/-! ## What is inserted -/

def IsHeaderText (s : String) : Prop := ∀ b ∈ Text.bytes s, HeaderValue.isAllowed b = true

instance (s : String) : Decidable (IsHeaderText s) :=
  inferInstanceAs (Decidable (∀ b ∈ Text.bytes s, HeaderValue.isAllowed b = true))

theorem insertHeader_eq {s : String} (h : IsHeaderText s) (name : String) (upstream : Headers) :
    insertHeader name s upstream = .ok (upstream.insert name ⟨Text.bytes s⟩) := by
  rw [insertHeader, HeaderValue.fromStr, if_pos (List.all_eq_true.mpr h)]

/-- The call succeeds, gives the name these values and leaves all other names. -/
def Sets (name : String) (values : List HeaderValue) (upstream : Headers)
    (result : Except String Headers) : Prop :=
  ∃ out, result = .ok out ∧ out.getAll name = values ∧
    ∀ other, other ≠ name → out.getAll other = upstream.getAll other

theorem sets_insertHeader {s : String} (h : IsHeaderText s) (name : String) (upstream : Headers) :
    Sets name [⟨Text.bytes s⟩] upstream (insertHeader name s upstream) :=
  ⟨_, insertHeader_eq h name upstream, Headers.getAll_insert_self upstream,
    fun _ hne => Headers.getAll_insert_ne hne upstream⟩

theorem sets_insertUnlessEmpty {s : String} (h : IsHeaderText s) (name : String)
    (upstream : Headers) :
    Sets name (if s ≠ "" then [⟨Text.bytes s⟩] else upstream.getAll name) upstream
      (insertUnlessEmpty name s upstream) := by
  unfold insertUnlessEmpty
  split
  · exact sets_insertHeader h name upstream
  · exact ⟨upstream, rfl, rfl, fun _ _ => rfl⟩

theorem sets_forwardConnectingIp {cfIp : Option String}
    (h : ∀ s, cfIp = some s → IsHeaderText s) (upstream : Headers) :
    Sets "cf-connecting-ip" (cfIp.toList.map fun s => ⟨Text.bytes s⟩) upstream
      (forwardConnectingIp cfIp upstream) := by
  cases cfIp with
  | none =>
    refine ⟨_, rfl, Headers.getAll_remove_self _, ?_⟩
    exact fun other hne => Headers.getAll_remove_ne hne _
  | some s => exact sets_insertHeader (h s rfl) _ upstream

theorem isHeaderText_of_text {r : RequestHeader} {name s : String} (h : r.text name = some s) :
    IsHeaderText s := by
  obtain ⟨v, -, hv⟩ := Option.bind_eq_some_iff.mp h
  have hfrom := HeaderValue.fromStr_of_toStr hv
  rw [HeaderValue.fromStr, Option.ite_none_right_eq_some, List.all_eq_true] at hfrom
  exact hfrom.1

theorem isHeaderText_getD {r : RequestHeader} {name own : String} (hown : IsHeaderText own) :
    IsHeaderText ((r.text name).getD own) := by
  cases h : r.text name with
  | none => exact hown
  | some s => exact isHeaderText_of_text h

theorem isHeaderText_append {s t : String} (hs : IsHeaderText s) (ht : IsHeaderText t) :
    IsHeaderText (s ++ t) := by
  intro b hb
  rw [Text.bytes_append, List.mem_append] at hb
  exact hb.elim (hs b) (ht b)

theorem isHeaderText_peer (peer : Option PeerIp) :
    IsHeaderText ((peer.map (·.text)).getD "") := by
  cases peer with
  | none => simp [IsHeaderText, Text.bytes]
  | some p => exact fun b hb => HeaderValue.isAllowed_of_isVisibleAscii (p.visible b hb)

theorem isHeaderText_forwardedFor (downstream : RequestHeader) (peer : Option PeerIp)
    (trusted : Bool) :
    IsHeaderText (forwardedFor downstream ((peer.map (·.text)).getD "") trusted) := by
  have hpeer := isHeaderText_peer peer
  have hcomma : IsHeaderText ", " := by decide +kernel
  unfold forwardedFor
  split
  · split
    · next existing hexisting =>
      have htext := isHeaderText_of_text hexisting
      split
      · exact isHeaderText_append (isHeaderText_append htext hcomma) hpeer
      · exact htext
    · exact hpeer
  · exact hpeer

theorem isHeaderText_forwardedProto (downstream : RequestHeader) (downstreamIsTls trusted : Bool) :
    IsHeaderText (forwardedProto downstream downstreamIsTls trusted) := by
  have hown : IsHeaderText (if downstreamIsTls then "https" else "http") := by
    cases downstreamIsTls <;> decide +kernel
  unfold forwardedProto
  dsimp only
  split
  · exact isHeaderText_getD hown
  · exact hown

theorem forward_eq (downstream : RequestHeader) (downstreamIsTls : Bool) (peer : Option PeerIp)
    (trustedProxies : List CidrRange) :
    let peerIp := (peer.map (·.text)).getD ""
    let trusted := isTrustedProxy peerIp trustedProxies
    let host := (downstream.text "host").getD ""
    let cfIp := if trusted then downstream.text "cf-connecting-ip" else none
    ∃ out, forward downstream downstreamIsTls peer trustedProxies = .ok out ∧
      out.getAll "x-forwarded-for" =
        (if forwardedFor downstream peerIp trusted ≠ "" then
          [⟨Text.bytes (forwardedFor downstream peerIp trusted)⟩]
        else downstream.headers.getAll "x-forwarded-for") ∧
      out.getAll "cf-connecting-ip" = cfIp.toList.map (fun s => ⟨Text.bytes s⟩) ∧
      out.getAll "x-forwarded-host" =
        (if host ≠ "" then [⟨Text.bytes host⟩]
        else downstream.headers.getAll "x-forwarded-host") ∧
      out.getAll "x-forwarded-proto" =
        [⟨Text.bytes (forwardedProto downstream downstreamIsTls trusted)⟩] := by
  intro peerIp trusted host cfIp
  have hfor : IsHeaderText (forwardedFor downstream peerIp trusted) :=
    isHeaderText_forwardedFor downstream peer trusted
  have hhost : IsHeaderText host := isHeaderText_getD (by decide +kernel)
  have hproto := isHeaderText_forwardedProto downstream downstreamIsTls trusted
  have hcf : ∀ s, cfIp = some s → IsHeaderText s := by
    intro s hs
    have htext : downstream.text "cf-connecting-ip" = some s := by
      simp only [cfIp, Option.ite_none_right_eq_some] at hs
      exact hs.2
    exact isHeaderText_of_text htext
  obtain ⟨out₁, he₁, hvalue₁, hothers₁⟩ :=
    sets_insertUnlessEmpty hfor "x-forwarded-for" downstream.headers
  obtain ⟨out₂, he₂, hvalue₂, hothers₂⟩ := sets_forwardConnectingIp hcf out₁
  obtain ⟨out₃, he₃, hvalue₃, hothers₃⟩ := sets_insertUnlessEmpty hhost "x-forwarded-host" out₂
  obtain ⟨out₄, he₄, hvalue₄, hothers₄⟩ := sets_insertHeader hproto "x-forwarded-proto" out₃
  refine ⟨out₄, ?_, ?_, ?_, ?_, hvalue₄⟩
  · unfold forward appendForwardedHeaders
    dsimp only
    rw [he₁]
    simp only [bind, Except.bind]
    rw [he₂]
    dsimp only
    rw [he₃]
    exact he₄
  · rw [hothers₄ _ (by decide), hothers₃ _ (by decide), hothers₂ _ (by decide), hvalue₁]
  · rw [hothers₄ _ (by decide), hothers₃ _ (by decide), hvalue₂]
  · rw [hothers₄ _ (by decide), hvalue₃, hothers₂ _ (by decide), hothers₁ _ (by decide)]

/-! ## The identity of the client -/

def clientIdentityNames : List String :=
  ["x-forwarded-for", "x-forwarded-proto", "cf-connecting-ip"]

def clientIdentity (h : Headers) : List (List HeaderValue) := clientIdentityNames.map h.getAll

/-- The requests differ at most in the headers of these names. -/
def SameBut (names : List String) (r r' : RequestHeader) : Prop :=
  r.authority = r'.authority ∧ r.headers.without names = r'.headers.without names

/-- An untrusted peer with an address has its own identity; one without an address keeps the list
that the client sent. -/
theorem clientIdentity_of_untrusted {peer : Option PeerIp} {trustedProxies : List CidrRange}
    (h : isTrustedProxy ((peer.map (·.text)).getD "") trustedProxies = false)
    (downstream : RequestHeader) (downstreamIsTls : Bool) :
    (forward downstream downstreamIsTls peer trustedProxies).map clientIdentity =
      .ok [peer.elim (downstream.headers.getAll "x-forwarded-for") fun p => [p.value],
        [⟨Text.bytes (if downstreamIsTls then "https" else "http")⟩], []] := by
  obtain ⟨out, hout, hfor, hcf, -, hproto⟩ :=
    forward_eq downstream downstreamIsTls peer trustedProxies
  simp only [h, forwardedFor, forwardedProto, Bool.false_eq_true, if_false] at hfor hcf hproto
  rw [hout]
  simp only [Except.map, clientIdentity, clientIdentityNames, List.map_cons, List.map_nil, hfor,
    hcf, hproto]
  cases peer with
  | none => simp
  | some p => simp [p.nonempty, PeerIp.value]

/-- What an untrusted peer sends has no influence on the identity that the upstream sees, just when
the address of the peer is known. -/
theorem clientIdentity_eq_iff {peer : Option PeerIp} {trustedProxies : List CidrRange}
    (h : isTrustedProxy ((peer.map (·.text)).getD "") trustedProxies = false)
    (downstreamIsTls : Bool) :
    (∀ r r', SameBut clientIdentityNames r r' →
      (forward r downstreamIsTls peer trustedProxies).map clientIdentity =
        (forward r' downstreamIsTls peer trustedProxies).map clientIdentity) ↔
      peer.isSome = true := by
  constructor
  · intro heq
    cases peer with
    | some p => rfl
    | none =>
      have hne := heq ⟨[("x-forwarded-for", ⟨[49]⟩)], none⟩ ⟨[], none⟩ ⟨rfl, rfl⟩
      rw [clientIdentity_of_untrusted h, clientIdentity_of_untrusted h] at hne
      simp [Headers.getAll] at hne
  · intro hpeer r r' _
    obtain ⟨p, rfl⟩ := Option.isSome_iff_exists.mp hpeer
    rw [clientIdentity_of_untrusted h, clientIdentity_of_untrusted h]
    rfl

def claimingRequest : RequestHeader := ⟨[("x-forwarded-for", ⟨Text.bytes "203.0.113.50"⟩)], none⟩

def plainRequest : RequestHeader := ⟨[], none⟩

/-- No range is trusted, no address of the peer is known, and the upstream sees what was claimed. -/
theorem clientIdentity_claimingRequest : SameBut clientIdentityNames claimingRequest plainRequest ∧
    isTrustedProxy (((none : Option PeerIp).map (·.text)).getD "") [] = false ∧
    (forward claimingRequest false none []).map clientIdentity ≠
      (forward plainRequest false none []).map clientIdentity := by
  refine ⟨⟨rfl, by decide⟩, rfl, ?_⟩
  rw [clientIdentity_of_untrusted rfl, clientIdentity_of_untrusted rfl]
  decide +kernel

/-- With an address the same two requests look the same. -/
theorem clientIdentity_eq_iff_examplePeer :
    (forward claimingRequest true (some ⟨"198.51.100.7", by decide, by decide +kernel⟩) []).map
        clientIdentity =
      (forward plainRequest true (some ⟨"198.51.100.7", by decide, by decide +kernel⟩) []).map
        clientIdentity :=
  (clientIdentity_eq_iff (by decide +kernel) true).mpr rfl _ _ ⟨rfl, by decide⟩

/-! ## The host -/

def RequestHeader.supply (r : RequestHeader) (supplied : List HeaderValue) : RequestHeader where
  headers := r.headers.without ["x-forwarded-host"] ++ supplied.map (("x-forwarded-host", ·))
  authority := r.authority

def hostValues (r : RequestHeader) : List HeaderValue :=
  if hostHeader r ≠ "" then [⟨Text.bytes (hostHeader r)⟩] else []

/-- The upstream request has these values. -/
def ForwardsHost (r : RequestHeader) (downstreamIsTls : Bool) (peer : Option PeerIp)
    (trustedProxies : List CidrRange) : Prop :=
  (forward r downstreamIsTls peer trustedProxies).map (·.getAll "x-forwarded-host") =
    .ok (hostValues r)

theorem forwardedHost_eq (r : RequestHeader) (downstreamIsTls : Bool) (peer : Option PeerIp)
    (trustedProxies : List CidrRange) :
    (forward r downstreamIsTls peer trustedProxies).map (·.getAll "x-forwarded-host") =
      .ok (if (r.text "host").getD "" ≠ "" then [⟨Text.bytes ((r.text "host").getD "")⟩]
        else r.headers.getAll "x-forwarded-host") := by
  obtain ⟨out, hout, -, -, hhost, -⟩ := forward_eq r downstreamIsTls peer trustedProxies
  rw [hout]
  exact congrArg Except.ok hhost

def HasHostText (r : RequestHeader) : Prop := ∃ s, r.text "host" = some s ∧ s ≠ ""

theorem hasHostText_iff {r : RequestHeader} : HasHostText r ↔ (r.text "host").getD "" ≠ "" := by
  unfold HasHostText
  cases r.text "host" <;> simp

theorem hostHeader_of_hasHostText {r : RequestHeader} (h : HasHostText r) :
    hostHeader r = (r.text "host").getD "" := by
  obtain ⟨s, hs, hne⟩ := h
  have hfilter : (some s).filter (· ≠ "") = some s := by simpa [Option.filter_some] using hne
  rw [hostHeader, hs, hfilter, Option.some_or]

theorem getAll_supply_self (r : RequestHeader) (supplied : List HeaderValue) :
    (r.supply supplied).headers.getAll "x-forwarded-host" = supplied := by
  have hrest : (r.headers.without ["x-forwarded-host"]).getAll "x-forwarded-host" = [] := by
    simp [Headers.getAll, Headers.without, List.filter_filter]
  have hsupplied : Headers.getAll "x-forwarded-host"
      (supplied.map (("x-forwarded-host", ·))) = supplied := by
    simp [Headers.getAll, List.filter_map, Function.comp_def]
  rw [RequestHeader.supply, Headers.getAll_append, hrest, hsupplied, List.nil_append]

theorem text_supply_host (r : RequestHeader) (supplied : List HeaderValue) :
    (r.supply supplied).text "host" = r.text "host" := by
  have hsupplied : Headers.getAll "host" (supplied.map (("x-forwarded-host", ·))) = [] := by
    simp [Headers.getAll, List.filter_map, Function.comp_def]
  unfold RequestHeader.text Headers.get
  rw [RequestHeader.supply, Headers.getAll_append, hsupplied, List.append_nil,
    Headers.getAll_without (by decide)]

/-- The upstream sees the routed host just when the request has a host header that can be read, or
sent the right values itself; and it sees it whatever was sent just when there is such a header. -/
theorem forwardsHost_iff (r : RequestHeader) (downstreamIsTls : Bool) (peer : Option PeerIp)
    (trustedProxies : List CidrRange) :
    (ForwardsHost r downstreamIsTls peer trustedProxies ↔
      HasHostText r ∨ r.headers.getAll "x-forwarded-host" = hostValues r) ∧
    ((∀ supplied, ForwardsHost (r.supply supplied) downstreamIsTls peer trustedProxies) ↔
      HasHostText r) := by
  have hone : ∀ r : RequestHeader, ForwardsHost r downstreamIsTls peer trustedProxies ↔
      HasHostText r ∨ r.headers.getAll "x-forwarded-host" = hostValues r := by
    intro r
    rw [ForwardsHost, forwardedHost_eq, Except.ok.injEq]
    by_cases h : HasHostText r
    · rw [if_pos (hasHostText_iff.mp h), hostValues, hostHeader_of_hasHostText h,
        if_pos (hasHostText_iff.mp h)]
      simp [h]
    · rw [if_neg (fun hne => h (hasHostText_iff.mpr hne))]
      simp [h]
  refine ⟨hone r, ?_⟩
  have hsame : ∀ supplied, (HasHostText (r.supply supplied) ↔ HasHostText r) ∧
      hostValues (r.supply supplied) = hostValues r := by
    intro supplied
    have hauthority : (r.supply supplied).authority = r.authority := rfl
    have hheader : hostHeader (r.supply supplied) = hostHeader r := by
      rw [hostHeader, hostHeader, text_supply_host, hauthority]
    rw [HasHostText, HasHostText, hostValues, hostValues, text_supply_host, hheader]
    exact ⟨Iff.rfl, rfl⟩
  constructor
  · intro hall
    by_contra hno
    have hnone := (hone _).mp (hall [])
    have hsome := (hone _).mp (hall [⟨[]⟩])
    rw [(hsame _).1, (hsame _).2, getAll_supply_self] at hnone hsome
    simp only [hno, false_or] at hnone hsome
    rw [← hnone] at hsome
    cases hsome
  · intro h supplied
    exact (hone _).mpr (Or.inl ((hsame supplied).1.mpr h))

def authorityRequest : RequestHeader where
  headers := [("x-forwarded-host", ⟨Text.bytes "evil.example"⟩)]
  authority := some "shop.example"

theorem forwardsHost_authorityRequest :
    hostHeader authorityRequest = "shop.example" ∧
      ¬ForwardsHost authorityRequest true none [] := by
  refine ⟨by decide +kernel, ?_⟩
  rw [ForwardsHost, forwardedHost_eq, Except.ok.injEq]
  decide +kernel

/-! ## The list of clients -/

def RequestHeader.Lines (r : RequestHeader) (name : String) (lines : List String) : Prop :=
  (r.headers.getAll name).map HeaderValue.toStr = lines.map some

instance (r : RequestHeader) (name : String) (lines : List String) :
    Decidable (r.Lines name lines) :=
  inferInstanceAs (Decidable ((r.headers.getAll name).map HeaderValue.toStr = lines.map some))

/-- Every line in order, then the peer. -/
def clientChain (lines : List String) (peer : PeerIp) : String :=
  ", ".intercalate (lines ++ [peer.text])

theorem RequestHeader.Lines.text {r : RequestHeader} {name : String} {lines : List String}
    (h : r.Lines name lines) : r.text name = lines.head? := by
  have hhead : ((r.headers.getAll name).map HeaderValue.toStr).head? =
      (lines.map some).head? := congrArg List.head? h
  rw [List.head?_map, List.head?_map] at hhead
  unfold RequestHeader.text Headers.get
  cases hget : (r.headers.getAll name).head? with
  | none =>
    rw [hget, Option.map_none, eq_comm, Option.map_eq_none_iff] at hhead
    rw [hhead, Option.bind_none]
  | some v =>
    rw [hget, Option.map_some] at hhead
    obtain ⟨line, hline, hv⟩ := Option.map_eq_some_iff.mp hhead.symm
    rw [hline, Option.bind_some, ← hv]

theorem forwardedFor_of_lines {r : RequestHeader} {lines : List String}
    (h : r.Lines "x-forwarded-for" lines) (peer : PeerIp) :
    forwardedFor r peer.text true = clientChain lines.head?.toList peer := by
  rw [forwardedFor, if_pos rfl, h.text]
  cases lines with
  | nil => simp [clientChain]
  | cons first rest => simp [clientChain, peer.nonempty, String.append_assoc]

theorem clientChain_cons (line : String) (rest : List String) (peer : PeerIp) :
    clientChain (line :: rest) peer = line ++ ", " ++ clientChain rest peer := by
  rw [clientChain, List.cons_append, String.intercalate_cons_of_ne_nil (by simp), clientChain]

theorem length_bytes_clientChain_le (lines : List String) (peer : PeerIp) :
    (Text.bytes peer.text).length + 2 * lines.length ≤
      (Text.bytes (clientChain lines peer)).length := by
  induction lines with
  | nil => simp [clientChain]
  | cons line rest ih =>
    have hsep : (Text.bytes ", ").length = 2 := by decide +kernel
    rw [clientChain_cons]
    simp only [Text.bytes_append, List.length_append, List.length_cons, hsep]
    omega

theorem clientChain_ne_empty (lines : List String) (peer : PeerIp) :
    clientChain lines peer ≠ "" := by
  cases lines with
  | nil => simpa [clientChain] using peer.nonempty
  | cons line rest => simp [clientChain_cons]

/-- A request with two lines or more loses all but the first of them. -/
theorem clientChain_ne {lines : List String} (hlong : 1 < lines.length) (peer : PeerIp) :
    Text.bytes (clientChain lines.head?.toList peer) ≠ Text.bytes (clientChain lines peer) := by
  intro heq
  obtain ⟨first, second, rest, rfl⟩ : ∃ first second rest, lines = first :: second :: rest := by
    match lines, hlong with
    | first :: second :: rest, _ => exact ⟨first, second, rest, rfl⟩
  rw [List.head?_cons, Option.toList_some, clientChain_cons, clientChain_cons, Text.bytes_append,
    Text.bytes_append _ (clientChain _ peer), List.append_cancel_left_eq] at heq
  have hle := length_bytes_clientChain_le (second :: rest) peer
  rw [← heq] at hle
  simp [clientChain] at hle

/-- The chain of a trusted peer is complete just when the request has at most one line. -/
theorem forwardsChain_iff {r : RequestHeader} {lines : List String} {peer : PeerIp}
    {trustedProxies : List CidrRange} (hlines : r.Lines "x-forwarded-for" lines)
    (htrusted : isTrustedProxy peer.text trustedProxies = true) (downstreamIsTls : Bool) :
    (forward r downstreamIsTls (some peer) trustedProxies).map (·.getAll "x-forwarded-for") =
        .ok [⟨Text.bytes (clientChain lines peer)⟩] ↔ lines.length ≤ 1 := by
  obtain ⟨out, hout, hfor, -⟩ := forward_eq r downstreamIsTls (some peer) trustedProxies
  simp only [Option.map_some, Option.getD_some, htrusted] at hfor
  rw [forwardedFor_of_lines hlines, if_pos (clientChain_ne_empty _ _)] at hfor
  rw [hout, Except.map, hfor, Except.ok.injEq, List.cons.injEq]
  constructor
  · intro h
    by_contra hlong
    exact clientChain_ne (by omega) peer (congrArg HeaderValue.bytes h.1)
  · intro hshort
    have hall : lines.head?.toList = lines := by
      match lines, hshort with
      | [], _ => rfl
      | [line], _ => rfl
    rw [hall]
    exact ⟨rfl, rfl⟩

def exampleProxy : PeerIp := ⟨"10.0.0.5", by decide, by decide +kernel⟩

def proxyRequest : RequestHeader where
  headers := [("x-forwarded-for", ⟨Text.bytes "203.0.113.50"⟩),
    ("x-forwarded-for", ⟨Text.bytes "198.51.100.7"⟩)]
  authority := none

/-- The hop that the trusted proxy saw is dropped; what the client sent is kept. -/
theorem forwardsChain_proxyRequest :
    proxyRequest.Lines "x-forwarded-for" ["203.0.113.50", "198.51.100.7"] ∧
      isTrustedProxy exampleProxy.text (parseTrustedProxies ["10.0.0.0/8"]) = true ∧
      (forward proxyRequest true (some exampleProxy) (parseTrustedProxies ["10.0.0.0/8"])).map
          (·.getAll "x-forwarded-for") ≠
        .ok [⟨Text.bytes (clientChain ["203.0.113.50", "198.51.100.7"] exampleProxy)⟩] := by
  have hne : ((forward proxyRequest true (some exampleProxy)
        (parseTrustedProxies ["10.0.0.0/8"])).map (·.getAll "x-forwarded-for")).toOption ≠
      some [⟨Text.bytes (clientChain ["203.0.113.50", "198.51.100.7"] exampleProxy)⟩] := by
    decide +kernel
  exact ⟨by decide +kernel, by decide +kernel, fun h => hne (congrArg Except.toOption h)⟩

/-- One line with both hops is passed on whole. -/
theorem forwardsChain_iff_oneLine :
    (forward ⟨[("x-forwarded-for", ⟨Text.bytes "203.0.113.50, 198.51.100.7"⟩)], none⟩ true
        (some exampleProxy) (parseTrustedProxies ["10.0.0.0/8"])).map
          (·.getAll "x-forwarded-for") =
      .ok [⟨Text.bytes (clientChain ["203.0.113.50, 198.51.100.7"] exampleProxy)⟩] :=
  (forwardsChain_iff (by decide +kernel) (by decide +kernel) true).mpr (by decide)

end SentirumLb
