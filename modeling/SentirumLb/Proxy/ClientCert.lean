import SentirumLb.Lib.AssocMap
import SentirumLb.Lib.Runs
import SentirumLb.Proxy.Forwarded

/-! # Client certificate headers

The identity in a client certificate is passed to the upstream in headers. It is
merged from the digest of the TLS session, from a cache that earlier requests and
handshakes filled, and from the session itself. Only the session knows whether
the certificate was verified, and it is not asked when the cache has a full
entry or the stream is out of reach.
-/

namespace SentirumLb

open Http

/-! ## Identities and their cache -/

structure ClientCertIdentity where
  verified : Bool := false
  serial : Option String := none
  organization : Option String := none
  organizationalUnit : Option String := none
  commonName : Option String := none
  subject : Option String := none
  sha256 : Option String := none
  deriving DecidableEq

def clientCertIdentityCacheCapacity : ℕ := 4096

structure ClientCertIdentityCache where
  entries : AssocMap String ClientCertIdentity := ∅
  order : List String := []

namespace ClientCertIdentityCache

def evict : AssocMap String ClientCertIdentity → List String → ClientCertIdentityCache
  | entries, [] => ⟨entries, []⟩
  | entries, oldest :: order =>
      if entries.keys.length > clientCertIdentityCacheCapacity then
        evict (entries.erase oldest) order
      else ⟨entries, oldest :: order⟩

def evictIfNeeded (c : ClientCertIdentityCache) : ClientCertIdentityCache :=
  evict c.entries c.order

def insert (digestHex : String) (identity : ClientCertIdentity) (c : ClientCertIdentityCache) :
    ClientCertIdentityCache :=
  if digestHex ∈ c.entries then c
  else
    evictIfNeeded
      { entries := AList.insert digestHex identity c.entries, order := c.order ++ [digestHex] }

def get (digestHex : String) (c : ClientCertIdentityCache) : Option ClientCertIdentity :=
  c.entries.lookup digestHex

end ClientCertIdentityCache

def hexLower (bytes : List UInt8) : String :=
  String.ofList
    (bytes.flatMap fun b => [Nat.digitChar (b.toNat / 16), Nat.digitChar (b.toNat % 16)])

/-! ## Certificates and sessions -/

/-- What is read of an X.509 certificate: the first values of its names, its serial number in
hexadecimal, and its SHA-256 digest. -/
structure Certificate where
  commonName : Option String
  organization : Option String
  organizationalUnit : Option String
  issuerCommonName : Option String
  serial : Option String
  digest : Option (List UInt8)

def certificateSubjectString (cert : Certificate) : String :=
  let parts := [cert.commonName.map ("CN=" ++ ·), cert.organization.map ("O=" ++ ·),
    cert.organizationalUnit.map ("OU=" ++ ·)].reduceOption
  if parts.isEmpty then "<unknown-subject>" else ", ".intercalate parts

structure SslDigest where
  certDigest : List UInt8
  serialNumber : Option String
  organization : Option String

structure Ssl where
  peerCertificate : Option Certificate
  verifyResult : ℤ

/-- A TLS session, whose stream is at hand or not; it is not for an HTTP/2 request. -/
structure TlsSession where
  ssl : Ssl
  stream : Bool
  digest : SslDigest
  certDigest_eq : digest.certDigest = (ssl.peerCertificate.bind (·.digest)).getD []

def x509VOk : ℤ := 0

/-- The session presented a certificate, and OpenSSL verified it. -/
def TlsSession.Verified (t : TlsSession) : Prop :=
  t.ssl.peerCertificate ≠ none ∧ t.ssl.verifyResult = x509VOk

/-- The certificate that the session itself still shows. -/
def TlsSession.liveCertificate (t : TlsSession) : Option Certificate :=
  if t.stream then t.ssl.peerCertificate else none

def rememberVerifiedClientCertificate (cert : Certificate) (cache : ClientCertIdentityCache) :
    ClientCertIdentityCache :=
  match cert.digest with
  | none => cache
  | some digest =>
      cache.insert (hexLower digest)
        { verified := true
          serial := cert.serial
          organization := cert.organization
          organizationalUnit := cert.organizationalUnit
          commonName := cert.commonName
          subject := some (certificateSubjectString cert)
          sha256 := some (hexLower digest) }

def cachedClientCertificateIdentity (certDigest : List UInt8) (cache : ClientCertIdentityCache) :
    Option ClientCertIdentity :=
  if certDigest.isEmpty then none else cache.get (hexLower certDigest)

/-! ## The three phases -/

/-- Phase 1: any certificate counts as verified. -/
def SslDigest.identity (d : SslDigest) : ClientCertIdentity where
  verified := !d.certDigest.isEmpty
  serial := d.serialNumber
  organization := d.organization
  sha256 := if d.certDigest.isEmpty then none else some (hexLower d.certDigest)

/-- Phase 2: the flags are or-ed. -/
def ClientCertIdentity.mergeCached (identity cached : ClientCertIdentity) : ClientCertIdentity where
  verified := cached.verified || identity.verified
  serial := cached.serial.or identity.serial
  organization := cached.organization.or identity.organization
  organizationalUnit := cached.organizationalUnit
  commonName := cached.commonName
  subject := cached.subject
  sha256 := cached.sha256.or identity.sha256

def ClientCertIdentity.isFull (cached : ClientCertIdentity) : Bool :=
  cached.commonName.isSome && cached.subject.isSome

/-- Phase 3: the verify result of the session has the final word. -/
def ClientCertIdentity.rederive (identity : ClientCertIdentity) (ssl : Ssl) (cert : Certificate) :
    ClientCertIdentity where
  verified := ssl.verifyResult == x509VOk
  serial := identity.serial
  organization := cert.organization.or identity.organization
  organizationalUnit := cert.organizationalUnit
  commonName := cert.commonName
  subject := some (certificateSubjectString cert)
  sha256 := (cert.digest.map hexLower).or identity.sha256

def clientCertificateIdentity (session : Option TlsSession) (cache : ClientCertIdentityCache) :
    Option ClientCertIdentity × ClientCertIdentityCache :=
  match session with
  | none => (none, cache)
  | some t =>
      let cached := cachedClientCertificateIdentity t.digest.certDigest cache
      let identity := cached.elim t.digest.identity t.digest.identity.mergeCached
      match if cached.any (·.isFull) then none else t.liveCertificate with
      | none => (some identity, cache)
      | some cert =>
          (some (identity.rederive t.ssl cert), rememberVerifiedClientCertificate cert cache)

/-- The session itself is asked whether its certificate was verified. -/
def LiveChecked (cache : ClientCertIdentityCache) (t : TlsSession) : Prop :=
  t.liveCertificate ≠ none ∧
    ∀ cached ∈ cachedClientCertificateIdentity t.digest.certDigest cache, cached.isFull = false

/-! ## The headers -/

def clientCertHeaders : List String :=
  ["x-client-cert-verified", "x-client-cert-serial", "x-client-cert-organization",
    "x-client-cert-organizational-unit", "x-client-cert-common-name", "x-client-cert-subject",
    "x-client-cert-sha256"]

def ClientCertIdentity.headers (identity : ClientCertIdentity) : List (String × Option String) :=
  [("x-client-cert-serial", identity.serial),
    ("x-client-cert-organization", identity.organization),
    ("x-client-cert-organizational-unit", identity.organizationalUnit),
    ("x-client-cert-common-name", identity.commonName),
    ("x-client-cert-subject", identity.subject),
    ("x-client-cert-sha256", identity.sha256)]

/-- Insert the values that are there. A text that is no header value is an error, and what was
inserted before it stays. -/
def insertHeaders : List (String × Option String) → Headers → Headers × Except String Unit
  | [], upstream => (upstream, .ok ())
  | (_, none) :: rest, upstream => insertHeaders rest upstream
  | (name, some value) :: rest, upstream =>
      match insertHeader name value upstream with
      | .ok upstream => insertHeaders rest upstream
      | .error e => (upstream, .error e)

def writeIdentity (identity : Option ClientCertIdentity) (upstream : Headers) :
    Headers × Except String Unit :=
  match identity.filter (·.verified) with
  | none => (upstream, .ok ())
  | some identity =>
      insertHeaders (("x-client-cert-verified", some "true") :: identity.headers) upstream

/-- The upstream request as the call leaves it, the result of the call, and the cache. -/
def appendClientCertificateHeaders (session : Option TlsSession) (upstream : Headers)
    (cache : ClientCertIdentityCache) :
    (Headers × Except String Unit) × ClientCertIdentityCache :=
  let upstream := upstream.without clientCertHeaders
  let (identity, cache) := clientCertificateIdentity session cache
  (writeIdentity identity upstream, cache)

/-! ## When an identity is asserted -/

/-- Some header tells the upstream about a client certificate. -/
def AssertsIdentity (upstream : Headers) : Prop :=
  ∃ name ∈ clientCertHeaders, upstream.getAll name ≠ []

theorem getAll_insertHeaders {name : String} {fields : List (String × Option String)}
    (h : ∀ f ∈ fields, name ≠ f.1) (upstream : Headers) :
    (insertHeaders fields upstream).1.getAll name = upstream.getAll name := by
  induction fields generalizing upstream with
  | nil => rfl
  | cons f fields ih =>
    have hrest := ih fun f hf => h f (List.mem_cons_of_mem _ hf)
    obtain ⟨other, _ | value⟩ := f
    · exact hrest upstream
    · unfold insertHeaders insertHeader
      cases HeaderValue.fromStr value with
      | none => rfl
      | some v =>
        rw [← Headers.getAll_insert_ne (h (other, some value) List.mem_cons_self) upstream (v := v)]
        exact hrest _

theorem getAll_verified_writeIdentity {identity : Option ClientCertIdentity} {upstream : Headers}
    (h : (identity.filter (·.verified)).isSome) :
    (writeIdentity identity upstream).1.getAll "x-client-cert-verified" =
      [⟨Text.bytes "true"⟩] := by
  obtain ⟨i, hi⟩ := Option.isSome_iff_exists.mp h
  have htrue : insertHeader "x-client-cert-verified" "true" upstream =
      .ok (upstream.insert "x-client-cert-verified" ⟨Text.bytes "true"⟩) :=
    insertHeader_eq (by decide +kernel) _ _
  simp only [writeIdentity, hi, insertHeaders, htrue]
  rw [getAll_insertHeaders, Headers.getAll_insert_self]
  simp [ClientCertIdentity.headers]

theorem assertsIdentity_append_iff (session : Option TlsSession) (upstream : Headers)
    (cache : ClientCertIdentityCache) :
    AssertsIdentity (appendClientCertificateHeaders session upstream cache).1.1 ↔
      ((clientCertificateIdentity session cache).1.filter (·.verified)).isSome := by
  unfold appendClientCertificateHeaders AssertsIdentity
  constructor
  · rintro ⟨name, hname, hne⟩
    by_contra hnone
    rw [Option.not_isSome_iff_eq_none] at hnone
    simp only [writeIdentity, hnone] at hne
    exact hne (Headers.getAll_without_self hname upstream)
  · intro h
    refine ⟨"x-client-cert-verified", by simp [clientCertHeaders], ?_⟩
    simp [getAll_verified_writeIdentity h]

theorem verified_mergeCached (d : SslDigest) (cache : ClientCertIdentityCache) :
    ((cachedClientCertificateIdentity d.certDigest cache).elim d.identity
      d.identity.mergeCached).verified = !d.certDigest.isEmpty := by
  unfold cachedClientCertificateIdentity
  cases hempty : d.certDigest.isEmpty with
  | true => simp [SslDigest.identity, hempty]
  | false =>
    rw [if_neg Bool.false_ne_true]
    cases cache.get (hexLower d.certDigest) with
    | none => simp [SslDigest.identity, hempty]
    | some cached => simp [ClientCertIdentity.mergeCached, SslDigest.identity, hempty]

theorem liveChecked_iff (cache : ClientCertIdentityCache) (t : TlsSession) :
    LiveChecked cache t ↔
      (if (cachedClientCertificateIdentity t.digest.certDigest cache).any (·.isFull) then none
        else t.liveCertificate) ≠ none := by
  unfold LiveChecked
  cases cachedClientCertificateIdentity t.digest.certDigest cache with
  | none => simp
  | some cached => cases h : cached.isFull <;> simp [h]

theorem verified_clientCertificateIdentity (t : TlsSession) (cache : ClientCertIdentityCache) :
    ((clientCertificateIdentity (some t) cache).1.filter (·.verified)).isSome ↔
      (LiveChecked cache t ∧ t.ssl.verifyResult = x509VOk) ∨
        (¬LiveChecked cache t ∧ t.digest.certDigest ≠ []) := by
  rw [liveChecked_iff]
  unfold clientCertificateIdentity
  dsimp only
  split
  · next hlive =>
    simp [hlive, Option.isSome_filter, verified_mergeCached]
  · next cert hlive =>
    simp [hlive, Option.isSome_filter, ClientCertIdentity.rederive]

theorem TlsSession.verified_of_liveChecked {t : TlsSession} {cache : ClientCertIdentityCache}
    (h : LiveChecked cache t) (hok : t.ssl.verifyResult = x509VOk) : t.Verified := by
  refine ⟨?_, hok⟩
  intro hnone
  apply h.1
  unfold TlsSession.liveCertificate
  rw [hnone, ite_self]

/-- The request's identity is asserted only if its own session verified it, just when the session
did, or has no digest of a certificate, or is asked. -/
theorem asserts_only_verified_iff (t : TlsSession) (upstream : Headers)
    (cache : ClientCertIdentityCache) :
    (AssertsIdentity (appendClientCertificateHeaders (some t) upstream cache).1.1 → t.Verified) ↔
      t.Verified ∨ t.digest.certDigest = [] ∨ LiveChecked cache t := by
  rw [assertsIdentity_append_iff, verified_clientCertificateIdentity]
  constructor
  · intro h
    by_contra hne
    rw [not_or, not_or] at hne
    exact hne.1 (h (Or.inr ⟨hne.2.2, hne.2.1⟩))
  · rintro (h | hempty | hlive) hverified
    · exact h
    · rcases hverified with ⟨hlive, hok⟩ | ⟨-, hne⟩
      · exact TlsSession.verified_of_liveChecked hlive hok
      · exact absurd hempty hne
    · rcases hverified with ⟨-, hok⟩ | ⟨hnot, -⟩
      · exact TlsSession.verified_of_liveChecked hlive hok
      · exact absurd hlive hnot

/-! ## Handshakes and requests -/

structure VerifyContext where
  error : ℤ
  errorDepth : ℕ
  currentCert : Option Certificate

/-- The errors that a certificate of the upgraded CA may have: invalid CA (24), invalid purpose
(26), no certificate signing in the key usage (32), a self-signed leaf (18), a self-signed
certificate in the chain (19), no local issuer (20), and an unverified leaf signature (21). -/
def caFlagErrors : List ℤ := [24, 26, 32, 18, 19, 20, 21]

def shouldTreatAsUpgradedCa (caUpgradeCn : String) (errorCode : ℤ) (cert : Certificate) : Bool :=
  caUpgradeCn != "" && caFlagErrors.contains errorCode &&
    (cert.issuerCommonName == some caUpgradeCn || cert.commonName == some caUpgradeCn)

def shouldAcceptCaUpgradeError (caUpgradeCn : String) (ctx : VerifyContext) : Bool :=
  ctx.currentCert.any (shouldTreatAsUpgradedCa caUpgradeCn ctx.error)

def rememberLeaf (ctx : VerifyContext) (cache : ClientCertIdentityCache) :
    ClientCertIdentityCache :=
  if ctx.errorDepth = 0 then
    ctx.currentCert.elim cache fun cert => rememberVerifiedClientCertificate cert cache
  else cache

/-- The verify callback of a handshake: its verdict, the error it leaves, and the cache. -/
def verifyCallback (caUpgradeCn : String) (preverifyOk : Bool) (ctx : VerifyContext)
    (cache : ClientCertIdentityCache) : Bool × VerifyContext × ClientCertIdentityCache :=
  if preverifyOk then (true, ctx, rememberLeaf ctx cache)
  else if shouldAcceptCaUpgradeError caUpgradeCn ctx then
    (true, { ctx with error := x509VOk }, rememberLeaf ctx cache)
  else (false, ctx, cache)

inductive ClientCertEvent where
  | handshake (caUpgradeCn : String) (preverifyOk : Bool) (ctx : VerifyContext)
  | request (session : Option TlsSession) (upstream : Headers)

structure Written where
  session : Option TlsSession
  upstream : Headers
  result : Except String Unit

structure ClientCertState where
  cache : ClientCertIdentityCache := {}
  written : List Written := []

namespace ClientCertState

def step (s : ClientCertState) : ClientCertEvent → Option ClientCertState
  | .handshake caUpgradeCn preverifyOk ctx =>
      some { s with cache := (verifyCallback caUpgradeCn preverifyOk ctx s.cache).2.2 }
  | .request session upstream =>
      let r := appendClientCertificateHeaders session upstream s.cache
      some { cache := r.2, written := s.written ++ [⟨session, r.1.1, r.1.2⟩] }

/-- No identity is asserted without a session that verified it. -/
def AssertsOnlyVerified (s : ClientCertState) : Prop :=
  ∀ w ∈ s.written, AssertsIdentity w.upstream → ∃ t, w.session = some t ∧ t.Verified

/-- The session of a request verified its certificate, or has none, or is asked. -/
def Settled (s : ClientCertState) : ClientCertEvent → Prop
  | .handshake .. => True
  | .request session _ =>
      ∀ t, session = some t → t.Verified ∨ t.digest.certDigest = [] ∨ LiveChecked s.cache t

theorem step_assertsOnlyVerified_iff {s s' : ClientCertState} {e : ClientCertEvent}
    (h : s.step e = some s') :
    s'.AssertsOnlyVerified ↔ s.AssertsOnlyVerified ∧ s.Settled e := by
  cases e with
  | handshake caUpgradeCn preverifyOk ctx =>
    cases h
    simp [AssertsOnlyVerified, Settled]
  | request session upstream =>
    rw [step, Option.some.injEq] at h
    subst h
    simp only [AssertsOnlyVerified, Settled, List.forall_mem_append, List.forall_mem_singleton]
    refine and_congr_right fun _ => ?_
    cases session with
    | none =>
      rw [assertsIdentity_append_iff]
      simp [clientCertificateIdentity]
    | some t =>
      simp only [Option.some.injEq, exists_eq_left', forall_eq']
      exact asserts_only_verified_iff t upstream s.cache

/-- In every run, no identity is asserted without verification just when each request found its
session settled. -/
theorem run_assertsOnlyVerified_iff {events : List ClientCertEvent} {s : ClientCertState}
    (hr : Runs.run step {} events = some s) :
    s.AssertsOnlyVerified ↔ Runs.Meets step Settled {} events := by
  have h := Runs.run_iff_meets (J := fun _ => True) (fun _ _ _ _ _ => trivial)
    (fun _ _ _ _ => step_assertsOnlyVerified_iff) hr trivial
  rw [h, and_iff_right]
  simp [AssertsOnlyVerified]

def clientCertificate : Certificate where
  commonName := some "client"
  organization := none
  organizationalUnit := none
  issuerCommonName := some "client"
  serial := some "01"
  digest := some [0xab, 0xcd]

def clientSession (verifyResult : ℤ) : TlsSession where
  ssl := ⟨some clientCertificate, verifyResult⟩
  stream := true
  digest := ⟨[0xab, 0xcd], some "01", none⟩
  certDigest_eq := rfl

def verifiedEvents : List ClientCertEvent :=
  [.handshake "" true ⟨0, 0, some clientCertificate⟩, .request (some (clientSession 0)) []]

theorem run_assertsOnlyVerified_iff_verifiedEvents : ∃ s,
    Runs.run step {} verifiedEvents = some s ∧ s.AssertsOnlyVerified := by
  obtain ⟨s, hs⟩ := Option.isSome_iff_exists.mp
    (show (Runs.run step {} verifiedEvents).isSome from rfl)
  refine ⟨s, hs, (run_assertsOnlyVerified_iff hs).mpr ⟨trivial, ?_⟩⟩
  intro s' _
  refine ⟨?_, fun _ _ => trivial⟩
  rintro t ⟨⟩
  exact Or.inl ⟨nofun, rfl⟩

def selfSignedEvents : List ClientCertEvent :=
  [.request (some (clientSession 18)) [], .request (some (clientSession 18)) []]

/-- The first request asserts nothing but caches the identity as verified, and the second asserts
it. -/
theorem not_assertsOnlyVerified_selfSignedEvents : ∃ s,
    Runs.run step {} selfSignedEvents = some s ∧
    s.written.map (·.upstream.getAll "x-client-cert-verified") = [[], [⟨Text.bytes "true"⟩]] ∧
    ¬s.AssertsOnlyVerified := by
  have h : (Runs.run step {} selfSignedEvents).map (fun s => s.written.map fun w =>
      (w.session.map (·.ssl.verifyResult), w.upstream.getAll "x-client-cert-verified")) =
      some [(some 18, []), (some 18, [⟨Text.bytes "true"⟩])] := by
    decide +kernel
  obtain ⟨s, hs, hwritten⟩ := Option.map_eq_some_iff.mp h
  refine ⟨s, hs, ?_, ?_⟩
  · simpa [Function.comp_def] using congrArg (List.map Prod.snd) hwritten
  intro hsound
  have hmem : (some (18 : ℤ), [(⟨Text.bytes "true"⟩ : HeaderValue)]) ∈ s.written.map fun w =>
      (w.session.map (·.ssl.verifyResult), w.upstream.getAll "x-client-cert-verified") := by
    simp [hwritten]
  obtain ⟨w, hw, he⟩ := List.mem_map.mp hmem
  rw [Prod.mk.injEq] at he
  obtain ⟨t, ht, -, hok⟩ := hsound w hw
    ⟨"x-client-cert-verified", by simp [clientCertHeaders], by simp [he.2]⟩
  simp [ht, hok, x509VOk] at he

end ClientCertState

end SentirumLb
