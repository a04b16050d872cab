import SentirumLb.Lib.Utf8
import SentirumLb.Tls.PemBlocks
import SentirumLb.Tls.Select

/-! # Certificate bundles

A bundle is text with PEM blocks in any order and text in between. Its
certificate blocks make the chain, leaf first, and its first private key block
the key, which has to fit the leaf. The engine that looks for the markers and what
OpenSSL reads from a block are parameters; a writer that OpenSSL reads back says
what a bundle stands for.
-/

namespace SentirumLb

inductive TlsError where
  | certNotFound (path : String)
  | keyNotFound (path : String)
  | certReadError (path message : String)
  | keyReadError (path message : String)
  | configError (message : String)
deriving DecidableEq

def TlsError.display : TlsError → String
  | certNotFound path => s!"Certificate file not found: {path}"
  | keyNotFound path => s!"Private key file not found: {path}"
  | certReadError path message => s!"Cannot read certificate file '{path}': {message}"
  | keyReadError path message => s!"Cannot read private key file '{path}': {message}"
  | configError message => s!"TLS configuration error: {message}"

/-- The regular expression for the markers, as its engine searches for it. -/
structure PemRegex where
  captures : List Char → Option Captures
  leftmost : FindsLeftmost captures

/-- What the libraries read from PEM text: the markers, the blocks, and the text of the error for
bytes that are not UTF-8. -/
class Openssl (X K : Type) where
  pemBeginRe : PemRegex
  x509FromPem : List Char → Except String X
  privateKeyFromPem : List Char → Except String K
  /-- The public key of the certificate can be read and is that of the private key. -/
  publicEq : K → X → Bool
  dnsNames : X → List String
  commonNames : X → List String
  notAfterUnix : X → Option ℕ
  utf8Error : List UInt8 → String

namespace PemBlock

def isCertificate (block : PemBlock) : Bool := block.kind == "CERTIFICATE".toList

def isPrivateKey (block : PemBlock) : Bool := "PRIVATE KEY".toList.isSuffixOf block.kind

end PemBlock

/-- The blocks of a text, with fuel for all of them. -/
def pemBlocksOf (pemBeginRe : PemRegex) (input : List Char) : List PemBlock :=
  (pemBlocks pemBeginRe.captures (String.utf8Len input + 1) input).toOption.getD []

structure CertParts (X K : Type) where
  leaf : X
  chain : List X
  key : K
deriving DecidableEq

def readCertificates {X : Type} (pemBeginRe : PemRegex)
    (x509FromPem : List Char → Except String X) (utf8Message : String)
    (blockMessage : String → String) (input : List UInt8) : Except TlsError (List X) :=
  match Text.fromUtf8 input with
  | none => .error (.configError utf8Message)
  | some text =>
      ((pemBlocksOf pemBeginRe text).filter PemBlock.isCertificate).mapM fun block =>
        (x509FromPem block.pem).mapError fun e => .configError (blockMessage e)

section Code

variable {X K : Type} [Openssl X K]

variable (K) in
def parseCertificateChain (input : List UInt8) : Except TlsError (List X) :=
  let e := Openssl.utf8Error X K input
  readCertificates (Openssl.pemBeginRe X K) (Openssl.x509FromPem K)
    s!"certificate PEM is not valid UTF-8: {e}"
    (fun e => s!"invalid CERTIFICATE PEM block: {e}") input

variable (X) in
def parsePrivateKey (input : List UInt8) : Except TlsError K :=
  match Text.fromUtf8 input with
  | none =>
      let e := Openssl.utf8Error X K input
      .error (.configError s!"private key PEM is not valid UTF-8: {e}")
  | some text =>
      match (pemBlocksOf (Openssl.pemBeginRe X K) text).find? PemBlock.isPrivateKey with
      | some block => (Openssl.privateKeyFromPem X block.pem).mapError fun e =>
          .configError s!"invalid PRIVATE KEY PEM block: {e}"
      | none => .error (.configError "private key bundle contains no PRIVATE KEY block")

def fromPemPair (entryName : String) (certPem keyPem : List UInt8) :
    Except TlsError (CertParts X K) := do
  match ← parseCertificateChain K certPem with
  | [] =>
      .error (.configError
        s!"certificate bundle '{entryName}' contains no CERTIFICATE blocks")
  | leaf :: chain =>
      let key ← parsePrivateKey X keyPem
      if Openssl.publicEq key leaf then .ok ⟨leaf, chain, key⟩
      else
        .error (.configError
          s!"certificate bundle '{entryName}' private key does not match certificate")

instance bundleLoader : LeafLoader (CertParts X K) where
  load entryName certPem keyPem := (fromPemPair entryName certPem keyPem).mapError TlsError.display
  dnsNames parts := Openssl.dnsNames K parts.leaf
  commonNames parts := Openssl.commonNames K parts.leaf
  notAfterUnix parts := Openssl.notAfterUnix K parts.leaf

end Code

/-! ## Writing bundles -/

/-- Text in which no block begins. -/
abbrev Gap : Type := {text : List Char // ¬beginStem <:+: text}

/-- Text in which no block ends. -/
abbrev Body : Type := {text : List Char // ¬endStem <:+: text}

abbrev KeyKind : Type := {kind : PemKind // (pemBlock kind []).isPrivateKey = true}

abbrev OtherKind : Type :=
  {kind : PemKind // kind ≠ certificateKind ∧ (pemBlock kind []).isPrivateKey = false}

inductive BundleItem (X K : Type) where
  | certificate (cert : X)
  | privateKey (key : K)
  | other (kind : OtherKind) (body : Body)

/-- Items with the text in front of each, and the text behind the last. -/
structure Bundle (X K : Type) where
  items : List (Gap × BundleItem X K)
  rest : Gap

structure PemWriter (X K : Type) where
  certificateBody : X → Body
  keyKind : K → KeyKind
  keyBody : K → Body

namespace Bundle

variable {X K : Type}

def certificates (b : Bundle X K) : List X :=
  b.items.filterMap fun
    | (_, .certificate cert) => some cert
    | _ => none

def privateKeys (b : Bundle X K) : List K :=
  b.items.filterMap fun
    | (_, .privateKey key) => some key
    | _ => none

/-- What a certificate bundle and a key bundle stand for together. -/
def pair [Openssl X K] (certs keys : Bundle X K) : Option (CertParts X K) :=
  match certs.certificates, keys.privateKeys with
  | leaf :: chain, key :: _ =>
      if Openssl.publicEq key leaf then some ⟨leaf, chain, key⟩ else none
  | _, _ => none

end Bundle

namespace PemWriter

variable {X K : Type} (w : PemWriter X K)

def block : BundleItem X K → PemBlock
  | .certificate cert => pemBlock certificateKind (w.certificateBody cert).1
  | .privateKey key => pemBlock (w.keyKind key).1 (w.keyBody key).1
  | .other kind body => pemBlock kind.1 body.1

def text (rest : List Char) : List (Gap × BundleItem X K) → List Char
  | [] => rest
  | (gap, item) :: items => gap.1 ++ ((w.block item).pem ++ text rest items)

def encode (b : Bundle X K) : List UInt8 :=
  (w.text b.rest.1 b.items).flatMap String.utf8EncodeChar

structure ReadsBack [Openssl X K] : Prop where
  certificate : ∀ cert, Openssl.x509FromPem K (w.block (.certificate cert)).pem = .ok cert
  privateKey : ∀ key, Openssl.privateKeyFromPem X (w.block (.privateKey key)).pem = .ok key

/-! ## Reading them -/

theorem block_eq_pemBlock (item : BundleItem X K) :
    ∃ (kind : PemKind) (body : Body), w.block item = pemBlock kind body.1 := by
  cases item with
  | certificate cert => exact ⟨_, _, rfl⟩
  | privateKey key => exact ⟨_, _, rfl⟩
  | other kind body => exact ⟨_, _, rfl⟩

theorem pemBundle_text (rest : Gap) (items : List (Gap × BundleItem X K)) :
    PemBundle (w.text rest.1 items) (items.map fun item => w.block item.2) := by
  induction items with
  | nil => exact .tail_of_stem rest.2
  | cons item items ih =>
    obtain ⟨gap, item⟩ := item
    obtain ⟨kind, body, hblock⟩ := w.block_eq_pemBlock item
    rw [text, List.map_cons, hblock]
    exact .block_of_stems kind gap.2 body.2 ih

end PemWriter

theorem pemBlocksOf_of_pemBundle (re : PemRegex) {input : List Char} {blocks : List PemBlock}
    (h : PemBundle input blocks) : pemBlocksOf re input = blocks := by
  have hblocks : pemBlocks re.captures (String.utf8Len input + 1) input = .ok blocks :=
    pemBlocks_of_pemSplit re.leftmost h.pemSplit (Nat.lt_succ_self _)
  rw [pemBlocksOf, hblocks]
  rfl

namespace PemWriter

variable {X K : Type} [Openssl X K] {w : PemWriter X K}

omit [Openssl X K] in
theorem fromUtf8_encode (b : Bundle X K) :
    Text.fromUtf8 (w.encode b) = some (w.text b.rest.1 b.items) :=
  Text.fromUtf8_eq_some_iff.mpr rfl

omit [Openssl X K] in
theorem pemBlocksOf_text (re : PemRegex) (b : Bundle X K) :
    pemBlocksOf re (w.text b.rest.1 b.items) = b.items.map fun item => w.block item.2 :=
  pemBlocksOf_of_pemBundle re (w.pemBundle_text b.rest b.items)

omit [Openssl X K] in
theorem isCertificate_block (item : BundleItem X K) :
    (w.block item).isCertificate = match item with
      | .certificate _ => true
      | _ => false := by
  cases item with
  | certificate cert =>
    change (certificateKind.1 == certificateKind.1) = true
    exact beq_self_eq_true _
  | privateKey key =>
    have hkey := (w.keyKind key).2
    change ((w.keyKind key).1.1 == certificateKind.1) = false
    rw [beq_eq_false_iff_ne]
    intro hkind
    rw [Subtype.ext hkind] at hkey
    revert hkey
    decide +kernel
  | other kind body =>
    change (kind.1.1 == certificateKind.1) = false
    rw [beq_eq_false_iff_ne]
    exact fun hkind => kind.2.1 (Subtype.ext hkind)

omit [Openssl X K] in
theorem isPrivateKey_block (item : BundleItem X K) :
    (w.block item).isPrivateKey = match item with
      | .privateKey _ => true
      | _ => false := by
  cases item with
  | certificate cert =>
    change (pemBlock certificateKind []).isPrivateKey = false
    decide +kernel
  | privateKey key => exact (w.keyKind key).2
  | other kind body => exact kind.2.2

omit [Openssl X K] in
theorem readCertificates_encode (re : PemRegex) {x509FromPem : List Char → Except String X}
    (hw : ∀ cert, x509FromPem (w.block (.certificate cert)).pem = .ok cert) (utf8Message : String)
    (blockMessage : String → String) (b : Bundle X K) :
    readCertificates re x509FromPem utf8Message blockMessage (w.encode b) =
      .ok b.certificates := by
  rw [readCertificates, fromUtf8_encode]
  dsimp only
  rw [pemBlocksOf_text, Bundle.certificates]
  induction b.items with
  | nil => rfl
  | cons item items ih =>
    obtain ⟨gap, item⟩ := item
    have hitem := w.isCertificate_block item
    cases item with
    | certificate cert =>
      rw [List.map_cons, List.filter_cons_of_pos hitem, List.mapM_cons, hw cert, ih]
      rfl
    | privateKey key =>
      rw [List.map_cons, List.filter_cons_of_neg (Bool.eq_false_iff.mp hitem), ih]
      rfl
    | other kind body =>
      rw [List.map_cons, List.filter_cons_of_neg (Bool.eq_false_iff.mp hitem), ih]
      rfl

theorem parsePrivateKey_encode (hw : w.ReadsBack) (b : Bundle X K) :
    parsePrivateKey X (w.encode b) = match b.privateKeys with
      | [] => .error (.configError "private key bundle contains no PRIVATE KEY block")
      | key :: _ => .ok key := by
  rw [parsePrivateKey, fromUtf8_encode]
  dsimp only
  rw [pemBlocksOf_text, Bundle.privateKeys]
  induction b.items with
  | nil => rfl
  | cons item items ih =>
    obtain ⟨gap, item⟩ := item
    have hitem := w.isPrivateKey_block item
    cases item with
    | privateKey key =>
      rw [List.map_cons, List.find?_cons_of_pos hitem]
      dsimp only
      rw [hw.privateKey key]
      rfl
    | certificate cert =>
      rw [List.map_cons, List.find?_cons_of_neg (Bool.eq_false_iff.mp hitem), ih]
      rfl
    | other kind body =>
      rw [List.map_cons, List.find?_cons_of_neg (Bool.eq_false_iff.mp hitem), ih]
      rfl

/-- A certificate bundle and a key bundle, which may be the same, load to the first certificate with
the others behind it and to the first key, when the two fit. -/
theorem fromPemPair_encode (hw : w.ReadsBack) (entryName : String) (certs keys : Bundle X K) :
    fromPemPair entryName (w.encode certs) (w.encode keys) =
      match certs.certificates, keys.privateKeys with
      | [], _ => .error (.configError
          s!"certificate bundle '{entryName}' contains no CERTIFICATE blocks")
      | _ :: _, [] => .error (.configError "private key bundle contains no PRIVATE KEY block")
      | leaf :: chain, key :: _ =>
          if Openssl.publicEq key leaf then .ok ⟨leaf, chain, key⟩
          else .error (.configError
            s!"certificate bundle '{entryName}' private key does not match certificate") := by
  rw [fromPemPair, parseCertificateChain, readCertificates_encode _ hw.certificate]
  cases hcerts : certs.certificates with
  | nil => rfl
  | cons leaf chain =>
    change (parsePrivateKey X (w.encode keys) >>= _) = _
    rw [parsePrivateKey_encode hw]
    cases keys.privateKeys with
    | nil => rfl
    | cons key _ => rfl

theorem fromPemPair_encode_eq_ok_iff (hw : w.ReadsBack) (entryName : String)
    (certs keys : Bundle X K) (parts : CertParts X K) :
    fromPemPair entryName (w.encode certs) (w.encode keys) = .ok parts ↔
      certs.pair keys = some parts := by
  rw [fromPemPair_encode hw, Bundle.pair]
  cases certs.certificates with
  | nil => simp
  | cons leaf chain =>
    cases keys.privateKeys with
    | nil => simp
    | cons key _ =>
      dsimp only
      split <;> simp

/-! ## Storing them -/

def stored (entryName : String) (parts : CertParts X K) : LoadedCertificate (CertParts X K) :=
  ⟨entryName, parts, extractCertificateNames (LeafLoader.dnsNames parts)
    (LeafLoader.commonNames parts)⟩

theorem loads_encode_iff (hw : w.ReadsBack) {entries : FabioEntries} {entryName keyName : String}
    {certs keys : Bundle X K}
    (hentry : classifyFabioEntry entryName = some (entryName, entryName, keyName))
    (hcerts : entries[entryName]? = some (w.encode certs))
    (hkeys : entries[keyName]? = some (w.encode keys))
    (hcertSize : (w.encode certs).length ≤ maxConsulCertEntryBytes)
    (hkeySize : (w.encode keys).length ≤ maxConsulCertEntryBytes)
    (cert : LoadedCertificate (CertParts X K)) :
    Loads entries entryName cert ↔
      ∃ parts, certs.pair keys = some parts ∧ cert = stored entryName parts := by
  constructor
  · rintro ⟨keyName', certPem, keyPem, hentry', hcerts', hkeys', -, -, hload⟩
    cases hentry.symm.trans hentry'
    cases hcerts.symm.trans hcerts'
    cases hkeys.symm.trans hkeys'
    cases hpair : (fromPemPair entryName (w.encode certs) (w.encode keys) :
        Except TlsError (CertParts X K)) with
    | error e =>
      simp only [LoadedCertificate.fromPemPair, PemLoader.load, LeafLoader.load, hpair] at hload
      cases hload
    | ok parts =>
      simp only [LoadedCertificate.fromPemPair, PemLoader.load, LeafLoader.load, hpair] at hload
      cases hload
      exact ⟨parts, (fromPemPair_encode_eq_ok_iff hw entryName certs keys parts).mp hpair, rfl⟩
  · rintro ⟨parts, hpair, rfl⟩
    refine ⟨keyName, _, _, hentry, hcerts, hkeys, hcertSize, hkeySize, ?_⟩
    rw [← fromPemPair_encode_eq_ok_iff hw entryName] at hpair
    simp only [LoadedCertificate.fromPemPair, PemLoader.load, LeafLoader.load, hpair]
    rfl

/-- Whatever the store holds, bundles that fit together are served as they were written, and others
leave the certificate of their entry as it was. -/
theorem certificate_applyConsulSnapshot_encode (hw : w.ReadsBack)
    (s : DynamicCertStore (CertParts X K)) {entries : FabioEntries} {entryName keyName : String}
    {certs keys : Bundle X K}
    (hentry : classifyFabioEntry entryName = some (entryName, entryName, keyName))
    (hcerts : entries[entryName]? = some (w.encode certs))
    (hkeys : entries[keyName]? = some (w.encode keys))
    (hcertSize : (w.encode certs).length ≤ maxConsulCertEntryBytes)
    (hkeySize : (w.encode keys).length ≤ maxConsulCertEntryBytes)
    (consulIndex : ℕ) (now : ℕ → ℕ) :
    (s.applyConsulSnapshot entries consulIndex now).certificate entryName =
      match certs.pair keys with
      | some parts => some (stored entryName parts)
      | none => s.certificate entryName := by
  have hnamed : NamedIn entries.keys entryName := by
    refine ⟨entryName, ?_, _, _, hentry⟩
    rw [Std.TreeMap.mem_keys, Std.TreeMap.mem_iff_isSome_getElem?, hcerts]
    rfl
  have hloads := loads_encode_iff hw hentry hcerts hkeys hcertSize hkeySize
  cases hpair : certs.pair keys with
  | some parts =>
    have hload : Loads entries entryName (stored entryName parts) :=
      (hloads _).mpr ⟨parts, hpair, rfl⟩
    have heffective : s.Effective entries := ⟨entryName, _, hnamed, .inl hload⟩
    exact (s.certificate_of_effective consulIndex now heffective entryName _).mpr
      ⟨hnamed, .inl hload⟩
  | none =>
    have hfresh : ∀ fresh : LoadedCertificate (CertParts X K), ¬Loads entries entryName fresh := by
      intro fresh hload
      obtain ⟨parts, hparts, -⟩ := (hloads fresh).mp hload
      rw [hpair] at hparts
      cases hparts
    by_cases heffective : s.Effective entries
    · ext cert
      rw [s.certificate_of_effective consulIndex now heffective]
      simp [hnamed, hfresh]
    · rw [DynamicCertStore.certificate,
        s.snapshot_of_not_effective consulIndex now heffective]
      rfl

/-! ## An example -/

section Example

@[reducible] def sampleOpenssl : Openssl Bool Bool where
  pemBeginRe := ⟨findPemBegin, findsLeftmost_findPemBegin⟩
  x509FromPem pem := .ok (decide ("MIIB1".toList <:+: pem))
  privateKeyFromPem pem := .ok (decide ("MIIE1".toList <:+: pem))
  publicEq key cert := key == cert
  dnsNames cert := if cert then ["one.example"] else ["two.example"]
  commonNames _ := []
  notAfterUnix _ := none
  utf8Error _ := "invalid utf-8"

attribute [local instance] sampleOpenssl

def sampleWriter : PemWriter Bool Bool where
  certificateBody cert :=
    if cert then ⟨"MIIB1".toList, by decide +kernel⟩ else ⟨"MIIB0".toList, by decide +kernel⟩
  keyKind _ := ⟨privateKeyKind, by decide +kernel⟩
  keyBody key :=
    if key then ⟨"MIIE1".toList, by decide +kernel⟩ else ⟨"MIIE0".toList, by decide +kernel⟩

def noGap : Gap := ⟨[], by decide +kernel⟩

def sampleBundle : Bundle Bool Bool where
  items := [(⟨"# key\n".toList, by decide +kernel⟩, .privateKey true), (noGap, .certificate true),
    (⟨"\n".toList, by decide +kernel⟩, .certificate false)]
  rest := noGap

theorem readsBack_sampleWriter : sampleWriter.ReadsBack where
  certificate cert := by cases cert <;> decide +kernel
  privateKey key := by cases key <;> decide +kernel

/-- The key in front of the chain, in one blob. -/
theorem certificate_applyConsulSnapshot_encode_sampleBundle :
    ((DynamicCertStore.new true).applyConsulSnapshot
      (.ofList [("a.pem", sampleWriter.encode sampleBundle)]) 7 fun _ => 0).certificate "a.pem" =
      some (⟨"a.pem", ⟨true, [false], true⟩, ["one.example"]⟩ :
        LoadedCertificate (CertParts Bool Bool)) := by
  have hsize : (sampleWriter.encode sampleBundle).length ≤ maxConsulCertEntryBytes := by
    decide +kernel
  have hblob : (Std.TreeMap.ofList
      [("a.pem", sampleWriter.encode sampleBundle)] : FabioEntries)["a.pem"]? =
      some (sampleWriter.encode sampleBundle) := by
    decide +kernel
  have h := certificate_applyConsulSnapshot_encode readsBack_sampleWriter
    (DynamicCertStore.new true) (by decide +kernel) hblob hblob hsize hsize 7 fun _ => 0
  exact h.trans (by decide +kernel)

end Example

end PemWriter

end SentirumLb
