import SentirumLb.Tls.CertStore

/-! # Selecting a certificate by server name

The names of a certificate are normalized when it is loaded, and a server name is
normalized in the same way when it is looked up. Of the certificates that carry the
name the first is selected, then the first with a wildcard in place of the first
label, and then the default.
-/

namespace SentirumLb

def normalizeDnsName (name : String) : String :=
  Text.toAsciiLowercase (Text.trimEndMatches (Text.trim name) ".")

def normalizeServerName (serverName : Option String) : Option String :=
  (serverName.map normalizeDnsName).filter (· ≠ "")

example : normalizeServerName (some " API.example.com.. ") = some "api.example.com" := by
  decide +kernel

/-! ## The names of a certificate -/

def pushName (s : List String × Finset String) (name : String) : List String × Finset String :=
  let normalized := normalizeDnsName name
  if normalized ≠ "" ∧ normalized ∉ s.2 then (s.1 ++ [normalized], insert normalized s.2) else s

/-- The names of a certificate: the DNS names among its alternative names, then the common names. -/
def extractCertificateNames (dnsNames commonNames : List String) : List String :=
  ((dnsNames ++ commonNames).foldl pushName ([], ∅)).1

theorem mem_foldl_pushName {raws : List String} {s : List String × Finset String}
    (hs : ∀ name, name ∈ s.2 ↔ name ∈ s.1) (name : String) :
    name ∈ (raws.foldl pushName s).1 ↔
      name ∈ s.1 ∨ name ≠ "" ∧ ∃ raw ∈ raws, normalizeDnsName raw = name := by
  induction raws generalizing s with
  | nil => simp
  | cons raw raws ih =>
    rw [List.foldl_cons]
    have hpush : ∀ n, n ∈ (pushName s raw).1 ↔
        n ∈ s.1 ∨ n ≠ "" ∧ normalizeDnsName raw = n := by
      intro n
      unfold pushName
      dsimp only
      split
      · next h =>
        rw [List.mem_append, List.mem_singleton]
        constructor
        · rintro (hn | rfl)
          · exact Or.inl hn
          · exact Or.inr ⟨h.1, rfl⟩
        · rintro (hn | ⟨-, rfl⟩)
          · exact Or.inl hn
          · exact Or.inr rfl
      · next h =>
        refine (or_iff_left_of_imp ?_).symm
        rintro ⟨hne, rfl⟩
        rw [← hs]
        exact not_not.mp fun hnot => h ⟨hne, hnot⟩
    have hseen : ∀ n, n ∈ (pushName s raw).2 ↔ n ∈ (pushName s raw).1 := by
      intro n
      unfold pushName
      dsimp only
      split
      · simp [hs, or_comm]
      · exact hs n
    rw [ih hseen, hpush, List.exists_mem_cons_iff, and_or_left, or_assoc]

theorem mem_extractCertificateNames {dnsNames commonNames : List String} {name : String} :
    name ∈ extractCertificateNames dnsNames commonNames ↔
      name ≠ "" ∧ ∃ raw ∈ dnsNames ++ commonNames, normalizeDnsName raw = name := by
  rw [extractCertificateNames, mem_foldl_pushName (by simp)]
  simp

/-- What OpenSSL makes of the blobs of an entry, with the names as they stand on the leaf
certificate. -/
class LeafLoader (C : Type) where
  load : String → List UInt8 → List UInt8 → Except String C
  dnsNames : C → List String
  /-- The common names of the subject, as far as they are text. -/
  commonNames : C → List String
  notAfterUnix : C → Option ℕ

variable {C : Type} [LeafLoader C]

instance LeafLoader.pemLoader : PemLoader C where
  load entryName certPem keyPem := (LeafLoader.load entryName certPem keyPem).map fun parts =>
    (parts, extractCertificateNames (LeafLoader.dnsNames parts) (LeafLoader.commonNames parts))
  notAfterUnix := LeafLoader.notAfterUnix

namespace LoadedCertificate

/-- The name stands on the leaf certificate, up to normalization. -/
def Carries (cert : LoadedCertificate C) (name : String) : Prop :=
  ∃ raw ∈ LeafLoader.dnsNames cert.parts ++ LeafLoader.commonNames cert.parts,
    normalizeDnsName raw = name

instance (cert : LoadedCertificate C) (name : String) : Decidable (cert.Carries name) :=
  inferInstanceAs (Decidable (∃ raw ∈ _, _))

/-- The names are those that were extracted from the leaf certificate. -/
def Extracted (cert : LoadedCertificate C) : Prop :=
  cert.names = extractCertificateNames (LeafLoader.dnsNames cert.parts)
    (LeafLoader.commonNames cert.parts)

theorem Extracted.mem_names_iff {cert : LoadedCertificate C} (h : cert.Extracted) {name : String}
    (hne : name ≠ "") : name ∈ cert.names ↔ cert.Carries name := by
  rw [h, mem_extractCertificateNames, and_iff_right hne, Carries]

theorem extracted_of_fromPemPair {entryName : String} {certPem keyPem : List UInt8}
    {cert : LoadedCertificate C} (h : fromPemPair entryName certPem keyPem = .ok cert) :
    cert.Extracted := by
  unfold fromPemPair at h
  simp only [PemLoader.load] at h
  cases hl : (LeafLoader.load entryName certPem keyPem : Except String C) with
  | error e =>
    rw [hl] at h
    cases h
  | ok parts =>
    rw [hl] at h
    cases h
    rfl

end LoadedCertificate

/-! ## Selection -/

namespace CertSnapshot

omit [LeafLoader C] in
def select (s : CertSnapshot C) (serverName : Option String) (strictSni : Bool) :
    Option (LoadedCertificate C) :=
  if s.ordered.isEmpty then none
  else
    let fallback := if strictSni then none else s.ordered.head?
    match normalizeServerName serverName with
    | none => fallback
    | some name =>
        match s.byName.lookup name with
        | some index => s.ordered[index]?
        | none =>
            -- first-level wildcard only
            match Text.after '.' name with
            | none => fallback
            | some rest =>
                match s.byName.lookup ("*." ++ rest) with
                | some index => s.ordered[index]?
                | none => fallback

def builtFrom (history : List FabioEntries) : CertSnapshot C :=
  history.foldl (fun s entries => (fromFabioEntries entries s).1) empty

def firstCarrying (s : CertSnapshot C) (name : String) : Option (LoadedCertificate C) :=
  s.ordered.find? (·.Carries name)

theorem extracted_of_mem_fromFabioEntries {entries : FabioEntries} {previous : CertSnapshot C}
    (h : ∀ cert ∈ previous.ordered, cert.Extracted) :
    ∀ cert ∈ (fromFabioEntries entries previous).1.ordered, cert.Extracted := by
  intro cert hmem
  have hlookup := ((fromFabioEntries entries previous).1.lookup_byEntryName _ _).mpr ⟨hmem, rfl⟩
  rw [lookup_fromFabioEntries] at hlookup
  obtain ⟨-, ⟨_, _, _, -, -, -, -, -, hload⟩ | ⟨-, hkept⟩⟩ := hlookup
  · exact LoadedCertificate.extracted_of_fromPemPair hload
  · exact h cert ((previous.lookup_byEntryName _ _).mp hkept).1

theorem extracted_of_mem_builtFrom (history : List FabioEntries) :
    ∀ cert ∈ (builtFrom history : CertSnapshot C).ordered, cert.Extracted := by
  induction history using List.reverseRecOn with
  | nil =>
    intro cert hmem
    cases hmem
  | append_singleton history entries ih =>
    rw [builtFrom, List.foldl_concat]
    exact extracted_of_mem_fromFabioEntries ih

theorem getElem?_lookup_byName {s : CertSnapshot C} (h : ∀ cert ∈ s.ordered, cert.Extracted)
    {name : String} (hne : name ≠ "") :
    (s.byName.lookup name).bind (s.ordered[·]?) = s.firstCarrying name := by
  have hnames : s.ordered.find? (name ∈ ·.names) = s.firstCarrying name := by
    rw [firstCarrying]
    apply List.find?_congr
    intro cert hcert
    exact decide_eq_decide.mpr ((h cert hcert).mem_names_iff hne)
  rw [s.lookup_byName, ← hnames, List.find?_eq_bind_findIdx?_getElem?]

omit [LeafLoader C] in
theorem match_lookup_byName (s : CertSnapshot C) (name : String)
    (other : Option (LoadedCertificate C)) :
    (match s.byName.lookup name with
      | some index => s.ordered[index]?
      | none => other) = ((s.byName.lookup name).bind (s.ordered[·]?)).or other := by
  cases hlookup : s.byName.lookup name with
  | none => rfl
  | some index =>
    obtain ⟨cert, hcert, -⟩ := (s.lookup_byName_eq_some_iff name index).mp hlookup
    simp [hcert]

omit [LeafLoader C] in
def fallback (s : CertSnapshot C) (strictSni : Bool) : Option (LoadedCertificate C) :=
  if strictSni then none else s.ordered.head?

theorem select_eq {s : CertSnapshot C} (h : ∀ cert ∈ s.ordered, cert.Extracted)
    (serverName : Option String) (strictSni : Bool) :
    s.select serverName strictSni =
      match normalizeServerName serverName with
      | none => s.fallback strictSni
      | some name => (s.firstCarrying name).or
          (((Text.after '.' name).bind fun rest => s.firstCarrying ("*." ++ rest)).or
            (s.fallback strictSni)) := by
  unfold select
  split
  · next hempty =>
    have hnil : s.ordered = [] := List.isEmpty_iff.mp hempty
    cases normalizeServerName serverName <;> simp [firstCarrying, fallback, hnil]
  · dsimp only
    cases hname : normalizeServerName serverName with
    | none => rfl
    | some name =>
      have hne : name ≠ "" := by
        simpa using (Option.filter_eq_some_iff.mp hname).2
      dsimp only
      rw [match_lookup_byName, getElem?_lookup_byName h hne]
      congr 1
      cases Text.after '.' name with
      | none => rfl
      | some rest =>
        dsimp only
        rw [match_lookup_byName, getElem?_lookup_byName h (by simp), Option.bind_some]
        rfl

/-- What is selected for a server name: the first certificate that carries it, else the first with a
wildcard in place of its first label, else the default. -/
structure SelectsFirst (s : CertSnapshot C) (serverName : Option String) (strictSni : Bool) :
    Prop where
  exact : ∀ name, normalizeServerName serverName = some name →
    ∀ cert, s.firstCarrying name = some cert → s.select serverName strictSni = some cert
  wildcard : ∀ name, normalizeServerName serverName = some name →
    (∀ cert ∈ s.ordered, ¬cert.Carries name) → ∀ rest, Text.after '.' name = some rest →
    ∀ cert, s.firstCarrying ("*." ++ rest) = some cert → s.select serverName strictSni = some cert
  other : (∀ name, normalizeServerName serverName = some name →
      (∀ cert ∈ s.ordered, ¬cert.Carries name) ∧ ∀ rest, Text.after '.' name = some rest →
        ∀ cert ∈ s.ordered, ¬cert.Carries ("*." ++ rest)) →
    s.select serverName strictSni = if strictSni then none else s.ordered.head?
  lenient : strictSni = false → s.ordered ≠ [] →
    ∃ cert, s.select serverName strictSni = some cert
  unshadowed : ∀ name, normalizeServerName serverName = some name →
    (∃ cert ∈ s.ordered, cert.Carries name) →
    ∀ cert, s.select serverName strictSni = some cert → cert.Carries name

theorem firstCarrying_eq_none_iff {s : CertSnapshot C} {name : String} :
    s.firstCarrying name = none ↔ ∀ cert ∈ s.ordered, ¬cert.Carries name := by
  simp [firstCarrying]

section Extracted

variable {s : CertSnapshot C} (h : ∀ cert ∈ s.ordered, cert.Extracted) {serverName : Option String}
  {strictSni : Bool}
include h

theorem select_eq_fallback (hnone : ∀ name, normalizeServerName serverName = some name →
    (∀ cert ∈ s.ordered, ¬cert.Carries name) ∧ ∀ rest, Text.after '.' name = some rest →
      ∀ cert ∈ s.ordered, ¬cert.Carries ("*." ++ rest)) :
    s.select serverName strictSni = s.fallback strictSni := by
  rw [select_eq h]
  cases hname : normalizeServerName serverName with
  | none => rfl
  | some name =>
    obtain ⟨hexact, hwildcard⟩ := hnone name hname
    dsimp only
    rw [firstCarrying_eq_none_iff.mpr hexact, Option.none_or]
    cases hrest : Text.after '.' name with
    | none => rfl
    | some rest =>
      rw [Option.bind_some, firstCarrying_eq_none_iff.mpr (hwildcard rest hrest)]
      rfl

theorem exists_select (hstrict : strictSni = false) (hne : s.ordered ≠ []) :
    ∃ cert, s.select serverName strictSni = some cert := by
  obtain ⟨default, ordered, hordered⟩ := List.exists_cons_of_ne_nil hne
  have hfallback : s.fallback strictSni = some default := by
    simp [fallback, hstrict, hordered]
  rw [select_eq h, hfallback]
  cases normalizeServerName serverName with
  | none => exact ⟨default, rfl⟩
  | some name =>
    simp only [← Option.isSome_iff_exists, Option.isSome_or, Option.isSome_some, Bool.or_true]

/-- A name that is carried is not served with a certificate that does not carry it. -/
theorem carries_of_select {name : String} (hname : normalizeServerName serverName = some name)
    (hcarried : ∃ cert ∈ s.ordered, cert.Carries name) {cert : LoadedCertificate C}
    (hcert : s.select serverName strictSni = some cert) : cert.Carries name := by
  obtain ⟨carrier, hmem, hcarrier⟩ := hcarried
  obtain ⟨found, hfound⟩ : ∃ found, s.firstCarrying name = some found := by
    rw [← Option.ne_none_iff_exists', ne_eq, firstCarrying_eq_none_iff]
    exact fun hnone => hnone carrier hmem hcarrier
  rw [select_eq h, hname] at hcert
  simp only [hfound, Option.some_or, Option.some.injEq] at hcert
  subst hcert
  simpa using List.find?_some hfound

end Extracted

/-- Every snapshot that is built, from whatever blobs and over whatever earlier ones, selects the
first certificate for every server name. -/
theorem selectsFirst_builtFrom (history : List FabioEntries) (serverName : Option String)
    (strictSni : Bool) :
    (builtFrom history : CertSnapshot C).SelectsFirst serverName strictSni := by
  have hextracted := extracted_of_mem_builtFrom (C := C) history
  have hselect := select_eq hextracted serverName strictSni
  constructor
  case exact =>
    intro name hname cert hcert
    rw [hselect, hname]
    simp [hcert]
  case wildcard =>
    intro name hname hnone rest hrest cert hcert
    rw [hselect, hname]
    simp [firstCarrying_eq_none_iff.mpr hnone, hrest, hcert]
  case other => exact select_eq_fallback hextracted
  case lenient => exact exists_select hextracted
  case unshadowed => exact fun _ hname hcarried _ => carries_of_select hextracted hname hcarried

end CertSnapshot

/-! ## The store -/

namespace DynamicCertStore

omit [LeafLoader C] in
def selectForServerName (s : DynamicCertStore C) (serverName : Option String) :
    Option (LoadedCertificate C) :=
  s.snapshot.select serverName s.strictSni

theorem exists_builtFrom_applyReloads (strictSni : Bool) (reloads : List ConsulReload) :
    ∃ history, ((new strictSni : DynamicCertStore C).applyReloads reloads).snapshot =
      CertSnapshot.builtFrom history := by
  refine invariant_applyReloads (P := fun s => ∃ history, s.snapshot =
    CertSnapshot.builtFrom history) ?_ ⟨[], rfl⟩ reloads
  rintro s r ⟨history, hs⟩
  by_cases h : s.Effective r.entries
  · refine ⟨history ++ [r.entries], ?_⟩
    rw [snapshot_of_effective s r.consulIndex r.now h, hs, CertSnapshot.builtFrom,
      CertSnapshot.builtFrom, List.foldl_concat]
  · exact ⟨history, (snapshot_of_not_effective s r.consulIndex r.now h).trans hs⟩

/-- Whatever was reloaded, a name that a stored certificate carries is never served with another
one. -/
theorem carries_of_selectForServerName {strictSni : Bool} {reloads : List ConsulReload}
    {s : DynamicCertStore C} (hs : s = (new strictSni).applyReloads reloads)
    {serverName : Option String} {name : String}
    (hname : normalizeServerName serverName = some name)
    (hcarried : ∃ cert ∈ s.snapshot.ordered, cert.Carries name) {cert : LoadedCertificate C}
    (hcert : s.selectForServerName serverName = some cert) : cert.Carries name := by
  obtain ⟨history, hhistory⟩ := exists_builtFrom_applyReloads (C := C) strictSni reloads
  rw [← hs] at hhistory
  rw [selectForServerName] at hcert
  rw [hhistory] at hcarried hcert
  exact CertSnapshot.carries_of_select (CertSnapshot.extracted_of_mem_builtFrom history) hname
    hcarried hcert

end DynamicCertStore

end SentirumLb
