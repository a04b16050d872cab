import SentirumLb.Lib.AssocMap
import SentirumLb.Lib.Text

/-! # Certificates from key-value entries

A snapshot of the certificate store is built from blobs under the names of
their files. A certificate and its key come as a `-cert.pem` and a `-key.pem`
blob, or together as one `.pem` blob. An entry that cannot be loaded keeps the
certificate that the previous snapshot has for it.
-/

namespace SentirumLb

/-- Blobs by base name, in the order of the names. -/
abbrev FabioEntries := Std.TreeMap String (List UInt8)

/-- What OpenSSL makes of the blobs of an entry: its certificates and key `C`, with the names on the
leaf certificate, or an error. -/
class PemLoader (C : Type) where
  load : String → List UInt8 → List UInt8 → Except String (C × List String)
  notAfterUnix : C → Option ℕ

structure LoadedCertificate (C : Type) where
  entryName : String
  parts : C
  names : List String
  deriving DecidableEq

structure CertSnapshot (C : Type) where
  ordered : List (LoadedCertificate C)
  byName : AssocMap String ℕ
  byEntryName : AssocMap String (LoadedCertificate C)
  nodup_entryNames : (ordered.map (·.entryName)).Nodup
  lookup_byEntryName : ∀ entryName cert, byEntryName.lookup entryName = some cert ↔
    cert ∈ ordered ∧ cert.entryName = entryName
  lookup_byName : ∀ name, byName.lookup name = ordered.findIdx? (name ∈ ·.names)

/-! ## Entries and their blobs -/

/-- The entry that a blob belongs to, with the names of its certificate and key blobs. -/
def classifyFabioEntry (name : String) : Option (String × String × String) :=
  match Text.stripSuffix name "-cert.pem" with
  | some base => some (name, name, base ++ "-key.pem")
  | none =>
      match Text.stripSuffix name "-key.pem" with
      | some base => some (base ++ "-cert.pem", base ++ "-cert.pem", name)
      | none => if Text.endsWith name ".pem" then some (name, name, name) else none

def maxConsulCertEntryBytes : ℕ := 1048576

def validateEntrySize (entryName : String) (byteLen : ℕ) : Except String Unit :=
  if byteLen > maxConsulCertEntryBytes then
    .error
      s!"entry '{entryName}' exceeds max size {maxConsulCertEntryBytes} bytes ({byteLen} bytes)"
  else .ok ()

/-- A key in the blob of its certificate has had its size checked there. -/
def validateKeySize (certName keyName : String) (byteLen : ℕ) : Except String Unit :=
  if keyName ≠ certName then validateEntrySize keyName byteLen else .ok ()

theorem validateEntrySize_eq_ok {entryName : String} {byteLen : ℕ} :
    validateEntrySize entryName byteLen = .ok () ↔ byteLen ≤ maxConsulCertEntryBytes := by
  unfold validateEntrySize
  split <;> simp <;> omega

theorem key_ne_cert (b b' : String) : b ++ "-key.pem" ≠ b' ++ "-cert.pem" := by
  intro h
  have hlast := congrArg (fun s : String => s.toList.reverse.take 8) h
  simp [String.toList_append, List.reverse_append] at hlast

theorem classifyFabioEntry_spec {name entryName certName keyName : String}
    (h : classifyFabioEntry name = some (entryName, certName, keyName)) :
    certName = entryName ∧ classifyFabioEntry entryName = some (entryName, entryName, keyName) ∧
      ((∃ b, entryName = b ++ "-cert.pem" ∧ keyName = b ++ "-key.pem") ∨ keyName = entryName) := by
  have h' := h
  unfold classifyFabioEntry at h
  split at h
  · next b hb =>
    cases h
    exact ⟨rfl, h', Or.inl ⟨b, Text.stripSuffix_eq_some_iff.mp hb, rfl⟩⟩
  · split at h
    · next b hb =>
      cases h
      refine ⟨rfl, ?_, Or.inl ⟨b, rfl, Text.stripSuffix_eq_some_iff.mp hb⟩⟩
      have hc : Text.stripSuffix (b ++ "-cert.pem") "-cert.pem" = some b :=
        Text.stripSuffix_eq_some_iff.mpr rfl
      rw [Text.stripSuffix_eq_some_iff.mp hb]
      simp only [classifyFabioEntry, hc]
    · split at h
      · cases h
        exact ⟨rfl, h', Or.inr rfl⟩
      · cases h

/-- The key blob of one entry is never the certificate blob of another. -/
theorem eq_of_classify_key {e k e' k' : String} (h : classifyFabioEntry e = some (e, e, k))
    (h' : classifyFabioEntry e' = some (e', e', k')) (hk : e = k') : e = e' := by
  obtain ⟨-, -, ⟨b', rfl, rfl⟩ | rfl⟩ := classifyFabioEntry_spec h'
  · obtain ⟨-, -, ⟨b, hb, -⟩ | rfl⟩ := classifyFabioEntry_spec h
    · exact absurd (hk.symm.trans hb) (key_ne_cert b' b)
    · have hnone : Text.stripSuffix (b' ++ "-key.pem") "-cert.pem" = none := by
        by_contra hne
        obtain ⟨b, hb⟩ := Option.ne_none_iff_exists'.mp hne
        exact key_ne_cert b' b (Text.stripSuffix_eq_some_iff.mp hb)
      have hsome : Text.stripSuffix (b' ++ "-key.pem") "-key.pem" = some b' :=
        Text.stripSuffix_eq_some_iff.mpr rfl
      rw [hk] at h
      simp only [classifyFabioEntry, hnone, hsome, Option.some.injEq, Prod.mk.injEq] at h
      exact absurd h.1.symm (key_ne_cert b' b')
  · exact hk

variable {names : List String} {name entryName certName keyName : String}

def NamedIn (names : List String) (entryName : String) : Prop :=
  ∃ name ∈ names, ∃ certName keyName,
    classifyFabioEntry name = some (entryName, certName, keyName)

theorem namedIn_concat : NamedIn (names ++ [name]) entryName ↔ NamedIn names entryName ∨
    ∃ certName keyName, classifyFabioEntry name = some (entryName, certName, keyName) := by
  simp [NamedIn, or_and_right, exists_or]

variable {C : Type} [PemLoader C]

def LoadedCertificate.fromPemPair (entryName : String) (certPem keyPem : List UInt8) :
    Except String (LoadedCertificate C) :=
  (PemLoader.load entryName certPem keyPem).map fun (parts, names) => ⟨entryName, parts, names⟩

def loadEntry (entries : FabioEntries) (entryName certName keyName : String) :
    Except String (LoadedCertificate C) :=
  match entries[certName]? with
  | none => .error s!"missing certificate blob '{certName}' for entry '{entryName}'"
  | some certPem =>
      match entries[keyName]? with
      | none => .error s!"missing private key blob '{keyName}' for entry '{entryName}'"
      | some keyPem => do
          validateEntrySize certName certPem.length
          validateKeySize certName keyName keyPem.length
          (LoadedCertificate.fromPemPair entryName certPem keyPem).mapError
            fun err => s!"{entryName}: {err}"

def Loads (entries : FabioEntries) (entryName : String) (cert : LoadedCertificate C) : Prop :=
  ∃ keyName certPem keyPem, classifyFabioEntry entryName = some (entryName, entryName, keyName) ∧
    entries[entryName]? = some certPem ∧ entries[keyName]? = some keyPem ∧
    certPem.length ≤ maxConsulCertEntryBytes ∧ keyPem.length ≤ maxConsulCertEntryBytes ∧
    LoadedCertificate.fromPemPair entryName certPem keyPem = .ok cert

theorem entryName_of_fromPemPair {entryName : String} {certPem keyPem : List UInt8}
    {cert : LoadedCertificate C}
    (h : LoadedCertificate.fromPemPair entryName certPem keyPem = .ok cert) :
    cert.entryName = entryName := by
  unfold LoadedCertificate.fromPemPair at h
  cases hl : (PemLoader.load entryName certPem keyPem : Except String (C × List String)) with
  | error e =>
    rw [hl] at h
    cases h
  | ok p =>
    rw [hl] at h
    cases h
    rfl

theorem bind_eq_ok_iff {α β : Type} {x : Except String α} {f : α → Except String β} {b : β} :
    (x >>= f) = .ok b ↔ ∃ a, x = .ok a ∧ f a = .ok b := by
  cases x with
  | error e => simp [bind, Except.bind]
  | ok a => simp [bind, Except.bind]

theorem mapError_eq_ok_iff {α : Type} {x : Except String α} {f : String → String} {a : α} :
    x.mapError f = .ok a ↔ x = .ok a := by
  cases x with
  | error e => simp [Except.mapError]
  | ok a => simp [Except.mapError]

theorem loadEntry_eq_ok_iff {entries : FabioEntries} {entryName keyName : String}
    {cert : LoadedCertificate C}
    (h : classifyFabioEntry entryName = some (entryName, entryName, keyName)) :
    loadEntry entries entryName entryName keyName = .ok cert ↔ Loads entries entryName cert := by
  unfold loadEntry Loads
  simp only [h, Option.some.injEq, Prod.mk.injEq, true_and]
  cases hc : entries[entryName]? with
  | none => simp
  | some certPem =>
    cases hk : entries[keyName]? with
    | none =>
      simp only [reduceCtorEq, false_iff]
      rintro ⟨_, _, keyPem, rfl, _, hk', _⟩
      simp [hk] at hk'
    | some keyPem =>
      simp only [bind_eq_ok_iff, mapError_eq_ok_iff]
      constructor
      · rintro ⟨_, hcert, _, hkey, hload⟩
        refine ⟨keyName, certPem, keyPem, rfl, rfl, hk, validateEntrySize_eq_ok.mp hcert, ?_, hload⟩
        by_cases hne : keyName = entryName
        · rw [hne, hc, Option.some.injEq] at hk
          rw [← hk]
          exact validateEntrySize_eq_ok.mp hcert
        · rw [validateKeySize, if_pos hne, validateEntrySize_eq_ok] at hkey
          exact hkey
      · rintro ⟨_, _, _, rfl, hc', hk', hcert, hkey, hload⟩
        cases hc'
        cases hk.symm.trans hk'
        refine ⟨(), validateEntrySize_eq_ok.mpr hcert, (), ?_, hload⟩
        unfold validateKeySize
        split
        · exact validateEntrySize_eq_ok.mpr hkey
        · rfl

/-! ## Building a snapshot -/

def indexNames (ordered : List (LoadedCertificate C)) : AssocMap String ℕ :=
  ordered.zipIdx.foldl (fun m e => e.1.names.foldl (fun m name => m.orInsert name e.2) m) ∅

omit [PemLoader C] in
theorem lookup_foldl_orInsert (names : List String) (idx : ℕ) (m : AssocMap String ℕ)
    (name : String) : (names.foldl (fun m name => m.orInsert name idx) m).lookup name =
      (m.lookup name).or (if name ∈ names then some idx else none) := by
  induction names generalizing m with
  | nil => simp
  | cons n names ih =>
    rw [List.foldl_cons, ih]
    by_cases h : name = n
    · subst h
      cases hm : m.lookup name <;> simp [hm]
    · simp [h]

omit [PemLoader C] in
theorem lookup_indexNames (ordered : List (LoadedCertificate C)) (name : String) :
    (indexNames ordered).lookup name = ordered.findIdx? (name ∈ ·.names) := by
  have hfold : ∀ (k : ℕ) (m : AssocMap String ℕ),
      ((ordered.zipIdx k).foldl
        (fun m e => e.1.names.foldl (fun m name => m.orInsert name e.2) m) m).lookup name =
      (m.lookup name).or ((ordered.findIdx? (name ∈ ·.names)).map (· + k)) := by
    induction ordered with
    | nil => simp
    | cons cert ordered ih =>
      intro k m
      rw [List.zipIdx_cons, List.foldl_cons, ih, lookup_foldl_orInsert, List.findIdx?_cons,
        Option.or_assoc]
      by_cases h : name ∈ cert.names
      · simp [h]
      · simp [h, Function.comp_def, Nat.add_comm, Nat.add_left_comm]
  simpa [indexNames] using hfold 0 ∅

namespace CertSnapshot

structure Builder (C : Type) where
  ordered : List (LoadedCertificate C) := []
  byEntryName : AssocMap String (LoadedCertificate C) := ∅
  handled : Finset String := ∅
  warnings : List String := []

def Builder.push (b : Builder C) (entryName : String) (cert : LoadedCertificate C) : Builder C :=
  { b with
    ordered := b.ordered ++ [cert]
    byEntryName := AList.insert entryName cert b.byEntryName }

def Builder.warn (b : Builder C) (warning : String) : Builder C :=
  { b with warnings := b.warnings ++ [warning] }

def maybeReusePrevious (previous : CertSnapshot C) (entryName : String) (b : Builder C)
    (reason : String) : Builder C :=
  match previous.byEntryName.lookup entryName with
  | some cert => (b.push entryName cert).warn s!"{reason}; reusing previous certificate"
  | none => b.warn reason

/-- One turn of the loop: the blob under the name is skipped when its entry was met before. -/
def addEntry (entries : FabioEntries) (previous : CertSnapshot C) (b : Builder C) (name : String) :
    Builder C :=
  match classifyFabioEntry name with
  | none => b
  | some (entryName, certName, keyName) =>
      if certName ∈ b.handled then b
      else
        let b := { b with handled := insert keyName (insert certName b.handled) }
        match loadEntry entries entryName certName keyName with
        | .ok cert => b.push entryName cert
        | .error reason => maybeReusePrevious previous entryName b reason

def build (entries : FabioEntries) (previous : CertSnapshot C) : Builder C :=
  entries.keys.foldl (addEntry entries previous) {}

/-! ## What one turn adds -/

/-- The entry is freshly loaded, or else kept from the previous snapshot. -/
def Resolves (entries : FabioEntries) (previous : CertSnapshot C) (entryName : String)
    (cert : LoadedCertificate C) : Prop :=
  Loads entries entryName cert ∨ (∀ fresh : LoadedCertificate C, ¬Loads entries entryName fresh) ∧
    previous.byEntryName.lookup entryName = some cert

def resolve (entries : FabioEntries) (previous : CertSnapshot C) (entryName keyName : String) :
    Option (LoadedCertificate C) :=
  match loadEntry entries entryName entryName keyName with
  | .ok cert => some cert
  | .error _ => previous.byEntryName.lookup entryName

variable {entries : FabioEntries} {previous : CertSnapshot C} {b : Builder C}
  {cert : LoadedCertificate C}

theorem resolve_eq_some_iff
    (h : classifyFabioEntry entryName = some (entryName, entryName, keyName)) :
    resolve entries previous entryName keyName = some cert ↔
      Resolves entries previous entryName cert := by
  unfold resolve Resolves
  simp only [← loadEntry_eq_ok_iff h]
  cases (loadEntry entries entryName entryName keyName : Except _ (LoadedCertificate C)) with
  | ok fresh => simp
  | error reason => simp

theorem Resolves.entryName_eq (h : Resolves entries previous entryName cert) :
    cert.entryName = entryName := by
  rcases h with ⟨_, _, _, -, -, -, -, -, hload⟩ | ⟨-, hlookup⟩
  · exact entryName_of_fromPemPair hload
  · exact ((previous.lookup_byEntryName entryName cert).mp hlookup).2

structure Builder.Adds (b b' : Builder C) (entryName keyName : String)
    (found : Option (LoadedCertificate C)) : Prop where
  handled : b'.handled = insert keyName (insert entryName b.handled)
  ordered : b'.ordered = b.ordered ++ found.toList
  byEntryName : b'.byEntryName =
    found.elim b.byEntryName (AList.insert entryName · b.byEntryName)

omit [PemLoader C] in
theorem Builder.Adds.lookup_iff {b' : Builder C} {found : Option (LoadedCertificate C)}
    (h : b.Adds b' entryName keyName found) (hnone : b.byEntryName.lookup entryName = none)
    (e : String) (c : LoadedCertificate C) : b'.byEntryName.lookup e = some c ↔
      e = entryName ∧ found = some c ∨ e ≠ entryName ∧ b.byEntryName.lookup e = some c := by
  rw [h.byEntryName]
  by_cases he : e = entryName
  · subst he
    cases found with
    | none => simp [hnone]
    | some c' => simp
  · cases found with
    | none => simp [he]
    | some c' => simp [he, AList.lookup_insert_ne he]

section New

variable {b' : Builder C} {found : Option (LoadedCertificate C)}
  (hfound : ∀ c, found = some c → c.entryName = entryName)
  (hne : ∀ c ∈ b.ordered, c.entryName ≠ entryName)

include hfound hne

omit [PemLoader C] in
theorem Builder.Adds.mem_ordered_iff (h : b.Adds b' entryName keyName found) (e : String)
    (c : LoadedCertificate C) : c ∈ b'.ordered ∧ c.entryName = e ↔
      e = entryName ∧ found = some c ∨ e ≠ entryName ∧ c ∈ b.ordered ∧ c.entryName = e := by
  rw [h.ordered, List.mem_append, Option.mem_toList]
  constructor
  · rintro ⟨hc | hc, rfl⟩
    · exact Or.inr ⟨hne c hc, hc, rfl⟩
    · exact Or.inl ⟨hfound c hc, hc⟩
  · rintro (⟨rfl, hc⟩ | ⟨-, hc, he⟩)
    · exact ⟨Or.inr hc, hfound c hc⟩
    · exact ⟨Or.inl hc, he⟩

omit [PemLoader C] in
theorem Builder.Adds.nodup (h : b.Adds b' entryName keyName found)
    (hnodup : (b.ordered.map (·.entryName)).Nodup) : (b'.ordered.map (·.entryName)).Nodup := by
  rw [h.ordered, List.map_append, List.nodup_append]
  refine ⟨hnodup, ?_, ?_⟩
  · cases found <;> simp
  · intro x hx y hy
    obtain ⟨c, hc, rfl⟩ := List.mem_map.mp hx
    obtain ⟨c', hc', rfl⟩ := List.mem_map.mp hy
    rw [hfound c' (Option.mem_toList.mp hc')]
    exact hne c hc

end New

theorem addEntry_of_not_mem (entries : FabioEntries) (previous : CertSnapshot C)
    (h : classifyFabioEntry name = some (entryName, entryName, keyName))
    (hn : entryName ∉ b.handled) :
    b.Adds (addEntry entries previous b name) entryName keyName
      (resolve entries previous entryName keyName) := by
  unfold addEntry resolve
  simp only [h, hn, if_false]
  cases (loadEntry entries entryName entryName keyName : Except _ (LoadedCertificate C)) with
  | ok fresh => exact ⟨rfl, rfl, rfl⟩
  | error reason =>
    simp only [maybeReusePrevious]
    cases previous.byEntryName.lookup entryName with
    | some kept => exact ⟨rfl, rfl, rfl⟩
    | none => exact ⟨rfl, (List.append_nil _).symm, rfl⟩

/-! ## What the loop has built -/

structure Builder.Built (entries : FabioEntries) (previous : CertSnapshot C) (names : List String)
    (b : Builder C) : Prop where
  mem_handled : ∀ blob, blob ∈ b.handled ↔ ∃ entryName keyName, NamedIn names entryName ∧
    classifyFabioEntry entryName = some (entryName, entryName, keyName) ∧
    (blob = entryName ∨ blob = keyName)
  lookup_iff : ∀ entryName cert, b.byEntryName.lookup entryName = some cert ↔
    NamedIn names entryName ∧ Resolves entries previous entryName cert
  mem_ordered : ∀ entryName cert, b.byEntryName.lookup entryName = some cert ↔
    cert ∈ b.ordered ∧ cert.entryName = entryName
  nodup : (b.ordered.map (·.entryName)).Nodup

namespace Builder.Built

theorem mem_handled_iff (hb : b.Built entries previous names)
    (h : classifyFabioEntry entryName = some (entryName, entryName, keyName)) :
    entryName ∈ b.handled ↔ NamedIn names entryName := by
  rw [hb.mem_handled]
  constructor
  · rintro ⟨e, k, hnamed, hk, rfl | heq⟩
    · exact hnamed
    · exact eq_of_classify_key h hk heq ▸ hnamed
  · intro hnamed
    exact ⟨entryName, keyName, hnamed, h, Or.inl rfl⟩

theorem nil : ({} : Builder C).Built entries previous [] := by
  constructor <;> simp [NamedIn]

theorem concat_of_namedIn (hb : b.Built entries previous names)
    (h : ∀ entryName, NamedIn (names ++ [name]) entryName ↔ NamedIn names entryName) :
    b.Built entries previous (names ++ [name]) := by
  constructor
  · simpa only [h] using hb.mem_handled
  · simpa only [h] using hb.lookup_iff
  · exact hb.mem_ordered
  · exact hb.nodup

theorem concat_of_not_namedIn (hb : b.Built entries previous names)
    (hname : classifyFabioEntry name = some (entryName, entryName, keyName))
    (hn : ¬NamedIn names entryName) :
    (addEntry entries previous b name).Built entries previous (names ++ [name]) := by
  obtain ⟨-, hclass, -⟩ := classifyFabioEntry_spec hname
  have hnamed : ∀ e, NamedIn (names ++ [name]) e ↔ NamedIn names e ∨ e = entryName := by
    intro e
    rw [namedIn_concat, hname]
    simp [eq_comm]
  have hadds := addEntry_of_not_mem entries previous hname
    ((hb.mem_handled_iff hclass).not.mpr hn)
  have hresolve : ∀ c, resolve entries previous entryName keyName = some c ↔
      Resolves entries previous entryName c := fun c => resolve_eq_some_iff hclass
  generalize resolve entries previous entryName keyName = found at hadds hresolve
  have hnone : b.byEntryName.lookup entryName = none := by
    rw [Option.eq_none_iff_forall_ne_some]
    intro c hc
    exact hn ((hb.lookup_iff entryName c).mp hc).1
  have hne : ∀ c ∈ b.ordered, c.entryName ≠ entryName := by
    intro c hc he
    simp [(hb.mem_ordered entryName c).mpr ⟨hc, he⟩] at hnone
  have hfound : ∀ c, found = some c → c.entryName = entryName :=
    fun c hc => ((hresolve c).mp hc).entryName_eq
  refine ⟨?_, ?_, ?_, ?_⟩
  · intro blob
    simp only [hadds.handled, Finset.mem_insert, hb.mem_handled, hnamed]
    constructor
    · rintro (rfl | rfl | ⟨e, k, he, hc, hblob⟩)
      · exact ⟨entryName, blob, Or.inr rfl, hclass, Or.inr rfl⟩
      · exact ⟨blob, keyName, Or.inr rfl, hclass, Or.inl rfl⟩
      · exact ⟨e, k, Or.inl he, hc, hblob⟩
    · rintro ⟨e, k, he | rfl, hc, hblob⟩
      · exact Or.inr (Or.inr ⟨e, k, he, hc, hblob⟩)
      · cases hclass.symm.trans hc
        rcases hblob with rfl | rfl
        · exact Or.inr (Or.inl rfl)
        · exact Or.inl rfl
  · intro e c
    rw [hadds.lookup_iff hnone, hb.lookup_iff, hnamed, hresolve]
    constructor
    · rintro (⟨rfl, hc⟩ | ⟨-, he, hc⟩)
      · exact ⟨Or.inr rfl, hc⟩
      · exact ⟨Or.inl he, hc⟩
    · rintro ⟨he | rfl, hc⟩
      · exact Or.inr ⟨fun heq => hn (heq ▸ he), he, hc⟩
      · exact Or.inl ⟨rfl, hc⟩
  · intro e c
    rw [hadds.lookup_iff hnone, hadds.mem_ordered_iff hfound hne, hb.mem_ordered]
  · exact hadds.nodup hfound hne hb.nodup

theorem concat (hb : b.Built entries previous names) (name : String) :
    (addEntry entries previous b name).Built entries previous (names ++ [name]) := by
  cases hname : classifyFabioEntry name with
  | none =>
    have hb' : addEntry entries previous b name = b := by simp [addEntry, hname]
    rw [hb']
    refine hb.concat_of_namedIn fun e => ?_
    simp [namedIn_concat, hname]
  | some p =>
    obtain ⟨entryName, certName, keyName⟩ := p
    obtain ⟨rfl, hclass, -⟩ := classifyFabioEntry_spec hname
    by_cases hn : NamedIn names certName
    · have hmem := (hb.mem_handled_iff hclass).mpr hn
      have hb' : addEntry entries previous b name = b := by simp [addEntry, hname, hmem]
      rw [hb']
      refine hb.concat_of_namedIn fun e => ?_
      rw [namedIn_concat, hname, or_iff_left_of_imp]
      rintro ⟨_, _, h⟩
      cases h
      exact hn
    · exact hb.concat_of_not_namedIn hname hn

theorem build (entries : FabioEntries) (previous : CertSnapshot C) :
    (build entries previous).Built entries previous entries.keys := by
  have hfold : ∀ (rest names : List String) (b : Builder C), b.Built entries previous names →
      (rest.foldl (addEntry entries previous) b).Built entries previous (names ++ rest) := by
    intro rest
    induction rest with
    | nil =>
      intro names b hb
      simpa using hb
    | cons name rest ih =>
      intro names b hb
      simpa using ih _ _ (hb.concat name)
  exact hfold _ [] _ nil

end Builder.Built

def fromFabioEntries (entries : FabioEntries) (previous : CertSnapshot C) :
    CertSnapshot C × List String :=
  let b := build entries previous
  have hb := Builder.Built.build entries previous
  ({ ordered := b.ordered
     byName := indexNames b.ordered
     byEntryName := b.byEntryName
     nodup_entryNames := hb.nodup
     lookup_byEntryName := hb.mem_ordered
     lookup_byName := lookup_indexNames b.ordered }, b.warnings)

theorem lookup_fromFabioEntries (entries : FabioEntries) (previous : CertSnapshot C)
    (entryName : String) (cert : LoadedCertificate C) :
    (fromFabioEntries entries previous).1.byEntryName.lookup entryName = some cert ↔
      NamedIn entries.keys entryName ∧ Resolves entries previous entryName cert :=
  (Builder.Built.build entries previous).lookup_iff entryName cert

end CertSnapshot

@[reducible] def echoLoader : PemLoader (List UInt8) where
  load entryName certPem keyPem :=
    if certPem = keyPem then .ok (certPem, [entryName])
    else .error "private key does not match certificate"
  notAfterUnix _ := none

end SentirumLb
