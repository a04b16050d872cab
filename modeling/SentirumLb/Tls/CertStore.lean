import SentirumLb.Tls.CertSnapshot

/-! # The certificate store

A snapshot of blobs replaces the stored certificates only if it leaves some;
otherwise the last known good ones stay. The status repeats what is stored.
-/

namespace SentirumLb

structure DynamicTlsCertificateStatus where
  entryName : String
  primaryName : Option String
  notAfterUnix : Option ℕ
  daysRemaining : Option ℤ
  deriving DecidableEq

structure DynamicTlsStatus where
  loadedCertificates : List String := []
  certificates : List DynamicTlsCertificateStatus := []
  defaultCertificate : Option String := none
  lastConsulIndex : ℕ := 0
  lastReloadUnix : Option ℕ := none
  lastError : Option String := none
  deriving DecidableEq

structure DynamicCertStore (C : Type) where
  snapshot : CertSnapshot C
  status : DynamicTlsStatus
  strictSni : Bool

variable {C : Type}

namespace CertSnapshot

def empty : CertSnapshot C where
  ordered := []
  byName := ∅
  byEntryName := ∅
  nodup_entryNames := List.nodup_nil
  lookup_byEntryName := by simp
  lookup_byName := by simp

def entryNames (s : CertSnapshot C) : List String := s.ordered.map (·.entryName)

def defaultCertificateName (s : CertSnapshot C) : Option String :=
  s.ordered.head?.map (·.entryName)

theorem lookup_byName_eq_some_iff (s : CertSnapshot C) (name : String) (i : ℕ) :
    s.byName.lookup name = some i ↔ ∃ cert, s.ordered[i]? = some cert ∧ name ∈ cert.names ∧
      ∀ j < i, ∀ cert', s.ordered[j]? = some cert' → name ∉ cert'.names := by
  rw [s.lookup_byName, List.findIdx?_eq_some_iff_getElem]
  simp only [decide_eq_true_eq]
  constructor
  · rintro ⟨hi, hname, hfirst⟩
    refine ⟨s.ordered[i], List.getElem?_eq_getElem hi, hname, ?_⟩
    rintro j hj cert' hcert'
    obtain ⟨_, rfl⟩ := List.getElem?_eq_some_iff.mp hcert'
    exact hfirst j hj
  · rintro ⟨cert, hcert, hname, hfirst⟩
    obtain ⟨hi, rfl⟩ := List.getElem?_eq_some_iff.mp hcert
    exact ⟨hi, hname, fun j hj => hfirst j hj _ (List.getElem?_eq_getElem (hj.trans hi))⟩

theorem ordered_ne_nil_iff (s : CertSnapshot C) :
    s.ordered ≠ [] ↔ ∃ entryName cert, s.byEntryName.lookup entryName = some cert := by
  simp only [s.lookup_byEntryName]
  constructor
  · intro h
    obtain ⟨cert, hcert⟩ := List.exists_mem_of_ne_nil s.ordered h
    exact ⟨cert.entryName, cert, hcert, rfl⟩
  · rintro ⟨-, cert, hcert, rfl⟩
    exact List.ne_nil_of_mem hcert

end CertSnapshot

variable [PemLoader C]

def LoadedCertificate.runtimeStatus (cert : LoadedCertificate C) (now : ℕ) :
    DynamicTlsCertificateStatus :=
  let notAfterUnix := PemLoader.notAfterUnix cert.parts
  { entryName := cert.entryName
    primaryName := cert.names.head?
    notAfterUnix := notAfterUnix
    daysRemaining := notAfterUnix.map fun notAfter => ((notAfter : ℤ) - now).tdiv 86400 }

/-- The clock is read again for each certificate. -/
def CertSnapshot.runtimeCertificates (s : CertSnapshot C) (now : ℕ → ℕ) :
    List DynamicTlsCertificateStatus :=
  s.ordered.mapIdx fun i cert => cert.runtimeStatus (now i)

namespace DynamicCertStore

omit [PemLoader C] in
def new (strictSni : Bool) : DynamicCertStore C where
  snapshot := .empty
  status := {}
  strictSni := strictSni

omit [PemLoader C] in
def keepLastKnownGood (s : DynamicCertStore C) (consulIndex : ℕ) (error : String) :
    DynamicCertStore C :=
  { s with status := { s.status with lastConsulIndex := consulIndex, lastError := some error } }

/-- The clock is read for each certificate of the new snapshot, and then for the time of the
reload. -/
def applyConsulSnapshot (s : DynamicCertStore C) (entries : FabioEntries) (consulIndex : ℕ)
    (now : ℕ → ℕ) : DynamicCertStore C :=
  if entries.isEmpty then
    s.keepLastKnownGood consulIndex
      "received empty certificate snapshot from Consul; keeping last known good store"
  else
    let (nextSnapshot, warnings) := CertSnapshot.fromFabioEntries entries s.snapshot
    if nextSnapshot.ordered.isEmpty then
      s.keepLastKnownGood consulIndex (warnings.head?.getD
        "no valid TLS certificates remain after Consul reload; keeping last known good store")
    else
      { s with
        snapshot := nextSnapshot
        status :=
          { loadedCertificates := nextSnapshot.entryNames
            certificates := nextSnapshot.runtimeCertificates now
            defaultCertificate := nextSnapshot.defaultCertificateName
            lastConsulIndex := consulIndex
            lastReloadUnix := some (now nextSnapshot.ordered.length)
            lastError := if warnings.isEmpty then none else some (" | ".intercalate warnings) } }

theorem lastConsulIndex_applyConsulSnapshot (s : DynamicCertStore C) (entries : FabioEntries)
    (consulIndex : ℕ) (now : ℕ → ℕ) :
    (s.applyConsulSnapshot entries consulIndex now).status.lastConsulIndex = consulIndex := by
  unfold applyConsulSnapshot
  split
  · rfl
  · dsimp only
    split <;> rfl

def certificate (s : DynamicCertStore C) (entryName : String) : Option (LoadedCertificate C) :=
  s.snapshot.byEntryName.lookup entryName

/-- Some entry that the blobs name has a certificate, fresh or kept. -/
def Effective (s : DynamicCertStore C) (entries : FabioEntries) : Prop :=
  ∃ entryName cert, NamedIn entries.keys entryName ∧
    CertSnapshot.Resolves entries s.snapshot entryName cert

variable (s : DynamicCertStore C) {entries : FabioEntries} (consulIndex : ℕ) (now : ℕ → ℕ)

theorem effective_iff : s.Effective entries ↔
    (CertSnapshot.fromFabioEntries entries s.snapshot).1.ordered ≠ [] := by
  rw [CertSnapshot.ordered_ne_nil_iff]
  simp only [CertSnapshot.lookup_fromFabioEntries, Effective]

theorem Effective.isEmpty_eq_false {s : DynamicCertStore C} (h : s.Effective entries) :
    entries.isEmpty = false := by
  obtain ⟨-, -, ⟨name, hname, -⟩, -⟩ := h
  exact Std.TreeMap.isEmpty_eq_false_iff_exists_mem.mpr ⟨name, Std.TreeMap.mem_keys.mp hname⟩

theorem snapshot_of_effective (h : s.Effective entries) :
    (s.applyConsulSnapshot entries consulIndex now).snapshot =
      (CertSnapshot.fromFabioEntries entries s.snapshot).1 := by
  have hne := List.isEmpty_eq_false_iff.mpr (s.effective_iff.mp h)
  simp [applyConsulSnapshot, h.isEmpty_eq_false, hne]

theorem snapshot_of_not_effective (h : ¬s.Effective entries) :
    (s.applyConsulSnapshot entries consulIndex now).snapshot = s.snapshot := by
  have hnil : (CertSnapshot.fromFabioEntries entries s.snapshot).1.ordered = [] := by
    simpa using s.effective_iff.not.mp h
  unfold applyConsulSnapshot
  split
  · rfl
  · simp [hnil, keepLastKnownGood]

theorem certificate_of_effective (h : s.Effective entries) (entryName : String)
    (cert : LoadedCertificate C) :
    (s.applyConsulSnapshot entries consulIndex now).certificate entryName = some cert ↔
      NamedIn entries.keys entryName ∧ (Loads entries entryName cert ∨
        (∀ fresh : LoadedCertificate C, ¬Loads entries entryName fresh) ∧
          s.certificate entryName = some cert) := by
  rw [certificate, snapshot_of_effective s consulIndex now h]
  exact CertSnapshot.lookup_fromFabioEntries entries s.snapshot entryName cert

theorem ordered_ne_nil_applyConsulSnapshot (h : s.snapshot.ordered ≠ []) :
    (s.applyConsulSnapshot entries consulIndex now).snapshot.ordered ≠ [] := by
  by_cases he : s.Effective entries
  · rw [snapshot_of_effective s consulIndex now he]
    exact s.effective_iff.mp he
  · rwa [snapshot_of_not_effective s consulIndex now he]

/-! ## The status -/

structure StatusListed (s : DynamicCertStore C) : Prop where
  loadedCertificates : s.status.loadedCertificates = s.snapshot.entryNames
  certificates : ∃ now, s.status.certificates = s.snapshot.runtimeCertificates now
  defaultCertificate : s.status.defaultCertificate = s.snapshot.defaultCertificateName

theorem statusListed_new (strictSni : Bool) : (new strictSni : DynamicCertStore C).StatusListed :=
  ⟨rfl, ⟨id, rfl⟩, rfl⟩

variable {s} in
theorem StatusListed.keepLastKnownGood (h : s.StatusListed) (error : String) :
    (s.keepLastKnownGood consulIndex error).StatusListed :=
  ⟨h.loadedCertificates, h.certificates, h.defaultCertificate⟩

variable {s} in
theorem StatusListed.applyConsulSnapshot (h : s.StatusListed) :
    (s.applyConsulSnapshot entries consulIndex now).StatusListed := by
  unfold DynamicCertStore.applyConsulSnapshot
  split
  · exact h.keepLastKnownGood consulIndex _
  · dsimp only
    split
    · exact h.keepLastKnownGood consulIndex _
    · exact ⟨rfl, ⟨now, rfl⟩, rfl⟩

/-! ## Sequences of snapshots -/

structure ConsulReload where
  entries : FabioEntries
  consulIndex : ℕ
  now : ℕ → ℕ

def applyReloads (s : DynamicCertStore C) (reloads : List ConsulReload) : DynamicCertStore C :=
  reloads.foldl (fun s r => s.applyConsulSnapshot r.entries r.consulIndex r.now) s

theorem invariant_applyReloads {P : DynamicCertStore C → Prop}
    (hstep : ∀ s (r : ConsulReload), P s → P (s.applyConsulSnapshot r.entries r.consulIndex r.now))
    {s : DynamicCertStore C} (h : P s) (reloads : List ConsulReload) :
    P (s.applyReloads reloads) := by
  induction reloads generalizing s with
  | nil => exact h
  | cons r reloads ih => exact ih (hstep s r h)

theorem applyReloads_keepsLastKnownGood (strictSni : Bool) (earlier : List ConsulReload)
    (r : ConsulReload) (later : List ConsulReload) :
    let s := (new strictSni : DynamicCertStore C).applyReloads earlier
    let s' := s.applyConsulSnapshot r.entries r.consulIndex r.now
    (s'.snapshot.ordered ≠ [] → (s'.applyReloads later).snapshot.ordered ≠ []) ∧
    (s.Effective r.entries → ∀ entryName cert, s'.certificate entryName = some cert ↔
      NamedIn r.entries.keys entryName ∧ (Loads r.entries entryName cert ∨
        (∀ fresh : LoadedCertificate C, ¬Loads r.entries entryName fresh) ∧
          s.certificate entryName = some cert)) ∧
    (¬s.Effective r.entries → s'.snapshot = s.snapshot) ∧
    s'.snapshot.entryNames.Nodup ∧
    (∀ entryName cert, s'.certificate entryName = some cert ↔
      cert ∈ s'.snapshot.ordered ∧ cert.entryName = entryName) ∧
    (∀ name i, s'.snapshot.byName.lookup name = some i ↔
      ∃ cert, s'.snapshot.ordered[i]? = some cert ∧ name ∈ cert.names ∧
        ∀ j < i, ∀ cert', s'.snapshot.ordered[j]? = some cert' → name ∉ cert'.names) ∧
    s'.StatusListed := by
  intro s s'
  have hlisted : s.StatusListed :=
    invariant_applyReloads (fun s r hs => hs.applyConsulSnapshot r.consulIndex r.now)
      (statusListed_new strictSni) earlier
  refine ⟨?_, ?_, ?_, s'.snapshot.nodup_entryNames, s'.snapshot.lookup_byEntryName,
    s'.snapshot.lookup_byName_eq_some_iff, hlisted.applyConsulSnapshot r.consulIndex r.now⟩
  · intro hne
    exact invariant_applyReloads
      (fun s r hs => s.ordered_ne_nil_applyConsulSnapshot r.consulIndex r.now hs) hne later
  · intro h
    exact s.certificate_of_effective r.consulIndex r.now h
  · intro h
    exact s.snapshot_of_not_effective r.consulIndex r.now h

def sampleReload : ConsulReload where
  entries := .ofList [("a-cert.pem", ([1] : List UInt8)), ("a-key.pem", [1]), ("b.pem", [2])]
  consulIndex := 7
  now _ := 1000

def brokenReload : ConsulReload where
  entries := .ofList [("a-cert.pem", ([3] : List UInt8)), ("c.pem", [4])]
  consulIndex := 8
  now _ := 1060

attribute [local instance] echoLoader

theorem applyReloads_keepsLastKnownGood_sampleReloads :
    ∃ s : DynamicCertStore (List UInt8), s.snapshot.ordered =
      [⟨"a-cert.pem", [1], ["a-cert.pem"]⟩, ⟨"c.pem", [4], ["c.pem"]⟩] ∧
    s.certificate "b.pem" = none ∧ s.StatusListed ∧
    (s.applyReloads [sampleReload, brokenReload]).snapshot.ordered ≠ [] := by
  have h := applyReloads_keepsLastKnownGood (C := List UInt8) true [sampleReload] brokenReload
    [sampleReload, brokenReload]
  have hordered : (((new true : DynamicCertStore (List UInt8)).applyReloads
      [sampleReload]).applyConsulSnapshot brokenReload.entries brokenReload.consulIndex
        brokenReload.now).snapshot.ordered =
      [⟨"a-cert.pem", [1], ["a-cert.pem"]⟩, ⟨"c.pem", [4], ["c.pem"]⟩] := by
    decide +kernel
  refine ⟨_, hordered, by decide +kernel, h.2.2.2.2.2.2, h.1 ?_⟩
  rw [hordered]
  simp

end DynamicCertStore

end SentirumLb
