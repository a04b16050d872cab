import SentirumLb.Lib.Latest
import SentirumLb.Proxy.ClientCert
import SentirumLb.Tls.Bundle

/-! # The client CA store

The certificates that client certificates are checked against come in entries
of PEM blocks. An entry that is too large or cannot be read is left out with a
warning. A snapshot replaces the stored one only if a certificate is left and
OpenSSL takes all of them; otherwise the last known good ones stay.
-/

namespace SentirumLb

structure DynamicClientCaCertificateStatus where
  entryName : String
  subject : String
  commonName : Option String
  organization : Option String
  organizationalUnit : Option String
deriving DecidableEq

structure DynamicClientCaStatus where
  loadedEntries : List String := []
  certificates : List DynamicClientCaCertificateStatus := []
  lastConsulIndex : ℕ := 0
  lastReloadUnix : Option ℕ := none
  lastError : Option String := none
deriving DecidableEq

/-- What the libraries do with CA certificates and the stores they are put in. -/
class OpensslStores (X : Type) where
  pemBeginRe : PemRegex
  x509FromPem : List Char → Except String X
  utf8Error : List UInt8 → String
  identity : X → Certificate
  newError : Option String
  /-- The error of adding a certificate to a store that holds some. -/
  addError : List X → X → Option String

/-- The store, which is the list of the certificates that were added to it. -/
structure ClientCaSnapshot (X : Type) where
  store : Option (List X) := none
  entryNames : List String := []
  certificates : List DynamicClientCaCertificateStatus := []

structure DynamicClientCaStore (X : Type) where
  snapshot : ClientCaSnapshot X
  status : DynamicClientCaStatus
  caUpgradeCn : String

section Code

variable {X : Type} [OpensslStores X]

def parseClientCaCertificates (entryName : String) (input : List UInt8) :
    Except TlsError (List X) :=
  let e := OpensslStores.utf8Error X input
  readCertificates (OpensslStores.pemBeginRe X) OpensslStores.x509FromPem
    s!"client CA entry '{entryName}' is not valid UTF-8 PEM: {e}"
    (fun e => s!"invalid client CA CERTIFICATE block in '{entryName}': {e}") input

def clientCaCertificateStatus (entryName : String) (cert : X) :
    DynamicClientCaCertificateStatus :=
  let identity := OpensslStores.identity cert
  { entryName := entryName
    subject := certificateSubjectString identity
    commonName := identity.commonName
    organization := identity.organization
    organizationalUnit := identity.organizationalUnit }

namespace ClientCaSnapshot

structure Builder (X : Type) where
  store : List X := []
  warnings : List String := []
  entryNames : List String := []
  certificates : List DynamicClientCaCertificateStatus := []

def Builder.addCert (entryName : String) (b : Builder X) (cert : X) :
    Except TlsError (Builder X) :=
  match OpensslStores.addError b.store cert with
  | some e =>
      .error (.configError s!"failed to add client CA cert from '{entryName}' to store: {e}")
  | none =>
      .ok { b with
        certificates := b.certificates ++ [clientCaCertificateStatus entryName cert]
        store := b.store ++ [cert] }

omit [OpensslStores X] in
def Builder.warn (b : Builder X) (warning : String) : Builder X :=
  { b with warnings := b.warnings ++ [warning] }

def Builder.addEntry (b : Builder X) (entry : String × List UInt8) :
    Except TlsError (Builder X) :=
  let (entryName, pemBytes) := entry
  match validateEntrySize entryName pemBytes.length with
  | .error warning => .ok (b.warn warning)
  | .ok () =>
      match parseClientCaCertificates entryName pemBytes with
      | .ok [] =>
          .ok (b.warn s!"client CA entry '{entryName}' contains no valid CERTIFICATE blocks")
      | .ok certs =>
          certs.foldlM (Builder.addCert entryName)
            { b with entryNames := b.entryNames ++ [entryName] }
      | .error error => .ok (b.warn error.display)

variable (X) in
def fromEntries (entries : FabioEntries) : Except TlsError (ClientCaSnapshot X × List String) := do
  match OpensslStores.newError X with
  | some e => .error (.configError s!"failed to create client CA store: {e}")
  | none =>
      let b ← entries.toList.foldlM Builder.addEntry {}
      let store := if b.entryNames.isEmpty then none else some b.store
      return (⟨store, b.entryNames, b.certificates⟩, b.warnings)

end ClientCaSnapshot

namespace DynamicClientCaStore

omit [OpensslStores X] in
def new (caUpgradeCn : String) : DynamicClientCaStore X := ⟨{}, {}, caUpgradeCn⟩

omit [OpensslStores X] in
def keepLastKnownGood (s : DynamicClientCaStore X) (consulIndex : ℕ) (error : String) :
    DynamicClientCaStore X :=
  { s with status := { s.status with lastConsulIndex := consulIndex, lastError := some error } }

def applySnapshot (s : DynamicClientCaStore X) (entries : FabioEntries) (consulIndex now : ℕ) :
    DynamicClientCaStore X :=
  if entries.isEmpty then
    s.keepLastKnownGood consulIndex
      "received empty client CA snapshot; keeping last known good store"
  else
    match ClientCaSnapshot.fromEntries X entries with
    | .ok (nextSnapshot, warnings) =>
        if nextSnapshot.store.isNone then
          s.keepLastKnownGood consulIndex (warnings.head?.getD
            ("no valid client CA certificates remain after reload; " ++
              "keeping last known good store"))
        else
          { s with
            snapshot := nextSnapshot
            status :=
              { loadedEntries := nextSnapshot.entryNames
                certificates := nextSnapshot.certificates
                lastConsulIndex := consulIndex
                lastReloadUnix := some now
                lastError :=
                  if warnings.isEmpty then none else some (" | ".intercalate warnings) } }
    | .error error => s.keepLastKnownGood consulIndex error.display

def loadFromPath (s : DynamicClientCaStore X) (read : Except TlsError FabioEntries) (now : ℕ) :
    Except TlsError Unit × DynamicClientCaStore X :=
  match read with
  | .error e => (.error e, s)
  | .ok entries =>
      let s := s.applySnapshot entries 0 now
      if s.status.loadedEntries.isEmpty then
        (.error (.configError (s.status.lastError.getD
          "no valid client CA certificates loaded from path")), s)
      else (.ok (), s)

omit [OpensslStores X] in
def currentStore (s : DynamicClientCaStore X) : Option (ClientCaSnapshot X) :=
  s.snapshot.store.map fun _ => s.snapshot

end DynamicClientCaStore

end Code

/-! ## What a snapshot is worth -/

theorem toOption_bind {α β : Type} (x : Except TlsError α) (f : α → Except TlsError β) :
    (x >>= f).toOption = x.toOption.bind fun a => (f a).toOption := by
  cases x <;> rfl

namespace ClientCaSnapshot

variable {X : Type} [OpensslStores X]

def usableEntry (entry : String × List UInt8) : Option (String × List X) :=
  if entry.2.length ≤ maxConsulCertEntryBytes then
    match (parseClientCaCertificates entry.1 entry.2 : Except TlsError (List X)) with
    | .ok (cert :: certs) => some (entry.1, cert :: certs)
    | _ => none
  else none

def takesAll : List X → List X → Bool
  | _, [] => true
  | store, cert :: certs =>
      (OpensslStores.addError store cert).isNone && takesAll (store ++ [cert]) certs

/-- The entries that make up a new snapshot, if there is one. -/
def accepted (entries : FabioEntries) : Option (List (String × List X)) :=
  let usable : List (String × List X) := entries.toList.filterMap usableEntry
  if OpensslStores.newError X = none ∧ usable ≠ [] ∧ takesAll [] (usable.flatMap (·.2)) then
    some usable
  else none

def ofUsable (usable : List (String × List X)) : ClientCaSnapshot X where
  store := some (usable.flatMap (·.2))
  entryNames := usable.map (·.1)
  certificates := usable.flatMap fun entry => entry.2.map (clientCaCertificateStatus entry.1)

theorem takesAll_append (store certs certs' : List X) : takesAll store (certs ++ certs') =
    (takesAll store certs && takesAll (store ++ certs) certs') := by
  induction certs generalizing store with
  | nil => simp [takesAll]
  | cons cert certs ih =>
    rw [List.cons_append, takesAll, takesAll, ih, Bool.and_assoc, List.append_assoc]
    rfl

namespace Builder

variable (b : Builder X)

def extend (usable : List (String × List X)) (warnings : List String) : Builder X where
  store := b.store ++ usable.flatMap (·.2)
  warnings := b.warnings ++ warnings
  entryNames := b.entryNames ++ usable.map (·.1)
  certificates := b.certificates ++
    usable.flatMap fun entry => entry.2.map (clientCaCertificateStatus entry.1)

theorem foldlM_addCert (entryName : String) (certs : List X) :
    (certs.foldlM (addCert entryName) b).toOption =
      if takesAll b.store certs then some { b with
        store := b.store ++ certs
        certificates := b.certificates ++ certs.map (clientCaCertificateStatus entryName) }
      else none := by
  induction certs generalizing b with
  | nil =>
    simp only [takesAll, if_true, List.append_nil, List.map_nil]
    rfl
  | cons cert certs ih =>
    rw [List.foldlM_cons, toOption_bind, takesAll, addCert]
    cases OpensslStores.addError b.store cert with
    | some e => rfl
    | none =>
      change (certs.foldlM (addCert entryName) _).toOption = _
      rw [ih]
      simp only [Option.isNone_none, Bool.true_and, List.append_assoc, List.map_cons,
        List.cons_append, List.nil_append]

theorem extend_nil : b.extend [] [] = b := by
  simp [extend]

theorem addEntry_eq (entry : String × List UInt8) :
    ∃ warnings, (warnings = [] ↔ (usableEntry entry : Option (String × List X)).isSome) ∧
      (b.addEntry entry).toOption =
        if takesAll b.store ((usableEntry entry).elim [] (·.2)) then
          some (b.extend (usableEntry entry).toList warnings)
        else none := by
  obtain ⟨entryName, pemBytes⟩ := entry
  unfold addEntry usableEntry
  dsimp only
  cases hsize : validateEntrySize entryName pemBytes.length with
  | error warning =>
    have hlarge : ¬pemBytes.length ≤ maxConsulCertEntryBytes := by
      rw [← @validateEntrySize_eq_ok entryName, hsize]
      simp
    refine ⟨[warning], ?_⟩
    simp [hlarge, takesAll, warn, extend, Except.toOption]
  | ok _ =>
    rw [if_pos (validateEntrySize_eq_ok.mp hsize)]
    cases hparse : (parseClientCaCertificates entryName pemBytes : Except TlsError (List X)) with
    | error error => exact ⟨[error.display], by simp [takesAll, warn, extend, Except.toOption]⟩
    | ok certs =>
      cases certs with
      | nil =>
        refine ⟨[s!"client CA entry '{entryName}' contains no valid CERTIFICATE blocks"], ?_⟩
        simp [takesAll, warn, extend, Except.toOption]
      | cons cert certs =>
        refine ⟨[], by simp, ?_⟩
        dsimp only
        rw [foldlM_addCert]
        simp [extend]

theorem extend_extend (usable usable' : List (String × List X)) (warnings warnings' : List String) :
    (b.extend usable warnings).extend usable' warnings' =
      b.extend (usable ++ usable') (warnings ++ warnings') := by
  simp [extend]

theorem foldlM_addEntry (entries : List (String × List UInt8)) :
    ∃ warnings, (warnings = [] ↔ ∀ entry ∈ entries,
        (usableEntry entry : Option (String × List X)).isSome) ∧
      (entries.foldlM addEntry b).toOption =
        if takesAll b.store ((entries.filterMap usableEntry).flatMap (·.2)) then
          some (b.extend (entries.filterMap usableEntry) warnings)
        else none := by
  induction entries generalizing b with
  | nil => exact ⟨[], by simp, by simp [takesAll, extend_nil, pure, Except.pure, Except.toOption]⟩
  | cons entry entries ih =>
    obtain ⟨warnings, hwarnings, hentry⟩ := b.addEntry_eq entry
    obtain ⟨warnings', hwarnings', hentries⟩ := ih (b.extend (usableEntry entry).toList warnings)
    have hfilter : (entry :: entries).filterMap usableEntry =
        (usableEntry entry : Option (String × List X)).toList ++ entries.filterMap usableEntry := by
      cases hu : (usableEntry entry : Option (String × List X)) with
      | none => rw [List.filterMap_cons_none hu]; rfl
      | some u => rw [List.filterMap_cons_some hu]; rfl
    have hcerts : (usableEntry entry : Option (String × List X)).elim [] (·.2) =
        (usableEntry entry).toList.flatMap (·.2) := by
      cases (usableEntry entry : Option (String × List X)) <;> simp
    refine ⟨warnings ++ warnings', ?_, ?_⟩
    · simp [hwarnings, hwarnings']
    · rw [List.foldlM_cons, toOption_bind, hentry, hcerts, hfilter, List.flatMap_append,
        takesAll_append]
      by_cases htakes : takesAll b.store ((usableEntry entry).toList.flatMap (·.2)) = true
      · rw [if_pos htakes, Option.bind_some, hentries, htakes, Bool.true_and, extend_extend]
        rfl
      · simp [htakes]

end Builder

theorem fromEntries_eq (entries : FabioEntries) :
    ∃ warnings, (warnings = [] ↔ ∀ entry ∈ entries.toList,
        (usableEntry entry : Option (String × List X)).isSome) ∧
      match (fromEntries X entries).toOption with
      | none => accepted (X := X) entries = none
      | some (snapshot, warned) => warned = warnings ∧
          (accepted entries).map ofUsable =
            if snapshot.store.isNone then none else some snapshot := by
  obtain ⟨warnings, hwarnings, hfold⟩ :=
    ({} : Builder X).foldlM_addEntry entries.toList
  refine ⟨warnings, hwarnings, ?_⟩
  unfold fromEntries accepted
  cases hnew : OpensslStores.newError X with
  | some e => simp [Except.toOption]
  | none =>
    dsimp only
    rw [toOption_bind, hfold]
    by_cases htakes : takesAll ([] : List X)
        ((entries.toList.filterMap usableEntry).flatMap (·.2)) = true
    · rw [if_pos htakes, Option.bind_some]
      by_cases husable : (entries.toList.filterMap usableEntry : List (String × List X)) = []
      · simp [husable, Builder.extend, pure, Except.pure, Except.toOption]
      · simp [husable, htakes, Builder.extend, ofUsable, pure, Except.pure, Except.toOption]
    · simp [htakes]

theorem flatMap_ne_nil_of_accepted {entries : FabioEntries} {usable : List (String × List X)}
    (h : accepted entries = some usable) : usable.flatMap (·.2) ≠ [] := by
  unfold accepted at h
  dsimp only at h
  split at h
  · next haccepted =>
    cases h
    obtain ⟨-, hne, -⟩ := haccepted
    intro hnil
    obtain ⟨entry, hentry⟩ := List.exists_mem_of_ne_nil _ hne
    obtain ⟨source, -, husable⟩ := List.mem_filterMap.mp hentry
    have hcerts : entry.2 = [] := List.flatMap_eq_nil_iff.mp hnil entry hentry
    unfold usableEntry at husable
    split at husable
    · split at husable
      · cases husable
        cases hcerts
      · cases husable
    · cases husable
  · cases h

end ClientCaSnapshot

/-! ## Sequences of snapshots -/

structure CaReload where
  entries : FabioEntries
  consulIndex : ℕ
  now : ℕ

namespace DynamicClientCaStore

open ClientCaSnapshot Latest

variable {X : Type} [OpensslStores X]

def applySnapshots (s : DynamicClientCaStore X) (reloads : List CaReload) :
    DynamicClientCaStore X :=
  reloads.foldl (fun s r => s.applySnapshot r.entries r.consulIndex r.now) s

/-- The entries are accepted, and all of them are usable. -/
def Clean (X : Type) [OpensslStores X] (entries : FabioEntries) : Prop :=
  (accepted (X := X) entries).isSome ∧
    ∀ entry ∈ entries.toList, (usableEntry entry : Option (String × List X)).isSome

/-- The status repeats what is stored. -/
def Listed (s : DynamicClientCaStore X) : Prop :=
  s.status.loadedEntries = s.snapshot.entryNames ∧ s.status.certificates = s.snapshot.certificates

variable (s : DynamicClientCaStore X) (entries : FabioEntries) (consulIndex now : ℕ)

inductive Applied (s : DynamicClientCaStore X) (entries : FabioEntries) (consulIndex now : ℕ) :
    DynamicClientCaStore X → Prop where
  | kept (error : String) : accepted (X := X) entries = none →
      Applied s entries consulIndex now (s.keepLastKnownGood consulIndex error)
  | replaced {usable : List (String × List X)} {status : DynamicClientCaStatus} :
      accepted entries = some usable → status.loadedEntries = (ofUsable usable).entryNames →
      status.certificates = (ofUsable usable).certificates →
      status.lastConsulIndex = consulIndex → status.lastReloadUnix = some now →
      (status.lastError = none ↔ Clean X entries) →
      Applied s entries consulIndex now { s with snapshot := ofUsable usable, status := status }

theorem accepted_of_isEmpty (h : entries.isEmpty) : accepted (X := X) entries = none := by
  have htoList : entries.toList = [] := by
    rw [← List.isEmpty_iff, Std.TreeMap.isEmpty_toList, h]
  simp [accepted, htoList]

theorem applied_applySnapshot :
    Applied s entries consulIndex now (s.applySnapshot entries consulIndex now) := by
  unfold applySnapshot
  split
  · next hempty => exact .kept _ (accepted_of_isEmpty entries hempty)
  · obtain ⟨warnings, hwarnings, hbuilt⟩ := fromEntries_eq (X := X) entries
    cases hfrom : fromEntries X entries with
    | error error =>
      rw [hfrom] at hbuilt
      exact .kept _ hbuilt
    | ok built =>
      obtain ⟨snapshot, warned⟩ := built
      rw [hfrom] at hbuilt
      obtain ⟨rfl, haccepted⟩ := hbuilt
      dsimp only
      split
      · next hnone =>
        rw [if_pos hnone, Option.map_eq_none_iff] at haccepted
        exact .kept _ haccepted
      · next hsome =>
        rw [if_neg hsome, Option.map_eq_some_iff] at haccepted
        obtain ⟨usable, husable, rfl⟩ := haccepted
        refine .replaced husable rfl rfl rfl rfl ?_
        rw [Clean, husable, ← hwarnings]
        simp

structure Tracks (reloads : List CaReload) (s : DynamicClientCaStore X) : Prop where
  snapshot : s.snapshot =
    latest (fun r : CaReload => (accepted r.entries).map ofUsable) {} reloads
  listed : s.Listed
  lastConsulIndex : s.status.lastConsulIndex =
    latest (fun r : CaReload => some r.consulIndex) 0 reloads
  lastReloadUnix : s.status.lastReloadUnix =
    latest (fun r : CaReload => (accepted (X := X) r.entries).map fun _ => some r.now) none reloads
  /-- No error is shown just when the last reload went without one. -/
  lastError : s.status.lastError = none ↔ ∀ r, reloads.getLast? = some r → Clean X r.entries

variable {s entries consulIndex now} in
theorem Tracks.concat {reloads : List CaReload} (h : Tracks reloads s) (r : CaReload) :
    Tracks (reloads ++ [r]) (s.applySnapshot r.entries r.consulIndex r.now) := by
  have happlied := s.applied_applySnapshot r.entries r.consulIndex r.now
  generalize s.applySnapshot r.entries r.consulIndex r.now = s' at happlied ⊢
  cases happlied with
  | kept error haccepted =>
    constructor
    · simpa [latest_concat, haccepted, keepLastKnownGood] using h.snapshot
    · exact h.listed
    · simp [latest_concat, keepLastKnownGood]
    · simpa [latest_concat, haccepted, keepLastKnownGood] using h.lastReloadUnix
    · simp [keepLastKnownGood, Clean, haccepted]
  | replaced haccepted hentries hcertificates hindex hreload herror =>
    constructor
    · simp [latest_concat, haccepted]
    · exact ⟨hentries, hcertificates⟩
    · simp [latest_concat, hindex]
    · simp [latest_concat, haccepted, hreload]
    · simp [herror]

theorem applySnapshots_append (reloads reloads' : List CaReload) :
    s.applySnapshots (reloads ++ reloads') = (s.applySnapshots reloads).applySnapshots reloads' :=
  List.foldl_append ..

theorem applySnapshots_concat (reloads : List CaReload) (r : CaReload) :
    s.applySnapshots (reloads ++ [r]) =
      (s.applySnapshots reloads).applySnapshot r.entries r.consulIndex r.now :=
  List.foldl_concat ..

theorem caUpgradeCn_applySnapshots (reloads : List CaReload) :
    (s.applySnapshots reloads).caUpgradeCn = s.caUpgradeCn := by
  induction reloads using List.reverseRecOn with
  | nil => rfl
  | append_singleton reloads r ih =>
    rw [applySnapshots_concat, ← ih]
    have happlied := (s.applySnapshots reloads).applied_applySnapshot r.entries r.consulIndex r.now
    generalize (s.applySnapshots reloads).applySnapshot r.entries r.consulIndex r.now = s'
      at happlied ⊢
    cases happlied with
    | kept error haccepted => rfl
    | replaced haccepted hentries hcertificates hindex hreload herror => rfl

theorem tracks_new (caUpgradeCn : String) (reloads : List CaReload) :
    Tracks reloads ((new caUpgradeCn : DynamicClientCaStore X).applySnapshots reloads) := by
  induction reloads using List.reverseRecOn with
  | nil => exact ⟨rfl, ⟨rfl, rfl⟩, rfl, rfl, by simp [applySnapshots, new]⟩
  | append_singleton reloads r ih =>
    rw [applySnapshots_concat]
    exact ih.concat r

/-- The store has CA certificates just when some entries were accepted. -/
theorem Tracks.isSome_currentStore_iff {reloads : List CaReload} (h : Tracks reloads s) :
    s.currentStore.isSome ↔ ∃ r ∈ reloads, (accepted (X := X) r.entries).isSome := by
  rw [currentStore, Option.isSome_map, h.snapshot, latest]
  cases hlast : (reloads.filterMap
      fun r => (accepted (X := X) r.entries).map ofUsable).getLast? with
  | none =>
    rw [List.getLast?_eq_none_iff, List.filterMap_eq_nil_iff] at hlast
    simp only [Option.map_eq_none_iff] at hlast
    simp only [Option.getD_none, Option.isSome_none, Bool.false_eq_true, false_iff, not_exists,
      not_and]
    intro r hr
    simp [hlast r hr]
  | some snapshot =>
    obtain ⟨r, hr, hsnapshot⟩ := List.mem_filterMap.mp (List.mem_of_getLast? hlast)
    obtain ⟨usable, husable, rfl⟩ := Option.map_eq_some_iff.mp hsnapshot
    simp only [Option.getD_some, ofUsable, Option.isSome_some, true_iff]
    exact ⟨r, hr, by simp [husable]⟩

/-- After any sequence of snapshots the store holds the CA certificates of the last one that was
accepted, in the order of their entries, shows them in its status, and is without any just until
the first that is accepted. -/
theorem tracks_applySnapshots (caUpgradeCn : String) (reloads : List CaReload) :
    let s := (new caUpgradeCn : DynamicClientCaStore X).applySnapshots reloads
    Tracks reloads s ∧
      (s.currentStore.isSome ↔ ∃ r ∈ reloads, (accepted (X := X) r.entries).isSome) := by
  intro s
  have htracks : Tracks reloads s := tracks_new caUpgradeCn reloads
  exact ⟨htracks, htracks.isSome_currentStore_iff⟩

end DynamicClientCaStore

end SentirumLb
