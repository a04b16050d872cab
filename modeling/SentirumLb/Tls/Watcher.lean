import SentirumLb.Lib.Runs
import SentirumLb.Tls.CertSnapshot

/-! # Reloading certificate files

A certificate and its key are loaded from two files when the process starts, and
a watcher that starts later polls the modification times of the files. Files are
read one at a time, and may be written between any two reads. The watcher takes
the times it finds when it starts as those of the files that were loaded.
-/

namespace SentirumLb

structure TlsCertConfig where
  certPath : String
  keyPath : String
  deriving DecidableEq

structure CertFile where
  content : List UInt8
  mtime : ℕ
  deriving DecidableEq

structure FileMeta where
  certMtime : Option ℕ := none
  keyMtime : Option ℕ := none
  deriving DecidableEq

def FileMeta.hasChanged (m other : FileMeta) : Bool :=
  m.certMtime != other.certMtime || m.keyMtime != other.keyMtime

namespace FileCertWatcher

/-- What the process did last, from its start on, with what it has read. -/
inductive Phase where
  | boot
  | loadingKey (certPem : List UInt8)
  | loaded
  | starting (certMtime : Option ℕ)
  | waiting
  | polling (certMtime : Option ℕ)
  | changed (current : FileMeta)
  | reloadingKey (current : FileMeta) (certPem : List UInt8)
  | stopped
  deriving DecidableEq

structure State (C : Type) where
  files : String → Option CertFile
  phase : Phase := .boot
  cert : Option (LoadedCertificate C) := none
  lastMeta : FileMeta := {}

inductive Label where
  | write (path : String) (file : Option CertFile)
  | advance
  | shutdown

variable {C : Type} (cfg : TlsCertConfig)

namespace State

variable (s : State C)

def read (path : String) : Option (List UInt8) := (s.files path).map (·.content)

def mtime (path : String) : Option ℕ := (s.files path).map (·.mtime)

def goto (phase : Phase) : State C := { s with phase := phase }

@[simp] theorem phase_goto (p : Phase) : (s.goto p).phase = p := rfl
@[simp] theorem cert_goto (p : Phase) : (s.goto p).cert = s.cert := rfl
@[simp] theorem lastMeta_goto (p : Phase) : (s.goto p).lastMeta = s.lastMeta := rfl
@[simp] theorem read_goto (p : Phase) : (s.goto p).read = s.read := rfl
@[simp] theorem mtime_goto (p : Phase) : (s.goto p).mtime = s.mtime := rfl
@[simp] theorem goto_goto (p q : Phase) : (s.goto p).goto q = s.goto q := rfl

def written (path : String) (file : Option CertFile) : State C :=
  { s with files := Function.update s.files path file }

def currentMeta : FileMeta := ⟨s.mtime cfg.certPath, s.mtime cfg.keyPath⟩

/-- The watcher has taken its first look at the files. -/
def Running : Prop :=
  match s.phase with
  | .waiting | .polling _ | .changed _ | .reloadingKey _ _ => True
  | _ => False

end State

variable [PemLoader C]

def fromBlobs (certPem : List UInt8) (keyPem : Option (List UInt8)) :
    Option (LoadedCertificate C) :=
  keyPem.bind fun keyPem => (LoadedCertificate.fromPemPair "static-file" certPem keyPem).toOption

def State.currentCert (s : State C) : Option (LoadedCertificate C) :=
  (s.read cfg.certPath).bind fun certPem => fromBlobs certPem (s.read cfg.keyPath)

def advance (s : State C) : Option (State C) :=
  match s.phase with
  | .boot =>
      match s.read cfg.certPath with
      | some certPem => some (s.goto (.loadingKey certPem))
      | none => some (s.goto .stopped)
  | .loadingKey certPem =>
      match fromBlobs certPem (s.read cfg.keyPath) with
      | some cert => some { s with cert := some cert, phase := .loaded }
      | none => some (s.goto .stopped)
  | .loaded => some (s.goto (.starting (s.mtime cfg.certPath)))
  | .starting certMtime =>
      some { s with lastMeta := ⟨certMtime, s.mtime cfg.keyPath⟩, phase := .waiting }
  | .waiting => some (s.goto (.polling (s.mtime cfg.certPath)))
  | .polling certMtime =>
      let current : FileMeta := ⟨certMtime, s.mtime cfg.keyPath⟩
      if current.hasChanged s.lastMeta then some (s.goto (.changed current))
      else some (s.goto .waiting)
  | .changed current =>
      match s.read cfg.certPath with
      | some certPem => some (s.goto (.reloadingKey current certPem))
      | none => some (s.goto .waiting)
  | .reloadingKey current certPem =>
      match fromBlobs certPem (s.read cfg.keyPath) with
      | some cert => some { s with cert := some cert, lastMeta := current, phase := .waiting }
      -- the times stay as they were, so that the next poll tries again
      | none => some (s.goto .waiting)
  | .stopped => none

/-- Every write changes the modification time of the file written. -/
def step (s : State C) : Label → Option (State C)
  | .write path file =>
      if file.map (·.mtime) ≠ s.mtime path then some (s.written path file) else none
  | .advance => advance cfg s
  | .shutdown => some (s.goto .stopped)

/-! ## What the watcher relies on -/

/-- The blobs that the served certificate was made from are those of the files, as long as these
have the modification times that were seen. -/
def Synced (s : State C) (seen : FileMeta) : Prop :=
  ∃ certPem keyPem, s.cert = fromBlobs certPem (some keyPem) ∧
    (s.mtime cfg.certPath = seen.certMtime → s.read cfg.certPath = some certPem) ∧
    (s.mtime cfg.keyPath = seen.keyMtime → s.read cfg.keyPath = some keyPem)

def Tracked (s : State C) : Prop :=
  match s.phase with
  | .boot | .stopped => True
  | .loadingKey certPem => s.read cfg.certPath = some certPem
  | .loaded => ∃ certPem keyPem, s.cert = fromBlobs certPem (some keyPem) ∧
      s.read cfg.certPath = some certPem ∧ s.read cfg.keyPath = some keyPem
  | .starting certMtime => ∃ certPem keyPem, s.cert = fromBlobs certPem (some keyPem) ∧
      (s.mtime cfg.certPath = certMtime → s.read cfg.certPath = some certPem) ∧
      s.read cfg.keyPath = some keyPem
  | .waiting | .polling _ | .changed _ => Synced cfg s s.lastMeta
  | .reloadingKey current certPem => Synced cfg s s.lastMeta ∧
      (s.mtime cfg.certPath = current.certMtime → s.read cfg.certPath = some certPem)

/-- The watcher will notice the new file. A write leaves the contents of a file as they are between
the time when the certificate was loaded from it and the time when the watcher first looks at it,
and never gives a file a modification time that the watcher has seen of its earlier contents. -/
def NoticedWrite (lastMeta : FileMeta) (content : Option (List UInt8)) (path : String)
    (file : Option CertFile) : Phase → Prop
  | .boot | .stopped => True
  | .loadingKey _ => path = cfg.certPath → file.map (·.content) = content
  | .loaded => path = cfg.certPath ∨ path = cfg.keyPath → file.map (·.content) = content
  | .starting certMtime => (path = cfg.certPath → file.map (·.mtime) ≠ certMtime) ∧
      (path = cfg.keyPath → file.map (·.content) = content)
  | .waiting | .polling _ | .changed _ =>
      (path = cfg.certPath → file.map (·.mtime) ≠ lastMeta.certMtime) ∧
      (path = cfg.keyPath → file.map (·.mtime) ≠ lastMeta.keyMtime)
  | .reloadingKey current _ =>
      (path = cfg.certPath → file.map (·.mtime) ≠ lastMeta.certMtime) ∧
      (path = cfg.keyPath → file.map (·.mtime) ≠ lastMeta.keyMtime) ∧
      (path = cfg.certPath → file.map (·.mtime) ≠ current.certMtime)

def Noticed (s : State C) : Label → Prop
  | .write path file => NoticedWrite cfg s.lastMeta (s.read path) path file s.phase
  | .advance | .shutdown => True

/-! ## Writes -/

variable {cfg} {s s' : State C}

section Write

variable (s) (path : String) (file : Option CertFile)

variable {s path file} {p : String}

omit [PemLoader C] in
theorem State.files_written :
    (s.written path file).files p = if p = path then file else s.files p :=
  Function.update_apply s.files path file p

omit [PemLoader C] in
/-- What was read of a file stays what it has when a write leaves its contents as they are. -/
theorem State.read_written_of_content (h : path = p → file.map (·.content) = s.read path) :
    (s.written path file).read p = s.read p := by
  simp only [State.read, State.files_written]
  split
  · next hp =>
    subst hp
    exact h rfl
  · rfl

omit [PemLoader C] in
/-- What was read of a file stays tied to the modification time that no write gives back to it. -/
theorem State.read_written_of_mtime {m : Option ℕ} {content : List UInt8}
    (h : path = p → file.map (·.mtime) ≠ m)
    (hread : s.mtime p = m → s.read p = some content)
    (hm : (s.written path file).mtime p = m) : (s.written path file).read p = some content := by
  simp only [State.read, State.mtime, State.files_written] at hread hm ⊢
  split
  · next hp =>
    rw [if_pos hp] at hm
    exact absurd hm (h hp.symm)
  · next hp =>
    rw [if_neg hp] at hm
    exact hread hm

theorem Synced.written {seen : FileMeta} (hs : Synced cfg s seen)
    (hcert : path = cfg.certPath → file.map (·.mtime) ≠ seen.certMtime)
    (hkey : path = cfg.keyPath → file.map (·.mtime) ≠ seen.keyMtime) :
    Synced cfg (s.written path file) seen := by
  obtain ⟨certPem, keyPem, hmade, hc, hk⟩ := hs
  exact ⟨certPem, keyPem, hmade, State.read_written_of_mtime hcert hc,
    State.read_written_of_mtime hkey hk⟩

theorem Tracked.written (ht : Tracked cfg s) (hn : Noticed cfg s (.write path file)) :
    Tracked cfg (s.written path file) := by
  have hphase : (s.written path file).phase = s.phase := rfl
  unfold Noticed at hn
  unfold Tracked at *
  rw [hphase]
  cases h : s.phase <;> simp only [h, NoticedWrite] at ht hn ⊢
  case loadingKey certPem =>
    rw [State.read_written_of_content hn]
    exact ht
  case loaded =>
    obtain ⟨certPem, keyPem, hmade, hc, hk⟩ := ht
    refine ⟨certPem, keyPem, hmade, ?_, ?_⟩
    · rw [State.read_written_of_content fun he => hn (Or.inl he)]
      exact hc
    · rw [State.read_written_of_content fun he => hn (Or.inr he)]
      exact hk
  case starting certMtime =>
    obtain ⟨certPem, keyPem, hmade, hc, hk⟩ := ht
    refine ⟨certPem, keyPem, hmade, State.read_written_of_mtime hn.1 hc, ?_⟩
    rw [State.read_written_of_content hn.2]
    exact hk
  case waiting => exact ht.written hn.1 hn.2
  case polling => exact ht.written hn.1 hn.2
  case changed => exact ht.written hn.1 hn.2
  case reloadingKey current certPem =>
    exact ⟨ht.1.written hn.1 hn.2.1, State.read_written_of_mtime hn.2.2 ht.2⟩

end Write

/-! ## Reads -/

theorem exists_of_fromBlobs {certPem : List UInt8} {keyPem : Option (List UInt8)}
    {cert : LoadedCertificate C} (h : fromBlobs certPem keyPem = some cert) :
    ∃ k, keyPem = some k := by
  obtain ⟨k, hk, -⟩ := Option.bind_eq_some_iff.mp h
  exact ⟨k, hk⟩

theorem synced_of_fromBlobs {seen : FileMeta} {certPem : List UInt8} {cert : LoadedCertificate C}
    (hc : s.mtime cfg.certPath = seen.certMtime → s.read cfg.certPath = some certPem)
    (h : fromBlobs certPem (s.read cfg.keyPath) = some cert) :
    Synced cfg { s with cert := some cert, lastMeta := seen, phase := .waiting } seen := by
  obtain ⟨keyPem, hk⟩ := exists_of_fromBlobs h
  exact ⟨certPem, keyPem, by rw [← hk, h], hc, fun _ => hk⟩

theorem Tracked.advance (ht : Tracked cfg s) (h : advance cfg s = some s') : Tracked cfg s' := by
  unfold FileCertWatcher.advance at h
  unfold Tracked at ht
  cases hphase : s.phase <;> simp only [hphase] at ht h
  case boot =>
    split at h
    · next certPem hread =>
      cases h
      exact hread
    · cases h
      trivial
  case loadingKey certPem =>
    split at h
    · next cert hmade =>
      cases h
      obtain ⟨keyPem, hk⟩ := exists_of_fromBlobs hmade
      exact ⟨certPem, keyPem, by rw [← hk, hmade], ht, hk⟩
    · cases h
      trivial
  case loaded =>
    cases h
    obtain ⟨certPem, keyPem, hmade, hc, hk⟩ := ht
    exact ⟨certPem, keyPem, hmade, fun _ => hc, hk⟩
  case starting certMtime =>
    cases h
    obtain ⟨certPem, keyPem, hmade, hc, hk⟩ := ht
    exact ⟨certPem, keyPem, hmade, hc, fun _ => hk⟩
  case waiting =>
    cases h
    exact ht
  case polling certMtime =>
    split at h
    · cases h
      exact ht
    · cases h
      exact ht
  case changed current =>
    split at h
    · next certPem hread =>
      cases h
      exact ⟨ht, fun _ => hread⟩
    · cases h
      exact ht
  case reloadingKey current certPem =>
    split at h
    · next cert hmade =>
      cases h
      exact synced_of_fromBlobs ht.2 hmade
    · cases h
      exact ht.1
  case stopped => cases h

theorem Tracked.step {l : Label} (ht : Tracked cfg s) (hn : Noticed cfg s l)
    (h : step cfg s l = some s') : Tracked cfg s' := by
  cases l with
  | write path file =>
    rw [FileCertWatcher.step, Option.ite_none_right_eq_some, Option.some.injEq] at h
    obtain ⟨-, rfl⟩ := h
    exact ht.written hn
  | advance => exact ht.advance h
  | shutdown =>
    cases h
    trivial

/-! ## What is served -/

theorem Tracked.synced (ht : Tracked cfg s) (hr : s.Running) : Synced cfg s s.lastMeta := by
  unfold Tracked at ht
  unfold State.Running at hr
  cases h : s.phase <;> simp only [h] at ht hr
  case waiting => exact ht
  case polling => exact ht
  case changed => exact ht
  case reloadingKey => exact ht.1

theorem Synced.cert_eq {seen : FileMeta} (hs : Synced cfg s seen) (hm : s.currentMeta cfg = seen) :
    s.cert = s.currentCert cfg := by
  obtain ⟨certPem, keyPem, hmade, hc, hk⟩ := hs
  subst hm
  rw [hmade, State.currentCert, hc rfl, hk rfl, Option.bind_some]

theorem hasChanged_eq_false {m other : FileMeta} : m.hasChanged other = false ↔ m = other := by
  obtain ⟨c, k⟩ := m
  obtain ⟨c', k'⟩ := other
  simp [FileMeta.hasChanged]

/-- A poll during which nothing is written ends with the current certificate. -/
theorem poll_serves (ht : Tracked cfg s) (hw : s.phase = .waiting) {cert : LoadedCertificate C}
    (hcert : s.currentCert cfg = some cert) :
    ∃ n s', Runs.run (FileCertWatcher.step cfg) s (List.replicate n .advance) = some s' ∧
      s'.phase = .waiting ∧ s'.cert = some cert := by
  have hr : s.Running := by simp [State.Running, hw]
  have hpoll : advance cfg s = some (s.goto (.polling (s.mtime cfg.certPath))) := by
    simp [FileCertWatcher.advance, hw]
  cases hchanged : (s.currentMeta cfg).hasChanged s.lastMeta with
  | false =>
    have hsame : advance cfg (s.goto (.polling (s.mtime cfg.certPath))) =
        some (s.goto .waiting) := by
      simp only [State.currentMeta] at hchanged
      simp [FileCertWatcher.advance, hchanged]
    refine ⟨2, s.goto .waiting, ?_, rfl, ?_⟩
    · simp [List.replicate, Runs.run, FileCertWatcher.step, hpoll, hsame]
    · rw [State.cert_goto, ← hcert]
      exact (ht.synced hr).cert_eq (hasChanged_eq_false.mp hchanged)
  | true =>
    obtain ⟨certPem, hread, hmade⟩ := Option.bind_eq_some_iff.mp hcert
    have hdiffer : advance cfg (s.goto (.polling (s.mtime cfg.certPath))) =
        some (s.goto (.changed (s.currentMeta cfg))) := by
      simp only [State.currentMeta] at hchanged ⊢
      simp [FileCertWatcher.advance, hchanged]
    have hcertRead : advance cfg (s.goto (.changed (s.currentMeta cfg))) =
        some (s.goto (.reloadingKey (s.currentMeta cfg) certPem)) := by
      simp [FileCertWatcher.advance, hread]
    have hstored : advance cfg (s.goto (.reloadingKey (s.currentMeta cfg) certPem)) =
        some { s with cert := some cert, lastMeta := s.currentMeta cfg, phase := .waiting } := by
      simp only [FileCertWatcher.advance, State.phase_goto, State.read_goto, hmade]
      rfl
    refine ⟨4, { s with cert := some cert, lastMeta := s.currentMeta cfg, phase := .waiting }, ?_,
      rfl, rfl⟩
    simp [List.replicate, Runs.run, FileCertWatcher.step, hpoll, hdiffer, hcertRead, hstored]

def start (files : String → Option CertFile) : State C where
  files := files

/-- In every run whose writes are all noticed, whenever the watcher runs and would find the
modification times that it last saw, it serves the certificate of the current files; and each poll
during which nothing is written ends with that certificate. -/
theorem run_serves_current {files : String → Option CertFile} {ls : List Label} {s : State C}
    (hm : Runs.Meets (FileCertWatcher.step cfg) (Noticed cfg) (start files : State C) ls)
    (hr : Runs.run (FileCertWatcher.step cfg) (start files) ls = some s) :
    (s.Running → s.currentMeta cfg = s.lastMeta → ∀ cert, s.currentCert cfg = some cert →
      s.cert = some cert) ∧
    (s.phase = .waiting → ∀ cert, s.currentCert cfg = some cert →
      ∃ n s', Runs.run (FileCertWatcher.step cfg) s (List.replicate n .advance) = some s' ∧
        s'.phase = .waiting ∧ s'.cert = some cert) := by
  have ht : Tracked cfg s :=
    Runs.invariant_of_meets (I := Tracked cfg) (fun _ _ _ ht hn h => ht.step hn h) hm hr trivial
  constructor
  · intro hrunning hmeta cert hcert
    rw [(ht.synced hrunning).cert_eq hmeta, hcert]
  · intro hw cert hcert
    exact poll_serves ht hw hcert

instance decidableNoticedWrite (lastMeta : FileMeta) (content : Option (List UInt8))
    (path : String) (file : Option CertFile) :
    ∀ phase, Decidable (NoticedWrite cfg lastMeta content path file phase)
  | .boot | .stopped => .isTrue trivial
  | .loadingKey _ => inferInstanceAs (Decidable (_ → _))
  | .loaded => inferInstanceAs (Decidable (_ → _))
  | .starting _ => inferInstanceAs (Decidable (_ ∧ _))
  | .waiting | .polling _ | .changed _ => inferInstanceAs (Decidable (_ ∧ _))
  | .reloadingKey _ _ => inferInstanceAs (Decidable (_ ∧ _))

instance decidableNoticed (s : State C) : ∀ l, Decidable (Noticed cfg s l)
  | .write _ _ => decidableNoticedWrite ..
  | .advance | .shutdown => .isTrue trivial

attribute [local instance] echoLoader

def sampleTls : TlsCertConfig := ⟨"tls.pem", "tls.key"⟩

def sampleFiles (path : String) : Option CertFile :=
  if path = "tls.pem" ∨ path = "tls.key" then some ⟨[1], 100⟩ else none

def rotate : List Label :=
  [.write "tls.pem" (some ⟨[2], 200⟩), .write "tls.key" (some ⟨[2], 200⟩)]

def sampleCert (blob : List UInt8) : LoadedCertificate (List UInt8) :=
  ⟨"static-file", blob, ["static-file"]⟩

theorem run_serves_current_rotate : ∃ s : State (List UInt8),
    Runs.run (FileCertWatcher.step sampleTls) (start sampleFiles)
      (List.replicate 4 .advance ++ rotate ++ List.replicate 4 .advance) = some s ∧
    s.cert = some (sampleCert [2]) := by
  have hphase : (Runs.run (FileCertWatcher.step sampleTls) (start sampleFiles : State (List UInt8))
      (List.replicate 4 .advance ++ rotate ++ List.replicate 4 .advance)).map
      (fun s => (s.phase, s.currentMeta sampleTls, s.lastMeta)) =
      some (.waiting, ⟨some 200, some 200⟩, ⟨some 200, some 200⟩) := by
    decide +kernel
  have hcert : (Runs.run (FileCertWatcher.step sampleTls) (start sampleFiles : State (List UInt8))
      (List.replicate 4 .advance ++ rotate ++ List.replicate 4 .advance)).map
      (·.currentCert sampleTls) = some (some (sampleCert [2])) := by
    decide +kernel
  obtain ⟨s, hs, he⟩ := Option.map_eq_some_iff.mp hphase
  rw [hs, Option.map_some, Option.some.injEq] at hcert
  simp only [Prod.mk.injEq] at he
  refine ⟨s, hs, (run_serves_current (by decide +kernel) hs).1 ?_ ?_ _ hcert⟩
  · simp [State.Running, he.1]
  · rw [he.2.1, he.2.2]

/-- The files are replaced between the load and the start of the watcher, which then sees nothing
to do in any poll. -/
theorem run_serves_replaced_rotate : ∃ s : State (List UInt8),
    Runs.run (FileCertWatcher.step sampleTls) (start sampleFiles)
      (List.replicate 2 .advance ++ rotate ++ List.replicate 4 .advance) = some s ∧
    s.phase = .waiting ∧ s.currentMeta sampleTls = s.lastMeta ∧
    s.currentCert sampleTls = some (sampleCert [2]) ∧ s.cert = some (sampleCert [1]) := by
  have hphase : (Runs.run (FileCertWatcher.step sampleTls) (start sampleFiles : State (List UInt8))
      (List.replicate 2 .advance ++ rotate ++ List.replicate 4 .advance)).map
      (fun s => (s.phase, s.currentMeta sampleTls, s.lastMeta)) =
      some (.waiting, ⟨some 200, some 200⟩, ⟨some 200, some 200⟩) := by
    decide +kernel
  have hcert : (Runs.run (FileCertWatcher.step sampleTls) (start sampleFiles : State (List UInt8))
      (List.replicate 2 .advance ++ rotate ++ List.replicate 4 .advance)).map
      (fun s => (s.currentCert sampleTls, s.cert)) =
      some (some (sampleCert [2]), some (sampleCert [1])) := by
    decide +kernel
  obtain ⟨s, hs, he⟩ := Option.map_eq_some_iff.mp hphase
  rw [hs, Option.map_some, Option.some.injEq, Prod.mk.injEq] at hcert
  simp only [Prod.mk.injEq] at he
  exact ⟨s, hs, he.1, he.2.1.trans he.2.2.symm, hcert.1, hcert.2⟩

end FileCertWatcher

end SentirumLb
