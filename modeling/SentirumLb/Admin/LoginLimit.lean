import SentirumLb.Admin.Server
import SentirumLb.Lib.Lists
import SentirumLb.Lib.WindowLimit

/-! # The login rate limit

The attempts of one username, seen apart from all else, are a failure limit
over fixed windows. The check and the count of a failure are two operations
with the password check between them, so calls that overlap all pass a check
that one of them would not have passed later. Seen for one username that is
used with wrong passwords only, the server refines the limiter of the library
in every run in which the checks leave room for the calls in flight.
-/

namespace SentirumLb

namespace Admin

def LoginPhase.pending : LoginPhase → Bool
  | .passed _ | .cleaned | .verified _ => true
  | _ => false

def LoginPhase.uncounted : LoginPhase → Bool
  | .verified _ => true
  | _ => false

def LoginPhase.succeeds : LoginPhase → Bool
  | .verified (some _) | .granted _ _ => true
  | _ => false

def windowMs : ℕ := loginWindowSecs * 1000

theorem windowMs_pos : 0 < windowMs := by
  unfold windowMs loginWindowSecs
  omega

namespace Server

def callsIn (s : Server) (u : String) (f : LoginPhase → Bool) : ℕ :=
  s.logins.countP fun c => c.req.username == u && f c.phase

def pending (s : Server) (u : String) : ℕ := s.callsIn u LoginPhase.pending

/-- The calls for the user that have checked the password and are not counted yet. -/
def uncounted (s : Server) (u : String) : ℕ := s.callsIn u LoginPhase.uncounted

def verificationsIn (s : Server) (u : String) (w : ℕ) : ℕ :=
  s.verifications.countP fun v => v.1 == u && decide (w ≤ v.2 ∧ v.2 < w + windowMs)

def current (s : Server) (u : String) : Attempts :=
  (s.loginAttempts.lookup u).elim ⟨0, s.nowMs⟩ (·.refresh s.nowMs)

def WrongPassword [Bcrypt] (u : String) (s : Server) : ServerLabel → Prop
  | .verify i config =>
      ∀ c ∈ s.logins[i]?, c.req.username = u → authenticate config c.req = none
  | _ => True

/-- A check that lets a call through leaves room for the calls that are not counted yet. -/
def Spaced (u : String) (s : Server) : ServerLabel → Prop
  | .check i =>
      ∀ c ∈ s.logins[i]?, c.req.username = u → c.req.tooLong = false →
        (s.current u).count < loginMaxAttempts →
        (s.current u).count + s.pending u < loginMaxAttempts
  | _ => True

instance [Bcrypt] (u : String) (s : Server) (l : ServerLabel) :
    Decidable (WrongPassword u s l) :=
  match l with
  | .verify i config => inferInstanceAs (Decidable (∀ c ∈ s.logins[i]?, c.req.username = u →
      authenticate config c.req = none))
  | .login _ | .check _ | .clean _ | .count _ | .grant _ _ | .clear _ | .logout _ | .cleanup _
  | .request _ _ | .lookupBearer _ | .lookupQuery _ | .tick _ => .isTrue trivial

instance (u : String) (s : Server) (l : ServerLabel) : Decidable (Spaced u s l) :=
  match l with
  | .check i => inferInstanceAs (Decidable (∀ c ∈ s.logins[i]?, c.req.username = u →
      c.req.tooLong = false → (s.current u).count < loginMaxAttempts →
        (s.current u).count + s.pending u < loginMaxAttempts))
  | .login _ | .clean _ | .verify _ _ | .count _ | .grant _ _ | .clear _ | .logout _ | .cleanup _
  | .request _ _ | .lookupBearer _ | .lookupQuery _ | .tick _ => .isTrue trivial

/-! ## The attempts of one user -/

/-- What the limiter of the library sees of the user. -/
def view (s : Server) (u : String) : WindowLimit.State where
  now := s.nowMs
  entry := (s.loginAttempts.lookup u).map fun a => (a.count, a.windowStartMs)
  pending := s.pending u
  uncounted := s.uncounted u
  checks := (s.verifications.filter (·.1 == u)).map (·.2)
  windows := (s.windows.filter (·.1 == u)).map (·.2)

variable {s s' : Server} {u : String} {i : ℕ} {c : LoginCall}

theorem expired_iff (a : Attempts) (nowMs : ℕ) :
    a.expired nowMs = true ↔ a.windowStartMs + windowMs ≤ nowMs := by
  unfold Attempts.expired secsSince windowMs loginWindowSecs
  rw [decide_eq_true_eq]
  omega

theorem view_live (s : Server) (u : String) :
    (s.view u).live windowMs =
      ((s.loginAttempts.lookup u).filter fun a => !a.expired s.nowMs).map
        fun a => (a.count, a.windowStartMs) := by
  unfold WindowLimit.State.live view
  cases s.loginAttempts.lookup u with
  | none => rfl
  | some a =>
    have hiff := expired_iff a s.nowMs
    cases hexpired : a.expired s.nowMs with
    | true =>
      have hle := hiff.mp hexpired
      simp [Option.filter, hexpired, hle]
    | false =>
      have hlt : s.nowMs < a.windowStartMs + windowMs := by
        by_contra hle
        exact absurd (hiff.mpr (not_lt.mp hle)) (by simp [hexpired])
      simp [Option.filter, hexpired, hlt]

theorem view_current (s : Server) (u : String) :
    (s.view u).current windowMs = ((s.current u).count, (s.current u).windowStartMs) := by
  unfold WindowLimit.State.current
  rw [view_live]
  unfold current
  cases s.loginAttempts.lookup u with
  | none => rfl
  | some a =>
    cases hexpired : a.expired s.nowMs <;>
      simp [Option.filter, Attempts.refresh, hexpired, view]

theorem view_live_isNone (s : Server) (u : String) :
    ((s.view u).live windowMs).isNone = s.startsWindow u := by
  rw [view_live, startsWindow]
  cases s.loginAttempts.lookup u with
  | none => rfl
  | some a => cases hexpired : a.expired s.nowMs <;> simp [Option.filter, hexpired]

theorem view_opened (s : Server) (u : String) :
    (s.view u).opened windowMs = ((s.recordWindow u).filter (·.1 == u)).map (·.2) := by
  unfold WindowLimit.State.opened recordWindow
  rw [view_live_isNone]
  split <;> simp [view]

theorem filter_recordWindow_ne {v : String} (h : v ≠ u) :
    (s.recordWindow v).filter (·.1 == u) = s.windows.filter (·.1 == u) := by
  unfold recordWindow
  split <;> simp [h]

theorem view_eq {t : WindowLimit.State} (hnow : s.nowMs = t.now)
    (hentry : (s.loginAttempts.lookup u).map (fun a => (a.count, a.windowStartMs)) = t.entry)
    (hpending : s.pending u = t.pending) (huncounted : s.uncounted u = t.uncounted)
    (hchecks : (s.verifications.filter (·.1 == u)).map (·.2) = t.checks)
    (hwindows : (s.windows.filter (·.1 == u)).map (·.2) = t.windows) : s.view u = t := by
  cases t
  simp only [view, WindowLimit.State.mk.injEq]
  exact ⟨hnow, hentry, hpending, huncounted, hchecks, hwindows⟩

section CallsIn

variable {f : LoginPhase → Bool} {phase : LoginPhase}

theorem callsIn_setLogin (hc : s.logins[i]? = some c) (f : LoginPhase → Bool)
    (phase : LoginPhase) (u : String) :
    (s.setLogin i c phase).callsIn u f +
        (if (c.req.username == u && f c.phase) = true then 1 else 0) =
      s.callsIn u f + if (c.req.username == u && f phase) = true then 1 else 0 :=
  Lists.countP_set hc _

theorem callsIn_setLogin_same (hc : s.logins[i]? = some c)
    (h : c.req.username = u → f phase = f c.phase) :
    (s.setLogin i c phase).callsIn u f = s.callsIn u f := by
  have hset := callsIn_setLogin hc f phase u
  by_cases hu : c.req.username = u
  · rw [h hu] at hset
    exact Nat.add_right_cancel hset
  · simpa [hu] using hset

theorem callsIn_setLogin_enter (hc : s.logins[i]? = some c) (hfrom : f c.phase = false)
    (hto : f phase = true) :
    (s.setLogin i c phase).callsIn c.req.username f = s.callsIn c.req.username f + 1 := by
  simpa [hfrom, hto] using callsIn_setLogin hc f phase c.req.username

theorem callsIn_setLogin_leave (hc : s.logins[i]? = some c) (hfrom : f c.phase = true)
    (hto : f phase = false) :
    (s.setLogin i c phase).callsIn c.req.username f + 1 = s.callsIn c.req.username f := by
  simpa [hfrom, hto] using callsIn_setLogin hc f phase c.req.username

end CallsIn

theorem mem_setLogin {phase : LoginPhase} {d : LoginCall}
    (h : d ∈ (s.setLogin i c phase).logins) : d ∈ s.logins ∨ d = { c with phase := phase } :=
  List.mem_or_eq_of_mem_set h

/-! ## The operations -/

theorem checkAttempts_limited (s : Server) (u : String) :
    (checkAttempts s.nowMs u s.loginAttempts).1 =
      decide (loginMaxAttempts ≤ (s.current u).count) := by
  unfold checkAttempts current
  cases s.loginAttempts.lookup u with
  | none => rfl
  | some a => rfl

theorem lookup_checkAttempts (s : Server) (u : String) :
    (checkAttempts s.nowMs u s.loginAttempts).2.lookup u = some (s.current u) :=
  AssocMap.lookup_modifyOrInsert_self _ _ _ _

theorem lookup_countFailure (s : Server) (u : String) :
    (countFailure s.nowMs u s.loginAttempts).lookup u =
      some ⟨((s.current u).count + 1) % 2 ^ 32, (s.current u).windowStartMs⟩ := by
  unfold countFailure current
  rw [AssocMap.lookup_modifyOrInsert_self]
  cases s.loginAttempts.lookup u with
  | none => rfl
  | some a =>
    simp only [Option.elim_some, Attempts.countFailure, Attempts.refresh]
    split <;> rfl

theorem uncounted_le_pending (s : Server) (u : String) : s.uncounted u ≤ s.pending u := by
  apply List.countP_mono_left
  intro c _ h
  rw [Bool.and_eq_true] at h ⊢
  refine ⟨h.1, ?_⟩
  cases hphase : c.phase with
  | verified user => rfl
  | _ => rw [hphase] at h; cases h.2

theorem view_of_other (hc : s.logins[i]? = some c) (hne : c.req.username ≠ u) {t : Server}
    {phase : LoginPhase} (hnow : t.nowMs = s.nowMs) (hlogins : t.logins = s.logins)
    (hentry : t.loginAttempts.lookup u = s.loginAttempts.lookup u)
    (hchecks : t.verifications.filter (·.1 == u) = s.verifications.filter (·.1 == u))
    (hwindows : t.windows.filter (·.1 == u) = s.windows.filter (·.1 == u)) :
    (t.setLogin i c phase).view u = s.view u := by
  have hcalls : ∀ f, (t.setLogin i c phase).callsIn u f = s.callsIn u f := by
    intro f
    have hct : t.logins[i]? = some c := by rw [hlogins, hc]
    rw [callsIn_setLogin_same hct fun hu => absurd hu hne, callsIn, hlogins, callsIn]
  apply view_eq
  · exact hnow
  · exact congrArg _ hentry
  · exact hcalls _
  · exact hcalls _
  · exact congrArg _ hchecks
  · exact congrArg _ hwindows

/-! ## The server refines the limiter -/

/-- A step of the limiter, as far as it sees the server. -/
abbrev Refines (u : String) (s s' : Server) : Prop :=
  WindowLimit.Step windowMs loginMaxAttempts (s.view u) (s'.view u)

theorem refines_of {t : WindowLimit.State}
    (hstep : WindowLimit.Step windowMs loginMaxAttempts (s.view u) t) (hview : s'.view u = t) :
    Refines u s s' := by
  subst hview
  exact hstep

theorem refines_of_view_eq (h : s'.view u = s.view u) : Refines u s s' :=
  refines_of .stay h

theorem refines_check (hc : s.logins[i]? = some c) (hphase : c.phase = .entered)
    (hspaced : Spaced u s (.check i)) : Refines u s (s.check i c) := by
  by_cases hlong : c.req.tooLong = true
  · -- the call ends before it touches the attempts
    rw [check, if_pos hlong]
    apply refines_of_view_eq
    refine view_eq rfl rfl ?_ ?_ rfl rfl
    · exact callsIn_setLogin_same hc fun _ => by rw [hphase]; rfl
    · exact callsIn_setLogin_same hc fun _ => by rw [hphase]; rfl
  · rw [check, if_neg hlong]
    dsimp only
    by_cases hu : c.req.username = u
    · subst hu
      rw [checkAttempts_limited]
      have hentry : ((checkAttempts s.nowMs c.req.username s.loginAttempts).2.lookup
          c.req.username).map (fun a => (a.count, a.windowStartMs)) =
          some ((s.view c.req.username).current windowMs) := by
        rw [lookup_checkAttempts, view_current]
        rfl
      have hwindows := (view_opened s c.req.username).symm
      by_cases hlimited : loginMaxAttempts ≤ (s.current c.req.username).count
      · rw [if_pos (decide_eq_true hlimited)]
        refine refines_of .refuse (view_eq rfl hentry ?_ ?_ rfl hwindows)
        · exact callsIn_setLogin_same hc fun _ => by rw [hphase]; rfl
        · exact callsIn_setLogin_same hc fun _ => by rw [hphase]; rfl
      · rw [if_neg (by simpa using hlimited)]
        have hroom := hspaced c hc rfl (Bool.not_eq_true _ ▸ hlong) (not_le.mp hlimited)
        refine refines_of (.pass ?_) (view_eq rfl hentry ?_ ?_ rfl hwindows)
        · rw [view_current]
          exact hroom
        · exact callsIn_setLogin_enter hc (by rw [hphase]; rfl) rfl
        · exact callsIn_setLogin_same hc fun _ => by rw [hphase]; rfl
    · apply refines_of_view_eq
      refine view_of_other hc hu rfl rfl ?_ rfl (filter_recordWindow_ne hu)
      exact AssocMap.lookup_modifyOrInsert_ne (Ne.symm hu) _ _ _

theorem refines_clean (hc : s.logins[i]? = some c) {checkedMs : ℕ}
    (hphase : c.phase = .passed checkedMs) (hpast : checkedMs ≤ s.nowMs) :
    Refines u s (s.clean i c checkedMs) := by
  have hcalls : ∀ f, f .cleaned = f (.passed checkedMs) →
      (s.clean i c checkedMs).callsIn u f = s.callsIn u f := by
    intro f hf
    exact callsIn_setLogin_same hc fun _ => by rw [hphase, hf]
  have hlookup : (s.clean i c checkedMs).loginAttempts.lookup u =
      (s.loginAttempts.lookup u).filter fun a => !a.expired checkedMs :=
    AssocMap.lookup_retain _ _ _
  cases hentry : s.loginAttempts.lookup u with
  | none =>
    apply refines_of_view_eq
    refine view_eq rfl ?_ (hcalls _ rfl) (hcalls _ rfl) rfl rfl
    rw [hlookup, view, hentry]
    rfl
  | some a =>
    cases hexpired : a.expired checkedMs with
    | false =>
      apply refines_of_view_eq
      refine view_eq rfl ?_ (hcalls _ rfl) (hcalls _ rfl) rfl rfl
      rw [hlookup, view, hentry]
      simp [Option.filter, hexpired]
    | true =>
      have hnow : a.expired s.nowMs = true := by
        rw [expired_iff] at hexpired ⊢
        exact hexpired.trans hpast
      refine refines_of (.forget ?_) (view_eq rfl ?_ (hcalls _ rfl) (hcalls _ rfl) rfl rfl)
      · rw [view_live, hentry]
        simp [Option.filter, hnow]
      · rw [hlookup, hentry]
        simp [Option.filter, hexpired]

theorem refines_verify [Bcrypt] (hc : s.logins[i]? = some c) (hphase : c.phase = .cleaned)
    (config : ServerConfig) : Refines u s (s.verify i c config) := by
  by_cases hu : c.req.username = u
  · subst hu
    have hpending : (s.verify i c config).pending c.req.username = s.pending c.req.username :=
      callsIn_setLogin_same hc fun _ => by rw [hphase]; rfl
    have huncounted : (s.verify i c config).uncounted c.req.username =
        s.uncounted c.req.username + 1 :=
      callsIn_setLogin_enter hc (by rw [hphase]; rfl) rfl
    refine refines_of (.check ?_) (view_eq rfl rfl hpending huncounted ?_ rfl)
    · have hle := (s.verify i c config).uncounted_le_pending c.req.username
      rw [hpending, huncounted] at hle
      exact hle
    · simp [verify, setLogin, view]
  · apply refines_of_view_eq
    refine view_of_other hc hu rfl rfl rfl ?_ rfl
    simp [hu]

theorem refines_count (hinv : WindowLimit.Inv windowMs loginMaxAttempts (s.view u))
    (hc : s.logins[i]? = some c) (hphase : c.phase = .verified none) :
    Refines u s (s.count i c) := by
  by_cases hu : c.req.username = u
  · subst hu
    have hpending : (s.count i c).pending c.req.username + 1 = s.pending c.req.username :=
      callsIn_setLogin_leave hc (by rw [hphase]; rfl) rfl
    have huncounted : (s.count i c).uncounted c.req.username + 1 = s.uncounted c.req.username :=
      callsIn_setLogin_leave hc (by rw [hphase]; rfl) rfl
    refine refines_of (.count ?_) (view_eq rfl ?_ ?_ ?_ rfl ?_)
    · change 0 < s.uncounted c.req.username
      omega
    · -- the counter is far from its bound
      have hroom := hinv.room
      rw [view_current] at hroom ⊢
      have hsmall : ((s.current c.req.username).count + 1) % 2 ^ 32 =
          (s.current c.req.username).count + 1 := by
        apply Nat.mod_eq_of_lt
        unfold loginMaxAttempts at hroom
        dsimp only at hroom
        omega
      change ((countFailure s.nowMs c.req.username s.loginAttempts).lookup c.req.username).map _ = _
      rw [lookup_countFailure, Option.map_some, hsmall]
    · change _ = s.pending c.req.username - 1
      omega
    · change _ = s.uncounted c.req.username - 1
      omega
    · exact (view_opened s c.req.username).symm
  · apply refines_of_view_eq
    refine view_of_other hc hu rfl rfl ?_ rfl (filter_recordWindow_ne hu)
    exact AssocMap.lookup_modifyOrInsert_ne (Ne.symm hu) _ _ _

theorem view_lookupSession (j : ℕ) (d : AuthCall) (otherwise : AuthPhase)
    (token : Option String) : (s.lookupSession j d otherwise token).view u = s.view u := by
  obtain ⟨phase, hs'⟩ := s.lookupSession_eq j d otherwise token
  rw [hs']
  rfl

/-- What is known of the calls: the times of their checks are past, and the user's passwords were
wrong. -/
structure Steady (u : String) (s : Server) : Prop where
  checked : ∀ c ∈ s.logins, ∀ t, c.phase = .passed t → t ≤ s.nowMs
  wrong : ∀ c ∈ s.logins, c.req.username = u → c.phase.succeeds = false

theorem Steady.username_ne (h : s.Steady u) (hc : s.logins[i]? = some c)
    (hsucceeds : c.phase.succeeds = true) : c.req.username ≠ u := by
  intro hu
  rw [h.wrong c (List.mem_of_getElem? hc) hu] at hsucceeds
  cases hsucceeds

theorem Steady.lookupSession (h : s.Steady u) (j : ℕ) (d : AuthCall) (otherwise : AuthPhase)
    (token : Option String) : (s.lookupSession j d otherwise token).Steady u := by
  obtain ⟨phase, hs'⟩ := s.lookupSession_eq j d otherwise token
  rw [hs']
  exact ⟨h.checked, h.wrong⟩

theorem Steady.setLogin (h : s.Steady u) {t : Server} {phase : LoginPhase}
    (hnow : t.nowMs = s.nowMs) (hlogins : t.logins = s.logins)
    (hchecked : ∀ n, phase = .passed n → n ≤ s.nowMs)
    (hwrong : c.req.username = u → phase.succeeds = false) : (t.setLogin i c phase).Steady u := by
  have hmem : ∀ d ∈ (t.setLogin i c phase).logins,
      d ∈ s.logins ∨ d = { c with phase := phase } := by
    intro d hd
    rw [← hlogins]
    exact mem_setLogin hd
  constructor
  · intro d hd n hn
    change n ≤ t.nowMs
    rw [hnow]
    rcases hmem d hd with hd | rfl
    · exact h.checked d hd n hn
    · exact hchecked n hn
  · intro d hd hu
    rcases hmem d hd with hd | rfl
    · exact h.wrong d hd hu
    · exact hwrong hu

variable [Bcrypt] {l : ServerLabel}

theorem steady_step (h : s.Steady u) (hwrong : WrongPassword u s l) (hstep : s.step l = some s') :
    s'.Steady u := by
  cases change_of_step hstep with
  | login req =>
    constructor
    · intro c hc t ht
      rcases List.mem_append.mp hc with hc | hc
      · exact h.checked c hc t ht
      · rw [List.mem_singleton.mp hc] at ht
        cases ht
    · intro c hc hu
      rcases List.mem_append.mp hc with hc | hc
      · exact h.wrong c hc hu
      · rw [List.mem_singleton.mp hc]
        rfl
  | @check i c hc hphase =>
    unfold check
    split
    · exact h.setLogin rfl rfl (by simp) fun _ => rfl
    · dsimp only
      split
      · exact h.setLogin rfl rfl (by simp) fun _ => rfl
      · refine h.setLogin rfl rfl ?_ fun _ => rfl
        intro n hn
        cases hn
        exact le_rfl
  | clean hc hphase => exact h.setLogin rfl rfl (by simp) fun _ => rfl
  | @verify i c config hc hphase =>
    refine h.setLogin rfl rfl (by simp) fun hu => ?_
    rw [hwrong c hc hu]
    rfl
  | count hc hphase => exact h.setLogin rfl rfl (by simp) fun _ => rfl
  | @grant i c user token hc hphase =>
    have hne : c.req.username ≠ u := h.username_ne hc (by rw [hphase]; rfl)
    exact h.setLogin rfl rfl (by simp) fun hu => absurd hu hne
  | clear hc hphase => exact h.setLogin rfl rfl (by simp) fun _ => rfl
  | logout bearer =>
    unfold logout
    split <;> exact ⟨h.checked, h.wrong⟩
  | cleanup locked =>
    unfold cleanup
    split <;> exact ⟨h.checked, h.wrong⟩
  | request r config => exact ⟨h.checked, h.wrong⟩
  | lookupBearer hd hphase => exact h.lookupSession _ _ _ _
  | lookupQuery hd hphase =>
    unfold lookupQuery
    split
    · exact ⟨h.checked, h.wrong⟩
    · exact h.lookupSession _ _ _ _
  | tick ms => exact ⟨fun c hc t ht => (h.checked c hc t ht).trans (Nat.le_add_right _ _), h.wrong⟩

theorem refines_step (h : s.Steady u)
    (hinv : WindowLimit.Inv windowMs loginMaxAttempts (s.view u)) (hspaced : Spaced u s l)
    (hstep : s.step l = some s') : Refines u s s' := by
  cases change_of_step hstep with
  | login req =>
    apply refines_of_view_eq
    refine view_eq rfl rfl ?_ ?_ rfl rfl
    · simp [pending, callsIn, List.countP_append, LoginPhase.pending, view]
    · simp [uncounted, callsIn, List.countP_append, LoginPhase.uncounted, view]
  | check hc hphase => exact refines_check hc hphase hspaced
  | @clean i c checkedMs hc hphase =>
    exact refines_clean hc hphase (h.checked c (List.mem_of_getElem? hc) checkedMs hphase)
  | verify config hc hphase => exact refines_verify hc hphase config
  | count hc hphase => exact refines_count hinv hc hphase
  | @grant i c user token hc hphase =>
    have hne : c.req.username ≠ u := h.username_ne hc (by rw [hphase]; rfl)
    exact refines_of_view_eq (view_of_other hc hne rfl rfl rfl rfl rfl)
  | @clear i c user token hc hphase =>
    have hne : c.req.username ≠ u := h.username_ne hc (by rw [hphase]; rfl)
    refine refines_of_view_eq (view_of_other hc hne rfl rfl ?_ rfl rfl)
    exact AList.lookup_erase_ne (Ne.symm hne)
  | logout bearer => exact refines_of_view_eq (by unfold logout; split <;> rfl)
  | cleanup locked => exact refines_of_view_eq (by unfold cleanup; split <;> rfl)
  | request r config => exact refines_of_view_eq rfl
  | lookupBearer hd hphase => exact refines_of_view_eq (view_lookupSession _ _ _ _)
  | lookupQuery hd hphase =>
    apply refines_of_view_eq
    unfold lookupQuery
    split
    · rfl
    · exact view_lookupSession _ _ _ _
  | tick ms => exact refines_of (.tick ms) rfl

/-- For a username that is used with wrong passwords only, at most five passwords are checked within
each window, in every run whose checks leave room for the calls in flight. -/
theorem verifications_le {nowMs : ℕ} {ls : List ServerLabel}
    (hwrong : Runs.Meets step (WrongPassword u) (initial nowMs) ls)
    (hspaced : Runs.Meets step (Spaced u) (initial nowMs) ls)
    (hrun : Runs.run step (initial nowMs) ls = some s) :
    ∀ w, (u, w) ∈ s.windows → s.verificationsIn u w ≤ loginMaxAttempts := by
  have hkept : s.Steady u ∧ WindowLimit.Inv windowMs loginMaxAttempts (s.view u) := by
    refine Runs.invariant_of_meets (I := fun s => s.Steady u ∧
      WindowLimit.Inv windowMs loginMaxAttempts (s.view u)) ?_ (hwrong.and hspaced) hrun ?_
    · rintro s l s' ⟨hsteady, hinv⟩ ⟨hw, hs⟩ hstep
      exact ⟨steady_step hsteady hw hstep,
        WindowLimit.inv_step windowMs_pos hinv (refines_step hsteady hinv hs hstep)⟩
    · refine ⟨⟨by simp [initial], by simp [initial]⟩, ?_⟩
      constructor <;> simp [initial, view, pending, uncounted, callsIn, WindowLimit.State.current,
        WindowLimit.State.live, WindowLimit.State.since]
  intro w hw
  have hmem : w ∈ (s.view u).windows :=
    List.mem_map.mpr ⟨(u, w), List.mem_filter.mpr ⟨hw, by simp⟩, rfl⟩
  have hbounded := hkept.2.bounded w hmem
  have hsame : (s.view u).within windowMs w = s.verificationsIn u w := by
    unfold WindowLimit.State.within verificationsIn view
    simp only [List.countP_map, List.countP_filter]
    refine List.countP_congr fun v _ => ?_
    simp only [Function.comp_apply, Bool.and_comm]
  rw [← hsame]
  exact hbounded

end Server

/-! ## Overlapping calls -/

section Examples

attribute [local instance] noBcrypt

open Server

def wrongLogin (i : ℕ) : List ServerLabel := [.check i, .clean i, .verify i exampleConfig, .count i]

def sixInTurn : List ServerLabel :=
  (List.range 6).flatMap fun i =>
    .login ⟨"admin", "guess"⟩ :: (if i < 5 then wrongLogin i else [.check i])

def sixAtOnce : List ServerLabel :=
  List.replicate 6 (.login ⟨"admin", "guess"⟩) ++
    (List.range 6).map .check ++ (List.range 6).map .clean ++
    (List.range 6).map fun i => .verify i exampleConfig

theorem verifications_le_sixInTurn :
    ∃ s, Runs.run step (initial 0) sixInTurn = some s ∧ ("admin", 0) ∈ s.windows ∧
      s.verificationsIn "admin" 0 = 5 ∧ s.verificationsIn "admin" 0 ≤ loginMaxAttempts := by
  have hend : (Runs.run step (initial 0) sixInTurn).map
      (fun s => (decide (("admin", 0) ∈ s.windows), s.verificationsIn "admin" 0)) =
      some (true, 5) := by decide +kernel
  obtain ⟨s, hs, he⟩ := Option.map_eq_some_iff.mp hend
  rw [Prod.mk.injEq, decide_eq_true_eq] at he
  exact ⟨s, hs, he.1, he.2, verifications_le (by decide +kernel) (by decide +kernel) hs 0 he.1⟩

/-- Six passwords are checked within one window. -/
theorem six_verifications_sixAtOnce :
    ∃ s, Runs.run step (initial 0) sixAtOnce = some s ∧
      Runs.Meets step (WrongPassword "admin") (initial 0) sixAtOnce ∧
      ("admin", 0) ∈ s.windows ∧ ¬ s.verificationsIn "admin" 0 ≤ loginMaxAttempts := by
  have hend : (Runs.run step (initial 0) sixAtOnce).map
      (fun s => (decide (("admin", 0) ∈ s.windows), s.verificationsIn "admin" 0)) =
      some (true, 6) := by decide +kernel
  obtain ⟨s, hs, he⟩ := Option.map_eq_some_iff.mp hend
  rw [Prod.mk.injEq, decide_eq_true_eq] at he
  refine ⟨s, hs, by decide +kernel, he.1, ?_⟩
  rw [he.2]
  decide

end Examples

end Admin

end SentirumLb
