import SentirumLb.Admin.Sessions

/-! # Whom the admin API trusts

A request is accepted for the admin token that it carries, or for the token of a
session. Every session goes back to a login whose password was checked, and so
does every request that is accepted for one. A token that was logged out before
it is looked up is not accepted until a login is given the same one again.
-/

namespace SentirumLb.Admin

def loginRequests (ls : List ServerLabel) : List LoginRequest :=
  ls.filterMap fun
    | .login req => some req
    | _ => none

def authRequests (ls : List ServerLabel) : List (AdminRequest × String) :=
  ls.filterMap fun
    | .request r config => some (r, config.adminToken)
    | _ => none

def clock (startMs : ℕ) (ls : List ServerLabel) : ℕ :=
  ls.foldl (fun now l => match l with
    | .tick ms => now + ms
    | _ => now) startMs

/-- The password of the login of a number was checked, with success. -/
def Authenticated [Bcrypt] (ls : List ServerLabel) (i : ℕ) (user : String) : Prop :=
  ∃ req config, (loginRequests ls)[i]? = some req ∧ .verify i config ∈ ls ∧
    authenticate config req = some user

/-- A login of the user was given the token then, and nobody has logged it out since. -/
def Issued [Bcrypt] (startMs : ℕ) (ls : List ServerLabel) (token : String) (e : SessionEntry) :
    Prop :=
  ∃ before i after, ls = before ++ .grant i token :: after ∧ Authenticated before i e.user ∧
    e.createdAtMs = clock startMs before ∧ .logout (some token) ∉ after

/-- The step looks up a token that the request of the number carries. -/
def ServerLabel.LooksUp (l : ServerLabel) (j : ℕ) (r : AdminRequest) (token : String) : Prop :=
  l = .lookupBearer j ∧ r.bearer = some token ∨ l = .lookupQuery j ∧ r.queryToken = some token

/-- When the token that the request carries was looked up, it had been given to a login, and had not
been logged out since. -/
def LookedUp [Bcrypt] (startMs : ℕ) (ls : List ServerLabel) (j : ℕ) (r : AdminRequest) : Prop :=
  ∃ before l after token session, ls = before ++ l :: after ∧ l.LooksUp j r token ∧
    Issued startMs before token session

def ServerLabel.Quiet : ServerLabel → Prop
  | .login _ | .request _ _ | .tick _ => False
  | _ => True

variable [Bcrypt] {startMs : ℕ} {ls : List ServerLabel} {l : ServerLabel}

theorem Authenticated.append {i : ℕ} {user : String} (h : Authenticated ls i user)
    (ls' : List ServerLabel) : Authenticated (ls ++ ls') i user := by
  obtain ⟨req, config, hreq, hverify, hauth⟩ := h
  refine ⟨req, config, ?_, List.mem_append_left _ hverify, hauth⟩
  rw [loginRequests, List.filterMap_append]
  exact (List.getElem?_append_left (List.getElem?_eq_some_iff.mp hreq).1).trans hreq

theorem Issued.concat {token : String} {e : SessionEntry} (h : Issued startMs ls token e)
    (hl : l ≠ .logout (some token)) : Issued startMs (ls ++ [l]) token e := by
  obtain ⟨before, i, after, rfl, hauth, hcreated, hlogout⟩ := h
  refine ⟨before, i, after ++ [l], by simp, hauth, hcreated, ?_⟩
  rw [List.mem_append, List.mem_singleton, not_or]
  exact ⟨hlogout, Ne.symm hl⟩

theorem LookedUp.append {j : ℕ} {r : AdminRequest} (h : LookedUp startMs ls j r)
    (ls' : List ServerLabel) : LookedUp startMs (ls ++ ls') j r := by
  obtain ⟨before, l, after, token, session, rfl, hlooks, hissued⟩ := h
  exact ⟨before, l, after ++ ls', token, session, by simp, hlooks, hissued⟩

omit [Bcrypt] in
theorem records_quiet (hl : l.Quiet) : loginRequests (ls ++ [l]) = loginRequests ls ∧
    authRequests (ls ++ [l]) = authRequests ls ∧
      ∀ startMs, clock startMs (ls ++ [l]) = clock startMs ls := by
  cases l with
  | login | request | tick => cases hl
  | _ => simp [loginRequests, authRequests, clock]

namespace Server

structure Trusted (startMs : ℕ) (ls : List ServerLabel) (s : Server) : Prop where
  time : s.nowMs = clock startMs ls
  logins : s.logins.map (·.req) = loginRequests ls
  requests : s.requests.map (fun c => (c.request, c.expected)) = authRequests ls
  verified : ∀ i c user, s.logins[i]? = some c → c.phase = .verified (some user) →
    Authenticated ls i user
  sessions : ∀ token e, s.sessions.lookup token = some e → Issued startMs ls token e
  decided : ∀ j c, s.requests[j]? = some c → c.phase = .decided true →
    c.request.tokenAuth c.expected ∨ c.queryIsAdmin ∨ LookedUp startMs ls j c.request

variable {s s' : Server}

theorem Trusted.decided_append (h : Trusted startMs ls s) (ls' : List ServerLabel) (j : ℕ)
    (c : AuthCall) (hc : s.requests[j]? = some c) (hphase : c.phase = .decided true) :
    c.request.tokenAuth c.expected ∨ c.queryIsAdmin ∨
      LookedUp startMs (ls ++ ls') j c.request :=
  (h.decided j c hc hphase).imp_right (Or.imp_right fun hlooked => hlooked.append ls')

theorem Trusted.quiet (h : Trusted startMs ls s) (hl : l.Quiet) (htime : s'.nowMs = s.nowMs)
    (hlogins : s'.logins.map (·.req) = s.logins.map (·.req)) (hrequests : s'.requests = s.requests)
    (hverified : ∀ i c user, s'.logins[i]? = some c → c.phase = .verified (some user) →
      Authenticated (ls ++ [l]) i user)
    (hsessions : ∀ token e, s'.sessions.lookup token = some e →
      Issued startMs (ls ++ [l]) token e) : Trusted startMs (ls ++ [l]) s' := by
  obtain ⟨hloginRequests, hauthRequests, hclock⟩ := records_quiet hl
  constructor
  · rw [htime, hclock, h.time]
  · rw [hlogins, hloginRequests, h.logins]
  · rw [hrequests, hauthRequests, h.requests]
  · exact hverified
  · exact hsessions
  · rw [hrequests]
    exact h.decided_append [l]

theorem Trusted.sessions_concat (h : Trusted startMs ls s) (hl : ∀ token, l ≠ .logout token)
    (token : String) (e : SessionEntry) (he : s.sessions.lookup token = some e) :
    Issued startMs (ls ++ [l]) token e :=
  (h.sessions token e he).concat (hl _)

theorem Trusted.verified_concat (h : Trusted startMs ls s) (i : ℕ) (c : LoginCall) (user : String)
    (hc : s.logins[i]? = some c) (hphase : c.phase = .verified (some user)) :
    Authenticated (ls ++ [l]) i user :=
  (h.verified i c user hc hphase).append [l]

theorem Trusted.setLogin (h : Trusted startMs ls s) (hl : l.Quiet) {i : ℕ} {c : LoginCall}
    (hc : s.logins[i]? = some c) {t : Server} {phase : LoginPhase} (htime : t.nowMs = s.nowMs)
    (hlogins : t.logins = s.logins) (hrequests : t.requests = s.requests)
    (hphase : ∀ user, phase = .verified (some user) → Authenticated (ls ++ [l]) i user)
    (hsessions : ∀ token e, t.sessions.lookup token = some e →
      Issued startMs (ls ++ [l]) token e) :
    Trusted startMs (ls ++ [l]) (t.setLogin i c phase) := by
  have hset : (t.setLogin i c phase).logins = s.logins.set i { c with phase := phase } := by
    rw [← hlogins]
    rfl
  refine h.quiet hl htime ?_ hrequests ?_ hsessions
  · rw [hset, List.map_set]
    apply List.ext_getElem?
    intro j
    rw [List.getElem?_set]
    split
    · next hij =>
      subst hij
      rw [List.getElem?_map, hc]
      simp [(List.getElem?_eq_some_iff.mp hc).1]
    · rfl
  · intro j d user hd hdphase
    rw [hset, List.getElem?_set] at hd
    split at hd
    · next hij =>
      subst hij
      split at hd
      · cases hd
        exact hphase user hdphase
      · cases hd
    · exact h.verified_concat j d user hd hdphase

theorem Trusted.setRequest (h : Trusted startMs ls s) (hl : l.Quiet)
    (hlogout : ∀ token, l ≠ .logout token) {j : ℕ} {c : AuthCall} (hc : s.requests[j]? = some c)
    (acceptances : List Acceptance) (phase : AuthPhase)
    (hphase : phase = .decided true → c.request.tokenAuth c.expected ∨ c.queryIsAdmin ∨
      LookedUp startMs (ls ++ [l]) j c.request) :
    Trusted startMs (ls ++ [l])
      (Server.setRequest { s with acceptances := acceptances } j c phase) := by
  obtain ⟨hloginRequests, hauthRequests, hclock⟩ := records_quiet hl
  constructor
  · rw [hclock]
    exact h.time
  · rw [hloginRequests]
    exact h.logins
  · rw [hauthRequests, ← h.requests, Server.setRequest, List.map_set]
    apply List.ext_getElem?
    intro k
    rw [List.getElem?_set]
    split
    · next hjk =>
      subst hjk
      rw [List.getElem?_map, hc]
      simp [(List.getElem?_eq_some_iff.mp hc).1]
    · rfl
  · exact h.verified_concat
  · exact h.sessions_concat hlogout
  · intro k d hd hdphase
    rw [Server.setRequest, List.getElem?_set] at hd
    split at hd
    · next hjk =>
      subst hjk
      split at hd
      · cases hd
        exact hphase hdphase
      · cases hd
    · exact h.decided_append [l] k d hd hdphase

theorem Trusted.lookupSession (h : Trusted startMs ls s) (hl : l.Quiet)
    (hlogout : ∀ token, l ≠ .logout token) {j : ℕ} {c : AuthCall} (hc : s.requests[j]? = some c)
    {otherwise : AuthPhase} (hotherwise : otherwise ≠ .decided true) {token : Option String}
    (htoken : ∀ t, token = some t → l.LooksUp j c.request t) :
    Trusted startMs (ls ++ [l]) (s.lookupSession j c otherwise token) := by
  have hunchanged : Trusted startMs (ls ++ [l]) (s.setRequest j c otherwise) :=
    h.setRequest hl hlogout hc s.acceptances otherwise fun heq => absurd heq hotherwise
  cases token with
  | none => exact hunchanged
  | some t =>
    cases hlookup : s.sessions.lookup t with
    | none =>
      rw [Server.lookupSession, hlookup]
      exact hunchanged
    | some session =>
      rw [Server.lookupSession, hlookup]
      refine h.setRequest hl hlogout hc _ _ fun _ => .inr (.inr ?_)
      exact ⟨ls, l, [], t, session, rfl, htoken t rfl, h.sessions t session hlookup⟩

theorem Trusted.request (h : Trusted startMs ls s) (r : AdminRequest) (config : ServerConfig) :
    Trusted startMs (ls ++ [.request r config]) (s.request r config) := by
  constructor
  · rw [clock, List.foldl_append]
    exact h.time
  · rw [loginRequests, List.filterMap_append, List.filterMap_cons_none rfl, List.filterMap_nil,
      List.append_nil]
    exact h.logins
  · rw [authRequests, List.filterMap_append, Server.request, List.map_append, h.requests]
    rfl
  · exact h.verified_concat
  · exact h.sessions_concat (by simp)
  · intro j d hd hdphase
    obtain hlt | rfl | hgt := lt_trichotomy j s.requests.length
    · exact h.decided_append _ j d ((List.getElem?_append_left hlt).symm.trans hd) hdphase
    · cases List.getElem?_concat_length.symm.trans hd
      dsimp only at hdphase ⊢
      split at hdphase
      · next htoken => exact .inl htoken
      · cases hdphase
    · rw [Server.request, List.getElem?_eq_none (by simpa using hgt)] at hd
      cases hd

theorem Trusted.login (h : Trusted startMs ls s) (req : LoginRequest) :
    Trusted startMs (ls ++ [.login req]) { s with logins := s.logins ++ [⟨req, .entered⟩] } := by
  constructor
  · rw [clock, List.foldl_append]
    exact h.time
  · rw [loginRequests, List.filterMap_append, List.map_append, h.logins]
    rfl
  · rw [authRequests, List.filterMap_append, List.filterMap_cons_none rfl, List.filterMap_nil,
      List.append_nil]
    exact h.requests
  · intro i c user hc hphase
    obtain hlt | rfl | hgt := lt_trichotomy i s.logins.length
    · exact h.verified_concat i c user ((List.getElem?_append_left hlt).symm.trans hc) hphase
    · cases List.getElem?_concat_length.symm.trans hc
      cases hphase
    · rw [List.getElem?_eq_none (by simpa using hgt)] at hc
      cases hc
  · exact h.sessions_concat (by simp)
  · exact h.decided_append _

theorem Trusted.step (h : Trusted startMs ls s) (hs : s.step l = some s') :
    Trusted startMs (ls ++ [l]) s' := by
  cases change_of_step hs with
  | login req => exact h.login req
  | @check i c hc hphase =>
    have hsessions := h.sessions_concat (l := .check i) (by simp)
    unfold check
    split
    · exact h.setLogin (l := .check i) trivial hc rfl rfl rfl (by simp) hsessions
    · refine h.setLogin (l := .check i) trivial hc rfl rfl rfl (fun user heq => ?_) hsessions
      split at heq <;> cases heq
  | @clean i c checkedMs hc hphase =>
    exact h.setLogin (l := .clean i) trivial hc rfl rfl rfl (by simp)
      (h.sessions_concat (by simp))
  | @verify i c config hc hphase =>
    have hquiet : (ServerLabel.verify i config).Quiet := trivial
    refine h.setLogin hquiet hc rfl rfl rfl ?_ (h.sessions_concat (by simp))
    intro user huser
    refine ⟨c.req, config, ?_, by simp, by simpa using huser⟩
    rw [(records_quiet hquiet).1, ← h.logins, List.getElem?_map, hc]
    rfl
  | @count i c hc hphase =>
    exact h.setLogin (l := .count i) trivial hc rfl rfl rfl (by simp)
      (h.sessions_concat (by simp))
  | @grant i c user token hc hphase =>
    refine h.setLogin (l := .grant i token) trivial hc rfl rfl rfl (by simp) ?_
    intro token' e he
    by_cases htoken : token' = token
    · subst htoken
      rw [AList.lookup_insert] at he
      cases he
      exact ⟨ls, i, [], rfl, h.verified i c user hc hphase, h.time, by simp⟩
    · rw [AList.lookup_insert_ne htoken] at he
      exact h.sessions_concat (by simp) token' e (lookup_evictExpiredSessions he).1
  | @clear i c user token hc hphase =>
    exact h.setLogin (l := .clear i) trivial hc rfl rfl rfl (by simp)
      (h.sessions_concat (by simp))
  | logout bearer =>
    cases bearer with
    | none =>
      refine h.quiet trivial rfl rfl rfl h.verified_concat ?_
      exact fun token e he => (h.sessions token e he).concat (by simp)
    | some token =>
      refine h.quiet trivial rfl rfl rfl h.verified_concat ?_
      intro token' e he
      have hne : token' ≠ token := by
        rintro rfl
        rw [Server.logout, AList.lookup_erase] at he
        cases he
      rw [Server.logout, AList.lookup_erase_ne hne] at he
      refine (h.sessions token' e he).concat ?_
      simpa using Ne.symm hne
  | cleanup locked =>
    have hsessions := h.sessions_concat (l := .cleanup locked) (by simp)
    unfold cleanup
    split
    · exact h.quiet trivial rfl rfl rfl h.verified_concat hsessions
    · refine h.quiet trivial rfl rfl rfl h.verified_concat ?_
      exact fun token e he => hsessions token e (lookup_retainSessions he).1
  | request r config => exact h.request r config
  | @lookupBearer j c hc hphase =>
    exact h.lookupSession (l := .lookupBearer j) trivial (by simp) hc (by simp)
      fun t ht => .inl ⟨rfl, ht⟩
  | @lookupQuery j c hc hphase =>
    unfold lookupQuery
    split
    · next hadmin =>
      exact h.setRequest (l := .lookupQuery j) trivial (by simp) hc s.acceptances (.decided true)
        fun _ => .inr (.inl hadmin)
    · exact h.lookupSession (l := .lookupQuery j) trivial (by simp) hc (by simp)
        fun t ht => .inr ⟨rfl, ht⟩
  | tick ms =>
    constructor
    · rw [clock, List.foldl_append]
      exact congrArg (· + ms) h.time
    · rw [loginRequests, List.filterMap_append, List.filterMap_cons_none rfl, List.filterMap_nil,
        List.append_nil]
      exact h.logins
    · rw [authRequests, List.filterMap_append, List.filterMap_cons_none rfl, List.filterMap_nil,
        List.append_nil]
      exact h.requests
    · exact h.verified_concat
    · exact h.sessions_concat (by simp)
    · exact h.decided_append _

end Server

end SentirumLb.Admin
