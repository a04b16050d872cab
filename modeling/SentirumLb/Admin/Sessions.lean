import SentirumLb.Admin.Server

/-! # Expiry of sessions

A session ends when a sweep finds it too old: a cleanup tick that gets the
lock, or a login that stores a new session. The middleware looks a token up
without regard to its age, on both of its paths. So an expired session goes on
to authenticate until the first sweep after its expiry, and no longer.
-/

namespace SentirumLb

namespace Admin

def sessionTtlMs : ℕ := sessionTtlSecs * 1000

theorem sessionTtlMs_pos : 0 < sessionTtlMs := by
  unfold sessionTtlMs sessionTtlSecs
  omega

theorem SessionEntry.expired_iff (e : SessionEntry) (nowMs : ℕ) :
    e.expired nowMs = true ↔ e.createdAtMs + sessionTtlMs ≤ nowMs := by
  unfold SessionEntry.expired secsSince sessionTtlMs sessionTtlSecs
  rw [decide_eq_true_eq]
  omega

/-! ## Sweeps -/

theorem lookup_retainSessions {nowMs : ℕ} {m : Sessions} {token : String} {e : SessionEntry}
    (h : (retainSessions nowMs m).lookup token = some e) :
    m.lookup token = some e ∧ e.expired nowMs = false := by
  unfold retainSessions at h
  rw [AssocMap.lookup_retain, Option.filter_eq_some_iff] at h
  simpa using h

theorem lookup_evictExpiredSessions {nowMs : ℕ} {m : Sessions} {token : String} {e : SessionEntry}
    (h : (evictExpiredSessions nowMs m).lookup token = some e) :
    m.lookup token = some e ∧ e.expired nowMs = false := by
  unfold evictExpiredSessions at h
  dsimp only at h
  split at h
  · exact lookup_retainSessions (AssocMap.lookup_of_lookup_foldl_erase h)
  · exact lookup_retainSessions h

namespace Server

/-- Every request that was accepted for the sake of a session was so before the session expired. -/
def AcceptsLive (s : Server) : Prop := ∀ a ∈ s.acceptances, a.session.expired a.atMs = false

def lookedUp (s : Server) : ServerLabel → Option String
  | .lookupBearer j => s.requests[j]?.bind fun c => c.request.bearer
  | .lookupQuery j =>
      s.requests[j]?.bind fun c => if c.queryIsAdmin then none else c.request.queryToken
  | _ => none

/-- When the session under a token that is looked up has expired, a sweep has run since. -/
def Swept (s : Server) (l : ServerLabel) : Prop :=
  ∀ token ∈ s.lookedUp l, ∀ e ∈ s.sessions.lookup token,
    e.createdAtMs + sessionTtlMs ≤ s.nowMs → e.createdAtMs + sessionTtlMs ≤ s.lastSweepMs

instance (s : Server) (l : ServerLabel) : Decidable (s.Swept l) :=
  inferInstanceAs (Decidable (∀ token ∈ s.lookedUp l, ∀ e ∈ s.sessions.lookup token,
    e.createdAtMs + sessionTtlMs ≤ s.nowMs → e.createdAtMs + sessionTtlMs ≤ s.lastSweepMs))

/-- No session is stored that the last sweep could have removed. -/
def SweptClean (s : Server) : Prop :=
  ∀ token e, s.sessions.lookup token = some e → s.lastSweepMs < e.createdAtMs + sessionTtlMs

variable {s s' : Server} {l : ServerLabel}

theorem lt_of_not_expired {e : SessionEntry} {nowMs : ℕ} (h : e.expired nowMs = false) :
    nowMs < e.createdAtMs + sessionTtlMs := by
  by_contra hle
  have := (e.expired_iff nowMs).mpr (not_lt.mp hle)
  rw [h] at this
  cases this

/-- A lookup keeps the record live just when no sweep is missing. -/
theorem acceptsLive_lookupSession_iff (h : s.SweptClean) (j : ℕ) (c : AuthCall)
    (otherwise : AuthPhase) (token : Option String) :
    (s.lookupSession j c otherwise token).AcceptsLive ↔
      s.AcceptsLive ∧ ∀ t ∈ token, ∀ e ∈ s.sessions.lookup t,
        e.createdAtMs + sessionTtlMs ≤ s.nowMs → e.createdAtMs + sessionTtlMs ≤ s.lastSweepMs := by
  have hcond : ∀ t e, s.sessions.lookup t = some e →
      (e.expired s.nowMs = false ↔ (e.createdAtMs + sessionTtlMs ≤ s.nowMs →
        e.createdAtMs + sessionTtlMs ≤ s.lastSweepMs)) := by
    intro t e he
    have hclean := h t e he
    rw [← Bool.not_eq_true, e.expired_iff]
    omega
  obtain ⟨phase, hs'⟩ := s.lookupSession_eq j c otherwise token
  rw [hs']
  unfold AcceptsLive
  refine List.forall_mem_append.trans (and_congr_right fun _ => ?_)
  simp only [acceptance, Option.mem_toList, Option.mem_def, Option.bind_eq_some_iff,
    Option.map_eq_some_iff]
  constructor
  · intro hlive t ht e he
    exact (hcond t e he).mp (hlive ⟨t, e, s.nowMs⟩ ⟨t, ht, e, he, rfl⟩)
  · rintro hswept a ⟨t, ht, e, he, rfl⟩
    exact (hcond t e he).mpr (hswept t ht e he)

variable [Bcrypt]

theorem sweptClean_step (h : s.SweptClean) (hstep : s.step l = some s') : s'.SweptClean := by
  cases change_of_step hstep with
  | login req => exact h
  | @check i c hc hphase =>
    unfold check
    split <;> exact h
  | clean hc hphase => exact h
  | verify config hc hphase => exact h
  | count hc hphase => exact h
  | @grant i c user token hc hphase =>
    intro t e he
    change (AList.insert token (⟨user, s.nowMs⟩ : SessionEntry)
      (evictExpiredSessions s.nowMs s.sessions)).lookup t = some e at he
    change s.nowMs < _
    by_cases ht : t = token
    · rw [ht, AList.lookup_insert] at he
      cases he
      exact Nat.lt_add_of_pos_right sessionTtlMs_pos
    · rw [AList.lookup_insert_ne ht] at he
      exact lt_of_not_expired (lookup_evictExpiredSessions he).2
  | clear hc hphase => exact h
  | logout bearer =>
    cases bearer with
    | none => exact h
    | some token =>
      intro t e he
      exact h t e (AssocMap.lookup_of_lookup_erase he)
  | cleanup locked =>
    unfold cleanup
    split
    · exact h
    · intro t e he
      exact lt_of_not_expired (lookup_retainSessions he).2
  | request r config => exact h
  | @lookupBearer j c hc hphase =>
    obtain ⟨phase, hs'⟩ := s.lookupSession_eq j c .query c.request.bearer
    rw [hs']
    exact h
  | @lookupQuery j c hc hphase =>
    unfold lookupQuery
    split
    · exact h
    · obtain ⟨phase, hs'⟩ := s.lookupSession_eq j c (.decided false) c.request.queryToken
      rw [hs']
      exact h
  | tick ms => exact h

omit [Bcrypt] in
theorem acceptsLive_iff_of_no_lookup (hnone : s.lookedUp l = none)
    (hsame : s'.acceptances = s.acceptances) : s'.AcceptsLive ↔ s.AcceptsLive ∧ s.Swept l := by
  have hswept : s.Swept l := by
    rintro token htoken
    rw [hnone] at htoken
    cases htoken
  unfold AcceptsLive
  rw [hsame, and_iff_left hswept]

theorem acceptsLive_step_iff (h : s.SweptClean) (hstep : s.step l = some s') :
    s'.AcceptsLive ↔ s.AcceptsLive ∧ s.Swept l := by
  cases change_of_step hstep with
  | login req => exact acceptsLive_iff_of_no_lookup rfl rfl
  | @check i c hc hphase =>
    apply acceptsLive_iff_of_no_lookup rfl
    unfold check
    split <;> rfl
  | clean hc hphase => exact acceptsLive_iff_of_no_lookup rfl rfl
  | verify config hc hphase => exact acceptsLive_iff_of_no_lookup rfl rfl
  | count hc hphase => exact acceptsLive_iff_of_no_lookup rfl rfl
  | grant token hc hphase => exact acceptsLive_iff_of_no_lookup rfl rfl
  | clear hc hphase => exact acceptsLive_iff_of_no_lookup rfl rfl
  | logout bearer => cases bearer <;> exact acceptsLive_iff_of_no_lookup rfl rfl
  | cleanup locked => cases locked <;> exact acceptsLive_iff_of_no_lookup rfl rfl
  | request r config => exact acceptsLive_iff_of_no_lookup rfl rfl
  | @lookupBearer j c hc hphase =>
    have hlooked : s.lookedUp (.lookupBearer j) = c.request.bearer := by
      simp [lookedUp, hc]
    rw [acceptsLive_lookupSession_iff h, Swept, hlooked]
  | @lookupQuery j c hc hphase =>
    unfold lookupQuery
    split
    · next hadmin =>
      have hlooked : s.lookedUp (.lookupQuery j) = none := by
        simp [lookedUp, hc, hadmin]
      exact acceptsLive_iff_of_no_lookup hlooked rfl
    · next hadmin =>
      have hlooked : s.lookedUp (.lookupQuery j) = c.request.queryToken := by
        simp [lookedUp, hc, hadmin]
      rw [acceptsLive_lookupSession_iff h, Swept, hlooked]
  | tick ms => exact acceptsLive_iff_of_no_lookup rfl rfl

/-- No expired session authenticates in a run just when every lookup of one finds that a sweep has
run since it expired. -/
theorem acceptsLive_iff {nowMs : ℕ} {ls : List ServerLabel}
    (hrun : Runs.run step (initial nowMs) ls = some s) :
    s.AcceptsLive ↔ Runs.Meets step Swept (initial nowMs) ls := by
  have hclean : (initial nowMs).SweptClean := by
    intro t e he
    simp [initial] at he
  have hempty : (initial nowMs).AcceptsLive := by simp [AcceptsLive, initial]
  have hiff := Runs.run_iff_meets (I := AcceptsLive) (J := SweptClean)
    (fun _ _ _ h hs => sweptClean_step h hs) (fun _ _ _ h hs => acceptsLive_step_iff h hs) hrun
    hclean
  rw [hiff]
  exact and_iff_right hempty

end Server

/-! ## A session between its expiry and the next sweep -/

section Examples

attribute [local instance] noBcrypt

open Server

def longSession : List ServerLabel :=
  [.login ⟨"admin", "correct horse"⟩, .check 0, .clean 0, .verify 0 exampleConfig, .grant 0 "tok",
   .clear 0, .tick 86399000, .cleanup false]

def bearerRequest : AdminRequest := ⟨some "Bearer tok", none, true, none⟩

def sweptSession : List ServerLabel :=
  longSession ++
    ([.request bearerRequest exampleConfig, .lookupBearer 0, .tick 60000, .cleanup false,
      .request bearerRequest exampleConfig, .lookupBearer 1, .lookupQuery 1] : List ServerLabel)

def expiredSession : List ServerLabel :=
  longSession ++ [.tick 1000, .request bearerRequest exampleConfig, .lookupBearer 0]

theorem acceptsLive_sweptSession :
    ∃ s, Runs.run step (initial 0) sweptSession = some s ∧
      s.requests.map (·.phase) = [.decided true, .decided false] ∧ s.AcceptsLive := by
  have hend : (Runs.run step (initial 0) sweptSession).map (fun s => s.requests.map (·.phase)) =
      some [.decided true, .decided false] := by decide +kernel
  obtain ⟨s, hs, hphases⟩ := Option.map_eq_some_iff.mp hend
  exact ⟨s, hs, hphases, (acceptsLive_iff hs).mpr (by decide +kernel)⟩

/-- The session authenticates a request a day after it was created. -/
theorem acceptsExpired_expiredSession :
    ∃ s, Runs.run step (initial 0) expiredSession = some s ∧
      s.requests.map (·.phase) = [.decided true] ∧
      (∃ a ∈ s.acceptances, a.session.createdAtMs + sessionTtlSecs * 1000 ≤ a.atMs) ∧
      ¬ s.AcceptsLive := by
  have hend : (Runs.run step (initial 0) expiredSession).map (fun s =>
      (s.requests.map (·.phase), s.acceptances.map fun a => (a.session.createdAtMs, a.atMs))) =
      some ([.decided true], [(0, 86400000)]) := by decide +kernel
  obtain ⟨s, hs, he⟩ := Option.map_eq_some_iff.mp hend
  rw [Prod.mk.injEq] at he
  obtain ⟨hphases, htimes⟩ := he
  have hmem : (0, 86400000) ∈ s.acceptances.map fun a => (a.session.createdAtMs, a.atMs) := by
    rw [htimes]
    exact List.mem_singleton_self _
  obtain ⟨a, ha, hat⟩ := List.mem_map.mp hmem
  rw [Prod.mk.injEq] at hat
  have hlate : a.session.createdAtMs + sessionTtlSecs * 1000 ≤ a.atMs := by
    unfold sessionTtlSecs
    omega
  refine ⟨s, hs, hphases, ⟨a, ha, hlate⟩, ?_⟩
  intro hlive
  have hexpired := (a.session.expired_iff a.atMs).mpr hlate
  rw [hlive a ha] at hexpired
  cases hexpired

end Examples

end Admin

end SentirumLb
