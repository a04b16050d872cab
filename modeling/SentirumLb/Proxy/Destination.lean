import SentirumLb.Proxy.ProbeVerdict

/-! # Where a target without a host is proxied to

A URL that does not parse leaves the parsed host unset, and the accessors put the
loopback address and a default port in its place. SSRF protection refuses such a
target; a target that opts out of it is sent to the default.
-/

namespace SentirumLb

variable {W : Type}

/-! ## Admission -/

section Admission

variable [Platform]

/-- A call that has begun or has succeeded is one of a target that was admitted. -/
structure ResolveState.OnlyAdmitted (s : ResolveState W) : Prop where
  pending : ∀ t ∈ s.pending, t.admitted = true
  log : ∀ call ∈ s.log, ∀ addr, call.result = .ok addr → call.target.admitted = true

omit [Platform] in
theorem Target.startResolve_of_refused {t : Target W} (h : t.admitted = false) (nowMs : ℕ)
    (c : DnsCache) :
    t.startResolve nowMs c = (.done (.error (.blockedTarget t.upstreamHost)), c) := by
  rw [startResolve, refused_eq, h]
  rfl

theorem ResolveState.OnlyAdmitted.step {s s' : ResolveState W} {l : ResolveLabel W}
    (h : s.OnlyAdmitted) (hstep : s.step l = some s') : s'.OnlyAdmitted := by
  cases l with
  | start nowMs t =>
    cases hadmitted : t.admitted with
    | true =>
      simp only [ResolveState.step] at hstep
      split at hstep
      · cases hstep
        refine ⟨h.pending, List.forall_mem_append.mpr ⟨h.log, ?_⟩⟩
        exact List.forall_mem_singleton.mpr fun _ _ => hadmitted
      · cases hstep
        exact ⟨List.forall_mem_append.mpr ⟨h.pending, List.forall_mem_singleton.mpr hadmitted⟩,
          h.log⟩
    | false =>
      simp only [ResolveState.step, Target.startResolve_of_refused hadmitted] at hstep
      cases hstep
      refine ⟨h.pending, List.forall_mem_append.mpr ⟨h.log, ?_⟩⟩
      refine List.forall_mem_singleton.mpr fun addr haddr => ?_
      cases haddr
  | answer i nowMs a =>
    simp only [ResolveState.step, Option.map_eq_some_iff] at hstep
    obtain ⟨t, ht, rfl⟩ := hstep
    refine ⟨fun u hu => h.pending u (List.mem_of_mem_eraseIdx hu),
      List.forall_mem_append.mpr ⟨h.log, ?_⟩⟩
    exact List.forall_mem_singleton.mpr fun _ _ => h.pending t (List.mem_of_getElem? ht)
  | setTtl d n =>
    cases hstep
    exact ⟨h.pending, h.log⟩
  | clear =>
    cases hstep
    exact ⟨h.pending, h.log⟩

/-- However calls interleave, only admitted targets are given an address. -/
theorem ResolveState.onlyAdmitted_run {cache : DnsCache} {s : ResolveState W}
    {ls : List (ResolveLabel W)} (hrun : Runs.run ResolveState.step ⟨cache, [], []⟩ ls = some s) :
    s.OnlyAdmitted :=
  Runs.invariant (fun _ _ _ h hstep => h.step hstep) hrun ⟨by simp, by simp⟩

end Admission

/-! ## The host that is resolved -/

section Host

variable [Platform]

def UrlHasHost (dst host : String) : Prop :=
  ∃ parsed, Platform.urlParse dst = some parsed ∧ parsed.hostStr = some host

variable [WeightArith W]

/-- Whenever the target of the definition is given an address, its URL has a host, and that host is
the one that was resolved. -/
def RouteDef.NoSilentDefault (d : RouteDef W) : Prop :=
  ∀ (cache : DnsCache) (s : ResolveState W) (ls : List (ResolveLabel W)),
    Runs.run ResolveState.step ⟨cache, [], []⟩ ls = some s →
    ∀ call ∈ s.log, ∀ shared, call.target = Table.targetOf shared d →
    ∀ addr, call.result = .ok addr →
    ∃ host, UrlHasHost d.dst host ∧ call.target.upstreamHost = Text.trimMatches ['[', ']'] host

theorem upstreamHost_targetOf (shared : SharedRefs) {d : RouteDef W} {host : String}
    (h : UrlHasHost d.dst host) :
    (Table.targetOf shared d).upstreamHost = Text.trimMatches ['[', ']'] host := by
  obtain ⟨parsed, hparse, hhost⟩ := h
  rw [(Table.parsed_targetOf shared d).upstreamHost_eq, Table.targetOf_url, urlHost, hparse]
  simp [hhost]

theorem targetOf_of_no_host (shared : SharedRefs) {d : RouteDef W}
    (h : ∀ host, ¬UrlHasHost d.dst host) :
    (Table.targetOf shared d).upstreamHost = "127.0.0.1" ∧
      (Table.targetOf shared d).isHostSafe = false := by
  have hnone : (Table.targetOf shared d).parsedHost = none := by
    rw [(Table.parsed_targetOf shared d).host, Table.targetOf_url,
      Option.eq_none_iff_forall_ne_some]
    intro host hhost
    obtain ⟨parsed, hparse, hstr⟩ := Option.bind_eq_some_iff.mp hhost
    exact h host ⟨parsed, hparse, hstr⟩
  simp [Target.upstreamHost, Target.isHostSafe, hnone]

theorem ssrfSkipVerify_targetOf (shared : SharedRefs) (d : RouteDef W) :
    (Table.targetOf shared d).ssrfSkipVerify = (d.opts.lookup "ssrfskipverify" == some "true") :=
  Target.map_preParse (·.ssrfSkipVerify) (fun _ _ _ _ _ => rfl) _

omit [WeightArith W] in
theorem exists_run_of_skip {t : Target W} (hskip : t.ssrfSkipVerify = true) (addr : SocketAddr) :
    ∃ s : ResolveState W, Runs.run ResolveState.step ⟨DnsCache.new, [], []⟩
        [.start 0 t, .answer 0 0 (.addrs [addr])] = some s ∧
      ∃ call ∈ s.log, call.target = t ∧ call.result = .ok addr := by
  have hstart : t.startResolve 0 DnsCache.new = (.query t.addrStr, DnsCache.new) := by
    simp [Target.startResolve, hskip, DnsCache.lookupStatus, DnsCache.new, DnsCache.withTtl]
  have hblocks : t.blocks addr = false := by
    simp [Target.blocks, hskip]
  have hfinish : (t.finishResolve (.addrs [addr])).1 = .ok addr := by
    simp [Target.finishResolve, hblocks]
  obtain ⟨s, hrun, hlog⟩ : ∃ s : ResolveState W,
      Runs.run ResolveState.step ⟨DnsCache.new, [], []⟩
        [.start 0 t, .answer 0 0 (.addrs [addr])] = some s ∧
      s.log = [⟨t, (t.finishResolve (.addrs [addr])).1, (t.finishResolve (.addrs [addr])).2⟩] := by
    simp only [Runs.run, ResolveState.step, hstart, Option.bind_some]
    exact ⟨_, rfl, rfl⟩
  exact ⟨s, hrun, _, hlog ▸ List.mem_singleton.mpr rfl, rfl, hfinish⟩

/-- No default destination is used silently just when the URL has a host or the definition does not
opt out of SSRF protection. -/
theorem noSilentDefault_iff (d : RouteDef W) : d.NoSilentDefault ↔
    (∃ host, UrlHasHost d.dst host) ∨ d.opts.lookup "ssrfskipverify" ≠ some "true" := by
  constructor
  · intro h
    by_contra hnot
    obtain ⟨hnone, hskip⟩ := not_or.mp hnot
    have hskip' : (Table.targetOf default d).ssrfSkipVerify = true := by
      rw [ssrfSkipVerify_targetOf, beq_iff_eq]
      exact not_not.mp hskip
    obtain ⟨s, hrun, call, hcall, htarget, hok⟩ :=
      exists_run_of_skip hskip' ⟨.v4 ⟨127, 0, 0, 1⟩, 80⟩
    obtain ⟨host, hhost, -⟩ := h _ s _ hrun call hcall default htarget _ hok
    exact hnone ⟨host, hhost⟩
  · intro hcond cache s ls hrun call hcall shared htarget addr hok
    rw [htarget]
    by_cases hhost : ∃ host, UrlHasHost d.dst host
    · obtain ⟨host, hhost⟩ := hhost
      exact ⟨host, hhost, upstreamHost_targetOf shared hhost⟩
    · -- such a target is refused
      have hadmitted := (ResolveState.onlyAdmitted_run hrun).log call hcall addr hok
      have hsafe := (targetOf_of_no_host shared (not_exists.mp hhost)).2
      rw [htarget, Target.admitted, hsafe, Bool.false_or, ssrfSkipVerify_targetOf, beq_iff_eq]
        at hadmitted
      exact absurd hadmitted (hcond.resolve_left hhost)

end Host

section Examples

attribute [local instance] Platform.plain

def noSchemeDef : RouteDef ℚ :=
  { exampleDef .static .add "web" "10.0.0.1:8080" with
    opts := AList.insert "ssrfskipverify" "true" ∅ }

/-- Its requests go to port 80 of this machine. -/
theorem not_noSilentDefault_noSchemeDef :
    Platform.urlParse noSchemeDef.dst = none ∧ ¬noSchemeDef.NoSilentDefault ∧
      (Table.targetOf default noSchemeDef).upstreamHost = "127.0.0.1" ∧
      (Table.targetOf default noSchemeDef).upstreamPort = 80 := by
  have hparse : Platform.urlParse noSchemeDef.dst = none := by decide +kernel
  refine ⟨hparse, fun h => ?_, by decide +kernel, by decide +kernel⟩
  obtain ⟨s, hrun, call, hcall, htarget, hok⟩ := exists_run_of_skip
    (t := Table.targetOf default noSchemeDef) (by decide +kernel) ⟨.v4 ⟨127, 0, 0, 1⟩, 80⟩
  obtain ⟨_, ⟨parsed, hsome, -⟩, -⟩ := h _ s _ hrun call hcall default htarget _ hok
  rw [hparse] at hsome
  cases hsome

end Examples

end SentirumLb
