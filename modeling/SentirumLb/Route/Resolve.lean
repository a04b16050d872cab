import SentirumLb.Lib.Runs
import SentirumLb.Route.DnsCache

/-! # Resolving the address of a target

Resolution consults the shared cache, and on a miss suspends until the resolver
answers. Other calls run in between, for targets with other privileges and the
same cache key, so a call is split at that point and runs are interleavings of
the parts. The resolver may answer anything.
-/

namespace SentirumLb

inductive IoErrorKind where
  | permissionDenied
  | notFound
  | other
  deriving DecidableEq, Repr

inductive ResolveError where
  /-- `blocked private/reserved upstream target {host}` -/
  | blockedTarget (host : String)
  /-- `cached NXDOMAIN for upstream host` -/
  | cachedNxdomain
  | lookupHost (kind : IoErrorKind) (message : String)
  /-- `no upstream IP addresses found for {host}:{port}` -/
  | noAddresses (host : String) (port : UInt16)
  /-- `blocked upstream target during resolution {host} -> {ip}` -/
  | blockedResolution (host : String) (ip : IpAddr)
  deriving DecidableEq

def ResolveError.kind : ResolveError → IoErrorKind
  | .blockedTarget _ | .blockedResolution _ _ => .permissionDenied
  | .cachedNxdomain | .noAddresses _ _ => .notFound
  | .lookupHost kind _ => kind

/-- An answer of `tokio::net::lookup_host`. -/
inductive Answer where
  | addrs (addrs : List SocketAddr)
  | error (kind : IoErrorKind) (message : String)

inductive Resolving where
  | done (result : Except ResolveError SocketAddr)
  | query (addrStr : String)

inductive CacheWrite where
  | positive (addrs : List SocketAddr)
  | negative

namespace CacheWrite

def addrs : CacheWrite → List SocketAddr
  | .positive addrs => addrs
  | .negative => []

def perform [Platform] (nowMs : ℕ) (key : String) (c : DnsCache) : CacheWrite → DnsCache
  | .positive addrs => c.store nowMs key addrs
  | .negative => c.storeNegative nowMs key

end CacheWrite

variable {W : Type}

namespace Target

def cacheKey (t : Target W) : String := t.upstreamHost ++ ":" ++ toString t.upstreamPort.toNat

def addrStr (t : Target W) : String :=
  if t.upstreamHost.toList.contains ':' then
    "[" ++ t.upstreamHost ++ "]:" ++ toString t.upstreamPort.toNat
  else t.upstreamHost ++ ":" ++ toString t.upstreamPort.toNat

def blocks (t : Target W) (addr : SocketAddr) : Bool :=
  !t.ssrfSkipVerify &&
    (isIpAlwaysBlocked addr.ip || (!t.sourceAllowsPrivateUpstreams && isIpRfc1918 addr.ip))

/-- `resolve_upstream_addr` up to the point where it asks the resolver. -/
def startResolve (nowMs : ℕ) (t : Target W) (c : DnsCache) : Resolving × DnsCache :=
  if !t.isHostSafe && !t.ssrfSkipVerify then (.done (.error (.blockedTarget t.upstreamHost)), c)
  else
    let (outcome, c) := c.lookupStatus nowMs t.cacheKey
    match outcome with
    | .positive [] => (.query t.addrStr, c)
    | .positive (addr :: _) =>
        -- an entry that another target was allowed to store is dropped
        if t.blocks addr then (.query t.addrStr, c.remove t.cacheKey) else (.done (.ok addr), c)
    | .negative => (.done (.error .cachedNxdomain), c)
    | .miss => (.query t.addrStr, c)

/-- The rest of `resolve_upstream_addr`, from the answer on: the result and the cache write. -/
def finishResolve (t : Target W) : Answer → Except ResolveError SocketAddr × Option CacheWrite
  | .error kind message =>
      (.error (.lookupHost kind message), if kind = .notFound then some .negative else none)
  | .addrs [] => (.error (.noAddresses t.upstreamHost t.upstreamPort), none)
  | .addrs (resolved :: rest) =>
      if t.blocks resolved then
        (.error (.blockedResolution t.upstreamHost resolved.ip), none)
      else (.ok resolved, some (.positive (resolved :: rest.filter fun a => !t.blocks a)))

/-- An address that a target with this source may be sent to. -/
def Admits (t : Target W) (addr : SocketAddr) : Prop :=
  isIpAlwaysBlocked addr.ip = false ∧
    (t.source ≠ .consulKv → t.source ≠ .consulService → isIpRfc1918 addr.ip = false)

theorem admits_of_not_blocks {t : Target W} {addr : SocketAddr}
    (hskip : t.ssrfSkipVerify = false) (h : t.blocks addr = false) : t.Admits addr := by
  simp only [blocks, hskip, Bool.not_false, Bool.true_and, Bool.or_eq_false_iff] at h
  obtain ⟨halways, hprivate⟩ := h
  refine ⟨halways, ?_⟩
  intro hkv hservice
  have hsource : t.sourceAllowsPrivateUpstreams = false := by
    simp [sourceAllowsPrivateUpstreams, hkv, hservice]
  simpa [hsource] using hprivate

theorem admits_of_startResolve {t : Target W} {nowMs : ℕ} {c : DnsCache} {addr : SocketAddr}
    (hskip : t.ssrfSkipVerify = false)
    (h : (t.startResolve nowMs c).1 = .done (.ok addr)) : t.Admits addr := by
  unfold startResolve at h
  split at h
  · cases h
  · dsimp only at h
    split at h
    · cases h
    · split at h
      · cases h
      · next hb =>
        cases h
        exact admits_of_not_blocks hskip (by simpa using hb)
    · cases h
    · cases h

theorem admits_of_finishResolve {t : Target W} {answer : Answer} {addr : SocketAddr}
    (hskip : t.ssrfSkipVerify = false)
    (h : (t.finishResolve answer).1 = .ok addr) : t.Admits addr := by
  unfold finishResolve at h
  split at h
  · cases h
  · cases h
  · split at h
    · cases h
    · next hb =>
      cases h
      exact admits_of_not_blocks hskip (by simpa using hb)

theorem admits_of_mem_write {t : Target W} {answer : Answer} {w : CacheWrite}
    {addr : SocketAddr} (hskip : t.ssrfSkipVerify = false)
    (h : (t.finishResolve answer).2 = some w) (hmem : addr ∈ w.addrs) : t.Admits addr := by
  unfold finishResolve at h
  split at h
  · split at h
    · cases h
      cases hmem
    · cases h
  · cases h
  · split at h
    · cases h
    · next hb =>
      cases h
      rcases List.mem_cons.mp hmem with rfl | hrest
      · exact admits_of_not_blocks hskip (by simpa using hb)
      · have hf := (List.mem_filter.mp hrest).2
        exact admits_of_not_blocks hskip (by simpa using hf)

theorem shrinks_startResolve (t : Target W) (nowMs : ℕ) (c : DnsCache) :
    DnsCache.Shrinks c (t.startResolve nowMs c).2 := by
  have hlookup := DnsCache.shrinks_lookupStatus nowMs t.cacheKey c
  unfold startResolve
  split
  · exact DnsCache.Shrinks.refl c
  · dsimp only
    split
    · exact hlookup
    · split
      · intro k e h
        exact hlookup k e (DnsCache.shrinks_remove _ _ k e h)
      · exact hlookup
    · exact hlookup
    · exact hlookup

end Target

/-! ## Interleaved calls -/

structure ResolveCall (W : Type) where
  target : Target W
  result : Except ResolveError SocketAddr
  wrote : Option CacheWrite

structure ResolveState (W : Type) where
  cache : DnsCache
  pending : List (Target W)
  log : List (ResolveCall W)

inductive ResolveLabel (W : Type) where
  | start (nowMs : ℕ) (t : Target W)
  | answer (i nowMs : ℕ) (a : Answer)
  | setTtl (defaultSecs negativeSecs : ℕ)
  | clear

namespace ResolveState

section Calls

variable [Platform]

def step (s : ResolveState W) : ResolveLabel W → Option (ResolveState W)
  | .start nowMs t =>
      let (r, cache) := t.startResolve nowMs s.cache
      match r with
      | .done result => some { s with cache, log := s.log ++ [⟨t, result, none⟩] }
      | .query _ => some { s with cache, pending := s.pending ++ [t] }
  | .answer i nowMs a =>
      s.pending[i]?.map fun t =>
        let (result, wrote) := t.finishResolve a
        { cache := wrote.elim s.cache (CacheWrite.perform nowMs t.cacheKey s.cache)
          pending := s.pending.eraseIdx i
          log := s.log ++ [⟨t, result, wrote⟩] }
  | .setTtl d n => some { s with cache := s.cache.setTtl d n }
  | .clear => some { s with cache := s.cache.clear }

/-- A call of a target under SSRF protection returned and stored only what the target admits. -/
def Guarded (call : ResolveCall W) : Prop :=
  call.target.ssrfSkipVerify = false →
    (∀ addr, call.result = .ok addr → call.target.Admits addr) ∧
      ∀ w, call.wrote = some w → ∀ addr ∈ w.addrs, call.target.Admits addr

/-- An entry comes from the initial cache or from the write of a logged call. -/
def Accounted (init : DnsCache) (log : List (ResolveCall W)) (c : DnsCache) : Prop :=
  ∀ k e, c.inner.lookup k = some e → init.inner.lookup k = some e ∨
    ∃ call ∈ log, k = call.target.cacheKey ∧ ∃ w, call.wrote = some w ∧ e.addrs = w.addrs

omit [Platform] in
theorem Accounted.mono {init c c' : DnsCache} {log log' : List (ResolveCall W)}
    (h : Accounted init log c) (hc : DnsCache.Shrinks c c') (hl : log ⊆ log') :
    Accounted init log' c' := by
  intro k e hk
  rcases h k e (hc k e hk) with hi | ⟨call, hmem, hcall⟩
  · exact Or.inl hi
  · exact Or.inr ⟨call, hl hmem, hcall⟩

theorem lookup_perform {w : CacheWrite} {nowMs : ℕ} {key k : String} {c : DnsCache}
    {e : DnsCacheEntry} (h : (w.perform nowMs key c).inner.lookup k = some e) :
    c.inner.lookup k = some e ∨ k = key ∧ e.addrs = w.addrs := by
  cases w with
  | positive addrs =>
    rcases DnsCache.lookup_storeEntry h with hc | ⟨hk, ha, -⟩
    · exact Or.inl hc
    · exact Or.inr ⟨hk, ha⟩
  | negative =>
    rcases DnsCache.lookup_storeEntry h with hc | ⟨hk, ha, -⟩
    · exact Or.inl hc
    · exact Or.inr ⟨hk, ha⟩

omit [Platform] in
theorem guarded_start {t : Target W} {nowMs : ℕ} {c : DnsCache}
    {result : Except ResolveError SocketAddr} (h : (t.startResolve nowMs c).1 = .done result) :
    Guarded ⟨t, result, none⟩ := by
  intro hskip
  constructor
  · rintro addr rfl
    exact Target.admits_of_startResolve hskip h
  · intro w hw
    cases hw

omit [Platform] in
theorem guarded_answer (t : Target W) (a : Answer) :
    Guarded ⟨t, (t.finishResolve a).1, (t.finishResolve a).2⟩ := by
  intro hskip
  constructor
  · intro addr haddr
    exact Target.admits_of_finishResolve hskip haddr
  · intro w hw addr haddr
    exact Target.admits_of_mem_write hskip hw haddr

theorem Accounted.perform {init c : DnsCache} {log : List (ResolveCall W)} {call : ResolveCall W}
    (h : Accounted init log c) (nowMs : ℕ) :
    Accounted init (log ++ [call])
      (call.wrote.elim c (CacheWrite.perform nowMs call.target.cacheKey c)) := by
  have hold := h.mono (DnsCache.Shrinks.refl c) (List.subset_append_left log [call])
  intro k e hk
  cases hw : call.wrote with
  | none =>
    rw [hw] at hk
    exact hold k e hk
  | some w =>
    rw [hw] at hk
    rcases lookup_perform hk with hk | ⟨rfl, ha⟩
    · exact hold k e hk
    · exact Or.inr ⟨call, List.mem_append_right _ List.mem_cons_self, rfl, w, hw, ha⟩

/-- One step keeps every logged call guarded and every entry accounted for. -/
theorem step_invariant {init : DnsCache} {s s' : ResolveState W} {l : ResolveLabel W}
    (h : (∀ call ∈ s.log, Guarded call) ∧ Accounted init s.log s.cache)
    (hstep : s.step l = some s') :
    (∀ call ∈ s'.log, Guarded call) ∧ Accounted init s'.log s'.cache := by
  obtain ⟨hlog, hacc⟩ := h
  have hlogged : ∀ call, Guarded call → ∀ c ∈ s.log ++ [call], Guarded c := by
    intro call hcall
    exact List.forall_mem_append.mpr ⟨hlog, List.forall_mem_singleton.mpr hcall⟩
  cases l with
  | start nowMs t =>
    have hshrinks := t.shrinks_startResolve nowMs s.cache
    simp only [step] at hstep
    split at hstep
    · next result hr =>
      cases hstep
      exact ⟨hlogged _ (guarded_start hr), hacc.mono hshrinks (List.subset_append_left _ _)⟩
    · cases hstep
      exact ⟨hlog, hacc.mono hshrinks (List.Subset.refl _)⟩
  | answer i nowMs a =>
    simp only [step, Option.map_eq_some_iff] at hstep
    obtain ⟨t, -, rfl⟩ := hstep
    exact ⟨hlogged _ (guarded_answer t a), hacc.perform nowMs⟩
  | setTtl d n =>
    cases hstep
    exact ⟨hlog, hacc.mono (DnsCache.shrinks_setTtl d n _) (List.Subset.refl _)⟩
  | clear =>
    cases hstep
    exact ⟨hlog, hacc.mono (DnsCache.shrinks_clear _) (List.Subset.refl _)⟩

theorem invariant_run {init s : ResolveState W} {ls : List (ResolveLabel W)} (hlog : init.log = [])
    (hrun : Runs.run step init ls = some s) :
    (∀ call ∈ s.log, Guarded call) ∧ Accounted init.cache s.log s.cache := by
  have hinit : (∀ call ∈ init.log, Guarded call) ∧ Accounted init.cache init.log init.cache :=
    ⟨by simp [hlog], fun k e hk => Or.inl hk⟩
  exact Runs.invariant
    (I := fun s => (∀ call ∈ s.log, Guarded call) ∧ Accounted init.cache s.log s.cache)
    (fun _ _ _ h hstep => step_invariant h hstep) hrun hinit

/-- Whatever the cache holds at first, and however calls of any targets interleave with whatever
the resolver answers, a target under SSRF protection is never given an address it must not reach
and never stores one; and the cache holds only what it held at first or what the calls stored. -/
theorem guarded_run {init s : ResolveState W} {ls : List (ResolveLabel W)} (hlog : init.log = [])
    (hrun : Runs.run step init ls = some s) :
    (∀ call ∈ s.log, call.target.ssrfSkipVerify = false →
      (∀ addr, call.result = .ok addr → call.target.Admits addr) ∧
        ∀ w, call.wrote = some w → ∀ addr ∈ w.addrs, call.target.Admits addr) ∧
      Accounted init.cache s.log s.cache := by
  obtain ⟨hguarded, haccounted⟩ := invariant_run hlog hrun
  exact ⟨hguarded, haccounted⟩

end Calls

def exampleTarget (source : RouteSource) : Target ℚ :=
  { toSharedRefs := default
    service := "api"
    url := "http://api.example/"
    fixedWeight := 0
    weight := 1
    tags := []
    opts := ∅
    source := source
    parsedHost := some "api.example"
    parsedPort := some 80
    parsedTls := false
    parsedProtocol := .http }

/-- A Consul target stores a private address under the key of a static target. -/
def sharedKeyLabels : List (ResolveLabel ℚ) :=
  [.start 0 (exampleTarget .consulService), .answer 0 1 (.addrs [⟨.v4 ⟨10, 0, 0, 1⟩, 80⟩]),
    .start 2 (exampleTarget .static),
    .answer 0 3 (.addrs [⟨.v4 ⟨8, 0, 0, 1⟩, 80⟩, ⟨.v4 ⟨10, 0, 0, 1⟩, 80⟩])]

/-- The static target that shares the key resolves to the public address only. -/
theorem guarded_run_shared_key :
    letI := Platform.plain
    ∃ s : ResolveState ℚ, Runs.run step ⟨DnsCache.new, [], []⟩ sharedKeyLabels = some s ∧
      s.log.map (fun call => call.result.toOption) =
        [some ⟨.v4 ⟨10, 0, 0, 1⟩, 80⟩, some ⟨.v4 ⟨8, 0, 0, 1⟩, 80⟩] ∧
      ∀ call ∈ s.log, call.target.ssrfSkipVerify = false →
        (∀ addr, call.result = .ok addr → call.target.Admits addr) ∧
          ∀ w, call.wrote = some w → ∀ addr ∈ w.addrs, call.target.Admits addr := by
  let _ := Platform.plain
  have hresults : (Runs.run step ⟨DnsCache.new, [], []⟩ sharedKeyLabels).map
      (fun s => s.log.map fun call => call.result.toOption) =
      some [some ⟨.v4 ⟨10, 0, 0, 1⟩, 80⟩, some ⟨.v4 ⟨8, 0, 0, 1⟩, 80⟩] := by decide +kernel
  obtain ⟨s, hs, hlog⟩ := Option.map_eq_some_iff.mp hresults
  exact ⟨s, hs, hlog, (guarded_run rfl hs).1⟩

end ResolveState

end SentirumLb
