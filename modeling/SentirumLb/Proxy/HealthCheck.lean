import SentirumLb.Config.Basic
import SentirumLb.Route.Resolve
import SentirumLb.Route.TargetStats

/-! # Active health checks

A probe resolves its target through the SSRF filter of the proxy and then asks
the address that it was given. The result is counted in the tracker of the
target. The HTTP client, the network and the resolver are parameters.
-/

namespace SentirumLb

def HealthCheckConfig.default : HealthCheckConfig where
  interval := .fromSecs 15
  timeout := .fromSecs 5
  fall := 3
  rise := 2
  path := "/"
  tlsSkipVerify := false

structure ProbeEnv (W : Type) where
  nowMs : ℕ
  resolution : ResolveState W
  answer : Answer
  /-- The status of a response to the client built with the configuration, which sends requests for
  the host to the address. -/
  get : HealthCheckConfig → String → SocketAddr → String → Option ℕ
  connect : Duration → SocketAddr → Bool

variable {W : Type}

namespace Target

def upstreamTls (t : Target W) : Bool := t.parsedTls

/-- SSRF protection lets the target be resolved, or is off for it. -/
def admitted (t : Target W) : Bool := t.isHostSafe || t.ssrfSkipVerify

theorem refused_eq (t : Target W) : (!t.isHostSafe && !t.ssrfSkipVerify) = !t.admitted := by
  rw [admitted, Bool.not_or]

end Target

namespace ProbeEnv

def probeHttp (env : ProbeEnv W) (config : HealthCheckConfig) (scheme host : String) (port : UInt16)
    (addr : SocketAddr) : Bool :=
  let urlHost := if host.toList.contains ':' then "[" ++ host ++ "]" else host
  let url := scheme ++ "://" ++ urlHost ++ ":" ++ toString port.toNat ++ config.path
  (env.get config host addr url).any fun status => 200 ≤ status && status < 300

def probeTcp (env : ProbeEnv W) (config : HealthCheckConfig) (addr : SocketAddr) : Bool :=
  env.connect config.timeout addr

def resolveUpstreamAddr (env : ProbeEnv W) (t : Target W) : Except ResolveError SocketAddr :=
  match (t.startResolve env.nowMs env.resolution.cache).1 with
  | .done result => result
  | .query _ => (t.finishResolve env.answer).1

def probe (env : ProbeEnv W) (config : HealthCheckConfig) (t : Target W) : Bool :=
  match env.resolveUpstreamAddr t with
  | .error _ => false
  | .ok addr =>
      if t.upstreamTls then env.probeHttp config "https" t.upstreamHost t.upstreamPort addr
      else
        env.probeHttp config "http" t.upstreamHost t.upstreamPort addr || env.probeTcp config addr

def checkTarget (env : ProbeEnv W) (config : HealthCheckConfig) (t : Target W)
    (tracker : TargetHealthTracker) : Bool × TargetHealthTracker :=
  if env.probe config t then (true, tracker.recordHealthCheckSuccess config.rise)
  else (false, tracker.recordHealthCheckFailure config.fall)

@[simp] theorem fst_checkTarget (env : ProbeEnv W) (config : HealthCheckConfig) (t : Target W)
    (tracker : TargetHealthTracker) :
    (env.checkTarget config t tracker).1 = env.probe config t := by
  unfold checkTarget
  cases env.probe config t <;> rfl

theorem probe_of_refused (env : ProbeEnv W) (config : HealthCheckConfig) {t : Target W}
    (h : t.admitted = false) : env.probe config t = false := by
  simp [probe, resolveUpstreamAddr, Target.startResolve, Target.refused_eq, h]

/-! ## Addresses of a host -/

def AnswersLiteral (host : String) (addrs : List SocketAddr) : Prop :=
  ∀ ip, IpAddr.parse host = some ip → ∀ addr ∈ addrs, addr.ip = ip

/-- The environment of a probe of the target: name resolution has run from an empty cache, and the
resolver gives an IP address back as it is, now and in all the calls that stored what it said. -/
structure Lawful [Platform] (env : ProbeEnv W) (t : Target W) : Prop where
  reached : ∃ ls, Runs.run ResolveState.step ⟨DnsCache.new, [], []⟩ ls = some env.resolution
  stored : ∀ call ∈ env.resolution.log, ∀ w, call.wrote = some w →
    AnswersLiteral call.target.upstreamHost w.addrs
  answered : ∀ addrs, env.answer = .addrs addrs → AnswersLiteral t.upstreamHost addrs

/-- The addresses that the cache or the resolver offers for the target. -/
def Offers (env : ProbeEnv W) (t : Target W) (addr : SocketAddr) : Prop :=
  (∃ e, env.resolution.cache.inner.lookup t.cacheKey = some e ∧ addr ∈ e.addrs) ∨
    ∃ addrs, env.answer = .addrs addrs ∧ addr ∈ addrs

theorem Lawful.offers_literal [Platform] {env : ProbeEnv W} {t : Target W} (h : env.Lawful t)
    {ip : IpAddr} (hip : IpAddr.parse t.upstreamHost = some ip) {addr : SocketAddr}
    (haddr : env.Offers t addr) : addr.ip = ip := by
  obtain ⟨ls, hrun⟩ := h.reached
  have haccounted := (ResolveState.invariant_run rfl hrun).2
  rcases haddr with ⟨e, he, hmem⟩ | ⟨addrs, hanswer, hmem⟩
  · rcases haccounted _ _ he with hinit | ⟨call, hcall, hkey, w, hw, heq⟩
    · cases hinit
    · have hhost : t.upstreamHost = call.target.upstreamHost :=
        Text.eq_of_append_colon_repr_eq hkey
      rw [hhost] at hip
      exact h.stored call hcall w hw ip hip addr (heq ▸ hmem)
  · exact h.answered addrs hanswer ip hip addr hmem

theorem resolveUpstreamAddr_congr (env : ProbeEnv W) {a b : Target W}
    (hhost : a.upstreamHost = b.upstreamHost) (hport : a.upstreamPort = b.upstreamPort)
    (hadmitted : a.admitted = b.admitted)
    (hblocks : a.admitted = true → ∀ addr, env.Offers a addr → a.blocks addr = b.blocks addr) :
    env.resolveUpstreamAddr a = env.resolveUpstreamAddr b := by
  have hkey : a.cacheKey = b.cacheKey := by simp only [Target.cacheKey, hhost, hport]
  cases hb : b.admitted with
  | false =>
    simp only [resolveUpstreamAddr, Target.startResolve, Target.refused_eq, hadmitted, hb, hhost,
      Bool.not_false, if_true]
  | true =>
    have hfinish : (a.finishResolve env.answer).1 = (b.finishResolve env.answer).1 := by
      unfold Target.finishResolve
      split
      · rfl
      · rw [hhost, hport]
      · next resolved rest hanswer =>
        have hfirst := hblocks (hadmitted.trans hb) resolved
          (Or.inr ⟨_, hanswer, List.mem_cons_self⟩)
        rw [hfirst, hhost]
        split <;> rfl
    simp only [resolveUpstreamAddr, Target.startResolve, Target.refused_eq, hadmitted, hb,
      Bool.not_true, Bool.false_eq_true, if_false, hkey]
    cases hlookup : (env.resolution.cache.lookupStatus env.nowMs b.cacheKey).1 with
    | positive addrs =>
      cases addrs with
      | nil => exact hfinish
      | cons addr rest =>
        obtain ⟨e, he, haddrs⟩ := DnsCache.lookup_of_lookupStatus hlookup
        have hoffers : env.Offers a addr :=
          Or.inl ⟨e, hkey ▸ he, haddrs ▸ List.mem_cons_self⟩
        dsimp only
        rw [hblocks (hadmitted.trans hb) addr hoffers]
        cases b.blocks addr with
        | true => exact hfinish
        | false => rfl
    | negative => rfl
    | miss => exact hfinish

theorem checkTarget_congr (env : ProbeEnv W) (config : HealthCheckConfig) {a b : Target W}
    (hhost : a.upstreamHost = b.upstreamHost) (hport : a.upstreamPort = b.upstreamPort)
    (htls : a.upstreamTls = b.upstreamTls) (hadmitted : a.admitted = b.admitted)
    (hblocks : a.admitted = true → ∀ addr, env.Offers a addr → a.blocks addr = b.blocks addr)
    (tracker : TargetHealthTracker) :
    env.checkTarget config a tracker = env.checkTarget config b tracker := by
  have hprobe : env.probe config a = env.probe config b := by
    unfold probe
    rw [env.resolveUpstreamAddr_congr hhost hport hadmitted hblocks]
    cases env.resolveUpstreamAddr b with
    | error e => rfl
    | ok addr => simp only [hhost, hport, htls]
  rw [checkTarget, checkTarget, hprobe]

end ProbeEnv

end SentirumLb
