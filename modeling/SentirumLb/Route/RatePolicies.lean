import SentirumLb.Proxy.TargetRateLimit
import SentirumLb.Route.Rebuilds

/-! # Rate limits by policy

The registry keeps a bucket for each URL and policy, under a key that is put
together from both. The last separator of the key is the one in front of the
policy, so keys are told apart whatever the URL holds. A target that is made
configures its own bucket, and no live target with another key has that one.
-/

namespace SentirumLb

namespace Target

/-- What the key of a bucket says about the policy. -/
def policyText (policy : Option (ℕ × ℕ)) : String :=
  match policy with
  | some (rate, burst) => "override:" ++ toString rate ++ ":" ++ toString burst
  | none => "global"

theorem toList_rateLimiterRegistryKey (url : String) (opts : Opts) :
    (rateLimiterRegistryKey url opts).toList =
      url.toList ++ '\x1f' :: (policyText (rateLimitOverride opts)).toList := by
  unfold rateLimiterRegistryKey policyText
  cases rateLimitOverride opts <;> simp

theorem separator_not_mem_policyText (policy : Option (ℕ × ℕ)) :
    '\x1f' ∉ (policyText policy).toList := by
  have hdigits : ∀ n : ℕ, '\x1f' ∉ (toString n).toList := fun n hc =>
    absurd (Text.isDigit_of_mem_toString hc) (by decide)
  cases policy with
  | none => decide +kernel
  | some p =>
    simp only [policyText, String.toList_append, List.mem_append, not_or]
    exact ⟨⟨⟨by decide +kernel, hdigits _⟩, by decide +kernel⟩, hdigits _⟩

theorem policyText_injective : Function.Injective policyText := by
  have hcolon : ∀ n : ℕ, ':' ∉ (toString n).toList := fun n hc =>
    absurd (Text.isDigit_of_mem_toString hc) (by decide)
  have hlist : ∀ rate burst : ℕ, (policyText (some (rate, burst))).toList =
      "override:".toList ++ (toString rate).toList ++ ':' :: (toString burst).toList := by
    intro rate burst
    simp [policyText]
  have hhead : ∀ rate burst : ℕ, policyText (some (rate, burst)) ≠ policyText none := by
    intro rate burst h
    have hfirst := congrArg (fun s : String => s.toList.head?) h
    rw [hlist] at hfirst
    exact absurd hfirst (by simp [policyText])
  rintro (_ | ⟨rate₁, burst₁⟩) (_ | ⟨rate₂, burst₂⟩) h
  · rfl
  · exact absurd h.symm (hhead _ _)
  · exact absurd h (hhead _ _)
  · rw [← String.toList_inj, hlist, hlist,
      Text.append_cons_inj_of_last (hcolon _) (hcolon _), List.append_cancel_left_eq,
      String.toList_inj, String.toList_inj] at h
    rw [Text.toString_nat_injective h.1, Text.toString_nat_injective h.2]

/-- One key is for one URL and one policy. -/
theorem rateLimiterRegistryKey_eq_iff {url₁ url₂ : String} {opts₁ opts₂ : Opts} :
    rateLimiterRegistryKey url₁ opts₁ = rateLimiterRegistryKey url₂ opts₂ ↔
      url₁ = url₂ ∧ rateLimitOverride opts₁ = rateLimitOverride opts₂ := by
  rw [← String.toList_inj, toList_rateLimiterRegistryKey, toList_rateLimiterRegistryKey,
    Text.append_cons_inj_of_last (separator_not_mem_policyText _) (separator_not_mem_policyText _),
    String.toList_inj, String.toList_inj, policyText_injective.eq_iff]

variable {W : Type}

def limitKey (t : Target W) : String := rateLimiterRegistryKey t.url t.opts

theorem limitKey_eq_iff {a b : Target W} : a.limitKey = b.limitKey ↔
    a.url = b.url ∧ rateLimitOverride a.opts = rateLimitOverride b.opts :=
  rateLimiterRegistryKey_eq_iff

end Target

variable {W : Type}

def RouteDef.limitKey (d : RouteDef W) : String := Target.rateLimiterRegistryKey d.dst d.opts

/-- The map knows the buckets of the targets. -/
def SharesLimiters (m : AssocMap String Ref) (ts : List (Target W)) : Prop :=
  ∀ t ∈ ts, m.lookup t.limitKey = some t.rateLimiter

theorem SharesLimiters.subset {m : AssocMap String Ref} {ts us : List (Target W)}
    (h : SharesLimiters m ts) (hsub : us ⊆ ts) : SharesLimiters m us :=
  fun t ht => h t (hsub ht)

theorem SharesLimiters.objectFor {m : AssocMap String Ref} {ts live : List (Target W)}
    {key : String} {new : Ref} (h : SharesLimiters m ts) (hsub : ts ⊆ live) :
    SharesLimiters (objectFor (·.rateLimiter) live key new m).2 ts := by
  intro t ht
  refine WeakMap.lookup_getOrCreate_of_live (h t ht) ?_
  rw [List.any_eq_true]
  exact ⟨t, hsub ht, beq_self_eq_true _⟩

section Build

variable [Platform] [WeightArith W] {held : List (Target W)}
  {cbConfig : Option CircuitBreakerConfig} {b : Builder W} {d : RouteDef W}

theorem sharesLimiters_tableApply {m : AssocMap String Ref} {t : Table W} (others : List (Target W))
    {shared : SharedRefs} {rr : Ref} {d : RouteDef W} (hok : t.Ok)
    (h : SharesLimiters m (others ++ t.targets.map (·.val)))
    (hnew : d.cmd = .add → m.lookup d.limitKey = some shared.rateLimiter) :
    SharesLimiters m (others ++ (t.apply shared rr d).targets.map (·.val)) := by
  intro u hu
  rcases List.mem_append.mp hu with hu | hu
  · exact h u (List.mem_append_left _ hu)
  · obtain ⟨a, ha, rfl⟩ := List.mem_map.mp hu
    have hkey : a.val.unweighted.limitKey = a.val.limitKey := rfl
    have hlimiter : a.val.unweighted.rateLimiter = a.val.rateLimiter := rfl
    rcases Table.hasTarget_apply_cases hok (Table.mem_targets_iff.mp ha) with
      ⟨b, hb, w, he⟩ | ⟨hcmd, he⟩
    · rw [← hkey, ← hlimiter, he]
      exact h b.val (List.mem_append_right _ (List.mem_map_of_mem (Table.mem_targets_iff.mpr hb)))
    · have hopts : (Table.targetOf shared d).opts = d.opts :=
        Target.map_preParse (·.opts) (fun _ _ _ _ _ => rfl) _
      have hmade : (Table.targetOf shared d).unweighted.limitKey = d.limitKey := by
        change Target.rateLimiterRegistryKey (Table.targetOf shared d).url
          (Table.targetOf shared d).opts = d.limitKey
        rw [Table.targetOf_url, hopts]
        rfl
      have hshared : (Table.targetOf shared d).unweighted.rateLimiter = shared.rateLimiter :=
        congrArg SharedRefs.rateLimiter (Table.targetOf_toSharedRefs shared d)
      rw [← hkey, ← hlimiter, he, hmade, hshared]
      exact hnew hcmd

namespace Builder

theorem sharesLimiters_apply (hok : b.table.Ok)
    (h : SharesLimiters b.registry.rateLimiters (b.live held)) :
    SharesLimiters (b.apply held cbConfig d).registry.rateLimiters
      ((b.apply held cbConfig d).live held) := by
  unfold Builder.apply
  split
  · have hmap : (b.add held cbConfig d).registry.rateLimiters =
        (objectFor (·.rateLimiter) (b.live held) d.limitKey (b.heap.next + 4)
          b.registry.rateLimiters).2 := rfl
    obtain ⟨shared, htable, hshared⟩ : ∃ shared : SharedRefs,
        (b.add held cbConfig d).table = b.table.apply shared (b.heap.next + 5) d ∧
          shared.rateLimiter = (objectFor (·.rateLimiter) (b.live held) d.limitKey
            (b.heap.next + 4) b.registry.rateLimiters).1 := ⟨_, rfl, rfl⟩
    rw [live, hmap, htable]
    refine sharesLimiters_tableApply held hok (h.objectFor (List.Subset.refl _)) fun _ => ?_
    rw [lookup_objectFor, hshared]
  · next hcmd => exact sharesLimiters_tableApply held hok h fun hadd => absurd hadd hcmd

theorem numbered_limiters_apply
    (h : WeakMap.Numbered b.heap.next b.registry.rateLimiters) :
    WeakMap.Numbered (b.apply held cbConfig d).heap.next
      (b.apply held cbConfig d).registry.rateLimiters := by
  unfold Builder.apply
  split
  · exact h.getOrCreate (Nat.le_add_right _ _) (Nat.add_lt_add_left (by decide) _)
  · exact h

end Builder

end Build

namespace Serving

def made (s : Serving W) : ServingLabel W → Option (RouteDef W)
  | .define =>
      match s.rebuild with
      | some ⟨_, _, d :: _⟩ => if d.cmd = .add then some d else none
      | _ => none
  | _ => none

def limiterFor (s : Serving W) (d : RouteDef W) : Ref :=
  (s.managed.statsRegistry.rateLimiterFor s.live d.limitKey (s.managed.heap.next + 4)).1

def limitersWith (s : Serving W) (d : RouteDef W) : AssocMap String Ref :=
  (s.managed.statsRegistry.rateLimiterFor s.live d.limitKey
    (s.managed.heap.next + 4)).2.rateLimiters

theorem lookup_limitersWith (s : Serving W) (d : RouteDef W) :
    (s.limitersWith d).lookup d.limitKey = some (s.limiterFor d) :=
  lookup_objectFor _ _ _ _ _

variable [Platform] {s s' : Serving W}

/-- The live targets have the buckets of their keys, and no two keys share one. -/
structure Limited (s : Serving W) : Prop where
  ok : s.Ok
  shares : SharesLimiters s.managed.statsRegistry.rateLimiters s.live
  numbered : WeakMap.Numbered s.managed.heap.next s.managed.statsRegistry.rateLimiters

theorem limited_new (cbConfig : Option CircuitBreakerConfig) (heap : Heap) :
    Limited (new cbConfig heap : Serving W) := by
  refine ⟨ok_new cbConfig heap, ?_, .empty _⟩
  intro t ht
  simp [live, others, building, new, ManagedRouteTable.new, ManagedRouteTable.published,
    Table.new, Table.targets, AssocMap.vals] at ht

/-- Live targets have one bucket exactly when they have one URL and one policy. -/
theorem Limited.eq_iff (h : s.Limited) {a b : Target W} (ha : a ∈ s.live) (hb : b ∈ s.live) :
    a.rateLimiter = b.rateLimiter ↔
      a.url = b.url ∧ Target.rateLimitOverride a.opts = Target.rateLimitOverride b.opts := by
  rw [← Target.limitKey_eq_iff]
  exact h.numbered.eq_iff (h.shares a ha) (h.shares b hb)

theorem Limited.ne_limiterFor (h : s.Limited) {t : Target W} (ht : t ∈ s.live) {d : RouteDef W}
    (hkey : t.limitKey ≠ d.limitKey) : t.rateLimiter ≠ s.limiterFor d := by
  have hnumbered : WeakMap.Numbered (s.managed.heap.next + 5) (s.limitersWith d) :=
    h.numbered.getOrCreate (Nat.le_add_right _ 4) (Nat.lt_succ_self _)
  have hlookup : (s.limitersWith d).lookup t.limitKey = some t.rateLimiter :=
    h.shares.objectFor (List.Subset.refl s.live) t ht
  intro he
  rw [he] at hlookup
  exact hkey (hnumbered.inj _ _ _ hlookup (s.lookup_limitersWith d))

variable [WeightArith W]

theorem Limited.step (h : s.Limited) (hs : Step s s') : s'.Limited := by
  have hok := h.ok.step hs
  cases hs with
  | start u hnone =>
    have hsame : (u.prepare s.managed).statsRegistry.rateLimiters =
        s.managed.statsRegistry.rateLimiters := by cases u <;> rfl
    have hnext : (u.prepare s.managed).heap = s.managed.heap := by cases u <;> rfl
    refine ⟨hok, ?_, ?_⟩
    · rw [hsame]
      exact h.shares.subset (live_start_subset u _ _)
    · rw [hsame, hnext]
      exact h.numbered
  | define registry table d ds hsome =>
    have hshares := h.shares
    rw [live_eq_of_rebuild hsome] at hshares
    exact ⟨hok, Builder.sharesLimiters_apply (h.ok.rebuild _ hsome) hshares,
      Builder.numbered_limiters_apply h.numbered⟩
  | publish registry table hsome =>
    exact ⟨hok, h.shares.subset (live_publish_subset hsome registry), h.numbered⟩
  | hold held hsub => exact ⟨hok, h.shares.subset (live_hold_subset hsub), h.numbered⟩
  | traffic tracker nowMs op => exact ⟨hok, h.shares, h.numbered⟩

theorem rateLimiters_of_made {e : ServingLabel W} {d : RouteDef W} (hstep : s.step e = some s')
    (hmade : s.made e = some d) :
    s'.managed.statsRegistry.rateLimiters = s.limitersWith d := by
  unfold made at hmade
  split at hmade
  · split at hmade
    · next registry table d' ds hrebuild =>
      obtain ⟨hcmd, hd⟩ := Option.ite_none_right_eq_some.mp hmade
      cases hd
      simp only [Serving.step, hrebuild, Option.some.injEq] at hstep
      rw [← hstep, limitersWith, live_eq_of_rebuild hrebuild]
      simp only [defineOne, Builder.apply, hcmd, if_true]
      rfl
    · cases hmade
  · cases hmade

theorem rateLimiter_of_made {e : ServingLabel W} {d : RouteDef W} (h : s.Limited)
    (hstep : s.step e = some s') (hmade : s.made e = some d) {t : Target W} (ht : t ∈ s'.live)
    (hkey : t.limitKey = d.limitKey) : t.rateLimiter = s.limiterFor d := by
  have hlookup := (h.step (step_cases hstep)).shares t ht
  rw [rateLimiters_of_made hstep hmade, hkey, lookup_limitersWith] at hlookup
  exact (Option.some.inj hlookup).symm

end Serving

/-! ## Buckets -/

structure RateServing (W : Type) where
  serving : Serving W
  buckets : Ref → ClockedBucket
  nowNs : ℕ

inductive RateLabel (W : Type) where
  | serve (e : ServingLabel W)
  | acquire (i globalRate globalBurst : ℕ)
  | tick (ns : ℕ)

namespace RateServing

def new (cbConfig : Option CircuitBreakerConfig) (heap : Heap) (nowNs : ℕ) : RateServing W where
  serving := .new cbConfig heap
  buckets := fun _ => ⟨TokenBucket.new, nowNs, []⟩
  nowNs := nowNs

/-- The buckets after a target is made: there is a new one, which the target gets when there is none
for its key, and `pre_parse` configures the one that it gets. -/
def construct (s : RateServing W) (d : RouteDef W) : Ref → ClockedBucket :=
  let fresh := Function.update s.buckets (s.serving.managed.heap.next + 4)
    ⟨TokenBucket.new, s.nowNs, []⟩
  let limiter := s.serving.limiterFor d
  Function.update fresh limiter ((Target.preParseRateLimiter d.opts).exec (fresh limiter)).2

variable [Platform] {s s' : RateServing W}

theorem buckets_construct (h : s.serving.Limited) {t : Target W} (ht : t ∈ s.serving.live)
    {d : RouteDef W} (hkey : t.limitKey ≠ d.limitKey) :
    s.construct d t.rateLimiter = s.buckets t.rateLimiter := by
  have hlt : t.rateLimiter < s.serving.managed.heap.next :=
    h.numbered.lt _ _ (h.shares t ht)
  unfold construct
  rw [Function.update_of_ne (h.ne_limiterFor ht hkey),
    Function.update_of_ne (Nat.ne_of_lt (Nat.lt_add_right 4 hlt))]

variable [WeightArith W]

def step (s : RateServing W) : RateLabel W → Option (RateServing W)
  | .serve e => (s.serving.step e).map fun serving =>
      { s with
        serving := serving
        buckets := ((s.serving.made e).map s.construct).getD s.buckets }
  | .acquire i globalRate globalBurst => s.serving.live[i]?.map fun t =>
      let acquired := (Target.tryAcquireRateLimit t.opts globalRate globalBurst).exec
        (s.buckets t.rateLimiter)
      { s with buckets := Function.update s.buckets t.rateLimiter acquired.2 }
  | .tick ns => some
      { s with
        nowNs := s.nowNs + ns
        buckets := fun r => { s.buckets r with nowNs := (s.buckets r).nowNs + ns } }

theorem limited_step {e : RateLabel W} (h : s.serving.Limited) (hstep : s.step e = some s') :
    s'.serving.Limited := by
  cases e with
  | serve e =>
    obtain ⟨serving, hserving, rfl⟩ := Option.map_eq_some_iff.mp hstep
    exact h.step (Serving.step_cases hserving)
  | acquire i globalRate globalBurst =>
    obtain ⟨t, -, rfl⟩ := Option.map_eq_some_iff.mp hstep
    exact h
  | tick ns =>
    cases hstep
    exact h

theorem limited_run {cbConfig : Option CircuitBreakerConfig} {heap : Heap} {nowNs : ℕ}
    {es : List (RateLabel W)} (hrun : Runs.run step (new cbConfig heap nowNs) es = some s) :
    s.serving.Limited :=
  Runs.invariant (I := fun s : RateServing W => s.serving.Limited)
    (fun _ _ _ hi hstep => limited_step hi hstep) hrun (Serving.limited_new cbConfig heap)

/-- The key of a bucket is one URL with one policy; at any time, live targets have one bucket
exactly when they agree on both; and a step that makes a target configures the bucket that the new
target has, and leaves that of every live target as it is that differs from the new one in URL or
policy. -/
theorem rate_policies_isolated (cbConfig : Option CircuitBreakerConfig) (heap : Heap) (nowNs : ℕ)
    (es : List (RateLabel W)) (s : RateServing W)
    (hrun : Runs.run step (new cbConfig heap nowNs) es = some s) :
    (∀ url₁ url₂ opts₁ opts₂, Target.rateLimiterRegistryKey url₁ opts₁ =
        Target.rateLimiterRegistryKey url₂ opts₂ ↔
      url₁ = url₂ ∧ Target.rateLimitOverride opts₁ = Target.rateLimitOverride opts₂) ∧
    (∀ a ∈ s.serving.live, ∀ b ∈ s.serving.live, a.rateLimiter = b.rateLimiter ↔
      a.url = b.url ∧ Target.rateLimitOverride a.opts = Target.rateLimitOverride b.opts) ∧
    ∀ e s', s.step (.serve e) = some s' →
      (∀ d ∈ s.serving.made e, s'.buckets = s.construct d ∧ ∀ t ∈ s'.serving.live,
        t.url = d.dst ∧ Target.rateLimitOverride t.opts = Target.rateLimitOverride d.opts →
          t.rateLimiter = s.serving.limiterFor d) ∧
      ∀ t ∈ s.serving.live, (∀ d ∈ s.serving.made e, ¬(t.url = d.dst ∧
          Target.rateLimitOverride t.opts = Target.rateLimitOverride d.opts)) →
        s'.buckets t.rateLimiter = s.buckets t.rateLimiter := by
  have hlimited := limited_run hrun
  refine ⟨fun _ _ _ _ => Target.rateLimiterRegistryKey_eq_iff, fun a ha b hb =>
    hlimited.eq_iff ha hb, ?_⟩
  intro e s' hstep
  obtain ⟨serving, hserving, rfl⟩ := Option.map_eq_some_iff.mp hstep
  constructor
  · intro d hmade
    rw [Option.mem_def] at hmade
    rw [hmade]
    exact ⟨rfl, fun t ht hpolicy => Serving.rateLimiter_of_made hlimited hserving hmade ht
      (Target.rateLimiterRegistryKey_eq_iff.mpr hpolicy)⟩
  · intro t ht hother
    dsimp only
    cases hmade : s.serving.made e with
    | none => rfl
    | some d =>
      have hkey : t.limitKey ≠ d.limitKey :=
        fun he => hother d hmade (Target.rateLimiterRegistryKey_eq_iff.mp he)
      exact buckets_construct hlimited ht hkey

end RateServing

section Examples

attribute [local instance] Platform.plain

def limitedDef (service rate burst : String) : RouteDef ℚ :=
  { exampleDef .static .add service "http://10.0.0.1:80/" with
    opts := AList.insert "ratelimit" rate (AList.insert "burst" burst ∅) }

/-- Two services of one backend have different limits, and the table is built twice. -/
def limitedLabels : List (RateLabel ℚ) :=
  [.serve (.start (.loadStatic [limitedDef "slow" "5" "5", limitedDef "fast" "50" "100"])),
    .serve .define, .serve .define, .serve .publish, .acquire 0 0 0, .tick 1000,
    .serve (.start (.updateKv [])), .serve .define]

theorem rate_policies_isolated_rebuilt : ∃ s : RateServing ℚ,
    Runs.run RateServing.step (.new none .empty 0) limitedLabels = some s ∧
      s.serving.live.map (·.service) = ["slow", "fast", "slow"] ∧
      ∀ a ∈ s.serving.live, ∀ b ∈ s.serving.live, a.rateLimiter = b.rateLimiter →
        Target.rateLimitOverride a.opts = Target.rateLimitOverride b.opts := by
  have hlive : (Runs.run RateServing.step (.new none .empty 0) limitedLabels).map
      (fun s => s.serving.live.map (·.service)) = some ["slow", "fast", "slow"] := by
    decide +kernel
  obtain ⟨s, hs, hlive⟩ := Option.map_eq_some_iff.mp hlive
  refine ⟨s, hs, hlive, fun a ha b hb hsame => ?_⟩
  exact (((RateServing.rate_policies_isolated _ _ _ _ s hs).2.1 a ha b hb).mp hsame).2

end Examples

end SentirumLb
