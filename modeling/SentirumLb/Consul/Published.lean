import SentirumLb.Consul.Aggregation
import SentirumLb.Consul.ServiceMonitor

/-! # Published routes

A route is published for an instance of the catalog when its node and id, joined
by a dot, are among the entries of the passing instances of its service. A name
that contains dots can be joined in two ways, so another instance can pass for a
passing one. Which services are asked for is up to two lists, the second of
which is read only when the first is empty.
-/

namespace SentirumLb

namespace Consul

def CatalogService.routeAddress (inst : CatalogService) : String :=
  if inst.serviceAddress = "" then inst.address else inst.serviceAddress

def CatalogService.of (inst : CatalogService) (service : String) : Instance :=
  (inst.node, service, inst.id)

variable {W : Type} [Zero W] [ParseWeight W]

def Brings (config : ConsulConfig) (tagPrefix service : String) (inst : CatalogService)
    (d : RouteDef W) : Prop :=
  ∃ tag ∈ inst.serviceTags, Text.startsWith tag tagPrefix = true ∧
    parseTag config tag inst.routeAddress inst.servicePort service = some d

section Snapshot

variable (config : ConsulConfig) (catalog : Catalog) (checks : List HealthCheck)
  (tagPrefix : String)

omit [Zero W] [ParseWeight W] in
def passingInstances : List Instance :=
  listed config.includeWarning (checks.filter (isRelevant tagPrefix))

def Allowed (service : String) : Prop :=
  if config.serviceWhitelist ≠ [] then service ∈ config.serviceWhitelist
  else service ∉ config.serviceBlacklist

/-- The catalog lists the instance under the service. -/
def Offers (service : String) (inst : CatalogService) : Prop :=
  ∃ instances, catalog.answer service = .ok instances ∧ inst ∈ instances

/-- The instance has the entry of a passing instance of its service. -/
def Matches (service : String) (inst : CatalogService) : Prop :=
  ∃ t ∈ passingInstances config checks tagPrefix, t.2.1 = service ∧
    t.entry = (inst.of service).entry

structure Published (service : String) (inst : CatalogService) (d : RouteDef W) : Prop where
  allowed : Allowed config service
  offered : Offers catalog service inst
  isMatch : Matches config checks tagPrefix service inst
  brought : Brings config tagPrefix service inst d

end Snapshot

variable {config : ConsulConfig} {catalog : Catalog} {checks : List HealthCheck}
  {tagPrefix service : String} {inst : CatalogService} {d : RouteDef W}
  {defs : List (RouteDef W)}

/-! ## What is published -/

omit [Zero W] [ParseWeight W] in
theorem allowed_iff : Allowed config service ↔
    (if config.serviceWhitelist ≠ [] then config.serviceWhitelist.any (· == service)
      else !config.serviceBlacklist.any (· == service)) = true := by
  unfold Allowed
  split
  · simp
  · simp only [Bool.not_eq_true', List.any_eq_false, beq_iff_eq]
    exact ⟨fun h x hx he => h (he ▸ hx), fun h hm => h service hm rfl⟩

omit [Zero W] [ParseWeight W] in
theorem lookup_filterServices (config : ConsulConfig)
    (services : AssocMap String (List String)) (service : String) :
    (filterServices config services).lookup service =
      (services.lookup service).filter fun _ =>
        if config.serviceWhitelist ≠ [] then config.serviceWhitelist.any (· == service)
        else !config.serviceBlacklist.any (· == service) := by
  unfold filterServices
  split
  · exact AssocMap.lookup_retain _ _ _
  · exact AssocMap.lookup_retain _ _ _

omit [Zero W] [ParseWeight W] in
theorem mem_passingServices_iff {entry : String} :
    (∃ ids, (passingServices config tagPrefix checks).lookup service = some ids ∧ entry ∈ ids) ↔
      Allowed config service ∧ ∃ t ∈ passingInstances config checks tagPrefix,
        t.2.1 = service ∧ t.entry = entry := by
  rw [allowed_iff]
  unfold passingServices passingInstances
  simp only [lookup_filterServices, lookup_passingServiceIds, Option.filter_eq_some_iff]
  constructor
  · rintro ⟨ids, ⟨hids, hallowed⟩, hmem⟩
    split at hids
    · cases hids
    · cases hids
      obtain ⟨t, ht, rfl⟩ := List.mem_map.mp hmem
      obtain ⟨ht, hservice⟩ := List.mem_filter.mp ht
      exact ⟨hallowed, t, ht, of_decide_eq_true hservice, rfl⟩
  · rintro ⟨hallowed, t, ht, hservice, rfl⟩
    have hmem : t ∈ (listed config.includeWarning (checks.filter (isRelevant tagPrefix))).filter
        fun t => decide (t.2.1 = service) := List.mem_filter.mpr ⟨ht, decide_eq_true hservice⟩
    rw [if_neg (List.ne_nil_of_mem hmem)]
    exact ⟨_, ⟨rfl, hallowed⟩, List.mem_map.mpr ⟨t, hmem, rfl⟩⟩

theorem mem_routesOf_iff {passing : List String} {instances : List CatalogService} :
    d ∈ routesOf config tagPrefix service passing instances ↔
      ∃ inst ∈ instances, (inst.of service).entry ∈ passing ∧
        Brings config tagPrefix service inst d := by
  unfold routesOf
  rw [List.mem_flatMap]
  refine exists_congr fun inst => and_congr_right fun _ => ?_
  split
  · next h =>
    have hmem : (inst.of service).entry ∈ passing := List.contains_iff_mem.mp h
    simp only [List.mem_filterMap, Option.ite_none_right_eq_some, hmem, true_and]
    rfl
  · next h =>
    have hmem : (inst.of service).entry ∉ passing := fun hm => h (List.contains_iff_mem.mpr hm)
    simp [hmem]

/-- A route is published for an instance that a looked up service answers with. -/
theorem exists_published_iff :
    (∃ service inst, Published config catalog checks tagPrefix service inst d) ↔
      ∃ service ids, (passingServices config tagPrefix checks).lookup service = some ids ∧
        ∃ instances, catalog.answer service = .ok instances ∧
          d ∈ routesOf config tagPrefix service ids instances := by
  simp only [mem_routesOf_iff]
  constructor
  · rintro ⟨service, inst, hallowed, ⟨instances, hanswer, hinst⟩, hmatch, hbrings⟩
    obtain ⟨ids, hids, hentry⟩ := mem_passingServices_iff.mpr ⟨hallowed, hmatch⟩
    exact ⟨service, ids, hids, instances, hanswer, inst, hinst, hentry, hbrings⟩
  · rintro ⟨service, ids, hids, instances, hanswer, inst, hinst, hentry, hbrings⟩
    obtain ⟨hallowed, hmatch⟩ := mem_passingServices_iff.mp ⟨ids, hids, hentry⟩
    exact ⟨service, inst, hallowed, ⟨instances, hanswer, hinst⟩, hmatch, hbrings⟩

theorem mem_lookups_flatMap_iff {passing : AssocMap String (List String)} :
    d ∈ (catalog.lookups passing.keys).flatMap (lookupRoutes config tagPrefix passing) ↔
      ∃ service ids, passing.lookup service = some ids ∧
        ∃ instances, catalog.answer service = .ok instances ∧
          d ∈ routesOf config tagPrefix service ids instances := by
  rw [List.mem_flatMap]
  constructor
  · rintro ⟨⟨service, answer⟩, hlookup, hd⟩
    obtain ⟨service', hservice, heq⟩ := List.mem_map.mp hlookup
    have hkey := (catalog.order_perm _).mem_iff.mp hservice
    obtain ⟨ids, hids⟩ := Option.isSome_iff_exists.mp
      (AList.lookup_isSome.mpr (AList.mem_keys.mpr hkey))
    cases heq
    refine ⟨service, ids, hids, ?_⟩
    cases hanswer : catalog.answer service with
    | ok instances =>
      rw [hanswer, lookupRoutes, hids, Option.getD_some] at hd
      exact ⟨instances, rfl, hd⟩
    | error e =>
      rw [hanswer] at hd
      cases hd
  · rintro ⟨service, ids, hids, instances, hanswer, hd⟩
    have hkey : service ∈ passing.keys :=
      AList.mem_keys.mp (AList.lookup_isSome.mp (Option.isSome_iff_exists.mpr ⟨ids, hids⟩))
    refine ⟨(service, catalog.answer service), List.mem_map.mpr
      ⟨service, (catalog.order_perm _).mem_iff.mpr hkey, rfl⟩, ?_⟩
    rw [hanswer, lookupRoutes, hids, Option.getD_some]
    exact hd

/-- The routes of a snapshot are those that are published for an instance. -/
theorem mem_processChecks_iff (h : processChecks config catalog checks tagPrefix = .ok defs) :
    d ∈ defs ↔ ∃ service inst, Published config catalog checks tagPrefix service inst d := by
  rw [exists_published_iff]
  unfold processChecks at h
  dsimp only at h
  split at h
  · next hempty =>
    cases h
    have hnone : ∀ service, (passingServices config tagPrefix checks).lookup service = none := by
      intro service
      rw [AList.lookup_eq_none, AList.mem_keys, AList.keys, List.isEmpty_iff.mp hempty]
      exact List.not_mem_nil
    simp [hnone]
  · split at h
    · cases h
      rw [(List.perm_insertionSort _ _).mem_iff, mem_lookups_flatMap_iff]
    · cases h

/-! ## Only passing instances -/

section Claims

variable (W) (config catalog checks tagPrefix)

/-- The routes of a result are published for passing instances only. -/
def OnlyPassing : Prop :=
  ∀ defs : List (RouteDef W), processChecks config catalog checks tagPrefix = .ok defs →
    ∀ d ∈ defs, ∀ service inst, Published config catalog checks tagPrefix service inst d →
      inst.of service ∈ passingInstances config checks tagPrefix

/-- No instance that the catalog has for an allowed service, that asks for a route and is not
passing, has the entry of one that is. -/
def Unconfused : Prop :=
  ∀ service inst, Allowed config service → Offers catalog service inst →
    (∃ d : RouteDef W, Brings config tagPrefix service inst d) →
    inst.of service ∉ passingInstances config checks tagPrefix →
    ∀ t ∈ passingInstances config checks tagPrefix, t.2.1 = service →
      t.entry ≠ (inst.of service).entry

/-- The blacklist wins over the whitelist, and the whitelist over everything else. -/
def BlacklistWins : Prop :=
  ∀ defs : List (RouteDef W), processChecks config catalog checks tagPrefix = .ok defs →
    ∀ d ∈ defs, d.service ∉ config.serviceBlacklist ∧
      (config.serviceWhitelist ≠ [] → d.service ∈ config.serviceWhitelist)

/-- No service on both lists has an instance with a passing entry and a tag that asks for a
route. -/
def ListsAgree : Prop :=
  ∀ service ∈ config.serviceWhitelist, service ∈ config.serviceBlacklist →
    ∀ inst, Offers catalog service inst → Matches config checks tagPrefix service inst →
      ∀ d : RouteDef W, ¬Brings config tagPrefix service inst d

end Claims

theorem onlyPassing_of_unconfused (h : Complete config catalog checks tagPrefix →
    Unconfused W config catalog checks tagPrefix) :
    OnlyPassing W config catalog checks tagPrefix := by
  intro defs hdefs d hd service inst hpublished
  have hcomplete := (processChecks_eq_ok_iff config catalog checks tagPrefix).mp ⟨defs, hdefs⟩
  obtain ⟨hallowed, hoffers, ⟨t, ht, hservice, hentry⟩, hbrings⟩ := hpublished
  by_contra hnot
  exact h hcomplete service inst hallowed hoffers ⟨d, hbrings⟩ hnot t ht hservice hentry

/-- When the catalog answers, only passing instances are published exactly if no other instance is
confused with one. -/
theorem onlyPassing_iff : OnlyPassing W config catalog checks tagPrefix ↔
    (Complete config catalog checks tagPrefix →
      Unconfused W config catalog checks tagPrefix) := by
  constructor
  · intro h hcomplete service inst hallowed hoffers ⟨d, hbrings⟩ hnot t ht hservice hentry
    obtain ⟨defs, hdefs⟩ := (processChecks_eq_ok_iff (W := W) config catalog checks tagPrefix).mpr
      hcomplete
    have hpublished : Published config catalog checks tagPrefix service inst d :=
      ⟨hallowed, hoffers, ⟨t, ht, hservice, hentry⟩, hbrings⟩
    exact hnot (h defs hdefs d ((mem_processChecks_iff hdefs).mpr ⟨service, inst, hpublished⟩)
      service inst hpublished)
  · exact onlyPassing_of_unconfused

omit [Zero W] [ParseWeight W] in
theorem Instance.eq_of_entry_eq {t u : Instance} (ht : '.' ∉ t.1.toList) (hu : '.' ∉ u.1.toList)
    (hservice : t.2.1 = u.2.1) (h : t.entry = u.entry) : t = u := by
  have hsplit : ∀ v : Instance, '.' ∉ v.1.toList →
      Text.splitOnce '.' v.entry = some (v.1, v.2.2) := by
    intro v hv
    refine Text.splitOnce_eq_some_iff.mpr ⟨?_, hv⟩
    simp [Instance.entry, String.toList_append]
  have heq := (hsplit t ht).symm.trans (h ▸ hsplit u hu)
  simp only [Option.some.injEq, Prod.mk.injEq] at heq
  exact Prod.ext heq.1 (Prod.ext hservice heq.2)

/-- Nodes without dots are never confused. -/
theorem onlyPassing_of_dotless
    (hpassing : ∀ t ∈ passingInstances config checks tagPrefix, '.' ∉ t.1.toList)
    (hcatalog : ∀ service inst, Offers catalog service inst → '.' ∉ inst.node.toList) :
    OnlyPassing W config catalog checks tagPrefix := by
  apply onlyPassing_of_unconfused
  intro _ service inst _ hoffers _ hnot t ht hservice hentry
  refine hnot ?_
  rw [← Instance.eq_of_entry_eq (hpassing t ht) (hcatalog service inst hoffers) hservice hentry]
  exact ht

theorem Brings.service_eq (h : Brings config tagPrefix service inst d) : d.service = service := by
  obtain ⟨tag, -, -, hparse⟩ := h
  unfold parseTag at hparse
  obtain ⟨⟨src, rawOpts⟩, -, rfl⟩ := Option.map_eq_some_iff.mp hparse
  rfl

/-- The blacklist wins exactly when the whitelist is empty, a lookup of the catalog fails, or no
service on both lists has anything to publish. -/
theorem blacklistWins_iff : BlacklistWins W config catalog checks tagPrefix ↔
    config.serviceWhitelist = [] ∨ ¬Complete config catalog checks tagPrefix ∨
      ListsAgree W config catalog checks tagPrefix := by
  constructor
  · intro h
    by_cases hwhite : config.serviceWhitelist = []
    · exact Or.inl hwhite
    · refine Or.inr (not_or_of_imp fun hcomplete => ?_)
      intro service hlisted hblack inst hoffers hmatch d hbrings
      obtain ⟨defs, hdefs⟩ :=
        (processChecks_eq_ok_iff (W := W) config catalog checks tagPrefix).mpr hcomplete
      have hallowed : Allowed config service := by
        rw [Allowed, if_pos hwhite]
        exact hlisted
      have hd := (mem_processChecks_iff hdefs).mpr
        ⟨service, inst, hallowed, hoffers, hmatch, hbrings⟩
      exact (h defs hdefs d hd).1 (hbrings.service_eq ▸ hblack)
  · intro h defs hdefs d hd
    have hcomplete := (processChecks_eq_ok_iff config catalog checks tagPrefix).mp ⟨defs, hdefs⟩
    obtain ⟨service, inst, hallowed, hoffers, hmatch, hbrings⟩ :=
      (mem_processChecks_iff hdefs).mp hd
    rw [hbrings.service_eq]
    unfold Allowed at hallowed
    split at hallowed
    · next hwhite =>
      refine ⟨fun hblack => ?_, fun _ => hallowed⟩
      rcases h with h | h | h
      · exact hwhite h
      · exact h hcomplete
      · exact h service hallowed hblack inst hoffers hmatch d hbrings
    · next hwhite => exact ⟨hallowed, fun hne => absurd hne hwhite⟩

section Examples

def shadowService : CatalogService :=
  { id := "b.c", node := "a", address := "10.0.0.9", serviceAddress := ""
    servicePort := 80, serviceTags := ["urlprefix-/"] }

def shadowCatalog : Catalog := ⟨fun _ => .ok [shadowService], id, List.Perm.refl⟩

/-- The instance of node `a` is published for the passing one of node `a.b`. -/
theorem not_onlyPassing_shadowService :
    let _ := Watch.parseWhole
    ¬OnlyPassing ℚ {} shadowCatalog [passingCheck "a.b" "web" "c"] "urlprefix-" := by
  intro _ h
  obtain ⟨defs, hdefs⟩ := (processChecks_eq_ok_iff (W := ℚ) {} shadowCatalog
    [passingCheck "a.b" "web" "c"] "urlprefix-").mpr fun _ _ => ⟨_, rfl⟩
  have hparse : (parseTag {} "urlprefix-/" "10.0.0.9" 80 "web" : Option (RouteDef ℚ)).isSome =
      true := by
    decide +kernel
  obtain ⟨d, hd⟩ := Option.isSome_iff_exists.mp hparse
  have hpublished : Published {} shadowCatalog [passingCheck "a.b" "web" "c"] "urlprefix-" "web"
      shadowService d := by
    refine ⟨by simp [Allowed], ⟨_, rfl, List.mem_singleton_self _⟩,
      ⟨("a.b", "web", "c"), by decide +kernel, rfl, by decide +kernel⟩,
      "urlprefix-/", List.mem_singleton_self _, by decide +kernel, hd⟩
  have hin := h defs hdefs d ((mem_processChecks_iff hdefs).mpr ⟨_, _, hpublished⟩) _ _ hpublished
  exact absurd hin (by decide +kernel)

def bothLists : ConsulConfig := { serviceWhitelist := ["web"], serviceBlacklist := ["web"] }

/-- The service is published. -/
theorem not_blacklistWins_bothLists :
    let _ := Watch.parseWhole
    ¬BlacklistWins ℚ bothLists Watch.webCatalog Watch.webSnapshot.checks "urlprefix-" := by
  intro _ h
  obtain ⟨defs, hdefs⟩ := (processChecks_eq_ok_iff (W := ℚ) bothLists Watch.webCatalog
    Watch.webSnapshot.checks "urlprefix-").mpr fun _ _ => ⟨_, rfl⟩
  have hparse : (parseTag bothLists "urlprefix-/" "10.0.0.1" 80 "web" :
      Option (RouteDef ℚ)).isSome = true := by
    decide +kernel
  obtain ⟨d, hd⟩ := Option.isSome_iff_exists.mp hparse
  have hpublished : Published bothLists Watch.webCatalog Watch.webSnapshot.checks "urlprefix-"
      "web" Watch.webService d := by
    refine ⟨by simp [Allowed, bothLists], ⟨_, rfl, List.mem_singleton_self _⟩,
      ⟨("n1", "web", "web-1"), by decide +kernel, rfl, by decide +kernel⟩,
      "urlprefix-/", List.mem_singleton_self _, by decide +kernel, hd⟩
  have hwins := (h defs hdefs d ((mem_processChecks_iff hdefs).mpr ⟨_, _, hpublished⟩)).1
  rw [hpublished.brought.service_eq] at hwins
  exact hwins (List.mem_singleton_self _)

end Examples

end Consul

end SentirumLb
