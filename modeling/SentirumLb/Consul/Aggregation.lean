import SentirumLb.Lib.Text
import SentirumLb.Consul.Checks

/-! # Health aggregation

An instance takes requests when its checks are healthy and neither it nor its
node is out of service. The checks are collected in one pass and judged
afterwards. Every instance is judged by the checks about it, except that the
service id of a maintenance check is read with all copies of the prefix removed
from its front, so ids that begin with the prefix are mistaken for others.
-/

namespace SentirumLb

namespace Consul

abbrev Instance := String × String × String

def maintenancePrefix : String := "_service_maintenance:"

def Instance.entry (t : Instance) : String := t.1 ++ "." ++ t.2.2

def checksInstance (t : Instance) (check : HealthCheck) : Bool :=
  isServiceCheck check && decide ((check.node, check.serviceName, check.serviceId) = t)

/-- The status counts as healthy. -/
def healthyStatus (includeWarning : Bool) (check : HealthCheck) : Bool :=
  check.status == healthStatusPassing || includeWarning && check.status == healthStatusWarning

variable (includeWarning : Bool) (checks : List HealthCheck) (t : Instance)

structure Healthy : Prop where
  checked : ∃ check ∈ checks, checksInstance t check = true
  healthy : ∀ check ∈ checks, checksInstance t check = true →
    healthyStatus includeWarning check = true
  nodeUp : ∀ check ∈ checks, check.node = t.1 → check.checkId = "serfHealth" →
    check.status ≠ "critical"
  nodeInService : ∀ check ∈ checks, check.node = t.1 → check.checkId ≠ "_node_maintenance"

/-- A critical check puts exactly this instance out of service. -/
def Maintained (node serviceId : String) : Prop :=
  ∃ check ∈ checks, check.node = node ∧ check.status = "critical" ∧
    check.checkId = maintenancePrefix ++ serviceId

/-- When an instance is to be listed. -/
def InService : Prop := Healthy includeWarning checks t ∧ ¬Maintained checks t.1 t.2.2

def listed : List Instance :=
  let h := checks.foldl Health.add .empty
  (h.services.entries.filter fun e => h.passes includeWarning e.1.1 e.1.2.2 e.2).map (·.1)

/-! ## What the first loop collects -/

def marksDown (check : HealthCheck) : Bool :=
  check.checkId == "serfHealth" && check.status == "critical"

def marksNode (check : HealthCheck) : Bool := check.checkId == "_node_maintenance"

def marksService (check : HealthCheck) : Bool :=
  Text.startsWith check.checkId maintenancePrefix && check.status == "critical"

/-- The service id that a maintenance check is read to be about. -/
def maintainedId (check : HealthCheck) : String :=
  Text.trimStartMatches check.checkId maintenancePrefix

/-- The collected maps say of the checks what is asked of them later. -/
structure Says (h : Health) : Prop where
  services : ∀ t, h.services.lookup t =
    if checks.filter (checksInstance t) = [] then none else some (checks.filter (checksInstance t))
  nodeDown : ∀ node, (h.nodeDown.lookup node).getD false =
    checks.any fun check => decide (check.node = node) && marksDown check
  nodeMaintenance : ∀ node, (h.nodeMaintenance.lookup node).getD false =
    checks.any fun check => decide (check.node = node) && marksNode check
  serviceMaintenance : ∀ node serviceId,
    (h.serviceMaintenance.lookup (node, serviceId)).getD false = checks.any fun check =>
      decide ((check.node, maintainedId check) = (node, serviceId)) && marksService check

variable {includeWarning checks t} {h : Health} {check : HealthCheck}

theorem add_cases (h : Health) (check : HealthCheck) :
    (marksDown check = true ∧ marksNode check = false ∧ marksService check = false ∧
      isServiceCheck check = false ∧
      h.add check = { h with nodeDown := AList.insert check.node true h.nodeDown }) ∨
    (marksDown check = false ∧ marksNode check = true ∧ marksService check = false ∧
      isServiceCheck check = false ∧
      h.add check = { h with nodeMaintenance := AList.insert check.node true h.nodeMaintenance }) ∨
    (marksDown check = false ∧ marksNode check = false ∧ marksService check = true ∧
      isServiceCheck check = false ∧
      h.add check = { h with
        serviceMaintenance :=
          AList.insert (check.node, maintainedId check) true h.serviceMaintenance }) ∨
    (marksDown check = false ∧ marksNode check = false ∧ marksService check = false ∧
      isServiceCheck check = true ∧
      h.add check = { h with
        services := h.services.upsert (check.node, check.serviceName, check.serviceId) []
          (· ++ [check]) }) ∨
    (marksDown check = false ∧ marksNode check = false ∧ marksService check = false ∧
      isServiceCheck check = false ∧ h.add check = h) := by
  have hserf : Text.startsWith "serfHealth" "_service_maintenance:" = false := by decide +kernel
  have hnode : Text.startsWith "_node_maintenance" "_service_maintenance:" = false := by
    decide +kernel
  unfold marksDown marksNode marksService maintainedId Health.add isServiceCheck maintenancePrefix
  by_cases h1 : check.checkId = "serfHealth"
  · by_cases h2 : check.status = "critical"
    · left
      simp [h1, h2, hserf]
    · right; right; right; right
      simp [h1, h2, hserf]
  · by_cases h2 : check.checkId = "_node_maintenance"
    · right; left
      simp [h2, hnode]
    · cases h3 : Text.startsWith check.checkId "_service_maintenance:"
      · by_cases h4 : check.serviceId = ""
        · right; right; right; right
          simp [h1, h2, h4]
        · right; right; right; left
          simp [h1, h2, h4]
      · by_cases h4 : check.status = "critical"
        · right; right; left
          simp [h1, h2, h4]
        · right; right; right; right
          simp [h1, h2, h4]

theorem says_nil : Says [] .empty :=
  ⟨fun _ => rfl, fun _ => rfl, fun _ => rfl, fun _ _ => rfl⟩

theorem getD_insert {κ : Type} [DecidableEq κ] (m : AssocMap κ Bool) (k k' : κ) :
    ((AList.insert k true m).lookup k').getD false =
      ((m.lookup k').getD false || decide (k = k')) := by
  by_cases hk : k' = k
  · subst hk
    simp
  · rw [AList.lookup_insert_ne hk, decide_eq_false (Ne.symm hk), Bool.or_false]

theorem getD_nodeDown_add (h : Health) (check : HealthCheck) (node : String) :
    ((h.add check).nodeDown.lookup node).getD false =
      ((h.nodeDown.lookup node).getD false || decide (check.node = node) && marksDown check) := by
  rcases add_cases h check with ⟨hk, -, -, -, hadd⟩ | ⟨hk, -, -, -, hadd⟩ | ⟨hk, -, -, -, hadd⟩ |
    ⟨hk, -, -, -, hadd⟩ | ⟨hk, -, -, -, hadd⟩ <;> simp [hadd, hk, getD_insert]

theorem getD_nodeMaintenance_add (h : Health) (check : HealthCheck) (node : String) :
    ((h.add check).nodeMaintenance.lookup node).getD false =
      ((h.nodeMaintenance.lookup node).getD false ||
        decide (check.node = node) && marksNode check) := by
  rcases add_cases h check with ⟨-, hk, -, -, hadd⟩ | ⟨-, hk, -, -, hadd⟩ | ⟨-, hk, -, -, hadd⟩ |
    ⟨-, hk, -, -, hadd⟩ | ⟨-, hk, -, -, hadd⟩ <;> simp [hadd, hk, getD_insert]

theorem getD_serviceMaintenance_add (h : Health) (check : HealthCheck) (key : String × String) :
    ((h.add check).serviceMaintenance.lookup key).getD false =
      ((h.serviceMaintenance.lookup key).getD false ||
        decide ((check.node, maintainedId check) = key) && marksService check) := by
  rcases add_cases h check with ⟨-, -, hk, -, hadd⟩ | ⟨-, -, hk, -, hadd⟩ | ⟨-, -, hk, -, hadd⟩ |
    ⟨-, -, hk, -, hadd⟩ | ⟨-, -, hk, -, hadd⟩ <;> simp [hadd, hk, getD_insert]

theorem lookup_services_add (h : Health) (check : HealthCheck) (t : Instance) :
    (h.add check).services.lookup t =
      if checksInstance t check then some ((h.services.lookup t).getD [] ++ [check])
      else h.services.lookup t := by
  rcases add_cases h check with ⟨-, -, -, hk, hadd⟩ | ⟨-, -, -, hk, hadd⟩ | ⟨-, -, -, hk, hadd⟩ |
    ⟨-, -, -, hk, hadd⟩ | ⟨-, -, -, hk, hadd⟩ <;> rw [hadd, checksInstance, hk]
  · rfl
  · rfl
  · rfl
  · by_cases ht : (check.node, check.serviceName, check.serviceId) = t
    · subst ht
      simp
    · rw [AssocMap.lookup_upsert_ne (Ne.symm ht)]
      simp [ht]
  · rfl

theorem Says.add (hs : Says checks h) (check : HealthCheck) :
    Says (checks ++ [check]) (h.add check) where
  services t := by
    rw [lookup_services_add, hs.services, List.filter_append, List.filter_singleton]
    by_cases hof : checksInstance t check = true
    · by_cases hempty : checks.filter (checksInstance t) = []
      · simp [hof, hempty]
      · simp [hof, hempty]
    · simp [hof]
  nodeDown node := by simp [getD_nodeDown_add, hs.nodeDown]
  nodeMaintenance node := by simp [getD_nodeMaintenance_add, hs.nodeMaintenance]
  serviceMaintenance node serviceId := by
    simp [getD_serviceMaintenance_add, hs.serviceMaintenance]

theorem says_foldl (checks : List HealthCheck) : Says checks (checks.foldl Health.add .empty) := by
  induction checks using List.reverseRecOn with
  | nil => exact says_nil
  | append_singleton checks check ih =>
    rw [List.foldl_append]
    exact ih.add check

/-! ## The verdict -/

def Marked (checks : List HealthCheck) (node serviceId : String) : Prop :=
  ∃ check ∈ checks, check.node = node ∧ maintainedId check = serviceId ∧
    marksService check = true

theorem countP_healthyStatus (includeWarning : Bool) (checks : List HealthCheck) :
    (if includeWarning then (checks.countP fun check => check.status == healthStatusPassing) +
        checks.countP fun check => check.status == healthStatusWarning
      else checks.countP fun check => check.status == healthStatusPassing) =
      checks.countP (healthyStatus includeWarning) := by
  unfold healthyStatus
  cases includeWarning
  · simp
  · have hne : ∀ check : HealthCheck, (check.status == healthStatusPassing) = true →
        (check.status == healthStatusWarning) = false := by
      intro check h
      rw [beq_iff_eq.mp h]
      decide
    simp only [if_true, Bool.true_and]
    induction checks with
    | nil => rfl
    | cons check checks ih =>
      have hcheck := hne check
      simp only [List.countP_cons, ← ih]
      cases hp : check.status == healthStatusPassing
      · simp only [Bool.false_or, Bool.false_eq_true, if_false]
        omega
      · simp only [hcheck hp, Bool.true_or, Bool.false_eq_true, if_true, if_false]
        omega

theorem all_healthyStatus_iff {l : List HealthCheck} (hl : l ≠ []) :
    (!(l.countP (healthyStatus includeWarning) == 0 ||
      l.length != l.countP (healthyStatus includeWarning))) = true ↔
      ∀ check ∈ l, healthyStatus includeWarning check = true := by
  have hpos := List.length_pos_iff.mpr hl
  rw [← List.countP_eq_length]
  simp only [Bool.not_eq_true', Bool.or_eq_false_iff, beq_eq_false_iff_ne, bne_eq_false_iff_eq]
  omega

theorem not_marked_iff {node serviceId : String} : (checks.any fun check =>
    decide ((check.node, maintainedId check) = (node, serviceId)) && marksService check) = false ↔
      ¬Marked checks node serviceId := by
  simp [Marked, List.any_eq_false, and_assoc]

/-- An instance is let through when it is healthy and not read to be maintained. -/
theorem Says.passes_iff (hs : Says checks h) (hne : checks.filter (checksInstance t) ≠ []) :
    h.passes includeWarning t.1 t.2.2 (checks.filter (checksInstance t)) = true ↔
      Healthy includeWarning checks t ∧ ¬Marked checks t.1 t.2.2 := by
  have hout : ∀ p : HealthCheck → Bool, (checks.any fun check =>
      decide (check.node = t.1) && p check) = false ↔
      ∀ check ∈ checks, check.node = t.1 → p check = false := by
    intro p
    simp only [List.any_eq_false, Bool.and_eq_true, decide_eq_true_eq, not_and,
      Bool.not_eq_true]
  unfold Health.passes
  simp only [countP_healthyStatus, Bool.and_eq_true, all_healthyStatus_iff hne, hs.nodeDown,
    hs.nodeMaintenance, hs.serviceMaintenance, Bool.not_eq_true', Bool.or_eq_false_iff, hout,
    not_marked_iff]
  constructor
  · rintro ⟨⟨⟨hdown, hnode⟩, hmark⟩, hall⟩
    refine ⟨⟨?_, ?_, ?_, ?_⟩, hmark⟩
    · obtain ⟨check, hcheck⟩ := List.exists_mem_of_ne_nil _ hne
      exact ⟨check, List.mem_filter.mp hcheck⟩
    · exact fun check hc hof => hall check (List.mem_filter.mpr ⟨hc, hof⟩)
    · intro check hc hon hid hcritical
      simpa [marksDown, hid, hcritical] using hdown check hc hon
    · intro check hc hon hid
      simpa [marksNode, hid] using hnode check hc hon
  · rintro ⟨hhealthy, hmark⟩
    refine ⟨⟨⟨?_, ?_⟩, hmark⟩, ?_⟩
    · intro check hc hon
      have hup := hhealthy.nodeUp check hc hon
      by_cases hid : check.checkId = "serfHealth"
      · simpa [marksDown, hid] using hup hid
      · simp [marksDown, hid]
    · intro check hc hon
      simpa [marksNode] using hhealthy.nodeInService check hc hon
    · intro check hc
      obtain ⟨hc, hof⟩ := List.mem_filter.mp hc
      exact hhealthy.healthy check hc hof

theorem Healthy.filter_ne_nil (h : Healthy includeWarning checks t) :
    checks.filter (checksInstance t) ≠ [] := by
  obtain ⟨check, hc, hof⟩ := h.checked
  exact List.ne_nil_of_mem (List.mem_filter.mpr ⟨hc, hof⟩)

theorem mem_listed_iff : t ∈ listed includeWarning checks ↔
    Healthy includeWarning checks t ∧ ¬Marked checks t.1 t.2.2 := by
  have hs := says_foldl checks
  unfold listed
  simp only [List.mem_map, List.mem_filter]
  constructor
  · rintro ⟨⟨u, l⟩, ⟨he, hpass⟩, rfl⟩
    have hl := AssocMap.lookup_eq_some_iff.mpr he
    rw [hs.services] at hl
    split at hl
    · cases hl
    · next hne =>
      cases hl
      exact (hs.passes_iff hne).mp hpass
  · intro hin
    have hne := hin.1.filter_ne_nil
    have hl := hs.services t
    rw [if_neg hne] at hl
    exact ⟨⟨t, _⟩, ⟨AssocMap.lookup_eq_some_iff.mp hl, (hs.passes_iff hne).mpr hin⟩, rfl⟩

theorem nodup_listed (includeWarning : Bool) (checks : List HealthCheck) :
    (listed includeWarning checks).Nodup := by
  unfold listed
  have hkeys := (checks.foldl Health.add .empty).services.nodupKeys
  exact List.Nodup.sublist (List.filter_sublist.map _) hkeys

theorem lookup_passingServiceIds (config : ConsulConfig) (checks : List HealthCheck)
    (service : String) : (passingServiceIds config checks).lookup service =
      let instances :=
        (listed config.includeWarning checks).filter fun t => decide (t.2.1 = service)
      if instances = [] then none else some (instances.map Instance.entry) := by
  let h := checks.foldl Health.add .empty
  have hfold := AssocMap.lookup_foldl_push
    (fun e : (_ : Instance) × List HealthCheck =>
      h.passes config.includeWarning e.1.1 e.1.2.2 e.2)
    (fun e => e.1.2.1) (fun e => Instance.entry e.1) h.services.entries ∅ service
  refine hfold.trans ?_
  have hfilter : (listed config.includeWarning checks).filter (fun t => decide (t.2.1 = service)) =
      (h.services.entries.filter fun e =>
        h.passes config.includeWarning e.1.1 e.1.2.2 e.2 && decide (e.1.2.1 = service)).map
          (·.1) := by
    unfold listed
    rw [List.filter_map, List.filter_filter]
    congr 1
    apply List.filter_congr
    intro e _
    exact Bool.and_comm _ _
  simp only [hfilter, List.map_eq_nil_iff, List.map_map]
  rfl

/-! ## The specification -/

/-- The instances are listed as specified: each entry is that of an instance under its service,
every instance that is in service is listed once, and the order of the checks makes no difference to
the sets of entries. -/
structure Aggregates (config : ConsulConfig) (checks : List HealthCheck) : Prop where
  entries : ∀ service, ((passingServiceIds config checks).lookup service).getD [] =
    ((listed config.includeWarning checks).filter fun t => decide (t.2.1 = service)).map
      Instance.entry
  once : (listed config.includeWarning checks).Nodup
  listed_iff : ∀ t, t ∈ listed config.includeWarning checks ↔
    InService config.includeWarning checks t
  unordered : ∀ checks', checks'.Perm checks → ∀ service,
    ((passingServiceIds config checks').lookup service).map List.toFinset =
      ((passingServiceIds config checks).lookup service).map List.toFinset

/-- A critical check whose id repeats the maintenance prefix makes no difference: the instance with
the rest as its id is not healthy, and neither is the one with what is left of it without the
prefix, unless another check puts that one out of service. -/
def Harmless (includeWarning : Bool) (checks : List HealthCheck) (check : HealthCheck) : Prop :=
  ∀ rest service, check.status = "critical" →
    check.checkId = maintenancePrefix ++ (maintenancePrefix ++ rest) →
    ¬Healthy includeWarning checks (check.node, service, maintenancePrefix ++ rest) ∧
      (Healthy includeWarning checks
          (check.node, service, Text.trimStartMatches rest maintenancePrefix) →
        Maintained checks check.node (Text.trimStartMatches rest maintenancePrefix))

theorem maintenancePrefix_ne : maintenancePrefix ≠ "" := by decide

theorem maintainedId_append {rest : String} (h : check.checkId = maintenancePrefix ++ rest) :
    maintainedId check = Text.trimStartMatches rest maintenancePrefix := by
  rw [maintainedId, h, Text.trimStartMatches_append maintenancePrefix_ne]

theorem marked_iff {node serviceId : String} : Marked checks node serviceId ↔
    ∃ check ∈ checks, check.node = node ∧ check.status = "critical" ∧
      ∃ rest, check.checkId = maintenancePrefix ++ rest ∧
        Text.trimStartMatches rest maintenancePrefix = serviceId := by
  constructor
  · rintro ⟨check, hc, hnode, hid, hmarks⟩
    simp only [marksService, Bool.and_eq_true, beq_iff_eq] at hmarks
    obtain ⟨rest, hrest⟩ := Text.startsWith_iff_append.mp hmarks.1
    exact ⟨check, hc, hnode, hmarks.2, rest, hrest, (maintainedId_append hrest).symm.trans hid⟩
  · rintro ⟨check, hc, hnode, hcritical, rest, hrest, hid⟩
    refine ⟨check, hc, hnode, (maintainedId_append hrest).trans hid, ?_⟩
    simp only [marksService, Bool.and_eq_true, beq_iff_eq]
    exact ⟨Text.startsWith_iff_append.mpr ⟨rest, hrest⟩, hcritical⟩

/-- Healthy instances are read to be maintained when they are, exactly when the repeated prefixes
make no difference. -/
theorem marked_iff_maintained_iff : (∀ t, Healthy includeWarning checks t →
    (Marked checks t.1 t.2.2 ↔ Maintained checks t.1 t.2.2)) ↔
      ∀ check ∈ checks, Harmless includeWarning checks check := by
  constructor
  · intro h check hc rest service hcritical hid
    constructor
    · intro hhealthy
      obtain ⟨c, -, -, -, rest', -, htrim⟩ := marked_iff.mp ((h _ hhealthy).mpr
        ⟨check, hc, rfl, hcritical, hid⟩)
      have hstart : Text.startsWith (maintenancePrefix ++ rest) maintenancePrefix = true :=
        Text.startsWith_iff_append.mpr ⟨rest, rfl⟩
      have hnot := Text.startsWith_trimStartMatches maintenancePrefix_ne rest'
      dsimp only at htrim
      rw [htrim, hstart] at hnot
      cases hnot
    · intro hhealthy
      refine (h _ hhealthy).mp (marked_iff.mpr ⟨check, hc, rfl, hcritical, _, hid, ?_⟩)
      exact Text.trimStartMatches_append maintenancePrefix_ne rest
  · intro h t hhealthy
    constructor
    · intro hmarked
      obtain ⟨check, hc, hnode, hcritical, rest, hid, htrim⟩ := marked_iff.mp hmarked
      by_cases hstart : Text.startsWith rest maintenancePrefix = true
      · obtain ⟨rest', rfl⟩ := Text.startsWith_iff_append.mp hstart
        rw [Text.trimStartMatches_append maintenancePrefix_ne] at htrim
        have hother := (h check hc rest' t.2.1 hcritical hid).2
        rw [htrim, hnode] at hother
        exact hother hhealthy
      · rw [Text.trimStartMatches_of_not (Bool.eq_false_iff.mpr hstart)] at htrim
        exact ⟨check, hc, hnode, hcritical, htrim ▸ hid⟩
    · rintro ⟨check, hc, hnode, hcritical, hid⟩
      refine marked_iff.mpr ⟨check, hc, hnode, hcritical, _, hid, ?_⟩
      refine Text.trimStartMatches_of_not (Bool.eq_false_iff.mpr fun hstart => ?_)
      obtain ⟨rest, hrest⟩ := Text.startsWith_iff_append.mp hstart
      rw [hrest] at hid
      refine (h check hc rest t.2.1 hcritical hid).1 ?_
      rw [hnode, ← hrest]
      exact hhealthy

theorem Healthy.perm {checks' : List HealthCheck} (hp : checks'.Perm checks)
    (h : Healthy includeWarning checks t) : Healthy includeWarning checks' t := by
  obtain ⟨⟨check, hc, hof⟩, h2, h3, h4⟩ := h
  exact ⟨⟨check, hp.mem_iff.mpr hc, hof⟩, fun c hc => h2 c (hp.mem_iff.mp hc),
    fun c hc => h3 c (hp.mem_iff.mp hc), fun c hc => h4 c (hp.mem_iff.mp hc)⟩

theorem Marked.perm {checks' : List HealthCheck} {node serviceId : String}
    (hp : checks'.Perm checks) (h : Marked checks node serviceId) :
    Marked checks' node serviceId := by
  obtain ⟨check, hc, hrest⟩ := h
  exact ⟨check, hp.mem_iff.mpr hc, hrest⟩

theorem mem_listed_perm {checks' : List HealthCheck} (hp : checks'.Perm checks) :
    t ∈ listed includeWarning checks' ↔ t ∈ listed includeWarning checks := by
  rw [mem_listed_iff, mem_listed_iff]
  refine and_congr ⟨Healthy.perm hp.symm, Healthy.perm hp⟩ (not_congr ?_)
  exact ⟨Marked.perm hp.symm, Marked.perm hp⟩

/-- The order of the checks makes no difference to the sets of entries. -/
theorem lookup_passingServiceIds_perm (config : ConsulConfig) {checks' : List HealthCheck}
    (hp : checks'.Perm checks) (service : String) :
    ((passingServiceIds config checks').lookup service).map List.toFinset =
      ((passingServiceIds config checks).lookup service).map List.toFinset := by
  have hlisted : (listed config.includeWarning checks').Perm
      (listed config.includeWarning checks) :=
    (List.perm_ext_iff_of_nodup (nodup_listed _ _) (nodup_listed _ _)).mpr
      fun _ => mem_listed_perm hp
  have hservice := hlisted.filter fun t => decide (t.2.1 = service)
  rw [lookup_passingServiceIds, lookup_passingServiceIds]
  dsimp only
  by_cases hnil : (listed config.includeWarning checks).filter
      (fun t => decide (t.2.1 = service)) = []
  · rw [if_pos hnil, if_pos (List.perm_nil.mp (hnil ▸ hservice))]
  · have hnil' : (listed config.includeWarning checks').filter
        (fun t => decide (t.2.1 = service)) ≠ [] := by
      intro h
      exact hnil (List.nil_perm.mp (h ▸ hservice))
    rw [if_neg hnil, if_neg hnil', Option.map_some, Option.map_some]
    exact congrArg some (List.toFinset_eq_of_perm _ _ (hservice.map _))

/-- The passing service ids are as specified exactly when no repeated maintenance prefix makes a
difference. -/
theorem aggregates_iff (config : ConsulConfig) (checks : List HealthCheck) :
    Aggregates config checks ↔ ∀ check ∈ checks, Harmless config.includeWarning checks check := by
  rw [← marked_iff_maintained_iff]
  constructor
  · intro h t hhealthy
    have hlisted := h.listed_iff t
    rw [mem_listed_iff, InService] at hlisted
    simpa only [hhealthy, true_and, not_iff_not] using hlisted
  · intro h
    refine ⟨fun service => ?_, nodup_listed _ _, fun t => ?_,
      fun checks' hp => lookup_passingServiceIds_perm config hp⟩
    · rw [lookup_passingServiceIds]
      dsimp only
      split
      · next hnil => rw [hnil]; rfl
      · rfl
    · rw [mem_listed_iff, InService]
      exact and_congr_right fun hhealthy => not_congr (h t hhealthy)

def passingCheck (node service serviceId : String) : HealthCheck :=
  ⟨node, "service:" ++ serviceId, healthStatusPassing, service, serviceId, ["urlprefix-/"]⟩

/-- The instance whose id begins with the prefix is put out of service. -/
def repeatedChecks : List HealthCheck :=
  [passingCheck "node-1" "web" "_service_maintenance:web-1",
    ⟨"node-1", "_service_maintenance:_service_maintenance:web-1", "critical", "web",
      "_service_maintenance:web-1", []⟩]

/-- It is listed all the same. -/
theorem not_aggregates_repeatedChecks :
    (passingServiceIds {} repeatedChecks).lookup "web" =
        some ["node-1._service_maintenance:web-1"] ∧
      ¬Aggregates {} repeatedChecks := by
  refine ⟨by decide +kernel, fun h => ?_⟩
  have hin : ("node-1", "web", "_service_maintenance:web-1") ∈ listed false repeatedChecks := by
    decide +kernel
  refine ((h.listed_iff _).mp hin).2 ⟨_, List.mem_cons_of_mem _ (List.mem_singleton_self _), ?_⟩
  decide +kernel

end Consul

end SentirumLb
