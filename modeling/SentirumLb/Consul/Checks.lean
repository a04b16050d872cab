import SentirumLb.Route.Definition

/-! # From health checks to routes

A snapshot of the health checks decides which instances are passing; the
catalog says where they are and which routes their tags ask for. The catalog is
asked once for every service, and the lookups complete in any order. One lookup
that fails is enough to give up the snapshot for this time.
-/

namespace SentirumLb

namespace Consul

structure HealthCheck where
  node : String
  checkId : String
  status : String
  serviceName : String
  serviceId : String
  serviceTags : List String
  deriving DecidableEq

structure CatalogService where
  id : String
  node : String
  address : String
  serviceAddress : String
  servicePort : UInt16
  serviceTags : List String

structure ConsulConfig where
  tagPrefix : String := "urlprefix-"
  serviceWhitelist : List String := []
  serviceBlacklist : List String := []
  includeWarning : Bool := false

def healthStatusPassing : String := "passing"

def healthStatusWarning : String := "warning"

class ParseWeight (W : Type) where
  parse : String → Option W

/-! ## Passing services -/

def isServiceCheck (check : HealthCheck) : Bool :=
  check.serviceId != "" && check.checkId != "serfHealth" &&
    check.checkId != "_node_maintenance" &&
    !Text.startsWith check.checkId "_service_maintenance:"

structure Health where
  services : AssocMap (String × String × String) (List HealthCheck)
  nodeDown : AssocMap String Bool
  nodeMaintenance : AssocMap String Bool
  serviceMaintenance : AssocMap (String × String) Bool

def Health.empty : Health := ⟨∅, ∅, ∅, ∅⟩

def Health.add (h : Health) (check : HealthCheck) : Health :=
  if check.checkId = "serfHealth" ∧ check.status = "critical" then
    { h with nodeDown := AList.insert check.node true h.nodeDown }
  else if check.checkId = "_node_maintenance" then
    { h with nodeMaintenance := AList.insert check.node true h.nodeMaintenance }
  else if Text.startsWith check.checkId "_service_maintenance:" ∧ check.status = "critical" then
    let serviceId := Text.trimStartMatches check.checkId "_service_maintenance:"
    { h with
      serviceMaintenance := AList.insert (check.node, serviceId) true h.serviceMaintenance }
  else if isServiceCheck check then
    { h with
      services := h.services.upsert (check.node, check.serviceName, check.serviceId) []
        (· ++ [check]) }
  else h

/-- The instance takes requests: neither it nor its node is out of service, and all of its checks
are healthy. -/
def Health.passes (h : Health) (includeWarning : Bool) (node serviceId : String)
    (checks : List HealthCheck) : Bool :=
  let out := (h.nodeDown.lookup node).getD false || (h.nodeMaintenance.lookup node).getD false ||
    (h.serviceMaintenance.lookup (node, serviceId)).getD false
  let passing := checks.countP fun check => check.status == healthStatusPassing
  let warning := checks.countP fun check => check.status == healthStatusWarning
  let healthy := if includeWarning then passing + warning else passing
  !out && !(healthy == 0 || checks.length != healthy)

/-- Get passing service IDs grouped by service name using Fabio-like health aggregation. -/
def passingServiceIds (config : ConsulConfig) (checks : List HealthCheck) :
    AssocMap String (List String) :=
  let h := checks.foldl Health.add .empty
  h.services.entries.foldl (fun result e =>
    let (node, serviceName, serviceId) := e.1
    if h.passes config.includeWarning node serviceId e.2 then
      result.upsert serviceName [] (· ++ [node ++ "." ++ serviceId])
    else result) ∅

def filterServices (config : ConsulConfig) (services : AssocMap String (List String)) :
    AssocMap String (List String) :=
  if config.serviceWhitelist ≠ [] then
    services.retain fun name _ => config.serviceWhitelist.any (· == name)
  else services.retain fun name _ => !config.serviceBlacklist.any (· == name)

/-! ## Tags -/

def parseUrlprefixTag (tag tagPrefix : String) : Option (String × String) :=
  (Text.stripPrefix (Text.trim tag) tagPrefix).map fun rest =>
    let tag := Text.trim rest
    let route := Text.trim (Text.before ' ' tag)
    let opts := Text.trim ((Text.after ' ' tag).getD "")
    if Text.startsWith route ":" then (route, opts)
    else
      match Text.splitOnce '/' route with
      | none => (Text.toAsciiLowercase route, opts)
      | some (host, path) => (Text.toAsciiLowercase host ++ "/" ++ path, opts)

def parseOpts (rawOpts : String) : Opts :=
  (Text.splitWhitespace rawOpts).foldl (fun opts opt =>
    match Text.splitOnce '=' opt with
    | some (k, v) => AList.insert k v opts
    | none => opts) ∅

variable {W : Type} [Zero W] [ParseWeight W]

def parseTag (config : ConsulConfig) (tag address : String) (port : UInt16) (service : String) :
    Option (RouteDef W) :=
  (parseUrlprefixTag tag config.tagPrefix).map fun (src, rawOpts) =>
    let opts := parseOpts rawOpts
    let scheme := match opts.lookup "proto" with
      | some "https" => "https"
      | some "grpc" => "grpc"
      | some "grpcs" => "grpcs"
      | some "tcp" => "tcp"
      | _ => "http"
    let hostPort := address ++ ":" ++ toString port.toNat
    { cmd := .add
      service := service
      src := src
      dst := if scheme = "tcp" then "tcp://" ++ hostPort else scheme ++ "://" ++ hostPort ++ "/"
      weight := ((opts.lookup "weight").bind ParseWeight.parse).getD 0
      tags := []
      opts := opts.retain fun k _ => k != "weight"
      source := .consulService }

/-! ## Snapshots -/

def isRelevant (tagPrefix : String) (check : HealthCheck) : Bool :=
  check.checkId == "serfHealth" || check.checkId == "_node_maintenance" ||
    Text.startsWith check.checkId "_service_maintenance:" ||
    check.serviceTags.any (Text.startsWith · tagPrefix)

/-- The catalog in one attempt: what it answers for a service, and the order in which the lookups
complete. -/
structure Catalog where
  answer : String → Except String (List CatalogService)
  order : List String → List String
  order_perm : ∀ names, (order names).Perm names

def routesOf (config : ConsulConfig) (tagPrefix service : String) (passing : List String)
    (instances : List CatalogService) : List (RouteDef W) :=
  instances.flatMap fun inst =>
    if passing.contains (inst.node ++ "." ++ inst.id) then
      let address := if inst.serviceAddress = "" then inst.address else inst.serviceAddress
      inst.serviceTags.filterMap fun tag =>
        if Text.startsWith tag tagPrefix then parseTag config tag address inst.servicePort service
        else none
    else []

abbrev Lookup := String × Except String (List CatalogService)

/-- The lookups of the services, in the order in which they complete. -/
def Catalog.lookups (catalog : Catalog) (names : List String) : List Lookup :=
  (catalog.order names).map fun name => (name, catalog.answer name)

def lookupFailure : Lookup → Option String
  | (_, .ok _) => none
  | (name, .error e) => some (name ++ ": " ++ e)

def lookupRoutes (config : ConsulConfig) (tagPrefix : String)
    (passing : AssocMap String (List String)) : Lookup → List (RouteDef W)
  | (name, .ok instances) =>
      routesOf config tagPrefix name ((passing.lookup name).getD []) instances
  | (_, .error _) => []

def passingServices (config : ConsulConfig) (tagPrefix : String) (checks : List HealthCheck) :
    AssocMap String (List String) :=
  filterServices config (passingServiceIds config (checks.filter (isRelevant tagPrefix)))

def processChecks (config : ConsulConfig) (catalog : Catalog) (checks : List HealthCheck)
    (tagPrefix : String) : Except String (List (RouteDef W)) :=
  let passing := passingServices config tagPrefix checks
  if passing.entries.isEmpty then .ok []
  else
    let results := catalog.lookups passing.keys
    let routes := results.flatMap (lookupRoutes config tagPrefix passing)
    let failures := results.filterMap lookupFailure
    if failures.isEmpty then
      .ok (routes.insertionSort fun a b => b.srcPath ≤ a.srcPath)
    else
      .error ("catalog lookups failed for " ++ ", ".intercalate failures ++
        "; preserving previous service routes")

/-! ## Complete snapshots -/

/-- Every lookup that the snapshot needs succeeds. -/
def Complete (config : ConsulConfig) (catalog : Catalog) (checks : List HealthCheck)
    (tagPrefix : String) : Prop :=
  ∀ name ∈ (passingServices config tagPrefix checks).keys,
    ∃ instances, catalog.answer name = .ok instances

theorem lookupFailure_eq_nil_iff (catalog : Catalog) (names : List String) :
    (catalog.lookups names).filterMap lookupFailure = [] ↔
      ∀ name ∈ names, ∃ instances, catalog.answer name = .ok instances := by
  rw [List.filterMap_eq_nil_iff, Catalog.lookups, List.forall_mem_map]
  constructor
  · intro h name hname
    have hnone := h name ((catalog.order_perm _).mem_iff.mpr hname)
    cases hanswer : catalog.answer name with
    | ok instances => exact ⟨instances, rfl⟩
    | error e => simp [hanswer, lookupFailure] at hnone
  · intro h name hname
    obtain ⟨instances, hanswer⟩ := h name ((catalog.order_perm _).mem_iff.mp hname)
    rw [hanswer]
    rfl

/-- A snapshot is turned into routes just when its lookups all succeed. -/
theorem processChecks_eq_ok_iff (config : ConsulConfig) (catalog : Catalog)
    (checks : List HealthCheck) (tagPrefix : String) :
    (∃ defs : List (RouteDef W), processChecks config catalog checks tagPrefix = .ok defs) ↔
      Complete config catalog checks tagPrefix := by
  unfold processChecks Complete
  dsimp only
  split
  · next hempty =>
    have hkeys : (passingServices config tagPrefix checks).keys = [] := by
      rw [AList.keys, List.isEmpty_iff.mp hempty]
      rfl
    simp [hkeys]
  · rw [← lookupFailure_eq_nil_iff]
    split
    · next h => simpa using h
    · next h => simpa using h

end Consul

end SentirumLb
