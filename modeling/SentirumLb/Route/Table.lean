import SentirumLb.Route.Weights

/-! # The routing table

Routes are kept in one bucket per host. Definitions are replayed into the
table in order: `add` creates or extends a route, `del` removes targets in its
scope and drops what it empties, `weight` fixes the weight of matching targets.
Finalizing sorts every bucket, most specific path first, and collects one
target per URL for health checking.
-/

namespace SentirumLb

inductive MatcherKind where
  | pathPrefix
  | caseInsensitivePrefix
  | glob
  | exact
  deriving DecidableEq, Repr

def MatcherKind.fromConfig (s : String) : MatcherKind :=
  if s = "prefix" ∨ s = "" then .pathPrefix
  else if s = "iprefix" then .caseInsensitivePrefix
  else if s = "glob" then .glob
  else if s = "exact" then .exact
  else .pathPrefix

structure Table (W : Type) where
  routes : AssocMap String (List (Route W))
  allTargetsCache : List (Arc (Target W))

variable {W : Type}

def startsWithIgnoreAsciiCase (haystack needle : String) : Bool :=
  (Text.bytesPrefix haystack needle.utf8ByteSize).any (Text.eqIgnoreAsciiCase · needle)

/-- The match expression that both lookup loops carry. -/
def Route.pathMatches (m : MatcherKind) (path : String) (r : Route W) : Bool :=
  match m with
  | .pathPrefix => Text.startsWith path r.path || r.path == "/"
  | .caseInsensitivePrefix => startsWithIgnoreAsciiCase path r.path || r.path == "/"
  | .glob => r.path == "/" || (r.glob.map fun g => g path).getD false
  | .exact => path == r.path

/-- Routes with longer paths come first, and of equally long ones the greater path. -/
def Route.SortsBefore (a b : Route W) : Prop :=
  b.path.utf8ByteSize < a.path.utf8ByteSize ∨
    b.path.utf8ByteSize = a.path.utf8ByteSize ∧ b.path ≤ a.path

instance : DecidableRel (Route.SortsBefore (W := W)) := fun a b =>
  inferInstanceAs (Decidable (b.path.utf8ByteSize < a.path.utf8ByteSize ∨
    b.path.utf8ByteSize = a.path.utf8ByteSize ∧ b.path ≤ a.path))

namespace Table

def new : Table W := ⟨∅, []⟩

def bucket (t : Table W) (host : String) : List (Route W) := (t.routes.lookup host).getD []

/-! ## Lookup -/

/-- The bucket key of a request host; lowercasing is skipped when there is nothing to lowercase. -/
def hostKey (host : String) : String :=
  if host.toList.any Char.isUpper then Text.toAsciiLowercase host else host

def collectMatchingRoutes (path : String) (m : MatcherKind) (results : List (Route W)) :
    List (Route W) → List (Route W)
  | [] => results
  | r :: rs =>
      if r.pathMatches m path && !r.targets.isEmpty then
        collectMatchingRoutes path m (results ++ [r]) rs
      else collectMatchingRoutes path m results rs

def findMatchingRoute (path : String) (m : MatcherKind) : List (Route W) → Option (Route W)
  | [] => none
  | r :: rs =>
      if r.pathMatches m path && !r.targets.isEmpty then some r else findMatchingRoute path m rs

def lookupRoute (t : Table W) (host path : String) (m : MatcherKind) : Option (Route W) :=
  ((t.routes.lookup (hostKey host)).bind (findMatchingRoute path m)) <|>
    ((t.routes.lookup "").bind (findMatchingRoute path m))

def matchingRoutes (t : Table W) (host path : String) (m : MatcherKind) : List (Route W) :=
  let results := match t.routes.lookup (hostKey host) with
    | some routes => collectMatchingRoutes path m [] routes
    | none => []
  if hostKey host ≠ "" then
    match t.routes.lookup "" with
    | some routes => collectMatchingRoutes path m results routes
    | none => results
  else results

/-! ## Commands -/

section Commands

variable [Platform] [WeightArith W]

def addToBucket (host path : String) (target : Target W) (rr : Ref) :
    List (Route W) → List (Route W)
  | [] => [((Route.new host path rr).addTarget target).computeWeights]
  | r :: rs =>
      if r.path = path then (r.addTarget target).computeWeights :: rs
      else r :: addToBucket host path target rr rs

/-- The target of an `add`, with the shared objects it is given. -/
def targetOf (shared : SharedRefs) (d : RouteDef W) : Target W :=
  Target.preParse
    { toSharedRefs := shared
      service := d.service
      url := d.dst
      fixedWeight := d.weight
      weight := 0
      tags := d.tags
      opts := d.opts
      source := d.source
      parsedHost := none
      parsedPort := none
      parsedTls := false
      parsedProtocol := .http }

def applyAdd (shared : SharedRefs) (rr : Ref) (d : RouteDef W) (t : Table W) : Table W :=
  { t with
    routes := t.routes.upsert d.host [] (addToBucket d.host d.path (targetOf shared d) rr) }

omit [Platform] in
/-- Remove matching targets from the routes with the path, and drop the routes left empty. -/
def delFromBucket (d : RouteDef W) (path : Option String) (rs : List (Route W)) :
    List (Route W) :=
  (rs.map fun r =>
    if path.all (r.path == ·) then
      (r.removeTargets d.service d.tags d.delUrl).computeWeights
    else r).filter fun r => !r.targets.isEmpty

omit [Platform] in
def delFromHost (d : RouteDef W) (t : Table W) : Table W :=
  let routes := t.routes.modify d.host (delFromBucket d d.delPath)
  { t with
    routes := if (routes.lookup d.host).any List.isEmpty then routes.erase d.host else routes }

omit [Platform] in
def delFromAll (d : RouteDef W) (t : Table W) : Table W :=
  { t with
    routes := (t.routes.mapVals fun _ rs => delFromBucket d none rs).retain
      fun _ rs => !rs.isEmpty }

omit [Platform] in
def applyDel (d : RouteDef W) (t : Table W) : Table W :=
  if d.tags ≠ [] then
    if d.host ≠ "" ∨ d.delPath.isSome then delFromHost d t else delFromAll d t
  else delFromHost d t

omit [Platform] [WeightArith W] in
def weightMatches (d : RouteDef W) (t : Target W) : Bool :=
  (d.service.isEmpty || t.service == d.service) &&
    (d.tags.isEmpty || d.tags.all (t.tags.contains ·))

omit [Platform] in
/-- Split the weight evenly over the matching targets; without any the route is left alone. -/
def weightRoute (d : RouteDef W) (r : Route W) : Route W :=
  let matchCount := r.targets.countP fun t => weightMatches d t.val
  if matchCount = 0 then r
  else
    let fixedWeight := d.weight / (matchCount : W)
    Route.computeWeights
      { r with
        targets := r.targets.map fun t =>
          if weightMatches d t.val then ⟨t.addr, { t.val with fixedWeight := fixedWeight }⟩
          else t }

omit [Platform] in
def applyWeight (d : RouteDef W) (t : Table W) : Table W :=
  { t with
    routes := t.routes.modify d.host fun rs =>
      rs.map fun r => if r.path = d.path then weightRoute d r else r }

def apply (shared : SharedRefs) (rr : Ref) (d : RouteDef W) (t : Table W) : Table W :=
  match d.cmd with
  | .add => t.applyAdd shared rr d
  | .del => t.applyDel d
  | .weight => t.applyWeight d

end Commands

/-! ## Building -/

def uniqueByUrl (seen : List String) : List (Arc (Target W)) → List (Arc (Target W))
  | [] => []
  | t :: ts =>
      if seen.contains t.val.url then uniqueByUrl seen ts
      else t :: uniqueByUrl (t.val.url :: seen) ts

def targets (t : Table W) : List (Arc (Target W)) :=
  t.routes.vals.flatten.flatMap (·.targets)

def finalize (t : Table W) : Table W :=
  let sorted : Table W :=
    { t with routes := t.routes.mapVals fun _ rs => rs.insertionSort Route.SortsBefore }
  { sorted with allTargetsCache := uniqueByUrl [] sorted.targets }

def allTargets (t : Table W) : List (Arc (Target W)) := t.allTargetsCache

section Building

variable [Platform] [WeightArith W]

def applyFresh (st : Ref × Table W) (d : RouteDef W) : Ref × Table W :=
  let n := st.1
  (n + 6, st.2.apply ⟨n, n + 1, n + 2, n + 3, n + 4⟩ (n + 5) d)

/-- Build a table from route definitions, giving every target shared objects of its own. -/
def fromDefinitions (defs : List (RouteDef W)) : Table W :=
  finalize (defs.foldl applyFresh (0, new)).2

inductive Replay : Table W → List (RouteDef W) → Table W → Prop where
  | nil (t : Table W) : Replay t [] t
  | cons {t t' : Table W} {d : RouteDef W} {ds : List (RouteDef W)} (shared : SharedRefs)
      (rr : Ref) : Replay (t.apply shared rr d) ds t' → Replay t (d :: ds) t'

theorem foldl_applyFresh_replay (defs : List (RouteDef W)) (st : Ref × Table W) :
    Replay st.2 defs (defs.foldl applyFresh st).2 := by
  induction defs generalizing st with
  | nil => exact .nil _
  | cons d ds ih => exact .cons _ _ (ih (applyFresh st d))

/-- What every command keeps holds of every table that commands lead to. -/
theorem Replay.invariant {I : Table W → Prop} (hstep : ∀ t sh rr d, I t → I (t.apply sh rr d))
    {t t' : Table W} {ds : List (RouteDef W)} (h : Replay t ds t') (h0 : I t) : I t' := by
  induction h with
  | nil => exact h0
  | cons sh rr _ ih => exact ih (hstep _ sh rr _ h0)

end Building

end Table

end SentirumLb
