import SentirumLb.Consul.KvRoutes
import SentirumLb.Route.Weighting

/-! # Weight lines without a weight

A weight that is missing or invalid is skipped where it is parsed, but the command is
not: it goes on with the weight zero it began with. The targets that it matches lose
their fixed weights, unless they have none.
-/

namespace SentirumLb

variable {W : Type}

namespace Table

section Zero

variable [WeightArith W] {d : RouteDef W}

theorem share_eq_zero (hzero : ∀ n : ℕ, 0 < n → (0 : W) / (n : W) = 0) (hd : d.weight = 0)
    {r : Route W} {a : Arc (Target W)} (ha : a ∈ r.targets) (hm : weightMatches d a.val = true) :
    d.weight / ((r.targets.countP fun a => weightMatches d a.val : ℕ) : W) = 0 := by
  rw [hd]
  exact hzero _ (List.countP_pos_iff.mpr ⟨a, ha, hm⟩)

omit [WeightArith W] in
theorem map_fixedWeight_eq_self {w : W} {p : Target W → Bool} {targets : List (Arc (Target W))}
    (h : ∀ a ∈ targets, p a.val = true → a.val.fixedWeight = w) :
    (targets.map fun t =>
      if p t.val then (⟨t.addr, { t.val with fixedWeight := w }⟩ : Arc (Target W)) else t) =
      targets := by
  conv_rhs => rw [← List.map_id targets]
  apply List.map_congr_left
  intro a ha
  split
  · next hp =>
    rw [← h a ha hp]
    rfl
  · rfl

theorem weightRoute_eq_self_iff (hzero : ∀ n : ℕ, 0 < n → (0 : W) / (n : W) = 0)
    (hd : d.weight = 0) {r : Route W} (hsettled : r.computeWeights = r) :
    weightRoute d r = r ↔
      ∀ a ∈ r.targets, weightMatches d a.val = true → a.val.fixedWeight = 0 := by
  constructor
  · intro h a ha hm
    have hcontents := contents_weightRoute d r
    rw [h, reweigh, countP_contents, Route.contents, List.map_map, eq_comm,
      List.map_inj_left] at hcontents
    have hself := congrArg Target.fixedWeight (hcontents a ha)
    have hm' : weightMatches d a.val.unweighted = true := hm
    simp only [Function.comp, hm', if_true, share_eq_zero hzero hd ha hm] at hself
    exact hself.symm
  · intro h
    unfold weightRoute
    dsimp only
    split
    · rfl
    · rw [map_fixedWeight_eq_self fun a ha hm =>
        (h a ha hm).trans (share_eq_zero hzero hd ha hm).symm]
      exact hsettled

end Zero

end Table

/-! ## Lines without a valid weight -/

namespace RouteParser

section Scan

variable {σ τ : Type} {keyword : String → Option (String → σ → σ)} {other : String → σ → σ}
  {keyword' : String → Option (String → τ → τ)} {other' : String → τ → τ}

/-- Two scans with the same keywords go through the tokens in step. -/
theorem scan_simulation {R : σ → τ → Prop}
    (hnone : ∀ t, keyword t = none ↔ keyword' t = none)
    (hkeyword : ∀ t f g, keyword t = some f → keyword' t = some g →
      ∀ v s s', R s s' → R (f v s) (g v s'))
    (hother : ∀ t s s', R s s' → R (other t s) (other' t s')) (tokens : List String) {s : σ}
    {s' : τ} (h : R s s') : R (scan keyword other tokens s) (scan keyword' other' tokens s') := by
  induction tokens, s using scan.induct keyword other generalizing s' with
  | case1 s => exact h
  | case2 t s hk =>
    have hk' : (keyword' t).isSome = true := by
      rw [Option.isSome_iff_ne_none] at hk ⊢
      exact (hnone t).not.mp hk
    rw [scan, scan, if_pos hk, if_pos hk']
    exact h
  | case3 t s hk =>
    have hk' : ¬(keyword' t).isSome = true := by
      rw [Option.isSome_iff_ne_none] at hk ⊢
      exact (hnone t).not.not.mp hk
    rw [scan, scan, if_neg hk, if_neg hk']
    exact hother t s s' h
  | case4 t v rest s f hf ih =>
    obtain ⟨g, hg⟩ : ∃ g, keyword' t = some g := by
      rw [← Option.ne_none_iff_exists']
      exact (hnone t).not.mp (by simp [hf])
    rw [scan, scan, hf, hg]
    exact ih (hkeyword t f g hf hg v s s' h)
  | case5 t v rest s hf ih =>
    rw [scan, scan, hf, (hnone t).mp hf]
    exact ih (hother t s s' h)

end Scan

def weightClauses (rest : List String) : List String × List String :=
  scan (fun
    | "weight" => some fun v c => (c.1 ++ [v], c.2)
    | "tags" => some fun v c => (c.1, parseTags v)
    | _ => none) (fun _ c => c) rest ([], [])

def weightHead : List String → Option (String × String × List String)
  | first :: second :: rest =>
      some (if second = "weight" then ("", first, second :: rest) else (first, second, rest))
  | _ => none

variable [WeightText W]

def unweighted (service src : String) (tags : List String) : RouteDef W :=
  { cmd := .weight, service := service, src := src, dst := "", weight := 0, tags := tags, opts := ∅,
    source := .static }

/-- The text is not a number, or one that is not finite or out of range. -/
def IsInvalidWeight (W : Type) [WeightText W] (value : String) : Prop :=
  ∀ w : W, Consul.ParseWeight.parse value = some w → ¬IsWeight w

theorem checkedWeight_eq_none_iff {value : String} :
    (checkedWeight value : Option W) = none ↔ IsInvalidWeight W value := by
  simp [checkedWeight, IsInvalidWeight, Option.filter_eq_none_iff]

theorem parseRouteWeight_of_invalid (t₁ t₂ : String) {args : List String}
    (h : ∀ service src rest, weightHead args = some (service, src, rest) →
      ∀ v ∈ (weightClauses rest).1, IsInvalidWeight W v) :
    (parseRouteWeight (t₁ :: t₂ :: args) : Option (RouteDef W)) =
      (weightHead args).map fun p => unweighted p.1 p.2.1 (weightClauses p.2.2).2 := by
  match args with
  | [] => rfl
  | [_] => rfl
  | first :: second :: rest =>
    unfold parseRouteWeight weightHead at *
    dsimp only at h ⊢
    generalize (if second = "weight" then ("", first, second :: rest)
      else (first, second, rest)) = p at h ⊢
    obtain ⟨service, src, rest⟩ := p
    have hinvalid := h service src rest rfl
    rw [Option.map_some, Option.some.injEq]
    refine scan_simulation (R := fun (d : RouteDef W) (c : List String × List String) =>
      (∀ v ∈ c.1, IsInvalidWeight W v) → d = unweighted service src c.2) ?_ ?_
      (fun _ _ _ hR => hR) rest (fun _ => rfl) hinvalid
    · intro t
      split <;> simp
    · intro t f g hf hg v d c hR hall
      split at hf
      · cases hf
        cases hg
        rw [List.forall_mem_append, List.forall_mem_singleton] at hall
        rw [hR hall.1]
        simp only [checkedWeight_eq_none_iff.mpr hall.2, Option.getD_none]
      · cases hf
        cases hg
        rw [hR hall]
        rfl
      · cases hf

/-! ## What such a line does -/

def IsWeightLine (line : String) (args : List String) : Prop :=
  '\n' ∉ line.toList ∧ Text.startsWith (Text.trim line) "#" = false ∧
    Text.startsWith (Text.trim line) "//" = false ∧
    tokenize (Text.trim line) = some ("route" :: "weight" :: args)

def GivesNoWeight (W : Type) [WeightText W] (args : List String) : Prop :=
  ∀ service src rest, weightHead args = some (service, src, rest) →
    ∀ v ∈ (weightClauses rest).1, IsInvalidWeight W v

/-- The line still brings a command, with weight zero, unless it does not say for what. -/
theorem parseRouteCommands_weightLine {line : String} {args : List String}
    (hline : IsWeightLine line args) (hno : GivesNoWeight W args) :
    (parseRouteCommands line : List (RouteDef W)) =
      ((weightHead args).map fun p => unweighted p.1 p.2.1 (weightClauses p.2.2).2).toList := by
  obtain ⟨hnewline, hhash, hslashes, htokens⟩ := hline
  have hne : Text.trim line ≠ "" := by
    intro hempty
    rw [hempty] at htokens
    simp [tokenize] at htokens
  have hcommand : (parseCommand line : Option (RouteDef W)) = parseLine (Text.trim line) := by
    simp [parseCommand, hne, hhash, hslashes]
  rw [Consul.parseRouteCommands_of_not_mem hnewline, hcommand, parseLine, htokens,
    Option.bind_eq_bind, Option.bind_some]
  cases args with
  | nil => rfl
  | cons first args =>
    rw [← parseRouteWeight_of_invalid "route" "weight" hno]
    rfl

/-- The line addresses the target of a route. -/
def Addresses (W : Type) [WeightText W] (args : List String) (host path : String) (u : Target W) :
    Prop :=
  ∃ service src rest, weightHead args = some (service, src, rest) ∧
    host = (unweighted service src [] : RouteDef W).host ∧
    path = (unweighted service src [] : RouteDef W).path ∧
    (service ≠ "" → u.service = service) ∧ ∀ tag ∈ (weightClauses rest).2, tag ∈ u.tags

section Unchanged

variable [Platform]

/-- In every table that commands lead to, a weight line without a valid weight changes nothing just
when no target that it addresses has a fixed weight. -/
theorem weightLine_unchanged_iff (hzero : ∀ n : ℕ, 0 < n → (0 : W) / (n : W) = 0) {t : Table W}
    {defs : List (RouteDef W)} (hr : Table.Replay .new defs t) {line : String} {args : List String}
    (hline : IsWeightLine line args) (hno : GivesNoWeight W args) (shared : SharedRefs) (rr : Ref) :
    (parseRouteCommands line).foldl (fun t d => t.apply shared rr d) t = t ↔
      ∀ host path r, Table.routeAt (t.bucket host) path = some r → ∀ a ∈ r.targets,
        Addresses W args host path a.val → a.val.fixedWeight = 0 := by
  have hok : t.Ok := hr.ok Table.ok_new
  rw [parseRouteCommands_weightLine hline hno]
  cases hhead : weightHead args with
  | none =>
    simp [Addresses, hhead]
  | some p =>
    obtain ⟨service, src, rest⟩ := p
    let d : RouteDef W := unweighted service src (weightClauses rest).2
    have happly : t.apply shared rr d = t.applyWeight d := rfl
    rw [Option.map_some, Option.toList_some, List.foldl_cons, List.foldl_nil]
    change t.apply shared rr d = t ↔ _
    rw [happly, Table.applyWeight_eq_self_iff hok]
    constructor
    · rintro h host path r hroute a ha ⟨_, _, _, hhead', rfl, rfl, hservice, htags⟩
      cases hhead.symm.trans hhead'
      have hsettled := hr.settled Table.settled_new _ r (Table.mem_of_routeAt hroute).1
      exact (Table.weightRoute_eq_self_iff hzero rfl hsettled).mp (h r hroute) a ha
        (Table.weightMatches_iff.mpr ⟨hservice, htags⟩)
    · intro h r hroute
      have hsettled := hr.settled Table.settled_new _ r (Table.mem_of_routeAt hroute).1
      refine (Table.weightRoute_eq_self_iff hzero rfl hsettled).mpr fun a ha hm => ?_
      obtain ⟨hservice, htags⟩ := Table.weightMatches_iff.mp hm
      exact h d.host d.path r hroute a ha
        ⟨service, src, rest, hhead, rfl, rfl, hservice, htags⟩

end Unchanged

section Examples

attribute [local instance] Platform.plain wholeWeights

def addHalf : RouteDef ℚ := { Table.addWeb with weight := 1 / 2 }

def halfTable : Table ℚ := Table.new.apply default 0 addHalf

theorem replay_halfTable : Table.Replay .new [addHalf] halfTable := .cons default 0 (.nil _)

theorem isWeightLine_abc :
    IsWeightLine "route weight web a.example/ weight abc"
      ["web", "a.example/", "weight", "abc"] := by
  unfold IsWeightLine
  decide +kernel

theorem givesNoWeight_abc : GivesNoWeight ℚ ["web", "a.example/", "weight", "abc"] := by
  rintro _ _ _ ⟨⟩ v hv
  obtain rfl : v = "abc" := by simpa [weightClauses, scan] using hv
  rw [← checkedWeight_eq_none_iff]
  decide +kernel

/-- The weight `abc` takes away the fixed weight of a target. -/
theorem not_weightLine_unchanged_abc :
    ∃ (t : Table ℚ) (defs : List (RouteDef ℚ)) (line : String) (args : List String),
      Table.Replay .new defs t ∧ IsWeightLine line args ∧ GivesNoWeight ℚ args ∧
      (parseRouteCommands line).foldl (fun t d => t.apply default 0 d) t ≠ t ∧
      ((((parseRouteCommands line).foldl (fun t d => t.apply default 0 d) t).contents
        "a.example" "/").map (·.fixedWeight), (t.contents "a.example" "/").map (·.fixedWeight)) =
        ([0], [1 / 2]) := by
  have hweights : ((((parseRouteCommands "route weight web a.example/ weight abc").foldl
      (fun t d => t.apply default 0 d) halfTable).contents "a.example" "/").map (·.fixedWeight),
      (halfTable.contents "a.example" "/").map (·.fixedWeight)) = ([0], [1 / 2]) := by
    decide +kernel
  refine ⟨halfTable, [addHalf], "route weight web a.example/ weight abc", _, replay_halfTable,
    isWeightLine_abc, givesNoWeight_abc, fun h => ?_, hweights⟩
  rw [h] at hweights
  exact absurd (congrArg Prod.fst hweights) (by decide +kernel)

/-- The target of `addWeb` has no fixed weight, and keeps none. -/
theorem weightLine_unchanged_abc :
    (parseRouteCommands "route weight web a.example/ weight abc").foldl
      (fun t d => t.apply default 0 d) Table.webTable = Table.webTable := by
  refine (weightLine_unchanged_iff (fun n _ => zero_div _) Table.replay_webTable isWeightLine_abc
    givesNoWeight_abc default 0).mpr ?_
  rintro host path r hroute a ha ⟨service, src, rest, hhead, rfl, rfl, -⟩
  cases hhead
  have hcontents : ∀ u ∈ Table.webTable.contents "a.example" "/", u.fixedWeight = 0 := by
    decide +kernel
  have hof : Table.webTable.contents "a.example" "/" = r.contents := by
    unfold Table.contents Table.contentsOf
    exact congrArg (fun o => (o.map Route.contents).getD []) hroute
  rw [hof] at hcontents
  exact hcontents a.val.unweighted (List.mem_map.mpr ⟨a, ha, rfl⟩)

end Examples

end RouteParser

end SentirumLb
