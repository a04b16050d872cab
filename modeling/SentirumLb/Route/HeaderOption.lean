import SentirumLb.Lib.Headers
import SentirumLb.Lib.Lists
import SentirumLb.Route.Contents
import SentirumLb.Route.WeightBounds

/-! # Header constraints

A `route add` command lists header constraints in `header` options of its opts
clause. Options are keyed by name, so a later `header` option takes the place of
an earlier one, and only the constraints of the last one reach the target.
-/

namespace SentirumLb

open Http

def isHeaderNameChar (c : Char) : Bool := c.isAlphanum || "!#$%&'*+-.^_`|~".toList.contains c

structure HeaderConstraint where
  name : String
  value : String
  name_ne : name ≠ ""
  name_valid : ∀ c ∈ name.toList, isHeaderNameChar c = true
  value_valid : ∀ c ∈ value.toList, c ≠ ',' ∧ c ≠ '"' ∧ Text.isWhitespace c = false

namespace HeaderConstraint

def text (c : HeaderConstraint) : String := c.name ++ ":" ++ c.value

def key (c : HeaderConstraint) : String := Text.toAsciiLowercase c.name

/-- A request has the header with exactly this value. -/
def MetBy (c : HeaderConstraint) (h : Headers) : Prop :=
  ∃ v ∈ h.getAll c.key, v.toStr = some c.value

instance (c : HeaderConstraint) (h : Headers) : Decidable (c.MetBy h) :=
  inferInstanceAs (Decidable (∃ v ∈ h.getAll c.key, v.toStr = some c.value))

def optionText (cs : List HeaderConstraint) : String :=
  "header=" ++ ",".intercalate (cs.map text)

end HeaderConstraint

/-- The readable values of a request; names are looked up in any case. -/
def headerMap (h : Headers) : HeaderMap := fun name =>
  (h.get (Text.toAsciiLowercase name)).bind HeaderValue.toStr

/-! ## From the command to the options -/

namespace RouteParser

def clauseTokens (clauses : List (String × String)) : List String :=
  clauses.flatMap fun c => [c.1, c.2]

section Scan

variable {σ β : Type} {keyword : String → Option (String → σ → σ)} {other : String → σ → σ}

theorem scan_keyword {t : String} {f : String → σ → σ} (hf : keyword t = some f) (v : String)
    (rest : List String) (s : σ) :
    scan keyword other (t :: v :: rest) s = scan keyword other rest (f v s) := by
  rw [scan, hf]

variable (other) in
theorem scan_clauseTokens (φ : σ → β) {clauses : List (String × String)}
    (hclauses : ∀ c ∈ clauses, ∃ f, keyword c.1 = some f ∧ ∀ s, φ (f c.2 s) = φ s)
    (rest : List String) (s : σ) :
    ∃ s', scan keyword other (clauseTokens clauses ++ rest) s = scan keyword other rest s' ∧
      φ s' = φ s := by
  induction clauses generalizing s with
  | nil => exact ⟨s, rfl, rfl⟩
  | cons c clauses ih =>
    obtain ⟨f, hf, hkeep⟩ := hclauses c List.mem_cons_self
    obtain ⟨s', hscan, hs'⟩ := ih (fun d hd => hclauses d (List.mem_cons_of_mem c hd)) (f c.2 s)
    refine ⟨s', ?_, hs'.trans (hkeep s)⟩
    rw [← hscan]
    exact scan_keyword hf c.2 _ s

end Scan

/-- The line is a `route add` command with one opts clause, beside which it may have weight and tags
clauses. -/
def IsAddLine (line clause : String) : Prop :=
  ∃ (service src dst : String) (before after : List (String × String)),
    (∀ c ∈ before ++ after, c.1 = "weight" ∨ c.1 = "tags") ∧
    tokenize line = some (["route", "add", service, src, dst] ++
      (clauseTokens before ++ "opts" :: clause :: clauseTokens after))

variable {W : Type} [WeightText W]

theorem opts_of_isAddLine {line clause : String} (h : IsAddLine line clause) :
    ∃ d : RouteDef W, parseLine line = some d ∧ d.opts = insertOpts clause ∅ := by
  obtain ⟨service, src, dst, before, after, hclauses, htokens⟩ := h
  simp only [parseLine, htokens, List.cons_append, List.nil_append, Option.bind_eq_bind,
    Option.bind_some, if_true, parseRouteAdd]
  generalize hk : (fun t => _ : String → Option (String → RouteDef W → RouteDef W)) = keyword
  have hkeep : ∀ c ∈ before ++ after,
      ∃ f, keyword c.1 = some f ∧ ∀ d, (f c.2 d).opts = d.opts := by
    intro c hc
    subst hk
    rcases hclauses c hc with hname | hname
    · rw [hname]
      exact ⟨_, rfl, fun _ => rfl⟩
    · rw [hname]
      exact ⟨_, rfl, fun _ => rfl⟩
  have hopts : keyword "opts" =
      some fun v d => { d with opts := insertOpts v d.opts } := by
    subst hk
    rfl
  let start : RouteDef W :=
    { cmd := .add, service := service, src := src, dst := dst, weight := 0, tags := [],
      opts := ∅, source := .static }
  obtain ⟨d₁, hscan₁, h₁⟩ := scan_clauseTokens (fun _ d => d) RouteDef.opts
    (fun c hc => hkeep c (List.mem_append_left _ hc)) ("opts" :: clause :: clauseTokens after)
    start
  obtain ⟨d₂, hscan₂, h₂⟩ := scan_clauseTokens (fun _ d => d) RouteDef.opts
    (fun c hc => hkeep c (List.mem_append_right _ hc)) []
    { d₁ with opts := insertOpts clause d₁.opts }
  rw [List.append_nil] at hscan₂
  refine ⟨d₂, ?_, h₂.trans (congrArg (insertOpts clause) h₁)⟩
  rw [hscan₁, scan_keyword hopts, hscan₂]
  rfl

/-! ## From the options to the constraints -/

def isHeaderWord (word : String) : Bool := Text.startsWith word "header="

theorem splitOnce_header (value : String) :
    Text.splitOnce '=' ("header=" ++ value) = some ("header", value) := by
  rw [Text.splitOnce_eq_some_iff]
  exact ⟨by rw [String.toList_append]; rfl, by decide⟩

theorem ne_header_of_not_isHeaderWord {word k v : String} (h : isHeaderWord word = false)
    (hsplit : Text.splitOnce '=' word = some (k, v)) : k ≠ "header" := by
  rintro rfl
  obtain ⟨hword, -⟩ := Text.splitOnce_eq_some_iff.mp hsplit
  have hstart : Text.startsWith word "header=" = true := by
    rw [Text.startsWith_iff, hword]
    exact ⟨v.toList, rfl⟩
  rw [isHeaderWord, hstart] at h
  cases h

theorem lookup_header_insertWords {words values : List String}
    (hwords : words.filter isHeaderWord = values.map ("header=" ++ ·)) (opts : Opts) :
    (words.foldl (fun opts pair =>
      match Text.splitOnce '=' pair with
      | some (k, v) => AList.insert k v opts
      | none => opts) opts).lookup "header" = values.getLast?.or (opts.lookup "header") := by
  induction words generalizing values opts with
  | nil =>
    rw [List.filter_nil, eq_comm, List.map_eq_nil_iff] at hwords
    rw [hwords]
    rfl
  | cons word words ih =>
    rw [List.foldl_cons]
    cases hword : isHeaderWord word with
    | false =>
      rw [List.filter_cons_of_neg (by simp [hword])] at hwords
      rw [ih hwords]
      split
      · next k v hsplit =>
        rw [AList.lookup_insert_ne (ne_header_of_not_isHeaderWord hword hsplit).symm]
      · rfl
    | true =>
      rw [List.filter_cons_of_pos hword] at hwords
      obtain ⟨value, rest, rfl, rfl, hrest⟩ : ∃ value rest, values = value :: rest ∧
          word = "header=" ++ value ∧ words.filter isHeaderWord = rest.map ("header=" ++ ·) := by
        cases values with
        | nil => cases hwords
        | cons value rest =>
          injection hwords with hhead htail
          exact ⟨value, rest, rfl, hhead, htail⟩
      rw [ih hrest, splitOnce_header]
      dsimp only
      rw [AList.lookup_insert]
      rw [List.getLast?_cons]
      cases rest.getLast? <;> rfl

end RouteParser

namespace HeaderConstraint

theorem isHeaderNameChar_ne_colon {c : Char} (h : isHeaderNameChar c = true) : c ≠ ':' := by
  rintro rfl
  exact absurd h (by decide)

theorem isWhitespace_eq_false_of_isHeaderNameChar {c : Char} (h : isHeaderNameChar c = true) :
    Text.isWhitespace c = false := by
  rw [isHeaderNameChar, Bool.or_eq_true] at h
  rcases h with h | h
  · exact Text.isWhitespace_eq_false_of_isAlphanum h
  · have hall : "!#$%&'*+-.^_`|~".toList.all (fun c => !Text.isWhitespace c) = true := by
      decide +kernel
    simpa using List.all_eq_true.mp hall c (List.contains_iff_mem.mp h)

theorem mem_text {c : HeaderConstraint} {x : Char} :
    x ∈ c.text.toList ↔ x ∈ c.name.toList ∨ x = ':' ∨ x ∈ c.value.toList := by
  rw [text, String.toList_append, String.toList_append, List.mem_append, List.mem_append,
    or_assoc]
  simp

theorem trim_text (c : HeaderConstraint) : Text.trim c.text = c.text := by
  apply Text.trim_eq_self
  intro x hx
  rcases mem_text.mp hx with h | rfl | h
  · exact isWhitespace_eq_false_of_isHeaderNameChar (c.name_valid x h)
  · decide
  · exact (c.value_valid x h).2.2

theorem splitOnce_text (c : HeaderConstraint) :
    Text.splitOnce ':' c.text = some (c.name, c.value) := by
  rw [Text.splitOnce_eq_some_iff, text, String.toList_append, String.toList_append]
  refine ⟨by simp, fun hmem => ?_⟩
  exact isHeaderNameChar_ne_colon (c.name_valid ':' hmem) rfl

theorem comma_not_mem_text (c : HeaderConstraint) : ',' ∉ c.text.toList := by
  rw [mem_text]
  rintro (h | h | h)
  · exact absurd (c.name_valid ',' h) (by decide)
  · cases h
  · exact (c.value_valid ',' h).1 rfl

theorem read_optionText (cs : List HeaderConstraint) :
    (Text.split ',' (",".intercalate (cs.map text))).filterMap
        (fun pair => Text.splitOnce ':' (Text.trim pair)) =
      cs.map fun c => (c.name, c.value) := by
  by_cases hcs : cs = []
  · subst hcs
    decide +kernel
  · have hsplit : Text.split ',' (",".intercalate (cs.map text)) = cs.map text := by
      apply Text.split_intercalate
      · intro s hs
        obtain ⟨c, -, rfl⟩ := List.mem_map.mp hs
        exact comma_not_mem_text c
      · simpa using hcs
    have hread : (fun pair => Text.splitOnce ':' (Text.trim pair)) ∘ text =
        some ∘ fun c => (c.name, c.value) := by
      ext1 c
      rw [Function.comp_apply, trim_text, splitOnce_text, Function.comp_apply]
    rw [hsplit, List.filterMap_map, hread, List.filterMap_eq_map]

/-- The value is visible ASCII, so that a request can have it. -/
def Readable (c : HeaderConstraint) : Prop := ∀ x ∈ c.value.toList, 32 ≤ x.toNat ∧ x.toNat < 127

def Same (c d : HeaderConstraint) : Prop := c.key = d.key ∧ c.value = d.value

/-- Some request can meet all of the constraints. -/
structure Consistent (cs : List HeaderConstraint) : Prop where
  readable : ∀ c ∈ cs, c.Readable
  unique : ∀ c ∈ cs, ∀ d ∈ cs, c.key = d.key → c.value = d.value

/-- No name has two values. -/
def OneValueEach (h : Headers) : Prop := ∀ name, (h.getAll name).length ≤ 1

theorem metBy_congr {c d : HeaderConstraint} (h : c.Same d) (hd : Headers) :
    c.MetBy hd ↔ d.MetBy hd := by
  rw [MetBy, MetBy, h.1, h.2]

theorem readable_of_metBy {c : HeaderConstraint} {h : Headers} (hmet : c.MetBy h) :
    c.Readable := by
  obtain ⟨v, -, hv⟩ := hmet
  intro x hx
  rcases HeaderValue.isVisible_of_toStr hv x hx with hvisible | rfl
  · exact hvisible
  · exact absurd (c.value_valid '\t' hx).2.2 (by decide)

theorem headerMap_eq_iff {h : Headers} (hone : OneValueEach h) (c : HeaderConstraint) :
    headerMap h c.name = some c.value ↔ c.MetBy h := by
  have hlen := hone c.key
  unfold headerMap Headers.get MetBy key at *
  generalize h.getAll (Text.toAsciiLowercase c.name) = values at hlen ⊢
  match values, hlen with
  | [], _ => simp
  | [v], _ => simp

theorem consistent_of_metBy {cs : List HeaderConstraint} {h : Headers} (hone : OneValueEach h)
    (hmet : ∀ c ∈ cs, c.MetBy h) : Consistent cs where
  readable c hc := readable_of_metBy (hmet c hc)
  unique c hc d hd hkey := by
    have hc' := (headerMap_eq_iff hone c).mpr (hmet c hc)
    have hd' := (headerMap_eq_iff hone d).mpr (hmet d hd)
    have hsame : headerMap h c.name = headerMap h d.name :=
      congrArg (fun name => (h.get name).bind HeaderValue.toStr) hkey
    rw [hsame, hd'] at hc'
    exact (Option.some.inj hc').symm

def witnessHeaders (cs : List HeaderConstraint) : Headers :=
  (cs.map fun c => (c.key, (⟨Text.bytes c.value⟩ : HeaderValue))).dedup

theorem mem_getAll_witnessHeaders {cs : List HeaderConstraint} {name : String} {v : HeaderValue} :
    v ∈ (witnessHeaders cs).getAll name ↔ ∃ c ∈ cs, c.key = name ∧ v = ⟨Text.bytes c.value⟩ := by
  simp only [witnessHeaders, Headers.getAll, List.mem_map, List.mem_filter, List.mem_dedup,
    beq_iff_eq]
  constructor
  · rintro ⟨_, ⟨⟨c, hc, rfl⟩, hname⟩, rfl⟩
    exact ⟨c, hc, hname, rfl⟩
  · rintro ⟨c, hc, hname, rfl⟩
    exact ⟨_, ⟨⟨c, hc, rfl⟩, hname⟩, rfl⟩

theorem oneValueEach_witnessHeaders {cs : List HeaderConstraint} (h : Consistent cs) :
    OneValueEach (witnessHeaders cs) := by
  intro name
  have hnodup : ((witnessHeaders cs).filter (·.1 == name)).Nodup :=
    (List.nodup_dedup _).filter _
  have heq : ∀ e ∈ (witnessHeaders cs).filter (·.1 == name),
      ∀ f ∈ (witnessHeaders cs).filter (·.1 == name), e = f := by
    intro e he f hf
    simp only [witnessHeaders, List.mem_filter, List.mem_dedup, List.mem_map, beq_iff_eq] at he hf
    obtain ⟨⟨c, hc, rfl⟩, hcname⟩ := he
    obtain ⟨⟨d, hd, rfl⟩, hdname⟩ := hf
    have hkey : c.key = d.key := hcname.trans hdname.symm
    rw [hkey, h.unique c hc d hd hkey]
  rw [Headers.getAll, List.length_map]
  exact Lists.length_le_one_of_nodup hnodup heq

theorem metBy_witnessHeaders {cs : List HeaderConstraint} (h : Consistent cs)
    {c : HeaderConstraint} : c.MetBy (witnessHeaders cs) ↔ ∃ d ∈ cs, d.Same c := by
  unfold MetBy
  constructor
  · rintro ⟨v, hmem, hv⟩
    obtain ⟨d, hd, hkey, rfl⟩ := mem_getAll_witnessHeaders.mp hmem
    rw [HeaderValue.toStr_bytes (h.readable d hd), Option.some.injEq] at hv
    exact ⟨d, hd, hkey, hv⟩
  · rintro ⟨d, hd, hkey, hvalue⟩
    refine ⟨_, mem_getAll_witnessHeaders.mpr ⟨d, hd, hkey, rfl⟩, ?_⟩
    rw [HeaderValue.toStr_bytes (h.readable d hd), hvalue]

end HeaderConstraint

/-! ## What is enforced -/

open HeaderConstraint

variable {W : Type}

/-- The target is matched by the requests that meet all of the constraints, and by no others. -/
def Target.Enforces (t : Target W) (cs : List HeaderConstraint) : Prop :=
  ∀ h, OneValueEach h → (t.matchesHeaders (headerMap h) = true ↔ ∀ c ∈ cs, c.MetBy h)

theorem headerMatches_of_option {t : Target W} {groups : List (List HeaderConstraint)}
    (h : t.opts.lookup "header" =
      (groups.map fun cs => ",".intercalate (cs.map text)).getLast?) :
    t.headerMatches = (groups.getLast?.getD []).map fun c => (c.name, c.value) := by
  rw [List.getLast?_map] at h
  unfold Target.headerMatches
  rw [h]
  cases groups.getLast? with
  | none => rfl
  | some cs => exact read_optionText cs

theorem matchesHeaders_iff {t : Target W} {cs : List HeaderConstraint}
    (ht : t.headerMatches = cs.map fun c => (c.name, c.value)) {h : Headers}
    (hone : OneValueEach h) :
    t.matchesHeaders (headerMap h) = true ↔ ∀ c ∈ cs, c.MetBy h := by
  simp only [Target.matchesHeaders, ht, List.all_eq_true, List.forall_mem_map, beq_iff_eq,
    headerMap_eq_iff hone]

/-- A target that reads some of the constraints enforces all of them just when those it reads
contradict each other or name all that are asked. -/
theorem enforces_iff_of_headerMatches {t : Target W} {read cs : List HeaderConstraint}
    (ht : t.headerMatches = read.map fun c => (c.name, c.value)) (hsub : read ⊆ cs) :
    t.Enforces cs ↔ (Consistent read → ∀ c ∈ cs, ∃ d ∈ read, d.Same c) := by
  constructor
  · intro henforces hread c hc
    have hone := oneValueEach_witnessHeaders hread
    have hmet : ∀ d ∈ read, d.MetBy (witnessHeaders read) :=
      fun d hd => (metBy_witnessHeaders hread).mpr ⟨d, hd, rfl, rfl⟩
    have hall := (henforces _ hone).mp ((matchesHeaders_iff ht hone).mpr hmet)
    exact (metBy_witnessHeaders hread).mp (hall c hc)
  · intro hcond h hone
    rw [matchesHeaders_iff ht hone]
    constructor
    · intro hmet c hc
      obtain ⟨d, hd, hsame⟩ := hcond (consistent_of_metBy hone hmet) c hc
      exact (metBy_congr hsame h).mp (hmet d hd)
    · intro hmet c hc
      exact hmet c (hsub hc)

section Commands

variable [Platform] [WeightText W]

theorem targetOf_opts (shared : SharedRefs) (d : RouteDef W) :
    (Table.targetOf shared d).opts = d.opts :=
  Target.map_preParse (·.opts) (fun _ _ _ _ _ => rfl) _

/-- All constraints that an opts clause lists are enforced just when those of the last `header`
option name them all, or contradict each other. -/
theorem enforces_iff {line clause : String} (hline : RouteParser.IsAddLine line clause)
    {groups : List (List HeaderConstraint)}
    (hgroups : (Text.splitWhitespace clause).filter RouteParser.isHeaderWord =
      groups.map optionText) (shared : SharedRefs) :
    ∃ d : RouteDef W, RouteParser.parseLine line = some d ∧
      ((Table.targetOf shared d).Enforces groups.flatten ↔
        (Consistent (groups.getLast?.getD []) →
          ∀ c ∈ groups.flatten, ∃ e ∈ groups.getLast?.getD [], e.Same c)) := by
  obtain ⟨d, hd, hopts⟩ := RouteParser.opts_of_isAddLine (W := W) hline
  refine ⟨d, hd, enforces_iff_of_headerMatches (headerMatches_of_option ?_) ?_⟩
  · have hwords : (Text.splitWhitespace clause).filter RouteParser.isHeaderWord =
        (groups.map fun cs => ",".intercalate (cs.map text)).map ("header=" ++ ·) := by
      rw [hgroups, List.map_map]
      rfl
    rw [targetOf_opts, hopts]
    exact (RouteParser.lookup_header_insertWords hwords ∅).trans Option.or_none
  · intro c hc
    cases hlast : groups.getLast? with
    | none => simp [hlast] at hc
    | some cs =>
      rw [hlast, Option.getD_some] at hc
      exact List.mem_flatten.mpr ⟨cs, List.mem_of_getLast? hlast, hc⟩

end Commands

section Examples

attribute [local instance] Platform.plain RouteParser.wholeWeights

def envConstraint : HeaderConstraint :=
  ⟨"X-Env", "prod", by decide, List.all_eq_true.mp (by decide +kernel),
    by simp [Text.isWhitespace]⟩

def versionConstraint : HeaderConstraint :=
  ⟨"X-Version", "v2", by decide, List.all_eq_true.mp (by decide +kernel),
    by simp [Text.isWhitespace]⟩

def twoOptionLine : String := "route add canary api.example.com/ http://10.0.0.2:8080/ " ++
  "opts \"header=X-Env:prod header=X-Version:v2\""

def oneOptionLine : String := "route add canary api.example.com/ http://10.0.0.2:8080/ " ++
  "weight 1 opts \"strip=/api header=X-Env:prod,X-Version:v2\""

/-- Of two options the first is dropped, and a request without its header is let through. -/
theorem not_enforces_twoOptionLine :
    RouteParser.IsAddLine twoOptionLine "header=X-Env:prod header=X-Version:v2" ∧
      (Text.splitWhitespace "header=X-Env:prod header=X-Version:v2").filter
          RouteParser.isHeaderWord =
        [[envConstraint], [versionConstraint]].map optionText ∧
      ∃ d : RouteDef ℚ, RouteParser.parseLine twoOptionLine = some d ∧
        ¬(Table.targetOf default d).Enforces [envConstraint, versionConstraint] := by
  refine ⟨⟨"canary", "api.example.com/", "http://10.0.0.2:8080/", [], [], by simp,
    by decide +kernel⟩, by decide +kernel, ?_⟩
  let request : Headers := [("x-version", ⟨Text.bytes "v2"⟩)]
  have hmatch : (RouteParser.parseLine twoOptionLine).map (fun d : RouteDef ℚ =>
      (Table.targetOf default d).matchesHeaders (headerMap request)) = some true := by
    decide +kernel
  obtain ⟨d, hd, htrue⟩ := Option.map_eq_some_iff.mp hmatch
  refine ⟨d, hd, fun henforces => ?_⟩
  have hone : OneValueEach request := by
    intro name
    rw [Headers.getAll, List.length_map]
    exact List.length_filter_le _ _
  have hmet := (henforces request hone).mp htrue envConstraint (by simp)
  exact absurd hmet (by decide +kernel)

/-- In one option both are enforced. -/
theorem enforces_oneOptionLine :
    ∃ d : RouteDef ℚ, RouteParser.parseLine oneOptionLine = some d ∧
      (Table.targetOf default d).Enforces [envConstraint, versionConstraint] := by
  have hline : RouteParser.IsAddLine oneOptionLine
      "strip=/api header=X-Env:prod,X-Version:v2" :=
    ⟨"canary", "api.example.com/", "http://10.0.0.2:8080/", [("weight", "1")], [], by simp,
      by decide +kernel⟩
  have hgroups : (Text.splitWhitespace "strip=/api header=X-Env:prod,X-Version:v2").filter
      RouteParser.isHeaderWord = [[envConstraint, versionConstraint]].map optionText := by
    decide +kernel
  obtain ⟨d, hd, hiff⟩ := enforces_iff (W := ℚ) hline hgroups default
  exact ⟨d, hd, hiff.mpr fun _ c hc => ⟨c, hc, rfl, rfl⟩⟩

end Examples

end SentirumLb
