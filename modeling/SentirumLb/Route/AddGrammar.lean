import SentirumLb.Consul.KvRoutes
import SentirumLb.Lib.Words
import SentirumLb.Route.HeaderOption
import SentirumLb.Route.Tokenize

/-! # The grammar of `route add`

A command is written with its clauses in any order, and is read back as it was meant.
A clause takes the token behind its keyword, so that a value that looks like a keyword
is still a value, and it edits one field of the definition, which no other clause edits.
-/

namespace SentirumLb

namespace RouteParser

/-! ## Commands -/

def IsPlainChar (c : Char) : Prop := c ≠ '"' ∧ Text.isWhitespace c = false

theorem isPlainChar_of_all {s : String}
    (h : s.toList.all (fun c => c != '"' && !Text.isWhitespace c) = true) :
    ∀ c ∈ s.toList, IsPlainChar c := by
  intro c hc
  have hplain := List.all_eq_true.mp h c hc
  simpa [IsPlainChar] using hplain

theorem IsPlainChar.isWordChar {c : Char} (h : IsPlainChar c) : IsWordChar c := by
  refine ⟨h.1, ?_, ?_⟩ <;> rintro rfl <;> exact absurd h.2 (by decide)

theorem IsPlainChar.ne {c : Char} (h : IsPlainChar c) : c ≠ '"' ∧ c ≠ '\n' := by
  refine ⟨h.1, ?_⟩
  rintro rfl
  exact absurd h.2 (by decide)

structure Word where
  text : String
  ne_empty : text ≠ ""
  plain : ∀ c ∈ text.toList, IsPlainChar c

structure WeightClause (W : Type) [WeightText W] extends Word where
  value : W
  parses : Consul.ParseWeight.parse text = some value
  isWeight : IsWeight value

structure TagsClause where
  tags : List String
  ne_nil : tags ≠ []
  trimmed : ∀ tag ∈ tags, tag ≠ "" ∧ Text.trim tag = tag
  plain : ∀ tag ∈ tags, ∀ c ∈ tag.toList, c ≠ ',' ∧ c ≠ '"' ∧ c ≠ '\n'

structure OptsClause where
  pairs : List (String × String)
  ne_nil : pairs ≠ []
  plain : ∀ p ∈ pairs, ∀ c ∈ p.1.toList ++ p.2.toList, IsPlainChar c
  key_plain : ∀ p ∈ pairs, '=' ∉ p.1.toList
  nodup : (pairs.map Prod.fst).Nodup

inductive Clause (W : Type) [WeightText W] where
  | weight (c : WeightClause W)
  | tags (c : TagsClause)
  | opts (c : OptsClause)

variable {W : Type} [WeightText W]

def optText (p : String × String) : String := p.1 ++ "=" ++ p.2

namespace Clause

def keyword : Clause W → String
  | weight _ => "weight"
  | tags _ => "tags"
  | opts _ => "opts"

/-- The value as it reaches the parser. -/
def value : Clause W → String
  | weight c => c.text
  | tags c => ",".intercalate c.tags
  | opts c => " ".intercalate (c.pairs.map optText)

def raw : Clause W → String
  | weight c => c.text
  | tags c => quote (value (W := W) (tags c))
  | opts c => quote (value (W := W) (opts c))

def weight? : Clause W → Option W
  | weight c => some c.value
  | _ => none

def tags? : Clause W → Option (List String)
  | tags c => some c.tags
  | _ => none

def pairs? : Clause W → Option (List (String × String))
  | opts c => some c.pairs
  | _ => none

end Clause

/-- A `route add` command with at most one clause of each kind, in any order. -/
structure AddCommand (W : Type) [WeightText W] where
  service : Word
  src : Word
  dst : Word
  clauses : List (Clause W)
  once : (clauses.map Clause.keyword).Nodup

namespace AddCommand

def line (c : AddCommand W) : String :=
  " ".intercalate (["route", "add", c.service.text, c.src.text, c.dst.text] ++
    c.clauses.flatMap fun clause => [clause.keyword, clause.raw])

def weight (c : AddCommand W) : W := (c.clauses.findSome? Clause.weight?).getD 0

def tags (c : AddCommand W) : List String := (c.clauses.findSome? Clause.tags?).getD []

def pairs (c : AddCommand W) : List (String × String) := (c.clauses.findSome? Clause.pairs?).getD []

/-- The definition says what the command says, and nothing else. -/
structure Describes (c : AddCommand W) (d : RouteDef W) : Prop where
  cmd : d.cmd = .add
  service : d.service = c.service.text
  src : d.src = c.src.text
  dst : d.dst = c.dst.text
  weight : d.weight = c.weight
  tags : d.tags = c.tags
  opts : ∀ k v, d.opts.lookup k = some v ↔ (k, v) ∈ c.pairs
  source : d.source = .static

end AddCommand

/-! ## What a clause edits -/

theorem parseTags_value (c : TagsClause) : parseTags (",".intercalate c.tags) = c.tags := by
  have hsplit : Text.split ',' (",".intercalate c.tags) = c.tags :=
    Text.split_intercalate (fun tag htag hc => (c.plain tag htag ',' hc).1 rfl) c.ne_nil
  have htrim : c.tags.map Text.trim = c.tags := by
    conv_rhs => rw [← List.map_id c.tags]
    exact List.map_congr_left fun tag htag => (c.trimmed tag htag).2
  rw [parseTags, hsplit, htrim, List.filter_eq_self]
  intro tag htag
  simpa using (c.trimmed tag htag).1

theorem splitOnce_optText {p : String × String} (h : '=' ∉ p.1.toList) :
    Text.splitOnce '=' (optText p) = some p := by
  rw [Text.splitOnce_eq_some_iff]
  exact ⟨by simp [optText], h⟩

theorem mem_optText {p : String × String} {c : Char} :
    c ∈ (optText p).toList ↔ c ∈ p.1.toList ++ p.2.toList ∨ c = '=' := by
  simp only [optText, String.toList_append, List.mem_append]
  have hone : c ∈ "=".toList ↔ c = '=' := List.mem_singleton
  rw [hone]
  tauto

theorem optText_ne_empty (p : String × String) : optText p ≠ "" := by
  simp [optText]

def insertPairs (pairs : List (String × String)) (opts : Opts) : Opts :=
  pairs.foldl (fun opts p => AList.insert p.1 p.2 opts) opts

theorem isPlainChar_eq : IsPlainChar '=' := by
  unfold IsPlainChar
  decide

theorem insertOpts_value (c : OptsClause) (opts : Opts) :
    insertOpts (" ".intercalate (c.pairs.map optText)) opts = insertPairs c.pairs opts := by
  have hwords : Text.splitWhitespace (" ".intercalate (c.pairs.map optText)) =
      c.pairs.map optText := by
    have hspace : " " = String.singleton ' ' := rfl
    rw [hspace, Text.splitWhitespace_intercalate (by decide)]
    intro word hword
    obtain ⟨p, hp, rfl⟩ := List.mem_map.mp hword
    refine ⟨optText_ne_empty p, fun x hx => ?_⟩
    rcases mem_optText.mp hx with hx | rfl
    · exact (c.plain p hp x hx).2
    · exact isPlainChar_eq.2
  rw [insertOpts, hwords, List.foldl_map, insertPairs]
  refine List.foldl_ext _ _ _ fun opts p hp => ?_
  rw [splitOnce_optText (c.key_plain p hp)]

theorem lookup_insertPairs {pairs : List (String × String)} (h : (pairs.map Prod.fst).Nodup)
    (opts : Opts) (k v : String) : (insertPairs pairs opts).lookup k = some v ↔
      (k, v) ∈ pairs ∨ k ∉ pairs.map Prod.fst ∧ opts.lookup k = some v := by
  induction pairs generalizing opts with
  | nil => simp [insertPairs]
  | cons p pairs ih =>
    rw [List.map_cons, List.nodup_cons] at h
    have hrest := ih h.2 (AList.insert p.1 p.2 opts)
    rw [insertPairs, List.foldl_cons, ← insertPairs, hrest, List.mem_cons, List.map_cons,
      List.mem_cons, Prod.ext_iff]
    by_cases hk : k = p.1
    · subst hk
      rw [AList.lookup_insert, Option.some.injEq]
      have hnot : (p.1, v) ∉ pairs := fun hmem => h.1 (List.mem_map.mpr ⟨_, hmem, rfl⟩)
      simp [h.1, hnot, eq_comm]
    · rw [AList.lookup_insert_ne hk]
      simp [hk]

namespace Clause

/-- What the clause makes of a definition. -/
def set (d : RouteDef W) : Clause W → RouteDef W
  | weight c => { d with weight := c.value }
  | tags c => { d with tags := c.tags }
  | opts c => { d with opts := insertPairs c.pairs d.opts }

end Clause

section Fold

variable {σ κ ν β : Type} {set : σ → κ → σ} {φ : σ → β} {val : κ → Option ν} {edit : ν → β → β}

theorem foldl_field (hset : ∀ s c, φ (set s c) = (val c).elim (φ s) fun v => edit v (φ s))
    {steps : List κ} (honce : steps.Pairwise fun c c' => val c = none ∨ val c' = none) (s : σ) :
    φ (steps.foldl set s) = (steps.findSome? val).elim (φ s) fun v => edit v (φ s) := by
  induction steps generalizing s with
  | nil => rfl
  | cons c steps ih =>
    rw [List.pairwise_cons] at honce
    rw [List.foldl_cons, ih honce.2, List.findSome?_cons, hset]
    cases hc : val c with
    | none => rfl
    | some v =>
      have hnone : steps.findSome? val = none := by
        rw [List.findSome?_eq_none_iff]
        intro c' hc'
        exact (honce.1 c' hc').resolve_left (by simp [hc])
      rw [hnone]
      rfl

end Fold

namespace AddCommand

theorem pairwise_none {ν : Type} (c : AddCommand W) {val : Clause W → Option ν} {k : String}
    (hval : ∀ clause, val clause ≠ none → clause.keyword = k) :
    c.clauses.Pairwise fun clause clause' => val clause = none ∨ val clause' = none := by
  refine (List.pairwise_map.mp c.once).imp fun hne => ?_
  by_contra hboth
  rw [not_or] at hboth
  exact hne ((hval _ hboth.1).trans (hval _ hboth.2).symm)

def start (c : AddCommand W) : RouteDef W :=
  { cmd := .add, service := c.service.text, src := c.src.text, dst := c.dst.text, weight := 0,
    tags := [], opts := ∅, source := .static }

theorem foldl_set_field {ν β : Type} (c : AddCommand W) (φ : RouteDef W → β)
    (val : Clause W → Option ν) (edit : ν → β → β) (k : String)
    (hset : ∀ d clause, φ (Clause.set d clause) = (val clause).elim (φ d) fun v => edit v (φ d))
    (hval : ∀ clause, val clause ≠ none → clause.keyword = k) :
    φ (c.clauses.foldl Clause.set c.start) =
      (c.clauses.findSome? val).elim (φ c.start) fun v => edit v (φ c.start) :=
  foldl_field hset (c.pairwise_none hval) c.start

theorem foldl_set_kept (clauses : List (Clause W)) (d : RouteDef W) :
    let d' := clauses.foldl Clause.set d
    (d'.cmd, d'.service, d'.src, d'.dst, d'.source) =
      (d.cmd, d.service, d.src, d.dst, d.source) := by
  induction clauses generalizing d with
  | nil => rfl
  | cons clause clauses ih => exact (ih (Clause.set d clause)).trans (by cases clause <;> rfl)

theorem lookup_opts_foldl_set (c : AddCommand W) (k v : String) :
    (c.clauses.foldl Clause.set c.start).opts.lookup k = some v ↔ (k, v) ∈ c.pairs := by
  rw [c.foldl_set_field RouteDef.opts Clause.pairs? insertPairs "opts"
    (by rintro d (_ | _ | _) <;> rfl)
    (by rintro (_ | _ | _) <;> simp [Clause.pairs?, Clause.keyword]), pairs]
  cases hpairs : c.clauses.findSome? Clause.pairs? with
  | none => simp [start]
  | some pairs =>
    obtain ⟨clause, -, hclause⟩ := List.exists_of_findSome?_eq_some hpairs
    cases clause with
    | weight _ => cases hclause
    | tags _ => cases hclause
    | opts o =>
      cases hclause
      rw [Option.elim_some, Option.getD_some, lookup_insertPairs o.nodup]
      simp [start]

theorem describes_foldl_set (c : AddCommand W) :
    c.Describes (c.clauses.foldl Clause.set c.start) := by
  have hkept := foldl_set_kept c.clauses c.start
  simp only [Prod.mk.injEq] at hkept
  obtain ⟨hcmd, hservice, hsrc, hdst, hsource⟩ := hkept
  constructor
  case cmd => exact hcmd
  case service => exact hservice
  case src => exact hsrc
  case dst => exact hdst
  case source => exact hsource
  case weight =>
    rw [c.foldl_set_field RouteDef.weight Clause.weight? (fun w _ => w) "weight"
      (by rintro d (_ | _ | _) <;> rfl)
      (by rintro (_ | _ | _) <;> simp [Clause.weight?, Clause.keyword]), AddCommand.weight]
    cases c.clauses.findSome? Clause.weight? <;> rfl
  case tags =>
    rw [c.foldl_set_field RouteDef.tags Clause.tags? (fun tags _ => tags) "tags"
      (by rintro d (_ | _ | _) <;> rfl)
      (by rintro (_ | _ | _) <;> simp [Clause.tags?, Clause.keyword]), AddCommand.tags]
    cases c.clauses.findSome? Clause.tags? <;> rfl
  case opts => exact c.lookup_opts_foldl_set

end AddCommand

/-! ## Reading the line back -/

theorem scan_flatMap {σ κ : Type} {keyword : String → Option (String → σ → σ)}
    {other : String → σ → σ} {name value : κ → String} {set : σ → κ → σ}
    (h : ∀ c, ∃ f, keyword (name c) = some f ∧ ∀ s, f (value c) s = set s c) (cs : List κ) (s : σ) :
    scan keyword other (cs.flatMap fun c => [name c, value c]) s = cs.foldl set s := by
  induction cs generalizing s with
  | nil => rfl
  | cons c cs ih =>
    obtain ⟨f, hf, hset⟩ := h c
    have hone : (c :: cs).flatMap (fun c => [name c, value c]) =
        name c :: value c :: cs.flatMap fun c => [name c, value c] := rfl
    rw [hone, scan_keyword hf, hset, ih, List.foldl_cons]

namespace Clause

theorem checkedWeight_text (c : WeightClause W) : checkedWeight c.text = some c.value := by
  rw [checkedWeight, c.parses, Option.filter_some, if_pos (by simpa using c.isWeight)]

theorem value_ne_empty (clause : Clause W) : clause.value ≠ "" := by
  cases clause with
  | weight c => exact c.ne_empty
  | tags c => exact Text.intercalate_ne_empty c.ne_nil fun tag htag => (c.trimmed tag htag).1
  | opts c =>
    refine Text.intercalate_ne_empty (by simpa using c.ne_nil) fun word hword => ?_
    obtain ⟨p, -, rfl⟩ := List.mem_map.mp hword
    exact optText_ne_empty p

theorem forall_mem_tags (c : TagsClause) :
    ∀ x ∈ (",".intercalate c.tags).toList, x ≠ '"' ∧ x ≠ '\n' :=
  Text.forall_mem_intercalate (by simp) fun tag htag x hx => (c.plain tag htag x hx).2

theorem forall_mem_opts (c : OptsClause) :
    ∀ x ∈ (" ".intercalate (c.pairs.map optText)).toList, x ≠ '"' ∧ x ≠ '\n' := by
  refine Text.forall_mem_intercalate (by simp) fun word hword x hx => ?_
  obtain ⟨p, hp, rfl⟩ := List.mem_map.mp hword
  rcases mem_optText.mp hx with hx | rfl
  · exact (c.plain p hp x hx).ne
  · decide

end Clause

namespace AddCommand

theorem parseRouteAdd_tokens (c : AddCommand W) :
    parseRouteAdd (["route", "add", c.service.text, c.src.text, c.dst.text] ++
      c.clauses.flatMap fun clause => [clause.keyword, clause.value]) =
      some (c.clauses.foldl Clause.set c.start) := by
  rw [List.cons_append, List.cons_append, List.cons_append, List.cons_append, List.cons_append,
    List.nil_append, parseRouteAdd]
  refine congrArg some (scan_flatMap (fun clause => ?_) c.clauses c.start)
  cases clause with
  | weight w =>
    refine ⟨_, rfl, fun d => ?_⟩
    simp only [Clause.value, Clause.checkedWeight_text w, Option.getD_some, Clause.set]
  | tags t =>
    refine ⟨_, rfl, fun d => ?_⟩
    simp only [Clause.value, parseTags_value t, Clause.set]
  | opts o =>
    refine ⟨_, rfl, fun d => ?_⟩
    simp only [Clause.value, insertOpts_value o, Clause.set]

def pieces (c : AddCommand W) : List (String × String) :=
  [("route", "route"), ("add", "add"), (c.service.text, c.service.text), (c.src.text, c.src.text),
    (c.dst.text, c.dst.text)] ++
    c.clauses.flatMap fun clause => [(clause.keyword, clause.keyword), (clause.raw, clause.value)]

theorem line_eq (c : AddCommand W) : c.line = " ".intercalate (c.pieces.map (·.1)) := by
  rw [line, pieces, List.map_append, List.map_flatMap]
  rfl

structure IsPiece (p : String × String) : Prop where
  reads : Reads p.1 p.2
  token_ne_empty : p.2 ≠ ""
  ne_empty : p.1 ≠ ""
  trimmed : Text.Trimmed p.1
  newline : '\n' ∉ p.1.toList

theorem isPiece_word {s : String} (hne : s ≠ "") (h : ∀ c ∈ s.toList, IsPlainChar c) :
    IsPiece (s, s) where
  reads := reads_word fun c hc => (h c hc).isWordChar
  token_ne_empty := hne
  ne_empty := hne
  trimmed := Text.trimmed_of_forall fun c hc => (h c hc).2
  newline hc := (h _ hc).ne.2 rfl

theorem isPiece_quote {s : String} (hne : s ≠ "") (h : ∀ x ∈ s.toList, x ≠ '"' ∧ x ≠ '\n') :
    IsPiece (quote s, s) where
  reads := reads_quote fun hc => (h _ hc).1 rfl
  token_ne_empty := hne
  ne_empty := by simp [quote]
  trimmed := by
    constructor
    · intro c hc
      have hhead : (quote s).toList.head? = some '"' := by simp [quote]
      cases hhead.symm.trans hc
      decide
    · intro c hc
      have hlast : (quote s).toList.getLast? = some '"' := by
        rw [quote, String.toList_append]
        exact List.getLast?_concat
      cases hlast.symm.trans hc
      decide
  newline hc := by
    simp only [quote, String.toList_append, List.mem_append] at hc
    rcases hc with (hc | hc) | hc
    · exact absurd hc (by decide)
    · exact (h _ hc).2 rfl
    · exact absurd hc (by decide)

theorem isPiece_keyword {s : String} (h : s ∈ ["route", "add", "weight", "tags", "opts"]) :
    IsPiece (s, s) := by
  have hall : ∀ s ∈ ["route", "add", "weight", "tags", "opts"], s ≠ "" ∧
      s.toList.all (fun c => c != '"' && !Text.isWhitespace c) = true := by
    decide +kernel
  exact isPiece_word (hall s h).1 (isPlainChar_of_all (hall s h).2)

theorem isPiece_clause (clause : Clause W) :
    IsPiece (clause.keyword, clause.keyword) ∧ IsPiece (clause.raw, clause.value) := by
  constructor
  · cases clause <;> exact isPiece_keyword (by simp [Clause.keyword])
  · cases clause with
    | weight c => exact isPiece_word c.ne_empty c.plain
    | tags c => exact isPiece_quote (Clause.tags c).value_ne_empty (Clause.forall_mem_tags c)
    | opts c => exact isPiece_quote (Clause.opts c).value_ne_empty (Clause.forall_mem_opts c)

theorem isPiece_of_mem {c : AddCommand W} {p : String × String} (hp : p ∈ c.pieces) :
    IsPiece p := by
  rw [pieces, List.mem_append, List.mem_flatMap] at hp
  rcases hp with hp | ⟨clause, -, hp⟩
  · simp only [List.mem_cons, List.not_mem_nil, or_false] at hp
    rcases hp with rfl | rfl | rfl | rfl | rfl
    · exact isPiece_keyword (by simp)
    · exact isPiece_keyword (by simp)
    · exact isPiece_word c.service.ne_empty c.service.plain
    · exact isPiece_word c.src.ne_empty c.src.plain
    · exact isPiece_word c.dst.ne_empty c.dst.plain
  · simp only [List.mem_cons, List.not_mem_nil, or_false] at hp
    rcases hp with rfl | rfl
    · exact (isPiece_clause clause).1
    · exact (isPiece_clause clause).2

theorem tokenize_line (c : AddCommand W) : tokenize c.line =
    some (["route", "add", c.service.text, c.src.text, c.dst.text] ++
      c.clauses.flatMap fun clause => [clause.keyword, clause.value]) := by
  have htexts : c.pieces.map (·.2) = ["route", "add", c.service.text, c.src.text, c.dst.text] ++
      c.clauses.flatMap fun clause => [clause.keyword, clause.value] := by
    rw [pieces, List.map_append, List.map_flatMap]
    rfl
  rw [line_eq, tokenize_intercalate fun p hp => (isPiece_of_mem hp).reads, ← htexts,
    Option.some.injEq, List.filter_eq_self]
  intro s hs
  obtain ⟨p, hp, rfl⟩ := List.mem_map.mp hs
  simpa using (isPiece_of_mem hp).token_ne_empty

theorem newline_not_mem_line (c : AddCommand W) : '\n' ∉ c.line.toList := by
  have hchars : ∀ x ∈ c.line.toList, x ≠ '\n' := by
    rw [line_eq]
    refine Text.forall_mem_intercalate (by simp) fun s hs x hx => ?_
    obtain ⟨p, hp, rfl⟩ := List.mem_map.mp hs
    rintro rfl
    exact (isPiece_of_mem hp).newline hx
  exact fun h => hchars _ h rfl

theorem trimmed_line (c : AddCommand W) : Text.Trimmed c.line := by
  rw [line_eq]
  refine Text.trimmed_intercalate fun s hs => ?_
  obtain ⟨p, hp, rfl⟩ := List.mem_map.mp hs
  exact ⟨(isPiece_of_mem hp).ne_empty, (isPiece_of_mem hp).trimmed⟩

theorem line_toList (c : AddCommand W) : ∃ rest, c.line.toList = 'r' :: rest := by
  rw [line, List.cons_append, String.intercalate_cons_of_ne_nil (by simp), String.append_assoc,
    String.toList_append]
  exact ⟨_, rfl⟩

/-- A `route add` line is read as the one definition that it describes. -/
theorem parseRouteCommands_line (c : AddCommand W) :
    ∃ d, parseRouteCommands c.line = [d] ∧ c.Describes d := by
  refine ⟨c.clauses.foldl Clause.set c.start, ?_, c.describes_foldl_set⟩
  have hcommand : (parseCommand c.line : Option (RouteDef W)) = parseLine c.line := by
    obtain ⟨rest, hrest⟩ := c.line_toList
    have hne : c.line ≠ "" := by
      intro hempty
      rw [hempty] at hrest
      cases hrest
    simp [parseCommand, c.trimmed_line.trim_eq, hne, Text.startsWith, hrest]
  rw [Consul.parseRouteCommands_of_not_mem c.newline_not_mem_line, hcommand, parseLine,
    c.tokenize_line, Option.bind_eq_bind, Option.bind_some]
  exact congrArg Option.toList c.parseRouteAdd_tokens

section Examples

attribute [local instance] wholeWeights

def keywordCommand : AddCommand ℚ where
  service := ⟨"weight", by decide, isPlainChar_of_all (by decide +kernel)⟩
  src := ⟨"a.example/", by decide, isPlainChar_of_all (by decide +kernel)⟩
  dst := ⟨"http://10.0.0.1:80/", by decide, isPlainChar_of_all (by decide +kernel)⟩
  clauses :=
    [.tags { tags := ["opts", "two words"], ne_nil := by decide, trimmed := by decide +kernel,
             plain := by simp }]
  once := by decide

example : keywordCommand.line =
    "route add weight a.example/ http://10.0.0.1:80/ tags \"opts,two words\"" := by
  decide +kernel

end Examples

end AddCommand

end RouteParser

end SentirumLb
