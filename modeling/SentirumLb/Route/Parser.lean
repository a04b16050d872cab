import SentirumLb.Consul.Checks
import SentirumLb.Lib.Lines

/-! # Route commands

A text of route commands is read line by line. A line is cut into tokens, and
the tokens behind the fixed ones are scanned for keywords that take the next
token as their value. A weight that is not a finite number from 0 to 1000 is
skipped.
-/

namespace SentirumLb

/-- What is asked of an `f64` that was parsed. -/
class WeightText (W : Type) extends WeightArith W, Consul.ParseWeight W where
  isFinite : W → Bool

namespace RouteParser

/-! ## Tokens -/

/-- The tokens so far, the token that is being read, and whether a quote is open. -/
structure Tokens where
  tokens : List String
  current : List Char
  inQuotes : Bool

def Tokens.push (s : Tokens) (c : Char) : Tokens :=
  if c = '"' then { s with inQuotes := !s.inQuotes }
  else if (c = ' ' ∨ c = '\t') ∧ s.inQuotes = false then
    if s.current = [] then s
    else { s with tokens := s.tokens ++ [String.ofList s.current], current := [] }
  else { s with current := s.current ++ [c] }

def tokenize (line : String) : Option (List String) :=
  let s := line.toList.foldl Tokens.push ⟨[], [], false⟩
  if s.inQuotes then none
  else if s.current = [] then some s.tokens
  else some (s.tokens ++ [String.ofList s.current])

/-! ## Keywords -/

section Scan

variable {σ : Type}

/-- Scan tokens: a keyword takes the next token as its value, and any other token is handed to
`other`. -/
def scan (keyword : String → Option (String → σ → σ)) (other : String → σ → σ) :
    List String → σ → σ
  | [], s => s
  | [t], s => if (keyword t).isSome then s else other t s
  | t :: v :: rest, s =>
      match keyword t with
      | some f => scan keyword other rest (f v s)
      | none => scan keyword other (v :: rest) (other t s)

theorem scan_invariant {keyword : String → Option (String → σ → σ)} {other : String → σ → σ}
    {I : σ → Prop} (hkeyword : ∀ t f, keyword t = some f → ∀ v s, I s → I (f v s))
    (hother : ∀ t s, I s → I (other t s)) (tokens : List String) (s : σ) (h : I s) :
    I (scan keyword other tokens s) := by
  induction tokens, s using scan.induct keyword other with
  | case1 s => exact h
  | case2 t s hk =>
    rw [scan, if_pos hk]
    exact h
  | case3 t s hk =>
    rw [scan, if_neg hk]
    exact hother t s h
  | case4 t v rest s f hf ih =>
    rw [scan, hf]
    exact ih (hkeyword t f hf v s h)
  | case5 t v rest s hf ih =>
    rw [scan, hf]
    exact ih (hother t s h)

end Scan

def parseTags (value : String) : List String :=
  ((Text.split ',' value).map Text.trim).filter (· ≠ "")

def insertOpts (value : String) (opts : Opts) : Opts :=
  (Text.splitWhitespace value).foldl (fun opts pair =>
    match Text.splitOnce '=' pair with
    | some (k, v) => AList.insert k v opts
    | none => opts) opts

/-! ## Commands -/

section Commands

variable {W : Type} [WeightText W]

open WeightArith

/-- A finite number from 0 to 1000. -/
def IsWeight (w : W) : Prop :=
  WeightText.isFinite w = true ∧ le 0 w = true ∧ le w ((1000 : ℕ) : W) = true

instance (w : W) : Decidable (IsWeight w) := inferInstanceAs (Decidable (_ ∧ _ ∧ _))

def checkedWeight (token : String) : Option W :=
  (Consul.ParseWeight.parse token).filter fun w => decide (IsWeight w)

/-- Parse: `route add <svc> <src> <dst> [weight <w>] [tags "<t1>,<t2>"] [opts "k1=v1 k2=v2"]` -/
def parseRouteAdd : List String → Option (RouteDef W)
  | _ :: _ :: service :: src :: dst :: rest =>
      let keyword : String → Option (String → RouteDef W → RouteDef W)
        | "weight" => some fun v d => { d with weight := (checkedWeight v).getD d.weight }
        | "tags" => some fun v d => { d with tags := parseTags v }
        | "opts" => some fun v d => { d with opts := insertOpts v d.opts }
        | _ => none
      some (scan keyword (fun _ d => d) rest
        { cmd := .add, service := service, src := src, dst := dst, weight := 0, tags := [],
          opts := ∅, source := .static })
  | _ => none

/-- Parse: `route del <svc> [<src> [<dst>]]`, or `route del [<svc>] tags "<t1>,<t2>"` -/
def parseRouteDel (tokens : List String) : Option (RouteDef W) :=
  let (service, rest) := match tokens.drop 2 with
    | [] => ("", [])
    | t :: rest => if t ≠ "tags" then (t, rest) else ("", t :: rest)
  let keyword : String → Option (String → RouteDef W → RouteDef W)
    | "tags" => some fun v d => { d with tags := parseTags v }
    | _ => none
  let other (t : String) (d : RouteDef W) : RouteDef W :=
    if d.src = "" then { d with src := t } else if d.dst = "" then { d with dst := t } else d
  let d := scan keyword other rest
    { cmd := .del, service := service, src := "", dst := "", weight := 0, tags := [], opts := ∅,
      source := .static }
  if service = "" ∧ d.tags = [] then none else some d

/-- Parse: `route weight <svc> <src> weight <w> [tags "<t1>,<t2>"]`, or
`route weight <src> weight <w> tags "<t1>,<t2>"` -/
def parseRouteWeight : List String → Option (RouteDef W)
  | _ :: _ :: first :: second :: rest =>
      let (service, src, rest) :=
        if second = "weight" then ("", first, second :: rest) else (first, second, rest)
      let keyword : String → Option (String → RouteDef W → RouteDef W)
        | "weight" => some fun v d => { d with weight := (checkedWeight v).getD d.weight }
        | "tags" => some fun v d => { d with tags := parseTags v }
        | _ => none
      some (scan keyword (fun _ d => d) rest
        { cmd := .weight, service := service, src := src, dst := "", weight := 0, tags := [],
          opts := ∅, source := .static })
  | _ => none

def parseLine (line : String) : Option (RouteDef W) := do
  let tokens ← tokenize line
  match tokens with
  | "route" :: cmd :: _ :: _ =>
      if cmd = "add" then parseRouteAdd tokens
      else if cmd = "del" then parseRouteDel tokens
      else if cmd = "weight" then parseRouteWeight tokens
      else none
  | _ => none

/-- What a line of the text gives: comments and blank lines give nothing. -/
def parseCommand (line : String) : Option (RouteDef W) :=
  let line := Text.trim line
  if line = "" || Text.startsWith line "#" || Text.startsWith line "//" then none
  else parseLine line

def parseRouteCommands (input : String) : List (RouteDef W) :=
  (Text.lines input).filterMap parseCommand

end Commands

end RouteParser

end SentirumLb
