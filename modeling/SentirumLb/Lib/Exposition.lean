import Mathlib

/-! # The text format of labelled samples

A document has one line for each sample and for each comment, and ends in a line
feed. A sample has the name of its metric, labels with quoted values, and a
number. In a quoted value the backslash, the quote and the line feed are
escaped. Comments can tell what a metric means and what type it has, once for
each metric, the type before its first sample.

The reader is strict: it takes single blanks between the tokens of a line, and
neither timestamps nor escapes in the text on a metric. Only the samples of a
metric need not stand together. What is written in the format is read back,
whatever the values of the labels are.
-/

namespace Exposition

structure Sample where
  name : List Char
  labels : List (List Char × List Char)
  value : List Char
deriving DecidableEq

inductive MetricType where
  | counter
  | gauge
  | histogram
  | summary
  | untyped
deriving DecidableEq

structure Document where
  help : List (List Char × List Char) := []
  types : List (List Char × MetricType) := []
  samples : List Sample := []
deriving DecidableEq

/-! ## Names and numbers -/

def isLabelChar (c : Char) : Bool := c.isAlphanum || c == '_'

def isMetricChar (c : Char) : Bool := isLabelChar c || c == ':'

def isName (char : Char → Bool) (cs : List Char) : Bool :=
  cs.all char && cs.head?.any fun c => !c.isDigit

def isMetricName (cs : List Char) : Bool := isName isMetricChar cs

def isLabelName (cs : List Char) : Bool := isName isLabelChar cs

def isDigits (cs : List Char) : Bool := cs.all Char.isDigit && !cs.isEmpty

def unsigned (cs : List Char) : List Char :=
  match cs with
  | '+' :: cs => cs
  | '-' :: cs => cs
  | cs => cs

def isMantissa (cs : List Char) : Bool :=
  match cs.splitOn '.' with
  | [whole] => isDigits whole
  | [whole, fraction] => whole.all Char.isDigit && isDigits fraction
  | _ => false

/-- A decimal number, with or without a fraction, an exponent and signs, or one of the three values
that are none. -/
def isValue (cs : List Char) : Bool :=
  ["NaN", "+Inf", "-Inf"].contains (String.ofList cs) ||
    match (unsigned cs).splitOn 'e' with
    | [mantissa] => isMantissa mantissa
    | [mantissa, exponent] => isMantissa mantissa && isDigits (unsigned exponent)
    | _ => false

def readType (cs : List Char) : Option MetricType :=
  match String.ofList cs with
  | "counter" => some .counter
  | "gauge" => some .gauge
  | "histogram" => some .histogram
  | "summary" => some .summary
  | "untyped" => some .untyped
  | _ => none

/-! ## Quoted values -/

def escapeChar : Char → List Char
  | '\\' => ['\\', '\\']
  | '"' => ['\\', '"']
  | '\n' => ['\\', 'n']
  | c => [c]

def escape (cs : List Char) : List Char := cs.flatMap escapeChar

def readValue : List Char → Option (List Char × List Char)
  | [] => none
  | '"' :: rest => some ([], rest)
  | '\\' :: '\\' :: rest => (readValue rest).map fun (cs, rest) => ('\\' :: cs, rest)
  | '\\' :: '"' :: rest => (readValue rest).map fun (cs, rest) => ('"' :: cs, rest)
  | '\\' :: 'n' :: rest => (readValue rest).map fun (cs, rest) => ('\n' :: cs, rest)
  | '\\' :: _ => none
  | c :: rest => (readValue rest).map fun (cs, rest) => (c :: cs, rest)

theorem escapeChar_of_plain {c : Char} (h1 : c ≠ '\\') (h2 : c ≠ '"') (h3 : c ≠ '\n') :
    escapeChar c = [c] := by
  unfold escapeChar
  split <;> simp_all

theorem readValue_cons_of_plain {c : Char} (h1 : c ≠ '\\') (h2 : c ≠ '"') (rest : List Char) :
    readValue (c :: rest) = (readValue rest).map fun (cs, rest) => (c :: cs, rest) := by
  rw [readValue.eq_def]
  split <;> simp_all

theorem readValue_escape (cs rest : List Char) :
    readValue (escape cs ++ '"' :: rest) = some (cs, rest) := by
  induction cs with
  | nil => simp [escape, readValue]
  | cons c cs ih =>
    have hcons : escape (c :: cs) = escapeChar c ++ escape cs := List.flatMap_cons
    rw [hcons, List.append_assoc]
    by_cases h1 : c = '\\'
    · subst h1
      simp [escapeChar, readValue, ih]
    · by_cases h2 : c = '"'
      · subst h2
        simp [escapeChar, readValue, ih]
      · by_cases h3 : c = '\n'
        · subst h3
          simp [escapeChar, readValue, ih]
        · rw [escapeChar_of_plain h1 h2 h3, List.singleton_append, readValue_cons_of_plain h1 h2,
            ih]
          rfl

theorem newline_not_mem_escape (cs : List Char) : '\n' ∉ escape cs := by
  rw [escape, List.mem_flatMap]
  rintro ⟨c, -, hc⟩
  unfold escapeChar at hc
  split at hc
  · simp at hc
  · simp at hc
  · simp at hc
  · next h1 h2 h3 => exact h3 (List.mem_singleton.mp hc).symm

/-! ## Lines -/

def renderLabels : List (List Char × List Char) → List Char
  | [] => ['}']
  | [(key, value)] => key ++ '=' :: '"' :: (escape value ++ ['"', '}'])
  | (key, value) :: labels =>
      key ++ '=' :: '"' :: (escape value ++ '"' :: ',' :: renderLabels labels)

def renderSample (s : Sample) : List Char :=
  s.name ++ '{' :: (renderLabels s.labels ++ ' ' :: s.value)

def readLabels : ℕ → List Char → Option (List (List Char × List Char) × List Char)
  | 0, _ => none
  | n + 1, cs =>
      let key := cs.takeWhile (· ≠ '=')
      match cs.dropWhile (· ≠ '=') with
      | '=' :: '"' :: rest =>
          match readValue rest with
          | some (value, ',' :: rest) =>
              (readLabels n rest).map fun (labels, rest) => ((key, value) :: labels, rest)
          | some (value, '}' :: rest) => some ([(key, value)], rest)
          | _ => none
      | _ => none

structure Sample.Valid (s : Sample) : Prop where
  name : isMetricName s.name
  labels_ne_nil : s.labels ≠ []
  labels : ∀ label ∈ s.labels, isLabelName label.1
  nodup : (s.labels.map Prod.fst).Nodup
  value : isValue s.value

instance (s : Sample) : Decidable s.Valid :=
  decidable_of_iff (isMetricName s.name ∧ s.labels ≠ [] ∧
      (∀ label ∈ s.labels, isLabelName label.1) ∧ (s.labels.map Prod.fst).Nodup ∧ isValue s.value)
    ⟨fun ⟨h1, h2, h3, h4, h5⟩ => ⟨h1, h2, h3, h4, h5⟩,
      fun h => ⟨h.name, h.labels_ne_nil, h.labels, h.nodup, h.value⟩⟩

def readSample (line : List Char) : Option Sample :=
  match line.dropWhile (· ≠ '{') with
  | '{' :: rest =>
      match readLabels rest.length rest with
      | some (labels, ' ' :: value) =>
          let s : Sample := ⟨line.takeWhile (· ≠ '{'), labels, value⟩
          if s.Valid then some s else none
      | _ => none
  | _ => none

def readComment (doc : Document) (comment : List Char) : Option Document :=
  match comment.splitOn ' ' with
  | [] :: keyword :: tokens =>
      if keyword = "HELP".toList then
        match tokens with
        | name :: words =>
            if isMetricName name ∧ name ∉ doc.help.map Prod.fst ∧ '\\' ∉ words.flatten then
              some { doc with help := doc.help ++ [(name, [' '].intercalate words)] }
            else none
        | [] => none
      else if keyword = "TYPE".toList then
        match tokens with
        | [name, type] =>
            if isMetricName name ∧ name ∉ doc.types.map Prod.fst ∧
                name ∉ doc.samples.map Sample.name then
              (readType type).map fun type => { doc with types := doc.types ++ [(name, type)] }
            else none
        | _ => none
      else if keyword = [] then none
      else some doc
  | _ => none

def readLine (doc : Document) (line : List Char) : Option Document :=
  match line with
  | [] => some doc
  | '#' :: comment => readComment doc comment
  | _ => (readSample line).map fun s => { doc with samples := doc.samples ++ [s] }

def parse (text : List Char) : Option Document :=
  let lines := text.splitOn '\n'
  if lines.getLast? = some [] then lines.dropLast.foldlM readLine {} else none

theorem ne_of_isName {char : Char → Bool} {cs : List Char} (h : isName char cs) {c d : Char}
    (hd : char d = false) (hc : c ∈ cs) : c ≠ d := by
  rintro rfl
  have hall := List.all_eq_true.mp (Bool.and_eq_true_iff.mp h).1 c hc
  rw [hd] at hall
  cases hall

theorem unsigned_of_isDigits {cs : List Char} (h : isDigits cs) : unsigned cs = cs := by
  unfold unsigned
  split
  · simp [isDigits] at h
  · simp [isDigits] at h
  · rfl

theorem isValue_of_isDigits {cs : List Char} (h : isDigits cs) : isValue cs := by
  have hsplit : ∀ c : Char, c.isDigit = false → cs.splitOn c = [cs] := by
    intro c hc
    refine List.splitOn_eq_singleton fun hmem => ?_
    have hdigit := List.all_eq_true.mp (Bool.and_eq_true_iff.mp h).1 c hmem
    rw [hc] at hdigit
    cases hdigit
  rw [isValue, unsigned_of_isDigits h, hsplit 'e' (by decide), Bool.or_eq_true]
  right
  dsimp only
  rw [isMantissa, hsplit '.' (by decide)]
  exact h

theorem takeWhile_append_cons {p : Char → Bool} {cs : List Char} {c : Char}
    (hcs : ∀ a ∈ cs, p a) (hc : ¬p c) (rest : List Char) :
    (cs ++ c :: rest).takeWhile p = cs ∧ (cs ++ c :: rest).dropWhile p = c :: rest := by
  constructor
  · rw [List.takeWhile_append_of_pos hcs, List.takeWhile_cons_of_neg hc, List.append_nil]
  · rw [List.dropWhile_append_of_pos hcs, List.dropWhile_cons_of_neg hc]

theorem readLabels_renderLabels {labels : List (List Char × List Char)} (hne : labels ≠ [])
    (hkeys : ∀ label ∈ labels, isLabelName label.1) {n : ℕ}
    (hn : labels.length ≤ n) (rest : List Char) :
    readLabels n (renderLabels labels ++ rest) = some (labels, rest) := by
  induction labels generalizing n with
  | nil => exact absurd rfl hne
  | cons label labels ih =>
    obtain ⟨key, value⟩ := label
    obtain ⟨n, rfl⟩ := Nat.exists_eq_add_of_le' (Nat.one_le_of_lt hn)
    have hkey : ∀ a ∈ key, decide (a ≠ '=') = true := by
      intro a ha
      simpa using ne_of_isName (hkeys (key, value) List.mem_cons_self) rfl ha
    cases labels with
    | nil =>
      have hcut := takeWhile_append_cons (c := '=') hkey (by simp)
        ('"' :: (escape value ++ '"' :: '}' :: rest))
      rw [readLabels]
      simp only [renderLabels, List.append_assoc, List.cons_append, List.nil_append, hcut.1,
        hcut.2, readValue_escape]
    | cons label' labels =>
      have hcut := takeWhile_append_cons (c := '=') hkey (by simp)
        ('"' :: (escape value ++ '"' :: ',' :: (renderLabels (label' :: labels) ++ rest)))
      have hih := ih (List.cons_ne_nil _ _) (fun l hl => hkeys l (List.mem_cons_of_mem _ hl))
        (n := n) (by simpa using hn)
      rw [readLabels]
      simp only [renderLabels, List.append_assoc, List.cons_append, hcut.1, hcut.2,
        readValue_escape, hih, Option.map_some]

theorem length_le_length_renderLabels (labels : List (List Char × List Char)) :
    labels.length ≤ (renderLabels labels).length := by
  induction labels with
  | nil => simp [renderLabels]
  | cons label labels ih =>
    cases labels with
    | nil => simp [renderLabels]; omega
    | cons label' labels =>
      simp only [renderLabels, List.length_append, List.length_cons] at ih ⊢
      omega

theorem readSample_renderSample {s : Sample} (h : s.Valid) :
    readSample (renderSample s) = some s := by
  have hname : ∀ a ∈ s.name, decide (a ≠ '{') = true := by
    intro a ha
    simpa using ne_of_isName h.name rfl ha
  have hcut := takeWhile_append_cons (c := '{') hname (by simp)
    (renderLabels s.labels ++ ' ' :: s.value)
  have hlength : s.labels.length ≤ (renderLabels s.labels ++ ' ' :: s.value).length := by
    rw [List.length_append]
    exact (length_le_length_renderLabels s.labels).trans (Nat.le_add_right _ _)
  have hlabels := readLabels_renderLabels h.labels_ne_nil h.labels hlength (' ' :: s.value)
  unfold readSample
  rw [renderSample, hcut.1, hcut.2]
  simp only [hlabels, if_pos h]

theorem readLine_renderSample {s : Sample} (h : s.Valid) (doc : Document) :
    readLine doc (renderSample s) = some { doc with samples := doc.samples ++ [s] } := by
  have hread := readSample_renderSample h
  unfold readLine
  split
  · next hline => simp [renderSample] at hline
  · next comment hline =>
    obtain ⟨hall, hhead⟩ := Bool.and_eq_true_iff.mp h.name
    cases hname : s.name with
    | nil => simp [hname] at hhead
    | cons c name =>
      rw [renderSample, hname, List.cons_append, List.cons.injEq] at hline
      exact absurd hline.1 (ne_of_isName h.name rfl (by simp [hname]))
  · rw [hread]
    rfl

theorem newline_not_mem_renderLabels {labels : List (List Char × List Char)}
    (hkeys : ∀ label ∈ labels, isLabelName label.1) : '\n' ∉ renderLabels labels := by
  induction labels with
  | nil => simp [renderLabels]
  | cons label labels ih =>
    obtain ⟨key, value⟩ := label
    have hkey : '\n' ∉ key := fun hmem =>
      ne_of_isName (hkeys (key, value) List.mem_cons_self) rfl hmem rfl
    have hih := ih fun l hl => hkeys l (List.mem_cons_of_mem _ hl)
    cases labels with
    | nil => simp [renderLabels, hkey, newline_not_mem_escape]
    | cons label' labels => simp [renderLabels, hkey, newline_not_mem_escape, hih]

theorem newline_not_mem_renderSample {s : Sample} (h : s.Valid) (hvalue : '\n' ∉ s.value) :
    '\n' ∉ renderSample s := by
  have hname : '\n' ∉ s.name := fun hmem => ne_of_isName h.name rfl hmem rfl
  simp [renderSample, hname, newline_not_mem_renderLabels h.labels, hvalue]

/-! ## Documents -/

theorem splitOn_lines {lines : List (List Char)} (h : ∀ line ∈ lines, '\n' ∉ line) :
    (lines.flatMap (· ++ ['\n'])).splitOn '\n' = lines ++ [[]] := by
  induction lines with
  | nil => rfl
  | cons line lines ih =>
    have hline : '\n' ∉ line := h line List.mem_cons_self
    rw [List.flatMap_cons, List.append_assoc, List.singleton_append,
      List.splitOn_append_cons_self_of_not_mem hline]
    exact congrArg (line :: ·) (ih fun l hl => h l (List.mem_cons_of_mem _ hl))

theorem parse_lines {lines : List (List Char)} (h : ∀ line ∈ lines, '\n' ∉ line) :
    parse (lines.flatMap (· ++ ['\n'])) = lines.foldlM readLine {} := by
  rw [parse, splitOn_lines h]
  simp

theorem foldlM_renderSample {samples : List Sample} (h : ∀ s ∈ samples, s.Valid)
    (doc : Document) : (samples.map renderSample).foldlM readLine doc =
      some { doc with samples := doc.samples ++ samples } := by
  induction samples generalizing doc with
  | nil => simp
  | cons s samples ih =>
    rw [List.map_cons, List.foldlM_cons, readLine_renderSample (h s List.mem_cons_self)]
    change List.foldlM readLine _ _ = _
    rw [ih fun s hs => h s (List.mem_cons_of_mem _ hs)]
    simp

end Exposition
