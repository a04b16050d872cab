import SentirumLb.Route.WeightBounds

/-! # Tokens and quotes

Quoting keeps the separators inside a token. The tokenizer drops the quotes as it goes,
and at a separator it drops a token that is empty, so that of quoted texts all come
back but the empty ones.
-/

namespace SentirumLb

namespace RouteParser

/-! ## Pieces of a line -/

/-- Reading the piece adds the text to the token that is being read. -/
def Reads (piece text : String) : Prop :=
  ∀ tokens current, piece.toList.foldl Tokens.push ⟨tokens, current, false⟩ =
    ⟨tokens, current ++ text.toList, false⟩

def IsWordChar (c : Char) : Prop := c ≠ '"' ∧ c ≠ ' ' ∧ c ≠ '\t'

def quote (s : String) : String := "\"" ++ s ++ "\""

theorem foldl_push_word {cs : List Char} (h : ∀ c ∈ cs, IsWordChar c) (tokens : List String)
    (current : List Char) : cs.foldl Tokens.push ⟨tokens, current, false⟩ =
      ⟨tokens, current ++ cs, false⟩ := by
  induction cs generalizing current with
  | nil => simp
  | cons c cs ih =>
    obtain ⟨hquote, hspace, htab⟩ := h c List.mem_cons_self
    have hpush : Tokens.push ⟨tokens, current, false⟩ c = ⟨tokens, current ++ [c], false⟩ := by
      simp [Tokens.push, hquote, hspace, htab]
    rw [List.foldl_cons, hpush, ih fun c hc => h c (List.mem_cons_of_mem _ hc), List.append_assoc,
      List.singleton_append]

theorem foldl_push_quoted {cs : List Char} (h : '"' ∉ cs) (tokens : List String)
    (current : List Char) : cs.foldl Tokens.push ⟨tokens, current, true⟩ =
      ⟨tokens, current ++ cs, true⟩ := by
  induction cs generalizing current with
  | nil => simp
  | cons c cs ih =>
    obtain ⟨hc, hcs⟩ := not_or.mp (List.mem_cons.not.mp h)
    have hpush : Tokens.push ⟨tokens, current, true⟩ c = ⟨tokens, current ++ [c], true⟩ := by
      simp [Tokens.push, Ne.symm hc]
    rw [List.foldl_cons, hpush, ih hcs, List.append_assoc, List.singleton_append]

theorem reads_word {s : String} (h : ∀ c ∈ s.toList, IsWordChar c) : Reads s s :=
  foldl_push_word h

theorem reads_quote {s : String} (h : '"' ∉ s.toList) : Reads (quote s) s := by
  intro tokens current
  have hopen : Tokens.push ⟨tokens, current, false⟩ '"' = ⟨tokens, current, true⟩ := rfl
  have hclose : Tokens.push ⟨tokens, current ++ s.toList, true⟩ '"' =
      ⟨tokens, current ++ s.toList, false⟩ := rfl
  have hquote : (quote s).toList = '"' :: (s.toList ++ ['"']) := by
    simp [quote]
  rw [hquote, List.foldl_cons, hopen, List.foldl_append, foldl_push_quoted h]
  exact hclose

/-! ## Lines of pieces -/

def Tokens.finish (s : Tokens) : Option (List String) :=
  if s.inQuotes then none
  else if s.current = [] then some s.tokens
  else some (s.tokens ++ [String.ofList s.current])

theorem tokenize_eq (line : String) :
    tokenize line = (line.toList.foldl Tokens.push ⟨[], [], false⟩).finish := rfl

theorem Tokens.push_ne_empty {s : Tokens} (h : ∀ t ∈ s.tokens, t ≠ "") (c : Char) :
    ∀ t ∈ (s.push c).tokens, t ≠ "" := by
  unfold push
  split
  · exact h
  · split
    · split
      · exact h
      · next hcurrent =>
        exact List.forall_mem_append.mpr
          ⟨h, List.forall_mem_singleton.mpr (by simpa using hcurrent)⟩
    · exact h

theorem ne_empty_of_mem_tokenize {line : String} {tokens : List String}
    (h : tokenize line = some tokens) : ∀ t ∈ tokens, t ≠ "" := by
  have hfold : ∀ (cs : List Char) (s : Tokens), (∀ t ∈ s.tokens, t ≠ "") →
      ∀ t ∈ (cs.foldl Tokens.push s).tokens, t ≠ "" := by
    intro cs
    induction cs with
    | nil => exact fun _ hs => hs
    | cons c cs ih => exact fun s hs => ih (s.push c) (Tokens.push_ne_empty hs c)
  have hread := hfold line.toList ⟨[], [], false⟩ (by simp)
  rw [tokenize_eq, Tokens.finish] at h
  split at h
  · cases h
  · split at h
    · cases h
      exact hread
    · next hcurrent =>
      cases h
      exact List.forall_mem_append.mpr
        ⟨hread, List.forall_mem_singleton.mpr (by simpa using hcurrent)⟩

theorem append_filter_singleton (tokens : List String) (s : String) :
    tokens ++ [s].filter (· ≠ "") = if s.toList = [] then tokens else tokens ++ [s] := by
  by_cases hs : s = ""
  · simp [hs]
  · simp [hs]

theorem finish_foldl_push_intercalate {pieces : List (String × String)}
    (h : ∀ p ∈ pieces, Reads p.1 p.2) (tokens : List String) :
    ((" ".intercalate (pieces.map (·.1))).toList.foldl Tokens.push ⟨tokens, [], false⟩).finish =
      some (tokens ++ (pieces.map (·.2)).filter (· ≠ "")) := by
  induction pieces generalizing tokens with
  | nil => simp [Tokens.finish]
  | cons p pieces ih =>
    have hread := h p List.mem_cons_self tokens []
    rw [List.nil_append] at hread
    have hrest := ih fun q hq => h q (List.mem_cons_of_mem _ hq)
    rw [List.map_cons, List.map_cons]
    by_cases hnil : pieces = []
    · subst hnil
      rw [List.map_nil, List.map_nil, String.intercalate_singleton, hread,
        append_filter_singleton, Tokens.finish]
      by_cases hp : p.2.toList = [] <;> simp [hp]
    · have hspace : Tokens.push ⟨tokens, p.2.toList, false⟩ ' ' =
          ⟨tokens ++ [p.2].filter (· ≠ ""), [], false⟩ := by
        rw [append_filter_singleton]
        by_cases hp : p.2.toList = [] <;> simp [Tokens.push, hp]
      rw [String.intercalate_cons_of_ne_nil (by simpa using hnil), String.toList_append,
        String.toList_append, List.foldl_append, List.foldl_append, hread]
      have hone : " ".toList = [' '] := rfl
      rw [hone, List.foldl_cons, List.foldl_nil, hspace, hrest, List.append_assoc,
        ← List.filter_append, List.singleton_append]

/-- A line of pieces is read as their texts, without the empty ones. -/
theorem tokenize_intercalate {pieces : List (String × String)}
    (h : ∀ p ∈ pieces, Reads p.1 p.2) :
    tokenize (" ".intercalate (pieces.map (·.1))) = some ((pieces.map (·.2)).filter (· ≠ "")) := by
  rw [tokenize_eq, finish_foldl_push_intercalate h, List.nil_append]

/-- Tokenizing undoes quoting just when no text is empty. -/
theorem tokenize_quoted_iff {l : List String} (h : ∀ s ∈ l, '"' ∉ s.toList) :
    tokenize (" ".intercalate (l.map quote)) = some l ↔ ∀ s ∈ l, s ≠ "" := by
  have hpieces : l.map quote = (l.map fun s => (quote s, s)).map (·.1) := by
    rw [List.map_map]
    rfl
  have htexts : (l.map fun s => (quote s, s)).map (·.2) = l := by
    rw [List.map_map]
    exact List.map_id l
  rw [hpieces, tokenize_intercalate, htexts, Option.some.injEq, List.filter_eq_self]
  · simp
  · intro p hp
    obtain ⟨s, hs, rfl⟩ := List.mem_map.mp hp
    exact reads_quote (h s hs)

section Examples

attribute [local instance] wholeWeights

def emptyTagsLine : String :=
  "route add web a.example/ http://10.0.0.1:80/ tags \"\" opts \"strip=/api\""

/-- The empty text is lost, and the keyword behind it is taken for the tags. -/
theorem not_tokenize_quoted_empty :
    tokenize (" ".intercalate ([""].map quote)) ≠ some [""] ∧
      tokenize (" ".intercalate (["tags", "", "opts"].map quote)) ≠ some ["tags", "", "opts"] ∧
      (parseLine emptyTagsLine : Option (RouteDef ℚ)).map
        (fun d => (d.tags, d.opts.lookup "strip")) = some (["opts"], none) := by
  refine ⟨by decide +kernel, by decide +kernel, by decide +kernel⟩

/-- Texts with separators in them come back. -/
theorem tokenize_quoted_separators :
    tokenize (" ".intercalate (["a b", "\t", "opts"].map quote)) = some ["a b", "\t", "opts"] :=
  (tokenize_quoted_iff (by decide)).mpr (by decide)

end Examples

end RouteParser

end SentirumLb
