import SentirumLb.Lib.Occurrences
import SentirumLb.Lib.Wire

/-! # PEM blocks

A PEM bundle is split with a regular expression for BEGIN markers, which is
searched from an offset that moves on, and a plain search for the END marker of
the kind that was matched. Offsets are byte offsets, and a slice that is out of
range or not between two characters is a fault. The regular expression engine
is a parameter; it gives the leftmost match.
-/

namespace SentirumLb

open Occurrences Text Wire

/-- A group of a match: its byte offsets in the text, and what it matched. -/
structure RegexGroup where
  start : ℕ
  stop : ℕ
  asStr : List Char
deriving DecidableEq

structure Captures where
  groups : List (Option RegexGroup)

def Captures.get (c : Captures) (i : ℕ) : Option RegexGroup := c.groups[i]?.getD none

structure PemBlock where
  kind : List Char
  pem : List Char
deriving DecidableEq

def kindChar (c : Char) : Bool := 'A' ≤ c && c ≤ 'Z' || '0' ≤ c && c ≤ '9' || c == ' '

abbrev PemKind : Type := {kind : List Char // kind ≠ [] ∧ ∀ c ∈ kind, kindChar c = true}

def beginStem : List Char := "-----BEGIN ".toList

def endStem : List Char := "-----END ".toList

def dashes : List Char := "-----".toList

def beginMarker (kind : PemKind) : List Char := beginStem ++ (kind.1 ++ dashes)

def endMarker (kind : List Char) : List Char := endStem ++ (kind ++ dashes)

/-- What `-----BEGIN ([A-Z0-9 ]+)-----` matches. -/
def pemBegins : Set (List Char) := Set.range beginMarker

/-- The text between two byte offsets; the program panics where there is none. -/
def textSlice (start stop : ℕ) (cs : List Char) : Checked (List Char) :=
  match slice start stop cs with
  | some m => .ok m
  | none => .error .outOfRange

def textFrom (start : ℕ) (cs : List Char) : Checked (List Char) :=
  textSlice start (String.utf8Len cs) cs

structure PemScan where
  blocks : List PemBlock
  offset : ℕ

section Code

variable (pemBeginRe : List Char → Option Captures)

def pemRound (input : List Char) (s : PemScan) : Checked (Flow PemScan (List PemBlock)) := do
  match pemBeginRe (← textFrom s.offset input) with
  | none => return .leave s.blocks
  | some capture =>
    match capture.get 0 with
    | none => return .leave s.blocks
    | some whole =>
      match capture.get 1 with
      | none => return .leave s.blocks
      | some kind =>
        let start := s.offset + whole.start
        let marker := endMarker kind.asStr
        let searchFrom := s.offset + whole.stop
        match find marker (← textFrom searchFrom input) with
        | none => return .leave s.blocks
        | some relativeEnd =>
          let stop := searchFrom + relativeEnd + String.utf8Len marker
          let pem ← textSlice start stop input
          return .goOn ⟨s.blocks ++ [⟨kind.asStr, pem⟩], stop⟩

def pemBlocks (fuel : ℕ) (input : List Char) : Checked (List PemBlock) :=
  loop (pemRound pemBeginRe input) fuel ⟨[], 0⟩

end Code

def pemCaptures (before : List Char) (kind : PemKind) : Captures :=
  let start := String.utf8Len before
  let kindStart := start + String.utf8Len beginStem
  ⟨[some ⟨start, start + String.utf8Len (beginMarker kind), beginMarker kind⟩,
    some ⟨kindStart, kindStart + String.utf8Len kind.1, kind.1⟩]⟩

theorem pemCaptures_get_zero (before : List Char) (kind : PemKind) :
    (pemCaptures before kind).get 0 = some ⟨String.utf8Len before,
      String.utf8Len before + String.utf8Len (beginMarker kind), beginMarker kind⟩ := rfl

theorem pemCaptures_get_one (before : List Char) (kind : PemKind) :
    (pemCaptures before kind).get 1 = some ⟨String.utf8Len before + String.utf8Len beginStem,
      String.utf8Len before + String.utf8Len beginStem + String.utf8Len kind.1, kind.1⟩ := rfl

/-- The engine gives the leftmost match, and none where there is none. -/
structure FindsLeftmost (pemBeginRe : List Char → Option Captures) : Prop where
  none : ∀ cs, pemBeginRe cs = none → ∀ w ∈ pemBegins, ¬w <:+: cs
  some : ∀ cs capture, pemBeginRe cs = some capture → ∃ before kind behind,
    Leftmost pemBegins cs before (beginMarker kind) behind ∧ capture = pemCaptures before kind

/-! ## Markers -/

theorem dashes_eq : dashes = '-' :: "----".toList := by decide +kernel

theorem takeWhile_kind (kind : PemKind) (cs : List Char) :
    (kind.1 ++ (dashes ++ cs)).takeWhile kindChar = kind.1 := by
  have hdash : kindChar '-' = false := by decide
  rw [List.takeWhile_append_of_pos kind.2.2, dashes_eq, List.cons_append,
    List.takeWhile_cons_of_neg (by simp [hdash]), List.append_nil]

theorem beginMarker_append (kind : PemKind) (cs : List Char) :
    beginMarker kind ++ cs = beginStem ++ (kind.1 ++ (dashes ++ cs)) := by
  rw [beginMarker, List.append_assoc, List.append_assoc]

theorem kind_eq_of_starts {kind kind' : PemKind} (h : beginMarker kind <+: beginMarker kind') :
    kind = kind' := by
  obtain ⟨behind, h⟩ := h
  have hkinds : kind.1 ++ (dashes ++ behind) = kind'.1 ++ (dashes ++ []) := by
    rw [beginMarker_append, ← List.append_nil (beginMarker kind'), beginMarker_append] at h
    exact List.append_cancel_left h
  apply Subtype.ext
  rw [← takeWhile_kind kind behind, hkinds, takeWhile_kind]

theorem beginMarker_injective : Function.Injective beginMarker := by
  rintro kind kind' h
  exact kind_eq_of_starts (h ▸ List.prefix_rfl)

theorem prefixFree_pemBegins : PrefixFree pemBegins := by
  rintro u ⟨kind, rfl⟩ v ⟨kind', rfl⟩ h
  rw [kind_eq_of_starts h]

/-! ## Blocks in a text -/

def pemBlock (kind : PemKind) (body : List Char) : PemBlock :=
  ⟨kind.1, beginMarker kind ++ (body ++ endMarker kind.1)⟩

/-- How a text splits into blocks: at the leftmost BEGIN marker, and from there at the first END
marker of its kind, until one of them is missing. -/
inductive PemSplit : List Char → List PemBlock → Prop where
  | none {text : List Char} : (∀ w ∈ pemBegins, ¬w <:+: text) → PemSplit text []
  | unterminated {text before behind : List Char} {kind : PemKind} :
      Leftmost pemBegins text before (beginMarker kind) behind →
      ¬endMarker kind.1 <:+: behind → PemSplit text []
  | block {text before inner body behind : List Char} {kind : PemKind} {blocks : List PemBlock} :
      Leftmost pemBegins text before (beginMarker kind) inner →
      Leftmost {endMarker kind.1} inner body (endMarker kind.1) behind →
      PemSplit behind blocks → PemSplit text (pemBlock kind body :: blocks)

theorem beginMarker_ne_nil (kind : PemKind) : beginMarker kind ≠ [] := by
  have hstem : beginStem ≠ [] := by decide +kernel
  exact List.append_ne_nil_of_left_ne_nil hstem _

theorem utf8Len_beginMarker_pos (kind : PemKind) : 0 < String.utf8Len (beginMarker kind) := by
  rw [Nat.pos_iff_ne_zero, Ne, String.utf8Len_eq_zero]
  exact beginMarker_ne_nil kind

theorem exists_pemSplit (text : List Char) : ∃ blocks, PemSplit text blocks := by
  induction hn : text.length using Nat.strong_induction_on generalizing text with
  | _ n ih =>
    by_cases hbegin : ∃ w ∈ pemBegins, w <:+: text
    · obtain ⟨before, w, inner, hleft⟩ := exists_leftmost hbegin
      obtain ⟨kind, rfl⟩ := hleft.mem
      by_cases hend : endMarker kind.1 <:+: inner
      · obtain ⟨body, w, behind, hright⟩ := exists_leftmost ⟨_, Set.mem_singleton _, hend⟩
        obtain rfl := Set.mem_singleton_iff.mp hright.mem
        have hlt : behind.length < n := by
          have hpos := List.length_pos_of_ne_nil (beginMarker_ne_nil kind)
          rw [← hn, hleft.text_eq, hright.text_eq]
          simp only [List.length_append]
          omega
        obtain ⟨blocks, hblocks⟩ := ih behind.length hlt behind rfl
        exact ⟨_, .block hleft hright hblocks⟩
      · exact ⟨[], .unterminated hleft hend⟩
    · push Not at hbegin
      exact ⟨[], .none hbegin⟩

theorem PemSplit.length_le {text : List Char} {blocks : List PemBlock} (h : PemSplit text blocks) :
    blocks.length ≤ String.utf8Len text := by
  induction h with
  | none => exact Nat.zero_le _
  | unterminated => exact Nat.zero_le _
  | @block _ _ _ _ _ kind _ hbegin hend _ ih =>
    have hpos := utf8Len_beginMarker_pos kind
    rw [hbegin.text_eq, hend.text_eq]
    simp only [String.utf8Len_append, List.length_cons]
    omega

/-! ## One round -/

theorem textSlice_append (a m b : List Char) {start stop : ℕ} (hstart : String.utf8Len a = start)
    (hstop : start + String.utf8Len m = stop) :
    textSlice start stop (a ++ (m ++ b)) = .ok m := by
  rw [textSlice, slice_eq_some_iff.mpr ⟨a, b, (List.append_assoc a m b).symm, hstart, hstop⟩]

theorem textFrom_append (a b : List Char) {start : ℕ} (hstart : String.utf8Len a = start) :
    textFrom start (a ++ b) = .ok b := by
  have h := textSlice_append a b [] hstart rfl
  rwa [List.append_nil, ← hstart, ← String.utf8Len_append, hstart] at h

section Rounds

variable {pemBeginRe : List Char → Option Captures} (hre : FindsLeftmost pemBeginRe)
  {text done before behind inner body : List Char} {kind : PemKind} {s : PemScan}
  (hs : String.utf8Len done = s.offset)
include hre hs

theorem pemRound_none (h : ∀ w ∈ pemBegins, ¬w <:+: text) :
    pemRound pemBeginRe (done ++ text) s = .ok (.leave s.blocks) := by
  have hnone : pemBeginRe text = none := by
    rw [Option.eq_none_iff_forall_ne_some]
    rintro capture hcapture
    obtain ⟨before, kind, behind, ⟨rfl, hmem, -⟩, rfl⟩ := hre.some _ _ hcapture
    exact h _ hmem (List.infix_append' _ _ _)
  rw [pemRound, textFrom_append done text hs, ok_bind, hnone]
  rfl

omit hs in
theorem captures_of_leftmost (h : Leftmost pemBegins text before (beginMarker kind) behind) :
    pemBeginRe text = some (pemCaptures before kind) := by
  cases hcapture : pemBeginRe text with
  | none =>
    refine absurd ?_ (hre.none text hcapture _ h.mem)
    rw [h.text_eq]
    exact List.infix_append' _ _ _
  | some capture =>
    obtain ⟨before', kind', behind', h', rfl⟩ := hre.some text capture hcapture
    obtain ⟨rfl, hmarker, -⟩ := h.unique prefixFree_pemBegins h'
    rw [beginMarker_injective hmarker]

/-- Behind a BEGIN marker, the END marker of its kind decides. -/
theorem pemRound_begin (h : Leftmost pemBegins text before (beginMarker kind) inner) :
    pemRound pemBeginRe (done ++ text) s =
      let searchFrom := s.offset + (String.utf8Len before + String.utf8Len (beginMarker kind))
      match find (endMarker kind.1) inner with
      | none => .ok (.leave s.blocks)
      | some relativeEnd =>
        let stop := searchFrom + relativeEnd + String.utf8Len (endMarker kind.1)
        textSlice (s.offset + String.utf8Len before) stop (done ++ text) >>= fun pem =>
          .ok (.goOn ⟨s.blocks ++ [⟨kind.1, pem⟩], stop⟩) := by
  have hinner : textFrom
      (s.offset + (String.utf8Len before + String.utf8Len (beginMarker kind))) (done ++ text) =
      .ok inner := by
    have hsplit : done ++ text = (done ++ (before ++ beginMarker kind)) ++ inner := by
      rw [h.text_eq, List.append_assoc, List.append_assoc]
    rw [hsplit]
    apply textFrom_append
    rw [String.utf8Len_append, String.utf8Len_append, hs]
  rw [pemRound, textFrom_append done text hs, ok_bind, captures_of_leftmost hre h]
  dsimp only
  rw [pemCaptures_get_zero]
  dsimp only
  rw [pemCaptures_get_one]
  dsimp only
  rw [hinner, ok_bind]
  rfl

theorem pemRound_unterminated (h : Leftmost pemBegins text before (beginMarker kind) inner)
    (hend : ¬endMarker kind.1 <:+: inner) :
    pemRound pemBeginRe (done ++ text) s = .ok (.leave s.blocks) := by
  rw [pemRound_begin hre hs h, find_eq_none_iff.mpr hend]

theorem pemRound_block (hbegin : Leftmost pemBegins text before (beginMarker kind) inner)
    (hend : Leftmost {endMarker kind.1} inner body (endMarker kind.1) behind) :
    ∃ done', done ++ text = done' ++ behind ∧ s.offset < String.utf8Len done' ∧
      pemRound pemBeginRe (done ++ text) s =
        .ok (.goOn ⟨s.blocks ++ [pemBlock kind body], String.utf8Len done'⟩) := by
  have htext : done ++ text = (done ++ before) ++ ((pemBlock kind body).pem ++ behind) := by
    rw [hbegin.text_eq, hend.text_eq, pemBlock]
    simp only [List.append_assoc]
  have hlen : String.utf8Len (done ++ before ++ (pemBlock kind body).pem) =
      s.offset + (String.utf8Len before + String.utf8Len (beginMarker kind)) +
        String.utf8Len body + String.utf8Len (endMarker kind.1) := by
    rw [pemBlock]
    simp only [String.utf8Len_append, hs]
    omega
  have hslice : textSlice (s.offset + String.utf8Len before)
      (String.utf8Len (done ++ before ++ (pemBlock kind body).pem)) (done ++ text) =
      .ok (pemBlock kind body).pem := by
    rw [htext]
    apply textSlice_append
    · rw [String.utf8Len_append, hs]
    · rw [String.utf8Len_append, String.utf8Len_append, hs]
  refine ⟨done ++ before ++ (pemBlock kind body).pem, ?_, ?_, ?_⟩
  · rw [htext, ← List.append_assoc]
  · have hpos := utf8Len_beginMarker_pos kind
    omega
  · rw [pemRound_begin hre hs hbegin, find_eq_of_leftmost hend]
    dsimp only
    rw [← hlen, hslice, ok_bind]
    rfl

end Rounds

/-! ## Every text -/

/-- The offset is that of a boundary between two characters of the text, or of one of its ends. -/
def AtBoundary (input : List Char) (offset : ℕ) : Prop :=
  ∃ done text, input = done ++ text ∧ String.utf8Len done = offset

section Runs

variable {pemBeginRe : List Char → Option Captures} (hre : FindsLeftmost pemBeginRe)
  {input text : List Char} {blocks : List PemBlock} {s : PemScan}
include hre

theorem pemRound_cases (hs : AtBoundary input s.offset) :
    (∃ blocks, pemRound pemBeginRe input s = .ok (.leave blocks)) ∨
      ∃ s', pemRound pemBeginRe input s = .ok (.goOn s') ∧ s.offset < s'.offset ∧
        AtBoundary input s'.offset := by
  obtain ⟨done, text, rfl, hs⟩ := hs
  obtain ⟨blocks, hsplit⟩ := exists_pemSplit text
  cases hsplit with
  | none h => exact .inl ⟨_, pemRound_none hre hs h⟩
  | unterminated hbegin hend => exact .inl ⟨_, pemRound_unterminated hre hs hbegin hend⟩
  | block hbegin hend _ =>
    obtain ⟨done', htext, hlt, hround⟩ := pemRound_block hre hs hbegin hend
    exact .inr ⟨_, hround, hlt, done', _, htext, rfl⟩

theorem atBoundary_of_visits {s' : PemScan} (hs : AtBoundary input s.offset)
    (h : Visits (pemRound pemBeginRe input) s s') : AtBoundary input s'.offset := by
  refine h.invariant (I := fun t => AtBoundary input t.offset) ?_ hs
  rintro t t' ht hstep
  rcases pemRound_cases hre ht with ⟨blocks, hleave⟩ | ⟨u, hround, -, hu⟩
  · cases hleave.symm.trans hstep
  · cases hround.symm.trans hstep
    exact hu

/-- With a round for each block and one more, the loop splits the text. -/
theorem loop_of_pemSplit (h : PemSplit text blocks) {done : List Char} {fuel : ℕ}
    (hs : String.utf8Len done = s.offset) (hfuel : blocks.length < fuel) :
    loop (pemRound pemBeginRe (done ++ text)) fuel s = .ok (s.blocks ++ blocks) := by
  induction h generalizing done fuel s with
  | none h =>
    obtain ⟨fuel, rfl⟩ := Nat.exists_eq_add_one.mpr hfuel
    rw [loop_of_leave (pemRound_none hre hs h), List.append_nil]
  | unterminated hbegin hend =>
    obtain ⟨fuel, rfl⟩ := Nat.exists_eq_add_one.mpr hfuel
    rw [loop_of_leave (pemRound_unterminated hre hs hbegin hend), List.append_nil]
  | block hbegin hend _ ih =>
    obtain ⟨fuel, rfl⟩ := Nat.exists_eq_add_one.mpr (Nat.zero_lt_of_lt hfuel)
    obtain ⟨done', htext, -, hround⟩ := pemRound_block hre hs hbegin hend
    rw [loop_of_goOn hround, htext, ih rfl (by simpa using hfuel), List.append_assoc]
    rfl

theorem pemBlocks_of_pemSplit (h : PemSplit input blocks) {fuel : ℕ}
    (hfuel : String.utf8Len input < fuel) : pemBlocks pemBeginRe fuel input = .ok blocks := by
  have hstart : String.utf8Len [] = (⟨[], 0⟩ : PemScan).offset := rfl
  exact loop_of_pemSplit hre h hstart (h.length_le.trans_lt hfuel)

end Runs

/-! ## Well-formed bundles -/

/-- Blocks with text in between. No BEGIN marker starts in the text in front of a block, and not the
END marker of its kind in a body, also none that runs on into the marker behind it. -/
inductive PemBundle : List Char → List PemBlock → Prop where
  | tail {text : List Char} : Clear pemBegins text [] → PemBundle text []
  | block {before body behind : List Char} {kind : PemKind} {blocks : List PemBlock} :
      Clear pemBegins before ((pemBlock kind body).pem ++ behind) →
      Clear {endMarker kind.1} body (endMarker kind.1 ++ behind) →
      PemBundle behind blocks →
      PemBundle (before ++ ((pemBlock kind body).pem ++ behind)) (pemBlock kind body :: blocks)

theorem not_nil_mem_pemBegins : [] ∉ pemBegins := by
  rintro ⟨kind, h⟩
  exact beginMarker_ne_nil kind h

theorem PemBundle.pemSplit {text : List Char} {blocks : List PemBlock} (h : PemBundle text blocks) :
    PemSplit text blocks := by
  induction h with
  | tail h => exact .none ((clear_nil_right_iff not_nil_mem_pemBegins).mp h)
  | @block before body behind kind _ hbefore hbody _ ih =>
    have hpem : (pemBlock kind body).pem ++ behind =
        beginMarker kind ++ (body ++ (endMarker kind.1 ++ behind)) := by
      simp only [pemBlock, List.append_assoc]
    rw [hpem] at hbefore ⊢
    exact .block ⟨rfl, ⟨kind, rfl⟩, hbefore⟩ ⟨rfl, rfl, hbody⟩ ih

theorem unbordered_beginStem : Unbordered beginStem := by decide +kernel

theorem unbordered_endStem : Unbordered endStem := by decide +kernel

theorem stem_prefix_beginMarker (kind : PemKind) : beginStem <+: beginMarker kind :=
  List.prefix_append _ _

theorem PemBundle.tail_of_stem {text : List Char} (h : ¬beginStem <:+: text) :
    PemBundle text [] := by
  refine .tail ((clear_nil_right_iff not_nil_mem_pemBegins).mpr ?_)
  rintro w ⟨kind, rfl⟩ hinfix
  exact h ((stem_prefix_beginMarker kind).isInfix.trans hinfix)

/-- Texts without `-----BEGIN ` and bodies without `-----END ` are clear, whatever follows. -/
theorem PemBundle.block_of_stems {before body behind : List Char} {blocks : List PemBlock}
    (kind : PemKind) (hbefore : ¬beginStem <:+: before) (hbody : ¬endStem <:+: body)
    (h : PemBundle behind blocks) :
    PemBundle (before ++ ((pemBlock kind body).pem ++ behind)) (pemBlock kind body :: blocks) := by
  refine .block (clear_of_stem unbordered_beginStem ?_ hbefore ?_)
    (clear_of_stem unbordered_endStem ?_ hbody ?_) h
  · rintro w ⟨kind, rfl⟩
    exact stem_prefix_beginMarker kind
  · rw [pemBlock, List.append_assoc]
    exact (stem_prefix_beginMarker kind).trans (List.prefix_append _ _)
  · rintro w rfl
    exact List.prefix_append _ _
  · exact (List.prefix_append _ _).trans (List.prefix_append _ _)

/-- Every text is split without a fault, at offsets that move on, and a bundle into its blocks. -/
theorem pemBlocks_spec {pemBeginRe : List Char → Option Captures}
    (hre : FindsLeftmost pemBeginRe) :
    (∀ input,
      (∃ blocks, ∀ fuel > String.utf8Len input, pemBlocks pemBeginRe fuel input = .ok blocks) ∧
      ∀ s, Visits (pemRound pemBeginRe input) ⟨[], 0⟩ s → AtBoundary input s.offset ∧
        ((∃ blocks, pemRound pemBeginRe input s = .ok (.leave blocks)) ∨
          ∃ s', pemRound pemBeginRe input s = .ok (.goOn s') ∧ s.offset < s'.offset)) ∧
    ∀ input blocks, PemBundle input blocks → ∀ fuel > String.utf8Len input,
      pemBlocks pemBeginRe fuel input = .ok blocks := by
  constructor
  · intro input
    obtain ⟨blocks, hsplit⟩ := exists_pemSplit input
    refine ⟨⟨blocks, fun fuel hfuel => pemBlocks_of_pemSplit hre hsplit hfuel⟩, fun s hvisits => ?_⟩
    have hs : AtBoundary input s.offset :=
      atBoundary_of_visits hre (s := ⟨[], 0⟩) ⟨[], input, rfl, rfl⟩ hvisits
    refine ⟨hs, ?_⟩
    rcases pemRound_cases hre hs with hleave | ⟨s', hround, hlt, -⟩
    · exact .inl hleave
    · exact .inr ⟨s', hround, hlt⟩
  · intro input blocks hbundle fuel hfuel
    exact pemBlocks_of_pemSplit hre hbundle.pemSplit hfuel

/-! ## An engine -/

def kindAt (cs : List Char) : Option PemKind :=
  let kind := cs.takeWhile kindChar
  if h : kind ≠ [] ∧ dashes.isPrefixOf (cs.dropWhile kindChar) then
    some ⟨kind, h.1, fun _ => List.mem_takeWhile_imp⟩
  else none

def pemBeginAt (cs : List Char) : Option PemKind :=
  if beginStem.isPrefixOf cs then kindAt (cs.drop beginStem.length) else none

/-- A search for the leftmost BEGIN marker. -/
def findPemBegin (cs : List Char) : Option Captures :=
  (search pemBeginAt cs).map fun (before, kind) => pemCaptures before kind

theorem kindAt_eq_some_iff (cs : List Char) (kind : PemKind) :
    kindAt cs = some kind ↔ kind.1 ++ dashes <+: cs := by
  constructor
  · intro h
    unfold kindAt at h
    dsimp only at h
    split at h
    · next hkind =>
      obtain rfl := Option.some.inj h
      obtain ⟨behind, hbehind⟩ := List.isPrefixOf_iff_prefix.mp hkind.2
      refine ⟨behind, ?_⟩
      rw [List.append_assoc, hbehind, List.takeWhile_append_dropWhile]
    · cases h
  · rintro ⟨behind, rfl⟩
    have htake := takeWhile_kind kind behind
    have hdrop : (kind.1 ++ (dashes ++ behind)).dropWhile kindChar = dashes ++ behind := by
      have hsplit := List.takeWhile_append_dropWhile
        (p := kindChar) (l := kind.1 ++ (dashes ++ behind))
      rw [htake] at hsplit
      exact List.append_cancel_left hsplit
    have hcond : kind.1 ≠ [] ∧ dashes.isPrefixOf (dashes ++ behind) = true :=
      ⟨kind.2.1, List.isPrefixOf_iff_prefix.mpr (List.prefix_append _ _)⟩
    rw [List.append_assoc, kindAt]
    simp only [htake, hdrop]
    rw [dif_pos hcond]

theorem pemBeginAt_eq_some_iff (cs : List Char) (kind : PemKind) :
    pemBeginAt cs = some kind ↔ beginMarker kind <+: cs := by
  rw [pemBeginAt, Option.ite_none_right_eq_some, List.isPrefixOf_iff_prefix, kindAt_eq_some_iff]
  constructor
  · rintro ⟨⟨rest, rfl⟩, hkind⟩
    rw [List.drop_left] at hkind
    exact (List.prefix_append_right_inj beginStem).mpr hkind
  · rintro ⟨behind, rfl⟩
    rw [beginMarker, List.append_assoc, List.drop_left]
    exact ⟨List.prefix_append _ _, List.prefix_append _ _⟩

theorem findsLeftmost_findPemBegin : FindsLeftmost findPemBegin where
  none cs h :=
    not_infix_of_search_eq_none pemBeginAt_eq_some_iff (Option.map_eq_none_iff.mp h)
  some cs capture h := by
    obtain ⟨⟨before, kind⟩, hsearch, rfl⟩ := Option.map_eq_some_iff.mp h
    obtain ⟨behind, hleft⟩ := leftmost_of_search pemBeginAt_eq_some_iff hsearch
    exact ⟨before, kind, behind, hleft, rfl⟩

def certificateKind : PemKind :=
  ⟨"CERTIFICATE".toList, by decide +kernel, List.all_eq_true.mp (by decide +kernel)⟩

def privateKeyKind : PemKind :=
  ⟨"PRIVATE KEY".toList, by decide +kernel, List.all_eq_true.mp (by decide +kernel)⟩

theorem pemBlocks_spec_keyAndCertificate :
    let key := pemBlock privateKeyKind "MIIE".toList
    let certificate := pemBlock certificateKind "MIIB".toList
    let input := "key: ".toList ++ (key.pem ++ (", ".toList ++ (certificate.pem ++ ".".toList)))
    (∃ blocks, ∀ fuel > String.utf8Len input, pemBlocks findPemBegin fuel input = .ok blocks) ∧
      pemBlocks findPemBegin 200 input = .ok [key, certificate] := by
  intro key certificate input
  have hspec := pemBlocks_spec findsLeftmost_findPemBegin
  have hbundle : PemBundle input [key, certificate] := by
    apply PemBundle.block_of_stems _ (by decide +kernel) (by decide +kernel)
    apply PemBundle.block_of_stems _ (by decide +kernel) (by decide +kernel)
    exact .tail_of_stem (by decide +kernel)
  exact ⟨(hspec.1 input).1, hspec.2 input _ hbundle 200 (by decide +kernel)⟩

/-! ## Markers that overlap -/

/-- No marker stands in the text. -/
def MarkerFree (cs : List Char) : Prop :=
  ∀ kind : PemKind, ¬beginMarker kind <:+: cs ∧ ¬endMarker kind.1 <:+: cs

theorem markerFree_of_length_lt {cs : List Char} (h : cs.length < 15) : MarkerFree cs := by
  rintro kind
  have hkind : 0 < kind.1.length := List.length_pos_of_ne_nil kind.2.1
  have hdashes : dashes.length = 5 := by decide +kernel
  have hbegin : beginStem.length = 11 := by decide +kernel
  have hend : endStem.length = 9 := by decide +kernel
  constructor
  · rintro hinfix
    have hlen := hinfix.length_le
    simp only [beginMarker, List.length_append] at hlen
    omega
  · rintro hinfix
    have hlen := hinfix.length_le
    simp only [endMarker, List.length_append] at hlen
    omega

def kindA : PemKind := ⟨"A".toList, by decide +kernel, List.all_eq_true.mp (by decide +kernel)⟩

/-- The dashes of a marker may complete one that was begun in front of it. -/
theorem pemBlocks_overlap :
    FindsLeftmost findPemBegin ∧
    (MarkerFree "-----BEGIN  ".toList ∧ MarkerFree "x".toList ∧
      pemBlocks findPemBegin 100
        ("-----BEGIN  ".toList ++ (pemBlock kindA "x".toList).pem) = .ok []) ∧
    MarkerFree "-----END A".toList ∧
      pemBlocks findPemBegin 100 (pemBlock kindA "-----END A".toList).pem =
        .ok [⟨kindA.1, "-----BEGIN A----------END A-----".toList⟩] ∧
      (pemBlock kindA "-----END A".toList).pem ≠ "-----BEGIN A----------END A-----".toList := by
  refine ⟨findsLeftmost_findPemBegin, ⟨markerFree_of_length_lt ?_, markerFree_of_length_lt ?_, ?_⟩,
    markerFree_of_length_lt ?_, ?_, ?_⟩
  · decide +kernel
  · decide +kernel
  · decide +kernel
  · decide +kernel
  · decide +kernel
  · decide +kernel

end SentirumLb
