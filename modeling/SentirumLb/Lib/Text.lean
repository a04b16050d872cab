import Mathlib

/-! # Text operations of systems code

Searching, splitting, trimming and ASCII case folding of UTF-8 text, as
functions on the list of characters. Lengths are byte lengths, and a prefix of
a given byte length exists only when it ends on a character boundary.
-/

namespace Text

def before (c : Char) (s : String) : String := String.ofList (s.toList.takeWhile (· != c))

def after (c : Char) (s : String) : Option String :=
  match s.toList.dropWhile (· != c) with
  | [] => none
  | _ :: rest => some (String.ofList rest)

def startsWith (s p : String) : Bool := p.toList.isPrefixOf s.toList

def endsWith (s p : String) : Bool := p.toList.isSuffixOf s.toList

def trimMatches (set : List Char) (s : String) : String :=
  String.ofList ((s.toList.dropWhile (set.contains ·)).rdropWhile (set.contains ·))

def isWhitespace (c : Char) : Bool :=
  let n := c.toNat
  (9 ≤ n && n ≤ 13) || n == 0x20 || n == 0x85 || n == 0xA0 || n == 0x1680 ||
    (0x2000 ≤ n && n ≤ 0x200A) || n == 0x2028 || n == 0x2029 || n == 0x202F || n == 0x205F ||
    n == 0x3000

def trim (s : String) : String :=
  String.ofList ((s.toList.dropWhile isWhitespace).rdropWhile isWhitespace)

def split (c : Char) (s : String) : List String := (s.toList.splitOn c).map String.ofList

def splitOnce (c : Char) (s : String) : Option (String × String) :=
  (after c s).map fun rest => (before c s, rest)

def stripPrefix (s p : String) : Option String :=
  if startsWith s p then some (String.ofList (s.toList.drop p.length)) else none

def stripSuffix (s p : String) : Option String :=
  if endsWith s p then some (String.ofList (s.toList.take (s.length - p.length))) else none

/-- Drop a pattern from the front, at most so many times. -/
def dropPattern (pattern : List Char) : ℕ → List Char → List Char
  | 0, cs => cs
  | n + 1, cs =>
      if pattern.isPrefixOf cs then dropPattern pattern n (cs.drop pattern.length) else cs

def trimStartMatches (s p : String) : String :=
  String.ofList (dropPattern p.toList s.length s.toList)

def trimEndMatches (s p : String) : String :=
  String.ofList (dropPattern p.toList.reverse s.length s.toList.reverse).reverse

def splitWhitespace (s : String) : List String :=
  ((s.toList.splitOnP isWhitespace).filter (· ≠ [])).map String.ofList

def bytes (s : String) : List UInt8 := s.toList.flatMap String.utf8EncodeChar

@[simp] theorem bytes_append (s t : String) : bytes (s ++ t) = bytes s ++ bytes t := by
  rw [bytes, String.toList_append, List.flatMap_append]
  rfl

/-- How many bytes the encoding of a character takes that starts with this one; zero where none
does. -/
def leadWidth (b : UInt8) : ℕ :=
  if b < 0x80 then 1
  else if b < 0xC2 then 0
  else if b < 0xE0 then 2
  else if b < 0xF0 then 3
  else if b < 0xF5 then 4
  else 0

/-- The second byte is one that may follow the first. Overlong forms, surrogates and numbers above
the last character are excluded by this byte. -/
def follows (lead b : UInt8) : Bool :=
  if leadWidth lead ≤ 1 then false
  else if lead = 0xE0 then 0xA0 ≤ b && b ≤ 0xBF
  else if lead = 0xED then 0x80 ≤ b && b ≤ 0x9F
  else if lead = 0xF0 then 0x90 ≤ b && b ≤ 0xBF
  else if lead = 0xF4 then 0x80 ≤ b && b ≤ 0x8F
  else 0x80 ≤ b && b ≤ 0xBF

def isContinuation (b : UInt8) : Bool := 0x80 ≤ b && b ≤ 0xBF

def payload (b : UInt8) : ℕ := b.toNat % 64

/-- The character that starts with this byte, and how many of the bytes behind it belong to it. The
replacement character stands for the longest part that is the start of a character and no more. -/
def decodeHead (b0 : UInt8) : List UInt8 → Char × ℕ
  | [] => (if b0 < 0x80 then Char.ofNat b0.toNat else '\uFFFD', 0)
  | b1 :: rest =>
      if b0 < 0x80 then (Char.ofNat b0.toNat, 0)
      else if !follows b0 b1 then ('\uFFFD', 0)
      else if leadWidth b0 = 2 then (Char.ofNat (b0.toNat % 32 * 64 + payload b1), 1)
      else
        match rest with
        | [] => ('\uFFFD', 1)
        | b2 :: rest =>
            if !isContinuation b2 then ('\uFFFD', 1)
            else if leadWidth b0 = 3 then
              (Char.ofNat (b0.toNat % 16 * 4096 + payload b1 * 64 + payload b2), 2)
            else
              match rest with
              | [] => ('\uFFFD', 2)
              | b3 :: _ =>
                  if !isContinuation b3 then ('\uFFFD', 2)
                  else
                    (Char.ofNat (b0.toNat % 8 * 262144 + payload b1 * 4096 + payload b2 * 64 +
                      payload b3), 3)

def decodeFrom : ℕ → List UInt8 → List Char
  | _, [] => []
  | skip + 1, _ :: bs => decodeFrom skip bs
  | 0, b :: bs => (decodeHead b bs).1 :: decodeFrom (decodeHead b bs).2 bs

def fromUtf8Lossy (bs : List UInt8) : String := String.ofList (decodeFrom 0 bs)

/-- An unsigned decimal number below `bound`, with an optional plus sign. -/
def parseNat (bound : ℕ) (s : String) : Option ℕ :=
  let digits := match s.toList with
    | '+' :: rest => rest
    | cs => cs
  if digits ≠ [] ∧ digits.all Char.isDigit then
    (some (digits.foldl (fun n c => n * 10 + (c.toNat - '0'.toNat)) 0)).filter (· < bound)
  else none

def toAsciiLowercase (s : String) : String := String.ofList (s.toList.map Char.toLower)

def eqIgnoreAsciiCase (s t : String) : Bool := toAsciiLowercase s == toAsciiLowercase t

def takeBytes : ℕ → List Char → Option (List Char)
  | 0, _ => some []
  | _ + 1, [] => none
  | n + 1, c :: cs =>
      if c.utf8Size ≤ n + 1 then (takeBytes (n + 1 - c.utf8Size) cs).map (c :: ·) else none

def bytesPrefix (s : String) (n : ℕ) : Option String := (takeBytes n s.toList).map String.ofList

def IsAsciiLowercase (s : String) : Prop := ∀ c ∈ s.toList, c.isUpper = false

theorem isAsciiLowercase_toAsciiLowercase (s : String) :
    IsAsciiLowercase (toAsciiLowercase s) := by
  intro c hc
  simp only [toAsciiLowercase, String.toList_ofList, List.mem_map] at hc
  obtain ⟨a, -, rfl⟩ := hc
  exact Char.isUpper_toLower_eq_false a

theorem toAsciiLowercase_of_isAsciiLowercase {s : String} (h : IsAsciiLowercase s) :
    toAsciiLowercase s = s := by
  have he : s.toList.map Char.toLower = s.toList := by
    conv_rhs => rw [← List.map_id s.toList]
    apply List.map_congr_left
    intro c hc
    exact Char.toLower_eq_of_not_isUpper (by simp [h c hc])
  rw [toAsciiLowercase, he, String.ofList_toList]

@[simp] theorem toAsciiLowercase_empty : toAsciiLowercase "" = "" := rfl

@[simp] theorem toAsciiLowercase_eq_empty {s : String} : toAsciiLowercase s = "" ↔ s = "" := by
  rw [← String.toList_inj, ← String.toList_inj]
  simp [toAsciiLowercase]

theorem startsWith_iff {s p : String} : startsWith s p = true ↔ p.toList <+: s.toList :=
  List.isPrefixOf_iff_prefix

theorem stripSuffix_eq_some_iff {s p b : String} : stripSuffix s p = some b ↔ s = b ++ p := by
  simp only [stripSuffix, endsWith, Option.ite_none_right_eq_some, List.isSuffixOf_iff_suffix,
    Option.some.injEq]
  constructor
  · rintro ⟨⟨t, ht⟩, rfl⟩
    have hlen : s.length - p.length = t.length := by
      rw [← String.length_toList, ← ht, List.length_append, String.length_toList]
      omega
    rw [← String.toList_inj, hlen, ← ht]
    simp
  · rintro rfl
    refine ⟨⟨b.toList, String.toList_append.symm⟩, ?_⟩
    rw [String.length_append, Nat.add_sub_cancel, String.toList_append, ← String.length_toList,
      List.take_left, String.ofList_toList]

theorem utf8Size_toLower (c : Char) : c.toLower.utf8Size = c.utf8Size := by
  unfold Char.toLower
  split
  · next h =>
    have hc : c.val ≤ 'Z'.val := h.2
    have hlow : c.val + ('a'.val - 'A'.val) ≤ 127 := by
      have h1 : 'A'.val.toNat ≤ c.val.toNat := h.1
      have h2 : c.val.toNat ≤ 'Z'.val.toNat := h.2
      rw [UInt32.le_iff_toNat_le, UInt32.toNat_add]
      simp at h1 h2 ⊢
      omega
    have hc' : c.val ≤ 127 := UInt32.le_trans hc (by decide)
    rw [Char.utf8Size_eq_one_iff.mpr hc', Char.utf8Size_eq_one_iff]
    exact hlow
  · rfl

theorem utf8Len_map_toLower (cs : List Char) :
    String.utf8Len (cs.map Char.toLower) = String.utf8Len cs := by
  induction cs with
  | nil => rfl
  | cons c cs ih => simp [ih, utf8Size_toLower]

theorem takeBytes_eq_some_iff {n : ℕ} {cs p : List Char} :
    takeBytes n cs = some p ↔ p <+: cs ∧ String.utf8Len p = n := by
  induction cs generalizing n p with
  | nil => cases n <;> simp +contextual [takeBytes, eq_comm]
  | cons c cs ih =>
    cases n with
    | zero =>
      simp only [takeBytes, Option.some.injEq, String.utf8Len_eq_zero]
      constructor
      · rintro rfl
        exact ⟨List.nil_prefix, rfl⟩
      · rintro ⟨-, rfl⟩
        rfl
    | succ n =>
      have hpos := c.utf8Size_pos
      rw [takeBytes]
      constructor
      · intro h
        split at h
        · next hc =>
          obtain ⟨q, hq, rfl⟩ := Option.map_eq_some_iff.mp h
          obtain ⟨hpre, hlen⟩ := ih.mp hq
          refine ⟨List.cons_prefix_cons.mpr ⟨rfl, hpre⟩, ?_⟩
          rw [String.utf8Len_cons, hlen]
          omega
        · cases h
      · rintro ⟨hpre, hlen⟩
        cases p with
        | nil => simp at hlen
        | cons d q =>
          obtain ⟨rfl, hpre'⟩ := List.cons_prefix_cons.mp hpre
          rw [String.utf8Len_cons] at hlen
          have hq : takeBytes (n + 1 - d.utf8Size) cs = some q := ih.mpr ⟨hpre', by omega⟩
          rw [if_pos (by omega), hq]
          rfl

theorem eq_of_prefix_of_utf8ByteSize_eq {s t : String} (h : s.toList <+: t.toList)
    (hlen : s.utf8ByteSize = t.utf8ByteSize) : s = t := by
  rw [← String.toList_inj]
  obtain ⟨rest, hr⟩ := h
  rw [← String.utf8Len_toList, ← String.utf8Len_toList, ← hr, String.utf8Len_append] at hlen
  have hnil : rest = [] := String.utf8Len_eq_zero.mp (by omega)
  rw [← hr, hnil, List.append_nil]

theorem bytesPrefix_eqIgnoreAsciiCase_iff {s p : String} :
    (bytesPrefix s p.utf8ByteSize).any (eqIgnoreAsciiCase · p) = true ↔
      ∃ cs, cs <+: s.toList ∧ cs.map Char.toLower = p.toList.map Char.toLower := by
  have heq : ∀ cs, eqIgnoreAsciiCase (String.ofList cs) p = true ↔
      cs.map Char.toLower = p.toList.map Char.toLower := by
    intro cs
    simp [eqIgnoreAsciiCase, toAsciiLowercase, ← String.toList_inj]
  constructor
  · intro h
    unfold bytesPrefix at h
    cases htake : takeBytes p.utf8ByteSize s.toList with
    | none => simp [htake] at h
    | some cs =>
      rw [htake, Option.map_some, Option.any_some] at h
      exact ⟨cs, (takeBytes_eq_some_iff.mp htake).1, (heq cs).mp h⟩
  · rintro ⟨cs, hpre, hcs⟩
    have hlen : String.utf8Len cs = p.utf8ByteSize := by
      rw [← utf8Len_map_toLower, hcs, utf8Len_map_toLower, String.utf8Len_toList]
    have htake := takeBytes_eq_some_iff.mpr ⟨hpre, hlen⟩
    simp [bytesPrefix, htake, (heq cs).mpr hcs]

/-! ## Splitting and trimming -/

theorem splitOnce_eq_some_iff {c : Char} {s a b : String} :
    splitOnce c s = some (a, b) ↔ s.toList = a.toList ++ c :: b.toList ∧ c ∉ a.toList := by
  have hdrop : ∀ l : List Char, (l.takeWhile (· != c) ++ l.dropWhile (· != c)) = l :=
    fun l => List.takeWhile_append_dropWhile
  constructor
  · intro h
    unfold splitOnce after before at h
    split at h
    · cases h
    · next x rest hx =>
      have hx' : x = c := by
        have hhead := List.head?_dropWhile_not (· != c) s.toList
        rw [hx] at hhead
        simpa using hhead
      simp only [Option.map_some, Option.some.injEq, Prod.mk.injEq] at h
      obtain ⟨rfl, rfl⟩ := h
      simp only [String.toList_ofList]
      constructor
      · rw [← hx', ← hx, hx', hdrop]
      · intro hmem
        simpa using List.mem_takeWhile_imp hmem
  · rintro ⟨hs, hc⟩
    have hall : ∀ x ∈ a.toList, (x != c) = true := by
      intro x hx
      simp only [bne_iff_ne]
      rintro rfl
      exact hc hx
    have hafter : s.toList.dropWhile (· != c) = c :: b.toList := by
      rw [hs, List.dropWhile_append_of_pos hall]
      simp
    have hbefore : s.toList.takeWhile (· != c) = a.toList := by
      rw [hs, List.takeWhile_append_of_pos hall]
      simp
    simp [splitOnce, after, before, hafter, hbefore]

theorem trim_spec (s : String) : ∃ l r, s.toList = l ++ (trim s).toList ++ r ∧
    (∀ c ∈ l, isWhitespace c = true) ∧ ∀ c ∈ r, isWhitespace c = true := by
  refine ⟨s.toList.takeWhile isWhitespace, (s.toList.dropWhile isWhitespace).rtakeWhile
    isWhitespace, ?_, fun c hc => List.mem_takeWhile_imp hc, fun c hc =>
    List.mem_rtakeWhile_imp hc⟩
  rw [trim, String.toList_ofList, List.append_assoc, List.rdropWhile_append_rtakeWhile,
    List.takeWhile_append_dropWhile]

structure Trimmed (s : String) : Prop where
  head : ∀ c ∈ s.toList.head?, isWhitespace c = false
  last : ∀ c ∈ s.toList.getLast?, isWhitespace c = false

theorem trimmed_of_forall {s : String} (h : ∀ c ∈ s.toList, isWhitespace c = false) :
    Trimmed s where
  head c hc := h c (List.mem_of_mem_head? hc)
  last c hc := h c (List.mem_of_mem_getLast? hc)

theorem trimmed_trim (s : String) : Trimmed (trim s) where
  head c hc := by
    rw [trim, String.toList_ofList] at hc
    obtain ⟨rest, hrest⟩ := List.rdropWhile_prefix isWhitespace (s.toList.dropWhile isWhitespace)
    have hhead := List.head?_dropWhile_not isWhitespace s.toList
    rw [← hrest] at hhead
    cases hr : (s.toList.dropWhile isWhitespace).rdropWhile isWhitespace with
    | nil => simp [hr] at hc
    | cons x xs =>
      rw [hr, List.head?_cons, Option.mem_some_iff] at hc
      simpa [hr, hc] using hhead
  last c hc := by
    rw [trim, String.toList_ofList] at hc
    obtain ⟨hne, rfl⟩ := List.mem_getLast?_eq_getLast hc
    simpa using List.rdropWhile_last_not isWhitespace _ hne

theorem trim_eq_of_append {s t : String} {l r : List Char} (hs : s.toList = l ++ t.toList ++ r)
    (hl : ∀ c ∈ l, isWhitespace c = true) (hr : ∀ c ∈ r, isWhitespace c = true)
    (ht : Trimmed t) : trim s = t := by
  have hback : (t.toList ++ r).rdropWhile isWhitespace = t.toList := by
    rw [List.rdropWhile, List.reverse_append, List.dropWhile_append_of_pos (by simpa using hr),
      List.dropWhile_eq_self_iff.mpr, List.reverse_reverse]
    intro hpos
    have hlast : t.toList.reverse[0] ∈ t.toList.getLast? := by
      rw [Option.mem_def, ← List.head?_reverse, List.head?_eq_getElem?, List.getElem?_eq_getElem]
    simpa using ht.last _ hlast
  rw [← String.toList_inj, trim, String.toList_ofList]
  cases hcs : t.toList with
  | nil =>
    have hall : ∀ c ∈ s.toList, isWhitespace c = true := by
      intro c hc
      rw [hs, hcs, List.append_nil] at hc
      exact (List.mem_append.mp hc).elim (hl c) (hr c)
    rw [List.dropWhile_eq_nil_iff.mpr hall]
    rfl
  | cons x xs =>
    have hx : isWhitespace x = false := ht.head x (by simp [hcs])
    have hfront : s.toList.dropWhile isWhitespace = t.toList ++ r := by
      rw [hs, List.append_assoc, List.dropWhile_append_of_pos hl, hcs, List.cons_append,
        List.dropWhile_cons_of_neg (by simp [hx])]
    rw [hfront, hback, hcs]

theorem trim_eq_self {s : String} (h : ∀ c ∈ s.toList, isWhitespace c = false) : trim s = s :=
  trim_eq_of_append (l := []) (r := []) (by simp) (by simp) (by simp) (trimmed_of_forall h)

@[simp] theorem trim_trim (s : String) : trim (trim s) = trim s :=
  trim_eq_of_append (l := []) (r := []) (by simp) (by simp) (by simp) (trimmed_trim s)

/-! ## Numbers -/

theorem isWhitespace_eq_false_of_isAlphanum {c : Char} (h : c.isAlphanum = true) :
    isWhitespace c = false := by
  have hrange : 48 ≤ c.toNat ∧ c.toNat ≤ 122 := by
    simp only [Char.isAlphanum, Char.isAlpha, Char.isUpper, Char.isLower, Char.isDigit,
      Bool.or_eq_true, Bool.and_eq_true, decide_eq_true_eq, ge_iff_le, UInt32.le_iff_toNat_le,
      Char.reduceVal, UInt32.reduceToNat] at h
    simp only [Char.toNat]
    omega
  simp only [isWhitespace, Bool.or_eq_false_iff, Bool.and_eq_false_iff, decide_eq_false_iff_not,
    beq_eq_false_iff_ne]
  omega

theorem isWhitespace_eq_false_of_isDigit {c : Char} (h : c.isDigit = true) :
    isWhitespace c = false :=
  isWhitespace_eq_false_of_isAlphanum (by simp [Char.isAlphanum, h])

/-- One or more decimal digits. -/
def IsNumeral (ds : List Char) : Prop := ds ≠ [] ∧ ∀ c ∈ ds, c.isDigit = true

def plusSign (signed : Bool) : List Char := if signed then ['+'] else []

theorem ne_plus_of_isDigit {c : Char} (h : c.isDigit = true) : c ≠ '+' := by
  rintro rfl
  exact absurd h (by decide)

theorem IsNumeral.not_suffix {ds front p : List Char} (hds : IsNumeral ds) (hp : p ≠ [])
    (hdigits : ∀ c ∈ p, c.isDigit = false) : ¬p <:+ front ++ ds := by
  rintro ⟨front', hfront⟩
  obtain ⟨pre, c, hpc⟩ := (List.eq_nil_or_concat' p).resolve_left hp
  obtain ⟨ds', d, hd⟩ := (List.eq_nil_or_concat' ds).resolve_left hds.1
  have hlast := congrArg List.getLast? hfront
  rw [hpc, hd, ← List.append_assoc, ← List.append_assoc, List.getLast?_concat,
    List.getLast?_concat, Option.some.injEq] at hlast
  have hdigit := hds.2 d (by simp [hd])
  rw [← hlast, hdigits c (by simp [hpc])] at hdigit
  cases hdigit

/-- A parsed number is a numeral below the bound, and a plus sign may stand in front of it. -/
theorem parseNat_eq_some_iff {bound n : ℕ} {s : String} :
    parseNat bound s = some n ↔ ∃ signed ds, s.toList = plusSign signed ++ ds ∧ IsNumeral ds ∧
      Nat.ofDigitChars 10 ds 0 = n ∧ n < bound := by
  have hvalue : ∀ ds : List Char,
      ds.foldl (fun n c => n * 10 + (c.toNat - '0'.toNat)) 0 = Nat.ofDigitChars 10 ds 0 := by
    intro ds
    simp only [Nat.ofDigitChars_eq_foldl, Nat.mul_comm]
  have hread : ∀ ds : List Char, (if ds ≠ [] ∧ ds.all Char.isDigit then
      (some (ds.foldl (fun n c => n * 10 + (c.toNat - '0'.toNat)) 0)).filter (· < bound)
      else none) = some n ↔ IsNumeral ds ∧ Nat.ofDigitChars 10 ds 0 = n ∧ n < bound := by
    intro ds
    rw [Option.ite_none_right_eq_some, Option.filter_eq_some_iff, hvalue, Option.some.injEq,
      List.all_eq_true, IsNumeral, decide_eq_true_eq]
  unfold parseNat
  dsimp only
  split
  · next rest hs =>
    rw [hread]
    constructor
    · rintro ⟨hds, hn, hlt⟩
      exact ⟨true, rest, hs, hds, hn, hlt⟩
    · rintro ⟨signed, ds, hsplit, hds, hn, hlt⟩
      cases signed with
      | true =>
        cases hs.symm.trans hsplit
        exact ⟨hds, hn, hlt⟩
      | false =>
        have hmem : '+' ∈ ds := by
          have he : '+' :: rest = ds := hs.symm.trans hsplit
          exact he ▸ List.mem_cons_self
        exact absurd rfl (ne_plus_of_isDigit (hds.2 '+' hmem))
  · next cs hs =>
    rw [hread]
    constructor
    · rintro ⟨hds, hn, hlt⟩
      exact ⟨false, _, rfl, hds, hn, hlt⟩
    · rintro ⟨signed, ds, hsplit, hds, hn, hlt⟩
      cases signed with
      | true => exact absurd hsplit (hs ds)
      | false =>
        rw [hsplit]
        exact ⟨hds, hn, hlt⟩

theorem isWhitespace_eq_false_of_parseNat {bound n : ℕ} {s : String}
    (h : parseNat bound s = some n) : ∀ c ∈ s.toList, isWhitespace c = false := by
  intro c hc
  obtain ⟨signed, ds, hs, hds, -, -⟩ := parseNat_eq_some_iff.mp h
  rw [hs, List.mem_append] at hc
  rcases hc with hc | hc
  · cases signed with
    | true =>
      rw [List.mem_singleton.mp hc]
      rfl
    | false => cases hc
  · exact isWhitespace_eq_false_of_isDigit (hds.2 c hc)

theorem isDigit_of_mem_toString {n : ℕ} {c : Char} (h : c ∈ (toString n).toList) :
    c.isDigit = true := by
  rw [Nat.toString_eq_repr, Nat.toList_repr] at h
  exact Nat.isDigit_of_mem_toDigits (by decide) (by decide) h

theorem parseNat_toString {bound n : ℕ} (h : n < bound) : parseNat bound (toString n) = some n := by
  have hlist : (toString n).toList = Nat.toDigits 10 n := by
    simp [Nat.toString_eq_repr, Nat.toList_repr]
  have hnumeral : IsNumeral (toString n).toList :=
    ⟨hlist ▸ Nat.toDigits_ne_nil, fun _ hc => isDigit_of_mem_toString hc⟩
  have hvalue : Nat.ofDigitChars 10 (toString n).toList 0 = n := by
    rw [hlist, Nat.ofDigitChars_ten_toDigits]
  exact parseNat_eq_some_iff.mpr ⟨false, (toString n).toList, rfl, hnumeral, hvalue, h⟩

theorem toString_nat_injective {m n : ℕ} (h : toString m = toString n) : m = n := by
  have hm := parseNat_toString (Nat.lt_succ_of_le (le_max_left m n))
  have hn := parseNat_toString (Nat.lt_succ_of_le (le_max_right m n))
  rw [h, hn] at hm
  exact (Option.some.inj hm).symm

theorem append_cons_inj_of_last {α : Type*} {c : α} {a b s t : List α} (hs : c ∉ s) (ht : c ∉ t) :
    a ++ c :: s = b ++ c :: t ↔ a = b ∧ s = t := by
  constructor
  · intro h
    rcases List.append_eq_append_iff.mp h with ⟨m, rfl, hm⟩ | ⟨m, rfl, hm⟩
    · cases m with
      | nil => simpa using hm
      | cons x m =>
        rw [List.cons_append, List.cons.injEq] at hm
        exact absurd (hm.2 ▸ List.mem_append_right m List.mem_cons_self) hs
    · cases m with
      | nil => simpa [eq_comm] using hm
      | cons x m =>
        rw [List.cons_append, List.cons.injEq] at hm
        exact absurd (hm.2 ▸ List.mem_append_right m List.mem_cons_self) ht
  · rintro ⟨rfl, rfl⟩
    rfl

/-- A text and the number behind it can be told apart by the last colon. -/
theorem eq_of_append_colon_repr_eq {s t : String} {m n : ℕ}
    (h : s ++ ":" ++ toString m = t ++ ":" ++ toString n) : s = t := by
  have hcolon : ∀ k : ℕ, ':' ∉ (toString k).toList :=
    fun k hc => absurd (isDigit_of_mem_toString hc) (by decide)
  have hlist : ∀ (l : String) (k : ℕ),
      (l ++ ":" ++ toString k).toList = l.toList ++ ':' :: (toString k).toList := by
    intro l k
    simp
  rw [← String.toList_inj, hlist, hlist, append_cons_inj_of_last (hcolon m) (hcolon n)] at h
  exact String.toList_inj.mp h.1

/-! ## Repeated prefixes -/

theorem startsWith_iff_append {s p : String} : startsWith s p = true ↔ ∃ r, s = p ++ r := by
  rw [startsWith_iff]
  constructor
  · rintro ⟨r, hr⟩
    refine ⟨String.ofList r, ?_⟩
    rw [← String.toList_inj, String.toList_append, String.toList_ofList, hr]
  · rintro ⟨r, rfl⟩
    rw [String.toList_append]
    exact List.prefix_append _ _

theorem dropPattern_eq {pattern : List Char} (hp : pattern ≠ []) {m n : ℕ} {cs : List Char}
    (hm : cs.length ≤ m) (hn : cs.length ≤ n) :
    dropPattern pattern m cs = dropPattern pattern n cs := by
  have hpos := List.length_pos_iff.mpr hp
  have hnone : ∀ k, dropPattern pattern k [] = [] := by
    intro k
    cases k with
    | zero => rfl
    | succ k => simp [dropPattern, hp]
  induction m generalizing n cs with
  | zero =>
    rw [List.eq_nil_of_length_eq_zero (Nat.le_zero.mp hm), hnone, hnone]
  | succ m ih =>
    cases n with
    | zero => rw [List.eq_nil_of_length_eq_zero (Nat.le_zero.mp hn), hnone, hnone]
    | succ n =>
      rw [dropPattern, dropPattern]
      split
      · exact ih (by simp; omega) (by simp; omega)
      · rfl

theorem trimStartMatches_append {p : String} (hp : p ≠ "") (s : String) :
    trimStartMatches (p ++ s) p = trimStartMatches s p := by
  have hp' : p.toList ≠ [] := by simpa using hp
  have hpos := List.length_pos_iff.mpr hp'
  unfold trimStartMatches
  congr 1
  obtain ⟨n, hn⟩ : ∃ n, (p ++ s).length = n + 1 := by
    refine ⟨(p ++ s).length - 1, ?_⟩
    rw [String.length_append, ← String.length_toList, ← String.length_toList]
    omega
  have hprefix : p.toList.isPrefixOf (p ++ s).toList = true :=
    startsWith_iff_append.mpr ⟨s, rfl⟩
  rw [hn, dropPattern, if_pos hprefix, String.toList_append, List.drop_left]
  refine dropPattern_eq hp' ?_ String.length_toList.le
  rw [String.length_append, ← String.length_toList, ← String.length_toList] at hn
  omega

theorem trimStartMatches_of_not {s p : String} (h : startsWith s p = false) :
    trimStartMatches s p = s := by
  unfold startsWith at h
  unfold trimStartMatches
  cases hn : s.length with
  | zero => rw [dropPattern, String.ofList_toList]
  | succ n => rw [dropPattern, h, if_neg (by simp), String.ofList_toList]

theorem startsWith_trimStartMatches {p : String} (hp : p ≠ "") (s : String) :
    startsWith (trimStartMatches s p) p = false := by
  induction hn : s.length using Nat.strongRecOn generalizing s with
  | ind n ih =>
    by_cases h : startsWith s p = true
    · obtain ⟨r, rfl⟩ := startsWith_iff_append.mp h
      have hpos : 0 < p.length := by
        rw [← String.length_toList]
        exact List.length_pos_iff.mpr (by simpa using hp)
      rw [trimStartMatches_append hp]
      refine ih r.length ?_ r rfl
      rw [← hn, String.length_append]
      omega
    · have hnot := Bool.eq_false_iff.mpr h
      rw [trimStartMatches_of_not hnot]
      exact hnot

end Text
