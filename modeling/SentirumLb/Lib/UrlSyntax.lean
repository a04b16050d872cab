import SentirumLb.Lib.Words

/-! # The syntax of URLs

The basic parser of the URL standard, from the scheme to the port: nothing behind them can
fail. How a host is parsed is a parameter. Relative URLs do not parse, and URLs with the
scheme `file`, which have no port, are left out.
-/

namespace UrlSyntax

structure Parts where
  scheme : String
  host : Option String
  /-- The port, unless it is the default one of the scheme. -/
  port : Option UInt16
  deriving DecidableEq

def defaultPort (scheme : String) : Option UInt16 :=
  if scheme = "http" ∨ scheme = "ws" then some 80
  else if scheme = "https" ∨ scheme = "wss" then some 443
  else if scheme = "ftp" then some 21
  else none

def isSpecial (scheme : String) : Bool := (defaultPort scheme).isSome

/-- Control characters and spaces at the ends do not count, nor do tabs and line breaks. -/
def clean (cs : List Char) : List Char :=
  ((cs.dropWhile (·.toNat ≤ 32)).rdropWhile (·.toNat ≤ 32)).filter fun c =>
    c != '\t' && c != '\n' && c != '\r'

def isSchemeChar (c : Char) : Bool := c.isAlphanum || c == '+' || c == '-' || c == '.'

def splitScheme (cs : List Char) : Option (String × List Char) :=
  match cs.takeWhile isSchemeChar, cs.dropWhile isSchemeChar with
  | c :: name, ':' :: rest =>
      if c.isAlpha then some (Text.toAsciiLowercase (String.ofList (c :: name)), rest) else none
  | _, _ => none

def schemeOf (s : String) : Option String := (splitScheme (clean s.toList)).map (·.1)

def isEnd (special : Bool) (c : Char) : Bool :=
  c == '/' || c == '?' || c == '#' || special && c == '\\'

/-- The authority; only a URL whose scheme is not special can do without one. -/
def authority (special : Bool) (rest : List Char) : Option (List Char) :=
  if special then
    some ((rest.dropWhile fun c => c == '/' || c == '\\').takeWhile fun c => !isEnd true c)
  else
    match rest with
    | '/' :: '/' :: rest => some (rest.takeWhile fun c => !isEnd false c)
    | _ => none

def dropCredentials (cs : List Char) : Option (List Char) :=
  if '@' ∈ cs then some (cs.rtakeWhile (· != '@')) |>.filter (· ≠ []) else some cs

def splitHost : Bool → List Char → List Char × Option (List Char)
  | _, [] => ([], none)
  | inside, c :: cs =>
      if c = ':' ∧ inside = false then ([], some cs)
      else
        let rest := splitHost (if c = '[' then true else if c = ']' then false else inside) cs
        (c :: rest.1, rest.2)

def readPort (scheme : String) (cs : List Char) : Option (Option UInt16) :=
  if cs = [] then some none
  else if cs.all Char.isDigit then
    (Text.parseNat (2 ^ 16) (String.ofList cs)).map fun n =>
      if defaultPort scheme = some n.toUInt16 then none else some n.toUInt16
  else none

section Parse

variable (parseHost : Bool → String → Option String)

/-- The host and the port; only a URL whose scheme is not special can do without a host. -/
def parseHostPort (scheme : String) (cs : List Char) : Option Parts :=
  match splitHost false cs with
  | ([], none) => if isSpecial scheme then none else some ⟨scheme, none, none⟩
  | ([], some _) => none
  | (host, port) => do
      let host ← parseHost (isSpecial scheme) (String.ofList host)
      let port ← readPort scheme (port.getD [])
      pure ⟨scheme, some host, port⟩

def parse (s : String) : Option Parts := do
  let (scheme, rest) ← splitScheme (clean s.toList)
  match authority (isSpecial scheme) rest with
  | none => pure ⟨scheme, none, none⟩
  | some authority => do
      let cs ← dropCredentials authority
      parseHostPort parseHost scheme cs

end Parse

/-! ## Plain authorities -/

def IsAuthorityChar (c : Char) : Prop :=
  32 < c.toNat ∧ c ∉ ['/', '?', '#', '\\', '@', '[', ']']

structure IsScheme (scheme : String) : Prop where
  ne_empty : scheme ≠ ""
  lower : ∀ c ∈ scheme.toList, c.isLower = true

theorem IsScheme.isAlpha {scheme : String} (h : IsScheme scheme) :
    ∀ c ∈ scheme.toList, c.isAlpha = true := by
  intro c hc
  simp [Char.isAlpha, h.lower c hc]

theorem IsScheme.isAlphanum {scheme : String} (h : IsScheme scheme) :
    ∀ c ∈ scheme.toList, c.isAlphanum = true := by
  intro c hc
  simp [Char.isAlphanum, h.isAlpha c hc]

theorem clean_eq_self {cs : List Char} (h : ∀ c ∈ cs, 32 < c.toNat) : clean cs = cs := by
  have hstop : ∀ m : List Char, (∀ c ∈ m, 32 < c.toNat) →
      m.dropWhile (fun c => decide (c.toNat ≤ 32)) = m := by
    intro m hm
    cases m with
    | nil => rfl
    | cons c m =>
      refine List.dropWhile_cons_of_neg ?_
      have hc := hm c List.mem_cons_self
      simp only [decide_eq_true_eq]
      omega
  rw [clean, hstop cs h, List.rdropWhile, hstop _ (by simpa using h), List.reverse_reverse,
    List.filter_eq_self]
  intro c hc
  have hlarge := h c hc
  simp only [Bool.and_eq_true, bne_iff_ne, ne_eq]
  refine ⟨⟨?_, ?_⟩, ?_⟩ <;> rintro rfl <;> exact absurd hlarge (by decide)

theorem toNat_of_isAlphanum {c : Char} (h : c.isAlphanum = true) : 32 < c.toNat := by
  simp only [Char.isAlphanum, Char.isAlpha, Char.isUpper, Char.isLower, Char.isDigit,
    Bool.or_eq_true, Bool.and_eq_true, decide_eq_true_eq, UInt32.le_iff_toNat_le, ge_iff_le] at h
  change ((65 ≤ c.toNat ∧ c.toNat ≤ 90) ∨ (97 ≤ c.toNat ∧ c.toNat ≤ 122)) ∨
    (48 ≤ c.toNat ∧ c.toNat ≤ 57) at h
  omega

theorem splitScheme_append {scheme : String} (h : IsScheme scheme) (rest : List Char) :
    splitScheme (scheme.toList ++ ':' :: rest) = some (scheme, rest) := by
  have hscheme : ∀ c ∈ scheme.toList, isSchemeChar c = true := by
    intro c hc
    simp [isSchemeChar, h.isAlphanum c hc]
  have hcolon : isSchemeChar ':' = false := by decide
  have htake : (scheme.toList ++ ':' :: rest).takeWhile isSchemeChar = scheme.toList := by
    rw [List.takeWhile_append_of_pos hscheme, List.takeWhile_cons_of_neg (by simp [hcolon]),
      List.append_nil]
  have hdrop : (scheme.toList ++ ':' :: rest).dropWhile isSchemeChar = ':' :: rest := by
    rw [List.dropWhile_append_of_pos hscheme, List.dropWhile_cons_of_neg (by simp [hcolon])]
  have hlower : Text.toAsciiLowercase scheme = scheme := by
    refine Text.toAsciiLowercase_of_isAsciiLowercase fun c hc => ?_
    simpa using Char.not_isUpper_of_isLower (h.lower c hc)
  obtain ⟨c, name, hname⟩ := List.exists_cons_of_ne_nil (by simpa using h.ne_empty :
    scheme.toList ≠ [])
  rw [splitScheme, htake, hdrop, hname]
  simp only
  rw [if_pos (h.isAlpha c (by simp [hname])), ← hname, String.ofList_toList, hlower]

theorem isEnd_eq_false {c : Char} (h : IsAuthorityChar c) (special : Bool) :
    isEnd special c = false := by
  have hc := h.2
  simp only [List.mem_cons, not_or] at hc
  simp [isEnd, hc]

theorem authority_slashes {body tail : List Char} (h : ∀ c ∈ body, IsAuthorityChar c)
    (hne : body ≠ []) (htail : tail = [] ∨ tail = ['/']) (special : Bool) :
    authority special ('/' :: '/' :: body ++ tail) = some body := by
  have htake : (body ++ tail).takeWhile (fun c => !isEnd special c) = body := by
    rw [List.takeWhile_append_of_pos fun c hc => by simp [isEnd_eq_false (h c hc)]]
    rcases htail with rfl | rfl
    · simp
    · simp [isEnd]
  cases special with
  | false =>
    simp only [authority, List.cons_append]
    exact congrArg some htake
  | true =>
    obtain ⟨c, rest, rfl⟩ := List.exists_cons_of_ne_nil hne
    have hc := (h c List.mem_cons_self).2
    simp only [List.mem_cons, not_or] at hc
    have hdrop : ('/' :: '/' :: (c :: rest) ++ tail).dropWhile (fun c => c == '/' || c == '\\') =
        c :: rest ++ tail := by
      simp [hc]
    have hauthority : authority true ('/' :: '/' :: (c :: rest) ++ tail) =
        some ((('/' :: '/' :: (c :: rest) ++ tail).dropWhile fun c =>
          c == '/' || c == '\\').takeWhile fun c => !isEnd true c) := rfl
    rw [hauthority, hdrop, htake]

theorem dropCredentials_eq {body : List Char} (h : ∀ c ∈ body, IsAuthorityChar c) :
    dropCredentials body = some body := by
  have hat : '@' ∉ body := fun hc => (h _ hc).2 (by simp)
  rw [dropCredentials, if_neg hat]

theorem splitHost_colon {host port : List Char} (h : ∀ c ∈ host, c ≠ ':' ∧ c ≠ '[' ∧ c ≠ ']') :
    splitHost false (host ++ ':' :: port) = (host, some port) := by
  induction host with
  | nil => simp [splitHost]
  | cons c host ih =>
    obtain ⟨hcolon, hopen, hclose⟩ := h c List.mem_cons_self
    rw [List.cons_append, splitHost, if_neg fun hc => hcolon hc.1, if_neg hopen, if_neg hclose,
      ih fun d hd => h d (List.mem_cons_of_mem c hd)]

section Parse

variable {parseHost : Bool → String → Option String} {scheme : String} {body : List Char}

structure IsPlainUrl (scheme : String) (body : List Char) (s : String) : Prop where
  isScheme : IsScheme scheme
  plain : ∀ c ∈ body, IsAuthorityChar c
  ne_nil : body ≠ []
  text : ∃ tail, (tail = [] ∨ tail = ['/']) ∧
    s.toList = scheme.toList ++ ':' :: ('/' :: '/' :: body ++ tail)

theorem IsPlainUrl.splitScheme_eq {s : String} (h : IsPlainUrl scheme body s) :
    ∃ tail, (tail = [] ∨ tail = ['/']) ∧
      splitScheme (clean s.toList) = some (scheme, '/' :: '/' :: body ++ tail) := by
  obtain ⟨tail, htail, hlist⟩ := h.text
  have hclean : clean s.toList = s.toList := by
    refine clean_eq_self ?_
    rw [hlist]
    simp only [List.cons_append, List.forall_mem_append, List.forall_mem_cons]
    refine ⟨fun c hc => toNat_of_isAlphanum (h.isScheme.isAlphanum c hc), by decide, by decide,
      by decide, fun c hc => (h.plain c hc).1, ?_⟩
    rcases htail with rfl | rfl <;> simp
  exact ⟨tail, htail, by rw [hclean, hlist, splitScheme_append h.isScheme]⟩

theorem IsPlainUrl.schemeOf_eq {s : String} (h : IsPlainUrl scheme body s) :
    schemeOf s = some scheme := by
  obtain ⟨tail, -, hsplit⟩ := h.splitScheme_eq
  rw [schemeOf, hsplit, Option.map_some]

theorem IsPlainUrl.parse_eq {s : String} (h : IsPlainUrl scheme body s) :
    parse parseHost s = parseHostPort parseHost scheme body := by
  obtain ⟨tail, htail, hsplit⟩ := h.splitScheme_eq
  rw [parse, hsplit]
  simp only [Option.bind_eq_bind, Option.bind_some, authority_slashes h.plain h.ne_nil htail,
    dropCredentials_eq h.plain]

theorem parseHostPort_port {host : String} (hne : host ≠ "")
    (h : ∀ c ∈ host.toList, c ≠ ':' ∧ c ≠ '[' ∧ c ≠ ']') (port : UInt16) :
    parseHostPort parseHost scheme (host.toList ++ ':' :: (toString port.toNat).toList) =
      (parseHost (isSpecial scheme) host).map fun host =>
        ⟨scheme, some host, if defaultPort scheme = some port then none else some port⟩ := by
  have hdigits : (toString port.toNat).toList.all Char.isDigit = true :=
    List.all_eq_true.mpr fun _ hc => Text.isDigit_of_mem_toString hc
  have hport : readPort scheme (toString port.toNat).toList =
      some (if defaultPort scheme = some port then none else some port) := by
    rw [readPort, if_neg (by simp), if_pos hdigits, String.ofList_toList,
      Text.parseNat_toString port.toNat_lt]
    simp
  obtain ⟨c, cs, hcs⟩ := List.exists_cons_of_ne_nil (by simpa using hne : host.toList ≠ [])
  rw [parseHostPort, splitHost_colon h, hcs]
  simp only [← hcs, String.ofList_toList, Option.getD_some, hport]
  cases parseHost (isSpecial scheme) host <;> rfl

theorem parseHostPort_colon {host port : List Char}
    (h : ∀ c ∈ host, c ≠ ':' ∧ c ≠ '[' ∧ c ≠ ']') (hport : ':' ∈ port) :
    parseHostPort parseHost scheme (host ++ ':' :: port) = none := by
  have hread : readPort scheme port = none := by
    have hdigits : ¬port.all Char.isDigit = true :=
      fun hall => absurd (List.all_eq_true.mp hall ':' hport) (by decide)
    rw [readPort, if_neg (List.ne_nil_of_mem hport), if_neg hdigits]
  rw [parseHostPort, splitHost_colon h]
  cases host with
  | nil => rfl
  | cons c host =>
    simp only [Option.getD_some, hread]
    cases parseHost (isSpecial scheme) (String.ofList (c :: host)) <;> rfl

end Parse

end UrlSyntax
