import SentirumLb.Lib.UrlSyntax
import SentirumLb.Net.AddrText
import SentirumLb.Route.Target

/-! # URLs by the standard

The `url` crate follows the URL standard. What is assumed of its parsing of hosts is said
for canonical IPv4 addresses and for DNS names only.
-/

namespace SentirumLb

def Url.ofParts (parts : UrlSyntax.Parts) : Url where
  scheme := parts.scheme
  hostStr := parts.host
  port := parts.port
  portOrKnownDefault := parts.port <|> UrlSyntax.defaultPort parts.scheme

/-- A label of a DNS name. The predicate holds of the encoded international labels that are
valid. -/
structure IsLabel (IsALabel : String → Prop) (label : String) : Prop where
  ne_empty : label ≠ ""
  plain : ∀ c ∈ label.toList, c.isAlphanum = true ∨ c = '-' ∨ c = '_'
  international : Text.startsWith (Text.toAsciiLowercase label) "xn--" = true → IsALabel label

/-- A DNS name, with or without the dot of the root. Its last label is not a number. -/
def IsDnsName (IsALabel : String → Prop) (name : String) : Prop :=
  ∃ labels last, (∀ label ∈ labels ++ [last], IsLabel IsALabel label) ∧
    (∃ c ∈ last.toList.head?, c.isAlpha = true) ∧
    (name = ".".intercalate (labels ++ [last]) ∨ name = ".".intercalate (labels ++ [last]) ++ ".")

/-- The `url` crate is the parser of the standard: special schemes have their hosts lowercased, and
other ones have them as they are. -/
structure StandardUrls [Platform] (IsALabel : String → Prop)
    (parseHost : Bool → String → Option String) : Prop where
  urlParse : ∀ s, UrlSyntax.schemeOf s ≠ some "file" →
    Platform.urlParse s = (UrlSyntax.parse parseHost s).map Url.ofParts
  ipv4 : ∀ special (a : Ipv4Addr), parseHost special a.toText = some a.toText
  name : ∀ special name, IsDnsName IsALabel name →
    parseHost special name = some (if special then Text.toAsciiLowercase name else name)

/-- A host as it is registered: an address in its canonical form, or a DNS name. -/
inductive IsRegisteredHost (IsALabel : String → Prop) : String → Prop
  | ipv4 (a : Ipv4Addr) : IsRegisteredHost IsALabel a.toText
  | ipv6 (a : Ipv6Addr) : IsRegisteredHost IsALabel a.toText
  | name {name : String} : IsDnsName IsALabel name → IsRegisteredHost IsALabel name

def IsHostChar (c : Char) : Prop := c.isAlphanum = true ∨ c = '-' ∨ c = '_' ∨ c = '.'

theorem isHostChar_of_isDnsName {IsALabel : String → Prop} {name : String}
    (h : IsDnsName IsALabel name) : name ≠ "" ∧ ∀ c ∈ name.toList, IsHostChar c := by
  obtain ⟨labels, last, hlabels, -, hname⟩ := h
  have hchars : ∀ c ∈ (".".intercalate (labels ++ [last])).toList, IsHostChar c := by
    refine Text.forall_mem_intercalate (by simp [IsHostChar]) fun label hlabel c hc => ?_
    have hc := (hlabels label hlabel).plain c hc
    unfold IsHostChar
    tauto
  have hne : ".".intercalate (labels ++ [last]) ≠ "" :=
    Text.intercalate_ne_empty (by simp) fun label hlabel => (hlabels label hlabel).ne_empty
  rcases hname with rfl | rfl
  · exact ⟨hne, hchars⟩
  · refine ⟨by simp [hne], ?_⟩
    rw [String.toList_append, List.forall_mem_append]
    exact ⟨hchars, by simp [IsHostChar]⟩

theorem isHostChar_of_ipv4 (a : Ipv4Addr) :
    a.toText ≠ "" ∧ ∀ c ∈ a.toText.toList, IsHostChar c := by
  refine ⟨a.toText_ne_empty, fun c hc => ?_⟩
  rcases a.isDigit_or_toText c hc with h | rfl
  · exact Or.inl (by simp [Char.isAlphanum, h])
  · exact Or.inr (Or.inr (Or.inr rfl))

theorem isUpper_eq_false_of_isDigit {c : Char} (h : c.isDigit = true) : c.isUpper = false := by
  simp only [Char.isDigit, Char.isUpper, Bool.and_eq_true, decide_eq_true_eq, ge_iff_le,
    decide_eq_false_iff_not, UInt32.le_iff_toNat_le] at h ⊢
  have hnine : '9'.val.toNat < 'A'.val.toNat := by decide
  omega

theorem toAsciiLowercase_ipv4 (a : Ipv4Addr) : Text.toAsciiLowercase a.toText = a.toText := by
  refine Text.toAsciiLowercase_of_isAsciiLowercase fun c hc => ?_
  rcases a.isDigit_or_toText c hc with h | rfl
  · exact isUpper_eq_false_of_isDigit h
  · decide

theorem StandardUrls.parseHost_eq [Platform] {IsALabel : String → Prop}
    {parseHost : Bool → String → Option String} (hurls : StandardUrls IsALabel parseHost)
    {address : String} (hhost : IsRegisteredHost IsALabel address)
    (hv6 : ∀ a : Ipv6Addr, address ≠ a.toText) (special : Bool) :
    address ≠ "" ∧ (∀ c ∈ address.toList, IsHostChar c) ∧
      parseHost special address =
        some (if special then Text.toAsciiLowercase address else address) := by
  cases hhost with
  | ipv4 a =>
    refine ⟨(isHostChar_of_ipv4 a).1, (isHostChar_of_ipv4 a).2, ?_⟩
    rw [hurls.ipv4, toAsciiLowercase_ipv4, ite_self]
  | ipv6 a => exact absurd rfl (hv6 a)
  | name h => exact ⟨(isHostChar_of_isDnsName h).1, (isHostChar_of_isDnsName h).2, hurls.name _ _ h⟩

theorem isAuthorityChar {c : Char} (h : IsHostChar c ∨ c = ':') : UrlSyntax.IsAuthorityChar c := by
  unfold IsHostChar at h
  constructor
  · rcases h with (h | rfl | rfl | rfl) | rfl
    · exact UrlSyntax.toNat_of_isAlphanum h
    all_goals decide
  · intro hc
    simp only [List.mem_cons, List.not_mem_nil, or_false] at hc
    rcases hc with rfl | rfl | rfl | rfl | rfl | rfl | rfl <;> exact absurd h (by decide)

theorem IsHostChar.ne {c : Char} (h : IsHostChar c) : c ≠ ':' ∧ c ≠ '[' ∧ c ≠ ']' := by
  have hplain := (isAuthorityChar (Or.inl h)).2
  simp only [List.mem_cons, not_or] at hplain
  refine ⟨?_, hplain.2.2.2.2.2.1, hplain.2.2.2.2.2.2.1⟩
  rintro rfl
  exact absurd h (by unfold IsHostChar; decide)

theorem IsHostChar.toLower {c : Char} (h : IsHostChar c) : IsHostChar c.toLower := by
  by_cases hupper : c.isUpper = true
  · have halpha : c.toLower.isAlpha = true := by
      simp [Char.isAlpha, hupper]
    exact Or.inl (by simp only [Char.isAlphanum, halpha, Bool.true_or])
  · rw [Char.toLower_eq_of_not_isUpper hupper]
    exact h

/-! ## A host and a port in a URL -/

section Parsing

variable {IsALabel : String → Prop} {parseHost : Bool → String → Option String}

structure IsUrlFor (scheme address : String) (port : UInt16) (url : String) : Prop where
  isScheme : UrlSyntax.IsScheme scheme
  ne_file : scheme ≠ "file"
  text : ∃ tail, (tail = "" ∨ tail = "/") ∧
    url = scheme ++ "://" ++ (address ++ ":" ++ toString port.toNat) ++ tail

theorem IsUrlFor.isPlainUrl {scheme address url : String} {port : UInt16}
    (h : IsUrlFor scheme address port url)
    (haddress : ∀ c ∈ address.toList, IsHostChar c ∨ c = ':') :
    UrlSyntax.IsPlainUrl scheme (address.toList ++ ':' :: (toString port.toNat).toList) url := by
  obtain ⟨tail, htail, htext⟩ := h.text
  constructor
  case isScheme => exact h.isScheme
  case ne_nil => simp
  case plain =>
    rw [List.forall_mem_append, List.forall_mem_cons]
    refine ⟨fun c hc => isAuthorityChar (haddress c hc), isAuthorityChar (Or.inr rfl), ?_⟩
    intro c hc
    refine isAuthorityChar (Or.inl (Or.inl ?_))
    simp [Char.isAlphanum, Text.isDigit_of_mem_toString hc]
  case text =>
    refine ⟨tail.toList, ?_, by simp [htext]⟩
    rcases htail with rfl | rfl <;> simp

variable [Platform]

theorem StandardUrls.urlParse_eq (hurls : StandardUrls IsALabel parseHost)
    {scheme address url : String} {port : UInt16} (h : IsUrlFor scheme address port url)
    (haddress : ∀ c ∈ address.toList, IsHostChar c ∨ c = ':') :
    Platform.urlParse url = (UrlSyntax.parseHostPort parseHost scheme
      (address.toList ++ ':' :: (toString port.toNat).toList)).map Url.ofParts := by
  have hplain := h.isPlainUrl haddress
  have hfile : UrlSyntax.schemeOf url ≠ some "file" := by
    rw [hplain.schemeOf_eq]
    simpa using h.ne_file
  rw [hurls.urlParse url hfile, hplain.parse_eq]

theorem StandardUrls.urlParse_of_host (hurls : StandardUrls IsALabel parseHost)
    {scheme address url : String} {port : UInt16} (h : IsUrlFor scheme address port url)
    (hne : address ≠ "") (haddress : ∀ c ∈ address.toList, IsHostChar c) :
    Platform.urlParse url = (parseHost (UrlSyntax.isSpecial scheme) address).map fun host =>
      Url.ofParts ⟨scheme, some host,
        if UrlSyntax.defaultPort scheme = some port then none else some port⟩ := by
  rw [hurls.urlParse_eq h fun c hc => Or.inl (haddress c hc),
    UrlSyntax.parseHostPort_port hne fun c hc => (haddress c hc).ne, Option.map_map]
  rfl

theorem StandardUrls.urlParse_of_colons (hurls : StandardUrls IsALabel parseHost)
    {scheme address url : String} {port : UInt16} (h : IsUrlFor scheme address port url)
    (haddress : ∀ c ∈ address.toList, IsHostChar c ∨ c = ':') (hcolon : ':' ∈ address.toList) :
    Platform.urlParse url = none := by
  obtain ⟨host, rest, hlist, hhost⟩ := List.eq_append_cons_of_mem hcolon
  have hbody : address.toList ++ ':' :: (toString port.toNat).toList =
      host ++ ':' :: (rest ++ ':' :: (toString port.toNat).toList) := by
    rw [hlist, List.append_assoc, List.cons_append]
  have hchars : ∀ c ∈ host, c ≠ ':' ∧ c ≠ '[' ∧ c ≠ ']' := by
    intro c hc
    have hne : c ≠ ':' := fun hcolon => hhost (hcolon ▸ hc)
    have hmem : c ∈ address.toList := by
      rw [hlist]
      exact List.mem_append_left _ hc
    exact ((haddress c hmem).resolve_right hne).ne
  rw [hurls.urlParse_eq h haddress, hbody,
    UrlSyntax.parseHostPort_colon hchars (by simp), Option.map_none]

end Parsing

/-! ## A parser of plain hosts -/

/-- Hosts that are IPv6 addresses in brackets, or made of the characters of names. -/
def parsePlainHost (special : Bool) (host : String) : Option String :=
  if Text.startsWith host "[" then
    if (IpAddr.parse (Text.trimMatches ['[', ']'] host)).isSome then some host else none
  else some (if special then Text.toAsciiLowercase host else host)

@[reducible] def Platform.standard : Platform :=
  { Platform.plain with
    urlParse := fun s => (UrlSyntax.parse parsePlainHost s).map Url.ofParts }

theorem parsePlainHost_of_isHostChar {host : String} (h : ∀ c ∈ host.toList, IsHostChar c)
    (special : Bool) :
    parsePlainHost special host = some (if special then Text.toAsciiLowercase host else host) := by
  have hstart : ¬Text.startsWith host "[" = true := by
    rw [Text.startsWith_iff]
    intro hpre
    exact (h '[' (hpre.subset List.mem_cons_self)).ne.2.1 rfl
  rw [parsePlainHost, if_neg hstart]

attribute [local instance] Platform.standard in
theorem standardUrls_standard (IsALabel : String → Prop) :
    StandardUrls IsALabel parsePlainHost where
  urlParse _ _ := rfl
  ipv4 special a := by
    rw [parsePlainHost_of_isHostChar (isHostChar_of_ipv4 a).2, toAsciiLowercase_ipv4, ite_self]
  name special _ h := parsePlainHost_of_isHostChar (isHostChar_of_isDnsName h).2 special

end SentirumLb
