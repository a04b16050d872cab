import SentirumLb.Lib.Numerals
import SentirumLb.Route.Target

/-! # The path sent upstream

A target may strip a prefix off the path and prepend another one. Both keep the
path absolute, and what one of them puts there the other takes away again.
-/

namespace SentirumLb

structure Uri where
  /-- Scheme and authority of a URI in absolute form. -/
  origin : Option String
  path : String
  query : Option String
  deriving DecidableEq

def pathAndQuery (path : String) (query : Option String) : String :=
  match query with
  | some query => path ++ "?" ++ query
  | none => path

class HttpUri where
  isPathChar : Char → Bool
  isQueryChar : Char → Bool
  maxLen : ℕ
  parse : String → Option Uri

open HttpUri

structure IsPath [HttpUri] (path : String) : Prop where
  slash : Text.startsWith path "/" = true
  chars : ∀ c ∈ path.toList, isPathChar c = true

def IsQuery [HttpUri] (query : Option String) : Prop :=
  ∀ q ∈ query, ∀ c ∈ q.toList, isQueryChar c = true

/-- What the parser makes of an absolute path with a query, as it is documented. -/
class LawfulHttpUri [HttpUri] : Prop where
  isPathChar_slash : isPathChar '/' = true
  parse_pathAndQuery {path : String} {query : Option String} : IsPath path → IsQuery query →
    (pathAndQuery path query).utf8ByteSize ≤ maxLen →
      parse (pathAndQuery path query) = some ⟨none, path, query⟩

variable {W : Type}

namespace Target

def stripPath (t : Target W) : Option String := t.opts.lookup "strip"

def prependPath (t : Target W) : Option String := t.opts.lookup "prepend"

def isGrpc (t : Target W) : Bool :=
  match t.parsedProtocol with
  | .grpc | .grpcs => true
  | _ => false

end Target

def stripPathPrefix (strip originalPath : String) : Option String :=
  (Text.stripPrefix originalPath strip).map fun newPath =>
    if newPath = "" then "/"
    else if Text.startsWith newPath "/" then newPath
    else "/" ++ newPath

def prependPathPrefix (pre path : String) : String :=
  let trimmedPrefix := Text.trimEndMatches pre "/"
  let trimmedPath := Text.trimStartMatches path "/"
  match decide (trimmedPrefix = ""), decide (trimmedPath = "") with
  | true, true => "/"
  | true, false => "/" ++ trimmedPath
  | false, true =>
      if Text.startsWith trimmedPrefix "/" then trimmedPrefix ++ "/"
      else "/" ++ trimmedPrefix ++ "/"
  | false, false =>
      if Text.startsWith trimmedPrefix "/" then trimmedPrefix ++ "/" ++ trimmedPath
      else "/" ++ trimmedPrefix ++ "/" ++ trimmedPath

def isValidGrpcPath (path : String) : Bool :=
  match (Text.split '/' path).filter (· ≠ "") with
  | [service, method] => service ≠ "" && method ≠ ""
  | _ => false

/-- The `final_path` of `rewrite_upstream_uri`, when there is a rewrite. -/
def rewrittenPath (t : Target W) (originalPath : String) : Option String :=
  let stripped := t.stripPath.bind fun strip => stripPathPrefix strip originalPath
  match t.prependPath with
  | some pre => some (prependPathPrefix pre (stripped.getD originalPath))
  | none => stripped

/-- A path that is no gRPC method is not sent to a gRPC target; the URI stays as it was. -/
def rewriteUpstreamUri [HttpUri] (uri : Uri) (t : Target W) : Option Uri :=
  (rewrittenPath t uri.path).bind fun finalPath =>
    if t.isGrpc && !isValidGrpcPath finalPath then some uri
    else parse (pathAndQuery finalPath uri.query)

/-! ## Stripping and prepending -/

theorem stripPrefix_eq_some_iff {s p rest : String} :
    Text.stripPrefix s p = some rest ↔ s = p ++ rest := by
  have hdrop : ∀ r : String, String.ofList ((p ++ r).toList.drop p.length) = r := by
    intro r
    rw [String.toList_append, ← String.length_toList, List.drop_left, String.ofList_toList]
  unfold Text.stripPrefix
  rw [Option.ite_none_right_eq_some, Option.some.injEq, Text.startsWith_iff_append]
  constructor
  · rintro ⟨⟨r, rfl⟩, h⟩
    rw [← h, hdrop]
  · rintro rfl
    exact ⟨⟨rest, rfl⟩, hdrop rest⟩

theorem stripPathPrefix_eq_none_iff {strip path : String} :
    stripPathPrefix strip path = none ↔ Text.startsWith path strip = false := by
  rw [stripPathPrefix, Option.map_eq_none_iff, Text.stripPrefix]
  simp

/-- The prefix with a slash in front and none at the end; nothing but slashes is no prefix. -/
def normalizePrefix (pre : String) : String :=
  let trimmedPrefix := Text.trimEndMatches pre "/"
  if trimmedPrefix = "" ∨ Text.startsWith trimmedPrefix "/" = true then trimmedPrefix
  else "/" ++ trimmedPrefix

theorem prependPathPrefix_eq (pre path : String) : prependPathPrefix pre path =
    normalizePrefix pre ++ "/" ++ Text.trimStartMatches path "/" := by
  unfold prependPathPrefix normalizePrefix
  dsimp only
  by_cases hpre : Text.trimEndMatches pre "/" = "" <;>
    by_cases hpath : Text.trimStartMatches path "/" = "" <;>
      by_cases hslash : Text.startsWith (Text.trimEndMatches pre "/") "/" = true <;>
        simp [hpre, hpath, hslash]

theorem slash_trimStartMatches {path : String} (hslash : Text.startsWith path "/" = true)
    (htwo : Text.startsWith path "//" = false) : "/" ++ Text.trimStartMatches path "/" = path := by
  obtain ⟨rest, rfl⟩ := Text.startsWith_iff_append.mp hslash
  have hrest : Text.startsWith rest "/" = false := by
    refine Bool.eq_false_iff.mpr fun h => ?_
    obtain ⟨r, rfl⟩ := Text.startsWith_iff_append.mp h
    have htwo' := Bool.eq_false_iff.mp htwo
    exact htwo' (Text.startsWith_iff_append.mpr ⟨r, by rw [← String.append_assoc]; rfl⟩)
  rw [Text.trimStartMatches_append (by decide), Text.trimStartMatches_of_not hrest]

theorem stripPathPrefix_prependPathPrefix (pre : String) {path : String}
    (hslash : Text.startsWith path "/" = true) (htwo : Text.startsWith path "//" = false) :
    stripPathPrefix (normalizePrefix pre) (prependPathPrefix pre path) = some path := by
  have hne : path ≠ "" := by
    rintro rfl
    exact absurd hslash (by decide)
  rw [prependPathPrefix_eq, String.append_assoc, slash_trimStartMatches hslash htwo,
    stripPathPrefix, stripPrefix_eq_some_iff.mpr rfl, Option.map_some, if_neg hne, if_pos hslash]

/-! ## Rewritten paths are paths -/

section Paths

variable [HttpUri] [LawfulHttpUri]

theorem IsPath.slash_append {path : String} (h : ∀ c ∈ path.toList, isPathChar c = true) :
    IsPath ("/" ++ path) where
  slash := Text.startsWith_iff_append.mpr ⟨path, rfl⟩
  chars := by
    intro c hc
    rw [String.toList_append, List.mem_append] at hc
    rcases hc with hc | hc
    · obtain rfl : c = '/' := by simpa using hc
      exact LawfulHttpUri.isPathChar_slash
    · exact h c hc

theorem IsPath.strip {strip path newPath : String} (hpath : IsPath path)
    (h : stripPathPrefix strip path = some newPath) : IsPath newPath := by
  obtain ⟨rest, hrest, rfl⟩ := Option.map_eq_some_iff.mp h
  rw [stripPrefix_eq_some_iff] at hrest
  have hchars : ∀ c ∈ rest.toList, isPathChar c = true := by
    intro c hc
    refine hpath.chars c ?_
    rw [hrest, String.toList_append]
    exact List.mem_append_right _ hc
  split_ifs with hempty hslash
  · have hroot : IsPath ("/" ++ "") := IsPath.slash_append (by simp)
    exact hroot
  · exact ⟨hslash, hchars⟩
  · exact IsPath.slash_append hchars

theorem IsPath.prepend {pre path : String} (hpath : IsPath path)
    (hpre : ∀ c ∈ pre.toList, isPathChar c = true) : IsPath (prependPathPrefix pre path) := by
  have hslash := LawfulHttpUri.isPathChar_slash
  have htail : IsPath ("/" ++ Text.trimStartMatches path "/") :=
    IsPath.slash_append fun c hc =>
      hpath.chars c (Text.mem_of_mem_trimStartMatches (by decide) hc)
  have htrimmed : ∀ c ∈ (Text.trimEndMatches pre "/").toList, isPathChar c = true :=
    fun c hc => hpre c (Text.mem_of_mem_trimEndMatches (by decide) hc)
  have happend : ∀ front : String, IsPath front →
      IsPath (front ++ ("/" ++ Text.trimStartMatches path "/")) := by
    rintro front ⟨hfront, hchars⟩
    obtain ⟨rest, rfl⟩ := Text.startsWith_iff_append.mp hfront
    refine ⟨Text.startsWith_iff_append.mpr ⟨_, String.append_assoc⟩, ?_⟩
    intro c hc
    rw [String.toList_append, List.mem_append] at hc
    exact hc.elim (hchars c) (htail.chars c)
  rw [prependPathPrefix_eq, String.append_assoc, normalizePrefix]
  split_ifs with h
  · rcases h with h | h
    · rw [h, String.empty_append]
      exact htail
    · exact happend _ ⟨h, htrimmed⟩
  · exact happend _ (IsPath.slash_append htrimmed)

variable {t : Target W} {path newPath : String}

theorem IsPath.rewritten (hpath : IsPath path)
    (hprepend : ∀ pre ∈ t.prependPath, ∀ c ∈ pre.toList, isPathChar c = true)
    (h : rewrittenPath t path = some newPath) : IsPath newPath := by
  have hstripped : ∀ p, (t.stripPath.bind fun strip => stripPathPrefix strip path) = some p →
      IsPath p := by
    intro p hp
    obtain ⟨strip, -, hp⟩ := Option.bind_eq_some_iff.mp hp
    exact hpath.strip hp
  unfold rewrittenPath at h
  split at h
  · next pre hpre =>
    cases h
    refine IsPath.prepend ?_ (hprepend pre hpre)
    cases hp : t.stripPath.bind fun strip => stripPathPrefix strip path with
    | none => exact hpath
    | some p => exact hstripped p hp
  · exact hstripped newPath h

end Paths

theorem rewrittenPath_eq_none_iff {t : Target W} {path : String} : rewrittenPath t path = none ↔
    (∀ strip ∈ t.stripPath, Text.startsWith path strip = false) ∧ t.prependPath = none := by
  unfold rewrittenPath
  dsimp only
  split
  · next pre hpre => simp [hpre]
  · next hpre => simp [hpre, Option.bind_eq_none_iff, stripPathPrefix_eq_none_iff]

/-! ## The rewrite -/

theorem isValidGrpcPath_iff {path : String} : isValidGrpcPath path = true ↔
    ((Text.split '/' path).filter (· ≠ "")).length = 2 := by
  unfold isValidGrpcPath
  split
  · next service method h =>
    have hmem : ∀ s ∈ [service, method], s ≠ "" := by
      intro s hs
      rw [← h] at hs
      simpa using (List.mem_filter.mp hs).2
    rw [h, iff_true_right (by rfl)]
    simpa using hmem
  · next hne =>
    rw [iff_of_false Bool.false_ne_true]
    intro hlen
    obtain ⟨a, b, hab⟩ := List.length_eq_two.mp hlen
    exact hne a b hab

section Parser

variable [HttpUri] [LawfulHttpUri] {uri : Uri} {t : Target W}

theorem rewriteUpstreamUri_of_rewrittenPath {finalPath : String} (hpath : IsPath uri.path)
    (hquery : IsQuery uri.query)
    (hprepend : ∀ pre ∈ t.prependPath, ∀ c ∈ pre.toList, isPathChar c = true)
    (hlen : (pathAndQuery finalPath uri.query).utf8ByteSize ≤ maxLen)
    (h : rewrittenPath t uri.path = some finalPath) : rewriteUpstreamUri uri t =
      some (if t.isGrpc && !isValidGrpcPath finalPath then uri
        else ⟨none, finalPath, uri.query⟩) := by
  rw [rewriteUpstreamUri, h, Option.bind_some,
    LawfulHttpUri.parse_pathAndQuery (hpath.rewritten hprepend h) hquery hlen]
  split <;> rfl

/-- A request is rewritten just when there is a prefix to strip or to prepend, and then to an
absolute path with the same query, which a gRPC target has for a method. Stripping a prefix undoes
prepending it. -/
theorem rewriteUpstreamUri_sound (hpath : IsPath uri.path) (hquery : IsQuery uri.query)
    (hprepend : ∀ pre ∈ t.prependPath, ∀ c ∈ pre.toList, isPathChar c = true)
    (hlen : ∀ finalPath ∈ rewrittenPath t uri.path,
      (pathAndQuery finalPath uri.query).utf8ByteSize ≤ maxLen) :
    (rewriteUpstreamUri uri t = none ↔
      (∀ strip ∈ t.stripPath, Text.startsWith uri.path strip = false) ∧ t.prependPath = none) ∧
    (∀ rewritten, rewriteUpstreamUri uri t = some rewritten →
      Text.startsWith rewritten.path "/" = true ∧ rewritten.query = uri.query ∧
        (t.isGrpc = true → rewritten.path = uri.path ∨
          ((Text.split '/' rewritten.path).filter (· ≠ "")).length = 2)) ∧
    ∀ pre path, Text.startsWith path "/" = true → Text.startsWith path "//" = false →
      stripPathPrefix (normalizePrefix pre) (prependPathPrefix pre path) = some path := by
  have hrewrite : ∀ finalPath, rewrittenPath t uri.path = some finalPath →
      rewriteUpstreamUri uri t = some (if t.isGrpc && !isValidGrpcPath finalPath then uri
        else ⟨none, finalPath, uri.query⟩) := fun finalPath h =>
    rewriteUpstreamUri_of_rewrittenPath hpath hquery hprepend (hlen finalPath h) h
  refine ⟨?_, ?_, fun pre path => stripPathPrefix_prependPathPrefix pre⟩
  · rw [← rewrittenPath_eq_none_iff]
    cases h : rewrittenPath t uri.path with
    | none => simp [rewriteUpstreamUri, h]
    | some finalPath => simp [hrewrite finalPath h]
  · intro rewritten hrewritten
    obtain ⟨finalPath, hfinal, -⟩ := Option.bind_eq_some_iff.mp hrewritten
    rw [hrewrite finalPath hfinal, Option.some.injEq] at hrewritten
    subst hrewritten
    split
    · exact ⟨hpath.slash, rfl, fun _ => .inl rfl⟩
    · next hvalid =>
      refine ⟨(hpath.rewritten hprepend hfinal).slash, rfl, fun hgrpc => .inr ?_⟩
      rw [hgrpc, Bool.true_and, Bool.not_eq_true', Bool.not_eq_false] at hvalid
      exact isValidGrpcPath_iff.mp hvalid

end Parser

/-! ## An instance -/

section Examples

def plainPathChar (c : Char) : Bool := c.isAlphanum || "!$%&'()*+,-./:;=@_~".toList.contains c

@[reducible] def HttpUri.plain : HttpUri where
  isPathChar := plainPathChar
  isQueryChar c := plainPathChar c || c == '?'
  maxLen := 65534
  parse s :=
    let (path, query) := match Text.splitOnce '?' s with
      | some (path, query) => (path, some query)
      | none => (s, none)
    if Text.startsWith path "/" && path.toList.all plainPathChar &&
        query.all (fun q => q.toList.all fun c => plainPathChar c || c == '?') &&
        s.utf8ByteSize ≤ 65534 then some ⟨none, path, query⟩
    else none

attribute [local instance] HttpUri.plain

theorem splitOnce_pathAndQuery {path : String} (query : Option String)
    (h : ∀ c ∈ path.toList, plainPathChar c = true) :
    Text.splitOnce '?' (pathAndQuery path query) = query.map fun q => (path, q) := by
  have hmark : '?' ∉ path.toList := fun hc => absurd (h '?' hc) (by decide +kernel)
  cases query with
  | none =>
    cases hsplit : Text.splitOnce '?' (pathAndQuery path none) with
    | none => rfl
    | some pieces =>
      have hs := (Text.splitOnce_eq_some_iff.mp hsplit).1
      exact absurd (hs ▸ List.mem_append_right _ List.mem_cons_self) hmark
  | some q =>
    rw [Option.map_some, Text.splitOnce_eq_some_iff, pathAndQuery, String.toList_append,
      String.toList_append]
    exact ⟨by simp, hmark⟩

theorem lawfulHttpUri_plain : LawfulHttpUri where
  isPathChar_slash := by decide +kernel
  parse_pathAndQuery {path query} hpath hquery hlen := by
    have hsplit := splitOnce_pathAndQuery query hpath.chars
    have hchars : path.toList.all plainPathChar = true := List.all_eq_true.mpr hpath.chars
    have hqueryChars : query.all (fun q => q.toList.all fun c => plainPathChar c || c == '?') =
        true := by
      rw [Option.all_eq_true]
      exact fun q hq => List.all_eq_true.mpr (hquery q hq)
    have hsize : decide ((pathAndQuery path query).utf8ByteSize ≤ 65534) = true :=
      decide_eq_true hlen
    dsimp only [HttpUri.parse]
    rw [hsplit]
    cases query with
    | none =>
      rw [pathAndQuery] at hsize ⊢
      simp [hpath.slash, hchars, hsize]
    | some q => simp [hpath.slash, hchars, hsize, hqueryChars]

attribute [local instance] lawfulHttpUri_plain

def rewritingTarget : Target ℕ :=
  { toSharedRefs := default, service := "svc", url := "http://example.com", fixedWeight := 0
    weight := 0, tags := [], opts := AList.insert "prepend" "/v2" (AList.insert "strip" "/api" ∅)
    source := .static, parsedHost := some "example.com", parsedPort := none, parsedTls := false
    parsedProtocol := .http }

def usersUri : Uri := ⟨none, "/api/users", some "id=42"⟩

theorem rewriteUpstreamUri_sound_users :
    rewriteUpstreamUri usersUri rewritingTarget = some ⟨none, "/v2/users", some "id=42"⟩ ∧
      Text.startsWith "/v2/users" "/" = true := by
  have hrewrite : rewriteUpstreamUri usersUri rewritingTarget =
      some ⟨none, "/v2/users", some "id=42"⟩ := by decide +kernel
  have hpath : IsPath usersUri.path := ⟨by decide +kernel, List.all_eq_true.mp (by decide +kernel)⟩
  have hquery : IsQuery usersUri.query := by
    intro q hq
    cases hq
    exact List.all_eq_true.mp (by decide +kernel)
  have hprepend : ∀ pre ∈ rewritingTarget.prependPath, ∀ c ∈ pre.toList, isPathChar c = true := by
    have hpre : rewritingTarget.prependPath = some "/v2" := by decide +kernel
    rw [hpre]
    intro pre hpre'
    cases hpre'
    exact List.all_eq_true.mp (by decide +kernel)
  have hlen : ∀ finalPath ∈ rewrittenPath rewritingTarget usersUri.path,
      (pathAndQuery finalPath usersUri.query).utf8ByteSize ≤ maxLen := by
    have hfinal : rewrittenPath rewritingTarget usersUri.path = some "/v2/users" := by
      decide +kernel
    rw [hfinal]
    intro finalPath hfinal'
    cases hfinal'
    decide +kernel
  exact ⟨hrewrite, ((rewriteUpstreamUri_sound hpath hquery hprepend hlen).2.1 _ hrewrite).1⟩

end Examples

end SentirumLb
