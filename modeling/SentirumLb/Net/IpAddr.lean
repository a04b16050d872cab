import Mathlib

/-! # Internet addresses

IPv4 addresses by their octets, IPv6 addresses by their segments, with the
classification predicates of the standard library and its address parser. The
SSRF helpers classify an address as always blocked or as private; addresses
that embed an IPv4 address get the verdict of that address.
-/

namespace SentirumLb

structure Ipv4Addr where
  o0 : UInt8
  o1 : UInt8
  o2 : UInt8
  o3 : UInt8
  deriving DecidableEq, Repr

structure Ipv6Addr where
  s0 : UInt16
  s1 : UInt16
  s2 : UInt16
  s3 : UInt16
  s4 : UInt16
  s5 : UInt16
  s6 : UInt16
  s7 : UInt16
  deriving DecidableEq, Repr

inductive IpAddr where
  | v4 (a : Ipv4Addr)
  | v6 (a : Ipv6Addr)
  deriving DecidableEq, Repr

structure SocketAddr where
  ip : IpAddr
  port : UInt16
  deriving DecidableEq, Repr

namespace Ipv4Addr

def isUnspecified (a : Ipv4Addr) : Bool := a == ⟨0, 0, 0, 0⟩
def isLoopback (a : Ipv4Addr) : Bool := a.o0 == 127
def isLinkLocal (a : Ipv4Addr) : Bool := a.o0 == 169 && a.o1 == 254
def isBroadcast (a : Ipv4Addr) : Bool := a == ⟨255, 255, 255, 255⟩
def isMulticast (a : Ipv4Addr) : Bool := a.o0 ≥ 224 && a.o0 ≤ 239

def isPrivate (a : Ipv4Addr) : Bool :=
  a.o0 == 10 || (a.o0 == 172 && a.o1 ≥ 16 && a.o1 ≤ 31) || (a.o0 == 192 && a.o1 == 168)

end Ipv4Addr

namespace Ipv6Addr

def isUnspecified (a : Ipv6Addr) : Bool := a == ⟨0, 0, 0, 0, 0, 0, 0, 0⟩
def isLoopback (a : Ipv6Addr) : Bool := a == ⟨0, 0, 0, 0, 0, 0, 0, 1⟩
def isUnicastLinkLocal (a : Ipv6Addr) : Bool := a.s0 &&& 0xffc0 == 0xfe80
def isMulticast (a : Ipv6Addr) : Bool := a.s0 &&& 0xff00 == 0xff00

def lowOctets (a : Ipv6Addr) : Ipv4Addr :=
  ⟨(a.s6 >>> 8).toUInt8, a.s6.toUInt8, (a.s7 >>> 8).toUInt8, a.s7.toUInt8⟩

/-- `::ffff:a.b.c.d` as `a.b.c.d`. -/
def toIpv4Mapped (a : Ipv6Addr) : Option Ipv4Addr :=
  if a.s0 = 0 ∧ a.s1 = 0 ∧ a.s2 = 0 ∧ a.s3 = 0 ∧ a.s4 = 0 ∧ a.s5 = 0xffff then
    some a.lowOctets
  else none

def toIpv4 (a : Ipv6Addr) : Option Ipv4Addr :=
  if a.s0 = 0 ∧ a.s1 = 0 ∧ a.s2 = 0 ∧ a.s3 = 0 ∧ a.s4 = 0 ∧ (a.s5 = 0 ∨ a.s5 = 0xffff) then
    some a.lowOctets
  else none

end Ipv6Addr

/-- Unique local addresses, `fc00::/7`. -/
def isIpv6UniqueLocal (a : Ipv6Addr) : Bool := a.s0 &&& 0xfe00 == 0xfc00

def isIpRfc1918 : IpAddr → Bool
  | .v4 a => a.isPrivate
  | .v6 a =>
      if isIpv6UniqueLocal a then true
      else match a.toIpv4Mapped <|> a.toIpv4 with
        | some v4 => v4.isPrivate
        | none => false

def isIpv4AlwaysBlocked (a : Ipv4Addr) : Bool :=
  if a.isLoopback || a.isLinkLocal || a.isBroadcast || a.isUnspecified || a.isMulticast then true
  else
    let isCgnat := a.o0 == 100 && a.o1 &&& 0xC0 == 0x40
    let isDocumentation :=
      (a.o0 == 192 && a.o1 == 0 && a.o2 == 2) || (a.o0 == 198 && a.o1 == 51 && a.o2 == 100) ||
        (a.o0 == 203 && a.o1 == 0 && a.o2 == 113) || (a.o0 == 198 && (a.o1 == 18 || a.o1 == 19))
    isCgnat || isDocumentation

/-- Addresses no target may be proxied to, whatever its source. -/
def isIpAlwaysBlocked : IpAddr → Bool
  | .v4 a => isIpv4AlwaysBlocked a
  | .v6 a =>
      if a.isLoopback || a.isUnspecified || a.isUnicastLinkLocal || a.isMulticast then true
      else match a.toIpv4Mapped <|> a.toIpv4 with
        | some v4 => isIpv4AlwaysBlocked v4
        | none => false

def isIpPrivate (ip : IpAddr) : Bool := isIpAlwaysBlocked ip || isIpRfc1918 ip

/-! ## Parsing -/

namespace IpParser

/-- A parser consumes a prefix of the characters or fails. -/
abbrev Parser (α : Type) := List Char → Option (α × List Char)

def digit (radix : ℕ) (c : Char) : Option ℕ :=
  let d :=
    if '0' ≤ c ∧ c ≤ '9' then some (c.toNat - '0'.toNat)
    else if 'a' ≤ c ∧ c ≤ 'z' then some (c.toNat - 'a'.toNat + 10)
    else if 'A' ≤ c ∧ c ≤ 'Z' then some (c.toNat - 'A'.toNat + 10)
    else none
  d.filter (· < radix)

/-- The longest run of digits, at most `maxDigits` long, with its value. One digit more fails. -/
def digits (radix : ℕ) : ℕ → ℕ → ℕ → List Char → Option (ℕ × ℕ × List Char)
  | left, count, acc, c :: cs =>
      match digit radix c with
      | some d =>
          match left with
          | 0 => none
          | left + 1 => digits radix left (count + 1) (acc * radix + d) cs
      | none => some (count, acc, c :: cs)
  | _, count, acc, [] => some (count, acc, [])

/-- A number below `bound`; a leading zero is refused unless `allowZeroPrefix`. -/
def readNumber (radix maxDigits bound : ℕ) (allowZeroPrefix : Bool) : Parser ℕ := fun cs =>
  match digits radix maxDigits 0 0 cs with
  | some (count, n, rest) =>
      if count = 0 ∨ bound ≤ n then none
      else if !allowZeroPrefix && cs.head? == some '0' && count > 1 then none
      else some (n, rest)
  | none => none

def readChar (c : Char) : Parser Unit
  | x :: xs => if x = c then some ((), xs) else none
  | [] => none

/-- An element of a separated list: all but the first have the separator in front. -/
def readSeparator {α : Type} (sep : Char) (index : ℕ) (p : Parser α) : Parser α := fun cs =>
  if index = 0 then p cs else (readChar sep cs).bind fun r => p r.2

def readOctet (index : ℕ) : Parser UInt8 := fun cs =>
  (readSeparator '.' index (readNumber 10 3 256 false) cs).map fun r => (UInt8.ofNat r.1, r.2)

def readIpv4Addr : Parser Ipv4Addr := fun cs => do
  let (a, cs) ← readOctet 0 cs
  let (b, cs) ← readOctet 1 cs
  let (c, cs) ← readOctet 2 cs
  let (d, cs) ← readOctet 3 cs
  pure (⟨a, b, c, d⟩, cs)

def joinOctets (hi lo : UInt8) : UInt16 := (hi.toUInt16 <<< 8) ||| lo.toUInt16

/-- Up to `limit - i` groups from index `i` on, with whether an embedded IPv4 address ended them. -/
def readGroups (limit : ℕ) : ℕ → ℕ → List Char → List UInt16 × Bool × List Char
  | 0, _, cs => ([], false, cs)
  | left + 1, i, cs =>
      let ipv4 := if i + 1 < limit then readSeparator ':' i readIpv4Addr cs else none
      match ipv4 with
      | some (a, rest) => ([joinOctets a.o0 a.o1, joinOctets a.o2 a.o3], true, rest)
      | none =>
          match readSeparator ':' i (readNumber 16 4 65536 true) cs with
          | some (g, rest) =>
              let (gs, isV4, rest) := readGroups limit left (i + 1) rest
              (UInt16.ofNat g :: gs, isV4, rest)
          | none => ([], false, cs)

def ofSegments : List UInt16 → Option Ipv6Addr
  | [a, b, c, d, e, f, g, h] => some ⟨a, b, c, d, e, f, g, h⟩
  | _ => none

def readIpv6Addr : Parser Ipv6Addr := fun cs =>
  let (head, headIpv4, rest) := readGroups 8 8 0 cs
  if head.length = 8 then (ofSegments head).map fun a => (a, rest)
  else if headIpv4 then none
  else do
    let (_, rest) ← readChar ':' rest
    let (_, rest) ← readChar ':' rest
    -- `::` stands for at least one zero group
    let limit := 8 - (head.length + 1)
    let (tail, _, rest) := readGroups limit limit 0 rest
    let zeros := List.replicate (8 - head.length - tail.length) 0
    (ofSegments (head ++ zeros ++ tail)).map fun a => (a, rest)

def readIpAddr : Parser IpAddr := fun cs =>
  (readIpv4Addr cs).map (fun r => (.v4 r.1, r.2)) <|>
    (readIpv6Addr cs).map fun r => (.v6 r.1, r.2)

end IpParser

def IpAddr.parse (s : String) : Option IpAddr :=
  match IpParser.readIpAddr s.toList with
  | some (a, []) => some a
  | _ => none

example : IpAddr.parse "10.0.0.1" = some (.v4 ⟨10, 0, 0, 1⟩) := by decide
example : IpAddr.parse "::ffff:127.0.0.1" = some (.v6 ⟨0, 0, 0, 0, 0, 0xffff, 0x7f00, 1⟩) := by
  decide

/-! ## The text of an address -/

namespace IpParser

variable {α : Type}

/-- The parser consumes characters of the set only. -/
def Reads (P : Char → Prop) (p : Parser α) : Prop :=
  ∀ cs a rest, p cs = some (a, rest) → ∃ pre, cs = pre ++ rest ∧ ∀ c ∈ pre, P c

def IsV4Char (c : Char) : Prop := c.isAlphanum = true ∨ c = '.'

def IsV6Char (c : Char) : Prop := IsV4Char c ∨ c = ':'

theorem isAlphanum_of_digit {radix d : ℕ} {c : Char} (h : digit radix c = some d) :
    c.isAlphanum = true := by
  unfold digit at h
  dsimp only at h
  rw [Option.filter_eq_some_iff] at h
  have hd := h.1
  simp only [Char.isAlphanum, Char.isAlpha, Char.isUpper, Char.isLower, Char.isDigit,
    Bool.or_eq_true, Bool.and_eq_true, decide_eq_true_eq]
  split at hd
  · next hc => exact Or.inr hc
  · split at hd
    · next hc => exact Or.inl (Or.inr hc)
    · split at hd
      · next hc => exact Or.inl (Or.inl hc)
      · cases hd

theorem digits_text {radix left count acc : ℕ} {cs : List Char} {r : ℕ × ℕ × List Char}
    (h : digits radix left count acc cs = some r) :
    ∃ pre, cs = pre ++ r.2.2 ∧ ∀ c ∈ pre, c.isAlphanum = true := by
  induction cs generalizing left count acc with
  | nil =>
    simp only [digits, Option.some.injEq] at h
    subst h
    exact ⟨[], rfl, by simp⟩
  | cons c cs ih =>
    rw [digits] at h
    split at h
    · next d hd =>
      cases left with
      | zero => cases h
      | succ left =>
        obtain ⟨pre, rfl, hpre⟩ := ih h
        exact ⟨c :: pre, rfl, List.forall_mem_cons.mpr ⟨isAlphanum_of_digit hd, hpre⟩⟩
    · simp only [Option.some.injEq] at h
      subst h
      exact ⟨[], rfl, by simp⟩

theorem reads_readNumber (radix maxDigits bound : ℕ) (allowZeroPrefix : Bool) :
    Reads (·.isAlphanum = true) (readNumber radix maxDigits bound allowZeroPrefix) := by
  intro cs a rest h
  unfold readNumber at h
  split at h
  · next count n rest' hdigits =>
    have hrest : rest' = rest := by
      split at h
      · cases h
      · split at h
        · cases h
        · simpa using congrArg (·.map (·.2)) h
    subst hrest
    exact digits_text hdigits
  · cases h

theorem readChar_text {c : Char} {cs : List Char} {r : Unit × List Char}
    (h : readChar c cs = some r) : cs = c :: r.2 := by
  cases cs with
  | nil => cases h
  | cons x xs =>
    rw [readChar] at h
    split at h
    · next hx =>
      cases h
      rw [hx]
    · cases h

theorem readSeparator_succ_text {sep : Char} {i : ℕ} {p : Parser α} {P : Char → Prop}
    (hp : Reads P p) {cs rest : List Char} {a : α}
    (h : readSeparator sep (i + 1) p cs = some (a, rest)) :
    ∃ pre, cs = sep :: pre ++ rest ∧ ∀ c ∈ pre, P c := by
  rw [readSeparator, if_neg (by omega), Option.bind_eq_some_iff] at h
  obtain ⟨r, hr, h⟩ := h
  obtain ⟨pre, hpre, hP⟩ := hp _ _ _ h
  exact ⟨pre, by rw [readChar_text hr, hpre, List.cons_append], hP⟩

theorem reads_readSeparator {sep : Char} {i : ℕ} {p : Parser α} {P : Char → Prop}
    (hp : Reads P p) (hsep : P sep) : Reads P (readSeparator sep i p) := by
  intro cs a rest h
  cases i with
  | zero => exact hp cs a rest (by simpa [readSeparator] using h)
  | succ i =>
    obtain ⟨pre, rfl, hpre⟩ := readSeparator_succ_text hp h
    exact ⟨sep :: pre, rfl, List.forall_mem_cons.mpr ⟨hsep, hpre⟩⟩

theorem Reads.mono {P Q : Char → Prop} {p : Parser α} (h : Reads P p) (hPQ : ∀ c, P c → Q c) :
    Reads Q p := by
  intro cs a rest hp
  obtain ⟨pre, hcs, hpre⟩ := h cs a rest hp
  exact ⟨pre, hcs, fun c hc => hPQ c (hpre c hc)⟩

theorem reads_octetNumber : Reads IsV4Char (readNumber 10 3 256 false) :=
  (reads_readNumber 10 3 256 false).mono fun _ => Or.inl

theorem readOctet_succ_text {i : ℕ} {cs rest : List Char} {a : UInt8}
    (h : readOctet (i + 1) cs = some (a, rest)) :
    ∃ pre, cs = '.' :: pre ++ rest ∧ ∀ c ∈ pre, IsV4Char c := by
  obtain ⟨⟨n, rest'⟩, hr, he⟩ := Option.map_eq_some_iff.mp h
  cases he
  exact readSeparator_succ_text reads_octetNumber hr

theorem readIpv4Addr_text {cs rest : List Char} {a : Ipv4Addr}
    (h : readIpv4Addr cs = some (a, rest)) :
    ∃ pre, cs = pre ++ rest ∧ (∀ c ∈ pre, IsV4Char c) ∧ '.' ∈ pre := by
  simp only [readIpv4Addr, bind, Option.bind_eq_some_iff, Prod.exists, pure, Option.some.injEq,
    Prod.mk.injEq] at h
  obtain ⟨o0, cs1, h0, o1, cs2, h1, o2, cs3, h2, o3, cs4, h3, -, rfl⟩ := h
  obtain ⟨⟨n, cs1'⟩, hr, he⟩ := Option.map_eq_some_iff.mp h0
  cases he
  obtain ⟨p0, rfl, hp0⟩ := reads_readSeparator (i := 0) reads_octetNumber (Or.inr rfl) _ _ _ hr
  obtain ⟨p1, rfl, hp1⟩ := readOctet_succ_text h1
  obtain ⟨p2, rfl, hp2⟩ := readOctet_succ_text h2
  obtain ⟨p3, rfl, hp3⟩ := readOctet_succ_text h3
  have hdot : IsV4Char '.' := Or.inr rfl
  refine ⟨p0 ++ '.' :: p1 ++ '.' :: p2 ++ '.' :: p3, by simp, ?_, by simp⟩
  intro c hc
  simp only [List.mem_append, List.mem_cons] at hc
  rcases hc with ((hc | rfl | hc) | rfl | hc) | rfl | hc
  · exact hp0 c hc
  · exact hdot
  · exact hp1 c hc
  · exact hdot
  · exact hp2 c hc
  · exact hdot
  · exact hp3 c hc

theorem reads_readIpv4Addr : Reads IsV6Char readIpv4Addr := by
  intro cs a rest h
  obtain ⟨pre, hcs, hpre, -⟩ := readIpv4Addr_text h
  exact ⟨pre, hcs, fun c hc => Or.inl (hpre c hc)⟩

theorem reads_groupNumber : Reads IsV6Char (readNumber 16 4 65536 true) :=
  (reads_readNumber 16 4 65536 true).mono fun _ h => Or.inl (Or.inl h)

theorem readGroups_text (limit left i : ℕ) (cs : List Char) :
    ∃ pre, cs = pre ++ (readGroups limit left i cs).2.2 ∧ ∀ c ∈ pre, IsV6Char c := by
  have hnone : ∀ cs : List Char, ∃ pre, cs = pre ++ cs ∧ ∀ c ∈ pre, IsV6Char c :=
    fun cs => ⟨[], rfl, by simp⟩
  induction left generalizing i cs with
  | zero => exact hnone cs
  | succ left ih =>
    rw [readGroups]
    dsimp only
    split
    · next a rest hv4 =>
      split at hv4
      · exact reads_readSeparator reads_readIpv4Addr (Or.inr rfl) _ _ _ hv4
      · cases hv4
    · split
      · next g rest hg =>
        obtain ⟨p, rfl, hp⟩ := reads_readSeparator reads_groupNumber (Or.inr rfl) _ _ _ hg
        obtain ⟨q, hrest, hq⟩ := ih (i + 1) rest
        refine ⟨p ++ q, by rw [List.append_assoc, ← hrest], ?_⟩
        intro c hc
        exact (List.mem_append.mp hc).elim (hp c) (hq c)
      · exact hnone cs

theorem reads_readIpv6Addr : Reads IsV6Char readIpv6Addr := by
  intro cs a rest h
  obtain ⟨p, hp, hpc⟩ := readGroups_text 8 8 0 cs
  unfold readIpv6Addr at h
  dsimp only at h
  split at h
  · obtain ⟨b, -, hb⟩ := Option.map_eq_some_iff.mp h
    cases hb
    exact ⟨p, hp, hpc⟩
  · split at h
    · cases h
    · simp only [bind, Option.bind_eq_some_iff, Prod.exists] at h
      obtain ⟨_, r1, h1, _, r2, h2, h⟩ := h
      obtain ⟨b, -, hb⟩ := Option.map_eq_some_iff.mp h
      cases hb
      generalize 8 - ((readGroups 8 8 0 cs).1.length + 1) = limit
      obtain ⟨q, hq, hqc⟩ := readGroups_text limit limit 0 r2
      refine ⟨p ++ ':' :: ':' :: q, ?_, ?_⟩
      · have h1' : _ = ':' :: r1 := readChar_text h1
        have h2' : r1 = ':' :: r2 := readChar_text h2
        rw [hp, h1', h2']
        conv_lhs => rw [hq]
        simp
      · intro c hc
        simp only [List.mem_append, List.mem_cons] at hc
        rcases hc with hc | rfl | rfl | hc
        · exact hpc c hc
        · exact Or.inr rfl
        · exact Or.inr rfl
        · exact hqc c hc

end IpParser

namespace IpAddr

open IpParser

theorem parse_eq_some_iff {s : String} {a : IpAddr} :
    IpAddr.parse s = some a ↔ readIpAddr s.toList = some (a, []) := by
  unfold IpAddr.parse
  split
  · next b hb => simp [hb]
  · next hne =>
    simp only [reduceCtorEq, false_iff]
    exact hne a

theorem isV6Char_of_parse {s : String} {a : IpAddr} (h : IpAddr.parse s = some a) :
    ∀ c ∈ s.toList, IsV6Char c := by
  rw [parse_eq_some_iff, readIpAddr, Option.orElse_eq_some] at h
  rcases h with h | ⟨-, h⟩
  · obtain ⟨⟨b, rest⟩, hb, he⟩ := Option.map_eq_some_iff.mp h
    cases he
    obtain ⟨pre, hcs, hpre, -⟩ := readIpv4Addr_text hb
    rw [hcs, List.append_nil]
    exact fun c hc => Or.inl (hpre c hc)
  · obtain ⟨⟨b, rest⟩, hb, he⟩ := Option.map_eq_some_iff.mp h
    cases he
    obtain ⟨pre, hcs, hpre⟩ := reads_readIpv6Addr _ _ _ hb
    rw [hcs, List.append_nil]
    exact hpre

theorem dot_mem_of_parse_v4 {s : String} {a : Ipv4Addr} (h : IpAddr.parse s = some (.v4 a)) :
    '.' ∈ s.toList ∧ ':' ∉ s.toList := by
  rw [parse_eq_some_iff, readIpAddr, Option.orElse_eq_some] at h
  rcases h with h | ⟨-, h⟩
  · obtain ⟨⟨b, rest⟩, hb, he⟩ := Option.map_eq_some_iff.mp h
    cases he
    obtain ⟨pre, hcs, hpre, hdot⟩ := readIpv4Addr_text hb
    rw [hcs, List.append_nil]
    refine ⟨hdot, fun hc => ?_⟩
    rcases hpre ':' hc with h | h
    · exact absurd h (by decide)
    · exact absurd h (by decide)
  · obtain ⟨⟨b, rest⟩, hb, he⟩ := Option.map_eq_some_iff.mp h
    cases he

end IpAddr

end SentirumLb
