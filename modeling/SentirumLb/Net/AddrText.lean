import SentirumLb.Lib.Words
import SentirumLb.Net.IpAddr

/-! # The texts of internet addresses

Addresses as the standard library displays them. The longest run of zero segments
of an IPv6 address, the first of the longest, is left out when it has more than
one segment.
-/

namespace SentirumLb

namespace Ipv4Addr

def toText (a : Ipv4Addr) : String :=
  ".".intercalate ([a.o0, a.o1, a.o2, a.o3].map fun o => toString o.toNat)

end Ipv4Addr

namespace Ipv6Addr

def segments (a : Ipv6Addr) : List UInt16 := [a.s0, a.s1, a.s2, a.s3, a.s4, a.s5, a.s6, a.s7]

structure Span where
  start : ℕ
  len : ℕ
  deriving DecidableEq

/-- The longest run so far and the run that the segment continues, after one more segment. -/
def Span.extend (spans : Span × Span) (segment : UInt16 × ℕ) : Span × Span :=
  if segment.1 = 0 then
    let current := ⟨if spans.2.len = 0 then segment.2 else spans.2.start, spans.2.len + 1⟩
    (if spans.1.len < current.len then current else spans.1, current)
  else (spans.1, ⟨0, 0⟩)

def zeroes (segments : List UInt16) : Span :=
  (segments.zipIdx.foldl Span.extend (⟨0, 0⟩, ⟨0, 0⟩)).1

def fmtSubslice (chunk : List UInt16) : String :=
  ":".intercalate (chunk.map fun segment => String.ofList (Nat.toDigits 16 segment.toNat))

def toText (a : Ipv6Addr) : String :=
  match a.toIpv4Mapped with
  | some ipv4 => "::ffff:" ++ ipv4.toText
  | none =>
      let span := zeroes a.segments
      if 1 < span.len then
        fmtSubslice (a.segments.take span.start) ++ "::" ++
          fmtSubslice (a.segments.drop (span.start + span.len))
      else fmtSubslice a.segments

example : (Ipv6Addr.mk 0x2001 0xdb8 0 0 1 0 0 1).toText = "2001:db8::1:0:0:1" := by decide

end Ipv6Addr

/-! ## The characters of an address -/

theorem Ipv4Addr.isDigit_or_toText (a : Ipv4Addr) :
    ∀ c ∈ a.toText.toList, c.isDigit = true ∨ c = '.' := by
  refine Text.forall_mem_intercalate (by simp) fun s hs c hc => Or.inl ?_
  obtain ⟨o, -, rfl⟩ := List.mem_map.mp hs
  exact Text.isDigit_of_mem_toString hc

theorem Ipv4Addr.toText_ne_empty (a : Ipv4Addr) : a.toText ≠ "" := by
  refine Text.intercalate_ne_empty (by simp) fun s hs => ?_
  obtain ⟨o, -, rfl⟩ := List.mem_map.mp hs
  simp

theorem isAlphanum_of_mem_toDigits {n : ℕ} {c : Char} (h : c ∈ Nat.toDigits 16 n) :
    c.isAlphanum = true := by
  have hdigit : ∀ d < 16, (Nat.digitChar d).isAlphanum = true := by decide
  induction n using Nat.strong_induction_on with
  | _ n ih =>
    rw [Nat.toDigits_eq_if (by decide)] at h
    split at h
    · next hn =>
      rw [List.mem_singleton] at h
      rw [h]
      exact hdigit n hn
    · next hn =>
      rcases List.mem_append.mp h with h | h
      · exact ih (n / 16) (Nat.div_lt_self (by omega) (by decide)) h
      · rw [List.mem_singleton] at h
        rw [h]
        exact hdigit _ (Nat.mod_lt n (by decide))

namespace Ipv6Addr

theorem isV6Char_fmtSubslice {chunk : List UInt16} :
    ∀ c ∈ (fmtSubslice chunk).toList, IpParser.IsV6Char c := by
  refine Text.forall_mem_intercalate (by simp [IpParser.IsV6Char]) fun s hs c hc => ?_
  obtain ⟨segment, -, rfl⟩ := List.mem_map.mp hs
  rw [String.toList_ofList] at hc
  exact Or.inl (Or.inl (isAlphanum_of_mem_toDigits hc))

theorem isV6Char_toText (a : Ipv6Addr) : ∀ c ∈ a.toText.toList, IpParser.IsV6Char c := by
  have hcolon : IpParser.IsV6Char ':' := Or.inr rfl
  unfold toText
  split
  · next ipv4 hmapped =>
    rw [String.toList_append, List.forall_mem_append]
    have hf : IpParser.IsV6Char 'f' := Or.inl (Or.inl (by decide))
    refine ⟨by simp [hcolon, hf], fun c hc => ?_⟩
    rcases ipv4.isDigit_or_toText c hc with h | rfl
    · exact Or.inl (Or.inl (by simp [Char.isAlphanum, h]))
    · exact Or.inl (Or.inr rfl)
  · dsimp only
    split
    · rw [String.toList_append, String.toList_append, List.forall_mem_append,
        List.forall_mem_append]
      exact ⟨⟨isV6Char_fmtSubslice, by simp [hcolon]⟩, isV6Char_fmtSubslice⟩
    · exact isV6Char_fmtSubslice

theorem colon_mem_toText (a : Ipv6Addr) : ':' ∈ a.toText.toList := by
  unfold toText
  split
  · simp
  · dsimp only
    split
    · simp
    · simp [fmtSubslice, segments]

end Ipv6Addr

/-! ## The separators of an IPv6 address -/

namespace IpParser

theorem readSeparator_count {α : Type} {sep : Char} {p : Parser α} {P : Char → Prop}
    (hp : Reads P p) (hsep : P sep) {i : ℕ} {cs rest : List Char} {a : α}
    (h : readSeparator sep i p cs = some (a, rest)) :
    ∃ pre, cs = pre ++ rest ∧ (i ≠ 0 → 1 ≤ pre.count sep) := by
  cases i with
  | zero =>
    obtain ⟨pre, hcs, -⟩ := reads_readSeparator hp hsep _ _ _ h
    exact ⟨pre, hcs, fun h => absurd rfl h⟩
  | succ i =>
    obtain ⟨pre, hcs, -⟩ := readSeparator_succ_text hp h
    exact ⟨sep :: pre, hcs, fun _ => by simp⟩

theorem readGroups_count (limit left i : ℕ) (cs : List Char) :
    ∃ pre, cs = pre ++ (readGroups limit left i cs).2.2 ∧
      (readGroups limit left i cs).1.length ≤ pre.count ':' + if i = 0 then 2 else 1 := by
  induction left generalizing i cs with
  | zero => exact ⟨[], rfl, Nat.zero_le _⟩
  | succ left ih =>
    rw [readGroups]
    dsimp only
    split
    · next a rest hv4 =>
      split at hv4
      · obtain ⟨pre, hcs, hcount⟩ := readSeparator_count reads_readIpv4Addr (Or.inr rfl) hv4
        refine ⟨pre, hcs, ?_⟩
        simp only [List.length_cons, List.length_nil]
        split <;> omega
      · cases hv4
    · split
      · next g rest hg =>
        obtain ⟨p, rfl, hcount⟩ := readSeparator_count reads_groupNumber (Or.inr rfl) hg
        obtain ⟨q, hrest, hq⟩ := ih (i + 1) rest
        refine ⟨p ++ q, by rw [List.append_assoc, ← hrest], ?_⟩
        rw [if_neg (by omega)] at hq
        simp only [List.length_cons, List.count_append]
        split <;> omega
      · exact ⟨[], rfl, Nat.zero_le _⟩

end IpParser

open IpParser in
/-- The text of an IPv6 address has more than one colon. -/
theorem IpAddr.two_le_count_of_parse_v6 {s : String} {a : Ipv6Addr}
    (h : IpAddr.parse s = some (.v6 a)) : 2 ≤ s.toList.count ':' := by
  rw [parse_eq_some_iff, readIpAddr, Option.orElse_eq_some] at h
  rcases h with h | ⟨-, h⟩
  · obtain ⟨⟨b, rest⟩, hb, he⟩ := Option.map_eq_some_iff.mp h
    cases he
  · obtain ⟨⟨b, rest⟩, hb, he⟩ := Option.map_eq_some_iff.mp h
    cases he
    obtain ⟨pre, hpre, hcount⟩ := readGroups_count 8 8 0 s.toList
    rw [if_pos rfl] at hcount
    unfold readIpv6Addr at hb
    dsimp only at hb
    rw [hpre, List.count_append]
    split at hb
    · next hlen => omega
    · split at hb
      · cases hb
      · simp only [bind, Option.bind_eq_some_iff, Prod.exists] at hb
        obtain ⟨_, r1, h1, _, r2, h2, -⟩ := hb
        have h1' : _ = ':' :: r1 := readChar_text h1
        have h2' : r1 = ':' :: r2 := readChar_text h2
        rw [h1', h2', List.count_cons_self, List.count_cons_self]
        omega

def IpAddr.toText : IpAddr → String
  | .v4 a => a.toText
  | .v6 a => a.toText

def IpAddr.isIpv4 : IpAddr → Bool
  | .v4 _ => true
  | .v6 _ => false

def SocketAddr.toText (a : SocketAddr) : String :=
  match a.ip with
  | .v4 ip => ip.toText ++ ":" ++ toString a.port.toNat
  | .v6 ip => "[" ++ ip.toText ++ "]:" ++ toString a.port.toNat

end SentirumLb
