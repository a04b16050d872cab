import SentirumLb.Lib.Text
import SentirumLb.Net.IpAddr

/-! # Trusted proxy ranges

A range is an address and a prefix length that fits its family. A peer is
trusted when one of the configured ranges contains its address.
-/

namespace SentirumLb

def Ipv4Addr.toBits (a : Ipv4Addr) : BitVec 32 :=
  a.o0.toBitVec ++ a.o1.toBitVec ++ a.o2.toBitVec ++ a.o3.toBitVec

def Ipv6Addr.toBits (a : Ipv6Addr) : BitVec 128 :=
  a.s0.toBitVec ++ a.s1.toBitVec ++ a.s2.toBitVec ++ a.s3.toBitVec ++ a.s4.toBitVec ++
    a.s5.toBitVec ++ a.s6.toBitVec ++ a.s7.toBitVec

def IpAddr.maxPrefix : IpAddr → ℕ
  | .v4 _ => 32
  | .v6 _ => 128

structure CidrRange where
  network : IpAddr
  prefixLen : ℕ
  prefixLen_le : prefixLen ≤ network.maxPrefix
  deriving DecidableEq

namespace CidrRange

def parse (s : String) : Option CidrRange := do
  let (ipStr, prefixStr) ← Text.splitOnce '/' s
  let network ← IpAddr.parse (Text.trim ipStr)
  let prefixLen ← Text.parseNat 256 (Text.trim prefixStr)
  if h : prefixLen ≤ network.maxPrefix then some ⟨network, prefixLen, h⟩ else none

def contains (c : CidrRange) (addr : IpAddr) : Bool :=
  match c.network, addr with
  | .v4 net, .v4 ip =>
      if c.prefixLen = 0 then true
      else if 32 ≤ c.prefixLen then net == ip
      else
        let mask := BitVec.allOnes 32 <<< (32 - c.prefixLen)
        net.toBits &&& mask == ip.toBits &&& mask
  | .v6 net, .v6 ip =>
      if c.prefixLen = 0 then true
      else if 128 ≤ c.prefixLen then net == ip
      else
        let mask := BitVec.allOnes 128 <<< (128 - c.prefixLen)
        net.toBits &&& mask == ip.toBits &&& mask
  | _, _ => false

theorem contains_network (c : CidrRange) : c.contains c.network = true := by
  unfold contains
  cases c.network with
  | v4 net => simp
  | v6 net => simp

theorem isWhitespace_eq_false_of_isV6Char {c : Char} (h : IpParser.IsV6Char c) :
    Text.isWhitespace c = false := by
  rcases h with (h | rfl) | rfl
  · exact Text.isWhitespace_eq_false_of_isAlphanum h
  · rfl
  · rfl

theorem slash_not_mem {s : String} {a : IpAddr} (h : IpAddr.parse s = some a) :
    '/' ∉ s.toList := by
  intro hmem
  rcases IpAddr.isV6Char_of_parse h '/' hmem with (h | h) | h <;> exact absurd h (by decide)

theorem parse_eq_some {s ip prefixStr : String} {l r : List Char} {network : IpAddr}
    {prefixLen : ℕ} (hs : s.toList = l ++ (ip.toList ++ '/' :: prefixStr.toList) ++ r)
    (hl : ∀ c ∈ l, Text.isWhitespace c = true) (hr : ∀ c ∈ r, Text.isWhitespace c = true)
    (hip : IpAddr.parse ip = some network) (hbits : Text.parseNat 256 prefixStr = some prefixLen)
    (hle : prefixLen ≤ network.maxPrefix) : parse s = some ⟨network, prefixLen, hle⟩ := by
  have hsplit : Text.splitOnce '/' s =
      some (String.ofList (l ++ ip.toList), String.ofList (prefixStr.toList ++ r)) := by
    rw [Text.splitOnce_eq_some_iff]
    simp only [String.toList_ofList, List.mem_append, not_or]
    refine ⟨by simp [hs], ?_, slash_not_mem hip⟩
    intro hmem
    exact absurd (hl '/' hmem) (by decide)
  have htrimIp : Text.trim (String.ofList (l ++ ip.toList)) = ip :=
    Text.trim_eq_of_append (r := []) (by simp) hl (by simp) (Text.trimmed_of_forall fun c hc =>
      isWhitespace_eq_false_of_isV6Char (IpAddr.isV6Char_of_parse hip c hc))
  have htrimPrefix : Text.trim (String.ofList (prefixStr.toList ++ r)) = prefixStr :=
    Text.trim_eq_of_append (l := []) (by simp) (by simp) hr
      (Text.trimmed_of_forall (Text.isWhitespace_eq_false_of_parseNat hbits))
  unfold parse
  simp only [hsplit, htrimIp, htrimPrefix, hip, hbits, Option.bind_eq_bind, Option.bind_some,
    dif_pos hle]

example : (CidrRange.parse " 10.0.0.0 / 8").map (·.contains (.v4 ⟨10, 1, 2, 3⟩)) = some true := by
  decide +kernel
example : CidrRange.parse "10.0.0.0/33" = none := by decide +kernel

end CidrRange

def isTrustedProxy (ipStr : String) (trusted : List CidrRange) : Bool :=
  if trusted.isEmpty then false
  else match IpAddr.parse ipStr with
    | none => false
    | some ip => trusted.any (·.contains ip)

def parseTrustedProxies (raw : List String) : List CidrRange := raw.filterMap CidrRange.parse

end SentirumLb
