import SentirumLb.Net.IpAddr

/-! # IPv4 addresses inside IPv6

An IPv4 address can be written as an IPv6 address in two ways. The SSRF helpers take
both apart again, after the tests that are made of every IPv6 address.
-/

namespace SentirumLb

open IpParser (joinOctets)

namespace Ipv4Addr

/-- `::ffff:a.b.c.d` -/
def toIpv6Mapped (v : Ipv4Addr) : Ipv6Addr :=
  ⟨0, 0, 0, 0, 0, 0xffff, joinOctets v.o0 v.o1, joinOctets v.o2 v.o3⟩

/-- `::a.b.c.d` -/
def toIpv6Compatible (v : Ipv4Addr) : Ipv6Addr :=
  ⟨0, 0, 0, 0, 0, 0, joinOctets v.o0 v.o1, joinOctets v.o2 v.o3⟩

end Ipv4Addr

theorem toNat_joinOctets (hi lo : UInt8) :
    (joinOctets hi lo).toNat = hi.toNat * 256 + lo.toNat := by
  have hhi := hi.toNat_lt
  have hlo := lo.toNat_lt
  have hshift : hi.toNat <<< 8 % 2 ^ 16 = hi.toNat <<< 8 := by
    rw [Nat.shiftLeft_eq]
    omega
  have hor := Nat.shiftLeft_add_eq_or_of_lt (i := 8) (by omega) hi.toNat
  simp only [joinOctets, UInt16.toNat_or, UInt16.toNat_shiftLeft, UInt8.toNat_toUInt16,
    UInt16.reduceToNat, Nat.reduceMod, hshift, ← hor]
  rw [Nat.shiftLeft_eq]

@[simp] theorem joinOctets_shiftRight (hi lo : UInt8) : (joinOctets hi lo >>> 8).toUInt8 = hi := by
  have hhi := hi.toNat_lt
  have hlo := lo.toNat_lt
  rw [← UInt8.toNat_inj, UInt16.toNat_toUInt8, UInt16.toNat_shiftRight, toNat_joinOctets]
  simp only [UInt16.reduceToNat, Nat.reduceMod, Nat.shiftRight_eq_div_pow]
  omega

@[simp] theorem joinOctets_toUInt8 (hi lo : UInt8) : (joinOctets hi lo).toUInt8 = lo := by
  have hlo := lo.toNat_lt
  rw [← UInt8.toNat_inj, UInt16.toNat_toUInt8, toNat_joinOctets]
  omega

namespace Ipv4Addr

variable (v : Ipv4Addr)

theorem unembed_toIpv6Mapped :
    (v.toIpv6Mapped.toIpv4Mapped <|> v.toIpv6Mapped.toIpv4) = some v := by
  simp [toIpv6Mapped, Ipv6Addr.toIpv4Mapped, Ipv6Addr.lowOctets]

theorem unembed_toIpv6Compatible :
    (v.toIpv6Compatible.toIpv4Mapped <|> v.toIpv6Compatible.toIpv4) = some v := by
  simp [toIpv6Compatible, Ipv6Addr.toIpv4Mapped, Ipv6Addr.toIpv4, Ipv6Addr.lowOctets]

/-- A mapped address passes the tests that are made of every IPv6 address. -/
theorem toIpv6Mapped_native : (v.toIpv6Mapped.isLoopback || v.toIpv6Mapped.isUnspecified ||
    v.toIpv6Mapped.isUnicastLinkLocal || v.toIpv6Mapped.isMulticast) = false := by
  simp [toIpv6Mapped, Ipv6Addr.isLoopback, Ipv6Addr.isUnspecified, Ipv6Addr.isUnicastLinkLocal,
    Ipv6Addr.isMulticast]

theorem isIpAlwaysBlocked_toIpv6Mapped :
    isIpAlwaysBlocked (.v6 v.toIpv6Mapped) = isIpAlwaysBlocked (.v4 v) := by
  simp only [isIpAlwaysBlocked, toIpv6Mapped_native, unembed_toIpv6Mapped, Bool.false_eq_true,
    if_false]

theorem isIpRfc1918_toIpv6Mapped :
    isIpRfc1918 (.v6 v.toIpv6Mapped) = isIpRfc1918 (.v4 v) := by
  have hlocal : isIpv6UniqueLocal v.toIpv6Mapped = false := by
    simp [isIpv6UniqueLocal, toIpv6Mapped]
  simp only [isIpRfc1918, hlocal, unembed_toIpv6Mapped, Bool.false_eq_true, if_false]

theorem isIpPrivate_toIpv6Compatible (h : isIpPrivate (.v4 v) = true) :
    isIpPrivate (.v6 v.toIpv6Compatible) = true := by
  rw [isIpPrivate, Bool.or_eq_true] at h ⊢
  rcases h with hblocked | hprivate
  · left
    rw [isIpAlwaysBlocked, unembed_toIpv6Compatible]
    split
    · rfl
    · exact hblocked
  · right
    rw [isIpRfc1918, unembed_toIpv6Compatible]
    split
    · rfl
    · exact hprivate

/-- An embedded address is treated no better than the address itself. -/
theorem verdicts_embedded :
    isIpAlwaysBlocked (.v6 v.toIpv6Mapped) = isIpAlwaysBlocked (.v4 v) ∧
      isIpRfc1918 (.v6 v.toIpv6Mapped) = isIpRfc1918 (.v4 v) ∧
      (isIpPrivate (.v4 v) = true → isIpPrivate (.v6 v.toIpv6Compatible) = true) :=
  ⟨v.isIpAlwaysBlocked_toIpv6Mapped, v.isIpRfc1918_toIpv6Mapped, v.isIpPrivate_toIpv6Compatible⟩

end Ipv4Addr

/-- Not conversely: `::1` is the loopback address, `0.0.0.1` is not private. -/
example : (Ipv4Addr.mk 0 0 0 1).toIpv6Compatible.isLoopback = true ∧
    isIpPrivate (.v4 ⟨0, 0, 0, 1⟩) = false := by decide

end SentirumLb
