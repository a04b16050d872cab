import SentirumLb.Net.Cidr
import SentirumLb.Route.Resolve
import SentirumLb.Route.Table

/-! # Reserved ranges

The SSRF helpers classify IPv4 addresses by their octets. Here the ranges that are to
be blocked are given by network and prefix length, and compared with the helpers.
-/

namespace SentirumLb

/-! ## Networks -/

theorem and_leading_ones_inj {w : ℕ} {x y : BitVec w} (k : ℕ) :
    x &&& BitVec.allOnes w <<< k = y &&& BitVec.allOnes w <<< k ↔ x >>> k = y >>> k := by
  constructor
  · intro h
    apply BitVec.eq_of_getLsbD_eq
    intro i _
    have hbit := congrArg (·.getLsbD (k + i)) h
    by_cases hi : k + i < w
    · simpa [hi] using hbit
    · simp [BitVec.getLsbD_of_ge _ _ (Nat.le_of_not_lt hi)]
  · intro h
    apply BitVec.eq_of_getLsbD_eq
    intro i hi
    by_cases hk : i < k
    · simp [hk]
    · have hbit := congrArg (·.getLsbD (i - k)) h
      simp only [BitVec.getLsbD_ushiftRight, Nat.add_sub_cancel' (Nat.le_of_not_lt hk)] at hbit
      rw [BitVec.getLsbD_and, BitVec.getLsbD_and, hbit]

namespace Ipv4Addr

def value (a : Ipv4Addr) : ℕ :=
  a.o0.toNat * 2 ^ 24 + a.o1.toNat * 2 ^ 16 + a.o2.toNat * 2 ^ 8 + a.o3.toNat

theorem toNat_toBits (a : Ipv4Addr) : a.toBits.toNat = a.value := by
  have h1 := a.o1.toNat_lt
  have h2 := a.o2.toNat_lt
  have h3 := a.o3.toNat_lt
  simp only [toBits, value, BitVec.toNat_append, UInt8.toNat_toBitVec,
    ← Nat.shiftLeft_add_eq_or_of_lt h1, ← Nat.shiftLeft_add_eq_or_of_lt h2,
    ← Nat.shiftLeft_add_eq_or_of_lt h3]
  simp only [Nat.shiftLeft_eq]
  omega

end Ipv4Addr

def ipv4Net (network : Ipv4Addr) (prefixLen : ℕ) (h : prefixLen ≤ 32) : CidrRange :=
  ⟨.v4 network, prefixLen, h⟩

theorem contains_ipv4Net {network : Ipv4Addr} {prefixLen : ℕ} (h : prefixLen ≤ 32)
    (hpos : 0 < prefixLen) (hlt : prefixLen < 32) (a : Ipv4Addr) :
    (ipv4Net network prefixLen h).contains (.v4 a) = true ↔
      a.value / 2 ^ (32 - prefixLen) = network.value / 2 ^ (32 - prefixLen) := by
  unfold CidrRange.contains ipv4Net
  dsimp only
  rw [if_neg hpos.ne', if_neg (Nat.not_le_of_lt hlt), beq_iff_eq, and_leading_ones_inj,
    ← BitVec.toNat_inj, BitVec.toNat_ushiftRight, BitVec.toNat_ushiftRight,
    Ipv4Addr.toNat_toBits, Ipv4Addr.toNat_toBits, Nat.shiftRight_eq_div_pow,
    Nat.shiftRight_eq_div_pow, eq_comm]

section Prefixes

variable {n : Ipv4Addr} (a : Ipv4Addr)

theorem contains_first {p : ℕ} (h : p ≤ 32) (hpos : 0 < p) (hle : p ≤ 8) :
    (ipv4Net n p h).contains (.v4 a) = true ↔
      a.o0.toNat / 2 ^ (8 - p) = n.o0.toNat / 2 ^ (8 - p) := by
  have hvalue : ∀ b : Ipv4Addr, b.value / 2 ^ (32 - p) = b.o0.toNat / 2 ^ (8 - p) := by
    intro b
    have h1 := b.o1.toNat_lt
    have h2 := b.o2.toNat_lt
    have h3 := b.o3.toNat_lt
    have hexp : 32 - p = 24 + (8 - p) := by omega
    rw [hexp, Nat.pow_add, ← Nat.div_div_eq_div_mul]
    congr 1
    unfold Ipv4Addr.value
    omega
  rw [contains_ipv4Net h hpos (by omega), hvalue, hvalue]

theorem contains_second {p : ℕ} (h : p ≤ 32) (hlt : 8 < p) (hle : p ≤ 16) :
    (ipv4Net n p h).contains (.v4 a) = true ↔
      a.o0 = n.o0 ∧ a.o1.toNat / 2 ^ (16 - p) = n.o1.toNat / 2 ^ (16 - p) := by
  have hvalue : ∀ b : Ipv4Addr, b.value / 2 ^ (32 - p) =
      b.o1.toNat / 2 ^ (16 - p) + 2 ^ (p - 8) * b.o0.toNat := by
    intro b
    have h1 := b.o1.toNat_lt
    have h2 := b.o2.toNat_lt
    have h3 := b.o3.toNat_lt
    have hexp : 32 - p = 16 + (16 - p) := by omega
    have h256 : 2 ^ 8 = 2 ^ (16 - p) * 2 ^ (p - 8) := by
      rw [← Nat.pow_add]
      congr 1
      omega
    have hfront : b.value / 2 ^ 16 = b.o1.toNat + 2 ^ (16 - p) * (2 ^ (p - 8) * b.o0.toNat) := by
      rw [← Nat.mul_assoc, ← h256]
      unfold Ipv4Addr.value
      omega
    rw [hexp, Nat.pow_add, ← Nat.div_div_eq_div_mul, hfront,
      Nat.add_mul_div_left _ _ (Nat.two_pow_pos _)]
  have hlt : ∀ b : Ipv4Addr, b.o1.toNat / 2 ^ (16 - p) < 2 ^ (p - 8) := by
    intro b
    rw [Nat.div_lt_iff_lt_mul (Nat.two_pow_pos _), ← Nat.pow_add]
    have hexp : p - 8 + (16 - p) = 8 := by omega
    rw [hexp]
    exact b.o1.toNat_lt
  rw [contains_ipv4Net h (by omega) (by omega), hvalue, hvalue, ← UInt8.toNat_inj]
  constructor
  · intro heq
    have hmod := congrArg (· % 2 ^ (p - 8)) heq
    have hdiv := congrArg (· / 2 ^ (p - 8)) heq
    simp only [Nat.add_mul_mod_self_left, Nat.mod_eq_of_lt (hlt _)] at hmod
    simp only [Nat.add_mul_div_left _ _ (Nat.two_pow_pos _), Nat.div_eq_of_lt (hlt _),
      Nat.zero_add] at hdiv
    exact ⟨hdiv, hmod⟩
  · rintro ⟨h0, h1⟩
    rw [h0, h1]

theorem contains_slash24 (h : 24 ≤ 32) : (ipv4Net n 24 h).contains (.v4 a) = true ↔
    a.o0 = n.o0 ∧ a.o1 = n.o1 ∧ a.o2 = n.o2 := by
  have ha3 := a.o3.toNat_lt
  have ha2 := a.o2.toNat_lt
  have ha1 := a.o1.toNat_lt
  have hn3 := n.o3.toNat_lt
  have hn2 := n.o2.toNat_lt
  have hn1 := n.o1.toNat_lt
  rw [contains_ipv4Net h (by decide) (by decide)]
  simp only [Ipv4Addr.value, ← UInt8.toNat_inj]
  omega

end Prefixes

def rfc1918Nets : List CidrRange :=
  [ipv4Net ⟨10, 0, 0, 0⟩ 8 (by decide), ipv4Net ⟨172, 16, 0, 0⟩ 12 (by decide),
    ipv4Net ⟨192, 168, 0, 0⟩ 16 (by decide)]

/-- Loopback, link-local, multicast, CGNAT, the three networks for documentation, and benchmarks. -/
def specialNets : List CidrRange :=
  [ipv4Net ⟨127, 0, 0, 0⟩ 8 (by decide), ipv4Net ⟨169, 254, 0, 0⟩ 16 (by decide),
    ipv4Net ⟨224, 0, 0, 0⟩ 4 (by decide), ipv4Net ⟨100, 64, 0, 0⟩ 10 (by decide),
    ipv4Net ⟨192, 0, 2, 0⟩ 24 (by decide), ipv4Net ⟨198, 51, 100, 0⟩ 24 (by decide),
    ipv4Net ⟨203, 0, 113, 0⟩ 24 (by decide), ipv4Net ⟨198, 18, 0, 0⟩ 15 (by decide)]

def thisNet : CidrRange := ipv4Net ⟨0, 0, 0, 0⟩ 8 (by decide)

def futureNet : CidrRange := ipv4Net ⟨240, 0, 0, 0⟩ 4 (by decide)

/-- The ranges that are blocked whatever the source of a target. -/
def reservedNets : List CidrRange := specialNets ++ [thisNet, futureNet]

def InNets (nets : List CidrRange) (a : Ipv4Addr) : Prop :=
  ∃ net ∈ nets, net.contains (.v4 a) = true

theorem inNets_append {nets nets' : List CidrRange} {a : Ipv4Addr} :
    InNets (nets ++ nets') a ↔ InNets nets a ∨ InNets nets' a := by
  simp only [InNets, List.mem_append, or_and_right, exists_or]

theorem inNets_cons {net : CidrRange} {nets : List CidrRange} {a : Ipv4Addr} :
    InNets (net :: nets) a ↔ net.contains (.v4 a) = true ∨ InNets nets a := by
  simp only [InNets, List.exists_mem_cons_iff]

theorem not_inNets_nil {a : Ipv4Addr} : ¬InNets [] a := by
  simp [InNets]

/-! ## What the helpers cover -/

section Octets

variable (a : Ipv4Addr)

theorem contains_thisNet : thisNet.contains (.v4 a) = true ↔ a.o0 = 0 := by
  rw [thisNet, contains_first a _ (by decide) le_rfl, ← UInt8.toNat_inj]
  simp

theorem contains_futureNet : futureNet.contains (.v4 a) = true ↔ 240 ≤ a.o0 := by
  have h0 := a.o0.toNat_lt
  rw [futureNet, contains_first a _ (by decide) (by decide), UInt8.le_iff_toNat_le]
  simp only [UInt8.reduceToNat]
  omega

theorem inNets_rfc1918Nets : InNets rfc1918Nets a ↔ a.isPrivate = true := by
  rw [rfc1918Nets, inNets_cons, inNets_cons, inNets_cons, or_iff_left not_inNets_nil,
    contains_first a _ (by decide) le_rfl, contains_second a _ (by decide) (by decide),
    contains_second a _ (by decide) le_rfl, Ipv4Addr.isPrivate]
  simp only [Bool.or_eq_true, Bool.and_eq_true, beq_iff_eq, decide_eq_true_eq, ge_iff_le,
    ← UInt8.toNat_inj, UInt8.le_iff_toNat_le, UInt8.reduceToNat]
  omega

theorem and_0xC0_eq_0x40_iff (o : UInt8) : o &&& 0xC0 = 0x40 ↔ o.toNat / 64 = 1 := by
  have hall : ∀ n < 256, n &&& 0xC0 = 0x40 ↔ n / 64 = 1 := by decide +kernel
  rw [← UInt8.toNat_inj, UInt8.toNat_and]
  exact hall o.toNat o.toNat_lt

theorem inNets_specialNets : InNets specialNets a ↔ a.o0 = 127 ∨ (a.o0 = 169 ∧ a.o1 = 254) ∨
    (224 ≤ a.o0 ∧ a.o0 ≤ 239) ∨ (a.o0 = 100 ∧ a.o1 &&& 0xC0 = 0x40) ∨
    (a.o0 = 192 ∧ a.o1 = 0 ∧ a.o2 = 2) ∨ (a.o0 = 198 ∧ a.o1 = 51 ∧ a.o2 = 100) ∨
    (a.o0 = 203 ∧ a.o1 = 0 ∧ a.o2 = 113) ∨ (a.o0 = 198 ∧ (a.o1 = 18 ∨ a.o1 = 19)) := by
  have hmulticast : a.o0.toNat / 16 = 14 ↔ 224 ≤ a.o0 ∧ a.o0 ≤ 239 := by
    simp only [UInt8.le_iff_toNat_le, UInt8.reduceToNat]
    omega
  have hbenchmark : a.o1.toNat / 2 = 9 ↔ a.o1 = 18 ∨ a.o1 = 19 := by
    simp only [← UInt8.toNat_inj, UInt8.reduceToNat]
    omega
  have hloopback : a.o0.toNat = 127 ↔ a.o0 = 127 := UInt8.toNat_inj (b := 127)
  have hlinkLocal : a.o1.toNat = 254 ↔ a.o1 = 254 := UInt8.toNat_inj (b := 254)
  simp only [specialNets, inNets_cons, or_iff_left not_inNets_nil,
    contains_first a _ (show 0 < 4 by decide) (by decide),
    contains_first a _ (show 0 < 8 by decide) le_rfl,
    contains_second a _ (show 8 < 10 by decide) (by decide),
    contains_second a _ (show 8 < 15 by decide) (by decide),
    contains_second a _ (show 8 < 16 by decide) le_rfl, contains_slash24, UInt8.reduceToNat,
    Nat.reduceSub, Nat.reducePow, Nat.reduceDiv, Nat.div_one, hmulticast, hbenchmark, hloopback,
    hlinkLocal, ← and_0xC0_eq_0x40_iff]

/-- Of the other reserved ranges only two addresses are blocked. -/
theorem isIpv4AlwaysBlocked_iff : isIpv4AlwaysBlocked a = true ↔
    InNets specialNets a ∨ a = ⟨0, 0, 0, 0⟩ ∨ a = ⟨255, 255, 255, 255⟩ := by
  rw [inNets_specialNets]
  unfold isIpv4AlwaysBlocked Ipv4Addr.isLoopback Ipv4Addr.isLinkLocal Ipv4Addr.isBroadcast
    Ipv4Addr.isUnspecified Ipv4Addr.isMulticast
  simp only [Bool.if_true_left, Bool.or_eq_true, Bool.and_eq_true, beq_iff_eq, decide_eq_true_eq,
    ge_iff_le]
  exact iff_of_eq (by ac_rfl)

theorem isIpPrivate_v4_iff : isIpPrivate (.v4 a) = true ↔
    InNets rfc1918Nets a ∨ InNets specialNets a ∨ a = ⟨0, 0, 0, 0⟩ ∨ a = ⟨255, 255, 255, 255⟩ := by
  rw [isIpPrivate, Bool.or_eq_true, isIpAlwaysBlocked, isIpRfc1918, isIpv4AlwaysBlocked_iff,
    inNets_rfc1918Nets, or_comm]

/-- The ranges that the helpers cover are apart from the two others. -/
theorem first_of_covered {a : Ipv4Addr} (h : InNets rfc1918Nets a ∨ InNets specialNets a) :
    a.o0 ≠ 0 ∧ ¬240 ≤ a.o0 := by
  rw [inNets_rfc1918Nets, inNets_specialNets, Ipv4Addr.isPrivate] at h
  simp only [Bool.or_eq_true, Bool.and_eq_true, beq_iff_eq, decide_eq_true_eq, ge_iff_le,
    ← UInt8.toNat_inj, UInt8.le_iff_toNat_le, UInt8.reduceToNat] at h
  simp only [ne_eq, ← UInt8.toNat_inj, UInt8.le_iff_toNat_le, UInt8.reduceToNat]
  omega

end Octets

/-! ## Static targets -/

section Targets

variable {W : Type} [Platform]

variable (W) in
/-- The address is private, and no static target under SSRF protection is sent to it, neither by a
URL that names it nor by whatever a name resolves to. -/
structure Shielded (a : Ipv4Addr) : Prop where
  isIpPrivate_eq : isIpPrivate (.v4 a) = true
  isIpAlwaysBlocked_eq : ¬InNets rfc1918Nets a → isIpAlwaysBlocked (.v4 a) = true
  literal : ∀ t : Target W, t.source = .static → t.ssrfSkipVerify = false →
    IpAddr.parse t.upstreamHost = some (.v4 a) → t.isHostSafe = false
  resolved : ∀ (init s : ResolveState W) (ls : List (ResolveLabel W)), init.log = [] →
    Runs.run ResolveState.step init ls = some s → ∀ call ∈ s.log, call.target.source = .static →
    call.target.ssrfSkipVerify = false → ∀ addr, call.result = .ok addr → addr.ip ≠ .v4 a

omit [Platform] in
theorem Target.isHostSafe_eq_false {t : Target W} (hsource : t.source = .static) {ip : IpAddr}
    (hip : IpAddr.parse t.upstreamHost = some ip) (hprivate : isIpPrivate ip = true) :
    t.isHostSafe = false := by
  have hallows : t.sourceAllowsPrivateUpstreams = false := by
    simp [sourceAllowsPrivateUpstreams, hsource]
  unfold upstreamHost at hip
  unfold isHostSafe
  cases hhost : t.parsedHost.map (Text.trimMatches ['[', ']']) with
  | none => rfl
  | some host =>
    rw [hhost, Option.getD_some] at hip
    rw [isIpPrivate, Bool.or_eq_true] at hprivate
    simp only [hip]
    split
    · rfl
    · next hblocked => rw [if_pos (hprivate.resolve_left hblocked), hallows]

omit [Platform] in
theorem Target.Admits.isIpPrivate_eq {t : Target W} {addr : SocketAddr} (h : t.Admits addr)
    (hsource : t.source = .static) : isIpPrivate addr.ip = false := by
  rw [isIpPrivate, h.1, h.2 (by simp [hsource]) (by simp [hsource])]
  rfl

theorem shielded_of_private {a : Ipv4Addr} (hprivate : isIpPrivate (.v4 a) = true) :
    Shielded W a where
  isIpPrivate_eq := hprivate
  isIpAlwaysBlocked_eq h := by
    rw [isIpPrivate_v4_iff] at hprivate
    exact (isIpv4AlwaysBlocked_iff a).mpr (hprivate.resolve_left h)
  literal t hsource _ hip := t.isHostSafe_eq_false hsource hip hprivate
  resolved init s ls hlog hrun call hcall hsource hskip addr haddr hip := by
    have hadmits := ((ResolveState.invariant_run hlog hrun).1 call hcall hskip).1 addr haddr
    have hpublic := hadmits.isIpPrivate_eq hsource
    rw [hip, hprivate] at hpublic
    cases hpublic

/-- Of the addresses that are to be blocked, those of the two ranges that the helpers leave out are
shielded only if they are the unspecified or the broadcast address; all others are. -/
theorem shielded_iff {a : Ipv4Addr} (h : InNets (rfc1918Nets ++ reservedNets) a) :
    Shielded W a ↔ (thisNet.contains (.v4 a) = true → a = ⟨0, 0, 0, 0⟩) ∧
      (futureNet.contains (.v4 a) = true → a = ⟨255, 255, 255, 255⟩) := by
  rw [reservedNets, inNets_append, inNets_append, inNets_cons, inNets_cons,
    or_iff_left not_inNets_nil] at h
  rw [contains_thisNet, contains_futureNet] at *
  constructor
  · intro hshielded
    have hprivate := (isIpPrivate_v4_iff a).mp hshielded.isIpPrivate_eq
    rw [← or_assoc] at hprivate
    constructor
    · intro hzero
      rcases hprivate with hcovered | rfl | rfl
      · exact absurd hzero (first_of_covered hcovered).1
      · rfl
      · cases hzero
    · intro hfuture
      rcases hprivate with hcovered | rfl | rfl
      · exact absurd hfuture (first_of_covered hcovered).2
      · exact absurd hfuture (by decide)
      · rfl
  · rintro ⟨hzero, hfuture⟩
    refine shielded_of_private ((isIpPrivate_v4_iff a).mpr ?_)
    rcases h with hprivate | hspecial | hthis | hfut
    · exact Or.inl hprivate
    · exact Or.inr (Or.inl hspecial)
    · exact Or.inr (Or.inr (Or.inl (hzero hthis)))
    · exact Or.inr (Or.inr (Or.inr (hfuture hfut)))

end Targets

section Examples

attribute [local instance] Platform.plain

/-- An address in a reserved range is not private, and a static URL that names it is safe. -/
theorem not_shielded_future :
    InNets (rfc1918Nets ++ reservedNets) ⟨240, 0, 0, 1⟩ ∧
      InNets (rfc1918Nets ++ reservedNets) ⟨0, 1, 2, 3⟩ ∧
      ¬Shielded ℚ ⟨240, 0, 0, 1⟩ ∧ ¬Shielded ℚ ⟨0, 1, 2, 3⟩ ∧
      (Table.targetOf default (exampleDef .static .add "web" "http://240.0.0.1:80/")).isHostSafe =
        true := by
  refine ⟨⟨futureNet, by decide, by decide⟩, ⟨thisNet, by decide, by decide⟩, fun h => ?_,
    fun h => ?_, by decide +kernel⟩
  · exact absurd h.isIpPrivate_eq (by decide)
  · exact absurd h.isIpPrivate_eq (by decide)

/-- The loopback address is shielded, and so is the broadcast address. -/
theorem shielded_loopback_broadcast :
    Shielded ℚ ⟨127, 0, 0, 1⟩ ∧ Shielded ℚ ⟨255, 255, 255, 255⟩ := by
  constructor
  · exact (shielded_iff ⟨ipv4Net ⟨127, 0, 0, 0⟩ 8 (by decide), by decide, by decide⟩).mpr
      ⟨by decide, by decide⟩
  · exact (shielded_iff ⟨futureNet, by decide, by decide⟩).mpr ⟨by decide, by decide⟩

end Examples

end SentirumLb
