import HypeLlm.Lib.Blocks
import HypeLlm.Net.Address

/-!
# The classes as blocks of addresses

The classes again, as the registries publish them: blocks of addresses that share their first bits.
Which blocks a class has is no order of tests, so that a test made too late would show.

* `classifyIpv4_eq_lookup` — the cascade over octets is a table of blocks;
* `Carries` — an IPv6 address that carries an IPv4 one; `classifyIpv6_of_carries` — it has its
  class;
* `classifyIpv6_eq_lookup` — the other IPv6 addresses are a table of blocks too;
* `classify_eq_loopback`, `classify_eq_private`, `not_opened_classify` — the blocks of loopback, of
  private and of refused addresses.
-/

namespace HypeLlm.Net

open Blocks

/-- An address as a number, its first octet the highest. -/
def Ipv4Addr.toNat (addr : Ipv4Addr) : ℕ :=
  ((addr.a.toNat * 256 + addr.b.toNat) * 256 + addr.c.toNat) * 256 + addr.d.toNat

/-- An address as a number, its first segment the highest. -/
def Ipv6Addr.toNat (addr : Ipv6Addr) : ℕ :=
  ((((((addr.s0.toNat * 65536 + addr.s1.toNat) * 65536 + addr.s2.toNat) * 65536 +
    addr.s3.toNat) * 65536 + addr.s4.toNat) * 65536 + addr.s5.toNat) * 65536 +
    addr.s6.toNat) * 65536 + addr.s7.toNat

/-- `a.b.c.d/length`. -/
def v4Block (a b c d : UInt8) (length : ℕ) : Block := ⟨32, Ipv4Addr.toNat ⟨a, b, c, d⟩, length⟩

/-- The block of an IPv6 address and a length. -/
def v6Block (addr : Ipv6Addr) (length : ℕ) : Block := ⟨128, addr.toNat, length⟩

theorem Ipv4Addr.toNat_lt (addr : Ipv4Addr) : addr.toNat < 2 ^ 32 := by
  have := addr.a.toNat_lt
  have := addr.b.toNat_lt
  have := addr.c.toNat_lt
  have := addr.d.toNat_lt
  rw [toNat]
  omega

theorem Ipv6Addr.toNat_lt (addr : Ipv6Addr) : addr.toNat < 2 ^ 128 := by
  have := addr.s0.toNat_lt
  have := addr.s1.toNat_lt
  have := addr.s2.toNat_lt
  have := addr.s3.toNat_lt
  have := addr.s4.toNat_lt
  have := addr.s5.toNat_lt
  have := addr.s6.toNat_lt
  have := addr.s7.toNat_lt
  rw [toNat]
  omega

theorem Ipv4Addr.toNat_injective : Function.Injective Ipv4Addr.toNat := by
  rintro ⟨a, b, c, d⟩ ⟨a', b', c', d'⟩ h
  have := b.toNat_lt
  have := c.toNat_lt
  have := d.toNat_lt
  have := b'.toNat_lt
  have := c'.toNat_lt
  have := d'.toNat_lt
  simp only [Ipv4Addr.toNat] at h
  simp only [Ipv4Addr.mk.injEq, ← UInt8.toNat_inj]
  omega

/-- The octets of an address, the last one first. -/
def Ipv4Addr.octets (addr : Ipv4Addr) : List ℕ :=
  [addr.d.toNat, addr.c.toNat, addr.b.toNat, addr.a.toNat]

theorem Ipv4Addr.octets_lt (addr : Ipv4Addr) : ∀ n ∈ addr.octets, n < 256 := by
  simp only [octets, List.forall_mem_cons]
  exact ⟨addr.d.toNat_lt, addr.c.toNat_lt, addr.b.toNat_lt, addr.a.toNat_lt,
    fun _ h => absurd h List.not_mem_nil⟩

theorem Ipv4Addr.toNat_eq (addr : Ipv4Addr) : addr.toNat = Nat.ofDigits 256 addr.octets := by
  simp only [toNat, octets, Nat.ofDigits_cons, Nat.ofDigits_nil]
  omega

theorem contains_octets (addr base : Ipv4Addr) {length i : ℕ} (hi : 32 - length = 8 * i) :
    (Block.mk 32 base.toNat length).Contains addr.toNat ↔
      addr.octets.drop i = base.octets.drop i := by
  have hlen : addr.octets.length = base.octets.length := rfl
  rw [Block.Contains, hi, pow_mul, addr.toNat_eq, base.toNat_eq]
  exact div_pow_eq_iff (by decide) hlen addr.octets_lt base.octets_lt i

/-! ### The IPv4 blocks -/

def loopbackV4 : List Block := [v4Block 127 0 0 0 8]

def linkLocalV4 : List Block := [v4Block 169 254 0 0 16]

def privateV4 : List Block :=
  [v4Block 10 0 0 0 8, v4Block 172 16 0 0 12, v4Block 192 168 0 0 16]

def metadataBlocksV4 : List Block :=
  [v4Block 169 254 169 254 32, v4Block 100 100 100 200 32, v4Block 192 0 0 192 32,
    v4Block 169 254 169 253 32]

def unspecifiedV4 : List Block := [v4Block 0 0 0 0 32]

def broadcastV4 : List Block := [v4Block 255 255 255 255 32]

def multicastV4 : List Block := [v4Block 224 0 0 0 4]

def sharedV4 : List Block := [v4Block 100 64 0 0 10]

/-- This network, documentation, benchmarking, protocol assignments and what is reserved. -/
def reservedV4 : List Block :=
  [v4Block 0 0 0 0 8, v4Block 192 0 2 0 24, v4Block 198 51 100 0 24, v4Block 203 0 113 0 24,
    v4Block 198 18 0 0 15, v4Block 240 0 0 0 4, v4Block 192 0 0 0 24]

/-- The blocks that no profile opens. -/
def refusedV4 : List Block :=
  metadataBlocksV4 ++ unspecifiedV4 ++ broadcastV4 ++ multicastV4 ++ sharedV4 ++ reservedV4

/-- The classes with their blocks, in the order of the tests. -/
def rowsV4 : List (AddressClass × List Block) :=
  [(.metadata, metadataBlocksV4), (.unspecified, unspecifiedV4),
    (.reserved, [v4Block 0 0 0 0 8]), (.loopback, loopbackV4), (.linkLocal, linkLocalV4),
    (.broadcast, broadcastV4), (.multicast, multicastV4), (.«private», privateV4),
    (.sharedAddressSpace, sharedV4),
    (.reserved, [v4Block 192 0 2 0 24, v4Block 198 51 100 0 24, v4Block 203 0 113 0 24]),
    (.reserved, [v4Block 198 18 0 0 15, v4Block 240 0 0 0 4, v4Block 192 0 0 0 24])]

section Octets

variable (addr : Ipv4Addr) (a b c d : UInt8)

theorem contains_eight : (v4Block a 0 0 0 8).Contains addr.toNat ↔ addr.a = a := by
  rw [v4Block, contains_octets addr _ (show 32 - 8 = 8 * 3 from rfl)]
  simp [Ipv4Addr.octets, UInt8.toNat_inj]

theorem contains_sixteen : (v4Block a b 0 0 16).Contains addr.toNat ↔ addr.a = a ∧ addr.b = b := by
  rw [v4Block, contains_octets addr _ (show 32 - 16 = 8 * 2 from rfl)]
  simp [Ipv4Addr.octets, UInt8.toNat_inj, and_comm]

theorem contains_twentyFour :
    (v4Block a b c 0 24).Contains addr.toNat ↔ addr.a = a ∧ addr.b = b ∧ addr.c = c := by
  rw [v4Block, contains_octets addr _ (show 32 - 24 = 8 * 1 from rfl)]
  simp only [Ipv4Addr.octets, List.drop_succ_cons, List.drop_zero, List.cons.injEq,
    UInt8.toNat_inj, and_true]
  exact ⟨fun ⟨hc, hb, ha⟩ => ⟨ha, hb, hc⟩, fun ⟨ha, hb, hc⟩ => ⟨hc, hb, ha⟩⟩

theorem contains_whole : (v4Block a b c d 32).Contains addr.toNat ↔ addr = ⟨a, b, c, d⟩ := by
  rw [← Ipv4Addr.toNat_injective.eq_iff]
  simp [Block.Contains, v4Block]

/-- A block that ends within the first octet. -/
theorem contains_first (length : ℕ) (hlength : length ≤ 8) :
    (v4Block a 0 0 0 length).Contains addr.toNat ↔
      addr.a.toNat / 2 ^ (8 - length) = a.toNat / 2 ^ (8 - length) := by
  have hwidth : 32 - length = 24 + (8 - length) := by omega
  have hdiv (addr : Ipv4Addr) : addr.toNat / 2 ^ 24 = addr.a.toNat := by
    have := addr.b.toNat_lt
    have := addr.c.toNat_lt
    have := addr.d.toNat_lt
    rw [Ipv4Addr.toNat]
    omega
  rw [Block.Contains, v4Block]
  dsimp only
  rw [hwidth, pow_add, ← Nat.div_div_eq_div_mul, ← Nat.div_div_eq_div_mul, hdiv, hdiv]

/-- A block that ends within the second octet. -/
theorem contains_second (length : ℕ) (hlength : length ≤ 16) :
    (v4Block a b 0 0 length).Contains addr.toNat ↔
      (addr.a.toNat * 256 + addr.b.toNat) / 2 ^ (16 - length) =
        (a.toNat * 256 + b.toNat) / 2 ^ (16 - length) := by
  have hwidth : 32 - length = 16 + (16 - length) := by omega
  have hdiv (addr : Ipv4Addr) : addr.toNat / 2 ^ 16 = addr.a.toNat * 256 + addr.b.toNat := by
    have := addr.c.toNat_lt
    have := addr.d.toNat_lt
    rw [Ipv4Addr.toNat]
    omega
  rw [Block.Contains, v4Block]
  dsimp only
  rw [hwidth, pow_add, ← Nat.div_div_eq_div_mul, ← Nat.div_div_eq_div_mul, hdiv, hdiv]

end Octets

theorem classifyIpv4_eq_lookup (addr : Ipv4Addr) :
    classifyIpv4 addr = lookup .global rowsV4 addr.toNat := by
  have ha := addr.a.toNat_lt
  have hb := addr.b.toNat_lt
  have hmulticast : (224 ≤ addr.a ∧ addr.a ≤ 239) ↔ (v4Block 224 0 0 0 4).Contains addr.toNat := by
    rw [contains_first addr 224 4 (by decide)]
    simp [UInt8.le_iff_toNat_le]
    omega
  have hreserved : 240 ≤ addr.a ↔ (v4Block 240 0 0 0 4).Contains addr.toNat := by
    rw [contains_first addr 240 4 (by decide)]
    simp [UInt8.le_iff_toNat_le]
    omega
  have hprivate : (addr.a = 172 ∧ 16 ≤ addr.b ∧ addr.b ≤ 31) ↔
      (v4Block 172 16 0 0 12).Contains addr.toNat := by
    rw [contains_second addr 172 16 12 (by decide)]
    simp [← UInt8.toNat_inj, UInt8.le_iff_toNat_le]
    omega
  have hshared : (addr.a = 100 ∧ 64 ≤ addr.b ∧ addr.b < 128) ↔
      (v4Block 100 64 0 0 10).Contains addr.toNat := by
    rw [contains_second addr 100 64 10 (by decide)]
    simp [← UInt8.toNat_inj, UInt8.le_iff_toNat_le, UInt8.lt_iff_toNat_lt]
    omega
  have hbenchmark : (addr.a = 198 ∧ (addr.b = 18 ∨ addr.b = 19)) ↔
      (v4Block 198 18 0 0 15).Contains addr.toNat := by
    rw [contains_second addr 198 18 15 (by decide)]
    simp [← UInt8.toNat_inj]
    omega
  simp only [classifyIpv4, rowsV4, lookup]
  refine if_congr ?_ rfl (if_congr ?_ rfl (if_congr ?_ rfl (if_congr ?_ rfl (if_congr ?_ rfl
    (if_congr ?_ rfl (if_congr ?_ rfl (if_congr ?_ rfl (if_congr ?_ rfl (if_congr ?_ rfl
    (if_congr ?_ rfl rfl))))))))))
  -- each test says the same of the octets as its blocks say of the number
  · simp only [metadataV4, metadataBlocksV4, within_cons, within_nil, contains_whole,
      List.mem_cons, List.not_mem_nil]
  · simp only [Ipv4Addr.isUnspecified, unspecifiedV4, within_cons, within_nil, contains_whole,
      decide_eq_true_eq, or_false]
  · simp only [within_cons, within_nil, contains_eight, or_false]
  · simp only [Ipv4Addr.isLoopback, loopbackV4, within_cons, within_nil, contains_eight,
      decide_eq_true_eq, or_false]
  · simp only [Ipv4Addr.isLinkLocal, linkLocalV4, within_cons, within_nil, contains_sixteen,
      decide_eq_true_eq, or_false]
  · simp only [Ipv4Addr.isBroadcast, broadcastV4, within_cons, within_nil, contains_whole,
      decide_eq_true_eq, or_false]
  · simp only [Ipv4Addr.isMulticast, multicastV4, within_cons, within_nil, ← hmulticast,
      decide_eq_true_eq, or_false]
  · simp only [Ipv4Addr.isPrivate, privateV4, within_cons, within_nil, contains_eight, ← hprivate,
      contains_sixteen, decide_eq_true_eq, or_false]
  · simp only [sharedV4, within_cons, within_nil, ← hshared, or_false]
  · simp only [Ipv4Addr.isDocumentation, within_cons, within_nil, contains_twentyFour,
      decide_eq_true_eq, or_false]
  · simp only [within_cons, within_nil, ← hbenchmark, ← hreserved, contains_twentyFour, or_false]

/-- The classes that a profile can open. -/
def AddressClass.Opened (cls : AddressClass) : Prop :=
  cls = .loopback ∨ cls = .«private» ∨ cls = .linkLocal ∨ cls = .global

instance (cls : AddressClass) : Decidable cls.Opened := inferInstanceAs (Decidable (_ ∨ _))

theorem EgressProfile.opened_of_permits {profile : EgressProfile} {cls : AddressClass}
    (h : profile.permits cls) : cls.Opened := by
  cases cls <;> first | decide | cases h

section Classes

variable {addr : Ipv4Addr}

theorem classifyIpv4_eq_loopback :
    classifyIpv4 addr = .loopback ↔ Within addr.toNat loopbackV4 := by
  rw [classifyIpv4_eq_lookup]
  exact lookup_mem_iff_within (P := (· = AddressClass.loopback)) (by decide) (by decide) (by decide)
    (by decide) _

theorem classifyIpv4_eq_private :
    classifyIpv4 addr = .«private» ↔ Within addr.toNat privateV4 := by
  rw [classifyIpv4_eq_lookup]
  exact lookup_mem_iff_within (P := (· = AddressClass.«private»)) (by decide) (by decide)
    (by decide) (by decide) _

/-- **No profile opens a block that is refused**, and every other address is of a class that one
can open. -/
theorem not_opened_classifyIpv4 :
    ¬(classifyIpv4 addr).Opened ↔ Within addr.toNat refusedV4 := by
  rw [classifyIpv4_eq_lookup]
  exact lookup_mem_iff_within (P := fun cls : AddressClass => ¬cls.Opened) (by decide) (by decide)
    (by decide) (by decide) _

end Classes

/-! ### IPv6 addresses that carry an IPv4 one -/

/-- `::ffff:0:0/96`. -/
def mappedV6 : Block := v6Block ⟨0, 0, 0, 0, 0, 0xffff, 0, 0⟩ 96

/-- `::/96`. -/
def compatibleV6 : Block := v6Block ⟨0, 0, 0, 0, 0, 0, 0, 0⟩ 96

/-- `64:ff9b::/96`. -/
def translatedV6 : Block := v6Block ⟨0x0064, 0xff9b, 0, 0, 0, 0, 0, 0⟩ 96

/-- `2002::/16`. -/
def sixToFourV6 : Block := v6Block ⟨0x2002, 0, 0, 0, 0, 0, 0, 0⟩ 16

/-- The address carries an IPv4 address: in its last 32 bits, or in the 32 after a 6to4 prefix. -/
inductive Carries (addr : Ipv6Addr) (v4 : Ipv4Addr) : Prop
  | mapped (hblock : mappedV6.Contains addr.toNat) (htail : v4.toNat = addr.toNat % 2 ^ 32)
  | compatible (hblock : compatibleV6.Contains addr.toNat) (hown : addr.toNat ≠ 0)
      (hloopback : addr.toNat ≠ 1) (htail : v4.toNat = addr.toNat % 2 ^ 32)
  | translated (hblock : translatedV6.Contains addr.toNat) (htail : v4.toNat = addr.toNat % 2 ^ 32)
  | sixToFour (hblock : sixToFourV6.Contains addr.toNat)
      (hsite : v4.toNat = addr.toNat / 2 ^ 80 % 2 ^ 32)

theorem ofSegments_toNat (high low : UInt16) :
    (ofSegments high low).toNat = high.toNat * 65536 + low.toNat := by
  have := high.toNat_lt
  have := low.toNat_lt
  simp [ofSegments, toBeBytes, Ipv4Addr.toNat, Nat.shiftRight_eq_div_pow]
  omega

/-- The segments of an address, read off its number. -/
theorem Ipv6Addr.toNat_segments (addr : Ipv6Addr) :
    addr.s0.toNat = addr.toNat / 2 ^ 112 ∧ addr.s1.toNat = addr.toNat / 2 ^ 96 % 65536 ∧
      addr.s2.toNat = addr.toNat / 2 ^ 80 % 65536 ∧ addr.s3.toNat = addr.toNat / 2 ^ 64 % 65536 ∧
      addr.s4.toNat = addr.toNat / 2 ^ 48 % 65536 ∧ addr.s5.toNat = addr.toNat / 2 ^ 32 % 65536 ∧
      addr.s6.toNat = addr.toNat / 2 ^ 16 % 65536 ∧ addr.s7.toNat = addr.toNat % 65536 ∧
      addr.toNat < 2 ^ 128 := by
  have := addr.s0.toNat_lt
  have := addr.s1.toNat_lt
  have := addr.s2.toNat_lt
  have := addr.s3.toNat_lt
  have := addr.s4.toNat_lt
  have := addr.s5.toNat_lt
  have := addr.s6.toNat_lt
  have := addr.s7.toNat_lt
  unfold Ipv6Addr.toNat
  omega

/-- The forms with the IPv4 address at the end. -/
def EndsInV4 (n : ℕ) : Prop :=
  mappedV6.Contains n ∨ (compatibleV6.Contains n ∧ n ≠ 0 ∧ n ≠ 1) ∨ translatedV6.Contains n

instance (n : ℕ) : Decidable (EndsInV4 n) := inferInstanceAs (Decidable (_ ∨ _))

/-- The segments of an address, the last one first. -/
def Ipv6Addr.places (addr : Ipv6Addr) : List ℕ :=
  [addr.s7.toNat, addr.s6.toNat, addr.s5.toNat, addr.s4.toNat, addr.s3.toNat, addr.s2.toNat,
    addr.s1.toNat, addr.s0.toNat]

theorem Ipv6Addr.places_lt (addr : Ipv6Addr) : ∀ n ∈ addr.places, n < 65536 := by
  simp only [places, List.forall_mem_cons]
  exact ⟨addr.s7.toNat_lt, addr.s6.toNat_lt, addr.s5.toNat_lt, addr.s4.toNat_lt, addr.s3.toNat_lt,
    addr.s2.toNat_lt, addr.s1.toNat_lt, addr.s0.toNat_lt, fun _ h => absurd h List.not_mem_nil⟩

theorem Ipv6Addr.toNat_eq (addr : Ipv6Addr) : addr.toNat = Nat.ofDigits 65536 addr.places := by
  simp only [toNat, places, Nat.ofDigits_cons, Nat.ofDigits_nil]
  omega

theorem contains_places (addr base : Ipv6Addr) {length i : ℕ} (hi : 128 - length = 16 * i) :
    (v6Block base length).Contains addr.toNat ↔ addr.places.drop i = base.places.drop i := by
  have hlen : addr.places.length = base.places.length := rfl
  rw [Block.Contains, v6Block, hi, pow_mul, addr.toNat_eq, base.toNat_eq]
  exact div_pow_eq_iff (by decide) hlen addr.places_lt base.places_lt i

/-- The first six segments are those of the base. -/
theorem contains_six (addr base : Ipv6Addr) :
    (v6Block base 96).Contains addr.toNat ↔ addr.s0 = base.s0 ∧ addr.s1 = base.s1 ∧
      addr.s2 = base.s2 ∧ addr.s3 = base.s3 ∧ addr.s4 = base.s4 ∧ addr.s5 = base.s5 := by
  rw [contains_places addr base (show 128 - 96 = 16 * 2 from rfl)]
  simp only [Ipv6Addr.places, List.drop_succ_cons, List.drop_zero, List.cons.injEq,
    UInt16.toNat_inj, and_true]
  exact ⟨fun ⟨a, b, c, d, e, f⟩ => ⟨f, e, d, c, b, a⟩, fun ⟨a, b, c, d, e, f⟩ => ⟨f, e, d, c, b, a⟩⟩

theorem toIpv4Equivalent_eq (addr : Ipv6Addr) :
    toIpv4Equivalent addr =
      if EndsInV4 addr.toNat then some (ofSegments addr.s6 addr.s7) else none := by
  have hlow : (compatibleV6.Contains addr.toNat ∧ addr.toNat ≠ 0 ∧ addr.toNat ≠ 1) ↔
      (addr.s0 = 0 ∧ addr.s1 = 0 ∧ addr.s2 = 0 ∧ addr.s3 = 0 ∧ addr.s4 = 0 ∧ addr.s5 = 0) ∧
        ¬(addr.s6 = 0 ∧ (addr.s7 = 0 ∨ addr.s7 = 1)) := by
    rw [compatibleV6, contains_six]
    refine and_congr_right fun ⟨h0, h1, h2, h3, h4, h5⟩ => ?_
    have hnumber : addr.toNat = addr.s6.toNat * 65536 + addr.s7.toNat := by
      simp [Ipv6Addr.toNat, h0, h1, h2, h3, h4, h5]
    have hzero : (0 : UInt16).toNat = 0 := rfl
    have hone : (1 : UInt16).toNat = 1 := rfl
    rw [hnumber, ← UInt16.toNat_inj, ← UInt16.toNat_inj, ← UInt16.toNat_inj, hzero, hone]
    have := addr.s7.toNat_lt
    omega
  have hends : EndsInV4 addr.toNat ↔ mappedV6.Contains addr.toNat ∨
      (compatibleV6.Contains addr.toNat ∧ addr.toNat ≠ 0 ∧ addr.toNat ≠ 1) ∨
        translatedV6.Contains addr.toNat :=
    Iff.rfl
  rw [hlow, mappedV6, contains_six, translatedV6, contains_six] at hends
  rw [toIpv4Equivalent]
  split
  · rename_i hmapped
    rw [if_pos (hends.2 (.inl hmapped))]
  rename_i hmapped
  split
  · rename_i hcompatible
    rw [if_pos (hends.2 (.inr (.inl hcompatible)))]
  rename_i hcompatible
  split
  · rename_i htranslated
    rw [if_pos (hends.2 (.inr (.inr htranslated)))]
  · rename_i htranslated
    exact (if_neg fun h => (hends.1 h).elim hmapped fun h => h.elim hcompatible htranslated).symm

theorem ofSegments_tail (addr : Ipv6Addr) :
    (ofSegments addr.s6 addr.s7).toNat = addr.toNat % 2 ^ 32 := by
  obtain ⟨-, -, -, -, -, -, h6, h7, -⟩ := addr.toNat_segments
  rw [ofSegments_toNat, h6, h7]
  omega

theorem ofSegments_site (addr : Ipv6Addr) :
    (ofSegments addr.s1 addr.s2).toNat = addr.toNat / 2 ^ 80 % 2 ^ 32 := by
  obtain ⟨-, h1, h2, -⟩ := addr.toNat_segments
  rw [ofSegments_toNat, h1, h2]
  omega

/-! ### The IPv6 blocks -/

def loopbackV6 : List Block := [v6Block ⟨0, 0, 0, 0, 0, 0, 0, 1⟩ 128]

def linkLocalV6 : List Block := [v6Block ⟨0xfe80, 0, 0, 0, 0, 0, 0, 0⟩ 10]

def privateV6 : List Block := [v6Block ⟨0xfc00, 0, 0, 0, 0, 0, 0, 0⟩ 7]

def metadataV6 : List Block := [v6Block ⟨0xfd00, 0x00ec, 0x0002, 0, 0, 0, 0, 0x0254⟩ 128]

def unspecifiedV6 : List Block := [v6Block ⟨0, 0, 0, 0, 0, 0, 0, 0⟩ 128]

def multicastV6 : List Block := [v6Block ⟨0xff00, 0, 0, 0, 0, 0, 0, 0⟩ 8]

/-- Local-use translation, documentation and discard only. -/
def reservedV6 : List Block :=
  [v6Block ⟨0x0064, 0xff9b, 0x0001, 0, 0, 0, 0, 0⟩ 48,
    v6Block ⟨0x2001, 0x0db8, 0, 0, 0, 0, 0, 0⟩ 32,
    v6Block ⟨0x0100, 0, 0, 0, 0, 0, 0, 0⟩ 64]

/-- The blocks that no profile opens. -/
def refusedV6 : List Block := metadataV6 ++ unspecifiedV6 ++ multicastV6 ++ reservedV6

/-- The classes with their blocks, in the order of the tests. -/
def rowsV6 : List (AddressClass × List Block) :=
  [(.metadata, metadataV6), (.unspecified, unspecifiedV6), (.loopback, loopbackV6),
    (.multicast, multicastV6), (.reserved, reservedV6.take 1), (.linkLocal, linkLocalV6),
    (.«private», privateV6), (.reserved, reservedV6.drop 1)]

/-! ### The tests over segments are blocks -/

theorem Ipv6Addr.toNat_injective : Function.Injective Ipv6Addr.toNat := by
  rintro addr other h
  obtain ⟨h0, h1, h2, h3, h4, h5, h6, h7, -⟩ := addr.toNat_segments
  obtain ⟨g0, g1, g2, g3, g4, g5, g6, g7, -⟩ := other.toNat_segments
  rw [h] at h0 h1 h2 h3 h4 h5 h6 h7
  cases addr
  cases other
  simp only [Ipv6Addr.mk.injEq, ← UInt16.toNat_inj]
  exact ⟨h0.trans g0.symm, h1.trans g1.symm, h2.trans g2.symm, h3.trans g3.symm,
    h4.trans g4.symm, h5.trans g5.symm, h6.trans g6.symm, h7.trans g7.symm⟩

/-- A test for one address. -/
theorem eq_iff_contains (addr base : Ipv6Addr) :
    addr = base ↔ (v6Block base 128).Contains addr.toNat := by
  rw [← Ipv6Addr.toNat_injective.eq_iff]
  simp [Block.Contains, v6Block]

/-- A test of the bits under a mask of the highest ones of the first segment. -/
theorem and_eq_iff_contains (addr : Ipv6Addr) {k m : ℕ} (hkm : k + m = 16) {mask base : UInt16}
    (hmask : mask.toNat = (2 ^ m - 1) * 2 ^ k) (hbase : base.toNat = base.toNat / 2 ^ k * 2 ^ k) :
    addr.s0 &&& mask = base ↔ (v6Block ⟨base, 0, 0, 0, 0, 0, 0, 0⟩ m).Contains addr.toNat := by
  have hs : addr.s0.toNat < 2 ^ (k + m) := hkm ▸ addr.s0.toNat_lt
  have hwidth : 128 - m = 112 + k := by omega
  have hnumber : (v6Block ⟨base, 0, 0, 0, 0, 0, 0, 0⟩ m).base / 2 ^ 112 = base.toNat := by
    simp [v6Block, Ipv6Addr.toNat]
    omega
  unfold Block.Contains
  rw [show (v6Block ⟨base, 0, 0, 0, 0, 0, 0, 0⟩ m).width -
      (v6Block ⟨base, 0, 0, 0, 0, 0, 0, 0⟩ m).length = 112 + k from hwidth, pow_add,
    ← Nat.div_div_eq_div_mul, ← Nat.div_div_eq_div_mul, hnumber, ← addr.toNat_segments.1,
    ← UInt16.toNat_inj, UInt16.toNat_and, hmask, Blocks.and_highBits hs]
  constructor
  · intro h
    rw [← h, Nat.mul_div_cancel _ (Nat.two_pow_pos k)]
  · intro h
    rw [h, ← hbase]

theorem sixToFour_iff (addr : Ipv6Addr) :
    addr.s0 = 0x2002 ↔ sixToFourV6.Contains addr.toNat := by
  rw [← UInt16.toNat_inj, addr.toNat_segments.1]
  simp [Block.Contains, sixToFourV6, v6Block, Ipv6Addr.toNat]

theorem localUse_iff (addr : Ipv6Addr) :
    (addr.s0 = 0x0064 ∧ addr.s1 = 0xff9b ∧ addr.s2 = 0x0001) ↔
      Within addr.toNat (reservedV6.take 1) := by
  have hblock := contains_places addr ⟨0x0064, 0xff9b, 0x0001, 0, 0, 0, 0, 0⟩
    (show 128 - 48 = 16 * 5 from rfl)
  simp only [Ipv6Addr.places, List.drop_succ_cons, List.drop_zero, List.cons.injEq,
    UInt16.toNat_inj, and_true] at hblock
  simp only [reservedV6, List.take_succ_cons, List.take_zero, within_cons, within_nil, or_false,
    hblock]
  constructor
  · rintro ⟨a, b, c⟩
    exact ⟨c, b, a⟩
  · rintro ⟨a, b, c⟩
    exact ⟨c, b, a⟩

theorem documentation_iff (addr : Ipv6Addr) :
    ((addr.s0 = 0x2001 ∧ addr.s1 = 0x0db8) ∨
      (addr.s0 = 0x0100 ∧ addr.s1 = 0 ∧ addr.s2 = 0 ∧ addr.s3 = 0)) ↔
      Within addr.toNat (reservedV6.drop 1) := by
  have hdocumentation := contains_places addr ⟨0x2001, 0x0db8, 0, 0, 0, 0, 0, 0⟩
    (show 128 - 32 = 16 * 6 from rfl)
  have hdiscard := contains_places addr ⟨0x0100, 0, 0, 0, 0, 0, 0, 0⟩
    (show 128 - 64 = 16 * 4 from rfl)
  simp only [Ipv6Addr.places, List.drop_succ_cons, List.drop_zero, List.cons.injEq,
    UInt16.toNat_inj, and_true] at hdocumentation hdiscard
  simp only [reservedV6, List.drop_succ_cons, List.drop_zero, within_cons, within_nil, or_false,
    hdocumentation, hdiscard]
  refine or_congr and_comm ⟨?_, ?_⟩
  · rintro ⟨a, b, c, d⟩
    exact ⟨d, c, b, a⟩
  · rintro ⟨a, b, c, d⟩
    exact ⟨d, c, b, a⟩

/-- The cascade over segments: first an IPv4 address at the end, then one after a 6to4 prefix, and
for every other address a table of blocks. -/
theorem classifyIpv6_eq (addr : Ipv6Addr) :
    classifyIpv6 addr =
      if EndsInV4 addr.toNat then classifyIpv4 (ofSegments addr.s6 addr.s7)
      else if sixToFourV6.Contains addr.toNat then
        if (classifyIpv4 (ofSegments addr.s1 addr.s2)).isGlobal then .reserved
        else classifyIpv4 (ofSegments addr.s1 addr.s2)
      else lookup .global rowsV6 addr.toNat := by
  unfold classifyIpv6
  rw [toIpv4Equivalent_eq]
  by_cases hends : EndsInV4 addr.toNat
  · rw [if_pos hends, if_pos hends]
  · rw [if_neg hends, if_neg hends]
    have hmetadata : addr = ⟨0xfd00, 0x00ec, 0x0002, 0, 0, 0, 0, 0x0254⟩ ↔
        Within addr.toNat metadataV6 := by
      rw [eq_iff_contains, metadataV6, within_cons, or_iff_left (within_nil _)]
    have hunspecified : addr.isUnspecified ↔ Within addr.toNat unspecifiedV6 := by
      rw [Ipv6Addr.isUnspecified, decide_eq_true_eq, eq_iff_contains, unspecifiedV6, within_cons,
        or_iff_left (within_nil _)]
    have hloopback : addr.isLoopback ↔ Within addr.toNat loopbackV6 := by
      rw [Ipv6Addr.isLoopback, decide_eq_true_eq, eq_iff_contains, loopbackV6, within_cons,
        or_iff_left (within_nil _)]
    have hmulticast : addr.isMulticast ↔ Within addr.toNat multicastV6 := by
      rw [Ipv6Addr.isMulticast, decide_eq_true_eq,
        and_eq_iff_contains addr (by decide : 8 + 8 = 16) (by decide) (by decide), multicastV6,
        within_cons, or_iff_left (within_nil _)]
    have hlinkLocal : addr.s0 &&& 0xffc0 = 0xfe80 ↔ Within addr.toNat linkLocalV6 := by
      rw [and_eq_iff_contains addr (by decide : 6 + 10 = 16) (by decide) (by decide), linkLocalV6,
        within_cons, or_iff_left (within_nil _)]
    have hprivate : addr.s0 &&& 0xfe00 = 0xfc00 ↔ Within addr.toNat privateV6 := by
      rw [and_eq_iff_contains addr (by decide : 9 + 7 = 16) (by decide) (by decide), privateV6,
        within_cons, or_iff_left (within_nil _)]
    simp only [hmetadata, hunspecified, hloopback, hmulticast, localUse_iff, sixToFour_iff,
      hlinkLocal, hprivate, documentation_iff, rowsV6, lookup]
    by_cases hsix : sixToFourV6.Contains addr.toNat
    · have hapart : ∀ row ∈ rowsV6, ¬Within addr.toNat row.2 := by
        have hrows : ∀ row ∈ rowsV6, Disjoint [sixToFourV6] row.2 := by decide
        exact fun row hrow => (hrows row hrow).not_within (by simpa using hsix)
      simp only [rowsV6, List.forall_mem_cons] at hapart
      obtain ⟨h1, h2, h3, h4, h5, -⟩ := hapart
      simp only [h1, h2, h3, h4, h5, hsix, if_true, if_false]
    · simp only [hsix, if_false]

/-! ### The class of an IPv6 address -/

section Carried

variable {addr : Ipv6Addr} {v4 : Ipv4Addr}

theorem EndsInV4.carries (h : EndsInV4 addr.toNat) :
    Carries addr (ofSegments addr.s6 addr.s7) := by
  rcases h with hmapped | ⟨hcompatible, hzero, hone⟩ | htranslated
  · exact .mapped hmapped (ofSegments_tail addr)
  · exact .compatible hcompatible hzero hone (ofSegments_tail addr)
  · exact .translated htranslated (ofSegments_tail addr)

/-- The forms that end in an IPv4 address are no 6to4 ones. -/
theorem not_endsInV4_of_sixToFour {n : ℕ} (h : sixToFourV6.Contains n) : ¬EndsInV4 n := by
  have hmapped : sixToFourV6.Apart mappedV6 := by decide
  have hcompatible : sixToFourV6.Apart compatibleV6 := by decide
  have htranslated : sixToFourV6.Apart translatedV6 := by decide
  rintro (hin | ⟨hin, -⟩ | hin)
  · exact Block.not_contains_of_apart hmapped h hin
  · exact Block.not_contains_of_apart hcompatible h hin
  · exact Block.not_contains_of_apart htranslated h hin

/-- An address carries at most one, and where it stands is seen from the prefix. -/
theorem Carries.cases (h : Carries addr v4) :
    (EndsInV4 addr.toNat ∧ v4 = ofSegments addr.s6 addr.s7) ∨
      (sixToFourV6.Contains addr.toNat ∧ v4 = ofSegments addr.s1 addr.s2) := by
  cases h with
  | mapped hblock htail =>
    exact .inl ⟨.inl hblock, Ipv4Addr.toNat_injective (htail.trans (ofSegments_tail addr).symm)⟩
  | compatible hblock hown hloopback htail =>
    exact .inl ⟨.inr (.inl ⟨hblock, hown, hloopback⟩),
      Ipv4Addr.toNat_injective (htail.trans (ofSegments_tail addr).symm)⟩
  | translated hblock htail =>
    exact .inl ⟨.inr (.inr hblock),
      Ipv4Addr.toNat_injective (htail.trans (ofSegments_tail addr).symm)⟩
  | sixToFour hblock hsite =>
    exact .inr ⟨hblock, Ipv4Addr.toNat_injective (hsite.trans (ofSegments_site addr).symm)⟩

/-- **An address that carries an IPv4 one has its class**, and under the 6to4 prefix is refused
where that is global. -/
theorem classifyIpv6_of_carries (h : Carries addr v4) :
    classifyIpv6 addr =
      if sixToFourV6.Contains addr.toNat ∧ classifyIpv4 v4 = .global then .reserved
      else classifyIpv4 v4 := by
  rw [classifyIpv6_eq]
  rcases h.cases with ⟨hends, rfl⟩ | ⟨hsix, rfl⟩
  · have hsix : ¬sixToFourV6.Contains addr.toNat := fun hsix => not_endsInV4_of_sixToFour hsix hends
    rw [if_pos hends, if_neg fun hboth => hsix hboth.1]
  · rw [if_neg (not_endsInV4_of_sixToFour hsix), if_pos hsix]
    cases classifyIpv4 (ofSegments addr.s1 addr.s2) <;> simp [AddressClass.isGlobal, hsix]

theorem Carries.unique {other : Ipv4Addr} (h : Carries addr v4) (hother : Carries addr other) :
    other = v4 := by
  rcases h.cases with ⟨hends, rfl⟩ | ⟨hsix, rfl⟩
  · rcases hother.cases with ⟨-, heq⟩ | ⟨hsix, -⟩
    · exact heq
    · exact absurd hends (not_endsInV4_of_sixToFour hsix)
  · rcases hother.cases with ⟨hends, -⟩ | ⟨-, heq⟩
    · exact absurd hends (not_endsInV4_of_sixToFour hsix)
    · exact heq

/-- And lies in none of the blocks of the table. -/
theorem Carries.not_within (h : Carries addr v4) {row : AddressClass × List Block}
    (hrow : row ∈ rowsV6) : ¬Within addr.toNat row.2 := by
  cases h with
  | mapped hblock =>
    have hapart : ∀ row ∈ rowsV6, Disjoint [mappedV6] row.2 := by decide
    exact (hapart row hrow).not_within (by simpa using hblock)
  | compatible hblock hown hloopback =>
    -- the two blocks of one address are the two that the form leaves out
    have hapart : ∀ row ∈ rowsV6, row.2 = unspecifiedV6 ∨ row.2 = loopbackV6 ∨
        Disjoint [compatibleV6] row.2 := by decide
    rcases hapart row hrow with heq | heq | hapart
    · rw [heq]
      simpa [unspecifiedV6, Block.Contains, v6Block, Ipv6Addr.toNat] using hown
    · rw [heq]
      simpa [loopbackV6, Block.Contains, v6Block, Ipv6Addr.toNat] using hloopback
    · exact hapart.not_within (by simpa using hblock)
  | translated hblock =>
    have hapart : ∀ row ∈ rowsV6, Disjoint [translatedV6] row.2 := by decide
    exact (hapart row hrow).not_within (by simpa using hblock)
  | sixToFour hblock =>
    have hapart : ∀ row ∈ rowsV6, Disjoint [sixToFourV6] row.2 := by decide
    exact (hapart row hrow).not_within (by simpa using hblock)

theorem classifyIpv6_eq_lookup (h : ∀ v4, ¬Carries addr v4) :
    classifyIpv6 addr = lookup .global rowsV6 addr.toNat := by
  have hsix : ¬sixToFourV6.Contains addr.toNat := fun hsix =>
    h _ (.sixToFour hsix (ofSegments_site addr))
  rw [classifyIpv6_eq, if_neg fun hends => h _ (EndsInV4.carries hends), if_neg hsix]

/-- A class comes from the table or from the IPv4 address that is carried. -/
theorem classifyIpv6_eq_iff {cls : AddressClass} (hreserved : cls ≠ .reserved)
    (hglobal : cls ≠ .global) :
    classifyIpv6 addr = cls ↔
      lookup .global rowsV6 addr.toNat = cls ∨ ∃ v4, Carries addr v4 ∧ classifyIpv4 v4 = cls := by
  by_cases hcarries : ∃ v4, Carries addr v4
  · obtain ⟨v4, h⟩ := hcarries
    have htable : lookup .global rowsV6 addr.toNat = .global := by
      rcases lookup_eq_otherwise_or .global rowsV6 addr.toNat with ⟨heq, -⟩ | ⟨row, hrow, -, hin⟩
      · exact heq
      · exact absurd hin (h.not_within hrow)
    rw [classifyIpv6_of_carries h, htable, or_iff_right hglobal.symm]
    constructor
    · intro heq
      refine ⟨v4, h, ?_⟩
      split at heq
      · exact absurd heq.symm hreserved
      · exact heq
    · rintro ⟨other, hother, heq⟩
      obtain rfl := h.unique hother
      rw [if_neg fun hboth => hglobal (heq.symm.trans hboth.2), heq]
  · have hnone : ∀ v4, ¬Carries addr v4 := fun v4 h => hcarries ⟨v4, h⟩
    rw [classifyIpv6_eq_lookup hnone]
    refine ⟨.inl, ?_⟩
    rintro (heq | ⟨v4, h, -⟩)
    · exact heq
    · exact absurd h (hnone v4)

end Carried

/-! ### Loopback, private and refused addresses -/

def IsLoopback : IpAddr → Prop
  | .v4 addr => Within addr.toNat loopbackV4
  | .v6 addr => Within addr.toNat loopbackV6 ∨ ∃ v4, Carries addr v4 ∧ Within v4.toNat loopbackV4

/-- A metadata address lies among the private IPv6 ones and is none of them. -/
def IsPrivate : IpAddr → Prop
  | .v4 addr => Within addr.toNat privateV4
  | .v6 addr => (Within addr.toNat privateV6 ∧ ¬Within addr.toNat metadataV6) ∨
      ∃ v4, Carries addr v4 ∧ Within v4.toNat privateV4

/-- Metadata, multicast, broadcast, unspecified, reserved and shared addresses: an IPv6 one also by
the IPv4 address it carries, and by carrying a global one under the 6to4 prefix. -/
def IsRefused : IpAddr → Prop
  | .v4 addr => Within addr.toNat refusedV4
  | .v6 addr => Within addr.toNat refusedV6 ∨ ∃ v4, Carries addr v4 ∧
      (Within v4.toNat refusedV4 ∨ (sixToFourV6.Contains addr.toNat ∧ classifyIpv4 v4 = .global))

theorem classify_eq_loopback (addr : IpAddr) : classify addr = .loopback ↔ IsLoopback addr := by
  cases addr with
  | v4 addr => exact classifyIpv4_eq_loopback
  | v6 addr =>
    rw [classify, classifyIpv6_eq_iff (by decide) (by decide), IsLoopback]
    simp only [classifyIpv4_eq_loopback]
    exact or_congr_left (lookup_mem_iff_within (P := (· = AddressClass.loopback)) (by decide)
      (by decide) (by decide) (by decide) _)

theorem classify_eq_private (addr : IpAddr) : classify addr = .«private» ↔ IsPrivate addr := by
  cases addr with
  | v4 addr => exact classifyIpv4_eq_private
  | v6 addr =>
    rw [classify, classifyIpv6_eq_iff (by decide) (by decide), IsPrivate]
    simp only [classifyIpv4_eq_private]
    refine or_congr_left ((lookup_eq_iff (rowsV6.take 6) privateV6 (rowsV6.drop 7) (by decide)
      (by decide) (by decide) _).trans (and_congr_right fun hin =>
        ⟨fun h => h (.metadata, metadataV6) (by simp [rowsV6]), ?_⟩))
    intro hmetadata row hrow
    have hrest : ∀ row ∈ (rowsV6.take 6).drop 1, Disjoint privateV6 row.2 := by decide
    rcases List.mem_cons.1 hrow with rfl | hrow
    · exact hmetadata
    · exact (hrest row hrow).not_within hin

/-- **The addresses of the refused blocks are those of a class that no profile opens.** -/
theorem not_opened_classify (addr : IpAddr) : ¬(classify addr).Opened ↔ IsRefused addr := by
  cases addr with
  | v4 addr => exact not_opened_classifyIpv4
  | v6 addr =>
    rw [classify, IsRefused]
    by_cases hcarries : ∃ v4, Carries addr v4
    · obtain ⟨v4, h⟩ := hcarries
      have hblocks : ¬Within addr.toNat refusedV6 := by
        have hrow : ∀ block ∈ refusedV6, ∃ row ∈ rowsV6, block ∈ row.2 := by decide
        rintro ⟨block, hblock, hin⟩
        obtain ⟨row, hmem, hrow⟩ := hrow block hblock
        exact h.not_within hmem ⟨block, hrow, hin⟩
      rw [or_iff_right hblocks, classifyIpv6_of_carries h]
      constructor
      · intro hclosed
        refine ⟨v4, h, ?_⟩
        by_cases hsix : sixToFourV6.Contains addr.toNat ∧ classifyIpv4 v4 = .global
        · exact .inr hsix
        · rw [if_neg hsix, not_opened_classifyIpv4] at hclosed
          exact .inl hclosed
      · rintro ⟨other, hother, hrefused⟩
        obtain rfl := h.unique hother
        split
        · decide
        next hsix => exact not_opened_classifyIpv4.2 (hrefused.resolve_right hsix)
    · have hnone : ∀ v4, ¬Carries addr v4 := fun v4 h => hcarries ⟨v4, h⟩
      rw [classifyIpv6_eq_lookup hnone, or_iff_left (by rintro ⟨v4, h, -⟩; exact hnone v4 h)]
      exact lookup_mem_iff_within (P := fun cls : AddressClass => ¬cls.Opened) (by decide)
        (by decide) (by decide) (by decide) _

/-- **A profile that permits an address permits the IPv4 address it carries.** -/
theorem EgressProfile.permitsAddress_of_carries {profile : EgressProfile} {addr : Ipv6Addr}
    {v4 : Ipv4Addr} (h : profile.permitsAddress (.v6 addr)) (hcarries : Carries addr v4) :
    profile.permitsAddress (.v4 v4) := by
  rw [permitsAddress, classify, classifyIpv6_of_carries hcarries] at h
  split at h
  · cases h
  · exact h

end HypeLlm.Net
