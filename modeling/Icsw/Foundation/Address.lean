import Mathlib.Data.BitVec

/-!
# Addresses of four octets

A netmask has ones in front of zeros.  It cuts an address into the network, which all addresses
of one network share, and the place in it, and the last address of a network has only ones there.
-/

namespace Icsw.Foundation

@[ext]
structure Address where
  first : BitVec 8
  second : BitVec 8
  third : BitVec 8
  fourth : BitVec 8
deriving DecidableEq

namespace Address

def number (ip : Address) : Nat :=
  ((ip.first.toNat * 256 + ip.second.toNat) * 256 + ip.third.toNat) * 256 + ip.fourth.toNat

def not (ip : Address) : Address := ⟨~~~ip.first, ~~~ip.second, ~~~ip.third, ~~~ip.fourth⟩

variable (ip other : Address)

def both : Address :=
  ⟨ip.first &&& other.first, ip.second &&& other.second, ip.third &&& other.third,
    ip.fourth &&& other.fourth⟩

def either : Address :=
  ⟨ip.first ||| other.first, ip.second ||| other.second, ip.third ||| other.third,
    ip.fourth ||| other.fourth⟩

/-- Ones in front of zeros. -/
def IsNetmask (mask : Address) : Prop :=
  exists bits, bits ≤ 32 ∧ mask.number = 2 ^ 32 - 2 ^ (32 - bits)

theorem both_both_right (ip mask : Address) : (ip.both mask).both mask = ip.both mask := by
  simp only [both, BitVec.and_assoc, BitVec.and_self]

theorem placed_both (place network mask : Address) :
    ((place.both mask.not).either (network.both mask)).both mask = network.both mask := by
  have hoctet : forall place network mask : BitVec 8,
      (place &&& ~~~mask ||| network &&& mask) &&& mask = network &&& mask := by
    intro place network mask
    rw [BitVec.and_or_distrib_right, BitVec.and_assoc, BitVec.not_and_self, BitVec.and_assoc,
      BitVec.and_self]
    show place &&& 0#8 ||| network &&& mask = network &&& mask
    rw [BitVec.and_zero, BitVec.zero_or]
  simp only [both, either, not, hoctet]

theorem either_comm : ip.either other = other.either ip := by
  simp only [either, BitVec.or_comm]

theorem not_not (ip : Address) : ip.not.not = ip := by
  simp only [not, BitVec.not_not]

theorem both_both_self_left : ip.both (ip.both other) = ip.both other := by
  simp only [both, ← BitVec.and_assoc, BitVec.and_self]

theorem either_both_not (network last : Address) :
    network.either (last.both network.not) = network.either last := by
  have hoctet : forall network last : BitVec 8,
      network ||| last &&& ~~~network = network ||| last := by
    intro network last
    ext i hi
    rw [BitVec.getElem_or, BitVec.getElem_and, BitVec.getElem_not, BitVec.getElem_or]
    cases network[i] <;> cases last[i] <;> rfl
  simp only [both, either, not, hoctet]

theorem either_both_either (network place : Address) :
    network.either ((network.either place).both place) = network.either place := by
  have hoctet : forall network place : BitVec 8,
      network ||| (network ||| place) &&& place = network ||| place := by
    intro network place
    ext i hi
    rw [BitVec.getElem_or, BitVec.getElem_and, BitVec.getElem_or]
    cases network[i] <;> cases place[i] <;> rfl
  simp only [both, either, hoctet]

theorem both_not_both_not (network last : Address) :
    network.both (last.both network.not).not = network := by
  have hoctet : forall network last : BitVec 8, network &&& ~~~(last &&& ~~~network) = network := by
    intro network last
    ext i hi
    rw [BitVec.getElem_and, BitVec.getElem_not, BitVec.getElem_and, BitVec.getElem_not]
    cases network[i] <;> cases last[i] <;> rfl
  simp only [both, not, hoctet]

theorem eq_either_iff (network last : Address) :
    last = network.either last <-> network.both last = network := by
  have hupper : forall network last : BitVec 8, network &&& (network ||| last) = network := by
    intro network last
    ext i hi
    rw [BitVec.getElem_and, BitVec.getElem_or]
    cases network[i] <;> cases last[i] <;> rfl
  have hlower : forall network last : BitVec 8, network &&& last ||| last = last := by
    intro network last
    ext i hi
    rw [BitVec.getElem_or, BitVec.getElem_and]
    cases network[i] <;> cases last[i] <;> rfl
  have hoctet : forall network last : BitVec 8,
      last = network ||| last <-> network &&& last = network := fun network last =>
    ⟨fun h => (congrArg (network &&& ·) h).trans (hupper network last),
      fun h => (hlower network last).symm.trans (congrArg (· ||| last) h)⟩
  rw [Address.ext_iff, Address.ext_iff]
  exact and_congr (hoctet _ _) (and_congr (hoctet _ _) (and_congr (hoctet _ _) (hoctet _ _)))

theorem testBit_octet {high low : Nat} (hlow : low < 256) (bit : Nat) :
    (high * 256 + low).testBit bit =
      if bit < 8 then low.testBit bit else high.testBit (bit - 8) := by
  rw [Nat.mul_comm]
  exact Nat.testBit_two_pow_mul_add high (i := 8) hlow bit

theorem and_octet {high low other below : Nat} (hlow : low < 256) (hbelow : below < 256) :
    (high * 256 + low) &&& (other * 256 + below) = (high &&& other) * 256 + (low &&& below) := by
  have hless : low &&& below < 256 := lt_of_le_of_lt Nat.and_le_left hlow
  apply Nat.eq_of_testBit_eq
  intro bit
  rw [Nat.testBit_and, testBit_octet hlow, testBit_octet hbelow, testBit_octet hless]
  split
  · rw [Nat.testBit_and]
  · rw [Nat.testBit_and]

theorem or_octet {high low other below : Nat} (hlow : low < 256) (hbelow : below < 256) :
    (high * 256 + low) ||| (other * 256 + below) = (high ||| other) * 256 + (low ||| below) := by
  have hless : low ||| below < 256 := Nat.or_lt_two_pow (n := 8) hlow hbelow
  apply Nat.eq_of_testBit_eq
  intro bit
  rw [Nat.testBit_or, testBit_octet hlow, testBit_octet hbelow, testBit_octet hless]
  split
  · rw [Nat.testBit_or]
  · rw [Nat.testBit_or]

theorem number_both : (ip.both other).number = ip.number &&& other.number := by
  unfold number both
  rw [and_octet ip.fourth.isLt other.fourth.isLt, and_octet ip.third.isLt other.third.isLt,
    and_octet ip.second.isLt other.second.isLt]
  simp only [BitVec.toNat_and]

theorem number_either : (ip.either other).number = ip.number ||| other.number := by
  unfold number either
  rw [or_octet ip.fourth.isLt other.fourth.isLt, or_octet ip.third.isLt other.third.isLt,
    or_octet ip.second.isLt other.second.isLt]
  simp only [BitVec.toNat_or]

theorem number_not (ip : Address) : ip.not.number + ip.number = 2 ^ 32 - 1 := by
  have hoctet : forall octet : BitVec 8, (~~~octet).toNat + octet.toNat = 255 := by
    intro octet
    have := octet.isLt
    rw [BitVec.toNat_not]
    omega
  have hfirst := hoctet ip.first
  have hsecond := hoctet ip.second
  have hthird := hoctet ip.third
  have hfourth := hoctet ip.fourth
  show (((~~~ip.first).toNat * 256 + (~~~ip.second).toNat) * 256 + (~~~ip.third).toNat) * 256 +
    (~~~ip.fourth).toNat + (((ip.first.toNat * 256 + ip.second.toNat) * 256 + ip.third.toNat) * 256 +
      ip.fourth.toNat) = _
  omega

theorem number_lt (ip : Address) : ip.number < 2 ^ 32 := by
  have := number_not ip
  omega

theorem number_inj {ip other : Address} (h : ip.number = other.number) : ip = other := by
  have hfirst := ip.first.isLt
  have hsecond := ip.second.isLt
  have hthird := ip.third.isLt
  have hfourth := ip.fourth.isLt
  have hfirst' := other.first.isLt
  have hsecond' := other.second.isLt
  have hthird' := other.third.isLt
  have hfourth' := other.fourth.isLt
  unfold number at h
  apply Address.ext
  · exact BitVec.eq_of_toNat_eq (by omega)
  · exact BitVec.eq_of_toNat_eq (by omega)
  · exact BitVec.eq_of_toNat_eq (by omega)
  · exact BitVec.eq_of_toNat_eq (by omega)

def ofNumber (number : Nat) : Address :=
  ⟨BitVec.ofNat 8 (number / 2 ^ 24), BitVec.ofNat 8 (number / 2 ^ 16),
    BitVec.ofNat 8 (number / 2 ^ 8), BitVec.ofNat 8 number⟩

theorem number_ofNumber {number : Nat} (h : number < 2 ^ 32) :
    (ofNumber number).number = number := by
  unfold Address.number Address.ofNumber
  simp only [BitVec.toNat_ofNat]
  omega

end Address

end Icsw.Foundation
