import Icsw.Network.Ipv4
import Mathlib.Tactic.Linarith

/-!
# Arithmetic of addresses

The operators work on one octet after the other and carry over by hand.  On addresses that are
read from four octets they are the operations of numbers of 32 bits.
-/

namespace Icsw.Network

open Foundation

theorem carry_eq {newVal : Nat} (h : newVal < 512) :
    Ipv4.carry newVal 0 = (((newVal % 256 : Nat) : Int), ((newVal / 256 : Nat) : Int)) := by
  unfold Ipv4.carry
  split
  · unfold Ipv4.carry
    rw [if_neg (by omega)]
    apply Prod.ext
    · show (newVal : Int) - 256 = _
      omega
    · show (0 : Int) + 1 = _
      omega
  · apply Prod.ext
    · show (newVal : Int) = _
      omega
    · show (0 : Int) = _
      omega

theorem addParts_succ {parts others : List Int} {index : Nat} {newV : List Int}
    (part other ov : Nat) (hpart : parts[index]? = some (part : Int))
    (hother : others[index]? = some (other : Int)) (hless : part + other + ov < 512) :
    Ipv4.addParts parts others (index + 1) ov newV =
      Ipv4.addParts parts others index (((part + other + ov) / 256 : Nat) : Int)
        ((((part + other + ov) % 256 : Nat) : Int) :: newV) := by
  have hitem : forall {parts : List Int} {part : Int}, parts[index]? = some part ->
      Ipv4.item parts index = .ok part := by
    intro parts part hpart
    unfold Ipv4.item
    rw [hpart]
  have hsum : (part : Int) + other + ov = ((part + other + ov : Nat) : Int) := by
    push_cast
    rfl
  rw [Ipv4.addParts, hitem hpart, hitem hother]
  show Ipv4.addParts parts others index (Ipv4.carry ((part : Int) + other + ov) 0).snd
    ((Ipv4.carry ((part : Int) + other + ov) 0).fst :: newV) = _
  rw [hsum, carry_eq hless]

theorem addParts_octets (ip other : Address) :
    Ipv4.addParts (octets ip) (octets other) 4 0 [] =
      .ok (((ip.number + other.number) / 2 ^ 32 : Nat),
        octets (Address.ofNumber (ip.number + other.number))) := by
  have hbounds : forall ip : Address, ip.first.toNat < 256 ∧ ip.second.toNat < 256 ∧
      ip.third.toNat < 256 ∧ ip.fourth.toNat < 256 := fun ip =>
    ⟨ip.first.isLt, ip.second.isLt, ip.third.isLt, ip.fourth.isLt⟩
  have hip := hbounds ip
  have hother := hbounds other
  rw [show (0 : Int) = ((0 : Nat) : Int) from rfl,
    addParts_succ ip.fourth.toNat other.fourth.toNat 0 rfl rfl (by omega),
    addParts_succ ip.third.toNat other.third.toNat _ rfl rfl (by omega),
    addParts_succ ip.second.toNat other.second.toNat _ rfl rfl (by omega),
    addParts_succ ip.first.toNat other.first.toNat _ rfl rfl (by omega),
    Ipv4.addParts]
  simp only [octets, Address.ofNumber, Address.number, List.map_cons, List.map_nil, BitVec.toNat_ofNat,
    Except.ok.injEq, Prod.mk.injEq, List.cons.injEq, Nat.cast_inj]
  refine ⟨?_, ?_, ?_, ?_, ?_, trivial⟩
  · omega
  · omega
  · omega
  · omega
  · omega

theorem add_of_sums (ip other : Ipv4) {ov : Int} {newV : List Int}
    (h : Ipv4.addParts ip.parts other.parts 4 0 [] = .ok (ov, newV)) :
    ip.add other = if ov ≠ 0 then .error .valueError else Ipv4.ofText (Ipv4.dotted newV) := by
  unfold Ipv4.add
  rw [h]
  rfl

theorem add_ofAddress {ip other : Address} (h : ip.number + other.number < 2 ^ 32) :
    (Ipv4.ofAddress ip).add (Ipv4.ofAddress other) =
      .ok (Ipv4.ofAddress (Address.ofNumber (ip.number + other.number))) := by
  have hzero : ¬ (((ip.number + other.number) / 2 ^ 32 : Nat) : Int) ≠ 0 := by omega
  rw [add_of_sums (.ofAddress ip) (.ofAddress other) (addParts_octets ip other), if_neg hzero, ofText_dotted]

theorem add_overflow {ip other : Address} (h : 2 ^ 32 ≤ ip.number + other.number) :
    (Ipv4.ofAddress ip).add (Ipv4.ofAddress other) = .error .valueError := by
  have hcarry : (((ip.number + other.number) / 2 ^ 32 : Nat) : Int) ≠ 0 := by omega
  rw [add_of_sums (.ofAddress ip) (.ofAddress other) (addParts_octets ip other), if_pos hcarry]

theorem maskBits_two_pow_mul (zeros odd : Nat) (bits : Int) :
    Ipv4.maskBits ((2 ^ zeros * (2 * odd + 1) : Nat) : Int) bits = bits - zeros := by
  induction zeros generalizing bits with
  | zero =>
    rw [Ipv4.maskBits, if_neg (by omega), Nat.cast_zero, sub_zero]
  | succ zeros ih =>
    have hdouble : 2 ^ (zeros + 1) * (2 * odd + 1) = 2 * (2 ^ zeros * (2 * odd + 1)) := by
      rw [Nat.pow_succ']
      exact Nat.mul_assoc 2 _ _
    have hpos : 0 < 2 ^ zeros * (2 * odd + 1) := Nat.mul_pos (Nat.two_pow_pos zeros) (by omega)
    rw [hdouble, Ipv4.maskBits, if_pos (by omega)]
    have hhalf : ((2 * (2 ^ zeros * (2 * odd + 1)) : Nat) : Int) / 2 =
        ((2 ^ zeros * (2 * odd + 1) : Nat) : Int) := by omega
    rw [hhalf, ih]
    push_cast
    omega

theorem netmaskBits_ofAddress {mask : Address} {bits : Nat} (hbits : bits ≤ 32)
    (hmask : mask.number = 2 ^ 32 - 2 ^ (32 - bits)) :
    (Ipv4.ofAddress mask).netmaskBits = bits := by
  unfold Ipv4.netmaskBits
  rw [value_ofAddress]
  cases bits with
  | zero =>
    rw [hmask]
    rfl
  | succ below =>
    have hones : 2 * (2 ^ below - 1) + 1 = 2 ^ (below + 1) - 1 := by
      have := Nat.two_pow_pos below
      rw [Nat.pow_succ']
      omega
    have hodd : mask.number = 2 ^ (32 - (below + 1)) * (2 * (2 ^ below - 1) + 1) := by
      have hsplit : 2 ^ (32 - (below + 1)) * 2 ^ (below + 1) = 2 ^ 32 := by
        rw [← Nat.pow_add, Nat.sub_add_cancel hbits]
      rw [hones, Nat.mul_sub, hsplit, Nat.mul_one, hmask]
    have hpos : 0 < mask.number := by
      rw [hodd]
      exact Nat.mul_pos (Nat.two_pow_pos _) (by omega)
    rw [if_neg (by omega), hodd, maskBits_two_pow_mul]
    omega

def OfQuad (ip : Ipv4) : Prop :=
  exists text address, Spells text address ∧ Ipv4.ofText text = .ok ip

theorem OfQuad.eq_ofAddress {ip : Ipv4} (h : OfQuad ip) :
    exists address, ip = Ipv4.ofAddress address := by
  rcases h with ⟨text, address, hspells, htext⟩
  rw [ofText_spells hspells] at htext
  exact ⟨address, (Except.ok.inj htext).symm⟩

/-- The operators are those of numbers of 32 bits. -/
structure Arithmetic (ip other : Ipv4) : Prop where
  invert : exists result, ip.invert = .ok result ∧ result.value = 2 ^ 32 - 1 - ip.value
  and : exists result, ip.and other = .ok result ∧ result.value = Int.land ip.value other.value
  or : exists result, ip.or other = .ok result ∧ result.value = Int.lor ip.value other.value
  raises : (exists raised, ip.add other = .error raised) <-> 2 ^ 32 ≤ ip.value + other.value
  add : forall result, ip.add other = .ok result -> result.value = ip.value + other.value
  lt : ip.lt other = true <-> ip.value < other.value
  le : ip.le other = true <-> ip.value ≤ other.value
  gt : ip.gt other = true <-> ip.value > other.value
  ge : ip.ge other = true <-> ip.value ≥ other.value
  eq : ip.eq other = true <-> ip.value = other.value
  hash : ip.eq other = true -> ip.hash = other.hash
  netmaskBits : forall bits : Nat, bits ≤ 32 -> ip.value = 2 ^ 32 - 2 ^ (32 - bits) ->
    ip.netmaskBits = bits

theorem eq_ofAddress (ip other : Address) :
    (Ipv4.ofAddress ip).eq (Ipv4.ofAddress other) = true <-> ip = other :=
  decide_eq_true_iff.trans ⟨octets_injective, fun h => congrArg octets h⟩

theorem operators_arithmetic {ip other : Ipv4} (hip : OfQuad ip) (hother : OfQuad other) :
    Arithmetic ip other := by
  rcases hip.eq_ofAddress with ⟨ip, rfl⟩
  rcases hother.eq_ofAddress with ⟨other, rfl⟩
  have hcast : forall {number mask : Nat}, (number : Int) = 2 ^ 32 - 2 ^ mask -> mask ≤ 32 ->
      number = 2 ^ 32 - 2 ^ mask := by
    intro number mask hnumber hmask
    have hle : 2 ^ mask ≤ 2 ^ 32 := Nat.pow_le_pow_right (by decide) hmask
    have hpow : ((2 ^ mask : Nat) : Int) = 2 ^ mask := Nat.cast_pow 2 mask
    omega
  constructor
  case invert =>
    refine ⟨_, invert_ofAddress ip, ?_⟩
    have := Address.number_not ip
    rw [value_ofAddress, value_ofAddress]
    omega
  case and =>
    refine ⟨_, and_ofAddress ip other, ?_⟩
    rw [value_ofAddress, value_ofAddress, value_ofAddress, Address.number_both]
    rfl
  case or =>
    refine ⟨_, or_ofAddress ip other, ?_⟩
    rw [value_ofAddress, value_ofAddress, value_ofAddress, Address.number_either]
    rfl
  case raises =>
    rw [value_ofAddress, value_ofAddress]
    constructor
    · rintro ⟨raised, hraised⟩
      apply le_of_not_gt
      intro hless
      rw [add_ofAddress (by omega)] at hraised
      cases hraised
    · intro hover
      exact ⟨.valueError, add_overflow (by omega)⟩
  case add =>
    intro result hresult
    rw [value_ofAddress, value_ofAddress]
    rcases Nat.lt_or_ge (ip.number + other.number) (2 ^ 32) with hless | hover
    · rw [add_ofAddress hless] at hresult
      rw [← Except.ok.inj hresult, value_ofAddress, Address.number_ofNumber hless]
      exact Nat.cast_add _ _
    · rw [add_overflow hover] at hresult
      cases hresult
  case lt => rw [lt_ofAddress, value_ofAddress, value_ofAddress, Nat.cast_lt]
  case le => rw [le_ofAddress, value_ofAddress, value_ofAddress, Nat.cast_le]
  case gt => rw [value_ofAddress, value_ofAddress, gt_iff_lt, Nat.cast_lt]; exact lt_ofAddress other ip
  case ge => rw [ge_ofAddress, value_ofAddress, value_ofAddress, ge_iff_le, Nat.cast_le]
  case eq =>
    rw [eq_ofAddress, value_ofAddress, value_ofAddress, Nat.cast_inj]
    exact ⟨fun h => congrArg Address.number h, Address.number_inj⟩
  case hash =>
    intro heq
    rw [(eq_ofAddress ip other).mp heq]
  case netmaskBits =>
    intro bits hbits hvalue
    rw [value_ofAddress] at hvalue
    exact netmaskBits_ofAddress hbits (hcast hvalue (Nat.sub_le 32 bits))

theorem operators_arithmetic_carry :
    exists ip other, Ipv4.ofText "10.0.255.200".toList = .ok ip ∧
      Ipv4.ofText "0.0.0.100".toList = .ok other ∧ Arithmetic ip other := by
  have hip : Spells "10.0.255.200".toList ⟨10, 0, 255, 200⟩ := by
    unfold Spells
    rfl
  have hother : Spells "0.0.0.100".toList ⟨0, 0, 0, 100⟩ := by
    unfold Spells
    rfl
  have hread := ofText_spells hip
  have hread' := ofText_spells hother
  exact ⟨_, _, hread, hread', operators_arithmetic ⟨_, _, hip, hread⟩ ⟨_, _, hother, hread'⟩⟩

end Icsw.Network
