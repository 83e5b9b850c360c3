import Mathlib.Data.Nat.ModEq
import Mathlib.Tactic.Ring

/-!
# One's complement sums

Words of two digits are added, and what goes beyond a word is added to it again.  A sum that has
been folded twice is congruent to the sum of the words.
-/

namespace Icsw.Foundation

open List

section Fold

variable {base : Nat}

/-- The high and the low word are added, and the carry of that once more. -/
def foldCarries (base sum : Nat) : Nat :=
  let cur := sum / base + sum % base
  (cur + cur / base) % base

theorem foldCarries_lt (hbase : 0 < base) (sum : Nat) : foldCarries base sum < base :=
  Nat.mod_lt _ hbase

theorem high_add_low_modEq (hbase : 0 < base) (sum : Nat) :
    sum / base + sum % base ≡ sum [MOD base - 1] := by
  have hone : base ≡ 1 [MOD base - 1] :=
    ((Nat.modEq_iff_dvd' (Nat.succ_le_of_lt hbase)).mpr (dvd_refl (base - 1))).symm
  have hmul : 1 * (sum / base) ≡ base * (sum / base) [MOD base - 1] := hone.symm.mul_right _
  rw [Nat.one_mul] at hmul
  have hsum := hmul.add_right (sum % base)
  rwa [Nat.div_add_mod] at hsum

theorem foldCarries_modEq (hbase : 1 < base) {sum : Nat} (hsum : sum < base * base) :
    foldCarries base sum ≡ sum [MOD base - 1] := by
  have hpos : 0 < base := Nat.zero_lt_of_lt hbase
  let cur := sum / base + sum % base
  have hhigh : sum / base < base := Nat.div_lt_of_lt_mul hsum
  have hlow : sum % base < base := Nat.mod_lt _ hpos
  have hcur : cur ≤ 2 * base - 2 := by omega
  have hfold : foldCarries base sum = cur / base + cur % base := by
    show (cur + cur / base) % base = _
    by_cases hsmall : cur < base
    · rw [Nat.div_eq_of_lt hsmall, Nat.add_zero, Nat.zero_add]
    · have hcarry : cur / base = 1 := Nat.div_eq_of_lt_le (by omega) (by omega)
      have hrest : cur % base = cur - base := by
        rw [Nat.mod_eq_sub_mod (by omega), Nat.mod_eq_of_lt (by omega)]
      rw [hcarry, hrest, Nat.mod_eq_sub_mod (by omega), Nat.mod_eq_of_lt (by omega)]
      omega
  rw [hfold]
  exact (high_add_low_modEq hpos cur).trans (high_add_low_modEq hpos sum)

theorem foldCarries_ne (hbase : 1 < base) {sum diff : Nat} (hdiff : 0 < diff)
    (hlt : diff < base - 1) (hsum : sum + diff < base * base) :
    foldCarries base sum ≠ foldCarries base (sum + diff) := by
  intro heq
  have hcongr : sum ≡ sum + diff [MOD base - 1] :=
    (foldCarries_modEq hbase (Nat.lt_of_le_of_lt (Nat.le_add_right sum diff) hsum)).symm.trans
      (heq ▸ foldCarries_modEq hbase hsum)
  have hdvd : base - 1 ∣ sum + diff - sum :=
    (Nat.modEq_iff_dvd' (Nat.le_add_right sum diff)).mp hcongr
  rw [Nat.add_sub_cancel_left] at hdvd
  exact Nat.not_le_of_lt hlt (Nat.le_of_dvd hdiff hdvd)

end Fold

section Words

variable {digit : Nat}

def wordSum (digit : Nat) : List Nat -> Nat
  | [] => 0
  | [low] => low
  | low :: high :: rest => low + digit * high + wordSum digit rest

def placeValue (digit index : Nat) : Nat := if index % 2 = 0 then 1 else digit

theorem wordSum_set {digits : List Nat} {index : Nat} (h : index < digits.length) (value : Nat) :
    wordSum digit (digits.set index value) + placeValue digit index * digits[index] =
      wordSum digit digits + placeValue digit index * value := by
  induction digits using wordSum.induct generalizing index with
  | case1 => cases h
  | case2 low =>
    have hzero : index = 0 := Nat.lt_one_iff.mp h
    subst hzero
    show value + 1 * low = low + 1 * value
    omega
  | case3 low high rest ih =>
    rcases index with _ | _ | index
    · show value + digit * high + wordSum digit rest + 1 * low =
        low + digit * high + wordSum digit rest + 1 * value
      omega
    · show low + digit * value + wordSum digit rest + digit * high =
        low + digit * high + wordSum digit rest + digit * value
      omega
    · have hindex : index < rest.length := Nat.lt_of_succ_lt_succ (Nat.lt_of_succ_lt_succ h)
      have hplace : placeValue digit (index + 1 + 1) = placeValue digit index := by
        unfold placeValue
        rw [show (index + 1 + 1) % 2 = index % 2 by omega]
      have hrest := ih hindex
      rw [hplace]
      show low + digit * high + wordSum digit (rest.set index value) +
        placeValue digit index * rest[index] = low + digit * high + wordSum digit rest +
          placeValue digit index * value
      omega

theorem wordSum_le {digits : List Nat} (h : forall value, value ∈ digits -> value < digit) :
    wordSum digit digits ≤ (digits.length + 1) / 2 * (digit * digit - 1) := by
  induction digits using wordSum.induct with
  | case1 => exact Nat.zero_le _
  | case2 low =>
    have hlow := h low (mem_singleton_self low)
    have hsquare : digit ≤ digit * digit := Nat.le_mul_self digit
    have hlength : ([low].length + 1) / 2 = 1 := by simp
    rw [hlength, Nat.one_mul]
    show low ≤ digit * digit - 1
    omega
  | case3 low high rest ih =>
    have hlow := h low mem_cons_self
    have hhigh := h high (mem_cons_of_mem _ mem_cons_self)
    have hrest := ih fun value hvalue =>
      h value (mem_cons_of_mem _ (mem_cons_of_mem _ hvalue))
    have hword : low + digit * high ≤ digit * digit - 1 := by
      have hstep : digit * (high + 1) ≤ digit * digit := Nat.mul_le_mul_left _ hhigh
      rw [Nat.mul_succ] at hstep
      omega
    have hlength : ((low :: high :: rest).length + 1) / 2 = (rest.length + 1) / 2 + 1 := by
      simp only [length_cons]
      omega
    rw [hlength, Nat.succ_mul]
    show low + digit * high + wordSum digit rest ≤ _
    omega

theorem wordSum_append_zero (digits : List Nat) :
    wordSum digit (digits ++ [0]) = wordSum digit digits := by
  induction digits using wordSum.induct with
  | case1 => rfl
  | case2 low => exact Nat.add_assoc low _ _
  | case3 low high rest ih => exact congrArg (low + digit * high + ·) ih

end Words

end Icsw.Foundation
