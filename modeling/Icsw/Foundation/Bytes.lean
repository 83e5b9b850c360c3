import Icsw.Foundation.Python
import Mathlib.Data.Int.Bitwise

/-!
# Byte strings

Byte strings of the interpreted language, which are taken for ASCII text as soon
as they meet text.
-/

namespace Icsw.Foundation

open List

abbrev Bytes := List UInt8

def encodeUtf8 (text : Text) : Bytes := text.flatMap String.utf8EncodeChar

/-- What a byte string becomes when it meets text. -/
def asciiText (data : Bytes) : Except PyError Text :=
  if data.all fun byte => decide (byte.toNat < 128) then
    .ok (data.map fun byte => Char.ofNat byte.toNat)
  else .error .unicodeDecodeError

def asciiChars (text : Text) : Bool := text.all fun c => decide (c.toNat < 128)

theorem utf8EncodeChar_ascii {c : Char} (h : c.toNat < 128) :
    String.utf8EncodeChar c = [UInt8.ofNat c.toNat] := by
  have hle : c.val.toNat ≤ 0x7f := Nat.le_of_lt_succ h
  unfold String.utf8EncodeChar
  rw [if_pos hle]
  rfl

theorem exists_utf8EncodeChar_ge {c : Char} (h : 128 ≤ c.toNat) :
    exists byte, byte ∈ String.utf8EncodeChar c ∧ 128 ≤ byte.toNat := by
  have hfirst : ¬ c.val.toNat ≤ 0x7f := Nat.not_le.mpr (Nat.lt_of_succ_le h)
  have hmask : forall bits, 128 ≤ (UInt8.ofNat (bits % 0x40 + 0x80)).toNat := by
    intro bits
    rw [UInt8.toNat_ofNat']
    omega
  unfold String.utf8EncodeChar
  simp only [if_neg hfirst]
  split
  · exact ⟨_, mem_cons_of_mem _ mem_cons_self, hmask _⟩
  · split
    · exact ⟨_, mem_cons_of_mem _ mem_cons_self, hmask _⟩
    · exact ⟨_, mem_cons_of_mem _ mem_cons_self, hmask _⟩

theorem encodeUtf8_append (first second : Text) :
    encodeUtf8 (first ++ second) = encodeUtf8 first ++ encodeUtf8 second := flatMap_append

theorem asciiChars_append (first second : Text) :
    asciiChars (first ++ second) = (asciiChars first && asciiChars second) := all_append

theorem encodeUtf8_ascii {text : Text} (h : asciiChars text = true) :
    encodeUtf8 text = text.map fun c => UInt8.ofNat c.toNat := by
  induction text with
  | nil => rfl
  | cons c rest ih =>
    simp only [asciiChars, all_cons, Bool.and_eq_true, decide_eq_true_iff] at h
    rw [encodeUtf8, flatMap_cons, utf8EncodeChar_ascii h.left]
    exact congrArg (cons _) (ih h.right)

theorem asciiText_encodeUtf8 {text : Text} (h : asciiChars text = true) :
    asciiText (encodeUtf8 text) = .ok text := by
  have hcode : forall c, c ∈ text -> (UInt8.ofNat c.toNat).toNat = c.toNat := by
    intro c hc
    have hlt : c.toNat < 128 := of_decide_eq_true (all_eq_true.mp h c hc)
    rw [UInt8.toNat_ofNat']
    omega
  rw [encodeUtf8_ascii h, asciiText, if_pos, map_map]
  · congr 1
    conv => rhs; rw [← map_id text]
    apply map_congr_left
    intro c hc
    show Char.ofNat (UInt8.ofNat c.toNat).toNat = c
    rw [hcode c hc, Char.ofNat_toNat]
  · rw [all_map, all_eq_true]
    intro c hc
    show decide ((UInt8.ofNat c.toNat).toNat < 128) = true
    rw [hcode c hc]
    exact all_eq_true.mp h c hc

theorem asciiText_of_not_ascii {text : Text} (h : asciiChars text = false) :
    asciiText (encodeUtf8 text) = .error .unicodeDecodeError := by
  rcases all_eq_false.mp h with ⟨c, hc, hcode⟩
  have hge : 128 ≤ c.toNat := by simpa using hcode
  rcases exists_utf8EncodeChar_ge hge with ⟨byte, hbyte, hlarge⟩
  rw [asciiText, if_neg]
  intro hall
  have hmem : byte ∈ encodeUtf8 text := mem_flatMap.mpr ⟨c, hc, hbyte⟩
  have hsmall : byte.toNat < 128 := of_decide_eq_true (all_eq_true.mp hall byte hmem)
  omega

/-!
## Bitwise or of integers

An integer is known by its bits, so the order in which values are combined with
a bitwise or does not matter.
-/

theorem testBit_ofNat_ne_negSucc (m n : Nat) :
    (Int.ofNat m).testBit (m + n) ≠ (Int.negSucc n).testBit (m + n) := by
  have hm : m.testBit (m + n) = false :=
    Nat.testBit_eq_false_of_lt (lt_of_le_of_lt (Nat.le_add_right m n) Nat.lt_two_pow_self)
  have hn : n.testBit (m + n) = false :=
    Nat.testBit_eq_false_of_lt (lt_of_le_of_lt (Nat.le_add_left n m) Nat.lt_two_pow_self)
  simp [Int.testBit, hm, hn]

theorem int_eq_of_testBit_eq {a b : Int} (h : forall bit, a.testBit bit = b.testBit bit) :
    a = b := by
  cases a with
  | ofNat m =>
    cases b with
    | ofNat n => exact congrArg Int.ofNat (Nat.eq_of_testBit_eq h)
    | negSucc n => exact absurd (h (m + n)) (testBit_ofNat_ne_negSucc m n)
  | negSucc m =>
    cases b with
    | ofNat n => exact absurd (h (n + m)).symm (testBit_ofNat_ne_negSucc n m)
    | negSucc n =>
      apply congrArg Int.negSucc
      apply Nat.eq_of_testBit_eq
      intro bit
      simpa [Int.testBit] using h bit

theorem lor_right_comm (a b c : Int) : (a.lor b).lor c = (a.lor c).lor b := by
  apply int_eq_of_testBit_eq
  intro bit
  simp only [Int.testBit_lor, Bool.or_assoc, Bool.or_comm (b.testBit bit)]

end Icsw.Foundation
