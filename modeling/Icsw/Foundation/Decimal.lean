import Icsw.Foundation.TextFile
import Mathlib.Tactic.Ring

/-!
# Decimal numbers

Integers as they are printed, and what is read back from them.
-/

namespace Icsw.Foundation

open List

/-- `"{:d}".format(value)` -/
def formatInt : Int -> Text
  | Int.ofNat value => Nat.toDigits 10 value
  | Int.negSucc value => '-' :: Nat.toDigits 10 (value + 1)

theorem isDigit_toDigits {value : Nat} {c : Char} (h : c ∈ Nat.toDigits 10 value) :
    48 ≤ c.toNat ∧ c.toNat ≤ 57 :=
  Char.isDigit_iff_toNat.mp (Nat.isDigit_of_mem_toDigits (by decide) (by decide) h)

theorem digitValue_of_digit {c : Char} (h : 48 ≤ c.toNat ∧ c.toNat ≤ 57) :
    digitValue c = some (c.toNat - 48) := by
  have hother : ¬ c.toNat = 0x19DA := by omega
  have hfirst : (48 ≤ c.toNat ∧ c.toNat < 48 + 10) := ⟨h.left, by omega⟩
  rw [digitValue, if_neg hother, zeroCodes, find?_cons_of_pos (by simpa using hfirst)]
  rfl

theorem foldlM_digits {digits : Text} (h : forall c, c ∈ digits -> 48 ≤ c.toNat ∧ c.toNat ≤ 57)
    (start : Nat) :
    digits.foldlM (fun value c => (digitValue c).map (fun digit => 10 * value + digit)) start =
      some (Nat.ofDigitChars 10 digits start) := by
  induction digits generalizing start with
  | nil => rfl
  | cons c rest ih =>
    rw [foldlM_cons, digitValue_of_digit (h c mem_cons_self), Nat.ofDigitChars_cons]
    exact ih (fun other hother => h other (mem_cons_of_mem c hother)) _

theorem parseDigits_toDigits (value : Nat) : parseDigits (Nat.toDigits 10 value) = some value := by
  rw [parseDigits, if_neg Nat.toDigits_ne_nil, foldlM_digits (fun _ h => isDigit_toDigits h),
    Nat.ofDigitChars_toDigits (by decide) (by decide)]

theorem formatInt_char {value : Int} {c : Char} (h : c ∈ formatInt value) :
    45 ≤ c.toNat ∧ c.toNat ≤ 57 := by
  have hdigit : forall digits : Nat, c ∈ Nat.toDigits 10 digits -> 45 ≤ c.toNat ∧ c.toNat ≤ 57 := by
    intro digits hmem
    have hcode := isDigit_toDigits hmem
    exact ⟨le_trans (by decide) hcode.left, hcode.right⟩
  cases value with
  | ofNat digits => exact hdigit digits h
  | negSucc digits =>
    rcases mem_cons.mp h with hsign | hrest
    · rw [hsign]
      decide
    · exact hdigit (digits + 1) hrest

theorem not_mem_formatInt {c : Char} {value : Int} (hsign : c ≠ '-')
    (hdigit : ¬ (48 ≤ c.toNat ∧ c.toNat ≤ 57)) : c ∉ formatInt value := by
  intro hmem
  cases value with
  | ofNat digits => exact hdigit (isDigit_toDigits hmem)
  | negSucc digits =>
    rcases mem_cons.mp hmem with heq | hrest
    · exact hsign heq
    · exact hdigit (isDigit_toDigits hrest)

theorem formatInt_ne_nil (value : Int) : formatInt value ≠ [] := by
  cases value with
  | ofNat digits => exact Nat.toDigits_ne_nil
  | negSucc digits => exact cons_ne_nil _ _

theorem strip_formatInt (value : Int) : strip (formatInt value) = formatInt value := by
  apply strip_eq_self
  intro c hc
  have hcode := formatInt_char hc
  exact isWhitespace_eq_false (lt_of_lt_of_le (by decide) hcode.left)
    (lt_of_le_of_lt hcode.right (by decide))

theorem parseInt_formatInt (value : Int) : parseInt (formatInt value) = some value := by
  rw [parseInt, strip_formatInt]
  cases value with
  | ofNat digits =>
    have hparse := parseDigits_toDigits digits
    have hcode : forall c, c ∈ formatInt (Int.ofNat digits) -> 48 ≤ c.toNat :=
      fun c hc => (isDigit_toDigits hc).left
    split
    · next hsign =>
        exact absurd (hcode '+' (by rw [hsign]; exact mem_cons_self)) (by decide)
    · next hsign =>
        exact absurd (hcode '-' (by rw [hsign]; exact mem_cons_self)) (by decide)
    · exact congrArg (Option.map Int.ofNat) hparse
  | negSucc digits =>
    show (parseDigits (Nat.toDigits 10 (digits + 1))).map (fun value => -Int.ofNat value) = _
    rw [parseDigits_toDigits]
    rfl

theorem formatInt_injective : Function.Injective formatInt := by
  intro value other h
  have hparse := congrArg parseInt h
  rw [parseInt_formatInt, parseInt_formatInt] at hparse
  exact Option.some.inj hparse

/-!
## Numerals of a width

Decimal numbers with zeros in front up to a width, and the number that digits stand for.
-/

def Digits (text : List Char) : Prop := forall c, c ∈ text -> c.isDigit = true

/-- `int(text)` of digits -/
def digitsValue (text : List Char) : Nat := Nat.ofDigitChars 10 text 0

variable (width value : Nat)

def numeral : List Char :=
  replicate (width - (Nat.toDigits 10 value).length) '0' ++ Nat.toDigits 10 value

theorem digitsValue_numeral : digitsValue (numeral width value) = value := by
  unfold digitsValue numeral
  rw [Nat.ofDigitChars_append, Nat.ofDigitChars_replicate_zero, Nat.mul_zero,
    Nat.ofDigitChars_ten_toDigits]

theorem digits_numeral : Digits (numeral width value) := by
  intro c hc
  rcases mem_append.mp hc with hzero | hdigit
  · rw [eq_of_mem_replicate hzero]
    rfl
  · exact Nat.isDigit_of_mem_toDigits (by decide) (by decide) hdigit

theorem length_numeral :
    (numeral width value).length = max width (Nat.toDigits 10 value).length := by
  unfold numeral
  rw [length_append, length_replicate]
  omega

theorem numeral_ne_nil : numeral width value ≠ [] := fun h =>
  Nat.toDigits_ne_nil (append_eq_nil_iff.mp h).right

theorem digit_lt {c : Char} (h : c.isDigit = true) : c.toNat - 48 < 10 := by
  have hhigh : c.toNat ≤ 57 := (Char.isDigit_iff_toNat.mp h).right
  omega

theorem digit_inj {c d : Char} (hc : c.isDigit = true) (hd : d.isDigit = true)
    (h : c.toNat - 48 = d.toNat - 48) : c = d := by
  have hlow : 48 ≤ c.toNat := (Char.isDigit_iff_toNat.mp hc).left
  have hlow' : 48 ≤ d.toNat := (Char.isDigit_iff_toNat.mp hd).left
  exact Char.toNat_inj.mp (by omega)

theorem digits_inj {first second : List Char} (hfirst : Digits first) (hsecond : Digits second)
    (hlength : first.length = second.length) {start start' : Nat}
    (h : Nat.ofDigitChars 10 first start = Nat.ofDigitChars 10 second start') :
    start = start' ∧ first = second := by
  induction first generalizing second start start' with
  | nil =>
    rw [eq_nil_of_length_eq_zero hlength.symm] at h ⊢
    exact ⟨h, rfl⟩
  | cons c rest ih =>
    cases second with
    | nil => cases hlength
    | cons d rest' =>
      rw [Nat.ofDigitChars_cons, Nat.ofDigitChars_cons] at h
      have hc := hfirst c mem_cons_self
      have hd := hsecond d mem_cons_self
      rcases ih (fun e he => hfirst e (mem_cons_of_mem c he))
        (fun e he => hsecond e (mem_cons_of_mem d he)) (Nat.succ.inj hlength) h with
        ⟨hstart, hrest⟩
      have hclt := digit_lt hc
      have hdlt := digit_lt hd
      have hzero : '0'.toNat = 48 := rfl
      rw [hzero] at hstart
      have heq : c.toNat - 48 = d.toNat - 48 := by omega
      exact ⟨by omega, by rw [digit_inj hc hd heq, hrest]⟩

theorem digitsValue_lt {text : List Char} (h : Digits text) (start : Nat) :
    Nat.ofDigitChars 10 text start < 10 ^ text.length * (start + 1) := by
  induction text generalizing start with
  | nil =>
    rw [Nat.ofDigitChars_nil, length_nil]
    omega
  | cons c rest ih =>
    rw [Nat.ofDigitChars_cons]
    have hrest := ih (fun d hd => h d (mem_cons_of_mem c hd)) (10 * start + (c.toNat - 48))
    have hc := digit_lt (h c mem_cons_self)
    have hle : 10 ^ rest.length * (10 * start + (c.toNat - 48) + 1) ≤
        10 ^ rest.length * (10 * (start + 1)) := Nat.mul_le_mul_left _ (by omega)
    have hpow : 10 ^ rest.length * (10 * (start + 1)) = 10 ^ (c :: rest).length * (start + 1) := by
      rw [length_cons, Nat.pow_succ]
      ring
    exact (hrest.trans_le hle).trans_eq hpow

theorem numeral_digitsValue {text : List Char} (h : Digits text) (hne : text ≠ []) :
    numeral text.length (digitsValue text) = text := by
  have hlength : (Nat.toDigits 10 (digitsValue text)).length ≤ text.length := by
    rw [Nat.length_toDigits_le_iff (by decide) (length_pos_iff.mpr hne)]
    have hlt := digitsValue_lt h 0
    rwa [Nat.mul_one] at hlt
  refine (digits_inj (digits_numeral _ _) h ?_ (digitsValue_numeral _ _)).right
  rw [length_numeral]
  exact max_eq_left hlength

theorem numeral_succ {width value : Nat} :
    numeral (numeral width value).length (value + 1) = numeral width (value + 1) := by
  have hlonger : (Nat.toDigits 10 value).length ≤ (Nat.toDigits 10 (value + 1)).length := by
    rw [Nat.length_toDigits_le_iff (by decide) Nat.length_toDigits_pos]
    have hbound := (Nat.length_toDigits_le_iff (n := value + 1) (by decide)
      (Nat.length_toDigits_pos (b := 10) (n := value + 1))).mp le_rfl
    omega
  refine (digits_inj (digits_numeral _ _) (digits_numeral _ _) ?_
    ((digitsValue_numeral _ _).trans (digitsValue_numeral _ _).symm)).right
  rw [length_numeral, length_numeral, length_numeral]
  omega

end Icsw.Foundation
