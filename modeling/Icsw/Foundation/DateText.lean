import Icsw.Foundation.Python
import Mathlib.Tactic.Linarith

/-!
# Dates as text

Dates and times in the format of ISO 8601, and how they are read by a format with
fields of digits.
-/

namespace Icsw.Foundation

def daysInMonth (year month : Nat) : Nat :=
  if month = 2 then
    if year % 4 = 0 ∧ (year % 100 ≠ 0 ∨ year % 400 = 0) then 29 else 28
  else if month = 4 ∨ month = 6 ∨ month = 9 ∨ month = 11 then 30
  else 31

def validDate (year month day : Nat) : Bool :=
  decide (1 ≤ year ∧ year ≤ 9999 ∧ 1 ≤ month ∧ month ≤ 12 ∧ 1 ≤ day ∧
    day ≤ daysInMonth year month)

structure Date where
  year : Nat
  month : Nat
  day : Nat
  valid : validDate year month day = true
deriving DecidableEq

def Date.ofFields (year month day : Nat) : Option Date :=
  if h : validDate year month day = true then some ⟨year, month, day, h⟩ else none

def validTime (hour minute second microsecond : Nat) : Bool :=
  decide (hour < 24 ∧ minute < 60 ∧ second < 60 ∧ microsecond < 1000000)

structure DateTime where
  date : Date
  hour : Nat
  minute : Nat
  second : Nat
  microsecond : Nat
  /-- The offset of the time zone, in minutes. -/
  utcoffset : Option Int
  valid : validTime hour minute second microsecond = true
deriving DecidableEq

variable (date : Date)

def DateTime.ofFields (hour minute second : Nat) : Option DateTime :=
  if h : validTime hour minute second 0 = true then
    some ⟨date, hour, minute, second, 0, none, h⟩
  else none

def digitText (digit : Nat) : Char := Char.ofNat (48 + digit % 10)

def twoDigits (value : Nat) : Text := [digitText (value / 10), digitText value]

def fourDigits (value : Nat) : Text := twoDigits (value / 100) ++ twoDigits (value % 100)

def sixDigits (value : Nat) : Text := fourDigits (value / 100) ++ twoDigits (value % 100)

def Date.isoformat : Text :=
  fourDigits date.year ++ '-' :: twoDigits date.month ++ '-' :: twoDigits date.day

def offsetText (offset : Int) : Text :=
  (if offset < 0 then '-' else '+') ::
    twoDigits (offset.natAbs / 60) ++ ':' :: twoDigits (offset.natAbs % 60)

variable (time : DateTime)

def DateTime.afterSeconds : Text :=
  (if time.microsecond = 0 then [] else '.' :: sixDigits time.microsecond) ++
    match time.utcoffset with
    | some offset => offsetText offset
    | none => []

def DateTime.isoformat : Text :=
  time.date.isoformat ++ 'T' :: twoDigits time.hour ++ ':' :: twoDigits time.minute ++
    ':' :: twoDigits time.second ++ time.afterSeconds

def digitOf (c : Char) : Option Nat :=
  if 48 ≤ c.toNat ∧ c.toNat ≤ 57 then some (c.toNat - 48) else none

/-- `%Y` -/
def yearField : Text -> Option (Nat × Text)
  | a :: b :: c :: d :: rest => do
      let first ← digitOf a
      let second ← digitOf b
      let third ← digitOf c
      let fourth ← digitOf d
      some (first * 1000 + second * 100 + third * 10 + fourth, rest)
  | _ => none

/-- One digit that is not below the least value. -/
def oneDigitField (least : Nat) : Text -> Option (Nat × Text)
  | c :: rest =>
    match digitOf c with
    | some value => if least ≤ value then some (value, rest) else none
    | none => none
  | [] => none

def field (least most : Nat) : Text -> Option (Nat × Text)
  | c :: d :: rest =>
    match digitOf c, digitOf d with
    | some tens, some ones =>
      if least ≤ tens * 10 + ones ∧ tens * 10 + ones ≤ most then
        some (tens * 10 + ones, rest)
      else oneDigitField least (c :: d :: rest)
    | _, _ => oneDigitField least (c :: d :: rest)
  | text => oneDigitField least text

/-- `%d`: a day of one digit may have a blank before it. -/
def dayField (text : Text) : Option (Nat × Text) :=
  match field 1 31 text with
  | some found => some found
  | none =>
    match text with
    | ' ' :: rest => oneDigitField 1 rest
    | _ => none

def literal (c : Char) : Text -> Option Text
  | d :: rest => if d = c then some rest else none
  | [] => none

def dateFields (text : Text) : Option (Date × Text) := do
  let (year, rest) ← yearField text
  let rest ← literal '-' rest
  let (month, rest) ← field 1 12 rest
  let rest ← literal '-' rest
  let (day, rest) ← dayField rest
  let date ← Date.ofFields year month day
  some (date, rest)

/-- `strptime(text, "%Y-%m-%d")` -/
def strptimeDate (text : Text) : Option Date :=
  match dateFields text with
  | some (date, []) => some date
  | _ => none

def timeFields (text : Text) : Option (DateTime × Text) := do
  let (hour, rest) ← field 0 23 text
  let rest ← literal ':' rest
  let (minute, rest) ← field 0 59 rest
  let rest ← literal ':' rest
  let (second, rest) ← field 0 61 rest
  let time ← DateTime.ofFields date hour minute second
  some (time, rest)

/-- `strptime(text, "%Y-%m-%dT%H:%M:%S")` -/
def strptimeDateTime (text : Text) : Option DateTime := do
  let (date, rest) ← dateFields text
  let rest ← literal 'T' rest
  match ← timeFields date rest with
  | (time, []) => some time
  | _ => none

theorem digitOf_digitText (value : Nat) : digitOf (digitText value) = some (value % 10) := by
  have hall : forall digit, digit < 10 ->
      digitOf (Char.ofNat (48 + digit)) = some digit := by
    decide
  exact hall (value % 10) (Nat.mod_lt _ (by decide))

theorem field_twoDigits {least most value : Nat} (hvalue : value < 100) (hleast : least ≤ value)
    (hmost : value ≤ most) (rest : Text) :
    field least most (twoDigits value ++ rest) = some (value, rest) := by
  have hsum : value / 10 % 10 * 10 + value % 10 = value := by omega
  show field least most (digitText (value / 10) :: digitText value :: rest) = _
  unfold field
  simp only [digitOf_digitText, hsum]
  rw [if_pos ⟨hleast, hmost⟩]

theorem yearField_fourDigits {value : Nat} (hvalue : value < 10000) (rest : Text) :
    yearField (fourDigits value ++ rest) = some (value, rest) := by
  have hsum : value / 100 / 10 % 10 * 1000 + value / 100 % 10 * 100 +
      value % 100 / 10 % 10 * 10 + value % 100 % 10 = value := by omega
  show yearField (digitText (value / 100 / 10) :: digitText (value / 100) ::
    digitText (value % 100 / 10) :: digitText (value % 100) :: rest) = _
  simp only [yearField, digitOf_digitText, Option.bind_eq_bind, Option.bind_some, hsum]

theorem daysInMonth_le (year month : Nat) : daysInMonth year month ≤ 31 := by
  unfold daysInMonth
  split
  · split
    · decide
    · decide
  · split
    · decide
    · decide

theorem Date.bounds :
    1 ≤ date.year ∧ date.year ≤ 9999 ∧ 1 ≤ date.month ∧ date.month ≤ 12 ∧ 1 ≤ date.day ∧
      date.day ≤ 31 := by
  have h := of_decide_eq_true date.valid
  exact ⟨h.1, h.2.1, h.2.2.1, h.2.2.2.1, h.2.2.2.2.1,
    le_trans h.2.2.2.2.2 (daysInMonth_le date.year date.month)⟩

theorem Date.ofFields_fields : Date.ofFields date.year date.month date.day = some date :=
  dif_pos date.valid

theorem dateFields_isoformat (rest : Text) :
    dateFields (date.isoformat ++ rest) = some (date, rest) := by
  have hbounds := date.bounds
  have hday : dayField (twoDigits date.day ++ rest) = some (date.day, rest) := by
    have hfield := field_twoDigits (show date.day < 100 by omega) hbounds.2.2.2.2.1
      hbounds.2.2.2.2.2 rest
    unfold dayField
    rw [hfield]
  have htext : date.isoformat ++ rest = fourDigits date.year ++
      ('-' :: (twoDigits date.month ++ ('-' :: (twoDigits date.day ++ rest)))) := by
    simp [Date.isoformat]
  rw [htext]
  unfold dateFields
  simp only [yearField_fourDigits (show date.year < 10000 by omega), Option.bind_eq_bind,
    Option.bind_some, literal, if_true,
    field_twoDigits (show date.month < 100 by omega) hbounds.2.2.1 hbounds.2.2.2.1, hday,
    Date.ofFields_fields]

theorem strptimeDate_isoformat : strptimeDate date.isoformat = some date := by
  have h := dateFields_isoformat date []
  rw [List.append_nil] at h
  rw [strptimeDate, h]

/-- The time, with neither a fraction nor an offset. -/
def DateTime.plain : Bool :=
  decide (time.microsecond = 0 ∧ time.utcoffset = none)

theorem DateTime.afterSeconds_eq_nil {time : DateTime} :
    time.afterSeconds = [] <-> time.plain = true := by
  unfold afterSeconds plain
  by_cases hfraction : time.microsecond = 0
  · cases hoffset : time.utcoffset with
    | none => simp [hfraction]
    | some offset => simp [hfraction, offsetText]
  · simp [hfraction]

theorem DateTime.bounds : time.hour < 24 ∧ time.minute < 60 ∧ time.second < 60 :=
  have h := of_decide_eq_true time.valid
  ⟨h.1, h.2.1, h.2.2.1⟩

theorem timeFields_append (rest : Text) :
    exists read, timeFields time.date
        (twoDigits time.hour ++ (':' :: (twoDigits time.minute ++ (':' ::
          (twoDigits time.second ++ rest))))) = some (read, rest) ∧
      (time.plain = true -> read = time) := by
  have hbounds := time.bounds
  have hvalid : validTime time.hour time.minute time.second 0 = true :=
    decide_eq_true ⟨hbounds.1, hbounds.2.1, hbounds.2.2, by decide⟩
  refine ⟨⟨time.date, time.hour, time.minute, time.second, 0, none, hvalid⟩, ?_, ?_⟩
  · unfold timeFields
    simp only [field_twoDigits (show time.hour < 100 by omega) (Nat.zero_le _)
        (show time.hour ≤ 23 by omega), Option.bind_eq_bind, Option.bind_some, literal, if_true,
      field_twoDigits (show time.minute < 100 by omega) (Nat.zero_le _)
        (show time.minute ≤ 59 by omega),
      field_twoDigits (show time.second < 100 by omega) (Nat.zero_le _)
        (show time.second ≤ 61 by omega), DateTime.ofFields, hvalid, dite_true]
  · intro hplain
    have hboth := of_decide_eq_true hplain
    rcases time with ⟨date, hour, minute, second, microsecond, utcoffset, valid⟩
    rcases hboth with ⟨hfraction, hoffset⟩
    cases hfraction
    cases hoffset
    rfl

theorem strptimeDateTime_isoformat :
    strptimeDateTime time.isoformat = if time.plain then some time else none := by
  have htext : time.isoformat = time.date.isoformat ++ ('T' :: (twoDigits time.hour ++
      (':' :: (twoDigits time.minute ++ (':' :: (twoDigits time.second ++
        time.afterSeconds)))))) := by
    simp [DateTime.isoformat]
  rcases timeFields_append time time.afterSeconds with ⟨read, hread, hsame⟩
  rw [htext]
  unfold strptimeDateTime
  simp only [dateFields_isoformat, Option.bind_eq_bind, Option.bind_some, literal, if_true, hread]
  by_cases hplain : time.plain = true
  · rw [DateTime.afterSeconds_eq_nil.mpr hplain, if_pos hplain, hsame hplain]
  · rw [if_neg hplain]
    cases hafter : time.afterSeconds with
    | nil => exact absurd (DateTime.afterSeconds_eq_nil.mp hafter) hplain
    | cons c rest => rfl

end Icsw.Foundation
