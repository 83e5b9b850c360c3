import Icsw.Foundation.Grid
import Mathlib.Tactic.IntervalCases

/-!
# The Gregorian calendar

Days are numbered from 1 January 1970, and instants are counted in microseconds..  Month `12 * year +
m` is the one after `m` months of the year..  Months and years are grids of days.
-/

namespace Icsw.Foundation
namespace Calendar

def isLeapYear (year : Int) : Bool :=
  year % 4 = 0 ∧ (year % 100 ≠ 0 ∨ year % 400 = 0)

def leapDays (year : Int) : Int := if isLeapYear year then 1 else 0

/-- Number of 1 January of a year. -/
def yearStart (year : Int) : Int :=
  (year - 1) * 365 + (year - 1) / 4 - (year - 1) / 100 + (year - 1) / 400 - 719162

theorem yearStart_succ (year : Int) :
    yearStart (year + 1) = yearStart year + 365 + leapDays year := by
  simp only [yearStart, leapDays, isLeapYear, decide_eq_true_eq]
  split_ifs with hleap <;> omega

theorem leapDays_bounds (year : Int) : 0 ≤ leapDays year ∧ leapDays year ≤ 1 := by
  unfold leapDays
  split_ifs <;> omega

def yearOf (day : Int) : Int :=
  let n := day + 719162
  let n400 := n / 146097
  let n100 := n % 146097 / 36524
  let n4 := n % 146097 % 36524 / 1461
  let n1 := n % 146097 % 36524 % 1461 / 365
  let year := n400 * 400 + n100 * 100 + n4 * 4 + n1 + 1
  if n1 = 4 ∨ n100 = 4 then year - 1 else year

theorem yearStart_cycles {a b c d : Int} (hb : 0 ≤ b ∧ b ≤ 3) (hc : 0 ≤ c ∧ c ≤ 24)
    (hd : 0 ≤ d ∧ d ≤ 3) :
    yearStart (a * 400 + b * 100 + c * 4 + d + 1) =
      a * 146097 + b * 36524 + c * 1461 + d * 365 - 719162 := by
  have hfour : (a * 400 + b * 100 + c * 4 + d) / 4 = a * 100 + b * 25 + c := by omega
  have hcent : (a * 400 + b * 100 + c * 4 + d) / 100 = a * 4 + b := by omega
  have hcycle : (a * 400 + b * 100 + c * 4 + d) / 400 = a := by omega
  simp only [yearStart, Int.add_sub_cancel, hfour, hcent, hcycle]
  omega

theorem leapDays_fourth {a b c : Int} (hc : 0 ≤ c ∧ c ≤ 24)
    (hlast : c = 24 -> b = 3) : leapDays (a * 400 + b * 100 + c * 4 + 3 + 1) = 1 := by
  unfold leapDays
  rw [if_pos]
  simp only [isLeapYear, decide_eq_true_eq]
  omega

theorem yearOf_bounds (day : Int) :
    yearStart (yearOf day) ≤ day ∧ day < yearStart (yearOf day + 1) := by
  rw [yearStart_succ]
  have hleap := leapDays_bounds (yearOf day)
  revert hleap
  simp only [yearOf]
  generalize ha : (day + 719162) / 146097 = a
  generalize hb : (day + 719162) % 146097 / 36524 = b
  generalize hc : (day + 719162) % 146097 % 36524 / 1461 = c
  generalize hd : (day + 719162) % 146097 % 36524 % 1461 / 365 = d
  split_ifs with hlast
  · rcases hlast with hd4 | hb4
    · have hyear : a * 400 + b * 100 + c * 4 + d + 1 - 1 =
          a * 400 + b * 100 + c * 4 + 3 + 1 := by omega
      have hstart := @yearStart_cycles a b c 3 (by omega) (by omega) (by omega)
      have hleap := @leapDays_fourth a b c (by omega) (by omega)
      rw [hyear, hstart, hleap]
      omega
    · have hyear : a * 400 + b * 100 + c * 4 + d + 1 - 1 =
          a * 400 + 3 * 100 + 24 * 4 + 3 + 1 := by omega
      have hstart := @yearStart_cycles a 3 24 3 (by omega) (by omega) (by omega)
      have hleap := @leapDays_fourth a 3 24 (by omega) (by omega)
      rw [hyear, hstart, hleap]
      omega
  · have hstart := @yearStart_cycles a b c d (by omega) (by omega) (by omega)
    rw [hstart]
    omega

/-- Days of a year before the month that follows `months` months. -/
def daysBeforeMonth (year months : Int) : Int :=
  if months ≤ 0 then 0
  else if months = 1 then 31
  else leapDays year +
    (if months = 2 then 59
    else if months = 3 then 90
    else if months = 4 then 120
    else if months = 5 then 151
    else if months = 6 then 181
    else if months = 7 then 212
    else if months = 8 then 243
    else if months = 9 then 273
    else if months = 10 then 304
    else if months = 11 then 334
    else 365)

/--
The months of a year that are over before one of its days: an estimate that is
right or one too large.
-/
def monthsBefore (year dayOfYear : Int) : Int :=
  let months := (dayOfYear + 50) / 32 - 1
  if dayOfYear < daysBeforeMonth year months then months - 1 else months

def monthStart (month : Int) : Int :=
  yearStart (month / 12) + daysBeforeMonth (month / 12) (month % 12)

def monthOf (day : Int) : Int :=
  yearOf day * 12 + monthsBefore (yearOf day) (day - yearStart (yearOf day))

theorem daysBeforeMonth_succ {year months : Int} (hmonths : 0 ≤ months ∧ months < 12) :
    28 ≤ daysBeforeMonth year (months + 1) - daysBeforeMonth year months ∧
      daysBeforeMonth year (months + 1) - daysBeforeMonth year months ≤ 31 := by
  have hleap := leapDays_bounds year
  rcases hmonths with ⟨hlower, hupper⟩
  unfold daysBeforeMonth
  interval_cases months <;> simp
  omega

theorem monthStart_eq {year months : Int} (hmonths : 0 ≤ months ∧ months ≤ 12) :
    monthStart (year * 12 + months) = yearStart year + daysBeforeMonth year months := by
  unfold monthStart
  by_cases hlast : months = 12
  · have hdiv : (year * 12 + months) / 12 = year + 1 := by omega
    have hmod : (year * 12 + months) % 12 = 0 := by omega
    rw [hdiv, hmod, yearStart_succ, hlast]
    simp [daysBeforeMonth]
    omega
  · have hdiv : (year * 12 + months) / 12 = year := by omega
    have hmod : (year * 12 + months) % 12 = months := by omega
    rw [hdiv, hmod]

theorem monthStart_succ (month : Int) :
    28 ≤ monthStart (month + 1) - monthStart month ∧
      monthStart (month + 1) - monthStart month ≤ 31 := by
  have hmonth : month = month / 12 * 12 + month % 12 := by omega
  have hnext : month + 1 = month / 12 * 12 + (month % 12 + 1) := by omega
  have hlength := @daysBeforeMonth_succ (month / 12) (month % 12) (by omega)
  have hfirst := @monthStart_eq (month / 12) (month % 12) (by omega)
  have hsecond := @monthStart_eq (month / 12) (month % 12 + 1) (by omega)
  rw [← hmonth] at hfirst
  rw [← hnext] at hsecond
  omega

theorem daysBeforeMonth_estimate {year dayOfYear months : Int} (hmonths : 0 ≤ months ∧ months < 12)
    (hestimate : 32 * (months + 1) ≤ dayOfYear + 50 ∧ dayOfYear + 50 < 32 * (months + 2))
    (hupper : dayOfYear < 365 + leapDays year) :
    daysBeforeMonth year (months - 1) ≤ max dayOfYear 0 ∧
      dayOfYear < daysBeforeMonth year (months + 1) := by
  have hleap := leapDays_bounds year
  rcases hmonths with ⟨hlower, hlast⟩
  unfold daysBeforeMonth
  interval_cases months <;> simp <;> omega

theorem monthsBefore_bounds {year dayOfYear : Int} (hlower : 0 ≤ dayOfYear)
    (hupper : dayOfYear < 365 + leapDays year) :
    (0 ≤ monthsBefore year dayOfYear ∧ monthsBefore year dayOfYear < 12) ∧
      daysBeforeMonth year (monthsBefore year dayOfYear) ≤ dayOfYear ∧
      dayOfYear < daysBeforeMonth year (monthsBefore year dayOfYear + 1) := by
  have hleap := leapDays_bounds year
  have hestimate := @daysBeforeMonth_estimate year dayOfYear ((dayOfYear + 50) / 32 - 1)
    (by omega) (by omega) hupper
  simp only [monthsBefore]
  split_ifs with hover
  · have hpos : (dayOfYear + 50) / 32 - 1 ≠ 0 := by
      intro hzero
      rw [hzero] at hover
      simp [daysBeforeMonth] at hover
      omega
    rw [Int.sub_add_cancel]
    omega
  · omega

theorem monthOf_bounds (day : Int) :
    monthStart (monthOf day) ≤ day ∧ day < monthStart (monthOf day + 1) := by
  have hyear := yearOf_bounds day
  rw [yearStart_succ] at hyear
  have hmonths := @monthsBefore_bounds (yearOf day) (day - yearStart (yearOf day))
    (by omega) (by omega)
  have hfirst := @monthStart_eq (yearOf day)
    (monthsBefore (yearOf day) (day - yearStart (yearOf day))) (by omega)
  have hsecond := @monthStart_eq (yearOf day)
    (monthsBefore (yearOf day) (day - yearStart (yearOf day)) + 1) (by omega)
  rw [monthOf, Int.add_assoc, hsecond]
  rw [hfirst]
  omega

def months : Grid where
  start := monthStart
  index := monthOf
  start_strictMono := by
    apply strictMono_int_of_lt_succ
    intro month
    have hlength := monthStart_succ month
    omega
  start_index_le day := (monthOf_bounds day).left
  lt_start_index_succ day := (monthOf_bounds day).right

def years : Grid := months.every 12 (by decide)

theorem monthOf_div (day : Int) : monthOf day / 12 = yearOf day := by
  have hyear := yearOf_bounds day
  rw [yearStart_succ] at hyear
  have hmonths := @monthsBefore_bounds (yearOf day) (day - yearStart (yearOf day))
    (by omega) (by omega)
  unfold monthOf
  omega

theorem years_index (day : Int) : years.index day = yearOf day := monthOf_div day

theorem years_start (year : Int) : years.start year = yearStart year := by
  have hstart := @monthStart_eq year 0 (by omega)
  show monthStart (year * 12) = yearStart year
  simpa [daysBeforeMonth] using hstart

def hourLength : Int := 3600000000

def dayLength : Int := 86400000000

structure Datetime where
  year : Int
  month : Int
  day : Int
  hour : Int
  minute : Int
  second : Int
  microsecond : Int

/-- The fields of an instant. -/
def datetime (t : Int) : Datetime :=
  let day := t / dayLength
  let clock := t % dayLength
  let year := yearOf day
  let months := monthsBefore year (day - yearStart year)
  { year := year
    month := months + 1
    day := day - yearStart year - daysBeforeMonth year months + 1
    hour := clock / 3600000000
    minute := clock % 3600000000 / 60000000
    second := clock % 60000000 / 1000000
    microsecond := clock % 1000000 }

def Datetime.instant (fields : Datetime) : Int :=
  (yearStart fields.year + daysBeforeMonth fields.year (fields.month - 1) + (fields.day - 1)) *
    dayLength + fields.hour * 3600000000 + fields.minute * 60000000 +
    fields.second * 1000000 + fields.microsecond

def weekday (t : Int) : Int := (t / dayLength + 3) % 7

theorem datetime_instant (t : Int) : (datetime t).instant = t := by
  simp only [datetime, Datetime.instant, dayLength, Int.add_sub_cancel]
  omega

end Calendar
end Icsw.Foundation
