import Icsw.Foundation.Calendar
import Icsw.Foundation.Decimal

/-!
# Schedules of the dispatcher

A dispatcher setting is run in a period and at fields of the clock and the calendar.  The
first run is found by searches that step on from now, one field after the other.
-/

namespace Icsw.Discovery

open Foundation Foundation.Calendar

inductive Baseline where
  | second
  | minute
  | hour
  | day
  | week
  | month
  | year
deriving DecidableEq

def Baseline.rank : Baseline -> Nat
  | .second => 0
  | .minute => 1
  | .hour => 2
  | .day => 3
  | .week => 4
  | .month => 5
  | .year => 6

structure DispatcherSetting where
  isSystem : Bool
  user : Option Nat
  baseline : Baseline
  mult : Int
  schedStartSecond : Option Int
  schedStartMinute : Option Int
  schedStartHour : Option Int
  /-- 0 is sunday, 1 is monday, 6 is saturday -/
  schedStartDay : Option Int
  /-- 1 is the first week of the year -/
  schedStartWeek : Option Int
  /-- 1 is january -/
  schedStartMonth : Option Int

def checkInteger (name : Text) (value least most : Int) : Except PyError Int :=
  if value < least ∨ most < value then
    .error (.validationError (name ++ " (".toList ++ formatInt value ++ ") not in [".toList ++
      formatInt least ++ ", ".toList ++ formatInt most ++ "]".toList))
  else .ok value

/-- A field is checked if it is finer than the schedule; without a value it gets the least. -/
def checkField (setting : DispatcherSetting) (field : Baseline) (name : Text)
    (value : Option Int) (least most : Int) : Except PyError (Option Int) :=
  if field.rank < setting.baseline.rank then do
    let value ← checkInteger ("sched_start_".toList ++ name) (value.getD least) least most
    .ok (some value)
  else .ok value

def preSave (setting : DispatcherSetting) : Except PyError DispatcherSetting := do
  let mult ← checkInteger "mult".toList setting.mult 1 365
  if setting.isSystem = false ∧ setting.user = none then
    .error (.validationError "Need user for non-system schedule".toList)
  else
    let month ← checkField setting .month "month".toList setting.schedStartMonth 1 12
    let week ← checkField setting .week "week".toList setting.schedStartWeek 1 53
    let day ← checkField setting .day "day".toList setting.schedStartDay 0 6
    let hour ← checkField setting .hour "hour".toList setting.schedStartHour 0 23
    let minute ← checkField setting .minute "minute".toList setting.schedStartMinute 0 59
    let second ← checkField setting .second "second".toList setting.schedStartSecond 0 59
    .ok
      { setting with
        mult := mult
        schedStartMonth := month
        schedStartWeek := week
        schedStartDay := day
        schedStartHour := hour
        schedStartMinute := minute
        schedStartSecond := second }

/-- The first instant that no `datetime` has. -/
def endOfTime : Int := yearStart 10000 * dayLength

/-- `now.isocalendar()[1]`: the week is counted in the year of its thursday. -/
def isoWeek (now : Int) : Int :=
  let thursday := now / dayLength - weekday now + 3
  (thursday - yearStart (yearOf thursday)) / 7 + 1

/-- Steps on until an instant is found; the steps are positive. -/
def search (step : Int) (found : Int -> Bool) (now : Int) : Except PyError Int :=
  if _h : 0 < step ∧ now + step < endOfTime then
    if found (now + step) then .ok (now + step) else search step found (now + step)
  else .error .overflowError
termination_by (endOfTime - now).toNat
decreasing_by omega

def secondLength : Int := 1000000

def minuteLength : Int := 60000000

def alignSecond (schedStartSecond : Option Int) : Int -> Except PyError Int :=
  search secondLength fun now => some (datetime now).second == schedStartSecond

def alignMinute (schedStartMinute : Option Int) : Int -> Except PyError Int :=
  search minuteLength fun now => some (datetime now).minute == schedStartMinute

def alignHour (schedStartHour : Option Int) : Int -> Except PyError Int :=
  search hourLength fun now => some (datetime now).hour == schedStartHour

/-- This search looks at now, too; monday is 0. -/
def alignDay (schedStartDay : Option Int) (now : Int) : Except PyError Int :=
  if some (weekday now) = schedStartDay then .ok now
  else search dayLength (fun now => some (weekday now) == schedStartDay) now

def alignWeek (schedStartWeek : Option Int) : Int -> Except PyError Int :=
  search dayLength fun now => some (isoWeek now % 4) == schedStartWeek

def alignMonth (schedStartMonth : Option Int) : Int -> Except PyError Int :=
  search dayLength fun now => some (datetime now).month == schedStartMonth

def alignClock (setting : DispatcherSetting) (now : Int) : Except PyError Int := do
  let now ← alignSecond setting.schedStartSecond now
  let now ← alignMinute setting.schedStartMinute now
  alignHour setting.schedStartHour now

def alignTimeToBaseline (now : Int) (setting : DispatcherSetting) : Except PyError Int :=
  match setting.baseline with
  | .second => .ok now
  | .minute => alignSecond setting.schedStartSecond now
  | .hour => do
      let now ← alignSecond setting.schedStartSecond now
      alignMinute setting.schedStartMinute now
  | .day => alignClock setting now
  | .week => do
      let now ← alignClock setting now
      alignDay setting.schedStartDay now
  | .month => do
      let now ← alignClock setting now
      let now ← alignDay setting.schedStartDay now
      alignWeek setting.schedStartWeek now
  | .year => do
      let now ← alignClock setting now
      let now ← alignDay setting.schedStartDay now
      let now ← alignWeek setting.schedStartWeek now
      alignMonth setting.schedStartMonth now

def Baseline.period : Baseline -> Int
  | .second => secondLength
  | .minute => minuteLength
  | .hour => hourLength
  | .day => dayLength
  | .week => 7 * dayLength
  | .month => 4 * 7 * dayLength
  | .year => 52 * 7 * dayLength

def getTimeInc (setting : DispatcherSetting) : Int := setting.baseline.period * setting.mult

variable {step now result : Int} {found : Int -> Bool}

theorem search_ok (h : search step found now = .ok result) :
    now < result ∧ found result = true := by
  induction now using search.induct step found with
  | case1 now hroom hfound =>
    rw [search, dif_pos hroom, if_pos hfound] at h
    cases h
    exact ⟨by omega, hfound⟩
  | case2 now hroom hfound ih =>
    rw [search, dif_pos hroom, if_neg hfound] at h
    have hnext := ih h
    exact ⟨by omega, hnext.right⟩
  | case3 now hroom =>
    rw [search, dif_neg hroom] at h
    cases h

variable {setting saved : DispatcherSetting}

/-- What is known of the clock fields of a setting that was saved. -/
structure Accepted (setting : DispatcherSetting) : Prop where
  second : 0 < setting.baseline.rank ->
    exists second, setting.schedStartSecond = some second ∧ 0 ≤ second ∧ second ≤ 59
  minute : 1 < setting.baseline.rank ->
    exists minute, setting.schedStartMinute = some minute ∧ 0 ≤ minute ∧ minute ≤ 59
  hour : 2 < setting.baseline.rank ->
    exists hour, setting.schedStartHour = some hour ∧ 0 ≤ hour ∧ hour ≤ 23

/-- The fields that the baseline uses, as the model documents them. -/
structure Meets (setting : DispatcherSetting) (now : Int) : Prop where
  second : 0 < setting.baseline.rank -> setting.schedStartSecond = some (datetime now).second
  minute : 1 < setting.baseline.rank -> setting.schedStartMinute = some (datetime now).minute
  hour : 2 < setting.baseline.rank -> setting.schedStartHour = some (datetime now).hour
  day : 3 < setting.baseline.rank -> setting.schedStartDay = some ((weekday now + 1) % 7)
  week : 4 < setting.baseline.rank -> setting.schedStartWeek = some (isoWeek now)
  month : 5 < setting.baseline.rank -> setting.schedStartMonth = some (datetime now).month

section

variable (h : Accepted setting)
include h

end

end Icsw.Discovery
