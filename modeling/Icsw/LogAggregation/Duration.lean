import Icsw.Foundation.Calendar

/-!
# Durations

The lengths of time for which aggregated data is stored.  Each cuts the calendar
into frames: the start of the frame of a time is found by clearing fields of the
date, the end of a month, year or decade by jumping past it and clearing again.
-/

namespace Icsw.LogAggregation

open Foundation
open Foundation.Calendar

inductive Duration where
  | hour
  | day
  | week
  | month
  | year
  | decade
deriving DecidableEq

namespace Duration

namespace Hour

def getTimeFrameStart (timepoint : Int) : Int :=
  { datetime timepoint with minute := 0, second := 0, microsecond := 0 : Datetime }.instant

def getEndTimeForStart (starttime : Int) : Int := starttime + 60 * 60 * 1000000

end Hour

namespace Day

def getTimeFrameStart (timepoint : Int) : Int :=
  { datetime timepoint with
    hour := 0, minute := 0, second := 0, microsecond := 0 : Datetime }.instant

def getEndTimeForStart (starttime : Int) : Int := starttime + 1 * dayLength

end Day

namespace Week

def getTimeFrameStart (timepoint : Int) : Int :=
  let dateDay := Day.getTimeFrameStart timepoint
  dateDay - weekday dateDay * dayLength

def getEndTimeForStart (starttime : Int) : Int := starttime + 7 * dayLength

end Week

namespace Month

def getTimeFrameStart (timepoint : Int) : Int :=
  { datetime timepoint with
    day := 1, hour := 0, minute := 0, second := 0, microsecond := 0 : Datetime }.instant

/-- The beginning of the next month. -/
def getEndTimeForStart (starttime : Int) : Int :=
  getTimeFrameStart (starttime + 35 * dayLength)

end Month

namespace Year

def getTimeFrameStart (timepoint : Int) : Int :=
  { datetime timepoint with
    month := 1, day := 1, hour := 0, minute := 0, second := 0, microsecond := 0
    : Datetime }.instant

def getEndTimeForStart (starttime : Int) : Int :=
  getTimeFrameStart (starttime + 370 * dayLength)

end Year

namespace Decade

def getTimeFrameStart (timepoint : Int) : Int :=
  { datetime timepoint with
    month := 1, day := 1, hour := 0, minute := 0, second := 0, microsecond := 0
    year := 10 * ((datetime timepoint).year / 10) : Datetime }.instant

def getEndTimeForStart (starttime : Int) : Int :=
  getTimeFrameStart (starttime + 3660 * dayLength)

end Decade

def getTimeFrameStart : Duration -> Int -> Int
  | hour => Hour.getTimeFrameStart
  | day => Day.getTimeFrameStart
  | week => Week.getTimeFrameStart
  | month => Month.getTimeFrameStart
  | year => Year.getTimeFrameStart
  | decade => Decade.getTimeFrameStart

def getEndTimeForStart : Duration -> Int -> Int
  | hour => Hour.getEndTimeForStart
  | day => Day.getEndTimeForStart
  | week => Week.getEndTimeForStart
  | month => Month.getEndTimeForStart
  | year => Year.getEndTimeForStart
  | decade => Decade.getEndTimeForStart

def getShorterDuration : Duration -> Option Duration
  | hour => none
  | day => some hour
  | week => some day
  | month => some week
  | year => some month
  | decade => some year

/-- The frames of a duration.  Weeks start on Mondays. -/
def grid : Duration -> Grid
  | hour => Grid.uniform 0 hourLength (by decide)
  | day => Grid.uniform 0 dayLength (by decide)
  | week => Grid.uniform (-3 * dayLength) (7 * dayLength) (by decide)
  | month => months.scaled dayLength (by decide)
  | year => years.scaled dayLength (by decide)
  | decade => (years.every 10 (by decide)).scaled dayLength (by decide)

section

variable (t : Int)
include t

theorem hour_getTimeFrameStart :
    Hour.getTimeFrameStart t = (grid hour).start ((grid hour).index t) := by
  have hfields := datetime_instant t
  show _ = 0 + (t - 0) / hourLength * hourLength
  simp only [Hour.getTimeFrameStart, datetime, Datetime.instant, dayLength, hourLength] at *
  omega

theorem day_getTimeFrameStart :
    Day.getTimeFrameStart t = (grid day).start ((grid day).index t) := by
  have hfields := datetime_instant t
  show _ = 0 + (t - 0) / dayLength * dayLength
  simp only [Day.getTimeFrameStart, datetime, Datetime.instant, dayLength] at *
  omega

theorem week_getTimeFrameStart :
    Week.getTimeFrameStart t = (grid week).start ((grid week).index t) := by
  have hday : Day.getTimeFrameStart t = 0 + (t - 0) / dayLength * dayLength :=
    day_getTimeFrameStart t
  show _ = -3 * dayLength + (t - -3 * dayLength) / (7 * dayLength) * (7 * dayLength)
  simp only [Week.getTimeFrameStart, weekday, hday, dayLength]
  omega

theorem month_getTimeFrameStart :
    Month.getTimeFrameStart t = (grid month).start ((grid month).index t) := by
  have hyear := yearOf_bounds (t / dayLength)
  rw [yearStart_succ] at hyear
  have hmonths := @monthsBefore_bounds (yearOf (t / dayLength))
    (t / dayLength - yearStart (yearOf (t / dayLength))) (by omega) (by omega)
  show _ = monthStart (monthOf (t / dayLength)) * dayLength
  rw [monthOf, monthStart_eq (by omega)]
  simp [Month.getTimeFrameStart, datetime, Datetime.instant]

theorem year_getTimeFrameStart :
    Year.getTimeFrameStart t = (grid year).start ((grid year).index t) := by
  show _ = years.start (years.index (t / dayLength)) * dayLength
  rw [years_index, years_start]
  simp [Year.getTimeFrameStart, datetime, Datetime.instant, daysBeforeMonth]

theorem decade_getTimeFrameStart :
    Decade.getTimeFrameStart t = (grid decade).start ((grid decade).index t) := by
  show _ = years.start (years.index (t / dayLength) / 10 * 10) * dayLength
  rw [years_index, years_start, Int.mul_comm _ 10]
  simp [Decade.getTimeFrameStart, datetime, Datetime.instant, daysBeforeMonth]

end

variable (duration : Duration)

theorem getTimeFrameStart_eq (t : Int) :
    duration.getTimeFrameStart t = duration.grid.start (duration.grid.index t) := by
  cases duration with
  | hour => exact hour_getTimeFrameStart t
  | day => exact day_getTimeFrameStart t
  | week => exact week_getTimeFrameStart t
  | month => exact month_getTimeFrameStart t
  | year => exact year_getTimeFrameStart t
  | decade => exact decade_getTimeFrameStart t

theorem getTimeFrameStart_jump {duration : Duration} {i t : Int}
    (hlower : duration.grid.start (i + 1) ≤ t) (hupper : t < duration.grid.start (i + 1 + 1)) :
    duration.getTimeFrameStart t = duration.grid.start (i + 1) := by
  rw [getTimeFrameStart_eq, duration.grid.index_eq hlower hupper]

theorem month_getEndTimeForStart (i : Int) :
    Month.getEndTimeForStart ((grid month).start i) = (grid month).start (i + 1) := by
  have hlength := monthStart_succ i
  have hnext := monthStart_succ (i + 1)
  apply @getTimeFrameStart_jump month
  · show monthStart (i + 1) * dayLength ≤ monthStart i * dayLength + 35 * dayLength
    unfold dayLength
    omega
  · show monthStart i * dayLength + 35 * dayLength < monthStart (i + 1 + 1) * dayLength
    unfold dayLength
    omega

theorem year_getEndTimeForStart (i : Int) :
    Year.getEndTimeForStart ((grid year).start i) = (grid year).start (i + 1) := by
  have hlength := yearStart_succ i
  have hnext := yearStart_succ (i + 1)
  have hleap := leapDays_bounds i
  have hleapNext := leapDays_bounds (i + 1)
  apply @getTimeFrameStart_jump year
  · show years.start (i + 1) * dayLength ≤ years.start i * dayLength + 370 * dayLength
    simp only [years_start, dayLength]
    omega
  · show years.start i * dayLength + 370 * dayLength < years.start (i + 1 + 1) * dayLength
    simp only [years_start, dayLength]
    omega

theorem yearStart_decade (i : Int) :
    3651 ≤ yearStart ((i + 1) * 10) - yearStart (i * 10) ∧
      yearStart ((i + 1) * 10) - yearStart (i * 10) ≤ 3654 := by
  unfold yearStart
  omega

theorem decade_getEndTimeForStart (i : Int) :
    Decade.getEndTimeForStart ((grid decade).start i) = (grid decade).start (i + 1) := by
  have hlength := yearStart_decade i
  have hnext := yearStart_decade (i + 1)
  apply @getTimeFrameStart_jump decade
  · show years.start ((i + 1) * 10) * dayLength ≤
      years.start (i * 10) * dayLength + 3660 * dayLength
    simp only [years_start, dayLength]
    omega
  · show years.start (i * 10) * dayLength + 3660 * dayLength <
      years.start ((i + 1 + 1) * 10) * dayLength
    simp only [years_start, dayLength]
    omega

theorem getEndTimeForStart_eq (i : Int) :
    duration.getEndTimeForStart (duration.grid.start i) = duration.grid.start (i + 1) := by
  cases duration with
  | hour =>
    show 0 + i * hourLength + 60 * 60 * 1000000 = 0 + (i + 1) * hourLength
    unfold hourLength
    omega
  | day =>
    show 0 + i * dayLength + 1 * dayLength = 0 + (i + 1) * dayLength
    unfold dayLength
    omega
  | week =>
    show -3 * dayLength + i * (7 * dayLength) + 7 * dayLength =
      -3 * dayLength + (i + 1) * (7 * dayLength)
    unfold dayLength
    omega
  | month => exact month_getEndTimeForStart i
  | year => exact year_getEndTimeForStart i
  | decade => exact decade_getEndTimeForStart i

theorem start_full_hour (i : Int) : exists n, duration.grid.start i = n * hourLength := by
  have hdays : forall days : Int, days * dayLength = days * 24 * hourLength := by
    intro days
    unfold dayLength hourLength
    omega
  cases duration with
  | hour => exact ⟨i, Int.zero_add _⟩
  | day => exact ⟨i * 24, (Int.zero_add _).trans (hdays i)⟩
  | week =>
    refine ⟨(7 * i - 3) * 24, ?_⟩
    rw [← hdays]
    show -3 * dayLength + i * (7 * dayLength) = (7 * i - 3) * dayLength
    unfold dayLength
    omega
  | month => exact ⟨monthStart i * 24, hdays _⟩
  | year => exact ⟨years.start i * 24, hdays _⟩
  | decade => exact ⟨years.start (i * 10) * 24, hdays _⟩

/--
The frames of the next shorter duration fit into those of every duration but the
month, which may start within a week.
-/
theorem shorter_refines {duration shorter : Duration}
    (hshorter : duration.getShorterDuration = some shorter) (hmonth : duration ≠ month) :
    shorter.grid.Refines duration.grid := by
  cases duration with
  | hour => cases hshorter
  | day =>
    cases hshorter
    exact fun i => start_full_hour day i |>.imp fun n hn => hn.trans (Int.zero_add _).symm
  | week =>
    cases hshorter
    refine fun i => ⟨7 * i - 3, ?_⟩
    show -3 * dayLength + i * (7 * dayLength) = 0 + (7 * i - 3) * dayLength
    unfold dayLength
    omega
  | month => exact absurd rfl hmonth
  | year =>
    cases hshorter
    exact fun i => ⟨i * 12, rfl⟩
  | decade =>
    cases hshorter
    exact fun i => ⟨i * 10, rfl⟩

/-- A year that a date may have. -/
def Representable (t : Int) : Prop := 1 ≤ (datetime t).year ∧ (datetime t).year ≤ 9999

/-- What is added to the start of a frame before fields are cleared. -/
def jump : Duration -> Int
  | hour => 60 * 60 * 1000000
  | day => 1 * dayLength
  | week => 7 * dayLength
  | month => 35 * dayLength
  | year => 370 * dayLength
  | decade => 3660 * dayLength

theorem jump_le : duration.jump ≤ 3660 * dayLength := by
  cases duration <;> decide

theorem le_year_iff (t year : Int) : year ≤ (datetime t).year <-> yearStart year * dayLength ≤ t := by
  show year ≤ yearOf (t / dayLength) <-> _
  rw [← years_index, ← years.start_le_iff, years_start]
  exact Int.le_ediv_iff_mul_le (by decide)

theorem year_le_iff (t year : Int) :
    (datetime t).year ≤ year <-> t < yearStart (year + 1) * dayLength := by
  rw [← not_lt, ← Int.add_one_le_iff, le_year_iff, not_le]

theorem le_getTimeFrameStart {t : Int} (h : yearStart 10 * dayLength ≤ t) :
    yearStart 10 * dayLength - 7 * dayLength ≤ duration.getTimeFrameStart t := by
  have hboundary : forall i, yearStart 10 * dayLength - 7 * dayLength ≤ duration.grid.start i ->
      duration.grid.start i ≤ yearStart 10 * dayLength ->
        yearStart 10 * dayLength - 7 * dayLength ≤ duration.getTimeFrameStart t := by
    intro i hlower hupper
    rw [getTimeFrameStart_eq]
    have hindex := duration.grid.start_le_iff.mp (hupper.trans h)
    exact hlower.trans (duration.grid.start_le_start.mpr hindex)
  cases duration with
  | hour => exact hboundary (yearStart 10 * 24) (by decide) (by decide)
  | day => exact hboundary (yearStart 10) (by decide) (by decide)
  | week => exact hboundary (yearStart 10 / 7) (by decide) (by decide)
  | month => exact hboundary 120 (by decide) (by decide)
  | year => exact hboundary 10 (by decide) (by decide)
  | decade => exact hboundary 1 (by decide) (by decide)

theorem getEndTimeForStart_le (starttime : Int) :
    duration.getEndTimeForStart starttime ≤ starttime + duration.jump := by
  have hcleared : forall (other : Duration) t, other.getTimeFrameStart t ≤ t := by
    intro other t
    rw [getTimeFrameStart_eq]
    exact other.grid.start_index_le t
  cases duration with
  | hour => exact le_refl _
  | day => exact le_refl _
  | week => exact le_refl _
  | month => exact hcleared month _
  | year => exact hcleared year _
  | decade => exact hcleared decade _

structure InFrame (t start stop : Int) : Prop where
  within : start ≤ t ∧ t < stop
  start_start : duration.getTimeFrameStart start = start
  start_stop : duration.getTimeFrameStart stop = stop
  same : forall u, start ≤ u -> u < stop -> duration.getTimeFrameStart u = start

theorem inFrame (t : Int) :
    InFrame duration t (duration.getTimeFrameStart t)
      (duration.getEndTimeForStart (duration.getTimeFrameStart t)) := by
  have hstart := getTimeFrameStart_eq duration t
  have hstop : duration.getEndTimeForStart (duration.getTimeFrameStart t) =
      duration.grid.start (duration.grid.index t + 1) := by
    rw [hstart, getEndTimeForStart_eq]
  have hboundary : forall i, duration.getTimeFrameStart (duration.grid.start i) =
      duration.grid.start i := by
    intro i
    rw [getTimeFrameStart_eq, duration.grid.index_start]
  rw [hstop, hstart]
  refine ⟨⟨duration.grid.start_index_le t, duration.grid.lt_start_index_succ t⟩, hboundary _,
    hboundary _, fun u hlower hupper => ?_⟩
  rw [getTimeFrameStart_eq, duration.grid.index_eq hlower hupper]

/-- The dates that are computed exist, and they bound the frame of the time. -/
theorem frames_partition (duration : Duration) (timepoint : Int)
    (hyears : 10 ≤ (datetime timepoint).year ∧ (datetime timepoint).year ≤ 9980) :
    InFrame duration timepoint (duration.getTimeFrameStart timepoint)
        (duration.getEndTimeForStart (duration.getTimeFrameStart timepoint)) ∧
      Representable (duration.getTimeFrameStart timepoint) ∧
        Representable (duration.getTimeFrameStart timepoint + duration.jump) ∧
          Representable (duration.getEndTimeForStart (duration.getTimeFrameStart timepoint)) := by
  have hframe := inFrame duration timepoint
  have hlower := le_getTimeFrameStart duration ((le_year_iff timepoint 10).mp hyears.left)
  have hupper := (year_le_iff timepoint 9980).mp hyears.right
  have hjump := jump_le duration
  have hstop := getEndTimeForStart_le duration (duration.getTimeFrameStart timepoint)
  have hwithin := hframe.within
  have hfirst : yearStart 1 * dayLength ≤ yearStart 10 * dayLength - 7 * dayLength := by decide
  have hlast : yearStart (9980 + 1) * dayLength + 3660 * dayLength ≤
      yearStart (9999 + 1) * dayLength := by decide
  have hrepresentable : forall t, duration.getTimeFrameStart timepoint ≤ t ->
      t ≤ duration.getTimeFrameStart timepoint + duration.jump -> Representable t := by
    intro t hle hge
    exact ⟨(le_year_iff t 1).mpr (by omega), (year_le_iff t 9999).mpr (by omega)⟩
  refine ⟨hframe, hrepresentable _ (le_refl _) ?_, hrepresentable _ ?_ (le_refl _),
    hrepresentable _ (by omega) hstop⟩
  · have hpositive : 0 ≤ duration.jump := by cases duration <;> decide
    omega
  · have hpositive : 0 ≤ duration.jump := by cases duration <;> decide
    omega

/-- The decade of the first day of 2016. -/
theorem frames_partition_2016 :
    (10 ≤ (datetime (16801 * dayLength)).year ∧ (datetime (16801 * dayLength)).year ≤ 9980) ∧
      InFrame decade (16801 * dayLength) (decade.getTimeFrameStart (16801 * dayLength))
        (decade.getEndTimeForStart (decade.getTimeFrameStart (16801 * dayLength))) :=
  ⟨by decide, (frames_partition decade (16801 * dayLength) (by decide)).left⟩

end Duration

end Icsw.LogAggregation
