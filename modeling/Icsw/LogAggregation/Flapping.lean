import Icsw.LogAggregation.Hour
import Icsw.StatusHistory.StartStop
import Mathlib.Algebra.Order.Field.Basic

/-!
# Flapping ratio

The intervals of a key are disjoint and meet the range, if the range has begun and no
event lies in the future.  So the key flaps for a share of the range.
-/

namespace Icsw.LogAggregation

open Foundation List
open StatusHistory

section Clipped

variable {α : Type} (start stop : α -> Int)

theorem sum_clipped_le {lo hi first : Int} {intervals : List α} (hfirst : first ≤ hi)
    (hlater : forall interval, interval ∈ intervals -> first ≤ max (start interval) lo)
    (hordered : intervals.Pairwise fun before after => stop before ≤ start after)
    (hmeets : forall interval, interval ∈ intervals ->
      max (start interval) lo ≤ min (stop interval) hi) :
    (intervals.map fun interval =>
      min (stop interval) hi - max (start interval) lo).sum ≤ hi - first := by
  induction intervals generalizing first with
  | nil => simpa using hfirst
  | cons interval rest ih =>
    rcases pairwise_cons.mp hordered with ⟨hbefore, hrest⟩
    have htail := ih (min_le_right (stop interval) hi)
      (fun other hother =>
        (min_le_left _ _).trans ((hbefore other hother).trans (le_max_left _ _)))
      hrest (fun other hother => hmeets other (mem_cons_of_mem _ hother))
    have hhead := hlater interval mem_cons_self
    rw [map_cons, sum_cons]
    linarith

theorem sum_clipped_nonneg {lo hi : Int} {intervals : List α}
    (hmeets : forall interval, interval ∈ intervals ->
      max (start interval) lo ≤ min (stop interval) hi) :
    0 ≤ (intervals.map fun interval =>
      min (stop interval) hi - max (start interval) lo).sum := by
  apply sum_nonneg
  intro time hmem
  rcases mem_map.mp hmem with ⟨interval, hinterval, rfl⟩
  exact sub_nonneg.mpr (hmeets interval hinterval)

end Clipped

theorem calcFlappingRatio_eq {κ : Type} (startTime endTime : Int)
    (flappings : List (StartStopDuration κ)) :
    calcFlappingRatio startTime endTime flappings =
      (((flappings.map fun flapping =>
        min flapping.stop endTime - max flapping.start startTime).sum : Int) : ℚ) /
        ((endTime - startTime : Int) : ℚ) := by
  unfold calcFlappingRatio
  induction flappings with
  | nil => simp
  | cons flapping rest ih =>
    rw [map_cons, sum_cons, ih, map_cons, sum_cons, weight]
    push_cast
    ring

variable {κ : Type} [DecidableEq κ]

/-- The interval has an instant of the closed range. -/
def Meets (startTime endTime : Int) (interval : StartStopDuration κ) : Prop :=
  max interval.start startTime ≤ min interval.stop endTime

instance (startTime endTime : Int) (interval : StartStopDuration κ) :
    Decidable (Meets startTime endTime interval) :=
  inferInstanceAs (Decidable (_ ≤ _))

structure StartsIn (rows : List (StartStopRow κ)) (key : κ) (st : StartStopState κ) : Prop where
  cached : forall interval, interval ∈ st.cache key -> interval.startEntry ∈ rows
  running : forall entry, st.auxStartTimes key = some entry -> entry ∈ rows

variable {rows : List (StartStopRow κ)}

theorem StartsIn.step {key : κ} {st : StartStopState κ}
    (h : StartsIn rows key st) {entry : StartStopRow κ} (hentry : entry ∈ rows)
    (startTime endTime : Int) : StartsIn rows key (startStopStep startTime endTime st entry) := by
  by_cases hkey : key = entry.key
  · subst hkey
    unfold startStopStep
    cases haux : st.auxStartTimes entry.key with
    | none =>
      cases entry.startStop with
      | stop => exact h
      | start =>
        by_cases hdate : entry.date ≤ endTime
        · simp only [if_pos hdate]
          refine ⟨h.cached, fun running hrunning => ?_⟩
          simp only [Function.update_self, Option.some.injEq] at hrunning
          exact hrunning ▸ hentry
        · simp only [if_neg hdate]
          exact h
    | some startEntry =>
      cases entry.startStop with
      | start => exact h
      | stop =>
        refine ⟨fun interval hmem => ?_, fun running hrunning => ?_⟩
        · by_cases hdate : startTime ≤ entry.date
          · simp only [if_pos hdate, Function.update_self] at hmem
            rcases mem_append.mp hmem with hold | hnew
            · exact h.cached interval hold
            · rw [mem_singleton.mp hnew]
              exact h.running startEntry haux
          · simp only [if_neg hdate] at hmem
            exact h.cached interval hmem
        · simp at hrunning
  · rcases startStopStep_of_ne startTime endTime st hkey with ⟨hcache, haux⟩
    refine ⟨?_, ?_⟩
    · rw [hcache]
      exact h.cached
    · rw [haux]
      exact h.running

theorem startsIn_foldl (startTime endTime : Int) (key : κ) {rows seen : List (StartStopRow κ)}
    {st : StartStopState κ} (hseen : seen ⊆ rows) (h : StartsIn rows key st) :
    StartsIn rows key (seen.foldl (startStopStep startTime endTime) st) := by
  induction seen generalizing st with
  | nil => exact h
  | cons entry rest ih =>
    exact ih (fun other hother => hseen (mem_cons_of_mem _ hother))
      (h.step (hseen mem_cons_self) startTime endTime)

variable {interval : StartStopDuration κ}

theorem startEntry_mem {now startTime endTime : Int} {key : κ}
    (h : interval ∈ preprocessStartStopData now rows startTime endTime key) :
    interval.startEntry ∈ rows := by
  have hinit : StartsIn rows key startStopInit :=
    ⟨fun _ hmem => (nomatch hmem), fun _ hmem => (nomatch hmem)⟩
  have hstarts := startsIn_foldl startTime endTime key (List.Subset.refl rows) hinit
  unfold preprocessStartStopData at h
  simp only [] at h
  split at h
  · exact hstarts.cached interval h
  · rename_i startEntry haux
    rcases mem_append.mp h with hold | hnew
    · exact hstarts.cached interval hold
    · rw [mem_singleton.mp hnew]
      exact hstarts.running startEntry haux

theorem meets_of_mem {now startTime endTime : Int} (hrange : startTime ≤ endTime)
    (hbegun : startTime ≤ now) {key : κ} (hsorted : DatedList.Sorted StartStopRow.date rows)
    (hpast : forall row, row ∈ rows -> row.date ≤ now)
    (h : interval ∈ preprocessStartStopData now rows startTime endTime key) :
    Meets startTime endTime interval := by
  have hspec := (preprocessStartStopData_preprocessed now startTime endTime key hsorted).each
    interval h
  have hstop : interval.start ≤ interval.stop ∧ startTime ≤ interval.stop := by
    cases hend : interval.endEntry with
    | some stopEntry => exact (hspec.closed stopEntry hend).right
    | none =>
      rw [hspec.opened hend]
      have hrow := hpast interval.startEntry (startEntry_mem h)
      rw [hspec.start_date] at hrow
      exact ⟨hrow, hbegun⟩
  exact max_le (le_min hstop.left hspec.start_le) (le_min hstop.right hrange)

/-- What the intervals of a key have in common with a range. -/
structure DisjointIn (startTime endTime : Int) (intervals : List (StartStopDuration κ)) :
    Prop where
  ordered : intervals.Pairwise fun before after => before.stop ≤ after.start
  meets : forall interval, interval ∈ intervals -> Meets startTime endTime interval
  ratio : startTime < endTime -> 0 ≤ calcFlappingRatio startTime endTime intervals ∧
    calcFlappingRatio startTime endTime intervals ≤ 1

/-- In a range that has begun the intervals of a key follow one another and meet the range, so
that their part of it is a share. -/
theorem preprocessStartStopData_disjoint {now startTime endTime : Int}
    (hrange : startTime ≤ endTime) (hbegun : startTime ≤ now) (key : κ)
    {rows : List (StartStopRow κ)} (hsorted : DatedList.Sorted StartStopRow.date rows)
    (hpast : forall row, row ∈ rows -> row.date ≤ now) :
    DisjointIn startTime endTime (preprocessStartStopData now rows startTime endTime key) := by
  have hordered : (preprocessStartStopData now rows startTime endTime key).Pairwise
      fun before after => before.stop ≤ after.start :=
    (preprocessStartStopData_preprocessed now startTime endTime key hsorted).ordered.imp
      fun h => h.right
  have hmeets : forall interval,
      interval ∈ preprocessStartStopData now rows startTime endTime key ->
        Meets startTime endTime interval :=
    fun interval hmem => meets_of_mem hrange hbegun hsorted hpast hmem
  refine ⟨hordered, hmeets, fun hlt => ?_⟩
  have hlength : (0 : ℚ) < ((endTime - startTime : Int) : ℚ) := Int.cast_pos.mpr (sub_pos.mpr hlt)
  rw [calcFlappingRatio_eq, le_div_iff₀ hlength, div_le_iff₀ hlength, zero_mul, one_mul,
    Int.cast_nonneg_iff, Int.cast_le]
  constructor
  · exact sum_clipped_nonneg StartStopDuration.start StartStopDuration.stop hmeets
  · exact sum_clipped_le StartStopDuration.start StartStopDuration.stop hrange
      (fun _ _ => le_max_right _ _) hordered hmeets

def startRow : StartStopRow Nat where
  key := 0
  date := 0
  startStop := .start
  msg := []

/-- One event has started and not stopped, and the range lies around the present. -/
theorem preprocessStartStopData_disjoint_running :
    DisjointIn 10 20 (preprocessStartStopData 15 [startRow] 10 20 0) ∧
      calcFlappingRatio 10 20 (preprocessStartStopData 15 [startRow] 10 20 0) = 1 / 2 :=
  ⟨preprocessStartStopData_disjoint (by decide) (by decide) 0 (pairwise_singleton _ _)
    (by decide), by decide +kernel⟩

/-- An event that has not stopped ends now, also before a range that has not begun, and before
its own start. -/
theorem startRow_before_range :
    DatedList.Sorted StartStopRow.date [startRow] ∧
      ((exists interval, interval ∈ preprocessStartStopData 5 [startRow] 10 20 0 ∧
          ¬ Meets 10 20 interval) ∧
        calcFlappingRatio 10 20 (preprocessStartStopData 5 [startRow] 10 20 0) < 0) ∧
      (exists interval, interval ∈ preprocessStartStopData (-2) [startRow] (-5) 5 0 ∧
          ¬ Meets (-5) 5 interval) ∧
        calcFlappingRatio (-5) 5 (preprocessStartStopData (-2) [startRow] (-5) 5 0) < 0 :=
  ⟨pairwise_singleton _ _, ⟨by decide +kernel, by decide +kernel⟩, by decide +kernel,
    by decide +kernel⟩

end Icsw.LogAggregation
