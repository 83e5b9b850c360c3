import Icsw.StatusHistory.Model

/-!
# Intervals built from start and stop events

For every key the preprocessing of a date-ordered event list returns intervals
that follow one another; only the last one may still be open.
-/

namespace Icsw.StatusHistory

open Foundation List

variable {κ : Type}

structure IntervalSpec (now startTime endTime : Int)
    (interval : StartStopDuration κ) : Prop where
  start_date : interval.startEntry.date = interval.start
  start_le : interval.start ≤ endTime
  closed : forall stopEntry, interval.endEntry = some stopEntry ->
    stopEntry.date = interval.stop ∧ interval.start ≤ interval.stop ∧
      startTime ≤ interval.stop
  opened : interval.endEntry = none -> interval.stop = now

/-- Intervals of one key: each one is over before the next one starts. -/
structure Preprocessed (now startTime endTime : Int)
    (intervals : List (StartStopDuration κ)) : Prop where
  each : forall interval, interval ∈ intervals ->
    IntervalSpec now startTime endTime interval
  ordered : intervals.Pairwise
    (fun first second => first.endEntry ≠ none ∧ first.stop ≤ second.start)

theorem preprocessed_nil (now startTime endTime : Int) :
    Preprocessed now startTime endTime ([] : List (StartStopDuration κ)) where
  each := by
    intro interval hmem
    cases hmem
  ordered := List.Pairwise.nil

theorem Preprocessed.append_single {now startTime endTime : Int}
    {intervals : List (StartStopDuration κ)} {last : StartStopDuration κ}
    (h : Preprocessed now startTime endTime intervals)
    (hlast : IntervalSpec now startTime endTime last)
    (hbefore : forall interval, interval ∈ intervals ->
      interval.endEntry ≠ none ∧ interval.stop ≤ last.start) :
    Preprocessed now startTime endTime (intervals ++ [last]) where
  each := by
    intro interval hmem
    rcases mem_append.mp hmem with hold | hnew
    · exact h.each interval hold
    · rw [mem_singleton.mp hnew]
      exact hlast
  ordered := by
    rw [pairwise_append]
    refine ⟨h.ordered, pairwise_singleton _ _, ?_⟩
    intro interval hmem other hother
    rw [mem_singleton.mp hother]
    exact hbefore interval hmem

/-- State of the loop for one key after events dated no later than the bound. -/
structure LoopInvariant (now startTime endTime bound : Int) (key : κ)
    (st : StartStopState κ) : Prop where
  preprocessed : Preprocessed now startTime endTime (st.cache key)
  finished : forall interval, interval ∈ st.cache key ->
    interval.endEntry ≠ none ∧ interval.stop ≤ bound
  running : forall entry, st.auxStartTimes key = some entry ->
    entry.date ≤ endTime ∧ entry.date ≤ bound ∧
      forall interval, interval ∈ st.cache key -> interval.stop ≤ entry.date

variable {st : StartStopState κ} {key : κ}

theorem LoopInvariant.mono {now startTime endTime bound bound' : Int}
    (h : LoopInvariant now startTime endTime bound key st)
    (hle : bound ≤ bound') : LoopInvariant now startTime endTime bound' key st where
  preprocessed := h.preprocessed
  finished := by
    intro interval hmem
    have hfin := h.finished interval hmem
    exact ⟨hfin.left, le_trans hfin.right hle⟩
  running := by
    intro entry hentry
    have hrun := h.running entry hentry
    exact ⟨hrun.left, le_trans hrun.right.left hle, hrun.right.right⟩

theorem loopInvariant_init (now startTime endTime bound : Int) (key : κ) :
    LoopInvariant now startTime endTime bound key startStopInit where
  preprocessed := preprocessed_nil now startTime endTime
  finished := by
    intro interval hmem
    cases hmem
  running := by
    intro entry hentry
    cases hentry

variable [DecidableEq κ] {entry : StartStopRow κ}

theorem startStopStep_of_ne (startTime endTime : Int) (st : StartStopState κ)
    (hkey : key ≠ entry.key) :
    (startStopStep startTime endTime st entry).cache key = st.cache key ∧
      (startStopStep startTime endTime st entry).auxStartTimes key = st.auxStartTimes key := by
  unfold startStopStep
  split
  · split
    · exact ⟨rfl, Function.update_of_ne hkey _ _⟩
    · exact ⟨rfl, rfl⟩
  · refine ⟨?_, Function.update_of_ne hkey _ _⟩
    split
    · exact Function.update_of_ne hkey _ _
    · rfl
  · exact ⟨rfl, rfl⟩

variable {now startTime endTime bound : Int}

theorem startStopStep_invariant
    (h : LoopInvariant now startTime endTime bound key st) (hle : bound ≤ entry.date) :
    LoopInvariant now startTime endTime entry.date key
      (startStopStep startTime endTime st entry) := by
  have hmono := h.mono hle
  by_cases hkey : key = entry.key
  · subst hkey
    unfold startStopStep
    cases haux : st.auxStartTimes entry.key with
    | none =>
      cases hstate : entry.startStop with
      | stop => exact hmono
      | start =>
        by_cases hdate : entry.date ≤ endTime
        · simp only [if_pos hdate]
          constructor
          · exact hmono.preprocessed
          · exact hmono.finished
          · intro running hrunning
            simp only [Function.update_self, Option.some.injEq] at hrunning
            subst hrunning
            refine ⟨hdate, le_refl _, ?_⟩
            intro interval hmem
            exact (hmono.finished interval hmem).right
        · simp only [if_neg hdate]
          exact hmono
    | some startEntry =>
      cases hstate : entry.startStop with
      | start => exact hmono
      | stop =>
        have hrun := h.running startEntry haux
        by_cases hdate : startTime ≤ entry.date
        · simp only [if_pos hdate]
          constructor
          · simp only [Function.update_self]
            apply hmono.preprocessed.append_single
            · constructor
              · rfl
              · exact hrun.left
              · intro stopEntry hstop
                cases hstop
                exact ⟨rfl, le_trans hrun.right.left hle, hdate⟩
              · intro hopen
                cases hopen
            · intro interval hmem
              exact ⟨(h.finished interval hmem).left, hrun.right.right interval hmem⟩
          · simp only [Function.update_self]
            intro interval hmem
            rcases mem_append.mp hmem with hold | hnew
            · exact hmono.finished interval hold
            · rw [mem_singleton.mp hnew]
              exact ⟨Option.some_ne_none entry, le_refl _⟩
          · intro running hrunning
            simp at hrunning
        · simp only [if_neg hdate]
          constructor
          · exact hmono.preprocessed
          · exact hmono.finished
          · intro running hrunning
            simp at hrunning
  · rcases startStopStep_of_ne startTime endTime st hkey with ⟨hcache, haux⟩
    constructor
    · rw [hcache]
      exact hmono.preprocessed
    · rw [hcache]
      exact hmono.finished
    · rw [haux, hcache]
      exact hmono.running

variable {rows : List (StartStopRow κ)}

theorem foldl_startStopStep_invariant (h : LoopInvariant now startTime endTime bound key st)
    (hsorted : DatedList.Sorted StartStopRow.date rows)
    (hbound : forall row, row ∈ rows -> bound ≤ row.date) :
    exists bound', LoopInvariant now startTime endTime bound' key
      (rows.foldl (startStopStep startTime endTime) st) := by
  induction rows generalizing st bound with
  | nil => exact ⟨bound, h⟩
  | cons row rest ih =>
    rcases pairwise_cons.mp hsorted with ⟨hrow, hrest⟩
    have hstep := startStopStep_invariant h (hbound row mem_cons_self)
    exact ih hstep hrest hrow

theorem preprocessStartStopData_preprocessed (now startTime endTime : Int) (key : κ)
    (hsorted : DatedList.Sorted StartStopRow.date rows) :
    Preprocessed now startTime endTime
      (preprocessStartStopData now rows startTime endTime key) := by
  have hfinal : exists bound, LoopInvariant now startTime endTime bound key
      (rows.foldl (startStopStep startTime endTime) startStopInit) := by
    cases rows with
    | nil => exact ⟨0, loopInvariant_init now startTime endTime 0 key⟩
    | cons row rest =>
      apply foldl_startStopStep_invariant
        (loopInvariant_init now startTime endTime row.date key) hsorted
      intro other hmem
      rcases mem_cons.mp hmem with heq | hrest
      · rw [heq]
      · exact (pairwise_cons.mp hsorted).left other hrest
  rcases hfinal with ⟨bound, hinv⟩
  unfold preprocessStartStopData
  simp only
  split
  · exact hinv.preprocessed
  · rename_i startEntry haux
    have hrun := hinv.running startEntry haux
    apply hinv.preprocessed.append_single
    · constructor
      · rfl
      · exact hrun.left
      · intro stopEntry hstop
        cases hstop
      · intro _
        rfl
    · intro interval hmem
      exact ⟨(hinv.finished interval hmem).left, hrun.right.right interval hmem⟩

end Icsw.StatusHistory
