import Icsw.StatusHistory.StartStop
import Icsw.Foundation.TimeShare

/-!
# Alerts with merged downtimes

Downtimes are merged into a list of alerts as a planned down entry at the start, and an entry with
the state from before at the end..  This module says which state is in force at an instant, in terms
of the alerts and the downtimes alone.
-/

namespace Icsw.StatusHistory

open Foundation List
open DatedList

variable {κ σ : Type} [IcingaState σ]

def lastStarted (downtimeList : List (StartStopDuration κ)) (time : Int) :
    Option (StartStopDuration κ) :=
  downtimeList.reverse.find? (fun downtime => downtime.start ≤ time)

def resumedState (alerts : List (Entry σ)) (before : StateDescription σ)
    (downtime : StartStopDuration κ) : StateDescription σ :=
  stateAt Entry.date Entry.description before alerts downtime.start

/--
Planned down during a downtime; afterwards the state from before the downtime
until the next alert.  An open downtime covers the time up to the present.
-/
def accountedState (alerts : List (Entry σ)) (before : StateDescription σ)
    (downtimeList : List (StartStopDuration κ)) (time : Int) : StateDescription σ :=
  match lastStarted downtimeList time with
  | none => stateAt Entry.date Entry.description before alerts time
  | some downtime =>
    if downtime.endEntry ≠ none ∧ downtime.stop ≤ time then
      stateAt Entry.date Entry.description (resumedState alerts before downtime)
        (alerts.filter (fun alert => downtime.stop < alert.date)) time
    else
      stateAt Entry.date Entry.description (plannedDownDescription σ)
        (alerts.filter
          (fun alert => downtime.start < alert.date ∧ downtime.stop ≤ alert.date)) time

theorem lastAlertBefore_eq_latest {σ : Type} {alerts : List (Entry σ)} (time : Int)
    (hsorted : Sorted Entry.date alerts) :
    lastAlertBefore alerts time = latest Entry.date alerts time := by
  unfold lastAlertBefore
  induction alerts with
  | nil => rfl
  | cons first rest ih =>
    rcases pairwise_cons.mp hsorted with ⟨hfirst, hrest⟩
    by_cases hle : first.date ≤ time
    · rw [takeWhile_cons_of_pos (by simpa using hle), List.getLast?_cons, ih hrest,
        latest, pick, if_pos hle]
      cases hlast : latest Entry.date rest time with
      | none => rfl
      | some last =>
        have hmem := (latest_mem Entry.date hlast).left
        have hnot : ¬ last.date < first.date := not_lt.mpr (hfirst last hmem)
        simp [newer, hnot]
    · rw [takeWhile_cons_of_neg (by simpa using hle)]
      symm
      apply (latest_eq_none_iff Entry.date).mpr
      intro item hmem
      rcases mem_cons.mp hmem with heq | htail
      · rw [heq]
        exact not_le.mp hle
      · exact lt_of_lt_of_le (not_le.mp hle) (hfirst item htail)

def endEntryOf (alerts : List (Entry σ)) (before : StateDescription σ)
    (downtime : StartStopDuration κ) (stopEntry : StartStopRow κ) : Entry σ where
  date := stopEntry.date
  state := (resumedState alerts before downtime).1
  stateType := (resumedState alerts before downtime).2
  msg := ((latest Entry.date alerts downtime.start).map Entry.msg).getD stopEntry.msg

def entriesOf (alerts : List (Entry σ)) (before : StateDescription σ)
    (downtime : StartStopDuration κ) : List (Entry σ) :=
  match downtime.endEntry with
  | none => [startEntryOf downtime]
  | some stopEntry => [startEntryOf downtime, endEntryOf alerts before downtime stopEntry]

theorem downtimeEntries_pair {alerts : List (Entry σ)} (before : StateDescription σ)
    (downtime : StartStopDuration κ) (hsorted : Sorted Entry.date alerts) :
    downtimeEntries alerts (.pair before) downtime =
      .ok (entriesOf alerts before downtime) := by
  unfold downtimeEntries entriesOf
  cases downtime.endEntry with
  | none => rfl
  | some stopEntry =>
    simp only [lastAlertBefore_eq_latest downtime.start hsorted]
    cases hlast : latest Entry.date alerts downtime.start with
    | none => simp [endEntryOf, resumedState, stateAt, hlast]
    | some last =>
      simp [endEntryOf, resumedState, stateAt, hlast, Entry.description]

def mergeDowntimes (alerts : List (Entry σ)) (before : StateDescription σ)
    (downtimeList : List (StartStopDuration κ)) : List (Entry σ) :=
  sortByDate Entry.date
    (alerts.filter (fun alert => !inDowntime downtimeList alert.date) ++
      downtimeList.flatMap (entriesOf alerts before))

theorem mapM_downtimeEntries_pair {alerts : List (Entry σ)} (before : StateDescription σ)
    (downtimeList : List (StartStopDuration κ)) (hsorted : Sorted Entry.date alerts) :
    downtimeList.mapM (downtimeEntries alerts (.pair before)) =
      .ok (downtimeList.map (entriesOf alerts before)) :=
  mapM_eq_ok (fun downtime _ => downtimeEntries_pair before downtime hsorted)

theorem addDowntimesToAlerts_pair [DecidableEq κ] {alerts : List (Entry σ)}
    (before : StateDescription σ) (downtimeList : List (StartStopDuration κ))
    (hsorted : Sorted Entry.date alerts) :
    addDowntimesToAlerts alerts (.pair before) downtimeList =
      .ok (mergeDowntimes alerts before downtimeList) := by
  unfold addDowntimesToAlerts
  by_cases hnil : downtimeList = []
  · rw [if_pos hnil, hnil]
    simp [mergeDowntimes, inDowntime, sortByDate_of_sorted Entry.date hsorted]
  · rw [if_neg hnil, mapM_downtimeEntries_pair before downtimeList hsorted]
    rfl

variable {time : Int}

variable {downtimeList : List (StartStopDuration κ)}

theorem lastStarted_eq_none_iff :
    lastStarted downtimeList time = none <->
      forall downtime, downtime ∈ downtimeList -> time < downtime.start := by
  unfold lastStarted
  simp only [List.find?_eq_none, mem_reverse, decide_eq_true_eq, not_le]

variable {downtime : StartStopDuration κ}

theorem lastStarted_eq_some (h : lastStarted downtimeList time = some downtime) :
    downtime.start ≤ time ∧ exists earlier later,
      downtimeList = earlier ++ downtime :: later ∧
        forall other, other ∈ later -> time < other.start := by
  unfold lastStarted at h
  rcases List.find?_eq_some_iff_append.mp h with ⟨hstart, later, earlier, hsplit, hlater⟩
  refine ⟨by simpa using hstart, earlier.reverse, later.reverse, ?_, ?_⟩
  · rw [← reverse_reverse downtimeList, hsplit]
    simp
  · intro other hother
    have hnot := hlater other (mem_reverse.mp hother)
    simpa using hnot

variable {entry : Entry σ}

theorem mem_entriesOf {alerts : List (Entry σ)} {before : StateDescription σ}
    (h : entry ∈ entriesOf alerts before downtime) :
    entry = startEntryOf downtime ∨ exists stopEntry,
      downtime.endEntry = some stopEntry ∧
        entry = endEntryOf alerts before downtime stopEntry := by
  unfold entriesOf at h
  cases hend : downtime.endEntry with
  | none =>
    rw [hend] at h
    exact Or.inl (mem_singleton.mp h)
  | some stopEntry =>
    rw [hend] at h
    rcases mem_cons.mp h with hstart | hstop
    · exact Or.inl hstart
    · exact Or.inr ⟨stopEntry, rfl, mem_singleton.mp hstop⟩

theorem isSome_getDowntimeEntry (downtimeList : List (StartStopDuration κ)) (time : Int) :
    (getDowntimeEntry downtimeList time).isSome = inDowntime downtimeList time := by
  unfold getDowntimeEntry inDowntime
  rw [Option.isSome_map, Bool.eq_iff_iff, List.find?_isSome, any_eq_true]

theorem mem_mergeDowntimes {alerts : List (Entry σ)} {before : StateDescription σ} :
    entry ∈ mergeDowntimes alerts before downtimeList <->
      (entry ∈ alerts ∧ inDowntime downtimeList entry.date = false) ∨
        exists downtime, downtime ∈ downtimeList ∧
          entry ∈ entriesOf alerts before downtime := by
  unfold mergeDowntimes
  rw [mem_sortByDate, mem_append, mem_filter, mem_flatMap]
  simp

theorem startEntryOf_mem_entriesOf (alerts : List (Entry σ)) (before : StateDescription σ)
    (downtime : StartStopDuration κ) :
    startEntryOf downtime ∈ entriesOf alerts before downtime := by
  unfold entriesOf
  cases downtime.endEntry <;> simp

theorem startEntryOf_mem_mergeDowntimes (alerts : List (Entry σ))
    (before : StateDescription σ) {downtimeList : List (StartStopDuration κ)} (hmem : downtime ∈ downtimeList) :
    startEntryOf downtime ∈ mergeDowntimes alerts before downtimeList :=
  mem_mergeDowntimes.mpr
    (Or.inr ⟨downtime, hmem, startEntryOf_mem_entriesOf alerts before downtime⟩)

theorem sorted_mergeDowntimes (alerts : List (Entry σ)) (before : StateDescription σ)
    (downtimeList : List (StartStopDuration κ)) :
    Sorted Entry.date (mergeDowntimes alerts before downtimeList) :=
  sorted_sortByDate Entry.date _

section Intervals

variable {now startTime endTime : Int} {downtimeList : List (StartStopDuration κ)}

section

variable (hspec : IntervalSpec now startTime endTime downtime)
include hspec

variable {before : StateDescription σ}

theorem start_le_date_of_mem_entriesOf {alerts : List (Entry σ)}
    (h : entry ∈ entriesOf alerts before downtime) : downtime.start ≤ entry.date := by
  rcases mem_entriesOf h with hstart | ⟨stopEntry, hend, hstop⟩
  · rw [hstart]
    exact le_of_eq hspec.start_date.symm
  · have hclosed := hspec.closed stopEntry hend
    rw [hstop]
    exact le_trans hclosed.right.left (le_of_eq hclosed.left.symm)

theorem date_le_stop_of_mem_entriesOf {alerts : List (Entry σ)} (hclosed : downtime.endEntry ≠ none)
    (h : entry ∈ entriesOf alerts before downtime) : entry.date ≤ downtime.stop := by
  rcases Option.ne_none_iff_exists'.mp hclosed with ⟨stopEntry, hend⟩
  have hdates := hspec.closed stopEntry hend
  rcases mem_entriesOf h with hstart | ⟨other, hother, hstop⟩
  · rw [hstart]
    exact le_trans (le_of_eq hspec.start_date) hdates.right.left
  · rw [hend] at hother
    cases hother
    rw [hstop]
    exact le_of_eq hdates.left

theorem latest_entriesOf {alerts : List (Entry σ)} (hstart : downtime.start ≤ time) :
    latest Entry.date (entriesOf alerts before downtime) time =
      match downtime.endEntry with
      | none => some (startEntryOf downtime)
      | some stopEntry =>
        if downtime.stop ≤ time then some (endEntryOf alerts before downtime stopEntry)
        else some (startEntryOf downtime) := by
  have hstartDate : (startEntryOf downtime : Entry σ).date ≤ time :=
    le_trans (le_of_eq hspec.start_date) hstart
  unfold entriesOf
  cases hend : downtime.endEntry with
  | none => simp [latest, pick, hstartDate]
  | some stopEntry =>
    have hdates := hspec.closed stopEntry hend
    have hstopDate : (endEntryOf alerts before downtime stopEntry).date = downtime.stop :=
      hdates.left
    by_cases hstop : downtime.stop ≤ time
    · have hnot : ¬ downtime.stop < (startEntryOf downtime : Entry σ).date := by
        rw [not_lt]
        exact le_trans (le_of_eq hspec.start_date) hdates.right.left
      simp [latest, pick, hstartDate, hstopDate, hstop, newer, hnot]
    · simp [latest, pick, hstartDate, hstopDate, hstop]

end

section

variable (h : Preprocessed now startTime endTime downtimeList)
include h

theorem latest_added_none {alerts : List (Entry σ)} {before : StateDescription σ}
    (hnone : lastStarted downtimeList time = none) :
    latest Entry.date (downtimeList.flatMap (entriesOf alerts before)) time = none := by
  apply (latest_eq_none_iff Entry.date).mpr
  intro entry hmem
  rcases mem_flatMap.mp hmem with ⟨downtime, hdowntime, hentry⟩
  have hlater := lastStarted_eq_none_iff.mp hnone downtime hdowntime
  exact lt_of_lt_of_le hlater
    (start_le_date_of_mem_entriesOf (h.each downtime hdowntime) hentry)

theorem latest_added_some {alerts : List (Entry σ)} {before : StateDescription σ}
    (hsome : lastStarted downtimeList time = some downtime) :
    latest Entry.date (downtimeList.flatMap (entriesOf alerts before)) time =
      latest Entry.date (entriesOf alerts before downtime) time := by
  rcases lastStarted_eq_some hsome with ⟨hstart, earlier, later, hsplit, hlater⟩
  subst hsplit
  have hlaterNone :
      latest Entry.date (later.flatMap (entriesOf alerts before)) time = none := by
    apply (latest_eq_none_iff Entry.date).mpr
    intro entry hmem
    rcases mem_flatMap.mp hmem with ⟨other, hother, hentry⟩
    have hspec := h.each other (by simp [hother])
    exact lt_of_lt_of_le (hlater other hother)
      (start_le_date_of_mem_entriesOf hspec hentry)
  have hspec := h.each downtime (by simp)
  rw [flatMap_append, flatMap_cons, latest_append, latest_append, hlaterNone,
    newer_none_right]
  cases hentry : latest Entry.date (entriesOf alerts before downtime) time with
  | none =>
    have hafter := (latest_eq_none_iff Entry.date).mp hentry _
      (startEntryOf_mem_entriesOf alerts before downtime)
    exact absurd (hspec.start_date.trans_le hstart) (not_le.mpr hafter)
  | some entry =>
    have hge := start_le_date_of_mem_entriesOf hspec (latest_mem Entry.date hentry).left
    cases hfirst : latest Entry.date (earlier.flatMap (entriesOf alerts before)) time with
    | none => simp
    | some other =>
      rcases mem_flatMap.mp (latest_mem Entry.date hfirst).left with
        ⟨previous, hprevious, hother⟩
      have hpair := (pairwise_append.mp h.ordered).right.right previous hprevious
        downtime mem_cons_self
      have hle := date_le_stop_of_mem_entriesOf
        (h.each previous (by simp [hprevious])) hpair.left hother
      have hnot : ¬ entry.date < other.date := not_lt.mpr (le_trans hle (le_trans hpair.right hge))
      simp [newer, hnot]

theorem not_inDowntime_of_lastStarted {date : Int}
    (hsome : lastStarted downtimeList time = some downtime)
    (hafter : downtime.start < date) (hle : date ≤ time) :
    inDowntime downtimeList date = true <-> date < downtime.stop := by
  rcases lastStarted_eq_some hsome with ⟨_hstart, earlier, later, hsplit, hlater⟩
  subst hsplit
  unfold inDowntime
  simp only [any_eq_true, decide_eq_true_eq]
  constructor
  · rintro ⟨other, hother, hstart, hstop⟩
    rcases mem_append.mp hother with hearlier | hrest
    · have hpair := (pairwise_append.mp h.ordered).right.right other hearlier
        downtime mem_cons_self
      have := hpair.right
      omega
    · rcases mem_cons.mp hrest with heq | htail
      · rw [← heq]
        exact hstop
      · have := hlater other htail
        omega
  · intro hstop
    exact ⟨downtime, by simp, le_of_lt hafter, hstop⟩

end

theorem not_inDowntime_of_none {time date : Int}
    (hnone : lastStarted downtimeList time = none) (hle : date ≤ time) :
    inDowntime downtimeList date = false := by
  unfold inDowntime
  rw [any_eq_false]
  intro downtime hmem
  have hlater := lastStarted_eq_none_iff.mp hnone downtime hmem
  simp only [decide_eq_true_eq, not_and, not_lt]
  intro hstart
  omega

theorem stateAt_mergeDowntimes (alerts : List (Entry σ)) (before : StateDescription σ)
    (time : Int) (h : Preprocessed now startTime endTime downtimeList) :
    stateAt Entry.date Entry.description before
        (mergeDowntimes alerts before downtimeList) time =
      accountedState alerts before downtimeList time := by
  unfold accountedState mergeDowntimes
  rw [stateAt, latest_sortByDate, latest_append]
  cases hlast : lastStarted downtimeList time with
  | none =>
    have hkeep : latest Entry.date
        (alerts.filter (fun alert => !inDowntime downtimeList alert.date)) time =
        latest Entry.date (alerts.filter (fun _ => true)) time := by
      apply latest_filter_congr
      intro alert _hmem hle
      rw [not_inDowntime_of_none hlast hle]
      rfl
    rw [latest_added_none h hlast, newer_none_right, hkeep, filter_true]
    rfl
  | some downtime =>
    rcases lastStarted_eq_some hlast with ⟨hstart, earlier, later, hsplit, _hlater⟩
    have hspec := h.each downtime (by simp [hsplit])
    rw [latest_added_some h hlast, latest_entriesOf hspec hstart]
    by_cases hended : downtime.endEntry ≠ none ∧ downtime.stop ≤ time
    · rcases Option.ne_none_iff_exists'.mp hended.left with ⟨stopEntry, hend⟩
      have hdates := hspec.closed stopEntry hend
      have hkeep : latest Entry.date
          ((alerts.filter (fun alert => !inDowntime downtimeList alert.date)).filter
            (fun other => stopEntry.date < other.date)) time =
          latest Entry.date
            (alerts.filter (fun alert => downtime.stop < alert.date)) time := by
        rw [filter_filter]
        apply latest_filter_congr
        intro alert _hmem hle
        rw [hdates.left]
        by_cases hlt : downtime.stop < alert.date
        · have hiff := not_inDowntime_of_lastStarted h hlast
            (lt_of_le_of_lt hdates.right.left hlt) hle
          have hfalse : inDowntime downtimeList alert.date = false := by
            rw [← Bool.not_eq_true, hiff]
            omega
          simp [hlt, hfalse]
        · simp [hlt]
      simp only [hend, if_pos hended.right, newer_latest_some]
      rw [if_pos (by simp [hended.right])]
      have hdate : (endEntryOf alerts before downtime stopEntry).date = stopEntry.date := rfl
      rw [hdate, hkeep, stateAt]
      cases latest Entry.date
        (alerts.filter (fun alert => downtime.stop < alert.date)) time <;> rfl
    · have hcurrent : (match downtime.endEntry with
          | none => some (startEntryOf downtime)
          | some stopEntry =>
            if downtime.stop ≤ time then
              some (endEntryOf alerts before downtime stopEntry)
            else some (startEntryOf downtime)) = some (startEntryOf downtime : Entry σ) := by
        cases hend : downtime.endEntry with
        | none => rfl
        | some stopEntry =>
          have hnot : ¬ downtime.stop ≤ time := by
            intro hle
            exact hended ⟨by simp [hend], hle⟩
          simp [hnot]
      have hkeep : latest Entry.date
          ((alerts.filter (fun alert => !inDowntime downtimeList alert.date)).filter
            (fun other => downtime.startEntry.date < other.date)) time =
          latest Entry.date
            (alerts.filter (fun alert =>
              downtime.start < alert.date ∧ downtime.stop ≤ alert.date)) time := by
        rw [filter_filter]
        apply latest_filter_congr
        intro alert _hmem hle
        rw [hspec.start_date]
        by_cases hlt : downtime.start < alert.date
        · have hiff := not_inDowntime_of_lastStarted h hlast hlt hle
          by_cases hin : alert.date < downtime.stop
          · simp [hlt, hiff.mpr hin, hin]
          · have hfalse : inDowntime downtimeList alert.date = false := by
              rw [← Bool.not_eq_true, hiff]
              exact hin
            simp [hlt, hfalse, not_lt.mp hin]
        · simp [hlt]
      rw [hcurrent, newer_latest_some]
      simp only [if_neg hended]
      have hdate : (startEntryOf downtime : Entry σ).date = downtime.startEntry.date := rfl
      rw [hdate, hkeep, stateAt]
      cases latest Entry.date
        (alerts.filter (fun alert =>
          downtime.start < alert.date ∧ downtime.stop ≤ alert.date)) time <;> rfl

variable {alerts : List (Entry σ)} {before : StateDescription σ}

theorem lastStarted_of_forall_le (downtimeList : List (StartStopDuration κ))
    (hall : forall downtime, downtime ∈ downtimeList -> downtime.start ≤ time) :
    lastStarted downtimeList time = downtimeList.getLast? := by
  unfold lastStarted
  rw [List.getLast?_eq_head?_reverse]
  cases hrev : downtimeList.reverse with
  | nil => rfl
  | cons last earlier =>
    have hlast := hall last (mem_reverse.mp (by simp [hrev]))
    simp [hlast]

theorem accountedState_front (h : Preprocessed now startTime endTime downtimeList)
    (hlo : forall alert, alert ∈ alerts -> startTime ≤ alert.date) (hentry : entry ∈ mergeDowntimes alerts before downtimeList) (hge : entry.date ≤ time) (hlt : time < startTime) :
    accountedState alerts before downtimeList time = plannedDownDescription σ := by
  unfold accountedState
  cases hlast : lastStarted downtimeList time with
  | none =>
    have hlater := lastStarted_eq_none_iff.mp hlast
    rcases mem_mergeDowntimes.mp hentry with ⟨halert, _⟩ | ⟨downtime, hmem, hin⟩
    · have := hlo entry halert
      omega
    · have := hlater downtime hmem
      have := start_le_date_of_mem_entriesOf (h.each downtime hmem) hin
      omega
  | some downtime =>
    rcases lastStarted_eq_some hlast with ⟨_, earlier, later, hsplit, _⟩
    have hspec := h.each downtime (by simp [hsplit])
    have hnot : ¬ (downtime.endEntry ≠ none ∧ downtime.stop ≤ time) := by
      rintro ⟨hclosed, hstop⟩
      rcases Option.ne_none_iff_exists'.mp hclosed with ⟨stopEntry, hend⟩
      have := (hspec.closed stopEntry hend).right.right
      omega
    simp only [if_neg hnot]
    apply stateAt_of_forall_later
    intro alert hmem
    exact lt_of_lt_of_le hlt (hlo alert (mem_filter.mp hmem).left)

theorem accountedState_back (h : Preprocessed now startTime endTime downtimeList) (hlast : downtimeList.getLast? = some downtime) (hge : endTime ≤ time) (hlt : time < downtime.stop) :
    accountedState alerts before downtimeList time = plannedDownDescription σ := by
  have hstarted : lastStarted downtimeList time = some downtime := by
    rw [lastStarted_of_forall_le downtimeList, hlast]
    intro other hmem
    exact le_trans (h.each other hmem).start_le hge
  have hnot : ¬ (downtime.endEntry ≠ none ∧ downtime.stop ≤ time) := by
    rintro ⟨_, hstop⟩
    omega
  unfold accountedState
  rw [hstarted]
  simp only [if_neg hnot]
  apply stateAt_of_forall_later
  intro alert hmem
  have hstop := (mem_filter.mp hmem).right
  simp only [decide_eq_true_eq] at hstop
  omega

end Intervals

end Icsw.StatusHistory
