import Icsw.StatusHistory.Downtime
import Icsw.StatusHistory.LimitAlerts

set_option linter.unusedSectionVars false

/-!
# Alert lists

An alert list holds the alerts of a range, with downtimes merged in, and the last alert before it.
Where a closed downtime needs the state from before the range, or covers its start, building the
list raises.
-/

namespace Icsw.StatusHistory

open Foundation
open DatedList

variable {κ σ : Type} [DecidableEq κ] [DecidableEq σ] [IcingaState σ]

/-- What an alert list holds for one key; keys without entries are not in it. -/
structure AlertListEntry (σ : Type) where
  alerts : Option (List (Entry σ))
  lastBefore : Option (LimitAlert σ)

def lastDescriptionOf : Option (LimitAlert σ) -> LastDescription σ
  | none => .missing
  | some alert => .record alert

def filteredDowntimes (now : Int) (downtimes : List (StartStopRow κ))
    (alertFilter : κ -> Bool) (startTime endTime : Int) (key : κ) :
    List (StartStopDuration κ) :=
  preprocessStartStopData now
    (sortByDate StartStopRow.date (downtimes.filter (fun row => alertFilter row.key)))
    startTime endTime key

/-- The part of `AlertList.__init__` that deals with one key. -/
def alertListEntry (now : Int)
    (groupOrder : List (AlertGroup κ σ) -> List (AlertGroup κ σ))
    (table : AlertTable κ σ) (downtimes : List (StartStopRow κ))
    (alertFilter : κ -> Bool) (startTime endTime : Int) (key : κ) :
    Except PyError (AlertListEntry σ) :=
  let alerts := calcAlerts table startTime endTime alertFilter key
  let lastBefore := doCalcLimitAlerts groupOrder table startTime .lastBefore alertFilter key
  let downtimeList := filteredDowntimes now downtimes alertFilter startTime endTime key
  if downtimeList = [] then
    .ok { alerts := if alerts = [] then none else some alerts, lastBefore := lastBefore }
  else do
    let merged ← addDowntimesToAlerts alerts (lastDescriptionOf lastBefore) downtimeList
    match getDowntimeEntry downtimeList startTime with
    | none => return { alerts := some merged, lastBefore := lastBefore }
    | some _ =>
      -- the attribute is read from the new dictionary, not from the row
      .error .attributeError

def descriptionBefore (lastBefore : Option (LimitAlert σ)) : StateDescription σ :=
  (lastBefore.map LimitAlert.description).getD (undeterminedDescription σ)

def Unpackable (alerts : List (Entry σ)) (lastBefore : Option (LimitAlert σ))
    (downtimeList : List (StartStopDuration κ)) : Prop :=
  lastBefore = none ∨ forall downtime, downtime ∈ downtimeList ->
    downtime.endEntry ≠ none -> exists alert, alert ∈ alerts ∧ alert.date ≤ downtime.start

variable {alerts : List (Entry σ)} {lastBefore : Option (LimitAlert σ)}

variable {downtime : StartStopDuration κ}

theorem downtimeEntries_of_unpackable
    (hsorted : Sorted Entry.date alerts) (h : lastBefore = none ∨ (downtime.endEntry ≠ none ->
      exists alert, alert ∈ alerts ∧ alert.date ≤ downtime.start)) :
    downtimeEntries alerts (lastDescriptionOf lastBefore) downtime =
      .ok (entriesOf alerts (descriptionBefore lastBefore) downtime) := by
  rw [← downtimeEntries_pair (descriptionBefore lastBefore) downtime hsorted]
  unfold downtimeEntries
  cases hend : downtime.endEntry with
  | none => rfl
  | some stopEntry =>
    simp only
    cases hlast : lastAlertBefore alerts downtime.start with
    | some alert => rfl
    | none =>
      rcases h with hnone | hsome
      · rw [hnone]
        rfl
      · rcases hsome (by simp [hend]) with ⟨alert, hmem, hle⟩
        rw [lastAlertBefore_eq_latest downtime.start hsorted] at hlast
        have hlater := (latest_eq_none_iff Entry.date).mp hlast alert hmem
        exact absurd hle (not_le.mpr hlater)

theorem downtimeEntries_error {alert : LimitAlert σ} (hsorted : Sorted Entry.date alerts)
    (hclosed : downtime.endEntry ≠ none)
    (hlater : forall other, other ∈ alerts -> downtime.start < other.date) :
    downtimeEntries alerts (.record alert) downtime = .error .valueError := by
  rcases Option.ne_none_iff_exists'.mp hclosed with ⟨stopEntry, hend⟩
  have hnone : lastAlertBefore alerts downtime.start = none := by
    rw [lastAlertBefore_eq_latest downtime.start hsorted]
    exact (latest_eq_none_iff Entry.date).mpr hlater
  unfold downtimeEntries
  simp only [hend, hnone]

variable {downtimeList : List (StartStopDuration κ)}

theorem addDowntimesToAlerts_of_unpackable
    (hsorted : Sorted Entry.date alerts) (hne : downtimeList ≠ [])
    (h : Unpackable alerts lastBefore downtimeList) :
    addDowntimesToAlerts alerts (lastDescriptionOf lastBefore) downtimeList =
      .ok (mergeDowntimes alerts (descriptionBefore lastBefore) downtimeList) := by
  have hentries : downtimeList.mapM
      (downtimeEntries alerts (lastDescriptionOf lastBefore)) =
      .ok (downtimeList.map (entriesOf alerts (descriptionBefore lastBefore))) := by
    apply mapM_eq_ok
    intro downtime hmem
    apply downtimeEntries_of_unpackable hsorted
    rcases h with hnone | hall
    · exact Or.inl hnone
    · exact Or.inr (hall downtime hmem)
  unfold addDowntimesToAlerts
  rw [if_neg hne, hentries]
  rfl

theorem unpackable_of_ok {merged : List (Entry σ)}
    (hsorted : Sorted Entry.date alerts) (hne : downtimeList ≠ [])
    (h : addDowntimesToAlerts alerts (lastDescriptionOf lastBefore) downtimeList =
      .ok merged) : Unpackable alerts lastBefore downtimeList := by
  cases lastBefore with
  | none => exact Or.inl rfl
  | some record =>
    right
    intro downtime hmem hclosed
    by_contra hnone
    have herror : downtimeEntries alerts (.record record) downtime = .error .valueError := by
      apply downtimeEntries_error hsorted hclosed
      intro other hother
      exact not_le.mp (fun hle => hnone ⟨other, hother, hle⟩)
    unfold addDowntimesToAlerts at h
    rw [if_neg hne] at h
    rcases mapM_ne_ok hmem herror with ⟨error, hloop⟩
    rw [lastDescriptionOf, hloop] at h
    cases h

section Entry

variable {now : Int} {groupOrder : List (AlertGroup κ σ) -> List (AlertGroup κ σ)}
  {table : AlertTable κ σ} {downtimes : List (StartStopRow κ)} {alertFilter : κ -> Bool}
  {startTime endTime : Int} {key : κ}

theorem filteredDowntimes_preprocessed (now : Int) (downtimes : List (StartStopRow κ))
    (alertFilter : κ -> Bool) (startTime endTime : Int) (key : κ) :
    Preprocessed now startTime endTime
      (filteredDowntimes now downtimes alertFilter startTime endTime key) :=
  preprocessStartStopData_preprocessed now startTime endTime key
    (sorted_sortByDate StartStopRow.date _)

theorem getDowntimeEntry_eq_none_iff (downtimeList : List (StartStopDuration κ)) (time : Int) :
    getDowntimeEntry downtimeList time = none <-> inDowntime downtimeList time = false := by
  rw [← isSome_getDowntimeEntry, Option.isSome_eq_false_iff, Option.isNone_iff_eq_none]

/-- The merge can be done, and no downtime covers the start. -/
def Mergeable (now : Int) (groupOrder : List (AlertGroup κ σ) -> List (AlertGroup κ σ))
    (table : AlertTable κ σ) (downtimes : List (StartStopRow κ)) (alertFilter : κ -> Bool)
    (startTime endTime : Int) (key : κ) : Prop :=
  Unpackable (calcAlerts table startTime endTime alertFilter key)
      (doCalcLimitAlerts groupOrder table startTime .lastBefore alertFilter key)
      (filteredDowntimes now downtimes alertFilter startTime endTime key) ∧
    inDowntime (filteredDowntimes now downtimes alertFilter startTime endTime key)
      startTime = false

theorem alertListEntry_eq_ok
    (h : Mergeable now groupOrder table downtimes alertFilter startTime endTime key) :
    alertListEntry now groupOrder table downtimes alertFilter startTime endTime key =
      .ok { alerts :=
              if filteredDowntimes now downtimes alertFilter startTime endTime key = [] ∧
                calcAlerts table startTime endTime alertFilter key = [] then none
              else some (mergeDowntimes
                (calcAlerts table startTime endTime alertFilter key)
                (descriptionBefore
                  (doCalcLimitAlerts groupOrder table startTime .lastBefore alertFilter key))
                (filteredDowntimes now downtimes alertFilter startTime endTime key)),
            lastBefore :=
              doCalcLimitAlerts groupOrder table startTime .lastBefore alertFilter key } := by
  have hsorted := sorted_calcAlerts table startTime endTime alertFilter key
  unfold alertListEntry
  by_cases hnil : filteredDowntimes now downtimes alertFilter startTime endTime key = []
  · simp only [hnil, if_true, true_and]
    have hmerge : mergeDowntimes (calcAlerts table startTime endTime alertFilter key)
        (descriptionBefore
          (doCalcLimitAlerts groupOrder table startTime .lastBefore alertFilter key))
        ([] : List (StartStopDuration κ)) =
        calcAlerts table startTime endTime alertFilter key := by
      simp [mergeDowntimes, inDowntime, sortByDate_of_sorted Entry.date hsorted]
    rw [hmerge]
  · simp only [hnil, false_and, if_false]
    rw [addDowntimesToAlerts_of_unpackable hsorted hnil h.left,
      (getDowntimeEntry_eq_none_iff _ _).mpr h.right]
    rfl

theorem mergeable_of_ok {entry : AlertListEntry σ}
    (h : alertListEntry now groupOrder table downtimes alertFilter startTime endTime key =
      .ok entry) :
    Mergeable now groupOrder table downtimes alertFilter startTime endTime key := by
  have hsorted := sorted_calcAlerts table startTime endTime alertFilter key
  unfold alertListEntry at h
  unfold Mergeable
  generalize filteredDowntimes now downtimes alertFilter startTime endTime key =
    downtimeList at *
  by_cases hnil : downtimeList = []
  · rw [hnil]
    refine ⟨Or.inr ?_, rfl⟩
    intro downtime hmem
    cases hmem
  · simp only [if_neg hnil] at h
    cases hmerged : addDowntimesToAlerts (calcAlerts table startTime endTime alertFilter key)
        (lastDescriptionOf
          (doCalcLimitAlerts groupOrder table startTime .lastBefore alertFilter key))
        downtimeList with
    | error raised =>
      rw [hmerged] at h
      cases h
    | ok merged =>
      refine ⟨unpackable_of_ok hsorted hnil hmerged, ?_⟩
      rw [hmerged] at h
      rw [← getDowntimeEntry_eq_none_iff]
      cases hentry : getDowntimeEntry downtimeList startTime with
      | none => rfl
      | some row =>
        rw [hentry] at h
        cases h

end Entry

end Icsw.StatusHistory
