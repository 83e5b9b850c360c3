import Icsw.Kpi.Model

set_option linter.unusedSectionVars false

/-!
# The state of the latest alert

The alerts of a key are its own and the shutdowns.  At an instant outside of
downtimes the key is in the state of a latest alert up to then; where several
alerts share the latest date, the state of any of them will do.
-/

namespace Icsw.Kpi

open Foundation List
open DatedList
open StatusHistory

variable {κ σ : Type} [DecidableEq κ] [DecidableEq σ] [IcingaState σ]

def KeyAlert (table : AlertTable κ σ) (key : κ) (entry : Entry σ) : Prop :=
  (exists alert, alert ∈ table.own ∧ alert.key = key ∧ entry = alert.toEntry) ∨
    exists alert, alert ∈ table.independent ∧ entry = alert.toEntry

/-- State of a latest alert at or before the instant, undetermined without any. -/
def LatestState (table : AlertTable κ σ) (key : κ) (time : Int)
    (description : StateDescription σ) : Prop :=
  (exists entry, KeyAlert table key entry ∧ entry.date ≤ time ∧
    (forall other, KeyAlert table key other -> other.date ≤ time ->
      other.date ≤ entry.date) ∧ description = entry.description) ∨
    ((forall entry, KeyAlert table key entry -> time < entry.date) ∧
      description = undeterminedDescription σ)

theorem description_toEntry_ne (alert : RawAlert κ σ) :
    alert.toEntry.description ≠ plannedDownDescription σ := by
  intro h
  have htype := congrArg Prod.snd h
  cases hstateType : alert.stateType <;>
    simp [RawAlert.toEntry, Entry.description, plannedDownDescription, hstateType,
      AlertStateType.toStateType] at htype

theorem undetermined_ne_plannedDown : undeterminedDescription σ ≠ plannedDownDescription σ := by
  intro h
  have htype := congrArg Prod.snd h
  cases htype

variable {entry : Entry σ}

variable {table : AlertTable κ σ}

theorem KeyAlert.description_ne {key : κ}
    (h : KeyAlert table key entry) : entry.description ≠ plannedDownDescription σ := by
  rcases h with ⟨alert, _, _, rfl⟩ | ⟨alert, _, rfl⟩
  · exact description_toEntry_ne alert
  · exact undetermined_ne_plannedDown

variable {description : StateDescription σ} {time : Int}

theorem LatestState.ne_plannedDown {key : κ} (h : LatestState table key time description) :
    description ≠ plannedDownDescription σ := by
  rcases h with ⟨entry, hentry, _, _, rfl⟩ | ⟨_, rfl⟩
  · exact hentry.description_ne
  · exact undetermined_ne_plannedDown

theorem latestState_mono {key : κ} {earlier later : Int}
    (hle : earlier ≤ later) (hnone : forall entry, KeyAlert table key entry ->
      ¬ (earlier < entry.date ∧ entry.date ≤ later))
    (h : LatestState table key earlier description) :
    LatestState table key later description := by
  have hearly : forall entry, KeyAlert table key entry -> entry.date ≤ later ->
      entry.date ≤ earlier := by
    intro entry hentry hdate
    by_contra hnot
    exact hnone entry hentry ⟨not_le.mp hnot, hdate⟩
  rcases h with ⟨entry, hentry, hdate, hmax, hequal⟩ | ⟨hlater, hequal⟩
  · left
    refine ⟨entry, hentry, le_trans hdate hle, ?_, hequal⟩
    intro other hother hotherDate
    exact hmax other hother (hearly other hother hotherDate)
  · right
    refine ⟨?_, hequal⟩
    intro entry hentry
    by_contra hnot
    have hdate := hearly entry hentry (not_lt.mp hnot)
    exact absurd (hlater entry hentry) (not_lt.mpr hdate)

theorem latestState_of_shutdown {key : κ}
    (hexists : exists shutdown, shutdown ∈ table.independent ∧ shutdown.date ≤ time)
    (hown : forall alert, alert ∈ table.own -> alert.key = key -> alert.date ≤ time ->
      exists shutdown, shutdown ∈ table.independent ∧ shutdown.date ≤ time ∧
        alert.date ≤ shutdown.date) :
    LatestState table key time (undeterminedDescription σ) := by
  have hspec := limitIndependent_lastBefore table time
  rcases hexists with ⟨shutdown, hmem, hdate⟩
  cases hlast : limitIndependent table .lastBefore time with
  | none =>
    rw [hlast] at hspec
    exact absurd hdate (not_le.mpr (hspec shutdown hmem))
  | some last =>
    rw [hlast] at hspec
    rcases hspec with ⟨hlastMem, hlastDate, hmax⟩
    left
    refine ⟨last.toEntry, Or.inr ⟨last, hlastMem, rfl⟩, hlastDate, ?_, rfl⟩
    rintro other (⟨alert, halert, hkey, rfl⟩ | ⟨alert, halert, rfl⟩) hother
    · rcases hown alert halert hkey hother with ⟨shutdown, hin, hbefore, hle⟩
      exact le_trans hle (hmax shutdown hin hbefore)
    · exact hmax alert halert hother

theorem LatestState.eq_undetermined {key : κ} (h : LatestState table key time description)
    {shutdown : IndependentAlert} (hmem : shutdown ∈ table.independent)
    (hdate : shutdown.date ≤ time)
    (hown : forall alert, alert ∈ table.own -> alert.key = key -> alert.date ≤ time ->
      alert.date < shutdown.date) :
    description = undeterminedDescription σ := by
  rcases h with ⟨entry, hentry, hentryDate, hmax, hequal⟩ | ⟨_, hequal⟩
  · rcases hentry with ⟨alert, halert, hkey, rfl⟩ | ⟨alert, _, rfl⟩
    · have hle := hmax shutdown.toEntry (Or.inr ⟨shutdown, hmem, rfl⟩) hdate
      exact absurd (hown alert halert hkey hentryDate) (not_lt.mpr hle)
    · exact hequal
  · exact hequal

theorem latestState_of_no_own {key : κ} {time : Int}
    (h : forall alert, alert ∈ table.own -> alert.key = key -> time < alert.date) :
    LatestState table key time (undeterminedDescription σ) := by
  by_cases hshutdown : exists shutdown, shutdown ∈ table.independent ∧ shutdown.date ≤ time
  · apply latestState_of_shutdown hshutdown
    intro alert halert hkey hdate
    exact absurd hdate (not_le.mpr (h alert halert hkey))
  · right
    refine ⟨?_, rfl⟩
    rintro entry (⟨alert, halert, hkey, rfl⟩ | ⟨alert, halert, rfl⟩)
    · exact h alert halert hkey
    · exact not_le.mp (fun hdate => hshutdown ⟨alert, halert, hdate⟩)

theorem latestState_descriptionBefore {groupOrder : List (AlertGroup κ σ) -> List (AlertGroup κ σ)}
    (horder : forall groups, (groupOrder groups).Perm groups)
    (table : AlertTable κ σ) (time : Int) {alertFilter : κ -> Bool} {key : κ}
    (hfilter : alertFilter key = true) :
    LatestState table key time (descriptionBefore
      (doCalcLimitAlerts groupOrder table time .lastBefore alertFilter key)) := by
  have hspec := doCalcLimitAlerts_spec horder table time alertFilter key hfilter
  cases hquery : doCalcLimitAlerts groupOrder table time .lastBefore alertFilter key with
  | none =>
    rw [hquery] at hspec
    exact latestState_of_no_own hspec
  | some record =>
    rw [hquery] at hspec
    rcases hspec.exists_own with ⟨alert, halert, hdescription⟩
    change LatestState table key time record.description
    rcases hdescription with ⟨⟨shutdown, hmem, hafter, hdate⟩, hequal⟩ | ⟨hnone, hequal⟩
    · rw [hequal]
      apply latestState_of_shutdown ⟨shutdown, hmem, hdate⟩
      intro other hother hkey hotherDate
      exact ⟨shutdown, hmem, hdate,
        le_trans (halert.latest other hother hkey hotherDate) (le_of_lt hafter)⟩
    · left
      refine ⟨alert.toEntry, Or.inl ⟨alert, halert.mem, halert.key_eq, rfl⟩, halert.le, ?_,
        hequal⟩
      rintro other (⟨second, hsecond, hkey, rfl⟩ | ⟨second, hsecond, rfl⟩) hdate
      · exact halert.latest second hsecond hkey hdate
      · by_contra hnot
        exact hnone ⟨second, hsecond, not_le.mp hnot, hdate⟩

section Range

variable {table : AlertTable κ σ} {start stop : Int} {alertFilter : κ -> Bool} {key : κ}

theorem keyAlert_of_mem_calcAlerts
    (h : entry ∈ calcAlerts table start stop alertFilter key) : KeyAlert table key entry := by
  unfold calcAlerts at h
  split at h
  · rcases mem_append.mp ((mem_sortByDate Entry.date).mp h) with hown | hindependent
    · rcases mem_map.mp hown with ⟨alert, hmem, rfl⟩
      have hrange := mem_ownAlerts.mp hmem
      exact Or.inl ⟨alert, hrange.left, hrange.right.left, rfl⟩
    · rcases mem_map.mp hindependent with ⟨alert, hmem, rfl⟩
      exact Or.inr ⟨alert, (mem_independentAlerts.mp hmem).left, rfl⟩
  · cases h

theorem mem_calcAlerts_of_keyAlert (hfilter : alertFilter key = true)
    (hown : ownAlerts table start stop key ≠ [])
    (h : KeyAlert table key entry) (hstart : start ≤ entry.date) (hstop : entry.date ≤ stop) :
    entry ∈ calcAlerts table start stop alertFilter key := by
  unfold calcAlerts
  rw [if_pos ⟨hfilter, hown⟩, mem_sortByDate, mem_append]
  rcases h with ⟨alert, hmem, hkey, rfl⟩ | ⟨alert, hmem, rfl⟩
  · exact Or.inl (mem_map_of_mem (mem_ownAlerts.mpr ⟨hmem, hkey, hstart, hstop⟩))
  · exact Or.inr (mem_map_of_mem (mem_independentAlerts.mpr ⟨hmem, hstart, hstop⟩))

theorem calcAlerts_eq_nil (hown : ownAlerts table start stop key = []) :
    calcAlerts table start stop alertFilter key = [] := by
  unfold calcAlerts
  rw [if_neg (by simp [hown])]

theorem latestState_of_alert (hfilter : alertFilter key = true) (hle : time ≤ stop)
    (hmem : entry ∈ calcAlerts table start stop alertFilter key) (hdate : entry.date ≤ time)
    (before : StateDescription σ) :
    LatestState table key time (stateAt Entry.date Entry.description before
      (calcAlerts table start stop alertFilter key) time) := by
  have hown : ownAlerts table start stop key ≠ [] := by
    intro hnil
    rw [calcAlerts_eq_nil hnil] at hmem
    cases hmem
  rcases latest_max Entry.date hmem hdate with ⟨last, hlast, _⟩
  have hlastMem := latest_mem Entry.date hlast
  left
  refine ⟨last, keyAlert_of_mem_calcAlerts hlastMem.left, hlastMem.right, ?_, ?_⟩
  · intro other hother hotherDate
    by_cases hstart : start ≤ other.date
    · have hin := mem_calcAlerts_of_keyAlert hfilter hown hother hstart
        (le_trans hotherDate hle)
      rcases latest_max Entry.date hin hotherDate with ⟨second, hsecond, hsecondDate⟩
      rw [hlast] at hsecond
      cases hsecond
      exact hsecondDate
    · exact le_trans (le_of_lt (not_le.mp hstart)) (date_of_mem_calcAlerts hlastMem.left).left
  · simp [stateAt, hlast]

end Range

end Icsw.Kpi
