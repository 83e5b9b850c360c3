import Icsw.Kpi.AccountedState

set_option linter.unusedSectionVars false

/-!
# Well-formed time lines

A time line runs from the start of the range to its end, in order, and has the right state at each
instant..  The calculation returns such a time line for every identifier exactly if the downtimes of
each of them lie within the range, can be merged, and keep the states.
-/

namespace Icsw.Kpi

open Foundation List
open DatedList
open StatusHistory

variable {κ σ : Type} [DecidableEq κ] [DecidableEq σ] [KpiState σ]

structure WellFormed (table : AlertTable κ σ) (downtimeList : List (StartStopDuration κ))
    (start stop : Int) (key : κ) (timeLine : List TimeLineEntry) : Prop where
  ends : exists first middle last, timeLine = first :: middle ++ [last] ∧
    first.date = start ∧ last.date = stop ∧
      last.state = ((first :: middle).getLast (cons_ne_nil first middle)).state
  ordered : Sorted TimeLineEntry.date timeLine
  within : forall entry, entry ∈ timeLine -> start ≤ entry.date ∧ entry.date ≤ stop
  states : forall time, start ≤ time -> time < stop ->
    exists entry description, latest TimeLineEntry.date timeLine time = some entry ∧
      RightState table key downtimeList time description ∧
        entry.state = convertDescription description

def mergedTimeLine (start stop : Int) (before : StateDescription σ)
    (merged : List (Entry σ)) : List TimeLineEntry :=
  let first : TimeLineEntry := { date := start, state := convertDescription before }
  let changes := (dropRepeats Entry.description none merged).map entryToTimeLine
  first :: changes ++
    [{ date := stop,
       state := ((first :: changes).getLast (cons_ne_nil first changes)).state }]

theorem convertDescription_injective :
    Function.Injective (convertDescription : StateDescription σ -> KpiResult × StateType) := by
  intro first second h
  rcases Prod.mk.inj h with ⟨hstate, hstateType⟩
  exact Prod.ext (KpiState.convertState_injective hstate) hstateType

theorem initialState_eq (lastBefore : Option (LimitAlert σ)) :
    initialState lastBefore = convertDescription (descriptionBefore lastBefore) := by
  cases lastBefore <;> rfl

theorem timeLineOf_eq (start stop : Int) (entry : AlertListEntry σ) :
    timeLineOf start stop entry =
      if entry.alerts = none ∧ entry.lastBefore = none then none
      else some (mergedTimeLine start stop (descriptionBefore entry.lastBefore)
        (entry.alerts.getD [])) := by
  unfold timeLineOf mergedTimeLine
  rw [initialState_eq]
  simp only [Option.isNone_iff_eq_none]

section Merged

variable {start stop : Int} {before : StateDescription σ} {merged : List (Entry σ)}

theorem mem_mergedTimeLine {entry : TimeLineEntry} :
    entry ∈ mergedTimeLine start stop before merged ->
      entry.date = start ∨ entry.date = stop ∨
        exists alert, alert ∈ merged ∧ entry.date = alert.date := by
  intro hmem
  unfold mergedTimeLine at hmem
  rcases mem_append.mp hmem with hfront | hlast
  · rcases mem_cons.mp hfront with hfirst | hchange
    · rw [hfirst]
      exact Or.inl rfl
    · rcases mem_map.mp hchange with ⟨alert, halert, rfl⟩
      exact Or.inr (Or.inr ⟨alert,
        (dropRepeats_sublist Entry.description none merged).subset halert, rfl⟩)
  · rw [mem_singleton.mp hlast]
    exact Or.inr (Or.inl rfl)

theorem change_mem_mergedTimeLine {alert : Entry σ}
    (h : alert ∈ dropRepeats Entry.description none merged) :
    entryToTimeLine alert ∈ mergedTimeLine start stop before merged := by
  unfold mergedTimeLine
  exact mem_append_left _ (mem_cons_of_mem _ (mem_map_of_mem h))

theorem latest_mergedTimeLine (before : StateDescription σ) (hsorted : Sorted Entry.date merged)
    (hwithin : forall alert, alert ∈ dropRepeats Entry.description none merged ->
      start ≤ alert.date) {time : Int} (hstart : start ≤ time) (hstop : time < stop) :
    exists entry,
      latest TimeLineEntry.date (mergedTimeLine start stop before merged) time = some entry ∧
        entry.state =
          convertDescription (stateAt Entry.date Entry.description before merged time) := by
  have hstate : stateAt TimeLineEntry.date TimeLineEntry.state (convertDescription before)
      ((dropRepeats Entry.description none merged).map entryToTimeLine) time =
      convertDescription (stateAt Entry.date Entry.description before merged time) := by
    have hdate : forall alert : Entry σ, (entryToTimeLine alert).date = alert.date := fun _ => rfl
    have hvalue : forall alert : Entry σ,
        (entryToTimeLine alert).state = convertDescription alert.description :=
      fun _ => rfl
    rw [stateAt_map Entry.date Entry.description hdate hvalue,
      stateAt_dropRepeats Entry.date Entry.description (Or.inl rfl) hsorted]
  unfold mergedTimeLine
  simp only [latest_append, latest, newer_none_right, pick, if_neg (not_le.mpr hstop),
    if_pos hstart]
  rw [stateAt] at hstate
  cases hlast : latest TimeLineEntry.date
      ((dropRepeats Entry.description none merged).map entryToTimeLine) time with
  | none =>
    rw [hlast] at hstate
    exact ⟨_, rfl, hstate⟩
  | some last =>
    rw [hlast] at hstate
    rcases mem_map.mp (latest_mem TimeLineEntry.date hlast).left with
      ⟨alert, halert, rfl⟩
    have hnot : ¬ (entryToTimeLine alert).date < start := not_lt.mpr (hwithin alert halert)
    refine ⟨entryToTimeLine alert, ?_, hstate⟩
    simp [newer, hnot]

theorem sorted_mergedTimeLine (hsorted : Sorted Entry.date merged) (hle : start ≤ stop)
    (hwithin : forall alert, alert ∈ merged -> start ≤ alert.date ∧ alert.date ≤ stop) :
    Sorted TimeLineEntry.date (mergedTimeLine start stop before merged) := by
  have hsub := dropRepeats_sublist Entry.description none merged
  have hchanges : Sorted TimeLineEntry.date
      ((dropRepeats Entry.description none merged).map entryToTimeLine) :=
    pairwise_map.mpr (hsorted.sublist hsub)
  have hdates : forall entry, entry ∈ (dropRepeats Entry.description none merged).map
      entryToTimeLine -> start ≤ entry.date ∧ entry.date ≤ stop := by
    intro entry hmem
    rcases mem_map.mp hmem with ⟨alert, halert, rfl⟩
    exact hwithin alert (hsub.subset halert)
  unfold mergedTimeLine Sorted
  rw [pairwise_append, pairwise_cons]
  refine ⟨⟨fun entry hmem => (hdates entry hmem).left, hchanges⟩,
    pairwise_singleton _ _, ?_⟩
  intro entry hmem last hlast
  rw [mem_singleton.mp hlast]
  rcases mem_cons.mp hmem with heq | htail
  · rw [heq]
    exact hle
  · exact (hdates entry htail).right

end Merged

/-- The downtimes lie within the range, and none of them covers its start. -/
def Inside (downtimeList : List (StartStopDuration κ)) (start stop : Int) : Prop :=
  forall downtime, downtime ∈ downtimeList ->
    (start < downtime.start ∨ (downtime.start = start ∧ downtime.stop ≤ start)) ∧
      (downtime.endEntry ≠ none -> downtime.stop ≤ stop)

section Range

variable {table : AlertTable κ σ} {alertFilter : κ -> Bool} {key : κ} {now start stop : Int}
  {downtimeList : List (StartStopDuration κ)} {before : StateDescription σ}

theorem inDowntime_eq_false_iff (time : Int) :
    inDowntime downtimeList time = false <->
      forall downtime, downtime ∈ downtimeList ->
        ¬ (downtime.start ≤ time ∧ time < downtime.stop) := by
  simp [inDowntime]

theorem getLast_of_late_stop (h : Preprocessed now start stop downtimeList)
    {downtime : StartStopDuration κ} (hmem : downtime ∈ downtimeList)
    (hlate : stop < downtime.stop) : downtimeList.getLast? = some downtime := by
  rcases append_of_mem hmem with ⟨earlier, later, hsplit⟩
  cases later with
  | nil => simp [hsplit]
  | cons next rest =>
    have hordered := h.ordered
    rw [hsplit] at hordered
    have hpair := (pairwise_cons.mp
      (pairwise_append.mp hordered).right.left).left next mem_cons_self
    have hnext := (h.each next (by simp [hsplit])).start_le
    exact absurd (lt_of_lt_of_le hlate (le_trans hpair.right hnext)) (lt_irrefl stop)

variable {alerts : List (Entry σ)} (halerts : calcAlerts table start stop alertFilter key = alerts)
include halerts

theorem date_of_mem_merged (h : Preprocessed now start stop downtimeList)
    (hinside : Inside downtimeList start stop) {entry : Entry σ}
    (hmem : entry ∈ mergeDowntimes alerts before
      downtimeList) : start ≤ entry.date ∧ entry.date ≤ stop := by
  rcases mem_mergeDowntimes.mp hmem with ⟨halert, _⟩ | ⟨downtime, hdowntime, hin⟩
  · exact date_of_mem_calcAlerts (halerts ▸ halert)
  · have hspec := h.each downtime hdowntime
    have hrange := hinside downtime hdowntime
    have hstart : start ≤ downtime.start := by
      rcases hrange.left with hlt | ⟨heq, _⟩
      · exact le_of_lt hlt
      · exact le_of_eq heq.symm
    rcases mem_entriesOf hin with heq | ⟨stopEntry, hend, heq⟩
    · rw [heq]
      have hdate : (startEntryOf downtime : Entry σ).date = downtime.start := hspec.start_date
      rw [hdate]
      exact ⟨hstart, hspec.start_le⟩
    · have hdates := hspec.closed stopEntry hend
      have hdate : (endEntryOf alerts before downtime
          stopEntry).date = downtime.stop := hdates.left
      rw [heq, hdate]
      exact ⟨hdates.right.right, hrange.right (by simp [hend])⟩

theorem resumedState_ne_plannedDown (hbefore : LatestState table key start before)
    (downtime : StartStopDuration κ) :
    resumedState alerts before downtime ≠
      plannedDownDescription σ := by
  unfold resumedState stateAt
  cases hlast : latest Entry.date alerts
      downtime.start with
  | none => exact hbefore.ne_plannedDown
  | some alert =>
    exact (keyAlert_of_mem_calcAlerts (halerts ▸ (latest_mem Entry.date hlast).left)).description_ne

/--
If the time line stays within the range, so do the downtimes: an entry outside of it could only be
left out as a repeated state.
-/
theorem inside_of_within (h : Preprocessed now start stop downtimeList)
    (hbefore : LatestState table key start before)
    (hstartFree : inDowntime downtimeList start = false)
    (hwithin : forall alert, alert ∈ dropRepeats Entry.description none
      (mergeDowntimes alerts before downtimeList) ->
      start ≤ alert.date ∧ alert.date ≤ stop) : Inside downtimeList start stop := by
  have hstate : forall time,
      stateAt Entry.date Entry.description before
        (dropRepeats Entry.description none
          (mergeDowntimes alerts before downtimeList))
        time =
      accountedState alerts before downtimeList
        time := by
    intro time
    rw [stateAt_dropRepeats Entry.date Entry.description (Or.inl rfl)
      (sorted_mergeDowntimes _ _ _), stateAt_mergeDowntimes _ _ _ h]
  intro downtime hmem
  have hspec := h.each downtime hmem
  constructor
  · have hstart : start ≤ downtime.start := by
      by_contra hnot
      have hlt : downtime.start < start := not_le.mp hnot
      have hfront := accountedState_front h
        (fun alert halert => (date_of_mem_calcAlerts (halerts ▸ halert)).left)
        (startEntryOf_mem_mergeDowntimes alerts before
          hmem)
        (le_of_eq hspec.start_date) hlt
      rw [← hstate, stateAt_of_forall_later] at hfront
      · exact hbefore.ne_plannedDown hfront
      · intro alert halert
        exact lt_of_lt_of_le hlt (hwithin alert halert).left
    rcases lt_or_eq_of_le hstart with hlt | heq
    · exact Or.inl hlt
    · refine Or.inr ⟨heq.symm, ?_⟩
      by_contra hnot
      exact (inDowntime_eq_false_iff start).mp hstartFree downtime hmem
        ⟨le_of_eq heq.symm, not_le.mp hnot⟩
  · intro hclosed
    by_contra hnot
    have hlate : stop < downtime.stop := not_le.mp hnot
    have hlast := getLast_of_late_stop h hmem hlate
    have hback : accountedState alerts before
        downtimeList stop = plannedDownDescription σ :=
      accountedState_back h hlast (le_refl stop) hlate
    have hstarted : lastStarted downtimeList downtime.stop = some downtime := by
      rw [lastStarted_of_forall_le downtimeList, hlast]
      intro other hother
      exact le_trans (h.each other hother).start_le (le_of_lt hlate)
    have hsame : accountedState alerts before
        downtimeList stop =
        accountedState alerts before
          downtimeList downtime.stop := by
      rw [← hstate, ← hstate]
      apply stateAt_of_no_item Entry.date Entry.description (le_of_lt hlate)
      rintro alert halert ⟨hafter, _⟩
      exact absurd hafter (not_lt.mpr (hwithin alert halert).right)
    rw [hback, accountedState_at_stop hclosed hstarted] at hsame
    exact resumedState_ne_plannedDown halerts hbefore downtime hsame.symm

theorem wellFormed_mergedTimeLine_iff (hfilter : alertFilter key = true) (hlt : start < stop)
    (h : Preprocessed now start stop downtimeList)
    (hbefore : BeforeSpec table alerts before
      downtimeList start key) (hstartFree : inDowntime downtimeList start = false) :
    WellFormed table downtimeList start stop key
        (mergedTimeLine start stop before
          (mergeDowntimes alerts before
            downtimeList)) <->
      Inside downtimeList start stop ∧
        StatesKept table alerts before downtimeList
          start stop key := by
  have hsorted := sorted_mergeDowntimes alerts before
    downtimeList
  constructor
  · intro hwell
    have hwithin : forall alert, alert ∈ dropRepeats Entry.description none
        (mergeDowntimes alerts before
          downtimeList) -> start ≤ alert.date ∧ alert.date ≤ stop := by
      intro alert halert
      exact hwell.within _ (change_mem_mergedTimeLine halert)
    refine ⟨inside_of_within halerts h hbefore.latest hstartFree hwithin, ?_⟩
    apply statesKept_of_right halerts h
    intro time hstart hstop
    rcases hwell.states time hstart hstop with ⟨entry, description, hlatest, hright, hequal⟩
    rcases latest_mergedTimeLine before hsorted
      (fun alert halert => (hwithin alert halert).left) hstart hstop with
      ⟨other, hother, hstate⟩
    rw [hlatest] at hother
    cases hother
    rw [hequal, stateAt_mergeDowntimes _ _ _ h] at hstate
    rwa [convertDescription_injective hstate] at hright
  · rintro ⟨hinside, hkept⟩
    have hdates : forall alert, alert ∈ mergeDowntimes
        alerts before downtimeList ->
        start ≤ alert.date ∧ alert.date ≤ stop :=
      fun alert halert => date_of_mem_merged halerts h hinside halert
    refine ⟨⟨_, _, _, rfl, rfl, rfl, rfl⟩,
      sorted_mergedTimeLine hsorted (le_of_lt hlt) hdates, ?_, ?_⟩
    · intro entry hmem
      rcases mem_mergedTimeLine hmem with hfirst | hlast | ⟨alert, halert, hdate⟩
      · rw [hfirst]
        exact ⟨le_refl start, le_of_lt hlt⟩
      · rw [hlast]
        exact ⟨le_of_lt hlt, le_refl stop⟩
      · rw [hdate]
        exact hdates alert halert
    · intro time hstart hstop
      rcases latest_mergedTimeLine before hsorted
        (fun alert halert => (hdates alert
          ((dropRepeats_sublist Entry.description none _).subset halert)).left) hstart hstop
        with ⟨entry, hlatest, hstate⟩
      refine ⟨entry, _, hlatest, ?_, hstate⟩
      rw [stateAt_mergeDowntimes _ _ _ h]
      exact accountedState_right halerts hfilter h hbefore hkept hstart hstop

end Range

structure KeyRange (κ σ : Type) where
  alerts : List (Entry σ)
  before : StateDescription σ
  downtimeList : List (StartStopDuration κ)

def keyRange (ctx : TimeLineContext κ σ) (table : AlertTable κ σ)
    (downtimes : List (StartStopRow κ)) (identifiers : List κ) (start stop : Int) (key : κ) :
    KeyRange κ σ where
  alerts := calcAlerts table start stop (identifierFilter identifiers) key
  before := descriptionBefore
    (doCalcLimitAlerts ctx.groupOrder table start .lastBefore (identifierFilter identifiers) key)
  downtimeList := filteredDowntimes ctx.now downtimes (identifierFilter identifiers) start stop
    key

/--
The key has an alert or a downtime, its downtimes lie within the range, ask for no state from
before it, and keep the states.
-/
structure KeyRegular (table : AlertTable κ σ) (range : KeyRange κ σ) (start stop : Int)
    (key : κ) : Prop where
  found : (exists alert, alert ∈ table.own ∧ alert.key = key ∧ alert.date ≤ stop) ∨
    range.downtimeList ≠ []
  inside : Inside range.downtimeList start stop
  unpackable : (forall alert, alert ∈ table.own -> alert.key = key -> start < alert.date) ∨
    forall downtime, downtime ∈ range.downtimeList -> downtime.endEntry ≠ none ->
      exists alert, alert ∈ range.alerts ∧ alert.date ≤ downtime.start
  states : StatesKept table range.alerts range.before range.downtimeList start stop key

theorem inDowntime_of_inside {downtimeList : List (StartStopDuration κ)} {start stop : Int}
    (h : Inside downtimeList start stop) : inDowntime downtimeList start = false := by
  apply (inDowntime_eq_false_iff start).mpr
  rintro downtime hmem ⟨hstart, hstop⟩
  rcases (h downtime hmem).left with hlt | ⟨_, hle⟩
  · exact absurd hstart (not_le.mpr hlt)
  · exact absurd hstop (not_lt.mpr hle)

section Key

variable {ctx : TimeLineContext κ σ} {table : AlertTable κ σ}
  {downtimes : List (StartStopRow κ)} {identifiers : List κ} {start stop : Int} {key : κ}
  {range : KeyRange κ σ} (hrange : keyRange ctx table downtimes identifiers start stop key = range)
include hrange

theorem timeLine_found_iff (hmem : key ∈ identifiers) (hle : start ≤ stop) :
    (range.downtimeList = [] ∧ range.alerts = []) ∧
      doCalcLimitAlerts ctx.groupOrder table start .lastBefore (identifierFilter identifiers)
        key = none <->
    ¬ ((exists alert, alert ∈ table.own ∧ alert.key = key ∧ alert.date ≤ stop) ∨
      range.downtimeList ≠ []) := by
  subst hrange
  have hfilter : identifierFilter identifiers key = true := by simp [identifierFilter, hmem]
  rw [doCalcLimitAlerts_eq_none_iff ctx.groupOrder_perm table start _ key hfilter]
  constructor
  · rintro ⟨⟨hnil, halerts⟩, hlater⟩ (⟨alert, halert, hkey, hdate⟩ | hne)
    · have hown : alert ∈ ownAlerts table start stop key :=
        mem_ownAlerts.mpr ⟨halert, hkey, le_of_lt (hlater alert halert hkey), hdate⟩
      have hin : alert.toEntry ∈ calcAlerts table start stop
          (identifierFilter identifiers) key :=
        mem_calcAlerts_of_keyAlert hfilter (ne_nil_of_mem hown)
          (Or.inl ⟨alert, halert, hkey, rfl⟩) (le_of_lt (hlater alert halert hkey)) hdate
      change calcAlerts table start stop (identifierFilter identifiers) key = [] at halerts
      rw [halerts] at hin
      cases hin
    · exact hne hnil
  · intro hnot
    have hnone : forall alert, alert ∈ table.own -> alert.key = key -> stop < alert.date := by
      intro alert halert hkey
      exact not_le.mp (fun hdate => hnot (Or.inl ⟨alert, halert, hkey, hdate⟩))
    refine ⟨⟨?_, ?_⟩, ?_⟩
    · by_contra hne
      exact hnot (Or.inr hne)
    · apply calcAlerts_eq_nil
      apply eq_nil_iff_forall_not_mem.mpr
      intro alert hin
      have hrange := mem_ownAlerts.mp hin
      exact absurd hrange.right.right.right
        (not_le.mpr (hnone alert hrange.left hrange.right.left))
    · intro alert halert hkey
      exact lt_of_le_of_lt hle (hnone alert halert hkey)

theorem beforeSpec_of_unpackable (hmem : key ∈ identifiers)
    (h : Unpackable range.alerts
      (doCalcLimitAlerts ctx.groupOrder table start .lastBefore (identifierFilter identifiers) key)
      range.downtimeList) :
    BeforeSpec table range.alerts range.before range.downtimeList start key := by
  subst hrange
  constructor
  · exact latestState_descriptionBefore ctx.groupOrder_perm table start
      (by simp [identifierFilter, hmem])
  · rcases h with hnone | hall
    · refine Or.inl ⟨?_, ?_⟩
      · exact (doCalcLimitAlerts_eq_none_iff ctx.groupOrder_perm table start _ key
          (by simp [identifierFilter, hmem])).mp hnone
      · simp only [keyRange, hnone]
        rfl
    · exact Or.inr hall

theorem timeLineOf_of_mergeable
    (h : Mergeable ctx.now ctx.groupOrder table downtimes (identifierFilter identifiers)
      start stop key) :
    exists entry,
      alertListEntry ctx.now ctx.groupOrder table downtimes (identifierFilter identifiers)
          start stop key = .ok entry ∧
        timeLineOf start stop entry =
          if (range.downtimeList = [] ∧ range.alerts = []) ∧
              doCalcLimitAlerts ctx.groupOrder table start .lastBefore
                (identifierFilter identifiers) key = none then none
          else some (mergedTimeLine start stop range.before
            (mergeDowntimes range.alerts range.before range.downtimeList)) := by
  subst hrange
  refine ⟨_, alertListEntry_eq_ok h, ?_⟩
  rw [timeLineOf_eq]
  simp only [keyRange]
  by_cases hnil : filteredDowntimes ctx.now downtimes (identifierFilter identifiers) start
      stop key = [] ∧ calcAlerts table start stop (identifierFilter identifiers) key = []
  · simp only [hnil.left, hnil.right, and_self, if_true, true_and]
    rfl
  · simp only [hnil, false_and, reduceCtorEq, if_false, Option.getD_some]

theorem keyTimeLine_iff (hmem : key ∈ identifiers) (hlt : start < stop) :
    (exists entry timeLine,
      alertListEntry ctx.now ctx.groupOrder table downtimes (identifierFilter identifiers)
          start stop key = .ok entry ∧
        timeLineOf start stop entry = some timeLine ∧
          WellFormed table range.downtimeList start stop key timeLine) <->
      KeyRegular table range start stop key := by
  have hfilter : identifierFilter identifiers key = true := by simp [identifierFilter, hmem]
  have hpre := filteredDowntimes_preprocessed ctx.now downtimes (identifierFilter identifiers)
    start stop key
  have hlimit := doCalcLimitAlerts_eq_none_iff ctx.groupOrder_perm table start _ key hfilter
  have hfound := timeLine_found_iff hrange hmem (le_of_lt hlt)
  subst hrange
  constructor
  · rintro ⟨entry, timeLine, hentry, htimeLine, hwell⟩
    have hmergeable := mergeable_of_ok hentry
    rcases timeLineOf_of_mergeable rfl hmergeable with ⟨other, hother, hline⟩
    rw [hentry] at hother
    cases hother
    rw [htimeLine] at hline
    split at hline
    · cases hline
    · rename_i hsome
      cases hline
      have hkept := (wellFormed_mergedTimeLine_iff rfl hfilter hlt hpre
        (beforeSpec_of_unpackable rfl hmem hmergeable.left) hmergeable.right).mp hwell
      refine ⟨?_, hkept.left, ?_, hkept.right⟩
      · by_contra hnot
        exact hsome (hfound.mpr hnot)
      · rcases hmergeable.left with hnone | hall
        · exact Or.inl (hlimit.mp hnone)
        · exact Or.inr hall
  · intro hregular
    have hmergeable : Mergeable ctx.now ctx.groupOrder table downtimes
        (identifierFilter identifiers) start stop key := by
      refine ⟨?_, inDowntime_of_inside hregular.inside⟩
      rcases hregular.unpackable with hnone | hall
      · exact Or.inl (hlimit.mpr hnone)
      · exact Or.inr hall
    rcases timeLineOf_of_mergeable rfl hmergeable with ⟨entry, hentry, hline⟩
    rw [if_neg (fun hnone => hfound.mp hnone hregular.found)] at hline
    refine ⟨entry, _, hentry, hline, ?_⟩
    exact (wellFormed_mergedTimeLine_iff rfl hfilter hlt hpre
      (beforeSpec_of_unpackable rfl hmem hmergeable.left) hmergeable.right).mpr
      ⟨hregular.inside, hregular.states⟩

end Key

theorem keyTimeLine_eq_ok_iff {ctx : TimeLineContext κ σ} {table : AlertTable κ σ}
    {downtimes : List (StartStopRow κ)} {identifiers : List κ} {start stop : Int} {key : κ}
    {result : Option (κ × List TimeLineEntry)} :
    keyTimeLine ctx table downtimes identifiers start stop key = .ok result <->
      exists entry,
        alertListEntry ctx.now ctx.groupOrder table downtimes (identifierFilter identifiers)
            start stop key = .ok entry ∧
          result = (timeLineOf start stop entry).map (fun timeLine => (key, timeLine)) := by
  unfold keyTimeLine
  cases hentry : alertListEntry ctx.now ctx.groupOrder table downtimes
      (identifierFilter identifiers) start stop key with
  | error raised =>
    constructor
    · intro h
      cases h
    · rintro ⟨entry, h, _⟩
      cases h
  | ok entry =>
    constructor
    · intro h
      cases h
      exact ⟨entry, rfl, rfl⟩
    · rintro ⟨other, h, rfl⟩
      cases h
      rfl

def AllWellFormed (ctx : TimeLineContext κ σ) (table : AlertTable κ σ)
    (downtimes : List (StartStopRow κ)) (identifiers : List κ) (start stop : Int)
    (timeLines : List (κ × List TimeLineEntry)) : Prop :=
  forall key, key ∈ identifiers ->
    (exists timeLine, (key, timeLine) ∈ timeLines) ∧
      forall timeLine, (key, timeLine) ∈ timeLines ->
        WellFormed table (keyRange ctx table downtimes identifiers start stop key).downtimeList
          start stop key timeLine

/--
The calculation succeeds with well-formed time lines for all identifiers exactly
if all identifiers are regular.
-/
theorem calculateTimeLines_wellFormed_iff (ctx : TimeLineContext κ σ)
    (table : AlertTable κ σ) (downtimes : List (StartStopRow κ)) {identifiers : List κ}
    (hne : identifiers ≠ []) {start stop : Int} (hlt : start < stop) :
    (exists timeLines,
      calculateTimeLines ctx table downtimes identifiers start stop = .ok timeLines ∧
        AllWellFormed ctx table downtimes identifiers start stop timeLines) <->
      forall key, key ∈ identifiers ->
        KeyRegular table (keyRange ctx table downtimes identifiers start stop key) start stop
          key := by
  unfold calculateTimeLines
  rw [if_neg hne]
  constructor
  · rintro ⟨timeLines, hok, hall⟩ key hmem
    cases hresults : identifiers.mapM
        (keyTimeLine ctx table downtimes identifiers start stop) with
    | error raised =>
      rw [hresults] at hok
      cases hok
    | ok results =>
      rw [hresults] at hok
      cases hok
      rcases (hall key hmem).left with ⟨timeLine, hin⟩
      rcases mem_filterMap.mp hin with ⟨result, hresult, hsome⟩
      rcases (mapM_ok_mem hresults).right result hresult with ⟨other, _, hother⟩
      rcases keyTimeLine_eq_ok_iff.mp hother with ⟨entry, hentry, hequal⟩
      cases hline : timeLineOf start stop entry with
      | none =>
        rw [hequal, hline] at hsome
        cases hsome
      | some line =>
        rw [hequal, hline] at hsome
        cases hsome
        exact (keyTimeLine_iff rfl hmem hlt).mp
          ⟨entry, timeLine, hentry, hline, (hall key hmem).right timeLine hin⟩
  · intro hregular
    have hbody : forall key, key ∈ identifiers ->
        exists timeLine,
          keyTimeLine ctx table downtimes identifiers start stop key =
              .ok (some (key, timeLine)) ∧
            WellFormed table
              (keyRange ctx table downtimes identifiers start stop key).downtimeList
              start stop key timeLine := by
      intro key hmem
      rcases (keyTimeLine_iff rfl hmem hlt).mpr (hregular key hmem) with
        ⟨entry, timeLine, hentry, hline, hwell⟩
      refine ⟨timeLine, keyTimeLine_eq_ok_iff.mpr ⟨entry, hentry, ?_⟩, hwell⟩
      rw [hline]
      rfl
    have hreturns : forall key, key ∈ identifiers -> exists result,
        keyTimeLine ctx table downtimes identifiers start stop key = .ok result := by
      intro key hmem
      rcases hbody key hmem with ⟨timeLine, hline, _⟩
      exact ⟨_, hline⟩
    rcases exists_mapM_ok hreturns with ⟨results, hresults⟩
    rw [hresults]
    refine ⟨_, rfl, ?_⟩
    intro key hmem
    rcases hbody key hmem with ⟨timeLine, hline, hwell⟩
    constructor
    · rcases (mapM_ok_mem hresults).left key hmem with ⟨result, hresult, hok⟩
      rw [hline] at hok
      cases hok
      exact ⟨timeLine, mem_filterMap.mpr ⟨_, hresult, rfl⟩⟩
    · intro other hother
      rcases mem_filterMap.mp hother with ⟨result, hresult, hsome⟩
      rcases (mapM_ok_mem hresults).right result hresult with ⟨second, hsecond, hok⟩
      rcases hbody second hsecond with ⟨secondLine, hsecondLine, hsecondWell⟩
      rw [hsecondLine] at hok
      cases hok
      cases hsome
      exact hsecondWell

def timeLineContextAt (now : Int) : TimeLineContext κ σ where
  now := now
  groupOrder := id
  groupOrder_perm := fun groups => Perm.of_eq (id_eq groups)

/-- A host that goes down ten seconds after the start of the range. -/
def hostTable : AlertTable HostKey HostAlertState where
  own := [{ key := some 1, date := 10, state := .down, stateType := .hard, msg := [] }]
  independent := []

def hostDowntimes (start stop : Int) : List (StartStopRow HostKey) :=
  [{ key := some 1, date := start, startStop := .start, msg := [] },
   { key := some 1, date := stop, startStop := .stop, msg := [] }]

theorem keyAlert_hostTable {entry : Entry HostAlertState} (h : KeyAlert hostTable (some 1) entry) :
    entry = { date := 10, state := .down, stateType := .hard, msg := [] } := by
  rcases h with ⟨alert, hmem, _, rfl⟩ | ⟨alert, hmem, _⟩
  · rw [mem_singleton.mp hmem]
    rfl
  · cases hmem

/-- A downtime within the range, after the alert. -/
theorem calculateTimeLines_downtime_inside :
    exists timeLines,
      calculateTimeLines (timeLineContextAt 1000) hostTable (hostDowntimes 20 30) [some 1] 0
          100 = .ok timeLines ∧
        AllWellFormed (timeLineContextAt 1000) hostTable (hostDowntimes 20 30) [some 1] 0 100
          timeLines := by
  apply (calculateTimeLines_wellFormed_iff (timeLineContextAt 1000) hostTable
    (hostDowntimes 20 30) (cons_ne_nil (some 1) []) (by decide)).mpr
  intro key hkey
  rw [mem_singleton] at hkey
  subst hkey
  have hlist : (keyRange (timeLineContextAt 1000) hostTable (hostDowntimes 20 30) [some 1] 0
      100 (some 1)).downtimeList =
      [{ start := 20, stop := 30,
         startEntry := { key := some 1, date := 20, startStop := .start, msg := [] },
         endEntry := some { key := some 1, date := 30, startStop := .stop, msg := [] } }] := by
    decide
  refine ⟨Or.inl ⟨_, mem_singleton_self _, rfl, by decide⟩, ?_, Or.inl ?_, ?_, ?_,
    Or.inl (by decide)⟩
  · intro downtime hmem
    rw [hlist, mem_singleton] at hmem
    subst hmem
    exact ⟨Or.inl (by decide), fun _ => by decide⟩
  · intro alert hmem _
    rw [mem_singleton.mp hmem]
    decide
  · intro downtime hmem _ _ _
    rw [hlist, mem_singleton] at hmem
    subst hmem
    left
    refine ⟨{ date := 10, state := .down, stateType := .hard, msg := [] },
      Or.inl ⟨_, mem_singleton_self _, rfl, rfl⟩, by decide, ?_, by decide⟩
    intro other hother _
    rw [keyAlert_hostTable hother]
  · intro downtime hmem hopen
    rw [hlist, mem_singleton] at hmem
    subst hmem
    cases hopen

/-- A downtime that covers the start of the range makes the calculation fail. -/
theorem calculateTimeLines_downtime_at_start :
    ¬ exists timeLines,
      calculateTimeLines (timeLineContextAt 1000) hostTable (hostDowntimes (-10) 5) [some 1]
          0 100 = .ok timeLines ∧
        AllWellFormed (timeLineContextAt 1000) hostTable (hostDowntimes (-10) 5) [some 1] 0
          100 timeLines := by
  rintro ⟨timeLines, hok, _⟩
  have herror : calculateTimeLines (timeLineContextAt 1000) hostTable (hostDowntimes (-10) 5)
      [some 1] 0 100 = .error .attributeError := rfl
  rw [herror] at hok
  cases hok

end Icsw.Kpi
