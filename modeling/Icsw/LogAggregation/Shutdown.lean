import Icsw.LogAggregation.HourResult

set_option linter.unusedSectionVars false

/-!
# Icinga shutdowns in an hour

A shutdown of Icinga makes the state of every key undetermined until the key's
next alert.  The rows of an hour account for it if and only if the key has an
alert of its own in the hour, or nothing changes by the shutdown.
-/

namespace Icsw.LogAggregation

open Foundation List
open DatedList
open StatusHistory

variable {κ σ : Type} [DecidableEq κ] [DecidableEq σ] [IcingaState σ]

def hourEntries (table : AlertTable κ σ) (startTime endTime : Int) (key : κ) : List (Entry σ) :=
  (ownAlerts table startTime endTime key).map RawAlert.toEntry ++
    (independentAlerts table startTime endTime).map IndependentAlert.toEntry

def stateWithShutdowns (table : AlertTable κ σ) (startTime endTime : Int) (key : κ)
    (before : StateDescription σ) (time : Int) : StateDescription σ :=
  stateAt Entry.date Entry.description before (hourEntries table startTime endTime key) time

variable {startTime endTime : Int} {table : AlertTable κ σ} {key : κ}

theorem date_of_mem_hourEntries
    {entry : Entry σ} (h : entry ∈ hourEntries table startTime endTime key) :
    startTime ≤ entry.date ∧ entry.date ≤ endTime := by
  rcases mem_append.mp h with hown | hindependent
  · rcases mem_map.mp hown with ⟨alert, hmem, rfl⟩
    have hrange := (mem_filter.mp hmem).right
    simp only [decide_eq_true_eq] at hrange
    exact hrange.right
  · rcases mem_map.mp hindependent with ⟨alert, hmem, rfl⟩
    have hrange := (mem_filter.mp hmem).right
    simp only [decide_eq_true_eq] at hrange
    exact hrange

theorem stateWithShutdowns_after_shutdown {before : StateDescription σ}
    {shutdown : IndependentAlert} (hmem : shutdown ∈ table.independent)
    (hlo : startTime ≤ shutdown.date) (hhi : shutdown.date ≤ endTime) {time : Int}
    (hle : shutdown.date ≤ time) (hnone : forall alert, alert ∈ table.own -> alert.key = key ->
      ¬ (shutdown.date < alert.date ∧ alert.date ≤ time)) :
    stateWithShutdowns table startTime endTime key before time =
      undeterminedDescription σ := by
  have hin : (IndependentAlert.toEntry shutdown : Entry σ) ∈
      (independentAlerts table startTime endTime).map IndependentAlert.toEntry := by
    apply mem_map.mpr
    refine ⟨shutdown, ?_, rfl⟩
    apply mem_filter.mpr
    exact ⟨hmem, by simp [hlo, hhi]⟩
  rcases latest_max Entry.date hin hle with ⟨last, hlast, hdate⟩
  have hundetermined : last.description = undeterminedDescription σ := by
    rcases mem_map.mp (latest_mem Entry.date hlast).left with ⟨other, _, rfl⟩
    rfl
  unfold stateWithShutdowns hourEntries
  rw [stateAt, latest_append, hlast]
  cases hown : latest Entry.date
      ((ownAlerts table startTime endTime key).map RawAlert.toEntry) time with
  | none => simp [hundetermined]
  | some own =>
    have hownMem := latest_mem Entry.date hown
    rcases mem_map.mp hownMem.left with ⟨alert, halert, rfl⟩
    have hfilter := mem_filter.mp halert
    simp only [decide_eq_true_eq] at hfilter
    have hnot : ¬ last.date < (RawAlert.toEntry alert).date := by
      intro hlt
      apply hnone alert hfilter.left hfilter.right.left
      exact ⟨lt_of_le_of_lt hdate hlt, hownMem.right⟩
    simp [newer, hnot, hundetermined]

/--
Every state gets the part of the hour during which it is in force, and from a shutdown to the key's
next alert that is the undetermined state.
-/
def ShutdownAccounted (table : AlertTable κ σ) (startTime endTime : Int)
    (before : StateDescription σ) (rows : List (AggregatedRow κ σ)) (key : κ) : Prop :=
  (forall description,
    shareOf rows key description * ((endTime - startTime : Int) : ℚ) =
      (ticks startTime endTime (fun t =>
        stateWithShutdowns table startTime endTime key before t = description) : ℚ)) ∧
  forall shutdown, shutdown ∈ table.independent ->
    startTime ≤ shutdown.date -> shutdown.date < endTime ->
    forall t, shutdown.date ≤ t -> t < endTime ->
      (forall alert, alert ∈ table.own -> alert.key = key ->
        ¬ (shutdown.date < alert.date ∧ alert.date ≤ t)) ->
      stateWithShutdowns table startTime endTime key before t = undeterminedDescription σ

/-- The key has an alert in the hour, or no shutdown in the hour changes its state. -/
def ShutdownHarmless (table : AlertTable κ σ) (startTime endTime : Int)
    (before : StateDescription σ) (key : κ) : Prop :=
  (exists alert, alert ∈ table.own ∧ alert.key = key ∧
    startTime ≤ alert.date ∧ alert.date ≤ endTime) ∨
  before = undeterminedDescription σ ∨
  forall shutdown, shutdown ∈ table.independent ->
    ¬ (startTime ≤ shutdown.date ∧ shutdown.date < endTime)

theorem ownAlerts_ne_nil_iff (table : AlertTable κ σ) (startTime endTime : Int) (key : κ) :
    ownAlerts table startTime endTime key ≠ [] <->
      exists alert, alert ∈ table.own ∧ alert.key = key ∧
        startTime ≤ alert.date ∧ alert.date ≤ endTime := by
  unfold ownAlerts
  constructor
  · intro hne
    rcases exists_mem_of_ne_nil _ hne with ⟨alert, hmem⟩
    have hfilter := mem_filter.mp hmem
    simp only [decide_eq_true_eq] at hfilter
    exact ⟨alert, hfilter⟩
  · rintro ⟨alert, hmem, hrange⟩
    apply ne_nil_of_mem (a := alert)
    exact mem_filter.mpr ⟨hmem, by simpa using hrange⟩

variable {tables : RawTables κ σ}

section

variable (hlt : startTime < endTime)
include hlt

theorem keyResult_get {ctx : QueryContext κ σ}
    (hdowntimes : tables.downtimes = []) (before description : StateDescription σ) :
    (keyResult ctx tables startTime endTime before key).1.get description *
        ((endTime - startTime : Int) : ℚ) =
      (walkTime Entry.date Entry.description startTime endTime before description
        (calcAlerts tables.alerts startTime endTime (fun _ => true) key) : ℚ) := by
  have hnone : downtimesOf ctx tables startTime endTime key = [] := by
    unfold downtimesOf
    rw [hdowntimes]
    rfl
  have hne : ((endTime - startTime : Int) : ℚ) ≠ 0 := by
    rw [Int.cast_ne_zero]
    omega
  unfold keyResult
  rw [hnone, calcWeightedStates_get hlt, div_mul_cancel₀ _ hne]
  have hmerge : mergeDowntimes (calcAlerts tables.alerts startTime endTime (fun _ => true) key)
      before ([] : List (StartStopDuration κ)) =
      calcAlerts tables.alerts startTime endTime (fun _ => true) key := by
    simp [mergeDowntimes, inDowntime,
      sortByDate_of_sorted Entry.date (sorted_calcAlerts tables.alerts startTime endTime _ key)]
  rw [hmerge]
  rfl

theorem walkTime_calcAlerts_of_own
    (hown : ownAlerts table startTime endTime key ≠ []) (before description : StateDescription σ) :
    walkTime Entry.date Entry.description startTime endTime before description
        (calcAlerts table startTime endTime (fun _ => true) key) =
      ticks startTime endTime (fun t =>
        stateWithShutdowns table startTime endTime key before t = description) := by
  have hcalc : calcAlerts table startTime endTime (fun _ => true) key =
      sortByDate Entry.date (hourEntries table startTime endTime key) := by
    unfold calcAlerts hourEntries
    rw [if_pos ⟨rfl, hown⟩]
  rw [hcalc, walkTime_of_within Entry.date Entry.description startTime endTime before
    description (sorted_sortByDate Entry.date _) (le_of_lt hlt)]
  · apply ticks_congr
    intro t _ _
    rw [stateWithShutdowns, stateAt, stateAt, latest_sortByDate]
  · intro item hmem
    exact (date_of_mem_hourEntries ((mem_sortByDate Entry.date).mp hmem)).left
  · intro item hmem
    exact (date_of_mem_hourEntries ((mem_sortByDate Entry.date).mp hmem)).right

theorem walkTime_calcAlerts_of_no_own
    (hown : ownAlerts table startTime endTime key = []) (before description : StateDescription σ) :
    walkTime Entry.date Entry.description startTime endTime before description
        (calcAlerts table startTime endTime (fun _ => true) key) =
      ticks startTime endTime (fun _ => before = description) := by
  unfold calcAlerts
  rw [if_neg (by simp [hown]), walkTime, ticks_const _ _ _ (le_of_lt hlt)]

end

theorem of_ticks_eq {lo hi : Int} {p : Int -> Prop} [DecidablePred p]
    (h : ticks lo hi p = hi - lo) {t : Int} (hlo : lo ≤ t) (hhi : t < hi) : p t := by
  have hcard : ((Finset.Ico lo hi).filter p).card = (Finset.Ico lo hi).card := by
    rw [Int.card_Ico]
    unfold ticks at h
    omega
  exact Finset.card_filter_eq_iff.mp hcard t (Finset.mem_Ico.mpr ⟨hlo, hhi⟩)

theorem shutdownAccounted_iff {ctx : QueryContext κ σ} (hlt : startTime < endTime)
    (hdowntimes : tables.downtimes = []) {before : StateDescription σ}
    {rows : List (AggregatedRow κ σ)} (hrows : forall description, shareOf rows key description =
      (keyResult ctx tables startTime endTime before key).1.get description) :
    ShutdownAccounted tables.alerts startTime endTime before rows key <->
      ShutdownHarmless tables.alerts startTime endTime before key := by
  have hshare : forall description,
      shareOf rows key description * ((endTime - startTime : Int) : ℚ) =
        (walkTime Entry.date Entry.description startTime endTime before description
          (calcAlerts tables.alerts startTime endTime (fun _ => true) key) : ℚ) := by
    intro description
    rw [hrows, keyResult_get hlt hdowntimes]
  have hafter : forall shutdown, shutdown ∈ tables.alerts.independent ->
      startTime ≤ shutdown.date -> shutdown.date < endTime ->
      forall t, shutdown.date ≤ t -> t < endTime ->
        (forall alert, alert ∈ tables.alerts.own -> alert.key = key ->
          ¬ (shutdown.date < alert.date ∧ alert.date ≤ t)) ->
        stateWithShutdowns tables.alerts startTime endTime key before t =
          undeterminedDescription σ := by
    intro shutdown hmem hlo hhi t hle _ hnone
    exact stateWithShutdowns_after_shutdown hmem hlo (le_of_lt hhi) hle hnone
  by_cases hown : ownAlerts tables.alerts startTime endTime key = []
  · have hstate : forall t, startTime ≤ t -> t < endTime ->
        stateWithShutdowns tables.alerts startTime endTime key before t = before ∨
        (stateWithShutdowns tables.alerts startTime endTime key before t =
            undeterminedDescription σ ∧
          exists shutdown, shutdown ∈ tables.alerts.independent ∧
            startTime ≤ shutdown.date ∧ shutdown.date < endTime) := by
      intro t _ hhi
      unfold stateWithShutdowns hourEntries
      rw [hown, map_nil, nil_append, stateAt]
      cases hlast : latest Entry.date ((independentAlerts tables.alerts startTime
          endTime).map (IndependentAlert.toEntry (σ := σ))) t with
      | none => exact Or.inl rfl
      | some last =>
        have hmem := latest_mem Entry.date hlast
        rcases mem_map.mp hmem.left with ⟨shutdown, hshutdown, rfl⟩
        have hfilter := mem_filter.mp hshutdown
        simp only [decide_eq_true_eq] at hfilter
        exact Or.inr ⟨rfl, shutdown, hfilter.left, hfilter.right.left,
          lt_of_le_of_lt hmem.right hhi⟩
    constructor
    · intro haccounted
      by_cases hbefore : before = undeterminedDescription σ
      · exact Or.inr (Or.inl hbefore)
      · refine Or.inr (Or.inr ?_)
        rintro shutdown hmem ⟨hlo, hhi⟩
        have hall := haccounted.left before
        rw [hshare, walkTime_calcAlerts_of_no_own hlt hown,
          ticks_const _ _ _ (le_of_lt hlt), if_pos rfl] at hall
        have hfull := of_ticks_eq (Int.cast_injective hall).symm hlo hhi
        apply hbefore
        rw [← hfull]
        apply haccounted.right shutdown hmem hlo hhi shutdown.date (le_refl _) hhi
        intro alert _ _
        omega
    · intro hharmless
      refine ⟨?_, hafter⟩
      intro description
      rw [hshare, walkTime_calcAlerts_of_no_own hlt hown]
      congr 1
      apply ticks_congr
      intro t hlo hhi
      rcases hharmless with howns | hbefore | hnone
      · exact absurd hown ((ownAlerts_ne_nil_iff _ _ _ _).mpr howns)
      · rcases hstate t hlo hhi with heq | ⟨heq, _⟩
        · rw [heq]
        · rw [heq, hbefore]
      · rcases hstate t hlo hhi with heq | ⟨_, shutdown, hmem, hrange⟩
        · rw [heq]
        · exact absurd hrange (hnone shutdown hmem)
  · constructor
    · intro _
      exact Or.inl ((ownAlerts_ne_nil_iff _ _ _ _).mp hown)
    · intro _
      refine ⟨?_, hafter⟩
      intro description
      rw [hshare, walkTime_calcAlerts_of_own hlt hown]

def AllShutdownsAccounted (tables : RawTables κ σ) (startTime endTime : Int)
    (lastCache : κ -> Option (StateDescription σ)) (rows : List (AggregatedRow κ σ)) : Prop :=
  forall key, key ∈ activeKeys tables.alerts tables.dumps startTime endTime ->
    ShutdownAccounted tables.alerts startTime endTime (stateBefore lastCache key) rows key

def AllShutdownsHarmless (tables : RawTables κ σ) (startTime endTime : Int)
    (lastCache : κ -> Option (StateDescription σ)) : Prop :=
  forall key, key ∈ activeKeys tables.alerts tables.dumps startTime endTime ->
    ShutdownHarmless tables.alerts startTime endTime (stateBefore lastCache key) key

theorem processAlerts_shutdowns (ctx : QueryContext κ σ) (hlt : startTime < endTime)
    (hdowntimes : tables.downtimes = []) (lastCache : κ -> Option (StateDescription σ)) :
    exists rows cache,
      processAlerts ctx tables startTime endTime lastCache = .ok (rows, cache) ∧
        (AllShutdownsAccounted tables startTime endTime lastCache rows <->
          AllShutdownsHarmless tables startTime endTime lastCache) := by
  refine ⟨_, _, processAlerts_eq_ok ctx tables startTime endTime lastCache, ?_⟩
  unfold AllShutdownsAccounted AllShutdownsHarmless
  apply forall_congr'
  intro key
  apply imp_congr_right
  intro hactive
  apply shutdownAccounted_iff hlt hdowntimes
  intro description
  exact shareOf_flatMap_rowsOf ctx tables startTime endTime
    (fun key => (keyResult ctx tables startTime endTime (stateBefore lastCache key) key).1)
    (nodup_activeKeys tables.alerts tables.dumps startTime endTime) hactive description

/--
Without downtimes, the hour accounts for all shutdowns on all active hosts and
services exactly if each of them has an alert of its own in the hour, or its
state is not changed by the shutdowns.
-/
theorem createTimespanEntry_shutdowns_iff (serviceCtx : QueryContext ServiceKey ServiceAlertState)
    (services : RawTables ServiceKey ServiceAlertState)
    (hostCtx : QueryContext HostKey HostAlertState) (hosts : RawTables HostKey HostAlertState)
    {startTime endTime : Int} (hlt : startTime < endTime)
    (cache : Option (AlertCache ServiceKey ServiceAlertState))
    (hservices : services.downtimes = []) (hhosts : hosts.downtimes = []) :
    (exists rows nextCache,
      createTimespanEntryFromRawData serviceCtx services hostCtx hosts startTime endTime
          cache = .ok (rows, nextCache) ∧
        AllShutdownsAccounted services startTime endTime
          (lastAlertCache serviceCtx services startTime cache) rows.services ∧
        AllShutdownsAccounted hosts startTime endTime
          (limitCache hostCtx hosts startTime) rows.hosts) <->
      AllShutdownsHarmless services startTime endTime
          (lastAlertCache serviceCtx services startTime cache) ∧
        AllShutdownsHarmless hosts startTime endTime
          (limitCache hostCtx hosts startTime) := by
  rcases processAlerts_shutdowns serviceCtx hlt hservices
    (lastAlertCache serviceCtx services startTime cache) with
    ⟨serviceRows, nextCache, hserviceOk, hserviceIff⟩
  rcases processAlerts_shutdowns hostCtx hlt hhosts
    (limitCache hostCtx hosts startTime) with ⟨hostRows, _, hhostOk, hhostIff⟩
  rw [createTimespanEntryFromRawData_eq_ok hserviceOk hhostOk, ← hserviceIff, ← hhostIff]
  constructor
  · rintro ⟨rows, next, heq, haccounted⟩
    cases heq
    exact haccounted
  · intro haccounted
    exact ⟨_, _, rfl, haccounted⟩

/--
A service that is ok at the dump before the hour, with its alerts in the hour,
and a shutdown half an hour into it.
-/
def shutdownTables (alerts : List (RawAlert ServiceKey ServiceAlertState)) :
    RawTables ServiceKey ServiceAlertState where
  alerts :=
    { own := { key := (some 1, some 2, some []), date := -second, state := .ok,
               stateType := .hard, msg := [] } :: alerts
      independent := [{ date := 1800 * second, msg := [] }] }
  flapping := []
  downtimes := []
  dumps := [0]

def alertInHour : RawAlert ServiceKey ServiceAlertState where
  key := (some 1, some 2, some [])
  date := 1200 * second
  state := .critical
  stateType := .hard
  msg := []

theorem activeKeys_shutdownTables :
    activeKeys (shutdownTables []).alerts [0] 0 (3600 * second) =
        [(some 1, some 2, some [])] ∧
      activeKeys (shutdownTables [alertInHour]).alerts [0] 0 (3600 * second) =
        [(some 1, some 2, some [])] := by
  decide

/-- With an alert of its own in the hour, the service is accounted for. -/
theorem createTimespanEntry_shutdowns_with_alert :
    exists rows nextCache,
      createTimespanEntryFromRawData (contextAt 0) (shutdownTables [alertInHour])
          (contextAt 0) emptyTables 0 (3600 * second) none = .ok (rows, nextCache) ∧
        AllShutdownsAccounted (shutdownTables [alertInHour]) 0 (3600 * second)
          (lastAlertCache (contextAt 0) (shutdownTables [alertInHour]) 0 none)
          rows.services ∧
        AllShutdownsAccounted emptyTables 0 (3600 * second)
          (limitCache (contextAt 0) emptyTables 0) rows.hosts := by
  apply (createTimespanEntry_shutdowns_iff (contextAt 0) (shutdownTables [alertInHour])
    (contextAt 0) emptyTables (by decide) none rfl rfl).mpr
  constructor
  · intro key hmem
    have hkey : key = (some 1, some 2, some []) :=
      mem_singleton.mp (activeKeys_shutdownTables.right ▸ hmem)
    subst hkey
    exact Or.inl ⟨alertInHour, by simp [shutdownTables], rfl, by decide, by decide⟩
  · intro key hmem
    cases hmem

/-- Without one, the half hour after the shutdown stays with the state before. -/
theorem createTimespanEntry_shutdown_lost :
    ¬ exists rows nextCache,
      createTimespanEntryFromRawData (contextAt 0) (shutdownTables [])
          (contextAt 0) emptyTables 0 (3600 * second) none = .ok (rows, nextCache) ∧
        AllShutdownsAccounted (shutdownTables []) 0 (3600 * second)
          (lastAlertCache (contextAt 0) (shutdownTables []) 0 none) rows.services ∧
        AllShutdownsAccounted emptyTables 0 (3600 * second)
          (limitCache (contextAt 0) emptyTables 0) rows.hosts := by
  rintro ⟨rows, nextCache, hok, haccounted, _⟩
  rcases processAlerts_shutdowns (contextAt 0) (by decide : (0 : Int) < 3600 * second)
    (rfl : (shutdownTables []).downtimes = [])
    (lastAlertCache (contextAt 0) (shutdownTables []) 0 none) with
    ⟨serviceRows, cache, hserviceOk, hiff⟩
  have hhostOk := processAlerts_eq_ok (contextAt 0) emptyTables 0 (3600 * second)
    (limitCache (contextAt 0) (emptyTables : RawTables HostKey HostAlertState) 0)
  rw [createTimespanEntryFromRawData_eq_ok hserviceOk hhostOk] at hok
  cases hok
  have hactive : (some 1, some 2, some []) ∈
      activeKeys (shutdownTables []).alerts [0] 0 (3600 * second) := by
    rw [activeKeys_shutdownTables.left]
    exact mem_singleton_self _
  rcases hiff.mp haccounted _ hactive with ⟨alert, hmem, _, hdate, _⟩ | hbefore | hnone
  · rw [mem_singleton.mp hmem] at hdate
    exact absurd hdate (by decide)
  · exact absurd hbefore (by decide)
  · exact hnone _ (mem_singleton_self _) (by decide)

end Icsw.LogAggregation
