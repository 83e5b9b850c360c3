import Icsw.LogAggregation.HourResult
import Mathlib.Data.Set.Finite.Lattice

set_option linter.unusedSectionVars false

/-!
# The cache carried from hour to hour

The last states of an hour are handed on to the next hour, where they stand in for the limit query.
The two agree as long as no downtime hides an alert, and no shutdown falls into an hour without
alerts of the service.
-/

namespace Icsw.LogAggregation

open Foundation List
open DatedList
open StatusHistory

variable {κ σ : Type} [DecidableEq κ] [DecidableEq σ] [IcingaState σ]

def lastState (before : StateDescription σ) (entries : List (Entry σ)) : StateDescription σ :=
  (entries.getLast?.map Entry.description).getD before

theorem calcWeightedStates_lastState (startTime endTime : Int) (entries : List (Entry σ))
    (before : StateDescription σ) (startInPlannedDowntime : Bool) :
    (calcWeightedStates startTime endTime entries before startInPlannedDowntime).2 =
      lastState before entries := by
  cases entries with
  | nil => rfl
  | cons first rest =>
    rw [lastState, List.getLast?_eq_getLast_of_ne_nil (cons_ne_nil first rest)]
    rfl

variable {before : StateDescription σ}

theorem lastState_eq_stateAt {entries : List (Entry σ)}
    (hsorted : Sorted Entry.date entries) {bound : Int}
    (hbound : forall entry, entry ∈ entries -> entry.date ≤ bound) :
    lastState before entries = stateAt Entry.date Entry.description before entries bound := by
  cases entries with
  | nil => rfl
  | cons first rest =>
    rw [stateAt_of_getLast_le Entry.date Entry.description hsorted
      (hbound _ (getLast_mem (cons_ne_nil first rest)))]
    rw [lastState, List.getLast?_eq_getLast_of_ne_nil (cons_ne_nil first rest)]
    rfl

theorem exists_bound (dates : List Int) :
    exists bound, forall date, date ∈ dates -> date ≤ bound :=
  (finite_toSet dates).bddAbove

def AlertAfterDowntime (downtime : StartStopDuration κ) (alert : Entry σ) : Prop :=
  match downtime.endEntry with
  | some _ => downtime.stop < alert.date
  | none => downtime.start < alert.date ∧ downtime.stop ≤ alert.date

/--
After the last downtime there is an alert, or the downtime has been stopped and
its start found the state that the last alert has.
-/
def DowntimesPassed (alerts : List (Entry σ)) (before : StateDescription σ)
    (downtimeList : List (StartStopDuration κ)) : Prop :=
  forall downtime, downtimeList.getLast? = some downtime ->
    (exists alert, alert ∈ alerts ∧ AlertAfterDowntime downtime alert) ∨
      (downtime.endEntry ≠ none ∧
        resumedState alerts before downtime = lastState before alerts)

variable {alerts : List (Entry σ)}

theorem stateAt_filter_of_later {p : Entry σ -> Bool}
    {bound : Int} (hbound : forall alert, alert ∈ alerts -> alert.date ≤ bound)
    (hmono : forall first second : Entry σ, p first = true -> first.date ≤ second.date ->
      p second = true) (hexists : exists alert, alert ∈ alerts ∧ p alert = true)
    (before before' : StateDescription σ) :
    stateAt Entry.date Entry.description before (alerts.filter p) bound =
      stateAt Entry.date Entry.description before' alerts bound := by
  rcases hexists with ⟨alert, hmem, hp⟩
  rcases latest_max Entry.date hmem (hbound alert hmem) with ⟨last, hlast, hle⟩
  have hfilter := latest_filter_of_latest Entry.date hlast (hmono alert last hp hle)
  simp [stateAt, hlast, hfilter]

theorem lastState_mergeDowntimes {now startTime endTime : Int}
    {downtimeList : List (StartStopDuration κ)}
    (h : Preprocessed now startTime endTime downtimeList)
    (hsorted : Sorted Entry.date alerts) (hpassed : DowntimesPassed alerts before downtimeList) :
    lastState before (mergeDowntimes alerts before downtimeList) =
      lastState before alerts := by
  rcases exists_bound ((mergeDowntimes alerts before downtimeList).map Entry.date ++
    alerts.map Entry.date ++ downtimeList.map StartStopDuration.start ++
    downtimeList.map StartStopDuration.stop) with ⟨bound, hbound⟩
  simp only [mem_append, mem_map] at hbound
  have halerts : forall alert, alert ∈ alerts -> alert.date ≤ bound := by
    intro alert hmem
    exact hbound _ (Or.inl (Or.inl (Or.inr ⟨alert, hmem, rfl⟩)))
  rw [lastState_eq_stateAt (sorted_mergeDowntimes alerts before downtimeList)
      (fun entry hmem => hbound _ (Or.inl (Or.inl (Or.inl ⟨entry, hmem, rfl⟩)))),
    stateAt_mergeDowntimes alerts before bound h, accountedState,
    lastStarted_of_forall_le downtimeList
      (fun downtime hmem => hbound _ (Or.inl (Or.inr ⟨downtime, hmem, rfl⟩)))]
  cases hlast : downtimeList.getLast? with
  | none => exact (lastState_eq_stateAt hsorted halerts).symm
  | some downtime =>
    have hstop : downtime.stop ≤ bound :=
      hbound _ (Or.inr ⟨downtime, mem_of_getLast? hlast, rfl⟩)
    have hcases := hpassed downtime hlast
    simp only
    cases hend : downtime.endEntry with
    | some stopEntry =>
      rw [if_pos ⟨by simp, hstop⟩]
      by_cases hexists : exists alert, alert ∈ alerts ∧ downtime.stop < alert.date
      · rcases hexists with ⟨alert, hmem, hafter⟩
        rw [lastState_eq_stateAt hsorted halerts]
        apply stateAt_filter_of_later halerts
        · intro first second hfirst hle
          simp only [decide_eq_true_eq] at hfirst ⊢
          exact lt_of_lt_of_le hfirst hle
        · exact ⟨alert, hmem, by simpa using hafter⟩
      · rcases hcases with ⟨alert, hmem, hafter⟩ | ⟨_, hresumed⟩
        · rw [AlertAfterDowntime, hend] at hafter
          exact absurd ⟨alert, hmem, hafter⟩ hexists
        · rw [hresumed]
          apply stateAt_of_forall_later
          intro alert hmem
          have hfilter := mem_filter.mp hmem
          exact absurd ⟨alert, hfilter.left, by simpa using hfilter.right⟩ hexists
    | none =>
      rw [if_neg (by simp)]
      rcases hcases with ⟨alert, hmem, hafter⟩ | ⟨hclosed, _⟩
      · rw [AlertAfterDowntime, hend] at hafter
        rw [lastState_eq_stateAt hsorted halerts]
        apply stateAt_filter_of_later halerts
        · intro first second hfirst hle
          simp only [decide_eq_true_eq] at hfirst ⊢
          exact ⟨lt_of_lt_of_le hfirst.left hle, le_trans hfirst.right hle⟩
        · exact ⟨alert, hmem, by simpa using hafter⟩
      · exact absurd hend hclosed

theorem stateBefore_limitCache (ctx : QueryContext κ σ) (tables : RawTables κ σ)
    (time : Int) (key : κ) :
    ((forall alert, alert ∈ tables.alerts.own -> alert.key = key -> time < alert.date) ∧
        stateBefore (limitCache ctx tables time) key = undeterminedDescription σ) ∨
      LimitSpec tables.alerts time key (stateBefore (limitCache ctx tables time) key) := by
  have hspec := doCalcLimitAlerts_spec ctx.groupOrder_perm tables.alerts time
    (fun _ => true) key rfl
  unfold stateBefore limitCache
  cases hquery : doCalcLimitAlerts ctx.groupOrder tables.alerts time .lastBefore
      (fun _ => true) key with
  | none =>
    rw [hquery] at hspec
    exact Or.inl ⟨hspec, rfl⟩
  | some entry =>
    rw [hquery] at hspec
    exact Or.inr hspec

def LatestAgree (table : AlertTable κ σ) (time : Int) (key : κ) : Prop :=
  forall first second, LatestOwn table time key first -> LatestOwn table time key second ->
    first.description = second.description

/-- What makes the last state of a key that of its last alert. -/
structure KeyKept (ctx : QueryContext κ σ) (tables : RawTables κ σ)
    (startTime endTime : Int) (key : κ) : Prop where
  active : key ∈ activeKeys tables.alerts tables.dumps startTime endTime
  agree : LatestAgree tables.alerts endTime key
  apart : forall alert, LatestOwn tables.alerts endTime key alert ->
    startTime ≤ alert.date ->
    (forall shutdown, shutdown ∈ tables.alerts.independent -> shutdown.date ≠ alert.date) ∨
      ShutdownAfter tables.alerts endTime alert.date
  seen : ownAlerts tables.alerts startTime endTime key ≠ [] ∨
    stateBefore (limitCache ctx tables startTime) key = undeterminedDescription σ ∨
      forall shutdown, shutdown ∈ tables.alerts.independent ->
        ¬ (startTime < shutdown.date ∧ shutdown.date ≤ endTime)
  passed : DowntimesPassed
    (calcAlerts tables.alerts startTime endTime (fun _ => true) key)
    (stateBefore (limitCache ctx tables startTime) key)
    (downtimesOf ctx tables startTime endTime key)

variable {tables : RawTables κ σ} {ctx ctx' : QueryContext κ σ} {startTime endTime : Int} {key : κ}

theorem limit_of_no_own (hle : startTime ≤ endTime)
    (hown : ownAlerts tables.alerts startTime endTime key = [])
    (hkept : KeyKept ctx tables startTime endTime key) :
    stateBefore (limitCache ctx tables startTime) key =
      stateBefore (limitCache ctx' tables endTime) key := by
  rcases stateBefore_limitCache ctx' tables endTime key with ⟨hnone, hlater⟩ | hlater
  · rcases stateBefore_limitCache ctx tables startTime key with ⟨_, hbefore⟩ | hbefore
    · rw [hbefore, hlater]
    · rcases hbefore.exists_own with ⟨alert, halert, _⟩
      have hdate := hnone alert halert.mem halert.key_eq
      exact absurd (le_trans halert.le hle) (not_le.mpr hdate)
  · rcases hlater.exists_own with ⟨alert, halert, hdescription⟩
    have hearlier := (latestOwn_of_no_own hle hown alert).mpr halert
    rcases stateBefore_limitCache ctx tables startTime key with ⟨hnone, _⟩ | hbefore
    · exact absurd hearlier.le (not_le.mpr (hnone alert hearlier.mem hearlier.key_eq))
    · rcases hbefore.exists_own with ⟨other, hother, hotherDescription⟩
      have hdate : other.date = alert.date := hother.date_eq hearlier
      have hagree := hkept.agree other alert ((latestOwn_of_no_own hle hown other).mp hother)
        halert
      rw [hdate] at hotherDescription
      rcases hdescription with ⟨⟨shutdown, hmem, hafter, hend⟩, hundetermined⟩ |
        ⟨hnot, hequal⟩
      · rw [hundetermined]
        rcases hkept.seen with hsome | hbefore | hnone
        · exact absurd hown hsome
        · exact hbefore
        · rcases hotherDescription with ⟨_, heq⟩ | ⟨hnotBefore, _⟩
          · exact heq
          · have hstart : shutdown.date ≤ startTime := by
              by_contra hlt
              exact hnone shutdown hmem ⟨not_le.mp hlt, hend⟩
            exact absurd ⟨shutdown, hmem, hafter, hstart⟩ hnotBefore
      · rcases hotherDescription with ⟨⟨shutdown, hmem, hafter, hstart⟩, _⟩ | ⟨_, heq⟩
        · exact absurd ⟨shutdown, hmem, hafter, le_trans hstart hle⟩ hnot
        · rw [heq, hequal, hagree]

theorem limit_of_own (hown : ownAlerts tables.alerts startTime endTime key ≠ [])
    (hkept : KeyKept ctx tables startTime endTime key) (before : StateDescription σ) :
    lastState before (calcAlerts tables.alerts startTime endTime (fun _ => true) key) =
      stateBefore (limitCache ctx' tables endTime) key := by
  rcases exists_latestOwn hown with ⟨last, hlast, hstart, hlatest⟩
  rw [lastState_eq_stateAt (sorted_calcAlerts tables.alerts startTime endTime _ key)
      (fun entry hmem => (date_of_mem_calcAlerts hmem).right), calcAlerts, if_pos ⟨rfl, hown⟩,
    stateAt, latest_sortByDate, latest_append, hlatest]
  rcases stateBefore_limitCache ctx' tables endTime key with ⟨hnone, _⟩ | hlimit
  · exact absurd hlast.le (not_le.mpr (hnone last hlast.mem hlast.key_eq))
  · rcases hlimit.exists_own with ⟨alert, halert, hdescription⟩
    have hdate : alert.date = last.date := halert.date_eq hlast
    have hagree := hkept.agree alert last halert hlast
    have hshutdowns := latest_independentAlerts tables.alerts startTime endTime
    rw [hdate] at hdescription
    cases hlatestShutdown : latest Entry.date ((independentAlerts tables.alerts startTime
        endTime).map (IndependentAlert.toEntry (σ := σ))) endTime with
    | none =>
      rw [hlatestShutdown] at hshutdowns
      rcases hdescription with ⟨⟨shutdown, hmem, hafter, hend⟩, _⟩ | ⟨_, hequal⟩
      · exact absurd ⟨le_trans hstart (le_of_lt hafter), hend⟩ (hshutdowns shutdown hmem)
      · rw [hequal, hagree]
        rfl
    | some entry =>
      rw [hlatestShutdown] at hshutdowns
      rcases hshutdowns with ⟨hundetermined, ⟨shutdown, hmem, _, hend, hentry⟩, hmax⟩
      rw [newer]
      split
      · rename_i hlt
        rcases hdescription with ⟨⟨other, hother, hafter, hotherEnd⟩, _⟩ | ⟨_, hequal⟩
        · have hle := hmax other hother (le_trans hstart (le_of_lt hafter)) hotherEnd
          exact absurd (lt_of_lt_of_le hafter hle) (not_lt.mpr (le_of_lt hlt))
        · rw [hequal, hagree]
          rfl
      · rename_i hnot
        have hge : last.date ≤ entry.date := not_lt.mp hnot
        have hafter : ShutdownAfter tables.alerts endTime last.date := by
          rcases lt_or_eq_of_le hge with hlt | heq
          · exact ⟨shutdown, hmem, hentry ▸ hlt, hend⟩
          · rcases hkept.apart last hlast hstart with hnone | hlater
            · exact absurd (hentry.trans heq.symm) (hnone shutdown hmem)
            · exact hlater
        rcases hdescription with ⟨_, hequal⟩ | ⟨hnone, _⟩
        · rw [hequal]
          exact hundetermined
        · exact absurd hafter hnone

theorem keyResult_lastState (hle : startTime ≤ endTime)
    (hdowntimes : Sorted StartStopRow.date tables.downtimes)
    (hkept : KeyKept ctx tables startTime endTime key) : (keyResult ctx tables startTime endTime
        (stateBefore (limitCache ctx tables startTime) key) key).2 =
      stateBefore (limitCache ctx' tables endTime) key := by
  have hmerged := lastState_mergeDowntimes
    (preprocessStartStopData_preprocessed ctx.now startTime endTime key hdowntimes)
    (sorted_calcAlerts tables.alerts startTime endTime _ key) hkept.passed
  rw [keyResult, calcWeightedStates_lastState, downtimesOf, hmerged]
  by_cases hown : ownAlerts tables.alerts startTime endTime key = []
  · rw [calcAlerts, if_neg (by simp [hown])]
    exact limit_of_no_own hle hown hkept
  · exact limit_of_own hown hkept _

def hour : Int := 3600 * second

def hourStart (start : Int) (index : Nat) : Int := start + index * hour

theorem hourStart_le_succ (start : Int) (index : Nat) :
    hourStart start index ≤ hourStart start (index + 1) := by
  unfold hourStart hour second
  push_cast
  omega

def HourKept (ctx : QueryContext κ σ) (tables : RawTables κ σ) (start : Int)
    (index : Nat) : Prop :=
  activeKeys tables.alerts tables.dumps (hourStart start index)
      (hourStart start (index + 1)) = [] ∨
    forall key,
      key ∈ activeKeys tables.alerts tables.dumps (hourStart start (index + 1))
        (hourStart start (index + 2)) ->
      KeyKept ctx tables (hourStart start index) (hourStart start (index + 1)) key

/--
What is handed on to an hour is nothing, or for every key active in the hour
what the limit query gives at its start.
-/
def CacheAgrees (ctx : QueryContext κ σ) (tables : RawTables κ σ) (start : Int)
    (index : Nat) (cache : Option (AlertCache κ σ)) : Prop :=
  forall handed, cache = some handed -> handed ≠ [] ->
    forall key,
      key ∈ activeKeys tables.alerts tables.dumps (hourStart start index)
        (hourStart start (index + 1)) ->
      stateBefore (fun key => handed.lookup key) key =
        stateBefore (limitCache ctx tables (hourStart start index)) key

variable {cache : Option (AlertCache κ σ)} {start : Int} {index : Nat}

theorem stateBefore_lastAlertCache {ctx : QueryContext κ σ}
    (h : CacheAgrees ctx tables start index cache)
    (hactive : key ∈ activeKeys tables.alerts tables.dumps (hourStart start index)
      (hourStart start (index + 1))) :
    stateBefore (lastAlertCache ctx tables (hourStart start index) cache) key =
      stateBefore (limitCache ctx tables (hourStart start index)) key := by
  match cache with
  | none => rfl
  | some [] => rfl
  | some (entry :: rest) => exact h (entry :: rest) rfl (by simp) key hactive

theorem processAlerts_cacheAgrees (hdowntimes : Sorted StartStopRow.date tables.downtimes)
    (hkept : HourKept ctx tables start index) (hagrees : CacheAgrees ctx tables start index cache) :
    CacheAgrees ctx' tables start (index + 1)
      (some ((activeKeys tables.alerts tables.dumps (hourStart start index)
        (hourStart start (index + 1))).map (fun key =>
          (key, (keyResult ctx tables (hourStart start index) (hourStart start (index + 1))
            (stateBefore (lastAlertCache ctx tables (hourStart start index) cache) key)
            key).2)))) := by
  intro handed heq hne key hactive
  cases heq
  rcases hkept with hnone | hkept
  · rw [hnone] at hne
    exact absurd rfl hne
  · have hkey := hkept key hactive
    rw [stateBefore, lookup_graph _ hkey.active, Option.getD_some,
      stateBefore_lastAlertCache hagrees hkey.active]
    exact keyResult_lastState (hourStart_le_succ start index) hdowntimes hkey

theorem processAlerts_rows_eq {ctx : QueryContext κ σ}
    (hagrees : CacheAgrees ctx tables start index cache) :
    (activeKeys tables.alerts tables.dumps (hourStart start index)
        (hourStart start (index + 1))).flatMap (fun key =>
          rowsOf ctx tables (hourStart start index) (hourStart start (index + 1)) key
            (keyResult ctx tables (hourStart start index) (hourStart start (index + 1))
              (stateBefore (lastAlertCache ctx tables (hourStart start index) cache) key)
              key).1) =
      (activeKeys tables.alerts tables.dumps (hourStart start index)
        (hourStart start (index + 1))).flatMap (fun key =>
          rowsOf ctx tables (hourStart start index) (hourStart start (index + 1)) key
            (keyResult ctx tables (hourStart start index) (hourStart start (index + 1))
              (stateBefore (limitCache ctx tables (hourStart start index)) key) key).1) := by
  apply flatMap_congr
  intro key hactive
  rw [stateBefore_lastAlertCache hagrees hactive]

theorem createTimespanEntry_cacheAgrees
    {serviceCtx serviceCtx' : QueryContext ServiceKey ServiceAlertState}
    {services : RawTables ServiceKey ServiceAlertState}
    (hostCtx : QueryContext HostKey HostAlertState) (hosts : RawTables HostKey HostAlertState)
    {cache : Option (AlertCache ServiceKey ServiceAlertState)}
    (hdowntimes : Sorted StartStopRow.date services.downtimes)
    (hkept : HourKept serviceCtx services start index)
    (hagrees : CacheAgrees serviceCtx services start index cache) :
    exists rows nextCache freshCache,
      createTimespanEntryFromRawData serviceCtx services hostCtx hosts
          (hourStart start index) (hourStart start (index + 1)) cache =
            .ok (rows, nextCache) ∧
        createTimespanEntryFromRawData serviceCtx services hostCtx hosts
          (hourStart start index) (hourStart start (index + 1)) none =
            .ok (rows, freshCache) ∧
        CacheAgrees serviceCtx' services start (index + 1) (some nextCache) := by
  have hservices := processAlerts_eq_ok serviceCtx services (hourStart start index)
    (hourStart start (index + 1))
    (lastAlertCache serviceCtx services (hourStart start index) cache)
  have hfresh := processAlerts_eq_ok serviceCtx services (hourStart start index)
    (hourStart start (index + 1))
    (lastAlertCache serviceCtx services (hourStart start index) none)
  have hhosts := processAlerts_eq_ok hostCtx hosts (hourStart start index)
    (hourStart start (index + 1)) (limitCache hostCtx hosts (hourStart start index))
  rw [processAlerts_rows_eq hagrees] at hservices
  exact ⟨_, _, _, createTimespanEntryFromRawData_eq_ok hservices hhosts,
    createTimespanEntryFromRawData_eq_ok hfresh hhosts,
    processAlerts_cacheAgrees hdowntimes hkept hagrees⟩

/-- The loop over the hours, with the rows stored so far and the cache handed on. -/
def aggregateHours (serviceCtx : Nat -> QueryContext ServiceKey ServiceAlertState)
    (services : RawTables ServiceKey ServiceAlertState)
    (hostCtx : Nat -> QueryContext HostKey HostAlertState)
    (hosts : RawTables HostKey HostAlertState) (start : Int) :
    Nat ->
      Except PyError (List HourRows × Option (AlertCache ServiceKey ServiceAlertState))
  | 0 => .ok ([], none)
  | index + 1 => do
      let (stored, cache) ← aggregateHours serviceCtx services hostCtx hosts start index
      let (rows, nextCache) ← createTimespanEntryFromRawData (serviceCtx index) services
        (hostCtx index) hosts (hourStart start index) (hourStart start (index + 1)) cache
      return (stored ++ [rows], some nextCache)

/--
As long as every hour is kept, each hour finds in the cache what it would find in
the database, and stores the rows it would store after a restart.
-/
theorem aggregateHours_eq_restarted (serviceCtx : Nat -> QueryContext ServiceKey ServiceAlertState)
    (services : RawTables ServiceKey ServiceAlertState)
    (hostCtx : Nat -> QueryContext HostKey HostAlertState)
    (hosts : RawTables HostKey HostAlertState) (start : Int)
    (hdowntimes : Sorted StartStopRow.date services.downtimes) (count : Nat)
    (hkept : forall index, index < count -> HourKept (serviceCtx index) services start index) :
    exists stored cache,
      aggregateHours serviceCtx services hostCtx hosts start count = .ok (stored, cache) ∧
        CacheAgrees (serviceCtx count) services start count cache ∧
        stored.length = count ∧
        forall index rows, stored[index]? = some rows ->
          exists freshCache,
            createTimespanEntryFromRawData (serviceCtx index) services (hostCtx index) hosts
              (hourStart start index) (hourStart start (index + 1)) none =
                .ok (rows, freshCache) := by
  induction count with
  | zero =>
    refine ⟨[], none, rfl, ?_, rfl, ?_⟩
    · intro handed heq
      cases heq
    · intro index rows hrows
      cases hrows
  | succ count ih =>
    rcases ih (fun index hlt => hkept index (Nat.lt_succ_of_lt hlt)) with
      ⟨stored, cache, hrun, hagrees, hlength, hstored⟩
    rcases createTimespanEntry_cacheAgrees (hostCtx count) hosts hdowntimes
      (hkept count (Nat.lt_succ_self count)) hagrees with
      ⟨rows, nextCache, freshCache, hcreate, hfresh, hnext⟩
    refine ⟨stored ++ [rows], some nextCache, ?_, hnext, by simp [hlength], ?_⟩
    · rw [aggregateHours, hrun]
      simp only [bind, Except.bind, hcreate]
      rfl
    · intro index other hother
      rcases Nat.lt_trichotomy index count with hlt | heq | hgt
      · rw [List.getElem?_append_left (hlength.symm ▸ hlt)] at hother
        exact hstored index other hother
      · subst heq
        rw [List.getElem?_append_right (le_of_eq hlength), hlength, Nat.sub_self] at hother
        cases hother
        exact ⟨freshCache, hfresh⟩
      · rw [List.getElem?_eq_none (by simp [hlength]; omega)] at hother
        cases hother

/--
A service that is ok at the dump before the first hour and critical from a
quarter of an hour on, with one downtime in that hour.
-/
def cacheTables (downtimeStart downtimeStop : Int) :
    RawTables ServiceKey ServiceAlertState where
  alerts :=
    { own :=
        [{ key := (some 1, some 2, some []), date := -second, state := .ok,
           stateType := .hard, msg := [] },
         { key := (some 1, some 2, some []), date := 900 * second, state := .critical,
           stateType := .hard, msg := [] }]
      independent := [] }
  flapping := []
  downtimes :=
    [{ key := (some 1, some 2, some []), date := downtimeStart * second,
       startStop := .start, msg := [] },
     { key := (some 1, some 2, some []), date := downtimeStop * second,
       startStop := .stop, msg := [] }]
  dumps := [0]

/-- A downtime before the alert changes nothing. -/
theorem aggregateHours_downtime_before_alert :
    exists stored cache,
      aggregateHours (fun _ => contextAt 0) (cacheTables 300 600) (fun _ => contextAt 0)
          emptyTables 0 1 = .ok (stored, cache) ∧
        CacheAgrees (contextAt 0) (cacheTables 300 600) 0 1 cache ∧
        stored.length = 1 ∧
        forall index rows, stored[index]? = some rows ->
          exists freshCache,
            createTimespanEntryFromRawData (contextAt 0) (cacheTables 300 600)
              (contextAt 0) emptyTables (hourStart 0 index) (hourStart 0 (index + 1)) none =
                .ok (rows, freshCache) := by
  apply aggregateHours_eq_restarted (fun _ => contextAt 0) (cacheTables 300 600)
    (fun _ => contextAt 0) emptyTables 0 (by unfold Sorted; decide) 1
  intro index hlt
  cases Nat.lt_one_iff.mp hlt
  right
  intro key hactive
  have hkey : key = (some 1, some 2, some []) := by
    have hkeys : activeKeys (cacheTables 300 600).alerts (cacheTables 300 600).dumps
        (hourStart 0 1) (hourStart 0 2) = [(some 1, some 2, some [])] := by decide
    exact mem_singleton.mp (hkeys ▸ hactive)
  subst hkey
  refine ⟨by decide, ?_, ?_, Or.inl (by decide), ?_⟩
  · intro first second hfirst hsecond
    have hlast : forall alert, LatestOwn (cacheTables 300 600).alerts (hourStart 0 1)
        (some 1, some 2, some []) alert ->
        alert.description = (ServiceAlertState.critical, StateType.hard) := by
      intro alert halert
      rcases mem_cons.mp halert.mem with heq | htail
      · have hle := halert.latest _ (mem_cons_of_mem _ (mem_singleton_self _)) rfl
          (by decide)
        rw [heq] at hle
        exact absurd hle (by decide)
      · rw [mem_singleton.mp htail]
        rfl
    rw [hlast first hfirst, hlast second hsecond]
  · intro alert _ _
    left
    intro shutdown hmem
    cases hmem
  · intro downtime hdowntime
    left
    have hlast : (downtimesOf (contextAt 0) (cacheTables 300 600) (hourStart 0 0)
        (hourStart 0 1) (some 1, some 2, some [])).getLast? =
        some { start := 300 * second, stop := 600 * second,
               startEntry := { key := (some 1, some 2, some []), date := 300 * second,
                               startStop := .start, msg := [] },
               endEntry := some { key := (some 1, some 2, some []), date := 600 * second,
                                  startStop := .stop, msg := [] } } := by decide
    rw [hlast] at hdowntime
    cases hdowntime
    exact ⟨{ date := 900 * second, state := .critical, stateType := .hard, msg := [] },
      by decide, by simp [AlertAfterDowntime, second]⟩

/-- A downtime during the alert hides it from the next hour. -/
theorem aggregateHours_downtime_hides_alert :
    ¬ exists stored cache,
      aggregateHours (fun _ => contextAt 0) (cacheTables 600 1200) (fun _ => contextAt 0)
          emptyTables 0 1 = .ok (stored, cache) ∧
        CacheAgrees (contextAt 0) (cacheTables 600 1200) 0 1 cache := by
  rintro ⟨stored, cache, hrun, hagrees⟩
  have hcreate := createTimespanEntryFromRawData_eq_ok
    (processAlerts_eq_ok (contextAt 0) (cacheTables 600 1200) (hourStart 0 0)
      (hourStart 0 1)
      (lastAlertCache (contextAt 0) (cacheTables 600 1200) (hourStart 0 0) none))
    (processAlerts_eq_ok (contextAt 0) emptyTables (hourStart 0 0) (hourStart 0 1)
      (limitCache (contextAt 0) (emptyTables : RawTables HostKey HostAlertState)
        (hourStart 0 0)))
  simp only [aggregateHours, bind, Except.bind, hcreate] at hrun
  cases hrun
  have hequal := hagrees _ rfl (by decide) (some 1, some 2, some []) (by decide)
  exact absurd hequal (by decide)

end Icsw.LogAggregation
