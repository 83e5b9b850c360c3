import Icsw.LogAggregation.PlannedDowntime
import Icsw.StatusHistory.LimitAlerts

set_option linter.unusedSectionVars false

/-!
# The result of an hour

Aggregating an hour never fails: each active key contributes its weighted states
to the rows and its last state to the cache.
-/

namespace Icsw.LogAggregation

open Foundation List
open DatedList
open StatusHistory

variable {κ σ : Type} [DecidableEq κ] [DecidableEq σ] [IcingaState σ]

variable (ctx : QueryContext κ σ) (tables : RawTables κ σ) (startTime endTime : Int)

def keyResult (before : StateDescription σ) (key : κ) :
    Accumulator (StateDescription σ) × StateDescription σ :=
  let downtimeList := downtimesOf ctx tables startTime endTime key
  calcWeightedStates startTime endTime
    (mergeDowntimes (calcAlerts tables.alerts startTime endTime (fun _ => true) key)
      before downtimeList)
    before (inDowntime downtimeList startTime)

theorem processKey_eq_ok (before : StateDescription σ) (key : κ) :
    processKey ctx tables startTime endTime before key =
      .ok (keyResult ctx tables startTime endTime before key) := by
  unfold processKey keyResult
  simp only [isSome_getDowntimeEntry, addDowntimesToAlerts_pair before
    (downtimesOf ctx tables startTime endTime key)
    (sorted_calcAlerts tables.alerts startTime endTime (fun _ => true) key)]
  rfl

def stateBefore (lastCache : κ -> Option (StateDescription σ)) (key : κ) : StateDescription σ :=
  (lastCache key).getD (undeterminedDescription σ)

theorem processAlerts_eq_ok (lastCache : κ -> Option (StateDescription σ)) :
    processAlerts ctx tables startTime endTime lastCache =
      .ok ((activeKeys tables.alerts tables.dumps startTime endTime).flatMap (fun key =>
          rowsOf ctx tables startTime endTime key
            (keyResult ctx tables startTime endTime (stateBefore lastCache key) key).1),
        (activeKeys tables.alerts tables.dumps startTime endTime).map (fun key =>
          (key, (keyResult ctx tables startTime endTime (stateBefore lastCache key) key).2))) := by
  unfold processAlerts
  simp only [processKey_eq_ok]
  have hbody : forall key,
      key ∈ activeKeys tables.alerts tables.dumps startTime endTime ->
      (Except.ok (keyResult ctx tables startTime endTime (stateBefore lastCache key) key) >>=
        fun result => pure (rowsOf ctx tables startTime endTime key result.1,
          (key, result.2)) :
        Except PyError (List (AggregatedRow κ σ) × (κ × StateDescription σ))) =
      .ok (rowsOf ctx tables startTime endTime key
          (keyResult ctx tables startTime endTime (stateBefore lastCache key) key).1,
        (key, (keyResult ctx tables startTime endTime (stateBefore lastCache key) key).2)) :=
    fun key _ => rfl
  unfold stateBefore at hbody ⊢
  rw [mapM_eq_ok hbody]
  simp only [bind, Except.bind, pure, Except.pure, map_map, flatMap]
  rfl

theorem createTimespanEntryFromRawData_eq_ok
    {serviceCtx : QueryContext ServiceKey ServiceAlertState}
    {services : RawTables ServiceKey ServiceAlertState}
    {hostCtx : QueryContext HostKey HostAlertState}
    {hosts : RawTables HostKey HostAlertState} {startTime endTime : Int}
    {cache : Option (AlertCache ServiceKey ServiceAlertState)}
    {serviceRows : List (AggregatedRow ServiceKey ServiceAlertState)}
    {nextCache : AlertCache ServiceKey ServiceAlertState}
    {hostRows : List (AggregatedRow HostKey HostAlertState)}
    {hostCache : AlertCache HostKey HostAlertState}
    (hservices : processAlerts serviceCtx services startTime endTime
      (lastAlertCache serviceCtx services startTime cache) = .ok (serviceRows, nextCache))
    (hhosts : processAlerts hostCtx hosts startTime endTime
      (limitCache hostCtx hosts startTime) = .ok (hostRows, hostCache)) :
    createTimespanEntryFromRawData serviceCtx services hostCtx hosts startTime endTime
        cache = .ok ({ services := serviceRows, hosts := hostRows }, nextCache) := by
  unfold createTimespanEntryFromRawData
  rw [hservices, hhosts]
  rfl

def shareOf (rows : List (AggregatedRow κ σ)) (key : κ) (description : StateDescription σ) : ℚ :=
  ((rows.filter (fun row => row.key = key ∧ row.description = .state description)).map
    AggregatedRow.value).sum

theorem shareOf_append (left right : List (AggregatedRow κ σ)) (key : κ)
    (description : StateDescription σ) :
    shareOf (left ++ right) key description =
      shareOf left key description + shareOf right key description := by
  simp [shareOf]

theorem shareOf_eq_zero {rows : List (AggregatedRow κ σ)} {key : κ}
    {description : StateDescription σ}
    (h : forall row, row ∈ rows -> row.key ≠ key ∨ row.description ≠ .state description) :
    shareOf rows key description = 0 := by
  have hnil : rows.filter
      (fun row => row.key = key ∧ row.description = .state description) = [] := by
    apply filter_eq_nil_iff.mpr
    intro row hmem
    rcases h row hmem with hkey | hdesc
    · simp [hkey]
    · simp [hdesc]
  rw [shareOf, hnil]
  rfl

theorem shareOf_map_entries (key : κ) (description : StateDescription σ)
    {entries : List (StateDescription σ × ℚ)} (hnodup : (entries.map Prod.fst).Nodup) :
    shareOf (entries.map (fun entry =>
        ({ key := key, description := .state entry.1, value := entry.2 } :
          AggregatedRow κ σ))) key description =
      Accumulator.getFrom entries description := by
  induction entries with
  | nil => rfl
  | cons entry rest ih =>
    rcases entry with ⟨other, value⟩
    rw [map_cons, nodup_cons] at hnodup
    rw [map_cons, ← singleton_append, shareOf_append, ih hnodup.right,
      Accumulator.getFrom]
    by_cases hkey : other = description
    · -- the keys are distinct, so the rest does not hold the state again
      have hrest : Accumulator.getFrom rest description = 0 := by
        rcases Accumulator.getFrom_eq_zero_or_mem rest description with hzero | hmem
        · exact hzero
        · exfalso
          apply hnodup.left
          rw [hkey]
          exact mem_map.mpr ⟨_, hmem, rfl⟩
      simp [shareOf, hkey, hrest]
    · simp [shareOf, hkey]

theorem shareOf_rowsOf (key : κ) (acc : Accumulator (StateDescription σ))
    (description : StateDescription σ) :
    shareOf (rowsOf ctx tables startTime endTime key acc) key description =
      acc.get description := by
  unfold rowsOf
  rw [shareOf_append, shareOf_map_entries key description acc.keys_nodup]
  have hflapping : forall rows : List (AggregatedRow κ σ),
      (forall row, row ∈ rows -> row.description = .flapping) ->
      shareOf rows key description = 0 := by
    intro rows hrows
    apply shareOf_eq_zero
    intro row hmem
    right
    rw [hrows row hmem]
    exact fun h => by cases h
  rw [hflapping]
  · exact add_zero _
  · intro row hmem
    split at hmem
    · rw [mem_singleton.mp hmem]
    · cases hmem

theorem key_of_mem_rowsOf {ctx : QueryContext κ σ} {tables : RawTables κ σ}
    {startTime endTime : Int} {key : κ} {acc : Accumulator (StateDescription σ)}
    {row : AggregatedRow κ σ} (h : row ∈ rowsOf ctx tables startTime endTime key acc) :
    row.key = key := by
  unfold rowsOf at h
  rcases mem_append.mp h with hstate | hflapping
  · rcases mem_map.mp hstate with ⟨entry, _, rfl⟩
    rfl
  · split at hflapping
    · rw [mem_singleton.mp hflapping]
    · cases hflapping

theorem shareOf_flatMap_rowsOf (acc : κ -> Accumulator (StateDescription σ))
    {keys : List κ} (hnodup : keys.Nodup) {key : κ} (hmem : key ∈ keys)
    (description : StateDescription σ) :
    shareOf (keys.flatMap (fun other =>
        rowsOf ctx tables startTime endTime other (acc other))) key description =
      (acc key).get description := by
  induction keys with
  | nil => cases hmem
  | cons first rest ih =>
    rw [nodup_cons] at hnodup
    rw [flatMap_cons, shareOf_append]
    rcases mem_cons.mp hmem with heq | htail
    · subst heq
      have hrest : shareOf (rest.flatMap (fun other =>
          rowsOf ctx tables startTime endTime other (acc other))) key description = 0 := by
        apply shareOf_eq_zero
        intro row hrow
        rcases mem_flatMap.mp hrow with ⟨other, hother, hin⟩
        left
        rw [key_of_mem_rowsOf hin]
        intro heq
        exact hnodup.left (heq ▸ hother)
      rw [shareOf_rowsOf, hrest, add_zero]
    · have hfirst : shareOf (rowsOf ctx tables startTime endTime first (acc first))
          key description = 0 := by
        apply shareOf_eq_zero
        intro row hrow
        left
        rw [key_of_mem_rowsOf hrow]
        intro heq
        exact hnodup.left (heq ▸ htail)
      rw [hfirst, ih hnodup.right htail, zero_add]

theorem nodup_activeKeys (table : AlertTable κ σ) (dumps : List Int)
    (startTime endTime : Int) : (activeKeys table dumps startTime endTime).Nodup :=
  nodup_dedup _

end Icsw.LogAggregation
