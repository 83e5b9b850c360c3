import Icsw.Foundation.Accumulator
import Icsw.StatusHistory.Model

/-!
# Aggregation of one hour

An hour is aggregated from the raw tables: for every active host and service the share of the hour
spent in each state, a ratio of two differences of dates.
-/

namespace Icsw.LogAggregation

open Foundation
open StatusHistory

/-- Seconds, in the unit of dates. -/
def second : Int := 1000000

def latestDate (dates : List Int) : Option Int :=
  dates.foldl (fun best date =>
    match best with
    | none => some date
    | some other => some (max other date)) none

def earliestDate (dates : List Int) : Option Int :=
  dates.foldl (fun best date =>
    match best with
    | none => some date
    | some other => some (min other date)) none

/--
The latest full system dump before the range and all in it; without any, the
next one after the start.
-/
def dumpTimes (dumps : List Int) (startTime endTime : Int) : List Int :=
  let times := (latestDate (dumps.filter (fun date => date ≤ startTime))).toList ++
    dumps.filter (fun date => startTime ≤ date ∧ date ≤ endTime)
  if times = [] then (earliestDate (dumps.filter (fun date => startTime ≤ date))).toList
  else times

variable {κ σ : Type} [DecidableEq κ] [DecidableEq σ] [IcingaState σ]

def activeKeys (table : AlertTable κ σ) (dumps : List Int) (startTime endTime : Int) : List κ :=
  ((table.own.filter (fun alert =>
    (dumpTimes dumps startTime endTime).any (fun cur =>
      cur - 5 * second ≤ alert.date ∧ alert.date ≤ cur + 5 * second))).map
    RawAlert.key).dedup

def pairwise {α : Type} (items : List α) : List (α × α) :=
  items.zip items.tail

/-- Share of the hour between two dates. -/
def weight (startTime endTime : Int) (earlier later : Int) : ℚ :=
  ((later - earlier : Int) : ℚ) / ((endTime - startTime : Int) : ℚ)

def addPair (startTime endTime : Int) (acc : Accumulator (StateDescription σ))
    (pair : Entry σ × Entry σ) : Accumulator (StateDescription σ) :=
  acc.add pair.1.description (weight startTime endTime pair.1.date pair.2.date)

def calcWeightedStates (startTime endTime : Int) (relevantEntries : List (Entry σ))
    (stateDescriptionBefore : StateDescription σ) (startInPlannedDowntime : Bool) :
    Accumulator (StateDescription σ) × StateDescription σ :=
  let weightedStates :=
    (pairwise relevantEntries).foldl (addPair startTime endTime) Accumulator.empty
  let actualStateDescriptionBefore :=
    if startInPlannedDowntime then plannedDownDescription σ else stateDescriptionBefore
  match relevantEntries with
  | [] => (weightedStates.add actualStateDescriptionBefore 1, stateDescriptionBefore)
  | first :: rest =>
    let last := (first :: rest).getLast (List.cons_ne_nil first rest)
    ((weightedStates.add actualStateDescriptionBefore
        (weight startTime endTime startTime first.date)).add last.description
        (weight startTime endTime last.date endTime),
      last.description)

def calcFlappingRatio (startTime endTime : Int)
    (flappings : List (StartStopDuration κ)) : ℚ :=
  (flappings.map (fun flapping =>
    weight startTime endTime (max flapping.start startTime)
      (min flapping.stop endTime))).sum

inductive AggregatedDescription (σ : Type) where
  | state (description : StateDescription σ)
  | flapping
deriving DecidableEq

structure AggregatedRow (κ σ : Type) where
  key : κ
  description : AggregatedDescription σ
  value : ℚ
deriving DecidableEq

/-- What the aggregation of an hour reads for hosts, respectively for services. -/
structure RawTables (κ σ : Type) where
  alerts : AlertTable κ σ
  flapping : List (StartStopRow κ)
  downtimes : List (StartStopRow κ)
  dumps : List Int

def emptyTables : RawTables κ σ where
  alerts := { own := [], independent := [] }
  flapping := []
  downtimes := []
  dumps := []

/-- The parts of a run that the tables do not determine. -/
structure QueryContext (κ σ : Type) where
  now : Int
  groupOrder : List (AlertGroup κ σ) -> List (AlertGroup κ σ)
  groupOrder_perm : forall groups, (groupOrder groups).Perm groups

def contextAt (now : Int) : QueryContext κ σ where
  now := now
  groupOrder := id
  groupOrder_perm := fun groups => List.Perm.refl groups

abbrev AlertCache (κ σ : Type) := List (κ × StateDescription σ)

variable (ctx : QueryContext κ σ)

variable (tables : RawTables κ σ)

/-- `calc_limit_alerts(time)` reduced to the format of the cache. -/
def limitCache (time : Int) (key : κ) : Option (StateDescription σ) :=
  (doCalcLimitAlerts ctx.groupOrder tables.alerts time .lastBefore (fun _ => true) key).map
    LimitAlert.description

/-- The carried cache is used if there is one and it is not empty. -/
def lastAlertCache (startTime : Int)
    (carried : Option (AlertCache κ σ)) (key : κ) : Option (StateDescription σ) :=
  match carried with
  | some (entry :: rest) => (entry :: rest).lookup key
  | _ => limitCache ctx tables startTime key

def downtimesOf (startTime endTime : Int) (key : κ) : List (StartStopDuration κ) :=
  preprocessStartStopData ctx.now tables.downtimes startTime endTime key

/-- Weighted states and last state of one key. -/
def processKey (startTime endTime : Int) (stateDescriptionBefore : StateDescription σ) (key : κ) :
    Except PyError (Accumulator (StateDescription σ) × StateDescription σ) := do
  let downtimeList := downtimesOf ctx tables startTime endTime key
  let relevantEntries ← addDowntimesToAlerts
    (calcAlerts tables.alerts startTime endTime (fun _ => true) key)
    (.pair stateDescriptionBefore) downtimeList
  let startInPlannedDowntime := (getDowntimeEntry downtimeList startTime).isSome
  return calcWeightedStates startTime endTime relevantEntries stateDescriptionBefore
    startInPlannedDowntime

def rowsOf (startTime endTime : Int) (key : κ) (weightedStates : Accumulator (StateDescription σ)) :
    List (AggregatedRow κ σ) :=
  let flappingRatio := calcFlappingRatio startTime endTime
    (preprocessStartStopData ctx.now tables.flapping startTime endTime key)
  weightedStates.entries.map
      (fun entry => { key := key, description := .state entry.1, value := entry.2 }) ++
    if flappingRatio ≠ 0 then
      [{ key := key, description := .flapping, value := flappingRatio }]
    else []

/-- `process_service_alerts`; hosts are processed alike, without using the new cache. -/
def processAlerts (startTime endTime : Int) (lastCache : κ -> Option (StateDescription σ)) :
    Except PyError (List (AggregatedRow κ σ) × AlertCache κ σ) := do
  let results ← (activeKeys tables.alerts tables.dumps startTime endTime).mapM (fun key => do
    let stateDescriptionBefore := (lastCache key).getD (undeterminedDescription σ)
    let (weightedStates, lastStateDescription) ←
      processKey ctx tables startTime endTime stateDescriptionBefore key
    return (rowsOf ctx tables startTime endTime key weightedStates,
      (key, lastStateDescription)))
  return ((results.map Prod.fst).flatten, results.map Prod.snd)

structure HourRows where
  services : List (AggregatedRow ServiceKey ServiceAlertState)
  hosts : List (AggregatedRow HostKey HostAlertState)

def createTimespanEntryFromRawData (serviceCtx : QueryContext ServiceKey ServiceAlertState)
    (services : RawTables ServiceKey ServiceAlertState)
    (hostCtx : QueryContext HostKey HostAlertState)
    (hosts : RawTables HostKey HostAlertState)
    (startTime endTime : Int)
    (nextLastServiceAlertCache : Option (AlertCache ServiceKey ServiceAlertState)) :
    Except PyError (HourRows × AlertCache ServiceKey ServiceAlertState) := do
  let (serviceRows, nextCache) ← processAlerts serviceCtx services startTime endTime
    (lastAlertCache serviceCtx services startTime nextLastServiceAlertCache)
  let (hostRows, _) ← processAlerts hostCtx hosts startTime endTime
    (limitCache hostCtx hosts startTime)
  return ({ services := serviceRows, hosts := hostRows }, nextCache)

end Icsw.LogAggregation
