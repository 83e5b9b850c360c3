import Icsw.Foundation.DatedList
import Icsw.Foundation.Python

/-!
# Status history

The raw tables filled from the Icinga log and the queries over them.  Hosts and services are read by
the same code, so the model is generic in the key and in the state codes.  Dates are integers
(microseconds), and a queryset without an ordering is a list in some order.
-/

namespace Icsw.StatusHistory

open Foundation

inductive AlertStateType where
  | hard
  | soft
deriving DecidableEq

inductive StateType where
  | hard
  | soft
  | undetermined
  | plannedDown
deriving DecidableEq

def AlertStateType.toStateType : AlertStateType -> StateType
  | .hard => .hard
  | .soft => .soft

inductive HostAlertState where
  | up
  | down
  | unreachable
  | unknown
  | plannedDown
  | undetermined
deriving DecidableEq

inductive ServiceAlertState where
  | ok
  | warning
  | unknown
  | critical
  | undetermined
  | plannedDown
deriving DecidableEq

/-- The two codes that host and service states share and the code refers to. -/
class IcingaState (σ : Type) where
  undetermined : σ
  plannedDown : σ

instance : IcingaState HostAlertState where
  undetermined := .undetermined
  plannedDown := .plannedDown

instance : IcingaState ServiceAlertState where
  undetermined := .undetermined
  plannedDown := .plannedDown

abbrev StateDescription (σ : Type) := σ × StateType

def undeterminedDescription (σ : Type) [IcingaState σ] : StateDescription σ :=
  (IcingaState.undetermined, .undetermined)

def plannedDownDescription (σ : Type) [IcingaState σ] : StateDescription σ :=
  (IcingaState.plannedDown, .plannedDown)

/-- Device, which flapping rows that apply to all devices do not have. -/
abbrev HostKey := Option Nat

/-- Device, check command (if it is known) and info text. -/
abbrev ServiceKey := Option Nat × Option Nat × Option Text

/-- What alerts and downtime entries have in common where they are mixed. -/
structure Entry (σ : Type) where
  date : Int
  state : σ
  stateType : StateType
  msg : Text
deriving DecidableEq

def Entry.description {σ : Type} (entry : Entry σ) : StateDescription σ :=
  (entry.state, entry.stateType)

structure RawAlert (κ σ : Type) where
  key : κ
  date : Int
  state : σ
  stateType : AlertStateType
  msg : Text
deriving DecidableEq

/-- A row that applies to all devices; these are always undetermined. -/
structure IndependentAlert where
  date : Int
  msg : Text
deriving DecidableEq

structure AlertTable (κ σ : Type) where
  own : List (RawAlert κ σ)
  independent : List IndependentAlert

def RawAlert.toEntry {κ σ : Type} (alert : RawAlert κ σ) : Entry σ where
  date := alert.date
  state := alert.state
  stateType := alert.stateType.toStateType
  msg := alert.msg

def IndependentAlert.toEntry {σ : Type} [IcingaState σ] (alert : IndependentAlert) :
    Entry σ where
  date := alert.date
  state := IcingaState.undetermined
  stateType := .undetermined
  msg := alert.msg

inductive StartStop where
  | start
  | stop
deriving DecidableEq

/-- A row of a flapping or downtime table. -/
structure StartStopRow (κ : Type) where
  key : κ
  date : Int
  startStop : StartStop
  msg : Text
deriving DecidableEq

structure StartStopDuration (κ : Type) where
  start : Int
  stop : Int
  startEntry : StartStopRow κ
  endEntry : Option (StartStopRow κ)
deriving DecidableEq

variable {κ σ : Type} [DecidableEq κ] [DecidableEq σ] [IcingaState σ]

structure StartStopState (κ : Type) where
  cache : κ -> List (StartStopDuration κ)
  auxStartTimes : κ -> Option (StartStopRow κ)

def startStopInit : StartStopState κ where
  cache := fun _ => []
  auxStartTimes := fun _ => none

def startStopStep (startTime endTime : Int) (st : StartStopState κ)
    (entry : StartStopRow κ) : StartStopState κ :=
  match st.auxStartTimes entry.key, entry.startStop with
  | none, .start =>
    -- events which start after the range are discarded
    if entry.date ≤ endTime then
      { st with auxStartTimes := Function.update st.auxStartTimes entry.key (some entry) }
    else st
  | some startEntry, .stop =>
    { cache :=
        -- events which have finished before the range are discarded
        if startTime ≤ entry.date then
          Function.update st.cache entry.key
            (st.cache entry.key ++
              [{ start := startEntry.date, stop := entry.date,
                 startEntry := startEntry, endEntry := some entry }])
        else st.cache
      auxStartTimes := Function.update st.auxStartTimes entry.key none }
  | _, _ => st

def preprocessStartStopData (now : Int) (rows : List (StartStopRow κ))
    (startTime endTime : Int) (key : κ) : List (StartStopDuration κ) :=
  let final := rows.foldl (startStopStep startTime endTime) startStopInit
  match final.auxStartTimes key with
  | none => final.cache key
  | some startEntry =>
    -- not stopped yet
    final.cache key ++
      [{ start := startEntry.date, stop := now,
         startEntry := startEntry, endEntry := none }]

variable (table : AlertTable κ σ)

def ownAlerts (startTime endTime : Int) (key : κ) : List (RawAlert κ σ) :=
  table.own.filter
    (fun alert => alert.key = key ∧ startTime ≤ alert.date ∧ alert.date ≤ endTime)

def independentAlerts (startTime endTime : Int) : List IndependentAlert :=
  table.independent.filter
    (fun alert => startTime ≤ alert.date ∧ alert.date ≤ endTime)

/--
The device-independent rows are appended to the keys that are in the dictionary
by then, which are the keys with alerts of their own.
-/
def calcAlerts (startTime endTime : Int)
    (additionalFilter : κ -> Bool) (key : κ) : List (Entry σ) :=
  if additionalFilter key = true ∧ ownAlerts table startTime endTime key ≠ [] then
    DatedList.sortByDate Entry.date
      ((ownAlerts table startTime endTime key).map RawAlert.toEntry ++
        (independentAlerts table startTime endTime).map IndependentAlert.toEntry)
  else []

inductive LimitMode where
  | lastBefore
  | firstAfter
deriving DecidableEq

variable (mode : LimitMode)

def LimitMode.inRange (time date : Int) : Bool :=
  match mode with
  | .lastBefore => date ≤ time
  | .firstAfter => time ≤ date

def LimitMode.comp (x y : Int) : Bool :=
  match mode with
  | .lastBefore => y < x
  | .firstAfter => x < y

/-- One row of the grouped query. -/
structure AlertGroup (κ σ : Type) where
  key : κ
  state : σ
  stateType : AlertStateType
  extremeDate : Int
deriving DecidableEq

structure LimitAlert (σ : Type) where
  state : σ
  stateType : StateType
  date : Int
  msg : Text
deriving DecidableEq

def LimitAlert.description {σ : Type} (alert : LimitAlert σ) : StateDescription σ :=
  (alert.state, alert.stateType)

/-- The extreme one of a non-empty list of dates, given by its first element. -/
def extremeDate (first : Int) (rest : List Int) : Int :=
  rest.foldl (fun best date => if mode.comp date best then date else best) first

def limitRows (time : Int) (additionalFilter : κ -> Bool) : List (RawAlert κ σ) :=
  table.own.filter
    (fun alert => mode.inRange time alert.date ∧ additionalFilter alert.key)

def SameGroup (a b : RawAlert κ σ) : Prop :=
  a.key = b.key ∧ a.state = b.state ∧ a.stateType = b.stateType

instance : DecidableRel (SameGroup (κ := κ) (σ := σ)) := fun a b =>
  inferInstanceAs (Decidable (a.key = b.key ∧ a.state = b.state ∧ a.stateType = b.stateType))

def groupOf (rows : List (RawAlert κ σ)) (alert : RawAlert κ σ) :
    AlertGroup κ σ where
  key := alert.key
  state := alert.state
  stateType := alert.stateType
  extremeDate := extremeDate mode alert.date
    ((rows.filter (fun other => SameGroup other alert)).map RawAlert.date)

def alertGroups (rows : List (RawAlert κ σ)) : List (AlertGroup κ σ) :=
  (rows.map (groupOf mode rows)).dedup

def extremeIndependent (best : Option IndependentAlert)
    (alert : IndependentAlert) : Option IndependentAlert :=
  match best with
  | none => some alert
  | some other => if mode.comp alert.date other.date then some alert else some other

/-- `latest("date")` respectively `earliest("date")` of the independent rows. -/
def limitIndependent (time : Int) : Option IndependentAlert :=
  (table.independent.filter (fun alert => mode.inRange time alert.date)).foldl
    (extremeIndependent mode) none

structure LimitCandidate (κ σ : Type) where
  relevantEntry : AlertGroup κ σ ⊕ IndependentAlert
  extremeDate : Int
deriving DecidableEq

def relevantEntry (independent : Option IndependentAlert)
    (entry : AlertGroup κ σ) : AlertGroup κ σ ⊕ IndependentAlert :=
  match independent with
  | none => Sum.inl entry
  | some alert =>
    if mode.comp alert.date entry.extremeDate then Sum.inr alert else Sum.inl entry

def limitStep (independent : Option IndependentAlert)
    (cache : κ -> Option (LimitCandidate κ σ)) (entry : AlertGroup κ σ) :
    κ -> Option (LimitCandidate κ σ) :=
  let candidate : LimitCandidate κ σ :=
    { relevantEntry := relevantEntry mode independent entry
      extremeDate := entry.extremeDate }
  match cache entry.key with
  | none => Function.update cache entry.key (some candidate)
  | some current =>
    if mode.comp entry.extremeDate current.extremeDate then
      Function.update cache entry.key (some candidate)
    else cache

/-- The fields outside of the grouping are read in a second query. -/
def additionalMsg (key : κ) (date : Int) : Text :=
  match table.own.find? (fun alert => alert.key = key ∧ alert.date = date) with
  | some alert => alert.msg
  | none =>
    match table.independent.find? (fun alert => alert.date = date) with
    | some alert => alert.msg
    | none => []

def LimitCandidate.toLimitAlert (key : κ) (candidate : LimitCandidate κ σ) : LimitAlert σ :=
  match candidate.relevantEntry with
  | .inl entry =>
    { state := entry.state
      stateType := entry.stateType.toStateType
      date := candidate.extremeDate
      msg := additionalMsg table key candidate.extremeDate }
  | .inr alert =>
    { state := IcingaState.undetermined
      stateType := .undetermined
      date := alert.date
      msg := alert.msg }

/--
The order in which the database returns the groups is not specified, so it is a
parameter.
-/
def doCalcLimitAlerts (groupOrder : List (AlertGroup κ σ) -> List (AlertGroup κ σ))
    (table : AlertTable κ σ) (time : Int) (mode : LimitMode)
    (additionalFilter : κ -> Bool) (key : κ) : Option (LimitAlert σ) :=
  let groups := groupOrder (alertGroups mode (limitRows table mode time additionalFilter))
  let cache := groups.foldl (limitStep mode (limitIndependent table mode time)) (fun _ => none)
  (cache key).map (LimitCandidate.toLimitAlert table key)

/--
The callers hand over the state before the range as a pair, or as the record that the limit query
returns, which has more fields.
-/
inductive LastDescription (σ : Type) where
  | missing
  | pair (description : StateDescription σ)
  | record (alert : LimitAlert σ)

def lastAlertBefore (alerts : List (Entry σ)) (time : Int) : Option (Entry σ) :=
  (alerts.takeWhile (fun alert => alert.date ≤ time)).getLast?

def startEntryOf (downtime : StartStopDuration κ) : Entry σ where
  date := downtime.startEntry.date
  state := IcingaState.plannedDown
  stateType := .plannedDown
  msg := downtime.startEntry.msg

def downtimeEntries (allAlerts : List (Entry σ)) (before : LastDescription σ)
    (downtime : StartStopDuration κ) : Except PyError (List (Entry σ)) :=
  match downtime.endEntry with
  | none => .ok [startEntryOf downtime]
  | some endEntry =>
    match lastAlertBefore allAlerts downtime.start with
    | some alert =>
      .ok [startEntryOf downtime,
        { date := endEntry.date, state := alert.state,
          stateType := alert.stateType, msg := alert.msg }]
    | none =>
      match before with
      | .missing =>
        .ok [startEntryOf downtime,
          { date := endEntry.date, state := IcingaState.undetermined,
            stateType := .undetermined, msg := endEntry.msg }]
      | .pair description =>
        .ok [startEntryOf downtime,
          { date := endEntry.date, state := description.1,
            stateType := description.2, msg := endEntry.msg }]
      | .record _ =>
        -- too many values to unpack
        .error .valueError

def inDowntime (downtimeList : List (StartStopDuration κ)) (time : Int) : Bool :=
  downtimeList.any (fun downtime => downtime.start ≤ time ∧ time < downtime.stop)

def addDowntimesToAlerts (alerts : List (Entry σ)) (before : LastDescription σ)
    (downtimeList : List (StartStopDuration κ)) : Except PyError (List (Entry σ)) :=
  if downtimeList = [] then .ok alerts
  else do
    let added ← downtimeList.mapM (downtimeEntries alerts before)
    return DatedList.sortByDate Entry.date
      (alerts.filter (fun alert => !inDowntime downtimeList alert.date) ++ added.flatten)

def getDowntimeEntry (downtimeList : List (StartStopDuration κ)) (time : Int) :
    Option (StartStopRow κ) :=
  (downtimeList.find? (fun downtime => downtime.start ≤ time ∧ time < downtime.stop)).map
    StartStopDuration.startEntry

end Icsw.StatusHistory
