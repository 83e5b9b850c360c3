import Icsw.StatusHistory.AlertList

/-!
# Historic key performance indicators

Time lines of hosts and services: the states of a key in a range of time, as a
list of dated states from the start of the range to its end.
-/

namespace Icsw.Kpi

open Foundation
open DatedList
open StatusHistory

/-- Ordered by badness. -/
inductive KpiResult where
  | plannedDown
  | ok
  | warning
  | critical
  | unknown
  | undetermined
deriving DecidableEq

def fromIcingaServiceStatus : ServiceAlertState -> KpiResult
  | .plannedDown => .plannedDown
  | .ok => .ok
  | .warning => .warning
  | .critical => .critical
  | .unknown => .unknown
  | .undetermined => .undetermined

def fromIcingaHostStatus : HostAlertState -> KpiResult
  | .plannedDown => .plannedDown
  | .up => .ok
  | .unreachable => .warning
  | .down => .critical
  | .unknown => .unknown
  | .undetermined => .undetermined

/-- States with a conversion to results; different states stay different. -/
class KpiState (σ : Type) extends IcingaState σ where
  convertState : σ -> KpiResult
  convertState_injective : Function.Injective convertState

instance : KpiState ServiceAlertState where
  convertState := fromIcingaServiceStatus
  convertState_injective := by
    intro first second h
    cases first <;> cases second <;> first | rfl | cases h

instance : KpiState HostAlertState where
  convertState := fromIcingaHostStatus
  convertState_injective := by
    intro first second h
    cases first <;> cases second <;> first | rfl | cases h

structure TimeLineEntry where
  date : Int
  state : KpiResult × StateType
deriving DecidableEq

variable {κ σ : Type} [DecidableEq κ] [DecidableEq σ] [KpiState σ]

def convertDescription (description : StateDescription σ) : KpiResult × StateType :=
  (KpiState.convertState description.1, description.2)

def entryToTimeLine (alert : Entry σ) : TimeLineEntry where
  date := alert.date
  state := convertDescription alert.description

/-- The initial state; without one the key has not existed at the start. -/
def initialState (lastBefore : Option (LimitAlert σ)) : KpiResult × StateType :=
  match lastBefore with
  | some alert => convertDescription alert.description
  | none => (KpiState.convertState (IcingaState.undetermined : σ), .undetermined)

def timeLineOf (start stop : Int) (entry : AlertListEntry σ) : Option (List TimeLineEntry) :=
  if entry.alerts = none ∧ entry.lastBefore.isNone then none
  else
    let first : TimeLineEntry := { date := start, state := initialState entry.lastBefore }
    let changes := (dropRepeats Entry.description none (entry.alerts.getD [])).map
      entryToTimeLine
    let last := (first :: changes).getLast (List.cons_ne_nil first changes)
    some (first :: changes ++ [{ date := stop, state := last.state }])

/-- What the tables leave open when time lines are calculated. -/
structure TimeLineContext (κ σ : Type) where
  now : Int
  groupOrder : List (AlertGroup κ σ) -> List (AlertGroup κ σ)
  groupOrder_perm : forall groups, (groupOrder groups).Perm groups

def identifierFilter (identifiers : List κ) (key : κ) : Bool := decide (key ∈ identifiers)

def keyTimeLine (ctx : TimeLineContext κ σ) (table : AlertTable κ σ)
    (downtimes : List (StartStopRow κ)) (identifiers : List κ) (start stop : Int) (key : κ) :
    Except PyError (Option (κ × List TimeLineEntry)) := do
  let entry ← alertListEntry ctx.now ctx.groupOrder table downtimes
    (identifierFilter identifiers) start stop key
  return (timeLineOf start stop entry).map (fun timeLine => (key, timeLine))

/--
The keys are dealt with independently of each other, so the order of the
dictionaries only decides which of several errors is raised.
-/
def calculateTimeLines (ctx : TimeLineContext κ σ) (table : AlertTable κ σ)
    (downtimes : List (StartStopRow κ)) (identifiers : List κ) (start stop : Int) :
    Except PyError (List (κ × List TimeLineEntry)) :=
  -- the filters of no identifiers cannot be reduced to one
  if identifiers = [] then .error .typeError
  else do
    let timeLines ← identifiers.mapM (keyTimeLine ctx table downtimes identifiers start stop)
    return timeLines.filterMap id

end Icsw.Kpi
