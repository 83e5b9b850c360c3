import Icsw.Foundation.Decimal
import Icsw.Foundation.Dict

/-!
# Output of qacct

The accounting records that the batch system prints, a block of lines for each.
-/

namespace Icsw.Rms

open Foundation List

/-- A value of a record.  Times are seconds. -/
inductive Field where
  | int (value : Nat)
  | none
  | time (value : Int)
  | str (text : Text)
deriving DecidableEq

/-- `_value.isdigit()` -/
def isDigits (value : Text) : Bool := decide (value ≠ []) && value.all Char.isDigit

/-- `value.split()` -/
def words (value : Text) : List Text :=
  (value.splitOnP isWhitespace).filter fun word => decide (word ≠ [])

section Read

-- Local times of the form `%a %b %d %H:%M:%S %Y`, by the time zone of the cluster.
variable (localize : Text -> Option Int)

def readValue (key value : Text) : Except PyError Field :=
  if isDigits value then .ok (.int (Nat.ofDigitChars 10 value 0))
  else if value ∈ ["NONE".toList, "undefined".toList, "-/-".toList] then .ok .none
  else if "time".toList.isSuffixOf key ∧ 4 < (words value).length then
    match localize value with
    | some time => .ok (.time time)
    | none => .error .valueError
  else .ok (.str value)

def readLine (dict : Dict Text Field) (line : Text) : Except PyError (Dict Text Field) :=
  let text := strip line
  let value := (text.dropWhile fun c => !isWhitespace c).dropWhile isWhitespace
  if value = [] then .ok dict
  else do
    let key := text.takeWhile fun c => !isWhitespace c
    let field ← readValue localize key value
    .ok (dict.insert key field)

/-- The lines between two separators, as a dictionary. -/
def readBlock (lines : List Text) : Except PyError (Dict Text Field) :=
  lines.foldlM (readLine localize) ∅

end Read

/-- A number, with a text where it was given with one. -/
abbrev Status := Int × Text

/-- A record of a job, or of a task of it; tasks are counted from one. -/
structure Record where
  jobnumber : Nat
  taskid : Option Nat
  taskid_ne_zero : taskid ≠ some 0
  owner : Text
  jobname : Text
  hostname : Text
  qname : Text
  grantedPe : Option Text
  slots : Option Int
  priority : Int
  project : Option Text
  department : Option Text
  account : Text
  failed : Status
  exitStatus : Status
  qsubTime : Option Int
  startTime : Option Int
  endTime : Option Int
deriving DecidableEq

section Fields

variable (dict : Dict Text Field) (key : Text)

def field : Except PyError Field :=
  match dict.lookup key with
  | some value => .ok value
  | none => .error .keyError

def optionalText : Except PyError (Option Text) := do
  match ← field dict key with
  | .int value => .ok (some (formatInt value))
  | .none => .ok none
  | .time _ => .error .typeError
  | .str text => .ok (some text)

def requiredText : Except PyError Text := do
  match ← optionalText dict key with
  | some text => .ok text
  | none => .error .dataError

def optionalInt : Except PyError (Option Int) := do
  match ← field dict key with
  | .int value => .ok (some value)
  | .none => .ok none
  | .time _ => .error .typeError
  | .str text =>
    match parseInt text with
    | some value => .ok (some value)
    | none => .error .valueError

def requiredInt : Except PyError Int := do
  match ← optionalInt dict key with
  | some value => .ok value
  | none => .error .dataError

def optionalTime : Except PyError (Option Int) := do
  match ← field dict key with
  | .time value => .ok (some value)
  | .none => .ok none
  | _ => .error .valueError

def status : Except PyError Status := do
  match ← field dict key with
  | .int value => .ok (value, [])
  | .none => .error .attributeError
  | .time _ => .error .attributeError
  | .str text =>
    let text := strip text
    let rest := (text.dropWhile fun c => !isWhitespace c).dropWhile isWhitespace
    match parseInt (text.takeWhile fun c => !isWhitespace c) with
    | some value => if rest = [] then .error .valueError else .ok (value, strip rest)
    | none => .error .valueError

end Fields

def readRecord (dict : Dict Text Field) : Except PyError Record := do
  let jobnumber ← match ← field dict "jobnumber".toList with
    | .int value => .ok value
    | _ => .error .valueError
  let taskid ← match ← field dict "taskid".toList with
    | .int value => .ok (some value)
    | .none => .ok none
    | _ => .error .valueError
  let owner ← requiredText dict "owner".toList
  let jobname ← requiredText dict "jobname".toList
  let hostname ← requiredText dict "hostname".toList
  let qname ← requiredText dict "qname".toList
  let grantedPe ← optionalText dict "granted_pe".toList
  let slots ← optionalInt dict "slots".toList
  let priority ← requiredInt dict "priority".toList
  let project ← optionalText dict "project".toList
  let department ← optionalText dict "department".toList
  let account ← requiredText dict "account".toList
  let failed ← status dict "failed".toList
  let exitStatus ← status dict "exit_status".toList
  let qsubTime ← optionalTime dict "qsub_time".toList
  let startTime ← optionalTime dict "start_time".toList
  let endTime ← optionalTime dict "end_time".toList
  if htask : taskid = some 0 then .error .valueError
  else
    .ok
      { jobnumber, taskid, taskid_ne_zero := htask, owner, jobname, hostname, qname, grantedPe,
        slots, priority, project, department, account, failed, exitStatus, qsubTime, startTime,
        endTime }

def readOutput (localize : Text -> Option Int) (curOut : Text) : Except PyError (List Record) := do
  let blocks := (splitAll '\n' curOut).splitOnP fun line => "===".toList.isPrefixOf line
  let dicts ← blocks.mapM (readBlock localize)
  (dicts.filter fun dict => "jobnumber".toList ∈ dict).mapM readRecord

/-!
## Import of accounting records

Every start of a job leaves a run of it in the database; the accounting records of
the batch system complete the runs, or add those that are missing.
-/

structure JobRun where
  idx : Nat
  jobid : Nat
  taskid : Option Nat
  device : Option Nat
  hostname : Text
  rmsPe : Option Text
  rmsProject : Option Text
  rmsDepartment : Option Text
  grantedPe : Text
  slots : Option Int
  priority : Int
  account : Text
  failed : Status
  exitStatus : Status
  queueTime : Option Int
  rmsQueue : Text
  startTime : Option Int
  endTime : Option Int
  startTimePy : Option Int
  endTimePy : Option Int
  qacctCalled : Bool
deriving DecidableEq

structure PeInfo where
  rmsJobRun : Nat
  device : Option Nat
  hostname : Text
  slots : Int
deriving DecidableEq

structure JobVariable where
  rmsJobRun : Option Nat
  name : Text
  rawValue : Text
  unit : Text
deriving DecidableEq

/-- The tables, and the next primary key of the runs. -/
@[ext] structure Database where
  runs : List JobRun
  peInfos : List PeInfo
  jobVariables : List JobVariable
  next : Nat
  fresh : forall run, run ∈ runs -> run.idx < next
  unique : (runs.map JobRun.idx).Nodup

def Record.isFor (record : Record) (run : JobRun) : Bool :=
  decide (run.jobid = record.jobnumber ∧ run.taskid = record.taskid)

def Record.sameTimes (record : Record) (run : JobRun) : Bool :=
  decide (run.startTime = record.startTime ∧ run.endTime = record.endTime)

/-- A record that is not crippled. -/
def Record.complete (record : Record) : Bool := record.startTime.isSome && record.endTime.isSome

/-- A run that has all of its accounting data. -/
def JobRun.closed (run : JobRun) : Bool :=
  run.qacctCalled && run.startTime.isSome && run.endTime.isSome

namespace Database

def runsOf (db : Database) (record : Record) : List JobRun := db.runs.filter record.isFor

def add (db : Database) (run : JobRun) : Database where
  runs := db.runs ++ [{ run with idx := db.next }]
  peInfos := db.peInfos
  jobVariables := db.jobVariables
  next := db.next + 1
  fresh := by
    intro other hother
    rcases mem_append.mp hother with hold | hnew
    · exact Nat.lt_succ_of_lt (db.fresh other hold)
    · rw [mem_singleton.mp hnew]
      exact Nat.lt_succ_self db.next
  unique := by
    rw [map_append, map_singleton, nodup_append]
    refine ⟨db.unique, nodup_singleton _, ?_⟩
    intro idx hidx other hother
    rcases mem_map.mp hidx with ⟨run, hrun, rfl⟩
    rw [mem_singleton.mp hother]
    exact Nat.ne_of_lt (db.fresh run hrun)

/-- The row of the run is replaced. -/
def saved (run : JobRun) (runs : List JobRun) : List JobRun :=
  runs.map fun other => if other.idx = run.idx then run else other

theorem idx_saved (run : JobRun) (runs : List JobRun) :
    (saved run runs).map JobRun.idx = runs.map JobRun.idx := by
  rw [saved, map_map]
  apply map_congr_left
  intro other _
  show (if other.idx = run.idx then run else other).idx = other.idx
  by_cases hidx : other.idx = run.idx
  · rw [if_pos hidx, hidx]
  · rw [if_neg hidx]

/-- `run.save()` -/
def save (db : Database) (run : JobRun) : Database where
  runs := saved run db.runs
  peInfos := db.peInfos
  jobVariables := db.jobVariables
  next := db.next
  fresh := by
    intro other hother
    have hidx := mem_map_of_mem (f := JobRun.idx) hother
    rw [idx_saved] at hidx
    rcases mem_map.mp hidx with ⟨old, hold, heq⟩
    rw [← heq]
    exact db.fresh old hold
  unique := by
    rw [idx_saved]
    exact db.unique

/-- The runs of the job of a record are deleted, and what is attached to them with them. -/
def deleteRuns (db : Database) (record : Record) : Database where
  runs := db.runs.filter fun run => !record.isFor run
  peInfos := db.peInfos.filter fun info =>
    decide (info.rmsJobRun ∉ (db.runsOf record).map JobRun.idx)
  jobVariables := db.jobVariables.filter fun entry =>
    decide (forall idx, entry.rmsJobRun = some idx -> idx ∉ (db.runsOf record).map JobRun.idx)
  next := db.next
  fresh := fun run hrun => db.fresh run (mem_of_mem_filter hrun)
  unique := db.unique.sublist (filter_sublist.map JobRun.idx)

end Database

/-- What the import looks up besides. -/
structure Surroundings where
  localize : Text -> Option Int
  getDevice : Text -> Option Nat
  now : Int

variable (env : Surroundings)

def newRun (record : Record) (idx : Nat) : JobRun where
  idx := idx
  jobid := record.jobnumber
  taskid := record.taskid
  device := env.getDevice record.hostname
  hostname := record.hostname
  rmsPe := record.grantedPe
  rmsProject := none
  rmsDepartment := none
  grantedPe := record.grantedPe.getD []
  slots := record.slots
  priority := 0
  account := []
  failed := (0, [])
  exitStatus := (0, [])
  queueTime := none
  rmsQueue := record.qname
  startTime := none
  endTime := none
  startTimePy := some env.now
  endTimePy := none
  qacctCalled := false

def JobRun.feedQacctData (run : JobRun) (record : Record) : JobRun :=
  { run with
    priority := record.priority
    rmsProject := record.project
    rmsDepartment := record.department
    account := record.account
    failed := record.failed
    exitStatus := record.exitStatus
    startTime := record.startTime.or run.startTime
    endTime := record.endTime.or run.endTime
    queueTime := record.qsubTime.or run.queueTime
    qacctCalled := true }

variable (db : Database)

def addJobFromQacct (record : Record) : Database × JobRun :=
  (db.add (newRun env record db.next), newRun env record db.next)

def feedNewRun (record : Record) : Database :=
  let added := addJobFromQacct env db record
  added.1.save (added.2.feedQacctData record)

def curJobRun (record : Record) : Option JobRun :=
  match db.runsOf record with
  | [] => none
  | [run] => some run
  | runs => runs.find? record.sameTimes

def feedQacct (record : Record) : Database × Nat :=
  if record.complete then
    match curJobRun db record with
    | none => (feedNewRun env db record, 1)
    | some run =>
      if run.closed then
        if record.sameTimes run then (db, 0)
        else (feedNewRun env db record, 1)
      else (db.save (run.feedQacctData record), 1)
  else (db, 0)

def feedAll (env : Surroundings) : Database -> List Record -> Database × Nat
  | db, [] => (db, 0)
  | db, record :: rest =>
    let fed := feedQacct env db record
    let later := feedAll env fed.1 rest
    (later.1, fed.2 + later.2)

structure Imported where
  db : Database
  found : Nat
  matched : Nat

def importRecords (records : List Record) (needed : Nat) : Except PyError Imported :=
  let fed := feedAll env db records
  if needed = records.length ∧ fed.2 = 0 then
    match records.head? with
    | none => .error .indexError
    | some first =>
      let again := feedAll env (fed.1.deleteRuns first) records
      .ok ⟨again.1, records.length, again.2⟩
  else .ok ⟨fed.1, records.length, fed.2⟩

def interpretQacct (curOut : Text) (needed : Nat) :
    Except PyError Imported := do
  let records ← readOutput env.localize curOut
  importRecords env db records needed

end Icsw.Rms
