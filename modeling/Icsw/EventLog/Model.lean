import Icsw.Foundation.DateText
import Icsw.Foundation.Run
import Icsw.Foundation.TextFile

/-!
# Event logs

The poller queues jobs that fetch the new records of the event logs of devices, and
runs some of them at a time.  A job calls external commands and looks at each tick
whether they have ended.
-/

namespace Icsw.EventLog

open Foundation

/-- An entry of an event log, as it is printed. -/
structure WmiEntry where
  recordNumber : Nat
  timeGenerated : Option Text
deriving DecidableEq

inductive Output where
  | ids (recordIds : List Nat)
  | entries (parsed : List WmiEntry)
  | logfiles (names : List Text)
  | text
  | garbled

structure Answer where
  exitCode : Int
  output : Output

/-- The answer of a command that did not fail. -/
def Answer.succeeded (answer : Answer) : Option Output :=
  if answer.exitCode = 0 then some answer.output else none

def Output.recordIds : Output -> Option (List Nat)
  | .ids recordIds => some recordIds
  | _ => none

def Output.wmiEntries : Output -> Option (List WmiEntry)
  | .entries parsed => some parsed
  | _ => none

def Output.names : Output -> Option (List Text)
  | .logfiles names => some names
  | _ => none

/-- A command that could not be started is broken. -/
inductive ExtCom where
  | running
  | ended (answer : Answer)
  | broken

/-- What a job meets in a tick: whether a command can be started, and whether a command ends
after the job has looked at it. -/
structure Tick where
  spawns : Bool
  late : Bool

def ExtCom.run (tick : Tick) : ExtCom := if tick.spawns then .running else .broken

inductive IpmiPhase where
  | findMaximum (extCom : Option ExtCom)
  | retrieveTime (maxRecordId : Nat) (extCom : Option ExtCom)
  | retrieveEvents (currentRecordId maxRecordId : Nat) (extCom : Option ExtCom)

inductive WmiPhase where
  | initial
  | findMaximum (extCom : ExtCom)
  | retrieveEvents (fromRecordNumber toRecordNumber : Nat) (extCom : Option ExtCom)

inductive JobKind where
  | ipmi (lastKnown : Option Nat) (phase : IpmiPhase)
  | wmiLogFile (logfileCom : Option ExtCom)
  | wmiLogEntry (logfileName : Text) (lastKnown : Option Nat) (phase : WmiPhase)

structure Job where
  targetDevice : Nat
  targetIp : Text
  kind : JobKind

/-- `job == other`: the log of a WMI job is compared, and nothing more of an IPMI job than its
device and address. -/
def Job.eq (job other : Job) : Bool :=
  let same := decide (job.targetDevice = other.targetDevice ∧ job.targetIp = other.targetIp)
  match job.kind, other.kind with
  | .ipmi _ _, _ => same
  | .wmiLogFile _, .wmiLogFile _ => same
  | .wmiLogEntry name _ _, .wmiLogEntry name' _ _ => decide (name = name') && same
  | _, _ => false

structure Database where
  ipmiEventLog : List (Nat × Nat)
  wmiEventLog : List (Nat × Text × Nat)
  wmiLogfile : Nat -> Option (List Text)
  wmiMaximal : Nat -> Text -> Option Nat

def Database.recordIds (db : Database) (device : Nat) : List Nat :=
  (db.ipmiEventLog.filter fun entry => entry.1 = device).map Prod.snd

def Database.storeIpmi (db : Database) (device recordId : Nat) : Database :=
  { db with ipmiEventLog := db.ipmiEventLog ++ [(device, recordId)] }

/-- How a check of a job ends.  A job that finishes may have determined the maximum of its
log. -/
inductive Verdict where
  | continues
  | finished (maximum : Option Nat)
  | raised

def Verdict.ends : Verdict -> Bool
  | .continues => false
  | _ => true

def started (tick : Tick) : Verdict := if tick.spawns then .continues else .raised

def ipmiNext (tick : Tick) (current maximum : Nat) (extCom : Option ExtCom) (idle : Bool) :
    IpmiPhase × Verdict :=
  if current ≤ maximum then
    if idle then
      (.retrieveEvents current maximum (some (ExtCom.run tick)), started tick)
    else (.retrieveEvents current maximum extCom, .continues)
  else (.retrieveEvents current maximum extCom, .finished (some maximum))

/-- No records are fetched if the last one is known. -/
def ipmiMaximum (lastKnown : Option Nat) (answer : Answer) : IpmiPhase × Verdict :=
  match (answer.succeeded.bind Output.recordIds).bind List.max? with
  | none => (.findMaximum (some (.ended answer)), .raised)
  | some maximum =>
    if lastKnown = some maximum then
      (.findMaximum (some (.ended answer)), .finished (some maximum))
    else (.retrieveTime maximum none, .continues)

/-- The time of the device may be unknown. -/
def ipmiTime (lastKnown : Option Nat) (maximum : Nat) (answer : Answer) : IpmiPhase × Verdict :=
  match answer.succeeded with
  | none => (.retrieveTime maximum (some (.ended answer)), .raised)
  | some _ => (.retrieveEvents (lastKnown.getD 0 + 1) maximum none, .continues)

variable (device : Nat)

/-- A record is stored. -/
def ipmiFeed (tick : Tick) (db : Database) (current maximum : Nat)
    (answer : Answer) : Database × IpmiPhase × Verdict :=
  match answer.succeeded with
  | none => (db, .retrieveEvents current maximum (some (.ended answer)), .raised)
  | some _ =>
    (db.storeIpmi device current,
      ipmiNext tick (current + 1) maximum (some (.ended answer)) true)

def ipmiCheck (lastKnown : Option Nat) (tick : Tick) (db : Database) :
    IpmiPhase -> Database × IpmiPhase × Verdict
  | .findMaximum none => (db, .findMaximum (some (ExtCom.run tick)), started tick)
  | .findMaximum (some .running) => (db, .findMaximum (some .running), .continues)
  | .findMaximum (some .broken) => (db, .findMaximum (some .broken), .raised)
  | .findMaximum (some (.ended answer)) => (db, ipmiMaximum lastKnown answer)
  | .retrieveTime maximum none =>
    (db, .retrieveTime maximum (some (ExtCom.run tick)), started tick)
  | .retrieveTime maximum (some .running) =>
    (db, .retrieveTime maximum (some .running), .continues)
  | .retrieveTime maximum (some .broken) => (db, .retrieveTime maximum (some .broken), .raised)
  | .retrieveTime maximum (some (.ended answer)) => (db, ipmiTime lastKnown maximum answer)
  | .retrieveEvents current maximum none => (db, ipmiNext tick current maximum none true)
  | .retrieveEvents current maximum (some .running) =>
    (db, ipmiNext tick current maximum (some .running) tick.late)
  | .retrieveEvents current maximum (some .broken) =>
    (db, .retrieveEvents current maximum (some .broken), .raised)
  | .retrieveEvents current maximum (some (.ended answer)) =>
    ipmiFeed device tick db current maximum answer

/-- A field of two digits between the bounds, or of one, in the order they are tried. -/
def digitFields (least most : Nat) (text : Text) : List (Nat × Text) :=
  let two := match text with
    | c :: d :: rest =>
      match digitOf c, digitOf d with
      | some tens, some ones =>
        if least ≤ tens * 10 + ones ∧ tens * 10 + ones ≤ most then
          [(tens * 10 + ones, rest)]
        else []
      | _, _ => []
    | _ => []
  two ++ (oneDigitField least text).toList

/-- `%d`: the day may follow a blank. -/
def dayFields (text : Text) : List (Nat × Text) :=
  digitFields 1 31 text ++
    match text with
    | ' ' :: rest => (oneDigitField 1 rest).toList
    | _ => []

/-- `datetime.datetime.strptime(text, "%Y%m%d%H%M%S")` -/
def strptimeDigits (text : Text) : Option DateTime :=
  let found := do
    let year ← (yearField text).toList
    let month ← digitFields 1 12 year.2
    let day ← dayFields month.2
    let hour ← digitFields 0 23 day.2
    let minute ← digitFields 0 59 hour.2
    let second ← digitFields 0 61 minute.2
    [((year.1, month.1, day.1), (hour.1, minute.1, second.1), second.2)]
  match found.head? with
  | some ((year, month, day), (hour, minute, second), []) =>
    (Date.ofFields year month day).bind fun date => DateTime.ofFields date hour minute second
  | _ => none

/-- The time, and its offset in minutes.  There is an offset for times before UTC only. -/
def parseDatetime (text : Text) : Option (DateTime × Int) :=
  match splitAll '.' text with
  | [base, zone] => do
      let date ← strptimeDigits base
      match splitAll '-' zone with
      | [_, offset] => (parseInt offset).map fun minutes => (date, minutes)
      | _ => none
  | _ => none

/-- The entries whose time is known. -/
def WmiEntry.dated (entry : WmiEntry) : Bool := (entry.timeGenerated.bind parseDatetime).isSome

def paginationLimit : Nat := 10000

def nextUpperLimit (lower upper : Nat) : Nat := min (lower + paginationLimit) upper

def wmiNext (tick : Tick) (lower upper : Nat) : WmiPhase × Verdict :=
  if upper ≤ lower then (.retrieveEvents lower upper none, .finished (some upper))
  else (.retrieveEvents lower upper (some (ExtCom.run tick)), started tick)

/-- The exit code is not looked at. -/
def wmiMaximum (lastKnown : Option Nat) (answer : Answer) : WmiPhase × Verdict :=
  match answer.output.wmiEntries with
  | none => (.findMaximum (.ended answer), .raised)
  | some parsed =>
    match (parsed.map WmiEntry.recordNumber).max? with
    | none => (.findMaximum (.ended answer), .finished none)
    | some maximum =>
      if lastKnown = none ∨ lastKnown.getD 0 < maximum then
        (.retrieveEvents (lastKnown.getD 0) maximum none, .continues)
      else (.findMaximum (.ended answer), .finished (some maximum))

/-- The rows of the entries whose time is known. -/
def wmiRows (name : Text) (parsed : List WmiEntry) : List (Nat × Text × Nat) :=
  (parsed.filter WmiEntry.dated).map fun entry => (device, name, entry.recordNumber)

def Database.storeWmi (db : Database) (device : Nat) (name : Text)
    (rows : List (Nat × Text × Nat)) (maximal : Nat) : Database :=
  { db with
    wmiEventLog := db.wmiEventLog ++ rows
    wmiMaximal := fun device' name' =>
      if device' = device ∧ name' = name then some maximal else db.wmiMaximal device' name' }

/-- Nothing is stored if one of the entries is stored already. -/
def wmiFeed (name : Text) (tick : Tick) (db : Database) (lower upper : Nat)
    (answer : Answer) : Database × WmiPhase × Verdict :=
  match answer.succeeded.bind Output.wmiEntries with
  | none => (db, .retrieveEvents lower upper (some (.ended answer)), .raised)
  | some parsed =>
    if (wmiRows device name parsed).any fun row => decide (row ∈ db.wmiEventLog) then
      (db, .retrieveEvents lower upper (some (.ended answer)), .raised)
    else
      (db.storeWmi device name (wmiRows device name parsed) (nextUpperLimit lower upper),
        wmiNext tick (nextUpperLimit lower upper) upper)

def wmiCheck (name : Text) (lastKnown : Option Nat) (tick : Tick) (db : Database) :
    WmiPhase -> Database × WmiPhase × Verdict
  | .initial =>
    if tick.spawns then (db, .findMaximum .running, .continues) else (db, .initial, .raised)
  | .findMaximum .running => (db, .findMaximum .running, .continues)
  | .findMaximum .broken => (db, .findMaximum .broken, .raised)
  | .findMaximum (.ended answer) => (db, wmiMaximum lastKnown answer)
  | .retrieveEvents lower upper none => (db, wmiNext tick lower upper)
  | .retrieveEvents lower upper (some .running) =>
    (db, .retrieveEvents lower upper (some .running), .continues)
  | .retrieveEvents lower upper (some .broken) =>
    (db, .retrieveEvents lower upper (some .broken), .raised)
  | .retrieveEvents lower upper (some (.ended answer)) =>
    wmiFeed device name tick db lower upper answer

def logFileFeed (db : Database) (answer : Answer) : Database × Verdict :=
  match answer.succeeded.bind Output.names with
  | none => (db, .raised)
  | some names =>
    ({ db with
        wmiLogfile := fun device' =>
          if device' = device then some names else db.wmiLogfile device' },
      .finished none)

def logFileCheck (db : Database) : Option ExtCom -> Database × Verdict
  | some .running => (db, .continues)
  | some (.ended answer) => logFileFeed device db answer
  | _ => (db, .raised)

/-- `job.periodic_check()` -/
def Job.periodicCheck (job : Job) (tick : Tick) (db : Database) : Database × JobKind × Verdict :=
  match job.kind with
  | .ipmi lastKnown phase =>
    let checked := ipmiCheck job.targetDevice lastKnown tick db phase
    (checked.1, .ipmi lastKnown checked.2.1, checked.2.2)
  | .wmiLogFile logfileCom =>
    let checked := logFileCheck job.targetDevice db logfileCom
    (checked.1, .wmiLogFile logfileCom, checked.2)
  | .wmiLogEntry name lastKnown phase =>
    let checked := wmiCheck job.targetDevice name lastKnown tick db phase
    (checked.1, .wmiLogEntry name lastKnown checked.2.1, checked.2.2)

/-- `job.start()`, unless it raises. -/
def Job.start (job : Job) (tick : Tick) : Option Job :=
  match job.kind with
  | .wmiLogFile _ =>
    if tick.spawns then some { job with kind := .wmiLogFile (some .running) } else none
  | _ => some job

/-- A job that has finished without an error, with the maximum that it has determined. -/
inductive Ended where
  | ipmi (device maximum : Nat)
  | wmi (device : Nat) (logfileName : Text) (maximum : Nat)

/-- What the check of a job tells about its end. -/
def Job.ending (job : Job) : Verdict -> List Ended
  | .finished (some maximum) =>
    match job.kind with
    | .ipmi _ _ => [.ipmi job.targetDevice maximum]
    | .wmiLogFile _ => []
    | .wmiLogEntry name _ _ => [.wmi job.targetDevice name maximum]
  | _ => []

/-- Jobs are objects: the queue and the list of running jobs refer to them. -/
structure Poller where
  db : Database
  jobs : Nat -> Option Job
  created : Nat
  runQueue : List Nat
  jobsRunning : List Nat
  ended : List Ended

namespace Poller

def maxConcurrentJobs : Nat := 5

variable (poller : Poller)

def setJob (id : Nat) (job : Job) : Poller :=
  { poller with jobs := fun id' => if id' = id then some job else poller.jobs id' }

/-- `item == job`, for an item of a list -/
def equals (job : Job) (item : Nat) : Bool :=
  (poller.jobs item).any fun other => other.eq job

def isJobAlreadyRunning (job : Job) : Bool :=
  poller.jobsRunning.any fun id => (poller.jobs id).any fun other => job.eq other

/-- `self.jobs_running.remove(job)`: the first job that is equal to it is removed. -/
def removeRunning (job : Job) : Poller :=
  { poller with jobsRunning := poller.jobsRunning.eraseP (poller.equals job) }

def checked (id : Nat) (job : Job) (result : Database × JobKind × Verdict) : Poller :=
  { poller with
    db := result.1
    ended := poller.ended ++ job.ending result.2.2 }.setJob id { job with kind := result.2.1 }

def checkJob (tick : Nat -> Tick) (poller : Poller) (id : Nat) : Poller :=
  match poller.jobs id with
  | none => poller
  | some job =>
    let result := job.periodicCheck (tick id) poller.db
    let after := poller.checked id job result
    if result.2.2.ends then after.removeRunning job else after

/-- Whether a job may be chosen. -/
def selectable (id : Nat) : Bool :=
  (poller.jobs id).any fun job =>
    decide ((poller.jobsRunning.countP fun other =>
      (poller.jobs other).any fun running =>
        decide (job.targetDevice = running.targetDevice)) < 2) &&
    !poller.isJobAlreadyRunning job

/-- As many jobs are started as may run at a time.  Each of them leaves the queue, or one that
is equal to it does. -/
def startJobs (tick : Nat -> Tick) : Nat -> Poller -> Poller
  | 0, poller => poller
  | count + 1, poller =>
    if poller.jobsRunning.length < maxConcurrentJobs then
      match poller.runQueue.find? poller.selectable with
      | none => poller
      | some id =>
        match poller.jobs id with
        | none => poller
        | some job =>
          let left := { poller with
            runQueue := poller.runQueue.eraseP (poller.equals job) }
          match job.start (tick id) with
          | none => startJobs tick count left
          | some job =>
            startJobs tick count
              { left.setJob id job with jobsRunning := left.jobsRunning ++ [id] }
    else poller

def jobControl (tick : Nat -> Tick) (poller : Poller) : Poller :=
  let checked := poller.jobsRunning.foldl (checkJob tick) poller
  startJobs tick checked.runQueue.length checked

/-- A new job is queued, unless it is running already. -/
def schedule (job : Job) : Poller :=
  if poller.isJobAlreadyRunning job then poller
  else
    { poller.setJob poller.created job with
      created := poller.created + 1
      runQueue := poller.runQueue ++ [poller.created] }

end Poller

/-- A device with its address, and whether the names and passwords for it are known. -/
structure Host where
  device : Nat
  ip : Text
  credentials : Bool

namespace Poller

/-- The lists of logs that are outdated are updated first. -/
def scheduleWmiHost (outdated : Nat -> Bool) (poller : Poller) (host : Host) : Poller :=
  if host.credentials then
    match poller.db.wmiLogfile host.device with
    | some names =>
      if outdated host.device then
        poller.schedule ⟨host.device, host.ip, .wmiLogFile none⟩
      else
        names.foldl (fun poller name => poller.schedule
          ⟨host.device, host.ip,
            .wmiLogEntry name (poller.db.wmiMaximal host.device name) .initial⟩) poller
    | none => poller.schedule ⟨host.device, host.ip, .wmiLogFile none⟩
  else poller

def ipmiJob (poller : Poller) (host : Host) : Job :=
  ⟨host.device, host.ip, .ipmi (poller.db.recordIds host.device).max? (.findMaximum none)⟩

def scheduleIpmiHost (poller : Poller) (host : Host) : Poller :=
  if host.credentials then poller.schedule (poller.ipmiJob host) else poller

def periodicUpdate (wmiHosts ipmiHosts : List Host) (outdated : Nat -> Bool) (poller : Poller) :
    Poller :=
  ipmiHosts.foldl scheduleIpmiHost (wmiHosts.foldl (scheduleWmiHost outdated) poller)

end Poller

structure State where
  poller : Poller
  ipmiLog : Nat -> List Nat
  wmiLog : Nat -> Text -> List WmiEntry

inductive Action where
  | growIpmi (device recordId : Nat)
  | growWmi (device : Nat) (logfileName : Text) (entry : WmiEntry)
  | commandEnds (id : Nat) (answer : Answer)
  | periodicUpdate (wmiHosts ipmiHosts : List Host) (outdated : Nat -> Bool)
  | jobControl (tick : Nat -> Tick)

def ExtCom.endWith (answer : Answer) : ExtCom -> ExtCom
  | .running => .ended answer
  | extCom => extCom

def JobKind.commandEnds (answer : Answer) : JobKind -> JobKind
  | .ipmi lastKnown (.findMaximum extCom) =>
    .ipmi lastKnown (.findMaximum (extCom.map (ExtCom.endWith answer)))
  | .ipmi lastKnown (.retrieveTime maximum extCom) =>
    .ipmi lastKnown (.retrieveTime maximum (extCom.map (ExtCom.endWith answer)))
  | .ipmi lastKnown (.retrieveEvents current maximum extCom) =>
    .ipmi lastKnown (.retrieveEvents current maximum (extCom.map (ExtCom.endWith answer)))
  | .wmiLogFile logfileCom => .wmiLogFile (logfileCom.map (ExtCom.endWith answer))
  | .wmiLogEntry name lastKnown .initial => .wmiLogEntry name lastKnown .initial
  | .wmiLogEntry name lastKnown (.findMaximum extCom) =>
    .wmiLogEntry name lastKnown (.findMaximum (extCom.endWith answer))
  | .wmiLogEntry name lastKnown (.retrieveEvents lower upper extCom) =>
    .wmiLogEntry name lastKnown
      (.retrieveEvents lower upper (extCom.map (ExtCom.endWith answer)))

def State.step (state : State) : Action -> State
  | .growIpmi device recordId =>
    { state with ipmiLog := fun device' =>
        if device' = device then state.ipmiLog device ++ [recordId] else state.ipmiLog device' }
  | .growWmi device name entry =>
    { state with wmiLog := fun device' name' =>
        if device' = device ∧ name' = name then state.wmiLog device name ++ [entry]
        else state.wmiLog device' name' }
  | .commandEnds id answer =>
    match state.poller.jobs id with
    | none => state
    | some job =>
      let ended := { job with kind := job.kind.commandEnds answer }
      { state with poller := state.poller.setJob id ended }
  | .periodicUpdate wmiHosts ipmiHosts outdated =>
    { state with poller := state.poller.periodicUpdate wmiHosts ipmiHosts outdated }
  | .jobControl tick => { state with poller := state.poller.jobControl tick }

def State.new : State where
  poller :=
    { db := ⟨[], [], fun _ => none, fun _ _ => none⟩
      jobs := fun _ => none
      created := 0
      runQueue := []
      jobsRunning := []
      ended := [] }
  ipmiLog := fun _ => []
  wmiLog := fun _ _ => []

end Icsw.EventLog
