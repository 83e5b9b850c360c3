import Icsw.Foundation.Program
import Icsw.Foundation.TextFile
import Icsw.StatusHistory.Model

/-!
# Reading the Icinga log

A log file is parsed line by line..  A line gives entries for the raw tables, a warning, or neither;
everything is stored after the last line..  Timestamps are seconds.
-/

namespace Icsw.LogReader

open Foundation
open StatusHistory (HostAlertState ServiceAlertState StateType StartStop)

/-- What the database knows; `lower` is the table of lower-case letters. -/
structure Known where
  devices : List (Nat × Text)
  checkCommands : List (Nat × Text)
  lower : Char -> Char

/-- The identifier that a later row gives to a name, if there are several. -/
def lookupName (rows : List (Nat × Text)) (name : Text) : Option Nat :=
  (rows.reverse.find? (fun row => row.2 = name)).map Prod.fst

/-- An identifier that is true as a condition. -/
def truthy (id : Option Nat) : Option Nat := id.filter (fun value => value ≠ 0)

/-- An identifier from a log, if it is still valid. -/
def validId (rows : List (Nat × Text)) (id : Option Int) : Option Nat :=
  id.bind (fun value => (rows.map Prod.fst).find? (fun pk => (pk : Int) = value))

variable (known : Known)

def resolveHost (hostSpec : Text) : Option Nat :=
  lookupName known.devices hostSpec

def descriptionKey (description : Text) : Text :=
  (description.map (fun c => if c = ' ' then '_' else c)).map known.lower

def resolveService (serviceSpec : Text) : Option Nat :=
  lookupName (known.checkCommands.map (fun row => (row.1, descriptionKey known row.2)))
    (descriptionKey known serviceSpec)

/-- Check command, if it is known, and info text. -/
structure ServiceId where
  service : Option Nat
  serviceInfo : Option Text
deriving DecidableEq

structure AlertData (σ : Type) where
  state : σ
  stateType : StateType
  logRotationState : Bool
  initialState : Bool
deriving DecidableEq

structure NotificationData (σ : Type) where
  state : σ
  user : Text
  notificationType : Text
deriving DecidableEq

/-- What the rows of the eight raw tables do not have in common. -/
inductive Record where
  | hostAlert (data : AlertData HostAlertState)
  | serviceAlert (id : ServiceId) (data : AlertData ServiceAlertState)
  | hostFlapping (state : StartStop)
  | serviceFlapping (id : ServiceId) (state : StartStop)
  | hostNotification (data : NotificationData HostAlertState)
  | serviceNotification (id : ServiceId) (data : NotificationData ServiceAlertState)
  | hostDowntime (state : StartStop)
  | serviceDowntime (id : ServiceId) (state : StartStop)
deriving DecidableEq

inductive Table where
  | hostAlerts
  | serviceAlerts
  | hostFlappings
  | serviceFlappings
  | hostNotifications
  | serviceNotifications
  | hostDowntimes
  | serviceDowntimes
deriving DecidableEq

def Record.table : Record -> Table
  | .hostAlert _ => .hostAlerts
  | .serviceAlert _ _ => .serviceAlerts
  | .hostFlapping _ => .hostFlappings
  | .serviceFlapping _ _ => .serviceFlappings
  | .hostNotification _ => .hostNotifications
  | .serviceNotification _ _ => .serviceNotifications
  | .hostDowntime _ => .hostDowntimes
  | .serviceDowntime _ _ => .serviceDowntimes

/-- A row to be stored; `logfile` is the archived log file it comes from. -/
structure Entry where
  date : Int
  device : Option Nat
  deviceIndependent : Bool
  record : Record
  msg : Text
  logfile : Option Nat
deriving DecidableEq

/-- Two exceptions of the reader, each with its text, and those of the language. -/
inductive LogError where
  | malformed (text : Text)
  | unknownHost (text : Text)
  | raised (error : PyError)
deriving DecidableEq

def minTimestamp : Int := -62135596800

def maxTimestamp : Int := 253402300799

def isDate (timestamp : Int) : Bool := minTimestamp ≤ timestamp ∧ timestamp ≤ maxTimestamp

def parseTimestamp (timestamp : Int) : Except PyError Int :=
  if isDate timestamp then .ok timestamp else .error .valueError

structure LogLine where
  timestamp : Int
  kind : Option Text
  info : Text
  lineNo : Option Nat
deriving DecidableEq

def lineNoText (lineNo : Option Nat) : Text :=
  match lineNo with
  | some number => (toString number).toList
  | none => "None".toList

def malformedLine (lineNo : Option Nat) (line : Text) (error : String) : LogError :=
  .malformed ("Malformed line ".toList ++ lineNoText lineNo ++ ": ".toList ++ line ++
    (" (error #" ++ error ++ ")").toList)

def splitTimestamp (line : Text) (lineNo : Option Nat) : Except LogError (Int × Text) :=
  match split [' '] 1 line with
  | [timestampRaw, infoRaw] =>
    match parseInt (timestampRaw.drop 1).dropLast with
    | some timestamp => .ok (timestamp, infoRaw)
    | none => .error (malformedLine lineNo line "2")
  | _ => .error (malformedLine lineNo line "1")

/-- A message is a kind and an info, or an info only. -/
def toLogLine (timestamp : Int) (infoRaw : Text) (lineNo : Option Nat) : LogLine :=
  match split ": ".toList 1 infoRaw with
  | [kind, info] => ⟨timestamp, some kind, info, lineNo⟩
  | _ => ⟨timestamp, none, infoRaw, lineNo⟩

def parseLine (line : Text) (lineNo : Option Nat) : Except LogError LogLine := do
  let (timestamp, infoRaw) ← splitTimestamp line lineNo
  return toLogLine timestamp infoRaw lineNo

/-- The kinds of lines that are of interest. -/
inductive Kind where
  | serviceAlert
  | currentServiceState
  | initialServiceState
  | hostAlert
  | currentHostState
  | initialHostState
  | serviceFlappingAlert
  | hostFlappingAlert
  | serviceNotification
  | hostNotification
  | hostDowntimeAlert
  | serviceDowntimeAlert
deriving DecidableEq

def kinds : List (Text × Kind) :=
  [("SERVICE ALERT".toList, .serviceAlert),
   ("CURRENT SERVICE STATE".toList, .currentServiceState),
   ("INITIAL SERVICE STATE".toList, .initialServiceState),
   ("HOST ALERT".toList, .hostAlert),
   ("CURRENT HOST STATE".toList, .currentHostState),
   ("INITIAL HOST STATE".toList, .initialHostState),
   ("SERVICE FLAPPING ALERT".toList, .serviceFlappingAlert),
   ("HOST FLAPPING ALERT".toList, .hostFlappingAlert),
   ("SERVICE NOTIFICATION".toList, .serviceNotification),
   ("HOST NOTIFICATION".toList, .hostNotification),
   ("HOST DOWNTIME ALERT".toList, .hostDowntimeAlert),
   ("SERVICE DOWNTIME ALERT".toList, .serviceDowntimeAlert)]

def LogLine.kindOfInterest (line : LogLine) : Option Kind := line.kind.bind (fun kind => kinds.lookup kind)

def Kind.isDump : Kind -> Bool
  | .currentHostState => true
  | .currentServiceState => true
  | .initialHostState => true
  | .initialServiceState => true
  | _ => false

def hostStates : List (Text × HostAlertState) :=
  [("UP".toList, .up), ("DOWN".toList, .down), ("UNREACHABLE".toList, .unreachable),
   ("UNKNOWN".toList, .unknown), ("PLANNED DOWN".toList, .plannedDown),
   ("UNDETERMINED".toList, .undetermined)]

def serviceStates : List (Text × ServiceAlertState) :=
  [("OK".toList, .ok), ("WARNING".toList, .warning), ("UNKNOWN".toList, .unknown),
   ("CRITICAL".toList, .critical), ("UNDETERMINED".toList, .undetermined),
   ("PLANNED DOWN".toList, .plannedDown)]

def stateTypes : List (Text × StateType) :=
  [("SOFT".toList, .soft), ("HARD".toList, .hard)]

def startStops : List (Text × StartStop) :=
  [("STARTED".toList, .start), ("STOPPED".toList, .stop)]

def fieldOr {α : Type} (table : List (Text × α)) (field : Text) (error : LogError) :
    Except LogError α :=
  match table.lookup field with
  | some value => .ok value
  | none => .error error

def malformedEntry (what : String) (info : Text) (error : String) : LogError :=
  .malformed (("Malformed " ++ what ++ ": ").toList ++ info ++
    (" (error #" ++ error ++ ")").toList)

def unknownHostSpec (hostSpec : Text) : LogError :=
  .unknownHost ("Failed to resolve host: ".toList ++ hostSpec ++ " (error #2)".toList)

def intOrRaise (text : Text) : Except PyError Int :=
  match parseInt text with
  | some value => .ok value
  | none => .error .valueError

def parseHostServiceDescription (serviceSpec : Text) :
    Except PyError (Option Int × Option Int × Option Text) :=
  match split [':'] 1 serviceSpec with
  | [form, rest] =>
    if form = "host_check".toList then
      if 2 ≤ rest.count ':' then
        match split [':'] 2 rest with
        | [hostPk, servicePk, info] => do
            let host ← intOrRaise hostPk
            let service ← intOrRaise servicePk
            return (some host, some service, some info)
        | _ => .error .valueError
      else .ok (none, none, none)
    else if form = "s_host_check".toList then
      if 3 ≤ rest.count ':' then
        match split [':'] 3 rest with
        | [hostPk, servicePk, _, info] => do
            let host ← intOrRaise hostPk
            let service ← intOrRaise servicePk
            return (some host, some service, some info)
        | _ => .error .valueError
      else .ok (none, none, none)
    else .ok (none, none, none)
  | _ => .ok (none, none, none)

def parseHostService (hostSpec serviceSpec : Text) : Except LogError (Nat × ServiceId) :=
  match parseHostServiceDescription serviceSpec with
  | .error error => .error (.raised error)
  | .ok (loggedHost, loggedService, info) =>
    match (truthy (validId known.devices loggedHost)).or
        (truthy (resolveHost known hostSpec)) with
    | none => .error (unknownHostSpec hostSpec)
    | some host =>
      match truthy (validId known.checkCommands loggedService) with
      | some service => .ok (host, ⟨some service, info⟩)
      | none =>
        .ok (host, ⟨truthy (resolveService known serviceSpec), some serviceSpec⟩)

variable (info : Text)

def parseHostAlert : Except LogError (Nat × HostAlertState × StateType × Text) :=
  match split [';'] 4 info with
  | [hostSpec, stateField, typeField, _, msg] =>
    match truthy (resolveHost known hostSpec) with
    | none => .error (unknownHostSpec hostSpec)
    | some host => do
        -- the text of this error has more placeholders than arguments
        let state ← fieldOr hostStates stateField (.raised .indexError)
        let stateType ← fieldOr stateTypes typeField (malformedEntry "host entry" info "4")
        return (host, state, stateType, msg)
  | _ => .error (malformedEntry "host entry" info "1")

def parseServiceAlert : Except LogError (Nat × ServiceId × ServiceAlertState × StateType × Text) :=
  match split [';'] 5 info with
  | [hostSpec, serviceSpec, stateField, typeField, _, msg] => do
      let (host, service) ← parseHostService known hostSpec serviceSpec
      let state ← fieldOr serviceStates stateField (malformedEntry "state entry" info "6")
      let stateType ← fieldOr stateTypes typeField (malformedEntry "host entry" info "5")
      return (host, service, state, stateType, msg)
  | _ => .error (malformedEntry "service entry" info "1")

/-- Flapping alerts and downtime alerts of hosts differ in the texts of their errors. -/
def parseHostStartStop (what whatState : String)
    (stateError : String) : Except LogError (Option Nat × StartStop × Text) :=
  match split [';'] 2 info with
  | [hostSpec, stateField, msg] => do
      let host := resolveHost known hostSpec
      let state ← fieldOr startStops stateField (malformedEntry whatState info stateError)
      return (host, state, msg)
  | _ => .error (malformedEntry what info "1")

def parseHostFlappingAlert : Except LogError (Option Nat × StartStop × Text) :=
  parseHostStartStop known info "host flapping entry" "flapping state entry" "7"

def parseHostDowntimeAlert : Except LogError (Option Nat × StartStop × Text) :=
  parseHostStartStop known info "host downtime entry" "host downtime state entry" "2"

def parseServiceStartStop (what whatState : String)
    (stateError : String) : Except LogError (Nat × ServiceId × StartStop × Text) :=
  match split [';'] 3 info with
  | [hostSpec, serviceSpec, stateField, msg] => do
      let (host, service) ← parseHostService known hostSpec serviceSpec
      let state ← fieldOr startStops stateField (malformedEntry whatState info stateError)
      return (host, service, state, msg)
  | _ => .error (malformedEntry what info "1")

def parseServiceFlappingAlert : Except LogError (Nat × ServiceId × StartStop × Text) :=
  parseServiceStartStop known info "service flapping entry" "flapping state entry" "7"

def parseServiceDowntimeAlert : Except LogError (Nat × ServiceId × StartStop × Text) :=
  parseServiceStartStop known info "service downtime entry" "service downtime state entry" "2"

def parseHostNotification : Except LogError (Text × Option Nat × HostAlertState × Text × Text) :=
  match split [';'] 4 info with
  | [user, hostSpec, stateField, notificationType, msg] => do
      let host := resolveHost known hostSpec
      let state ← fieldOr hostStates stateField (malformedEntry "state in entry" info "6")
      return (user, host, state, notificationType, msg)
  | _ => .error (malformedEntry "service notification entry" info "1")

def parseServiceNotification :
    Except LogError (Text × Nat × ServiceId × ServiceAlertState × Text × Text) :=
  match split [';'] 5 info with
  | [user, hostSpec, serviceSpec, stateField, notificationType, msg] => do
      let (host, service) ← parseHostService known hostSpec serviceSpec
      let state ← fieldOr serviceStates stateField (malformedEntry "state in entry" info "6")
      return (user, host, service, state, notificationType, msg)
  | _ => .error (malformedEntry "service notification entry" info "1")

def create (line : LogLine) (logfile : Option Nat)
    (parsed : Except LogError (Option Nat × Record × Text)) :
    Except LogError (Option Entry × List Text) :=
  match parsed with
  | .error (.unknownHost warning) => .ok (none, [warning])
  | .error error => .error error
  | .ok (device, record, msg) =>
    match parseTimestamp line.timestamp with
    | .error error => .error (.raised error)
    | .ok date =>
      .ok (some { date := date, device := device, deviceIndependent := false,
                  record := record, msg := msg, logfile := logfile }, [])

def hostAlertRecord (logRotationState initialState : Bool) :
    Except LogError (Option Nat × Record × Text) := do
  let (host, state, stateType, msg) ← parseHostAlert known info
  return (some host, .hostAlert ⟨state, stateType, logRotationState, initialState⟩, msg)

def serviceAlertRecord (logRotationState initialState : Bool) :
    Except LogError (Option Nat × Record × Text) := do
  let (host, service, state, stateType, msg) ← parseServiceAlert known info
  return (some host,
    .serviceAlert service ⟨state, stateType, logRotationState, initialState⟩, msg)

def serviceFlappingRecord :
    Except LogError (Option Nat × Record × Text) := do
  let (host, service, state, msg) ← parseServiceFlappingAlert known info
  return (some host, .serviceFlapping service state, msg)

def hostFlappingRecord :
    Except LogError (Option Nat × Record × Text) := do
  let (host, state, msg) ← parseHostFlappingAlert known info
  return (host, .hostFlapping state, msg)

def serviceNotificationRecord :
    Except LogError (Option Nat × Record × Text) := do
  let (user, host, service, state, notificationType, msg) ←
    parseServiceNotification known info
  return (some host, .serviceNotification service ⟨state, user, notificationType⟩, msg)

def hostNotificationRecord :
    Except LogError (Option Nat × Record × Text) := do
  let (user, host, state, notificationType, msg) ← parseHostNotification known info
  return (host, .hostNotification ⟨state, user, notificationType⟩, msg)

def hostDowntimeRecord :
    Except LogError (Option Nat × Record × Text) := do
  let (host, state, msg) ← parseHostDowntimeAlert known info
  return (host, .hostDowntime state, msg)

def serviceDowntimeRecord :
    Except LogError (Option Nat × Record × Text) := do
  let (host, service, state, msg) ← parseServiceDowntimeAlert known info
  return (some host, .serviceDowntime service state, msg)

/-- Device, record and message of a line of interest. -/
def recordOf (kind : Kind) (info : Text) : Except LogError (Option Nat × Record × Text) :=
  match kind with
  | .serviceAlert => serviceAlertRecord known info false false
  | .currentServiceState => serviceAlertRecord known info true false
  | .initialServiceState => serviceAlertRecord known info false true
  | .hostAlert => hostAlertRecord known info false false
  | .currentHostState => hostAlertRecord known info true false
  | .initialHostState => hostAlertRecord known info false true
  | .serviceFlappingAlert => serviceFlappingRecord known info
  | .hostFlappingAlert => hostFlappingRecord known info
  | .serviceNotification => serviceNotificationRecord known info
  | .hostNotification => hostNotificationRecord known info
  | .hostDowntimeAlert => hostDowntimeRecord known info
  | .serviceDowntimeAlert => serviceDowntimeRecord known info

def createIcingaDownEntry (date : Int) (msg : Text) (logfile : Option Nat) : List Entry :=
  [.hostAlert ⟨.undetermined, .undetermined, false, false⟩,
    .serviceAlert ⟨none, none⟩ ⟨.undetermined, .undetermined, false, false⟩,
    .hostFlapping .stop, .serviceFlapping ⟨none, none⟩ .stop].map (fun record =>
      { date := date, device := none, deviceIndependent := true, record := record,
        msg := msg, logfile := logfile })

structure LineResult where
  created : List Entry
  dumpTime : Option Int
  line : Option LogLine
  warnings : List Text
deriving DecidableEq

/-- Only newer lines are considered, except for the states at the start of a file. -/
def considered (startAt : Option Int) (line : LogLine) : Bool :=
  match startAt with
  | none => true
  | some start =>
    decide (start < line.timestamp) ||
      line.kindOfInterest = some .currentHostState ||
      line.kindOfInterest = some .currentServiceState

def shutdownMessage : Text := "Successfully shutdown".toList

variable (logfile : Option Nat)

/-- Entries and warnings of a line as a message about a shutdown. -/
def readSpecial (text : Text) : Except PyError (List Entry × List Text) :=
  match splitTimestamp text none with
  | .ok (timestamp, msg) =>
    if shutdownMessage.isPrefixOf msg then do
      let date ← parseTimestamp timestamp
      return (createIcingaDownEntry date msg logfile, [])
    else .ok ([], [])
  | .error (.malformed warning) => .ok ([], [warning])
  | .error (.unknownHost _) => .ok ([], [])
  | .error (.raised error) => .error error

def readKind (line : LogLine) (kind : Kind) : Except PyError (List Entry × List Text) :=
  match create line logfile (recordOf known kind line.info) with
  | .ok (entry, warnings) => .ok (entry.toList, warnings)
  | .error (.malformed warning) => .ok ([], [warning])
  | .error (.unknownHost _) => .ok ([], [])
  | .error (.raised error) => .error error

def readRegular (startAt : Option Int) (text : Text)
    (lineNo : Option Nat) : Except PyError LineResult :=
  match parseLine text lineNo with
  | .error (.malformed warning) => .ok ⟨[], none, none, [warning]⟩
  | .error (.unknownHost _) => .ok ⟨[], none, none, []⟩
  | .error (.raised error) => .error error
  | .ok line =>
    if considered startAt line then
      match line.kindOfInterest with
      | none => .ok ⟨[], none, some line, []⟩
      | some kind => do
          let (created, warnings) ← readKind known logfile line kind
          return ⟨created, if kind.isDump then some line.timestamp else none, some line,
            warnings⟩
    else .ok ⟨[], none, some line, []⟩

def readLine (startAt : Option Int) (numbered : Text × Nat) : Except PyError LineResult := do
  let text := rstrip '\n' numbered.1
  let lineNo := logfile.map (fun _ => numbered.2)
  let (created, warnings) ← readSpecial logfile text
  let regular ← readRegular known logfile startAt text lineNo
  return { regular with
    created := created ++ regular.created, warnings := warnings ++ regular.warnings }

structure LastRead where
  position : Int
  timestamp : Int
deriving DecidableEq

/--
The database and the warnings collected while reading.  The entries about Icinga not
running that come from no line are kept apart in `down`.
-/
structure Reader where
  tables : Table -> List Entry
  down : List Entry
  dumpTimes : List Int
  lastRead : Option LastRead
  warnings : List Text

def store (tables : Table -> List Entry) (created : List Entry) (table : Table) : List Entry :=
  tables table ++ created.filter (fun entry => entry.record.table = table)

end Icsw.LogReader
