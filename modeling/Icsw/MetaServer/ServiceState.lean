import Icsw.Foundation.DatedList
import Icsw.Foundation.Program

/-!
# Service states of the meta-server

The meta-server compares the states of the services with target states, which are kept in a database
and in memory, and generates transitions that start or stop services.  Times are integers
(microseconds); the database stores them cut to seconds.  Each call reads the clock once.
-/

namespace Icsw.MetaServer

open Foundation

inductive TargetState where
  | stopped
  | running
deriving DecidableEq

inductive ProcessState where
  | ok
  | dead
  | incomplete
  | notInstalled
  | notConfigured
deriving DecidableEq

inductive ConfState where
  | run
  | stop
  | ipMismatch
  | modelsChanged
deriving DecidableEq

inductive LicenseState where
  | violated
  | valid
  | grace
  | newInstall
  | expired
  | validInFuture
  | none
  | notNeeded
  | fpMismatch
deriving DecidableEq

structure CheckResult where
  process : ProcessState
  configured : ConfState
  license : LicenseState
deriving DecidableEq

inductive ServiceAction where
  | keep
  | start
  | stop
  | enable
  | disable
  | monitor
  | ignore
deriving DecidableEq

/-- One rule of the table; a missing list stands for all states. -/
structure ServiceActionState where
  target : Option (List TargetState)
  process : Option (List ProcessState)
  configured : Option (List ConfState)
  license : Option (List LicenseState)
  action : ServiceAction

def ServiceActionState.covers (rule : ServiceActionState) (target : TargetState)
    (result : CheckResult) : Bool :=
  (match rule.target with
    | none => true
    | some values => decide (target ∈ values)) &&
  (match rule.process with
    | none => true
    | some values => decide (result.process ∈ values)) &&
  (match rule.configured with
    | none => true
    | some values => decide (result.configured ∈ values)) &&
  (match rule.license with
    | none => true
    | some values => decide (result.license ∈ values))

def initSas : List ServiceActionState :=
  [{ target := some [.running], process := some [.ok], configured := some [.run],
     license := some [.valid, .notNeeded, .grace], action := .keep },
   { target := some [.running], process := some [.dead],
     configured := some [.stop, .ipMismatch],
     license := some [.violated, .expired, .validInFuture, .none], action := .keep },
   { target := some [.running], process := some [.incomplete, .notInstalled, .dead],
     configured := some [.run], license := some [.valid, .notNeeded, .grace],
     action := .start },
   { target := some [.running], process := some [.ok, .incomplete],
     configured := some [.stop, .ipMismatch, .modelsChanged], license := none,
     action := .stop },
   { target := some [.stopped], process := some [.dead, .notInstalled, .notConfigured],
     configured := none, license := none, action := .keep },
   { target := some [.stopped], process := some [.incomplete, .ok],
     configured := none, license := none, action := .stop }]

/-- A later rule overwrites the entries of an earlier one. -/
def getAction (target : TargetState) (result : CheckResult) : ServiceAction :=
  match initSas.reverse.find? (fun rule => rule.covers target result) with
  | some rule => rule.action
  | none => .keep

def second : Int := 1000000

def wholeSeconds (time : Int) : Int := time / second * second

structure ServiceRow where
  idx : Nat
  name : Text
  targetState : TargetState
  active : Bool
  ignore : Bool
  created : Int
deriving DecidableEq

structure StateRow where
  service : Nat
  result : CheckResult
  procInfo : Text
  created : Int
deriving DecidableEq

structure ActionRow where
  idx : Nat
  service : Nat
  action : ServiceAction
  success : Bool
  runtime : Int
  finished : Bool
  created : Int
deriving DecidableEq

structure Database where
  services : List ServiceRow
  states : List StateRow
  actions : List ActionRow

structure DependencyProblem where
  start : Bool
  stop : Bool
deriving DecidableEq

structure ServiceState where
  db : Database
  serviceLut : Text -> Option Nat
  stateDict : Text -> Option CheckResult
  targetDict : Text -> Option TargetState
  ignoreDict : Text -> Option Bool
  transitionLockDict : Text -> Option Int
  throttleDict : Text -> Option Int
  dependencyProblems : Text -> Option DependencyProblem
  shutdown : Bool

def newestTen {α : Type} (created : α -> Int) (rows : List α) : List α :=
  (DatedList.sortByDate (fun row => -created row) rows).take 10

/-- What the instance files say about dependencies. -/
structure Instance where
  startDependencies : Text -> List Text
  stopDependencies : Text -> List Text

variable (st : ServiceState)

def enableShutdownMode : ServiceState :=
  { st with
    shutdown := true
    targetDict := fun name => (st.targetDict name).map (fun _ => TargetState.stopped) }

/-- The files that decide about the default state of some services. -/
structure InstalledFiles where
  packageServer : Bool
  monDaemonInfo : Bool
  mongodbInit : Bool

def stateIf (installed : Bool) : TargetState :=
  if installed then .running else .stopped

def getDefaultState (files : InstalledFiles) (name : Text) : TargetState :=
  if name = "package-client".toList then stateIf files.packageServer
  else if name = "md-sync-server".toList then stateIf files.monDaemonInfo
  else if name = "mongodb-init".toList then stateIf files.mongodbInit
  else .running

/-- A dictionary built from the rows; a later row overwrites an earlier one. -/
def dictOf {α : Type} (value : ServiceRow -> α) (rows : List ServiceRow) (name : Text) : Option α :=
  (rows.reverse.find? (fun row => row.name = name)).map value

def addService (files : InstalledFiles) (time : Int) (rows : List ServiceRow)
    (name : Text) : List ServiceRow :=
  if rows.any (fun row => row.name = name) then rows
  else
    rows ++ [{ idx := rows.length + 1, name := name, targetState := getDefaultState files name,
               active := true, ignore := false, created := wholeSeconds time }]

def syncedServices (files : InstalledFiles) (time : Int) (newNames : List Text)
    (rows : List ServiceRow) : List ServiceRow :=
  newNames.foldl (addService files time)
    (rows.map (fun row => { row with active := decide (row.name ∈ newNames) }))

def syncWithInstance (files : InstalledFiles) (time : Int) (newNames : List Text) : ServiceState :=
  let services := syncedServices files time newNames st.db.services
  { st with
    db := { st.db with services := services }
    serviceLut := dictOf ServiceRow.idx services
    targetDict := dictOf ServiceRow.targetState services
    ignoreDict := dictOf ServiceRow.ignore services }

def refreshRow (row : ServiceRow) : ServiceState :=
  match st.targetDict row.name with
  | none => st
  | some _ =>
    { st with
      targetDict := Function.update st.targetDict row.name (some row.targetState)
      ignoreDict := Function.update st.ignoreDict row.name (some row.ignore) }

def updateTargetIgnoreDict : ServiceState :=
  st.db.services.foldl refreshRow st

/-- Some row differs from what is in memory, so the state machine is triggered. -/
def targetIgnoreChanged : Bool :=
  st.db.services.any (fun row =>
    match st.targetDict row.name with
    | none => false
    | some target =>
      !decide (target = row.targetState ∧ st.ignoreDict row.name = some row.ignore))

inductive Command where
  | enable
  | disable
  | monitor
  | ignore
deriving DecidableEq

variable (command : Command)

def Command.applies (row : ServiceRow) : Bool :=
  match command with
  | .enable => row.targetState = .stopped
  | .disable => row.targetState = .running
  | .monitor => row.ignore
  | .ignore => !row.ignore

def Command.change (row : ServiceRow) : ServiceRow :=
  match command with
  | .enable => { row with targetState := .running }
  | .disable => { row with targetState := .stopped }
  | .monitor => { row with ignore := false }
  | .ignore => { row with ignore := true }

def Command.action : Command -> ServiceAction
  | .enable => .enable
  | .disable => .disable
  | .monitor => .monitor
  | .ignore => .ignore

def commandAction (time : Int) (actions : List ActionRow) (row : ServiceRow) : List ActionRow :=
  actions ++ [{ idx := actions.length + 1, service := row.idx, action := command.action,
                success := true, runtime := 0, finished := true,
                created := wholeSeconds time }]

def runCommand (services : List Text) (time : Int) : ServiceState :=
  let selected := fun row : ServiceRow => decide (row.name ∈ services) && command.applies row
  updateTargetIgnoreDict
    { st with
      db :=
        { st.db with
          services := st.db.services.map (fun row =>
            if selected row then command.change row else row)
          actions := (st.db.services.filter selected).foldl (commandAction command time)
            st.db.actions } }

def handleCommand (services : List Text) (time : Int) : ServiceState :=
  if st.shutdown then st else runCommand st command services time

structure Transition where
  name : Text
  action : ServiceAction
  transId : Nat
  repeats : Nat
  postDisable : Bool
deriving DecidableEq

/-- The starts among the latest actions, up to the first other action. -/
def leadingStarts (actions : List (ServiceAction × Int)) : List (ServiceAction × Int) :=
  actions.takeWhile (fun entry => entry.1 = .start)

/-- More than two starts in a row, at least one of them more than 30 seconds ago. -/
def startedTooOften (actions : List (ServiceAction × Int)) : Bool :=
  2 < (leadingStarts actions).length ∧
    (leadingStarts actions).any (fun entry => 30 * second < entry.2)

def serviceStateTransaction (actions : List (ServiceAction × Int)) (name : Text)
    (action : ServiceAction) (transId : Nat) : Transition where
  name := name
  action := action
  transId := transId
  repeats := (leadingStarts actions).length
  postDisable := startedTooOften actions

def lockTimeout : Int := 30 * second

def transactionWindow : Int := 300 * second

/-- The latest actions of a service in the transaction window, with their age. -/
def recentActions (idx : Nat) (time : Int) : List (ServiceAction × Int) :=
  (newestTen ActionRow.created (st.db.actions.filter (fun row =>
    row.service = idx ∧ time - transactionWindow < row.created))).map
    (fun row => (row.action, time - row.created))

variable (name : Text)

def locked (time : Int) : Bool :=
  match st.transitionLockDict name with
  | some since => time < since + lockTimeout
  | none => false

def generateTransition (action : ServiceAction) (time : Int) :
    Program ServiceState (List Transition) := do
  let st ← get
  if locked st name time then return []
  let idx ← lookupKey st.serviceLut name
  let transId := st.db.actions.length + 1
  let row : ActionRow :=
    { idx := transId, service := idx, action := action, success := false, runtime := 0,
      finished := false, created := wholeSeconds time }
  modify (fun st => { st with
    db := { st.db with actions := st.db.actions ++ [row] }
    transitionLockDict := Function.update st.transitionLockDict name (some time) })
  return [serviceStateTransaction (recentActions st idx time) name action transId]

def finishRow (transId : Nat) (runtime : Int) (row : ActionRow) : ActionRow :=
  if row.idx = transId then { row with runtime := runtime, finished := true } else row

def serviceOfAction (db : Database) (transId : Nat) : Option ServiceRow := do
  let action ← db.actions.find? (fun row => row.idx = transId)
  db.services.find? (fun row => row.idx = action.service)

def transitionFinished (transId : Nat) (runtime : Int) : Program ServiceState Unit := do
  modify (fun st => { st with
    db := { st.db with actions := st.db.actions.map (finishRow transId runtime) } })
  let st ← get
  match serviceOfAction st.db transId with
  | none => throw .typeError
  | some service =>
    modify (fun st => { st with
      transitionLockDict := Function.update st.transitionLockDict service.name none })

structure CheckedService where
  name : Text
  startstop : Bool
  result : Option CheckResult
  procInfo : Text

structure UpdateArgs where
  results : List CheckedService
  exclude : List Text
  force : Bool
  throttle : List (Text × Int)
  time : Int

/-- A changed state is stored; the dictionary is changed first. -/
def noteState (result : CheckResult) (procInfo : Text) (time : Int) :
    Program ServiceState Unit := do
  let st ← get
  if st.stateDict name = some result then return ()
  modify (fun st => { st with
    stateDict := Function.update st.stateDict name (some result) })
  let idx ← lookupKey st.serviceLut name
  let row : StateRow :=
    { service := idx, result := result, procInfo := procInfo, created := wholeSeconds time }
  modify (fun st => { st with db := { st.db with states := st.db.states ++ [row] } })

def updateState (result : CheckResult) (procInfo : Text) (time : Int) :
    Program ServiceState ServiceAction := do
  noteState name result procInfo time
  let st ← get
  let target ← lookupKey st.targetDict name
  return getAction target result

def hasDependencyProblem : Bool :=
  match st.dependencyProblems name with
  | some problem => problem.start || problem.stop
  | none => false

def justStarted (now : Int) (actions : List ActionRow) : Bool :=
  match actions with
  | row :: _ => decide (row.action = .start ∧ now - row.created < 5 * second)
  | [] => false

/-- The state has not changed for a while, and the service was not just started. -/
def checkForStableState (time : Int) : Program ServiceState Bool := do
  let st ← get
  let now := wholeSeconds time
  let idx ← lookupKey st.serviceLut name
  if justStarted now (newestTen ActionRow.created
      (st.db.actions.filter (fun row => row.service = idx))) then return false
  match newestTen StateRow.created
      (st.db.states.filter (fun row => row.service = idx)) with
  | [] => throw .indexError
  | first :: rest =>
    let age := fun row : StateRow => ((now - row.created).natAbs : Int)
    if rest.any (fun row => age row < 60 * second ∧ row.result ≠ first.result) then
      return false
    let target ← lookupKey st.targetDict name
    let minStateTime := if hasDependencyProblem st name then 2 * second else 20 * second
    if getAction target first.result ≠ .keep ∧ age first < minStateTime then return false
    return !decide (age first < 20 * second)

/-- A delay is set for the service and has not passed since its last transition. -/
def throttled (time : Int) (throttle : List (Text × Int)) : Bool :=
  match throttle.reverse.lookup name, st.throttleDict name with
  | some delay, some last => decide (((time - last).natAbs : Int) < delay)
  | _, _ => false

/-- Throttled services are left out; otherwise the time of the transition is noted. -/
def checkForThrottle (time : Int) (throttle : List (Text × Int)) :
    Program ServiceState Bool := do
  let st ← get
  if throttled st name time throttle then return true
  modify (fun st => { st with
    throttleDict := Function.update st.throttleDict name (some time) })
  return false

def wantsTransition (args : UpdateArgs) : Program ServiceState Bool := do
  let st ← get
  if st.shutdown then return true
  let stable ← checkForStableState name args.time
  return stable || args.force

def checkService (args : UpdateArgs) (actions : List (Text × ServiceAction))
    (service : CheckedService) : Program ServiceState (List (Text × ServiceAction)) :=
  match service.startstop, service.result with
  | true, some result => do
      let st ← get
      let ignored ← lookupKey st.ignoreDict service.name
      if ignored then return actions
      let action ← updateState service.name result service.procInfo args.time
      if action = .keep then return actions
      let wanted ← wantsTransition service.name args
      if wanted = false ∨ service.name ∈ args.exclude then return actions
      let delayed ← checkForThrottle service.name args.time args.throttle
      if delayed then return actions
      return actions ++ [(service.name, action)]
  | _, _ => return actions

def filterDependencies (dependencies : List Text) : List CheckResult :=
  (dependencies.filterMap st.stateDict).filter (fun result => result.configured = .run)

def dependenciesOk (inst : Instance) (name : Text) (action : ServiceAction) : Bool :=
  match action with
  | .start => (filterDependencies st (inst.startDependencies name)).all
      (fun result => result.process = .ok)
  | .stop => (filterDependencies st (inst.stopDependencies name)).all
      (fun result => result.process ≠ .ok)
  | _ => true

/-- The flag of the action is set anew, the other one stays. -/
def DependencyProblem.note (problem : DependencyProblem) (action : ServiceAction)
    (fulfilled : Bool) : DependencyProblem :=
  match action with
  | .start => { problem with start := !fulfilled }
  | .stop => { problem with stop := !fulfilled }
  | _ => problem

def checkDependencies (inst : Instance) (name : Text) (action : ServiceAction) :
    Program ServiceState Bool := do
  let st ← get
  let fulfilled := dependenciesOk st inst name action
  let problem := (st.dependencyProblems name).getD { start := false, stop := false }
  modify (fun st => { st with
    dependencyProblems :=
      Function.update st.dependencyProblems name (some (problem.note action fulfilled)) })
  return fulfilled

def handleAction (inst : Instance) (time : Int) (transitions : List Transition)
    (entry : Text × ServiceAction) : Program ServiceState (List Transition) := do
  let fulfilled ← checkDependencies inst entry.1 entry.2
  if fulfilled then
    let generated ← generateTransition entry.1 entry.2 time
    return transitions ++ generated
  else
    return transitions

/-- Services that were started too often are disabled after their transition. -/
def disableAfterwards (transitions : List Transition) (time : Int) (st : ServiceState) :
    ServiceState :=
  let disabled := (transitions.filter Transition.postDisable).map Transition.name
  if disabled = [] then st else runCommand st .disable disabled time

def generateTransitions (inst : Instance) (args : UpdateArgs) :
    Program ServiceState (List Transition) := do
  let actions ← args.results.foldlM (checkService args) []
  actions.foldlM (handleAction inst args.time) []

def update (inst : Instance) (args : UpdateArgs) :
    Program ServiceState (List Transition) := do
  let transitions ← generateTransitions inst args
  modify (disableAfterwards transitions args.time)
  return transitions

end Icsw.MetaServer
