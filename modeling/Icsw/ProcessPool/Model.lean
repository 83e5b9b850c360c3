import Icsw.Foundation.Dict
import Icsw.Foundation.Python
import Icsw.Foundation.Run
import Mathlib.Data.List.Sort

/-!
# Process pool

After an exit request the main process sends `exit` to the processes of its pool, those of the
lowest priority first, and handles the messages with which they report that they have started and
that they exit..  A process may die at any time, with or without such a report.
-/

namespace Icsw.ProcessPool

open Foundation

/-- What has become of a process, as the operating system knows it. -/
inductive Life where
  | added
  /-- Started, not yet connected to the pool. -/
  | starting
  | connected
  /-- The process has sent its exit message and comes to its end. -/
  | exiting
  | dead
deriving DecidableEq

def Life.isStarted (life : Life) : Bool := life != .added

def Life.isAlive : Life -> Bool
  | .added => false
  | .starting => true
  | .connected => true
  | .exiting => true
  | .dead => false

structure ProcessObj where
  priority : Int
  killMyself : Bool

inductive Message where
  | processStart
  | processExit
deriving DecidableEq

structure ExitSent where
  name : Text
  /-- Whether the kill signal was sent, too. -/
  kill : Bool
  /-- The processes of lower priority that were alive then; the source does not keep them. -/
  aliveBelow : List Text
deriving DecidableEq

/-- Where a call of `stop_running_processes` goes on. -/
inductive After where
  | poll
  | check

/-- The state of a call of `stop_running_processes`. -/
structure Stopping where
  /-- The rest of `proc_list`. -/
  procList : List Text
  groups : List (List Text)
  actProcessesStopped : Bool
  prevProcessesDead : Bool
  after : After

/-- Where the main loop stands. -/
inductive Place where
  | head
  | stopping (call : Stopping)
  /-- `is_alive` said yes: `stop_process` is called next. -/
  | stopProcess (name : Text) (call : Stopping)
  | poll
  | check

structure Pool where
  processes : Dict Text ProcessObj
  processesStopped : List Text
  processesRunning : Int
  exitRequested : Bool
  runFlag : Bool
  place : Place
  sent : List ExitSent
  life : Text -> Life
  /-- The messages of each process that are not handled yet. -/
  queue : Text -> List Message

def Pool.new : Pool where
  processes := ∅
  processesStopped := []
  processesRunning := 0
  exitRequested := false
  runFlag := true
  place := .head
  sent := []
  life := fun _ => .added
  queue := fun _ => []

def priorityOf (processes : Dict Text ProcessObj) (name : Text) : Int :=
  match processes.lookup name with
  | some process => process.priority
  | none => 0

def priorities (processes : Dict Text ProcessObj) (names : List Text) : List Int :=
  (names.map (priorityOf processes)).dedup.insertionSort (· ≤ ·)

def After.place : After -> Place
  | .poll => .poll
  | .check => .check

namespace Pool

variable (pool : Pool)

def goto (place : Place) : Pool := { pool with place := place }

variable (name : Text)

def setLife (life : Life) : Pool :=
  { pool with life := Function.update pool.life name life }

def push (message : Message) : Pool :=
  { pool with queue := Function.update pool.queue name (pool.queue name ++ [message]) }

def connect : Pool :=
  if pool.life name = .starting then (pool.setLife name .connected).push name .processStart
  else pool

def reportExit : Pool :=
  if pool.life name = .connected then (pool.setLife name .exiting).push name .processExit
  else pool

def die : Pool :=
  if (pool.life name).isAlive then pool.setLife name .dead else pool

def addProcess (process : ProcessObj) : Pool :=
  if name ∈ pool.processes then pool
  else { pool with processes := pool.processes.insert name process }.setLife name .added

/-- A dead process raises if it is started again, an alive one is left alone. -/
def startProcess : Pool :=
  if name ∈ pool.processes ∧ pool.life name = .added then
    { pool with processesRunning := pool.processesRunning + 1 }.setLife name .starting
  else pool

def aliveBelow (priority : Int) : List Text :=
  (pool.processes.entries.filter fun entry =>
    (pool.life entry.1).isAlive && decide (entry.2.priority < priority)).map Sigma.fst

def stopProcess : Pool :=
  match pool.processes.lookup name with
  | some process =>
    if (pool.life name).isAlive then
      { pool with
        sent := pool.sent ++
          [{ name := name, kill := process.killMyself,
             aliveBelow := pool.aliveBelow process.priority }] }
    else pool
  | none => pool

/--
The process is waited for, and killed if it does not end.  The exit of a process that is not in the
pool raises, with the counter decremented.
-/
def processExit (next : Place) : Pool :=
  let pool := { pool with processesRunning := pool.processesRunning - 1 }
  if name ∈ pool.processes then
    ({ pool with processes := pool.processes.erase name }.setLife name .dead).goto next
  else pool.goto .head

/-- The exit that is assumed of a process that is not alive. -/
def forcedExit : Pool :=
  { pool with
    processesRunning := pool.processesRunning - 1
    processes := pool.processes.erase name }

/-- The processes that have not been stopped yet. -/
def notStopped : List Text :=
  pool.processes.keys.filter fun name => decide (name ∉ pool.processesStopped)

/-- `pri_dict`, by the order of its keys. -/
def priDict : List (List Text) :=
  (priorities pool.processes pool.notStopped).map fun priority =>
    pool.notStopped.filter fun name => decide (priorityOf pool.processes name = priority)

/-- The start of `stop_running_processes`. -/
def stopRunningProcesses (after : After) : Pool :=
  pool.goto (.stopping
    { procList := []
      groups := pool.priDict
      actProcessesStopped := false
      prevProcessesDead := true
      after := after })

def stopStep (call : Stopping) : Pool :=
  match call.procList with
  | name :: rest =>
    if name ∈ pool.processesStopped then pool.goto (.stopping { call with procList := rest })
    else if (pool.life name).isAlive then
      pool.goto (.stopProcess name { call with procList := rest })
    else (pool.forcedExit name).goto (.stopping { call with procList := rest })
  | [] =>
    match call.groups with
    | group :: groups =>
      if call.prevProcessesDead && !call.actProcessesStopped then
        pool.goto (.stopping { call with procList := group, groups := groups })
      else pool.goto (.stopping { call with groups := groups })
    | [] => pool.goto (After.place call.after)

def stopProcessStep (call : Stopping) : Pool :=
  let pool := pool.stopProcess name
  { pool with processesStopped := name :: pool.processesStopped }.goto
    (.stopping { call with actProcessesStopped := true, prevProcessesDead := false })

def handle : Message -> Pool
  | .processStart =>
    if pool.exitRequested then pool.stopRunningProcesses .check else pool.goto .check
  | .processExit => pool.processExit name .check

def receive : Pool :=
  match pool.queue name with
  | [] => pool.goto .check
  | message :: rest =>
    { pool with queue := Function.update pool.queue name rest }.handle name message

/-- One step of the main loop.  A poll receives a message of the named process. -/
def loopStep : Pool :=
  match pool.place with
  | .head =>
    if pool.runFlag then
      if pool.exitRequested then pool.stopRunningProcesses .poll else pool.goto .poll
    else pool
  | .stopping call => pool.stopStep call
  | .stopProcess name call => pool.stopProcessStep name call
  | .poll =>
    if !pool.exitRequested || pool.processesRunning != 0 then pool.receive name
    else pool.goto .check
  | .check =>
    if pool.exitRequested && pool.processesRunning == 0 then
      { pool with runFlag := false }.goto .head
    else pool.goto .head

inductive Action where
  | addProcess (name : Text) (process : ProcessObj)
  | startProcess (name : Text)
  | requestExit
  /-- One step of the main loop. -/
  | loop (name : Text)
  | connect (name : Text)
  | reportExit (name : Text)
  | die (name : Text)

/-- Processes are added before the exit request only. -/
def step : Action -> Pool
  | .addProcess name process =>
    if pool.exitRequested then pool else pool.addProcess name process
  | .startProcess name => if pool.runFlag then pool.startProcess name else pool
  | .requestExit => { pool with exitRequested := true }
  | .loop name => pool.loopStep name
  | .connect name => pool.connect name
  | .reportExit name => pool.reportExit name
  | .die name => pool.die name

end Pool

end Icsw.ProcessPool
