import Icsw.Foundation.Python
import Mathlib.Data.List.Flatten
import Mathlib.Tactic.Ring

/-!
# Service transitions

What is to be done for each service is decided in the first step and goes into one list of actions,
which is scanned until no process vanishes any more.  After a `wait` the actions of the service stay
in the list, until its processes have vanished or its wait time is over.
-/

namespace Icsw.ServiceTransition

open Foundation List

structure Service where
  name : Text
  /-- In seconds. -/
  waitTime : Int
deriving DecidableEq

inductive RunState where
  | error
  | warn
  | ok
deriving DecidableEq

inductive Target where
  | start
  | stop
  | restart
  | debug
  | reload
deriving DecidableEq

inductive Action where
  | signalRestart
  | stop
  | wait
  | cleanup
  | start
  | debug
  | reload
deriving DecidableEq

def ServiceContainer.decide (subcom : Target) (runState : RunState) : List Action :=
  match runState, subcom with
  | .error, .start => [.cleanup, .start]
  | .error, .stop => [.cleanup]
  | .error, .restart => [.cleanup, .start]
  | .error, .debug => [.cleanup, .debug]
  | .error, .reload => []
  | .warn, .start => [.stop, .wait, .cleanup, .start]
  | .warn, .stop => [.stop, .wait, .cleanup]
  | .warn, .restart => [.stop, .wait, .cleanup, .start]
  | .warn, .debug => [.stop, .wait, .cleanup, .debug]
  | .warn, .reload => [.reload]
  | .ok, .start => []
  | .ok, .stop => [.stop, .wait, .cleanup]
  | .ok, .restart => [.signalRestart, .stop, .wait, .cleanup, .start]
  | .ok, .debug => [.signalRestart, .stop, .wait, .cleanup, .debug]
  | .ok, .reload => [.reload]

theorem nodup_decide (subcom : Target) (runState : RunState) :
    (ServiceContainer.decide subcom runState).Nodup := by
  cases runState <;> cases subcom <;> decide

/-- The clock is read once for each entry of a scan, in microseconds, and after each scan it is
looked which services have processes. -/
structure TransitionEnv where
  target : Target
  list : List Service
  /-- As the first step finds it. -/
  runState : Text -> RunState
  clock : Nat -> Int
  alive : Nat -> Text -> Bool
  distinct : (list.map Service.name).Nodup
  nonDecreasing : forall n, clock n ≤ clock (n + 1)

inductive Mark where
  | executed (name : Text) (action : Action) (time : Int)
  | vanished (name : Text)
deriving DecidableEq

structure TransitionState where
  actionList : List (Action × Service)
  waitDict : Text -> Option Int
  readings : Nat
  checks : Nat
  log : List Mark

def second : Int := 1000000

def waitTime (env : TransitionEnv) (service : Service) : Int :=
  (if env.target = .debug then 2 else service.waitTime) * second

def decided (env : TransitionEnv) (service : Service) : List Action :=
  ServiceContainer.decide env.target (env.runState service.name)

def initActionList (env : TransitionEnv) : List (Action × Service) :=
  env.list.flatMap fun service => (decided env service).map fun action => (action, service)

def execute (entry : Action × Service) (curTime : Int) (st : TransitionState) : TransitionState :=
  { st with
    waitDict :=
      if entry.1 = .wait then Function.update st.waitDict entry.2.name (some curTime)
      else st.waitDict
    log := st.log ++ [.executed entry.2.name entry.1 curTime] }

section Execute

variable (entry : Action × Service) (curTime : Int) (st : TransitionState)

@[simp] theorem actionList_execute : (execute entry curTime st).actionList = st.actionList := rfl

@[simp] theorem readings_execute : (execute entry curTime st).readings = st.readings := rfl

@[simp] theorem log_execute :
    (execute entry curTime st).log = st.log ++ [.executed entry.2.name entry.1 curTime] := rfl

theorem waitDict_execute_self :
    (execute entry curTime st).waitDict entry.2.name =
      if entry.1 = .wait then some curTime else st.waitDict entry.2.name := by
  show (if entry.1 = .wait then Function.update st.waitDict entry.2.name (some curTime)
    else st.waitDict) entry.2.name = _
  by_cases hwait : entry.1 = .wait
  · rw [if_pos hwait, if_pos hwait, Function.update_self]
  · rw [if_neg hwait, if_neg hwait]

theorem waitDict_execute_other {name : Text} (h : name ≠ entry.2.name) :
    (execute entry curTime st).waitDict name = st.waitDict name := by
  show (if entry.1 = .wait then Function.update st.waitDict entry.2.name (some curTime)
    else st.waitDict) name = _
  by_cases hwait : entry.1 = .wait
  · rw [if_pos hwait, Function.update_of_ne h]
  · rw [if_neg hwait]

end Execute

def scanEntry (env : TransitionEnv) (st : TransitionState) (entry : Action × Service) :
    TransitionState :=
  let curTime := env.clock st.readings
  let read := { st with readings := st.readings + 1 }
  match st.waitDict entry.2.name with
  | some since =>
    if |curTime - since| < waitTime env entry.2 then
      { read with actionList := st.actionList ++ [entry] }
    else
      execute entry curTime
        { read with waitDict := Function.update st.waitDict entry.2.name none }
  | none => execute entry curTime read

section Entry

variable {env : TransitionEnv} {st : TransitionState} {entry : Action × Service}

theorem scanEntry_free (h : st.waitDict entry.2.name = none) :
    scanEntry env st entry =
      execute entry (env.clock st.readings) { st with readings := st.readings + 1 } := by
  unfold scanEntry
  rw [h]

variable {since : Int}

theorem scanEntry_kept (h : st.waitDict entry.2.name = some since)
    (hpaused : |env.clock st.readings - since| < waitTime env entry.2) :
    scanEntry env st entry =
      { st with
        actionList := st.actionList ++ [entry]
        readings := st.readings + 1 } := by
  unfold scanEntry
  rw [h]
  exact if_pos hpaused

theorem scanEntry_over (h : st.waitDict entry.2.name = some since)
    (hpaused : ¬ |env.clock st.readings - since| < waitTime env entry.2) :
    scanEntry env st entry =
      execute entry (env.clock st.readings)
        { st with
          waitDict := Function.update st.waitDict entry.2.name none
          readings := st.readings + 1 } := by
  unfold scanEntry
  rw [h]
  exact if_neg hpaused

theorem readings_scanEntry (st : TransitionState) (entry : Action × Service) :
    (scanEntry env st entry).readings = st.readings + 1 := by
  cases hsince : st.waitDict entry.2.name with
  | none => rw [scanEntry_free hsince, readings_execute]
  | some since =>
    by_cases hpaused : |env.clock st.readings - since| < waitTime env entry.2
    · rw [scanEntry_kept hsince hpaused]
    · rw [scanEntry_over hsince hpaused, readings_execute]

end Entry

def scan (env : TransitionEnv) (st : TransitionState) : TransitionState :=
  st.actionList.foldl (scanEntry env) { st with actionList := [] }

def vanishing (env : TransitionEnv) (st : TransitionState) : List Service :=
  env.list.filter fun service =>
    (st.waitDict service.name).isSome && !env.alive st.checks service.name

def checkWaiting (env : TransitionEnv) (st : TransitionState) : TransitionState :=
  { st with
    waitDict := fun name =>
      if name ∈ (vanishing env st).map Service.name then none else st.waitDict name
    checks := st.checks + 1
    log := st.log ++ (vanishing env st).map fun service => .vanished service.name }

def round (env : TransitionEnv) (st : TransitionState) : TransitionState :=
  checkWaiting env (scan env st)

def scanLoop (env : TransitionEnv) : Nat -> TransitionState -> TransitionState
  | 0, st => st
  | fuel + 1, st =>
    if vanishing env (scan env st) = [] then round env st
    else scanLoop env fuel (round env st)

def scanFuel (env : TransitionEnv) (st : TransitionState) : Nat :=
  st.actionList.length * (env.list.length + 1) + env.list.length + 1

def created : TransitionState where
  actionList := []
  waitDict _ := none
  readings := 0
  checks := 0
  log := []

def begin (env : TransitionEnv) (stepNum : Nat) (st : TransitionState) : TransitionState :=
  if stepNum = 1 then { st with actionList := initActionList env, waitDict := fun _ => none }
  else st

def step (env : TransitionEnv) (stepNum : Nat) (st : TransitionState) : TransitionState :=
  scanLoop env (scanFuel env (begin env stepNum st)) (begin env stepNum st)

section Termination

variable {env : TransitionEnv}

def waiting (env : TransitionEnv) (st : TransitionState) : Nat :=
  env.list.countP fun service => (st.waitDict service.name).isSome

def waits (entries : List (Action × Service)) : Nat :=
  entries.countP fun entry => decide (entry.1 = .wait)

def rank (env : TransitionEnv) (st : TransitionState) : Nat :=
  waits st.actionList * (env.list.length + 1) + waiting env st

theorem waitDict_checkWaiting (env : TransitionEnv) (st : TransitionState) (name : Text) :
    (checkWaiting env st).waitDict name = none ∨
      (checkWaiting env st).waitDict name = st.waitDict name := by
  by_cases hgone : name ∈ (vanishing env st).map Service.name
  · exact Or.inl (if_pos hgone)
  · exact Or.inr (if_neg hgone)

end Termination

end Icsw.ServiceTransition
