import Icsw.MetaServer.ShutdownMode

/-!
# Dependency flags

A flag says that an action of a service waits for its dependencies.  Flags are set anew when the
dependencies are checked, and only then: a service for which another action is decided, or none,
keeps the flags it has.
-/

namespace Icsw.MetaServer

open Foundation List

variable (st : ServiceState)

def flagged (name : Text) (action : ServiceAction) : Bool :=
  match action with
  | .start => (st.dependencyProblems name).any DependencyProblem.start
  | .stop => (st.dependencyProblems name).any DependencyProblem.stop
  | _ => false

def reportState (ignoreDict : Text -> Option Bool) (states : Text -> Option CheckResult)
    (service : CheckedService) : Text -> Option CheckResult :=
  match service.startstop, service.result with
  | true, some result =>
    if ignoreDict service.name = some false then
      Function.update states service.name (some result)
    else states
  | _, _ => states

def reported (results : List CheckedService) : ServiceState :=
  { st with stateDict := results.foldl (reportState st.ignoreDict) st.stateDict }

section Checking

variable {st : ServiceState} {args : UpdateArgs} {inv : ServiceState -> Prop}

theorem keeps_checkForStableState (name : Text) (time : Int) :
    Keeps inv (checkForStableState name time) (fun _ => True) := by
  apply keeps_bind keeps_get
  intro seen _
  apply keeps_bind (keeps_lookupKey seen.serviceLut name)
  intro idx _
  split
  · exact keeps_pure trivial
  split
  · exact keeps_throw _ _
  · apply keeps_if
    · exact keeps_pure trivial
    · apply keeps_bind (keeps_lookupKey seen.targetDict name)
      intro target _
      apply keeps_if
      · exact keeps_pure trivial
      · exact keeps_pure trivial

theorem keeps_wantsTransition_of_any (name : Text) :
    Keeps inv (wantsTransition name args) (fun _ => True) := by
  apply keeps_bind keeps_get
  intro seen _
  split
  · exact keeps_pure trivial
  · apply keeps_bind (keeps_checkForStableState name args.time)
    intro stable _
    exact keeps_pure trivial

/-- What has been noted of the first results. -/
structure Noted (st : ServiceState) (done : List CheckedService) (next : ServiceState) :
    Prop where
  problems : next.dependencyProblems = st.dependencyProblems
  targetDict : next.targetDict = st.targetDict
  ignoreDict : next.ignoreDict = st.ignoreDict
  states : next.stateDict = (reported st done).stateDict

theorem reported_append (st : ServiceState) (done : List CheckedService)
    (service : CheckedService) :
    (reported st (done ++ [service])).stateDict =
      reportState st.ignoreDict (reported st done).stateDict service :=
  foldl_append

variable {done : List CheckedService} {service : CheckedService}

theorem Noted.append {next : ServiceState} (h : Noted st done next)
    (hsame : reportState st.ignoreDict (reported st done).stateDict service =
      (reported st done).stateDict) : Noted st (done ++ [service]) next := by
  refine ⟨h.problems, h.targetDict, h.ignoreDict, ?_⟩
  rw [reported_append, hsame]
  exact h.states

variable {actions : List (Text × ServiceAction)}

end Checking

section Dependencies

variable {st : ServiceState} {inst : Instance}

theorem refreshRows_eq (rows : List ServiceRow) (st : ServiceState) :
    exists targets ignored, rows.foldl refreshRow st =
      { st with targetDict := targets, ignoreDict := ignored } := by
  induction rows generalizing st with
  | nil => exact ⟨st.targetDict, st.ignoreDict, rfl⟩
  | cons row rest ih =>
    have hrow : exists targets ignored, refreshRow st row =
        { st with targetDict := targets, ignoreDict := ignored } := by
      unfold refreshRow
      split
      · exact ⟨st.targetDict, st.ignoreDict, rfl⟩
      · exact ⟨_, _, rfl⟩
    rcases hrow with ⟨targets, ignored, hrow⟩
    rcases ih (refreshRow st row) with ⟨targets', ignored', hrest⟩
    refine ⟨targets', ignored', ?_⟩
    rw [foldl_cons, hrest, hrow]

end Dependencies

def serviceIn (process : ProcessState) (name : Text) : CheckedService where
  name := name
  startstop := true
  result := some { process := process, configured := .run, license := .valid }
  procInfo := []

def bothIn (process : ProcessState) (time : Int) : UpdateArgs where
  results := [serviceIn process "nginx".toList, serviceIn process "redis".toList]
  exclude := []
  force := false
  throttle := []
  time := time

theorem mem_of_dictOf {α : Type} {value : ServiceRow -> α} {rows : List ServiceRow} {name : Text}
    {found : α} (h : dictOf value rows name = some found) :
    exists row, row ∈ rows ∧ row.name = name ∧ value row = found := by
  rcases Option.map_eq_some_iff.mp h with ⟨row, hrow, hvalue⟩
  have hname := find?_some hrow
  exact ⟨row, mem_reverse.mp (mem_of_find?_eq_some hrow), of_decide_eq_true hname,
    hvalue⟩

end Icsw.MetaServer
