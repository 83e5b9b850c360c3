import Icsw.MetaServer.ServiceState
import Icsw.Foundation.Run

/-!
# Shutdown mode

In shutdown mode the target states in memory say that all services are to be stopped, but those in
the database do not..  As long as those are not read again, no update starts a service.
-/

namespace Icsw.MetaServer

open Foundation List

/-- What can happen to the state after the shutdown mode has been enabled. -/
inductive Event where
  | update (args : UpdateArgs)
  | transitionFinished (transId : Nat) (runtime : Int)
  | command (command : Command) (services : List Text) (time : Int)
  | instanceChanged (files : InstalledFiles) (time : Int) (newNames : List Text)

variable (inst : Instance)

/-- The transitions an event returns; only an update returns any. -/
def stepEvent (event : Event) : Program ServiceState (List Transition) :=
  match event with
  | .update args => update inst args
  | .transitionFinished transId runtime => do
      transitionFinished transId runtime
      return []
  | .command command services time => do
      modify (fun st => handleCommand st command services time)
      return []
  | .instanceChanged files time newNames => do
      modify (fun st => syncWithInstance st files time newNames)
      return []

/-- An event that raises ends there, and the server goes on. -/
def afterEvent (st : ServiceState) (event : Event) : ServiceState :=
  (stepEvent inst event).after st

def returned (inst : Instance) : ServiceState -> List Event -> List Transition
  | _, [] => []
  | st, event :: rest =>
    (match stepEvent inst event st with
      | .ok transitions _ => transitions
      | .error _ _ => []) ++ returned inst (afterEvent inst st event) rest

def AllStopped (st : ServiceState) : Prop :=
  st.shutdown = true ∧
    forall name, st.targetDict name = some .running -> st.ignoreDict name = some true

def RowsStopped (rows : List ServiceRow) : Prop :=
  forall row, row ∈ rows -> row.targetState = .running -> row.ignore = true

/-- A checked service that is not in its target state when shutting down. -/
structure StopDue (st : ServiceState) (args : UpdateArgs) (service : CheckedService) :
    Prop where
  checked : service ∈ args.results
  startstop : service.startstop = true
  monitored : st.ignoreDict service.name = some false
  stopped : exists result, service.result = some result ∧ getAction .stopped result ≠ .keep
  included : service.name ∉ args.exclude

def StartedTooOften (st : ServiceState) (args : UpdateArgs) (service : CheckedService) : Prop :=
  exists idx, st.serviceLut service.name = some idx ∧
    startedTooOften (recentActions st idx args.time) = true

/--
A service that is stopped and disabled is the only one that the database has as running and
monitored; a change of the instances leaves none.
-/
def RevivesNothing (st : ServiceState) (event : Event) : Prop :=
  match event with
  | .update args =>
    forall service, StopDue st args service -> StartedTooOften st args service ->
      forall row, row ∈ st.db.services -> row.targetState = .running ->
        row.ignore = true ∨ row.name = service.name
  | .instanceChanged files time newNames =>
    RowsStopped (syncedServices files time newNames st.db.services)
  | _ => True

def RevivesNothingAlong : ServiceState -> List Event -> Prop :=
  Along (afterEvent inst) RevivesNothing

theorem allStopped_refreshRow {st : ServiceState} {row : ServiceRow} (h : AllStopped st)
    (hrow : row.targetState = .running -> row.ignore = true) :
    AllStopped (refreshRow st row) := by
  unfold refreshRow
  cases htarget : st.targetDict row.name with
  | none => exact h
  | some target =>
    refine ⟨h.left, ?_⟩
    intro name hname
    by_cases hequal : name = row.name
    · subst hequal
      simp only [Function.update_self] at hname ⊢
      rw [hrow (Option.some.inj hname)]
    · simp only [Function.update_of_ne hequal] at hname ⊢
      exact h.right name hname

theorem allStopped_refresh {rows : List ServiceRow} (hrows : RowsStopped rows)
    {st : ServiceState} (h : AllStopped st) : AllStopped (rows.foldl refreshRow st) := by
  induction rows generalizing st with
  | nil => exact h
  | cons row rest ih =>
    apply ih (fun other hmem => hrows other (mem_cons_of_mem row hmem))
    exact allStopped_refreshRow h (hrows row mem_cons_self)

theorem allStopped_disable {st : ServiceState} (h : AllStopped st) {services : List Text}
    (hrows : forall row, row ∈ st.db.services -> row.targetState = .running ->
      row.ignore = true ∨ row.name ∈ services) (time : Int) :
    AllStopped (runCommand st .disable services time) := by
  unfold runCommand updateTargetIgnoreDict
  apply allStopped_refresh
  · intro row hmem hrunning
    rcases mem_map.mp hmem with ⟨old, hold, hchange⟩
    subst hchange
    split at hrunning
    · cases hrunning
    · rename_i hkept
      rw [if_neg hkept]
      rcases hrows old hold hrunning with hignored | hnamed
      · exact hignored
      · simp [hnamed, Command.applies, hrunning] at hkept
  · exact h

theorem allStopped_sync {st : ServiceState} (h : AllStopped st) {files : InstalledFiles}
    {time : Int} {newNames : List Text}
    (hrows : RowsStopped (syncedServices files time newNames st.db.services)) :
    AllStopped (syncWithInstance st files time newNames) := by
  refine ⟨h.left, ?_⟩
  intro name hname
  simp only [syncWithInstance, dictOf] at hname ⊢
  rcases Option.map_eq_some_iff.mp hname with ⟨row, hfound, hrunning⟩
  rw [hfound]
  have hmem := mem_reverse.mp (mem_of_find?_eq_some hfound)
  rw [Option.map_some, hrows row hmem hrunning]

theorem getAction_stopped (result : CheckResult) : getAction .stopped result ≠ .start := by
  rcases result with ⟨process, configured, license⟩
  cases process <;> cases configured <;> cases license <;> decide

theorem takeWhile_take_append_cons {α : Type} {p : α -> Bool} {added : α}
    (h : p added = false) (before after : List α) (count : Nat) :
    (((before ++ added :: after).take count).takeWhile p).IsPrefix
      (((before ++ after).take count).takeWhile p) := by
  induction before generalizing count with
  | nil =>
    cases count with
    | zero => exact prefix_rfl
    | succ less =>
      rw [nil_append, take_succ_cons, takeWhile_cons_of_neg (by simp [h])]
      exact nil_prefix
  | cons first rest ih =>
    cases count with
    | zero => exact prefix_rfl
    | succ less =>
      simp only [cons_append, take_succ_cons, takeWhile_cons]
      cases p first with
      | false => exact prefix_rfl
      | true => exact prefix_cons_inj first |>.mpr (ih less)

theorem startedTooOften_of_prefix {fewer more : List (ServiceAction × Int)}
    (h : (leadingStarts fewer).IsPrefix (leadingStarts more))
    (hoften : startedTooOften fewer = true) : startedTooOften more = true := by
  simp only [startedTooOften, decide_eq_true_eq] at hoften ⊢
  constructor
  · exact lt_of_lt_of_le hoften.left h.length_le
  · rcases any_eq_true.mp hoften.right with ⟨entry, hmem, hold⟩
    exact any_eq_true.mpr ⟨entry, h.subset hmem, hold⟩

theorem startedTooOften_of_append {st next : ServiceState} {row : ActionRow}
    (hactions : next.db.actions = st.db.actions ++ [row]) (hrow : row.action ≠ .start)
    {idx : Nat} {time : Int} (h : startedTooOften (recentActions next idx time) = true) :
    startedTooOften (recentActions st idx time) = true := by
  unfold recentActions at h ⊢
  rw [hactions, filter_append] at h
  by_cases hselected : row.service = idx ∧ time - transactionWindow < row.created
  · rw [filter_cons_of_pos (by simpa using hselected), filter_nil] at h
    rcases DatedList.sortByDate_append_singleton (fun row : ActionRow => -row.created)
      (st.db.actions.filter (fun row =>
        row.service = idx ∧ time - transactionWindow < row.created)) row with
      ⟨before, after, hwith, hwithout⟩
    rw [newestTen, hwith, map_take, map_append, map_cons] at h
    rw [newestTen, hwithout, map_take, map_append]
    refine startedTooOften_of_prefix ?_ h
    exact takeWhile_take_append_cons (by simpa using hrow) _ _ 10
  · rw [filter_cons_of_neg (by simpa using hselected), filter_nil,
      append_nil] at h
    exact h

/-!
## One update

Up to the disabling of services, an update changes neither targets nor rows, and
only adds actions that are not starts.
-/

/-- What an update leaves as it is before services are disabled. -/
structure SameTargets (time : Int) (st next : ServiceState) : Prop where
  shutdown : next.shutdown = st.shutdown
  targetDict : next.targetDict = st.targetDict
  ignoreDict : next.ignoreDict = st.ignoreDict
  serviceLut : next.serviceLut = st.serviceLut
  services : next.db.services = st.db.services
  startedTooOften : forall idx, startedTooOften (recentActions next idx time) = true ->
    startedTooOften (recentActions st idx time) = true

theorem SameTargets.refl (time : Int) (st : ServiceState) : SameTargets time st st :=
  ⟨rfl, rfl, rfl, rfl, rfl, fun _ h => h⟩

theorem SameTargets.allStopped {time : Int} {st next : ServiceState}
    (h : SameTargets time st next) (hstopped : AllStopped st) : AllStopped next := by
  constructor
  · rw [h.shutdown]
    exact hstopped.left
  · rw [h.targetDict, h.ignoreDict]
    exact hstopped.right

variable {st : ServiceState} {time : Int}

theorem keeps_noteState (name : Text) (result : CheckResult) (procInfo : Text) (now : Int) :
    Keeps (SameTargets time st) (noteState name result procInfo now) (fun _ => True) := by
  apply keeps_bind keeps_get
  intro seen _
  split
  · exact keeps_pure trivial
  · apply keeps_bind (keeps_modify fun next hnext => ⟨hnext.shutdown, hnext.targetDict,
      hnext.ignoreDict, hnext.serviceLut, hnext.services, hnext.startedTooOften⟩)
    intro _ _
    apply keeps_bind (keeps_lookupKey seen.serviceLut name)
    intro idx _
    exact keeps_modify fun next hnext => ⟨hnext.shutdown, hnext.targetDict,
      hnext.ignoreDict, hnext.serviceLut, hnext.services, hnext.startedTooOften⟩

theorem keeps_updateState (name : Text) (result : CheckResult) (procInfo : Text) (now : Int) :
    Keeps (SameTargets time st) (updateState name result procInfo now)
      (fun action => exists target, st.targetDict name = some target ∧
        action = getAction target result) := by
  apply keeps_bind (keeps_noteState name result procInfo now)
  intro _ _
  apply keeps_bind keeps_get
  intro seen hseen
  apply keeps_bind (keeps_lookupKey seen.targetDict name)
  intro target htarget
  exact keeps_pure ⟨target, hseen.targetDict ▸ htarget, rfl⟩

theorem keeps_wantsTransition (hshutdown : st.shutdown = true) (name : Text) (args : UpdateArgs) :
    Keeps (SameTargets time st) (wantsTransition name args) (fun _ => True) := by
  apply keeps_bind keeps_get
  intro seen hseen
  rw [if_pos (by rw [hseen.shutdown, hshutdown])]
  exact keeps_pure trivial

theorem keeps_checkForThrottle (name : Text) (now : Int) (throttle : List (Text × Int)) :
    Keeps (SameTargets time st) (checkForThrottle name now throttle) (fun _ => True) := by
  apply keeps_bind keeps_get
  intro seen _
  split
  · exact keeps_pure trivial
  · apply keeps_bind (keeps_modify fun next hnext => ⟨hnext.shutdown, hnext.targetDict,
      hnext.ignoreDict, hnext.serviceLut, hnext.services, hnext.startedTooOften⟩)
    intro _ _
    exact keeps_pure trivial

/-- The action list holds no start, and only services that are to be stopped. -/
def StartsNone (st : ServiceState) (args : UpdateArgs)
    (actions : List (Text × ServiceAction)) : Prop :=
  forall entry, entry ∈ actions ->
    entry.2 ≠ .start ∧ exists service, StopDue st args service ∧ service.name = entry.1

theorem target_stopped (hstopped : AllStopped st) {name : Text} {target : TargetState}
    (htarget : st.targetDict name = some target) (hmonitored : st.ignoreDict name = some false) :
    target = .stopped := by
  cases target with
  | stopped => rfl
  | running =>
    rw [hstopped.right name htarget] at hmonitored
    cases hmonitored

variable {args : UpdateArgs}

theorem keeps_checkService (hstopped : AllStopped st)
    {actions : List (Text × ServiceAction)} {service : CheckedService}
    (hmem : service ∈ args.results) (hactions : StartsNone st args actions) :
    Keeps (SameTargets time st) (checkService args actions service)
      (StartsNone st args) := by
  unfold checkService
  split
  · rename_i result hstartstop hresult
    apply keeps_bind keeps_get
    intro seen hseen
    apply keeps_bind (keeps_lookupKey seen.ignoreDict service.name)
    intro ignored hignored
    split
    · exact keeps_pure hactions
    rename_i hmonitored
    rw [hseen.ignoreDict, Bool.eq_false_of_not_eq_true hmonitored] at hignored
    apply keeps_bind (keeps_updateState service.name result service.procInfo args.time)
    intro action haction
    rcases haction with ⟨target, htarget, haction⟩
    rw [target_stopped hstopped htarget hignored] at haction
    split
    · exact keeps_pure hactions
    rename_i hnotkeep
    apply keeps_bind (keeps_wantsTransition hstopped.left service.name args)
    intro wanted _
    split
    · exact keeps_pure hactions
    rename_i hincluded
    apply keeps_bind (keeps_checkForThrottle service.name args.time args.throttle)
    intro delayed _
    split
    · exact keeps_pure hactions
    apply keeps_pure
    intro entry hentry
    rcases mem_append.mp hentry with hold | hnew
    · exact hactions entry hold
    · rw [mem_singleton.mp hnew]
      constructor
      · show action ≠ .start
        rw [haction]
        exact getAction_stopped result
      · exact ⟨service, ⟨hmem, hstartstop, hignored, ⟨result, hresult, haction ▸ hnotkeep⟩,
          (not_or.mp hincluded).right⟩, rfl⟩
  · exact keeps_pure hactions

theorem keeps_checkDependencies (name : Text) (action : ServiceAction) :
    Keeps (SameTargets time st) (checkDependencies inst name action) (fun _ => True) := by
  apply keeps_bind keeps_get
  intro seen _
  apply keeps_bind (keeps_modify fun next hnext => ⟨hnext.shutdown, hnext.targetDict,
    hnext.ignoreDict, hnext.serviceLut, hnext.services, hnext.startedTooOften⟩)
  intro _ _
  exact keeps_pure trivial

def StopsOnly (st : ServiceState) (args : UpdateArgs) (transitions : List Transition) : Prop :=
  forall transition, transition ∈ transitions -> transition.action ≠ .start ∧
    (transition.postDisable = true -> exists service, StopDue st args service ∧
      StartedTooOften st args service ∧ service.name = transition.name)

theorem stopsOnly_nil (st : ServiceState) (args : UpdateArgs) : StopsOnly st args [] := by
  intro transition hnone
  cases hnone

theorem keeps_generateTransition {service : CheckedService}
    (hdue : StopDue st args service) {action : ServiceAction} (haction : action ≠ .start) :
    Keeps (SameTargets args.time st) (generateTransition service.name action args.time)
      (StopsOnly st args) := by
  apply keeps_bind keeps_get
  intro seen hseen
  split
  · exact keeps_pure (stopsOnly_nil st args)
  apply keeps_bind (keeps_lookupKey seen.serviceLut service.name)
  intro idx hidx
  apply keeps_bind (keeps_modify fun next hnext => ⟨hnext.shutdown, hnext.targetDict,
    hnext.ignoreDict, hnext.serviceLut, hnext.services, fun other hoften =>
      hnext.startedTooOften other (startedTooOften_of_append rfl haction hoften)⟩)
  intro _ _
  apply keeps_pure
  intro transition hone
  rw [mem_singleton.mp hone]
  refine ⟨haction, ?_⟩
  intro hdisable
  rw [hseen.serviceLut] at hidx
  exact ⟨service, hdue, ⟨idx, hidx, hseen.startedTooOften idx hdisable⟩, rfl⟩

theorem keeps_handleAction {transitions : List Transition} {entry : Text × ServiceAction}
    (hentry : entry.2 ≠ .start ∧ exists service, StopDue st args service ∧ service.name = entry.1)
    (htransitions : StopsOnly st args transitions) :
    Keeps (SameTargets args.time st) (handleAction inst args.time transitions entry)
      (StopsOnly st args) := by
  rcases hentry with ⟨haction, service, hdue, hname⟩
  apply keeps_bind (keeps_checkDependencies inst entry.1 entry.2)
  intro fulfilled _
  split
  · rw [← hname]
    apply keeps_bind (keeps_generateTransition hdue haction)
    intro generated hgenerated
    apply keeps_pure
    intro transition hin
    rcases mem_append.mp hin with hold | hnew
    · exact htransitions transition hold
    · exact hgenerated transition hnew
  · exact keeps_pure htransitions

theorem keeps_generateTransitions (hstopped : AllStopped st) (args : UpdateArgs) :
    Keeps (SameTargets args.time st) (generateTransitions inst args)
      (StopsOnly st args) := by
  have hnothing : StartsNone st args [] := by
    intro entry hnone
    cases hnone
  apply keeps_bind (keeps_foldlM (fun actions service hmem hactions =>
    keeps_checkService hstopped hmem hactions) hnothing)
  intro actions hactions
  apply keeps_foldlM
  · intro transitions entry hmem htransitions
    exact keeps_handleAction inst (hactions entry hmem) htransitions
  · exact stopsOnly_nil st args

theorem allStopped_disableAfterwards (hstopped : AllStopped st)
    {next : ServiceState} (hnext : SameTargets args.time st next)
    {transitions : List Transition} (htransitions : StopsOnly st args transitions)
    (hrevives : RevivesNothing st (.update args)) :
    AllStopped (disableAfterwards transitions args.time next) := by
  simp only [disableAfterwards]
  split
  · exact hnext.allStopped hstopped
  · rename_i hsome
    apply allStopped_disable (hnext.allStopped hstopped)
    intro row hrow hrunning
    rcases exists_mem_of_ne_nil _ hsome with ⟨name, hname⟩
    rcases mem_map.mp hname with ⟨transition, hfiltered, _⟩
    rcases mem_filter.mp hfiltered with ⟨hmem, hdisable⟩
    rcases (htransitions transition hmem).right hdisable with ⟨service, hdue, hoften, heq⟩
    rw [hnext.services] at hrow
    rcases hrevives service hdue hoften row hrow hrunning with hignored | hsame
    · exact Or.inl hignored
    · right
      rw [hsame, heq]
      exact mem_map_of_mem hfiltered

theorem update_eq (args : UpdateArgs) (st : ServiceState) :
    update inst args st =
      match generateTransitions inst args st with
      | .ok transitions next => .ok transitions (disableAfterwards transitions args.time next)
      | .error raised next => .error raised next := by
  show EStateM.bind _ _ _ = _
  unfold EStateM.bind
  cases generateTransitions inst args st <;> rfl

/-- What an event does in shutdown mode unless it revives a service. -/
def StaysStopped : EStateM.Result PyError ServiceState (List Transition) -> Prop
  | .ok transitions next =>
    AllStopped next ∧ forall transition, transition ∈ transitions -> transition.action ≠ .start
  | .error _ next => AllStopped next

theorem staysStopped_update (hstopped : AllStopped st)
    (hrevives : RevivesNothing st (.update args)) : StaysStopped (update inst args st) := by
  have hgenerated := keeps_generateTransitions inst hstopped args st (SameTargets.refl _ st)
  rw [update_eq]
  cases hresult : generateTransitions inst args st with
  | ok transitions next =>
    rw [hresult] at hgenerated
    rcases hgenerated with ⟨hnext, htransitions⟩
    constructor
    · exact allStopped_disableAfterwards hstopped hnext htransitions hrevives
    · intro transition hmem
      exact (htransitions transition hmem).left
  | error raised next =>
    rw [hresult] at hgenerated
    exact SameTargets.allStopped hgenerated hstopped

theorem keeps_transitionFinished (transId : Nat) (runtime : Int) :
    Keeps AllStopped (transitionFinished transId runtime) (fun _ => True) := by
  have hfinish : forall state, AllStopped state ->
      AllStopped { state with
        db := { state.db with
          actions := state.db.actions.map (finishRow transId runtime) } } :=
    fun _ hstopped => hstopped
  apply keeps_bind (keeps_modify hfinish)
  intro _ _
  apply keeps_bind keeps_get
  intro seen _
  split
  · exact keeps_throw PyError.typeError _
  · rename_i service _
    have hrelease : forall state, AllStopped state ->
        AllStopped { state with
          transitionLockDict := Function.update state.transitionLockDict service.name none } :=
      fun _ hstopped => hstopped
    exact keeps_modify hrelease

theorem staysStopped_event (hstopped : AllStopped st) {event : Event}
    (hrevives : RevivesNothing st event) : StaysStopped (stepEvent inst event st) := by
  cases event with
  | update args => exact staysStopped_update inst hstopped hrevives
  | transitionFinished transId runtime =>
    have hkeeps : Keeps AllStopped (stepEvent inst (.transitionFinished transId runtime))
        (fun transitions => transitions = []) :=
      keeps_bind (keeps_transitionFinished transId runtime) fun _ _ => keeps_pure rfl
    have hresult := hkeeps st hstopped
    cases hstep : stepEvent inst (.transitionFinished transId runtime) st with
    | ok transitions next =>
      rw [hstep] at hresult
      refine ⟨hresult.left, ?_⟩
      rw [hresult.right]
      intro transition hnone
      cases hnone
    | error raised next =>
      rw [hstep] at hresult
      exact hresult
  | command command services time =>
    constructor
    · show AllStopped (handleCommand st command services time)
      rw [handleCommand, if_pos hstopped.left]
      exact hstopped
    · intro transition hnone
      cases hnone
  | instanceChanged files time newNames =>
    constructor
    · exact allStopped_sync hstopped hrevives
    · intro transition hnone
      cases hnone

theorem allStopped_enableShutdownMode (st : ServiceState) : AllStopped (enableShutdownMode st) := by
  constructor
  · rfl
  · intro name hrunning
    simp only [enableShutdownMode] at hrunning
    rcases Option.map_eq_some_iff.mp hrunning with ⟨target, _, hequal⟩
    cases hequal

theorem returned_of_allStopped {events : List Event}
    (hstopped : AllStopped st) (hrevives : RevivesNothingAlong inst st events) :
    forall transition, transition ∈ returned inst st events -> transition.action ≠ .start := by
  induction events generalizing st with
  | nil =>
    intro transition hnone
    cases hnone
  | cons event rest ih =>
    rcases hrevives with ⟨hfirst, hrest⟩
    have hevent := staysStopped_event inst hstopped hfirst
    have hafter : AllStopped (afterEvent inst st event) := by
      unfold afterEvent Program.after
      cases hstep : stepEvent inst event st with
      | ok transitions next =>
        rw [hstep] at hevent
        exact hevent.left
      | error raised next =>
        rw [hstep] at hevent
        exact hevent
    intro transition hmem
    rcases mem_append.mp hmem with hnow | hlater
    · cases hstep : stepEvent inst event st with
      | ok transitions next =>
        rw [hstep] at hevent hnow
        exact hevent.right transition hnow
      | error raised next =>
        rw [hstep] at hnow
        cases hnow
    · exact ih hafter hrest transition hlater

/-- As long as no event revives a service, no update returns a start. -/
theorem shutdown_starts_none (inst : Instance) (st : ServiceState) (events : List Event)
    (hrevives : RevivesNothingAlong inst (enableShutdownMode st) events) :
    forall transition, transition ∈ returned inst (enableShutdownMode st) events ->
      transition.action ≠ .start :=
  returned_of_allStopped inst (allStopped_enableShutdownMode st) hrevives

/-!
### Two services

The database has both services as running; the first one was started three times
in the last two minutes.
-/

def noDependencies : Instance where
  startDependencies := fun _ => []
  stopDependencies := fun _ => []

def noFiles : InstalledFiles where
  packageServer := false
  monDaemonInfo := false
  mongodbInit := false

def startRow (idx : Nat) (created : Int) : ActionRow where
  idx := idx
  service := 1
  action := .start
  success := true
  runtime := 0
  finished := true
  created := created

def startedThrice : Database where
  services := []
  states := []
  actions := [startRow 1 (900 * second), startRow 2 (940 * second), startRow 3 (980 * second)]

/-- The state after the server has been started. -/
def twoServices (db : Database) : ServiceState :=
  syncWithInstance
    { db := db
      serviceLut := fun _ => none
      stateDict := fun _ => none
      targetDict := fun _ => none
      ignoreDict := fun _ => none
      transitionLockDict := fun _ => none
      throttleDict := fun _ => none
      dependencyProblems := fun _ => none
      shutdown := false }
    noFiles (800 * second) ["nginx".toList, "redis".toList]

/-- A check finds the first service in a state and the other one dead. -/
def checkBoth (process : ProcessState) (time : Int) : UpdateArgs where
  results :=
    [{ name := "nginx".toList, startstop := true,
       result := some { process := process, configured := .run, license := .valid },
       procInfo := [] },
     { name := "redis".toList, startstop := true,
       result := some { process := .dead, configured := .run, license := .valid },
       procInfo := [] }]
  exclude := ["meta-server".toList]
  force := false
  throttle := [("uwsgi-init".toList, 5 * second)]
  time := time

def neverStarted : Database where
  services := []
  states := []
  actions := []

def stopBoth : List Event :=
  [.update (checkBoth .ok (1000 * second)), .transitionFinished 1 second,
    .update (checkBoth .dead (1010 * second))]

theorem shutdown_starts_none_two_services :
    RevivesNothingAlong noDependencies (enableShutdownMode (twoServices neverStarted))
        stopBoth ∧
      returned noDependencies (enableShutdownMode (twoServices neverStarted)) stopBoth ≠ [] ∧
      forall transition, transition ∈ returned noDependencies
          (enableShutdownMode (twoServices neverStarted)) stopBoth ->
        transition.action ≠ .start := by
  have hrevives : RevivesNothingAlong noDependencies
      (enableShutdownMode (twoServices neverStarted)) stopBoth := by
    refine ⟨?_, trivial, ?_, trivial⟩
    · intro service _ hoften
      rcases hoften with ⟨idx, _, hoften⟩
      have hnone : recentActions (enableShutdownMode (twoServices neverStarted)) idx
          (1000 * second) = [] := rfl
      rw [show (checkBoth .ok (1000 * second)).time = 1000 * second from rfl, hnone] at hoften
      cases hoften
    · intro service hdue
      rcases hdue.stopped with ⟨result, hresult, hkept⟩
      have hdead : service.result =
          some { process := .dead, configured := .run, license := .valid } := by
        rcases mem_cons.mp hdue.checked with hfirst | hrest
        · rw [hfirst]
        · rw [mem_singleton.mp hrest]
      rw [hdead] at hresult
      exact absurd (by rw [← Option.some.inj hresult]; decide) hkept
  exact ⟨hrevives, by decide +kernel,
    shutdown_starts_none noDependencies (twoServices neverStarted) stopBoth hrevives⟩

/--
A change of the instances, and the disabling of a service that was started too
often, bring back the targets of the database, and the other service is started.
-/
theorem shutdown_starts_dead_service :
    (exists transition, transition ∈ returned noDependencies
        (enableShutdownMode (twoServices startedThrice))
        [.instanceChanged noFiles (1000 * second) ["nginx".toList, "redis".toList],
          .update (checkBoth .ok (1010 * second))] ∧
      transition.action = .start) ∧
    exists transition, transition ∈ returned noDependencies
        (enableShutdownMode (twoServices startedThrice))
        [.update (checkBoth .ok (1000 * second)), .update (checkBoth .dead (1010 * second))] ∧
      transition.action = .start := by
  constructor
  · decide +kernel
  · decide +kernel

end Icsw.MetaServer
