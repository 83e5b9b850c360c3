import Icsw.Foundation.Expiring
import Icsw.MetaServer.DependencyFlags

/-!
# Transition locks

A transition takes a lock under the name of its service, and whatever transition of the service is
reported as finished releases it, also the one of a successor that is still at work.
-/

namespace Icsw.MetaServer

open Foundation List
open ExpiringLock

inductive LockEvent where
  | update (args : UpdateArgs)
  | finished (transId : Nat) (runtime : Int)

/-- The state of the services, the time of the last update, and what has been generated. -/
structure Watched where
  st : ServiceState
  clock : Int
  history : List (Mark Text)

def returnedBy (inst : Instance) (args : UpdateArgs) (st : ServiceState) : List Transition :=
  match update inst args st with
  | .ok transitions _ => transitions
  | .error _ _ => []

def marksOf (time : Int) (transitions : List Transition) : List (Mark Text) :=
  transitions.map fun transition => .generated transition.name transition.transId time

def afterLockEvent (inst : Instance) (watched : Watched) (event : LockEvent) : Watched :=
  match event with
  | .update args =>
    { st := (update inst args).after watched.st
      clock := args.time
      history := watched.history ++ marksOf args.time (returnedBy inst args watched.st) }
  | .finished transId runtime =>
    { watched with
      st := (transitionFinished transId runtime).after watched.st
      history := watched.history ++ [.finished transId] }

/-- The clock does not go back, and what is reported as finished has been returned before. -/
def Proper (watched : Watched) (event : LockEvent) : Prop :=
  match event with
  | .update args => watched.clock ≤ args.time
  | .finished transId _ => exists name time, .generated name transId time ∈ watched.history

/-- A transition is not reported after a later one of the service that still is at work. -/
def ReportedInTurn (watched : Watched) (event : LockEvent) : Prop :=
  match event with
  | .update _ => True
  | .finished transId _ => InTurn watched.history transId

/-- What the tables and the lookup table of a synchronised state have in common. -/
structure WellFormed (st : ServiceState) : Prop where
  serviceIds : (st.db.services.map ServiceRow.idx).Nodup
  lookup : forall name idx, st.serviceLut name = some idx ->
    (idx, name) ∈ st.db.services.map fun row => (row.idx, row.name)
  actionIds : st.db.actions.map ActionRow.idx = range' 1 st.db.actions.length

def ActionOf (db : Database) (transId : Nat) (name : Text) : Prop :=
  exists idx, (transId, idx) ∈ db.actions.map (fun row => (row.idx, row.service)) ∧
    (idx, name) ∈ db.services.map fun row => (row.idx, row.name)

section Rows

variable {st : ServiceState}

theorem WellFormed.actionIds_nodup (h : WellFormed st) :
    (st.db.actions.map ActionRow.idx).Nodup := by
  rw [h.actionIds]
  exact nodup_range'

theorem serviceOfAction_of (h : WellFormed st) {transId : Nat} {name : Text}
    (haction : ActionOf st.db transId name) :
    exists service, serviceOfAction st.db transId = some service ∧ service.name = name := by
  rcases haction with ⟨idx, haction, hservice⟩
  rcases mem_map.mp haction with ⟨action, hactionMem, hactionKey⟩
  rcases mem_map.mp hservice with ⟨service, hserviceMem, hserviceKey⟩
  rcases Prod.mk.inj hactionKey with ⟨hactionIdx, hactionService⟩
  rcases Prod.mk.inj hserviceKey with ⟨hserviceIdx, hserviceName⟩
  refine ⟨service, ?_, hserviceName⟩
  have hfound : st.db.actions.find? (fun row => row.idx = transId) = some action :=
    find?_of_nodup h.actionIds_nodup hactionMem hactionIdx
  have hfoundService : st.db.services.find? (fun row => row.idx = action.service) = some service :=
    find?_of_nodup h.serviceIds hserviceMem (hserviceIdx.trans hactionService.symm)
  unfold serviceOfAction
  rw [hfound]
  exact hfoundService

theorem WellFormed.le_length (h : WellFormed st) {transId : Nat} {name : Text}
    (haction : ActionOf st.db transId name) : transId ≤ st.db.actions.length := by
  rcases haction with ⟨idx, haction, _⟩
  rcases mem_map.mp haction with ⟨action, hmem, hkey⟩
  have hidx : transId ∈ range' 1 st.db.actions.length := by
    rw [← h.actionIds, ← (Prod.mk.inj hkey).left]
    exact mem_map_of_mem hmem
  have hrange := mem_range'_1.mp hidx
  omega

end Rows

/-- The tables know what has been generated, and the locks protect it. -/
structure LockInv (history : List (Mark Text)) (clock : Int) (st : ServiceState) : Prop where
  wellFormed : WellFormed st
  guarded : Guarded lockTimeout clock st.transitionLockDict history
  actions : forall name transId time, .generated name transId time ∈ history ->
    ActionOf st.db transId name

theorem keeps_checkService_of {inv : ServiceState -> Prop}
    (hstateDict : forall st states, inv st -> inv { st with stateDict := states })
    (hstates : forall st rows, inv st -> inv { st with db := { st.db with states := rows } })
    (hthrottle : forall st throttle, inv st -> inv { st with throttleDict := throttle })
    (args : UpdateArgs) (actions : List (Text × ServiceAction)) (service : CheckedService) :
    Keeps inv (checkService args actions service) (fun _ => True) := by
  unfold checkService
  split
  · apply keeps_bind keeps_get
    intro seen _
    apply keeps_bind (keeps_lookupKey seen.ignoreDict service.name)
    intro ignored _
    apply keeps_if (keeps_pure trivial)
    have hnote : forall result procInfo time,
        Keeps inv (noteState service.name result procInfo time) (fun _ => True) := by
      intro result procInfo time
      apply keeps_bind keeps_get
      intro seen _
      apply keeps_if (keeps_pure trivial)
      apply keeps_bind (keeps_modify fun st hst => hstateDict st _ hst)
      intro _ _
      apply keeps_bind (keeps_lookupKey seen.serviceLut service.name)
      intro idx _
      exact keeps_modify fun st hst => hstates st _ hst
    have hupdate : forall result procInfo time,
        Keeps inv (updateState service.name result procInfo time) (fun _ => True) := by
      intro result procInfo time
      apply keeps_bind (hnote _ _ _)
      intro _ _
      apply keeps_bind keeps_get
      intro seen' _
      apply keeps_bind (keeps_lookupKey seen'.targetDict service.name)
      intro target _
      exact keeps_pure trivial
    have hdelay : Keeps inv (checkForThrottle service.name args.time args.throttle)
        (fun _ => True) := by
      apply keeps_bind keeps_get
      intro seen' _
      apply keeps_if (keeps_pure trivial)
      apply keeps_bind (keeps_modify fun st hst => hthrottle st _ hst)
      intro _ _
      exact keeps_pure trivial
    apply keeps_bind (hupdate _ _ _)
    intro action _
    apply keeps_if (keeps_pure trivial)
    apply keeps_bind (keeps_wantsTransition_of_any service.name)
    intro wanted _
    apply keeps_if (keeps_pure trivial)
    apply keeps_bind hdelay
    intro delayed _
    exact keeps_if (keeps_pure trivial) (keeps_pure trivial)
  · exact keeps_pure trivial

section Invariant

variable {st : ServiceState} {history : List (Mark Text)} {clock : Int}

theorem keeps_checkServices (args : UpdateArgs) :
    Keeps (LockInv history clock) (args.results.foldlM (checkService args) [])
      (fun _ => True) := by
  apply keeps_foldlM _ trivial
  intro actions service _ _
  apply keeps_checkService_of
  · exact fun st _ h => ⟨⟨h.wellFormed.serviceIds, h.wellFormed.lookup, h.wellFormed.actionIds⟩,
      h.guarded, h.actions⟩
  · exact fun st _ h => ⟨⟨h.wellFormed.serviceIds, h.wellFormed.lookup, h.wellFormed.actionIds⟩,
      h.guarded, h.actions⟩
  · exact fun st _ h => ⟨⟨h.wellFormed.serviceIds, h.wellFormed.lookup, h.wellFormed.actionIds⟩,
      h.guarded, h.actions⟩

theorem keeps_checkDependencies_locks (inst : Instance) (name : Text) (action : ServiceAction) :
    Keeps (LockInv history clock) (checkDependencies inst name action) (fun _ => True) := by
  apply keeps_bind keeps_get
  intro seen _
  apply keeps_bind (keeps_modify fun st h =>
    ⟨⟨h.wellFormed.serviceIds, h.wellFormed.lookup, h.wellFormed.actionIds⟩, h.guarded,
      h.actions⟩)
  intro _ _
  exact keeps_pure trivial

theorem actionIds_append {rows : List ActionRow} {row : ActionRow}
    (h : rows.map ActionRow.idx = range' 1 rows.length) (hrow : row.idx = rows.length + 1) :
    (rows ++ [row]).map ActionRow.idx = range' 1 (rows ++ [row]).length := by
  rw [map_append, h, length_append, length_singleton, range'_1_concat,
    map_singleton, hrow, Nat.add_comm 1]

theorem satisfies_generateTransition (name : Text) (action : ServiceAction) (time : Int) :
    Satisfies (LockInv history time) (generateTransition name action time)
      (fun generated => LockInv (history ++ marksOf time generated) time)
      (LockInv history time) := by
  apply satisfies_get_bind
  intro seen hseen
  split
  · apply satisfies_pure
    rintro state rfl
    rw [marksOf, map_nil, append_nil]
    exact hseen
  rename_i hunlocked
  apply satisfies_lookupKey_bind (fun state hstate => hstate ▸ hseen)
  intro idx hidx
  have hservice := hseen.wellFormed.lookup name idx hidx
  refine satisfies_modify_bind
    (LockInv (history ++ [.generated name (seen.db.actions.length + 1) time]) time) ?_
    (satisfies_pure fun _ h => h)
  rintro state rfl
  refine ⟨⟨hseen.wellFormed.serviceIds, hseen.wellFormed.lookup,
    actionIds_append hseen.wellFormed.actionIds rfl⟩, ?_, ?_⟩
  · apply hseen.guarded.generated (le_refl time)
    · intro since hheld
      unfold locked at hunlocked
      rw [hheld] at hunlocked
      exact not_lt.mp fun hlt => hunlocked (decide_eq_true hlt)
    · intro name' time' hmem
      have hle := hseen.wellFormed.le_length (hseen.actions _ _ _ hmem)
      omega
  · intro name' transId' time' hmem
    rcases mem_append.mp hmem with hold | hmark
    · rcases hseen.actions _ _ _ hold with ⟨idx', haction, hservice'⟩
      refine ⟨idx', ?_, hservice'⟩
      show (transId', idx') ∈ (state.db.actions ++ [_]).map _
      rw [map_append]
      exact mem_append_left _ haction
    · cases mem_singleton.mp hmark
      refine ⟨idx, ?_, hservice⟩
      show (_, idx) ∈ (state.db.actions ++ [_]).map _
      rw [map_append]
      exact mem_append_right _ mem_cons_self

theorem marksOf_append (time : Int) (first second : List Transition) :
    marksOf time (first ++ second) = marksOf time first ++ marksOf time second :=
  map_append

theorem not_finished_marksOf (time : Int) (transitions : List Transition) (transId : Nat) :
    .finished transId ∉ marksOf time transitions := by
  intro hmem
  rcases mem_map.mp hmem with ⟨transition, _, hmark⟩
  cases hmark

theorem LockInv.forget {time : Int} {transitions : List Transition}
    (h : LockInv (history ++ marksOf time transitions) clock st) : LockInv history clock st where
  wellFormed := h.wellFormed
  guarded := h.guarded.forget (not_finished_marksOf time transitions)
  actions name transId time' hmem :=
    h.actions name transId time' (mem_append_left _ hmem)

theorem satisfies_handleActions_locks (inst : Instance) (time : Int)
    (actions : List (Text × ServiceAction)) :
    Satisfies (LockInv history time) (actions.foldlM (handleAction inst time) [])
      (fun transitions => LockInv (history ++ marksOf time transitions) time)
      (LockInv history time) := by
  refine (satisfies_foldlM (fun _ transitions =>
    LockInv (history ++ marksOf time transitions) time) ?_ []).mono ?_ fun _ _ h => h
  · intro done entry rest transitions _
    apply satisfies_keeps_bind (keeps_checkDependencies_locks inst entry.1 entry.2)
      fun _ h => h.forget
    intro fulfilled _
    split
    · apply satisfies_bind ((satisfies_generateTransition entry.1 entry.2 time).imp_failed
        fun _ h => h.forget)
      intro generated
      apply satisfies_pure
      intro st h
      rw [marksOf_append, ← append_assoc]
      exact h
    · exact satisfies_pure fun _ h => h
  · intro st h
    rw [marksOf, map_nil, append_nil]
    exact h

theorem commandActions_ids (command : Command) (time : Int) (rows : List ServiceRow)
    {actions : List ActionRow} (h : actions.map ActionRow.idx = range' 1 actions.length) :
    (rows.foldl (commandAction command time) actions).map ActionRow.idx =
        range' 1 (rows.foldl (commandAction command time) actions).length ∧
      actions ⊆ rows.foldl (commandAction command time) actions := by
  induction rows generalizing actions with
  | nil => exact ⟨h, Subset.refl actions⟩
  | cons row rest ih =>
    have hnext : (commandAction command time actions row).map ActionRow.idx =
        range' 1 (commandAction command time actions row).length :=
      actionIds_append h rfl
    rcases ih hnext with ⟨hids, hsubset⟩
    exact ⟨hids, fun old hold => hsubset (mem_append_left _ hold)⟩

theorem Command.change_key (command : Command) (row : ServiceRow) :
    (command.change row).idx = row.idx ∧ (command.change row).name = row.name := by
  cases command <;> exact ⟨rfl, rfl⟩

theorem changedRows_keys (command : Command) (selected : ServiceRow -> Bool)
    (rows : List ServiceRow) :
    (rows.map fun row => if selected row then command.change row else row).map
        (fun row => (row.idx, row.name)) = rows.map fun row => (row.idx, row.name) := by
  rw [map_map]
  apply map_congr_left
  intro row _
  show ((if selected row then command.change row else row).idx,
    (if selected row then command.change row else row).name) = _
  split
  · rw [(command.change_key row).left, (command.change_key row).right]
  · rfl

theorem LockInv.runCommand (h : LockInv history clock st) (command : Command)
    (services : List Text) (time : Int) :
    LockInv history clock (runCommand st command services time) := by
  have hkeys := changedRows_keys command
    (fun row => decide (row.name ∈ services) && command.applies row) st.db.services
  have hidx := congrArg (map Prod.fst) hkeys
  rw [map_map, map_map (f := fun row : ServiceRow => (row.idx, row.name))] at hidx
  rcases commandActions_ids command time (st.db.services.filter fun row =>
    decide (row.name ∈ services) && command.applies row) h.wellFormed.actionIds with
    ⟨hids, hsubset⟩
  unfold MetaServer.runCommand updateTargetIgnoreDict
  rcases refreshRows_eq _ _ with ⟨targets, ignored, heq⟩
  rw [heq]
  refine ⟨⟨?_, ?_, hids⟩, h.guarded, ?_⟩
  · exact hidx.symm ▸ h.wellFormed.serviceIds
  · intro name idx hlookup
    have hservice := h.wellFormed.lookup name idx hlookup
    rw [← hkeys] at hservice
    exact hservice
  · intro name transId time' hmem
    rcases h.actions name transId time' hmem with ⟨idx, haction, hservice⟩
    rw [← hkeys] at hservice
    exact ⟨idx, map_subset _ hsubset haction, hservice⟩

theorem LockInv.disableAfterwards {time : Int} (h : LockInv history clock st)
    (transitions : List Transition) :
    LockInv history clock (disableAfterwards transitions time st) := by
  unfold MetaServer.disableAfterwards
  simp only []
  split
  · exact h
  · exact h.runCommand _ _ _

theorem satisfies_update (inst : Instance) (args : UpdateArgs) :
    Satisfies (LockInv history args.time) (update inst args)
      (fun transitions => LockInv (history ++ marksOf args.time transitions) args.time)
      (LockInv history args.time) := by
  refine satisfies_bind (satisfies_keeps_bind (keeps_checkServices args) (fun _ h => h)
    fun actions _ => satisfies_handleActions_locks inst args.time actions) fun transitions => ?_
  exact satisfies_modify_bind (LockInv (history ++ marksOf args.time transitions) args.time)
    (fun st h => h.disableAfterwards transitions) (satisfies_pure fun _ h => h)

theorem finishedRows_keys (transId : Nat) (runtime : Int) (rows : List ActionRow) :
    (rows.map (finishRow transId runtime)).map (fun row => (row.idx, row.service)) =
      rows.map fun row => (row.idx, row.service) := by
  rw [map_map]
  apply map_congr_left
  intro row _
  show ((finishRow transId runtime row).idx, (finishRow transId runtime row).service) = _
  unfold finishRow
  split
  · rfl
  · rfl

theorem LockInv.finished (h : LockInv history clock st) {transId : Nat}
    (hreturned : exists name time, .generated name transId time ∈ history)
    (hturn : InTurn history transId) (runtime : Int) :
    LockInv (history ++ [.finished transId]) clock
      ((transitionFinished transId runtime).after st) := by
  rcases hreturned with ⟨name, time, hmem⟩
  have hkeys := finishedRows_keys transId runtime st.db.actions
  have hidx : (st.db.actions.map (finishRow transId runtime)).map ActionRow.idx =
      st.db.actions.map ActionRow.idx := by
    have hfst := congrArg (map Prod.fst) hkeys
    simp only [map_map] at hfst
    rw [map_map]
    exact hfst
  let marked : ServiceState :=
    { st with db := { st.db with actions := st.db.actions.map (finishRow transId runtime) } }
  have hmarked : WellFormed marked := by
    refine ⟨h.wellFormed.serviceIds, h.wellFormed.lookup, ?_⟩
    show (st.db.actions.map (finishRow transId runtime)).map ActionRow.idx = _
    rw [hidx, h.wellFormed.actionIds, length_map]
  have hactions : forall name' transId' time', .generated name' transId' time' ∈ history ->
      ActionOf marked.db transId' name' := by
    intro name' transId' time' hmem'
    rcases h.actions name' transId' time' hmem' with ⟨idx, haction, hservice⟩
    rw [← hkeys] at haction
    exact ⟨idx, haction, hservice⟩
  rcases serviceOfAction_of hmarked (hactions name transId time hmem) with
    ⟨service, hfound, hname⟩
  have hafter : (transitionFinished transId runtime).after st =
      { marked with transitionLockDict :=
          Function.update st.transitionLockDict service.name none } := by
    unfold Program.after transitionFinished
    rw [bind_apply, modify_apply]
    simp only [bind_apply, get_apply]
    rw [hfound]
    rfl
  rw [hafter, hname]
  refine ⟨⟨hmarked.serviceIds, hmarked.lookup, hmarked.actionIds⟩,
    h.guarded.finished hmem hturn, ?_⟩
  intro name' transId' time' hmem'
  rcases mem_append.mp hmem' with hold | hmark
  · exact hactions name' transId' time' hold
  · cases mem_singleton.mp hmark

end Invariant

def Safe (watched : Watched) : Prop := LockInv watched.history watched.clock watched.st

theorem safe_step (inst : Instance) (watched : Watched) (event : LockEvent) (h : Safe watched)
    (hevent : Proper watched event ∧ ReportedInTurn watched event) :
    Safe (afterLockEvent inst watched event) := by
  cases event with
  | finished transId runtime => exact LockInv.finished h hevent.left hevent.right runtime
  | update args =>
    have hstart : LockInv watched.history args.time watched.st :=
      ⟨h.wellFormed, h.guarded.mono hevent.left, h.actions⟩
    have hupdate := satisfies_update inst args watched.st hstart
    show LockInv (watched.history ++ marksOf args.time (returnedBy inst args watched.st))
      args.time ((update inst args).after watched.st)
    unfold returnedBy Program.after
    cases hresult : update inst args watched.st with
    | ok transitions next =>
      rw [hresult] at hupdate
      exact hupdate
    | error error next =>
      rw [hresult] at hupdate
      rw [marksOf, map_nil, append_nil]
      exact hupdate

/-- Nothing has been generated yet. -/
def unwatched (st : ServiceState) (clock : Int) : Watched where
  st := st
  clock := clock
  history := []

/-- As long as no transition is reported after a later one that still is at work, transitions of
a service are apart, or the first one has finished. -/
theorem lockKept_of_reportedInTurn (inst : Instance) {st : ServiceState} (hst : WellFormed st)
    (clock : Int) {events : List LockEvent}
    (hproper : Along (afterLockEvent inst) Proper (unwatched st clock) events)
    (hinTurn : Along (afterLockEvent inst) ReportedInTurn (unwatched st clock) events)
    (taken rest : List LockEvent) (hevents : events = taken ++ rest) :
    LockKept lockTimeout (run (afterLockEvent inst) (unwatched st clock) taken).history := by
  subst hevents
  have hstart : Safe (unwatched st clock) :=
    ⟨hst, guarded_nil clock _, fun _ _ _ hmem => absurd hmem not_mem_nil⟩
  have hreached : Safe (run (afterLockEvent inst) (unwatched st clock) taken) :=
    invariant_reached (afterLockEvent inst) (safe_step inst) hstart
      (along_and (afterLockEvent inst) hproper hinTurn)
  exact hreached.guarded.kept

/-!
### Two dead services
-/

def startBoth (time : Int) : LockEvent := .update { bothIn .dead time with force := true }

theorem wellFormed_twoServices : WellFormed (twoServices neverStarted) := by
  refine ⟨by decide, fun name idx hlookup => ?_, rfl⟩
  rcases mem_of_dictOf hlookup with ⟨row, hrow, rfl, rfl⟩
  exact mem_map_of_mem hrow

theorem inTurn_first : InTurn [.generated "nginx".toList 1 (1000 * second),
    .generated "redis".toList 2 (1000 * second)] 1 := by
  intro before key time after hsplit id' time' hafter
  cases before with
  | nil =>
    cases hsplit
    cases mem_singleton.mp hafter
  | cons first before =>
    cases before with
    | nil => cases hsplit
    | cons second before =>
      have hlength := congrArg length hsplit
      simp at hlength

/-- The first service has finished when it is started once more. -/
theorem lockKept_finishedBetween :
    LockKept lockTimeout (run (afterLockEvent noDependencies)
      (unwatched (twoServices neverStarted) (1000 * second))
      [startBoth (1000 * second), .finished 1 second, startBoth (1010 * second)]).history := by
  have hproper : Along (afterLockEvent noDependencies) Proper
      (unwatched (twoServices neverStarted) (1000 * second))
      [startBoth (1000 * second), .finished 1 second, startBoth (1010 * second)] :=
    ⟨le_refl _, ⟨"nginx".toList, 1000 * second, mem_cons_self⟩,
      (by decide : 1000 * second ≤ 1010 * second), trivial⟩
  have hinTurn : Along (afterLockEvent noDependencies) ReportedInTurn
      (unwatched (twoServices neverStarted) (1000 * second))
      [startBoth (1000 * second), .finished 1 second, startBoth (1010 * second)] :=
    ⟨trivial, inTurn_first, trivial, trivial⟩
  exact lockKept_of_reportedInTurn noDependencies wellFormed_twoServices (1000 * second) hproper
    hinTurn _ [] (append_nil _).symm

/-- The first transition is reported late, when the lock is that of the third one. -/
theorem lateFinish_not_lockKept :
    WellFormed (twoServices neverStarted) ∧
      Along (afterLockEvent noDependencies) Proper
        (unwatched (twoServices neverStarted) (1000 * second))
        [startBoth (1000 * second), startBoth (1031 * second), .finished 1 (32 * second),
          startBoth (1033 * second)] ∧
      ¬ LockKept lockTimeout (run (afterLockEvent noDependencies)
        (unwatched (twoServices neverStarted) (1000 * second))
        [startBoth (1000 * second), startBoth (1031 * second), .finished 1 (32 * second),
          startBoth (1033 * second)]).history := by
  refine ⟨wellFormed_twoServices, ?_, fun h => ?_⟩
  · exact ⟨le_refl _, (by decide : 1000 * second ≤ 1031 * second),
      ⟨"nginx".toList, 1000 * second, mem_cons_self⟩,
      (by decide : 1031 * second ≤ 1033 * second), trivial⟩
  · have hfinished := h _ "nginx".toList 5 (1033 * second) [] rfl
      [.generated "nginx".toList 1 (1000 * second), .generated "redis".toList 2 (1000 * second)]
      3 (1031 * second) [.generated "redis".toList 4 (1031 * second), .finished 1] rfl (by decide)
    exact absurd hfinished (by decide)

end Icsw.MetaServer
