import Icsw.ProcessPool.Model
import Mathlib.Data.List.Dedup

/-!
# Shutdown of the process pool

The exits are sent in the order of the priorities, and the counter counts the started processes
whose exit is still to be handled, as long as no exit is sent or handled twice, and no process that
was never started is taken for dead.
-/

namespace Icsw.ProcessPool

open Foundation List

variable (pool : Pool)

/-- The number of started processes whose exit has not been handled. -/
def Pool.unhandled : Nat :=
  pool.processes.keys.countP fun name => (pool.life name).isStarted

structure Orderly : Prop where
  ordered : forall sent, sent ∈ pool.sent -> sent.aliveBelow = []
  counted : pool.processesRunning = pool.unhandled
  ended : pool.runFlag = false ->
    pool.unhandled = 0 ∧ forall name, (pool.life name).isAlive = false

theorem isStarted_of_isAlive {life : Life} (halive : life.isAlive = true) :
    life.isStarted = true := by
  cases life with
  | added => cases halive
  | starting => rfl
  | connected => rfl
  | exiting => rfl
  | dead => rfl

/-- No process that was sent its exit is alive below the priority of this one. -/
def MayBeStopped (name : Text) : Prop :=
  forall other, other ∈ pool.processes -> other ∈ pool.processesStopped ->
    (pool.life other).isAlive = true ->
      priorityOf pool.processes name ≤ priorityOf pool.processes other

def WasStarted (call : Stopping) : Prop :=
  forall name rest, call.procList = name :: rest -> name ∉ pool.processesStopped ->
    (pool.life name).isStarted = true

def ExitExpected (name : Text) : Prop :=
  pool.exitRequested = false ∨ pool.processesRunning ≠ 0 ->
    forall rest, pool.queue name = .processExit :: rest -> name ∈ pool.processes

def StepOk : Pool.Action -> Prop
  | .loop name =>
    match pool.place with
    | .head => True
    | .stopping call => WasStarted pool call
    | .stopProcess stopped _ => (pool.life stopped).isAlive = true -> MayBeStopped pool stopped
    | .poll => ExitExpected pool name
    | .check => True
  | _ => True

/-- No process comes before one of a lower priority, and the groups do not mix priorities. -/
def Ascending (processes : Dict Text ProcessObj) : List (List Text) -> Prop
  | [] => True
  | group :: groups =>
    (forall name other, name ∈ group -> other ∈ group ++ groups.flatten ->
      priorityOf processes name ≤ priorityOf processes other) ∧
    Ascending processes groups

variable {groups : List (List Text)}

theorem ascending_congr {processes processes' : Dict Text ProcessObj}
    (hsame : forall name, name ∈ groups.flatten ->
      priorityOf processes' name = priorityOf processes name)
    (hascending : Ascending processes groups) : Ascending processes' groups := by
  induction groups with
  | nil => trivial
  | cons group groups ih =>
    rw [flatten_cons] at hsame
    constructor
    · intro name other hname hother
      rw [hsame name (mem_append_left _ hname), hsame other hother]
      exact hascending.left name other hname hother
    · exact ih (fun name hname => hsame name (mem_append_right _ hname)) hascending.right

variable {name : Text} {names : List Text} {levels : List Int}

variable {processes : Dict Text ProcessObj}

theorem mem_flatten_groups : name ∈ (levels.map fun priority =>
        names.filter fun name => decide (priorityOf processes name = priority)).flatten <->
      name ∈ names ∧ priorityOf processes name ∈ levels := by
  simp only [mem_flatten, mem_map]
  constructor
  · rintro ⟨_, ⟨priority, hpriority, rfl⟩, hname⟩
    rcases mem_filter.mp hname with ⟨hmem, heq⟩
    exact ⟨hmem, of_decide_eq_true heq ▸ hpriority⟩
  · rintro ⟨hmem, hpriority⟩
    exact ⟨_, ⟨_, hpriority, rfl⟩, mem_filter.mpr ⟨hmem, decide_eq_true rfl⟩⟩

theorem ascending_groups (hlevels : levels.Pairwise (· ≤ ·)) :
    Ascending processes (levels.map fun priority =>
      names.filter fun name => decide (priorityOf processes name = priority)) := by
  induction levels with
  | nil => trivial
  | cons level levels ih =>
    rcases pairwise_cons.mp hlevels with ⟨hbelow, hrest⟩
    refine ⟨?_, ih hrest⟩
    intro name other hname hother
    have hlevel := of_decide_eq_true (mem_filter.mp hname).right
    rw [hlevel]
    rcases mem_append.mp hother with hgroup | hlater
    · exact le_of_eq (of_decide_eq_true (mem_filter.mp hgroup).right).symm
    · exact hbelow _ (mem_flatten_groups.mp hlater).right

theorem nodup_groups (hnames : names.Nodup) (hlevels : levels.Nodup) :
    (levels.map fun priority =>
      names.filter fun name => decide (priorityOf processes name = priority)).flatten.Nodup := by
  induction levels with
  | nil => exact nodup_nil
  | cons level levels ih =>
    rcases nodup_cons.mp hlevels with ⟨hnew, hrest⟩
    rw [map_cons, flatten_cons]
    refine Nodup.append (hnames.filter _) (ih hrest) ?_
    intro name hname hlater
    have hlevel := of_decide_eq_true (mem_filter.mp hname).right
    exact hnew (hlevel ▸ (mem_flatten_groups.mp hlater).right)

theorem pairwise_priorities (processes : Dict Text ProcessObj) (names : List Text) :
    (priorities processes names).Pairwise (· ≤ ·) :=
  pairwise_insertionSort _ _

theorem nodup_priorities (processes : Dict Text ProcessObj) (names : List Text) :
    (priorities processes names).Nodup :=
  (perm_insertionSort _ _).nodup_iff.mpr (nodup_dedup _)

theorem mem_priorities
    (hname : name ∈ names) : priorityOf processes name ∈ priorities processes names :=
  (mem_insertionSort _).mpr (mem_dedup.mpr (mem_map_of_mem hname))

theorem Pool.mem_notStopped {pool : Pool} :
    name ∈ pool.notStopped <-> name ∈ pool.processes ∧ name ∉ pool.processesStopped := by
  simp [Pool.notStopped, AList.mem_keys]

theorem Pool.mem_priDict {pool : Pool} :
    name ∈ pool.priDict.flatten <-> name ∈ pool.processes ∧ name ∉ pool.processesStopped := by
  rw [← Pool.mem_notStopped]
  exact mem_flatten_groups.trans (and_iff_left_of_imp mem_priorities)

theorem priorityOf_erase {name other : Text}
    (hne : other ≠ name) : priorityOf (processes.erase name) other = priorityOf processes other := by
  unfold priorityOf
  rw [AList.lookup_erase_ne hne]

theorem Pool.mem_aliveBelow {pool : Pool} {priority : Int} : name ∈ pool.aliveBelow priority <->
      name ∈ pool.processes ∧ (pool.life name).isAlive = true ∧
        priorityOf pool.processes name < priority := by
  unfold Pool.aliveBelow priorityOf
  constructor
  · intro hmem
    rcases mem_map.mp hmem with ⟨⟨key, process⟩, hentry, rfl⟩
    rcases mem_filter.mp hentry with ⟨hin, hboth⟩
    rw [Bool.and_eq_true] at hboth
    have hlookup : pool.processes.lookup key = some process := AList.mem_lookup_iff.mpr hin
    refine ⟨Dict.mem_of_lookup hlookup, hboth.left, ?_⟩
    rw [hlookup]
    exact of_decide_eq_true hboth.right
  · rintro ⟨hmem, halive, hlower⟩
    rcases Dict.exists_lookup hmem with ⟨process, hlookup⟩
    rw [hlookup] at hlower
    refine mem_map.mpr
      ⟨⟨name, process⟩, mem_filter.mpr ⟨AList.mem_lookup_iff.mp hlookup, ?_⟩, rfl⟩
    rw [Bool.and_eq_true]
    exact ⟨halive, decide_eq_true hlower⟩

/-- What holds of a call between its steps. -/
structure CallOk (processes : Dict Text ProcessObj) (stopped : List Text) (call : Stopping) :
    Prop where
  members : forall name, name ∈ call.procList ++ call.groups.flatten ->
    name ∈ processes ∧ name ∉ stopped
  nodup : (call.procList ++ call.groups.flatten).Nodup
  lowest : forall name other, name ∈ call.procList -> other ∈ processes -> other ∉ stopped ->
    priorityOf processes name ≤ priorityOf processes other
  complete : call.prevProcessesDead = true -> forall other, other ∈ processes ->
    other ∉ stopped -> other ∈ call.procList ++ call.groups.flatten
  ascending : Ascending processes call.groups
  flags : call.actProcessesStopped = !call.prevProcessesDead

section Call

variable {processes : Dict Text ProcessObj} {stopped rest group : List Text} {acts dead : Bool}
  {after : After}

theorem callOk_priDict (pool : Pool) (after : After) :
    CallOk pool.processes pool.processesStopped
      { procList := [], groups := pool.priDict, actProcessesStopped := false,
        prevProcessesDead := true, after := after } where
  members _ hname := Pool.mem_priDict.mp hname
  nodup := nodup_groups (pool.processes.keys_nodup.filter _) (nodup_priorities _ _)
  lowest _ _ hname := absurd hname not_mem_nil
  complete _ _ hmem hnot := Pool.mem_priDict.mpr ⟨hmem, hnot⟩
  ascending := ascending_groups (pairwise_priorities _ _)
  flags := rfl

theorem CallOk.nextGroup
    (hcall : CallOk processes stopped ⟨[], group :: groups, acts, true, after⟩) :
    CallOk processes stopped ⟨group, groups, acts, true, after⟩ where
  members := hcall.members
  nodup := hcall.nodup
  lowest name other hname hmem hnot :=
    hcall.ascending.left name other hname (hcall.complete rfl other hmem hnot)
  complete := hcall.complete
  ascending := hcall.ascending.right
  flags := hcall.flags

theorem CallOk.skipGroup
    (hcall : CallOk processes stopped ⟨[], group :: groups, acts, false, after⟩) :
    CallOk processes stopped ⟨[], groups, acts, false, after⟩ where
  members name hname := hcall.members name (mem_append_right group hname)
  nodup := (nodup_append.mp (show (group ++ groups.flatten).Nodup from hcall.nodup)).right.left
  lowest := hcall.lowest
  complete hdead := absurd hdead Bool.false_ne_true
  ascending := hcall.ascending.right
  flags := hcall.flags

theorem CallOk.exitSent
    (hcall : CallOk processes stopped ⟨name :: rest, groups, acts, dead, after⟩) :
    CallOk processes (name :: stopped) ⟨rest, groups, true, false, after⟩ where
  members other hother := by
    have hboth := hcall.members other (mem_cons_of_mem _ hother)
    refine ⟨hboth.left, fun hstopped => ?_⟩
    rcases mem_cons.mp hstopped with heq | hbefore
    · exact (nodup_cons.mp hcall.nodup).left (heq ▸ hother)
    · exact hboth.right hbefore
  nodup := (nodup_cons.mp hcall.nodup).right
  lowest other third hother hmem hnot :=
    hcall.lowest other third (mem_cons_of_mem _ hother) hmem
      (fun hstopped => hnot (mem_cons_of_mem _ hstopped))
  complete hdead := absurd hdead Bool.false_ne_true
  ascending := hcall.ascending
  flags := rfl

theorem CallOk.erased (hcall : CallOk processes stopped ⟨name :: rest, groups, acts, dead, after⟩) :
    CallOk (processes.erase name) stopped ⟨rest, groups, acts, dead, after⟩ := by
  have hne : forall other, other ∈ rest ++ groups.flatten -> other ≠ name := by
    rintro other hother rfl
    exact (nodup_cons.mp hcall.nodup).left hother
  constructor
  · intro other hother
    have hboth := hcall.members other (mem_cons_of_mem _ hother)
    exact ⟨AList.mem_erase.mpr ⟨hne other hother, hboth.left⟩, hboth.right⟩
  · exact (nodup_cons.mp hcall.nodup).right
  · intro other third hother hmem hnot
    rcases AList.mem_erase.mp hmem with ⟨hthird, hmem⟩
    rw [priorityOf_erase (hne other (mem_append_left _ hother)), priorityOf_erase hthird]
    exact hcall.lowest other third (mem_cons_of_mem _ hother) hmem hnot
  · intro hdead other hmem hnot
    rcases AList.mem_erase.mp hmem with ⟨hother, hmem⟩
    exact mem_of_ne_of_mem hother (hcall.complete hdead other hmem hnot)
  · apply ascending_congr _ hcall.ascending
    intro other hother
    exact priorityOf_erase (hne other (mem_append_right _ hother))
  · exact hcall.flags

end Call

variable {life : Text -> Life}

theorem countP_update {keys : List Text} (new : Life) (hnot : name ∉ keys) :
    (keys.countP fun key => (Function.update life name new key).isStarted) =
      keys.countP fun key => (life key).isStarted := by
  apply countP_congr
  intro key hkey
  have hne : key ≠ name := fun heq => hnot (heq ▸ hkey)
  rw [Function.update_of_ne hne]

theorem unhandled_erase {processes : Dict Text ProcessObj}
    (hmem : name ∈ processes) : (processes.keys.countP fun key => (life key).isStarted) =
      ((processes.erase name).keys.countP fun key => (life key).isStarted) +
        if (life name).isStarted then 1 else 0 := by
  have hperm : processes.keys.Perm (name :: (processes.erase name).keys) := by
    rw [AList.keys_erase]
    exact @perm_cons_erase Text instBEqOfDecidableEq _ _ _ (AList.mem_keys.mp hmem)
  rw [hperm.countP_eq, countP_cons]

theorem not_mem_keys_erase (processes : Dict Text ProcessObj) (name : Text) :
    name ∉ (processes.erase name).keys := by
  rw [← AList.mem_keys]
  exact fun hmem => (AList.mem_erase.mp hmem).left rfl

theorem unhandled_setLife {processes : Dict Text ProcessObj}
    (new : Life) (hmem : name ∈ processes) :
    (processes.keys.countP fun key => (Function.update life name new key).isStarted) =
      ((processes.erase name).keys.countP fun key => (life key).isStarted) +
        if new.isStarted then 1 else 0 := by
  rw [unhandled_erase hmem, countP_update new (not_mem_keys_erase processes name),
    Function.update_self]

def Placed (processes : Dict Text ProcessObj) (stopped : List Text) (exitRequested : Bool) :
    Place -> Prop
  | .head => True
  | .stopping call => exitRequested = true ∧ CallOk processes stopped call
  | .stopProcess name call =>
    exitRequested = true ∧
      CallOk processes stopped { call with procList := name :: call.procList }
  | .poll => True
  | .check => True

structure Inv (pool : Pool) : Prop where
  ordered : forall sent, sent ∈ pool.sent -> sent.aliveBelow = []
  counted : pool.processesRunning = pool.unhandled
  outside : forall name, name ∉ pool.processes -> (pool.life name).isAlive = false
  /-- A process that has reported its exit does not go on. -/
  reported : forall name, name ∈ pool.processes -> .processExit ∈ pool.queue name ->
    pool.life name = .exiting ∨ pool.life name = .dead
  once : forall name, (pool.queue name).count .processExit ≤ 1
  /-- Before the exit request no process leaves the pool without its report. -/
  kept : pool.exitRequested = false -> forall name, .processExit ∈ pool.queue name ->
    name ∈ pool.processes
  ended : pool.runFlag = false ->
    pool.exitRequested = true ∧ pool.unhandled = 0 ∧ pool.place = .head
  placed : Placed pool.processes pool.processesStopped pool.exitRequested pool.place

theorem inv_new : Inv Pool.new where
  ordered _ hsent := absurd hsent not_mem_nil
  counted := rfl
  outside _ _ := rfl
  reported _ hmem := absurd hmem (AList.notMem_empty _)
  once _ := Nat.zero_le _
  kept _ _ hexit := absurd hexit not_mem_nil
  ended hrun := Bool.noConfusion hrun
  placed := trivial

theorem Inv.orderly {pool : Pool} (hinv : Inv pool) : Orderly pool where
  ordered := hinv.ordered
  counted := hinv.counted
  ended hrun := by
    have hnone := (hinv.ended hrun).right.left
    refine ⟨hnone, ?_⟩
    intro name
    by_cases hmem : name ∈ pool.processes
    · have hstarted := countP_eq_zero.mp hnone name (AList.mem_keys.mp hmem)
      cases hlife : pool.life name with
      | added => rfl
      | starting => exact absurd (by rw [hlife]; rfl) hstarted
      | connected => exact absurd (by rw [hlife]; rfl) hstarted
      | exiting => exact absurd (by rw [hlife]; rfl) hstarted
      | dead => rfl
    · exact hinv.outside name hmem

section Steps

variable {pool : Pool} (hinv : Inv pool)
include hinv

theorem Inv.runs (hplace : pool.place ≠ .head) : pool.runFlag = true := by
  cases hrun : pool.runFlag with
  | true => rfl
  | false => exact absurd (hinv.ended hrun).right.right hplace

theorem Inv.goto {place : Place} (hrun : place = .head ∨ pool.runFlag = true)
    (hplaced : Placed pool.processes pool.processesStopped pool.exitRequested place) :
    Inv (pool.goto place) :=
  { hinv with
    ended := by
      intro hfalse
      rcases hrun with hhead | htrue
      · exact ⟨(hinv.ended hfalse).left, (hinv.ended hfalse).right.left, hhead⟩
      · exact Bool.noConfusion (htrue.symm.trans hfalse)
    placed := hplaced }

theorem Inv.stopRunningProcesses {after : After} (hrun : pool.runFlag = true)
    (hexit : pool.exitRequested = true) : Inv (pool.stopRunningProcesses after) :=
  hinv.goto (Or.inr hrun) ⟨hexit, callOk_priDict pool after⟩

theorem Inv.setLife {new : Life} (hstarted : new.isStarted = (pool.life name).isStarted)
    (halive : new.isAlive = true -> (pool.life name).isAlive = true)
    (hreported : name ∈ pool.processes -> .processExit ∈ pool.queue name ->
      new = .exiting ∨ new = .dead) : Inv (pool.setLife name new) := by
  have hunhandled : (pool.setLife name new).unhandled = pool.unhandled := by
    apply countP_congr
    intro key _
    by_cases hkey : key = name
    · rw [hkey]
      simp only [Pool.setLife, Function.update_self, hstarted]
    · simp only [Pool.setLife, Function.update_of_ne hkey]
  exact
    { hinv with
      counted := hunhandled.symm ▸ hinv.counted
      outside := (Function.forall_update_iff pool.life fun key life =>
        key ∉ pool.processes -> life.isAlive = false).mpr
        ⟨fun hkey => Bool.eq_false_iff.mpr fun h =>
          Bool.noConfusion ((hinv.outside name hkey).symm.trans (halive h)),
          fun key _ => hinv.outside key⟩
      reported := (Function.forall_update_iff pool.life fun key life => key ∈ pool.processes ->
        Message.processExit ∈ pool.queue key -> life = .exiting ∨ life = .dead).mpr
        ⟨hreported, fun key _ => hinv.reported key⟩
      ended := fun hrun =>
        ⟨(hinv.ended hrun).left, hunhandled ▸ (hinv.ended hrun).right.left,
          (hinv.ended hrun).right.right⟩ }

theorem Inv.pushStart (name : Text) : Inv (pool.push name .processStart) := by
  have hmem : forall key, .processExit ∈ (pool.push name .processStart).queue key ->
      .processExit ∈ pool.queue key :=
    (Function.forall_update_iff pool.queue fun key queue =>
      Message.processExit ∈ queue -> Message.processExit ∈ pool.queue key).mpr
      ⟨by simp, fun _ _ => id⟩
  exact
    { hinv with
      reported := fun key hkey hexit => hinv.reported key hkey (hmem key hexit)
      once := (Function.forall_update_iff pool.queue fun _ queue =>
        queue.count Message.processExit ≤ 1).mpr
        ⟨by simpa using hinv.once name, fun key _ => hinv.once key⟩
      kept := fun hrequest key hexit => hinv.kept hrequest key (hmem key hexit) }

theorem Inv.pushExit (hname : name ∈ pool.processes)
    (hlife : pool.life name = .exiting) (hnone : .processExit ∉ pool.queue name) :
    Inv (pool.push name .processExit) :=
  { hinv with
    reported := (Function.forall_update_iff pool.queue fun key queue => key ∈ pool.processes ->
      Message.processExit ∈ queue -> pool.life key = .exiting ∨ pool.life key = .dead).mpr
      ⟨fun _ _ => Or.inl hlife, fun key _ => hinv.reported key⟩
    once := (Function.forall_update_iff pool.queue fun _ queue =>
      queue.count Message.processExit ≤ 1).mpr
      ⟨by simp [count_eq_zero.mpr hnone], fun key _ => hinv.once key⟩
    kept := fun hrequest => (Function.forall_update_iff pool.queue fun key queue =>
      Message.processExit ∈ queue -> key ∈ pool.processes).mpr
      ⟨fun _ => hname, fun key _ => hinv.kept hrequest key⟩ }

theorem Inv.mem_of_isAlive (halive : (pool.life name).isAlive = true) : name ∈ pool.processes := by
  by_contra hnot
  exact Bool.noConfusion (halive.symm.trans (hinv.outside name hnot))

theorem Inv.not_reported (hmem : name ∈ pool.processes)
    (hexiting : pool.life name ≠ .exiting) (hdead : pool.life name ≠ .dead) :
    .processExit ∉ pool.queue name := by
  intro hexit
  rcases hinv.reported name hmem hexit with h | h
  · exact hexiting h
  · exact hdead h

theorem Inv.connect (name : Text) : Inv (pool.connect name) := by
  unfold Pool.connect
  by_cases hlife : pool.life name = .starting
  · rw [if_pos hlife]
    apply Inv.pushStart
    apply hinv.setLife
    · rw [hlife]
      rfl
    · intro _
      rw [hlife]
      rfl
    · intro hmem hexit
      exact absurd hexit (hinv.not_reported hmem (by rw [hlife]; decide) (by rw [hlife]; decide))
  · rw [if_neg hlife]
    exact hinv

theorem Inv.reportExit (name : Text) : Inv (pool.reportExit name) := by
  unfold Pool.reportExit
  by_cases hlife : pool.life name = .connected
  · rw [if_pos hlife]
    have hmem : name ∈ pool.processes := hinv.mem_of_isAlive (by rw [hlife]; rfl)
    have hnone := hinv.not_reported hmem (by rw [hlife]; decide) (by rw [hlife]; decide)
    have hset : Inv (pool.setLife name .exiting) := by
      apply hinv.setLife
      · rw [hlife]
        rfl
      · intro _
        rw [hlife]
        rfl
      · exact fun _ _ => Or.inl rfl
    exact hset.pushExit hmem (Function.update_self ..) hnone
  · rw [if_neg hlife]
    exact hinv

theorem Inv.die (name : Text) : Inv (pool.die name) := by
  unfold Pool.die
  by_cases halive : (pool.life name).isAlive = true
  · rw [if_pos halive]
    apply hinv.setLife
    · exact (isStarted_of_isAlive halive).symm
    · exact fun hdead => Bool.noConfusion hdead
    · exact fun _ _ => Or.inr rfl
  · rw [if_neg halive]
    exact hinv

theorem Inv.requestExit : Inv { pool with exitRequested := true } :=
  { hinv with
    kept := fun hrequest => Bool.noConfusion hrequest
    ended := fun hrun => ⟨rfl, (hinv.ended hrun).right⟩
    placed := by
      have hplaced := hinv.placed
      cases hplace : pool.place with
      | head => trivial
      | stopping call | stopProcess name call =>
        rw [hplace] at hplaced
        exact ⟨rfl, hplaced.right⟩
      | poll => trivial
      | check => trivial }

theorem Inv.addProcess (process : ProcessObj)
    (hrequest : pool.exitRequested = false) : Inv (pool.addProcess name process) := by
  unfold Pool.addProcess
  by_cases hnew : name ∈ pool.processes
  · rw [if_pos hnew]
    exact hinv
  · rw [if_neg hnew]
    have hkeys : (pool.processes.insert name process).keys = name :: pool.processes.keys := by
      rw [AList.keys_insert]
      exact congrArg _ (@erase_of_not_mem Text instBEqOfDecidableEq _ name _
        (fun h => hnew (AList.mem_keys.mpr h)))
    have hcounted : ((pool.processes.insert name process).keys.countP fun key =>
        (Function.update pool.life name .added key).isStarted) = pool.unhandled := by
      rw [hkeys, countP_cons, countP_update .added (fun h => hnew (AList.mem_keys.mpr h)),
        Function.update_self]
      rfl
    have hruns : pool.runFlag = true := by
      cases hrun : pool.runFlag with
      | true => rfl
      | false => exact Bool.noConfusion (hrequest.symm.trans (hinv.ended hrun).left)
    constructor
    · exact hinv.ordered
    · exact hinv.counted.trans (congrArg Nat.cast hcounted.symm)
    · exact (Function.forall_update_iff pool.life fun key life =>
        key ∉ pool.processes.insert name process -> life.isAlive = false).mpr
        ⟨fun _ => rfl, fun key _ hkey =>
          hinv.outside key fun hmem => hkey ((AList.mem_insert _).mpr (Or.inr hmem))⟩
    · exact (Function.forall_update_iff pool.life fun key life =>
        key ∈ pool.processes.insert name process -> Message.processExit ∈ pool.queue key ->
          life = .exiting ∨ life = .dead).mpr
        ⟨fun _ hexit => absurd (hinv.kept hrequest name hexit) hnew, fun key hne hkey =>
          hinv.reported key (((AList.mem_insert _).mp hkey).resolve_left hne)⟩
    · exact hinv.once
    · intro _ key hexit
      exact (AList.mem_insert _).mpr (Or.inr (hinv.kept hrequest key hexit))
    · exact fun hfalse => Bool.noConfusion (hruns.symm.trans hfalse)
    · have hplaced := hinv.placed
      rw [hrequest] at hplaced
      cases hplace : pool.place with
      | head => trivial
      | stopping call | stopProcess stopped call =>
        rw [hplace] at hplaced
        exact Bool.noConfusion hplaced.left
      | poll => trivial
      | check => trivial

theorem Inv.startProcess (name : Text) (hrun : pool.runFlag = true) :
    Inv (pool.startProcess name) := by
  unfold Pool.startProcess
  by_cases hadded : name ∈ pool.processes ∧ pool.life name = .added
  · rw [if_pos hadded]
    rcases hadded with ⟨hmem, hlife⟩
    have hunhandled : pool.unhandled =
        (pool.processes.erase name).keys.countP fun key => (pool.life key).isStarted := by
      rw [Pool.unhandled, unhandled_erase hmem, hlife]
      rfl
    have hstarted : (pool.processes.keys.countP fun key =>
        (Function.update pool.life name .starting key).isStarted) = pool.unhandled + 1 := by
      rw [unhandled_setLife .starting hmem, hunhandled]
      rfl
    have hnone := hinv.not_reported hmem (by rw [hlife]; decide) (by rw [hlife]; decide)
    exact
      { hinv with
        counted := by
          show pool.processesRunning + 1 = (pool.processes.keys.countP fun key =>
            (Function.update pool.life name .starting key).isStarted : Nat)
          rw [hstarted, hinv.counted]
          rfl
        outside := (Function.forall_update_iff pool.life fun key life =>
          key ∉ pool.processes -> life.isAlive = false).mpr
          ⟨fun hkey => absurd hmem hkey, fun key _ => hinv.outside key⟩
        reported := (Function.forall_update_iff pool.life fun key life => key ∈ pool.processes ->
          Message.processExit ∈ pool.queue key -> life = .exiting ∨ life = .dead).mpr
          ⟨fun _ hexit => absurd hexit hnone, fun key _ => hinv.reported key⟩
        ended := fun hfalse => Bool.noConfusion (hrun.symm.trans hfalse) }
  · rw [if_neg hadded]
    exact hinv

theorem Inv.removed {place : Place}
    (hmem : name ∈ pool.processes) (hstarted : (pool.life name).isStarted = true)
    (hlife : forall key, key ≠ name -> life key = pool.life key)
    (hdead : (life name).isAlive = false)
    (hnone : pool.exitRequested = false -> .processExit ∉ pool.queue name)
    (hrun : pool.runFlag = true)
    (hplaced : Placed (pool.processes.erase name) pool.processesStopped pool.exitRequested
      place) : Inv { pool with
      processesRunning := pool.processesRunning - 1
      processes := pool.processes.erase name
      life := life
      place := place } := by
  have hkept : ((pool.processes.erase name).keys.countP fun key => (life key).isStarted) =
      (pool.processes.erase name).keys.countP fun key => (pool.life key).isStarted := by
    apply countP_congr
    intro key hkey
    have hne : key ≠ name := fun heq => not_mem_keys_erase pool.processes name (heq ▸ hkey)
    rw [hlife key hne]
  have hcount : pool.unhandled =
      ((pool.processes.erase name).keys.countP fun key => (life key).isStarted) + 1 := by
    rw [Pool.unhandled, unhandled_erase hmem, hstarted, hkept]
    rfl
  constructor
  · exact hinv.ordered
  · have hcounted := hinv.counted
    rw [hcount] at hcounted
    show pool.processesRunning - 1 = ((pool.processes.erase name).keys.countP fun key =>
      (life key).isStarted : Nat)
    omega
  · intro key hkey
    by_cases heq : key = name
    · rw [heq]
      exact hdead
    · show (life key).isAlive = false
      rw [hlife key heq]
      exact hinv.outside key fun h => hkey (AList.mem_erase.mpr ⟨heq, h⟩)
  · intro key hkey hexit
    rcases AList.mem_erase.mp hkey with ⟨hne, hin⟩
    show life key = .exiting ∨ life key = .dead
    rw [hlife key hne]
    exact hinv.reported key hin hexit
  · exact hinv.once
  · intro hrequest key hexit
    have hne : key ≠ name := fun heq => hnone hrequest (heq ▸ hexit)
    exact AList.mem_erase.mpr ⟨hne, hinv.kept hrequest key hexit⟩
  · exact fun hfalse => Bool.noConfusion (hrun.symm.trans hfalse)
  · exact hplaced

variable {call : Stopping}

theorem Inv.callOk (hplace : pool.place = .stopping call) :
    pool.exitRequested = true ∧ CallOk pool.processes pool.processesStopped call := by
  have hplaced := hinv.placed
  rw [hplace] at hplaced
  exact hplaced

theorem Inv.stopStep (hplace : pool.place = .stopping call)
    (hok : WasStarted pool call) : Inv (pool.stopStep call) := by
  have hrun : pool.runFlag = true := hinv.runs (by rw [hplace]; exact Place.noConfusion)
  rcases hinv.callOk hplace with ⟨hexit, hcall⟩
  rcases call with ⟨procList, groups, acts, dead, after⟩
  unfold Pool.stopStep
  cases procList with
  | cons name rest =>
    have hname := hcall.members name mem_cons_self
    show Inv (if name ∈ pool.processesStopped then _ else _)
    rw [if_neg hname.right]
    by_cases halive : (pool.life name).isAlive = true
    · rw [if_pos halive]
      exact hinv.goto (Or.inr hrun) ⟨hexit, hcall⟩
    · rw [if_neg halive]
      exact hinv.removed hname.left (hok name rest rfl hname.right) (fun _ _ => rfl)
        (Bool.eq_false_iff.mpr halive)
        (fun hrequest => Bool.noConfusion (hexit.symm.trans hrequest)) hrun ⟨hexit, hcall.erased⟩
  | nil =>
    cases groups with
    | nil =>
      apply hinv.goto (Or.inr hrun)
      cases after with
      | poll => trivial
      | check => trivial
    | cons group groups =>
      have hflags : acts = !dead := hcall.flags
      subst hflags
      cases dead with
      | true => exact hinv.goto (Or.inr hrun) ⟨hexit, hcall.nextGroup⟩
      | false => exact hinv.goto (Or.inr hrun) ⟨hexit, hcall.skipGroup⟩

theorem Inv.stopProcessStep (hplace : pool.place = .stopProcess name call)
    (hok : (pool.life name).isAlive = true -> MayBeStopped pool name) :
    Inv (pool.stopProcessStep name call) := by
  have hrun : pool.runFlag = true := hinv.runs (by rw [hplace]; exact Place.noConfusion)
  have hplaced := hinv.placed
  rw [hplace] at hplaced
  rcases hplaced with ⟨hexit, hcall⟩
  have hname := (hcall.members name mem_cons_self).left
  have hnext := hcall.exitSent
  rcases Dict.exists_lookup hname with ⟨process, hlookup⟩
  have hpriority : priorityOf pool.processes name = process.priority := by
    rw [priorityOf, hlookup]
  unfold Pool.stopProcessStep Pool.stopProcess
  rw [hlookup]
  by_cases halive : (pool.life name).isAlive = true
  · have hnone : pool.aliveBelow process.priority = [] := by
      apply eq_nil_iff_forall_not_mem.mpr
      intro other hother
      rcases Pool.mem_aliveBelow.mp hother with ⟨hmem, hotherAlive, hlower⟩
      rw [← hpriority] at hlower
      by_cases hstopped : other ∈ pool.processesStopped
      · exact absurd (hok halive other hmem hstopped hotherAlive) (not_le.mpr hlower)
      · exact absurd (hcall.lowest name other mem_cons_self hmem hstopped)
          (not_le.mpr hlower)
    simp only [halive, if_true, hnone]
    exact
      { hinv with
        ordered := by
          intro sent hsent
          rcases mem_append.mp hsent with hbefore | hlast
          · exact hinv.ordered sent hbefore
          · rw [mem_singleton.mp hlast]
        ended := fun hfalse => Bool.noConfusion (hrun.symm.trans hfalse)
        placed := ⟨hexit, hnext⟩ }
  · simp only [halive]
    exact
      { hinv with
        ended := fun hfalse => Bool.noConfusion (hrun.symm.trans hfalse)
        placed := ⟨hexit, hnext⟩ }

theorem Inv.popped {message : Message} {rest : List Message}
    (hqueue : pool.queue name = message :: rest) :
    Inv { pool with queue := Function.update pool.queue name rest } := by
  have hsublist := (Function.forall_update_iff pool.queue fun key queue =>
    queue.Sublist (pool.queue key)).mpr
    ⟨hqueue ▸ sublist_cons_self message rest, fun _ _ => Sublist.refl _⟩
  exact
    { hinv with
      reported := fun key hkey hexit => hinv.reported key hkey ((hsublist key).subset hexit)
      once := fun key => le_trans ((hsublist key).count_le _) (hinv.once key)
      kept := fun hrequest key hexit => hinv.kept hrequest key ((hsublist key).subset hexit) }

theorem Inv.receive (hplace : pool.place = .poll)
    (hok : forall rest, pool.queue name = .processExit :: rest -> name ∈ pool.processes) :
    Inv (pool.receive name) := by
  have hrun : pool.runFlag = true := hinv.runs (by rw [hplace]; exact Place.noConfusion)
  unfold Pool.receive
  cases hqueue : pool.queue name with
  | nil => exact hinv.goto (Or.inr hrun) trivial
  | cons message rest =>
    have hpopped := hinv.popped hqueue
    cases message with
    | processStart =>
      show Inv (if pool.exitRequested = true then _ else _)
      by_cases hexit : pool.exitRequested = true
      · rw [if_pos hexit]
        exact hpopped.stopRunningProcesses hrun hexit
      · rw [if_neg hexit]
        exact hpopped.goto (Or.inr hrun) trivial
    | processExit =>
      have hmem := hok rest hqueue
      have hstarted : (pool.life name).isStarted = true := by
        rcases hinv.reported name hmem (by rw [hqueue]; exact mem_cons_self) with h | h
        · rw [h]
          rfl
        · rw [h]
          rfl
      have hnone : .processExit ∉ Function.update pool.queue name rest name := by
        have honce := hinv.once name
        rw [hqueue, count_cons_self] at honce
        rw [Function.update_self]
        exact count_eq_zero.mp (by omega)
      have hdead : (Function.update pool.life name Life.dead name).isAlive = false := by
        rw [Function.update_self]
        rfl
      show Inv (if name ∈ pool.processes then _ else _)
      rw [if_pos hmem]
      exact hpopped.removed hmem hstarted (fun key hne => Function.update_of_ne hne ..) hdead
        (fun _ => hnone) hrun trivial

theorem Inv.loopStep (hok : StepOk pool (.loop name)) : Inv (pool.loopStep name) := by
  unfold Pool.loopStep
  unfold StepOk at hok
  cases hplace : pool.place with
  | head =>
    show Inv (if pool.runFlag = true then _ else _)
    by_cases hrun : pool.runFlag = true
    · rw [if_pos hrun]
      by_cases hexit : pool.exitRequested = true
      · rw [if_pos hexit]
        exact hinv.stopRunningProcesses hrun hexit
      · rw [if_neg hexit]
        exact hinv.goto (Or.inr hrun) trivial
    · rw [if_neg hrun]
      exact hinv
  | stopping call =>
    rw [hplace] at hok
    exact hinv.stopStep hplace hok
  | stopProcess stopped call =>
    rw [hplace] at hok
    exact hinv.stopProcessStep hplace hok
  | poll =>
    rw [hplace] at hok
    have hrun : pool.runFlag = true := hinv.runs (by rw [hplace]; exact Place.noConfusion)
    show Inv (if (!pool.exitRequested || pool.processesRunning != 0) = true then _ else _)
    by_cases hpoll : (!pool.exitRequested || pool.processesRunning != 0) = true
    · rw [if_pos hpoll]
      apply hinv.receive hplace
      apply hok
      simpa using hpoll
    · rw [if_neg hpoll]
      exact hinv.goto (Or.inr hrun) trivial
  | check =>
    have hrun : pool.runFlag = true := hinv.runs (by rw [hplace]; exact Place.noConfusion)
    show Inv (if (pool.exitRequested && pool.processesRunning == 0) = true then _ else _)
    by_cases hdone : (pool.exitRequested && pool.processesRunning == 0) = true
    · rw [if_pos hdone]
      rw [Bool.and_eq_true, beq_iff_eq] at hdone
      have hcounted := hinv.counted
      rw [hdone.right] at hcounted
      exact
        { hinv with
          ended := fun _ => ⟨hdone.left, by
            show pool.unhandled = 0
            omega, rfl⟩
          placed := trivial }
    · rw [if_neg hdone]
      exact hinv.goto (Or.inl rfl) trivial

theorem Inv.step {action : Pool.Action} (hok : StepOk pool action) : Inv (pool.step action) := by
  cases action with
  | addProcess name process =>
    show Inv (if pool.exitRequested = true then _ else _)
    by_cases hexit : pool.exitRequested = true
    · rw [if_pos hexit]
      exact hinv
    · rw [if_neg hexit]
      exact hinv.addProcess process (Bool.eq_false_iff.mpr hexit)
  | startProcess name =>
    show Inv (if pool.runFlag = true then _ else _)
    by_cases hrun : pool.runFlag = true
    · rw [if_pos hrun]
      exact hinv.startProcess name hrun
    · rw [if_neg hrun]
      exact hinv
  | requestExit => exact hinv.requestExit
  | loop name => exact hinv.loopStep hok
  | connect name => exact hinv.connect name
  | reportExit name => exact hinv.reportExit name
  | die name => exact hinv.die name

theorem Inv.stopStep_miscounts (hbad : ¬ WasStarted pool call) :
    ¬ Orderly (pool.stopStep call) := by
  intro horderly
  apply hbad
  intro name rest hproc hnot
  by_contra hstarted
  have halive : ¬ (pool.life name).isAlive = true := fun h => hstarted (isStarted_of_isAlive h)
  have hstep : pool.stopStep call =
      (pool.forcedExit name).goto (.stopping { call with procList := rest }) := by
    unfold Pool.stopStep
    rw [hproc]
    show (if name ∈ pool.processesStopped then _ else _) = _
    rw [if_neg hnot, if_neg halive]
  have hsame : (pool.forcedExit name).unhandled = pool.unhandled := by
    by_cases hmem : name ∈ pool.processes
    · have hsplit : pool.unhandled = _ := unhandled_erase hmem
      rw [if_neg hstarted] at hsplit
      exact hsplit.symm
    · have hkeys : (pool.processes.erase name).keys = pool.processes.keys := by
        rw [AList.keys_erase]
        exact @erase_of_not_mem Text instBEqOfDecidableEq _ name _
          (fun h => hmem (AList.mem_keys.mpr h))
      exact congrArg (countP fun key => (pool.life key).isStarted) hkeys
  have hcounted : pool.processesRunning - 1 = ((pool.forcedExit name).unhandled : Int) := by
    rw [hstep] at horderly
    exact horderly.counted
  have hbefore := hinv.counted
  omega

theorem Inv.stopProcessStep_overtakes
    (hplace : pool.place = .stopProcess name call) (halive : (pool.life name).isAlive = true)
    (hbad : ¬ MayBeStopped pool name) : ¬ Orderly (pool.stopProcessStep name call) := by
  intro horderly
  apply hbad
  intro other hmem hstopped hotherAlive
  have hplaced := hinv.placed
  rw [hplace] at hplaced
  have hname := (hplaced.right.members name mem_cons_self).left
  rcases Dict.exists_lookup hname with ⟨process, hlookup⟩
  have hpriority : priorityOf pool.processes name = process.priority := by
    rw [priorityOf, hlookup]
  have hsent : (pool.stopProcessStep name call).sent = pool.sent ++
      [{ name := name, kill := process.killMyself,
         aliveBelow := pool.aliveBelow process.priority }] := by
    unfold Pool.stopProcessStep Pool.stopProcess
    rw [hlookup]
    simp only [halive, if_true, Pool.goto]
  have hnone : pool.aliveBelow process.priority = [] :=
    horderly.ordered _ (by rw [hsent]; exact mem_append_right _ mem_cons_self)
  by_contra hlower
  have hother : other ∈ pool.aliveBelow process.priority :=
    Pool.mem_aliveBelow.mpr ⟨hmem, hotherAlive, hpriority ▸ not_le.mp hlower⟩
  rw [hnone] at hother
  exact not_mem_nil hother

theorem Inv.receive_miscounts {rest : List Message}
    (hqueue : pool.queue name = .processExit :: rest) (hnot : name ∉ pool.processes) :
    ¬ Orderly (pool.receive name) := by
  intro horderly
  have hcounted : pool.processesRunning - 1 = (pool.unhandled : Int) := by
    have hstep : pool.receive name =
        { pool with
          queue := Function.update pool.queue name rest
          processesRunning := pool.processesRunning - 1
          place := .head } := by
      unfold Pool.receive
      rw [hqueue]
      show (if name ∈ pool.processes then _ else _) = _
      rw [if_neg hnot]
      rfl
    rw [hstep] at horderly
    exact horderly.counted
  have hbefore := hinv.counted
  omega

theorem Inv.not_orderly {action : Pool.Action} (hbad : ¬ StepOk pool action) :
    ¬ Orderly (pool.step action) := by
  cases action with
  | addProcess name process => exact absurd trivial hbad
  | startProcess name => exact absurd trivial hbad
  | requestExit => exact absurd trivial hbad
  | connect name => exact absurd trivial hbad
  | reportExit name => exact absurd trivial hbad
  | die name => exact absurd trivial hbad
  | loop name =>
    show ¬ Orderly (pool.loopStep name)
    unfold StepOk at hbad
    unfold Pool.loopStep
    cases hplace : pool.place with
    | head =>
      rw [hplace] at hbad
      exact absurd trivial hbad
    | stopping call =>
      rw [hplace] at hbad
      exact hinv.stopStep_miscounts hbad
    | stopProcess stopped call =>
      rw [hplace] at hbad
      rcases Classical.not_imp.mp hbad with ⟨halive, hmay⟩
      exact hinv.stopProcessStep_overtakes hplace halive hmay
    | poll =>
      rw [hplace] at hbad
      rcases Classical.not_imp.mp hbad with ⟨hpoll, hunexpected⟩
      rcases Classical.not_forall.mp hunexpected with ⟨rest, hrest⟩
      rcases Classical.not_imp.mp hrest with ⟨hqueue, hnot⟩
      have hpolled : (!pool.exitRequested || pool.processesRunning != 0) = true := by
        simpa using hpoll
      show ¬ Orderly (if (!pool.exitRequested || pool.processesRunning != 0) = true then _
        else _)
      rw [if_pos hpolled]
      exact hinv.receive_miscounts hqueue hnot
    | check =>
      rw [hplace] at hbad
      exact absurd trivial hbad

end Steps

/-- The shutdown is orderly after every part of a run. -/
def OrderlyRun (actions : List Pool.Action) : Prop :=
  forall taken rest, actions = taken ++ rest -> Orderly (run Pool.step Pool.new taken)

/-- The runs whose shutdown is orderly. -/
theorem orderlyRun_iff (actions : List Pool.Action) :
    OrderlyRun actions <-> Along Pool.step StepOk Pool.new actions :=
  reached_iff_along Pool.step (fun _ _ hinv hok => hinv.step hok) (fun _ hinv => hinv.orderly)
    (fun _ _ hinv hbad => hinv.not_orderly hbad) inv_new actions

/-- Two processes are stopped; the second one in the next iteration of the loop. -/
def twoPriorities : List Pool.Action :=
  [.addProcess "low".toList ⟨0, false⟩, .startProcess "low".toList,
    .addProcess "high".toList ⟨1, false⟩, .startProcess "high".toList, .requestExit] ++
    replicate 14 (.loop "low".toList)

theorem twoPriorities_not_orderly : ¬ OrderlyRun twoPriorities := by
  intro horderly
  have hlast := horderly twoPriorities [] (append_nil _).symm
  have hsent : { name := "high".toList, kill := false, aliveBelow := ["low".toList] } ∈
      (run Pool.step Pool.new twoPriorities).sent := by
    decide +kernel
  exact absurd (hlast.ordered _ hsent) (by decide)

end Icsw.ProcessPool
