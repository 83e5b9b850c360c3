import Icsw.Foundation.Python
import Icsw.Foundation.Run
import Mathlib.Data.List.Nodup
import Mathlib.Data.List.Perm.Basic

/-!
# Accounting of asset runs

A scan of a device is a batch of runs, each of them an external command or a request to the host
monitoring.  A run ends with its result, with its timeout or with its batch.
-/

namespace Icsw.Discovery
namespace AssetRuns

open Foundation List

structure PlannedRunState where
  /-- The key of the run in the database. -/
  idx : Nat
  isZmqConnection : Bool
  runIdx : Nat
  started : Bool
deriving DecidableEq

structure PlannedRunsForDevice where
  /-- The key of the batch in the database. -/
  idx : Nat
  ip : Option Text
  numRuns : Nat
  plannedRuns : List PlannedRunState
  numRunning : Int
  toDelete : Bool
  /-- The runs that were stopped, each time that one was; the source does not keep them. -/
  stopped : List Nat
deriving DecidableEq

/-- Change the row with a given key. -/
def updateAt {α : Type} (k : α -> Nat) (key : Nat) (f : α -> α) (item : α) : α :=
  if k item = key then f item else item

namespace PlannedRunsForDevice

def hasIp (batch : PlannedRunsForDevice) : Bool := batch.ip.any fun ip => !ip.isEmpty

def start (idx key : Nat) (batch : PlannedRunsForDevice) : PlannedRunsForDevice :=
  { batch with
    plannedRuns := batch.plannedRuns.map (updateAt PlannedRunState.idx idx fun run =>
      { run with started := true, runIdx := key })
    numRunning := batch.numRunning + 1 }

/-- Stop a run, which is removed from the planned ones. -/
def stop (batch : PlannedRunsForDevice) (idx : Nat) : PlannedRunsForDevice :=
  let left := batch.plannedRuns.filter fun entry => entry.idx ≠ idx
  { batch with
    numRunning := batch.numRunning - 1
    plannedRuns := left
    toDelete := batch.toDelete || (decide (batch.numRunning - 1 = 0) && left.isEmpty)
    stopped := batch.stopped ++ [idx] }

def cancel (batch : PlannedRunsForDevice) : PlannedRunsForDevice :=
  { (batch.plannedRuns.map PlannedRunState.idx).foldl stop batch with toDelete := true }

end PlannedRunsForDevice

/-- What a lookup table has under a key: a run of a batch. -/
structure Entry where
  key : Nat
  batch : Nat
  run : Nat
deriving DecidableEq

/-- The dispatcher, its batches not sorted by device; the source does not keep the removed ones. -/
structure Dispatcher where
  runIdx : Nat
  batchIdx : Nat
  assetRunIdx : Nat
  devicePlannedRuns : List PlannedRunsForDevice
  extConLut : List Entry
  extBgLut : List Entry
  removed : List PlannedRunsForDevice

/-- How a device can be scanned. -/
inductive Capability where
  | hm
  | nrpe
  | none
deriving DecidableEq

/-- The number of commands of a scan. -/
def Capability.commands : Capability -> Nat
  | .hm => 10
  | .nrpe => 7
  | .none => 0

/-- A schedule item whose date has passed, for a device that may be scanned. -/
structure Due where
  ip : Option Text
  capability : Capability

/-- A device that can be scanned has an address. -/
def Due.Addressed (due : Due) : Prop :=
  due.capability ≠ .none -> due.ip.any (fun ip => !ip.isEmpty) = true

namespace Dispatcher

def init : Dispatcher := ⟨0, 0, 0, [], [], [], []⟩

def onBatch (idx : Nat) (f : PlannedRunsForDevice -> PlannedRunsForDevice)
    (dispatcher : Dispatcher) : Dispatcher :=
  { dispatcher with
    devicePlannedRuns :=
      dispatcher.devicePlannedRuns.map (updateAt PlannedRunsForDevice.idx idx f) }

variable (dispatcher : Dispatcher)

def newBatch (due : Due) : PlannedRunsForDevice where
  idx := dispatcher.batchIdx + 1
  ip := due.ip
  numRuns := due.capability.commands
  plannedRuns := (range' (dispatcher.assetRunIdx + 1) due.capability.commands).map fun idx =>
    ⟨idx, due.capability = .hm, 0, false⟩
  numRunning := 0
  toDelete := false
  stopped := []

/-- A device without a capability is skipped, its batch is finished at once. -/
def addBatch (due : Due) : Dispatcher :=
  { dispatcher with
    batchIdx := dispatcher.batchIdx + 1
    assetRunIdx := dispatcher.assetRunIdx + due.capability.commands
    devicePlannedRuns := dispatcher.devicePlannedRuns ++
      if due.capability = .none then [] else [dispatcher.newBatch due] }

def findBatch (idx : Nat) : Option PlannedRunsForDevice :=
  dispatcher.devicePlannedRuns.find? fun batch => batch.idx = idx

def start (batch : Nat) (run : PlannedRunState) : Dispatcher :=
  let key := dispatcher.runIdx + 1
  let entry : Entry := ⟨key, batch, run.idx⟩
  { dispatcher.onBatch batch (PlannedRunsForDevice.start run.idx key) with
    runIdx := key
    extConLut := dispatcher.extConLut ++ if run.isZmqConnection then [entry] else []
    extBgLut := dispatcher.extBgLut ++ if run.isZmqConnection then [] else [entry] }

def initRun (batch : Nat) (dispatcher : Dispatcher) (idx : Nat) : Dispatcher :=
  match (dispatcher.findBatch batch).bind fun found =>
    found.plannedRuns.find? fun run => run.idx = idx with
  | some run => if run.started then dispatcher else dispatcher.start batch run
  | none => dispatcher

def initBatch (idx : Nat) : Dispatcher :=
  match dispatcher.findBatch idx with
  | some batch =>
    if batch.hasIp then (batch.plannedRuns.map PlannedRunState.idx).foldl (initRun idx) dispatcher
    else dispatcher.onBatch idx PlannedRunsForDevice.cancel
  | none => dispatcher

def initCommands : Dispatcher :=
  (dispatcher.devicePlannedRuns.map PlannedRunsForDevice.idx).foldl initBatch dispatcher

def stopRun (entry : Entry) : Dispatcher :=
  dispatcher.onBatch entry.batch fun batch => batch.stop entry.run

def closeExtBg (ended : Nat -> Bool) (dispatcher : Dispatcher) : Dispatcher :=
  { (dispatcher.extBgLut.filter fun entry => ended entry.key).foldl stopRun dispatcher with
    extBgLut := dispatcher.extBgLut.filter fun entry => !ended entry.key }

def closeExtCon (ended : Nat -> Bool) (dispatcher : Dispatcher) : Dispatcher :=
  { (dispatcher.extConLut.filter fun entry => ended entry.key).foldl stopRun dispatcher with
    extConLut := dispatcher.extConLut.filter fun entry => !ended entry.key }

def checkForFinishedRuns : Dispatcher :=
  { dispatcher with
    devicePlannedRuns := dispatcher.devicePlannedRuns.filter fun batch => !batch.toDelete
    removed := dispatcher.removed ++
      dispatcher.devicePlannedRuns.filter PlannedRunsForDevice.toDelete }

/-- One round: which external commands are `finished` and which runs are over their timeout is
told by their keys. -/
def dispatchCall (due : List Due) (finished timedOut : Nat -> Bool) (dispatcher : Dispatcher) :
    Dispatcher :=
  ((initCommands (due.foldl addBatch dispatcher)).closeExtBg fun key => finished key || timedOut key)
    |>.closeExtCon timedOut |>.checkForFinishedRuns

/-- A result, with the state of the reply: five states are known, and a state is looked up before
its run is stopped. -/
def gotResult (runIdx : Nat) (state : Int) (dispatcher : Dispatcher) : Except PyError Dispatcher :=
  match dispatcher.extConLut.find? fun entry => entry.key = runIdx with
  | some entry =>
    if 0 ≤ state ∧ state ≤ 4 then
      .ok (checkForFinishedRuns { dispatcher.stopRun entry with
        extConLut := dispatcher.extConLut.filter fun other => other.key ≠ runIdx })
    else .error .keyError
  | none => .ok dispatcher.checkForFinishedRuns

end Dispatcher

inductive Event where
  | dispatchCall (due : List Due) (finished timedOut : Nat -> Bool)
  | gotResult (runIdx : Nat) (state : Int)

/-- An event that raises leaves the dispatcher as it is. -/
def step (dispatcher : Dispatcher) : Event -> Dispatcher
  | .dispatchCall due finished timedOut => dispatcher.dispatchCall due finished timedOut
  | .gotResult runIdx state => (dispatcher.gotResult runIdx state).toOption.getD dispatcher

theorem perm_updateAt {α : Type} {k : α -> Nat} (f : α -> α) {items : List α}
    (hdistinct : (items.map k).Nodup) {item : α} (hmem : item ∈ items) :
    (items.map (updateAt k (k item) f)).Perm
      (f item :: items.filter fun other => k other ≠ k item) := by
  induction items with
  | nil => cases hmem
  | cons first rest ih =>
    rw [map_cons, nodup_cons] at hdistinct
    cases hmem with
    | head =>
      have hne : forall other, other ∈ rest -> k other ≠ k item :=
        fun other hother heq => hdistinct.left (heq ▸ mem_map_of_mem hother)
      have hrest : rest.map (updateAt k (k item) f) = rest := by
        conv => rhs; rw [<- map_id rest]
        exact map_congr_left fun other hother => if_neg (hne other hother)
      rw [map_cons, hrest, filter_cons_of_neg (by simp),
        filter_eq_self.mpr fun other hother => decide_eq_true (hne other hother), updateAt,
        if_pos rfl]
    | tail _ hitem =>
      have hne : k first ≠ k item := fun heq => hdistinct.left (heq ▸ mem_map_of_mem hitem)
      rw [map_cons, filter_cons_of_pos (by simpa using hne), updateAt, if_neg hne]
      exact ((ih hdistinct.right hitem).cons first).trans (.swap _ _ _)

theorem perm_filter {α : Type} {k : α -> Nat} {items : List α} (hdistinct : (items.map k).Nodup)
    {item : α} (hmem : item ∈ items) :
    items.Perm (item :: items.filter fun other => k other ≠ k item) := by
  have hperm := perm_updateAt id hdistinct hmem
  rwa [show updateAt k (k item) id = id from funext fun _ => ite_self _, map_id] at hperm

theorem flatMap_filter_of_nil {α β : Type} {f : α -> List β} {keep : α -> Bool} {items : List α}
    (h : forall item, item ∈ items -> keep item = false -> f item = []) :
    (items.filter keep).flatMap f = items.flatMap f := by
  induction items with
  | nil => rfl
  | cons first rest ih =>
    have hrest := ih fun item hmem => h item (mem_cons_of_mem _ hmem)
    cases hkeep : keep first with
    | true => rw [filter_cons_of_pos hkeep, flatMap_cons, flatMap_cons, hrest]
    | false =>
      rw [filter_cons_of_neg (by simp [hkeep]), flatMap_cons, h first mem_cons_self hkeep, hrest]
      rfl

namespace PlannedRunsForDevice

variable {batch : PlannedRunsForDevice} {run : PlannedRunState}

/-- The books of a batch with an address. -/
structure Good (batch : PlannedRunsForDevice) : Prop where
  address : batch.hasIp = true
  once : (batch.plannedRuns.map PlannedRunState.idx ++ batch.stopped).Nodup
  length : batch.plannedRuns.length + batch.stopped.length = batch.numRuns
  counted : batch.numRunning = batch.plannedRuns.countP PlannedRunState.started
  toDelete : batch.toDelete = true <-> batch.plannedRuns = []

namespace Good

variable (h : Good batch) (hmem : run ∈ batch.plannedRuns)
include h hmem

theorem start (hstarted : run.started = false) (key : Nat) : Good (batch.start run.idx key) := by
  have hdistinct := (nodup_append'.mp h.once).left
  have hperm := perm_updateAt (fun run => { run with started := true, runIdx := key }) hdistinct
    hmem
  have hbefore := perm_filter hdistinct hmem
  have hkeys : ((batch.start run.idx key).plannedRuns.map PlannedRunState.idx).Perm
      (batch.plannedRuns.map PlannedRunState.idx) :=
    (hperm.map PlannedRunState.idx).trans (hbefore.map PlannedRunState.idx).symm
  refine ⟨h.address, (hkeys.append_right _).nodup_iff.mpr h.once, ?_, ?_, ?_⟩
  · exact (congrArg (· + _) (length_map _)).trans h.length
  · have hcount := hbefore.countP_eq PlannedRunState.started
    have hcounted := h.counted
    rw [countP_cons_of_neg (by simp [hstarted])] at hcount
    show batch.numRunning + 1 = _
    rw [PlannedRunsForDevice.start, hperm.countP_eq, countP_cons_of_pos rfl, hcounted, hcount]
    rfl
  · exact h.toDelete.trans map_eq_nil_iff.symm

theorem stop (hstarted : run.started = true) : Good (batch.stop run.idx) := by
  have hbefore := perm_filter (nodup_append'.mp h.once).left hmem
  have hcounted : batch.numRunning - 1 =
      (batch.plannedRuns.filter fun entry => entry.idx ≠ run.idx).countP
        PlannedRunState.started := by
    rw [h.counted, hbefore.countP_eq, countP_cons_of_pos hstarted]
    omega
  have hdelete : batch.toDelete = false := by
    by_contra htrue
    rw [h.toDelete.mp (eq_true_of_ne_false htrue)] at hmem
    cases hmem
  refine ⟨h.address, ?_, ?_, hcounted, ?_⟩
  · refine (Perm.nodup_iff ?_).mp h.once
    refine ((hbefore.map PlannedRunState.idx).append_right _).trans ?_
    rw [map_cons, cons_append, PlannedRunsForDevice.stop, <- append_assoc]
    exact (perm_append_singleton _ _).symm
  · have hlength := h.length
    rw [hbefore.length_eq, length_cons] at hlength
    simp only [PlannedRunsForDevice.stop, length_append, length_cons, length_nil]
    omega
  · simp only [PlannedRunsForDevice.stop, hdelete, Bool.false_or, Bool.and_eq_true,
      decide_eq_true_eq, List.isEmpty_iff]
    refine ⟨And.right, fun hempty => ⟨?_, hempty⟩⟩
    rw [hcounted, hempty]
    rfl

end Good

def entries (batch : PlannedRunsForDevice) : List Entry :=
  (batch.plannedRuns.filter PlannedRunState.started).map fun run =>
    ⟨run.runIdx, batch.idx, run.idx⟩

theorem entries_start (h : Good batch) (hmem : run ∈ batch.plannedRuns)
    (hstarted : run.started = false) (key : Nat) :
    (batch.start run.idx key).entries.Perm (⟨key, batch.idx, run.idx⟩ :: batch.entries) := by
  have hdistinct := (nodup_append'.mp h.once).left
  have hbefore := (perm_filter hdistinct hmem).filter PlannedRunState.started
  have hafter := (perm_updateAt (fun run => { run with started := true, runIdx := key })
    hdistinct hmem).filter PlannedRunState.started
  rw [filter_cons_of_neg (by simp [hstarted])] at hbefore
  rw [filter_cons_of_pos rfl] at hafter
  exact (hafter.map _).trans ((hbefore.symm.map _).cons _)

theorem entries_stop (h : Good batch) (hmem : run ∈ batch.plannedRuns)
    (hstarted : run.started = true) :
    batch.entries.Perm (⟨run.runIdx, batch.idx, run.idx⟩ :: (batch.stop run.idx).entries) := by
  have hbefore := (perm_filter (nodup_append'.mp h.once).left hmem).filter PlannedRunState.started
  rw [filter_cons_of_pos hstarted] at hbefore
  exact hbefore.map _

end PlannedRunsForDevice

namespace Dispatcher

open PlannedRunsForDevice

variable {dispatcher : Dispatcher} {live : List Entry} {batch : PlannedRunsForDevice}
  {run : PlannedRunState}

/-- The runs that are started and not yet stopped are those with a `live` entry. -/
structure Tracks (dispatcher : Dispatcher) (live : List Entry) : Prop where
  distinct : (dispatcher.devicePlannedRuns.map PlannedRunsForDevice.idx).Nodup
  bound : forall batch, batch ∈ dispatcher.devicePlannedRuns -> batch.idx ≤ dispatcher.batchIdx
  good : forall batch, batch ∈ dispatcher.devicePlannedRuns -> Good batch
  removed : forall batch, batch ∈ dispatcher.removed -> Good batch ∧ batch.plannedRuns = []
  keys : (live.map Entry.key).Nodup
  fresh : forall entry, entry ∈ live -> entry.key ≤ dispatcher.runIdx
  opened : (dispatcher.devicePlannedRuns.flatMap entries).Perm live

def Inv (dispatcher : Dispatcher) : Prop :=
  Tracks dispatcher (dispatcher.extConLut ++ dispatcher.extBgLut)

theorem good_newBatch {due : Due} (hcap : due.capability ≠ .none)
    (hip : due.ip.any (fun ip => !ip.isEmpty) = true) : Good (dispatcher.newBatch due) := by
  refine ⟨hip, ?_, ?_, ?_, ?_⟩
  · simpa [newBatch, Function.comp_def] using nodup_range'
  · simp [newBatch]
  · simp [newBatch, Function.comp_def]
  · cases hdue : due.capability with
    | none => exact absurd hdue hcap
    | hm => simp [newBatch, hdue, Capability.commands]
    | nrpe => simp [newBatch, hdue, Capability.commands]

namespace Tracks

theorem perm (h : Tracks dispatcher live) {other : List Entry} (hperm : live.Perm other) :
    Tracks dispatcher other where
  distinct := h.distinct
  bound := h.bound
  good := h.good
  removed := h.removed
  keys := (hperm.map _).nodup_iff.mp h.keys
  fresh entry hentry := h.fresh entry (hperm.mem_iff.mpr hentry)
  opened := h.opened.trans hperm

theorem inv {con bg : List Entry} (h : Tracks dispatcher (con ++ bg)) :
    Inv { dispatcher with extConLut := con, extBgLut := bg } :=
  ⟨h.distinct, h.bound, h.good, h.removed, h.keys, h.fresh, h.opened⟩

theorem onBatch (h : Tracks dispatcher live) (hbatch : batch ∈ dispatcher.devicePlannedRuns)
    {f : PlannedRunsForDevice -> PlannedRunsForDevice} (hidx : (f batch).idx = batch.idx)
    (hgood : Good (f batch)) {after : Dispatcher} {later : List Entry}
    (hafter : after.devicePlannedRuns =
      dispatcher.devicePlannedRuns.map (updateAt PlannedRunsForDevice.idx batch.idx f))
    (hbatchIdx : after.batchIdx = dispatcher.batchIdx) (hremoved : after.removed = dispatcher.removed)
    (hkeys : (later.map Entry.key).Nodup)
    (hfresh : forall entry, entry ∈ later -> entry.key ≤ after.runIdx)
    (hopened : forall rest, (batch.entries ++ rest).Perm live ->
      ((f batch).entries ++ rest).Perm later) : Tracks after later := by
  have hbefore := perm_filter h.distinct hbatch
  have hperm := perm_updateAt f h.distinct hbatch
  rw [<- hafter] at hperm
  have hall : forall {holds : PlannedRunsForDevice -> Prop}, holds (f batch) ->
      (forall other, other ∈ dispatcher.devicePlannedRuns -> holds other) ->
      forall other, other ∈ after.devicePlannedRuns -> holds other := by
    intro holds hnew hold other hother
    rcases mem_cons.mp (hperm.mem_iff.mp hother) with rfl | hother
    · exact hnew
    · exact hold other (mem_of_mem_filter hother)
  refine ⟨?_, hall ?_ ?_, hall hgood h.good, hremoved ▸ h.removed, hkeys, hfresh, ?_⟩
  · refine ((hperm.map _).nodup_iff).mpr ?_
    rw [map_cons, hidx]
    exact ((hbefore.map _).nodup_iff).mp h.distinct
  · rw [hidx, hbatchIdx]
    exact h.bound batch hbatch
  · exact hbatchIdx ▸ h.bound
  · exact (hperm.flatMap_right _).trans (hopened _ ((hbefore.flatMap_right _).symm.trans h.opened))

theorem stopRun {entry : Entry} (h : Tracks dispatcher (entry :: live)) :
    Tracks (dispatcher.stopRun entry) live := by
  rcases mem_flatMap.mp (h.opened.mem_iff.mpr mem_cons_self) with ⟨batch, hbatch, hentry⟩
  rcases mem_map.mp hentry with ⟨run, hrun, rfl⟩
  rcases mem_filter.mp hrun with ⟨hmem, hstarted⟩
  have hgood := h.good batch hbatch
  refine h.onBatch hbatch (f := fun batch => batch.stop run.idx) rfl (hgood.stop hmem hstarted) rfl
    rfl rfl (nodup_cons.mp h.keys).right (fun entry hentry => h.fresh entry (mem_cons_of_mem _ hentry))
    fun rest hperm => ?_
  exact (((entries_stop hgood hmem hstarted).append_right rest).symm.trans hperm).cons_inv

theorem foldl_stopRun {closed : List Entry} (h : Tracks dispatcher (closed ++ live)) :
    Tracks (closed.foldl Dispatcher.stopRun dispatcher) live := by
  induction closed generalizing dispatcher with
  | nil => exact h
  | cons first rest ih => exact ih h.stopRun

theorem start (h : Tracks dispatcher live) (hbatch : batch ∈ dispatcher.devicePlannedRuns)
    (hrun : run ∈ batch.plannedRuns) (hstarted : run.started = false) :
    Tracks (dispatcher.start batch.idx run)
      (⟨dispatcher.runIdx + 1, batch.idx, run.idx⟩ :: live) := by
  have hgood := h.good batch hbatch
  refine h.onBatch hbatch (f := PlannedRunsForDevice.start run.idx (dispatcher.runIdx + 1)) rfl
    (hgood.start hrun hstarted _) rfl rfl rfl (nodup_cons.mpr ⟨?_, h.keys⟩) ?_ fun rest hperm => ?_
  · intro hin
    rcases mem_map.mp hin with ⟨entry, hentry, heq⟩
    have hle := h.fresh entry hentry
    rw [heq] at hle
    exact Nat.not_succ_le_self _ hle
  · intro entry hentry
    rcases mem_cons.mp hentry with rfl | hentry
    · exact Nat.le_refl _
    · exact Nat.le_succ_of_le (h.fresh entry hentry)
  · exact ((entries_start hgood hrun hstarted _).append_right rest).trans (hperm.cons _)

theorem addBatch (h : Tracks dispatcher live) {due : Due} (hdue : due.Addressed) :
    Tracks (dispatcher.addBatch due) live := by
  have hbound : forall batch, batch ∈ dispatcher.devicePlannedRuns ->
      batch.idx ≤ dispatcher.batchIdx + 1 :=
    fun batch hmem => Nat.le_succ_of_le (h.bound batch hmem)
  unfold Dispatcher.addBatch
  by_cases hcap : due.capability = .none
  · rw [if_pos hcap, append_nil]
    exact ⟨h.distinct, hbound, h.good, h.removed, h.keys, h.fresh, h.opened⟩
  · rw [if_neg hcap]
    refine ⟨?_, forall_mem_append.mpr ⟨hbound, forall_mem_singleton.mpr (Nat.le_refl _)⟩,
      forall_mem_append.mpr ⟨h.good, forall_mem_singleton.mpr (good_newBatch hcap (hdue hcap))⟩,
      h.removed, h.keys, h.fresh, ?_⟩
    · rw [map_append]
      refine nodup_append'.mpr ⟨h.distinct, nodup_singleton _, fun idx hin hnew => ?_⟩
      rcases mem_map.mp hin with ⟨batch, hmem, rfl⟩
      have hle := h.bound batch hmem
      rw [mem_singleton.mp hnew] at hle
      exact Nat.not_succ_le_self _ hle
    · have hnone : (dispatcher.newBatch due).entries = [] := by
        rw [entries, newBatch, filter_eq_nil_iff.mpr]
        · rfl
        · intro run hrun
          rcases mem_map.mp hrun with ⟨_, _, rfl⟩
          exact Bool.false_ne_true
      rw [flatMap_append, flatMap_singleton, hnone, append_nil]
      exact h.opened

theorem checkForFinishedRuns (h : Tracks dispatcher live) :
    Tracks dispatcher.checkForFinishedRuns live := by
  refine ⟨h.distinct.sublist (filter_sublist.map _),
    fun batch hmem => h.bound batch (mem_of_mem_filter hmem),
    fun batch hmem => h.good batch (mem_of_mem_filter hmem), ?_, h.keys, h.fresh, ?_⟩
  · refine forall_mem_append.mpr ⟨h.removed, fun batch hmem => ?_⟩
    have hgood := h.good batch (mem_of_mem_filter hmem)
    exact ⟨hgood, hgood.toDelete.mp (mem_filter.mp hmem).right⟩
  · have hgone : forall batch, batch ∈ dispatcher.devicePlannedRuns ->
        (!batch.toDelete) = false -> batch.entries = [] := by
      intro batch hmem hdelete
      rw [entries, (h.good batch hmem).toDelete.mp (by simpa using hdelete)]
      rfl
    exact (Perm.of_eq (flatMap_filter_of_nil hgone)).trans h.opened

end Tracks

theorem findBatch_some {idx : Nat} (h : dispatcher.findBatch idx = some batch) :
    batch ∈ dispatcher.devicePlannedRuns ∧ batch.idx = idx := by
  unfold findBatch at h
  exact ⟨mem_of_find?_eq_some h, by simpa using find?_some h⟩

namespace Inv

theorem start (h : Inv dispatcher) (hbatch : batch ∈ dispatcher.devicePlannedRuns)
    (hrun : run ∈ batch.plannedRuns) (hstarted : run.started = false) :
    Inv (dispatcher.start batch.idx run) := by
  refine (Tracks.start h hbatch hrun hstarted).perm ?_
  unfold Dispatcher.start
  cases run.isZmqConnection with
  | false => simpa [<- append_assoc] using (perm_append_singleton _ _).symm
  | true => simpa using perm_middle.symm

theorem initRun (h : Inv dispatcher) (idx key : Nat) : Inv (initRun idx dispatcher key) := by
  unfold Dispatcher.initRun
  cases hfound : dispatcher.findBatch idx with
  | none => exact h
  | some batch =>
    rcases findBatch_some hfound with ⟨hbatch, rfl⟩
    rw [Option.bind_some]
    cases hrun : batch.plannedRuns.find? fun run => run.idx = key with
    | none => exact h
    | some run =>
      cases hstarted : run.started with
      | true => simpa only [hstarted, if_true] using h
      | false =>
        simp only [hstarted, Bool.false_eq_true, if_false]
        exact h.start hbatch (mem_of_find?_eq_some hrun) hstarted

theorem initBatch (h : Inv dispatcher) (idx : Nat) : Inv (dispatcher.initBatch idx) := by
  unfold Dispatcher.initBatch
  cases hfound : dispatcher.findBatch idx with
  | none => exact h
  | some batch =>
    have hip := (h.good batch (findBatch_some hfound).left).address
    simp only [hip, if_true]
    exact invariant_of_step _ (fun _ key hinv => hinv.initRun idx key) h _

theorem foldl_stopRun_luts (closed : List Entry) (dispatcher : Dispatcher) :
    (closed.foldl stopRun dispatcher).extConLut = dispatcher.extConLut ∧
      (closed.foldl stopRun dispatcher).extBgLut = dispatcher.extBgLut := by
  induction closed generalizing dispatcher with
  | nil => exact ⟨rfl, rfl⟩
  | cons first rest ih => exact ih (dispatcher.stopRun first)

theorem closeExtBg (h : Inv dispatcher) (ended : Nat -> Bool) :
    Inv (dispatcher.closeExtBg ended) := by
  have hperm := (filter_append_perm (fun entry => ended entry.key) dispatcher.extBgLut).symm
  have htracks := (Tracks.perm h ((hperm.append_left _).trans
    (perm_append_comm_assoc _ _ _))).foldl_stopRun
  rw [<- (foldl_stopRun_luts _ dispatcher).left] at htracks
  exact htracks.inv

theorem closeExtCon (h : Inv dispatcher) (ended : Nat -> Bool) :
    Inv (dispatcher.closeExtCon ended) := by
  have hperm := (filter_append_perm (fun entry => ended entry.key) dispatcher.extConLut).symm
  have htracks := (Tracks.perm h ((hperm.append_right _).trans
    (.of_eq (append_assoc _ _ _)))).foldl_stopRun
  rw [<- (foldl_stopRun_luts _ dispatcher).right] at htracks
  exact htracks.inv

theorem dispatched (h : Inv dispatcher) {due : List Due}
    (hdue : forall item, item ∈ due -> item.Addressed) (finished timedOut : Nat -> Bool) :
    Inv (((initCommands (due.foldl addBatch dispatcher)).closeExtBg fun key =>
      finished key || timedOut key).closeExtCon timedOut) := by
  have hadded : Inv (due.foldl addBatch dispatcher) := by
    induction due generalizing dispatcher with
    | nil => exact h
    | cons first rest ih =>
      exact ih (Tracks.addBatch h (hdue first mem_cons_self))
        fun item hitem => hdue item (mem_cons_of_mem _ hitem)
  have hinit : Inv (initCommands (due.foldl addBatch dispatcher)) :=
    invariant_of_step _ (fun _ idx hinv => hinv.initBatch idx) hadded _
  exact (hinit.closeExtBg _).closeExtCon _

theorem gotResult (h : Inv dispatcher) {runIdx : Nat} {state : Int} {after : Dispatcher}
    (hafter : dispatcher.gotResult runIdx state = .ok after) :
    exists before, Inv before ∧ after = before.checkForFinishedRuns := by
  unfold Dispatcher.gotResult at hafter
  cases hfound : dispatcher.extConLut.find? fun entry => entry.key = runIdx with
  | none =>
    rw [hfound] at hafter
    cases hafter
    exact ⟨dispatcher, h, rfl⟩
  | some entry =>
    simp only [hfound] at hafter
    split at hafter
    · cases hafter
      have hmem := mem_of_find?_eq_some hfound
      have hkey : entry.key = runIdx := by simpa using find?_some hfound
      have hkeys : (dispatcher.extConLut.map Entry.key).Nodup :=
        (nodup_append'.mp (map_append ▸ h.keys)).left
      subst hkey
      exact ⟨_, (Tracks.perm h ((perm_filter hkeys hmem).append_right _)).stopRun.inv, rfl⟩
    · cases hafter

end Inv

end Dispatcher

def Event.Addressed : Event -> Prop
  | .dispatchCall due _ _ => forall item, item ∈ due -> item.Addressed
  | .gotResult _ _ => True

/--
The numbers are right, no run is stopped twice or both stopped and left, a run that is started is
waited for, and a batch is removed when all its runs are stopped.
-/
structure Accounted (dispatcher : Dispatcher) : Prop where
  counted : forall batch, batch ∈ dispatcher.devicePlannedRuns ++ dispatcher.removed ->
    batch.numRunning = batch.plannedRuns.countP PlannedRunState.started
  once : forall batch, batch ∈ dispatcher.devicePlannedRuns ++ dispatcher.removed ->
    (batch.plannedRuns.map PlannedRunState.idx ++ batch.stopped).Nodup
  waiting : forall batch, batch ∈ dispatcher.devicePlannedRuns ++ dispatcher.removed ->
    forall run, run ∈ batch.plannedRuns -> run.started = true ->
      ⟨run.runIdx, batch.idx, run.idx⟩ ∈ dispatcher.extConLut ++ dispatcher.extBgLut
  kept : forall batch, batch ∈ dispatcher.devicePlannedRuns -> batch.stopped.length < batch.numRuns
  removed : forall batch, batch ∈ dispatcher.removed -> batch.stopped.length = batch.numRuns

def Settled (dispatcher : Dispatcher) : Prop :=
  dispatcher.Inv ∧ forall batch, batch ∈ dispatcher.devicePlannedRuns -> batch.toDelete = false

theorem settled_checked {dispatcher : Dispatcher} (h : dispatcher.Inv) :
    Settled dispatcher.checkForFinishedRuns :=
  ⟨h.checkForFinishedRuns, fun batch hmem => by simpa using (mem_filter.mp hmem).right⟩

theorem settled_step {dispatcher : Dispatcher} {event : Event} (h : Settled dispatcher)
    (hevent : event.Addressed) : Settled (step dispatcher event) := by
  cases event with
  | dispatchCall due finished timedOut =>
    exact settled_checked (h.left.dispatched hevent finished timedOut)
  | gotResult runIdx state =>
    show Settled ((dispatcher.gotResult runIdx state).toOption.getD dispatcher)
    cases hafter : dispatcher.gotResult runIdx state with
    | ok after =>
      rcases h.left.gotResult hafter with ⟨before, hbefore, rfl⟩
      exact settled_checked hbefore
    | error _ => exact h

theorem accounted {dispatcher : Dispatcher} (h : Settled dispatcher) : Accounted dispatcher := by
  have hgood : forall batch, batch ∈ dispatcher.devicePlannedRuns ++ dispatcher.removed ->
      batch.Good :=
    forall_mem_append.mpr ⟨h.left.good, fun batch hmem => (h.left.removed batch hmem).left⟩
  refine ⟨fun batch hmem => (hgood batch hmem).counted, fun batch hmem => (hgood batch hmem).once,
    ?_, ?_, ?_⟩
  · intro batch hmem run hrun hstarted
    rcases mem_append.mp hmem with hmem | hmem
    · refine h.left.opened.mem_iff.mp (mem_flatMap.mpr ⟨batch, hmem, ?_⟩)
      exact mem_map.mpr ⟨run, mem_filter.mpr ⟨hrun, hstarted⟩, rfl⟩
    · rw [(h.left.removed batch hmem).right] at hrun
      cases hrun
  · intro batch hmem
    have hlength := (h.left.good batch hmem).length
    have hleft : batch.plannedRuns ≠ [] := by
      intro hnil
      have hdelete := h.right batch hmem
      rw [(h.left.good batch hmem).toDelete.mpr hnil] at hdelete
      cases hdelete
    have hpos := length_pos_of_ne_nil hleft
    omega
  · intro batch hmem
    rcases h.left.removed batch hmem with ⟨hbatch, hnil⟩
    have hlength := hbatch.length
    rw [hnil, length_nil] at hlength
    omega

theorem settled_init : Settled .init :=
  ⟨⟨nodup_nil, nofun, nofun, nofun, nodup_nil, nofun, .refl _⟩, nofun⟩

theorem settled_run {events : List Event} (h : forall event, event ∈ events -> event.Addressed)
    {dispatcher : Dispatcher} (hsettled : Settled dispatcher) :
    Settled (run step dispatcher events) := by
  induction events generalizing dispatcher with
  | nil => exact hsettled
  | cons event rest ih =>
    exact ih (fun other hother => h other (mem_cons_of_mem _ hother))
      (settled_step hsettled (h event mem_cons_self))

/-- In every state that a run of events reaches, whatever results are late, missing or repeated. -/
theorem accounted_run {events : List Event} (h : forall event, event ∈ events -> event.Addressed) :
    Accounted (run step .init events) :=
  accounted (settled_run h settled_init)

theorem accounted_repeated : Accounted (run step .init
    [.dispatchCall [⟨some "10.0.0.1".toList, .hm⟩] (fun _ => false) (fun _ => false),
      .gotResult 3 0, .gotResult 3 0]) :=
  accounted_run (by
    intro event hevent
    simp only [mem_cons, not_mem_nil, or_false] at hevent
    rcases hevent with rfl | rfl | rfl
    · intro item hitem _
      rw [mem_singleton.mp hitem]
      rfl
    · trivial
    · trivial)

theorem not_accounted_without_address : ¬ Accounted (run step .init
    [.dispatchCall [⟨none, .nrpe⟩] (fun _ => false) (fun _ => false)]) := by
  intro h
  have hcounted := h.counted ⟨1, none, 7, [], -7, true, [1, 2, 3, 4, 5, 6, 7]⟩ (by decide)
  cases hcounted

/-- The time and the starts of the runs in microseconds, the timeouts in seconds. -/
structure Clock where
  now : Int
  startTime : Nat -> Int
  timeout : Nat -> Int

/-- `timedelta.seconds`, which does not count whole days. -/
def seconds (diff : Int) : Int := diff / 1000000 % 86400

variable (clock : Clock)

def Clock.timedOut (key : Nat) : Bool :=
  decide (clock.timeout key < seconds (clock.now - clock.startTime key))

/-- `timezone.now().replace(microsecond=0)` -/
def Clock.wholeSecond : Int := clock.now - clock.now % 1000000

inductive BatchStatus where
  | planned
  | running
  | finishedRuns
  | generatingAssets
  | finished
deriving DecidableEq

structure AssetBatch where
  runStatus : BatchStatus
  runStartTime : Option Int
  runEndTime : Option Int

/-- The check of the pending batches. -/
def AssetBatch.closePending (batch : AssetBatch) : AssetBatch :=
  if batch.runStatus ≠ .finished ∧
      batch.runStartTime.any (fun start => 86400 < seconds (clock.wholeSecond - start)) = true then
    { batch with runStatus := .finished, runEndTime := some clock.wholeSecond }
  else batch

def Clock.Overdue (key : Nat) : Prop :=
  clock.timeout key * 1000000 < clock.now - clock.startTime key

/-- The batch was started more than a day ago. -/
def AssetBatch.Overdue (batch : AssetBatch) : Prop :=
  batch.runStatus ≠ .finished ∧
    exists start, start ∈ batch.runStartTime ∧ 86400 * 1000000 < clock.now - start

/-- The run of an entry has no result, and its command has not finished. -/
def Dispatcher.Unfinished (dispatcher : Dispatcher) (finished : Nat -> Bool) (entry : Entry) : Prop :=
  entry ∈ dispatcher.extConLut ∨ entry ∈ dispatcher.extBgLut ∧ finished entry.key = false

/-- Overdue runs are cancelled, so that nothing waits for them any more, and overdue batches are
finished. -/
structure EndsOverdue (due : List Due) (finished : Nat -> Bool)
    (batches : List AssetBatch) (dispatcher : Dispatcher) : Prop where
  runs : forall entry, dispatcher.Unfinished finished entry -> clock.Overdue entry.key ->
    entry ∉ (dispatcher.dispatchCall due finished clock.timedOut).extConLut ++
      (dispatcher.dispatchCall due finished clock.timedOut).extBgLut
  batches : forall batch, batch ∈ batches -> batch.Overdue clock ->
    (batch.closePending clock).runStatus = .finished

/-- No batch is overdue, and the age of an overdue run is over its timeout by a whole second, whole
days not counted. -/
structure WithinDay (finished : Nat -> Bool) (batches : List AssetBatch)
    (dispatcher : Dispatcher) : Prop where
  runs : forall entry, dispatcher.Unfinished finished entry -> clock.Overdue entry.key ->
    clock.timeout entry.key + 1 ≤ (clock.now - clock.startTime entry.key) / 1000000 % 86400
  batches : forall batch, batch ∈ batches -> ¬ batch.Overdue clock

namespace Dispatcher

variable {dispatcher : Dispatcher} {entry : Entry}

/-- Both lookup tables keep their entries. -/
def Keeps (dispatcher after : Dispatcher) : Prop :=
  dispatcher.extConLut ⊆ after.extConLut ∧ dispatcher.extBgLut ⊆ after.extBgLut

theorem Keeps.trans {between after : Dispatcher} (h : Keeps dispatcher between)
    (h' : Keeps between after) : Keeps dispatcher after :=
  ⟨Subset.trans h.left h'.left, Subset.trans h.right h'.right⟩

theorem keeps_initRun (batch idx : Nat) : Keeps dispatcher (initRun batch dispatcher idx) := by
  unfold initRun
  split
  · split
    · exact ⟨Subset.refl _, Subset.refl _⟩
    · exact ⟨subset_append_left _ _, subset_append_left _ _⟩
  · exact ⟨Subset.refl _, Subset.refl _⟩

theorem keeps_foldl {α : Type} {f : Dispatcher -> α -> Dispatcher}
    (h : forall dispatcher item, Keeps dispatcher (f dispatcher item)) (items : List α) :
    Keeps dispatcher (items.foldl f dispatcher) := by
  induction items generalizing dispatcher with
  | nil => exact ⟨Subset.refl _, Subset.refl _⟩
  | cons first rest ih => exact (h dispatcher first).trans ih

theorem keeps_initBatch (idx : Nat) : Keeps dispatcher (dispatcher.initBatch idx) := by
  unfold initBatch
  split
  · split
    · exact keeps_foldl (fun _ => keeps_initRun idx) _
    · exact ⟨Subset.refl _, Subset.refl _⟩
  · exact ⟨Subset.refl _, Subset.refl _⟩

theorem Unfinished.dispatched {finished : Nat -> Bool} (h : dispatcher.Unfinished finished entry)
    (due : List Due) : (initCommands (due.foldl addBatch dispatcher)).Unfinished finished entry := by
  have hadded : Keeps dispatcher (due.foldl addBatch dispatcher) :=
    keeps_foldl (f := addBatch) (fun _ _ => ⟨Subset.refl _, Subset.refl _⟩) due
  have hkeeps : Keeps dispatcher (initCommands (due.foldl addBatch dispatcher)) :=
    hadded.trans (keeps_foldl (fun _ => keeps_initBatch) _)
  exact h.imp (fun hcon => hkeeps.left hcon) (And.imp_left fun hbg => hkeeps.right hbg)

/-- After a round the runs are waited for that are neither finished nor over their timeout. -/
theorem mem_luts_dispatchCall {due : List Due} {finished timedOut : Nat -> Bool} :
    entry ∈ (dispatcher.dispatchCall due finished timedOut).extConLut ++
        (dispatcher.dispatchCall due finished timedOut).extBgLut <->
      timedOut entry.key = false ∧
        (initCommands (due.foldl addBatch dispatcher)).Unfinished finished entry := by
  simp only [dispatchCall, checkForFinishedRuns, closeExtCon, closeExtBg, Inv.foldl_stopRun_luts,
    mem_append, mem_filter, Unfinished, Bool.not_eq_true', Bool.or_eq_false_iff]
  tauto

end Dispatcher

theorem ends_overdue_iff (clock : Clock) (due : List Due) (finished : Nat -> Bool)
    (batches : List AssetBatch) (dispatcher : Dispatcher) :
    EndsOverdue clock due finished batches dispatcher <->
      WithinDay clock finished batches dispatcher := by
  constructor
  · intro h
    refine ⟨fun entry hopen hoverdue => ?_, fun batch hbatch hoverdue => ?_⟩
    · by_contra hshort
      refine h.runs entry hopen hoverdue (Dispatcher.mem_luts_dispatchCall.mpr ⟨?_, hopen.dispatched due⟩)
      exact decide_eq_false fun htimeout => hshort htimeout
    · have hclosed := h.batches batch hbatch hoverdue
      have hshort : forall diff, ¬ 86400 < seconds diff := fun diff => by
        unfold seconds
        omega
      rw [AssetBatch.closePending, if_neg (by simp [hshort])] at hclosed
      exact hoverdue.left hclosed
  · intro h
    refine ⟨fun entry hopen hoverdue hmem => ?_, fun batch hbatch hoverdue =>
      absurd hoverdue (h.batches batch hbatch)⟩
    have htimeout : clock.timedOut entry.key = true :=
      decide_eq_true (h.runs entry hopen hoverdue)
    rw [(Dispatcher.mem_luts_dispatchCall.mp hmem).left] at htimeout
    cases htimeout

/-- A run of a device with the host monitoring, a day and five seconds after its start. -/
def resumedClock : Clock := ⟨86405000000, fun _ => 0, fun _ => 30⟩

theorem not_ends_overdue_next_day : ¬ EndsOverdue resumedClock [] (fun _ => false) []
    (run step .init
      [.dispatchCall [⟨some "10.0.0.1".toList, .hm⟩] (fun _ => false) fun _ => false]) := by
  intro h
  exact h.runs ⟨1, 1, 1⟩ (Or.inl (by decide))
    (show (30 * 1000000 : Int) < 86405000000 - 0 by decide) (by decide)

end AssetRuns
end Icsw.Discovery
