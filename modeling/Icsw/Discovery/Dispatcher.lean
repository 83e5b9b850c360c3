import Icsw.Foundation.Intervals
import Icsw.Foundation.Python

/-!
# Discovery dispatcher

The dispatcher plans the runs of a range of time as if there were no limits, and delays them one
after the other until they respect the limits of their source, of their device and of their
setting.
-/

namespace Icsw.Discovery

open Foundation List
open DatedList
open Intervals

inductive DiscoverySource where
  | snmp
  | asu
  | ipmi
  | package
  | hardware
  | license
  | update
  | softwareVersion
  | process
  | pendingUpdate
deriving DecidableEq

def DiscoverySource.getMaximalConcurrentRuns : DiscoverySource -> Nat
  | .asu => 1
  | _ => 5

inductive DurationUnit where
  | months
  | weeks
  | days
  | hours
  | minutes
deriving DecidableEq

/-- A row of the settings; devices are named by their keys. -/
structure DispatchSetting where
  idx : Nat
  device : Nat
  source : DiscoverySource
  durationAmount : Int
  durationUnit : DurationUnit
  runNow : Bool
deriving DecidableEq

/-- Adding intervals to dates, and how long runs take on average. -/
structure DispatchEnv where
  addInterval : Int -> DurationUnit -> Int -> Int
  addTenthOfInterval : Int -> DurationUnit -> Int -> Int
  averageRunDuration : DiscoverySource -> Nat -> Int

variable (env : DispatchEnv)

def DispatchEnv.nextDate (setting : DispatchSetting) (date : Int) : Int :=
  env.addInterval setting.durationAmount setting.durationUnit date

structure ScheduleItem where
  device : Nat
  source : DiscoverySource
  plannedDate : Int
  dispatchSetting : DispatchSetting
  device_eq : device = dispatchSetting.device
  source_eq : source = dispatchSetting.source

structure ScheduledItem extends ScheduleItem where
  expectedRunDate : Int
  expectedFinishDate : Int

def plannedItem (setting : DispatchSetting) (plannedDate : Int) : ScheduleItem where
  device := setting.device
  source := setting.source
  plannedDate := plannedDate
  dispatchSetting := setting
  device_eq := rfl
  source_eq := rfl

/-- The planned dates before the end; where they do not get later, the loop does not end. -/
def plannedRuns (env : DispatchEnv) (setting : DispatchSetting) (stop : Int) :
    Nat -> Int -> Except PyError (List ScheduleItem)
  | 0, plannedDate => if plannedDate < stop then .error .endlessLoop else .ok []
  | rounds + 1, plannedDate =>
    if plannedDate < stop then do
      let later ← plannedRuns env setting stop rounds (env.nextDate setting plannedDate)
      return plannedItem setting plannedDate :: later
    else .ok []

/-- Items that have been delayed so far, sorted by the date at which they finish. -/
structure ScheduleInfo where
  itemsByDevice : Nat -> List ScheduledItem
  itemsBySource : DiscoverySource -> List ScheduledItem
  itemsByDispatchSetting : DispatchSetting -> List ScheduledItem

def insertItem (items : List ScheduledItem) (item : ScheduledItem) : List ScheduledItem :=
  sortByDate ScheduledItem.expectedFinishDate (items ++ [item])

def ScheduleInfo.addItem (info : ScheduleInfo) (item : ScheduledItem) : ScheduleInfo where
  itemsByDevice := fun device =>
    if device = item.device then insertItem (info.itemsByDevice device) item
    else info.itemsByDevice device
  itemsBySource := fun source =>
    if source = item.source then insertItem (info.itemsBySource source) item
    else info.itemsBySource source
  itemsByDispatchSetting := fun setting =>
    if setting = item.dispatchSetting then insertItem (info.itemsByDispatchSetting setting) item
    else info.itemsByDispatchSetting setting

/-- `max(date, other)` where there is another date. -/
def notBefore (other : Option Int) (date : Int) : Int :=
  match other with
  | some bound => max date bound
  | none => date

def expectedRunDate (info : ScheduleInfo) (item : ScheduleItem) : Int :=
  let nthLastBySrc :=
    nthLast item.source.getMaximalConcurrentRuns (info.itemsBySource item.source)
  let lastByDevice := (info.itemsByDevice item.device).getLast?
  let lastByDispatchSetting := (info.itemsByDispatchSetting item.dispatchSetting).getLast?
  notBefore (lastByDispatchSetting.map fun last =>
      env.nextDate item.dispatchSetting last.expectedRunDate)
    (notBefore (lastByDevice.map ScheduledItem.expectedFinishDate)
      (notBefore (nthLastBySrc.map ScheduledItem.expectedFinishDate) item.plannedDate))

def setExpectedDates (info : ScheduleInfo) (item : ScheduleItem) : ScheduledItem :=
  { item with
    expectedRunDate := expectedRunDate env info item
    expectedFinishDate := expectedRunDate env info item +
      env.averageRunDuration item.source item.device }

/-- Adding an interval leads to a later date, and to no earlier one from a later date. -/
structure EnvFits : Prop where
  increasing : forall amount unit date, 1 ≤ amount -> date < env.addInterval amount unit date
  monotone : forall amount unit date date', date ≤ date' ->
    env.addInterval amount unit date ≤ env.addInterval amount unit date'
  duration : forall source device, 0 ≤ env.averageRunDuration source device

def runningOf (source : DiscoverySource) (instant : Int) (items : List ScheduledItem) : Nat :=
  runningAt ScheduledItem.expectedRunDate ScheduledItem.expectedFinishDate
    (fun item => item.source = source) instant items

section Planned

variable {env : DispatchEnv} {start stop : Int}

end Planned

/-- The items of a key, sorted by the date at which they finish. -/
structure Filed {κ : Type} [DecidableEq κ] (key : ScheduledItem -> κ) (value : κ)
    (items filed : List ScheduledItem) : Prop where
  perm : filed.Perm (items.filter fun item => key item = value)
  sorted : Sorted ScheduledItem.expectedFinishDate filed

section Filed

variable {κ : Type} [DecidableEq κ] {key : ScheduledItem -> κ} {value : κ}
  {items filed : List ScheduledItem}

section

variable (h : Filed key value items filed)
include h

variable {item : ScheduledItem}

theorem Filed.mem_iff :
    item ∈ filed <-> item ∈ items ∧ key item = value := by
  rw [h.perm.mem_iff, mem_filter]
  exact and_congr_right fun _ => decide_eq_true_iff

theorem Filed.insert
    (hkey : key item = value) : Filed key value (items ++ [item]) (insertItem filed item) where
  perm := by
    have hsingle : [item].filter (fun item => key item = value) = [item] := by
      rw [filter_cons, if_pos (decide_eq_true hkey)]
      rfl
    rw [filter_append, hsingle]
    exact (perm_insertionSort _ _).trans (h.perm.append_right [item])
  sorted := sorted_sortByDate _ _

theorem Filed.other (hkey : key item ≠ value) : Filed key value (items ++ [item]) filed where
  perm := by
    have hsingle : [item].filter (fun item => key item = value) = [] := by
      rw [filter_cons, if_neg fun htrue => hkey (of_decide_eq_true htrue)]
      rfl
    rw [filter_append, hsingle, append_nil]
    exact h.perm
  sorted := h.sorted

theorem Filed.le_last (hmem : item ∈ items) (hkey : key item = value) :
    exists last, filed.getLast? = some last ∧ last ∈ items ∧ key last = value ∧
      item.expectedFinishDate ≤ last.expectedFinishDate := by
  have hfiled := h.mem_iff.mpr ⟨hmem, hkey⟩
  cases hlast : filed.getLast? with
  | none =>
    rw [getLast?_eq_none_iff.mp hlast] at hfiled
    exact absurd hfiled not_mem_nil
  | some last =>
    rcases h.mem_iff.mp (mem_of_getLast? hlast) with ⟨hlastMem, hlastKey⟩
    refine ⟨last, rfl, hlastMem, hlastKey, ?_⟩
    rcases getLast?_eq_some_iff.mp hlast with ⟨before, rfl⟩
    rcases mem_append.mp hfiled with hbefore | hsame
    · exact (pairwise_append.mp h.sorted).right.right item hbefore last
        mem_cons_self
    · rw [mem_singleton.mp hsame]

end

end Filed

structure Delayed (env : DispatchEnv) (start : Int) (info : ScheduleInfo)
    (items : List ScheduledItem) : Prop where
  device : forall device, Filed (fun item => item.device) device items (info.itemsByDevice device)
  source : forall source, Filed (fun item => item.source) source items (info.itemsBySource source)
  setting : forall setting, Filed (fun item => item.dispatchSetting) setting items
    (info.itemsByDispatchSetting setting)
  planned : forall item, item ∈ items ->
    start ≤ item.plannedDate ∧ item.plannedDate ≤ item.expectedRunDate
  finish : forall item, item ∈ items -> item.expectedFinishDate =
    item.expectedRunDate + env.averageRunDuration item.source item.device
  bySource : forall source instant,
    runningOf source instant items ≤ source.getMaximalConcurrentRuns
  byDevice : items.Pairwise fun item other => item.device = other.device ->
    item.expectedFinishDate ≤ other.expectedRunDate
  byDispatchSetting : items.Pairwise fun item other =>
    item.dispatchSetting = other.dispatchSetting ->
      env.nextDate item.dispatchSetting item.expectedRunDate ≤ other.expectedRunDate

section Delayed

variable {env : DispatchEnv} {start : Int} {info : ScheduleInfo} {items : List ScheduledItem}

theorem le_notBefore (other : Option Int) (date : Int) : date ≤ notBefore other date := by
  unfold notBefore
  split
  · exact le_max_left _ _
  · exact le_refl _

theorem bound_le_notBefore {other : Option Int} {bound : Int} (h : other = some bound)
    (date : Int) : bound ≤ notBefore other date := by
  rw [h]
  exact le_max_right _ _

theorem maximalConcurrentRuns_pos (source : DiscoverySource) :
    0 < source.getMaximalConcurrentRuns := by
  cases source <;> decide

variable {earlier : ScheduledItem}

theorem Delayed.device_le (h : Delayed env start info items) (item : ScheduleItem)
    (hmem : earlier ∈ items) (hdevice : earlier.device = item.device) :
    earlier.expectedFinishDate ≤ expectedRunDate env info item := by
  rcases (h.device item.device).le_last hmem hdevice with ⟨last, hlast, _, _, hle⟩
  have hbound : (info.itemsByDevice item.device).getLast?.map
      ScheduledItem.expectedFinishDate = some last.expectedFinishDate := by
    rw [hlast]
    rfl
  exact hle.trans ((bound_le_notBefore hbound _).trans (le_notBefore _ _))

/-- The item runs an interval after all earlier ones of its setting, which all take the same
time. -/
theorem Delayed.setting_le (henv : EnvFits env) (h : Delayed env start info items)
    (item : ScheduleItem) (hmem : earlier ∈ items)
    (hsetting : earlier.dispatchSetting = item.dispatchSetting) :
    env.nextDate earlier.dispatchSetting earlier.expectedRunDate ≤
      expectedRunDate env info item := by
  rcases (h.setting item.dispatchSetting).le_last hmem hsetting with
    ⟨last, hlast, hlastMem, hlastSetting, hle⟩
  have hbound : (info.itemsByDispatchSetting item.dispatchSetting).getLast?.map
      (fun last => env.nextDate item.dispatchSetting last.expectedRunDate) =
        some (env.nextDate item.dispatchSetting last.expectedRunDate) := by
    rw [hlast]
    rfl
  have hrun : earlier.expectedRunDate ≤ last.expectedRunDate := by
    rw [h.finish earlier hmem, h.finish last hlastMem, earlier.source_eq, earlier.device_eq,
      last.source_eq, last.device_eq, hsetting, hlastSetting] at hle
    linarith
  calc env.nextDate earlier.dispatchSetting earlier.expectedRunDate
      = env.nextDate item.dispatchSetting earlier.expectedRunDate := by rw [hsetting]
    _ ≤ env.nextDate item.dispatchSetting last.expectedRunDate := henv.monotone _ _ _ _ hrun
    _ ≤ expectedRunDate env info item := bound_le_notBefore hbound _

theorem Delayed.source_lt (h : Delayed env start info items) (item : ScheduleItem) :
    (items.countP fun other => decide (other.source = item.source) &&
      decide (expectedRunDate env info item < other.expectedFinishDate)) <
        item.source.getMaximalConcurrentRuns := by
  have hfiled := h.source item.source
  have hlast : forall other, nthLast item.source.getMaximalConcurrentRuns
      (info.itemsBySource item.source) = some other ->
        other.expectedFinishDate ≤ expectedRunDate env info item := by
    intro other hother
    have hbound : (nthLast item.source.getMaximalConcurrentRuns
        (info.itemsBySource item.source)).map ScheduledItem.expectedFinishDate =
          some other.expectedFinishDate := by
      rw [hother]
      rfl
    exact (bound_le_notBefore hbound _).trans ((le_notBefore _ _).trans (le_notBefore _ _))
  have hfewer := countP_lt_of_nthLast ScheduledItem.expectedFinishDate
    (maximalConcurrentRuns_pos item.source) hfiled.sorted hlast
  rw [hfiled.perm.countP_eq, countP_filter] at hfewer
  refine lt_of_le_of_lt (le_of_eq ?_) hfewer
  apply countP_congr
  intro other _
  rw [Bool.and_comm]

theorem pairwise_concat {α : Type} {r : α -> α -> Prop} {items : List α} {item : α}
    (hitems : items.Pairwise r) (hitem : forall earlier, earlier ∈ items -> r earlier item) :
    (items ++ [item]).Pairwise r := by
  apply pairwise_append.mpr
  refine ⟨hitems, pairwise_singleton _ _, ?_⟩
  intro earlier hearlier other hother
  rw [mem_singleton.mp hother]
  exact hitem earlier hearlier

theorem Delayed.step (henv : EnvFits env) (h : Delayed env start info items)
    {item : ScheduleItem} (hstart : start ≤ item.plannedDate) :
    Delayed env start (info.addItem (setExpectedDates env info item))
      (items ++ [setExpectedDates env info item]) where
  device device := by
    show Filed _ device _ (if device = item.device then _ else _)
    split
    · rename_i heq
      exact (h.device device).insert heq.symm
    · rename_i hne
      exact (h.device device).other (Ne.symm hne)
  source source := by
    show Filed _ source _ (if source = item.source then _ else _)
    split
    · rename_i heq
      exact (h.source source).insert heq.symm
    · rename_i hne
      exact (h.source source).other (Ne.symm hne)
  setting setting := by
    show Filed _ setting _ (if setting = item.dispatchSetting then _ else _)
    split
    · rename_i heq
      exact (h.setting setting).insert heq.symm
    · rename_i hne
      exact (h.setting setting).other (Ne.symm hne)
  planned other hmem := by
    rcases mem_append.mp hmem with hold | hnew
    · exact h.planned other hold
    · rw [mem_singleton.mp hnew]
      exact ⟨hstart, (le_notBefore _ _).trans ((le_notBefore _ _).trans (le_notBefore _ _))⟩
  finish other hmem := by
    rcases mem_append.mp hmem with hold | hnew
    · exact h.finish other hold
    · rw [mem_singleton.mp hnew]
      rfl
  bySource source instant := by
    apply runningAt_concat_le _ _ (fun instant => h.bySource source instant)
    intro hsource
    have hfewer := h.source_lt item
    rw [show item.source = source from of_decide_eq_true hsource] at hfewer
    exact hfewer
  byDevice := pairwise_concat h.byDevice fun _ hmem hdevice => h.device_le item hmem hdevice
  byDispatchSetting := pairwise_concat h.byDispatchSetting fun _ hmem hsetting =>
    h.setting_le henv item hmem hsetting

end Delayed

/-- Lengths in seconds; those of months differ, and none is used below. -/
def DurationUnit.seconds : DurationUnit -> Int
  | .months => 30 * 24 * 60 * 60
  | .weeks => 7 * 24 * 60 * 60
  | .days => 24 * 60 * 60
  | .hours => 60 * 60
  | .minutes => 60

end Icsw.Discovery
