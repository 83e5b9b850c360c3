import Icsw.LogAggregation.Hour
import Mathlib.Algebra.BigOperators.Group.Finset.Piecewise
import Mathlib.Algebra.BigOperators.Ring.List
import Mathlib.Algebra.Order.BigOperators.Group.Finset
import Mathlib.Algebra.Order.Field.Basic

set_option linter.unusedSectionVars false

/-!
# Aggregation of shorter timespans

A timespan other than an hour is aggregated from the rows of the shorter timespans in it.
A key without rows in one of them counts as undetermined there, so that its shares still
add up to one.
-/

namespace Icsw.LogAggregation

open Foundation List
open StatusHistory

structure SourceRow (κ σ : Type) extends AggregatedRow κ σ where
  timespanId : Nat
deriving DecidableEq

section Creation

variable {κ σ : Type} [DecidableEq κ] [DecidableEq σ] [IcingaState σ]

variable (dbEntries : List (SourceRow κ σ))

/-- `db_entries.distinct('timespan').count()` -/
def numberOfSourceTimespans : Nat :=
  (dbEntries.map SourceRow.timespanId).dedup.length

def dataTimespans (key : κ) : List Nat :=
  ((dbEntries.filter fun entry => entry.key = key).map SourceRow.timespanId).dedup

abbrev DataKey (κ σ : Type) := κ × AggregatedDescription σ

def undeterminedEntries (key : κ) : List (DataKey κ σ × ℚ) :=
  replicate (numberOfSourceTimespans dbEntries - (dataTimespans dbEntries key).length)
    ((key, .state (undeterminedDescription σ)), 1)

def dataSum : Accumulator (DataKey κ σ) :=
  (Accumulator.empty.addAll
      (dbEntries.map fun entry => ((entry.key, entry.description), entry.value))).addAll
    ((dbEntries.map fun entry => entry.key).dedup.flatMap (undeterminedEntries dbEntries))

/-- `value_sum / number_of_source_timespans` -/
def averageValue (valueSum : ℚ) (number : Nat) : Except PyError ℚ :=
  if number = 0 then .error .zeroDivisionError else .ok (valueSum / number)

def createEntriesIncrementally : Except PyError (List (AggregatedRow κ σ)) :=
  (dataSum dbEntries).entries.mapM fun entry => do
    let value ← averageValue entry.2 (numberOfSourceTimespans dbEntries)
    return { key := entry.1.1, description := entry.1.2, value := value }

end Creation

def createTimespanEntryIncrementally (hostEntries : List (SourceRow HostKey HostAlertState))
    (serviceEntries : List (SourceRow ServiceKey ServiceAlertState)) :
    Except PyError (List (AggregatedRow HostKey HostAlertState) ×
      List (AggregatedRow ServiceKey ServiceAlertState)) := do
  let hosts ← createEntriesIncrementally hostEntries
  let services ← createEntriesIncrementally serviceEntries
  return (hosts, services)

section Shares

variable {κ σ : Type} [DecidableEq κ] [DecidableEq σ]

/-- The states of a key, without its flapping. -/
def stateOf (key : κ) (dataKey : DataKey κ σ) : Bool :=
  decide (dataKey.1 = key ∧ dataKey.2 ≠ .flapping)

def flappingOf (key : κ) (dataKey : DataKey κ σ) : Bool :=
  decide (dataKey.1 = key ∧ dataKey.2 = .flapping)

def valuesOf (kind : DataKey κ σ -> Bool) (rows : List (AggregatedRow κ σ)) : List ℚ :=
  (rows.filter fun row => kind (row.key, row.description)).map AggregatedRow.value

structure NormalisedStates (key : κ) (rows : List (AggregatedRow κ σ)) : Prop where
  state : forall value, value ∈ valuesOf (stateOf key) rows -> 0 ≤ value ∧ value ≤ 1
  sum : (valuesOf (stateOf key) rows).sum = 1

structure Normalised (key : κ) (rows : List (AggregatedRow κ σ)) : Prop
    extends NormalisedStates key rows where
  flapping : forall value, value ∈ valuesOf (flappingOf key) rows -> 0 ≤ value
  flappingSum : (valuesOf (flappingOf key) rows).sum ≤ 1

def ofTimespan (timespanId : Nat) (dbEntries : List (SourceRow κ σ)) : List (AggregatedRow κ σ) :=
  (dbEntries.filter fun entry => entry.timespanId = timespanId).map SourceRow.toAggregatedRow

def NormalisedSources (dbEntries : List (SourceRow κ σ)) : Prop :=
  forall entry, entry ∈ dbEntries ->
    Normalised entry.key (ofTimespan entry.timespanId dbEntries)

/-- The values of all created rows are shares, and those of the states of a key add up to
one. -/
structure NormalisedRows (dbEntries : List (SourceRow κ σ)) (created : List (AggregatedRow κ σ)) :
    Prop where
  unit : forall row, row ∈ created -> 0 ≤ row.value ∧ row.value ≤ 1
  sum : forall row, row ∈ created -> (valuesOf (stateOf row.key) created).sum = 1
  keys : forall entry, entry ∈ dbEntries -> exists row, row ∈ created ∧ row.key = entry.key

end Shares

theorem sum_eq_sum_fibers {α β : Type} [DecidableEq β] {rows : List α} (key : α -> β)
    (value : α -> ℚ) (keys : Finset β) (h : forall row, row ∈ rows -> key row ∈ keys) :
    (rows.map value).sum =
      ∑ part ∈ keys, ((rows.filter fun row => key row = part).map value).sum := by
  induction rows with
  | nil => simp
  | cons row rest ih =>
    have hrest := ih fun other hother => h other (mem_cons_of_mem _ hother)
    have hsplit : forall part,
        (((row :: rest).filter fun row => key row = part).map value).sum =
          (if key row = part then value row else 0) +
            ((rest.filter fun row => key row = part).map value).sum := by
      intro part
      by_cases hpart : key row = part
      · rw [filter_cons, if_pos (decide_eq_true hpart), if_pos hpart]
        rfl
      · rw [filter_cons, if_neg (by simpa using hpart), if_neg hpart, zero_add]
    rw [Finset.sum_congr rfl fun part _ => hsplit part, Finset.sum_add_distrib,
      Finset.sum_ite_eq, if_pos (h row mem_cons_self), ← hrest]
    rfl

section Sums

variable {κ σ : Type} [DecidableEq κ] [DecidableEq σ] {dbEntries : List (SourceRow κ σ)}
  {key : κ}

def sourceSum (kind : DataKey κ σ -> Bool) (dbEntries : List (SourceRow κ σ)) : ℚ :=
  ((dbEntries.filter fun entry => kind (entry.key, entry.description)).map
    fun entry => entry.value).sum

theorem mem_dataTimespans {timespanId : Nat} :
    timespanId ∈ dataTimespans dbEntries key <->
      exists entry, entry ∈ dbEntries ∧ entry.key = key ∧ entry.timespanId = timespanId := by
  unfold dataTimespans
  rw [mem_dedup, mem_map]
  constructor
  · rintro ⟨entry, hentry, htimespan⟩
    rcases mem_filter.mp hentry with ⟨hmem, hkey⟩
    exact ⟨entry, hmem, of_decide_eq_true hkey, htimespan⟩
  · rintro ⟨entry, hmem, hkey, htimespan⟩
    exact ⟨entry, mem_filter.mpr ⟨hmem, decide_eq_true hkey⟩, htimespan⟩

theorem length_dataTimespans_le (dbEntries : List (SourceRow κ σ)) (key : κ) :
    (dataTimespans dbEntries key).length ≤ numberOfSourceTimespans dbEntries := by
  apply Subperm.length_le
  apply subperm_of_subset (nodup_dedup _)
  intro timespanId hmem
  rcases mem_dataTimespans.mp hmem with ⟨entry, hentry, _, rfl⟩
  exact mem_dedup.mpr (mem_map_of_mem hentry)

theorem valuesOf_ofTimespan (kind : DataKey κ σ -> Bool) (timespanId : Nat) :
    valuesOf kind (ofTimespan timespanId dbEntries) =
      ((dbEntries.filter fun entry => kind (entry.key, entry.description)).filter
        fun entry => entry.timespanId = timespanId).map fun entry => entry.value := by
  unfold valuesOf ofTimespan
  rw [filter_map, map_map, filter_filter, filter_filter]
  congr 2
  funext entry
  exact Bool.and_comm _ _

theorem sourceSum_eq {kind : DataKey κ σ -> Bool}
    (hkind : forall dataKey, kind dataKey = true -> dataKey.1 = key) :
    sourceSum kind dbEntries = ∑ timespanId ∈ (dataTimespans dbEntries key).toFinset,
      (valuesOf kind (ofTimespan timespanId dbEntries)).sum := by
  unfold sourceSum
  rw [sum_eq_sum_fibers SourceRow.timespanId (fun entry : SourceRow κ σ => entry.value)
    (dataTimespans dbEntries key).toFinset]
  · apply Finset.sum_congr rfl
    intro timespanId _
    rw [valuesOf_ofTimespan]
  · intro entry hentry
    rcases mem_filter.mp hentry with ⟨hmem, hentryKind⟩
    exact mem_toFinset.mpr (mem_dataTimespans.mpr ⟨entry, hmem, hkind _ hentryKind, rfl⟩)

theorem key_of_stateOf {dataKey : DataKey κ σ} (h : stateOf key dataKey = true) : dataKey.1 = key :=
  (of_decide_eq_true h).left

theorem key_of_flappingOf {dataKey : DataKey κ σ} (h : flappingOf key dataKey = true) :
    dataKey.1 = key :=
  (of_decide_eq_true h).left

theorem card_dataTimespans (dbEntries : List (SourceRow κ σ)) (key : κ) :
    (dataTimespans dbEntries key).toFinset.card = (dataTimespans dbEntries key).length :=
  toFinset_card_of_nodup (nodup_dedup _)

theorem sourceSum_stateOf (h : NormalisedSources dbEntries) (key : κ) :
    sourceSum (stateOf key) dbEntries = (dataTimespans dbEntries key).length := by
  rw [sourceSum_eq fun _ => key_of_stateOf]
  have hone : forall timespanId, timespanId ∈ (dataTimespans dbEntries key).toFinset ->
      (valuesOf (stateOf key) (ofTimespan timespanId dbEntries)).sum = 1 := by
    intro timespanId hmem
    rcases mem_dataTimespans.mp (mem_toFinset.mp hmem) with ⟨entry, hentry, rfl, rfl⟩
    exact (h entry hentry).sum
  rw [Finset.sum_congr rfl hone, Finset.sum_const, card_dataTimespans, nsmul_one]

theorem sourceSum_flappingOf_le (h : NormalisedSources dbEntries) (key : κ) :
    sourceSum (flappingOf key) dbEntries ≤ (dataTimespans dbEntries key).length := by
  rw [sourceSum_eq fun _ => key_of_flappingOf, ← card_dataTimespans, ← nsmul_one]
  apply Finset.sum_le_card_nsmul
  intro timespanId hmem
  rcases mem_dataTimespans.mp (mem_toFinset.mp hmem) with ⟨entry, hentry, rfl, rfl⟩
  exact (h entry hentry).flappingSum

variable [IcingaState σ]

/-- The entries that are added for keys without rows in a timespan. -/
def missingEntries (dbEntries : List (SourceRow κ σ)) : List (DataKey κ σ × ℚ) :=
  (dbEntries.map fun entry => entry.key).dedup.flatMap (undeterminedEntries dbEntries)

theorem mem_undeterminedEntries {addition : DataKey κ σ × ℚ}
    (h : addition ∈ undeterminedEntries dbEntries key) :
    addition = ((key, .state (undeterminedDescription σ)), 1) :=
  eq_of_mem_replicate h

theorem filter_flatMap_undetermined {keys : List κ} (hnodup : keys.Nodup) (hkey : key ∈ keys) :
    (keys.flatMap (undeterminedEntries dbEntries)).filter
        (fun addition => stateOf key addition.1) = undeterminedEntries dbEntries key := by
  induction keys with
  | nil => cases hkey
  | cons first rest ih =>
    rcases nodup_cons.mp hnodup with ⟨hfirst, hrest⟩
    rw [flatMap_cons, filter_append]
    have hother : forall other, other ≠ key ->
        (undeterminedEntries dbEntries other).filter (fun addition => stateOf key addition.1) =
          [] := by
      intro other hne
      apply filter_eq_nil_iff.mpr
      intro addition hmem hstate
      rw [mem_undeterminedEntries hmem] at hstate
      exact hne (key_of_stateOf hstate)
    rcases mem_cons.mp hkey with rfl | hmem
    · have hown : (undeterminedEntries dbEntries key).filter
          (fun addition => stateOf key addition.1) = undeterminedEntries dbEntries key := by
        apply filter_eq_self.mpr
        intro addition hmem
        rw [mem_undeterminedEntries hmem]
        exact decide_eq_true ⟨rfl, fun heq => nomatch heq⟩
      have htail : (rest.flatMap (undeterminedEntries dbEntries)).filter
          (fun addition => stateOf key addition.1) = [] := by
        apply filter_eq_nil_iff.mpr
        intro addition hmem hstate
        rcases mem_flatMap.mp hmem with ⟨other, hother', hin⟩
        rw [mem_undeterminedEntries hin] at hstate
        exact hfirst (key_of_stateOf hstate ▸ hother')
      rw [hown, htail, append_nil]
    · have hne : first ≠ key := fun heq => hfirst (heq ▸ hmem)
      rw [hother first hne, nil_append, ih hrest hmem]

theorem totalOf_dataSum (kind : DataKey κ σ -> Bool) (dbEntries : List (SourceRow κ σ)) :
    (dataSum dbEntries).totalOf kind = sourceSum kind dbEntries +
      (((missingEntries dbEntries).filter fun addition => kind addition.1).map Prod.snd).sum := by
  unfold dataSum sourceSum missingEntries
  rw [Accumulator.totalOf_addAll, Accumulator.totalOf_addAll, Accumulator.totalOf_empty, zero_add,
    filter_map, map_map]
  rfl

section

variable (h : NormalisedSources dbEntries)
include h

theorem totalOf_stateOf (hkey : exists entry, entry ∈ dbEntries ∧ entry.key = key) :
    (dataSum dbEntries).totalOf (stateOf key) = numberOfSourceTimespans dbEntries := by
  have hmem : key ∈ (dbEntries.map fun entry => entry.key).dedup := by
    rcases hkey with ⟨entry, hentry, rfl⟩
    exact mem_dedup.mpr (mem_map_of_mem hentry)
  rw [totalOf_dataSum, sourceSum_stateOf h, missingEntries,
    filter_flatMap_undetermined (nodup_dedup _) hmem, undeterminedEntries,
    map_replicate, sum_replicate, nsmul_one,
    Nat.cast_sub (length_dataTimespans_le dbEntries key)]
  ring

theorem totalOf_flappingOf_le (key : κ) :
    (dataSum dbEntries).totalOf (flappingOf key) ≤ numberOfSourceTimespans dbEntries := by
  have hnone : (missingEntries dbEntries).filter (fun addition => flappingOf key addition.1) =
      [] := by
    apply filter_eq_nil_iff.mpr
    intro addition hmem hflapping
    rcases mem_flatMap.mp hmem with ⟨other, _, hin⟩
    rw [mem_undeterminedEntries hin] at hflapping
    exact nomatch (of_decide_eq_true hflapping).right
  rw [totalOf_dataSum, hnone, map_nil, sum_nil, add_zero]
  exact (sourceSum_flappingOf_le h key).trans
    (Nat.cast_le.mpr (length_dataTimespans_le dbEntries key))

theorem value_nonneg {entry : SourceRow κ σ} (hmem : entry ∈ dbEntries) : 0 ≤ entry.value := by
  have hown : entry.toAggregatedRow ∈ ofTimespan entry.timespanId dbEntries :=
    mem_map_of_mem (mem_filter.mpr ⟨hmem, decide_eq_true rfl⟩)
  by_cases hflapping : entry.description = .flapping
  · exact (h entry hmem).flapping entry.value (mem_map_of_mem
      (mem_filter.mpr ⟨hown, decide_eq_true ⟨rfl, hflapping⟩⟩))
  · exact ((h entry hmem).state entry.value (mem_map_of_mem
      (mem_filter.mpr ⟨hown, decide_eq_true ⟨rfl, hflapping⟩⟩))).left

theorem get_dataSum_nonneg (dataKey : DataKey κ σ) :
    0 ≤ (dataSum dbEntries).get dataKey := by
  apply Accumulator.get_addAll_nonneg
  · apply Accumulator.get_addAll_nonneg fun key => le_of_eq (Accumulator.get_empty key).symm
    intro addition hmem
    rcases mem_map.mp hmem with ⟨entry, hentry, rfl⟩
    exact value_nonneg h hentry
  · intro addition hmem
    rcases mem_flatMap.mp hmem with ⟨other, _, hin⟩
    rw [mem_undeterminedEntries hin]
    exact zero_le_one

end

theorem key_of_mem_dataSum {dataKey : DataKey κ σ} {valueSum : ℚ}
    (h : (dataKey, valueSum) ∈ (dataSum dbEntries).entries) :
    exists entry, entry ∈ dbEntries ∧ entry.key = dataKey.1 := by
  rcases Accumulator.mem_keys_addAll (mem_map_of_mem (f := Prod.fst) h) with hsource | hmissing
  · rcases Accumulator.mem_keys_addAll hsource with hnone | hrow
    · cases hnone
    · rcases mem_map.mp hrow with ⟨addition, haddition, heq⟩
      rcases mem_map.mp haddition with ⟨entry, hentry, rfl⟩
      exact ⟨entry, hentry, congrArg Prod.fst heq⟩
  · rcases mem_map.mp hmissing with ⟨addition, haddition, heq⟩
    rcases mem_flatMap.mp haddition with ⟨key, hkey, hin⟩
    rcases mem_map.mp (mem_dedup.mp hkey) with ⟨entry, hentry, rfl⟩
    rw [mem_undeterminedEntries hin] at heq
    exact ⟨entry, hentry, congrArg Prod.fst heq⟩

theorem number_pos {entry : SourceRow κ σ} (hmem : entry ∈ dbEntries) :
    0 < numberOfSourceTimespans dbEntries :=
  length_pos_of_mem (mem_dedup.mpr (mem_map_of_mem hmem))

end Sums

section Created

variable {κ σ : Type} [DecidableEq κ] [DecidableEq σ] [IcingaState σ]
  {dbEntries : List (SourceRow κ σ)}

def averagedRow (dbEntries : List (SourceRow κ σ)) (entry : DataKey κ σ × ℚ) :
    AggregatedRow κ σ where
  key := entry.1.1
  description := entry.1.2
  value := entry.2 / numberOfSourceTimespans dbEntries

theorem createEntriesIncrementally_eq (dbEntries : List (SourceRow κ σ)) :
    createEntriesIncrementally dbEntries =
      .ok ((dataSum dbEntries).entries.map (averagedRow dbEntries)) := by
  apply mapM_eq_ok
  rintro ⟨dataKey, valueSum⟩ hmem
  rcases key_of_mem_dataSum hmem with ⟨entry, hentry, _⟩
  unfold averageValue
  rw [if_neg (number_pos hentry).ne']
  rfl

theorem valuesOf_averagedRow (kind : DataKey κ σ -> Bool) :
    (valuesOf kind ((dataSum dbEntries).entries.map (averagedRow dbEntries))).sum =
      (dataSum dbEntries).totalOf kind / numberOfSourceTimespans dbEntries := by
  unfold valuesOf Accumulator.totalOf
  rw [filter_map, map_map, div_eq_mul_inv, ← sum_map_mul_right]
  exact congrArg sum (map_congr_left fun entry _ => div_eq_mul_inv _ _)

theorem averagedRow_unit (h : NormalisedSources dbEntries) {entry : DataKey κ σ × ℚ}
    (hmem : entry ∈ (dataSum dbEntries).entries) :
    0 ≤ (averagedRow dbEntries entry).value ∧ (averagedRow dbEntries entry).value ≤ 1 := by
  rcases entry with ⟨dataKey, valueSum⟩
  have hkey := key_of_mem_dataSum hmem
  have hpos : (0 : ℚ) < numberOfSourceTimespans dbEntries := by
    rcases hkey with ⟨source, hsource, _⟩
    exact Nat.cast_pos.mpr (number_pos hsource)
  have hnonneg : 0 ≤ valueSum := by
    rw [← Accumulator.get_of_mem hmem]
    exact get_dataSum_nonneg h dataKey
  have hle : valueSum ≤ numberOfSourceTimespans dbEntries := by
    by_cases hflapping : dataKey.2 = .flapping
    · exact (Accumulator.le_totalOf (get_dataSum_nonneg h) hmem
        (decide_eq_true ⟨rfl, hflapping⟩)).trans (totalOf_flappingOf_le h dataKey.1)
    · exact (Accumulator.le_totalOf (get_dataSum_nonneg h) hmem
        (decide_eq_true ⟨rfl, hflapping⟩)).trans (le_of_eq (totalOf_stateOf h hkey))
  exact ⟨div_nonneg hnonneg hpos.le, (div_le_one hpos).mpr hle⟩

theorem createEntriesIncrementally_normalised (h : NormalisedSources dbEntries) :
    exists created, createEntriesIncrementally dbEntries = .ok created ∧
      NormalisedRows dbEntries created := by
  refine ⟨_, createEntriesIncrementally_eq dbEntries, ?_⟩
  have hsum : forall entry, entry ∈ dbEntries -> (valuesOf (stateOf entry.key)
      ((dataSum dbEntries).entries.map (averagedRow dbEntries))).sum = 1 := by
    intro entry hentry
    rw [valuesOf_averagedRow, totalOf_stateOf h ⟨entry, hentry, rfl⟩]
    exact div_self (Nat.cast_ne_zero.mpr (number_pos hentry).ne')
  refine ⟨?_, ?_, ?_⟩
  · intro row hrow
    rcases mem_map.mp hrow with ⟨entry, hentry, rfl⟩
    exact averagedRow_unit h hentry
  · intro row hrow
    rcases mem_map.mp hrow with ⟨entry, hentry, rfl⟩
    rcases key_of_mem_dataSum hentry with ⟨source, hsource, hkey⟩
    show (valuesOf (stateOf entry.1.1) _).sum = 1
    rw [← hkey]
    exact hsum source hsource
  · intro entry hentry
    -- the shares of the key add up to one, so there is one of them
    cases hvalues : valuesOf (stateOf entry.key)
        ((dataSum dbEntries).entries.map (averagedRow dbEntries)) with
    | nil =>
      have hone := hsum entry hentry
      rw [hvalues] at hone
      exact absurd hone zero_ne_one
    | cons value rest =>
      have hvalue : value ∈ valuesOf (stateOf entry.key)
          ((dataSum dbEntries).entries.map (averagedRow dbEntries)) :=
        hvalues ▸ mem_cons_self
      rcases mem_map.mp hvalue with ⟨row, hrow, _⟩
      rcases mem_filter.mp hrow with ⟨hmem, hkind⟩
      exact ⟨row, hmem, key_of_stateOf hkind⟩

end Created

/-- Shares of shorter timespans are averaged to shares, for hosts and for services. -/
theorem createTimespanEntryIncrementally_normalised
    {hostEntries : List (SourceRow HostKey HostAlertState)}
    {serviceEntries : List (SourceRow ServiceKey ServiceAlertState)}
    (hhosts : NormalisedSources hostEntries) (hservices : NormalisedSources serviceEntries) :
    exists hosts services,
      createTimespanEntryIncrementally hostEntries serviceEntries = .ok (hosts, services) ∧
        NormalisedRows hostEntries hosts ∧ NormalisedRows serviceEntries services := by
  rcases createEntriesIncrementally_normalised hhosts with ⟨hosts, hhostRows, hhostShares⟩
  rcases createEntriesIncrementally_normalised hservices with
    ⟨services, hserviceRows, hserviceShares⟩
  refine ⟨hosts, services, ?_, hhostShares, hserviceShares⟩
  unfold createTimespanEntryIncrementally
  rw [hhostRows, hserviceRows]
  rfl

/-!
### A host that is missing in a timespan
-/

def sourceRow (timespanId : Nat) (key : HostKey) (description : AggregatedDescription HostAlertState)
    (value : ℚ) : SourceRow HostKey HostAlertState where
  key := key
  description := description
  value := value
  timespanId := timespanId

def twoHosts : List (SourceRow HostKey HostAlertState) :=
  [sourceRow 1 (some 1) (.state (.up, .hard)) 1,
    sourceRow 1 (some 2) (.state (.up, .hard)) (1 / 4),
    sourceRow 1 (some 2) (.state (.down, .soft)) (3 / 4),
    sourceRow 2 (some 1) (.state (.up, .hard)) 1,
    sourceRow 2 (some 1) .flapping (1 / 2)]

theorem normalisedSources_twoHosts : NormalisedSources twoHosts := by
  intro entry hentry
  have hall : forall entry, entry ∈ twoHosts ->
      (forall value, value ∈ valuesOf (stateOf entry.key) (ofTimespan entry.timespanId twoHosts) ->
        0 ≤ value ∧ value ≤ 1) ∧
      (valuesOf (stateOf entry.key) (ofTimespan entry.timespanId twoHosts)).sum = 1 ∧
      (forall value, value ∈ valuesOf (flappingOf entry.key)
        (ofTimespan entry.timespanId twoHosts) -> 0 ≤ value) ∧
      (valuesOf (flappingOf entry.key) (ofTimespan entry.timespanId twoHosts)).sum ≤ 1 := by
    decide +kernel
  rcases hall entry hentry with ⟨hstate, hsum, hflapping, hflappingSum⟩
  exact ⟨⟨hstate, hsum⟩, hflapping, hflappingSum⟩

theorem createTimespanEntryIncrementally_normalised_twoHosts :
    exists hosts services, createTimespanEntryIncrementally twoHosts [] = .ok (hosts, services) ∧
      NormalisedRows twoHosts hosts ∧ NormalisedRows [] services :=
  createTimespanEntryIncrementally_normalised normalisedSources_twoHosts
    fun _ hmem => nomatch hmem

def flappingTwice : List (SourceRow HostKey HostAlertState) :=
  [sourceRow 1 (some 1) (.state (.up, .hard)) 1, sourceRow 1 (some 1) .flapping 2]

/-- A flapping that is no share stays one that is none. -/
theorem createTimespanEntryIncrementally_flappingTwice :
    (forall entry, entry ∈ flappingTwice ->
        NormalisedStates entry.key (ofTimespan entry.timespanId flappingTwice)) ∧
      exists hosts services, createTimespanEntryIncrementally flappingTwice [] =
          .ok (hosts, services) ∧
        exists row, row ∈ hosts ∧ 1 < row.value := by
  constructor
  · intro entry hentry
    have hall : forall entry, entry ∈ flappingTwice ->
        (forall value, value ∈ valuesOf (stateOf entry.key)
          (ofTimespan entry.timespanId flappingTwice) -> 0 ≤ value ∧ value ≤ 1) ∧
        (valuesOf (stateOf entry.key) (ofTimespan entry.timespanId flappingTwice)).sum = 1 := by
      decide +kernel
    exact ⟨(hall entry hentry).left, (hall entry hentry).right⟩
  · have hentry : ((some 1, .flapping), 2) ∈ (dataSum flappingTwice).entries := by
      decide +kernel
    refine ⟨(dataSum flappingTwice).entries.map (averagedRow flappingTwice), [], ?_,
      averagedRow flappingTwice ((some 1, .flapping), 2), mem_map_of_mem hentry,
      by decide +kernel⟩
    unfold createTimespanEntryIncrementally
    rw [createEntriesIncrementally_eq]
    rfl

end Icsw.LogAggregation
