import Icsw.LogAggregation.Hour
import Icsw.StatusHistory.Downtime
import Mathlib.Algebra.Order.Field.Basic
import Mathlib.Tactic.FieldSimp

/-!
# Weighted states

The weights of an hour are the telescoping sums of a walk over the entries, so
they always add up to one.
-/

namespace Icsw.LogAggregation

open Foundation List
open DatedList
open StatusHistory

variable {κ σ : Type} [DecidableEq σ]

theorem pairwise_cons_cons {α : Type} (first second : α) (rest : List α) :
    pairwise (first :: second :: rest) = (first, second) :: pairwise (second :: rest) := rfl

theorem get_foldl_addPair (startTime endTime : Int) (entries : List (Entry σ))
    (acc : Accumulator (StateDescription σ)) (description : StateDescription σ) :
    ((pairwise entries).foldl (addPair startTime endTime) acc).get description =
      acc.get description +
        (stayTime Entry.date Entry.description description entries : ℚ) /
          ((endTime - startTime : Int) : ℚ) := by
  induction entries generalizing acc with
  | nil => simp [pairwise, stayTime]
  | cons first rest ih =>
    cases rest with
    | nil => simp [pairwise, stayTime]
    | cons second rest =>
      rw [pairwise_cons_cons, foldl_cons, ih, addPair, Accumulator.get_add,
        stayTime]
      by_cases h : first.description = description
      · simp only [if_pos h, weight]
        push_cast
        ring
      · simp [h]

theorem total_foldl_addPair (startTime endTime : Int) {first : Entry σ}
    {rest : List (Entry σ)} (acc : Accumulator (StateDescription σ)) :
    ((pairwise (first :: rest)).foldl (addPair startTime endTime) acc).total =
      acc.total + weight startTime endTime first.date
        ((first :: rest).getLast (cons_ne_nil first rest)).date := by
  induction rest generalizing first acc with
  | nil => simp [pairwise, weight]
  | cons second rest ih =>
    rw [pairwise_cons_cons, foldl_cons, ih,
      getLast_cons (cons_ne_nil second rest), addPair, Accumulator.total_add]
    simp only [weight]
    push_cast
    ring

variable [IcingaState σ]

/-- The state charged for the time up to the first entry. -/
def actualBefore (before : StateDescription σ) (startInPlannedDowntime : Bool) :
    StateDescription σ :=
  if startInPlannedDowntime then plannedDownDescription σ else before

variable {startTime endTime : Int}

theorem calcWeightedStates_get (hlt : startTime < endTime)
    (entries : List (Entry σ)) (before description : StateDescription σ)
    (startInPlannedDowntime : Bool) :
    (calcWeightedStates startTime endTime entries before startInPlannedDowntime).1.get
        description =
      (walkTime Entry.date Entry.description startTime endTime
        (actualBefore before startInPlannedDowntime) description entries : ℚ) /
        ((endTime - startTime : Int) : ℚ) := by
  have hne : ((endTime - startTime : Int) : ℚ) ≠ 0 := by
    rw [Int.cast_ne_zero]
    omega
  cases entries with
  | nil =>
    change ((Accumulator.empty.add (actualBefore before startInPlannedDowntime) 1).get
      description) = _
    rw [Accumulator.get_add, walkTime]
    split
    · rw [div_self hne]
      simp
    · simp
  | cons first rest =>
    change (((((pairwise (first :: rest)).foldl (addPair startTime endTime)
      Accumulator.empty).add (actualBefore before startInPlannedDowntime)
      (weight startTime endTime startTime first.date)).add _ _).get description) = _
    rw [Accumulator.get_add, Accumulator.get_add, get_foldl_addPair, walkTime]
    simp only [Accumulator.get_empty, weight]
    split <;> split <;> push_cast <;> ring

theorem calcWeightedStates_total (hlt : startTime < endTime)
    (entries : List (Entry σ)) (before : StateDescription σ) (startInPlannedDowntime : Bool) :
    (calcWeightedStates startTime endTime entries before startInPlannedDowntime).1.total
      = 1 := by
  have hne : ((endTime - startTime : Int) : ℚ) ≠ 0 := by
    rw [Int.cast_ne_zero]
    omega
  cases entries with
  | nil =>
    change ((Accumulator.empty.add (actualBefore before startInPlannedDowntime) 1).total) = 1
    simp
  | cons first rest =>
    change (((((pairwise (first :: rest)).foldl (addPair startTime endTime)
      Accumulator.empty).add (actualBefore before startInPlannedDowntime)
      (weight startTime endTime startTime first.date)).add _ _).total) = 1
    rw [Accumulator.total_add, Accumulator.total_add, total_foldl_addPair]
    simp only [Accumulator.total_empty, weight]
    push_cast at hne ⊢
    field_simp
    ring

/-- All values lie between zero and one and sum up to one. -/
def IsDistribution (acc : Accumulator (StateDescription σ)) : Prop :=
  (forall description value, (description, value) ∈ acc.entries ->
    0 ≤ value ∧ value ≤ 1) ∧ acc.total = 1

theorem isDistribution_calcWeightedStates_iff
    (hlt : startTime < endTime) (entries : List (Entry σ)) (before : StateDescription σ)
    (startInPlannedDowntime : Bool) :
    IsDistribution
        (calcWeightedStates startTime endTime entries before startInPlannedDowntime).1 <->
      forall description, 0 ≤ walkTime Entry.date Entry.description startTime endTime
        (actualBefore before startInPlannedDowntime) description entries := by
  have htotal := calcWeightedStates_total hlt entries before startInPlannedDowntime
  have hpos : (0 : ℚ) < ((endTime - startTime : Int) : ℚ) := by
    rw [Int.cast_pos]
    omega
  unfold IsDistribution
  rw [Accumulator.entries_in_unit_iff _ htotal]
  constructor
  · intro h description
    have hget := h.left description
    rw [calcWeightedStates_get hlt, le_div_iff₀ hpos, zero_mul] at hget
    exact_mod_cast hget
  · intro h
    constructor
    · intro description
      rw [calcWeightedStates_get hlt]
      apply div_nonneg _ (le_of_lt hpos)
      exact_mod_cast h description
    · exact htotal

theorem calcWeightedStates_last {entries : List (Entry σ)} (hsorted : Sorted Entry.date entries)
    (hhi : forall entry, entry ∈ entries -> entry.date ≤ endTime)
    (before : StateDescription σ) (startInPlannedDowntime : Bool) :
    (calcWeightedStates startTime endTime entries before startInPlannedDowntime).2 =
      stateAt Entry.date Entry.description before entries endTime := by
  cases entries with
  | nil => rfl
  | cons first rest =>
    have hlast := hhi _ (getLast_mem (cons_ne_nil first rest))
    rw [stateAt_of_getLast_le Entry.date Entry.description hsorted hlast]
    rfl

/-- Each state gets the share of the hour in which it is in force, and the last state is the one
in force at the end. -/
theorem calcWeightedStates_timeShares {startTime endTime : Int} (hlt : startTime < endTime)
    {entries : List (Entry σ)} (hsorted : Sorted Entry.date entries)
    (hlo : forall entry, entry ∈ entries -> startTime ≤ entry.date)
    (hhi : forall entry, entry ∈ entries -> entry.date ≤ endTime) (before : StateDescription σ) :
    (forall description,
        (calcWeightedStates startTime endTime entries before false).1.get description =
          (timeIn Entry.date Entry.description before entries description startTime endTime : ℚ) /
            ((endTime - startTime : Int) : ℚ)) ∧
      (calcWeightedStates startTime endTime entries before false).2 =
        stateAt Entry.date Entry.description before entries endTime := by
  constructor
  · intro description
    rw [calcWeightedStates_get hlt]
    show (walkTime Entry.date Entry.description startTime endTime before description entries : ℚ) /
      ((endTime - startTime : Int) : ℚ) = _
    rw [walkTime_of_within Entry.date Entry.description startTime endTime before description
      hsorted (le_of_lt hlt) hlo hhi]
  · exact calcWeightedStates_last hsorted hhi before false

def quarterPast : Entry ServiceAlertState where
  date := 15
  state := .critical
  stateType := .soft
  msg := []

/-- The state changes at a quarter of the hour, and nothing else happens. -/
theorem calcWeightedStates_timeShares_quarter :
    (calcWeightedStates 0 60 [quarterPast] (.ok, .hard) false).1.get (.critical, .soft) =
        (timeIn Entry.date Entry.description (ServiceAlertState.ok, StateType.hard) [quarterPast]
          (.critical, .soft) 0 60 : ℚ) / ((60 - 0 : Int) : ℚ) ∧
      (calcWeightedStates 0 60 [quarterPast] (.ok, .hard) false).2 =
        stateAt Entry.date Entry.description (ServiceAlertState.ok, StateType.hard)
          [quarterPast] 60 := by
  have hsorted : Sorted Entry.date [quarterPast] := pairwise_singleton _ _
  have hshares := calcWeightedStates_timeShares (show (0 : Int) < 60 by decide) hsorted
    (by decide) (by decide) (.ok, .hard)
  exact ⟨hshares.left (.critical, .soft), hshares.right⟩

end Icsw.LogAggregation
