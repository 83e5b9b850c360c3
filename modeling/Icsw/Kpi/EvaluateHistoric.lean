import Icsw.Kpi.PointwiseStates
import Icsw.LogAggregation.Hour
import Mathlib.Tactic.FieldSimp
import Mathlib.Tactic.Positivity
import Icsw.Kpi.TimeLine

/-!
# Evaluation of historic data

A time line is evaluated by the share of its time in states that are not worse than a result.
Planned downtimes are taken out of the time that the share is of, but not out of the share itself,
as a planned downtime is the best of all results.
-/

namespace Icsw.Kpi

open Foundation List
open DatedList
open StatusHistory

variable (timeLine : List TimeLineEntry)

def timeSpans : List (TimeLineState × ℚ) :=
  (LogAggregation.pairwise timeLine).map fun pair =>
    (pair.1.state, ((pair.2.date - pair.1.date : Int) : ℚ))

def aggregateTimeLine : List (TimeLineState × ℚ) :=
  let statesAccumulator := Accumulator.empty.addAll (timeSpans timeLine)
  if statesAccumulator.total = 0 then []
  else statesAccumulator.entries.map fun entry => (entry.1, entry.2 / statesAccumulator.total)

/-- The share of the states of a kind. -/
def ratioOf (kind : TimeLineState -> Bool) (aggregated : List (TimeLineState × ℚ)) : ℚ :=
  ((aggregated.filter fun entry => kind entry.1).map Prod.snd).sum

def atLeast : Text := "at least".toList

def atMost : Text := "at most".toList

def checkValue (amount limitOk : ℚ) (limitWarn : Option ℚ) (method : Text) :
    Except HistoricError KpiResult :=
  if method = atLeast then
    if limitWarn.any fun warn => limitOk < warn then .error .runtimeError
    else if limitOk ≤ amount then .ok .ok
    else if limitWarn.any fun warn => warn ≤ amount then .ok .warning
    else .ok .critical
  else if method = atMost then
    if limitWarn.any fun warn => warn < limitOk then .error .runtimeError
    else if amount ≤ limitOk then .ok .ok
    else if limitWarn.any fun warn => amount ≤ warn then .ok .warning
    else .ok .critical
  else .error .valueError

/-- `k[0] <= result` -/
def notWorse (result : KpiResult) (state : TimeLineState) : Bool :=
  state.1.value ≤ result.value

def isPlannedDown (state : TimeLineState) : Bool := state.1 = .plannedDown

/-- The ratio that is compared with the limits. -/
def historicRatio (result : KpiResult) (discardPlannedDowntimes : Bool)
    (aggregated : List (TimeLineState × ℚ)) : ℚ :=
  let ratio := ratioOf (notWorse result) aggregated
  if discardPlannedDowntimes then
    let ratioPlannedDown := ratioOf isPlannedDown aggregated
    -- the downtime is always there
    if 1 - ratioPlannedDown = 0 then 0 else ratio / (1 - ratioPlannedDown)
  else ratio

/-- What an evaluation returns for a time line, without one for an undetermined result. -/
structure HistoricDetail where
  result : KpiResult
  timeLine : Option (List (TimeLineState × ℚ))

structure HistoricArguments where
  ratioOk : ℚ
  ratioWarn : Option ℚ
  result : KpiResult
  method : Text
  discardPlannedDowntimes : Bool

def evaluateTimeLine (args : HistoricArguments) (timeLine : List TimeLineEntry) :
    Except HistoricError HistoricDetail := do
  let aggregated := aggregateTimeLine timeLine
  let result ← checkValue (historicRatio args.result args.discardPlannedDowntimes aggregated)
    args.ratioOk args.ratioWarn args.method
  return { result := result, timeLine := some aggregated }

def evaluateHistoric (args : HistoricArguments) (timeLines : List (List TimeLineEntry)) :
    Except HistoricError (List HistoricDetail) :=
  if 1 < args.ratioOk then .error .valueError
  else if args.ratioWarn.any fun warn => 1 < warn then .error .valueError
  else if timeLines = [] then .ok [{ result := .undetermined, timeLine := none }]
  else timeLines.mapM (evaluateTimeLine args)

def timeSpent (start stop : Int) (timeLine : List TimeLineEntry) (kind : TimeLineState -> Bool) :
    Int :=
  timeIn TimeLineEntry.date (fun entry => kind entry.state) false timeLine true start stop

def delayed (delay : Int) (entry : TimeLineEntry) : TimeLineEntry :=
  { entry with date := entry.date + delay }

/-- A planned downtime lasts for another time, and what comes after it is dated accordingly. -/
def Replaced (timeLine other : List TimeLineEntry) : Prop :=
  exists before planned next after length,
    timeLine = before ++ planned :: next :: after ∧ planned.state.1 = .plannedDown ∧
      0 ≤ length ∧ other = before ++ planned ::
        (next :: after).map (delayed (length - (next.date - planned.date)))

/-- The planned downtimes of a time line do not matter for its evaluation. -/
structure PlannedNeutral (result : KpiResult) (start stop : Int)
    (timeLine : List TimeLineEntry) : Prop where
  ratio : historicRatio result true (aggregateTimeLine timeLine) =
    (timeSpent start stop timeLine fun state => !isPlannedDown state && notWorse result state : ℚ) /
      ((stop - start - timeSpent start stop timeLine isPlannedDown : Int) : ℚ)
  bounded : 0 ≤ historicRatio result true (aggregateTimeLine timeLine) ∧
    historicRatio result true (aggregateTimeLine timeLine) ≤ 1
  replaced : forall other, Replaced timeLine other ->
    forall before after ratioOk ratioWarn method,
      (evaluateHistoric ⟨ratioOk, ratioWarn, result, method, true⟩
        (before ++ other :: after)).map (List.map HistoricDetail.result) =
      (evaluateHistoric ⟨ratioOk, ratioWarn, result, method, true⟩
        (before ++ timeLine :: after)).map (List.map HistoricDetail.result)

def HasPlannedDowntime : Prop :=
  exists before planned next after, timeLine = before ++ planned :: next :: after ∧
    planned.state.1 = .plannedDown

def spentIn (kind : TimeLineState -> Bool) (timeLine : List TimeLineEntry) : ℚ :=
  (((timeSpans timeLine).filter fun span => kind span.1).map Prod.snd).sum

variable {kind : TimeLineState -> Bool} {start stop : Int} {timeLine : List TimeLineEntry}

theorem timeSpans_cons_cons (first second : TimeLineEntry) (rest : List TimeLineEntry) :
    timeSpans (first :: second :: rest) =
      (first.state, ((second.date - first.date : Int) : ℚ)) :: timeSpans (second :: rest) := rfl

theorem spentIn_cons_cons (first second : TimeLineEntry) (rest : List TimeLineEntry) :
    spentIn kind (first :: second :: rest) =
      (if kind first.state then ((second.date - first.date : Int) : ℚ) else 0) +
        spentIn kind (second :: rest) := by
  unfold spentIn
  rw [timeSpans_cons_cons, filter_cons]
  split
  · rfl
  · rw [zero_add]

theorem spentIn_eq_stayTime (kind : TimeLineState -> Bool) (timeLine : List TimeLineEntry) :
    spentIn kind timeLine =
      (stayTime TimeLineEntry.date (fun entry => kind entry.state) true timeLine : ℚ) := by
  induction timeLine with
  | nil => rfl
  | cons first rest ih =>
    cases rest with
    | nil => rfl
    | cons second rest =>
      rw [spentIn_cons_cons, ih, stayTime]
      push_cast
      rfl

theorem spentIn_eq_timeSpent (h : Spans start stop timeLine) (kind : TimeLineState -> Bool) :
    spentIn kind timeLine = timeSpent start stop timeLine kind := by
  rcases h.first with ⟨first, hfirst, hstart⟩
  rcases h.last with ⟨last, hlast, hstop⟩
  rcases List.head?_eq_some_iff.mp hfirst with ⟨rest, rfl⟩
  rw [List.getLast?_eq_some_getLast (cons_ne_nil first rest)] at hlast
  rw [spentIn_eq_stayTime, stayTime_eq_ticks _ _ true false h.sorted, Option.some.inj hlast,
    hstart, hstop]
  rfl

theorem timeSpans_append (before rest : List TimeLineEntry) (entry : TimeLineEntry) :
    timeSpans (before ++ entry :: rest) =
      timeSpans (before ++ [entry]) ++ timeSpans (entry :: rest) := by
  induction before with
  | nil => rfl
  | cons first before ih =>
    cases before with
    | nil => rfl
    | cons second before =>
      show _ :: timeSpans (second :: before ++ entry :: rest) = _
      rw [ih]
      rfl

theorem timeSpans_delayed (delay : Int) (timeLine : List TimeLineEntry) :
    timeSpans (timeLine.map (delayed delay)) = timeSpans timeLine := by
  induction timeLine with
  | nil => rfl
  | cons first rest ih =>
    cases rest with
    | nil => rfl
    | cons second rest =>
      rw [map_cons, map_cons, timeSpans_cons_cons, timeSpans_cons_cons,
        ← map_cons, ih]
      congr 2
      show ((second.date + delay - (first.date + delay) : Int) : ℚ) = _
      congr 1
      ring

theorem spentIn_add (kind kind' : TimeLineState -> Bool)
    (h : forall state, kind state = true -> kind' state = false) (timeLine : List TimeLineEntry) :
    spentIn (fun state => kind state || kind' state) timeLine =
      spentIn kind timeLine + spentIn kind' timeLine := by
  induction timeLine with
  | nil => exact (add_zero 0).symm
  | cons first rest ih =>
    cases rest with
    | nil => exact (add_zero 0).symm
    | cons second rest =>
      rw [spentIn_cons_cons, spentIn_cons_cons, spentIn_cons_cons, ih]
      cases hkind : kind first.state with
      | false =>
        simp only [Bool.false_or, Bool.false_eq_true, if_false]
        ring
      | true =>
        simp only [h _ hkind, Bool.or_false, Bool.false_eq_true, if_true, if_false]
        ring

section

variable (h : Spans start stop timeLine)
include h

theorem spentIn_nonneg (kind : TimeLineState -> Bool) :
    0 ≤ spentIn kind timeLine := by
  rw [spentIn_eq_timeSpent h]
  exact Int.cast_nonneg (ticks_nonneg _ _ _)

theorem spentIn_total :
    spentIn (fun _ => true) timeLine = ((stop - start : Int) : ℚ) := by
  rcases h.first with ⟨first, hfirst, rfl⟩
  rcases h.last with ⟨last, hlast, rfl⟩
  rcases List.head?_eq_some_iff.mp hfirst with ⟨rest, rfl⟩
  clear h hfirst
  induction rest generalizing first with
  | nil =>
    cases hlast
    show (0 : ℚ) = ((first.date - first.date : Int) : ℚ)
    rw [sub_self, Int.cast_zero]
  | cons second rest ih =>
    rw [List.getLast?_cons_cons] at hlast
    rw [spentIn_cons_cons, ih second hlast, if_pos rfl]
    push_cast
    ring

theorem spentIn_le_total (kind : TimeLineState -> Bool) :
    spentIn kind timeLine ≤ spentIn (fun _ => true) timeLine := by
  have hsplit := spentIn_add kind (fun state => !kind state)
    (fun state hkind => by rw [hkind]; rfl) timeLine
  have hall : (fun state => kind state || !kind state) = fun _ => true :=
    funext fun state => Bool.or_not_self _
  rw [hall] at hsplit
  have hrest := spentIn_nonneg h fun state => !kind state
  linarith

end

theorem spentIn_delayed (before after : List TimeLineEntry) (planned next : TimeLineEntry)
    (delay : Int) (kind : TimeLineState -> Bool) :
    spentIn kind (before ++ planned :: (next :: after).map (delayed delay)) =
      spentIn kind (before ++ planned :: next :: after) +
        if kind planned.state then (delay : ℚ) else 0 := by
  have hspans : timeSpans (planned :: (next :: after).map (delayed delay)) =
      (planned.state, ((next.date + delay - planned.date : Int) : ℚ)) ::
        timeSpans (next :: after) := by
    rw [← timeSpans_delayed delay (next :: after)]
    rfl
  unfold spentIn
  rw [timeSpans_append, timeSpans_append before (next :: after), hspans, timeSpans_cons_cons,
    filter_append, filter_append, map_append, map_append, sum_append,
    sum_append, filter_cons, filter_cons]
  cases hkind : kind planned.state with
  | false => simp only [Bool.false_eq_true, if_false, add_zero]
  | true =>
    simp only [if_true, map_cons, sum_cons]
    push_cast
    ring

theorem sum_map_div (entries : List (TimeLineState × ℚ)) (total : ℚ) :
    (entries.map fun entry => entry.2 / total).sum = (entries.map Prod.snd).sum / total := by
  induction entries with
  | nil => exact (zero_div total).symm
  | cons entry rest ih =>
    rw [map_cons, map_cons, sum_cons, sum_cons, ih, add_div]

theorem ratioOf_aggregateTimeLine (hspent : spentIn (fun _ => true) timeLine ≠ 0)
    (kind : TimeLineState -> Bool) :
    ratioOf kind (aggregateTimeLine timeLine) =
      spentIn kind timeLine / spentIn (fun _ => true) timeLine := by
  have htotalOf : forall kind : TimeLineState -> Bool,
      (Accumulator.empty.addAll (timeSpans timeLine)).totalOf kind = spentIn kind timeLine := by
    intro kind
    rw [Accumulator.totalOf_addAll, Accumulator.totalOf_empty, zero_add]
    rfl
  have htotal : (Accumulator.empty.addAll (timeSpans timeLine)).total =
      spentIn (fun _ => true) timeLine := by
    rw [← htotalOf]
    unfold Accumulator.total Accumulator.totalOf
    rw [filter_true]
  unfold aggregateTimeLine
  simp only [htotal]
  rw [if_neg hspent, ← htotalOf kind, ratioOf, filter_map, map_map]
  exact sum_map_div _ _

theorem notWorse_of_plannedDown {state : TimeLineState} (h : isPlannedDown state = true)
    (result : KpiResult) : notWorse result state = true := by
  have hstate : state.1 = .plannedDown := of_decide_eq_true h
  unfold notWorse
  rw [hstate]
  cases result <;> rfl

theorem spentIn_notWorse (result : KpiResult) (timeLine : List TimeLineEntry) :
    spentIn (notWorse result) timeLine =
      spentIn (fun state => !isPlannedDown state && notWorse result state) timeLine +
        spentIn isPlannedDown timeLine := by
  rw [add_comm, ← spentIn_add _ _ fun state hplanned => by rw [hplanned]; rfl]
  congr 1
  funext state
  cases hplanned : isPlannedDown state with
  | false => rfl
  | true => exact notWorse_of_plannedDown hplanned result

theorem historicRatio_eq (hspent : spentIn (fun _ => true) timeLine ≠ 0)
    (hrest : spentIn (fun _ => true) timeLine - spentIn isPlannedDown timeLine ≠ 0)
    (result : KpiResult) :
    historicRatio result true (aggregateTimeLine timeLine) =
      spentIn (notWorse result) timeLine /
        (spentIn (fun _ => true) timeLine - spentIn isPlannedDown timeLine) := by
  have hshare : 1 - spentIn isPlannedDown timeLine / spentIn (fun _ => true) timeLine =
      (spentIn (fun _ => true) timeLine - spentIn isPlannedDown timeLine) /
        spentIn (fun _ => true) timeLine := by
    field_simp
  unfold historicRatio
  simp only [ratioOf_aggregateTimeLine hspent, if_true]
  rw [hshare, if_neg (div_ne_zero hrest hspent), div_div_div_cancel_right₀ hspent]

theorem historicRatio_delayed_lt {before after : List TimeLineEntry} {planned next : TimeLineEntry}
    (hstate : isPlannedDown planned.state = true)
    (hspent : 0 < spentIn (fun _ => true) (before ++ planned :: next :: after))
    (hrest : 0 < spentIn (fun _ => true) (before ++ planned :: next :: after) -
      spentIn isPlannedDown (before ++ planned :: next :: after)) (result : KpiResult) :
    historicRatio result true (aggregateTimeLine (before ++ planned :: next :: after)) <
      historicRatio result true
        (aggregateTimeLine (before ++ planned :: (next :: after).map (delayed 1))) := by
  have htotal := spentIn_delayed before after planned next 1 fun _ => true
  have hplanned := spentIn_delayed before after planned next 1 isPlannedDown
  have hgood := spentIn_delayed before after planned next 1 (notWorse result)
  rw [if_pos rfl, Int.cast_one] at htotal
  rw [if_pos hstate, Int.cast_one] at hplanned
  rw [if_pos (notWorse_of_plannedDown hstate result), Int.cast_one] at hgood
  rw [historicRatio_eq hspent.ne' hrest.ne',
    historicRatio_eq (by rw [htotal]; positivity) (by
      rw [htotal, hplanned, add_sub_add_right_eq_sub]
      exact hrest.ne'), htotal, hplanned, hgood, add_sub_add_right_eq_sub]
  exact div_lt_div_of_pos_right (lt_add_one _) hrest

theorem spentIn_isPlannedDown (h : ¬ HasPlannedDowntime timeLine) :
    spentIn isPlannedDown timeLine = 0 := by
  induction timeLine with
  | nil => rfl
  | cons first rest ih =>
    cases rest with
    | nil => rfl
    | cons second rest =>
      have hfirst : isPlannedDown first.state = false := by
        apply decide_eq_false
        intro hstate
        exact h ⟨[], first, second, rest, rfl, hstate⟩
      have hrest : ¬ HasPlannedDowntime (second :: rest) := by
        rintro ⟨before, planned, next, after, hsplit, hstate⟩
        exact h ⟨first :: before, planned, next, after, by rw [hsplit]; rfl, hstate⟩
      rw [spentIn_cons_cons, ih hrest, hfirst, add_zero]
      exact if_neg Bool.false_ne_true

theorem checkValue_atMost (amount ratioOk : ℚ) :
    checkValue amount ratioOk none atMost =
      .ok (if amount ≤ ratioOk then .ok else .critical) := by
  unfold checkValue
  rw [if_neg (by decide), if_pos rfl]
  simp only [Option.any_none, Bool.false_eq_true, if_false]
  by_cases h : amount ≤ ratioOk
  · rw [if_pos h, if_pos h]
  · rw [if_neg h, if_neg h]

theorem evaluateHistoric_atMost {ratioOk : ℚ} (hratio : ratioOk ≤ 1) (result : KpiResult)
    (timeLine : List TimeLineEntry) :
    (evaluateHistoric ⟨ratioOk, none, result, atMost, true⟩ [timeLine]).map
        (List.map HistoricDetail.result) =
      .ok [if historicRatio result true (aggregateTimeLine timeLine) ≤ ratioOk then .ok
        else .critical] := by
  have hsingle : evaluateHistoric ⟨ratioOk, none, result, atMost, true⟩ [timeLine] =
      [timeLine].mapM (evaluateTimeLine ⟨ratioOk, none, result, atMost, true⟩) := by
    unfold evaluateHistoric
    rw [if_neg (not_lt.mpr hratio)]
    rfl
  rw [hsingle, mapM_cons]
  unfold evaluateTimeLine
  simp only [checkValue_atMost]
  rfl

/-- The planned downtimes of a time line do not matter for its evaluation if there are none. -/
theorem plannedNeutral_iff (h : Spans start stop timeLine)
    (hpositive : 0 < stop - start - timeSpent start stop timeLine isPlannedDown)
    (result : KpiResult) :
    PlannedNeutral result start stop timeLine <-> ¬ HasPlannedDowntime timeLine := by
  have hplanned := spentIn_eq_timeSpent h isPlannedDown
  have htotal := spentIn_total h
  have hrest : 0 < spentIn (fun _ => true) timeLine - spentIn isPlannedDown timeLine := by
    rw [htotal, hplanned, ← Int.cast_sub]
    exact Int.cast_pos.mpr hpositive
  have hspent : 0 < spentIn (fun _ => true) timeLine := by
    have hnonneg := spentIn_nonneg h isPlannedDown
    linarith
  have hratio := historicRatio_eq hspent.ne' hrest.ne' result
  constructor
  · rintro hneutral ⟨before, planned, next, after, rfl, hstate⟩
    have hdate : planned.date ≤ next.date :=
      (pairwise_cons.mp (pairwise_append.mp h.sorted).right.left).left next
        mem_cons_self
    -- one more tick of downtime raises the ratio above a limit that it has just kept
    have hreplaced : Replaced (before ++ planned :: next :: after)
        (before ++ planned :: (next :: after).map (delayed 1)) :=
      ⟨before, planned, next, after, next.date - planned.date + 1, rfl, hstate, by omega,
        by rw [add_sub_cancel_left]⟩
    have hsame := hneutral.replaced _ hreplaced [] []
      (historicRatio result true (aggregateTimeLine (before ++ planned :: next :: after))) none
      atMost
    rw [nil_append, nil_append, evaluateHistoric_atMost hneutral.bounded.right,
      evaluateHistoric_atMost hneutral.bounded.right, if_pos (le_refl _)] at hsame
    rw [if_neg (not_le.mpr (historicRatio_delayed_lt (decide_eq_true hstate) hspent hrest result))]
      at hsame
    cases hsame
  · intro hnone
    have hzero := spentIn_isPlannedDown hnone
    rw [hzero, sub_zero] at hratio
    refine ⟨?_, ?_, ?_⟩
    · have hgood := spentIn_notWorse result timeLine
      rw [hzero, add_zero] at hgood
      rw [hratio, hgood, spentIn_eq_timeSpent h, htotal]
      rw [hzero] at hplanned
      rw [← Int.cast_zero] at hplanned
      rw [← Int.cast_injective hplanned, sub_zero]
    · rw [hratio]
      exact ⟨div_nonneg (spentIn_nonneg h _) hspent.le,
        (div_le_one hspent).mpr (spentIn_le_total h _)⟩
    · rintro other ⟨before, planned, next, after, length, hsplit, hstate, _, _⟩
      exact absurd ⟨before, planned, next, after, hsplit, hstate⟩ hnone

/-- The first half is good and the second one is not. -/
def halfGood : List TimeLineEntry :=
  [⟨0, .ok, .hard⟩, ⟨5, .critical, .hard⟩, ⟨10, .critical, .hard⟩]

theorem spans_halfGood : Spans 0 10 halfGood :=
  ⟨by unfold Sorted halfGood; decide, ⟨_, rfl, rfl⟩, ⟨_, rfl, rfl⟩⟩

theorem halfGood_plannedNeutral : PlannedNeutral .ok 0 10 halfGood := by
  refine (plannedNeutral_iff spans_halfGood (by decide) .ok).mpr ?_
  rintro ⟨before, planned, next, after, hsplit, hstate⟩
  have hall : forall entry, entry ∈ halfGood -> entry.state.1 ≠ .plannedDown := by decide
  exact hall planned (hsplit ▸ mem_append_right _ mem_cons_self) hstate

/-- The first half is bad and the second one a planned downtime. -/
def halfDown : List TimeLineEntry :=
  [⟨0, .critical, .hard⟩, ⟨5, .plannedDown, .hard⟩, ⟨10, .plannedDown, .hard⟩]

theorem spans_halfDown : Spans 0 10 halfDown :=
  ⟨by unfold Sorted halfDown; decide, ⟨_, rfl, rfl⟩, ⟨_, rfl, rfl⟩⟩

/-- The time outside of the downtime is all bad, and counts as all good. -/
theorem halfDown_not_plannedNeutral :
    Spans 0 10 halfDown ∧ 0 < 10 - 0 - timeSpent 0 10 halfDown isPlannedDown ∧
      historicRatio .ok true (aggregateTimeLine halfDown) = 1 ∧
      ¬ PlannedNeutral .ok 0 10 halfDown := by
  have hratio : historicRatio .ok true (aggregateTimeLine halfDown) = 1 := by decide +kernel
  refine ⟨spans_halfDown, by decide, hratio, fun h => ?_⟩
  have hnone : timeSpent 0 10 halfDown
      (fun state => !isPlannedDown state && notWorse .ok state) = 0 := by decide
  have hzero := h.ratio
  rw [hratio, hnone, Int.cast_zero, zero_div] at hzero
  exact one_ne_zero hzero

/-!
## Distributions of states

An aggregated time line gives each state its share of the time.  Merging the state types adds up
the shares of a state, where a soft critical state counts as a warning unless soft states are
taken as hard ones.
-/

/-- Soft down isn't necessarily actually down. -/
def actualState (softStatesAsHardStates : Bool) (state : TimeLineState) : KpiResult :=
  if softStatesAsHardStates then state.1
  else if state.1 = .critical ∧ state.2 = .soft then .warning
  else state.1

def mergeStateTypes (timeLine : List (TimeLineState × ℚ)) (softStatesAsHardStates : Bool) :
    Accumulator KpiResult :=
  Accumulator.empty.addAll
    (timeLine.map fun entry => (actualState softStatesAsHardStates entry.1, entry.2))

def isState (state : TimeLineState) (other : TimeLineState) : Bool := decide (other = state)

/-- Each state has the part of the time that it is in force, and there is no other time. -/
structure Distribution (start stop : Int) (timeLine : List TimeLineEntry)
    (aggregated : List (TimeLineState × ℚ)) : Prop where
  keys : (aggregated.map Prod.fst).Nodup
  share : forall state value, (state, value) ∈ aggregated ->
    value = (timeSpent start stop timeLine (isState state) : ℚ) / ((stop - start : Int) : ℚ)
  complete : forall state, timeSpent start stop timeLine (isState state) ≠ 0 ->
    state ∈ aggregated.map Prod.fst
  bounded : forall state value, (state, value) ∈ aggregated -> 0 ≤ value ∧ value ≤ 1
  total : (aggregated.map Prod.snd).sum = 1

structure Merges (softStatesAsHardStates : Bool) (aggregated : List (TimeLineState × ℚ)) :
    Prop where
  share : forall result, (mergeStateTypes aggregated softStatesAsHardStates).get result =
    ratioOf (fun state => decide (actualState softStatesAsHardStates state = result)) aggregated
  total : (mergeStateTypes aggregated softStatesAsHardStates).total =
    (aggregated.map Prod.snd).sum

theorem merges (softStatesAsHardStates : Bool) (aggregated : List (TimeLineState × ℚ)) :
    Merges softStatesAsHardStates aggregated where
  share result := by
    unfold mergeStateTypes ratioOf
    rw [Accumulator.get_addAll, Accumulator.get_empty, zero_add, filter_map, map_map]
    rfl
  total := by
    unfold mergeStateTypes
    rw [Accumulator.total_addAll, Accumulator.total_empty, zero_add, map_map]
    rfl

variable {start stop : Int} {timeLine : List TimeLineEntry}

theorem get_timeSpans (state : TimeLineState) (timeLine : List TimeLineEntry) :
    (Accumulator.empty.addAll (timeSpans timeLine)).get state = spentIn (isState state) timeLine := by
  rw [Accumulator.get_addAll, Accumulator.get_empty, zero_add]
  rfl

section

variable (h : Spans start stop timeLine)
include h

theorem total_timeSpans :
    (Accumulator.empty.addAll (timeSpans timeLine)).total = ((stop - start : Int) : ℚ) := by
  rw [← spentIn_total h, Accumulator.total_addAll, Accumulator.total_empty, zero_add, spentIn,
    filter_true]

section

variable (hlt : start < stop)
include hlt

theorem aggregateTimeLine_eq :
    aggregateTimeLine timeLine =
      (Accumulator.empty.addAll (timeSpans timeLine)).entries.map fun entry =>
        (entry.1, entry.2 / ((stop - start : Int) : ℚ)) := by
  have hne : ((stop - start : Int) : ℚ) ≠ 0 := by
    rw [Int.cast_ne_zero]
    omega
  unfold aggregateTimeLine
  simp only [total_timeSpans h]
  rw [if_neg hne]

theorem keys_aggregateTimeLine :
    (aggregateTimeLine timeLine).map Prod.fst =
      (Accumulator.empty.addAll (timeSpans timeLine)).entries.map Prod.fst := by
  rw [aggregateTimeLine_eq h hlt, map_map]
  rfl

theorem share_aggregateTimeLine
    {state : TimeLineState} {value : ℚ} (hmem : (state, value) ∈ aggregateTimeLine timeLine) :
    value = spentIn (isState state) timeLine / ((stop - start : Int) : ℚ) := by
  rw [aggregateTimeLine_eq h hlt] at hmem
  rcases mem_map.mp hmem with ⟨⟨other, spent⟩, hspent, heq⟩
  rcases Prod.mk.inj heq with ⟨rfl, rfl⟩
  rw [← get_timeSpans, Accumulator.get_of_mem hspent]

theorem distribution :
    Distribution start stop timeLine (aggregateTimeLine timeLine) where
  keys := by
    rw [keys_aggregateTimeLine h hlt]
    exact Accumulator.keys_nodup _
  share state value hmem := by
    rw [share_aggregateTimeLine h hlt hmem, spentIn_eq_timeSpent h]
  complete state hspent := by
    rw [keys_aggregateTimeLine h hlt]
    have hget : (Accumulator.empty.addAll (timeSpans timeLine)).get state ≠ 0 := by
      rw [get_timeSpans, spentIn_eq_timeSpent h]
      exact Int.cast_ne_zero.mpr hspent
    have hmem := (Accumulator.get_eq_zero_or_mem _ state).resolve_left hget
    exact mem_map.mpr ⟨_, hmem, rfl⟩
  bounded state value hmem := by
    have hpos : (0 : ℚ) < ((stop - start : Int) : ℚ) := Int.cast_pos.mpr (by omega)
    rw [share_aggregateTimeLine h hlt hmem]
    refine ⟨div_nonneg (spentIn_nonneg h _) hpos.le, (div_le_one hpos).mpr ?_⟩
    rw [← spentIn_total h]
    exact spentIn_le_total h _
  total := by
    have hne : ((stop - start : Int) : ℚ) ≠ 0 := by
      rw [Int.cast_ne_zero]
      omega
    rw [aggregateTimeLine_eq h hlt, map_map]
    exact (sum_map_div _ _).trans ((congrArg (· / _) (total_timeSpans h)).trans (div_self hne))

end

end

/-- Whatever a time line in order is, its shares are a distribution and are merged without loss. -/
theorem aggregateTimeLine_distribution (h : Spans start stop timeLine) (hlt : start < stop) :
    Distribution start stop timeLine (aggregateTimeLine timeLine) ∧
      forall softStatesAsHardStates,
        Merges softStatesAsHardStates (aggregateTimeLine timeLine) :=
  ⟨distribution h hlt, fun softStatesAsHardStates => merges softStatesAsHardStates _⟩

theorem halfGood_distribution :
    (Spans 0 10 halfGood ∧ (0 : Int) < 10) ∧ Distribution 0 10 halfGood (aggregateTimeLine halfGood) ∧
      forall softStatesAsHardStates, Merges softStatesAsHardStates (aggregateTimeLine halfGood) :=
  ⟨⟨spans_halfGood, by decide⟩, aggregateTimeLine_distribution spans_halfGood (by decide)⟩

/-- A host that goes down softly ten seconds after the start of the range. -/
def softTable : AlertTable HostKey HostAlertState where
  own := [{ key := some 1, date := 10, state := .down, stateType := .soft, msg := [] }]
  independent := []

def softTimeLine : List TimeLineEntry :=
  [⟨0, .undetermined, .undetermined⟩, ⟨10, .critical, .soft⟩, ⟨100, .critical, .soft⟩]

/-- The end of a downtime that outlasts the range is dated after the end of the time line. -/
def lastingTimeLine : List TimeLineEntry :=
  [⟨0, .undetermined, .undetermined⟩, ⟨10, .critical, .hard⟩, ⟨50, .plannedDown, .plannedDown⟩,
    ⟨200, .critical, .hard⟩, ⟨100, .critical, .hard⟩]

/-- A merged state may lose its soft part, and shares may be out of bounds. -/
theorem timeLines_not_distributed :
    (calculateTimeLines (timeLineContextAt 1000) softTable [] [some 1] 0 100 =
        .ok [(some 1, softTimeLine)] ∧
      (mergeStateTypes (aggregateTimeLine softTimeLine) false).get .critical = 0 ∧
        ratioOf (fun state => decide (state.1 = .critical)) (aggregateTimeLine softTimeLine) =
          9 / 10) ∧
      calculateTimeLines (timeLineContextAt 1000) hostTable (hostDowntimes 50 200) [some 1] 0
          100 = .ok [(some 1, lastingTimeLine)] ∧
        ((.critical, .hard), -3 / 5) ∈ aggregateTimeLine lastingTimeLine ∧
          ¬ Distribution 0 100 lastingTimeLine (aggregateTimeLine lastingTimeLine) := by
  have hnegative : ((.critical, .hard), -3 / 5) ∈ aggregateTimeLine lastingTimeLine := by
    decide +kernel
  refine ⟨⟨rfl, by decide +kernel, by decide +kernel⟩, rfl, hnegative, fun h => ?_⟩
  have hbounded := (h.bounded _ _ hnegative).left
  exact absurd hbounded (by decide +kernel)

end Icsw.Kpi
