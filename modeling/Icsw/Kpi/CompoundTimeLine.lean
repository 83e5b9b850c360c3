import Icsw.Kpi.Model
import Mathlib.Data.Prod.Lex

/-!
# Compound time lines

The compound time line has at each instant the best or the worst of the states that are in force
then, unless the merge picks an exhausted time line: the date that stands for those is the present,
and time lines may end then.
-/

namespace Icsw.Kpi

open Foundation List
open DatedList
open StatusHistory

inductive HistoricError where
  | indexError
  | runtimeError
  | valueError
deriving DecidableEq

def KpiResult.value : KpiResult -> Int
  | .plannedDown => -1
  | .ok => 0
  | .warning => 1
  | .critical => 2
  | .unknown => 3
  | .undetermined => 4

abbrev TimeLineState := KpiResult × StateType

/-- Soft states are preferred. -/
def stateTypeOrdering : StateType -> Int
  | .plannedDown => -1
  | .soft => 0
  | .hard => 1
  | .undetermined => 2

def keyFun (state : TimeLineState) : Int ×ₗ Int :=
  toLex (state.1.value, stateTypeOrdering state.2)

/-- `min(..., key=key_fun)`: the first of the smallest ones. -/
def minState (first : TimeLineState) (rest : List TimeLineState) : TimeLineState :=
  rest.foldl (fun least state => if keyFun state < keyFun least then state else least) first

/-- `max(..., key=key_fun)`: the first of the largest ones. -/
def maxState (first : TimeLineState) (rest : List TimeLineState) : TimeLineState :=
  rest.foldl (fun most state => if keyFun most < keyFun state then state else most) first

def best : Text := "best".toList

def worst : Text := "worst".toList

def nextState (method : Text) : List TimeLineState -> Except HistoricError TimeLineState
  | [] => .error (if method = best ∨ method = worst then .valueError else .runtimeError)
  | first :: rest =>
    if method = best then .ok (minState first rest)
    else if method = worst then .ok (maxState first rest)
    else .error .runtimeError

def addToCompoundTl (method : Text) (date : Int) (currentTlStates : List TimeLineState)
    (forceAdd : Bool) (compound : List TimeLineEntry) :
    Except HistoricError (List TimeLineEntry) := do
  let next ← nextState method currentTlStates
  return if (compound.getLast?.all fun last => last.state ≠ next) || forceAdd then
      compound ++ [{ date := date, state := next }]
    else compound

abbrev Queue := List TimeLineEntry × TimeLineState

def nextDate (futureDate : Int) (queue : Queue) : Int :=
  (queue.1.head?.map TimeLineEntry.date).getD futureDate

def nextQueue (futureDate : Int) (queues : List Queue) : Nat :=
  let dates := queues.map (nextDate futureDate)
  dates.idxOf (dates.min?.getD futureDate)

def popNext (futureDate : Int) (queues : List Queue) :
    Except HistoricError (TimeLineEntry × List Queue) :=
  match queues[nextQueue futureDate queues]? with
  | some (entry :: left, _) =>
    .ok (entry, queues.set (nextQueue futureDate queues) (left, entry.state))
  | _ => .error .indexError

def exhausted (queues : List Queue) : Bool := queues.all fun queue => queue.1.isEmpty

/-- Each iteration takes one entry, so there are not more iterations than entries. -/
def mergeLoop (method : Text) (futureDate : Int) :
    Nat -> List Queue -> List TimeLineEntry -> Except HistoricError (List TimeLineEntry)
  | 0, _, compound => .ok compound
  | entries + 1, queues, compound =>
    if exhausted queues then .ok compound
    else do
      let popped ← popNext futureDate queues
      let compound ← addToCompoundTl method popped.1.date (popped.2.map Prod.snd)
        (exhausted popped.2) compound
      mergeLoop method futureDate entries popped.2 compound

def datesDiffer (endOf : List TimeLineEntry -> Option TimeLineEntry) :
    List (List TimeLineEntry) -> Except HistoricError Bool
  | first :: second :: rest =>
    match endOf first, endOf second with
    | some entry, some entry' =>
      if entry.date ≠ entry'.date then .ok true else datesDiffer endOf (second :: rest)
    | _, _ => .error .indexError
  | _ => .ok false

/-- `(collections.deque(tl), tl[0].state)` -/
def toQueue (timeLine : List TimeLineEntry) : Except HistoricError Queue :=
  match timeLine with
  | [] => .error .indexError
  | first :: rest => .ok (first :: rest, first.state)

def calculateCompoundTimeLine (method : Text) (now : Int)
    (timeLines : List (List TimeLineEntry)) : Except HistoricError (List TimeLineEntry) := do
  if ← datesDiffer List.head? timeLines then throw .runtimeError
  if ← datesDiffer List.getLast? timeLines then throw .runtimeError
  let queues ← timeLines.mapM toQueue
  match timeLines with
  | (first :: _) :: _ => do
      let compound ← addToCompoundTl method first.date (queues.map Prod.snd) false []
      mergeLoop method now (timeLines.map List.length).sum queues compound
  | _ => throw .indexError

/-- The state is at least as good, respectively as bad, as the other one. -/
def Prevails (method : Text) (state other : TimeLineState) : Prop :=
  if method = best then keyFun state ≤ keyFun other else keyFun other ≤ keyFun state

variable {states : List TimeLineState}

theorem nextState_spec {method : Text} (hmethod : method = best ∨ method = worst)
    (hstates : states ≠ []) :
    exists state, nextState method states = .ok state ∧ state ∈ states ∧
      forall other, other ∈ states -> Prevails method state other := by
  cases states with
  | nil => exact absurd rfl hstates
  | cons first rest =>
    by_cases hbest : method = best
    · rcases DatedList.foldl_least keyFun first rest with ⟨hmem, hle⟩
      refine ⟨minState first rest, by rw [nextState, if_pos hbest], hmem, ?_⟩
      intro other hother
      rw [Prevails, if_pos hbest]
      exact hle other hother
    · have hworst : method = worst := hmethod.resolve_left hbest
      rcases DatedList.foldl_least (fun state => OrderDual.toDual (keyFun state)) first rest with
        ⟨hmem, hle⟩
      refine ⟨maxState first rest, by rw [nextState, if_neg hbest, if_pos hworst], hmem, ?_⟩
      intro other hother
      rw [Prevails, if_neg hbest]
      exact hle other hother

theorem nextQueue_split (futureDate : Int) {queues : List Queue} (hqueues : queues ≠ []) :
    exists before queue after, queues = before ++ queue :: after ∧
      nextQueue futureDate queues = before.length ∧
      (forall other, other ∈ queues -> nextDate futureDate queue ≤ nextDate futureDate other) ∧
      forall other, other ∈ before -> nextDate futureDate queue < nextDate futureDate other := by
  cases hmin : (queues.map (nextDate futureDate)).min? with
  | none => exact absurd (map_eq_nil_iff.mp (List.min?_eq_none_iff.mp hmin)) hqueues
  | some least =>
    have hle : forall other, other ∈ queues -> least ≤ nextDate futureDate other :=
      fun other hother => (List.min?_eq_some_iff.mp hmin).right _ (mem_map_of_mem hother)
    rcases eq_append_cons_of_mem (List.min?_mem hmin) with ⟨dates, dates', hsplit, hnot⟩
    rcases map_eq_append_iff.mp hsplit with ⟨before, left, hqueue, hbefore, hleft⟩
    rcases map_eq_cons_iff.mp hleft with ⟨queue, after, hcons, hdate, _⟩
    refine ⟨before, queue, after, by rw [hqueue, hcons], ?_, ?_, ?_⟩
    · unfold nextQueue
      simp only [hmin, Option.getD_some]
      rw [hsplit, idxOf_append_of_notMem hnot, idxOf_cons_self, Nat.add_zero,
        ← hbefore, length_map]
    · intro other hother
      rw [hdate]
      exact hle other hother
    · intro other hother
      rw [hdate]
      apply lt_of_le_of_ne (hle other (hqueue ▸ mem_append_left _ hother))
      intro heq
      exact hnot (heq ▸ hbefore ▸ mem_map_of_mem hother)

section Pop

variable {futureDate : Int} {before after : List Queue}

theorem getElem?_middle {α : Type} (before after : List α) (item : α) :
    (before ++ item :: after)[before.length]? = some item := by
  rw [List.getElem?_append_right (Nat.le_refl _), Nat.sub_self, List.getElem?_cons_zero]

variable {state : TimeLineState}

theorem popNext_nil
    (hindex : nextQueue futureDate (before ++ ([], state) :: after) = before.length) :
    popNext futureDate (before ++ ([], state) :: after) = .error .indexError := by
  unfold popNext
  rw [hindex, getElem?_middle]

theorem popNext_cons {entry : TimeLineEntry} {left : List TimeLineEntry}
    (hindex : nextQueue futureDate (before ++ (entry :: left, state) :: after) = before.length) :
    popNext futureDate (before ++ (entry :: left, state) :: after) =
      .ok (entry, before ++ (left, entry.state) :: after) := by
  unfold popNext
  rw [hindex, getElem?_middle]
  simp

end Pop

structure Line where
  popped : List TimeLineEntry
  left : List TimeLineEntry
  first : TimeLineState

namespace Line

def entries (line : Line) : List TimeLineEntry := line.popped ++ line.left

def current (line : Line) : TimeLineState :=
  (line.popped.getLast?.map TimeLineEntry.state).getD line.first

def queue (line : Line) : Queue := (line.left, line.current)

def stateAt (line : Line) (instant : Int) : TimeLineState :=
  DatedList.stateAt TimeLineEntry.date TimeLineEntry.state line.first line.popped instant

end Line

/-- What the merge keeps of a line. -/
structure LineOk (start stop : Int) (line : Line) : Prop where
  sorted : Sorted TimeLineEntry.date line.entries
  first : exists entry rest, line.entries = entry :: rest ∧ entry.date = start ∧
    entry.state = line.first
  last : exists entry, line.entries.getLast? = some entry ∧ entry.date = stop

/-- The merge of what has been taken. -/
structure Merged (method : Text) (start : Int) (lines : List Line)
    (compound : List TimeLineEntry) : Prop where
  apart : forall line, line ∈ lines -> forall entry, entry ∈ line.popped ->
    forall other, other ∈ lines -> forall entry', entry' ∈ other.left -> entry.date ≤ entry'.date
  sorted : Sorted TimeLineEntry.date compound
  first : exists entry rest, compound = entry :: rest ∧ entry.date = start
  bounded : forall entry, entry ∈ compound -> forall line, line ∈ lines ->
    forall entry', entry' ∈ line.left -> entry.date ≤ entry'.date
  last : exists entry, compound.getLast? = some entry ∧
    nextState method (lines.map Line.current) = .ok entry.state
  agrees : forall instant, start ≤ instant -> exists entry,
    latest TimeLineEntry.date compound instant = some entry ∧
      nextState method (lines.map fun line => line.stateAt instant) = .ok entry.state

theorem Line.stateAt_eq_current {line : Line} (hsorted : Sorted TimeLineEntry.date line.popped)
    {instant : Int} (hpopped : forall entry, entry ∈ line.popped -> entry.date ≤ instant) :
    line.stateAt instant = line.current := by
  unfold Line.stateAt Line.current DatedList.stateAt
  cases hlast : line.popped.getLast? with
  | none =>
    rw [List.getLast?_eq_none_iff.mp hlast]
    rfl
  | some entry =>
    rw [latest_getLast TimeLineEntry.date hsorted hlast
      (hpopped entry (mem_of_getLast? hlast))]

theorem Line.stateAt_later {line : Line} {entry : TimeLineEntry} {left : List TimeLineEntry}
    {instant : Int} (h : instant < entry.date) :
    Line.stateAt { line with popped := line.popped ++ [entry], left := left } instant =
      line.stateAt instant := by
  unfold Line.stateAt DatedList.stateAt
  rw [latest_append_later TimeLineEntry.date h]

section Step

variable {method : Text} {start stop : Int} {before after : List Line} {line : Line}
  {entry : TimeLineEntry} {left : List TimeLineEntry} {compound : List TimeLineEntry}

/-- The line after its next entry has been taken. -/
def Line.take (line : Line) (entry : TimeLineEntry) (left : List TimeLineEntry) : Line :=
  { line with popped := line.popped ++ [entry], left := left }

theorem Line.entries_take (hleft : line.left = entry :: left) :
    (line.take entry left).entries = line.entries := by
  unfold Line.take Line.entries
  rw [hleft, append_assoc]
  rfl

theorem LineOk.take (h : LineOk start stop line) (hleft : line.left = entry :: left) :
    LineOk start stop (line.take entry left) where
  sorted := by
    rw [Line.entries_take hleft]
    exact h.sorted
  first := by
    rw [Line.entries_take hleft]
    exact h.first
  last := by
    rw [Line.entries_take hleft]
    exact h.last

theorem Line.queue_take : (line.take entry left).queue = (left, entry.state) := by
  unfold Line.take Line.queue Line.current
  rw [List.getLast?_concat]
  rfl

variable {entry' : TimeLineEntry}

theorem mem_left_take (hleft : line.left = entry :: left) {other : Line}
    (hother : other ∈ before ++ line.take entry left :: after) (hentry : entry' ∈ other.left) :
    exists other', other' ∈ before ++ line :: after ∧ entry' ∈ other'.left := by
  rcases mem_append.mp hother with hbefore | hrest
  · exact ⟨other, mem_append_left _ hbefore, hentry⟩
  · rcases mem_cons.mp hrest with rfl | hafter
    · exact ⟨line, mem_append_right _ mem_cons_self,
        hleft ▸ mem_cons_of_mem _ hentry⟩
    · exact ⟨other, mem_append_right _ (mem_cons_of_mem _ hafter), hentry⟩

theorem mem_popped_take {other : Line} (hother : other ∈ before ++ line.take entry left :: after)
    (hentry : entry' ∈ other.popped) :
    entry' = entry ∨ exists other', other' ∈ before ++ line :: after ∧ entry' ∈ other'.popped := by
  rcases mem_append.mp hother with hbefore | hrest
  · exact Or.inr ⟨other, mem_append_left _ hbefore, hentry⟩
  · rcases mem_cons.mp hrest with rfl | hafter
    · rcases mem_append.mp hentry with hold | hnew
      · exact Or.inr ⟨line, mem_append_right _ mem_cons_self, hold⟩
      · exact Or.inl (mem_singleton.mp hnew)
    · exact Or.inr ⟨other, mem_append_right _ (mem_cons_of_mem _ hafter), hentry⟩

theorem LineOk.start_le (h : LineOk start stop line) (hmem : entry ∈ line.entries) :
    start ≤ entry.date := by
  rcases h.first with ⟨first, rest, hentries, hstart, _⟩
  have hsorted := h.sorted
  rw [hentries] at hmem hsorted
  rcases mem_cons.mp hmem with rfl | hrest
  · exact le_of_eq hstart.symm
  · rw [← hstart]
    exact (pairwise_cons.mp hsorted).left entry hrest

theorem addToCompoundTl_eq {date : Int} {next : TimeLineState}
    (hnext : nextState method states = .ok next) (forceAdd : Bool) {last : TimeLineEntry}
    (hlast : compound.getLast? = some last) :
    addToCompoundTl method date states forceAdd compound =
      .ok (if last.state ≠ next ∨ forceAdd = true then
        compound ++ [{ date := date, state := next }] else compound) := by
  unfold addToCompoundTl
  rw [hnext, hlast]
  show Except.ok _ = Except.ok _
  congr 1
  simp only [Option.all_some, Bool.or_eq_true, decide_eq_true_eq]

theorem Merged.step (hmethod : method = best ∨ method = worst)
    (h : Merged method start (before ++ line :: after) compound)
    (hok : forall other, other ∈ before ++ line :: after -> LineOk start stop other)
    (hleft : line.left = entry :: left)
    (hmin : forall other, other ∈ before ++ line :: after -> forall entry', entry' ∈ other.left ->
      entry.date ≤ entry'.date) (forceAdd : Bool) :
    exists compound', addToCompoundTl method entry.date
        ((before ++ line.take entry left :: after).map Line.current) forceAdd compound =
          .ok compound' ∧
      Merged method start (before ++ line.take entry left :: after) compound' ∧
      (forceAdd = true -> exists last, compound'.getLast? = some last ∧
        last.date = entry.date) := by
  have hline : line ∈ before ++ line :: after := mem_append_right _ mem_cons_self
  have hentry : entry ∈ line.left := hleft ▸ mem_cons_self
  have hstart : start ≤ entry.date := (hok line hline).start_le (mem_append_right _ hentry)
  have hleft' : forall other, other ∈ before ++ line.take entry left :: after ->
      forall entry', entry' ∈ other.left -> entry.date ≤ entry'.date := by
    intro other hother entry' hentry'
    rcases mem_left_take hleft hother hentry' with ⟨other', hother', hmem⟩
    exact hmin other' hother' entry' hmem
  have hpopped : forall other, other ∈ before ++ line.take entry left :: after ->
      forall entry', entry' ∈ other.popped -> entry'.date ≤ entry.date := by
    intro other hother entry' hentry'
    rcases mem_popped_take hother hentry' with rfl | ⟨other', hother', hmem⟩
    · exact le_refl _
    · exact h.apart other' hother' entry' hmem line hline entry hentry
  have hok' : forall other, other ∈ before ++ line.take entry left :: after ->
      LineOk start stop other := by
    intro other hother
    rcases mem_append.mp hother with hbefore | hrest
    · exact hok other (mem_append_left _ hbefore)
    · rcases mem_cons.mp hrest with rfl | hafter
      · exact (hok line hline).take hleft
      · exact hok other (mem_append_right _ (mem_cons_of_mem _ hafter))
  -- from the date of the entry on, all lines are in their current states
  have hlate : forall instant, entry.date ≤ instant ->
      (before ++ line.take entry left :: after).map (fun other => other.stateAt instant) =
        (before ++ line.take entry left :: after).map Line.current := by
    intro instant hinstant
    apply map_congr_left
    intro other hother
    exact Line.stateAt_eq_current (pairwise_append.mp (hok' other hother).sorted).left
      fun entry' hentry' => (hpopped other hother entry' hentry').trans hinstant
  have hearly : forall instant, instant < entry.date ->
      (before ++ line.take entry left :: after).map (fun other => other.stateAt instant) =
        (before ++ line :: after).map fun other => other.stateAt instant := by
    intro instant hinstant
    rw [map_append, map_cons, map_append, map_cons]
    show _ ++ Line.stateAt { line with popped := line.popped ++ [entry], left := left } instant ::
      _ = _
    rw [Line.stateAt_later hinstant]
  have hapart : forall other, other ∈ before ++ line.take entry left :: after ->
      forall entry', entry' ∈ other.popped ->
      forall other', other' ∈ before ++ line.take entry left :: after ->
      forall entry'', entry'' ∈ other'.left -> entry'.date ≤ entry''.date :=
    fun other hother entry' hentry' other' hother' entry'' hentry'' =>
      (hpopped other hother entry' hentry').trans (hleft' other' hother' entry'' hentry'')
  have hbounded : forall entry', entry' ∈ compound -> entry'.date ≤ entry.date :=
    fun entry' hentry' => h.bounded entry' hentry' line hline entry hentry
  have hstates : (before ++ line.take entry left :: after).map Line.current ≠ [] := by simp
  rcases nextState_spec hmethod hstates with ⟨next, hnext, _, _⟩
  rcases h.last with ⟨last, hlast, _⟩
  rcases h.first with ⟨first, rest, hfirst, hfirstDate⟩
  rw [addToCompoundTl_eq hnext forceAdd hlast]
  refine ⟨_, rfl, ?_, ?_⟩
  · by_cases hadd : last.state ≠ next ∨ forceAdd = true
    · rw [if_pos hadd]
      have hsorted : Sorted TimeLineEntry.date
          (compound ++ [{ date := entry.date, state := next }]) := by
        apply pairwise_append.mpr
        refine ⟨h.sorted, pairwise_singleton _ _, ?_⟩
        intro entry' hentry' new hnew
        rw [mem_singleton.mp hnew]
        exact hbounded entry' hentry'
      refine ⟨hapart, hsorted, ?_, ?_, ⟨_, List.getLast?_concat, hnext⟩, ?_⟩
      · exact ⟨first, rest ++ [{ date := entry.date, state := next }], by rw [hfirst]; rfl,
          hfirstDate⟩
      · intro entry' hentry' other hother entry'' hentry''
        apply le_trans _ (hleft' other hother entry'' hentry'')
        rcases mem_append.mp hentry' with hold | hnew
        · exact hbounded entry' hold
        · rw [mem_singleton.mp hnew]
      · intro instant hinstant
        rcases lt_or_ge instant entry.date with hlt | hge
        · have hnew : latest TimeLineEntry.date
              (compound ++ [{ date := entry.date, state := next }]) instant =
                latest TimeLineEntry.date compound instant :=
            latest_append_later TimeLineEntry.date hlt
          rw [hearly instant hlt, hnew]
          exact h.agrees instant hinstant
        · rw [hlate instant hge]
          exact ⟨_, latest_getLast TimeLineEntry.date hsorted List.getLast?_concat hge, hnext⟩
    · rw [if_neg hadd]
      have hsame : last.state = next := not_not.mp (not_or.mp hadd).left
      refine ⟨hapart, h.sorted, h.first, ?_, ⟨last, hlast, hsame ▸ hnext⟩, ?_⟩
      · intro entry' hentry' other hother entry'' hentry''
        exact (hbounded entry' hentry').trans (hleft' other hother entry'' hentry'')
      · intro instant hinstant
        rcases lt_or_ge instant entry.date with hlt | hge
        · rw [hearly instant hlt]
          exact h.agrees instant hinstant
        · rw [hlate instant hge]
          have hdate := hbounded last (mem_of_getLast? hlast)
          exact ⟨last, latest_getLast TimeLineEntry.date h.sorted hlast (hdate.trans hge),
            hsame ▸ hnext⟩
  · intro hforce
    rw [if_pos (Or.inr hforce)]
    exact ⟨_, List.getLast?_concat, rfl⟩

end Step

section Loop

variable {method : Text} {start stop futureDate : Int} {lines : List Line}

theorem exhausted_iff :
    exhausted (lines.map Line.queue) = true <-> forall line, line ∈ lines -> line.left = [] := by
  unfold exhausted
  rw [all_map, all_eq_true]
  exact forall_congr' fun line => imp_congr_right fun _ => isEmpty_iff

theorem nextDate_cons {line : Line} {entry : TimeLineEntry} {left : List TimeLineEntry}
    (hleft : line.left = entry :: left) : nextDate futureDate line.queue = entry.date := by
  unfold nextDate Line.queue
  rw [hleft]
  rfl

theorem LineOk.le_stop {line : Line} (h : LineOk start stop line) {entry : TimeLineEntry}
    (hmem : entry ∈ line.entries) : entry.date ≤ stop := by
  rcases h.last with ⟨last, hlast, hstop⟩
  rcases List.getLast?_eq_some_iff.mp hlast with ⟨before, hsplit⟩
  have hsorted := h.sorted
  rw [hsplit] at hmem hsorted
  rcases mem_append.mp hmem with hbefore | hrest
  · rw [← hstop]
    exact (pairwise_append.mp hsorted).right.right entry hbefore last mem_cons_self
  · rw [mem_singleton.mp hrest, hstop]

/-- The queue in question is not exhausted if there is only one, or the future is later than
all entries. -/
theorem exists_next (hfuture : stop < futureDate ∨ lines.length = 1)
    (hok : forall line, line ∈ lines -> LineOk start stop line)
    (hleft : ¬ forall line, line ∈ lines -> line.left = []) :
    exists before line after entry left, lines = before ++ line :: after ∧
      line.left = entry :: left ∧
      nextQueue futureDate (lines.map Line.queue) = before.length ∧
      forall other, other ∈ lines -> forall entry', entry' ∈ other.left ->
        entry.date ≤ entry'.date := by
  have hfull : exists other, other ∈ lines ∧ exists entry left, other.left = entry :: left := by
    by_contra hnone
    apply hleft
    intro line hline
    cases hcase : line.left with
    | nil => rfl
    | cons entry left => exact absurd ⟨line, hline, entry, left, hcase⟩ hnone
  rcases hfull with ⟨full, hfullMem, first, others, hfullLeft⟩
  have hqueues : lines.map Line.queue ≠ [] := by
    intro hnil
    rw [map_eq_nil_iff.mp hnil] at hfullMem
    cases hfullMem
  rcases nextQueue_split futureDate hqueues with ⟨before', queue, after', hsplit, hindex, hle, _⟩
  rcases map_eq_append_iff.mp hsplit with ⟨before, rest, hlines, hbefore, hrest⟩
  rcases map_eq_cons_iff.mp hrest with ⟨line, after, hcons, hqueue, _⟩
  subst hcons
  have hline : line ∈ lines := hlines ▸ mem_append_right _ mem_cons_self
  have hkey : forall other, other ∈ lines ->
      nextDate futureDate line.queue ≤ nextDate futureDate other.queue :=
    fun other hother => hqueue ▸ hle other.queue (mem_map_of_mem hother)
  cases hlineLeft : line.left with
  | nil =>
    exfalso
    rcases hfuture with hlater | hone
    · have hfirst := hkey full hfullMem
      rw [nextDate_cons hfullLeft] at hfirst
      have hstop := (hok full hfullMem).le_stop
        (mem_append_right _ (hfullLeft ▸ mem_cons_self))
      have hfutureDate : nextDate futureDate line.queue = futureDate := by
        unfold nextDate Line.queue
        rw [hlineLeft]
        rfl
      rw [hfutureDate] at hfirst
      exact absurd (hfirst.trans hstop) (not_le.mpr hlater)
    · rcases length_eq_one_iff.mp hone with ⟨only, honly⟩
      rw [honly] at hline hfullMem
      rw [mem_singleton.mp hfullMem, ← mem_singleton.mp hline, hlineLeft] at hfullLeft
      cases hfullLeft
  | cons entry left =>
    refine ⟨before, line, after, entry, left, hlines, hlineLeft, ?_, ?_⟩
    · rw [hindex, ← hbefore, length_map]
    · intro other hother entry' hentry'
      cases hotherLeft : other.left with
      | nil =>
        rw [hotherLeft] at hentry'
        cases hentry'
      | cons head tail =>
        have hhead := hkey other hother
        rw [nextDate_cons hlineLeft, nextDate_cons hotherLeft] at hhead
        have hsorted := (pairwise_append.mp (hok other hother).sorted).right.left
        rw [hotherLeft] at hentry' hsorted
        rcases mem_cons.mp hentry' with rfl | htail
        · exact hhead
        · exact hhead.trans ((pairwise_cons.mp hsorted).left entry' htail)

def entriesLeft (lines : List Line) : Nat := (lines.map fun line => line.left.length).sum

theorem entriesLeft_eq_zero (h : entriesLeft lines = 0) :
    forall line, line ∈ lines -> line.left = [] := by
  intro line hline
  apply List.eq_nil_of_length_eq_zero
  exact List.sum_eq_zero_iff_forall_eq_nat.mp h _ (List.mem_map_of_mem hline)

theorem entriesLeft_take {before after : List Line} {line : Line} {entry : TimeLineEntry}
    {left : List TimeLineEntry} (hleft : line.left = entry :: left) :
    entriesLeft (before ++ line :: after) =
      entriesLeft (before ++ line.take entry left :: after) + 1 := by
  unfold entriesLeft Line.take
  simp only [map_append, map_cons, sum_append, sum_cons, hleft,
    length_cons]
  omega

theorem mergeLoop_merged (hmethod : method = best ∨ method = worst)
    {compound : List TimeLineEntry} (hfuture : stop < futureDate ∨ lines.length = 1)
    (hok : forall line, line ∈ lines -> LineOk start stop line)
    (hmerged : Merged method start lines compound)
    (hlast : (forall line, line ∈ lines -> line.left = []) ->
      exists last, compound.getLast? = some last ∧ last.date = stop) :
    exists result lines',
      mergeLoop method futureDate (entriesLeft lines) (lines.map Line.queue) compound =
        .ok result ∧
      lines'.map Line.entries = lines.map Line.entries ∧
      (forall line, line ∈ lines' -> LineOk start stop line ∧ line.left = []) ∧
      Merged method start lines' result ∧
      exists last, result.getLast? = some last ∧ last.date = stop := by
  generalize hcount : entriesLeft lines = count
  induction count generalizing lines compound with
  | zero =>
    have hnone := entriesLeft_eq_zero hcount
    exact ⟨compound, lines, rfl, rfl, fun line hline => ⟨hok line hline, hnone line hline⟩,
      hmerged, hlast hnone⟩
  | succ count ih =>
    have hleft : ¬ forall line, line ∈ lines -> line.left = [] := by
      intro hnone
      have hzero : entriesLeft lines = 0 := by
        apply List.sum_eq_zero_iff_forall_eq_nat.mpr
        intro length hlength
        rcases List.mem_map.mp hlength with ⟨line, hline, rfl⟩
        rw [hnone line hline]
        rfl
      rw [hzero] at hcount
      cases hcount
    rcases exists_next hfuture hok hleft with
      ⟨before, line, after, entry, left, rfl, hlineLeft, hindex, hmin⟩
    rcases hmerged.step hmethod hok hlineLeft hmin
      (exhausted ((before ++ line.take entry left :: after).map Line.queue)) with
      ⟨compound', hadd, hmerged', hforced⟩
    have hok' : forall other, other ∈ before ++ line.take entry left :: after ->
        LineOk start stop other := by
      intro other hother
      rcases List.mem_append.mp hother with hbefore | hrest
      · exact hok other (List.mem_append_left _ hbefore)
      · rcases List.mem_cons.mp hrest with rfl | hafter
        · exact (hok line (List.mem_append_right _ List.mem_cons_self)).take hlineLeft
        · exact hok other (List.mem_append_right _ (List.mem_cons_of_mem _ hafter))
    have hlength : (before ++ line.take entry left :: after).length =
        (before ++ line :: after).length := by
      rw [List.length_append, List.length_append]
      rfl
    have hend : (forall other, other ∈ before ++ line.take entry left :: after ->
        other.left = []) -> exists last, compound'.getLast? = some last ∧ last.date = stop := by
      intro hnone
      rcases hforced (exhausted_iff.mpr hnone) with ⟨last, hlast', hdate⟩
      refine ⟨last, hlast', ?_⟩
      have htaken : left = [] :=
        hnone (line.take entry left) (List.mem_append_right _ List.mem_cons_self)
      rcases (hok line (List.mem_append_right _ List.mem_cons_self)).last with
        ⟨final, hfinal, hstop⟩
      unfold Line.entries at hfinal
      rw [hlineLeft, htaken, List.getLast?_concat] at hfinal
      rw [hdate, Option.some.inj hfinal, hstop]
    rcases ih (hlength ▸ hfuture) hok' hmerged' hend
      (Nat.succ.inj ((entriesLeft_take hlineLeft).symm.trans hcount)) with
      ⟨result, lines', hresult, hentries, hrest⟩
    refine ⟨result, lines', ?_, ?_, hrest⟩
    · have hpop : popNext futureDate ((before ++ line :: after).map Line.queue) =
          .ok (entry, (before ++ line.take entry left :: after).map Line.queue) := by
        have hsplit : (before ++ line :: after).map Line.queue =
            before.map Line.queue ++ (entry :: left, line.current) ::
              after.map Line.queue := by
          rw [List.map_append, List.map_cons, Line.queue, hlineLeft]
        have hlength' : (before.map Line.queue).length = before.length := List.length_map _
        rw [hsplit] at hindex ⊢
        rw [← hlength'] at hindex
        rw [popNext_cons hindex, List.map_append, List.map_cons, Line.queue_take]
      have hstates : ((before ++ line.take entry left :: after).map Line.queue).map Prod.snd =
          (before ++ line.take entry left :: after).map Line.current :=
        List.map_map
      rw [mergeLoop, if_neg fun h => hleft (exhausted_iff.mp h), hpop]
      show (addToCompoundTl method entry.date _ _ compound >>= fun compound =>
        mergeLoop method futureDate count _ compound) = _
      rw [hstates, hadd]
      exact hresult
    · rw [hentries, List.map_append, List.map_cons, List.map_append, List.map_cons,
        Line.entries_take hlineLeft]

end Loop

end Icsw.Kpi
