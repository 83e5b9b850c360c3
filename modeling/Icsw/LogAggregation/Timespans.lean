import Icsw.Foundation.Run
import Icsw.LogAggregation.Duration
import Icsw.LogAggregation.Hour

/-!
# Aggregated timespans

For each duration from the hour to the year an update stores one timespan after the other, as long
as the next one ended before the last line that was read.  The steps of the model are the iterations
of that loop.
-/

namespace Icsw.LogAggregation

open Foundation List

structure Timespan where
  durationType : Duration
  startDate : Int
  endDate : Int
deriving DecidableEq

/--
What an update reads: its settings, the dates of the raw alerts, and the time of
the last line read, in seconds.  The log reader does not run during an update, so
all this stays as it is until the update ends.
-/
structure Tables where
  enableIcingaLogParsing : Bool
  sqlite : Bool
  hostAlerts : List Int
  serviceAlerts : List Int
  lastRead : Option Int

/-- The local variables of an update that is under way. -/
structure Progress where
  tables : Tables
  durationType : Duration
  nextStartTime : Int
  /-- The durations that the outer loop has still to go through. -/
  rest : List Duration
  exitRequested : Bool

structure Aggregator where
  timespans : List Timespan
  progress : Option Progress

inductive Action where
  /-- A call of the update; it does nothing while one is under way. -/
  | update (tables : Tables) (exitRequested : Bool)
  | iterate (raises exitRequested : Bool)

/-- Smaller ones first, since each is computed from the one before. -/
def durationTypes : List Duration := [.hour, .day, .week, .month, .year]

variable (timespans : List Timespan)

def latestTimespan : Option Timespan :=
  timespans.foldl (fun best timespan =>
    match best with
    | none => some timespan
    | some other => if other.startDate < timespan.startDate then some timespan else some other)
    none

/-- There is none unless hosts and services both have alerts. -/
def Tables.earliestAlert (tables : Tables) : Option Int :=
  match earliestDate tables.hostAlerts, earliestDate tables.serviceAlerts with
  | some host, some service => some (min host service)
  | _, _ => none

def ofType (durationType : Duration) : List Timespan :=
  timespans.filter (fun timespan => timespan.durationType = durationType)

/-- Where the last stored timespan ends, or the frame of the first alert. -/
def nextStart (tables : Tables) (durationType : Duration) : Option Int :=
  match latestTimespan (ofType timespans durationType) with
  | some lastEntry => some lastEntry.endDate
  | none => tables.earliestAlert.map durationType.getTimeFrameStart

/-- Without log data the inner loop is not entered. -/
def beginTypes (timespans : List Timespan) (tables : Tables) (exitRequested : Bool) :
    List Duration -> Option Progress
  | [] => none
  | durationType :: rest =>
    match nextStart timespans tables durationType with
    | some start =>
      some { tables := tables, durationType := durationType, nextStartTime := start
             rest := rest, exitRequested := exitRequested }
    | none =>
      if exitRequested then none
      else beginTypes timespans tables exitRequested rest

def Progress.nextEndTime (progress : Progress) : Int :=
  progress.durationType.getEndTimeForStart progress.nextStartTime

def Tables.hasRead (tables : Tables) (time : Int) : Prop :=
  exists timestamp, timestamp ∈ tables.lastRead ∧ time < timestamp * second

instance (tables : Tables) (time : Int) : Decidable (tables.hasRead time) :=
  match hread : tables.lastRead with
  | none => isFalse (by simp [Tables.hasRead, hread])
  | some timestamp =>
    decidable_of_iff (time < timestamp * second) (by simp [Tables.hasRead, hread])

def Progress.timespan (progress : Progress) : Timespan where
  durationType := progress.durationType
  startDate := progress.nextStartTime
  endDate := progress.nextEndTime

/--
One iteration of the inner loop.  A timespan whose computation raises is deleted
again, and the exception ends the update; so does a requested exit.
-/
def iterate (progress : Progress) (raises exitRequested : Bool) : Aggregator :=
  let exits := progress.exitRequested || exitRequested
  if progress.tables.hasRead progress.nextEndTime then
    if raises then { timespans := timespans, progress := none }
    else
      { timespans := timespans ++ [progress.timespan]
        progress :=
          if exits then none
          else some { progress with nextStartTime := progress.nextEndTime } }
  else
    { timespans := timespans
      progress :=
        if exits then none
        else beginTypes timespans progress.tables false progress.rest }

def step (state : Aggregator) : Action -> Aggregator
  | .update tables exitRequested =>
    match state.progress with
    | some _ => state
    | none =>
      if tables.enableIcingaLogParsing ∧ ¬ tables.sqlite then
        { state with
          progress := beginTypes state.timespans tables exitRequested durationTypes }
      else state
  | .iterate raises exitRequested =>
    match state.progress with
    | none => state
    | some progress => iterate state.timespans progress raises exitRequested

/-- Nothing has been aggregated yet. -/
def initial : Aggregator := { timespans := [], progress := none }

theorem latestTimespan_append_singleton (timespan : Timespan) :
    latestTimespan (timespans ++ [timespan]) =
      match latestTimespan timespans with
      | none => some timespan
      | some other =>
        if other.startDate < timespan.startDate then some timespan else some other := by
  unfold latestTimespan
  rw [foldl_append]
  rfl

theorem latestTimespan_mem {timespans : List Timespan} {timespan : Timespan}
    (h : latestTimespan timespans = some timespan) : timespan ∈ timespans := by
  induction timespans using reverseRecOn generalizing timespan with
  | nil => cases h
  | append_singleton before last ih =>
    rw [latestTimespan_append_singleton] at h
    cases hlatest : latestTimespan before with
    | none =>
      rw [hlatest] at h
      cases h
      simp
    | some other =>
      rw [hlatest] at h
      simp only at h
      split_ifs at h with hlater
      · cases h
        simp
      · cases h
        simp [ih hlatest]

theorem latestTimespan_append_later {timespans : List Timespan} {timespan : Timespan}
    (hlater : forall other, other ∈ timespans -> other.startDate < timespan.startDate) :
    latestTimespan (timespans ++ [timespan]) = some timespan := by
  rw [latestTimespan_append_singleton]
  cases hlatest : latestTimespan timespans with
  | none => rfl
  | some other => simp [hlater other (latestTimespan_mem hlatest)]

/-!
## Frames on the calendar

Abstractly, the database holds for each duration a stretch of consecutive frames.
-/

def frameAt (durationType : Duration) (i : Int) : Timespan where
  durationType := durationType
  startDate := durationType.grid.start i
  endDate := durationType.grid.start (i + 1)

theorem frameAt_injective (durationType : Duration) :
    Function.Injective (frameAt durationType) := by
  intro i j heq
  exact durationType.grid.start_injective (congrArg Timespan.startDate heq)

structure Layout where
  first : Duration -> Int
  count : Duration -> Nat

namespace Layout

variable (layout : Layout)

/-- The frame after the stored ones. -/
def next (durationType : Duration) : Int :=
  layout.first durationType + layout.count durationType

def frames (durationType : Duration) : List Timespan :=
  (range (layout.count durationType)).map
    (fun k : Nat => frameAt durationType (layout.first durationType + k))

def extend (durationType : Duration) (i : Int) : Layout where
  first := Function.update layout.first durationType
    (if layout.count durationType = 0 then i else layout.first durationType)
  count := Function.update layout.count durationType (layout.count durationType + 1)

def empty : Layout where
  first := fun _ => 0
  count := fun _ => 0

variable {durationType : Duration}

variable {layout : Layout}

theorem mem_frames {timespan : Timespan} :
    timespan ∈ layout.frames durationType <->
      exists i, layout.first durationType ≤ i ∧ i < layout.next durationType ∧
        timespan = frameAt durationType i := by
  simp only [frames, next, mem_map, mem_range]
  constructor
  · rintro ⟨k, hk, rfl⟩
    exact ⟨_, by omega, by omega, rfl⟩
  · rintro ⟨i, hlower, hupper, rfl⟩
    refine ⟨(i - layout.first durationType).toNat, by omega, ?_⟩
    congr 1
    omega

theorem frames_nodup (durationType : Duration) : (layout.frames durationType).Nodup := by
  apply Nodup.map _ nodup_range
  intro k l heq
  have hindex := frameAt_injective durationType heq
  omega

variable {durationType other : Duration}

theorem extend_first_of_ne (i : Int) (hne : other ≠ durationType) :
    (layout.extend durationType i).first other = layout.first other := by
  simp [extend, hne]

theorem extend_count_of_ne (i : Int) (hne : other ≠ durationType) :
    (layout.extend durationType i).count other = layout.count other := by
  simp [extend, hne]

theorem extend_next_of_ne (i : Int) (hne : other ≠ durationType) :
    (layout.extend durationType i).next other = layout.next other := by
  rw [next, next, extend_first_of_ne i hne, extend_count_of_ne i hne]

theorem extend_first_of_empty (i : Int) (hempty : layout.count durationType = 0) :
    (layout.extend durationType i).first durationType = i := by
  simp [extend, hempty]

theorem extend_first_of_stored (i : Int) (hstored : layout.count durationType ≠ 0) :
    (layout.extend durationType i).first durationType = layout.first durationType := by
  simp [extend, hstored]

theorem extend_count_ne_zero (durationType : Duration) (i : Int) :
    (layout.extend durationType i).count durationType ≠ 0 := by
  simp [extend]

theorem extend_next {i : Int}
    (hnext : layout.count durationType ≠ 0 -> i = layout.next durationType) :
    (layout.extend durationType i).next durationType = i + 1 := by
  unfold next at *
  simp only [extend, Function.update_self]
  split_ifs with hempty
  · simp [hempty]
  · have hi := hnext hempty
    push_cast
    omega

theorem frames_extend {i : Int}
    (hnext : layout.count durationType ≠ 0 -> i = layout.next durationType) :
    (layout.extend durationType i).frames durationType =
      layout.frames durationType ++ [frameAt durationType i] := by
  unfold frames
  simp only [extend, Function.update_self, range_succ, map_append, map_singleton]
  by_cases hempty : layout.count durationType = 0
  · simp [hempty]
  · have hi := hnext hempty
    rw [if_neg hempty, hi, next]

theorem frames_extend_of_ne (i : Int) (hne : other ≠ durationType) :
    (layout.extend durationType i).frames other = layout.frames other := by
  unfold frames
  rw [extend_first_of_ne i hne, extend_count_of_ne i hne]

def Represents (timespans : List Timespan) : Prop :=
  forall durationType, ofType timespans durationType = layout.frames durationType

end Layout

theorem ofType_append_same {timespans : List Timespan} {timespan : Timespan} :
    ofType (timespans ++ [timespan]) timespan.durationType =
      ofType timespans timespan.durationType ++ [timespan] := by
  simp [ofType]

theorem ofType_append_of_ne {timespans : List Timespan} {timespan : Timespan}
    {durationType : Duration} (hne : durationType ≠ timespan.durationType) :
    ofType (timespans ++ [timespan]) durationType = ofType timespans durationType := by
  simp [ofType, hne.symm]

section Represented

variable {layout : Layout} {timespans : List Timespan} (hrep : layout.Represents timespans)

include hrep

theorem mem_iff_frame {timespan : Timespan} :
    timespan ∈ timespans <->
      exists i, layout.first timespan.durationType ≤ i ∧
        i < layout.next timespan.durationType ∧ timespan = frameAt timespan.durationType i := by
  rw [← Layout.mem_frames, ← hrep timespan.durationType]
  simp [ofType]

theorem frameAt_mem {durationType : Duration} {i : Int} :
    frameAt durationType i ∈ timespans <->
      layout.first durationType ≤ i ∧ i < layout.next durationType := by
  rw [mem_iff_frame hrep]
  constructor
  · rintro ⟨j, hlower, hupper, heq⟩
    rw [frameAt_injective durationType heq]
    exact ⟨hlower, hupper⟩
  · rintro ⟨hlower, hupper⟩
    exact ⟨i, hlower, hupper, rfl⟩

theorem represents_extend {durationType : Duration} {i : Int}
    (hnext : layout.count durationType ≠ 0 -> i = layout.next durationType) :
    (layout.extend durationType i).Represents (timespans ++ [frameAt durationType i]) := by
  intro other
  by_cases hsame : other = durationType
  · subst hsame
    have happend := @ofType_append_same timespans (frameAt other i)
    rw [Layout.frames_extend hnext, ← hrep other]
    exact happend
  · rw [Layout.frames_extend_of_ne i hsame, ← hrep other]
    exact ofType_append_of_ne hsame

theorem nextStart_of_stored (tables : Tables) {durationType : Duration}
    (hstored : layout.count durationType ≠ 0) :
    nextStart timespans tables durationType =
      some (durationType.grid.start (layout.next durationType)) := by
  rcases Nat.exists_eq_succ_of_ne_zero hstored with ⟨before, hcount⟩
  have hlatest : latestTimespan (ofType timespans durationType) =
      some (frameAt durationType (layout.first durationType + (before : Int))) := by
    rw [hrep durationType, Layout.frames, hcount, range_succ, map_append]
    apply latestTimespan_append_later
    intro other hmem
    rcases mem_map.mp hmem with ⟨k, hk, rfl⟩
    have hlt := mem_range.mp hk
    apply durationType.grid.start_lt_start.mpr
    omega
  unfold nextStart
  rw [hlatest]
  simp only [frameAt, Layout.next, hcount]
  congr 2
  push_cast
  omega

theorem nextStart_of_empty (tables : Tables) {durationType : Duration}
    (hempty : layout.count durationType = 0) :
    nextStart timespans tables durationType =
      tables.earliestAlert.map durationType.getTimeFrameStart := by
  unfold nextStart
  rw [hrep durationType, Layout.frames, hempty]
  rfl

theorem nextStart_index {tables : Tables} {durationType : Duration} {start : Int}
    (hstart : nextStart timespans tables durationType = some start) :
    exists i, start = durationType.grid.start i ∧
      (layout.count durationType ≠ 0 -> i = layout.next durationType) ∧
      (layout.count durationType = 0 -> exists alert, tables.earliestAlert = some alert ∧
        i = durationType.grid.index alert) := by
  by_cases hempty : layout.count durationType = 0
  · rw [nextStart_of_empty hrep tables hempty, Option.map_eq_some_iff] at hstart
    rcases hstart with ⟨alert, halert, heq⟩
    refine ⟨durationType.grid.index alert, ?_, fun h => absurd hempty h,
      fun _ => ⟨alert, halert, rfl⟩⟩
    rw [← heq, Duration.getTimeFrameStart_eq]
  · rw [nextStart_of_stored hrep tables hempty] at hstart
    cases hstart
    exact ⟨_, rfl, fun _ => rfl, fun h => absurd h hempty⟩

end Represented

/-- Each duration is computed from the one before it. -/
def Ordered : Option Duration -> List Duration -> Prop
  | _, [] => True
  | previous, durationType :: rest =>
    durationType.getShorterDuration = previous ∧ Ordered (some durationType) rest

theorem durationTypes_ordered : Ordered none durationTypes := by
  simp [durationTypes, Ordered, Duration.getShorterDuration]

/-- There is not sufficient data for the next timespan of a duration. -/
def Exhausted (timespans : List Timespan) (tables : Tables) (durationType : Duration) : Prop :=
  forall start, nextStart timespans tables durationType = some start ->
    ¬ tables.hasRead (durationType.getEndTimeForStart start)

/--
The next start of an update under way is the one that the database gives, and the duration from
which the present one is computed has been gone through.
-/
structure Progress.Valid (progress : Progress) (timespans : List Timespan) : Prop where
  next : nextStart timespans progress.tables progress.durationType =
    some progress.nextStartTime
  ordered : Ordered (some progress.durationType) progress.rest
  exhausted : forall shorter, progress.durationType.getShorterDuration = some shorter ->
    Exhausted timespans progress.tables shorter

variable {progress : Progress}

theorem beginTypes_valid {timespans : List Timespan} {tables : Tables} {exitRequested : Bool}
    {previous : Option Duration} {types : List Duration} (hordered : Ordered previous types)
    (hexhausted : forall shorter, previous = some shorter -> Exhausted timespans tables shorter)
    (hbegin : beginTypes timespans tables exitRequested types = some progress) :
    progress.Valid timespans := by
  induction types generalizing previous with
  | nil => cases hbegin
  | cons durationType rest ih =>
    unfold beginTypes at hbegin
    cases hstart : nextStart timespans tables durationType with
    | some start =>
      rw [hstart] at hbegin
      cases hbegin
      exact {
        next := hstart
        ordered := hordered.right
        exhausted := fun shorter hshorter =>
          hexhausted shorter (hordered.left.symm.trans hshorter) }
    | none =>
      rw [hstart] at hbegin
      simp only at hbegin
      split_ifs at hbegin with hexit
      apply ih hordered.right _ hbegin
      rintro shorter ⟨⟩ start hsome
      rw [hstart] at hsome
      cases hsome

theorem step_cases {state : Aggregator} {action : Action}
    (hvalid : forall progress, state.progress = some progress -> progress.Valid state.timespans) :
    ((step state action).timespans = state.timespans ∧
      forall progress, (step state action).progress = some progress ->
        progress.Valid state.timespans) ∨
    exists progress exitRequested, action = .iterate false exitRequested ∧
      state.progress = some progress ∧ progress.tables.hasRead progress.nextEndTime ∧
      (step state action).timespans = state.timespans ++ [progress.timespan] ∧
      forall after, (step state action).progress = some after ->
        after = { progress with nextStartTime := progress.nextEndTime } := by
  cases action with
  | update tables exitRequested =>
    left
    cases hprogress : state.progress with
    | some progress =>
      have hstep : step state (.update tables exitRequested) = state := by
        simp only [step, hprogress]
      rw [hstep]
      exact ⟨rfl, hvalid⟩
    | none =>
      simp only [step, hprogress]
      split_ifs with henabled
      · refine ⟨rfl, fun progress hbegin => ?_⟩
        apply beginTypes_valid durationTypes_ordered _ hbegin
        rintro shorter ⟨⟩
      · exact ⟨rfl, hvalid⟩
  | iterate raises exitRequested =>
    cases hprogress : state.progress with
    | none =>
      have hstep : step state (.iterate raises exitRequested) = state := by
        simp only [step, hprogress]
      rw [hstep]
      exact .inl ⟨rfl, hvalid⟩
    | some progress =>
      have hpresent := hvalid progress hprogress
      simp only [step, hprogress, iterate]
      split_ifs with hread hraises hexits hexits
      · exact .inl ⟨rfl, fun _ hnone => by cases hnone⟩
      · right
        refine ⟨progress, exitRequested, ?_, rfl, hread, rfl, fun _ hnone => by cases hnone⟩
        simp [hraises]
      · right
        refine ⟨progress, exitRequested, ?_, rfl, hread, rfl, fun _ hsome => ?_⟩
        · simp [hraises]
        · exact (Option.some.inj hsome).symm
      · exact .inl ⟨rfl, fun _ hnone => by cases hnone⟩
      · refine .inl ⟨rfl, fun after hbegin => ?_⟩
        apply beginTypes_valid hpresent.ordered _ hbegin
        rintro shorter ⟨⟩ start hstart
        rw [hpresent.next] at hstart
        cases hstart
        exact hread

theorem Progress.Valid.timespan_eq {timespans : List Timespan}
    (hvalid : progress.Valid timespans) {layout : Layout} (hrep : layout.Represents timespans) :
    exists i, progress.timespan = frameAt progress.durationType i ∧
      (layout.count progress.durationType ≠ 0 -> i = layout.next progress.durationType) ∧
      (layout.count progress.durationType = 0 -> exists alert,
        progress.tables.earliestAlert = some alert ∧
        i = progress.durationType.grid.index alert) := by
  rcases nextStart_index hrep hvalid.next with ⟨i, hstart, hstored, hempty⟩
  refine ⟨i, ?_, hstored, hempty⟩
  rw [timespan, nextEndTime, hstart, Duration.getEndTimeForStart_eq, frameAt]

theorem Progress.Valid.stored {timespans : List Timespan}
    (hvalid : progress.Valid timespans) {layout : Layout} (hrep : layout.Represents timespans) :
    Progress.Valid { progress with nextStartTime := progress.nextEndTime }
      (timespans ++ [progress.timespan]) := by
  rcases hvalid.timespan_eq hrep with ⟨i, htimespan, hstored, -⟩
  have hextend := represents_extend hrep hstored
  rw [← htimespan] at hextend
  constructor
  · show nextStart (timespans ++ [progress.timespan]) progress.tables
      progress.durationType = some progress.nextEndTime
    have hcount := layout.extend_count_ne_zero progress.durationType i
    have hend : progress.nextEndTime = progress.durationType.grid.start (i + 1) :=
      congrArg Timespan.endDate htimespan
    rw [nextStart_of_stored hextend progress.tables hcount, Layout.extend_next hstored, hend]
  · exact hvalid.ordered
  · intro shorter hshorter start hstart
    have hne : shorter ≠ progress.durationType := by
      rintro rfl
      cases hdur : progress.durationType <;> rw [hdur] at hshorter <;> cases hshorter
    apply hvalid.exhausted shorter hshorter start
    rw [← hstart, nextStart, nextStart, ofType_append_of_ne hne]

/-!
## Timespans tile the time axis

The next start is read from the database again in each update.  Since a timespan
is stored only at that start, and one whose computation raises is deleted again,
an update that is cut short anywhere leaves the stored timespans adjoining.
-/

def sortedByStart (timespans : List Timespan) : List Timespan :=
  timespans.mergeSort (fun first second => first.startDate ≤ second.startDate)

/-- Frames of a duration that follow each other without gap or overlap. -/
structure Tiling (durationType : Duration) (timespans : List Timespan) : Prop where
  frame : forall timespan, timespan ∈ timespans ->
    durationType.getTimeFrameStart timespan.startDate = timespan.startDate ∧
      timespan.startDate < timespan.endDate
  adjoining : (sortedByStart timespans).IsChain
    (fun earlier later => later.startDate = earlier.endDate)

/--
An iteration of the run has stored the timespan: its computation did not raise,
and it ended before the last line read.
-/
def StoredBy (actions : List Action) (timespan : Timespan) : Prop :=
  exists before after exitRequested progress,
    actions = before ++ .iterate false exitRequested :: after ∧
    (run step initial before).progress = some progress ∧
    progress.timespan = timespan ∧ progress.tables.hasRead timespan.endDate

theorem frames_pairwise (layout : Layout) (durationType : Duration) :
    (layout.frames durationType).Pairwise
      (fun first second => first.startDate ≤ second.startDate) := by
  unfold Layout.frames
  rw [pairwise_map]
  apply Pairwise.imp _ pairwise_lt_range
  intro k l hlt
  apply durationType.grid.start_le_start.mpr
  omega

theorem frames_isChain (layout : Layout) (durationType : Duration) :
    (layout.frames durationType).IsChain
      (fun earlier later => later.startDate = earlier.endDate) := by
  rw [isChain_iff_getElem]
  intro k hk
  simp only [Layout.frames, getElem_map, getElem_range, frameAt]
  congr 1
  push_cast
  omega

theorem tiling_frames (layout : Layout) (durationType : Duration) :
    Tiling durationType (layout.frames durationType) := by
  constructor
  · intro timespan hmem
    rcases Layout.mem_frames.mp hmem with ⟨i, -, -, rfl⟩
    constructor
    · rw [Duration.getTimeFrameStart_eq, frameAt, durationType.grid.index_start]
    · exact durationType.grid.start_lt_start.mpr (Int.lt_succ i)
  · unfold sortedByStart
    rw [mergeSort_of_pairwise]
    · exact frames_isChain layout durationType
    · apply Pairwise.imp _ (frames_pairwise layout durationType)
      intro first second hle
      exact decide_eq_true hle

/-- The database holds frames, and an update that is under way continues them. -/
structure Framed (state : Aggregator) : Prop where
  layout : exists layout : Layout, layout.Represents state.timespans
  progress : forall progress, state.progress = some progress ->
    progress.Valid state.timespans

theorem framed_initial : Framed initial := by
  constructor
  · exact ⟨Layout.empty, fun _ => rfl⟩
  · intro progress hnone
    cases hnone

theorem framed_step (state : Aggregator) (action : Action) (hframed : Framed state) :
    Framed (step state action) := by
  rcases @step_cases state action hframed.progress with
    ⟨hkept, hprogress⟩ | ⟨progress, exitRequested, rfl, hprogress, hread, hstore, hafter⟩
  · constructor
    · rw [hkept]
      exact hframed.layout
    · rw [hkept]
      exact hprogress
  · rcases hframed.layout with ⟨layout, hrep⟩
    have hvalid := hframed.progress progress hprogress
    rcases hvalid.timespan_eq hrep with ⟨i, htimespan, hnext, -⟩
    constructor
    · rw [hstore, htimespan]
      exact ⟨layout.extend progress.durationType i, represents_extend hrep hnext⟩
    · intro after hsome
      rw [hstore, hafter after hsome]
      exact hvalid.stored hrep

theorem framed_run (actions : List Action) : Framed (run step initial actions) :=
  invariant_of_step step framed_step framed_initial actions

theorem StoredBy.append {actions : List Action} {timespan : Timespan}
    (hstored : StoredBy actions timespan) (action : Action) :
    StoredBy (actions ++ [action]) timespan := by
  rcases hstored with ⟨before, after, exitRequested, progress, hactions, hrest⟩
  refine ⟨before, after ++ [action], exitRequested, progress, ?_, hrest⟩
  rw [hactions]
  simp

theorem storedBy_of_mem {actions : List Action} {timespan : Timespan}
    (hmem : timespan ∈ (run step initial actions).timespans) : StoredBy actions timespan := by
  induction actions using reverseRecOn with
  | nil => cases hmem
  | append_singleton before action ih =>
    rw [run_append] at hmem
    have hlast : timespan ∈ (step (run step initial before) action).timespans := hmem
    rcases @step_cases (run step initial before) action (framed_run before).progress with
      ⟨hkept, -⟩ | ⟨progress, exitRequested, rfl, hprogress, hread, hstore, -⟩
    · rw [hkept] at hlast
      exact (ih hlast).append action
    · rw [hstore] at hlast
      rcases mem_append.mp hlast with hold | hnew
      · exact (ih hold).append _
      · have heq := mem_singleton.mp hnew
        rw [heq]
        exact ⟨before, [], exitRequested, progress, rfl, hprogress, rfl, hread⟩

theorem step_raises (state : Aggregator) (exitRequested : Bool) :
    (step state (.iterate true exitRequested)).timespans = state.timespans := by
  cases hprogress : state.progress with
  | none => simp only [step, hprogress]
  | some progress =>
    simp only [step, hprogress, iterate]
    split_ifs <;> rfl

/--
After any run of updates, cut short or not, the timespans of each duration adjoin;
each was stored by a computation that did not raise, and ended before the last
line read at that moment.
-/
theorem updates_tile (actions : List Action) :
    (forall durationType,
      Tiling durationType (ofType (run step initial actions).timespans durationType)) ∧
    (forall timespan, timespan ∈ (run step initial actions).timespans ->
      StoredBy actions timespan) ∧
    forall exitRequested,
      (step (run step initial actions) (.iterate true exitRequested)).timespans =
        (run step initial actions).timespans := by
  refine ⟨?_, fun _ hmem => storedBy_of_mem hmem, step_raises _⟩
  intro durationType
  rcases (framed_run actions).layout with ⟨layout, hrep⟩
  rw [hrep durationType]
  exact tiling_frames layout durationType

end Icsw.LogAggregation
