import Icsw.LogAggregation.Timespans

/-!
# Sources of longer timespans

A timespan longer than an hour is computed from the stored timespans of the next shorter duration
that start in it.  A week that a month ends in ends after it, so the month may be stored first and
then lacks that week.
-/

namespace Icsw.LogAggregation

open Foundation List

def Timespan.Reads (longer shorter : Timespan) : Prop :=
  longer.durationType.getShorterDuration = some shorter.durationType ∧
    longer.startDate ≤ shorter.startDate ∧ shorter.startDate ≤ longer.endDate - second

instance (longer shorter : Timespan) : Decidable (longer.Reads shorter) :=
  inferInstanceAs (Decidable (_ ∧ _ ∧ _))

/-- No source of a timespan is skipped, and none is used twice. -/
structure SourcesRead (timespans : List Timespan) : Prop where
  stored_before : timespans.Pairwise (fun earlier later => ¬ earlier.Reads later)
  /-- From the first stored source on, every frame in the range is stored by then. -/
  none_missing : forall before longer after, timespans = before ++ longer :: after ->
    forall shorter, longer.durationType.getShorterDuration = some shorter ->
    forall first, first ∈ timespans -> first.durationType = shorter ->
    forall start, shorter.getTimeFrameStart start = start -> first.startDate ≤ start ->
      longer.startDate ≤ start -> start ≤ longer.endDate - second ->
      exists source, source ∈ before ∧ source.durationType = shorter ∧ source.startDate = start
  read_once : forall source, source ∈ timespans ->
    forall longer, longer ∈ timespans ->
      longer.durationType.getShorterDuration = some source.durationType ->
      source.startDate < longer.endDate ->
      timespans.countP (fun timespan => timespan.Reads source) = 1

/--
Where a duration has timespans, so has the next shorter one, and these neither
start before nor end before those of the longer one.
-/
def Layout.Covers (layout : Layout) : Prop :=
  forall longer shorter, Duration.getShorterDuration longer = some shorter ->
    layout.count longer ≠ 0 -> layout.count shorter ≠ 0 ∧
      longer.grid.start (layout.first longer) ≤ shorter.grid.start (layout.first shorter) ∧
      longer.grid.start (layout.next longer) ≤ shorter.grid.start (layout.next shorter)

theorem le_sub_second {first later : Duration} {i j : Int}
    (hlt : first.grid.start i < later.grid.start j) :
    first.grid.start i ≤ later.grid.start j - second := by
  rcases Duration.start_full_hour first i with ⟨n, hn⟩
  rcases Duration.start_full_hour later j with ⟨m, hm⟩
  rw [hn, hm] at hlt ⊢
  unfold Calendar.hourLength at hlt ⊢
  unfold second
  omega

theorem shorter_inj {first second shorter : Duration}
    (hfirst : first.getShorterDuration = some shorter)
    (hsecond : second.getShorterDuration = some shorter) : first = second := by
  cases first <;> cases hfirst <;> cases second <;> cases hsecond <;> rfl

variable {longer shorter : Duration}

section

variable (hshorter : longer.getShorterDuration = some shorter)
include hshorter

theorem shorter_ne : shorter ≠ longer := by
  rintro rfl
  cases shorter <;> cases hshorter

theorem frameAt_reads {i j : Int} :
    (frameAt longer i).Reads (frameAt shorter j) <->
      i = longer.grid.index (shorter.grid.start j) := by
  constructor
  · rintro ⟨-, hlower, hupper⟩
    symm
    apply longer.grid.index_eq hlower
    have hsecond : 0 < second := by decide
    show shorter.grid.start j < longer.grid.start (i + 1)
    exact lt_of_le_of_lt hupper (Int.sub_lt_self _ hsecond)
  · rintro rfl
    refine ⟨hshorter, longer.grid.start_index_le _, ?_⟩
    exact le_sub_second (longer.grid.lt_start_index_succ _)

theorem countP_reads_frames {layout : Layout} {j : Int}
    (hmem : frameAt longer (longer.grid.index (shorter.grid.start j)) ∈ layout.frames longer) :
    (layout.frames longer).countP (fun timespan => timespan.Reads (frameAt shorter j)) = 1 := by
  rw [← count_eq_one_of_mem (layout.frames_nodup longer) hmem, count]
  apply countP_congr
  intro timespan htimespan
  rcases Layout.mem_frames.mp htimespan with ⟨i, -, -, rfl⟩
  rw [decide_eq_true_iff, frameAt_reads hshorter, beq_iff_eq]
  exact (frameAt_injective longer).eq_iff.symm

end

variable {durationType : Duration}

theorem Layout.Covers.extend {layout : Layout} (hcovers : layout.Covers) {i : Int}
    (hnext : layout.count durationType ≠ 0 -> i = layout.next durationType)
    (hreach : forall shorter, durationType.getShorterDuration = some shorter ->
      layout.count shorter ≠ 0 ∧
        durationType.grid.start (i + 1) ≤ shorter.grid.start (layout.next shorter))
    (hbegin : forall shorter, durationType.getShorterDuration = some shorter ->
      layout.count durationType = 0 ->
        durationType.grid.start i ≤ shorter.grid.start (layout.first shorter)) :
    (layout.extend durationType i).Covers := by
  intro longer shorter hshorter hlonger
  by_cases hsame : longer = durationType
  · subst hsame
    have hne := shorter_ne hshorter
    rw [Layout.extend_first_of_ne i hne, Layout.extend_count_of_ne i hne,
      Layout.extend_next_of_ne i hne, Layout.extend_next hnext]
    refine ⟨(hreach shorter hshorter).left, ?_, (hreach shorter hshorter).right⟩
    by_cases hempty : layout.count longer = 0
    · rw [Layout.extend_first_of_empty i hempty]
      exact hbegin shorter hshorter hempty
    · rw [Layout.extend_first_of_stored i hempty]
      exact (hcovers longer shorter hshorter hempty).right.left
  · rw [Layout.extend_count_of_ne i hsame] at hlonger
    have hcover := hcovers longer shorter hshorter hlonger
    rw [Layout.extend_first_of_ne i hsame, Layout.extend_next_of_ne i hsame]
    by_cases hsource : shorter = durationType
    · subst hsource
      rw [Layout.extend_next hnext, Layout.extend_first_of_stored i hcover.left]
      refine ⟨layout.extend_count_ne_zero shorter i, hcover.right.left, ?_⟩
      apply le_trans hcover.right.right
      have hi := hnext hcover.left
      exact shorter.grid.start_le_start.mpr (by omega)
    · rw [Layout.extend_first_of_ne i hsource, Layout.extend_count_of_ne i hsource,
        Layout.extend_next_of_ne i hsource]
      exact hcover

section Covered

variable {layout : Layout} {timespans : List Timespan} (hrep : layout.Represents timespans)
  (hcovers : layout.Covers)

include hrep hcovers

theorem end_le_next {longer : Timespan} (hmem : longer ∈ timespans) {shorter : Duration}
    (hshorter : longer.durationType.getShorterDuration = some shorter) :
    layout.count shorter ≠ 0 ∧ longer.endDate ≤ shorter.grid.start (layout.next shorter) := by
  rcases (mem_iff_frame hrep).mp hmem with ⟨i, hlower, hupper, heq⟩
  have hcount : layout.count longer.durationType ≠ 0 := by
    intro hzero
    rw [Layout.next, hzero] at hupper
    omega
  have hcover := hcovers longer.durationType shorter hshorter hcount
  have hend : longer.endDate = longer.durationType.grid.start (i + 1) :=
    congrArg Timespan.endDate heq
  refine ⟨hcover.left, ?_⟩
  rw [hend]
  exact le_trans (longer.durationType.grid.start_le_start.mpr (by omega)) hcover.right.right

theorem not_reads_next {longer : Timespan} (hmem : longer ∈ timespans)
    {i : Int} (hnext : layout.count durationType ≠ 0 -> i = layout.next durationType) :
    ¬ longer.Reads (frameAt durationType i) := by
  rintro ⟨hshorter, hlower, hupper⟩
  have hend := end_le_next hrep hcovers hmem hshorter
  have hi := hnext hend.left
  have hsecond : 0 < second := by decide
  have hle : durationType.grid.start i ≤ longer.endDate - second := hupper
  have hlast : longer.endDate ≤ durationType.grid.start i := hi ▸ hend.right
  omega

theorem source_stored {longer : Timespan} (hmem : longer ∈ timespans) {shorter : Duration}
    (hshorter : longer.durationType.getShorterDuration = some shorter) {first : Timespan}
    (hfirst : first ∈ timespans) (htype : first.durationType = shorter) {j : Int}
    (hstart : first.startDate ≤ shorter.grid.start j)
    (hend : shorter.grid.start j < longer.endDate) : frameAt shorter j ∈ timespans := by
  rcases (mem_iff_frame hrep).mp hfirst with ⟨i, hlower, -, heq⟩
  rw [htype] at hlower heq
  have hdate : first.startDate = shorter.grid.start i := congrArg Timespan.startDate heq
  rw [hdate] at hstart
  have hfrom := shorter.grid.start_le_start.mp hstart
  have hlast := (end_le_next hrep hcovers hmem hshorter).right
  have hto := shorter.grid.start_lt_start.mp (lt_of_lt_of_le hend hlast)
  exact (frameAt_mem hrep).mpr ⟨by omega, hto⟩

theorem source_read_once {source longer : Timespan} (hsource : source ∈ timespans)
    (hlonger : longer ∈ timespans)
    (hshorter : longer.durationType.getShorterDuration = some source.durationType)
    (hpassed : source.startDate < longer.endDate) :
    timespans.countP (fun timespan => timespan.Reads source) = 1 := by
  rcases (mem_iff_frame hrep).mp hsource with ⟨j, hj, -, heq⟩
  rcases (mem_iff_frame hrep).mp hlonger with ⟨i, hi, hinext, hieq⟩
  have hcount : layout.count longer.durationType ≠ 0 := by
    intro hzero
    rw [Layout.next, hzero] at hinext
    omega
  have hcover := hcovers _ _ hshorter hcount
  have hdate : source.startDate = source.durationType.grid.start j :=
    congrArg Timespan.startDate heq
  have hend : longer.endDate = longer.durationType.grid.start (i + 1) :=
    congrArg Timespan.endDate hieq
  -- The frame of the longer duration that the source starts in is one of the stored.
  have hlower : layout.first longer.durationType ≤
      longer.durationType.grid.index source.startDate := by
    apply longer.durationType.grid.start_le_iff.mp
    rw [hdate]
    exact le_trans hcover.right.left (source.durationType.grid.start_le_start.mpr hj)
  have hupper : longer.durationType.grid.index source.startDate <
      layout.next longer.durationType := by
    rw [hend] at hpassed
    have hindex := longer.durationType.grid.lt_start_iff.mp hpassed
    omega
  have hmem := Layout.mem_frames.mpr ⟨_, hlower, hupper, rfl⟩
  rw [hdate] at hmem
  have honce := countP_reads_frames hshorter hmem
  rw [← hrep, ofType, countP_filter, ← heq] at honce
  rw [← honce]
  apply countP_congr
  intro timespan _
  simp only [decide_eq_true_eq, Bool.and_eq_true]
  constructor
  · intro hreads
    exact ⟨hreads, shorter_inj hreads.left hshorter⟩
  · exact And.left

theorem sourcesRead_of_covers
    (hbefore : timespans.Pairwise (fun earlier later => ¬ earlier.Reads later)) :
    SourcesRead timespans := by
  constructor
  · exact hbefore
  · intro before longer after hsplit shorter hshorter first hfirst htype start hframe hfrom
      hlower hupper
    have hmem : longer ∈ timespans := by simp [hsplit]
    have hsecond : 0 < second := by decide
    rw [Duration.getTimeFrameStart_eq] at hframe
    rw [← hframe] at hfrom hlower hupper
    have hstored := source_stored hrep hcovers hmem hshorter hfirst htype hfrom (by omega)
    refine ⟨frameAt shorter (shorter.grid.index start), ?_, rfl, hframe⟩
    -- It is among the earlier ones, since a later one would not be read.
    rw [hsplit] at hstored hbefore
    rcases mem_append.mp hstored with hin | hin
    · exact hin
    · rcases mem_cons.mp hin with hsame | hlater
      · exact absurd (congrArg Timespan.durationType hsame) (shorter_ne hshorter)
      · have hpair := (pairwise_append.mp hbefore).right.left
        exact absurd ⟨hshorter, hlower, hupper⟩ (rel_of_pairwise_cons hpair hlater)
  · intro source hsource longer hlonger hshorter hpassed
    exact source_read_once hrep hcovers hsource hlonger hshorter hpassed

end Covered

/--
A month is stored only when the week of its last second ended before the last line read.  The first
timespan of a duration does not start after a shorter one.
-/
def SourcesReady (state : Aggregator) : Action -> Prop
  | .update _ _ => True
  | .iterate raises _ =>
    forall progress, state.progress = some progress ->
      progress.tables.hasRead progress.nextEndTime -> raises = false ->
      (progress.durationType = .month ->
        progress.tables.hasRead (Duration.Week.getEndTimeForStart
          (Duration.Week.getTimeFrameStart (progress.nextEndTime - second)))) ∧
      (ofType state.timespans progress.durationType = [] ->
        forall source, source ∈ state.timespans ->
          progress.durationType.getShorterDuration = some source.durationType ->
          progress.nextStartTime ≤ source.startDate)

instance (state : Aggregator) (action : Action) : Decidable (SourcesReady state action) :=
  match action with
  | .update _ _ => isTrue trivial
  | .iterate _ _ => Option.decidableForallMem state.progress

variable {tables : Tables}

theorem Exhausted.start_le {timespans : List Timespan}
    (hexhausted : Exhausted timespans tables durationType) {m j : Int}
    (hnext : nextStart timespans tables durationType = some (durationType.grid.start m))
    (hread : tables.hasRead (durationType.grid.start j)) :
    durationType.grid.start j ≤ durationType.grid.start m := by
  rcases hread with ⟨timestamp, htimestamp, hbefore⟩
  have hopen := hexhausted _ hnext
  rw [Duration.getEndTimeForStart_eq] at hopen
  apply durationType.grid.start_le_of_lt_limit hbefore
  by_contra hlt
  exact hopen ⟨timestamp, htimestamp, by omega⟩

theorem week_end (t : Int) :
    Duration.Week.getEndTimeForStart (Duration.Week.getTimeFrameStart t) =
      (Duration.grid .week).next t := by
  rw [Duration.week_getTimeFrameStart]
  exact Duration.getEndTimeForStart_eq .week _

theorem exists_shorter_end {i : Int} (hshorter : longer.getShorterDuration = some shorter)
    (hread : tables.hasRead (longer.grid.start i))
    (hmonth : longer = .month -> tables.hasRead (Duration.Week.getEndTimeForStart
      (Duration.Week.getTimeFrameStart (longer.grid.start i - second)))) :
    exists j, longer.grid.start i ≤ shorter.grid.start j ∧
      tables.hasRead (shorter.grid.start j) := by
  by_cases hlonger : longer = .month
  · subst hlonger
    cases hshorter
    have hweek := hmonth rfl
    rw [week_end] at hweek
    refine ⟨_, ?_, hweek⟩
    have hlt := (Duration.grid .week).lt_start_index_succ
      ((Duration.grid .month).start i - second)
    by_contra hnot
    have hle := le_sub_second (not_le.mp hnot)
    omega
  · rcases Duration.shorter_refines hshorter hlonger i with ⟨j, hj⟩
    exact ⟨j, le_of_eq hj, hj ▸ hread⟩

theorem nextStart_shorter {timespans : List Timespan} {layout : Layout}
    {start : Int} (hrep : layout.Represents timespans)
    (hcovers : layout.Covers) (hshorter : longer.getShorterDuration = some shorter)
    (hstart : nextStart timespans tables longer = some start) :
    exists other, nextStart timespans tables shorter = some other := by
  by_cases hempty : layout.count shorter = 0
  · have hlonger : layout.count longer = 0 := by
      by_contra hstored
      exact (hcovers longer shorter hshorter hstored).left hempty
    rw [nextStart_of_empty hrep tables hlonger, Option.map_eq_some_iff] at hstart
    rcases hstart with ⟨alert, halert, -⟩
    exact ⟨_, by rw [nextStart_of_empty hrep tables hempty, halert]; rfl⟩
  · exact ⟨_, nextStart_of_stored hrep tables hempty⟩

theorem sources_reach_end {timespans : List Timespan} {layout : Layout} {progress : Progress}
    {i : Int} (hrep : layout.Represents timespans) (hcovers : layout.Covers)
    (hvalid : progress.Valid timespans)
    (htimespan : progress.timespan = frameAt progress.durationType i)
    (hempty : layout.count progress.durationType = 0 -> exists alert,
      progress.tables.earliestAlert = some alert ∧ i = progress.durationType.grid.index alert)
    (hread : progress.tables.hasRead progress.nextEndTime)
    (hmonth : progress.durationType = .month ->
      progress.tables.hasRead (Duration.Week.getEndTimeForStart
        (Duration.Week.getTimeFrameStart (progress.nextEndTime - second)))) {shorter : Duration}
    (hshorter : progress.durationType.getShorterDuration = some shorter) :
    layout.count shorter ≠ 0 ∧
      progress.durationType.grid.start (i + 1) ≤ shorter.grid.start (layout.next shorter) := by
  have hend : progress.nextEndTime = progress.durationType.grid.start (i + 1) :=
    congrArg Timespan.endDate htimespan
  rw [hend] at hread hmonth
  rcases exists_shorter_end hshorter hread hmonth with ⟨j, hreach, hjread⟩
  rcases nextStart_shorter hrep hcovers hshorter hvalid.next with ⟨other, hother⟩
  rcases nextStart_index hrep hother with ⟨m, rfl, hmstored, hmempty⟩
  have hpast := (hvalid.exhausted shorter hshorter).start_le hother hjread
  have hcount : layout.count shorter ≠ 0 := by
    intro hnone
    -- Then both durations begin with the first alert, which lies before the end.
    have hlonger : layout.count progress.durationType = 0 := by
      by_contra hsome
      exact (hcovers _ shorter hshorter hsome).left hnone
    rcases hmempty hnone with ⟨alert, halert, rfl⟩
    rcases hempty hlonger with ⟨same, hsame, rfl⟩
    rw [halert] at hsame
    cases hsame
    have hafter := progress.durationType.grid.lt_start_index_succ alert
    have hbefore := shorter.grid.start_index_le alert
    omega
  rw [← hmstored hcount]
  exact ⟨hcount, le_trans hreach hpast⟩

/-- What every timely step keeps. -/
structure Covered (state : Aggregator) : Prop where
  layout : exists layout : Layout, layout.Represents state.timespans ∧ layout.Covers
  stored_before : state.timespans.Pairwise (fun earlier later => ¬ earlier.Reads later)
  progress : forall progress, state.progress = some progress ->
    progress.Valid state.timespans

theorem covered_initial : Covered initial := by
  constructor
  · refine ⟨Layout.empty, fun _ => rfl, ?_⟩
    intro longer shorter hshorter hstored
    exact absurd rfl hstored
  · exact Pairwise.nil
  · rintro progress ⟨⟩

theorem covered_step {state : Aggregator} {action : Action} (hcovered : Covered state)
    (hready : SourcesReady state action) : Covered (step state action) := by
  rcases @step_cases state action hcovered.progress with
    ⟨hkept, hprogress⟩ | ⟨progress, exitRequested, rfl, hprogress, hread, hstore, hafter⟩
  · constructor
    · rw [hkept]
      exact hcovered.layout
    · rw [hkept]
      exact hcovered.stored_before
    · rw [hkept]
      exact hprogress
  · rcases hcovered.layout with ⟨layout, hrep, hcovers⟩
    have hvalid := hcovered.progress progress hprogress
    rcases hready progress hprogress hread rfl with ⟨hmonth, hbegin⟩
    rcases hvalid.timespan_eq hrep with ⟨i, htimespan, hnext, hempty⟩
    have hreach := fun (shorter : Duration)
        (hshorter : progress.durationType.getShorterDuration = some shorter) =>
      sources_reach_end hrep hcovers hvalid htimespan hempty hread hmonth hshorter
    constructor
    · rw [hstore, htimespan]
      refine ⟨layout.extend progress.durationType i, represents_extend hrep hnext,
        hcovers.extend hnext hreach ?_⟩
      intro shorter hshorter hnone
      have htypes : ofType state.timespans progress.durationType = [] := by
        rw [hrep, Layout.frames, hnone]
        rfl
      have hfirst : frameAt shorter (layout.first shorter) ∈ state.timespans := by
        have hcount := (hreach shorter hshorter).left
        rw [frameAt_mem hrep, Layout.next]
        omega
      have hstart : progress.nextStartTime = progress.durationType.grid.start i :=
        congrArg Timespan.startDate htimespan
      rw [← hstart]
      exact hbegin htypes _ hfirst hshorter
    · rw [hstore, pairwise_append]
      refine ⟨hcovered.stored_before, pairwise_singleton _ _, ?_⟩
      rintro longer hmem _ hlast
      rw [mem_singleton.mp hlast, htimespan]
      exact not_reads_next hrep hcovers hmem hnext
    · intro after hsome
      rw [hstore, hafter after hsome]
      exact hvalid.stored hrep

/--
In a run that stores months only after their last week and begins no duration
late, no source is skipped: this holds after each of its steps.
-/
theorem timely_runs_read_sources (taken rest : List Action)
    (hready : Along step SourcesReady initial (taken ++ rest)) :
    SourcesRead (run step initial taken).timespans := by
  have hcovered := invariant_reached step (fun _ _ => covered_step) covered_initial hready
  rcases hcovered.layout with ⟨layout, hrep, hcovers⟩
  exact sourcesRead_of_covers hrep hcovers hcovered.stored_before

/-- Hosts and services have their first alert at this second. -/
def alertsFrom (timestamp lastRead : Int) : Tables where
  enableIcingaLogParsing := true
  sqlite := false
  hostAlerts := [timestamp * second]
  serviceAlerts := [timestamp * second]
  lastRead := some lastRead

/-- An update with as many iterations as it takes, and none that fails. -/
def fullUpdate (tables : Tables) (iterations : Nat) : List Action :=
  .update tables false :: replicate iterations (.iterate false false)

/--
Alerts from 20:00 on Sunday, 31 August 2014, read until 2:00 of the next day: the
month ends with its last week.
-/
def augustRun : List Action := fullUpdate (alertsFrom 1409515200 1409536800) 15

theorem timely_runs_read_sources_august :
    Along step SourcesReady initial augustRun ∧
      (run step initial augustRun).timespans.map Timespan.durationType =
        [.hour, .hour, .hour, .hour, .hour, .day, .week, .month] ∧
      SourcesRead (run step initial augustRun).timespans := by
  have hready : Along step SourcesReady initial augustRun := by decide +kernel
  refine ⟨hready, by decide +kernel, ?_⟩
  exact timely_runs_read_sources augustRun [] (by rw [append_nil]; exact hready)

/-- The times of the last line read that the updates find. -/
def lastReads (actions : List Action) : List Int :=
  actions.filterMap (fun action =>
    match action with
    | .update tables _ => tables.lastRead
    | .iterate _ _ => none)

/--
Alerts from 22:00 on Friday, 31 January 2014.  The first update stores January with lines until
2:00 of Saturday; the second stores the week from 27 January.
-/
def januaryRuns : List Action :=
  fullUpdate (alertsFrom 1391205600 1391220000) 15 ++
    fullUpdate (alertsFrom 1391205600 1391389200) 60

/-- The week starts in January and is stored after it. -/
theorem january_lacks_week :
    (lastReads januaryRuns).Pairwise (fun earlier later => earlier ≤ later) ∧
      ¬ SourcesRead (run step initial januaryRuns).timespans := by
  constructor
  · decide
  · intro hread
    exact absurd hread.stored_before (by decide +kernel)

end Icsw.LogAggregation
