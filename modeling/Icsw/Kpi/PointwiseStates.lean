import Icsw.Kpi.CompoundTimeLine

/-!
# Pointwise best and worst states

Time lines with common ends are merged to the end, unless several of them end at the present,
and the merge is the pointwise best or worst of them.
-/

namespace Icsw.Kpi

open Foundation List
open DatedList
open StatusHistory

section Loop

variable {method : Text} {start stop futureDate : Int}

/-- A queue after the first one ends at the date that stands for exhausted queues. -/
structure Stuck (futureDate : Int) (queues : List Queue) : Prop where
  bounded : forall queue, queue ∈ queues -> forall entry, entry ∈ queue.1 ->
    entry.date ≤ futureDate
  behind : exists first rest queue last, queues = first :: rest ∧ queue ∈ rest ∧
    queue.1.getLast? = some last ∧ last.date = futureDate

variable {queues : List Queue}

theorem Stuck.nextDate_le (h : Stuck futureDate queues) {queue : Queue}
    (hqueue : queue ∈ queues) : nextDate futureDate queue ≤ futureDate := by
  unfold nextDate
  cases hhead : queue.1.head? with
  | none => exact le_refl _
  | some entry => exact h.bounded queue hqueue entry (mem_of_mem_head? hhead)

theorem Stuck.popNext (h : Stuck futureDate queues)
    {popped : TimeLineEntry × List Queue} (hpop : popNext futureDate queues = .ok popped) :
    Stuck futureDate popped.2 ∧
      (queues.map fun queue => queue.1.length).sum =
        (popped.2.map fun queue => queue.1.length).sum + 1 := by
  rcases h.behind with ⟨first, rest, behind, last, hqueues, hbehind, hlast, hdate⟩
  have hne : queues ≠ [] := by
    rw [hqueues]
    exact cons_ne_nil first rest
  rcases nextQueue_split futureDate hne with ⟨before, queue, after, hsplit, hindex, _, hbefore⟩
  rcases queue with ⟨entries, state⟩
  rw [hsplit] at hpop hindex
  cases entries with
  | nil =>
    rw [popNext_nil hindex] at hpop
    cases hpop
  | cons entry left =>
    rw [popNext_cons hindex] at hpop
    cases hpop
    refine ⟨⟨?_, ?_⟩, ?_⟩
    · intro other hother entry' hentry'
      rcases mem_append.mp hother with hmem | hmem
      · exact h.bounded other (hsplit ▸ mem_append_left _ hmem) entry' hentry'
      · rcases mem_cons.mp hmem with rfl | hafter
        · exact h.bounded (entry :: left, state)
            (hsplit ▸ mem_append_right _ mem_cons_self) entry'
            (mem_cons_of_mem _ hentry')
        · exact h.bounded other
            (hsplit ▸ mem_append_right _ (mem_cons_of_mem _ hafter)) entry' hentry'
    · cases before with
      | nil =>
        rw [hqueues] at hsplit
        have hrest : rest = after := (cons.inj hsplit).right
        exact ⟨(left, entry.state), after, behind, last, rfl, hrest ▸ hbehind, hlast, hdate⟩
      | cons first' before =>
        rw [hqueues] at hsplit
        rcases cons.inj hsplit with ⟨rfl, hrest⟩
        rw [hrest] at hbehind
        rcases mem_append.mp hbehind with hmem | hmem
        · exact ⟨first, _, behind, last, rfl, mem_append_left _ hmem, hlast, hdate⟩
        · rcases mem_cons.mp hmem with hsame | hafter
          · have hearly : entry.date < futureDate :=
              (hbefore first mem_cons_self).trans_le
                (h.nextDate_le (hqueues ▸ mem_cons_self))
            rw [hsame] at hlast
            cases left with
            | nil =>
              rw [← Option.some.inj hlast] at hdate
              exact absurd hdate hearly.ne
            | cons second left =>
              refine ⟨first, _, (second :: left, entry.state), last, rfl,
                mem_append_right _ mem_cons_self, ?_, hdate⟩
              rw [← hlast]
              exact getLast?_cons_cons.symm
          · exact ⟨first, _, behind, last, rfl,
              mem_append_right _ (mem_cons_of_mem _ hafter), hlast, hdate⟩
    · rw [hsplit]
      simp only [map_append, map_cons, sum_append, sum_cons,
        length_cons]
      omega

theorem mergeLoop_stuck {entries : Nat} {compound : List TimeLineEntry}
    (h : Stuck futureDate queues)
    (hentries : (queues.map fun queue => queue.1.length).sum ≤ entries)
    (result : List TimeLineEntry) :
    mergeLoop method futureDate entries queues compound ≠ .ok result := by
  induction entries generalizing queues compound with
  | zero =>
    rcases h.behind with ⟨first, rest, queue, last, rfl, hqueue, hlast, _⟩
    have hzero := List.sum_eq_zero_iff_forall_eq_nat.mp (Nat.le_zero.mp hentries)
      queue.1.length (mem_map_of_mem (mem_cons_of_mem first hqueue))
    rw [eq_nil_of_length_eq_zero hzero] at hlast
    cases hlast
  | succ entries ih =>
    have hsome : ¬ exhausted queues = true := by
      intro hnone
      rcases h.behind with ⟨first, rest, queue, last, rfl, hqueue, hlast, _⟩
      have hempty := all_eq_true.mp hnone queue (mem_cons_of_mem first hqueue)
      rw [isEmpty_iff.mp hempty] at hlast
      cases hlast
    rw [mergeLoop, if_neg hsome]
    cases hpop : popNext futureDate queues with
    | error error =>
      intro herror
      cases herror
    | ok popped =>
      rcases h.popNext hpop with ⟨hstuck, hsum⟩
      show (addToCompoundTl method _ _ _ compound >>= fun compound =>
        mergeLoop method futureDate entries _ compound) ≠ _
      cases hadd : addToCompoundTl method popped.1.date (popped.2.map Prod.snd)
          (exhausted popped.2) compound with
      | error error =>
        intro herror
        cases herror
      | ok compound' => exact ih hstuck (by omega)

end Loop

structure Spans (start stop : Int) (timeLine : List TimeLineEntry) : Prop where
  sorted : Sorted TimeLineEntry.date timeLine
  first : exists entry, timeLine.head? = some entry ∧ entry.date = start
  last : exists entry, timeLine.getLast? = some entry ∧ entry.date = stop

def stateInForce (timeLine : List TimeLineEntry) (instant : Int) : Option TimeLineState :=
  (latest TimeLineEntry.date timeLine instant).map TimeLineEntry.state

/-- At each instant the state is the best, respectively the worst, of those of the time lines. -/
structure Compound (method : Text) (start stop : Int) (timeLines : List (List TimeLineEntry))
    (compound : List TimeLineEntry) : Prop where
  spans : Spans start stop compound
  prevails : forall instant, start ≤ instant -> instant < stop ->
    exists state, stateInForce compound instant = some state ∧
      (exists timeLine, timeLine ∈ timeLines ∧ stateInForce timeLine instant = some state) ∧
      forall timeLine, timeLine ∈ timeLines -> exists other,
        stateInForce timeLine instant = some other ∧ Prevails method state other

/-- A time line of which nothing has been taken. -/
def Line.ofTimeLine (timeLine : List TimeLineEntry) : Line where
  popped := []
  left := timeLine
  first := (timeLine.head?.map TimeLineEntry.state).getD (.undetermined, .undetermined)

section Compound

variable {method : Text} {start stop now : Int} {timeLines : List (List TimeLineEntry)}

variable {timeLine : List TimeLineEntry}

theorem Spans.lineOk (h : Spans start stop timeLine) :
    LineOk start stop (Line.ofTimeLine timeLine) where
  sorted := h.sorted
  first := by
    rcases h.first with ⟨entry, hhead, hdate⟩
    rcases head?_eq_some_iff.mp hhead with ⟨rest, rfl⟩
    exact ⟨entry, rest, rfl, hdate, rfl⟩
  last := h.last

theorem datesDiffer_of_common {endOf : List TimeLineEntry -> Option TimeLineEntry} {date : Int}
    (h : forall timeLine, timeLine ∈ timeLines -> exists entry,
      endOf timeLine = some entry ∧ entry.date = date) :
    datesDiffer endOf timeLines = .ok false := by
  induction timeLines with
  | nil => rfl
  | cons first rest ih =>
    cases rest with
    | nil => rfl
    | cons second rest =>
      rcases h first mem_cons_self with ⟨entry, hentry, hdate⟩
      rcases h second (mem_cons_of_mem _ mem_cons_self) with
        ⟨entry', hentry', hdate'⟩
      rw [datesDiffer, hentry, hentry']
      show (if entry.date ≠ entry'.date then _ else _) = _
      rw [if_neg (not_not.mpr (hdate.trans hdate'.symm))]
      exact ih fun timeLine hmem => h timeLine (mem_cons_of_mem _ hmem)

theorem mapM_toQueue (h : forall timeLine, timeLine ∈ timeLines -> timeLine ≠ []) :
    timeLines.mapM toQueue = .ok ((timeLines.map Line.ofTimeLine).map Line.queue) := by
  induction timeLines with
  | nil => rfl
  | cons timeLine rest ih =>
    cases timeLine with
    | nil => exact absurd rfl (h [] mem_cons_self)
    | cons first others =>
      rw [mapM_cons, ih fun timeLine hmem => h timeLine (mem_cons_of_mem _ hmem)]
      rfl

theorem calculateCompoundTimeLine_eq (now : Int) (hmethod : method = best ∨ method = worst)
    (htimeLines : timeLines ≠ [])
    (hspans : forall timeLine, timeLine ∈ timeLines -> Spans start stop timeLine) :
    exists next, nextState method ((timeLines.map Line.ofTimeLine).map Line.current) = .ok next ∧
      calculateCompoundTimeLine method now timeLines =
        mergeLoop method now (entriesLeft (timeLines.map Line.ofTimeLine))
          ((timeLines.map Line.ofTimeLine).map Line.queue) [{ date := start, state := next }] := by
  have hqueues : timeLines.mapM toQueue =
      .ok ((timeLines.map Line.ofTimeLine).map Line.queue) := by
    apply mapM_toQueue
    rintro timeLine hmem rfl
    rcases (hspans [] hmem).first with ⟨_, hhead, _⟩
    cases hhead
  have hstates : (timeLines.map Line.ofTimeLine).map Line.current ≠ [] := by
    simpa using htimeLines
  rcases nextState_spec hmethod hstates with ⟨next, hnext, _, _⟩
  refine ⟨next, hnext, ?_⟩
  have hcurrent : ((timeLines.map Line.ofTimeLine).map Line.queue).map Prod.snd =
      (timeLines.map Line.ofTimeLine).map Line.current := map_map
  have hlengths : (timeLines.map length).sum =
      entriesLeft (timeLines.map Line.ofTimeLine) := by
    unfold entriesLeft
    rw [map_map]
    rfl
  unfold calculateCompoundTimeLine
  rw [datesDiffer_of_common fun timeLine hmem => (hspans timeLine hmem).first,
    datesDiffer_of_common fun timeLine hmem => (hspans timeLine hmem).last, hqueues, hlengths]
  cases timeLines with
  | nil => exact absurd rfl htimeLines
  | cons timeLine rest =>
    rcases (hspans timeLine mem_cons_self).first with ⟨entry, hhead, hdate⟩
    rcases head?_eq_some_iff.mp hhead with ⟨others, rfl⟩
    show (addToCompoundTl method entry.date _ false [] >>= fun compound => _) = _
    unfold addToCompoundTl
    rw [hcurrent, hnext, hdate]
    rfl

theorem merged_ofTimeLines {next : TimeLineState}
    (hspans : forall timeLine, timeLine ∈ timeLines -> Spans start stop timeLine)
    (hnext : nextState method ((timeLines.map Line.ofTimeLine).map Line.current) = .ok next) :
    Merged method start (timeLines.map Line.ofTimeLine) [{ date := start, state := next }] where
  apart := by
    intro line hline entry hentry
    rcases mem_map.mp hline with ⟨timeLine, _, rfl⟩
    cases hentry
  sorted := pairwise_singleton _ _
  first := ⟨_, [], rfl, rfl⟩
  bounded := by
    intro entry hentry line hline entry' hentry'
    rcases mem_map.mp hline with ⟨timeLine, hmem, rfl⟩
    rw [mem_singleton.mp hentry]
    exact (hspans timeLine hmem).lineOk.start_le hentry'
  last := ⟨_, rfl, hnext⟩
  agrees := by
    intro instant hinstant
    refine ⟨{ date := start, state := next }, ?_, ?_⟩
    · rw [latest, pick, if_pos hinstant]
      rfl
    · rw [← hnext]
      congr 1
      apply map_congr_left
      intro line hline
      rcases mem_map.mp hline with ⟨timeLine, _, rfl⟩
      rfl

theorem LineOk.stateAt_eq {line : Line} (h : LineOk start stop line) (hleft : line.left = [])
    {instant : Int} (hinstant : start ≤ instant) :
    stateInForce line.entries instant = some (line.stateAt instant) := by
  have hentries : line.entries = line.popped := by
    unfold Line.entries
    rw [hleft, append_nil]
  rcases h.first with ⟨first, rest, hsplit, hdate, _⟩
  have hfirst : first ∈ line.entries := hsplit ▸ mem_cons_self
  rcases latest_max TimeLineEntry.date hfirst (hdate ▸ hinstant) with ⟨last, hlast, _⟩
  unfold stateInForce Line.stateAt DatedList.stateAt
  rw [← hentries, hlast]
  rfl

theorem Merged.compound (hmethod : method = best ∨ method = worst) (htimeLines : timeLines ≠ [])
    {lines : List Line} {result : List TimeLineEntry} (h : Merged method start lines result)
    (hentries : lines.map Line.entries = timeLines)
    (hok : forall line, line ∈ lines -> LineOk start stop line ∧ line.left = [])
    (hlast : exists last, result.getLast? = some last ∧ last.date = stop) :
    Compound method start stop timeLines result := by
  subst hentries
  refine ⟨⟨h.sorted, ?_, hlast⟩, ?_⟩
  · rcases h.first with ⟨entry, rest, rfl, hdate⟩
    exact ⟨entry, rfl, hdate⟩
  · intro instant hstart _
    rcases h.agrees instant hstart with ⟨entry, hlatest, hstate⟩
    have hstates : lines.map (fun line => line.stateAt instant) ≠ [] := by
      simpa using htimeLines
    rcases nextState_spec hmethod hstates with ⟨state, hnext, hmem, hprevails⟩
    rw [hstate] at hnext
    rw [← Except.ok.inj hnext] at hmem hprevails
    refine ⟨entry.state, by rw [stateInForce, hlatest]; rfl, ?_, ?_⟩
    · rcases mem_map.mp hmem with ⟨line, hline, heq⟩
      refine ⟨line.entries, mem_map_of_mem hline, ?_⟩
      rw [(hok line hline).left.stateAt_eq (hok line hline).right hstart, heq]
    · intro timeLine htimeLine
      rcases mem_map.mp htimeLine with ⟨line, hline, rfl⟩
      exact ⟨line.stateAt instant,
        (hok line hline).left.stateAt_eq (hok line hline).right hstart, hprevails _ (mem_map_of_mem hline)⟩

/--
The merge of time lines that end no later than the present is their compound time line, unless
several of them end at the present.
-/
theorem calculateCompoundTimeLine_compound_iff (hmethod : method = best ∨ method = worst)
    (htimeLines : timeLines ≠ [])
    (hspans : forall timeLine, timeLine ∈ timeLines -> Spans start stop timeLine)
    (hnow : stop ≤ now) :
    (exists result, calculateCompoundTimeLine method now timeLines = .ok result ∧
      Compound method start stop timeLines result) <->
      stop < now ∨ timeLines.length = 1 := by
  rcases calculateCompoundTimeLine_eq now hmethod htimeLines hspans with
    ⟨next, hnext, heq⟩
  have hok : forall line, line ∈ timeLines.map Line.ofTimeLine -> LineOk start stop line := by
    intro line hline
    rcases mem_map.mp hline with ⟨timeLine, hmem, rfl⟩
    exact (hspans timeLine hmem).lineOk
  rw [heq]
  constructor
  · rintro ⟨result, hresult, _⟩
    by_contra hnot
    have hstop : stop = now := le_antisymm hnow (not_lt.mp fun hlt => hnot (Or.inl hlt))
    have hentries : (((timeLines.map Line.ofTimeLine).map Line.queue).map
        fun queue => queue.1.length).sum ≤ entriesLeft (timeLines.map Line.ofTimeLine) := by
      rw [map_map]
      exact le_refl _
    refine mergeLoop_stuck ⟨?_, ?_⟩ hentries result hresult
    · intro queue hqueue entry hentry
      rcases mem_map.mp hqueue with ⟨line, hline, rfl⟩
      exact hstop ▸ (hok line hline).le_stop (mem_append_right _ hentry)
    · cases timeLines with
      | nil => exact absurd rfl htimeLines
      | cons first rest =>
        cases rest with
        | nil => exact absurd (Or.inr rfl) hnot
        | cons second rest =>
          rcases (hspans second (mem_cons_of_mem _ mem_cons_self)).last with
            ⟨last, hlast, hdate⟩
          exact ⟨_, _, (Line.ofTimeLine second).queue, last, rfl, mem_cons_self, hlast,
            hdate.trans hstop⟩
  · intro hfuture
    have hleft : ¬ forall line, line ∈ timeLines.map Line.ofTimeLine -> line.left = [] := by
      intro hnone
      rcases exists_mem_of_ne_nil timeLines htimeLines with ⟨timeLine, hmem⟩
      have hempty := hnone _ (mem_map_of_mem hmem)
      rcases (hspans timeLine hmem).first with ⟨entry, hhead, _⟩
      rw [show timeLine = [] from hempty] at hhead
      cases hhead
    rcases mergeLoop_merged hmethod (by rwa [length_map]) hok
      (merged_ofTimeLines hspans hnext) (fun hnone => absurd hnone hleft) with
      ⟨result, lines, hresult, hentries, hlines, hmerged, hlast⟩
    refine ⟨result, hresult, hmerged.compound hmethod htimeLines ?_ hlines hlast⟩
    rw [hentries, map_map]
    exact map_id _

def hostLine : List TimeLineEntry :=
  [⟨0, .ok, .hard⟩, ⟨3, .critical, .soft⟩, ⟨10, .critical, .soft⟩]

def serviceLine : List TimeLineEntry :=
  [⟨0, .warning, .hard⟩, ⟨5, .ok, .hard⟩, ⟨10, .ok, .hard⟩]

theorem spans_hostLine_serviceLine
    (h : timeLine ∈ [hostLine, serviceLine]) : Spans 0 10 timeLine := by
  rcases mem_pair.mp h with rfl | rfl
  · exact ⟨by unfold Sorted hostLine; decide, ⟨_, rfl, rfl⟩, ⟨_, rfl, rfl⟩⟩
  · exact ⟨by unfold Sorted serviceLine; decide, ⟨_, rfl, rfl⟩, ⟨_, rfl, rfl⟩⟩

theorem calculateCompoundTimeLine_compound_worst :
    exists result, calculateCompoundTimeLine worst 11 [hostLine, serviceLine] = .ok result ∧
      Compound worst 0 10 [hostLine, serviceLine] result :=
  (calculateCompoundTimeLine_compound_iff (Or.inr rfl) (cons_ne_nil _ _)
    (fun _ => spans_hostLine_serviceLine) (by decide)).mpr (Or.inl (by decide))

/-- The same time lines end at the present: the exhausted first queue is picked. -/
theorem calculateCompoundTimeLine_ends_now :
    (forall timeLine, timeLine ∈ [hostLine, serviceLine] -> Spans 0 10 timeLine) ∧
      calculateCompoundTimeLine worst 10 [hostLine, serviceLine] = .error .indexError :=
  ⟨fun _ => spans_hostLine_serviceLine, rfl⟩

end Compound

end Icsw.Kpi
