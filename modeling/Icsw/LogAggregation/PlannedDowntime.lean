import Icsw.LogAggregation.WeightedStates

/-!
# Planned downtimes in an hour

Downtime entries keep their own dates when they are merged into the alerts of an hour, also where
these lie outside of it.  The walk over the merged list then charges time outside of the hour.
-/

namespace Icsw.LogAggregation

open Foundation List
open DatedList
open StatusHistory

variable {κ σ : Type} [IcingaState σ]

/-- Time before the hour that is charged to the state before it. -/
def frontOverhang (downtimeList : List (StartStopDuration κ)) (startTime : Int) : Int :=
  match downtimeList.head? with
  | none => 0
  | some downtime =>
    if inDowntime downtimeList startTime then 0 else max 0 (startTime - downtime.start)

/-- Time after the hour that is charged to the state after the downtime. -/
def backOverhang (downtime : StartStopDuration κ) (endTime : Int) : Int :=
  if downtime.endEntry = none then 0 else max 0 (downtime.stop - endTime)

def lastOverhang (downtimeList : List (StartStopDuration κ)) (endTime : Int) : Int :=
  match downtimeList.getLast? with
  | none => 0
  | some downtime => backOverhang downtime endTime

section Charges

variable [DecidableEq κ] [DecidableEq σ]

def overhangCharge (alerts : List (Entry σ)) (before : StateDescription σ)
    (downtimeList : List (StartStopDuration κ)) (startTime endTime : Int)
    (description : StateDescription σ) : Int :=
  (if before = description then frontOverhang downtimeList startTime else 0) +
    match downtimeList.getLast? with
    | none => 0
    | some downtime =>
      if resumedState alerts before downtime = description then
        backOverhang downtime endTime
      else 0

def accountedTime (alerts : List (Entry σ)) (before : StateDescription σ)
    (downtimeList : List (StartStopDuration κ)) (startTime endTime : Int)
    (description : StateDescription σ) : Int :=
  ticks startTime endTime
    (fun t => accountedState alerts before downtimeList t = description)

end Charges

theorem stateAt_default {α β : Type} (date : α -> Int) (value : α -> β)
    {items : List α} {item : α} {time : Int} (hmem : item ∈ items)
    (hle : date item ≤ time) (before before' : β) :
    stateAt date value before items time = stateAt date value before' items time := by
  rcases latest_max date hmem hle with ⟨last, hlast, _⟩
  simp [stateAt, hlast]

theorem timeIn_of_forall {σ : Type} [DecidableEq σ] {lo hi : Int} {items : List (Entry σ)}
    {default : StateDescription σ} {description state : StateDescription σ}
    (h : forall t, lo ≤ t -> t < hi ->
      stateAt Entry.date Entry.description default items t = state) :
    timeIn Entry.date Entry.description default items description lo hi =
      if state = description then max 0 (hi - lo) else 0 := by
  rcases le_total lo hi with hle | hle
  · rw [timeIn, ticks_congr (q := fun _ => state = description)]
    · rw [ticks_const lo hi _ hle]
      split <;> omega
    · intro t hlo hhi
      rw [h t hlo hhi]
  · rw [timeIn, ticks_of_le hle]
    split <;> omega

section Window

variable {now startTime endTime : Int} {downtimeList : List (StartStopDuration κ)}
  {alerts : List (Entry σ)} {before : StateDescription σ}

variable {first last : Entry σ}

section

variable (h : Preprocessed now startTime endTime downtimeList)
  (hlo : forall alert, alert ∈ alerts -> startTime ≤ alert.date)
include h hlo

theorem front_reach (hfirst : first ∈ mergeDowntimes alerts before downtimeList)
    (hmin : forall entry, entry ∈ mergeDowntimes alerts before downtimeList ->
      first.date ≤ entry.date) :
    max 0 (startTime - first.date) =
      match downtimeList.head? with
      | none => 0
      | some downtime => max 0 (startTime - downtime.start) := by
  cases downtimeList with
  | nil =>
    rcases mem_mergeDowntimes.mp hfirst with ⟨halert, _⟩ | ⟨downtime, hmem, _⟩
    · have := hlo first halert
      simp only [List.head?_nil]
      omega
    · cases hmem
  | cons downtime others =>
    have hstart : first.date ≤ (startEntryOf downtime : Entry σ).date :=
      hmin _ (startEntryOf_mem_mergeDowntimes alerts before mem_cons_self)
    have hstartDate : (startEntryOf downtime : Entry σ).date = downtime.start :=
      (h.each downtime mem_cons_self).start_date
    rw [hstartDate] at hstart
    simp only [List.head?_cons]
    rcases mem_mergeDowntimes.mp hfirst with ⟨halert, _⟩ | ⟨other, hmem, hin⟩
    · have := hlo first halert
      omega
    · have hge := start_le_date_of_mem_entriesOf (h.each other hmem) hin
      rcases mem_cons.mp hmem with heq | htail
      · rw [heq] at hge
        omega
      · have hpair := (pairwise_cons.mp h.ordered).left other htail
        rcases Option.ne_none_iff_exists'.mp hpair.left with ⟨stopEntry, hend⟩
        have hclosed := (h.each downtime mem_cons_self).closed stopEntry hend
        have := hpair.right
        omega

theorem frontOverhang_eq (hfirst : first ∈ mergeDowntimes alerts before downtimeList)
    (hmin : forall entry, entry ∈ mergeDowntimes alerts before downtimeList ->
      first.date ≤ entry.date) :
    frontOverhang downtimeList startTime =
      if inDowntime downtimeList startTime then 0 else max 0 (startTime - first.date) := by
  rw [front_reach h hlo hfirst hmin, frontOverhang]
  cases downtimeList.head? <;> simp

variable [DecidableEq σ]

theorem timeIn_front (hfirst : first ∈ mergeDowntimes alerts before downtimeList)
    (default description : StateDescription σ) :
    timeIn Entry.date Entry.description default
        (mergeDowntimes alerts before downtimeList) description first.date startTime =
      if plannedDownDescription σ = description then max 0 (startTime - first.date)
      else 0 := by
  apply timeIn_of_forall
  intro t hge hlt
  rw [stateAt_default Entry.date Entry.description hfirst hge default before,
    stateAt_mergeDowntimes alerts before t h]
  exact accountedState_front h hlo hfirst hge hlt

end

section

variable (h : Preprocessed now startTime endTime downtimeList)
  (hhi : forall alert, alert ∈ alerts -> alert.date ≤ endTime)
include h hhi

theorem after_hour
    {entry : Entry σ} (hentry : entry ∈ mergeDowntimes alerts before downtimeList)
    (hlate : endTime < entry.date) :
    exists downtime stopEntry, downtimeList.getLast? = some downtime ∧
      downtime.endEntry = some stopEntry ∧
        entry = endEntryOf alerts before downtime stopEntry := by
  rcases mem_mergeDowntimes.mp hentry with ⟨halert, _⟩ | ⟨downtime, hmem, hin⟩
  · have := hhi entry halert
    omega
  · have hspec := h.each downtime hmem
    rcases mem_entriesOf hin with hstart | ⟨stopEntry, hend, hstop⟩
    · have hdate : entry.date = downtime.start := by
        rw [hstart]
        exact hspec.start_date
      have := hspec.start_le
      omega
    · have hdate : entry.date = downtime.stop := by
        rw [hstop]
        exact (hspec.closed stopEntry hend).left
      rcases append_of_mem hmem with ⟨earlier, later, hsplit⟩
      cases later with
      | nil =>
        refine ⟨downtime, stopEntry, ?_, hend, hstop⟩
        rw [hsplit]
        simp
      | cons next rest =>
        -- a downtime with a successor is over before the hour is
        have hordered := h.ordered
        rw [hsplit] at hordered
        have hpair := (pairwise_cons.mp
          (pairwise_append.mp hordered).right.left).left next mem_cons_self
        have hnext := (h.each next (by simp [hsplit])).start_le
        have := hpair.right
        omega

theorem back_reach (hlast : last ∈ mergeDowntimes alerts before downtimeList)
    (hmax : forall entry, entry ∈ mergeDowntimes alerts before downtimeList ->
      entry.date ≤ last.date) :
    max 0 (last.date - endTime) = lastOverhang downtimeList endTime := by
  unfold lastOverhang
  by_cases hlate : endTime < last.date
  · rcases after_hour h hhi hlast hlate with ⟨downtime, stopEntry, hget, hend, heq⟩
    have hdate : last.date = downtime.stop := by
      rw [heq]
      exact ((h.each downtime (mem_of_getLast? hget)).closed stopEntry hend).left
    rw [hget, hdate]
    simp [backOverhang, hend]
  · cases hget : downtimeList.getLast? with
    | none =>
      simp only
      omega
    | some downtime =>
      have hmem := mem_of_getLast? hget
      simp only [backOverhang]
      split
      · omega
      · rename_i hclosed
        rcases Option.ne_none_iff_exists'.mp hclosed with ⟨stopEntry, hend⟩
        have hin : endEntryOf alerts before downtime stopEntry ∈
            mergeDowntimes alerts before downtimeList := by
          apply mem_mergeDowntimes.mpr
          refine Or.inr ⟨downtime, hmem, ?_⟩
          simp [entriesOf, hend]
        have hle := hmax _ hin
        have hdate : (endEntryOf alerts before downtime stopEntry).date = downtime.stop :=
          ((h.each downtime hmem).closed stopEntry hend).left
        omega

variable [DecidableEq σ]

theorem timeIn_back (hlast : last ∈ mergeDowntimes alerts before downtimeList)
    (default description : StateDescription σ) :
    timeIn Entry.date Entry.description default
        (mergeDowntimes alerts before downtimeList) description endTime last.date =
      if plannedDownDescription σ = description then max 0 (last.date - endTime)
      else 0 := by
  apply timeIn_of_forall
  intro t hge hlt
  rcases after_hour h hhi hlast (lt_of_le_of_lt hge hlt) with
    ⟨downtime, stopEntry, hget, hend, heq⟩
  have hmem := mem_of_getLast? hget
  have hspec := h.each downtime hmem
  have hstop : last.date = downtime.stop := by
    rw [heq]
    exact (hspec.closed stopEntry hend).left
  have hstart : (startEntryOf downtime : Entry σ).date ≤ t :=
    le_trans (le_of_eq hspec.start_date) (le_trans hspec.start_le hge)
  rw [stateAt_default Entry.date Entry.description
    (startEntryOf_mem_mergeDowntimes alerts before hmem) hstart default before,
    stateAt_mergeDowntimes alerts before t h]
  exact accountedState_back h hget hge (by omega)

theorem charge_back (hlast : last ∈ mergeDowntimes alerts before downtimeList)
    (hmax : forall entry, entry ∈ mergeDowntimes alerts before downtimeList ->
      entry.date ≤ last.date) (description : StateDescription σ) :
    (if last.description = description then max 0 (last.date - endTime) else 0) =
      match downtimeList.getLast? with
      | none => 0
      | some downtime =>
        if resumedState alerts before downtime = description then
          backOverhang downtime endTime
        else 0 := by
  have hreach := back_reach h hhi hlast hmax
  unfold lastOverhang at hreach
  by_cases hlate : endTime < last.date
  · rcases after_hour h hhi hlast hlate with ⟨downtime, stopEntry, hget, _, heq⟩
    have hstate : last.description = resumedState alerts before downtime := by
      rw [heq]
      rfl
    rw [hget] at hreach ⊢
    rw [hreach, hstate]
  · have hzero : max 0 (last.date - endTime) = 0 := by omega
    rw [hzero, ite_self]
    rw [hzero] at hreach
    cases hget : downtimeList.getLast? with
    | none => rfl
    | some downtime =>
      rw [hget] at hreach
      simp only at hreach ⊢
      rw [← hreach, ite_self]

end

variable [DecidableEq σ]

theorem timeIn_hour (alerts : List (Entry σ)) (before : StateDescription σ)
    (h : Preprocessed now startTime endTime downtimeList) (description : StateDescription σ) :
    timeIn Entry.date Entry.description
        (actualBefore before (inDowntime downtimeList startTime))
        (mergeDowntimes alerts before downtimeList) description startTime endTime =
      accountedTime alerts before downtimeList startTime endTime description := by
  apply ticks_congr
  intro t hlo _hhi
  rw [← stateAt_mergeDowntimes alerts before t h]
  cases hin : inDowntime downtimeList startTime with
  | false => rfl
  | true =>
    unfold inDowntime at hin
    rcases any_eq_true.mp hin with ⟨downtime, hmem, hcover⟩
    simp only [decide_eq_true_eq] at hcover
    have hdate : (startEntryOf downtime : Entry σ).date ≤ t := by
      have hstart : (startEntryOf downtime : Entry σ).date = downtime.start :=
        (h.each downtime hmem).start_date
      omega
    rw [stateAt_default Entry.date Entry.description
      (startEntryOf_mem_mergeDowntimes alerts before hmem) hdate _ before]

theorem walkTime_mergeDowntimes (before : StateDescription σ) (hle : startTime ≤ endTime)
    (h : Preprocessed now startTime endTime downtimeList)
    (hlo : forall alert, alert ∈ alerts -> startTime ≤ alert.date)
    (hhi : forall alert, alert ∈ alerts -> alert.date ≤ endTime)
    (description : StateDescription σ) :
    walkTime Entry.date Entry.description startTime endTime
        (actualBefore before (inDowntime downtimeList startTime)) description
        (mergeDowntimes alerts before downtimeList) =
      accountedTime alerts before downtimeList startTime endTime description -
        overhangCharge alerts before downtimeList startTime endTime description +
        if plannedDownDescription σ = description then
          frontOverhang downtimeList startTime + lastOverhang downtimeList endTime
        else 0 := by
  have hhour := timeIn_hour alerts before h description
  cases hmerge : mergeDowntimes alerts before downtimeList with
  | nil =>
    have hnil : downtimeList = [] := by
      cases downtimeList with
      | nil => rfl
      | cons downtime rest =>
        have hmem := startEntryOf_mem_mergeDowntimes alerts before
          (mem_cons_self (a := downtime) (l := rest))
        rw [hmerge] at hmem
        cases hmem
    rw [hmerge] at hhour
    rw [← hhour, walkTime_of_within Entry.date Entry.description startTime endTime _
      description List.Pairwise.nil hle (by simp) (by simp)]
    simp [overhangCharge, frontOverhang, lastOverhang, hnil]
  | cons first rest =>
    have hsorted := sorted_mergeDowntimes alerts before downtimeList
    have hfirst : first ∈ mergeDowntimes alerts before downtimeList := by
      rw [hmerge]
      exact mem_cons_self
    have hlast : (first :: rest).getLast (cons_ne_nil first rest) ∈
        mergeDowntimes alerts before downtimeList := by
      rw [hmerge]
      exact getLast_mem (cons_ne_nil first rest)
    have hmin : forall entry, entry ∈ mergeDowntimes alerts before downtimeList ->
        first.date ≤ entry.date := by
      rw [hmerge] at hsorted ⊢
      exact forall_mem_cons.mpr ⟨le_rfl, (pairwise_cons.mp hsorted).left⟩
    have hmax : forall entry, entry ∈ mergeDowntimes alerts before downtimeList ->
        entry.date ≤ ((first :: rest).getLast (cons_ne_nil first rest)).date := by
      rw [hmerge] at hsorted ⊢
      exact fun entry hentry => List.Pairwise.rel_getLast hsorted hentry
    have hfront := timeIn_front h hlo hfirst
      (actualBefore before (inDowntime downtimeList startTime)) description
    have hback := timeIn_back h hhi hlast
      (actualBefore before (inDowntime downtimeList startTime)) description
    rw [hmerge] at hhour hfront hback hsorted
    rw [walkTime_cons Entry.date Entry.description startTime endTime _ description
      hsorted hle rfl, hhour, hfront, hback, charge_back h hhi hlast hmax,
      back_reach h hhi hlast hmax, overhangCharge, frontOverhang_eq h hlo hfirst hmin]
    cases inDowntime downtimeList startTime with
    | true =>
      simp only [actualBefore, if_true]
      split <;> split <;> omega
    | false =>
      simp only [actualBefore, Bool.false_eq_true, if_false]
      split <;> split <;> omega

end Window

theorem overhangs_nonneg (downtimeList : List (StartStopDuration κ)) (startTime endTime : Int) :
    0 ≤ frontOverhang downtimeList startTime ∧ 0 ≤ lastOverhang downtimeList endTime := by
  unfold frontOverhang lastOverhang backOverhang
  constructor
  · split
    · omega
    · split <;> omega
  · split
    · omega
    · split <;> omega

theorem overhangCharge_le {σ : Type} [DecidableEq σ] (alerts : List (Entry σ))
    (before : StateDescription σ) (downtimeList : List (StartStopDuration κ)) (startTime endTime : Int)
    (description : StateDescription σ) :
    overhangCharge alerts before downtimeList startTime endTime description ≤
      frontOverhang downtimeList startTime + lastOverhang downtimeList endTime := by
  have hnonneg := overhangs_nonneg downtimeList startTime endTime
  unfold overhangCharge
  unfold lastOverhang at hnonneg ⊢
  cases hget : downtimeList.getLast? with
  | none =>
    simp only
    split <;> omega
  | some downtime =>
    rw [hget] at hnonneg
    simp only at hnonneg ⊢
    split <;> split <;> omega

variable [DecidableEq κ] [DecidableEq σ]

/--
The values of an hour are shares, between zero and one with sum one, exactly if
the time outside of the hour that is charged to a state does not exceed the time
which the state has in the hour.
-/
theorem weightedStates_distribution_iff {startTime endTime now : Int}
    (hlt : startTime < endTime) {alerts : List (Entry σ)} (hsorted : Sorted Entry.date alerts)
    (hlo : forall alert, alert ∈ alerts -> startTime ≤ alert.date)
    (hhi : forall alert, alert ∈ alerts -> alert.date ≤ endTime)
    (before : StateDescription σ) {rows : List (StartStopRow κ)}
    (hrows : Sorted StartStopRow.date rows) (key : κ) :
    (exists entries,
      addDowntimesToAlerts alerts (.pair before)
          (preprocessStartStopData now rows startTime endTime key) = .ok entries ∧
        IsDistribution (calcWeightedStates startTime endTime entries before
          (getDowntimeEntry (preprocessStartStopData now rows startTime endTime key)
            startTime).isSome).1) <->
      forall description, description ≠ plannedDownDescription σ ->
        overhangCharge alerts before
            (preprocessStartStopData now rows startTime endTime key)
            startTime endTime description ≤
          accountedTime alerts before
            (preprocessStartStopData now rows startTime endTime key)
            startTime endTime description := by
  have hspec := preprocessStartStopData_preprocessed now startTime endTime key hrows
  generalize preprocessStartStopData now rows startTime endTime key = downtimeList at hspec ⊢
  have hwalk := fun description => walkTime_mergeDowntimes before (le_of_lt hlt) hspec hlo
    hhi description
  rw [addDowntimesToAlerts_pair before downtimeList hsorted, isSome_getDowntimeEntry]
  constructor
  · rintro ⟨entries, hentries, hdist⟩ description hne
    cases hentries
    have hnonneg := (isDistribution_calcWeightedStates_iff hlt _ before _).mp hdist description
    rw [hwalk, if_neg (Ne.symm hne)] at hnonneg
    omega
  · intro hcharge
    refine ⟨_, rfl, ?_⟩
    apply (isDistribution_calcWeightedStates_iff hlt _ before _).mpr
    intro description
    rw [hwalk]
    by_cases hplanned : plannedDownDescription σ = description
    · -- what is charged to other states has been added to planned down
      have hle := overhangCharge_le alerts before downtimeList startTime endTime description
      have htime : 0 ≤ accountedTime alerts before downtimeList startTime endTime
          description := ticks_nonneg _ _ _
      rw [if_pos hplanned]
      omega
    · have := hcharge description (Ne.symm hplanned)
      rw [if_neg hplanned]
      omega

def downtimeEvents (start stop : Int) : List (StartStopRow Nat) :=
  [{ key := 0, date := start, startStop := .start, msg := [] },
   { key := 0, date := stop, startStop := .stop, msg := [] }]

theorem weightedStates_distribution_inside :
    exists entries,
      addDowntimesToAlerts [] (.pair (ServiceAlertState.ok, StateType.hard))
          (preprocessStartStopData 9000 (downtimeEvents 600 1800) 0 3600 0) =
          .ok entries ∧
        IsDistribution (calcWeightedStates 0 3600 entries
          (ServiceAlertState.ok, StateType.hard)
          (getDowntimeEntry (preprocessStartStopData 9000 (downtimeEvents 600 1800) 0 3600 0)
            0).isSome).1 := by
  apply (weightedStates_distribution_iff (by decide) List.Pairwise.nil (by simp) (by simp)
    (ServiceAlertState.ok, StateType.hard) (by unfold Sorted; decide) 0).mpr
  intro description _
  calc overhangCharge [] (ServiceAlertState.ok, StateType.hard)
        (preprocessStartStopData 9000 (downtimeEvents 600 1800) 0 3600 0) 0 3600 description
      ≤ frontOverhang
          (preprocessStartStopData 9000 (downtimeEvents 600 1800) 0 3600 0) 0 +
        lastOverhang
          (preprocessStartStopData 9000 (downtimeEvents 600 1800) 0 3600 0) 3600 :=
        overhangCharge_le _ _ _ _ _ _
    _ = 0 := by decide
    _ ≤ _ := ticks_nonneg _ _ _

/-- A downtime that spans the hour: the state after it gets a negative share. -/
theorem weightedStates_spanning_downtime :
    ¬ exists entries,
      addDowntimesToAlerts [] (.pair (ServiceAlertState.ok, StateType.hard))
          (preprocessStartStopData 9000 (downtimeEvents (-1800) 5400) 0 3600 0) =
          .ok entries ∧
        IsDistribution (calcWeightedStates 0 3600 entries
          (ServiceAlertState.ok, StateType.hard)
          (getDowntimeEntry
            (preprocessStartStopData 9000 (downtimeEvents (-1800) 5400) 0 3600 0)
            0).isSome).1 := by
  rintro ⟨entries, hentries, hdist⟩
  have hcomputed : entries =
      [{ date := -1800, state := ServiceAlertState.plannedDown,
         stateType := StateType.plannedDown, msg := [] },
       { date := 5400, state := ServiceAlertState.ok,
         stateType := StateType.hard, msg := [] }] :=
    (Except.ok.inj hentries).symm
  subst hcomputed
  have hnonneg := (isDistribution_calcWeightedStates_iff (by decide) _ _ _).mp hdist
    (ServiceAlertState.ok, StateType.hard)
  exact absurd hnonneg (by decide)

end Icsw.LogAggregation
