import Icsw.Kpi.LatestState

set_option linter.unusedSectionVars false

/-!
# The right state at every instant

A key is planned down in a downtime, and otherwise in the state of its latest alert..  The merged
alert list follows that rule exactly if no downtime hides an alert with another state, no alert is
found after an open downtime, and no shutdown is lost.
-/

namespace Icsw.Kpi

open Foundation List
open DatedList
open StatusHistory

variable {κ σ : Type} [DecidableEq κ] [DecidableEq σ] [IcingaState σ]

/-- The instant lies in a downtime; an open one has no end. -/
def Covered (downtimeList : List (StartStopDuration κ)) (time : Int) : Prop :=
  exists downtime, downtime ∈ downtimeList ∧ downtime.start ≤ time ∧
    (downtime.endEntry = none ∨ time < downtime.stop)

def RightState (table : AlertTable κ σ) (key : κ)
    (downtimeList : List (StartStopDuration κ)) (time : Int)
    (description : StateDescription σ) : Prop :=
  (Covered downtimeList time ∧ description = plannedDownDescription σ) ∨
    (¬ Covered downtimeList time ∧ LatestState table key time description)

section Instants

variable {now start stop time : Int} {downtimeList : List (StartStopDuration κ)}
  {downtime : StartStopDuration κ}

theorem not_covered_of_none (h : lastStarted downtimeList time = none) :
    ¬ Covered downtimeList time := by
  rintro ⟨other, hmem, hstart, _⟩
  exact absurd hstart (not_le.mpr (lastStarted_eq_none_iff.mp h other hmem))

theorem not_covered_of_ended (h : Preprocessed now start stop downtimeList)
    (hlast : lastStarted downtimeList time = some downtime)
    (hclosed : downtime.endEntry ≠ none) (hend : downtime.stop ≤ time) :
    ¬ Covered downtimeList time := by
  rcases lastStarted_eq_some hlast with ⟨hstarted, earlier, later, hsplit, hlater⟩
  rintro ⟨other, hmem, hstart, hopen⟩
  rw [hsplit] at hmem
  have hordered := h.ordered
  rw [hsplit] at hordered
  rcases mem_append.mp hmem with hearlier | hrest
  · have hpair := (pairwise_append.mp hordered).right.right other hearlier downtime
      mem_cons_self
    rcases hopen with hnone | hlt
    · exact hpair.left hnone
    · exact absurd (lt_of_lt_of_le hlt (le_trans hpair.right hstarted)) (lt_irrefl time)
  · rcases mem_cons.mp hrest with heq | htail
    · rw [heq] at hopen
      rcases hopen with hnone | hlt
      · exact hclosed hnone
      · exact absurd hend (not_le.mpr hlt)
    · exact absurd hstart (not_le.mpr (hlater other htail))

section

variable (hlast : lastStarted downtimeList time = some downtime)
include hlast

theorem covered_of_lastStarted (hended : ¬ (downtime.endEntry ≠ none ∧ downtime.stop ≤ time)) :
    Covered downtimeList time := by
  rcases lastStarted_eq_some hlast with ⟨hstarted, earlier, later, hsplit, _⟩
  refine ⟨downtime, by simp [hsplit], hstarted, ?_⟩
  by_cases hnone : downtime.endEntry = none
  · exact Or.inl hnone
  · exact Or.inr (not_le.mp (fun hle => hended ⟨hnone, hle⟩))

theorem mem_of_lastStarted :
    downtime ∈ downtimeList := by
  rcases lastStarted_eq_some hlast with ⟨_, earlier, later, hsplit, _⟩
  simp [hsplit]

theorem lastStarted_at_stop (hle : downtime.start ≤ downtime.stop) (hend : downtime.stop ≤ time) :
    lastStarted downtimeList downtime.stop = some downtime := by
  rcases lastStarted_eq_some hlast with ⟨_, earlier, later, hsplit, hlater⟩
  unfold lastStarted
  rw [hsplit, reverse_append, reverse_cons, append_assoc]
  rw [find?_append]
  have hnone : later.reverse.find? (fun other => decide (other.start ≤ downtime.stop)) =
      none := by
    apply find?_eq_none.mpr
    intro other hmem
    have hstart := hlater other (mem_reverse.mp hmem)
    simpa using lt_of_le_of_lt hend hstart
  rw [hnone]
  simp [hle]

end

theorem lastStarted_of_open (h : Preprocessed now start stop downtimeList)
    (hmem : downtime ∈ downtimeList) (hopen : downtime.endEntry = none)
    (hstart : downtime.start ≤ time) : lastStarted downtimeList time = some downtime := by
  rcases append_of_mem hmem with ⟨earlier, later, hsplit⟩
  have hordered := h.ordered
  rw [hsplit] at hordered
  cases later with
  | nil =>
    unfold lastStarted
    rw [hsplit]
    simp [hstart]
  | cons next rest =>
    have hpair := (pairwise_cons.mp
      (pairwise_append.mp hordered).right.left).left next mem_cons_self
    exact absurd hopen hpair.left

end Instants

/-- What it takes for a key to be in the right state throughout a range. -/
structure StatesKept (table : AlertTable κ σ) (alerts : List (Entry σ))
    (before : StateDescription σ) (downtimeList : List (StartStopDuration κ))
    (start stop : Int) (key : κ) : Prop where
  resumed : forall downtime, downtime ∈ downtimeList -> downtime.endEntry ≠ none ->
    downtime.stop < stop -> lastStarted downtimeList downtime.stop = some downtime ->
    LatestState table key downtime.stop (resumedState alerts before downtime)
  opened : forall downtime, downtime ∈ downtimeList -> downtime.endEntry = none ->
    forall alert, alert ∈ alerts ->
      ¬ (downtime.start < alert.date ∧ downtime.stop ≤ alert.date ∧ alert.date < stop)
  seen : ownAlerts table start stop key ≠ [] ∨ before = undeterminedDescription σ ∨
    forall shutdown, shutdown ∈ table.independent -> start < shutdown.date ->
      shutdown.date < stop -> Covered downtimeList shutdown.date

section Kept

variable {table : AlertTable κ σ} {alertFilter : κ -> Bool} {key : κ}
  {now start stop time : Int} {downtimeList : List (StartStopDuration κ)}
  {before : StateDescription σ}

theorem own_before_of_nil (hown : ownAlerts table start stop key = [])
    {alert : RawAlert κ σ} (hmem : alert ∈ table.own) (hkey : alert.key = key)
    (hdate : alert.date ≤ stop) : alert.date < start := by
  by_contra hnot
  have hin : alert ∈ ownAlerts table start stop key :=
    mem_ownAlerts.mpr ⟨hmem, hkey, not_lt.mp hnot, hdate⟩
  rw [hown] at hin
  cases hin

/-- What is known of the state before the range where no closed downtime asks for it. -/
structure BeforeSpec (table : AlertTable κ σ) (alerts : List (Entry σ))
    (before : StateDescription σ) (downtimeList : List (StartStopDuration κ))
    (start : Int) (key : κ) : Prop where
  latest : LatestState table key start before
  unpackable : ((forall alert, alert ∈ table.own -> alert.key = key -> start < alert.date) ∧
      before = undeterminedDescription σ) ∨
    forall downtime, downtime ∈ downtimeList -> downtime.endEntry ≠ none ->
      exists alert, alert ∈ alerts ∧ alert.date ≤ downtime.start

theorem accountedState_at_stop {alerts : List (Entry σ)} (hclosed : downtime.endEntry ≠ none)
    (hlast : lastStarted downtimeList downtime.stop = some downtime) :
    accountedState alerts before downtimeList downtime.stop =
      resumedState alerts before downtime := by
  unfold accountedState
  rw [hlast]
  simp only [if_pos (And.intro hclosed (le_refl downtime.stop))]
  apply stateAt_of_forall_later
  intro alert hmem
  have hfilterMem := mem_filter.mp hmem
  simpa using hfilterMem.right

variable {alerts : List (Entry σ)} (halerts : calcAlerts table start stop alertFilter key = alerts)
include halerts

theorem latestState_stateAt (hfilter : alertFilter key = true)
    (hbefore : LatestState table key start before) (hstart : start ≤ time) (hstop : time < stop)
    (hseen : ownAlerts table start stop key ≠ [] ∨ before = undeterminedDescription σ ∨
      forall shutdown, shutdown ∈ table.independent -> start < shutdown.date ->
        time < shutdown.date) :
    LatestState table key time (stateAt Entry.date Entry.description before
      alerts time) := by
  by_cases halert : exists entry, entry ∈ alerts ∧ entry.date ≤ time
  all_goals subst halerts
  · rcases halert with ⟨entry, hmem, hdate⟩
    exact latestState_of_alert hfilter (le_of_lt hstop) hmem hdate before
  · rw [stateAt_of_forall_later Entry.date Entry.description
      (fun entry hmem => not_le.mp (fun hdate => halert ⟨entry, hmem, hdate⟩))]
    by_cases hown : ownAlerts table start stop key = []
    · rcases hseen with hne | hundetermined | hnone
      · exact absurd hown hne
      · by_cases hshutdown : exists shutdown, shutdown ∈ table.independent ∧
            start < shutdown.date ∧ shutdown.date ≤ time
        · rcases hshutdown with ⟨shutdown, hmem, hafter, hdate⟩
          rw [hundetermined]
          apply latestState_of_shutdown ⟨shutdown, hmem, hdate⟩
          intro alert halert hkey hle
          have hearly := own_before_of_nil hown halert hkey (le_trans hle (le_of_lt hstop))
          exact ⟨shutdown, hmem, hdate, le_of_lt (lt_trans hearly hafter)⟩
        · apply latestState_mono hstart _ hbefore
          rintro entry (⟨alert, hmem, hkey, rfl⟩ | ⟨alert, hmem, rfl⟩) ⟨hafter, hdate⟩
          · have hearly := own_before_of_nil hown hmem hkey (le_trans hdate (le_of_lt hstop))
            exact absurd hafter (not_lt.mpr (le_of_lt hearly))
          · exact hshutdown ⟨alert, hmem, hafter, hdate⟩
      · apply latestState_mono hstart _ hbefore
        rintro entry (⟨alert, hmem, hkey, rfl⟩ | ⟨alert, hmem, rfl⟩) ⟨hafter, hdate⟩
        · have hearly := own_before_of_nil hown hmem hkey (le_trans hdate (le_of_lt hstop))
          exact absurd hafter (not_lt.mpr (le_of_lt hearly))
        · exact absurd hdate (not_le.mpr (hnone alert hmem hafter))
    · apply latestState_mono hstart _ hbefore
      rintro entry hentry ⟨hafter, hdate⟩
      exact halert ⟨entry, mem_calcAlerts_of_keyAlert hfilter hown hentry (le_of_lt hafter)
        (le_trans hdate (le_of_lt hstop)), hdate⟩

variable {downtime : StartStopDuration κ}

theorem latestState_after_downtime (hfilter : alertFilter key = true)
    (hstart : start ≤ downtime.stop) (hend : downtime.stop ≤ time) (hstop : time < stop)
    (hnone : ownAlerts table start stop key = [] -> before = undeterminedDescription σ ∧
        forall alert, alert ∈ table.own -> alert.key = key -> stop < alert.date)
    (hresumed : LatestState table key downtime.stop (resumedState
      alerts before downtime)) :
    LatestState table key time (stateAt Entry.date Entry.description
      (resumedState alerts before downtime)
      (alerts.filter
        (fun alert => downtime.stop < alert.date)) time) := by
  by_cases halert : exists entry, entry ∈ alerts ∧ downtime.stop < entry.date ∧ entry.date ≤ time
  all_goals subst halerts
  · rcases halert with ⟨entry, hmem, hafter, hdate⟩
    rcases latest_max Entry.date hmem hdate with ⟨last, hlast, hle⟩
    have hfiltered := latest_filter_of_latest Entry.date hlast
      (p := fun alert => decide (downtime.stop < alert.date))
      (by simpa using lt_of_lt_of_le hafter hle)
    have hstate := latestState_of_alert hfilter (le_of_lt hstop) hmem hdate before
    rw [stateAt, hlast] at hstate
    rw [stateAt, hfiltered]
    exact hstate
  · rw [stateAt_of_forall_later]
    · by_cases hown : ownAlerts table start stop key = []
      · rcases hnone hown with ⟨hundetermined, hlater⟩
        rw [resumedState, calcAlerts_eq_nil hown, hundetermined]
        apply latestState_of_no_own
        intro alert hmem hkey
        exact lt_trans hstop (hlater alert hmem hkey)
      · apply latestState_mono hend _ hresumed
        rintro entry hentry ⟨hafter, hdate⟩
        exact halert ⟨entry, mem_calcAlerts_of_keyAlert hfilter hown hentry
          (le_trans hstart (le_of_lt hafter)) (le_trans hdate (le_of_lt hstop)), hafter, hdate⟩
    · intro entry hmem
      have hfilterMem := mem_filter.mp hmem
      have hafter : downtime.stop < entry.date := by simpa using hfilterMem.right
      exact not_le.mp (fun hdate => halert ⟨entry, hfilterMem.left, hafter, hdate⟩)

theorem accountedState_right (hfilter : alertFilter key = true)
    (h : Preprocessed now start stop downtimeList)
    (hbefore : BeforeSpec table alerts before
      downtimeList start key)
    (hkept : StatesKept table alerts before
      downtimeList start stop key) (hstart : start ≤ time) (hstop : time < stop) :
    RightState table key downtimeList time (accountedState
      alerts before downtimeList time) := by
  unfold accountedState
  cases hlast : lastStarted downtimeList time with
  | none =>
    right
    refine ⟨not_covered_of_none hlast, ?_⟩
    apply latestState_stateAt halerts hfilter hbefore.latest hstart hstop
    rcases hkept.seen with hown | hundetermined | hcovered
    · exact Or.inl hown
    · exact Or.inr (Or.inl hundetermined)
    · refine Or.inr (Or.inr ?_)
      intro shutdown hmem hafter
      by_contra hnot
      have hdate : shutdown.date ≤ time := not_lt.mp hnot
      rcases hcovered shutdown hmem hafter (lt_of_le_of_lt hdate hstop) with
        ⟨downtime, hdowntime, hle, _⟩
      have hlater := lastStarted_eq_none_iff.mp hlast downtime hdowntime
      exact absurd (le_trans hle hdate) (not_le.mpr hlater)
  | some downtime =>
    have hmem := mem_of_lastStarted hlast
    have hspec := h.each downtime hmem
    simp only
    split
    · rename_i hended
      rcases Option.ne_none_iff_exists'.mp hended.left with ⟨stopEntry, hend⟩
      have hdates := hspec.closed stopEntry hend
      right
      refine ⟨not_covered_of_ended h hlast hended.left hended.right, ?_⟩
      apply latestState_after_downtime halerts hfilter hdates.right.right hended.right hstop
      · intro hown
        rcases hbefore.unpackable with ⟨hnone, hundetermined⟩ | hall
        · refine ⟨hundetermined, ?_⟩
          intro alert halert hkey
          by_contra hnot
          have hearly := own_before_of_nil hown halert hkey (not_lt.mp hnot)
          exact absurd hearly (not_lt.mpr (le_of_lt (hnone alert halert hkey)))
        · rcases hall downtime hmem hended.left with ⟨alert, halert, _⟩
          rw [← halerts, calcAlerts_eq_nil hown] at halert
          cases halert
      · exact hkept.resumed downtime hmem hended.left (lt_of_le_of_lt hended.right hstop)
          (lastStarted_at_stop hlast hdates.right.left hended.right)
    · rename_i hended
      left
      refine ⟨covered_of_lastStarted hlast hended, ?_⟩
      apply stateAt_of_forall_later
      intro alert halert
      have hfilterMem := mem_filter.mp halert
      have hafter : downtime.start < alert.date ∧ downtime.stop ≤ alert.date := by
        simpa using hfilterMem.right
      by_contra hnot
      have hdate : alert.date ≤ time := not_lt.mp hnot
      cases hend : downtime.endEntry with
      | none =>
        exact hkept.opened downtime hmem hend alert hfilterMem.left
          ⟨hafter.left, hafter.right, lt_of_le_of_lt hdate hstop⟩
      | some stopEntry =>
        exact hended ⟨by simp [hend], le_trans hafter.right hdate⟩

theorem accountedState_after_open (before : StateDescription σ)
    (h : Preprocessed now start stop downtimeList) (hmem : downtime ∈ downtimeList)
    (hopen : downtime.endEntry = none) {alert : Entry σ}
    (halert : alert ∈ alerts)
    (hafter : downtime.start < alert.date) (hnow : downtime.stop ≤ alert.date) :
    accountedState alerts before downtimeList
      alert.date ≠ plannedDownDescription σ := by
  have hin : alert ∈ alerts.filter
      (fun other => downtime.start < other.date ∧ downtime.stop ≤ other.date) :=
    mem_filter.mpr ⟨halert, by simp [hafter, hnow]⟩
  rcases latest_max Entry.date hin (le_refl alert.date) with ⟨last, hlast, _⟩
  have hlastMem := (mem_filter.mp (latest_mem Entry.date hlast).left).left
  unfold accountedState
  rw [lastStarted_of_open h hmem hopen (le_of_lt hafter)]
  simp only [hopen, ne_eq, not_true_eq_false, false_and, if_false]
  rw [stateAt, hlast]
  exact (keyAlert_of_mem_calcAlerts (halerts ▸ hlastMem)).description_ne

theorem accountedState_of_no_own (hown : ownAlerts table start stop key = [])
    (hcovered : ¬ Covered downtimeList time) :
    accountedState alerts before downtimeList time =
      before := by
  rw [← halerts, calcAlerts_eq_nil hown]
  unfold accountedState
  cases hlast : lastStarted downtimeList time with
  | none => rfl
  | some downtime =>
    simp only
    split
    · rfl
    · rename_i hended
      exact absurd (covered_of_lastStarted hlast hended) hcovered

theorem statesKept_of_right (h : Preprocessed now start stop downtimeList)
    (hright : forall time, start ≤ time -> time < stop ->
      RightState table key downtimeList time (accountedState
        alerts before downtimeList time)) :
    StatesKept table alerts before
      downtimeList start stop key where
  resumed := by
    intro downtime hmem hclosed hlt hlast
    rcases Option.ne_none_iff_exists'.mp hclosed with ⟨stopEntry, hend⟩
    have hdates := (h.each downtime hmem).closed stopEntry hend
    rcases hright downtime.stop hdates.right.right hlt with ⟨hcovered, _⟩ | ⟨_, hlatest⟩
    · exact absurd hcovered (not_covered_of_ended h hlast hclosed (le_refl _))
    · rwa [accountedState_at_stop hclosed hlast] at hlatest
  opened := by
    rintro downtime hmem hopen alert halert ⟨hafter, hnow, hlt⟩
    have hne := accountedState_after_open halerts before h hmem hopen halert hafter hnow
    rcases hright alert.date (date_of_mem_calcAlerts (halerts ▸ halert)).left hlt with
      ⟨_, hequal⟩ | ⟨hnot, _⟩
    · exact hne hequal
    · exact hnot ⟨downtime, hmem, le_of_lt hafter, Or.inl hopen⟩
  seen := by
    by_cases hown : ownAlerts table start stop key = []
    · refine Or.inr ?_
      by_cases hundetermined : before = undeterminedDescription σ
      · exact Or.inl hundetermined
      · refine Or.inr ?_
        intro shutdown hmem hafter hlt
        by_contra hcovered
        rcases hright shutdown.date (le_of_lt hafter) hlt with ⟨hin, _⟩ | ⟨_, hlatest⟩
        · exact hcovered hin
        · rw [accountedState_of_no_own halerts hown hcovered] at hlatest
          apply hundetermined
          apply hlatest.eq_undetermined hmem (le_refl _)
          intro alert halert hkey hdate
          have hearly := own_before_of_nil hown halert hkey (le_trans hdate (le_of_lt hlt))
          exact lt_trans hearly hafter
    · exact Or.inl hown

end Kept

end Icsw.Kpi
