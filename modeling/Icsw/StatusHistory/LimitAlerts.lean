import Icsw.StatusHistory.Model

set_option linter.unusedSectionVars false

/-!
# The last alert before a point in time

The database groups the rows by key, state and state type; the last grouping by
key is done by hand.  Whatever order the groups come in, the entry of a key is one
of its latest alerts, unless a shutdown is later.
-/

namespace Icsw.StatusHistory

open Foundation List

variable {κ σ : Type} [DecidableEq κ] [DecidableEq σ] [IcingaState σ]

@[simp] theorem mem_ownAlerts {table : AlertTable κ σ} {startTime endTime : Int} {key : κ}
    {alert : RawAlert κ σ} :
    alert ∈ ownAlerts table startTime endTime key <->
      alert ∈ table.own ∧ alert.key = key ∧ startTime ≤ alert.date ∧ alert.date ≤ endTime := by
  simp [ownAlerts]

@[simp] theorem mem_independentAlerts {table : AlertTable κ σ} {startTime endTime : Int}
    {alert : IndependentAlert} :
    alert ∈ independentAlerts table startTime endTime <->
      alert ∈ table.independent ∧ startTime ≤ alert.date ∧ alert.date ≤ endTime := by
  simp [independentAlerts]

theorem sorted_calcAlerts (table : AlertTable κ σ) (startTime endTime : Int)
    (additionalFilter : κ -> Bool) (key : κ) :
    DatedList.Sorted Entry.date (calcAlerts table startTime endTime additionalFilter key) := by
  unfold calcAlerts
  split
  · exact DatedList.sorted_sortByDate Entry.date _
  · exact List.Pairwise.nil

variable {table : AlertTable κ σ} {startTime endTime : Int}

theorem date_of_mem_calcAlerts {additionalFilter : κ -> Bool} {key : κ} {entry : Entry σ}
    (h : entry ∈ calcAlerts table startTime endTime additionalFilter key) :
    startTime ≤ entry.date ∧ entry.date ≤ endTime := by
  unfold calcAlerts at h
  split at h
  · rcases mem_append.mp ((DatedList.mem_sortByDate Entry.date).mp h) with hown | hindependent
    · rcases mem_map.mp hown with ⟨alert, hmem, rfl⟩
      exact (mem_ownAlerts.mp hmem).right.right
    · rcases mem_map.mp hindependent with ⟨alert, hmem, rfl⟩
      exact (mem_independentAlerts.mp hmem).right
  · cases h

structure LatestOwn (table : AlertTable κ σ) (time : Int) (key : κ)
    (alert : RawAlert κ σ) : Prop where
  mem : alert ∈ table.own
  key_eq : alert.key = key
  le : alert.date ≤ time
  latest : forall other, other ∈ table.own -> other.key = key -> other.date ≤ time ->
    other.date ≤ alert.date

def ShutdownAfter (table : AlertTable κ σ) (time : Int) (date : Int) : Prop :=
  exists shutdown, shutdown ∈ table.independent ∧ date < shutdown.date ∧
    shutdown.date ≤ time

theorem LatestOwn.date_eq {time : Int} {key : κ}
    {first second : RawAlert κ σ} (hfirst : LatestOwn table time key first)
    (hsecond : LatestOwn table time key second) : first.date = second.date :=
  le_antisymm (hsecond.latest first hfirst.mem hfirst.key_eq hfirst.le)
    (hfirst.latest second hsecond.mem hsecond.key_eq hsecond.le)

theorem latestOwn_of_no_own {key : κ}
    (hle : startTime ≤ endTime) (hown : ownAlerts table startTime endTime key = [])
    (alert : RawAlert κ σ) :
    LatestOwn table startTime key alert <-> LatestOwn table endTime key alert := by
  have hearly : forall other, other ∈ table.own -> other.key = key ->
      other.date ≤ endTime -> other.date ≤ startTime := by
    intro other hmem hkey hdate
    by_contra hnot
    have hin : other ∈ ownAlerts table startTime endTime key :=
      mem_ownAlerts.mpr ⟨hmem, hkey, le_of_lt (not_le.mp hnot), hdate⟩
    rw [hown] at hin
    cases hin
  constructor
  · intro h
    refine ⟨h.mem, h.key_eq, le_trans h.le hle, ?_⟩
    intro other hmem hkey hdate
    exact h.latest other hmem hkey (hearly other hmem hkey hdate)
  · intro h
    refine ⟨h.mem, h.key_eq, hearly alert h.mem h.key_eq h.le, ?_⟩
    intro other hmem hkey hdate
    exact h.latest other hmem hkey (le_trans hdate hle)

theorem exists_latestOwn {key : κ} (hown : ownAlerts table startTime endTime key ≠ []) :
    exists last, LatestOwn table endTime key last ∧ startTime ≤ last.date ∧
      DatedList.latest Entry.date
        ((ownAlerts table startTime endTime key).map RawAlert.toEntry) endTime =
          some last.toEntry := by
  rcases exists_mem_of_ne_nil _ hown with ⟨some, hsome⟩
  have hbound : forall alert, alert ∈ ownAlerts table startTime endTime key ->
      exists last,
        DatedList.latest Entry.date
          ((ownAlerts table startTime endTime key).map RawAlert.toEntry) endTime =
            Option.some last ∧ alert.date ≤ last.date := by
    intro alert hmem
    have hle := (mem_ownAlerts.mp hmem).right.right.right
    exact DatedList.latest_max Entry.date (mem_map_of_mem hmem)
      (by simpa [RawAlert.toEntry] using hle)
  rcases hbound some hsome with ⟨entry, hentry, _⟩
  rcases mem_map.mp (DatedList.latest_mem Entry.date hentry).left with ⟨last, hlast, rfl⟩
  have hrange := mem_ownAlerts.mp hlast
  refine ⟨last, ⟨hrange.left, hrange.right.left, hrange.right.right.right, ?_⟩,
    hrange.right.right.left, hentry⟩
  intro other hmem hkey hle
  by_cases hstart : startTime ≤ other.date
  · rcases hbound other (mem_ownAlerts.mpr ⟨hmem, hkey, hstart, hle⟩) with
      ⟨entry, hother, hdate⟩
    rw [hentry] at hother
    cases hother
    exact hdate
  · exact le_trans (le_of_lt (not_le.mp hstart)) hrange.right.right.left

theorem latest_independentAlerts (table : AlertTable κ σ) (startTime endTime : Int) :
    match DatedList.latest Entry.date ((independentAlerts table startTime endTime).map
        (IndependentAlert.toEntry (σ := σ))) endTime with
    | none => forall shutdown, shutdown ∈ table.independent ->
        ¬ (startTime ≤ shutdown.date ∧ shutdown.date ≤ endTime)
    | some entry => entry.description = undeterminedDescription σ ∧
        (exists shutdown, shutdown ∈ table.independent ∧ startTime ≤ shutdown.date ∧
          shutdown.date ≤ endTime ∧ shutdown.date = entry.date) ∧
        forall shutdown, shutdown ∈ table.independent -> startTime ≤ shutdown.date ->
          shutdown.date ≤ endTime -> shutdown.date ≤ entry.date := by
  have hbound : forall shutdown, shutdown ∈ table.independent ->
      startTime ≤ shutdown.date -> shutdown.date ≤ endTime ->
      exists last, DatedList.latest Entry.date ((independentAlerts table startTime
        endTime).map (IndependentAlert.toEntry (σ := σ))) endTime = some last ∧
          shutdown.date ≤ last.date := by
    intro shutdown hmem hstart hend
    exact DatedList.latest_max Entry.date
      (mem_map_of_mem (mem_independentAlerts.mpr ⟨hmem, hstart, hend⟩))
      (by simpa [IndependentAlert.toEntry] using hend)
  cases hlatest : DatedList.latest Entry.date ((independentAlerts table startTime
      endTime).map (IndependentAlert.toEntry (σ := σ))) endTime with
  | none =>
    rintro shutdown hmem ⟨hstart, hend⟩
    rcases hbound shutdown hmem hstart hend with ⟨last, hlast, _⟩
    rw [hlatest] at hlast
    cases hlast
  | some entry =>
    rcases mem_map.mp (DatedList.latest_mem Entry.date hlatest).left with
      ⟨shutdown, hin, rfl⟩
    have hrange := mem_independentAlerts.mp hin
    refine ⟨rfl, ⟨shutdown, hrange.left, hrange.right.left, hrange.right.right, rfl⟩, ?_⟩
    intro other hmem hstart hend
    rcases hbound other hmem hstart hend with ⟨last, hlast, hdate⟩
    rw [hlatest] at hlast
    cases hlast
    exact hdate

theorem extremeDate_lastBefore (first : Int) (rest : List Int) :
    extremeDate .lastBefore first rest ∈ first :: rest ∧
      forall date, date ∈ first :: rest -> date ≤ extremeDate .lastBefore first rest := by
  simpa [extremeDate, LimitMode.comp] using DatedList.foldl_least OrderDual.toDual first rest

theorem foldl_extremeIndependent (shutdowns : List IndependentAlert) :
    match shutdowns.foldl (extremeIndependent .lastBefore) none with
    | none => shutdowns = []
    | some last => last ∈ shutdowns ∧
        forall shutdown, shutdown ∈ shutdowns -> shutdown.date ≤ last.date := by
  have hstep : extremeIndependent .lastBefore = DatedList.largest IndependentAlert.date := by
    funext best alert
    cases best with
    | none => rfl
    | some other => simp [extremeIndependent, DatedList.largest, LimitMode.comp]
  have hlargest := DatedList.foldl_largest IndependentAlert.date shutdowns
  rw [hstep]
  cases hbest : shutdowns.foldl (DatedList.largest IndependentAlert.date) none with
  | none | some last =>
    rw [hbest] at hlargest
    exact hlargest

theorem limitIndependent_lastBefore (table : AlertTable κ σ) (time : Int) :
    match limitIndependent table .lastBefore time with
    | none => forall shutdown, shutdown ∈ table.independent -> time < shutdown.date
    | some last => last ∈ table.independent ∧ last.date ≤ time ∧
        forall shutdown, shutdown ∈ table.independent -> shutdown.date ≤ time ->
          shutdown.date ≤ last.date := by
  have hspec := foldl_extremeIndependent
    (table.independent.filter (fun alert => LimitMode.lastBefore.inRange time alert.date))
  change match limitIndependent table .lastBefore time with
    | none => _
    | some last => _ at hspec
  cases hlimit : limitIndependent table .lastBefore time with
  | none =>
    rw [hlimit] at hspec
    intro shutdown hmem
    have hnot := filter_eq_nil_iff.mp hspec shutdown hmem
    simpa [LimitMode.inRange] using hnot
  | some last =>
    rw [hlimit] at hspec
    have hlast := mem_filter.mp hspec.left
    simp only [LimitMode.inRange, decide_eq_true_eq] at hlast
    refine ⟨hlast.left, hlast.right, ?_⟩
    intro shutdown hmem hle
    apply hspec.right
    exact mem_filter.mpr ⟨hmem, by simpa [LimitMode.inRange] using hle⟩

theorem exists_of_mem_alertGroups {rows : List (RawAlert κ σ)} {group : AlertGroup κ σ}
    (h : group ∈ alertGroups .lastBefore rows) :
    exists alert, alert ∈ rows ∧ alert.key = group.key ∧ alert.state = group.state ∧
      alert.stateType = group.stateType ∧ alert.date = group.extremeDate := by
  unfold alertGroups at h
  rcases mem_map.mp (mem_dedup.mp h) with ⟨alert, hmem, rfl⟩
  have hextreme := (extremeDate_lastBefore alert.date
    ((rows.filter (fun other => SameGroup other alert)).map RawAlert.date)).left
  rcases mem_cons.mp hextreme with heq | htail
  · exact ⟨alert, hmem, rfl, rfl, rfl, heq.symm⟩
  · rcases mem_map.mp htail with ⟨member, hmember, hdate⟩
    have hfilter := mem_filter.mp hmember
    have hsame : SameGroup member alert := by simpa using hfilter.right
    exact ⟨member, hfilter.left, hsame.left, hsame.right.left, hsame.right.right, hdate⟩

theorem exists_group_of_mem {rows : List (RawAlert κ σ)} {alert : RawAlert κ σ} (h : alert ∈ rows) :
    exists group, group ∈ alertGroups .lastBefore rows ∧ group.key = alert.key ∧
      alert.date ≤ group.extremeDate :=
  ⟨groupOf .lastBefore rows alert, mem_dedup.mpr (mem_map.mpr ⟨alert, h, rfl⟩), rfl,
    (extremeDate_lastBefore alert.date _).right _ mem_cons_self⟩

variable (independent : Option IndependentAlert)

def candidateOf (group : AlertGroup κ σ) :
    LimitCandidate κ σ where
  relevantEntry := relevantEntry .lastBefore independent group
  extremeDate := group.extremeDate

theorem foldl_limitStep_key (groups : List (AlertGroup κ σ))
    (cache : κ -> Option (LimitCandidate κ σ)) (key : κ) :
    groups.foldl (limitStep .lastBefore independent) cache key =
      ((groups.filter fun group => group.key = key).map (candidateOf independent)).foldl
        (DatedList.largest LimitCandidate.extremeDate) (cache key) := by
  induction groups generalizing cache with
  | nil => rfl
  | cons group rest ih =>
    rw [foldl_cons, ih]
    by_cases hkey : group.key = key
    · rw [filter_cons_of_pos (by simpa using hkey), map_cons, foldl_cons, ← hkey]
      unfold limitStep
      cases hcache : cache group.key with
      | none =>
        simp only [Function.update_self]
        rfl
      | some current =>
        by_cases hlt : current.extremeDate < group.extremeDate
        · simp [LimitMode.comp, DatedList.largest, candidateOf, hlt]
        · simp [LimitMode.comp, DatedList.largest, candidateOf, hlt, hcache]
    · have hne : key ≠ group.key := Ne.symm hkey
      rw [filter_cons_of_neg (by simpa using hkey)]
      unfold limitStep
      cases cache group.key with
      | none => simp only [Function.update_of_ne hne]
      | some current => simp only [ite_apply, Function.update_of_ne hne, ite_self]

theorem foldl_limitStep (groups : List (AlertGroup κ σ)) (key : κ) :
    match groups.foldl (limitStep .lastBefore independent) (fun _ => none) key with
    | none => forall group, group ∈ groups -> group.key ≠ key
    | some candidate => exists group, group ∈ groups ∧ group.key = key ∧
        candidate = candidateOf independent group ∧
        forall other, other ∈ groups -> other.key = key ->
          other.extremeDate ≤ group.extremeDate := by
  have hlargest := DatedList.foldl_largest LimitCandidate.extremeDate
    ((groups.filter fun group => group.key = key).map (candidateOf independent))
  rw [← foldl_limitStep_key independent groups (fun _ => none)] at hlargest
  cases hcache : groups.foldl (limitStep .lastBefore independent) (fun _ => none) key with
  | none =>
    rw [hcache] at hlargest
    simpa using hlargest
  | some candidate =>
    rw [hcache] at hlargest
    rcases hlargest with ⟨hmem, hmax⟩
    rcases mem_map.mp hmem with ⟨group, hgroup, rfl⟩
    simp only [mem_filter, decide_eq_true_eq, forall_mem_map, and_imp] at hgroup hmax
    exact ⟨group, hgroup.left, hgroup.right, rfl, hmax⟩

def RawAlert.description (alert : RawAlert κ σ) : StateDescription σ :=
  (alert.state, alert.stateType.toStateType)

/-- What the limit query says about a key. -/
structure LimitSpec (table : AlertTable κ σ) (time : Int) (key : κ)
    (description : StateDescription σ) : Prop where
  exists_own : exists alert, LatestOwn table time key alert ∧
    ((ShutdownAfter table time alert.date ∧ description = undeterminedDescription σ) ∨
      (¬ ShutdownAfter table time alert.date ∧ description = alert.description))

variable {groupOrder : List (AlertGroup κ σ) -> List (AlertGroup κ σ)}

theorem doCalcLimitAlerts_spec (horder : forall groups, (groupOrder groups).Perm groups)
    (table : AlertTable κ σ) (time : Int) (additionalFilter : κ -> Bool) (key : κ)
    (hfilter : additionalFilter key = true) :
    match doCalcLimitAlerts groupOrder table time .lastBefore additionalFilter key with
    | none => forall alert, alert ∈ table.own -> alert.key = key -> time < alert.date
    | some entry => LimitSpec table time key entry.description := by
  unfold doCalcLimitAlerts
  have hmemRows : forall alert, alert ∈ limitRows table .lastBefore time additionalFilter <->
      alert ∈ table.own ∧ alert.date ≤ time ∧ additionalFilter alert.key = true := by
    intro alert
    simp [limitRows, LimitMode.inRange]
  have hfold := foldl_limitStep (limitIndependent table .lastBefore time)
    (groupOrder (alertGroups .lastBefore
      (limitRows table .lastBefore time additionalFilter))) key
  simp only
  generalize (groupOrder (alertGroups .lastBefore
    (limitRows table .lastBefore time additionalFilter))).foldl
    (limitStep .lastBefore (limitIndependent table .lastBefore time)) (fun _ => none) =
    cache at *
  cases hcache : cache key with
  | none =>
    rw [hcache] at hfold
    intro alert hmem hkey
    by_contra hnot
    rcases exists_group_of_mem ((hmemRows alert).mpr ⟨hmem, not_lt.mp hnot, hkey ▸ hfilter⟩) with
      ⟨group, hgroup, hgroupKey, _⟩
    exact hfold group ((horder _).mem_iff.mpr hgroup) (hgroupKey.trans hkey)
  | some candidate =>
    rw [hcache] at hfold
    rcases hfold with ⟨group, hgroup, hgroupKey, hcandidate, hmax⟩
    rcases exists_of_mem_alertGroups ((horder _).mem_iff.mp hgroup) with
      ⟨alert, halert, hkey, hstate, hstateType, hdate⟩
    have hrow := (hmemRows alert).mp halert
    refine ⟨alert, ⟨hrow.left, hkey.trans hgroupKey, hrow.right.left, ?_⟩, ?_⟩
    · intro other hother hotherKey hle
      rcases exists_group_of_mem ((hmemRows other).mpr ⟨hother, hle, hotherKey ▸ hfilter⟩) with
        ⟨otherGroup, hotherGroup, hotherGroupKey, hotherDate⟩
      rw [hdate]
      exact le_trans hotherDate (hmax otherGroup ((horder _).mem_iff.mpr hotherGroup)
        (hotherGroupKey.trans hotherKey))
    · have hindependent := limitIndependent_lastBefore table time
      cases hlast : limitIndependent table .lastBefore time with
      | none =>
        rw [hlast] at hindependent hcandidate
        right
        constructor
        · rintro ⟨shutdown, hmem, _, hle⟩
          exact absurd hle (not_le.mpr (hindependent shutdown hmem))
        · rw [hcandidate]
          simp [candidateOf, relevantEntry, LimitCandidate.toLimitAlert,
            LimitAlert.description, RawAlert.description, hstate, hstateType]
      | some last =>
        rw [hlast] at hindependent hcandidate
        rcases hindependent with ⟨hmem, hle, hmaximal⟩
        by_cases hlt : group.extremeDate < last.date
        · left
          refine ⟨⟨last, hmem, hdate ▸ hlt, hle⟩, ?_⟩
          rw [hcandidate]
          simp [candidateOf, relevantEntry, LimitMode.comp, hlt,
            LimitCandidate.toLimitAlert, LimitAlert.description, undeterminedDescription]
        · right
          constructor
          · rintro ⟨shutdown, hin, hafter, hbefore⟩
            have hnotlater := hmaximal shutdown hin hbefore
            rw [hdate] at hafter
            exact hlt (lt_of_lt_of_le hafter hnotlater)
          · rw [hcandidate]
            simp [candidateOf, relevantEntry, LimitMode.comp, hlt,
              LimitCandidate.toLimitAlert, LimitAlert.description, RawAlert.description,
              hstate, hstateType]

theorem doCalcLimitAlerts_eq_none_iff (horder : forall groups, (groupOrder groups).Perm groups)
    (table : AlertTable κ σ) (time : Int) (additionalFilter : κ -> Bool) (key : κ)
    (hfilter : additionalFilter key = true) :
    doCalcLimitAlerts groupOrder table time .lastBefore additionalFilter key = none <->
      forall alert, alert ∈ table.own -> alert.key = key -> time < alert.date := by
  have hspec := doCalcLimitAlerts_spec horder table time additionalFilter key hfilter
  cases hquery : doCalcLimitAlerts groupOrder table time .lastBefore additionalFilter key with
  | none =>
    rw [hquery] at hspec
    exact ⟨fun _ => hspec, fun _ => rfl⟩
  | some entry =>
    rw [hquery] at hspec
    rcases hspec.exists_own with ⟨alert, halert, _⟩
    constructor
    · intro h
      cases h
    · intro h
      exact absurd halert.le (not_le.mpr (h alert halert.mem halert.key_eq))

end Icsw.StatusHistory
