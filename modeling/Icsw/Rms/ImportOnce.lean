import Icsw.Rms.Accounting

/-!
# Imports of the same records

A record that is fed leaves its run alone from then on.  A further import finds
nothing to match, and that is what makes it delete the runs of the first record.
-/

namespace Icsw.Rms

open Foundation List

def Record.isAt (record : Record) (run : JobRun) : Bool :=
  record.isFor run && record.sameTimes run

/--
One of the records is for the job of the run, which is still open or has the times of the record.
Crippled records have no runs.
-/
def belongs (records : List Record) (run : JobRun) : Bool :=
  records.any fun record =>
    record.complete && record.isFor run && (!run.closed || record.sameTimes run)

/-- The runs that do not belong to the records, and what is attached to them, are the same. -/
structure Unaffected (records : List Record) (before after : Database) : Prop where
  runs : after.runs.filter (fun run => !belongs records run) =
    before.runs.filter (fun run => !belongs records run)
  peInfos : forall run, run ∈ before.runs -> belongs records run = false ->
    after.peInfos.filter (fun info => info.rmsJobRun = run.idx) =
      before.peInfos.filter (fun info => info.rmsJobRun = run.idx)
  jobVariables : forall run, run ∈ before.runs -> belongs records run = false ->
    after.jobVariables.filter (fun entry => entry.rmsJobRun = some run.idx) =
      before.jobVariables.filter (fun entry => entry.rmsJobRun = some run.idx)

/-- Every complete record has exactly one run, other runs are unchanged, and a further import
of the output, at any time, changes nothing. -/
def ImportedOnce (env : Surroundings) (db : Database) (curOut : Text) (records : List Record)
    (needed : Nat) : Prop :=
  exists imported, interpretQacct env db curOut needed = .ok imported ∧
    (forall record, record ∈ records -> record.complete = true ->
      imported.db.runs.countP record.isAt = 1) ∧
    Unaffected records db imported.db ∧
    forall now, exists again,
      interpretQacct { env with now := now } imported.db curOut needed = .ok again ∧
        again.db = imported.db

def Recorded (record : Record) (db : Database) : Prop :=
  exists run, run ∈ db.runs ∧ record.isAt run = true ∧ run.closed = true

/-- What feeding a record does. -/
inductive Fed (db : Database) (record : Record) : Database × Nat -> Prop where
  | crippled (h : record.complete = false) : Fed db record (db, 0)
  | duplicate (h : record.complete = true) (hrecorded : Recorded record db) : Fed db record (db, 0)
  | added (after : Database) (run : JobRun) (h : record.complete = true)
      (hnone : forall other, other ∈ db.runs -> record.isAt other = false)
      (hruns : after.runs = db.runs ++ [run]) (hinfos : after.peInfos = db.peInfos)
      (hvariables : after.jobVariables = db.jobVariables) (hidx : run.idx = db.next)
      (hnext : db.next ≤ after.next) (hat : record.isAt run = true) (hclosed : run.closed = true) :
      Fed db record (after, 1)
  | updated (run : JobRun) (h : record.complete = true) (hrun : run ∈ db.runs)
      (hopen : run.closed = false) (hfor : record.isFor run = true)
      (hsole : db.runsOf record = [run] ∨ record.sameTimes run = true) :
      Fed db record (db.save (run.feedQacctData record), 1)

variable {run : JobRun}

theorem Record.isAt_iff {record : Record} :
    record.isAt run = true <-> record.isFor run = true ∧ record.sameTimes run = true :=
  Bool.and_eq_true_iff

theorem feedQacctData_at {record : Record} (h : record.complete = true)
    (hfor : record.isFor run = true) :
    record.isAt (run.feedQacctData record) = true ∧
      (run.feedQacctData record).closed = true := by
  rcases Bool.and_eq_true_iff.mp h with ⟨hstart, hend⟩
  have hstart' : record.startTime.or run.startTime = record.startTime := Option.or_of_isSome hstart
  have hend' : record.endTime.or run.endTime = record.endTime := Option.or_of_isSome hend
  constructor
  · exact Record.isAt_iff.mpr ⟨hfor, decide_eq_true ⟨hstart', hend'⟩⟩
  · show (true && (record.startTime.or run.startTime).isSome &&
      (record.endTime.or run.endTime).isSome) = true
    rw [hstart', hend', hstart, hend]
    rfl

theorem runs_save_feed (db : Database) (record : Record) (hrun : run ∈ db.runs) :
    (db.save (run.feedQacctData record)).runs =
      db.runs.map fun other => if other = run then run.feedQacctData record else other := by
  apply map_congr_left
  intro other hother
  have hkey : other.idx = (run.feedQacctData record).idx <-> other = run :=
    ⟨fun heq => inj_on_of_nodup_map db.unique hother hrun heq, congrArg JobRun.idx⟩
  by_cases heq : other = run
  · rw [if_pos (hkey.mpr heq), if_pos heq]
  · rw [if_neg (mt hkey.mp heq), if_neg heq]

theorem feedNewRun_fed (env : Surroundings) {db : Database} {record : Record}
    (h : record.complete = true)
    (hnone : forall other, other ∈ db.runs -> record.isAt other = false) :
    Fed db record (feedNewRun env db record, 1) := by
  have hfor : record.isFor (newRun env record db.next) = true := decide_eq_true ⟨rfl, rfl⟩
  rcases feedQacctData_at h hfor with ⟨hat, hclosed⟩
  refine Fed.added _ ((newRun env record db.next).feedQacctData record) h hnone ?_ rfl rfl rfl
    (Nat.le_succ db.next) hat hclosed
  show Database.saved ((newRun env record db.next).feedQacctData record)
    (db.runs ++ [newRun env record db.next]) = _
  have hold : Database.saved ((newRun env record db.next).feedQacctData record) db.runs =
      db.runs := by
    conv_rhs => rw [← map_id db.runs]
    apply map_congr_left
    intro other hother
    exact if_neg (Nat.ne_of_lt (db.fresh other hother))
  rw [Database.saved, map_append, ← Database.saved, hold]
  exact congrArg (db.runs ++ [·]) (if_pos rfl)

theorem curJobRun_some {db : Database} {record : Record} (h : curJobRun db record = some run) :
    run ∈ db.runsOf record ∧ (db.runsOf record = [run] ∨ record.sameTimes run = true) := by
  unfold curJobRun at h
  cases hruns : db.runsOf record with
  | nil =>
    rw [hruns] at h
    cases h
  | cons first rest =>
    rw [hruns] at h
    cases rest with
    | nil =>
      cases h
      exact ⟨mem_cons_self, Or.inl rfl⟩
    | cons second others =>
      exact ⟨mem_of_find?_eq_some h, Or.inr (find?_some h)⟩

theorem curJobRun_none {db : Database} {record : Record} (h : curJobRun db record = none)
    (other : JobRun) (hother : other ∈ db.runs) : record.isAt other = false := by
  by_contra hat
  rcases Record.isAt_iff.mp (Bool.not_eq_false _ ▸ hat) with ⟨hfor, htimes⟩
  have hmem : other ∈ db.runsOf record := mem_filter.mpr ⟨hother, hfor⟩
  unfold curJobRun at h
  cases hruns : db.runsOf record with
  | nil =>
    rw [hruns] at hmem
    cases hmem
  | cons first rest =>
    rw [hruns] at h hmem
    cases rest with
    | nil => cases h
    | cons second others => exact find?_eq_none.mp h other hmem htimes

theorem feedQacct_fed (env : Surroundings) (db : Database) (record : Record) :
    Fed db record (feedQacct env db record) := by
  unfold feedQacct
  by_cases h : record.complete = true
  · rw [if_pos h]
    cases hcur : curJobRun db record with
    | none => exact feedNewRun_fed env h (curJobRun_none hcur)
    | some run =>
      rcases curJobRun_some hcur with ⟨hmem, hsole⟩
      rcases mem_filter.mp hmem with ⟨hrun, hfor⟩
      by_cases hclosed : run.closed = true
      · simp only [if_pos hclosed]
        by_cases htimes : record.sameTimes run = true
        · rw [if_pos htimes]
          exact Fed.duplicate h ⟨run, hrun, Record.isAt_iff.mpr ⟨hfor, htimes⟩, hclosed⟩
        · rw [if_neg htimes]
          apply feedNewRun_fed env h
          intro other hother
          by_contra hat
          rcases Record.isAt_iff.mp (Bool.not_eq_false _ ▸ hat) with ⟨hfor', htimes'⟩
          have hmem' : other ∈ db.runsOf record := mem_filter.mpr ⟨hother, hfor'⟩
          rw [hsole.resolve_right htimes, mem_singleton] at hmem'
          exact htimes (hmem' ▸ htimes')
      · simp only [if_neg hclosed]
        exact Fed.updated run h hrun (Bool.eq_false_iff.mpr hclosed) hfor hsole
  · rw [if_neg h]
    exact Fed.crippled (Bool.eq_false_iff.mpr h)

section Step

variable {db : Database} {record other : Record} {fed : Database × Nat}

section

variable (h : Fed db record fed)
include h

theorem Fed.unmatched (hmatched : fed.2 = 0) : fed.1 = db := by
  cases h with
  | crippled h => rfl
  | duplicate h hrecorded => rfl
  | added => cases hmatched
  | updated => cases hmatched

theorem Fed.attached :
    fed.1.peInfos = db.peInfos ∧ fed.1.jobVariables = db.jobVariables := by
  cases h with
  | crippled h => exact ⟨rfl, rfl⟩
  | duplicate h hrecorded => exact ⟨rfl, rfl⟩
  | added after run h hnone hruns hinfos hvariables => exact ⟨hinfos, hvariables⟩
  | updated => exact ⟨rfl, rfl⟩

theorem Fed.recorded (hcomplete : record.complete = true) :
    Recorded record fed.1 := by
  cases h with
  | crippled h =>
    rw [h] at hcomplete
    cases hcomplete
  | duplicate h hrecorded => exact hrecorded
  | added after run h hnone hruns hinfos hvariables hidx hnext hat hclosed =>
    refine ⟨run, ?_, hat, hclosed⟩
    rw [hruns]
    exact mem_append_right _ mem_cons_self
  | updated run h hrun hopen hfor hsole =>
    rcases feedQacctData_at h hfor with ⟨hat, hclosed⟩
    refine ⟨run.feedQacctData record, ?_, hat, hclosed⟩
    show _ ∈ (db.save (run.feedQacctData record)).runs
    rw [runs_save_feed db record hrun]
    exact mem_map.mpr ⟨run, hrun, if_pos rfl⟩

theorem Fed.keeps (hrun : run ∈ db.runs) (hclosed : run.closed = true) : run ∈ fed.1.runs := by
  cases h with
  | crippled h => exact hrun
  | duplicate h hrecorded => exact hrun
  | added after new h hnone hruns =>
    rw [hruns]
    exact mem_append_left _ hrun
  | updated old h hold hopen hfor hsole =>
    have hne : run ≠ old := by
      rintro rfl
      rw [hopen] at hclosed
      cases hclosed
    show run ∈ (db.save (old.feedQacctData record)).runs
    rw [runs_save_feed db record hold]
    exact mem_map.mpr ⟨run, hrun, if_neg hne⟩

theorem Fed.keepsRecorded (hrecorded : Recorded other db) :
    Recorded other fed.1 := by
  rcases hrecorded with ⟨run, hrun, hat, hclosed⟩
  exact ⟨run, h.keeps hrun hclosed, hat, hclosed⟩

end

variable {kind : JobRun -> Bool} {runs : List JobRun}

theorem countP_replaced (run run' : JobRun) (h : kind run' = kind run) :
    (runs.map fun other => if other = run then run' else other).countP kind =
      runs.countP kind := by
  rw [countP_map]
  apply countP_congr
  intro other _
  show kind (if other = run then run' else other) = true <-> kind other = true
  by_cases heq : other = run
  · rw [if_pos heq, h, heq]
  · rw [if_neg heq]

theorem filter_replaced {run run' : JobRun} (h : kind run = false) (h' : kind run' = false) :
    (runs.map fun other => if other = run then run' else other).filter kind =
      runs.filter kind := by
  induction runs with
  | nil => rfl
  | cons first rest ih =>
    rw [map_cons]
    by_cases heq : first = run
    · rw [if_pos heq, filter_cons_of_neg (by rw [h']; exact Bool.false_ne_true),
        filter_cons_of_neg (by rw [heq, h]; exact Bool.false_ne_true), ih]
    · rw [if_neg heq]
      by_cases hkind : kind first = true
      · rw [filter_cons_of_pos hkind, filter_cons_of_pos hkind, ih]
      · rw [filter_cons_of_neg hkind, filter_cons_of_neg hkind, ih]

theorem countP_isAt_le (record : Record) (runs : List JobRun) :
    runs.countP record.isAt ≤ runs.countP record.isFor :=
  countP_mono_left fun _ _ hat => (Record.isAt_iff.mp hat).left

theorem isFor_congr (h : record.isFor run = true) (h' : other.isFor run = true) :
    other.isFor = record.isFor := by
  rcases of_decide_eq_true h with ⟨hjob, htask⟩
  rcases of_decide_eq_true h' with ⟨hjob', htask'⟩
  funext run
  unfold Record.isFor
  rw [← hjob, ← htask, ← hjob', ← htask']

theorem isAt_congr (h : record.isAt run = true) (h' : other.isAt run = true) :
    other.isAt = record.isAt := by
  rcases Record.isAt_iff.mp h with ⟨hfor, htimes⟩
  rcases Record.isAt_iff.mp h' with ⟨hfor', htimes'⟩
  rcases of_decide_eq_true htimes with ⟨hstart, hend⟩
  rcases of_decide_eq_true htimes' with ⟨hstart', hend'⟩
  funext run
  unfold Record.isAt Record.sameTimes
  rw [isFor_congr hfor hfor', ← hstart, ← hend, ← hstart', ← hend']

theorem Fed.several (h : Fed db record fed) (other : Record) :
    2 ≤ fed.1.runs.countP other.isAt <-> 2 ≤ db.runs.countP other.isAt := by
  cases h with
  | crippled h => rfl
  | duplicate h hrecorded => rfl
  | added after run h hnone hruns hinfos hvariables hidx hnext hat hclosed =>
    show 2 ≤ after.runs.countP other.isAt <-> _
    rw [hruns, countP_append]
    by_cases hother : other.isAt run = true
    · rw [isAt_congr hat hother, countP_eq_zero.mpr fun old hold =>
        Bool.eq_false_iff.mp (hnone old hold), countP_cons_of_pos hat, countP_nil]
      decide
    · rw [countP_cons_of_neg hother]
      rfl
  | updated run h hrun hopen hfor hsole =>
    show 2 ≤ (db.save (run.feedQacctData record)).runs.countP other.isAt <-> _
    rw [runs_save_feed db record hrun]
    rcases hsole with honly | htimes
    · by_cases hother : other.isFor run = true
      · -- There is one run of the job before and after.
        have hone : db.runs.countP other.isFor = 1 := by
          rw [isFor_congr hfor hother, countP_eq_length_filter]
          exact congrArg length honly
        have hkept : (db.runs.map fun old => if old = run then run.feedQacctData record
            else old).countP other.isFor = db.runs.countP other.isFor :=
          countP_replaced run (run.feedQacctData record) rfl
        have hbefore := countP_isAt_le other db.runs
        have hafter := countP_isAt_le other
          (db.runs.map fun old => if old = run then run.feedQacctData record else old)
        rw [hone] at hbefore
        rw [hkept, hone] at hafter
        omega
      · rw [countP_replaced]
        have hfalse : other.isFor run = false := Bool.eq_false_iff.mpr hother
        show (other.isFor run && _) = (other.isFor run && _)
        rw [hfalse]
        rfl
    · rw [countP_replaced]
      rcases of_decide_eq_true htimes with ⟨hstart, hend⟩
      rcases of_decide_eq_true (Record.isAt_iff.mp (feedQacctData_at h hfor).left).right with
        ⟨hstart', hend'⟩
      show (other.isFor run && decide (_ ∧ _)) = (other.isFor run && decide (_ ∧ _))
      rw [hstart', hend', hstart, hend]

theorem Fed.unaffected (h : Fed db record fed) {records : List Record} (hmem : record ∈ records) :
    fed.1.runs.filter (fun run => !belongs records run) =
      db.runs.filter (fun run => !belongs records run) := by
  have hbelongs : forall {run : JobRun}, record.complete = true -> record.isFor run = true ->
      (run.closed = false ∨ record.sameTimes run = true) -> (!belongs records run) = false := by
    intro run hcomplete hfor hcase
    rw [Bool.not_eq_false']
    apply any_eq_true.mpr
    refine ⟨record, hmem, ?_⟩
    rw [hcomplete, hfor, Bool.and_self, Bool.true_and]
    rcases hcase with hopen | htimes
    · rw [hopen]
      rfl
    · rw [htimes, Bool.or_true]
  cases h with
  | crippled h => rfl
  | duplicate h hrecorded => rfl
  | added after run h hnone hruns hinfos hvariables hidx hnext hat hclosed =>
    rcases Record.isAt_iff.mp hat with ⟨hfor, htimes⟩
    show after.runs.filter _ = _
    rw [hruns, filter_append, filter_cons_of_neg, filter_nil, append_nil]
    rw [hbelongs h hfor (Or.inr htimes)]
    exact Bool.false_ne_true
  | updated run h hrun hopen hfor hsole =>
    show (db.save (run.feedQacctData record)).runs.filter _ = _
    rw [runs_save_feed db record hrun]
    rcases Record.isAt_iff.mp (feedQacctData_at h hfor).left with ⟨hfor', htimes'⟩
    exact filter_replaced (hbelongs h hfor (Or.inl hopen)) (hbelongs h hfor' (Or.inr htimes'))

def NewFor (first : Record) (key : Nat) (db : Database) : Prop :=
  key ≤ db.next ∧ forall run, run ∈ db.runs -> first.isFor run = true -> key ≤ run.idx

theorem Fed.newFor (h : Fed db record fed) {first : Record} {key : Nat}
    (hnew : NewFor first key db) : NewFor first key fed.1 := by
  rcases hnew with ⟨hkey, hruns⟩
  cases h with
  | crippled h => exact ⟨hkey, hruns⟩
  | duplicate h hrecorded => exact ⟨hkey, hruns⟩
  | added after run h hnone happended hinfos hvariables hidx hnext hat hclosed =>
    refine ⟨hkey.trans hnext, fun old hold hfor => ?_⟩
    rw [happended] at hold
    rcases mem_append.mp hold with hbefore | hadded
    · exact hruns old hbefore hfor
    · rw [mem_singleton.mp hadded, hidx]
      exact hkey
  | updated run h hrun hopen hrunFor hsole =>
    refine ⟨hkey, fun old hold hfor => ?_⟩
    have hold' : old ∈ (db.save (run.feedQacctData record)).runs := hold
    rw [runs_save_feed db record hrun] at hold'
    rcases mem_map.mp hold' with ⟨before, hbefore, rfl⟩
    by_cases heq : before = run
    · rw [if_pos heq] at hfor ⊢
      exact hruns run hrun hfor
    · rw [if_neg heq] at hfor ⊢
      exact hruns before hbefore hfor

end Step

section All

variable (env : Surroundings) {db : Database} {records : List Record}

theorem feedAll_invariant (inv : Database -> Prop)
    (hstep : forall db record, record ∈ records -> inv db -> inv (feedQacct env db record).1)
    (h : inv db) : inv (feedAll env db records).1 := by
  induction records generalizing db with
  | nil => exact h
  | cons record rest ih =>
    apply ih (fun db' later hlater => hstep db' later (mem_cons_of_mem record hlater))
    exact hstep db record mem_cons_self h

theorem feedAll_unmatched (h : (feedAll env db records).2 = 0) :
    (feedAll env db records).1 = db := by
  induction records generalizing db with
  | nil => rfl
  | cons record rest ih =>
    rcases Nat.add_eq_zero_iff.mp h with ⟨hmatched, hlater⟩
    have hsame := (feedQacct_fed env db record).unmatched hmatched
    exact (ih hlater).trans hsame

theorem feedAll_recorded {record : Record} (hmem : record ∈ records)
    (hcomplete : record.complete = true) : Recorded record (feedAll env db records).1 := by
  induction records generalizing db with
  | nil => cases hmem
  | cons first rest ih =>
    have hfirst := feedQacct_fed env db first
    rcases mem_cons.mp hmem with rfl | hlater
    · show Recorded record (feedAll env (feedQacct env db record).1 rest).1
      exact feedAll_invariant env (Recorded record)
        (fun db' other _ h => (feedQacct_fed env db' other).keepsRecorded h)
        (hfirst.recorded hcomplete)
    · exact ih hlater

theorem feedAll_several (other : Record) :
    2 ≤ (feedAll env db records).1.runs.countP other.isAt <->
      2 ≤ db.runs.countP other.isAt := by
  apply feedAll_invariant env fun after =>
    (2 ≤ after.runs.countP other.isAt <-> 2 ≤ db.runs.countP other.isAt)
  · intro db' record _ h
    exact ((feedQacct_fed env db' record).several other).trans h
  · rfl

theorem feedAll_unaffected : Unaffected records db (feedAll env db records).1 := by
  have hattached : (feedAll env db records).1.peInfos = db.peInfos ∧
      (feedAll env db records).1.jobVariables = db.jobVariables := by
    apply feedAll_invariant env fun after =>
      after.peInfos = db.peInfos ∧ after.jobVariables = db.jobVariables
    · intro db' record _ h
      have hstep := (feedQacct_fed env db' record).attached
      exact ⟨hstep.left.trans h.left, hstep.right.trans h.right⟩
    · exact ⟨rfl, rfl⟩
  constructor
  · apply feedAll_invariant env fun after =>
      after.runs.filter (fun run => !belongs records run) =
        db.runs.filter (fun run => !belongs records run)
    · intro db' record hmem h
      exact ((feedQacct_fed env db' record).unaffected hmem).trans h
    · rfl
  · intro run _ _
    rw [hattached.left]
  · intro run _ _
    rw [hattached.right]

theorem eq_of_countP_le_one {kind : JobRun -> Bool} {runs : List JobRun} {run run' : JobRun}
    (h : runs.countP kind ≤ 1) (hrun : run ∈ runs) (hrun' : run' ∈ runs)
    (hkind : kind run = true) (hkind' : kind run' = true) : run = run' := by
  rw [countP_eq_length_filter] at h
  have hmem := mem_filter.mpr ⟨hrun, hkind⟩
  have hmem' := mem_filter.mpr ⟨hrun', hkind'⟩
  cases hruns : runs.filter kind with
  | nil =>
    rw [hruns] at hmem
    cases hmem
  | cons only others =>
    rw [hruns, length_cons] at h
    rw [hruns, eq_nil_of_length_eq_zero (Nat.le_zero.mp (Nat.le_of_succ_le_succ h)),
      mem_singleton] at hmem hmem'
    exact hmem.trans hmem'.symm

theorem feedQacct_duplicate {record : Record}
    (h : record.complete = true -> Recorded record db ∧ db.runs.countP record.isAt ≤ 1) :
    feedQacct env db record = (db, 0) := by
  have hfed := feedQacct_fed env db record
  generalize feedQacct env db record = fed at hfed
  cases hfed with
  | crippled hcrippled => rfl
  | duplicate hcomplete hrecorded => rfl
  | added after run hcomplete hnone =>
    rcases (h hcomplete).left with ⟨old, hold, hat, _⟩
    rw [hnone old hold] at hat
    cases hat
  | updated run hcomplete hrun hopen hfor hsole =>
    rcases h hcomplete with ⟨⟨old, hold, hat, hclosed⟩, hle⟩
    have hsame : old = run := by
      rcases hsole with honly | htimes
      · have hmem : old ∈ db.runsOf record :=
          mem_filter.mpr ⟨hold, (Record.isAt_iff.mp hat).left⟩
        rw [honly] at hmem
        exact mem_singleton.mp hmem
      · exact eq_of_countP_le_one hle hold hrun hat (Record.isAt_iff.mpr ⟨hfor, htimes⟩)
    rw [hsame, hopen] at hclosed
    cases hclosed

theorem feedAll_duplicates (h : forall record, record ∈ records -> record.complete = true ->
      Recorded record db ∧ db.runs.countP record.isAt ≤ 1) :
    feedAll env db records = (db, 0) := by
  induction records with
  | nil => rfl
  | cons record rest ih =>
    have hrest := ih fun later hlater => h later (mem_cons_of_mem record hlater)
    rw [feedAll, feedQacct_duplicate env (h record mem_cons_self)]
    simp only [hrest]

theorem feedAll_deleted (first : Record)
    (hrun : run ∈ (feedAll env (db.deleteRuns first) records).1.runs)
    (hfor : first.isFor run = true) : db.next ≤ run.idx := by
  have hinv : NewFor first db.next (feedAll env (db.deleteRuns first) records).1 := by
    apply feedAll_invariant env (NewFor first db.next)
    · exact fun db' record _ h => (feedQacct_fed env db' record).newFor h
    · refine ⟨Nat.le_refl _, fun old hold hfor => ?_⟩
      have hdeleted := (mem_filter.mp hold).right
      rw [hfor] at hdeleted
      cases hdeleted
  exact hinv.right run hrun hfor

end All

section Import

variable (env : Surroundings) {db : Database} {records : List Record} {needed : Nat}

theorem deleteRuns_of_none {first : Record}
    (h : forall run, run ∈ db.runs -> first.isFor run = false) : db.deleteRuns first = db := by
  have hnone : db.runsOf first = [] :=
    filter_eq_nil_iff.mpr fun run hrun => Bool.eq_false_iff.mp (h run hrun)
  have hruns : db.runs.filter (fun run => !first.isFor run) = db.runs :=
    filter_eq_self.mpr fun run hrun => by rw [h run hrun]; rfl
  have hinfos : (db.deleteRuns first).peInfos = db.peInfos :=
    filter_eq_self.mpr fun info _ => by rw [hnone]; rfl
  have hvariables : (db.deleteRuns first).jobVariables = db.jobVariables :=
    filter_eq_self.mpr fun entry _ => by
      rw [hnone]
      exact decide_eq_true fun _ _ => not_mem_nil
  exact Database.ext hruns hinfos hvariables rfl

theorem importRecords_fed (h : needed ≠ records.length ∨ exists first, records.head? = some first ∧
      forall run, run ∈ db.runs -> first.isFor run = false) :
    exists imported, importRecords env db records needed = .ok imported ∧
      imported.db = (feedAll env db records).1 := by
  unfold importRecords
  by_cases hclause : needed = records.length ∧ (feedAll env db records).2 = 0
  · rcases h with hne | ⟨first, hfirst, hnone⟩
    · exact absurd hclause.left hne
    · have hsame := feedAll_unmatched env hclause.right
      rw [if_pos hclause, hfirst, hsame]
      refine ⟨_, rfl, ?_⟩
      show (feedAll env (db.deleteRuns first) records).1 = db
      rw [deleteRuns_of_none hnone, hsame]
  · rw [if_neg hclause]
    exact ⟨_, rfl, rfl⟩

variable {imported : Imported}

theorem importRecords_ok (h : importRecords env db records needed = .ok imported) :
    exists start, imported.db = (feedAll env start records).1 := by
  unfold importRecords at h
  by_cases hclause : needed = records.length ∧ (feedAll env db records).2 = 0
  · rw [if_pos hclause] at h
    cases hfirst : records.head? with
    | none =>
      rw [hfirst] at h
      cases h
    | some first =>
      rw [hfirst] at h
      cases h
      exact ⟨_, rfl⟩
  · rw [if_neg hclause] at h
    cases h
    exact ⟨_, rfl⟩

/-- Where there are duplicates only and as many as needed, the runs of the first record are
deleted. -/
theorem importRecords_deletes (h : forall record, record ∈ records -> record.complete = true ->
      Recorded record db ∧ db.runs.countP record.isAt ≤ 1) (hneeded : needed = records.length)
    (himport : importRecords env db records needed = .ok imported) :
    exists first, records.head? = some first ∧
      imported.db = (feedAll env (db.deleteRuns first) records).1 := by
  have hsame := feedAll_duplicates env h
  unfold importRecords at himport
  rw [hsame, if_pos ⟨hneeded, rfl⟩] at himport
  cases hfirst : records.head? with
  | none =>
    rw [hfirst] at himport
    cases himport
  | some first =>
    rw [hfirst] at himport
    cases himport
    exact ⟨first, rfl, rfl⟩

end Import

/-- Two records are for the same job and task. -/
def Record.sameJob (record other : Record) : Prop :=
  record.jobnumber = other.jobnumber ∧ record.taskid = other.taskid

theorem sameJob_of_isFor {record other : Record} (h : record.isFor run = true)
    (h' : other.isFor run = true) : record.sameJob other := by
  rcases of_decide_eq_true h with ⟨hjob, htask⟩
  rcases of_decide_eq_true h' with ⟨hjob', htask'⟩
  exact ⟨hjob.symm.trans hjob', htask.symm.trans htask'⟩

theorem not_belongs {records : List Record} {first : Record}
    (h : forall record, record ∈ records -> record.complete = true -> ¬ record.sameJob first)
    (hrun : first.isFor run = true) : belongs records run = false := by
  by_contra hbelongs
  rcases any_eq_true.mp (Bool.not_eq_false _ ▸ hbelongs) with ⟨record, hmem, hrecord⟩
  rcases Bool.and_eq_true_iff.mp (Bool.and_eq_true_iff.mp hrecord).left with ⟨hcomplete, hfor⟩
  exact h record hmem hcomplete (sameJob_of_isFor hfor hrun)

theorem Unaffected.mem_iff {records : List Record} {before after : Database}
    (h : Unaffected records before after) (hrun : belongs records run = false) :
    run ∈ after.runs <-> run ∈ before.runs := by
  have hkept : (!belongs records run) = true := by
    rw [hrun]
    rfl
  have hmem : run ∈ after.runs.filter (fun run => !belongs records run) <->
      run ∈ before.runs.filter (fun run => !belongs records run) := by
    rw [h.runs]
  rwa [mem_filter, mem_filter, and_iff_left hkept, and_iff_left hkept] at hmem

theorem interpretQacct_eq {env : Surroundings} {curOut : Text} {records : List Record}
    (hrecords : readOutput env.localize curOut = .ok records) (db : Database) (needed : Nat)
    (now : Int) :
    interpretQacct { env with now := now } db curOut needed =
      importRecords { env with now := now } db records needed := by
  show readOutput env.localize curOut >>= _ = _
  rw [hrecords]
  rfl

/-- The records deletes no runs: their number is not the one that is needed, or the job of the
first one has neither a complete record nor runs. -/
def NothingToDelete (db : Database) (records : List Record) (needed : Nat) : Prop :=
  needed ≠ records.length ∨ exists first, records.head? = some first ∧
    (forall record, record ∈ records -> record.complete = true -> ¬ record.sameJob first) ∧
    forall run, run ∈ db.runs -> first.isFor run = false

section Output

variable {env : Surroundings} {db : Database} {curOut : Text} {records : List Record}
  {needed : Nat} (hrecords : readOutput env.localize curOut = .ok records)
include hrecords

theorem ImportedOnce.nothingToDelete (h : ImportedOnce env db curOut records needed) :
    NothingToDelete db records needed := by
  rcases h with ⟨imported, himport, hone, hunaffected, hagain⟩
  by_cases hneeded : needed = records.length
  · right
    have hrecorded : forall record, record ∈ records -> record.complete = true ->
        Recorded record imported.db := by
      intro record hmem hcomplete
      rw [interpretQacct_eq hrecords db needed env.now] at himport
      rcases importRecords_ok env himport with ⟨start, hstart⟩
      rw [hstart]
      exact feedAll_recorded env hmem hcomplete
    rcases hagain env.now with ⟨again, hsecond, hsame⟩
    rw [interpretQacct_eq hrecords] at hsecond
    rcases importRecords_deletes env (fun record hmem hcomplete =>
      ⟨hrecorded record hmem hcomplete, le_of_eq (hone record hmem hcomplete)⟩) hneeded
      hsecond with ⟨first, hfirst, hdeleted⟩
    -- A run of the first record would be newer than all runs.
    have hnone : forall run, run ∈ imported.db.runs -> first.isFor run = false := by
      intro run hrun
      by_contra hfor
      have hmade : run ∈ (feedAll env (imported.db.deleteRuns first) records).1.runs := by
        rw [← hdeleted, hsame]
        exact hrun
      have hnew := feedAll_deleted env first hmade (Bool.not_eq_false _ ▸ hfor)
      exact absurd (imported.db.fresh run hrun) (Nat.not_lt.mpr hnew)
    have hjobs : forall record, record ∈ records -> record.complete = true ->
        ¬ record.sameJob first := by
      rintro record hmem hcomplete ⟨hjob, htask⟩
      rcases hrecorded record hmem hcomplete with ⟨run, hrun, hat, _⟩
      have hfor := hnone run hrun
      rw [Record.isFor, ← hjob, ← htask] at hfor
      exact absurd (Record.isAt_iff.mp hat).left (Bool.eq_false_iff.mp hfor)
    refine ⟨first, hfirst, hjobs, fun run hrun => ?_⟩
    by_contra hfor
    have hout := not_belongs hjobs (Bool.not_eq_false _ ▸ hfor)
    exact hfor (hnone run ((hunaffected.mem_iff hout).mpr hrun))
  · exact Or.inl hneeded

theorem NothingToDelete.fed (h : NothingToDelete db records needed) (now : Int) :
    exists imported, interpretQacct { env with now := now } db curOut needed = .ok imported ∧
      imported.db = (feedAll { env with now := now } db records).1 := by
  rw [interpretQacct_eq hrecords]
  exact importRecords_fed _ (h.imp_right fun ⟨first, hfirst, _, hnone⟩ => ⟨first, hfirst, hnone⟩)

theorem ImportedOnce.single (h : ImportedOnce env db curOut records needed) {record : Record}
    (hmem : record ∈ records) (hcomplete : record.complete = true) :
    db.runs.countP record.isAt ≤ 1 := by
  rcases (h.nothingToDelete hrecords).fed hrecords env.now with ⟨fed, hfed, hdb⟩
  rcases h with ⟨imported, himport, hone, _, _⟩
  cases himport.symm.trans hfed
  refine Nat.le_of_not_lt fun hseveral => ?_
  have hafter : 2 ≤ (feedAll env db records).1.runs.countP record.isAt :=
    (feedAll_several env record).mpr hseveral
  rw [← hdb, hone record hmem hcomplete] at hafter
  exact absurd hafter (by decide)

theorem importedOnce_of (hsingle : forall record, record ∈ records -> record.complete = true ->
      db.runs.countP record.isAt ≤ 1) (hclause : NothingToDelete db records needed) :
    ImportedOnce env db curOut records needed := by
  rcases hclause.fed hrecords env.now with ⟨imported, himport, hdb⟩
  have hrecorded : forall record, record ∈ records -> record.complete = true ->
      Recorded record imported.db := by
    intro record hmem hcomplete
    rw [hdb]
    exact feedAll_recorded env hmem hcomplete
  have hunaffected : Unaffected records db imported.db := by
    rw [hdb]
    exact feedAll_unaffected env
  have hatMost : forall record, record ∈ records -> record.complete = true ->
      imported.db.runs.countP record.isAt ≤ 1 := by
    intro record hmem hcomplete
    refine Nat.le_of_not_lt fun hseveral => ?_
    rw [hdb] at hseveral
    exact absurd (hsingle record hmem hcomplete)
      (Nat.not_le.mpr ((feedAll_several env record).mp hseveral))
  refine ⟨imported, himport, ?_, hunaffected, fun now => ?_⟩
  · intro record hmem hcomplete
    rcases hrecorded record hmem hcomplete with ⟨run, hrun, hat, _⟩
    exact le_antisymm (hatMost record hmem hcomplete) (countP_pos_iff.mpr ⟨run, hrun, hat⟩)
  · have hkept : NothingToDelete imported.db records needed := by
      refine hclause.imp_right fun ⟨first, hfirst, hjobs, hnone⟩ => ⟨first, hfirst, hjobs, ?_⟩
      intro run hrun
      by_contra hfor
      have hout := not_belongs hjobs (Bool.not_eq_false _ ▸ hfor)
      exact hfor (hnone run ((hunaffected.mem_iff hout).mp hrun))
    rcases hkept.fed hrecords now with ⟨again, hsecond, hsame⟩
    refine ⟨again, hsecond, ?_⟩
    rw [hsame, feedAll_duplicates { env with now := now } fun record hmem hcomplete =>
      ⟨hrecorded record hmem hcomplete, hatMost record hmem hcomplete⟩]

end Output

/-- An output is imported once if and only if no complete record has several runs already,
and the records delete no runs. -/
theorem interpretQacct_importedOnce_iff (env : Surroundings) (db : Database) {curOut : Text}
    {records : List Record} (hrecords : readOutput env.localize curOut = .ok records)
    (needed : Nat) :
    ImportedOnce env db curOut records needed <->
      (forall record, record ∈ records -> record.complete = true ->
        db.runs.countP record.isAt ≤ 1) ∧
      NothingToDelete db records needed := by
  constructor
  · intro h
    exact ⟨fun record hmem hcomplete => h.single hrecords hmem hcomplete,
      h.nothingToDelete hrecords⟩
  · rintro ⟨hsingle, hclause⟩
    exact importedOnce_of hrecords hsingle hclause

section Example

def noRuns : Database where
  runs := []
  peInfos := []
  jobVariables := []
  next := 1
  fresh := fun _ hrun => absurd hrun not_mem_nil
  unique := nodup_nil

/-- The times of the example, in a cluster whose time zone is UTC. -/
def utcTime (text : Text) : Option Int :=
  if text = "Mon Jan  5 09:00:00 2015".toList then some 1420448400
  else if text = "Mon Jan  5 10:00:00 2015".toList then some 1420452000
  else none

def exampleEnv : Surroundings where
  localize := utcTime
  getDevice := fun _ => none
  now := 1420455600

def exampleLines : List Text :=
  ["===", "qname all.q", "hostname node1", "owner smith", "jobname sim", "jobnumber 7",
    "taskid undefined", "granted_pe NONE", "slots 1", "priority 0", "project NONE",
    "department users", "account sge", "failed 0", "exit_status 0", "qsub_time -/-",
    "start_time Mon Jan  5 09:00:00 2015", "end_time Mon Jan  5 10:00:00 2015"].map String.toList

def exampleOutput : Text := (exampleLines.intersperse ['\n']).flatten

def exampleRecord : Record where
  jobnumber := 7
  taskid := none
  taskid_ne_zero := nofun
  owner := "smith".toList
  jobname := "sim".toList
  hostname := "node1".toList
  qname := "all.q".toList
  grantedPe := none
  slots := some 1
  priority := 0
  project := none
  department := some "users".toList
  account := "sge".toList
  failed := (0, [])
  exitStatus := (0, [])
  qsubTime := none
  startTime := some 1420448400
  endTime := some 1420452000

theorem readOutput_example : readOutput exampleEnv.localize exampleOutput = .ok [exampleRecord] :=
  ok_of_toOption (by decide +kernel)

/-- The record of a job of which two runs are missing. -/
theorem example_importedOnce : ImportedOnce exampleEnv noRuns exampleOutput [exampleRecord] 2 :=
  (interpretQacct_importedOnce_iff exampleEnv noRuns readOutput_example 2).mpr
    ⟨fun _ _ _ => Nat.zero_le 1, Or.inl (by decide)⟩

/-- The record of a job of which one run is missing: the import that follows deletes the run. -/
theorem example_not_importedOnce :
    ¬ ImportedOnce exampleEnv noRuns exampleOutput [exampleRecord] 1 := by
  intro h
  rcases h.nothingToDelete readOutput_example with hne | ⟨first, hfirst, hjobs, _⟩
  · exact hne rfl
  · cases hfirst
    exact hjobs exampleRecord mem_cons_self rfl ⟨rfl, rfl⟩

end Example

end Icsw.Rms
