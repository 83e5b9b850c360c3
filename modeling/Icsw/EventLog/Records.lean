import Icsw.EventLog.Model

/-!
# Checks of single jobs

What one check of a job stores, and what it keeps true of the job.
-/

namespace Icsw.EventLog

open Foundation List

/-- The records of each device are stored in the order of their ids, without a gap. -/
def Database.Counted (db : Database) : Prop :=
  forall device, exists count, db.recordIds device = range' 1 count

/-- What an IPMI job knows of the records that are stored of its device. -/
def IpmiFits (count : Nat) (lastKnown : Option Nat) : IpmiPhase -> Prop
  | .retrieveEvents current _ _ => current = count + 1
  | _ => lastKnown.getD 0 = count

theorem recordIds_storeIpmi (db : Database) (device recordId other : Nat) :
    (db.storeIpmi device recordId).recordIds other =
      db.recordIds other ++ if device = other then [recordId] else [] := by
  unfold Database.recordIds Database.storeIpmi
  rw [filter_append, map_append]
  by_cases hdevice : device = other
  · simp [hdevice]
  · simp [hdevice]

theorem started_ne_finished (tick : Tick) {found : Option Nat} :
    started tick ≠ .finished found := by
  unfold started
  cases tick.spawns with
  | false => exact Verdict.noConfusion
  | true => exact Verdict.noConfusion

theorem ipmiNext_fits (tick : Tick) (count maximum : Nat) (extCom : Option ExtCom) (idle : Bool)
    (lastKnown : Option Nat) :
    IpmiFits count lastKnown (ipmiNext tick (count + 1) maximum extCom idle).1 ∧
      forall found, (ipmiNext tick (count + 1) maximum extCom idle).2 = .finished (some found) ->
        found ≤ count := by
  unfold ipmiNext
  by_cases hmore : count + 1 ≤ maximum
  · rw [if_pos hmore]
    cases idle with
    | true => exact ⟨rfl, fun found hfound => absurd hfound (started_ne_finished tick)⟩
    | false => exact ⟨rfl, fun found hfound => Verdict.noConfusion hfound⟩
  · rw [if_neg hmore]
    refine ⟨rfl, fun found hfound => ?_⟩
    cases hfound
    exact Nat.le_of_lt_succ (Nat.lt_of_not_le hmore)

/-- What a check of an IPMI job stores, and what the job knows afterwards: no record is stored,
or the one that follows the last one. -/
def IpmiChecked (device count : Nat) (lastKnown : Option Nat) (db : Database)
    (checked : Database × IpmiPhase × Verdict) : Prop :=
  exists count', (count' = count ∧ checked.1 = db ∨
      count' = count + 1 ∧ checked.1 = db.storeIpmi device (count + 1)) ∧
    IpmiFits count' lastKnown checked.2.1 ∧
    forall found, checked.2.2 = .finished (some found) -> found ≤ count'

variable {lastKnown : Option Nat}

theorem ipmiChecked_same {device count : Nat} {db : Database}
    {phase : IpmiPhase} {verdict : Verdict} (h : IpmiFits count lastKnown phase)
    (hverdict : forall found, verdict = .finished (some found) -> found ≤ count) :
    IpmiChecked device count lastKnown db (db, phase, verdict) :=
  ⟨count, Or.inl ⟨rfl, rfl⟩, h, hverdict⟩

theorem ipmiCheck_checked (device : Nat) {count : Nat}
    {phase : IpmiPhase} (tick : Tick) (db : Database) (h : IpmiFits count lastKnown phase) :
    IpmiChecked device count lastKnown db (ipmiCheck device lastKnown tick db phase) := by
  have hstarted : forall found, started tick = .finished (some found) -> found ≤ count :=
    fun found hfound => absurd hfound (started_ne_finished tick)
  have hcontinues : forall found, Verdict.continues = .finished (some found) -> found ≤ count :=
    fun found hfound => Verdict.noConfusion hfound
  have hraised : forall found, Verdict.raised = .finished (some found) -> found ≤ count :=
    fun found hfound => Verdict.noConfusion hfound
  cases phase with
  | findMaximum extCom =>
    rcases extCom with _ | _ | answer | _
    · exact ipmiChecked_same h hstarted
    · exact ipmiChecked_same h hcontinues
    · show IpmiChecked device count lastKnown db (db, ipmiMaximum lastKnown answer)
      unfold ipmiMaximum
      cases (answer.succeeded.bind Output.recordIds).bind max? with
      | none => exact ipmiChecked_same h hraised
      | some maximum =>
        by_cases hknown : lastKnown = some maximum
        · simp only [if_pos hknown]
          refine ipmiChecked_same h fun found hfound => ?_
          cases hfound
          rw [← (h : lastKnown.getD 0 = count), hknown]
          rfl
        · simp only [if_neg hknown]
          exact ipmiChecked_same h hcontinues
    · exact ipmiChecked_same h hraised
  | retrieveTime maximum extCom =>
    rcases extCom with _ | _ | answer | _
    · exact ipmiChecked_same h hstarted
    · exact ipmiChecked_same h hcontinues
    · show IpmiChecked device count lastKnown db (db, ipmiTime lastKnown maximum answer)
      unfold ipmiTime
      cases answer.succeeded with
      | none => exact ipmiChecked_same h hraised
      | some output => exact ipmiChecked_same (congrArg (· + 1) h) hcontinues
    · exact ipmiChecked_same h hraised
  | retrieveEvents current maximum extCom =>
    have hcurrent : current = count + 1 := h
    subst hcurrent
    rcases extCom with _ | _ | answer | _
    · exact ⟨count, Or.inl ⟨rfl, rfl⟩, ipmiNext_fits tick count maximum none true lastKnown⟩
    · exact ⟨count, Or.inl ⟨rfl, rfl⟩,
        ipmiNext_fits tick count maximum (some .running) tick.late lastKnown⟩
    · show IpmiChecked device count lastKnown db
        (ipmiFeed device tick db (count + 1) maximum answer)
      unfold ipmiFeed
      cases answer.succeeded with
      | none => exact ipmiChecked_same h hraised
      | some output =>
        exact ⟨count + 1, Or.inr ⟨rfl, rfl⟩,
          ipmiNext_fits tick (count + 1) maximum (some (.ended answer)) true lastKnown⟩
    · exact ipmiChecked_same h hraised

variable (log : List WmiEntry)

def Reached (number : Nat) : Prop :=
  number = 0 ∨ exists entry, entry ∈ log ∧ number ≤ entry.recordNumber

/-- All entries up to a number are stored, and no others will follow. -/
structure Covered (db : Database) (device : Nat) (name : Text) (number : Nat) : Prop where
  reached : Reached log number
  stored : forall entry, entry ∈ log -> entry.recordNumber ≤ number ->
    (device, name, entry.recordNumber) ∈ db.wmiEventLog

theorem Reached.mono {log : List WmiEntry} {number number' : Nat} (h : Reached log number')
    (hle : number ≤ number') : Reached log number := by
  rcases h with rfl | ⟨entry, hentry, hnumber⟩
  · exact Or.inl (Nat.le_zero.mp hle)
  · exact Or.inr ⟨entry, hentry, hle.trans hnumber⟩

theorem Covered.mono {log : List WmiEntry} {db db' : Database} {device : Nat} {name : Text}
    {number : Nat} (h : Covered log db device name number)
    (hstored : db.wmiEventLog ⊆ db'.wmiEventLog) : Covered log db' device name number where
  reached := h.reached
  stored := fun entry hentry hle => hstored (h.stored entry hentry hle)

/-- The entries that a query between two numbers gives. -/
def between (lower upper : Nat) : List WmiEntry :=
  log.filter fun entry => decide (lower < entry.recordNumber ∧ entry.recordNumber ≤ upper)

/-- What a WMI job knows of the log and the entries that are stored of it. -/
def WmiFits (db : Database) (device : Nat) (name : Text) : WmiPhase -> Prop
  | .initial => True
  | .findMaximum extCom => forall answer parsed, extCom = .ended answer ->
      answer.output.wmiEntries = some parsed -> forall entry, entry ∈ parsed -> entry ∈ log
  | .retrieveEvents lower upper extCom =>
    Covered log db device name lower ∧ Reached log upper ∧
      forall answer parsed, extCom = some (.ended answer) ->
        answer.succeeded.bind Output.wmiEntries = some parsed ->
          parsed = between log lower (nextUpperLimit lower upper) ∧
            forall entry, entry ∈ parsed -> entry.dated = true

structure LogFits : Prop where
  increasing : log.Pairwise fun entry entry' => entry.recordNumber < entry'.recordNumber
  positive : forall entry, entry ∈ log -> 0 < entry.recordNumber

theorem covered_zero {log : List WmiEntry} (hlog : LogFits log) (db : Database) (device : Nat)
    (name : Text) : Covered log db device name 0 where
  reached := Or.inl rfl
  stored := fun entry hentry hle => absurd (hlog.positive entry hentry) (Nat.not_lt.mpr hle)

/-- What a check of a WMI job stores, and what the job knows afterwards. -/
structure WmiChecked (device : Nat) (name : Text) (db : Database)
    (checked : Database × WmiPhase × Verdict) : Prop where
  ipmi : checked.1.ipmiEventLog = db.ipmiEventLog
  stored : db.wmiEventLog ⊆ checked.1.wmiEventLog
  once : checked.1.wmiEventLog.Nodup
  maximal : forall device' name' number, checked.1.wmiMaximal device' name' = some number ->
    db.wmiMaximal device' name' = some number ∨
      (device' = device ∧ name' = name ∧ Covered log checked.1 device name number)
  fits : WmiFits log checked.1 device name checked.2.1
  finished : forall found, checked.2.2 = .finished (some found) ->
    Covered log checked.1 device name found

section WmiCheck

variable {log : List WmiEntry} {db : Database} {device : Nat} {name : Text}

theorem wmiChecked_same (honce : db.wmiEventLog.Nodup) {phase : WmiPhase} {verdict : Verdict}
    (hfits : WmiFits log db device name phase)
    (hverdict : forall found, verdict = .finished (some found) ->
      Covered log db device name found) :
    WmiChecked log device name db (db, phase, verdict) where
  ipmi := rfl
  stored := Subset.refl _
  once := honce
  maximal := fun _ _ _ hnumber => Or.inl hnumber
  fits := hfits
  finished := hverdict

theorem wmiNext_fits (tick : Tick) {lower upper : Nat} (hlower : Covered log db device name lower)
    (hupper : Reached log upper) :
    WmiFits log db device name (wmiNext tick lower upper).1 ∧
      forall found, (wmiNext tick lower upper).2 = .finished (some found) ->
        Covered log db device name found := by
  unfold wmiNext
  by_cases hdone : upper ≤ lower
  · rw [if_pos hdone]
    refine ⟨⟨hlower, hupper, fun _ _ hcom => nomatch hcom⟩, ?_⟩
    intro found hfound
    cases hfound
    exact ⟨hupper, fun entry hentry hle => hlower.stored entry hentry (hle.trans hdone)⟩
  · rw [if_neg hdone]
    refine ⟨⟨hlower, hupper, fun answer parsed hcom => ?_⟩, fun found hfound =>
      absurd hfound (started_ne_finished tick)⟩
    have hrun : ExtCom.run tick = .ended answer := Option.some.inj hcom
    unfold ExtCom.run at hrun
    cases hspawns : tick.spawns with
    | false =>
      rw [hspawns] at hrun
      cases hrun
    | true =>
      rw [hspawns] at hrun
      cases hrun

theorem max?_mem_map {parsed : List WmiEntry} {maximum : Nat}
    (h : (parsed.map WmiEntry.recordNumber).max? = some maximum) :
    exists entry, entry ∈ parsed ∧ entry.recordNumber = maximum :=
  mem_map.mp (max?_mem h)

theorem wmiMaximum_checked (hlog : LogFits log) (honce : db.wmiEventLog.Nodup)
    (hlast : forall number, lastKnown = some number -> Covered log db device name number)
    {answer : Answer} (hfits : WmiFits log db device name (.findMaximum (.ended answer))) :
    WmiChecked log device name db (db, wmiMaximum lastKnown answer) := by
  unfold wmiMaximum
  cases hparsed : answer.output.wmiEntries with
  | none => exact wmiChecked_same honce hfits fun _ hfound => Verdict.noConfusion hfound
  | some parsed =>
    simp only []
    cases hmax : (parsed.map WmiEntry.recordNumber).max? with
    | none => exact wmiChecked_same honce hfits fun _ hfound => by cases hfound
    | some maximum =>
      rcases max?_mem_map hmax with ⟨entry, hentry, hnumber⟩
      have hreached : Reached log maximum :=
        Or.inr ⟨entry, hfits answer parsed rfl hparsed entry hentry, le_of_eq hnumber.symm⟩
      have hknown : Covered log db device name (lastKnown.getD 0) := by
        cases lastKnown with
        | none => exact covered_zero hlog db device name
        | some number => exact hlast number rfl
      by_cases hmore : lastKnown = none ∨ lastKnown.getD 0 < maximum
      · simp only [if_pos hmore]
        exact wmiChecked_same honce
          ⟨hknown, hreached, fun _ _ hcom => nomatch hcom⟩
          fun _ hfound => Verdict.noConfusion hfound
      · simp only [if_neg hmore]
        refine wmiChecked_same honce hfits fun found hfound => ?_
        cases hfound
        have hle := Nat.not_lt.mp (not_or.mp hmore).right
        exact ⟨hreached, fun entry hentry hnumber =>
          hknown.stored entry hentry (hnumber.trans hle)⟩

theorem mem_wmiRows {parsed : List WmiEntry} {row : Nat × Text × Nat} :
    row ∈ wmiRows device name parsed <->
      exists entry, (entry ∈ parsed ∧ entry.dated = true) ∧
        (device, name, entry.recordNumber) = row := by
  unfold wmiRows
  rw [mem_map]
  exact exists_congr fun entry => by rw [mem_filter]

theorem nodup_wmiRows (hlog : LogFits log) (lower upper : Nat) :
    (wmiRows device name (between log lower upper)).Nodup := by
  apply Pairwise.map (R := fun entry entry' => entry.recordNumber < entry'.recordNumber)
  · intro entry entry' hless heq
    injection heq with _ hrest
    injection hrest with _ hnumber
    exact absurd hnumber (Nat.ne_of_lt hless)
  · exact (hlog.increasing.filter _).filter _

theorem wmiFeed_checked (hlog : LogFits log) (honce : db.wmiEventLog.Nodup) (tick : Tick)
    {lower upper : Nat} {answer : Answer}
    (hfits : WmiFits log db device name (.retrieveEvents lower upper (some (.ended answer)))) :
    WmiChecked log device name db (wmiFeed device name tick db lower upper answer) := by
  rcases hfits with ⟨hlower, hupper, hanswer⟩
  unfold wmiFeed
  cases hparsed : answer.succeeded.bind Output.wmiEntries with
  | none =>
    exact wmiChecked_same honce ⟨hlower, hupper, hanswer⟩
      fun _ hfound => Verdict.noConfusion hfound
  | some parsed =>
    simp only []
    by_cases hknown : ((wmiRows device name parsed).any fun row =>
        decide (row ∈ db.wmiEventLog)) = true
    · rw [if_pos hknown]
      exact wmiChecked_same honce ⟨hlower, hupper, hanswer⟩
        fun _ hfound => Verdict.noConfusion hfound
    · rw [if_neg hknown]
      rcases hanswer answer parsed rfl hparsed with ⟨hparsed, hdated⟩
      have hnew : forall row, row ∈ wmiRows device name parsed -> row ∉ db.wmiEventLog :=
        fun row hrow hmem =>
          hknown (any_eq_true.mpr ⟨row, hrow, decide_eq_true hmem⟩)
      have hcovered : Covered log (db.storeWmi device name (wmiRows device name parsed)
          (nextUpperLimit lower upper)) device name (nextUpperLimit lower upper) := by
        refine ⟨hupper.mono (Nat.min_le_right _ _), fun entry hentry hle => ?_⟩
        rcases Nat.lt_or_ge lower entry.recordNumber with habove | hbelow
        · apply mem_append_right
          have hmem : entry ∈ parsed := by
            rw [hparsed]
            exact mem_filter.mpr ⟨hentry, decide_eq_true ⟨habove, hle⟩⟩
          exact mem_wmiRows.mpr ⟨entry, ⟨hmem, hdated entry hmem⟩, rfl⟩
        · exact mem_append_left _ (hlower.stored entry hentry hbelow)
      have hnext := wmiNext_fits tick hcovered hupper
      refine ⟨rfl, fun row hrow => mem_append_left _ hrow, ?_, ?_, hnext.left, hnext.right⟩
      · apply nodup_append.mpr
        refine ⟨honce, ?_, ?_⟩
        · rw [hparsed]
          exact nodup_wmiRows hlog lower _
        · intro row hrow row' hrow' heq
          exact hnew row' hrow' (heq ▸ hrow)
      · intro device' name' number hnumber
        by_cases hsame : device' = device ∧ name' = name
        · have hlimit : some (nextUpperLimit lower upper) = some number :=
            (if_pos hsame).symm.trans hnumber
          cases hlimit
          exact Or.inr ⟨hsame.left, hsame.right, hcovered⟩
        · exact Or.inl ((if_neg hsame).symm.trans hnumber)

theorem wmiCheck_checked (hlog : LogFits log) (honce : db.wmiEventLog.Nodup)
    (hlast : forall number, lastKnown = some number -> Covered log db device name number)
    (tick : Tick) {phase : WmiPhase} (hfits : WmiFits log db device name phase) :
    WmiChecked log device name db (wmiCheck device name lastKnown tick db phase) := by
  have hcontinues : forall found, Verdict.continues = .finished (some found) ->
      Covered log db device name found := fun _ hfound => Verdict.noConfusion hfound
  have hraised : forall found, Verdict.raised = .finished (some found) ->
      Covered log db device name found := fun _ hfound => Verdict.noConfusion hfound
  cases phase with
  | initial =>
    unfold wmiCheck
    by_cases hspawns : tick.spawns = true
    · simp only [if_pos hspawns]
      exact wmiChecked_same honce (fun _ _ hcom => nomatch hcom) hcontinues
    · simp only [if_neg hspawns]
      exact wmiChecked_same honce trivial hraised
  | findMaximum extCom =>
    rcases extCom with _ | answer | _
    · exact wmiChecked_same honce hfits hcontinues
    · exact wmiMaximum_checked hlog honce hlast hfits
    · exact wmiChecked_same honce hfits hraised
  | retrieveEvents lower upper extCom =>
    rcases extCom with _ | _ | answer | _
    · have hnext := wmiNext_fits tick hfits.left hfits.right.left
      exact wmiChecked_same honce hnext.left hnext.right
    · exact wmiChecked_same honce hfits hcontinues
    · exact wmiFeed_checked hlog honce tick hfits
    · exact wmiChecked_same honce hfits hraised

end WmiCheck

end Icsw.EventLog
