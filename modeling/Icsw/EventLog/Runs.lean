import Icsw.EventLog.JobLimits
import Mathlib.Data.List.Nodup

/-!
# Runs of the poller

Over a whole run no record is stored twice, and what a job has found is stored, if no
job for an IPMI device is queued beside another one and all times can be read.
-/

namespace Icsw.EventLog

open Foundation List

section Poller

variable {wmiLog : Nat -> Text -> List WmiEntry} {ids : List Nat} {poller : Poller}

/-- What holds between the steps. -/
structure PollerInv (wmiLog : Nat -> Text -> List WmiEntry) (poller : Poller) : Prop where
  fresh : forall id, id ∈ poller.alive -> id < poller.created
  inv : Inv wmiLog poller.alive poller

/-- What holds within a step, of the jobs that were there before it. -/
structure Within (wmiLog : Nat -> Text -> List WmiEntry) (ids : List Nat) (created : Nat)
    (poller : Poller) : Prop where
  created : poller.created = created
  alive : poller.alive ⊆ ids
  inv : Inv wmiLog ids poller

variable {created : Nat} {id : Nat}

theorem Within.checkJob (hlogs : forall device name, LogFits (wmiLog device name))
    (h : Within wmiLog ids created poller) (tick : Nat -> Tick)
    (hid : id ∈ ids) : Within wmiLog ids created (poller.checkJob tick id) where
  created := (ends_checkJob tick poller id).created.trans h.created
  alive := Subset.trans (ends_checkJob tick poller id).alive h.alive
  inv := h.inv.checkJob hlogs tick hid

variable {job started : Job} {tick : Tick}

theorem Inv.start (h : Inv wmiLog ids poller)
    (hjob : poller.jobs id = some job) (hstart : job.start tick = some started) :
    Inv wmiLog ids (poller.setJob id started) := by
  rcases start_kind hstart with rfl | ⟨com, com', hkind, rfl⟩
  · exact h.changeSame hjob rfl Iff.rfl rfl rfl rfl (fun _ hmem => Or.inl hmem)
      (fun lastKnown phase hkind hid => h.ipmiFits id started lastKnown phase hid hjob hkind)
      (fun name lastKnown phase hkind => h.wmiFits id started name lastKnown phase hjob hkind)
  · refine h.changeSame hjob rfl ?_ rfl rfl rfl (fun _ hmem => Or.inl hmem)
      (fun _ _ heq => nomatch heq) (fun _ _ _ heq => nomatch heq)
    rw [hkind]
    constructor
    · rintro ⟨_, _, heq⟩
      cases heq
    · rintro ⟨_, _, heq⟩
      cases heq

theorem Within.startJobs (tick : Nat -> Tick) (count : Nat) (h : Within wmiLog ids created poller) :
    Within wmiLog ids created (Poller.startJobs tick count poller) := by
  refine startJobs_rec (fun poller id job h _ hfind hjob => ?_) count h
  have hbegins := begins_begin tick hjob
  refine ⟨hbegins.created.trans h.created,
    Subset.trans (hbegins.alive (mem_of_find?_eq_some hfind)) h.alive, ?_⟩
  unfold Poller.begin
  cases hstart : job.start (tick id) with
  | none => exact h.inv.congr rfl rfl rfl
  | some started => exact (Inv.start (h.inv.congr rfl rfl rfl) hjob hstart).congr rfl rfl rfl

theorem Within.checkJobs (hlogs : forall device name, LogFits (wmiLog device name))
    (tick : Nat -> Tick) {running : List Nat} (hrunning : running ⊆ ids)
    (h : Within wmiLog ids created poller) :
    Within wmiLog ids created (running.foldl (Poller.checkJob tick) poller) := by
  induction running generalizing poller with
  | nil => exact h
  | cons id rest ih =>
    exact ih (fun other hother => hrunning (mem_cons_of_mem _ hother))
      (h.checkJob hlogs tick (hrunning mem_cons_self))

theorem PollerInv.jobControl (hlogs : forall device name, LogFits (wmiLog device name))
    (h : PollerInv wmiLog poller) (tick : Nat -> Tick) :
    PollerInv wmiLog (poller.jobControl tick) := by
  have hwithin : Within wmiLog poller.alive poller.created poller :=
    ⟨rfl, Subset.refl _, h.inv⟩
  have hchecked := hwithin.checkJobs hlogs tick (subset_append_right _ _)
  have hstarted := hchecked.startJobs tick
    (poller.jobsRunning.foldl (Poller.checkJob tick) poller).runQueue.length
  refine ⟨fun id hid => ?_, hstarted.inv.subset hstarted.alive⟩
  exact lt_of_lt_of_eq (h.fresh id (hstarted.alive hid)) hstarted.created.symm

theorem Inv.add (h : Inv wmiLog ids poller) (hfresh : forall id', id' ∈ ids -> id' ≠ id) {job : Job}
    (hipmi : forall lastKnown phase, job.kind = .ipmi lastKnown phase ->
      IpmiFits (poller.db.recordIds job.targetDevice).length lastKnown phase ∧
        forall id', id' ∈ ids -> ¬ poller.IpmiFor job.targetDevice id')
    (hwmi : forall name lastKnown phase, job.kind = .wmiLogEntry name lastKnown phase ->
      (forall number, lastKnown = some number ->
        Covered (wmiLog job.targetDevice name) poller.db job.targetDevice name number) ∧
      WmiFits (wmiLog job.targetDevice name) poller.db job.targetDevice name phase) :
    Inv wmiLog (id :: ids) (poller.setJob id job) := by
  have hold : forall device id', id' ∈ ids -> (poller.setJob id job).IpmiFor device id' ->
      poller.IpmiFor device id' := by
    rintro device id' hid' ⟨other, lastKnown, phase, hother, hkind, hdevice⟩
    rw [jobs_setJob_ne _ _ (hfresh id' hid')] at hother
    exact ⟨other, lastKnown, phase, hother, hkind, hdevice⟩
  have hnew : forall device id', id' ∈ ids -> (poller.setJob id job).IpmiFor device id ->
      ¬ poller.IpmiFor device id' := by
    rintro device id' hid' ⟨other, lastKnown, phase, hother, hkind, hdevice⟩
    rw [jobs_setJob_self] at hother
    cases hother
    exact hdevice ▸ (hipmi lastKnown phase hkind).right id' hid'
  refine ⟨h.counted, ?_, ?_, h.ipmiEnded, h.once, h.maximal, ?_, h.wmiEnded⟩
  · intro device first second hfirst hsecond hfor hfor'
    rcases mem_cons.mp hfirst with rfl | hfirst'
    · rcases mem_cons.mp hsecond with rfl | hsecond'
      · rfl
      · exact absurd (hold device second hsecond' hfor') (hnew device second hsecond' hfor)
    · rcases mem_cons.mp hsecond with rfl | hsecond'
      · exact absurd (hold device first hfirst' hfor) (hnew device first hfirst' hfor')
      · exact h.alone device first second hfirst' hsecond' (hold device first hfirst' hfor)
          (hold device second hsecond' hfor')
  · intro id' job' lastKnown phase hid' hjob' hkind
    rcases mem_cons.mp hid' with rfl | hid'
    · rw [jobs_setJob_self] at hjob'
      cases hjob'
      exact (hipmi lastKnown phase hkind).left
    · rw [jobs_setJob_ne _ _ (hfresh id' hid')] at hjob'
      exact h.ipmiFits id' job' lastKnown phase hid' hjob' hkind
  · intro id' job' name lastKnown phase hjob' hkind
    by_cases hsame : id' = id
    · rw [hsame, jobs_setJob_self] at hjob'
      cases hjob'
      exact hwmi name lastKnown phase hkind
    · rw [jobs_setJob_ne _ _ hsame] at hjob'
      exact h.wmiFits id' job' name lastKnown phase hjob' hkind

theorem PollerInv.schedule (h : PollerInv wmiLog poller) {job : Job}
    (hipmi : forall lastKnown phase, job.kind = .ipmi lastKnown phase ->
      poller.isJobAlreadyRunning job = false ->
      IpmiFits (poller.db.recordIds job.targetDevice).length lastKnown phase ∧
        forall id, id ∈ poller.alive -> ¬ poller.IpmiFor job.targetDevice id)
    (hwmi : forall name lastKnown phase, job.kind = .wmiLogEntry name lastKnown phase ->
      (forall number, lastKnown = some number ->
        Covered (wmiLog job.targetDevice name) poller.db job.targetDevice name number) ∧
      WmiFits (wmiLog job.targetDevice name) poller.db job.targetDevice name phase) :
    PollerInv wmiLog (poller.schedule job) := by
  unfold Poller.schedule
  cases hrunning : poller.isJobAlreadyRunning job with
  | true => exact h
  | false =>
    rw [if_neg Bool.false_ne_true]
    have hinv := h.inv.add (fun id hid => Nat.ne_of_lt (h.fresh id hid))
      (fun lastKnown phase hkind => hipmi lastKnown phase hkind hrunning) hwmi
    have halive : forall id, id ∈ (poller.runQueue ++ [poller.created]) ++ poller.jobsRunning ->
        id ∈ poller.created :: poller.alive := by
      intro id hid
      rw [append_assoc, mem_append, singleton_append, mem_cons] at hid
      rcases hid with hqueued | hnew | hrun
      · exact mem_cons_of_mem _ (mem_append_left _ hqueued)
      · exact mem_cons.mpr (Or.inl hnew)
      · exact mem_cons_of_mem _ (mem_append_right _ hrun)
    refine ⟨fun id hid => ?_, (hinv.subset halive).congr rfl rfl rfl⟩
    rcases mem_cons.mp (halive id hid) with rfl | hold
    · exact Nat.lt_succ_self _
    · exact (h.fresh id hold).trans (Nat.lt_succ_self _)

theorem PollerInv.scheduleWmiHost (h : PollerInv wmiLog poller) (outdated : Nat -> Bool)
    (host : Host) : PollerInv wmiLog (poller.scheduleWmiHost outdated host) := by
  refine scheduleWmiHost_rec (fun _ h => ?_) (fun poller name h => ?_) outdated h
  · exact h.schedule (fun _ _ heq => nomatch heq) (fun _ _ _ heq => nomatch heq)
  · refine h.schedule (fun _ _ heq => nomatch heq) ?_
    intro name' lastKnown phase heq
    cases heq
    exact ⟨fun number hnumber => h.inv.maximal host.device name number hnumber, trivial⟩

/-- No job for the records of an IPMI device waits or runs when another one is queued. -/
def NoOther (poller : Poller) (host : Host) : Prop :=
  host.credentials = true -> poller.isJobAlreadyRunning (poller.ipmiJob host) = false ->
    forall id, id ∈ poller.alive -> ¬ poller.IpmiFor host.device id

theorem max?_range' (count : Nat) : (range' 1 count).max?.getD 0 = count := by
  cases count with
  | zero => rfl
  | succ count =>
    have hmax : (range' 1 (count + 1)).max? = some (count + 1) := by
      apply max?_eq_some_iff.mpr
      constructor
      · exact mem_range'_1.mpr ⟨by omega, by omega⟩
      · intro number hnumber
        have hbound := (mem_range'_1.mp hnumber).right
        omega
    rw [hmax]
    rfl

theorem PollerInv.scheduleIpmiHost (h : PollerInv wmiLog poller) {host : Host}
    (hother : NoOther poller host) : PollerInv wmiLog (poller.scheduleIpmiHost host) := by
  unfold Poller.scheduleIpmiHost
  cases hcredentials : host.credentials with
  | false => exact h
  | true =>
    rw [if_pos rfl]
    refine h.schedule ?_ (fun _ _ _ heq => nomatch heq)
    intro lastKnown phase heq hrunning
    cases heq
    refine ⟨?_, hother hcredentials hrunning⟩
    rcases h.inv.counted host.device with ⟨count, hcount⟩
    show (poller.db.recordIds host.device).max?.getD 0 = (poller.db.recordIds host.device).length
    rw [hcount, max?_range', length_range']

theorem PollerInv.periodicUpdate (h : PollerInv wmiLog poller) (wmiHosts ipmiHosts : List Host)
    (outdated : Nat -> Bool) (hothers : Along Poller.scheduleIpmiHost NoOther
      (wmiHosts.foldl (Poller.scheduleWmiHost outdated) poller) ipmiHosts) :
    PollerInv wmiLog (poller.periodicUpdate wmiHosts ipmiHosts outdated) :=
  invariant_run Poller.scheduleIpmiHost (fun _ _ hinv hother => hinv.scheduleIpmiHost hother)
    (invariant_of_step (Poller.scheduleWmiHost outdated)
      (fun _ host hinv => hinv.scheduleWmiHost outdated host) h wmiHosts) hothers

end Poller

/-- The entries that a command may print. -/
def AnswerFits (log : Text -> List WmiEntry) (answer : Answer) : JobKind -> Prop
  | .wmiLogEntry name _ (.findMaximum .running) => forall parsed,
      answer.output.wmiEntries = some parsed -> forall entry, entry ∈ parsed -> entry ∈ log name
  | .wmiLogEntry name _ (.retrieveEvents lower upper (some .running)) => forall parsed,
      answer.succeeded.bind Output.wmiEntries = some parsed ->
        parsed = between (log name) lower (nextUpperLimit lower upper)
  | _ => True

/-- The times of the entries that are fetched are known. -/
def Dated (answer : Answer) : JobKind -> Prop
  | .wmiLogEntry _ _ (.retrieveEvents _ _ (some .running)) => forall parsed,
      answer.succeeded.bind Output.wmiEntries = some parsed ->
        forall entry, entry ∈ parsed -> entry.dated = true
  | _ => True

variable {answer : Answer} {lastKnown : Option Nat}

theorem commandEnds_ipmi {kind : JobKind}
    {phase : IpmiPhase} (h : kind.commandEnds answer = .ipmi lastKnown phase) :
    exists phase', kind = .ipmi lastKnown phase' ∧
      forall count, IpmiFits count lastKnown phase' -> IpmiFits count lastKnown phase := by
  rcases kind with ⟨known, _ | _ | _⟩ | _ | ⟨name, known, _ | _ | _⟩
  all_goals cases h
  all_goals exact ⟨_, rfl, fun _ hfits => hfits⟩

theorem commandEnds_sort (answer : Answer) (kind : JobKind) :
    (exists lastKnown phase, kind.commandEnds answer = .ipmi lastKnown phase) <->
      exists lastKnown phase, kind = .ipmi lastKnown phase := by
  constructor
  · rintro ⟨lastKnown, phase, heq⟩
    rcases commandEnds_ipmi heq with ⟨phase', hkind, _⟩
    exact ⟨lastKnown, phase', hkind⟩
  · rintro ⟨lastKnown, phase, rfl⟩
    cases phase with
    | findMaximum extCom => exact ⟨lastKnown, _, rfl⟩
    | retrieveTime maximum extCom => exact ⟨lastKnown, _, rfl⟩
    | retrieveEvents current maximum extCom => exact ⟨lastKnown, _, rfl⟩

theorem endWith_eq_ended {answer answer' : Answer} {extCom : ExtCom}
    (h : extCom.endWith answer = .ended answer') :
    (extCom = .running ∧ answer' = answer) ∨ extCom = .ended answer' := by
  cases extCom with
  | running =>
    cases h
    exact Or.inl ⟨rfl, rfl⟩
  | ended => exact Or.inr h
  | broken => cases h

variable {name : Text} {phase : WmiPhase}

theorem commandEnds_wmi {kind : JobKind}
    (h : kind.commandEnds answer = .wmiLogEntry name lastKnown phase) :
    exists phase', kind = .wmiLogEntry name lastKnown phase' ∧
      forall log db device, AnswerFits log answer kind -> Dated answer kind ->
        WmiFits (log name) db device name phase' -> WmiFits (log name) db device name phase := by
  rcases kind with ⟨known, _ | _ | _⟩ | _ | ⟨name', known, _ | extCom | ⟨lower, upper, extCom⟩⟩
  · cases h
  · cases h
  · cases h
  · cases h
  · cases h
    exact ⟨_, rfl, fun _ _ _ _ _ hfits => hfits⟩
  · cases h
    refine ⟨_, rfl, fun log db device hanswer hdated hfits answer' parsed hended hparsed => ?_⟩
    rcases endWith_eq_ended hended with ⟨rfl, rfl⟩ | hold
    · exact hanswer parsed hparsed
    · exact hfits answer' parsed hold hparsed
  · cases h
    refine ⟨_, rfl, fun log db device hanswer hdated hfits =>
      ⟨hfits.left, hfits.right.left, fun answer' parsed hended hparsed => ?_⟩⟩
    cases extCom with
    | none => cases hended
    | some extCom =>
      rcases endWith_eq_ended (Option.some.inj hended) with ⟨rfl, rfl⟩ | hold
      · exact ⟨hanswer parsed hparsed, hdated parsed hparsed⟩
      · exact hfits.right.right answer' parsed (congrArg some hold) hparsed

theorem PollerInv.commandEnds {wmiLog : Nat -> Text -> List WmiEntry} {poller : Poller}
    (h : PollerInv wmiLog poller) {id : Nat} {job : Job} (hjob : poller.jobs id = some job)
    (hanswer : AnswerFits (wmiLog job.targetDevice) answer job.kind)
    (hdated : Dated answer job.kind) :
    PollerInv wmiLog (poller.setJob id { job with kind := job.kind.commandEnds answer }) := by
  refine ⟨h.fresh, h.inv.changeSame hjob rfl (commandEnds_sort answer job.kind) rfl rfl rfl
    (fun _ hmem => Or.inl hmem) ?_ ?_⟩
  · intro lastKnown phase heq hid
    rcases commandEnds_ipmi heq with ⟨phase', hkind, hfits⟩
    exact hfits _ (h.inv.ipmiFits id job lastKnown phase' hid hjob hkind)
  · intro name lastKnown phase heq
    rcases commandEnds_wmi heq with ⟨phase', hkind, hfits⟩
    rcases h.inv.wmiFits id job name lastKnown phase' hjob hkind with ⟨hlast, hphase⟩
    exact ⟨hlast, hfits (wmiLog job.targetDevice) poller.db job.targetDevice hanswer hdated hphase⟩

/-- A log may have got one more entry. -/
def Grown (log log' : List WmiEntry) : Prop :=
  log' = log ∨ exists entry, log' = log ++ [entry] ∧ 0 < entry.recordNumber ∧
    forall old, old ∈ log -> old.recordNumber < entry.recordNumber

variable {number : Nat} {entry : WmiEntry}

theorem Reached.lt_new {log : List WmiEntry} (h : Reached log number)
    (hpositive : 0 < entry.recordNumber)
    (hnew : forall old, old ∈ log -> old.recordNumber < entry.recordNumber) :
    number < entry.recordNumber := by
  rcases h with rfl | ⟨old, hold, hle⟩
  · exact hpositive
  · exact lt_of_le_of_lt hle (hnew old hold)

variable {log log' : List WmiEntry}

theorem Reached.grow (h : Reached log number) (hgrown : Grown log log') : Reached log' number := by
  rcases hgrown with rfl | ⟨entry, rfl, _, _⟩
  · exact h
  · exact h.imp_right fun ⟨old, hold, hle⟩ => ⟨old, mem_append_left _ hold, hle⟩

variable {db : Database}

theorem Covered.grow {device : Nat}
    (h : Covered log db device name number) (hgrown : Grown log log') :
    Covered log' db device name number where
  reached := h.reached.grow hgrown
  stored := by
    rcases hgrown with rfl | ⟨entry, rfl, hpositive, hnew⟩
    · exact h.stored
    · intro other hother hle
      rcases mem_append.mp hother with hold | hlast
      · exact h.stored other hold hle
      · have hless := h.reached.lt_new hpositive hnew
        rw [mem_singleton.mp hlast] at hle
        exact absurd hle (Nat.not_le.mpr hless)

theorem between_grow {lower upper : Nat} (h : Reached log upper)
    (hgrown : Grown log log') : between log' lower upper = between log lower upper := by
  rcases hgrown with rfl | ⟨entry, rfl, hpositive, hnew⟩
  · rfl
  · have hless := h.lt_new hpositive hnew
    unfold between
    rw [filter_append, filter_singleton]
    rw [decide_eq_false fun hbetween => absurd hbetween.right (Nat.not_le.mpr hless)]
    exact append_nil _

theorem WmiFits.grow {device : Nat}
    (h : WmiFits log db device name phase) (hgrown : Grown log log') :
    WmiFits log' db device name phase := by
  cases phase with
  | initial => trivial
  | findMaximum extCom =>
    intro answer parsed hended hparsed entry hentry
    have hold := h answer parsed hended hparsed entry hentry
    rcases hgrown with rfl | ⟨_, rfl, _, _⟩
    · exact hold
    · exact mem_append_left _ hold
  | retrieveEvents lower upper extCom =>
    refine ⟨h.left.grow hgrown, h.right.left.grow hgrown, ?_⟩
    intro answer parsed hended hparsed
    have hlimit : Reached log (nextUpperLimit lower upper) :=
      h.right.left.mono (Nat.min_le_right _ _)
    rw [between_grow hlimit hgrown]
    exact h.right.right answer parsed hended hparsed

theorem PollerInv.grow {wmiLog wmiLog' : Nat -> Text -> List WmiEntry} {poller : Poller}
    (h : PollerInv wmiLog poller)
    (hgrown : forall device name, Grown (wmiLog device name) (wmiLog' device name)) :
    PollerInv wmiLog' poller where
  fresh := h.fresh
  inv :=
    { h.inv with
      maximal := fun device name number hnumber =>
        (h.inv.maximal device name number hnumber).grow (hgrown device name)
      wmiFits := fun id job name lastKnown phase hjob hkind =>
        ⟨fun number hnumber => ((h.inv.wmiFits id job name lastKnown phase hjob hkind).left number
            hnumber).grow (hgrown job.targetDevice name),
          (h.inv.wmiFits id job name lastKnown phase hjob hkind).right.grow
            (hgrown job.targetDevice name)⟩
      wmiEnded := fun device name maximum hmem =>
        (h.inv.wmiEnded device name maximum hmem).grow (hgrown device name) }

theorem LogFits.grow (h : LogFits log) (hgrown : Grown log log') :
    LogFits log' := by
  rcases hgrown with rfl | ⟨entry, rfl, hpositive, hnew⟩
  · exact h
  · constructor
    · apply pairwise_append.mpr
      refine ⟨h.increasing, pairwise_singleton _ _, ?_⟩
      intro old hold last hlast
      rw [mem_singleton.mp hlast]
      exact hnew old hold
    · intro other hother
      rcases mem_append.mp hother with hold | hlast
      · exact h.positive other hold
      · rw [mem_singleton.mp hlast]
        exact hpositive

/-- The numbers of records only increase, and a command prints what it is asked for. -/
def Possible (state : State) : Action -> Prop
  | .growIpmi device recordId => forall old, old ∈ state.ipmiLog device -> old < recordId
  | .growWmi device name entry => forall old, old ∈ state.wmiLog device name ->
      old.recordNumber < entry.recordNumber
  | .commandEnds id answer => forall job, state.poller.jobs id = some job ->
      AnswerFits (state.wmiLog job.targetDevice) answer job.kind
  | _ => True

/--
No job for an IPMI device is queued beside another one, and the entries fetched from a WMI device
have times that can be read.  No record has the number zero.
-/
def Careful (state : State) : Action -> Prop
  | .growIpmi _ recordId => 0 < recordId
  | .growWmi _ _ entry => 0 < entry.recordNumber
  | .commandEnds id answer => forall job, state.poller.jobs id = some job ->
      Dated answer job.kind
  | .periodicUpdate wmiHosts ipmiHosts outdated =>
    Along Poller.scheduleIpmiHost NoOther
      (wmiHosts.foldl (Poller.scheduleWmiHost outdated) state.poller) ipmiHosts
  | .jobControl _ => True

structure StateInv (state : State) : Prop where
  positive : forall device recordId, recordId ∈ state.ipmiLog device -> 0 < recordId
  logs : forall device name, LogFits (state.wmiLog device name)
  poller : PollerInv state.wmiLog state.poller

theorem stateInv_new : StateInv State.new where
  positive := fun _ _ hmem => nomatch hmem
  logs := fun _ _ => ⟨Pairwise.nil, fun _ hmem => nomatch hmem⟩
  poller :=
    { fresh := fun _ hmem => nomatch hmem
      inv :=
        { counted := fun _ => ⟨0, rfl⟩
          alone := fun _ _ _ hmem => nomatch hmem
          ipmiFits := fun _ _ _ _ hmem => nomatch hmem
          ipmiEnded := fun _ _ hmem => nomatch hmem
          once := nodup_nil
          maximal := fun _ _ _ heq => nomatch heq
          wmiFits := fun _ _ _ _ _ heq => nomatch heq
          wmiEnded := fun _ _ _ hmem => nomatch hmem } }

variable {state : State}

theorem StateInv.growIpmi (h : StateInv state) (device : Nat) {recordId : Nat}
    (hpositive : 0 < recordId) : StateInv (state.step (.growIpmi device recordId)) where
  positive := by
    intro device' recordId' hmem
    by_cases hdevice : device' = device
    · rcases mem_append.mp ((congrArg (recordId' ∈ ·) (if_pos hdevice)).mp hmem) with
        hold | hnew
      · exact h.positive device recordId' hold
      · rw [mem_singleton.mp hnew]
        exact hpositive
    · exact h.positive device' recordId' ((congrArg (recordId' ∈ ·) (if_neg hdevice)).mp hmem)
  logs := h.logs
  poller := h.poller

theorem StateInv.growWmi (h : StateInv state) (device : Nat) (name : Text)
    (hpositive : 0 < entry.recordNumber)
    (hnew : forall old, old ∈ state.wmiLog device name -> old.recordNumber < entry.recordNumber) :
    StateInv (state.step (.growWmi device name entry)) := by
  have hgrown : forall device' name', Grown (state.wmiLog device' name')
      ((state.step (.growWmi device name entry)).wmiLog device' name') := by
    intro device' name'
    by_cases hlog : device' = device ∧ name' = name
    · rcases hlog with ⟨rfl, rfl⟩
      exact Or.inr ⟨entry, if_pos ⟨rfl, rfl⟩, hpositive, hnew⟩
    · exact Or.inl (if_neg hlog)
  exact ⟨h.positive, fun device' name' => (h.logs device' name').grow (hgrown device' name'),
    h.poller.grow hgrown⟩

theorem stateInv_step (state : State) (action : Action) (h : StateInv state)
    (hok : Possible state action ∧ Careful state action) : StateInv (state.step action) := by
  rcases hok with ⟨hpossible, hcareful⟩
  cases action with
  | growIpmi device recordId => exact h.growIpmi device hcareful
  | growWmi device name entry => exact h.growWmi device name hcareful hpossible
  | commandEnds id answer =>
    cases hjob : state.poller.jobs id with
    | none =>
      rw [step_commandEnds_none hjob]
      exact h
    | some job =>
      rw [step_commandEnds_some hjob]
      exact ⟨h.positive, h.logs, h.poller.commandEnds hjob (hpossible job hjob)
        (hcareful job hjob)⟩
  | periodicUpdate wmiHosts ipmiHosts outdated =>
    exact ⟨h.positive, h.logs, h.poller.periodicUpdate wmiHosts ipmiHosts outdated hcareful⟩
  | jobControl tick => exact ⟨h.positive, h.logs, h.poller.jobControl h.logs tick⟩

/-- No record is stored twice, and every record up to a maximum that a job has found is stored
when that job has ended without an error. -/
structure StoredOnce (state : State) : Prop where
  ipmiOnce : state.poller.db.ipmiEventLog.Nodup
  wmiOnce : state.poller.db.wmiEventLog.Nodup
  ipmiStored : forall device maximum, Ended.ipmi device maximum ∈ state.poller.ended ->
    forall recordId, recordId ∈ state.ipmiLog device -> recordId ≤ maximum ->
      (device, recordId) ∈ state.poller.db.ipmiEventLog
  wmiStored : forall device name maximum, Ended.wmi device name maximum ∈ state.poller.ended ->
    forall entry, entry ∈ state.wmiLog device name -> entry.recordNumber ≤ maximum ->
      (device, name, entry.recordNumber) ∈ state.poller.db.wmiEventLog

theorem nodup_of_fibers {A B : Type} [DecidableEq A] {entries : List (A × B)}
    (h : forall key, ((entries.filter fun entry => decide (entry.1 = key)).map Prod.snd).Nodup) :
    entries.Nodup := by
  apply nodup_iff_sublist.mpr
  intro entry htwice
  have hfiber := (htwice.filter fun other => decide (other.1 = entry.1)).map Prod.snd
  simp only [filter_cons, decide_true, if_true, filter_nil, map_cons, map_nil] at hfiber
  exact nodup_iff_sublist.mp (h entry.1) entry.2 hfiber

theorem mem_recordIds {device recordId : Nat} :
    recordId ∈ db.recordIds device <-> (device, recordId) ∈ db.ipmiEventLog := by
  unfold Database.recordIds
  rw [mem_map]
  constructor
  · rintro ⟨⟨device', recordId'⟩, hmem, rfl⟩
    rcases mem_filter.mp hmem with ⟨hstored, hdevice⟩
    cases of_decide_eq_true hdevice
    exact hstored
  · intro hmem
    exact ⟨(device, recordId), mem_filter.mpr ⟨hmem, decide_eq_true rfl⟩, rfl⟩

theorem StateInv.storedOnce (h : StateInv state) : StoredOnce state where
  ipmiOnce := by
    apply nodup_of_fibers
    intro device
    rcases h.poller.inv.counted device with ⟨count, hcount⟩
    exact (congrArg Nodup hcount).mpr nodup_range'
  wmiOnce := h.poller.inv.once
  ipmiStored := by
    intro device maximum hended recordId hmem hle
    apply mem_recordIds.mp
    have hmaximum := h.poller.inv.ipmiEnded device maximum hended
    rcases h.poller.inv.counted device with ⟨count, hcount⟩
    rw [hcount, length_range'] at hmaximum
    rw [hcount]
    have hpositive := h.positive device recordId hmem
    exact mem_range'_1.mpr ⟨hpositive, by omega⟩
  wmiStored := fun device name maximum hended entry hentry hle =>
    (h.poller.inv.wmiEnded device name maximum hended).stored entry hentry hle

/-- In every run that is careful no record is stored twice, and what a job has found is
stored. -/
theorem poller_storedOnce (actions : List Action)
    (hpossible : Along State.step Possible State.new actions)
    (hcareful : Along State.step Careful State.new actions) :
    forall taken rest, actions = taken ++ rest ->
      StoredOnce (run State.step State.new taken) := by
  rintro taken rest rfl
  exact (invariant_reached State.step stateInv_step stateInv_new
    (along_and State.step hpossible hcareful)).storedOnce

section Example

/-- A job goes through its phases, for a device with one record. -/
def jobPhases (id : Nat) : List Action :=
  [.jobControl everReady, .jobControl everReady, .commandEnds id ⟨0, .ids [1]⟩,
    .jobControl everReady, .jobControl everReady, .commandEnds id ⟨0, .text⟩,
    .jobControl everReady, .jobControl everReady, .commandEnds id ⟨0, .text⟩,
    .jobControl everReady]

def singleRun : List Action := [.growIpmi 1 1, updateExample] ++ jobPhases 0

/-- The queue is not looked at when the second job is queued. -/
def doubledRun : List Action :=
  [.growIpmi 1 1, updateExample, updateExample] ++ jobPhases 0 ++ jobPhases 1

theorem possible_singleRun : Along State.step Possible State.new singleRun := by
  refine ⟨fun _ hmem => (nomatch hmem), trivial, trivial, trivial, ?_, trivial, trivial, ?_, trivial,
    trivial, ?_, trivial, trivial⟩
  all_goals
    intro job hjob
    cases hjob
    trivial

theorem careful_singleRun : Along State.step Careful State.new singleRun := by
  refine ⟨Nat.one_pos, ⟨fun _ _ _ hmem => (nomatch hmem), trivial⟩, trivial, trivial, ?_, trivial,
    trivial, ?_, trivial, trivial, ?_, trivial, trivial⟩
  all_goals
    intro job hjob
    cases hjob
    trivial

theorem singleRun_storedOnce :
    StoredOnce (run State.step State.new singleRun) ∧
      (run State.step State.new singleRun).poller.db.ipmiEventLog = [(1, 1)] :=
  ⟨poller_storedOnce singleRun possible_singleRun careful_singleRun singleRun []
    (append_nil _).symm, rfl⟩

theorem possible_doubledRun : Along State.step Possible State.new doubledRun := by
  refine ⟨fun _ hmem => (nomatch hmem), trivial, trivial, trivial, trivial, ?_, trivial, trivial, ?_,
    trivial, trivial, ?_, trivial, trivial, trivial, ?_, trivial, trivial, ?_, trivial, trivial, ?_,
    trivial, trivial⟩
  all_goals
    intro job hjob
    cases hjob
    trivial

theorem doubledRun_not_storedOnce :
    Along State.step Possible State.new doubledRun ∧
      ¬ StoredOnce (run State.step State.new doubledRun) := by
  refine ⟨possible_doubledRun, fun hstored => ?_⟩
  have hlog : (run State.step State.new doubledRun).poller.db.ipmiEventLog = [(1, 1), (1, 1)] := rfl
  have honce := hstored.ipmiOnce
  rw [hlog] at honce
  exact absurd honce (by decide)

end Example

end Icsw.EventLog
