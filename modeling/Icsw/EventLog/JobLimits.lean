import Icsw.EventLog.StoredOnce
import Mathlib.Data.List.Induction

/-!
# Limits of the jobs

As long as the jobs that wait or run are equal both ways or not at all, the job that is chosen is
the one that leaves the queue, and no two equal jobs run.
-/

namespace Icsw.EventLog

open Foundation List

variable (poller : Poller)

def Poller.alive : List Nat := poller.runQueue ++ poller.jobsRunning

/-- `job == other`, for two jobs by their numbers. -/
def Poller.equal (id other : Nat) : Bool :=
  (poller.jobs id).any fun job => (poller.jobs other).any job.eq

def Poller.on (device id : Nat) : Bool :=
  (poller.jobs id).any fun job => decide (device = job.targetDevice)

structure Limited : Prop where
  running : poller.jobsRunning.length ≤ Poller.maxConcurrentJobs
  onDevice : forall device, poller.jobsRunning.countP (poller.on device) ≤ 2
  unequal : poller.jobsRunning.Pairwise fun id other =>
    poller.equal id other = false ∧ poller.equal other id = false

/-- The first loop of `job_control` -/
def Poller.checkJobs (tick : Nat -> Tick) (poller : Poller) : Poller :=
  poller.jobsRunning.foldl (Poller.checkJob tick) poller

/-- The job leaves the queue, or one that is equal to it does, and it runs unless its start
raises. -/
def Poller.begin (tick : Nat -> Tick) (poller : Poller) (id : Nat) (job : Job) : Poller :=
  let left := { poller with runQueue := poller.runQueue.eraseP (poller.equals job) }
  match job.start (tick id) with
  | none => left
  | some job => { left.setJob id job with jobsRunning := left.jobsRunning ++ [id] }

/-- Each job that is taken is the first one of the queue that may run, and only it leaves the
queue. -/
inductive Takes (tick : Nat -> Tick) (poller : Poller) : List Nat -> Poller -> Prop
  | stop : Takes tick poller [] poller
  | next {between : Poller} {id : Nat} {job : Job} {taken before rest : List Nat}
      (h : Takes tick poller taken between) (hjob : between.jobs id = some job)
      (hqueue : between.runQueue = before ++ id :: rest)
      (hfirst : forall other, other ∈ before -> between.selectable other = false)
      (hselectable : between.selectable id = true)
      (hleft : (between.begin tick id job).runQueue = before ++ rest) :
      Takes tick poller (taken ++ [id]) (between.begin tick id job)

/-- The jobs that a run has taken, in their order. -/
inductive Starts : List Action -> List Nat -> Prop
  | new : Starts [] []
  | control {actions : List Action} {started taken : List Nat} {tick : Nat -> Tick}
      (h : Starts actions started)
      (htakes : Takes tick ((run State.step State.new actions).poller.checkJobs tick) taken
        ((run State.step State.new actions).poller.jobControl tick)) :
      Starts (actions ++ [.jobControl tick]) (started ++ taken)
  | other {actions : List Action} {started : List Nat} {action : Action}
      (h : Starts actions started) (hother : forall tick, action ≠ .jobControl tick) :
      Starts (actions ++ [action]) started

/-- The limits hold, and each job that has been queued has been started once or waits. -/
def JobsLimited (actions : List Action) : Prop :=
  Limited (run State.step State.new actions).poller ∧
    exists started, Starts actions started ∧
      (started ++ (run State.step State.new actions).poller.runQueue).Perm
        (range (run State.step State.new actions).poller.created)

/-- Where a job is equal to another one, the other one is equal to it. -/
def Poller.Apart : Prop :=
  forall id, id ∈ poller.alive -> forall other, other ∈ poller.alive ->
    poller.equal id other = poller.equal other id

def KeepsApart (state : State) : Action -> Prop
  | .jobControl _ => state.poller.Apart
  | _ => True

/-- The job without its progress. -/
def Job.bare (job : Job) : Job :=
  { job with
    kind := match job.kind with
      | .ipmi _ _ => .ipmi none (.findMaximum none)
      | .wmiLogFile _ => .wmiLogFile none
      | .wmiLogEntry name _ _ => .wmiLogEntry name none .initial }

def Poller.bare (id : Nat) : Option Job := (poller.jobs id).map Job.bare

theorem eq_bare (job other : Job) : job.bare.eq other.bare = job.eq other := by
  rcases job with ⟨_, _, kind⟩
  rcases other with ⟨_, _, kind'⟩
  cases kind <;> cases kind' <;> rfl

theorem bare_eq {job other : Job} (h : job.eq other = true) (h' : other.eq job = true) :
    job.bare = other.bare := by
  rcases job with ⟨device, ip, kind⟩
  rcases other with ⟨device', ip', kind'⟩
  cases kind <;> cases kind' <;> simp_all [Job.eq, Job.bare]

section Poller

variable {poller after : Poller} {id other : Nat} {job : Job} {tick : Nat -> Tick}

theorem equal_eq :
    poller.equal id other = (poller.bare id).any fun job => (poller.bare other).any job.eq := by
  unfold Poller.equal Poller.bare
  cases poller.jobs id <;> cases poller.jobs other <;> simp [eq_bare]

theorem on_eq (device : Nat) :
    poller.on device id = (poller.bare id).any fun job => decide (device = job.targetDevice) := by
  unfold Poller.on Poller.bare
  cases poller.jobs id <;> rfl

theorem selectable_eq : poller.selectable id = (poller.bare id).any fun job =>
    decide (poller.jobsRunning.countP (poller.on job.targetDevice) < 2) &&
      !poller.jobsRunning.any fun running => (poller.bare running).any job.eq := by
  unfold Poller.selectable Poller.bare Poller.isJobAlreadyRunning
  cases poller.jobs id with
  | none => rfl
  | some job => simp [Option.any_map, eq_bare]; rfl

theorem bare_congr (h : poller.equal id other = true) (h' : poller.equal other id = true) :
    poller.bare id = poller.bare other := by
  unfold Poller.equal at h h'
  unfold Poller.bare
  cases hid : poller.jobs id with
  | none => simp [hid] at h
  | some job =>
    cases hother : poller.jobs other with
    | none => simp [hid, hother] at h
    | some job' =>
      simp only [hid, hother, Option.any_some] at h h'
      exact congrArg some (bare_eq h h')

theorem bare_setJob {job' : Job} (hjob : poller.jobs id = some job) (hbare : job'.bare = job.bare)
    (other : Nat) : (poller.setJob id job').bare other = poller.bare other := by
  unfold Poller.bare
  by_cases hid : other = id
  · rw [hid, jobs_setJob_self, hjob, Option.map_some, Option.map_some, hbare]
  · rw [jobs_setJob_ne poller job' hid]

/-- Jobs may have ended, and no other one has been queued or taken. -/
structure Ends (poller after : Poller) : Prop where
  bare : forall id, after.bare id = poller.bare id
  runQueue : after.runQueue = poller.runQueue
  created : after.created = poller.created
  running : after.jobsRunning.Sublist poller.jobsRunning

theorem Ends.refl (poller : Poller) : Ends poller poller :=
  ⟨fun _ => rfl, rfl, rfl, Sublist.refl _⟩

theorem Ends.alive (h : Ends poller after) : after.alive ⊆ poller.alive := by
  unfold Poller.alive
  rw [h.runQueue]
  exact fun _ hid => mem_append.mpr ((mem_append.mp hid).imp_right fun hrun => h.running.subset hrun)

theorem ends_checkJob (tick : Nat -> Tick) (poller : Poller) (id : Nat) :
    Ends poller (poller.checkJob tick id) := by
  cases hjob : poller.jobs id with
  | none =>
    unfold Poller.checkJob
    rw [hjob]
    exact .refl poller
  | some job =>
    rcases checkJob_eq tick hjob with ⟨jobsRunning, heq, hsublist⟩
    rw [heq]
    refine ⟨bare_setJob hjob ?_, rfl, rfl, hsublist⟩
    unfold Job.periodicCheck Job.bare
    cases job.kind <;> rfl

theorem ends_checkJobs (tick : Nat -> Tick) (running : List Nat) (poller : Poller) :
    Ends poller (running.foldl (Poller.checkJob tick) poller) := by
  induction running generalizing poller with
  | nil => exact .refl poller
  | cons id rest ih =>
    have hfirst := ends_checkJob tick poller id
    have hrest := ih (poller.checkJob tick id)
    exact ⟨fun other => (hrest.bare other).trans (hfirst.bare other),
      hrest.runQueue.trans hfirst.runQueue, hrest.created.trans hfirst.created,
      hrest.running.trans hfirst.running⟩

theorem Poller.Apart.congr (h : poller.Apart) (hbare : forall id, after.bare id = poller.bare id)
    (halive : after.alive ⊆ poller.alive) : after.Apart := by
  intro id hid other hother
  simp only [equal_eq, hbare]
  rw [← equal_eq, ← equal_eq]
  exact h id (halive hid) other (halive hother)

theorem Limited.congr (h : Limited poller)
    (hbare : forall id, id ∈ after.jobsRunning -> after.bare id = poller.bare id)
    (hrunning : after.jobsRunning.Sublist poller.jobsRunning) : Limited after where
  running := hrunning.length_le.trans h.running
  onDevice device := by
    have hcount : after.jobsRunning.countP (after.on device) =
        after.jobsRunning.countP (poller.on device) := by
      apply countP_congr
      intro id hid
      rw [on_eq, on_eq, hbare id hid]
    rw [hcount]
    exact hrunning.countP_le.trans (h.onDevice device)
  unequal := by
    apply (h.unequal.sublist hrunning).imp_of_mem
    intro id other hid hother hpair
    rw [equal_eq, equal_eq, hbare id hid, hbare other hother, ← equal_eq, ← equal_eq]
    exact hpair

theorem startJobs_rec {P : Poller -> Prop} {tick : Nat -> Tick}
    (hbegin : forall poller id job, P poller ->
      poller.jobsRunning.length < Poller.maxConcurrentJobs ->
      poller.runQueue.find? poller.selectable = some id -> poller.jobs id = some job ->
      P (poller.begin tick id job)) (count : Nat) (h : P poller) :
    P (Poller.startJobs tick count poller) := by
  induction count generalizing poller with
  | zero => exact h
  | succ count ih =>
    unfold Poller.startJobs
    by_cases hroom : poller.jobsRunning.length < Poller.maxConcurrentJobs
    · rw [if_pos hroom]
      cases hfind : poller.runQueue.find? poller.selectable with
      | none => exact h
      | some id =>
        simp only []
        cases hjob : poller.jobs id with
        | none => exact h
        | some job =>
          have hnext := ih (hbegin poller id job h hroom hfind hjob)
          unfold Poller.begin at hnext
          cases hstart : job.start (tick id) <;> simpa only [hstart] using hnext
    · rw [if_neg hroom]
      exact h

theorem start_kind {tick : Tick} {started : Job} (h : job.start tick = some started) :
    started = job ∨ exists com com', job.kind = .wmiLogFile com ∧
      started = { job with kind := .wmiLogFile com' } := by
  unfold Job.start at h
  cases hkind : job.kind with
  | ipmi lastKnown phase | wmiLogEntry name lastKnown phase =>
    rw [hkind] at h
    exact Or.inl (Option.some.inj h).symm
  | wmiLogFile com =>
    rw [hkind] at h
    simp only [] at h
    cases hspawns : tick.spawns with
    | false => simp [hspawns] at h
    | true =>
      rw [hspawns, if_pos rfl] at h
      exact Or.inr ⟨com, some .running, rfl, (Option.some.inj h).symm⟩

/-- A job that has been taken runs, unless its start has raised. -/
structure Begins (poller after : Poller) (id : Nat) (job : Job) : Prop where
  bare : forall id, after.bare id = poller.bare id
  runQueue : after.runQueue = poller.runQueue.eraseP (poller.equals job)
  created : after.created = poller.created
  running : after.jobsRunning = poller.jobsRunning ∨
    after.jobsRunning = poller.jobsRunning ++ [id]

theorem begins_begin (tick : Nat -> Tick) (hjob : poller.jobs id = some job) :
    Begins poller (poller.begin tick id job) id job := by
  unfold Poller.begin
  cases hstart : job.start (tick id) with
  | none => exact ⟨fun _ => rfl, rfl, rfl, Or.inl rfl⟩
  | some started =>
    refine ⟨fun other => ?_, rfl, rfl, Or.inr rfl⟩
    refine @bare_setJob { poller with runQueue := _ } id job started hjob ?_ other
    rcases start_kind hstart with rfl | ⟨com, com', hkind, rfl⟩
    · rfl
    · unfold Job.bare
      rw [hkind]

theorem Begins.running_or (h : Begins poller after id job) :
    forall other, other ∈ after.jobsRunning -> other = id ∨ other ∈ poller.jobsRunning := by
  intro other hother
  rcases h.running with heq | heq
  · exact Or.inr (heq ▸ hother)
  · exact (mem_append.mp (heq ▸ hother)).symm.imp_left mem_singleton.mp

theorem Begins.alive (h : Begins poller after id job) (hmem : id ∈ poller.runQueue) :
    after.alive ⊆ poller.alive := by
  intro other hother
  rcases mem_append.mp hother with hqueued | hrun
  · rw [h.runQueue] at hqueued
    exact mem_append_left _ (eraseP_subset hqueued)
  · rcases h.running_or other hrun with rfl | hold
    · exact mem_append_left _ hmem
    · exact mem_append_right _ hold

/-- A job that may be chosen keeps the limits. -/
theorem Limited.begins (h : Limited poller) (happart : poller.Apart)
    (hroom : poller.jobsRunning.length < Poller.maxConcurrentJobs)
    (hjob : poller.jobs id = some job) (hmem : id ∈ poller.runQueue)
    (hselectable : poller.selectable id = true) (hbegins : Begins poller after id job) :
    Limited after := by
  rcases hbegins.running with hrunning | hrunning
  · exact h.congr (fun other _ => hbegins.bare other) (hrunning ▸ Sublist.refl _)
  · simp only [Poller.selectable, hjob, Option.any_some, Bool.and_eq_true, Bool.not_eq_true',
      decide_eq_true_eq] at hselectable
    rcases hselectable with ⟨hfew, hunequal⟩
    constructor
    · rw [hrunning, length_append]
      exact hroom
    · intro device
      have hon : after.on device = poller.on device := by
        funext other
        rw [on_eq, on_eq, hbegins.bare]
      rw [hon, hrunning, countP_append, countP_singleton]
      split
      · rename_i hon
        have hdevice : device = job.targetDevice := by simpa [Poller.on, hjob] using hon
        rw [hdevice]
        exact hfew
      · exact h.onDevice device
    · simp only [equal_eq, hbegins.bare, hrunning]
      simp only [← equal_eq]
      refine pairwise_append.mpr ⟨h.unequal, pairwise_singleton _ _, fun other hother last hlast => ?_⟩
      rw [mem_singleton.mp hlast, happart other (mem_append_right _ hother) id
        (mem_append_left _ hmem)]
      have hother := any_eq_false.mp hunequal other hother
      simp only [Poller.equal, hjob, Option.any_some]
      exact ⟨Bool.eq_false_iff.mpr hother, Bool.eq_false_iff.mpr hother⟩

/-- The job that is chosen is the one that leaves the queue. -/
theorem erase_chosen (happart : poller.Apart) (hjob : poller.jobs id = some job)
    (hfind : poller.runQueue.find? poller.selectable = some id) :
    exists before rest, poller.runQueue = before ++ id :: rest ∧
      (forall other, other ∈ before -> poller.selectable other = false) ∧
      poller.runQueue.eraseP (poller.equals job) = before ++ rest := by
  rcases find?_eq_some_iff_append.mp hfind with ⟨hselectable, before, rest, hqueue, hfirst⟩
  have hbefore : forall other, other ∈ before -> poller.selectable other = false :=
    fun other hother => (Bool.not_eq_true' _).mp (hfirst other hother)
  refine ⟨before, rest, hqueue, hbefore, ?_⟩
  have hequals : forall other, poller.equals job other = poller.equal other id := by
    intro other
    simp [Poller.equals, Poller.equal, hjob]
  rw [hqueue, eraseP_append_right, eraseP_cons_of_pos]
  · simp only [hequals, Poller.equal, hjob, Option.any_some]
    cases hkind : job.kind <;> simp [Job.eq, hkind]
  · intro other hother hequal
    rw [hequals] at hequal
    have hback := (happart other (mem_append_left _ (hqueue ▸ mem_append_left _ hother)) id
      (mem_append_left _ (mem_of_find?_eq_some hfind))).symm.trans hequal
    have hsame := hbefore other hother
    rw [selectable_eq, bare_congr hequal hback, ← selectable_eq, hselectable] at hsame
    cases hsame

theorem scheduleWmiHost_rec {P : Poller -> Prop} {host : Host}
    (hlogFile : forall poller, P poller ->
      P (poller.schedule ⟨host.device, host.ip, .wmiLogFile none⟩))
    (hlogEntry : forall poller name, P poller -> P (poller.schedule ⟨host.device, host.ip,
      .wmiLogEntry name (poller.db.wmiMaximal host.device name) .initial⟩))
    (outdated : Nat -> Bool) (h : P poller) : P (poller.scheduleWmiHost outdated host) := by
  unfold Poller.scheduleWmiHost
  cases host.credentials with
  | false => exact h
  | true =>
    rw [if_pos rfl]
    cases poller.db.wmiLogfile host.device with
    | none => exact hlogFile poller h
    | some names =>
      simp only []
      cases outdated host.device with
      | true => exact hlogFile poller h
      | false => exact invariant_of_step _ (fun _ name h => hlogEntry _ name h) h names

/-- What holds between the actions, with the jobs that have been taken. -/
structure RunInv (started : List Nat) (poller : Poller) : Prop where
  limited : Limited poller
  fresh : forall id, id ∈ poller.jobsRunning -> id < poller.created
  accounted : (started ++ poller.runQueue).Perm (range poller.created)

variable {started : List Nat}

theorem RunInv.ends (h : RunInv started poller) (hends : Ends poller after) :
    RunInv started after where
  limited := h.limited.congr (fun id _ => hends.bare id) hends.running
  fresh id hid := hends.created ▸ h.fresh id (hends.running.subset hid)
  accounted := by
    rw [hends.runQueue, hends.created]
    exact h.accounted

theorem RunInv.startJobs (h : RunInv started poller) (happart : poller.Apart) (count : Nat) :
    exists taken, Takes tick poller taken (Poller.startJobs tick count poller) ∧
      RunInv (started ++ taken) (Poller.startJobs tick count poller) := by
  refine (startJobs_rec (P := fun after => after.Apart ∧ exists taken, Takes tick poller taken after ∧
    RunInv (started ++ taken) after) ?_ count
    ⟨happart, [], .stop, (append_nil started).symm ▸ h⟩).right
  rintro between id job ⟨happart, taken, htakes, hinv⟩ hroom hfind hjob
  have hbegins := begins_begin tick hjob
  have hmem := mem_of_find?_eq_some hfind
  have hselectable := find?_some hfind
  rcases erase_chosen happart hjob hfind with ⟨before, rest, hqueue, hfirst, herase⟩
  have hid : id < between.created :=
    mem_range.mp (hinv.accounted.subset (mem_append_right _ hmem))
  refine ⟨happart.congr hbegins.bare (hbegins.alive hmem), taken ++ [id],
    .next htakes hjob hqueue hfirst hselectable (hbegins.runQueue.trans herase),
    hinv.limited.begins happart hroom hjob hmem hselectable hbegins, ?_, ?_⟩
  · intro other hother
    rw [hbegins.created]
    rcases hbegins.running_or other hother with rfl | hold
    · exact hid
    · exact hinv.fresh other hold
  · rw [hbegins.runQueue, herase, hbegins.created]
    refine Perm.trans ?_ hinv.accounted
    rw [hqueue]
    simp only [append_assoc, singleton_append]
    exact (perm_middle.symm.append_left taken).append_left started

theorem RunInv.schedule (h : RunInv started poller) (job : Job) :
    RunInv started (poller.schedule job) := by
  unfold Poller.schedule
  split
  · exact h
  · constructor
    · refine h.limited.congr (fun id hid => ?_) (Sublist.refl _)
      exact congrArg _ (jobs_setJob_ne poller job (h.fresh id hid).ne)
    · exact fun id hid => Nat.lt_succ_of_lt (h.fresh id hid)
    · show (started ++ (poller.runQueue ++ [poller.created])).Perm (range (poller.created + 1))
      rw [← append_assoc, range_succ]
      exact h.accounted.append_right _

theorem RunInv.periodicUpdate (h : RunInv started poller) (wmiHosts ipmiHosts : List Host)
    (outdated : Nat -> Bool) :
    RunInv started (poller.periodicUpdate wmiHosts ipmiHosts outdated) := by
  refine invariant_of_step _ (fun poller host h => ?_) (invariant_of_step _
    (fun poller host h => scheduleWmiHost_rec (fun _ h => h.schedule _) (fun _ _ h => h.schedule _)
      outdated h) h wmiHosts) ipmiHosts
  unfold Poller.scheduleIpmiHost
  split
  · exact h.schedule _
  · exact h

theorem RunInv.jobControl (h : RunInv started poller) (happart : poller.Apart)
    (tick : Nat -> Tick) :
    exists taken, Takes tick (poller.checkJobs tick) taken (poller.jobControl tick) ∧
      RunInv (started ++ taken) (poller.jobControl tick) := by
  have hends : Ends poller (poller.checkJobs tick) := ends_checkJobs tick poller.jobsRunning poller
  exact (h.ends hends).startJobs (happart.congr hends.bare hends.alive) _

variable {state : State}

theorem step_commandEnds_none (hjob : state.poller.jobs id = none)
    (answer : Answer) : state.step (.commandEnds id answer) = state := by
  unfold State.step
  simp only [hjob]

theorem step_commandEnds_some (hjob : state.poller.jobs id = some job) (answer : Answer) :
    state.step (.commandEnds id answer) =
      { state with
        poller := state.poller.setJob id { job with kind := job.kind.commandEnds answer } } := by
  unfold State.step
  simp only [hjob]

end Poller

theorem exists_runInv {actions : List Action}
    (h : Along State.step KeepsApart State.new actions) :
    exists started, Starts actions started ∧
      RunInv started (run State.step State.new actions).poller := by
  induction actions using reverseRecOn with
  | nil =>
    exact ⟨[], .new, ⟨Nat.zero_le _, fun _ => Nat.zero_le _, Pairwise.nil⟩, nofun,
      Perm.refl _⟩
  | append_singleton actions action ih =>
    rcases (along_append State.step).mp h with ⟨hbefore, hlast⟩
    rcases ih hbefore with ⟨started, hstarts, hinv⟩
    rw [run_append]
    cases action with
    | jobControl tick =>
      rcases hinv.jobControl hlast.left tick with ⟨taken, htakes, hnext⟩
      exact ⟨started ++ taken, .control hstarts htakes, hnext⟩
    | periodicUpdate wmiHosts ipmiHosts outdated =>
      exact ⟨started, .other hstarts nofun, hinv.periodicUpdate wmiHosts ipmiHosts outdated⟩
    | growIpmi device recordId => exact ⟨started, .other hstarts nofun, hinv⟩
    | growWmi device name entry => exact ⟨started, .other hstarts nofun, hinv⟩
    | commandEnds id answer =>
      refine ⟨started, .other hstarts nofun, ?_⟩
      cases hjob : (run State.step State.new actions).poller.jobs id with
      | none =>
        rw [run_cons, step_commandEnds_none hjob]
        exact hinv
      | some job =>
        rw [run_cons, step_commandEnds_some hjob]
        refine hinv.ends ⟨bare_setJob hjob ?_, rfl, rfl, Sublist.refl _⟩
        unfold Job.bare
        rcases job.kind with ⟨_, _ | _ | _⟩ | _ | ⟨_, _, _ | _ | _⟩ <;> rfl

/-- In the runs in which equal jobs are equal both ways, the limits of the jobs hold. -/
theorem jobs_limited (actions : List Action)
    (h : Along State.step KeepsApart State.new actions) : JobsLimited actions := by
  rcases exists_runInv h with ⟨started, hstarts, hinv⟩
  exact ⟨hinv.limited, started, hstarts, hinv.accounted⟩

def everReady (_ : Nat) : Tick := ⟨true, false⟩

def exampleHost : Host := ⟨1, ['i', 'p'], true⟩

def updateExample : Action := .periodicUpdate [] [exampleHost] fun _ => false

theorem jobs_limited_update : JobsLimited [updateExample, .jobControl everReady] := by
  refine jobs_limited _ ⟨trivial, ?_, trivial⟩
  unfold KeepsApart Poller.Apart
  decide

/-- The jobs for a device with IPMI and WMI run beside each other, and are equal. -/
theorem not_jobsLimited_beside : ¬ JobsLimited [updateExample,
    .periodicUpdate [exampleHost] [] fun _ => false, .jobControl everReady] :=
  fun h => absurd h.left.unequal (by decide)

end Icsw.EventLog
