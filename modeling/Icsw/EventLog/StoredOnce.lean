import Icsw.EventLog.Records

/-!
# Records are stored once

While no two jobs of the poller are for the records of the same IPMI device, each of
them knows the record that follows the ones that are stored.  WMI jobs look for the
entries in the database before they store them.
-/

namespace Icsw.EventLog

open Foundation List

def Poller.IpmiFor (poller : Poller) (device id : Nat) : Prop :=
  exists job lastKnown phase, poller.jobs id = some job ∧ job.kind = .ipmi lastKnown phase ∧
    job.targetDevice = device

/-- What holds of the database and of the jobs, of those of IPMI devices as far as they are
given. -/
structure Inv (wmiLog : Nat -> Text -> List WmiEntry) (ids : List Nat) (poller : Poller) :
    Prop where
  counted : poller.db.Counted
  alone : forall device id id', id ∈ ids -> id' ∈ ids -> poller.IpmiFor device id ->
    poller.IpmiFor device id' -> id = id'
  ipmiFits : forall id job lastKnown phase, id ∈ ids -> poller.jobs id = some job ->
    job.kind = .ipmi lastKnown phase ->
    IpmiFits (poller.db.recordIds job.targetDevice).length lastKnown phase
  ipmiEnded : forall device maximum, Ended.ipmi device maximum ∈ poller.ended ->
    maximum ≤ (poller.db.recordIds device).length
  once : poller.db.wmiEventLog.Nodup
  maximal : forall device name number, poller.db.wmiMaximal device name = some number ->
    Covered (wmiLog device name) poller.db device name number
  wmiFits : forall id job name lastKnown phase, poller.jobs id = some job ->
    job.kind = .wmiLogEntry name lastKnown phase ->
    (forall number, lastKnown = some number ->
      Covered (wmiLog job.targetDevice name) poller.db job.targetDevice name number) ∧
    WmiFits (wmiLog job.targetDevice name) poller.db job.targetDevice name phase
  wmiEnded : forall device name maximum, Ended.wmi device name maximum ∈ poller.ended ->
    Covered (wmiLog device name) poller.db device name maximum

variable {phase : WmiPhase}

theorem WmiFits.mono {log : List WmiEntry} {db db' : Database} {device : Nat} {name : Text}
    (h : WmiFits log db device name phase)
    (hstored : db.wmiEventLog ⊆ db'.wmiEventLog) : WmiFits log db' device name phase := by
  cases phase with
  | initial => trivial
  | findMaximum extCom => exact h
  | retrieveEvents lower upper extCom => exact ⟨h.left.mono hstored, h.right⟩

section Update

variable {wmiLog : Nat -> Text -> List WmiEntry} {ids : List Nat} {poller after : Poller}
  {id : Nat} {job : Job}

theorem jobs_setJob_self (poller : Poller) (id : Nat) (job : Job) :
    (poller.setJob id job).jobs id = some job := if_pos rfl

theorem jobs_setJob_ne (poller : Poller) {id id' : Nat} (job : Job) (hne : id' ≠ id) :
    (poller.setJob id job).jobs id' = poller.jobs id' := if_neg hne

theorem Inv.subset (h : Inv wmiLog ids poller) {ids' : List Nat} (hsubset : ids' ⊆ ids) :
    Inv wmiLog ids' poller :=
  { h with
    alone := fun device id id' hid hid' => h.alone device id id' (hsubset hid) (hsubset hid')
    ipmiFits := fun id job lastKnown phase hid => h.ipmiFits id job lastKnown phase (hsubset hid) }

theorem Inv.congr (h : Inv wmiLog ids poller) (hdb : after.db = poller.db)
    (hjobs : after.jobs = poller.jobs) (hended : after.ended = poller.ended) :
    Inv wmiLog ids after := by
  rcases poller with ⟨db, jobs, created, runQueue, jobsRunning, ended⟩
  rcases after with ⟨db', jobs', created', runQueue', jobsRunning', ended'⟩
  cases hdb
  cases hjobs
  cases hended
  exact { h with }

theorem recordIds_congr {db db' : Database} (h : db'.ipmiEventLog = db.ipmiEventLog)
    (device : Nat) : db'.recordIds device = db.recordIds device := by
  unfold Database.recordIds
  rw [h]

theorem counted_storeIpmi {db : Database} (h : db.Counted) (device : Nat) :
    (db.storeIpmi device ((db.recordIds device).length + 1)).Counted := by
  intro other
  rcases h other with ⟨count, hcount⟩
  rw [recordIds_storeIpmi]
  by_cases hdevice : device = other
  · refine ⟨count + 1, ?_⟩
    rw [if_pos hdevice, hdevice, hcount, length_range', range'_concat]
    simp [Nat.add_comm]
  · exact ⟨count, by rw [if_neg hdevice, append_nil, hcount]⟩

variable {kind : JobKind}

theorem ipmiFor_setJob (hjob : poller.jobs id = some job)
    (hkind : (exists lastKnown phase, kind = .ipmi lastKnown phase) <->
      exists lastKnown phase, job.kind = .ipmi lastKnown phase)
    (hjobs : after.jobs = (poller.setJob id { job with kind := kind }).jobs) {device id' : Nat}
    (h : after.IpmiFor device id') : poller.IpmiFor device id' := by
  rcases h with ⟨other, lastKnown, phase, hother, hipmi, hdevice⟩
  rw [hjobs] at hother
  by_cases hid : id' = id
  · rw [hid, jobs_setJob_self] at hother
    cases hother
    rcases hkind.mp ⟨lastKnown, phase, hipmi⟩ with ⟨lastKnown', phase', hold⟩
    exact ⟨job, lastKnown', phase', hid ▸ hjob, hold, hdevice⟩
  · rw [jobs_setJob_ne _ _ hid] at hother
    exact ⟨other, lastKnown, phase, hother, hipmi, hdevice⟩

/-- What a job has to keep true when it changes. -/
structure Change (wmiLog : Nat -> Text -> List WmiEntry) (ids : List Nat) (poller after : Poller)
    (id : Nat) (job : Job) (kind : JobKind) : Prop where
  jobs : after.jobs = (poller.setJob id { job with kind := kind }).jobs
  sort : (exists lastKnown phase, kind = .ipmi lastKnown phase) <->
    exists lastKnown phase, job.kind = .ipmi lastKnown phase
  counted : after.db.Counted
  more : forall device,
    (poller.db.recordIds device).length ≤ (after.db.recordIds device).length
  others : forall device, (id ∈ ids -> poller.IpmiFor job.targetDevice id ->
    device ≠ job.targetDevice) -> after.db.recordIds device = poller.db.recordIds device
  stored : poller.db.wmiEventLog ⊆ after.db.wmiEventLog
  once : after.db.wmiEventLog.Nodup
  maximal : forall device name number, after.db.wmiMaximal device name = some number ->
    poller.db.wmiMaximal device name = some number ∨
      Covered (wmiLog device name) after.db device name number
  ipmi : forall lastKnown phase, kind = .ipmi lastKnown phase -> id ∈ ids ->
    IpmiFits (after.db.recordIds job.targetDevice).length lastKnown phase
  wmi : forall name lastKnown phase, kind = .wmiLogEntry name lastKnown phase ->
    (forall number, lastKnown = some number ->
      Covered (wmiLog job.targetDevice name) after.db job.targetDevice name number) ∧
    WmiFits (wmiLog job.targetDevice name) after.db job.targetDevice name phase
  ipmiEnded : forall device maximum, Ended.ipmi device maximum ∈ after.ended ->
    Ended.ipmi device maximum ∈ poller.ended ∨ maximum ≤ (after.db.recordIds device).length
  wmiEnded : forall device name maximum, Ended.wmi device name maximum ∈ after.ended ->
    Ended.wmi device name maximum ∈ poller.ended ∨
      Covered (wmiLog device name) after.db device name maximum

theorem Inv.change (h : Inv wmiLog ids poller) (hjob : poller.jobs id = some job)
    (hchange : Change wmiLog ids poller after id job kind) : Inv wmiLog ids after where
  counted := hchange.counted
  alone := fun device id' id'' hid' hid'' hfor' hfor'' =>
    h.alone device id' id'' hid' hid'' (ipmiFor_setJob hjob hchange.sort hchange.jobs hfor')
      (ipmiFor_setJob hjob hchange.sort hchange.jobs hfor'')
  ipmiFits := by
    intro id' job' lastKnown phase hid' hjob' hkind
    rw [hchange.jobs] at hjob'
    by_cases hsame : id' = id
    · rw [hsame, jobs_setJob_self] at hjob'
      cases hjob'
      exact hchange.ipmi lastKnown phase hkind (hsame ▸ hid')
    · rw [jobs_setJob_ne _ _ hsame] at hjob'
      have hdevice : id ∈ ids -> poller.IpmiFor job.targetDevice id ->
          job'.targetDevice ≠ job.targetDevice := fun hid hfor heq =>
        hsame (h.alone job.targetDevice id' id hid' hid
          ⟨job', lastKnown, phase, hjob', hkind, heq⟩ hfor)
      rw [hchange.others _ hdevice]
      exact h.ipmiFits id' job' lastKnown phase hid' hjob' hkind
  ipmiEnded := by
    intro device maximum hmem
    rcases hchange.ipmiEnded device maximum hmem with hold | hnew
    · exact (h.ipmiEnded device maximum hold).trans (hchange.more device)
    · exact hnew
  once := hchange.once
  maximal := by
    intro device name number hnumber
    rcases hchange.maximal device name number hnumber with hold | hnew
    · exact (h.maximal device name number hold).mono hchange.stored
    · exact hnew
  wmiFits := by
    intro id' job' name lastKnown phase hjob' hkind
    rw [hchange.jobs] at hjob'
    by_cases hsame : id' = id
    · rw [hsame, jobs_setJob_self] at hjob'
      cases hjob'
      exact hchange.wmi name lastKnown phase hkind
    · rw [jobs_setJob_ne _ _ hsame] at hjob'
      rcases h.wmiFits id' job' name lastKnown phase hjob' hkind with ⟨hlast, hphase⟩
      exact ⟨fun number hnumber => (hlast number hnumber).mono hchange.stored,
        hphase.mono hchange.stored⟩
  wmiEnded := by
    intro device name maximum hmem
    rcases hchange.wmiEnded device name maximum hmem with hold | hnew
    · exact (h.wmiEnded device name maximum hold).mono hchange.stored
    · exact hnew

theorem Inv.changeSame (h : Inv wmiLog ids poller) (hjob : poller.jobs id = some job)
    (hjobs : after.jobs = (poller.setJob id { job with kind := kind }).jobs)
    (hsort : (exists lastKnown phase, kind = .ipmi lastKnown phase) <->
      exists lastKnown phase, job.kind = .ipmi lastKnown phase)
    (hipmiLog : after.db.ipmiEventLog = poller.db.ipmiEventLog)
    (hwmiLog : after.db.wmiEventLog = poller.db.wmiEventLog)
    (hmaximal : after.db.wmiMaximal = poller.db.wmiMaximal)
    (hended : forall ended, ended ∈ after.ended -> ended ∈ poller.ended ∨ exists maximum,
      ended = .ipmi job.targetDevice maximum ∧
        maximum ≤ (poller.db.recordIds job.targetDevice).length)
    (hipmi : forall lastKnown phase, kind = .ipmi lastKnown phase -> id ∈ ids ->
      IpmiFits (poller.db.recordIds job.targetDevice).length lastKnown phase)
    (hwmi : forall name lastKnown phase, kind = .wmiLogEntry name lastKnown phase ->
      (forall number, lastKnown = some number ->
        Covered (wmiLog job.targetDevice name) poller.db job.targetDevice name number) ∧
      WmiFits (wmiLog job.targetDevice name) poller.db job.targetDevice name phase) :
    Inv wmiLog ids after := by
  have hids := recordIds_congr hipmiLog
  have hstored : poller.db.wmiEventLog ⊆ after.db.wmiEventLog := by
    rw [hwmiLog]
    exact Subset.refl _
  apply h.change hjob
  exact
    { jobs := hjobs
      sort := hsort
      counted := fun device => by rw [hids]; exact h.counted device
      more := fun device => le_of_eq (by rw [hids])
      others := fun device _ => hids device
      stored := hstored
      once := by rw [hwmiLog]; exact h.once
      maximal := fun device name number hnumber => Or.inl (by rw [← hmaximal]; exact hnumber)
      ipmi := fun lastKnown phase hkind hid => by
        rw [hids]
        exact hipmi lastKnown phase hkind hid
      wmi := fun name lastKnown phase hkind =>
        ⟨fun number hnumber => ((hwmi name lastKnown phase hkind).left number hnumber).mono hstored,
          (hwmi name lastKnown phase hkind).right.mono hstored⟩
      ipmiEnded := fun device maximum hmem => (hended _ hmem).imp_right
        fun ⟨found, heq, hle⟩ => by
          cases heq
          rw [hids]
          exact hle
      wmiEnded := fun device name maximum hmem => Or.inl ((hended _ hmem).resolve_right
        fun ⟨found, heq, _⟩ => nomatch heq) }

theorem checkJob_eq (tick : Nat -> Tick) (hjob : poller.jobs id = some job) :
    exists jobsRunning, poller.checkJob tick id =
        { poller.checked id job (job.periodicCheck (tick id) poller.db) with
          jobsRunning := jobsRunning } ∧
      jobsRunning.Sublist poller.jobsRunning := by
  unfold Poller.checkJob
  simp only [hjob]
  by_cases hends : (job.periodicCheck (tick id) poller.db).2.2.ends = true
  · rw [if_pos hends]
    exact ⟨_, rfl, eraseP_sublist⟩
  · rw [if_neg hends]
    exact ⟨_, rfl, Sublist.refl _⟩

variable {lastKnown : Option Nat}

theorem mem_ending_ipmi {phase : IpmiPhase}
    (hkind : job.kind = .ipmi lastKnown phase) {verdict : Verdict} {ended : Ended}
    (h : ended ∈ job.ending verdict) :
    exists maximum, verdict = .finished (some maximum) ∧
      ended = .ipmi job.targetDevice maximum := by
  unfold Job.ending at h
  rcases verdict with _ | (_ | maximum) | _
  · cases h
  · cases h
  · rw [hkind] at h
    exact ⟨maximum, rfl, mem_singleton.mp h⟩
  · cases h

theorem mem_ending_wmi {name : Text}
    (hkind : job.kind = .wmiLogEntry name lastKnown phase) {verdict : Verdict} {ended : Ended}
    (h : ended ∈ job.ending verdict) :
    exists maximum, verdict = .finished (some maximum) ∧
      ended = .wmi job.targetDevice name maximum := by
  unfold Job.ending at h
  rcases verdict with _ | (_ | maximum) | _
  · cases h
  · cases h
  · rw [hkind] at h
    exact ⟨maximum, rfl, mem_singleton.mp h⟩
  · cases h

theorem ending_logFile {com : Option ExtCom} (hkind : job.kind = .wmiLogFile com)
    (verdict : Verdict) : job.ending verdict = [] := by
  unfold Job.ending
  rcases verdict with _ | (_ | maximum) | _
  · rfl
  · rfl
  · rw [hkind]
  · rfl

theorem Inv.checkedIpmi (h : Inv wmiLog ids poller) (tick : Tick) (hid : id ∈ ids)
    (hjob : poller.jobs id = some job) {phase : IpmiPhase}
    (hkind : job.kind = .ipmi lastKnown phase) :
    Inv wmiLog ids (poller.checked id job (job.periodicCheck tick poller.db)) := by
  have hresult : job.periodicCheck tick poller.db =
      ((ipmiCheck job.targetDevice lastKnown tick poller.db phase).1,
        .ipmi lastKnown (ipmiCheck job.targetDevice lastKnown tick poller.db phase).2.1,
        (ipmiCheck job.targetDevice lastKnown tick poller.db phase).2.2) := by
    unfold Job.periodicCheck
    rw [hkind]
  have hcheck := ipmiCheck_checked job.targetDevice tick poller.db
    (h.ipmiFits id job lastKnown phase hid hjob hkind)
  rw [hresult]
  clear hresult
  generalize ipmiCheck job.targetDevice lastKnown tick poller.db phase = result at hcheck
  rcases result with ⟨db, phase', verdict⟩
  rcases hcheck with ⟨count', hdb, hfits, hfinished⟩
  have hsort : (exists lastKnown' phase'', JobKind.ipmi lastKnown phase' =
      .ipmi lastKnown' phase'') <->
      exists lastKnown' phase'', job.kind = .ipmi lastKnown' phase'' :=
    ⟨fun _ => ⟨lastKnown, phase, hkind⟩, fun _ => ⟨lastKnown, phase', rfl⟩⟩
  have hended : forall ended, ended ∈ poller.ended ++ job.ending verdict ->
      ended ∈ poller.ended ∨ exists maximum, ended = .ipmi job.targetDevice maximum ∧
        maximum ≤ count' := by
    intro ended hmem
    rcases mem_append.mp hmem with hold | hnew
    · exact Or.inl hold
    · rcases mem_ending_ipmi hkind hnew with ⟨maximum, hverdict, heq⟩
      exact Or.inr ⟨maximum, heq, hfinished maximum hverdict⟩
  rcases hdb with ⟨rfl, hsame⟩ | ⟨rfl, hstore⟩
  · cases (hsame : db = poller.db)
    refine h.changeSame hjob rfl hsort rfl rfl rfl hended ?_ (fun _ _ _ heq => nomatch heq)
    intro lastKnown' phase'' heq _
    cases heq
    exact hfits
  · have hstored : db = poller.db.storeIpmi job.targetDevice
        ((poller.db.recordIds job.targetDevice).length + 1) := hstore
    have hids : forall device, db.recordIds device = poller.db.recordIds device ++
        if job.targetDevice = device then [(poller.db.recordIds job.targetDevice).length + 1]
        else [] := by
      rw [hstored]
      exact recordIds_storeIpmi _ _ _
    have hown : (db.recordIds job.targetDevice).length =
        (poller.db.recordIds job.targetDevice).length + 1 := by
      rw [hids, if_pos rfl, length_append]
      rfl
    have hwmiLog : db.wmiEventLog = poller.db.wmiEventLog := by rw [hstored]; rfl
    have hmaximal : db.wmiMaximal = poller.db.wmiMaximal := by rw [hstored]; rfl
    apply h.change hjob
    exact
      { jobs := rfl
        sort := hsort
        counted := by
          show db.Counted
          rw [hstored]
          exact counted_storeIpmi h.counted _
        more := fun device => by
          show _ ≤ (db.recordIds device).length
          rw [hids, length_append]
          exact Nat.le_add_right _ _
        others := fun device hdevice => by
          have hne := hdevice hid ⟨job, lastKnown, phase, hjob, hkind, rfl⟩
          show db.recordIds device = _
          rw [hids, if_neg hne.symm, append_nil]
        stored := fun row hrow => hwmiLog ▸ hrow
        once := hwmiLog ▸ h.once
        maximal := fun device name number hnumber => Or.inl (hmaximal ▸ hnumber)
        ipmi := fun lastKnown' phase'' heq _ => by
          cases heq
          show IpmiFits (db.recordIds _).length _ _
          rw [hown]
          exact hfits
        wmi := fun _ _ _ heq => nomatch heq
        ipmiEnded := fun device maximum hmem => (hended _ hmem).imp_right
          fun ⟨found, heq, hle⟩ => by
            cases heq
            exact hle.trans (le_of_eq hown.symm)
        wmiEnded := fun device name maximum hmem => Or.inl ((hended _ hmem).resolve_right
          fun ⟨found, heq, _⟩ => nomatch heq) }

theorem Inv.checkedWmi (hlogs : forall device name, LogFits (wmiLog device name))
    (h : Inv wmiLog ids poller) (tick : Tick) (hjob : poller.jobs id = some job)
    {name : Text} (hkind : job.kind = .wmiLogEntry name lastKnown phase) :
    Inv wmiLog ids (poller.checked id job (job.periodicCheck tick poller.db)) := by
  have hresult : job.periodicCheck tick poller.db =
      ((wmiCheck job.targetDevice name lastKnown tick poller.db phase).1,
        .wmiLogEntry name lastKnown
          (wmiCheck job.targetDevice name lastKnown tick poller.db phase).2.1,
        (wmiCheck job.targetDevice name lastKnown tick poller.db phase).2.2) := by
    unfold Job.periodicCheck
    rw [hkind]
  rcases h.wmiFits id job name lastKnown phase hjob hkind with ⟨hlast, hphase⟩
  have hcheck := wmiCheck_checked (hlogs job.targetDevice name) h.once hlast tick hphase
  rw [hresult]
  clear hresult
  generalize wmiCheck job.targetDevice name lastKnown tick poller.db phase = result at hcheck
  rcases result with ⟨db, phase', verdict⟩
  have hids : forall device, db.recordIds device = poller.db.recordIds device :=
    recordIds_congr hcheck.ipmi
  have hended : forall ended, ended ∈ poller.ended ++ job.ending verdict ->
      ended ∈ poller.ended ∨ exists maximum, verdict = .finished (some maximum) ∧
        ended = .wmi job.targetDevice name maximum := by
    intro ended hmem
    exact (mem_append.mp hmem).imp_right (mem_ending_wmi hkind)
  apply h.change hjob
  exact
    { jobs := rfl
      sort := by
        constructor
        · rintro ⟨_, _, heq⟩
          cases heq
        · rintro ⟨_, _, heq⟩
          rw [hkind] at heq
          cases heq
      counted := fun device => by
        show exists count, db.recordIds device = _
        rw [hids]
        exact h.counted device
      more := fun device => le_of_eq (congrArg length (hids device).symm)
      others := fun device _ => hids device
      stored := hcheck.stored
      once := hcheck.once
      maximal := fun device name' number hnumber => (hcheck.maximal device name' number
        hnumber).imp_right fun ⟨hdevice, hname, hcovered⟩ => by
          rw [hdevice, hname]
          exact hcovered
      ipmi := fun _ _ heq => nomatch heq
      wmi := fun name' lastKnown' phase'' heq => by
        cases heq
        exact ⟨fun number hnumber => (hlast number hnumber).mono hcheck.stored, hcheck.fits⟩
      ipmiEnded := fun device maximum hmem => Or.inl ((hended _ hmem).resolve_right
        fun ⟨found, _, heq⟩ => nomatch heq)
      wmiEnded := fun device name' maximum hmem => (hended _ hmem).imp_right
        fun ⟨found, hverdict, heq⟩ => by
          cases heq
          exact hcheck.finished _ hverdict }

theorem logFileCheck_same (device : Nat) (db : Database) (com : Option ExtCom) :
    (logFileCheck device db com).1.ipmiEventLog = db.ipmiEventLog ∧
      (logFileCheck device db com).1.wmiEventLog = db.wmiEventLog ∧
      (logFileCheck device db com).1.wmiMaximal = db.wmiMaximal := by
  rcases com with _ | _ | answer | _
  · exact ⟨rfl, rfl, rfl⟩
  · exact ⟨rfl, rfl, rfl⟩
  · show (logFileFeed device db answer).1.ipmiEventLog = _ ∧
      (logFileFeed device db answer).1.wmiEventLog = _ ∧
      (logFileFeed device db answer).1.wmiMaximal = _
    unfold logFileFeed
    cases answer.succeeded.bind Output.names with
    | none => exact ⟨rfl, rfl, rfl⟩
    | some names => exact ⟨rfl, rfl, rfl⟩
  · exact ⟨rfl, rfl, rfl⟩

theorem Inv.checkedLogFile (h : Inv wmiLog ids poller) (tick : Tick)
    (hjob : poller.jobs id = some job) {com : Option ExtCom} (hkind : job.kind = .wmiLogFile com) :
    Inv wmiLog ids (poller.checked id job (job.periodicCheck tick poller.db)) := by
  have hresult : job.periodicCheck tick poller.db =
      ((logFileCheck job.targetDevice poller.db com).1, .wmiLogFile com,
        (logFileCheck job.targetDevice poller.db com).2) := by
    unfold Job.periodicCheck
    rw [hkind]
  rcases logFileCheck_same job.targetDevice poller.db com with ⟨hipmi, hwmi, hmaximal⟩
  rw [hresult]
  refine h.changeSame hjob rfl ?_ hipmi hwmi hmaximal ?_ (fun _ _ heq => nomatch heq)
    (fun _ _ _ heq => nomatch heq)
  · rw [hkind]
  · intro ended hmem
    have hold : ended ∈ poller.ended ++ job.ending (logFileCheck job.targetDevice poller.db com).2 :=
      hmem
    rw [ending_logFile hkind, append_nil] at hold
    exact Or.inl hold

theorem Inv.checked (hlogs : forall device name, LogFits (wmiLog device name))
    (h : Inv wmiLog ids poller) (tick : Tick) (hid : id ∈ ids) (hjob : poller.jobs id = some job) :
    Inv wmiLog ids (poller.checked id job (job.periodicCheck tick poller.db)) := by
  cases hkind : job.kind with
  | ipmi lastKnown phase => exact h.checkedIpmi tick hid hjob hkind
  | wmiLogFile com => exact h.checkedLogFile tick hjob hkind
  | wmiLogEntry name lastKnown phase => exact h.checkedWmi hlogs tick hjob hkind

theorem Inv.checkJob (hlogs : forall device name, LogFits (wmiLog device name))
    (h : Inv wmiLog ids poller) (tick : Nat -> Tick) (hid : id ∈ ids) :
    Inv wmiLog ids (poller.checkJob tick id) := by
  cases hjob : poller.jobs id with
  | none =>
    unfold Poller.checkJob
    rw [hjob]
    exact h
  | some job =>
    rcases checkJob_eq tick hjob with ⟨jobsRunning, heq, _⟩
    rw [heq]
    exact (h.checked hlogs (tick id) hid hjob).congr rfl rfl rfl

end Update

end Icsw.EventLog
