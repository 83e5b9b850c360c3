import Icsw.MdSync.NeverBack

/-!
# Files outside of the base directory

The slave tests that a path starts with the text of its base directory, and takes the path as it
is.  A directory beside the base directory may start with the same text, and the parts of a path
may lead out of it again.
-/

namespace Icsw.MdSync
namespace Received

open Foundation List
open PathText (Below Within)

inductive Message where
  | fileContentBulk (srvCom : BulkCommand)
  | clearDirectories (directories : List Text)

/-- What the disk answers while a message is handled. -/
structure Answers where
  store : Text -> StoreDisk
  clear : Text -> ClearDisk

def handleMessage (codecs : Codecs) (monTopDir : Text) (slave : Slave) :
    Message × Answers -> Slave
  | (.fileContentBulk srvCom, answers) =>
    (handleDirectFileContentBulk codecs monTopDir answers.store srvCom).after slave
  | (.clearDirectories directories, answers) =>
    (handleDirectClearDirectories monTopDir answers.clear directories).after slave

/-- A file that is changed or removed is below the base directory. -/
def EventInside (cwd : List Text) (monTopDir : Text) : Event -> Prop
  | .stored path _ _ outcome => outcome.Touches -> Below cwd monTopDir path
  | .unlink path raised => raised = false -> Below cwd monTopDir path
  | _ => True

def Inside (cwd : List Text) (monTopDir : Text) (events : List Event) : Prop :=
  forall event, event ∈ events -> EventInside cwd monTopDir event

/-- The paths of the files in a message. -/
def receivedPaths (codecs : Codecs) (srvCom : BulkCommand) : List Text :=
  (requests codecs ⟨fun _ => acceptingDisk, srvCom⟩).map StoreRequest.path

/-- A path that starts with the text of the base directory leads to a place below it. -/
def PathsInside (codecs : Codecs) (cwd : List Text) (monTopDir : Text) : Message -> Prop
  | .fileContentBulk srvCom => forall path, path ∈ receivedPaths codecs srvCom ->
      monTopDir.isPrefixOf path = true -> Below cwd monTopDir path
  | .clearDirectories directories => forall directory, directory ∈ directories ->
      monTopDir.isPrefixOf directory = true -> Within cwd monTopDir directory

theorem entryRequests_paths (disks others : Text -> StoreDisk) (newVers : Int) (bulk : Content)
    (curOffset : Int) (entries : List FileElement) :
    (entryRequests disks newVers bulk curOffset entries).map StoreRequest.path =
      (entryRequests others newVers bulk curOffset entries).map StoreRequest.path := by
  induction entries generalizing curOffset with
  | nil => rfl
  | cons entry rest ih =>
    unfold entryRequests
    cases toInt entry.size with
    | error raised => rfl
    | ok size => exact congrArg (cons entry.path) (ih (curOffset + size))

theorem requests_paths (codecs : Codecs) (disks : Text -> StoreDisk) (srvCom : BulkCommand) :
    (requests codecs ⟨disks, srvCom⟩).map StoreRequest.path = receivedPaths codecs srvCom := by
  unfold receivedPaths requests
  dsimp only
  split
  · split
    · exact entryRequests_paths _ _ _ _ _ _
    · rfl
  · rfl

section Inside

variable {codecs : Codecs} {cwd : List Text} {monTopDir : Text}

theorem inside_append {events later : List Event} :
    Inside cwd monTopDir (events ++ later) <->
      Inside cwd monTopDir events ∧ Inside cwd monTopDir later := forall_mem_append

theorem inside_singleton {event : Event} :
    Inside cwd monTopDir [event] <-> EventInside cwd monTopDir event := forall_mem_singleton

theorem inside_made (disk : StoreDisk) (tFile : Text) : Inside cwd monTopDir (disk.made tFile) := by
  unfold StoreDisk.made
  split
  · exact forall_mem_nil _
  · exact inside_singleton.mpr trivial

variable {slave : Slave}

theorem storeRequest_inside (h : Inside cwd monTopDir slave.events) {request : StoreRequest}
    (hpath : monTopDir.isPrefixOf request.path = true -> Below cwd monTopDir request.path) :
    Inside cwd monTopDir (storeRequest monTopDir slave request).events := by
  have hstep := storeRequest_step monTopDir slave request
  generalize storeRequest monTopDir slave request = next at hstep ⊢
  cases hstep with
  | refused _ | notNewer _ _ _ _ => exact inside_append.mpr ⟨h, inside_singleton.mpr trivial⟩
  | attempted hinside _ _ _ _ =>
    apply inside_append.mpr
    refine ⟨inside_append.mpr ⟨h, inside_made _ _⟩, inside_singleton.mpr ?_⟩
    exact fun _ => hpath hinside

theorem storeRequests_inside (h : Inside cwd monTopDir slave.events) {requests : List StoreRequest}
    (hpaths : forall path, path ∈ requests.map StoreRequest.path ->
      monTopDir.isPrefixOf path = true -> Below cwd monTopDir path) :
    Inside cwd monTopDir (run (storeRequest monTopDir) slave requests).events := by
  induction requests generalizing slave with
  | nil => exact h
  | cons request rest ih =>
    apply ih
    · exact storeRequest_inside h (hpaths request.path mem_cons_self)
    · exact fun path hpath => hpaths path (mem_cons_of_mem _ hpath)

theorem clearEntry_inside (h : Inside cwd monTopDir slave.events)
    (disk : ClearDisk) {tDir entry : Text} (hentry : PathText.EntryName entry)
    (hdir : Within cwd monTopDir tDir) :
    Inside cwd monTopDir (clearEntry disk tDir slave entry).events := by
  unfold clearEntry
  dsimp only
  split
  · apply inside_append.mpr
    refine ⟨h, inside_singleton.mpr fun _ => ?_⟩
    exact (PathText.below_join_iff hentry cwd monTopDir tDir).mpr hdir
  · exact h

theorem clearEntries_inside (h : Inside cwd monTopDir slave.events)
    (disk : ClearDisk) {tDir : Text} {entries : List Text}
    (hentries : forall entry, entry ∈ entries -> PathText.EntryName entry)
    (hdir : Within cwd monTopDir tDir) :
    Inside cwd monTopDir (entries.foldl (clearEntry disk tDir) slave).events := by
  induction entries generalizing slave with
  | nil => exact h
  | cons entry rest ih =>
    apply ih
    · exact clearEntry_inside h disk (hentries entry mem_cons_self) hdir
    · exact fun other hother => hentries other (mem_cons_of_mem _ hother)

theorem keeps_clearDir (disk : ClearDisk) {tDir : Text}
    (hdir : monTopDir.isPrefixOf tDir = true -> Within cwd monTopDir tDir) :
    Keeps (fun slave : Slave => Inside cwd monTopDir slave.events) (clearDir monTopDir disk tDir)
      (fun _ => True) := by
  unfold clearDir
  split
  · exact keeps_modify fun slave h => inside_append.mpr ⟨h, inside_singleton.mpr trivial⟩
  · next hinside =>
      split
      · apply keeps_bind (keeps_computed disk.listDir)
        intro entries hentries
        exact keeps_modify fun slave h => clearEntries_inside h disk (disk.names entries hentries)
          (hdir (eq_true_of_ne_false hinside))
      · exact keeps_pure trivial

theorem keeps_clearDirectories (disks : Text -> ClearDisk) {directories : List Text}
    (hdirs : forall directory, directory ∈ directories ->
      monTopDir.isPrefixOf directory = true -> Within cwd monTopDir directory) :
    Keeps (fun slave : Slave => Inside cwd monTopDir slave.events)
      (handleDirectClearDirectories monTopDir disks directories) (fun _ => True) := by
  induction directories with
  | nil => exact keeps_pure trivial
  | cons directory rest ih =>
    apply keeps_bind (keeps_clearDir (disks directory) (hdirs directory mem_cons_self))
    intro _ _
    exact ih fun other hother => hdirs other (mem_cons_of_mem _ hother)

theorem handleMessage_inside (h : Inside cwd monTopDir slave.events)
    (message : Message) (answers : Answers) (hpaths : PathsInside codecs cwd monTopDir message) :
    Inside cwd monTopDir (handleMessage codecs monTopDir slave (message, answers)).events := by
  cases message with
  | fileContentBulk srvCom =>
    show Inside cwd monTopDir
      (deliver codecs monTopDir slave ⟨answers.store, srvCom⟩).events
    rw [deliver_eq]
    apply storeRequests_inside h
    rw [requests_paths]
    exact hpaths
  | clearDirectories directories =>
    exact (keeps_clearDirectories answers.clear hpaths).after h

/-- Every path is a directory with one file. -/
def acceptingClear : ClearDisk where
  isDir := true
  listDir := .ok [['x']]
  names := by
    intro entries hentries entry hentry
    rw [← Except.ok.inj hentries] at hentry
    rw [mem_singleton.mp hentry]
    exact ⟨by decide, by decide, by decide, by decide⟩
  isFile := fun _ => true
  unlinkRaises := fun _ => false

def acceptingAnswers : Answers where
  store := fun _ => acceptingDisk
  clear := fun _ => acceptingClear

/-- A path that is recorded has been written. -/
def Known (slave : Slave) : Prop :=
  forall path info, slave.fileDict path = some info ->
    exists version content, .stored path version content .complete ∈ slave.events

theorem Known.note (h : Known slave) (event : Event) :
    Known (slave.note event) := by
  intro path info hinfo
  rcases h path info hinfo with ⟨version, content, hin⟩
  exact ⟨version, content, mem_append_left _ hin⟩

theorem storeRequest_written (monTopDir : Text) (h : Known slave)
    {request : StoreRequest} (hdisk : request.disk = acceptingDisk) :
    Known (storeRequest monTopDir slave request) ∧
      (monTopDir.isPrefixOf request.path = true -> exists version content,
        .stored request.path version content .complete ∈
          (storeRequest monTopDir slave request).events) := by
  have hcomplete : request.disk.outcome = .complete := by
    rw [hdisk]
    rfl
  have hstep := storeRequest_step monTopDir slave request
  generalize storeRequest monTopDir slave request = next at hstep ⊢
  cases hstep with
  | refused houtside =>
    refine ⟨h.note _, fun hinside => ?_⟩
    rw [houtside] at hinside
    cases hinside
  | notNewer _ info hinfo _ =>
    refine ⟨h.note _, fun _ => ?_⟩
    rcases h request.path info hinfo with ⟨version, content, hin⟩
    exact ⟨version, content, mem_append_left _ hin⟩
  | attempted _ _ info _ _ =>
    rw [hcomplete]
    have hstored : Event.stored request.path request.version request.content .complete ∈
        slave.events ++ request.disk.made request.path ++
          [.stored request.path request.version request.content .complete] :=
      mem_append_right _ (mem_singleton.mpr rfl)
    refine ⟨fun path other hother => ?_, fun _ => ⟨_, _, hstored⟩⟩
    by_cases hsame : path = request.path
    · rw [hsame]
      exact ⟨_, _, hstored⟩
    · dsimp only at hother
      rw [Function.update_of_ne hsame] at hother
      rcases h path other hother with ⟨version, content, hin⟩
      exact ⟨version, content, mem_append_left _ (mem_append_left _ hin)⟩

theorem storeRequests_written (monTopDir : Text) (h : Known slave)
    {requests : List StoreRequest} (hdisks : forall request, request ∈ requests -> request.disk = acceptingDisk) :
    Known (run (storeRequest monTopDir) slave requests) ∧
      forall path, path ∈ requests.map StoreRequest.path -> monTopDir.isPrefixOf path = true ->
        exists version content, .stored path version content .complete ∈
          (run (storeRequest monTopDir) slave requests).events := by
  induction requests generalizing slave with
  | nil =>
    refine ⟨h, fun path hpath => ?_⟩
    cases hpath
  | cons request rest ih =>
    rcases storeRequest_written monTopDir h (hdisks request mem_cons_self) with
      ⟨hknown, hfirst⟩
    rcases ih hknown fun other hother => hdisks other (mem_cons_of_mem _ hother) with
      ⟨hlater, hrest⟩
    refine ⟨hlater, fun path hpath hinside => ?_⟩
    rcases mem_cons.mp hpath with rfl | hin
    · rcases hfirst hinside with ⟨version, content, hstored⟩
      rcases run_events monTopDir rest (storeRequest monTopDir slave request) with
        ⟨later, hevents⟩
      refine ⟨version, content, ?_⟩
      rw [run_cons, hevents]
      exact mem_append_left _ hstored
    · exact hrest path hin hinside

def clearOne (monTopDir : Text) (slave : Slave) (directory : Text) : Slave :=
  if monTopDir.isPrefixOf directory = false then slave.note (.refused directory)
  else clearEntry acceptingClear directory slave ['x']

theorem clearDirectories_accepting (monTopDir : Text) (directories : List Text) (slave : Slave) :
    handleDirectClearDirectories monTopDir (fun _ => acceptingClear) directories slave =
      .ok ⟨⟩ (directories.foldl (clearOne monTopDir) slave) := by
  induction directories generalizing slave with
  | nil => rfl
  | cons directory rest ih =>
    have hclear : clearDir monTopDir acceptingClear directory slave =
        .ok ⟨⟩ (clearOne monTopDir slave directory) := by
      unfold clearDir clearOne
      rw [if_apply]
      split
      · rfl
      · rfl
    rw [handleDirectClearDirectories, bind_apply, hclear]
    exact ih _

theorem clearOne_known (monTopDir : Text) (h : Known slave) (directory : Text) :
    Known (clearOne monTopDir slave directory) := by
  unfold clearOne
  split
  · exact h.note _
  · have herased : Known { slave with
        fileDict := Function.update slave.fileDict (PathText.join directory ['x']) none } := by
      intro path info hinfo
      by_cases hsame : path = PathText.join directory ['x']
      · dsimp only at hinfo
        rw [hsame, Function.update_self] at hinfo
        cases hinfo
      · dsimp only at hinfo
        rw [Function.update_of_ne hsame] at hinfo
        exact h path info hinfo
    exact herased.note _

theorem clearOne_events (monTopDir : Text) (slave : Slave) (directory : Text) :
    exists later, (clearOne monTopDir slave directory).events = slave.events ++ later := by
  unfold clearOne
  split
  · exact ⟨_, rfl⟩
  · exact ⟨_, rfl⟩

theorem clearAll_events (monTopDir : Text) (directories : List Text) (slave : Slave) :
    exists later, (directories.foldl (clearOne monTopDir) slave).events =
      slave.events ++ later := by
  induction directories generalizing slave with
  | nil => exact ⟨[], (append_nil _).symm⟩
  | cons directory rest ih =>
    rcases clearOne_events monTopDir slave directory with ⟨first, hfirst⟩
    rcases ih (clearOne monTopDir slave directory) with ⟨later, hlater⟩
    rw [hfirst, append_assoc] at hlater
    exact ⟨first ++ later, hlater⟩

theorem clearAll_unlinks (monTopDir : Text) {directories : List Text} (slave : Slave)
    {directory : Text} (hdirectory : directory ∈ directories)
    (hinside : monTopDir.isPrefixOf directory = true) :
    .unlink (PathText.join directory ['x']) false ∈
      (directories.foldl (clearOne monTopDir) slave).events := by
  induction directories generalizing slave with
  | nil => cases hdirectory
  | cons first rest ih =>
    rcases mem_cons.mp hdirectory with rfl | hrest
    · rcases clearAll_events monTopDir rest (clearOne monTopDir slave directory) with
        ⟨later, hevents⟩
      have hfirst : (clearOne monTopDir slave directory).events =
          slave.events ++ [.unlink (PathText.join directory ['x']) false] := by
        unfold clearOne
        rw [if_neg (by rw [hinside]; exact Bool.noConfusion)]
        rfl
      rw [foldl_cons, hevents, hfirst]
      exact mem_append_left _ (mem_append_right _ (mem_singleton.mpr rfl))
    · exact ih (clearOne monTopDir slave first) hrest

theorem entryRequests_disk (disk : StoreDisk) (newVers : Int) (bulk : Content) (curOffset : Int)
    (entries : List FileElement) :
    forall request, request ∈ entryRequests (fun _ => disk) newVers bulk curOffset entries ->
      request.disk = disk := by
  induction entries generalizing curOffset with
  | nil =>
    intro request hrequest
    cases hrequest
  | cons entry rest ih =>
    unfold entryRequests
    cases toInt entry.size with
    | error raised =>
      intro request hrequest
      cases hrequest
    | ok size =>
      intro request hrequest
      rcases mem_cons.mp hrequest with rfl | hrest
      · rfl
      · exact ih (curOffset + size) request hrest

theorem requests_disk (codecs : Codecs) (disk : StoreDisk) (srvCom : BulkCommand) :
    forall request, request ∈ requests codecs ⟨fun _ => disk, srvCom⟩ -> request.disk = disk := by
  unfold requests
  dsimp only
  split
  · split
    · exact entryRequests_disk disk _ _ _ _
    · intro request hrequest
      cases hrequest
  · intro request hrequest
    cases hrequest

theorem handleMessage_clear (codecs : Codecs) (monTopDir : Text) (slave : Slave)
    (directories : List Text) :
    handleMessage codecs monTopDir slave (.clearDirectories directories, acceptingAnswers) =
      directories.foldl (clearOne monTopDir) slave := by
  show (handleDirectClearDirectories monTopDir (fun _ => acceptingClear) directories).after slave = _
  unfold Program.after
  rw [clearDirectories_accepting]

theorem handleMessage_bulk (codecs : Codecs) (monTopDir : Text) (slave : Slave)
    (srvCom : BulkCommand) :
    handleMessage codecs monTopDir slave (.fileContentBulk srvCom, acceptingAnswers) =
      run (storeRequest monTopDir) slave (requests codecs ⟨fun _ => acceptingDisk, srvCom⟩) :=
  deliver_eq codecs monTopDir slave ⟨fun _ => acceptingDisk, srvCom⟩

theorem handleMessage_known (codecs : Codecs) (monTopDir : Text) (h : Known slave)
    (message : Message) :
    Known (handleMessage codecs monTopDir slave (message, acceptingAnswers)) := by
  cases message with
  | fileContentBulk srvCom =>
    rw [handleMessage_bulk]
    exact (storeRequests_written monTopDir h (requests_disk codecs acceptingDisk srvCom)).left
  | clearDirectories directories =>
    rw [handleMessage_clear]
    induction directories generalizing slave with
    | nil => exact h
    | cons directory rest ih => exact ih (clearOne_known monTopDir h directory)

theorem handleMessage_events (codecs : Codecs) (monTopDir : Text) (slave : Slave)
    (message : Message) :
    exists later, (handleMessage codecs monTopDir slave (message, acceptingAnswers)).events =
      slave.events ++ later := by
  cases message with
  | fileContentBulk srvCom =>
    rw [handleMessage_bulk]
    exact run_events monTopDir _ slave
  | clearDirectories directories =>
    rw [handleMessage_clear]
    exact clearAll_events monTopDir directories slave

theorem handleMessage_outside (h : Known slave) {message : Message} (hinside : Inside cwd monTopDir
      (handleMessage codecs monTopDir slave (message, acceptingAnswers)).events) :
    PathsInside codecs cwd monTopDir message := by
  cases message with
  | fileContentBulk srvCom =>
    rw [handleMessage_bulk] at hinside
    intro path hpath hstarts
    rcases (storeRequests_written monTopDir h (requests_disk codecs acceptingDisk srvCom)).right
      path hpath hstarts with ⟨version, content, hstored⟩
    exact hinside _ hstored trivial
  | clearDirectories directories =>
    rw [handleMessage_clear] at hinside
    intro directory hdirectory hstarts
    have hbelow := hinside _ (clearAll_unlinks monTopDir slave hdirectory hstarts) rfl
    have hentry : PathText.EntryName ['x'] := acceptingClear.names _ rfl _ mem_cons_self
    exact (PathText.below_join_iff hentry cwd monTopDir directory).mp hbelow

theorem pathsInside_of_run (h : Known slave) (messages : List Message)
    (hinside : Inside cwd monTopDir (run (handleMessage codecs monTopDir) slave
      (messages.map fun message => (message, acceptingAnswers))).events) :
    Inside cwd monTopDir slave.events ∧
      forall message, message ∈ messages -> PathsInside codecs cwd monTopDir message := by
  induction messages generalizing slave with
  | nil =>
    refine ⟨hinside, fun message hmessage => ?_⟩
    cases hmessage
  | cons message rest ih =>
    rcases ih (handleMessage_known codecs monTopDir h message) hinside with ⟨hnext, hrest⟩
    have hfirst : Inside cwd monTopDir slave.events := by
      rcases handleMessage_events codecs monTopDir slave message with ⟨later, hevents⟩
      rw [hevents] at hnext
      exact (inside_append.mp hnext).left
    refine ⟨hfirst, fun other hother => ?_⟩
    rcases mem_cons.mp hother with rfl | hin
    · exact handleMessage_outside h hnext
    · exact hrest other hin

/-- The messages whose files stay inside, however the disk answers, are those whose paths do. -/
theorem staysInside_iff (codecs : Codecs) (cwd : List Text) (monTopDir : Text)
    (messages : List Message) :
    (forall handled : List (Message × Answers), handled.map Prod.fst = messages ->
        Inside cwd monTopDir (run (handleMessage codecs monTopDir) .new handled).events) <->
      forall message, message ∈ messages -> PathsInside codecs cwd monTopDir message := by
  constructor
  · intro hinside
    have hknown : Known .new := by
      intro path info hinfo
      cases hinfo
    refine (pathsInside_of_run hknown messages (hinside _ ?_)).right
    rw [map_map]
    exact map_id messages
  · rintro hpaths handled rfl
    have hstep : forall slave (message : Message × Answers),
        Inside cwd monTopDir slave.events -> PathsInside codecs cwd monTopDir message.1 ->
          Inside cwd monTopDir (handleMessage codecs monTopDir slave message).events :=
      fun slave message h hpath => handleMessage_inside h message.1 message.2 hpath
    have hall : forall (slave : Slave) (handled : List (Message × Answers)),
        Inside cwd monTopDir slave.events ->
          (forall message, message ∈ handled.map Prod.fst ->
            PathsInside codecs cwd monTopDir message) ->
          Inside cwd monTopDir (run (handleMessage codecs monTopDir) slave handled).events := by
      intro slave handled h hpaths
      induction handled generalizing slave with
      | nil => exact h
      | cons message rest ih =>
        apply ih
        · exact hstep slave message h (hpaths message.1 mem_cons_self)
        · exact fun other hother => hpaths other (mem_cons_of_mem _ hother)
    exact hall .new handled (forall_mem_nil _) hpaths

end Inside

theorem sample_length : 4 = sample.length := rfl

def outsideFiles : List SendFile :=
  [⟨0, 0, "/opt/cluster/icinga/../../../etc/cron.d/a".toList, sample, 4, sample_length⟩]

/-- A file is written above the base directory, and a file beside it is removed. -/
theorem outside_paths_followed :
    ¬ Inside [] "/opt/cluster/icinga".toList
        (run (handleMessage sampleCodecs "/opt/cluster/icinga".toList) .new
          [(.fileContentBulk (buildFileContent sampleCodecs 5 1500000000 outsideFiles),
            acceptingAnswers)]).events ∧
      ¬ Inside [] "/opt/cluster/icinga".toList
        (run (handleMessage sampleCodecs "/opt/cluster/icinga".toList) .new
          [(.clearDirectories ["/opt/cluster/icinga2/etc".toList], acceptingAnswers)]).events := by
  have hwritten : (run (handleMessage sampleCodecs "/opt/cluster/icinga".toList) .new
      [(.fileContentBulk (buildFileContent sampleCodecs 5 1500000000 outsideFiles),
        acceptingAnswers)]).events =
      [.stored "/opt/cluster/icinga/../../../etc/cron.d/a".toList 5 sample .complete] := rfl
  have hremoved : (run (handleMessage sampleCodecs "/opt/cluster/icinga".toList) .new
      [(.clearDirectories ["/opt/cluster/icinga2/etc".toList], acceptingAnswers)]).events =
      [.unlink "/opt/cluster/icinga2/etc/x".toList false] := rfl
  rw [hwritten, hremoved, inside_singleton, inside_singleton]
  constructor
  · intro h
    exact absurd (h trivial) (by decide)
  · intro h
    exact absurd (h rfl) (by decide)

end Received
end Icsw.MdSync
