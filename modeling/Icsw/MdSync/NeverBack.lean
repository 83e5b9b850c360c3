import Icsw.MdSync.BulkTransfer

/-!
# Versions of the files of a slave

A file is written if the version of the message is not the one that is recorded for its path: also
an older one, and the recorded one is refused, also when its attempt has failed.
-/

namespace Icsw.MdSync
namespace Received

open Foundation List

/-- The file is changed, to its end or not. -/
def Outcome.Touches : Outcome -> Prop
  | .partly _ => True
  | .complete => True
  | .noDirectory => False
  | .notOpened => False

def attemptOf (path : Text) : Event -> Option (Int × Outcome)
  | .stored other version _ outcome => if other = path then some (version, outcome) else none
  | _ => none

def lastAttempt (events : List Event) (path : Text) : Option (Int × Outcome) :=
  (events.filterMap (attemptOf path)).getLast?

section Place

variable {π : Type} [DecidableEq π]

variable (place : Text -> π)

def storedOf (file : π) : Event -> Option Int
  | .stored path version _ .complete => if place path = file then some version else none
  | _ => none

def storedVersion (events : List Event) (file : π) : Option Int :=
  (events.filterMap (storedOf place file)).getLast?

/-- A file is changed by a later version than the one it holds, and a version is refused only
after it has been stored. -/
def Forward (before : List Event) : Event -> Prop
  | .stored path version _ outcome => outcome.Touches ->
      forall stored, storedVersion place before (place path) = some stored -> stored < version
  | .notNewer path version =>
    forall outcome, lastAttempt before path = some (version, outcome) -> outcome = .complete
  | _ => True

/-- No file goes back, and what failed can be repeated. -/
def NeverBack (events : List Event) : Prop :=
  forall before event after, events = before ++ event :: after -> Forward place before event

/-- One call of `_store_file`. -/
structure StoreRequest where
  disk : StoreDisk
  path : Text
  version : Int
  content : Content

def storeRequest (monTopDir : Text) (slave : Slave) (request : StoreRequest) : Slave :=
  storeFile monTopDir request.disk slave request.path request.version request.content

theorem storeRequest_step (monTopDir : Text) (slave : Slave) (request : StoreRequest) :
    StoreStep monTopDir request.disk slave request.path request.version request.content
      (storeRequest monTopDir slave request) :=
  storeFile_step monTopDir request.disk slave request.path request.version request.content

/-- A message with the disk as it is found when the message is handled. -/
structure Delivery where
  disks : Text -> StoreDisk
  srvCom : BulkCommand

def deliver (codecs : Codecs) (monTopDir : Text) (slave : Slave) (delivery : Delivery) : Slave :=
  (handleDirectFileContentBulk codecs monTopDir delivery.disks delivery.srvCom).after slave

/-- The files up to the first size that is no number. -/
def entryRequests (disks : Text -> StoreDisk) (newVers : Int) (bulk : Content) :
    Int -> List FileElement -> List StoreRequest
  | _, [] => []
  | curOffset, entry :: rest =>
    match toInt entry.size with
    | .error _ => []
    | .ok size =>
      { disk := disks entry.path
        path := entry.path
        version := newVers
        content := slice bulk curOffset (curOffset + size) } ::
        entryRequests disks newVers bulk (curOffset + size) rest

/-- The files of a message that can be decoded. -/
def requests (codecs : Codecs) (delivery : Delivery) : List StoreRequest :=
  match toInt delivery.srvCom.configVersionSend, codecs.b64decode delivery.srvCom.bulk with
  | .ok newVers, .ok zipped =>
    match codecs.decompress zipped with
    | .ok bulk => entryRequests delivery.disks newVers bulk 0 delivery.srvCom.fileList
    | .error _ => []
  | _, _ => []

/-- The recorded version has been stored, and another version that gets to be written is later
than the one the file holds. -/
def VersionFits (monTopDir : Text) (slave : Slave) (request : StoreRequest) : Prop :=
  monTopDir.isPrefixOf request.path = true ->
    (forall info, slave.fileDict request.path = some info ->
      info.targetVersion = request.version -> info.created = true) ∧
    (slave.NewFor request.path request.version -> request.disk.outcome.Touches ->
      forall stored, storedVersion place slave.events (place request.path) = some stored ->
        stored < request.version)

def DeliveryFits (codecs : Codecs) (monTopDir : Text) (slave : Slave)
    (delivery : Delivery) : Prop :=
  Along (storeRequest monTopDir) (VersionFits place monTopDir) slave (requests codecs delivery)

end Place

theorem storeEntries_after (monTopDir : Text) (disks : Text -> StoreDisk) (newVers : Int)
    (bulk : Content) (curOffset : Int) (entries : List FileElement) (slave : Slave) :
    (storeEntries monTopDir disks newVers bulk curOffset entries).after slave =
      run (storeRequest monTopDir) slave (entryRequests disks newVers bulk curOffset entries) := by
  induction entries generalizing curOffset slave with
  | nil => rfl
  | cons entry rest ih =>
    unfold entryRequests
    cases hsize : toInt entry.size with
    | error raised =>
      unfold storeEntries Program.after
      rw [hsize]
      rfl
    | ok size =>
      have hnext := ih (curOffset + size) (storeFile monTopDir (disks entry.path) slave entry.path
        newVers (slice bulk curOffset (curOffset + size)))
      unfold storeEntries Program.after
      rw [hsize]
      exact hnext

theorem deliver_eq (codecs : Codecs) (monTopDir : Text) (slave : Slave) (delivery : Delivery) :
    deliver codecs monTopDir slave delivery =
      run (storeRequest monTopDir) slave (requests codecs delivery) := by
  unfold deliver handleDirectFileContentBulk requests
  cases hversion : toInt delivery.srvCom.configVersionSend with
  | error raised => rfl
  | ok newVers =>
    cases hbase64 : codecs.b64decode delivery.srvCom.bulk with
    | error raised => rfl
    | ok zipped =>
      dsimp only
      cases hbz2 : codecs.decompress zipped with
      | error raised =>
        show (computed (codecs.decompress zipped) >>= _).after slave = _
        rw [hbz2]
        rfl
      | ok bulk =>
        show (computed (codecs.decompress zipped) >>= _).after slave = _
        rw [hbz2]
        exact storeEntries_after monTopDir delivery.disks newVers bulk 0 _ slave

/-- A record says which version has been attempted last, and whether it has been stored. -/
def Recorded (slave : Slave) : Prop :=
  forall path, (slave.fileDict path).map (fun info => (info.targetVersion, info.created)) =
    (lastAttempt slave.events path).map fun attempt =>
      (attempt.1, decide (attempt.2 = .complete))

theorem filterMap_made {α : Type} (f : Event -> Option α) (disk : StoreDisk) (tFile : Text)
    (hmakedirs : forall directory raised, f (.makedirs directory raised) = none) :
    (disk.made tFile).filterMap f = [] := by
  unfold StoreDisk.made
  split
  · rfl
  · exact filterMap_cons_none (hmakedirs _ _)

section Place

variable {π : Type} [DecidableEq π] {place : Text -> π} {monTopDir : Text}

variable {events later : List Event}

theorem lastAttempt_of_none {path : Text} (h : later.filterMap (attemptOf path) = []) :
    lastAttempt (events ++ later) path = lastAttempt events path := by
  unfold lastAttempt
  rw [filterMap_append, h, append_nil]

theorem lastAttempt_stored (events : List Event) (path other : Text) (version : Int)
    (content : Content) (outcome : Outcome) :
    lastAttempt (events ++ [.stored other version content outcome]) path =
      if other = path then some (version, outcome) else lastAttempt events path := by
  unfold lastAttempt
  rw [filterMap_append]
  split
  · next hsame =>
      have hlast : [Event.stored other version content outcome].filterMap (attemptOf path) =
          [(version, outcome)] := filterMap_cons_some (if_pos hsame)
      rw [hlast, getLast?_concat]
  · next hother =>
      have hlast : [Event.stored other version content outcome].filterMap (attemptOf path) = [] :=
        filterMap_cons_none (if_neg hother)
      rw [hlast, append_nil]

theorem storedVersion_of_none {file : π} (h : later.filterMap (storedOf place file) = []) :
    storedVersion place (events ++ later) file = storedVersion place events file := by
  unfold storedVersion
  rw [filterMap_append, h, append_nil]

variable {slave : Slave}

theorem recorded_step (monTopDir : Text) (h : Recorded slave) (request : StoreRequest) :
    Recorded (storeRequest monTopDir slave request) := by
  have hstep := storeRequest_step monTopDir slave request
  generalize storeRequest monTopDir slave request = next at hstep ⊢
  cases hstep with
  | refused _ | notNewer _ _ _ _ =>
    intro path
    exact (h path).trans (congrArg _ (lastAttempt_of_none rfl).symm)
  | attempted _ _ info hversion hcreated =>
    intro path
    dsimp only
    rw [lastAttempt_stored, lastAttempt_of_none (filterMap_made _ _ _ fun _ _ => rfl)]
    by_cases hsame : request.path = path
    · rw [if_pos hsame, ← hsame, Function.update_self, Option.map_some, Option.map_some, hversion]
      congr 2
      exact Bool.eq_iff_iff.mpr (hcreated.trans decide_eq_true_iff.symm)
    · rw [if_neg hsame, Function.update_of_ne (fun heq => hsame heq.symm)]
      exact h path

theorem recorded_new : Recorded .new := fun _ => rfl

theorem Recorded.created_iff (h : Recorded slave) {path : Text} {info : FileInfo}
    (hinfo : slave.fileDict path = some info) :
    exists outcome, lastAttempt slave.events path = some (info.targetVersion, outcome) ∧
      (info.created = true <-> outcome = .complete) := by
  have hpath := h path
  rw [hinfo] at hpath
  cases hlast : lastAttempt slave.events path with
  | none =>
    rw [hlast] at hpath
    cases hpath
  | some attempt =>
    rw [hlast] at hpath
    have hpair := Option.some.inj hpath
    have hversion : info.targetVersion = attempt.1 := congrArg Prod.fst hpair
    have hcreated : info.created = decide (attempt.2 = .complete) := congrArg Prod.snd hpair
    refine ⟨attempt.2, ?_, ?_⟩
    · rw [hversion]
    · rw [hcreated, decide_eq_true_iff]

theorem NeverBack.of_append (h : NeverBack place (events ++ later)) :
    NeverBack place events := by
  intro before event after hevents
  apply h before event (after ++ later)
  rw [hevents, append_assoc, cons_append]

theorem neverBack_concat {events : List Event} {event : Event} :
    NeverBack place (events ++ [event]) <-> NeverBack place events ∧ Forward place events event := by
  constructor
  · intro h
    exact ⟨h.of_append, h events event [] rfl⟩
  · rintro ⟨hevents, hforward⟩ before other after hsplit
    rcases eq_nil_or_concat after with rfl | ⟨front, last, rfl⟩
    · rcases append_inj' hsplit rfl with ⟨hbefore, hlast⟩
      rw [← hbefore, ← (cons.inj hlast).left]
      exact hforward
    · apply hevents before other front
      rw [concat_eq_append, ← cons_append, ← append_assoc] at hsplit
      exact (append_inj' hsplit rfl).left

theorem neverBack_made {events : List Event} (disk : StoreDisk) (tFile : Text) :
    NeverBack place (events ++ disk.made tFile) <-> NeverBack place events := by
  unfold StoreDisk.made
  split
  · rw [append_nil]
  · rw [neverBack_concat]
    exact and_iff_left trivial

theorem neverBack_step (hrecorded : Recorded slave) (request : StoreRequest) :
    NeverBack place (storeRequest monTopDir slave request).events <->
      NeverBack place slave.events ∧ VersionFits place monTopDir slave request := by
  have hstep := storeRequest_step monTopDir slave request
  unfold VersionFits
  generalize storeRequest monTopDir slave request = next at hstep ⊢
  cases hstep with
  | refused houtside =>
    rw [houtside]
    show NeverBack place (slave.events ++ [_]) <-> _
    rw [neverBack_concat]
    exact and_congr_right fun _ => ⟨fun _ h => (Bool.noConfusion h), fun _ => trivial⟩
  | notNewer hinside info hinfo hsame =>
    show NeverBack place (slave.events ++ [_]) <-> _
    rw [neverBack_concat]
    apply and_congr_right
    intro _
    rcases hrecorded.created_iff hinfo with ⟨outcome, hlast, hcreated⟩
    rw [hsame] at hlast
    constructor
    · intro hforward _
      refine ⟨fun other hother _ => ?_, fun hnew => absurd hsame (hnew info hinfo)⟩
      rw [← Option.some.inj (hinfo.symm.trans hother)]
      exact hcreated.mpr (hforward outcome hlast)
    · intro hfits other hother
      have hsameOutcome : outcome = other :=
        congrArg Prod.snd (Option.some.inj (hlast.symm.trans hother))
      rw [← hsameOutcome]
      exact hcreated.mp ((hfits hinside).left info hinfo hsame)
  | attempted hinside hnew info hversion hcreated =>
    dsimp only
    rw [neverBack_concat, neverBack_made]
    apply and_congr_right
    intro _
    have hmade : storedVersion place (slave.events ++ request.disk.made request.path)
        (place request.path) = storedVersion place slave.events (place request.path) :=
      storedVersion_of_none (filterMap_made _ _ _ fun _ _ => rfl)
    show (request.disk.outcome.Touches -> forall stored, storedVersion place _ _ = some stored ->
      stored < request.version) <-> _
    rw [hmade]
    constructor
    · intro hlater _
      exact ⟨fun other hother hsame => absurd hsame (hnew other hother), fun _ => hlater⟩
    · intro hfits
      exact (hfits hinside).right hnew

theorem storeRequest_events (monTopDir : Text) (slave : Slave) (request : StoreRequest) :
    exists later, (storeRequest monTopDir slave request).events = slave.events ++ later := by
  have hstep := storeRequest_step monTopDir slave request
  generalize storeRequest monTopDir slave request = next at hstep ⊢
  cases hstep with
  | refused _ => exact ⟨_, rfl⟩
  | notNewer _ _ _ _ => exact ⟨_, rfl⟩
  | attempted _ _ _ _ _ => exact ⟨_, append_assoc _ _ _⟩

theorem run_events (monTopDir : Text) (requests : List StoreRequest) (slave : Slave) :
    exists later, (run (storeRequest monTopDir) slave requests).events = slave.events ++ later := by
  induction requests generalizing slave with
  | nil => exact ⟨[], (append_nil _).symm⟩
  | cons request rest ih =>
    rcases storeRequest_events monTopDir slave request with ⟨first, hfirst⟩
    rcases ih (storeRequest monTopDir slave request) with ⟨later, hlater⟩
    rw [hfirst, append_assoc] at hlater
    exact ⟨first ++ later, hlater⟩

theorem neverBack_run (hrecorded : Recorded slave)
    (hback : NeverBack place slave.events) (requests : List StoreRequest) :
    NeverBack place (run (storeRequest monTopDir) slave requests).events <->
      Along (storeRequest monTopDir) (VersionFits place monTopDir) slave requests := by
  induction requests generalizing slave with
  | nil => exact ⟨fun _ => trivial, fun _ => hback⟩
  | cons request rest ih =>
    have hnext := recorded_step monTopDir hrecorded request
    constructor
    · intro h
      rcases run_events monTopDir rest (storeRequest monTopDir slave request) with
        ⟨later, hlater⟩
      rw [run_cons, hlater] at h
      have hfirst := h.of_append
      rw [← hlater] at h
      exact ⟨((neverBack_step hrecorded request).mp hfirst).right, (ih hnext hfirst).mp h⟩
    · rintro ⟨hfits, hrest⟩
      exact (ih hnext ((neverBack_step hrecorded request).mpr ⟨hback, hfits⟩)).mpr hrest

theorem recorded_run (monTopDir : Text) (h : Recorded slave)
    (requests : List StoreRequest) : Recorded (run (storeRequest monTopDir) slave requests) := by
  have hstep : forall slave request, Recorded slave -> Recorded (storeRequest monTopDir slave request) :=
    fun _ request h => recorded_step monTopDir h request
  exact invariant_of_step _ hstep h requests

/-- The records and the files as they are asked for. -/
structure Kept (place : Text -> π) (slave : Slave) : Prop where
  recorded : Recorded slave
  back : NeverBack place slave.events

theorem deliver_kept (codecs : Codecs) (monTopDir : Text) (slave : Slave) (delivery : Delivery)
    (h : Kept place slave) (hfits : DeliveryFits place codecs monTopDir slave delivery) :
    Kept place (deliver codecs monTopDir slave delivery) := by
  rw [deliver_eq]
  exact ⟨recorded_run monTopDir h.recorded _, (neverBack_run h.recorded h.back _).mpr hfits⟩

theorem deliver_not_neverBack (codecs : Codecs) (monTopDir : Text) (slave : Slave)
    (delivery : Delivery) (h : Kept place slave)
    (hnot : ¬ DeliveryFits place codecs monTopDir slave delivery) :
    ¬ NeverBack place (deliver codecs monTopDir slave delivery).events := by
  rw [deliver_eq, neverBack_run h.recorded h.back]
  exact hnot

theorem neverBack_new : NeverBack place Slave.new.events := by
  intro before event after hevents
  exact absurd hevents (append_ne_nil_of_right_ne_nil _ (cons_ne_nil _ _)).symm

/-- No file goes back in the runs whose messages bring later versions, or stored ones again. -/
theorem neverBack_iff (codecs : Codecs) (monTopDir : Text) (place : Text -> π)
    (deliveries : List Delivery) :
    (forall taken rest, deliveries = taken ++ rest ->
        NeverBack place (run (deliver codecs monTopDir) .new taken).events) <->
      Along (deliver codecs monTopDir) (DeliveryFits place codecs monTopDir) .new deliveries :=
  reached_iff_along (deliver codecs monTopDir) (deliver_kept codecs monTopDir)
    (fun _ h => h.back) (deliver_not_neverBack codecs monTopDir) ⟨recorded_new, neverBack_new⟩
    deliveries

end Place

def sampleDelivery (version : Int) (disk : StoreDisk) : Delivery where
  disks := fun _ => disk
  srvCom := buildFileContent sampleCodecs version 1500000000 sampleFiles

def fullDisk : StoreDisk := { acceptingDisk with openRaises := some "No space left".toList }

/-- A delayed message replaces the files of a later one, and a failed one is refused again. -/
theorem sampleFiles_go_back :
    ¬ NeverBack id (run (deliver sampleCodecs "/opt/cluster/icinga".toList) .new
        [sampleDelivery 5 acceptingDisk, sampleDelivery 3 acceptingDisk]).events ∧
      ¬ NeverBack id (run (deliver sampleCodecs "/opt/cluster/icinga".toList) .new
        [sampleDelivery 5 fullDisk, sampleDelivery 5 acceptingDisk]).events := by
  have hlate : (run (deliver sampleCodecs "/opt/cluster/icinga".toList) .new
      [sampleDelivery 5 acceptingDisk, sampleDelivery 3 acceptingDisk]).events =
        [.stored "/opt/cluster/icinga/etc/a.cfg".toList 5 sample .complete,
          .stored "/opt/cluster/icinga/etc/b.cfg".toList 5 [] .complete] ++
        .stored "/opt/cluster/icinga/etc/a.cfg".toList 3 sample .complete ::
        [.stored "/opt/cluster/icinga/etc/b.cfg".toList 3 [] .complete] := rfl
  have hfull : (run (deliver sampleCodecs "/opt/cluster/icinga".toList) .new
      [sampleDelivery 5 fullDisk, sampleDelivery 5 acceptingDisk]).events =
        [.stored "/opt/cluster/icinga/etc/a.cfg".toList 5 sample .notOpened,
          .stored "/opt/cluster/icinga/etc/b.cfg".toList 5 [] .notOpened] ++
        .notNewer "/opt/cluster/icinga/etc/a.cfg".toList 5 ::
        [.notNewer "/opt/cluster/icinga/etc/b.cfg".toList 5] := rfl
  constructor
  · intro h
    exact absurd (h _ _ _ hlate trivial 5 rfl) (by decide)
  · intro h
    cases h _ _ _ hfull .notOpened rfl

end Received
end Icsw.MdSync
