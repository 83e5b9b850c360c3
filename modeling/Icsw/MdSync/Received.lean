import Icsw.Foundation.Decimal
import Icsw.Foundation.PathText
import Icsw.MdSync.Model

/-!
# Messages of the slave with any paths

The paths in the messages of a slave are texts that nobody has looked at before.  What the slave
does with them is written down as a list of events, and how the disk answers is left open for each
path of a message.
-/

namespace Icsw.MdSync
namespace Received

open Foundation
open PathText (dirname join)

/-- How far the attempt to store a file has come. -/
inductive Outcome where
  | noDirectory
  | notOpened
  | partly (left : Content)
  | complete
deriving DecidableEq

/-- What the disk answers when a file is stored. -/
structure StoreDisk where
  dirExists : Bool
  makedirsRaises : Bool
  /-- The answer to the second question for the directory. -/
  dirThere : Bool
  openRaises : Option Text
  /-- The text of the exception and what has been written before it. -/
  writeRaises : Option (Text × Content)

structure ClearDisk where
  isDir : Bool
  listDir : Except PyError (List Text)
  names : forall entries, listDir = .ok entries -> forall entry, entry ∈ entries ->
    PathText.EntryName entry
  isFile : Text -> Bool
  unlinkRaises : Text -> Bool

inductive Event where
  | refused (path : Text)
  | notNewer (path : Text) (version : Int)
  | makedirs (directory : Text) (raised : Bool)
  | stored (path : Text) (version : Int) (content : Content) (outcome : Outcome)
  | unlink (path : Text) (raised : Bool)
deriving DecidableEq

structure Slave where
  fileDict : Text -> Option FileInfo
  events : List Event

def Slave.setInfo (slave : Slave) (path : Text) (info : FileInfo) : Slave :=
  { slave with fileDict := Function.update slave.fileDict path (some info) }

def Slave.note (slave : Slave) (event : Event) : Slave :=
  { slave with events := slave.events ++ [event] }

/-- A slave that has just been started. -/
def Slave.new : Slave where
  fileDict := fun _ => none
  events := []

def checkVersion (slave : Slave) (key : Text) (newVers : Int) : Bool × FileInfo :=
  match slave.fileDict key with
  | some info => info.compare newVers
  | none => (true, FileInfo.new newVers)

variable (disk : StoreDisk)

/-- The file is written, with what is noted about it. -/
def writeFile (slave : Slave) (tFile : Text) (newVers : Int)
    (content : Content) (info : FileInfo) : Slave :=
  match disk.openRaises, disk.writeRaises with
  | some error, _ =>
    (slave.setInfo tFile (info.logError error)).note (.stored tFile newVers content .notOpened)
  | none, some (error, left) =>
    (slave.setInfo tFile (info.logError error)).note
      (.stored tFile newVers content (.partly left))
  | none, none =>
    (slave.setInfo tFile info.logSuccess).note (.stored tFile newVers content .complete)

def storeFile (monTopDir : Text) (disk : StoreDisk) (slave : Slave) (tFile : Text) (newVers : Int)
    (content : Content) : Slave :=
  if monTopDir.isPrefixOf tFile = false then slave.note (.refused tFile)
  else
    let renew := checkVersion slave tFile newVers
    let slave := slave.setInfo tFile renew.2
    if renew.1 = true then
      let slave :=
        if disk.dirExists = true then slave
        else slave.note (.makedirs (dirname tFile) disk.makedirsRaises)
      if disk.dirThere = true then writeFile disk slave tFile newVers content renew.2
      else slave.note (.stored tFile newVers content .noDirectory)
    else slave.note (.notNewer tFile newVers)

/-- The encodings of a bulk. -/
structure Codecs where
  compress : Content -> Content
  decompress : Content -> Except PyError Content
  b64encode : Content -> Text
  b64decode : Text -> Except PyError Content

structure FileElement where
  size : Text
  path : Text

structure BulkCommand where
  configVersionSend : Text
  sendTime : Text
  fileList : List FileElement
  bulk : Text

/-- What is known of a file that is sent. -/
structure SendFile where
  uid : Int
  gid : Int
  path : Text
  content : Content
  size : Nat
  sized : size = content.length

def buildFileContent (codecs : Codecs) (configVersionSend sendTime : Int)
    (sendList : List SendFile) : BulkCommand where
  configVersionSend := formatInt configVersionSend
  sendTime := formatInt sendTime
  fileList := sendList.map fun file => ⟨formatInt file.size, file.path⟩
  bulk := codecs.b64encode (codecs.compress (sendList.flatMap SendFile.content))

def toInt (text : Text) : Except PyError Int :=
  match parseInt text with
  | some value => .ok value
  | none => .error .valueError

def sliceIndex (length : Nat) (index : Int) : Nat :=
  if index < 0 then (index + length).toNat else min index.toNat length

/-- `data[start:stop]` -/
def slice (data : Content) (start stop : Int) : Content :=
  (data.take (sliceIndex data.length stop)).drop (sliceIndex data.length start)

def storeEntries (monTopDir : Text) (disks : Text -> StoreDisk) (newVers : Int) (bulk : Content) :
    Int -> List FileElement -> Program Slave PUnit
  | _, [] => pure ⟨⟩
  | curOffset, entry :: rest => do
      let size <- computed (toInt entry.size)
      modify fun slave => storeFile monTopDir (disks entry.path) slave entry.path newVers
        (slice bulk curOffset (curOffset + size))
      storeEntries monTopDir disks newVers bulk (curOffset + size) rest

def handleDirectFileContentBulk (codecs : Codecs) (monTopDir : Text) (disks : Text -> StoreDisk)
    (srvCom : BulkCommand) : Program Slave PUnit := do
  let newVers <- computed (toInt srvCom.configVersionSend)
  let zipped <- computed (codecs.b64decode srvCom.bulk)
  let bulk <- computed (codecs.decompress zipped)
  storeEntries monTopDir disks newVers bulk 0 srvCom.fileList

def clearEntry (disk : ClearDisk) (tDir : Text) (slave : Slave) (entry : Text) : Slave :=
  let fPath := join tDir entry
  let slave := { slave with fileDict := Function.update slave.fileDict fPath none }
  if disk.isFile fPath = true then slave.note (.unlink fPath (disk.unlinkRaises fPath)) else slave

def clearDir (monTopDir : Text) (disk : ClearDisk) (tDir : Text) : Program Slave PUnit := do
  if monTopDir.isPrefixOf tDir = false then modify fun slave => slave.note (.refused tDir)
  else if disk.isDir = true then do
    let entries <- computed disk.listDir
    modify fun slave => entries.foldl (clearEntry disk tDir) slave
  else pure ⟨⟩

def handleDirectClearDirectories (monTopDir : Text) (disks : Text -> ClearDisk) :
    List Text -> Program Slave PUnit
  | [] => pure ⟨⟩
  | dirName :: rest => do
      clearDir monTopDir (disks dirName) dirName
      handleDirectClearDirectories monTopDir disks rest

def StoreDisk.outcome : Outcome :=
  if disk.dirThere = true then
    match disk.openRaises, disk.writeRaises with
    | some _, _ => .notOpened
    | none, some (_, left) => .partly left
    | none, none => .complete
  else .noDirectory

def StoreDisk.made (tFile : Text) : List Event :=
  if disk.dirExists = true then [] else [.makedirs (dirname tFile) disk.makedirsRaises]

/-- The version is not the one that is recorded. -/
def Slave.NewFor (slave : Slave) (path : Text) (version : Int) : Prop :=
  forall info, slave.fileDict path = some info -> info.targetVersion ≠ version

variable {monTopDir : Text} {slave : Slave} {tFile : Text} {newVers : Int}

theorem storeFile_outside (content : Content) (h : monTopDir.isPrefixOf tFile = false) :
    storeFile monTopDir disk slave tFile newVers content = slave.note (.refused tFile) := if_pos h

theorem storeFile_notNewer (content : Content)
    (hinside : monTopDir.isPrefixOf tFile = true) {info : FileInfo}
    (hinfo : slave.fileDict tFile = some info) (hsame : info.targetVersion = newVers) :
    storeFile monTopDir disk slave tFile newVers content =
      slave.note (.notNewer tFile newVers) := by
  have hcheck : checkVersion slave tFile newVers = (false, info) := by
    unfold checkVersion
    rw [hinfo]
    exact if_pos hsame.symm
  have hset : slave.setInfo tFile info = slave := by
    unfold Slave.setInfo
    rw [← hinfo, Function.update_eq_self]
  unfold storeFile
  rw [if_neg (by rw [hinside]; exact Bool.noConfusion), hcheck]
  dsimp only
  rw [hset]
  rfl

theorem checkVersion_new (hnew : slave.NewFor tFile newVers) :
    exists info, checkVersion slave tFile newVers = (true, info) ∧
      info.targetVersion = newVers ∧ info.created = false := by
  unfold checkVersion
  cases hinfo : slave.fileDict tFile with
  | none => exact ⟨_, rfl, rfl, rfl⟩
  | some info =>
    have hne : ¬ newVers = info.targetVersion := fun hsame => hnew info hinfo hsame.symm
    exact ⟨_, if_neg hne, rfl, rfl⟩

theorem storeFile_attempted (content : Content)
    (hinside : monTopDir.isPrefixOf tFile = true) (hnew : slave.NewFor tFile newVers) :
    exists info, storeFile monTopDir disk slave tFile newVers content =
        { fileDict := Function.update slave.fileDict tFile (some info)
          events := slave.events ++ disk.made tFile ++
            [.stored tFile newVers content disk.outcome] } ∧
      info.targetVersion = newVers ∧ (info.created = true <-> disk.outcome = .complete) := by
  rcases checkVersion_new hnew with ⟨info, hcheck, hversion, hcreated⟩
  have hnot : ¬ monTopDir.isPrefixOf tFile = false := by
    rw [hinside]
    exact Bool.noConfusion
  unfold storeFile
  rw [if_neg hnot, hcheck]
  dsimp only
  rw [if_pos rfl]
  have hmade : (if disk.dirExists = true then slave.setInfo tFile info
      else (slave.setInfo tFile info).note (.makedirs (dirname tFile) disk.makedirsRaises)) =
        { fileDict := Function.update slave.fileDict tFile (some info)
          events := slave.events ++ disk.made tFile } := by
    unfold StoreDisk.made
    split
    · rw [List.append_nil]
      rfl
    · rfl
  rw [hmade]
  unfold StoreDisk.outcome
  split
  · unfold writeFile
    split
    · next _ error hopen =>
        refine ⟨info.logError error, ?_, hversion, ?_⟩
        · simp only [Slave.setInfo, Slave.note, Function.update_idem]
        · simp [FileInfo.logError]
    · next error left hopen hwrite =>
        refine ⟨info.logError error, ?_, hversion, ?_⟩
        · simp only [Slave.setInfo, Slave.note, Function.update_idem]
        · simp [FileInfo.logError]
    · next hopen hwrite =>
        refine ⟨info.logSuccess, ?_, hversion, ?_⟩
        · simp only [Slave.setInfo, Slave.note, Function.update_idem]
        · simp [FileInfo.logSuccess]
  · refine ⟨info, rfl, hversion, ?_⟩
    simp [hcreated]

/-- All that storing a file can do. -/
inductive StoreStep (monTopDir : Text) (disk : StoreDisk) (slave : Slave) (tFile : Text)
    (newVers : Int) (content : Content) : Slave -> Prop
  | refused (houtside : monTopDir.isPrefixOf tFile = false) :
      StoreStep monTopDir disk slave tFile newVers content (slave.note (.refused tFile))
  | notNewer (hinside : monTopDir.isPrefixOf tFile = true) (info : FileInfo)
      (hinfo : slave.fileDict tFile = some info) (hsame : info.targetVersion = newVers) :
      StoreStep monTopDir disk slave tFile newVers content (slave.note (.notNewer tFile newVers))
  | attempted (hinside : monTopDir.isPrefixOf tFile = true) (hnew : slave.NewFor tFile newVers)
      (info : FileInfo) (hversion : info.targetVersion = newVers)
      (hcreated : info.created = true <-> disk.outcome = .complete) :
      StoreStep monTopDir disk slave tFile newVers content
        { fileDict := Function.update slave.fileDict tFile (some info)
          events := slave.events ++ disk.made tFile ++
            [.stored tFile newVers content disk.outcome] }

theorem storeFile_step (monTopDir : Text) (disk : StoreDisk) (slave : Slave) (tFile : Text)
    (newVers : Int) (content : Content) :
    StoreStep monTopDir disk slave tFile newVers content
      (storeFile monTopDir disk slave tFile newVers content) := by
  cases hinside : monTopDir.isPrefixOf tFile with
  | false =>
    rw [storeFile_outside disk content hinside]
    exact .refused hinside
  | true =>
    by_cases hnew : slave.NewFor tFile newVers
    · rcases storeFile_attempted disk content hinside hnew with
        ⟨info, hstored, hversion, hcreated⟩
      rw [hstored]
      exact .attempted hinside hnew info hversion hcreated
    · unfold Slave.NewFor at hnew
      push Not at hnew
      rcases hnew with ⟨info, hinfo, hsame⟩
      rw [storeFile_notNewer disk content hinside hinfo hsame]
      exact .notNewer hinside info hinfo hsame

end Received
end Icsw.MdSync
