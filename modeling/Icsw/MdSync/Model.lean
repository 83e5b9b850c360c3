import Icsw.Foundation.Program
import Icsw.Foundation.Run
import Mathlib.Algebra.GroupWithZero.Nat

/-!
# Distribution of the monitoring configuration

A distribution master sends the files below its etc directory to a slave: first the directories to
clear, then all files in one message.  The slave reports the state of its files, and the master
counts a file as created when a report names its version.  Messages are delivered in order in each
direction, and may be delayed.
-/

namespace Icsw.MdSync

open Foundation

abbrev Content := List UInt8

/-- A file below the etc directory: the directory relative to it and the name. -/
structure Path where
  rel : Text
  name : Text
deriving DecidableEq

def Path.text (etc : Text) (path : Path) : Text :=
  if path.rel = [] then etc ++ '/' :: path.name
  else etc ++ '/' :: path.rel ++ '/' :: path.name

def directoryText (etc rel : Text) : Text := etc ++ '/' :: rel

structure FileInfo where
  targetVersion : Int
  created : Bool
  error : Text
deriving DecidableEq

namespace FileInfo

def new (targetVersion : Int) : FileInfo :=
  { targetVersion := targetVersion, created := false, error := [] }

variable (info : FileInfo)

def compare (newVersion : Int) : Bool × FileInfo :=
  if newVersion = info.targetVersion then (false, info)
  else (true, { info with targetVersion := newVersion, created := false })

def logError (error : Text) : FileInfo :=
  { info with created := false, error := error }

def logSuccess : FileInfo := { info with created := true }

/-- What a report of the slave says about the file. -/
def storeResult (info remote : FileInfo) : FileInfo :=
  { info with
    created := if remote.targetVersion ≠ info.targetVersion then false else remote.created }

def isPending : Bool := !info.created && info.error.isEmpty

def isError : Bool := !info.error.isEmpty

end FileInfo

/-- What a slave reports about its files. -/
abbrev StoreInfo := Path -> Option FileInfo

inductive Command where
  | clearDirectories (rels : List Text)
  | fileContentBulk (version : Int) (fileList : List (Path × Nat)) (bulk : Content)

/-- The paths of the master and the slave: the etc directory, MD_BASEDIR of the slave. -/
structure Setup where
  etc : Text
  monTopDir : Text

structure Slave where
  fileDict : StoreInfo
  files : Path -> Option Content
  directories : Text -> Bool
  registeredAtMaster : Bool

/-- How the operations on the disk of the slave turn out. -/
structure Disk where
  unlinkFails : Path -> Bool
  makedirsFails : Text -> Bool
  /-- The text of the exception and what is left of the file, if writing it fails. -/
  writeFails : Path -> Option (Text × Option Content)

variable (setup : Setup)

/-- The test of the slave that a path lies in its base directory. -/
def Setup.inside (text : Text) : Bool := setup.monTopDir.isPrefixOf text

/-- The entries of a directory are forgotten and removed as far as possible. -/
def clearDir (disk : Disk) (slave : Slave) (rel : Text) : Slave :=
  if setup.inside (directoryText setup.etc rel) && slave.directories rel then
    { slave with
      fileDict := fun path =>
        if path.rel = rel ∧ (slave.files path).isSome then none else slave.fileDict path
      files := fun path =>
        if path.rel = rel ∧ disk.unlinkFails path = false then none else slave.files path }
  else slave

def checkVersion (slave : Slave) (path : Path) (newVersion : Int) : Bool × FileInfo :=
  match slave.fileDict path with
  | some info => info.compare newVersion
  | none => (true, FileInfo.new newVersion)

def Slave.setInfo (slave : Slave) (path : Path) (info : FileInfo) : Slave :=
  { slave with fileDict := Function.update slave.fileDict path (some info) }

def makedirs (directories : Text -> Bool) (rel : Text) : Text -> Bool :=
  fun other => directories other || other == rel || other.isEmpty ||
    (other ++ ['/']).isPrefixOf rel

def storeFile (disk : Disk) (version : Int) (slave : Slave) (file : Path × Content) : Slave :=
  let path := file.1
  if setup.inside (path.text setup.etc) then
    match checkVersion slave path version with
    | (false, info) => slave.setInfo path info
    | (true, info) =>
      let slave := slave.setInfo path info
      let slave :=
        if slave.directories path.rel || disk.makedirsFails path.rel then slave
        else { slave with directories := makedirs slave.directories path.rel }
      if slave.directories path.rel then
        match disk.writeFails path with
        | some (error, left) =>
          { slave.setInfo path (info.logError error) with
            files := Function.update slave.files path left }
        | none =>
          { slave.setInfo path info.logSuccess with
            files := Function.update slave.files path (some file.2) }
      else slave
  else slave

def splitBulk : List (Path × Nat) -> Content -> List (Path × Content)
  | [], _ => []
  | (path, size) :: rest, bulk => (path, bulk.take size) :: splitBulk rest (bulk.drop size)

def handleDirect (disk : Disk) (slave : Slave) : Command -> Slave
  | .clearDirectories rels => rels.foldl (clearDir setup disk) slave
  | .fileContentBulk version fileList bulk =>
    (splitBulk fileList bulk).foldl (storeFile setup disk version) slave

structure Tree where
  directories : List (Text × List (Text × Content))
  nodup_rels : (directories.map Prod.fst).Nodup
  nodup_names : forall directory, directory ∈ directories ->
    (directory.2.map Prod.fst).Nodup

def Tree.files (tree : Tree) : List (Path × Content) :=
  tree.directories.flatMap (fun directory =>
    directory.2.map (fun file => ({ rel := directory.1, name := file.1 }, file.2)))

inductive ConfigMessage where
  | syncStart (numFiles sizeData : Nat)
  | syncEnd
deriving DecidableEq

structure Master where
  slaveIp : Bool
  configVersionBuild : Int
  configVersionSend : Int
  configVersionInstalled : Int
  /-- Start of the last send, in seconds. -/
  sendTime : Int
  distOk : Bool
  numSend : Int -> Option Int
  fileDict : List (Path × FileInfo)
  toSlave : List Command
  toConfigServer : List ConfigMessage
  /-- The files of the latest send; the source does not keep them. -/
  iteration : List (Path × Content)

def maxSendSize : Nat := 65536

/--
The files that are entered before the commands are complete.  The size of what is in the list is
never added up, and a file over the limit raises.
-/
def entered : List (Path × Content) -> List (Path × Content)
  | [] => []
  | file :: rest => if file.2.length > maxSendSize then [file] else file :: entered rest

def buildFileContent (version : Int) (sendList : List (Path × Content)) : Command :=
  .fileContentBulk version (sendList.map (fun file => (file.1, file.2.length)))
    (sendList.flatMap Prod.snd)

def getSendCommands (tree : Tree) : Program Master (List Command × Nat × Nat) := do
  let self : Master <- get
  let clear :=
    if tree.directories = [] then []
    else [Command.clearDirectories (tree.directories.map Prod.fst)]
  set ({ self with
    fileDict := (entered tree.files).map
      (fun file => (file.1, FileInfo.new self.configVersionSend)) } : Master)
  if tree.files.any (fun file => file.2.length > maxSendSize) then throw .attributeError
  let bulk :=
    if tree.files = [] then []
    else [buildFileContent self.configVersionSend tree.files]
  pure (clear ++ bulk, tree.files.length, (tree.files.map (fun file => file.2.length)).sum)

def showPendingInfo (now : Int) : Program Master PUnit := do
  let self : Master <- get
  let pendKeys := self.fileDict.filter (fun entry => entry.2.isPending)
  let errorKeys := self.fileDict.filter (fun entry => entry.2.isError)
  if pendKeys.isEmpty && errorKeys.isEmpty then
    let _ <- lookupKey self.numSend self.configVersionSend
    -- The rate in the log line is divided by the time since the send.
    if now = self.sendTime * 1000000 then throw .zeroDivisionError
    set ({ self with
      configVersionInstalled := self.configVersionSend
      distOk := true
      toConfigServer := self.toConfigServer ++ [.syncEnd]
      fileDict := [] } : Master)

/-- A request to send, with the time at its beginning and at its end. -/
def handleRemoteSyncSlave (version : Int) (tree : Tree) (now later : Int) :
    Program Master PUnit := do
  modify (fun self => { self with configVersionBuild := version })
  let self : Master <- get
  if self.slaveIp then
    set ({ self with
      configVersionSend := version
      sendTime := now / 1000000
      distOk := false
      iteration := tree.files } : Master)
    let (toSend, numFiles, sizeData) <- getSendCommands tree
    modify (fun self => { self with
      numSend := Function.update self.numSend version (some 0)
      toSlave := self.toSlave ++ toSend
      toConfigServer := self.toConfigServer ++ [.syncStart numFiles sizeData] })
    showPendingInfo later

/-- Keys that the master does not know are passed over. -/
def storeInfo (fileDict : List (Path × FileInfo)) (info : StoreInfo) : List (Path × FileInfo) :=
  fileDict.map (fun entry =>
    match info entry.1 with
    | some remote => (entry.1, entry.2.storeResult remote)
    | none => entry)

def storeSatelliteInfo (info : StoreInfo) (now : Int) : Program Master PUnit := do
  let self : Master <- get
  if self.fileDict ≠ [] then
    set ({ self with fileDict := storeInfo self.fileDict info } : Master)
    showPendingInfo now

structure World where
  master : Master
  slave : Slave
  toMaster : List StoreInfo

inductive Action where
  | syncSlave (version : Int) (tree : Tree) (now later : Int)
  | deliverToSlave (disk : Disk)
  /-- The master handles the first report on its way. -/
  | deliverToMaster (now : Int)
  | checkForRegister (masterKnown : Bool)

/-- A slave that does not know its master reports nothing. -/
def sendSatelliteInfo (world : World) : World :=
  if world.slave.registeredAtMaster then
    { world with toMaster := world.toMaster ++ [world.slave.fileDict] }
  else world

def step (world : World) : Action -> World
  | .syncSlave version tree now later =>
    { world with
      master := (handleRemoteSyncSlave version tree now later).after world.master }
  | .deliverToSlave disk =>
    match world.master.toSlave with
    | [] => world
    | command :: rest =>
      sendSatelliteInfo { world with
        master := { world.master with toSlave := rest }
        slave := handleDirect setup disk world.slave command }
  | .deliverToMaster now =>
    match world.toMaster with
    | [] => world
    | info :: rest =>
      { world with
        master := (storeSatelliteInfo info now).after world.master
        toMaster := rest }
  | .checkForRegister masterKnown =>
    sendSatelliteInfo { world with
      slave := { world.slave with
        registeredAtMaster := world.slave.registeredAtMaster || masterKnown } }

/-- Nothing is known on either side; the disk of the slave may hold anything. -/
def initial (slaveIp : Bool) (files : Path -> Option Content) (directories : Text -> Bool) :
    World where
  master :=
    { slaveIp := slaveIp, configVersionBuild := 0, configVersionSend := 0
      configVersionInstalled := 0, sendTime := 0, distOk := true, numSend := fun _ => none
      fileDict := [], toSlave := [], toConfigServer := [], iteration := [] }
  slave :=
    { fileDict := fun _ => none, files := files, directories := directories
      registeredAtMaster := false }
  toMaster := []

end Icsw.MdSync
