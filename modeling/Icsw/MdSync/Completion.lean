import Icsw.MdSync.SlaveFiles
import Mathlib.Data.List.Nodup

/-!
# Completion of a send

A report names only the version of a file, so one from an earlier send of the same version counts as
well.  Where at least one file has no such report on its way, the master ends a send only when the
slave has handled the message with all files.
-/

namespace Icsw.MdSync

open Foundation List

variable {setup : Setup} {disk : Disk}

/-!
## The master
-/

def completed (master : Master) : Master :=
  { master with
    configVersionInstalled := master.configVersionSend
    distOk := true
    toConfigServer := master.toConfigServer ++ [.syncEnd]
    fileDict := [] }

def nothingOpen (fileDict : List (Path × FileInfo)) : Bool :=
  (fileDict.filter (fun entry => entry.2.isPending)).isEmpty &&
    (fileDict.filter (fun entry => entry.2.isError)).isEmpty

theorem showPendingInfo_eq (now : Int) (master : Master) :
    showPendingInfo now master =
      if nothingOpen master.fileDict then
        match master.numSend master.configVersionSend with
        | none => .error .keyError master
        | some _ =>
          if now = master.sendTime * 1000000 then .error .zeroDivisionError master
          else .ok () (completed master)
      else .ok () master := by
  simp only [showPendingInfo, nothingOpen, bind_apply, get_apply, if_apply, lookupKey_apply,
    pure_apply, throw_apply, set_apply]
  split_ifs with hopen hnow
  · cases master.numSend master.configVersionSend with
    | none => rfl
    | some number => rfl
  · cases master.numSend master.configVersionSend with
    | none => rfl
    | some number => rfl
  · exact (if_neg hopen).symm

theorem storeSatelliteInfo_eq (info : StoreInfo) (now : Int) (master : Master) :
    storeSatelliteInfo info now master =
      if master.fileDict = [] then .ok () master
      else showPendingInfo now { master with fileDict := storeInfo master.fileDict info } := by
  simp only [storeSatelliteInfo, bind_apply, get_apply, set_apply, if_apply, ite_not]
  split_ifs with hknown
  · rfl
  · rfl

/-- The master when the commands of a send have been put on their way. -/
def started (version : Int) (tree : Tree) (now : Int) (master : Master) : Master :=
  { master with
    configVersionBuild := version
    configVersionSend := version
    sendTime := now / 1000000
    distOk := false
    iteration := tree.files
    fileDict := (entered tree.files).map (fun file => (file.1, FileInfo.new version)) }

def sendCommands (version : Int) (tree : Tree) : List Command :=
  (if tree.directories = [] then []
    else [Command.clearDirectories (tree.directories.map Prod.fst)]) ++
  (if tree.files = [] then [] else [buildFileContent version tree.files])

/-- The master with the commands of a complete send on their way. -/
def dispatched (version : Int) (tree : Tree) (now : Int) (master : Master) : Master :=
  { started version tree now master with
    numSend := Function.update master.numSend version (some 0)
    toSlave := master.toSlave ++ sendCommands version tree
    toConfigServer := master.toConfigServer ++ [.syncStart tree.files.length
      (tree.files.map (fun file => file.2.length)).sum] }

theorem handleRemoteSyncSlave_eq (version : Int) (tree : Tree) (now later : Int) (master : Master) :
    handleRemoteSyncSlave version tree now later master =
      if master.slaveIp then
        if tree.files.any (fun file => file.2.length > maxSendSize) then
          .error .attributeError (started version tree now master)
        else showPendingInfo later (dispatched version tree now master)
      else .ok () { master with configVersionBuild := version } := by
  simp only [handleRemoteSyncSlave, getSendCommands, bind_apply, modify_apply, get_apply,
    set_apply, if_apply, throw_apply, pure_apply]
  by_cases hip : master.slaveIp = true
  · rw [if_pos hip, if_pos hip]
    by_cases hlarge : tree.files.any (fun file => file.2.length > maxSendSize) = true
    · rw [if_pos hlarge, if_pos hlarge]
      rfl
    · rw [if_neg hlarge, if_neg hlarge]
      rfl
  · rw [if_neg hip, if_neg hip]

variable {fileDict : List (Path × FileInfo)}

theorem created_of_nothingOpen (hnothing : nothingOpen fileDict = true) {entry : Path × FileInfo}
    (hmem : entry ∈ fileDict) : entry.2.created = true := by
  simp only [nothingOpen, Bool.and_eq_true, List.isEmpty_iff, List.filter_eq_nil_iff] at hnothing
  have hpending := hnothing.left entry hmem
  have herror := hnothing.right entry hmem
  cases hcreated : entry.2.created with
  | true => rfl
  | false =>
    simp only [FileInfo.isError, Bool.not_eq_true, Bool.not_eq_false'] at herror
    simp [FileInfo.isPending, hcreated, herror] at hpending

theorem showPendingInfo_after (now : Int) (master : Master) :
    (showPendingInfo now).after master = master ∨
      ((forall entry, entry ∈ master.fileDict -> entry.2.created = true) ∧
        (showPendingInfo now).after master = completed master) := by
  unfold Program.after
  rw [showPendingInfo_eq]
  by_cases hnothing : nothingOpen master.fileDict = true
  · rw [if_pos hnothing]
    cases master.numSend master.configVersionSend with
    | none => exact .inl rfl
    | some number =>
      by_cases hnow : now = master.sendTime * 1000000
      · left
        simp only [if_pos hnow]
      · right
        simp only [if_neg hnow]
        exact ⟨fun _ hmem => created_of_nothingOpen hnothing hmem, trivial⟩
  · left
    rw [if_neg hnothing]

theorem storeSatelliteInfo_after (info : StoreInfo) (now : Int) {master : Master}
    (hopen : master.fileDict ≠ []) :
    (storeSatelliteInfo info now).after master =
      (showPendingInfo now).after
        { master with fileDict := storeInfo master.fileDict info } := by
  unfold Program.after
  rw [storeSatelliteInfo_eq, if_neg hopen]

theorem storeSatelliteInfo_idle (info : StoreInfo) (now : Int) {master : Master}
    (hidle : master.fileDict = []) : (storeSatelliteInfo info now).after master = master := by
  unfold Program.after
  rw [storeSatelliteInfo_eq, if_pos hidle]

variable {files : List (Path × Content)}

theorem entered_eq_self (hsmall : files.any (fun file => file.2.length > maxSendSize) = false) :
    entered files = files := by
  induction files with
  | nil => rfl
  | cons file rest ih =>
    simp only [any_cons, Bool.or_eq_false_iff, decide_eq_false_iff_not] at hsmall
    rw [entered, if_neg hsmall.left, ih hsmall.right]

theorem entered_subset {file : Path × Content} (hmem : file ∈ entered files) : file ∈ files := by
  induction files with
  | nil => exact hmem
  | cons first rest ih =>
    unfold entered at hmem
    split_ifs at hmem with hlarge
    · rw [mem_singleton.mp hmem]
      exact mem_cons_self
    · rcases mem_cons.mp hmem with heq | hrest
      · rw [heq]
        exact mem_cons_self
      · exact mem_cons_of_mem _ (ih hrest)

theorem handleRemoteSyncSlave_after (version : Int) (tree : Tree) (now later : Int)
    (master : Master) :
    (master.slaveIp = false ∧ (handleRemoteSyncSlave version tree now later).after master =
      { master with configVersionBuild := version }) ∨
    (master.slaveIp = true ∧ (handleRemoteSyncSlave version tree now later).after master =
      started version tree now master) ∨
    (master.slaveIp = true ∧ entered tree.files = tree.files ∧
      (handleRemoteSyncSlave version tree now later).after master =
        (showPendingInfo later).after (dispatched version tree now master)) := by
  unfold Program.after
  rw [handleRemoteSyncSlave_eq]
  cases hip : master.slaveIp with
  | false => exact .inl ⟨rfl, rfl⟩
  | true =>
    rw [if_pos rfl]
    cases hlarge : tree.files.any (fun file => file.2.length > maxSendSize) with
    | true => exact .inr (.inl ⟨rfl, rfl⟩)
    | false => exact .inr (.inr ⟨rfl, entered_eq_self hlarge, rfl⟩)

/-!
## Sends under way
-/

def stale (world : World) (version : Int) (path : Path) : Bool :=
  world.toMaster.any (fun info => reports info version path) ||
    reports world.slave.fileDict version path ||
    world.master.toSlave.any (carries version path)

/--
A request may be made unless every file it enters has a report of the version on its way.  The
slave clears the directories of the files that it stores.
-/
def SendsFresh (setup : Setup) (world : World) : Action -> Prop
  | .syncSlave version tree _ _ =>
    world.master.slaveIp = true ->
      (entered tree.files ≠ [] -> exists file, file ∈ entered tree.files ∧
        stale world version file.1 = false) ∧
      forall file, file ∈ tree.files -> setup.inside (file.1.text setup.etc) = true ->
        setup.inside (directoryText setup.etc file.1.rel) = true
  | .deliverToSlave _ => True
  | .deliverToMaster _ => True
  | .checkForRegister _ => True

/-- The files entered are all those of the send, each once. -/
structure Entire (setup : Setup) (master : Master) : Prop where
  keys : master.fileDict.map Prod.fst = master.iteration.map Prod.fst
  nodup : (master.iteration.map Prod.fst).Nodup
  inside : forall file, file ∈ master.iteration ->
    setup.inside (file.1.text setup.etc) = true ->
    setup.inside (directoryText setup.etc file.1.rel) = true

/-- Where the commands of the send are that the slave has not handled. -/
inductive Underway (setup : Setup) (master : Master) (slave : Slave) (path : Path) : Prop where
  /-- The commands could not be built. -/
  | unsent (hold : forall command, command ∈ master.toSlave ->
      carries master.configVersionSend path command = false)
  | sent (old : List Command) (rels : List Text)
      (hqueue : master.toSlave = old ++ [.clearDirectories rels,
        buildFileContent master.configVersionSend master.iteration])
      (hold : forall command, command ∈ old ->
        carries master.configVersionSend path command = false)
      (hrels : forall file, file ∈ master.iteration -> file.1.rel ∈ rels)
      (hentire : Entire setup master)
  | cleared
      (hqueue : master.toSlave =
        [buildFileContent master.configVersionSend master.iteration])
      (hcleared : forall file, file ∈ master.iteration ->
        setup.inside (file.1.text setup.etc) = true -> slave.NotCreated file.1)
      (hentire : Entire setup master)

/-- The file does not count as created. -/
def Open (fileDict : List (Path × FileInfo)) (path : Path) : Prop :=
  path ∈ fileDict.map Prod.fst ∧
    forall entry, entry ∈ fileDict -> entry.1 = path -> entry.2.created = false

/-- The slave has not handled all files, and nothing reports this one. -/
structure Waiting (setup : Setup) (world : World) (path : Path) : Prop where
  underway : Underway setup world.master world.slave path
  notKnown : reports world.slave.fileDict world.master.configVersionSend path = false
  notReported : forall info, info ∈ world.toMaster ->
    reports info world.master.configVersionSend path = false
  isOpen : Open world.master.fileDict path

/-- All files have been handled; what the slave knows from now on is reported. -/
structure Settled (setup : Setup) (world : World) (path : Path) : Prop where
  handled : world.master.toSlave = []
  keys : world.master.fileDict.map Prod.fst = world.master.iteration.map Prod.fst
  stored : forall file, file ∈ world.master.iteration ->
    reports world.slave.fileDict world.master.configVersionSend file.1 = true ->
    world.slave.files file.1 = some file.2
  known : reports world.slave.fileDict world.master.configVersionSend path = true ->
    forall file, file ∈ world.master.iteration ->
      setup.inside (file.1.text setup.etc) = true ->
      (world.slave.fileDict file.1).isSome = true
  queue : exists old new, world.toMaster = old ++ new ∧
    (forall info, info ∈ old -> reports info world.master.configVersionSend path = false) ∧
    (forall info, info ∈ new -> info = world.slave.fileDict) ∧
    (Open world.master.fileDict path ∨
      (old = [] ∧ forall entry, entry ∈ world.master.fileDict -> entry.2.created = true ->
        reports world.slave.fileDict world.master.configVersionSend entry.1 = true))

/-- What every step of a run with fresh sends keeps. -/
structure Tracked (setup : Setup) (world : World) : Prop where
  sound : world.slave.Sound
  known : StoreInfo.Inside setup world.slave.fileDict
  reported : forall info, info ∈ world.toMaster -> StoreInfo.Inside setup info
  /-- A file that the slave refuses never counts as created. -/
  refused : forall entry, entry ∈ world.master.fileDict -> entry.2.created = true ->
    setup.inside (entry.1.text setup.etc) = true
  versions : forall entry, entry ∈ world.master.fileDict ->
    entry.2.targetVersion = world.master.configVersionSend
  send : world.master.fileDict = [] ∨
    exists path, Waiting setup world path ∨ Settled setup world path

/-!
## Reports
-/

theorem storeResult_created {info remote : FileInfo} :
    (info.storeResult remote).created = true <->
      remote.created = true ∧ remote.targetVersion = info.targetVersion := by
  unfold FileInfo.storeResult
  split_ifs with hne
  · simp [hne]
  · simp only [ne_eq, not_not] at hne
    simp [hne]

theorem storeInfo_keys (fileDict : List (Path × FileInfo)) (info : StoreInfo) :
    (storeInfo fileDict info).map Prod.fst = fileDict.map Prod.fst := by
  unfold storeInfo
  rw [map_map]
  apply map_congr_left
  intro entry _
  simp only [Function.comp]
  cases info entry.1 with
  | none => rfl
  | some remote => rfl

theorem mem_storeInfo {info : StoreInfo}
    {entry : Path × FileInfo} (hmem : entry ∈ storeInfo fileDict info) :
    exists before, before ∈ fileDict ∧ entry.1 = before.1 ∧
      entry.2.targetVersion = before.2.targetVersion ∧
      ((info before.1 = none ∧ entry = before) ∨
        ((info before.1).isSome = true ∧
          (entry.2.created = true -> reports info before.2.targetVersion before.1 = true))) := by
  rcases mem_map.mp hmem with ⟨before, hbefore, heq⟩
  refine ⟨before, hbefore, ?_⟩
  cases hinfo : info before.1 with
  | none =>
    rw [hinfo] at heq
    subst heq
    exact ⟨rfl, rfl, .inl ⟨rfl, rfl⟩⟩
  | some remote =>
    rw [hinfo] at heq
    subst heq
    refine ⟨rfl, rfl, .inr ⟨rfl, fun hcreated => ?_⟩⟩
    have hboth := storeResult_created.mp hcreated
    exact reports_iff.mpr ⟨remote, hinfo, hboth.left, hboth.right⟩

theorem Open.storeInfo {info : StoreInfo} {path : Path} {version : Int} (hopen : Open fileDict path)
    (hversions : forall entry, entry ∈ fileDict -> entry.2.targetVersion = version)
    (hnot : reports info version path = false) : Open (storeInfo fileDict info) path := by
  refine ⟨by rw [storeInfo_keys]; exact hopen.left, ?_⟩
  intro entry hmem hpath
  rcases mem_storeInfo hmem with ⟨before, hbefore, hfst, -, hcase⟩
  have hsame : before.1 = path := hfst.symm.trans hpath
  rcases hcase with ⟨-, heq⟩ | ⟨-, hcreated⟩
  · rw [heq]
    exact hopen.right before hbefore hsame
  · by_contra htrue
    rw [Bool.not_eq_false] at htrue
    have hreports := hcreated htrue
    rw [hversions before hbefore, hsame, hnot] at hreports
    cases hreports

theorem Open.not_all_created {path : Path} (hopen : Open fileDict path) :
    ¬ forall entry, entry ∈ fileDict -> entry.2.created = true := by
  intro hall
  rcases mem_map.mp hopen.left with ⟨entry, hentry, hpath⟩
  have hfalse := hopen.right entry hentry hpath
  rw [hall entry hentry] at hfalse
  cases hfalse

/-- The master has counted a report but not yet looked whether the send is complete. -/
def counted (world : World) (info : StoreInfo) (rest : List StoreInfo) : World :=
  { world with
    master := { world.master with fileDict := storeInfo world.master.fileDict info }
    toMaster := rest }

section Report

variable {world : World} {path : Path} {info : StoreInfo} {rest : List StoreInfo}
  (hversions : forall entry, entry ∈ world.master.fileDict ->
    entry.2.targetVersion = world.master.configVersionSend)
  (hqueue : world.toMaster = info :: rest)

theorem counted_refused (hinside : StoreInfo.Inside setup info)
    (hrefused : forall entry, entry ∈ world.master.fileDict -> entry.2.created = true ->
      setup.inside (entry.1.text setup.etc) = true) {entry : Path × FileInfo}
    (hmem : entry ∈ (counted world info rest).master.fileDict)
    (hcreated : entry.2.created = true) : setup.inside (entry.1.text setup.etc) = true := by
  rcases mem_storeInfo hmem with ⟨before, hbefore, hfst, -, ⟨-, heq⟩ | ⟨hsome, -⟩⟩
  · rw [heq] at hcreated ⊢
    exact hrefused before hbefore hcreated
  · rw [hfst]
    exact hinside before.1 hsome

include hversions

theorem counted_versions {entry : Path × FileInfo}
    (hmem : entry ∈ (counted world info rest).master.fileDict) :
    entry.2.targetVersion = world.master.configVersionSend := by
  rcases mem_storeInfo hmem with ⟨before, hbefore, -, hversion, -⟩
  rw [hversion]
  exact hversions before hbefore

theorem Settled.counted_new (hsettled : Settled setup world path)
    (hrefused : forall entry, entry ∈ (MdSync.counted world info rest).master.fileDict ->
      entry.2.created = true -> setup.inside (entry.1.text setup.etc) = true)
    (hnew : info = world.slave.fileDict) (hbefore : Open world.master.fileDict path ∨
      forall entry, entry ∈ world.master.fileDict -> entry.2.created = true ->
        reports world.slave.fileDict world.master.configVersionSend entry.1 = true) :
    Open (MdSync.counted world info rest).master.fileDict path ∨
      forall entry, entry ∈ (MdSync.counted world info rest).master.fileDict ->
        entry.2.created = true ->
        reports world.slave.fileDict world.master.configVersionSend entry.1 = true := by
  cases hreports : reports info world.master.configVersionSend path with
  | false =>
    rcases hbefore with hopen | hcounted
    · exact .inl (hopen.storeInfo hversions hreports)
    · right
      intro entry hmem hcreated
      rcases mem_storeInfo hmem with ⟨before, hmem, hfst, -, hcase⟩
      rw [hfst]
      rcases hcase with ⟨-, heq⟩ | ⟨-, hremote⟩
      · rw [heq] at hcreated
        exact hcounted before hmem hcreated
      · have hcount := hremote hcreated
        rw [hversions before hmem, hnew] at hcount
        exact hcount
  | true =>
    right
    intro entry hmem hcreated
    have hinside := hrefused entry hmem hcreated
    rcases mem_storeInfo hmem with ⟨before, hmem, hfst, -, hcase⟩
    rw [hfst] at hinside ⊢
    -- The report names every file of the send.
    have hpath : before.1 ∈ world.master.iteration.map Prod.fst := by
      rw [← hsettled.keys]
      exact mem_map_of_mem hmem
    rcases mem_map.mp hpath with ⟨file, hfile, hsame⟩
    rw [hnew] at hreports
    have hknown := hsettled.known hreports file hfile (hsame ▸ hinside)
    rw [hsame] at hknown
    rcases hcase with ⟨hnone, -⟩ | ⟨-, hremote⟩
    · rw [hnew] at hnone
      rw [hnone] at hknown
      cases hknown
    · have hcount := hremote hcreated
      rw [hversions before hmem, hnew] at hcount
      exact hcount

include hqueue

theorem Waiting.counted (hwaiting : Waiting setup world path) :
    Waiting setup (counted world info rest) path := by
  have hnot := hwaiting.notReported info (hqueue ▸ mem_cons_self)
  constructor
  · cases hwaiting.underway with
    | unsent hold => exact .unsent hold
    | sent old rels hsent hold hrels hentire =>
      exact .sent old rels hsent hold hrels
        ⟨(storeInfo_keys _ _).trans hentire.keys, hentire.nodup, hentire.inside⟩
    | cleared hsent hcleared hentire =>
      exact .cleared hsent hcleared
        ⟨(storeInfo_keys _ _).trans hentire.keys, hentire.nodup, hentire.inside⟩
  · exact hwaiting.notKnown
  · intro other hmem
    exact hwaiting.notReported other (hqueue ▸ mem_cons_of_mem _ hmem)
  · exact hwaiting.isOpen.storeInfo hversions hnot

theorem Settled.counted (hsettled : Settled setup world path)
    (hrefused : forall entry, entry ∈ (MdSync.counted world info rest).master.fileDict ->
      entry.2.created = true -> setup.inside (entry.1.text setup.etc) = true) :
    Settled setup (MdSync.counted world info rest) path := by
  rcases hsettled.queue with ⟨old, new, hsplit, hold, hnew, hopen⟩
  refine ⟨hsettled.handled, (storeInfo_keys _ _).trans hsettled.keys, hsettled.stored,
    hsettled.known, ?_⟩
  rw [hqueue] at hsplit
  cases old with
  | nil =>
    rw [nil_append] at hsplit
    have hinfo := hnew info (hsplit ▸ mem_cons_self)
    refine ⟨[], rest, rfl, fun other hmem => absurd hmem not_mem_nil, ?_, ?_⟩
    · intro other hmem
      exact hnew other (hsplit ▸ mem_cons_of_mem _ hmem)
    · have hbefore := hopen.imp_right And.right
      exact (hsettled.counted_new hversions hrefused hinfo hbefore).imp_right
        (fun hcounted => ⟨rfl, hcounted⟩)
  | cons first older =>
    rw [cons_append] at hsplit
    rcases cons.inj hsplit with ⟨hfirst, hrest⟩
    refine ⟨older, new, hrest, fun other hmem => hold other (mem_cons_of_mem _ hmem),
      hnew, ?_⟩
    rcases hopen with hopen | ⟨hnil, -⟩
    · left
      exact hopen.storeInfo hversions (hold info (hfirst ▸ mem_cons_self))
    · cases hnil

end Report

/-!
## Commands
-/

theorem sendSatelliteInfo_eq (world : World) : exists sent,
    sendSatelliteInfo world = { world with toMaster := world.toMaster ++ sent } ∧
      forall info, info ∈ sent -> info = world.slave.fileDict := by
  unfold sendSatelliteInfo
  split_ifs with hregistered
  · exact ⟨[world.slave.fileDict], rfl, fun _ => mem_singleton.mp⟩
  · exact ⟨[], by rw [append_nil], fun _ hmem => absurd hmem not_mem_nil⟩

variable {world : World}

variable {path}

theorem Waiting.reported (hwaiting : Waiting setup world path)
    {sent : List StoreInfo} (hsent : forall info, info ∈ sent -> info = world.slave.fileDict) :
    Waiting setup { world with toMaster := world.toMaster ++ sent } path := by
  refine ⟨hwaiting.underway, hwaiting.notKnown, ?_, hwaiting.isOpen⟩
  intro info hmem
  rcases mem_append.mp hmem with hold | hnew
  · exact hwaiting.notReported info hold
  · rw [hsent info hnew]
    exact hwaiting.notKnown

theorem Settled.reported (hsettled : Settled setup world path)
    {sent : List StoreInfo} (hsent : forall info, info ∈ sent -> info = world.slave.fileDict) :
    Settled setup { world with toMaster := world.toMaster ++ sent } path := by
  rcases hsettled.queue with ⟨old, new, hsplit, hold, hnew, hopen⟩
  refine ⟨hsettled.handled, hsettled.keys, hsettled.stored, hsettled.known,
    ⟨old, new ++ sent, ?_, hold, forall_mem_append.mpr ⟨hnew, hsent⟩, hopen⟩⟩
  rw [hsplit, append_assoc]

/-- The slave has handled a command but not yet reported. -/
def handled (setup : Setup) (disk : Disk) (world : World) (command : Command)
    (rest : List Command) : World :=
  { world with
    master := { world.master with toSlave := rest }
    slave := handleDirect setup disk world.slave command }

theorem settled_of_bulk (hwaiting : Waiting setup world path)
    (hknown : StoreInfo.Inside setup world.slave.fileDict)
    (hcleared : forall file, file ∈ world.master.iteration ->
      setup.inside (file.1.text setup.etc) = true -> world.slave.NotCreated file.1)
    (hentire : Entire setup world.master) :
    Settled setup (handled setup disk world
      (buildFileContent world.master.configVersionSend world.master.iteration) []) path := by
  have hdict := @handleDirect_build setup disk world.slave world.master.configVersionSend
    world.master.iteration
  have hholds : forall file, file ∈ world.master.iteration ->
      setup.inside (file.1.text setup.etc) = true ->
      (handleDirect setup disk world.slave (buildFileContent world.master.configVersionSend
        world.master.iteration)).Holds world.master.configVersionSend file := by
    intro file hfile hinside
    rw [hdict]
    exact storeFiles_holds hentire.nodup hcleared hfile hinside
  constructor
  · rfl
  · exact hentire.keys
  · intro file hfile hreports
    rcases reports_iff.mp hreports with ⟨remote, hremote, hcreated, -⟩
    have hsome : ((handled setup disk world (buildFileContent world.master.configVersionSend
        world.master.iteration) []).slave.fileDict file.1).isSome = true := by
      rw [hremote]
      rfl
    have hinside := handleDirect_inside hknown _ file.1 hsome
    rcases hholds file hfile hinside with ⟨info, hinfo, -, hcontent⟩
    have hsame : some remote = some info := hremote.symm.trans hinfo
    cases hsame
    exact hcontent hcreated
  · intro _ file hfile hinside
    rcases hholds file hfile hinside with ⟨info, hinfo, -⟩
    exact Option.isSome_iff_exists.mpr ⟨info, hinfo⟩
  · exact ⟨world.toMaster, [], (append_nil _).symm, hwaiting.notReported,
      fun info hmem => absurd hmem not_mem_nil, .inl hwaiting.isOpen⟩

variable {command : Command}

theorem Waiting.handled (hwaiting : Waiting setup world path)
    (hsound : world.slave.Sound) (hknown : StoreInfo.Inside setup world.slave.fileDict)
    {rest : List Command} (hqueue : world.master.toSlave = command :: rest) :
    Waiting setup (handled setup disk world command rest) path ∨
      Settled setup (handled setup disk world command rest) path := by
  cases hwaiting.underway with
  | unsent hold =>
    left
    have hnot := hold command (hqueue ▸ mem_cons_self)
    refine ⟨.unsent ?_, handleDirect_reports hnot hwaiting.notKnown, hwaiting.notReported,
      hwaiting.isOpen⟩
    intro other hmem
    exact hold other (hqueue ▸ mem_cons_of_mem _ hmem)
  | sent old rels hsent hold hrels hentire =>
    left
    rw [hqueue] at hsent
    cases old with
    | nil =>
      rcases cons.inj hsent with ⟨rfl, hrest⟩
      have hnot : carries world.master.configVersionSend path (.clearDirectories rels) =
        false := rfl
      refine ⟨.cleared hrest ?_ ⟨hentire.keys, hentire.nodup, hentire.inside⟩,
        handleDirect_reports hnot hwaiting.notKnown, hwaiting.notReported, hwaiting.isOpen⟩
      intro file hfile hinside
      exact clearDirectories_clears hsound (hrels file hfile)
        (hentire.inside file hfile hinside)
    | cons first older =>
      rcases cons.inj hsent with ⟨hfirst, hrest⟩
      have hnot := hold command (hfirst ▸ mem_cons_self)
      exact ⟨.sent older rels hrest
          (fun other hmem => hold other (mem_cons_of_mem _ hmem)) hrels
          ⟨hentire.keys, hentire.nodup, hentire.inside⟩,
        handleDirect_reports hnot hwaiting.notKnown, hwaiting.notReported, hwaiting.isOpen⟩
  | cleared hsent hcleared hentire =>
    right
    rw [hqueue] at hsent
    rcases cons.inj hsent with ⟨rfl, rfl⟩
    exact settled_of_bulk hwaiting hknown hcleared hentire

/-!
## Requests
-/

theorem Tree.rel_mem {tree : Tree} {file : Path × Content} (hmem : file ∈ tree.files) :
    file.1.rel ∈ tree.directories.map Prod.fst := by
  rcases mem_flatMap.mp hmem with ⟨directory, hdirectory, hfile⟩
  rcases mem_map.mp hfile with ⟨entry, -, rfl⟩
  exact mem_map_of_mem hdirectory

theorem nodup_paths {rel : Text} {names : List (Text × Content)}
    (hnames : (names.map Prod.fst).Nodup) :
    (names.map (fun file => { rel := rel, name := file.1 : Path })).Nodup := by
  have hmap : names.map (fun file => { rel := rel, name := file.1 : Path }) =
      (names.map Prod.fst).map (fun name => { rel := rel, name := name : Path }) := by
    rw [map_map]
    rfl
  rw [hmap]
  apply Nodup.map _ hnames
  intro first second heq
  exact congrArg Path.name heq

theorem Tree.files_nodup (tree : Tree) : (tree.files.map Prod.fst).Nodup := by
  have hmap : tree.files.map Prod.fst = tree.directories.flatMap (fun directory =>
      directory.2.map (fun file => { rel := directory.1, name := file.1 : Path })) := by
    simp only [Tree.files, map_flatMap, map_map]
    rfl
  rw [hmap, nodup_flatMap]
  constructor
  · intro directory hmem
    exact nodup_paths (tree.nodup_names directory hmem)
  · apply Pairwise.imp _ (pairwise_map.mp tree.nodup_rels)
    intro first second hne path hfirst hsecond
    rcases mem_map.mp hfirst with ⟨file, -, rfl⟩
    rcases mem_map.mp hsecond with ⟨other, -, heq⟩
    exact hne (congrArg Path.rel heq).symm

theorem sendCommands_eq (version : Int) {tree : Tree} (hfiles : tree.files ≠ []) :
    sendCommands version tree =
      [.clearDirectories (tree.directories.map Prod.fst),
        buildFileContent version tree.files] := by
  have hdirectories : tree.directories ≠ [] := by
    intro hnone
    exact hfiles (by rw [Tree.files, hnone]; rfl)
  rw [sendCommands, if_neg hdirectories, if_neg hfiles]
  rfl

variable {version : Int}

theorem started_open {tree : Tree} {now : Int} {master : Master}
    {file : Path × Content} (hmem : file ∈ entered tree.files) :
    Open (started version tree now master).fileDict file.1 := by
  constructor
  · simp only [started, map_map]
    exact mem_map_of_mem hmem
  · intro entry hentry _
    rcases mem_map.mp hentry with ⟨other, -, rfl⟩
    rfl

theorem stale_eq_false (hfresh : stale world version path = false) :
    (forall info, info ∈ world.toMaster -> reports info version path = false) ∧
      reports world.slave.fileDict version path = false ∧
      forall command, command ∈ world.master.toSlave -> carries version path command = false := by
  simp only [stale, Bool.or_eq_false_iff, any_eq_false, Bool.not_eq_true] at hfresh
  exact ⟨hfresh.left.left, hfresh.left.right, hfresh.right⟩

theorem waiting_started {tree : Tree} {now : Int}
    {file : Path × Content} (hmem : file ∈ entered tree.files)
    (hfresh : stale world version file.1 = false) :
    Waiting setup { world with master := started version tree now world.master } file.1 := by
  rcases stale_eq_false hfresh with ⟨hinfos, hslave, hcommands⟩
  exact ⟨.unsent hcommands, hslave, hinfos, started_open hmem⟩

theorem waiting_dispatched {tree : Tree} {now : Int} (hentered : entered tree.files = tree.files)
    (hinside : forall file, file ∈ tree.files -> setup.inside (file.1.text setup.etc) = true ->
      setup.inside (directoryText setup.etc file.1.rel) = true)
    {file : Path × Content} (hmem : file ∈ entered tree.files)
    (hfresh : stale world version file.1 = false) :
    Waiting setup { world with master := dispatched version tree now world.master }
      file.1 := by
  rcases stale_eq_false hfresh with ⟨hinfos, hslave, hcommands⟩
  have hfiles : tree.files ≠ [] := ne_nil_of_mem (entered_subset hmem)
  refine ⟨?_, hslave, hinfos, @started_open version tree now world.master file hmem⟩
  refine .sent world.master.toSlave (tree.directories.map Prod.fst) ?_ hcommands
    (fun other hother => Tree.rel_mem hother) ⟨?_, tree.files_nodup, hinside⟩
  · show world.master.toSlave ++ sendCommands version tree = _
    rw [sendCommands_eq version hfiles]
    rfl
  · show ((entered tree.files).map _).map Prod.fst = tree.files.map Prod.fst
    rw [hentered, map_map]
    rfl

/-!
## Steps
-/

def Ends (setup : Setup) (world : World) (action : Action) : Prop :=
  world.master.toConfigServer.count .syncEnd <
    (step setup world action).master.toConfigServer.count .syncEnd

/-- Every file of the latest send is on the slave with its content. -/
def Distributed (world : World) : Prop :=
  forall file, file ∈ world.master.iteration -> world.slave.files file.1 = some file.2

theorem Tracked.of_idle (hsound : world.slave.Sound)
    (hknown : StoreInfo.Inside setup world.slave.fileDict)
    (hreported : forall info, info ∈ world.toMaster -> StoreInfo.Inside setup info)
    (hidle : world.master.fileDict = []) : Tracked setup world := by
  have hnone : forall entry, entry ∉ world.master.fileDict := by
    intro entry hmem
    rw [hidle] at hmem
    cases hmem
  exact {
    sound := hsound
    known := hknown
    reported := hreported
    refused := fun entry hmem => absurd hmem (hnone entry)
    versions := fun entry hmem => absurd hmem (hnone entry)
    send := .inl hidle }

theorem tracked_sendSatelliteInfo (htracked : Tracked setup world) :
    Tracked setup (sendSatelliteInfo world) := by
  rcases sendSatelliteInfo_eq world with ⟨sent, heq, hsent⟩
  rw [heq]
  refine ⟨htracked.sound, htracked.known, ?_, htracked.refused, htracked.versions, ?_⟩
  · refine forall_mem_append.mpr ⟨htracked.reported, fun info hmem => ?_⟩
    rw [hsent info hmem]
    exact htracked.known
  · rcases htracked.send with hidle | ⟨path, hwaiting | hsettled⟩
    · exact .inl hidle
    · exact .inr ⟨path, .inl (hwaiting.reported hsent)⟩
    · exact .inr ⟨path, .inr (hsettled.reported hsent)⟩

/-- What the master has built last and whether the slave is registered do not matter. -/
theorem tracked_update (htracked : Tracked setup world) (version : Int)
    (registered : Bool) : Tracked setup { world with
      master := { world.master with configVersionBuild := version }
      slave := { world.slave with registeredAtMaster := registered } } := by
  refine ⟨htracked.sound, htracked.known, htracked.reported, htracked.refused,
    htracked.versions, ?_⟩
  rcases htracked.send with hidle | ⟨path, hwaiting | hsettled⟩
  · exact .inl hidle
  · refine .inr ⟨path, .inl ⟨?_, hwaiting.notKnown, hwaiting.notReported, hwaiting.isOpen⟩⟩
    cases hwaiting.underway with
    | unsent hold => exact .unsent hold
    | sent old rels hqueue hold hrels hentire =>
      exact .sent old rels hqueue hold hrels ⟨hentire.keys, hentire.nodup, hentire.inside⟩
    | cleared hqueue hcleared hentire =>
      exact .cleared hqueue hcleared ⟨hentire.keys, hentire.nodup, hentire.inside⟩
  · exact .inr ⟨path, .inr ⟨hsettled.handled, hsettled.keys, hsettled.stored, hsettled.known,
      hsettled.queue⟩⟩

theorem tracked_handled (htracked : Tracked setup world)
    {rest : List Command} (hqueue : world.master.toSlave = command :: rest) :
    Tracked setup (handled setup disk world command rest) := by
  refine ⟨handleDirect_sound htracked.sound command, handleDirect_inside htracked.known command,
    htracked.reported, htracked.refused, htracked.versions, ?_⟩
  rcases htracked.send with hidle | ⟨path, hwaiting | hsettled⟩
  · exact .inl hidle
  · exact .inr ⟨path, hwaiting.handled htracked.sound htracked.known hqueue⟩
  · rw [hsettled.handled] at hqueue
    cases hqueue

theorem tracked_counted (htracked : Tracked setup world) {info : StoreInfo}
    {rest : List StoreInfo} (hqueue : world.toMaster = info :: rest)
    (hopen : world.master.fileDict ≠ []) :
    Tracked setup (counted world info rest) ∧
      exists path, Waiting setup (counted world info rest) path ∨
        Settled setup (counted world info rest) path := by
  have hinside := htracked.reported info (hqueue ▸ mem_cons_self)
  have hrefused := fun (entry : Path × FileInfo)
      (hmem : entry ∈ (counted world info rest).master.fileDict) =>
    counted_refused hinside htracked.refused hmem
  have hsend : exists path, Waiting setup (counted world info rest) path ∨
      Settled setup (counted world info rest) path := by
    rcases htracked.send with hidle | ⟨path, hwaiting | hsettled⟩
    · exact absurd hidle hopen
    · exact ⟨path, .inl (hwaiting.counted htracked.versions hqueue)⟩
    · exact ⟨path, .inr (hsettled.counted htracked.versions hqueue hrefused)⟩
  refine ⟨⟨htracked.sound, htracked.known, ?_, hrefused, ?_, .inr hsend⟩, hsend⟩
  · intro other hmem
    exact htracked.reported other (hqueue ▸ mem_cons_of_mem _ hmem)
  · intro entry hmem
    exact counted_versions htracked.versions hmem

theorem distributed_of_created (hsend : Waiting setup world path ∨ Settled setup world path)
    (hcreated : forall entry, entry ∈ world.master.fileDict -> entry.2.created = true) :
    Distributed world := by
  rcases hsend with hwaiting | hsettled
  · exact absurd hcreated hwaiting.isOpen.not_all_created
  · rcases hsettled.queue with ⟨-, -, -, -, -, hopen | ⟨-, hreports⟩⟩
    · exact absurd hcreated hopen.not_all_created
    · intro file hfile
      apply hsettled.stored file hfile
      have hkey : file.1 ∈ world.master.fileDict.map Prod.fst := by
        rw [hsettled.keys]
        exact mem_map_of_mem hfile
      rcases mem_map.mp hkey with ⟨entry, hentry, hsame⟩
      rw [← hsame]
      exact hreports entry hentry (hcreated entry hentry)

theorem started_entry {tree : Tree} {now : Int} {master : Master}
    {entry : Path × FileInfo} (hmem : entry ∈ (started version tree now master).fileDict) :
    entry.2.targetVersion = version ∧ entry.2.created = false := by
  rcases mem_map.mp hmem with ⟨file, -, rfl⟩
  exact ⟨rfl, rfl⟩

theorem tracked_started (htracked : Tracked setup world) {version : Int}
    {tree : Tree} {now : Int} {master : Master}
    (hmaster : master.fileDict = (started version tree now world.master).fileDict)
    (hversion : master.configVersionSend = version)
    (hsend : forall file, file ∈ entered tree.files -> stale world version file.1 = false ->
      Waiting setup { world with master := master } file.1)
    (hfresh : entered tree.files ≠ [] -> exists file, file ∈ entered tree.files ∧
      stale world version file.1 = false) :
    Tracked setup { world with master := master } := by
  refine ⟨htracked.sound, htracked.known, htracked.reported, ?_, ?_, ?_⟩
  · intro entry hmem hcreated
    have hentry : entry ∈ (started version tree now world.master).fileDict := hmaster ▸ hmem
    rw [(started_entry hentry).right] at hcreated
    cases hcreated
  · intro entry hmem
    have hentry : entry ∈ (started version tree now world.master).fileDict := hmaster ▸ hmem
    rw [(started_entry hentry).left]
    exact hversion.symm
  · by_cases hnone : entered tree.files = []
    · left
      show master.fileDict = []
      rw [hmaster, started, hnone]
      rfl
    · rcases hfresh hnone with ⟨file, hmem, hnot⟩
      exact .inr ⟨file.1, .inl (hsend file hmem hnot)⟩

theorem no_files_of_created {tree : Tree} {now : Int} {master : Master}
    (hentered : entered tree.files = tree.files)
    (hcreated : forall entry, entry ∈ (dispatched version tree now master).fileDict ->
      entry.2.created = true) : tree.files = [] := by
  cases hfiles : tree.files with
  | nil => rfl
  | cons file rest =>
    have hmem : file ∈ entered tree.files := by
      rw [hentered, hfiles]
      exact mem_cons_self
    have hopen := @started_open version tree now master file hmem
    exact absurd hcreated hopen.not_all_created

theorem step_syncSlave (htracked : Tracked setup world) {version : Int}
    {tree : Tree} {now later : Int}
    (hfresh : SendsFresh setup world (.syncSlave version tree now later)) :
    Tracked setup (step setup world (.syncSlave version tree now later)) ∧
      (Ends setup world (.syncSlave version tree now later) ->
        Distributed (step setup world (.syncSlave version tree now later))) := by
  unfold Ends
  rcases handleRemoteSyncSlave_after version tree now later world.master with
    ⟨-, hafter⟩ | ⟨hip, hafter⟩ | ⟨hip, hentered, hafter⟩
  · simp only [step, hafter]
    exact ⟨tracked_update htracked version world.slave.registeredAtMaster,
      fun hends => absurd hends (Nat.lt_irrefl _)⟩
  · simp only [step, hafter]
    refine ⟨?_, fun hends => absurd hends (Nat.lt_irrefl _)⟩
    exact tracked_started htracked rfl rfl (fun file hmem hnot => waiting_started hmem hnot)
      (hfresh hip).left
  · have hstarted := @tracked_started setup world htracked version tree now
      (dispatched version tree now world.master) rfl rfl
      (fun file hmem hnot => waiting_dispatched hentered (hfresh hip).right hmem hnot)
      (hfresh hip).left
    rcases showPendingInfo_after later (dispatched version tree now world.master) with
      hopen | ⟨hcreated, hend⟩
    · simp only [step, hafter, hopen]
      refine ⟨hstarted, fun hends => ?_⟩
      simp [dispatched] at hends
    · simp only [step, hafter, hend]
      refine ⟨Tracked.of_idle htracked.sound htracked.known htracked.reported rfl, ?_⟩
      intro _ file hfile
      have hnone := no_files_of_created hentered hcreated
      have hmem : file ∈ tree.files := hfile
      rw [hnone] at hmem
      cases hmem

theorem step_deliverToMaster (htracked : Tracked setup world) (now : Int) :
    Tracked setup (step setup world (.deliverToMaster now)) ∧
      (Ends setup world (.deliverToMaster now) ->
        Distributed (step setup world (.deliverToMaster now))) := by
  unfold Ends
  cases hqueue : world.toMaster with
  | nil =>
    simp only [step, hqueue]
    exact ⟨htracked, fun hends => absurd hends (Nat.lt_irrefl _)⟩
  | cons info rest =>
    have hrest : forall other, other ∈ rest -> StoreInfo.Inside setup other := fun other hmem =>
      htracked.reported other (hqueue ▸ mem_cons_of_mem _ hmem)
    by_cases hidle : world.master.fileDict = []
    · simp only [step, hqueue, storeSatelliteInfo_idle info now hidle]
      exact ⟨Tracked.of_idle htracked.sound htracked.known hrest hidle,
        fun hends => absurd hends (Nat.lt_irrefl _)⟩
    · rcases tracked_counted htracked hqueue hidle with ⟨hcounted, path, hsend⟩
      have hafter := storeSatelliteInfo_after info now hidle
      rcases showPendingInfo_after now (counted world info rest).master with
        hopen | ⟨hcreated, hend⟩
      · simp only [step, hqueue, hafter.trans hopen]
        exact ⟨hcounted, fun hends => absurd hends (Nat.lt_irrefl _)⟩
      · simp only [step, hqueue, hafter.trans hend]
        have hall := distributed_of_created hsend hcreated
        exact ⟨Tracked.of_idle htracked.sound htracked.known hrest rfl, fun _ => hall⟩

theorem sendSatelliteInfo_master (world : World) :
    (sendSatelliteInfo world).master = world.master := by
  rcases sendSatelliteInfo_eq world with ⟨sent, heq, _⟩
  rw [heq]

theorem step_tracked {action : Action} (htracked : Tracked setup world)
    (hfresh : SendsFresh setup world action) :
    Tracked setup (step setup world action) ∧
      (Ends setup world action -> Distributed (step setup world action)) := by
  cases action with
  | syncSlave version tree now later => exact step_syncSlave htracked hfresh
  | deliverToMaster now => exact step_deliverToMaster htracked now
  | deliverToSlave disk =>
    unfold Ends
    cases hqueue : world.master.toSlave with
    | nil =>
      simp only [step, hqueue]
      exact ⟨htracked, fun hends => absurd hends (Nat.lt_irrefl _)⟩
    | cons command rest =>
      simp only [step, hqueue, sendSatelliteInfo_master]
      exact ⟨tracked_sendSatelliteInfo (tracked_handled htracked hqueue),
        fun hends => absurd hends (Nat.lt_irrefl _)⟩
  | checkForRegister masterKnown =>
    unfold Ends
    simp only [step, sendSatelliteInfo_master]
    exact ⟨tracked_sendSatelliteInfo (tracked_update htracked _ _),
      fun hends => absurd hends (Nat.lt_irrefl _)⟩

/-!
## Whole runs
-/

theorem tracked_initial (slaveIp : Bool) (files : Path -> Option Content)
    (directories : Text -> Bool) : Tracked setup (initial slaveIp files directories) := by
  apply Tracked.of_idle
  · intro path info hknown
    cases hknown
  · intro path hknown
    cases hknown
  · intro info hmem
    cases hmem
  · rfl

/--
In a run in which no request finds a report of its version for all its files on the
way, every send that ends has put all its files on the slave.
-/
theorem fresh_sends_distribute (setup : Setup) (slaveIp : Bool)
    (files : Path -> Option Content) (directories : Text -> Bool) (before : List Action)
    (action : Action) (rest : List Action)
    (hfresh : Along (step setup) (SendsFresh setup) (initial slaveIp files directories)
      (before ++ action :: rest))
    (hends : Ends setup (run (step setup) (initial slaveIp files directories) before) action) :
    Distributed (run (step setup) (initial slaveIp files directories)
      (before ++ [action])) := by
  rcases (along_append (step setup)).mp hfresh with ⟨hbefore, hlast⟩
  have hstep : forall world action, Tracked setup world -> SendsFresh setup world action ->
      Tracked setup (step setup world action) :=
    fun world action htracked hok => (step_tracked htracked hok).left
  have htracked := invariant_run (step setup) hstep
    (tracked_initial slaveIp files directories) hbefore
  rw [run_append]
  exact (step_tracked htracked hlast.left).right hends

instance (world : World) (action : Action) : Decidable (SendsFresh setup world action) :=
  match action with
  | .syncSlave _ _ _ _ => inferInstanceAs (Decidable (_ -> _ ∧ _))
  | .deliverToSlave _ => isTrue trivial
  | .deliverToMaster _ => isTrue trivial
  | .checkForRegister _ => isTrue trivial

instance (world : World) (action : Action) : Decidable (Ends setup world action) :=
  inferInstanceAs (Decidable (_ < _))

instance (world : World) : Decidable (Distributed world) :=
  inferInstanceAs (Decidable (forall file, file ∈ world.master.iteration -> _))

def standardSetup : Setup where
  etc := "/opt/cluster/md/etc".toList
  monTopDir := "/opt/cluster/md".toList

def hostsTree (byte : UInt8) : Tree where
  directories := [([], [("hosts.cfg".toList, [byte])])]
  nodup_rels := nodup_singleton _
  nodup_names := by
    intro directory hmem
    rw [mem_singleton.mp hmem]
    exact nodup_singleton _

def workingDisk : Disk where
  unlinkFails := fun _ => false
  makedirsFails := fun _ => false
  writeFails := fun _ => none

/-- The slave is empty and knows its master from the first report on. -/
def emptySlave : World := initial true (fun _ => none) (fun _ => false)

def fullSend (version : Int) (byte : UInt8) : List Action :=
  [.syncSlave version (hostsTree byte) 1400000000000001 1400000000000002,
    .deliverToSlave workingDisk, .deliverToSlave workingDisk,
    .deliverToMaster 1400000000000003]

/-- Two versions after each other, up to the report that ends the second send. -/
def newerVersion : List Action :=
  .checkForRegister true :: .deliverToMaster 1400000000000000 ::
    fullSend 1 65 ++ .deliverToMaster 1400000000000004 :: fullSend 2 66

theorem fresh_sends_distribute_newer :
    Along (step standardSetup) (SendsFresh standardSetup) emptySlave
        (newerVersion ++ [.deliverToMaster 1400000000000005]) ∧
      Ends standardSetup (run (step standardSetup) emptySlave newerVersion)
        (.deliverToMaster 1400000000000005) ∧
      Distributed (run (step standardSetup) emptySlave
        (newerVersion ++ [.deliverToMaster 1400000000000005])) := by
  have hfresh : Along (step standardSetup) (SendsFresh standardSetup) emptySlave
      (newerVersion ++ [.deliverToMaster 1400000000000005]) := by decide +kernel
  have hends : Ends standardSetup (run (step standardSetup) emptySlave newerVersion)
      (.deliverToMaster 1400000000000005) := by decide +kernel
  exact ⟨hfresh, hends, fresh_sends_distribute standardSetup true (fun _ => none)
    (fun _ => false) newerVersion _ [] hfresh hends⟩

/-- The same version twice, with a periodic report before the second request. -/
def sameVersion : List Action :=
  .checkForRegister true :: .deliverToMaster 1400000000000000 ::
    fullSend 1 65 ++ [.deliverToMaster 1400000000000004, .checkForRegister true,
      .syncSlave 1 (hostsTree 66) 1400000100000001 1400000100000002]

/-- The report from before the request ends the send; the slave has the old content. -/
theorem stale_report_ends_send :
    Ends standardSetup (run (step standardSetup) emptySlave sameVersion)
        (.deliverToMaster 1400000100000003) ∧
      ¬ Distributed (run (step standardSetup) emptySlave
        (sameVersion ++ [.deliverToMaster 1400000100000003])) := by
  constructor
  · decide +kernel
  · decide +kernel

end Icsw.MdSync
