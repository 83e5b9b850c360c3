import Icsw.Foundation.TextOrder
import Icsw.MdSync.Completion

/-!
# Putting the files of a send into commands

Files are collected until their size crosses a limit, and what has been collected is then sent off
on its own.  The size is never added up, though, and the method that sends what is complete is
missing: one command has all files, and a file that is above the limit by itself raises.
-/

namespace Icsw.MdSync

open Foundation List

/-- The directories below etc with their other entries, without content if not regular. -/
structure Walk where
  directories : List (Text × List (Text × Option Content))
  nodup_rels : (directories.map Prod.fst).Nodup
  nodup_names : forall directory, directory ∈ directories ->
    (directory.2.map Prod.fst).Nodup

/-- `sorted(file_names)` -/
def sortedEntries (entries : List (Text × Option Content)) : List (Text × Option Content) :=
  entries.insertionSort fun first second => textLe first.1 second.1 = true

variable (walk : Walk)

def Walk.entries : List (Path × Option Content) :=
  walk.directories.flatMap fun directory =>
    (sortedEntries directory.2).map fun entry =>
      ({ rel := directory.1, name := entry.1 }, entry.2)

/-- The local variables of the loop over the files. -/
structure Batch where
  numFiles : Nat
  sizeData : Nat
  sendList : List (Path × Content)
  sendSize : Nat

def Batch.empty : Batch := { numFiles := 0, sizeData := 0, sendList := [], sendSize := 0 }

/-- `self._send`: there is no such method. -/
def send (_ : Batch) : Program Master PUnit := throw .attributeError

def addFile (batch : Batch) (entry : Path × Option Content) : Program Master Batch := do
  match entry.2 with
  | none => pure batch
  | some content =>
    modify fun self => { self with
      fileDict := self.fileDict ++ [(entry.1, FileInfo.new self.configVersionSend)] }
    let batch := { batch with
      sizeData := batch.sizeData + content.length
      numFiles := batch.numFiles + 1 }
    if batch.sendSize + content.length > maxSendSize then
      send batch
      pure { batch with sendList := [(entry.1, content)], sendSize := 0 }
    else pure { batch with sendList := batch.sendList ++ [(entry.1, content)] }

variable (accepts : Text -> Bool)

/-- Texts that the XML library refuses raise. -/
def acceptTexts (texts : List Text) : Program Master PUnit :=
  check (if texts.all accepts then .ok () else .error .valueError)

variable (etc : Text)

def clearCommands (delDirs : List Text) :
    Program Master (List Command) := do
  if delDirs = [] then return []
  acceptTexts accepts (delDirs.map (directoryText etc))
  return [.clearDirectories delDirs]

def bulkCommands (sendList : List (Path × Content)) :
    Program Master (List Command) := do
  if sendList = [] then return []
  let self : Master <- get
  acceptTexts accepts (sendList.map fun file => file.1.text etc)
  return [buildFileContent self.configVersionSend sendList]

def Walk.getSendCommands (walk : Walk) :
    Program Master (List Command × Nat × Nat) := do
  let clear <- clearCommands accepts etc (walk.directories.map Prod.fst)
  modify fun self => { self with fileDict := [] }
  let batch <- walk.entries.foldlM addFile Batch.empty
  let bulk <- bulkCommands accepts etc batch.sendList
  return (clear ++ bulk, batch.numFiles, batch.sizeData)

def regular (entry : Path × Option Content) : Option (Path × Content) :=
  entry.2.map fun content => (entry.1, content)

def Walk.files : List (Path × Content) := walk.entries.filterMap regular

def sizeOf (files : List (Path × Content)) : Nat := (files.map fun file => file.2.length).sum

theorem sizeOf_cons (file : Path × Content) (rest : List (Path × Content)) :
    sizeOf (file :: rest) = file.2.length + sizeOf rest := by
  rw [sizeOf, map_cons, sum_cons]
  rfl

theorem sortedEntries_perm (entries : List (Text × Option Content)) :
    (sortedEntries entries).Perm entries :=
  perm_insertionSort _ entries

theorem sublist_filterMap_map {A B C : Type} {f : A -> Option B} {g : B -> C} {g' : A -> C}
    (h : forall x y, f x = some y -> g y = g' x) (xs : List A) :
    ((xs.filterMap f).map g).Sublist (xs.map g') := by
  induction xs with
  | nil => exact Sublist.slnil
  | cons x rest ih =>
    cases hx : f x with
    | none =>
      rw [filterMap_cons_none hx]
      exact ih.cons _
    | some y =>
      rw [filterMap_cons_some hx, map_cons, map_cons, h x y hx]
      exact ih.cons_cons _

theorem Walk.entries_nodup : (walk.entries.map Prod.fst).Nodup := by
  have hmap : walk.entries.map Prod.fst = walk.directories.flatMap fun directory =>
      ((sortedEntries directory.2).map Prod.fst).map fun name =>
        ({ rel := directory.1, name := name } : Path) := by
    simp only [Walk.entries, map_flatMap, map_map]
    rfl
  rw [hmap, nodup_flatMap]
  constructor
  · intro directory hmem
    apply Nodup.map fun _ _ heq => congrArg Path.name heq
    exact ((sortedEntries_perm directory.2).map Prod.fst).nodup_iff.mpr
      (walk.nodup_names directory hmem)
  · apply Pairwise.imp _ (pairwise_map.mp walk.nodup_rels)
    intro first second hne path hfirst hsecond
    rcases mem_map.mp hfirst with ⟨name, -, rfl⟩
    rcases mem_map.mp hsecond with ⟨other, -, heq⟩
    exact hne (congrArg Path.rel heq).symm

theorem Walk.files_nodup : (walk.files.map Prod.fst).Nodup := by
  refine (sublist_filterMap_map ?_ walk.entries).nodup walk.entries_nodup
  rintro ⟨path, content⟩ file hfile
  rcases Option.map_eq_some_iff.mp hfile with ⟨_, _, rfl⟩
  rfl

def large (file : Path × Content) : Bool := decide (file.2.length > maxSendSize)

def Master.enter (master : Master) (files : List (Path × Content)) : Master :=
  { master with
    fileDict := master.fileDict ++
      files.map fun file => (file.1, FileInfo.new master.configVersionSend) }

def Batch.add (batch : Batch) (files : List (Path × Content)) : Batch :=
  { batch with
    numFiles := batch.numFiles + files.length
    sizeData := batch.sizeData + sizeOf files
    sendList := batch.sendList ++ files }

theorem addFile_none (batch : Batch) (path : Path) (master : Master) :
    addFile batch (path, none) master = .ok batch master := rfl

theorem addFile_some {batch : Batch} (hsize : batch.sendSize = 0) (path : Path)
    (content : Content) (master : Master) :
    addFile batch (path, some content) master =
      if large (path, content) then .error .attributeError (master.enter [(path, content)])
      else .ok (batch.add [(path, content)]) (master.enter [(path, content)]) := by
  unfold addFile
  simp only [bind_apply, modify_apply, if_apply, send, throw_apply, pure_apply, hsize, zero_add]
  unfold large
  by_cases hlarge : content.length > maxSendSize
  · rw [if_pos hlarge, if_pos (decide_eq_true hlarge)]
    rfl
  · rw [if_neg hlarge, if_neg (fun h => hlarge (of_decide_eq_true h))]
    simp [Batch.add, Master.enter, sizeOf, hsize]

theorem Master.enter_enter (master : Master) (first second : List (Path × Content)) :
    (master.enter first).enter second = master.enter (first ++ second) := by
  simp [Master.enter]

theorem Batch.add_add (batch : Batch) (first second : List (Path × Content)) :
    (batch.add first).add second = batch.add (first ++ second) := by
  simp [Batch.add, sizeOf, Nat.add_assoc]

theorem foldlM_addFile (entries : List (Path × Option Content)) {batch : Batch}
    (hsize : batch.sendSize = 0) (master : Master) :
    (entries.foldlM addFile batch) master =
      if (entries.filterMap regular).any large then
        .error .attributeError (master.enter (entered (entries.filterMap regular)))
      else
        .ok (batch.add (entries.filterMap regular)) (master.enter (entries.filterMap regular)) := by
  induction entries generalizing batch master with
  | nil =>
    rw [foldlM_nil, filterMap_nil]
    simp [pure_apply, Batch.add, Master.enter, sizeOf]
  | cons entry rest ih =>
    rcases entry with ⟨path, content⟩
    rw [foldlM_cons, bind_apply]
    cases content with
    | none =>
      rw [addFile_none, filterMap_cons_none rfl]
      exact ih hsize master
    | some content =>
      have hcons : filterMap regular ((path, some content) :: rest) =
          (path, content) :: rest.filterMap regular := filterMap_cons_some rfl
      rw [addFile_some hsize, hcons, any_cons, entered]
      cases hlarge : large (path, content) with
      | true =>
        have hlength : content.length > maxSendSize := of_decide_eq_true hlarge
        rw [if_pos rfl, Bool.true_or, if_pos rfl, if_pos hlength]
      | false =>
        have hlength : ¬ content.length > maxSendSize := of_decide_eq_false hlarge
        rw [if_neg Bool.false_ne_true, Bool.false_or, if_neg hlength]
        show (rest.foldlM addFile (batch.add [(path, content)]))
          (master.enter [(path, content)]) = _
        have hadded : (batch.add [(path, content)]).sendSize = 0 := hsize
        rw [ih hadded, Master.enter_enter, Master.enter_enter, Batch.add_add]
        rfl

def Command.files : Command -> List (Path × Content)
  | .clearDirectories _ => []
  | .fileContentBulk _ fileList bulk => splitBulk fileList bulk

/-- The commands carry each file once, and none carries too much unless it is a single file. -/
structure Carries (commands : List Command) (files : List (Path × Content)) : Prop where
  perm : (commands.flatMap Command.files).Perm files
  once : ((commands.flatMap Command.files).map Prod.fst).Nodup
  bounded : forall command, command ∈ commands ->
    sizeOf command.files ≤ maxSendSize ∨ command.files.length = 1

/-- A send returns commands that carry all files, with their number and size. -/
def AllSent (walk : Walk) (master : Master) : Prop :=
  exists commands after,
    walk.getSendCommands accepts etc master =
        .ok (commands, walk.files.length, sizeOf walk.files) after ∧
      Carries commands walk.files

/-- The XML library takes the names of the directories and files. -/
def Walk.Accepted (walk : Walk) : Prop :=
  (forall directory, directory ∈ walk.directories ->
      accepts (directoryText etc directory.1) = true) ∧
    forall file, file ∈ walk.files -> accepts (file.1.text etc) = true

theorem acceptTexts_apply (texts : List Text) (master : Master) :
    acceptTexts accepts texts master =
      if texts.all accepts then .ok ⟨⟩ master else .error .valueError master := by
  unfold acceptTexts
  cases texts.all accepts with
  | true => rfl
  | false => rfl

theorem clearCommands_apply (delDirs : List Text) (master : Master) :
    clearCommands accepts etc delDirs master =
      if (delDirs.map (directoryText etc)).all accepts then
        .ok (if delDirs = [] then [] else [.clearDirectories delDirs]) master
      else .error .valueError master := by
  unfold clearCommands
  by_cases hnone : delDirs = []
  · subst hnone
    rfl
  · simp only [if_neg hnone, bind_apply, acceptTexts_apply]
    cases (delDirs.map (directoryText etc)).all accepts with
    | true => rfl
    | false => rfl

theorem bulkCommands_apply (sendList : List (Path × Content)) (master : Master) :
    bulkCommands accepts etc sendList master =
      if (sendList.map fun file => file.1.text etc).all accepts then
        .ok (if sendList = [] then [] else [buildFileContent master.configVersionSend sendList])
          master
      else .error .valueError master := by
  unfold bulkCommands
  by_cases hnone : sendList = []
  · subst hnone
    rfl
  · simp only [if_neg hnone, bind_apply, get_apply, acceptTexts_apply]
    cases (sendList.map fun file => file.1.text etc).all accepts with
    | true => rfl
    | false => rfl

theorem Batch.add_empty (files : List (Path × Content)) :
    Batch.empty.add files = ⟨files.length, sizeOf files, files, 0⟩ := by
  simp [Batch.empty, Batch.add]

/-- The commands of a send that goes through. -/
def Walk.commands (version : Int) : List Command :=
  (if walk.directories.map Prod.fst = [] then []
    else [.clearDirectories (walk.directories.map Prod.fst)]) ++
  (if walk.files = [] then [] else [buildFileContent version walk.files])

theorem Walk.getSendCommands_apply (walk : Walk) (master : Master) :
    walk.getSendCommands accepts etc master =
      if ((walk.directories.map Prod.fst).map (directoryText etc)).all accepts then
        if walk.files.any large then
          .error .attributeError ({ master with fileDict := [] }.enter (entered walk.files))
        else if (walk.files.map fun file => file.1.text etc).all accepts then
          .ok (walk.commands master.configVersionSend, walk.files.length, sizeOf walk.files)
            ({ master with fileDict := [] }.enter walk.files)
        else .error .valueError ({ master with fileDict := [] }.enter walk.files)
      else .error .valueError master := by
  have hloop := @foldlM_addFile walk.entries Batch.empty rfl { master with fileDict := [] }
  have hfiles : walk.entries.filterMap regular = walk.files := rfl
  rw [hfiles, Batch.add_empty] at hloop
  unfold Walk.getSendCommands
  simp only [bind_apply, clearCommands_apply, modify_apply]
  cases ((walk.directories.map Prod.fst).map (directoryText etc)).all accepts with
  | false => rfl
  | true =>
    simp only [if_true, hloop]
    cases walk.files.any large with
    | true => rfl
    | false =>
      simp only [if_neg Bool.false_ne_true, bulkCommands_apply]
      cases (walk.files.map fun file => file.1.text etc).all accepts with
      | true => rfl
      | false => rfl

def regularFiles (entries : List (Text × Option Content)) : List (Text × Content) :=
  (sortedEntries entries).filterMap fun entry => entry.2.map fun content => (entry.1, content)

theorem regularFiles_nodup {entries : List (Text × Option Content)}
    (h : (entries.map Prod.fst).Nodup) : ((regularFiles entries).map Prod.fst).Nodup := by
  have hsorted : ((sortedEntries entries).map Prod.fst).Nodup :=
    ((sortedEntries_perm entries).map Prod.fst).nodup_iff.mpr h
  refine (sublist_filterMap_map ?_ (sortedEntries entries)).nodup hsorted
  rintro ⟨name, content⟩ file hfile
  rcases Option.map_eq_some_iff.mp hfile with ⟨_, _, rfl⟩
  rfl

def Walk.tree : Tree where
  directories := walk.directories.map fun directory => (directory.1, regularFiles directory.2)
  nodup_rels := by
    rw [map_map]
    exact walk.nodup_rels
  nodup_names directory hmem := by
    rcases mem_map.mp hmem with ⟨walked, hwalked, rfl⟩
    exact regularFiles_nodup (walk.nodup_names walked hwalked)

theorem Walk.tree_rels : walk.tree.directories.map Prod.fst = walk.directories.map Prod.fst := by
  rw [Walk.tree, map_map]
  rfl

theorem Walk.tree_files : walk.tree.files = walk.files := by
  unfold Tree.files Walk.tree Walk.files Walk.entries
  rw [filterMap_flatMap, flatMap_map]
  congr 1
  funext directory
  rw [regularFiles, map_filterMap, filterMap_map]
  congr 1
  funext entry
  simp [regular, Option.map_map, Function.comp_def]

variable {accepts : Text -> Bool} {walk : Walk} {etc : Text}

section

variable (h : walk.Accepted accepts etc)
include h

theorem Walk.Accepted.directories :
    ((walk.directories.map Prod.fst).map (directoryText etc)).all accepts = true := by
  rw [map_map, all_map, all_eq_true]
  exact h.left

theorem Walk.Accepted.files :
    (walk.files.map fun file => file.1.text etc).all accepts = true := by
  rw [all_map, all_eq_true]
  exact h.right

/-- Where nothing is refused, the loop over the directories sends what the tree of a send has. -/
theorem Walk.getSendCommands_tree :
    walk.getSendCommands accepts etc = MdSync.getSendCommands walk.tree := by
  funext master
  rw [Walk.getSendCommands_apply, if_pos h.directories, if_pos h.files]
  have hlarge : walk.files.any large =
      walk.files.any fun file => decide (file.2.length > maxSendSize) := rfl
  have hnil : walk.tree.directories = [] <-> walk.directories.map Prod.fst = [] := by
    rw [Walk.tree, map_eq_nil_iff, map_eq_nil_iff]
  unfold MdSync.getSendCommands
  simp only [bind_apply, get_apply, set_apply, if_apply, throw_apply, pure_apply,
    Walk.tree_files, Walk.tree_rels, hnil, hlarge]
  split
  · rfl
  · next hnone =>
      rw [entered_eq_self (eq_false_of_ne_true hnone)]
      rfl

end

theorem Walk.commands_files (walk : Walk) (version : Int) :
    (walk.commands version).flatMap Command.files = walk.files := by
  have hbulk : (if walk.files = [] then []
      else [buildFileContent version walk.files]).flatMap Command.files = walk.files := by
    by_cases hnone : walk.files = []
    · rw [if_pos hnone, hnone]
      rfl
    · rw [if_neg hnone, flatMap_singleton]
      exact splitBulk_build walk.files
  unfold Walk.commands
  rw [flatMap_append, hbulk]
  split
  · rfl
  · rfl

theorem le_sizeOf {files : List (Path × Content)} {file : Path × Content} (h : file ∈ files) :
    file.2.length ≤ sizeOf files := by
  induction files with
  | nil => cases h
  | cons first rest ih =>
    rw [sizeOf_cons]
    rcases mem_cons.mp h with rfl | hrest
    · exact Nat.le_add_right _ _
    · exact (ih hrest).trans (Nat.le_add_left _ _)

theorem none_large_of_size {files : List (Path × Content)} (h : sizeOf files ≤ maxSendSize) :
    files.any large = false := by
  rw [any_eq_false]
  intro file hfile hlarge
  exact absurd (of_decide_eq_true hlarge) (not_lt.mpr ((le_sizeOf hfile).trans h))

theorem Walk.carries (h : sizeOf walk.files ≤ maxSendSize) (version : Int) :
    Carries (walk.commands version) walk.files := by
  have hfiles := walk.commands_files version
  refine ⟨hfiles ▸ Perm.refl _, ?_, ?_⟩
  · rw [hfiles]
    exact walk.files_nodup
  · intro command hcommand
    left
    rcases mem_append.mp hcommand with hclear | hbulk
    · split at hclear
      · cases hclear
      · cases mem_singleton.mp hclear
        exact Nat.zero_le _
    · split at hbulk
      · cases hbulk
      · cases mem_singleton.mp hbulk
        show sizeOf (splitBulk _ _) ≤ maxSendSize
        rw [splitBulk_build]
        exact h

theorem size_of_carries {version : Int} (hsmall : walk.files.any large = false)
    (h : Carries (walk.commands version) walk.files) : sizeOf walk.files ≤ maxSendSize := by
  by_cases hnone : walk.files = []
  · rw [hnone]
    exact Nat.zero_le _
  · have hmem : buildFileContent version walk.files ∈ walk.commands version := by
      unfold Walk.commands
      rw [if_neg hnone]
      exact mem_append_right _ mem_cons_self
    have hcarried : (buildFileContent version walk.files).files = walk.files :=
      splitBulk_build walk.files
    have hbounded := h.bounded _ hmem
    rw [hcarried] at hbounded
    rcases hbounded with hsize | hsingle
    · exact hsize
    · rcases length_eq_one_iff.mp hsingle with ⟨file, hfile⟩
      rw [hfile, any_cons, any_nil, Bool.or_false] at hsmall
      rw [hfile, sizeOf_cons]
      exact not_lt.mp (of_decide_eq_false hsmall)

theorem AllSent.fits {master : Master} (h : AllSent accepts etc walk master) :
    walk.Accepted accepts etc ∧ sizeOf walk.files ≤ maxSendSize := by
  rcases h with ⟨commands, after, hsent, hcarries⟩
  rw [Walk.getSendCommands_apply] at hsent
  split at hsent
  · next hdirectories =>
      split at hsent
      · cases hsent
      · next hsmall =>
          split at hsent
          · next hnames =>
              cases hsent
              refine ⟨⟨?_, ?_⟩, size_of_carries (eq_false_of_ne_true hsmall) hcarries⟩
              · rw [map_map, all_map, all_eq_true] at hdirectories
                exact hdirectories
              · rw [all_map, all_eq_true] at hnames
                exact hnames
          · cases hsent
  · cases hsent

/-- All files are sent exactly where they fit into one command. -/
theorem allSent_iff (accepts : Text -> Bool) (etc : Text) (walk : Walk) (master : Master) :
    AllSent accepts etc walk master <->
      walk.Accepted accepts etc ∧ sizeOf walk.files ≤ maxSendSize := by
  constructor
  · exact AllSent.fits
  · rintro ⟨haccepted, hsize⟩
    refine ⟨walk.commands master.configVersionSend,
      { master with fileDict := [] }.enter walk.files, ?_,
      Walk.carries hsize master.configVersionSend⟩
    rw [Walk.getSendCommands_apply, if_pos haccepted.directories, none_large_of_size hsize,
      if_neg Bool.false_ne_true, if_pos haccepted.files]

def zeros (size : Nat) : Content := replicate size 0

theorem sizeOf_zeros (path : Path) (size : Nat) (rest : List (Path × Content)) :
    sizeOf ((path, zeros size) :: rest) = size + sizeOf rest := by
  have hlength : (zeros size).length = size := length_replicate
  rw [sizeOf_cons, hlength]

def etcWith (sizes : List (Text × Nat)) (hnames : (sizes.map Prod.fst).Nodup) : Walk where
  directories := [([], sizes.map fun file => (file.1, some (zeros file.2)))]
  nodup_rels := nodup_singleton _
  nodup_names directory hmem := by
    rw [mem_singleton.mp hmem, map_map]
    exact hnames

theorem etcWith_sent_as_tree :
    (etcWith [(['a'], 3)] (by decide)).getSendCommands (fun _ => true) [] =
      MdSync.getSendCommands (etcWith [(['a'], 3)] (by decide)).tree :=
  Walk.getSendCommands_tree ⟨fun _ _ => rfl, fun _ _ => rfl⟩

/-- A file above the limit raises, and two below it go together though they exceed it. -/
theorem etc_not_sent :
    ¬ AllSent (fun _ => true) ['e'] (etcWith [(['a'], 70000)] (by decide))
        (initial true (fun _ => none) fun _ => false).master ∧
      ¬ AllSent (fun _ => true) ['e'] (etcWith [(['a'], 40000), (['b'], 40000)] (by decide))
        (initial true (fun _ => none) fun _ => false).master := by
  constructor
  · intro h
    have hfiles : (etcWith [(['a'], 70000)] (by decide)).files = [(⟨[], ['a']⟩, zeros 70000)] := rfl
    have hsize := h.fits.right
    rw [hfiles, sizeOf_zeros, maxSendSize] at hsize
    omega
  · intro h
    have hfiles : (etcWith [(['a'], 40000), (['b'], 40000)] (by decide)).files =
        [(⟨[], ['a']⟩, zeros 40000), (⟨[], ['b']⟩, zeros 40000)] := rfl
    have hsize := h.fits.right
    rw [hfiles, sizeOf_zeros, sizeOf_zeros, maxSendSize] at hsize
    omega

end Icsw.MdSync
