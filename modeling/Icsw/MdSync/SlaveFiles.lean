import Icsw.MdSync.Model

/-!
# Files of the slave

What the slave knows about a file changes only through a message that names it.
After the directories of a send have been cleared, the files of that send are
written again, or known not to be.
-/

namespace Icsw.MdSync

open Foundation List

def reports (info : StoreInfo) (version : Int) (path : Path) : Bool :=
  match info path with
  | some remote => remote.created && remote.targetVersion == version
  | none => false

theorem reports_iff {info : StoreInfo} {version : Int} {path : Path} :
    reports info version path = true <->
      exists remote, info path = some remote ∧ remote.created = true ∧
        remote.targetVersion = version := by
  unfold reports
  cases info path with
  | none => simp
  | some remote => simp

def carries (version : Int) (path : Path) : Command -> Bool
  | .clearDirectories _ => false
  | .fileContentBulk sent fileList _ =>
    sent == version && fileList.any (fun entry => entry.1 == path)

def Slave.Sound (slave : Slave) : Prop :=
  forall path info, slave.fileDict path = some info -> info.created = true ->
    (slave.files path).isSome = true ∧ slave.directories path.rel = true

/-- A report names only files that the slave stores. -/
def StoreInfo.Inside (setup : Setup) (info : StoreInfo) : Prop :=
  forall path, (info path).isSome = true -> setup.inside (path.text setup.etc) = true

def Slave.NotCreated (slave : Slave) (path : Path) : Prop :=
  forall info, slave.fileDict path = some info -> info.created = false

def Slave.Holds (slave : Slave) (version : Int) (file : Path × Content) : Prop :=
  exists info, slave.fileDict file.1 = some info ∧ info.targetVersion = version ∧
    (info.created = true -> slave.files file.1 = some file.2)

variable {setup : Setup} {disk : Disk}

theorem clearDir_fileDict (slave : Slave) (rel : Text) (path : Path) :
    (clearDir setup disk slave rel).fileDict path = none ∨
      (clearDir setup disk slave rel).fileDict path = slave.fileDict path := by
  unfold clearDir
  split_ifs with hdir
  · by_cases hlisted : path.rel = rel ∧ (slave.files path).isSome
    · left
      simp only [if_pos hlisted]
    · right
      simp only [if_neg hlisted]
  · exact .inr rfl

theorem clearDir_sound {slave : Slave} (hsound : slave.Sound) (rel : Text) :
    (clearDir setup disk slave rel).Sound := by
  unfold clearDir
  split_ifs with hdir
  · intro path info hinfo hcreated
    simp only at hinfo
    by_cases hlisted : path.rel = rel ∧ (slave.files path).isSome
    · rw [if_pos hlisted] at hinfo
      cases hinfo
    · rw [if_neg hlisted] at hinfo
      have hkept := hsound path info hinfo hcreated
      have hrel : path.rel ≠ rel := fun heq => hlisted ⟨heq, hkept.left⟩
      simp only [hrel, false_and, if_false]
      exact hkept
  · exact hsound

theorem clearDir_notCreated {slave : Slave} {path : Path} (hnot : slave.NotCreated path)
    (rel : Text) : (clearDir setup disk slave rel).NotCreated path := by
  intro info hinfo
  rcases @clearDir_fileDict setup disk slave rel path with hnone | hkept
  · rw [hnone] at hinfo
    cases hinfo
  · rw [hkept] at hinfo
    exact hnot info hinfo

theorem clearDir_clears {slave : Slave} (hsound : slave.Sound) {path : Path}
    (hinside : setup.inside (directoryText setup.etc path.rel) = true) :
    (clearDir setup disk slave path.rel).NotCreated path := by
  intro info hinfo
  by_contra hcreated
  rw [Bool.not_eq_false] at hcreated
  have hdisk : slave.fileDict path = some info -> (slave.files path).isSome = true ∧
      slave.directories path.rel = true := fun hknown => hsound path info hknown hcreated
  unfold clearDir at hinfo
  split_ifs at hinfo with hdir
  · simp only at hinfo
    split_ifs at hinfo with hlisted
    exact hlisted ⟨trivial, (hdisk hinfo).left⟩
  · simp [hinside, (hdisk hinfo).right] at hdir

theorem clearDir_inside {slave : Slave} (hinside : StoreInfo.Inside setup slave.fileDict)
    (rel : Text) : StoreInfo.Inside setup (clearDir setup disk slave rel).fileDict := by
  intro path hknown
  rcases @clearDir_fileDict setup disk slave rel path with hnone | hkept
  · rw [hnone] at hknown
    cases hknown
  · exact hinside path (hkept ▸ hknown)

theorem clearDirectories_sound (rels : List Text) {slave : Slave} (hsound : slave.Sound) :
    (rels.foldl (clearDir setup disk) slave).Sound :=
  foldlRecOn rels _ hsound fun _ h rel _ => clearDir_sound h rel

theorem clearDirectories_notCreated (rels : List Text) {slave : Slave} {path : Path}
    (hnot : slave.NotCreated path) :
    (rels.foldl (clearDir setup disk) slave).NotCreated path :=
  foldlRecOn (motive := fun slave : Slave => slave.NotCreated path) rels _ hnot
    fun _ h rel _ => clearDir_notCreated h rel

theorem clearDirectories_clears {rels : List Text} {slave : Slave} (hsound : slave.Sound)
    {path : Path} (hmem : path.rel ∈ rels)
    (hinside : setup.inside (directoryText setup.etc path.rel) = true) :
    (rels.foldl (clearDir setup disk) slave).NotCreated path := by
  induction rels generalizing slave with
  | nil => cases hmem
  | cons rel rest ih =>
    rcases mem_cons.mp hmem with heq | hrest
    · rw [foldl_cons, ← heq]
      exact clearDirectories_notCreated rest (clearDir_clears hsound hinside)
    · exact ih (clearDir_sound hsound rel) hrest

theorem clearDirectories_reports (rels : List Text) {slave : Slave} {version : Int}
    {path : Path} (hnot : reports slave.fileDict version path = false) :
    reports (rels.foldl (clearDir setup disk) slave).fileDict version path = false := by
  induction rels generalizing slave with
  | nil => exact hnot
  | cons rel rest ih =>
    apply ih
    rcases @clearDir_fileDict setup disk slave rel path with hnone | hkept
    · simp [reports, hnone]
    · unfold reports at *
      rw [hkept]
      exact hnot

theorem checkVersion_version (slave : Slave) (path : Path) (version : Int) :
    (checkVersion slave path version).2.targetVersion = version := by
  unfold checkVersion
  cases slave.fileDict path with
  | none => rfl
  | some info =>
    simp only [FileInfo.compare]
    split_ifs with hsame
    · exact hsame.symm
    · rfl

theorem checkVersion_renewed {slave : Slave} {path : Path} {version : Int}
    (hrenew : (checkVersion slave path version).1 = true) :
    (checkVersion slave path version).2.created = false := by
  unfold checkVersion at *
  cases hinfo : slave.fileDict path with
  | none => rfl
  | some info =>
    rw [hinfo] at hrenew
    simp only [FileInfo.compare] at *
    split_ifs at * with hsame
    rfl

theorem checkVersion_kept {slave : Slave} {path : Path} {version : Int}
    (hkept : (checkVersion slave path version).1 = false) :
    slave.fileDict path = some (checkVersion slave path version).2 := by
  unfold checkVersion at *
  cases hinfo : slave.fileDict path with
  | none =>
    rw [hinfo] at hkept
    cases hkept
  | some info =>
    rw [hinfo] at hkept
    simp only [FileInfo.compare] at *
    split_ifs at * with hsame
    rfl

theorem storeFile_cases (version : Int) (slave : Slave) (file : Path × Content) :
    (setup.inside (file.1.text setup.etc) = false ∧
      storeFile setup disk version slave file = slave) ∨
    (setup.inside (file.1.text setup.etc) = true ∧
      exists info files, (storeFile setup disk version slave file).fileDict =
          Function.update slave.fileDict file.1 (some info) ∧
        (storeFile setup disk version slave file).files =
          Function.update slave.files file.1 files ∧
        (forall rel, slave.directories rel = true ->
          (storeFile setup disk version slave file).directories rel = true) ∧
        info.targetVersion = version ∧
        ((slave.fileDict file.1 = some info ∧ files = slave.files file.1) ∨
          info.created = false ∨
          (files = some file.2 ∧
            (storeFile setup disk version slave file).directories file.1.rel = true))) := by
  by_cases hinside : setup.inside (file.1.text setup.etc) = true
  · right
    refine ⟨hinside, ?_⟩
    have hversion := checkVersion_version slave file.1 version
    have hrenewed := @checkVersion_renewed slave file.1 version
    have hkept := @checkVersion_kept slave file.1 version
    simp only [storeFile, if_pos hinside]
    rcases hcheck : checkVersion slave file.1 version with ⟨renew, info⟩
    rw [hcheck] at hversion hrenewed hkept
    cases renew with
    | false =>
      refine ⟨info, slave.files file.1, rfl, ?_, fun _ h => h, hversion, .inl ⟨hkept rfl, rfl⟩⟩
      exact (Function.update_eq_self file.1 slave.files).symm
    | true =>
      have hnot := hrenewed rfl
      simp only
      -- The directory is there, or has been made, or could not be made.
      generalize hmade : (if (slave.setInfo file.1 info).directories file.1.rel ||
          disk.makedirsFails file.1.rel then slave.setInfo file.1 info
        else { slave.setInfo file.1 info with
          directories := makedirs (slave.setInfo file.1 info).directories file.1.rel }) = made
      have hmono : made.fileDict = (slave.setInfo file.1 info).fileDict ∧
          made.files = slave.files ∧
          forall rel, slave.directories rel = true -> made.directories rel = true := by
        rw [← hmade]
        split_ifs
        · exact ⟨rfl, rfl, fun _ h => h⟩
        · refine ⟨rfl, rfl, fun rel hrel => ?_⟩
          show (slave.directories rel || _ || _ || _) = true
          simp [hrel]
      rcases hmono with ⟨hdict, hfiles, hdirs⟩
      split_ifs with hexists
      · cases hwrite : disk.writeFails file.1 with
        | some failure =>
          refine ⟨info.logError failure.1, failure.2, ?_, ?_, hdirs, hversion, .inr (.inl rfl)⟩
          · simp [Slave.setInfo, hdict]
          · simp [hfiles]
        | none =>
          refine ⟨info.logSuccess, some file.2, ?_, ?_, hdirs, hversion,
            .inr (.inr ⟨rfl, hexists⟩)⟩
          · simp [Slave.setInfo, hdict]
          · simp [hfiles]
      · refine ⟨info, slave.files file.1, hdict, ?_, hdirs, hversion, .inr (.inl hnot)⟩
        rw [hfiles, Function.update_eq_self]
  · left
    rw [Bool.not_eq_true] at hinside
    refine ⟨hinside, ?_⟩
    simp [storeFile, hinside]

theorem storeFile_other {version : Int} {slave : Slave} {file : Path × Content} {path : Path}
    (hne : path ≠ file.1) :
    (storeFile setup disk version slave file).fileDict path = slave.fileDict path ∧
      (storeFile setup disk version slave file).files path = slave.files path := by
  rcases @storeFile_cases setup disk version slave file with
    ⟨-, hsame⟩ | ⟨-, info, files, hdict, hfiles, -⟩
  · rw [hsame]
    exact ⟨rfl, rfl⟩
  · rw [hdict, hfiles, Function.update_of_ne hne, Function.update_of_ne hne]
    exact ⟨rfl, rfl⟩

theorem storeFile_sound {slave : Slave} (hsound : slave.Sound) (version : Int)
    (file : Path × Content) : (storeFile setup disk version slave file).Sound := by
  rcases @storeFile_cases setup disk version slave file with
    ⟨-, hsame⟩ | ⟨-, info, files, hdict, hfiles, hdirs, -, hnew⟩
  · rw [hsame]
    exact hsound
  · intro path other hother hcreated
    by_cases hpath : path = file.1
    · subst hpath
      rw [hdict, Function.update_self] at hother
      cases hother
      rw [hfiles, Function.update_self]
      rcases hnew with ⟨hknown, hkept⟩ | hnot | ⟨hwritten, hdir⟩
      · have hold := hsound file.1 info hknown hcreated
        exact ⟨hkept ▸ hold.left, hdirs _ hold.right⟩
      · rw [hnot] at hcreated
        cases hcreated
      · exact ⟨by rw [hwritten]; rfl, hdir⟩
    · rw [(storeFile_other hpath).left] at hother
      have hold := hsound path other hother hcreated
      rw [(storeFile_other hpath).right]
      exact ⟨hold.left, hdirs _ hold.right⟩

theorem storeFile_inside {slave : Slave} (hinside : StoreInfo.Inside setup slave.fileDict)
    (version : Int) (file : Path × Content) :
    StoreInfo.Inside setup (storeFile setup disk version slave file).fileDict := by
  intro path hknown
  rcases @storeFile_cases setup disk version slave file with
    ⟨-, hsame⟩ | ⟨hin, -⟩
  · rw [hsame] at hknown
    exact hinside path hknown
  · by_cases hpath : path = file.1
    · rw [hpath]
      exact hin
    · rw [(storeFile_other hpath).left] at hknown
      exact hinside path hknown

theorem storeFile_holds {slave : Slave} {file : Path × Content} (version : Int)
    (hinside : setup.inside (file.1.text setup.etc) = true) (hnot : slave.NotCreated file.1) :
    (storeFile setup disk version slave file).Holds version file := by
  rcases @storeFile_cases setup disk version slave file with
    ⟨houtside, -⟩ | ⟨-, info, files, hdict, hfiles, -, hversion, hnew⟩
  · rw [hinside] at houtside
    cases houtside
  · refine ⟨info, by rw [hdict, Function.update_self], hversion, ?_⟩
    intro hcreated
    rw [hfiles, Function.update_self]
    rcases hnew with ⟨hknown, -⟩ | hfalse | ⟨hwritten, -⟩
    · rw [hnot info hknown] at hcreated
      cases hcreated
    · rw [hfalse] at hcreated
      cases hcreated
    · exact hwritten

variable {sent version : Int}

theorem storeFile_reports {slave : Slave} {file : Path × Content}
    {path : Path} (hother : sent = version -> path ≠ file.1)
    (hnot : reports slave.fileDict version path = false) :
    reports (storeFile setup disk sent slave file).fileDict version path = false := by
  by_cases hpath : path = file.1
  · subst hpath
    rcases @storeFile_cases setup disk sent slave file with
      ⟨-, hsame⟩ | ⟨-, info, files, hdict, -, -, hversion, -⟩
    · rw [hsame]
      exact hnot
    · have hne : ¬ info.targetVersion = version := by
        intro heq
        exact hother (hversion.symm.trans heq) rfl
      simp [reports, hdict, hne]
  · unfold reports at *
    rw [(storeFile_other hpath).left]
    exact hnot

theorem storeFiles_sound (files : List (Path × Content)) {slave : Slave}
    (hsound : slave.Sound) (version : Int) :
    (files.foldl (storeFile setup disk version) slave).Sound :=
  foldlRecOn files _ hsound fun _ h file _ => storeFile_sound h version file

variable {files : List (Path × Content)}

theorem storeFiles_other {slave : Slave} {version : Int}
    {path : Path} (hnot : path ∉ files.map Prod.fst) :
    (files.foldl (storeFile setup disk version) slave).fileDict path = slave.fileDict path ∧
      (files.foldl (storeFile setup disk version) slave).files path = slave.files path := by
  induction files generalizing slave with
  | nil => exact ⟨rfl, rfl⟩
  | cons file rest ih =>
    rw [map_cons, mem_cons, not_or] at hnot
    have hfirst := @storeFile_other setup disk version slave file path hnot.left
    have hrest := @ih (storeFile setup disk version slave file) hnot.right
    exact ⟨hrest.left.trans hfirst.left, hrest.right.trans hfirst.right⟩

theorem storeFiles_reports {slave : Slave} {path : Path}
    (hother : sent = version -> path ∉ files.map Prod.fst)
    (hnot : reports slave.fileDict version path = false) :
    reports (files.foldl (storeFile setup disk sent) slave).fileDict version path = false := by
  induction files generalizing slave with
  | nil => exact hnot
  | cons file rest ih =>
    apply ih
    · intro heq hmem
      exact hother heq (mem_cons_of_mem _ hmem)
    · apply storeFile_reports _ hnot
      intro heq hsame
      exact hother heq (hsame ▸ mem_cons_self)

theorem storeFiles_holds {slave : Slave} {version : Int} (hnodup : (files.map Prod.fst).Nodup)
    (hnot : forall file, file ∈ files -> setup.inside (file.1.text setup.etc) = true ->
      slave.NotCreated file.1) {file : Path × Content} (hmem : file ∈ files)
    (hinside : setup.inside (file.1.text setup.etc) = true) :
    (files.foldl (storeFile setup disk version) slave).Holds version file := by
  induction files generalizing slave with
  | nil => cases hmem
  | cons first rest ih =>
    rw [map_cons, nodup_cons] at hnodup
    rcases mem_cons.mp hmem with heq | hrest
    · subst heq
      have hfirst := @storeFile_holds setup disk slave file version hinside
        (hnot file mem_cons_self hinside)
      have hkept := @storeFiles_other setup disk rest
        (storeFile setup disk version slave file) version file.1 hnodup.left
      unfold Slave.Holds at *
      rw [foldl_cons, hkept.left, hkept.right]
      exact hfirst
    · apply ih hnodup.right _ hrest
      intro other hother hin info hinfo
      have hne : other.1 ≠ first.1 := by
        intro heq
        exact hnodup.left (heq ▸ mem_map_of_mem hother)
      rw [(storeFile_other hne).left] at hinfo
      exact hnot other (mem_cons_of_mem _ hother) hin info hinfo

theorem splitBulk_build (files : List (Path × Content)) :
    splitBulk (files.map (fun file => (file.1, file.2.length))) (files.flatMap Prod.snd) =
      files := by
  induction files with
  | nil => rfl
  | cons file rest ih =>
    simp only [map_cons, flatMap_cons, splitBulk, take_left, drop_left, ih]

theorem handleDirect_build (slave : Slave) (version : Int) (files : List (Path × Content)) :
    handleDirect setup disk slave (buildFileContent version files) =
      files.foldl (storeFile setup disk version) slave := by
  simp only [handleDirect, buildFileContent, splitBulk_build]

theorem splitBulk_fst (fileList : List (Path × Nat)) (bulk : Content) :
    (splitBulk fileList bulk).map Prod.fst = fileList.map Prod.fst := by
  induction fileList generalizing bulk with
  | nil => rfl
  | cons entry rest ih => simp [splitBulk, ih]

theorem handleDirect_sound {slave : Slave} (hsound : slave.Sound) (command : Command) :
    (handleDirect setup disk slave command).Sound := by
  cases command with
  | clearDirectories rels => exact clearDirectories_sound rels hsound
  | fileContentBulk version fileList bulk => exact storeFiles_sound _ hsound version

theorem handleDirect_inside {slave : Slave} (hinside : StoreInfo.Inside setup slave.fileDict)
    (command : Command) :
    StoreInfo.Inside setup (handleDirect setup disk slave command).fileDict := by
  cases command with
  | clearDirectories rels =>
    exact foldlRecOn (motive := fun slave : Slave => StoreInfo.Inside setup slave.fileDict)
      rels _ hinside fun _ h rel _ => clearDir_inside h rel
  | fileContentBulk version fileList bulk =>
    exact foldlRecOn (motive := fun slave : Slave => StoreInfo.Inside setup slave.fileDict)
      _ _ hinside fun _ h file _ => storeFile_inside h version file

theorem handleDirect_reports {slave : Slave} {command : Command} {version : Int} {path : Path}
    (hcarries : carries version path command = false)
    (hnot : reports slave.fileDict version path = false) :
    reports (handleDirect setup disk slave command).fileDict version path = false := by
  cases command with
  | clearDirectories rels => exact clearDirectories_reports rels hnot
  | fileContentBulk sent fileList bulk =>
    apply storeFiles_reports _ hnot
    intro heq hmem
    rw [splitBulk_fst] at hmem
    rcases mem_map.mp hmem with ⟨entry, hentry, hpath⟩
    have hcarried : carries version path (.fileContentBulk sent fileList bulk) = true := by
      simp only [carries, heq, beq_self_eq_true, Bool.true_and, any_eq_true, beq_iff_eq]
      exact ⟨entry, hentry, hpath⟩
    rw [hcarries] at hcarried
    cases hcarried

end Icsw.MdSync
