import Icsw.Foundation.Dict
import Icsw.Foundation.Python
import Mathlib.Algebra.GroupWithZero.Nat
import Mathlib.Data.List.Infix

/-!
# Partition setup

From the partitions of a table the config server generates the commands for `parted`, the
input of `sfdisk` and the lines of `fstab`, in one loop over the partitions of all discs.
-/

namespace Icsw.ConfigServer

open Foundation List

structure Partition where
  pnum : Nat
  /-- In bytes; zero for the rest of the disc. -/
  size : Nat
  fsName : Text
  partitionHex : Text
  mountpoint : Text
  mountOptions : Text
  fsFreq : Nat
  fsPassno : Nat

/-- A disc that the query finds has partitions. -/
structure Disc where
  name : Text
  parts : List Partition
  nonempty : parts ≠ []
  ordered : parts.Pairwise fun part later => part.pnum < later.pnum

structure SysPartition where
  name : Text
  mountpoint : Text
  mountOptions : Text

structure PartitionTable where
  valid : Bool
  discs : List Disc
  sysPartitions : List SysPartition

inductive PartKind where
  | primary
  | extended
  | logical
deriving DecidableEq

/-- The commands `mkpart kind fs lower upper`, in megabytes with `_` for an open end, and
`set pnum lvm on`. -/
inductive PartedLine where
  | mkpart (kind : PartKind) (fs : Text) (lower : Nat) (upper : Option Nat)
  | setLvm (pnum : Nat)

/-- The entries `,0, ` and `,megabytes,0xhex`. -/
inductive SfdiskLine where
  | gap
  | part (megabytes : Option Nat) (hex : Text)
deriving DecidableEq

structure FstabLine where
  part : Text
  mountpoint : Text
  fs : Text
  options : Text
  freq : Nat
  passno : Nat

namespace Partition

variable (part : Partition)

def isExt : Bool := part.fsName == "ext".toList

def kind : PartKind :=
  if part.isExt then .extended else if part.pnum < 5 then .primary else .logical

/-- The partition is given a size of its own. -/
def isSized : Bool := part.size != 0 && !part.isExt

def sfdiskLine : SfdiskLine :=
  .part (if part.isSized then some (part.size / 1024 ^ 2) else none) part.partitionHex

def partedFs : Text :=
  if part.fsName ∈ ["ext3".toList, "ext4".toList, "btrfs".toList, "xfs".toList, "lvm".toList] then
    "ext2".toList
  else if part.fsName ∈ ["biosboot".toList, "ext".toList] then []
  else if part.fsName = "swap".toList then "linux-swap".toList
  else part.fsName

end Partition

/-- The variables of the loop. -/
structure PartitionSetup where
  firstDisc : Option Text
  oldPnum : Nat
  lowerSize : Nat
  upperSize : Nat
  parted : List PartedLine
  sfdisk : List SfdiskLine
  fstab : List FstabLine
  fspartDict : Dict Text (List Text)
  rootPart : Option Text
  rootPartType : Option Text

namespace PartitionSetup

def init : PartitionSetup where
  firstDisc := none
  oldPnum := 0
  lowerSize := 0
  upperSize := 0
  parted := []
  sfdisk := []
  fstab := []
  fspartDict := ∅
  rootPart := none
  rootPartType := none

/-- The entries of a partition that is mounted. -/
def addMount (rootDev partPf disc : Text) (setup : PartitionSetup) (part : Partition) :
    PartitionSetup :=
  if (part.mountpoint ≠ [] ∧ part.isExt = false) ∨ part.fsName = "swap".toList then
    let actDisc := if setup.firstDisc = some disc then rootDev else disc
    let actPart := actDisc ++ partPf ++ Nat.toDigits 10 part.pnum
    let fs := if part.fsName = [] then "auto".toList else part.fsName
    let mp := if part.mountpoint = [] then fs else part.mountpoint
    { setup with
      rootPart := if mp = ['/'] then some actPart else setup.rootPart
      rootPartType := if mp = ['/'] then some fs else setup.rootPartType
      fspartDict := setup.fspartDict.insert fs ((setup.fspartDict.lookup fs).getD [] ++ [actPart])
      fstab := setup.fstab ++
        [{ part := actPart
           mountpoint := mp
           fs := fs
           options := if part.mountOptions = [] then "rw".toList else part.mountOptions
           freq := part.fsFreq
           passno := part.fsPassno }] }
  else setup

/-- The upper bound before it is replaced; zero for an open end. -/
def upperOf (setup : PartitionSetup) (part : Partition) : Nat :=
  if part.isSized then setup.upperSize + part.size / 1024 ^ 2 else 0

/-- One round of the loop. -/
def addPart (rootDev partPf disc : Text) (setup : PartitionSetup) (part : Partition) :
    PartitionSetup :=
  let upper := setup.upperOf part
  let next :=
    { setup with
      firstDisc := some (setup.firstDisc.getD disc)
      oldPnum := part.pnum
      lowerSize := if upper ≠ 0 then upper else setup.lowerSize
      upperSize := if upper ≠ 0 then upper else setup.lowerSize
      parted := setup.parted ++
        PartedLine.mkpart part.kind part.partedFs setup.lowerSize
            (if upper ≠ 0 then some upper else none) ::
          if part.fsName = "lvm".toList then [PartedLine.setLvm part.pnum] else []
      sfdisk := setup.sfdisk ++
        (replicate (part.pnum - 1 - setup.oldPnum) SfdiskLine.gap ++ [part.sfdiskLine]) }
  next.addMount rootDev partPf disc part

def addDisc (rootDev partPf : Text) (setup : PartitionSetup) (disc : Disc) : PartitionSetup :=
  disc.parts.foldl (addPart rootDev partPf disc.name) setup

def addSysPartition (setup : PartitionSetup) (part : SysPartition) : PartitionSetup :=
  { setup with
    fstab := setup.fstab ++
      [{ part := part.name
         mountpoint := part.mountpoint
         fs := part.name
         options := if part.mountOptions = [] then "rw".toList else part.mountOptions
         freq := 0
         passno := 0 }] }

/-- What the loop has made of some discs. -/
def ofDiscs (rootDev : Text) (discs : List Disc) : PartitionSetup :=
  discs.foldl (addDisc rootDev (if "cciss".toList <:+: rootDev then ['p'] else [])) init

end PartitionSetup

open PartitionSetup in
def partitionSetup (rootDev : Text) (table : PartitionTable) : Except PyError PartitionSetup :=
  if table.discs.flatMap Disc.parts = [] then .error .valueError
  else if table.valid then
    .ok (table.sysPartitions.foldl addSysPartition (ofDiscs rootDev table.discs))
  else .error .valueError

/-- A range that is laid out, in megabytes; it may have an open end. -/
structure Range where
  kind : PartKind
  lower : Nat
  upper : Option Nat
deriving DecidableEq

def PartedLine.range : PartedLine -> Option Range
  | .mkpart kind _ lower upper => some ⟨kind, lower, upper⟩
  | .setLvm _ => none

def Range.EndsBefore (range other : Range) : Prop :=
  exists upper, range.upper = some upper ∧ upper ≤ other.lower

/-- The ranges do not overlap, unless the one is an extended partition and the other one of
the logical partitions in it. -/
def Range.Apart (range other : Range) : Prop :=
  range.EndsBefore other ∨ other.EndsBefore range ∨
    (range.kind = .extended ∧ other.kind = .logical)

def Range.Ascends (range : Range) : Prop :=
  forall upper, range.upper = some upper -> range.lower < upper

structure Laid (ranges : List Range) : Prop where
  ascends : forall range, range ∈ ranges -> range.Ascends
  apart : ranges.Pairwise Range.Apart

structure DiscConsistent (disc : Disc) (parted : List PartedLine) (sfdisk : List SfdiskLine) :
    Prop where
  starts : forall range, (parted.filterMap PartedLine.range).head? = some range -> range.lower = 0
  laid : Laid (parted.filterMap PartedLine.range)
  described : forall part, part ∈ disc.parts ->
    1 ≤ part.pnum ∧ sfdisk[part.pnum - 1]? = some part.sfdiskLine

def ofDisc {α : Type} (field : PartitionSetup -> List α) (rootDev : Text) (setup : PartitionSetup)
    (earlier : List Disc) (disc : Disc) : List α :=
  ((field setup).take (field (PartitionSetup.ofDiscs rootDev (earlier ++ [disc]))).length).drop
    (field (PartitionSetup.ofDiscs rootDev earlier)).length

def Consistent (rootDev : Text) (table : PartitionTable) : Prop :=
  exists setup, partitionSetup rootDev table = .ok setup ∧
    forall earlier disc later, table.discs = earlier ++ disc :: later ->
      DiscConsistent disc (ofDisc PartitionSetup.parted rootDev setup earlier disc)
        (ofDisc PartitionSetup.sfdisk rootDev setup earlier disc)

/-- The megabytes by which the lower bound moves on. -/
def Partition.megabytes (part : Partition) : Nat :=
  if part.isSized then part.size / 1024 ^ 2 else 0

/--
A partition without a whole megabyte is the last one of its disc, or an extended one before logical
ones only; a size below a megabyte comes first on the disc.
-/
def OpenFits : Nat -> List Partition -> Prop
  | _, [] => True
  | taken, part :: rest =>
    (part.megabytes = 0 ->
      (rest = [] ∨ (part.kind = .extended ∧
        forall later, later ∈ rest -> later.kind = .logical)) ∧
        (part.isSized = true -> taken = 0)) ∧
      OpenFits (taken + part.megabytes) rest

def lastPnum (old : Nat) (parts : List Partition) : Nat :=
  (parts.getLast?.map Partition.pnum).getD old

structure DiscFits (earlier : List Partition) (disc : Disc) : Prop where
  fresh : (earlier.map Partition.megabytes).sum = 0
  first : forall part, disc.parts.head? = some part ->
    1 ≤ part.pnum ∧ (part.pnum = 1 ∨ lastPnum 0 earlier = 0)
  openEnds : OpenFits 0 disc.parts

def Partition.range (lower : Nat) (part : Partition) : Range where
  kind := part.kind
  lower := lower
  upper := if part.isSized = true ∧ lower + part.megabytes ≠ 0 then some (lower + part.megabytes)
    else none

def rangesFrom : Nat -> List Partition -> List Range
  | _, [] => []
  | lower, part :: rest => part.range lower :: rangesFrom (lower + part.megabytes) rest

def entriesFrom : Nat -> List Partition -> List SfdiskLine
  | _, [] => []
  | old, part :: rest =>
    replicate (part.pnum - 1 - old) .gap ++ part.sfdiskLine :: entriesFrom part.pnum rest

/-- What the rounds for some partitions make of a setup. -/
structure Gains (setup : PartitionSetup) (parts : List Partition) (after : PartitionSetup) :
    Prop where
  upperSize : after.upperSize = after.lowerSize
  lowerSize : after.lowerSize = setup.lowerSize + (parts.map Partition.megabytes).sum
  oldPnum : after.oldPnum = lastPnum setup.oldPnum parts
  parted : exists lines, after.parted = setup.parted ++ lines ∧
    lines.filterMap PartedLine.range = rangesFrom setup.lowerSize parts
  sfdisk : after.sfdisk = setup.sfdisk ++ entriesFrom setup.oldPnum parts

theorem lastPnum_append (old : Nat) (parts rest : List Partition) :
    lastPnum old (parts ++ rest) = lastPnum (lastPnum old parts) rest := by
  unfold lastPnum
  rw [getLast?_append]
  cases rest.getLast? with
  | none => rfl
  | some part => rfl

theorem rangesFrom_append (lower : Nat) (parts rest : List Partition) :
    rangesFrom lower (parts ++ rest) =
      rangesFrom lower parts ++ rangesFrom (lower + (parts.map Partition.megabytes).sum) rest := by
  induction parts generalizing lower with
  | nil => rfl
  | cons part parts ih =>
    rw [cons_append, rangesFrom, ih, map_cons, sum_cons, ← Nat.add_assoc]
    rfl

theorem entriesFrom_append (old : Nat) (parts rest : List Partition) :
    entriesFrom old (parts ++ rest) =
      entriesFrom old parts ++ entriesFrom (lastPnum old parts) rest := by
  induction parts generalizing old with
  | nil => rfl
  | cons part parts ih =>
    have hlast : lastPnum old (part :: parts) = lastPnum part.pnum parts :=
      lastPnum_append old [part] parts
    rw [cons_append, entriesFrom, ih, entriesFrom, hlast, append_assoc]
    rfl

namespace PartitionSetup

variable {rootDev partPf name : Text} {setup : PartitionSetup}

theorem addMount_frame {part : Partition} :
    (setup.addMount rootDev partPf name part).upperSize = setup.upperSize ∧
      (setup.addMount rootDev partPf name part).lowerSize = setup.lowerSize ∧
      (setup.addMount rootDev partPf name part).oldPnum = setup.oldPnum ∧
      (setup.addMount rootDev partPf name part).parted = setup.parted ∧
      (setup.addMount rootDev partPf name part).sfdisk = setup.sfdisk := by
  unfold addMount
  split
  · exact ⟨rfl, rfl, rfl, rfl, rfl⟩
  · exact ⟨rfl, rfl, rfl, rfl, rfl⟩

theorem upperOf_eq (hupper : setup.upperSize = setup.lowerSize) (part : Partition) :
    (if setup.upperOf part ≠ 0 then some (setup.upperOf part) else none) =
        (part.range setup.lowerSize).upper ∧
      (if setup.upperOf part ≠ 0 then setup.upperOf part else setup.lowerSize) =
        setup.lowerSize + part.megabytes := by
  unfold upperOf Partition.range Partition.megabytes
  by_cases hsized : part.isSized = true
  · simp only [hsized, hupper, if_true, true_and]
    by_cases hzero : setup.lowerSize + part.size / 1024 ^ 2 = 0
    · rw [hzero]
      exact (Nat.add_eq_zero_iff.mp hzero).left
    · simp only [ne_eq, hzero, not_false_eq_true, if_true]
  · simp [hsized]

theorem gains_addPart (hupper : setup.upperSize = setup.lowerSize) (part : Partition) :
    Gains setup [part] (addPart rootDev partPf name setup part) := by
  rcases upperOf_eq hupper part with ⟨hrange, hlower⟩
  have hframe := fun next => @addMount_frame rootDev partPf name next part
  have hnext : (addPart rootDev partPf name setup part).lowerSize =
      setup.lowerSize + part.megabytes := (hframe _).right.left.trans hlower
  refine ⟨?_, ?_, (hframe _).right.right.left, ⟨_, (hframe _).right.right.right.left, ?_⟩, ?_⟩
  · rw [hnext, ← hlower]
    exact (hframe _).left
  · rw [map_singleton, sum_singleton, hnext]
  · rw [hrange]
    split
    · rfl
    · rfl
  · exact (hframe _).right.right.right.right

theorem gains_trans {setup middle after : PartitionSetup} {parts rest : List Partition}
    (h : Gains setup parts middle) (h' : Gains middle rest after) :
    Gains setup (parts ++ rest) after := by
  rcases h.parted with ⟨lines, hlines, hranges⟩
  rcases h'.parted with ⟨lines', hlines', hranges'⟩
  refine ⟨h'.upperSize, ?_, ?_, ⟨lines ++ lines', ?_, ?_⟩, ?_⟩
  · rw [h'.lowerSize, h.lowerSize, map_append, sum_append, Nat.add_assoc]
  · rw [h'.oldPnum, h.oldPnum, lastPnum_append]
  · rw [hlines', hlines, append_assoc]
  · rw [filterMap_append, hranges, hranges', h.lowerSize, rangesFrom_append]
  · rw [h'.sfdisk, h.sfdisk, h.oldPnum, entriesFrom_append, append_assoc]

theorem gains_foldl (hupper : setup.upperSize = setup.lowerSize) (parts : List Partition) :
    Gains setup parts (parts.foldl (addPart rootDev partPf name) setup) := by
  induction parts generalizing setup with
  | nil => exact ⟨hupper, rfl, rfl, ⟨[], (append_nil _).symm, rfl⟩, (append_nil _).symm⟩
  | cons part rest ih =>
    have hfirst : Gains setup [part] (addPart rootDev partPf name setup part) :=
      gains_addPart hupper part
    exact gains_trans hfirst (ih hfirst.upperSize)

theorem gains_foldl_addDisc (hupper : setup.upperSize = setup.lowerSize) (discs : List Disc) :
    Gains setup (discs.flatMap Disc.parts) (discs.foldl (addDisc rootDev partPf) setup) := by
  induction discs generalizing setup with
  | nil => exact ⟨hupper, rfl, rfl, ⟨[], (append_nil _).symm, rfl⟩, (append_nil _).symm⟩
  | cons disc rest ih =>
    have hfirst : Gains setup disc.parts (addDisc rootDev partPf setup disc) :=
      gains_foldl hupper disc.parts
    exact gains_trans hfirst (ih hfirst.upperSize)

theorem foldl_addSysPartition (parts : List SysPartition) (setup : PartitionSetup) :
    (parts.foldl addSysPartition setup).parted = setup.parted ∧
      (parts.foldl addSysPartition setup).sfdisk = setup.sfdisk := by
  induction parts generalizing setup with
  | nil => exact ⟨rfl, rfl⟩
  | cons part rest ih => exact ih (addSysPartition setup part)

/-- The lines of a disc are those that its rounds add to what the earlier discs have left. -/
theorem ofDisc_eq {table : PartitionTable} {earlier later : List Disc} {disc : Disc}
    (hsetup : partitionSetup rootDev table = .ok setup)
    (hdiscs : table.discs = earlier ++ disc :: later) :
    (ofDisc parted rootDev setup earlier disc).filterMap PartedLine.range =
        rangesFrom ((earlier.flatMap Disc.parts).map Partition.megabytes).sum disc.parts ∧
      ofDisc sfdisk rootDev setup earlier disc =
        entriesFrom (lastPnum 0 (earlier.flatMap Disc.parts)) disc.parts := by
  have hmade : setup = table.sysPartitions.foldl addSysPartition (ofDiscs rootDev table.discs) := by
    unfold partitionSetup at hsetup
    split at hsetup
    · cases hsetup
    · split at hsetup
      · cases hsetup
        rfl
      · cases hsetup
  have hsys := foldl_addSysPartition table.sysPartitions (ofDiscs rootDev table.discs)
  rw [← hmade, hdiscs, append_cons] at hsys
  unfold ofDisc
  rw [hsys.left, hsys.right]
  simp only [ofDiscs, foldl_append]
  generalize (if "cciss".toList <:+: rootDev then ['p'] else []) = partPf
  have hearlier := @gains_foldl_addDisc rootDev partPf init rfl earlier
  generalize earlier.foldl (addDisc rootDev partPf) init = start at hearlier
  have hdisc := @gains_foldl rootDev partPf disc.name start hearlier.upperSize disc.parts
  change Gains start disc.parts (foldl (addDisc rootDev partPf) start [disc]) at hdisc
  generalize [disc].foldl (addDisc rootDev partPf) start = middle at hdisc
  have hlater := @gains_foldl_addDisc rootDev partPf middle hdisc.upperSize later
  generalize later.foldl (addDisc rootDev partPf) middle = stop at hlater
  constructor
  · rcases hdisc.parted with ⟨lines, hlines, hranges⟩
    rcases hlater.parted with ⟨rest, hrest, _⟩
    rw [hrest, take_left, hlines, drop_left, hranges, hearlier.lowerSize]
    exact congrArg (fun lower => rangesFrom lower disc.parts) (Nat.zero_add _)
  · rw [hlater.sfdisk, take_left, hdisc.sfdisk, drop_left, hearlier.oldPnum]
    rfl

end PartitionSetup

variable {parts : List Partition} {range : Range}

theorem le_lower {lower : Nat} (h : range ∈ rangesFrom lower parts) : lower ≤ range.lower := by
  induction parts generalizing lower with
  | nil => cases h
  | cons part rest ih =>
    rcases mem_cons.mp h with rfl | hrest
    · exact Nat.le_refl _
    · exact Nat.le_trans (Nat.le_add_right _ _) (ih hrest)

theorem map_kind_rangesFrom (lower : Nat) (parts : List Partition) :
    (rangesFrom lower parts).map Range.kind = parts.map Partition.kind := by
  induction parts generalizing lower with
  | nil => rfl
  | cons part rest ih => exact congrArg (part.kind :: ·) (ih _)

theorem laid_cons {ranges : List Range} :
    Laid (range :: ranges) <-> (range.Ascends ∧ forall later, later ∈ ranges -> range.Apart later) ∧
      Laid ranges := by
  constructor
  · intro h
    rcases pairwise_cons.mp h.apart with ⟨hfirst, hrest⟩
    exact ⟨⟨h.ascends _ mem_cons_self, hfirst⟩,
      fun later hlater => h.ascends later (mem_cons_of_mem _ hlater), hrest⟩
  · rintro ⟨⟨hascends, hapart⟩, hrest⟩
    refine ⟨?_, pairwise_cons.mpr ⟨hapart, hrest.apart⟩⟩
    intro later hlater
    rcases mem_cons.mp hlater with rfl | hmem
    · exact hascends
    · exact hrest.ascends later hmem

/-- Behind an open end there is room only for the logical partitions of an extended one. -/
theorem open_apart_iff {lower : Nat} {rest : List Partition}
    (hopen : range.upper = none) (hlower : range.lower ≤ lower)
    (hrest : Laid (rangesFrom lower rest)) :
    (forall later, later ∈ rangesFrom lower rest -> range.Apart later) <->
      rest = [] ∨ (range.kind = .extended ∧
        forall later, later ∈ rest -> later.kind = .logical) := by
  have hinside : forall later, later ∈ rangesFrom lower rest ->
      (range.Apart later <-> range.kind = .extended ∧ later.kind = .logical) := by
    intro later hlater
    refine ⟨?_, fun h => Or.inr (Or.inr h)⟩
    rintro (⟨upper, hupper, _⟩ | ⟨upper, hupper, hle⟩ | hkinds)
    · rw [hopen] at hupper
      cases hupper
    · have hascends := hrest.ascends later hlater upper hupper
      have hstart := le_lower hlater
      omega
    · exact hkinds
  have hkinds : forall kind, (exists later, later ∈ rangesFrom lower rest ∧ later.kind = kind) <->
      exists later, later ∈ rest ∧ later.kind = kind := by
    intro kind
    rw [← mem_map, ← mem_map, map_kind_rangesFrom]
  constructor
  · intro h
    cases rest with
    | nil => exact Or.inl rfl
    | cons part rest =>
      refine Or.inr ⟨((hinside _ mem_cons_self).mp (h _ mem_cons_self)).left, ?_⟩
      intro later hlater
      rcases (hkinds later.kind).mpr ⟨later, hlater, rfl⟩ with ⟨found, hfound, hkind⟩
      rw [← hkind]
      exact ((hinside found hfound).mp (h found hfound)).right
  · rintro (rfl | ⟨hext, hlogical⟩) later hlater
    · cases hlater
    · rcases (hkinds later.kind).mp ⟨later, hlater, rfl⟩ with ⟨found, hfound, hkind⟩
      exact Or.inr (Or.inr ⟨hext, hkind ▸ hlogical found hfound⟩)

theorem laid_iff (lower : Nat) (parts : List Partition) :
    Laid (rangesFrom lower parts) <-> OpenFits lower parts := by
  induction parts generalizing lower with
  | nil => exact ⟨fun _ => trivial, fun _ => ⟨by simp [rangesFrom], Pairwise.nil⟩⟩
  | cons part rest ih =>
    rw [rangesFrom, laid_cons, OpenFits, ih]
    apply and_congr_left
    intro hrest
    by_cases hzero : part.megabytes = 0
    · rw [hzero, Nat.add_zero] at hrest ⊢
      by_cases hempty : part.isSized = true ∧ lower ≠ 0
      · have hupper : (part.range lower).upper = some lower := by
          simp [Partition.range, hempty, hzero]
        constructor
        · rintro ⟨hascends, _⟩
          exact absurd (hascends lower hupper) (lt_irrefl lower)
        · intro h
          exact absurd ((h rfl).right hempty.left) hempty.right
      · have hupper : (part.range lower).upper = none := by
          simp only [Partition.range, hzero, Nat.add_zero, if_neg hempty]
        rw [open_apart_iff hupper (show (part.range lower).lower ≤ lower from Nat.le_refl _)
          ((ih lower).mpr hrest)]
        constructor
        · rintro ⟨_, hroom⟩ _
          exact ⟨hroom, fun hsized => by_contra fun hne => hempty ⟨hsized, hne⟩⟩
        · intro h
          refine ⟨?_, (h rfl).left⟩
          intro upper hsome
          rw [hupper] at hsome
          cases hsome
    · have hsized : part.isSized = true := by
        by_contra hnot
        exact hzero (if_neg hnot)
      have hupper : (part.range lower).upper = some (lower + part.megabytes) := by
        simp [Partition.range, hsized, hzero]
      refine ⟨fun _ h => absurd h hzero, fun _ => ⟨?_, ?_⟩⟩
      · intro upper hsome
        rw [hupper] at hsome
        cases hsome
        exact Nat.lt_add_of_pos_right (Nat.pos_of_ne_zero hzero)
      · intro later hlater
        exact Or.inl ⟨_, hupper, le_lower hlater⟩

variable {old : Nat}

theorem le_lastPnum
    (hold : forall part, part ∈ parts -> old < part.pnum) : old ≤ lastPnum old parts := by
  unfold lastPnum
  cases hlast : parts.getLast? with
  | none => exact Nat.le_refl _
  | some part => exact Nat.le_of_lt (hold part (mem_of_getLast? hlast))

theorem length_entriesFrom (hordered : parts.Pairwise fun part later => part.pnum < later.pnum)
    (hold : forall part, part ∈ parts -> old < part.pnum) :
    (entriesFrom old parts).length = lastPnum old parts - old := by
  induction parts generalizing old with
  | nil => exact (Nat.sub_self old).symm
  | cons part rest ih =>
    rcases pairwise_cons.mp hordered with ⟨hpart, hrest⟩
    have hfirst := hold part mem_cons_self
    have hlast : lastPnum old (part :: rest) = lastPnum part.pnum rest :=
      lastPnum_append old [part] rest
    have hle := le_lastPnum hpart
    rw [entriesFrom, length_append, length_replicate, length_cons,
      ih hrest hpart, hlast]
    omega

theorem getElem?_entriesFrom (hordered : parts.Pairwise fun part later => part.pnum < later.pnum)
    (hold : forall part, part ∈ parts -> old < part.pnum) {part : Partition} (h : part ∈ parts) :
    (entriesFrom old parts)[part.pnum - 1 - old]? = some part.sfdiskLine := by
  induction parts generalizing old with
  | nil => cases h
  | cons first rest ih =>
    rcases pairwise_cons.mp hordered with ⟨hfirst, hrest⟩
    have hstart := hold first mem_cons_self
    rw [entriesFrom]
    rcases mem_cons.mp h with rfl | hmem
    · rw [getElem?_append_right (by simp), length_replicate, Nat.sub_self]
      rfl
    · have hlater := hfirst part hmem
      rw [getElem?_append_right (by rw [length_replicate]; omega),
        length_replicate,
        show part.pnum - 1 - old - (first.pnum - 1 - old) = part.pnum - 1 - first.pnum + 1 by omega]
      exact ih hrest hfirst hmem

/-- The gaps before the first entry of a disc make up for its number. -/
theorem described_iff (hne : parts ≠ []) (old : Nat)
    (hordered : parts.Pairwise fun part later => part.pnum < later.pnum) :
    (forall part, part ∈ parts ->
        1 ≤ part.pnum ∧ (entriesFrom old parts)[part.pnum - 1]? = some part.sfdiskLine) <->
      forall part, parts.head? = some part -> 1 ≤ part.pnum ∧ (part.pnum = 1 ∨ old = 0) := by
  cases parts with
  | nil => exact absurd rfl hne
  | cons first rest =>
    rcases pairwise_cons.mp hordered with ⟨hfirst, hrest⟩
    have hhead : (forall part, (first :: rest).head? = some part ->
        1 ≤ part.pnum ∧ (part.pnum = 1 ∨ old = 0)) <->
          1 ≤ first.pnum ∧ (first.pnum = 1 ∨ old = 0) := by
      constructor
      · intro h
        exact h first rfl
      · intro h part hpart
        cases hpart
        exact h
    rw [hhead]
    constructor
    · intro h
      have hone := (h first mem_cons_self).left
      refine ⟨hone, ?_⟩
      have hmem : (first :: rest).getLast hne ∈ first :: rest := getLast_mem hne
      have hlast := (List.getElem?_eq_some_iff.mp (h _ hmem).right).choose
      have hnumber : ((first :: rest).getLast hne).pnum = lastPnum first.pnum rest := by
        have happend : lastPnum old (first :: rest) = lastPnum first.pnum rest :=
          lastPnum_append old [first] rest
        rw [← happend, lastPnum, getLast?_eq_getLast_of_ne_nil hne]
        rfl
      have hle := le_lastPnum hfirst
      rw [hnumber, entriesFrom, length_append, length_replicate, length_cons,
        length_entriesFrom hrest hfirst] at hlast
      omega
    · rintro ⟨hone, hstart⟩ part hpart
      have hpos : forall part, part ∈ first :: rest -> 0 < part.pnum := by
        intro part hpart
        rcases mem_cons.mp hpart with rfl | hmem
        · exact hone
        · exact Nat.le_trans hone (Nat.le_of_lt (hfirst part hmem))
      have hsame : entriesFrom old (first :: rest) = entriesFrom 0 (first :: rest) := by
        rw [entriesFrom, entriesFrom,
          show first.pnum - 1 - old = first.pnum - 1 - 0 by omega]
      rw [hsame]
      exact ⟨hpos part hpart, getElem?_entriesFrom hordered hpos hpart⟩

theorem discConsistent_iff {rootDev : Text} {table : PartitionTable} {setup : PartitionSetup}
    (hsetup : partitionSetup rootDev table = .ok setup) {earlier later : List Disc} {disc : Disc}
    (hdiscs : table.discs = earlier ++ disc :: later) :
    DiscConsistent disc (ofDisc PartitionSetup.parted rootDev setup earlier disc)
        (ofDisc PartitionSetup.sfdisk rootDev setup earlier disc) <->
      DiscFits (earlier.flatMap Disc.parts) disc := by
  rcases PartitionSetup.ofDisc_eq hsetup hdiscs with ⟨hparted, hsfdisk⟩
  have hdescribed := described_iff disc.nonempty (lastPnum 0 (earlier.flatMap Disc.parts))
    disc.ordered
  have hstarts : forall lower, (forall range, (rangesFrom lower disc.parts).head? = some range ->
      range.lower = 0) <-> lower = 0 := by
    intro lower
    rcases exists_cons_of_ne_nil disc.nonempty with ⟨first, rest, hparts⟩
    rw [hparts]
    constructor
    · intro h
      exact h _ rfl
    · rintro rfl range hrange
      cases hrange
      rfl
  constructor
  · rintro ⟨hstart, hlaid, hentries⟩
    rw [hparted] at hstart hlaid
    rw [hsfdisk] at hentries
    have hzero := (hstarts _).mp hstart
    rw [hzero, laid_iff] at hlaid
    exact ⟨hzero, hdescribed.mp hentries, hlaid⟩
  · rintro ⟨hfresh, hfirst, hopen⟩
    refine ⟨?_, ?_, ?_⟩
    · rw [hparted]
      exact (hstarts _).mpr hfresh
    · rw [hparted, hfresh]
      exact (laid_iff 0 disc.parts).mpr hopen
    · rw [hsfdisk]
      exact hdescribed.mpr hfirst

/-- The layout of a valid table is consistent if and only if each of its discs finds the bounds
and the numbers as if it were the first one, and has room behind its open ends. -/
theorem layout_consistent_iff (rootDev : Text) (table : PartitionTable) (hvalid : table.valid = true)
    (hdiscs : table.discs ≠ []) :
    Consistent rootDev table <-> forall earlier disc later,
      table.discs = earlier ++ disc :: later -> DiscFits (earlier.flatMap Disc.parts) disc := by
  have hparts : table.discs.flatMap Disc.parts ≠ [] := by
    rcases exists_cons_of_ne_nil hdiscs with ⟨disc, rest, heq⟩
    rw [heq, flatMap_cons]
    exact append_ne_nil_of_left_ne_nil disc.nonempty _
  constructor
  · rintro ⟨setup, hsetup, hall⟩ earlier disc later heq
    exact (discConsistent_iff hsetup heq).mp (hall earlier disc later heq)
  · intro h
    refine ⟨_, by rw [partitionSetup, if_neg hparts, if_pos hvalid], ?_⟩
    intro earlier disc later heq
    exact (discConsistent_iff (by rw [partitionSetup, if_neg hparts, if_pos hvalid]) heq).mpr
      (h earlier disc later heq)

def rootPartition : Partition where
  pnum := 1
  size := 1024 ^ 3
  fsName := "ext4".toList
  partitionHex := "83".toList
  mountpoint := ['/']
  mountOptions := []
  fsFreq := 0
  fsPassno := 1

def rootDisc (name : Text) : Disc where
  name := name
  parts := [rootPartition]
  nonempty := cons_ne_nil _ _
  ordered := pairwise_singleton _ _

theorem consistent_one_disc :
    Consistent "/dev/sda".toList ⟨true, [rootDisc "/dev/sda".toList], []⟩ := by
  apply (layout_consistent_iff _ ⟨true, [rootDisc "/dev/sda".toList], []⟩ rfl (cons_ne_nil _ _)).mpr
  rintro (_ | ⟨first, rest⟩) disc later heq
  · cases heq
    refine ⟨rfl, ?_, ?_⟩
    · rintro part ⟨⟩
      exact ⟨Nat.le_refl 1, Or.inl rfl⟩
    · exact ⟨fun h => absurd h (by decide), trivial⟩
  · simp at heq

/-- The second disc starts where the first one ends. -/
theorem second_disc_inconsistent :
    ¬ Consistent "/dev/sda".toList
      ⟨true, [rootDisc "/dev/sda".toList, rootDisc "/dev/sdb".toList], []⟩ := by
  rintro ⟨setup, hsetup, hall⟩
  cases hsetup
  have hstarts := (hall [rootDisc "/dev/sda".toList] (rootDisc "/dev/sdb".toList) [] rfl).starts
  exact absurd (hstarts ⟨.primary, 1024, some 2048⟩ (by decide +kernel)) (by decide)

end Icsw.ConfigServer
