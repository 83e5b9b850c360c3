import Icsw.Foundation.Dict
import Icsw.Foundation.TextOrder
import Icsw.RrdTools.KeptAtTime

/-!
# Resizing a file

Where the short names of a file and of the target coverage differ, each target is filled from the
archives whose short name is nearest to it, and the archives that are no target are removed before
the file is written again.
-/

namespace Icsw.RrdTools

open Foundation List

/-- A coverage that is wanted of a file with the step. -/
structure Target (step : Nat) where
  total : Nat
  rows : Nat
  pdp : Nat
  name : Text
  name_eq : name = shortName pdp rows step
  pos : 0 < step * pdp

theorem parseWidthStr_target {inStr : Text} {step : Nat} {correctZeroPdp : Bool} {found : Coverage}
    (h : parseWidthStr inStr step correctZeroPdp = .ok (some found)) :
    found.name = shortName found.pdp found.rows step ∧ 0 < step * found.pdp := by
  unfold parseWidthStr at h
  split at h
  · cases h
  · dsimp only at h
    split_ifs at h with hwidths hzero hcorrect hpdp
    · cases h
      exact ⟨rfl, Nat.mul_pos (Nat.pos_of_ne_zero hzero) Nat.one_pos⟩
    · cases h
      exact ⟨rfl, Nat.mul_pos (Nat.pos_of_ne_zero hzero) (Nat.pos_of_ne_zero hpdp)⟩
    · cases h
    · cases h

def Target.ofCoverage {step : Nat} (found : Coverage)
    (h : found.name = shortName found.pdp found.rows step ∧ 0 < step * found.pdp) :
    Target step where
  total := found.total
  rows := found.rows
  pdp := found.pdp
  name := found.name
  name_eq := h.left
  pos := h.right

def getTcDict (rrdCoverage : List Text) (step : Nat) : Except PyError (Dict Text (Target step)) :=
  rrdCoverage.foldlM (fun tcDict key =>
    match h : parseWidthStr key step false with
    | .error raised => .error raised
    | .ok none => .ok tcDict
    | .ok (some found) => .ok (tcDict.insert key (Target.ofCoverage found (parseWidthStr_target h)))) ∅

/-- A file with the step, its archives as far as they have been built. -/
structure Rrd (step : Nat) where
  lastUpdate : Int
  rra : List RraEntry
  rrasBuilt : Bool
  rraList : List Text
  rraNames : List Text
  rraShortNames : List Text
  rraDict : Dict Text Rra

section

variable {step : Nat}

def Rrd.withName (rrd : Rrd step) (newName newShortName : Text) : Rrd step :=
  { rrd with
    rraNames := rrd.rraNames ++ [newName]
    rraShortNames := rrd.rraShortNames ++ [newShortName] }

def parseEntry (rrd : Rrd step) (value : RraEntry) : Rrd step :=
  if rraName value step false ∈ rrd.rraNames then rrd
  else rrd.withName (rraName value step false) (rraName value step true)

def parseRaw (step : Nat) (lastUpdate : Int) (rra : List RraEntry) : Rrd step :=
  rra.foldl parseEntry
    { lastUpdate := lastUpdate
      rra := rra
      rrasBuilt := false
      rraList := []
      rraNames := []
      rraShortNames := []
      rraDict := ∅ }

variable (fetch : Cf -> Nat -> Int -> Int -> Stream)

def buildRra (rrd : Rrd step) (rraEntry : RraEntry) : Rrd step :=
  let newName := rraName rraEntry step false
  if newName ∈ rrd.rraList then rrd
  else
    { rrd with
      rraList := rrd.rraList ++ [newName]
      rraDict := rrd.rraDict.insert newName (Rra.ofFile fetch step rraEntry rrd.lastUpdate) }

def buildRras (rrd : Rrd step) : Rrd step :=
  if rrd.rrasBuilt = true then rrd
  else rrd.rra.foldl (buildRra fetch) { rrd with rrasBuilt := true }

def openRrd (step : Nat) (lastUpdate : Int) (rra : List RraEntry) (build : Bool) : Rrd step :=
  if build = true then buildRras fetch (parseRaw step lastUpdate rra)
  else parseRaw step lastUpdate rra

/-- `self["rra_dict"][rra_name]` -/
def Rrd.archive (rrd : Rrd step) (rraName : Text) : Except PyError Rra :=
  (rrd.rraDict.lookup rraName).elim (.error .keyError) .ok

def addRra (rrd : Rrd step) (newRra : Rra) : Except PyError (Rrd step) := do
  let shortName <- part (split ['-'] 2 newRra.name) 2
  return { rrd with
    rraList := rrd.rraList ++ [newRra.name]
    rraNames := rrd.rraNames ++ [newRra.name]
    rraShortNames := rrd.rraShortNames ++ [shortName]
    rraDict := rrd.rraDict.insert newRra.name newRra }

/-- `names.remove(name)` -/
def remove (names : List Text) (name : Text) : Except PyError (List Text) :=
  if name ∈ names then .ok (names.erase name) else .error .valueError

def removeRra (rrd : Rrd step) (rraName : Text) : Except PyError (Rrd step) := do
  let rraList <- remove rrd.rraList rraName
  let rraNames <- remove rrd.rraNames rraName
  let rraShortNames <- remove rrd.rraShortNames (<- part (split ['-'] 2 rraName) 2)
  if rraName ∈ rrd.rraDict then
    return { rrd with
      rraList := rraList
      rraNames := rraNames
      rraShortNames := rraShortNames
      rraDict := rrd.rraDict.erase rraName }
  else .error .keyError

/-- `len(range(start, end, step))` -/
def rangeLength (start stop : Int) (step : Nat) : Nat :=
  ((stop - start + step - 1) / (step : Int)).toNat

/--
As many rows are written as there are times and tuples, without the last.  The primary values are
those of the fourth tuple from the end.
-/
def Rra.xml (rra : Rra) : Except PyError RraEntry :=
  if rra.tuples.length < 4 then .error .indexError
  else
    .ok ⟨rra.entry.cf, rra.entry.pdpPerRow,
      min (rangeLength rra.startTime rra.endTime rra.timeStep) rra.tuples.length - 1⟩

def content (rrd : Rrd step) : Except PyError (List RraEntry) := do
  let _ <- part rrd.rraDict.keys 0
  rrd.rraList.mapM fun rraName => do (<- rrd.archive rraName).xml

/-- Tuples of a number and a text in their order. -/
def distanceLe (first second : Int × Text) : Bool :=
  decide (first.1 < second.1) || (decide (first.1 = second.1) && textLe first.2 second.2)

def findBestRraName (rraNames : List Text) (total : Nat) : Except PyError Text := do
  let distances <- rraNames.mapM fun name => do return (|(<- totalWidth name) - total|, name)
  match least distanceLe distances with
  | none => .error .valueError
  | some best => .ok best.2

def findRefRras (cf : Cf) (rraNames : List Text) : Except PyError (List Text) := do
  let mark := "RRA-".toList ++ cf.name ++ ['-']
  let widths <- (rraNames.filter fun name => mark.isPrefixOf name).dedup.mapM fun name => do
    return (<- totalWidth name, name)
  return (widths.insertionSort fun first second => first.1 ≤ second.1).map Prod.snd

def addTarget (clock : Text -> Int) (prevNames : List Text) (tcValue : Target step)
    (state : Rrd step × List Text) (srcRraName : Text) :
    Except PyError (Rrd step × List Text) := do
  let srcRra <- state.1.archive srcRraName
  let tcFullName := fillRraName tcValue.name srcRraName
  let newNames := state.2.insert tcFullName
  if tcFullName ∈ prevNames then return (state.1, newNames)
  else
    let srcCf <- parseCf srcRraName
    let newRra := Rra.create step tcValue.rows srcCf tcValue.pdp tcValue.pos srcRra (clock tcFullName)
    let refRras <- (<- findRefRras srcCf state.1.rraNames).mapM state.1.archive
    return (<- addRra state.1 (fitData newRra refRras).1, newNames)

def checkTarget (clock : Text -> Int) (prevNames : List Text) (state : Rrd step × List Text)
    (tcValue : Target step) : Except PyError (Rrd step × List Text) := do
  let shortSrcRraName <- findBestRraName state.1.rraShortNames tcValue.total
  let srcRraNames := state.1.rraNames.filter fun name => ('-' :: shortSrcRraName).isSuffixOf name
  srcRraNames.foldlM (addTarget clock prevNames tcValue) state

/-- The file after a run: as it was, written again, or emptied where the writing failed. -/
inductive FileAfter where
  | asBefore
  | written (rra : List RraEntry)
  | emptied

structure Checked (step : Nat) where
  rrd : Rrd step
  file : FileAfter
  changed : Bool

def fileOf (written : Except PyError (List RraEntry)) : FileAfter :=
  match written with
  | .ok rra => .written rra
  | .error _ => .emptied

def checkRrdFile2 (clock : Text -> Int) (tcDict : Dict Text (Target step)) (rrd : Rrd step) :
    Except PyError (Checked step) := do
  if forall name, name ∈ rrd.rraShortNames ++ tcDict.values.map Target.name ->
      name ∈ rrd.rraShortNames ∧ name ∈ tcDict.values.map Target.name then
    return ⟨rrd, .asBefore, false⟩
  else
    let rrd := buildRras fetch rrd
    let prevNames := rrd.rraNames.dedup
    let (rrd, newNames) <- tcDict.values.foldlM (checkTarget clock prevNames) (rrd, [])
    let rrd <- (prevNames.filter fun name => name ∉ newNames).foldlM removeRra rrd
    return ⟨rrd, fileOf (content rrd), true⟩

end

variable {step : Nat} {fetch : Cf -> Nat -> Int -> Int -> Stream} {lastUpdate : Int}

def FetchSpans (fetch : Cf -> Nat -> Int -> Int -> Stream) : Prop :=
  forall cf resolution start stop,
    (fetch cf resolution start stop).endTime - (fetch cf resolution start stop).startTime =
      (fetch cf resolution start stop).timeStep * (fetch cf resolution start stop).tuples.length

def tuplesOf (step : Nat) (fetch : Cf -> Nat -> Int -> Int -> Stream) (lastUpdate : Int)
    (first : List RraEntry) (entry : RraEntry) : Nat :=
  if entry ∈ first then (Rra.ofFile fetch step entry lastUpdate).tuples.length
  else entry.rows + 1

/-- The archive has been built for the entry. -/
structure Fits (step : Nat) (fetch : Cf -> Nat -> Int -> Int -> Stream) (lastUpdate : Int)
    (first : List RraEntry) (entry : RraEntry) (rra : Rra) : Prop where
  entry_eq : rra.entry = entry
  step_eq : rra.step = step
  length_eq : rra.tuples.length = tuplesOf step fetch lastUpdate first entry
  xml_eq : 4 ≤ rra.tuples.length -> rra.xml = .ok entry

structure Holds (fetch : Cf -> Nat -> Int -> Int -> Stream) (lastUpdate : Int)
    (first : List RraEntry) (rrd : Rrd step) (entries : List RraEntry) : Prop where
  names : rrd.rraNames = entries.map fun entry => rraName entry step false
  list : rrd.rraList = rrd.rraNames
  shorts : rrd.rraShortNames.Perm (entries.map fun entry => rraName entry step true)
  keys : forall name, name ∈ rrd.rraDict <-> name ∈ rrd.rraNames
  archives : forall entry, entry ∈ entries -> exists rra,
    rrd.archive (rraName entry step false) = .ok rra ∧
      Fits step fetch lastUpdate first entry rra
  built : rrd.rrasBuilt = true

theorem lt_length_of_xml {rra : Rra} (h : rra.tuples.length < 4) : rra.xml = .error .indexError :=
  if_pos h

theorem xml_eq_ok {rra : Rra} (hlength : 4 ≤ rra.tuples.length)
    (htuples : rra.rows + 1 ≤ rra.tuples.length)
    (htimes : (rra.rows + 1 : Int) * rra.timeStep ≤ rra.endTime - rra.startTime + rra.timeStep - 1)
    (heither : rra.tuples.length = rra.rows + 1 ∨
      rra.endTime - rra.startTime = (rra.rows + 1 : Int) * rra.timeStep) :
    rra.xml = .ok rra.entry := by
  have hpos : (0 : Int) < rra.timeStep := Int.natCast_pos.mpr rra.stream.timeStep_pos
  have hrange : rra.rows + 1 ≤ rangeLength rra.startTime rra.endTime rra.timeStep := by
    have hdiv := (Int.le_ediv_iff_mul_le hpos).mpr htimes
    unfold rangeLength
    omega
  have hmin : min (rangeLength rra.startTime rra.endTime rra.timeStep) rra.tuples.length - 1 =
      rra.rows := by
    rcases heither with htuple | hspan
    · omega
    · have hlast : (rra.endTime - rra.startTime + rra.timeStep - 1) / (rra.timeStep : Int) <
          (rra.rows + 1 : Int) + 1 := by
        have hnext : ((rra.rows + 1 : Int) + 1) * rra.timeStep =
            (rra.rows + 1 : Int) * rra.timeStep + rra.timeStep := by ring
        rw [Int.ediv_lt_iff_lt_mul hpos, hspan, hnext]
        omega
      unfold rangeLength at hrange ⊢
      omega
  unfold Rra.xml
  rw [if_neg (Nat.not_lt_of_le hlength), hmin]
  rfl

variable {entry : RraEntry}

theorem xml_ofFile (hfetch : FetchSpans fetch)
    (hlength : 4 ≤ (Rra.ofFile fetch step entry lastUpdate).tuples.length) :
    (Rra.ofFile fetch step entry lastUpdate).xml = .ok entry := by
  have hspan := hfetch entry.cf (step * entry.pdpPerRow)
    (lastUpdate - (step * entry.pdpPerRow * entry.rows : Nat)) lastUpdate
  have hpadded : entry.rows + 1 ≤ (Rra.ofFile fetch step entry lastUpdate).tuples.length ∧
      (Rra.ofFile fetch step entry lastUpdate).endTime -
        (Rra.ofFile fetch step entry lastUpdate).startTime =
          (entry.rows + 1 : Int) * (Rra.ofFile fetch step entry lastUpdate).timeStep := by
    unfold Rra.endTime Rra.startTime Rra.timeStep Rra.tuples Rra.ofFile
    generalize fetch entry.cf (step * entry.pdpPerRow)
      (lastUpdate - (step * entry.pdpPerRow * entry.rows : Nat)) lastUpdate = stream at *
    dsimp only
    unfold padStream
    split
    · dsimp only
      constructor
      · rw [length_append, length_replicate]
        omega
      · rw [sub_sub_eq_add_sub, add_sub_right_comm, hspan]
        ring
    · next hsame =>
        have hrows : stream.tuples.length = entry.rows + 1 := by omega
        refine ⟨hrows.ge, ?_⟩
        rw [hspan, hrows]
        push_cast
        ring
  rcases hpadded with ⟨htuples, htimes⟩
  apply xml_eq_ok hlength htuples _ (Or.inr htimes)
  rw [htimes]
  have hpos := (Rra.ofFile fetch step entry lastUpdate).stream.timeStep_pos
  show (entry.rows + 1 : Int) * _ ≤ _
  unfold Rra.timeStep
  omega

variable {first : List RraEntry}

theorem fits_ofFile (hfetch : FetchSpans fetch) (h : entry ∈ first) :
    Fits step fetch lastUpdate first entry (Rra.ofFile fetch step entry lastUpdate) where
  entry_eq := rfl
  step_eq := rfl
  length_eq := (if_pos h).symm
  xml_eq := xml_ofFile hfetch

theorem fits_fitData {rows : Nat} {cf : Cf} {pdp : Nat}
    (hpos : 0 < step * pdp) (refRra : Rra) (actTime : Int) (others : List Rra)
    (h : (⟨cf, pdp, rows⟩ : RraEntry) ∉ first) :
    Fits step fetch lastUpdate first ⟨cf, pdp, rows⟩
      (fitData (Rra.create step rows cf pdp hpos refRra actTime) others).1 := by
  rcases fitted_frame (Rra.create step rows cf pdp hpos refRra actTime) others with
    ⟨hstep, hentry, hstart, hend, htimeStep, htuples⟩
  have hlength : (Rra.create step rows cf pdp hpos refRra actTime).tuples.length = rows + 1 := by
    rw [create_tuples, length_replicate]
  refine ⟨hentry, hstep, ?_, ?_⟩
  · unfold tuplesOf
    rw [if_neg h]
    exact htuples.trans hlength
  · intro hfour
    have hcount := htuples.trans hlength
    have hrows : 0 < step * rows := by
      have hlong : 4 ≤ rows + 1 := hfour.trans hcount.le
      exact Nat.mul_pos (Nat.pos_of_mul_pos_right hpos) (by omega)
    have hxml := @xml_eq_ok (others.foldl fitFrom (Rra.create step rows cf pdp hpos refRra actTime))
      hfour
    rw [hend, hstart, htimeStep] at hxml
    unfold Rra.rows at hxml
    rw [hentry] at hxml
    refine hxml hcount.ge ?_ (Or.inl hcount)
    show (rows + 1 : Int) * (Rra.create step rows cf pdp hpos refRra actTime).stream.timeStep ≤
      (Rra.create step rows cf pdp hpos refRra actTime).stream.endTime -
        (Rra.create step rows cf pdp hpos refRra actTime).stream.startTime +
        (Rra.create step rows cf pdp hpos refRra actTime).stream.timeStep - 1
    rw [create_stream]
    show (rows + 1 : Int) * ((step * pdp : Nat) : Int) ≤
      actTime - (actTime - (((pdp + 1) * step * rows : Nat) : Int)) + ((step * pdp : Nat) : Int) - 1
    have hsplit : (pdp + 1) * step * rows = step * pdp * rows + step * rows := by ring
    rw [hsplit, sub_sub_cancel, add_mul, one_mul]
    push_cast
    have hone : (1 : Int) ≤ (step : Int) * rows := by exact_mod_cast hrows
    have hcomm : (rows : Int) * (step * pdp) = step * pdp * rows := by ring
    omega

theorem foldl_parseEntry {rra done : List RraEntry} {rrd : Rrd step} (h : (done ++ rra).Nodup)
    (hnames : rrd.rraNames = done.map fun entry => rraName entry step false) :
    rra.foldl parseEntry rrd =
      { rrd with
        rraNames := rrd.rraNames ++ rra.map fun entry => rraName entry step false
        rraShortNames := rrd.rraShortNames ++ rra.map fun entry => rraName entry step true } := by
  induction rra generalizing done rrd with
  | nil => simp
  | cons entry rest ih =>
    have hnew : rraName entry step false ∉ rrd.rraNames := by
      rw [hnames]
      intro hmem
      rcases mem_map.mp hmem with ⟨other, hother, heq⟩
      rw [rraName_injective step heq] at hother
      exact (disjoint_of_nodup_append h) hother mem_cons_self
    have hentry : parseEntry rrd entry =
        rrd.withName (rraName entry step false) (rraName entry step true) := if_neg hnew
    rw [foldl_cons, hentry]
    rw [append_cons] at h
    rw [ih h (by simp [Rrd.withName, hnames])]
    simp [Rrd.withName]

variable {rra : List RraEntry}

theorem parseRaw_eq (lastUpdate : Int) (h : rra.Nodup) :
    parseRaw step lastUpdate rra =
      { lastUpdate := lastUpdate
        rra := rra
        rrasBuilt := false
        rraList := []
        rraNames := rra.map fun entry => rraName entry step false
        rraShortNames := rra.map fun entry => rraName entry step true
        rraDict := ∅ } := by
  unfold parseRaw
  rw [@foldl_parseEntry step rra [] _ h rfl]
  rfl

theorem foldl_buildRra (fetch : Cf -> Nat -> Int -> Int -> Stream) {rra done : List RraEntry}
    {rrd : Rrd step} (h : (done ++ rra).Nodup)
    (hlist : rrd.rraList = done.map fun entry => rraName entry step false) :
    exists rraDict, rra.foldl (buildRra fetch) rrd =
        { rrd with
          rraList := rrd.rraList ++ rra.map fun entry => rraName entry step false
          rraDict := rraDict } ∧
      forall name, rraDict.lookup name =
        ((rra.find? fun entry => rraName entry step false = name).map
          fun entry => Rra.ofFile fetch step entry rrd.lastUpdate).or (rrd.rraDict.lookup name) := by
  induction rra generalizing done rrd with
  | nil => exact ⟨rrd.rraDict, by simp, fun name => rfl⟩
  | cons entry rest ih =>
    have hnew : rraName entry step false ∉ rrd.rraList := by
      rw [hlist]
      intro hmem
      rcases mem_map.mp hmem with ⟨other, hother, heq⟩
      rw [rraName_injective step heq] at hother
      exact (disjoint_of_nodup_append h) hother mem_cons_self
    have hentry : buildRra fetch rrd entry =
        { rrd with
          rraList := rrd.rraList ++ [rraName entry step false]
          rraDict := rrd.rraDict.insert (rraName entry step false)
            (Rra.ofFile fetch step entry rrd.lastUpdate) } := if_neg hnew
    have hrest : entry ∉ rest := (nodup_cons.mp (nodup_append.mp h).right.left).left
    rw [append_cons] at h
    rcases @ih (done ++ [entry]) (buildRra fetch rrd entry) h (by rw [hentry]; simp [hlist]) with
      ⟨rraDict, hfold, hlookup⟩
    refine ⟨rraDict, ?_, ?_⟩
    · rw [foldl_cons, hfold, hentry]
      simp
    · intro name
      rw [hlookup, hentry, find?_cons]
      dsimp only
      by_cases hname : rraName entry step false = name
      · have hnone : (rest.find? fun other => rraName other step false = name) = none := by
          rw [find?_eq_none]
          intro other hother heq
          rw [← hname] at heq
          exact hrest (rraName_injective step (of_decide_eq_true heq) ▸ hother)
        rw [hnone, decide_eq_true hname, ← hname, AList.lookup_insert]
        rfl
      · rw [decide_eq_false hname, AList.lookup_insert_ne (Ne.symm hname)]

theorem buildRras_parseRaw (fetch : Cf -> Nat -> Int -> Int -> Stream) (lastUpdate : Int)
    (h : rra.Nodup) :
    exists rraDict, buildRras fetch (parseRaw step lastUpdate rra) =
        { lastUpdate := lastUpdate
          rra := rra
          rrasBuilt := true
          rraList := rra.map fun entry => rraName entry step false
          rraNames := rra.map fun entry => rraName entry step false
          rraShortNames := rra.map fun entry => rraName entry step true
          rraDict := rraDict } ∧
      forall name, rraDict.lookup name =
        (rra.find? fun entry => rraName entry step false = name).map
          fun entry => Rra.ofFile fetch step entry lastUpdate := by
  rw [parseRaw_eq lastUpdate h, buildRras, if_neg Bool.false_ne_true]
  refine (@foldl_buildRra step fetch rra [] _ h ?_).imp fun _ hspec =>
    ⟨hspec.left, fun name => (hspec.right name).trans Option.or_none⟩
  rfl

theorem buildRras_openRrd (fetch : Cf -> Nat -> Int -> Int -> Stream) (lastUpdate : Int)
    (h : rra.Nodup) (build : Bool) :
    buildRras fetch (openRrd fetch step lastUpdate rra build) =
      buildRras fetch (parseRaw step lastUpdate rra) := by
  cases build with
  | false => rfl
  | true =>
    rcases buildRras_parseRaw fetch lastUpdate h with ⟨rraDict, hbuilt, _⟩
    rw [openRrd, if_pos rfl, hbuilt]
    rfl

theorem holds_buildRras (hfetch : FetchSpans fetch) (h : rra.Nodup) :
    Holds fetch lastUpdate rra (buildRras fetch (parseRaw step lastUpdate rra)) rra := by
  rcases buildRras_parseRaw fetch lastUpdate h with ⟨rraDict, hbuilt, hlookup⟩
  rw [hbuilt]
  have hfound : forall entry, entry ∈ rra -> rraDict.lookup (rraName entry step false) =
      some (Rra.ofFile fetch step entry lastUpdate) := by
    intro entry hentry
    have hfind : (rra.find? fun other => rraName other step false = rraName entry step false) =
        some entry := find?_of_nodup (h.map (rraName_injective step)) hentry rfl
    rw [hlookup, hfind]
    rfl
  refine ⟨rfl, rfl, Perm.refl _, ?_, ?_, rfl⟩
  · intro name
    rw [← AList.lookup_isSome, hlookup, mem_map]
    constructor
    · intro hsome
      cases hfind : rra.find? fun entry => rraName entry step false = name with
      | none =>
        rw [hfind] at hsome
        cases hsome
      | some entry =>
        have hsame := find?_some hfind
        exact ⟨entry, mem_of_find?_eq_some hfind, of_decide_eq_true hsame⟩
    · rintro ⟨entry, hentry, heq⟩
      rw [← hlookup, ← heq, hfound entry hentry]
      rfl
  · intro entry hentry
    refine ⟨_, ?_, fits_ofFile hfetch hentry⟩
    unfold Rrd.archive
    rw [hfound entry hentry]
    rfl

theorem part_rraName (entry : RraEntry) :
    part (split ['-'] 2 (rraName entry step false)) 2 = .ok (rraName entry step true) := by
  rw [split_rraName]
  rfl

variable {entries : List RraEntry}

theorem Holds.addRra {rrd : Rrd step} (h : Holds fetch lastUpdate first rrd entries) {newRra : Rra}
    (hnew : Fits step fetch lastUpdate first entry newRra) :
    exists rrd', addRra rrd newRra = .ok rrd' ∧
      Holds fetch lastUpdate first rrd' (entries ++ [entry]) := by
  have hname : newRra.name = rraName entry step false := by
    unfold Rra.name
    rw [hnew.entry_eq, hnew.step_eq]
  unfold RrdTools.addRra
  rw [hname, part_rraName]
  refine ⟨_, rfl, ?_, ?_, ?_, ?_, ?_, h.built⟩
  · rw [map_append, ← h.names]
    rfl
  · rw [h.list]
  · rw [map_append]
    exact h.shorts.append_right _
  · intro name
    rw [AList.mem_insert, h.keys, mem_append, mem_singleton]
    exact or_comm
  · intro other hother
    unfold Rrd.archive
    by_cases heq : other = entry
    · rw [heq, AList.lookup_insert]
      exact ⟨newRra, rfl, hnew⟩
    · rw [AList.lookup_insert_ne fun hnames => heq (rraName_injective step hnames)]
      rcases mem_append.mp hother with hmem | hmem
      · exact h.archives other hmem
      · exact absurd (mem_singleton.mp hmem) heq

theorem Holds.removeRra {rrd : Rrd step}
    (h : Holds fetch lastUpdate first rrd entries) (hentry : entry ∈ entries)
    (honce : entry ∉ entries.erase entry) :
    exists rrd', removeRra rrd (rraName entry step false) = .ok rrd' ∧
      Holds fetch lastUpdate first rrd' (entries.erase entry) := by
  have hname : rraName entry step false ∈ rrd.rraNames := by
    rw [h.names]
    exact mem_map_of_mem hentry
  have hshort : rraName entry step true ∈ rrd.rraShortNames :=
    h.shorts.mem_iff.mpr (mem_map_of_mem hentry)
  unfold RrdTools.removeRra remove
  rw [h.list, if_pos hname, part_rraName]
  dsimp only [bind, Except.bind]
  rw [if_pos hshort]
  dsimp only
  rw [if_pos ((h.keys _).mpr hname)]
  have herase : rrd.rraNames.erase (rraName entry step false) =
      (entries.erase entry).map fun entry => rraName entry step false := by
    rw [h.names, map_erase (rraName_injective step)]
  refine ⟨_, rfl, herase, rfl, ?_, ?_, ?_, h.built⟩
  · have hperm := h.shorts.erase (rraName entry step true)
    refine hperm.trans ?_
    have hcons := (perm_cons_erase hentry).map fun entry => rraName entry step true
    rw [map_cons] at hcons
    have hback := hcons.erase (rraName entry step true)
    rwa [erase_cons_head] at hback
  · intro name
    dsimp only
    rw [AList.mem_erase, h.keys, herase, h.names, mem_map, mem_map]
    constructor
    · rintro ⟨hne, other, hother, heq⟩
      refine ⟨other, (mem_erase_of_ne ?_).mpr hother, heq⟩
      intro hsame
      rw [hsame] at heq
      exact hne heq.symm
    · rintro ⟨other, hother, heq⟩
      refine ⟨?_, other, mem_of_mem_erase hother, heq⟩
      intro hsame
      rw [hsame] at heq
      rw [rraName_injective step heq] at hother
      exact honce hother
  · intro other hother
    have hne : rraName other step false ≠ rraName entry step false := by
      intro heq
      rw [rraName_injective step heq] at hother
      exact honce hother
    unfold Rrd.archive
    rw [AList.lookup_erase_ne hne]
    exact h.archives other (mem_of_mem_erase hother)

end Icsw.RrdTools
