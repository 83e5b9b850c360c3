import Icsw.Foundation.Decimal
import Icsw.Foundation.Regex
import Icsw.Foundation.Intervals

/-!
# Archives

An archive holds rows of values at equal distances in time..  A row that is asked for at some time is
read or interpolated, and unknown values of an archive are filled from other archives.
-/

namespace Icsw.RrdTools

open Foundation List

/-- A consolidation function. -/
structure Cf where
  name : Text
  isWord : '-' ∉ name
deriving DecidableEq

/-- What names an archive. -/
structure RraEntry where
  cf : Cf
  pdpPerRow : Nat
  rows : Nat
deriving DecidableEq

def shortName (pdp rows step : Nat) : Text :=
  formatInt pdp ++ '-' :: (formatInt rows ++ '-' :: formatInt step)

variable (entry : RraEntry)

def rraName (step : Nat) (short : Bool) : Text :=
  let name := shortName entry.pdpPerRow entry.rows step
  if short = true then name else "RRA-".toList ++ entry.cf.name ++ '-' :: name

/-- `name[index]` -/
def part (parts : List Text) (index : Nat) : Except PyError Text :=
  match parts[index]? with
  | none => .error .indexError
  | some text => .ok text

/-- `int(text)` -/
def toInt (text : Text) : Except PyError Int :=
  match parseInt text with
  | none => .error .valueError
  | some value => .ok value

/-- `int(parts[index])` -/
def number (parts : List Text) (index : Nat) : Except PyError Int := do
  toInt (<- part parts index)

/-- The total covered timeframe in seconds. -/
def totalWidth (rraName : Text) : Except PyError Int := do
  let parts := splitAll '-' rraName
  if (<- part parts 0) = "RRA".toList then
    return (<- number parts 2) * (<- number parts 3) * (<- number parts 4)
  else
    return (<- number parts 0) * (<- number parts 1) * (<- number parts 2)

/-- The timeframe of a datapoint in seconds. -/
def width (rraName : Text) : Except PyError Int := do
  let parts := splitAll '-' rraName
  if (<- part parts 0) = "RRA".toList then
    return (<- number parts 2) * (<- number parts 4)
  else
    return (<- number parts 0) * (<- number parts 2)

def fillRraName (shortName fullName : Text) : Text :=
  intercalate ['-'] ((split ['-'] 2 fullName).take 2) ++ '-' :: shortName

/-- `in_str.split("-")[1]` -/
def parseCf (inStr : Text) : Except PyError Cf :=
  match h : (splitAll '-' inStr)[1]? with
  | none => .error .indexError
  | some text => .ok ⟨text, not_mem_of_mem_splitAll (mem_of_getElem? h)⟩

theorem dash_not_mem_formatInt (value : Nat) : '-' ∉ formatInt (value : Int) := fun hmem =>
  absurd (isDigit_toDigits hmem).left (by decide)

theorem splitAll_shortName (pdp rows step : Nat) :
    splitAll '-' (shortName pdp rows step) = [formatInt pdp, formatInt rows, formatInt step] := by
  unfold shortName
  rw [splitAll_cons (dash_not_mem_formatInt pdp), splitAll_cons (dash_not_mem_formatInt rows),
    splitAll_of_not_mem (dash_not_mem_formatInt step)]

theorem splitAll_rraName (step : Nat) :
    splitAll '-' (rraName entry step false) =
      ["RRA".toList, entry.cf.name, formatInt entry.pdpPerRow, formatInt entry.rows,
        formatInt step] := by
  show splitAll '-' ("RRA".toList ++ '-' :: (entry.cf.name ++ '-' :: shortName _ _ _)) = _
  rw [splitAll_cons (by decide), splitAll_cons entry.cf.isWord, splitAll_shortName]

theorem toInt_formatInt (value : Int) : toInt (formatInt value) = .ok value := by
  unfold toInt
  rw [parseInt_formatInt]

theorem formatInt_ne_mark (value : Nat) : formatInt (value : Int) ≠ "RRA".toList := fun h =>
  have hmem : 'R' ∈ formatInt (value : Int) := h ▸ (by decide : 'R' ∈ "RRA".toList)
  not_mem_formatInt (by decide) (by decide) hmem

theorem totalWidth_shortName (pdp rows step : Nat) :
    totalWidth (shortName pdp rows step) = .ok ((pdp * rows * step : Nat) : Int) := by
  unfold totalWidth
  rw [splitAll_shortName]
  show (if formatInt (pdp : Int) = "RRA".toList then _ else _) = _
  rw [if_neg (formatInt_ne_mark pdp)]
  show (do return (<- toInt (formatInt pdp)) * (<- toInt (formatInt rows)) *
    (<- toInt (formatInt step))) = _
  rw [toInt_formatInt, toInt_formatInt, toInt_formatInt, Int.natCast_mul, Int.natCast_mul]
  rfl

theorem width_shortName (pdp rows step : Nat) :
    width (shortName pdp rows step) = .ok ((pdp * step : Nat) : Int) := by
  unfold width
  rw [splitAll_shortName]
  show (if formatInt (pdp : Int) = "RRA".toList then _ else _) = _
  rw [if_neg (formatInt_ne_mark pdp)]
  show (do return (<- toInt (formatInt pdp)) * (<- toInt (formatInt step))) = _
  rw [toInt_formatInt, toInt_formatInt, Int.natCast_mul]
  rfl

theorem totalWidth_rraName (step : Nat) (short : Bool) :
    totalWidth (rraName entry step short) =
      .ok ((entry.pdpPerRow * entry.rows * step : Nat) : Int) := by
  cases short with
  | true => exact totalWidth_shortName _ _ _
  | false =>
    unfold totalWidth
    rw [splitAll_rraName]
    show (do return (<- toInt (formatInt entry.pdpPerRow)) * (<- toInt (formatInt entry.rows)) *
      (<- toInt (formatInt step))) = _
    rw [toInt_formatInt, toInt_formatInt, toInt_formatInt, Int.natCast_mul, Int.natCast_mul]
    rfl

theorem split_rraName (step : Nat) :
    split ['-'] 2 (rraName entry step false) =
      ["RRA".toList, entry.cf.name, rraName entry step true] := by
  show split ['-'] 2 ("RRA".toList ++ '-' :: (entry.cf.name ++ '-' :: rraName entry step true)) = _
  rw [split_succ_append (by decide), split_succ_append entry.cf.isWord, split]

theorem fillRraName_rraName (step pdp rows : Nat) :
    fillRraName (shortName pdp rows step) (rraName entry step false) =
      rraName ⟨entry.cf, pdp, rows⟩ step false := by
  unfold fillRraName
  rw [split_rraName]
  show intercalate ['-'] ["RRA".toList, entry.cf.name] ++ '-' :: shortName pdp rows step =
    "RRA".toList ++ '-' :: (entry.cf.name ++ '-' :: shortName pdp rows step)
  rw [intercalate_cons_cons, intercalate_singleton]
  simp only [append_assoc, cons_append, nil_append]

theorem parseCf_rraName (step : Nat) : parseCf (rraName entry step false) = .ok entry.cf := by
  unfold parseCf
  split
  · next h =>
      rw [splitAll_rraName] at h
      cases h
  · next text h =>
      have htext := h
      rw [splitAll_rraName] at htext
      cases htext
      rfl

theorem shortName_inj {pdp rows step pdp' rows' step' : Nat}
    (h : shortName pdp rows step = shortName pdp' rows' step') :
    pdp = pdp' ∧ rows = rows' ∧ step = step' := by
  have hparts := congrArg (splitAll '-') h
  rw [splitAll_shortName, splitAll_shortName] at hparts
  simp only [cons.injEq, and_true] at hparts
  rcases hparts with ⟨hpdp, hrows, hstep⟩
  exact ⟨Int.ofNat.inj (formatInt_injective hpdp), Int.ofNat.inj (formatInt_injective hrows),
    Int.ofNat.inj (formatInt_injective hstep)⟩

theorem entry_eq {entry other : RraEntry} {step : Nat} (hcf : entry.cf = other.cf)
    (hshort : rraName entry step true = rraName other step true) : entry = other := by
  rcases shortName_inj hshort with ⟨hpdp, hrows, _⟩
  cases entry
  cases other
  cases hcf
  cases hpdp
  cases hrows
  rfl

theorem rraName_injective (step : Nat) :
    Function.Injective fun entry => rraName entry step false := by
  intro entry other h
  have hparts := congrArg (split ['-'] 2) h
  dsimp only at hparts
  rw [split_rraName, split_rraName] at hparts
  simp only [cons.injEq, true_and, and_true] at hparts
  rcases hparts with ⟨hcf, hshort⟩
  apply entry_eq _ hshort
  cases entry with
  | mk cf pdp rows =>
    cases other with
    | mk cf' pdp' rows' =>
      cases cf
      cases cf'
      cases hcf
      rfl

theorem rraName_suffix_iff {entry other : RraEntry} {step : Nat} :
    ('-' :: rraName other step true) <:+ rraName entry step false <->
      rraName entry step true = rraName other step true := by
  constructor
  · intro hsuffix
    rcases hsuffix with ⟨before, hbefore⟩
    have hparts := congrArg (splitAll '-') hbefore
    rw [splitAll_append, splitAll_rraName] at hparts
    have hother : splitAll '-' (rraName other step true) =
        [formatInt other.pdpPerRow, formatInt other.rows, formatInt step] :=
      splitAll_shortName _ _ _
    rw [hother] at hparts
    have hsplit : _ = ["RRA".toList, entry.cf.name] ++
        [formatInt entry.pdpPerRow, formatInt entry.rows, formatInt step] := hparts
    have hlast := (append_inj' hsplit rfl).right
    simp only [cons.injEq, and_true] at hlast
    show shortName _ _ _ = shortName _ _ _
    unfold shortName
    rw [hlast.left, hlast.right]
  · intro h
    rw [← h]
    exact ⟨"RRA".toList ++ '-' :: entry.cf.name, by simp [rraName]⟩

/-!
## Coverage strings

A target coverage says how long a slot is and how long the slots are together, as in
`1 min for 2 days`.
-/

def isDigit (c : Char) : Bool := c.isDigit

def isSpace (c : Char) : Bool := [' ', '\t', '\n', '\r', '\x0b', '\x0c'].contains c

def isPlural (c : Char) : Bool := c == 's'

/-- The groups of a coverage string. -/
structure WidthMatch where
  slotNum : Text
  slotType : Text
  totalNum : Text
  totalType : Text
deriving DecidableEq

/-- `^(?P<slot_num>\d+)\s*(?P<slot_type>\S+?)s*\s+for\s+(?P<total_num>\d+)\s*(?P<total_type>\S+?)s*$` -/
def wsRe : List Part :=
  [.plus isDigit, .star isSpace, .plusLazy (fun c => !isSpace c), .star isPlural, .plus isSpace,
    .one 'f', .one 'o', .one 'r', .plus isSpace, .plus isDigit, .star isSpace,
    .plusLazy (fun c => !isSpace c), .star isPlural]

def matchWidth (inStr : Text) : Option WidthMatch :=
  match capture wsRe inStr with
  | some [slotNum, _, slotType, _, _, _, _, _, _, totalNum, _, totalType, _] =>
    some ⟨slotNum, slotType, totalNum, totalType⟩
  | _ => none

def lut : List (Text × Nat) :=
  [("min".toList, 60), ("minute".toList, 60), ("hour".toList, 3600), ("day".toList, 24 * 3600),
    ("week".toList, 24 * 3600 * 7), ("month".toList, 24 * 3600 * 31),
    ("year".toList, 24 * 3600 * 366)]

/-- `_lut.get(type, 0)` -/
def seconds (unit : Text) : Nat := (lut.lookup unit).getD 0

namespace WidthMatch

def slotWidth (cm : WidthMatch) : Nat := digitsValue cm.slotNum * seconds cm.slotType

def totalWidth (cm : WidthMatch) : Nat := digitsValue cm.totalNum * seconds cm.totalType

end WidthMatch

structure Coverage where
  width : Nat
  total : Nat
  rows : Nat
  pdp : Nat
  name : Text
deriving DecidableEq

def coverage (slotWidth totalWidth numRows numPdp step : Nat) : Coverage where
  width := slotWidth
  total := totalWidth
  rows := numRows
  pdp := numPdp
  name := shortName numPdp numRows step

def parseWidthStr (inStr : Text) (step : Nat) (correctZeroPdp : Bool) :
    Except PyError (Option Coverage) :=
  match matchWidth inStr with
  | none => .ok none
  | some cm =>
    let slotWidth := cm.slotWidth
    if slotWidth ≠ 0 ∧ cm.totalWidth ≠ 0 then
      let numRows := cm.totalWidth / slotWidth
      let totalWidth := numRows * slotWidth
      if step = 0 then .error .zeroDivisionError
      else
        let numPdp := slotWidth / step
        if numPdp = 0 ∧ correctZeroPdp = true then
          .ok (some (coverage step totalWidth (totalWidth / step) 1 step))
        else if numPdp ≠ 0 then .ok (some (coverage slotWidth totalWidth numRows numPdp step))
        else .ok none
    else .ok none

/-- All that is said of a coverage agrees: its numbers, its name and what is asked for. -/
structure Agrees (cm : WidthMatch) (step : Nat) (found : Coverage) : Prop where
  width_eq : found.width = found.pdp * step
  total_eq : found.total = found.rows * found.width
  total_le : found.total ≤ cm.totalWidth
  totalWidth_name : totalWidth found.name = .ok (found.total : Int)
  width_name : width found.name = .ok (found.width : Int)

theorem agrees_coverage_iff {cm : WidthMatch} {slot total rows pdp step : Nat}
    (htotal : total ≤ cm.totalWidth) :
    Agrees cm step (coverage slot total rows pdp step) <->
      slot = pdp * step ∧ total = rows * slot := by
  constructor
  · intro h
    exact ⟨h.width_eq, h.total_eq⟩
  · rintro ⟨hslot, hrows⟩
    refine ⟨hslot, hrows, htotal, ?_, ?_⟩
    · show totalWidth (shortName pdp rows step) = .ok (total : Int)
      rw [totalWidth_shortName, hrows, hslot, Nat.mul_left_comm, Nat.mul_assoc]
    · show width (shortName pdp rows step) = .ok (slot : Int)
      rw [width_shortName, hslot]

theorem parseWidthStr_cases {inStr : Text} {cm : WidthMatch} {step : Nat} {correctZeroPdp : Bool}
    {found : Coverage} (hmatch : matchWidth inStr = some cm) (hstep : 0 < step)
    (h : parseWidthStr inStr step correctZeroPdp = .ok (some found)) :
    cm.slotWidth ≠ 0 ∧
      ((cm.slotWidth < step ∧ found =
          coverage step (cm.totalWidth / cm.slotWidth * cm.slotWidth)
            (cm.totalWidth / cm.slotWidth * cm.slotWidth / step) 1 step) ∨
        (step ≤ cm.slotWidth ∧ found =
          coverage cm.slotWidth (cm.totalWidth / cm.slotWidth * cm.slotWidth)
            (cm.totalWidth / cm.slotWidth) (cm.slotWidth / step) step)) := by
  unfold parseWidthStr at h
  rw [hmatch] at h
  dsimp only at h
  split_ifs at h with hwidths hzero hcorrect hpdp
  · cases h
    exact ⟨hwidths.left, Or.inl ⟨(Nat.div_eq_zero_iff_lt hstep).mp hcorrect.left, rfl⟩⟩
  · cases h
    refine ⟨hwidths.left, Or.inr ⟨?_, rfl⟩⟩
    exact Nat.le_of_not_lt fun hlt => hpdp (Nat.div_eq_of_lt hlt)
  · cases h
  · cases h

/-- A coverage agrees exactly if its slots are whole numbers of steps, or are shorter than a step
and the total is a whole number of steps. -/
theorem parseWidthStr_agrees_iff {inStr : Text} {cm : WidthMatch} {step : Nat}
    {correctZeroPdp : Bool} {found : Coverage} (hmatch : matchWidth inStr = some cm)
    (hstep : 0 < step) (h : parseWidthStr inStr step correctZeroPdp = .ok (some found)) :
    Agrees cm step found <->
      step ∣ cm.slotWidth ∨
        (cm.slotWidth < step ∧ step ∣ cm.totalWidth / cm.slotWidth * cm.slotWidth) := by
  have htotal : cm.totalWidth / cm.slotWidth * cm.slotWidth ≤ cm.totalWidth :=
    Nat.div_mul_le_self _ _
  rcases parseWidthStr_cases hmatch hstep h with ⟨hslot, ⟨hshort, hfound⟩ | ⟨hlong, hfound⟩⟩
  · rw [hfound, agrees_coverage_iff htotal]
    constructor
    · rintro ⟨_, hrows⟩
      exact Or.inr ⟨hshort, Dvd.intro_left _ hrows.symm⟩
    · rintro (hdvd | ⟨_, hdvd⟩)
      · exact absurd (Nat.le_of_dvd (Nat.pos_of_ne_zero hslot) hdvd) (Nat.not_le_of_lt hshort)
      · exact ⟨(Nat.one_mul step).symm, (Nat.div_mul_cancel hdvd).symm⟩
  · rw [hfound, agrees_coverage_iff htotal]
    constructor
    · rintro ⟨hwidth, _⟩
      exact Or.inl (Dvd.intro_left _ hwidth.symm)
    · rintro (hdvd | ⟨hshort, _⟩)
      · exact ⟨(Nat.div_mul_cancel hdvd).symm, rfl⟩
      · exact absurd hlong (Nat.not_le_of_lt hshort)

theorem five_minutes_agree :
    Agrees ⟨"5".toList, "min".toList, "2".toList, "week".toList⟩ 300
        (coverage 300 1209600 4032 1 300) <->
      300 ∣ 300 ∨ (300 < 300 ∧ 300 ∣ 1209600 / 300 * 300) :=
  @parseWidthStr_agrees_iff "5min for 2 week".toList
    ⟨"5".toList, "min".toList, "2".toList, "week".toList⟩ 300 false _ (by decide +kernel)
    (by decide) (by decide +kernel)

/-- Slots of seven minutes are said to be longer than the five minutes of the name. -/
theorem seven_minutes_differ :
    exists inStr cm step found, matchWidth inStr = some cm ∧ 0 < step ∧
      parseWidthStr inStr step false = .ok (some found) ∧ ¬ Agrees cm step found := by
  refine ⟨"7min for 1day".toList, ⟨"7".toList, "min".toList, "1".toList, "day".toList⟩, 300,
    coverage 420 86100 205 1 300, by decide +kernel, by decide, by decide +kernel, ?_⟩
  intro h
  exact absurd h.width_eq (by decide)

open Foundation

/-- The values of the data sources at one time, none for what is not known. -/
abbrev Values := List (Option Rat)

/-- `((start, end, step), names, rows)` as it is fetched from a file. -/
structure Stream where
  startTime : Int
  endTime : Int
  timeStep : Nat
  names : List Text
  tuples : List Values
  timeStep_pos : 0 < timeStep
  tuples_ne_nil : tuples ≠ []

structure Rra where
  step : Nat
  entry : RraEntry
  stream : Stream

/-- A stream with other rows. -/
def Stream.withTuples (stream : Stream) (tuples : List Values) (h : tuples ≠ []) : Stream where
  startTime := stream.startTime
  endTime := stream.endTime
  timeStep := stream.timeStep
  names := stream.names
  tuples := tuples
  timeStep_pos := stream.timeStep_pos
  tuples_ne_nil := h

namespace Rra

def name (rra : Rra) : Text := rraName rra.entry rra.step false

def rows (rra : Rra) : Nat := rra.entry.rows

def startTime (rra : Rra) : Int := rra.stream.startTime

def endTime (rra : Rra) : Int := rra.stream.endTime

def timeStep (rra : Rra) : Nat := rra.stream.timeStep

/-- `self.stream[2]` -/
def tuples (rra : Rra) : List Values := rra.stream.tuples

end Rra

/-- Rows of unknown values are put in front up to one more than the number of rows. -/
def padStream (rows : Nat) (stream : Stream) : Stream :=
  if stream.tuples.length ≠ rows + 1 then
    let numMiss : Int := rows + 1 - stream.tuples.length
    let noneTuple := replicate (stream.tuples.head stream.tuples_ne_nil).length none
    { startTime := stream.startTime - numMiss * stream.timeStep
      endTime := stream.endTime
      timeStep := stream.timeStep
      names := stream.names
      tuples := replicate numMiss.toNat noneTuple ++ stream.tuples
      timeStep_pos := stream.timeStep_pos
      tuples_ne_nil := fun h => stream.tuples_ne_nil (append_eq_nil_iff.mp h).right }
  else stream

/-- An archive of a file; what it holds is fetched by its consolidation function and resolution,
and between two times. -/
def Rra.ofFile (fetch : Cf -> Nat -> Int -> Int -> Stream) (step : Nat) (entry : RraEntry)
    (actTime : Int) : Rra where
  step := step
  entry := entry
  stream := padStream entry.rows
    (fetch entry.cf (step * entry.pdpPerRow)
      (actTime - (step * entry.pdpPerRow * entry.rows : Nat)) actTime)

/-- The stream of an archive that is not in a file. -/
def unknownStream (step : Nat) (entry : RraEntry) (h : 0 < step * entry.pdpPerRow) (refRra : Rra)
    (actTime : Int) : Stream where
  startTime := actTime - ((entry.pdpPerRow + 1) * step * entry.rows : Nat)
  endTime := actTime
  timeStep := step * entry.pdpPerRow
  names := refRra.stream.names
  tuples := replicate (entry.rows + 1) (replicate refRra.stream.names.length none)
  timeStep_pos := h
  tuples_ne_nil := cons_ne_nil _ _

def Rra.create (step rows : Nat) (cf : Cf) (pdp : Nat) (h : 0 < step * pdp) (refRra : Rra)
    (actTime : Int) : Rra where
  step := step
  entry := ⟨cf, pdp, rows⟩
  stream := padStream rows (unknownStream step ⟨cf, pdp, rows⟩ h refRra actTime)

def interpolate (itTime : Int) (timeStep : Nat) (left right : Option Rat) : Option Rat :=
  match left, right with
  | some leftValue, some rightValue =>
    let f1 : Rat := itTime / timeStep
    let f0 := 1 - f1
    some (f0 * leftValue + f1 * rightValue)
  | _, _ => none

/-- `left_value or None` -/
def orNone (value : Option Rat) : Option Rat := value.filter fun known => known ≠ 0

def getValTuple (rra : Rra) (tupleTime : Int) : Values :=
  let unknown := replicate (rra.tuples.head rra.stream.tuples_ne_nil).length none
  let sIdx := (tupleTime - rra.startTime) / (rra.timeStep : Int)
  if 0 ≤ sIdx then
    let itTime := tupleTime - (sIdx * rra.timeStep + rra.startTime)
    match rra.tuples[sIdx.toNat]? with
    | none => unknown
    | some myTuple =>
      if 0 < itTime then
        match rra.tuples[sIdx.toNat + 1]? with
        | none => myTuple
        | some nextTuple => zipWith (interpolate itTime rra.timeStep) myTuple nextTuple
      else if itTime = 0 then myTuple.map orNone
      else myTuple
  else unknown

def idxOffset (rra other : Rra) : Nat :=
  ((rra.rows : Int) - (other.endTime - other.startTime) / (rra.timeStep : Int) + 1).toNat

def fitTuple (rra other : Rra) (index : Nat) (valTuple : Values) : Values :=
  if idxOffset rra other ≤ index ∧ none ∈ valTuple then
    zipWith (fun myVal otherVal => myVal <|> otherVal) valTuple
      (getValTuple other (index * rra.timeStep + rra.startTime))
  else valTuple

def fitFrom (rra other : Rra) : Rra where
  step := rra.step
  entry := rra.entry
  stream := rra.stream.withTuples (rra.tuples.mapIdx (fitTuple rra other))
    (fun h => rra.stream.tuples_ne_nil (mapIdx_eq_nil_iff.mp h))

/-- The archive with its unknown values taken from the first of the others that has them, and
whether there were any. -/
def fitData (rra : Rra) (otherRras : List Rra) : Rra × Bool :=
  let fitted := otherRras.foldl fitFrom rra
  (fitted, decide (fitted.tuples ≠ rra.tuples))

end Icsw.RrdTools
