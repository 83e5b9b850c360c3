import Icsw.RrdTools.FitData

/-!
# Copying an archive into another one

The rows of an archive that lie in a range of time are replaced by those of another archive, which
are paired by their index once the other stream has been cut or padded to the same length.
-/

namespace Icsw.RrdTools

open Foundation

/-- The keyword arguments. -/
structure CopyArgs where
  rowMapping : List (List Text × List (Nat × Nat))
  overwriteIfUnknown : Bool

def noArgs : CopyArgs := ⟨[], false⟩

/-- `stream[0]` -/
def Stream.info (stream : Stream) : Int × Int × Nat :=
  (stream.startTime, stream.endTime, stream.timeStep)

/--
The rows of the other stream as they are paired with those of the archive.  A stretched stream is
not used, as the steps that are compared after it are those of the two archives, and a compressed
one is shown by a method that does not exist.
-/
def sourceTuples (mine other : Stream) : Except PyError (Option (List Values)) :=
  if mine.info = other.info then .ok (some other.tuples)
  else if mine.timeStep ≠ other.timeStep then
    let fac := other.timeStep / mine.timeStep
    let revFac := mine.timeStep / other.timeStep
    if fac * mine.timeStep = other.timeStep then .ok none
    else if revFac * other.timeStep = mine.timeStep then .error .attributeError
    else .ok none
  else
    let myStreamLen := mine.tuples.length
    let otherStreamLen := other.tuples.length
    let numVals := (mine.tuples.head mine.tuples_ne_nil).length
    if myStreamLen = otherStreamLen then .ok (some other.tuples)
    else if myStreamLen < otherStreamLen then
      .ok (some (other.tuples.drop (otherStreamLen - myStreamLen)))
    else
      .ok (some (List.replicate (myStreamLen - otherStreamLen) (List.replicate numVals none) ++
        other.tuples))

/-- The place of each data source in the other stream, none where the names do not match. -/
def transDict (args : CopyArgs) (mine other : List Text) : Option (List (Nat × Nat)) :=
  if mine = other then some []
  else if mine.length ≠ other.length then args.rowMapping.lookup mine
  else if forall key, key ∈ mine -> key ∈ other then
    some (mine.map fun key => (mine.idxOf key, other.idxOf key))
  else args.rowMapping.lookup mine

/-- `other_vals[trans_dict[idx]]` -/
def translateOne (transDict : List (Nat × Nat)) (otherVals : Values) (idx : Nat) :
    Except PyError (Option Rat) :=
  match transDict.lookup idx with
  | none => .error .keyError
  | some source => (otherVals[source]?).elim (.error .indexError) .ok

/-- The values of a row of the other stream in the order of the archive. -/
def translate (transDict : List (Nat × Nat)) (width : Nat) (otherVals : Values) :
    Except PyError Values :=
  if transDict = [] then .ok otherVals
  else
    let padded := otherVals ++ List.replicate (width - otherVals.length) none
    (List.range padded.length).mapM (translateOne transDict padded)

def mergeRow (args : CopyArgs) (mine : Stream) (transDict : List (Nat × Nat)) (sTime eTime : Int)
    (row : (Values × Values) × Nat) : Except PyError Values := do
  let ((myVals, otherVals), diffTime) := row
  let noneTuple := List.replicate (mine.tuples.head mine.tuples_ne_nil).length none
  let actTime := mine.startTime + mine.timeStep * diffTime
  if actTime > sTime ∧ actTime < eTime then
    let otherVals <- translate transDict myVals.length otherVals
    if myVals ≠ noneTuple ∧ args.overwriteIfUnknown = true then return myVals
    else return otherVals
  else return myVals

/-- The rows of the archive after the copying, and whether it succeeded. -/
def copyRraObject (args : CopyArgs) (mine other : Stream) (sTime eTime : Int) :
    Except PyError (List Values × Bool) := do
  if eTime < mine.startTime ∨ sTime > mine.endTime then return (mine.tuples, true)
  else
    match <- sourceTuples mine other with
    | none => return (mine.tuples, true)
    | some source =>
      match transDict args mine.names other.names with
      | none => return (mine.tuples, false)
      | some transDict =>
        let mergedStream <- (mine.tuples.zip source).zipIdx.mapM
          (mergeRow args mine transDict sTime eTime)
        return (mergedStream, true)

namespace Stream

def timeOf (stream : Stream) (index : Nat) : Int := instant stream.startTime stream.timeStep index

/-- The time lies in the range, and after it the row is the last one. -/
def InForce (stream : Stream) (time : Int) (index : Nat) : Prop :=
  index < stream.tuples.length ∧ stream.timeOf index ≤ time ∧ time < stream.timeOf (index + 1)

def InSpan (stream : Stream) (time : Int) : Prop :=
  stream.startTime ≤ time ∧ time < stream.timeOf stream.tuples.length

instance (stream : Stream) (time : Int) : Decidable (stream.InSpan time) :=
  inferInstanceAs (Decidable (_ ∧ _))

end Stream

def meanKnown (values : List (Option Rat)) : Option Rat :=
  let known := values.filterMap id
  if known = [] then none else some (known.sum / known.length)

/-- The value of a data source that is in force at a time: the one of the row of the time, or the
mean of the rows in a longer step from the time on. -/
def valueInForce (other : Stream) (step : Nat) (time : Int) (source : Nat) : Option Rat :=
  if step ≤ other.timeStep then
    column ((other.tuples[((time - other.startTime) / (other.timeStep : Int)).toNat]?).getD []) source
  else
    meanKnown (((List.range other.tuples.length).filter fun index =>
      time ≤ other.timeOf index ∧ other.timeOf index < time + step).map fun index =>
        column ((other.tuples[index]?).getD []) source)

/-- The rows as they should be: those in the range and in the span of the other stream have the
values in force there. -/
def replaced (mine other : Stream) (sTime eTime : Int) : List Values :=
  mine.tuples.mapIdx fun index values =>
    if (sTime < mine.timeOf index ∧ mine.timeOf index < eTime) ∧
        other.InSpan (mine.timeOf index) then
      mine.names.map fun name =>
        valueInForce other mine.timeStep (mine.timeOf index) (other.names.idxOf name)
    else values

end Icsw.RrdTools
