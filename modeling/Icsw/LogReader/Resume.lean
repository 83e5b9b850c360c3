import Icsw.Foundation.Run
import Icsw.LogReader.ParseLogFile

/-!
# Resuming a log file

Each run resumes at the start of the last line of the run before, and if its timestamp is the one
that was noted, reading continues after it.  Otherwise the file is read from its start.  There are
no archived files, and the file is only appended to.
-/

namespace Icsw.LogReader

open Foundation List

def oneDay : Int := 86400

/-- The local time in seconds, a day after the first date at the earliest. -/
structure Clock where
  seconds : Int
  yesterday : isDate (seconds - oneDay) = true

structure LogState where
  file : TextFile
  reader : Reader

def initialState : LogState where
  file := []
  reader := emptyReader

def fileLines (file : TextFile) : List Text := splitLines id file.text

def parsed (raw : Text) : Option LogLine := (parseLine (rstrip '\n' raw) none).toOption

/-- What the reader takes for granted about the fields of a line not to raise. -/
def ReadableFields (known : Known) (kind : Kind) (fields : List Text) : Prop :=
  match kind with
  | .hostFlappingAlert | .hostDowntimeAlert | .hostNotification => True
  | _ => SoundFields known kind fields

/-- A line that does not make the reader raise, neither now nor in the next run. -/
def Readable (known : Known) (raw : Text) : Prop :=
  forall line, parsed raw = some line ->
    isDate line.timestamp = true ∧
      forall kind, line.kindOfInterest = some kind ->
        ReadableFields known kind (fields kind line.info)

/-- The timestamps of the lines that can be parsed do not decrease. -/
def InOrder (file : TextFile) : Prop :=
  ((fileLines file).filterMap parsed).Pairwise (fun a b => a.timestamp ≤ b.timestamp)

/-- The result of a line of the current log file. -/
def readResult (known : Known) (raw : Text) : LineResult :=
  match readLine known none none (raw, 0) with
  | .ok result => result
  | .error _ => ⟨[], none, none, []⟩

variable {known : Known}

def lineEntries (known : Known) (lines : List Text) : List Entry :=
  lines.flatMap (fun raw => (readResult known raw).created)

variable {lines : List Text}

end Icsw.LogReader
