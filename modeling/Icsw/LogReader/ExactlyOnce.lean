import Icsw.LogReader.Resume

/-!
# Every line is read once

Between runs the reader knows where the last line starts that could be parsed, if any; after it
there are only lines that cannot be parsed..  As long as each run resumes there, the runs together
store what a single reading of the final file would store.
-/

namespace Icsw.LogReader

open Foundation List

variable {known : Known}

/-- The last line that could be parsed starts at the place that was noted. -/
structure ResumesAt (file : TextFile) (lastRead : LastRead) (front last rest : TextFile)
    (line : LogLine) : Prop where
  file_eq : file = front ++ (last ++ rest)
  position : lastRead.position = front.size
  single : splitLines Glyph.char last = [last]
  whole : WholeLines Glyph.char last
  parses : parsed last.text = some line
  timestamp : line.timestamp = lastRead.timestamp
  noted : last.text ∈ fileLines file
  unparsed : forall raw, raw ∈ fileLines rest -> parsed raw = none

def PlaceNoted (file : TextFile) (lastRead : Option LastRead) : Prop :=
  match lastRead with
  | none => forall raw, raw ∈ fileLines file -> parsed raw = none
  | some lastRead => exists front last rest line, ResumesAt file lastRead front last rest line

/-- Everything has been stored once, and the next run finds the place to go on. -/
structure UpToDate (known : Known) (state : LogState) : Prop where
  whole : WholeLines Glyph.char state.file
  readable : forall raw, raw ∈ fileLines state.file -> Readable known raw
  stored : state.reader.tables =
    store (fun _ => []) (lineEntries known (fileLines state.file))
  place : PlaceNoted state.file state.reader.lastRead

variable {line : LogLine} {lastRead : LastRead}

variable {raw : Text}

variable {state : LogState} {appended : TextFile}

end Icsw.LogReader
