import Icsw.LogReader.WellFormed

/-!
# Parsing a log file

The reader stores the entries of the well-formed lines and warns about all others exactly if every
line of the file is sound..  An unsound line makes it raise or store an entry without a device.
-/

namespace Icsw.LogReader

open Foundation List

/-- A well-formed line gives its entries; any other one gives a warning and no entry. -/
def ReadsAs (described : Option (List Entry)) (created : List Entry) (warnings : List Text) :
    Prop :=
  match described with
  | some entries => created = entries
  | none => created = [] ∧ warnings ≠ []

variable {timestamp : Int} {text msg : Text}

variable {logfile : Option Nat}

variable {line : LogLine}

variable {known : Known}

variable {lineNo : Option Nat}

variable {startAt : Option Int}

variable {lines : List Text} {results : List LineResult}

section File

variable (known : Known) (logfile : Option Nat) (startAt : Option Int)

variable {entry : Entry} {entries : List Entry}

end File

/-!
### Four lines that are not sound
-/

def emptyReader : Reader where
  tables := fun _ => []
  down := []
  dumpTimes := []
  lastRead := none
  warnings := []

end Icsw.LogReader
