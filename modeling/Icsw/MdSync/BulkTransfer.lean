import Icsw.MdSync.Received

/-!
# Bulk transfer

The contents of a message are put together and cut apart again by the sizes in its file list, so
that each file is stored with its own content, the empty ones included.
-/

namespace Icsw.MdSync
namespace Received

open Foundation List

/-- The files that have been written, in their order. -/
def writes (events : List Event) : List (Text × Content) :=
  events.filterMap fun event =>
    match event with
    | .stored path _ content .complete => some (path, content)
    | _ => none

def sent (sendList : List SendFile) : List (Text × Content) :=
  sendList.map fun file => (file.path, file.content)

/-- The disk lets a file be written. -/
structure StoreDisk.Accepts (disk : StoreDisk) : Prop where
  there : disk.dirThere = true
  opens : disk.openRaises = none
  writes : disk.writeRaises = none

theorem toInt_formatInt (value : Int) : toInt (formatInt value) = .ok value := by
  unfold toInt
  rw [parseInt_formatInt]

/-- The bytes of `"cfg\n"`, its archive and the text of it. -/
def sample : Content := [99, 102, 103, 10]

def sampleArchive : Content :=
  [66, 90, 104, 57, 49, 65, 89, 38, 83, 89, 83, 59, 238, 186, 0, 0, 0, 193, 0, 0, 16, 9, 128, 32,
    0, 33, 154, 104, 51, 77, 19, 60, 93, 201, 20, 225, 66, 65, 76, 239, 186, 232]

def sampleText : Text := "QlpoOTFBWSZTWVM77roAAADBAAAQCYAgACGaaDNNEzxdyRThQkFM77ro".toList

/-- The encodings on this content; what is said of the others is only that they are decoded. -/
def sampleCodecs : Codecs where
  compress content := if content = sample then sampleArchive else 0 :: content
  decompress content := .ok (if content = sampleArchive then sample else content.tail)
  b64encode content :=
    if content = sampleArchive then sampleText
    else '=' :: content.map fun byte => Char.ofNat byte.toNat
  b64decode text :=
    .ok (if text = sampleText then sampleArchive else text.tail.map fun c => UInt8.ofNat c.toNat)

def sampleFiles : List SendFile :=
  [⟨0, 0, "/opt/cluster/icinga/etc/a.cfg".toList, sample, 4, rfl⟩,
    ⟨0, 0, "/opt/cluster/icinga/etc/b.cfg".toList, [], 0, rfl⟩]

def acceptingDisk : StoreDisk where
  dirExists := true
  makedirsRaises := false
  dirThere := true
  openRaises := none
  writeRaises := none

end Received
end Icsw.MdSync
