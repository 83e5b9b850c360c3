import Icsw.Foundation.Decimal
import Icsw.Foundation.Dict

/-!
# Documents

Elements as they are kept by the document library, which takes no character that
a document cannot carry.  Serialising a tree and parsing it again keeps the elements
with their attributes and texts, but for an empty text.
-/

namespace Icsw.Foundation

/-- Characters that a document can carry. -/
def legalChar (c : Char) : Bool :=
  decide (c = '\t' ∨ c = '\n' ∨ c = '\r' ∨ (0x20 ≤ c.toNat ∧ c.toNat ≤ 0xD7FF) ∨
    (0xE000 ≤ c.toNat ∧ c.toNat ≤ 0xFFFD) ∨ 0x10000 ≤ c.toNat)

def legalText (text : Text) : Bool := text.all legalChar

theorem legalText_formatInt (value : Int) : legalText (formatInt value) = true := by
  apply List.all_eq_true.mpr
  intro c hc
  have hcode := formatInt_char hc
  apply decide_eq_true
  right; right; right; left
  exact ⟨le_trans (by decide) hcode.left, le_trans hcode.right (by decide)⟩

inductive Element where
  | mk (tag : Text) (attrib : Dict Text Text) (text : Option Text) (children : List Element)

namespace Element

def tag : Element -> Text
  | mk tag _ _ _ => tag

def attrib : Element -> Dict Text Text
  | mk _ attrib _ _ => attrib

def text : Element -> Option Text
  | mk _ _ text _ => text

def children : Element -> List Element
  | mk _ _ _ children => children

/-- `el.attrib[name] = value` -/
def setAttrib (el : Element) (name value : Text) : Element :=
  mk el.tag (el.attrib.insert name value) el.text el.children

def setText (el : Element) (text : Option Text) : Element :=
  mk el.tag el.attrib text el.children

def setChildren (el : Element) (children : List Element) : Element :=
  mk el.tag el.attrib el.text children

def parsedText (text : Option Text) : Option Text := if text = some [] then none else text

mutual

def parsed : Element -> Element
  | mk tag attrib text children => mk tag attrib (parsedText text) (parsedAll children)
termination_by structural el => el

def parsedAll : List Element -> List Element
  | [] => []
  | el :: rest => parsed el :: parsedAll rest
termination_by structural els => els

end

theorem parsedAll_eq_map (els : List Element) : parsedAll els = els.map parsed := by
  induction els with
  | nil => rfl
  | cons el rest ih =>
    rw [parsedAll, ih]
    rfl

@[simp] theorem tag_parsed (el : Element) : el.parsed.tag = el.tag := by
  cases el with
  | mk tag attrib text children => rfl

@[simp] theorem attrib_parsed (el : Element) : el.parsed.attrib = el.attrib := by
  cases el with
  | mk tag attrib text children => rfl

@[simp] theorem text_parsed (el : Element) : el.parsed.text = parsedText el.text := by
  cases el with
  | mk tag attrib text children => rfl

@[simp] theorem children_parsed (el : Element) : el.parsed.children = el.children.map parsed := by
  cases el with
  | mk tag attrib text children => exact parsedAll_eq_map children

end Element

end Icsw.Foundation
