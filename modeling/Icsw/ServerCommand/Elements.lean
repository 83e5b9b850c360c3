import Icsw.ServerCommand.Tag

/-!
# Elements of values

What the builder and the encoder make of a key and a value, and how the element of
an entry is interpreted.
-/

namespace Icsw.ServerCommand

open Foundation List

section Maker

variable (accepts : Text -> Bool)

/-- The element maker takes the tags that do not depend on a text. -/
structure TagRules : Prop where
  value : accepts "value".toList = true
  integer : forall value, accepts ("__int__".toList ++ formatInt value) = true

/-- The keys that are found again. -/
def SuitableKey : Key -> Prop
  | .none => False
  | .int value => -2 ^ 63 ≤ value ∧ value < 2 ^ 63
  | .str text =>
    KeptText text ∧
      accepts (escapeTag (if text = [] then "__empty__".toList else text)).1 = true

/-- What a single value has to meet. -/
def PlainHere : Value -> Prop
  | .str text => legalText text = true
  | .datetime time => time.plain = true
  | .dict entries => forall entry, entry ∈ entries -> SuitableKey accepts entry.1
  | _ => True

def Plain (value : Value) : Prop := value.Everywhere (PlainHere accepts)

end Maker

def specialChars : List Char := ['/', '@', '&', ';', ':', '[', ']', ' ']

theorem escapeTag_plain {tagName : Text} (hspecial : forall c, c ∈ specialChars -> c ∉ tagName)
    (hdigit : startsWithDigit tagName = false) : escapeTag tagName = (tagName, ∅) := by
  have hescape : forall c, c ∈ specialChars -> forall sequence attr,
      escapeChar c sequence attr (tagName, ∅) = (tagName, ∅) :=
    fun c hc _ _ => if_neg (hspecial c hc)
  have hreplace : forall c, c ∈ specialChars -> forall sequence,
      replaceChar c sequence tagName = tagName :=
    fun c hc _ => replaceChar_of_not_mem (hspecial c hc)
  have hfirst : escapeFirstDigit (tagName, ∅) = (tagName, ∅) := by
    unfold escapeFirstDigit
    unfold startsWithDigit at hdigit
    cases hhead : tagName.head? with
    | none => rfl
    | some c =>
      rw [hhead] at hdigit
      exact if_neg (Bool.eq_false_iff.mp hdigit)
  simp only [escapeTag, hescape '/' (by decide), hescape '@' (by decide), hescape '&' (by decide),
    hescape ';' (by decide), hescape ':' (by decide), hfirst, hreplace '[' (by decide),
    hreplace ']' (by decide), hreplace ' ' (by decide)]

theorem special_not_mem {text : Text} (h : specialChars.all (fun c => !text.contains c) = true)
    (c : Char) (hc : c ∈ specialChars) : c ∉ text := by
  have hnone := all_eq_true.mp h c hc
  rw [Bool.not_eq_true', contains_eq_mem, decide_eq_false_iff_not] at hnone
  exact hnone

theorem special_not_mem_int (value : Int) (c : Char) (hc : c ∈ specialChars) :
    c ∉ "__int__".toList ++ formatInt value := by
  have hstart : c ∉ "__int__".toList := special_not_mem rfl c hc
  have hcodes : specialChars.all
      (fun c => decide (c ≠ '-' ∧ ¬ (48 ≤ c.toNat ∧ c.toNat ≤ 57))) = true := rfl
  rcases of_decide_eq_true (all_eq_true.mp hcodes c hc) with ⟨hsign, hdigit⟩
  rw [mem_append, not_or]
  exact ⟨hstart, not_mem_formatInt hsign hdigit⟩

theorem escapeTag_int (value : Int) :
    escapeTag ("__int__".toList ++ formatInt value) = ("__int__".toList ++ formatInt value, ∅) :=
  escapeTag_plain (special_not_mem_int value) rfl

section Maker

variable {accepts : Text -> Bool} {el : Element}

theorem tagElement_ok {tagName : Text} (h : tagElement accepts tagName = .ok el) :
    accepts (escapeTag tagName).1 = true ∧
      el = .mk (qualified (escapeTag tagName).1) (escapeTag tagName).2 none [] := by
  unfold tagElement at h
  by_cases haccepts : accepts (escapeTag tagName).1 = true
  · exact ⟨haccepts, (Except.ok.inj ((if_pos haccepts).symm.trans h)).symm⟩
  · cases (if_neg haccepts).symm.trans h

structure BuiltFor (accepts : Text -> Bool) (key : Key) (el : Element) : Prop where
  children : el.children = []
  text : el.text = none
  escapes : Escapes el.attrib (dictKey key)
  integer : forall value, key = .int value -> -2 ^ 63 ≤ value ∧ value < 2 ^ 63
  accepted : forall text, key = .str text ->
    accepts (escapeTag (if text = [] then "__empty__".toList else text)).1 = true
  notNone : key ≠ .none

theorem escapes_empty {attrib : Dict Text Text} (h : Escapes attrib "__empty__".toList) :
    Escapes attrib [] where
  slash := h.slash.trans (by decide)
  atsign := h.atsign.trans (by decide)
  ampersand := h.ampersand.trans (by decide)
  semicolon := h.semicolon.trans (by decide)
  firstDigit := h.firstDigit.trans (by decide)
  colon := h.colon.trans (by decide)

variable {key : Key}

theorem builder_ok (h : builder accepts key = .ok el) :
    BuiltFor accepts key el := by
  cases key with
  | none => cases h
  | int value =>
    by_cases hrange : -2 ^ 63 ≤ value ∧ value < 2 ^ 63
    · have htag : tagElement accepts ("__int__".toList ++ formatInt value) = .ok el :=
        (if_pos hrange).symm.trans h
      rcases tagElement_ok htag with ⟨_, rfl⟩
      exact
        { children := rfl
          text := rfl
          escapes := escapes_escapeTag _
          integer := fun _ heq => Key.int.inj heq ▸ hrange
          accepted := fun _ heq => Key.noConfusion heq
          notNone := Key.noConfusion }
    · cases (if_neg hrange).symm.trans h
  | str text =>
    rcases tagElement_ok h with ⟨haccepts, rfl⟩
    have hescapes : Escapes (escapeTag (if text = [] then "__empty__".toList else text)).2
        text := by
      by_cases hnil : text = []
      · rw [if_pos hnil, hnil]
        exact escapes_empty (escapes_escapeTag _)
      · rw [if_neg hnil]
        exact escapes_escapeTag text
    exact
      { children := rfl
        text := rfl
        escapes := hescapes
        integer := fun _ heq => Key.noConfusion heq
        accepted := fun _ heq => Key.str.inj heq ▸ haccepts
        notNone := Key.noConfusion }

theorem builder_suitable (hrules : TagRules accepts) (h : SuitableKey accepts key) :
    exists el, builder accepts key = .ok el := by
  cases key with
  | none => exact absurd h id
  | int value =>
    have haccepts : accepts (escapeTag ("__int__".toList ++ formatInt value)).1 = true := by
      rw [escapeTag_int]
      exact hrules.integer value
    exact ⟨_, (if_pos h).trans (if_pos haccepts)⟩
  | str text => exact ⟨_, if_pos h.right⟩

theorem builder_value (hrules : TagRules accepts) :
    builder accepts (.str "value".toList) =
      .ok (.mk (qualified "value".toList) ∅ none []) := by
  have hescape : escapeTag "value".toList = ("value".toList, ∅) :=
    escapeTag_plain (special_not_mem rfl) (by decide)
  show tagElement accepts "value".toList = _
  unfold tagElement
  rw [hescape]
  exact if_pos hrules.value

theorem interpretTag_int {value : Int} (hescapes : Escapes el.attrib (dictKey (.int value))) :
    interpretTag el (dictKey (.int value)) = .ok (.int value) := by
  have hnot : forall {c}, c ∈ specialChars -> c ∉ dictKey (.int value) :=
    fun hc => special_not_mem_int value _ hc
  have hunescape : unescapeTag el.attrib (dictKey (.int value)) = dictKey (.int value) := by
    apply (shortens_unescapeTag el.attrib _).left
    exact ⟨fun h => absurd (hescapes.slash.mp h) (hnot (by decide)),
      fun h => absurd (hescapes.atsign.mp h) (hnot (by decide)),
      fun h => absurd (hescapes.firstDigit.mp h) Bool.false_ne_true,
      fun h => absurd (hescapes.colon.mp h) (hnot (by decide)),
      fun h => absurd (hescapes.ampersand.mp h) (hnot (by decide)),
      fun h => absurd (hescapes.semicolon.mp h) (hnot (by decide))⟩
  have hkey : keyOfTag (dictKey (.int value)) = .ok (.int value) := by
    have hstart : "__int__".toList.isPrefixOf (dictKey (.int value)) = true := rfl
    have hdrop : (dictKey (.int value)).drop 7 = formatInt value := rfl
    unfold keyOfTag
    rw [if_pos hstart, hdrop, parseInt_formatInt]
  show keyOfTag (unescapeTag el.attrib (dictKey (.int value))) = _
  rw [hunescape, hkey]

theorem interpretTag_suitable (h : SuitableKey accepts key)
    (hescapes : Escapes el.attrib (dictKey key)) :
    interpretTag el (dictKey key) = .ok key := by
  cases key with
  | none => exact absurd h id
  | int value => exact interpretTag_int hescapes
  | str text => exact interpretTag_kept h.left hescapes

theorem interpretTag_key_weight {key key' : Key} {el cur : Element}
    (hbuilt : BuiltFor accepts key cur) (hlegal : legalText (dictKey key) = true)
    (hescapes : Escapes el.attrib (dictKey key)) (h : interpretTag el (dictKey key) = .ok key') :
    Value.keyWeight key' ≤ Value.keyWeight key ∧
      (Value.keyWeight key' = Value.keyWeight key -> SuitableKey accepts key) := by
  cases key with
  | none => exact absurd rfl hbuilt.notNone
  | int value =>
    rw [interpretTag_int hescapes] at h
    cases h
    exact ⟨Nat.le_refl _, fun _ => hbuilt.integer value rfl⟩
  | str text =>
    rcases interpretTag_weight hlegal hescapes h with ⟨hle, hkept⟩
    exact ⟨hle, fun heq => ⟨hkept heq, hbuilt.accepted text rfl⟩⟩

theorem legalText_dictKey (h : SuitableKey accepts key) :
    legalText (dictKey key) = true := by
  cases key with
  | none => exact absurd h id
  | int value =>
    show ("__int__".toList ++ formatInt value).all legalChar = true
    rw [all_append, Bool.and_eq_true]
    exact ⟨by decide, legalText_formatInt value⟩
  | str text => exact h.left.legal

def typeName : Value -> Text
  | .none => "none".toList
  | .bool _ => "bool".toList
  | .int _ => "int".toList
  | .str _ => "str".toList
  | .date _ => "date".toList
  | .datetime _ => "datetime".toList
  | .list _ => "list".toList
  | .tuple _ => "tuple".toList
  | .dict _ => "dict".toList

theorem element_shape {value : Value} {cur el : Element} (h : element accepts value cur = .ok el) :
    el.tag = cur.tag ∧ el.attrib = cur.attrib.insert "type".toList (typeName value) := by
  cases value with
  | none => cases h; exact ⟨rfl, rfl⟩
  | bool value => cases h; exact ⟨rfl, rfl⟩
  | int value => cases h; exact ⟨rfl, rfl⟩
  | date day => cases h; exact ⟨rfl, rfl⟩
  | datetime time => cases h; exact ⟨rfl, rfl⟩
  | str text =>
    by_cases hlegal : legalText text = true
    · cases (if_pos hlegal).symm.trans h
      exact ⟨rfl, rfl⟩
    · cases (if_neg hlegal).symm.trans h
  | list items | tuple items | dict entries =>
    rcases exists_of_bind h with ⟨els, _, hel⟩
    cases hel
    exact ⟨rfl, rfl⟩

def interpretBy (type : Option Text) (text : Option Text) (children : List Element) :
    Except PyError Value :=
  if type = some "dict".toList then do
    let result ← interpretEntries children []
    .ok (.dict result)
  else if type = some "list".toList then do
    let result ← interpretItems children
    .ok (.list result)
  else if type = some "tuple".toList then do
    let result ← interpretItems children
    .ok (.tuple result)
  else interpretText type text

theorem interpretEl_eq (el : Element) :
    interpretEl el = interpretBy (el.attrib.lookup "type".toList) el.text el.children := by
  cases el with
  | mk tag attrib text children => rw [interpretEl]; rfl

theorem lookup_type (attrib : Dict Text Text) (type : Text) :
    (attrib.insert "type".toList type).lookup "type".toList = some type :=
  AList.lookup_insert _

structure EntryElement (key : Key) (stored entry : Element) : Prop where
  legal : legalText (dictKey key) = true
  attrib : entry.attrib = stored.attrib.insert "dict_key".toList (dictKey key)
  text : entry.text = stored.text
  children : entry.children = stored.children

variable {stored entry : Element}

theorem setDictKey_ok (h : setDictKey key stored = .ok entry) : EntryElement key stored entry := by
  by_cases hlegal : legalText (dictKey key) = true
  · cases (if_pos hlegal).symm.trans h
    exact ⟨hlegal, rfl, rfl, rfl⟩
  · cases (if_neg hlegal).symm.trans h

section

variable (h : EntryElement key stored entry)
include h

theorem EntryElement.keyOf : keyOf entry = interpretTag entry (dictKey key) := by
  unfold ServerCommand.keyOf
  rw [h.attrib, AList.lookup_insert]

theorem EntryElement.escapes {cur : Element} {value : Value}
    (hstored : element accepts value cur = .ok stored)
    (hescapes : Escapes cur.attrib (dictKey key)) : Escapes entry.attrib (dictKey key) := by
  rw [h.attrib, (element_shape hstored).right]
  exact (hescapes.insert (by decide)).insert (by decide)

theorem EntryElement.interpretEl : interpretEl entry = interpretEl stored := by
  have hne : "type".toList ≠ "dict_key".toList := by decide
  rw [interpretEl_eq, interpretEl_eq, h.attrib, h.text, h.children, AList.lookup_insert_ne hne]

end

end Maker

end Icsw.ServerCommand
