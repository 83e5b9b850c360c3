import Icsw.Foundation.DateText
import Icsw.Foundation.TextOrder
import Icsw.Foundation.Separated
import Icsw.Foundation.Xml

/-!
# Commands between servers

A command is an XML document; values, which are dictionaries and sequences of any depth, are stored
in it as elements with a type attribute..  Floats are left out.
-/

namespace Icsw.ServerCommand

open Foundation List

inductive Key where
  | none
  | int (value : Int)
  | str (text : Text)
deriving DecidableEq

/-- A dictionary is given by its entries. -/
inductive Value where
  | none
  | bool (value : Bool)
  | int (value : Int)
  | str (text : Text)
  | date (day : Date)
  | datetime (time : DateTime)
  | list (items : List Value)
  | tuple (items : List Value)
  | dict (entries : List (Key × Value))

namespace Value

section Induction

variable {P : Value -> Prop} (none : P Value.none) (bool : forall value, P (Value.bool value))
  (int : forall value, P (Value.int value)) (str : forall text, P (Value.str text))
  (date : forall day, P (Value.date day)) (datetime : forall time, P (Value.datetime time))
  (list : forall items, (forall item, item ∈ items -> P item) -> P (Value.list items))
  (tuple : forall items, (forall item, item ∈ items -> P item) -> P (Value.tuple items))
  (dict : forall entries, (forall entry, entry ∈ entries -> P entry.2) -> P (Value.dict entries))
include none bool int str date datetime list tuple dict

@[elab_as_elim]
theorem induct (value : Value) : P value := by
  refine @Value.rec P (fun items => forall item, item ∈ items -> P item)
    (fun entries => forall entry, entry ∈ entries -> P entry.2) (fun entry => P entry.2)
    none bool int str date datetime list tuple dict ?_ ?_ ?_ ?_ ?_ value
  · exact fun _ hitem => absurd hitem not_mem_nil
  · intro first rest hfirst hrest item hitem
    rcases mem_cons.mp hitem with heq | htail
    · exact heq ▸ hfirst
    · exact hrest item htail
  · exact fun _ hentry => absurd hentry not_mem_nil
  · intro first rest hfirst hrest entry hentry
    rcases mem_cons.mp hentry with heq | htail
    · exact heq ▸ hfirst
    · exact hrest entry htail
  · exact fun _ _ hvalue => hvalue

end Induction

mutual

def Everywhere (ok : Value -> Prop) : Value -> Prop
  | .list items => ok (.list items) ∧ EverywhereItems ok items
  | .tuple items => ok (.tuple items) ∧ EverywhereItems ok items
  | .dict entries => ok (.dict entries) ∧ EverywhereEntries ok entries
  | value => ok value
termination_by structural value => value

def EverywhereItems (ok : Value -> Prop) : List Value -> Prop
  | [] => True
  | first :: rest => Everywhere ok first ∧ EverywhereItems ok rest
termination_by structural items => items

def EverywhereEntries (ok : Value -> Prop) : List (Key × Value) -> Prop
  | [] => True
  | (_, value) :: rest => Everywhere ok value ∧ EverywhereEntries ok rest
termination_by structural entries => entries

end

theorem everywhereItems_iff {ok : Value -> Prop} {items : List Value} :
    EverywhereItems ok items <-> forall item, item ∈ items -> item.Everywhere ok := by
  induction items with
  | nil => simp [EverywhereItems]
  | cons first rest ih => simp [EverywhereItems, ih]

theorem everywhereEntries_iff {ok : Value -> Prop} {entries : List (Key × Value)} :
    EverywhereEntries ok entries <-> forall entry, entry ∈ entries -> entry.2.Everywhere ok := by
  induction entries with
  | nil => simp [EverywhereEntries]
  | cons first rest ih => simp [EverywhereEntries, ih]

/-- The keys of each dictionary are distinct. -/
def Distinct (value : Value) : Prop :=
  value.Everywhere fun
    | .dict entries => (entries.map Prod.fst).Nodup
    | _ => True

def keyLe : Key -> Key -> Bool
  | .none, _ => true
  | .int _, .none => false
  | .int value, .int value' => decide (value ≤ value')
  | .int _, .str _ => true
  | .str text, .str text' => textLe text text'
  | .str _, _ => false

def sortEntries (entries : List (Key × Value)) : List (Key × Value) :=
  entries.insertionSort fun entry entry' => keyLe entry.1 entry'.1 = true

mutual

/-- The value with the entries of its dictionaries in order: two dictionaries are equal with
their entries in any order. -/
def canonical : Value -> Value
  | .list items => .list (canonicalItems items)
  | .tuple items => .tuple (canonicalItems items)
  | .dict entries => .dict (sortEntries (canonicalEntries entries))
  | value => value
termination_by structural value => value

def canonicalItems : List Value -> List Value
  | [] => []
  | first :: rest => canonical first :: canonicalItems rest
termination_by structural items => items

def canonicalEntries : List (Key × Value) -> List (Key × Value)
  | [] => []
  | (key, value) :: rest => (key, canonical value) :: canonicalEntries rest
termination_by structural entries => entries

end

def keyWeight : Key -> Nat
  | .none => 0
  | .int _ => 0
  | .str text => text.length + 1

mutual

/-- The length of all keys that are texts. -/
def weight : Value -> Nat
  | .list items => weightItems items
  | .tuple items => weightItems items
  | .dict entries => weightEntries entries
  | _ => 0
termination_by structural value => value

def weightItems : List Value -> Nat
  | [] => 0
  | first :: rest => weight first + weightItems rest
termination_by structural items => items

def weightEntries : List (Key × Value) -> Nat
  | [] => 0
  | (key, value) :: rest => keyWeight key + weight value + weightEntries rest
termination_by structural entries => entries

end

def entryWeight (entry : Key × Value) : Nat := keyWeight entry.1 + weight entry.2

theorem weightEntries_eq_sum (entries : List (Key × Value)) :
    weightEntries entries = (entries.map entryWeight).sum := by
  induction entries with
  | nil => rfl
  | cons first rest ih =>
    rcases first with ⟨key, value⟩
    rw [weightEntries, ih]
    rfl

theorem weightItems_canonical {items : List Value}
    (h : forall item, item ∈ items -> item.canonical.weight = item.weight) :
    weightItems (canonicalItems items) = weightItems items := by
  induction items with
  | nil => rfl
  | cons first rest ih =>
    rw [canonicalItems, weightItems, weightItems, h first mem_cons_self,
      ih fun item hitem => h item (mem_cons_of_mem first hitem)]

theorem weightEntries_canonical {entries : List (Key × Value)}
    (h : forall entry, entry ∈ entries -> entry.2.canonical.weight = entry.2.weight) :
    weightEntries (canonicalEntries entries) = weightEntries entries := by
  induction entries with
  | nil => rfl
  | cons first rest ih =>
    rcases first with ⟨key, value⟩
    have hvalue : value.canonical.weight = value.weight := h (key, value) mem_cons_self
    rw [canonicalEntries, weightEntries, weightEntries, hvalue,
      ih fun entry hentry => h entry (mem_cons_of_mem _ hentry)]

theorem weightEntries_sortEntries (entries : List (Key × Value)) :
    weightEntries (sortEntries entries) = weightEntries entries := by
  rw [weightEntries_eq_sum, weightEntries_eq_sum]
  exact ((perm_insertionSort _ entries).map entryWeight).sum_eq

theorem weight_canonical (value : Value) : value.canonical.weight = value.weight := by
  induction value using Value.induct with
  | none => rfl
  | bool value => rfl
  | int value => rfl
  | str text => rfl
  | date day => rfl
  | datetime time => rfl
  | list items ih => exact weightItems_canonical ih
  | tuple items ih => exact weightItems_canonical ih
  | dict entries ih => exact (weightEntries_sortEntries _).trans (weightEntries_canonical ih)

end Value

def xmlNs : Text := "\x7bhttp://www.initat.org/lxml/ns\x7d".toList

/-- A tag that names a namespace itself is left as it is. -/
def qualified (tag : Text) : Text :=
  if tag.head? = some '{' then tag else xmlNs ++ tag

/-- The digits that are no decimals. -/
def digitRanges : List (Nat × Nat) :=
  [(0xB2, 0xB3), (0xB9, 0xB9), (0x1369, 0x1371), (0x2070, 0x2070), (0x2074, 0x2079),
   (0x2080, 0x2089), (0x2460, 0x2468), (0x2474, 0x247C), (0x2488, 0x2490), (0x24EA, 0x24EA),
   (0x24F5, 0x24FD), (0x24FF, 0x24FF), (0x2776, 0x277E), (0x2780, 0x2788), (0x278A, 0x2792),
   (0x10A40, 0x10A43), (0x10E60, 0x10E68), (0x1F100, 0x1F10A)]

def isDigit (c : Char) : Bool :=
  (digitValue c).isSome ||
    digitRanges.any fun range => decide (range.1 ≤ c.toNat ∧ c.toNat ≤ range.2)

/-- A tag on its way to an element, with the attributes that say how it was escaped. -/
abbrev Escaped := Text × Dict Text Text

def escapeChar (c : Char) (sequence attr : Text) (state : Escaped) : Escaped :=
  if c ∈ state.1 then
    (replaceChar c sequence state.1, state.2.insert attr "1".toList)
  else state

def escapeFirstDigit (state : Escaped) : Escaped :=
  match state.1.head? with
  | some c =>
    if isDigit c then
      ("__fdigit__".toList ++ state.1, state.2.insert "first_digit".toList "1".toList)
    else state
  | none => state

def escapeTag (tagName : Text) : Escaped :=
  let state : Escaped := (tagName, ∅)
  let state := escapeChar '/' "__slash__".toList "escape_slash".toList state
  let state := escapeChar '@' "__atsign__".toList "escape_atsign".toList state
  let state := escapeChar '&' "__amp__".toList "escape_ampersand".toList state
  let state := escapeChar ';' "__semicolon__".toList "escape_semicolon".toList state
  let state := escapeFirstDigit state
  let state := escapeChar ':' "__colon__".toList "escape_colon".toList state
  let tag := replaceChar '[' "_0x05b_".toList state.1
  let tag := replaceChar ']' "_0x05d_".toList tag
  (replaceChar ' ' "_0x020_".toList tag, state.2)

section Builder

-- `accepts tag` says whether the element maker makes an element of the tag.
variable (accepts : Text -> Bool)

def tagElement (tagName : Text) : Except PyError Element :=
  let state := escapeTag tagName
  if accepts state.1 then .ok (.mk (qualified state.1) state.2 none [])
  else .error .valueError

/--
The builder gives the element maker itself for no name: nothing can be stored in
it.  Only integers of the machine are known as such.
-/
def builder : Key -> Except PyError Element
  | .none => .error .typeError
  | .int value =>
    if -2 ^ 63 ≤ value ∧ value < 2 ^ 63 then
      tagElement accepts ("__int__".toList ++ formatInt value)
    else .error .attributeError
  | .str tagName => tagElement accepts (if tagName = [] then "__empty__".toList else tagName)

end Builder

/-- `\S` -/
def isNonSpace (c : Char) : Bool := decide (c.toNat ∉ [9, 10, 11, 12, 13, 32])

/-- The text before and after the last underscore. -/
def breakLast : Text -> Option (Text × Text)
  | [] => none
  | c :: rest =>
    match breakLast rest with
    | some (before, after) => some (c :: before, after)
    | none => if c = '_' then some ([], rest) else none

/-- `(?P<code>[^_]\S+)_(?P<post>.*)`: the code and what follows its underscore. -/
def isoCode : Text -> Option (Text × Text)
  | [] => none
  | c :: rest =>
    if c = '_' then none
    else
      match breakLast (rest.takeWhile isNonSpace) with
      | some (d :: code, _) =>
        some (c :: d :: code, (rest.drop (code.length + 2)).takeWhile fun e => e != '\n')
      | _ => none

/-- `iso_re.match(text)`: what comes before is as long as possible. -/
def isoMatch : Text -> Option (Text × Text × Text)
  | [] => none
  | c :: rest =>
    match if c = '\n' then none else isoMatch rest with
    | some (pre, code, post) => some (c :: pre, code, post)
    | none =>
      if "_0x0".toList.isPrefixOf (c :: rest) then
        (isoCode ((c :: rest).drop 4)).map fun found => ([], found)
      else none

def hexDigit (c : Char) : Option Nat :=
  match digitValue c with
  | some value => some value
  | none =>
    if 97 ≤ c.toNat ∧ c.toNat ≤ 102 then some (c.toNat - 87)
    else if 65 ≤ c.toNat ∧ c.toNat ≤ 70 then some (c.toNat - 55)
    else none

def hexDigits (text : Text) : Option Nat :=
  if text = [] then none
  else text.foldlM (fun value c => (hexDigit c).map fun digit => 16 * value + digit) 0

def hexNumber : Text -> Option Nat
  | '0' :: 'x' :: rest => hexDigits rest
  | '0' :: 'X' :: rest => hexDigits rest
  | text => hexDigits text

/-- `int(text, 16)` -/
def parseHex (text : Text) : Option Int :=
  match strip text with
  | '+' :: rest => (hexNumber rest).map Int.ofNat
  | '-' :: rest => (hexNumber rest).map fun value => -Int.ofNat value
  | rest => (hexNumber rest).map Int.ofNat

/-- `chr(int(code, 16))`, as a text: bytes that are not ASCII cannot be one. -/
def codeChar (code : Text) : Except PyError Char :=
  match parseHex code with
  | none => .error .valueError
  | some value =>
    if value < 0 ∨ 256 ≤ value then .error .valueError
    else if 128 ≤ value then .error .unicodeDecodeError
    else .ok (Char.ofNat value.toNat)

theorem breakLast_eq_some {text before after : Text} (h : breakLast text = some (before, after)) :
    text = before ++ '_' :: after := by
  induction text generalizing before after with
  | nil => cases h
  | cons c rest ih =>
    rw [breakLast] at h
    cases hrest : breakLast rest with
    | some parts =>
      rw [hrest] at h
      cases h
      rw [ih hrest]
      rfl
    | none =>
      rw [hrest] at h
      by_cases hc : c = '_'
      · rw [hc] at h ⊢
        cases h
        rfl
      · simp only [if_neg hc] at h
        cases h

theorem isoCode_length {text code post : Text} (h : isoCode text = some (code, post)) :
    code.length + post.length < text.length := by
  cases text with
  | nil => cases h
  | cons c rest =>
    rw [isoCode] at h
    by_cases hc : c = '_'
    · rw [if_pos hc] at h
      cases h
    · rw [if_neg hc] at h
      cases hbreak : breakLast (rest.takeWhile isNonSpace) with
      | none =>
        rw [hbreak] at h
        cases h
      | some parts =>
        rcases parts with ⟨before, after⟩
        rw [hbreak] at h
        have hrun := congrArg length (breakLast_eq_some hbreak)
        have hlength := (takeWhile_sublist isNonSpace (l := rest)).length_le
        cases before with
        | nil => cases h
        | cons d body =>
          cases h
          have hpost := (takeWhile_sublist (fun e => e != '\n')
            (l := rest.drop (body.length + 2))).length_le
          simp only [length_append, length_cons, length_drop] at *
          omega

theorem isoMatch_length {text pre code post : Text} (h : isoMatch text = some (pre, code, post)) :
    (pre ++ post).length + 1 < text.length := by
  induction text generalizing pre code post with
  | nil => cases h
  | cons c rest ih =>
    rw [isoMatch] at h
    cases hrest : (if c = '\n' then none else isoMatch rest) with
    | some found =>
      rw [hrest] at h
      cases h
      by_cases hc : c = '\n'
      · rw [if_pos hc] at hrest
        cases hrest
      · rw [if_neg hc] at hrest
        have hlater := ih hrest
        simp only [length_append, length_cons] at hlater ⊢
        omega
    | none =>
      rw [hrest] at h
      by_cases hstart : "_0x0".toList.isPrefixOf (c :: rest) = true
      · simp only [if_pos hstart] at h
        rcases Option.map_eq_some_iff.mp h with ⟨found, hcode, heq⟩
        cases heq
        have hlength := isoCode_length hcode
        rw [length_drop] at hlength
        rw [nil_append]
        omega
      · simp only [if_neg hstart] at h
        cases h

def replaceCodes (tagName : Text) : Except PyError Text :=
  match _ : isoMatch tagName with
  | none => .ok tagName
  | some (pre, code, post) =>
    match codeChar code with
    | .error raised => .error raised
    | .ok c => replaceCodes (pre ++ c :: post)
termination_by tagName.length
decreasing_by
  have hlength := isoMatch_length ‹isoMatch tagName = some (pre, code, post)›
  simp only [length_append, length_cons] at hlength ⊢
  omega

def cutNamespace (tagName : Text) : Except PyError Text :=
  if "\x7bhttp".toList.isPrefixOf tagName then
    match breakOn ['}'] tagName with
    | some (_, rest) => .ok rest
    | none => .error .indexError
  else .ok tagName

def unescape (attrib : Dict Text Text) (attr sequence char tagName : Text) : Text :=
  if attr ∈ attrib then replace sequence char tagName else tagName

def unescapeTag (attrib : Dict Text Text) (tagName : Text) : Text :=
  let tagName := unescape attrib "escape_slash".toList "__slash__".toList "/".toList tagName
  let tagName := unescape attrib "escape_atsign".toList "__atsign__".toList "@".toList tagName
  let tagName := unescape attrib "first_digit".toList "__fdigit__".toList [] tagName
  let tagName := unescape attrib "escape_colon".toList "__colon__".toList ":".toList tagName
  let tagName := unescape attrib "escape_ampersand".toList "__amp__".toList "&".toList tagName
  unescape attrib "escape_semicolon".toList "__semicolon__".toList ";".toList tagName

def keyOfTag (tagName : Text) : Except PyError Key :=
  if "__int__".toList.isPrefixOf tagName then
    match parseInt (tagName.drop 7) with
    | some value => .ok (.int value)
    | none => .error .valueError
  else if tagName = "__empty__".toList then .ok (.str [])
  else if tagName = "__none__".toList then .ok .none
  else do
    let text ← replaceCodes tagName
    .ok (.str text)

def interpretTag (el : Element) (tagName : Text) : Except PyError Key := do
  let tagName ← cutNamespace tagName
  keyOfTag (unescapeTag el.attrib tagName)

def dictKey : Key -> Text
  | .none => "__none__".toList
  | .int value => "__int__".toList ++ formatInt value
  | .str text => text

/-- An attribute takes no text that a document cannot carry. -/
def setDictKey (key : Key) (el : Element) : Except PyError Element :=
  if legalText (dictKey key) then .ok (el.setAttrib "dict_key".toList (dictKey key))
  else .error .valueError

def typed (cur : Element) (type : Text) : Element := cur.setAttrib "type".toList type

section Encode

variable (accepts : Text -> Bool)

mutual

/-- `self._element(value, cur_element)` -/
def element : Value -> Element -> Except PyError Element
  | .none, cur => .ok (typed (cur.setText none) "none".toList)
  | .bool value, cur =>
    .ok (typed (cur.setText (some (if value then "True".toList else "False".toList)))
      "bool".toList)
  | .int value, cur => .ok (typed (cur.setText (some (formatInt value))) "int".toList)
  | .str text, cur =>
    if legalText text then .ok (typed (cur.setText (some text)) "str".toList)
    else .error .valueError
  | .date day, cur => .ok (typed (cur.setText (some day.isoformat)) "date".toList)
  | .datetime time, cur => .ok (typed (cur.setText (some time.isoformat)) "datetime".toList)
  | .list items, cur => do
      let children ← itemElements items
      .ok ((typed cur "list".toList).setChildren (cur.children ++ children))
  | .tuple items, cur => do
      let children ← itemElements items
      .ok ((typed cur "tuple".toList).setChildren (cur.children ++ children))
  | .dict entries, cur => do
      let children ← entryElements entries
      .ok ((typed cur "dict".toList).setChildren (cur.children ++ children))
termination_by structural value => value

def itemElements : List Value -> Except PyError (List Element)
  | [] => .ok []
  | value :: rest => do
      let cur ← builder accepts (.str "value".toList)
      let el ← element value cur
      let els ← itemElements rest
      .ok (el :: els)
termination_by structural items => items

def entryElements : List (Key × Value) -> Except PyError (List Element)
  | [] => .ok []
  | (key, value) :: rest => do
      let cur ← builder accepts key
      let el ← element value cur
      let el ← setDictKey key el
      let els ← entryElements rest
      .ok (el :: els)
termination_by structural entries => entries

end

end Encode

def textValue : Option Text -> Value
  | some text => .str text
  | none => .none

def isTrue : Option Text -> Bool
  | some (c :: _) => ['t', '1', 'y'].contains c.toLower
  | _ => false

def orError {α : Type} : Option α -> Except PyError α
  | some value => .ok value
  | none => .error .valueError

def interpretText (type : Option Text) (text : Option Text) : Except PyError Value :=
  if type = some "int".toList then (orError (text.bind parseInt)).map Value.int
  else if type = some "bool".toList then .ok (.bool (isTrue text))
  else if type = some "date".toList then (orError (text.bind strptimeDate)).map Value.date
  else if type = some "datetime".toList then
    (orError (text.bind strptimeDateTime)).map Value.datetime
  else if type = some "str".toList then .ok (.str (text.getD []))
  else .ok (textValue text)

/-- `result[key] = value` -/
def setEntry : List (Key × Value) -> Key -> Value -> List (Key × Value)
  | [], key, value => [(key, value)]
  | (held, old) :: rest, key, value =>
    if held = key then (held, value) :: rest else (held, old) :: setEntry rest key value

def keyOf (el : Element) : Except PyError Key :=
  match el.attrib.lookup "dict_key".toList with
  | some key => interpretTag el key
  | none =>
    match breakOn ['}'] el.tag with
    | some (_, tag) => interpretTag el tag
    | none => .error .indexError

mutual

/-- `self._interpret_el(top_el)` -/
def interpretEl : Element -> Except PyError Value
  | .mk _ attrib text children =>
    if attrib.lookup "type".toList = some "dict".toList then do
      let result ← interpretEntries children []
      .ok (.dict result)
    else if attrib.lookup "type".toList = some "list".toList then do
      let result ← interpretItems children
      .ok (.list result)
    else if attrib.lookup "type".toList = some "tuple".toList then do
      let result ← interpretItems children
      .ok (.tuple result)
    else interpretText (attrib.lookup "type".toList) text
termination_by structural el => el

def interpretItems : List Element -> Except PyError (List Value)
  | [] => .ok []
  | el :: rest => do
      let value ← interpretEl el
      let values ← interpretItems rest
      .ok (value :: values)
termination_by structural els => els

def interpretEntries : List Element -> List (Key × Value) ->
    Except PyError (List (Key × Value))
  | [], result => .ok result
  | el :: rest, result => do
      let key ← keyOf el
      let value ← interpretEl el
      interpretEntries rest (setEntry result key value)
termination_by structural els => els

end

def escapeKey (key : Text) : Text :=
  replaceChar '@' "__atsign__".toList (replaceChar '/' "__slash__".toList key)

def splitFirst (tag : Text) : List Element -> Option (List Element × Element × List Element)
  | [] => none
  | el :: rest =>
    if el.tag = tag then some ([], el, rest)
    else (splitFirst tag rest).map fun found => (el :: found.1, found.2)

/-- The element below a path is changed; missing elements are created on the way. -/
def changeBelow (accepts : Text -> Bool) (change : Element -> Except PyError Element) :
    List Text -> Element -> Except PyError Element
  | [], el => change el
  | part :: rest, el =>
    match splitFirst (xmlNs ++ escapeKey part) el.children with
    | some (before, found, after) => do
        let found ← changeBelow accepts change rest found
        .ok (el.setChildren (before ++ found :: after))
    | none => do
        let fresh ← builder accepts (.str part)
        let fresh ← changeBelow accepts change rest fresh
        .ok (el.setChildren (el.children ++ [fresh]))

def elementsAt : List Text -> Element -> List Element
  | [], el => [el]
  | part :: rest, el =>
    (el.children.filter fun child => child.tag = xmlNs ++ part).flatMap (elementsAt rest)

/-- A command: its tree is an `ics_batch` element. -/
structure SrvCommand where
  tree : Element
  batch : tree.tag = qualified "ics_batch".toList

def path (key : Text) : List Text := if key = [] then [] else splitAll ':' key

/-- `srv_com[key] = value` -/
def setItem (accepts : Text -> Bool) (tree : Element) (key : Text) (value : Value) :
    Except PyError Element :=
  changeBelow accepts (element accepts value) (path key) tree

/-- `srv_com["*" + key]` -/
def getItem (tree : Element) (key : Text) : Except PyError Value :=
  match elementsAt (path key) tree with
  | [] => .error .keyError
  | [el] => interpretEl el
  | several => do
      let values ← interpretItems several
      .ok (.list values)

end Icsw.ServerCommand
