import Icsw.Config.StoreRoundTrip
import Icsw.Foundation.Bytes

/-!
# Writing stores with values of any type

The variables of a store can be set to values of any type, and not all of them can be written.  The
file is opened for writing before the document is made.
-/

namespace Icsw.Config

open Foundation List

/-- A value of the interpreted language; the objects are those of the other types. -/
inductive PyValue (O : Type) where
  | int (value : Int)
  | bool (value : Bool)
  | none
  | unicode (text : Text)
  | bytes (data : Bytes)
  | dict (entries : List (Text × PyValue O))
  | tuple (items : List (PyValue O))
  | object (other : O)

/-- What the document library makes of a value that is no text, and of the bytes of a file. -/
structure Library (O : Type) where
  truth : O -> Except PyError Bool
  attribText : O -> Except PyError Text
  addDict : List (Text × PyValue O) -> Element -> Except PyError Element
  addObject : O -> Element -> Except PyError Element
  parse : Bytes -> Except PyError Element

namespace PyValue

variable {O : Type}

/-- The type a variable gets. -/
def varType : PyValue O -> VarType
  | int _ => .int
  | bool _ => .bool
  | _ => .str

/-- `if value` -/
def truth (library : Library O) : PyValue O -> Except PyError Bool
  | int value => .ok (value ≠ 0)
  | bool value => .ok value
  | none => .ok false
  | unicode text => .ok (text ≠ [])
  | bytes data => .ok (data ≠ [])
  | dict entries => .ok (!entries.isEmpty)
  | tuple items => .ok (!items.isEmpty)
  | object other => library.truth other

end PyValue

/-!
## Elements
-/

/-- A text that the library takes. -/
def takenText (text : Text) : Except PyError Text :=
  if legalText text = true then .ok text else .error .valueError

def takenBytes (data : Bytes) : Except PyError Text := asciiText data >>= takenText

def VarType.text : VarType -> Text
  | .int => "int".toList
  | .str => "str".toList
  | .bool => "bool".toList
  | .password => "password".toList

def addText (text : Text) (el : Element) : Except PyError Element := do
  let text <- takenText text
  return el.setText (some (el.text.getD [] ++ text))

structure AnyVar (O : Type) where
  name : Text
  value : PyValue O
  description : PyValue O

namespace AnyVar

variable {O : Type}

def emptyKey (name : Text) (type : VarType) : Element :=
  .mk "key".toList (((∅ : Dict Text Text).insert "name".toList name).insert "type".toList type.text)
    none []

/-- `E.key(_val, name=self.name, type=self._type)` -/
def makeKey (library : Library O) (name : Text) (value : PyValue O) : Except PyError Element := do
  let name <- takenText name
  let el := emptyKey name value.varType
  match value with
  | .int value => addText (formatInt value) el
  | .bool value => addText (if value then "True".toList else "False".toList) el
  | .none => addText [] el
  | .unicode text => addText text el
  | .bytes data =>
    let text <- takenBytes data
    addText text el
  | .dict entries => library.addDict entries el
  | .tuple _ => .error .typeError
  | .object other => library.addObject other el

def attribText (library : Library O) : PyValue O -> Except PyError Text
  | .unicode text => takenText text
  | .bytes data => takenBytes data
  | .object other => library.attribText other
  | _ => .error .typeError

def getElement (library : Library O) (var : AnyVar O) : Except PyError Element := do
  let el <- makeKey library var.name var.value
  let described <- var.description.truth library
  if described then do
    let description <- attribText library var.description
    return el.setAttrib "description".toList description
  else return el

end AnyVar

/-!
## The schema
-/

def invalid {α : Type} : Except PyError α := .error .valueError

def onlyAttributes (el : Element) (names : List Text) : Bool :=
  el.attrib.keys.all fun name => decide (name ∈ names)

def attributeOf (el : Element) (name : Text) : Except PyError Text :=
  ((el.attrib.lookup name).map Except.ok).getD invalid

def isBlank (text : Option Text) : Bool := (text.getD []).all Char.isWhitespace

def varTypeOf (text : Text) : Except PyError VarType :=
  if text = "int".toList then .ok .int
  else if text = "str".toList then .ok .str
  else if text = "bool".toList then .ok .bool
  else if text = "password".toList then .ok .password
  else invalid

def keyElementOf (el : Element) : Except PyError KeyElement :=
  if el.tag = "key".toList ∧ el.children.isEmpty ∧
      onlyAttributes el ["name".toList, "type".toList, "description".toList] then do
    let name <- attributeOf el "name".toList
    let type <- attributeOf el "type".toList >>= varTypeOf
    return ⟨name, type, el.attrib.lookup "description".toList, el.text⟩
  else invalid

def keyListOf (el : Element) : Except PyError (List KeyElement) :=
  if el.tag = "key-list".toList ∧ onlyAttributes el [] ∧ isBlank el.text then
    el.children.mapM keyElementOf
  else invalid

def AccessMode.text : AccessMode -> Text
  | .globalMode => "global".toList
  | .localMode => "local".toList

def accessModeOf : Option Text -> Except PyError (Option AccessMode)
  | none => .ok none
  | some text =>
    if text = "global".toList then .ok (some .globalMode)
    else if text = "local".toList then .ok (some .localMode)
    else invalid

/-- The document of the schema that a tree is. -/
def documentOf (root : Element) : Except PyError Document :=
  if root.tag = "config-store".toList ∧ isBlank root.text ∧ onlyAttributes root
      ["name".toList, "dictstyle".toList, "prefix".toList, "access-mode".toList] then do
    let name <- attributeOf root "name".toList
    let accessMode <- accessModeOf (root.attrib.lookup "access-mode".toList)
    let keyLists <- root.children.mapM keyListOf
    return ⟨name, root.attrib.lookup "prefix".toList, accessMode, keyLists⟩
  else invalid

/-!
## Stores
-/

inductive StoredFile where
  | absent
  | data (data : Bytes)
  | serialised (root : Element)

def fileOf : Except PyError Document -> File
  | .ok document => .document document
  | .error _ => .unreadable

/-- What the file is for a store that reads it. -/
def StoredFile.asRead {O : Type} (library : Library O) : StoredFile -> File
  | .absent => .absent
  | .data bytes => fileOf (library.parse bytes >>= documentOf)
  | .serialised root => fileOf (documentOf root)

structure AnyStore (O : Type) where
  name : Text
  keyPrefix : Option Text
  accessMode : Option AccessMode
  treeValid : Bool
  vars : Dict Text (AnyVar O)

namespace AnyStore

variable {O : Type}

def new (name : Text) (keyPrefix : Option Text) : AnyStore O := ⟨name, keyPrefix, none, true, ∅⟩

/-- `self.vars[key] = ConfigVar(key, value, descr=descr)` -/
def setVar (store : AnyStore O) (key : Text) (value description : PyValue O) : AnyStore O :=
  { store with vars := store.vars.insert key ⟨key, value, description⟩ }

/-- `key in self`: with a prefix, the keys that it starts are known by what follows it. -/
def contains (store : AnyStore O) (key : Text) : Bool :=
  match ConfigStore.orNone store.keyPrefix with
  | none => store.vars.keys.contains key
  | some keyPrefix => store.treeValid && (store.vars.keys.map fun held =>
    if (keyPrefix ++ ['_']).isPrefixOf held ∧ held.count '_' > 1 then (held.splitOn '_').getD 1 []
    else held).contains key

def setItem (store : AnyStore O) (key : Text) (value : PyValue O) : Except PyError (AnyStore O) :=
  match value with
  | .dict entries =>
    match ConfigStore.orNone store.keyPrefix with
    | none => .error .valueError
    | some keyPrefix => .ok (entries.foldl
        (fun store entry =>
          store.setVar (keyPrefix ++ '_' :: key ++ '_' :: entry.1) entry.2 (.unicode []))
        store)
  | value => do
      let description <-
        if store.contains key then
          ((store.vars.lookup key).map fun var => Except.ok var.description).getD (.error .keyError)
        else .ok (.unicode [])
      match value with
      | .tuple [value, description] => .ok (store.setVar key value description)
      | .tuple _ => .error .valueError
      | value => .ok (store.setVar key value description)

def generateKey (library : Library O) (store : AnyStore O) (key : Text) : Except PyError Element :=
  ((store.vars.lookup key).map fun var => var.getElement library).getD (.error .keyError)

def rootAttrib (store : AnyStore O) (name : Text) : Dict Text Text :=
  let attrib := (∅ : Dict Text Text).insert "name".toList name
  let attrib := ((ConfigStore.orNone store.keyPrefix).map
    fun text => attrib.insert "prefix".toList text).getD attrib
  (store.accessMode.map fun mode => attrib.insert "access-mode".toList mode.text).getD attrib

def generate (library : Library O) (store : AnyStore O) : Except PyError Element := do
  let name <- takenText store.name
  let _ <- takenText (store.keyPrefix.getD [])
  let keys <- (sortedTexts store.vars.keys).mapM (store.generateKey library)
  return .mk "config-store".toList (store.rootAttrib name) none [.mk "key-list".toList ∅ none keys]

inductive Logged where
  | notValid
  | cannotWrite
  | wrote
deriving DecidableEq

/-- `write`, of a file that can be opened or not. -/
def write (library : Library O) (store : AnyStore O) (accessMode : Option AccessMode)
    (canOpen : Bool) (file : StoredFile) : StoredFile × Logged :=
  if store.treeValid then
    let store := { store with accessMode := accessMode.or store.accessMode }
    -- The file is opened, and emptied, before the argument of its method is evaluated.
    if canOpen then
      match store.generate library with
      | .ok root => (.serialised root, .wrote)
      | .error _ => (.data [], .cannotWrite)
    else (file, .cannotWrite)
  else (file, .notValid)

end AnyStore

/-!
## What can be written
-/

theorem takenText_eq_ok {text taken : Text} :
    takenText text = .ok taken <-> legalText text = true ∧ taken = text := by
  unfold takenText
  split
  · rename_i hlegal
    constructor
    · intro h
      cases h
      exact ⟨hlegal, rfl⟩
    · rintro ⟨_, rfl⟩
      rfl
  · rename_i hillegal
    constructor
    · intro h
      cases h
    · intro h
      exact absurd h.left hillegal

theorem takenText_legal {text : Text} (h : legalText text = true) : takenText text = .ok text :=
  takenText_eq_ok.mpr ⟨h, rfl⟩

theorem takenBytes_eq_ok {data : Bytes} {taken : Text} :
    takenBytes data = .ok taken <-> asciiText data = .ok taken ∧ legalText taken = true := by
  constructor
  · intro h
    rcases exists_of_bind h with ⟨text, htext, htaken⟩
    rcases takenText_eq_ok.mp htaken with ⟨hlegal, rfl⟩
    exact ⟨htext, hlegal⟩
  · rintro ⟨htext, hlegal⟩
    exact bind_eq_ok htext (takenText_legal hlegal)

/-- What is read of the element is a variable. -/
def ReadableKey (el : Element) : Prop :=
  exists key var, keyElementOf el = .ok key ∧ ConfigVar.interpret key.parsed = .ok var

namespace PyValue

variable {O : Type}

def Taken (library : Library O) (name : Text) : PyValue O -> Prop
  | int _ => True
  | bool _ => True
  | none => True
  | unicode text => legalText text = true
  | bytes data => exists text, asciiText data = .ok text ∧ legalText text = true
  | dict entries => exists el, library.addDict entries (AnyVar.emptyKey name .str) = .ok el
  | tuple _ => False
  | object other => exists el, library.addObject other (AnyVar.emptyKey name .str) = .ok el

/-- The element is one of the schema as well. -/
def Fits (library : Library O) (name : Text) : PyValue O -> Prop
  | dict entries => exists el,
      library.addDict entries (AnyVar.emptyKey name .str) = .ok el ∧ ReadableKey el
  | object other => exists el,
      library.addObject other (AnyVar.emptyKey name .str) = .ok el ∧ ReadableKey el
  | value => value.Taken library name

def Describes (library : Library O) : PyValue O -> Prop
  | int value => value = 0
  | bool value => value = false
  | none => True
  | unicode text => legalText text = true
  | bytes data => exists text, asciiText data = .ok text ∧ legalText text = true
  | dict entries => entries = []
  | tuple items => items = []
  | object other => library.truth other = .ok false ∨
      library.truth other = .ok true ∧ exists text, library.attribText other = .ok text

end PyValue

structure AnyVar.Taken {O : Type} (library : Library O) (var : AnyVar O) : Prop where
  name : legalText var.name = true
  value : var.value.Taken library var.name
  description : var.description.Describes library

structure AnyVar.Fits {O : Type} (library : Library O) (var : AnyVar O) : Prop where
  name : legalText var.name = true
  value : var.value.Fits library var.name
  description : var.description.Describes library

/-!
## Elements of variables
-/

variable {el : Element}

theorem onlyAttributes_iff {names : List Text} :
    onlyAttributes el names = true <-> forall name, name ∈ el.attrib -> name ∈ names := by
  unfold onlyAttributes
  rw [all_eq_true]
  constructor
  · intro h name hname
    exact of_decide_eq_true (h name (AList.mem_keys.mp hname))
  · intro h name hname
    exact decide_eq_true (h name (AList.mem_keys.mpr hname))

theorem exists_interpret_description {key : KeyElement} {var : ConfigVar}
    (h : ConfigVar.interpret key.parsed = .ok var) (description : Option Text) :
    exists other, ConfigVar.interpret { key with description := description }.parsed =
      .ok other := by
  rcases key with ⟨name, type, held, text⟩
  unfold ConfigVar.interpret KeyElement.parsed at h ⊢
  generalize (if text = some [] then none else text) = seen at h ⊢
  cases type with
  | int =>
    rcases hvalue : seen.bind parseInt with _ | value
    · simp only [hvalue] at h
      cases h
    · exact ⟨_, rfl⟩
  | bool =>
    rcases seen with _ | value
    · cases h
    · exact ⟨_, rfl⟩
  | str | password =>
    rcases seen with _ | value
    · exact ⟨_, rfl⟩
    · exact ⟨_, rfl⟩

theorem attributeOf_eq_ok {name value : Text} :
    attributeOf el name = .ok value <-> el.attrib.lookup name = some value := by
  unfold attributeOf
  rcases el.attrib.lookup name with _ | found
  · constructor <;> nofun
  · constructor
    · intro h
      cases h
      rfl
    · intro h
      cases h
      rfl

theorem keyElementOf_eq_ok {key : KeyElement} :
    keyElementOf el = .ok key <->
      (el.tag = "key".toList ∧ el.children.isEmpty = true ∧
        onlyAttributes el ["name".toList, "type".toList, "description".toList] = true) ∧
      el.attrib.lookup "name".toList = some key.name ∧
      (exists type, el.attrib.lookup "type".toList = some type ∧ varTypeOf type = .ok key.type) ∧
      key.description = el.attrib.lookup "description".toList ∧ key.text = el.text := by
  unfold keyElementOf
  constructor
  · intro h
    split at h
    · rename_i hschema
      rcases exists_of_bind h with ⟨name, hname, htypes⟩
      rcases exists_of_bind htypes with ⟨type, htype, hkey⟩
      rcases exists_of_bind htype with ⟨typeText, htypeText, htypeOf⟩
      cases hkey
      exact ⟨hschema, attributeOf_eq_ok.mp hname,
        ⟨typeText, attributeOf_eq_ok.mp htypeText, htypeOf⟩, rfl, rfl⟩
    · cases h
  · rintro ⟨hschema, hname, ⟨typeText, htypeText, htypeOf⟩, hdescription, htext⟩
    rw [if_pos hschema]
    apply bind_eq_ok (attributeOf_eq_ok.mpr hname)
    apply bind_eq_ok (bind_eq_ok (attributeOf_eq_ok.mpr htypeText) htypeOf)
    rw [← hdescription, ← htext]
    rfl

theorem readableKey_setAttrib (description : Text) :
    ReadableKey (el.setAttrib "description".toList description) <-> ReadableKey el := by
  have honly : onlyAttributes (el.setAttrib "description".toList description)
      ["name".toList, "type".toList, "description".toList] = true <->
        onlyAttributes el ["name".toList, "type".toList, "description".toList] = true := by
    rw [onlyAttributes_iff, onlyAttributes_iff]
    constructor
    · intro h name hname
      exact h name ((AList.mem_insert _).mpr (Or.inr hname))
    · intro h name hname
      rcases (AList.mem_insert _).mp hname with rfl | hheld
      · decide
      · exact h name hheld
  have hlookup : forall name, name ≠ "description".toList ->
      (el.setAttrib "description".toList description).attrib.lookup name =
        el.attrib.lookup name := fun name hname => AList.lookup_insert_ne hname
  have hdescribed : (el.setAttrib "description".toList description).attrib.lookup
      "description".toList = some description := AList.lookup_insert _
  constructor
  · rintro ⟨key, var, hkey, hvar⟩
    rcases keyElementOf_eq_ok.mp hkey with
      ⟨⟨htag, hchildren, hnames⟩, hname, ⟨type, htype, htypeOf⟩, _, htext⟩
    rw [hlookup _ (by decide)] at hname htype
    rcases exists_interpret_description hvar (el.attrib.lookup "description".toList) with
      ⟨other, hother⟩
    exact ⟨{ key with description := el.attrib.lookup "description".toList }, other,
      keyElementOf_eq_ok.mpr ⟨⟨htag, hchildren, honly.mp hnames⟩, hname,
        ⟨type, htype, htypeOf⟩, rfl, htext⟩, hother⟩
  · rintro ⟨key, var, hkey, hvar⟩
    rcases keyElementOf_eq_ok.mp hkey with
      ⟨⟨htag, hchildren, hnames⟩, hname, ⟨type, htype, htypeOf⟩, _, htext⟩
    rw [← hlookup _ (by decide)] at hname htype
    rcases exists_interpret_description hvar (some description) with ⟨other, hother⟩
    exact ⟨{ key with description := some description }, other,
      keyElementOf_eq_ok.mpr ⟨⟨htag, hchildren, honly.mpr hnames⟩, hname,
        ⟨type, htype, htypeOf⟩, hdescribed.symm, htext⟩, hother⟩

theorem readableKey_text (name : Text) {type : VarType} (text : Text)
    (hint : type = .int -> exists value, text = formatInt value)
    (hbool : type = .bool -> text ≠ []) :
    ReadableKey ((AnyVar.emptyKey name type).setText (some text)) := by
  have honly : onlyAttributes ((AnyVar.emptyKey name type).setText (some text))
      ["name".toList, "type".toList, "description".toList] = true := by
    rw [onlyAttributes_iff]
    intro other hother
    rcases (AList.mem_insert _).mp hother with rfl | hother
    · decide
    · rcases (AList.mem_insert _).mp hother with rfl | hother
      · decide
      · exact absurd hother (AList.notMem_empty other)
  have htypeOf : varTypeOf type.text = .ok type := by
    cases type <;> rfl
  have hname : (((∅ : Dict Text Text).insert "name".toList name).insert "type".toList
      type.text).lookup "name".toList = some name :=
    (AList.lookup_insert_ne (by decide)).trans (AList.lookup_insert _)
  have hkey : keyElementOf ((AnyVar.emptyKey name type).setText (some text)) =
      .ok ⟨name, type, none, some text⟩ :=
    keyElementOf_eq_ok.mpr
      ⟨⟨rfl, rfl, honly⟩, hname, ⟨_, AList.lookup_insert _, htypeOf⟩, rfl, rfl⟩
  have hvar : exists var, ConfigVar.interpret
      (KeyElement.parsed ⟨name, type, none, some text⟩) = .ok var := by
    unfold ConfigVar.interpret KeyElement.parsed
    cases type with
    | int =>
      rcases hint rfl with ⟨value, rfl⟩
      simp only [Option.some_inj, if_neg (formatInt_ne_nil value), Option.bind_some,
        parseInt_formatInt]
      exact ⟨_, rfl⟩
    | bool =>
      simp only [Option.some_inj, if_neg (hbool rfl)]
      exact ⟨_, rfl⟩
    | str | password =>
      generalize (if some text = some [] then none else some text) = seen
      rcases seen with _ | seen
      · exact ⟨_, rfl⟩
      · exact ⟨_, rfl⟩
  rcases hvar with ⟨var, hvar⟩
  exact ⟨_, var, hkey, hvar⟩

namespace AnyVar

variable {O : Type} {library : Library O}

theorem addText_emptyKey {name text : Text} {type : VarType} (h : legalText text = true) :
    addText text (emptyKey name type) = .ok ((emptyKey name type).setText (some text)) :=
  bind_of_ok (takenText_legal h)

variable {value : PyValue O}

theorem makeKey_text {name : Text} (hname : legalText name = true)
    (htaken : value.Taken library name) :
    exists el, makeKey library name value = .ok el ∧
      (value.Fits library name <-> ReadableKey el) := by
  have htext : forall {type text}, legalText text = true ->
      (type = .int -> exists value, text = formatInt value) -> (type = .bool -> text ≠ []) ->
        exists el, addText text (emptyKey name type) = .ok el ∧ (True <-> ReadableKey el) :=
    fun hlegal hint hbool => ⟨_, addText_emptyKey hlegal,
      iff_of_true trivial (readableKey_text name _ hint hbool)⟩
  unfold makeKey
  rw [bind_of_ok (takenText_legal hname)]
  cases value with
  | int value => exact htext (legalText_formatInt value) (fun _ => ⟨value, rfl⟩) nofun
  | bool value =>
    cases value with
    | false | true => exact htext (by decide) nofun (fun _ => by decide)
  | none => exact htext rfl nofun nofun
  | unicode text =>
    rcases @htext .str text htaken nofun nofun with ⟨el, hel, hread⟩
    exact ⟨el, hel, iff_of_true htaken (hread.mp trivial)⟩
  | bytes data =>
    rcases htaken with ⟨text, hascii, hlegal⟩
    rcases @htext .str text hlegal nofun nofun with ⟨el, hel, hread⟩
    exact ⟨el, bind_eq_ok (takenBytes_eq_ok.mpr ⟨hascii, hlegal⟩) hel,
      iff_of_true ⟨text, hascii, hlegal⟩ (hread.mp trivial)⟩
  | dict entries =>
    rcases htaken with ⟨el, hel⟩
    refine ⟨el, hel, ?_, fun hread => ⟨el, hel, hread⟩⟩
    rintro ⟨other, hother, hread⟩
    cases hel.symm.trans hother
    exact hread
  | tuple items => exact htaken.elim
  | object other =>
    rcases htaken with ⟨el, hel⟩
    refine ⟨el, hel, ?_, fun hread => ⟨el, hel, hread⟩⟩
    rintro ⟨other, hother, hread⟩
    cases hel.symm.trans hother
    exact hread

theorem taken_of_makeKey {name : Text} (h : makeKey library name value = .ok el) :
    legalText name = true ∧ value.Taken library name := by
  rcases exists_of_bind h with ⟨taken, hname, hvalue⟩
  rcases takenText_eq_ok.mp hname with ⟨hlegal, rfl⟩
  refine ⟨hlegal, ?_⟩
  cases value with
  | int value => trivial
  | bool value => trivial
  | none => trivial
  | unicode text =>
    rcases exists_of_bind hvalue with ⟨text, htext, _⟩
    exact (takenText_eq_ok.mp htext).left
  | bytes data =>
    rcases exists_of_bind hvalue with ⟨text, htext, _⟩
    exact ⟨text, takenBytes_eq_ok.mp htext⟩
  | dict entries => exact ⟨el, hvalue⟩
  | tuple items => cases hvalue
  | object other => exact ⟨el, hvalue⟩

theorem describes_iff :
    value.Describes library <-> value.truth library = .ok false ∨
      value.truth library = .ok true ∧ exists text, attribText library value = .ok text := by
  cases value with
  | int value =>
    by_cases hzero : value = 0
    · subst hzero
      exact iff_of_true rfl (Or.inl rfl)
    · apply iff_of_false hzero
      rintro (hfalse | ⟨_, _, htext⟩)
      · exact hzero (of_not_not (of_decide_eq_false (Except.ok.inj hfalse)))
      · cases htext
  | bool value =>
    cases value with
    | false => exact iff_of_true rfl (Or.inl rfl)
    | true =>
      apply iff_of_false nofun
      rintro (hfalse | ⟨_, _, htext⟩)
      · cases hfalse
      · cases htext
  | none => exact iff_of_true trivial (Or.inl rfl)
  | unicode text =>
    rcases text with _ | ⟨c, rest⟩
    · exact iff_of_true rfl (Or.inl rfl)
    · constructor
      · intro h
        exact Or.inr ⟨rfl, _, takenText_legal h⟩
      · rintro (hfalse | ⟨_, taken, htaken⟩)
        · cases hfalse
        · exact (takenText_eq_ok.mp htaken).left
  | bytes data =>
    rcases data with _ | ⟨byte, rest⟩
    · exact iff_of_true ⟨[], rfl, rfl⟩ (Or.inl rfl)
    · constructor
      · rintro ⟨text, htext⟩
        exact Or.inr ⟨rfl, text, takenBytes_eq_ok.mpr htext⟩
      · rintro (hfalse | ⟨_, taken, htaken⟩)
        · cases hfalse
        · exact ⟨taken, takenBytes_eq_ok.mp htaken⟩
  | dict entries =>
    rcases entries with _ | ⟨entry, rest⟩
    · exact iff_of_true rfl (Or.inl rfl)
    · apply iff_of_false nofun
      rintro (hfalse | ⟨_, _, htext⟩)
      · cases hfalse
      · cases htext
  | tuple items =>
    rcases items with _ | ⟨item, rest⟩
    · exact iff_of_true rfl (Or.inl rfl)
    · apply iff_of_false nofun
      rintro (hfalse | ⟨_, _, htext⟩)
      · cases hfalse
      · cases htext
  | object other => exact Iff.rfl

theorem Taken.getElement {var : AnyVar O} (h : var.Taken library) :
    exists el, var.getElement library = .ok el ∧ (var.Fits library <-> ReadableKey el) := by
  rcases makeKey_text h.name h.value with ⟨el, hel, hread⟩
  have hfits : var.Fits library <-> var.value.Fits library var.name :=
    ⟨fun hfits => hfits.value, fun hvalue => ⟨h.name, hvalue, h.description⟩⟩
  unfold AnyVar.getElement
  rw [bind_of_ok hel]
  rcases describes_iff.mp h.description with hfalse | ⟨htrue, text, htext⟩
  · rw [bind_of_ok hfalse]
    exact ⟨el, rfl, hfits.trans hread⟩
  · rw [bind_of_ok htrue]
    refine ⟨el.setAttrib "description".toList text, bind_of_ok htext, ?_⟩
    exact hfits.trans (hread.trans (readableKey_setAttrib text).symm)

theorem taken_of_getElement {var : AnyVar O}
    (h : var.getElement library = .ok el) : var.Taken library := by
  rcases exists_of_bind h with ⟨made, hmade, hrest⟩
  rcases exists_of_bind hrest with ⟨described, hdescribed, hdescription⟩
  rcases taken_of_makeKey hmade with ⟨hname, hvalue⟩
  refine ⟨hname, hvalue, describes_iff.mpr ?_⟩
  cases described with
  | false => exact Or.inl hdescribed
  | true =>
    rcases exists_of_bind hdescription with ⟨text, htext, _⟩
    exact Or.inr ⟨hdescribed, text, htext⟩

end AnyVar

/-!
## Stores
-/

namespace AnyStore

variable {O : Type} {library : Library O} {store : AnyStore O}

structure Taken (library : Library O) (store : AnyStore O) : Prop where
  name : legalText store.name = true
  keyPrefix : legalText (store.keyPrefix.getD []) = true
  vars : forall {key var}, store.vars.lookup key = some var -> var.Taken library

/-- The schema allows all of it as well. -/
structure Fits (library : Library O) (store : AnyStore O) : Prop where
  taken : store.Taken library
  vars : forall {key var}, store.vars.lookup key = some var -> var.Fits library

variable {key : Text}

theorem exists_var (h : key ∈ sortedTexts store.vars.keys) :
    exists var, store.vars.lookup key = some var :=
  Dict.exists_lookup (AList.mem_keys.mpr (mem_sortedTexts.mp h))

theorem mem_of_lookup {var : AnyVar O} (h : store.vars.lookup key = some var) :
    key ∈ sortedTexts store.vars.keys :=
  mem_sortedTexts.mpr (AList.mem_keys.mp (Dict.mem_of_lookup h))

theorem generateKey_eq {var : AnyVar O} (h : store.vars.lookup key = some var) :
    store.generateKey library key = var.getElement library := by
  unfold generateKey
  rw [h]
  rfl

def rootOf (store : AnyStore O) (keys : List Element) : Element :=
  .mk "config-store".toList (store.rootAttrib store.name) none [.mk "key-list".toList ∅ none keys]

theorem Taken.generate (h : store.Taken library) :
    exists keys, (sortedTexts store.vars.keys).mapM (store.generateKey library) = .ok keys ∧
      store.generate library = .ok (store.rootOf keys) := by
  have hkeys : exists keys,
      (sortedTexts store.vars.keys).mapM (store.generateKey library) = .ok keys := by
    apply exists_mapM_ok
    intro key hkey
    rcases exists_var hkey with ⟨var, hvar⟩
    rcases (h.vars hvar).getElement with ⟨el, hel, _⟩
    exact ⟨el, (generateKey_eq hvar).trans hel⟩
  rcases hkeys with ⟨keys, hkeys⟩
  refine ⟨keys, hkeys, ?_⟩
  unfold AnyStore.generate
  rw [bind_of_ok (takenText_legal h.name), bind_of_ok (takenText_legal h.keyPrefix),
    bind_of_ok hkeys]
  rfl

theorem taken_of_generate {root : Element} (h : store.generate library = .ok root) :
    store.Taken library := by
  rcases exists_of_bind h with ⟨name, hname, hrest⟩
  rcases exists_of_bind hrest with ⟨keyPrefix, hkeyPrefix, hkeys⟩
  rcases exists_of_bind hkeys with ⟨keys, hkeys, _⟩
  refine ⟨(takenText_eq_ok.mp hname).left, (takenText_eq_ok.mp hkeyPrefix).left, ?_⟩
  intro key var hvar
  rcases (mapM_ok_mem hkeys).left key (mem_of_lookup hvar) with ⟨el, _, hel⟩
  exact AnyVar.taken_of_getElement ((generateKey_eq hvar).symm.trans hel)

theorem lookup_rootAttrib (store : AnyStore O) (name : Text) :
    (store.rootAttrib name).lookup "name".toList = some name ∧
      (store.rootAttrib name).lookup "prefix".toList = ConfigStore.orNone store.keyPrefix ∧
      (store.rootAttrib name).lookup "access-mode".toList =
        store.accessMode.map AccessMode.text := by
  unfold rootAttrib
  rcases ConfigStore.orNone store.keyPrefix with _ | keyPrefix
  · rcases store.accessMode with _ | mode
    · exact ⟨rfl, rfl, rfl⟩
    · exact ⟨rfl, rfl, rfl⟩
  · rcases store.accessMode with _ | mode
    · exact ⟨rfl, rfl, rfl⟩
    · exact ⟨rfl, rfl, rfl⟩

theorem onlyAttributes_rootOf (keys : List Element) : onlyAttributes (store.rootOf keys)
    ["name".toList, "dictstyle".toList, "prefix".toList, "access-mode".toList] = true := by
  show onlyAttributes (.mk _ (store.rootAttrib store.name) _ _) _ = true
  unfold rootAttrib
  rcases ConfigStore.orNone store.keyPrefix with _ | keyPrefix
  · rcases store.accessMode with _ | mode
    · rfl
    · rfl
  · rcases store.accessMode with _ | mode
    · rfl
    · rfl

theorem documentOf_rootOf (keys : List Element) :
    documentOf (store.rootOf keys) = (keys.mapM keyElementOf).map fun els =>
      ⟨store.name, ConfigStore.orNone store.keyPrefix, store.accessMode, [els]⟩ := by
  rcases lookup_rootAttrib store store.name with ⟨hname, hkeyPrefix, hmode⟩
  have hmodeOf : accessModeOf ((store.rootOf keys).attrib.lookup "access-mode".toList) =
      .ok store.accessMode := by
    show accessModeOf ((store.rootAttrib store.name).lookup _) = _
    rw [hmode]
    rcases store.accessMode with _ | _ | _ <;> rfl
  have hlists : [Element.mk "key-list".toList ∅ none keys].mapM keyListOf =
      (keys.mapM keyElementOf).map fun els => [els] := by
    have hlist : keyListOf (.mk "key-list".toList ∅ none keys) = keys.mapM keyElementOf := rfl
    rw [mapM_cons, hlist]
    rcases keys.mapM keyElementOf with raised | els
    · rfl
    · rfl
  unfold documentOf
  rw [if_pos ⟨rfl, rfl, onlyAttributes_rootOf keys⟩, bind_of_ok (attributeOf_eq_ok.mpr hname),
    bind_of_ok hmodeOf]
  show ([Element.mk "key-list".toList ∅ none keys].mapM keyListOf >>= fun keyLists =>
    (.ok ⟨store.name, (store.rootAttrib store.name).lookup "prefix".toList, store.accessMode,
      keyLists⟩ : Except PyError Document)) = _
  rw [hlists, hkeyPrefix]
  rcases keys.mapM keyElementOf with raised | els
  · rfl
  · rfl

/-!
## Reading back
-/

/-- A store of the same name and prefix is valid after it has read the file, and all variables of
the file could be read. -/
structure ReadsBack (library : Library O) (store : AnyStore O) (file : StoredFile) : Prop where
  treeValid : ((ConfigStore.new store.name store.keyPrefix).read (file.asRead library)).1.treeValid =
    true
  vars : forall {document}, file.asRead library = .document document ->
    forall key, key ∈ document.parsedKeys -> exists var, ConfigVar.interpret key = .ok var

theorem treeValid_read_document (store : ConfigStore) (document : Document) :
    (store.read (.document document)).1.treeValid = true := by
  have hvalid : (store.readIn document).treeValid = true :=
    (ConfigStore.foldl_readKey_header _ _).right.right.right
  rw [ConfigStore.read_document]
  split
  · rw [ConfigStore.write_none hvalid]
    exact hvalid
  · exact hvalid

theorem readsBack_iff (htaken : store.Taken library) {keys : List Element}
    (hkeys : (sortedTexts store.vars.keys).mapM (store.generateKey library) = .ok keys) :
    ReadsBack library store (.serialised (store.rootOf keys)) <-> store.Fits library := by
  have hread : StoredFile.asRead library (.serialised (store.rootOf keys)) =
      fileOf (documentOf (store.rootOf keys)) := rfl
  rw [documentOf_rootOf] at hread
  constructor
  · rintro ⟨hvalid, hvars⟩
    rcases hels : keys.mapM keyElementOf with raised | els
    · rw [hels] at hread
      rw [hread] at hvalid
      cases hvalid
    · rw [hels] at hread
      refine ⟨htaken, ?_⟩
      intro name var hvar
      rcases (htaken.vars hvar).getElement with ⟨el, hel, hfits⟩
      rcases (mapM_ok_mem hkeys).left name (mem_of_lookup hvar) with ⟨held, hheld, hgenerated⟩
      cases (generateKey_eq hvar).symm.trans hgenerated |>.symm.trans hel
      rcases (mapM_ok_mem hels).left el hheld with ⟨key, hkey, hkeyOf⟩
      have hparsed : exists var, ConfigVar.interpret key.parsed = .ok var := by
        apply hvars hread
        exact mem_map_of_mem (mem_flatten.mpr ⟨els, mem_singleton_self els, hkey⟩)
      rcases hparsed with ⟨found, hfound⟩
      exact hfits.mpr ⟨key, found, hkeyOf, hfound⟩
  · intro hfits
    have hreadable : forall el, el ∈ keys -> ReadableKey el := by
      intro el hel
      rcases (mapM_ok_mem hkeys).right el hel with ⟨name, hname, hgenerated⟩
      rcases exists_var hname with ⟨var, hvar⟩
      rcases (htaken.vars hvar).getElement with ⟨other, hother, hiff⟩
      cases ((generateKey_eq hvar).symm.trans hgenerated).symm.trans hother
      exact hiff.mp (hfits.vars hvar)
    have hels : exists els, keys.mapM keyElementOf = .ok els := by
      apply exists_mapM_ok
      intro el hel
      rcases hreadable el hel with ⟨key, _, hkey, _⟩
      exact ⟨key, hkey⟩
    rcases hels with ⟨els, hels⟩
    rw [hels] at hread
    constructor
    · rw [hread]
      exact treeValid_read_document _ _
    · intro document hdocument key hkey
      cases hread.symm.trans hdocument
      rcases mem_map.mp hkey with ⟨parsed, hparsed, rfl⟩
      have hheld : parsed ∈ els := by
        rcases mem_flatten.mp hparsed with ⟨list, hlist, hheld⟩
        cases mem_singleton.mp hlist
        exact hheld
      rcases (mapM_ok_mem hels).right parsed hheld with ⟨el, hel, hkeyOf⟩
      rcases hreadable el hel with ⟨other, var, hother, hvar⟩
      cases hkeyOf.symm.trans hother
      exact ⟨var, hvar⟩

/-- What `write` leaves behind: the file as it was, if it says that it could not write, and a file
that can be read, if it says that it has written. -/
structure WriteKeeps (library : Library O) (store : AnyStore O) (accessMode : Option AccessMode)
    (canOpen : Bool) (file : StoredFile) : Prop where
  kept : (store.write library accessMode canOpen file).2 = .cannotWrite ->
    (store.write library accessMode canOpen file).1 = file
  readable : (store.write library accessMode canOpen file).2 = .wrote ->
    ReadsBack library store (store.write library accessMode canOpen file).1

section Write

variable (hvalid : store.treeValid = true) (accessMode : Option AccessMode) (file : StoredFile)
include hvalid

theorem write_generated {root : Element}
    (h : { store with accessMode := accessMode.or store.accessMode }.generate library = .ok root) :
    store.write library accessMode true file = (.serialised root, .wrote) := by
  unfold write
  rw [if_pos hvalid]
  simp only [h, if_true]

theorem write_raised {raised : PyError}
    (h : { store with accessMode := accessMode.or store.accessMode }.generate library =
      .error raised) : store.write library accessMode true file = (.data [], .cannotWrite) := by
  unfold write
  rw [if_pos hvalid]
  simp only [h, if_true]

end Write

/-- The file must not be opened, or everything can be written and read, or there is something that
cannot be written and the file was empty before. -/
theorem writeKeeps_iff (library : Library O) {store : AnyStore O} (hvalid : store.treeValid = true)
    (accessMode : Option AccessMode) (canOpen : Bool) (file : StoredFile) :
    WriteKeeps library store accessMode canOpen file <->
      canOpen = false ∨ store.Fits library ∨ ¬ store.Taken library ∧ file = .data [] := by
  let after := { store with accessMode := accessMode.or store.accessMode }
  cases canOpen with
  | false =>
    have hwrite : store.write library accessMode false file = (file, .cannotWrite) := if_pos hvalid
    apply iff_of_true
    · constructor
      · intro _
        rw [hwrite]
      · rw [hwrite]
        nofun
    · exact Or.inl rfl
  | true =>
    by_cases htaken : store.Taken library
    · have hafter : after.Taken library := ⟨htaken.name, htaken.keyPrefix, htaken.vars⟩
      rcases hafter.generate with ⟨keys, hkeys, hgenerate⟩
      have hwrite := write_generated hvalid accessMode file hgenerate
      have hreads : ReadsBack library store (.serialised (after.rootOf keys)) <->
          store.Fits library :=
        ⟨fun h => ⟨htaken, ((readsBack_iff hafter hkeys).mp ⟨h.treeValid, h.vars⟩).vars⟩,
          fun h => ⟨((readsBack_iff hafter hkeys).mpr ⟨hafter, h.vars⟩).treeValid,
            ((readsBack_iff hafter hkeys).mpr ⟨hafter, h.vars⟩).vars⟩⟩
      constructor
      · rintro ⟨_, hreadable⟩
        rw [hwrite] at hreadable
        exact Or.inr (Or.inl (hreads.mp (hreadable rfl)))
      · intro hcases
        have hfits : store.Fits library := by
          rcases hcases with hopen | hfits | ⟨hnot, _⟩
          · cases hopen
          · exact hfits
          · exact absurd htaken hnot
        constructor
        · rw [hwrite]
          nofun
        · intro _
          rw [hwrite]
          exact hreads.mpr hfits
    · rcases hgenerate : after.generate library with raised | root
      · have hwrite := write_raised hvalid accessMode file hgenerate
        constructor
        · rintro ⟨hkept, _⟩
          rw [hwrite] at hkept
          exact Or.inr (Or.inr ⟨htaken, (hkept rfl).symm⟩)
        · intro hcases
          have hempty : file = .data [] := by
            rcases hcases with hopen | hfits | ⟨_, hempty⟩
            · cases hopen
            · exact absurd hfits.taken htaken
            · exact hempty
          constructor
          · intro _
            rw [hwrite, hempty]
          · rw [hwrite]
            nofun
      · have hafter := taken_of_generate hgenerate
        exact absurd ⟨hafter.name, hafter.keyPrefix, hafter.vars⟩ htaken

/-- There are no objects of other types. -/
def noObjects : Library Empty where
  truth := nofun
  attribText := nofun
  addDict _ _ := .error .typeError
  addObject := nofun
  parse _ := .error .valueError

def singleStore (value : PyValue Empty) : AnyStore Empty :=
  (new "monitor".toList none).setVar "location".toList value (.unicode [])

theorem lookup_singleStore (value : PyValue Empty) :
    (singleStore value).vars.lookup "location".toList =
      some ⟨"location".toList, value, .unicode []⟩ := AList.lookup_insert _

theorem eq_of_lookup_singleStore {value : PyValue Empty} {var : AnyVar Empty}
    (h : (singleStore value).vars.lookup key = some var) :
    var = ⟨"location".toList, value, .unicode []⟩ := by
  have hmem : key ∈ (singleStore value).vars := Dict.mem_of_lookup h
  rcases (AList.mem_insert _).mp hmem with rfl | hempty
  · exact (Option.some.inj ((lookup_singleStore value).symm.trans h)).symm
  · exact absurd hempty (AList.notMem_empty key)

theorem text_written : (new "monitor".toList none).setItem "location".toList
      (.unicode "Wien".toList) = .ok (singleStore (.unicode "Wien".toList)) ∧
    WriteKeeps noObjects (singleStore (.unicode "Wien".toList)) none true .absent := by
  have hlegal : legalText "Wien".toList = true := by decide
  refine ⟨rfl, (writeKeeps_iff noObjects rfl none true .absent).mpr (Or.inr (Or.inl ?_))⟩
  refine ⟨⟨by decide, rfl, ?_⟩, ?_⟩
  · intro key var hvar
    rw [eq_of_lookup_singleStore hvar]
    exact ⟨by decide, hlegal, rfl⟩
  · intro key var hvar
    rw [eq_of_lookup_singleStore hvar]
    exact ⟨by decide, hlegal, rfl⟩

/-- A byte string that is no ASCII text cannot be written, and the file is empty then. -/
theorem bytes_lose_file : (new "monitor".toList none).setItem "location".toList
      (.bytes [75, 246, 108, 110]) = .ok (singleStore (.bytes [75, 246, 108, 110])) ∧
    ¬ WriteKeeps noObjects (singleStore (.bytes [75, 246, 108, 110])) none true (.data [60]) := by
  refine ⟨rfl, ?_⟩
  rintro ⟨hkept, _⟩
  rcases hgenerate : (singleStore (.bytes [75, 246, 108, 110])).generate noObjects with raised | root
  · have hwrite := @write_raised _ noObjects (singleStore (.bytes [75, 246, 108, 110])) rfl none
      (.data [60]) _ hgenerate
    rw [hwrite] at hkept
    cases hkept rfl
  · have hvalue := ((taken_of_generate hgenerate).vars (lookup_singleStore _)).value
    rcases hvalue with ⟨text, htext, _⟩
    cases htext

end AnyStore

end Icsw.Config
