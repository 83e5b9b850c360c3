import Icsw.Foundation.TextOrder
import Icsw.Foundation.Xml

/-!
# Config stores

A config store keeps typed variables in a file.  The file is an XML document that
a schema describes: what is read from it is valid, or is not read at all.
-/

namespace Icsw.Config

open Foundation

inductive Value where
  | int (value : Int)
  | bool (value : Bool)
  | str (value : Text)
  | none
deriving DecidableEq

/-- The types that the schema knows. -/
inductive VarType where
  | int
  | str
  | bool
  | password
deriving DecidableEq

/-- The values that can be written under a type. -/
def VarType.suits : VarType -> Value -> Bool
  | .int, .int _ => true
  | .bool, .bool _ => true
  | .str, .str _ => true
  | .str, .none => true
  | .password, .str _ => true
  | .password, .none => true
  | _, _ => false

/-- The type that a new variable gets from its value. -/
def Value.type : Value -> VarType
  | .int _ => .int
  | .bool _ => .bool
  | .str _ => .str
  | .none => .str

theorem Value.type_suits (value : Value) : value.type.suits value = true := by
  cases value with
  | int value => rfl
  | bool value => rfl
  | str value => rfl
  | none => rfl

structure ConfigVar where
  name : Text
  value : Value
  type : VarType
  description : Text
  suits : type.suits value = true
deriving DecidableEq

/-- A `key` element. -/
structure KeyElement where
  name : Text
  type : VarType
  description : Option Text
  text : Option Text
deriving DecidableEq

namespace ConfigVar

def new (name : Text) (value : Value) (description : Text) : ConfigVar where
  name := name
  value := value
  type := value.type
  description := description
  suits := value.type_suits

def setType (var : ConfigVar) (type : VarType) (suits : type.suits var.value = true) : ConfigVar :=
  { var with type := type, suits := suits }

def getValue (var : ConfigVar) : Value :=
  match var.type, var.value with
  | .str, .none => .str []
  | .password, .none => .str []
  | _, value => value

/-- `_val.lower() in ["y", "yes", "1", "true"]` -/
def isTrue (text : Text) : Bool :=
  ["y".toList, "yes".toList, "1".toList, "true".toList].contains (text.map Char.toLower)

def interpret (el : KeyElement) : Except PyError ConfigVar :=
  let description := el.description.getD []
  match el.type with
  | .int =>
    match el.text.bind parseInt with
    | some value => .ok (new el.name (.int value) description)
    | none => .error .valueError
  | .bool =>
    match el.text with
    | some text => .ok (new el.name (.bool (isTrue text)) description)
    | none => .error .valueError
  | _ =>
    match el.text with
    | some text => .ok (new el.name (.str text) description)
    | none => .ok (new el.name .none description)

def elementText (var : ConfigVar) : Text :=
  match var.value with
  | .int value => formatInt value
  | .bool value => if value then "True".toList else "False".toList
  | .str value => value
  | .none => []

/-- The library takes no text that a document cannot carry. -/
def getElement (var : ConfigVar) : Except PyError KeyElement :=
  if legalText var.name && legalText var.elementText && legalText var.description then
    .ok
      { name := var.name
        type := var.type
        description := if var.description = [] then none else some var.description
        text := some var.elementText }
  else .error .valueError

end ConfigVar

inductive AccessMode where
  | globalMode
  | localMode
deriving DecidableEq

structure Document where
  name : Text
  keyPrefix : Option Text
  accessMode : Option AccessMode
  keyLists : List (List KeyElement)
deriving DecidableEq

inductive File where
  | absent
  /-- A file that is empty or is no document of the schema. -/
  | unreadable
  | document (document : Document)
deriving DecidableEq

/-- An element without text is read back without a text. -/
def KeyElement.parsed (el : KeyElement) : KeyElement :=
  { el with text := if el.text = some [] then none else el.text }

/-- `_tree.xpath(".//key")`, of the tree that the parser makes of the file. -/
def Document.parsedKeys (document : Document) : List KeyElement :=
  document.keyLists.flatten.map KeyElement.parsed

structure ConfigStore where
  name : Text
  keyPrefix : Option Text
  requiredAccessMode : Option AccessMode
  accessMode : Option AccessMode
  treeValid : Bool
  vars : Dict Text ConfigVar
  named : forall {key var}, vars.lookup key = some var -> var.name = key

namespace ConfigStore

def new (name : Text) (keyPrefix : Option Text) : ConfigStore where
  name := name
  keyPrefix := keyPrefix
  requiredAccessMode := none
  accessMode := none
  treeValid := true
  vars := ∅
  named h := by
    rw [AList.lookup_empty] at h
    cases h

theorem named_insert {vars : Dict Text ConfigVar}
    (hnamed : forall {key var}, vars.lookup key = some var -> var.name = key) (var : ConfigVar)
    {key : Text} {found : ConfigVar} (h : (vars.insert var.name var).lookup key = some found) :
    found.name = key := by
  rw [Dict.lookup_insert_if] at h
  by_cases hkey : var.name = key
  · rw [if_pos hkey] at h
    cases h
    exact hkey
  · rw [if_neg hkey] at h
    exact hnamed h

variable (store : ConfigStore)

/-- `self.vars[var.name] = var` -/
def addVar (var : ConfigVar) : ConfigStore :=
  { store with vars := store.vars.insert var.name var, named := named_insert store.named var }

/-- `text or None` -/
def orNone : Option Text -> Option Text
  | some (c :: rest) => some (c :: rest)
  | _ => none

def element (key : Text) : Except PyError KeyElement :=
  match store.vars.lookup key with
  | some var => var.getElement
  | none => .error .keyError

def generate : Except PyError Document :=
  if legalText store.name && legalText (store.keyPrefix.getD []) then do
    let keys ← (sortedTexts store.vars.keys).mapM store.element
    .ok
      { name := store.name
        keyPrefix := orNone store.keyPrefix
        accessMode := store.accessMode
        keyLists := [keys] }
  else .error .valueError

/-- The file is emptied before the document is made. -/
def written : File :=
  match store.generate with
  | .ok document => .document document
  | .error _ => .unreadable

def write (accessMode : Option AccessMode) (file : File) : ConfigStore × File :=
  if store.treeValid then
    let store := { store with accessMode := accessMode.or store.accessMode }
    (store, store.written)
  else (store, file)

def readKey (el : KeyElement) : ConfigStore :=
  match ConfigVar.interpret el with
  | .ok var => store.addVar var
  | .error _ => store

/-- A file whose prefix differs is written anew. -/
def read (file : File) : ConfigStore × File :=
  match file with
  | .absent => (store, file)
  | .unreadable => ({ store with treeValid := false }, file)
  | .document document =>
    let rewrite := decide (orNone document.keyPrefix ≠ store.keyPrefix)
    let header :=
      { store with
        treeValid := true
        name := document.name
        accessMode := some (store.requiredAccessMode.getD (document.accessMode.getD .globalMode))
        keyPrefix := if rewrite then store.keyPrefix else some (document.keyPrefix.getD []) }
    let store := document.parsedKeys.foldl readKey header
    if rewrite then store.write none file else (store, file)

end ConfigStore

end Icsw.Config
