import Icsw.Foundation.Dict
import Icsw.Foundation.Program
import Icsw.Foundation.TextFile

/-!
# Trees of names

The full name and the depth of a row are computed from its parent when the row is saved, and a row
whose full name changes saves its children again..  `Rules` is what domain names and categories do
differently.
-/

namespace Icsw.NameTree

open Foundation

/-- The columns of a row; those of one table alone are in `extra`. -/
structure Node (E : Type) where
  name : Text
  fullName : Text
  parent : Option Nat
  depth : Nat
  extra : E
deriving DecidableEq

abbrev Entry (E : Type) := Sigma fun _ : Nat => Node E

structure Table (E : Type) where
  rows : Dict Nat (Node E)
  nextPk : Nat
  fresh : forall pk, pk ∈ rows -> pk < nextPk

variable {E : Type}

namespace Table

variable (table : Table E)

def row (pk : Nat) : Option (Node E) := table.rows.lookup pk

def parentOf (pk : Nat) : Option Nat := (table.row pk).bind Node.parent

def empty : Table E where
  rows := ∅
  nextPk := 1
  fresh _ hpk := absurd hpk (AList.notMem_empty _)

def add (node : Node E) : Table E where
  rows := table.rows.insert table.nextPk node
  nextPk := table.nextPk + 1
  fresh := by
    intro pk hpk
    rcases (AList.mem_insert _).mp hpk with heq | hmem
    · rw [heq]
      exact Nat.lt_succ_self _
    · exact Nat.lt_succ_of_lt (table.fresh pk hmem)

def update (pk : Nat) (node : Node E) : Table E where
  rows := table.rows.insert pk node
  nextPk := max table.nextPk (pk + 1)
  fresh := by
    intro other hother
    rcases (AList.mem_insert _).mp hother with heq | hmem
    · rw [heq]
      exact Nat.lt_of_lt_of_le (Nat.lt_succ_self pk) (Nat.le_max_right _ _)
    · exact Nat.lt_of_lt_of_le (table.fresh other hmem) (Nat.le_max_left _ _)

def named (name : Text) (parent : Option Nat) : List (Entry E) :=
  table.rows.entries.filter fun entry => entry.2.name = name ∧ entry.2.parent = parent

def children (pk : Nat) : List (Entry E) :=
  table.rows.entries.filter fun entry => entry.2.parent = some pk

def usedNames (pk : Option Nat) (node : Node E) : List Text :=
  (table.rows.entries.filter fun entry =>
    some entry.1 ≠ pk ∧ entry.2.depth = node.depth ∧ entry.2.parent = node.parent).map
      fun entry => entry.2.name

end Table

/--
What the database does: the rows whose columns it takes, and the order in which it
returns the rows of a query.
-/
structure Database (E : Type) where
  fits : Text -> Text -> E -> Bool
  listed : List (Entry E) -> List (Entry E)
  listed_perm : forall entries, (listed entries).Perm entries

/-- Saves an instance, with its key if it has one, and returns it as it was saved. -/
abbrev Saver (E : Type) := Option Nat -> Node E -> Program (Table E) (Nat × Node E)

/-- What is done with an instance when it is made from its row. -/
abbrev Loader (E : Type) := Nat -> Node E -> Program (Table E) (Node E)

structure Rules (E : Type) where
  separator : Char
  /-- The parts of a name, the ones to be looked up first; the last one is the node's own. -/
  parts : Text -> List Text
  legal : Char -> Bool
  /-- The full name of a node with this name below a node with this full name. -/
  join : Text -> Text -> Text
  usedMessage : Text -> Text
  /-- The columns of a parent that is created for a node. -/
  parentExtra : E -> E
  checkFirst : E -> Except PyError Unit
  settle : Option Nat -> E -> E
  checkSettled : E -> Except PyError Unit
  checkName : Text -> Nat -> Except PyError Unit
  checkFullName : Text -> E -> Except PyError Unit
  checkTop : E -> Except PyError Unit
  /-- `post_init`, with the levels of calls that are left. -/
  postInit : Nat -> Saver E -> Loader E

/-- A regular expression `^[..]+$`, whose end also matches before a last newline. -/
def matchesAll (legal : Char -> Bool) (text : Text) : Bool :=
  let core := if text.getLast? = some '\n' then text.dropLast else text
  decide (core ≠ []) && core.all legal

def quoted (start : String) (text : Text) (rest : String) : Text :=
  start.toList ++ text ++ rest.toList

def checkEmptyString (attrName : String) (value : Text) : Except PyError Unit :=
  if strip value = [] then .error (.validationError (attrName ++ " can not be empty").toList)
  else .ok ()

def checkNonEmptyString (attrName : String) (value : Text) : Except PyError Unit :=
  if strip value ≠ [] then .error (.validationError (attrName ++ " must be empty").toList)
  else .ok ()

def load (loader : Loader E) (pk : Nat) : Program (Table E) (Node E) := do
  let table ← get
  match table.row pk with
  | none => throw .objectDoesNotExist
  | some node => loader pk node

/-- `objects.get(Q(name=..) & Q(parent=..))`, without a value where there is no such row. -/
def findPart (loader : Loader E) (part : Text) (parent : Option Nat) :
    Program (Table E) (Option Nat) := do
  let table ← get
  match table.named part parent with
  | [] => pure none
  | [entry] => do
      let _ ← loader entry.1 entry.2
      pure (some entry.1)
  | _ => throw .multipleObjectsReturned

/-- The loop over all parts but the last one, which creates the rows that are missing. -/
def findParents (rules : Rules E) (loader : Loader E) (save : Saver E) (extra : E) :
    Option Nat -> List Text -> Program (Table E) (Option Nat)
  | parent, [] => pure parent
  | parent, part :: rest => do
      match ← findPart loader part parent with
      | some pk => findParents rules loader save extra (some pk) rest
      | none => do
          let saved ← EStateM.adaptExcept PyError.cannotCreateParent
            (save none
              { name := part, fullName := [], parent, depth := 0, extra := rules.parentExtra extra })
          findParents rules loader save extra (some saved.1) rest

variable (rules : Rules E)

def splitName (loader : Loader E) (save : Saver E) (node : Node E) : Program (Table E) (Node E) :=
  if node.name ≠ [] ∧ rules.separator ∈ node.name then do
    let parts := rules.parts node.name
    let parent ← findParents rules loader save node.extra node.parent parts.dropLast
    match parts.getLast? with
    | none => throw .indexError
    | some own => pure { node with parent, name := own }
  else pure node

/--
The walk to the top that looks for the node itself.  Each round passes one row, so
that a walk of more rounds than rows is in a circle.
-/
def checkParents (table : Table E) (pk : Nat) : Nat -> Option Nat -> Except PyError Unit
  | _, none => .ok ()
  | 0, some _ => .error .endlessLoop
  | rounds + 1, some above =>
    if above = pk then .error (.validationError "parent node is child of node".toList)
    else
      match table.row above with
      | none => .error .keyError
      | some node => checkParents table pk rounds node.parent

/-- Only a stored node can be above its new parent. -/
def checkParent (table : Table E) (pk : Option Nat) (above : Nat) : Except PyError Unit :=
  match pk with
  | none => .ok ()
  | some self => checkParents table self table.rows.entries.length (some above)

def settleParent (loader : Loader E) (pk : Option Nat) (node : Node E) :
    Program (Table E) (Node E) := do
  match node.parent with
  | none => pure node
  | some above => do
      let table ← get
      check (checkParent table pk above)
      let parent ← load loader above
      pure { node with depth := parent.depth + 1 }

def settleFullName (loader : Loader E) (pk : Option Nat) (node : Node E) :
    Program (Table E) (Node E × Bool) := do
  check (rules.checkName node.name node.depth)
  check (checkEmptyString "name" node.name)
  match node.parent with
  | none => throw .attributeError
  | some above => do
      let parent ← load loader above
      let newFullName := rules.join node.name parent.fullName
      let settled := { node with fullName := newFullName, depth := parent.depth + 1 }
      check (rules.checkFullName settled.fullName settled.extra)
      let table ← get
      if settled.name ∈ table.usedNames pk settled then
        throw (.validationError (rules.usedMessage settled.name))
      else pure (settled, decide (newFullName ≠ node.fullName))

def settleNode (loader : Loader E) (pk : Option Nat) (node : Node E) :
    Program (Table E) (Node E × Bool) := do
  let node ← settleParent loader pk node
  if node.depth ≠ 0 ∧ matchesAll rules.legal node.name = false then
    throw (.validationError (quoted "illegal characters in name '" node.name "'"))
  else do
    let settled := { node with extra := rules.settle pk node.extra }
    check (rules.checkSettled settled.extra)
    if settled.depth ≠ 0 then settleFullName rules loader pk settled
    else do
      check (checkNonEmptyString "name" settled.name)
      check (rules.checkTop settled.extra)
      pure (settled, false)

def preSave (loader : Loader E) (save : Saver E) (pk : Option Nat)
    (node : Node E) : Program (Table E) (Node E × Bool) := do
  let stripped := { node with name := strip node.name }
  check (rules.checkFirst stripped.extra)
  let split ← splitName rules loader save stripped
  settleNode rules loader pk split

def write (database : Database E) (pk : Option Nat) (node : Node E) : Program (Table E) Nat := do
  if database.fits node.name node.fullName node.extra then
    match pk with
    | none => do
        let table ← get
        set (table.add node)
        pure table.nextPk
    | some pk => do
        modify fun table => table.update pk node
        pure pk
  else throw .dataError

def loadEntry (loader : Loader E) (entry : Entry E) : Program (Table E) (Nat × Node E) := do
  let node ← loader entry.1 entry.2
  pure (entry.1, node)

def saveSubNodes (save : Saver E) : List (Nat × Node E) -> Program (Table E) PUnit
  | [] => pure ⟨⟩
  | subNode :: rest => do
      let _ ← save (some subNode.1) subNode.2
      saveSubNodes save rest

def postSave (database : Database E) (loader : Loader E) (save : Saver E) (pk : Nat)
    (changed : Bool) : Program (Table E) PUnit := do
  if changed then do
    let table ← get
    let subNodes ← (database.listed (table.children pk)).mapM (loadEntry loader)
    saveSubNodes save subNodes
  else pure ⟨⟩

/-- What is left to do when the parts of the name were found. -/
def saveNode (database : Database E) (loader : Loader E) (save : Saver E)
    (pk : Option Nat) (node : Node E) : Program (Table E) (Nat × Node E) := do
  let (settled, changed) ← settleNode rules loader pk node
  let saved ← write database pk settled
  postSave database loader save saved changed
  pure (saved, settled)

/-- Saving a node, with the levels of nested saves that the interpreter allows. -/
def save (rules : Rules E) (database : Database E) : Nat -> Saver E
  | 0, _, _ => throw .recursionLimit
  | levels + 1, pk, node => do
      let nested := save rules database levels
      let loader := rules.postInit levels nested
      let (settled, changed) ← preSave rules loader nested pk node
      let saved ← write database pk settled
      postSave database loader nested saved changed
      pure (saved, settled)

/-- A new node, or a stored one that is loaded, changed and saved. -/
inductive Request (E : Type) where
  | create (name : Text) (parent : Option Nat) (extra : E)
  | edit (pk : Nat) (name : Text) (parent : Option Nat) (extra : E)
deriving DecidableEq

variable (rules : Rules E) (database : Database E) (levels : Nat)

def handle : Request E -> Program (Table E) (Nat × Node E)
  | .create name parent extra =>
    save rules database levels none { name, fullName := [], parent, depth := 0, extra }
  | .edit pk name parent extra => do
      let node ← load (rules.postInit levels (save rules database levels)) pk
      save rules database levels (some pk) { node with name, parent, extra }

def step (table : Table E) (request : Request E) : Table E :=
  (handle rules database levels request).after table

end Icsw.NameTree
