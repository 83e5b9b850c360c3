import Icsw.NameTree.Rejected
import Mathlib.Data.List.Sort

/-!
# Trees in memory

A table is read into a tree of instances: by key, by full name, and for each node the nodes below it
by name.  Adding a name creates the nodes that are missing.  The table of full names knows the rows
that were there when the tree was read, and only those.
-/

namespace Icsw.NameTree

open Foundation
open Foundation.Forest

variable {E : Type}

/-- An instance with its `_sub_tree`; instances are named by their keys. -/
structure TreeNode (E : Type) where
  node : Node E
  subTree : Dict Text (List Nat)

structure Helper (E : Type) where
  nodeDict : Dict Nat (TreeNode E)
  lut : Dict Text (List Nat)
  rootNode : Option Nat

namespace Helper

def empty : Helper E where
  nodeDict := ∅
  lut := ∅
  rootNode := none

/-- A new instance without nodes below it. -/
def addNode (helper : Helper E) (pk : Nat) (node : Node E) : Helper E :=
  { helper with nodeDict := helper.nodeDict.insert pk { node, subTree := ∅ } }

/-- `_sub_tree.setdefault(name, []).append(node)` -/
def append (helper : Helper E) (above : Nat) (name : Text) (pk : Nat) : Helper E :=
  match helper.nodeDict.lookup above with
  | none => helper
  | some parent =>
    { helper with
      nodeDict := helper.nodeDict.insert above { parent with
        subTree := parent.subTree.insert name ((parent.subTree.lookup name).getD [] ++ [pk]) } }

/-- The columns of an instance after it has been saved. -/
def setNode (helper : Helper E) (pk : Nat) (node : Node E) : Helper E :=
  match helper.nodeDict.lookup pk with
  | none => helper
  | some held => { helper with nodeDict := helper.nodeDict.insert pk { held with node } }

end Helper

structure TreeState (E : Type) where
  helper : Helper E
  table : Table E

def onTable {α : Type} (program : Program (Table E) α) : Program (TreeState E) α := fun state =>
  match program state.table with
  | .ok value table => .ok value { state with table }
  | .error raised table => .error raised { state with table }

def changeHelper (change : Helper E -> Helper E) : Program (TreeState E) PUnit :=
  modify fun state => { state with helper := change state.helper }

/-- What the two trees do differently. -/
structure HelperRules (E : Type) where
  rules : Rules E
  /-- The columns of a node that is created for a name. -/
  newExtra : E
  presetFullName : Text -> Text -> Text
  nameParts : Text -> List Text
  /-- The entry for a full name, with one more node. -/
  record : List Nat -> Nat -> List Nat
  /-- A row whose parent has not been read. -/
  drop : Nat -> Program (TreeState E) PUnit
  /-- A row that is its own parent is dropped as well. -/
  dropsSelf : Bool

variable (tree : HelperRules E) (database : Database E) (levels : Nat)

/-- `order_by("depth")` -/
def byDepth (entries : List (Entry E)) : List (Entry E) :=
  entries.insertionSort fun first second => first.2.depth ≤ second.2.depth

def Helper.enter (helper : Helper E) (pk : Nat) (node : Node E) : Helper E :=
  { helper.addNode pk node with
    lut := helper.lut.insert node.fullName
      (tree.record ((helper.lut.lookup node.fullName).getD []) pk) }

def fixDepth (pk : Nat) (node parent : Node E) : Program (TreeState E) (Node E) :=
  if node.depth = parent.depth + 1 then pure node
  else do
    let saved ← onTable (save tree.rules database levels (some pk)
      { node with depth := parent.depth + 1 })
    changeHelper fun helper => helper.setNode pk saved.2
    pure saved.2

def registerNode (entry : Nat × Node E) : Program (TreeState E) PUnit := do
  changeHelper fun helper => helper.enter tree entry.1 entry.2
  match entry.2.parent with
  | none => changeHelper fun helper => { helper with rootNode := some entry.1 }
  | some above => do
      let state ← get
      match state.helper.nodeDict.lookup above with
      | none => tree.drop entry.1
      | some parent =>
        if tree.dropsSelf ∧ above = entry.1 then tree.drop entry.1
        else do
          let node ← fixDepth tree database levels entry.1 entry.2 parent.node
          changeHelper fun helper => helper.append above node.name entry.1

def registerNodes : List (Nat × Node E) -> Program (TreeState E) PUnit
  | [] => pure ⟨⟩
  | entry :: rest => do
      registerNode tree database levels entry
      registerNodes rest

def readRows : Program (Table E) (List (Nat × Node E)) := do
  let table ← get
  (byDepth (database.listed table.rows.entries)).mapM
    (loadEntry (tree.rules.postInit levels (save tree.rules database levels)))

def readTree : Program (TreeState E) PUnit := do
  let rows ← onTable (readRows tree database levels)
  registerNodes tree database levels rows

/-- The node of this name below the present one, which is created if it is missing. -/
def addPart (cur : Nat) (part : Text) : Program (TreeState E) Nat := do
  let state ← get
  match state.helper.nodeDict.lookup cur with
  | none => throw .keyError
  | some curNode =>
    match curNode.subTree.lookup part with
    | some (first :: _) => pure first
    | some [] => throw .indexError
    | none => do
        let saved ← onTable (save tree.rules database levels none
          { name := part
            fullName := tree.presetFullName part curNode.node.fullName
            parent := some cur
            depth := curNode.node.depth + 1
            extra := tree.newExtra })
        changeHelper fun helper => (helper.addNode saved.1 saved.2).append cur part saved.1
        pure saved.1

def addParts (cur : Nat) (parts : List Text) : Program (TreeState E) Nat :=
  parts.foldlM (addPart tree database levels) cur

def addName (name : Text) : Program (TreeState E) Nat := do
  let state ← get
  match state.helper.rootNode with
  | none => throw .attributeError
  | some root => addParts tree database levels root (tree.nameParts name)

variable {E : Type}

def IsChild (row : Nat -> Option (Node E)) (above : Nat) (part : Text) (child : Nat) : Prop :=
  exists node, row child = some node ∧ node.parent = some above ∧ node.name = part

/-- The instances and what is below each of them. -/
structure MirrorsNodes (helper : Helper E) (row : Nat -> Option (Node E)) : Prop where
  object : forall pk, (helper.nodeDict.lookup pk).map TreeNode.node = row pk
  sub : forall {pk held}, helper.nodeDict.lookup pk = some held -> forall part children,
    held.subTree.lookup part = some children <->
      exists child, children = [child] ∧ IsChild row pk part child
  root : forall pk, helper.rootNode = some pk <-> exists node, row pk = some node ∧ node.parent = none

structure Mirrors (helper : Helper E) (row : Nat -> Option (Node E)) : Prop
    extends MirrorsNodes helper row where
  lut : forall {full pks}, helper.lut.lookup full = some pks ->
    exists pk node, pks = [pk] ∧ row pk = some node ∧ node.fullName = full

/-- Nothing has been added since the tree was read: all rows are known by their full names. -/
def Complete (helper : Helper E) (row : Nat -> Option (Node E)) : Prop :=
  forall pk node, row pk = some node -> helper.lut.lookup node.fullName = some [pk]

/-- Nothing tells the trees apart. -/
structure SameTree (helper other : Helper E) : Prop where
  object : forall pk, (helper.nodeDict.lookup pk).map TreeNode.node =
    (other.nodeDict.lookup pk).map TreeNode.node
  sub : forall {pk held held'}, helper.nodeDict.lookup pk = some held ->
    other.nodeDict.lookup pk = some held' -> forall part,
      held.subTree.lookup part = held'.subTree.lookup part
  root : helper.rootNode = other.rootNode
  lut : forall full, helper.lut.lookup full = other.lut.lookup full

section

variable {helper other : Helper E} {row : Nat -> Option (Node E)} {pk above : Nat}
  {node parent : Node E} {held : TreeNode E}

section

variable (h : MirrorsNodes helper row)
include h

theorem MirrorsNodes.exists_held (hrow : row pk = some node) :
    exists held, helper.nodeDict.lookup pk = some held ∧ held.node = node :=
  Option.map_eq_some_iff.mp ((h.object pk).trans hrow)

theorem MirrorsNodes.row_held (hheld : helper.nodeDict.lookup pk = some held) :
    row pk = some held.node := by
  rw [← h.object, hheld]
  rfl

theorem MirrorsNodes.mem_keys :
    pk ∈ helper.nodeDict.keys <-> exists node, row pk = some node := by
  constructor
  · intro hmem
    rcases Dict.exists_lookup hmem with ⟨held, hheld⟩
    exact ⟨held.node, h.row_held hheld⟩
  · rintro ⟨node, hrow⟩
    rcases h.exists_held hrow with ⟨held, hheld, _⟩
    apply AList.lookup_isSome.mp
    rw [hheld]
    rfl

end

theorem Mirrors.same (h : Mirrors helper row) (hother : Mirrors other row)
    (hcomplete : Complete helper row) (hcomplete' : Complete other row) :
    SameTree helper other where
  object pk := (h.object pk).trans (hother.object pk).symm
  sub hheld hheld' part := by
    apply Option.ext
    intro children
    rw [h.sub hheld, hother.sub hheld']
  root := by
    apply Option.ext
    intro pk
    rw [h.root, hother.root]
  lut full := by
    apply Option.ext
    intro pks
    constructor
    · intro hpks
      rcases h.lut hpks with ⟨pk, node, rfl, hrow, rfl⟩
      exact hcomplete' pk node hrow
    · intro hpks
      rcases hother.lut hpks with ⟨pk, node, rfl, hrow, rfl⟩
      exact hcomplete pk node hrow

theorem SameTree.complete (h : SameTree helper other) (hcomplete : Complete other row) :
    Complete helper row := by
  intro pk node hrow
  rw [h.lut]
  exact hcomplete pk node hrow

theorem isChild_update (hnew : row pk = none) (hparent : node.parent = some above) (key : Nat)
    (part : Text) (child : Nat) :
    IsChild (Function.update row pk (some node)) key part child <->
      (child = pk ∧ key = above ∧ part = node.name) ∨ IsChild row key part child := by
  constructor
  · rintro ⟨found, hfound, habove, hname⟩
    by_cases hchild : child = pk
    · subst hchild
      rw [Function.update_self] at hfound
      cases hfound
      rw [hparent] at habove
      exact Or.inl ⟨rfl, (Option.some.inj habove).symm, hname.symm⟩
    · rw [Function.update_of_ne hchild] at hfound
      exact Or.inr ⟨found, hfound, habove, hname⟩
  · rintro (⟨rfl, rfl, rfl⟩ | ⟨found, hfound, habove, hname⟩)
    · exact ⟨node, Function.update_self _ _ _, hparent, rfl⟩
    · have hchild : child ≠ pk := by
        intro heq
        rw [heq, hnew] at hfound
        cases hfound
      exact ⟨found, (Function.update_of_ne hchild _ _).trans hfound, habove, hname⟩

theorem lookup_append (hheld : helper.nodeDict.lookup above = some held) (name : Text) (key : Nat) :
    (helper.append above name pk).nodeDict.lookup key =
      if above = key then some { held with
        subTree := held.subTree.insert name ((held.subTree.lookup name).getD [] ++ [pk]) }
      else helper.nodeDict.lookup key := by
  rw [Helper.append, hheld]
  exact Dict.lookup_insert_if _ _ _ _

theorem append_lut (helper : Helper E) (above : Nat) (name : Text) (pk : Nat) :
    (helper.append above name pk).lut = helper.lut := by
  unfold Helper.append
  split
  · rfl
  · rfl

theorem append_rootNode (helper : Helper E) (above : Nat) (name : Text) (pk : Nat) :
    (helper.append above name pk).rootNode = helper.rootNode := by
  unfold Helper.append
  split
  · rfl
  · rfl

structure FreePlace (row : Nat -> Option (Node E)) (pk : Nat) (node : Node E) (above : Nat)
    (parent : Node E) : Prop where
  fresh : row pk = none
  below : node.parent = some above
  stored : row above = some parent
  unused : forall child, ¬ IsChild row above node.name child
  childless : forall child found, row child = some found -> found.parent ≠ some pk

theorem FreePlace.ne (h : FreePlace row pk node above parent) : above ≠ pk := by
  intro heq
  have hstored := h.stored
  rw [heq, h.fresh] at hstored
  cases hstored

theorem Mirrors.insert (h : Mirrors helper row) (hplace : FreePlace row pk node above parent)
    {entered : Helper E} (hdict : entered.nodeDict = (helper.addNode pk node).nodeDict)
    (hroot : entered.rootNode = helper.rootNode)
    (hlut : forall {full pks}, entered.lut.lookup full = some pks ->
      exists key found, pks = [key] ∧ Function.update row pk (some node) key = some found ∧
        found.fullName = full) :
    Mirrors (entered.append above node.name pk) (Function.update row pk (some node)) := by
  rcases h.exists_held hplace.stored with ⟨held, hheld, hnode⟩
  have hlookup : forall key, entered.nodeDict.lookup key =
      if pk = key then some { node, subTree := ∅ } else helper.nodeDict.lookup key := by
    intro key
    rw [hdict]
    exact Dict.lookup_insert_if _ _ _ _
  have habove : entered.nodeDict.lookup above = some held := by
    rw [hlookup, if_neg (Ne.symm hplace.ne), hheld]
  have hnone : held.subTree.lookup node.name = none := by
    cases hchildren : held.subTree.lookup node.name with
    | none => rfl
    | some children =>
      rcases (h.sub hheld _ _).mp hchildren with ⟨child, _, hchild⟩
      exact absurd hchild (hplace.unused child)
  constructor
  case toMirrorsNodes =>
    constructor
    case object =>
      intro key
      rw [lookup_append habove]
      by_cases hkey : above = key
      · rw [if_pos hkey, ← hkey, Function.update_of_ne hplace.ne, hplace.stored, ← hnode]
        rfl
      · rw [if_neg hkey, hlookup]
        by_cases hpk : pk = key
        · rw [if_pos hpk, ← hpk, Function.update_self]
          rfl
        · rw [if_neg hpk, Function.update_of_ne (Ne.symm hpk), h.object]
    case sub =>
      intro key found hfound part children
      rw [lookup_append habove] at hfound
      have hchild := isChild_update hplace.fresh hplace.below key part
      by_cases hkey : above = key
      · rw [if_pos hkey] at hfound
        cases hfound
        rw [hnone]
        show (held.subTree.insert node.name [pk]).lookup part = some children <-> _
        rw [Dict.lookup_insert_if]
        by_cases hpart : node.name = part
        · rw [if_pos hpart]
          constructor
          · intro heq
            exact ⟨pk, (Option.some.inj heq).symm, (hchild pk).mpr (Or.inl ⟨rfl, hkey.symm, hpart.symm⟩)⟩
          · rintro ⟨child, rfl, hchild'⟩
            rcases (hchild child).mp hchild' with ⟨rfl, _, _⟩ | hold
            · rfl
            · rw [← hkey, ← hpart] at hold
              exact absurd hold (hplace.unused child)
        · rw [if_neg hpart, h.sub hheld, hkey]
          constructor
          · rintro ⟨child, hchildren, hold⟩
            exact ⟨child, hchildren, (hchild child).mpr (Or.inr hold)⟩
          · rintro ⟨child, hchildren, hnew⟩
            rcases (hchild child).mp hnew with ⟨_, _, hname⟩ | hold
            · exact absurd hname.symm hpart
            · exact ⟨child, hchildren, hold⟩
      · rw [if_neg hkey, hlookup] at hfound
        by_cases hpk : pk = key
        · rw [if_pos hpk] at hfound
          cases hfound
          show (∅ : Dict Text (List Nat)).lookup part = some children <-> _
          rw [AList.lookup_empty]
          constructor
          · intro heq
            cases heq
          · rintro ⟨child, _, hnew⟩
            rcases (hchild child).mp hnew with ⟨_, heq, _⟩ | ⟨found, hrow, hparent, _⟩
            · exact absurd heq.symm hkey
            · exact absurd (hpk ▸ hparent) (hplace.childless child found hrow)
        · rw [if_neg hpk] at hfound
          rw [h.sub hfound]
          constructor
          · rintro ⟨child, hchildren, hold⟩
            exact ⟨child, hchildren, (hchild child).mpr (Or.inr hold)⟩
          · rintro ⟨child, hchildren, hnew⟩
            rcases (hchild child).mp hnew with ⟨_, heq, _⟩ | hold
            · exact absurd heq.symm hkey
            · exact ⟨child, hchildren, hold⟩
    case root =>
      intro key
      rw [append_rootNode, hroot, h.root]
      by_cases hpk : key = pk
      · subst hpk
        rw [Function.update_self]
        constructor
        · rintro ⟨found, hfound, _⟩
          rw [hplace.fresh] at hfound
          cases hfound
        · rintro ⟨found, hfound, hparent⟩
          cases hfound
          rw [hplace.below] at hparent
          cases hparent
      · rw [Function.update_of_ne hpk]
  case lut =>
    intro full pks hpks
    rw [append_lut] at hpks
    exact hlut hpks

theorem isChild_rewritten {new : Node E} (hrow : row pk = some node) (hname : new.name = node.name)
    (hparent : new.parent = node.parent) (key : Nat) (part : Text) (child : Nat) :
    IsChild (Function.update row pk (some new)) key part child <-> IsChild row key part child := by
  by_cases hchild : child = pk
  · subst hchild
    constructor
    · rintro ⟨found, hfound, habove, hpart⟩
      rw [Function.update_self] at hfound
      cases hfound
      exact ⟨node, hrow, hparent ▸ habove, hname ▸ hpart⟩
    · rintro ⟨found, hfound, habove, hpart⟩
      rw [hrow] at hfound
      cases hfound
      exact ⟨new, Function.update_self _ _ _, hparent.trans habove, hname.trans hpart⟩
  · unfold IsChild
    rw [Function.update_of_ne hchild]

theorem lookup_setNode (hheld : helper.nodeDict.lookup pk = some held) (new : Node E) (key : Nat) :
    (helper.setNode pk new).nodeDict.lookup key =
      if pk = key then some { held with node := new } else helper.nodeDict.lookup key := by
  rw [Helper.setNode, hheld]
  exact Dict.lookup_insert_if _ _ _ _

theorem setNode_lut (helper : Helper E) (pk : Nat) (node : Node E) :
    (helper.setNode pk node).lut = helper.lut := by
  unfold Helper.setNode
  split
  · rfl
  · rfl

theorem setNode_rootNode (helper : Helper E) (pk : Nat) (node : Node E) :
    (helper.setNode pk node).rootNode = helper.rootNode := by
  unfold Helper.setNode
  split
  · rfl
  · rfl

theorem row_rewritten {new found : Node E} (hrow : row pk = some node)
    (hparent : new.parent = node.parent) (hfull : new.fullName = node.fullName) {key : Nat}
    (hfound : Function.update row pk (some new) key = some found) :
    exists before, row key = some before ∧ found.parent = before.parent ∧
      found.fullName = before.fullName := by
  by_cases hkey : key = pk
  · rw [hkey, Function.update_self] at hfound
    cases hfound
    exact ⟨node, hkey ▸ hrow, hparent, hfull⟩
  · rw [Function.update_of_ne hkey] at hfound
    exact ⟨found, hfound, rfl, rfl⟩

theorem exists_rewritten {new before : Node E} (hrow : row pk = some node)
    (hparent : new.parent = node.parent) (hfull : new.fullName = node.fullName) {key : Nat}
    (hbefore : row key = some before) :
    exists found, Function.update row pk (some new) key = some found ∧
      found.parent = before.parent ∧ found.fullName = before.fullName := by
  by_cases hkey : key = pk
  · subst hkey
    rw [hrow] at hbefore
    cases hbefore
    exact ⟨new, Function.update_self _ _ _, hparent, hfull⟩
  · exact ⟨before, (Function.update_of_ne hkey _ _).trans hbefore, rfl, rfl⟩

theorem Mirrors.rewrite (h : Mirrors helper row) {new : Node E} (hrow : row pk = some node)
    (hname : new.name = node.name) (hparent : new.parent = node.parent)
    (hfull : new.fullName = node.fullName) :
    Mirrors (helper.setNode pk new) (Function.update row pk (some new)) := by
  rcases h.exists_held hrow with ⟨held, hheld, _⟩
  constructor
  case toMirrorsNodes =>
    constructor
    case object =>
      intro key
      rw [lookup_setNode hheld]
      by_cases hkey : pk = key
      · rw [if_pos hkey, ← hkey, Function.update_self]
        rfl
      · rw [if_neg hkey, Function.update_of_ne (Ne.symm hkey), h.object]
    case sub =>
      intro key found hfound part children
      have hsub : exists old, helper.nodeDict.lookup key = some old ∧ found.subTree = old.subTree := by
        rw [lookup_setNode hheld] at hfound
        split at hfound
        · rename_i hkey
          cases hfound
          exact ⟨held, hkey ▸ hheld, rfl⟩
        · exact ⟨found, hfound, rfl⟩
      rcases hsub with ⟨old, hold, hsame⟩
      rw [hsame, h.sub hold]
      simp only [isChild_rewritten hrow hname hparent]
    case root =>
      intro key
      rw [setNode_rootNode, h.root]
      constructor
      · rintro ⟨before, hbefore, hnone⟩
        rcases exists_rewritten hrow hparent hfull hbefore with ⟨found, hfound, hsame, _⟩
        exact ⟨found, hfound, hsame.trans hnone⟩
      · rintro ⟨found, hfound, hnone⟩
        rcases row_rewritten hrow hparent hfull hfound with ⟨before, hbefore, hsame, _⟩
        exact ⟨before, hbefore, hsame.symm.trans hnone⟩
  case lut =>
    intro full pks hpks
    rw [setNode_lut] at hpks
    rcases h.lut hpks with ⟨key, before, hkey, hbefore, hname⟩
    rcases exists_rewritten hrow hparent hfull hbefore with ⟨found, hfound, _, hsame⟩
    exact ⟨key, found, hkey, hfound, hsame.trans hname⟩

end

end Icsw.NameTree
