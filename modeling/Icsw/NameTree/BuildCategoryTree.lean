import Icsw.NameTree.LookUp
import Icsw.Foundation.Separated

/-!
# Building the category tree

When the tree is built, the top node, the four subtrees and the flags of the nodes that must not
be changed are put right in the table.  A table that already has them is only read.  Otherwise the
subtrees are added, without their full names in memory, and the flags are saved.
-/

namespace Icsw.NameTree

open Foundation List
open Foundation.Forest

/-- `while new_category_name.count("//")`; each round makes the name shorter. -/
def collapseSlashes : Nat -> Text -> Text
  | 0, name => name
  | rounds + 1, name =>
    if contains "//".toList name then
      collapseSlashes rounds (replace "//".toList "/".toList name)
    else name

def categoryParts (name : Text) : List Text :=
  let stripped := rstrip '/' (name.dropWhile fun c => c = '/')
  splitAll '/' (collapseSlashes stripped.length stripped)

/-- The walk to the top comes past a node. -/
def Table.reaches {E : Type} (table : Table E) (top : Nat) : Nat -> Nat -> Bool
  | 0, key => decide (key = top)
  | rounds + 1, key =>
    decide (key = top) ||
      match table.parentOf key with
      | none => false
      | some above => table.reaches top rounds above

/-- `delete()`, which takes the rows below the node with it. -/
def Table.delete {E : Type} (table : Table E) (pk : Nat) : Table E where
  rows := table.rows.comprehend fun key node =>
    if table.reaches pk table.rows.entries.length key then none else some node
  nextPk := table.nextPk
  fresh := by
    intro key hkey
    apply table.fresh
    rw [← AList.lookup_isSome, Dict.lookup_comprehend] at hkey
    rw [← AList.lookup_isSome]
    exact Option.isSome_of_isSome_bind hkey

def dropCategory (pk : Nat) : Program (TreeState CategoryColumns) PUnit := do
  changeHelper fun helper => { helper with nodeDict := helper.nodeDict.erase pk }
  onTable (modify fun table => table.delete pk)

def categoryHelper : HelperRules CategoryColumns where
  rules := categoryRules
  newExtra := CategoryColumns.default
  presetFullName part full := full ++ '/' :: part
  nameParts := categoryParts
  record pks pk := pks ++ [pk]
  drop := dropCategory
  dropsSelf := true

/-- The full names of the nodes that must not be changed. -/
def immutableNames : List Text := [] :: treeSubtypes.map fun name => '/' :: name

structure Orders where
  subtypes : List Text
  subtypes_perm : subtypes.Perm treeSubtypes
  nodes : List Nat -> List Nat
  nodes_perm : forall pks, (nodes pks).Perm pks

section

variable (database : Database CategoryColumns) (levels : Nat) (orders : Orders)

def addTop : Program (TreeState CategoryColumns) PUnit := do
  let state ← get
  if state.table.rows.entries = [] then do
    let _ ← onTable (save categoryRules database levels none
      { name := []
        fullName := []
        parent := none
        depth := 0
        extra := { CategoryColumns.default with comment := "top node".toList } })
    pure ⟨⟩
  else pure ⟨⟩

/-- `if _tree_name not in self.__category_lut` -/
def addMissing : List Text -> Program (TreeState CategoryColumns) PUnit
  | [] => pure ⟨⟩
  | name :: rest => do
      let state ← get
      if '/' :: name ∈ state.helper.lut then addMissing rest
      else do
        let _ ← addName categoryHelper database levels ('/' :: name)
        addMissing rest

def isImmutable (node : Node CategoryColumns) : Bool := decide (node.fullName ∈ immutableNames)

def markNode (pk : Nat) : Program (TreeState CategoryColumns) PUnit := do
  let state ← get
  match state.helper.nodeDict.lookup pk with
  | none => throw .keyError
  | some held =>
    if held.node.extra.immutable = isImmutable held.node then pure ⟨⟩
    else do
      let saved ← onTable (save categoryRules database levels (some pk)
        { held.node with extra := { held.node.extra with immutable := isImmutable held.node } })
      changeHelper fun helper => helper.setNode pk saved.2

def markNodes : List Nat -> Program (TreeState CategoryColumns) PUnit
  | [] => pure ⟨⟩
  | pk :: rest => do
      markNode database levels pk
      markNodes rest

/-- `category_tree()` -/
def buildCategoryTree : Program (TreeState CategoryColumns) PUnit := do
  addTop database levels
  readTree categoryHelper database levels
  addMissing database levels orders.subtypes
  let state ← get
  markNodes database levels (orders.nodes state.helper.nodeDict.keys)

end

theorem categoryHelper_lawful : HelperLawful categoryHelper where
  rules := categoryRules_lawful
  checkFirst := rfl
  record_nil _ := rfl

variable {database : Database CategoryColumns} {levels root pk : Nat}
  {table : Table CategoryColumns} {state after : TreeState CategoryColumns}
  {names : List Text} {node : Node CategoryColumns}

/-- The tree is built over an empty table, or over one with a top node. -/
def Buildable (table : Table CategoryColumns) : Prop :=
  (forall pk, table.row pk = none) ∨ exists root, OneTop categoryRules root table

def TopAdded (table read : Table CategoryColumns) : Prop :=
  read = table ∨ (forall pk, table.row pk = none) ∧
    forall pk node, read.row pk = some node -> node.fullName = []

theorem entries_eq_nil : table.rows.entries = [] <-> forall pk, table.row pk = none := by
  constructor
  · intro hnil pk
    show table.rows.entries.dlookup pk = none
    rw [hnil]
    rfl
  · intro hnone
    apply eq_nil_iff_forall_not_mem.mpr
    intro entry hmem
    have hrow := Table.mem_entries.mp hmem
    rw [hnone] at hrow
    cases hrow

variable {helper : Helper CategoryColumns}

theorem addTop_ok (h : Buildable table)
    (hadd : addTop database levels ⟨helper, table⟩ = .ok ⟨⟩ after) :
    after.helper = helper ∧ TopAdded table after.table ∧
      exists root, OneTop categoryRules root after.table := by
  unfold addTop at hadd
  simp only [bind_apply, get_apply] at hadd
  by_cases hnil : table.rows.entries = []
  · have hnone := entries_eq_nil.mp hnil
    have hsaved := save_plain database categoryRules_lawful (consistent_of_no_rows hnone) levels
      { name := [], fullName := [], parent := none, depth := 0,
        extra := { CategoryColumns.default with comment := "top node".toList } }
      (fun _ => rfl) not_mem_nil
    rw [if_pos hnil] at hadd
    simp only [bind_apply, onTable] at hadd
    cases hresult : save categoryRules database levels none
        { name := [], fullName := [], parent := none, depth := 0,
          extra := { CategoryColumns.default with comment := "top node".toList } } table with
    | error raised between =>
      rw [hresult] at hadd
      cases hadd
    | ok saved between =>
      rw [hresult] at hadd hsaved
      cases hadd
      have hself : forall pk node, between.row pk = some node -> pk = saved.1 ∧ node = saved.2 := by
        intro pk node hrow
        rw [hsaved.hrows] at hrow
        split at hrow
        · rename_i heq
          exact ⟨heq.symm, (Option.some.inj hrow).symm⟩
        · rw [hnone] at hrow
          cases hrow
      refine ⟨rfl, Or.inr ⟨hnone, ?_⟩, saved.1, hsaved.consistent,
        ⟨saved.2, (hsaved.hrows saved.1).trans (if_pos rfl)⟩, ?_⟩
      · intro pk node hrow
        rw [(hself pk node hrow).right]
        rcases hsaved.fullName with ⟨_, _, hfull⟩ | ⟨above, _, habove, _⟩
        · exact hfull
        · cases habove
      · exact fun hrow _ => (hself _ _ hrow).left
  · rw [if_neg hnil] at hadd
    cases hadd
    refine ⟨rfl, Or.inl rfl, ?_⟩
    rcases h with hnone | hone
    · exact absurd (entries_eq_nil.mpr hnone) hnil
    · exact hone

theorem addTop_stored (h : OneTop categoryRules root table) :
    addTop database levels ⟨helper, table⟩ = .ok ⟨⟩ ⟨helper, table⟩ := by
  have hnil : ¬ table.rows.entries = [] := by
    intro hnil
    rcases h.stored with ⟨node, hrow⟩
    rw [entries_eq_nil.mp hnil] at hrow
    cases hrow
  unfold addTop
  simp only [bind_apply, get_apply, if_neg hnil, pure_apply]

def HasFullName (table : Table CategoryColumns) (full : Text) : Prop :=
  exists pk node, table.row pk = some node ∧ node.fullName = full

def HasSubtrees (table : Table CategoryColumns) : Prop :=
  forall name, name ∈ treeSubtypes -> HasFullName table ('/' :: name)

theorem categoryParts_subtype {name : Text} (h : name ∈ treeSubtypes) :
    categoryParts ('/' :: name) = [name] := by
  have hall : forall known, known ∈ treeSubtypes -> categoryParts ('/' :: known) = [known] := by
    decide +kernel
  exact hall name h

theorem legal_subtype {name : Text} (h : name ∈ treeSubtypes) : Legal categoryRules name := by
  have hall : forall known, known ∈ treeSubtypes ->
      known ≠ [] ∧ known.all validCategoryChar = true := by
    decide +kernel
  exact ⟨(hall name h).left, all_eq_true.mp (hall name h).right⟩

/-- The subtree of this name is in the table, and only rows were added to it. -/
structure Extended (root : Nat) (state after : TreeState CategoryColumns) : Prop where
  inMemory : InMemory categoryHelper root after
  lut : after.helper.lut = state.helper.lut
  kept : forall {pk node}, state.table.row pk = some node -> after.table.row pk = some node

theorem Extended.hasFullName (h : Extended root state after) {full : Text}
    (hfull : HasFullName state.table full) : HasFullName after.table full := by
  rcases hfull with ⟨pk, node, hrow, heq⟩
  exact ⟨pk, node, h.kept hrow, heq⟩

theorem addName_subtype (h : InMemory categoryHelper root state) {name : Text}
    (hname : name ∈ treeSubtypes)
    (hadd : addName categoryHelper database levels ('/' :: name) state = .ok pk after) :
    Extended root state after ∧ HasFullName after.table ('/' :: name) := by
  rcases h.table.root_columns with ⟨top, htop, hnone, hnil, _⟩
  have hparts : categoryHelper.nameParts ('/' :: name) = [name] := categoryParts_subtype hname
  have hpart : addPart categoryHelper database levels root name state = .ok pk after := by
    rw [addName_apply h, hparts] at hadd
    unfold addParts at hadd
    rw [foldlM_cons, bind_apply] at hadd
    cases hresult : addPart categoryHelper database levels root name state with
    | error raised between =>
      rw [hresult] at hadd
      cases hadd
    | ok child between =>
      rw [hresult] at hadd
      exact hadd
  have hjoin : categoryRules.join name top.fullName = '/' :: name := by
    rw [hnil]
    rfl
  rcases addPart_cases categoryHelper_lawful h htop (legal_subtype hname) hpart with
    ⟨⟨found, hfound, hparent, hpart'⟩, rfl⟩ |
    ⟨given, saved, hgiven, hparent, _, hadded, hlut, hmemory⟩
  · refine ⟨⟨h, rfl, id⟩, pk, found, hfound, ?_⟩
    rcases h.table.placed hfound root hparent with ⟨parent, hrow, hfull, _⟩
    rw [htop] at hrow
    cases hrow
    rw [hfull, hpart']
    exact hjoin
  · have hself : after.table.row pk = some saved := (hadded.hrows pk).trans (if_pos rfl)
    refine ⟨⟨hmemory, hlut, hadded.kept⟩, pk, saved, hself, ?_⟩
    rcases hmemory.table.placed hself root (hadded.parent.trans hparent) with
      ⟨parent, hrow, hfull, _⟩
    rw [hadded.kept htop] at hrow
    cases hrow
    rw [hfull, hadded.name, hgiven]
    exact hjoin

theorem addMissing_ok (h : InMemory categoryHelper root state)
    (hnames : forall name, name ∈ names -> name ∈ treeSubtypes)
    (hadd : addMissing database levels names state = .ok ⟨⟩ after) :
    Extended root state after ∧
      forall name, name ∈ names -> HasFullName after.table ('/' :: name) := by
  induction names generalizing state with
  | nil =>
    cases hadd
    exact ⟨⟨h, rfl, id⟩, fun _ hmem => absurd hmem not_mem_nil⟩
  | cons name rest ih =>
    have hrest : forall other, other ∈ rest -> other ∈ treeSubtypes :=
      fun other hmem => hnames other (mem_cons_of_mem name hmem)
    rw [addMissing] at hadd
    simp only [bind_apply, get_apply] at hadd
    by_cases hmem : '/' :: name ∈ state.helper.lut
    · rw [if_pos hmem] at hadd
      rcases ih h hrest hadd with ⟨hextended, hall⟩
      refine ⟨hextended, ?_⟩
      intro other hother
      rcases mem_cons.mp hother with rfl | hlater
      · rcases Dict.exists_lookup hmem with ⟨pks, hpks⟩
        rcases h.mirrors.lut hpks with ⟨pk, node, _, hrow, hfull⟩
        exact hextended.hasFullName ⟨pk, node, hrow, hfull⟩
      · exact hall other hlater
    · rw [if_neg hmem, bind_apply] at hadd
      cases hresult : addName categoryHelper database levels ('/' :: name) state with
      | error raised between =>
        rw [hresult] at hadd
        cases hadd
      | ok pk between =>
        rw [hresult] at hadd
        rcases addName_subtype h (hnames name mem_cons_self) hresult with ⟨hone, hfull⟩
        rcases ih hone.inMemory hrest hadd with ⟨hextended, hall⟩
        refine ⟨⟨hextended.inMemory, hextended.lut.trans hone.lut,
          fun hrow => hextended.kept (hone.kept hrow)⟩, ?_⟩
        intro other hother
        rcases mem_cons.mp hother with rfl | hlater
        · exact hextended.hasFullName hfull
        · exact hall other hlater

theorem addMissing_known (h : forall name, name ∈ names -> '/' :: name ∈ state.helper.lut) :
    addMissing database levels names state = .ok ⟨⟩ state := by
  induction names with
  | nil => rfl
  | cons name rest ih =>
    rw [addMissing]
    simp only [bind_apply, get_apply, if_pos (h name mem_cons_self)]
    exact ih fun other hmem => h other (mem_cons_of_mem name hmem)

/-- The flag of the node is the one that its full name asks for. -/
def Marked (table : Table CategoryColumns) (pk : Nat) : Prop :=
  forall node, table.row pk = some node -> node.extra.immutable = isImmutable node

/-- A node apart from its flag. -/
def unmarked (node : Node CategoryColumns) : Node CategoryColumns :=
  { node with extra := { node.extra with immutable := false } }

/-- Nothing but flags was changed, and flags that were right are right. -/
structure Remarked (root : Nat) (state after : TreeState CategoryColumns) : Prop where
  inMemory : InMemory categoryHelper root after
  lut : after.helper.lut = state.helper.lut
  rows : forall pk, (after.table.row pk).map unmarked = (state.table.row pk).map unmarked
  marked : forall {pk}, Marked state.table pk -> Marked after.table pk

theorem remarked_refl (h : InMemory categoryHelper root state) : Remarked root state state where
  inMemory := h
  lut := rfl
  rows _ := rfl
  marked := id

theorem Remarked.trans {middle : TreeState CategoryColumns} (hfirst : Remarked root state middle)
    (hsecond : Remarked root middle after) : Remarked root state after where
  inMemory := hsecond.inMemory
  lut := hsecond.lut.trans hfirst.lut
  rows pk := (hsecond.rows pk).trans (hfirst.rows pk)
  marked h := hsecond.marked (hfirst.marked h)

theorem InMemory.rewrite (h : InMemory categoryHelper root state) {new : Node CategoryColumns}
    (hrow : state.table.row pk = some node) (hname : new.name = node.name)
    (hparent : new.parent = node.parent) (hfull : new.fullName = node.fullName)
    (hconsistent : Consistent categoryRules (state.table.update pk new)) :
    InMemory categoryHelper root ⟨state.helper.setNode pk new, state.table.update pk new⟩ := by
  have hupdate : (state.table.update pk new).row = Function.update state.table.row pk (some new) := by
    funext key
    rw [Table.row_update]
    by_cases hkey : pk = key
    · rw [if_pos hkey, ← hkey, Function.update_self]
    · rw [if_neg hkey, Function.update_of_ne (Ne.symm hkey)]
  constructor
  case table =>
    refine ⟨hconsistent, ?_, ?_⟩
    · rcases h.table.stored with ⟨top, htop⟩
      rcases exists_rewritten hrow hparent hfull htop with ⟨found, hfound, _⟩
      exact ⟨found, hupdate ▸ hfound⟩
    · intro key found hfound hnone
      rw [hupdate] at hfound
      rcases row_rewritten hrow hparent hfull hfound with ⟨before, hbefore, hsame, _⟩
      exact h.table.single hbefore (hsame.symm.trans hnone)
  case mirrors =>
    show Mirrors _ (state.table.update pk new).row
    rw [hupdate]
    exact h.mirrors.rewrite hrow hname hparent hfull

theorem markNode_ok (h : InMemory categoryHelper root state)
    (hmark : markNode database levels pk state = .ok ⟨⟩ after) :
    Remarked root state after ∧ Marked after.table pk := by
  unfold markNode at hmark
  simp only [bind_apply, get_apply] at hmark
  cases hheld : state.helper.nodeDict.lookup pk with
  | none =>
    rw [hheld] at hmark
    cases hmark
  | some held =>
    have hrow := h.mirrors.row_held hheld
    rw [hheld] at hmark
    by_cases hright : held.node.extra.immutable = isImmutable held.node
    · simp only [if_pos hright] at hmark
      cases hmark
      refine ⟨remarked_refl h, ?_⟩
      intro node hnode
      rw [hrow] at hnode
      cases hnode
      exact hright
    · simp only [if_neg hright, bind_apply, onTable] at hmark
      have hconsistent := save_extra database categoryRules_lawful h.table.toConsistent levels
        hrow { held.node.extra with immutable := isImmutable held.node }
      cases hresult : save categoryRules database levels (some pk)
          { held.node with extra := { held.node.extra with immutable := isImmutable held.node } }
          state.table with
      | error raised table =>
        rw [hresult] at hmark
        cases hmark
      | ok saved table =>
        rcases save_columns database categoryRules_lawful h.table.toConsistent levels hrow _
          hresult with ⟨hsaved, htable⟩
        rw [hresult] at hmark hconsistent
        cases hmark
        rw [hsaved, htable]
        rw [htable] at hconsistent
        refine ⟨⟨h.rewrite hrow rfl rfl rfl hconsistent.left, setNode_lut _ _ _, ?_, ?_⟩, ?_⟩
        · intro key
          show ((state.table.update pk _).row key).map unmarked = _
          rw [Table.row_update]
          split
          · rename_i hkey
            rw [← hkey, hrow]
            rfl
          · rfl
        · intro key hmarked node hnode
          rw [Table.row_update] at hnode
          split at hnode
          · cases hnode
            rfl
          · exact hmarked node hnode
        · intro node hnode
          rw [Table.row_update_self] at hnode
          cases hnode
          rfl

theorem markNodes_ok {pks : List Nat} (h : InMemory categoryHelper root state)
    (hmark : markNodes database levels pks state = .ok ⟨⟩ after) :
    Remarked root state after ∧ forall pk, pk ∈ pks -> Marked after.table pk := by
  induction pks generalizing state with
  | nil =>
    cases hmark
    exact ⟨remarked_refl h, fun _ hmem => absurd hmem not_mem_nil⟩
  | cons first rest ih =>
    rw [markNodes, bind_apply] at hmark
    cases hresult : markNode database levels first state with
    | error raised between =>
      rw [hresult] at hmark
      cases hmark
    | ok value between =>
      rw [hresult] at hmark
      rcases markNode_ok h hresult with ⟨hfirst, hmarked⟩
      rcases ih hfirst.inMemory hmark with ⟨hrest, hall⟩
      refine ⟨hfirst.trans hrest, ?_⟩
      intro pk hpk
      rcases mem_cons.mp hpk with rfl | hlater
      · exact hrest.marked hmarked
      · exact hall pk hlater

theorem markNodes_marked {pks : List Nat} (h : InMemory categoryHelper root state)
    (hstored : forall pk, pk ∈ pks -> exists node, state.table.row pk = some node)
    (hmarked : forall pk, Marked state.table pk) :
    markNodes database levels pks state = .ok ⟨⟩ state := by
  induction pks with
  | nil => rfl
  | cons first rest ih =>
    rcases hstored first mem_cons_self with ⟨node, hrow⟩
    rcases h.mirrors.exists_held hrow with ⟨held, hheld, rfl⟩
    have hfirst : markNode database levels first state = .ok ⟨⟩ state := by
      unfold markNode
      simp only [bind_apply, get_apply, hheld, if_pos (hmarked first held.node hrow), pure_apply]
    rw [markNodes, bind_apply, hfirst]
    exact ih fun pk hpk => hstored pk (mem_cons_of_mem first hpk)

/-- Building the tree again would change nothing in the table. -/
structure Settled (table : Table CategoryColumns) : Prop where
  subtrees : HasSubtrees table
  marked : forall pk, Marked table pk

section

variable {row row' : Nat -> Option (Node CategoryColumns)} {name : Text}

section

variable (hrows : forall pk, (row' pk).map unmarked = (row pk).map unmarked)
include hrows

theorem exists_unmarked (hrow : row' pk = some node) : exists before, row pk = some before ∧
      before.parent = node.parent ∧ before.name = node.name ∧ before.fullName = node.fullName := by
  have hmap := hrows pk
  rw [hrow] at hmap
  rcases Option.map_eq_some_iff.mp hmap.symm with ⟨before, hbefore, hsame⟩
  have hparent : (unmarked before).parent = (unmarked node).parent := congrArg Node.parent hsame
  have hname : (unmarked before).name = (unmarked node).name := congrArg Node.name hsame
  have hfull : (unmarked before).fullName = (unmarked node).fullName := congrArg Node.fullName hsame
  exact ⟨before, hbefore, hparent, hname, hfull⟩

theorem Leads.unmarked
    {cur : Nat} {parts : List Text} (h : Leads row' cur parts pk) : Leads row cur parts pk := by
  induction parts generalizing cur with
  | nil => exact h
  | cons part rest ih =>
    rcases h with ⟨child, ⟨found, hfound, hparent, hpart⟩, hrest⟩
    rcases exists_unmarked hrows hfound with ⟨before, hbefore, hparent', hname, _⟩
    exact ⟨child, ⟨before, hbefore, hparent'.trans hparent, hname.trans hpart⟩, ih hrest⟩

theorem Known.unmarked (h : Known categoryHelper row' name) : Known categoryHelper row name := by
  rcases h with ⟨root, top, pk, htop, hnone, hleads⟩
  rcases exists_unmarked hrows htop with ⟨before, hbefore, hparent, _⟩
  exact ⟨root, before, pk, hbefore, hparent.trans hnone, hleads.unmarked hrows⟩

end

end

structure Built (table : Table CategoryColumns) (root : Nat) (state : TreeState CategoryColumns) :
    Prop where
  inMemory : InMemory categoryHelper root state
  settled : Settled state.table
  complete : Complete state.helper state.table.row <-> HasSubtrees table
  rows : HasSubtrees table -> forall pk,
    (state.table.row pk).map unmarked = (table.row pk).map unmarked

theorem TopAdded.hasFullName {read : Table CategoryColumns} (h : TopAdded table read) {full : Text}
    (hne : full ≠ []) (hread : HasFullName read full) : HasFullName table full := by
  rcases h with rfl | ⟨_, hnil⟩
  · exact hread
  · rcases hread with ⟨pk, node, hrow, hfull⟩
    exact absurd (hfull.symm.trans (hnil pk node hrow)) hne

theorem TopAdded.eq_of_subtrees {read : Table CategoryColumns} (h : TopAdded table read)
    (hsubtrees : HasSubtrees table) : read = table := by
  rcases h with heq | ⟨hnone, _⟩
  · exact heq
  · rcases hsubtrees topDeviceCategory (by decide) with ⟨pk, node, hrow, _⟩
    rw [hnone] at hrow
    cases hrow

theorem Complete.mem_lut
    (h : Complete helper table.row) {full : Text} (hfull : HasFullName table full) :
    full ∈ helper.lut := by
  rcases hfull with ⟨pk, node, hrow, rfl⟩
  rw [← AList.lookup_isSome, h pk node hrow]
  rfl

variable {orders : Orders}

theorem mem_nodes (h : MirrorsNodes helper table.row) :
    pk ∈ orders.nodes helper.nodeDict.keys <-> exists node, table.row pk = some node :=
  (orders.nodes_perm _).mem_iff.trans h.mem_keys

theorem buildCategoryTree_ok (h : Buildable table)
    (hbuild : buildCategoryTree database levels orders ⟨Helper.empty, table⟩ = .ok ⟨⟩ state) :
    exists root, Built table root state := by
  unfold buildCategoryTree at hbuild
  rw [bind_apply] at hbuild
  cases htop : addTop database levels ⟨Helper.empty, table⟩ with
  | error raised between =>
    rw [htop] at hbuild
    cases hbuild
  | ok value between =>
    rcases addTop_ok h htop with ⟨hhelper, hadded, root, hone⟩
    rcases between with ⟨helper, read⟩
    have hempty : helper = Helper.empty := hhelper
    subst hempty
    rcases readTree_ok categoryHelper_lawful hone database levels with
      ⟨known, hread, hmirrors, hcomplete⟩
    rw [htop] at hbuild
    simp only [bind_apply, hread] at hbuild
    cases hmissing : addMissing database levels orders.subtypes ⟨known, read⟩ with
    | error raised later =>
      rw [hmissing] at hbuild
      cases hbuild
    | ok value later =>
      rw [hmissing] at hbuild
      have hmemory : InMemory categoryHelper root ⟨known, read⟩ := ⟨hone, hmirrors⟩
      rcases addMissing_ok hmemory
        (fun name hmem => orders.subtypes_perm.mem_iff.mp hmem) hmissing with ⟨hextended, hall⟩
      have hmarks : markNodes database levels (orders.nodes later.helper.nodeDict.keys) later =
          .ok ⟨⟩ state := hbuild
      rcases markNodes_ok hextended.inMemory hmarks with ⟨hremarked, hmarked⟩
      have hlut : state.helper.lut = known.lut := hremarked.lut.trans hextended.lut
      have hsubtrees : HasSubtrees state.table := by
        intro name hname
        rcases hall name (orders.subtypes_perm.mem_iff.mpr hname) with ⟨pk, node, hrow, hfull⟩
        rcases exists_unmarked (fun key => (hremarked.rows key).symm) hrow with
          ⟨marked, hstored, _, _, hsame⟩
        exact ⟨pk, marked, hstored, hsame.trans hfull⟩
      have hrows : HasSubtrees table -> forall pk,
          (state.table.row pk).map unmarked = (table.row pk).map unmarked := by
        intro hold
        have heq := hadded.eq_of_subtrees hold
        have hnothing := @addMissing_known database levels ⟨known, read⟩ orders.subtypes
          fun name hmem => hcomplete.mem_lut
            (heq ▸ hold name (orders.subtypes_perm.mem_iff.mp hmem))
        rw [hmissing] at hnothing
        cases hnothing
        intro pk
        rw [hremarked.rows, heq]
      refine ⟨root, hremarked.inMemory, ⟨hsubtrees, ?_⟩, ⟨?_, ?_⟩, hrows⟩
      · intro pk node hrow
        rcases exists_unmarked hremarked.rows hrow with ⟨before, hbefore, _⟩
        exact hmarked pk ((mem_nodes hextended.inMemory.mirrors.toMirrorsNodes).mpr ⟨before, hbefore⟩) node hrow
      · intro hfinal name hname
        have hmem := hfinal.mem_lut (hsubtrees name hname)
        rw [hlut] at hmem
        rcases Dict.exists_lookup hmem with ⟨pks, hpks⟩
        rcases hmirrors.lut hpks with ⟨pk, node, _, hrow, hfull⟩
        exact hadded.hasFullName (cons_ne_nil _ _) ⟨pk, node, hrow, hfull⟩
      · intro hold pk node hrow
        rcases exists_unmarked (hrows hold) hrow with ⟨before, hbefore, _, _, hfull⟩
        rw [hlut, ← hfull]
        exact hcomplete pk before ((hadded.eq_of_subtrees hold).symm ▸ hbefore)

theorem buildCategoryTree_settled (h : OneTop categoryRules root table) (hsettled : Settled table) :
    exists helper, buildCategoryTree database levels orders ⟨Helper.empty, table⟩ =
        .ok ⟨⟩ ⟨helper, table⟩ ∧
      Mirrors helper table.row ∧ Complete helper table.row := by
  rcases readTree_ok categoryHelper_lawful h database levels with
    ⟨helper, hread, hmirrors, hcomplete⟩
  have hmemory : InMemory categoryHelper root ⟨helper, table⟩ := ⟨h, hmirrors⟩
  have hmissing := @addMissing_known database levels ⟨helper, table⟩ orders.subtypes
    fun name hmem => hcomplete.mem_lut
      (hsettled.subtrees name (orders.subtypes_perm.mem_iff.mp hmem))
  have hmarks := @markNodes_marked database levels root ⟨helper, table⟩
    (orders.nodes helper.nodeDict.keys) hmemory (fun pk hmem => (mem_nodes hmirrors.toMirrorsNodes).mp hmem)
    hsettled.marked
  refine ⟨helper, ?_, hmirrors, hcomplete⟩
  unfold buildCategoryTree
  simp only [bind_apply, addTop_stored h, hread, hmissing, get_apply]
  exact hmarks

theorem Settled.grown {cur : Nat} {parts : List Text} (h : Settled state.table)
    (hone : OneTop categoryRules root state.table)
    (hfollowed : Followed categoryHelper root state cur parts pk after) : Settled after.table := by
  have hsubtrees : HasSubtrees after.table := by
    intro name hname
    rcases h.subtrees name hname with ⟨pk, node, hrow, hfull⟩
    exact ⟨pk, node, hfollowed.kept hrow, hfull⟩
  refine ⟨hsubtrees, ?_⟩
  intro key node hrow
  cases hbefore : state.table.row key with
  | some before =>
    have hsame := Option.some.inj ((hfollowed.kept hbefore).symm.trans hrow)
    rw [← hsame]
    exact h.marked key before hbefore
  | none =>
    have hextra := hfollowed.made hrow hbefore
    have hnew : forall full, HasFullName state.table full -> node.fullName ≠ full := by
      rintro full ⟨other, found, hfound, rfl⟩ hsame
      have heq := hfollowed.inMemory.table.fullNames categoryRules_lawful hrow
        (hfollowed.kept hfound) hsame
      rw [heq, hfound] at hbefore
      cases hbefore
    have hfree : node.fullName ∉ immutableNames := by
      intro hmem
      rcases mem_cons.mp hmem with hnil | hsubtree
      · rcases hone.root_columns with ⟨top, htop, _, hfull, _⟩
        exact hnew [] ⟨root, top, htop, hfull⟩ hnil
      · rcases mem_map.mp hsubtree with ⟨name, hname, heq⟩
        exact hnew _ (h.subtrees name hname) heq.symm
    rw [hextra]
    exact (decide_eq_false hfree).symm

end Icsw.NameTree
