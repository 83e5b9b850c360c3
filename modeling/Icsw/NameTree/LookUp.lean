import Icsw.NameTree.ReadTree

/-!
# Looking up names that were added

The node for a name that was added is found under its full name, adding it again changes nothing,
and the tree in memory is the one that would be read from the table: only as long as no node is
created, since that is not entered under its full name.
-/

namespace Icsw.NameTree

open Foundation List
open Foundation.Forest

variable {E : Type}

/-- `get_domain_tree_node` and `get_category` -/
def getEntry (name : Text) : Program (TreeState E) (List Nat) := do
  let state ← get
  match state.helper.lut.lookup name with
  | none => throw .keyError
  | some pks => pure pks

section

variable (tree : HelperRules E) (database : Database E) (levels : Nat)
  (construct : Program (TreeState E) PUnit)

/--
The node is found under its full name, a second time nothing is created, and the tree is the
one that is built from the table.
-/
def LooksUp (state : TreeState E) (name : Text) : Prop :=
  exists pk after held,
    addName tree database levels name state = .ok pk after ∧
    after.helper.nodeDict.lookup pk = some held ∧
    held.node.fullName ∈ after.helper.lut ∧
    getEntry held.node.fullName after = .ok [pk] after ∧
    addName tree database levels name after = .ok pk after ∧
    exists rebuilt, construct ⟨Helper.empty, after.table⟩ = .ok ⟨⟩ rebuilt ∧
      SameTree after.helper rebuilt.helper

def addStep (state : TreeState E) (name : Text) : TreeState E :=
  (addName tree database levels name).after state

def ValidName (name : Text) : Prop := PartsFit tree database [] 0 (tree.nameParts name)

def Known (row : Nat -> Option (Node E)) (name : Text) : Prop :=
  exists root top pk, row root = some top ∧ top.parent = none ∧
    Leads row root (tree.nameParts name) pk

/-- What the proofs use of the way in which a tree is built. -/
structure Rebuilds (settled : Table E -> Prop) : Prop where
  ok : forall {root table}, OneTop tree.rules root table -> settled table ->
    exists helper, construct ⟨Helper.empty, table⟩ = .ok ⟨⟩ ⟨helper, table⟩ ∧
      Mirrors helper table.row ∧ Complete helper table.row
  grown : forall {root state cur parts pk after}, settled state.table ->
    OneTop tree.rules root state.table -> Followed tree root state cur parts pk after ->
    settled after.table

end

section

variable {tree : HelperRules E} {database : Database E} {levels root : Nat}
  {construct : Program (TreeState E) PUnit} {settled : Table E -> Prop} {state : TreeState E}
  {name : Text}

theorem getEntry_ok {full : Text} {pks : List Nat} {after : TreeState E} :
    getEntry full state = .ok pks after <-> state.helper.lut.lookup full = some pks ∧ after = state := by
  unfold getEntry
  simp only [bind_apply, get_apply]
  cases hlookup : state.helper.lut.lookup full with
  | none =>
    constructor
    · intro heq
      cases heq
    · rintro ⟨heq, _⟩
      cases heq
  | some found =>
    constructor
    · intro heq
      cases heq
      exact ⟨rfl, rfl⟩
    · rintro ⟨heq, rfl⟩
      cases heq
      rfl

theorem addName_apply (h : InMemory tree root state) :
    addName tree database levels name state =
      addParts tree database levels root (tree.nameParts name) state := by
  have hroot := (h.mirrors.root root).mpr h.table.root_top
  unfold addName
  simp only [bind_apply, get_apply, hroot]

theorem known_iff (h : OneTop tree.rules root state.table) :
    Known tree state.table.row name <->
      exists pk, Leads state.table.row root (tree.nameParts name) pk := by
  constructor
  · rintro ⟨top, node, pk, htop, hnone, hleads⟩
    rw [h.single htop hnone] at hleads
    exact ⟨pk, hleads⟩
  · rintro ⟨pk, hleads⟩
    rcases h.root_top with ⟨node, hrow, hnone⟩
    exact ⟨root, node, pk, hrow, hnone, hleads⟩

theorem Leads.stored {cur pk : Nat} {parts : List Text}
    {node : Node E} (hcur : state.table.row cur = some node)
    (hleads : Leads state.table.row cur parts pk) : exists found, state.table.row pk = some found := by
  induction parts generalizing cur node with
  | nil =>
    have hpk : pk = cur := hleads
    exact ⟨node, hpk ▸ hcur⟩
  | cons part rest ih =>
    rcases hleads with ⟨child, ⟨found, hfound, _⟩, hrest⟩
    exact ih hfound hrest

theorem addName_known (h : InMemory tree root state) (hknown : Known tree state.table.row name) :
    exists pk found, addName tree database levels name state = .ok pk state ∧
      state.table.row pk = some found := by
  rcases (known_iff h.table).mp hknown with ⟨pk, hleads⟩
  rcases h.table.root_top with ⟨top, htop, _⟩
  rcases hleads.stored htop with ⟨found, hfound⟩
  exact ⟨pk, found, (addName_apply h).trans (addParts_found database levels h hleads), hfound⟩

theorem addStep_known (h : InMemory tree root state) (hknown : Known tree state.table.row name) :
    addStep tree database levels state name = state := by
  rcases @addName_known E tree database levels root state name h hknown with ⟨pk, found, hadd, _⟩
  rw [addStep, Program.after, hadd]

theorem looksUp_known (hrebuilds : Rebuilds tree construct settled) (h : InMemory tree root state)
    (hsettled : settled state.table) (hcomplete : Complete state.helper state.table.row)
    (hknown : Known tree state.table.row name) :
    LooksUp tree database levels construct state name := by
  rcases @addName_known E tree database levels root state name h hknown with
    ⟨pk, found, hadd, hfound⟩
  rcases h.mirrors.exists_held hfound with ⟨held, hheld, rfl⟩
  rcases hrebuilds.ok h.table hsettled with ⟨helper, hconstruct, hmirrors, hall⟩
  have hentry := hcomplete pk held.node hfound
  refine ⟨pk, state, held, hadd, hheld, ?_, getEntry_ok.mpr ⟨hentry, rfl⟩, hadd,
    ⟨helper, state.table⟩, hconstruct, h.mirrors.same hmirrors hcomplete hall⟩
  rw [← AList.lookup_isSome, hentry]
  rfl

section

variable (hlawful : HelperLawful tree)
include hlawful

theorem addName_followed (levels : Nat) (h : InMemory tree root state)
    (hvalid : ValidName tree database name) :
    exists pk after, addName tree database (levels + 1) name state = .ok pk after ∧
      Followed tree root state root (tree.nameParts name) pk after := by
  rcases h.table.root_columns with ⟨top, htop, _, hnil, hdepth⟩
  have hfit : PartsFit tree database top.fullName top.depth (tree.nameParts name) := by
    rw [hnil, hdepth]
    exact hvalid
  rcases addParts_ok hlawful levels h htop hfit with ⟨pk, after, hadd, hfollowed⟩
  exact ⟨pk, after, (addName_apply h).trans hadd, hfollowed⟩

theorem known_of_looksUp (hrebuilds : Rebuilds tree construct settled)
    (h : InMemory tree root state) (hsettled : settled state.table)
    (hvalid : ValidName tree database name)
    (hlooks : LooksUp tree database (levels + 1) construct state name) :
    Complete state.helper state.table.row ∧ Known tree state.table.row name := by
  rcases hlooks with ⟨pk, after, held, hadd, hheld, _, hentry, _, rebuilt, hconstruct, hsame⟩
  rcases addName_followed hlawful levels h hvalid with ⟨pk', after', hadd', hfollowed⟩
  rw [hadd'] at hadd
  cases hadd
  constructor
  · rcases hrebuilds.ok hfollowed.inMemory.table (hrebuilds.grown hsettled h.table hfollowed) with
      ⟨helper, hhelper, _, hall⟩
    rw [hconstruct] at hhelper
    cases hhelper
    intro key found hfound
    rw [← hfollowed.lut]
    exact hsame.complete hall key found (hfollowed.kept hfound)
  · have hlookup := (getEntry_ok.mp hentry).left
    rw [hfollowed.lut] at hlookup
    rcases h.mirrors.lut hlookup with ⟨key, found, heq, hfound, _⟩
    cases heq
    refine (known_iff h.table).mpr ⟨pk, ?_⟩
    rcases hfollowed.known with hleads | hnone
    · exact hleads
    · rw [hnone] at hfound
      cases hfound

theorem along_looksUp_iff
    (hrebuilds : Rebuilds tree construct settled) (h : InMemory tree root state)
    (hsettled : settled state.table) {names : List Text}
    (hvalid : forall name, name ∈ names -> ValidName tree database name) :
    Along (addStep tree database (levels + 1)) (LooksUp tree database (levels + 1) construct) state
        names <->
      forall name, name ∈ names ->
        Complete state.helper state.table.row ∧ Known tree state.table.row name := by
  induction names with
  | nil => exact ⟨fun _ _ hmem => absurd hmem not_mem_nil, fun _ => trivial⟩
  | cons name rest ih =>
    have hrest := ih fun other hmem => hvalid other (mem_cons_of_mem name hmem)
    have hname := hvalid name mem_cons_self
    constructor
    · rintro ⟨hlooks, halong⟩
      have hknown := known_of_looksUp hlawful hrebuilds h hsettled hname hlooks
      rw [addStep_known h hknown.right] at halong
      intro other hother
      rcases mem_cons.mp hother with rfl | hmem
      · exact hknown
      · exact hrest.mp halong other hmem
    · intro hall
      have hknown := hall name mem_cons_self
      refine ⟨looksUp_known hrebuilds h hsettled hknown.left hknown.right, ?_⟩
      rw [addStep_known h hknown.right]
      exact hrest.mpr fun other hmem => hall other (mem_cons_of_mem name hmem)

end

end

end Icsw.NameTree
