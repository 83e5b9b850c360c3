import Icsw.NameTree.Mirror

/-!
# Adding names to the tree in memory

A name that the database takes is followed from the top node, and the nodes that are missing are
created in the table and in memory.  The table of full names stays as it was.
-/

namespace Icsw.NameTree

open Foundation
open Foundation.Forest

variable {E : Type} {tree : HelperRules E} {database : Database E} {levels root : Nat}

structure HelperLawful (tree : HelperRules E) : Prop where
  rules : Lawful tree.rules
  checkFirst : tree.rules.checkFirst tree.newExtra = .ok ()
  record_nil : forall pk, tree.record [] pk = [pk]

/-- The parts are valid names, and the database takes the nodes for them. -/
def PartsFit (tree : HelperRules E) (database : Database E) : Text -> Nat -> List Text -> Prop
  | _, _, [] => True
  | full, depth, part :: rest =>
    (Legal tree.rules part ∧ tree.rules.checkName part (depth + 1) = .ok () ∧
      tree.rules.checkFullName (tree.rules.join part full)
        (tree.rules.settle none tree.newExtra) = .ok () ∧
      database.fits part (tree.rules.join part full) (tree.rules.settle none tree.newExtra)
        = true) ∧
    PartsFit tree database (tree.rules.join part full) (depth + 1) rest

def Leads (row : Nat -> Option (Node E)) : Nat -> List Text -> Nat -> Prop
  | cur, [], pk => pk = cur
  | cur, part :: rest, pk => exists child, IsChild row cur part child ∧ Leads row child rest pk

section Save

variable {rules : Rules E} {table : Table E} {above : Nat} {parent : Node E}

/-- What a new node below a parent has to meet. -/
structure Welcome (rules : Rules E) (database : Database E) (table : Table E) (above : Nat)
    (parent : Node E) (name : Text) (extra : E) : Prop where
  stored : table.row above = some parent
  legal : Legal rules name
  checkFirst : rules.checkFirst extra = .ok ()
  checkName : rules.checkName name (parent.depth + 1) = .ok ()
  checkFullName : rules.checkFullName (rules.join name parent.fullName)
    (rules.settle none extra) = .ok ()
  fits : database.fits name (rules.join name parent.fullName) (rules.settle none extra) = true
  unused : forall child, ¬ IsChild table.row above name child

def newNode (rules : Rules E) (above : Nat) (parent : Node E) (name : Text) (extra : E) :
    Node E where
  name := name
  fullName := rules.join name parent.fullName
  parent := some above
  depth := parent.depth + 1
  extra := rules.settle none extra

variable {name full : Text} {depth : Nat} {extra : E}

theorem Welcome.acceptedBelow (lawful : Lawful rules)
    (h : Welcome rules database table above parent name extra) :
    AcceptedBelow rules table none { name, fullName := full, parent := some above, depth, extra }
      above parent where
  hparent := rfl
  hrow := h.stored
  free _ hself := absurd hself (Option.some_ne_none _ ∘ Eq.symm)
  legal := lawful.matchesAll h.legal
  named := by
    rw [lawful.strip_legal h.legal]
    exact h.legal.left
  checkName := h.checkName
  checkFullName := h.checkFullName
  unused other used hused _ _ hparent hname := h.unused other ⟨used, hused, hparent, hname⟩

theorem save_new (lawful : Lawful rules) (consistent : Consistent rules table)
    (h : Welcome rules database table above parent name extra) (levels : Nat) :
    save rules database (levels + 1) none
        { name, fullName := full, parent := some above, depth, extra } table =
      .ok (table.nextPk, newNode rules above parent name extra)
        (table.add (newNode rules above parent name extra)) := by
  have haccepted := @Welcome.acceptedBelow E database rules table above parent name full depth extra
    lawful h
  have hsettle := settleNode_below levels (save rules database levels) lawful consistent.toShape
    haccepted
  have hstore : storeUpTo rules database (levels + 1) none
      { name, fullName := full, parent := some above, depth, extra } table =
        .ok (table.nextPk, newNode rules above parent name extra,
          decide (rules.join name parent.fullName ≠ full))
          (table.add (newNode rules above parent name extra)) := by
    have hplain : rules.separator ∉ name := lawful.separator_not_mem h.legal
    have hsplit : splitName rules (rules.postInit levels (save rules database levels))
        (save rules database levels)
        { name, fullName := full, parent := some above, depth, extra } = pure _ :=
      splitName_plain hplain
    simp only [storeUpTo, storeNode, preSave, lawful.strip_legal h.legal, h.checkFirst, bind_apply,
      check_ok, hsplit, pure_apply, hsettle, write_apply]
    have hfits : database.fits (below rules none
        { name, fullName := full, parent := some above, depth, extra } parent).name
        (below rules none { name, fullName := full, parent := some above, depth, extra }
          parent).fullName
        (below rules none { name, fullName := full, parent := some above, depth, extra }
          parent).extra = true := h.fits
    rw [if_pos hfits]
    rfl
  have hbehind : StoredBehind rules table (.create name (some above) extra) none
      (table.nextPk, newNode rules above parent name extra,
        decide (rules.join name parent.fullName ≠ full)) table
      (table.add (newNode rules above parent name extra)) :=
    { consistent := consistent
      leaves := leaves_refl rules table _
      accepted := ⟨_, Accepted.below haccepted⟩
      hpk := rfl
      written := rfl }
  rw [save_eq, bind_apply, hstore]
  exact spreadNames_new database (levels + 1) hbehind

theorem Welcome.added (lawful : Lawful rules) (consistent : Consistent rules table)
    (h : Welcome rules database table above parent name extra) :
    Added rules table { name, fullName := [], parent := some above, depth := 0, extra }
      table.nextPk (newNode rules above parent name extra)
      (table.add (newNode rules above parent name extra)) := by
  have hown : OwnName ({ name, fullName := [], parent := some above, depth := 0, extra } : Node E) :=
    ⟨lawful.not_newline h.legal, fun hnone => absurd hnone (Option.some_ne_none above)⟩
  exact consistent.added lawful hown (fun hnone => absurd hnone (Option.some_ne_none above))
    h.checkFirst (Accepted.below (h.acceptedBelow lawful))

end Save

structure InMemory (tree : HelperRules E) (root : Nat) (state : TreeState E) : Prop where
  table : OneTop tree.rules root state.table
  mirrors : Mirrors state.helper state.table.row

section Add

variable {state : TreeState E} {cur child pk : Nat} {part : Text} {parts : List Text}
  {node : Node E}

theorem IsChild.stored (h : OneTop tree.rules root state.table)
    (hchild : IsChild state.table.row cur part child) :
    exists parent, state.table.row cur = some parent := by
  rcases hchild with ⟨found, hfound, hparent, _⟩
  exact h.closed hfound hparent

theorem addPart_found (database : Database E) (levels : Nat) (h : InMemory tree root state)
    (hchild : IsChild state.table.row cur part child) :
    addPart tree database levels cur part state = .ok child state := by
  rcases hchild.stored h.table with ⟨parent, hcur⟩
  rcases h.mirrors.exists_held hcur with ⟨held, hheld, _⟩
  have hsub := (h.mirrors.sub hheld part [child]).mpr ⟨child, rfl, hchild⟩
  unfold addPart
  simp only [bind_apply, get_apply, hheld, hsub, pure_apply]

theorem addParts_found (database : Database E) (levels : Nat) (h : InMemory tree root state)
    (hleads : Leads state.table.row cur parts pk) :
    addParts tree database levels cur parts state = .ok pk state := by
  unfold addParts
  induction parts generalizing cur with
  | nil =>
    have hpk : pk = cur := hleads
    rw [hpk]
    rfl
  | cons part rest ih =>
    rcases hleads with ⟨child, hchild, hrest⟩
    rw [List.foldlM_cons, bind_apply, addPart_found database levels h hchild]
    exact ih hrest

theorem InMemory.insert (h : InMemory tree root state) {given saved : Node E} {table : Table E}
    (hadded : Added tree.rules state.table given pk saved table)
    (hparent : given.parent = some cur) (hcur : state.table.row cur = some node)
    (hunused : forall child, ¬ IsChild state.table.row cur given.name child) :
    InMemory tree root
      ⟨(state.helper.addNode pk saved).append cur given.name pk, table⟩ := by
  have hfresh : state.table.row pk = none := by rw [hadded.hpk, state.table.row_nextPk]
  refine ⟨h.table.added hadded (hparent ▸ Option.some_ne_none cur), ?_⟩
  have hrow : table.row = Function.update state.table.row pk (some saved) := by
    funext key
    rw [hadded.hrows]
    by_cases hkey : pk = key
    · rw [if_pos hkey, ← hkey, Function.update_self]
    · rw [if_neg hkey, Function.update_of_ne (Ne.symm hkey)]
  have hplace : FreePlace state.table.row pk saved cur node :=
    { fresh := hfresh
      below := hadded.parent.trans hparent
      stored := hcur
      unused := hadded.name ▸ hunused
      childless := fun _ _ hfound =>
        hadded.hpk ▸ h.table.toConsistent.not_parent_nextPk hfound }
  show Mirrors _ table.row
  rw [hrow, ← hadded.name]
  refine h.mirrors.insert hplace rfl rfl ?_
  intro full pks hpks
  rcases h.mirrors.lut hpks with ⟨key, found, hkeys, hfound, hfull⟩
  have hne : key ≠ pk := by
    intro heq
    rw [heq, hfresh] at hfound
    cases hfound
  exact ⟨key, found, hkeys, (Function.update_of_ne hne _ _).trans hfound, hfull⟩

theorem not_held_below (h : InMemory tree root state) {held : TreeNode E}
    (hheld : state.helper.nodeDict.lookup cur = some held)
    (hunused : forall child, ¬ IsChild state.table.row cur part child) :
    held.subTree.lookup part = none := by
  cases hchildren : held.subTree.lookup part with
  | none => rfl
  | some children =>
    rcases (h.mirrors.sub hheld _ _).mp hchildren with ⟨child, _, hchild⟩
    exact absurd hchild (hunused child)

theorem addPart_new (hlawful : HelperLawful tree) (levels : Nat) (h : InMemory tree root state)
    (hwelcome : Welcome tree.rules database state.table cur node part tree.newExtra) :
    exists after, addPart tree database (levels + 1) cur part state =
        .ok state.table.nextPk after ∧
      after.table = state.table.add (newNode tree.rules cur node part tree.newExtra) ∧
      after.helper.lut = state.helper.lut ∧ InMemory tree root after := by
  rcases h.mirrors.exists_held hwelcome.stored with ⟨held, hheld, rfl⟩
  have hsub := not_held_below h hheld hwelcome.unused
  have hsaved := @save_new E database tree.rules state.table cur held.node part
    (tree.presetFullName part held.node.fullName) (held.node.depth + 1) tree.newExtra
    hlawful.rules h.table.toConsistent hwelcome levels
  have hadded := hwelcome.added hlawful.rules h.table.toConsistent
  refine ⟨⟨(state.helper.addNode state.table.nextPk
      (newNode tree.rules cur held.node part tree.newExtra)).append cur part state.table.nextPk,
    state.table.add (newNode tree.rules cur held.node part tree.newExtra)⟩, ?_, rfl,
    append_lut _ _ _ _, h.insert hadded rfl hwelcome.stored hwelcome.unused⟩
  unfold addPart
  simp only [bind_apply, get_apply, hheld, hsub, onTable, hsaved, changeHelper, modify_apply,
    pure_apply]

theorem addPart_cases (hlawful : HelperLawful tree) (h : InMemory tree root state)
    (hcur : state.table.row cur = some node) (hlegal : Legal tree.rules part)
    {after : TreeState E} (hadd : addPart tree database levels cur part state = .ok pk after) :
    (IsChild state.table.row cur part pk ∧ after = state) ∨
      exists given saved, given.name = part ∧ given.parent = some cur ∧
        given.extra = tree.newExtra ∧
        Added tree.rules state.table given pk saved after.table ∧
        after.helper.lut = state.helper.lut ∧ InMemory tree root after := by
  by_cases hexists : exists child, IsChild state.table.row cur part child
  · rcases hexists with ⟨child, hchild⟩
    rw [addPart_found database levels h hchild] at hadd
    cases hadd
    exact Or.inl ⟨hchild, rfl⟩
  · right
    have hunused : forall child, ¬ IsChild state.table.row cur part child :=
      fun child hchild => hexists ⟨child, hchild⟩
    rcases h.mirrors.exists_held hcur with ⟨held, hheld, rfl⟩
    have hsub := not_held_below h hheld hunused
    have hsaved := save_plain database hlawful.rules h.table.toConsistent levels
      { name := part, fullName := tree.presetFullName part held.node.fullName, parent := some cur,
        depth := held.node.depth + 1, extra := tree.newExtra }
      (fun hnone => absurd hnone (Option.some_ne_none cur))
      (hlawful.rules.separator_not_mem hlegal)
    unfold addPart at hadd
    simp only [bind_apply, get_apply, hheld, hsub, onTable] at hadd
    cases hresult : save tree.rules database levels none
        { name := part, fullName := tree.presetFullName part held.node.fullName, parent := some cur,
          depth := held.node.depth + 1, extra := tree.newExtra } state.table with
    | error raised table =>
      rw [hresult] at hadd
      cases hadd
    | ok saved table =>
      rw [hresult] at hadd hsaved
      cases hadd
      have hstrip := hlawful.rules.strip_legal hlegal
      refine ⟨_, saved.2, hstrip, rfl, rfl, hsaved, append_lut _ _ _ _, ?_⟩
      have hinsert := h.insert hsaved rfl hcur fun child hchild => hunused child (hstrip ▸ hchild)
      rw [hstrip] at hinsert
      exact hinsert

/-- Where the parts led, and what was left behind them. -/
structure Followed (tree : HelperRules E) (root : Nat) (state : TreeState E) (cur : Nat)
    (parts : List Text) (pk : Nat) (after : TreeState E) : Prop where
  inMemory : InMemory tree root after
  lut : after.helper.lut = state.helper.lut
  kept : forall {key found}, state.table.row key = some found -> after.table.row key = some found
  made : forall {key found}, after.table.row key = some found -> state.table.row key = none ->
    found.extra = tree.rules.settle none tree.newExtra
  leads : Leads after.table.row cur parts pk
  known : Leads state.table.row cur parts pk ∨ state.table.row pk = none

theorem followed_refl (h : InMemory tree root state) :
    Followed tree root state cur [] cur state where
  inMemory := h
  lut := rfl
  kept := id
  made hfound hnone := absurd (hfound.symm.trans hnone) (Option.some_ne_none _)
  leads := rfl
  known := Or.inl rfl

theorem Followed.found {after : TreeState E} (hchild : IsChild state.table.row cur part child)
    (h : Followed tree root state child parts pk after) :
    Followed tree root state cur (part :: parts) pk after where
  inMemory := h.inMemory
  lut := h.lut
  kept := h.kept
  made := h.made
  leads := by
    rcases hchild with ⟨found, hfound, hplace⟩
    exact ⟨child, ⟨found, h.kept hfound, hplace⟩, h.leads⟩
  known := h.known.imp_left fun hleads => ⟨child, hchild, hleads⟩

theorem Followed.created {middle after : TreeState E} {made : Node E}
    (hextra : made.extra = tree.rules.settle none tree.newExtra) (hcur : made.parent = some cur)
    (hname : made.name = part) (hstored : state.table.row cur = some node)
    (consistent : Consistent tree.rules state.table)
    (hrows : middle.table = state.table.add made) (hlut : middle.helper.lut = state.helper.lut)
    (h : Followed tree root middle state.table.nextPk parts pk after) :
    Followed tree root state cur (part :: parts) pk after := by
  have hkept : forall {key found}, state.table.row key = some found ->
      middle.table.row key = some found := by
    intro key found hfound
    have hne : state.table.nextPk ≠ key := by
      intro heq
      rw [← heq, state.table.row_nextPk] at hfound
      cases hfound
    rw [hrows, Table.row_add, if_neg hne, hfound]
  have hmade : middle.table.row state.table.nextPk = some made := by
    rw [hrows, Table.row_add, if_pos rfl]
  constructor
  case inMemory => exact h.inMemory
  case lut => exact h.lut.trans hlut
  case kept => exact fun hfound => h.kept (hkept hfound)
  case made =>
    intro key found hfound hnone
    by_cases hkey : key = state.table.nextPk
    · rw [hkey, h.kept hmade] at hfound
      cases hfound
      exact hextra
    · apply h.made hfound
      rw [hrows, Table.row_add, if_neg (Ne.symm hkey), hnone]
  case leads => exact ⟨state.table.nextPk, ⟨made, h.kept hmade, hcur, hname⟩, h.leads⟩
  case known =>
    right
    rcases h.known with hleads | hfresh
    · cases parts with
      | nil =>
        have hpk : pk = state.table.nextPk := hleads
        rw [hpk]
        exact state.table.row_nextPk
      | cons next rest =>
        rcases hleads with ⟨child, ⟨found, hfound, hparent, _⟩, _⟩
        rw [hrows, Table.row_add] at hfound
        split at hfound
        · cases hfound
          rw [hcur] at hparent
          rw [Option.some.inj hparent, state.table.row_nextPk] at hstored
          cases hstored
        · exact absurd hparent (consistent.not_parent_nextPk hfound)
    · cases hrow : state.table.row pk with
      | none => rfl
      | some found =>
        rw [hkept hrow] at hfresh
        cases hfresh

theorem addParts_ok (hlawful : HelperLawful tree) (levels : Nat) (h : InMemory tree root state)
    (hcur : state.table.row cur = some node)
    (hfit : PartsFit tree database node.fullName node.depth parts) :
    exists pk after, addParts tree database (levels + 1) cur parts state = .ok pk after ∧
      Followed tree root state cur parts pk after := by
  unfold addParts
  induction parts generalizing state cur node with
  | nil => exact ⟨cur, state, rfl, followed_refl h⟩
  | cons part rest ih =>
    rcases hfit with ⟨⟨hlegal, hname, hfull, hfits⟩, hrest⟩
    rw [List.foldlM_cons]
    by_cases hexists : exists child, IsChild state.table.row cur part child
    · rcases hexists with ⟨child, hchild⟩
      rcases hchild with ⟨found, hfound, hparent, rfl⟩
      rcases h.table.placed hfound cur hparent with ⟨parent, hrow, hjoin, hdepth, _⟩
      rw [hcur] at hrow
      cases hrow
      rw [← hjoin, ← hdepth] at hrest
      rcases ih h hfound hrest with ⟨pk, after, hafter, hfollowed⟩
      refine ⟨pk, after, ?_, hfollowed.found ⟨found, hfound, hparent, rfl⟩⟩
      rw [bind_apply, addPart_found database (levels + 1) h ⟨found, hfound, hparent, rfl⟩]
      exact hafter
    · have hwelcome : Welcome tree.rules database state.table cur node part tree.newExtra :=
        { stored := hcur
          legal := hlegal
          checkFirst := hlawful.checkFirst
          checkName := hname
          checkFullName := hfull
          fits := hfits
          unused := fun child hchild => hexists ⟨child, hchild⟩ }
      rcases addPart_new hlawful levels h hwelcome with ⟨middle, hmiddle, hrows, hlut, hmemory⟩
      have hnew : middle.table.row state.table.nextPk =
          some (newNode tree.rules cur node part tree.newExtra) := by
        rw [hrows, Table.row_add, if_pos rfl]
      rcases ih hmemory hnew hrest with ⟨pk, after, hafter, hfollowed⟩
      refine ⟨pk, after, ?_, hfollowed.created rfl rfl rfl hcur h.table.toConsistent hrows hlut⟩
      rw [bind_apply, hmiddle]
      exact hafter

end Add

end Icsw.NameTree
