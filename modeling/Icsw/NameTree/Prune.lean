import Icsw.NameTree.BuildCategoryTree

/-!
# Pruning the category tree

In each round the categories to which nothing refers any more are chosen.  In a dry run these are
only noted; otherwise they are deleted in memory and in the table.  Both ways choose the same
categories, and removing a category without children leaves a tree.
-/

namespace Icsw.NameTree

open Foundation List
open Foundation.Forest

/-- The objects of the other tables, by the keys of the categories to which they refer. -/
structure References where
  tupleDeviceCategory : List Nat
  tupleMonitoringCategory : List Nat
  locationGfx : List Nat
  deviceMonLocation : List Nat
  device : List Nat
  config : List Nat
  monCheckCommand : List Nat
  deviceSelection : List Nat

namespace References

def foreignKeys (references : References) : List (List Nat) :=
  [references.tupleDeviceCategory, references.tupleMonitoringCategory, references.locationGfx,
    references.deviceMonLocation]

def manyToMany (references : References) : List (List Nat) :=
  [references.device, references.config, references.monCheckCommand, references.deviceSelection]

/-- Another object refers to the category. -/
def Referenced (references : References) (pk : Nat) : Prop :=
  exists objects, objects ∈ references.foreignKeys ++ references.manyToMany ∧ pk ∈ objects

end References

/-- The tree without a node and without the entry for it below its parent. -/
def Helper.remove {E : Type} (helper : Helper E) (above : Nat) (parent : TreeNode E) (name : Text)
    (pk : Nat) : Helper E :=
  { helper with
    nodeDict := (helper.nodeDict.insert above { parent with
      subTree := parent.subTree.erase name }).erase pk }

/-- A node of `_deleted`; once it has been deleted its own key is gone. -/
structure Deleted where
  savedPk : Nat
  pk : Option Nat

/-- Membership in `_deleted`, by the present keys. -/
def isDeleted (deleted : List Deleted) (pk : Nat) : Bool :=
  deleted.any fun other => decide (other.pk = some pk)

def inMode (mode : Option Text) (node : Node CategoryColumns) : Bool :=
  match mode with
  | none => true
  | some top => ('/' :: top).isPrefixOf node.fullName

section

variable (references : References) (database : Database CategoryColumns) (levels : Nat)
  (orders : Orders)

/-- `get_related_models(.., m2m=True, ignore_objs=..)` -/
def getRelatedModels (pk : Nat) (ignoreObjs : List Deleted) :
    Program (TreeState CategoryColumns) Nat := do
  let state ← get
  let children ← onTable ((database.listed (state.table.children pk)).mapM
    (loadEntry (categoryRules.postInit levels (save categoryRules database levels))))
  let refList := children.filter fun child => !isDeleted ignoreObjs child.1
  pure (refList.length + (references.foreignKeys.map (count pk)).sum +
    (references.manyToMany.map (count pk)).sum)

/-- The leaf is appended to `del_nodes`. -/
def isUnused (mode : Option Text) (deleted : List Deleted) (pk : Nat) :
    Program (TreeState CategoryColumns) Bool := do
  let state ← get
  match state.helper.nodeDict.lookup pk with
  | none => throw .keyError
  | some curLeaf =>
    if isDeleted deleted pk = false ∧ inMode mode curLeaf.node = true ∧
        curLeaf.node.extra.immutable = false then do
      let used ← getRelatedModels references database levels pk deleted
      pure (decide (used = 0))
    else pure false

def delNodes (mode : Option Text) (deleted : List Deleted) :
    List Nat -> Program (TreeState CategoryColumns) (List Nat)
  | [] => pure []
  | pk :: rest => do
      let unused ← isUnused references database levels mode deleted pk
      let others ← delNodes mode deleted rest
      pure (if unused then pk :: others else others)

def removeNode (doit : Bool) (deleted : List Deleted) (pk : Nat) :
    Program (TreeState CategoryColumns) (List Deleted) :=
  if doit then do
    let state ← get
    match state.helper.nodeDict.lookup pk with
    | none => throw .keyError
    | some delNode =>
      match delNode.node.parent with
      | none => throw .attributeError
      | some above =>
        match state.helper.nodeDict.lookup above with
        | none => throw .keyError
        | some parent =>
          if delNode.node.name ∈ parent.subTree then do
            changeHelper fun helper => helper.remove above parent delNode.node.name pk
            onTable (modify fun table => table.delete pk)
            pure (deleted ++ [{ savedPk := pk, pk := none }])
          else throw .keyError
  else pure (deleted ++ [{ savedPk := pk, pk := some pk }])

def pruneRounds (mode : Option Text) (doit : Bool) :
    Nat -> List Deleted -> Program (TreeState CategoryColumns) (List Deleted)
  | 0, _ => throw .endlessLoop
  | rounds + 1, deleted => do
      let state ← get
      let chosen ← delNodes references database levels mode deleted
        (orders.nodes state.helper.nodeDict.keys)
      let deleted ← chosen.foldlM (removeNode doit) deleted
      if chosen = [] then pure deleted else pruneRounds mode doit rounds deleted

def prune (rounds : Nat) (mode : Option Text) (doit : Bool) :
    Program (TreeState CategoryColumns) (List Deleted) :=
  if mode.all (fun top => decide (top ∈ treeSubtypes)) then
    pruneRounds references database levels orders mode doit rounds []
  else throw .assertionError

end

section Leaf

variable {E : Type} {rules : Rules E} {table table' : Table E} {root pk : Nat} {node : Node E}

theorem reaches_leaf (hleaf : forall key, table.parentOf key ≠ some pk) (rounds key : Nat) :
    table.reaches pk rounds key = decide (key = pk) := by
  induction rounds generalizing key with
  | zero => rfl
  | succ rounds ih =>
    rw [Table.reaches]
    cases hparent : table.parentOf key with
    | none => rw [Bool.or_false]
    | some above =>
      have hne : above ≠ pk := fun heq => hleaf key (heq ▸ hparent)
      simp only [ih, decide_eq_false hne, Bool.or_false]

theorem row_delete_leaf (hleaf : forall key, table.parentOf key ≠ some pk) (key : Nat) :
    (table.delete pk).row key = if key = pk then none else table.row key := by
  show (table.rows.comprehend _).lookup key = _
  rw [Dict.lookup_comprehend]
  simp only [reaches_leaf hleaf, decide_eq_true_eq]
  split
  · cases table.rows.lookup key with
    | none => rfl
    | some node => rfl
  · show (table.row key).bind some = table.row key
    cases table.row key with
    | none => rfl
    | some node => rfl

/-- A row is taken away. -/
def Without (table : Table E) (pk : Nat) (table' : Table E) : Prop :=
  forall key, table'.row key = if key = pk then none else table.row key

theorem Without.row (h : Without table pk table') {key : Nat} (hrow : table'.row key = some node) :
    key ≠ pk ∧ table.row key = some node := by
  rw [h] at hrow
  split at hrow
  · cases hrow
  · exact ⟨by assumption, hrow⟩

theorem Without.kept (h : Without table pk table') {key : Nat} (hne : key ≠ pk) :
    table'.row key = table.row key := by rw [h, if_neg hne]

theorem OneTop.without (h : OneTop rules root table) (hwithout : Without table pk table')
    (hleaf : forall key, table.parentOf key ≠ some pk) (hroot : pk ≠ root) :
    OneTop rules root table' := by
  have habove : forall {key found above}, table'.row key = some found ->
      found.parent = some above -> above ≠ pk := by
    intro key found above hfound hparent heq
    rw [heq] at hparent
    exact hleaf key ((Table.parentOf_row (hwithout.row hfound).right).trans hparent)
  constructor
  case stored =>
    rcases h.stored with ⟨top, htop⟩
    exact ⟨top, (hwithout.kept hroot.symm).trans htop⟩
  case single => exact fun hfound hnone => h.single (hwithout.row hfound).right hnone
  case toConsistent =>
    constructor
    case placed =>
      intro key found hfound
      exact (h.placed (hwithout.row hfound).right).congr fun above hparent =>
        hwithout.kept (habove hfound hparent)
    case toShape =>
      constructor
      case closed =>
        intro key found above hfound hparent
        rw [hwithout.kept (habove hfound hparent)]
        exact h.closed (hwithout.row hfound).right hparent
      case rooted =>
        intro key found hfound
        rcases hwithout.row hfound with ⟨hne, hrow⟩
        rcases h.rooted hrow with ⟨count, hcount⟩
        have hsame : forall other, other ≠ pk -> table'.parentOf other = table.parentOf other := by
          intro other hother
          rw [Table.parentOf, hwithout.kept hother, Table.parentOf]
        refine ⟨count, hcount.congr hsame ?_⟩
        intro hbelow
        rcases Relation.ReflTransGen.cases_head hbelow with heq | ⟨child, hchild, _⟩
        · exact hne heq.symm
        · exact hleaf child hchild
      case top => exact fun hfound hnone => h.top (hwithout.row hfound).right hnone
      case legal => exact fun hfound hparent => h.legal (hwithout.row hfound).right hparent
      case deep => exact fun hfound hparent => h.deep (hwithout.row hfound).right hparent
      case siblings =>
        intro key found key' found' above hfound hfound' hparent hparent' hname
        exact h.siblings (hwithout.row hfound).right (hwithout.row hfound').right hparent hparent'
          hname
      case loads => exact fun hfound => h.loads (hwithout.row hfound).right
      case first => exact fun hfound => h.first (hwithout.row hfound).right

variable {helper : Helper E} {above : Nat} {held parent : TreeNode E}

theorem lookup_remove (name : Text) (key : Nat) :
    (helper.remove above parent name pk).nodeDict.lookup key =
      if key = pk then none
      else if above = key then some { parent with subTree := parent.subTree.erase name }
      else helper.nodeDict.lookup key := by
  show ((helper.nodeDict.insert above _).erase pk).lookup key = _
  by_cases hkey : key = pk
  · rw [if_pos hkey, hkey, AList.lookup_erase]
  · rw [if_neg hkey, AList.lookup_erase_ne hkey, Dict.lookup_insert_if]

theorem MirrorsNodes.remove (h : MirrorsNodes helper table.row)
    (hheld : helper.nodeDict.lookup pk = some held) (hparent : held.node.parent = some above)
    (habove : helper.nodeDict.lookup above = some parent) (hne : above ≠ pk)
    (hsiblings : forall child, IsChild table.row above held.node.name child -> child = pk)
    (hwithout : Without table pk table') :
    MirrorsNodes (helper.remove above parent held.node.name pk) table'.row := by
  have hrow := h.row_held hheld
  have hchild : forall key part child, IsChild table'.row key part child <->
      IsChild table.row key part child ∧ child ≠ pk := by
    intro key part child
    constructor
    · rintro ⟨found, hfound, hplace⟩
      rcases hwithout.row hfound with ⟨hchild, hstored⟩
      exact ⟨⟨found, hstored, hplace⟩, hchild⟩
    · rintro ⟨⟨found, hfound, hplace⟩, hchild⟩
      exact ⟨found, (hwithout.kept hchild).trans hfound, hplace⟩
  constructor
  case object =>
    intro key
    rw [lookup_remove, hwithout]
    by_cases hkey : key = pk
    · rw [if_pos hkey, if_pos hkey]
      rfl
    · rw [if_neg hkey, if_neg hkey]
      by_cases hkey' : above = key
      · rw [if_pos hkey', ← hkey', h.row_held habove]
        rfl
      · rw [if_neg hkey', h.object]
  case sub =>
    intro key found hfound part children
    rw [lookup_remove] at hfound
    have hiff : (above = key -> part ≠ held.node.name) ->
        ((exists child, children = [child] ∧ IsChild table.row key part child) <->
          exists child, children = [child] ∧ IsChild table'.row key part child) := by
      intro hplace
      apply exists_congr
      intro child
      apply and_congr_right
      intro _
      rw [hchild]
      refine (and_iff_left_of_imp ?_).symm
      rintro ⟨own, hown, habove', hname⟩ rfl
      rw [hrow] at hown
      cases hown
      rw [hparent] at habove'
      exact hplace (Option.some.inj habove') hname.symm
    split at hfound
    · cases hfound
    · split at hfound
      · rename_i hkey
        cases hfound
        show (parent.subTree.erase held.node.name).lookup part = some children <-> _
        by_cases hpart : part = held.node.name
        · rw [hpart, AList.lookup_erase]
          constructor
          · intro heq
            cases heq
          · rintro ⟨child, _, hnew⟩
            rcases (hchild key held.node.name child).mp hnew with ⟨hold, hother⟩
            exact absurd (hsiblings child (hkey ▸ hold)) hother
        · rw [AList.lookup_erase_ne hpart, h.sub habove, hkey]
          exact hiff fun _ => hpart
      · rename_i hkey
        rw [h.sub hfound]
        exact hiff fun heq => absurd heq hkey
  case root =>
    intro key
    show helper.rootNode = some key <-> _
    rw [h.root]
    constructor
    · rintro ⟨found, hfound, hnone⟩
      refine ⟨found, (hwithout.kept ?_).trans hfound, hnone⟩
      rintro rfl
      rw [hrow] at hfound
      cases hfound
      rw [hparent] at hnone
      cases hnone
    · rintro ⟨found, hfound, hnone⟩
      exact ⟨found, (hwithout.row hfound).right, hnone⟩

end Leaf

/-- The rows and the instances, apart from the table of full names. -/
structure HoldsNodes (root : Nat) (state : TreeState CategoryColumns) : Prop where
  table : OneTop categoryRules root state.table
  nodes : MirrorsNodes state.helper state.table.row
  settled : Settled state.table

theorem InMemory.holdsNodes {root : Nat} {state : TreeState CategoryColumns}
    (h : InMemory categoryHelper root state) (hsettled : Settled state.table) :
    HoldsNodes root state :=
  ⟨h.table, h.mirrors.toMirrorsNodes, hsettled⟩

def Stored (table : Table CategoryColumns) (pk : Nat) : Prop :=
  exists node, table.row pk = some node

/-- The category alone gives no reason to keep it. -/
def FreeToGo (references : References) (mode : Option Text) (table : Table CategoryColumns)
    (pk : Nat) : Prop :=
  forall node, table.row pk = some node ->
    inMode mode node = true ∧ node.extra.immutable = false ∧ ¬ references.Referenced pk

def gone (deleted : List Deleted) : List Nat := deleted.map Deleted.savedPk

theorem gone_concat (deleted : List Deleted) (entry : Deleted) :
    gone (deleted ++ [entry]) = gone deleted ++ [entry.savedPk] := map_append

section Rounds

variable (references : References) (mode : Option Text) (start : TreeState CategoryColumns)

/-- The category is chosen next. -/
abbrev Next (deleted : List Deleted) (pk : Nat) : Prop :=
  Ready (Stored start.table) (FreeToGo references mode start.table) start.table.parentOf
    (fun other => other ∈ gone deleted) pk

abbrev MayGo (pk : Nat) : Prop :=
  Prunable (Stored start.table) (FreeToGo references mode start.table) start.table.parentOf pk

structure Pruned (doit : Bool) (root : Nat) (state : TreeState CategoryColumns)
    (deleted : List Deleted) : Prop where
  holds : HoldsNodes root state
  rows : forall pk, state.table.row pk =
    if doit = true ∧ pk ∈ gone deleted then none else start.table.row pk
  noted : doit = false -> state = start
  keys : forall entry, entry ∈ deleted -> entry.pk = if doit then none else some entry.savedPk
  sound : forall pk, pk ∈ gone deleted -> MayGo references mode start pk
  nodup : (gone deleted).Nodup

variable {references mode start} {doit : Bool} {root pk : Nat}
  {state : TreeState CategoryColumns} {deleted : List Deleted} {database : Database CategoryColumns}
  {levels : Nat} {node : Node CategoryColumns}

theorem pruned_start (h : HoldsNodes root start) : Pruned references mode start doit root start [] where
  holds := h
  rows _ := (if_neg fun hboth => not_mem_nil hboth.right).symm
  noted _ := rfl
  keys _ hmem := absurd hmem not_mem_nil
  sound _ hmem := absurd hmem not_mem_nil
  nodup := nodup_nil

section

variable (h : Pruned references mode start doit root state deleted)
include h

theorem Pruned.row_start
    (hrow : state.table.row pk = some node) : start.table.row pk = some node := by
  rw [h.rows] at hrow
  split at hrow
  · cases hrow
  · exact hrow

theorem Pruned.row_left (hleft : pk ∉ gone deleted) : state.table.row pk = start.table.row pk := by
  rw [h.rows, if_neg fun hboth => hleft hboth.right]

theorem Pruned.isDeleted_iff
    (hrow : state.table.row pk = some node) : isDeleted deleted pk = true <-> pk ∈ gone deleted := by
  unfold isDeleted
  rw [any_eq_true]
  constructor
  · rintro ⟨entry, hentry, hpk⟩
    have hkey := h.keys entry hentry
    rw [of_decide_eq_true hpk] at hkey
    cases doit with
    | true => cases hkey
    | false =>
      rw [Option.some.inj hkey]
      exact mem_map_of_mem hentry
  · intro hmem
    rcases mem_map.mp hmem with ⟨entry, hentry, heq⟩
    refine ⟨entry, hentry, decide_eq_true ?_⟩
    cases doit with
    | true =>
      rw [h.rows, if_pos ⟨rfl, hmem⟩] at hrow
      cases hrow
    | false => exact (h.keys entry hentry).trans (congrArg some heq)

end

theorem not_referenced_iff :
    (references.foreignKeys.map (count pk)).sum + (references.manyToMany.map (count pk)).sum
      = 0 <-> ¬ references.Referenced pk := by
  unfold References.Referenced
  rw [← List.sum_append, ← List.map_append, List.sum_eq_zero_iff_forall_eq_nat]
  constructor
  · rintro hzero ⟨objects, hobjects, hmem⟩
    have hcount := hzero _ (mem_map_of_mem hobjects)
    exact count_eq_zero.mp hcount hmem
  · intro hnone count hcount
    rcases mem_map.mp hcount with ⟨objects, hobjects, rfl⟩
    exact count_eq_zero.mpr fun hmem => hnone ⟨objects, hobjects, hmem⟩

theorem getRelatedModels_ok (h : Pruned references mode start doit root state deleted) (pk : Nat) :
    exists used, getRelatedModels references database levels pk deleted state = .ok used state ∧
      (used = 0 <-> (forall child, Stored start.table child ->
        start.table.parentOf child = some pk -> child ∈ gone deleted) ∧
          ¬ references.Referenced pk) := by
  have hentries : forall entry, entry ∈ database.listed (state.table.children pk) <->
      state.table.row entry.1 = some entry.2 ∧ entry.2.parent = some pk := by
    intro entry
    rw [(database.listed_perm _).mem_iff, Table.mem_children]
  have hload := mapM_loadEntry h.holds.table.toShape levels (save categoryRules database levels)
    (database.listed (state.table.children pk)) (fun entry hmem => ((hentries entry).mp hmem).left)
  let children := (database.listed (state.table.children pk)).map fun entry => (entry.1, entry.2)
  let refList := children.filter fun child => !isDeleted deleted child.1
  refine ⟨refList.length + (references.foreignKeys.map (count pk)).sum +
    (references.manyToMany.map (count pk)).sum, ?_, ?_⟩
  · unfold getRelatedModels
    simp only [bind_apply, get_apply, onTable, hload, pure_apply]
    rfl
  · rw [Nat.add_assoc, Nat.add_eq_zero_iff, not_referenced_iff, length_eq_zero_iff,
      filter_eq_nil_iff]
    apply and_congr_left
    intro _
    constructor
    · rintro hnone child ⟨found, hfound⟩ hparent
      rw [Table.parentOf_row hfound] at hparent
      by_contra hleft
      have hrow := (h.row_left hleft).trans hfound
      have hmem : (child, found) ∈ children :=
        mem_map.mpr ⟨⟨child, found⟩, (hentries ⟨child, found⟩).mpr ⟨hrow, hparent⟩, rfl⟩
      apply hnone (child, found) hmem
      simp only [Bool.not_eq_true']
      exact Bool.eq_false_iff.mpr fun htrue => hleft ((h.isDeleted_iff hrow).mp htrue)
    · intro hall child hmem
      rcases mem_map.mp hmem with ⟨entry, hentry, rfl⟩
      rcases (hentries entry).mp hentry with ⟨hrow, hparent⟩
      have hstart := h.row_start hrow
      have hgone := hall entry.1 ⟨_, hstart⟩ ((Table.parentOf_row hstart).trans hparent)
      simp only [(h.isDeleted_iff hrow).mpr hgone, Bool.not_true, Bool.false_eq_true,
        not_false_eq_true]

section

variable (h : Pruned references mode start doit root state deleted)
include h

theorem Pruned.next_iff (hrow : state.table.row pk = some node) :
    Next references mode start deleted pk <->
      (isDeleted deleted pk = false ∧ inMode mode node = true ∧ node.extra.immutable = false) ∧
        (forall child, Stored start.table child -> start.table.parentOf child = some pk ->
          child ∈ gone deleted) ∧ ¬ references.Referenced pk := by
  have hstart := h.row_start hrow
  constructor
  · intro hready
    rcases hready.free node hstart with ⟨hmode, himmutable, hunreferenced⟩
    refine ⟨⟨Bool.eq_false_iff.mpr fun htrue => ?_, hmode, himmutable⟩, hready.children,
      hunreferenced⟩
    exact hready.left ((h.isDeleted_iff hrow).mp htrue)
  · rintro ⟨⟨hdeleted, hmode, himmutable⟩, hchildren, hunreferenced⟩
    constructor
    case stored => exact ⟨node, hstart⟩
    case children => exact hchildren
    case left =>
      intro hmem
      rw [(h.isDeleted_iff hrow).mpr hmem] at hdeleted
      cases hdeleted
    case free =>
      intro found hfound
      rw [hstart] at hfound
      cases hfound
      exact ⟨hmode, himmutable, hunreferenced⟩

theorem isUnused_ok (hrow : state.table.row pk = some node) :
    exists unused, isUnused references database levels mode deleted pk state = .ok unused state ∧
      (unused = true <-> Next references mode start deleted pk) := by
  rcases h.holds.nodes.exists_held hrow with ⟨held, hheld, rfl⟩
  have hnext := h.next_iff hrow
  unfold isUnused
  simp only [bind_apply, get_apply, hheld]
  by_cases hcandidate : isDeleted deleted pk = false ∧ inMode mode held.node = true ∧
      held.node.extra.immutable = false
  · rcases getRelatedModels_ok h pk with ⟨used, hused, hzero⟩
    refine ⟨decide (used = 0), ?_, ?_⟩
    · rw [if_pos hcandidate, bind_apply, hused]
      rfl
    · rw [decide_eq_true_iff, hzero, hnext]
      exact (and_iff_right hcandidate).symm
  · refine ⟨false, ?_, ?_⟩
    · rw [if_neg hcandidate]
      rfl
    · rw [hnext]
      exact ⟨fun heq => absurd heq Bool.false_ne_true, fun hboth => absurd hboth.left hcandidate⟩

theorem delNodes_ok {pks : List Nat} (hpks : forall pk, pk ∈ pks -> Stored state.table pk) :
    exists chosen, delNodes references database levels mode deleted pks state = .ok chosen state ∧
      chosen.Sublist pks ∧
      forall pk, pk ∈ chosen <-> pk ∈ pks ∧ Next references mode start deleted pk := by
  induction pks with
  | nil => exact ⟨[], rfl, Sublist.refl [], fun pk => (and_iff_left_of_imp fun hmem =>
    absurd hmem not_mem_nil).symm⟩
  | cons first rest ih =>
    rcases hpks first mem_cons_self with ⟨node, hrow⟩
    rcases @isUnused_ok references mode start doit root first state deleted database levels node h
      hrow with ⟨unused, hunused, hnext⟩
    rcases ih fun pk hmem => hpks pk (mem_cons_of_mem first hmem) with
      ⟨others, hothers, hsublist, hmem⟩
    refine ⟨if unused then first :: others else others, ?_, ?_, ?_⟩
    · simp only [delNodes, bind_apply, hunused, hothers, pure_apply]
    · split
      · exact hsublist.cons_cons first
      · exact hsublist.cons first
    · intro pk
      rw [mem_cons]
      split
      · rename_i htrue
        rw [mem_cons, hmem]
        constructor
        · rintro (rfl | ⟨hrest, hready⟩)
          · exact ⟨Or.inl rfl, hnext.mp htrue⟩
          · exact ⟨Or.inr hrest, hready⟩
        · rintro ⟨heq | hrest, hready⟩
          · exact Or.inl heq
          · exact Or.inr ⟨hrest, hready⟩
      · rename_i hfalse
        rw [hmem]
        constructor
        · exact fun hboth => ⟨Or.inr hboth.left, hboth.right⟩
        · rintro ⟨rfl | hrest, hready⟩
          · exact absurd (hnext.mpr hready) hfalse
          · exact ⟨hrest, hready⟩

end

theorem Settled.without {table table' : Table CategoryColumns} (h : Settled table)
    (hwithout : Without table pk table') (hrow : table.row pk = some node)
    (himmutable : node.extra.immutable = false) : Settled table' := by
  constructor
  case marked => exact fun key found hfound => h.marked key found (hwithout.row hfound).right
  case subtrees =>
    intro name hname
    rcases h.subtrees name hname with ⟨key, found, hfound, hfull⟩
    refine ⟨key, found, (hwithout.kept ?_).trans hfound, hfull⟩
    rintro rfl
    rw [hrow] at hfound
    cases hfound
    have hmarked := h.marked key node hrow
    rw [himmutable] at hmarked
    have hmem : node.fullName ∈ immutableNames := by
      rw [hfull]
      exact mem_cons_of_mem _ (mem_map_of_mem hname)
    exact absurd hmem (of_decide_eq_false hmarked.symm)

theorem HoldsNodes.ne_root (h : HoldsNodes root state) (hrow : state.table.row pk = some node)
    (himmutable : node.extra.immutable = false) : pk ≠ root := by
  rintro rfl
  rcases h.table.root_columns with ⟨top, htop, _, hfull, _⟩
  rw [hrow] at htop
  cases htop
  have hmarked := h.settled.marked pk node hrow
  rw [himmutable] at hmarked
  have hmem : node.fullName ∈ immutableNames := by
    rw [hfull]
    exact mem_cons_self
  exact absurd hmem (of_decide_eq_false hmarked.symm)

theorem removeNode_deletes (h : HoldsNodes root state) (deleted : List Deleted)
    (hrow : state.table.row pk = some node) (himmutable : node.extra.immutable = false)
    (hleaf : forall key, state.table.parentOf key ≠ some pk) :
    exists after, removeNode true deleted pk state =
        .ok (deleted ++ [{ savedPk := pk, pk := none }]) after ∧
      HoldsNodes root after ∧ Without state.table pk after.table := by
  have hroot := h.ne_root hrow himmutable
  rcases Option.ne_none_iff_exists'.mp (fun hnone => hroot (h.table.single hrow hnone)) with
    ⟨above, hparent⟩
  rcases h.table.closed hrow hparent with ⟨parent, habove⟩
  rcases h.nodes.exists_held hrow with ⟨held, hheld, rfl⟩
  rcases h.nodes.exists_held habove with ⟨top, htop, rfl⟩
  have hne : above ≠ pk := by
    rintro rfl
    exact hleaf above ((Table.parentOf_row hrow).trans hparent)
  have hchild : IsChild state.table.row above held.node.name pk := ⟨held.node, hrow, hparent, rfl⟩
  have hmem : held.node.name ∈ top.subTree := by
    rw [← AList.lookup_isSome, (h.nodes.sub htop _ _).mpr ⟨pk, rfl, hchild⟩]
    rfl
  have hwithout : Without state.table pk (state.table.delete pk) := row_delete_leaf hleaf
  have hsiblings : forall child, IsChild state.table.row above held.node.name child ->
      child = pk := by
    rintro child ⟨found, hfound, habove', hname⟩
    exact h.table.siblings hfound hrow habove' hparent hname
  refine ⟨⟨state.helper.remove above top held.node.name pk, state.table.delete pk⟩, ?_, ?_,
    hwithout⟩
  · unfold removeNode
    simp only [if_true, bind_apply, get_apply, hheld, hparent, htop, if_pos hmem, changeHelper,
      modify_apply, onTable, pure_apply]
  · exact
      { table := h.table.without hwithout hleaf hroot
        nodes := h.nodes.remove hheld hparent htop hne hsiblings hwithout
        settled := h.settled.without hwithout hrow himmutable }

def entryOf (doit : Bool) (pk : Nat) : Deleted where
  savedPk := pk
  pk := if doit then none else some pk

theorem stored_closed {table : Table CategoryColumns} (h : OneTop categoryRules root table)
    (child above : Nat) (hchild : Stored table child) (hparent : table.parentOf child = some above) :
    Stored table above := by
  rcases hchild with ⟨found, hfound⟩
  exact h.closed hfound ((Table.parentOf_row hfound).symm.trans hparent)

theorem Pruned.removed (hstart : HoldsNodes root start)
    (h : Pruned references mode start doit root state deleted)
    (hnext : Next references mode start deleted pk) :
    exists after, removeNode doit deleted pk state =
        .ok (deleted ++ [entryOf doit pk]) after ∧
      Pruned references mode start doit root after (deleted ++ [entryOf doit pk]) := by
  have hmem : forall other, other ∈ gone (deleted ++ [entryOf doit pk]) <->
      other ∈ gone deleted ∨ other = pk := by
    intro other
    rw [gone_concat, mem_append, mem_singleton]
    rfl
  have hkeys : forall entry, entry ∈ deleted ++ [entryOf doit pk] ->
      entry.pk = if doit then none else some entry.savedPk := by
    intro entry hentry
    rcases mem_append.mp hentry with hold | hnew
    · exact h.keys entry hold
    · rw [mem_singleton.mp hnew]
      rfl
  have hsound : forall other, other ∈ gone (deleted ++ [entryOf doit pk]) ->
      MayGo references mode start other := by
    intro other hother
    rcases (hmem other).mp hother with hold | rfl
    · exact h.sound other hold
    · exact hnext.prunable (stored_closed hstart.table) h.sound
  have hnodup : (gone (deleted ++ [entryOf doit pk])).Nodup := by
    rw [gone_concat]
    refine nodup_append.mpr ⟨h.nodup, nodup_singleton _, ?_⟩
    intro other hother last hlast
    rw [mem_singleton.mp hlast]
    rintro rfl
    exact hnext.left hother
  cases hdoit : doit with
  | false =>
    subst hdoit
    refine ⟨state, rfl, h.holds, ?_, h.noted, hkeys, hsound, hnodup⟩
    intro other
    rw [h.rows, if_neg (fun hboth => Bool.false_ne_true hboth.left),
      if_neg (fun hboth => Bool.false_ne_true hboth.left)]
  | true =>
    subst hdoit
    rcases hnext.stored with ⟨node, hrow⟩
    have hleft := (h.row_left hnext.left).trans hrow
    have hleaf : forall key, state.table.parentOf key ≠ some pk := by
      intro key hkey
      rcases Table.parentOf_eq_some.mp hkey with ⟨found, hfound, hparent⟩
      have hfound' := h.row_start hfound
      have hgone := hnext.children key ⟨found, hfound'⟩ ((Table.parentOf_row hfound').trans hparent)
      rw [h.rows, if_pos ⟨rfl, hgone⟩] at hfound
      cases hfound
    rcases removeNode_deletes h.holds deleted hleft (hnext.free node hrow).right.left hleaf with
      ⟨after, hafter, hholds, hwithout⟩
    refine ⟨after, hafter, hholds, ?_, fun heq => absurd heq.symm Bool.false_ne_true, hkeys,
      hsound, hnodup⟩
    intro other
    rw [hwithout, h.rows]
    by_cases hother : other = pk
    · rw [if_pos hother, if_pos ⟨rfl, (hmem other).mpr (Or.inr hother)⟩]
    · rw [if_neg hother]
      simp only [hmem, true_and, or_iff_left hother]

theorem Pruned.removedAll (hstart : HoldsNodes root start) {chosen : List Nat}
    (h : Pruned references mode start doit root state deleted) (hnodup : chosen.Nodup)
    (hchosen : forall pk, pk ∈ chosen -> Next references mode start deleted pk) :
    exists after, chosen.foldlM (removeNode doit) deleted state =
        .ok (deleted ++ chosen.map (entryOf doit)) after ∧
      Pruned references mode start doit root after (deleted ++ chosen.map (entryOf doit)) := by
  induction chosen generalizing state deleted with
  | nil =>
    refine ⟨state, ?_, ?_⟩
    · rw [map_nil, append_nil]
      rfl
    · rw [map_nil, append_nil]
      exact h
  | cons first rest ih =>
    rcases h.removed hstart (hchosen first mem_cons_self) with ⟨middle, hmiddle, hpruned⟩
    have hrest : forall pk, pk ∈ rest ->
        Next references mode start (deleted ++ [entryOf doit first]) pk := by
      intro pk hmem
      have hready := hchosen pk (mem_cons_of_mem first hmem)
      refine hready.mono ?_ ?_
      · intro other hother
        rw [gone_concat]
        exact mem_append_left _ hother
      · rw [gone_concat, mem_append, mem_singleton]
        rintro (hold | heq)
        · exact hready.left hold
        · have heq' : pk = first := heq
          exact (nodup_cons.mp hnodup).left (heq' ▸ hmem)
    rcases ih hpruned (nodup_cons.mp hnodup).right hrest with ⟨after, hafter, hall⟩
    have hentries : deleted ++ (first :: rest).map (entryOf doit) =
        deleted ++ [entryOf doit first] ++ rest.map (entryOf doit) := by
      rw [map_cons, append_assoc, singleton_append]
    refine ⟨after, ?_, hentries ▸ hall⟩
    rw [foldlM_cons, bind_apply, hmiddle, hentries]
    exact hafter

theorem Pruned.complete (hstart : HoldsNodes root start)
    (h : Pruned references mode start doit root state deleted)
    (hstop : forall pk, Stored state.table pk -> ¬ Next references mode start deleted pk)
    (hgo : MayGo references mode start pk) : pk ∈ gone deleted := by
  have hbound : forall key, Stored start.table key -> exists count,
      Rooted start.table.parentOf count key ∧ count ≤ start.table.rows.entries.length := by
    rintro key ⟨found, hfound⟩
    rcases hstart.table.rooted hfound with ⟨count, hcount⟩
    exact ⟨count, hcount, Nat.le_of_lt (hstart.table.count_lt_length hfound hcount)⟩
  refine gone_of_prunable hbound ?_ hgo
  intro key hready
  rcases hready.stored with ⟨found, hfound⟩
  exact hstop key ⟨found, (h.row_left hready.left).trans hfound⟩ hready

theorem Pruned.length_le (hstart : HoldsNodes root start)
    (h : Pruned references mode start doit root state deleted) :
    (gone deleted).length ≤ start.helper.nodeDict.keys.length := by
  refine (h.nodup.subperm ?_).length_le
  intro pk hmem
  exact hstart.nodes.mem_keys.mpr (h.sound pk hmem).left

theorem pruneRounds_ok (orders : Orders) (hstart : HoldsNodes root start) {rounds : Nat}
    (h : Pruned references mode start doit root state deleted)
    (hrounds : start.helper.nodeDict.keys.length < (gone deleted).length + rounds) :
    exists last after,
      pruneRounds references database levels orders mode doit rounds deleted state =
        .ok last after ∧
      Pruned references mode start doit root after last ∧
      forall pk, MayGo references mode start pk -> pk ∈ gone last := by
  induction rounds generalizing state deleted with
  | zero => exact absurd (h.length_le hstart) (Nat.not_le_of_lt hrounds)
  | succ rounds ih =>
    rcases @delNodes_ok references mode start doit root state deleted database levels h
      (orders.nodes state.helper.nodeDict.keys) (fun pk hmem => (mem_nodes h.holds.nodes).mp hmem) with
      ⟨chosen, hchosen, hsublist, hmem⟩
    have hnodup : chosen.Nodup :=
      ((orders.nodes_perm _).nodup_iff.mpr state.helper.nodeDict.keys_nodup).sublist hsublist
    rcases h.removedAll hstart hnodup (fun pk hpk => ((hmem pk).mp hpk).right) with
      ⟨middle, hmiddle, hpruned⟩
    simp only [pruneRounds, bind_apply, get_apply, hchosen, hmiddle]
    cases chosen with
    | nil =>
      rw [if_pos rfl]
      refine ⟨_, _, rfl, hpruned, ?_⟩
      intro pk hgo
      rw [map_nil, append_nil]
      refine h.complete hstart (fun key hkey hready => ?_) hgo
      exact not_mem_nil ((hmem key).mpr ⟨(mem_nodes h.holds.nodes).mpr hkey, hready⟩)
    | cons first rest =>
      rw [if_neg (cons_ne_nil first rest)]
      apply ih hpruned
      have hmore : (gone (deleted ++ (first :: rest).map (entryOf doit))).length =
          (gone deleted).length + (rest.length + 1) := by
        simp only [gone, map_append, length_append, length_map, length_cons]
      omega

end Rounds

end Icsw.NameTree
