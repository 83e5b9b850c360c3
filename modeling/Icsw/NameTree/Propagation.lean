import Icsw.NameTree.Settle

/-!
# Bringing full names up to date

A row whose full name changed saves its children again, and these theirs.  Where
nothing hinders one of these saves, all rows below have their full name and
depth from their parent afterwards, and no other row changed.
-/

namespace Icsw.NameTree

open Foundation List
open Foundation.Forest

variable {E : Type} {rules : Rules E} {database : Database E} {table table' : Table E}

def Placed (rules : Rules E) (table : Table E) (node : Node E) : Prop :=
  forall above, node.parent = some above -> exists parent, table.row above = some parent ∧
    node.fullName = rules.join node.name parent.fullName ∧ node.depth = parent.depth + 1 ∧
    rules.checkName node.name node.depth = .ok () ∧
    rules.checkFullName node.fullName node.extra = .ok ()

theorem Placed.congr {node : Node E} (h : Placed rules table node)
    (hsame : forall above, node.parent = some above -> table'.row above = table.row above) :
    Placed rules table' node := by
  intro above habove
  rcases h above habove with ⟨parent, hrow, hrest⟩
  exact ⟨parent, (hsame above habove).trans hrow, hrest⟩

theorem AcceptedBelow.placed {pk : Option Nat} {node parent : Node E} {above : Nat}
    (h : AcceptedBelow rules table pk node above parent) (hrow : table'.row above = some parent) :
    Placed rules table' (below rules pk node parent) := by
  intro other hother
  have heq : above = other := Option.some.inj (h.hparent.symm.trans hother)
  exact ⟨parent, heq ▸ hrow, rfl, rfl, h.checkName, h.checkFullName⟩

structure Fitting (rules : Rules E) (table : Table E) (pk : Nat) (node : Node E) : Prop where
  closed : forall above, node.parent = some above ->
    (exists parent, table.row above = some parent) ∧ ¬ Below table.parentOf pk above
  top : node.parent = none -> node.name = [] ∧ node.fullName = [] ∧ node.depth = 0
  legal : forall above, node.parent = some above -> Legal rules node.name ∧ node.depth ≠ 0
  unused : forall above other used, node.parent = some above -> table.row other = some used ->
    other ≠ pk -> used.parent = some above -> used.name ≠ node.name
  loads : Loads rules node
  first : rules.checkFirst node.extra = .ok ()

theorem Shape.written (shape : Shape rules table) {pk : Nat} {node : Node E}
    (hrows : forall other, table'.row other = if pk = other then some node else table.row other)
    (h : Fitting rules table pk node) : Shape rules table' := by
  have hself : table'.row pk = some node := by rw [hrows, if_pos rfl]
  have hother : forall other, other ≠ pk -> table'.row other = table.row other := by
    intro other hne
    rw [hrows, if_neg (fun heq => hne heq.symm)]
  have hcases : forall {other found}, table'.row other = some found ->
      (other = pk ∧ found = node) ∨ (other ≠ pk ∧ table.row other = some found) := by
    intro other found hfound
    by_cases hne : other = pk
    · rw [hne, hself] at hfound
      exact Or.inl ⟨hne, (Option.some.inj hfound).symm⟩
    · rw [hother other hne] at hfound
      exact Or.inr ⟨hne, hfound⟩
  have hall : forall {P : Node E -> Prop}, P node ->
      (forall {other found}, table.row other = some found -> P found) ->
        forall {other found}, table'.row other = some found -> P found := by
    intro P hnode hold other found hfound
    rcases hcases hfound with ⟨_, heq⟩ | ⟨_, hrow⟩
    · exact heq ▸ hnode
    · exact hold hrow
  constructor
  case closed =>
    intro other found above hfound habove
    have hstored : exists parent, table.row above = some parent := by
      revert habove
      exact hall (fun habove => (h.closed above habove).left) shape.closed hfound
    rcases hstored with ⟨parent, hparent⟩
    by_cases hne : above = pk
    · exact ⟨node, hne ▸ hself⟩
    · exact ⟨parent, (hother above hne).trans hparent⟩
  case rooted =>
    intro other found hfound
    have hsame : forall key, key ≠ pk -> table'.parentOf key = table.parentOf key := by
      intro key hne
      rw [Table.parentOf, Table.parentOf, hother key hne]
    have hmoved : forall above, table'.parentOf pk = some above ->
        ¬ Below table.parentOf pk above ∧ exists count, Rooted table.parentOf count above := by
      intro above habove
      rw [Table.parentOf_row hself] at habove
      rcases h.closed above habove with ⟨⟨parent, hparent⟩, hbelow⟩
      exact ⟨hbelow, shape.rooted hparent⟩
    have hrooted : exists count, Rooted table.parentOf count other := by
      cases hrow : table.row other with
      | some found => exact shape.rooted hrow
      | none =>
        refine ⟨0, Rooted.root ?_⟩
        rw [Table.parentOf, hrow]
        rfl
    rcases hrooted with ⟨count, hcount⟩
    exact exists_rooted_moved hsame hmoved hcount
  case top => exact hall h.top shape.top
  case legal =>
    intro other found above hfound
    revert hfound
    exact hall (fun habove => (h.legal above habove).left) shape.legal
  case deep =>
    intro other found above hfound
    revert hfound
    exact hall (fun habove => (h.legal above habove).right) shape.deep
  case siblings =>
    intro first found second found' above hfirst hsecond habove habove' hname
    rcases hcases hfirst with ⟨hpk, heq⟩ | ⟨hne, hrow⟩
    · rcases hcases hsecond with ⟨hpk', _⟩ | ⟨hne', hrow'⟩
      · rw [hpk, hpk']
      · rw [heq] at habove hname
        exact absurd hname.symm (h.unused above second found' habove hrow' hne' habove')
    · rcases hcases hsecond with ⟨_, heq'⟩ | ⟨_, hrow'⟩
      · rw [heq'] at habove' hname
        exact absurd hname (h.unused above first found habove' hrow hne habove)
      · exact shape.siblings hrow hrow' habove habove' hname
  case loads => exact hall h.loads shape.loads
  case first => exact hall h.first shape.first

theorem AcceptedBelow.loads (lawful : Lawful rules) (shape : Shape rules table)
    {pk : Option Nat} {node parent : Node E} {above : Nat}
    (h : AcceptedBelow rules table pk node above parent) (hlegal : Legal rules node.name) :
    Loads rules (below rules pk node parent) :=
  lawful.loads_child (below rules pk node parent) parent (shape.loads h.hrow)
    (shape.fullName_of_depth h.hrow) hlegal rfl rfl h.checkName

structure Stale (rules : Rules E) (table : Table E) (pk : Nat) (old : Text) : Prop where
  children : forall child node, table.row child = some node -> node.parent = some pk ->
    node.fullName = rules.join node.name old
  deeper : forall child node above parent, table.row child = some node ->
    node.parent = some above -> table.row above = some parent ->
    StrictlyBelow table.parentOf pk above -> node.fullName = rules.join node.name parent.fullName

theorem Stale.congr {pk : Nat} {old : Text} (h : Stale rules table pk old)
    (hparents : table'.parentOf = table.parentOf)
    (hrows : forall other node, StrictlyBelow table.parentOf pk other ->
      table'.row other = some node -> table.row other = some node) : Stale rules table' pk old := by
  have hedge : forall {above child node}, table'.row child = some node ->
      node.parent = some above -> ChildOf table.parentOf above child := by
    intro above child node hrow hparent
    rw [ChildOf, ← hparents, Table.parentOf_row hrow, hparent]
  constructor
  case children =>
    intro child node hrow hparent
    have hbelow := Relation.TransGen.single (hedge hrow hparent)
    exact h.children child node (hrows child node hbelow hrow) hparent
  case deeper =>
    intro child node above parent hrow habove hparent hbelow
    rw [hparents] at hbelow
    exact h.deeper child node above parent
      (hrows child node (hbelow.tail (hedge hrow habove)) hrow) habove
      (hrows above parent hbelow hparent) hbelow

/--
Nothing hinders the saves below a node with this full name: there are levels of calls for all of
them, and every row is accepted.
-/
def unhindered (rules : Rules E) (database : Database E) (table : Table E) :
    Nat -> Nat -> Text -> Bool
  | 0, pk, _ => (table.children pk).isEmpty
  | levels + 1, pk, fullName =>
    (table.children pk).all fun entry =>
      let newFullName := rules.join entry.2.name fullName
      let extra := rules.settle (some entry.1) entry.2.extra
      database.fits entry.2.name newFullName extra &&
        (rules.checkFullName newFullName extra).isOk &&
        unhindered rules database table levels entry.1 newFullName

theorem isOk_iff {result : Except PyError Unit} : result.isOk = true <-> result = .ok () := by
  cases result with
  | ok value => simp [Except.isOk, Except.toBool]
  | error raised => simp [Except.isOk, Except.toBool]

theorem unhindered_zero {pk : Nat} {fullName : Text}
    (h : unhindered rules database table 0 pk fullName = true) {child : Nat} {node : Node E}
    (hrow : table.row child = some node) : node.parent ≠ some pk := by
  intro hparent
  have hmem : Sigma.mk child node ∈ table.children pk := Table.mem_children.mpr ⟨hrow, hparent⟩
  rw [isEmpty_iff.mp h] at hmem
  cases hmem

theorem unhindered_succ {levels pk : Nat} {fullName : Text} :
    unhindered rules database table (levels + 1) pk fullName = true <->
      forall child node, table.row child = some node -> node.parent = some pk ->
        database.fits node.name (rules.join node.name fullName)
          (rules.settle (some child) node.extra) = true ∧
        rules.checkFullName (rules.join node.name fullName)
          (rules.settle (some child) node.extra) = .ok () ∧
        unhindered rules database table levels child (rules.join node.name fullName) = true := by
  rw [unhindered, all_eq_true]
  constructor
  · intro h child node hrow hparent
    have hentry := h ⟨child, node⟩ (Table.mem_children.mpr ⟨hrow, hparent⟩)
    rw [Bool.and_eq_true, Bool.and_eq_true, isOk_iff] at hentry
    exact ⟨hentry.left.left, hentry.left.right, hentry.right⟩
  · intro h entry hmem
    rcases Table.mem_children.mp hmem with ⟨hrow, hparent⟩
    rcases h entry.1 entry.2 hrow hparent with ⟨hfits, hcheck, hrest⟩
    rw [Bool.and_eq_true, Bool.and_eq_true, isOk_iff]
    exact ⟨⟨hfits, hcheck⟩, hrest⟩

theorem unhindered_congr {levels pk : Nat} {fullName : Text}
    (hrows : forall other node, StrictlyBelow table'.parentOf pk other ->
      table'.row other = some node -> table.row other = some node)
    (h : unhindered rules database table levels pk fullName = true) :
    unhindered rules database table' levels pk fullName = true := by
  have hchild : forall {pk child node}, table'.row child = some node -> node.parent = some pk ->
      ChildOf table'.parentOf pk child := by
    intro pk child node hrow hparent
    exact (Table.parentOf_row hrow).trans hparent
  induction levels generalizing pk fullName with
  | zero =>
    show (table'.children pk).isEmpty = true
    rw [List.isEmpty_iff, List.eq_nil_iff_forall_not_mem]
    intro entry hmem
    rcases Table.mem_children.mp hmem with ⟨hrow, hparent⟩
    have hold := hrows entry.1 entry.2 (Relation.TransGen.single (hchild hrow hparent)) hrow
    exact unhindered_zero h hold hparent
  | succ levels ih =>
    rw [unhindered_succ] at h ⊢
    intro child node hrow hparent
    have hedge := hchild hrow hparent
    have hold := hrows child node (Relation.TransGen.single hedge) hrow
    rcases h child node hold hparent with ⟨hfits, hcheck, hrest⟩
    refine ⟨hfits, hcheck, ih ?_ hrest⟩
    intro other found hbelow hfound
    exact hrows other found (Relation.TransGen.head hedge hbelow) hfound

/-- The columns of one table alone, after any number of saves. -/
abbrev Settles (rules : Rules E) (extra extra' : E) : Prop :=
  Relation.ReflTransGen (fun before after => exists pk, after = rules.settle pk before) extra extra'

/-- The rows of a set have the full name and depth their parent gives; no other row changed. -/
structure Refreshed (rules : Rules E) (table table' : Table E) (renewed : Nat -> Prop) : Prop where
  shape : Shape rules table'
  parents : table'.parentOf = table.parentOf
  frame : forall other, ¬ renewed other -> table'.row other = table.row other
  placed : forall other node, renewed other -> table'.row other = some node ->
    Placed rules table' node
  extras : forall other node, table'.row other = some node ->
    exists before, table.row other = some before ∧ Settles rules before.extra node.extra

theorem Refreshed.trans {middle : Table E} {first second : Nat -> Prop}
    (hfirst : Refreshed rules table middle first) (hsecond : Refreshed rules middle table' second)
    (happart : forall other, first other -> ¬ second other)
    (hparents : forall other above, first other -> table.parentOf other = some above ->
      ¬ second above) :
    Refreshed rules table table' (fun other => first other ∨ second other) := by
  constructor
  case shape => exact hsecond.shape
  case parents => exact hsecond.parents.trans hfirst.parents
  case frame =>
    intro other hother
    have hboth := not_or.mp hother
    exact (hsecond.frame other hboth.right).trans (hfirst.frame other hboth.left)
  case placed =>
    intro other node hother hrow
    rcases hother with hother | hother
    · have hsame := hsecond.frame other (happart other hother)
      rw [hrow] at hsame
      apply (hfirst.placed other node hother hsame.symm).congr
      intro above habove
      apply hsecond.frame
      apply hparents other above hother
      rw [← hfirst.parents, Table.parentOf_row hsame.symm, habove]
    · exact hsecond.placed other node hother hrow
  case extras =>
    intro other node hrow
    rcases hsecond.extras other node hrow with ⟨between, hbetween, hafter⟩
    rcases hfirst.extras other between hbetween with ⟨before, hbefore, hmiddle⟩
    exact ⟨before, hbefore, hmiddle.trans hafter⟩

theorem Refreshed.refl (shape : Shape rules table) {renewed : Nat -> Prop}
    (h : forall other, ¬ renewed other) : Refreshed rules table table renewed where
  shape := shape
  parents := rfl
  frame _ _ := rfl
  placed other _ hother := absurd hother (h other)
  extras _ node hrow := ⟨node, hrow, Relation.ReflTransGen.refl⟩

theorem Refreshed.congr {first second : Nat -> Prop} (h : Refreshed rules table table' first)
    (heq : forall other, first other <-> second other) :
    Refreshed rules table table' second := by
  have hsets : first = second := funext fun other => propext (heq other)
  exact hsets ▸ h

/-- A child that waits for the new full name of its parent and will be accepted with it. -/
structure Pending (rules : Rules E) (database : Database E) (levels : Nat) (table : Table E)
    (pk : Nat) (fullName old : Text) (child : Nat) (node : Node E) : Prop where
  hrow : table.row child = some node
  hparent : node.parent = some pk
  stale : node.fullName = rules.join node.name old
  deeper : Stale rules table child node.fullName
  fits : database.fits node.name (rules.join node.name fullName)
    (rules.settle (some child) node.extra) = true
  checkFullName : rules.checkFullName (rules.join node.name fullName)
    (rules.settle (some child) node.extra) = .ok ()
  free : unhindered rules database table levels child (rules.join node.name fullName) = true

theorem Pending.congr {levels pk child : Nat} {fullName old : Text} {node : Node E}
    (h : Pending rules database levels table pk fullName old child node)
    (hparents : table'.parentOf = table.parentOf)
    (hsame : forall other, Below table.parentOf child other -> table'.row other = table.row other) :
    Pending rules database levels table' pk fullName old child node := by
  have hback : forall other found, StrictlyBelow table.parentOf child other ->
      table'.row other = some found -> table.row other = some found := by
    intro other found hbelow hfound
    rw [← hsame other hbelow.to_reflTransGen, hfound]
  constructor
  case hrow => exact (hsame child Relation.ReflTransGen.refl).trans h.hrow
  case hparent => exact h.hparent
  case stale => exact h.stale
  case deeper => exact h.deeper.congr hparents hback
  case fits => exact h.fits
  case checkFullName => exact h.checkFullName
  case free =>
    apply unhindered_congr ?_ h.free
    rw [hparents]
    exact hback

theorem mapM_loadEntry (shape : Shape rules table) (levels : Nat) (nested : Saver E)
    (entries : List (Entry E))
    (h : forall entry, entry ∈ entries -> table.row entry.1 = some entry.2) :
    entries.mapM (loadEntry (rules.postInit levels nested)) table =
      .ok (entries.map fun entry => (entry.1, entry.2)) table := by
  induction entries with
  | nil => rfl
  | cons entry rest ih =>
    have hload := shape.loads (h entry mem_cons_self) levels nested entry.1
    have hrest := ih (fun other hmem => h other (mem_cons_of_mem entry hmem))
    rw [mapM_cons]
    simp only [bind_apply, loadEntry, hload, pure_apply, hrest, map_cons]

/-- The children in the order in which they are saved. -/
def subNodes (database : Database E) (table : Table E) (pk : Nat) : List (Nat × Node E) :=
  (database.listed (table.children pk)).map fun entry => (entry.1, entry.2)

theorem mem_subNodes {pk child : Nat} {node : Node E} :
    (child, node) ∈ subNodes database table pk <->
      table.row child = some node ∧ node.parent = some pk := by
  rw [subNodes, mem_map]
  constructor
  · rintro ⟨entry, hmem, heq⟩
    cases heq
    exact Table.mem_children.mp ((database.listed_perm _).mem_iff.mp hmem)
  · intro h
    refine ⟨⟨child, node⟩, ?_, rfl⟩
    exact (database.listed_perm _).mem_iff.mpr (Table.mem_children.mpr h)

theorem nodup_subNodes (database : Database E) (table : Table E) (pk : Nat) :
    ((subNodes database table pk).map Prod.fst).Nodup := by
  rw [subNodes, map_map]
  have hperm := (database.listed_perm (table.children pk)).map Sigma.fst
  refine hperm.nodup_iff.mpr ?_
  exact table.rows.keys_nodup.sublist (filter_sublist.map Sigma.fst)

theorem postSave_changed (shape : Shape rules table) (levels : Nat) (nested saver : Saver E)
    (pk : Nat) :
    postSave database (rules.postInit levels nested) saver pk true table =
      saveSubNodes saver (subNodes database table pk) table := by
  have hloaded := mapM_loadEntry shape levels nested (database.listed (table.children pk)) (by
      intro entry hmem
      exact (Table.mem_children.mp ((database.listed_perm _).mem_iff.mp hmem)).left)
  unfold postSave
  rw [if_pos rfl]
  simp only [bind_apply, get_apply, hloaded]
  rfl

/--
With these levels of calls left, the children of a node whose full name changed
and everything below them are brought up to date.
-/
def Spreads (rules : Rules E) (database : Database E) (levels : Nat) : Prop :=
  forall (table : Table E) (pk : Nat) (node : Node E) (old : Text), Shape rules table ->
    table.row pk = some node -> node.depth ≠ 0 -> node.fullName ≠ old -> Stale rules table pk old ->
    unhindered rules database table levels pk node.fullName = true ->
    exists table', saveSubNodes (save rules database levels) (subNodes database table pk) table =
      .ok ⟨⟩ table' ∧ Refreshed rules table table' (StrictlyBelow table.parentOf pk)

section

variable {levels pk child : Nat} {parent node : Node E} {old : Text}

theorem Pending.accepted (lawful : Lawful rules) (shape : Shape rules table)
    (hrow : table.row pk = some parent) (hdeep : parent.depth ≠ 0)
    (h : Pending rules database levels table pk parent.fullName old child node) :
    AcceptedBelow rules table (some child) node pk parent := by
  have hlegal := shape.legal h.hrow h.hparent
  constructor
  case hparent => exact h.hparent
  case hrow => exact hrow
  case free =>
    intro self hself
    cases hself
    rcases shape.rooted h.hrow with ⟨count, hcount⟩
    exact hcount.not_below_parent ((Table.parentOf_row h.hrow).trans h.hparent)
  case legal => exact lawful.matchesAll hlegal
  case named =>
    rw [lawful.strip_legal hlegal]
    exact hlegal.left
  case checkName => exact lawful.checkName_deep _ _ (fun heq => hdeep (Nat.succ.inj heq))
  case checkFullName => exact h.checkFullName
  case unused =>
    intro other used hused hother _ habove hname
    exact hother (congrArg some (shape.siblings hused h.hrow habove h.hparent hname))

theorem splitName_plain {loader : Loader E} {saver : Saver E}
    (h : rules.separator ∉ node.name) : splitName rules loader saver node = pure node := by
  rw [splitName, if_neg (fun hsplit => h hsplit.right)]

section

variable (lawful : Lawful rules)
include lawful

section

variable (shape : Shape rules table)
include shape

theorem Pending.renamed (h : Pending rules database levels table pk parent.fullName old child node)
    (hchanged : parent.fullName ≠ old) : rules.join node.name parent.fullName ≠ node.fullName := by
  intro heq
  have hlegal := shape.legal h.hrow h.hparent
  rw [h.stale] at heq
  exact hchanged (lawful.join_injective _ _ _ _ hlegal hlegal heq).right

section

variable (hrow : table.row pk = some parent)
include hrow

section

variable (hdeep : parent.depth ≠ 0)
include hdeep

theorem preSave_pending (hchanged : parent.fullName ≠ old)
    (h : Pending rules database levels table pk parent.fullName old child node) (nested : Saver E) :
    preSave rules (rules.postInit levels nested) nested (some child) node table =
      .ok (below rules (some child) node parent, true) table := by
  have hlegal := shape.legal h.hrow h.hparent
  have hstrip : { node with name := strip node.name } = node := by rw [lawful.strip_legal hlegal]
  unfold preSave
  simp only [hstrip, bind_apply, shape.first h.hrow, check_ok,
    splitName_plain (lawful.separator_not_mem hlegal), pure_apply]
  rw [settleNode_below _ _ lawful shape (h.accepted lawful shape hrow hdeep), 
    decide_eq_true (h.renamed lawful shape hchanged)]

theorem Pending.fitting
    (h : Pending rules database levels table pk parent.fullName old child node) :
    Fitting rules table child (below rules (some child) node parent) := by
  have haccepted := h.accepted lawful shape hrow hdeep
  have hlegal := shape.legal h.hrow h.hparent
  have habove : forall above, (below rules (some child) node parent).parent = some above ->
      above = pk := fun above heq => Option.some.inj (heq.symm.trans h.hparent)
  constructor
  case closed =>
    intro above heq
    rw [habove above heq]
    exact ⟨⟨parent, hrow⟩, haccepted.free child rfl⟩
  case top =>
    intro hnone
    have hnone' : node.parent = none := hnone
    rw [h.hparent] at hnone'
    cases hnone'
  case legal =>
    intro above _
    exact ⟨hlegal, Nat.succ_ne_zero _⟩
  case unused =>
    intro above other used heq hused hne hparent hname
    exact hne (shape.siblings hused h.hrow (habove above heq ▸ hparent) h.hparent hname)
  case loads => exact haccepted.loads lawful shape hlegal
  case first => exact lawful.checkFirst_settle _ _ (shape.first h.hrow)

theorem refreshed_child
    (h : Pending rules database levels table pk parent.fullName old child node) :
    Refreshed rules table (table.update child (below rules (some child) node parent))
      (fun other => other = child) := by
  have haccepted := h.accepted lawful shape hrow hdeep
  have hpk : pk ≠ child := by
    intro heq
    exact haccepted.free child rfl (heq ▸ Relation.ReflTransGen.refl)
  constructor
  case shape =>
    exact shape.written (table.row_update child · _) (h.fitting lawful shape hrow hdeep)
  case parents =>
    funext other
    by_cases heq : other = child
    · rw [heq, Table.parentOf_row (table.row_update_self child _), Table.parentOf_row h.hrow]
      rfl
    · rw [Table.parentOf, Table.parentOf, Table.row_update_ne heq]
  case frame =>
    intro other hne
    exact Table.row_update_ne hne
  case placed =>
    intro other found heq hfound
    rw [heq, Table.row_update_self] at hfound
    cases hfound
    exact haccepted.placed ((Table.row_update_ne hpk).trans hrow)
  case extras =>
    intro other found hfound
    by_cases heq : other = child
    · rw [heq, Table.row_update_self] at hfound
      cases hfound
      exact ⟨node, heq ▸ h.hrow, Relation.ReflTransGen.single ⟨some child, rfl⟩⟩
    · rw [Table.row_update_ne heq] at hfound
      exact ⟨found, hfound, Relation.ReflTransGen.refl⟩

end

end

end

theorem save_pending (hspreads : Spreads rules database levels)
    (shape : Shape rules table) (hrow : table.row pk = some parent) (hdeep : parent.depth ≠ 0)
    (hchanged : parent.fullName ≠ old)
    (h : Pending rules database levels table pk parent.fullName old child node) :
    exists saved table', save rules database (levels + 1) (some child) node table =
      .ok saved table' ∧ Refreshed rules table table' (Below table.parentOf child) := by
  have hfirst := refreshed_child lawful shape hrow hdeep h
  have hpre := preSave_pending lawful shape hrow hdeep hchanged h (save rules database levels)
  have hself : ¬ StrictlyBelow table.parentOf child child := by
    rcases shape.rooted h.hrow with ⟨count, hcount⟩
    exact hcount.not_strictly_below
  -- Below the child no row changed yet.
  have hback : forall other found, StrictlyBelow table.parentOf child other ->
      (table.update child (below rules (some child) node parent)).row other = some found ->
      table.row other = some found := by
    intro other found hbelow hfound
    rw [← hfirst.frame other (fun heq => hself (heq ▸ hbelow)), hfound]
  have hstale := h.deeper.congr hfirst.parents hback
  have hfree : unhindered rules database
      (table.update child (below rules (some child) node parent)) levels child
      (rules.join node.name parent.fullName) = true := by
    apply unhindered_congr ?_ h.free
    rw [hfirst.parents]
    exact hback
  rcases hspreads _ child (below rules (some child) node parent) node.fullName hfirst.shape
    (table.row_update_self child _) (Nat.succ_ne_zero _)
    (h.renamed lawful shape hchanged) hstale hfree with
    ⟨last, hlast, hrest⟩
  refine ⟨(child, below rules (some child) node parent), last, ?_, ?_⟩
  · have hfits : database.fits (below rules (some child) node parent).name
        (below rules (some child) node parent).fullName
        (below rules (some child) node parent).extra = true := h.fits
    simp only [save, bind_apply, hpre, write, if_pos hfits, modify_apply, pure_apply]
    rw [postSave_changed hfirst.shape, hlast]
  · rw [hfirst.parents] at hrest
    have happart : forall other, other = child -> ¬ StrictlyBelow table.parentOf child other := by
      intro other heq
      rw [heq]
      exact hself
    have hparents : forall other above, other = child -> table.parentOf other = some above ->
        ¬ StrictlyBelow table.parentOf child above := by
      intro other above heq habove hbelow
      rw [heq, Table.parentOf_row h.hrow, h.hparent] at habove
      cases habove
      exact (h.accepted lawful shape hrow hdeep).free child rfl hbelow.to_reflTransGen
    apply (hfirst.trans hrest happart hparents).congr
    intro other
    exact Relation.reflTransGen_iff_eq_or_transGen.symm

theorem saveSubNodes_pending (hspreads : Spreads rules database levels)
    (hdeep : parent.depth ≠ 0) (hchanged : parent.fullName ≠ old) {rest : List (Nat × Node E)}
    (shape : Shape rules table) (hrow : table.row pk = some parent)
    (hnodup : (rest.map Prod.fst).Nodup) (h : forall child node, (child, node) ∈ rest ->
      Pending rules database levels table pk parent.fullName old child node) :
    exists table', saveSubNodes (save rules database (levels + 1)) rest table = .ok ⟨⟩ table' ∧
      Refreshed rules table table' (fun other => exists child node, (child, node) ∈ rest ∧
        Below table.parentOf child other) := by
  induction rest generalizing table with
  | nil =>
    refine ⟨table, rfl, Refreshed.refl shape ?_⟩
    intro other hbelow
    rcases hbelow with ⟨child, found, hmem, _⟩
    cases hmem
  | cons first rest ih =>
    rcases first with ⟨child, node⟩
    have hpending := h child node mem_cons_self
    rcases save_pending lawful hspreads shape hrow hdeep hchanged hpending with
      ⟨saved, middle, hsave, hfirst⟩
    -- No other child has a row below this one.
    have hdisjoint : forall other found, (other, found) ∈ rest -> forall key,
        Below table.parentOf child key -> ¬ Below table.parentOf other key := by
      intro other found hmem key hkey
      have hother := h other found (mem_cons_of_mem _ hmem)
      have hne : child ≠ other := by
        intro heq
        rw [map_cons, nodup_cons] at hnodup
        exact hnodup.left (mem_map.mpr ⟨(other, found), hmem, heq.symm⟩)
      rcases shape.rooted hpending.hrow with ⟨count, hcount⟩
      rcases shape.rooted hother.hrow with ⟨count', hcount'⟩
      exact hcount.disjoint hcount' ((Table.parentOf_row hpending.hrow).trans hpending.hparent)
        ((Table.parentOf_row hother.hrow).trans hother.hparent) hne hkey
    have habove : forall other found,
        Pending rules database levels table pk parent.fullName old other found ->
        ¬ Below table.parentOf other pk := fun other found hother =>
      (hother.accepted lawful shape hrow hdeep).free other rfl
    have hrow' : middle.row pk = some parent :=
      (hfirst.frame pk (habove child node hpending)).trans hrow
    have hrest : forall other found, (other, found) ∈ rest ->
        Pending rules database levels middle pk parent.fullName old other found := by
      intro other found hmem
      apply (h other found (mem_cons_of_mem _ hmem)).congr hfirst.parents
      intro key hkey
      apply hfirst.frame
      intro hbelow
      exact hdisjoint other found hmem key hbelow hkey
    rcases ih hfirst.shape hrow' (nodup_cons.mp hnodup).right hrest with
      ⟨last, hlast, hsecond⟩
    refine ⟨last, ?_, ?_⟩
    · rw [saveSubNodes, bind_apply, hsave]
      exact hlast
    · rw [hfirst.parents] at hsecond
      have happart : forall other, Below table.parentOf child other ->
          ¬ exists key node, (key, node) ∈ rest ∧ Below table.parentOf key other := by
        rintro other hbelow ⟨key, found, hmem, hkey⟩
        exact hdisjoint key found hmem other hbelow hkey
      have hparents : forall other above, Below table.parentOf child other ->
          table.parentOf other = some above ->
          ¬ exists key node, (key, node) ∈ rest ∧ Below table.parentOf key above := by
        rintro other above hbelow hother ⟨key, found, hmem, hkey⟩
        rcases below_cases hother hbelow with heq | hrest'
        · rw [heq, Table.parentOf_row hpending.hrow, hpending.hparent] at hother
          cases hother
          exact habove key found (h key found (mem_cons_of_mem _ hmem)) hkey
        · exact hdisjoint key found hmem above hrest' hkey
      apply (hfirst.trans hsecond happart hparents).congr
      intro other
      constructor
      · rintro (hbelow | ⟨key, found, hmem, hkey⟩)
        · exact ⟨child, node, mem_cons_self, hbelow⟩
        · exact ⟨key, found, mem_cons_of_mem _ hmem, hkey⟩
      · rintro ⟨key, found, hmem, hkey⟩
        rcases mem_cons.mp hmem with heq | htail
        · cases heq
          exact Or.inl hkey
        · exact Or.inr ⟨key, found, htail, hkey⟩

end

theorem pending_of_stale (hstale : Stale rules table pk old)
    (hfree : unhindered rules database table (levels + 1) pk parent.fullName = true)
    (hrow : table.row child = some node) (hparent : node.parent = some pk) :
    Pending rules database levels table pk parent.fullName old child node := by
  rcases unhindered_succ.mp hfree child node hrow hparent with ⟨hfits, hcheck, hrest⟩
  have hedge : ChildOf table.parentOf pk child := (Table.parentOf_row hrow).trans hparent
  refine ⟨hrow, hparent, hstale.children child node hrow hparent, ?_, hfits, hcheck, hrest⟩
  constructor
  case children =>
    intro lower found hfound hlower
    exact hstale.deeper lower found child node hfound hlower hrow (Relation.TransGen.single hedge)
  case deeper =>
    intro lower found above higher hfound hlower hhigher hbelow
    exact hstale.deeper lower found above higher hfound hlower hhigher
      (Relation.TransGen.head hedge hbelow)

end

theorem strictlyBelow_iff_subNodes {pk other : Nat} :
    StrictlyBelow table.parentOf pk other <->
      exists child node, (child, node) ∈ subNodes database table pk ∧
        Below table.parentOf child other := by
  rw [StrictlyBelow, Relation.TransGen.head'_iff]
  constructor
  · rintro ⟨child, hchild, hbelow⟩
    rcases Table.parentOf_eq_some.mp hchild with ⟨node, hrow, hparent⟩
    exact ⟨child, node, mem_subNodes.mpr ⟨hrow, hparent⟩, hbelow⟩
  · rintro ⟨child, node, hmem, hbelow⟩
    rcases mem_subNodes.mp hmem with ⟨hrow, hparent⟩
    exact ⟨child, (Table.parentOf_row hrow).trans hparent, hbelow⟩

theorem spreads (lawful : Lawful rules) (database : Database E) (levels : Nat) :
    Spreads rules database levels := by
  induction levels with
  | zero =>
    intro table pk node old shape hrow hdeep hchanged hstale hfree
    have hnone : subNodes database table pk = [] := by
      rw [eq_nil_iff_forall_not_mem]
      rintro ⟨child, found⟩ hmem
      rcases mem_subNodes.mp hmem with ⟨hfound, hparent⟩
      exact unhindered_zero hfree hfound hparent
    refine ⟨table, by rw [hnone]; rfl, Refreshed.refl shape ?_⟩
    intro other hbelow
    rcases strictlyBelow_iff_subNodes.mp hbelow with ⟨child, lower, hmem, _⟩
    rw [hnone] at hmem
    cases hmem
  | succ levels ih =>
    intro table pk node old shape hrow hdeep hchanged hstale hfree
    have hpending : forall child found, (child, found) ∈ subNodes database table pk ->
        Pending rules database levels table pk node.fullName old child found := by
      intro child found hmem
      rcases mem_subNodes.mp hmem with ⟨hfound, hparent⟩
      exact pending_of_stale hstale hfree hfound hparent
    rcases saveSubNodes_pending lawful ih hdeep hchanged shape hrow
      (nodup_subNodes database table pk) hpending with ⟨table', hsaved, hrefreshed⟩
    refine ⟨table', hsaved, hrefreshed.congr ?_⟩
    intro other
    exact strictlyBelow_iff_subNodes.symm

end Icsw.NameTree
