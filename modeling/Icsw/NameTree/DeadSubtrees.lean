import Icsw.NameTree.AddedNames
import Icsw.NameTree.Prune

/-!
# Dead subtrees

A category is pruned where nothing at it or below it is immutable or referred to..  The beginning of
the full names tells the subtree of a mode, because only four categories are below the top node.
-/

namespace Icsw.NameTree

open Foundation List
open Foundation.Forest

variable {table : Table CategoryColumns} {root pk : Nat} {node : Node CategoryColumns}
  {name : Text}

def InSubtree (mode : Option Text) (table : Table CategoryColumns) (pk : Nat) : Prop :=
  forall name, mode = some name -> exists top topNode, table.row top = some topNode ∧
    topNode.fullName = '/' :: name ∧ Below table.parentOf top pk

theorem InSubtree.below {mode : Option Text} (h : InSubtree mode table pk) {other : Nat}
    (hbelow : Below table.parentOf pk other) : InSubtree mode table other := by
  intro name hname
  rcases h name hname with ⟨top, topNode, htop, hfull, habove⟩
  exact ⟨top, topNode, htop, hfull, habove.trans hbelow⟩

theorem topLevel_subtype (h : name ∈ treeSubtypes) : topLevel ('/' :: name) = some name :=
  topLevel_first (slash_not_mem (legal_subtype h))

theorem subtype_eq_of_beginning {other full : Text} (hname : name ∈ treeSubtypes)
    (hother : other ∈ treeSubtypes) (h : '/' :: name <+: full) (h' : '/' :: other <+: full) :
    name = other := by
  have hall : forall first, first ∈ treeSubtypes -> forall second, second ∈ treeSubtypes ->
      first.isPrefixOf second = true -> first = second := by
    decide +kernel
  rcases prefix_or_prefix_of_prefix h h' with hbegins | hbegins
  · exact hall name hname other hother
      (List.isPrefixOf_iff_prefix.mpr (cons_prefix_cons.mp hbegins).right)
  · exact (hall other hother name hname
      (List.isPrefixOf_iff_prefix.mpr (cons_prefix_cons.mp hbegins).right)).symm

theorem begins_topLevel {full rest top : Text} (hfull : full = '/' :: rest)
    (h : topLevel full = some top) : '/' :: top <+: full := by
  rcases topLevel_cases hfull h with heq | hbegins
  · exact heq ▸ prefix_refl _
  · exact (prefix_append _ _).trans hbegins

section

variable (h : OneTop categoryRules root table)
include h

theorem inMode_iff_topLevel (hname : name ∈ treeSubtypes) (hrow : table.row pk = some node) :
    inMode (some name) node = true <-> topLevel node.fullName = some name := by
  show ('/' :: name).isPrefixOf node.fullName = true <-> _
  rw [List.isPrefixOf_iff_prefix]
  cases hparent : node.parent with
  | none =>
    rw [(h.top hrow hparent).right.left]
    constructor
    · intro hbegins
      exact absurd (prefix_nil.mp hbegins) (cons_ne_nil _ _)
    · intro htop
      cases htop
  | some above =>
    rcases topLevel_of_loads (h.loads hrow) (h.deep hrow hparent) with ⟨top, htop, hmem⟩
    rcases h.toConsistent.slash_first hrow hparent with ⟨rest, hrest⟩
    have hbegins := begins_topLevel hrest htop
    rw [htop]
    constructor
    · intro hmode
      rw [subtype_eq_of_beginning hname hmem hmode hbegins]
    · intro heq
      rw [← Option.some.inj heq]
      exact hbegins

theorem topLevel_of_below (hname : name ∈ treeSubtypes)
    {top : Nat} {topNode : Node CategoryColumns} (htop : table.row top = some topNode)
    (hfull : topNode.fullName = '/' :: name) (hbelow : Below table.parentOf top pk)
    (hrow : table.row pk = some node) : topLevel node.fullName = some name := by
  induction hbelow generalizing node with
  | refl =>
    rw [htop] at hrow
    cases hrow
    rw [hfull]
    exact topLevel_subtype hname
  | tail hrest hchild ih =>
    rcases h.placed hrow _ ((Table.parentOf_row hrow).symm.trans hchild) with
      ⟨parent, hparent, hjoin, _⟩
    rw [hjoin]
    exact topLevel_join (ih hparent)

theorem exists_top_of_topLevel
    (hrow : table.row pk = some node) (htop : topLevel node.fullName = some name) :
    exists top topNode, table.row top = some topNode ∧ topNode.fullName = '/' :: name ∧
      Below table.parentOf top pk := by
  rcases h.rooted hrow with ⟨count, hcount⟩
  induction hcount generalizing node with
  | root hroot =>
    rw [Table.parentOf_row hrow] at hroot
    rw [(h.top hrow hroot).right.left] at htop
    cases htop
  | step habove _ ih =>
    rcases h.placed hrow _ ((Table.parentOf_row hrow).symm.trans habove) with
      ⟨parent, hparent, hjoin, _⟩
    have hlegal := h.legal hrow ((Table.parentOf_row hrow).symm.trans habove)
    by_cases hdepth : parent.depth = 0
    · have hnil := h.toShape.fullName_of_depth hparent hdepth
      have hfull : node.fullName = '/' :: node.name := by
        rw [hjoin, hnil]
        rfl
      have hfirst : topLevel ('/' :: node.name) = some node.name :=
        topLevel_first (slash_not_mem hlegal)
      rw [hfull, hfirst] at htop
      exact ⟨_, node, hrow, by rw [hfull, Option.some.inj htop], Relation.ReflTransGen.refl⟩
    · rcases topLevel_of_loads (h.loads hparent) hdepth with ⟨level, hlevel, _⟩
      have hsame : topLevel node.fullName = some level := by
        rw [hjoin]
        exact topLevel_join hlevel
      rw [htop] at hsame
      rw [← Option.some.inj hsame] at hlevel
      rcases ih hparent hlevel with ⟨top, topNode, hstored, hfull, hbelow⟩
      exact ⟨top, topNode, hstored, hfull, hbelow.tail habove⟩

theorem inMode_iff {mode : Option Text}
    (hmode : forall name, mode = some name -> name ∈ treeSubtypes)
    (hrow : table.row pk = some node) : inMode mode node = true <-> InSubtree mode table pk := by
  cases mode with
  | none => exact ⟨fun _ _ hnone => absurd hnone.symm (Option.some_ne_none _), fun _ => rfl⟩
  | some name =>
    have hname := hmode name rfl
    rw [inMode_iff_topLevel h hname hrow]
    constructor
    · intro htop other hother
      rw [← Option.some.inj hother]
      exact exists_top_of_topLevel h hrow htop
    · intro hsubtree
      rcases hsubtree name rfl with ⟨top, topNode, htop, hfull, hbelow⟩
      exact topLevel_of_below h hname htop hfull hbelow hrow

end

/-- Nothing at the category or below it is immutable or referred to. -/
structure Dead (references : References) (mode : Option Text) (table : Table CategoryColumns)
    (pk : Nat) : Prop where
  stored : Stored table pk
  subtree : InSubtree mode table pk
  unused : forall other node, table.row other = some node -> Below table.parentOf pk other ->
    node.extra.immutable = false ∧ ¬ references.Referenced other

variable {references : References}

theorem mayGo_iff_dead {mode : Option Text}
    {start : TreeState CategoryColumns} (h : OneTop categoryRules root start.table)
    (hmode : forall name, mode = some name -> name ∈ treeSubtypes) :
    MayGo references mode start pk <-> Dead references mode start.table pk := by
  constructor
  · rintro ⟨⟨node, hrow⟩, hfree⟩
    refine ⟨⟨node, hrow⟩, ?_, ?_⟩
    · exact (inMode_iff h hmode hrow).mp
        (hfree pk ⟨node, hrow⟩ Relation.ReflTransGen.refl node hrow).left
    · intro other found hfound hbelow
      exact (hfree other ⟨found, hfound⟩ hbelow found hfound).right
  · rintro ⟨hstored, hsubtree, hunused⟩
    refine ⟨hstored, ?_⟩
    intro other hother hbelow found hfound
    exact ⟨(inMode_iff h hmode hfound).mpr (hsubtree.below hbelow), hunused other found hfound hbelow⟩

theorem prune_ok {database : Database CategoryColumns} {levels : Nat}
    {orders : Orders} {mode : Option Text} {start : TreeState CategoryColumns} {rounds : Nat}
    (h : HoldsNodes root start) (hmode : forall name, mode = some name -> name ∈ treeSubtypes)
    (hrounds : start.helper.nodeDict.keys.length < rounds) (doit : Bool) :
    exists last after, prune references database levels orders rounds mode doit start =
        .ok last after ∧
      Pruned references mode start doit root after last ∧
      forall pk, pk ∈ gone last <-> Dead references mode start.table pk := by
  have hassert : mode.all (fun top => decide (top ∈ treeSubtypes)) = true := by
    cases mode with
    | none => rfl
    | some name => exact decide_eq_true (hmode name rfl)
  have hstart : Pruned references mode start doit root start [] := pruned_start h
  rcases @pruneRounds_ok references mode start doit root start [] database levels orders h rounds
    hstart (Nat.lt_of_lt_of_le hrounds (Nat.le_add_left _ _)) with
    ⟨last, after, hlast, hpruned, hcomplete⟩
  refine ⟨last, after, ?_, hpruned, ?_⟩
  · rw [prune, if_pos hassert]
    exact hlast
  · intro pk
    rw [← mayGo_iff_dead h.table hmode]
    exact ⟨hpruned.sound pk, hcomplete pk⟩

theorem holdsNodes_added {database : Database CategoryColumns} {levels : Nat}
    {state : TreeState CategoryColumns} {names : List Text}
    (h : InMemory categoryHelper root state) (hsettled : Settled state.table)
    (hvalid : forall name, name ∈ names -> ValidName categoryHelper database name) :
    HoldsNodes root (run (addStep categoryHelper database (levels + 1)) state names) := by
  induction names generalizing state with
  | nil => exact h.holdsNodes hsettled
  | cons name rest ih =>
    rcases addName_followed categoryHelper_lawful levels h (hvalid name mem_cons_self) with
      ⟨pk, after, hadd, hfollowed⟩
    have hstep : addStep categoryHelper database (levels + 1) state name = after := by
      rw [addStep, Program.after, hadd]
    rw [run_cons, hstep]
    exact ih hfollowed.inMemory (hsettled.grown h.table hfollowed)
      fun other hmem => hvalid other (mem_cons_of_mem name hmem)

/--
For every tree as it is built, with any valid names added, every mode, all references and all
orders: pruning ends, a dry run returns exactly the dead categories and changes nothing, and
otherwise exactly these are deleted, which leaves a tree.
-/
theorem prune_removes_dead :
    (forall (database : Database CategoryColumns) (levels : Nat) (orders : Orders)
      (table : Table CategoryColumns) (state : TreeState CategoryColumns), Buildable table ->
      buildCategoryTree database (levels + 1) orders ⟨Helper.empty, table⟩ = .ok ⟨⟩ state ->
      forall names, (forall name, name ∈ names -> ValidName categoryHelper database name) ->
        exists root,
          HoldsNodes root (run (addStep categoryHelper database (levels + 1)) state names)) ∧
    (forall (references : References) (database : Database CategoryColumns) (levels : Nat)
      (orders : Orders) (mode : Option Text) (root rounds : Nat)
      (start : TreeState CategoryColumns), HoldsNodes root start ->
      (forall name, mode = some name -> name ∈ treeSubtypes) ->
      start.helper.nodeDict.keys.length < rounds ->
      (exists announced,
        prune references database levels orders rounds mode false start = .ok announced start ∧
          (gone announced).Nodup ∧
          forall pk, pk ∈ gone announced <-> Dead references mode start.table pk) ∧
      exists removed after,
        prune references database levels orders rounds mode true start = .ok removed after ∧
          (gone removed).Nodup ∧
          (forall pk, pk ∈ gone removed <-> Dead references mode start.table pk) ∧
          (forall pk node, after.table.row pk = some node <->
            start.table.row pk = some node ∧ ¬ Dead references mode start.table pk) ∧
          HoldsNodes root after) := by
  constructor
  · intro database levels orders table state hbuildable hbuild names hvalid
    rcases buildCategoryTree_ok hbuildable hbuild with ⟨root, hbuilt⟩
    exact ⟨root, holdsNodes_added hbuilt.inMemory hbuilt.settled hvalid⟩
  · intro references database levels orders mode root rounds start h hmode hrounds
    constructor
    · rcases @prune_ok root references database levels orders mode start rounds h hmode hrounds
        false with ⟨announced, after, hprune, hpruned, hdead⟩
      rw [hpruned.noted rfl] at hprune
      exact ⟨announced, hprune, hpruned.nodup, hdead⟩
    · rcases @prune_ok root references database levels orders mode start rounds h hmode hrounds
        true with ⟨removed, after, hprune, hpruned, hdead⟩
      refine ⟨removed, after, hprune, hpruned.nodup, hdead, ?_, hpruned.holds⟩
      intro pk node
      rw [← hdead, hpruned.rows]
      simp only [true_and]
      split
      · rename_i hgone
        exact ⟨fun heq => absurd heq.symm (Option.some_ne_none node),
          fun hboth => absurd hgone hboth.right⟩
      · rename_i hleft
        exact (and_iff_left hleft).symm

def noReferences : References where
  tupleDeviceCategory := []
  tupleMonitoringCategory := []
  locationGfx := []
  deviceMonLocation := []
  device := []
  config := []
  monCheckCommand := []
  deviceSelection := []

def webTree : TreeState CategoryColumns :=
  run (addStep categoryHelper categoryDatabase 2)
    ((buildCategoryTree categoryDatabase 2 plainOrders).after ⟨Helper.empty, Table.empty⟩)
    ["/mon/web".toList]

/-- What a call deleted, nothing where it failed. -/
def goneBy (pruning : Program (TreeState CategoryColumns) (List Deleted))
    (state : TreeState CategoryColumns) : List Nat :=
  match pruning state with
  | .ok removed _ => gone removed
  | .error _ _ => []

theorem webTree_pruned : exists removed after,
    prune noReferences categoryDatabase 2 plainOrders 10 (some "mon".toList) true webTree =
        .ok removed after ∧
      gone removed = [6] ∧ exists root, HoldsNodes root after := by
  rcases firstBuild_ok with ⟨state, hbuild⟩
  have hvalid : forall name, name ∈ ["/mon/web".toList] ->
      ValidName categoryHelper categoryDatabase name := by
    intro name hmem
    rw [mem_singleton.mp hmem]
    exact validCategory_web
  have hafterwards : webTree = run (addStep categoryHelper categoryDatabase 2) state
      ["/mon/web".toList] := by
    rw [webTree, Program.after, hbuild]
  rcases prune_removes_dead.left categoryDatabase 1 plainOrders Table.empty state
    (Or.inl fun _ => rfl) hbuild ["/mon/web".toList] hvalid with ⟨root, hholds⟩
  rw [← hafterwards] at hholds
  have hnodes : webTree.helper.nodeDict.keys.length < 10 := by decide +kernel
  have hmode : forall name, some "mon".toList = some name -> name ∈ treeSubtypes := by
    intro name heq
    rw [← Option.some.inj heq]
    decide
  rcases (prune_removes_dead.right noReferences categoryDatabase 2 plainOrders
    (some "mon".toList) root 10 webTree hholds hmode hnodes).right with
    ⟨removed, after, hprune, _, _, _, hafter⟩
  refine ⟨removed, after, hprune, ?_, root, hafter⟩
  have hgone : goneBy (prune noReferences categoryDatabase 2 plainOrders 10 (some "mon".toList) true)
      webTree = [6] := by
    decide +kernel
  rw [goneBy, hprune] at hgone
  exact hgone

end Icsw.NameTree
