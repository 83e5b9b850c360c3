import Icsw.NameTree.Shape

/-!
# What a node is saved as

The checks and computations before a node is written change no row.  A node is
accepted as a row without a parent, or below a row that exists and is not below
the node itself.
-/

namespace Icsw.NameTree

open Foundation
open Foundation.Forest

variable {E : Type} {rules : Rules E} {table : Table E}

theorem legal_of_matchesAll {name : Text} (hmatch : matchesAll rules.legal name = true)
    (hlast : name.getLast? ≠ some '\n') : Legal rules name := by
  simp only [matchesAll, if_neg hlast, Bool.and_eq_true, decide_eq_true_iff, List.all_eq_true]
    at hmatch
  exact hmatch

section

variable (lawful : Lawful rules)
include lawful

theorem Lawful.not_newline {name : Text} (hlegal : Legal rules name) :
    name.getLast? ≠ some '\n' := by
  intro hlast
  have hwhite := (lawful.legal_char '\n' (hlegal.right _ (List.mem_of_getLast? hlast))).right
  revert hwhite
  decide

theorem Lawful.matchesAll {name : Text} (hlegal : Legal rules name) :
    matchesAll rules.legal name = true := by
  simp only [NameTree.matchesAll, if_neg (lawful.not_newline hlegal), Bool.and_eq_true,
    decide_eq_true_iff, List.all_eq_true]
  exact hlegal

theorem Lawful.strip_legal {name : Text} (hlegal : Legal rules name) :
    strip name = name :=
  strip_eq_self fun c hc => (lawful.legal_char c (hlegal.right c hc)).right

theorem Lawful.separator_not_mem {name : Text}
    (hlegal : Legal rules name) : rules.separator ∉ name := by
  intro hmem
  exact (lawful.legal_char _ (hlegal.right _ hmem)).left rfl

end

def below (rules : Rules E) (pk : Option Nat) (node parent : Node E) : Node E where
  name := node.name
  fullName := rules.join node.name parent.fullName
  parent := node.parent
  depth := parent.depth + 1
  extra := rules.settle pk node.extra

structure AcceptedBelow (rules : Rules E) (table : Table E) (pk : Option Nat) (node : Node E)
    (above : Nat) (parent : Node E) : Prop where
  hparent : node.parent = some above
  hrow : table.row above = some parent
  free : forall self, pk = some self -> ¬ Below table.parentOf self above
  legal : matchesAll rules.legal node.name = true
  named : strip node.name ≠ []
  checkName : rules.checkName node.name (parent.depth + 1) = .ok ()
  checkFullName : rules.checkFullName (rules.join node.name parent.fullName)
    (rules.settle pk node.extra) = .ok ()
  unused : forall other used, table.row other = some used -> some other ≠ pk ->
    used.depth = parent.depth + 1 -> used.parent = some above -> used.name ≠ node.name

inductive Accepted (rules : Rules E) (table : Table E) (pk : Option Nat) (node : Node E) :
    Node E × Bool -> Prop where
  | top (hparent : node.parent = none) (hdepth : node.depth = 0) (hname : strip node.name = []) :
      Accepted rules table pk node ({ node with extra := rules.settle pk node.extra }, false)
  | below {above : Nat} {parent : Node E} (h : AcceptedBelow rules table pk node above parent) :
      Accepted rules table pk node (below rules pk node parent,
        decide (rules.join node.name parent.fullName ≠ node.fullName))

theorem keeps_check {inv : Table E -> Prop} (result : Except PyError Unit) :
    Keeps inv (check result) (fun _ => result = .ok ()) := by
  cases result with
  | ok value => exact keeps_pure rfl
  | error raised => exact keeps_throw raised _

section

variable (levels : Nat) (nested : Saver E)

section

variable (shape : Shape rules table)
include shape

theorem load_apply (pk : Nat) :
    load (rules.postInit levels nested) pk table =
      match table.row pk with
      | none => .error .objectDoesNotExist table
      | some node => .ok node table := by
  rw [load, bind_apply, get_apply]
  cases hrow : table.row pk with
  | none => simp only [hrow, throw_apply]
  | some node => simp only [hrow, shape.loads hrow levels nested pk, pure_apply]

theorem keeps_load (pk : Nat) :
    Keeps (fun state => state = table) (load (rules.postInit levels nested) pk)
      (fun node => table.row pk = some node) := by
  intro state hstate
  rw [hstate, load_apply levels nested shape]
  cases hrow : table.row pk with
  | none => rfl
  | some node => exact ⟨rfl, rfl⟩

theorem keeps_settleParent (pk : Option Nat) (node : Node E) :
    Keeps (fun state => state = table)
      (settleParent (rules.postInit levels nested) pk node)
      (fun settled => (node.parent = none ∧ settled = node) ∨
        exists above parent, node.parent = some above ∧ table.row above = some parent ∧
          (forall self, pk = some self -> ¬ Below table.parentOf self above) ∧
          settled = { node with depth := parent.depth + 1 }) := by
  unfold settleParent
  cases hparent : node.parent with
  | none => exact keeps_pure (Or.inl ⟨rfl, rfl⟩)
  | some above =>
    apply keeps_bind keeps_get
    intro state hstate
    apply keeps_bind (keeps_check _)
    intro _ hcheck
    rw [hstate] at hcheck
    apply keeps_bind (keeps_load levels nested shape above)
    intro parent hrow
    have hfree := (checkParent_ok shape hrow).mp hcheck
    exact keeps_pure (Or.inr ⟨above, parent, rfl, hrow, hfree, rfl⟩)

theorem keeps_settleFullName (pk : Option Nat) (node : Node E) :
    Keeps (fun state => state = table)
      (settleFullName rules (rules.postInit levels nested) pk node)
      (fun settled => exists above parent, node.parent = some above ∧
        table.row above = some parent ∧ strip node.name ≠ [] ∧
        rules.checkName node.name node.depth = .ok () ∧
        rules.checkFullName (rules.join node.name parent.fullName) node.extra = .ok () ∧
        (forall other used, table.row other = some used -> some other ≠ pk ->
          used.depth = parent.depth + 1 -> used.parent = some above -> used.name ≠ node.name) ∧
        settled = ({ node with fullName := rules.join node.name parent.fullName,
                               depth := parent.depth + 1 },
          decide (rules.join node.name parent.fullName ≠ node.fullName))) := by
  unfold settleFullName
  apply keeps_bind (keeps_check _)
  intro _ hname
  apply keeps_bind (keeps_check _)
  intro _ hempty
  have hstrip : strip node.name ≠ [] := by
    intro hblank
    rw [checkEmptyString, if_pos hblank] at hempty
    cases hempty
  cases hparent : node.parent with
  | none => exact keeps_throw PyError.attributeError _
  | some above =>
    apply keeps_bind (keeps_load levels nested shape above)
    intro parent hrow
    apply keeps_bind (keeps_check _)
    intro _ hfull
    apply keeps_bind keeps_get
    intro state hstate
    split
    · exact keeps_throw _ _
    · rename_i hunused
      apply keeps_pure
      refine ⟨above, parent, rfl, hrow, hstrip, hname, hfull, ?_, rfl⟩
      intro other used hused hother hdepth habove hsame
      apply hunused
      rw [hstate]
      exact Table.mem_usedNames.mpr
        ⟨other, used, hused, hother, hdepth, habove, hsame⟩

theorem keeps_settleNode (pk : Option Nat) (node : Node E) :
    Keeps (fun state => state = table)
      (settleNode rules (rules.postInit levels nested) pk node)
      (Accepted rules table pk node) := by
  unfold settleNode
  apply keeps_bind (keeps_settleParent levels nested shape pk node)
  intro settled hsettled
  split
  · exact keeps_throw _ _
  · rename_i hmatch
    apply keeps_bind (keeps_check _)
    intro _ _
    split
    · rename_i hdepth
      apply keeps_mono (keeps_settleFullName levels nested shape pk _)
      intro result hresult
      rcases hresult with ⟨above, parent, habove, hrow, hstrip, hname, hfull, hunused, heq⟩
      rcases hsettled with ⟨hnone, heq'⟩ | ⟨above', parent', habove', hrow', hfree, heq'⟩
      · rw [heq'] at habove
        rw [hnone] at habove
        cases habove
      · rw [heq'] at habove hname hmatch hstrip hdepth heq hfull hunused
        rw [habove'] at habove
        cases habove
        rw [hrow'] at hrow
        cases hrow
        have hlegal : matchesAll rules.legal node.name = true := by
          cases hlegal : matchesAll rules.legal node.name with
          | true => rfl
          | false => exact absurd ⟨hdepth, hlegal⟩ hmatch
        rw [heq]
        exact Accepted.below
          ⟨habove', hrow', hfree, hlegal, hstrip, hname, hfull, hunused⟩
    · rename_i hdepth
      apply keeps_bind (keeps_check _)
      intro _ hempty
      apply keeps_bind (keeps_check _)
      intro _ _
      apply keeps_pure
      rcases hsettled with ⟨hnone, heq⟩ | ⟨above, parent, _, _, _, heq⟩
      · rw [heq] at hdepth hempty ⊢
        refine Accepted.top hnone (not_not.mp hdepth) ?_
        apply Classical.byContradiction
        intro hname
        rw [checkNonEmptyString, if_pos hname] at hempty
        cases hempty
      · rw [heq] at hdepth
        exact absurd (Nat.succ_ne_zero parent.depth) hdepth

end

theorem settleNode_below (lawful : Lawful rules) (shape : Shape rules table) {pk : Option Nat}
    {node parent : Node E} {above : Nat} (h : AcceptedBelow rules table pk node above parent) :
    settleNode rules (rules.postInit levels nested) pk node table =
      .ok (below rules pk node parent,
        decide (rules.join node.name parent.fullName ≠ node.fullName)) table := by
  have hload := load_apply levels nested shape above
  rw [h.hrow] at hload
  have hparent : settleParent (rules.postInit levels nested) pk node table =
      .ok { node with depth := parent.depth + 1 } table := by
    unfold settleParent
    rw [h.hparent]
    simp only [bind_apply, get_apply, pure_apply, hload, (checkParent_ok shape h.hrow).mpr h.free,
      check_ok]
  have hfull : settleFullName rules (rules.postInit levels nested) pk
      { node with depth := parent.depth + 1, extra := rules.settle pk node.extra } table =
      .ok (below rules pk node parent,
        decide (rules.join node.name parent.fullName ≠ node.fullName)) table := by
    have hunused : node.name ∉ table.usedNames pk
        { node with fullName := rules.join node.name parent.fullName, depth := parent.depth + 1,
                    extra := rules.settle pk node.extra } := by
      intro hused
      rcases Table.mem_usedNames.mp hused with ⟨other, used, hrow, hother, hdepth, habove, hname⟩
      exact h.unused other used hrow hother hdepth (habove.trans h.hparent) hname
    unfold settleFullName
    simp only [bind_apply, h.checkName, check_ok, checkEmptyString, if_neg h.named, h.hparent,
      hload, h.checkFullName, get_apply]
    rw [← h.hparent]
    simp only [if_neg hunused, pure_apply, below]
  unfold settleNode
  rw [bind_apply, hparent]
  have hlegal : ¬ (parent.depth + 1 ≠ 0 ∧ matchesAll rules.legal node.name = false) := by
    intro hcontra
    rw [h.legal] at hcontra
    cases hcontra.right
  simp only [if_neg hlegal, bind_apply, lawful.checkSettled_ok, check_ok,
    if_pos (Nat.succ_ne_zero parent.depth)]
  exact hfull

end

end Icsw.NameTree
