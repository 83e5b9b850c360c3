import Icsw.NameTree.Consistent

/-!
# Saving a stored node

A stored node gets new columns and may move below another parent.  Its children
follow where its full name changed; otherwise they still agree with it, because
the depth shows in the full name.
-/

namespace Icsw.NameTree

open Foundation
open Foundation.Forest

variable {E : Type} {rules : Rules E} {database : Database E} {table table' : Table E}
  {pk levels : Nat} {old node saved : Node E}

/-- A node is saved as a top node, or below a parent that is not below the node. -/
def SavedAt (rules : Rules E) (table : Table E) (pk : Nat) (node saved : Node E) : Prop :=
  (node.parent = none ∧ node.depth = 0 ∧ strip node.name = [] ∧ saved.parent = none) ∨
    exists above parent, node.parent = some above ∧ table.row above = some parent ∧
      ¬ Below table.parentOf pk above ∧ saved.parent = some above ∧
      saved.fullName = rules.join node.name parent.fullName

/-- A stored node was written with its new columns, and what is below it followed. -/
structure Rewritten (rules : Rules E) (table : Table E) (pk : Nat) (node saved : Node E)
    (table' : Table E) : Prop where
  consistent : Consistent rules table'
  hrow : table'.row pk = some saved
  kept : forall {other found}, table.row other = some found ->
    exists kept, table'.row other = some kept
  others : forall other found, other ≠ pk -> table'.row other = some found ->
    exists before, table.row other = some before ∧ Settles rules before.extra found.extra ∧
      (found = before ∨ 2 ≤ found.depth)
  extra : saved.extra = rules.settle (some pk) node.extra
  place : SavedAt rules table pk node saved

theorem Consistent.placed_children (consistent : Consistent rules table)
    (hrow : table.row pk = some old) (hfull : saved.fullName = old.fullName)
    (hdepth : saved.depth = old.depth) {child : Nat} {found : Node E}
    (hchild : table.row child = some found) (hparent : found.parent = some pk) :
    Placed rules (table.update pk saved) found := by
  intro above habove
  rw [hparent] at habove
  cases habove
  rcases consistent.placed hchild pk hparent with ⟨parent, hpk, hplaced⟩
  rw [hrow] at hpk
  cases hpk
  refine ⟨saved, table.row_update_self pk saved, ?_⟩
  rw [hfull, hdepth]
  exact hplaced

theorem Consistent.rewritten_same (consistent : Consistent rules table)
    (hrow : table.row pk = some old) (hfitting : Fitting rules table pk saved)
    (hplaced : Placed rules (table.update pk saved) saved)
    (hfull : saved.fullName = old.fullName) (hdepth : saved.depth = old.depth)
    (hextra : saved.extra = rules.settle (some pk) node.extra)
    (hplace : SavedAt rules table pk node saved) :
    Rewritten rules table pk node saved (table.update pk saved) where
  consistent := consistent.written (table.row_update pk · saved) hfitting hplaced
    (fun _ _ hchild hparent => consistent.placed_children hrow hfull hdepth hchild hparent)
  hrow := table.row_update_self pk saved
  kept := by
    intro other found hfound
    by_cases heq : other = pk
    · exact ⟨saved, heq ▸ table.row_update_self pk saved⟩
    · exact ⟨found, (Table.row_update_ne heq).trans hfound⟩
  others := by
    intro other found hne hfound
    rw [Table.row_update_ne hne] at hfound
    exact ⟨found, hfound, Relation.ReflTransGen.refl, Or.inl rfl⟩
  extra := hextra
  place := hplace

theorem row_of_strictlyBelow (shape : Shape rules (table.update pk saved)) {other : Nat}
    {found : Node E} (h : StrictlyBelow (table.update pk saved).parentOf pk other)
    (hfound : (table.update pk saved).row other = some found) :
    other ≠ pk ∧ table.row other = some found := by
  have hne : other ≠ pk := by
    intro heq
    rcases shape.rooted (table.row_update_self pk saved) with ⟨count, hcount⟩
    exact hcount.not_strictly_below (heq ▸ h)
  exact ⟨hne, (Table.row_update_ne hne).symm.trans hfound⟩

section

variable (consistent : Consistent rules table)
include consistent

theorem Consistent.stale (hrow : table.row pk = some old)
    (shape : Shape rules (table.update pk saved)) :
    Stale rules (table.update pk saved) pk old.fullName := by
  constructor
  case children =>
    intro child found hfound hparent
    have hbelow := Relation.TransGen.single
      (show ChildOf (table.update pk saved).parentOf pk child from
        (Table.parentOf_row hfound).trans hparent)
    have hbefore := (row_of_strictlyBelow shape hbelow hfound).right
    rcases consistent.placed hbefore pk hparent with ⟨parent, hpk, hfull, _⟩
    rw [hrow] at hpk
    cases hpk
    exact hfull
  case deeper =>
    intro child found above parent hfound habove hparent hbelow
    have hchild := hbelow.tail
      (show ChildOf (table.update pk saved).parentOf above child from
        (Table.parentOf_row hfound).trans habove)
    have hbefore := (row_of_strictlyBelow shape hchild hfound).right
    rcases consistent.placed hbefore above habove with ⟨parent', hparent', hfull, _⟩
    rw [(row_of_strictlyBelow shape hbelow hparent).right] at hparent'
    cases hparent'
    exact hfull

theorem Consistent.refreshed (hplaced : Placed rules (table.update pk saved) saved)
    (shape : Shape rules (table.update pk saved))
    (h : Refreshed rules (table.update pk saved) table'
      (StrictlyBelow (table.update pk saved).parentOf pk)) : Consistent rules table' := by
  have hself : ¬ StrictlyBelow (table.update pk saved).parentOf pk pk := by
    rcases shape.rooted (table.row_update_self pk saved) with ⟨count, hcount⟩
    exact hcount.not_strictly_below
  refine ⟨h.shape, ?_⟩
  intro other found hfound
  by_cases hbelow : StrictlyBelow (table.update pk saved).parentOf pk other
  · exact h.placed other found hbelow hfound
  · have hsame := h.frame other hbelow
    rw [hfound] at hsame
    have hedge : forall above, found.parent = some above ->
        ChildOf (table.update pk saved).parentOf above other :=
      fun above habove => (Table.parentOf_row hsame.symm).trans habove
    have habove : forall above, found.parent = some above ->
        table'.row above = (table.update pk saved).row above := by
      intro above habove
      apply h.frame
      intro hstrict
      exact hbelow (hstrict.tail (hedge above habove))
    by_cases heq : other = pk
    · rw [heq, Table.row_update_self] at hsame
      cases hsame
      exact hplaced.congr habove
    · rw [Table.row_update_ne heq] at hsame
      apply (consistent.placed hsame.symm).congr
      intro above hparent
      have hne : above ≠ pk := by
        intro hpk
        exact hbelow (Relation.TransGen.single (hpk ▸ hedge above hparent))
      exact (habove above hparent).trans (Table.row_update_ne hne)

theorem Consistent.two_le_depth {other : Nat}
    {top found : Node E} (htop : table.row pk = some top) (hdeep : top.depth ≠ 0)
    (hbelow : StrictlyBelow table.parentOf pk other) (hfound : table.row other = some found) :
    2 ≤ found.depth := by
  rcases Relation.TransGen.tail'_iff.mp hbelow with ⟨above, hupper, hedge⟩
  rw [ChildOf, Table.parentOf_row hfound] at hedge
  rcases consistent.placed hfound above hedge with ⟨parent, hparent, _, hdepth, _⟩
  have hparent_deep : parent.depth ≠ 0 := by
    cases hupper with
    | refl =>
      rw [htop] at hparent
      cases hparent
      exact hdeep
    | tail _ hchild =>
      rw [ChildOf, Table.parentOf_row hparent] at hchild
      exact consistent.deep hparent hchild
  rw [hdepth]
  exact Nat.succ_le_succ (Nat.one_le_iff_ne_zero.mpr hparent_deep)

end

theorem Consistent.rewritten_changed (lawful : Lawful rules) (consistent : Consistent rules table)
    (hrow : table.row pk = some old) (hfitting : Fitting rules table pk saved)
    (hplaced : Placed rules (table.update pk saved) saved) (hdeep : saved.depth ≠ 0)
    (hchanged : saved.fullName ≠ old.fullName)
    (hfree : unhindered rules database table levels pk saved.fullName = true)
    (hextra : saved.extra = rules.settle (some pk) node.extra)
    (hplace : SavedAt rules table pk node saved) :
    exists table', saveSubNodes (save rules database levels)
      (subNodes database (table.update pk saved) pk) (table.update pk saved) = .ok ⟨⟩ table' ∧
      Rewritten rules table pk node saved table' := by
  have hself := table.row_update_self pk saved
  have shape := consistent.toShape.written (table.row_update pk · saved) hfitting
  have hfree' : unhindered rules database (table.update pk saved) levels pk saved.fullName = true :=
    unhindered_congr (fun _ _ hbelow hfound => (row_of_strictlyBelow shape hbelow hfound).right)
      hfree
  rcases spreads lawful database levels _ pk saved old.fullName shape hself hdeep hchanged
    (consistent.stale hrow shape) hfree' with ⟨table', hsaved, hrefreshed⟩
  have hconsistent := consistent.refreshed hplaced shape hrefreshed
  have hpk : table'.row pk = some saved := by
    rcases shape.rooted hself with ⟨count, hcount⟩
    exact (hrefreshed.frame pk hcount.not_strictly_below).trans hself
  refine ⟨table', hsaved, ?_⟩
  constructor
  case consistent => exact hconsistent
  case hrow => exact hpk
  case extra => exact hextra
  case place => exact hplace
  case kept =>
    intro other found hfound
    by_cases heq : other = pk
    · exact ⟨saved, heq ▸ hpk⟩
    · by_cases hbelow : StrictlyBelow (table.update pk saved).parentOf pk other
      · rcases Relation.TransGen.tail'_iff.mp hbelow with ⟨above, _, hedge⟩
        rw [← hrefreshed.parents] at hedge
        rcases Table.parentOf_eq_some.mp hedge with ⟨kept, hkept, _⟩
        exact ⟨kept, hkept⟩
      · exact ⟨found, (hrefreshed.frame other hbelow).trans ((Table.row_update_ne heq).trans hfound)⟩
  case others =>
    intro other found hne hfound
    rcases hrefreshed.extras other found hfound with ⟨before, hbefore, hsettles⟩
    refine ⟨before, (Table.row_update_ne hne).symm.trans hbefore, hsettles, ?_⟩
    by_cases hbelow : StrictlyBelow (table.update pk saved).parentOf pk other
    · rw [← hrefreshed.parents] at hbelow
      exact Or.inr (hconsistent.two_le_depth hpk hdeep hbelow hfound)
    · rw [hrefreshed.frame other hbelow, hbefore] at hfound
      exact Or.inl (Option.some.inj hfound).symm

theorem saveNode_stored (database : Database E) (levels : Nat) (node : Node E)
    (lawful : Lawful rules) (consistent : Consistent rules table)
    (loaderLevels : Nat) (nested : Saver E) (hrow : table.row pk = some old)
    (hfull : node.fullName = old.fullName) (hdepth : node.depth = old.depth)
    (hown : OwnName node) (hfirst : rules.checkFirst node.extra = .ok ())
    (hfree : forall above parent, node.parent = some above -> table.row above = some parent ->
      ¬ Below table.parentOf pk above -> rules.join node.name parent.fullName ≠ old.fullName ->
      unhindered rules database table levels pk (rules.join node.name parent.fullName) = true) :
    match saveNode rules database (rules.postInit loaderLevels nested) (save rules database levels)
        (some pk) node table with
    | .ok result table' => result.1 = pk ∧ Rewritten rules table pk node result.2 table' ∧
        (result.2.fullName = old.fullName -> table' = table.update pk result.2)
    | .error _ table' => table' = table := by
  have hsettle := keeps_settleNode loaderLevels nested consistent.toShape (some pk) node table rfl
  unfold saveNode
  rw [bind_apply]
  cases hresult : settleNode rules (rules.postInit loaderLevels nested) (some pk) node table with
  | error raised between =>
    rw [hresult] at hsettle
    exact hsettle
  | ok result between =>
    rw [hresult] at hsettle
    rcases hsettle with ⟨heq, haccepted⟩
    simp only [heq, write, bind_apply, if_apply]
    by_cases hfits : database.fits result.1.name result.1.fullName result.1.extra = true
    case neg => simp only [if_neg hfits, throw_apply]
    simp only [if_pos hfits, modify_apply, pure_apply]
    cases haccepted with
    | top hparent hzero hname =>
      have hold : old.parent = none :=
        consistent.toShape.top_of_depth hrow (hdepth.symm.trans hzero)
      have hnil : node.fullName = [] := hfull.trans (consistent.top hrow hold).right.left
      have hblank := hown.blank hparent hname
      have hplaced : Placed rules
          (table.update pk { node with extra := rules.settle (some pk) node.extra })
          { node with extra := rules.settle (some pk) node.extra } := by
        intro other hother
        have hother' : node.parent = some other := hother
        rw [hparent] at hother'
        cases hother'
      exact ⟨rfl, consistent.rewritten_same hrow
        (fitting_top lawful hparent hzero hnil hblank hfirst) hplaced hfull hdepth rfl
        (Or.inl ⟨hparent, hzero, hname, hparent⟩), fun _ => rfl⟩
    | @below above parent h =>
      have hbelow := h.free pk rfl
      have hne : above ≠ pk := by
        intro hpk
        exact hbelow (hpk ▸ Relation.ReflTransGen.refl)
      have hfitting : Fitting rules table pk (below rules (some pk) node parent) :=
        h.fitting lawful consistent hown hfirst hbelow
          (fun other hother _ hsame => hother (Option.some.inj hsame))
      have hplaced : Placed rules (table.update pk (below rules (some pk) node parent))
          (below rules (some pk) node parent) :=
        h.placed ((Table.row_update_ne hne).trans h.hrow)
      have hplace : SavedAt rules table pk node (below rules (some pk) node parent) :=
        Or.inr ⟨above, parent, h.hparent, h.hrow, hbelow, h.hparent, rfl⟩
      by_cases hchanged : rules.join node.name parent.fullName ≠ node.fullName
      · rw [decide_eq_true hchanged, postSave_changed
          (consistent.toShape.written (table.row_update pk · _) hfitting)]
        rw [hfull] at hchanged
        rcases consistent.rewritten_changed lawful hrow hfitting hplaced
          (Nat.succ_ne_zero _) hchanged (hfree above parent h.hparent h.hrow hbelow hchanged)
          rfl hplace with ⟨table', hsaved, hrewritten⟩
        rw [hsaved]
        exact ⟨rfl, hrewritten, fun hsame => absurd hsame hchanged⟩
      · rw [decide_eq_false hchanged]
        have hsame : rules.join node.name parent.fullName = old.fullName :=
          (not_not.mp hchanged).trans hfull
        have hlegal := legal_of_matchesAll h.legal hown.not_newline
        rcases lawful.ranked with ⟨rank, hnil, hjoin⟩
        have hsame_depth : parent.depth + 1 = old.depth := by
          rw [consistent.depth_eq_rank hnil hjoin hrow, ← hsame, hjoin _ _ hlegal,
            consistent.depth_eq_rank hnil hjoin h.hrow]
        exact ⟨rfl, consistent.rewritten_same hrow hfitting hplaced hsame hsame_depth rfl
          hplace, fun _ => rfl⟩

end Icsw.NameTree
