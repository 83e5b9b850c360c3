import Icsw.NameTree.Propagation

/-!
# Consistent tables

In a consistent table each row has the full name and the depth that its parent
gives.  A node whose parts were found is written and leaves the table consistent,
or it is rejected and changes nothing.
-/

namespace Icsw.NameTree

open Foundation
open Foundation.Forest

variable {E : Type} {rules : Rules E} {database : Database E} {table table' : Table E}

structure Consistent (rules : Rules E) (table : Table E) : Prop extends Shape rules table where
  placed : forall {pk node}, table.row pk = some node -> Placed rules table node

theorem Consistent.depth_eq_rank (consistent : Consistent rules table) {rank : Text -> Nat}
    (hnil : rank [] = 0)
    (hjoin : forall name full, Legal rules name -> rank (rules.join name full) = rank full + 1)
    {pk : Nat} {node : Node E} (hrow : table.row pk = some node) :
    node.depth = rank node.fullName := by
  rcases consistent.rooted hrow with ⟨count, hcount⟩
  induction hcount generalizing node with
  | root hroot =>
    rw [Table.parentOf_row hrow] at hroot
    rcases consistent.top hrow hroot with ⟨_, hfull, hdepth⟩
    rw [hfull, hdepth, hnil]
  | step habove _ ih =>
    rw [Table.parentOf_row hrow] at habove
    rcases consistent.placed hrow _ habove with ⟨parent, hparent, hfull, hdepth, _⟩
    rw [hfull, hdepth, hjoin _ _ (consistent.legal hrow habove), ih hparent]

theorem Consistent.written (consistent : Consistent rules table) {pk : Nat} {node : Node E}
    (hrows : forall other, table'.row other = if pk = other then some node else table.row other)
    (h : Fitting rules table pk node) (hnode : Placed rules table' node)
    (hchildren : forall child found, table.row child = some found -> found.parent = some pk ->
      Placed rules table' found) : Consistent rules table' := by
  refine ⟨consistent.toShape.written hrows h, ?_⟩
  intro other found hfound
  by_cases hother : other = pk
  · rw [hother, hrows, if_pos rfl] at hfound
    cases hfound
    exact hnode
  · rw [hrows, if_neg (fun heq => hother heq.symm)] at hfound
    by_cases hparent : found.parent = some pk
    · exact hchildren other found hfound hparent
    · apply (consistent.placed hfound).congr
      intro above habove
      have hne : pk ≠ above := by
        intro heq
        exact hparent (heq ▸ habove)
      rw [hrows, if_neg hne]

section

variable {pk : Option Nat} {key : Nat} {node parent : Node E} {above : Nat}

/-- What the node's own name must not be: unstripped. -/
structure OwnName (node : Node E) : Prop where
  not_newline : node.name.getLast? ≠ some '\n'
  blank : node.parent = none -> strip node.name = [] -> node.name = []

theorem AcceptedBelow.fitting (lawful : Lawful rules) (consistent : Consistent rules table)
    (h : AcceptedBelow rules table pk node above parent) (hown : OwnName node)
    (hfirst : rules.checkFirst node.extra = .ok ()) (hfree : ¬ Below table.parentOf key above)
    (hself : forall other, other ≠ key -> (exists used, table.row other = some used) ->
      some other ≠ pk) :
    Fitting rules table key (below rules pk node parent) := by
  have hlegal := legal_of_matchesAll h.legal hown.not_newline
  have habove : forall other, (below rules pk node parent).parent = some other -> other = above :=
    fun other heq => Option.some.inj (heq.symm.trans h.hparent)
  constructor
  case closed =>
    intro other heq
    rw [habove other heq]
    exact ⟨⟨parent, h.hrow⟩, hfree⟩
  case top =>
    intro hnone
    have hnone' : node.parent = none := hnone
    rw [h.hparent] at hnone'
    cases hnone'
  case legal =>
    intro _ _
    exact ⟨hlegal, Nat.succ_ne_zero _⟩
  case unused =>
    intro other sibling used heq hused hne hparent
    rw [habove other heq] at hparent
    rcases consistent.placed hused above hparent with ⟨parent', hparent', _, hdepth, _⟩
    rw [h.hrow] at hparent'
    cases hparent'
    exact h.unused sibling used hused (hself sibling hne ⟨used, hused⟩) hdepth hparent
  case loads => exact h.loads lawful consistent.toShape hlegal
  case first => exact lawful.checkFirst_settle _ _ hfirst

theorem fitting_top (lawful : Lawful rules) (hparent : node.parent = none) (hdepth : node.depth = 0)
    (hfull : node.fullName = []) (hname : node.name = [])
    (hfirst : rules.checkFirst node.extra = .ok ()) :
    Fitting rules table key { node with extra := rules.settle pk node.extra } := by
  have hnone : forall other,
      ({ node with extra := rules.settle pk node.extra } : Node E).parent ≠ some other := by
    intro other heq
    have heq' : node.parent = some other := heq
    rw [hparent] at heq'
    cases heq'
  constructor
  case closed => exact fun other heq => absurd heq (hnone other)
  case top => exact fun _ => ⟨hname, hfull, hdepth⟩
  case legal => exact fun other heq => absurd heq (hnone other)
  case unused => exact fun other _ _ heq => absurd heq (hnone other)
  case loads => exact lawful.loads_top _ hdepth
  case first => exact lawful.checkFirst_settle _ _ hfirst

end

theorem consistent_of_no_rows (h : forall pk, table.row pk = none) : Consistent rules table := by
  have hrow : forall {pk} {node : Node E}, table.row pk ≠ some node := by
    intro pk node hpk
    rw [h] at hpk
    cases hpk
  constructor
  case placed => exact fun hpk => absurd hpk hrow
  case toShape =>
    constructor
    case closed => exact fun hpk => absurd hpk hrow
    case rooted => exact fun hpk => absurd hpk hrow
    case top => exact fun hpk => absurd hpk hrow
    case legal => exact fun hpk => absurd hpk hrow
    case deep => exact fun hpk => absurd hpk hrow
    case siblings => exact fun hpk => absurd hpk hrow
    case loads => exact fun hpk => absurd hpk hrow
    case first => exact fun hpk => absurd hpk hrow

structure Added (rules : Rules E) (table : Table E) (node : Node E) (pk : Nat) (saved : Node E)
    (table' : Table E) : Prop where
  consistent : Consistent rules table'
  hpk : pk = table.nextPk
  hrows : forall other, table'.row other = if pk = other then some saved else table.row other
  name : saved.name = node.name
  parent : saved.parent = node.parent
  extra : saved.extra = rules.settle none node.extra
  fullName : (node.parent = none ∧ node.name = [] ∧ saved.fullName = []) ∨
    exists above parent, node.parent = some above ∧ table.row above = some parent ∧
      saved.fullName = rules.join node.name parent.fullName

theorem Consistent.not_parent_nextPk (consistent : Consistent rules table) {child : Nat}
    {node : Node E} (hrow : table.row child = some node) : node.parent ≠ some table.nextPk := by
  intro hparent
  rcases consistent.closed hrow hparent with ⟨parent, hnext⟩
  rw [table.row_nextPk] at hnext
  cases hnext

theorem Consistent.added (lawful : Lawful rules) (consistent : Consistent rules table)
    {node : Node E} {result : Node E × Bool} (hown : OwnName node)
    (hfull : node.parent = none -> node.fullName = [])
    (hfirst : rules.checkFirst node.extra = .ok ()) (h : Accepted rules table none node result) :
    Added rules table node table.nextPk result.1 (table.add result.1) := by
  have hchildren : forall (saved : Node E) child found, table.row child = some found ->
      found.parent = some table.nextPk -> Placed rules (table.add saved) found :=
    fun _ _ _ hrow hparent => absurd hparent (consistent.not_parent_nextPk hrow)
  cases h with
  | top hparent hdepth hname =>
    have hblank := hown.blank hparent hname
    have hplaced : Placed rules (table.add { node with extra := rules.settle none node.extra })
        { node with extra := rules.settle none node.extra } := by
      intro other heq
      have heq' : node.parent = some other := heq
      rw [hparent] at heq'
      cases heq'
    exact
      { consistent := consistent.written (table.row_add _)
          (fitting_top lawful hparent hdepth (hfull hparent) hblank hfirst) hplaced (hchildren _)
        hpk := rfl
        hrows := table.row_add _
        name := rfl
        parent := rfl
        extra := rfl
        fullName := Or.inl ⟨hparent, hblank, hfull hparent⟩ }
  | @below above parent h =>
    have hne : table.nextPk ≠ above := by
      intro heq
      have hrow := h.hrow
      rw [← heq, table.row_nextPk] at hrow
      cases hrow
    have hfree : ¬ Below table.parentOf table.nextPk above := by
      intro hbelow
      rcases consistent.toShape.row_of_below h.hrow hbelow with ⟨passed, hpassed⟩
      rw [table.row_nextPk] at hpassed
      cases hpassed
    have hfitting : Fitting rules table table.nextPk (below rules none node parent) :=
      h.fitting lawful consistent hown hfirst hfree (fun other _ _ => Option.some_ne_none other)
    have hrow : (table.add (below rules none node parent)).row above = some parent := by
      rw [table.row_add, if_neg hne]
      exact h.hrow
    exact
      { consistent := consistent.written (table.row_add _) hfitting (h.placed hrow) (hchildren _)
        hpk := rfl
        hrows := table.row_add _
        name := rfl
        parent := rfl
        extra := rfl
        fullName := Or.inr ⟨above, parent, h.hparent, h.hrow, rfl⟩ }

theorem subNodes_nextPk (consistent : Consistent rules table) {saved : Node E}
    (hsaved : saved.parent ≠ some table.nextPk) :
    subNodes database (table.add saved) table.nextPk = [] := by
  rw [List.eq_nil_iff_forall_not_mem]
  rintro ⟨child, found⟩ hmem
  rcases mem_subNodes.mp hmem with ⟨hfound, hparent⟩
  rw [table.row_add] at hfound
  split at hfound
  · cases hfound
    exact hsaved hparent
  · exact consistent.not_parent_nextPk hfound hparent

theorem saveNode_new (database : Database E) (lawful : Lawful rules)
    (consistent : Consistent rules table) {node : Node E} (levels : Nat) (nested saver : Saver E) (hown : OwnName node)
    (hfull : node.parent = none -> node.fullName = [])
    (hfirst : rules.checkFirst node.extra = .ok ()) :
    match saveNode rules database (rules.postInit levels nested) saver none node table with
    | .ok result table' => Added rules table node result.1 result.2 table'
    | .error _ table' => table' = table := by
  have hsettle := keeps_settleNode levels nested consistent.toShape none node table rfl
  unfold saveNode
  rw [bind_apply]
  cases hresult : settleNode rules (rules.postInit levels nested) none node table with
  | error raised between =>
    rw [hresult] at hsettle
    exact hsettle
  | ok result between =>
    rw [hresult] at hsettle
    rcases hsettle with ⟨heq, haccepted⟩
    have hadded := consistent.added lawful hown hfull hfirst haccepted
    have hparent : result.1.parent ≠ some table.nextPk := by
      intro hnext
      rcases hadded.fullName with ⟨hnone, _⟩ | ⟨above, parent, habove, hrow, _⟩
      · rw [hadded.parent, hnone] at hnext
        cases hnext
      · rw [hadded.parent, habove] at hnext
        cases hnext
        rw [table.row_nextPk] at hrow
        cases hrow
    simp only [heq, write, bind_apply, if_apply]
    by_cases hfits : database.fits result.1.name result.1.fullName result.1.extra = true
    · have hpost : postSave database (rules.postInit levels nested) saver table.nextPk result.2
          (table.add result.1) = .ok ⟨⟩ (table.add result.1) := by
        cases result.2 with
        | true =>
          rw [postSave_changed hadded.consistent.toShape,
            subNodes_nextPk consistent hparent]
          rfl
        | false => rfl
      simp only [if_pos hfits, get_apply, set_apply, pure_apply, hpost]
      exact hadded
    · simp only [if_neg hfits, throw_apply]

end Icsw.NameTree
