import Icsw.NameTree.Requests

/-!
# The domain tree

A domain name is the path from a node to the top node, with dots between the names..  The domain tree
stays a tree, unless a request creates a second top node or stores a name that ends in a newline or
that the nodes below cannot follow.
-/

namespace Icsw.NameTree

open Foundation List
open Foundation.Forest

variable {E : Type} {rules : Rules E} {table table' : Table E} {root : Nat}

structure OneTop (rules : Rules E) (root : Nat) (table : Table E) : Prop
    extends Consistent rules table where
  stored : exists node, table.row root = some node
  single : forall {pk node}, table.row pk = some node -> node.parent = none -> pk = root

theorem OneTop.root_top (h : OneTop rules root table) :
    exists node, table.row root = some node ∧ node.parent = none := by
  rcases h.stored with ⟨node, hrow⟩
  rcases h.toConsistent.exists_top hrow with ⟨top, found, htop, hnone, _⟩
  exact ⟨found, h.single htop hnone ▸ htop, hnone⟩

theorem OneTop.root_columns (h : OneTop rules root table) :
    exists node, table.row root = some node ∧ node.parent = none ∧ node.fullName = [] ∧
      node.depth = 0 := by
  rcases h.root_top with ⟨node, hrow, hnone⟩
  exact ⟨node, hrow, hnone, (h.top hrow hnone).right.left, (h.top hrow hnone).right.right⟩

theorem OneTop.fullNames (lawful : Lawful rules) (h : OneTop rules root table) {pk pk' : Nat}
    {node node' : Node E} (hrow : table.row pk = some node) (hrow' : table.row pk' = some node')
    (heq : node.fullName = node'.fullName) : pk = pk' := by
  rcases h.rooted hrow with ⟨count, hcount⟩
  have hparent : forall {key above}, table.parentOf key = some above ->
      exists found, table.row key = some found ∧ found.parent = some above :=
    fun hkey => Table.parentOf_eq_some.mp hkey
  have hpath : forall {key found}, table.row key = some found ->
      fullNameOf table (some key) = found.fullName := fun hfound => fullNameOf_row hfound
  have hnames : forall {key found}, table.row key = some found ->
      (((table.row key).map Node.name).getD []) = found.name := by
    intro key found hfound
    rw [hfound]
    rfl
  have hlegal : forall {key above}, table.parentOf key = some above ->
      Legal rules (((table.row key).map Node.name).getD []) := by
    intro key above habove
    rcases hparent habove with ⟨found, hfound, hchild⟩
    rw [hnames hfound]
    exact h.legal hfound hchild
  have hjoin : forall key above, (exists found, table.row key = some found) ->
      table.parentOf key = some above -> fullNameOf table (some key) =
        rules.join (((table.row key).map Node.name).getD []) (fullNameOf table (some above)) := by
    intro key above _ habove
    rcases hparent habove with ⟨found, hfound, hchild⟩
    rcases h.placed hfound above hchild with ⟨parent, habove_row, hfull, _⟩
    rw [hpath hfound, hpath habove_row, hnames hfound]
    exact hfull
  apply path_injective (fun key => fullNameOf table (some key))
    (fun key => ((table.row key).map Node.name).getD []) rules.join
    (fun key => exists found, table.row key = some found) root
    ?_ ?_ hjoin ?_ ?_ ?_ hcount ⟨node, hrow⟩ ⟨node', hrow'⟩ ((hpath hrow).trans
      (heq.trans (hpath hrow').symm))
  · intro key above _ habove
    rcases hparent habove with ⟨found, hfound, hchild⟩
    exact h.closed hfound hchild
  · intro key hkey hnone
    rcases hkey with ⟨found, hfound⟩
    exact h.single hfound ((Table.parentOf_row hfound).symm.trans hnone)
  · intro first second _ _ above above' habove habove' hsame
    exact lawful.join_injective _ _ _ _ (hlegal habove) (hlegal habove') hsame
  · intro key above hkey habove hsame
    rcases h.root_columns with ⟨top, htop, _, hnil, _⟩
    have hnonempty := lawful.join_ne_nil _ (fullNameOf table (some above)) (hlegal habove)
    exact hnonempty ((hjoin key above hkey habove).symm.trans (hsame.trans ((hpath htop).trans hnil)))
  · intro first second above _ _ hfirst hsecond hsame
    rcases hparent hfirst with ⟨found, hfound, hchild⟩
    rcases hparent hsecond with ⟨found', hfound', hchild'⟩
    apply h.siblings hfound hfound' hchild hchild'
    rw [← hnames hfound, ← hnames hfound']
    exact hsame

theorem OneTop.added (h : OneTop rules root table) {node saved : Node E} {pk : Nat}
    (hadded : Added rules table node pk saved table') (hparent : node.parent ≠ none) :
    OneTop rules root table' where
  toConsistent := hadded.consistent
  stored := by
    rcases h.stored with ⟨top, htop⟩
    exact ⟨top, hadded.kept htop⟩
  single := by
    intro other found hfound hnone
    rw [hadded.hrows] at hfound
    split at hfound
    · cases hfound
      rw [hadded.parent] at hnone
      exact absurd hnone hparent
    · exact h.single hfound hnone

structure DomainColumns where
  nodePostfix : Text
  intermediate : Bool
  createShortNames : Bool
  alwaysCreateIp : Bool
  writeNameserverConfig : Bool
  comment : Text
deriving DecidableEq

/-- The characters of `valid_domain_re`. -/
def validDomainChar (c : Char) : Bool := c.isAlphanum || c = '-' || c = '_'

def joinDomain (name parentFullName : Text) : Text :=
  if parentFullName = [] then name else name ++ '.' :: parentFullName

def domainTreeNodeRules (inUse : Nat -> Bool) : Rules DomainColumns where
  separator := '.'
  parts name := (splitAll '.' name).reverse
  legal := validDomainChar
  join := joinDomain
  usedMessage name := quoted "DTN-name '" name "' already used here"
  parentExtra extra :=
    { nodePostfix := []
      intermediate := false
      createShortNames := extra.createShortNames
      alwaysCreateIp := extra.alwaysCreateIp
      writeNameserverConfig := extra.writeNameserverConfig
      comment := "autocreated intermediate".toList }
  checkFirst _ := .ok ()
  settle pk extra :=
    { extra with
      nodePostfix := strip extra.nodePostfix
      intermediate := extra.intermediate && !(pk.elim false inUse) }
  checkSettled extra :=
    if extra.nodePostfix = [] ∧ matchesAll validDomainChar extra.nodePostfix = true then
      .error (.validationError (quoted "illegal characters in node postfix '" extra.nodePostfix "'"))
    else .ok ()
  checkName _ _ := .ok ()
  checkFullName _ _ := .ok ()
  checkTop extra := checkNonEmptyString "node_postfix" extra.nodePostfix
  postInit _ _ _ node := pure node

theorem validDomainChar_text {c : Char} (h : validDomainChar c = true) :
    c ≠ '.' ∧ isWhitespace c = false := by
  simp only [validDomainChar, Bool.or_eq_true, decide_eq_true_iff] at h
  rcases h with (halphanum | hdash) | hunderscore
  · rcases alphanum_code halphanum with ⟨hlow, hhigh⟩
    constructor
    · intro heq
      rw [heq] at hlow
      exact absurd hlow (by decide)
    · exact isWhitespace_eq_false (by omega) (by omega)
  · rw [hdash]
    decide
  · rw [hunderscore]
    decide

section

variable {inUse : Nat -> Bool}

theorem dot_not_mem {name : Text} (hlegal : Legal (domainTreeNodeRules inUse) name) :
    '.' ∉ name := by
  intro hmem
  have hvalid : validDomainChar '.' = true := hlegal.right '.' hmem
  exact (validDomainChar_text hvalid).left rfl

theorem joinDomain_injective {name name' full full' : Text} (hdot : '.' ∉ name)
    (hdot' : '.' ∉ name') (h : joinDomain name full = joinDomain name' full') :
    name = name' ∧ full = full' := by
  unfold joinDomain at h
  by_cases hfull : full = []
  · by_cases hfull' : full' = []
    · rw [if_pos hfull, if_pos hfull'] at h
      exact ⟨h, hfull.trans hfull'.symm⟩
    · rw [if_pos hfull, if_neg hfull'] at h
      exact absurd (by rw [h]; simp) hdot
  · by_cases hfull' : full' = []
    · rw [if_neg hfull, if_pos hfull'] at h
      exact absurd (by rw [← h]; simp) hdot'
    · rw [if_neg hfull, if_neg hfull'] at h
      exact eq_of_append_separator hdot hdot' h

/-- The number of names on a path. -/
def pathLength (full : Text) : Nat := if full = [] then 0 else full.count '.' + 1

theorem pathLength_joinDomain {name full : Text} (hname : name ≠ []) (hdot : '.' ∉ name) :
    pathLength (joinDomain name full) = pathLength full + 1 := by
  unfold joinDomain pathLength
  by_cases hfull : full = []
  · rw [if_pos hfull, if_pos hfull, if_neg hname, count_eq_zero_of_not_mem hdot]
  · have hjoin : name ++ '.' :: full ≠ [] := by simp
    rw [if_neg hfull, if_neg hfull, if_neg hjoin, count_append,
      count_eq_zero_of_not_mem hdot, count_cons_self, Nat.zero_add]

theorem domainTreeNodeRules_lawful (inUse : Nat -> Bool) :
    Lawful (domainTreeNodeRules inUse) where
  legal_char _ h := validDomainChar_text h
  parts_plain _ _ hmem := not_mem_of_mem_splitAll (mem_reverse.mp hmem)
  parts_blank _ _ _ _ := rfl
  parts_first := by
    intro name part hhead hblank
    have hlast : (splitAll '.' (strip name)).reverse.head? = some part := by
      cases hparts : (splitAll '.' (strip name)).reverse with
      | nil =>
        rw [show (domainTreeNodeRules inUse).parts (strip name) =
          (splitAll '.' (strip name)).reverse from rfl, hparts] at hhead
        cases hhead
      | cons first rest =>
        rw [show (domainTreeNodeRules inUse).parts (strip name) =
          (splitAll '.' (strip name)).reverse from rfl, hparts] at hhead
        cases rest with
        | nil => cases hhead
        | cons second rest => exact hhead
    rw [head?_reverse] at hlast
    exact nil_of_last_part_blank hlast hblank
  parts_own := by
    intro name own hdot hparts
    have hlength : (splitAll '.' name).reverse.length = 1 := congrArg length hparts
    rw [length_reverse, splitAll, length_split_char (Nat.le_refl _)] at hlength
    have hcount := count_pos_iff.mpr hdot
    change 0 < name.count '.' at hcount
    omega
  join_injective _ _ _ _ hlegal hlegal' h :=
    joinDomain_injective (dot_not_mem hlegal) (dot_not_mem hlegal') h
  join_ne_nil := by
    intro name full hlegal
    show joinDomain name full ≠ []
    unfold joinDomain
    split
    · exact hlegal.left
    · simp
  ranked := ⟨pathLength, rfl, fun _ _ hlegal =>
    pathLength_joinDomain hlegal.left (dot_not_mem hlegal)⟩
  checkFirst_settle _ _ _ := rfl
  checkSettled_ok := by
    intro extra
    refine if_neg ?_
    rintro ⟨hnil, hmatch⟩
    rw [hnil] at hmatch
    cases hmatch
  checkName_deep _ _ _ := rfl
  loads_top _ _ _ _ _ := rfl
  loads_child _ _ _ _ _ _ _ _ _ _ _ := rfl

end

structure TreeBelow (table : Table DomainColumns) (root : Nat) : Prop where
  top : exists node, table.row root = some node ∧ node.parent = none
  ends : forall {pk node}, table.row pk = some node -> Below table.parentOf root pk
  placed : forall {pk node}, table.row pk = some node -> pk ≠ root ->
    exists above parent, node.parent = some above ∧ table.row above = some parent ∧
      node.depth = parent.depth + 1 ∧
      node.fullName = if above = root then node.name else node.name ++ '.' :: parent.fullName
  siblings : forall {pk pk' node node'}, table.row pk = some node -> table.row pk' = some node' ->
    node.parent = node'.parent -> node.name = node'.name -> pk = pk'
  fullNames : forall {pk pk' node node'}, table.row pk = some node ->
    table.row pk' = some node' -> node.fullName = node'.fullName -> pk = pk'

def IsTree (table : Table DomainColumns) : Prop := exists root, TreeBelow table root

structure SingleTop (inUse : Nat -> Bool) (root : Nat) (table : Table DomainColumns) : Prop
    extends Consistent (domainTreeNodeRules inUse) table where
  stored : exists node, table.row root = some node
  single : forall {pk node}, table.row pk = some node -> node.parent = none -> pk = root

section

variable {inUse : Nat -> Bool} {root : Nat} {table : Table DomainColumns}

section

variable (h : SingleTop inUse root table)
include h

theorem SingleTop.oneTop :
    OneTop (domainTreeNodeRules inUse) root table where
  toConsistent := h.toConsistent
  stored := h.stored
  single := h.single

theorem SingleTop.root_top :
    exists node, table.row root = some node ∧ node.parent = none :=
  h.oneTop.root_top

theorem SingleTop.ends {pk : Nat} {node : Node DomainColumns}
    (hrow : table.row pk = some node) : Below table.parentOf root pk := by
  rcases h.toConsistent.exists_top hrow with ⟨top, found, htop, hnone, hbelow⟩
  exact h.single htop hnone ▸ hbelow

theorem SingleTop.fullNames {pk pk' : Nat}
    {node node' : Node DomainColumns} (hrow : table.row pk = some node)
    (hrow' : table.row pk' = some node') (heq : node.fullName = node'.fullName) : pk = pk' :=
  h.oneTop.fullNames (domainTreeNodeRules_lawful inUse) hrow hrow' heq

theorem SingleTop.isTree : IsTree table := by
  refine ⟨root, ?_⟩
  constructor
  case top => exact h.root_top
  case ends => exact h.ends
  case fullNames => exact h.fullNames
  case placed =>
    intro pk node hrow hne
    cases hparent : node.parent with
    | none => exact absurd (h.single hrow hparent) hne
    | some above =>
      rcases h.placed hrow above hparent with ⟨parent, habove, hfull, hdepth, _⟩
      refine ⟨above, parent, rfl, habove, hdepth, ?_⟩
      rw [hfull]
      show joinDomain node.name parent.fullName = _
      unfold joinDomain
      by_cases hroot : above = root
      · rcases h.root_top with ⟨top, htop, hnone⟩
        rw [hroot, htop] at habove
        cases habove
        rw [if_pos hroot, if_pos (h.top htop hnone).right.left]
      · have hnonempty : parent.fullName ≠ [] := by
          cases habove_parent : parent.parent with
          | none => exact absurd (h.single habove habove_parent) hroot
          | some higher =>
            rcases h.placed habove higher habove_parent with ⟨_, _, hfull', _⟩
            rw [hfull']
            exact (domainTreeNodeRules_lawful inUse).join_ne_nil _ _
              (h.legal habove habove_parent)
        rw [if_neg hroot, if_neg hnonempty]
  case siblings =>
    intro pk pk' node node' hrow hrow' hparents hnames
    cases hparent : node.parent with
    | none =>
      rw [hparent] at hparents
      rw [h.single hrow hparent, h.single hrow' hparents.symm]
    | some above =>
      rw [hparent] at hparents
      exact h.siblings hrow hrow' hparent hparents.symm hnames

end

end

/-- The table with a top node alone. -/
def singleRoot (root : Nat) (extra : DomainColumns) : Table DomainColumns :=
  Table.empty.update root { name := [], fullName := [], parent := none, depth := 0, extra }

/-- The request does not create a node without name and parent. -/
def NoSecondTop (request : Request DomainColumns) : Prop :=
  request.target = none -> request.parent = none -> strip request.name ≠ []

instance (request : Request DomainColumns) : Decidable (NoSecondTop request) :=
  inferInstanceAs (Decidable (_ -> _ -> _))

section

variable (inUse : Nat -> Bool) (database : Database DomainColumns) (levels : Nat)

def domainStep : Table DomainColumns -> Request DomainColumns -> Table DomainColumns :=
  step (domainTreeNodeRules inUse) database levels

def DomainAdmissible (table : Table DomainColumns) (request : Request DomainColumns) : Prop :=
  NoSecondTop request ∧ Admissible (domainTreeNodeRules inUse) database levels table request

instance (table : Table DomainColumns) (request : Request DomainColumns) :
    Decidable (DomainAdmissible inUse database levels table request) :=
  inferInstanceAs (Decidable (_ ∧ _))

variable {inUse database levels}

theorem singleTop_singleRoot (root : Nat) (extra : DomainColumns) :
    SingleTop inUse root (singleRoot root extra) := by
  have hrow : forall {pk node}, (singleRoot root extra).row pk = some node ->
      pk = root ∧ node = { name := [], fullName := [], parent := none, depth := 0, extra } := by
    intro pk node hrow
    rw [singleRoot, Table.row_update] at hrow
    split at hrow
    · rename_i heq
      exact ⟨heq.symm, (Option.some.inj hrow).symm⟩
    · cases hrow
  have hnone : forall {pk node above}, (singleRoot root extra).row pk = some node ->
      node.parent ≠ some above := by
    intro pk node above hpk hparent
    rw [(hrow hpk).right] at hparent
    cases hparent
  constructor
  case stored => exact ⟨_, Table.row_update_self _ _ _⟩
  case single => exact fun hpk _ => (hrow hpk).left
  case toConsistent =>
    constructor
    case placed => exact fun hpk above habove => absurd habove (hnone hpk)
    case toShape =>
      constructor
      case closed => exact fun hpk habove => absurd habove (hnone hpk)
      case legal => exact fun hpk habove => absurd habove (hnone hpk)
      case deep => exact fun hpk habove => absurd habove (hnone hpk)
      case siblings => exact fun hpk _ habove => absurd habove (hnone hpk)
      case loads => exact fun _ _ _ _ => rfl
      case first => exact fun _ => rfl
      case top =>
        intro pk node hpk _
        rw [(hrow hpk).right]
        exact ⟨rfl, rfl, rfl⟩
      case rooted =>
        intro pk node hpk
        refine ⟨0, Rooted.root ?_⟩
        rw [Table.parentOf_row hpk, (hrow hpk).right]

theorem domainStep_singleTop {root : Nat} (table : Table DomainColumns)
    (request : Request DomainColumns) (h : SingleTop inUse root table)
    (hadmissible : DomainAdmissible inUse database levels table request) :
    SingleTop inUse root (domainStep inUse database levels table request) := by
  rcases h.stored with ⟨node, hrow⟩
  have hstepped := step_stepped (domainTreeNodeRules_lawful inUse) h.toConsistent ⟨root, node, hrow⟩
    levels hadmissible.right
  constructor
  case toConsistent => exact hstepped.consistent
  case stored => exact hstepped.kept hrow
  case single =>
    intro pk found hfound hnone
    cases hstepped.origin hfound with
    | @stored before hbefore _ hplace =>
      rcases hplace with heq | hdeep
      · rw [heq] at hnone
        exact h.single hbefore hnone
      · rw [(hstepped.consistent.top hfound hnone).right.right] at hdeep
        cases hdeep
    | created hparent _ => exact absurd hnone hparent
    | placed hparent _ _ => exact absurd hnone hparent
    | top _ hname hparent htarget _ =>
      cases hrequest : request.target with
      | none => exact absurd hname (hadmissible.left hrequest hparent)
      | some other =>
        rcases htarget other hrequest with ⟨before, hbefore, htop⟩
        exact h.single hbefore htop

/--
Whatever nodes are created, renamed and moved, accepted or rejected, the domain
tree is a tree after each request of a run of admissible ones.
-/
theorem domain_tree_stays_tree (inUse : Nat -> Bool) (database : Database DomainColumns)
    (levels root : Nat) (extra : DomainColumns) (taken rest : List (Request DomainColumns))
    (h : Along (domainStep inUse database levels) (DomainAdmissible inUse database levels)
      (singleRoot root extra) (taken ++ rest)) :
    IsTree (run (domainStep inUse database levels) (singleRoot root extra) taken) :=
  (invariant_reached (domainStep inUse database levels) domainStep_singleTop
    (singleTop_singleRoot root extra) h).isTree

end

/-- A database that takes the columns up to their lengths and lists rows as they are stored. -/
def domainDatabase : Database DomainColumns where
  fits name fullName extra :=
    decide (name.length ≤ 64) && decide (fullName.length ≤ 256) &&
      decide (extra.nodePostfix.length ≤ 16) && decide (extra.comment.length ≤ 256)
  listed := id
  listed_perm entries := Perm.refl entries

def plainColumns : DomainColumns where
  nodePostfix := []
  intermediate := false
  createShortNames := true
  alwaysCreateIp := false
  writeNameserverConfig := false
  comment := []

/-- The table after requests for a tree whose top node has the key one. -/
def domainRun (requests : List (Request DomainColumns)) : Table DomainColumns :=
  run (domainStep (fun _ => false) domainDatabase 40) (singleRoot 1 plainColumns) requests

/-- A domain with its parents, then another name for the outermost parent. -/
def renamedDomain : List (Request DomainColumns) :=
  [.create "mail.example.net".toList (some 1) plainColumns,
   .edit 2 "org".toList (some 1) plainColumns,
   .edit 2 "org".toList (some 4) plainColumns]

theorem renamedDomain_isTree :
    IsTree (domainRun renamedDomain) ∧
      ((domainRun renamedDomain).row 4).map Node.fullName = some "mail.example.org".toList :=
  ⟨domain_tree_stays_tree (fun _ => false) domainDatabase 40 1 plainColumns renamedDomain []
    (by decide +kernel), by decide +kernel⟩

/-- A node without name and parent becomes a second top node. -/
theorem second_top_breaks_tree : ¬ IsTree (domainRun [.create [] none plainColumns]) := by
  rintro ⟨root, h⟩
  have hnode : forall pk, pk = 1 ∨ pk = 2 ->
      (domainRun [.create [] none plainColumns]).row pk =
        some { name := [], fullName := [], parent := none, depth := 0, extra := plainColumns } := by
    rintro pk (heq | heq)
    · rw [heq]
      decide +kernel
    · rw [heq]
      decide +kernel
  have hsame := h.fullNames (hnode 1 (Or.inl rfl)) (hnode 2 (Or.inr rfl)) rfl
  cases hsame

/-- Below the renamed node, a full name gets longer than its column. -/
def longName : List (Request DomainColumns) :=
  [.create (replicate 60 'a' ++ '.' :: replicate 60 'b' ++ '.' :: replicate 60 'c' ++
      '.' :: replicate 60 'd') (some 1) plainColumns,
   .create (replicate 10 'e') (some 5) plainColumns,
   .edit 2 (replicate 63 'f') (some 1) plainColumns]

end Icsw.NameTree
