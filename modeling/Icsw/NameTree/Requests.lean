import Icsw.Foundation.Run
import Icsw.NameTree.Parents

/-!
# Requests

A request that is admissible in a consistent table leaves it consistent, whether it is accepted or
rejected..  Each row afterwards was stored before, was created for a part of the name, or is the row
of the request.
-/

namespace Icsw.NameTree

open Foundation List
open Foundation.Forest

variable {E : Type} {rules : Rules E} {database : Database E} {table table' : Table E}

def Request.name : Request E -> Text
  | .create name _ _ => name
  | .edit _ name _ _ => name

def Request.parent : Request E -> Option Nat
  | .create _ parent _ => parent
  | .edit _ _ parent _ => parent

def Request.extra : Request E -> E
  | .create _ _ extra => extra
  | .edit _ _ _ extra => extra

def Request.target : Request E -> Option Nat
  | .create _ _ _ => none
  | .edit pk _ _ _ => some pk

def parentParts (rules : Rules E) (name : Text) : List Text :=
  if strip name ≠ [] ∧ rules.separator ∈ strip name then (rules.parts (strip name)).dropLast
  else []

def ownPart (rules : Rules E) (name : Text) : Text :=
  if strip name ≠ [] ∧ rules.separator ∈ strip name then
    ((rules.parts (strip name)).getLast?).getD []
  else strip name

def targetName (rules : Rules E) (table : Table E) (name : Text) (parent : Option Nat) : Text :=
  rules.join (ownPart rules name) (reach rules (fullNameOf table parent) (parentParts rules name))

/-- Where a stored node gets another full name nothing hinders the saves below it. -/
def freeToRename (rules : Rules E) (database : Database E) (levels : Nat) (table : Table E)
    (pk : Nat) (fullName : Text) : Bool :=
  match table.row pk with
  | none => true
  | some node =>
    decide (fullName = node.fullName) || unhindered rules database table (levels - 1) pk fullName

/-- The name that is stored does not end in a newline, and the rows below can follow. -/
def Admissible (rules : Rules E) (database : Database E) (levels : Nat) (table : Table E)
    (request : Request E) : Prop :=
  (ownPart rules request.name).getLast? ≠ some '\n' ∧
    forall pk, pk ∈ request.target -> freeToRename rules database levels table pk
      (targetName rules table request.name request.parent) = true

instance (levels : Nat) (table : Table E) (request : Request E) :
    Decidable (Admissible rules database levels table request) :=
  inferInstanceAs (Decidable (_ ∧ _))

theorem Consistent.exists_top (consistent : Consistent rules table) {pk : Nat} {node : Node E}
    (hrow : table.row pk = some node) :
    exists top found, table.row top = some found ∧ found.parent = none ∧
      Below table.parentOf top pk := by
  rcases consistent.rooted hrow with ⟨count, hcount⟩
  induction hcount generalizing node with
  | @root pk hroot =>
    exact ⟨pk, node, hrow, (Table.parentOf_row hrow).symm.trans hroot,
      Relation.ReflTransGen.refl⟩
  | @step pk above count habove _ ih =>
    rcases consistent.closed hrow ((Table.parentOf_row hrow).symm.trans habove) with
      ⟨parent, hparent⟩
    rcases ih hparent with ⟨top, found, htop, hnone, hbelow⟩
    exact ⟨top, found, htop, hnone, hbelow.tail habove⟩

theorem partsLawful (lawful : Lawful rules) (consistent : Consistent rules table)
    (hrows : exists pk node, table.row pk = some node) (name : Text) (parent : Option Nat) :
    PartsLawful rules table parent (parentParts rules name) := by
  unfold parentParts
  split
  · refine ⟨?_, ?_, ?_⟩
    · exact fun part hmem => lawful.parts_plain _ part (dropLast_subset _ hmem)
    · exact fun part hmem => lawful.parts_blank _ part (dropLast_subset _ hmem)
    · intro _ part hhead hblank hnamed
      -- a first part without a name is the top node
      rcases hrows with ⟨pk, found, hrow⟩
      rcases consistent.exists_top hrow with ⟨top, topNode, htop, hnone, _⟩
      have hmem : Sigma.mk top topNode ∈ table.named part none := by
        rw [lawful.parts_first name part hhead hblank]
        exact Table.mem_named.mpr ⟨htop, (consistent.top htop hnone).left, hnone⟩
      rw [hnamed] at hmem
      cases hmem
  · exact ⟨fun _ hmem => absurd hmem not_mem_nil, fun _ hmem => absurd hmem not_mem_nil,
      fun _ _ hhead => absurd hhead (Option.some_ne_none _ ∘ Eq.symm)⟩

/-- A name was taken apart into the node's own and those of its parents. -/
structure SplitInto (rules : Rules E) (table : Table E) (name : Text) (node split : Node E)
    (table' : Table E) : Prop extends Grown rules node.extra table table' where
  extra : split.extra = node.extra
  fullName : split.fullName = node.fullName
  depth : split.depth = node.depth
  own : OwnName split
  target : rules.join split.name (fullNameOf table' split.parent) =
    targetName rules table name node.parent
  leads : forall {pk found}, table'.row pk = some found -> table.row pk = none ->
    exists last, split.parent = some last ∧ Below table'.parentOf pk last
  top : split.parent = none -> strip split.name = [] -> strip name = [] ∧ node.parent = none

theorem splitName_split (database : Database E) (lawful : Lawful rules) (consistent : Consistent rules table)
    (hrows : exists pk node, table.row pk = some node) (loaderLevels levels : Nat)
    (nested : Saver E) (name : Text) (node : Node E)
    (hown : (ownPart rules name).getLast? ≠ some '\n') :
    match splitName rules (rules.postInit loaderLevels nested) (save rules database levels)
        { node with name := strip name } table with
    | .ok split table' => SplitInto rules table name node split table'
    | .error _ table' => Grown rules node.extra table table' := by
  by_cases hsplit : strip name ≠ [] ∧ rules.separator ∈ strip name
  case neg =>
    rw [splitName, if_neg hsplit]
    have hreached := reached_nil consistent node.extra node.parent
    exact
      { toGrown := hreached.toGrown
        extra := rfl
        fullName := rfl
        depth := rfl
        own := ownName_strip { node with name }
        target := by rw [targetName, ownPart, parentParts, if_neg hsplit, if_neg hsplit]; rfl
        leads := hreached.leads
        top := fun hparent hname => ⟨strip_eq_nil_of_strip hname, hparent⟩ }
  case pos =>
    have hparts : parentParts rules name = (rules.parts (strip name)).dropLast := by
      rw [parentParts, if_pos hsplit]
    have hlawful := partsLawful lawful consistent hrows name node.parent
    rw [hparts] at hlawful
    have hloop := findParents_reached database lawful consistent loaderLevels levels nested
      node.extra hlawful
    rw [splitName, if_pos hsplit, bind_apply]
    cases hresult : findParents rules (rules.postInit loaderLevels nested)
        (save rules database levels) node.extra node.parent
        (rules.parts (strip name)).dropLast table with
    | error raised table' =>
      rw [hresult] at hloop
      exact hloop
    | ok parent' table' =>
      rw [hresult] at hloop
      cases hlast : (rules.parts (strip name)).getLast? with
      | none => exact hloop.toGrown
      | some own =>
        have hpart : ownPart rules name = own := by
          rw [ownPart, if_pos hsplit, hlast]
          rfl
        have hsingle : parent' = none -> strip own ≠ [] := by
          intro hnone
          have hnil := hloop.top hnone
          apply lawful.parts_own (strip name) own hsplit.right
          rw [← dropLast_append_getLast? own hlast, hnil]
          rfl
        rw [hpart] at hown
        exact
          { toGrown := hloop.toGrown
            extra := rfl
            fullName := rfl
            depth := rfl
            own := ⟨hown, fun hnone hname => absurd hname (hsingle hnone)⟩
            target := by rw [targetName, hpart, hparts, hloop.fullName]
            leads := hloop.leads
            top := fun hnone hname => absurd hname (hsingle hnone) }

inductive Origin (rules : Rules E) (table : Table E) (request : Request E) (pk : Nat)
    (node : Node E) : Prop where
  | stored {before : Node E} (hrow : table.row pk = some before)
      (hextra : Settles rules before.extra node.extra) (hplace : node = before ∨ 2 ≤ node.depth)
  | created (hparent : node.parent ≠ none)
      (hextra : Settles rules (rules.parentExtra request.extra) node.extra)
  | top (hparent : node.parent = none) (hname : strip request.name = [])
      (hrequest : request.parent = none)
      (htarget : forall other, request.target = some other ->
        exists before, table.row pk = some before ∧ before.parent = none)
      (hextra : Settles rules request.extra node.extra)
  | placed (hparent : node.parent ≠ none)
      (hfull : node.fullName = targetName rules table request.name request.parent)
      (hextra : Settles rules request.extra node.extra)

structure Stepped (rules : Rules E) (table : Table E) (request : Request E) (table' : Table E) :
    Prop where
  consistent : Consistent rules table'
  kept : forall {pk node}, table.row pk = some node -> exists kept, table'.row pk = some kept
  origin : forall {pk node}, table'.row pk = some node -> Origin rules table request pk node

variable {request : Request E}

theorem Grown.stepped (h : Grown rules request.extra table table') :
    Stepped rules table request table' where
  consistent := h.consistent
  kept hrow := ⟨_, h.kept hrow⟩
  origin hrow := by
    rcases h.created hrow with hstored | ⟨hparent, hextra⟩
    · exact Origin.stored hstored Relation.ReflTransGen.refl (Or.inl rfl)
    · exact Origin.created hparent hextra

theorem SplitInto.stepped_added {middle : Table E} {node split saved : Node E} {pk : Nat}
    (hsplit : SplitInto rules table request.name node split middle)
    (hadded : Added rules middle split pk saved table') (htarget : request.target = none)
    (hparent : node.parent = request.parent) (hextra : node.extra = request.extra) :
    Stepped rules table request table' := by
  have hsettles : Settles rules request.extra saved.extra :=
    Relation.ReflTransGen.single ⟨none, by rw [hadded.extra, hsplit.extra, hextra]⟩
  have hgrown := (hextra ▸ hsplit.toGrown).stepped
  constructor
  case consistent => exact hadded.consistent
  case kept =>
    intro other found hfound
    exact ⟨found, hadded.kept (hsplit.kept hfound)⟩
  case origin =>
    intro other found hfound
    rw [hadded.hrows] at hfound
    split at hfound
    · cases hfound
      rcases hadded.fullName with ⟨hnone, hname, _⟩ | ⟨above, parent, habove, hrow, hfull⟩
      · rcases hsplit.top hnone (by rw [hname]; rfl) with ⟨hblank, htop⟩
        refine Origin.top (hadded.parent.trans hnone) hblank (hparent ▸ htop) ?_ hsettles
        intro key hkey
        rw [htarget] at hkey
        cases hkey
      · refine Origin.placed ?_ ?_ hsettles
        · rw [hadded.parent, habove]
          exact Option.some_ne_none above
        · rw [hfull, ← hparent, ← hsplit.target, habove, fullNameOf_row hrow]
    · exact hgrown.origin hfound

theorem SplitInto.stepped_rewritten {middle : Table E} {node split saved old : Node E} {pk : Nat}
    (hsplit : SplitInto rules table request.name node split middle)
    (hrewritten : Rewritten rules middle pk split saved table')
    (consistent : Consistent rules table) (hrow : table.row pk = some old)
    (hdepth : node.depth = old.depth) (hparent : node.parent = request.parent)
    (hextra : node.extra = request.extra) : Stepped rules table request table' := by
  have hsettles : Settles rules request.extra saved.extra :=
    Relation.ReflTransGen.single ⟨some pk, by rw [hrewritten.extra, hsplit.extra, hextra]⟩
  have hgrown := (hextra ▸ hsplit.toGrown).stepped
  constructor
  case consistent => exact hrewritten.consistent
  case kept =>
    intro other found hfound
    exact hrewritten.kept (hsplit.kept hfound)
  case origin =>
    intro other found hfound
    by_cases heq : other = pk
    · rw [heq, hrewritten.hrow] at hfound
      cases hfound
      rcases hrewritten.place with ⟨hnone, hzero, hname, htop⟩ |
        ⟨above, parent, habove, habove_row, _, hsaved, hfull⟩
      · rcases hsplit.top hnone hname with ⟨hblank, hnode⟩
        have hold : old.parent = none :=
          consistent.toShape.top_of_depth hrow (hdepth.symm.trans (hsplit.depth.symm.trans hzero))
        exact Origin.top htop hblank (hparent ▸ hnode)
          (fun _ _ => ⟨old, heq ▸ hrow, hold⟩) hsettles
      · refine Origin.placed ?_ ?_ hsettles
        · rw [hsaved]
          exact Option.some_ne_none above
        · rw [hfull, ← hparent, ← hsplit.target, habove, fullNameOf_row habove_row]
    · rcases hrewritten.others other found heq hfound with ⟨before, hbefore, hsame, hplace⟩
      rcases hsplit.created hbefore with hstored | ⟨hchild, hcreated⟩
      · refine Origin.stored hstored hsame ?_
        rcases hplace with hfound_eq | hdeep
        · exact Or.inl hfound_eq
        · exact Or.inr hdeep
      · rw [hextra] at hcreated
        refine Origin.created ?_ (hcreated.trans hsame)
        rcases hplace with hfound_eq | hdeep
        · rw [hfound_eq]
          exact hchild
        · intro hnone
          rw [(hrewritten.consistent.top hfound hnone).right.right] at hdeep
          cases hdeep

theorem save_stepped (request : Request E) (lawful : Lawful rules) (consistent : Consistent rules table)
    (hrows : exists pk node, table.row pk = some node) {levels : Nat} {pk : Option Nat}
    {node : Node E} (hname : node.name = request.name) (hextra : node.extra = request.extra)
    (hown : (ownPart rules request.name).getLast? ≠ some '\n')
    (hsaved : forall less split middle, levels = less + 1 ->
      rules.checkFirst split.extra = .ok () ->
      SplitInto rules table request.name node split middle ->
      match saveNode rules database (rules.postInit less (save rules database less))
          (save rules database less) pk split middle with
      | .ok _ table' => Stepped rules table request table' | .error _ table' => table' = middle) :
    Stepped rules table request ((save rules database levels pk node).after table) := by
  have hrefl : Stepped rules table request table := (Grown.refl consistent request.extra).stepped
  unfold Program.after
  cases levels with
  | zero => exact hrefl
  | succ less =>
    rw [save_succ]
    cases hfirst : rules.checkFirst node.extra with
    | error raised => exact hrefl
    | ok value =>
      have hsplit := splitName_split database lawful consistent hrows less
        less (save rules database less) request.name node hown
      cases value
      simp only [bind_apply, check_ok, hname]
      cases hresult : splitName rules (rules.postInit less (save rules database less))
          (save rules database less) { node with name := strip request.name } table with
      | error raised middle =>
        rw [hresult, hextra] at hsplit
        exact hsplit.stepped
      | ok split middle =>
        rw [hresult] at hsplit
        have hnode := hsaved less split middle rfl (hsplit.extra ▸ hfirst) hsplit
        cases hnodeResult : saveNode rules database
            (rules.postInit less (save rules database less))
            (save rules database less) pk split middle with
        | ok result table' =>
          rw [hnodeResult] at hnode
          simp only [hnodeResult]
          exact hnode
        | error raised table' =>
          rw [hnodeResult] at hnode
          simp only [hnodeResult, hnode]
          exact (hextra ▸ hsplit.toGrown).stepped

theorem create_stepped (lawful : Lawful rules) (consistent : Consistent rules table)
    (hrows : exists pk node, table.row pk = some node) (levels : Nat) (name : Text)
    (parent : Option Nat) (extra : E) (hown : (ownPart rules name).getLast? ≠ some '\n') :
    Stepped rules table (.create name parent extra)
      (step rules database levels table (.create name parent extra)) := by
  unfold step
  rw [handle]
  apply save_stepped (.create name parent extra) lawful consistent hrows rfl rfl hown
  intro less split middle _ hfirst hsplit
  have hnew := saveNode_new database lawful hsplit.consistent less
    (save rules database less) (save rules database less) hsplit.own (fun _ => hsplit.fullName)
    hfirst
  cases hsaved : saveNode rules database (rules.postInit less (save rules database less))
      (save rules database less) none split middle with
  | error raised table' =>
    rw [hsaved] at hnew
    exact hnew
  | ok result table' =>
    rw [hsaved] at hnew
    exact hsplit.stepped_added hnew rfl rfl rfl

theorem SplitInto.unhindered {middle : Table E} {name : Text} {node split : Node E}
    {levels pk above : Nat} {fullName : Text}
    (hsplit : SplitInto rules table name node split middle) (habove : split.parent = some above)
    (hbelow : ¬ Below middle.parentOf pk above)
    (hfree : unhindered rules database table levels pk fullName = true) :
    unhindered rules database middle levels pk fullName = true := by
  apply unhindered_congr ?_ hfree
  intro other found hother hfound
  cases hrow : table.row other with
  | none =>
    rcases hsplit.leads hfound hrow with ⟨last, hlast, hlead⟩
    rw [habove] at hlast
    cases hlast
    exact absurd (hother.to_reflTransGen.trans hlead) hbelow
  | some before =>
    rw [← hsplit.kept hrow, hfound]

theorem edit_stepped (lawful : Lawful rules) (consistent : Consistent rules table)
    (levels pk : Nat) (name : Text) (parent : Option Nat) (extra : E)
    (hadmissible : Admissible rules database levels table (.edit pk name parent extra)) :
    Stepped rules table (.edit pk name parent extra)
      (step rules database levels table (.edit pk name parent extra)) := by
  rcases hadmissible with ⟨hown, hall⟩
  have hfree := hall pk rfl
  cases hrow : table.row pk with
  | none =>
    have hmissing : step rules database levels table (.edit pk name parent extra) = table := by
      rw [step, handle, Program.after, bind_apply, load_apply _ _ consistent.toShape, hrow]
    rw [hmissing]
    exact (Grown.refl consistent extra).stepped
  | some old =>
    have hstep : step rules database levels table (.edit pk name parent extra) =
        (save rules database levels (some pk) { old with name, parent, extra }).after table := by
      rw [step, handle, Program.after, bind_apply, load_apply _ _ consistent.toShape, hrow]
      rfl
    rw [hstep]
    apply save_stepped (.edit pk name parent extra) lawful consistent ⟨pk, old, hrow⟩ rfl rfl
      hown
    intro less split middle hlevels hfirst hsplit
    have hfollow : forall above above_row, split.parent = some above ->
        middle.row above = some above_row -> ¬ Below middle.parentOf pk above ->
        rules.join split.name above_row.fullName ≠ old.fullName ->
        unhindered rules database middle less pk
          (rules.join split.name above_row.fullName) = true := by
      intro above above_row habove habove_row hbelow hchanged
      have htarget := hsplit.target
      rw [habove, fullNameOf_row habove_row] at htarget
      apply hsplit.unhindered habove hbelow
      rw [htarget] at hchanged ⊢
      simp only [freeToRename, hrow, Bool.or_eq_true, decide_eq_true_iff] at hfree
      rcases hfree with hsame | hfree
      · exact absurd hsame hchanged
      · rw [hlevels] at hfree
        exact hfree
    have hstored := saveNode_stored database less split lawful hsplit.consistent less (save rules database less)
      (hsplit.kept hrow) hsplit.fullName hsplit.depth hsplit.own hfirst hfollow
    cases hsaved : saveNode rules database (rules.postInit less (save rules database less))
        (save rules database less) (some pk) split middle with
    | error raised table' =>
      rw [hsaved] at hstored
      exact hstored
    | ok result table' =>
      rw [hsaved] at hstored
      exact hsplit.stepped_rewritten hstored.right.left consistent hrow rfl rfl rfl

theorem step_stepped (lawful : Lawful rules) (consistent : Consistent rules table)
    (hrows : exists pk node, table.row pk = some node) (levels : Nat)
    (hadmissible : Admissible rules database levels table request) :
    Stepped rules table request (step rules database levels table request) := by
  cases request with
  | create name parent extra =>
    exact create_stepped lawful consistent hrows levels name parent extra hadmissible.left
  | edit pk name parent extra =>
    exact edit_stepped lawful consistent levels pk name parent extra hadmissible

end Icsw.NameTree
