import Icsw.NameTree.CategoryRuns
import Icsw.NameTree.DomainTree

/-!
# Rejected saves

The parents that a name needs are created one by one, before the node itself is checked and
stored.  A save that is rejected leaves the ones that have been created so far; all other rows
stay as they are.
-/

namespace Icsw.NameTree

open Foundation List
open Foundation.Forest

variable {E : Type} {rules : Rules E} {database : Database E} {table table' : Table E}

def storeNode (rules : Rules E) (database : Database E) (loader : Loader E) (save : Saver E)
    (pk : Option Nat) (node : Node E) : Program (Table E) (Nat × Node E × Bool) := do
  let (settled, changed) ← preSave rules loader save pk node
  let saved ← write database pk settled
  pure (saved, settled, changed)

/-- A save until the node itself is stored. -/
def storeUpTo (rules : Rules E) (database : Database E) :
    Nat -> Option Nat -> Node E -> Program (Table E) (Nat × Node E × Bool)
  | 0, _, _ => throw .recursionLimit
  | levels + 1, pk, node =>
    storeNode rules database (rules.postInit levels (save rules database levels))
      (save rules database levels) pk node

def storeRequest (rules : Rules E) (database : Database E) (levels : Nat) :
    Request E -> Program (Table E) (Nat × Node E × Bool)
  | .create name parent extra =>
    storeUpTo rules database levels none { name, fullName := [], parent, depth := 0, extra }
  | .edit pk name parent extra => do
      let node ← load (rules.postInit levels (save rules database levels)) pk
      storeUpTo rules database levels (some pk) { node with name, parent, extra }

def spreadNames (rules : Rules E) (database : Database E) (levels : Nat)
    (stored : Nat × Node E × Bool) : Program (Table E) (Nat × Node E) := do
  match levels with
  | 0 => pure (stored.1, stored.2.1)
  | less + 1 => do
      postSave database (rules.postInit less (save rules database less))
        (save rules database less) stored.1 stored.2.2
      pure (stored.1, stored.2.1)

theorem save_eq (levels : Nat) (pk : Option Nat) (node : Node E) :
    save rules database levels pk node =
      storeUpTo rules database levels pk node >>= spreadNames rules database levels := by
  cases levels with
  | zero => rfl
  | succ less => simp only [save, storeUpTo, storeNode, spreadNames, bind_assoc, pure_bind]

theorem handle_eq (levels : Nat) (request : Request E) :
    handle rules database levels request =
      storeRequest rules database levels request >>= spreadNames rules database levels := by
  cases request with
  | create name parent extra => exact save_eq levels none _
  | edit pk name parent extra =>
    simp only [handle, storeRequest, save_eq, bind_assoc]

theorem write_apply (database : Database E) (pk : Option Nat) (node : Node E) (table : Table E) :
    write database pk node table =
      if database.fits node.name node.fullName node.extra then
        .ok (pk.getD table.nextPk) (pk.elim (table.add node) fun self => table.update self node)
      else .error .dataError table := by
  unfold write
  rw [if_apply]
  cases pk with
  | none => rfl
  | some self => rfl

structure Intermediate (rules : Rules E) (extra : E) (full : Text) (parts : List Text)
    (node : Node E) : Prop where
  parent : node.parent ≠ none
  extra : node.extra = rules.settle none (rules.parentExtra extra)
  path : exists taken, taken ≠ [] ∧ taken <+: parts ∧ node.fullName = reach rules full taken

/-- All parts but the last are there. -/
def NoneMissing (table : Table E) : Option Nat -> List Text -> Prop
  | _, [] => True
  | parent, part :: rest =>
    exists pk node, table.named part parent = [⟨pk, node⟩] ∧ NoneMissing table (some pk) rest

/-- The rows that were stored stay, and what is new has been created for the name. -/
structure Leaves (rules : Rules E) (table : Table E) (request : Request E) (table' : Table E) :
    Prop where
  kept : forall {pk node}, table.row pk = some node -> table'.row pk = some node
  created : forall {pk node}, table'.row pk = some node -> table.row pk = some node ∨
    Intermediate rules request.extra (fullNameOf table request.parent)
      (parentParts rules request.name) node
  unchanged : NoneMissing table request.parent (parentParts rules request.name) -> table' = table

variable {rest : List Text}

theorem Intermediate.cons {extra : E} {full : Text} {part : Text}
    {node : Node E} (h : Intermediate rules extra (rules.join (strip part) full) rest node) :
    Intermediate rules extra full (part :: rest) node := by
  rcases h.path with ⟨taken, _, htaken, hfull⟩
  refine ⟨h.parent, h.extra, part :: taken, cons_ne_nil _ _, ?_, hfull⟩
  exact cons_prefix_cons.mpr ⟨rfl, htaken⟩

variable {parent : Option Nat}

theorem Intermediate.of_added {extra : E} {part : Text}
    {pk : Nat} {saved : Node E} (hblank : strip part = [] -> rules.join [] [] = [])
    (hparent : parent = none -> strip part ≠ []) (h : Added rules table
      { name := strip part, fullName := [], parent, depth := 0, extra := rules.parentExtra extra }
      pk saved table') :
    Intermediate rules extra (fullNameOf table parent) (part :: rest) saved := by
  have hrow : table'.row pk = some saved := by rw [h.hrows, if_pos rfl]
  refine ⟨?_, h.extra, [part], cons_ne_nil _ _, ?_, ?_⟩
  · rw [h.parent]
    intro hnone
    rcases h.fullName with ⟨_, hname, _⟩ | ⟨above, _, habove, _⟩
    · exact hparent hnone hname
    · exact absurd (habove.symm.trans hnone) (Option.some_ne_none above)
  · exact cons_prefix_cons.mpr ⟨rfl, nil_prefix⟩
  · rw [← fullNameOf_row hrow]
    exact h.fullNameOf hblank

variable {α : Type} {between : Table E}

theorem after_ok {program : Program (Table E) α} {value : α}
    (h : program table = .ok value between) : program.after table = between := by
  rw [Program.after, h]

variable {raised : PyError}

theorem after_error {program : Program (Table E) α} (h : program table = .error raised between) :
    program.after table = between := by
  rw [Program.after, h]

variable {parts : List Text}

theorem findParents_intermediate (database : Database E) (lawful : Lawful rules)
    (consistent : Consistent rules table) (loaderLevels levels : Nat) (nested : Saver E) (extra : E)
    (hparts : PartsLawful rules table parent parts) {pk : Nat} {node : Node E}
    (hrow : ((findParents rules (rules.postInit loaderLevels nested) (save rules database levels)
      extra parent parts).after table).row pk = some node) :
    table.row pk = some node ∨
      Intermediate rules extra (fullNameOf table parent) parts node := by
  induction parts generalizing table parent with
  | nil => exact Or.inl hrow
  | cons part rest ih =>
    have hpart := hparts.blank part mem_cons_self
    unfold Program.after at hrow
    rcases findParents_cons database lawful consistent loaderLevels levels nested extra hparts with
      ⟨raised, heq⟩ | ⟨pk, middle, heq, ⟨rfl, found, hmem⟩ | ⟨hparent, saved, hadded⟩⟩
    · rw [heq] at hrow
      exact Or.inl hrow
    · rw [heq] at hrow
      rcases ih consistent (hparts.tail middle pk) hrow with hstored | hnew
      · exact Or.inl hstored
      · rw [fullNameOf_named lawful consistent hpart hmem] at hnew
        exact Or.inr hnew.cons
    · rw [heq] at hrow
      rcases ih hadded.consistent (hparts.tail middle pk) hrow with hmiddle | hnew
      · rw [hadded.hrows] at hmiddle
        split at hmiddle
        · cases hmiddle
          exact Or.inr (Intermediate.of_added hpart hparent hadded)
        · exact Or.inl hmiddle
      · rw [hadded.fullNameOf hpart] at hnew
        exact Or.inr hnew.cons

theorem findParents_found (consistent : Consistent rules table) (loaderLevels : Nat)
    (nested saver : Saver E) (extra : E) (h : NoneMissing table parent parts) :
    exists parent', findParents rules (rules.postInit loaderLevels nested) saver extra parent parts
      table = .ok parent' table := by
  induction parts generalizing parent with
  | nil => exact ⟨parent, rfl⟩
  | cons part rest ih =>
    rcases h with ⟨pk, node, hnamed, hrest⟩
    rcases ih hrest with ⟨parent', hfound⟩
    refine ⟨parent', ?_⟩
    rw [findParents, bind_apply, findPart_apply consistent.toShape, hnamed]
    exact hfound

section Request

variable {request : Request E} {node : Node E}

theorem leaves_refl (rules : Rules E) (table : Table E) (request : Request E) :
    Leaves rules table request table where
  kept := id
  created := Or.inl
  unchanged _ := rfl

theorem splitName_leaves (database : Database E) (lawful : Lawful rules)
    (consistent : Consistent rules table) (hrows : exists pk node, table.row pk = some node)
    (loaderLevels levels : Nat) (nested : Saver E) (hparent : node.parent = request.parent)
    (hextra : node.extra = request.extra) :
    let between := (splitName rules (rules.postInit loaderLevels nested)
      (save rules database levels) { node with name := strip request.name }).after table
    Consistent rules between ∧ Leaves rules table request between := by
  intro between
  by_cases hsplit : strip request.name ≠ [] ∧ rules.separator ∈ strip request.name
  · have hparts : parentParts rules request.name =
        (rules.parts (strip request.name)).dropLast := by
      rw [parentParts, if_pos hsplit]
    have hlawful := partsLawful lawful consistent hrows request.name request.parent
    have hloop := findParents_reached database lawful consistent loaderLevels levels nested
      request.extra hlawful
    have hbetween : between = (findParents rules (rules.postInit loaderLevels nested)
        (save rules database levels) request.extra request.parent
        (parentParts rules request.name)).after table := by
      show Program.after (splitName _ _ _ _) table = _
      rw [splitName, if_pos hsplit, hparent, hextra, hparts]
      unfold Program.after
      simp only [bind_apply]
      cases findParents rules (rules.postInit loaderLevels nested) (save rules database levels)
          request.extra request.parent (rules.parts (strip request.name)).dropLast table with
      | error raised middle => rfl
      | ok parent' middle =>
        cases (rules.parts (strip request.name)).getLast? with
        | none => rfl
        | some own => rfl
    have hgrown : Grown rules request.extra table between := by
      rw [hbetween]
      unfold Program.after
      cases hresult : findParents rules (rules.postInit loaderLevels nested)
          (save rules database levels) request.extra request.parent
          (parentParts rules request.name) table with
      | error raised middle =>
        rw [hresult] at hloop
        exact hloop
      | ok parent' middle =>
        rw [hresult] at hloop
        exact hloop.toGrown
    refine ⟨hgrown.consistent, hgrown.kept, ?_, ?_⟩
    · intro pk found hrow
      rw [hbetween] at hrow
      exact findParents_intermediate database lawful consistent loaderLevels levels nested
        request.extra hlawful hrow
    · intro hfound
      rcases findParents_found consistent loaderLevels nested (save rules database levels)
        request.extra hfound with ⟨parent', hresult⟩
      rw [hbetween, after_ok hresult]
  · have hbetween : between = table := by
      show Program.after (splitName _ _ _ _) table = _
      rw [splitName, if_neg hsplit]
      rfl
    rw [hbetween]
    exact ⟨consistent, leaves_refl rules table request⟩

/-- The node was accepted behind the parents that its name needed, and was then written. -/
structure StoredBehind (rules : Rules E) (table : Table E) (request : Request E)
    (pk : Option Nat) (stored : Nat × Node E × Bool) (between middle : Table E) : Prop where
  consistent : Consistent rules between
  leaves : Leaves rules table request between
  accepted : exists split, Accepted rules between pk split stored.2
  hpk : stored.1 = pk.getD between.nextPk
  written : middle = pk.elim (between.add stored.2.1) fun self => between.update self stored.2.1

theorem storeUpTo_cases (request : Request E) (node : Node E) (database : Database E)
    (lawful : Lawful rules) (consistent : Consistent rules table)
    (hrows : exists pk node, table.row pk = some node) (levels : Nat) (pk : Option Nat)
    (hname : node.name = request.name) (hparent : node.parent = request.parent) (hextra : node.extra = request.extra) :
    match storeUpTo rules database levels pk node table with
    | .error _ table' => Leaves rules table request table'
    | .ok stored middle => exists between,
        StoredBehind rules table request pk stored between middle := by
  cases levels with
  | zero => exact leaves_refl rules table request
  | succ less =>
    have hsplit := splitName_leaves database lawful consistent hrows less less
      (save rules database less) hparent hextra
    simp only [storeUpTo, storeNode, preSave, bind_apply, hname]
    cases hfirst : rules.checkFirst node.extra with
    | error refused => exact leaves_refl rules table request
    | ok value =>
      cases value
      simp only [check_ok]
      cases hresult : splitName rules (rules.postInit less (save rules database less))
          (save rules database less) { node with name := strip request.name } table with
      | error refused between =>
        rw [after_error hresult] at hsplit
        exact hsplit.right
      | ok split between =>
        rw [after_ok hresult] at hsplit
        have hsettle := keeps_settleNode less (save rules database less)
          hsplit.left.toShape pk split between rfl
        simp only
        cases hsettled : settleNode rules (rules.postInit less (save rules database less)) pk
            split between with
        | error refused after =>
          rw [hsettled] at hsettle
          exact hsettle ▸ hsplit.right
        | ok settled after =>
          rw [hsettled] at hsettle
          rcases hsettle with ⟨heq, haccepted⟩
          simp only [heq, write_apply]
          cases database.fits settled.1.name settled.1.fullName settled.1.extra with
          | false => exact hsplit.right
          | true => exact ⟨between, hsplit.left, hsplit.right, ⟨split, haccepted⟩, rfl, rfl⟩

theorem children_nextPk (consistent : Consistent rules table) {saved : Node E}
    (hsaved : saved.parent ≠ some table.nextPk) :
    (table.add saved).children table.nextPk = [] := by
  rw [eq_nil_iff_forall_not_mem]
  intro entry hmem
  rcases Table.mem_children.mp hmem with ⟨hfound, hparent⟩
  rw [table.row_add] at hfound
  split at hfound
  · cases hfound
    exact hsaved hparent
  · exact consistent.not_parent_nextPk hfound hparent

theorem Accepted.parent_ne_nextPk {split : Node E} {pk : Option Nat} {result : Node E × Bool}
    (h : Accepted rules table pk split result) : result.1.parent ≠ some table.nextPk := by
  intro hnext
  cases h with
  | top hparent _ _ =>
    have hsome : split.parent = some table.nextPk := hnext
    rw [hparent] at hsome
    cases hsome
  | below hbelow =>
    have hsome : split.parent = some table.nextPk := hnext
    have hrow := hbelow.hrow
    rw [hbelow.hparent] at hsome
    cases hsome
    rw [table.row_nextPk] at hrow
    cases hrow

variable {stored : Nat × Node E × Bool}

theorem spreadNames_new (database : Database E) (levels : Nat)
    {between middle : Table E} (h : StoredBehind rules table request none stored between middle) :
    spreadNames rules database levels stored middle = .ok (stored.1, stored.2.1) middle := by
  rcases h.accepted with ⟨split, haccepted⟩
  have hnone : middle.children stored.1 = [] := by
    rw [h.written, h.hpk]
    exact children_nextPk h.consistent haccepted.parent_ne_nextPk
  have hlisted : database.listed [] = [] := (database.listed_perm []).eq_nil
  cases levels with
  | zero => rfl
  | succ less =>
    unfold spreadNames postSave
    cases stored.2.2 with
    | false => rfl
    | true =>
      simp only [if_true, bind_apply, get_apply, hnone, hlisted, mapM_nil, pure_apply]
      rfl

theorem spreadNames_same (database : Database E) (levels : Nat)
    (hsame : stored.2.2 = false) (middle : Table E) :
    spreadNames rules database levels stored middle = .ok (stored.1, stored.2.1) middle := by
  cases levels with
  | zero => rfl
  | succ less =>
    unfold spreadNames postSave
    rw [hsame]
    rfl

end Request

/-- The node has been stored with another full name, and the nodes below it are saved next. -/
def Renames (rules : Rules E) (database : Database E) (levels : Nat) (table : Table E)
    (request : Request E) : Prop :=
  exists pk settled middle, request.target = some pk ∧
    storeRequest rules database levels request table = .ok (pk, settled, true) middle

theorem storeRequest_cases (database : Database E) (lawful : Lawful rules)
    (consistent : Consistent rules table) (hrows : exists pk node, table.row pk = some node)
    (levels : Nat) (request : Request E) :
    match storeRequest rules database levels request table with
    | .error _ table' => Leaves rules table request table'
    | .ok stored middle => exists between,
        StoredBehind rules table request request.target stored between middle := by
  cases request with
  | create name parent extra =>
    exact storeUpTo_cases (.create name parent extra) _ database lawful consistent hrows levels none
      rfl rfl rfl
  | edit pk name parent extra =>
    rw [storeRequest, bind_apply, load_apply levels (save rules database levels) consistent.toShape]
    cases table.row pk with
    | none => exact leaves_refl rules table _
    | some node =>
      exact storeUpTo_cases (.edit pk name parent extra) { node with name, parent, extra } database
        lawful consistent hrows levels (some pk) rfl rfl rfl

theorem handle_error (database : Database E) (lawful : Lawful rules)
    (consistent : Consistent rules table) (hrows : exists pk node, table.row pk = some node)
    (levels : Nat) {request : Request E}
    (h : handle rules database levels request table = .error raised table') :
    Leaves rules table request table' ∨ Renames rules database levels table request := by
  have hcases := storeRequest_cases database lawful consistent hrows levels request
  rw [handle_eq, bind_apply] at h
  cases hresult : storeRequest rules database levels request table with
  | error refused between =>
    rw [hresult] at h hcases
    cases h
    exact Or.inl hcases
  | ok stored middle =>
    rw [hresult] at h hcases
    rcases hcases with ⟨between, hbehind⟩
    cases htarget : request.target with
    | none =>
      rw [htarget] at hbehind
      simp only [spreadNames_new database levels hbehind] at h
      cases h
    | some pk =>
      have hpk : stored.1 = pk := hbehind.hpk.trans (by rw [htarget, Option.getD_some])
      cases hchanged : stored.2.2 with
      | true =>
        refine Or.inr ⟨pk, stored.2.1, middle, htarget, ?_⟩
        rw [hresult, ← hpk, ← hchanged]
      | false =>
        simp only [spreadNames_same database levels hchanged middle] at h
        cases h

/-- A save that raises leaves stored nodes alone, unless it is in the middle of a renaming. -/
def RejectionsLeave (rules : Rules E) (database : Database E) (levels : Nat) (table : Table E) :
    Prop :=
  forall request raised table', handle rules database levels request table = .error raised table' ->
    Leaves rules table request table' ∨ Renames rules database levels table request

theorem rejections_leave :
    (forall inUse database levels table, Consistent (domainTreeNodeRules inUse) table ->
        (exists pk node, table.row pk = some node) ->
          RejectionsLeave (domainTreeNodeRules inUse) database levels table) ∧
      forall database levels table, Consistent categoryRules table ->
        (exists pk node, table.row pk = some node) ->
          RejectionsLeave categoryRules database levels table := by
  constructor
  · intro inUse database levels table consistent hrows request raised table' h
    exact handle_error database (domainTreeNodeRules_lawful inUse) consistent hrows levels h
  · intro database levels table consistent hrows request raised table' h
    exact handle_error database categoryRules_lawful consistent hrows levels h

/-- A name with an illegal own part below a parent that is missing. -/
def illegalName : Request DomainColumns := .create "a!.new".toList (some 1) plainColumns

def isError {α : Type} (result : EStateM.Result PyError (Table E) α) : Bool :=
  match result with
  | .ok _ _ => false
  | .error _ _ => true

theorem exists_error {program : Program (Table E) α} (h : isError (program table) = true) :
    exists raised, program table = .error raised (program.after table) := by
  unfold Program.after
  cases hresult : program table with
  | ok value after =>
    rw [hresult] at h
    cases h
  | error raised after => exact ⟨raised, rfl⟩

theorem illegalName_leaves :
    Leaves (domainTreeNodeRules fun _ => false) (singleRoot 1 plainColumns) illegalName
      (step (domainTreeNodeRules fun _ => false) domainDatabase 40 (singleRoot 1 plainColumns)
        illegalName) := by
  have herror : isError (handle (domainTreeNodeRules fun _ => false) domainDatabase 40 illegalName
      (singleRoot 1 plainColumns)) = true := by decide +kernel
  rcases exists_error herror with ⟨raised, hraised⟩
  rcases rejections_leave.left (fun _ => false) domainDatabase 40 (singleRoot 1 plainColumns)
    (singleTop_singleRoot 1 plainColumns).toConsistent ⟨1, _, Table.row_update_self _ _ _⟩
    illegalName raised _ hraised with hleaves | ⟨pk, settled, middle, htarget, _⟩
  · exact hleaves
  · cases htarget

def RejectionChangesNothing (rules : Rules E) (database : Database E) (levels : Nat)
    (table : Table E) (request : Request E) : Prop :=
  forall raised table', handle rules database levels request table = .error raised table' ->
    forall pk, table'.row pk = table.row pk

theorem not_rejectionChangesNothing {levels : Nat} {request : Request E} (pk : Nat)
    (h : isError (handle rules database levels request table) = true)
    (hrow : (step rules database levels table request).row pk ≠ table.row pk) :
    ¬ RejectionChangesNothing rules database levels table request := by
  intro hnothing
  rcases exists_error h with ⟨raised, hraised⟩
  exact hrow (hnothing raised _ hraised pk)

/--
The parent stays behind where the own part is illegal, and a node that has been renamed stays
renamed where a node below it cannot follow.
-/
theorem rejections_change :
    ¬ RejectionChangesNothing (domainTreeNodeRules fun _ => false) domainDatabase 40
        (singleRoot 1 plainColumns) illegalName ∧
      ¬ RejectionChangesNothing categoryRules categoryDatabase 40 firstTree
        (.create "web/x!".toList (some 2) CategoryColumns.default) ∧
      ¬ RejectionChangesNothing (domainTreeNodeRules fun _ => false) domainDatabase 40
        (domainRun longName.dropLast) (.edit 2 (List.replicate 63 'f') (some 1) plainColumns) := by
  refine ⟨not_rejectionChangesNothing 2 ?_ ?_, not_rejectionChangesNothing 6 ?_ ?_,
    not_rejectionChangesNothing 2 ?_ ?_⟩
  all_goals decide +kernel

end Icsw.NameTree
