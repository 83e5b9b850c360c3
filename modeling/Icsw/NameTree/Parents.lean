import Icsw.NameTree.Stored

/-!
# The parents in a name

The parts of a name are looked up one below the other, and a row is created for
each part that is missing.  The rows that were created lead to the parent in
which the loop ends.
-/

namespace Icsw.NameTree

open Foundation List
open Foundation.Forest

variable {E : Type} {rules : Rules E} {database : Database E} {table table' : Table E}

theorem ownName_strip (node : Node E) : OwnName { node with name := strip node.name } where
  not_newline := by
    intro hlast
    have hblank := not_whitespace_of_getLast?_strip hlast
    revert hblank
    decide
  blank := fun _ hname => strip_eq_nil_of_strip hname

theorem save_succ (levels : Nat) (pk : Option Nat) (node : Node E) :
    save rules database (levels + 1) pk node table =
      (check (rules.checkFirst node.extra) >>= fun _ =>
        splitName rules (rules.postInit levels (save rules database levels))
          (save rules database levels) { node with name := strip node.name } >>= fun split =>
        saveNode rules database (rules.postInit levels (save rules database levels))
          (save rules database levels) pk split) table := by
  simp only [save, preSave, saveNode, bind_assoc]

variable (database)

theorem save_plain (lawful : Lawful rules)
    (consistent : Consistent rules table) (levels : Nat) (node : Node E) (hfull : node.parent = none -> node.fullName = [])
    (hplain : rules.separator ∉ node.name) :
    match save rules database levels none node table with
    | .ok result table' =>
      Added rules table { node with name := strip node.name } result.1 result.2 table'
    | .error _ table' => table' = table := by
  cases levels with
  | zero => rfl
  | succ levels =>
    have hstrip : rules.separator ∉ strip node.name := fun hmem => hplain (mem_of_mem_strip hmem)
    rw [save_succ]
    cases hfirst : rules.checkFirst node.extra with
    | error raised => rfl
    | ok value =>
      rw [splitName_plain hstrip, pure_bind, bind_apply, check_ok]
      exact saveNode_new database lawful consistent levels _ _ (ownName_strip node) hfull hfirst

variable {pk : Nat}

theorem Consistent.name_tidy (lawful : Lawful rules) (consistent : Consistent rules table)
    {node : Node E} (hrow : table.row pk = some node) :
    strip node.name = node.name ∧ rules.separator ∉ node.name ∧
      node.name.getLast? ≠ some '\n' := by
  cases hparent : node.parent with
  | none =>
    rw [(consistent.top hrow hparent).left]
    exact ⟨rfl, not_mem_nil, by decide⟩
  | some above =>
    have hlegal := consistent.legal hrow hparent
    exact ⟨lawful.strip_legal hlegal, lawful.separator_not_mem hlegal,
      lawful.not_newline hlegal⟩

theorem save_extra (lawful : Lawful rules)
    (consistent : Consistent rules table) (levels : Nat) {old : Node E} (hrow : table.row pk = some old) (extra : E) :
    match save rules database levels (some pk) { old with extra } table with
    | .ok _ table' => Consistent rules table' ∧ exists saved, table' = table.update pk saved ∧
        saved.extra = rules.settle (some pk) extra
    | .error _ table' => table' = table := by
  cases levels with
  | zero => rfl
  | succ levels =>
    rcases consistent.name_tidy lawful hrow with ⟨hstrip, hplain, hlast⟩
    rw [save_succ]
    cases hfirst : rules.checkFirst extra with
    | error raised => rfl
    | ok value =>
      have hjoin : forall above parent, old.parent = some above ->
          table.row above = some parent ->
          rules.join old.name parent.fullName = old.fullName := by
        intro above parent habove hparent
        rcases consistent.placed hrow above habove with ⟨parent', hparent', hfull, _⟩
        rw [hparent] at hparent'
        cases hparent'
        exact hfull.symm
      have hstored := saveNode_stored database levels { old with extra } lawful consistent levels (save rules database levels)
        hrow rfl rfl ⟨hlast, fun hnone _ => (consistent.top hrow hnone).left⟩ hfirst
        (fun above parent habove hparent _ hchanged =>
          absurd (hjoin above parent habove hparent) hchanged)
      have hsplit : splitName rules (rules.postInit levels (save rules database levels))
          (save rules database levels) { old with extra } = pure { old with extra } :=
        splitName_plain hplain
      cases value
      simp only [hstrip, hsplit, pure_bind, bind_apply, check_ok]
      cases hresult : saveNode rules database
          (rules.postInit levels (save rules database levels)) (save rules database levels)
          (some pk) { old with extra } table with
      | error raised table' =>
        rw [hresult] at hstored
        exact hstored
      | ok result table' =>
        rw [hresult] at hstored
        rcases hstored with ⟨_, hrewritten, hupdate⟩
        refine ⟨hrewritten.consistent, result.2, hupdate ?_, hrewritten.extra⟩
        rcases hrewritten.place with ⟨hnone, _, _, hsaved⟩ |
          ⟨above, parent, habove, hparent, _, _, hfull⟩
        · rw [(hrewritten.consistent.top hrewritten.hrow hsaved).right.left,
            (consistent.top hrow hnone).right.left]
        · rw [hfull]
          exact hjoin above parent habove hparent

theorem save_columns (lawful : Lawful rules)
    (consistent : Consistent rules table) (levels : Nat) {old : Node E}
    (hrow : table.row pk = some old) (extra : E) {result : Nat × Node E}
    (hsaved : save rules database levels (some pk) { old with extra } table = .ok result table') :
    result = (pk, { old with extra := rules.settle (some pk) extra }) ∧
      table' = table.update pk { old with extra := rules.settle (some pk) extra } := by
  cases levels with
  | zero => cases hsaved
  | succ levels =>
    rcases consistent.name_tidy lawful hrow with ⟨hstrip, hplain, hlast⟩
    have hsplit : splitName rules (rules.postInit levels (save rules database levels))
        (save rules database levels) { old with extra } = pure { old with extra } :=
      splitName_plain hplain
    have hsettle := keeps_settleNode levels (save rules database levels) consistent.toShape
      (some pk) { old with extra } table rfl
    rw [save_succ] at hsaved
    cases hfirst : rules.checkFirst extra with
    | error raised =>
      rw [hfirst] at hsaved
      cases hsaved
    | ok value =>
      cases value
      simp only [hfirst, hstrip, hsplit, pure_bind, bind_apply, check_ok, saveNode] at hsaved
      cases hresult : settleNode rules (rules.postInit levels (save rules database levels))
          (some pk) { old with extra } table with
      | error raised between =>
        rw [hresult] at hsaved
        cases hsaved
      | ok settled between =>
        rw [hresult] at hsettle hsaved
        rcases hsettle with ⟨heq, haccepted⟩
        have hsettled : settled = ({ old with extra := rules.settle (some pk) extra }, false) := by
          cases haccepted with
          | top hparent hzero hname => rfl
          | @below above parent h =>
            rcases consistent.placed hrow above h.hparent with
              ⟨parent', hparent', hfull, hdepth, _⟩
            rw [h.hrow] at hparent'
            cases hparent'
            unfold below
            simp only [← hfull, ← hdepth, ne_eq, not_true_eq_false, decide_false]
        rw [hsettled, heq] at hsaved
        simp only [write, bind_apply, if_apply] at hsaved
        by_cases hfits : database.fits old.name old.fullName
            (rules.settle (some pk) extra) = true
        · simp only [if_pos hfits] at hsaved
          cases hsaved
          exact ⟨rfl, rfl⟩
        · simp only [if_neg hfits] at hsaved
          cases hsaved

def fullNameOf (table : Table E) (parent : Option Nat) : Text :=
  ((parent.bind table.row).map Node.fullName).getD []

def reach (rules : Rules E) (fullName : Text) (parts : List Text) : Text :=
  parts.foldl (fun full part => rules.join (strip part) full) fullName

/-- Rows were created below others. -/
structure Grown (rules : Rules E) (extra : E) (table table' : Table E) : Prop where
  consistent : Consistent rules table'
  kept : forall {pk node}, table.row pk = some node -> table'.row pk = some node
  created : forall {pk node}, table'.row pk = some node -> table.row pk = some node ∨
    (node.parent ≠ none ∧ Settles rules (rules.parentExtra extra) node.extra)

/-- All rows that were created lead to the parent in which the loop ended. -/
structure Reached (rules : Rules E) (extra : E) (table table' : Table E) (parts : List Text)
    (parent parent' : Option Nat) : Prop extends Grown rules extra table table' where
  fullName : fullNameOf table' parent' = reach rules (fullNameOf table parent) parts
  start : forall above, parent = some above ->
    exists last, parent' = some last ∧ Below table'.parentOf above last
  leads : forall {pk node}, table'.row pk = some node -> table.row pk = none ->
    exists last, parent' = some last ∧ Below table'.parentOf pk last
  top : parent' = none -> parts = []

theorem Grown.refl (consistent : Consistent rules table) (extra : E) :
    Grown rules extra table table where
  consistent := consistent
  kept := id
  created := Or.inl

variable {extra : E}

theorem Grown.trans {middle : Table E} (hfirst : Grown rules extra table middle)
    (hsecond : Grown rules extra middle table') : Grown rules extra table table' where
  consistent := hsecond.consistent
  kept hrow := hsecond.kept (hfirst.kept hrow)
  created hrow := by
    rcases hsecond.created hrow with hmiddle | hnew
    · exact hfirst.created hmiddle
    · exact Or.inr hnew

theorem fullNameOf_row {node : Node E} (hrow : table.row pk = some node) :
    fullNameOf table (some pk) = node.fullName := by
  rw [fullNameOf, Option.bind_some, hrow]
  rfl

theorem findPart_apply (shape : Shape rules table) (levels : Nat) (nested : Saver E) (part : Text)
    (parent : Option Nat) :
    findPart (rules.postInit levels nested) part parent table =
      match table.named part parent with
      | [] => .ok none table
      | [entry] => .ok (some entry.1) table
      | _ => .error .multipleObjectsReturned table := by
  unfold findPart
  rw [bind_apply, get_apply]
  cases hnamed : table.named part parent with
  | nil => simp only [hnamed, pure_apply]
  | cons entry rest =>
    cases rest with
    | nil =>
      have hmem : entry ∈ table.named part parent := by
        rw [hnamed]
        exact mem_singleton.mpr rfl
      simp only [hnamed, bind_apply, shape.loads (Table.mem_named.mp hmem).left levels nested,
        pure_apply]
    | cons second rest => simp only [hnamed, throw_apply]

variable {parent : Option Nat} {part : Text}

theorem fullNameOf_named (lawful : Lawful rules) (consistent : Consistent rules table)
    {entry : Entry E} (hblank : strip part = [] -> rules.join [] [] = [])
    (hmem : entry ∈ table.named part parent) :
    fullNameOf table (some entry.1) = rules.join (strip part) (fullNameOf table parent) := by
  rcases Table.mem_named.mp hmem with ⟨hrow, hname, hparent⟩
  rw [fullNameOf_row hrow]
  cases parent with
  | none =>
    rcases consistent.top hrow hparent with ⟨hnil, hfull, _⟩
    have hpart : part = [] := hname.symm.trans hnil
    rw [hfull, hpart]
    exact (hblank (by rw [hpart]; rfl)).symm
  | some above =>
    rcases consistent.placed hrow above hparent with ⟨above_row, habove, hfull, _⟩
    have hlegal := consistent.legal hrow hparent
    rw [hfull, fullNameOf_row habove, ← hname, lawful.strip_legal hlegal]

theorem Added.fullNameOf {node saved : Node E} (h : Added rules table node pk saved table')
    (hblank : node.name = [] -> rules.join [] [] = []) :
    fullNameOf table' (some pk) = rules.join node.name (fullNameOf table node.parent) := by
  have hrow : table'.row pk = some saved := by rw [h.hrows, if_pos rfl]
  rw [fullNameOf_row hrow]
  rcases h.fullName with ⟨hparent, hname, hfull⟩ | ⟨above, parent, hparent, habove, hfull⟩
  · rw [hfull, hparent, hname]
    exact (hblank hname).symm
  · rw [hfull, hparent, fullNameOf_row habove]

theorem Added.kept {node saved : Node E} (h : Added rules table node pk saved table')
    {other : Nat} {found : Node E} (hfound : table.row other = some found) :
    table'.row other = some found := by
  have hne : pk ≠ other := by
    intro heq
    rw [← heq, h.hpk, table.row_nextPk] at hfound
    cases hfound
  rw [h.hrows, if_neg hne, hfound]

theorem Grown.below_mono (h : Grown rules extra table table') {top key : Nat}
    (hbelow : Below table.parentOf top key) : Below table'.parentOf top key := by
  refine Relation.ReflTransGen.mono ?_ _ _ hbelow
  intro above child hchild
  rcases Table.parentOf_eq_some.mp hchild with ⟨node, hrow, hparent⟩
  exact Table.parentOf_eq_some.mpr ⟨node, h.kept hrow, hparent⟩

theorem Reached.cons {middle : Table E} {rest : List Text} {parent parent' : Option Nat}
    (hfirst : Reached rules extra table middle [part] parent (some pk))
    (hrest : Reached rules extra middle table' rest (some pk) parent') :
    Reached rules extra table table' (part :: rest) parent parent' := by
  rcases hrest.start pk rfl with ⟨last, hlast, hpk⟩
  have hlead : forall {key}, (exists end_, some pk = some end_ ∧ Below middle.parentOf key end_) ->
      exists last, parent' = some last ∧ Below table'.parentOf key last := by
    rintro key ⟨reached, heq, hbelow⟩
    cases heq
    exact ⟨last, hlast, (hrest.toGrown.below_mono hbelow).trans hpk⟩
  constructor
  case toGrown => exact hfirst.toGrown.trans hrest.toGrown
  case fullName =>
    rw [hrest.fullName, hfirst.fullName]
    rfl
  case start =>
    intro above habove
    exact hlead (hfirst.start above habove)
  case leads =>
    intro key node hrow hnew
    cases hmiddle : middle.row key with
    | none => exact hrest.leads hrow hmiddle
    | some found => exact hlead (hfirst.leads hmiddle hnew)
  case top =>
    intro hnone
    rw [hlast] at hnone
    cases hnone

theorem reached_found (lawful : Lawful rules) (consistent : Consistent rules table) (extra : E)
    {entry : Entry E} (hblank : strip part = [] -> rules.join [] [] = [])
    (hmem : entry ∈ table.named part parent) :
    Reached rules extra table table [part] parent (some entry.1) := by
  rcases Table.mem_named.mp hmem with ⟨hrow, _, hparent⟩
  constructor
  case toGrown => exact Grown.refl consistent extra
  case fullName => exact fullNameOf_named lawful consistent hblank hmem
  case start =>
    intro above habove
    exact ⟨entry.1, rfl, Relation.ReflTransGen.single
      ((Table.parentOf_row hrow).trans (hparent.trans habove))⟩
  case leads =>
    intro key node hrow hnew
    rw [hrow] at hnew
    cases hnew
  case top => exact fun hnone => absurd hnone (Option.some_ne_none _)

theorem reached_added {saved : Node E}
    (hblank : strip part = [] -> rules.join [] [] = []) (hparent : parent = none -> strip part ≠ [])
    (h : Added rules table
      { name := strip part, fullName := [], parent, depth := 0, extra := rules.parentExtra extra }
      pk saved table') : Reached rules extra table table' [part] parent (some pk) := by
  have hrow : table'.row pk = some saved := by rw [h.hrows, if_pos rfl]
  constructor
  case toGrown =>
    constructor
    case consistent => exact h.consistent
    case kept => exact h.kept
    case created =>
      intro other node hother
      rw [h.hrows] at hother
      split at hother
      · cases hother
        right
        constructor
        · rw [h.parent]
          intro hnone
          rcases h.fullName with ⟨_, hname, _⟩ | ⟨above, _, habove, _⟩
          · exact hparent hnone hname
          · exact absurd (habove.symm.trans hnone) (Option.some_ne_none above)
        · exact Relation.ReflTransGen.single ⟨none, h.extra⟩
      · exact Or.inl hother
  case fullName => exact h.fullNameOf hblank
  case start =>
    intro above habove
    exact ⟨pk, rfl, Relation.ReflTransGen.single
      ((Table.parentOf_row hrow).trans (h.parent.trans habove))⟩
  case leads =>
    intro key node hkey hnew
    rw [h.hrows] at hkey
    split at hkey
    · rename_i heq
      exact ⟨pk, rfl, heq ▸ Relation.ReflTransGen.refl⟩
    · rw [hkey] at hnew
      cases hnew
  case top => exact fun hnone => absurd hnone (Option.some_ne_none _)

theorem reached_nil (consistent : Consistent rules table) (extra : E) (parent : Option Nat) :
    Reached rules extra table table [] parent parent := by
  constructor
  case toGrown => exact Grown.refl consistent extra
  case fullName => rfl
  case start => exact fun above habove => ⟨above, habove, Relation.ReflTransGen.refl⟩
  case leads =>
    intro key node hrow hnew
    rw [hrow] at hnew
    cases hnew
  case top => exact fun _ => rfl

/-- The parts can be looked up and created as names of nodes. -/
structure PartsLawful (rules : Rules E) (table : Table E) (parent : Option Nat)
    (parts : List Text) : Prop where
  plain : forall part, part ∈ parts -> rules.separator ∉ part
  blank : forall part, part ∈ parts -> strip part = [] -> rules.join [] [] = []
  first : parent = none -> forall part, parts.head? = some part -> strip part = [] ->
    table.named part none ≠ []

theorem PartsLawful.tail {rest : List Text}
    (h : PartsLawful rules table parent (part :: rest)) (middle : Table E) (pk : Nat) :
    PartsLawful rules middle (some pk) rest where
  plain other hmem := h.plain other (mem_cons_of_mem part hmem)
  blank other hmem := h.blank other (mem_cons_of_mem part hmem)
  first hnone := absurd hnone (Option.some_ne_none pk)

/-- A part is found or created and the loop goes on below it, or the table stays. -/
theorem findParents_cons (lawful : Lawful rules)
    (consistent : Consistent rules table) (loaderLevels levels : Nat) (nested : Saver E) (extra : E)
    {rest : List Text} (hparts : PartsLawful rules table parent (part :: rest)) :
    (exists raised, findParents rules (rules.postInit loaderLevels nested)
        (save rules database levels) extra parent (part :: rest) table = .error raised table) ∨
      exists pk middle, findParents rules (rules.postInit loaderLevels nested)
          (save rules database levels) extra parent (part :: rest) table =
        findParents rules (rules.postInit loaderLevels nested) (save rules database levels) extra
          (some pk) rest middle ∧
        ((middle = table ∧ exists node, ⟨pk, node⟩ ∈ table.named part parent) ∨
          ((parent = none -> strip part ≠ []) ∧ exists saved, Added rules table
            { name := strip part, fullName := [], parent, depth := 0,
              extra := rules.parentExtra extra } pk saved middle)) := by
  rw [findParents, bind_apply, findPart_apply consistent.toShape]
  cases hnamed : table.named part parent with
  | cons entry more =>
    cases more with
    | cons second more => exact Or.inl ⟨_, rfl⟩
    | nil => exact Or.inr ⟨entry.1, table, rfl, Or.inl ⟨rfl, entry.2, mem_cons_self⟩⟩
  | nil =>
    have hsaved := save_plain database lawful consistent levels
      { name := part, fullName := [], parent, depth := 0, extra := rules.parentExtra extra }
      (fun _ => rfl) (hparts.plain part mem_cons_self)
    simp only [bind_apply, EStateM.adaptExcept]
    cases hresult : save rules database levels none
        { name := part, fullName := [], parent, depth := 0,
          extra := rules.parentExtra extra } table with
    | error raised table' =>
      rw [hresult] at hsaved
      exact Or.inl ⟨_, congrArg _ hsaved⟩
    | ok result middle =>
      rw [hresult] at hsaved
      refine Or.inr ⟨result.1, middle, rfl, Or.inr ⟨fun hnone hstrip => ?_, _, hsaved⟩⟩
      rw [hnone] at hnamed
      exact hparts.first hnone part rfl hstrip hnamed

theorem findParents_reached (lawful : Lawful rules)
    (consistent : Consistent rules table) (loaderLevels levels : Nat) (nested : Saver E) (extra : E)
    {parts : List Text} (hparts : PartsLawful rules table parent parts) :
    match findParents rules (rules.postInit loaderLevels nested) (save rules database levels) extra
        parent parts table with
    | .ok parent' table' => Reached rules extra table table' parts parent parent'
    | .error _ table' => Grown rules extra table table' := by
  induction parts generalizing table parent with
  | nil => exact reached_nil consistent extra parent
  | cons part rest ih =>
    have hpart := hparts.blank part mem_cons_self
    rcases findParents_cons database lawful consistent loaderLevels levels nested extra hparts with
      ⟨raised, heq⟩ | ⟨pk, middle, heq, hstep⟩
    · rw [heq]
      exact Grown.refl consistent extra
    have hreached : Reached rules extra table middle [part] parent (some pk) := by
      rcases hstep with ⟨rfl, node, hmem⟩ | ⟨hparent, saved, hadded⟩
      · exact reached_found lawful consistent extra hpart hmem
      · exact reached_added hpart hparent hadded
    have hrest := ih hreached.consistent (hparts.tail middle pk)
    rw [heq]
    cases hresult : findParents rules (rules.postInit loaderLevels nested)
        (save rules database levels) extra (some pk) rest middle with
    | ok parent' table' =>
      rw [hresult] at hrest
      exact hreached.cons hrest
    | error raised table' =>
      rw [hresult] at hrest
      exact hreached.toGrown.trans hrest

end Icsw.NameTree
