import Icsw.Foundation.Forest
import Icsw.NameTree.Model
import Mathlib.Data.List.Perm.Subperm

/-!
# The shape of a table

What a table keeps while the full names below a changed node are brought up to
date: parents exist and end at a row without one, names are legal and differ
among siblings, and loading a row leaves it as it is.
-/

namespace Icsw.NameTree

open Foundation
open Foundation.Forest

variable {E : Type}

namespace Table

variable {table : Table E} {pk other above : Nat} {node : Node E}

theorem row_add (table : Table E) (node : Node E) (pk : Nat) :
    (table.add node).row pk = if table.nextPk = pk then some node else table.row pk :=
  Dict.lookup_insert_if table.rows table.nextPk pk node

theorem row_update (table : Table E) (pk other : Nat) (node : Node E) :
    (table.update pk node).row other = if pk = other then some node else table.row other :=
  Dict.lookup_insert_if table.rows pk other node

theorem row_update_self (table : Table E) (pk : Nat) (node : Node E) :
    (table.update pk node).row pk = some node := by
  rw [row_update, if_pos rfl]

theorem row_update_ne (h : other ≠ pk) : (table.update pk node).row other = table.row other := by
  rw [row_update, if_neg (fun heq => h heq.symm)]

theorem row_nextPk (table : Table E) : table.row table.nextPk = none := by
  apply AList.lookup_eq_none.mpr
  intro hmem
  exact Nat.lt_irrefl _ (table.fresh _ hmem)

theorem parentOf_eq_some :
    table.parentOf pk = some above <->
      exists node, table.row pk = some node ∧ node.parent = some above :=
  Option.bind_eq_some_iff

theorem parentOf_row (h : table.row pk = some node) : table.parentOf pk = node.parent := by
  rw [parentOf, h]
  rfl

theorem mem_entries {entry : Entry E} :
    entry ∈ table.rows.entries <-> table.row entry.1 = some entry.2 :=
  AList.mem_lookup_iff.symm

theorem mem_children {entry : Entry E} :
    entry ∈ table.children pk <->
      table.row entry.1 = some entry.2 ∧ entry.2.parent = some pk := by
  rw [children, List.mem_filter, mem_entries, decide_eq_true_iff]

theorem mem_named {name : Text} {parent : Option Nat} {entry : Entry E} :
    entry ∈ table.named name parent <->
      table.row entry.1 = some entry.2 ∧ entry.2.name = name ∧ entry.2.parent = parent := by
  rw [named, List.mem_filter, mem_entries, decide_eq_true_iff]

theorem mem_usedNames {name : Text} {self : Option Nat} :
    name ∈ table.usedNames self node <->
      exists other used, table.row other = some used ∧ some other ≠ self ∧
        used.depth = node.depth ∧ used.parent = node.parent ∧ used.name = name := by
  rw [usedNames, List.mem_map]
  constructor
  · rintro ⟨⟨other, used⟩, hmem, hname⟩
    rw [List.mem_filter, mem_entries, decide_eq_true_iff] at hmem
    exact ⟨other, used, hmem.left, hmem.right.left, hmem.right.right.left,
      hmem.right.right.right, hname⟩
  · rintro ⟨other, used, hrow, hself, hdepth, hparent, hname⟩
    refine ⟨⟨other, used⟩, ?_, hname⟩
    rw [List.mem_filter, mem_entries, decide_eq_true_iff]
    exact ⟨hrow, hself, hdepth, hparent⟩

end Table

variable (rules : Rules E)

/-- A name as the regular expression means it: without a newline at its end. -/
def Legal (name : Text) : Prop := name ≠ [] ∧ forall c, c ∈ name -> rules.legal c = true

/-- Loading the row leaves it as it is. -/
def Loads (node : Node E) : Prop :=
  forall levels nested pk, rules.postInit levels nested pk node = pure node

/-- What the proofs use of the rules of a table. -/
structure Lawful : Prop where
  legal_char : forall c, rules.legal c = true -> c ≠ rules.separator ∧ isWhitespace c = false
  parts_plain : forall name part, part ∈ rules.parts name -> rules.separator ∉ part
  parts_blank : forall name part, part ∈ rules.parts name -> strip part = [] ->
    rules.join [] [] = []
  parts_first : forall name part, (rules.parts (strip name)).dropLast.head? = some part ->
    strip part = [] -> part = []
  parts_own : forall name own, rules.separator ∈ name -> rules.parts name = [own] ->
    strip own ≠ []
  join_injective : forall name name' full full', Legal rules name -> Legal rules name' ->
    rules.join name full = rules.join name' full' -> name = name' ∧ full = full'
  join_ne_nil : forall name full, Legal rules name -> rules.join name full ≠ []
  ranked : exists rank : Text -> Nat, rank [] = 0 ∧
    forall name full, Legal rules name -> rank (rules.join name full) = rank full + 1
  checkFirst_settle : forall pk extra, rules.checkFirst extra = .ok () ->
    rules.checkFirst (rules.settle pk extra) = .ok ()
  checkSettled_ok : forall extra, rules.checkSettled extra = .ok ()
  checkName_deep : forall name depth, depth ≠ 1 -> rules.checkName name depth = .ok ()
  loads_top : forall node, node.depth = 0 -> Loads rules node
  loads_child : forall node parent, Loads rules parent ->
    (parent.depth = 0 -> parent.fullName = []) -> Legal rules node.name ->
    node.fullName = rules.join node.name parent.fullName -> node.depth = parent.depth + 1 ->
    rules.checkName node.name node.depth = .ok () -> Loads rules node

structure Shape (table : Table E) : Prop where
  closed : forall {pk node above}, table.row pk = some node -> node.parent = some above ->
    exists parent, table.row above = some parent
  rooted : forall {pk node}, table.row pk = some node ->
    exists count, Rooted table.parentOf count pk
  top : forall {pk node}, table.row pk = some node -> node.parent = none ->
    node.name = [] ∧ node.fullName = [] ∧ node.depth = 0
  legal : forall {pk node above}, table.row pk = some node -> node.parent = some above ->
    Legal rules node.name
  deep : forall {pk node above}, table.row pk = some node -> node.parent = some above ->
    node.depth ≠ 0
  siblings : forall {pk node pk' node' above}, table.row pk = some node ->
    table.row pk' = some node' -> node.parent = some above -> node'.parent = some above ->
    node.name = node'.name -> pk = pk'
  loads : forall {pk node}, table.row pk = some node -> Loads rules node
  first : forall {pk node}, table.row pk = some node -> rules.checkFirst node.extra = .ok ()

variable {rules} {table : Table E} {pk above : Nat} {node : Node E}

namespace Shape

section

variable (shape : Shape rules table)
include shape

section

variable (hrow : table.row pk = some node)
include hrow

theorem top_of_depth (hdepth : node.depth = 0) : node.parent = none := by
  cases hparent : node.parent with
  | none => rfl
  | some above => exact absurd hdepth (shape.deep hrow hparent)

theorem fullName_of_depth (hdepth : node.depth = 0) : node.fullName = [] :=
  (shape.top hrow (shape.top_of_depth hrow hdepth)).right.left

theorem row_of_below
    (h : Below table.parentOf above pk) : exists passed, table.row above = some passed := by
  induction h using Relation.ReflTransGen.head_induction_on with
  | refl => exact ⟨node, hrow⟩
  | head hchild hbelow ih =>
    rcases ih with ⟨child, hchild'⟩
    rw [ChildOf, Table.parentOf_row hchild'] at hchild
    exact shape.closed hchild' hchild

theorem count_lt_length {count : Nat} (h : Rooted table.parentOf count pk) :
    count < table.rows.entries.length := by
  rcases h.passed with ⟨keys, hnodup, hlength, hkeys⟩
  have hsubset : keys ⊆ table.rows.keys := by
    intro key hkey
    rcases shape.row_of_below hrow (hkeys key hkey).left with ⟨passed, hpassed⟩
    apply AList.lookup_isSome.mp
    show (table.row key).isSome = true
    rw [hpassed]
    rfl
  have hle := (hnodup.subperm hsubset).length_le
  rw [hlength, AList.keys, List.keys, List.length_map] at hle
  exact hle

end

end

end Shape

theorem not_below_of_checkParents {self rounds : Nat}
    (h : checkParents table self rounds (some above) = .ok ()) :
    ¬ Below table.parentOf self above := by
  induction rounds generalizing above with
  | zero => cases h
  | succ rounds ih =>
    rw [checkParents] at h
    split at h
    · cases h
    · rename_i hne
      intro hbelow
      cases hrow : table.row above with
      | none =>
        have hroot : table.parentOf above = none := by
          rw [Table.parentOf, hrow]
          rfl
        exact hne (below_root hroot hbelow)
      | some node =>
        rw [hrow] at h
        have hparent := Table.parentOf_row hrow
        cases habove : node.parent with
        | none => exact hne (below_root (hparent.trans habove) hbelow)
        | some next =>
          rcases below_cases (hparent.trans habove) hbelow with heq | hnext
          · exact hne heq
          · apply ih ?_ hnext
            rw [← habove]
            exact h

theorem checkParents_of_rooted (shape : Shape rules table) {self rounds count : Nat}
    (hrow : table.row above = some node) (hrooted : Rooted table.parentOf count above)
    (hrounds : count < rounds) (hself : ¬ Below table.parentOf self above) :
    checkParents table self rounds (some above) = .ok () := by
  induction rounds generalizing above node count with
  | zero => exact absurd hrounds (Nat.not_lt_zero count)
  | succ rounds ih =>
    have hne : above ≠ self := fun heq => hself (heq ▸ Relation.ReflTransGen.refl)
    rw [checkParents, if_neg hne, hrow]
    have hparent := Table.parentOf_row hrow
    cases hrooted with
    | root hroot =>
      rw [hparent] at hroot
      simp only [hroot, checkParents]
    | @step _ next count hnext hrooted =>
      have hstep := hparent.symm.trans hnext
      rcases shape.closed hrow hstep with ⟨passed, hpassed⟩
      simp only [hstep]
      apply ih hpassed hrooted (Nat.lt_of_succ_lt_succ hrounds)
      intro hbelow
      exact hself (hbelow.tail hnext)

theorem checkParent_ok (shape : Shape rules table) {pk : Option Nat}
    (hrow : table.row above = some node) :
    checkParent table pk above = .ok () <->
      forall self, pk = some self -> ¬ Below table.parentOf self above := by
  cases pk with
  | none => simp [checkParent]
  | some self =>
    rw [checkParent]
    constructor
    · intro hcheck other hother
      cases hother
      exact not_below_of_checkParents hcheck
    · intro hfree
      rcases shape.rooted hrow with ⟨count, hcount⟩
      exact checkParents_of_rooted shape hrow hcount (shape.count_lt_length hrow hcount)
        (hfree self rfl)

end Icsw.NameTree
