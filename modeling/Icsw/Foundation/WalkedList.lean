import Mathlib.Algebra.Group.Nat.Even
import Mathlib.Data.List.Nodup

/-!
# Removing from a list while walking it

A loop walks a list by its index and removes the items that fail.  The item after one that is
removed takes its index, so the loop never arrives at it.
-/

namespace Icsw.Foundation

open List

variable {α : Type}

theorem drop_erase [BEq α] [LawfulBEq α] {items : List α} {item : α} {index : Nat}
    (h : items[index]? = some item) :
    (items.erase item).drop (index + 1) = items.drop (index + 2) := by
  induction items generalizing index with
  | nil => cases h
  | cons first rest ih =>
    by_cases heq : first = item
    · rw [heq, erase_cons_head]
      rfl
    · rw [erase_cons_tail (by simpa using heq)]
      cases index with
      | zero => exact absurd (Option.some.inj h) heq
      | succ index => exact ih h

section Visited

variable (failing : α -> Bool)

/-- The items at which the loop arrives. -/
def visited : List α -> List α
  | [] => []
  | [item] => [item]
  | item :: next :: rest =>
    if failing item then item :: visited rest else item :: visited (next :: rest)

/-- Between items that do not fail, and before the first of them, an even number fails. -/
def EvenGaps (items : List α) : Prop :=
  forall (before gap : List α) (item : α) (after : List α), items = before ++ gap ++ item :: after ->
    (forall last, last ∈ before.getLast? -> failing last = false) ->
    (forall skipped, skipped ∈ gap -> failing skipped = true) -> failing item = false ->
      Even gap.length

variable {failing}

theorem visited_cons_of_not {item : α} (h : failing item = false) (rest : List α) :
    visited failing (item :: rest) = item :: visited failing rest := by
  cases rest with
  | nil => rfl
  | cons next rest =>
    exact if_neg (Bool.eq_false_iff.mp h)

theorem visited_cons_of_failing {item : α} (h : failing item = true) (rest : List α) :
    visited failing (item :: rest) = item :: visited failing rest.tail := by
  cases rest with
  | nil => rfl
  | cons next rest =>
    exact if_pos h

theorem visited_sublist (items : List α) : (visited failing items).Sublist items := by
  induction items using visited.induct failing with
  | case1 => exact Sublist.refl []
  | case2 item => exact Sublist.refl [item]
  | case3 item next rest h ih =>
    rw [visited_cons_of_failing h]
    exact (ih.cons next).cons_cons item
  | case4 item next rest h ih =>
    rw [visited_cons_of_not (Bool.eq_false_iff.mpr h)]
    exact ih.cons_cons item

theorem visited_congr {failing' : α -> Bool} {items : List α}
    (h : forall item, item ∈ items -> failing item = failing' item) :
    visited failing items = visited failing' items := by
  induction items using visited.induct failing with
  | case1 => rfl
  | case2 item => rfl
  | case3 item next rest hfailing ih =>
    rw [visited_cons_of_failing hfailing,
      visited_cons_of_failing ((h item mem_cons_self).symm.trans hfailing)]
    exact congrArg _ (ih fun other hother =>
      h other (mem_cons_of_mem item (mem_cons_of_mem next hother)))
  | case4 item next rest hfailing ih =>
    have hnot := Bool.eq_false_iff.mpr hfailing
    rw [visited_cons_of_not hnot,
      visited_cons_of_not ((h item mem_cons_self).symm.trans hnot)]
    exact congrArg _ (ih fun other hother => h other (mem_cons_of_mem item hother))

theorem last_of_cons {before : List α} {first : α} (h : failing first = false)
    (hbefore : forall last, last ∈ before.getLast? -> failing last = false) :
    forall last, last ∈ (first :: before).getLast? -> failing last = false := by
  intro last hlast
  rw [getLast?_cons, Option.mem_some_iff] at hlast
  rw [← hlast]
  cases hend : before.getLast? with
  | none => exact h
  | some final => exact hbefore final hend

theorem last_of_tail {before : List α} {first : α}
    (h : forall last, last ∈ (first :: before).getLast? -> failing last = false) :
    forall last, last ∈ before.getLast? -> failing last = false := by
  intro last hlast
  apply h last
  rw [getLast?_cons, hlast]
  rfl

theorem evenGaps_cons_of_not {item : α} (h : failing item = false) (rest : List α) :
    EvenGaps failing (item :: rest) <-> EvenGaps failing rest := by
  constructor
  · intro heven before gap other after heq hbefore
    exact heven (item :: before) gap other after (by rw [heq]; rfl) (last_of_cons h hbefore)
  · intro heven before gap other after heq hbefore hgap hother
    cases before with
    | nil =>
      cases gap with
      | nil => exact Even.zero
      | cons skipped gap =>
        have hfailing := hgap skipped mem_cons_self
        rw [← (cons.inj heq).left, h] at hfailing
        cases hfailing
    | cons first before =>
      exact heven before gap other after (cons.inj heq).right (last_of_tail hbefore) hgap
        hother

theorem evenGaps_pair {item next : α} (h : failing item = true) (hnext : failing next = true)
    (rest : List α) : EvenGaps failing (item :: next :: rest) <-> EvenGaps failing rest := by
  constructor
  · intro heven before gap other after heq hbefore hgap hother
    cases before with
    | nil =>
      have hlonger := heven [] (item :: next :: gap) other after (by rw [heq]; rfl) hbefore
        (forall_mem_cons.mpr ⟨h, forall_mem_cons.mpr ⟨hnext, hgap⟩⟩) hother
      exact (@Nat.even_add gap.length 2).mp hlonger |>.mpr (by decide)
    | cons first before =>
      refine heven (item :: next :: first :: before) gap other after (by rw [heq]; rfl) ?_ hgap
        hother
      intro last hlast
      exact hbefore last hlast
  · intro heven before gap other after heq hbefore hgap hother
    rcases before with _ | ⟨first, _ | ⟨second, before⟩⟩
    · rcases gap with _ | ⟨first, _ | ⟨second, gap⟩⟩
      · rw [← (cons.inj heq).left, h] at hother
        cases hother
      · rw [← (cons.inj (cons.inj heq).right).left, hnext] at hother
        cases hother
      · have hshorter := heven [] gap other after (cons.inj (cons.inj heq).right).right
          hbefore (fun skipped hskipped =>
            hgap skipped (mem_cons_of_mem _ (mem_cons_of_mem _ hskipped))) hother
        exact (@Nat.even_add gap.length 2).mpr (iff_of_true hshorter (by decide))
    · have hfirst := hbefore first rfl
      rw [← (cons.inj heq).left, h] at hfirst
      cases hfirst
    · cases before with
      | nil =>
        have hsecond := hbefore second rfl
        rw [← (cons.inj (cons.inj heq).right).left, hnext] at hsecond
        cases hsecond
      | cons third before =>
        exact heven (third :: before) gap other after
          (cons.inj (cons.inj heq).right).right
          (fun last hlast => hbefore last hlast) hgap hother

theorem not_evenGaps {item next : α} (h : failing item = true) (hnext : failing next = false)
    (rest : List α) : ¬ EvenGaps failing (item :: next :: rest) := by
  intro heven
  have hone := heven [] [item] next rest rfl (fun _ hlast => by cases hlast)
    (fun skipped hskipped => (mem_singleton.mp hskipped).symm ▸ h) hnext
  exact Nat.not_even_one hone

theorem all_visited_iff {items : List α} (hnodup : items.Nodup) :
    (forall item, item ∈ items -> failing item = false -> item ∈ visited failing items) <->
      EvenGaps failing items := by
  induction items using visited.induct failing with
  | case1 =>
    constructor
    · intro _ before gap item after heq
      simp at heq
    · intro _ item hitem
      cases hitem
  | case2 item =>
    constructor
    · intro _ before gap other after heq _ _ _
      have hlength := congrArg length heq
      simp only [length_append, length_cons, length_nil] at hlength
      have hzero : gap.length = 0 := by omega
      rw [hzero]
      exact Even.zero
    · intro _ other hother _
      exact hother
  | case3 item next rest h ih =>
    have hrest := (nodup_cons.mp (nodup_cons.mp hnodup).right)
    rw [visited_cons_of_failing h]
    by_cases hnext : failing next = true
    · rw [evenGaps_pair h hnext, ← ih hrest.right]
      constructor
      · intro hall other hother hnot
        have hmem := hall other (mem_cons_of_mem _ (mem_cons_of_mem _ hother)) hnot
        exact (mem_cons.mp hmem).resolve_left fun heq => by
          rw [heq, h] at hnot
          cases hnot
      · intro hall other hother hnot
        rcases mem_cons.mp hother with heq | hother
        · rw [heq, h] at hnot
          cases hnot
        · rcases mem_cons.mp hother with heq | hother
          · rw [heq, hnext] at hnot
            cases hnot
          · exact mem_cons_of_mem _ (hall other hother hnot)
    · have hfine := Bool.eq_false_iff.mpr hnext
      refine iff_of_false ?_ (not_evenGaps h hfine rest)
      intro hall
      have hmem := hall next (mem_cons_of_mem _ mem_cons_self) hfine
      rcases mem_cons.mp hmem with heq | hmem
      · rw [heq, h] at hfine
        cases hfine
      · exact hrest.left ((visited_sublist rest).subset hmem)
  | case4 item next rest h ih =>
    have hnot := Bool.eq_false_iff.mpr h
    rw [visited_cons_of_not hnot, evenGaps_cons_of_not hnot, ← ih (nodup_cons.mp hnodup).right]
    constructor
    · intro hall other hother hfine
      have hmem := hall other (mem_cons_of_mem _ hother) hfine
      exact (mem_cons.mp hmem).resolve_left fun heq =>
        (nodup_cons.mp hnodup).left (heq ▸ hother)
    · intro hall other hother hfine
      rcases mem_cons.mp hother with heq | hother
      · rw [heq]
        exact mem_cons_self
      · exact mem_cons_of_mem _ (hall other hother hfine)

end Visited

end Icsw.Foundation
