import Mathlib.Data.List.Perm.Basic
import Icsw.Foundation.Run

/-!
# Tables of what was found

A key that is not in the table is looked into, and what is found is filed: each value under a key
of its own.  Later the key is only read from the table.
-/

namespace Icsw.Foundation
namespace MemoTable

open List

variable {K V : Type} [DecidableEq K]

def answers (table : List (K × V)) (key : K) : List V :=
  (table.filter fun entry => entry.1 = key).map Prod.snd

def consult (found : K -> List (K × V)) (table : List (K × V)) (key : K) : List (K × V) :=
  if key ∈ table.map Prod.fst then table else table ++ found key

def OwnKey (found : K -> List (K × V)) (key : K) : Prop :=
  forall entry, entry ∈ found key -> entry.1 = key

theorem answers_append (first second : List (K × V)) (key : K) :
    answers (first ++ second) key = answers first key ++ answers second key := by
  unfold answers
  rw [filter_append, map_append]

variable {table : List (K × V)} {key : K}

theorem mem_answers {value : V} : value ∈ answers table key <-> (key, value) ∈ table := by
  unfold answers
  constructor
  · intro h
    rcases mem_map.mp h with ⟨entry, hentry, rfl⟩
    have hkey := of_decide_eq_true (mem_filter.mp hentry).right
    rw [← hkey]
    exact (mem_filter.mp hentry).left
  · intro h
    exact mem_map.mpr ⟨(key, value), mem_filter.mpr ⟨h, decide_eq_true rfl⟩, rfl⟩

theorem answers_eq_nil_iff : answers table key = [] <-> key ∉ table.map Prod.fst := by
  rw [eq_nil_iff_forall_not_mem]
  constructor
  · intro h hkey
    rcases mem_map.mp hkey with ⟨⟨own, value⟩, hentry, rfl⟩
    exact h value (mem_answers.mpr hentry)
  · intro h value hvalue
    exact h (mem_map.mpr ⟨(key, value), mem_answers.mp hvalue, rfl⟩)

variable {found : K -> List (K × V)}

theorem answers_own (h : OwnKey found key) :
    answers (found key) key = (found key).map Prod.snd := by
  unfold answers
  rw [filter_eq_self.mpr fun entry hentry => decide_eq_true (h entry hentry)]

theorem answers_other {key other : K} (h : OwnKey found key)
    (hne : key ≠ other) : answers (found key) other = [] := by
  apply answers_eq_nil_iff.mpr
  intro hmem
  rcases mem_map.mp hmem with ⟨entry, hentry, hother⟩
  exact hne ((h entry hentry).symm.trans hother)

theorem consult_of_mem (h : key ∈ table.map Prod.fst) : consult found table key = table := if_pos h

theorem consult_of_not_mem
    (h : key ∉ table.map Prod.fst) : consult found table key = table ++ found key := if_neg h

def Filed (found : K -> List (K × V)) (table : List (K × V)) : Prop :=
  forall key, key ∈ table.map Prod.fst -> answers table key = (found key).map Prod.snd

theorem filed_nil (found : K -> List (K × V)) : Filed found [] := by
  intro key hkey
  cases hkey

theorem Filed.answers_consult (hfiled : Filed found table) (h : OwnKey found key) :
    answers (consult found table key) key = (found key).map Prod.snd := by
  by_cases hkey : key ∈ table.map Prod.fst
  · rw [consult_of_mem hkey]
    exact hfiled key hkey
  · rw [consult_of_not_mem hkey, answers_append, answers_eq_nil_iff.mpr hkey, nil_append,
      answers_own h]

theorem Filed.consult (hfiled : Filed found table) (h : OwnKey found key) :
    Filed found (consult found table key) := by
  intro other hother
  by_cases heq : key = other
  · rw [← heq]
    exact hfiled.answers_consult h
  by_cases hkey : key ∈ table.map Prod.fst
  · rw [consult_of_mem hkey] at hother ⊢
    exact hfiled other hother
  · rw [consult_of_not_mem hkey] at hother ⊢
    rw [answers_append, answers_other h heq, append_nil]
    apply hfiled
    rw [map_append] at hother
    rcases mem_append.mp hother with htable | hfound
    · exact htable
    · exact absurd hfound (answers_eq_nil_iff.mp (answers_other h heq))

theorem answers_run {keys : List K}
    (hkeys : forall other, other ∈ keys -> OwnKey found other) (h : OwnKey found key) :
    answers (run (consult found) [] (keys ++ [key])) key = (found key).map Prod.snd := by
  have hrun : forall table, Filed found table -> Filed found (run (consult found) table keys) := by
    induction keys with
    | nil => exact fun table hfiled => hfiled
    | cons first rest ih =>
      intro table hfiled
      exact ih (fun other hother => hkeys other (mem_cons_of_mem first hother)) _
        (hfiled.consult (hkeys first mem_cons_self))
  rw [run_append]
  exact (hrun [] (filed_nil found)).answers_consult h

/-- Every key is answered what is expected, whatever was looked up before. -/
def AlwaysRight (found : K -> List (K × V)) (expected : K -> List V) : Prop :=
  forall keys key, (answers (run (consult found) [] (keys ++ [key])) key).Perm (expected key)

variable {expected : K -> List V}

/-- What is filed for a smaller key is in the table twice when that key is looked up before and
after. -/
theorem AlwaysRight.ownKey {size : K -> Nat}
    (hsize : forall key entry, entry ∈ found key -> entry.1 = key ∨ size entry.1 < size key)
    (hright : AlwaysRight found expected) (key : K) : OwnKey found key := by
  intro entry hentry
  rcases hsize key entry hentry with hown | hsmaller
  · exact hown
  exfalso
  rcases entry with ⟨other, value⟩
  have hfirst : run (consult found) [] [other] = found other := rfl
  have habsent : key ∉ (found other).map Prod.fst := by
    intro hmem
    rcases mem_map.mp hmem with ⟨filed, hfiled, heq⟩
    rcases hsize other filed hfiled with hsame | hless
    · rw [← heq, hsame] at hsmaller
      exact Nat.lt_irrefl _ hsmaller
    · rw [heq] at hless
      exact Nat.lt_asymm hsmaller hless
  have hpresent : other ∈ (found other ++ found key).map Prod.fst :=
    mem_map.mpr ⟨(other, value), mem_append_right _ hentry, rfl⟩
  have hlater : run (consult found) [] ([other, key] ++ [other]) = found other ++ found key := by
    show consult found (consult found (run (consult found) [] [other]) key) other = _
    rw [hfirst, consult_of_not_mem habsent, consult_of_mem hpresent]
  have honce := (hright [] other).length_eq
  have htwice := (hright [other, key] other).length_eq
  have hone : run (consult found) [] ([] ++ [other]) = found other := rfl
  rw [hone] at honce
  rw [hlater, answers_append, length_append, honce] at htwice
  have hempty : answers (found key) other = [] := length_eq_zero_iff.mp (by omega)
  have hvalue : value ∈ answers (found key) other := mem_answers.mpr hentry
  rw [hempty] at hvalue
  cases hvalue

theorem alwaysRight_iff {size : K -> Nat}
    (hsize : forall key entry, entry ∈ found key -> entry.1 = key ∨ size entry.1 < size key) :
    AlwaysRight found expected <->
      forall key, OwnKey found key ∧ ((found key).map Prod.snd).Perm (expected key) := by
  constructor
  · intro hright key
    have hown := hright.ownKey hsize
    refine ⟨hown key, ?_⟩
    have hnone : forall other, other ∈ ([] : List K) -> OwnKey found other := fun other _ => hown other
    rw [← answers_run hnone (hown key)]
    exact hright [] key
  · intro h keys key
    rw [answers_run (fun other _ => (h other).left) (h key).left]
    exact (h key).right

end MemoTable
end Icsw.Foundation
