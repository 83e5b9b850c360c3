import Icsw.Foundation.Python
import Mathlib.Data.List.Sort

/-!
# The order of texts

Texts are compared by the codes of their characters.
-/

namespace Icsw.Foundation

open List

def textLe : Text -> Text -> Bool
  | [], _ => true
  | _ :: _, [] => false
  | c :: rest, c' :: rest' => decide (c.toNat < c'.toNat) || (c == c' && textLe rest rest')

theorem textLe_cons {c c' : Char} {rest rest' : Text} :
    textLe (c :: rest) (c' :: rest') = true <->
      c.toNat < c'.toNat ∨ c = c' ∧ textLe rest rest' = true := by
  simp [textLe]

theorem textLe_total (first second : Text) :
    textLe first second = true ∨ textLe second first = true := by
  induction first generalizing second with
  | nil => exact Or.inl rfl
  | cons c rest ih =>
    cases second with
    | nil => exact Or.inr rfl
    | cons c' rest' =>
      rw [textLe_cons, textLe_cons]
      rcases Nat.lt_trichotomy c.toNat c'.toNat with hless | heq | hgreater
      · exact Or.inl (Or.inl hless)
      · have hchar : c = c' := Char.toNat_inj.mp heq
        rcases ih rest' with h | h
        · exact Or.inl (Or.inr ⟨hchar, h⟩)
        · exact Or.inr (Or.inr ⟨hchar.symm, h⟩)
      · exact Or.inr (Or.inl hgreater)

theorem textLe_trans {first second third : Text} (h : textLe first second = true)
    (h' : textLe second third = true) : textLe first third = true := by
  induction first generalizing second third with
  | nil => rfl
  | cons c rest ih =>
    cases second with
    | nil => cases h
    | cons c' rest' =>
      cases third with
      | nil => cases h'
      | cons c'' rest'' =>
        rw [textLe_cons] at h h' ⊢
        rcases h with hless | ⟨heq, hrest⟩
        · rcases h' with hless' | ⟨heq', _⟩
          · exact Or.inl (lt_trans hless hless')
          · exact Or.inl (heq' ▸ hless)
        · rcases h' with hless' | ⟨heq', hrest'⟩
          · exact Or.inl (heq ▸ hless')
          · exact Or.inr ⟨heq.trans heq', ih hrest hrest'⟩

theorem textLe_antisymm {first second : Text} (h : textLe first second = true)
    (h' : textLe second first = true) : first = second := by
  induction first generalizing second with
  | nil =>
    cases second with
    | nil => rfl
    | cons c' rest' => cases h'
  | cons c rest ih =>
    cases second with
    | nil => cases h
    | cons c' rest' =>
      rw [textLe_cons] at h h'
      rcases h with hless | ⟨heq, hrest⟩
      · rcases h' with hless' | ⟨heq', _⟩
        · exact absurd hless' (lt_asymm hless)
        · exact absurd (heq' ▸ hless) (lt_irrefl _)
      · rcases h' with hless' | ⟨_, hrest'⟩
        · exact absurd (heq ▸ hless') (lt_irrefl _)
        · rw [heq, ih hrest hrest']

instance textLeTotal : Std.Total (fun first second => textLe first second = true) where
  total := textLe_total

instance textLeTrans : IsTrans Text (fun first second => textLe first second = true) where
  trans _ _ _ := textLe_trans

/-- `sorted(names)` -/
def sortedTexts (names : List Text) : List Text :=
  names.insertionSort (fun first second => textLe first second = true)

theorem sortedTexts_perm (names : List Text) : (sortedTexts names).Perm names :=
  perm_insertionSort _ names

theorem mem_sortedTexts {names : List Text} {name : Text} :
    name ∈ sortedTexts names <-> name ∈ names :=
  (sortedTexts_perm names).mem_iff

theorem sortedTexts_eq {names names' : List Text} (h : names.Perm names') :
    sortedTexts names = sortedTexts names' := by
  have hperm : (sortedTexts names).Perm (sortedTexts names') :=
    (sortedTexts_perm names).trans (h.trans (sortedTexts_perm names').symm)
  exact hperm.eq_of_pairwise (fun _ _ _ _ => textLe_antisymm)
    (pairwise_insertionSort _ names) (pairwise_insertionSort _ names')

/-!
## The least of a list

The first least element of a list, by an order that is given as a test.
-/

variable {α : Type} (le : α -> α -> Bool)

/-- The first of two, unless the second is strictly less. -/
def lesser (best next : α) : α := if le best next = true then best else next

/-- `min(items)`, none for an empty list -/
def least : List α -> Option α
  | [] => none
  | first :: rest => some (rest.foldl (lesser le) first)

/-- The test is an order of all values. -/
structure Orders : Prop where
  total : forall first second, le first second = true ∨ le second first = true
  trans : forall first second third, le first second = true -> le second third = true ->
    le first third = true
  antisymm : forall first second, le first second = true -> le second first = true ->
    first = second

variable {le}

theorem lesser_le (h : Orders le) (best next : α) :
    le (lesser le best next) best = true ∧ le (lesser le best next) next = true := by
  have hrefl : forall value, le value value = true := fun value => (h.total value value).elim id id
  unfold lesser
  split
  · next hle => exact ⟨hrefl best, hle⟩
  · next hnot => exact ⟨(h.total next best).resolve_right hnot, hrefl next⟩

theorem foldl_lesser_mem (rest : List α) (first : α) :
    rest.foldl (lesser le) first ∈ first :: rest := by
  induction rest generalizing first with
  | nil => exact mem_cons_self
  | cons next rest ih =>
    rw [foldl_cons]
    rcases mem_cons.mp (ih (lesser le first next)) with heq | hmem
    · rw [heq]
      unfold lesser
      split
      · exact mem_cons_self
      · exact mem_cons_of_mem first mem_cons_self
    · exact mem_cons_of_mem first (mem_cons_of_mem next hmem)

theorem foldl_lesser_le (h : Orders le) (rest : List α) (first : α) :
    forall other, other ∈ first :: rest -> le (rest.foldl (lesser le) first) other = true := by
  induction rest generalizing first with
  | nil =>
    intro other hother
    rw [mem_singleton.mp hother]
    exact (h.total first first).elim id id
  | cons next rest ih =>
    intro other hother
    rw [foldl_cons]
    have hlesser := lesser_le h first next
    have hleast := ih (lesser le first next) _ mem_cons_self
    rcases mem_cons.mp hother with heq | hother
    · rw [heq]
      exact h.trans _ _ _ hleast hlesser.left
    · rcases mem_cons.mp hother with heq | hrest
      · rw [heq]
        exact h.trans _ _ _ hleast hlesser.right
      · exact ih _ other (mem_cons_of_mem _ hrest)

theorem least_eq_some_iff (h : Orders le) {items : List α} {best : α} :
    least le items = some best <->
      best ∈ items ∧ forall other, other ∈ items -> le best other = true := by
  cases items with
  | nil =>
    constructor
    · intro hleast
      cases hleast
    · intro hboth
      cases hboth.left
  | cons first rest =>
    have hmem := @foldl_lesser_mem α le rest first
    have hle := foldl_lesser_le h rest first
    constructor
    · intro hleast
      rw [← Option.some.inj hleast]
      exact ⟨hmem, hle⟩
    · intro hboth
      exact congrArg some (h.antisymm _ _ (hle best hboth.left) (hboth.right _ hmem))

theorem least_eq_none {items : List α} : least le items = none <-> items = [] := by
  cases items with
  | nil => exact ⟨fun _ => rfl, fun _ => rfl⟩
  | cons first rest =>
    constructor
    · intro h
      cases h
    · intro h
      cases h

theorem least_congr (h : Orders le) {items items' : List α}
    (hitems : forall item, item ∈ items <-> item ∈ items') : least le items = least le items' := by
  cases hleast : least le items with
  | none =>
    have hnil := least_eq_none.mp hleast
    symm
    rw [least_eq_none, eq_nil_iff_forall_not_mem]
    intro item hitem
    have hmem := (hitems item).mpr hitem
    rw [hnil] at hmem
    cases hmem
  | some best =>
    rcases (least_eq_some_iff h).mp hleast with ⟨hmem, hle⟩
    exact ((least_eq_some_iff h).mpr ⟨(hitems best).mp hmem,
      fun other hother => hle other ((hitems other).mpr hother)⟩).symm

end Icsw.Foundation
