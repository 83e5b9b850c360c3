import Icsw.Foundation.TextFile

/-!
# Paths as texts

Texts with slashes, and the names that are left of them when the places for the same and for the
parent directory have been taken away.
-/

namespace Icsw.Foundation
namespace PathText

open List

/-- `os.path.dirname` -/
def dirname (path : Text) : Text :=
  let head := (path.reverse.dropWhile fun c => c ≠ '/').reverse
  if head.all fun c => c = '/' then head else rstrip '/' head

/-- `os.path.join` -/
def join (path entry : Text) : Text :=
  if entry.head? = some '/' then entry
  else if path = [] ∨ path.getLast? = some '/' then path ++ entry
  else path ++ '/' :: entry

def isName (part : Text) : Bool := decide (part ≠ [] ∧ part ≠ ['.'])

def components (path : Text) : List Text := (splitAll '/' path).filter isName

/-- One part of a path, from a directory given by the names that lead to it. -/
def enter (names : List Text) (part : Text) : List Text :=
  if part = ['.', '.'] then names.dropLast else names ++ [part]

/-- The names of a path, which starts in the current directory unless it starts with a slash. -/
def resolve (cwd : List Text) (path : Text) : List Text :=
  (components path).foldl enter (if path.head? = some '/' then [] else cwd)

def Within (cwd : List Text) (base path : Text) : Prop := resolve cwd base <+: resolve cwd path

def Below (cwd : List Text) (base path : Text) : Prop :=
  Within cwd base path ∧ resolve cwd path ≠ resolve cwd base

instance decidableWithin (cwd : List Text) (base path : Text) : Decidable (Within cwd base path) :=
  inferInstanceAs (Decidable (_ <+: _))

instance decidableBelow (cwd : List Text) (base path : Text) : Decidable (Below cwd base path) :=
  inferInstanceAs (Decidable (_ ∧ _))

/-- A name as the entries of directories have them. -/
structure EntryName (entry : Text) : Prop where
  nonempty : entry ≠ []
  slash : '/' ∉ entry
  here : entry ≠ ['.']
  parent : entry ≠ ['.', '.']

theorem components_append (path later : Text) :
    components (path ++ '/' :: later) = components path ++ components later := by
  unfold components
  rw [splitAll_append, filter_append]

variable {entry : Text}

theorem components_entry (h : EntryName entry) : components entry = [entry] := by
  unfold components
  rw [splitAll_of_not_mem h.slash]
  exact filter_cons_of_pos (decide_eq_true ⟨h.nonempty, h.here⟩)

theorem components_slash (path : Text) : components (path ++ ['/']) = components path := by
  have hnil : components [] = [] := rfl
  rw [components_append, hnil, append_nil]

theorem components_join (h : EntryName entry) (path : Text) :
    components (join path entry) = components path ++ [entry] := by
  have hrelative : ¬ entry.head? = some '/' := fun hhead => h.slash (mem_of_head? hhead)
  unfold join
  rw [if_neg hrelative]
  split
  · next hend =>
      rcases hend with rfl | hlast
      · exact components_entry h
      · rcases getLast?_eq_some_iff.mp hlast with ⟨front, rfl⟩
        rw [append_assoc, singleton_append, components_append, components_slash,
          components_entry h]
  · rw [components_append, components_entry h]

theorem head?_join (h : EntryName entry) (path : Text) :
    (join path entry).head? = some '/' <-> path.head? = some '/' := by
  have hrelative : ¬ entry.head? = some '/' := fun hhead => h.slash (mem_of_head? hhead)
  unfold join
  rw [if_neg hrelative]
  cases path with
  | nil =>
    rw [if_pos (Or.inl rfl), nil_append]
    exact ⟨fun hhead => absurd hhead hrelative, fun hhead => by cases hhead⟩
  | cons c rest =>
    split
    · exact Iff.rfl
    · exact Iff.rfl

theorem resolve_join (h : EntryName entry) (cwd : List Text) (path : Text) :
    resolve cwd (join path entry) = resolve cwd path ++ [entry] := by
  unfold resolve
  rw [components_join h, foldl_append]
  simp only [head?_join h path]
  exact if_neg h.parent

theorem below_join_iff (h : EntryName entry) (cwd : List Text) (base path : Text) :
    Below cwd base (join path entry) <-> Within cwd base path := by
  unfold Below Within
  rw [resolve_join h]
  constructor
  · rintro ⟨hwithin, hne⟩
    rcases prefix_concat_iff.mp hwithin with hsame | hprefix
    · exact absurd hsame.symm hne
    · exact hprefix
  · intro hwithin
    refine ⟨hwithin.trans (prefix_append _ _), fun hsame => ?_⟩
    have hlength := hwithin.length_le
    rw [← hsame, length_append, length_singleton] at hlength
    omega

end PathText
end Icsw.Foundation
