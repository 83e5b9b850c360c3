import Icsw.Foundation.TextFile
import Mathlib.Data.List.Infix

/-!
# Replacing and separators

Replacing what occurs in a text, and what becomes of the length of the text.  A sequence of parts
that is joined with a separator can be taken apart again, if the separator does not occur in the
parts and cannot overlap itself.
-/

namespace Icsw.Foundation

open List

/-- `part in text` -/
def contains (part text : Text) : Bool := (breakOn part text).isSome

/-- `text.replace(old, new, count)` -/
def replaceFirst (old new : Text) : Nat -> Text -> Text
  | 0, text => text
  | count + 1, text =>
    match breakOn old text with
    | none => text
    | some (first, rest) => first ++ new ++ replaceFirst old new count rest

/-- `text.replace(old, new)` -/
def replace (old new text : Text) : Text := replaceFirst old new text.length text

/-- `text.replace(old, new)`, of a character. -/
def replaceChar (old : Char) (new text : Text) : Text :=
  text.flatMap fun c => if c = old then new else [c]

theorem length_replaceFirst_le {old new : Text} (h : new.length ≤ old.length) (count : Nat)
    (text : Text) : (replaceFirst old new count text).length ≤ text.length := by
  induction count generalizing text with
  | zero => exact Nat.le_refl _
  | succ count ih =>
    rw [replaceFirst]
    cases hbreak : breakOn old text with
    | none => exact Nat.le_refl _
    | some parts =>
      rw [breakOn_eq_some hbreak]
      simp only [length_append]
      have hrest := ih parts.2
      omega

theorem replace_of_not_contains {old new text : Text} (h : contains old text = false) :
    replace old new text = text := by
  have hnone : breakOn old text = none := Option.isSome_eq_false_iff.mp h |> Option.isNone_iff_eq_none.mp
  unfold replace
  cases text.length with
  | zero => rfl
  | succ count => rw [replaceFirst, hnone]

theorem length_replace_lt {old new text : Text} (hlength : new.length < old.length)
    (h : contains old text = true) : (replace old new text).length < text.length := by
  rcases Option.isSome_iff_exists.mp h with ⟨⟨first, rest⟩, hbreak⟩
  have htext := breakOn_eq_some hbreak
  have hpositive : 0 < text.length := by
    rw [htext]
    simp only [length_append]
    omega
  unfold replace
  cases hcount : text.length with
  | zero => omega
  | succ count =>
    rw [replaceFirst, hbreak]
    have hrest := length_replaceFirst_le (Nat.le_of_lt hlength) count rest
    have htotal := congrArg length htext
    simp only [length_append] at htotal ⊢
    omega

theorem length_replace_le {old new : Text} (h : new.length ≤ old.length) (text : Text) :
    (replace old new text).length ≤ text.length :=
  length_replaceFirst_le h _ text

theorem replaceChar_of_not_mem {old : Char} {new text : Text} (h : old ∉ text) :
    replaceChar old new text = text := by
  induction text with
  | nil => rfl
  | cons c rest ih =>
    rw [mem_cons, not_or] at h
    have hrest : replaceChar old new rest = rest := ih h.right
    rw [replaceChar, flatMap_cons, if_neg (fun heq => h.left heq.symm)]
    exact congrArg (cons c) hrest

theorem mem_replaceChar {old c : Char} {new text : Text} (hne : c ≠ old) (hnew : c ∉ new) :
    c ∈ replaceChar old new text <-> c ∈ text := by
  rw [replaceChar, mem_flatMap]
  constructor
  · rintro ⟨other, hother, hc⟩
    by_cases heq : other = old
    · rw [if_pos heq] at hc
      exact absurd hc hnew
    · rw [if_neg heq, mem_singleton] at hc
      exact hc ▸ hother
  · intro hmem
    refine ⟨c, hmem, ?_⟩
    rw [if_neg hne]
    exact mem_cons_self

theorem head?_replaceChar {old c : Char} {new rest : Text} (hnew : new ≠ []) :
    (replaceChar old new (c :: rest)).head? = if c = old then new.head? else some c := by
  rw [replaceChar, flatMap_cons]
  by_cases heq : c = old
  · rw [if_pos heq, if_pos heq, head?_append_of_ne_nil _ hnew]
  · rw [if_neg heq, if_neg heq]
    rfl

/-!
## Separators

A sequence of parts that is joined with a separator can be taken apart again, if the separator
does not occur in the parts and cannot overlap itself.
-/

variable {α : Type}

theorem infix_of_append_right {item next : α} {later first rest : List α} {mid : α}
    (hfirst : ¬ [item, next] <:+: first ++ [mid])
    (h : item :: next :: later <:+: first ++ mid :: rest) :
    item :: next :: later <:+: mid :: rest := by
  induction first with
  | nil => exact h
  | cons head tail ih =>
    have htail : ¬ [item, next] <:+: tail ++ [mid] := fun hinfix =>
      hfirst (infix_cons_iff.mpr (Or.inr hinfix))
    rcases infix_cons_iff.mp h with hprefix | hinfix
    · -- the first two items would stand in the first part
      exfalso
      rcases cons_prefix_cons.mp hprefix with ⟨rfl, hnext⟩
      apply hfirst
      apply infix_cons_iff.mpr
      left
      rw [cons_prefix_cons]
      refine ⟨rfl, ?_⟩
      cases tail with
      | nil =>
        rw [(cons_prefix_cons.mp hnext).left]
        exact prefix_rfl
      | cons other tail =>
        rw [(cons_prefix_cons.mp hnext).left]
        exact ⟨tail ++ [mid], rfl⟩
    · exact ih htail hinfix

theorem eq_nil_of_overlap {item : α} {sep part rest rest' : List α} (hitem : item ∉ sep)
    (hpart : ¬ (item :: sep) <:+: part)
    (h : item :: sep ++ rest = part ++ (item :: sep ++ rest')) : part = [] := by
  cases part with
  | nil => rfl
  | cons first tail =>
    exfalso
    injection h with hfirst htail
    subst hfirst
    rcases append_eq_append_iff.mp htail with ⟨more, hmore, _⟩ | ⟨more, hsep, hrest⟩
    · exact hpart ⟨[], more, by rw [hmore, nil_append, cons_append]⟩
    · cases more with
      | nil =>
        rw [append_nil] at hsep
        exact hpart ⟨[], [], by rw [hsep, nil_append, append_nil]⟩
      | cons other more' =>
        injection hrest with hother _
        rw [hsep, ← hother] at hitem
        exact hitem (mem_append_right tail mem_cons_self)

theorem append_separator_inj {item : α} {sep first first' rest rest' : List α}
    (hitem : item ∉ sep) (hfirst : ¬ (item :: sep) <:+: first)
    (hfirst' : ¬ (item :: sep) <:+: first')
    (h : first ++ (item :: sep ++ rest) = first' ++ (item :: sep ++ rest')) :
    first = first' ∧ rest = rest' := by
  rcases append_eq_append_iff.mp h with ⟨part, hpart, hrest⟩ | ⟨part, hpart, hrest⟩
  · have hnil : part = [] := by
      refine eq_nil_of_overlap hitem (fun hinfix => hfirst' ?_) hrest
      rw [hpart]
      exact hinfix.trans (suffix_append first part).isInfix
    subst hnil
    rw [append_nil] at hpart
    rw [nil_append] at hrest
    exact ⟨hpart.symm, append_cancel_left hrest⟩
  · have hnil : part = [] := by
      refine eq_nil_of_overlap hitem (fun hinfix => hfirst ?_) hrest
      rw [hpart]
      exact hinfix.trans (suffix_append first' part).isInfix
    subst hnil
    rw [append_nil] at hpart
    rw [nil_append] at hrest
    exact ⟨hpart, (append_cancel_left hrest).symm⟩

def separated (sep : List α) (parts : List (List α)) : List α :=
  parts.flatMap fun part => sep ++ part

theorem separated_cons (sep part : List α) (parts : List (List α)) :
    separated sep (part :: parts) = sep ++ (part ++ separated sep parts) := by
  rw [separated, flatMap_cons, append_assoc]
  rfl

theorem intercalate_map_append (mark lead first : List α) (rest : List (List α)) :
    intercalate mark ((first :: rest).map (lead ++ ·)) =
      lead ++ (first ++ separated (mark ++ lead) rest) := by
  induction rest generalizing first with
  | nil =>
    rw [map_cons, map_nil, intercalate_singleton]
    exact congrArg (lead ++ ·) (append_nil first).symm
  | cons next rest ih =>
    have hnext := ih next
    rw [map_cons] at hnext
    rw [map_cons, map_cons, intercalate_cons_cons, hnext, separated_cons]
    simp only [append_assoc]

theorem separated_inj {item : α} {sep : List α} (hitem : item ∉ sep) {first first' : List α}
    {rest rest' : List (List α)}
    (hparts : forall part, part ∈ first :: rest -> ¬ (item :: sep) <:+: part)
    (hparts' : forall part, part ∈ first' :: rest' -> ¬ (item :: sep) <:+: part)
    (h : first ++ separated (item :: sep) rest = first' ++ separated (item :: sep) rest') :
    first = first' ∧ rest = rest' := by
  induction rest generalizing first first' rest' with
  | nil =>
    cases rest' with
    | nil => exact ⟨append_cancel_right h, rfl⟩
    | cons next' later' =>
      rw [separated_cons] at h
      refine absurd ?_ (hparts first mem_cons_self)
      exact ⟨first', next' ++ separated (item :: sep) later', by
        rw [append_assoc, ← h]
        exact append_nil first⟩
  | cons next later ih =>
    cases rest' with
    | nil =>
      rw [separated_cons] at h
      refine absurd ?_ (hparts' first' mem_cons_self)
      exact ⟨first, next ++ separated (item :: sep) later, by
        rw [append_assoc, h]
        exact append_nil first'⟩
    | cons next' later' =>
      rw [separated_cons, separated_cons] at h
      rcases append_separator_inj hitem (hparts first mem_cons_self)
        (hparts' first' mem_cons_self) h with ⟨rfl, hrest⟩
      rcases ih (fun part hmem => hparts part (mem_cons_of_mem _ hmem))
        (fun part hmem => hparts' part (mem_cons_of_mem _ hmem)) hrest with ⟨rfl, rfl⟩
      exact ⟨rfl, rfl⟩

theorem unmarked_append_inj {marked : α -> Bool} {part part' rest rest' : List α}
    (hpart : forall c, c ∈ part -> marked c = false)
    (hpart' : forall c, c ∈ part' -> marked c = false)
    (hrest : forall c, c ∈ rest.head? -> marked c = true)
    (hrest' : forall c, c ∈ rest'.head? -> marked c = true)
    (h : part ++ rest = part' ++ rest') : part = part' ∧ rest = rest' := by
  have htake : forall {first later : List α}, (forall c, c ∈ first -> marked c = false) ->
      (forall c, c ∈ later.head? -> marked c = true) ->
      (first ++ later).takeWhile (fun c => !marked c) = first := by
    intro first later hfirst hlater
    rw [takeWhile_append_of_pos (fun c hc => by rw [hfirst c hc]; rfl)]
    cases later with
    | nil => exact append_nil first
    | cons next more =>
      rw [takeWhile_cons_of_neg (by rw [hlater next rfl]; decide), append_nil]
  have heq : part = part' := by
    rw [← htake hpart hrest, h, htake hpart' hrest']
  subst heq
  exact ⟨rfl, append_cancel_left h⟩

theorem marked_flatMap_inj {marked : α -> Bool} {parts parts' : List (α × List α)}
    (hparts : forall part, part ∈ parts ->
      marked part.1 = true ∧ forall c, c ∈ part.2 -> marked c = false)
    (hparts' : forall part, part ∈ parts' ->
      marked part.1 = true ∧ forall c, c ∈ part.2 -> marked c = false)
    (h : parts.flatMap (fun part => part.1 :: part.2) =
      parts'.flatMap fun part => part.1 :: part.2) : parts = parts' := by
  have hhead : forall {items : List (α × List α)},
      (forall part, part ∈ items -> marked part.1 = true ∧ forall c, c ∈ part.2 -> marked c = false) ->
      forall c, c ∈ (items.flatMap fun part => part.1 :: part.2).head? -> marked c = true := by
    intro items hitems c hc
    cases items with
    | nil => cases hc
    | cons first rest =>
      injection hc with hc
      rw [← hc]
      exact (hitems first mem_cons_self).left
  induction parts generalizing parts' with
  | nil =>
    cases parts' with
    | nil => rfl
    | cons first' rest' => cases h
  | cons first rest ih =>
    cases parts' with
    | nil => cases h
    | cons first' rest' =>
      have hrest := fun part hmem => hparts part (mem_cons_of_mem first hmem)
      have hrest' := fun part hmem => hparts' part (mem_cons_of_mem first' hmem)
      rw [flatMap_cons, flatMap_cons] at h
      injection h with hmark htail
      rcases unmarked_append_inj (hparts first mem_cons_self).right
        (hparts' first' mem_cons_self).right (hhead hrest) (hhead hrest') htail with
        ⟨hbody, hlater⟩
      rw [ih hrest hrest' hlater, Prod.ext hmark hbody]

end Icsw.Foundation
