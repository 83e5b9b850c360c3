import Icsw.Foundation.Python
import Mathlib.Algebra.Order.Group.Nat
import Mathlib.Algebra.GroupWithZero.Nat
import Mathlib.Algebra.BigOperators.Group.List.Basic
import Mathlib.Data.List.TakeWhile

/-!
# Text and text files

Operations on text that log files are taken apart with, and files that are read as
text from a byte position.
-/

namespace Icsw.Foundation

open List

def breakOn (sep : Text) : Text -> Option (Text × Text)
  | [] => none
  | c :: rest =>
    if sep.isPrefixOf (c :: rest) then some ([], (c :: rest).drop sep.length)
    else (breakOn sep rest).map (fun parts => (c :: parts.1, parts.2))

/-- Split at the first occurrences of a separator, at most the given number of times. -/
def split (sep : Text) : Nat -> Text -> List Text
  | 0, text => [text]
  | count + 1, text =>
    match breakOn sep text with
    | none => [text]
    | some (first, rest) => first :: split sep count rest

theorem breakOn_eq_some {sep text first rest : Text}
    (h : breakOn sep text = some (first, rest)) : text = first ++ sep ++ rest := by
  induction text generalizing first rest with
  | nil => cases h
  | cons c later ih =>
    rw [breakOn] at h
    split at h
    · rename_i hprefix
      cases h
      exact (prefix_iff_eq_append.mp (List.isPrefixOf_iff_prefix.mp hprefix)).symm
    · rcases Option.map_eq_some_iff.mp h with ⟨⟨before, after⟩, hlater, hparts⟩
      cases hparts
      rw [ih hlater]
      rfl

theorem breakOn_char (c : Char) (text : Text) :
    (breakOn [c] text = none ∧ c ∉ text) ∨
      exists first rest, breakOn [c] text = some (first, rest) ∧ c ∉ first ∧
        text = first ++ c :: rest := by
  induction text with
  | nil =>
    left
    exact ⟨rfl, not_mem_nil⟩
  | cons d rest ih =>
    by_cases hd : c = d
    · right
      refine ⟨[], rest, ?_, not_mem_nil, by rw [hd]; rfl⟩
      rw [breakOn, if_pos (by simp [hd])]
      rfl
    · have hnot : ¬ ([c].isPrefixOf (d :: rest) = true) := by
        simpa using hd
      rcases ih with ⟨hnone, hmem⟩ | ⟨first, later, hsome, hmem, htext⟩
      · left
        constructor
        · rw [breakOn, if_neg hnot, hnone]
          rfl
        · simpa using ⟨hd, hmem⟩
      · right
        refine ⟨d :: first, later, ?_, by simpa using ⟨hd, hmem⟩, by rw [htext]; rfl⟩
        rw [breakOn, if_neg hnot, hsome]
        rfl

variable {c : Char}

theorem eq_of_append_separator {first first' rest rest' : Text} (hfirst : c ∉ first)
    (hfirst' : c ∉ first') (h : first ++ c :: rest = first' ++ c :: rest') :
    first = first' ∧ rest = rest' := by
  induction first generalizing first' with
  | nil =>
    cases first' with
    | nil => exact ⟨rfl, (cons.inj h).right⟩
    | cons d later' => exact absurd ((cons.inj h).left ▸ mem_cons_self) hfirst'
  | cons d later ih =>
    cases first' with
    | nil => exact absurd ((cons.inj h).left ▸ mem_cons_self) hfirst
    | cons d' later' =>
      rcases cons.inj h with ⟨hd, hlater⟩
      rcases ih (fun hmem => hfirst (mem_cons_of_mem d hmem))
        (fun hmem => hfirst' (mem_cons_of_mem d' hmem)) hlater with ⟨heq, hrest⟩
      rw [hd, heq]
      exact ⟨rfl, hrest⟩

variable {count : Nat}

theorem length_split_char {text : Text}
    (h : count ≤ text.count c) : (split [c] count text).length = count + 1 := by
  induction count generalizing text with
  | zero => rfl
  | succ less ih =>
    rcases breakOn_char c text with ⟨_, hmem⟩ | ⟨first, rest, hsome, hmem, htext⟩
    · rw [count_eq_zero_of_not_mem hmem] at h
      omega
    · have hrest : less ≤ rest.count c := by
        rw [htext, count_append, count_eq_zero_of_not_mem hmem,
          count_cons_self] at h
        omega
      rw [split, hsome, length_cons, ih hrest]

/-- Split at every occurrence of a character. -/
def splitAll (c : Char) (text : Text) : List Text := split [c] (text.count c) text

theorem not_mem_of_mem_split {text part : Text}
    (h : text.count c ≤ count) (hpart : part ∈ split [c] count text) : c ∉ part := by
  induction count generalizing text with
  | zero =>
    rw [split, mem_singleton] at hpart
    rw [hpart]
    exact count_eq_zero.mp (Nat.le_zero.mp h)
  | succ less ih =>
    rcases breakOn_char c text with ⟨hnone, hmem⟩ | ⟨first, rest, hsome, hmem, htext⟩
    · rw [split, hnone, mem_singleton] at hpart
      rw [hpart]
      exact hmem
    · rw [split, hsome] at hpart
      rcases mem_cons.mp hpart with heq | hrest
      · rw [heq]
        exact hmem
      · apply ih ?_ hrest
        rw [htext, count_append, count_eq_zero_of_not_mem hmem,
          count_cons_self] at h
        omega

theorem not_mem_of_mem_splitAll {text part : Text} (h : part ∈ splitAll c text) :
    c ∉ part :=
  not_mem_of_mem_split (Nat.le_refl _) h

theorem splitAll_of_not_mem {text : Text} (h : c ∉ text) : splitAll c text = [text] := by
  rw [splitAll, count_eq_zero_of_not_mem h, split]

theorem breakOn_append {first : Text} (h : c ∉ first) (rest : Text) :
    breakOn [c] (first ++ c :: rest) = some (first, rest) := by
  rcases breakOn_char c (first ++ c :: rest) with
    ⟨_, hmem⟩ | ⟨before, after, hsome, hbefore, htext⟩
  · exact absurd (mem_append_right first mem_cons_self) hmem
  · rcases eq_of_append_separator h hbefore htext with ⟨hfirst, hrest⟩
    rw [hsome, hfirst, hrest]

theorem split_succ_append {first : Text} (h : c ∉ first) (rest : Text) (count : Nat) :
    split [c] (count + 1) (first ++ c :: rest) = first :: split [c] count rest := by
  rw [split, breakOn_append h]

theorem splitAll_cons {first rest : Text} (h : c ∉ first) :
    splitAll c (first ++ c :: rest) = first :: splitAll c rest := by
  have hcount : (first ++ c :: rest).count c = rest.count c + 1 := by
    rw [count_append, count_eq_zero_of_not_mem h, count_cons_self, Nat.zero_add]
  rw [splitAll, hcount, split_succ_append h, splitAll]

theorem splitAll_append (c : Char) (text later : Text) :
    splitAll c (text ++ c :: later) = splitAll c text ++ splitAll c later := by
  induction hlength : text.length using Nat.strongRecOn generalizing text with
  | ind bound ih =>
    rcases breakOn_char c text with ⟨_, hmem⟩ | ⟨first, rest, _, hmem, htext⟩
    · rw [splitAll_cons hmem, splitAll_of_not_mem hmem]
      rfl
    · have hshort : rest.length < bound := by
        rw [← hlength, htext, length_append, length_cons]
        omega
      rw [htext, append_assoc, cons_append, splitAll_cons hmem, splitAll_cons hmem,
        ih rest.length hshort rest rfl, cons_append]

theorem suffix_of_getLast?_split {text part : Text}
    (h : (split [c] count text).getLast? = some part) : part <:+ text := by
  induction count generalizing text with
  | zero =>
    cases h
    exact suffix_rfl
  | succ less ih =>
    rcases breakOn_char c text with ⟨hnone, _⟩ | ⟨first, rest, hsome, _, htext⟩
    · rw [split, hnone] at h
      cases h
      exact suffix_rfl
    · rw [split, hsome, getLast?_cons] at h
      have hrest : (split [c] less rest).getLast? = some part := by
        cases hlast : (split [c] less rest).getLast? with
        | some last =>
          rw [hlast] at h
          exact h
        | none =>
          have hnil := getLast?_eq_none_iff.mp hlast
          cases less with
          | zero => cases hnil
          | succ less =>
            rw [split] at hnil
            split at hnil
            · cases hnil
            · cases hnil
      exact (ih hrest).trans ⟨first ++ [c], by rw [htext, append_assoc]; rfl⟩

/-- Without the trailing occurrences of a character. -/
def rstrip (c : Char) (text : Text) : Text :=
  (text.reverse.dropWhile (fun last => last = c)).reverse

def whitespaceCodes : List Nat :=
  [0x09, 0x0A, 0x0B, 0x0C, 0x0D, 0x1C, 0x1D, 0x1E, 0x1F, 0x20, 0x85, 0xA0, 0x1680, 0x180E,
   0x2000, 0x2001, 0x2002, 0x2003, 0x2004, 0x2005, 0x2006, 0x2007, 0x2008, 0x2009, 0x200A,
   0x2028, 0x2029, 0x202F, 0x205F, 0x3000]

def isWhitespace (c : Char) : Bool := decide (c.toNat ∈ whitespaceCodes)

theorem isWhitespace_eq_false (hlow : 0x20 < c.toNat) (hhigh : c.toNat < 0x85) :
    isWhitespace c = false := by
  simp only [isWhitespace, whitespaceCodes, decide_eq_false_iff_not, mem_cons,
    not_mem_nil, or_false]
  omega

theorem alphanum_code (h : c.isAlphanum = true) : 48 ≤ c.toNat ∧ c.toNat ≤ 122 := by
  have hcodes : ((decide (65 ≤ c.val ∧ c.val ≤ 90) || (97 ≤ c.val && c.val ≤ 122)) ||
      (48 ≤ c.val && c.val ≤ 57)) = true := h
  simp only [Bool.or_eq_true, Bool.and_eq_true, decide_eq_true_iff, UInt32.le_iff_toNat_le] at hcodes
  change (((65 ≤ c.toNat ∧ c.toNat ≤ 90) ∨ (97 ≤ c.toNat ∧ c.toNat ≤ 122)) ∨
    (48 ≤ c.toNat ∧ c.toNat ≤ 57)) at hcodes
  omega

/-- The codes of the digits zero, each followed by the digits one to nine. -/
def zeroCodes : List Nat :=
  [0x30, 0x660, 0x6F0, 0x7C0, 0x966, 0x9E6, 0xA66, 0xAE6, 0xB66, 0xBE6, 0xC66, 0xCE6, 0xD66,
   0xE50, 0xED0, 0xF20, 0x1040, 0x1090, 0x17E0, 0x1810, 0x1946, 0x19D0, 0x1A80, 0x1A90,
   0x1B50, 0x1BB0, 0x1C40, 0x1C50, 0xA620, 0xA8D0, 0xA900, 0xA9D0, 0xAA50, 0xABF0, 0xFF10,
   0x104A0, 0x1D7CE, 0x1D7D8, 0x1D7E2, 0x1D7EC, 0x1D7F6]

def digitValue (c : Char) : Option Nat :=
  if c.toNat = 0x19DA then some 1
  else
    (zeroCodes.find? (fun code => code ≤ c.toNat ∧ c.toNat < code + 10)).map
      (fun code => c.toNat - code)

def strip (text : Text) : Text :=
  ((text.dropWhile isWhitespace).reverse.dropWhile isWhitespace).reverse

theorem strip_eq_self {text : Text} (h : forall c, c ∈ text -> isWhitespace c = false) :
    strip text = text := by
  have hdrop : forall part : Text, (forall c, c ∈ part -> c ∈ text) ->
      part.dropWhile isWhitespace = part := by
    intro part hpart
    cases part with
    | nil => rfl
    | cons c rest =>
      rw [dropWhile_cons_of_neg]
      rw [h c (hpart c mem_cons_self)]
      exact Bool.false_ne_true
  rw [strip, hdrop text (fun c hc => hc),
    hdrop text.reverse (fun c hc => mem_reverse.mp hc), reverse_reverse]

theorem mem_of_mem_strip {text : Text} (h : c ∈ strip text) : c ∈ text := by
  rw [strip, mem_reverse] at h
  have hrest := (dropWhile_sublist isWhitespace).mem h
  exact (dropWhile_sublist isWhitespace).mem (mem_reverse.mp hrest)

theorem not_whitespace_of_getLast?_strip {text : Text}
    (h : (strip text).getLast? = some c) : isWhitespace c = false := by
  rw [strip, getLast?_reverse] at h
  have hhead := head?_dropWhile_not isWhitespace (text.dropWhile isWhitespace).reverse
  rw [h] at hhead
  exact hhead

theorem not_whitespace_of_strip_cons {text rest : Text} (h : strip text = c :: rest) :
    isWhitespace c = false := by
  have hsuffix := dropWhile_suffix isWhitespace (l := (text.dropWhile isWhitespace).reverse)
  have hprefix : strip text <+: text.dropWhile isWhitespace := by
    have hreverse := reverse_prefix.mpr hsuffix
    rw [reverse_reverse] at hreverse
    exact hreverse
  rcases hprefix with ⟨later, hlater⟩
  rw [h] at hlater
  have hhead := head?_dropWhile_not isWhitespace text
  rw [← hlater] at hhead
  exact hhead

theorem whitespace_of_strip_nil {text : Text} (h : strip text = []) (hc : c ∈ text) :
    isWhitespace c = true := by
  rw [strip, reverse_eq_nil_iff, dropWhile_eq_nil_iff] at h
  have hrest : text.dropWhile isWhitespace = [] := by
    cases hdrop : text.dropWhile isWhitespace with
    | nil => rfl
    | cons first rest =>
      have hhead := head?_dropWhile_not isWhitespace text
      rw [hdrop, head?_cons] at hhead
      have hfirst := h first (by rw [hdrop]; simp)
      exact absurd (hfirst.symm.trans hhead) (by decide)
  exact dropWhile_eq_nil_iff.mp hrest c hc

theorem strip_eq_nil_of_strip {text : Text} (h : strip (strip text) = []) : strip text = [] := by
  cases hlast : (strip text).getLast? with
  | none => exact getLast?_eq_none_iff.mp hlast
  | some c =>
    have hblank := whitespace_of_strip_nil h (mem_of_getLast? hlast)
    rw [not_whitespace_of_getLast?_strip hlast] at hblank
    cases hblank

theorem nil_of_last_part_blank {text part : Text}
    (h : (splitAll c (strip text)).getLast? = some part) (hblank : strip part = []) :
    part = [] := by
  rcases suffix_of_getLast?_split h with ⟨before, happend⟩
  cases hlast : part.getLast? with
  | none => exact getLast?_eq_none_iff.mp hlast
  | some last =>
    have hend : (strip text).getLast? = some last := by
      rw [← happend, getLast?_append, hlast]
      rfl
    have hwhite := whitespace_of_strip_nil hblank (mem_of_getLast? hlast)
    rw [not_whitespace_of_getLast?_strip hend] at hwhite
    cases hwhite

def parseDigits (text : Text) : Option Nat :=
  if text = [] then none
  else text.foldlM (fun value c => (digitValue c).map (fun digit => 10 * value + digit)) 0

/-- The integer a text stands for: digits with an optional sign, surrounded by blanks. -/
def parseInt (text : Text) : Option Int :=
  match strip text with
  | '+' :: digits => (parseDigits digits).map Int.ofNat
  | '-' :: digits => (parseDigits digits).map (fun value => -Int.ofNat value)
  | digits => (parseDigits digits).map Int.ofNat

def lineBoundaryCodes : List Nat :=
  [0x0A, 0x0B, 0x0C, 0x0D, 0x1C, 0x1D, 0x1E, 0x85, 0x2028, 0x2029]

/-- A line ends after a character, unless a carriage return is followed by a newline. -/
def endsLine (c : Char) (next : Option Char) : Bool :=
  decide (c.toNat ∈ lineBoundaryCodes) && !decide (c = '\r' ∧ next = some '\n')

section Lines

variable {α : Type} (char : α -> Char)

/-- The lines of a text with their ends. -/
def splitLines : List α -> List (List α)
  | [] => []
  | c :: rest =>
    if endsLine (char c) (rest.head?.map char) then [c] :: splitLines rest
    else
      match splitLines rest with
      | [] => [[c]]
      | line :: later => (c :: line) :: later

def WholeLines (text : List α) : Prop :=
  forall last, text.getLast? = some last -> char last = '\n'

variable {first second : List α}

variable {text line : List α}

end Lines

/-!
## Files

A file is what its decoder makes of it: characters, each of which takes up some bytes.
-/

structure Glyph where
  char : Char
  width : Nat
  width_pos : 0 < width

abbrev TextFile := List Glyph

namespace TextFile

def size (file : TextFile) : Nat := (file.map Glyph.width).sum

def text (file : TextFile) : Text := file.map Glyph.char

end TextFile

end Icsw.Foundation
