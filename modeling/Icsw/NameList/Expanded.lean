import Icsw.NameList.CompressList

/-!
# Expanded ranges

A part of the result is read as the numerals that its range stands for, and the joined parts come
apart again at the separators.  A compressed list of numbers stands for exactly its numbers.
-/

namespace Icsw.NameList

open Foundation List

/-- The numerals between two numerals: both of them, or all in the width of the first. -/
def numeralsOf (first last : Text) : List Text :=
  if first = last then [first]
  else if digitsValue first + 1 = digitsValue last then [first, last]
  else (range' (digitsValue first) (digitsValue last + 1 - digitsValue first)).map fun number =>
    numeral first.length number

section Numerals

variable {first last num : Text}

section

variable (h : num ∈ numeralsOf first last)
include h

theorem numeralsOf_bounds (hle : digitsValue first ≤ digitsValue last) :
    digitsValue first ≤ digitsValue num ∧ digitsValue num ≤ digitsValue last := by
  unfold numeralsOf at h
  split_ifs at h with hsame hnext
  · rw [mem_singleton.mp h, hsame]
    exact ⟨le_rfl, le_rfl⟩
  · rcases mem_pair.mp h with rfl | rfl
    · exact ⟨le_rfl, hle⟩
    · exact ⟨hle, le_rfl⟩
  · rcases mem_map.mp h with ⟨number, hnumber, rfl⟩
    rw [digitsValue_numeral]
    rcases mem_range'_1.mp hnumber with ⟨hlow, hhigh⟩
    exact ⟨hlow, by omega⟩

theorem numeralsOf_digits (hfirst : Digits first ∧ first ≠ [])
    (hlast : Digits last ∧ last ≠ []) : Digits num ∧ num ≠ [] := by
  unfold numeralsOf at h
  split_ifs at h with hsame hnext
  · rw [mem_singleton.mp h]
    exact hfirst
  · rcases mem_pair.mp h with rfl | rfl
    · exact hfirst
    · exact hlast
  · rcases mem_map.mp h with ⟨number, hnumber, rfl⟩
    exact ⟨digits_numeral _ _, numeral_ne_nil _ _⟩

theorem numeralsOf_inj {num' : Text}
    (h' : num' ∈ numeralsOf first last) (hvalue : digitsValue num = digitsValue num') :
    num = num' := by
  unfold numeralsOf at h h'
  split_ifs at h h' with hsame hnext
  · rw [mem_singleton.mp h, mem_singleton.mp h']
  · rcases mem_pair.mp h with rfl | rfl
    · rcases mem_pair.mp h' with rfl | rfl
      · rfl
      · omega
    · rcases mem_pair.mp h' with rfl | rfl
      · omega
      · rfl
  · rcases mem_map.mp h with ⟨number, _, rfl⟩
    rcases mem_map.mp h' with ⟨number', _, rfl⟩
    rw [digitsValue_numeral, digitsValue_numeral] at hvalue
    rw [hvalue]

end

theorem exists_numeral {number : Nat} (hlow : digitsValue first ≤ number)
    (hhigh : number ≤ digitsValue last) :
    exists num, num ∈ numeralsOf first last ∧ digitsValue num = number := by
  unfold numeralsOf
  split_ifs with hsame hnext
  · exact ⟨first, mem_singleton.mpr rfl, by rw [← hsame] at hhigh; omega⟩
  · by_cases hfirst : number = digitsValue first
    · exact ⟨first, mem_cons_self, hfirst.symm⟩
    · exact ⟨last, mem_pair.mpr (Or.inr rfl), by omega⟩
  · exact ⟨_, mem_map.mpr ⟨number, mem_range'_1.mpr ⟨hlow, by omega⟩, rfl⟩,
      digitsValue_numeral _ _⟩

theorem numeralsOf_wide (h : num ∈ numeralsOf first last)
    (hwide : digitsValue first + 1 < digitsValue last) :
    num = numeral first.length (digitsValue num) := by
  unfold numeralsOf at h
  split_ifs at h with hsame hnext
  · rw [hsame] at hwide
    omega
  · omega
  · rcases mem_map.mp h with ⟨number, _, rfl⟩
    rw [digitsValue_numeral]

theorem mem_numeralsOf_narrow (hle : digitsValue first ≤ digitsValue last)
    (hsame : digitsValue first = digitsValue last -> first = last)
    (hnarrow : digitsValue last ≤ digitsValue first + 1) :
    first ∈ numeralsOf first last ∧ last ∈ numeralsOf first last := by
  unfold numeralsOf
  by_cases heq : first = last
  · rw [if_pos heq, heq]
    exact ⟨mem_cons_self, mem_cons_self⟩
  · have hnext : digitsValue first + 1 = digitsValue last := by
      have hne : digitsValue first ≠ digitsValue last := fun h => heq (hsame h)
      omega
    rw [if_neg heq, if_pos hnext]
    exact ⟨mem_cons_self, mem_pair.mpr (Or.inr rfl)⟩

end Numerals

def Unmarked (text : Text) : Prop := forall c, c ∈ text -> isRangeMark c = false

theorem unmarked_digits {text : Text} (h : Digits text) : Unmarked text := by
  intro c hc
  unfold isRangeMark
  by_contra hmark
  rw [Bool.not_eq_false, Bool.or_eq_true, beq_iff_eq, beq_iff_eq] at hmark
  have hdigit := h c hc
  rcases hmark with rfl | rfl
  · exact absurd hdigit (by decide)
  · exact absurd hdigit (by decide)

theorem unmarked_append {first second : Text} :
    Unmarked (first ++ second) <-> Unmarked first ∧ Unmarked second := by
  unfold Unmarked
  simp only [mem_append]
  constructor
  · intro h
    exact ⟨fun c hc => h c (Or.inl hc), fun c hc => h c (Or.inr hc)⟩
  · rintro ⟨hfirst, hsecond⟩ c (hc | hc)
    · exact hfirst c hc
    · exact hsecond c hc

theorem expandPart_unmarked {part : Text} (h : Unmarked part) : expandPart part = [part] := by
  have hdrop : part.dropWhile (fun c => !isRangeMark c) = [] := by
    apply dropWhile_eq_nil_iff.mpr
    intro c hc
    rw [h c hc]
    rfl
  unfold expandPart
  rw [hdrop]

theorem expandPart_marked {left right : Text} {mark : Char} (hleft : Unmarked left)
    (hmark : isRangeMark mark = true) :
    expandPart (left ++ mark :: right) =
      if mark = '/' then [left, (splitNumber left).pef ++ right]
      else
        (range' (digitsValue (splitNumber left).num)
          (digitsValue (right.takeWhile Char.isDigit) + 1 - digitsValue (splitNumber left).num)).map
          fun number => (splitNumber left).pef ++
            numeral (splitNumber left).num.length number ++ (splitNumber left).pof := by
  have hkept : forall c, c ∈ left -> (!isRangeMark c) = true := fun c hc => by
    rw [hleft c hc]
    rfl
  have htake : (left ++ mark :: right).takeWhile (fun c => !isRangeMark c) = left := by
    rw [takeWhile_append_of_pos hkept, takeWhile_cons, hmark]
    exact append_nil left
  have hdrop : (left ++ mark :: right).dropWhile (fun c => !isRangeMark c) = mark :: right := by
    rw [dropWhile_append_of_pos hkept, dropWhile_cons, hmark]
    rfl
  unfold expandPart
  rw [htake, hdrop]

theorem expandPart_addP {pef pof sStr eStr : Text}
    (hfirst : PfMatch.Valid { pef := pef, num := sStr, pof := pof }) (hlast : Digits eStr)
    (hpef : Unmarked pef) (hpof : Unmarked pof) :
    expandPart (addP pef pof sStr eStr) =
      (numeralsOf sStr eStr).map fun num => pef ++ num ++ pof := by
  have hleft : Unmarked (pef ++ sStr ++ pof) :=
    unmarked_append.mpr ⟨unmarked_append.mpr ⟨hpef, unmarked_digits hfirst.num⟩, hpof⟩
  have hsplit := splitNumber_text hfirst
  unfold PfMatch.text at hsplit
  dsimp only at hsplit
  unfold addP numeralsOf
  by_cases hsame : sStr = eStr
  · rw [if_pos hsame, if_pos hsame, expandPart_unmarked hleft]
    rfl
  · rw [if_neg hsame, if_neg hsame]
    by_cases hnext : digitsValue sStr + 1 = digitsValue eStr
    · rw [if_pos hnext, if_pos hnext, expandPart_marked hleft rfl, if_pos rfl, hsplit,
        ← append_assoc]
      rfl
    · have hdigits : (eStr ++ pof).takeWhile Char.isDigit = eStr := by
        rw [takeWhile_append_of_pos hlast]
        cases pof with
        | nil => exact append_nil eStr
        | cons c rest =>
          rw [takeWhile_cons, show c.isDigit = false from hfirst.pof c rfl]
          exact append_nil eStr
      rw [if_neg hnext, if_neg hnext, expandPart_marked hleft rfl, if_neg (by decide), hsplit,
        hdigits, map_map]
      rfl

theorem splitParts_cons {c : Char} {text first : Text} {later : List Text}
    (hsep : ¬ (c = ',' ∧ text.head? = some ' ')) (htext : splitParts text = first :: later) :
    splitParts (c :: text) = (c :: first) :: later := by
  cases text with
  | nil =>
    injection htext with hfirst hlater
    rw [← hfirst, ← hlater]
    rfl
  | cons d rest =>
    have hhead : ¬ (c = ',' ∧ d = ' ') := fun h => hsep ⟨h.left, congrArg some h.right⟩
    unfold splitParts
    rw [if_neg hhead, htext]

theorem no_separator_tail {c : Char} {rest : Text} (h : ¬ ", ".toList <:+: c :: rest) :
    ¬ ", ".toList <:+: rest ∧ ¬ (c = ',' ∧ rest.head? = some ' ') := by
  constructor
  · exact fun hwithin => h (hwithin.trans (suffix_cons c rest).isInfix)
  · rintro ⟨rfl, hhead⟩
    cases rest with
    | nil => cases hhead
    | cons d later =>
      injection hhead with hd
      subst hd
      exact h (prefix_append [',', ' '] later).isInfix

theorem splitParts_single {part : Text} (h : ¬ ", ".toList <:+: part) :
    splitParts part = [part] := by
  induction part with
  | nil => rfl
  | cons c rest ih =>
    rcases no_separator_tail h with ⟨hrest, hhead⟩
    exact splitParts_cons hhead (ih hrest)

theorem splitParts_append {part : Text} (h : ¬ ", ".toList <:+: part) (rest : Text) :
    splitParts (part ++ (", ".toList ++ rest)) = part :: splitParts rest := by
  induction part with
  | nil => exact if_pos ⟨rfl, rfl⟩
  | cons c later ih =>
    rcases no_separator_tail h with ⟨hlater, hhead⟩
    refine splitParts_cons ?_ (ih hlater)
    rintro ⟨hc, hspace⟩
    cases later with
    | nil => cases hspace
    | cons d more => exact hhead ⟨hc, hspace⟩

theorem splitParts_intercalate {parts : List Text} (hne : parts ≠ [])
    (h : forall part, part ∈ parts -> ¬ ", ".toList <:+: part) :
    splitParts (intercalate ", ".toList parts) = parts := by
  induction parts with
  | nil => exact absurd rfl hne
  | cons part rest ih =>
    have hpart := h part mem_cons_self
    cases rest with
    | nil =>
      rw [intercalate_singleton]
      exact splitParts_single hpart
    | cons next more =>
      rw [intercalate_cons_cons, append_assoc, splitParts_append hpart,
        ih (cons_ne_nil next more) fun other hother => h other (mem_cons_of_mem part hother)]

theorem intercalate_eq_nil {parts : List Text} (h : intercalate ", ".toList parts = []) :
    parts = [] ∨ parts = [[]] := by
  cases parts with
  | nil => exact Or.inl rfl
  | cons part rest =>
    cases rest with
    | nil =>
      rw [intercalate_singleton] at h
      exact Or.inr (congrArg (fun text => [text]) h)
    | cons next more =>
      rw [intercalate_cons_cons] at h
      have hsep := (append_eq_nil_iff.mp (append_eq_nil_iff.mp h).left).right
      cases hsep

theorem expand_intercalate {parts : List Text} (hempty : parts ≠ [[]])
    (h : forall part, part ∈ parts -> ¬ ", ".toList <:+: part) :
    expand (intercalate ", ".toList parts) = parts.flatMap expandPart := by
  unfold expand
  by_cases hnil : intercalate ", ".toList parts = []
  · rw [if_pos hnil]
    rcases intercalate_eq_nil hnil with rfl | hparts
    · rfl
    · exact absurd hparts hempty
  · rw [if_neg hnil, splitParts_intercalate _ h]
    intro hparts
    rw [hparts] at hnil
    exact hnil rfl

/-- `add_p` of `compress_num_list` -/
def addNumP (sIdx eIdx : Nat) : Text :=
  if eIdx = sIdx then numeral 0 sIdx
  else if eIdx = sIdx + 1 then numeral 0 sIdx ++ '/' :: numeral 0 eIdx
  else numeral 0 sIdx ++ '-' :: numeral 0 eIdx

/-- One number: the ends of the range that is open, and the parts before it. -/
def addNum (exclList : List Int) (state : Option (Nat × Nat) × List Text) (tNum : Nat) :
    Option (Nat × Nat) × List Text :=
  if (tNum : Int) ∈ exclList then state
  else
    match state.1 with
    | none => (some (tNum, tNum), state.2)
    | some (sNum, lNum) =>
      if tNum = lNum + 1 then (some (sNum, tNum), state.2)
      else (some (tNum, tNum), state.2 ++ [addNumP sNum lNum])

/-- The parts, with that of the range that is still open. -/
def closedParts (state : Option (Nat × Nat) × List Text) : List Text :=
  state.2 ++ state.1.toList.map fun range => addNumP range.1 range.2

def compressNumList (ql : List Nat) (exclList : List Int) : Text :=
  intercalate ", ".toList
    (closedParts ((ql.insertionSort (· ≤ ·)).foldl (addNum exclList) (none, [])))

/-- The numbers a compressed list stands for. -/
def expandNumbers (text : Text) : List Nat := (expand text).map digitsValue

theorem addNumP_eq (sIdx eIdx : Nat) :
    addNumP sIdx eIdx = addP [] [] (numeral 0 sIdx) (numeral 0 eIdx) := by
  have hsame : numeral 0 sIdx = numeral 0 eIdx <-> eIdx = sIdx := by
    constructor
    · intro h
      rw [<- digitsValue_numeral 0 eIdx, <- h, digitsValue_numeral]
    · intro h
      rw [h]
  unfold addNumP addP
  simp only [hsame, digitsValue_numeral, nil_append, append_nil, eq_comm (a := sIdx + 1)]

/-- The numbers of a range. -/
def rangeNumbers (range : Nat × Nat) : List Nat := range' range.1 (range.2 + 1 - range.1)

theorem expandPart_addNumP {sIdx eIdx : Nat} (h : sIdx ≤ eIdx) :
    (expandPart (addNumP sIdx eIdx)).map digitsValue = rangeNumbers (sIdx, eIdx) := by
  have hdigits := digits_numeral 0 sIdx
  have hline : '\n' ∉ numeral 0 sIdx := fun hmem => Bool.noConfusion (hdigits _ hmem)
  have hvalid : PfMatch.Valid ⟨[], numeral 0 sIdx, []⟩ :=
    ⟨nofun, hdigits, numeral_ne_nil 0 sIdx, nofun, by simpa using hline⟩
  rw [addNumP_eq, expandPart_addP hvalid (digits_numeral 0 eIdx) nofun nofun]
  unfold numeralsOf rangeNumbers
  simp only [digitsValue_numeral, nil_append, append_nil, map_id']
  split_ifs with hsame hnext
  · have heq := congrArg digitsValue hsame
    rw [digitsValue_numeral, digitsValue_numeral] at heq
    subst heq
    rw [Nat.add_sub_cancel_left]
    simp [digitsValue_numeral]
  · subst hnext
    rw [show sIdx + 1 + 1 - sIdx = 2 by omega]
    simp [digitsValue_numeral, range'_succ]
  · simp [Function.comp_def, digitsValue_numeral]

theorem mem_addNumP {sIdx eIdx : Nat} {c : Char} (h : c ∈ addNumP sIdx eIdx) :
    c.isDigit = true ∨ isRangeMark c = true := by
  have hdigits := digits_numeral 0
  unfold addNumP at h
  split_ifs at h
  · exact Or.inl (hdigits sIdx c h)
  all_goals
    rcases mem_append.mp h with hfirst | hrest
    · exact Or.inl (hdigits sIdx c hfirst)
    · rcases mem_cons.mp hrest with rfl | hlast
      · exact Or.inr rfl
      · exact Or.inl (hdigits eIdx c hlast)

theorem addNumP_ne_nil (sIdx eIdx : Nat) : addNumP sIdx eIdx ≠ [] := by
  have hne := numeral_ne_nil 0 sIdx
  unfold addNumP
  split_ifs
  · exact hne
  · exact append_ne_nil_of_left_ne_nil hne _
  · exact append_ne_nil_of_left_ne_nil hne _

/-- The ranges of the parts, and the numbers they stand for. -/
theorem exists_ranges (exclList : List Int) (ql : List Nat)
    (state : Option (Nat × Nat) × List Text) (h : forall range, range ∈ state.1 -> range.1 ≤ range.2) :
    exists ranges : List (Nat × Nat),
      closedParts (ql.foldl (addNum exclList) state) =
          state.2 ++ ranges.map (fun range => addNumP range.1 range.2) ∧
        (forall range, range ∈ ranges -> range.1 ≤ range.2) ∧
        ranges.flatMap rangeNumbers = state.1.toList.flatMap rangeNumbers ++
          ql.filter fun number : Nat => (number : Int) ∉ exclList := by
  induction ql generalizing state with
  | nil => exact ⟨state.1.toList, rfl, by simpa using h, (append_nil _).symm⟩
  | cons tNum rest ih =>
    rw [foldl_cons, addNum]
    by_cases hexcl : (tNum : Int) ∈ exclList
    · rw [if_pos hexcl, filter_cons_of_neg (by simpa using hexcl)]
      exact ih state h
    · have hsingle : rangeNumbers (tNum, tNum) = [tNum] := by simp [rangeNumbers]
      rw [if_neg hexcl, filter_cons_of_pos (by simpa using hexcl)]
      rcases state with ⟨_ | ⟨sNum, lNum⟩, parts⟩
      · simpa [hsingle] using ih (some (tNum, tNum), parts) (by simp)
      · have hle : sNum ≤ lNum := h _ rfl
        dsimp only
        by_cases hnext : tNum = lNum + 1
        · have hopen : rangeNumbers (sNum, tNum) = rangeNumbers (sNum, lNum) ++ [tNum] := by
            unfold rangeNumbers
            rw [show tNum + 1 - sNum = lNum + 1 - sNum + 1 by omega, range'_concat]
            congr 2
            omega
          rw [if_pos hnext]
          simpa [hopen] using ih (some (sNum, tNum), parts) (by simp; omega)
        · rw [if_neg hnext]
          rcases ih (some (tNum, tNum), parts ++ [addNumP sNum lNum]) (by simp) with
            ⟨ranges, hparts, hranges, hall⟩
          refine ⟨(sNum, lNum) :: ranges, ?_, forall_mem_cons.mpr ⟨hle, hranges⟩, ?_⟩
          · rw [hparts, append_assoc]
            rfl
          · simpa [hsingle] using hall

theorem compress_num_list_exact (ql : List Nat) (exclList : List Int) :
    expandNumbers (compressNumList ql exclList) =
      (ql.insertionSort (· ≤ ·)).filter fun number : Nat => (number : Int) ∉ exclList := by
  rcases exists_ranges exclList (ql.insertionSort (· ≤ ·)) (none, []) nofun with
    ⟨ranges, hparts, hle, hall⟩
  unfold expandNumbers compressNumList
  rw [hparts, nil_append, expand_intercalate, flatMap_map, map_flatMap]
  · exact (flatMap_congr fun range hrange => expandPart_addNumP (hle range hrange)).trans hall
  · intro heq
    have hmem : [] ∈ ranges.map fun range => addNumP range.1 range.2 := heq ▸ mem_cons_self
    rcases mem_map.mp hmem with ⟨range, _, hnil⟩
    exact addNumP_ne_nil _ _ hnil
  · intro part hpart hsep
    rcases mem_map.mp hpart with ⟨range, _, rfl⟩
    rcases mem_addNumP (hsep.subset (show ' ' ∈ ", ".toList by decide)) with hdigit | hmark
    · cases hdigit
    · cases hmark

end Icsw.NameList
