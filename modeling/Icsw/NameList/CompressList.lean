import Icsw.Foundation.Dict
import Icsw.Foundation.Decimal
import Icsw.Foundation.TextOrder
import Icsw.Foundation.Runs

/-!
# Compressed lists of names

Names that differ only in their first number are put together to ranges.  Reading the ranges again
gives the names that a compressed list stands for.
-/

namespace Icsw.NameList

open Foundation List

/-- The groups of `^(?P<pef>.*?)(?P<num>\d+)(?P<pof>.*)$`. -/
structure PfMatch where
  pef : Text
  num : Text
  pof : Text
deriving DecidableEq

/-- The end of a line may stand before a last line break. -/
def lineOf (text : Text) : Text :=
  if text.getLast? = some '\n' then text.dropLast else text

/-- What stands before the first digit, the digits there, and what stands behind them. -/
def splitNumber (text : Text) : PfMatch :=
  let found := text.dropWhile fun c => !c.isDigit
  { pef := text.takeWhile fun c => !c.isDigit
    num := found.takeWhile Char.isDigit
    pof := found.dropWhile Char.isDigit }

/-- A dot matches everything but a line break. -/
def pfMatch (qE : Text) : Option PfMatch :=
  if '\n' ∈ lineOf qE ∨ (splitNumber (lineOf qE)).num = [] then none
  else some (splitNumber (lineOf qE))

abbrev NcDict := Dict Text (Dict Text (Dict Nat Text))

def addMatch (ncDict : NcDict) (pfM : PfMatch) : NcDict :=
  let group := (ncDict.lookup pfM.pef).getD ∅
  let actL := (group.lookup pfM.pof).getD ∅
  ncDict.insert pfM.pef (group.insert pfM.pof (actL.insert (digitsValue pfM.num) pfM.num))

def addP (np ap sStr eStr : Text) : Text :=
  if sStr = eStr then np ++ sStr ++ ap
  else if digitsValue sStr + 1 = digitsValue eStr then np ++ sStr ++ ap ++ '/' :: (eStr ++ ap)
  else np ++ sStr ++ ap ++ '-' :: (eStr ++ ap)

/-- The range that is open: its first numeral, and its last one with the number. -/
structure OpenRange where
  sNum : Text
  lNum : Text
  lIdx : Nat

/-- One number of a group, in increasing order. -/
def addNumber (pef pof : Text) (state : Option OpenRange × List Text) (entry : Nat × Text) :
    Option OpenRange × List Text :=
  match state.1 with
  | none => (some { sNum := entry.2, lNum := entry.2, lIdx := entry.1 }, state.2)
  | some range =>
    if entry.1 = range.lIdx + 1 then
      (some { range with lNum := entry.2, lIdx := entry.1 }, state.2)
    else
      (some { sNum := entry.2, lNum := entry.2, lIdx := entry.1 },
        state.2 ++ [addP pef pof range.sNum range.lNum])

def sortedEntries (actL : Dict Nat Text) : List (Nat × Text) :=
  (actL.keys.insertionSort fun idx other => idx ≤ other).map fun idx =>
    (idx, (actL.lookup idx).getD [])

/-- The ranges of a group; the last one is added only with a text in front of the numbers. -/
def groupRanges (pef pof : Text) (actL : Dict Nat Text) : List Text :=
  let state := (sortedEntries actL).foldl (addNumber pef pof) (none, [])
  if pef ≠ [] then
    state.2 ++ state.1.toList.map fun range => addP pef pof range.sNum range.lNum
  else state.2

def ncDictOf (ql : List Text) : NcDict := (ql.filterMap pfMatch).foldl addMatch ∅

def unmatchList (ql : List Text) : List Text := ql.filter fun qE => pfMatch qE = none

def ncA (ncDict : NcDict) : List Text :=
  ncDict.items.flatMap fun group => group.2.items.flatMap fun part =>
    groupRanges group.1 part.1 part.2

/-- The parts of the result in their order. -/
def compressedParts (ql : List Text) : List Text :=
  sortedTexts (ncA (ncDictOf ql)) ++ sortedTexts (unmatchList ql)

def compressList (ql : List Text) (separator : Text) : Text :=
  intercalate separator (compressedParts ql)

/-- The parts between the separators; nothing has no parts. -/
def splitParts : Text -> List Text
  | [] => [[]]
  | [c] => [[c]]
  | c :: d :: rest =>
    if c = ',' ∧ d = ' ' then [] :: splitParts rest
    else
      match splitParts (d :: rest) with
      | [] => [[c]]
      | first :: later => (c :: first) :: later

def isRangeMark (c : Char) : Bool := c == '-' || c == '/'

/-- A range stands for both its ends, or for all numbers between them in the width of the first. -/
def expandPart (part : Text) : List Text :=
  let left := part.takeWhile fun c => !isRangeMark c
  match part.dropWhile fun c => !isRangeMark c with
  | [] => [part]
  | mark :: right =>
    let first := splitNumber left
    if mark = '/' then [left, first.pef ++ right]
    else
      let low := digitsValue first.num
      let high := digitsValue (right.takeWhile Char.isDigit)
      (range' low (high + 1 - low)).map fun number =>
        first.pef ++ numeral first.num.length number ++ first.pof

/-- The names a compressed list stands for. -/
def expand (text : Text) : List Text :=
  if text = [] then [] else (splitParts text).flatMap expandPart

example : compressList ["node1".toList, "a".toList, "node3".toList, "node2".toList] ", ".toList =
    "node1-3, a".toList := by decide +kernel

/-!
## Groups of names

What the dictionary of the groups holds, and the ranges of one group as the runs of its numbers.
-/

/-- The parts of a match: nothing before the number has a digit, the number ends where the digits
end, and all is in one line. -/
structure PfMatch.Valid (pfM : PfMatch) : Prop where
  pef : forall c, c ∈ pfM.pef -> c.isDigit = false
  num : Digits pfM.num
  num_ne : pfM.num ≠ []
  pof : forall c, c ∈ pfM.pof.head? -> c.isDigit = false
  line : '\n' ∉ pfM.pef ++ pfM.num ++ pfM.pof

def PfMatch.text (pfM : PfMatch) : Text := pfM.pef ++ pfM.num ++ pfM.pof

theorem splitNumber_text {pfM : PfMatch} (h : pfM.Valid) : splitNumber pfM.text = pfM := by
  rcases pfM with ⟨pef, num, pof⟩
  have hnum : forall c, c ∈ num -> (!c.isDigit) = false := fun c hc => by
    rw [show c.isDigit = true from h.num c hc]
    rfl
  have hpef : forall c, c ∈ pef -> (!c.isDigit) = true := fun c hc => by
    rw [show c.isDigit = false from h.pef c hc]
    rfl
  have htail : (num ++ pof).takeWhile (fun c => !c.isDigit) = [] ∧
      (num ++ pof).dropWhile (fun c => !c.isDigit) = num ++ pof := by
    cases num with
    | nil => exact absurd rfl h.num_ne
    | cons c rest =>
      have hc := hnum c mem_cons_self
      exact ⟨by rw [cons_append, takeWhile_cons, hc]; rfl,
        by rw [cons_append, dropWhile_cons, hc]; rfl⟩
  have hpof : pof.takeWhile Char.isDigit = [] ∧ pof.dropWhile Char.isDigit = pof := by
    cases pof with
    | nil => exact ⟨rfl, rfl⟩
    | cons c rest =>
      have hc : c.isDigit = false := h.pof c rfl
      exact ⟨by rw [takeWhile_cons, hc]; rfl, by rw [dropWhile_cons, hc]; rfl⟩
  unfold splitNumber PfMatch.text
  dsimp only
  rw [append_assoc, dropWhile_append_of_pos hpef, takeWhile_append_of_pos hpef,
    htail.left, htail.right, append_nil, takeWhile_append_of_pos h.num,
    dropWhile_append_of_pos h.num, hpof.left, hpof.right, append_nil]

theorem splitNumber_append (text : Text) :
    (splitNumber text).pef ++ (splitNumber text).num ++ (splitNumber text).pof = text := by
  unfold splitNumber
  dsimp only
  rw [append_assoc, takeWhile_append_dropWhile, takeWhile_append_dropWhile]

theorem valid_of_pfMatch {qE : Text} {pfM : PfMatch} (h : pfMatch qE = some pfM) :
    pfM.Valid ∧ pfM.text = lineOf qE := by
  unfold pfMatch at h
  split_ifs at h with hnone
  injection h with h
  subst h
  rw [not_or] at hnone
  refine ⟨?_, splitNumber_append _⟩
  exact
    { pef := fun c hc => by
        have hnot := mem_takeWhile_imp hc
        simpa using hnot
      num := fun c hc => mem_takeWhile_imp hc
      num_ne := hnone.right
      pof := fun c hc => by
        have hnot := head?_dropWhile_not Char.isDigit
          ((lineOf qE).dropWhile fun c => !c.isDigit)
        unfold splitNumber at hc
        dsimp only at hc
        rw [hc] at hnot
        simpa using hnot
      line := by
        rw [splitNumber_append]
        exact hnone.left }

theorem lineOf_eq {text : Text} (h : '\n' ∉ text) : lineOf text = text :=
  if_neg fun hlast => h (mem_of_getLast? hlast)

theorem pfMatch_text {pfM : PfMatch} (h : pfM.Valid) : pfMatch pfM.text = some pfM := by
  have hline : '\n' ∉ pfM.text := h.line
  unfold pfMatch
  rw [lineOf_eq hline, splitNumber_text h, if_neg]
  rw [not_or]
  exact ⟨hline, h.num_ne⟩

/-- The numbers of the names with the same text around them. -/
def NcDict.group (ncDict : NcDict) (pef pof : Text) : Dict Nat Text :=
  (((ncDict.lookup pef).getD ∅).lookup pof).getD ∅

theorem group_addMatch (ncDict : NcDict) (pfM : PfMatch) (pef pof : Text) :
    NcDict.group (addMatch ncDict pfM) pef pof =
      if pfM.pef = pef ∧ pfM.pof = pof then
        (ncDict.group pef pof).insert (digitsValue pfM.num) pfM.num
      else ncDict.group pef pof := by
  unfold NcDict.group addMatch
  dsimp only
  rw [Dict.lookup_insert_if]
  by_cases hpef : pfM.pef = pef
  · rw [if_pos hpef, Option.getD_some, Dict.lookup_insert_if]
    by_cases hpof : pfM.pof = pof
    · rw [if_pos hpof, if_pos ⟨hpef, hpof⟩, hpef, hpof]
      rfl
    · rw [if_neg hpof, if_neg fun h => hpof h.right, hpef]
  · rw [if_neg hpef, if_neg fun h => hpef h.left]

/-- What a group has been assigned, in the order of the names. -/
def assigned (matched : List PfMatch) (pef pof : Text) : List (Nat × Text) :=
  (matched.filter fun pfM => pfM.pef = pef ∧ pfM.pof = pof).map fun pfM =>
    (digitsValue pfM.num, pfM.num)

theorem group_foldl (matched : List PfMatch) (ncDict : NcDict) (pef pof : Text) :
    NcDict.group (matched.foldl addMatch ncDict) pef pof =
      (ncDict.group pef pof).assign (assigned matched pef pof) := by
  induction matched generalizing ncDict with
  | nil => rfl
  | cons pfM rest ih =>
    rw [foldl_cons, ih, group_addMatch]
    unfold assigned
    by_cases hsame : pfM.pef = pef ∧ pfM.pof = pof
    · rw [if_pos hsame, filter_cons, if_pos (decide_eq_true hsame)]
      rfl
    · rw [if_neg hsame, filter_cons, if_neg fun h => hsame (of_decide_eq_true h)]

theorem group_ncDictOf (ql : List Text) (pef pof : Text) :
    (ncDictOf ql).group pef pof =
      (∅ : Dict Nat Text).assign (assigned (ql.filterMap pfMatch) pef pof) :=
  group_foldl _ ∅ pef pof

theorem lookup_group {ql : List Text} {pef pof num : Text} {idx : Nat}
    (h : ((ncDictOf ql).group pef pof).lookup idx = some num) :
    exists name pfM, name ∈ ql ∧ pfMatch name = some pfM ∧ pfM.pef = pef ∧ pfM.pof = pof ∧
      pfM.num = num ∧ digitsValue num = idx := by
  rw [group_ncDictOf, Dict.lookup_assign] at h
  rcases Option.map_eq_some_iff.mp h with ⟨entry, hlast, hnum⟩
  rcases mem_filter.mp (mem_of_getLast? hlast) with ⟨hentry, hidx⟩
  rcases mem_map.mp hentry with ⟨pfM, hpfM, rfl⟩
  rcases mem_filter.mp hpfM with ⟨hmatched, hsame⟩
  rcases mem_filterMap.mp hmatched with ⟨name, hname, hmatch⟩
  have hparts := of_decide_eq_true hsame
  exact ⟨name, pfM, hname, hmatch, hparts.left, hparts.right, hnum, hnum ▸ of_decide_eq_true hidx⟩

theorem exists_lookup_group {ql : List Text} {name : Text} {pfM : PfMatch} (hname : name ∈ ql)
    (hmatch : pfMatch name = some pfM) :
    exists num, ((ncDictOf ql).group pfM.pef pfM.pof).lookup (digitsValue pfM.num) = some num := by
  have hentry : (digitsValue pfM.num, pfM.num) ∈
      (assigned (ql.filterMap pfMatch) pfM.pef pfM.pof).filter
        fun entry => entry.1 = digitsValue pfM.num := by
    refine mem_filter.mpr ⟨mem_map.mpr ⟨pfM, mem_filter.mpr ⟨?_, ?_⟩, rfl⟩, ?_⟩
    · exact mem_filterMap.mpr ⟨name, hname, hmatch⟩
    · exact decide_eq_true ⟨rfl, rfl⟩
    · exact decide_eq_true rfl
  rw [group_ncDictOf, Dict.lookup_assign]
  rcases Option.isSome_iff_exists.mp
    (getLast?_isSome.mpr (ne_nil_of_mem hentry)) with ⟨last, hlast⟩
  exact ⟨last.2, by rw [hlast]; rfl⟩

theorem mem_sortedEntries {actL : Dict Nat Text} {idx : Nat} {num : Text} :
    (idx, num) ∈ sortedEntries actL <-> actL.lookup idx = some num := by
  unfold sortedEntries
  rw [mem_map]
  constructor
  · rintro ⟨idx', hidx, heq⟩
    injection heq with hkey hnum
    rw [(perm_insertionSort _ actL.keys).mem_iff] at hidx
    rcases Dict.exists_lookup (AList.mem_keys.mpr hidx) with ⟨held, hheld⟩
    rw [hheld] at hnum
    rw [← hkey, hheld, ← hnum]
    rfl
  · intro h
    refine ⟨idx, ?_, by rw [h]; rfl⟩
    rw [(perm_insertionSort _ actL.keys).mem_iff]
    exact AList.mem_keys.mp (Dict.mem_of_lookup h)

theorem sortedEntries_pairwise (actL : Dict Nat Text) :
    (sortedEntries actL).Pairwise fun entry later => entry.1 < later.1 := by
  unfold sortedEntries
  rw [pairwise_map]
  have hordered := pairwise_insertionSort (fun idx other : Nat => idx ≤ other) actL.keys
  have hnodup := (perm_insertionSort (fun idx other : Nat => idx ≤ other) actL.keys).nodup_iff.mpr
    actL.keys_nodup
  exact (hordered.and hnodup).imp fun h => lt_of_le_of_ne h.left h.right

def rangePart (pef pof : Text) (run : (Nat × Text) × (Nat × Text)) : Text :=
  addP pef pof run.1.2 run.2.2

theorem addNumber_some (pef pof : Text) (range : OpenRange) (out : List Text) (entry : Nat × Text) :
    addNumber pef pof (some range, out) entry =
      if entry.1 = range.lIdx + 1 then
        (some { range with lNum := entry.2, lIdx := entry.1 }, out)
      else
        (some { sNum := entry.2, lNum := entry.2, lIdx := entry.1 },
          out ++ [addP pef pof range.sNum range.lNum]) := rfl

theorem foldl_addNumber (pef pof : Text) (entries : List (Nat × Text)) (first : Nat × Text)
    (last : Nat × Text) (out : List Text) :
    exists range : OpenRange, exists closed,
      entries.foldl (addNumber pef pof)
        (some { sNum := first.2, lNum := last.2, lIdx := last.1 }, out) = (some range, out ++ closed) ∧
      (runsFrom Prod.fst first last entries).map (rangePart pef pof) =
        closed ++ [addP pef pof range.sNum range.lNum] := by
  induction entries generalizing first last out with
  | nil => exact ⟨_, [], by rw [append_nil]; rfl, rfl⟩
  | cons entry rest ih =>
    rw [foldl_cons, runsFrom, addNumber_some]
    by_cases hnext : entry.1 = last.1 + 1
    · rw [if_pos hnext, if_pos hnext]
      exact ih first entry out
    · rw [if_neg hnext, if_neg hnext]
      rcases ih entry entry (out ++ [addP pef pof first.2 last.2]) with
        ⟨range, closed, hfold, hruns⟩
      refine ⟨range, addP pef pof first.2 last.2 :: closed, ?_, ?_⟩
      · rw [hfold, append_assoc]
        rfl
      · rw [map_cons, hruns]
        rfl

/-- The runs of a group whose ranges are added. -/
def keptRuns (pef : Text) (actL : Dict Nat Text) : List ((Nat × Text) × (Nat × Text)) :=
  if pef ≠ [] then runs Prod.fst (sortedEntries actL)
  else (runs Prod.fst (sortedEntries actL)).dropLast

theorem groupRanges_eq (pef pof : Text) (actL : Dict Nat Text) :
    groupRanges pef pof actL = (keptRuns pef actL).map (rangePart pef pof) := by
  unfold groupRanges keptRuns
  cases hentries : sortedEntries actL with
  | nil =>
    dsimp only [foldl_nil]
    split_ifs <;> rfl
  | cons entry rest =>
    rcases foldl_addNumber pef pof rest entry entry [] with ⟨range, closed, hfold, hruns⟩
    have hstate : (entry :: rest).foldl (addNumber pef pof) (none, []) = (some range, closed) :=
      hfold
    have hall : (runs Prod.fst (entry :: rest)).map (rangePart pef pof) =
        closed ++ [addP pef pof range.sNum range.lNum] := hruns
    dsimp only
    rw [hstate]
    by_cases hpef : pef ≠ []
    · rw [if_pos hpef, if_pos hpef, hall]
      rfl
    · rw [if_neg hpef, if_neg hpef, map_dropLast, hall, dropLast_concat]

theorem mem_ncA {ncDict : NcDict} {part : Text} :
    part ∈ ncA ncDict <-> exists pef pof run, run ∈ keptRuns pef (ncDict.group pef pof) ∧
      rangePart pef pof run = part := by
  unfold ncA
  simp only [mem_flatMap]
  constructor
  · rintro ⟨⟨pef, group⟩, hgroup, ⟨pof, actL⟩, hactL, hpart⟩
    rw [Dict.mem_items] at hgroup hactL
    rw [groupRanges_eq] at hpart
    rcases mem_map.mp hpart with ⟨run, hrun, heq⟩
    refine ⟨pef, pof, run, ?_, heq⟩
    unfold NcDict.group
    rw [hgroup, Option.getD_some, hactL]
    exact hrun
  · rintro ⟨pef, pof, run, hrun, heq⟩
    unfold NcDict.group at hrun
    cases hgroup : ncDict.lookup pef with
    | none =>
      rw [hgroup] at hrun
      exact absurd hrun (by unfold keptRuns; split_ifs <;> exact not_mem_nil)
    | some group =>
      rw [hgroup, Option.getD_some] at hrun
      cases hactL : group.lookup pof with
      | none =>
        rw [hactL] at hrun
        exact absurd hrun (by unfold keptRuns; split_ifs <;> exact not_mem_nil)
      | some actL =>
        rw [hactL] at hrun
        refine ⟨(pef, group), Dict.mem_items.mpr hgroup, (pof, actL), Dict.mem_items.mpr hactL, ?_⟩
        rw [groupRanges_eq]
        exact mem_map.mpr ⟨run, hrun, heq⟩

end Icsw.NameList
