import Icsw.NameList.Expanded
import Mathlib.Data.List.Infix

/-!
# When compressing loses nothing

A compressed list stands for its names exactly when no name begins with a digit or ends with a line
break behind its number, and in one group no number comes twice and three in a row have one width.
-/

namespace Icsw.NameList

open Foundation List

/-- A name without the separators. -/
structure FreeName (name : Text) : Prop where
  unmarked : Unmarked name
  separator : ¬ ", ".toList <:+: name

def SameGroup (first second : PfMatch) : Prop :=
  first.pef = second.pef ∧ first.pof = second.pof

/-- The second number is the next one, written with at least as many digits. -/
def CountedUp (first second : PfMatch) : Prop :=
  second.num = numeral first.num.length (digitsValue first.num + 1)

structure Compressible (ql : List Text) : Prop where
  nonempty : ql ≠ [[]]
  lines : forall name pfM, name ∈ ql -> pfMatch name = some pfM -> lineOf name = name
  prefixed : forall name pfM, name ∈ ql -> pfMatch name = some pfM -> pfM.pef ≠ []
  numbers : forall name name' pfM pfM', name ∈ ql -> name' ∈ ql -> pfMatch name = some pfM ->
    pfMatch name' = some pfM' -> SameGroup pfM pfM' ->
      digitsValue pfM.num = digitsValue pfM'.num -> name = name'
  widths : forall name name' name'' pfM pfM' pfM'', name ∈ ql -> name' ∈ ql -> name'' ∈ ql ->
    pfMatch name = some pfM -> pfMatch name' = some pfM' -> pfMatch name'' = some pfM'' ->
      SameGroup pfM pfM' -> SameGroup pfM' pfM'' ->
        digitsValue pfM'.num = digitsValue pfM.num + 1 ->
        digitsValue pfM''.num = digitsValue pfM'.num + 1 ->
          CountedUp pfM pfM' ∧ CountedUp pfM' pfM''

theorem lineOf_start (name : Text) : lineOf name <+: name := by
  unfold lineOf
  split_ifs
  · exact dropLast_prefix name
  · exact prefix_refl name

section Free

variable {ql : List Text} (hfree : forall name, name ∈ ql -> FreeName name)

include hfree

theorem free_match {name : Text} {pfM : PfMatch} (hname : name ∈ ql)
    (hmatch : pfMatch name = some pfM) :
    Unmarked pfM.pef ∧ Unmarked pfM.pof ∧ ¬ ", ".toList <:+: pfM.text := by
  have hwithin : pfM.text <:+: name := by
    rw [(valid_of_pfMatch hmatch).right]
    exact (lineOf_start name).isInfix
  have hunmarked : Unmarked pfM.text := fun c hc => (hfree name hname).unmarked c (hwithin.mem hc)
  unfold PfMatch.text at hunmarked
  rw [unmarked_append, unmarked_append] at hunmarked
  exact ⟨hunmarked.left.left, hunmarked.right, fun h => (hfree name hname).separator (h.trans hwithin)⟩

end Free

theorem run_matches {ql : List Text} {pef pof : Text} {run : (Nat × Text) × (Nat × Text)}
    (hrun : run ∈ runs Prod.fst (sortedEntries ((ncDictOf ql).group pef pof))) :
    (exists name, name ∈ ql ∧ pfMatch name = some { pef := pef, num := run.1.2, pof := pof }) ∧
    (exists name, name ∈ ql ∧ pfMatch name = some { pef := pef, num := run.2.2, pof := pof }) ∧
    digitsValue run.1.2 = run.1.1 ∧ digitsValue run.2.2 = run.2.1 := by
  rcases runs_ends hrun with ⟨hfirst, hlast⟩
  rcases lookup_group (mem_sortedEntries.mp hfirst) with
    ⟨name, ⟨_, _, _⟩, hname, hmatch, rfl, rfl, rfl, hvalue⟩
  rcases lookup_group (mem_sortedEntries.mp hlast) with
    ⟨name', ⟨_, _, _⟩, hname', hmatch', hpef, hpof, hnum, hvalue'⟩
  dsimp only at hpef hpof hnum
  subst hpef hpof hnum
  exact ⟨⟨name, hname, hmatch⟩, ⟨name', hname', hmatch'⟩, hvalue, hvalue'⟩

theorem mem_runs_of_kept {pef : Text} {actL : Dict Nat Text} {run : (Nat × Text) × (Nat × Text)}
    (h : run ∈ keptRuns pef actL) : run ∈ runs Prod.fst (sortedEntries actL) := by
  unfold keptRuns at h
  split_ifs at h
  · exact h
  · exact dropLast_subset _ h

theorem no_separator_mark {first rest : Text} {mark : Char} (hmark : isRangeMark mark = true)
    (hfirst : ¬ ", ".toList <:+: first) (hrest : ¬ ", ".toList <:+: rest) :
    ¬ ", ".toList <:+: first ++ mark :: rest := by
  have hmark' : mark ≠ ',' ∧ mark ≠ ' ' := by
    constructor
    · rintro rfl
      exact absurd hmark (by decide)
    · rintro rfl
      exact absurd hmark (by decide)
  induction first with
  | nil =>
    intro h
    rcases infix_cons_iff.mp h with hstart | hwithin
    · exact hmark'.left (cons_prefix_cons.mp hstart).left.symm
    · exact hrest hwithin
  | cons c later ih =>
    rcases no_separator_tail hfirst with ⟨hlater, hhead⟩
    intro h
    rcases infix_cons_iff.mp h with hstart | hwithin
    · rcases cons_prefix_cons.mp hstart with ⟨hc, hspace⟩
      cases later with
      | nil => exact hmark'.right (cons_prefix_cons.mp hspace).left.symm
      | cons d more =>
        exact hhead ⟨hc.symm, congrArg some (cons_prefix_cons.mp hspace).left.symm⟩
    · exact ih hlater hwithin

section Expand

variable {ql : List Text} (hfree : forall name, name ∈ ql -> FreeName name)

include hfree

theorem no_separator_part {part : Text} (h : part ∈ compressedParts ql) :
    ¬ ", ".toList <:+: part := by
  unfold compressedParts at h
  rw [mem_append, mem_sortedTexts, mem_sortedTexts] at h
  rcases h with hrange | hunmatched
  · rcases mem_ncA.mp hrange with ⟨pef, pof, run, hkept, rfl⟩
    rcases run_matches (mem_runs_of_kept hkept) with
      ⟨⟨name, hname, hmatch⟩, ⟨name', hname', hmatch'⟩, _, _⟩
    have hfirst := (free_match hfree hname hmatch).right.right
    have hlast : ¬ ", ".toList <:+: run.2.2 ++ pof := by
      intro hwithin
      refine (free_match hfree hname' hmatch').right.right (hwithin.trans ?_)
      unfold PfMatch.text
      dsimp only
      rw [append_assoc]
      exact (suffix_append pef _).isInfix
    unfold rangePart addP
    split_ifs
    · exact hfirst
    · exact no_separator_mark rfl hfirst hlast
    · exact no_separator_mark rfl hfirst hlast
  · exact (hfree part (mem_filter.mp hunmatched).left).separator

theorem mem_expand (hempty : compressedParts ql ≠ [[]]) {text : Text} :
    text ∈ expand (compressList ql ", ".toList) <->
      text ∈ unmatchList ql ∨ exists pef pof run num,
        run ∈ keptRuns pef ((ncDictOf ql).group pef pof) ∧ num ∈ numeralsOf run.1.2 run.2.2 ∧
          pef ++ num ++ pof = text := by
  unfold compressList
  rw [expand_intercalate hempty fun part => no_separator_part hfree, mem_flatMap]
  unfold compressedParts
  simp only [mem_append, mem_sortedTexts]
  have hrange : forall {pef pof : Text} {run : (Nat × Text) × (Nat × Text)},
      run ∈ keptRuns pef ((ncDictOf ql).group pef pof) ->
      expandPart (rangePart pef pof run) =
        (numeralsOf run.1.2 run.2.2).map fun num => pef ++ num ++ pof := by
    intro pef pof run hkept
    rcases run_matches (mem_runs_of_kept hkept) with
      ⟨⟨name, hname, hmatch⟩, ⟨name', hname', hmatch'⟩, _, _⟩
    have hparts := free_match hfree hname hmatch
    exact expandPart_addP (valid_of_pfMatch hmatch).left (valid_of_pfMatch hmatch').left.num
      hparts.left hparts.right.left
  have hunmatched : forall {name : Text}, name ∈ unmatchList ql -> expandPart name = [name] :=
    fun hname => expandPart_unmarked (hfree _ (mem_filter.mp hname).left).unmarked
  constructor
  · rintro ⟨part, hpart | hpart, htext⟩
    · rcases mem_ncA.mp hpart with ⟨pef, pof, run, hkept, rfl⟩
      rw [hrange hkept] at htext
      rcases mem_map.mp htext with ⟨num, hnum, heq⟩
      exact Or.inr ⟨pef, pof, run, num, hkept, hnum, heq⟩
    · rw [hunmatched hpart, mem_singleton] at htext
      exact Or.inl (htext ▸ hpart)
  · rintro (htext | ⟨pef, pof, run, num, hkept, hnum, heq⟩)
    · refine ⟨text, Or.inr htext, ?_⟩
      rw [hunmatched htext]
      exact mem_singleton.mpr rfl
    · refine ⟨rangePart pef pof run, Or.inl (mem_ncA.mpr ⟨pef, pof, run, hkept, rfl⟩), ?_⟩
      rw [hrange hkept]
      exact mem_map.mpr ⟨num, hnum, heq⟩

end Expand

section Runs

variable {ql : List Text} {pef pof : Text} {run : (Nat × Text) × (Nat × Text)} {num : Text}

variable {idx : Nat}

theorem entry_match (h : (idx, num) ∈ sortedEntries ((ncDictOf ql).group pef pof)) :
    digitsValue num = idx ∧
      exists name, name ∈ ql ∧ pfMatch name = some { pef := pef, num := num, pof := pof } := by
  rcases lookup_group (mem_sortedEntries.mp h) with
    ⟨name, ⟨_, _, _⟩, hname, hmatch, rfl, rfl, rfl, hvalue⟩
  exact ⟨hvalue, name, hname, hmatch⟩

theorem entry_unique {num num' : Text}
    (h : (idx, num) ∈ sortedEntries ((ncDictOf ql).group pef pof))
    (h' : (idx, num') ∈ sortedEntries ((ncDictOf ql).group pef pof)) : num = num' := by
  rw [mem_sortedEntries] at h h'
  rw [h] at h'
  exact Option.some.inj h'

theorem value_bounds (hrun : run ∈ runs Prod.fst (sortedEntries ((ncDictOf ql).group pef pof)))
    (hnum : num ∈ numeralsOf run.1.2 run.2.2) :
    run.1.1 ≤ digitsValue num ∧ digitsValue num ≤ run.2.1 := by
  rcases run_matches hrun with ⟨_, _, hfirst, hlast⟩
  have hle : run.1.1 ≤ run.2.1 := runs_le hrun
  have hbounds := numeralsOf_bounds hnum (by rw [hfirst, hlast]; exact hle)
  rwa [hfirst, hlast] at hbounds

theorem countedUp_of_wide (hrun : run ∈ runs Prod.fst (sortedEntries ((ncDictOf ql).group pef pof)))
    (hwide : run.1.1 + 1 < run.2.1) {pfM pfM' : PfMatch}
    (hnum : pfM.num ∈ numeralsOf run.1.2 run.2.2) (hnum' : pfM'.num ∈ numeralsOf run.1.2 run.2.2)
    (hnext : digitsValue pfM'.num = digitsValue pfM.num + 1) : CountedUp pfM pfM' := by
  rcases run_matches hrun with ⟨_, _, hfirst, hlast⟩
  have hwidth := numeralsOf_wide hnum (by rw [hfirst, hlast]; exact hwide)
  have hwidth' := numeralsOf_wide hnum' (by rw [hfirst, hlast]; exact hwide)
  unfold CountedUp
  rw [hwidth', hnext]
  nth_rewrite 2 [hwidth]
  exact numeral_succ.symm

theorem run_widths (h : Compressible ql)
    (hrun : run ∈ runs Prod.fst (sortedEntries ((ncDictOf ql).group pef pof)))
    (hwide : run.1.1 + 1 < run.2.1) {more : Nat}
    (hnum : (run.1.1 + more, num) ∈ sortedEntries ((ncDictOf ql).group pef pof))
    (hmore : run.1.1 + more ≤ run.2.1) :
    num = numeral run.1.2.length (run.1.1 + more) := by
  have hentry : forall number, run.1.1 ≤ number -> number ≤ run.2.1 ->
      exists num, (number, num) ∈ sortedEntries ((ncDictOf ql).group pef pof) := by
    intro number hlow hhigh
    rcases exists_of_run hrun hlow hhigh with ⟨⟨_, num⟩, hmem, rfl⟩
    exact ⟨num, hmem⟩
  have hwidths : forall {number : Nat} {first second third : Text},
      (number, first) ∈ sortedEntries ((ncDictOf ql).group pef pof) ->
      (number + 1, second) ∈ sortedEntries ((ncDictOf ql).group pef pof) ->
      (number + 1 + 1, third) ∈ sortedEntries ((ncDictOf ql).group pef pof) ->
        second = numeral first.length (number + 1) ∧
          third = numeral second.length (number + 1 + 1) := by
    intro number first second third hfirst hsecond hthird
    rcases entry_match hfirst with ⟨hvalue, name, hname, hmatch⟩
    rcases entry_match hsecond with ⟨hvalue', name', hname', hmatch'⟩
    rcases entry_match hthird with ⟨hvalue'', name'', hname'', hmatch''⟩
    have hcounted := h.widths name name' name'' _ _ _ hname hname' hname'' hmatch hmatch' hmatch''
      ⟨rfl, rfl⟩ ⟨rfl, rfl⟩ (hvalue'.trans (congrArg (· + 1) hvalue.symm))
      (hvalue''.trans (congrArg (· + 1) hvalue'.symm))
    unfold CountedUp at hcounted
    dsimp only at hcounted
    rwa [hvalue, hvalue'] at hcounted
  induction more generalizing num with
  | zero =>
    rcases entry_match (runs_ends hrun).left with ⟨hvalue, name, _, hmatch⟩
    have hvalid := (valid_of_pfMatch hmatch).left
    rw [entry_unique hnum (runs_ends hrun).left, Nat.add_zero, ← hvalue,
      numeral_digitsValue hvalid.num hvalid.num_ne]
  | succ more ih =>
    rcases hentry (run.1.1 + more) (by omega) (by omega) with ⟨before, hbefore⟩
    have hwritten := ih hbefore (by omega)
    have hcounted : num = numeral before.length (run.1.1 + more + 1) := by
      -- there is a third number on one side
      by_cases hlast : run.1.1 + more + 1 = run.2.1
      · cases more with
        | zero => omega
        | succ less =>
          rcases hentry (run.1.1 + less) (by omega) (by omega) with ⟨earlier, hearlier⟩
          exact (hwidths hearlier hbefore hnum).right
      · rcases hentry (run.1.1 + more + 1 + 1) (by omega) (by omega) with ⟨later, hlater⟩
        exact (hwidths hbefore hnum hlater).left
    rw [hcounted, hwritten, numeral_succ]
    rfl

theorem run_numeral (h : Compressible ql)
    (hrun : run ∈ runs Prod.fst (sortedEntries ((ncDictOf ql).group pef pof)))
    {num num' : Text} (hentry : (idx, num) ∈ sortedEntries ((ncDictOf ql).group pef pof))
    (hnum' : num' ∈ numeralsOf run.1.2 run.2.2) (hvalue : digitsValue num' = idx) : num' = num := by
  rcases run_matches hrun with ⟨_, _, hfirst, hlast⟩
  have hle : run.1.1 ≤ run.2.1 := runs_le hrun
  have hbounds := numeralsOf_bounds hnum' (by rw [hfirst, hlast]; exact hle)
  rw [hfirst, hlast, hvalue] at hbounds
  by_cases hwide : run.1.1 + 1 < run.2.1
  · have hwritten := numeralsOf_wide hnum' (by rw [hfirst, hlast]; exact hwide)
    rcases Nat.exists_eq_add_of_le hbounds.left with ⟨more, hmore⟩
    rw [hmore] at hentry
    rw [hwritten, hvalue, hmore]
    exact (run_widths h hrun hwide hentry (by omega)).symm
  · have hsame : digitsValue run.1.2 = digitsValue run.2.2 -> run.1.2 = run.2.2 := by
      intro heq
      rw [hfirst, hlast] at heq
      have hends := runs_ends hrun
      rcases run with ⟨⟨low, first⟩, ⟨high, last⟩⟩
      dsimp only at heq hends ⊢
      subst heq
      exact entry_unique hends.left hends.right
    rcases mem_numeralsOf_narrow (by rw [hfirst, hlast]; exact hle) hsame
      (by rw [hfirst, hlast]; omega) with ⟨hleft, hright⟩
    by_cases hlow : idx = run.1.1
    · have hfirstEntry : (idx, run.1.2) ∈ sortedEntries ((ncDictOf ql).group pef pof) := by
        rw [hlow]
        exact (runs_ends hrun).left
      rw [numeralsOf_inj hnum' hleft (by rw [hvalue, hfirst, hlow])]
      exact entry_unique hfirstEntry hentry
    · have hhigh : idx = run.2.1 := by omega
      have hlastEntry : (idx, run.2.2) ∈ sortedEntries ((ncDictOf ql).group pef pof) := by
        rw [hhigh]
        exact (runs_ends hrun).right
      rw [numeralsOf_inj hnum' hright (by rw [hvalue, hlast, hhigh])]
      exact entry_unique hlastEntry hentry

end Runs

theorem text_of_match {ql : List Text} (h : Compressible ql) {name : Text} {pfM : PfMatch}
    (hname : name ∈ ql) (hmatch : pfMatch name = some pfM) : pfM.text = name :=
  (valid_of_pfMatch hmatch).right.trans (h.lines name pfM hname hmatch)

theorem entry_of_match {ql : List Text}
    (hnumbers : forall name name' pfM pfM', name ∈ ql -> name' ∈ ql -> pfMatch name = some pfM ->
      pfMatch name' = some pfM' -> SameGroup pfM pfM' ->
        digitsValue pfM.num = digitsValue pfM'.num -> name = name')
    {name : Text} {pfM : PfMatch} (hname : name ∈ ql) (hmatch : pfMatch name = some pfM) :
    (digitsValue pfM.num, pfM.num) ∈ sortedEntries ((ncDictOf ql).group pfM.pef pfM.pof) := by
  rcases exists_lookup_group hname hmatch with ⟨num, hlookup⟩
  rcases lookup_group hlookup with ⟨name', pfM', hname', hmatch', hpef, hpof, hnum, hvalue⟩
  have hsame := hnumbers name name' pfM pfM' hname hname' hmatch hmatch' ⟨hpef.symm, hpof.symm⟩
    (by rw [hnum, hvalue])
  rw [hsame, hmatch'] at hmatch
  injection hmatch with heq
  have hentry := mem_sortedEntries.mpr hlookup
  rwa [show num = pfM.num by rw [← hnum, heq]] at hentry

theorem parts_ne_of_compressible {ql : List Text} (hdistinct : ql.Nodup) (h : Compressible ql) :
    compressedParts ql ≠ [[]] := by
  intro hparts
  have hmem : forall part, part ∈ ncA (ncDictOf ql) ∨ part ∈ unmatchList ql -> part = [] := by
    intro part hpart
    have hin : part ∈ compressedParts ql := by
      unfold compressedParts
      rw [mem_append, mem_sortedTexts, mem_sortedTexts]
      exact hpart
    rw [hparts] at hin
    exact mem_singleton.mp hin
  have hall : forall name, name ∈ ql -> name = [] := by
    intro name hname
    cases hmatch : pfMatch name with
    | none => exact hmem name (Or.inr (mem_filter.mpr ⟨hname, decide_eq_true hmatch⟩))
    | some pfM =>
      rcases exists_run (entry_of_match h.numbers hname hmatch) with ⟨run, hrun, _⟩
      have hkept : run ∈ keptRuns pfM.pef ((ncDictOf ql).group pfM.pef pfM.pof) := by
        unfold keptRuns
        rw [if_pos (h.prefixed name pfM hname hmatch)]
        exact hrun
      have hnil := hmem _ (Or.inl (mem_ncA.mpr ⟨_, _, run, hkept, rfl⟩))
      have hpef : pfM.pef = [] := by
        unfold rangePart addP at hnil
        split_ifs at hnil
        · exact (append_eq_nil_iff.mp (append_eq_nil_iff.mp hnil).left).left
        · cases (append_eq_nil_iff.mp hnil).right
        · cases (append_eq_nil_iff.mp hnil).right
      exact absurd hpef (h.prefixed name pfM hname hmatch)
  apply h.nonempty
  cases ql with
  | nil => cases hparts
  | cons name rest =>
    rw [hall name mem_cons_self]
    cases rest with
    | nil => rfl
    | cons next more =>
      have hnext := hall next (mem_cons_of_mem name mem_cons_self)
      have hname := hall name mem_cons_self
      rw [nodup_cons, hname, hnext] at hdistinct
      exact absurd mem_cons_self hdistinct.left

theorem expand_of_compressible {ql : List Text} (hfree : forall name, name ∈ ql -> FreeName name)
    (hdistinct : ql.Nodup) (h : Compressible ql) {text : Text} :
    text ∈ expand (compressList ql ", ".toList) <-> text ∈ ql := by
  rw [mem_expand hfree (parts_ne_of_compressible hdistinct h)]
  constructor
  · rintro (hunmatched | ⟨pef, pof, run, num, hkept, hnum, rfl⟩)
    · exact (mem_filter.mp hunmatched).left
    · have hrun := mem_runs_of_kept hkept
      rcases run_matches hrun with ⟨_, _, hfirst, hlast⟩
      have hle : run.1.1 ≤ run.2.1 := runs_le hrun
      have hbounds := numeralsOf_bounds hnum (by rw [hfirst, hlast]; exact hle)
      rw [hfirst, hlast] at hbounds
      rcases exists_of_run hrun hbounds.left hbounds.right with ⟨⟨_, held⟩, hentry, rfl⟩
      rcases entry_match hentry with ⟨_, name, hname, hmatch⟩
      rw [run_numeral h hrun hentry hnum rfl]
      have htext := text_of_match h hname hmatch
      unfold PfMatch.text at htext
      rw [htext]
      exact hname
  · intro hname
    cases hmatch : pfMatch text with
    | none => exact Or.inl (mem_filter.mpr ⟨hname, decide_eq_true hmatch⟩)
    | some pfM =>
      have hentry := entry_of_match h.numbers hname hmatch
      rcases exists_run hentry with ⟨run, hrun, hlow, hhigh⟩
      rcases run_matches hrun with ⟨_, _, hfirst, hlast⟩
      rcases exists_numeral (hfirst.le.trans hlow) (hhigh.trans hlast.ge) with
        ⟨num, hnum, hvalue⟩
      refine Or.inr ⟨pfM.pef, pfM.pof, run, num, ?_, hnum, ?_⟩
      · unfold keptRuns
        rw [if_pos (h.prefixed text pfM hname hmatch)]
        exact hrun
      · rw [run_numeral h hrun hentry hnum hvalue]
        exact text_of_match h hname hmatch

section Same

variable {ql : List Text} (hfree : forall name, name ∈ ql -> FreeName name)
  (hsame : forall text, text ∈ expand (compressList ql ", ".toList) <-> text ∈ ql)

include hsame

theorem parts_ne_of_same : compressedParts ql ≠ [[]] := by
  intro hparts
  have hnone : forall name, name ∉ ql := by
    intro name hname
    have hexpand := (hsame name).mpr hname
    unfold compressList at hexpand
    rw [hparts] at hexpand
    cases hexpand
  cases ql with
  | nil => cases hparts
  | cons name rest => exact hnone name mem_cons_self

include hfree

theorem exists_numeral_of_same {name : Text} {pfM : PfMatch} (hname : name ∈ ql)
    (hmatch : pfMatch name = some pfM) :
    pfM.text = name ∧ exists run, run ∈ keptRuns pfM.pef ((ncDictOf ql).group pfM.pef pfM.pof) ∧
      pfM.num ∈ numeralsOf run.1.2 run.2.2 := by
  rcases (mem_expand hfree (parts_ne_of_same hsame)).mp ((hsame name).mpr hname) with
    hunmatched | ⟨pef, pof, run, num, hkept, hnum, heq⟩
  · have hnone := of_decide_eq_true (mem_filter.mp hunmatched).right
    rw [hmatch] at hnone
    cases hnone
  · rcases run_matches (mem_runs_of_kept hkept) with ⟨⟨first, _, hfirst⟩, ⟨last, _, hlast⟩, _, _⟩
    have hfirstValid := (valid_of_pfMatch hfirst).left
    have hlastValid := (valid_of_pfMatch hlast).left
    have hdigits := numeralsOf_digits hnum ⟨hfirstValid.num, hfirstValid.num_ne⟩
      ⟨hlastValid.num, hlastValid.num_ne⟩
    have hvalid : PfMatch.Valid { pef := pef, num := num, pof := pof } :=
      { pef := hfirstValid.pef
        num := hdigits.left
        num_ne := hdigits.right
        pof := hfirstValid.pof
        line := by
          have hline := hfirstValid.line
          simp only [mem_append, not_or] at hline ⊢
          refine ⟨⟨hline.left.left, fun hmem => ?_⟩, hline.right⟩
          exact absurd (hdigits.left _ hmem) (by decide) }
    have hread := pfMatch_text hvalid
    rw [show PfMatch.text { pef := pef, num := num, pof := pof } = name from heq, hmatch] at hread
    injection hread with hread
    subst hread
    exact ⟨heq, run, hkept, hnum⟩

variable {name name' : Text}

theorem exists_common_run {pfM pfM' : PfMatch} (hname : name ∈ ql)
    (hname' : name' ∈ ql) (hmatch : pfMatch name = some pfM) (hmatch' : pfMatch name' = some pfM')
    (hgroup : SameGroup pfM pfM') (hnext : digitsValue pfM'.num = digitsValue pfM.num ∨
      digitsValue pfM'.num = digitsValue pfM.num + 1) :
    exists run, run ∈ runs Prod.fst (sortedEntries ((ncDictOf ql).group pfM.pef pfM.pof)) ∧
      pfM.num ∈ numeralsOf run.1.2 run.2.2 ∧ pfM'.num ∈ numeralsOf run.1.2 run.2.2 := by
  rcases exists_numeral_of_same hfree hsame hname hmatch with ⟨_, run, hkept, hnum⟩
  rcases exists_numeral_of_same hfree hsame hname' hmatch' with ⟨_, run', hkept', hnum'⟩
  rw [← hgroup.left, ← hgroup.right] at hkept'
  have hrun := mem_runs_of_kept hkept
  have hrun' := mem_runs_of_kept hkept'
  have hbounds := value_bounds hrun hnum
  have hbounds' := value_bounds hrun' hnum'
  have hone := run_unique (sortedEntries_pairwise _) hrun hrun' hbounds (by
    rcases hnext with heq | heq
    · rw [heq] at hbounds'
      exact Or.inl hbounds'
    · rw [heq] at hbounds'
      exact Or.inr hbounds')
  rw [← hone] at hnum'
  exact ⟨run, hrun, hnum, hnum'⟩

theorem numbers_of_same {pfM pfM' : PfMatch} (hname : name ∈ ql)
    (hname' : name' ∈ ql) (hmatch : pfMatch name = some pfM) (hmatch' : pfMatch name' = some pfM')
    (hgroup : SameGroup pfM pfM') (hvalue : digitsValue pfM.num = digitsValue pfM'.num) :
    name = name' := by
  rcases exists_common_run hfree hsame hname hname' hmatch hmatch' hgroup (Or.inl hvalue.symm) with
    ⟨run, _, hnum, hnum'⟩
  rw [← (exists_numeral_of_same hfree hsame hname hmatch).left,
    ← (exists_numeral_of_same hfree hsame hname' hmatch').left]
  unfold PfMatch.text
  rw [hgroup.left, hgroup.right, numeralsOf_inj hnum hnum' hvalue]

theorem prefixed_of_same {name : Text} {pfM : PfMatch} (hname : name ∈ ql)
    (hmatch : pfMatch name = some pfM) : pfM.pef ≠ [] := by
  intro hpef
  rcases exists_lookup_group hname hmatch with ⟨num, hlookup⟩
  have hne : sortedEntries ((ncDictOf ql).group pfM.pef pfM.pof) ≠ [] :=
    ne_nil_of_mem (mem_sortedEntries.mpr hlookup)
  -- the name with the greatest number of the group is in the range that is left out
  have hruns := getLast?_runs Prod.fst (sortedEntries ((ncDictOf ql).group pfM.pef pfM.pof))
  rw [getLast?_eq_some_getLast hne] at hruns
  rcases Option.map_eq_some_iff.mp hruns with ⟨last, hlast, hgreatest⟩
  have hentry : last.2 ∈ sortedEntries ((ncDictOf ql).group pfM.pef pfM.pof) :=
    hgreatest ▸ getLast_mem hne
  rcases entry_match hentry with ⟨hvalue, greatest, hmem, hmatch'⟩
  rcases (exists_numeral_of_same hfree hsame hmem hmatch').right with ⟨run, hkept, hnum⟩
  dsimp only at hkept hnum
  have hdropped : run ∈
      (runs Prod.fst (sortedEntries ((ncDictOf ql).group pfM.pef pfM.pof))).dropLast := by
    unfold keptRuns at hkept
    rwa [if_neg (not_not.mpr hpef)] at hkept
  have hbounds := value_bounds (dropLast_subset _ hdropped) hnum
  rw [hvalue] at hbounds
  rcases getLast?_eq_some_iff.mp hlast with ⟨front, hfront⟩
  rw [hfront, dropLast_concat] at hdropped
  have hpairwise := runs_pairwise (sortedEntries_pairwise ((ncDictOf ql).group pfM.pef pfM.pof))
  rw [hfront] at hpairwise
  have hgap := (pairwise_append.mp hpairwise).right.right run hdropped last
    (mem_singleton.mpr rfl)
  have hle : last.1.1 ≤ last.2.1 := runs_le (mem_of_getLast? hlast)
  have hgreatest' : last.2.1 ≤ run.2.1 := hbounds.right
  omega

theorem compressible_of_same : Compressible ql where
  nonempty := by
    rintro rfl
    exact parts_ne_of_same hsame (by decide)
  lines := fun name pfM hname hmatch => by
    rw [← (valid_of_pfMatch hmatch).right]
    exact (exists_numeral_of_same hfree hsame hname hmatch).left
  prefixed := fun name pfM hname hmatch => prefixed_of_same hfree hsame hname hmatch
  numbers := fun name name' pfM pfM' hname hname' hmatch hmatch' hgroup hvalue =>
    numbers_of_same hfree hsame hname hname' hmatch hmatch' hgroup hvalue
  widths := by
    intro name name' name'' pfM pfM' pfM'' hname hname' hname'' hmatch hmatch' hmatch'' hgroup
      hgroup' hnext hnext'
    rcases exists_common_run hfree hsame hname hname' hmatch hmatch' hgroup (Or.inr hnext) with
      ⟨run, hrun, hnum, hnum'⟩
    rcases exists_common_run hfree hsame hname' hname'' hmatch' hmatch'' hgroup' (Or.inr hnext')
      with ⟨run', hrun', hmiddle, hnum''⟩
    rw [← hgroup.left, ← hgroup.right] at hrun'
    have hone := run_unique (sortedEntries_pairwise _) hrun hrun'
      (value_bounds hrun hnum') (Or.inl (value_bounds hrun' hmiddle))
    rw [← hone] at hnum''
    have hlow := (value_bounds hrun hnum).left
    have hhigh := (value_bounds hrun hnum'').right
    have hwide : run.1.1 + 1 < run.2.1 := by omega
    exact ⟨countedUp_of_wide hrun hwide hnum hnum' hnext,
      countedUp_of_wide hrun hwide hnum' hnum'' hnext'⟩

end Same

/-- The names are what their compressed list stands for exactly when the list is compressible. -/
theorem compress_loses_nothing_iff (ql : List Text) (hdistinct : ql.Nodup)
    (hfree : forall name, name ∈ ql -> FreeName name) :
    (forall text, text ∈ expand (compressList ql ", ".toList) <-> text ∈ ql) <-> Compressible ql :=
  ⟨compressible_of_same hfree, fun h _ => expand_of_compressible hfree hdistinct h⟩

instance (name : Text) : Decidable (FreeName name) :=
  decidable_of_iff ((forall c, c ∈ name -> isRangeMark c = false) ∧ ¬ ", ".toList <:+: name)
    ⟨fun h => ⟨h.left, h.right⟩, fun h => ⟨h.unmarked, h.separator⟩⟩

/-- Numbers alone are lost with their last range. -/
theorem numbers_alone_are_lost :
    ¬ forall ql : List Text, ql.Nodup -> (forall name, name ∈ ql -> FreeName name) ->
      forall text, text ∈ expand (compressList ql ", ".toList) <-> text ∈ ql := by
  intro h
  have hsame := h ["1".toList, "2".toList, "3".toList] (by decide) (by decide) "1".toList
  have hlost : "1".toList ∉
      expand (compressList ["1".toList, "2".toList, "3".toList] ", ".toList) := by decide +kernel
  exact hlost (hsame.mpr (by decide))

def sampleNames : List Text :=
  ["node08".toList, "node09".toList, "node10".toList, "rack2b".toList, "switch".toList]

theorem sampleNames_expand :
    expand (compressList sampleNames ", ".toList) = sampleNames := by decide +kernel

theorem sampleNames_free : forall name, name ∈ sampleNames -> FreeName name := by decide +kernel

theorem sampleNames_compressible : Compressible sampleNames :=
  (compress_loses_nothing_iff sampleNames (by decide) sampleNames_free).mp fun text => by
    rw [sampleNames_expand]

end Icsw.NameList
