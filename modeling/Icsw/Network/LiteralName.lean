import Icsw.Network.NamePattern

/-!
# Names that are not matched by themselves

Without a dot, a bar, a backslash, a bracket and an opening parenthesis each part of the pattern
accepts one character or the digits, so a name is matched by itself exactly when it has no other
character of the pattern language.
-/

namespace Icsw.Network

open Foundation List

/-- Bounds in braces are no part of the name either. -/
structure LiteralName (name : Text) : Prop where
  chars : forall c, c ∈ name -> c ∉ ".|\\[(".toList
  braces : ¬ ['\x7b', ',', '\x7d'] <:+: name

variable {c : Char} {rest : Text}

theorem LiteralName.tail (h : LiteralName (c :: rest)) :
    LiteralName rest where
  chars := fun d hd => h.chars d (mem_cons_of_mem c hd)
  braces := fun hbounds => h.braces (hbounds.trans (suffix_cons c rest).isInfix)

/-- The characters that no part of the pattern of such a name accepts. -/
def unmatchedChars : Text := "^$*+?)".toList

theorem unmatchedChars_cases (h : c ∈ unmatchedChars) :
    (c = '*' ∨ c = '+' ∨ c = '?') ∨ c = ')' ∨ c = '^' ∨ c = '$' :=
  (by decide : forall d, d ∈ unmatchedChars ->
    (d = '*' ∨ d = '+' ∨ d = '?') ∨ d = ')' ∨ d = '^' ∨ d = '$') c h

theorem patternChars_cases (h : c ∈ Regex.patternChars) :
    c ∈ ".|\\[(".toList ∨ c = '\x7b' ∨ c ∈ unmatchedChars :=
  (by decide : forall d, d ∈ Regex.patternChars ->
    d ∈ ".|\\[(".toList ∨ d = '\x7b' ∨ d ∈ unmatchedChars) c h

def Matchable (item : Regex) : Prop := forall c, item.Accepts c -> c ∉ unmatchedChars

theorem matchable_digit : Matchable (.one Regex.isDigit) := fun c hc hmem => by
  have hdigit := (by decide : forall d, d ∈ unmatchedChars -> Regex.isDigit d = false) c hmem
  rw [show Regex.isDigit c = true from hc] at hdigit
  cases hdigit

theorem matchable_char (h : c ∉ unmatchedChars) :
    Matchable (.one fun other => other == c) := fun d hd => by
  rw [beq_iff_eq.mp (show (d == c) = true from hd)]
  exact h

/-- Reading has failed, or the pattern ends with the end of the text and has only such parts. -/
def MatchableResult (result : Except Regex.PatternError Regex) : Prop :=
  result = .error .invalid ∨
    exists items, result = .ok (Regex.seqAll (items ++ [.stop])) ∧
      forall item, item ∈ items -> Matchable item

def ReadsMatchable (frame : Regex.Frame) (name : Text) : Prop :=
  frame.alternatives = [] -> (forall item, item ∈ frame.items -> Matchable item) ->
    forall fuel, MatchableResult (Regex.readPattern fuel [] frame (nameBody name ++ ['$']))

theorem readsMatchable_nil (frame : Regex.Frame) : ReadsMatchable frame [] := by
  intro halternatives hitems fuel
  cases fuel with
  | zero => exact Or.inl rfl
  | succ fuel =>
    cases fuel with
    | zero => exact Or.inl rfl
    | succ fuel =>
      refine Or.inr ⟨frame.items.reverse, (Regex.readPattern_stop fuel frame).trans ?_, ?_⟩
      · rw [Regex.Frame.close_eq (show (frame.push .stop).alternatives = [] from halternatives)]
        exact congrArg (fun items => Except.ok (Regex.seqAll items)) reverse_cons
      · intro item hitem
        exact hitems item (mem_reverse.mp hitem)

variable {frame : Regex.Frame}

theorem readsMatchable_push {name rest : Text} {item : Regex}
    (hbody : nameBody name = c :: nameBody rest) (hitem : Matchable item)
    (hread : forall fuel, Regex.readPattern (fuel + 1) [] frame (c :: (nameBody rest ++ ['$'])) =
      Regex.readPattern fuel [] (frame.push item) (nameBody rest ++ ['$']))
    (hrest : ReadsMatchable (frame.push item) rest) : ReadsMatchable frame name := by
  intro halternatives hitems fuel
  cases fuel with
  | zero => exact Or.inl rfl
  | succ fuel =>
    rw [hbody, cons_append, hread]
    apply hrest halternatives
    intro other hother
    rcases mem_cons.mp hother with heq | hother
    · rw [heq]
      exact hitem
    · exact hitems other hother

theorem readsMatchable_repeat (least : Nat) (most : Option Nat)
    (halternatives : frame.alternatives = [])
    (hitems : forall item, item ∈ frame.items -> Matchable item)
    (hrest : forall other, ReadsMatchable other rest)
    (hskip : forall other later, rest = '?' :: later -> ReadsMatchable other later) (fuel : Nat) :
    MatchableResult (Regex.repeatLast least most frame (nameBody rest ++ ['$']) >>= fun read =>
      Regex.readPattern fuel [] read.1 read.2) := by
  rcases Regex.repeatLast_cases least most frame (nameBody rest ++ ['$']) with
    hraised | ⟨item, items, hframe, hrepeat⟩
  · rw [hraised]
    exact Or.inl rfl
  · rw [bind_of_ok hrepeat]
    dsimp only
    let repeated : Regex.Frame := { frame with items := .repeated least most item :: items }
    have hrepeated : forall other, other ∈ repeated.items -> Matchable other := by
      intro other hother
      rcases mem_cons.mp hother with heq | hother
      · rw [heq]
        exact hitems item (hframe ▸ mem_cons_self)
      · exact hitems other (hframe ▸ mem_cons_of_mem item hother)
    by_cases hquestion : (nameBody rest ++ ['$']).head? = some '?'
    · rw [if_pos hquestion]
      rcases head_nameBody hquestion with hhead | hhead | hhead
      · cases hhead
      · cases hhead
      cases rest with
      | nil => cases hhead
      | cons c later =>
        injection hhead with hc
        subst hc
        rw [nameBody_other (by decide)]
        exact hskip repeated later rfl halternatives hrepeated fuel
    · rw [if_neg hquestion]
      exact hrest repeated halternatives hrepeated fuel

theorem readsMatchable_other (h : LiteralName (c :: rest))
    (hdigit : ¬ Regex.isDigit c = true) (hrest : forall other, ReadsMatchable other rest)
    (hskip : forall other later, rest = '?' :: later -> ReadsMatchable other later)
    (frame : Regex.Frame) : ReadsMatchable frame (c :: rest) := by
  have hbody : nameBody (c :: rest) = c :: nameBody rest := nameBody_other hdigit
  by_cases hquantifier : c = '*' ∨ c = '+' ∨ c = '?'
  · intro halternatives hitems fuel
    rw [hbody]
    cases fuel with
    | zero => exact Or.inl rfl
    | succ fuel =>
      rcases Regex.readPattern_quantifier hquantifier with ⟨least, most, hread⟩
      rw [cons_append, hread]
      exact readsMatchable_repeat least most halternatives hitems hrest hskip fuel
  by_cases hclose : c = ')'
  · intro _ _ fuel
    rw [hbody, hclose]
    cases fuel with
    | zero => exact Or.inl rfl
    | succ fuel => exact Or.inl (Regex.readPattern_close fuel frame _)
  by_cases hstart : c = '^'
  · subst hstart
    exact readsMatchable_push hbody (fun d hd => by cases hd)
      (fun fuel => Regex.readPattern_start fuel [] frame _) (hrest _)
  by_cases hstop : c = '$'
  · subst hstop
    exact readsMatchable_push hbody (fun d hd => by cases hd)
      (fun fuel => Regex.readPattern_dollar fuel [] frame _) (hrest _)
  have hother : c ∉ unmatchedChars := by
    intro hmem
    rcases unmatchedChars_cases hmem with heq | heq | heq | heq
    · exact hquantifier heq
    · exact hclose heq
    · exact hstart heq
    · exact hstop heq
  by_cases hbrace : c = '\x7b'
  · subst hbrace
    exact readsMatchable_push hbody (matchable_char hother)
      (fun fuel => Regex.readPattern_brace (bounds_nameBody h.braces) fuel [] frame) (hrest _)
  · have hplain : c ∉ Regex.patternChars := by
      intro hmem
      rcases patternChars_cases hmem with hopen | heq | hunmatched
      · exact h.chars c mem_cons_self hopen
      · exact hbrace heq
      · exact hother hunmatched
    exact readsMatchable_push hbody (matchable_char hother)
      (fun fuel => Regex.readPattern_plain hplain fuel [] frame _) (hrest _)

theorem readsMatchable (length : Nat) (name : Text) (hlength : name.length ≤ length)
    (h : LiteralName name) (frame : Regex.Frame) : ReadsMatchable frame name := by
  induction length generalizing name frame with
  | zero =>
    rw [eq_nil_of_length_eq_zero (Nat.le_zero.mp hlength)]
    exact readsMatchable_nil frame
  | succ length ih =>
    cases name with
    | nil => exact readsMatchable_nil frame
    | cons c rest =>
      rw [length_cons] at hlength
      have hrest : forall other, ReadsMatchable other rest := fun other =>
        ih rest (by omega) h.tail other
      have hskip : forall other later, rest = '?' :: later -> ReadsMatchable other later := by
        intro other later heq
        subst heq
        rw [length_cons] at hlength
        exact ih later (by omega) h.tail.tail other
      by_cases hdigit : Regex.isDigit c = true
      · by_cases hnext : rest.head?.any Regex.isDigit = true
        · unfold ReadsMatchable
          rw [nameBody_run hdigit hnext]
          exact hrest frame
        · intro halternatives hitems fuel
          rw [nameBody_digit hdigit hnext]
          cases fuel with
          | zero => exact Or.inl rfl
          | succ fuel =>
            cases fuel with
            | zero => exact Or.inl rfl
            | succ fuel =>
              show MatchableResult (Regex.readPattern (fuel + 2) [] frame
                ('\\' :: 'd' :: '+' :: (nameBody rest ++ ['$'])))
              rw [Regex.readPattern_run]
              refine readsMatchable_repeat 1 none ?_ ?_ hrest hskip fuel
              · exact halternatives
              · intro item hitem
                rcases mem_cons.mp hitem with heq | hitem
                · rw [heq]
                  exact matchable_digit
                · exact hitems item hitem
      · exact readsMatchable_other h hdigit hrest hskip frame

theorem selfMatching_literal_iff (re : ReLibrary) {name : Text} (h : LiteralName name) :
    SelfMatching re name <-> forall c, c ∈ name -> c ∉ unmatchedChars := by
  constructor
  · rintro ⟨accepts, hcompile, hmatch⟩
    unfold ReLibrary.compile Regex.compile at hcompile
    rw [newNameRe_eq, length_cons, Regex.readPattern_start] at hcompile
    have hread := readsMatchable name.length name le_rfl h (Regex.Frame.empty.push .start) rfl
      (fun item hitem c hc => by
        rw [mem_singleton.mp hitem] at hc
        cases hc)
      ((nameBody name ++ ['$']).length + 1)
    rcases hread with hraised | ⟨items, hitems, hmatchable⟩
    · rw [hraised] at hcompile
      cases hcompile
    · rw [hitems] at hcompile
      injection hcompile with haccepts
      subst haccepts
      rcases exists_mem_of_ne_nil _ (of_decide_eq_true hmatch) with ⟨last, hlast⟩
      rcases Regex.mem_ends_seqAll_append.mp hlast with ⟨between, hbetween, hstop⟩
      rcases Regex.takes_of_mem_ends hbetween with ⟨part, hname, htaken⟩
      have hend : between.after = [] ∨ between.after = ['\n'] := by
        rcases Regex.mem_ends_seq.mp hstop with ⟨stopped, hstopped, _⟩
        have hcondition : stopped ∈ if between.after = [] ∨ between.after = ['\n'] then [between]
          else [] := hstopped
        split_ifs at hcondition with hend
        · exact hend
        · cases hcondition
      intro c hc
      rw [show name = part ++ between.after from hname] at hc
      rcases mem_append.mp hc with hpart | hafter
      · rcases Regex.accepts_seqAll (htaken c hpart) with ⟨item, hitem, haccepts⟩
        exact hmatchable item hitem c haccepts
      · rcases hend with hnil | hnewline
        · rw [hnil] at hafter
          cases hafter
        · rw [hnewline] at hafter
          rw [mem_singleton.mp hafter]
          decide
  · intro hplain
    apply selfMatching_of_plain
    refine { chars := fun c hc hpattern => ?_, braces := h.braces }
    rcases patternChars_cases hpattern with hopen | heq | hunmatched
    · exact absurd hopen (h.chars c hc)
    · exact Or.inr heq
    · exact absurd hunmatched (hplain c hc)

end Icsw.Network
