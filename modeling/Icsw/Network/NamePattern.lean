import Icsw.Network.DeviceType

/-!
# The pattern of a name

The name of a device becomes a pattern with its runs of digits replaced, and nothing in it is
escaped.  A name without the characters of the pattern language is matched by its own pattern.
-/

namespace Icsw.Network

open Foundation List

def nameBody (name : Text) : Text := intercalate "\\d+".toList (splitDigits name)

theorem newNameRe_eq (name : Text) : newNameRe name = '^' :: (nameBody name ++ ['$']) := rfl

theorem splitDigits_ne_nil (name : Text) : splitDigits name ≠ [] := by
  induction name with
  | nil => exact cons_ne_nil _ _
  | cons c rest ih =>
    unfold splitDigits
    split_ifs with hdigit hnext
    · exact ih
    · exact cons_ne_nil _ _
    · cases hsplit : splitDigits rest with
      | nil => exact absurd hsplit ih
      | cons first more => exact cons_ne_nil _ _

variable {rest : Text} {c : Char}

theorem nameBody_run (hc : Regex.isDigit c = true)
    (hnext : rest.head?.any Regex.isDigit = true) : nameBody (c :: rest) = nameBody rest := by
  unfold nameBody
  rw [splitDigits, if_pos hc, if_pos hnext]

theorem nameBody_digit (hc : Regex.isDigit c = true)
    (hnext : ¬ rest.head?.any Regex.isDigit = true) :
    nameBody (c :: rest) = "\\d+".toList ++ nameBody rest := by
  unfold nameBody
  rw [splitDigits, if_pos hc, if_neg hnext]
  cases hsplit : splitDigits rest with
  | nil => exact absurd hsplit (splitDigits_ne_nil rest)
  | cons first more =>
    rw [intercalate_cons_cons]
    rfl

theorem nameBody_other (hc : ¬ Regex.isDigit c = true) :
    nameBody (c :: rest) = c :: nameBody rest := by
  unfold nameBody
  rw [splitDigits, if_neg hc]
  cases hsplit : splitDigits rest with
  | nil => exact absurd hsplit (splitDigits_ne_nil rest)
  | cons first more =>
    cases more with
    | nil =>
      show intercalate _ [c :: first] = c :: intercalate _ [first]
      rw [intercalate_singleton, intercalate_singleton]
    | cons second more =>
      show intercalate _ ((c :: first) :: second :: more) = _
      rw [intercalate_cons_cons, intercalate_cons_cons]
      rfl

variable {name : Text}

theorem nameBody_of_digit (h : name.head?.any Regex.isDigit = true) :
    exists rest, nameBody name = "\\d+".toList ++ rest := by
  induction name with
  | nil => cases h
  | cons c rest ih =>
    by_cases hnext : rest.head?.any Regex.isDigit = true
    · rw [nameBody_run h hnext]
      exact ih hnext
    · exact ⟨nameBody rest, nameBody_digit h hnext⟩

theorem digit_not_mem_nameBody (h : c ∈ nameBody name) :
    Regex.isDigit c = false := by
  induction name with
  | nil => cases h
  | cons d rest ih =>
    by_cases hd : Regex.isDigit d = true
    · by_cases hnext : rest.head?.any Regex.isDigit = true
      · rw [nameBody_run hd hnext] at h
        exact ih h
      · rw [nameBody_digit hd hnext] at h
        rcases mem_append.mp h with hdigits | hrest
        · exact (by decide : forall e, e ∈ "\\d+".toList -> Regex.isDigit e = false) c hdigits
        · exact ih hrest
    · rw [nameBody_other hd] at h
      rcases mem_cons.mp h with heq | hrest
      · rw [heq]
        exact Bool.eq_false_iff.mpr hd
      · exact ih hrest

theorem head_nameBody (h : (nameBody name ++ ['$']).head? = some c) :
    c = '\\' ∨ c = '$' ∨ name.head? = some c := by
  cases name with
  | nil =>
    injection h with h
    exact Or.inr (Or.inl h.symm)
  | cons d rest =>
    by_cases hd : Regex.isDigit d = true
    · have hfirst : (d :: rest).head?.any Regex.isDigit = true := hd
      rcases nameBody_of_digit hfirst with ⟨tail, htail⟩
      rw [htail] at h
      injection h with h
      exact Or.inl h.symm
    · rw [nameBody_other hd] at h
      exact Or.inr (Or.inr h)

/-- A name without the characters of the pattern language: a dot stands for itself too, and a brace
unless it begins bounds. -/
structure PlainName (name : Text) : Prop where
  chars : forall c, c ∈ name -> c ∈ Regex.patternChars -> c = '.' ∨ c = '\x7b'
  braces : ¬ ['\x7b', ',', '\x7d'] <:+: name

theorem PlainName.tail (h : PlainName (c :: rest)) : PlainName rest where
  chars := fun d hd => h.chars d (mem_cons_of_mem c hd)
  braces := fun hbounds => h.braces (hbounds.trans (suffix_cons c rest).isInfix)

def nameItem (c : Char) : Regex :=
  if c = '.' then .one fun other => other != '\n' else .one fun other => other == c

def nameItems : Text -> List Regex
  | [] => []
  | c :: rest =>
    if Regex.isDigit c = true then
      if rest.head?.any Regex.isDigit = true then nameItems rest
      else Regex.plus Regex.isDigit :: nameItems rest
    else nameItem c :: nameItems rest

theorem nameItems_of_digit (h : name.head?.any Regex.isDigit = true) :
    exists rest, nameItems name = Regex.plus Regex.isDigit :: rest := by
  induction name with
  | nil => cases h
  | cons c rest ih =>
    have hc : Regex.isDigit c = true := h
    unfold nameItems
    rw [if_pos hc]
    by_cases hnext : rest.head?.any Regex.isDigit = true
    · rw [if_pos hnext]
      exact ih hnext
    · rw [if_neg hnext]
      exact ⟨nameItems rest, rfl⟩

theorem bounds_nameBody (h : ¬ ['\x7b', ',', '\x7d'] <:+: '\x7b' :: rest) :
    Regex.bounds (nameBody rest ++ ['$']) = none := by
  apply Regex.bounds_eq_none
  · intro c hc
    rcases mem_append.mp hc with hbody | hdollar
    · exact digit_not_mem_nameBody hbody
    · rw [mem_singleton.mp hdollar]
      rfl
  · rintro ⟨later, heq⟩
    have hcomma : rest.head? = some ',' := by
      have hhead : (nameBody rest ++ ['$']).head? = some ',' := congrArg head? heq.symm
      rcases head_nameBody hhead with hc | hc | hc
      · cases hc
      · cases hc
      · exact hc
    cases rest with
    | nil => cases hcomma
    | cons c more =>
      injection hcomma with hc
      subst hc
      rw [nameBody_other (by decide)] at heq
      injection heq with _ heq
      have hclosed : more.head? = some '\x7d' := by
        have hhead : (nameBody more ++ ['$']).head? = some '\x7d' := congrArg head? heq.symm
        rcases head_nameBody hhead with hc | hc | hc
        · cases hc
        · cases hc
        · exact hc
      cases more with
      | nil => cases hclosed
      | cons d more =>
        injection hclosed with hd
        exact h ⟨[], more, by rw [hd]; rfl⟩

theorem readPattern_nameBody (h : PlainName name) {fuel : Nat}
    (hfuel : (nameBody name).length + 2 ≤ fuel) (frame : Regex.Frame) :
    Regex.readPattern fuel [] frame (nameBody name ++ ['$']) =
      .ok ({ frame with items := .stop :: ((nameItems name).reverse ++ frame.items) } :
        Regex.Frame).close := by
  induction name generalizing fuel frame with
  | nil =>
    rcases Nat.exists_eq_add_of_le' hfuel with ⟨more, rfl⟩
    exact Regex.readPattern_stop more frame
  | cons c rest ih =>
    unfold nameItems
    by_cases hc : Regex.isDigit c = true
    · rw [if_pos hc]
      by_cases hnext : rest.head?.any Regex.isDigit = true
      · rw [nameBody_run hc hnext] at hfuel ⊢
        rw [if_pos hnext]
        exact ih h.tail hfuel frame
      · rw [nameBody_digit hc hnext] at hfuel ⊢
        rw [length_append] at hfuel
        rcases Nat.exists_eq_add_of_le' (show 2 ≤ fuel by omega) with ⟨more, rfl⟩
        have hquestion : (nameBody rest ++ ['$']).head? ≠ some '?' := fun heq => by
          rcases head_nameBody heq with hhead | hhead | hhead
          · cases hhead
          · cases hhead
          · have hmem : '?' ∈ rest := mem_of_mem_head? hhead
            rcases h.tail.chars '?' hmem (by decide) with hdot | hbrace
            · cases hdot
            · cases hbrace
        show Regex.readPattern (more + 2) [] frame
          ('\\' :: 'd' :: '+' :: (nameBody rest ++ ['$'])) = _
        rw [Regex.readPattern_digits hquestion, ih h.tail (by simp at hfuel; omega), if_neg hnext,
          reverse_cons, append_assoc]
        rfl
    · rw [nameBody_other hc] at hfuel ⊢
      rw [length_cons] at hfuel
      rcases Nat.exists_eq_add_of_le' (show 1 ≤ fuel by omega) with ⟨more, rfl⟩
      have hread : Regex.readPattern (more + 1) [] frame (c :: (nameBody rest ++ ['$'])) =
          Regex.readPattern more [] (frame.push (nameItem c)) (nameBody rest ++ ['$']) := by
        unfold nameItem
        by_cases hplain : c ∈ Regex.patternChars
        · rcases h.chars c mem_cons_self hplain with rfl | rfl
          · rw [Regex.readPattern_dot, if_pos rfl]
          · rw [Regex.readPattern_brace (bounds_nameBody h.braces), if_neg (by decide)]
        · have hdot : c ≠ '.' := fun heq => hplain (heq ▸ by decide)
          rw [Regex.readPattern_plain hplain, if_neg hdot]
      rw [if_neg hc]
      show Regex.readPattern (more + 1) [] frame (c :: (nameBody rest ++ ['$'])) = _
      rw [hread, ih h.tail (by omega), reverse_cons, append_assoc]
      rfl

theorem mem_ends_nameItems (name before : Text) :
    (⟨name.reverse ++ before, []⟩ : Place) ∈
      (Regex.seqAll (nameItems name)).ends ⟨before, name⟩ := by
  induction name generalizing before with
  | nil => exact mem_singleton_self _
  | cons c rest ih =>
    have hrest := ih (c :: before)
    rw [reverse_cons, append_assoc]
    unfold nameItems
    by_cases hc : Regex.isDigit c = true
    · rw [if_pos hc]
      by_cases hnext : rest.head?.any Regex.isDigit = true
      · rw [if_pos hnext]
        rcases nameItems_of_digit hnext with ⟨items, hitems⟩
        rw [hitems] at hrest ⊢
        rcases Regex.mem_ends_seq.mp hrest with ⟨between, hrun, hlater⟩
        cases rest with
        | nil => cases hnext
        | cons d more =>
          exact Regex.mem_ends_seq.mpr ⟨between, Regex.mem_ends_plus_cons hc hnext hrun, hlater⟩
      · rw [if_neg hnext]
        exact Regex.mem_ends_seq.mpr ⟨_, Regex.mem_ends_plus before rest hc, hrest⟩
    · rw [if_neg hc]
      refine Regex.mem_ends_seq.mpr ⟨⟨c :: before, rest⟩, ?_, hrest⟩
      unfold nameItem
      split_ifs with hdot
      · exact Regex.mem_ends_one before rest (by rw [hdot]; decide)
      · exact Regex.mem_ends_one before rest (beq_self_eq_true c)

def SelfMatching (re : ReLibrary) (name : Text) : Prop :=
  exists accepts, re.compile (newNameRe name) = some accepts ∧ accepts name = true

theorem selfMatching_of_plain (re : ReLibrary) (h : PlainName name) :
    SelfMatching re name := by
  let regex : Regex := Regex.seqAll (.start :: (nameItems name ++ [.stop]))
  have hread : Regex.readPattern ((newNameRe name).length + 1) [] Regex.Frame.empty
      (newNameRe name) = .ok regex := by
    rw [newNameRe_eq, length_cons, Regex.readPattern_start,
      readPattern_nameBody h (by rw [length_append]; rfl)]
    show Except.ok (Regex.seqAll
      (reverse (Regex.stop :: ((nameItems name).reverse ++ [Regex.start])))) = _
    rw [reverse_cons, reverse_append, reverse_reverse]
    rfl
  refine ⟨regex.matchesStart, ?_, ?_⟩
  · unfold ReLibrary.compile Regex.compile
    rw [hread]
  · have hstart : (⟨[], name⟩ : Place) ∈ Regex.start.ends ⟨[], name⟩ := mem_singleton_self _
    have hstop : (⟨name.reverse, []⟩ : Place) ∈
        (Regex.seqAll [.stop]).ends ⟨name.reverse ++ [], []⟩ := by
      rw [append_nil]
      exact mem_singleton_self _
    have hitems := Regex.mem_ends_seqAll_append.mpr ⟨_, mem_ends_nameItems name [], hstop⟩
    exact Regex.matchesStart_of_mem (Regex.mem_ends_seq.mpr ⟨_, hstart, hitems⟩)

end Icsw.Network
