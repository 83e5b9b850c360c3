import Icsw.ServerCommand.Model

/-!
# Keys as tags

A key is written as an attribute, and interpreted by the rules for tags.  It is
kept if none of them applies: each rule makes a text shorter, and nothing makes it
longer again.
-/

namespace Icsw.ServerCommand

open Foundation List

def startsWithDigit (text : Text) : Bool :=
  match text.head? with
  | some c => isDigit c
  | none => false

variable (attrib : Dict Text Text)

structure Escapes (tagName : Text) : Prop where
  slash : "escape_slash".toList ∈ attrib <-> '/' ∈ tagName
  atsign : "escape_atsign".toList ∈ attrib <-> '@' ∈ tagName
  ampersand : "escape_ampersand".toList ∈ attrib <-> '&' ∈ tagName
  semicolon : "escape_semicolon".toList ∈ attrib <-> ';' ∈ tagName
  firstDigit : "first_digit".toList ∈ attrib <-> startsWithDigit tagName = true
  colon : "escape_colon".toList ∈ attrib <-> ':' ∈ tagName

variable {state : Escaped}

theorem mem_escapeChar {c : Char} {sequence attr other : Text} :
    other ∈ (escapeChar c sequence attr state).2 <->
      (other = attr ∧ c ∈ state.1) ∨ other ∈ state.2 := by
  unfold escapeChar
  by_cases hc : c ∈ state.1
  · rw [if_pos hc, AList.mem_insert]
    simp [hc]
  · rw [if_neg hc]
    simp [hc]

theorem char_escapeChar {c d : Char} {sequence attr : Text} (hne : d ≠ c)
    (hsequence : d ∉ sequence) :
    d ∈ (escapeChar c sequence attr state).1 <-> d ∈ state.1 := by
  unfold escapeChar
  by_cases hc : c ∈ state.1
  · rw [if_pos hc]
    exact mem_replaceChar hne hsequence
  · rw [if_neg hc]

theorem startsWithDigit_escapeChar {c : Char} {sequence attr : Text}
    (hc : isDigit c = false) (hnil : sequence ≠ []) (hsequence : startsWithDigit sequence = false) :
    startsWithDigit (escapeChar c sequence attr state).1 = startsWithDigit state.1 := by
  unfold escapeChar
  by_cases hmem : c ∈ state.1
  · rw [if_pos hmem]
    rcases state with ⟨text, attrib⟩
    cases text with
    | nil => rfl
    | cons d rest =>
      show startsWithDigit (replaceChar c sequence (d :: rest)) = isDigit d
      unfold startsWithDigit
      rw [head?_replaceChar hnil]
      by_cases hd : d = c
      · rw [if_pos hd, hd, hc]
        exact hsequence
      · rw [if_neg hd]
  · rw [if_neg hmem]

theorem mem_escapeFirstDigit {other : Text} :
    other ∈ (escapeFirstDigit state).2 <->
      (other = "first_digit".toList ∧ startsWithDigit state.1 = true) ∨ other ∈ state.2 := by
  unfold escapeFirstDigit startsWithDigit
  cases state.1.head? with
  | none => simp
  | some c =>
    by_cases hc : isDigit c = true
    · simp only [hc, if_true, AList.mem_insert]
      simp
    · simp [hc]

theorem char_escapeFirstDigit {c : Char} (hc : c ∉ "__fdigit__".toList) :
    c ∈ (escapeFirstDigit state).1 <-> c ∈ state.1 := by
  unfold escapeFirstDigit
  cases state.1.head? with
  | none => rfl
  | some d =>
    by_cases hd : isDigit d = true
    · simp only [hd, if_true, mem_append]
      exact or_iff_right hc
    · simp only [hd]
      rfl

theorem mem_escapeTag {other tagName : Text} :
    other ∈ (escapeTag tagName).2 <->
      (other = "escape_colon".toList ∧ ':' ∈ tagName) ∨
        (other = "first_digit".toList ∧ startsWithDigit tagName = true) ∨
          (other = "escape_semicolon".toList ∧ ';' ∈ tagName) ∨
            (other = "escape_ampersand".toList ∧ '&' ∈ tagName) ∨
              (other = "escape_atsign".toList ∧ '@' ∈ tagName) ∨
                (other = "escape_slash".toList ∧ '/' ∈ tagName) := by
  have hempty : ¬ other ∈ (∅ : Dict Text Text) := AList.notMem_empty other
  simp (disch := decide) only [escapeTag, mem_escapeChar, mem_escapeFirstDigit,
    char_escapeFirstDigit, char_escapeChar, startsWithDigit_escapeChar, hempty, or_false]

theorem escapes_escapeTag (tagName : Text) : Escapes (escapeTag tagName).2 tagName := by
  constructor
  · simp [mem_escapeTag]
  · simp [mem_escapeTag]
  · simp [mem_escapeTag]
  · simp [mem_escapeTag]
  · simp [mem_escapeTag]
  · simp [mem_escapeTag]

theorem Escapes.insert {attrib : Dict Text Text} {tagName name value : Text}
    (h : Escapes attrib tagName)
    (hname : name ∉ ["escape_slash".toList, "escape_atsign".toList, "escape_ampersand".toList,
      "escape_semicolon".toList, "first_digit".toList, "escape_colon".toList]) :
    Escapes (attrib.insert name value) tagName := by
  have hne : forall {attr}, attr ∈ ["escape_slash".toList, "escape_atsign".toList,
      "escape_ampersand".toList, "escape_semicolon".toList, "first_digit".toList,
      "escape_colon".toList] ->
      (attr ∈ attrib.insert name value <-> attr ∈ attrib) := by
    intro attr hattr
    rw [AList.mem_insert]
    exact or_iff_right fun heq => hname (heq ▸ hattr)
  constructor
  · exact (hne (by simp)).trans h.slash
  · exact (hne (by simp)).trans h.atsign
  · exact (hne (by simp)).trans h.ampersand
  · exact (hne (by simp)).trans h.semicolon
  · exact (hne (by simp)).trans h.firstDigit
  · exact (hne (by simp)).trans h.colon

/-- A rule never makes a text longer, and keeps those of the given kind only. -/
def Shortens (rule : Text -> Text) (kept : Text -> Prop) : Prop :=
  forall text, (kept text -> rule text = text) ∧ (rule text).length ≤ text.length ∧
    ((rule text).length = text.length -> kept text)

theorem Shortens.comp {first second : Text -> Text} {kept kept' : Text -> Prop}
    (h : Shortens first kept) (h' : Shortens second kept') :
    Shortens (fun text => second (first text)) (fun text => kept text ∧ kept' text) := by
  intro text
  rcases h text with ⟨hkept, hle, hlength⟩
  rcases h' (first text) with ⟨hkept', hle', hlength'⟩
  refine ⟨?_, le_trans hle' hle, ?_⟩
  · rintro ⟨hfirst, hsecond⟩
    show second (first text) = text
    rw [hkept hfirst] at hkept' ⊢
    exact hkept' hsecond
  · intro heq
    have hboth : (second (first text)).length = text.length := heq
    have hfirst := hlength (le_antisymm hle (hboth ▸ hle'))
    rw [hkept hfirst] at hlength' hboth
    exact ⟨hfirst, hlength' hboth⟩

theorem shortens_unescape (attr sequence char : Text) (hlength : char.length < sequence.length) :
    Shortens (unescape attrib attr sequence char)
      (fun text => attr ∈ attrib -> contains sequence text = false) := by
  intro text
  unfold unescape
  by_cases hattr : attr ∈ attrib
  · rw [if_pos hattr]
    refine ⟨fun h => replace_of_not_contains (h hattr), length_replace_le (Nat.le_of_lt hlength) _,
      ?_⟩
    intro heq _
    by_contra hcontains
    have hless := length_replace_lt hlength (Bool.not_eq_false _ ▸ hcontains)
    omega
  · rw [if_neg hattr]
    exact ⟨fun _ => rfl, Nat.le_refl _, fun _ h => absurd h hattr⟩

/-- The texts without a sequence that stands for a character of theirs. -/
structure Unescaped (text : Text) : Prop where
  slash : "escape_slash".toList ∈ attrib -> contains "__slash__".toList text = false
  atsign : "escape_atsign".toList ∈ attrib -> contains "__atsign__".toList text = false
  firstDigit : "first_digit".toList ∈ attrib -> contains "__fdigit__".toList text = false
  colon : "escape_colon".toList ∈ attrib -> contains "__colon__".toList text = false
  ampersand : "escape_ampersand".toList ∈ attrib -> contains "__amp__".toList text = false
  semicolon : "escape_semicolon".toList ∈ attrib -> contains "__semicolon__".toList text = false

theorem shortens_unescapeTag : Shortens (unescapeTag attrib) (Unescaped attrib) := by
  have hslash := shortens_unescape attrib "escape_slash".toList "__slash__".toList "/".toList
    (by decide)
  have hatsign := shortens_unescape attrib "escape_atsign".toList "__atsign__".toList
    "@".toList (by decide)
  have hdigit := shortens_unescape attrib "first_digit".toList "__fdigit__".toList []
    (by decide)
  have hcolon := shortens_unescape attrib "escape_colon".toList "__colon__".toList ":".toList
    (by decide)
  have hampersand := shortens_unescape attrib "escape_ampersand".toList "__amp__".toList
    "&".toList (by decide)
  have hsemicolon := shortens_unescape attrib "escape_semicolon".toList
    "__semicolon__".toList ";".toList (by decide)
  have hall := ((((hslash.comp hatsign).comp hdigit).comp hcolon).comp hampersand).comp hsemicolon
  intro text
  rcases hall text with ⟨hkept, hle, hlength⟩
  refine ⟨?_, hle, ?_⟩
  · intro h
    exact hkept ⟨⟨⟨⟨⟨h.slash, h.atsign⟩, h.firstDigit⟩, h.colon⟩, h.ampersand⟩, h.semicolon⟩
  · intro heq
    rcases hlength heq with ⟨⟨⟨⟨⟨h1, h2⟩, h3⟩, h4⟩, h5⟩, h6⟩
    exact ⟨h1, h2, h3, h4, h5, h6⟩

variable {tagName : Text}

theorem replaceCodes_of_none (h : isoMatch tagName = none) :
    replaceCodes tagName = .ok tagName := by
  rw [replaceCodes]
  split
  · rfl
  · next heq =>
      rw [h] at heq
      cases heq

theorem replaceCodes_of_some {tagName pre code post : Text}
    (h : isoMatch tagName = some (pre, code, post)) :
    replaceCodes tagName = (codeChar code).bind fun c => replaceCodes (pre ++ c :: post) := by
  rw [replaceCodes]
  split
  · next heq =>
      rw [h] at heq
      cases heq
  · next heq =>
      rw [h] at heq
      cases heq
      cases codeChar code with
      | error raised => rfl
      | ok c => rfl

theorem replaceCodes_length {tagName text : Text} (h : replaceCodes tagName = .ok text) :
    text.length ≤ tagName.length ∧ (text.length = tagName.length -> isoMatch tagName = none) := by
  induction tagName using replaceCodes.induct with
  | case1 tagName hmatch =>
    rw [replaceCodes_of_none hmatch] at h
    cases h
    exact ⟨Nat.le_refl _, fun _ => hmatch⟩
  | case2 tagName pre code post hmatch raised hcode =>
    rw [replaceCodes_of_some hmatch, hcode] at h
    cases h
  | case3 tagName pre code post hmatch c hcode ih =>
    rw [replaceCodes_of_some hmatch, hcode] at h
    have hrest := (ih h).left
    have hlength := isoMatch_length hmatch
    simp only [length_append, length_cons] at hrest hlength
    constructor
    · omega
    · intro heq
      omega

/-- The texts that no rule for tags applies to. -/
structure KeptText (text : Text) : Prop where
  legal : legalText text = true
  namespaced : "\x7bhttp".toList.isPrefixOf text = false
  slash : '/' ∈ text -> contains "__slash__".toList text = false
  atsign : '@' ∈ text -> contains "__atsign__".toList text = false
  firstDigit : startsWithDigit text = true -> contains "__fdigit__".toList text = false
  colon : ':' ∈ text -> contains "__colon__".toList text = false
  ampersand : '&' ∈ text -> contains "__amp__".toList text = false
  semicolon : ';' ∈ text -> contains "__semicolon__".toList text = false
  integer : "__int__".toList.isPrefixOf text = false
  empty : text ≠ "__empty__".toList
  noneKey : text ≠ "__none__".toList
  code : isoMatch text = none

theorem cutNamespace_length {tagName text : Text} (h : cutNamespace tagName = .ok text) :
    text.length ≤ tagName.length ∧
      (text.length = tagName.length -> "\x7bhttp".toList.isPrefixOf tagName = false ∧
        text = tagName) := by
  unfold cutNamespace at h
  by_cases hstart : "\x7bhttp".toList.isPrefixOf tagName = true
  · rw [if_pos hstart] at h
    cases hbreak : breakOn ['}'] tagName with
    | none =>
      rw [hbreak] at h
      cases h
    | some parts =>
      rw [hbreak] at h
      cases h
      have hlength := congrArg List.length (breakOn_eq_some hbreak)
      simp only [length_append, length_cons, length_nil] at hlength
      constructor
      · omega
      · intro heq
        omega
  · rw [if_neg hstart] at h
    cases h
    exact ⟨Nat.le_refl _, fun _ => ⟨Bool.eq_false_iff.mpr hstart, rfl⟩⟩

theorem keyOfTag_weight {key : Key} (h : keyOfTag tagName = .ok key) :
    Value.keyWeight key ≤ tagName.length + 1 ∧
      (Value.keyWeight key = tagName.length + 1 ->
        "__int__".toList.isPrefixOf tagName = false ∧ tagName ≠ "__empty__".toList ∧
          tagName ≠ "__none__".toList ∧ isoMatch tagName = none) := by
  unfold keyOfTag at h
  by_cases hint : "__int__".toList.isPrefixOf tagName = true
  · rw [if_pos hint] at h
    cases hparse : parseInt (tagName.drop 7) with
    | none =>
      rw [hparse] at h
      cases h
    | some value =>
      rw [hparse] at h
      cases h
      exact ⟨Nat.zero_le _, fun heq => Nat.noConfusion heq⟩
  · rw [if_neg hint] at h
    by_cases hempty : tagName = "__empty__".toList
    · rw [if_pos hempty] at h
      cases h
      rw [hempty]
      exact ⟨by decide, fun heq => absurd heq (by decide)⟩
    · rw [if_neg hempty] at h
      by_cases hnone : tagName = "__none__".toList
      · rw [if_pos hnone] at h
        cases h
        exact ⟨Nat.zero_le _, fun heq => Nat.noConfusion heq⟩
      · rw [if_neg hnone] at h
        cases hcodes : replaceCodes tagName with
        | error raised =>
          rw [hcodes] at h
          cases h
        | ok text =>
          rw [hcodes] at h
          cases h
          rcases replaceCodes_length hcodes with ⟨hle, hlength⟩
          exact ⟨Nat.succ_le_succ hle, fun heq =>
            ⟨Bool.eq_false_iff.mpr hint, hempty, hnone, hlength (Nat.succ.inj heq)⟩⟩

theorem keyOfTag_kept (hint : "__int__".toList.isPrefixOf tagName = false)
    (hempty : tagName ≠ "__empty__".toList) (hnone : tagName ≠ "__none__".toList)
    (hcode : isoMatch tagName = none) : keyOfTag tagName = .ok (.str tagName) := by
  unfold keyOfTag
  rw [if_neg (Bool.eq_false_iff.mp hint), if_neg hempty, if_neg hnone, replaceCodes_of_none hcode]
  rfl

theorem interpretTag_kept {el : Element} {text : Text} (h : KeptText text)
    (hescapes : Escapes el.attrib text) : interpretTag el text = .ok (.str text) := by
  have hcut : cutNamespace text = .ok text := if_neg (Bool.eq_false_iff.mp h.namespaced)
  have hunescape : unescapeTag el.attrib text = text := by
    apply (shortens_unescapeTag el.attrib text).left
    exact ⟨fun hattr => h.slash (hescapes.slash.mp hattr),
      fun hattr => h.atsign (hescapes.atsign.mp hattr),
      fun hattr => h.firstDigit (hescapes.firstDigit.mp hattr),
      fun hattr => h.colon (hescapes.colon.mp hattr),
      fun hattr => h.ampersand (hescapes.ampersand.mp hattr),
      fun hattr => h.semicolon (hescapes.semicolon.mp hattr)⟩
  unfold interpretTag
  rw [hcut]
  show keyOfTag (unescapeTag el.attrib text) = _
  rw [hunescape, keyOfTag_kept h.integer h.empty h.noneKey h.code]

theorem interpretTag_weight {el : Element} {text : Text} {key : Key}
    (hlegal : legalText text = true) (hescapes : Escapes el.attrib text)
    (h : interpretTag el text = .ok key) :
    Value.keyWeight key ≤ text.length + 1 ∧
      (Value.keyWeight key = text.length + 1 -> KeptText text) := by
  unfold interpretTag at h
  cases hcut : cutNamespace text with
  | error raised =>
    rw [hcut] at h
    cases h
  | ok tagName =>
    rw [hcut] at h
    have hkey : keyOfTag (unescapeTag el.attrib tagName) = .ok key := h
    rcases cutNamespace_length hcut with ⟨hle, hlength⟩
    rcases shortens_unescapeTag el.attrib tagName with ⟨hkept, hle', hlength'⟩
    rcases keyOfTag_weight hkey with ⟨hle'', hlength''⟩
    constructor
    · omega
    · intro heq
      rcases hlength (by omega) with ⟨hnamespaced, rfl⟩
      have hunescaped := hlength' (by omega)
      rw [hkept hunescaped] at hlength''
      rcases hlength'' heq with ⟨hint, hempty, hnone, hcode⟩
      exact
        { legal := hlegal
          namespaced := hnamespaced
          slash := fun hc => hunescaped.slash (hescapes.slash.mpr hc)
          atsign := fun hc => hunescaped.atsign (hescapes.atsign.mpr hc)
          firstDigit := fun hc => hunescaped.firstDigit (hescapes.firstDigit.mpr hc)
          colon := fun hc => hunescaped.colon (hescapes.colon.mpr hc)
          ampersand := fun hc => hunescaped.ampersand (hescapes.ampersand.mpr hc)
          semicolon := fun hc => hunescaped.semicolon (hescapes.semicolon.mpr hc)
          integer := hint
          empty := hempty
          noneKey := hnone
          code := hcode }

end Icsw.ServerCommand
