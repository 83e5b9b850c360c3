import Icsw.Foundation.Xml

/-!
# Content models

A content model says which elements stand next to each other and inside of each other..  If the first
element of each optional or repeated part tells whether the part is there, the document order
determines the elements, without a sign where one ends.
-/

namespace Icsw.Foundation

open List

namespace Element

mutual

def iter : Element -> List Element
  | mk tag attrib text children => mk tag attrib text children :: iterAll children
termination_by structural el => el

def iterAll : List Element -> List Element
  | [] => []
  | el :: rest => iter el ++ iterAll rest
termination_by structural els => els

end

theorem iter_eq (el : Element) : el.iter = el :: iterAll el.children := by
  cases el with
  | mk tag attrib text children => rfl

@[simp] theorem iterAll_nil : iterAll [] = [] := rfl

@[simp] theorem iterAll_cons (el : Element) (rest : List Element) :
    iterAll (el :: rest) = el.iter ++ iterAll rest := rfl

@[simp] theorem iterAll_append (first rest : List Element) :
    iterAll (first ++ rest) = iterAll first ++ iterAll rest := by
  induction first with
  | nil => rfl
  | cons el later ih => rw [cons_append, iterAll_cons, iterAll_cons, ih, append_assoc]

inductive Alike (related : Element -> Element -> Prop) : Element -> Element -> Prop where
  | intro {el el' : Element} (here : related el el')
      (below : List.Forall₂ (Alike related) el.children el'.children) : Alike related el el'

variable {related : Element -> Element -> Prop}

theorem Alike.here {el el' : Element} (h : Alike related el el') : related el el' := by
  cases h with
  | intro here below => exact here

theorem Alike.child {el el' child child' : Element}
    (h : Alike related el el') (place : Nat) (hchild : el.children[place]? = some child)
    (hchild' : el'.children[place]? = some child') : Alike related child child' := by
  cases h with
  | intro here below =>
    revert hchild hchild'
    generalize el.children = els at below
    generalize el'.children = els' at below
    induction below generalizing place with
    | nil =>
      intro hchild
      cases hchild
    | cons hfirst hrest ih =>
      intro hchild hchild'
      cases place with
      | zero =>
        cases hchild
        cases hchild'
        exact hfirst
      | succ place => exact ih place hchild hchild'

end Element

/-- The children of an element, by their names and the names of their attributes. -/
inductive Content where
  | nothing
  | leaf (name : Text) (attributes : List Text)
  | node (name : Text) (attributes : List Text) (content : Content)
  | both (first second : Content)
  | optional (content : Content)
  | zeroOrMore (content : Content)

namespace Content

def oneOrMore (content : Content) : Content := both content (zeroOrMore content)

/-- The contents one after the other. -/
def sequence (contents : List Content) : Content := contents.foldr both nothing

variable (qualify : Text -> Text)

structure Named (name : Text) (attributes : List Text) (el : Element) : Prop where
  tag : el.tag = qualify name
  attributes : el.attrib.keys.Perm attributes

/-- A leaf holds any text, other elements hold nothing but whitespace between their children. -/
def accepts : Content -> List Element -> Prop
  | nothing, els => els = []
  | leaf name attributes, els =>
    exists el, els = [el] ∧ Named qualify name attributes el ∧ el.children = []
  | node name attributes content, els =>
    exists el, els = [el] ∧ Named qualify name attributes el ∧
      strip (el.text.getD []) = [] ∧ accepts content el.children
  | both first second, els =>
    exists before after, els = before ++ after ∧ accepts first before ∧ accepts second after
  | optional content, els => els = [] ∨ accepts content els
  | zeroOrMore content, els =>
    exists parts : List (List Element), els = parts.flatten ∧
      forall part, part ∈ parts -> accepts content part

structure Declaration where
  name : Text
  attributes : List Text
  holdsText : Bool
deriving DecidableEq

def declarations : Content -> List Declaration
  | nothing => []
  | leaf name attributes => [⟨name, attributes, true⟩]
  | node name attributes content => ⟨name, attributes, false⟩ :: declarations content
  | both first second => declarations first ++ declarations second
  | optional content => declarations content
  | zeroOrMore content => declarations content

variable {qualify}

variable {els : List Element} {el : Element}

theorem accepts_cons {first : Content} {rest : List Content}
    (hfirst : accepts qualify first [el]) (hrest : accepts qualify (sequence rest) els) :
    accepts qualify (sequence (first :: rest)) (el :: els) :=
  ⟨[el], els, rfl, hfirst, hrest⟩

theorem accepts_skip {first : Content} {rest : List Content}
    (hfirst : accepts qualify first []) (hrest : accepts qualify (sequence rest) els) :
    accepts qualify (sequence (first :: rest)) els :=
  ⟨[], els, rfl, hfirst, hrest⟩

variable {content : Content}

theorem accepts_zeroOrMore (h : forall el, el ∈ els -> accepts qualify content [el]) :
    accepts qualify (zeroOrMore content) els := by
  refine ⟨els.map fun el => [el], ?_, ?_⟩
  · rw [← flatMap_def, flatMap_singleton' els]
  · intro part hpart
    rcases mem_map.mp hpart with ⟨el, hel, rfl⟩
    exact h el hel

theorem accepts_one (h : accepts qualify content [el]) :
    accepts qualify (oneOrMore content) [el] :=
  ⟨[el], [], rfl, h, [], rfl, fun _ hmem => absurd hmem not_mem_nil⟩

theorem declared (h : accepts qualify content els) (hel : el ∈ Element.iterAll els) :
    exists declaration, declaration ∈ declarations content ∧
      Named qualify declaration.name declaration.attributes el ∧
        (declaration.holdsText = false -> strip (el.text.getD []) = []) := by
  induction content generalizing els with
  | nothing =>
    cases h
    cases hel
  | leaf name attributes =>
    rcases h with ⟨other, rfl, hnamed, hchildren⟩
    rw [Element.iterAll_cons, Element.iter_eq, hchildren] at hel
    cases mem_singleton.mp hel
    exact ⟨⟨name, attributes, true⟩, mem_singleton.mpr rfl, hnamed, fun h => by cases h⟩
  | node name attributes content ih =>
    rcases h with ⟨other, rfl, hnamed, hblank, hcontent⟩
    rw [Element.iterAll_cons, Element.iter_eq, Element.iterAll_nil, append_nil] at hel
    rcases mem_cons.mp hel with rfl | hbelow
    · exact ⟨⟨name, attributes, false⟩, mem_cons_self, hnamed, fun _ => hblank⟩
    · rcases ih hcontent hbelow with ⟨declaration, hmem, hfits⟩
      exact ⟨declaration, mem_cons_of_mem _ hmem, hfits⟩
  | both first second ihfirst ihsecond =>
    rcases h with ⟨before, after, rfl, hbefore, hafter⟩
    rw [Element.iterAll_append] at hel
    rcases mem_append.mp hel with hin | hin
    · rcases ihfirst hbefore hin with ⟨declaration, hmem, hfits⟩
      exact ⟨declaration, mem_append_left _ hmem, hfits⟩
    · rcases ihsecond hafter hin with ⟨declaration, hmem, hfits⟩
      exact ⟨declaration, mem_append_right _ hmem, hfits⟩
  | optional content ih =>
    rcases h with rfl | hels
    · cases hel
    · exact ih hels hel
  | zeroOrMore content ih =>
    rcases h with ⟨parts, rfl, hparts⟩
    induction parts with
    | nil => cases hel
    | cons part parts ihparts =>
      rw [flatten_cons, Element.iterAll_append] at hel
      rcases mem_append.mp hel with hin | hin
      · exact ih (hparts part mem_cons_self) hin
      · exact ihparts (fun other hmem => hparts other (mem_cons_of_mem _ hmem)) hin

def nullable : Content -> Bool
  | nothing => true
  | leaf _ _ => false
  | node _ _ _ => false
  | both first second => nullable first && nullable second
  | optional _ => true
  | zeroOrMore _ => true

def firsts : Content -> List Text
  | nothing => []
  | leaf name _ => [name]
  | node name _ _ => [name]
  | both first second => firsts first ++ if nullable first then firsts second else []
  | optional content => firsts content
  | zeroOrMore content => firsts content

def apart (names others : List Text) : Bool := names.all fun name => decide (name ∉ others)

/-- What may follow never begins as a part that may be missing. -/
def determined : Content -> List Text -> Bool
  | nothing, _ => true
  | leaf _ _, _ => true
  | node _ _ content, follow => determined content follow
  | both first second, follow =>
    determined first (firsts second ++ if nullable second then follow else []) &&
      determined second follow
  | optional content, follow =>
    !nullable content && apart (firsts content) follow && determined content follow
  | zeroOrMore content, follow =>
    !nullable content && apart (firsts content) follow &&
      determined content (firsts content ++ follow)

theorem nullable_of_accepts_nil (h : accepts qualify content []) : nullable content = true := by
  induction content with
  | nothing => rfl
  | leaf name attributes =>
    rcases h with ⟨el, hnil, _⟩
    cases hnil
  | node name attributes content ih =>
    rcases h with ⟨el, hnil, _⟩
    cases hnil
  | both first second ihfirst ihsecond =>
    rcases h with ⟨before, after, hnil, hbefore, hafter⟩
    rcases append_eq_nil_iff.mp hnil.symm with ⟨rfl, rfl⟩
    exact Bool.and_eq_true_iff.mpr ⟨ihfirst hbefore, ihsecond hafter⟩
  | optional content ih => rfl
  | zeroOrMore content ih => rfl

theorem exists_cons_of_accepts (hnullable : (!nullable content) = true) (h : accepts qualify content els) :
    exists el later, els = el :: later := by
  cases els with
  | nil =>
    rw [nullable_of_accepts_nil h] at hnullable
    cases hnullable
  | cons el later => exact ⟨el, later, rfl⟩

theorem head_of_accepts {rest : List Element} (h : accepts qualify content (el :: rest)) :
    exists name, name ∈ firsts content ∧ el.tag = qualify name := by
  induction content generalizing el rest with
  | nothing => cases h
  | leaf name attributes | node name attributes content ih =>
    rcases h with ⟨other, heq, hnamed, _⟩
    cases heq
    exact ⟨name, mem_singleton.mpr rfl, hnamed.tag⟩
  | both first second ihfirst ihsecond =>
    rcases h with ⟨before, after, heq, hbefore, hafter⟩
    cases before with
    | nil =>
      rw [nil_append] at heq
      subst heq
      rcases ihsecond hafter with ⟨name, hmem, htag⟩
      refine ⟨name, mem_append_right _ ?_, htag⟩
      rw [if_pos (nullable_of_accepts_nil hbefore)]
      exact hmem
    | cons other before =>
      cases heq
      rcases ihfirst hbefore with ⟨name, hmem, htag⟩
      exact ⟨name, mem_append_left _ hmem, htag⟩
  | optional content ih =>
    rcases h with hnil | hcontent
    · cases hnil
    · exact ih hcontent
  | zeroOrMore content ih =>
    rcases h with ⟨parts, heq, hparts⟩
    induction parts with
    | nil => cases heq
    | cons part parts ihparts =>
      cases part with
      | nil =>
        rw [flatten_cons, nil_append] at heq
        exact ihparts heq fun later hmem => hparts later (mem_cons_of_mem _ hmem)
      | cons other part =>
        cases heq
        exact ih (hparts (el :: part) mem_cons_self)

section Reading

variable {β : Type} (shown : Element -> β)

/-- What is read off an element: its tag, and what else is shown of it. -/
def label (el : Element) : Text × β := (el.tag, shown el)

def labels (els : List Element) : List (Text × β) := (Element.iterAll els).map (label shown)

/-- Nothing comes, or something that begins with one of the names. -/
def Follows (qualify : Text -> Text) (names : List Text) (rest : List (Text × β)) : Prop :=
  rest = [] ∨ exists name shown' later, name ∈ names ∧ rest = (qualify name, shown') :: later

variable {shown}

@[simp] theorem labels_nil : labels shown [] = [] := rfl

@[simp] theorem labels_cons (el : Element) (rest : List Element) :
    labels shown (el :: rest) = label shown el :: (labels shown el.children ++ labels shown rest) := by
  rw [labels, Element.iterAll_cons, Element.iter_eq, map_append, map_cons,
    cons_append]
  rfl

theorem labels_append (first rest : List Element) :
    labels shown (first ++ rest) = labels shown first ++ labels shown rest := by
  rw [labels, Element.iterAll_append, map_append]
  rfl

theorem Follows.mono {names names' : List Text} {rest : List (Text × β)}
    (h : Follows qualify names rest) (hsub : names ⊆ names') : Follows qualify names' rest := by
  rcases h with hnil | ⟨name, shown', later, hmem, heq⟩
  · exact Or.inl hnil
  · exact Or.inr ⟨name, shown', later, hsub hmem, heq⟩

variable {follow : List Text}

theorem follows_labels
    (h : accepts qualify content els) {rest : List (Text × β)} (hrest : Follows qualify follow rest) :
    Follows qualify (firsts content ++ if nullable content then follow else [])
      (labels shown els ++ rest) := by
  cases els with
  | nil =>
    rw [if_pos (nullable_of_accepts_nil h)]
    exact hrest.mono (subset_append_right _ _)
  | cons el later =>
    rcases head_of_accepts h with ⟨name, hmem, htag⟩
    refine Or.inr ⟨name, shown el, labels shown el.children ++ labels shown later ++ rest,
      mem_append_left _ hmem, ?_⟩
    rw [labels_cons, cons_append, label, htag]

theorem not_mem_of_apart {names others : List Text} (h : apart names others = true) {name : Text}
    (hname : name ∈ names) : name ∉ others :=
  of_decide_eq_true (all_eq_true.mp h name hname)

theorem begins_apart (hqualify : Function.Injective qualify)
    (hapart : apart (firsts content) follow = true)
    {later : List Element} (h : accepts qualify content (el :: later))
    {rest rest' : List (Text × β)} (hrest : Follows qualify follow rest) :
    labels shown (el :: later) ++ rest' ≠ rest := by
  intro heq
  rcases head_of_accepts h with ⟨name, hmem, htag⟩
  rw [labels_cons, cons_append] at heq
  rcases hrest with hnil | ⟨other, shown', more, hother, hmore⟩
  · rw [hnil] at heq
    cases heq
  · rw [hmore] at heq
    injection heq with hlabel _
    have hsame : qualify name = qualify other := by
      rw [← htag]
      exact congrArg Prod.fst hlabel
    exact not_mem_of_apart hapart hmem (hqualify hsame ▸ hother)

theorem read_back (hqualify : Function.Injective qualify) {related : Element -> Element -> Prop}
    (hrelated : forall el el', label shown el = label shown el' -> related el el')
    (hdetermined : determined content follow = true) {els els' : List Element}
    (h : accepts qualify content els) (h' : accepts qualify content els')
    {rest rest' : List (Text × β)} (hrest : Follows qualify follow rest)
    (hrest' : Follows qualify follow rest')
    (heq : labels shown els ++ rest = labels shown els' ++ rest') :
    Forall₂ (Element.Alike related) els els' ∧
      rest = rest' := by
  induction content generalizing follow els els' rest rest' with
  | nothing =>
    cases h
    cases h'
    exact ⟨Forall₂.nil, heq⟩
  | leaf name attributes =>
    rcases h with ⟨el, rfl, _, hchildren⟩
    rcases h' with ⟨el', rfl, _, hchildren'⟩
    rw [labels_cons, labels_cons, hchildren, hchildren'] at heq
    injection heq with hlabel hlater
    refine ⟨Forall₂.cons ?_ Forall₂.nil, hlater⟩
    refine Element.Alike.intro (hrelated el el' hlabel) ?_
    rw [hchildren, hchildren']
    exact Forall₂.nil
  | node name attributes content ih =>
    rcases h with ⟨el, rfl, _, _, hcontent⟩
    rcases h' with ⟨el', rfl, _, _, hcontent'⟩
    rw [labels_cons, labels_cons, labels_nil, append_nil, append_nil] at heq
    injection heq with hlabel hlater
    rcases ih hdetermined hcontent hcontent' hrest hrest' hlater with ⟨hbelow, hsame⟩
    exact ⟨Forall₂.cons (Element.Alike.intro (hrelated el el' hlabel) hbelow) Forall₂.nil, hsame⟩
  | both first second ihfirst ihsecond =>
    rcases Bool.and_eq_true_iff.mp hdetermined with ⟨hfirst, hsecond⟩
    rcases h with ⟨before, after, rfl, hbefore, hafter⟩
    rcases h' with ⟨before', after', rfl, hbefore', hafter'⟩
    rw [labels_append, labels_append, append_assoc, append_assoc] at heq
    rcases ihfirst hfirst hbefore hbefore' (follows_labels hafter hrest)
      (follows_labels hafter' hrest') heq with ⟨hfirsts, hlater⟩
    rcases ihsecond hsecond hafter hafter' hrest hrest' hlater with ⟨hseconds, hsame⟩
    exact ⟨rel_append hfirsts hseconds, hsame⟩
  | optional content ih =>
    rw [determined, Bool.and_eq_true_iff, Bool.and_eq_true_iff] at hdetermined
    rcases hdetermined with ⟨⟨hnullable, hapart⟩, hcontent⟩
    rcases h with rfl | hels
    · rcases h' with rfl | hels'
      · exact ⟨Forall₂.nil, heq⟩
      · rcases exists_cons_of_accepts hnullable hels' with ⟨el, later, rfl⟩
        exact absurd heq.symm (begins_apart hqualify hapart hels' hrest)
    · rcases h' with rfl | hels'
      · rcases exists_cons_of_accepts hnullable hels with ⟨el, later, rfl⟩
        exact absurd heq (begins_apart hqualify hapart hels hrest')
      · exact ih hcontent hels hels' hrest hrest' heq
  | zeroOrMore content ih =>
    have hfollow := hdetermined
    rw [determined, Bool.and_eq_true_iff, Bool.and_eq_true_iff] at hdetermined
    rcases hdetermined with ⟨⟨hnullable, hapart⟩, hcontent⟩
    rcases h with ⟨parts, rfl, hparts⟩
    rcases h' with ⟨parts', rfl, hparts'⟩
    induction parts generalizing parts' rest rest' with
    | nil =>
      cases parts' with
      | nil => exact ⟨Forall₂.nil, heq⟩
      | cons part' parts' =>
        have hpart' := hparts' part' mem_cons_self
        rcases exists_cons_of_accepts hnullable hpart' with ⟨el, later, rfl⟩
        rw [flatten_cons, labels_append, append_assoc] at heq
        exact absurd heq.symm (begins_apart hqualify hapart hpart' hrest)
    | cons part parts ihparts =>
      have hpart := hparts part mem_cons_self
      have hlater : accepts qualify (zeroOrMore content) parts.flatten :=
        ⟨parts, rfl, fun other hmem => hparts other (mem_cons_of_mem _ hmem)⟩
      cases parts' with
      | nil =>
        rcases exists_cons_of_accepts hnullable hpart with ⟨el, later, rfl⟩
        rw [flatten_cons, labels_append, append_assoc] at heq
        exact absurd heq (begins_apart hqualify hapart hpart hrest')
      | cons part' parts' =>
        have hpart' := hparts' part' mem_cons_self
        have hlater' : accepts qualify (zeroOrMore content) parts'.flatten :=
          ⟨parts', rfl, fun other hmem => hparts' other (mem_cons_of_mem _ hmem)⟩
        rw [flatten_cons, flatten_cons, labels_append, labels_append,
          append_assoc, append_assoc] at heq
        rcases ih hcontent hpart hpart' (follows_labels hlater hrest)
          (follows_labels hlater' hrest') heq with ⟨hfirst, hrests⟩
        rcases ihparts hrest hrest' (fun other hmem => hparts other (mem_cons_of_mem _ hmem))
          parts' (fun other hmem => hparts' other (mem_cons_of_mem _ hmem))
          hrests with ⟨hothers, hsame⟩
        exact ⟨rel_append hfirst hothers, hsame⟩

end Reading

end Content

end Icsw.Foundation
