import Icsw.Foundation.ContentModel
import Icsw.Foundation.Separated

/-!
# Licence signatures

What is signed of a licence file is a string of its elements with separators that are not escaped.
So it stands for one file only as long as the values do not contain what separates them.
-/

namespace Icsw.License

open Foundation List
open Content

def xmlNs : Text := "http://www.initat.org/lxml/ns".toList

/-- The tag of an element of the namespace. -/
def qualified (name : Text) : Text := '{' :: (xmlNs ++ '}' :: name)

def textElement (name : String) : Content := leaf name.toList []

def licenseContent : Content :=
  node "license".toList [] (sequence [
    textElement "id", textElement "uuid", textElement "valid-from", textElement "valid-to",
    node "parameters".toList [] (zeroOrMore (leaf "parameter".toList ["id".toList, "name".toList]))])

def packageParameterContent : Content :=
  node "package-parameter".toList [] (sequence [
    textElement "id", textElement "name", textElement "uuid", textElement "valid-from",
    textElement "valid-to", textElement "value"])

def clusterContent : Content :=
  node "cluster-id".toList ["id".toList] (sequence [
    optional (textElement "hardware-finger-print"),
    oneOrMore licenseContent,
    zeroOrMore packageParameterContent])

def packageContent : Content :=
  node "package".toList [] (sequence [
    node "package-meta".toList [] (sequence [
      textElement "package-name", textElement "package-uuid", textElement "package-date",
      textElement "package-version", textElement "package-type-id",
      textElement "package-type-name"]),
    oneOrMore clusterContent])

/-- The element `license-file` of `LIC_FILE_RELAX_NG_DEFINITION`. -/
def licenseFileContent : Content :=
  node "license-file".toList [] (sequence [
    node "license-file-meta".toList [] (sequence [
      textElement "created-by", textElement "creation-datetime",
      textElement "file-format-version"]),
    node "customer".toList [] (sequence [
      textElement "name", textElement "repository_login", textElement "repository_password"]),
    node "package-list".toList [] (oneOrMore packageContent)])

variable (el : Element)

def IsLicenseFile : Prop := accepts qualified licenseFileContent [el]

def dictToStr (d : Dict Text Text) : Text :=
  intercalate [';'] (d.entries.map fun entry => entry.1 ++ ':' :: entry.2)

def strippedText : Text :=
  match el.text with
  | some text => strip text
  | none => []

def partForSignature : Text :=
  el.tag ++ '/' :: (dictToStr el.attrib ++ '/' :: strippedText el)

def extractStringForSignature (content : Element) : Text :=
  intercalate ['_'] (content.iter.map partForSignature)

structure SameElement (el el' : Element) : Prop where
  tag : el.tag = el'.tag
  attributes : el.attrib.entries.Perm el'.attrib.entries
  text : strippedText el = strippedText el'

def Covered (content content' : Element) : Prop :=
  extractStringForSignature content = extractStringForSignature content' ->
    Element.Alike SameElement content content'

/-- The namespace, as it stands in front of each name. -/
def lead : Text := '{' :: (xmlNs ++ ['}'])

theorem qualified_eq (name : Text) : qualified name = lead ++ name := by
  unfold qualified lead
  rw [cons_append, append_assoc, singleton_append]

/-- What stands between the values of two attributes. -/
def between (key : Text) : Text := ';' :: (key ++ [':'])

/-- Whitespace follows on every slash, so that nothing can be cut off there and be a stripped
text. -/
def slashesFollowed : Text -> Bool
  | [] => true
  | c :: rest => (decide (c ≠ '/') || (rest.head?.any isWhitespace)) && slashesFollowed rest

def AttributesApart (entries : List (Sigma fun _ : Text => Text)) : Prop :=
  match entries with
  | [first, second] => ¬ between second.1 <:+: first.2 ∧ slashesFollowed second.2 = true
  | _ => True

/-- No value contains what separates it from what comes next. -/
structure Legible (el : Element) : Prop where
  closed : ¬ ('_' :: lead) <:+: dictToStr el.attrib ++ '/' :: strippedText el
  attributes : AttributesApart el.attrib.entries

instance decidableAttributesApart (entries : List (Sigma fun _ : Text => Text)) :
    Decidable (AttributesApart entries) :=
  match entries with
  | [first, second] =>
    @instDecidableAnd _ _
      (@instDecidableNot _ (instDecidableIsInfixOfDecidableEq (between second.1) first.2))
      (instDecidableEqBool (slashesFollowed second.2) true)
  | [] => isTrue trivial
  | [_] => isTrue trivial
  | _ :: _ :: _ :: _ => isTrue trivial

instance decidableLegible (el : Element) : Decidable (Legible el) :=
  match instDecidableIsInfixOfDecidableEq ('_' :: lead)
      (dictToStr el.attrib ++ '/' :: strippedText el),
    decidableAttributesApart el.attrib.entries with
  | isTrue hopen, _ => isFalse fun h => h.closed hopen
  | isFalse _, isFalse hjoined => isFalse fun h => hjoined h.attributes
  | isFalse hclosed, isTrue hapart => isTrue ⟨hclosed, hapart⟩

def LegibleFile (content : Element) : Prop := forall el, el ∈ content.iter -> Legible el

instance decidableLegibleFile (content : Element) : Decidable (LegibleFile content) :=
  decidableBAll Legible content.iter

def attributesOf (name : Text) : List Text :=
  if name = "cluster-id".toList then ["id".toList]
  else if name = "parameter".toList then ["id".toList, "name".toList]
  else []

theorem determined_licenseFile : determined licenseFileContent [] = true := by decide

theorem declarations_licenseFile :
    forall declaration, declaration ∈ declarations licenseFileContent ->
      declaration.attributes = attributesOf declaration.name ∧ '/' ∉ declaration.name ∧
        ¬ ['_', '{'] <:+: declaration.name ++ ['/'] ∧
          (declaration.name = "cluster-id".toList -> declaration.holdsText = false) := by
  decide

theorem qualified_injective : Function.Injective qualified := by
  intro name name' h
  injection h with _ hrest
  exact (cons.inj (append_cancel_left hrest)).right

structure FileElement (name : Text) (el : Element) : Prop where
  named : Named qualified name (attributesOf name) el
  plain : '/' ∉ name
  closed : ¬ ['_', '{'] <:+: name ++ ['/']
  blank : name = "cluster-id".toList -> strippedText el = []

theorem strippedText_eq : strippedText el = strip (el.text.getD []) := by
  unfold strippedText
  cases el.text with
  | none => rfl
  | some text => rfl

theorem fileElement {content : Element} (h : IsLicenseFile content) {el : Element}
    (hel : el ∈ content.iter) : exists name, FileElement name el := by
  have hin : el ∈ Element.iterAll [content] := mem_append_left _ hel
  rcases declared h hin with ⟨declaration, hmem, hnamed, hblank⟩
  rcases declarations_licenseFile declaration hmem with ⟨hattributes, hplain, hclosed, hcluster⟩
  rw [hattributes] at hnamed
  refine ⟨declaration.name, hnamed, hplain, hclosed, ?_⟩
  intro hname
  rw [strippedText_eq]
  exact hblank (hcluster hname)

def body : Text :=
  el.tag.drop lead.length ++ '/' :: (dictToStr el.attrib ++ '/' :: strippedText el)

/-- What tells two elements apart: besides the tag the attributes and the text. -/
def shown : List (Sigma fun _ : Text => Text) × Text :=
  (el.attrib.entries, strippedText el)

section Reading

variable {name name' : Text} {el el' : Element}

theorem FileElement.body_eq (h : FileElement name el) :
    body el = name ++ '/' :: (dictToStr el.attrib ++ '/' :: strippedText el) := by
  rw [body, h.named.tag, qualified_eq, drop_left]

theorem FileElement.part_eq (h : FileElement name el) : partForSignature el = lead ++ body el := by
  rw [h.body_eq, partForSignature, h.named.tag, qualified_eq, append_assoc]

theorem attributesOf_cases (name : Text) :
    attributesOf name = [] ∨ name = "cluster-id".toList ∨
      attributesOf name = ["id".toList, "name".toList] := by
  unfold attributesOf
  split
  · next hcluster => exact Or.inr (Or.inl hcluster)
  · split
    · exact Or.inr (Or.inr rfl)
    · exact Or.inl rfl

theorem FileElement.entries_nil (h : FileElement name el) (hname : attributesOf name = []) :
    el.attrib.entries = [] := by
  have hkeys := h.named.attributes
  rw [hname] at hkeys
  exact map_eq_nil_iff.mp (perm_nil.mp hkeys)

theorem FileElement.entries_single (h : FileElement "cluster-id".toList el) :
    exists value, el.attrib.entries = [⟨"id".toList, value⟩] := by
  rcases map_eq_singleton_iff.mp (perm_singleton.mp h.named.attributes) with
    ⟨entry, hentries, hkey⟩
  refine ⟨entry.2, ?_⟩
  rw [hentries, ← hkey]

theorem FileElement.entries_pair (h : FileElement name el)
    (hname : attributesOf name = ["id".toList, "name".toList]) :
    exists first second, el.attrib.entries = [first, second] ∧
      [first.1, second.1].Perm ["id".toList, "name".toList] := by
  have hkeys := h.named.attributes
  rw [hname] at hkeys
  have hlength : el.attrib.entries.length = 2 := (length_map _).symm.trans hkeys.length_eq
  rcases length_eq_two.mp hlength with ⟨first, second, heq⟩
  have hmap : el.attrib.keys = [first.1, second.1] := by
    show el.attrib.entries.keys = _
    rw [heq]
    rfl
  rw [hmap] at hkeys
  exact ⟨first, second, heq, hkeys⟩

theorem whitespace_of_slashesFollowed {value before after : Text}
    (h : slashesFollowed value = true) (hvalue : value = before ++ '/' :: after) :
    exists c rest, after = c :: rest ∧ isWhitespace c = true := by
  induction before generalizing value with
  | nil =>
    subst hvalue
    have hhead := (Bool.and_eq_true_iff.mp h).left
    cases after with
    | nil => cases hhead
    | cons c rest => exact ⟨c, rest, rfl, hhead⟩
  | cons first before ih =>
    subst hvalue
    exact ih (Bool.and_eq_true_iff.mp h).right rfl

theorem slashes_inj {value value' : Text} (h : slashesFollowed value = true)
    (h' : slashesFollowed value' = true)
    (heq : value ++ '/' :: strippedText el = value' ++ '/' :: strippedText el') :
    value = value' ∧ strippedText el = strippedText el' := by
  have hstripped : forall (el : Element) (c : Char) (rest : Text),
      strippedText el = c :: rest -> isWhitespace c = false := by
    intro el c rest hcons
    rw [strippedText_eq] at hcons
    exact not_whitespace_of_strip_cons hcons
  rcases append_eq_append_iff.mp heq with ⟨part, hvalue', hrest⟩ | ⟨part, hvalue, hrest⟩
  · cases part with
    | nil =>
      rw [append_nil] at hvalue'
      exact ⟨hvalue'.symm, (cons.inj hrest).right⟩
    | cons slash part =>
      injection hrest with hslash htext
      rcases whitespace_of_slashesFollowed h' (hslash ▸ hvalue') with ⟨c, rest, rfl, hc⟩
      rw [hstripped el c _ htext] at hc
      cases hc
  · cases part with
    | nil =>
      rw [append_nil] at hvalue
      exact ⟨hvalue, (cons.inj hrest).right.symm⟩
    | cons slash part =>
      injection hrest with hslash htext
      rcases whitespace_of_slashesFollowed h (hslash ▸ hvalue) with ⟨c, rest, rfl, hc⟩
      rw [hstripped el' c _ htext] at hc
      cases hc

variable {d : Dict Text Text}

theorem dictToStr_pair {first second : Sigma fun _ : Text => Text}
    (h : d.entries = [first, second]) :
    dictToStr d = first.1 ++ ':' :: (first.2 ++ (between second.1 ++ second.2)) := by
  rw [dictToStr, h, map_cons, map_cons, map_nil, intercalate_cons_cons,
    intercalate_singleton]
  unfold between
  simp only [append_assoc, cons_append, nil_append]

theorem keys_cases {key key' : Text} (h : [key, key'].Perm ["id".toList, "name".toList]) :
    (key = "id".toList ∧ key' = "name".toList) ∨ (key = "name".toList ∧ key' = "id".toList) := by
  rcases mem_pair.mp (h.mem_iff.mp mem_cons_self) with rfl | rfl
  · have hrest := perm_singleton.mp ((perm_cons _).mp h)
    exact Or.inl ⟨rfl, (cons.inj hrest).left⟩
  · have hswap := h.trans (Perm.swap _ _ _)
    have hrest := perm_singleton.mp ((perm_cons _).mp hswap)
    exact Or.inr ⟨rfl, (cons.inj hrest).left⟩

theorem pair_inj {first second first' second' : Sigma fun _ : Text => Text}
    (hlegible : Legible el) (hlegible' : Legible el')
    (hentries : el.attrib.entries = [first, second])
    (hentries' : el'.attrib.entries = [first', second'])
    (hkeys : [first.1, second.1].Perm ["id".toList, "name".toList])
    (hkeys' : [first'.1, second'.1].Perm ["id".toList, "name".toList])
    (h : dictToStr el.attrib ++ '/' :: strippedText el =
      dictToStr el'.attrib ++ '/' :: strippedText el') : shown el = shown el' := by
  have hapart := hlegible.attributes
  have hapart' := hlegible'.attributes
  rw [hentries] at hapart
  rw [hentries'] at hapart'
  rcases hapart with ⟨hbetween, hslashes⟩
  rcases hapart' with ⟨hbetween', hslashes'⟩
  have hplain : forall key key' : Text, [key, key'].Perm ["id".toList, "name".toList] ->
      ':' ∉ key ∧ ';' ∉ key' ++ [':'] := by
    intro key key' hperm
    rcases keys_cases hperm with ⟨rfl, rfl⟩ | ⟨rfl, rfl⟩
    · decide
    · decide
  rw [dictToStr_pair hentries, dictToStr_pair hentries'] at h
  simp only [append_assoc, cons_append] at h
  rcases eq_of_append_separator (hplain _ _ hkeys).left (hplain _ _ hkeys').left h with
    ⟨hfirst, hrest⟩
  have hsecond : second.1 = second'.1 := by
    rcases keys_cases hkeys with ⟨hid, hname⟩ | ⟨hname, hid⟩
    · rcases keys_cases hkeys' with ⟨_, hname'⟩ | ⟨hother, _⟩
      · rw [hname, hname']
      · rw [hid, hother] at hfirst
        exact absurd hfirst (by decide)
    · rcases keys_cases hkeys' with ⟨hother, _⟩ | ⟨_, hid'⟩
      · rw [hname, hother] at hfirst
        exact absurd hfirst (by decide)
      · rw [hid, hid']
  rw [← hsecond] at hrest hbetween'
  rcases append_separator_inj (hplain _ _ hkeys).right hbetween hbetween' hrest with
    ⟨hvalue, hlast⟩
  rcases slashes_inj hslashes hslashes' hlast with ⟨hvalue', htext⟩
  unfold shown
  rw [hentries, hentries', htext, Sigma.ext hfirst (heq_of_eq hvalue),
    Sigma.ext hsecond (heq_of_eq hvalue')]

theorem dictToStr_nil (h : d.entries = []) : dictToStr d = [] := by
  rw [dictToStr, h]
  rfl

theorem dictToStr_single {key value : Text} (h : d.entries = [⟨key, value⟩]) :
    dictToStr d = key ++ ':' :: value := by
  rw [dictToStr, h]
  exact intercalate_singleton

theorem shown_eq_of_body (hel : FileElement name el) (hel' : FileElement name' el')
    (hlegible : Legible el) (hlegible' : Legible el') (h : body el = body el') :
    (el.tag, shown el) = (el'.tag, shown el') := by
  rw [hel.body_eq, hel'.body_eq] at h
  rcases eq_of_append_separator hel.plain hel'.plain h with ⟨rfl, hrest⟩
  rw [hel.named.tag, hel'.named.tag]
  refine congrArg (Prod.mk _) ?_
  rcases attributesOf_cases name with hnone | rfl | hpair
  · have hentries := hel.entries_nil hnone
    have hentries' := hel'.entries_nil hnone
    rw [dictToStr_nil hentries, dictToStr_nil hentries'] at hrest
    unfold shown
    rw [hentries, hentries', (cons.inj hrest).right]
  · rcases hel.entries_single with ⟨value, hentries⟩
    rcases hel'.entries_single with ⟨value', hentries'⟩
    rw [dictToStr_single hentries, dictToStr_single hentries', hel.blank rfl, hel'.blank rfl]
      at hrest
    have hvalue := (cons.inj (append_cancel_left (append_cancel_right hrest))).right
    unfold shown
    rw [hentries, hentries', hel.blank rfl, hel'.blank rfl, hvalue]
  · rcases hel.entries_pair hpair with ⟨first, second, hentries, hkeys⟩
    rcases hel'.entries_pair hpair with ⟨first', second', hentries', hkeys'⟩
    exact pair_inj hlegible hlegible' hentries hentries' hkeys hkeys' hrest

theorem separator_not_in_body (hel : FileElement name el) (hlegible : Legible el) :
    ¬ ('_' :: lead) <:+: body el := by
  intro h
  rw [hel.body_eq] at h
  have hrest := infix_of_append_right hel.closed h
  rcases infix_cons_iff.mp hrest with hprefix | hinfix
  · exact absurd (cons_prefix_cons.mp hprefix).left (by decide)
  · exact hlegible.closed hinfix

end Reading

theorem extractStringForSignature_eq {content : Element} (h : IsLicenseFile content) :
    extractStringForSignature content =
      lead ++ (body content ++
        separated ('_' :: lead) ((Element.iterAll content.children).map body)) := by
  have hparts : content.iter.map partForSignature = (content.iter.map body).map (lead ++ ·) := by
    rw [map_map]
    apply map_congr_left
    intro el hel
    rcases fileElement h hel with ⟨name, hname⟩
    exact hname.part_eq
  rw [extractStringForSignature, hparts, Element.iter_eq, map_cons, intercalate_map_append]
  rfl

theorem map_eq_of_map_eq {α β γ : Type} {f : α -> β} {g : α -> γ} {items items' : List α}
    (hfg : forall item, item ∈ items -> forall item', item' ∈ items' ->
      f item = f item' -> g item = g item')
    (h : items.map f = items'.map f) : items.map g = items'.map g := by
  induction items generalizing items' with
  | nil =>
    rw [map_nil] at h
    rw [map_eq_nil_iff.mp h.symm]
  | cons item rest ih =>
    rcases map_eq_cons_iff.mp h.symm with ⟨item', rest', rfl, hitem, hrest⟩
    have hlater := ih (fun other hother other' hother' =>
      hfg other (mem_cons_of_mem _ hother) other' (mem_cons_of_mem _ hother')) hrest.symm
    rw [map_cons, map_cons, hlater,
      hfg item mem_cons_self item' mem_cons_self hitem.symm]

theorem sameElement_of_label {el el' : Element} (h : label shown el = label shown el') :
    SameElement el el' := by
  injection h with htag hshown
  injection hshown with hentries htext
  exact ⟨htag, Perm.of_eq hentries, htext⟩

/-- Two licence files with legible values are the same, if the same string is signed for them. -/
theorem covered_of_legible {content content' : Element} (h : IsLicenseFile content)
    (h' : IsLicenseFile content') (hlegible : LegibleFile content)
    (hlegible' : LegibleFile content') : Covered content content' := by
  intro heq
  have hapart : forall {content : Element}, IsLicenseFile content -> LegibleFile content ->
      forall part, part ∈ body content :: (Element.iterAll content.children).map body ->
        ¬ ('_' :: lead) <:+: part := by
    intro content h hlegible part hpart hinfix
    rw [← map_cons, ← Element.iter_eq] at hpart
    rcases mem_map.mp hpart with ⟨el, hel, rfl⟩
    rcases fileElement h hel with ⟨name, hname⟩
    exact separator_not_in_body hname (hlegible el hel) hinfix
  rw [extractStringForSignature_eq h, extractStringForSignature_eq h'] at heq
  rcases separated_inj (by decide) (hapart h hlegible) (hapart h' hlegible')
    (append_cancel_left heq) with ⟨hfirst, hrest⟩
  have hbodies : content.iter.map body = content'.iter.map body := by
    rw [Element.iter_eq, Element.iter_eq, map_cons, map_cons, hfirst, hrest]
  have hlabels : content.iter.map (label shown) = content'.iter.map (label shown) := by
    refine map_eq_of_map_eq ?_ hbodies
    intro el hel el' hel' hsame
    rcases fileElement h hel with ⟨name, hname⟩
    rcases fileElement h' hel' with ⟨name', hname'⟩
    exact shown_eq_of_body hname hname' (hlegible el hel) (hlegible' el' hel') hsame
  have hread : labels shown [content] ++ [] = labels shown [content'] ++ [] := by
    rw [append_nil, append_nil, labels, labels, Element.iterAll_cons,
      Element.iterAll_cons, Element.iterAll_nil, append_nil, append_nil]
    exact hlabels
  rcases read_back qualified_injective (fun _ _ => sameElement_of_label) determined_licenseFile h h'
    (Or.inl rfl) (Or.inl rfl) hread with ⟨halike, _⟩
  exact (List.forall₂_cons.mp halike).left

def sampleElement (name : String) (attrib : Dict Text Text) (text : Option Text)
    (children : List Element) : Element :=
  .mk (qualified name.toList) attrib text children

def sampleText (name text : String) : Element := sampleElement name ∅ (some text.toList) []

def sampleParameter (id name text : String) : Element :=
  sampleElement "parameter"
    ⟨[⟨"id".toList, id.toList⟩, ⟨"name".toList, name.toList⟩],
      (by decide : ["id".toList, "name".toList].Nodup)⟩ (some text.toList) []

def sampleFile (gap : Option Text) (parameters : List Element) : Element :=
  sampleElement "license-file" ∅ gap [
    sampleElement "license-file-meta" ∅ gap [
      sampleText "created-by" "init", sampleText "creation-datetime" "2015-08-01",
      sampleText "file-format-version" "1.0"],
    sampleElement "customer" ∅ gap [
      sampleText "name" "site", sampleText "repository_login" "login",
      sampleText "repository_password" "secret"],
    sampleElement "package-list" ∅ gap [
      sampleElement "package" ∅ gap [
        sampleElement "package-meta" ∅ gap [
          sampleText "package-name" "base", sampleText "package-uuid" "u1",
          sampleText "package-date" "2015-08-01", sampleText "package-version" "1",
          sampleText "package-type-id" "p", sampleText "package-type-name" "product"],
        sampleElement "cluster-id"
            ⟨[⟨"id".toList, "c1".toList⟩], (by decide : ["id".toList].Nodup)⟩ gap [
          sampleElement "license" ∅ gap [
            sampleText "id" "reporting", sampleText "uuid" "u2",
            sampleText "valid-from" "2015-01-01", sampleText "valid-to" "2016-01-01",
            sampleElement "parameters" ∅ gap parameters]]]]]

theorem accepts_sampleText (name text : String) :
    accepts qualified (textElement name) [sampleText name text] :=
  ⟨_, rfl, ⟨rfl, Perm.refl _⟩, rfl⟩

variable {gap : Option Text}

theorem accepts_sampleElement {name : String} {attributes : List Text}
    {attrib : Dict Text Text} {content : Content} {children : List Element}
    (hattrib : attrib.keys.Perm attributes) (hgap : strip (gap.getD []) = [])
    (h : accepts qualified content children) :
    accepts qualified (node name.toList attributes content)
      [sampleElement name attrib gap children] :=
  ⟨_, rfl, ⟨rfl, hattrib⟩, hgap, h⟩

theorem accepts_sampleTexts (fields : List (String × String)) :
    accepts qualified (sequence (fields.map fun field => textElement field.1))
      (fields.map fun field => sampleText field.1 field.2) := by
  induction fields with
  | nil => rfl
  | cons field rest ih => exact accepts_cons (accepts_sampleText field.1 field.2) ih

theorem accepts_sampleParameter (id name text : String) :
    accepts qualified (leaf "parameter".toList ["id".toList, "name".toList])
      [sampleParameter id name text] :=
  ⟨_, rfl, ⟨rfl, Perm.refl _⟩, rfl⟩

theorem isLicenseFile_sampleFile (hgap : strip (gap.getD []) = []) {parameters : List Element}
    (h : forall el, el ∈ parameters ->
      accepts qualified (leaf "parameter".toList ["id".toList, "name".toList]) [el]) :
    IsLicenseFile (sampleFile gap parameters) := by
  have hnone : (∅ : Dict Text Text).keys.Perm [] := Perm.refl _
  have hmeta := accepts_sampleTexts [("created-by", "init"), ("creation-datetime", "2015-08-01"),
    ("file-format-version", "1.0")]
  have hcustomer := accepts_sampleTexts [("name", "site"), ("repository_login", "login"),
    ("repository_password", "secret")]
  have hpackage := accepts_sampleTexts [("package-name", "base"), ("package-uuid", "u1"),
    ("package-date", "2015-08-01"), ("package-version", "1"), ("package-type-id", "p"),
    ("package-type-name", "product")]
  have hparameters : accepts qualified (node "parameters".toList []
      (zeroOrMore (leaf "parameter".toList ["id".toList, "name".toList])))
        [sampleElement "parameters" ∅ gap parameters] :=
    accepts_sampleElement hnone hgap (accepts_zeroOrMore h)
  have hlicense : accepts qualified licenseContent [sampleElement "license" ∅ gap [
      sampleText "id" "reporting", sampleText "uuid" "u2",
      sampleText "valid-from" "2015-01-01", sampleText "valid-to" "2016-01-01",
      sampleElement "parameters" ∅ gap parameters]] := by
    refine accepts_sampleElement hnone hgap ?_
    refine accepts_cons (accepts_sampleText _ _) ?_
    refine accepts_cons (accepts_sampleText _ _) ?_
    refine accepts_cons (accepts_sampleText _ _) ?_
    refine accepts_cons (accepts_sampleText _ _) ?_
    exact accepts_cons hparameters rfl
  refine accepts_sampleElement hnone hgap ?_
  refine accepts_cons (accepts_sampleElement hnone hgap hmeta) ?_
  refine accepts_cons (accepts_sampleElement hnone hgap hcustomer) ?_
  refine accepts_cons (accepts_sampleElement hnone hgap (accepts_one ?_)) rfl
  refine accepts_sampleElement hnone hgap ?_
  refine accepts_cons (accepts_sampleElement hnone hgap hpackage) ?_
  refine accepts_cons (accepts_one (accepts_sampleElement (Perm.refl _) hgap ?_)) rfl
  refine accepts_skip (Or.inl rfl) ?_
  refine accepts_cons (accepts_one hlicense) ?_
  exact accepts_skip (accepts_zeroOrMore fun _ hmem => absurd hmem not_mem_nil) rfl

def oneParameter (gap : Option Text) (id name text : String) : Element :=
  sampleFile gap [sampleParameter id name text]

theorem isLicenseFile_oneParameter (hgap : strip (gap.getD []) = [])
    (id name text : String) : IsLicenseFile (oneParameter gap id name text) := by
  refine isLicenseFile_sampleFile hgap ?_
  intro el hel
  cases mem_singleton.mp hel
  exact accepts_sampleParameter id name text

/-- The file is covered, wherever it has white space between its elements. -/
theorem oneParameter_covered :
    Covered (oneParameter none "1" "number/ of cpus" "16")
      (oneParameter (some ['\n', ' ']) "1" "number/ of cpus" "16") :=
  covered_of_legible (isLicenseFile_oneParameter rfl _ _ _) (isLicenseFile_oneParameter rfl _ _ _)
    (by decide +kernel) (by decide +kernel)

/-- A part of the identifier of a parameter may as well belong to its name. -/
theorem movedName_not_covered :
    ¬ forall content content', IsLicenseFile content -> IsLicenseFile content' ->
      Covered content content' := by
  intro h
  have hcovered := h (oneParameter none "1;name:2" "cpus" "16")
    (oneParameter none "1" "2;name:cpus" "16") (isLicenseFile_oneParameter rfl _ _ _)
    (isLicenseFile_oneParameter rfl _ _ _) (by decide +kernel)
  have hlist := hcovered.child 2 rfl rfl
  have hpackage := hlist.child 0 rfl rfl
  have hcluster := hpackage.child 1 rfl rfl
  have hlicense := hcluster.child 0 rfl rfl
  have hparameters := hlicense.child 4 rfl rfl
  have hparameter := (hparameters.child 0 rfl rfl).here
  have hmem := hparameter.attributes.mem_iff.mp mem_cons_self
  revert hmem
  decide

end Icsw.License
