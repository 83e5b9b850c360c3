import Icsw.ServerCommand.Weight

/-!
# Round trip of values

A value that is assigned to a new key of a command is read back, before and after
the command is parsed again, if every key of its dictionaries is kept and its times
have neither a fraction nor a time zone.
-/

namespace Icsw.ServerCommand

open Foundation List

def copied (reparsed : Bool) (el : Element) : Element := if reparsed then el.parsed else el

section Copied

variable (reparsed : Bool) (el : Element)

@[simp] theorem tag_copied : (copied reparsed el).tag = el.tag := by
  cases reparsed with
  | false => rfl
  | true => exact el.tag_parsed

@[simp] theorem attrib_copied : (copied reparsed el).attrib = el.attrib := by
  cases reparsed with
  | false => rfl
  | true => exact el.attrib_parsed

@[simp] theorem children_copied :
    (copied reparsed el).children = el.children.map (copied reparsed) := by
  cases reparsed with
  | false => exact (map_id _).symm
  | true => exact el.children_parsed

theorem text_copied :
    (copied reparsed el).text = if reparsed then Element.parsedText el.text else el.text := by
  cases reparsed with
  | false => rfl
  | true => exact el.text_parsed

theorem some_text_copied {text : Text} (h : el.text = some text) (hne : text ≠ []) :
    (copied reparsed el).text = some text := by
  have hparsed : Element.parsedText (some text) = some text :=
    if_neg fun heq => hne (Option.some.inj heq)
  rw [text_copied, h, hparsed, ite_self]

theorem none_text_copied (h : el.text = none) : (copied reparsed el).text = none := by
  have hparsed : Element.parsedText none = none := rfl
  rw [text_copied, h, hparsed, ite_self]

theorem getD_text_copied : (copied reparsed el).text.getD [] = el.text.getD [] := by
  rw [text_copied]
  cases reparsed with
  | false => rfl
  | true =>
    rw [if_pos rfl, Element.parsedText]
    by_cases hnil : el.text = some []
    · rw [if_pos hnil, hnil]
      rfl
    · rw [if_neg hnil]

end Copied

theorem EntryElement.copied {key : Key} {stored entry : Element}
    (h : EntryElement key stored entry) (reparsed : Bool) :
    EntryElement key (ServerCommand.copied reparsed stored)
      (ServerCommand.copied reparsed entry) where
  legal := h.legal
  attrib := by rw [attrib_copied, attrib_copied, h.attrib]
  text := by rw [text_copied, text_copied, h.text]
  children := by rw [children_copied, children_copied, h.children]

section Maker

variable {accepts : Text -> Bool}

/-- A value is read from what is stored of it, and from its copy. -/
def ReadsBack (accepts : Text -> Bool) (value : Value) : Prop :=
  forall cur : Element, cur.children = [] ->
    exists el, element accepts value cur = .ok el ∧
      forall reparsed, interpretEl (copied reparsed el) = .ok value

theorem readsBack_leaf {value : Value} (type : Text) (htype : typeName value = type)
    (hleaf : type ∉ ["dict".toList, "list".toList, "tuple".toList])
    (h : forall cur : Element, exists el, element accepts value cur = .ok el ∧
      forall reparsed, interpretText (some type) (copied reparsed el).text = .ok value) :
    ReadsBack accepts value := by
  intro cur _
  rcases h cur with ⟨el, helement, hread⟩
  simp only [mem_cons, not_mem_nil, or_false, not_or] at hleaf
  have hne : forall {other}, type ≠ other -> ¬ some type = some other :=
    fun hne heq => hne (Option.some.inj heq)
  refine ⟨el, helement, fun reparsed => ?_⟩
  rw [interpretEl_eq, attrib_copied, (element_shape helement).right, lookup_type, htype,
    interpretBy, if_neg (hne hleaf.1), if_neg (hne hleaf.2.1), if_neg (hne hleaf.2.2), hread]

variable {els : List Element}

theorem interpretEl_holding {cur : Element} {type : Text} {reparsed : Bool}
    (h : cur.children = []) :
    interpretEl (copied reparsed ((typed cur type).setChildren (cur.children ++ els))) =
      interpretBy (some type) (copied reparsed ((typed cur type).setChildren
        (cur.children ++ els))).text (els.map (copied reparsed)) := by
  rw [interpretEl_eq, attrib_copied, children_copied, h, nil_append]
  exact congrFun (congrArg₂ interpretBy (lookup_type cur.attrib type) rfl) _

theorem readsBack_items (hrules : TagRules accepts) {items : List Value}
    (h : forall item, item ∈ items -> ReadsBack accepts item) :
    exists els, itemElements accepts items = .ok els ∧
      forall reparsed, interpretItems (els.map (copied reparsed)) = .ok items := by
  induction items with
  | nil => exact ⟨[], rfl, fun _ => rfl⟩
  | cons item rest ih =>
    rcases h item mem_cons_self (.mk (qualified "value".toList) ∅ none []) rfl with
      ⟨el, hel, hread⟩
    rcases ih fun other hother => h other (mem_cons_of_mem item hother) with
      ⟨els, hels, hrest⟩
    refine ⟨el :: els, ?_, fun reparsed => ?_⟩
    · exact bind_eq_ok (builder_value hrules) (bind_eq_ok hel (bind_eq_ok hels rfl))
    · exact bind_eq_ok (hread reparsed) (bind_eq_ok (hrest reparsed) rfl)

theorem setEntry_append {before : List (Key × Value)} {key : Key} (value : Value)
    (h : key ∉ before.map Prod.fst) : setEntry before key value = before ++ [(key, value)] := by
  induction before with
  | nil => rfl
  | cons first rest ih =>
    rcases first with ⟨held, old⟩
    have hne : key ≠ held := ne_of_not_mem_cons h
    rw [setEntry, if_neg hne.symm, ih (not_mem_of_not_mem_cons h)]
    rfl

theorem setDictKey_suitable {key : Key} (h : SuitableKey accepts key) (stored : Element) :
    setDictKey key stored = .ok (stored.setAttrib "dict_key".toList (dictKey key)) :=
  if_pos (legalText_dictKey h)

theorem readsBack_entries {entries : List (Key × Value)}
    (h : forall entry, entry ∈ entries -> ReadsBack accepts entry.2) (hrules : TagRules accepts)
    (hkeys : forall entry, entry ∈ entries -> SuitableKey accepts entry.1) :
    exists els, entryElements accepts entries = .ok els ∧
      forall reparsed before, ((before ++ entries).map Prod.fst).Nodup ->
        interpretEntries (els.map (copied reparsed)) before = .ok (before ++ entries) := by
  induction entries with
  | nil => exact ⟨[], rfl, fun _ before _ => congrArg Except.ok (append_nil before).symm⟩
  | cons entry rest ih =>
    rcases entry with ⟨key, value⟩
    have hkey : SuitableKey accepts key := hkeys (key, value) mem_cons_self
    have hvalue : ReadsBack accepts value := h (key, value) mem_cons_self
    rcases builder_suitable hrules hkey with ⟨cur, hcur⟩
    have hbuilt := builder_ok hcur
    rcases hvalue cur hbuilt.children with ⟨stored, hstored, hread⟩
    rcases ih (fun other hother => h other (mem_cons_of_mem _ hother))
      (fun other hother => hkeys other (mem_cons_of_mem _ hother)) with ⟨els, hels, hrest⟩
    have hset := setDictKey_suitable hkey stored
    refine ⟨stored.setAttrib "dict_key".toList (dictKey key) :: els, ?_, ?_⟩
    · exact bind_eq_ok hcur (bind_eq_ok hstored (bind_eq_ok hset (bind_eq_ok hels rfl)))
    · intro reparsed before hnodup
      have hentry := (setDictKey_ok hset).copied reparsed
      have hkeyOf : keyOf (copied reparsed (stored.setAttrib "dict_key".toList (dictKey key))) =
          .ok key := by
        rw [hentry.keyOf]
        apply interpretTag_suitable hkey
        rw [attrib_copied]
        exact (setDictKey_ok hset).escapes hstored hbuilt.escapes
      have hnew : key ∉ before.map Prod.fst := by
        rw [map_append, map_cons] at hnodup
        exact fun hmem => (nodup_append.mp hnodup).2.2 _ hmem _ mem_cons_self rfl
      refine bind_eq_ok hkeyOf (bind_eq_ok (hentry.interpretEl.trans (hread reparsed)) ?_)
      rw [setEntry_append value hnew, hrest reparsed _ (by rwa [append_assoc]),
        append_assoc]
      rfl

theorem isoformat_ne_nil (day : Date) : day.isoformat ≠ [] := by
  intro hnil
  have hparse := strptimeDate_isoformat day
  rw [hnil] at hparse
  cases hparse

theorem readsBack (hrules : TagRules accepts) (value : Value) :
    Plain accepts value -> value.Distinct -> ReadsBack accepts value := by
  induction value using Value.induct with
  | none =>
    intro _ _
    refine readsBack_leaf "none".toList rfl (by decide) fun cur => ⟨_, rfl, fun reparsed => ?_⟩
    rw [none_text_copied reparsed _ rfl]
    rfl
  | bool value =>
    intro _ _
    refine readsBack_leaf "bool".toList rfl (by decide) fun cur => ⟨_, rfl, fun reparsed => ?_⟩
    cases value with
    | false | true =>
      rw [some_text_copied reparsed _ rfl (by decide)]
      rfl
  | int value =>
    intro _ _
    refine readsBack_leaf "int".toList rfl (by decide) fun cur => ⟨_, rfl, fun reparsed => ?_⟩
    rw [some_text_copied reparsed _ rfl (formatInt_ne_nil value)]
    show (orError (parseInt (formatInt value))).map Value.int = .ok (.int value)
    rw [parseInt_formatInt]
    rfl
  | str text =>
    intro hlegal _
    refine readsBack_leaf "str".toList rfl (by decide) fun cur =>
      ⟨_, if_pos hlegal, fun reparsed => ?_⟩
    show Except.ok (Value.str ((copied reparsed _).text.getD [])) = .ok (.str text)
    rw [getD_text_copied]
    rfl
  | date day =>
    intro _ _
    refine readsBack_leaf "date".toList rfl (by decide) fun cur => ⟨_, rfl, fun reparsed => ?_⟩
    rw [some_text_copied reparsed _ rfl (isoformat_ne_nil day)]
    show (orError (strptimeDate day.isoformat)).map Value.date = .ok (.date day)
    rw [strptimeDate_isoformat]
    rfl
  | datetime time =>
    intro hplain _
    have hparse : strptimeDateTime time.isoformat = some time :=
      (strptimeDateTime_isoformat time).trans (if_pos hplain)
    have hne : time.isoformat ≠ [] := by
      intro hnil
      rw [hnil] at hparse
      cases hparse
    refine readsBack_leaf "datetime".toList rfl (by decide) fun cur =>
      ⟨_, rfl, fun reparsed => ?_⟩
    rw [some_text_copied reparsed _ rfl hne]
    show (orError (strptimeDateTime time.isoformat)).map Value.datetime = .ok (.datetime time)
    rw [hparse]
    rfl
  | list items ih | tuple items ih =>
    intro hplain hdistinct cur hchildren
    have hitems := Value.everywhereItems_iff.mp hplain.right
    have hunique := Value.everywhereItems_iff.mp hdistinct.right
    rcases readsBack_items hrules fun item hitem => ih item hitem (hitems item hitem)
      (hunique item hitem) with ⟨els, hels, hread⟩
    refine ⟨_, bind_eq_ok hels rfl, fun reparsed => ?_⟩
    rw [interpretEl_holding hchildren]
    exact bind_eq_ok (hread reparsed) rfl
  | dict entries ih =>
    intro hplain hdistinct cur hchildren
    have hvalues := Value.everywhereEntries_iff.mp hplain.right
    have hunique := Value.everywhereEntries_iff.mp hdistinct.right
    rcases readsBack_entries (fun entry hentry => ih entry hentry (hvalues entry hentry)
      (hunique entry hentry)) hrules hplain.left with ⟨els, hels, hread⟩
    refine ⟨_, bind_eq_ok hels rfl, fun reparsed => ?_⟩
    rw [interpretEl_holding hchildren]
    exact bind_eq_ok (hread reparsed [] hdistinct.left) rfl

structure ElementName (accepts : Text -> Bool) (part : Text) : Prop where
  nonempty : part ≠ []
  special : forall c, c ∈ specialChars -> c ∉ part
  firstDigit : startsWithDigit part = false
  unqualified : part.head? ≠ some '{'
  accepted : accepts part = true

variable {part : Text}

theorem builder_name (h : ElementName accepts part) :
    builder accepts (.str part) = .ok (.mk (xmlNs ++ part) ∅ none []) := by
  have hescape : escapeTag part = (part, ∅) := escapeTag_plain h.special h.firstDigit
  have hqualified : qualified part = xmlNs ++ part := if_neg h.unqualified
  show tagElement accepts (if part = [] then _ else part) = _
  rw [if_neg h.nonempty, tagElement, hescape, if_pos h.accepted, hqualified]

theorem escapeKey_name (h : ElementName accepts part) : escapeKey part = part := by
  rw [escapeKey, replaceChar_of_not_mem (h.special '/' (by decide)),
    replaceChar_of_not_mem (h.special '@' (by decide))]

theorem splitFirst_none {tag : Text} (h : splitFirst tag els = none) :
    forall el, el ∈ els -> el.tag ≠ tag := by
  induction els with
  | nil => exact fun _ hel => absurd hel not_mem_nil
  | cons first rest ih =>
    rw [splitFirst] at h
    by_cases heq : first.tag = tag
    · cases (if_pos heq).symm.trans h
    · rw [if_neg heq, Option.map_eq_none_iff] at h
      exact forall_mem_cons.mpr ⟨heq, ih h⟩

theorem splitFirst_some {tag : Text} {els before after : List Element} {found : Element}
    (h : splitFirst tag els = some (before, found, after)) :
    els = before ++ found :: after ∧ found.tag = tag ∧ forall el, el ∈ before -> el.tag ≠ tag := by
  induction els generalizing before with
  | nil => cases h
  | cons first rest ih =>
    rw [splitFirst] at h
    by_cases heq : first.tag = tag
    · cases (if_pos heq).symm.trans h
      exact ⟨rfl, heq, fun _ hel => absurd hel not_mem_nil⟩
    · rw [if_neg heq] at h
      rcases Option.map_eq_some_iff.mp h with ⟨⟨before', found', after'⟩, hsplit, hparts⟩
      cases hparts
      rcases ih hsplit with ⟨hrest, htag, hbefore⟩
      exact ⟨congrArg (first :: ·) hrest, htag, forall_mem_cons.mpr ⟨heq, hbefore⟩⟩

def elementsVia (part : Text) (rest : List Text) (child : Element) : List Element :=
  if child.tag = xmlNs ++ part then elementsAt rest child else []

theorem elementsAt_cons (part : Text) (rest : List Text) (el : Element) :
    elementsAt (part :: rest) el = el.children.flatMap (elementsVia part rest) := by
  rw [elementsAt]
  induction el.children with
  | nil => rfl
  | cons child others ih =>
    rw [flatMap_cons, elementsVia, ← ih]
    by_cases htag : child.tag = xmlNs ++ part
    · rw [if_pos htag, filter_cons, if_pos (decide_eq_true htag), flatMap_cons]
    · rw [if_neg htag, filter_cons, decide_eq_false htag, if_neg Bool.false_ne_true,
        nil_append]

theorem elementsVia_eq_nil {rest : List Text} (h : forall el, el ∈ els -> el.tag ≠ xmlNs ++ part) :
    els.flatMap (elementsVia part rest) = [] :=
  flatMap_eq_nil_iff.mpr fun el hel => if_neg (h el hel)

theorem elementsAt_copied (parts : List Text) (reparsed : Bool) (el : Element) :
    elementsAt parts (copied reparsed el) = (elementsAt parts el).map (copied reparsed) := by
  induction parts generalizing el with
  | nil => rfl
  | cons part rest ih =>
    rw [elementsAt_cons, elementsAt_cons, children_copied, map_flatMap, flatMap_map]
    congr
    funext child
    unfold elementsVia
    rw [tag_copied, ih]
    by_cases htag : child.tag = xmlNs ++ part
    · rw [if_pos htag, if_pos htag]
    · rw [if_neg htag, if_neg htag]
      rfl

theorem changeBelow_into {change : Element -> Except PyError Element}
    {rest : List Text} (hname : ElementName accepts part) {tree found cur : Element}
    {before after : List Element} {wrap : Element -> Element}
    (hsplit : splitFirst (xmlNs ++ part) tree.children = some (before, found, after))
    (hafter : after.flatMap (elementsVia part rest) = [])
    (hchange : changeBelow accepts change rest found = (change cur).map wrap)
    (hwrap : forall el, el.tag = cur.tag ->
      (wrap el).tag = found.tag ∧ elementsAt rest (wrap el) = [el]) :
    exists outer : Element -> Element,
      changeBelow accepts change (part :: rest) tree = (change cur).map outer ∧
        forall el, el.tag = cur.tag ->
          (outer el).tag = tree.tag ∧ elementsAt (part :: rest) (outer el) = [el] := by
  rcases splitFirst_some hsplit with ⟨_, htag, hbefore⟩
  refine ⟨fun el => tree.setChildren (before ++ wrap el :: after), ?_, ?_⟩
  · rw [changeBelow, escapeKey_name hname, hsplit]
    show (changeBelow accepts change rest found).bind _ = _
    rw [hchange]
    cases change cur with
    | error raised => rfl
    | ok el => rfl
  · intro el heltag
    rcases hwrap el heltag with ⟨hwrapTag, hfound⟩
    refine ⟨rfl, ?_⟩
    rw [elementsAt_cons]
    show (before ++ wrap el :: after).flatMap _ = _
    rw [flatMap_append, elementsVia_eq_nil hbefore, flatMap_cons, hafter,
      elementsVia, if_pos (hwrapTag.trans htag), hfound]
    rfl

theorem changeBelow_fresh (change : Element -> Except PyError Element) {parts : List Text}
    (hnames : forall part, part ∈ parts -> ElementName accepts part) (tree : Element)
    (h : (parts = [] ∧ tree.children = []) ∨ elementsAt parts tree = []) :
    exists (cur : Element) (wrap : Element -> Element), cur.children = [] ∧
      changeBelow accepts change parts tree = (change cur).map wrap ∧
        forall el, el.tag = cur.tag ->
          (wrap el).tag = tree.tag ∧ elementsAt parts (wrap el) = [el] := by
  induction parts generalizing tree with
  | nil =>
    rcases h with ⟨_, hchildren⟩ | hfresh
    · refine ⟨tree, id, hchildren, ?_, fun el htag => ⟨htag, rfl⟩⟩
      rw [changeBelow]
      cases change tree with
      | error raised => rfl
      | ok el => rfl
    · cases hfresh
  | cons part rest ih =>
    have hfresh : elementsAt (part :: rest) tree = [] :=
      h.resolve_left fun hnil => cons_ne_nil part rest hnil.left
    have hname := hnames part mem_cons_self
    have hrest := fun other hother => hnames other (mem_cons_of_mem part hother)
    rw [elementsAt_cons, flatMap_eq_nil_iff] at hfresh
    rw [changeBelow, escapeKey_name hname]
    cases hsplit : splitFirst (xmlNs ++ part) tree.children with
    | none =>
      have hstart : (rest = [] ∧ (Element.mk (xmlNs ++ part) ∅ none []).children = []) ∨
          elementsAt rest (.mk (xmlNs ++ part) ∅ none []) = [] := by
        cases rest with
        | nil => exact Or.inl ⟨rfl, rfl⟩
        | cons next others => exact Or.inr rfl
      rcases ih hrest _ hstart with ⟨cur, wrap, hchildren, hchange, hwrap⟩
      refine ⟨cur, fun el => tree.setChildren (tree.children ++ [wrap el]), hchildren, ?_, ?_⟩
      · show (builder accepts (.str part)).bind _ = _
        rw [builder_name hname]
        show (changeBelow accepts change rest (.mk (xmlNs ++ part) ∅ none [])).bind _ = _
        rw [hchange]
        cases change cur with
        | error raised => rfl
        | ok el => rfl
      · intro el htag
        rcases hwrap el htag with ⟨hwrapTag, hfound⟩
        have hmade : (wrap el).tag = xmlNs ++ part := hwrapTag
        refine ⟨rfl, ?_⟩
        rw [elementsAt_cons]
        show (tree.children ++ [wrap el]).flatMap _ = _
        rw [flatMap_append, elementsVia_eq_nil (splitFirst_none hsplit), flatMap_cons,
          elementsVia, if_pos hmade, hfound]
        rfl
    | some parts =>
      rcases parts with ⟨before, found, after⟩
      rcases splitFirst_some hsplit with ⟨hchildren, htag, _⟩
      rw [hchildren] at hfresh
      have hbelow : elementsAt rest found = [] := by
        have hvia := hfresh found (mem_append_right before mem_cons_self)
        rwa [elementsVia, if_pos htag] at hvia
      have hafter : after.flatMap (elementsVia part rest) = [] :=
        flatMap_eq_nil_iff.mpr fun el hel =>
          hfresh el (mem_append_right before (mem_cons_of_mem found hel))
      rcases ih hrest found (Or.inr hbelow) with ⟨cur, wrap, hempty, hchange, hwrap⟩
      rcases changeBelow_into hname hsplit hafter hchange hwrap with ⟨outer, hinto⟩
      rw [changeBelow, escapeKey_name hname, hsplit] at hinto
      exact ⟨cur, outer, hempty, hinto⟩

/-- The value is found at the key that it is assigned to, as it was, before and after the
command is parsed again. -/
def RoundTrips (accepts : Text -> Bool) (tree : Element) (key : Text) (value : Value) : Prop :=
  exists changed, setItem accepts tree key value = .ok changed ∧
    forall reparsed, exists read, getItem (copied reparsed changed) key = .ok read ∧
      read.canonical = value.canonical

/-- A value that is assigned to a new key of a command is read back if and only if it is
plain. -/
theorem commandRoundTrips_iff (rules : TagRules accepts) (command : SrvCommand) {key : Text}
    (hkey : forall part, part ∈ path key -> ElementName accepts part)
    (hfresh : elementsAt (path key) command.tree = []) (value : Value)
    (hdistinct : value.Distinct) :
    RoundTrips accepts command.tree key value <-> Plain accepts value := by
  rcases changeBelow_fresh (element accepts value) hkey command.tree (Or.inr hfresh) with
    ⟨cur, wrap, hchildren, hchange, hwrap⟩
  have hfound : forall {el reparsed}, element accepts value cur = .ok el ->
      getItem (copied reparsed (wrap el)) key = interpretEl (copied reparsed el) := by
    intro el reparsed helement
    rw [getItem, elementsAt_copied, (hwrap el (element_shape helement).left).right]
    rfl
  constructor
  · rintro ⟨changed, hset, hread⟩
    rw [setItem, hchange] at hset
    cases helement : element accepts value cur with
    | error raised =>
      rw [helement] at hset
      cases hset
    | ok el =>
      rw [helement] at hset
      cases hset
      rcases hread false with ⟨read, hget, hsame⟩
      rw [hfound helement] at hget
      apply (weighsNoMore value hchildren helement hget).right
      rw [← Value.weight_canonical read, hsame, Value.weight_canonical]
  · intro hplain
    rcases readsBack rules value hplain hdistinct cur hchildren with ⟨el, helement, hread⟩
    refine ⟨wrap el, ?_, fun reparsed => ⟨value, ?_, rfl⟩⟩
    · rw [setItem, hchange, helement]
      rfl
    · rw [hfound helement, hread reparsed]

end Maker

section Example

def nameChar (c : Char) : Bool :=
  decide ((c ≠ '/' ∧ 45 ≤ c.toNat ∧ c.toNat ≤ 57) ∨ (65 ≤ c.toNat ∧ c.toNat ≤ 90) ∨ c = '_' ∨
    (97 ≤ c.toNat ∧ c.toNat ≤ 122))

/-- The names of elements that are ASCII. -/
def asciiName (tag : Text) : Bool :=
  tag.head?.any (fun c => decide (c = '_' ∨ 65 ≤ c.toNat)) && tag.all nameChar

theorem tagRules_asciiName : TagRules asciiName where
  value := rfl
  integer := by
    intro value
    have hnumber : (formatInt value).all nameChar = true := by
      rw [all_eq_true]
      intro c hc
      have hslash : c ≠ '/' := by
        rintro rfl
        exact not_mem_formatInt (by decide) (by decide) hc
      exact decide_eq_true (Or.inl ⟨hslash, formatInt_char hc⟩)
    have hall : ("__int__".toList ++ formatInt value).all nameChar = true := by
      rw [all_append, hnumber]
      rfl
    exact hall

def emptyCommand : SrvCommand where
  tree := .mk (qualified "ics_batch".toList) ∅ none []
  batch := rfl

def nestedValue : Value :=
  .dict [(.str "a/b c".toList, .list [.int (-1), .none, .str []]),
    (.int 3, .tuple [.bool true, .dict [(.str [], .str "x".toList)]])]

theorem nestedValue_roundTrips :
    RoundTrips asciiName emptyCommand.tree "server:state".toList nestedValue := by
  have hpath : path "server:state".toList = ["server".toList, "state".toList] := rfl
  have hkey : forall part, part ∈ path "server:state".toList -> ElementName asciiName part := by
    rw [hpath]
    simp only [forall_mem_cons, not_mem_nil, false_implies, implies_true, and_true]
    exact ⟨⟨by decide, special_not_mem rfl, rfl, by decide, rfl⟩,
      ⟨by decide, special_not_mem rfl, rfl, by decide, rfl⟩⟩
  have hempty : SuitableKey asciiName (.str []) := by
    refine ⟨?_, rfl⟩
    constructor <;> decide
  have hslash : SuitableKey asciiName (.str "a/b c".toList) := by
    refine ⟨?_, rfl⟩
    constructor <;> decide
  have hint : SuitableKey asciiName (.int 3) := by
    refine ⟨by decide, by decide⟩
  have hinner : Plain asciiName (.dict [(.str [], .str "x".toList)]) :=
    ⟨forall_mem_singleton.mpr hempty, rfl, trivial⟩
  have houter : Plain asciiName nestedValue :=
    ⟨forall_mem_cons.mpr ⟨hslash, forall_mem_singleton.mpr hint⟩,
      ⟨trivial, trivial, trivial, rfl, trivial⟩, ⟨trivial, trivial, hinner, trivial⟩, trivial⟩
  have hdistinct : nestedValue.Distinct :=
    ⟨by decide, ⟨trivial, trivial, trivial, trivial, trivial⟩,
      ⟨trivial, trivial, ⟨nodup_singleton _, trivial, trivial⟩, trivial⟩, trivial⟩
  exact (commandRoundTrips_iff tagRules_asciiName emptyCommand hkey rfl nestedValue
    hdistinct).mpr houter

/-- A dictionary with the key `None` is not stored. -/
theorem noneKey_not_roundTrips :
    ¬ RoundTrips asciiName emptyCommand.tree "state".toList (.dict [(.none, .int 1)]) := by
  rintro ⟨changed, hset, _⟩
  have hraised : setItem asciiName emptyCommand.tree "state".toList (.dict [(.none, .int 1)]) =
      .error .typeError := rfl
  rw [hraised] at hset
  cases hset

end Example

end Icsw.ServerCommand
