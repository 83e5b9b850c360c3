import Icsw.Foundation.Run
import Icsw.ServerCommand.RoundTrip

/-!
# Assignments that overwrite

A path may lead to several elements, of which the first is changed, and an element that is there
already keeps its children.  Where neither matters, an assignment is read back, and what is at other
paths is left as it is.
-/

namespace Icsw.ServerCommand

open Foundation List

/-- `key in srv_com` -/
def contains (tree : Element) (key : Text) : Bool :=
  !(elementsAt (splitAll ':' key) tree).isEmpty

def removeBelow : List Text -> Element -> Element
  | [], el => el
  | [part], el => el.setChildren (el.children.filter fun child => child.tag ≠ xmlNs ++ part)
  | part :: rest, el => el.setChildren (el.children.map fun child =>
    if child.tag = xmlNs ++ part then removeBelow rest child else child)

/-- `del srv_com[key]`: the root has no parent. -/
def delItem (tree : Element) (key : Text) : Except PyError Element :=
  if path key = [] then .error .attributeError else .ok (removeBelow (path key) tree)

/-- A dictionary that is assigned has each key once. -/
inductive Operation where
  | set (key : Text) (value : Value) (distinct : value.Distinct)
  | del (key : Text)

section Maker

variable (accepts : Text -> Bool)

def Operation.act (tree : Element) : Operation -> Except PyError Element
  | .set key value _ => setItem accepts tree key value
  | .del key => delItem tree key

variable (state : Except PyError Element)

/-- What is raised ends the sequence. -/
def Operation.step (operation : Operation) : Except PyError Element :=
  state.bind fun tree => operation.act accepts tree

def Unrelated (key other : Text) : Prop :=
  ¬ path key <+: path other ∧ ¬ path other <+: path key

def Operation.Done (tree after : Element) : Operation -> Prop
  | .set key value _ => contains after key = true ∧ getItem after key = .ok value ∧
      forall other, Unrelated key other ->
        contains after other = contains tree other ∧ getItem after other = getItem tree other
  | .del key => contains after key = false

def Operation.Overwrites (operation : Operation) : Prop :=
  exists tree after, state = .ok tree ∧ operation.act accepts tree = .ok after ∧
    operation.Done tree after

def NameKey (key : Text) : Prop :=
  forall part, part ∈ splitAll ':' key -> ElementName accepts part

/-- The element that is changed, if there is one. -/
def firstAt : List Text -> Element -> Option Element
  | [], el => some el
  | part :: rest, el =>
    (splitFirst (xmlNs ++ part) el.children).bind fun found => firstAt rest found.2.1

def Clear (cur : Element) : Value -> Prop
  | .list _ => cur.children = []
  | .tuple _ => cur.children = []
  | .dict _ => cur.children = []
  | _ => True

def Operation.Fits (tree : Element) : Operation -> Prop
  | .set key value _ => NameKey accepts key ∧ Plain accepts value ∧
      (elementsAt (path key) tree = [] ∨ exists cur, firstAt (path key) tree = some cur ∧
        elementsAt (path key) tree = [cur] ∧ Clear cur value)
  | .del key => NameKey accepts key

def Operation.FitsIn (operation : Operation) : Prop :=
  forall tree, state = .ok tree -> operation.Fits accepts tree

end Maker

section Maker

variable {accepts : Text -> Bool}

theorem path_name {key : Text} (h : NameKey accepts key) : path key = splitAll ':' key := by
  apply if_neg
  rintro rfl
  exact (h [] mem_cons_self).nonempty rfl

theorem interpretEl_leaf {el el' : Element} {type : Text} (hattrib : el'.attrib = el.attrib)
    (htext : el'.text = el.text) (htype : el.attrib.lookup "type".toList = some type)
    (hleaf : type ∉ ["dict".toList, "list".toList, "tuple".toList]) :
    interpretEl el' = interpretEl el := by
  simp only [mem_cons, not_mem_nil, or_false, not_or] at hleaf
  have hne : forall {other}, type ≠ other -> ¬ some type = some other :=
    fun hne heq => hne (Option.some.inj heq)
  rw [interpretEl_eq, interpretEl_eq, hattrib, htext, htype]
  unfold interpretBy
  rw [if_neg (hne hleaf.1), if_neg (hne hleaf.2.1), if_neg (hne hleaf.2.2), if_neg (hne hleaf.1),
    if_neg (hne hleaf.2.1), if_neg (hne hleaf.2.2)]

def StoredIn (accepts : Text -> Bool) (value : Value) (cur : Element) : Prop :=
  exists el, element accepts value cur = .ok el ∧ interpretEl el = .ok value

theorem storedIn_leaf {value : Value} (h : ReadsBack accepts value) {cur : Element}
    (type : Text) (htype : typeName value = type)
    (hleaf : type ∉ ["dict".toList, "list".toList, "tuple".toList])
    (hstore : forall el, element accepts value (cur.setChildren []) = .ok el ->
      exists el', element accepts value cur = .ok el' ∧ el'.attrib = el.attrib ∧
        el'.text = el.text) : StoredIn accepts value cur := by
  rcases h (cur.setChildren []) rfl with ⟨el, hel, hread⟩
  rcases hstore el hel with ⟨el', hel', hattrib, htext⟩
  have hlookup : el.attrib.lookup "type".toList = some type := by
    rw [(element_shape hel).right, lookup_type, htype]
  exact ⟨el', hel', (interpretEl_leaf hattrib htext hlookup hleaf).trans (hread false)⟩

theorem storedIn_clear {value : Value} (h : ReadsBack accepts value) {cur : Element}
    (hclear : Clear cur value) : StoredIn accepts value cur := by
  have hempty : cur.children = [] -> StoredIn accepts value cur := by
    intro hchildren
    rcases h cur hchildren with ⟨el, hel, hread⟩
    exact ⟨el, hel, hread false⟩
  cases value with
  | list items => exact hempty hclear
  | tuple items => exact hempty hclear
  | dict entries => exact hempty hclear
  | none =>
    refine storedIn_leaf h "none".toList rfl (by decide) fun el hel => ?_
    cases hel
    exact ⟨_, rfl, rfl, rfl⟩
  | bool value =>
    refine storedIn_leaf h "bool".toList rfl (by decide) fun el hel => ?_
    cases hel
    exact ⟨_, rfl, rfl, rfl⟩
  | int value =>
    refine storedIn_leaf h "int".toList rfl (by decide) fun el hel => ?_
    cases hel
    exact ⟨_, rfl, rfl, rfl⟩
  | date day =>
    refine storedIn_leaf h "date".toList rfl (by decide) fun el hel => ?_
    cases hel
    exact ⟨_, rfl, rfl, rfl⟩
  | datetime time =>
    refine storedIn_leaf h "datetime".toList rfl (by decide) fun el hel => ?_
    cases hel
    exact ⟨_, rfl, rfl, rfl⟩
  | str text =>
    refine storedIn_leaf h "str".toList rfl (by decide) fun el hel => ?_
    by_cases hlegal : legalText text = true
    · cases (if_pos hlegal).symm.trans hel
      exact ⟨_, if_pos hlegal, rfl, rfl⟩
    · cases (if_neg hlegal).symm.trans hel

variable {parts : List Text}

theorem firstAt_mem {tree cur : Element} (h : firstAt parts tree = some cur) :
    cur ∈ elementsAt parts tree := by
  induction parts generalizing tree with
  | nil =>
    cases h
    exact mem_singleton_self _
  | cons part rest ih =>
    rcases Option.bind_eq_some_iff.mp h with ⟨⟨before, found, after⟩, hsplit, hfound⟩
    rcases splitFirst_some hsplit with ⟨hchildren, htag, _⟩
    rw [elementsAt_cons, hchildren]
    refine mem_flatMap.mpr ⟨found, mem_append_right _ mem_cons_self, ?_⟩
    rw [elementsVia, if_pos htag]
    exact ih hfound

theorem changeBelow_found (change : Element -> Except PyError Element)
    (hnames : forall part, part ∈ parts -> ElementName accepts part) {tree cur : Element}
    (hfirst : firstAt parts tree = some cur) (honly : elementsAt parts tree = [cur]) :
    exists wrap : Element -> Element,
      changeBelow accepts change parts tree = (change cur).map wrap ∧
        forall el, el.tag = cur.tag ->
          (wrap el).tag = tree.tag ∧ elementsAt parts (wrap el) = [el] := by
  induction parts generalizing tree with
  | nil =>
    cases hfirst
    refine ⟨id, ?_, fun el htag => ⟨htag, rfl⟩⟩
    rw [changeBelow]
    cases change cur with
    | error raised => rfl
    | ok el => rfl
  | cons part rest ih =>
    rcases Option.bind_eq_some_iff.mp hfirst with ⟨⟨before, found, after⟩, hsplit, hfound⟩
    rcases splitFirst_some hsplit with ⟨hchildren, htag, hbefore⟩
    rw [elementsAt_cons, hchildren, flatMap_append, elementsVia_eq_nil hbefore,
      flatMap_cons, elementsVia, if_pos htag, nil_append,
      append_eq_singleton_iff] at honly
    rcases honly with ⟨hnone, _⟩ | ⟨hone, hafter⟩
    · cases hnone ▸ firstAt_mem hfound
    · rcases ih (fun other hother => hnames other (mem_cons_of_mem part hother)) hfound hone
        with ⟨wrap, hchange, hwrap⟩
      exact changeBelow_into (hnames part mem_cons_self) hsplit hafter hchange hwrap

theorem elementsAt_empty (hparts : parts ≠ []) {el : Element}
    (h : el.children = []) : elementsAt parts el = [] := by
  rcases exists_cons_of_ne_nil hparts with ⟨part, rest, rfl⟩
  rw [elementsAt_cons, h]
  rfl

theorem elementsVia_congr {part other : Text} {later : List Text} {el el' : Element}
    (htag : el'.tag = el.tag) (hel : el.tag = xmlNs ++ part)
    (hsame : part = other -> elementsAt later el' = elementsAt later el) :
    elementsVia other later el' = elementsVia other later el := by
  unfold elementsVia
  rw [htag]
  split
  · rename_i heq
    exact hsame (append_cancel_left (hel.symm.trans heq))
  · rfl

theorem changeBelow_other {change : Element -> Except PyError Element}
    (htag : forall cur el, change cur = .ok el -> el.tag = cur.tag)
    (hnames : forall part, part ∈ parts -> ElementName accepts part) {tree after : Element}
    (h : changeBelow accepts change parts tree = .ok after) :
    after.tag = tree.tag ∧ forall others, ¬ parts <+: others -> ¬ others <+: parts ->
      elementsAt others after = elementsAt others tree := by
  induction parts generalizing tree after with
  | nil => exact ⟨htag tree after h, fun others hnot _ => absurd nil_prefix hnot⟩
  | cons part rest ih =>
    have hname := hnames part mem_cons_self
    have hrest := fun other hother => hnames other (mem_cons_of_mem part hother)
    have hrelated : forall {other later}, ¬ part :: rest <+: other :: later ->
        ¬ other :: later <+: part :: rest -> part = other -> ¬ rest <+: later ∧ ¬ later <+: rest :=
      fun hleft hright heq =>
        ⟨fun hprefix => hleft (cons_prefix_cons.mpr ⟨heq, hprefix⟩),
          fun hprefix => hright (cons_prefix_cons.mpr ⟨heq.symm, hprefix⟩)⟩
    rw [changeBelow, escapeKey_name hname] at h
    cases hsplit : splitFirst (xmlNs ++ part) tree.children with
    | none =>
      rw [hsplit] at h
      rcases exists_of_bind h with ⟨fresh, hfresh, hlater⟩
      rcases exists_of_bind hlater with ⟨made, hmade, hafter⟩
      rw [builder_name hname] at hfresh
      cases hfresh
      cases hafter
      rcases ih hrest hmade with ⟨hmadeTag, hmadeOther⟩
      refine ⟨rfl, fun others hleft hright => ?_⟩
      cases others with
      | nil => exact absurd nil_prefix hright
      | cons other later =>
        have hnone : elementsVia other later made = [] := by
          rw [@elementsVia_congr part other later _ _ hmadeTag rfl fun heq =>
            (hrelated hleft hright heq).elim (hmadeOther later)]
          unfold elementsVia
          split
          · rename_i heq
            apply elementsAt_empty ?_ rfl
            rintro rfl
            exact (hrelated hleft hright (append_cancel_left heq)).right nil_prefix
          · rfl
        rw [elementsAt_cons, elementsAt_cons]
        show (tree.children ++ [made]).flatMap _ = _
        rw [flatMap_append, flatMap_cons, hnone]
        exact append_nil _
    | some split =>
      rcases split with ⟨before, found, behind⟩
      rw [hsplit] at h
      rcases exists_of_bind h with ⟨made, hmade, hafter⟩
      cases hafter
      rcases splitFirst_some hsplit with ⟨hchildren, hfoundTag, _⟩
      rcases ih hrest hmade with ⟨hmadeTag, hmadeOther⟩
      refine ⟨rfl, fun others hleft hright => ?_⟩
      cases others with
      | nil => exact absurd nil_prefix hright
      | cons other later =>
        rw [elementsAt_cons, elementsAt_cons, hchildren]
        show (before ++ made :: behind).flatMap _ = _
        rw [flatMap_append, flatMap_append, flatMap_cons, flatMap_cons,
          @elementsVia_congr part other later _ _ hmadeTag hfoundTag fun heq =>
            (hrelated hleft hright heq).elim (hmadeOther later)]

theorem removeBelow_gone (hparts : parts ≠ []) (tree : Element) :
    (removeBelow parts tree).tag = tree.tag ∧ elementsAt parts (removeBelow parts tree) = [] := by
  induction parts generalizing tree with
  | nil => exact absurd rfl hparts
  | cons part rest ih =>
    cases rest with
    | nil =>
      refine ⟨rfl, ?_⟩
      rw [elementsAt_cons]
      exact elementsVia_eq_nil fun el hel => of_decide_eq_true (mem_filter.mp hel).right
    | cons next later =>
      refine ⟨rfl, ?_⟩
      rw [elementsAt_cons]
      apply flatMap_eq_nil_iff.mpr
      intro el hel
      rcases mem_map.mp hel with ⟨child, _, rfl⟩
      by_cases htag : child.tag = xmlNs ++ part
      · rcases ih (cons_ne_nil next later) child with ⟨hsame, hgone⟩
        rw [if_pos htag, elementsVia, if_pos (hsame.trans htag)]
        exact hgone
      · rw [if_neg htag]
        exact if_neg htag

theorem contains_eq {tree : Element} {key : Text} (h : path key = splitAll ':' key) :
    contains tree key = !(elementsAt (path key) tree).isEmpty := by rw [contains, h]

theorem fits_done (rules : TagRules accepts) {tree : Element} {operation : Operation}
    (h : operation.Fits accepts tree) :
    exists after, operation.act accepts tree = .ok after ∧ operation.Done tree after := by
  cases operation with
  | del key =>
    have hpath := path_name h
    have hparts : path key ≠ [] := by
      rw [hpath]
      apply ne_nil_of_length_pos
      rw [splitAll, length_split_char (Nat.le_refl _)]
      exact Nat.succ_pos _
    refine ⟨removeBelow (path key) tree, if_neg hparts, ?_⟩
    show contains _ key = false
    rw [contains_eq hpath, (removeBelow_gone hparts tree).right]
    rfl
  | set key value distinct =>
    rcases h with ⟨hname, hplain, hplace⟩
    have hpath := path_name hname
    have hnames : forall part, part ∈ path key -> ElementName accepts part := hpath ▸ hname
    have hback := readsBack rules value hplain distinct
    have hchanged : exists cur wrap, Clear cur value ∧
        changeBelow accepts (element accepts value) (path key) tree =
          (element accepts value cur).map wrap ∧
        forall el, el.tag = cur.tag -> (wrap el).tag = tree.tag ∧
          elementsAt (path key) (wrap el) = [el] := by
      rcases hplace with hfresh | ⟨cur, hfirst, honly, hclear⟩
      · rcases changeBelow_fresh (element accepts value) hnames tree (.inr hfresh) with
          ⟨cur, wrap, hchildren, hchange⟩
        exact ⟨cur, wrap, by cases value <;> trivial, hchange⟩
      · rcases changeBelow_found (element accepts value) hnames hfirst honly with ⟨wrap, hchange⟩
        exact ⟨cur, wrap, hclear, hchange⟩
    rcases hchanged with ⟨cur, wrap, hclear, hchange, hwrap⟩
    rcases storedIn_clear hback hclear with ⟨el, hel, hread⟩
    rw [hel] at hchange
    rcases hwrap el (element_shape hel).left with ⟨_, hfound⟩
    have hother := (changeBelow_other (fun _ _ hshape => (element_shape hshape).left) hnames
      hchange).right
    refine ⟨wrap el, hchange, ?_, ?_, fun other hunrelated => ?_⟩
    · rw [contains_eq hpath, hfound]
      rfl
    · rw [getItem, hfound]
      exact hread
    · have hsame := hother (path other) hunrelated.left hunrelated.right
      have hpathOther : path other = splitAll ':' other :=
        if_neg fun hnil => hunrelated.right (by rw [hnil]; exact nil_prefix)
      rw [contains_eq hpathOther, contains_eq hpathOther, getItem, getItem, hsame]
      exact ⟨rfl, rfl⟩

/--
Each assignment of a sequence is read back and leaves the keys that are not related as they are, if
the keys are of names, the values plain, and the element at the key is the only one there and fit
for the value.
-/
theorem assignments_overwrite (rules : TagRules accepts) (command : SrvCommand)
    (operations : List Operation)
    (hfits : Along (Operation.step accepts) (Operation.FitsIn accepts) (.ok command.tree)
      operations) :
    Along (Operation.step accepts) (Operation.Overwrites accepts) (.ok command.tree)
      operations := by
  refine along_of_invariant (Operation.step accepts)
    (@fun state operation (hinv : exists tree, state = .ok tree) hfits => ?_) ⟨command.tree, rfl⟩
    hfits
  rcases hinv with ⟨tree, rfl⟩
  rcases fits_done rules (hfits tree rfl) with ⟨after, hact, hdone⟩
  exact ⟨⟨after, hact⟩, tree, after, rfl, hact, hdone⟩

end Maker

section Example

theorem nameKey_a : NameKey asciiName "a".toList :=
  forall_mem_singleton.mpr ⟨by decide, special_not_mem rfl, rfl, by decide, rfl⟩

def twoNumbers (first second : Int) : List Operation :=
  [.set "a".toList (.int first) trivial, .set "a".toList (.int second) trivial, .del "a".toList]

theorem numbers_overwritten :
    Along (Operation.step asciiName) (Operation.Overwrites asciiName) (.ok emptyCommand.tree)
      (twoNumbers 1 2) :=
  assignments_overwrite tagRules_asciiName emptyCommand (twoNumbers 1 2)
    ⟨fun _ htree => Except.ok.inj htree ▸ ⟨nameKey_a, trivial, .inl rfl⟩,
      fun _ htree => Except.ok.inj htree ▸ ⟨nameKey_a, trivial, .inr ⟨_, rfl, rfl, trivial⟩⟩,
      fun _ htree => Except.ok.inj htree ▸ nameKey_a, trivial⟩

def twoLists (first second : Int) : List Operation :=
  [.set "a".toList (.list [.int first]) ⟨trivial, trivial, trivial⟩,
    .set "a".toList (.list [.int second]) ⟨trivial, trivial, trivial⟩]

/-- The second list is appended to the first. -/
theorem lists_not_overwritten :
    ¬ Along (Operation.step asciiName) (Operation.Overwrites asciiName) (.ok emptyCommand.tree)
      (twoLists 1 2) := by
  rintro ⟨_, ⟨tree, after, htree, hact, _, hread, _⟩, _⟩
  cases htree
  cases hact
  have hboth : Except.ok (Value.list [.int 1, .int 2]) = Except.ok (.list [.int 2]) := hread
  cases hboth

end Example

end Icsw.ServerCommand
