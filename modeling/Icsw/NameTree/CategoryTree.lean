import Icsw.NameTree.Requests

/-!
# The category tree

A category has the path from the top node as its full name, with a slash before
each name.  Below the top node there are four subtrees, and only categories of the
device tree are used for assets.
-/

namespace Icsw.NameTree

open Foundation List
open Foundation.Forest

/-- A value that is no number is none. -/
structure CategoryColumns where
  immutable : Bool
  useable : Bool
  physical : Bool
  latitude : Option Rat
  longitude : Option Rat
  locked : Bool
  asset : Bool
  comment : Text
deriving DecidableEq

def CategoryColumns.default : CategoryColumns where
  immutable := false
  useable := true
  physical := true
  latitude := some (481 / 10)
  longitude := some (163 / 10)
  locked := false
  asset := false
  comment := []

def topDeviceCategory : Text := "device".toList

def treeSubtypes : List Text :=
  ["mon".toList, "location".toList, "config".toList, topDeviceCategory]

/-- The characters of `valid_category_re`. -/
def validCategoryChar (c : Char) : Bool := c.isAlphanum || c = '-' || c = '_' || c = '.'

def joinCategory (name parentFullName : Text) : Text := parentFullName ++ '/' :: name

/-- `full_name.split("/")[1]` -/
def topLevel (fullName : Text) : Option Text := (splitAll '/' fullName)[1]?

def checkFloat (attrName : String) (value : Option Rat) : Except PyError Unit :=
  match value with
  | none => .error (.validationError (attrName ++ " is not a float").toList)
  | some _ => .ok ()

/-- The names of a node's parents, the top node first. -/
def parentNames (loader : Loader CategoryColumns) :
    Nat -> Option Nat -> Program (Table CategoryColumns) (List Text)
  | _, none => pure []
  | 0, some _ => throw .endlessLoop
  | rounds + 1, some above => do
      let node ← load loader above
      let names ← parentNames loader rounds node.parent
      pure (names ++ [node.name])

def buildFullName (loader : Loader CategoryColumns) (node : Node CategoryColumns) :
    Program (Table CategoryColumns) (Node CategoryColumns) := do
  let table ← get
  let names ← parentNames loader table.rows.entries.length node.parent
  pure { node with fullName := intercalate ['/'] (names ++ [node.name]) }

/-- A category outside of the four subtrees gets its full name anew when it is loaded. -/
def categoryPostInit : Nat -> Saver CategoryColumns -> Loader CategoryColumns
  | levels, save, pk, node =>
    if node.depth = 0 then pure node
    else
      match topLevel node.fullName with
      | none => throw .indexError
      | some top =>
        if top ∈ treeSubtypes then pure node
        else
          match levels with
          | 0 => throw .recursionLimit
          | less + 1 => do
              let built ← buildFullName (categoryPostInit less save) node
              let saved ← save (some pk) built
              pure saved.2

def categoryRules : Rules CategoryColumns where
  separator := '/'
  parts name := (splitAll '/' name).filter fun part => strip part ≠ []
  legal := validCategoryChar
  join := joinCategory
  usedMessage name := quoted "category name '" name "' already used here"
  parentExtra _ :=
    { CategoryColumns.default with
      useable := false
      comment := "autocreated intermediate".toList }
  checkFirst extra := do
    checkFloat "latitude" extra.latitude
    checkFloat "longitude" extra.longitude
  settle _ extra := extra
  checkSettled _ := .ok ()
  checkName name depth :=
    if depth = 1 ∧ name ∉ treeSubtypes then
      .error (.validationError (quoted "illegal top-level category name '" name "'"))
    else .ok ()
  checkFullName fullName extra :=
    match topLevel fullName with
    | none => .error .indexError
    | some top =>
      if extra.asset = true ∧ top ≠ topDeviceCategory then
        .error (.validationError
          (quoted "Asset flag only allowed for devicecategory '" fullName "'"))
      else .ok ()
  checkTop _ := .ok ()
  postInit := categoryPostInit

theorem validCategoryChar_text {c : Char} (h : validCategoryChar c = true) :
    c ≠ '/' ∧ isWhitespace c = false := by
  simp only [validCategoryChar, Bool.or_eq_true, decide_eq_true_iff] at h
  rcases h with ((halphanum | hdash) | hunderscore) | hdot
  · rcases alphanum_code halphanum with ⟨hlow, hhigh⟩
    constructor
    · intro heq
      rw [heq] at hlow
      exact absurd hlow (by decide)
    · exact isWhitespace_eq_false (by omega) (by omega)
  · rw [hdash]
    decide
  · rw [hunderscore]
    decide
  · rw [hdot]
    decide

theorem slash_not_mem {name : Text} (hlegal : Legal categoryRules name) : '/' ∉ name := by
  intro hmem
  have hvalid : validCategoryChar '/' = true := hlegal.right '/' hmem
  exact (validCategoryChar_text hvalid).left rfl

theorem joinCategory_injective {name name' full full' : Text} (hslash : '/' ∉ name)
    (hslash' : '/' ∉ name') (h : joinCategory name full = joinCategory name' full') :
    name = name' ∧ full = full' := by
  have hreverse := congrArg reverse h
  simp only [joinCategory, reverse_append, reverse_cons, append_assoc,
    cons_append, nil_append] at hreverse
  rcases eq_of_append_separator (fun hmem => hslash (mem_reverse.mp hmem))
    (fun hmem => hslash' (mem_reverse.mp hmem)) hreverse with ⟨hname, hfull⟩
  exact ⟨reverse_injective hname, reverse_injective hfull⟩

theorem topLevel_first {name : Text} (h : '/' ∉ name) : topLevel (joinCategory name []) = some name := by
  have hparts : splitAll '/' ([] ++ '/' :: name) = [] :: splitAll '/' name :=
    splitAll_cons not_mem_nil
  rw [nil_append] at hparts
  rw [topLevel, joinCategory, nil_append, hparts, splitAll_of_not_mem h]
  rfl

theorem topLevel_join {name full top : Text} (h : topLevel full = some top) :
    topLevel (joinCategory name full) = some top := by
  rcases List.getElem?_eq_some_iff.mp h with ⟨hlength, _⟩
  rw [topLevel, joinCategory, splitAll_append, getElem?_append_left hlength]
  exact h

theorem topLevel_cases {full top rest : Text} (hfull : full = '/' :: rest)
    (h : topLevel full = some top) : full = '/' :: top ∨ ('/' :: top ++ ['/']) <+: full := by
  have hparts : splitAll '/' ([] ++ '/' :: rest) = [] :: splitAll '/' rest :=
    splitAll_cons not_mem_nil
  rw [nil_append, ← hfull] at hparts
  rw [topLevel, hparts, getElem?_cons_succ] at h
  rcases breakOn_char '/' rest with ⟨_, hmem⟩ | ⟨first, later, _, hmem, hrest⟩
  · rw [splitAll_of_not_mem hmem] at h
    cases h
    exact Or.inl hfull
  · rw [hrest, splitAll_cons hmem] at h
    cases h
    right
    exact ⟨later, by rw [hfull, hrest]; simp⟩

theorem loads_category {node : Node CategoryColumns}
    (h : node.depth = 0 ∨ exists top, topLevel node.fullName = some top ∧ top ∈ treeSubtypes) :
    Loads categoryRules node := by
  intro levels nested pk
  show categoryPostInit levels nested pk node = pure node
  unfold categoryPostInit
  rcases h with hdepth | ⟨top, htop, hmem⟩
  · rw [if_pos hdepth]
  · split
    · rfl
    · simp only [htop, if_pos hmem]

theorem topLevel_of_loads {node : Node CategoryColumns} (h : Loads categoryRules node)
    (hdepth : node.depth ≠ 0) :
    exists top, topLevel node.fullName = some top ∧ top ∈ treeSubtypes := by
  have hload : categoryPostInit 0 (fun _ _ => throw .indexError) 0 node Table.empty =
      .ok node Table.empty := congrFun (h 0 _ 0) Table.empty
  unfold categoryPostInit at hload
  rw [if_neg hdepth] at hload
  cases htop : topLevel node.fullName with
  | none =>
    rw [htop] at hload
    cases hload
  | some top =>
    rw [htop] at hload
    by_cases hmem : top ∈ treeSubtypes
    · exact ⟨top, rfl, hmem⟩
    · simp only [if_neg hmem] at hload
      cases hload

theorem checkName_ok {name : Text} (h : categoryRules.checkName name 1 = .ok ()) :
    name ∈ treeSubtypes := by
  apply Classical.byContradiction
  intro hmem
  rw [show categoryRules.checkName name 1 = if 1 = 1 ∧ name ∉ treeSubtypes then
    .error (.validationError (quoted "illegal top-level category name '" name "'"))
    else .ok () from rfl, if_pos ⟨rfl, hmem⟩] at h
  cases h

theorem categoryRules_lawful : Lawful categoryRules where
  legal_char _ h := validCategoryChar_text h
  parts_plain _ _ hmem := not_mem_of_mem_splitAll (mem_filter.mp hmem).left
  parts_blank _ _ hmem hblank := absurd hblank (of_decide_eq_true (mem_filter.mp hmem).right)
  parts_first _ _ hhead hblank := by
    have hmem := dropLast_subset _ (mem_of_head? hhead)
    exact absurd hblank (of_decide_eq_true (mem_filter.mp hmem).right)
  parts_own := by
    intro name own _ hparts
    have hmem : own ∈ categoryRules.parts name := by
      rw [hparts]
      exact mem_singleton.mpr rfl
    exact of_decide_eq_true (mem_filter.mp hmem).right
  join_injective _ _ _ _ hlegal hlegal' h :=
    joinCategory_injective (slash_not_mem hlegal) (slash_not_mem hlegal') h
  join_ne_nil _ _ _ := append_ne_nil_of_right_ne_nil _ (cons_ne_nil _ _)
  ranked := by
    refine ⟨fun full => full.count '/', rfl, ?_⟩
    intro name full hlegal
    show (full ++ '/' :: name).count '/' = full.count '/' + 1
    rw [count_append, count_cons_self,
      count_eq_zero_of_not_mem (slash_not_mem hlegal)]
  checkFirst_settle _ _ h := h
  checkSettled_ok _ := rfl
  checkName_deep _ _ hdepth := if_neg (fun hboth => hdepth hboth.left)
  loads_top _ hdepth := loads_category (Or.inl hdepth)
  loads_child := by
    intro node parent hparent hnil hlegal hfull hdepth hname
    apply loads_category
    right
    rw [hfull]
    by_cases htop : parent.depth = 0
    · rw [hdepth, htop] at hname
      rw [hnil htop]
      exact ⟨node.name, topLevel_first (slash_not_mem hlegal), checkName_ok hname⟩
    · rcases topLevel_of_loads hparent htop with ⟨top, hlevel, hmem⟩
      exact ⟨top, topLevel_join hlevel, hmem⟩

/-- `add_category` for the names of the subtrees. -/
def addSubtypes (database : Database CategoryColumns) (levels : Nat)
    (top : Nat × Node CategoryColumns) :
    List Text -> Program (Table CategoryColumns) (List (Nat × Node CategoryColumns))
  | [] => pure []
  | name :: rest => do
      let saved ← save categoryRules database levels none
        { name
          fullName := joinCategory name top.2.fullName
          parent := some top.1
          depth := top.2.depth + 1
          extra := CategoryColumns.default }
      let others ← addSubtypes database levels top rest
      pure (saved :: others)

def markImmutable (database : Database CategoryColumns) (levels : Nat) :
    List (Nat × Node CategoryColumns) -> Program (Table CategoryColumns) PUnit
  | [] => pure ⟨⟩
  | (pk, node) :: rest => do
      let _ ← save categoryRules database levels (some pk)
        { node with extra := { node.extra with immutable := true } }
      markImmutable database levels rest

/-- `category_tree()` for an empty table; a set lists the subtrees in any order. -/
def categoryTree (database : Database CategoryColumns) (levels : Nat) (subtypes : List Text) :
    Program (Table CategoryColumns) PUnit := do
  let top ← save categoryRules database levels none
    { name := []
      fullName := []
      parent := none
      depth := 0
      extra := { CategoryColumns.default with comment := "top node".toList } }
  let others ← addSubtypes database levels top subtypes
  markImmutable database levels (top :: others)

end Icsw.NameTree
