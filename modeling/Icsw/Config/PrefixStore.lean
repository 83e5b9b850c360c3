import Icsw.Config.Store
import Icsw.Foundation.Run
import Mathlib.Data.List.Dedup
import Mathlib.Data.List.GetD

/-!
# Stores with a prefix

A store with a prefix takes dictionaries, too.  The entries of the dictionary `key` are
kept as variables `prefix_key_entry` beside the others, and `keys` finds the key of a
name again as what stands between its first two underscores.
-/

namespace Icsw.Config

open Foundation List

/-- `"{}_{}_".format(self.prefix, key)` -/
def dictPrefix (pre key : Text) : Text := pre ++ '_' :: key ++ ['_']

def isNested (pre name : Text) : Bool :=
  (pre ++ ['_']).isPrefixOf name && decide (1 < name.count '_')

/-- `_key.split("_")[1]` -/
def outerKey (name : Text) : Text := (splitAll '_' name).getD 1 []

inductive Item where
  | scalar (value : Value)
  | dict (values : Dict Text Value)

/-- Equality of the values: a dictionary has no order. -/
def Item.Same : Item -> Item -> Prop
  | .scalar value, .scalar other => value = other
  | .dict values, .dict others => forall sub, values.lookup sub = others.lookup sub
  | _, _ => False

theorem Item.Same.trans {first second third : Item} (h : first.Same second)
    (h' : second.Same third) : first.Same third := by
  cases first <;> cases second <;> cases third <;>
    first
      | exact h.elim
      | exact h'.elim
      | exact Eq.trans h h'
      | exact fun sub => (h sub).trans (h' sub)

inductive Assigned where
  | scalar (value : Value)
  | described (value : Value) (description : Text)
  | dict (values : Dict Text Value) (nonempty : values.keys ≠ [])

def Assigned.item : Assigned -> Item
  | .scalar value => .scalar value
  | .described value _ => .scalar value
  | .dict values _ => .dict values

def entryBelow (start : Text) (entry : Sigma fun _ : Text => ConfigVar) :
    Option (Sigma fun _ : Text => Value) :=
  if start.isPrefixOf entry.1 then some ⟨entry.1.drop start.length, entry.2.getValue⟩ else none

namespace ConfigStore

variable (store : ConfigStore)

def keys (onlyDict : Bool) : List Text :=
  if store.treeValid then
    match orNone store.keyPrefix with
    | some pre =>
      (store.vars.keys.filterMap fun name =>
        if isNested pre name then some (outerKey name)
        else if onlyDict then none
        else some name).dedup
    | none => store.vars.keys
  else []

def contains (key : Text) : Bool :=
  match orNone store.keyPrefix with
  | some _ => decide (key ∈ store.keys false)
  | none => decide (key ∈ store.vars)

def nestedValues (start : Text) : Dict Text Value :=
  (store.vars.entries.filterMap (entryBelow start)).toAList

def getItem (key : Text) : Except PyError Item :=
  if store.treeValid then
    match store.vars.lookup key, orNone store.keyPrefix with
    | some var, _ => .ok (.scalar var.getValue)
    | none, some pre =>
      let found := store.nestedValues (dictPrefix pre key)
      if found.keys = [] then .error .valueError else .ok (.dict found)
    | none, none => .error .keyError
  else .error .valueError

/-- The description that a scalar keeps when it is assigned anew. -/
def keptDescription (key : Text) : Except PyError Text :=
  if store.contains key then
    match store.vars.lookup key with
    | some var => .ok var.description
    | none => .error .keyError
  else .ok []

def addNested (start : Text) (store : ConfigStore) (entry : Sigma fun _ : Text => Value) :
    ConfigStore :=
  store.addVar (ConfigVar.new (start ++ entry.1) entry.2 [])

def setItem (key : Text) : Assigned -> Except PyError ConfigStore
  | .dict values _ =>
    match orNone store.keyPrefix with
    | some pre => .ok (values.entries.foldl (addNested (dictPrefix pre key)) store)
    | none => .error .valueError
  | .described value description => do
      let _ ← store.keptDescription key
      .ok (store.addVar (ConfigVar.new key value description))
  | .scalar value => do
      let description ← store.keptDescription key
      .ok (store.addVar (ConfigVar.new key value description))

def assign (assignment : Text × Assigned) : ConfigStore :=
  match store.setItem assignment.1 assignment.2 with
  | .ok after => after
  | .error _ => store

def Holds (key : Text) (item : Item) : Prop :=
  key ∈ store.keys false ∧ exists found, store.getItem key = .ok found ∧ found.Same item

/-- What a dictionary of dictionaries does on an assignment. -/
def Behaves (assignment : Text × Assigned) : Prop :=
  exists after, store.setItem assignment.1 assignment.2 = .ok after ∧
    after.contains assignment.1 = true ∧ after.Holds assignment.1 assignment.2.item ∧
    forall other item, other ≠ assignment.1 -> other ∈ store.keys false ->
      store.getItem other = .ok item -> after.Holds other item

structure FitsScalar (pre : Text) (store : ConfigStore) (key : Text) (value : Value) : Prop where
  treeValid : store.treeValid = true
  value : value ≠ .none
  plain : isNested pre key = false
  /-- No dictionary stands under the key. -/
  scalar : key ∈ store.keys false -> key ∈ store.vars

structure FitsDict (pre : Text) (store : ConfigStore) (key : Text) (values : Dict Text Value) :
    Prop where
  treeValid : store.treeValid = true
  given : forall sub, values.lookup sub ≠ some .none
  /-- `keys` finds the key again. -/
  found : outerKey (pre ++ '_' :: key) = key
  /-- No scalar stands under the key. -/
  dict : key ∉ store.vars
  /-- The dictionary replaces all entries of an earlier one. -/
  replaced : forall sub, dictPrefix pre key ++ sub ∈ store.vars -> sub ∈ values

def Fits (pre : Text) (store : ConfigStore) (assignment : Text × Assigned) : Prop :=
  match assignment.2 with
  | .scalar value => FitsScalar pre store assignment.1 value
  | .described value _ => FitsScalar pre store assignment.1 value
  | .dict values _ => FitsDict pre store assignment.1 values

end ConfigStore

variable {pre key other sub name : Text}

theorem outerKey_dictPrefix : outerKey (dictPrefix pre key ++ sub) = outerKey (pre ++ '_' :: key) := by
  have hsplit : splitAll '_' (dictPrefix pre key ++ sub) =
      splitAll '_' (pre ++ '_' :: key) ++ splitAll '_' sub := by
    rw [dictPrefix, append_assoc]
    exact splitAll_append '_' _ sub
  have hlength : 1 < (splitAll '_' (pre ++ '_' :: key)).length := by
    rw [splitAll, length_split_char (Nat.le_refl _), count_append, count_cons_self]
    omega
  rw [outerKey, hsplit, getD_append _ _ _ _ hlength, outerKey]

theorem isNested_dictPrefix : isNested pre (dictPrefix pre key ++ sub) = true := by
  have hprefix : (pre ++ ['_']).isPrefixOf (dictPrefix pre key ++ sub) = true :=
    isPrefixOf_iff_prefix.mpr ⟨key ++ '_' :: sub, by simp [dictPrefix]⟩
  rw [isNested, hprefix, Bool.true_and, decide_eq_true_eq]
  simp only [dictPrefix, count_append, count_cons_self]
  omega

theorem not_mem_outerKey : '_' ∉ outerKey name := by
  unfold outerKey
  by_cases h : 1 < (splitAll '_' name).length
  · rw [getD_eq_getElem _ _ h]
    exact not_mem_of_mem_splitAll (getElem_mem h)
  · rw [getD_eq_default _ _ (by omega)]
    exact not_mem_nil

/-- The key that is found in a name with the prefix is found behind the prefix alone. -/
theorem outerKey_of_prefix (h : isNested pre name = true) :
    outerKey (pre ++ '_' :: outerKey name) = outerKey name := by
  rw [isNested, Bool.and_eq_true, isPrefixOf_iff_prefix] at h
  rcases h.left with ⟨rest, hrest⟩
  rw [append_assoc] at hrest
  have hname : outerKey name = (splitAll '_' pre ++ splitAll '_' rest).getD 1 [] := by
    rw [← splitAll_append, outerKey, ← hrest]
    rfl
  by_cases hlength : 1 < (splitAll '_' pre).length
  · rw [hname, getD_append _ _ _ _ hlength, outerKey, splitAll_append,
      getD_append _ _ _ _ hlength]
  · have hone : (splitAll '_' pre).length = 1 := by
      rw [splitAll, length_split_char (Nat.le_refl _)] at hlength ⊢
      omega
    rw [outerKey, splitAll_append, splitAll_of_not_mem not_mem_outerKey,
      getD_append_right _ _ _ _ (by omega), hone]
    rfl

namespace ConfigStore

variable {store after : ConfigStore} {item : Item}

theorem lookup_nestedValues (start : Text) :
    (store.nestedValues start).lookup sub =
      (store.vars.lookup (start ++ sub)).map ConfigVar.getValue := by
  rw [nestedValues, AList.lookup_to_alist]
  show _ = (store.vars.entries.dlookup (start ++ sub)).map ConfigVar.getValue
  induction store.vars.entries with
  | nil => rfl
  | cons first rest ih =>
    rcases first with ⟨name, var⟩
    by_cases hstart : start <+: name
    · rcases hstart with ⟨tail, rfl⟩
      rw [@filterMap_cons_some _ _ (entryBelow start) _ _ ⟨tail, var.getValue⟩
        (by simp [entryBelow])]
      by_cases htail : tail = sub
      · subst htail
        rw [dlookup_cons_eq, dlookup_cons_eq]
        rfl
      · rw [dlookup_cons_ne _ _ (fun h => htail h.symm), ih,
          dlookup_cons_ne _ _ (fun h => htail (append_cancel_left h).symm)]
    · have hne : start ++ sub ≠ name := fun h => hstart ⟨sub, h⟩
      rw [filterMap_cons_none (by simp [entryBelow, hstart]), ih,
        dlookup_cons_ne _ _ hne]

theorem nestedValues_ne {start : Text} (h : start ++ sub ∈ store.vars) :
    (store.nestedValues start).keys ≠ [] := by
  rcases Dict.exists_lookup h with ⟨var, hvar⟩
  have hmem : sub ∈ store.nestedValues start :=
    Dict.mem_of_lookup (by rw [lookup_nestedValues, hvar]; rfl)
  exact ne_nil_of_mem hmem

theorem getItem_scalar (hvalid : store.treeValid = true) {var : ConfigVar}
    (h : store.vars.lookup key = some var) : store.getItem key = .ok (.scalar var.getValue) := by
  rw [getItem, if_pos hvalid, h]

variable (hpre : orNone store.keyPrefix = some pre)

include hpre

theorem getItem_dict (hvalid : store.treeValid = true) (h : key ∉ store.vars) :
    store.getItem key =
      if (store.nestedValues (dictPrefix pre key)).keys = [] then .error .valueError
      else .ok (.dict (store.nestedValues (dictPrefix pre key))) := by
  rw [getItem, if_pos hvalid, AList.lookup_eq_none.mpr h, hpre]

theorem mem_keys : key ∈ store.keys false <-> store.treeValid = true ∧
    exists name, name ∈ store.vars ∧ (if isNested pre name then outerKey name else name) = key := by
  by_cases hvalid : store.treeValid = true
  · rw [keys, if_pos hvalid, hpre]
    simp only [mem_dedup, mem_filterMap, hvalid, true_and]
    apply exists_congr
    intro name
    apply and_congr Iff.rfl
    by_cases hname : isNested pre name = true
    · simp [hname]
    · simp [hname]
  · rw [keys, if_neg hvalid]
    simp [hvalid]

theorem not_nested_of_mem_keys (h : key ∈ store.keys false) : isNested pre key = false := by
  rcases ((mem_keys hpre).mp h).right with ⟨name, _, hname⟩
  by_cases hnested : isNested pre name = true
  · rw [if_pos hnested] at hname
    by_contra hkey
    rw [Bool.not_eq_false, isNested, Bool.and_eq_true, decide_eq_true_eq] at hkey
    have hmem := count_pos_iff.mp (lt_trans zero_lt_one hkey.right)
    rw [← hname] at hmem
    exact not_mem_outerKey hmem
  · rw [if_neg hnested] at hname
    rw [← hname]
    exact Bool.eq_false_of_not_eq_true hnested

theorem contains_iff : store.contains key = true <-> key ∈ store.keys false := by
  rw [contains, hpre, decide_eq_true_iff]

theorem holds_dict {values : Dict Text Value} (hkey : key ∈ store.keys false)
    (habsent : key ∉ store.vars) (hsub : dictPrefix pre key ++ sub ∈ store.vars)
    (hvalues : forall sub,
      (store.vars.lookup (dictPrefix pre key ++ sub)).map ConfigVar.getValue = values.lookup sub) :
    store.Holds key (.dict values) := by
  refine ⟨hkey, .dict (store.nestedValues (dictPrefix pre key)), ?_, ?_⟩
  · rw [getItem_dict hpre ((mem_keys hpre).mp hkey).left habsent, if_neg (nestedValues_ne hsub)]
  · intro sub
    rw [lookup_nestedValues, hvalues]

/-- A key without a variable is the key of a dictionary. -/
theorem not_mem_of_dict_key (hkey : key ∈ store.keys false) (habsent : key ∉ store.vars) :
    '_' ∉ key := by
  rcases ((mem_keys hpre).mp hkey).right with ⟨name, hmem, hname⟩
  by_cases hnested : isNested pre name = true
  · rw [if_pos hnested] at hname
    rw [← hname]
    exact not_mem_outerKey
  · rw [if_neg hnested] at hname
    exact absurd (hname ▸ hmem) habsent

omit hpre

/-- No variable is lost, and only those of the kind are changed. -/
structure Extends (store after : ConfigStore) (changed : Text -> Prop) : Prop where
  treeValid : after.treeValid = store.treeValid
  keyPrefix : after.keyPrefix = store.keyPrefix
  kept : forall name, ¬ changed name -> after.vars.lookup name = store.vars.lookup name
  mem : forall name, name ∈ store.vars -> name ∈ after.vars

theorem extends_addVar (store : ConfigStore) (var : ConfigVar) :
    Extends store (store.addVar var) (fun name => name = var.name) where
  treeValid := rfl
  keyPrefix := rfl
  kept _ h := AList.lookup_insert_ne h
  mem _ h := (AList.mem_insert _).mpr (Or.inr h)

theorem extends_foldl_addNested (start : Text) (entries : List (Sigma fun _ : Text => Value))
    (store : ConfigStore) :
    Extends store (entries.foldl (addNested start) store)
      (fun name => exists sub, sub ∈ entries.keys ∧ name = start ++ sub) := by
  induction entries generalizing store with
  | nil => exact ⟨rfl, rfl, fun _ _ => rfl, fun _ h => h⟩
  | cons first rest ih =>
    have hfirst := extends_addVar store (ConfigVar.new (start ++ first.1) first.2 [])
    have hrest := ih (addNested start store first)
    refine ⟨hrest.treeValid, hrest.keyPrefix, ?_, fun name h => hrest.mem name (hfirst.mem name h)⟩
    intro name hname
    rw [foldl_cons, hrest.kept name, addNested, hfirst.kept name]
    · intro heq
      exact hname ⟨first.1, mem_cons_self, heq⟩
    · rintro ⟨sub, hsub, heq⟩
      exact hname ⟨sub, mem_cons_of_mem _ hsub, heq⟩

theorem lookup_foldl_addNested (start : Text) {entries : List (Sigma fun _ : Text => Value)}
    (hkeys : entries.NodupKeys) {value : Value} (h : entries.dlookup sub = some value)
    (store : ConfigStore) :
    (entries.foldl (addNested start) store).vars.lookup (start ++ sub) =
      some (ConfigVar.new (start ++ sub) value []) := by
  induction entries generalizing store with
  | nil => cases h
  | cons first rest ih =>
    by_cases hfirst : first.1 = sub
    · subst hfirst
      rw [dlookup_cons_eq] at h
      cases h
      rw [foldl_cons, (extends_foldl_addNested start rest _).kept]
      · exact AList.lookup_insert _
      · rintro ⟨other, hother, heq⟩
        exact notMem_keys_of_nodupKeys_cons hkeys (append_cancel_left heq ▸ hother)
    · rw [dlookup_cons_ne _ _ (fun heq => hfirst heq.symm)] at h
      exact ih (nodupKeys_of_nodupKeys_cons hkeys) h _

variable {changed : Text -> Prop}

theorem Extends.holds (hext : Extends store after changed) (hpre : orNone store.keyPrefix = some pre)
    (hkey : key ∈ store.keys false) (hitem : store.getItem key = .ok item) (hplain : ¬ changed key)
    (hdict : key ∉ store.vars -> forall sub, ¬ changed (dictPrefix pre key ++ sub)) :
    after.Holds key item := by
  have hpre' : orNone after.keyPrefix = some pre := hext.keyPrefix ▸ hpre
  rcases (mem_keys hpre).mp hkey with ⟨hvalid, name, hmem, hname⟩
  have hvalid' : after.treeValid = true := hext.treeValid.trans hvalid
  have hkey' : key ∈ after.keys false :=
    (mem_keys hpre').mpr ⟨hvalid', name, hext.mem name hmem, hname⟩
  cases hlookup : store.vars.lookup key with
  | some var =>
    rw [getItem_scalar hvalid hlookup] at hitem
    cases hitem
    exact ⟨hkey', _, getItem_scalar hvalid' ((hext.kept key hplain).trans hlookup), rfl⟩
  | none =>
    have habsent : key ∉ store.vars := AList.lookup_eq_none.mp hlookup
    rw [getItem_dict hpre hvalid habsent] at hitem
    split at hitem
    · cases hitem
    · rename_i hne
      cases hitem
      rcases exists_mem_of_ne_nil _ hne with ⟨sub, hsub⟩
      rcases Dict.exists_lookup (AList.mem_keys.mpr hsub) with ⟨value, hvalue⟩
      rw [lookup_nestedValues] at hvalue
      rcases Option.map_eq_some_iff.mp hvalue with ⟨var, hvar, _⟩
      apply holds_dict hpre' hkey' _ (hext.mem _ (Dict.mem_of_lookup hvar))
      · intro sub
        rw [hext.kept _ (hdict habsent sub), lookup_nestedValues]
      · rw [← AList.lookup_eq_none, hext.kept key hplain, hlookup]

variable {value : Value} {values : Dict Text Value}

section

variable (hpre : orNone store.keyPrefix = some pre)
include hpre

theorem fitsScalar_iff (description : Text) (hkept : key ∈ store.keys false -> key ∈ store.vars) :
    (store.addVar (ConfigVar.new key value description)).contains key = true ∧
        (store.addVar (ConfigVar.new key value description)).Holds key (.scalar value) ∧
        (forall other item, other ≠ key -> other ∈ store.keys false ->
          store.getItem other = .ok item ->
          (store.addVar (ConfigVar.new key value description)).Holds other item) <->
      FitsScalar pre store key value := by
  have hext := extends_addVar store (ConfigVar.new key value description)
  have hmem : key ∈ (store.addVar (ConfigVar.new key value description)).vars :=
    (AList.mem_insert _).mpr (Or.inl rfl)
  have hlookup : (store.addVar (ConfigVar.new key value description)).vars.lookup key =
      some (ConfigVar.new key value description) := AList.lookup_insert _
  generalize store.addVar (ConfigVar.new key value description) = after at hext hmem hlookup
  have hpre' : orNone after.keyPrefix = some pre := hext.keyPrefix ▸ hpre
  constructor
  · rintro ⟨_, ⟨hkeys, found, hfound, hsame⟩, _⟩
    have hvalid := ((mem_keys hpre').mp hkeys).left
    refine ⟨hext.treeValid ▸ hvalid, ?_, not_nested_of_mem_keys hpre' hkeys, hkept⟩
    rintro rfl
    rw [getItem_scalar hvalid hlookup] at hfound
    cases hfound
    cases hsame
  · intro h
    have hvalid := hext.treeValid.trans h.treeValid
    have hkeys : key ∈ after.keys false :=
      (mem_keys hpre').mpr ⟨hvalid, key, hmem, by rw [h.plain]; rfl⟩
    refine ⟨(contains_iff hpre').mpr hkeys, ⟨hkeys, _, getItem_scalar hvalid hlookup, ?_⟩, ?_⟩
    · cases value with
      | none => exact absurd rfl h.value
      | _ => rfl
    · intro other item hne hother hitem
      apply hext.holds hpre hother hitem hne
      intro _ sub heq
      have hnested := @isNested_dictPrefix pre other sub
      rw [heq, show (ConfigVar.new key value description).name = key from rfl, h.plain] at hnested
      cases hnested

theorem fitsDict_iff (hne : values.keys ≠ []) :
    Behaves store (key, .dict values hne) <-> FitsDict pre store key values := by
  have hset : store.setItem key (.dict values hne) =
      .ok (values.entries.foldl (addNested (dictPrefix pre key)) store) := by
    rw [setItem, hpre]
  have hext := extends_foldl_addNested (dictPrefix pre key) values.entries store
  have hnew := fun {sub} {value} (h : values.lookup sub = some value) =>
    lookup_foldl_addNested (dictPrefix pre key) values.nodupKeys h store
  generalize values.entries.foldl (addNested (dictPrefix pre key)) store = after at hset hext hnew
  have hpre' : orNone after.keyPrefix = some pre := hext.keyPrefix ▸ hpre
  have hplain : forall name, isNested pre name = false ->
      after.vars.lookup name = store.vars.lookup name := by
    intro name hname
    apply hext.kept
    rintro ⟨sub, _, rfl⟩
    rw [isNested_dictPrefix] at hname
    cases hname
  constructor
  · rintro ⟨_, hafter, _, ⟨hkeys, found, hfound, hsame⟩, _⟩
    rw [hset] at hafter
    cases hafter
    have hvalid := ((mem_keys hpre').mp hkeys).left
    have habsent : key ∉ after.vars := by
      intro hmem
      rcases Dict.exists_lookup hmem with ⟨var, hvar⟩
      rw [getItem_scalar hvalid hvar] at hfound
      cases hfound
      cases hsame
    rw [getItem_dict hpre' hvalid habsent] at hfound
    split at hfound
    · cases hfound
    cases hfound
    have hvalues : forall sub, (after.vars.lookup (dictPrefix pre key ++ sub)).map ConfigVar.getValue =
        values.lookup sub := fun sub => by rw [← lookup_nestedValues]; exact hsame sub
    refine ⟨hext.treeValid ▸ hvalid, ?_, ?_, fun hmem => habsent (hext.mem key hmem), ?_⟩
    · intro sub hsub
      have heq := hvalues sub
      rw [hnew hsub, hsub] at heq
      cases heq
    · rcases ((mem_keys hpre').mp hkeys).right with ⟨name, hmem, hname⟩
      by_cases hnested : isNested pre name = true
      · rw [if_pos hnested] at hname
        change outerKey name = key at hname
        rw [← hname]
        exact outerKey_of_prefix hnested
      · rw [if_neg hnested] at hname
        change name = key at hname
        exact absurd (hname ▸ hmem) habsent
    · intro sub hsub
      rcases Dict.exists_lookup (hext.mem _ hsub) with ⟨var, hvar⟩
      exact Dict.mem_of_lookup (by rw [← hvalues, hvar]; rfl)
  · intro h
    have hvalid := hext.treeValid.trans h.treeValid
    rcases exists_mem_of_ne_nil _ hne with ⟨sub, hsub⟩
    rcases Dict.exists_lookup (AList.mem_keys.mpr hsub) with ⟨value, hvalue⟩
    have hmem : dictPrefix pre key ++ sub ∈ after.vars := Dict.mem_of_lookup (hnew hvalue)
    have hkeys : key ∈ after.keys false := by
      refine (mem_keys hpre').mpr ⟨hvalid, _, hmem, ?_⟩
      rw [if_pos isNested_dictPrefix, outerKey_dictPrefix, h.found]
    have hunder : '_' ∉ key := h.found ▸ not_mem_outerKey
    refine ⟨after, hset, (contains_iff hpre').mpr hkeys, holds_dict hpre' hkeys ?_ hmem ?_, ?_⟩
    · rw [← AList.lookup_eq_none, hplain key (not_nested_of_mem_keys hpre' hkeys)]
      exact AList.lookup_eq_none.mpr h.dict
    · intro sub
      cases hsub : values.lookup sub with
      | some value =>
        rw [hnew hsub]
        cases value with
        | none => exact absurd hsub (h.given sub)
        | _ => rfl
      | none =>
        have habsent := AList.lookup_eq_none.mp hsub
        rw [hext.kept, AList.lookup_eq_none.mpr (fun hmem => habsent (h.replaced sub hmem))]
        · rfl
        · rintro ⟨other, hother, heq⟩
          exact habsent (append_cancel_left heq ▸ AList.mem_keys.mpr hother)
    · intro other item hother hotherkeys hitem
      apply hext.holds hpre hotherkeys hitem
      · rintro ⟨sub, _, rfl⟩
        have hnested := not_nested_of_mem_keys hpre hotherkeys
        rw [isNested_dictPrefix] at hnested
        cases hnested
      · rintro habsent sub ⟨last, _, heq⟩
        have hboth : other ++ '_' :: sub = key ++ '_' :: last := by
          simpa [dictPrefix] using heq
        exact hother (eq_of_append_separator (not_mem_of_dict_key hpre hotherkeys habsent) hunder
          hboth).left

theorem keptDescription_eq (h : key ∈ store.keys false -> key ∈ store.vars) :
    exists description, store.keptDescription key = .ok description := by
  rw [keptDescription]
  split
  · rename_i hcontains
    rcases Dict.exists_lookup (h ((contains_iff hpre).mp hcontains)) with ⟨var, hvar⟩
    rw [hvar]
    exact ⟨_, rfl⟩
  · exact ⟨_, rfl⟩

theorem mem_of_keptDescription {description : Text}
    (h : store.keptDescription key = .ok description) (hkey : key ∈ store.keys false) :
    key ∈ store.vars := by
  rw [keptDescription, if_pos ((contains_iff hpre).mpr hkey)] at h
  cases hlookup : store.vars.lookup key with
  | some var => exact Dict.mem_of_lookup hlookup
  | none =>
    rw [hlookup] at h
    cases h

theorem behaves_scalar_iff {assigned : Assigned}
    (describe : Text -> Text) (hitem : assigned.item = .scalar value)
    (hset : store.setItem key assigned = store.keptDescription key >>= fun description =>
      .ok (store.addVar (ConfigVar.new key value (describe description)))) :
    Behaves store (key, assigned) <-> FitsScalar pre store key value := by
  rw [Behaves, hset, hitem]
  constructor
  · rintro ⟨after, hafter, hrest⟩
    rcases exists_of_bind hafter with ⟨description, hdescription, heq⟩
    cases heq
    exact (fitsScalar_iff hpre _ (mem_of_keptDescription hpre hdescription)).mp hrest
  · intro h
    rcases keptDescription_eq hpre h.scalar with ⟨description, hdescription⟩
    rw [hdescription]
    exact ⟨_, rfl, (fitsScalar_iff hpre _ h.scalar).mpr h⟩

theorem behaves_iff (assignment : Text × Assigned) :
    Behaves store assignment <-> Fits pre store assignment := by
  rcases assignment with ⟨key, assigned⟩
  cases assigned with
  | scalar value => exact behaves_scalar_iff hpre id rfl rfl
  | described value description => exact behaves_scalar_iff hpre (fun _ => description) rfl rfl
  | dict values hne => exact fitsDict_iff hpre hne

end

theorem keyPrefix_assign (store : ConfigStore) (assignment : Text × Assigned) :
    (store.assign assignment).keyPrefix = store.keyPrefix := by
  rcases assignment with ⟨key, assigned⟩
  unfold assign
  split
  · rename_i after hafter
    cases assigned with
    | dict values hne =>
      rw [setItem] at hafter
      split at hafter
      · cases hafter
        exact (extends_foldl_addNested _ _ _).keyPrefix
      · cases hafter
    | _ =>
      rcases exists_of_bind hafter with ⟨description, _, heq⟩
      cases heq
      rfl
  · rfl

def lastAssigned (key : Text) (assignments : List (Text × Assigned)) : Option Item :=
  (assignments.filter fun assignment => assignment.1 = key).getLast?.map fun assignment =>
    assignment.2.item

theorem holds_last {assignments : List (Text × Assigned)}
    (h : Along assign Behaves store assignments) (hlast : lastAssigned key assignments = some item) :
    (run assign store assignments).Holds key item := by
  induction assignments using reverseRecOn generalizing item with
  | nil => cases hlast
  | append_singleton done assignment ih =>
    rcases (along_append assign).mp h with ⟨hdone, hbehaves, _⟩
    rcases hbehaves with ⟨after, hafter, _, hheld, hothers⟩
    have hrun : run assign store (done ++ [assignment]) = after := by
      rw [run_append, run_cons, assign, hafter]
      rfl
    rw [hrun]
    rw [lastAssigned, filter_append] at hlast
    by_cases hkey : assignment.1 = key
    · rw [filter_cons_of_pos (by simpa using hkey), filter_nil,
        getLast?_concat] at hlast
      cases hlast
      exact hkey ▸ hheld
    · rw [filter_cons_of_neg (by simpa using hkey), filter_nil,
        append_nil] at hlast
      rcases ih hdone hlast with ⟨hkeys, found, hfound, hsame⟩
      rcases hothers key found (fun heq => hkey heq.symm) hkeys hfound with
        ⟨hkeys', found', hfound', hsame'⟩
      exact ⟨hkeys', found', hfound', hsame'.trans hsame⟩

/-- A store with a prefix is a dictionary of dictionaries for a run of assignments if and
only if each of them fits the store that it is made in. -/
theorem dict_of_dicts_iff (pre : Text) (store : ConfigStore)
    (hpre : orNone store.keyPrefix = some pre) (assignments : List (Text × Assigned)) :
    (Along assign Behaves store assignments <-> Along assign (Fits pre) store assignments) ∧
      (Along assign (Fits pre) store assignments ->
        forall key item, lastAssigned key assignments = some item ->
          (run assign store assignments).Holds key item) := by
  have hiff := @along_iff_of_invariant _ _ assign store
    (fun store => orNone store.keyPrefix = some pre) Behaves (Fits pre)
    (fun _ assignment hpre => behaves_iff hpre assignment)
    (fun store assignment hpre _ => (keyPrefix_assign store assignment).symm ▸ hpre) hpre
    assignments
  exact ⟨hiff, fun h _ _ hlast => holds_last (hiff.mpr h) hlast⟩

theorem dict_of_dicts_sample :
    Along assign Behaves (new "server".toList (some "a".toList))
      [("x".toList, .scalar (.str "la".toList))] :=
  (dict_of_dicts_iff "a".toList (new "server".toList (some "a".toList)) rfl
    [("x".toList, .scalar (.str "la".toList))]).left.mpr
    ⟨⟨rfl, by decide, by decide, by decide⟩, trivial⟩

/-- A scalar is assigned where a dictionary stands: `KeyError`. -/
theorem scalar_over_dict_raises :
    ¬ Along assign Behaves (new "server".toList (some "a".toList))
      [("x".toList, .dict (AList.singleton "b".toList (.int 1)) (by decide)),
        ("x".toList, .scalar (.int 1))] := by
  rintro ⟨_, ⟨after, hafter, _⟩, _⟩
  have hraises : (assign (new "server".toList (some "a".toList))
      ("x".toList, .dict (AList.singleton "b".toList (.int 1)) (by decide))).setItem "x".toList
        (.scalar (.int 1)) = .error .keyError := by rfl
  rw [hraises] at hafter
  cases hafter

end ConfigStore

end Icsw.Config
