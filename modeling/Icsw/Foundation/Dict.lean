import Mathlib.Data.List.AList
import Mathlib.Data.List.Induction

/-!
# Dictionaries

A dictionary has one value for each of its keys.  A comprehension keeps or drops
each entry, and a loop over rows that updates one entry per row is, for each
key, a loop over the rows of that key alone.
-/

namespace Icsw.Foundation

open List

theorem find?_of_nodup {α β : Type} [DecidableEq β] {key : α -> β} {items : List α}
    (hnodup : (items.map key).Nodup) {item : α} (hmem : item ∈ items) {value : β}
    (hkey : key item = value) : items.find? (fun other => key other = value) = some item := by
  cases hfound : items.find? fun other => key other = value with
  | none => exact absurd (decide_eq_true hkey) (find?_eq_none.mp hfound item hmem)
  | some found =>
    have hvalue := find?_some hfound
    have hsame := (of_decide_eq_true hvalue).trans hkey.symm
    rw [inj_on_of_nodup_map hnodup (mem_of_find?_eq_some hfound) hmem hsame]

abbrev Dict (K V : Type) := AList (fun _ : K => V)

namespace Dict

variable {K V W R : Type}

variable (keep : K -> V -> Option W)

def keepEntry (entry : Sigma fun _ : K => V) : Option (Sigma fun _ : K => W) :=
  (keep entry.1 entry.2).map (Sigma.mk entry.1)

theorem keepEntry_key {keep : K -> V -> Option W} {entry : Sigma fun _ : K => V}
    {kept : Sigma fun _ : K => W} (h : keepEntry keep entry = some kept) :
    kept.1 = entry.1 := by
  rcases Option.map_eq_some_iff.mp h with ⟨value, _, heq⟩
  rw [← heq]

theorem keys_filterMap_sublist (entries : List (Sigma fun _ : K => V)) :
    (entries.filterMap (keepEntry keep)).keys.Sublist entries.keys := by
  induction entries with
  | nil => exact Sublist.refl _
  | cons first rest ih =>
    cases hkept : keepEntry keep first with
    | none =>
      rw [filterMap_cons_none hkept]
      exact ih.cons first.1
    | some kept =>
      rw [filterMap_cons_some hkept, keys_cons, keys_cons,
        keepEntry_key hkept]
      exact ih.cons_cons first.1

/-- `{key: .. for key, value in dict.iteritems() if ..}` -/
def comprehend (dict : Dict K V) : Dict K W where
  entries := dict.entries.filterMap (keepEntry keep)
  nodupKeys := dict.keys_nodup.sublist (keys_filterMap_sublist keep dict.entries)

variable [DecidableEq K]

theorem dlookup_filterMap {entries : List (Sigma fun _ : K => V)}
    (hkeys : entries.NodupKeys) (key : K) :
    (entries.filterMap (keepEntry keep)).dlookup key =
      (entries.dlookup key).bind (keep key) := by
  induction entries with
  | nil => rfl
  | cons first rest ih =>
    rcases first with ⟨name, value⟩
    have hrest := ih (nodupKeys_of_nodupKeys_cons hkeys)
    by_cases hname : name = key
    · subst hname
      rw [dlookup_cons_eq]
      cases hkeep : keep name value with
      | none =>
        have habsent : rest.dlookup name = none :=
          dlookup_eq_none.mpr (notMem_keys_of_nodupKeys_cons hkeys)
        rw [filterMap_cons_none (by simp [keepEntry, hkeep]), hrest, habsent]
        exact hkeep.symm
      | some kept =>
        rw [filterMap_cons_some (b := ⟨name, kept⟩) (by simp [keepEntry, hkeep]),
          dlookup_cons_eq]
        exact hkeep.symm
    · have hne : key ≠ name := fun h => hname h.symm
      rw [dlookup_cons_ne _ _ hne, ← hrest]
      cases hkeep : keep name value with
      | none => rw [filterMap_cons_none (by simp [keepEntry, hkeep])]
      | some kept =>
        rw [filterMap_cons_some (b := ⟨name, kept⟩) (by simp [keepEntry, hkeep]),
          dlookup_cons_ne _ _ hne]

@[simp] theorem lookup_comprehend (dict : Dict K V) (key : K) :
    (dict.comprehend keep).lookup key = (dict.lookup key).bind (keep key) :=
  dlookup_filterMap keep dict.nodupKeys key

variable {dict : Dict K V} {value : V} {key : K}

theorem mem_of_lookup (h : dict.lookup key = some value) :
    key ∈ dict := AList.lookup_isSome.mp (h ▸ rfl)

theorem exists_lookup (h : key ∈ dict) :
    exists value, dict.lookup key = some value :=
  Option.isSome_iff_exists.mp (AList.lookup_isSome.mpr h)

def values (dict : Dict K V) : List V := dict.entries.map Sigma.snd

omit [DecidableEq K] in
theorem mem_values_of_mem (h : Sigma.mk key value ∈ dict.entries) : value ∈ dict.values :=
  mem_map.mpr ⟨_, h, rfl⟩

theorem mem_values :
    value ∈ dict.values <-> exists key, dict.lookup key = some value := by
  constructor
  · intro h
    rcases mem_map.mp h with ⟨⟨key, held⟩, hmem, heq⟩
    cases heq
    exact ⟨key, AList.mem_lookup_iff.mpr hmem⟩
  · rintro ⟨key, hkey⟩
    exact mem_values_of_mem (AList.mem_lookup_iff.mp hkey)

def items (dict : Dict K V) : List (K × V) := dict.entries.map fun entry => (entry.1, entry.2)

theorem mem_items :
    (key, value) ∈ dict.items <-> dict.lookup key = some value := by
  constructor
  · intro h
    rcases mem_map.mp h with ⟨⟨name, held⟩, hmem, heq⟩
    cases heq
    exact AList.mem_lookup_iff.mpr hmem
  · intro h
    exact mem_map.mpr ⟨⟨key, value⟩, AList.mem_lookup_iff.mp h, rfl⟩

omit [DecidableEq K] in
theorem map_fst_items (dict : Dict K V) : dict.items.map Prod.fst = dict.keys := by
  rw [items, map_map]
  rfl

theorem lookup_insert_if (dict : Dict K V) (key other : K) (value : V) :
    (dict.insert key value).lookup other = if key = other then some value else dict.lookup other := by
  by_cases h : key = other
  · rw [if_pos h, ← h, AList.lookup_insert]
  · rw [if_neg h, AList.lookup_insert_ne (fun heq => h heq.symm)]

theorem lookup_insert_eq_some {other : K} {held : V} :
    (dict.insert key value).lookup other = some held <->
      key = other ∧ value = held ∨ key ≠ other ∧ dict.lookup other = some held := by
  rw [lookup_insert_if]
  split <;> simp [*]

theorem lookup_erase_eq_some {other : K} {held : V} :
    (dict.erase key).lookup other = some held <->
      other ≠ key ∧ dict.lookup other = some held := by
  by_cases heq : other = key
  · rw [heq, AList.lookup_erase]
    simp
  · simp [heq, AList.lookup_erase_ne heq]

theorem lookup_union (first second : Dict K V) (key : K) :
    (first ∪ second).lookup key = (first.lookup key).or (second.lookup key) := by
  by_cases h : key ∈ first
  · rw [AList.lookup_union_left h]
    rcases Dict.exists_lookup h with ⟨value, hvalue⟩
    rw [hvalue]
    rfl
  · rw [AList.lookup_union_right h, AList.lookup_eq_none.mpr h]
    rfl

/-- A loop that updates the entry of each row's key. -/
def update (key : R -> K) (change : Option V -> R -> V) (dict : Dict K V) (rows : List R) :
    Dict K V :=
  rows.foldl (fun current row =>
    current.insert (key row) (change (current.lookup (key row)) row)) dict

theorem lookup_update (key : R -> K) (change : Option V -> R -> V) (dict : Dict K V)
    (rows : List R) (name : K) :
    (dict.update key change rows).lookup name =
      (rows.filter fun row => key row = name).foldl (fun current row => some (change current row))
        (dict.lookup name) := by
  induction rows generalizing dict with
  | nil => rfl
  | cons first rest ih =>
    show (update key change (dict.insert (key first) (change (dict.lookup (key first)) first))
      rest).lookup name = _
    rw [ih, lookup_insert_if]
    by_cases hname : key first = name
    · rw [if_pos hname, filter_cons_of_pos (by simpa using hname), foldl_cons, hname]
    · rw [if_neg hname, filter_cons_of_neg (by simpa using hname)]

theorem foldl_assign (value : R -> V) (rows : List R) (start : Option V) :
    rows.foldl (fun _ row => some (value row)) start =
      (rows.getLast?.map value).or start := by
  induction rows using reverseRec with
  | nil => rfl
  | append_singleton rows row ih => simp

theorem lookup_update_assign (key : R -> K) (value : R -> V) (rows : List R) (name : K) :
    ((∅ : Dict K V).update key (fun _ row => value row) rows).lookup name =
      (rows.filter fun row => key row = name).getLast?.map value := by
  rw [lookup_update, foldl_assign, AList.lookup_empty, Option.or_none]

theorem lookup_update_file (key : R -> K) (rows : List R) (name : K) :
    ((∅ : Dict K (List R)).update key (fun held row => held.getD [] ++ [row]) rows).lookup name =
      if (rows.filter fun row => key row = name) = [] then none
      else some (rows.filter fun row => key row = name) := by
  have hfold : forall filed : List R,
      filed.foldl (fun held row => some (held.getD [] ++ [row])) none =
        if filed = [] then none else some filed := by
    intro filed
    induction filed using reverseRecOn with
    | nil => rfl
    | append_singleton filed row ih =>
      rw [foldl_append, ih, if_neg (show ¬ filed ++ [row] = [] by simp)]
      by_cases hnil : filed = []
      · subst hnil
        rfl
      · rw [if_neg hnil]
        rfl
  rw [lookup_update, AList.lookup_empty, hfold]

def assign (dict : Dict K V) (entries : List (K × V)) : Dict K V :=
  dict.update Prod.fst (fun _ entry => entry.2) entries

theorem assign_append (dict : Dict K V) (first second : List (K × V)) :
    dict.assign (first ++ second) = (dict.assign first).assign second :=
  foldl_append

theorem lookup_assign (entries : List (K × V)) (key : K) :
    ((∅ : Dict K V).assign entries).lookup key =
      (entries.filter fun entry => entry.1 = key).getLast?.map Prod.snd :=
  lookup_update_assign Prod.fst Prod.snd entries key

theorem isSome_foldl_some (change : Option V -> R -> V) (rows : List R) :
    (rows.foldl (fun current row => some (change current row)) none).isSome = true <->
      rows ≠ [] := by
  induction rows using reverseRec with
  | nil => simp
  | append_singleton rows row ih => simp

theorem mem_update {key : R -> K} {change : Option V -> R -> V} {rows : List R} {name : K} :
    name ∈ dict.update key change rows <-> name ∈ dict ∨ exists row, row ∈ rows ∧ key row = name := by
  induction rows generalizing dict with
  | nil => simp [update]
  | cons first rest ih =>
    show name ∈ update key change
      (dict.insert (key first) (change (dict.lookup (key first)) first)) rest <-> _
    rw [ih, AList.mem_insert]
    constructor
    · rintro ((heq | hmem) | ⟨row, hrow, hkey⟩)
      · exact Or.inr ⟨first, mem_cons_self, heq.symm⟩
      · exact Or.inl hmem
      · exact Or.inr ⟨row, mem_cons_of_mem first hrow, hkey⟩
    · rintro (hmem | ⟨row, hrow, hkey⟩)
      · exact Or.inl (Or.inr hmem)
      · rcases mem_cons.mp hrow with heq | htail
        · exact Or.inl (Or.inl (heq ▸ hkey.symm))
        · exact Or.inr ⟨row, htail, hkey⟩

def listed (kind : K -> Bool) (dict : Dict K (List W)) : List W :=
  (dict.items.filter fun item => kind item.1).flatMap Prod.snd

theorem items_perm_erase (h : dict.lookup key = some value) :
    dict.items.Perm ((key, value) :: items (dict.erase key)) := by
  have hkey : key ∈ dict.entries.keys :=
    dlookup_isSome.mp (Option.isSome_iff_exists.mpr ⟨value, h⟩)
  rcases exists_of_kerase hkey with ⟨held, before, after, hbefore, hentries, herase⟩
  have hheld : held = value := by
    have hlookup : dict.entries.dlookup key = some value := h
    rw [hentries, dlookup_append, dlookup_eq_none.mpr hbefore, Option.none_or,
      dlookup_cons_eq] at hlookup
    exact Option.some.inj hlookup
  have hrest : (dict.erase key).entries = before ++ after := herase
  unfold items
  rw [hrest, hentries, hheld, map_append, map_append, map_cons]
  exact perm_middle

def extend (key : R -> K) (parts : R -> List W) (dict : Dict K (List W)) (rows : List R) :
    Dict K (List W) :=
  dict.update key (fun held row => held.getD [] ++ parts row) rows

theorem flatMap_filter_cons (kind : R -> Bool) (parts : R -> List W) (first : R) (rest : List R) :
    ((first :: rest).filter kind).flatMap parts =
      (if kind first = true then parts first else []) ++ (rest.filter kind).flatMap parts := by
  rw [filter_cons]
  by_cases hkind : kind first = true
  · rw [if_pos hkind, if_pos hkind, flatMap_cons]
  · rw [if_neg hkind, if_neg hkind, nil_append]

theorem listed_insert (kind : K -> Bool) (dict : Dict K (List W)) (key : K) (parts : List W) :
    (listed kind (dict.insert key ((dict.lookup key).getD [] ++ parts))).Perm
      (dict.listed kind ++ if kind key = true then parts else []) := by
  have hold : (dict.listed kind).Perm
      ((if kind key = true then (dict.lookup key).getD [] else []) ++
        listed kind (dict.erase key)) := by
    cases hheld : dict.lookup key with
    | none =>
      have habsent : key ∉ dict := AList.lookup_eq_none.mp hheld
      have hself : dict.erase key = dict := AList.ext (kerase_of_notMem_keys habsent)
      rw [hself, Option.getD_none, ite_self, nil_append]
    | some value =>
      have hperm := ((items_perm_erase hheld).filter fun item => kind item.1).flatMap_right
        Prod.snd
      rw [flatMap_filter_cons (fun item : K × List W => kind item.1)] at hperm
      exact hperm
  have hnew : listed kind (dict.insert key ((dict.lookup key).getD [] ++ parts)) =
      (if kind key = true then (dict.lookup key).getD [] ++ parts else []) ++
        listed kind (dict.erase key) :=
    flatMap_filter_cons (fun item : K × List W => kind item.1) Prod.snd _ _
  rw [hnew]
  by_cases hkind : kind key = true
  · rw [if_pos hkind] at hold ⊢
    rw [if_pos hkind, append_assoc]
    apply (perm_append_comm.append_left _).trans
    rw [← append_assoc]
    exact hold.symm.append_right parts
  · rw [if_neg hkind] at hold ⊢
    rw [if_neg hkind, append_nil]
    exact hold.symm

theorem listed_extend (kind : K -> Bool) (key : R -> K) (parts : R -> List W)
    (dict : Dict K (List W)) (rows : List R) :
    (listed kind (dict.extend key parts rows)).Perm
      (dict.listed kind ++ (rows.filter fun row => kind (key row)).flatMap parts) := by
  induction rows generalizing dict with
  | nil =>
    rw [filter_nil, flatMap_nil, append_nil]
    exact Perm.refl _
  | cons first rest ih =>
    have hstep := ih (dict.insert (key first) ((dict.lookup (key first)).getD [] ++ parts first))
    apply hstep.trans
    apply ((listed_insert kind dict (key first) (parts first)).append_right _).trans
    rw [append_assoc, flatMap_filter_cons fun row => kind (key row)]

theorem getD_lookup_extend (key : R -> K) (parts : R -> List W) (rows : List R) (name : K) :
    (((∅ : Dict K (List W)).extend key parts rows).lookup name).getD [] =
      (rows.filter fun row => key row = name).flatMap parts := by
  have hfold : forall (filed : List R) (held : Option (List W)),
      (filed.foldl (fun held row => some (held.getD [] ++ parts row)) held).getD [] =
        held.getD [] ++ filed.flatMap parts := by
    intro filed
    induction filed with
    | nil =>
      intro held
      rw [flatMap_nil, append_nil]
      rfl
    | cons first rest ih =>
      intro held
      rw [foldl_cons, ih, flatMap_cons, ← append_assoc]
      rfl
  unfold extend
  rw [lookup_update, hfold, AList.lookup_empty]
  rfl

variable {L : Type} [DecidableEq L]

/-- The entry of an inner dictionary that one row updates; a new one starts as `base`. -/
def updateInner (base : Dict L V) (part : R -> L) (change : Option V -> R -> V)
    (held : Option (Dict L V)) (row : R) : Dict L V :=
  (held.getD base).insert (part row) (change ((held.getD base).lookup (part row)) row)

theorem getD_foldl_updateInner (base : Dict L V) (part : R -> L) (change : Option V -> R -> V)
    (held : Option (Dict L V)) (rows : List R) :
    (rows.foldl (fun current row => some (updateInner base part change current row)) held).getD
        base =
      update part change (held.getD base) rows := by
  induction rows generalizing held with
  | nil => rfl
  | cons first rest ih => exact ih (some (updateInner base part change held first))

theorem lookup_update_updateInner (key : R -> K) (part : R -> L) (change : Option V -> R -> V)
    (rows : List R) (name : K) (inner : L) :
    (((∅ : Dict K (Dict L V)).update key (updateInner ∅ part change) rows).lookup name).bind
        (fun dict => dict.lookup inner) =
      (rows.filter fun row => key row = name ∧ part row = inner).foldl
        (fun current row => some (change current row)) none := by
  have hgetD : forall held : Option (Dict L V),
      held.bind (fun dict => dict.lookup inner) = (held.getD ∅).lookup inner := by
    intro held
    cases held with
    | none => rfl
    | some dict => rfl
  rw [lookup_update, hgetD, getD_foldl_updateInner, lookup_update, filter_filter]
  have hfilter : (rows.filter fun row => decide (part row = inner) && decide (key row = name)) =
      rows.filter fun row => key row = name ∧ part row = inner :=
    filter_congr fun row _ => by
      simp [Bool.and_comm]
  rw [hfilter]
  rfl

end Dict
end Icsw.Foundation
