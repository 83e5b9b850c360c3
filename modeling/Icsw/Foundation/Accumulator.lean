import Mathlib.Algebra.Order.BigOperators.Group.List
import Mathlib.Tactic.Ring
import Mathlib.Tactic.Linarith

/-!
# Summing dictionaries

A dictionary whose missing keys read as zero and whose entries are only ever
increased in place.  The entries keep their keys distinct, so that the value
stored under a key and the value read back under it are the same number.
-/

namespace Icsw.Foundation

open List

structure Accumulator (α : Type) where
  entries : List (α × ℚ)
  keys_nodup : (entries.map Prod.fst).Nodup

namespace Accumulator

variable {α : Type}

def empty : Accumulator α where
  entries := []
  keys_nodup := nodup_nil

/-- Sum of all stored values. -/
def total (acc : Accumulator α) : ℚ :=
  (acc.entries.map Prod.snd).sum

@[simp] theorem total_empty : (empty : Accumulator α).total = 0 := rfl

/-- Sum of the values stored under keys of a kind. -/
def totalOf (kind : α -> Bool) (acc : Accumulator α) : ℚ :=
  ((acc.entries.filter fun entry => kind entry.1).map Prod.snd).sum

@[simp] theorem totalOf_empty (kind : α -> Bool) : (empty : Accumulator α).totalOf kind = 0 := rfl

variable [DecidableEq α]

/-- Value read under a key; a key that was never written reads as zero. -/
def getFrom : List (α × ℚ) -> α -> ℚ
  | [], _ => 0
  | (key', value) :: rest, key =>
    if key' = key then value else getFrom rest key

def get (acc : Accumulator α) (key : α) : ℚ :=
  getFrom acc.entries key

def addTo : List (α × ℚ) -> α -> ℚ -> List (α × ℚ)
  | [], key, value => [(key, value)]
  | (key', old) :: rest, key, value =>
    if key' = key then (key', old + value) :: rest
    else (key', old) :: addTo rest key value

variable {entries : List (α × ℚ)} {value : ℚ}

theorem mem_keys_addTo {key key' : α} (h : key' ∈ (addTo entries key value).map Prod.fst) :
    key' = key ∨ key' ∈ entries.map Prod.fst := by
  induction entries with
  | nil =>
    left
    simpa [addTo] using h
  | cons entry rest ih =>
    rcases entry with ⟨other, old⟩
    by_cases hkey : other = key
    · simp only [addTo, if_pos hkey, map_cons, mem_cons] at h ⊢
      rcases h with h | h
      · exact Or.inr (Or.inl h)
      · exact Or.inr (Or.inr h)
    · simp only [addTo, if_neg hkey, map_cons, mem_cons] at h ⊢
      rcases h with h | h
      · exact Or.inr (Or.inl h)
      · rcases ih h with h' | h'
        · exact Or.inl h'
        · exact Or.inr (Or.inr h')

theorem nodup_keys_addTo (key : α) (value : ℚ) (h : (entries.map Prod.fst).Nodup) :
    ((addTo entries key value).map Prod.fst).Nodup := by
  induction entries with
  | nil => simp [addTo]
  | cons entry rest ih =>
    rcases entry with ⟨other, old⟩
    rw [map_cons, nodup_cons] at h
    by_cases hkey : other = key
    · simpa [addTo, hkey] using h
    · rw [addTo, if_neg hkey, map_cons, nodup_cons]
      constructor
      · intro hmem
        rcases mem_keys_addTo hmem with heq | hrest
        · exact hkey heq
        · exact h.left hrest
      · exact ih h.right

/-- `acc[key] += value`. -/
def add (acc : Accumulator α) (key : α) (value : ℚ) : Accumulator α where
  entries := addTo acc.entries key value
  keys_nodup := nodup_keys_addTo key value acc.keys_nodup

@[simp] theorem get_empty (key : α) : (empty : Accumulator α).get key = 0 := rfl

theorem getFrom_addTo (entries : List (α × ℚ)) (key key' : α) (value : ℚ) :
    getFrom (addTo entries key value) key' =
      getFrom entries key' + if key = key' then value else 0 := by
  induction entries with
  | nil =>
    by_cases h : key = key' <;> simp [addTo, getFrom, h]
  | cons entry rest ih =>
    rcases entry with ⟨other, old⟩
    by_cases hkey : other = key
    · by_cases h : key = key'
      · simp [addTo, getFrom, hkey, h]
      · simp [addTo, getFrom, hkey, h]
    · by_cases h : other = key'
      · have hne : key ≠ key' := fun heq => hkey (h.trans heq.symm)
        rw [addTo, if_neg hkey]
        simp [getFrom, h, hne]
      · simp [addTo, getFrom, hkey, h, ih]

theorem get_add (acc : Accumulator α) (key key' : α) (value : ℚ) :
    (acc.add key value).get key' =
      acc.get key' + if key = key' then value else 0 :=
  getFrom_addTo acc.entries key key' value

theorem sum_addTo (entries : List (α × ℚ)) (key : α) (value : ℚ) :
    ((addTo entries key value).map Prod.snd).sum =
      (entries.map Prod.snd).sum + value := by
  induction entries with
  | nil => simp [addTo]
  | cons entry rest ih =>
    rcases entry with ⟨other, old⟩
    by_cases hkey : other = key
    · simp only [addTo, if_pos hkey, map_cons, sum_cons]
      ring
    · simp only [addTo, if_neg hkey, map_cons, sum_cons, ih]
      ring

@[simp] theorem total_add (acc : Accumulator α) (key : α) (value : ℚ) :
    (acc.add key value).total = acc.total + value :=
  sum_addTo acc.entries key value

theorem getFrom_of_mem {key : α}
    (hnodup : (entries.map Prod.fst).Nodup) (h : (key, value) ∈ entries) :
    getFrom entries key = value := by
  induction entries with
  | nil => cases h
  | cons entry rest ih =>
    rcases entry with ⟨other, old⟩
    rw [map_cons, nodup_cons] at hnodup
    rcases mem_cons.mp h with heq | hrest
    · cases heq
      simp [getFrom]
    · have hne : other ≠ key := by
        intro heq
        apply hnodup.left
        rw [heq]
        exact mem_map.mpr ⟨(key, value), hrest, rfl⟩
      simp [getFrom, hne, ih hnodup.right hrest]

variable {acc : Accumulator α}

theorem get_of_mem {key : α} (h : (key, value) ∈ acc.entries) : acc.get key = value :=
  getFrom_of_mem acc.keys_nodup h

theorem getFrom_eq_zero_or_mem (entries : List (α × ℚ)) (key : α) :
    getFrom entries key = 0 ∨ (key, getFrom entries key) ∈ entries := by
  induction entries with
  | nil => exact Or.inl rfl
  | cons entry rest ih =>
    rcases entry with ⟨other, old⟩
    by_cases hkey : other = key
    · right
      simp [getFrom, hkey]
    · rcases ih with ih | ih
      · left
        simp [getFrom, hkey, ih]
      · right
        simp [getFrom, hkey, ih]

theorem get_eq_zero_or_mem (acc : Accumulator α) (key : α) :
    acc.get key = 0 ∨ (key, acc.get key) ∈ acc.entries :=
  getFrom_eq_zero_or_mem acc.entries key

theorem totalOf_add (kind : α -> Bool) (acc : Accumulator α) (key : α) (value : ℚ) :
    (acc.add key value).totalOf kind = acc.totalOf kind + if kind key then value else 0 := by
  show (((addTo acc.entries key value).filter fun entry => kind entry.1).map Prod.snd).sum =
    ((acc.entries.filter fun entry => kind entry.1).map Prod.snd).sum + _
  induction acc.entries with
  | nil => cases hkind : kind key <;> simp [addTo, hkind]
  | cons entry rest ih =>
    rcases entry with ⟨other, old⟩
    by_cases hkey : other = key
    · subst hkey
      rw [addTo, if_pos rfl]
      cases hkind : kind other with
      | false => simp [hkind]
      | true =>
        simp only [filter_cons, hkind, if_true, map_cons, sum_cons]
        ring
    · rw [addTo, if_neg hkey]
      cases hother : kind other with
      | false =>
        simp only [filter_cons, hother, Bool.false_eq_true, if_false]
        exact ih
      | true =>
        simp only [filter_cons, hother, if_true, map_cons, sum_cons, ih]
        ring

/-- `acc[key] += value` for each of the pairs. -/
def addAll (acc : Accumulator α) (additions : List (α × ℚ)) : Accumulator α :=
  additions.foldl (fun acc addition => acc.add addition.1 addition.2) acc

theorem totalOf_addAll (kind : α -> Bool) (acc : Accumulator α) (additions : List (α × ℚ)) :
    (acc.addAll additions).totalOf kind = acc.totalOf kind +
      ((additions.filter fun addition => kind addition.1).map Prod.snd).sum := by
  induction additions generalizing acc with
  | nil => simp [addAll]
  | cons addition rest ih =>
    show ((acc.add addition.1 addition.2).addAll rest).totalOf kind = _
    rw [ih, totalOf_add]
    cases hkind : kind addition.1 with
    | false => simp [hkind]
    | true =>
      simp only [filter_cons, hkind, if_true, map_cons, sum_cons]
      ring

theorem total_addAll (acc : Accumulator α) (additions : List (α × ℚ)) :
    (acc.addAll additions).total = acc.total + (additions.map Prod.snd).sum := by
  have htotal : forall acc : Accumulator α, acc.total = acc.totalOf fun _ => true := by
    intro acc
    unfold total totalOf
    rw [filter_true]
  rw [htotal, htotal, totalOf_addAll, filter_true]

theorem get_addAll (acc : Accumulator α) (additions : List (α × ℚ)) (key : α) :
    (acc.addAll additions).get key = acc.get key +
      ((additions.filter fun addition => decide (addition.1 = key)).map Prod.snd).sum := by
  induction additions generalizing acc with
  | nil => exact (add_zero _).symm
  | cons addition rest ih =>
    show ((acc.add addition.1 addition.2).addAll rest).get key = _
    rw [ih, get_add, filter_cons]
    by_cases hkey : addition.1 = key
    · rw [if_pos hkey, if_pos (decide_eq_true hkey), map_cons, sum_cons, add_assoc]
    · rw [if_neg hkey, if_neg (ne_true_of_eq_false (decide_eq_false hkey)), add_zero]

theorem get_addAll_nonneg (hacc : forall key, 0 ≤ acc.get key)
    {additions : List (α × ℚ)} (h : forall addition, addition ∈ additions -> 0 ≤ addition.2)
    (key : α) : 0 ≤ (acc.addAll additions).get key := by
  induction additions generalizing acc with
  | nil => exact hacc key
  | cons addition rest ih =>
    apply ih
    · intro other
      rw [get_add]
      have hvalue := h addition mem_cons_self
      have hold := hacc other
      split <;> linarith
    · exact fun other hother => h other (mem_cons_of_mem _ hother)

theorem mem_keys_addAll {additions : List (α × ℚ)} {key : α}
    (h : key ∈ (acc.addAll additions).entries.map Prod.fst) :
    key ∈ acc.entries.map Prod.fst ∨ key ∈ additions.map Prod.fst := by
  induction additions generalizing acc with
  | nil => exact Or.inl h
  | cons addition rest ih =>
    rcases ih h with hold | hrest
    · rcases mem_keys_addTo hold with rfl | hkey
      · exact Or.inr mem_cons_self
      · exact Or.inl hkey
    · exact Or.inr (mem_cons_of_mem _ hrest)

theorem le_totalOf (hacc : forall key, 0 ≤ acc.get key)
    {kind : α -> Bool} {key : α} (h : (key, value) ∈ acc.entries)
    (hkind : kind key = true) : value ≤ acc.totalOf kind := by
  apply single_le_sum
  · intro other hother
    rcases mem_map.mp hother with ⟨⟨key', value'⟩, hmem, rfl⟩
    rw [← get_of_mem (mem_filter.mp hmem).left]
    exact hacc key'
  · exact mem_map.mpr ⟨(key, value), mem_filter.mpr ⟨h, hkind⟩, rfl⟩

/-!
## Distributions

When the values sum to one, being between zero and one is the same as being
non-negative.
-/

theorem entries_in_unit_iff (acc : Accumulator α) (htotal : acc.total = 1) :
    (forall key value, (key, value) ∈ acc.entries -> 0 ≤ value ∧ value ≤ 1) <->
      forall key, 0 ≤ acc.get key := by
  constructor
  · intro h key
    rcases acc.get_eq_zero_or_mem key with hzero | hmem
    · rw [hzero]
    · exact (h key _ hmem).left
  · intro h key value hmem
    have hnonneg : forall v, v ∈ acc.entries.map Prod.snd -> 0 ≤ v := by
      intro v hv
      rcases mem_map.mp hv with ⟨⟨k, w⟩, hkw, rfl⟩
      have hget := h k
      rwa [get_of_mem hkw] at hget
    have hvmem : value ∈ acc.entries.map Prod.snd := mem_map.mpr ⟨(key, value), hmem, rfl⟩
    constructor
    · exact hnonneg value hvmem
    · calc value ≤ (acc.entries.map Prod.snd).sum :=
          single_le_sum hnonneg value hvmem
        _ = 1 := htotal

end Accumulator

end Icsw.Foundation
