import Mathlib.Data.Int.Interval
import Mathlib.Tactic.Ring
import Mathlib.Tactic.Linarith

/-!
# Lists of dated items

A list of dated items describes what is in force at each instant: the latest item dated at or
before it, and of items of one date the later one.  Time is discrete, so the time spent in a state
is a number of ticks.
-/

namespace Icsw.Foundation
namespace DatedList

open List

variable {α : Type} (date : α -> Int)

/-- The later of two optional items, the second one on equal dates. -/
def newer : Option α -> Option α -> Option α
  | none, second => second
  | some first, none => some first
  | some first, some second =>
    if date second < date first then some first else some second

def pick (item : α) (instant : Int) : Option α :=
  if date item ≤ instant then some item else none

def latest : List α -> Int -> Option α
  | [], _ => none
  | item :: rest, instant => newer date (pick date item instant) (latest rest instant)

@[simp] theorem newer_none_left (second : Option α) : newer date none second = second := by
  cases second <;> rfl

@[simp] theorem newer_none_right (first : Option α) : newer date first none = first := by
  cases first <;> rfl

theorem newer_assoc (x y z : Option α) :
    newer date (newer date x y) z = newer date x (newer date y z) := by
  cases x with
  | none => simp
  | some a =>
    cases y with
    | none => simp
    | some b =>
      cases z with
      | none => simp
      | some c =>
        simp only [newer]
        by_cases hab : date b < date a <;> by_cases hbc : date c < date b
        · have hac : date c < date a := lt_trans hbc hab
          simp [hab, hbc, hac]
        · simp [hab, hbc]
        · simp [hab, hbc]
        · have hac : ¬ date c < date a := by omega
          simp [hab, hbc, hac]

theorem newer_comm_of_ne {a b : α} (h : date a ≠ date b) :
    newer date (some a) (some b) = newer date (some b) (some a) := by
  by_cases hab : date a < date b
  · have hba : ¬ date b < date a := by omega
    simp [newer, hab, hba]
  · have hba : date b < date a := by omega
    simp [newer, hab, hba]

theorem newer_eq_or (x y : Option α) : newer date x y = x ∨ newer date x y = y := by
  cases x with
  | none => right; simp
  | some a =>
    cases y with
    | none => left; simp
    | some b =>
      by_cases h : date b < date a
      · left; simp [newer, h]
      · right; simp [newer, h]

theorem latest_append (left right : List α) (instant : Int) :
    latest date (left ++ right) instant =
      newer date (latest date left instant) (latest date right instant) := by
  induction left with
  | nil => simp [latest]
  | cons item rest ih =>
    rw [cons_append, latest, latest, ih, newer_assoc]

variable {items : List α} {instant : Int}

theorem latest_mem {item : α} (h : latest date items instant = some item) :
    item ∈ items ∧ date item ≤ instant := by
  induction items with
  | nil => cases h
  | cons first rest ih =>
    rw [latest] at h
    rcases newer_eq_or date (pick date first instant)
      (latest date rest instant) with hfirst | hrest
    · rw [hfirst] at h
      by_cases hle : date first ≤ instant
      · rw [pick, if_pos hle] at h
        cases h
        exact ⟨mem_cons_self, hle⟩
      · rw [pick, if_neg hle] at h
        cases h
    · rw [hrest] at h
      exact ⟨mem_cons_of_mem first (ih h).left, (ih h).right⟩

theorem latest_max {item : α} (hmem : item ∈ items) (hdate : date item ≤ instant) :
    exists last, latest date items instant = some last ∧ date item ≤ date last := by
  induction items with
  | nil => cases hmem
  | cons first rest ih =>
    rw [latest]
    rcases mem_cons.mp hmem with heq | hrest
    · rw [heq] at hdate ⊢
      rw [pick, if_pos hdate]
      cases hlast : latest date rest instant with
      | none => exact ⟨first, rfl, le_refl _⟩
      | some other =>
        by_cases hlt : date other < date first
        · exact ⟨first, by simp [newer, hlt], le_refl _⟩
        · exact ⟨other, by simp [newer, hlt], by omega⟩
    · rcases ih hrest with ⟨last, hlast, hle⟩
      rw [hlast]
      by_cases hfirst : date first ≤ instant
      · rw [pick, if_pos hfirst]
        by_cases hlt : date last < date first
        · exact ⟨first, by simp [newer, hlt], by omega⟩
        · exact ⟨last, by simp [newer, hlt], hle⟩
      · rw [pick, if_neg hfirst]
        exact ⟨last, by simp, hle⟩

theorem latest_eq_none_iff : latest date items instant = none <->
      forall item, item ∈ items -> instant < date item := by
  constructor
  · intro h item hmem
    by_contra hnot
    rcases latest_max date hmem (not_lt.mp hnot) with ⟨last, hlast, _⟩
    rw [h] at hlast
    cases hlast
  · intro h
    cases hlast : latest date items instant with
    | none => rfl
    | some last =>
      have hmem := latest_mem date hlast
      have hlt := h last hmem.left
      omega

theorem latest_filter_of_latest {last : α}
    {p : α -> Bool} (h : latest date items instant = some last) (hp : p last = true) :
    latest date (items.filter p) instant = some last := by
  induction items with
  | nil => cases h
  | cons first rest ih =>
    rw [latest] at h
    rcases newer_eq_or date (pick date first instant)
      (latest date rest instant) with hfirst | hrest
    · rw [hfirst] at h
      have heq : first = last := by
        unfold pick at h
        split at h
        · exact Option.some.inj h
        · cases h
      subst heq
      rw [filter_cons_of_pos hp, latest, h]
      cases hkept : latest date (rest.filter p) instant with
      | none => simp
      | some other =>
        have hmem := latest_mem date hkept
        rcases latest_max date (mem_filter.mp hmem.left).left hmem.right with
          ⟨top, htop, hle⟩
        rw [h, htop] at hfirst
        by_cases hlt : date top < date first
        · have hother : date other < date first := lt_of_le_of_lt hle hlt
          simp [newer, hother]
        · have htie : some top = some first := by
            simpa [newer, hlt] using hfirst
          cases htie
          have htail := ih htop
          rw [hkept] at htail
          cases htail
          simp [newer]
    · rw [hrest] at h
      have htail := ih h
      by_cases hkeep : p first = true
      · rw [filter_cons_of_pos hkeep, latest, htail, ← h, hrest]
      · rw [filter_cons_of_neg hkeep]
        exact htail

theorem latest_filter_congr {p q : α -> Bool}
    (h : forall item, item ∈ items -> date item ≤ instant -> p item = q item) :
    latest date (items.filter p) instant = latest date (items.filter q) instant := by
  induction items with
  | nil => rfl
  | cons first rest ih =>
    have htail := ih (fun item hmem => h item (mem_cons_of_mem first hmem))
    by_cases hle : date first ≤ instant
    · have hpq := h first mem_cons_self hle
      by_cases hp : p first = true
      · rw [filter_cons_of_pos hp, filter_cons_of_pos (hpq ▸ hp), latest,
          latest, htail]
      · rw [filter_cons_of_neg hp, filter_cons_of_neg (hpq ▸ hp), htail]
    · have hskip : forall r : α -> Bool,
          latest date ((first :: rest).filter r) instant =
            latest date (rest.filter r) instant := by
        intro r
        by_cases hr : r first = true
        · rw [filter_cons_of_pos hr, latest, pick, if_neg hle, newer_none_left]
        · rw [filter_cons_of_neg hr]
      rw [hskip p, hskip q, htail]

theorem newer_latest_some (items : List α) (instant : Int) (item : α) :
    newer date (latest date items instant) (some item) =
      some ((latest date (items.filter (fun other => date item < date other))
        instant).getD item) := by
  cases hlast : latest date items instant with
  | none =>
    have hnone : latest date (items.filter (fun other => date item < date other))
        instant = none := by
      apply (latest_eq_none_iff date).mpr
      intro other hmem
      exact (latest_eq_none_iff date).mp hlast other (mem_filter.mp hmem).left
    simp [hnone]
  | some last =>
    by_cases hlt : date item < date last
    · rw [latest_filter_of_latest date hlast (by simpa using hlt)]
      simp [newer, hlt]
    · have hnone : latest date (items.filter (fun other => date item < date other))
          instant = none := by
        apply (latest_eq_none_iff date).mpr
        intro other hmem
        rcases mem_filter.mp hmem with ⟨hother, hdate⟩
        have hlater : date item < date other := by simpa using hdate
        by_contra hnot
        rcases latest_max date hother (not_lt.mp hnot) with ⟨top, htop, hle⟩
        rw [hlast] at htop
        cases htop
        exact hlt (lt_of_lt_of_le hlater hle)
      simp [newer, hlt, hnone]

/-!
## Stable sorting

Sorting by date keeps the order of items of one date, so it changes nothing
about which item is in force when.
-/

def sortByDate (items : List α) : List α :=
  items.insertionSort (fun a b => date a ≤ date b)

instance date_total : Std.Total (fun a b : α => date a ≤ date b) where
  total a b := le_total (date a) (date b)

instance date_trans : IsTrans α (fun a b : α => date a ≤ date b) where
  trans a b c := le_trans (a := date a) (b := date b) (c := date c)

def Sorted (items : List α) : Prop :=
  items.Pairwise (fun a b => date a ≤ date b)

theorem sorted_sortByDate (items : List α) : Sorted date (sortByDate date items) :=
  pairwise_insertionSort _ items

theorem mem_sortByDate {item : α} : item ∈ sortByDate date items <-> item ∈ items :=
  mem_insertionSort _

theorem sortByDate_of_sorted (h : Sorted date items) : sortByDate date items = items :=
  List.Pairwise.insertionSort_eq h

theorem orderedInsert_of_append {item added : α} {left right : List α}
    (h : Sorted date (added :: right)) :
    exists before after,
      (left ++ added :: right).orderedInsert (fun a b => date a ≤ date b) item =
        before ++ added :: after ∧
      (left ++ right).orderedInsert (fun a b => date a ≤ date b) item = before ++ after := by
  induction left with
  | nil =>
    by_cases hitem : date item ≤ date added
    · refine ⟨[item], right, orderedInsert_cons_of_le _ right hitem, ?_⟩
      cases right with
      | nil => rfl
      | cons first rest =>
        have hfirst : date added ≤ date first := (pairwise_cons.mp h).left first
          mem_cons_self
        exact orderedInsert_cons_of_le _ rest (le_trans hitem hfirst)
    · refine ⟨[], right.orderedInsert (fun a b => date a ≤ date b) item, ?_, rfl⟩
      exact orderedInsert_of_not_le _ right hitem
  | cons first rest ih =>
    by_cases hitem : date item ≤ date first
    · refine ⟨item :: first :: rest, right, ?_, ?_⟩
      · exact orderedInsert_cons_of_le _ _ hitem
      · exact orderedInsert_cons_of_le _ _ hitem
    · rcases ih with ⟨before, after, hwith, hwithout⟩
      refine ⟨first :: before, after, ?_, ?_⟩
      · rw [cons_append, List.orderedInsert, if_neg hitem, hwith]
        rfl
      · rw [cons_append, List.orderedInsert, if_neg hitem, hwithout]
        rfl

theorem sortByDate_append_singleton (items : List α) (added : α) :
    exists before after, sortByDate date (items ++ [added]) = before ++ added :: after ∧
      sortByDate date items = before ++ after := by
  induction items with
  | nil => exact ⟨[], [], rfl, rfl⟩
  | cons item rest ih =>
    rcases ih with ⟨before, after, hwith, hwithout⟩
    have hsorted : Sorted date (before ++ added :: after) :=
      hwith ▸ sorted_sortByDate date (rest ++ [added])
    show exists front back,
      (sortByDate date (rest ++ [added])).orderedInsert _ item = front ++ added :: back ∧
        (sortByDate date rest).orderedInsert _ item = front ++ back
    rw [hwith, hwithout]
    exact orderedInsert_of_append date (pairwise_append.mp hsorted).right.left

theorem latest_swap {a b : α} (items : List α) (instant : Int) (h : date a ≠ date b) :
    latest date (a :: b :: items) instant = latest date (b :: a :: items) instant := by
  simp only [latest]
  rw [← newer_assoc, ← newer_assoc]
  congr 1
  by_cases ha : date a ≤ instant <;> by_cases hb : date b ≤ instant
  · simp only [pick, if_pos ha, if_pos hb]
    exact newer_comm_of_ne date h
  · simp [pick, ha, hb]
  · simp [pick, ha, hb]
  · simp [pick, ha, hb]

theorem latest_orderedInsert (item : α) (items : List α) (instant : Int) :
    latest date (items.orderedInsert (fun a b => date a ≤ date b) item) instant =
      latest date (item :: items) instant := by
  induction items with
  | nil => rfl
  | cons first rest ih =>
    rw [List.orderedInsert]
    by_cases h : date item ≤ date first
    · rw [if_pos h]
    · rw [if_neg h]
      calc latest date (first :: rest.orderedInsert _ item) instant
          = newer date (pick date first instant)
              (latest date (item :: rest) instant) := by rw [latest, ih]
        _ = latest date (first :: item :: rest) instant := rfl
        _ = latest date (item :: first :: rest) instant := latest_swap date rest instant (by omega)

theorem latest_sortByDate (items : List α) (instant : Int) :
    latest date (sortByDate date items) instant = latest date items instant := by
  induction items with
  | nil => rfl
  | cons first rest ih =>
    have hsort : sortByDate date (first :: rest) =
        (sortByDate date rest).orderedInsert (fun a b => date a ≤ date b) first := rfl
    rw [hsort, latest_orderedInsert, latest, latest, ih]

theorem latest_getLast (hsorted : Sorted date items) {last : α}
    (hlast : items.getLast? = some last) (hle : date last ≤ instant) :
    latest date items instant = some last := by
  rcases List.getLast?_eq_some_iff.mp hlast with ⟨before, rfl⟩
  have hbefore := (pairwise_append.mp hsorted).right.right
  have hsingle : latest date [last] instant = some last := by
    rw [latest, pick, if_pos hle, latest, newer_none_right]
  rw [latest_append, hsingle]
  cases hfound : latest date before instant with
  | none => rfl
  | some item =>
    have hitem := hbefore item (latest_mem date hfound).left last mem_cons_self
    rw [newer, if_neg (not_lt.mpr hitem)]

theorem latest_append_later {item : α} (h : instant < date item) :
    latest date (items ++ [item]) instant = latest date items instant := by
  rw [latest_append, latest, pick, if_neg (not_le.mpr h), latest, newer_none_left,
    newer_none_right]

section Extreme

variable {α β : Type} [LinearOrder β]

theorem foldl_least (key : α -> β) (first : α) (rest : List α) :
    let least := rest.foldl (fun least item => if key item < key least then item else least) first
    least ∈ first :: rest ∧ forall other, other ∈ first :: rest -> key least ≤ key other := by
  induction rest using reverseRecOn with
  | nil => simp
  | append_singleton rest last ih =>
    rcases ih with ⟨hmem, hle⟩
    simp only [foldl_append, foldl_cons, foldl_nil, ← cons_append, forall_mem_append,
      forall_mem_singleton]
    split
    · next hless =>
        exact ⟨mem_append_right _ mem_cons_self, fun other hother => hless.le.trans (hle other hother),
          le_rfl⟩
    · next hless => exact ⟨mem_append_left _ hmem, hle, not_lt.mp hless⟩

/-- The item with the largest key, the first one where there are several. -/
def largest (key : α -> β) (best : Option α) (item : α) : Option α :=
  best.elim (some item) fun held => if key held < key item then some item else some held

theorem foldl_largest (key : α -> β) (items : List α) :
    match items.foldl (largest key) none with
    | none => items = []
    | some best => best ∈ items ∧ forall other, other ∈ items -> key other ≤ key best := by
  induction items using reverseRecOn with
  | nil => rfl
  | append_singleton items new ih =>
    rw [foldl_append, foldl_cons, foldl_nil]
    cases hbest : items.foldl (largest key) none with
    | none =>
      rw [hbest] at ih
      exact ⟨by simp, by simp [ih]⟩
    | some held =>
      rw [hbest] at ih
      by_cases hless : key held < key new
      · simp only [largest, Option.elim, if_pos hless]
        exact ⟨by simp, forall_mem_append.mpr
          ⟨fun other hother => (ih.right other hother).trans hless.le, by simp⟩⟩
      · simp only [largest, Option.elim, if_neg hless]
        exact ⟨by simp [ih.left], forall_mem_append.mpr ⟨ih.right, by simpa using hless⟩⟩

end Extreme

end DatedList
end Icsw.Foundation
