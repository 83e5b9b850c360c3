import Mathlib.Data.List.Pairwise
import Mathlib.Order.Nat

/-!
# Runs of consecutive numbers

A list in increasing order is taken apart where a number is missing.  Each run is kept as its first
and its last element.
-/

namespace Icsw.Foundation

open List

variable {α : Type} {key : α -> Nat}

def runsFrom (key : α -> Nat) (first last : α) : List α -> List (α × α)
  | [] => [(first, last)]
  | item :: rest =>
    if key item = key last + 1 then runsFrom key first item rest
    else (first, last) :: runsFrom key item item rest

def runs (key : α -> Nat) : List α -> List (α × α)
  | [] => []
  | item :: rest => runsFrom key item item rest

theorem runsFrom_ne_nil (key : α -> Nat) (first last : α) (items : List α) :
    runsFrom key first last items ≠ [] := by
  induction items generalizing first last with
  | nil => exact cons_ne_nil _ _
  | cons item rest ih =>
    unfold runsFrom
    split_ifs
    · exact ih first item
    · exact cons_ne_nil _ _

variable {first last : α}

variable {items : List α}

theorem runsFrom_forall {holds : Nat -> Prop}
    (hopen : forall number, key first ≤ number -> number ≤ key last -> holds number)
    (hitems : forall item, item ∈ items -> holds (key item)) {run : α × α}
    (h : run ∈ runsFrom key first last items) :
    forall number, key run.1 ≤ number -> number ≤ key run.2 -> holds number := by
  induction items generalizing first last with
  | nil =>
    rw [mem_singleton.mp h]
    exact hopen
  | cons item rest ih =>
    have hitem := hitems item mem_cons_self
    have hrest : forall other, other ∈ rest -> holds (key other) := fun other hother =>
      hitems other (mem_cons_of_mem item hother)
    unfold runsFrom at h
    split_ifs at h with hnext
    · refine ih (fun number hfirst hlast => ?_) hrest h
      by_cases heq : number = key item
      · rw [heq]
        exact hitem
      · exact hopen number hfirst (by omega)
    · rcases mem_cons.mp h with rfl | hmem
      · exact hopen
      · refine ih (fun number hfirst hlast => ?_) hrest hmem
        rw [show number = key item by omega]
        exact hitem

theorem runsFrom_ends {run : α × α} (h : run ∈ runsFrom key first last items) :
    (run.1 = first ∨ run.1 ∈ items) ∧ (run.2 = last ∨ run.2 ∈ items) := by
  induction items generalizing first last with
  | nil =>
    rw [mem_singleton.mp h]
    exact ⟨Or.inl rfl, Or.inl rfl⟩
  | cons item rest ih =>
    unfold runsFrom at h
    split_ifs at h with hnext
    · rcases ih h with ⟨hfirst, hlast⟩
      exact ⟨hfirst.imp_right (mem_cons_of_mem item), Or.inr (mem_cons.mpr hlast)⟩
    · rcases mem_cons.mp h with rfl | hmem
      · exact ⟨Or.inl rfl, Or.inl rfl⟩
      · rcases ih hmem with ⟨hfirst, hlast⟩
        exact ⟨Or.inr (mem_cons.mpr hfirst), Or.inr (mem_cons.mpr hlast)⟩

variable {number : Nat}

theorem exists_runFrom (hfirst : key first ≤ key last)
    (h : (key first ≤ number ∧ number ≤ key last) ∨ exists item, item ∈ items ∧ key item = number) :
    exists run, run ∈ runsFrom key first last items ∧ key run.1 ≤ number ∧ number ≤ key run.2 := by
  induction items generalizing first last with
  | nil =>
    rcases h with hopen | ⟨item, hitem, _⟩
    · exact ⟨_, mem_singleton.mpr rfl, hopen⟩
    · cases hitem
  | cons next rest ih =>
    unfold runsFrom
    split_ifs with hconsecutive
    · refine ih (by omega) ?_
      rcases h with ⟨hlow, hhigh⟩ | ⟨item, hitem, hkey⟩
      · exact Or.inl ⟨hlow, by omega⟩
      · rcases mem_cons.mp hitem with rfl | hlater
        · exact Or.inl ⟨by omega, hkey.ge⟩
        · exact Or.inr ⟨item, hlater, hkey⟩
    · rcases h with hopen | ⟨item, hitem, hkey⟩
      · exact ⟨_, mem_cons_self, hopen⟩
      · have hnext : (key next ≤ number ∧ number ≤ key next) ∨
            exists item, item ∈ rest ∧ key item = number := by
          rcases mem_cons.mp hitem with rfl | hlater
          · exact Or.inl ⟨hkey.le, hkey.ge⟩
          · exact Or.inr ⟨item, hlater, hkey⟩
        rcases ih (le_refl (key next)) hnext with ⟨run, hrun, hbounds⟩
        exact ⟨run, mem_cons_of_mem _ hrun, hbounds⟩

theorem runsFrom_le (hfirst : key first ≤ key last)
    {run : α × α} (h : run ∈ runsFrom key first last items) : key run.1 ≤ key run.2 := by
  induction items generalizing first last with
  | nil =>
    rw [mem_singleton.mp h]
    exact hfirst
  | cons next rest ih =>
    unfold runsFrom at h
    split_ifs at h with hconsecutive
    · exact ih (by omega) h
    · rcases mem_cons.mp h with rfl | hmem
      · exact hfirst
      · exact ih (le_refl _) hmem

theorem runsFrom_pairwise
    (hsorted : (last :: items).Pairwise fun item later => key item < key later) :
    (runsFrom key first last items).Pairwise fun run later => key run.2 + 1 < key later.1 := by
  induction items generalizing first last with
  | nil => exact pairwise_singleton _ _
  | cons next rest ih =>
    rcases pairwise_cons.mp hsorted with ⟨hlater, hrest⟩
    have hnext := hlater next mem_cons_self
    unfold runsFrom
    split_ifs with hconsecutive
    · exact ih hrest
    · refine pairwise_cons.mpr ⟨fun run hrun => ?_, ih hrest⟩
      show key last + 1 < key run.1
      rcases (runsFrom_ends hrun).left with heq | hmem
      · rw [heq]
        omega
      · have hgreater := (pairwise_cons.mp hrest).left _ hmem
        omega

theorem getLast?_runsFrom (key : α -> Nat) (first last : α) (items : List α) :
    (runsFrom key first last items).getLast?.map Prod.snd = (last :: items).getLast? := by
  induction items generalizing first last with
  | nil => rfl
  | cons next rest ih =>
    rw [getLast?_cons_cons]
    unfold runsFrom
    split_ifs with hconsecutive
    · exact ih first next
    · rw [getLast?_cons_of_ne_nil (runsFrom_ne_nil key next next rest)]
      exact ih next next

section Whole

variable {items : List α} {run : α × α}

theorem runs_ends (h : run ∈ runs key items) : run.1 ∈ items ∧ run.2 ∈ items := by
  cases items with
  | nil => cases h
  | cons item rest =>
    rcases runsFrom_ends h with ⟨hfirst, hlast⟩
    exact ⟨mem_cons.mpr hfirst, mem_cons.mpr hlast⟩

theorem exists_of_run (h : run ∈ runs key items) (hfirst : key run.1 ≤ number)
    (hlast : number ≤ key run.2) : exists item, item ∈ items ∧ key item = number := by
  cases items with
  | nil => cases h
  | cons item rest =>
    let holds : Nat -> Prop := fun number =>
      exists other, other ∈ item :: rest ∧ key other = number
    have hopen : forall number, key item ≤ number -> number ≤ key item -> holds number :=
      fun other hlow hhigh => ⟨item, mem_cons_self, Nat.le_antisymm hlow hhigh⟩
    have hitems : forall other, other ∈ rest -> holds (key other) := fun other hother =>
      ⟨other, mem_cons_of_mem item hother, rfl⟩
    exact runsFrom_forall hopen hitems h number hfirst hlast

theorem exists_run {item : α} (h : item ∈ items) :
    exists run, run ∈ runs key items ∧ key run.1 ≤ key item ∧ key item ≤ key run.2 := by
  cases items with
  | nil => cases h
  | cons first rest =>
    refine exists_runFrom (le_refl _) ?_
    rcases mem_cons.mp h with rfl | hmem
    · exact Or.inl ⟨le_refl _, le_refl _⟩
    · exact Or.inr ⟨item, hmem, rfl⟩

theorem runs_pairwise (hsorted : items.Pairwise fun item later => key item < key later) :
    (runs key items).Pairwise fun run later => key run.2 + 1 < key later.1 := by
  cases items with
  | nil => exact Pairwise.nil
  | cons first rest => exact runsFrom_pairwise hsorted

theorem runs_le (h : run ∈ runs key items) : key run.1 ≤ key run.2 := by
  cases items with
  | nil => cases h
  | cons first rest => exact runsFrom_le (le_refl _) h

theorem run_unique (hsorted : items.Pairwise fun item later => key item < key later)
    {other : α × α} (hrun : run ∈ runs key items) (hother : other ∈ runs key items)
    (hnumber : key run.1 ≤ number ∧ number ≤ key run.2)
    (hnext : (key other.1 ≤ number ∧ number ≤ key other.2) ∨
      (key other.1 ≤ number + 1 ∧ number + 1 ≤ key other.2)) : run = other := by
  have hsymm : Std.Symm fun run later : α × α =>
      key run.2 + 1 < key later.1 ∨ key later.2 + 1 < key run.1 :=
    { symm := fun _ _ h => h.symm }
  have hpairwise : (runs key items).Pairwise fun run later =>
      key run.2 + 1 < key later.1 ∨ key later.2 + 1 < key run.1 :=
    (runs_pairwise hsorted).imp fun h => Or.inl h
  by_contra hne
  rcases hpairwise.forall hrun hother hne with hbefore | hafter
  · omega
  · omega

theorem getLast?_runs (key : α -> Nat) (items : List α) :
    (runs key items).getLast?.map Prod.snd = items.getLast? := by
  cases items with
  | nil => rfl
  | cons first rest => exact getLast?_runsFrom key first first rest

end Whole
end Icsw.Foundation
