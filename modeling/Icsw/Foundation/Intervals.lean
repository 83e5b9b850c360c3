import Icsw.Foundation.DatedList

/-!
# Instants and intervals

Points in time at equal distances, and which of them is the last one before a time.  Intervals are
closed at their start and open at their end.
-/

namespace Icsw.Foundation

open List

def instant (start : Int) (step index : Nat) : Int := start + index * step

theorem instant_succ (start : Int) (step index : Nat) :
    instant start step (index + 1) = instant start step index + step := by
  unfold instant
  rw [Nat.cast_add, Nat.cast_one]
  ring

variable {step index other : Nat}

theorem instant_le {start : Int} (h : index ≤ other) :
    instant start step index ≤ instant start step other := by
  unfold instant
  have hle : (index : Int) * step ≤ other * step :=
    Int.mul_le_mul_of_nonneg_right (Int.ofNat_le.mpr h) (Int.natCast_nonneg step)
  omega

theorem instant_lt {start : Int} (hstep : 0 < step)
    (h : index < other) : instant start step index < instant start step other := by
  have hnext : instant start step (index + 1) ≤ instant start step other :=
    instant_le (Nat.succ_le_of_lt h)
  rw [instant_succ] at hnext
  omega

variable {start time : Int}

theorem div_eq_iff {step index : Nat} (hstep : 0 < step) :
    (time - start) / (step : Int) = index <->
      instant start step index ≤ time ∧ time < instant start step (index + 1) := by
  have hpos : (0 : Int) < step := Int.natCast_pos.mpr hstep
  have hlow : instant start step index ≤ time <-> (index : Int) ≤ (time - start) / step := by
    rw [Int.le_ediv_iff_mul_le hpos]
    unfold instant
    constructor <;> intro h <;> omega
  have hhigh : time < instant start step (index + 1) <->
      (time - start) / step < (index : Int) + 1 := by
    rw [Int.ediv_lt_iff_lt_mul hpos, instant_succ, add_mul, one_mul]
    unfold instant
    constructor <;> intro h <;> omega
  rw [hlow, hhigh]
  omega

theorem div_nonneg_iff {step : Nat} (hstep : 0 < step) :
    0 ≤ (time - start) / (step : Int) <-> start ≤ time := by
  rw [Int.le_ediv_iff_mul_le (Int.natCast_pos.mpr hstep)]
  omega

theorem exists_instant {step : Nat} (hstep : 0 < step) (h : start ≤ time) :
    exists index, instant start step index ≤ time ∧ time < instant start step (index + 1) ∧
      (time - start) / (step : Int) = (index : Int) := by
  have hnonneg := (div_nonneg_iff hstep).mpr h
  have hindex : (time - start) / (step : Int) = ((time - start) / (step : Int)).toNat :=
    (Int.toNat_of_nonneg hnonneg).symm
  rcases (div_eq_iff hstep).mp hindex with ⟨hlow, hhigh⟩
  exact ⟨_, hlow, hhigh, hindex⟩

/-!
## Intervals in a schedule

Intervals are closed at their start and open at their end.  They are placed one after the other, in
any order of their dates; what is known of each one when it is placed bounds how many overlap.
-/

namespace Intervals

open DatedList

variable {α : Type}

/-- `items[-count]`, where there are that many items. -/
def nthLast (count : Nat) (items : List α) : Option α :=
  if count ≤ items.length then items[items.length - count]? else none

variable (run finish : α -> Int)

/-- How many intervals of a kind take place at an instant. -/
def runningAt (kind : α -> Bool) (instant : Int) (items : List α) : Nat :=
  items.countP fun item => kind item && decide (run item ≤ instant ∧ instant < finish item)

theorem countP_lt_of_nthLast {count : Nat} (hcount : 0 < count) {items : List α}
    (hsorted : Sorted finish items) {date : Int}
    (h : forall item, nthLast count items = some item -> finish item ≤ date) :
    (items.countP fun item => date < finish item) < count := by
  by_cases hle : count ≤ items.length
  · have hindex : items.length - count < items.length := by omega
    have hnth : nthLast count items = some items[items.length - count] := by
      unfold nthLast
      rw [if_pos hle, getElem?_eq_getElem hindex]
    have hdate := h _ hnth
    have hsplit := take_append_drop (items.length - count) items
    rw [drop_eq_getElem_cons hindex] at hsplit
    rw [← hsplit] at hsorted
    have hearly : forall item, item ∈ items.take (items.length - count) ++
        [items[items.length - count]] -> ¬ date < finish item := by
      intro item hmem
      rcases mem_append.mp hmem with htake | hlast
      · have hbefore := (pairwise_append.mp hsorted).right.right item htake _
          mem_cons_self
        exact not_lt.mpr (hbefore.trans hdate)
      · rw [mem_singleton.mp hlast]
        exact not_lt.mpr hdate
    have hzero : (items.take (items.length - count) ++ [items[items.length - count]]).countP
        (fun item => date < finish item) = 0 :=
      countP_eq_zero.mpr fun item hmem hlt => hearly item hmem (of_decide_eq_true hlt)
    have hlength : (items.drop (items.length - count + 1)).length < count := by
      rw [length_drop]
      omega
    calc (items.countP fun item => date < finish item)
        = ((items.take (items.length - count) ++ [items[items.length - count]]) ++
            items.drop (items.length - count + 1)).countP fun item => date < finish item := by
          rw [append_assoc, singleton_append, hsplit]
      _ = (items.drop (items.length - count + 1)).countP fun item => date < finish item := by
          rw [countP_append, hzero, Nat.zero_add]
      _ ≤ (items.drop (items.length - count + 1)).length := countP_le_length
      _ < count := hlength
  · exact lt_of_le_of_lt countP_le_length (not_le.mp hle)

theorem runningAt_concat_le {kind : α -> Bool} {limit : Nat} {items : List α} {item : α}
    (hitems : forall instant, runningAt run finish kind instant items ≤ limit)
    (hitem : kind item = true ->
      (items.countP fun other => kind other && decide (run item < finish other)) < limit)
    (instant : Int) : runningAt run finish kind instant (items ++ [item]) ≤ limit := by
  unfold runningAt at hitems ⊢
  rw [countP_append, countP_singleton]
  split
  · rename_i hrunning
    rcases Bool.and_eq_true_iff.mp hrunning with ⟨hkind, hinstant⟩
    have hstart := (of_decide_eq_true hinstant).left
    have hfewer : (items.countP fun other =>
        kind other && decide (run other ≤ instant ∧ instant < finish other)) ≤
        items.countP fun other => kind other && decide (run item < finish other) := by
      apply countP_mono_left
      intro other _ hother
      rcases Bool.and_eq_true_iff.mp hother with ⟨hkind', hinstant'⟩
      exact Bool.and_eq_true_iff.mpr ⟨hkind',
        decide_eq_true (hstart.trans_lt (of_decide_eq_true hinstant').right)⟩
    have hlimit := hitem hkind
    omega
  · exact hitems instant

end Intervals

end Icsw.Foundation
