import Mathlib.Order.Lattice

/-!
# Grids on the time line

A grid cuts the integers into consecutive frames: every point lies in the frame that its index
names. A boundary of one grid may fall inside a frame of another.
-/

namespace Icsw.Foundation

-- The order is named, as the one that is found otherwise depends on what is imported.
local instance intPreorder : Preorder Int := Int.instLinearOrder.toPreorder

structure Grid where
  start : Int -> Int
  index : Int -> Int
  start_strictMono : StrictMono start
  start_index_le : forall t, start (index t) ≤ t
  lt_start_index_succ : forall t, t < start (index t + 1)

namespace Grid

variable (grid : Grid)

/-- The first boundary after a point. -/
def next (t : Int) : Int := grid.start (grid.index t + 1)

theorem start_le_start {i j : Int} : grid.start i ≤ grid.start j <-> i ≤ j :=
  grid.start_strictMono.le_iff_le

theorem start_lt_start {i j : Int} : grid.start i < grid.start j <-> i < j :=
  grid.start_strictMono.lt_iff_lt

theorem start_le_iff {i t : Int} : grid.start i ≤ t <-> i ≤ grid.index t := by
  constructor
  · intro hle
    have hlt := lt_of_le_of_lt hle (grid.lt_start_index_succ t)
    have hindex := grid.start_lt_start.mp hlt
    omega
  · intro hle
    exact le_trans (grid.start_le_start.mpr hle) (grid.start_index_le t)

theorem lt_start_iff {i t : Int} : t < grid.start i <-> grid.index t < i := by
  rw [← not_le, grid.start_le_iff, not_le]

theorem index_eq {i t : Int} (hle : grid.start i ≤ t) (hlt : t < grid.start (i + 1)) :
    grid.index t = i := by
  have hlower := grid.start_le_iff.mp hle
  have hupper := grid.lt_start_iff.mp hlt
  omega

@[simp] theorem index_start (i : Int) : grid.index (grid.start i) = i :=
  grid.index_eq (le_refl _) (grid.start_lt_start.mpr (Int.lt_succ i))

theorem start_injective : Function.Injective grid.start := grid.start_strictMono.injective

def Refines (fine coarse : Grid) : Prop := forall i, exists j, coarse.start i = fine.start j

/--
Where the frames have been used up to `n`, and the frame from there on is not over at `limit`, no
boundary before `limit` stands behind the used ones.
-/
theorem start_le_of_lt_limit {j n limit : Int} (hj : grid.start j < limit)
    (hn : limit ≤ grid.start (n + 1)) : grid.start j ≤ grid.start n := by
  have hlt := grid.start_lt_start.mp (lt_of_lt_of_le hj hn)
  exact grid.start_le_start.mpr (by omega)

/-- Frames of one length. -/
def uniform (offset step : Int) (hstep : 0 < step) : Grid where
  start i := offset + i * step
  index t := (t - offset) / step
  start_strictMono := by
    intro i j hlt
    have hmul := Int.mul_lt_mul_of_pos_right hlt hstep
    show offset + i * step < offset + j * step
    omega
  start_index_le t := by
    have hmul := Int.ediv_mul_le (t - offset) (ne_of_gt hstep)
    show offset + (t - offset) / step * step ≤ t
    omega
  lt_start_index_succ t := by
    have hmul := Int.lt_ediv_add_one_mul_self (t - offset) hstep
    show t < offset + ((t - offset) / step + 1) * step
    omega

/-- Every `count` frames of a grid taken together. -/
def every (count : Int) (hcount : 0 < count) : Grid where
  start i := grid.start (i * count)
  index t := grid.index t / count
  start_strictMono := by
    intro i j hlt
    exact grid.start_lt_start.mpr (Int.mul_lt_mul_of_pos_right hlt hcount)
  start_index_le t := by
    apply grid.start_le_iff.mpr
    exact Int.ediv_mul_le (grid.index t) (ne_of_gt hcount)
  lt_start_index_succ t := by
    apply grid.lt_start_iff.mpr
    exact Int.lt_ediv_add_one_mul_self (grid.index t) hcount

def scaled (unit : Int) (hunit : 0 < unit) : Grid where
  start i := grid.start i * unit
  index t := grid.index (t / unit)
  start_strictMono := by
    intro i j hlt
    exact Int.mul_lt_mul_of_pos_right (grid.start_lt_start.mpr hlt) hunit
  start_index_le t := by
    have hle := grid.start_index_le (t / unit)
    exact (Int.le_ediv_iff_mul_le hunit).mp hle
  lt_start_index_succ t := by
    have hlt := grid.lt_start_index_succ (t / unit)
    exact (Int.ediv_lt_iff_lt_mul hunit).mp hlt

end Grid

end Icsw.Foundation
