import Icsw.Foundation.Python
import Mathlib.Data.Rat.Floor

/-!
# Limits

A limits object keeps each threshold as a float and as an integer, and compares a measured value
with the one of its own type.
-/

namespace Icsw.Monitoring

open Foundation

inductive PyFloat where
  | finite (value : Rat)
  | infinity (negative : Bool)
  | nan
deriving DecidableEq

namespace PyFloat

/-- `first <= second`, which is never true of what is not a number. -/
def le : PyFloat -> PyFloat -> Bool
  | finite first, finite second => first ≤ second
  | infinity negative, finite _ => negative
  | finite _, infinity negative => !negative
  | infinity first, infinity second => first || !second
  | _, _ => false

/-- The part before the point, rounded towards zero. -/
def truncate (value : Rat) : Int := if 0 ≤ value then ⌊value⌋ else ⌈value⌉

/-- `int(value)` -/
def toInt : PyFloat -> Except PyError Int
  | finite value => .ok (truncate value)
  | infinity _ => .error .overflowError
  | nan => .error .valueError

end PyFloat

inductive Number where
  | int (value : Int)
  | float (value : PyFloat)
deriving DecidableEq

namespace Number

def exact : Number -> PyFloat
  | int value => .finite value
  | float value => value

/-- Integers and floats are compared by their exact values. -/
def le (first second : Number) : Bool := first.exact.le second.exact

end Number

def monStateCritical : Int := 2
def monStateWarning : Int := 1
def monStateOk : Int := 0

def checkCeiling (value : Number) (warn crit : Option Number) : Int :=
  if crit.any (fun limit => limit.le value) = true then monStateCritical
  else if warn.any (fun limit => limit.le value) = true then monStateWarning
  else monStateOk

def checkFloor (value : Number) (warn crit : Option Number) : Int :=
  if crit.any (fun limit => value.le limit) = true then monStateCritical
  else if warn.any (fun limit => value.le limit) = true then monStateWarning
  else monStateOk

structure Limits where
  warnVal : Option Int
  warnValF : Option PyFloat
  critVal : Option Int
  critValF : Option PyFloat
deriving DecidableEq

/-- The type of what is measured decides which thresholds are taken. -/
inductive Measured where
  | int (value : Int)
  | float (value : PyFloat)
  | other

namespace Limits

def empty : Limits where
  warnVal := none
  warnValF := none
  critVal := none
  critValF := none

section Init

variable {V : Type} (float : V -> Except PyError PyFloat)

/-- `float(val)` and its integer part; what raises leaves neither. -/
def convert (val : V) : Except PyError (PyFloat × Int) := do
  let f <- float val
  let i <- f.toInt
  return (f, i)

def setWarnVal (limits : Limits) (val : V) : Limits × Int :=
  match convert float val with
  | .ok (f, i) => ({ limits with warnValF := some f, warnVal := some i }, 1)
  | .error _ => ({ limits with warnValF := none, warnVal := none }, 0)

def setCritVal (limits : Limits) (val : V) : Limits × Int :=
  match convert float val with
  | .ok (f, i) => ({ limits with critValF := some f, critVal := some i }, 1)
  | .error _ => ({ limits with critValF := none, critVal := none }, 0)

def init (warnVal critVal : Option V) : Limits :=
  let limits := warnVal.elim empty fun val => (empty.setWarnVal float val).1
  critVal.elim limits fun val => (limits.setCritVal float val).1

end Init

/-- The worse level comes first, and each level has its threshold. -/
def grade (critical warning : Bool) : Int × Text :=
  let graded := if critical = true then (monStateCritical, "Critical".toList)
    else (monStateOk, "OK".toList)
  if warning = true ∧ graded.1 = monStateOk then (monStateWarning, "Warning".toList) else graded

def checkCeiling (limits : Limits) (val : Measured) : Int × Text :=
  match val with
  | .float f => grade (limits.critValF.any fun limit => limit.le f)
      (limits.warnValF.any fun limit => limit.le f)
  | .int i => grade (limits.critVal.any fun limit => decide (limit ≤ i))
      (limits.warnVal.any fun limit => decide (limit ≤ i))
  | .other => (monStateCritical, "TypeError".toList)

def checkFloor (limits : Limits) (val : Measured) : Int × Text :=
  match val with
  | .float f => grade (limits.critValF.any fun limit => f.le limit)
      (limits.warnValF.any fun limit => f.le limit)
  | .int i => grade (limits.critVal.any fun limit => decide (i ≤ limit))
      (limits.warnVal.any fun limit => decide (i ≤ limit))
  | .other => (monStateCritical, "TypeError".toList)

end Limits

/-!
## Limits and number types

The integer kept for a threshold is its part before the point, so an integer just below a positive
threshold has already reached it from below, and an integer just above a negative one from above.
-/

def accepted {V : Type} (float : V -> Except PyError PyFloat) (val : V) : Option Rat :=
  match float val with
  | .ok (.finite value) => some value
  | _ => none

/-- The integer is the next one below the threshold, which is positive. -/
def JustBelow (limit : Option Rat) (v : Int) : Prop :=
  exists value : Rat, limit = some value ∧ 0 ≤ v ∧ (v : Rat) < value ∧ value < v + 1

/-- The integer is the next one above the threshold, which is negative. -/
def JustAbove (limit : Option Rat) (v : Int) : Prop :=
  exists value : Rat, limit = some value ∧ v ≤ 0 ∧ value < (v : Rat) ∧ (v : Rat) - 1 < value

/-- A value is reported the same as integer and as float, and as by the function of the module. -/
structure CeilingAgrees (limits : Limits) (v : Int) : Prop where
  types : limits.checkCeiling (.int v) = limits.checkCeiling (.float (.finite v))
  int : (limits.checkCeiling (.int v)).1 =
    checkCeiling (.int v) (limits.warnValF.map .float) (limits.critValF.map .float)
  float : (limits.checkCeiling (.float (.finite v))).1 =
    checkCeiling (.float (.finite v)) (limits.warnValF.map .float) (limits.critValF.map .float)

structure FloorAgrees (limits : Limits) (v : Int) : Prop where
  types : limits.checkFloor (.int v) = limits.checkFloor (.float (.finite v))
  int : (limits.checkFloor (.int v)).1 =
    checkFloor (.int v) (limits.warnValF.map .float) (limits.critValF.map .float)
  float : (limits.checkFloor (.float (.finite v))).1 =
    checkFloor (.float (.finite v)) (limits.warnValF.map .float) (limits.critValF.map .float)

namespace Limits

theorem grade_eq_iff {critical warning critical' warning' : Bool} :
    grade critical warning = grade critical' warning' <->
      critical = critical' ∧ (critical = true ∨ warning = warning') := by
  cases critical <;> cases critical' <;> cases warning <;> cases warning' <;> decide

theorem grade_fst (critical warning : Bool) :
    (grade critical warning).1 =
      if critical = true then monStateCritical
      else if warning = true then monStateWarning else monStateOk := by
  cases critical <;> cases warning <;> rfl

theorem init_eq {V : Type} (float : V -> Except PyError PyFloat) (warnVal critVal : Option V) :
    init float warnVal critVal =
      { warnVal := (warnVal.bind (accepted float)).map PyFloat.truncate
        warnValF := (warnVal.bind (accepted float)).map PyFloat.finite
        critVal := (critVal.bind (accepted float)).map PyFloat.truncate
        critValF := (critVal.bind (accepted float)).map PyFloat.finite } := by
  have hset : forall (limits : Limits) (val : V),
      (limits.setWarnVal float val).1 =
        { limits with
          warnVal := (accepted float val).map PyFloat.truncate
          warnValF := (accepted float val).map PyFloat.finite } ∧
      (limits.setCritVal float val).1 =
        { limits with
          critVal := (accepted float val).map PyFloat.truncate
          critValF := (accepted float val).map PyFloat.finite } := by
    intro limits val
    unfold setWarnVal setCritVal convert accepted
    cases float val with
    | error raised => exact ⟨rfl, rfl⟩
    | ok f => cases f <;> exact ⟨rfl, rfl⟩
  unfold init
  cases warnVal with
  | none =>
    cases critVal with
    | none => rfl
    | some crit => exact (hset empty crit).right
  | some warn =>
    cases critVal with
    | none => exact (hset empty warn).left
    | some crit =>
      show ((empty.setWarnVal float warn).1.setCritVal float crit).1 = _
      rw [(hset _ crit).right, (hset empty warn).left]
      rfl

end Limits

theorem truncate_le_iff (value : Rat) (v : Int) :
    PyFloat.truncate value ≤ v <-> value ≤ v ∨ (0 ≤ v ∧ (v : Rat) < value ∧ value < v + 1) := by
  unfold PyFloat.truncate
  by_cases hsign : 0 ≤ value
  · rw [if_pos hsign, Int.floor_le_iff]
    constructor
    · intro hlt
      rcases le_or_gt value v with hle | hgt
      · exact Or.inl hle
      · have hpos : (0 : Rat) < ((v + 1 : Int) : Rat) := by
          push_cast
          exact hsign.trans_lt hlt
        exact Or.inr ⟨by have := Int.cast_pos.mp hpos; omega, hgt, hlt⟩
    · rintro (hle | ⟨_, _, hlt⟩)
      · exact hle.trans_lt (lt_add_one _)
      · exact hlt
  · rw [if_neg hsign, Int.ceil_le]
    refine ⟨Or.inl, ?_⟩
    rintro (hle | ⟨hv, hgt, _⟩)
    · exact hle
    · exact absurd ((Int.cast_nonneg hv).trans hgt.le) hsign

theorem le_truncate_iff (value : Rat) (v : Int) :
    v ≤ PyFloat.truncate value <->
      (v : Rat) ≤ value ∨ (v ≤ 0 ∧ value < v ∧ (v : Rat) - 1 < value) := by
  unfold PyFloat.truncate
  by_cases hsign : 0 ≤ value
  · rw [if_pos hsign, Int.le_floor]
    refine ⟨Or.inl, ?_⟩
    rintro (hle | ⟨hv, hlt, _⟩)
    · exact hle
    · exact absurd hlt (not_lt.mpr ((Int.cast_nonpos.mpr hv).trans hsign))
  · rw [if_neg hsign, Int.le_ceil_iff]
    constructor
    · intro hlt
      rcases le_or_gt (v : Rat) value with hle | hgt
      · exact Or.inl hle
      · have hneg : ((v - 1 : Int) : Rat) < 0 := by
          push_cast
          exact hlt.trans (not_le.mp hsign)
        exact Or.inr ⟨by have := Int.cast_lt_zero.mp hneg; omega, hgt, hlt⟩
    · rintro (hle | ⟨_, _, hlt⟩)
      · exact (sub_one_lt _).trans_le hle
      · exact hlt

theorem ceiling_hits_iff (limit : Option Rat) (v : Int) :
    (limit.map PyFloat.truncate).any (fun limit => decide (limit ≤ v)) =
        (limit.map PyFloat.finite).any (fun limit => limit.le (.finite v)) <->
      ¬ JustBelow limit v := by
  cases limit with
  | none => exact iff_of_true rfl fun h => by cases h.choose_spec.left
  | some value =>
    show decide (PyFloat.truncate value ≤ v) = decide (value ≤ v) <-> _
    rw [decide_eq_decide, truncate_le_iff, or_iff_left_iff_imp]
    constructor
    · rintro himp ⟨value', hvalue, hv, hgt, hlt⟩
      injection hvalue with hvalue
      subst hvalue
      exact absurd (himp ⟨hv, hgt, hlt⟩) (not_le.mpr hgt)
    · rintro hjust ⟨hv, hgt, hlt⟩
      exact absurd ⟨value, rfl, hv, hgt, hlt⟩ hjust

theorem floor_hits_iff (limit : Option Rat) (v : Int) :
    (limit.map PyFloat.truncate).any (fun limit => decide (v ≤ limit)) =
        (limit.map PyFloat.finite).any (fun limit => PyFloat.le (.finite v) limit) <->
      ¬ JustAbove limit v := by
  cases limit with
  | none => exact iff_of_true rfl fun h => by cases h.choose_spec.left
  | some value =>
    show decide (v ≤ PyFloat.truncate value) = decide ((v : Rat) ≤ value) <-> _
    rw [decide_eq_decide, le_truncate_iff, or_iff_left_iff_imp]
    constructor
    · rintro himp ⟨value', hvalue, hv, hlt, hgt⟩
      injection hvalue with hvalue
      subst hvalue
      exact absurd (himp ⟨hv, hlt, hgt⟩) (not_le.mpr hlt)
    · rintro hjust ⟨hv, hlt, hgt⟩
      exact absurd ⟨value, rfl, hv, hlt, hgt⟩ hjust

theorem grade_agrees_iff {critical warning critical' warning' : Bool} {off off' : Prop}
    (hcritical : critical = critical' <-> ¬ off) (hwarning : warning = warning' <-> ¬ off') :
    Limits.grade critical warning = Limits.grade critical' warning' <->
      ¬ off ∧ (critical' = true ∨ ¬ off') := by
  rw [Limits.grade_eq_iff, hwarning, hcritical]
  constructor
  · rintro ⟨hoff, hlevel⟩
    exact ⟨hoff, hlevel.imp_left fun h => (hcritical.mpr hoff) ▸ h⟩
  · rintro ⟨hoff, hlevel⟩
    exact ⟨hoff, hlevel.imp_left fun h => (hcritical.mpr hoff).symm ▸ h⟩

variable (warn crit : Option Rat)

/-- The limits an object has accepted. -/
def keptLimits : Limits where
  warnVal := warn.map PyFloat.truncate
  warnValF := warn.map PyFloat.finite
  critVal := crit.map PyFloat.truncate
  critValF := crit.map PyFloat.finite

/-- No threshold is just above the integer where it decides. -/
def CeilingSafe (v : Int) : Prop :=
  ¬ JustBelow crit v ∧ ((exists value, crit = some value ∧ value ≤ v) ∨ ¬ JustBelow warn v)

/-- No threshold is just below the integer where it decides. -/
def FloorSafe (v : Int) : Prop :=
  ¬ JustAbove crit v ∧ ((exists value, crit = some value ∧ (v : Rat) ≤ value) ∨ ¬ JustAbove warn v)

theorem module_ceiling_eq (value : Number) (warn crit : Option Rat) :
    checkCeiling value ((warn.map PyFloat.finite).map .float)
        ((crit.map PyFloat.finite).map .float) =
      (Limits.grade ((crit.map PyFloat.finite).any fun limit => limit.le value.exact)
        ((warn.map PyFloat.finite).any fun limit => limit.le value.exact)).1 := by
  rw [Limits.grade_fst]
  unfold checkCeiling
  simp only [Option.any_map]
  rfl

theorem module_floor_eq (value : Number) (warn crit : Option Rat) :
    checkFloor value ((warn.map PyFloat.finite).map .float)
        ((crit.map PyFloat.finite).map .float) =
      (Limits.grade ((crit.map PyFloat.finite).any fun limit => value.exact.le limit)
        ((warn.map PyFloat.finite).any fun limit => value.exact.le limit)).1 := by
  rw [Limits.grade_fst]
  unfold checkFloor
  simp only [Option.any_map]
  rfl

theorem any_finite_iff {limit : Option Rat} {hit : PyFloat -> Bool} :
    (limit.map PyFloat.finite).any hit = true <->
      exists value, limit = some value ∧ hit (.finite value) = true := by
  rw [Option.any_map, Option.any_eq_true]

theorem ceilingAgrees_iff (v : Int) :
    CeilingAgrees (keptLimits warn crit) v <-> CeilingSafe warn crit v := by
  have htypes : (keptLimits warn crit).checkCeiling (.int v) =
      (keptLimits warn crit).checkCeiling (.float (.finite v)) <-> CeilingSafe warn crit v := by
    refine (grade_agrees_iff (ceiling_hits_iff crit v) (ceiling_hits_iff warn v)).trans ?_
    rw [any_finite_iff]
    unfold CeilingSafe PyFloat.le
    simp only [decide_eq_true_iff]
  rw [← htypes]
  refine ⟨CeilingAgrees.types, fun h => ?_⟩
  have hfloat := (module_ceiling_eq (.float (.finite v)) warn crit).symm
  exact
    { types := h
      int := (congrArg Prod.fst h).trans hfloat
      float := hfloat }

theorem floorAgrees_iff (v : Int) :
    FloorAgrees (keptLimits warn crit) v <-> FloorSafe warn crit v := by
  have htypes : (keptLimits warn crit).checkFloor (.int v) =
      (keptLimits warn crit).checkFloor (.float (.finite v)) <-> FloorSafe warn crit v := by
    refine (grade_agrees_iff (floor_hits_iff crit v) (floor_hits_iff warn v)).trans ?_
    rw [any_finite_iff]
    unfold FloorSafe PyFloat.le
    simp only [decide_eq_true_iff]
  rw [← htypes]
  refine ⟨FloorAgrees.types, fun h => ?_⟩
  have hfloat := (module_floor_eq (.float (.finite v)) warn crit).symm
  exact
    { types := h
      int := (congrArg Prod.fst h).trans hfloat
      float := hfloat }

/-- An integer is reported as the float of the same value, and as by the functions of the module,
exactly when no deciding threshold lies between it and the next integer away from zero. -/
theorem number_types_agree_iff {V : Type} (float : V -> Except PyError PyFloat)
    (warnVal critVal : Option V) (v : Int) :
    (CeilingAgrees (Limits.init float warnVal critVal) v ∧
        FloorAgrees (Limits.init float warnVal critVal) v) <->
      CeilingSafe (warnVal.bind (accepted float)) (critVal.bind (accepted float)) v ∧
        FloorSafe (warnVal.bind (accepted float)) (critVal.bind (accepted float)) v := by
  rw [Limits.init_eq, ← ceilingAgrees_iff, ← floorAgrees_iff]
  rfl

/-- With a threshold of one and a half the integer one is critical, and the float is not. -/
theorem ceiling_types_differ :
    ¬ forall (float : Rat -> Except PyError PyFloat) (warnVal critVal : Option Rat) (v : Int),
      CeilingAgrees (Limits.init float warnVal critVal) v ∧
        FloorAgrees (Limits.init float warnVal critVal) v := by
  intro h
  have htypes := (h (fun value => .ok (.finite value)) none (some (3 / 2)) 1).left.types
  exact absurd htypes (by decide +kernel)

end Icsw.Monitoring
