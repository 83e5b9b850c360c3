import Icsw.RrdTools.Archive

/-!
# What an archive offers at a time

At the time of a row an archive offers the value of the row, but not a zero; between two rows what
lies between two known values; and for a while after its last row the last value.
-/

namespace Icsw.RrdTools

open Foundation List

/-- The value of a data source, if it is known. -/
def column (values : Values) (source : Nat) : Option Rat := (values[source]?).join

namespace Rra

def value (rra : Rra) (index source : Nat) : Option Rat :=
  column ((rra.tuples[index]?).getD []) source

def timeOf (rra : Rra) (index : Nat) : Int := instant rra.startTime rra.timeStep index

/-- The value between two rows, where both are known. -/
def Between (rra : Rra) (time : Int) (source : Nat) (value : Rat) : Prop :=
  exists index left right, rra.timeOf index < time ∧ time < rra.timeOf (index + 1) ∧
    rra.value index source = some left ∧ rra.value (index + 1) source = some right ∧
    value = (1 - ((time - rra.timeOf index : Int) : Rat) / rra.timeStep) * left +
      ((time - rra.timeOf index : Int) : Rat) / rra.timeStep * right

def HasAt (rra : Rra) (time : Int) (source : Nat) (value : Rat) : Prop :=
  (exists index, time = rra.timeOf index ∧ rra.value index source = some value) ∨
    rra.Between time source value

/-- The time is after the last row, whose value is known. -/
def Stale (rra : Rra) (time : Int) (source : Nat) (value : Rat) : Prop :=
  exists index, index + 1 = rra.tuples.length ∧ rra.timeOf index < time ∧
    time < rra.timeOf (index + 1) ∧ rra.value index source = some value

def Offers (rra : Rra) (time : Int) (source : Nat) (value : Rat) : Prop :=
  (exists index, time = rra.timeOf index ∧ rra.value index source = some value ∧ value ≠ 0) ∨
    rra.Between time source value ∨ rra.Stale time source value

end Rra

theorem column_replicate_none (width source : Nat) :
    column (replicate width none) source = none := by
  unfold column
  rw [getElem?_replicate]
  split_ifs <;> rfl

theorem column_map {f : Option Rat -> Option Rat} (hf : f none = none) (values : Values)
    (source : Nat) : column (values.map f) source = f (column values source) := by
  unfold column
  rw [getElem?_map]
  cases values[source]? with
  | none => exact hf.symm
  | some value => rfl

theorem column_interpolate (itTime : Int) (timeStep : Nat) (left right : Values) (source : Nat) :
    column (zipWith (interpolate itTime timeStep) left right) source =
      interpolate itTime timeStep (column left source) (column right source) := by
  unfold column
  rw [getElem?_zipWith]
  cases left[source]? with
  | none => rfl
  | some leftValue =>
    cases right[source]? with
    | none => cases leftValue <;> rfl
    | some rightValue => rfl

theorem column_fill {mine other : Values} (h : mine.length = other.length) (source : Nat) :
    column (zipWith (fun myVal otherVal => myVal <|> otherVal) mine other) source =
      (column mine source <|> column other source) := by
  unfold column
  rw [getElem?_zipWith]
  by_cases hsource : source < mine.length
  · rw [getElem?_eq_getElem hsource, getElem?_eq_getElem (h ▸ hsource)]
    rfl
  · rw [getElem?_eq_none (Nat.le_of_not_lt hsource),
      getElem?_eq_none (h ▸ Nat.le_of_not_lt hsource)]
    rfl

theorem orNone_eq_some {value : Option Rat} {known : Rat} :
    orNone value = some known <-> value = some known ∧ known ≠ 0 := by
  unfold orNone
  rw [Option.filter_eq_some_iff, decide_eq_true_iff]

theorem interpolate_eq_some {itTime : Int} {timeStep : Nat} {left right : Option Rat} {value : Rat} :
    interpolate itTime timeStep left right = some value <->
      exists leftValue rightValue, left = some leftValue ∧ right = some rightValue ∧
        value = (1 - (itTime : Rat) / timeStep) * leftValue + (itTime : Rat) / timeStep * rightValue := by
  cases left with
  | none =>
    constructor
    · intro h
      cases h
    · rintro ⟨_, _, hleft, _⟩
      cases hleft
  | some leftValue =>
    cases right with
    | none =>
      constructor
      · intro h
        cases h
      · rintro ⟨_, _, _, hright, _⟩
        cases hright
    | some rightValue =>
      constructor
      · intro h
        exact ⟨leftValue, rightValue, rfl, rfl, (Option.some.inj h).symm⟩
      · rintro ⟨_, _, hleft, hright, hvalue⟩
        cases hleft
        cases hright
        exact congrArg some hvalue.symm

variable {rra : Rra} {time : Int}

theorem timeOf_unique {index other : Nat}
    (hlow : rra.timeOf index ≤ time) (hhigh : time < rra.timeOf (index + 1))
    (hlow' : rra.timeOf other ≤ time) (hhigh' : time < rra.timeOf (other + 1)) :
    index = other := by
  have hpos := rra.stream.timeStep_pos
  have hindex := (div_eq_iff hpos).mpr ⟨hlow, hhigh⟩
  have hother := (div_eq_iff hpos).mpr ⟨hlow', hhigh'⟩
  exact Int.ofNat.inj (hindex.symm.trans hother)

theorem timeOf_lt_succ (rra : Rra) (index : Nat) : rra.timeOf index < rra.timeOf (index + 1) :=
  instant_lt rra.stream.timeStep_pos (Nat.lt_succ_self index)

theorem column_getValTuple_before (h : time < rra.startTime)
    (source : Nat) : column (getValTuple rra time) source = none := by
  unfold getValTuple
  dsimp only
  rw [if_neg]
  · exact column_replicate_none _ _
  · rw [Rra.timeStep, div_nonneg_iff rra.stream.timeStep_pos]
    exact not_le_of_gt h

variable {index : Nat}

theorem value_eq_none (h : rra.tuples.length ≤ index) (source : Nat) :
    rra.value index source = none := by
  unfold Rra.value
  rw [getElem?_eq_none h]
  rfl

theorem column_getValTuple
    (hlow : rra.timeOf index ≤ time) (hhigh : time < rra.timeOf (index + 1)) (source : Nat) :
    column (getValTuple rra time) source =
      if time = rra.timeOf index then orNone (rra.value index source)
      else if index + 1 < rra.tuples.length then
        interpolate (time - rra.timeOf index) rra.timeStep (rra.value index source)
          (rra.value (index + 1) source)
      else rra.value index source := by
  have hdiv := (div_eq_iff rra.stream.timeStep_pos).mpr ⟨hlow, hhigh⟩
  have hit : time - ((index : Int) * rra.timeStep + rra.startTime) = time - rra.timeOf index := by
    unfold Rra.timeOf instant
    ring
  unfold getValTuple
  dsimp only
  rw [show (time - rra.startTime) / (rra.timeStep : Int) = index from hdiv,
    if_pos (Int.natCast_nonneg index), Int.toNat_natCast, hit]
  by_cases hindex : index < rra.tuples.length
  · have hvalue : forall source, column rra.tuples[index] source = rra.value index source := by
      intro source
      unfold Rra.value
      rw [getElem?_eq_getElem hindex]
      rfl
    rw [getElem?_eq_getElem hindex]
    dsimp only
    by_cases hexact : time = rra.timeOf index
    · rw [if_pos hexact, if_neg (by omega), if_pos (by omega), column_map rfl, hvalue]
    · rw [if_neg hexact, if_pos (by omega)]
      by_cases hnext : index + 1 < rra.tuples.length
      · rw [if_pos hnext, getElem?_eq_getElem hnext]
        dsimp only
        rw [column_interpolate, hvalue]
        unfold Rra.value
        rw [getElem?_eq_getElem hnext]
        rfl
      · rw [if_neg hnext, getElem?_eq_none (Nat.le_of_not_lt hnext)]
        exact hvalue source
  · have hlength := Nat.le_of_not_lt hindex
    rw [getElem?_eq_none hlength, value_eq_none hlength, if_neg (show ¬ index + 1 < _ by omega)]
    dsimp only
    rw [column_replicate_none]
    split_ifs <;> rfl

theorem column_getValTuple_eq_some {source : Nat} {value : Rat} :
    column (getValTuple rra time) source = some value <-> rra.Offers time source value := by
  by_cases hstart : rra.startTime ≤ time
  · rcases exists_instant rra.stream.timeStep_pos hstart with ⟨index, hlow, hhigh, _⟩
    have hhere : forall other, rra.timeOf other ≤ time -> time < rra.timeOf (other + 1) ->
        other = index := fun other hlow' hhigh' => timeOf_unique hlow' hhigh' hlow hhigh
    rw [column_getValTuple hlow hhigh]
    by_cases hexact : time = rra.timeOf index
    · rw [if_pos hexact, orNone_eq_some]
      constructor
      · rintro ⟨hvalue, hne⟩
        exact Or.inl ⟨index, hexact, hvalue, hne⟩
      · rintro (⟨other, htime, hvalue, hne⟩ | ⟨other, _, _, hlow', hhigh', _⟩ |
          ⟨other, _, hlow', hhigh', _⟩)
        · rw [hhere other htime.ge (htime.trans_lt (timeOf_lt_succ rra other))] at hvalue
          exact ⟨hvalue, hne⟩
        · rw [hhere other hlow'.le hhigh'] at hlow'
          exact absurd hexact hlow'.ne'
        · rw [hhere other hlow'.le hhigh'] at hlow'
          exact absurd hexact hlow'.ne'
    · have hafter : rra.timeOf index < time := lt_of_le_of_ne hlow (Ne.symm hexact)
      have hnotExact : forall other, time = rra.timeOf other -> False := by
        intro other htime
        rw [hhere other htime.ge (htime.trans_lt (timeOf_lt_succ rra other))] at htime
        exact hexact htime
      rw [if_neg hexact]
      by_cases hnext : index + 1 < rra.tuples.length
      · rw [if_pos hnext, interpolate_eq_some]
        constructor
        · rintro ⟨left, right, hleft, hright, hvalue⟩
          exact Or.inr (Or.inl ⟨index, left, right, hafter, hhigh, hleft, hright, hvalue⟩)
        · rintro (⟨other, htime, _⟩ | ⟨other, left, right, hlow', hhigh', hleft, hright, hvalue⟩ |
            ⟨other, hlength, hlow', hhigh', _⟩)
          · exact (hnotExact other htime).elim
          · rw [hhere other hlow'.le hhigh'] at hleft hright hvalue
            exact ⟨left, right, hleft, hright, hvalue⟩
          · rw [hhere other hlow'.le hhigh'] at hlength
            omega
      · rw [if_neg hnext]
        constructor
        · intro hvalue
          refine Or.inr (Or.inr ⟨index, ?_, hafter, hhigh, hvalue⟩)
          by_contra hlength
          rw [value_eq_none (by omega)] at hvalue
          cases hvalue
        · rintro (⟨other, htime, _⟩ | ⟨other, left, right, hlow', hhigh', _, hright, _⟩ |
            ⟨other, _, hlow', hhigh', hvalue⟩)
          · exact (hnotExact other htime).elim
          · rw [hhere other hlow'.le hhigh', value_eq_none (Nat.le_of_not_lt hnext)] at hright
            cases hright
          · rw [hhere other hlow'.le hhigh'] at hvalue
            exact hvalue
  · rw [column_getValTuple_before (Int.lt_of_not_ge hstart)]
    have hbefore : forall index, ¬ rra.timeOf index ≤ time := by
      intro index hle
      have hzero : rra.timeOf 0 ≤ rra.timeOf index := instant_le (Nat.zero_le index)
      unfold Rra.timeOf at hzero hle
      rw [show instant rra.startTime rra.timeStep 0 = rra.startTime by simp [instant]] at hzero
      exact hstart (hzero.trans hle)
    constructor
    · intro h
      cases h
    · rintro (⟨index, htime, _⟩ | ⟨index, _, _, hlow, _⟩ | ⟨index, _, hlow, _⟩)
      · exact (hbefore index htime.ge).elim
      · exact (hbefore index hlow.le).elim
      · exact (hbefore index hlow.le).elim

/-!
## Filling an archive

A new archive is filled row by row from the first archive that offers a value at the time of the
row.
-/

/-- Every row of the archive has so many values. -/
def Uniform (width : Nat) (rra : Rra) : Prop :=
  forall values, values ∈ rra.tuples -> values.length = width

variable {width : Nat}

theorem length_getValTuple (h : Uniform width rra) (time : Int) :
    (getValTuple rra time).length = width := by
  have hunknown : (replicate (rra.tuples.head rra.stream.tuples_ne_nil).length
      (none : Option Rat)).length = width := by
    rw [length_replicate]
    exact h _ (head_mem _)
  unfold getValTuple
  dsimp only
  split
  · split
    · exact hunknown
    · next myTuple hmine =>
        have hlength := h myTuple (mem_of_getElem? hmine)
        split
        · split
          · exact hlength
          · next nextTuple hnext =>
              rw [length_zipWith, hlength, h nextTuple (mem_of_getElem? hnext),
                min_self]
        · split
          · rw [length_map]
            exact hlength
          · exact hlength
  · exact hunknown

theorem length_fitTuple {rra other : Rra} (h : Uniform width other)
    {values : Values} (hvalues : values.length = width) :
    (fitTuple rra other index values).length = width := by
  unfold fitTuple
  split
  · rw [length_zipWith, length_getValTuple h, hvalues, min_self]
  · exact hvalues

theorem length_fitFrom (rra other : Rra) : (fitFrom rra other).tuples.length = rra.tuples.length :=
  length_mapIdx

theorem uniform_fitFrom {rra other : Rra} (h : Uniform width rra)
    (hother : Uniform width other) : Uniform width (fitFrom rra other) := by
  intro values hvalues
  rcases mem_mapIdx.mp hvalues with ⟨index, hindex, heq⟩
  rw [← heq]
  exact length_fitTuple hother (h _ (getElem_mem hindex))

def given (rra : Rra) (index source : Nat) (other : Rra) : Option Rat :=
  if idxOffset rra other ≤ index then column (getValTuple other (rra.timeOf index)) source
  else none

theorem value_fitFrom {rra other : Rra} (h : Uniform width rra)
    (hother : Uniform width other) (hindex : index < rra.tuples.length)
    {source : Nat} (hsource : source < width) :
    (fitFrom rra other).value index source =
      (rra.value index source <|> given rra index source other) := by
  have hlength : rra.tuples[index].length = width := h _ (getElem_mem hindex)
  have htime : (index : Int) * rra.timeStep + rra.startTime = rra.timeOf index := Int.add_comm _ _
  have hvalue : rra.value index source = column rra.tuples[index] source := by
    unfold Rra.value
    rw [getElem?_eq_getElem hindex]
    rfl
  have hfitted : (fitFrom rra other).value index source =
      column (fitTuple rra other index rra.tuples[index]) source := by
    show column (((rra.tuples.mapIdx (fitTuple rra other))[index]?).getD []) source = _
    rw [getElem?_mapIdx, getElem?_eq_getElem hindex]
    rfl
  rw [hfitted, hvalue]
  unfold fitTuple given
  by_cases hoffset : idxOffset rra other ≤ index
  · rw [if_pos hoffset]
    by_cases hnone : none ∈ rra.tuples[index]
    · rw [if_pos ⟨hoffset, hnone⟩, htime,
        column_fill (hlength.trans (length_getValTuple hother _).symm)]
    · -- a row without an unknown value is not looked at
      rw [if_neg fun hboth => hnone hboth.right]
      have hknown : column rra.tuples[index] source ≠ none := by
        unfold column
        rw [getElem?_eq_getElem (hlength ▸ hsource)]
        intro heq
        exact hnone (mem_of_getElem (Option.join_some.symm.trans heq))
      rcases Option.ne_none_iff_exists'.mp hknown with ⟨known, heq⟩
      rw [heq]
      rfl
  · rw [if_neg hoffset, if_neg fun hboth => hoffset hboth.left]
    cases column rra.tuples[index] source <;> rfl

theorem fitted_frame (rra : Rra) (others : List Rra) :
    (others.foldl fitFrom rra).step = rra.step ∧
      (others.foldl fitFrom rra).entry = rra.entry ∧
      (others.foldl fitFrom rra).startTime = rra.startTime ∧
      (others.foldl fitFrom rra).endTime = rra.endTime ∧
      (others.foldl fitFrom rra).timeStep = rra.timeStep ∧
      (others.foldl fitFrom rra).tuples.length = rra.tuples.length := by
  induction others generalizing rra with
  | nil => exact ⟨rfl, rfl, rfl, rfl, rfl, rfl⟩
  | cons other rest ih =>
    rcases ih (fitFrom rra other) with ⟨hstep, hentry, hstart, hend, htimeStep, hlength⟩
    exact ⟨hstep, hentry, hstart, hend, htimeStep, hlength.trans (length_fitFrom rra other)⟩

theorem uniform_fitted {others : List Rra} (h : Uniform width rra)
    (hothers : forall other, other ∈ others -> Uniform width other) :
    Uniform width (others.foldl fitFrom rra) := by
  induction others generalizing rra with
  | nil => exact h
  | cons other rest ih =>
    exact ih (uniform_fitFrom h (hothers other mem_cons_self))
      fun next hnext => hothers next (mem_cons_of_mem other hnext)

theorem value_fitted {others : List Rra} (h : Uniform width rra)
    (hothers : forall other, other ∈ others -> Uniform width other)
    (hindex : index < rra.tuples.length) {source : Nat} (hsource : source < width) :
    (others.foldl fitFrom rra).value index source =
      (rra.value index source <|> others.findSome? (given rra index source)) := by
  induction others generalizing rra with
  | nil =>
    show rra.value index source = (rra.value index source <|> none)
    cases rra.value index source <;> rfl
  | cons other rest ih =>
    have hother := hothers other mem_cons_self
    have hrest := ih (uniform_fitFrom h hother)
      (fun next hnext => hothers next (mem_cons_of_mem other hnext))
      (by rw [length_fitFrom]; exact hindex)
    have hgiven : given (fitFrom rra other) index source = given rra index source := rfl
    rw [foldl_cons, hrest, value_fitFrom h hother hindex hsource, hgiven,
      findSome?_cons]
    cases rra.value index source with
    | some known => rfl
    | none => cases given rra index source other <;> rfl

end Icsw.RrdTools
