import Icsw.RrdTools.FitData

/-!
# Values kept at their time

A new archive covers as much time as its rows last only if it has as many rows as primary data
points per row..  Its values are those of its sources, except where a zero is taken for unknown and
where the last value of an archive goes on.
-/

namespace Icsw.RrdTools

open Foundation List

def Spans (rra : Rra) : Prop := rra.endTime - rra.startTime = rra.timeStep * rra.tuples.length

/-- The archive is filled with the values that the others have at the times of its rows. -/
structure KeptAtTime (rra : Rra) (width : Nat) (sources : List Rra) : Prop where
  spans : Spans rra
  had : forall index source value, (fitData rra sources).1.value index source = some value ->
    exists other, other ∈ sources ∧ other.HasAt (rra.timeOf index) source value
  known : forall earlier, (forall other, other ∈ earlier -> Uniform width other) ->
    forall index source value, (fitData rra earlier).1.value index source = some value ->
      (fitData (fitData rra earlier).1 sources).1.value index source = some value
  zero : forall other, other ∈ sources -> forall index, index < rra.tuples.length ->
    forall row source, rra.timeOf index = other.timeOf row -> other.value row source = some 0 ->
      (fitData rra sources).1.value index source = some 0

def FirstOffers (rra : Rra) (sources : List Rra) (index source : Nat) (other : Rra)
    (value : Rat) : Prop :=
  exists before after, sources = before ++ other :: after ∧
    (idxOffset rra other ≤ index ∧ other.Offers (rra.timeOf index) source value) ∧
    forall earlier, earlier ∈ before ->
      ¬ (idxOffset rra earlier ≤ index ∧
        exists offered, earlier.Offers (rra.timeOf index) source offered)

/-- Where the first value that is offered is one from before the time, some archive has the same
at the time. -/
def NothingStale (rra : Rra) (sources : List Rra) : Prop :=
  forall index, index < rra.tuples.length -> forall source other value,
    FirstOffers rra sources index source other value ->
      other.Stale (rra.timeOf index) source value ->
        exists right, right ∈ sources ∧ right.HasAt (rra.timeOf index) source value

def NoZeroLost (rra : Rra) (sources : List Rra) : Prop :=
  forall index, index < rra.tuples.length -> forall source other, other ∈ sources ->
    forall row, rra.timeOf index = other.timeOf row -> other.value row source = some 0 ->
      exists first, FirstOffers rra sources index source first 0

section Create

variable (step rows : Nat) (cf : Cf) (pdp : Nat) (h : 0 < step * pdp) (refRra : Rra) (actTime : Int)

theorem create_stream :
    (Rra.create step rows cf pdp h refRra actTime).stream =
      unknownStream step ⟨cf, pdp, rows⟩ h refRra actTime := by
  show padStream rows (unknownStream step ⟨cf, pdp, rows⟩ h refRra actTime) = _
  unfold padStream
  rw [if_neg]
  intro hlength
  exact hlength length_replicate

theorem create_tuples :
    (Rra.create step rows cf pdp h refRra actTime).tuples =
      replicate (rows + 1) (replicate refRra.stream.names.length none) := by
  show (Rra.create step rows cf pdp h refRra actTime).stream.tuples = _
  rw [create_stream]
  rfl

theorem uniform_create :
    Uniform refRra.stream.names.length (Rra.create step rows cf pdp h refRra actTime) := by
  intro values hvalues
  rw [create_tuples] at hvalues
  rw [eq_of_mem_replicate hvalues, length_replicate]

theorem value_create (index source : Nat) :
    (Rra.create step rows cf pdp h refRra actTime).value index source = none := by
  unfold Rra.value
  rw [create_tuples, getElem?_replicate]
  split_ifs
  · exact column_replicate_none _ _
  · rfl

theorem spans_create_iff : Spans (Rra.create step rows cf pdp h refRra actTime) <-> rows = pdp := by
  have hstep : 0 < step := Nat.pos_of_mul_pos_right h
  have hspans : Spans (Rra.create step rows cf pdp h refRra actTime) <->
      (pdp + 1) * step * rows = step * pdp * (rows + 1) := by
    unfold Spans Rra.endTime Rra.startTime Rra.timeStep
    rw [create_tuples, create_stream, length_replicate]
    show actTime - (actTime - (((pdp + 1) * step * rows : Nat) : Int)) =
      ((step * pdp : Nat) : Int) * ((rows + 1 : Nat) : Int) <-> _
    rw [sub_sub_cancel, ← Nat.cast_mul]
    exact Nat.cast_inj
  rw [hspans]
  have hleft : (pdp + 1) * step * rows = step * (pdp * rows + rows) := by ring
  have hright : step * pdp * (rows + 1) = step * (pdp * rows + pdp) := by ring
  rw [hleft, hright, Nat.mul_right_inj hstep.ne', Nat.add_left_cancel_iff]

end Create

variable {rra : Rra} {width : Nat}

theorem source_lt (h : Uniform width rra) {index source : Nat}
    {value : Rat} (hvalue : rra.value index source = some value) :
    index < rra.tuples.length ∧ source < width := by
  have hindex : index < rra.tuples.length := by
    by_contra hlength
    rw [value_eq_none (Nat.le_of_not_lt hlength)] at hvalue
    cases hvalue
  refine ⟨hindex, ?_⟩
  unfold Rra.value at hvalue
  rw [getElem?_eq_getElem hindex] at hvalue
  rw [← h _ (getElem_mem hindex)]
  by_contra hsource
  unfold column at hvalue
  rw [Option.getD_some, getElem?_eq_none (Nat.le_of_not_lt hsource)] at hvalue
  cases hvalue

variable {index source : Nat}

theorem given_eq_some {rra other : Rra} {value : Rat} :
    given rra index source other = some value <->
      idxOffset rra other ≤ index ∧ other.Offers (rra.timeOf index) source value := by
  unfold given
  split
  · next hoffset =>
      rw [column_getValTuple_eq_some]
      exact ⟨fun h => ⟨hoffset, h⟩, fun h => h.right⟩
  · next hoffset =>
      constructor
      · intro h
        cases h
      · intro h
        exact absurd h.left hoffset

theorem given_eq_none {rra other : Rra} :
    given rra index source other = none <->
      ¬ (idxOffset rra other ≤ index ∧
        exists offered, other.Offers (rra.timeOf index) source offered) := by
  rw [Option.eq_none_iff_forall_ne_some]
  constructor
  · rintro h ⟨hoffset, offered, hoffers⟩
    exact h offered (given_eq_some.mpr ⟨hoffset, hoffers⟩)
  · intro h value hvalue
    rcases given_eq_some.mp hvalue with ⟨hoffset, hoffers⟩
    exact h ⟨hoffset, value, hoffers⟩

variable {sources : List Rra}

theorem findSome_given {value : Rat} :
    sources.findSome? (given rra index source) = some value <->
      exists other, FirstOffers rra sources index source other value := by
  rw [findSome?_eq_some_iff]
  constructor
  · rintro ⟨before, other, after, hsources, hgiven, hbefore⟩
    exact ⟨other, before, after, hsources, given_eq_some.mp hgiven,
      fun earlier hearlier => given_eq_none.mp (hbefore earlier hearlier)⟩
  · rintro ⟨other, before, after, hsources, hgiven, hbefore⟩
    exact ⟨before, other, after, hsources, given_eq_some.mpr hgiven,
      fun earlier hearlier => given_eq_none.mpr (hbefore earlier hearlier)⟩

theorem FirstOffers.mem {other : Rra}
    {value : Rat} (h : FirstOffers rra sources index source other value) : other ∈ sources := by
  rcases h with ⟨before, after, hsources, _⟩
  rw [hsources]
  exact mem_append_right before mem_cons_self

theorem hasAt_or_stale {time : Int} {source : Nat} {value : Rat}
    (h : rra.Offers time source value) :
    rra.HasAt time source value ∨ rra.Stale time source value := by
  rcases h with ⟨index, htime, hvalue, _⟩ | hbetween | hstale
  · exact Or.inl (Or.inl ⟨index, htime, hvalue⟩)
  · exact Or.inl (Or.inr hbetween)
  · exact Or.inr hstale

theorem fitData_known (h : Uniform width rra)
    (hsources : forall other, other ∈ sources -> Uniform width other) {index source : Nat}
    {value : Rat} (hvalue : rra.value index source = some value) :
    (fitData rra sources).1.value index source = some value := by
  rcases source_lt h hvalue with ⟨hindex, hsource⟩
  show (sources.foldl fitFrom rra).value index source = some value
  rw [value_fitted h hsources hindex hsource, hvalue]
  rfl

theorem value_filled (h : Uniform width rra)
    (hsources : forall other, other ∈ sources -> Uniform width other)
    (hnone : forall index source, rra.value index source = none) {index source : Nat}
    {value : Rat} :
    (fitData rra sources).1.value index source = some value <->
      (index < rra.tuples.length ∧ source < width) ∧
        exists other, FirstOffers rra sources index source other value := by
  show (sources.foldl fitFrom rra).value index source = some value <-> _
  constructor
  · intro hvalue
    have hbounds := source_lt (uniform_fitted h hsources) hvalue
    rw [(fitted_frame rra sources).right.right.right.right.right] at hbounds
    rw [value_fitted h hsources hbounds.left hbounds.right, hnone] at hvalue
    exact ⟨hbounds, findSome_given.mp hvalue⟩
  · rintro ⟨⟨hindex, hsource⟩, hoffers⟩
    rw [value_fitted h hsources hindex hsource, hnone]
    exact findSome_given.mpr hoffers

/-- Values are kept at their time exactly if the new archive has as many rows as data points in a
row, nothing stale is taken and no zero is lost. -/
theorem keptAtTime_iff {step rows : Nat} {cf : Cf} {pdp : Nat} (h : 0 < step * pdp)
    (refRra : Rra) (actTime : Int) {sources : List Rra} (hsources : forall other, other ∈ sources ->
      Uniform refRra.stream.names.length other ∧ Spans other) :
    KeptAtTime (Rra.create step rows cf pdp h refRra actTime) refRra.stream.names.length sources <->
      rows = pdp ∧
        NothingStale (Rra.create step rows cf pdp h refRra actTime) sources ∧
        NoZeroLost (Rra.create step rows cf pdp h refRra actTime) sources := by
  have huniform := uniform_create step rows cf pdp h refRra actTime
  have hothers : forall other, other ∈ sources -> Uniform refRra.stream.names.length other :=
    fun other hother => (hsources other hother).left
  have hfilled := fun {index source : Nat} {value : Rat} =>
    @value_filled _ _ _ huniform hothers (value_create step rows cf pdp h refRra actTime) index
      source value
  constructor
  · intro hkept
    refine ⟨(spans_create_iff _ _ _ _ _ _ _).mp hkept.spans, ?_, ?_⟩
    · intro index hindex source other value hoffers hstale
      rcases hstale with ⟨row, _, _, _, hvalue⟩
      have hsource := (source_lt (hothers other hoffers.mem) hvalue).right
      exact hkept.had index source value (hfilled.mpr ⟨⟨hindex, hsource⟩, other, hoffers⟩)
    · intro index hindex source other hother row htime hzero
      exact (hfilled.mp (hkept.zero other hother index hindex row source htime hzero)).right
  · rintro ⟨hrows, hstale, hzero⟩
    refine ⟨(spans_create_iff _ _ _ _ _ _ _).mpr hrows, ?_, ?_, ?_⟩
    · intro index source value hvalue
      rcases hfilled.mp hvalue with ⟨⟨hindex, _⟩, other, hoffers⟩
      have hmem := hoffers.mem
      rcases hoffers with ⟨before, after, hsplit, hoffer, hbefore⟩
      rcases hasAt_or_stale hoffer.right with hat | hold
      · exact ⟨other, hmem, hat⟩
      · exact hstale index hindex source other value ⟨before, after, hsplit, hoffer, hbefore⟩ hold
    · intro earlier hearlier index source value hvalue
      exact fitData_known (uniform_fitted huniform hearlier) hothers hvalue
    · intro other hother index hindex row source htime hvalue
      have hsource := (source_lt (hothers other hother) hvalue).right
      exact hfilled.mpr ⟨⟨hindex, hsource⟩, hzero index hindex source other hother row htime hvalue⟩

/-- A file with the minutes 1 and 2 of one data source. -/
def twoMinutes : Rra where
  step := 60
  entry := ⟨⟨"AVERAGE".toList, by decide⟩, 1, 1⟩
  stream :=
    { startTime := 0
      endTime := 120
      timeStep := 60
      names := ["load".toList]
      tuples := [[some 1], [some 2]]
      timeStep_pos := by decide
      tuples_ne_nil := cons_ne_nil _ _ }

theorem uniform_twoMinutes (other : Rra) (h : other ∈ [twoMinutes]) :
    Uniform twoMinutes.stream.names.length other ∧ Spans other := by
  rw [mem_singleton.mp h]
  constructor
  · intro values hvalues
    rcases mem_cons.mp hvalues with heq | hrest
    · rw [heq]
      rfl
    · rw [mem_singleton.mp hrest]
      rfl
  · rfl

theorem two_minutes_kept_iff :
    KeptAtTime (Rra.create 60 1 twoMinutes.entry.cf 1 (by decide) twoMinutes 120) 1 [twoMinutes] <->
      1 = 1 ∧
        NothingStale (Rra.create 60 1 twoMinutes.entry.cf 1 (by decide) twoMinutes 120)
          [twoMinutes] ∧
        NoZeroLost (Rra.create 60 1 twoMinutes.entry.cf 1 (by decide) twoMinutes 120)
          [twoMinutes] :=
  keptAtTime_iff (by decide) twoMinutes 120 uniform_twoMinutes

/-- Two days of minutes begin two days too early. -/
theorem two_days_not_kept :
    exists sources : List Rra, (forall other, other ∈ sources ->
      Uniform twoMinutes.stream.names.length other ∧ Spans other) ∧
      ¬ KeptAtTime (Rra.create 60 2880 twoMinutes.entry.cf 1 (by decide) twoMinutes 120)
        twoMinutes.stream.names.length sources := by
  refine ⟨[twoMinutes], uniform_twoMinutes, fun h => ?_⟩
  have hrows := (spans_create_iff 60 2880 twoMinutes.entry.cf 1 (by decide) twoMinutes 120).mp h.spans
  cases hrows

end Icsw.RrdTools
