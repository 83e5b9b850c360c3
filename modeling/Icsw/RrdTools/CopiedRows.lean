import Icsw.RrdTools.CopyRra

/-!
# Rows that are copied right

Whatever the rows of two archives hold, the copying is right exactly if the times of the archives
match: rows are copied between equal steps only, and there the index of the pairs has to be the one
of the row in force.
-/

namespace Icsw.RrdTools

open Foundation List

variable (mine other : Stream)

/-- The rows of the archive are those that should be there. -/
def RightCopy (sTime eTime : Int) : Prop :=
  exists success,
    copyRraObject noArgs mine other sTime eTime = .ok (replaced mine other sTime eTime, success)

def AlwaysRightCopy (sTime eTime : Int) : Prop :=
  forall (myRows otherRows : List Values) (hmine : myRows ≠ []) (hother : otherRows ≠ []),
    myRows.length = mine.tuples.length -> otherRows.length = other.tuples.length ->
      (forall values, values ∈ myRows -> values.length = mine.names.length) ->
      (forall values, values ∈ otherRows -> values.length = mine.names.length) ->
        RightCopy (mine.withTuples myRows hmine) (other.withTuples otherRows hother) sTime eTime

/-- The row of the archive lies in the range. -/
def Inside (mine : Stream) (sTime eTime : Int) (index : Nat) : Prop :=
  index < mine.tuples.length ∧ sTime < mine.timeOf index ∧ mine.timeOf index < eTime

/-- The range ends before the archive or begins after it. -/
def OutOfRange (mine : Stream) (sTime eTime : Int) : Prop :=
  eTime < mine.startTime ∨ sTime > mine.endTime

/-- The rows have the same index, counted from the end where the times of the streams differ. -/
def Paired (index row : Nat) : Prop :=
  if mine.info = other.info then row = index
  else row + mine.tuples.length = index + other.tuples.length

/-- No row of the archive has to be replaced. -/
def NothingInside (sTime eTime : Int) : Prop :=
  forall index, Inside mine sTime eTime index -> ¬ other.InSpan (mine.timeOf index)

/-- The times of the archives are such that rows are paired with those in force. -/
structure TimesMatch (sTime eTime : Int) : Prop where
  out : OutOfRange mine sTime eTime -> NothingInside mine other sTime eTime
  longer : ¬ OutOfRange mine sTime eTime -> mine.timeStep < other.timeStep ->
    NothingInside mine other sTime eTime
  shorter : ¬ OutOfRange mine sTime eTime -> ¬ other.timeStep < mine.timeStep
  rows : ¬ OutOfRange mine sTime eTime -> mine.timeStep = other.timeStep ->
    mine.info = other.info -> mine.tuples.length ≤ other.tuples.length
  paired : ¬ OutOfRange mine sTime eTime -> mine.timeStep = other.timeStep -> forall index,
    Inside mine sTime eTime index -> exists row, Paired mine other index row ∧
      other.InForce (mine.timeOf index) row

theorem inSpan_iff {stream : Stream} {time : Int} :
    stream.InSpan time <-> exists row, stream.InForce time row := by
  constructor
  · rintro ⟨hstart, hend⟩
    rcases exists_instant stream.timeStep_pos hstart with ⟨row, hlow, hhigh, _⟩
    refine ⟨row, ?_, hlow, hhigh⟩
    by_contra hrow
    have hle : stream.timeOf stream.tuples.length ≤ stream.timeOf row :=
      instant_le (Nat.le_of_not_lt hrow)
    exact absurd (hlow.trans_lt hend) (not_lt_of_ge hle)
  · rintro ⟨row, hrow, hlow, hhigh⟩
    have hstart : stream.startTime ≤ stream.timeOf row := by
      have hzero : stream.timeOf 0 ≤ stream.timeOf row := instant_le (Nat.zero_le row)
      have hfirst : stream.timeOf 0 = stream.startTime := by simp [Stream.timeOf, instant]
      exact hfirst.symm.le.trans hzero
    exact ⟨hstart.trans hlow, hhigh.trans_le (instant_le hrow)⟩

theorem valueInForce_row {other : Stream} {step : Nat} {time : Int} {row : Nat}
    (hstep : step ≤ other.timeStep) (h : other.InForce time row) (source : Nat) :
    valueInForce other step time source = column ((other.tuples[row]?).getD []) source := by
  have hdiv := (div_eq_iff other.timeStep_pos).mpr h.right
  unfold valueInForce
  rw [if_pos hstep, hdiv, Int.toNat_natCast]

theorem valueInForce_none {other : Stream}
    (h : forall index source : Nat, column ((other.tuples[index]?).getD []) source = none)
    (step : Nat) (time : Int) (source : Nat) : valueInForce other step time source = none := by
  unfold valueInForce
  split
  · exact h _ _
  · have hnone : (((range other.tuples.length).filter fun index =>
        time ≤ other.timeOf index ∧ other.timeOf index < time + step).map fun index =>
          column ((other.tuples[index]?).getD []) source).filterMap id = [] := by
      rw [filterMap_eq_nil_iff]
      intro value hvalue
      rcases mem_map.mp hvalue with ⟨index, _, heq⟩
      rw [← heq]
      exact h index source
    unfold meanKnown
    rw [hnone]
    rfl

section Names

variable {mine other : List Text}

/-- The values of a row by the names of the archive. -/
def byName (mine other : List Text) (values : Values) : Values :=
  mine.map fun name => column values (other.idxOf name)

variable {values : Values}

theorem column_getElem {source : Nat} (h : source < values.length) :
    column values source = values[source] := by
  unfold column
  rw [getElem?_eq_getElem h]
  rfl

theorem getElem_byName {index : Nat} (h : index < mine.length)
    (hindex : index < (byName mine other values).length) :
    (byName mine other values)[index] = column values (other.idxOf mine[index]) :=
  getElem_map _

theorem byName_self (hnodup : mine.Nodup) (h : values.length = mine.length) :
    byName mine mine values = values := by
  apply ext_getElem
  · rw [byName, length_map, h]
  · intro index hindex hindex'
    have hmine : index < mine.length := h ▸ hindex'
    rw [getElem_byName hmine, hnodup.idxOf_getElem index hmine, column_getElem hindex']

theorem lookup_transDict (hnodup : mine.Nodup) {index : Nat} (h : index < mine.length) :
    (mine.map fun key => (mine.idxOf key, other.idxOf key)).lookup index =
      some (other.idxOf mine[index]) := by
  have hgeneral : forall part : List Text, mine[index] ∈ part ->
      (forall key, key ∈ part -> key ∈ mine) ->
        (part.map fun key => (mine.idxOf key, other.idxOf key)).lookup index =
          some (other.idxOf mine[index]) := by
    intro part hmem hpart
    induction part with
    | nil => cases hmem
    | cons key rest ih =>
      rw [map_cons]
      by_cases hkey : mine.idxOf key = index
      · have hsame : mine[index] = key := by
          have hlt := idxOf_lt_length_of_mem (hpart key mem_cons_self)
          have hget := getElem_idxOf hlt
          simp only [hkey] at hget
          exact hget
        rw [hsame, lookup_cons, hkey, beq_self_eq_true]
      · rw [lookup_cons, beq_eq_false_iff_ne.mpr (Ne.symm hkey)]
        apply ih _ fun other hother => hpart other (mem_cons_of_mem key hother)
        rcases mem_cons.mp hmem with heq | hrest
        · rw [← heq, hnodup.idxOf_getElem index h] at hkey
          exact absurd rfl hkey
        · exact hrest
  exact hgeneral mine (getElem_mem h) fun _ hkey => hkey

theorem exists_transDict (hnodup : mine.Nodup) (hperm : other.Perm mine) :
    exists trans, transDict noArgs mine other = some trans ∧
      forall values : Values, values.length = mine.length ->
        translate trans mine.length values = .ok (byName mine other values) := by
  unfold transDict
  by_cases heq : mine = other
  · rw [if_pos heq, ← heq]
    refine ⟨[], rfl, fun values hvalues => ?_⟩
    rw [byName_self hnodup hvalues]
    rfl
  · have hmem : forall key, key ∈ mine -> key ∈ other := fun key hkey => hperm.mem_iff.mpr hkey
    rw [if_neg heq, if_neg (by rw [hperm.length_eq]; exact fun h => h rfl), if_pos hmem]
    refine ⟨_, rfl, fun values hvalues => ?_⟩
    have hsome : mine.map (fun key => (mine.idxOf key, other.idxOf key)) ≠ [] := by
      intro hnil
      have hmine := map_eq_nil_iff.mp hnil
      rw [hmine] at hperm heq
      exact heq hperm.eq_nil.symm
    unfold translate
    rw [if_neg hsome, hvalues, Nat.sub_self, replicate_zero, append_nil]
    dsimp only
    rw [hvalues]
    have hmap := @mapM_eq_ok _ _ PyError
      (translateOne (mine.map fun key => (mine.idxOf key, other.idxOf key)) values)
      (range mine.length) (fun idx => column values (other.idxOf ((mine[idx]?).getD []))) (by
        intro idx hidx
        have hlt := mem_range.mp hidx
        have hplace : other.idxOf mine[idx] < values.length := by
          rw [hvalues, ← hperm.length_eq]
          exact idxOf_lt_length_of_mem (hmem _ (getElem_mem hlt))
        unfold translateOne
        rw [lookup_transDict hnodup hlt, getElem?_eq_getElem hlt]
        dsimp only
        rw [getElem?_eq_getElem hplace, Option.getD_some, column_getElem hplace]
        rfl)
    rw [hmap]
    congr 1
    apply ext_getElem
    · rw [byName, length_map, length_map, length_range]
    · intro index hindex hindex'
      have hlt : index < mine.length := by
        rw [byName, length_map] at hindex'
        exact hindex'
      rw [getElem_map, getElem_range, getElem_byName hlt, getElem?_eq_getElem hlt]
      rfl

end Names

/-- Every row has one value for each data source. -/
def Full (width : Nat) (stream : Stream) : Prop :=
  forall values, values ∈ stream.tuples -> values.length = width

def merged (mine other : Stream) (sTime eTime : Int) (source : List Values) : List Values :=
  (mine.tuples.zip source).zipIdx.map fun row =>
    if sTime < mine.timeOf row.2 ∧ mine.timeOf row.2 < eTime then
      byName mine.names other.names row.1.2
    else row.1.1

section Copy

variable {mine other : Stream} {sTime eTime : Int}

theorem copy_out (h : OutOfRange mine sTime eTime) :
    copyRraObject noArgs mine other sTime eTime = .ok (mine.tuples, true) := if_pos h

theorem copy_of_source (hin : ¬ OutOfRange mine sTime eTime) :
    copyRraObject noArgs mine other sTime eTime = (do
      match <- sourceTuples mine other with
      | none => return (mine.tuples, true)
      | some source =>
        match transDict noArgs mine.names other.names with
        | none => return (mine.tuples, false)
        | some transDict =>
          let mergedStream <- (mine.tuples.zip source).zipIdx.mapM
            (mergeRow noArgs mine transDict sTime eTime)
          return (mergedStream, true)) := if_neg hin

theorem copy_merged (hin : ¬ OutOfRange mine sTime eTime) (hnodup : mine.names.Nodup)
    (hperm : other.names.Perm mine.names) (hmine : Full mine.names.length mine)
    {source : List Values} (hsource : sourceTuples mine other = .ok (some source))
    (hfull : forall values, values ∈ source -> values.length = mine.names.length) :
    copyRraObject noArgs mine other sTime eTime =
      .ok (merged mine other sTime eTime source, true) := by
  rcases exists_transDict hnodup hperm with ⟨trans, htrans, htranslate⟩
  have hmap : (mine.tuples.zip source).zipIdx.mapM (mergeRow noArgs mine trans sTime eTime) =
      .ok (merged mine other sTime eTime source) := by
    apply mapM_eq_ok
    intro row hrow
    have hpair : (row.1.1, row.1.2) ∈ mine.tuples.zip source := fst_mem_of_mem_zipIdx hrow
    have hzip := of_mem_zip hpair
    have htime : mine.startTime + (mine.timeStep : Int) * (row.2 : Int) = mine.timeOf row.2 := by
      rw [Int.mul_comm]
      rfl
    have hrow' := htranslate row.1.2 (hfull _ hzip.right)
    unfold mergeRow
    dsimp only
    rw [htime]
    by_cases hrange : sTime < mine.timeOf row.2 ∧ mine.timeOf row.2 < eTime
    · rw [if_pos hrange, if_pos hrange, hmine _ hzip.left, hrow']
      exact if_neg fun hboth => Bool.false_ne_true hboth.right
    · rw [if_neg hrange, if_neg hrange]
      rfl
  rw [copy_of_source hin, hsource, htrans]
  dsimp only [bind, Except.bind]
  rw [hmap]
  rfl

theorem length_merged (source : List Values) :
    (merged mine other sTime eTime source).length = min mine.tuples.length source.length := by
  rw [merged, length_map, length_zipIdx, length_zip]

theorem getElem_merged {source : List Values} {index : Nat} (hmine : index < mine.tuples.length)
    (hsource : index < source.length) (h : index < (merged mine other sTime eTime source).length) :
    (merged mine other sTime eTime source)[index] =
      if sTime < mine.timeOf index ∧ mine.timeOf index < eTime then
        byName mine.names other.names source[index]
      else mine.tuples[index] := by
  simp only [merged, getElem_map, getElem_zipIdx, getElem_zip, Nat.zero_add]

theorem length_replaced : (replaced mine other sTime eTime).length = mine.tuples.length :=
  length_mapIdx

theorem getElem_replaced {index : Nat} (hmine : index < mine.tuples.length)
    (h : index < (replaced mine other sTime eTime).length) :
    (replaced mine other sTime eTime)[index] =
      if (sTime < mine.timeOf index ∧ mine.timeOf index < eTime) ∧
          other.InSpan (mine.timeOf index) then
        mine.names.map fun name =>
          valueInForce other mine.timeStep (mine.timeOf index) (other.names.idxOf name)
      else mine.tuples[index] := getElem_mapIdx

theorem replaced_eq_self (h : NothingInside mine other sTime eTime) :
    replaced mine other sTime eTime = mine.tuples := by
  apply ext_getElem length_replaced
  intro index hindex hmine
  rw [getElem_replaced hmine, if_neg]
  intro hboth
  exact h index ⟨hmine, hboth.left⟩ hboth.right

end Copy

section Source

variable {mine other : Stream}

theorem info_ne (h : mine.timeStep ≠ other.timeStep) : mine.info ≠ other.info := fun hinfo =>
  h (congrArg (fun info => info.2.2) hinfo)

theorem sourceTuples_longer (hlt : mine.timeStep < other.timeStep)
    (hdvd : mine.timeStep ∣ other.timeStep) : sourceTuples mine other = .ok none := by
  unfold sourceTuples
  rw [if_neg (info_ne hlt.ne), if_pos hlt.ne]
  exact if_pos (Nat.div_mul_cancel hdvd)

theorem sourceTuples_shorter (hlt : other.timeStep < mine.timeStep)
    (hdvd : other.timeStep ∣ mine.timeStep) :
    sourceTuples mine other = .error .attributeError := by
  have hfac : other.timeStep / mine.timeStep * mine.timeStep ≠ other.timeStep := by
    rw [Nat.div_eq_of_lt hlt, Nat.zero_mul]
    exact other.timeStep_pos.ne
  unfold sourceTuples
  rw [if_neg (info_ne hlt.ne'), if_pos hlt.ne']
  dsimp only
  rw [if_neg hfac]
  exact if_pos (Nat.div_mul_cancel hdvd)

/-- The source rows are paired by their index, or unknown where there is no row. -/
structure PairedRows (mine other : Stream) (source : List Values) : Prop where
  length : source.length = if mine.info = other.info then other.tuples.length
    else mine.tuples.length
  row : forall index, index < mine.tuples.length -> index < source.length -> forall row,
    row < other.tuples.length -> Paired mine other index row -> source[index]? = other.tuples[row]?
  unknown : forall index, index < mine.tuples.length -> index < source.length ->
    (forall row, row < other.tuples.length -> ¬ Paired mine other index row) ->
      source[index]? = some (replicate mine.names.length none)
  full : forall values, values ∈ source -> values.length = mine.names.length

theorem exists_pairedRows (hstep : mine.timeStep = other.timeStep)
    (hmine : Full mine.names.length mine) (hother : Full mine.names.length other) :
    exists source, sourceTuples mine other = .ok (some source) ∧ PairedRows mine other source := by
  have hwidth : (mine.tuples.head mine.tuples_ne_nil).length = mine.names.length :=
    hmine _ (head_mem _)
  unfold sourceTuples
  by_cases hinfo : mine.info = other.info
  · rw [if_pos hinfo]
    refine ⟨other.tuples, rfl, ?_, ?_, ?_, hother⟩
    · rw [if_pos hinfo]
    · intro index _ _ row _ hpaired
      unfold Paired at hpaired
      rw [if_pos hinfo] at hpaired
      rw [hpaired]
    · intro index _ hindex hnone
      have hself : Paired mine other index index := by
        unfold Paired
        rw [if_pos hinfo]
      exact absurd hself (hnone index hindex)
  · have hpaired : forall index row, Paired mine other index row <->
        row + mine.tuples.length = index + other.tuples.length := by
      intro index row
      unfold Paired
      rw [if_neg hinfo]
    rw [if_neg hinfo, if_neg fun hne => hne hstep]
    dsimp only
    rw [hwidth]
    by_cases heq : mine.tuples.length = other.tuples.length
    · rw [if_pos heq]
      refine ⟨other.tuples, rfl, ?_, ?_, ?_, hother⟩
      · rw [if_neg hinfo, heq]
      · intro index _ _ row _ hrow
        rw [hpaired] at hrow
        rw [show row = index by omega]
      · intro index _ hindex hnone
        exact absurd ((hpaired index index).mpr (by omega)) (hnone index hindex)
    · rw [if_neg heq]
      by_cases hlt : mine.tuples.length < other.tuples.length
      · rw [if_pos hlt]
        refine ⟨_, rfl, ?_, ?_, ?_, ?_⟩
        · rw [if_neg hinfo, length_drop]
          omega
        · intro index _ _ row _ hrow
          rw [hpaired] at hrow
          rw [getElem?_drop]
          congr 1
          omega
        · intro index hindex _ hnone
          exact absurd ((hpaired index _).mpr (show (index + (other.tuples.length -
            mine.tuples.length)) + _ = _ by omega)) (hnone _ (by omega))
        · intro values hvalues
          exact hother values (mem_of_mem_drop hvalues)
      · rw [if_neg hlt]
        refine ⟨_, rfl, ?_, ?_, ?_, ?_⟩
        · rw [if_neg hinfo, length_append, length_replicate]
          omega
        · intro index _ _ row _ hrow
          rw [hpaired] at hrow
          rw [getElem?_append_right (by rw [length_replicate]; omega),
            length_replicate]
          congr 1
          omega
        · intro index hindex _ hnone
          have hpad : index < mine.tuples.length - other.tuples.length := by
            by_contra hnot
            exact hnone (index - (mine.tuples.length - other.tuples.length)) (by omega)
              ((hpaired _ _).mpr (by omega))
          rw [getElem?_append_left (by rw [length_replicate]; exact hpad),
            getElem?_replicate, if_pos hpad]
        · intro values hvalues
          rcases mem_append.mp hvalues with hpad | hrow
          · rw [eq_of_mem_replicate hpad, length_replicate]
          · exact hother values hrow

end Source

section Match

variable {mine other : Stream} {sTime eTime : Int}

theorem rightCopy_of_timesMatch (hnodup : mine.names.Nodup)
    (hperm : other.names.Perm mine.names) (hmine : Full mine.names.length mine)
    (hother : Full mine.names.length other)
    (hdvd : mine.timeStep ∣ other.timeStep ∨ other.timeStep ∣ mine.timeStep)
    (h : TimesMatch mine other sTime eTime) : RightCopy mine other sTime eTime := by
  by_cases hin : OutOfRange mine sTime eTime
  · refine ⟨true, ?_⟩
    rw [copy_out hin, replaced_eq_self (h.out hin)]
  rcases Nat.lt_trichotomy mine.timeStep other.timeStep with hlt | hstep | hgt
  · have hone : mine.timeStep ∣ other.timeStep := by
      rcases hdvd with hmine | hother
      · exact hmine
      · exact absurd (Nat.le_of_dvd mine.timeStep_pos hother) (Nat.not_le_of_lt hlt)
    refine ⟨true, ?_⟩
    rw [copy_of_source hin, sourceTuples_longer hlt hone, replaced_eq_self (h.longer hin hlt)]
    rfl
  · rcases exists_pairedRows hstep hmine hother with ⟨source, hsource, hpairs⟩
    refine ⟨true, ?_⟩
    rw [copy_merged hin hnodup hperm hmine hsource hpairs.full]
    have hlength : mine.tuples.length ≤ source.length := by
      rw [hpairs.length]
      split
      · next hinfo => exact h.rows hin hstep hinfo
      · exact le_rfl
    congr 2
    apply ext_getElem
    · rw [length_merged, length_replaced, min_eq_left hlength]
    · intro index hindex hindex'
      have hlt : index < mine.tuples.length := by
        rw [length_replaced] at hindex'
        exact hindex'
      rw [getElem_merged hlt (hlt.trans_le hlength), getElem_replaced hlt]
      by_cases hrange : sTime < mine.timeOf index ∧ mine.timeOf index < eTime
      · rcases h.paired hin hstep index ⟨hlt, hrange⟩ with ⟨row, hrow, hforce⟩
        rw [if_pos hrange, if_pos ⟨hrange, inSpan_iff.mpr ⟨row, hforce⟩⟩]
        have hget := hpairs.row index hlt (hlt.trans_le hlength) row hforce.left hrow
        rw [getElem?_eq_getElem (hlt.trans_le hlength)] at hget
        apply map_congr_left
        intro name _
        rw [valueInForce_row hstep.le hforce, ← hget]
        rfl
      · rw [if_neg hrange, if_neg fun hboth => hrange hboth.left]
  · exact absurd hgt (h.shorter hin)

structure SameTimes (stream stream' : Stream) : Prop where
  start : stream.startTime = stream'.startTime
  stop : stream.endTime = stream'.endTime
  step : stream.timeStep = stream'.timeStep
  length : stream.tuples.length = stream'.tuples.length

theorem sameTimes_withTuples (stream : Stream) {rows : List Values} (h : rows ≠ [])
    (hlength : rows.length = stream.tuples.length) : SameTimes stream (stream.withTuples rows h) :=
  ⟨rfl, rfl, rfl, hlength.symm⟩

namespace SameTimes

variable {mine' other' : Stream}

section

variable (h : SameTimes mine mine')
include h

theorem symm : SameTimes mine' mine :=
  ⟨h.start.symm, h.stop.symm, h.step.symm, h.length.symm⟩

theorem timeOf (index : Nat) : mine.timeOf index = mine'.timeOf index := by
  unfold Stream.timeOf
  rw [h.start, h.step]

theorem info : mine.info = mine'.info := by
  unfold Stream.info
  rw [h.start, h.stop, h.step]

theorem outOfRange :
    OutOfRange mine sTime eTime <-> OutOfRange mine' sTime eTime := by
  unfold OutOfRange
  rw [h.start, h.stop]

theorem inside (index : Nat) :
    Inside mine sTime eTime index <-> Inside mine' sTime eTime index := by
  unfold Inside
  rw [h.timeOf, h.length]

theorem inSpan (time : Int) : mine.InSpan time <-> mine'.InSpan time := by
  unfold Stream.InSpan
  rw [h.start, h.timeOf, h.length]

theorem inForce (time : Int) (row : Nat) :
    mine.InForce time row <-> mine'.InForce time row := by
  unfold Stream.InForce
  rw [h.timeOf, h.timeOf, h.length]

theorem paired (hother : SameTimes other other') (index row : Nat) :
    Paired mine other index row <-> Paired mine' other' index row := by
  unfold Paired
  rw [h.info, hother.info, h.length, hother.length]

theorem nothingInside (hother : SameTimes other other')
    (hnothing : NothingInside mine other sTime eTime) : NothingInside mine' other' sTime eTime := by
  intro index hindex
  rw [← hother.inSpan, ← h.timeOf]
  exact hnothing index ((h.inside index).mpr hindex)

end

end SameTimes

theorem TimesMatch.congr {mine' other' : Stream} (h : TimesMatch mine other sTime eTime)
    (hmine : SameTimes mine mine') (hother : SameTimes other other') :
    TimesMatch mine' other' sTime eTime := by
  refine ⟨fun hout => hmine.nothingInside hother (h.out (hmine.outOfRange.mpr hout)), ?_, ?_, ?_, ?_⟩
  · intro hin hlt
    rw [← hmine.step, ← hother.step] at hlt
    exact hmine.nothingInside hother (h.longer (fun hout => hin (hmine.outOfRange.mp hout)) hlt)
  · intro hin
    rw [← hmine.step, ← hother.step]
    exact h.shorter fun hout => hin (hmine.outOfRange.mp hout)
  · intro hin hstep hinfo
    rw [← hmine.step, ← hother.step] at hstep
    rw [← hmine.info, ← hother.info] at hinfo
    rw [← hmine.length, ← hother.length]
    exact h.rows (fun hout => hin (hmine.outOfRange.mp hout)) hstep hinfo
  · intro hin hstep index hindex
    rw [← hmine.step, ← hother.step] at hstep
    rcases h.paired (fun hout => hin (hmine.outOfRange.mp hout)) hstep index
      ((hmine.inside index).mpr hindex) with ⟨row, hpair, hforce⟩
    refine ⟨row, (hmine.paired hother index row).mp hpair, ?_⟩
    rw [← hmine.timeOf]
    exact (hother.inForce _ row).mp hforce

def constantRows (width count : Nat) (value : Option Rat) : List Values :=
  replicate count (replicate width value)

def numberedRows (width count : Nat) : List Values :=
  (range count).map fun row : Nat => replicate width (some ((row : Rat) + 1))

theorem length_numberedRows (width count : Nat) : (numberedRows width count).length = count := by
  rw [numberedRows, length_map, length_range]

variable {width count : Nat}

theorem full_constantRows {value : Option Rat} {values : Values}
    (h : values ∈ constantRows width count value) : values.length = width := by
  rw [eq_of_mem_replicate h, length_replicate]

theorem full_numberedRows {values : Values}
    (h : values ∈ numberedRows width count) : values.length = width := by
  rcases mem_map.mp h with ⟨row, _, heq⟩
  rw [← heq, length_replicate]

theorem getElem?_numberedRows {width count row : Nat} (h : row < count) :
    (numberedRows width count)[row]? =
      some (replicate width (some ((row : Rat) + 1))) := by
  rw [numberedRows, getElem?_map, getElem?_range h]
  rfl

theorem tuples_pos (stream : Stream) : 0 < stream.tuples.length :=
  length_pos_iff.mpr stream.tuples_ne_nil

theorem constantRows_ne_nil (h : 0 < count) (value : Option Rat) :
    constantRows width count value ≠ [] :=
  ne_nil_of_length_pos (by rw [constantRows, length_replicate]; exact h)

theorem numberedRows_ne_nil (h : 0 < count) : numberedRows width count ≠ [] :=
  ne_nil_of_length_pos (by rw [length_numberedRows]; exact h)

theorem nothingInside_of_right (hnames : mine.names ≠ [])
    (hmine : mine.tuples = constantRows mine.names.length mine.tuples.length (some 0))
    (hother : other.tuples = constantRows mine.names.length other.tuples.length none)
    (hcopy : copyRraObject noArgs mine other sTime eTime = .ok (mine.tuples, true))
    (h : RightCopy mine other sTime eTime) : NothingInside mine other sTime eTime := by
  rcases h with ⟨success, hright⟩
  rw [hcopy] at hright
  have hrows := (Prod.mk.inj (Except.ok.inj hright)).left
  rintro index ⟨hlt, hrange⟩ hspan
  have hnone : forall index source : Nat,
      column ((other.tuples[index]?).getD []) source = none := by
    intro row source
    rw [hother, constantRows, getElem?_replicate]
    split
    · exact column_replicate_none _ _
    · rfl
  have hzero : mine.tuples[index] = replicate mine.names.length (some 0) := by
    apply eq_of_mem_replicate
    rw [← constantRows, ← hmine]
    exact getElem_mem hlt
  have hget := getElem_of_eq hrows hlt
  rw [hzero, getElem_replaced hlt, if_pos ⟨hrange, hspan⟩] at hget
  rcases exists_cons_of_ne_nil hnames with ⟨name, rest, heq⟩
  have hhead := congrArg head? hget
  rw [heq, map_cons, valueInForce_none hnone] at hhead
  cases hhead

theorem paired_of_right (hnames : mine.names ≠ []) (hnodup : mine.names.Nodup)
    (hperm : other.names.Perm mine.names) (hin : ¬ OutOfRange mine sTime eTime)
    (hstep : mine.timeStep = other.timeStep)
    (hmine : mine.tuples = constantRows mine.names.length mine.tuples.length (some 0))
    (hother : other.tuples = numberedRows mine.names.length other.tuples.length)
    (h : RightCopy mine other sTime eTime) :
    (mine.info = other.info -> mine.tuples.length ≤ other.tuples.length) ∧
      forall index, Inside mine sTime eTime index -> exists row, Paired mine other index row ∧
        other.InForce (mine.timeOf index) row := by
  have hmyFull : Full mine.names.length mine := fun values hvalues =>
    full_constantRows (hmine ▸ hvalues)
  have hotherFull : Full mine.names.length other := fun values hvalues =>
    full_numberedRows (hother ▸ hvalues)
  rcases h with ⟨success, hright⟩
  rcases exists_pairedRows hstep hmyFull hotherFull with ⟨source, hsource, hpairs⟩
  rw [copy_merged hin hnodup hperm hmyFull hsource hpairs.full] at hright
  have hrows := (Prod.mk.inj (Except.ok.inj hright)).left
  have hlong : mine.tuples.length ≤ source.length := by
    have hlength := congrArg length hrows
    rw [length_merged, length_replaced] at hlength
    exact min_eq_left_iff.mp hlength
  constructor
  · intro hinfo
    have hsourceLength := hpairs.length
    rw [if_pos hinfo] at hsourceLength
    exact hsourceLength ▸ hlong
  · rintro index ⟨hlt, hrange⟩
    have hsourceLt := hlt.trans_le hlong
    rcases exists_cons_of_ne_nil hnames with ⟨name, rest, hcons⟩
    have hplace : other.names.idxOf name < mine.names.length := by
      rw [← hperm.length_eq]
      apply idxOf_lt_length_of_mem
      rw [hperm.mem_iff, hcons]
      exact mem_cons_self
    have hcolumn : forall value, column (replicate mine.names.length value)
        (other.names.idxOf name) = value := by
      intro value
      rw [column_getElem (by rw [length_replicate]; exact hplace), getElem_replicate]
    have hforced : forall row, other.InForce (mine.timeOf index) row ->
        valueInForce other mine.timeStep (mine.timeOf index) (other.names.idxOf name) =
          some ((row : Rat) + 1) := by
      intro row hforce
      have hrow : other.tuples[row]? =
          some (replicate mine.names.length (some ((row : Rat) + 1))) := by
        rw [hother]
        exact getElem?_numberedRows hforce.left
      rw [valueInForce_row hstep.le hforce, hrow, Option.getD_some, hcolumn]
    -- the value of the first data source before and after
    have hget := getElem_of_eq hrows (by rw [length_merged]; exact lt_min hlt hsourceLt)
    rw [getElem_merged hlt hsourceLt, if_pos hrange, getElem_replaced hlt] at hget
    have hhead := congrArg head? hget
    have hmerged : (byName mine.names other.names source[index]).head? =
        some (column source[index] (other.names.idxOf name)) := by
      rw [byName, hcons]
      rfl
    have hzero : mine.tuples[index].head? = some (some 0) := by
      have hrow : mine.tuples[index] = replicate mine.names.length (some 0) := by
        apply eq_of_mem_replicate
        rw [← constantRows, ← hmine]
        exact getElem_mem hlt
      rw [hrow, hcons]
      rfl
    have hexpected : (if (sTime < mine.timeOf index ∧ mine.timeOf index < eTime) ∧
        other.InSpan (mine.timeOf index) then
          mine.names.map fun name =>
            valueInForce other mine.timeStep (mine.timeOf index) (other.names.idxOf name)
        else mine.tuples[index]).head? = some (some 0) ∨
        exists row, other.InForce (mine.timeOf index) row ∧
          (if (sTime < mine.timeOf index ∧ mine.timeOf index < eTime) ∧
            other.InSpan (mine.timeOf index) then
              mine.names.map fun name =>
                valueInForce other mine.timeStep (mine.timeOf index) (other.names.idxOf name)
            else mine.tuples[index]).head? = some (some ((row : Rat) + 1)) := by
      split
      · next hboth =>
          right
          rcases inSpan_iff.mp hboth.right with ⟨row, hforce⟩
          refine ⟨row, hforce, ?_⟩
          rw [hcons, map_cons, head?_cons, hforced row hforce]
      · left
        exact hzero
    rw [hmerged] at hhead
    by_cases hpair : exists row, row < other.tuples.length ∧ Paired mine other index row
    · rcases hpair with ⟨row, hrow, hpair⟩
      have hvalue := hpairs.row index hlt hsourceLt row hrow hpair
      rw [hother, getElem?_numberedRows hrow, getElem?_eq_getElem hsourceLt] at hvalue
      rw [Option.some.inj hvalue, hcolumn] at hhead
      rw [← hhead] at hexpected
      rcases hexpected with hnone | ⟨row', hforce, hnumber⟩
      · exact absurd (Option.some.inj (Option.some.inj hnone)) (Nat.cast_add_one_ne_zero row)
      · have heq : row = row' :=
          Nat.cast_injective (add_right_cancel (Option.some.inj (Option.some.inj hnumber)))
        exact ⟨row, hpair, heq ▸ hforce⟩
    · have hvalue := hpairs.unknown index hlt hsourceLt
        fun row hrow hrowPaired => hpair ⟨row, hrow, hrowPaired⟩
      rw [getElem?_eq_getElem hsourceLt] at hvalue
      rw [Option.some.inj hvalue, hcolumn] at hhead
      rw [← hhead] at hexpected
      rcases hexpected with hnone | ⟨_, _, hnumber⟩
      · cases hnone
      · cases hnumber

/-- Whatever the rows hold, they are copied right, exactly if the times of the archives match. -/
theorem alwaysRightCopy_iff (hnames : mine.names ≠ []) (hnodup : mine.names.Nodup)
    (hperm : other.names.Perm mine.names)
    (hdvd : mine.timeStep ∣ other.timeStep ∨ other.timeStep ∣ mine.timeStep) :
    AlwaysRightCopy mine other sTime eTime <-> TimesMatch mine other sTime eTime := by
  constructor
  · intro h
    have hzeroLength : (constantRows mine.names.length mine.tuples.length (some 0)).length =
        mine.tuples.length := length_replicate
    have hnoneLength : (constantRows mine.names.length other.tuples.length none).length =
        other.tuples.length := length_replicate
    have hnumberLength := length_numberedRows mine.names.length other.tuples.length
    have hzero : constantRows mine.names.length mine.tuples.length (some 0) ≠ [] :=
      constantRows_ne_nil (tuples_pos mine) (some 0)
    have hnone : constantRows mine.names.length other.tuples.length none ≠ [] :=
      constantRows_ne_nil (tuples_pos other) none
    have hnumber : numberedRows mine.names.length other.tuples.length ≠ [] :=
      numberedRows_ne_nil (tuples_pos other)
    have hmine := sameTimes_withTuples mine hzero hzeroLength
    have hunknown := h _ _ hzero hnone hzeroLength hnoneLength (fun _ => full_constantRows)
      (fun _ => full_constantRows)
    have hnothing : copyRraObject noArgs (mine.withTuples _ hzero) (other.withTuples _ hnone) sTime
        eTime = .ok ((mine.withTuples _ hzero).tuples, true) ->
          NothingInside mine other sTime eTime := by
      intro hcopy
      have hmineRows : (mine.withTuples _ hzero).tuples = constantRows mine.names.length
          (mine.withTuples _ hzero).tuples.length (some 0) := by rw [← hmine.length]; rfl
      have hother := sameTimes_withTuples other hnone hnoneLength
      have hotherRows : (other.withTuples _ hnone).tuples = constantRows mine.names.length
          (other.withTuples _ hnone).tuples.length none := by rw [← hother.length]; rfl
      exact hmine.symm.nothingInside hother.symm
        (nothingInside_of_right hnames hmineRows hotherRows hcopy hunknown)
    have hpaired : ¬ OutOfRange mine sTime eTime -> mine.timeStep = other.timeStep -> _ :=
      fun hin hstep => by
        have hnumbered := h _ _ hzero hnumber hzeroLength hnumberLength
          (fun _ => full_constantRows) (fun _ => full_numberedRows)
        have hother := sameTimes_withTuples other hnumber hnumberLength
        have hmineRows : (mine.withTuples _ hzero).tuples = constantRows mine.names.length
            (mine.withTuples _ hzero).tuples.length (some 0) := by rw [← hmine.length]; rfl
        have hotherRows : (other.withTuples _ hnumber).tuples = numberedRows mine.names.length
            (other.withTuples _ hnumber).tuples.length := by rw [← hother.length]; rfl
        exact @paired_of_right (mine.withTuples _ hzero) (other.withTuples _ hnumber) sTime eTime
          hnames hnodup hperm hin hstep hmineRows hotherRows hnumbered
    refine ⟨?_, ?_, ?_, ?_, ?_⟩
    · intro hout
      exact hnothing (copy_out (hmine.outOfRange.mp hout))
    · intro hin hlt
      have hone : mine.timeStep ∣ other.timeStep := hdvd.resolve_right fun hother =>
        Nat.not_le_of_lt hlt (Nat.le_of_dvd mine.timeStep_pos hother)
      apply hnothing
      rw [copy_of_source fun hout => hin (hmine.outOfRange.mpr hout)]
      rw [@sourceTuples_longer (mine.withTuples _ hzero) (other.withTuples _ hnone) hlt hone]
      rfl
    · intro hin hlt
      have hone : other.timeStep ∣ mine.timeStep := hdvd.resolve_left fun hdvd' =>
        Nat.not_le_of_lt hlt (Nat.le_of_dvd other.timeStep_pos hdvd')
      rcases hunknown with ⟨success, hright⟩
      rw [copy_of_source fun hout => hin (hmine.outOfRange.mpr hout),
        @sourceTuples_shorter (mine.withTuples _ hzero) (other.withTuples _ hnone) hlt hone] at hright
      cases hright
    · intro hin hstep hinfo
      have hrows := (hpaired hin hstep).left hinfo
      rw [← hmine.length, ← (sameTimes_withTuples other hnumber hnumberLength).length] at hrows
      exact hrows
    · intro hin hstep index hindex
      have hother := sameTimes_withTuples other hnumber hnumberLength
      rcases (hpaired hin hstep).right index ((hmine.inside index).mp hindex) with
        ⟨row, hpair, hforce⟩
      refine ⟨row, (hmine.paired hother index row).mpr hpair, ?_⟩
      rw [hmine.timeOf]
      exact (hother.inForce _ row).mpr hforce
  · intro h myRows otherRows hmine hother hmyLength hotherLength hmyFull hotherFull
    exact rightCopy_of_timesMatch hnodup hperm hmyFull hotherFull hdvd
      (h.congr (sameTimes_withTuples mine hmine hmyLength)
        (sameTimes_withTuples other hother hotherLength))

end Match

/-- Two rows of one data source. -/
def pairOfRows (step : Nat) (first second : Rat) (h : 0 < step) : Stream where
  startTime := 0
  endTime := 2 * step
  timeStep := step
  names := ["load".toList]
  tuples := [[some first], [some second]]
  timeStep_pos := h
  tuples_ne_nil := cons_ne_nil _ _

theorem two_minutes_copied_iff :
    AlwaysRightCopy (pairOfRows 60 1 2 (by decide)) (pairOfRows 60 3 4 (by decide)) 0 120 <->
      TimesMatch (pairOfRows 60 1 2 (by decide)) (pairOfRows 60 3 4 (by decide)) 0 120 :=
  alwaysRightCopy_iff (cons_ne_nil _ _) (nodup_singleton _) (List.Perm.refl _)
    (Or.inl (Nat.dvd_refl 60))

/-- Rows of two minutes are not stretched to those of one. -/
theorem stretched_rows_not_copied :
    exists (mine other : Stream) (sTime eTime : Int), mine.names ≠ [] ∧ mine.names.Nodup ∧
      other.names.Perm mine.names ∧ mine.timeStep ∣ other.timeStep ∧
      ¬ RightCopy mine other sTime eTime := by
  refine ⟨pairOfRows 60 1 2 (by decide), pairOfRows 120 3 4 (by decide), 0, 120,
    cons_ne_nil _ _, nodup_singleton _, List.Perm.refl _, by decide, ?_⟩
  rintro ⟨success, h⟩
  have hcopy : copyRraObject noArgs (pairOfRows 60 1 2 (by decide))
      (pairOfRows 120 3 4 (by decide)) 0 120 = .ok ([[some 1], [some 2]], true) := rfl
  rw [hcopy] at h
  have hrows := (Prod.mk.inj (Except.ok.inj h)).left
  exact absurd hrows (by decide +kernel)

end Icsw.RrdTools
