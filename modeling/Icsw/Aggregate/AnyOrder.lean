import Mathlib.Algebra.Order.Field.Rat
import Icsw.Aggregate.Sinks
import Icsw.Aggregate.RightCalls

/-!
# Sums in any order

Aggregates are sums or means over the entries of all sources, and leave the vectors as they are, in
every order of sources, entries and aggregates, exactly if no sink renames an entry and no sink
divides by zero.
-/

namespace Icsw.Aggregate

open Foundation List

/-- The entries are fed to sinks that are opened, and none is fed to a sink twice. -/
structure FromFilter (tls : AGTopLevelStruct) (filtered : Filtered) : Prop where
  known : forall name, name ∈ filtered.usedAggs -> name ∈ tls.aggLut
  used : forall entry, entry ∈ filtered.res -> forall name, name ∈ entry.1 ->
    name ∈ filtered.usedAggs
  once : forall entry, entry ∈ filtered.res -> entry.1.Nodup

def renamedEntry (tls : AGTopLevelStruct) (entry : List Text × VE) : List Text × VE :=
  (entry.1, entry.1.foldl (renamed tls) entry.2)

def afterSource (tls : AGTopLevelStruct) (filtered : Filtered) : Filtered where
  usedAggs := filtered.usedAggs
  res := filtered.res.map (renamedEntry tls)

def feedsOfSource (tls : AGTopLevelStruct) (filtered : Filtered) : List (Text × VE) :=
  filtered.res.flatMap fun entry => feedsOf tls entry.1 entry.2

variable {tls : AGTopLevelStruct}

theorem FromFilter.afterSource {filtered : Filtered}
    (h : FromFilter tls filtered) : FromFilter tls (afterSource tls filtered) where
  known := h.known
  used := by
    intro entry hentry
    rcases mem_map.mp hentry with ⟨old, hold, rfl⟩
    exact h.used old hold
  once := by
    intro entry hentry
    rcases mem_map.mp hentry with ⟨old, hold, rfl⟩
    exact h.once old hold

variable {fed : List (Text × VE)} {localAggs : Sinks}

theorem Holds.feedEntries {res : List (List Text × VE)} (h : Holds tls localAggs fed)
    (hopen : forall entry, entry ∈ res -> forall name, name ∈ entry.1 -> name ∈ localAggs) :
    exists after, feedEntries localAggs res = .ok (after, res.map (renamedEntry tls)) ∧
      Holds tls after (fed ++ res.flatMap fun entry => feedsOf tls entry.1 entry.2) := by
  induction res generalizing localAggs fed with
  | nil =>
    refine ⟨localAggs, rfl, ?_⟩
    rw [flatMap_nil, append_nil]
    exact h
  | cons first rest ih =>
    rcases h.feedNames (hopen first mem_cons_self) first.2 with
      ⟨next, hnext, hholds, hmem⟩
    have hrest : forall entry, entry ∈ rest -> forall name, name ∈ entry.1 -> name ∈ next :=
      fun entry hentry name hname =>
        (hmem name).mpr (hopen entry (mem_cons_of_mem first hentry) name hname)
    rcases ih hholds hrest with ⟨after, hafter, hlast⟩
    refine ⟨after, ?_, ?_⟩
    · unfold Aggregate.feedEntries
      exact bind_eq_ok hnext (bind_eq_ok hafter rfl)
    · rw [append_assoc] at hlast
      exact hlast

def vDictAfter (tls : AGTopLevelStruct) (vDict : VDict) (uuid : Text) : VDict :=
  (vDict.lookup uuid).elim vDict fun filtered => vDict.insert uuid (afterSource tls filtered)

def feedsAt (tls : AGTopLevelStruct) (vDict : VDict) (uuid : Text) : List (Text × VE) :=
  (vDict.lookup uuid).elim [] (feedsOfSource tls)

def feedsRun (tls : AGTopLevelStruct) : VDict -> List Text -> List (Text × VE)
  | _, [] => []
  | vDict, uuid :: rest => feedsAt tls vDict uuid ++ feedsRun tls (vDictAfter tls vDict uuid) rest

def AllFromFilter (tls : AGTopLevelStruct) (vDict : VDict) : Prop :=
  forall uuid filtered, vDict.lookup uuid = some filtered -> FromFilter tls filtered

theorem lookup_vDictAfter (tls : AGTopLevelStruct) (vDict : VDict) (uuid other : Text) :
    (vDictAfter tls vDict uuid).lookup other =
      if uuid = other then (vDict.lookup other).map (afterSource tls) else vDict.lookup other := by
  unfold vDictAfter
  cases hlookup : vDict.lookup uuid with
  | none =>
    by_cases heq : uuid = other
    · rw [if_pos heq, ← heq, hlookup]
      exact hlookup
    · rw [if_neg heq]
      rfl
  | some filtered =>
    show AList.lookup other (vDict.insert uuid (afterSource tls filtered)) = _
    rw [Dict.lookup_insert_if]
    by_cases heq : uuid = other
    · rw [if_pos heq, if_pos heq, ← heq, hlookup]
      rfl
    · rw [if_neg heq, if_neg heq]

theorem AllFromFilter.vDictAfter {vDict : VDict}
    (h : AllFromFilter tls vDict) (uuid : Text) : AllFromFilter tls (vDictAfter tls vDict uuid) := by
  intro other filtered hlookup
  rw [lookup_vDictAfter] at hlookup
  by_cases heq : uuid = other
  · rw [if_pos heq] at hlookup
    rcases Option.map_eq_some_iff.mp hlookup with ⟨old, hold, rfl⟩
    exact (h other old hold).afterSource
  · rw [if_neg heq] at hlookup
    exact h other filtered hlookup

theorem Holds.addSource {vDict : VDict}
    (h : Holds tls localAggs fed) (hfrom : AllFromFilter tls vDict) (uuid : Text) :
    exists after, addSource tls (vDict, localAggs) uuid =
        .ok (Aggregate.vDictAfter tls vDict uuid, after) ∧
      Holds tls after (fed ++ feedsAt tls vDict uuid) := by
  unfold Aggregate.addSource feedsAt Aggregate.vDictAfter
  cases hlookup : vDict.lookup uuid with
  | none =>
    refine ⟨localAggs, rfl, ?_⟩
    show Holds tls localAggs (fed ++ [])
    rw [append_nil]
    exact h
  | some filtered =>
    have hfiltered := hfrom uuid filtered hlookup
    rcases h.openSinks hfiltered.known with ⟨opened, hopened, hholds, hmem⟩
    have hopen : forall entry, entry ∈ filtered.res -> forall name, name ∈ entry.1 ->
        name ∈ opened := fun entry hentry name hname =>
      hmem name (hfiltered.used entry hentry name hname)
    rcases hholds.feedEntries hopen with ⟨after, hafter, hlast⟩
    exact ⟨after, bind_eq_ok hopened (bind_eq_ok hafter rfl), hlast⟩

theorem Holds.addSources {vDict : VDict}
    (h : Holds tls localAggs fed) (hfrom : AllFromFilter tls vDict) (srcUuids : List Text) :
    exists after, srcUuids.foldlM (Aggregate.addSource tls) (vDict, localAggs) =
        .ok (srcUuids.foldl (Aggregate.vDictAfter tls) vDict, after) ∧
      Holds tls after (fed ++ feedsRun tls vDict srcUuids) := by
  induction srcUuids generalizing vDict localAggs fed with
  | nil =>
    refine ⟨localAggs, rfl, ?_⟩
    show Holds tls localAggs (fed ++ [])
    rw [append_nil]
    exact h
  | cons uuid rest ih =>
    rcases h.addSource hfrom uuid with ⟨next, hnext, hholds⟩
    rcases ih hholds (hfrom.vDictAfter uuid) with ⟨after, hafter, hlast⟩
    refine ⟨after, ?_, ?_⟩
    · rw [foldlM_cons]
      exact bind_eq_ok hnext hafter
    · rw [append_assoc] at hlast
      exact hlast

def Divides (action : Text) : Prop :=
  action = KeySink.sumAction ∨ action = KeySink.meanAction

namespace KeySink

/-- The value of a sink that can be divided. -/
def quotient (sink : KeySink) : ℚ :=
  if sink.action = sumAction then sink.values.sum / sink.factor
  else if sink.action = meanAction then sink.values.sum / (sink.values.length * sink.factor)
  else 0

def vector (sink : KeySink) : VE where
  format := sink.format
  key := sink.key
  info := sink.info
  unit := sink.unit
  vType := sink.vType
  value := sink.quotient
  base := sink.base
  factor := sink.factor

theorem divide_of_ne {value divisor : ℚ} (h : divisor ≠ 0) :
    divide value divisor = .ok (value / divisor) := if_neg h

theorem divide_zero (value : ℚ) : divide value 0 = .error .zeroDivisionError := if_pos rfl

variable {sink : KeySink}

theorem getVector_of_factor (hvalues : sink.values ≠ [])
    (h : Divides sink.action -> sink.factor ≠ 0) : sink.getVector = .ok sink.vector := by
  have hvalue : sink.getValue = .ok sink.quotient := by
    unfold getValue quotient
    by_cases hsum : sink.action = sumAction
    · rw [if_pos hsum, if_pos hsum, divide_of_ne (h (Or.inl hsum))]
    rw [if_neg hsum, if_neg hsum]
    by_cases hmean : sink.action = meanAction
    · have hlength : (sink.values.length : ℚ) ≠ 0 := by
        exact_mod_cast length_pos_iff.mpr hvalues |>.ne'
      rw [if_pos hmean, if_pos hmean, if_pos hvalues,
        divide_of_ne (mul_ne_zero hlength (h (Or.inr hmean)))]
    · rw [if_neg hmean, if_neg hmean]
  unfold getVector
  rw [bind_of_ok hvalue]
  rfl

theorem getVector_error (hvalues : sink.values ≠ [])
    (hdivides : Divides sink.action) (hfactor : sink.factor = 0) :
    sink.getVector = .error .zeroDivisionError := by
  have hvalue : sink.getValue = .error .zeroDivisionError := by
    unfold getValue
    by_cases hsum : sink.action = sumAction
    · rw [if_pos hsum, hfactor, divide_zero]
    · have hmean : sink.action = meanAction := hdivides.resolve_left hsum
      rw [if_neg hsum, if_pos hmean, if_pos hvalues, hfactor, mul_zero, divide_zero]
  unfold getVector
  rw [hvalue]
  rfl

theorem quotient_sum (haction : sink.action = sumAction)
    (hfactor : sink.factor ≠ 0) : sink.quotient * sink.factor = sink.values.sum := by
  unfold quotient
  rw [if_pos haction, div_mul_cancel₀ _ hfactor]

theorem quotient_mean (haction : sink.action = meanAction) (hfactor : sink.factor ≠ 0) :
    sink.quotient * sink.factor = sink.values.sum / sink.values.length := by
  have hsum : ¬ sink.action = sumAction := by
    rw [haction]
    decide
  unfold quotient
  rw [if_neg hsum, if_pos haction, ← div_div, div_mul_cancel₀ _ hfactor]

end KeySink

/-- The entries of the sources that an aggregate sums up under a key. -/
def carried (tls : AGTopLevelStruct) (srcUuids : List Text) (vDict : VDict) (name key : Text) :
    List VE :=
  srcUuids.flatMap fun uuid =>
    (((vDict.lookup uuid).elim [] Filtered.res).filter fun entry =>
      name ∈ entry.1 ∧ sinkKey tls name entry.2.key = key).map Prod.snd

def sumOf (ves : List VE) : ℚ := (ves.map VE.getValue).sum

/-- For each aggregate and each of its keys there is one value, the sum or the mean of what the
sources carry. -/
def Aggregated (tls : AGTopLevelStruct) (srcUuids : List Text) (vDict : VDict)
    (groupValues : List VE) : Prop :=
  exists tagged : List ((Text × Text) × VE), tagged.map Prod.snd = groupValues ∧
    (tagged.map Prod.fst).Nodup ∧
    (forall name key, (name, key) ∈ tagged.map Prod.fst <->
      carried tls srcUuids vDict name key ≠ []) ∧
    forall name key ve, ((name, key), ve) ∈ tagged -> ve.key = key ∧
      forall obj, tls.aggLut.lookup name = some obj ->
        (obj.action = KeySink.sumAction ->
          ve.getValue = sumOf (carried tls srcUuids vDict name key)) ∧
        (obj.action = KeySink.meanAction -> ve.getValue =
          sumOf (carried tls srcUuids vDict name key) /
            (carried tls srcUuids vDict name key).length)

/-- The same aggregates and entries in another order. -/
structure SameEntries (filtered other : Filtered) : Prop where
  usedAggs : filtered.usedAggs.Perm other.usedAggs
  res : exists between, filtered.res.Perm between ∧
    Forall₂ (fun entry entry' => entry.1.Perm entry'.1 ∧ entry.2 = entry'.2) between other.res

def Reordered (vDict other : VDict) : Prop :=
  forall uuid, Option.Rel SameEntries (vDict.lookup uuid) (other.lookup uuid)

/-- In every order of sources, entries and aggregates the vectors are left as they are, and the
values are the same sums and means. -/
def SumsInAnyOrder (tls : AGTopLevelStruct) (srcUuids : List Text) (vDict : VDict) : Prop :=
  forall srcUuids' vDict', srcUuids.Perm srcUuids' -> Reordered vDict vDict' ->
    exists after groupValues, createAggregates tls srcUuids' vDict' = .ok (after, groupValues) ∧
      (forall uuid, after.lookup uuid = vDict'.lookup uuid) ∧
      Aggregated tls srcUuids vDict groupValues

/-- An aggregate keeps the key of an entry and can divide by its factor. -/
structure Takes (obj : AGObj) (ve : VE) : Prop where
  key : targetOr obj.targetKey ve.key = ve.key
  factor : Divides obj.action -> ve.factor ≠ 0

/-- All aggregates take the entries that they are fed. -/
def AllTaken (tls : AGTopLevelStruct) (srcUuids : List Text) (vDict : VDict) : Prop :=
  forall uuid, uuid ∈ srcUuids -> forall filtered, vDict.lookup uuid = some filtered ->
    forall entry, entry ∈ filtered.res -> forall name, name ∈ entry.1 ->
      forall obj, tls.aggLut.lookup name = some obj -> Takes obj entry.2

def taggedVectors (localAggs : Sinks) : List ((Text × Text) × VE) :=
  localAggs.items.flatMap fun agg =>
    agg.2.keySinks.items.map fun item => ((agg.1, item.1), item.2.vector)

theorem mem_taggedVectors {localAggs : Sinks} {name key : Text} {ve : VE} :
    ((name, key), ve) ∈ taggedVectors localAggs <->
      exists sink keySink, localAggs.lookup name = some sink ∧
        sink.keySinks.lookup key = some keySink ∧ keySink.vector = ve := by
  unfold taggedVectors
  rw [mem_flatMap]
  constructor
  · rintro ⟨⟨aggName, sink⟩, hagg, hmem⟩
    rcases mem_map.mp hmem with ⟨⟨own, keySink⟩, hitem, heq⟩
    cases heq
    exact ⟨sink, keySink, Dict.mem_items.mp hagg, Dict.mem_items.mp hitem, rfl⟩
  · rintro ⟨sink, keySink, hsink, hkeySink, rfl⟩
    exact ⟨(name, sink), Dict.mem_items.mpr hsink,
      mem_map.mpr ⟨(key, keySink), Dict.mem_items.mpr hkeySink, rfl⟩⟩

theorem nodup_taggedVectors (localAggs : Sinks) : ((taggedVectors localAggs).map Prod.fst).Nodup := by
  unfold taggedVectors
  rw [map_flatMap, nodup_flatMap]
  constructor
  · rintro ⟨name, sink⟩ _
    rw [map_map]
    have hkeys : (sink.keySinks.items.map Prod.fst).Nodup := by
      rw [Dict.map_fst_items]
      exact sink.keySinks.keys_nodup
    have hpairs := hkeys.map (f := Prod.mk name) (Prod.mk_right_injective name)
    rw [map_map] at hpairs
    exact hpairs
  · have hnames : (localAggs.items.map Prod.fst).Nodup := by
      rw [Dict.map_fst_items]
      exact localAggs.keys_nodup
    apply (pairwise_map.mp hnames).imp
    rintro ⟨name, sink⟩ ⟨other, sink'⟩ hne
    rw [Function.onFun_apply, disjoint_left]
    intro pair hfirst hsecond
    rcases mem_map.mp hfirst with ⟨tagged, htagged, rfl⟩
    rcases mem_map.mp htagged with ⟨item, _, rfl⟩
    rcases mem_map.mp hsecond with ⟨tagged', htagged', heq⟩
    rcases mem_map.mp htagged' with ⟨item', _, rfl⟩
    exact hne (congrArg Prod.fst heq).symm

theorem keySinkOf_eq_some {action : Text} {ves : List VE} {keySink : KeySink}
    (h : keySinkOf action ves = some keySink) : exists ve later, ves = ve :: later ∧
      keySink = { KeySink.new ve action with values := ves.map VE.getValue } := by
  cases ves with
  | nil => cases h
  | cons ve later =>
    cases h
    exact ⟨ve, later, rfl, rfl⟩

variable {tls : AGTopLevelStruct}

theorem Holds.vectors {localAggs : Sinks} {fed : List (Text × VE)} (h : Holds tls localAggs fed)
    (hfactor : forall name ve, (name, ve) ∈ fed -> forall obj, tls.aggLut.lookup name = some obj ->
      Divides obj.action -> ve.factor ≠ 0) :
    localAggs.values.mapM AGSink.getVector =
      .ok (localAggs.values.map fun sink => sink.keySinks.values.map KeySink.vector) := by
  apply mapM_eq_ok
  intro sink hsink
  rcases Dict.mem_values.mp hsink with ⟨name, hname⟩
  have hholds := h.sinks name sink hname
  apply mapM_eq_ok
  intro keySink hkeySink
  rcases Dict.mem_values.mp hkeySink with ⟨key, hkey⟩
  rw [hholds.keySinks key] at hkey
  rcases keySinkOf_eq_some hkey with ⟨ve, later, hves, rfl⟩
  rcases hholds.ofObj with ⟨obj, hobj, haction, _⟩
  apply KeySink.getVector_of_factor
  · rw [hves]
    exact cons_ne_nil _ _
  · intro hdivides
    have hmem : ve ∈ fedFor fed name key := hves ▸ mem_cons_self
    rcases mem_map.mp hmem with ⟨⟨own, other⟩, hfed, rfl⟩
    have hown : own = name := (of_decide_eq_true (mem_filter.mp hfed).right).left
    rw [← hown] at hobj
    exact hfactor own other (mem_filter.mp hfed).left obj hobj (haction ▸ hdivides)

theorem map_snd_taggedVectors (localAggs : Sinks) :
    (taggedVectors localAggs).map Prod.snd =
      (localAggs.values.map fun sink => sink.keySinks.values.map KeySink.vector).flatten := by
  unfold taggedVectors Dict.items Dict.values
  rw [map_flatMap, flatMap_def, map_map, map_map]
  congr 1
  apply map_congr_left
  intro entry _
  simp only [Function.comp_apply, map_map, Function.comp_def]

/-- What the sources feed where no entry is renamed. -/
def plainFeeds (vDict : VDict) (uuid : Text) : List (Text × VE) :=
  ((vDict.lookup uuid).elim [] Filtered.res).flatMap fun entry =>
    entry.1.map fun name => (name, entry.2)

/-- No aggregate renames an entry of the vector. -/
def KeepsKeys (tls : AGTopLevelStruct) (filtered : Filtered) : Prop :=
  forall entry, entry ∈ filtered.res -> forall name, name ∈ entry.1 ->
    sinkKey tls name entry.2.key = entry.2.key

theorem renamed_of_key {ve : VE} {name : Text}
    (h : sinkKey tls name ve.key = ve.key) : renamed tls ve name = ve := by
  unfold renamed
  rw [h]
  rfl

theorem feedsOf_of_key {names : List Text} {ve : VE}
    (h : forall name, name ∈ names -> sinkKey tls name ve.key = ve.key) :
    feedsOf tls names ve = names.map (fun name => (name, ve)) ∧
      names.foldl (renamed tls) ve = ve := by
  induction names with
  | nil => exact ⟨rfl, rfl⟩
  | cons first rest ih =>
    have hfirst := renamed_of_key (h first mem_cons_self)
    rcases ih fun name hname => h name (mem_cons_of_mem first hname) with ⟨hfeeds, hlast⟩
    unfold feedsOf
    rw [foldl_cons, hfirst, hfeeds, hlast]
    exact ⟨rfl, rfl⟩

theorem KeepsKeys.afterSource {filtered : Filtered}
    (h : KeepsKeys tls filtered) : afterSource tls filtered = filtered := by
  have hres : filtered.res.map (renamedEntry tls) = filtered.res := by
    conv_rhs => rw [← map_id filtered.res]
    apply map_congr_left
    intro entry hentry
    unfold renamedEntry
    rw [(feedsOf_of_key (h entry hentry)).right]
    rfl
  unfold Aggregate.afterSource
  rw [hres]

theorem KeepsKeys.feeds {filtered : Filtered}
    (h : KeepsKeys tls filtered) : feedsOfSource tls filtered =
      filtered.res.flatMap fun entry => entry.1.map fun name => (name, entry.2) := by
  unfold feedsOfSource
  rw [flatMap_def, flatMap_def]
  congr 1
  exact map_congr_left fun entry hentry => (feedsOf_of_key (h entry hentry)).left

theorem feedsRun_of_keys {vDict : VDict} {srcUuids : List Text}
    (h : forall uuid, uuid ∈ srcUuids -> forall filtered, vDict.lookup uuid = some filtered ->
      KeepsKeys tls filtered) :
    feedsRun tls vDict srcUuids = srcUuids.flatMap (plainFeeds vDict) ∧
      forall uuid, (srcUuids.foldl (vDictAfter tls) vDict).lookup uuid = vDict.lookup uuid := by
  have hrun : forall (uuids : List Text) (current : VDict),
      (forall uuid, uuid ∈ uuids -> uuid ∈ srcUuids) ->
      (forall uuid, current.lookup uuid = vDict.lookup uuid) ->
      feedsRun tls current uuids = uuids.flatMap (plainFeeds vDict) ∧
        forall uuid, (uuids.foldl (vDictAfter tls) current).lookup uuid = vDict.lookup uuid := by
    intro uuids
    induction uuids with
    | nil => exact fun current _ hcurrent => ⟨rfl, hcurrent⟩
    | cons uuid rest ih =>
      intro current hsub hcurrent
      have hnext : forall other, (vDictAfter tls current uuid).lookup other =
          vDict.lookup other := by
        intro other
        rw [lookup_vDictAfter, hcurrent other]
        by_cases heq : uuid = other
        · rw [if_pos heq, ← heq]
          cases hlookup : vDict.lookup uuid with
          | none => rfl
          | some filtered =>
            have hkeeps := h uuid (hsub uuid mem_cons_self) filtered hlookup
            exact congrArg some hkeeps.afterSource
        · rw [if_neg heq]
      rcases ih (vDictAfter tls current uuid)
        (fun other hother => hsub other (mem_cons_of_mem uuid hother)) hnext with
        ⟨hfeeds, hlast⟩
      refine ⟨?_, hlast⟩
      unfold feedsRun feedsAt
      rw [hfeeds, hcurrent uuid, flatMap_cons]
      congr 1
      unfold plainFeeds
      cases hlookup : vDict.lookup uuid with
      | none => rfl
      | some filtered => exact (h uuid (hsub uuid mem_cons_self) filtered hlookup).feeds
  exact hrun srcUuids vDict (fun _ h => h) fun _ => rfl

theorem fedFor_flatMap {α : Type} (items : List α) (feeds : α -> List (Text × VE))
    (name key : Text) :
    fedFor (items.flatMap feeds) name key = items.flatMap fun item => fedFor (feeds item) name key := by
  induction items with
  | nil => rfl
  | cons first rest ih =>
    rw [flatMap_cons, fedFor_append, ih]
    rfl

theorem fedFor_names {names : List Text} (hnodup : names.Nodup) (ve : VE) (name key : Text) :
    fedFor (names.map fun name => (name, ve)) name key =
      if name ∈ names ∧ ve.key = key then [ve] else [] := by
  induction names with
  | nil => rw [if_neg (fun h => not_mem_nil h.left)]; rfl
  | cons first rest ih =>
    have hfirst := nodup_cons.mp hnodup
    have hcons : ((first :: rest).map fun name => (name, ve)) =
        [(first, ve)] ++ rest.map fun name => (name, ve) := rfl
    rw [hcons, fedFor_append, fedFor_single, ih hfirst.right]
    by_cases hkey : ve.key = key
    · by_cases hname : first = name
      · subst hname
        rw [if_pos ⟨rfl, hkey⟩, if_neg (fun h => hfirst.left h.left),
          if_pos ⟨mem_cons_self, hkey⟩, append_nil]
      · rw [if_neg (fun h => hname h.left), nil_append]
        by_cases hmem : name ∈ rest
        · rw [if_pos ⟨hmem, hkey⟩, if_pos ⟨mem_cons_of_mem first hmem, hkey⟩]
        · rw [if_neg (fun h => hmem h.left), if_neg (fun h =>
            (mem_cons.mp h.left).elim (fun heq => hname heq.symm) hmem)]
    · rw [if_neg (fun h => hkey h.right), if_neg (fun h => hkey h.right),
        if_neg (fun h => hkey h.right), append_nil]

theorem fedFor_plainFeeds {vDict : VDict} {srcUuids : List Text} (hfrom : AllFromFilter tls vDict)
    (h : forall uuid, uuid ∈ srcUuids -> forall filtered, vDict.lookup uuid = some filtered ->
      KeepsKeys tls filtered) (name key : Text) :
    fedFor (srcUuids.flatMap (plainFeeds vDict)) name key =
      carried tls srcUuids vDict name key := by
  rw [fedFor_flatMap]
  unfold carried
  rw [flatMap_def, flatMap_def]
  congr 1
  apply map_congr_left
  intro uuid huuid
  unfold plainFeeds
  rw [fedFor_flatMap]
  cases hlookup : vDict.lookup uuid with
  | none => rfl
  | some filtered =>
    have hkeeps := h uuid huuid filtered hlookup
    have honce := (hfrom uuid filtered hlookup).once
    have hentries : forall entries : List (List Text × VE),
        (forall entry, entry ∈ entries -> entry ∈ filtered.res) ->
        (entries.flatMap fun entry => fedFor (entry.1.map fun name => (name, entry.2)) name key) =
          (entries.filter fun entry =>
            name ∈ entry.1 ∧ sinkKey tls name entry.2.key = key).map Prod.snd := by
      intro entries
      induction entries with
      | nil => exact fun _ => rfl
      | cons entry rest ih =>
        intro hsub
        have hentry := hsub entry mem_cons_self
        rw [flatMap_cons, fedFor_names (honce entry hentry),
          ih fun other hother => hsub other (mem_cons_of_mem entry hother),
          filter_cons]
        by_cases hname : name ∈ entry.1
        · rw [hkeeps entry hentry name hname]
          by_cases hkey : entry.2.key = key
          · rw [if_pos ⟨hname, hkey⟩, if_pos (decide_eq_true ⟨hname, hkey⟩)]
            rfl
          · rw [if_neg (fun h => hkey h.right), if_neg (by simp [hkey])]
            rfl
        · rw [if_neg (fun h => hname h.left), if_neg (by simp [hname])]
          rfl
    exact hentries filtered.res fun _ hentry => hentry

end Icsw.Aggregate
