import Icsw.Aggregate.AnyOrder

/-!
# Orders that go wrong

An entry that is renamed keeps the new key if the aggregate that renames it comes last, and a
factor of zero is divided by if its entry comes first.
-/

namespace Icsw.Aggregate

open Foundation List

theorem SameEntries.exists_old {filtered other : Filtered} (h : SameEntries filtered other)
    {entry' : List Text × VE} (hmem : entry' ∈ other.res) :
    exists entry, entry ∈ filtered.res ∧ entry.1.Perm entry'.1 ∧ entry.2 = entry'.2 := by
  rcases h.res with ⟨between, hperm, hsame⟩
  have hbetween : exists entry, entry ∈ between ∧ entry.1.Perm entry'.1 ∧ entry.2 = entry'.2 := by
    generalize other.res = res' at hsame hmem
    clear hperm
    induction hsame with
    | nil => cases hmem
    | cons hfirst _ ih =>
      rcases mem_cons.mp hmem with heq | hrest
      · exact ⟨_, mem_cons_self, heq ▸ hfirst⟩
      · rcases ih hrest with ⟨entry, hentry, hrel⟩
        exact ⟨entry, mem_cons_of_mem _ hentry, hrel⟩
  rcases hbetween with ⟨entry, hentry, hrel⟩
  exact ⟨entry, hperm.mem_iff.mpr hentry, hrel⟩

variable {tls : AGTopLevelStruct}

theorem SameEntries.fromFilter {filtered other : Filtered}
    (h : SameEntries filtered other) (hfrom : FromFilter tls filtered) : FromFilter tls other where
  known := fun name hname => hfrom.known name (h.usedAggs.mem_iff.mpr hname)
  used := by
    intro entry' hentry' name hname
    rcases h.exists_old hentry' with ⟨entry, hentry, hnames, _⟩
    exact h.usedAggs.mem_iff.mp (hfrom.used entry hentry name (hnames.mem_iff.mpr hname))
  once := by
    intro entry' hentry'
    rcases h.exists_old hentry' with ⟨entry, hentry, hnames, _⟩
    exact hnames.nodup_iff.mp (hfrom.once entry hentry)

theorem SameEntries.carried {filtered other : Filtered}
    (h : SameEntries filtered other) (name key : Text) : ((filtered.res.filter fun entry =>
        name ∈ entry.1 ∧ sinkKey tls name entry.2.key = key).map Prod.snd).Perm
      ((other.res.filter fun entry =>
        name ∈ entry.1 ∧ sinkKey tls name entry.2.key = key).map Prod.snd) := by
  rcases h.res with ⟨between, hperm, hsame⟩
  apply ((hperm.filter _).map Prod.snd).trans
  generalize other.res = res' at hsame
  clear hperm
  induction hsame with
  | nil => exact Perm.refl _
  | @cons entry entry' _ _ hfirst _ ih =>
    rw [filter_cons, filter_cons]
    have hiff : (name ∈ entry.1 ∧ sinkKey tls name entry.2.key = key) <->
        (name ∈ entry'.1 ∧ sinkKey tls name entry'.2.key = key) := by
      rw [hfirst.left.mem_iff, hfirst.right]
    by_cases hentry : name ∈ entry.1 ∧ sinkKey tls name entry.2.key = key
    · rw [if_pos (decide_eq_true hentry), if_pos (decide_eq_true (hiff.mp hentry)),
        map_cons, map_cons, hfirst.right]
      exact ih.cons _
    · rw [if_neg (by simpa using hentry), if_neg (by simpa using mt hiff.mpr hentry)]
      exact ih

theorem SameEntries.refl (filtered : Filtered) : SameEntries filtered filtered where
  usedAggs := Perm.refl _
  res := ⟨filtered.res, Perm.refl _,
    forall₂_same.mpr fun _ _ => ⟨Perm.refl _, rfl⟩⟩

variable {filtered : Filtered} {entry : List Text × VE} {names : List Text}

theorem SameEntries.first {rest : List (List Text × VE)} (hperm : filtered.res.Perm (entry :: rest))
    (hnames : entry.1.Perm names) :
    SameEntries filtered ⟨filtered.usedAggs, (names, entry.2) :: rest⟩ where
  usedAggs := Perm.refl _
  res := ⟨entry :: rest, hperm, Forall₂.cons ⟨hnames, rfl⟩
    (forall₂_same.mpr fun _ _ => ⟨Perm.refl _, rfl⟩)⟩

variable {uuid : Text}

variable {vDict other : VDict}

theorem Reordered.exists_old (h : Reordered vDict other)
    {filtered' : Filtered} (hlookup : other.lookup uuid = some filtered') :
    exists filtered, vDict.lookup uuid = some filtered ∧ SameEntries filtered filtered' := by
  have hrel := h uuid
  rw [hlookup] at hrel
  cases hold : vDict.lookup uuid with
  | none =>
    rw [hold] at hrel
    cases hrel
  | some filtered =>
    rw [hold] at hrel
    cases hrel with
    | some hsame => exact ⟨filtered, rfl, hsame⟩

theorem Reordered.refl (vDict : VDict) : Reordered vDict vDict := by
  intro uuid
  cases vDict.lookup uuid with
  | none => exact Option.Rel.none
  | some filtered => exact Option.Rel.some (SameEntries.refl filtered)

variable {vDict : VDict}

theorem Reordered.insert {filtered filtered' : Filtered}
    (hlookup : vDict.lookup uuid = some filtered) (hsame : SameEntries filtered filtered') :
    Reordered vDict (vDict.insert uuid filtered') := by
  intro other
  rw [Dict.lookup_insert_if]
  by_cases heq : uuid = other
  · rw [if_pos heq, ← heq, hlookup]
    exact Option.Rel.some hsame
  · rw [if_neg heq]
    exact Reordered.refl vDict other

theorem Reordered.allFromFilter
    (h : Reordered vDict other) (hfrom : AllFromFilter tls vDict) : AllFromFilter tls other := by
  intro uuid filtered' hlookup
  rcases h.exists_old hlookup with ⟨filtered, hold, hsame⟩
  exact hsame.fromFilter (hfrom uuid filtered hold)

theorem Reordered.allTaken {srcUuids srcUuids' : List Text} (h : Reordered vDict other)
    (hperm : srcUuids.Perm srcUuids') (htaken : AllTaken tls srcUuids vDict) :
    AllTaken tls srcUuids' other := by
  intro uuid huuid filtered' hlookup entry' hentry' name hname obj hobj
  rcases h.exists_old hlookup with ⟨filtered, hold, hsame⟩
  rcases hsame.exists_old hentry' with ⟨entry, hentry, hnames, heq⟩
  rw [← heq]
  exact htaken uuid (hperm.mem_iff.mpr huuid) filtered hold entry hentry name
    (hnames.mem_iff.mpr hname) obj hobj

theorem Reordered.carried {srcUuids srcUuids' : List Text} (h : Reordered vDict other)
    (hperm : srcUuids.Perm srcUuids') (name key : Text) :
    (Aggregate.carried tls srcUuids vDict name key).Perm
      (Aggregate.carried tls srcUuids' other name key) := by
  unfold Aggregate.carried
  apply hperm.flatMap
  intro uuid _
  have hrel := h uuid
  cases hold : vDict.lookup uuid with
  | none =>
    rw [hold] at hrel
    cases hother : other.lookup uuid with
    | none => exact Perm.refl _
    | some filtered' =>
      rw [hother] at hrel
      cases hrel
  | some filtered =>
    rw [hold] at hrel
    cases hother : other.lookup uuid with
    | none =>
      rw [hother] at hrel
      cases hrel
    | some filtered' =>
      rw [hother] at hrel
      cases hrel with
      | some hsame => exact hsame.carried name key

variable {srcUuids : List Text}

theorem AllTaken.keepsKeys
    (h : AllTaken tls srcUuids vDict) : forall uuid, uuid ∈ srcUuids -> forall filtered,
      vDict.lookup uuid = some filtered -> KeepsKeys tls filtered := by
  intro uuid huuid filtered hlookup entry hentry name hname
  unfold sinkKey
  cases hobj : tls.aggLut.lookup name with
  | none => rfl
  | some obj => exact (h uuid huuid filtered hlookup entry hentry name hname obj hobj).key

theorem createAggregates_of_holds
    (hfrom : AllFromFilter tls vDict) (srcUuids : List Text) : exists localAggs,
      Holds tls localAggs (feedsRun tls vDict srcUuids) ∧
      createAggregates tls srcUuids vDict =
        (localAggs.values.mapM AGSink.getVector).map fun groupValues =>
          (srcUuids.foldl (vDictAfter tls) vDict, groupValues.flatten) := by
  rcases (holds_empty tls).addSources hfrom srcUuids with ⟨localAggs, hok, hholds⟩
  refine ⟨localAggs, hholds, ?_⟩
  unfold createAggregates
  rw [bind_of_ok hok]
  show (localAggs.values.mapM AGSink.getVector >>= fun groupValues => pure (_, _)) = _
  cases localAggs.values.mapM AGSink.getVector with
  | error raised => rfl
  | ok groupValues => rfl

variable {fed : List (Text × VE)}

theorem mem_fedFor {name key : Text} {ve : VE}
    (h : ve ∈ fedFor fed name key) : (name, ve) ∈ fed ∧ ve.key = key := by
  rcases mem_map.mp h with ⟨⟨own, other⟩, hfed, rfl⟩
  have hown := of_decide_eq_true (mem_filter.mp hfed).right
  exact ⟨hown.left ▸ (mem_filter.mp hfed).left, hown.right⟩

variable {localAggs : Sinks}

theorem Holds.tagged_iff (h : Holds tls localAggs fed) (name key : Text) :
    (name, key) ∈ (taggedVectors localAggs).map Prod.fst <-> fedFor fed name key ≠ [] := by
  constructor
  · intro hmem hnil
    rcases mem_map.mp hmem with ⟨⟨_, ve⟩, htagged, rfl⟩
    rcases mem_taggedVectors.mp htagged with ⟨sink, keySink, hsink, hkeySink, _⟩
    rw [(h.sinks name sink hsink).keySinks key, hnil] at hkeySink
    cases hkeySink
  · intro hne
    cases hsink : localAggs.lookup name with
    | none => exact absurd (h.missing name (AList.lookup_eq_none.mp hsink) key) hne
    | some sink =>
      have hlookup := (h.sinks name sink hsink).keySinks key
      rcases exists_cons_of_ne_nil hne with ⟨ve, later, hves⟩
      rw [hves] at hlookup
      exact mem_map.mpr ⟨_, mem_taggedVectors.mpr ⟨sink, _, hsink, hlookup, rfl⟩, rfl⟩

theorem Holds.aggregated (h : Holds tls localAggs fed)
    (hfactor : forall name ve, (name, ve) ∈ fed -> forall obj, tls.aggLut.lookup name = some obj ->
      Divides obj.action -> ve.factor ≠ 0) (hcarried : forall name key,
      (Aggregate.carried tls srcUuids vDict name key).Perm (fedFor fed name key)) :
    Aggregated tls srcUuids vDict ((taggedVectors localAggs).map Prod.snd) := by
  refine ⟨taggedVectors localAggs, rfl, nodup_taggedVectors localAggs, ?_, ?_⟩
  · intro name key
    rw [h.tagged_iff, ← length_pos_iff, ← length_pos_iff, (hcarried name key).length_eq]
  · intro name key ve hve
    rcases mem_taggedVectors.mp hve with ⟨sink, keySink, hsink, hkeySink, rfl⟩
    have hholds := h.sinks name sink hsink
    rw [hholds.keySinks key] at hkeySink
    rcases keySinkOf_eq_some hkeySink with ⟨first, later, hves, rfl⟩
    have hmem : first ∈ fedFor fed name key := hves ▸ mem_cons_self
    rcases mem_fedFor hmem with ⟨hfirst, hkey⟩
    have hsum : sumOf (Aggregate.carried tls srcUuids vDict name key) =
        ((fedFor fed name key).map VE.getValue).sum := ((hcarried name key).map VE.getValue).sum_eq
    have hlength := (hcarried name key).length_eq
    refine ⟨hkey, fun obj hobj => ?_⟩
    rcases hholds.ofObj with ⟨own, hown, haction, _⟩
    have heq : own = obj := Option.some.inj (hown.symm.trans hobj)
    subst heq
    constructor
    · intro hsumAction
      rw [hsum]
      exact KeySink.quotient_sum (haction.trans hsumAction)
        (hfactor name first hfirst own hobj (Or.inl hsumAction))
    · intro hmeanAction
      rw [hsum, hlength, ← length_map VE.getValue]
      exact KeySink.quotient_mean (haction.trans hmeanAction)
        (hfactor name first hfirst own hobj (Or.inr hmeanAction))

theorem sumsInAnyOrder_of_taken
    (hfrom : AllFromFilter tls vDict) (htaken : AllTaken tls srcUuids vDict) :
    SumsInAnyOrder tls srcUuids vDict := by
  intro srcUuids' vDict' hperm hreordered
  have hfrom' := hreordered.allFromFilter hfrom
  have htaken' := hreordered.allTaken hperm htaken
  have hkeeps := htaken'.keepsKeys
  rcases createAggregates_of_holds hfrom' srcUuids' with ⟨localAggs, hholds, hok⟩
  rcases feedsRun_of_keys hkeeps with ⟨hfeeds, hlookup⟩
  rw [hfeeds] at hholds
  have hfactor : forall name ve, (name, ve) ∈ srcUuids'.flatMap (plainFeeds vDict') ->
      forall obj, tls.aggLut.lookup name = some obj -> Divides obj.action -> ve.factor ≠ 0 := by
    intro name ve hmem obj hobj
    rcases mem_flatMap.mp hmem with ⟨uuid, huuid, hfed⟩
    unfold plainFeeds at hfed
    cases hsource : vDict'.lookup uuid with
    | none =>
      rw [hsource] at hfed
      cases hfed
    | some filtered =>
      rw [hsource] at hfed
      rcases mem_flatMap.mp hfed with ⟨entry, hentry, hpair⟩
      rcases mem_map.mp hpair with ⟨own, hown, heq⟩
      cases heq
      exact (htaken' uuid huuid filtered hsource entry hentry _ hown obj hobj).factor
  refine ⟨_, (taggedVectors localAggs).map Prod.snd, ?_, hlookup, ?_⟩
  · rw [hok, hholds.vectors hfactor, map_snd_taggedVectors]
    rfl
  · apply hholds.aggregated hfactor
    intro name key
    rw [fedFor_plainFeeds hfrom' hkeeps]
    exact hreordered.carried hperm name key

variable {name : Text}

theorem key_afterSource {ve : VE} (hmem : (names ++ [name], ve) ∈ (afterSource tls filtered).res) :
    exists key, ve.key = sinkKey tls name key := by
  rcases mem_map.mp hmem with ⟨⟨own, old⟩, _, heq⟩
  unfold renamedEntry at heq
  have hnames : own = names ++ [name] := congrArg Prod.fst heq
  have hve : own.foldl (renamed tls) old = ve := congrArg Prod.snd heq
  rw [hnames, foldl_append] at hve
  rw [← hve]
  exact ⟨_, rfl⟩

theorem exists_afterSource (huuid : uuid ∈ srcUuids)
    (hlookup : (srcUuids.foldl (vDictAfter tls) vDict).lookup uuid = some filtered) :
    exists old, afterSource tls old = filtered := by
  induction srcUuids using reverseRecOn with
  | nil => cases huuid
  | append_singleton rest last ih =>
    rw [foldl_append, foldl_cons, foldl_nil, lookup_vDictAfter] at hlookup
    by_cases heq : last = uuid
    · rw [if_pos heq] at hlookup
      rcases Option.map_eq_some_iff.mp hlookup with ⟨old, _, hold⟩
      exact ⟨old, hold⟩
    · rw [if_neg heq] at hlookup
      rcases mem_append.mp huuid with hrest | hlast
      · exact ih hrest hlookup
      · exact absurd (mem_singleton.mp hlast).symm heq

theorem targetOr_const {targetKey : Option Text} {key : Text} (h : targetOr targetKey key ≠ key)
    (other : Text) : targetOr targetKey other = targetOr targetKey key := by
  cases targetKey with
  | none => exact absurd rfl h
  | some target =>
    cases target with
    | nil => exact absurd rfl h
    | cons c rest => rfl

theorem createAggregates_ok {vDict after : VDict}
    {groupValues : List VE} (hfrom : AllFromFilter tls vDict)
    (hok : createAggregates tls srcUuids vDict = .ok (after, groupValues)) :
    exists localAggs vectors, Holds tls localAggs (feedsRun tls vDict srcUuids) ∧
      localAggs.values.mapM AGSink.getVector = .ok vectors ∧
      after = srcUuids.foldl (vDictAfter tls) vDict := by
  rcases createAggregates_of_holds hfrom srcUuids with ⟨localAggs, hholds, heq⟩
  rw [hok] at heq
  cases hvectors : localAggs.values.mapM AGSink.getVector with
  | error raised =>
    rw [hvectors] at heq
    cases heq
  | ok vectors =>
    rw [hvectors] at heq
    exact ⟨localAggs, vectors, hholds, hvectors, congrArg Prod.fst (Except.ok.inj heq)⟩

theorem keeps_of_sumsInAnyOrder
    (hfrom : AllFromFilter tls vDict) (h : SumsInAnyOrder tls srcUuids vDict)
    (huuid : uuid ∈ srcUuids) (hlookup : vDict.lookup uuid = some filtered)
    (hentry : entry ∈ filtered.res) (hname : name ∈ entry.1)
    {obj : AGObj} (hobj : tls.aggLut.lookup name = some obj) :
    targetOr obj.targetKey entry.2.key = entry.2.key := by
  by_contra hkey
  rcases append_of_mem hname with ⟨before, later, hnames⟩
  rcases append_of_mem hentry with ⟨first, rest, hres⟩
  have hperm : filtered.res.Perm (entry :: (first ++ rest)) := hres ▸ perm_middle
  -- the aggregate that renames the entry comes last
  have hlast : entry.1.Perm ((before ++ later) ++ [name]) :=
    hnames ▸ perm_middle.trans (perm_append_singleton _ _).symm
  have hsame := SameEntries.first hperm hlast
  have hreordered := Reordered.insert hlookup hsame
  rcases h srcUuids _ (Perm.refl _) hreordered with ⟨after, groupValues, hok, hunchanged, _⟩
  rcases createAggregates_ok (hreordered.allFromFilter hfrom) hok with ⟨_, _, _, _, rfl⟩
  have hafter := hunchanged uuid
  rw [AList.lookup_insert] at hafter
  rcases exists_afterSource huuid hafter with ⟨old, hold⟩
  have hmem : ((before ++ later) ++ [name], entry.2) ∈ (afterSource tls old).res := by
    rw [hold]
    exact mem_cons_self
  rcases key_afterSource hmem with ⟨key, hrenamed⟩
  unfold sinkKey at hrenamed
  rw [hobj] at hrenamed
  exact hkey ((targetOr_const hkey key).symm.trans hrenamed.symm)

theorem Holds.factor_ne_zero (h : Holds tls localAggs fed) {vectors : List (List VE)}
    (hok : localAggs.values.mapM AGSink.getVector = .ok vectors) {ve : VE}
    {later : List VE} (hfed : fedFor fed name ve.key = ve :: later) {obj : AGObj}
    (hobj : tls.aggLut.lookup name = some obj) (hdivides : Divides obj.action) : ve.factor ≠ 0 := by
  intro hzero
  cases hsink : localAggs.lookup name with
  | none =>
    have hnil := h.missing name (AList.lookup_eq_none.mp hsink) ve.key
    rw [hfed] at hnil
    cases hnil
  | some sink =>
    have hholds := h.sinks name sink hsink
    have hkeySink := hholds.keySinks ve.key
    rw [hfed] at hkeySink
    rcases hholds.ofObj with ⟨own, hown, haction, _⟩
    have heq : own = obj := Option.some.inj (hown.symm.trans hobj)
    have hraises : KeySink.getVector
        { KeySink.new ve sink.action with values := (ve :: later).map VE.getValue } =
          .error .zeroDivisionError := by
      apply KeySink.getVector_error
      · exact cons_ne_nil _ _
      · show Divides sink.action
        rw [haction, heq]
        exact hdivides
      · exact hzero
    have hsinkRaises : exists raised, sink.getVector = .error raised :=
      mapM_ne_ok (Dict.mem_values.mpr ⟨ve.key, hkeySink⟩) hraises
    rcases hsinkRaises with ⟨raised, hsinkRaises⟩
    rcases mapM_ne_ok (Dict.mem_values.mpr ⟨name, hsink⟩) hsinkRaises with ⟨raised', hall⟩
    rw [hall] at hok
    cases hok

theorem factor_of_sumsInAnyOrder
    (hfrom : AllFromFilter tls vDict) (h : SumsInAnyOrder tls srcUuids vDict)
    (huuid : uuid ∈ srcUuids) (hlookup : vDict.lookup uuid = some filtered)
    (hentry : entry ∈ filtered.res) (hname : name ∈ entry.1)
    {obj : AGObj} (hobj : tls.aggLut.lookup name = some obj) (hdivides : Divides obj.action) :
    entry.2.factor ≠ 0 := by
  have hkey := keeps_of_sumsInAnyOrder hfrom h huuid hlookup hentry hname hobj
  rcases append_of_mem hname with ⟨before, later, hnames⟩
  rcases append_of_mem hentry with ⟨first, rest, hres⟩
  rcases append_of_mem huuid with ⟨uuids, uuids', huuids⟩
  have hperm : filtered.res.Perm (entry :: (first ++ rest)) := hres ▸ perm_middle
  -- the entry is fed first of all, to the aggregate that divides
  have hfirst : entry.1.Perm (name :: (before ++ later)) := hnames ▸ perm_middle
  have hsrcs : srcUuids.Perm (uuid :: (uuids ++ uuids')) := huuids ▸ perm_middle
  have hreordered := Reordered.insert hlookup (SameEntries.first hperm hfirst)
  rcases h _ _ hsrcs hreordered with ⟨after, groupValues, hok, _, _⟩
  rcases createAggregates_ok (hreordered.allFromFilter hfrom) hok with
    ⟨localAggs, vectors, hholds, hvectors, _⟩
  have hrenamed : renamed tls entry.2 name = entry.2 := by
    apply renamed_of_key
    unfold sinkKey
    rw [hobj]
    exact hkey
  have hfeeds : exists more, feedsRun tls (vDict.insert uuid
      ⟨filtered.usedAggs, (name :: (before ++ later), entry.2) :: (first ++ rest)⟩)
        (uuid :: (uuids ++ uuids')) = [(name, entry.2)] ++ more := by
    unfold feedsRun feedsAt
    rw [AList.lookup_insert]
    show exists more, feedsOfSource tls _ ++ _ = _
    unfold feedsOfSource
    rw [flatMap_cons]
    unfold feedsOf
    rw [hrenamed]
    exact ⟨_, rfl⟩
  rcases hfeeds with ⟨more, hfeeds⟩
  rw [hfeeds] at hholds
  have hfed : fedFor ([(name, entry.2)] ++ more) name entry.2.key =
      entry.2 :: fedFor more name entry.2.key := by
    rw [fedFor_append, fedFor_single, if_pos ⟨rfl, rfl⟩]
    rfl
  exact hholds.factor_ne_zero hvectors hfed hobj hdivides

/-- Aggregates are sums or means in every order, and leave the vectors as they are, exactly if all
entries are taken as they are. -/
theorem sums_in_any_order_iff {tls : AGTopLevelStruct} {srcUuids : List Text} {vDict : VDict}
    (hfrom : AllFromFilter tls vDict) :
    SumsInAnyOrder tls srcUuids vDict <-> AllTaken tls srcUuids vDict := by
  constructor
  · intro h uuid huuid filtered hlookup entry hentry name hname obj hobj
    exact {
      key := keeps_of_sumsInAnyOrder hfrom h huuid hlookup hentry hname hobj
      factor := factor_of_sumsInAnyOrder hfrom h huuid hlookup hentry hname hobj }
  · exact sumsInAnyOrder_of_taken hfrom

def ampere : VE where
  format := "f".toList
  key := "pdu.ampere.total.used".toList
  info := "Current used".toList
  unit := "A".toList
  vType := "f".toList
  value := 2
  base := 1000
  factor := 1

def ampereObj : AGObj where
  reDict := ∅
  action := KeySink.sumAction
  targetKey := some "pdu.output.total.ampere".toList

def plainObj : AGObj where
  reDict := ∅
  action := KeySink.meanAction
  targetKey := none

def twoAggregates : AGTopLevelStruct :=
  { AGTopLevelStruct.init with
    ags := [(aggName 1, ampereObj), (aggName 2, plainObj)]
    aggIdx := 2
    aggLut := ((∅ : Dict Text AGObj).insert (aggName 1) ampereObj).insert (aggName 2) plainObj }

def source : Text := "uuid".toList

def vectorFor (names : List Text) : VDict :=
  (∅ : VDict).insert source ⟨names, [(names, ampere)]⟩

theorem allFromFilter_vectorFor (hnodup : names.Nodup)
    (hknown : forall name, name ∈ names -> name ∈ twoAggregates.aggLut) :
    AllFromFilter twoAggregates (vectorFor names) := by
  intro uuid filtered hlookup
  unfold vectorFor at hlookup
  rw [Dict.lookup_insert_if] at hlookup
  by_cases huuid : source = uuid
  · rw [if_pos huuid] at hlookup
    cases hlookup
    exact {
      known := hknown
      used := by
        intro entry hentry
        rw [mem_singleton.mp hentry]
        exact fun _ hname => hname
      once := by
        intro entry hentry
        rw [mem_singleton.mp hentry]
        exact hnodup }
  · rw [if_neg huuid] at hlookup
    cases hlookup

theorem mean_in_any_order : SumsInAnyOrder twoAggregates [source] (vectorFor [aggName 2]) := by
  have hknown : forall name, name ∈ [aggName 2] -> name ∈ twoAggregates.aggLut := by
    decide
  refine (sums_in_any_order_iff (allFromFilter_vectorFor (nodup_singleton _) hknown)).mpr ?_
  intro uuid huuid filtered hlookup entry hentry name hname obj hobj
  rw [mem_singleton.mp huuid] at hlookup
  cases hlookup
  rw [mem_singleton.mp hentry] at hname ⊢
  rw [mem_singleton.mp hname] at hobj
  cases hobj
  exact {
    key := rfl
    factor := fun _ => one_ne_zero }

/-- The aggregate with a target key renames the entry for the aggregate that comes after it, and in
the vectors. -/
theorem ampere_renamed : ¬ SumsInAnyOrder twoAggregates [source]
    (vectorFor [aggName 1, aggName 2]) := by
  intro h
  rcases h [source] _ (List.Perm.refl _) (Reordered.refl _) with
    ⟨after, groupValues, hok, hunchanged, _⟩
  have hrun : (createAggregates twoAggregates [source] (vectorFor [aggName 1, aggName 2])).map
      (fun result => (result.1.lookup source).map fun filtered =>
        filtered.res.map fun entry => entry.2.key) =
        .ok (some ["pdu.output.total.ampere".toList]) := by
    decide +kernel
  rw [hok] at hrun
  have hafter : (after.lookup source).map _ = _ := Except.ok.inj hrun
  rw [hunchanged] at hafter
  cases hafter

end Icsw.Aggregate
