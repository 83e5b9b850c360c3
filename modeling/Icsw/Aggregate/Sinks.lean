import Mathlib.Algebra.Order.Ring.Rat
import Icsw.Aggregate.Model

/-!
# Sinks

The entries of all sources are fed into the sinks of their aggregates, one for each key.  A sink
with a target key renames the entry that it is fed.
-/

namespace Icsw.Aggregate

open Foundation List

/-- The key under which an entry is summed up: the target key if there is one. -/
def targetOr (targetKey : Option Text) (key : Text) : Text :=
  match targetKey with
  | none => key
  | some [] => key
  | some (c :: rest) => c :: rest

def VE.withKey (ve : VE) (key : Text) : VE := { ve with key := key }

structure KeySink where
  format : Text
  key : Text
  info : Text
  unit : Text
  vType : Text
  base : Int
  factor : ℚ
  action : Text
  values : List ℚ

namespace KeySink

def new (ve : VE) (action : Text) : KeySink where
  format := ve.format
  key := ve.key
  info := ve.info
  unit := ve.unit
  vType := ve.vType
  base := ve.base
  factor := ve.factor
  action := action
  values := []

def feedVe (sink : KeySink) (ve : VE) : KeySink :=
  { sink with values := sink.values ++ [ve.getValue] }

def sumAction : Text := "sum".toList

def meanAction : Text := "mean".toList

def divide (value divisor : ℚ) : Except PyError ℚ :=
  if divisor = 0 then .error .zeroDivisionError else .ok (value / divisor)

def getValue (sink : KeySink) : Except PyError ℚ :=
  if sink.action = sumAction then divide sink.values.sum sink.factor
  else if sink.action = meanAction then
    if sink.values ≠ [] then divide sink.values.sum (sink.values.length * sink.factor) else .ok 0
  else .ok 0

def getVector (sink : KeySink) : Except PyError VE := do
  let value <- sink.getValue
  return {
    format := sink.format
    key := sink.key
    info := sink.info
    unit := sink.unit
    vType := sink.vType
    value := value
    base := sink.base
    factor := sink.factor }

end KeySink

structure AGSink where
  action : Text
  targetKey : Option Text
  keySinks : Dict Text KeySink

namespace AGSink

def withKeySinks (sink : AGSink) (keySinks : Dict Text KeySink) : AGSink :=
  { sink with keySinks := keySinks }

def feedVe (sink : AGSink) (ve : VE) : AGSink × VE :=
  let named := ve.withKey (targetOr sink.targetKey ve.key)
  let keySink := (sink.keySinks.lookup named.key).getD (KeySink.new named sink.action)
  (sink.withKeySinks (sink.keySinks.insert named.key (keySink.feedVe named)), named)

def getVector (sink : AGSink) : Except PyError (List VE) :=
  sink.keySinks.values.mapM KeySink.getVector

end AGSink

def AGObj.newSink (obj : AGObj) : AGSink where
  action := obj.action
  targetKey := obj.targetKey
  keySinks := ∅

abbrev Sinks := Dict Text AGSink

/-- The vectors of the sources; the entries are objects that are changed in place. -/
abbrev VDict := Dict Text Filtered

def openSink (tls : AGTopLevelStruct) (localAggs : Sinks) (aggName : Text) : Except PyError Sinks :=
  if aggName ∈ localAggs then .ok localAggs
  else do
    let obj <- getItem tls.aggLut aggName
    return localAggs.insert aggName obj.newSink

def feedName (state : Sinks × VE) (aggName : Text) : Except PyError (Sinks × VE) := do
  let sink <- getItem state.1 aggName
  let fed := sink.feedVe state.2
  return (state.1.insert aggName fed.1, fed.2)

def feedEntries (localAggs : Sinks) :
    List (List Text × VE) -> Except PyError (Sinks × List (List Text × VE))
  | [] => .ok (localAggs, [])
  | entry :: later => do
      let (localAggs, ve) <- entry.1.foldlM feedName (localAggs, entry.2)
      let (localAggs, rest) <- feedEntries localAggs later
      return (localAggs, (entry.1, ve) :: rest)

def addSource (tls : AGTopLevelStruct) (state : VDict × Sinks) (uuid : Text) :
    Except PyError (VDict × Sinks) :=
  match state.1.lookup uuid with
  | none => .ok state
  | some filtered => do
      let localAggs <- filtered.usedAggs.foldlM (openSink tls) state.2
      let (localAggs, res) <- feedEntries localAggs filtered.res
      return (state.1.insert uuid ⟨filtered.usedAggs, res⟩, localAggs)

def createAggregates (tls : AGTopLevelStruct) (srcUuids : List Text) (vDict : VDict) :
    Except PyError (VDict × List VE) := do
  let (vDict, localAggs) <- srcUuids.foldlM (addSource tls) (vDict, ∅)
  let groupValues <- localAggs.values.mapM AGSink.getVector
  return (vDict, groupValues.flatten)

/-!
## What sinks hold

After any entries have been fed, a sink has for each key what was fed to it under this key: the
values in their order, and the other fields as the first entry has them.
-/

def fedFor (fed : List (Text × VE)) (name key : Text) : List VE :=
  (fed.filter fun feed => feed.1 = name ∧ feed.2.key = key).map Prod.snd

theorem fedFor_append (fed later : List (Text × VE)) (name key : Text) :
    fedFor (fed ++ later) name key = fedFor fed name key ++ fedFor later name key := by
  unfold fedFor
  rw [filter_append, map_append]

theorem fedFor_single (fedName : Text) (ve : VE) (name key : Text) :
    fedFor [(fedName, ve)] name key = if fedName = name ∧ ve.key = key then [ve] else [] := by
  unfold fedFor
  by_cases h : fedName = name ∧ ve.key = key
  · rw [filter_cons, if_pos (decide_eq_true h), if_pos h]
    rfl
  · rw [filter_cons, if_neg (by simpa using h), if_neg h]
    rfl

def keySinkOf (action : Text) : List VE -> Option KeySink
  | [] => none
  | ve :: later => some { KeySink.new ve action with values := (ve :: later).map VE.getValue }

theorem keySinkOf_append (action : Text) (ves : List VE) (ve : VE) :
    keySinkOf action (ves ++ [ve]) =
      some (((keySinkOf action ves).getD (KeySink.new ve action)).feedVe ve) := by
  cases ves with
  | nil => rfl
  | cons first later =>
    have hvalues : (first :: later ++ [ve]).map VE.getValue =
        (first :: later).map VE.getValue ++ [ve.getValue] := map_append
    exact congrArg (fun values => some { KeySink.new first action with values := values }) hvalues

structure SinkHolds (tls : AGTopLevelStruct) (fed : List (Text × VE)) (name : Text)
    (sink : AGSink) : Prop where
  ofObj : exists obj, tls.aggLut.lookup name = some obj ∧ sink.action = obj.action ∧
    sink.targetKey = obj.targetKey
  keySinks : forall key, sink.keySinks.lookup key = keySinkOf sink.action (fedFor fed name key)

structure Holds (tls : AGTopLevelStruct) (localAggs : Sinks) (fed : List (Text × VE)) : Prop where
  sinks : forall name sink, localAggs.lookup name = some sink -> SinkHolds tls fed name sink
  missing : forall name, name ∉ localAggs -> forall key, fedFor fed name key = []

theorem holds_empty (tls : AGTopLevelStruct) : Holds tls ∅ [] where
  sinks := by
    intro name sink h
    cases h
  missing := fun _ _ _ => rfl

variable {tls : AGTopLevelStruct} {fed : List (Text × VE)} {localAggs : Sinks}

theorem Holds.openSink
    (h : Holds tls localAggs fed) {aggName : Text} (hknown : aggName ∈ tls.aggLut) :
    exists after, openSink tls localAggs aggName = .ok after ∧ Holds tls after fed ∧
      forall name, name ∈ after <-> name = aggName ∨ name ∈ localAggs := by
  unfold Aggregate.openSink
  by_cases hopen : aggName ∈ localAggs
  · rw [if_pos hopen]
    refine ⟨localAggs, rfl, h, fun name => ?_⟩
    constructor
    · exact Or.inr
    · rintro (rfl | hmem)
      · exact hopen
      · exact hmem
  rw [if_neg hopen]
  rcases Dict.exists_lookup hknown with ⟨obj, hobj⟩
  have hget : getItem tls.aggLut aggName = .ok obj := by
    unfold getItem
    rw [hobj]
    rfl
  refine ⟨localAggs.insert aggName obj.newSink, bind_eq_ok hget rfl, ?_, fun name =>
    AList.mem_insert localAggs⟩
  exact {
    sinks := by
      intro name sink hlookup
      rw [Dict.lookup_insert_if] at hlookup
      by_cases hname : aggName = name
      · subst hname
        rw [if_pos rfl] at hlookup
        cases hlookup
        refine ⟨⟨obj, hobj, rfl, rfl⟩, fun key => ?_⟩
        rw [h.missing aggName hopen key]
        rfl
      · rw [if_neg hname] at hlookup
        exact h.sinks name sink hlookup
    missing := by
      intro name hname
      exact h.missing name fun hmem => hname ((AList.mem_insert localAggs).mpr (Or.inr hmem)) }

theorem Holds.openSinks (h : Holds tls localAggs fed) {usedAggs : List Text}
    (hknown : forall name, name ∈ usedAggs -> name ∈ tls.aggLut) :
    exists after, usedAggs.foldlM (Aggregate.openSink tls) localAggs = .ok after ∧
      Holds tls after fed ∧ forall name, name ∈ usedAggs -> name ∈ after := by
  have hfold : forall (names : List Text) (localAggs : Sinks), Holds tls localAggs fed ->
      (forall name, name ∈ names -> name ∈ tls.aggLut) ->
      exists after, names.foldlM (Aggregate.openSink tls) localAggs = .ok after ∧
        Holds tls after fed ∧ forall name, name ∈ names ∨ name ∈ localAggs -> name ∈ after := by
    intro names
    induction names with
    | nil =>
      intro localAggs h _
      refine ⟨localAggs, rfl, h, ?_⟩
      rintro name (hmem | hmem)
      · cases hmem
      · exact hmem
    | cons first rest ih =>
      intro localAggs h hknown
      rcases h.openSink (hknown first mem_cons_self) with ⟨next, hnext, hholds, hmem⟩
      rcases ih next hholds (fun name hname => hknown name (mem_cons_of_mem first hname)) with
        ⟨after, hafter, hlast, hlater⟩
      refine ⟨after, ?_, hlast, ?_⟩
      · rw [foldlM_cons]
        exact bind_eq_ok hnext hafter
      · rintro name (hname | hname)
        · rcases mem_cons.mp hname with heq | hrest
          · exact hlater name (Or.inr ((hmem name).mpr (Or.inl heq)))
          · exact hlater name (Or.inl hrest)
        · exact hlater name (Or.inr ((hmem name).mpr (Or.inr hname)))
  rcases hfold usedAggs localAggs h hknown with ⟨after, hafter, hlast, hmem⟩
  exact ⟨after, hafter, hlast, fun name hname => hmem name (Or.inl hname)⟩

/-- The key under which an aggregate sums up an entry. -/
def sinkKey (tls : AGTopLevelStruct) (name key : Text) : Text :=
  (tls.aggLut.lookup name).elim key fun obj => targetOr obj.targetKey key

def renamed (tls : AGTopLevelStruct) (ve : VE) (name : Text) : VE :=
  ve.withKey (sinkKey tls name ve.key)

def feedsOf (tls : AGTopLevelStruct) : List Text -> VE -> List (Text × VE)
  | [], _ => []
  | name :: rest, ve => (name, renamed tls ve name) :: feedsOf tls rest (renamed tls ve name)

theorem Holds.feedName
    (h : Holds tls localAggs fed) {aggName : Text} (hopen : aggName ∈ localAggs) (ve : VE) :
    exists after, feedName (localAggs, ve) aggName = .ok (after, renamed tls ve aggName) ∧
      Holds tls after (fed ++ [(aggName, renamed tls ve aggName)]) ∧
      forall name, name ∈ after <-> name ∈ localAggs := by
  rcases Dict.exists_lookup hopen with ⟨sink, hsink⟩
  have hget : getItem localAggs aggName = .ok sink := by
    unfold getItem
    rw [hsink]
    rfl
  have hold := h.sinks aggName sink hsink
  rcases hold.ofObj with ⟨obj, hobj, haction, htarget⟩
  have hnamed : ve.withKey (targetOr sink.targetKey ve.key) = renamed tls ve aggName := by
    unfold renamed sinkKey
    rw [hobj, htarget]
    rfl
  have hfed : sink.feedVe ve = (sink.withKeySinks (sink.keySinks.insert (renamed tls ve aggName).key
      (((sink.keySinks.lookup (renamed tls ve aggName).key).getD
        (KeySink.new (renamed tls ve aggName) sink.action)).feedVe (renamed tls ve aggName))),
      renamed tls ve aggName) := by
    unfold AGSink.feedVe
    rw [hnamed]
  have hmem : forall name, name ∈ localAggs.insert aggName (sink.feedVe ve).1 <-> name ∈ localAggs := by
    intro name
    rw [AList.mem_insert]
    constructor
    · rintro (rfl | hmem)
      · exact hopen
      · exact hmem
    · exact Or.inr
  refine ⟨localAggs.insert aggName (sink.feedVe ve).1, ?_, ?_, hmem⟩
  · unfold Aggregate.feedName
    rw [bind_of_ok hget]
    show Except.ok (_, (sink.feedVe ve).2) = _
    rw [hfed]
  exact {
    sinks := by
      intro name other hlookup
      rw [Dict.lookup_insert_if] at hlookup
      by_cases hname : aggName = name
      · subst hname
        rw [if_pos rfl, hfed] at hlookup
        cases hlookup
        refine ⟨⟨obj, hobj, haction, htarget⟩, fun key => ?_⟩
        show AList.lookup key (sink.keySinks.insert _ _) = keySinkOf sink.action _
        rw [Dict.lookup_insert_if, fedFor_append, fedFor_single]
        by_cases hkey : (renamed tls ve aggName).key = key
        · rw [if_pos hkey, if_pos ⟨rfl, hkey⟩, keySinkOf_append, ← hold.keySinks key, hkey]
        · rw [if_neg hkey, if_neg (fun h => hkey h.right), append_nil]
          exact hold.keySinks key
      · rw [if_neg hname] at hlookup
        have hother := h.sinks name other hlookup
        refine ⟨hother.ofObj, fun key => ?_⟩
        rw [fedFor_append, fedFor_single, if_neg (fun h => hname h.left), append_nil]
        exact hother.keySinks key
    missing := by
      intro name hname key
      have habsent : name ∉ localAggs := fun hin => hname ((hmem name).mpr hin)
      have hne : aggName ≠ name := by
        rintro rfl
        exact habsent hopen
      rw [fedFor_append, fedFor_single, if_neg (fun h => hne h.left), append_nil]
      exact h.missing name habsent key }

theorem Holds.feedNames {names : List Text} (h : Holds tls localAggs fed)
    (hopen : forall name, name ∈ names -> name ∈ localAggs) (ve : VE) :
    exists after, names.foldlM Aggregate.feedName (localAggs, ve) =
        .ok (after, names.foldl (renamed tls) ve) ∧
      Holds tls after (fed ++ feedsOf tls names ve) ∧
      forall name, name ∈ after <-> name ∈ localAggs := by
  induction names generalizing localAggs fed ve with
  | nil =>
    refine ⟨localAggs, rfl, ?_, fun _ => Iff.rfl⟩
    show Holds tls localAggs (fed ++ [])
    rw [append_nil]
    exact h
  | cons first rest ih =>
    rcases h.feedName (hopen first mem_cons_self) ve with ⟨next, hnext, hholds, hmem⟩
    have hrest : forall name, name ∈ rest -> name ∈ next := fun name hname =>
      (hmem name).mpr (hopen name (mem_cons_of_mem first hname))
    rcases ih hholds hrest (renamed tls ve first) with ⟨after, hafter, hlast, hsame⟩
    refine ⟨after, ?_, ?_, fun name => (hsame name).trans (hmem name)⟩
    · rw [foldlM_cons]
      exact bind_eq_ok hnext hafter
    · rw [append_assoc] at hlast
      exact hlast

end Icsw.Aggregate
