import Icsw.Foundation.Dict
import Icsw.Monitoring.Limits

/-!
# Keys that follow the vector

A full machine vector updates the values of a host, and keys of vector lines time out.  The keys of
a host follow its vectors exactly if nothing that is sent has timed out already, every key that is
not sent any more is one of a line, and a key does not time out without a new one.
-/

namespace Icsw.Collectd

open Foundation List

/-- An entry of a machine vector, with what is read of its attributes. -/
structure Mve (C : Type) where
  name : Text
  content : C

/-- A line of a machine vector.  Its values have keys of their own. -/
structure Mvl (C : Type) where
  name : Text
  timeout : Option Int
  values : List (Text × C)

structure MachineVector (C : Type) where
  mves : List (Mve C)
  mvls : List (Mvl C)

namespace Mvl

variable {C : Type}

/-- `"{}.{}".format(entry_name, val_key)` -/
def keyOf (entry : Mvl C) (valKey : Text) : Text := entry.name ++ '.' :: valKey

def validUntil (curTime : Rat) (entry : Mvl C) : Int :=
  entry.timeout.getD (Monitoring.PyFloat.truncate curTime + 120)

end Mvl

structure Value (C : Type) where
  content : C
  lastUpdate : Rat
  timeout : Option Int

structure CollectdHostInfo (C : Type) where
  dict : Dict Text (Value C)
  updates : Nat

section Update

variable {C : Type}

def timeoutIn (dict : Dict Text (Value C)) (key : Text) : Option Int :=
  (dict.lookup key).bind Value.timeout

def updateMve (curTime : Rat) (dict : Dict Text (Value C)) (entry : Mve C) : Dict Text (Value C) :=
  dict.insert entry.name ⟨entry.content, curTime, timeoutIn dict entry.name⟩

def updateMvl (curTime : Rat) (dict : Dict Text (Value C)) (entry : Mvl C) : Dict Text (Value C) :=
  entry.values.foldl (fun dict val => dict.insert (entry.keyOf val.1)
    ⟨val.2, curTime, some (entry.validUntil curTime)⟩) dict

/-- The values after all entries and lines of a vector. -/
def feedVector (curTime : Rat) (dict : Dict Text (Value C)) (vector : MachineVector C) :
    Dict Text (Value C) :=
  vector.mvls.foldl (updateMvl curTime) (vector.mves.foldl (updateMve curTime) dict)

/-- `value.timeout and value.timeout < cur_time` -/
def passed (curTime : Rat) (timeout : Option Int) : Bool :=
  timeout.any fun limit : Int => limit ≠ 0 ∧ (limit : Rat) < curTime

/-- `del dict[key]` -/
def delItem (dict : Dict Text (Value C)) (key : Text) : Except PyError (Dict Text (Value C)) :=
  if (dict.lookup key).isSome then .ok (dict.erase key) else .error .keyError

namespace CollectdHostInfo

def new : CollectdHostInfo C := ⟨∅, 0⟩

def update (host : CollectdHostInfo C) (curTime : Rat) (vector : MachineVector C) :
    Except PyError (CollectdHostInfo C × Bool) := do
  let fed := feedVector curTime host.dict vector
  let toKeys := fed.keys.filter fun key => passed curTime (timeoutIn fed key)
  let dict <- toKeys.foldlM delItem fed
  let oldKeys := host.dict.keys.filter fun key => key ∉ toKeys
  let newKeys := dict.keys
  let delKeys := oldKeys.filter fun key => key ∉ newKeys
  let cKeys := delKeys ++ newKeys.filter fun key => key ∉ oldKeys
  if cKeys = [] then return ({ host with dict := dict }, false)
  else
    let dict <- delKeys.foldlM delItem dict
    return (⟨dict, host.updates + 1⟩, true)

end CollectdHostInfo

end Update

structure UpdateCall (C : Type) where
  curTime : Rat
  vector : MachineVector C

section Runs

variable {C : Type}

namespace MachineVector

def validity (curTime : Rat) (vector : MachineVector C) : List (Text × Int) :=
  vector.mvls.flatMap fun entry => entry.values.map fun val =>
    (entry.keyOf val.1, entry.validUntil curTime)

def keys (vector : MachineVector C) : List Text :=
  vector.mves.map Mve.name ++
    vector.mvls.flatMap fun entry => entry.values.map fun val => entry.keyOf val.1

end MachineVector

def lastFor (rows : List (Text × Int)) (key : Text) : Option Int :=
  (rows.filter fun row => row.1 = key).getLast?.map Prod.snd

def validUntil (calls : List (UpdateCall C)) (key : Text) : Option Int :=
  lastFor (calls.flatMap fun call => call.vector.validity call.curTime) key

def hostAfter (calls : List (UpdateCall C)) : Except PyError (CollectdHostInfo C) :=
  calls.foldlM (fun host call => (host.update call.curTime call.vector).map Prod.fst)
    CollectdHostInfo.new

/-- After a call the keys are those of the vector and of earlier lines that are still valid, and
the call says whether they have changed. -/
def KeysFollow (earlier : List (UpdateCall C)) (call : UpdateCall C) : Prop :=
  exists before after changed, hostAfter earlier = .ok before ∧
    before.update call.curTime call.vector = .ok (after, changed) ∧
      (forall key, key ∈ after.dict <-> key ∈ call.vector.keys ∨
        exists limit, validUntil earlier key = some limit ∧ call.curTime ≤ limit) ∧
      (changed = true <-> ¬ forall key, key ∈ after.dict <-> key ∈ before.dict)

end Runs

variable {C : Type}

/-- What is sent has not timed out, what is not sent any more can time out, and a key times out
only when a new one is sent. -/
structure KeysInTime (before : CollectdHostInfo C) (call : UpdateCall C) : Prop where
  arrived : forall key, key ∈ call.vector.keys -> passed call.curTime
    ((lastFor (call.vector.validity call.curTime) key).or (timeoutIn before.dict key)) = false
  gone : forall key, key ∈ before.dict -> key ∉ call.vector.keys ->
    exists limit, timeoutIn before.dict key = some limit ∧ (limit = 0 -> call.curTime ≤ 0)
  seen : (exists key, key ∈ before.dict ∧ key ∉ call.vector.keys ∧
      passed call.curTime (timeoutIn before.dict key) = true) ->
    exists key, key ∈ call.vector.keys ∧ key ∉ before.dict

section Feed

variable {curTime : Rat} {dict : Dict Text (Value C)}

theorem lastFor_append (first second : List (Text × Int)) (key : Text) :
    lastFor (first ++ second) key = (lastFor second key).or (lastFor first key) := by
  unfold lastFor
  rw [filter_append, getLast?_append]
  cases (second.filter fun row => row.1 = key).getLast? <;> rfl

theorem lastFor_cons (row : Text × Int) (rest : List (Text × Int)) (key : Text) :
    lastFor (row :: rest) key =
      (lastFor rest key).or (if row.1 = key then some row.2 else none) := by
  rw [show row :: rest = [row] ++ rest from rfl, lastFor_append]
  congr 1
  unfold lastFor
  by_cases h : row.1 = key
  · simp [h]
  · simp [h]

theorem feed_mves (mves : List (Mve C)) (key : Text) :
    (key ∈ mves.foldl (updateMve curTime) dict <-> key ∈ dict ∨ key ∈ mves.map Mve.name) ∧
      timeoutIn (mves.foldl (updateMve curTime) dict) key = timeoutIn dict key := by
  induction mves generalizing dict with
  | nil => simp
  | cons entry rest ih =>
    rw [foldl_cons]
    refine ⟨ih.left.trans ?_, ih.right.trans ?_⟩
    · unfold updateMve
      rw [AList.mem_insert, map_cons, mem_cons]
      tauto
    · unfold timeoutIn updateMve
      rw [Dict.lookup_insert_if]
      split
      · rename_i heq
        rw [heq]
        rfl
      · rfl

theorem feed_lines (lines : List (Text × C × Int)) (key : Text) :
    let fed := lines.foldl (fun dict line => dict.insert line.1 ⟨line.2.1, curTime, some line.2.2⟩) dict
    (key ∈ fed <-> key ∈ dict ∨ key ∈ lines.map Prod.fst) ∧
      timeoutIn fed key =
        (lastFor (lines.map fun line => (line.1, line.2.2)) key).or (timeoutIn dict key) := by
  induction lines generalizing dict with
  | nil => simp [lastFor]
  | cons line rest ih =>
    dsimp only at ih ⊢
    rw [foldl_cons]
    refine ⟨ih.left.trans ?_, ih.right.trans ?_⟩
    · rw [AList.mem_insert, map_cons, mem_cons]
      tauto
    · rw [map_cons, lastFor_cons, Option.or_assoc]
      congr 1
      unfold timeoutIn
      rw [Dict.lookup_insert_if]
      by_cases h : line.1 = key
      · simp [h]
      · simp [h]

def lines (curTime : Rat) (vector : MachineVector C) : List (Text × C × Int) :=
  vector.mvls.flatMap fun entry => entry.values.map fun val =>
    (entry.keyOf val.1, val.2, entry.validUntil curTime)

theorem feed_vector (vector : MachineVector C) (key : Text) :
    (key ∈ feedVector curTime dict vector <-> key ∈ dict ∨ key ∈ vector.keys) ∧
      timeoutIn (feedVector curTime dict vector) key =
        (lastFor (vector.validity curTime) key).or (timeoutIn dict key) := by
  have hfold : feedVector curTime dict vector = (lines curTime vector).foldl
      (fun dict line => dict.insert line.1 ⟨line.2.1, curTime, some line.2.2⟩)
      (vector.mves.foldl (updateMve curTime) dict) := by
    unfold feedVector lines
    rw [foldl_flatMap]
    congr 1
    funext dict entry
    rw [foldl_map]
    rfl
  have hkeys : vector.keys = vector.mves.map Mve.name ++ (lines curTime vector).map Prod.fst := by
    unfold MachineVector.keys lines
    rw [map_flatMap]
    simp only [map_map]
    rfl
  have hvalidity : vector.validity curTime =
      (lines curTime vector).map fun line => (line.1, line.2.2) := by
    unfold MachineVector.validity lines
    rw [map_flatMap]
    simp only [map_map]
    rfl
  have hmves := @feed_mves C curTime dict vector.mves key
  have hlines := @feed_lines C curTime (vector.mves.foldl (updateMve curTime) dict)
    (lines curTime vector) key
  dsimp only at hlines
  rw [hfold, hkeys, hvalidity, hlines.right, hmves.right]
  refine ⟨?_, rfl⟩
  rw [hlines.left, hmves.left, mem_append, or_assoc]

theorem del_items {keys : List Text} (hnodup : keys.Nodup)
    (hmem : forall key, key ∈ keys -> key ∈ dict) :
    exists result, keys.foldlM delItem dict = .ok result ∧ forall key,
      result.lookup key = if key ∈ keys then none else dict.lookup key := by
  induction keys generalizing dict with
  | nil => exact ⟨dict, rfl, fun key => (if_neg not_mem_nil).symm⟩
  | cons first rest ih =>
    have hfirst := nodup_cons.mp hnodup
    have hdel : delItem dict first = .ok (dict.erase first) :=
      if_pos (AList.lookup_isSome.mpr (hmem first mem_cons_self))
    rcases @ih (dict.erase first) hfirst.right (fun key hkey =>
      AList.mem_erase.mpr ⟨fun heq => hfirst.left (heq ▸ hkey),
        hmem key (mem_cons_of_mem _ hkey)⟩) with ⟨result, hresult, hlookup⟩
    refine ⟨result, ?_, fun key => ?_⟩
    · rw [foldlM_cons, hdel]
      exact hresult
    · rw [hlookup key]
      by_cases heq : key = first
      · rw [heq, if_neg hfirst.left, if_pos mem_cons_self, AList.lookup_erase]
      · rw [AList.lookup_erase_ne heq]
        simp [heq]

end Feed

structure Updated (before after : CollectdHostInfo C) (call : UpdateCall C) (changed : Bool) : Prop where
  keys : forall key, key ∈ after.dict <-> (key ∈ before.dict ∨ key ∈ call.vector.keys) ∧
    passed call.curTime ((lastFor (call.vector.validity call.curTime) key).or
      (timeoutIn before.dict key)) = false
  timeouts : forall key, key ∈ after.dict -> timeoutIn after.dict key =
    (lastFor (call.vector.validity call.curTime) key).or (timeoutIn before.dict key)
  changed : changed = true <-> exists key, key ∈ after.dict ∧ key ∉ before.dict

theorem updated (before : CollectdHostInfo C) (call : UpdateCall C) :
    exists after changed, before.update call.curTime call.vector = .ok (after, changed) ∧
      Updated before after call changed := by
  let fed := feedVector call.curTime before.dict call.vector
  have hfed := @feed_vector C call.curTime before.dict call.vector
  let toKeys := fed.keys.filter fun key => passed call.curTime (timeoutIn fed key)
  have htoKeys : forall key, key ∈ toKeys <-> key ∈ fed ∧ passed call.curTime
      ((lastFor (call.vector.validity call.curTime) key).or (timeoutIn before.dict key)) = true := by
    intro key
    rw [mem_filter, AList.mem_keys, ← (hfed key).right]
  rcases @del_items C fed toKeys ((AList.keys_nodup fed).filter _)
    (fun key hkey => ((htoKeys key).mp hkey).left) with ⟨dict, hdict, hlookup⟩
  have hmem : forall key, key ∈ dict <-> (key ∈ before.dict ∨ key ∈ call.vector.keys) ∧
      passed call.curTime ((lastFor (call.vector.validity call.curTime) key).or
        (timeoutIn before.dict key)) = false := by
    intro key
    rw [← AList.lookup_isSome, hlookup key, ← (hfed key).left]
    by_cases hkey : key ∈ toKeys
    · have hpassed := ((htoKeys key).mp hkey).right
      rw [if_pos hkey, hpassed]
      simp
    · rw [if_neg hkey, AList.lookup_isSome]
      refine ⟨fun hin => ⟨hin, ?_⟩, And.left⟩
      exact Bool.eq_false_iff.mpr fun hpassed => hkey ((htoKeys key).mpr ⟨hin, hpassed⟩)
  have htimeouts : forall key, key ∈ dict -> timeoutIn dict key =
      (lastFor (call.vector.validity call.curTime) key).or (timeoutIn before.dict key) := by
    intro key hkey
    rw [← (hfed key).right]
    unfold timeoutIn
    rw [hlookup key, if_neg]
    intro hin
    have hpassed := ((htoKeys key).mp hin).right
    rw [((hmem key).mp hkey).right] at hpassed
    cases hpassed
  let oldKeys := before.dict.keys.filter fun key => key ∉ toKeys
  have hold : forall key, key ∈ oldKeys -> key ∈ dict := by
    intro key hkey
    have hfilter := mem_filter.mp hkey
    have hin : key ∈ fed := (hfed key).left.mpr (Or.inl (AList.mem_keys.mp hfilter.left))
    refine (hmem key).mpr ⟨Or.inl (AList.mem_keys.mp hfilter.left), ?_⟩
    exact Bool.eq_false_iff.mpr fun hpassed =>
      of_decide_eq_true hfilter.right ((htoKeys key).mpr ⟨hin, hpassed⟩)
  have hdelKeys : (oldKeys.filter fun key => key ∉ dict.keys) = [] := by
    rw [filter_eq_nil_iff]
    intro key hkey
    rw [decide_eq_true_eq, not_not]
    exact AList.mem_keys.mpr (hold key hkey)
  have hnew : (dict.keys.filter fun key => key ∉ oldKeys) = [] <->
      ¬ exists key, key ∈ dict ∧ key ∉ before.dict := by
    rw [filter_eq_nil_iff]
    constructor
    · rintro hall ⟨key, hkey, hnot⟩
      apply hall key (AList.mem_keys.mpr hkey)
      rw [decide_eq_true_eq]
      exact fun hin => hnot (AList.mem_keys.mp (mem_of_mem_filter hin))
    · intro hnone key hkey hnot
      refine hnone ⟨key, AList.mem_keys.mp hkey, fun hin => of_decide_eq_true hnot ?_⟩
      refine mem_filter.mpr ⟨AList.mem_keys.mpr hin, decide_eq_true fun hto => ?_⟩
      have hpassed := ((htoKeys key).mp hto).right
      rw [((hmem key).mp (AList.mem_keys.mp hkey)).right] at hpassed
      cases hpassed
  by_cases hc : (dict.keys.filter fun key => key ∉ oldKeys) = []
  · refine ⟨{ before with dict := dict }, false, ?_, hmem, htimeouts, ?_⟩
    · unfold CollectdHostInfo.update
      rw [bind_of_ok hdict]
      exact if_pos (by rw [hdelKeys, hc]; rfl)
    · exact iff_of_false Bool.false_ne_true (hnew.mp hc)
  · refine ⟨⟨dict, before.updates + 1⟩, true, ?_, hmem, htimeouts, ?_⟩
    · unfold CollectdHostInfo.update
      rw [bind_of_ok hdict]
      refine (if_neg (by rw [hdelKeys, nil_append]; exact hc)).trans ?_
      rw [hdelKeys]
      rfl
    · exact iff_of_true rfl (not_not.mp (mt hnew.mpr hc))

variable {limit : Int} {vector : MachineVector C} {key : Text}

theorem mem_keys_of_lastFor {curTime : Rat}
    (h : lastFor (vector.validity curTime) key = some limit) : key ∈ vector.keys := by
  rcases Option.map_eq_some_iff.mp h with ⟨row, hrow, _⟩
  have hfilter := mem_filter.mp (mem_of_getLast? hrow)
  rcases mem_flatMap.mp hfilter.left with ⟨entry, hentry, hmem⟩
  rcases mem_map.mp hmem with ⟨val, hval, heq⟩
  rw [← of_decide_eq_true hfilter.right, ← heq]
  exact mem_append_right _
    (mem_flatMap.mpr ⟨entry, hentry, mem_map.mpr ⟨val, hval, rfl⟩⟩)

theorem lastFor_eq_none (h : key ∉ vector.keys)
    (curTime : Rat) : lastFor (vector.validity curTime) key = none := by
  cases hlast : lastFor (vector.validity curTime) key with
  | none => rfl
  | some limit => exact absurd (mem_keys_of_lastFor hlast) h

theorem mem_of_timeoutIn {dict : Dict Text (Value C)}
    (h : timeoutIn dict key = some limit) : key ∈ dict := by
  rcases Option.bind_eq_some_iff.mp h with ⟨value, hvalue, _⟩
  exact AList.lookup_isSome.mp (hvalue ▸ rfl)

theorem not_passed_iff {curTime : Rat} :
    passed curTime (some limit) = false <-> limit = 0 ∨ curTime ≤ limit := by
  show decide _ = false <-> _
  rw [decide_eq_false_iff_not, not_and_or, not_not, not_lt]

/-- What is held of the validity is what has been said last, and what is not held has passed. -/
structure Recalled (earlier : List (UpdateCall C)) (host : CollectdHostInfo C) : Prop where
  held : forall key limit, timeoutIn host.dict key = some limit ->
    validUntil earlier key = some limit
  lost : forall key limit, validUntil earlier key = some limit ->
    timeoutIn host.dict key = some limit ∨ exists call, call ∈ earlier ∧ (limit : Rat) < call.curTime

theorem validUntil_concat (earlier : List (UpdateCall C)) (call : UpdateCall C) (key : Text) :
    validUntil (earlier ++ [call]) key =
      (lastFor (call.vector.validity call.curTime) key).or (validUntil earlier key) := by
  unfold validUntil
  rw [flatMap_append, flatMap_singleton, lastFor_append]

variable {earlier : List (UpdateCall C)} {call : UpdateCall C}

theorem Recalled.updated {before after : CollectdHostInfo C}
    {changed : Bool} (h : Recalled earlier before)
    (hupdated : Updated before after call changed) : Recalled (earlier ++ [call]) after := by
  constructor
  · intro key limit htimeout
    rw [hupdated.timeouts key (mem_of_timeoutIn htimeout)] at htimeout
    rw [validUntil_concat]
    cases hlast : lastFor (call.vector.validity call.curTime) key with
    | some last =>
      rw [hlast] at htimeout
      exact htimeout
    | none =>
      rw [hlast] at htimeout
      exact h.held key limit htimeout
  · intro key limit hvalid
    rw [validUntil_concat] at hvalid
    have hcase : (lastFor (call.vector.validity call.curTime) key).or (timeoutIn before.dict key) =
        some limit ∧ (key ∈ before.dict ∨ key ∈ call.vector.keys) ∨
          exists call', call' ∈ earlier ∧ (limit : Rat) < call'.curTime := by
      cases hlast : lastFor (call.vector.validity call.curTime) key with
      | some last =>
        rw [hlast] at hvalid
        exact Or.inl ⟨hvalid, Or.inr (mem_keys_of_lastFor hlast)⟩
      | none =>
        rw [hlast] at hvalid
        exact (h.lost key limit hvalid).imp (fun htimeout => ⟨htimeout, Or.inl
          (mem_of_timeoutIn htimeout)⟩) id
    rcases hcase with ⟨htimeout, hknown⟩ | ⟨call', hcall, hpast⟩
    · cases hpassed : passed call.curTime (some limit) with
      | false =>
        have hkey := (hupdated.keys key).mpr ⟨hknown, by rw [htimeout]; exact hpassed⟩
        exact Or.inl ((hupdated.timeouts key hkey).trans htimeout)
      | true =>
        have hpast := (of_decide_eq_true hpassed).right
        exact Or.inr ⟨call, mem_append_right _ (mem_singleton_self _), hpast⟩
    · exact Or.inr ⟨call', mem_append_left _ hcall, hpast⟩

theorem exists_hostAfter (calls : List (UpdateCall C)) :
    exists host, hostAfter calls = .ok host ∧ Recalled calls host := by
  induction calls using reverseRec with
  | nil => exact ⟨CollectdHostInfo.new, rfl, fun _ _ h => (by cases h), fun _ _ h => (by cases h)⟩
  | append_singleton calls call ih =>
    rcases ih with ⟨before, hbefore, hrecalled⟩
    rcases updated before call with ⟨after, changed, hupdate, hupdated⟩
    refine ⟨after, ?_, hrecalled.updated hupdated⟩
    unfold hostAfter at hbefore ⊢
    rw [foldlM_append, bind_of_ok hbefore, foldlM_cons, hupdate]
    rfl

theorem keysFollow_iff {before : CollectdHostInfo C} (hbefore : hostAfter earlier = .ok before)
    (hclock : forall call', call' ∈ earlier -> call'.curTime ≤ call.curTime) :
    KeysFollow earlier call <-> KeysInTime before call := by
  have hrecalled : Recalled earlier before := by
    rcases exists_hostAfter earlier with ⟨host, hhost, hrecalled⟩
    exact Except.ok.inj (hbefore.symm.trans hhost) ▸ hrecalled
  have hvalid : forall key, (exists limit, validUntil earlier key = some limit ∧
      call.curTime ≤ limit) <->
        exists limit, timeoutIn before.dict key = some limit ∧ call.curTime ≤ limit := by
    intro key
    constructor
    · rintro ⟨limit, hvalid, htime⟩
      rcases hrecalled.lost key limit hvalid with htimeout | ⟨call', hcall, hpast⟩
      · exact ⟨limit, htimeout, htime⟩
      · exact absurd (hpast.trans_le (hclock call' hcall)) (not_lt.mpr htime)
    · rintro ⟨limit, htimeout, htime⟩
      exact ⟨limit, hrecalled.held key limit htimeout, htime⟩
  rcases updated before call with ⟨after, changed, hupdate, hupdated⟩
  constructor
  · rintro ⟨before', after', changed', hbefore', hupdate', hkeys, hchanged⟩
    rw [← Except.ok.inj (hbefore.symm.trans hbefore'), hupdate] at hupdate'
    have hsame := Prod.mk.inj (Except.ok.inj hupdate')
    rw [← Except.ok.inj (hbefore.symm.trans hbefore'), ← hsame.left, ← hsame.right] at hchanged
    rw [← hsame.left] at hkeys
    refine ⟨fun key hkey => (((hupdated.keys key).mp ((hkeys key).mpr (Or.inl hkey))).right), ?_, ?_⟩
    · intro key hkey hnot
      have hnone := lastFor_eq_none hnot call.curTime
      have hafter : passed call.curTime (timeoutIn before.dict key) = false ->
          exists limit, timeoutIn before.dict key = some limit ∧ call.curTime ≤ limit := by
        intro hpassed
        have hin := (hupdated.keys key).mpr ⟨Or.inl hkey, by rw [hnone]; exact hpassed⟩
        exact (hvalid key).mp (((hkeys key).mp hin).resolve_left hnot)
      cases htimeout : timeoutIn before.dict key with
      | none =>
        rw [htimeout] at hafter
        rcases hafter rfl with ⟨limit, hsome, _⟩
        cases hsome
      | some limit =>
        refine ⟨limit, rfl, fun hzero => ?_⟩
        rcases hafter (htimeout ▸ not_passed_iff.mpr (Or.inl hzero)) with ⟨limit', hsome, htime⟩
        rw [htimeout] at hsome
        rw [← Option.some.inj hsome, hzero] at htime
        exact_mod_cast htime
    · rintro ⟨key, hkey, hnot, hpassed⟩
      have hgone : key ∉ after.dict := by
        intro hin
        have hfalse := ((hupdated.keys key).mp hin).right
        rw [lastFor_eq_none hnot] at hfalse
        exact absurd hpassed (Bool.eq_false_iff.mp hfalse)
      rcases hupdated.changed.mp (hchanged.mpr fun hall => hgone ((hall key).mpr hkey)) with
        ⟨new, hnew, hunknown⟩
      exact ⟨new, ((hupdated.keys new).mp hnew).left.resolve_left hunknown, hunknown⟩
  · intro hintime
    refine ⟨before, after, changed, hbefore, hupdate, fun key => ?_, ?_⟩
    · rw [hupdated.keys key, hvalid key]
      constructor
      · rintro ⟨hknown, hpassed⟩
        by_cases hkey : key ∈ call.vector.keys
        · exact Or.inl hkey
        · rcases hintime.gone key (hknown.resolve_right hkey) hkey with ⟨limit, htimeout, hzero⟩
          rw [lastFor_eq_none hkey, Option.none_or, htimeout] at hpassed
          refine Or.inr ⟨limit, htimeout, ?_⟩
          rcases not_passed_iff.mp hpassed with heq | htime
          · rw [heq]
            exact_mod_cast hzero heq
          · exact htime
      · intro hspec
        by_cases hkey : key ∈ call.vector.keys
        · exact ⟨Or.inr hkey, hintime.arrived key hkey⟩
        · rcases hspec.resolve_left hkey with ⟨limit, htimeout, htime⟩
          refine ⟨Or.inl (mem_of_timeoutIn htimeout), ?_⟩
          rw [lastFor_eq_none hkey, Option.none_or, htimeout]
          exact not_passed_iff.mpr (Or.inr htime)
    · rw [hupdated.changed]
      constructor
      · rintro ⟨key, hkey, hnot⟩ hall
        exact hnot ((hall key).mp hkey)
      · intro hdiffer
        by_contra hnone
        apply hdiffer
        intro key
        refine ⟨fun hkey => by_contra fun hnot => hnone ⟨key, hkey, hnot⟩, fun hkey => ?_⟩
        by_contra hgone
        have hpassed : passed call.curTime ((lastFor (call.vector.validity call.curTime) key).or
            (timeoutIn before.dict key)) = true := by
          by_contra hnot
          exact hgone ((hupdated.keys key).mpr ⟨Or.inl hkey, Bool.eq_false_iff.mpr hnot⟩)
        have hnot : key ∉ call.vector.keys := fun hin =>
          absurd hpassed (Bool.eq_false_iff.mp (hintime.arrived key hin))
        rw [lastFor_eq_none hnot, Option.none_or] at hpassed
        rcases hintime.seen ⟨key, hkey, hnot, hpassed⟩ with ⟨new, hnew, hunknown⟩
        exact hnone ⟨new, (hupdated.keys new).mpr ⟨Or.inr hnew, hintime.arrived new hnew⟩, hunknown⟩

/-- In every sequence of calls with a clock that does not go back, the keys follow the vectors
exactly if they are in time in every call. -/
theorem keysFollow_runs_iff {calls : List (UpdateCall C)}
    (hclock : calls.Pairwise fun first second => first.curTime ≤ second.curTime) :
    (forall earlier call later, calls = earlier ++ call :: later -> KeysFollow earlier call) <->
      forall earlier call later before, calls = earlier ++ call :: later ->
        hostAfter earlier = .ok before -> KeysInTime before call := by
  have hearlier : forall earlier call later, calls = earlier ++ call :: later ->
      forall call', call' ∈ earlier -> call'.curTime ≤ call.curTime := by
    rintro earlier call later rfl call' hcall
    exact (pairwise_append.mp hclock).right.right call' hcall call mem_cons_self
  constructor
  · intro hfollow earlier call later before heq hbefore
    exact (keysFollow_iff hbefore (hearlier earlier call later heq)).mp
      (hfollow earlier call later heq)
  · intro hintime earlier call later heq
    rcases exists_hostAfter earlier with ⟨before, hbefore, _⟩
    exact (keysFollow_iff hbefore (hearlier earlier call later heq)).mpr
      (hintime earlier call later before heq hbefore)

def oneEntry (curTime : Rat) (name : Text) : UpdateCall Unit :=
  ⟨curTime, ⟨[⟨name, ()⟩], []⟩⟩

theorem two_vectors_follow_iff :
    (forall earlier call later, [oneEntry 1 "load".toList, oneEntry 2 "load".toList] =
        earlier ++ call :: later -> KeysFollow earlier call) <->
      forall earlier call later before, [oneEntry 1 "load".toList, oneEntry 2 "load".toList] =
        earlier ++ call :: later -> hostAfter earlier = .ok before -> KeysInTime before call :=
  keysFollow_runs_iff (pairwise_cons.mpr ⟨fun call hcall => by
    rw [mem_singleton.mp hcall]
    show (1 : Rat) ≤ 2
    norm_num, pairwise_singleton _ _⟩)

/-- A key that is not in the vector any more stays. -/
theorem old_key_stays : ¬ KeysFollow [oneEntry 1 "load".toList] (oneEntry 2 "mem".toList) := by
  rintro ⟨before, after, changed, hbefore, hupdate, hkeys, _⟩
  have hfirst : hostAfter [oneEntry 1 "load".toList] =
      .ok ⟨(∅ : Dict Text (Value Unit)).insert "load".toList ⟨(), 1, none⟩, 1⟩ := rfl
  rw [← Except.ok.inj (hfirst.symm.trans hbefore)] at hupdate
  rcases @updated Unit ⟨(∅ : Dict Text (Value Unit)).insert "load".toList ⟨(), 1, none⟩, 1⟩
    (oneEntry 2 "mem".toList) with ⟨after', changed', hupdate', hupdated⟩
  rw [hupdate'] at hupdate
  rw [← (Prod.mk.inj (Except.ok.inj hupdate)).left] at hkeys
  have hstays := (hupdated.keys "load".toList).mpr ⟨Or.inl (by decide), rfl⟩
  rcases (hkeys "load".toList).mp hstays with hmem | ⟨limit, hvalid, _⟩
  · exact absurd hmem (by decide)
  · cases hvalid

end Icsw.Collectd
