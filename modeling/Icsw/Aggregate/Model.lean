import Mathlib.Data.List.Lattice
import Icsw.Foundation.Dict
import Icsw.Foundation.Separated
import Icsw.Foundation.MemoTable
import Icsw.Foundation.Decimal

/-!
# Aggregates

The expressions for the keys of vector entries are kept under the first part of their top-level
keys, and what they match is kept in tables from which later entries are answered.
-/

namespace Icsw.Aggregate

open Foundation List

/-- `match.groupdict()` -/
abbrev GroupDict := List (Text × Option Text)

/-- A compiled pattern, by its `match`. -/
abbrev Pattern := Text -> Option GroupDict

/-- The library of regular expressions.  What a group takes is a part of the text. -/
structure Re where
  compile : Text -> Except PyError Pattern
  groups_infix : forall {pattern : Text} {compiled : Pattern} {key : Text} {groups : GroupDict}
    {name taken : Text}, compile pattern = .ok compiled -> compiled key = some groups ->
      (name, some taken) ∈ groups -> taken <:+: key

/-- A vector entry. -/
structure VE where
  format : Text
  key : Text
  info : Text
  unit : Text
  vType : Text
  value : ℚ
  base : Int
  factor : ℚ
deriving DecidableEq

namespace VE

def getValue (ve : VE) : ℚ := ve.value * ve.factor

end VE

structure KeyXml where
  topLevel : Text
  pattern : Text

structure AggregateXml where
  keyList : List KeyXml
  action : Text
  targetKey : Option Text

structure AGObj where
  reDict : Dict Text (List Text)
  action : Text
  targetKey : Option Text

namespace AGObj

def expression (xml : KeyXml) : Text :=
  '^' :: replaceChar '.' ['\\', '.'] xml.topLevel ++ ['\\', '.'] ++ xml.pattern

def ofXml (xml : AggregateXml) : AGObj where
  reDict := Dict.extend KeyXml.topLevel (fun key => [expression key]) ∅ xml.keyList
  action := xml.action
  targetKey := xml.targetKey

end AGObj

/-- `held[key]` -/
def getItem {K V : Type} [DecidableEq K] (held : Dict K V) (key : K) : Except PyError V :=
  (held.lookup key).elim (.error .keyError) .ok

/-- The texts already matched, with the names of their groups. -/
structure Matched where
  allMatched : List (Option Text)
  lut : Dict (Option Text) (List Text)

namespace Matched

def empty : Matched where
  allMatched := []
  lut := ∅

def add (matched : Matched) (group : Text × Option Text) : Matched where
  allMatched := List.insert group.2 matched.allMatched
  lut := matched.lut.insert group.2 ((matched.lut.lookup group.2).getD [] ++ [group.1])

end Matched

structure AGTopLevelStruct where
  /-- The aggregates with their names. -/
  ags : List (Text × AGObj)
  aggIdx : Nat
  aggLut : Dict Text AGObj
  reDict : Dict Text (List (Text × List Text))
  topLevelKeys : List Text
  topLevelRes : Dict Text (List Pattern)
  matched : Matched

/-- What a call of `filter` returns. -/
structure Filtered where
  usedAggs : List Text
  res : List (List Text × VE)

/-- `key.split(".")[0]` -/
def firstPart (key : Text) : Text := (splitAll '.' key).headD []

def aggName (idx : Nat) : Text := "agg".toList ++ Nat.toDigits 10 idx

/-- The expressions of an aggregate as one group. -/
def namedPattern (name : Text) (reList : List Text) : Text :=
  "(?P<".toList ++ name ++ ">(".toList ++ intercalate ['|'] reList ++ "))".toList

namespace AGTopLevelStruct

def withMatched (tls : AGTopLevelStruct) (matched : Matched) : AGTopLevelStruct :=
  { tls with matched := matched }

def init : AGTopLevelStruct where
  ags := []
  aggIdx := 0
  aggLut := ∅
  reDict := ∅
  topLevelKeys := []
  topLevelRes := ∅
  matched := Matched.empty

def buildRe (re : Re) (inList : List (Text × List Text)) : Except PyError (List Pattern) :=
  inList.mapM fun entry => re.compile (namedPattern entry.1 entry.2)

def pooled (reDict : Dict Text (List (Text × List Text))) : Dict Text (List (Text × List Text)) :=
  Dict.extend (fun item => firstPart item.1) Prod.snd ∅ reDict.items

def updateRe (re : Re) (tls : AGTopLevelStruct) : Except PyError AGTopLevelStruct := do
  let entries <- (pooled tls.reDict).items.mapM fun item =>
    (buildRe re item.2).map fun patterns => (item.1, patterns)
  return { tls with
    topLevelKeys := tls.reDict.items.map fun item => firstPart item.1
    topLevelRes := (∅ : Dict Text (List Pattern)).assign entries }

def addAggregate (re : Re) (tls : AGTopLevelStruct) (obj : AGObj) :
    Except PyError AGTopLevelStruct :=
  let name := aggName (tls.aggIdx + 1)
  updateRe re { tls with
    ags := tls.ags ++ [(name, obj)]
    aggIdx := tls.aggIdx + 1
    aggLut := tls.aggLut.insert name obj
    reDict := tls.reDict.extend Prod.fst (fun item => [(name, item.2)]) obj.reDict.items }

def ofAggregates (re : Re) (xmls : List AggregateXml) : Except PyError AGTopLevelStruct :=
  (xmls.map AGObj.ofXml).foldlM (addAggregate re) init

/-- The tables after a key has been looked at. -/
def lookAt (tls : AGTopLevelStruct) (matched : Matched) (key : Text) : Except PyError Matched :=
  if some key ∈ matched.allMatched then .ok matched
  else if firstPart key ∈ tls.topLevelKeys then do
    let patterns <- getItem tls.topLevelRes (firstPart key)
    return (patterns.filterMap fun compiled => compiled key).flatten.foldl Matched.add matched
  else .ok matched

def filterEntry (tls : AGTopLevelStruct) (state : Matched × Filtered) (ve : VE) :
    Except PyError (Matched × Filtered) := do
  let matched <- tls.lookAt state.1 ve.key
  if some ve.key ∈ matched.allMatched then
    let names <- getItem matched.lut (some ve.key)
    return (matched, ⟨state.2.usedAggs ∪ names, state.2.res ++ [(names, ve)]⟩)
  else return (matched, state.2)

def filter (tls : AGTopLevelStruct) (inList : List VE) :
    Except PyError (AGTopLevelStruct × Filtered) := do
  let (matched, filtered) <- inList.foldlM tls.filterEntry (tls.matched, ⟨[], []⟩)
  return (tls.withMatched matched, filtered)

/-- What one call after the other returns. -/
def filterCalls (tls : AGTopLevelStruct) : List (List VE) -> Except PyError (List Filtered)
  | [] => .ok []
  | inList :: later => do
      let (after, filtered) <- tls.filter inList
      let rest <- after.filterCalls later
      return filtered :: rest

end AGTopLevelStruct

/-!
## The tables of the aggregates

What the structure holds when its aggregates have been added: for each first part of a key the
patterns of all aggregates that have a top-level key with this first part.
-/

namespace Re

/-- What the match of a pattern at the beginning of a key gives, if there is one. -/
def groupDict (re : Re) (pattern key : Text) : Option GroupDict :=
  (re.compile pattern).toOption.bind fun compiled => compiled key

end Re

theorem aggName_injective : Function.Injective aggName := by
  intro first second h
  have hdigits : Nat.toDigits 10 first = Nat.toDigits 10 second := append_cancel_left h
  have hvalue := congrArg (Nat.ofDigitChars 10 · 0) hdigits
  simpa only [Nat.ofDigitChars_ten_toDigits] using hvalue

def namesUpTo (count : Nat) : List Text := (range count).map fun idx => aggName (idx + 1)

theorem nodup_namesUpTo (count : Nat) : (namesUpTo count).Nodup := by
  apply Nodup.map_on _ nodup_range
  intro first _ second _ h
  exact Nat.succ.inj (aggName_injective h)

theorem namesUpTo_succ (count : Nat) :
    namesUpTo (count + 1) = namesUpTo count ++ [aggName (count + 1)] := by
  unfold namesUpTo
  rw [range_succ, map_append]
  rfl

def rowsOf (ags : List (Text × AGObj)) : List (Text × Text × List Text) :=
  ags.flatMap fun ag => ag.2.reDict.items.map fun item => (item.1, ag.1, item.2)

/-- The lists of expressions that are tried for a first part, each with the name of its
aggregate. -/
def triedFor (ags : List (Text × AGObj)) (first : Text) : List (Text × List Text) :=
  ((rowsOf ags).filter fun row => firstPart row.1 = first).map Prod.snd

theorem triedFor_append (ags : List (Text × AGObj)) (ag : Text × AGObj) (first : Text) :
    triedFor (ags ++ [ag]) first = triedFor ags first ++
      (ag.2.reDict.items.filter fun item => firstPart item.1 = first).map
        fun item => (ag.1, item.2) := by
  unfold triedFor rowsOf
  rw [flatMap_append, filter_append, map_append, flatMap_singleton,
    filter_map, map_map]
  rfl

namespace AGTopLevelStruct

/-- The tables agree with the aggregates. -/
structure Built (re : Re) (tls : AGTopLevelStruct) : Prop where
  names : tls.ags.map Prod.fst = namesUpTo tls.aggIdx
  known : forall name, name ∈ tls.ags.map Prod.fst -> name ∈ tls.aggLut
  tried : forall first, (((pooled tls.reDict).lookup first).getD []).Perm (triedFor tls.ags first)
  absent : forall first, first ∉ tls.topLevelKeys -> ((pooled tls.reDict).lookup first).getD [] = []
  compiled : forall first, first ∈ tls.topLevelKeys -> exists patterns,
    tls.topLevelRes.lookup first = some patterns ∧
      buildRe re (((pooled tls.reDict).lookup first).getD []) = .ok patterns
  unmatched : tls.matched = Matched.empty

theorem getD_lookup_pooled (reDict : Dict Text (List (Text × List Text))) (first : Text) :
    ((pooled reDict).lookup first).getD [] =
      Dict.listed (fun key => decide (firstPart key = first)) reDict :=
  Dict.getD_lookup_extend (fun item : Text × List (Text × List Text) => firstPart item.1) Prod.snd
    reDict.items first

theorem mem_pooled {reDict : Dict Text (List (Text × List Text))} {first : Text} :
    first ∈ pooled reDict <-> first ∈ reDict.items.map fun item => firstPart item.1 := by
  unfold pooled Dict.extend
  rw [Dict.mem_update, mem_map]
  constructor
  · rintro (hempty | hrow)
    · exact absurd hempty (AList.notMem_empty first)
    · exact hrow
  · exact Or.inr

theorem lookup_assign_mapM {V W : Type} {build : List V -> Except PyError W}
    {dict : Dict Text (List V)} {entries : List (Text × W)}
    (h : (dict.items.mapM fun item => (build item.2).map fun built => (item.1, built)) =
      .ok entries) {key : Text} (hkey : key ∈ dict) :
    exists built, ((∅ : Dict Text W).assign entries).lookup key = some built ∧
      build ((dict.lookup key).getD []) = .ok built := by
  rcases Dict.exists_lookup hkey with ⟨held, hheld⟩
  have hentry : forall entry, entry ∈ entries -> exists items, dict.lookup entry.1 = some items ∧
      build items = .ok entry.2 := by
    intro entry hmem
    rcases (mapM_ok_mem h).right entry hmem with ⟨item, hitem, hok⟩
    cases hbuild : build item.2 with
    | error raised =>
      rw [hbuild] at hok
      cases hok
    | ok built =>
      rw [hbuild] at hok
      cases hok
      exact ⟨item.2, Dict.mem_items.mp hitem, hbuild⟩
  rcases (mapM_ok_mem h).left (key, held) (Dict.mem_items.mpr hheld) with ⟨entry, hmem, hok⟩
  have hname : entry.1 = key := by
    cases hbuild : build held with
    | error raised =>
      rw [hbuild] at hok
      cases hok
    | ok built =>
      rw [hbuild] at hok
      cases hok
      rfl
  rw [Dict.lookup_assign]
  have hne : (entries.filter fun entry => entry.1 = key) ≠ [] :=
    ne_nil_of_mem (mem_filter.mpr ⟨hmem, decide_eq_true hname⟩)
  have hlast := getLast_mem hne
  rw [getLast?_eq_some_getLast hne, Option.map_some]
  refine ⟨_, rfl, ?_⟩
  rcases hentry _ (mem_filter.mp hlast).left with ⟨items, hitems, hbuild⟩
  rw [of_decide_eq_true (mem_filter.mp hlast).right] at hitems
  rw [hitems]
  exact hbuild

theorem updateRe_spec {re : Re} {tls tls' : AGTopLevelStruct} (h : updateRe re tls = .ok tls')
    (hnames : tls.ags.map Prod.fst = namesUpTo tls.aggIdx)
    (hknown : forall name, name ∈ tls.ags.map Prod.fst -> name ∈ tls.aggLut) (htried : forall first,
      (((pooled tls.reDict).lookup first).getD []).Perm (triedFor tls.ags first))
    (hmatched : tls.matched = Matched.empty) : Built re tls' := by
  rcases exists_of_bind h with ⟨entries, hentries, hreturn⟩
  cases hreturn
  have hkeys : forall first, first ∈ tls.reDict.items.map (fun item => firstPart item.1) ->
      first ∈ pooled tls.reDict := fun first hfirst => mem_pooled.mpr hfirst
  exact {
    names := hnames
    known := hknown
    tried := htried
    absent := by
      intro first hfirst
      have hnone : (pooled tls.reDict).lookup first = none :=
        AList.lookup_eq_none.mpr fun hmem => hfirst (mem_pooled.mp hmem)
      rw [hnone]
      rfl
    compiled := fun first hfirst => lookup_assign_mapM hentries (hkeys first hfirst)
    unmatched := hmatched }

theorem built_init (re : Re) : Built re init where
  names := rfl
  known := by
    intro name hname
    cases hname
  tried := fun first => Perm.refl []
  absent := fun first _ => rfl
  compiled := by
    intro first hfirst
    cases hfirst
  unmatched := rfl

theorem Built.addAggregate {re : Re} {tls tls' : AGTopLevelStruct} (built : Built re tls)
    {obj : AGObj} (h : tls.addAggregate re obj = .ok tls') : Built re tls' := by
  apply updateRe_spec h
  · show (tls.ags ++ [_]).map Prod.fst = _
    rw [map_append, built.names, namesUpTo_succ]
    rfl
  · intro name hname
    have hmem : name ∈ tls.ags.map Prod.fst ++ [aggName (tls.aggIdx + 1)] := by
      have hmap : (tls.ags ++ [(aggName (tls.aggIdx + 1), obj)]).map Prod.fst =
          tls.ags.map Prod.fst ++ [aggName (tls.aggIdx + 1)] := map_append
      rw [← hmap]
      exact hname
    show name ∈ tls.aggLut.insert (aggName (tls.aggIdx + 1)) obj
    rw [AList.mem_insert]
    rcases mem_append.mp hmem with hold | hnew
    · exact Or.inr (built.known name hold)
    · exact Or.inl (mem_singleton.mp hnew)
  · intro first
    rw [getD_lookup_pooled]
    apply (Dict.listed_extend _ _ _ _ _).trans
    rw [← getD_lookup_pooled, triedFor_append]
    apply (built.tried first).append
    rw [map_eq_flatMap]
  · exact built.unmatched

theorem built_ofAggregates {re : Re} {xmls : List AggregateXml} {tls : AGTopLevelStruct}
    (h : ofAggregates re xmls = .ok tls) : Built re tls := by
  have hfold : forall (objs : List AGObj) (start : AGTopLevelStruct), Built re start ->
      objs.foldlM (addAggregate re) start = .ok tls -> Built re tls := by
    intro objs
    induction objs with
    | nil =>
      intro start hstart hreturn
      cases hreturn
      exact hstart
    | cons first rest ih =>
      intro start hstart hreturn
      rw [foldlM_cons] at hreturn
      rcases exists_of_bind hreturn with ⟨next, hnext, hrest⟩
      exact ih next (hstart.addAggregate hnext) hrest
  exact hfold _ init (built_init re) h

end AGTopLevelStruct

end Icsw.Aggregate
