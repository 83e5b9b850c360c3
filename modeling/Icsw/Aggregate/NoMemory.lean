import Icsw.Aggregate.Model

/-!
# Filtering without memory

The tables of what was matched answer for texts that were taken, not for keys that were looked at.
The answers are right in every order of calls exactly if each key that is matched is taken whole,
once for each aggregate.
-/

namespace Icsw.Aggregate

open Foundation List

namespace AGObj

def matchesKey (re : Re) (obj : AGObj) (key : Text) : Bool :=
  obj.reDict.items.any fun item => item.2.any fun expr => (re.groupDict expr key).isSome

end AGObj

variable (re : Re)

variable (ags : List (Text × AGObj))

def matching (key : Text) : List Text :=
  (ags.filter fun ag => ag.2.matchesKey re key).map Prod.fst

def Names (key : Text) (names : List Text) : Prop :=
  names.Nodup ∧ forall name, name ∈ names <-> name ∈ matching re ags key

structure RightFor (inList : List VE) (filtered : Filtered) :
    Prop where
  entries : filtered.res.map Prod.snd = inList.filter fun ve => matching re ags ve.key ≠ []
  names : forall entry, entry ∈ filtered.res -> Names re ags entry.2.key entry.1
  used : forall name, name ∈ filtered.usedAggs <->
    exists ve, ve ∈ inList ∧ name ∈ matching re ags ve.key

/-- Every call returns what is right for its vector, which is also what the first call would have
returned for it. -/
def WithoutMemory (tls : AGTopLevelStruct) (calls : List (List VE)) : Prop :=
  exists results, tls.filterCalls calls = .ok results ∧
    List.Forall₂ (fun inList filtered => RightFor re tls.ags inList filtered ∧
      exists after, tls.filter inList = .ok (after, filtered)) calls results

/-- The groups that took part in a match: what they took, with their names. -/
def taken (groups : GroupDict) : List (Text × Text) :=
  groups.filterMap fun group => group.2.map fun text => (text, group.1)

def groupsFor (key : Text) (entry : Text × List Text) : GroupDict :=
  (re.groupDict (namedPattern entry.1 entry.2) key).getD []

def takenFor (key : Text) (lists : List (Text × List Text)) : List (Text × Text) :=
  lists.flatMap fun entry => taken (groupsFor re key entry)

structure TakenWhole (key : Text) : Prop where
  whole : forall group, group ∈ takenFor re key (triedFor ags (firstPart key)) -> group.1 = key
  once : Names re ags key ((takenFor re key (triedFor ags (firstPart key))).map Prod.snd)

theorem taken_append (first second : GroupDict) :
    taken (first ++ second) = taken first ++ taken second := filterMap_append

theorem taken_flatMap (key : Text) (lists : List (Text × List Text)) :
    taken (lists.flatMap (groupsFor re key)) = takenFor re key lists := by
  induction lists with
  | nil => rfl
  | cons first rest ih =>
    rw [flatMap_cons, taken_append, ih]
    rfl

theorem exists_of_mem_getD {α : Type} {found : Option (List α)} {item : α}
    (h : item ∈ found.getD []) : exists items, found = some items ∧ item ∈ items := by
  cases found with
  | none => cases h
  | some items => exact ⟨items, rfl, h⟩

theorem exists_of_groupDict {re : Re} {pattern key : Text} {groups : GroupDict}
    (h : re.groupDict pattern key = some groups) :
    exists compiled, re.compile pattern = .ok compiled ∧ compiled key = some groups := by
  unfold Re.groupDict at h
  cases hcompile : re.compile pattern with
  | error raised =>
    rw [hcompile] at h
    cases h
  | ok compiled =>
    rw [hcompile] at h
    exact ⟨compiled, rfl, h⟩

theorem infix_of_taken {re : Re} {key : Text} {lists : List (Text × List Text)}
    {group : Text × Text} (h : group ∈ takenFor re key lists) : group.1 <:+: key := by
  rcases mem_flatMap.mp h with ⟨entry, _, hgroup⟩
  rcases mem_filterMap.mp hgroup with ⟨⟨name, found⟩, hfound, htaken⟩
  rcases Option.map_eq_some_iff.mp htaken with ⟨text, htext, rfl⟩
  rcases exists_of_mem_getD hfound with ⟨groups, hgroups, hmem⟩
  rcases exists_of_groupDict hgroups with ⟨compiled, hcompile, hmatch⟩
  cases htext
  exact re.groups_infix hcompile hmatch hmem

theorem flatten_filterMap_cons {α β : Type} (f : α -> Option (List β)) (first : α) (rest : List α) :
    ((first :: rest).filterMap f).flatten = (f first).getD [] ++ (rest.filterMap f).flatten := by
  cases hfirst : f first with
  | none => rw [filterMap_cons_none hfirst, Option.getD_none, nil_append]
  | some items => rw [filterMap_cons_some hfirst, flatten_cons, Option.getD_some]

theorem flatten_matches {re : Re} {lists : List (Text × List Text)} {patterns : List Pattern}
    (h : AGTopLevelStruct.buildRe re lists = .ok patterns) (key : Text) :
    (patterns.filterMap fun compiled => compiled key).flatten =
      lists.flatMap (groupsFor re key) := by
  induction lists generalizing patterns with
  | nil =>
    cases h
    rfl
  | cons first rest ih =>
    unfold AGTopLevelStruct.buildRe at h
    rw [mapM_cons] at h
    rcases exists_of_bind h with ⟨compiled, hcompile, hrest⟩
    rcases exists_of_bind hrest with ⟨later, hlater, hreturn⟩
    cases hreturn
    have hgroups : groupsFor re key first = (compiled key).getD [] := by
      unfold groupsFor Re.groupDict
      rw [hcompile]
      rfl
    rw [flatMap_cons, ← ih hlater, hgroups]
    exact flatten_filterMap_cons (fun compiled : Pattern => compiled key) compiled later

/-- The tables hold what was filed, in the order in which it was. -/
structure Represents (matched : Matched) (table : List (Text × Text)) : Prop where
  all : forall text, some text ∈ matched.allMatched <-> text ∈ table.map Prod.fst
  lut : forall text, (matched.lut.lookup (some text)).getD [] = MemoTable.answers table text
  present : forall text, text ∈ table.map Prod.fst -> some text ∈ matched.lut

theorem represents_empty : Represents Matched.empty [] where
  all := by
    intro text
    constructor
    · intro h
      cases h
    · intro h
      cases h
  lut := fun text => rfl
  present := by
    intro text h
    cases h

theorem Matched.lookup_add (matched : Matched) (group : Text × Option Text) (text : Option Text) :
    (matched.add group).lut.lookup text =
      if group.2 = text then some ((matched.lut.lookup group.2).getD [] ++ [group.1])
      else matched.lut.lookup text :=
  Dict.lookup_insert_if matched.lut group.2 text _

variable {table : List (Text × Text)} {matched : Matched}

theorem Represents.add (h : Represents matched table) (group : Text × Option Text) :
    Represents (matched.add group) (table ++ taken [group]) := by
  rcases group with ⟨name, found⟩
  cases found with
  | none =>
    show Represents _ (table ++ [])
    rw [append_nil]
    exact {
      all := by
        intro text
        rw [← h.all text]
        show some text ∈ List.insert none matched.allMatched <-> _
        rw [mem_insert_iff]
        exact or_iff_right (Option.some_ne_none text)
      lut := by
        intro text
        rw [← h.lut text, Matched.lookup_add, if_neg (Option.some_ne_none text).symm]
      present := fun text hmem => AList.mem_insert _ |>.mpr (Or.inr (h.present text hmem)) }
  | some own =>
    show Represents _ (table ++ [(own, name)])
    have hmem : forall text, text ∈ (table ++ [(own, name)]).map Prod.fst <->
        text = own ∨ text ∈ table.map Prod.fst := by
      intro text
      rw [map_append, mem_append, map_singleton, mem_singleton]
      exact Or.comm
    exact {
      all := by
        intro text
        rw [hmem, ← h.all text]
        show some text ∈ List.insert (some own) matched.allMatched <-> _
        rw [mem_insert_iff, Option.some_inj]
      lut := by
        intro text
        rw [MemoTable.answers_append, ← h.lut text, Matched.lookup_add]
        by_cases heq : own = text
        · have hown : MemoTable.answers [(own, name)] text = [name] := by
            simp [MemoTable.answers, heq]
          rw [hown, if_pos (congrArg some heq), heq]
          rfl
        · have hother : MemoTable.answers [(own, name)] text = [] := by
            simp [MemoTable.answers, heq]
          rw [hother, if_neg (fun hsome => heq (Option.some.inj hsome)), append_nil]
      present := by
        intro text htext
        rcases (hmem text).mp htext with heq | hold
        · exact (AList.mem_insert _).mpr (Or.inl (congrArg some heq))
        · exact (AList.mem_insert _).mpr (Or.inr (h.present text hold)) }

theorem Represents.addAll (h : Represents matched table) (groups : GroupDict) :
    Represents (groups.foldl Matched.add matched) (table ++ taken groups) := by
  induction groups generalizing matched table with
  | nil =>
    show Represents matched (table ++ [])
    rw [append_nil]
    exact h
  | cons first rest ih =>
    have hrest := ih (h.add first)
    rw [append_assoc, ← taken_append] at hrest
    exact hrest

def found (tls : AGTopLevelStruct) (key : Text) : List (Text × Text) :=
  takenFor re key (((AGTopLevelStruct.pooled tls.reDict).lookup (firstPart key)).getD [])

def addEntry (filtered : Filtered) (names : List Text) (ve : VE) : Filtered :=
  if names = [] then filtered else ⟨filtered.usedAggs ∪ names, filtered.res ++ [(names, ve)]⟩

/-- What a call returns that begins with a table. -/
def answered (found : Text -> List (Text × Text)) :
    List (Text × Text) -> Filtered -> List VE -> Filtered
  | _, filtered, [] => filtered
  | table, filtered, ve :: later =>
    let next := MemoTable.consult found table ve.key
    answered found next (addEntry filtered (MemoTable.answers next ve.key) ve) later

def answeredCalls (found : Text -> List (Text × Text)) :
    List (Text × Text) -> List (List VE) -> List Filtered
  | _, [] => []
  | table, inList :: later =>
    answered found table ⟨[], []⟩ inList ::
      answeredCalls found (run (MemoTable.consult found) table (inList.map VE.key)) later

section Calls

variable {re : Re} {tls : AGTopLevelStruct} (built : AGTopLevelStruct.Built re tls)
include built

section

variable (h : Represents matched table)
include h

theorem lookAt_represents (key : Text) :
    exists after, tls.lookAt matched key = .ok after ∧
      Represents after (MemoTable.consult (found re tls) table key) := by
  unfold AGTopLevelStruct.lookAt
  by_cases hall : some key ∈ matched.allMatched
  · rw [if_pos hall, MemoTable.consult_of_mem ((h.all key).mp hall)]
    exact ⟨matched, rfl, h⟩
  rw [if_neg hall, MemoTable.consult_of_not_mem fun hmem => hall ((h.all key).mpr hmem)]
  by_cases htop : firstPart key ∈ tls.topLevelKeys
  · rcases built.compiled (firstPart key) htop with ⟨patterns, hlookup, hbuild⟩
    have hget : getItem tls.topLevelRes (firstPart key) = .ok patterns := by
      unfold getItem
      rw [hlookup]
      rfl
    have hgroups := h.addAll ((patterns.filterMap fun compiled => compiled key).flatten)
    rw [flatten_matches hbuild, taken_flatMap] at hgroups
    rw [if_pos htop, hget, ← flatten_matches hbuild] at *
    exact ⟨_, rfl, hgroups⟩
  · have hnone : found re tls key = [] := by
      unfold found
      rw [built.absent (firstPart key) htop]
      rfl
    rw [if_neg htop, hnone, append_nil]
    exact ⟨matched, rfl, h⟩

theorem filterEntry_represents (filtered : Filtered) (ve : VE) :
    exists after, tls.filterEntry (matched, filtered) ve = .ok (after, addEntry filtered
        (MemoTable.answers (MemoTable.consult (found re tls) table ve.key) ve.key) ve) ∧
      Represents after (MemoTable.consult (found re tls) table ve.key) := by
  rcases lookAt_represents built h ve.key with ⟨after, hlook, hafter⟩
  refine ⟨after, ?_, hafter⟩
  unfold AGTopLevelStruct.filterEntry addEntry
  rw [bind_of_ok hlook]
  by_cases hall : some ve.key ∈ after.allMatched
  · have hmem := (hafter.all ve.key).mp hall
    rcases Dict.exists_lookup (hafter.present ve.key hmem) with
      ⟨names, hnames⟩
    have hanswers := hafter.lut ve.key
    rw [hnames, Option.getD_some] at hanswers
    have hget : getItem after.lut (some ve.key) = .ok names := by
      unfold getItem
      rw [hnames]
      rfl
    have hne : ¬ names = [] := fun hnil =>
      MemoTable.answers_eq_nil_iff.mp (hanswers.symm.trans hnil) hmem
    rw [if_pos hall, bind_of_ok hget, ← hanswers, if_neg hne]
    rfl
  · have hnil := MemoTable.answers_eq_nil_iff.mpr fun hmem => hall ((hafter.all ve.key).mpr hmem)
    rw [if_neg hall, if_pos hnil]
    rfl

theorem filter_represents (inList : List VE) :
    exists after, (tls.withMatched matched).filter inList =
        .ok (tls.withMatched after, answered (found re tls) table ⟨[], []⟩ inList) ∧
      Represents after (run (MemoTable.consult (found re tls)) table (inList.map VE.key)) := by
  have hfold : forall (entries : List VE) (matched : Matched) (table : List (Text × Text))
      (filtered : Filtered), Represents matched table ->
      exists after, entries.foldlM tls.filterEntry (matched, filtered) =
          .ok (after, answered (found re tls) table filtered entries) ∧
        Represents after (run (MemoTable.consult (found re tls)) table (entries.map VE.key)) := by
    intro entries
    induction entries with
    | nil => exact fun matched table filtered h => ⟨matched, rfl, h⟩
    | cons ve later ih =>
      intro matched table filtered h
      rcases filterEntry_represents built h filtered ve with ⟨next, hnext, hrep⟩
      rcases ih next _ _ hrep with ⟨after, hafter, hlast⟩
      refine ⟨after, ?_, hlast⟩
      rw [foldlM_cons]
      exact bind_eq_ok hnext hafter
  rcases hfold inList matched table ⟨[], []⟩ h with ⟨after, hafter, hrep⟩
  refine ⟨after, ?_, hrep⟩
  exact bind_eq_ok hafter rfl

theorem filterCalls_represents (calls : List (List VE)) :
    (tls.withMatched matched).filterCalls calls =
      .ok (answeredCalls (found re tls) table calls) := by
  induction calls generalizing matched table with
  | nil => rfl
  | cons inList later ih =>
    rcases filter_represents built h inList with ⟨after, hafter, hrep⟩
    unfold AGTopLevelStruct.filterCalls
    exact bind_eq_ok hafter (bind_eq_ok (ih hrep) rfl)

end

end Calls

end Icsw.Aggregate
