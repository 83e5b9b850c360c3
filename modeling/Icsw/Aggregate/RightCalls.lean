import Icsw.Aggregate.NoMemory

/-!
# Right calls

Where every key that is looked at is taken whole, calls do not depend on one another.  A text that
is taken of a longer key is counted again when it comes as a key of its own.
-/

namespace Icsw.Aggregate

open Foundation List
open MemoTable

variable {re : Re} {key : Text}

theorem takenFor_perm {lists lists' : List (Text × List Text)}
    (h : lists.Perm lists') : (takenFor re key lists).Perm (takenFor re key lists') :=
  h.flatMap_right _

variable {ags : List (Text × AGObj)}

theorem Names.perm {names names' : List Text}
    (h : names.Perm names') (hnames : Names re ags key names) : Names re ags key names' :=
  ⟨h.nodup_iff.mp hnames.left, fun name => h.mem_iff.symm.trans (hnames.right name)⟩

variable {tls : AGTopLevelStruct}

theorem takenWhole_iff (built : AGTopLevelStruct.Built re tls)
    (key : Text) : TakenWhole re tls.ags key <->
      OwnKey (found re tls) key ∧ Names re tls.ags key ((found re tls key).map Prod.snd) := by
  have hperm : (found re tls key).Perm
      (takenFor re key (triedFor tls.ags (firstPart key))) :=
    takenFor_perm (built.tried (firstPart key))
  constructor
  · intro h
    exact ⟨fun group hgroup => h.whole group (hperm.mem_iff.mp hgroup),
      h.once.perm (hperm.map Prod.snd).symm⟩
  · rintro ⟨hown, hnames⟩
    exact ⟨fun group hgroup => hown group (hperm.mem_iff.mpr hgroup),
      hnames.perm (hperm.map Prod.snd)⟩

theorem nodup_matching (built : AGTopLevelStruct.Built re tls)
    (key : Text) : (matching re tls.ags key).Nodup := by
  have hnames : (tls.ags.map Prod.fst).Nodup := by
    rw [built.names]
    exact nodup_namesUpTo _
  exact hnames.sublist (filter_sublist.map Prod.fst)

variable {names : List Text}

theorem names_iff_perm (built : AGTopLevelStruct.Built re tls) :
    Names re tls.ags key names <-> names.Perm (matching re tls.ags key) := by
  constructor
  · intro h
    exact (perm_ext_iff_of_nodup h.left (nodup_matching built key)).mpr h.right
  · intro h
    exact ⟨h.nodup_iff.mpr (nodup_matching built key), fun name => h.mem_iff⟩

theorem matching_eq_nil_iff
    (h : Names re ags key names) : matching re ags key = [] <-> names = [] := by
  rw [eq_nil_iff_forall_not_mem, eq_nil_iff_forall_not_mem]
  exact forall_congr' fun name => not_congr (h.right name).symm

def direct (found : Text -> List (Text × Text)) (inList : List VE) : Filtered :=
  inList.foldl (fun filtered ve => addEntry filtered ((found ve.key).map Prod.snd) ve) ⟨[], []⟩

variable {inList : List VE} {table : List (Text × Text)}

theorem answered_of_own {found : Text -> List (Text × Text)}
    (hown : forall ve, ve ∈ inList -> OwnKey found ve.key)
    (hfiled : Filed found table) (filtered : Filtered) :
    answered found table filtered inList =
        inList.foldl (fun filtered ve => addEntry filtered ((found ve.key).map Prod.snd) ve)
          filtered ∧
      Filed found (run (consult found) table (inList.map VE.key)) := by
  induction inList generalizing table filtered with
  | nil => exact ⟨rfl, hfiled⟩
  | cons ve later ih =>
    have hfirst := hown ve mem_cons_self
    have hrest := ih (fun other hother => hown other (mem_cons_of_mem ve hother))
      (hfiled.consult hfirst)
      (addEntry filtered ((found ve.key).map Prod.snd) ve)
    refine ⟨?_, hrest.right⟩
    show answered found (consult found table ve.key) (addEntry filtered
      (answers (consult found table ve.key) ve.key) ve) later = _
    rw [hfiled.answers_consult hfirst]
    exact hrest.left

variable {calls : List (List VE)}

theorem answeredCalls_of_own {found : Text -> List (Text × Text)}
    (hown : forall inList, inList ∈ calls -> forall ve, ve ∈ inList -> OwnKey found ve.key)
    (hfiled : Filed found table) :
    answeredCalls found table calls = calls.map (direct found) := by
  induction calls generalizing table with
  | nil => rfl
  | cons inList later ih =>
    have hfirst := answered_of_own (hown inList mem_cons_self) hfiled ⟨[], []⟩
    unfold answeredCalls
    rw [hfirst.left, ih (fun other hother => hown other (mem_cons_of_mem inList hother))
      hfirst.right]
    rfl

theorem direct_append (found : Text -> List (Text × Text)) (inList : List VE) (ve : VE) :
    direct found (inList ++ [ve]) =
      addEntry (direct found inList) ((found ve.key).map Prod.snd) ve := by
  unfold direct
  rw [foldl_append]
  rfl

theorem RightFor.addEntry {filtered : Filtered} (h : RightFor re ags inList filtered) {ve : VE}
    (hnames : Names re ags ve.key names) :
    RightFor re ags (inList ++ [ve]) (addEntry filtered names ve) := by
  have hmem : forall name, (exists other, other ∈ inList ++ [ve] ∧
      name ∈ matching re ags other.key) <-> name ∈ filtered.usedAggs ∨ name ∈ names := by
    intro name
    rw [h.used name, hnames.right name]
    constructor
    · rintro ⟨other, hother, hname⟩
      rcases mem_append.mp hother with hold | hnew
      · exact Or.inl ⟨other, hold, hname⟩
      · rw [mem_singleton.mp hnew] at hname
        exact Or.inr hname
    · rintro (⟨other, hother, hname⟩ | hname)
      · exact ⟨other, mem_append_left _ hother, hname⟩
      · exact ⟨ve, mem_append_right _ (mem_singleton_self ve), hname⟩
  have hfilter : (inList ++ [ve]).filter (fun ve => matching re ags ve.key ≠ []) =
      filtered.res.map Prod.snd ++ if names = [] then [] else [ve] := by
    rw [h.entries, filter_append, filter_cons, filter_nil]
    by_cases hnil : names = []
    · have hmatching := (matching_eq_nil_iff hnames).mpr hnil
      rw [if_pos hnil, if_neg (by simpa using hmatching)]
    · have hmatching := mt (matching_eq_nil_iff hnames).mp hnil
      rw [if_neg hnil, if_pos (by simpa using hmatching)]
  unfold Aggregate.addEntry
  by_cases hnil : names = []
  · rw [if_pos hnil] at hfilter ⊢
    rw [append_nil] at hfilter
    exact {
      entries := hfilter.symm
      names := h.names
      used := by
        intro name
        rw [hmem, hnil]
        exact (or_iff_left not_mem_nil).symm }
  · rw [if_neg hnil] at hfilter ⊢
    exact {
      entries := by
        rw [hfilter]
        exact map_append
      names := by
        intro entry hentry
        rcases mem_append.mp hentry with hold | hnew
        · exact h.names entry hold
        · rw [mem_singleton.mp hnew]
          exact hnames
      used := by
        intro name
        rw [hmem]
        exact mem_union_iff }

theorem rightFor_direct {found : Text -> List (Text × Text)}
    (hnames : forall ve, ve ∈ inList -> Names re ags ve.key ((found ve.key).map Prod.snd)) :
    RightFor re ags inList (direct found inList) := by
  induction inList using reverseRecOn with
  | nil =>
    exact {
      entries := rfl
      names := by
        intro entry hentry
        cases hentry
      used := by
        intro name
        constructor
        · intro h
          cases h
        · rintro ⟨ve, hve, _⟩
          cases hve }
  | append_singleton inList ve ih =>
    rw [direct_append]
    exact (ih fun other hother => hnames other (mem_append_left _ hother)).addEntry
      (hnames ve (mem_append_right _ (mem_singleton_self ve)))

theorem withoutMemory_of_whole (built : AGTopLevelStruct.Built re tls)
    (hwhole : forall inList, inList ∈ calls -> forall ve, ve ∈ inList ->
      TakenWhole re tls.ags ve.key) : WithoutMemory re tls calls := by
  have hempty : Represents tls.matched [] := built.unmatched ▸ represents_empty
  have hown : forall inList, inList ∈ calls -> forall ve, ve ∈ inList ->
      OwnKey (found re tls) ve.key := fun inList hin ve hve =>
    ((takenWhole_iff built ve.key).mp (hwhole inList hin ve hve)).left
  refine ⟨answeredCalls (found re tls) [] calls, filterCalls_represents built hempty calls, ?_⟩
  rw [answeredCalls_of_own hown (filed_nil _), forall₂_map_right_iff, forall₂_same]
  intro inList hin
  constructor
  · exact rightFor_direct fun ve hve =>
      ((takenWhole_iff built ve.key).mp (hwhole inList hin ve hve)).right
  · rcases filter_represents built hempty inList with ⟨after, hafter, _⟩
    rw [(answered_of_own (hown inList hin) (filed_nil _) ⟨[], []⟩).left] at hafter
    exact ⟨tls.withMatched after, hafter⟩

def entryOf (key : Text) : VE where
  format := []
  key := key
  info := []
  unit := []
  vType := []
  value := 0
  base := 1
  factor := 1

theorem answeredCalls_append (found : Text -> List (Text × Text)) (table : List (Text × Text))
    (keys : List Text) (key : Text) :
    answeredCalls found table ((keys ++ [key]).map fun key => [entryOf key]) =
      answeredCalls found table (keys.map fun key => [entryOf key]) ++
        [addEntry ⟨[], []⟩ (answers (run (consult found) table (keys ++ [key])) key)
          (entryOf key)] := by
  induction keys generalizing table with
  | nil => rfl
  | cons first rest ih =>
    exact congrArg (cons _) (ih (consult found table first))

/-- If no call ever returns anything wrong, the tables always answer with the aggregates that
match. -/
theorem alwaysRight_of_withoutMemory (built : AGTopLevelStruct.Built re tls)
    (h : forall calls, WithoutMemory re tls calls) :
    AlwaysRight (found re tls) (matching re tls.ags) := by
  intro keys key
  have hempty : Represents tls.matched [] := built.unmatched ▸ represents_empty
  rcases h ((keys ++ [key]).map fun key => [entryOf key]) with ⟨results, hresults, hright⟩
  have hcalls := filterCalls_represents built hempty ((keys ++ [key]).map fun key => [entryOf key])
  have heq : results = _ := Except.ok.inj (hresults.symm.trans hcalls)
  rw [heq, answeredCalls_append, map_append, ← forall₂_reverse_iff, reverse_append,
    reverse_append] at hright
  have hlast := (forall₂_cons.mp hright).left.left
  have hentries := hlast.entries
  have hnames := hlast.names
  unfold addEntry at hentries hnames
  by_cases hnil : answers (run (consult (found re tls)) [] (keys ++ [key])) key = []
  · rw [if_pos hnil] at hentries
    have hnone : matching re tls.ags key = [] := by
      by_contra hne
      have hkept : [entryOf key].filter (fun ve => matching re tls.ags ve.key ≠ []) =
          [entryOf key] := by
        have hkey : matching re tls.ags (entryOf key).key ≠ [] := hne
        rw [filter_cons, if_pos (decide_eq_true hkey)]
        rfl
      rw [hkept] at hentries
      cases hentries
    rw [hnil, hnone]
  · rw [if_neg hnil] at hnames
    exact (names_iff_perm built).mp (hnames _ (mem_singleton_self _))

theorem found_size (key : Text) (group : Text × Text)
    (h : group ∈ found re tls key) : group.1 = key ∨ group.1.length < key.length := by
  have hpart : group.1 <:+: key := infix_of_taken h
  rcases Nat.lt_or_ge group.1.length key.length with hless | hge
  · exact Or.inr hless
  · exact Or.inl (hpart.eq_of_length_le hge)

/-- Calls in which every key is taken whole do not depend on one another, and no calls do exactly
if every key is. -/
theorem filter_without_memory_iff {re : Re} {xmls : List AggregateXml} {tls : AGTopLevelStruct}
    (h : AGTopLevelStruct.ofAggregates re xmls = .ok tls) :
    (forall calls, (forall inList, inList ∈ calls -> forall ve, ve ∈ inList ->
        TakenWhole re tls.ags ve.key) -> WithoutMemory re tls calls) ∧
      ((forall calls, WithoutMemory re tls calls) <-> forall key, TakenWhole re tls.ags key) := by
  have built := AGTopLevelStruct.built_ofAggregates h
  refine ⟨fun calls hwhole => withoutMemory_of_whole built hwhole, ?_, ?_⟩
  · intro hcalls key
    have hright := (@alwaysRight_iff Text Text _ _ _ List.length found_size).mp
      (alwaysRight_of_withoutMemory built hcalls) key
    exact (takenWhole_iff built key).mpr ⟨hright.left, (names_iff_perm built).mpr hright.right⟩
  · intro hwhole calls
    exact withoutMemory_of_whole built fun inList _ ve _ => hwhole ve.key

def powerKey : Text := "pdu.output.power".toList

def powerXml : AggregateXml where
  keyList := [⟨"pdu.output".toList, "power".toList⟩]
  action := "sum".toList
  targetKey := none

def powerExpression : Text := "^pdu\\.output\\.power".toList

def powerPattern : Text := "(?P<agg1>(^pdu\\.output\\.power))".toList

def powerGroups (pattern : Text) : Option GroupDict :=
  if pattern = powerExpression then some []
  else if pattern = powerPattern then some [("agg1".toList, some powerKey)]
  else none

theorem powerGroups_taken {pattern : Text} {groups : GroupDict} {name taken : Text}
    (h : powerGroups pattern = some groups) (hmem : (name, some taken) ∈ groups) :
    taken = powerKey := by
  unfold powerGroups at h
  by_cases hfirst : pattern = powerExpression
  · rw [if_pos hfirst] at h
    cases h
    cases hmem
  rw [if_neg hfirst] at h
  by_cases hsecond : pattern = powerPattern
  · rw [if_pos hsecond] at h
    cases h
    cases mem_singleton.mp hmem
    rfl
  · rw [if_neg hsecond] at h
    cases h

/-- The two patterns match what begins with the key. -/
def powerRe : Re where
  compile := fun pattern => (powerGroups pattern).elim (.error .reError) fun groups =>
    .ok fun key => if powerKey.isPrefixOf key then some groups else none
  groups_infix := by
    intro pattern compiled key groups name taken hcompile hmatch hmem
    cases hgroups : powerGroups pattern with
    | none =>
      rw [hgroups] at hcompile
      cases hcompile
    | some own =>
      rw [hgroups] at hcompile
      cases hcompile
      rcases Option.ite_none_right_eq_some.mp hmatch with ⟨hkey, heq⟩
      cases heq
      rw [powerGroups_taken hgroups hmem]
      exact (List.isPrefixOf_iff_prefix.mp hkey).isInfix

theorem power_without_memory_iff :
    exists tls, AGTopLevelStruct.ofAggregates powerRe [powerXml] = .ok tls ∧
      ((forall calls, WithoutMemory powerRe tls calls) <->
        forall key, TakenWhole powerRe tls.ags key) := by
  cases h : AGTopLevelStruct.ofAggregates powerRe [powerXml] with
  | error raised =>
    have hok : (AGTopLevelStruct.ofAggregates powerRe [powerXml]).toOption.isSome = true := by
      decide +kernel
    rw [h] at hok
    cases hok
  | ok tls => exact ⟨tls, rfl, (filter_without_memory_iff h).right⟩

def powerCalls : List (List VE) :=
  [[entryOf "pdu.output.power1".toList], [entryOf "pdu.output.power2".toList], [entryOf powerKey]]

/-- Two longer keys are not returned, and then the aggregate is named twice for the key that was
taken of them. -/
theorem power_counted_twice :
    exists tls, AGTopLevelStruct.ofAggregates powerRe [powerXml] = .ok tls ∧
      ¬ WithoutMemory powerRe tls powerCalls := by
  have hrun : ((AGTopLevelStruct.ofAggregates powerRe [powerXml]).bind fun tls =>
      (tls.filterCalls powerCalls).map (List.map Filtered.res)) =
        .ok [[], [], [(["agg1".toList, "agg1".toList], entryOf powerKey)]] := by
    decide +kernel
  cases h : AGTopLevelStruct.ofAggregates powerRe [powerXml] with
  | error raised =>
    rw [h] at hrun
    cases hrun
  | ok tls =>
    refine ⟨tls, rfl, ?_⟩
    rintro ⟨results, hresults, hright⟩
    rw [h] at hrun
    have hres : (tls.filterCalls powerCalls).map (List.map Filtered.res) = _ := hrun
    rw [hresults] at hres
    have hres : results.map Filtered.res = _ := Except.ok.inj hres
    rcases List.forall₂_cons_left_iff.mp hright with ⟨first, later, _, hlater, rfl⟩
    rcases List.forall₂_cons_left_iff.mp hlater with ⟨second, last, _, hlast, rfl⟩
    rcases List.forall₂_cons_left_iff.mp hlast with ⟨third, rest, hthird, _, rfl⟩
    have hthirdRes : third.res = [(["agg1".toList, "agg1".toList], entryOf powerKey)] := by
      simp only [map_cons, List.cons.injEq] at hres
      exact hres.right.right.left
    have hnames := (hthird.left.names (["agg1".toList, "agg1".toList], entryOf powerKey)
      (by rw [hthirdRes]; exact mem_singleton_self _)).left
    simp at hnames

end Icsw.Aggregate
