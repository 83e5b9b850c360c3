import Icsw.RrdTools.TargetRuns

/-!
# The target reached

After a run the archives of a file are the targets with every consolidation function that the file
had, exactly if every function reaches every target, none twice, and the file can be written.
-/

namespace Icsw.RrdTools

open Foundation List

variable {step : Nat}

/-- The full name of a target. -/
def wantedName (cf : Cf) (name : Text) : Text := "RRA-".toList ++ cf.name ++ '-' :: name

/-- The lists and the dictionary hold the same archives, each once; those that have been built are
all or none. -/
structure ListsAgree (rrd : Rrd step) : Prop where
  nodup : rrd.rraNames.Nodup
  shorts : exists shorts,
    rrd.rraNames.mapM (fun name => part (split ['-'] 2 name) 2) = .ok shorts ∧
      rrd.rraShortNames.Perm shorts
  list : rrd.rraList = if rrd.rrasBuilt = true then rrd.rraNames else []
  keys : forall name, name ∈ rrd.rraDict <-> name ∈ rrd.rraList

def FileAfter.entries (file : FileAfter) (before : List RraEntry) : Option (List RraEntry) :=
  match file with
  | .asBefore => some before
  | .written rra => some rra
  | .emptied => none

/-- The next run, whatever order the archives are read in, changes nothing. -/
def NothingMoreToDo (tcDict : Dict Text (Target step)) (rra : List RraEntry) : Prop :=
  forall info, info.Perm rra -> forall fetch clock lastUpdate build, exists again,
    checkRrdFile2 fetch clock tcDict (openRrd fetch step lastUpdate info build) = .ok again ∧
      again.changed = false

/-- A run leaves exactly the targets, lists that agree, and nothing for the next run. -/
def ReachesTarget (fetch : Cf -> Nat -> Int -> Int -> Stream) (clock : Text -> Int)
    (tcDict : Dict Text (Target step)) (rrd : Rrd step) : Prop :=
  exists checked, checkRrdFile2 fetch clock tcDict rrd = .ok checked ∧
    (forall name, name ∈ checked.rrd.rraNames <-> exists target cf,
      target ∈ tcDict.values ∧ (exists entry, entry ∈ rrd.rra ∧ entry.cf = cf) ∧
        name = wantedName cf target.name) ∧
    ListsAgree checked.rrd ∧
    exists rra, checked.file.entries rrd.rra = some rra ∧ NothingMoreToDo tcDict rra

def SameNames (rra : List RraEntry) (targets : List (Target step)) : Prop :=
  forall name, name ∈ rra.map (fun entry => rraName entry step true) <->
    name ∈ targets.map Target.name

/-- The file has every target with every consolidation function. -/
def AllThere (rra : List RraEntry) (targets : List (Target step)) : Prop :=
  forall target, target ∈ targets -> forall entry, entry ∈ rra -> target.entry entry.cf ∈ rra

/-- Every consolidation function reaches every target, none twice, and what is there can be
written. -/
structure AllReached (fetch : Cf -> Nat -> Int -> Int -> Stream) (lastUpdate : Int)
    (rra : List RraEntry) (targets : List (Target step)) : Prop where
  some_rra : rra ≠ []
  every : forall target, target ∈ targets -> forall entry, entry ∈ rra -> exists index other,
    targets[index]? = some other ∧ other.name = target.name ∧ Reaches rra targets index entry.cf
  once : Once rra targets targets.length
  tuples : forall target, target ∈ targets -> forall entry, entry ∈ rra ->
    4 ≤ tuplesOf step fetch lastUpdate rra (target.entry entry.cf)

variable {fetch : Cf -> Nat -> Int -> Int -> Stream} {lastUpdate : Int} {clock : Text -> Int}
  {rra : List RraEntry} {targets : List (Target step)}

theorem wantedName_eq (target : Target step) (cf : Cf) :
    wantedName cf target.name = rraName (target.entry cf) step false := by
  rw [target.name_eq]
  rfl

variable {rrd : Rrd step}

theorem ran_start (h : Holds fetch lastUpdate rra rrd rra) :
    Ran fetch lastUpdate rra targets 0 (rrd, []) [] where
  holds := by
    rw [append_nil]
    exact h
  fresh entry hentry := by cases hentry
  mem entry := by
    rw [append_nil]
    constructor
    · exact Or.inl
    · rintro (hfile | ⟨index, _, _, hlt, _⟩)
      · exact hfile
      · exact absurd hlt (Nat.not_lt_zero index)
  news name := by
    constructor
    · intro hmem
      cases hmem
    · rintro ⟨_, ⟨index, _, _, hlt, _⟩, _⟩
      exact absurd hlt (Nat.not_lt_zero index)
  once := by
    constructor
    · intro _ index later _ hlt
      exact absurd hlt (Nat.not_lt_zero later)
    · intro _
      exact nodup_nil

theorem ran_take (h : Holds fetch lastUpdate rra rrd rra) (hrra : rra.Nodup)
    (hne : rra ≠ []) {prevNames : List Text}
    (hprev : forall entry, rraName entry step false ∈ prevNames <-> entry ∈ rra) (count : Nat)
    (hcount : count ≤ targets.length) :
    exists state added,
      (targets.take count).foldlM (checkTarget clock prevNames) (rrd, []) = .ok state ∧
        Ran fetch lastUpdate rra targets count state added := by
  induction count with
  | zero => exact ⟨(rrd, []), [], rfl, ran_start h⟩
  | succ count ih =>
    rcases ih (Nat.le_of_succ_le hcount) with ⟨state, added, hfold, hran⟩
    have htarget := getElem?_eq_getElem (Nat.lt_of_succ_le hcount)
    rcases @Ran.next _ _ _ _ _ _ _ _ hran hrra hne clock prevNames hprev _ htarget with
      ⟨state', added', hcheck, hran'⟩
    refine ⟨state', added', ?_, hran'⟩
    rw [take_succ_eq_append_getElem (Nat.lt_of_succ_le hcount), foldlM_append, hfold,
      bind_of_ok rfl, foldlM_cons, hcheck]
    rfl

theorem foldlM_removeRra {added : List RraEntry} (removed : List RraEntry) {kept : List RraEntry}
    (h : Holds fetch lastUpdate rra rrd (kept ++ added)) (hkept : kept.Nodup)
    (hremoved : removed.Nodup) (hmem : forall entry, entry ∈ removed -> entry ∈ kept)
    (hadded : forall entry, entry ∈ removed -> entry ∉ added) :
    exists rrd', (removed.map fun entry => rraName entry step false).foldlM removeRra rrd =
        .ok rrd' ∧ Holds fetch lastUpdate rra rrd' (kept.diff removed ++ added) := by
  induction removed generalizing kept rrd with
  | nil => exact ⟨rrd, rfl, by rw [diff_nil]; exact h⟩
  | cons entry rest ih =>
    have hentry := hmem entry mem_cons_self
    have herase : (kept ++ added).erase entry = kept.erase entry ++ added :=
      erase_append_left added hentry
    have honce : entry ∉ (kept ++ added).erase entry := by
      rw [herase, mem_append]
      rintro (hstill | hnew)
      · exact hkept.not_mem_erase hstill
      · exact hadded entry mem_cons_self hnew
    rcases h.removeRra (mem_append_left added hentry) honce with ⟨between, hremove, hholds⟩
    rw [herase] at hholds
    have hrest := nodup_cons.mp hremoved
    rcases ih hholds (hkept.erase entry) hrest.right
      (fun other hother => (mem_erase_of_ne fun (heq : other = entry) =>
        hrest.left (heq ▸ hother)).mpr (hmem other (mem_cons_of_mem entry hother)))
      (fun other hother => hadded other (mem_cons_of_mem entry hother)) with
      ⟨rrd', hfold, hholds'⟩
    refine ⟨rrd', ?_, ?_⟩
    · rw [map_cons, foldlM_cons, hremove]
      exact hfold
    · rw [diff_cons]
      exact hholds'

variable {entries : List RraEntry}

/-- Everything that is held is written, unless an archive is too short. -/
theorem content_eq (h : Holds fetch lastUpdate rra rrd entries) (hne : entries ≠ []) :
    (content rrd = .ok entries ∧
        forall entry, entry ∈ entries -> 4 ≤ tuplesOf step fetch lastUpdate rra entry) ∨
      ((exists raised, content rrd = .error raised) ∧
        exists entry, entry ∈ entries ∧ tuplesOf step fetch lastUpdate rra entry < 4) := by
  have hkeys : exists name, part rrd.rraDict.keys 0 = .ok name := by
    rcases exists_mem_of_ne_nil entries hne with ⟨entry, hentry⟩
    have hname : rraName entry step false ∈ rrd.rraDict.keys :=
      AList.mem_keys.mp ((h.keys _).mpr (h.mem_names.mpr hentry))
    cases hlist : rrd.rraDict.keys with
    | nil =>
      rw [hlist] at hname
      cases hname
    | cons name rest => exact ⟨name, rfl⟩
  rcases hkeys with ⟨first, hfirst⟩
  have hcontent : content rrd =
      entries.mapM (fun entry => do (<- rrd.archive (rraName entry step false)).xml) := by
    unfold content
    rw [hfirst, h.list, h.names, mapM_map]
    rfl
  rw [hcontent]
  by_cases hlong : forall entry, entry ∈ entries -> 4 ≤ tuplesOf step fetch lastUpdate rra entry
  · left
    refine ⟨?_, hlong⟩
    have hmap := @mapM_eq_ok _ _ PyError
      (fun entry => do (<- rrd.archive (rraName entry step false)).xml) entries id (by
        intro entry hentry
        rcases h.archives entry hentry with ⟨found, harchive, hfits⟩
        rw [harchive]
        exact hfits.xml_eq (hfits.length_eq ▸ hlong entry hentry))
    rw [map_id] at hmap
    exact hmap
  · right
    push Not at hlong
    rcases hlong with ⟨entry, hentry, hshort⟩
    refine ⟨?_, entry, hentry, hshort⟩
    rcases h.archives entry hentry with ⟨found, harchive, hfits⟩
    apply mapM_ne_ok hentry
    rw [harchive]
    exact lt_length_of_xml (hfits.length_eq ▸ hshort)

theorem openRrd_names (fetch : Cf -> Nat -> Int -> Int -> Stream) (lastUpdate : Int)
    {rra : List RraEntry} (h : rra.Nodup) (build : Bool) :
    (openRrd fetch step lastUpdate rra build).rraShortNames =
        rra.map (fun entry => rraName entry step true) ∧
      (openRrd fetch step lastUpdate rra build).rraNames =
        rra.map (fun entry => rraName entry step false) ∧
      (openRrd fetch step lastUpdate rra build).rra = rra := by
  cases build with
  | false =>
    rw [openRrd, if_neg Bool.false_ne_true, parseRaw_eq lastUpdate h]
    exact ⟨rfl, rfl, rfl⟩
  | true =>
    rcases buildRras_parseRaw fetch lastUpdate h with ⟨rraDict, hbuilt, _⟩
    rw [openRrd, if_pos rfl, hbuilt]
    exact ⟨rfl, rfl, rfl⟩

theorem shorts_agree {names : List Text}
    (hnames : names = entries.map fun entry => rraName entry step false) {shorts : List Text}
    (h : shorts.Perm (entries.map fun entry => rraName entry step true)) :
    exists parts, names.mapM (fun name => part (split ['-'] 2 name) 2) = .ok parts ∧
      shorts.Perm parts := by
  refine ⟨_, ?_, h⟩
  rw [hnames, mapM_map]
  exact mapM_eq_ok fun entry _ => part_rraName entry

theorem listsAgree_holds
    (h : Holds fetch lastUpdate rra rrd entries) : ListsAgree rrd <-> entries.Nodup := by
  constructor
  · intro hagree
    have hnodup := hagree.nodup
    rw [h.names] at hnodup
    exact hnodup.of_map _
  · intro hnodup
    refine ⟨?_, shorts_agree h.names h.shorts, ?_, ?_⟩
    · rw [h.names]
      exact hnodup.map (rraName_injective step)
    · rw [if_pos h.built]
      exact h.list
    · intro name
      rw [h.list]
      exact h.keys name

theorem listsAgree_openRrd (hfetch : FetchSpans fetch) (h : rra.Nodup) (build : Bool) :
    ListsAgree (openRrd fetch step lastUpdate rra build) := by
  cases build with
  | true =>
    rw [openRrd, if_pos rfl]
    exact (listsAgree_holds (holds_buildRras hfetch h)).mpr h
  | false =>
    rw [openRrd, if_neg Bool.false_ne_true, parseRaw_eq lastUpdate h]
    refine ⟨h.map (rraName_injective step), shorts_agree rfl (Perm.refl _), rfl, ?_⟩
    intro name
    constructor
    · intro hmem
      cases hmem
    · intro hmem
      cases hmem

variable {tcDict : Dict Text (Target step)}

theorem checkRrdFile2_same (h : rra.Nodup) (build : Bool) (hsame : SameNames rra tcDict.values) :
    checkRrdFile2 fetch clock tcDict (openRrd fetch step lastUpdate rra build) =
      .ok ⟨openRrd fetch step lastUpdate rra build, .asBefore, false⟩ := by
  unfold checkRrdFile2
  rw [if_pos]
  · rfl
  · rw [(openRrd_names fetch lastUpdate h build).left]
    intro name hname
    rcases mem_append.mp hname with hmem | hmem
    · exact ⟨hmem, (hsame name).mp hmem⟩
    · exact ⟨(hsame name).mpr hmem, hmem⟩

theorem checkRrdFile2_other (h : rra.Nodup) (build : Bool)
    (hother : ¬ SameNames rra tcDict.values) :
    checkRrdFile2 fetch clock tcDict (openRrd fetch step lastUpdate rra build) = do
      let prevNames := rra.map fun entry => rraName entry step false
      let (rrd, newNames) <- tcDict.values.foldlM (checkTarget clock prevNames)
        (buildRras fetch (parseRaw step lastUpdate rra), [])
      let rrd <- (prevNames.filter fun name => name ∉ newNames).foldlM removeRra rrd
      return ⟨rrd, fileOf (content rrd), true⟩ := by
  unfold checkRrdFile2
  rw [if_neg]
  · have hnames : (buildRras fetch (parseRaw step lastUpdate rra)).rraNames.dedup =
        rra.map fun entry => rraName entry step false := by
      have hopen := (@openRrd_names step fetch lastUpdate rra h true).right.left
      rw [openRrd, if_pos rfl] at hopen
      rw [hopen]
      exact (h.map (rraName_injective step)).dedup
    rw [buildRras_openRrd fetch lastUpdate h build]
    dsimp only
    rw [hnames]
  · intro hboth
    apply hother
    rw [(openRrd_names fetch lastUpdate h build).left] at hboth
    intro name
    constructor
    · intro hmem
      exact (hboth name (mem_append_left _ hmem)).right
    · intro hmem
      exact (hboth name (mem_append_right _ hmem)).left

theorem nothingMoreToDo (h : rra.Nodup)
    (hsame : SameNames rra tcDict.values) : NothingMoreToDo tcDict rra := by
  intro info hinfo fetch clock lastUpdate build
  refine ⟨_, checkRrdFile2_same (hinfo.nodup_iff.mpr h) build ?_, rfl⟩
  intro name
  rw [(hinfo.map _).mem_iff]
  exact hsame name

theorem checkRrdFile2_reached (hfetch : FetchSpans fetch) (h : rra.Nodup) (hne : rra ≠ [])
    {tcDict : Dict Text (Target step)} (build : Bool) (hother : ¬ SameNames rra tcDict.values) :
    exists rrd entries, checkRrdFile2 fetch clock tcDict (openRrd fetch step lastUpdate rra build) =
        .ok ⟨rrd, fileOf (content rrd), true⟩ ∧
      Holds fetch lastUpdate rra rrd entries ∧
      (forall entry, entry ∈ entries <->
        Reached rra tcDict.values tcDict.values.length entry) ∧
      (entries.Nodup <-> Once rra tcDict.values tcDict.values.length) := by
  have hinj := rraName_injective step
  have hprev : forall entry, rraName entry step false ∈
      rra.map (fun entry => rraName entry step false) <-> entry ∈ rra :=
    fun entry => mem_map_of_injective hinj
  rcases @ran_take step fetch lastUpdate clock rra tcDict.values _
    (holds_buildRras hfetch h) h hne _ hprev _ le_rfl with
    ⟨state, added, hfold, hran⟩
  rw [take_length] at hfold
  have hnews : forall entry, rraName entry step false ∈ state.2 <->
      Reached rra tcDict.values tcDict.values.length entry := by
    intro entry
    rw [hran.news]
    constructor
    · rintro ⟨other, hreached, heq⟩
      rw [← hinj heq]
      exact hreached
    · intro hreached
      exact ⟨entry, hreached, rfl⟩
  have hremoved : ((rra.map fun entry => rraName entry step false).filter
      fun name => name ∉ state.2) =
        (rra.filter fun entry => rraName entry step false ∉ state.2).map
          fun entry => rraName entry step false := filter_map
  rcases foldlM_removeRra (rra.filter fun entry => rraName entry step false ∉ state.2) hran.holds h
    (h.filter _) (fun entry hentry => (mem_filter.mp hentry).left)
    (fun entry hentry hnew => hran.fresh entry hnew (mem_filter.mp hentry).left) with
    ⟨rrd, hremove, hholds⟩
  have hkept : forall entry,
      entry ∈ rra.diff (rra.filter fun entry => rraName entry step false ∉ state.2) <->
        entry ∈ rra ∧ Reached rra tcDict.values tcDict.values.length entry := by
    intro entry
    rw [h.mem_sdiff_iff, mem_filter, decide_eq_true_iff, hnews]
    constructor
    · rintro ⟨hfile, hnot⟩
      refine ⟨hfile, ?_⟩
      by_contra hreached
      exact hnot ⟨hfile, hreached⟩
    · rintro ⟨hfile, hreached⟩
      exact ⟨hfile, fun hboth => hboth.right hreached⟩
  refine ⟨rrd, _, ?_, hholds, ?_, ?_⟩
  · rw [checkRrdFile2_other h build hother]
    dsimp only
    rw [hfold]
    dsimp only [bind, Except.bind]
    rw [hremoved, hremove]
    rfl
  · intro entry
    rw [mem_append, hkept]
    constructor
    · rintro (⟨_, hreached⟩ | hnew)
      · exact hreached
      · rcases (hran.mem entry).mp (mem_append_right rra hnew) with hfile | hreached
        · exact absurd hfile (hran.fresh entry hnew)
        · exact hreached
    · intro hreached
      rcases mem_append.mp ((hran.mem entry).mpr (Or.inr hreached)) with hfile | hnew
      · exact Or.inl ⟨hfile, hreached⟩
      · exact Or.inr hnew
  · rw [← hran.once, nodup_append']
    constructor
    · intro hnodup
      exact hnodup.right.left
    · intro hnodup
      refine ⟨h.diff, hnodup, fun entry hfile hnew => ?_⟩
      exact hran.fresh entry hnew ((hkept entry).mp hfile).left

theorem checkRrdFile2_nil (hne : tcDict.values ≠ [])
    (build : Bool) : checkRrdFile2 fetch clock tcDict (openRrd fetch step lastUpdate [] build) =
      .error .valueError := by
  have hother : ¬ SameNames ([] : List RraEntry) tcDict.values := by
    intro hsame
    rcases exists_mem_of_ne_nil _ hne with ⟨target, htarget⟩
    cases (hsame target.name).mpr (mem_map_of_mem htarget)
  rw [checkRrdFile2_other nodup_nil build hother]
  cases hvalues : tcDict.values with
  | nil => exact absurd hvalues hne
  | cons target rest => rfl

/-- Some target and function make up the name. -/
def Wanted (rra : List RraEntry) (targets : List (Target step)) (name : Text) : Prop :=
  exists target cf, target ∈ targets ∧ (exists entry, entry ∈ rra ∧ entry.cf = cf) ∧
    name = wantedName cf target.name

theorem wanted_reached {entry : RraEntry} {count : Nat} (h : Reached rra targets count entry) :
    Wanted rra targets (rraName entry step false) := by
  rcases h with ⟨index, target, cf, _, htarget, hreaches, heq⟩
  exact ⟨target, cf, mem_of_getElem? htarget, hreaches.mem, by rw [heq, wantedName_eq]⟩

theorem names_wanted_iff
    (hentries : forall entry, entry ∈ entries <-> Reached rra targets targets.length entry) :
    (forall name, name ∈ entries.map (fun entry => rraName entry step false) <->
      Wanted rra targets name) <->
    forall target, target ∈ targets -> forall entry, entry ∈ rra -> exists index other,
      targets[index]? = some other ∧ other.name = target.name ∧
        Reaches rra targets index entry.cf := by
  constructor
  · intro hnames target htarget entry hentry
    have hmem := (hnames _).mpr ⟨target, entry.cf, htarget, ⟨entry, hentry, rfl⟩, rfl⟩
    rw [wantedName_eq] at hmem
    have hreached := (hentries _).mp
      ((mem_map_of_injective (rraName_injective step)).mp hmem)
    rcases hreached with ⟨index, other, cf, _, hother, hreaches, heq⟩
    rcases Target.entry_eq_iff.mp heq with ⟨hcf, hname⟩
    exact ⟨index, other, hother, hname.symm, hcf ▸ hreaches⟩
  · intro hevery name
    constructor
    · intro hmem
      rcases mem_map.mp hmem with ⟨entry, hentry, heq⟩
      rw [← heq]
      exact wanted_reached ((hentries entry).mp hentry)
    · rintro ⟨target, cf, htarget, ⟨entry, hentry, hcf⟩, heq⟩
      rcases hevery target htarget entry hentry with ⟨index, other, hother, hname, hreaches⟩
      rw [heq, wantedName_eq]
      apply mem_map_of_mem (f := fun entry => rraName entry step false)
      refine (hentries _).mpr ⟨index, other, cf, ?_, hother, hcf ▸ hreaches,
        Target.entry_eq_iff.mpr ⟨rfl, hname.symm⟩⟩
      rcases List.getElem?_eq_some_iff.mp hother with ⟨hlt, _⟩
      exact hlt

theorem sameNames_of_wanted (hne : rra ≠ [])
    (h : forall name, name ∈ entries.map (fun entry => rraName entry step false) <->
      Wanted rra targets name) : SameNames entries targets := by
  intro name
  rw [mem_map, mem_map]
  constructor
  · rintro ⟨entry, hentry, heq⟩
    rcases (h _).mp (mem_map_of_mem hentry) with ⟨target, cf, htarget, _, hname⟩
    rw [wantedName_eq] at hname
    refine ⟨target, htarget, ?_⟩
    rw [← heq, rraName_injective step hname, target.short_entry]
  · rintro ⟨target, htarget, heq⟩
    rcases exists_mem_of_ne_nil rra hne with ⟨first, hfirst⟩
    have hmem := (h _).mpr ⟨target, first.cf, htarget, ⟨first, hfirst, rfl⟩, rfl⟩
    rw [wantedName_eq] at hmem
    refine ⟨target.entry first.cf,
      (mem_map_of_injective (rraName_injective step)).mp hmem, ?_⟩
    rw [target.short_entry, heq]

theorem reachesTarget_same (hfetch : FetchSpans fetch) (h : rra.Nodup)
    {tcDict : Dict Text (Target step)} (build : Bool) (hsame : SameNames rra tcDict.values) :
    ReachesTarget fetch clock tcDict (openRrd fetch step lastUpdate rra build) <->
      AllThere rra tcDict.values := by
  have hcheck := @checkRrdFile2_same step fetch lastUpdate clock rra tcDict h build hsame
  rcases @openRrd_names step fetch lastUpdate rra h build with ⟨_, hnames, hrra⟩
  have hwanted : (forall name, name ∈ rra.map (fun entry => rraName entry step false) <->
      Wanted rra tcDict.values name) <-> AllThere rra tcDict.values := by
    constructor
    · intro hnames target htarget entry hentry
      have hmem := (hnames _).mpr ⟨target, entry.cf, htarget, ⟨entry, hentry, rfl⟩, rfl⟩
      rw [wantedName_eq] at hmem
      exact (mem_map_of_injective (rraName_injective step)).mp hmem
    · intro hthere name
      constructor
      · intro hmem
        rcases mem_map.mp hmem with ⟨entry, hentry, heq⟩
        rcases mem_map.mp ((hsame _).mp (mem_map_of_mem hentry)) with
          ⟨target, htarget, hshort⟩
        refine ⟨target, entry.cf, htarget, ⟨entry, hentry, rfl⟩, ?_⟩
        rw [← heq, hshort]
        rfl
      · rintro ⟨target, cf, htarget, ⟨entry, hentry, hcf⟩, heq⟩
        rw [heq, wantedName_eq, ← hcf]
        exact mem_map_of_mem (hthere target htarget entry hentry)
  rw [← hwanted]
  constructor
  · rintro ⟨checked, hok, hreached, _⟩
    rw [hcheck] at hok
    cases hok
    rw [hnames, hrra] at hreached
    exact hreached
  · intro hreached
    refine ⟨_, hcheck, ?_, listsAgree_openRrd hfetch h build, rra, ?_, nothingMoreToDo h hsame⟩
    · rw [hnames, hrra]
      exact hreached
    · rw [hrra]
      rfl

theorem reachesTarget_other (hfetch : FetchSpans fetch) (h : rra.Nodup)
    {tcDict : Dict Text (Target step)} (htargets : tcDict.values ≠ []) (build : Bool)
    (hother : ¬ SameNames rra tcDict.values) :
    ReachesTarget fetch clock tcDict (openRrd fetch step lastUpdate rra build) <->
      AllReached fetch lastUpdate rra tcDict.values := by
  by_cases hne : rra = []
  · constructor
    · rintro ⟨checked, hok, _⟩
      rw [hne, checkRrdFile2_nil htargets build] at hok
      cases hok
    · intro hall
      exact absurd hne hall.some_rra
  · rcases @checkRrdFile2_reached step fetch lastUpdate clock rra hfetch h hne tcDict build hother
      with ⟨rrd, entries, hcheck, hholds, hentries, honce⟩
    have hrra := (@openRrd_names step fetch lastUpdate rra h build).right.right
    have hsome : entries ≠ [] := by
      rcases exists_mem_of_ne_nil _ htargets with ⟨target, htarget⟩
      rcases getElem?_of_mem htarget with ⟨index, hindex⟩
      rcases exists_reaches hne hindex with ⟨cf, hreaches⟩
      rcases List.getElem?_eq_some_iff.mp hindex with ⟨hlt, _⟩
      exact ne_nil_of_mem ((hentries _).mpr ⟨index, target, cf, hlt, hindex, hreaches, rfl⟩)
    constructor
    · rintro ⟨checked, hok, hreached, hagree, written, hwritten, _⟩
      rw [hcheck] at hok
      cases hok
      dsimp only at hreached hagree hwritten
      rw [hholds.names, hrra] at hreached
      have hevery := (names_wanted_iff hentries).mp hreached
      refine ⟨hne, hevery, honce.mp ((listsAgree_holds hholds).mp hagree), ?_⟩
      intro target htarget entry hentry
      rcases content_eq hholds hsome with ⟨_, hlong⟩ | ⟨⟨raised, hraised⟩, _⟩
      · apply hlong
        have hmem := (hreached _).mpr ⟨target, entry.cf, htarget, ⟨entry, hentry, rfl⟩, rfl⟩
        rw [wantedName_eq] at hmem
        exact (mem_map_of_injective (rraName_injective step)).mp hmem
      · rw [hraised] at hwritten
        cases hwritten
    · intro hall
      have hreached := (names_wanted_iff hentries).mpr hall.every
      have hnodup := honce.mpr hall.once
      refine ⟨_, hcheck, ?_, (listsAgree_holds hholds).mpr hnodup, entries, ?_,
        nothingMoreToDo hnodup (sameNames_of_wanted hne hreached)⟩
      · dsimp only
        rw [hholds.names, hrra]
        exact hreached
      · rcases content_eq hholds hsome with ⟨hcontent, _⟩ | ⟨_, entry, hentry, hshort⟩
        · dsimp only
          rw [hcontent]
          rfl
        · rcases (hentries entry).mp hentry with ⟨index, target, cf, _, htarget, hreaches, heq⟩
          rcases hreaches.mem with ⟨source, hsource, hcf⟩
          have hlong := hall.tuples target (mem_of_getElem? htarget) source hsource
          rw [hcf, ← heq] at hlong
          exact absurd hshort (Nat.not_lt_of_le hlong)

/-- A run reaches the target exactly if everything is there or reached. -/
theorem reachesTarget_iff (hfetch : FetchSpans fetch) (h : rra.Nodup)
    {tcDict : Dict Text (Target step)} (htargets : tcDict.values ≠ []) (build : Bool) :
    ReachesTarget fetch clock tcDict (openRrd fetch step lastUpdate rra build) <->
      (SameNames rra tcDict.values -> AllThere rra tcDict.values) ∧
        (¬ SameNames rra tcDict.values -> AllReached fetch lastUpdate rra tcDict.values) := by
  by_cases hsame : SameNames rra tcDict.values
  · rw [reachesTarget_same hfetch h build hsame]
    constructor
    · intro hthere
      exact ⟨fun _ => hthere, fun hother => absurd hsame hother⟩
    · intro hboth
      exact hboth.left hsame
  · rw [reachesTarget_other hfetch h htargets build hsame]
    constructor
    · intro hall
      exact ⟨fun hnames => absurd hnames hsame, fun _ => hall⟩
    · intro hboth
      exact hboth.right hsame

theorem minute_pos : 0 < 60 := by decide

/-- Four minutes of one data source, whatever is asked for. -/
def fourMinutes (_ : Cf) (_ : Nat) (_ _ : Int) : Stream where
  startTime := 0
  endTime := 240
  timeStep := 60
  names := ["load".toList]
  tuples := [[some 1], [some 2], [some 3], [some 4]]
  timeStep_pos := minute_pos
  tuples_ne_nil := cons_ne_nil _ _

theorem average_isWord : '-' ∉ "AVERAGE".toList := by decide

def average : Cf := ⟨"AVERAGE".toList, average_isWord⟩

def maximum : Cf := ⟨"MAX".toList, by decide⟩

/-- `1min for 10min` -/
def tenMinutes : Target 60 := ⟨600, 10, 1, shortName 1 10 60, rfl, by decide⟩

def tenMinutesDict : Dict Text (Target 60) :=
  (∅ : Dict Text (Target 60)).insert "1min for 10min".toList tenMinutes

theorem values_tenMinutesDict : tenMinutesDict.values = [tenMinutes] := rfl

theorem tenMinutesDict_ne_nil : tenMinutesDict.values ≠ [] := by
  rw [values_tenMinutesDict]
  exact cons_ne_nil _ _

theorem fetchSpans_fourMinutes : FetchSpans fourMinutes := fun _ _ _ _ => rfl

theorem average_reached_iff :
    ReachesTarget fourMinutes (fun _ => 240) tenMinutesDict
        (openRrd fourMinutes 60 240 [⟨average, 5, 10⟩] false) <->
      (SameNames [⟨average, 5, 10⟩] tenMinutesDict.values ->
        AllThere [⟨average, 5, 10⟩] tenMinutesDict.values) ∧
      (¬ SameNames [⟨average, 5, 10⟩] tenMinutesDict.values ->
        AllReached fourMinutes 240 [⟨average, 5, 10⟩] tenMinutesDict.values) :=
  reachesTarget_iff fetchSpans_fourMinutes (by decide) tenMinutesDict_ne_nil false

/-- The maxima of a longer archive are lost where the averages have the target already. -/
theorem maximum_not_reached :
    exists (fetch : Cf -> Nat -> Int -> Int -> Stream) (clock : Text -> Int) (lastUpdate : Int)
      (tcDict : Dict Text (Target 60)) (rra : List RraEntry), FetchSpans fetch ∧ rra.Nodup ∧
        tcDict.values ≠ [] ∧
        ¬ ReachesTarget fetch clock tcDict (openRrd fetch 60 lastUpdate rra false) := by
  have hother : ¬ SameNames [⟨average, 1, 10⟩, ⟨maximum, 5, 10⟩] tenMinutesDict.values := by
    intro hsame
    have hmem := (hsame (shortName 5 10 60)).mp (mem_cons_of_mem _ (mem_singleton_self _))
    have hname : shortName 5 10 60 = shortName 1 10 60 := mem_singleton.mp hmem
    exact absurd hname (by decide)
  refine ⟨fourMinutes, fun _ => 240, 240, tenMinutesDict, [⟨average, 1, 10⟩, ⟨maximum, 5, 10⟩],
    fetchSpans_fourMinutes, by decide, tenMinutesDict_ne_nil, ?_⟩
  rw [reachesTarget_other fetchSpans_fourMinutes (by decide) tenMinutesDict_ne_nil false hother]
  intro hall
  rcases hall.every tenMinutes (mem_singleton_self _) ⟨maximum, 5, 10⟩
    (mem_cons_of_mem _ (mem_singleton_self _)) with ⟨index, other, hindex, _, hreaches⟩
  have hzero : index = 0 := by
    rcases List.getElem?_eq_some_iff.mp hindex with ⟨hlt, _⟩
    exact Nat.lt_one_iff.mp hlt
  rw [hzero] at hreaches
  have hbest : findBestRraName (namesBefore [⟨average, 1, 10⟩, ⟨maximum, 5, 10⟩]
      tenMinutesDict.values 0) 600 = .ok (shortName 1 10 60) := by decide +kernel
  generalize hcf : (⟨maximum, 5, 10⟩ : RraEntry).cf = cf at hreaches
  cases hreaches with
  | @ofFile _ target entry htarget hentry hsource =>
    cases htarget
    have hshort := Except.ok.inj (hbest.symm.trans hsource)
    rcases mem_cons.mp hentry with heq | hlast
    · rw [heq] at hcf
      exact absurd hcf (by decide)
    · rw [mem_singleton.mp hlast] at hshort
      exact absurd hshort (by decide)
  | ofTarget _ hearlier _ _ _ => exact absurd hearlier (Nat.not_lt_zero _)

end Icsw.RrdTools
