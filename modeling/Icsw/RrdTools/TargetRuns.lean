import Icsw.RrdTools.HeldRras

/-!
# Which functions reach a target

The source of a target is the nearest of the short names of the file and of the targets before it.
A consolidation function reaches the target from an archive of the file with that name, or from the
earlier target that it is.
-/

namespace Icsw.RrdTools

open Foundation List

variable {step : Nat}

/-- The archive of the target with a consolidation function. -/
def Target.entry (target : Target step) (cf : Cf) : RraEntry := ⟨cf, target.pdp, target.rows⟩

theorem Target.short_entry (target : Target step) (cf : Cf) :
    rraName (target.entry cf) step true = target.name := target.name_eq.symm

theorem Target.fill_entry (target : Target step) (entry : RraEntry) :
    fillRraName target.name (rraName entry step false) =
      rraName (target.entry entry.cf) step false := by
  rw [target.name_eq]
  exact fillRraName_rraName entry step target.pdp target.rows

theorem Target.entry_eq_iff {target other : Target step} {cf cf' : Cf} :
    target.entry cf = other.entry cf' <-> cf = cf' ∧ target.name = other.name := by
  constructor
  · intro h
    have hshort := congrArg (fun entry => rraName entry step true) h
    rw [target.short_entry, other.short_entry] at hshort
    exact ⟨congrArg RraEntry.cf h, hshort⟩
  · intro h
    apply entry_eq h.left
    rw [target.short_entry, other.short_entry]
    exact h.right

theorem distanceLe_iff {first second : Int × Text} :
    distanceLe first second = true <->
      first.1 < second.1 ∨ first.1 = second.1 ∧ textLe first.2 second.2 = true := by
  unfold distanceLe
  rw [Bool.or_eq_true, Bool.and_eq_true, decide_eq_true_iff, decide_eq_true_iff]

theorem orders_distanceLe : Orders distanceLe where
  total first second := by
    rw [distanceLe_iff, distanceLe_iff]
    rcases Int.lt_trichotomy first.1 second.1 with hless | heq | hgreater
    · exact Or.inl (Or.inl hless)
    · rcases textLe_total first.2 second.2 with hle | hle
      · exact Or.inl (Or.inr ⟨heq, hle⟩)
      · exact Or.inr (Or.inr ⟨heq.symm, hle⟩)
    · exact Or.inr (Or.inl hgreater)
  trans first second third h h' := by
    rw [distanceLe_iff] at h h' ⊢
    rcases h with hless | ⟨heq, hle⟩
    · rcases h' with hless' | ⟨heq', _⟩
      · exact Or.inl (hless.trans hless')
      · exact Or.inl (heq' ▸ hless)
    · rcases h' with hless' | ⟨heq', hle'⟩
      · exact Or.inl (heq ▸ hless')
      · exact Or.inr ⟨heq.trans heq', textLe_trans hle hle'⟩
  antisymm first second h h' := by
    rw [distanceLe_iff] at h h'
    rcases h with hless | ⟨heq, hle⟩
    · rcases h' with hless' | ⟨heq', _⟩
      · exact absurd hless' (lt_asymm hless)
      · exact absurd heq'.symm hless.ne
    · rcases h' with hless' | ⟨_, hle'⟩
      · exact absurd heq.symm hless'.ne
      · exact Prod.ext heq (textLe_antisymm hle hle')

def ShortNames (step : Nat) (names : List Text) : Prop :=
  forall name, name ∈ names -> exists entry, name = rraName entry step true

def distance (total : Nat) (name : Text) : Int × Text :=
  (|((totalWidth name).toOption.getD 0) - total|, name)

theorem findBestRraName_eq {names : List Text} (h : ShortNames step names) (total : Nat) :
    findBestRraName names total =
      (least distanceLe (names.map (distance total))).elim (.error .valueError)
        fun best => .ok best.2 := by
  have hmap : (names.mapM fun name => do return (|(<- totalWidth name) - (total : Int)|, name)) =
      (.ok (names.map (distance total)) : Except PyError _) := by
    apply mapM_eq_ok
    intro name hname
    rcases h name hname with ⟨entry, heq⟩
    unfold distance
    rw [heq, totalWidth_rraName]
    rfl
  unfold findBestRraName
  rw [hmap]
  dsimp only [bind, Except.bind]
  cases least distanceLe (names.map (distance total)) <;> rfl

theorem findBestRraName_congr {names names' : List Text} (h : ShortNames step names)
    (hnames : forall name, name ∈ names <-> name ∈ names') (total : Nat) :
    findBestRraName names total = findBestRraName names' total := by
  have h' : ShortNames step names' := fun name hname => h name ((hnames name).mpr hname)
  rw [findBestRraName_eq h, findBestRraName_eq h']
  congr 1
  apply least_congr orders_distanceLe
  intro item
  rw [mem_map, mem_map]
  constructor
  · rintro ⟨name, hname, heq⟩
    exact ⟨name, (hnames name).mp hname, heq⟩
  · rintro ⟨name, hname, heq⟩
    exact ⟨name, (hnames name).mpr hname, heq⟩

theorem exists_findBestRraName {names : List Text} (h : ShortNames step names) (hne : names ≠ [])
    (total : Nat) : exists best, findBestRraName names total = .ok best ∧ best ∈ names := by
  rw [findBestRraName_eq h]
  cases hleast : least distanceLe (names.map (distance total)) with
  | none => exact absurd (map_eq_nil_iff.mp (least_eq_none.mp hleast)) hne
  | some best =>
    rcases mem_map.mp ((least_eq_some_iff orders_distanceLe).mp hleast).left with
      ⟨name, hname, heq⟩
    refine ⟨best.2, rfl, ?_⟩
    rw [← heq]
    exact hname

def namesBefore (rra : List RraEntry) (targets : List (Target step)) (index : Nat) : List Text :=
  rra.map (fun entry => rraName entry step true) ++ (targets.take index).map Target.name

inductive Reaches (rra : List RraEntry) (targets : List (Target step)) : Nat -> Cf -> Prop where
  | ofFile {index : Nat} {target : Target step} {entry : RraEntry}
      (htarget : targets[index]? = some target) (hentry : entry ∈ rra)
      (hbest : findBestRraName (namesBefore rra targets index) target.total =
        .ok (rraName entry step true)) :
      Reaches rra targets index entry.cf
  | ofTarget {index earlier : Nat} {target other : Target step} {cf : Cf}
      (htarget : targets[index]? = some target) (hearlier : earlier < index)
      (hother : targets[earlier]? = some other)
      (hbest : findBestRraName (namesBefore rra targets index) target.total = .ok other.name)
      (hreaches : Reaches rra targets earlier cf) :
      Reaches rra targets index cf

variable {rra : List RraEntry}

theorem shortNames_namesBefore (hne : rra ≠ []) (targets : List (Target step)) (index : Nat) :
    ShortNames step (namesBefore rra targets index) := by
  intro name hname
  rcases mem_append.mp hname with hmem | hmem
  · rcases mem_map.mp hmem with ⟨entry, _, heq⟩
    exact ⟨entry, heq.symm⟩
  · rcases mem_map.mp hmem with ⟨target, _, heq⟩
    rcases exists_mem_of_ne_nil rra hne with ⟨entry, _⟩
    exact ⟨target.entry entry.cf, heq.symm.trans (target.short_entry entry.cf).symm⟩

variable {targets : List (Target step)}

theorem Reaches.mem {index : Nat} {cf : Cf}
    (h : Reaches rra targets index cf) : exists entry, entry ∈ rra ∧ entry.cf = cf := by
  induction h with
  | ofFile _ hentry _ => exact ⟨_, hentry, rfl⟩
  | ofTarget _ _ _ _ _ ih => exact ih

theorem exists_reaches (hne : rra ≠ []) {targets : List (Target step)}
    {index : Nat} {target : Target step} (htarget : targets[index]? = some target) :
    exists cf, Reaches rra targets index cf := by
  induction index using Nat.strongRecOn generalizing target with
  | ind index ih =>
    have hnames : namesBefore rra targets index ≠ [] := fun hnil =>
      hne (map_eq_nil_iff.mp (append_eq_nil_iff.mp hnil).left)
    rcases exists_findBestRraName (shortNames_namesBefore hne targets index) hnames
      target.total with ⟨best, hbest, hmem⟩
    rcases mem_append.mp hmem with hfile | htargets
    · rcases mem_map.mp hfile with ⟨entry, hentry, heq⟩
      exact ⟨entry.cf, Reaches.ofFile htarget hentry (heq ▸ hbest)⟩
    · rcases mem_map.mp htargets with ⟨other, hother, heq⟩
      rcases getElem?_of_mem hother with ⟨earlier, hearlier⟩
      rw [getElem?_take] at hearlier
      split at hearlier
      · next hlt =>
          rcases ih earlier hlt hearlier with ⟨cf, hreaches⟩
          exact ⟨cf, Reaches.ofTarget htarget hlt hearlier (heq ▸ hbest) hreaches⟩
      · cases hearlier

def Reached (rra : List RraEntry) (targets : List (Target step)) (count : Nat)
    (entry : RraEntry) : Prop :=
  exists index target cf, index < count ∧ targets[index]? = some target ∧
    Reaches rra targets index cf ∧ entry = target.entry cf

/-- An archive that the file does not have is reached once among the first targets. -/
def Once (rra : List RraEntry) (targets : List (Target step)) (count : Nat) : Prop :=
  forall index later, index < later -> later < count -> forall target other,
    targets[index]? = some target -> targets[later]? = some other -> target.name = other.name ->
      forall cf, Reaches rra targets index cf -> Reaches rra targets later cf ->
        target.entry cf ∈ rra

theorem reached_succ {count : Nat}
    {target : Target step} (htarget : targets[count]? = some target) {entry : RraEntry} :
    Reached rra targets (count + 1) entry <->
      Reached rra targets count entry ∨
        exists cf, Reaches rra targets count cf ∧ entry = target.entry cf := by
  constructor
  · rintro ⟨index, other, cf, hindex, hother, hreaches, heq⟩
    rcases Nat.lt_succ_iff_lt_or_eq.mp hindex with hlt | hsame
    · exact Or.inl ⟨index, other, cf, hlt, hother, hreaches, heq⟩
    · rw [hsame] at hother hreaches
      rw [hother] at htarget
      cases htarget
      exact Or.inr ⟨cf, hreaches, heq⟩
  · rintro (⟨index, other, cf, hindex, hother, hreaches, heq⟩ | ⟨cf, hreaches, heq⟩)
    · exact ⟨index, other, cf, Nat.lt_succ_of_lt hindex, hother, hreaches, heq⟩
    · exact ⟨count, target, cf, Nat.lt_succ_self count, htarget, hreaches, heq⟩

theorem once_succ {count : Nat} {target : Target step} (htarget : targets[count]? = some target) :
    Once rra targets (count + 1) <->
      Once rra targets count ∧
        forall cf, Reaches rra targets count cf -> Reached rra targets count (target.entry cf) ->
          target.entry cf ∈ rra := by
  constructor
  · intro h
    constructor
    · intro index later hlt hlater
      exact h index later hlt (Nat.lt_succ_of_lt hlater)
    · rintro cf hreaches ⟨index, other, cf', hindex, hother, hreaches', heq⟩
      rcases Target.entry_eq_iff.mp heq with ⟨hcf, hname⟩
      rw [← hcf] at hreaches'
      have hmem := h index count hindex (Nat.lt_succ_self count) other target hother htarget
        hname.symm cf hreaches' hreaches
      rw [Target.entry_eq_iff.mpr ⟨rfl, hname⟩]
      exact hmem
  · rintro ⟨h, hlast⟩ index later hlt hlater first other hfirst hother hname cf hreaches hreaches'
    rcases Nat.lt_succ_iff_lt_or_eq.mp hlater with hbefore | hsame
    · exact h index later hlt hbefore first other hfirst hother hname cf hreaches hreaches'
    · rw [hsame] at hlt hother hreaches'
      rw [hother] at htarget
      cases htarget
      have heq : first.entry cf = target.entry cf := Target.entry_eq_iff.mpr ⟨rfl, hname⟩
      rw [heq]
      exact hlast cf hreaches' ⟨index, first, cf, hlt, hfirst, hreaches, heq.symm⟩

/-!
## A run over the targets

After some of the targets, the file holds its archives and those that are reached, and the new names
are those of what is reached.
-/

variable {fetch : Cf -> Nat -> Int -> Int -> Stream} {lastUpdate : Int}
  {rra entries : List RraEntry} {rrd : Rrd step}

theorem Holds.mem_names (h : Holds fetch lastUpdate rra rrd entries) {entry : RraEntry} :
    rraName entry step false ∈ rrd.rraNames <-> entry ∈ entries := by
  rw [h.names]
  exact (mem_map_of_injective (rraName_injective step))

theorem Holds.refRras (h : Holds fetch lastUpdate rra rrd entries) (cf : Cf) :
    exists names refRras, findRefRras cf rrd.rraNames = .ok names ∧
      names.mapM rrd.archive = .ok refRras := by
  have hwidths : forall name, name ∈ ((rrd.rraNames.filter fun name =>
      ("RRA-".toList ++ cf.name ++ ['-']).isPrefixOf name).dedup) ->
        exists entry, entry ∈ entries ∧ name = rraName entry step false := by
    intro name hname
    have hmem := (mem_filter.mp (mem_dedup.mp hname)).left
    rw [h.names] at hmem
    rcases mem_map.mp hmem with ⟨entry, hentry, heq⟩
    exact ⟨entry, hentry, heq.symm⟩
  have hmap := @mapM_eq_ok _ _ PyError
    (fun name => do return ((<- totalWidth name), name))
    _ (fun name => ((totalWidth name).toOption.getD 0, name)) (by
      intro name hname
      rcases hwidths name hname with ⟨entry, _, heq⟩
      rw [heq, totalWidth_rraName]
      rfl)
  unfold findRefRras
  dsimp only
  rw [hmap]
  have hfound : exists refRras,
      (((((rrd.rraNames.filter fun name =>
        ("RRA-".toList ++ cf.name ++ ['-']).isPrefixOf name).dedup).map
          fun name => ((totalWidth name).toOption.getD 0, name)).insertionSort
            fun first second => first.1 ≤ second.1).map Prod.snd).mapM rrd.archive =
        .ok refRras := by
    apply exists_mapM_ok
    intro name hname
    rcases mem_map.mp hname with ⟨pair, hpair, heq⟩
    rcases mem_map.mp ((mem_insertionSort _).mp hpair) with ⟨other, hother, hsame⟩
    rcases hwidths other hother with ⟨entry, hentry, hentryName⟩
    rcases h.archives entry hentry with ⟨found, harchive, _⟩
    refine ⟨found, ?_⟩
    rw [← heq, ← hsame, hentryName]
    exact harchive
  rcases hfound with ⟨refRras, hrefs⟩
  exact ⟨_, refRras, rfl, hrefs⟩

def addedFor (rra : List RraEntry) (target : Target step) (sources : List RraEntry) :
    List RraEntry :=
  (sources.map fun source => target.entry source.cf).filter fun entry => entry ∉ rra

section Target

variable {clock : Text -> Int} {prevNames : List Text} {target : Target step}

/-- A target is added for a source, unless the file had it. -/
theorem addTarget_ok {state : Rrd step × List Text} (h : Holds fetch lastUpdate rra state.1 entries)
    (hprev : forall entry, rraName entry step false ∈ prevNames <-> entry ∈ rra)
    {source : RraEntry} (hsource : source ∈ entries) :
    exists state', addTarget clock prevNames target state (rraName source step false) =
        .ok state' ∧
      state'.2 = state.2.insert (rraName (target.entry source.cf) step false) ∧
      Holds fetch lastUpdate rra state'.1 (entries ++ addedFor rra target [source]) := by
  rcases h.archives source hsource with ⟨srcRra, harchive, _⟩
  unfold addTarget addedFor
  rw [harchive, target.fill_entry, map_singleton]
  dsimp only [bind, Except.bind]
  by_cases hmem : target.entry source.cf ∈ rra
  · rw [if_pos ((hprev _).mpr hmem), filter_cons, if_neg (by simpa using hmem)]
    exact ⟨_, rfl, rfl, by rw [filter_nil, append_nil]; exact h⟩
  · rw [if_neg fun hname => hmem ((hprev _).mp hname), parseCf_rraName]
    dsimp only
    rcases h.refRras source.cf with ⟨names, refRras, hnames, hrefs⟩
    rw [hnames]
    dsimp only
    rw [hrefs]
    dsimp only
    have hfits := @fits_fitData step fetch lastUpdate rra target.rows source.cf target.pdp
      target.pos srcRra (clock (rraName (target.entry source.cf) step false)) refRras hmem
    rcases h.addRra hfits with ⟨rrd', hadd, hholds⟩
    rw [hadd, filter_cons, if_pos (by simpa using hmem), filter_nil]
    exact ⟨_, rfl, rfl, hholds⟩

theorem foldlM_addTarget {sources : List RraEntry} {state : Rrd step × List Text}
    (h : Holds fetch lastUpdate rra state.1 entries)
    (hprev : forall entry, rraName entry step false ∈ prevNames <-> entry ∈ rra)
    (hsources : forall source, source ∈ sources -> source ∈ entries) :
    exists state', (sources.map fun source => rraName source step false).foldlM
        (addTarget clock prevNames target) state = .ok state' ∧
      (forall name, name ∈ state'.2 <-> name ∈ state.2 ∨
        exists source, source ∈ sources ∧ rraName (target.entry source.cf) step false = name) ∧
      Holds fetch lastUpdate rra state'.1 (entries ++ addedFor rra target sources) := by
  induction sources generalizing state entries with
  | nil =>
    refine ⟨state, rfl, ?_, ?_⟩
    · intro name
      simp
    · rw [addedFor, map_nil, filter_nil, append_nil]
      exact h
  | cons source rest ih =>
    rcases @addTarget_ok step fetch lastUpdate rra entries clock prevNames target state h hprev
      source (hsources source mem_cons_self) with ⟨between, hadd, hnew, hholds⟩
    rcases ih hholds (fun other hother =>
      mem_append_left _ (hsources other (mem_cons_of_mem source hother))) with
      ⟨state', hrest, hnames, hholds'⟩
    refine ⟨state', ?_, ?_, ?_⟩
    · rw [map_cons, foldlM_cons, hadd]
      exact hrest
    · intro name
      rw [hnames, hnew, mem_insert_iff]
      constructor
      · rintro ((heq | hmem) | ⟨other, hother, heq⟩)
        · exact Or.inr ⟨source, mem_cons_self, heq.symm⟩
        · exact Or.inl hmem
        · exact Or.inr ⟨other, mem_cons_of_mem source hother, heq⟩
      · rintro (hmem | ⟨other, hother, heq⟩)
        · exact Or.inl (Or.inr hmem)
        · rcases mem_cons.mp hother with hsame | hrest'
          · rw [hsame] at heq
            exact Or.inl (Or.inl heq.symm)
          · exact Or.inr ⟨other, hrest', heq⟩
    · have hsplit : addedFor rra target (source :: rest) =
          addedFor rra target [source] ++ addedFor rra target rest := by
        unfold addedFor
        rw [← filter_append, ← map_append]
        rfl
      rw [hsplit, ← append_assoc]
      exact hholds'

end Target

/-- What holds after the first targets. -/
structure Ran (fetch : Cf -> Nat -> Int -> Int -> Stream) (lastUpdate : Int)
    (rra : List RraEntry) (targets : List (Target step)) (count : Nat)
    (state : Rrd step × List Text) (added : List RraEntry) : Prop where
  holds : Holds fetch lastUpdate rra state.1 (rra ++ added)
  fresh : forall entry, entry ∈ added -> entry ∉ rra
  mem : forall entry, entry ∈ rra ++ added <-> entry ∈ rra ∨ Reached rra targets count entry
  news : forall name, name ∈ state.2 <-> exists entry, Reached rra targets count entry ∧
    rraName entry step false = name
  once : added.Nodup <-> Once rra targets count

variable {targets : List (Target step)} {count : Nat} {state : Rrd step × List Text}
  {added : List RraEntry}

theorem Ran.shorts (h : Ran fetch lastUpdate rra targets count state added) (hne : rra ≠ []) :
    forall name, name ∈ state.1.rraShortNames <-> name ∈ namesBefore rra targets count := by
  intro name
  rw [h.holds.shorts.mem_iff, mem_map, namesBefore, mem_append, mem_map,
    mem_map]
  constructor
  · rintro ⟨entry, hentry, heq⟩
    rcases (h.mem entry).mp hentry with hfile | ⟨index, target, cf, hindex, htarget, _, hsame⟩
    · exact Or.inl ⟨entry, hfile, heq⟩
    · right
      refine ⟨target, ?_, ?_⟩
      · apply mem_of_getElem?
        rw [getElem?_take, if_pos hindex]
        exact htarget
      · rw [← heq, hsame, target.short_entry]
  · rintro (⟨entry, hentry, heq⟩ | ⟨target, htarget, heq⟩)
    · exact ⟨entry, mem_append_left added hentry, heq⟩
    · rcases getElem?_of_mem htarget with ⟨index, hindex⟩
      rw [getElem?_take] at hindex
      split at hindex
      · next hlt =>
          rcases exists_reaches hne hindex with ⟨cf, hreaches⟩
          refine ⟨target.entry cf, (h.mem _).mpr (Or.inr ⟨index, target, cf, hlt, hindex,
            hreaches, rfl⟩), ?_⟩
          rw [← heq, target.short_entry]
      · cases hindex

theorem Ran.sources_iff (h : Ran fetch lastUpdate rra targets count state added)
    {target : Target step} (htarget : targets[count]? = some target) {best : Text}
    (hbest : findBestRraName (namesBefore rra targets count) target.total = .ok best) {cf : Cf} :
    (exists source, source ∈ (rra ++ added).filter (fun entry => rraName entry step true = best) ∧
      source.cf = cf) <-> Reaches rra targets count cf := by
  constructor
  · rintro ⟨source, hsource, hcf⟩
    rw [mem_filter, decide_eq_true_iff] at hsource
    rcases hsource with ⟨hmem, hshort⟩
    rw [← hcf]
    rcases (h.mem source).mp hmem with hfile | ⟨index, other, cf', hindex, hother, hreaches, heq⟩
    · exact Reaches.ofFile htarget hfile (hshort ▸ hbest)
    · rw [heq, other.short_entry] at hshort
      rw [heq]
      exact Reaches.ofTarget htarget hindex hother (hshort ▸ hbest) hreaches
  · intro hreaches
    cases hreaches with
    | @ofFile _ target' source htarget' hsource hbest' =>
      rw [htarget'] at htarget
      cases htarget
      rw [hbest'] at hbest
      cases hbest
      refine ⟨source, mem_filter.mpr ⟨mem_append_left added hsource, ?_⟩, rfl⟩
      exact decide_eq_true rfl
    | @ofTarget _ earlier target' other _ htarget' hearlier hother hbest' hreaches' =>
      rw [htarget'] at htarget
      cases htarget
      rw [hbest'] at hbest
      cases hbest
      refine ⟨other.entry cf, mem_filter.mpr ⟨?_, decide_eq_true (other.short_entry cf)⟩,
        rfl⟩
      exact (h.mem _).mpr (Or.inr ⟨earlier, other, cf, hearlier, hother, hreaches', rfl⟩)

theorem nodup_addedFor {sources : List RraEntry} (hnodup : sources.Nodup) {best : Text}
    (hbest : forall source, source ∈ sources -> rraName source step true = best)
    (rra : List RraEntry) (target : Target step) : (addedFor rra target sources).Nodup := by
  apply Nodup.filter
  apply Nodup.map_on _ hnodup
  intro source hsource other hother heq
  apply entry_eq (Target.entry_eq_iff.mp heq).left
  rw [hbest source hsource, hbest other hother]

theorem Ran.next (h : Ran fetch lastUpdate rra targets count state added) (hrra : rra.Nodup)
    (hne : rra ≠ []) {clock : Text -> Int} {prevNames : List Text}
    (hprev : forall entry, rraName entry step false ∈ prevNames <-> entry ∈ rra)
    {target : Target step} (htarget : targets[count]? = some target) :
    exists state' added', checkTarget clock prevNames state target = .ok state' ∧
      Ran fetch lastUpdate rra targets (count + 1) state' added' := by
  have hshorts := h.shorts hne
  have hvalid : ShortNames step state.1.rraShortNames := fun name hname =>
    shortNames_namesBefore hne targets count name ((hshorts name).mp hname)
  have hnil : state.1.rraShortNames ≠ [] := by
    rcases exists_mem_of_ne_nil rra hne with ⟨entry, hentry⟩
    apply ne_nil_of_mem
    exact h.holds.shorts.mem_iff.mpr (mem_map_of_mem (mem_append_left added hentry))
  rcases exists_findBestRraName hvalid hnil target.total with ⟨best, hbest, hmem⟩
  rcases hvalid best hmem with ⟨model, hmodel⟩
  have hbest' : findBestRraName (namesBefore rra targets count) target.total = .ok best :=
    (findBestRraName_congr hvalid hshorts target.total).symm.trans hbest
  have hsuffix : (state.1.rraNames.filter fun name => ('-' :: best).isSuffixOf name) =
      ((rra ++ added).filter fun entry => rraName entry step true = best).map
        fun source => rraName source step false := by
    rw [h.holds.names, filter_map]
    congr 1
    apply filter_congr
    intro entry _
    rw [Function.comp_apply, Bool.eq_iff_iff, isSuffixOf_iff_suffix, decide_eq_true_iff, hmodel]
    exact rraName_suffix_iff
  have hsources : forall cf, _ <-> _ := fun cf =>
    @Ran.sources_iff _ _ _ _ _ _ _ _ h target htarget best hbest' cf
  generalize hlist : (rra ++ added).filter (fun entry => rraName entry step true = best) = sources
    at hsuffix hsources
  have hheld : forall source, source ∈ sources ->
      source ∈ rra ++ added ∧ rraName source step true = best := by
    intro source hsource
    rw [← hlist, mem_filter, decide_eq_true_iff] at hsource
    exact hsource
  rcases @foldlM_addTarget step fetch lastUpdate rra _ clock prevNames target sources state h.holds
    hprev (fun source hsource => (hheld source hsource).left) with ⟨state', hfold, hnews, hholds⟩
  have hadded : forall entry, entry ∈ addedFor rra target sources <->
      entry ∉ rra ∧ exists cf, Reaches rra targets count cf ∧ entry = target.entry cf := by
    intro entry
    rw [addedFor, mem_filter, mem_map, decide_eq_true_iff]
    constructor
    · rintro ⟨⟨source, hsource, heq⟩, hnot⟩
      exact ⟨hnot, source.cf, (hsources source.cf).mp ⟨source, hsource, rfl⟩, heq.symm⟩
    · rintro ⟨hnot, cf, hreaches, heq⟩
      rcases (hsources cf).mpr hreaches with ⟨source, hsource, hcf⟩
      exact ⟨⟨source, hsource, by rw [heq, hcf]⟩, hnot⟩
  refine ⟨state', added ++ addedFor rra target sources, ?_, ?_, ?_, ?_, ?_, ?_⟩
  · unfold checkTarget
    rw [hbest]
    dsimp only [bind, Except.bind]
    rw [hsuffix]
    exact hfold
  · rw [← append_assoc]
    exact hholds
  · intro entry hentry
    rcases mem_append.mp hentry with hold | hnew
    · exact h.fresh entry hold
    · exact ((hadded entry).mp hnew).left
  · intro entry
    rw [← append_assoc, mem_append, h.mem, hadded, reached_succ htarget, or_assoc]
    constructor
    · rintro (hfile | hreached | ⟨_, hnew⟩)
      · exact Or.inl hfile
      · exact Or.inr (Or.inl hreached)
      · exact Or.inr (Or.inr hnew)
    · rintro (hfile | hreached | hnew)
      · exact Or.inl hfile
      · exact Or.inr (Or.inl hreached)
      · by_cases hfile : entry ∈ rra
        · exact Or.inl hfile
        · exact Or.inr (Or.inr ⟨hfile, hnew⟩)
  · intro name
    rw [hnews, h.news]
    constructor
    · rintro (⟨entry, hreached, heq⟩ | ⟨source, hsource, heq⟩)
      · exact ⟨entry, (reached_succ htarget).mpr (Or.inl hreached), heq⟩
      · exact ⟨_, (reached_succ htarget).mpr (Or.inr ⟨source.cf,
          (hsources source.cf).mp ⟨source, hsource, rfl⟩, rfl⟩), heq⟩
    · rintro ⟨entry, hreached, heq⟩
      rcases (reached_succ htarget).mp hreached with hold | ⟨cf, hreaches, hentry⟩
      · exact Or.inl ⟨entry, hold, heq⟩
      · rcases (hsources cf).mpr hreaches with ⟨source, hsource, hcf⟩
        exact Or.inr ⟨source, hsource, by rw [hcf, ← hentry]; exact heq⟩
  · rw [nodup_append', once_succ htarget, ← h.once]
    constructor
    · rintro ⟨hold, _, hdisjoint⟩
      refine ⟨hold, fun cf hreaches hreached => ?_⟩
      by_contra hfile
      rcases mem_append.mp ((h.mem _).mpr (Or.inr hreached)) with hmem' | hmem'
      · exact hfile hmem'
      · exact hdisjoint hmem' ((hadded _).mpr ⟨hfile, cf, hreaches, rfl⟩)
    · rintro ⟨hold, hlast⟩
      refine ⟨hold, ?_, ?_⟩
      · have hnodup : (rra ++ added).Nodup := by
          rw [nodup_append']
          exact ⟨hrra, hold, fun entry hfile hnew => h.fresh entry hnew hfile⟩
        exact nodup_addedFor (hlist ▸ hnodup.filter _) (fun source hsource =>
          (hheld source hsource).right) rra target
      · intro entry hentry hnew
        rcases (hadded entry).mp hnew with ⟨hnot, cf, hreaches, heq⟩
        rcases (h.mem entry).mp (mem_append_right rra hentry) with hfile | hreached
        · exact hnot hfile
        · rw [heq] at hreached hnot
          exact hnot (hlast cf hreaches hreached)

end Icsw.RrdTools
