import Icsw.NameTree.CategoryTree

/-!
# Runs on the category tree

From the tree of an empty database on, each category has the full name and depth that its parent
gives and only categories of the device tree have the asset flag, unless a request flags a top node
or stores a name that ends in a newline or that the categories below cannot follow.
-/

namespace Icsw.NameTree

open Foundation List
open Foundation.Forest

variable {database : Database CategoryColumns} {levels : Nat} {table table' : Table CategoryColumns}

structure Unassigned (table : Table CategoryColumns) : Prop
    extends Consistent categoryRules table where
  noAsset : forall {pk node}, table.row pk = some node -> node.extra.asset = false

theorem unassigned_empty : Unassigned Table.empty where
  toConsistent := consistent_of_no_rows fun _ => rfl
  noAsset hpk := absurd hpk (Option.some_ne_none _ ∘ Eq.symm)

theorem Unassigned.added (h : Unassigned table) {node saved : Node CategoryColumns} {pk : Nat}
    (hadded : Added categoryRules table node pk saved table') (hasset : node.extra.asset = false) :
    Unassigned table' := by
  refine ⟨hadded.consistent, ?_⟩
  intro other found hfound
  rw [hadded.hrows] at hfound
  split at hfound
  · cases hfound
    rw [hadded.extra]
    exact hasset
  · exact h.noAsset hfound

variable {entries : List (Nat × Node CategoryColumns)}

theorem addSubtypes_unassigned {top : Nat × Node CategoryColumns} {names : List Text}
    (h : Unassigned table) (hnames : forall name, name ∈ names -> '/' ∉ name)
    (hadded : addSubtypes database levels top names table = .ok entries table') :
    Unassigned table' ∧ (forall pk node, table.row pk = some node -> table'.row pk = some node) ∧
      (forall entry, entry ∈ entries -> table'.row entry.1 = some entry.2 ∧
        table.row entry.1 = none) ∧ (entries.map Prod.fst).Nodup := by
  induction names generalizing table entries with
  | nil =>
    cases hadded
    exact ⟨h, fun _ _ hrow => hrow, fun _ hmem => absurd hmem not_mem_nil, nodup_nil⟩
  | cons name rest ih =>
    have hsaved := save_plain database categoryRules_lawful h.toConsistent levels
      { name, fullName := joinCategory name top.2.fullName, parent := some top.1,
        depth := top.2.depth + 1, extra := CategoryColumns.default }
      (fun hnone => absurd hnone (Option.some_ne_none _)) (hnames name mem_cons_self)
    rw [addSubtypes, bind_apply] at hadded
    cases hresult : save categoryRules database levels none
        { name, fullName := joinCategory name top.2.fullName, parent := some top.1,
          depth := top.2.depth + 1, extra := CategoryColumns.default } table with
    | error raised between =>
      rw [hresult] at hadded
      cases hadded
    | ok saved between =>
      rw [hresult] at hsaved hadded
      simp only [bind_apply] at hadded
      cases hothers : addSubtypes database levels top rest between with
      | error raised last =>
        rw [hothers] at hadded
        cases hadded
      | ok others last =>
        rw [hothers] at hadded
        cases hadded
        rcases ih (h.added hsaved rfl)
          (fun other hmem => hnames other (mem_cons_of_mem name hmem)) hothers with
          ⟨hlast, hkept, hentries, hnodup⟩
        have hself : between.row saved.1 = some saved.2 := by rw [hsaved.hrows, if_pos rfl]
        refine ⟨hlast, fun pk node hrow => hkept pk node (hsaved.kept hrow), ?_, ?_⟩
        · intro entry hmem
          rcases mem_cons.mp hmem with heq | htail
          · rw [heq]
            exact ⟨hkept _ _ hself, by rw [hsaved.hpk, table.row_nextPk]⟩
          · rcases hentries entry htail with ⟨hrow, hnew⟩
            refine ⟨hrow, ?_⟩
            rw [hsaved.hrows] at hnew
            split at hnew
            · cases hnew
            · exact hnew
        · refine nodup_cons.mpr ⟨?_, hnodup⟩
          intro hmem
          rcases mem_map.mp hmem with ⟨entry, hentry, heq⟩
          have hnew := (hentries entry hentry).right
          rw [heq, hself] at hnew
          cases hnew

theorem markImmutable_unassigned (h : Unassigned table)
    (hentries : forall entry, entry ∈ entries -> table.row entry.1 = some entry.2)
    (hnodup : (entries.map Prod.fst).Nodup)
    (hmarked : markImmutable database levels entries table = .ok ⟨⟩ table') :
    Unassigned table' ∧ forall pk, (exists node, table.row pk = some node) ->
      exists node, table'.row pk = some node := by
  induction entries generalizing table with
  | nil =>
    cases hmarked
    exact ⟨h, fun _ hrow => hrow⟩
  | cons entry rest ih =>
    rcases entry with ⟨pk, node⟩
    have hrow := hentries (pk, node) mem_cons_self
    have hsaved := save_extra database categoryRules_lawful h.toConsistent levels
      hrow { node.extra with immutable := true }
    rw [markImmutable, bind_apply] at hmarked
    cases hresult : save categoryRules database levels (some pk)
        { node with extra := { node.extra with immutable := true } } table with
    | error raised between =>
      rw [hresult] at hmarked
      cases hmarked
    | ok saved between =>
      rw [hresult] at hsaved hmarked
      rcases hsaved with ⟨hconsistent, marked, hupdate, hextra⟩
      have hbetween : Unassigned between := by
        refine ⟨hconsistent, ?_⟩
        intro other found hfound
        rw [hupdate, Table.row_update] at hfound
        split at hfound
        · cases hfound
          rw [hextra]
          exact h.noAsset hrow
        · exact h.noAsset hfound
      have hrest : forall other, other ∈ rest -> between.row other.1 = some other.2 := by
        intro other hmem
        have hne : other.1 ≠ pk := by
          intro heq
          rw [map_cons, nodup_cons] at hnodup
          exact hnodup.left (mem_map.mpr ⟨other, hmem, heq⟩)
        rw [hupdate, Table.row_update_ne hne]
        exact hentries other (mem_cons_of_mem _ hmem)
      rcases ih hbetween hrest (nodup_cons.mp hnodup).right hmarked with ⟨hlast, hkept⟩
      refine ⟨hlast, ?_⟩
      intro other hother
      apply hkept
      rw [hupdate, Table.row_update]
      split
      · exact ⟨marked, rfl⟩
      · exact hother

theorem categoryTree_unassigned {subtypes : List Text} (hsubtypes : subtypes.Perm treeSubtypes)
    (hbuilt : categoryTree database levels subtypes Table.empty = .ok ⟨⟩ table) :
    Unassigned table ∧ exists pk node, table.row pk = some node := by
  have hsaved := save_plain database categoryRules_lawful unassigned_empty.toConsistent levels
    { name := [], fullName := [], parent := none, depth := 0,
      extra := { CategoryColumns.default with comment := "top node".toList } }
    (fun _ => rfl) not_mem_nil
  rw [categoryTree, bind_apply] at hbuilt
  cases hresult : save categoryRules database levels none
      { name := [], fullName := [], parent := none, depth := 0,
        extra := { CategoryColumns.default with comment := "top node".toList } } Table.empty with
  | error raised between =>
    rw [hresult] at hbuilt
    cases hbuilt
  | ok top between =>
    rw [hresult] at hsaved hbuilt
    simp only [bind_apply] at hbuilt
    have hself : between.row top.1 = some top.2 := by rw [hsaved.hrows, if_pos rfl]
    cases hothers : addSubtypes database levels top subtypes between with
    | error raised last =>
      rw [hothers] at hbuilt
      cases hbuilt
    | ok others last =>
      rw [hothers] at hbuilt
      have hplain : forall name, name ∈ subtypes -> '/' ∉ name := by
        intro name hmem
        have hall : forall known, known ∈ treeSubtypes -> '/' ∉ known := by decide
        exact hall name (hsubtypes.mem_iff.mp hmem)
      rcases addSubtypes_unassigned (unassigned_empty.added hsaved rfl) hplain hothers with
        ⟨hlast, hkept, hentries, hnodup⟩
      have hrows : forall entry, entry ∈ top :: others -> last.row entry.1 = some entry.2 := by
        intro entry hmem
        rcases mem_cons.mp hmem with heq | htail
        · rw [heq]
          exact hkept _ _ hself
        · exact (hentries entry htail).left
      have hnew : top.1 ∉ others.map Prod.fst := by
        intro hmem
        rcases mem_map.mp hmem with ⟨entry, hentry, heq⟩
        have hnone := (hentries entry hentry).right
        rw [heq, hself] at hnone
        cases hnone
      rcases markImmutable_unassigned hlast hrows (nodup_cons.mpr ⟨hnew, hnodup⟩)
        hbuilt with ⟨hmarked, hstored⟩
      rcases hstored top.1 ⟨top.2, hkept _ _ hself⟩ with ⟨node, hnode⟩
      exact ⟨hmarked, top.1, node, hnode⟩

def devicePath : Text := "/device".toList

structure CategoriesConsistent (table : Table CategoryColumns) : Prop where
  placed : forall {pk node above}, table.row pk = some node -> node.parent = some above ->
    exists parent, table.row above = some parent ∧
      node.fullName = parent.fullName ++ '/' :: node.name ∧ node.depth = parent.depth + 1
  asset : forall {pk node}, table.row pk = some node -> node.extra.asset = true ->
    node.fullName = devicePath ∨ (devicePath ++ ['/']) <+: node.fullName

/-- Not even the top category of the device tree has the asset flag. -/
def AssetsBelowDevice (table : Table CategoryColumns) : Prop :=
  forall pk node, table.row pk = some node -> node.extra.asset = true ->
    (devicePath ++ ['/']) <+: node.fullName

/-- A consistent table whose top nodes have no asset flag. -/
structure TopsUnassigned (table : Table CategoryColumns) : Prop
    extends Consistent categoryRules table where
  stored : exists pk node, table.row pk = some node
  noAsset : forall {pk node}, table.row pk = some node -> node.parent = none ->
    node.extra.asset = false

theorem topLevel_of_checkFullName {full : Text} {extra : CategoryColumns}
    (h : categoryRules.checkFullName full extra = .ok ()) (hasset : extra.asset = true) :
    topLevel full = some topDeviceCategory := by
  unfold categoryRules at h
  simp only at h
  cases htop : topLevel full with
  | none =>
    rw [htop] at h
    cases h
  | some top =>
    rw [htop] at h
    by_cases hdevice : top = topDeviceCategory
    · rw [hdevice]
    · simp only [if_pos (And.intro hasset hdevice)] at h
      cases h

theorem settles_category {extra extra' : CategoryColumns} (h : Settles categoryRules extra extra') :
    extra' = extra := by
  induction h with
  | refl => rfl
  | tail _ hstep ih =>
    rcases hstep with ⟨pk, heq⟩
    exact heq.trans ih

variable {node : Node CategoryColumns}

theorem Consistent.slash_first (consistent : Consistent categoryRules table) {pk above : Nat}
    (hrow : table.row pk = some node)
    (habove : node.parent = some above) : exists rest, node.fullName = '/' :: rest := by
  rcases consistent.rooted hrow with ⟨count, hcount⟩
  induction hcount generalizing node above with
  | root hroot =>
    rw [Table.parentOf_row hrow, habove] at hroot
    cases hroot
  | step hparent _ ih =>
    rw [Table.parentOf_row hrow] at hparent
    rcases consistent.placed hrow _ hparent with ⟨parent, hparent_row, hfull, _⟩
    have hjoin : node.fullName = parent.fullName ++ '/' :: node.name := hfull
    cases hhigher : parent.parent with
    | none =>
      rw [(consistent.top hparent_row hhigher).right.left] at hjoin
      exact ⟨node.name, hjoin⟩
    | some higher =>
      rcases ih hparent_row hhigher with ⟨rest, hrest⟩
      rw [hrest] at hjoin
      exact ⟨_, hjoin⟩

section

variable (h : TopsUnassigned table)
include h

theorem TopsUnassigned.flagged {pk : Nat}
    (hrow : table.row pk = some node) (hasset : node.extra.asset = true) :
    exists above, node.parent = some above ∧ topLevel node.fullName = some topDeviceCategory := by
  cases hparent : node.parent with
  | none =>
    rw [h.noAsset hrow hparent] at hasset
    cases hasset
  | some above =>
    rcases h.placed hrow above hparent with ⟨_, _, _, _, _, hcheck⟩
    exact ⟨above, rfl, topLevel_of_checkFullName hcheck hasset⟩

theorem TopsUnassigned.categoriesConsistent :
    CategoriesConsistent table where
  placed hrow habove := by
    rcases h.placed hrow _ habove with ⟨parent, hparent, hfull, hdepth, _⟩
    exact ⟨parent, hparent, hfull, hdepth⟩
  asset hrow hasset := by
    rcases h.flagged hrow hasset with ⟨above, habove, htop⟩
    rcases h.toConsistent.slash_first hrow habove with ⟨rest, hrest⟩
    exact topLevel_cases hrest htop

theorem TopsUnassigned.belowDevice
    (hdeep : forall {pk node}, table.row pk = some node -> node.extra.asset = true ->
      2 ≤ node.depth) : AssetsBelowDevice table := by
  intro pk node hrow hasset
  rcases h.categoriesConsistent.asset hrow hasset with heq | hbegins
  · rcases categoryRules_lawful.ranked with ⟨rank, hnil, hjoin⟩
    have hlegal : Legal categoryRules topDeviceCategory := by
      constructor
      · decide
      · have hall : topDeviceCategory.all validCategoryChar = true := rfl
        exact fun c hc => all_eq_true.mp hall c hc
    have hone : rank devicePath = 1 := (hjoin topDeviceCategory [] hlegal).trans (by rw [hnil])
    have hdepth := h.toConsistent.depth_eq_rank hnil hjoin hrow
    rw [heq, hone] at hdepth
    exact absurd (hdeep hrow hasset) (by rw [hdepth]; decide)
  · exact hbegins

end

/-- The request does not set the asset flag of a top node. -/
def NoTopAsset (request : Request CategoryColumns) : Prop :=
  request.parent = none -> strip request.name = [] -> request.extra.asset = false

instance (request : Request CategoryColumns) : Decidable (NoTopAsset request) :=
  inferInstanceAs (Decidable (_ -> _ -> _))

/-- The request does not set the asset flag of the top category of the device tree. -/
def NoDeviceAsset (table : Table CategoryColumns) (request : Request CategoryColumns) : Prop :=
  request.extra.asset = true ->
    targetName categoryRules table request.name request.parent ≠ devicePath

instance (table : Table CategoryColumns) (request : Request CategoryColumns) :
    Decidable (NoDeviceAsset table request) :=
  inferInstanceAs (Decidable (_ -> _))

variable (database levels)

def categoryStep : Table CategoryColumns -> Request CategoryColumns -> Table CategoryColumns :=
  step categoryRules database levels

def CategoryAdmissible (table : Table CategoryColumns) (request : Request CategoryColumns) : Prop :=
  NoTopAsset request ∧ Admissible categoryRules database levels table request

instance (table : Table CategoryColumns) (request : Request CategoryColumns) :
    Decidable (CategoryAdmissible database levels table request) :=
  inferInstanceAs (Decidable (_ ∧ _))

variable {database levels}

theorem Unassigned.topsUnassigned (h : Unassigned table)
    (hstored : exists pk node, table.row pk = some node) : TopsUnassigned table :=
  ⟨h.toConsistent, hstored, fun hrow _ => h.noAsset hrow⟩

theorem TopsUnassigned.stepped (h : TopsUnassigned table) {request : Request CategoryColumns}
    (hadmissible : CategoryAdmissible database levels table request) :
    Stepped categoryRules table request (categoryStep database levels table request) :=
  step_stepped categoryRules_lawful h.toConsistent h.stored levels hadmissible.right

theorem categoryStep_topsUnassigned (table : Table CategoryColumns)
    (request : Request CategoryColumns) (h : TopsUnassigned table)
    (hadmissible : CategoryAdmissible database levels table request) :
    TopsUnassigned (categoryStep database levels table request) := by
  have hstepped := h.stepped hadmissible
  constructor
  case toConsistent => exact hstepped.consistent
  case stored =>
    rcases h.stored with ⟨pk, node, hrow⟩
    exact ⟨pk, hstepped.kept hrow⟩
  case noAsset =>
    intro pk found hfound hnone
    cases hstepped.origin hfound with
    | stored hbefore _ hplace =>
      rcases hplace with heq | hdeep
      · rw [heq] at hnone ⊢
        exact h.noAsset hbefore hnone
      · rw [(hstepped.consistent.top hfound hnone).right.right] at hdeep
        cases hdeep
    | created hparent _ => exact absurd hnone hparent
    | placed hparent _ _ => exact absurd hnone hparent
    | top _ hname hparent _ hextra =>
      rw [settles_category hextra]
      exact hadmissible.left hparent hname

structure AssetsDeep (table : Table CategoryColumns) : Prop extends TopsUnassigned table where
  deep_asset : forall {pk node}, table.row pk = some node -> node.extra.asset = true ->
    2 ≤ node.depth

theorem categoryStep_assetsDeep (table : Table CategoryColumns)
    (request : Request CategoryColumns) (h : AssetsDeep table)
    (hadmissible : CategoryAdmissible database levels table request ∧ NoDeviceAsset table request) :
    AssetsDeep (categoryStep database levels table request) := by
  have hstepped := h.stepped hadmissible.left
  have hnext := categoryStep_topsUnassigned table request h.toTopsUnassigned hadmissible.left
  refine ⟨hnext, ?_⟩
  intro pk found hfound hasset
  rcases hnext.flagged hfound hasset with ⟨above, habove, htop⟩
  cases hstepped.origin hfound with
  | stored hbefore _ hplace =>
    rcases hplace with heq | hdeep
    · rw [heq] at hasset ⊢
      exact h.deep_asset hbefore hasset
    · exact hdeep
  | created _ hextra =>
    rw [settles_category hextra] at hasset
    cases hasset
  | top hnone _ _ _ _ =>
    rw [habove] at hnone
    cases hnone
  | placed _ hfull hextra =>
    rw [settles_category hextra] at hasset
    have htarget := hadmissible.right hasset
    rcases hstepped.consistent.placed hfound above habove with
      ⟨parent, hparent, hjoin, hdepth, _⟩
    have hparent_deep : parent.depth ≠ 0 := by
      intro hzero
      have hnil := hstepped.consistent.toShape.fullName_of_depth hparent hzero
      have hlegal := hstepped.consistent.legal hfound habove
      have hfirst : found.fullName = joinCategory found.name [] := by
        rw [hjoin, hnil]
        rfl
      rw [hfirst, topLevel_first (slash_not_mem hlegal)] at htop
      apply htarget
      rw [← hfull, hfirst, Option.some.inj htop]
      rfl
    rw [hdepth]
    exact Nat.succ_le_succ (Nat.one_le_iff_ne_zero.mpr hparent_deep)

/--
Whatever categories are created, renamed, moved and flagged, accepted or rejected,
they are consistent after each request of a run of admissible ones.  Where no
request flags the top category of the device tree, all assets are below it.
-/
theorem categories_stay_consistent (database : Database CategoryColumns) (levels : Nat)
    (subtypes : List Text) (start : Table CategoryColumns) (hsubtypes : subtypes.Perm treeSubtypes)
    (hbuilt : categoryTree database levels subtypes Table.empty = .ok ⟨⟩ start)
    (taken rest : List (Request CategoryColumns))
    (h : Along (categoryStep database levels) (CategoryAdmissible database levels) start
      (taken ++ rest)) :
    CategoriesConsistent (run (categoryStep database levels) start taken) ∧
      (Along (categoryStep database levels) NoDeviceAsset start (taken ++ rest) ->
        AssetsBelowDevice (run (categoryStep database levels) start taken)) := by
  rcases categoryTree_unassigned hsubtypes hbuilt with ⟨hunassigned, hstored⟩
  have hstart := hunassigned.topsUnassigned hstored
  constructor
  · exact (invariant_reached (categoryStep database levels) categoryStep_topsUnassigned hstart
      h).categoriesConsistent
  · intro hdevice
    have hdeep : AssetsDeep start := by
      refine ⟨hstart, ?_⟩
      intro pk node hrow hasset
      rw [hunassigned.noAsset hrow] at hasset
      cases hasset
    have hlast := invariant_reached (categoryStep database levels) categoryStep_assetsDeep hdeep
      (along_and (categoryStep database levels) h hdevice)
    exact hlast.toTopsUnassigned.belowDevice hlast.deep_asset

def categoryDatabase : Database CategoryColumns where
  fits name _ extra := decide (name.length ≤ 64) && decide (extra.comment.length ≤ 256)
  listed := id
  listed_perm entries := Perm.refl entries

def firstTree : Table CategoryColumns :=
  (categoryTree categoryDatabase 40 treeSubtypes).after Table.empty

theorem categoryTree_firstTree :
    categoryTree categoryDatabase 40 treeSubtypes Table.empty = .ok ⟨⟩ firstTree := by
  have hok : (match categoryTree categoryDatabase 40 treeSubtypes Table.empty with
      | .ok _ _ => true
      | .error _ _ => false) = true := by decide +kernel
  unfold firstTree Program.after
  cases hresult : categoryTree categoryDatabase 40 treeSubtypes Table.empty with
  | ok value table => rfl
  | error raised table =>
    rw [hresult] at hok
    cases hok

def categoryRun (requests : List (Request CategoryColumns)) : Table CategoryColumns :=
  run (categoryStep categoryDatabase 40) firstTree requests

def assetColumns : CategoryColumns := { CategoryColumns.default with asset := true }

/-- An asset category with its parent, which then gets another name. -/
def renamedAssets : List (Request CategoryColumns) :=
  [.create "rack/disk".toList (some 5) assetColumns,
   .edit 6 "shelf".toList (some 5) CategoryColumns.default]

theorem renamedAssets_consistent :
    CategoriesConsistent (categoryRun renamedAssets) ∧
      AssetsBelowDevice (categoryRun renamedAssets) ∧
      ((categoryRun renamedAssets).row 7).map Node.fullName =
        some "/device/shelf/disk".toList := by
  have hboth := categories_stay_consistent categoryDatabase 40 treeSubtypes firstTree
    (List.Perm.refl _) categoryTree_firstTree renamedAssets [] (by decide +kernel)
  exact ⟨hboth.left, hboth.right (by decide +kernel), by decide +kernel⟩

def movedAssets : List (Request CategoryColumns) :=
  [.create "rack/disk".toList (some 5) assetColumns,
   .edit 6 "rack".toList (some 2) CategoryColumns.default]

/-- The category that was moved is stored, the one below it is rejected. -/
theorem movedAssets_inconsistent : ¬ CategoriesConsistent (categoryRun movedAssets) := by
  intro h
  have hchild : (categoryRun movedAssets).row 7 =
      some { name := "disk".toList, fullName := "/device/rack/disk".toList, parent := some 6,
             depth := 3, extra := assetColumns } := by decide +kernel
  have hparent : (categoryRun movedAssets).row 6 =
      some { name := "rack".toList, fullName := "/mon/rack".toList, parent := some 2, depth := 2,
             extra := CategoryColumns.default } := by decide +kernel
  rcases h.placed hchild rfl with ⟨parent, hrow, hfull, _⟩
  rw [hparent] at hrow
  cases hrow
  exact absurd hfull (by decide)

end Icsw.NameTree
