import Icsw.NameTree.AddName

/-!
# Reading the tree from the table

The rows are read in the order of their depths, so that the parent of a row has been read before
it.  What has been read so far mirrors that part of the table, and in the end the whole table.
-/

namespace Icsw.NameTree

open Foundation List
open Foundation.Forest

variable {E : Type} {tree : HelperRules E} {database : Database E} {levels root pk above : Nat}
  {table : Table E} {node parent : Node E} {helper : Helper E}
  {rows done rest : List (Nat × Node E)}

/-- All rows of the table, none of them before one of less depth. -/
structure Listing (table : Table E) (rows : List (Nat × Node E)) : Prop where
  mem : forall {pk node}, (pk, node) ∈ rows <-> table.row pk = some node
  nodup : (rows.map Prod.fst).Nodup
  sorted : rows.Pairwise fun first second => first.2.depth ≤ second.2.depth

theorem readRows_ok (shape : Shape tree.rules table) (database : Database E) (levels : Nat) :
    exists rows, readRows tree database levels table = .ok rows table ∧ Listing table rows := by
  let entries := byDepth (database.listed table.rows.entries)
  have hperm : entries.Perm table.rows.entries :=
    (perm_insertionSort _ _).trans (database.listed_perm _)
  have hrows : forall entry, entry ∈ entries -> table.row entry.1 = some entry.2 :=
    fun entry hmem => Table.mem_entries.mp (hperm.mem_iff.mp hmem)
  refine ⟨entries.map fun entry => (entry.1, entry.2), ?_, ?_⟩
  · unfold readRows
    simp only [bind_apply, get_apply]
    exact mapM_loadEntry shape levels (save tree.rules database levels) entries hrows
  · constructor
    case mem =>
      intro pk node
      rw [mem_map]
      constructor
      · rintro ⟨stored, hmem, heq⟩
        cases heq
        exact hrows stored hmem
      · intro hrow
        exact ⟨⟨pk, node⟩, hperm.mem_iff.mpr (Table.mem_entries.mpr hrow), rfl⟩
    case nodup =>
      rw [map_map]
      exact ((hperm.map Sigma.fst).nodup_iff).mpr table.rows.keys_nodup
    case sorted =>
      rw [pairwise_map]
      exact pairwise_insertionSort _ _

section

variable (h : Listing table (done ++ (pk, node) :: rest))
include h

theorem Listing.before
    (habove : table.row above = some parent) (hdepth : parent.depth < node.depth) :
    above ∈ done.map Prod.fst := by
  rcases mem_append.mp (h.mem.mpr habove) with hdone | hlater
  · exact mem_map_of_mem hdone
  · have hsorted := pairwise_cons.mp (pairwise_append.mp h.sorted).right.left
    rcases mem_cons.mp hlater with heq | hrest
    · cases heq
      exact absurd hdepth (Nat.lt_irrefl _)
    · exact absurd hdepth (Nat.not_lt_of_le (hsorted.left _ hrest))

theorem Listing.depth_le {child : Nat}
    {found : Node E} (hchild : child ∈ done.map Prod.fst) (hfound : table.row child = some found) :
    found.depth ≤ node.depth := by
  rcases mem_map.mp hchild with ⟨entry, hmem, rfl⟩
  have hrow := h.mem.mp (mem_append_left _ hmem)
  rw [hfound] at hrow
  rw [Option.some.inj hrow]
  exact (pairwise_append.mp h.sorted).right.right entry hmem _ mem_cons_self

theorem Listing.not_read :
    pk ∉ done.map Prod.fst := by
  intro hmem
  have hnodup := h.nodup
  rw [map_append] at hnodup
  exact (nodup_append.mp hnodup).right.right pk hmem pk mem_cons_self rfl

theorem Listing.row : table.row pk = some node :=
  h.mem.mp (mem_append_right _ mem_cons_self)

end

def restrict (table : Table E) (keys : List Nat) (pk : Nat) : Option (Node E) :=
  if pk ∈ keys then table.row pk else none

theorem restrict_some {keys : List Nat} :
    restrict table keys pk = some node <-> pk ∈ keys ∧ table.row pk = some node := by
  unfold restrict
  split
  · rename_i hmem
    exact ⟨fun hrow => ⟨hmem, hrow⟩, And.right⟩
  · rename_i hnot
    exact ⟨fun hrow => absurd hrow (Option.some_ne_none node ∘ Eq.symm),
      fun hboth => absurd hboth.left hnot⟩

theorem restrict_concat {keys : List Nat} (hrow : table.row pk = some node) :
    restrict table (keys ++ [pk]) = Function.update (restrict table keys) pk (some node) := by
  funext key
  unfold restrict
  by_cases hkey : key = pk
  · rw [hkey, Function.update_self, if_pos (mem_append_right _ (mem_singleton_self pk)),
      hrow]
  · rw [Function.update_of_ne hkey]
    have hiff : key ∈ keys ++ [pk] <-> key ∈ keys := by
      rw [mem_append, mem_singleton, or_iff_left hkey]
    simp only [hiff]

theorem Listing.restrict (h : Listing table rows) :
    restrict table (rows.map Prod.fst) = table.row := by
  funext key
  apply Option.ext
  intro node
  rw [restrict_some]
  constructor
  · exact And.right
  · intro hrow
    exact ⟨mem_map_of_mem (h.mem.mpr hrow), hrow⟩

structure ReadSoFar (helper : Helper E) (row : Nat -> Option (Node E)) : Prop where
  mirrors : Mirrors helper row
  complete : Complete helper row

section

variable {row : Nat -> Option (Node E)}

section

variable (hlawful : HelperLawful tree)
include hlawful

section

variable (h : ReadSoFar helper row)
include h

theorem ReadSoFar.lookup_enter
    (hunused : forall key found, row key = some found -> found.fullName ≠ node.fullName)
    (full : Text) :
    (helper.enter tree pk node).lut.lookup full =
      if node.fullName = full then some [pk] else helper.lut.lookup full := by
  have hnone : helper.lut.lookup node.fullName = none := by
    cases hpks : helper.lut.lookup node.fullName with
    | none => rfl
    | some pks =>
      rcases h.mirrors.lut hpks with ⟨key, found, _, hfound, hfull⟩
      exact absurd hfull (hunused key found hfound)
  show (helper.lut.insert node.fullName
    (tree.record ((helper.lut.lookup node.fullName).getD []) pk)).lookup full = _
  rw [Dict.lookup_insert_if, hnone, Option.getD_none, hlawful.record_nil]

theorem ReadSoFar.lut_enter (hfresh : row pk = none)
    (hunused : forall key found, row key = some found -> found.fullName ≠ node.fullName)
    {full : Text} {pks : List Nat} (hpks : (helper.enter tree pk node).lut.lookup full = some pks) :
    exists key found, pks = [key] ∧ Function.update row pk (some node) key = some found ∧
      found.fullName = full := by
  rw [h.lookup_enter hlawful hunused] at hpks
  split at hpks
  · rename_i hfull
    exact ⟨pk, node, (Option.some.inj hpks).symm, Function.update_self _ _ _, hfull⟩
  · rcases h.mirrors.lut hpks with ⟨key, found, hkey, hfound, hfull⟩
    have hne : key ≠ pk := by
      intro heq
      rw [heq, hfresh] at hfound
      cases hfound
    exact ⟨key, found, hkey, (Function.update_of_ne hne _ _).trans hfound, hfull⟩

theorem ReadSoFar.complete_enter
    (hunused : forall key found, row key = some found -> found.fullName ≠ node.fullName)
    {entered : Helper E} (hlut : entered.lut = (helper.enter tree pk node).lut) :
    Complete entered (Function.update row pk (some node)) := by
  intro key found hfound
  rw [hlut, h.lookup_enter hlawful hunused]
  by_cases hkey : key = pk
  · rw [hkey, Function.update_self] at hfound
    cases hfound
    rw [if_pos rfl, hkey]
  · rw [Function.update_of_ne hkey] at hfound
    rw [if_neg (hunused key found hfound).symm]
    exact h.complete key found hfound

end

end

end

section

variable (database levels)

theorem registerNode_child (hlawful : HelperLawful tree) (h : OneTop tree.rules root table)
    (hlisting : Listing table (done ++ (pk, node) :: rest)) (hparent : node.parent = some above)
    (hread : ReadSoFar helper (restrict table (done.map Prod.fst))) :
    exists after, registerNode tree database levels (pk, node) ⟨helper, table⟩ =
        .ok ⟨⟩ ⟨after, table⟩ ∧
      ReadSoFar after (restrict table ((done ++ [(pk, node)]).map Prod.fst)) := by
  have hrow := hlisting.row
  rcases h.placed hrow above hparent with ⟨parent, habove, _, hdepth, _⟩
  have hbefore := hlisting.before habove (hdepth ▸ Nat.lt_succ_self _)
  have hfresh : restrict table (done.map Prod.fst) pk = none := if_neg hlisting.not_read
  have hunused : forall key found, restrict table (done.map Prod.fst) key = some found ->
      found.fullName ≠ node.fullName := by
    intro key found hfound hfull
    rcases restrict_some.mp hfound with ⟨hmem, hstored⟩
    rw [h.fullNames hlawful.rules hstored hrow hfull] at hmem
    exact hlisting.not_read hmem
  have hplace : FreePlace (restrict table (done.map Prod.fst)) pk node above parent :=
    { fresh := hfresh
      below := hparent
      stored := restrict_some.mpr ⟨hbefore, habove⟩
      unused := by
        rintro child ⟨found, hfound, hchild, hname⟩
        rcases restrict_some.mp hfound with ⟨hmem, hstored⟩
        rw [h.siblings hstored hrow hchild hparent hname] at hmem
        exact hlisting.not_read hmem
      childless := by
        intro child found hfound hchild
        rcases restrict_some.mp hfound with ⟨hmem, hstored⟩
        rcases h.placed hstored pk hchild with ⟨own, hown, _, hdeeper, _⟩
        rw [hrow] at hown
        cases hown
        have hle := hlisting.depth_le hmem hstored
        rw [hdeeper] at hle
        exact Nat.not_succ_le_self _ hle }
  rcases hread.mirrors.exists_held hplace.stored with ⟨held, hheld, rfl⟩
  have hlookup : (helper.enter tree pk node).nodeDict.lookup above = some held := by
    show (helper.nodeDict.insert pk { node, subTree := ∅ }).lookup above = _
    rw [Dict.lookup_insert_if, if_neg (Ne.symm hplace.ne), hheld]
  refine ⟨(helper.enter tree pk node).append above node.name pk, ?_, ?_⟩
  · unfold registerNode
    have hself : ¬ (tree.dropsSelf = true ∧ above = pk) := fun hboth => hplace.ne hboth.right
    simp only [bind_apply, changeHelper, modify_apply, hparent, get_apply, hlookup, if_neg hself,
      fixDepth, if_pos hdepth, pure_apply]
  · rw [map_append, map_singleton, restrict_concat hrow]
    exact
      { mirrors := hread.mirrors.insert hplace rfl rfl (hread.lut_enter hlawful hfresh hunused)
        complete := hread.complete_enter hlawful hunused (append_lut _ _ _ _) }

theorem registerNodes_ok (hlawful : HelperLawful tree) (h : OneTop tree.rules root table)
    (hlisting : Listing table (done ++ rest)) (hroot : root ∈ done.map Prod.fst)
    (hread : ReadSoFar helper (restrict table (done.map Prod.fst))) :
    exists after, registerNodes tree database levels rest ⟨helper, table⟩ =
        .ok ⟨⟩ ⟨after, table⟩ ∧
      ReadSoFar after (restrict table ((done ++ rest).map Prod.fst)) := by
  induction rest generalizing done helper with
  | nil =>
    refine ⟨helper, rfl, ?_⟩
    rw [append_nil]
    exact hread
  | cons entry rest ih =>
    rcases entry with ⟨pk, node⟩
    rcases Option.ne_none_iff_exists'.mp (fun hnone => hlisting.not_read
      (h.single hlisting.row hnone ▸ hroot)) with ⟨above, hparent⟩
    rcases registerNode_child database levels hlawful h hlisting hparent hread with
      ⟨middle, hmiddle, hread'⟩
    rw [append_cons] at hlisting ⊢
    have hroot' : root ∈ (done ++ [(pk, node)]).map Prod.fst := by
      rw [map_append]
      exact mem_append_left _ hroot
    rcases ih hlisting hroot' hread' with ⟨after, hafter, hread''⟩
    refine ⟨after, ?_, hread''⟩
    simp only [registerNodes, bind_apply, hmiddle]
    exact hafter

end

theorem readSoFar_empty : ReadSoFar (Helper.empty : Helper E) (fun _ => none) where
  mirrors :=
    { object := fun _ => rfl
      sub := fun hheld => absurd hheld (Option.some_ne_none _ ∘ fun heq =>
        heq.symm.trans (AList.lookup_empty _))
      root := by
        intro pk
        constructor
        · intro heq
          cases heq
        · rintro ⟨node, hrow, _⟩
          cases hrow
      lut := fun hpks => absurd hpks (Option.some_ne_none _ ∘ fun heq =>
        heq.symm.trans (AList.lookup_empty _)) }
  complete pk node hrow := absurd hrow (Option.some_ne_none node ∘ Eq.symm)

def topHelper (tree : HelperRules E) (pk : Nat) (node : Node E) : Helper E :=
  { Helper.empty.enter tree pk node with rootNode := some pk }

theorem readSoFar_top (hlawful : HelperLawful tree) (hparent : node.parent = none) :
    ReadSoFar (topHelper tree pk node) (Function.update (fun _ => none) pk (some node)) := by
  have hrow : forall {key found}, Function.update (fun _ => none) pk (some node) key = some found <->
      key = pk ∧ found = node := by
    intro key found
    by_cases hkey : key = pk
    · rw [hkey, Function.update_self]
      exact ⟨fun heq => ⟨rfl, (Option.some.inj heq).symm⟩, fun hboth => hboth.right ▸ rfl⟩
    · rw [Function.update_of_ne hkey]
      exact ⟨fun heq => absurd heq (Option.some_ne_none found ∘ Eq.symm),
        fun hboth => absurd hboth.left hkey⟩
  have hlookup : forall key, (topHelper tree pk node).nodeDict.lookup key =
      if pk = key then some { node, subTree := ∅ } else none := by
    intro key
    show ((∅ : Dict Nat (TreeNode E)).insert pk { node, subTree := ∅ }).lookup key = _
    rw [Dict.lookup_insert_if, AList.lookup_empty]
  have hnothing : forall key found, (fun _ => none : Nat -> Option (Node E)) key = some found ->
      found.fullName ≠ node.fullName :=
    fun _ found hfound => absurd hfound (Option.some_ne_none found ∘ Eq.symm)
  constructor
  case complete => exact readSoFar_empty.complete_enter hlawful hnothing rfl
  case mirrors =>
    constructor
    case toMirrorsNodes =>
      constructor
      case object =>
        intro key
        rw [hlookup]
        by_cases hkey : pk = key
        · rw [if_pos hkey, ← hkey, Function.update_self]
          rfl
        · rw [if_neg hkey, Function.update_of_ne (Ne.symm hkey)]
          rfl
      case sub =>
        intro key held hheld part children
        rw [hlookup] at hheld
        split at hheld
        · cases hheld
          show (∅ : Dict Text (List Nat)).lookup part = some children <-> _
          rw [AList.lookup_empty]
          constructor
          · intro heq
            cases heq
          · rintro ⟨child, _, found, hfound, habove, _⟩
            rw [(hrow.mp hfound).right, hparent] at habove
            cases habove
        · cases hheld
      case root =>
        intro key
        constructor
        · intro heq
          exact ⟨node, hrow.mpr ⟨(Option.some.inj heq).symm, rfl⟩, hparent⟩
        · rintro ⟨found, hfound, _⟩
          exact congrArg some (hrow.mp hfound).left.symm
    case lut =>
      intro full pks hpks
      exact readSoFar_empty.lut_enter hlawful rfl hnothing hpks

theorem Listing.top_first (h : OneTop tree.rules root table) (hlisting : Listing table rows) :
    exists top rest, rows = (root, top) :: rest ∧ top.parent = none := by
  rcases h.root_columns with ⟨top, htop, hnone, _, hdepth⟩
  have hmem := hlisting.mem.mpr htop
  cases rows with
  | nil => cases hmem
  | cons entry rest =>
    rcases entry with ⟨pk, node⟩
    have hrow := hlisting.mem.mp mem_cons_self
    have hle : node.depth ≤ top.depth := by
      rcases mem_cons.mp hmem with heq | hrest
      · cases heq
        exact Nat.le_refl _
      · exact (pairwise_cons.mp hlisting.sorted).left _ hrest
    have hparent := h.top_of_depth hrow (Nat.le_zero.mp (hdepth ▸ hle))
    exact ⟨node, rest, by rw [h.single hrow hparent], hparent⟩

theorem readTree_ok (hlawful : HelperLawful tree) (h : OneTop tree.rules root table)
    (database : Database E) (levels : Nat) :
    exists helper, readTree tree database levels ⟨Helper.empty, table⟩ =
        .ok ⟨⟩ ⟨helper, table⟩ ∧
      Mirrors helper table.row ∧ Complete helper table.row := by
  rcases readRows_ok h.toShape database levels with ⟨rows, hrows, hlisting⟩
  rcases hlisting.top_first h with ⟨top, rest, rfl, hnone⟩
  have hrow : table.row root = some top := hlisting.mem.mp mem_cons_self
  have hone : restrict table ([(root, top)].map Prod.fst) =
      Function.update (fun _ => none) root (some top) := @restrict_concat E root table top [] hrow
  have hread : ReadSoFar (topHelper tree root top) (restrict table ([(root, top)].map Prod.fst)) := by
    rw [hone]
    exact readSoFar_top hlawful hnone
  rcases registerNodes_ok database levels hlawful h hlisting mem_cons_self hread with
    ⟨after, hafter, hmirrors, hcomplete⟩
  have hall : restrict table (([(root, top)] ++ rest).map Prod.fst) = table.row := hlisting.restrict
  rw [hall] at hmirrors hcomplete
  refine ⟨after, ?_, hmirrors, hcomplete⟩
  have hfirst : registerNode tree database levels (root, top) ⟨Helper.empty, table⟩ =
      .ok ⟨⟩ ⟨topHelper tree root top, table⟩ := by
    unfold registerNode
    simp only [bind_apply, changeHelper, modify_apply, hnone]
    rfl
  unfold readTree
  simp only [bind_apply, onTable, hrows, registerNodes, hfirst]
  exact hafter

end Icsw.NameTree
