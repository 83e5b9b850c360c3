import Icsw.NameTree.BuildCategoryTree

/-!
# Names that were added to the trees in memory

Neither tree enters a node that it creates under its full name..  A name that was added is found
exactly where its node was in the table when the tree was read, and the four subtrees of the
category tree too.
-/

namespace Icsw.NameTree

open Foundation List
open Foundation.Forest

def domainHelper (inUse : Nat -> Bool) : HelperRules DomainColumns where
  rules := domainTreeNodeRules inUse
  newExtra := plainColumns
  presetFullName part full := part ++ '.' :: full
  nameParts name := (splitAll '.' name).reverse
  record _ pk := [pk]
  drop _ := throw .keyError
  dropsSelf := false

theorem domainHelper_lawful (inUse : Nat -> Bool) : HelperLawful (domainHelper inUse) where
  rules := domainTreeNodeRules_lawful inUse
  checkFirst := rfl
  record_nil _ := rfl

theorem domain_rebuilds (inUse : Nat -> Bool) (database : Database DomainColumns) (levels : Nat) :
    Rebuilds (domainHelper inUse) (readTree (domainHelper inUse) database levels)
      (fun _ => True) where
  ok h _ := readTree_ok (domainHelper_lawful inUse) h database levels
  grown _ _ _ := trivial

theorem category_rebuilds (database : Database CategoryColumns) (levels : Nat) (orders : Orders) :
    Rebuilds categoryHelper (buildCategoryTree database levels orders) Settled where
  ok h hsettled := buildCategoryTree_settled h hsettled
  grown hsettled h hfollowed := hsettled.grown h hfollowed

/--
Whatever valid names are added: each of them is found afterwards under the full name of its node,
adds nothing a second time and leaves the tree that would be read, if and only if all of them had
their nodes when the tree was read, in the category tree beside the four subtrees.
-/
theorem added_names_found (levels : Nat) :
    (forall (inUse : Nat -> Bool) (database : Database DomainColumns) (root : Nat)
      (table : Table DomainColumns), OneTop (domainTreeNodeRules inUse) root table ->
      exists state,
        readTree (domainHelper inUse) database (levels + 1) ⟨Helper.empty, table⟩ =
          .ok ⟨⟩ state ∧
        forall names,
          (forall name, name ∈ names -> ValidName (domainHelper inUse) database name) ->
          (Along (addStep (domainHelper inUse) database (levels + 1))
              (LooksUp (domainHelper inUse) database (levels + 1)
                (readTree (domainHelper inUse) database (levels + 1))) state names <->
            forall name, name ∈ names -> Known (domainHelper inUse) table.row name)) ∧
    (forall (database : Database CategoryColumns) (orders : Orders)
      (table : Table CategoryColumns) (state : TreeState CategoryColumns), Buildable table ->
      buildCategoryTree database (levels + 1) orders ⟨Helper.empty, table⟩ = .ok ⟨⟩ state ->
      forall names, (forall name, name ∈ names -> ValidName categoryHelper database name) ->
        (Along (addStep categoryHelper database (levels + 1))
            (LooksUp categoryHelper database (levels + 1)
              (buildCategoryTree database (levels + 1) orders)) state names <->
          forall name, name ∈ names ->
            HasSubtrees table ∧ Known categoryHelper table.row name)) := by
  constructor
  · intro inUse database root table hone
    rcases readTree_ok (domainHelper_lawful inUse) hone database (levels + 1) with
      ⟨helper, hread, hmirrors, hcomplete⟩
    refine ⟨⟨helper, table⟩, hread, ?_⟩
    intro names hvalid
    have hmemory : InMemory (domainHelper inUse) root ⟨helper, table⟩ := ⟨hone, hmirrors⟩
    rw [along_looksUp_iff (domainHelper_lawful inUse)
      (domain_rebuilds inUse database (levels + 1)) hmemory trivial hvalid]
    exact forall_congr' fun name => imp_congr_right fun _ => and_iff_right hcomplete
  · intro database orders table state hbuildable hbuild names hvalid
    rcases buildCategoryTree_ok hbuildable hbuild with ⟨root, hbuilt⟩
    rw [along_looksUp_iff categoryHelper_lawful (category_rebuilds database (levels + 1) orders)
      hbuilt.inMemory hbuilt.settled hvalid]
    refine forall_congr' fun name => imp_congr_right fun _ => ?_
    rw [hbuilt.complete]
    apply and_congr_right
    intro hsubtrees
    have hrows := hbuilt.rows hsubtrees
    exact ⟨fun h => h.unmarked hrows, fun h => h.unmarked fun pk => (hrows pk).symm⟩

def namedDomain : List (Request DomainColumns) :=
  [.create "new.name".toList (some 1) plainColumns]

theorem namedDomain_rows :
    (domainRun namedDomain).row 1 =
        some { name := [], fullName := [], parent := none, depth := 0, extra := plainColumns } ∧
      (domainRun namedDomain).row 2 = some
        { name := "name".toList, fullName := "name".toList, parent := some 1, depth := 1,
          extra := { plainColumns with comment := "autocreated intermediate".toList } } ∧
      (domainRun namedDomain).row 3 = some
        { name := "new".toList, fullName := "new.name".toList, parent := some 2, depth := 2,
          extra := plainColumns } := by
  decide +kernel

theorem namedDomain_oneTop : OneTop (domainTreeNodeRules fun _ => false) 1 (domainRun namedDomain) := by
  have halong : Along (domainStep (fun _ => false) domainDatabase 40)
      (DomainAdmissible (fun _ => false) domainDatabase 40) (singleRoot 1 plainColumns)
      (namedDomain ++ []) := by
    decide +kernel
  exact (invariant_reached (domainStep (fun _ => false) domainDatabase 40) domainStep_singleTop
    (singleTop_singleRoot 1 plainColumns) halong).oneTop

theorem validDomain_newName :
    ValidName (domainHelper fun _ => false) domainDatabase "new.name".toList := by
  have hparts : (domainHelper fun _ => false).nameParts "new.name".toList =
      ["name".toList, "new".toList] := by
    decide +kernel
  unfold ValidName
  rw [hparts]
  have hname : "name".toList.all validDomainChar = true := rfl
  have hnew : "new".toList.all validDomainChar = true := rfl
  exact ⟨⟨⟨by decide, all_eq_true.mp hname⟩, rfl, rfl, by decide +kernel⟩,
    ⟨⟨by decide, all_eq_true.mp hnew⟩, rfl, rfl, by decide +kernel⟩, trivial⟩

theorem known_newName : Known (domainHelper fun _ => false) (domainRun namedDomain).row
    "new.name".toList := by
  have hparts : (domainHelper fun _ => false).nameParts "new.name".toList =
      ["name".toList, "new".toList] := by
    decide +kernel
  rcases namedDomain_rows with ⟨htop, hname, hnew⟩
  refine ⟨1, _, 3, htop, rfl, ?_⟩
  rw [hparts]
  exact ⟨2, ⟨_, hname, rfl, rfl⟩, 3, ⟨_, hnew, rfl, rfl⟩, rfl⟩

def plainOrders : Orders where
  subtypes := treeSubtypes
  subtypes_perm := Perm.refl _
  nodes := id
  nodes_perm _ := Perm.refl _

theorem validCategory_web : ValidName categoryHelper categoryDatabase "/mon/web".toList := by
  have hparts : categoryHelper.nameParts "/mon/web".toList = ["mon".toList, "web".toList] := by
    decide +kernel
  unfold ValidName
  rw [hparts]
  have hmon : "mon".toList.all validCategoryChar = true := rfl
  have hweb : "web".toList.all validCategoryChar = true := rfl
  exact ⟨⟨⟨by decide, all_eq_true.mp hmon⟩, rfl, rfl, by decide +kernel⟩,
    ⟨⟨by decide, all_eq_true.mp hweb⟩, rfl, rfl, by decide +kernel⟩, trivial⟩

theorem firstBuild_ok : exists state,
    buildCategoryTree categoryDatabase 2 plainOrders ⟨Helper.empty, Table.empty⟩ =
      .ok ⟨⟩ state := by
  have hok : (match buildCategoryTree categoryDatabase 2 plainOrders
      ⟨Helper.empty, Table.empty⟩ with
    | .ok _ _ => true
    | .error _ _ => false) = true := by
    decide +kernel
  cases hresult : buildCategoryTree categoryDatabase 2 plainOrders ⟨Helper.empty, Table.empty⟩ with
  | ok value state => exact ⟨state, rfl⟩
  | error raised state =>
    rw [hresult] at hok
    cases hok

/-- A domain that was there is found; a category in the first tree is not. -/
theorem newName_found :
    (exists state,
      readTree (domainHelper fun _ => false) domainDatabase 2
          ⟨Helper.empty, domainRun namedDomain⟩ = .ok ⟨⟩ state ∧
        Along (addStep (domainHelper fun _ => false) domainDatabase 2)
          (LooksUp (domainHelper fun _ => false) domainDatabase 2
            (readTree (domainHelper fun _ => false) domainDatabase 2)) state
          ["new.name".toList]) ∧
    exists state,
      buildCategoryTree categoryDatabase 2 plainOrders ⟨Helper.empty, Table.empty⟩ =
          .ok ⟨⟩ state ∧
        ¬ Along (addStep categoryHelper categoryDatabase 2)
          (LooksUp categoryHelper categoryDatabase 2
            (buildCategoryTree categoryDatabase 2 plainOrders)) state ["/mon/web".toList] := by
  constructor
  · rcases (added_names_found 1).left (fun _ => false) domainDatabase 1 _ namedDomain_oneTop with
      ⟨state, hread, hiff⟩
    refine ⟨state, hread, (hiff _ ?_).mpr ?_⟩
    · intro name hmem
      rw [mem_singleton.mp hmem]
      exact validDomain_newName
    · intro name hmem
      rw [mem_singleton.mp hmem]
      exact known_newName
  · rcases firstBuild_ok with ⟨state, hbuild⟩
    have hiff := (added_names_found 1).right categoryDatabase plainOrders Table.empty state
      (Or.inl fun _ => rfl) hbuild ["/mon/web".toList] (by
        intro name hmem
        rw [mem_singleton.mp hmem]
        exact validCategory_web)
    refine ⟨state, hbuild, fun halong => ?_⟩
    rcases (hiff.mp halong _ mem_cons_self).left topDeviceCategory (by decide) with
      ⟨pk, node, hrow, _⟩
    cases hrow

/-- A domain that is added to the first tree is not found afterwards. -/
theorem newName_not_found : exists state,
    readTree (domainHelper fun _ => false) domainDatabase 2
        ⟨Helper.empty, singleRoot 1 plainColumns⟩ = .ok ⟨⟩ state ∧
      ValidName (domainHelper fun _ => false) domainDatabase "new.name".toList ∧
      ¬ Along (addStep (domainHelper fun _ => false) domainDatabase 2)
        (LooksUp (domainHelper fun _ => false) domainDatabase 2
          (readTree (domainHelper fun _ => false) domainDatabase 2)) state
        ["new.name".toList] := by
  have hone := (@singleTop_singleRoot (fun _ => false) 1 plainColumns).oneTop
  rcases readTree_ok (domainHelper_lawful fun _ => false) hone domainDatabase 2 with
    ⟨helper, hread, hmirrors, _⟩
  refine ⟨⟨helper, singleRoot 1 plainColumns⟩, hread, validDomain_newName, ?_⟩
  rintro ⟨hlooks, _⟩
  rcases known_of_looksUp (domainHelper_lawful fun _ => false)
    (domain_rebuilds (fun _ => false) domainDatabase 2)
    (⟨hone, hmirrors⟩ : InMemory (domainHelper fun _ => false) 1 ⟨helper, _⟩) trivial
    validDomain_newName hlooks with ⟨_, root, top, pk, _, _, hleads⟩
  have hparts : (domainHelper fun _ => false).nameParts "new.name".toList =
      ["name".toList, "new".toList] := by
    decide +kernel
  rw [hparts] at hleads
  rcases hleads with ⟨child, ⟨found, hfound, hparent, _⟩, _⟩
  have hrow : (singleRoot 1 plainColumns).row child = some found := hfound
  rw [singleRoot, Table.row_update] at hrow
  split at hrow
  · cases hrow
    cases hparent
  · cases hrow

end Icsw.NameTree
