import Icsw.License.FileReader
import Mathlib.Data.List.Dedup

/-!
# Two views of the licences

The decision whether a licence may be used looks at the blocks of the local
cluster in files with a fitting fingerprint.  The list of valid licences looks at
every block.
-/

namespace Icsw.License

open Foundation List

/-- The block has the licence and it is valid today. -/
def ClusterXml.Holds (site : Site) (cluster : ClusterXml) (license : LicenseEnum) : Prop :=
  exists node, node ∈ cluster.licenses ∧ node.id = license.name ∧
    (getStateFromLicenseXml site node).isValid = true

/-- Some block of some file holds the licence. -/
def HeldAnywhere (site : Site) (files : List LicenseFile) (license : LicenseEnum) : Prop :=
  exists file, file ∈ files ∧ exists cluster, cluster ∈ file.clusters ∧ cluster.Holds site license

def HeldHere (site : Site) (files : List LicenseFile) (license : LicenseEnum) : Prop :=
  exists file, file ∈ files ∧ fingerprintOk site file = true ∧
    exists cluster, cluster ∈ ownClusters site file.packages ∧ cluster.Holds site license

theorem ofName_name (license : LicenseEnum) : LicenseEnum.ofName license.name = some license := by
  cases license <;> decide

variable {license : LicenseEnum}

theorem ofName_eq_some {name : Text}
    (h : LicenseEnum.ofName name = some license) : license.name = name := by
  simpa using find?_some h

variable {site : Site} {file : LicenseFile}

theorem mem_getValidLicenses : license ∈ getValidLicenses site file <->
      exists cluster, cluster ∈ file.clusters ∧ cluster.Holds site license := by
  unfold getValidLicenses
  constructor
  · intro h
    rcases mem_filterMap.mp h with ⟨name, hname, hlicense⟩
    rcases mem_map.mp (mem_dedup.mp hname) with ⟨node, hnode, hid⟩
    rcases mem_filter.mp hnode with ⟨hmem, hvalid⟩
    rcases mem_flatMap.mp hmem with ⟨cluster, hcluster, hlicenses⟩
    exact ⟨cluster, hcluster, node, hlicenses, hid.trans (ofName_eq_some hlicense).symm, hvalid⟩
  · intro h
    rcases h with ⟨cluster, hcluster, node, hnode, hid, hvalid⟩
    apply mem_filterMap.mpr
    refine ⟨license.name, ?_, ofName_name license⟩
    apply mem_dedup.mpr
    apply mem_map.mpr
    refine ⟨node, ?_, hid⟩
    exact mem_filter.mpr ⟨mem_flatMap.mpr ⟨cluster, hcluster, hnode⟩, hvalid⟩

variable {files : List LicenseFile}

theorem mem_managerValidLicenses :
    license ∈ managerValidLicenses site files <-> HeldAnywhere site files license := by
  unfold managerValidLicenses HeldAnywhere
  rw [mem_dedup, mem_flatMap]
  constructor
  · intro h
    rcases h with ⟨file, hfile, hlicense⟩
    exact ⟨file, hfile, mem_getValidLicenses.mp hlicense⟩
  · intro h
    rcases h with ⟨file, hfile, hholds⟩
    exact ⟨file, hfile, mem_getValidLicenses.mpr hholds⟩

variable {parameters : Parameters}

theorem getLicenseState_mismatch (h : fingerprintOk site file = false) :
    getLicenseState site file license parameters = .fpMismatch := by
  simp [getLicenseState, h]

variable {state : LicenseState}

theorem nodeStates_dated {nodes : List LicenseXml}
    (h : state ∈ LicenseState.none :: nodes.map (getStateFromLicenseXml site)) : state.Dated := by
  rcases mem_cons.mp h with heq | hmem
  · exact Or.inr (Or.inr (Or.inr (Or.inr heq)))
  · rcases mem_map.mp hmem with ⟨node, _, heq⟩
    rw [← heq]
    exact getStateFromLicenseXml_dated site node

theorem getLicenseState_dated (license : LicenseEnum)
    (parameters : Parameters) (h : fingerprintOk site file = true) :
    (getLicenseState site file license parameters).Dated := by
  unfold getLicenseState
  rw [if_pos h]
  exact highestState_dated fun _ hstate => nodeStates_dated hstate

/-- A licence of the file that fits and is valid today. -/
def FileGrants (site : Site) (file : LicenseFile) (license : LicenseEnum)
    (parameters : Parameters) : Prop :=
  fingerprintOk site file = true ∧
    exists cluster, cluster ∈ ownClusters site file.packages ∧
      exists node, node ∈ cluster.licenses ∧ node.fits license parameters = true ∧
        (getStateFromLicenseXml site node).isValid = true

theorem getLicenseState_isValid_iff :
    (getLicenseState site file license parameters).isValid = true <->
      FileGrants site file license parameters := by
  cases hok : fingerprintOk site file with
  | false =>
    rw [getLicenseState_mismatch hok]
    simp [FileGrants, hok, LicenseState.isValid]
  | true =>
    unfold getLicenseState FileGrants
    rw [if_pos hok, highestState_isValid_iff (fun _ hstate => nodeStates_dated hstate)]
    constructor
    · intro h
      rcases h with ⟨state, hstate, hvalid⟩
      rcases mem_cons.mp hstate with heq | hmem
      · rw [heq] at hvalid
        cases hvalid
      · rcases mem_map.mp hmem with ⟨node, hnode, heq⟩
        rcases mem_filter.mp hnode with ⟨hin, hfits⟩
        rcases mem_flatMap.mp hin with ⟨cluster, hcluster, hlicenses⟩
        exact ⟨hok, cluster, hcluster, node, hlicenses, hfits, heq ▸ hvalid⟩
    · intro h
      rcases h with ⟨_, cluster, hcluster, node, hnode, hfits, hvalid⟩
      refine ⟨_, mem_cons_of_mem _ (mem_map_of_mem ?_), hvalid⟩
      exact mem_filter.mpr ⟨mem_flatMap.mpr ⟨cluster, hcluster, hnode⟩, hfits⟩

/-- The states of the files whose fingerprint fits. -/
def fittingStates (site : Site) (files : List LicenseFile) (license : LicenseEnum)
    (parameters : Parameters) : List LicenseState :=
  (files.map fun file => getLicenseState site file license parameters).filter
    fun state => state ≠ .fpMismatch

theorem mem_fittingStates :
    state ∈ fittingStates site files license parameters <->
      exists file, file ∈ files ∧ fingerprintOk site file = true ∧
        getLicenseState site file license parameters = state := by
  unfold fittingStates
  rw [mem_filter, mem_map]
  constructor
  · intro h
    rcases h with ⟨⟨file, hfile, heq⟩, hne⟩
    refine ⟨file, hfile, ?_, heq⟩
    cases hok : fingerprintOk site file with
    | true => rfl
    | false =>
      rw [← heq, getLicenseState_mismatch hok] at hne
      simp at hne
  · intro h
    rcases h with ⟨file, hfile, hok, heq⟩
    refine ⟨⟨file, hfile, heq⟩, ?_⟩
    have hdated := getLicenseState_dated license parameters hok
    rw [heq] at hdated
    rcases hdated with h | h | h | h | h
    all_goals
      rw [h]
      decide

theorem fittingStates_dated
    (h : state ∈ fittingStates site files license parameters) : state.Dated := by
  rcases mem_fittingStates.mp h with ⟨file, _, hok, heq⟩
  rw [← heq]
  exact getLicenseState_dated license parameters hok

theorem hasValidLicense_iff : hasValidLicense site files license parameters = true <->
      exists file, file ∈ files ∧ FileGrants site file license parameters := by
  have hstates : (exists file, file ∈ files ∧ FileGrants site file license parameters) <->
      exists state, state ∈ fittingStates site files license parameters ∧
        state.isValid = true := by
    constructor
    · intro h
      rcases h with ⟨file, hfile, hgrants⟩
      exact ⟨_, mem_fittingStates.mpr ⟨file, hfile, hgrants.left, rfl⟩,
        getLicenseState_isValid_iff.mpr hgrants⟩
    · intro h
      rcases h with ⟨state, hstate, hvalid⟩
      rcases mem_fittingStates.mp hstate with ⟨file, hfile, _, heq⟩
      exact ⟨file, hfile, getLicenseState_isValid_iff.mp (heq ▸ hvalid)⟩
  rw [hstates]
  by_cases hfiles : files = []
  · rw [hasValidLicense, managerLicenseState, if_pos hfiles, hfiles]
    simp [fittingStates, LicenseState.isValid]
  · have hdated : forall state, state ∈ fittingStates site files license parameters ->
        state.Dated := fun _ hstate => fittingStates_dated hstate
    rw [hasValidLicense, managerLicenseState, if_neg hfiles]
    unfold fittingStates at hdated ⊢
    split
    · next hfitting =>
        rw [hfitting]
        simp [LicenseState.isValid]
    · next first rest hfitting =>
        rw [hfitting] at hdated ⊢
        exact highestState_isValid_iff hdated

theorem hasValidLicense_iff_heldHere :
    hasValidLicense site files license [] = true <-> HeldHere site files license := by
  rw [hasValidLicense_iff]
  unfold FileGrants HeldHere ClusterXml.Holds
  simp only [LicenseXml.fits, all_nil, Bool.and_true, decide_eq_true_eq]

def IssuedHere (site : Site) (files : List LicenseFile) (license : LicenseEnum) : Prop :=
  exists file, file ∈ files ∧ exists cluster, cluster ∈ ownClusters site file.packages ∧
    (cluster.hardwareFingerPrint = none ∨
      cluster.hardwareFingerPrint = some site.currentFingerPrint) ∧
    cluster.Holds site license

structure ViewsAgree (site : Site) (files : List LicenseFile) : Prop where
  agree : forall license, license ∈ managerValidLicenses site files <->
    hasValidLicense site files license [] = true
  issued : forall license,
    license ∈ managerValidLicenses site files ∨ hasValidLicense site files license [] = true ->
    IssuedHere site files license

def Ours (site : Site) (file : LicenseFile) (cluster : ClusterXml) : Prop :=
  cluster.id = site.clusterId ∧ fingerprintOk site file = true ∧
    (cluster.hardwareFingerPrint = none ∨
      cluster.hardwareFingerPrint = some site.currentFingerPrint)

/-- What any other block holds is held here as well, and was issued for here. -/
def OthersCovered (site : Site) (files : List LicenseFile) : Prop :=
  forall file, file ∈ files -> forall cluster, cluster ∈ file.clusters ->
    ¬ Ours site file cluster -> forall license, cluster.Holds site license ->
      HeldHere site files license ∧ IssuedHere site files license

theorem mem_ownClusters {packages : List PackageXml} {cluster : ClusterXml} :
    cluster ∈ ownClusters site packages <->
      cluster ∈ packages.flatMap PackageXml.clusters ∧ cluster.id = site.clusterId := by
  unfold ownClusters
  rw [mem_filter, decide_eq_true_eq]

theorem HeldHere.heldAnywhere
    (h : HeldHere site files license) : HeldAnywhere site files license := by
  rcases h with ⟨file, hfile, _, cluster, hcluster, hholds⟩
  exact ⟨file, hfile, cluster, (mem_ownClusters.mp hcluster).left, hholds⟩

theorem OthersCovered.covered
    (h : OthersCovered site files) (hheld : HeldAnywhere site files license) :
    HeldHere site files license ∧ IssuedHere site files license := by
  rcases hheld with ⟨file, hfile, cluster, hcluster, hholds⟩
  by_cases hours : Ours site file cluster
  · rcases hours with ⟨hid, hok, hprint⟩
    have hown := mem_ownClusters.mpr ⟨hcluster, hid⟩
    exact ⟨⟨file, hfile, hok, cluster, hown, hholds⟩,
      ⟨file, hfile, cluster, hown, hprint, hholds⟩⟩
  · exact h file hfile cluster hcluster hours license hholds

/-- Both views agree exactly where other blocks hold nothing of their own. -/
theorem viewsAgree_iff_othersCovered (site : Site) (files : List LicenseFile) :
    ViewsAgree site files <-> OthersCovered site files := by
  constructor
  · intro h file hfile cluster hcluster _ license hholds
    have hlisted : license ∈ managerValidLicenses site files :=
      mem_managerValidLicenses.mpr ⟨file, hfile, cluster, hcluster, hholds⟩
    exact ⟨hasValidLicense_iff_heldHere.mp ((h.agree license).mp hlisted),
      h.issued license (Or.inl hlisted)⟩
  · intro h
    constructor
    · intro license
      rw [mem_managerValidLicenses, hasValidLicense_iff_heldHere]
      exact ⟨fun hheld => (h.covered hheld).left, HeldHere.heldAnywhere⟩
    · intro license hreported
      rw [mem_managerValidLicenses, hasValidLicense_iff_heldHere] at hreported
      rcases hreported with hheld | hheld
      · exact (h.covered hheld).right
      · exact (h.covered hheld.heldAnywhere).right

def localSite : Site where
  clusterId := "local".toList
  currentFingerPrint := ⟨"fp".toList, by decide⟩
  today := 50

/-- A file that was issued for another cluster. -/
def foreignFile : LicenseFile where
  packages := [⟨"p".toList, 1, [⟨"other".toList, none, [⟨"kpi".toList, 0, 100, []⟩]⟩]⟩]

/-- Its licence is listed as valid and may not be used. -/
theorem foreign_licence_listed : ¬ ViewsAgree localSite [foreignFile] := by
  intro h
  have hlisted : LicenseEnum.kpi ∈ managerValidLicenses localSite [foreignFile] := by
    decide +kernel
  have hvalid := (h.agree .kpi).mp hlisted
  revert hvalid
  decide +kernel

end Icsw.License
