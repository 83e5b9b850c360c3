import Icsw.License.Views

/-!
# Superseded packages

A package of the same uuid and a higher version supersedes a package.  The
client is shown the newest versions only; the decision about a licence reads all
packages, so what a superseded one says still counts.
-/

namespace Icsw.License

open Foundation List

variable (files : List LicenseFile)

def superseded (package : PackageXml) : Bool :=
  (files.flatMap LicenseFile.packages).any fun other =>
    decide (other.uuid = package.uuid) && decide (package.version < other.version)

def SamePackage (package other : PackageXml) : Prop :=
  package = other ∨
    superseded files package = true ∧ other.uuid = package.uuid ∧
      other.version = package.version

/-- The files differ in the contents of superseded packages only. -/
def SameNewest (files others : List LicenseFile) : Prop :=
  Forall₂ (fun file other => Forall₂ (SamePackage files) file.packages other.packages)
    files others

variable (site : Site)

/-- What superseded packages say has no influence on any licence. -/
def OnlyNewestCounts (files : List LicenseFile) : Prop :=
  forall others, SameNewest files others -> forall license parameters,
    managerLicenseState site others license parameters =
      managerLicenseState site files license parameters

def leadingPackages (file : LicenseFile) : List PackageXml :=
  file.packages.takeWhile fun package => !superseded files package

/--
A file with a superseded package is bound to another fingerprint by the packages
before it, so that nothing in it counts.
-/
def SupersededUnread (files : List LicenseFile) : Prop :=
  forall file, file ∈ files ->
    (exists package, package ∈ file.packages ∧ superseded files package = true) ->
    fingerPrintsOk site (leadingPackages files file) = false

theorem ownClusters_append (first second : List PackageXml) :
    ownClusters site (first ++ second) = ownClusters site first ++ ownClusters site second := by
  simp [ownClusters]

variable {first : List PackageXml}

theorem fingerPrintsOk_append_of_false {site : Site}
    (h : fingerPrintsOk site first = false) (second : List PackageXml) :
    fingerPrintsOk site (first ++ second) = false := by
  unfold fingerPrintsOk at h ⊢
  rw [ownClusters_append, filterMap_append]
  cases hprints : (ownClusters site first).filterMap ClusterXml.hardwareFingerPrint with
  | nil =>
    rw [hprints] at h
    cases h
  | cons print rest =>
    rw [hprints] at h
    exact h

theorem fingerPrintsOk_append_cons {site : Site}
    (h : fingerPrintsOk site first = true) {package : PackageXml}
    (hpackage : fingerPrintsOk site [package] = true)
    (hprint : (ownClusters site [package]).filterMap ClusterXml.hardwareFingerPrint ≠ [])
    (second : List PackageXml) :
    fingerPrintsOk site (first ++ package :: second) = true := by
  have hsplit : first ++ package :: second = first ++ ([package] ++ second) := rfl
  unfold fingerPrintsOk at h hpackage ⊢
  rw [hsplit, ownClusters_append, ownClusters_append, filterMap_append,
    filterMap_append]
  cases hprints : (ownClusters site first).filterMap ClusterXml.hardwareFingerPrint with
  | cons print rest =>
    rw [hprints] at h
    exact h
  | nil =>
    cases hown : (ownClusters site [package]).filterMap ClusterXml.hardwareFingerPrint with
    | nil => exact absurd hown hprint
    | cons print rest =>
      rw [hown] at hpackage
      exact hpackage

variable {packages others : List PackageXml}

theorem forall₂_eq {files : List LicenseFile} (h : Forall₂ (SamePackage files) packages others)
    (hnone : forall package, package ∈ packages -> superseded files package = false) :
    packages = others := by
  induction h with
  | nil => rfl
  | cons hfirst hrest ih =>
    rename_i package other rest others
    have hsame : package = other := by
      rcases hfirst with heq | ⟨hold, _⟩
      · exact heq
      · rw [hnone package mem_cons_self] at hold
        cases hold
    rw [hsame, ih fun package hmem => hnone package (mem_cons_of_mem _ hmem)]

theorem forall₂_leading {files : List LicenseFile}
    (h : Forall₂ (SamePackage files) packages others) :
    exists rest, others = (packages.takeWhile fun package => !superseded files package) ++ rest := by
  induction h with
  | nil => exact ⟨[], rfl⟩
  | cons hfirst hrest ih =>
    rename_i package other rest others
    cases hold : superseded files package with
    | true => exact ⟨other :: others, by simp [hold]⟩
    | false =>
      rcases ih with ⟨tail, htail⟩
      have hsame : package = other := by
        rcases hfirst with heq | ⟨hsuperseded, _⟩
        · exact heq
        · rw [hold] at hsuperseded
          cases hsuperseded
      exact ⟨tail, by rw [takeWhile_cons_of_pos (by simp [hold]), hsame, htail]; rfl⟩

theorem forall₂_samePackage_refl (packages : List PackageXml) :
    Forall₂ (SamePackage files) packages packages :=
  forall₂_same.mpr fun _ _ => Or.inl rfl

theorem SupersededUnread.state_eq {site : Site} {files : List LicenseFile}
    (h : SupersededUnread site files) {file other : LicenseFile} (hfile : file ∈ files)
    (hsame : Forall₂ (SamePackage files) file.packages other.packages)
    (license : LicenseEnum) (parameters : Parameters) :
    getLicenseState site other license parameters =
      getLicenseState site file license parameters := by
  by_cases hold : exists package, package ∈ file.packages ∧ superseded files package = true
  · have hbegins := h file hfile hold
    rcases forall₂_leading hsame with ⟨rest, hrest⟩
    rcases forall₂_leading (forall₂_samePackage_refl files file.packages) with ⟨own, hown⟩
    have hother : fingerprintOk site other = false := by
      unfold fingerprintOk
      rw [hrest]
      exact fingerPrintsOk_append_of_false hbegins rest
    have hself : fingerprintOk site file = false := by
      unfold fingerprintOk
      rw [hown]
      exact fingerPrintsOk_append_of_false hbegins own
    rw [getLicenseState_mismatch hother, getLicenseState_mismatch hself]
  · have hnone : forall package, package ∈ file.packages -> superseded files package = false := by
      intro package hmem
      cases hpackage : superseded files package with
      | false => rfl
      | true => exact absurd ⟨package, hmem, hpackage⟩ hold
    have hpackages := forall₂_eq hsame hnone
    unfold getLicenseState fingerprintOk
    rw [hpackages]

theorem SupersededUnread.onlyNewestCounts {site : Site} {files : List LicenseFile}
    (h : SupersededUnread site files) : OnlyNewestCounts site files := by
  intro others hothers license parameters
  have hstates : others.map (fun file => getLicenseState site file license parameters) =
      files.map fun file => getLicenseState site file license parameters := by
    have hmap : forall {first second : List LicenseFile},
        Forall₂ (fun file other =>
          Forall₂ (SamePackage files) file.packages other.packages) first second ->
        (forall file, file ∈ first -> file ∈ files) ->
        second.map (fun file => getLicenseState site file license parameters) =
          first.map fun file => getLicenseState site file license parameters := by
      intro first second hpairs hin
      induction hpairs with
      | nil => rfl
      | cons hfirst _ ih =>
        rw [map_cons, map_cons,
          h.state_eq (hin _ mem_cons_self) hfirst license parameters,
          ih fun file hfile => hin file (mem_cons_of_mem _ hfile)]
    exact hmap hothers fun _ hfile => hfile
  have hempty : others = [] <-> files = [] := by
    rw [← length_eq_zero_iff, ← length_eq_zero_iff, hothers.length_eq]
  unfold managerLicenseState
  simp only [hstates, hempty]

def PackageXml.reissued (package : PackageXml) (node : LicenseXml) : PackageXml :=
  { package with
    clusters := [⟨site.clusterId, some site.currentFingerPrint, [node]⟩] }

/-- A licence for today with one parameter, or with none. -/
def issuedNode (license : LicenseEnum) (parameters : List LicenseParameter) :
    LicenseXml where
  id := license.name
  validFrom := site.today
  validTo := site.today
  parameters := parameters

def usersParameter (users : Int) : LicenseParameter where
  id := LicenseParameterTypeEnum.user.name
  value := some users

theorem ownClusters_reissued (package : PackageXml) (node : LicenseXml) :
    ownClusters site [package.reissued site node] =
      [⟨site.clusterId, some site.currentFingerPrint, [node]⟩] := by
  simp [ownClusters, PackageXml.reissued]

theorem fingerPrintsOk_reissued {site : Site}
    (h : fingerPrintsOk site first = true) (package : PackageXml) (node : LicenseXml)
    (rest : List PackageXml) :
    fingerPrintsOk site (first ++ package.reissued site node :: rest) = true := by
  apply fingerPrintsOk_append_cons h
  · unfold fingerPrintsOk
    rw [ownClusters_reissued]
    simp
  · rw [ownClusters_reissued]
    simp

theorem issuedNode_valid (license : LicenseEnum) (parameters : List LicenseParameter) :
    (getStateFromLicenseXml site (issuedNode site license parameters)).isValid = true := by
  have hgrace : ¬ site.today + licenseUsageGracePeriod < site.today := by
    unfold licenseUsageGracePeriod
    omega
  simp [getStateFromLicenseXml, issuedNode, hgrace, LicenseState.isValid]

theorem exists_users :
    exists users : Int, forall file, file ∈ files -> forall cluster, cluster ∈ file.clusters ->
      forall node, node ∈ cluster.licenses ->
        node.hasParameter (.user, users) = false := by
  have hbound : forall values : List Int, exists bound, forall value, value ∈ values ->
      value < bound := by
    intro values
    induction values with
    | nil => exact ⟨0, by simp⟩
    | cons first rest ih =>
      rcases ih with ⟨bound, hrest⟩
      refine ⟨max bound (first + 1), ?_⟩
      intro value hvalue
      rcases mem_cons.mp hvalue with heq | hmem
      · rw [heq]
        exact lt_of_lt_of_le (Int.lt_succ first) (le_max_right _ _)
      · exact lt_of_lt_of_le (hrest value hmem) (le_max_left _ _)
  let nodes := (files.flatMap LicenseFile.clusters).flatMap ClusterXml.licenses
  let parameters := nodes.flatMap LicenseXml.parameters
  rcases hbound (parameters.filterMap LicenseParameter.value) with ⟨bound, hvalues⟩
  refine ⟨bound, ?_⟩
  intro file hfile cluster hcluster node hnode
  unfold LicenseXml.hasParameter
  rw [any_eq_false]
  intro parameter hparameter
  have hmem : parameter ∈ parameters :=
    mem_flatMap.mpr ⟨node, mem_flatMap.mpr ⟨cluster,
      mem_flatMap.mpr ⟨file, hfile, hcluster⟩, hnode⟩, hparameter⟩
  cases hvalue : parameter.value with
  | none => simp
  | some value =>
    have hlt := hvalues value (mem_filterMap.mpr ⟨parameter, hmem, hvalue⟩)
    simp [hlt]

theorem sameNewest_replace {files before after : List LicenseFile} {file : LicenseFile}
    {first rest : List PackageXml} {package other : PackageXml}
    (hfiles : files = before ++ file :: after)
    (hpackages : file.packages = first ++ package :: rest)
    (hsame : SamePackage files package other) :
    SameNewest files (before ++ ⟨first ++ other :: rest⟩ :: after) := by
  unfold SameNewest
  have hrefl : forall list : List LicenseFile, Forall₂ (fun file other =>
      Forall₂ (SamePackage files) file.packages other.packages) list list :=
    fun list => forall₂_same.mpr fun file _ => forall₂_samePackage_refl files file.packages
  conv =>
    arg 2
    rw [hfiles]
  apply rel_append (hrefl before)
  refine Forall₂.cons ?_ (hrefl after)
  rw [hpackages]
  exact rel_append (forall₂_samePackage_refl files first)
    (Forall₂.cons hsame (forall₂_samePackage_refl files rest))

theorem split_at_superseded {files : List LicenseFile} {packages : List PackageXml}
    (h : exists package, package ∈ packages ∧ superseded files package = true) :
    exists package rest, superseded files package = true ∧
      packages = (packages.takeWhile fun package => !superseded files package) ++
        package :: rest := by
  induction packages with
  | nil =>
    rcases h with ⟨package, hmem, _⟩
    cases hmem
  | cons first rest ih =>
    cases hfirst : superseded files first with
    | true => exact ⟨first, rest, hfirst, by simp [hfirst]⟩
    | false =>
      have htail : exists package, package ∈ rest ∧ superseded files package = true := by
        rcases h with ⟨package, hmem, hold⟩
        rcases mem_cons.mp hmem with heq | htail
        · rw [heq, hfirst] at hold
          cases hold
        · exact ⟨package, htail, hold⟩
      rcases ih htail with ⟨package, tail, hold, hsplit⟩
      refine ⟨package, tail, hold, ?_⟩
      rw [takeWhile_cons_of_pos (by simp [hfirst]), cons_append, ← hsplit]

section Influence

variable {site : Site} {files before after : List LicenseFile} {file : LicenseFile}
  {first rest : List PackageXml} {package : PackageXml} {users : Int}

theorem reissued_grants (hok : fingerPrintsOk site first = true) :
    hasValidLicense site
      (before ++ ⟨first ++ package.reissued site (issuedNode site .kpi [usersParameter users]) ::
        rest⟩ :: after) .kpi [(.user, users)] = true := by
  rw [hasValidLicense_iff]
  refine ⟨_, mem_append_right before mem_cons_self,
    fingerPrintsOk_reissued hok package _ rest,
    ⟨site.clusterId, some site.currentFingerPrint,
      [issuedNode site .kpi [usersParameter users]]⟩, ?_,
    _, mem_singleton_self _, ?_, issuedNode_valid site .kpi _⟩
  · exact mem_ownClusters.mpr ⟨by simp [PackageXml.reissued], rfl⟩
  · simp [LicenseXml.fits, issuedNode, LicenseXml.hasParameter, usersParameter]

theorem reissued_refuses (hfiles : files = before ++ file :: after)
    (hpackages : file.packages = first ++ package :: rest)
    (husers : forall file, file ∈ files -> forall cluster, cluster ∈ file.clusters ->
      forall node, node ∈ cluster.licenses -> node.hasParameter (.user, users) = false) :
    ¬ hasValidLicense site
      (before ++ ⟨first ++ package.reissued site (issuedNode site .kpi []) :: rest⟩ :: after)
      .kpi [(.user, users)] = true := by
  rw [hasValidLicense_iff]
  intro h
  rcases h with ⟨granting, hmem, _, cluster, hcluster, node, hnode, hfits, _⟩
  have hhas : node.hasParameter (.user, users) = true := by
    have hall := (Bool.and_eq_true _ _).mp hfits
    simpa using hall.right
  have hfile : file ∈ files := by
    rw [hfiles]
    exact mem_append_right before mem_cons_self
  have hold : forall old, old ∈ files -> cluster ∈ old.clusters -> False := by
    intro old hin hclusters
    rw [husers old hin cluster hclusters node hnode] at hhas
    cases hhas
  have hin := (mem_ownClusters.mp hcluster).left
  rcases mem_append.mp hmem with hbefore | hrest
  · exact hold granting (by rw [hfiles]; exact mem_append_left _ hbefore) hin
  · rcases mem_cons.mp hrest with heq | hafter
    · rw [heq] at hin
      rcases mem_flatMap.mp hin with ⟨owner, howner, hclusters⟩
      have hstays : owner ∈ file.packages -> False := fun hpackage =>
        hold file hfile (mem_flatMap.mpr ⟨owner, hpackage, hclusters⟩)
      rcases mem_append.mp howner with hfirst | hlater
      · exact hstays (by rw [hpackages]; exact mem_append_left _ hfirst)
      · rcases mem_cons.mp hlater with hnew | hlast
        · rw [hnew] at hclusters
          rw [mem_singleton.mp hclusters] at hnode
          rw [mem_singleton.mp hnode] at hhas
          simp [issuedNode, LicenseXml.hasParameter] at hhas
        · exact hstays (by
            rw [hpackages]
            exact mem_append_right _ (mem_cons_of_mem _ hlast))
    · exact hold granting (by
        rw [hfiles]
        exact mem_append_right _ (mem_cons_of_mem _ hafter)) hin

end Influence

theorem OnlyNewestCounts.supersededUnread {site : Site} {files : List LicenseFile}
    (h : OnlyNewestCounts site files) : SupersededUnread site files := by
  intro file hfile hold
  cases hok : fingerPrintsOk site (leadingPackages files file) with
  | false => rfl
  | true =>
    exfalso
    rcases split_at_superseded hold with ⟨package, rest, hsuperseded, hpackages⟩
    rcases append_of_mem hfile with ⟨before, after, hfiles⟩
    rcases exists_users files with ⟨users, husers⟩
    have hsame : forall node, SamePackage files package (package.reissued site node) :=
      fun _ => Or.inr ⟨hsuperseded, rfl, rfl⟩
    have hgranted := h _ (sameNewest_replace hfiles hpackages
      (hsame (issuedNode site .kpi [usersParameter users]))) .kpi [(.user, users)]
    have hrefused := h _ (sameNewest_replace hfiles hpackages
      (hsame (issuedNode site .kpi []))) .kpi [(.user, users)]
    apply reissued_refuses hfiles hpackages husers
    unfold hasValidLicense
    rw [hrefused, ← hgranted]
    exact reissued_grants hok

/-- Superseded packages have no influence exactly where their files are not read at all. -/
theorem onlyNewestCounts_iff_supersededUnread (site : Site) (files : List LicenseFile) :
    OnlyNewestCounts site files <-> SupersededUnread site files :=
  ⟨OnlyNewestCounts.supersededUnread, SupersededUnread.onlyNewestCounts⟩

theorem newerPackage_cases (held : Option PackageXml) (package : PackageXml) :
    (newerPackage held package = package ∧
        forall shown, held = some shown -> shown.version ≤ package.version) ∨
      held = some (newerPackage held package) ∧
        package.version ≤ (newerPackage held package).version := by
  cases held with
  | none => exact Or.inl ⟨rfl, by simp⟩
  | some shown =>
    by_cases hnewer : shown.version < package.version
    · have heq : newerPackage (some shown) package = package := if_pos hnewer
      refine Or.inl ⟨heq, ?_⟩
      intro other hother
      cases hother
      exact le_of_lt hnewer
    · have heq : newerPackage (some shown) package = shown := if_neg hnewer
      rw [heq]
      exact Or.inr ⟨rfl, not_lt.mp hnewer⟩

theorem foldl_newerPackage {packages : List PackageXml} {held : Option PackageXml}
    {newest : PackageXml}
    (h : packages.foldl (fun current package => some (newerPackage current package)) held =
      some newest) :
    (newest ∈ packages ∨ held = some newest) ∧
      (forall package, package ∈ packages -> package.version ≤ newest.version) ∧
      forall shown, held = some shown -> shown.version ≤ newest.version := by
  induction packages generalizing held with
  | nil =>
    refine ⟨Or.inr h, by simp, ?_⟩
    intro shown hshown
    change held = some newest at h
    rw [hshown] at h
    cases h
    exact le_refl _
  | cons first rest ih =>
    rcases @ih (some (newerPackage held first)) h with ⟨hmem, hrest, hheld⟩
    have hnewer := hheld _ rfl
    rcases newerPackage_cases held first with ⟨heq, hlow⟩ | ⟨heq, hlow⟩
    · rw [heq] at hmem hnewer
      refine ⟨?_, ?_, fun shown hshown => le_trans (hlow shown hshown) hnewer⟩
      · rcases hmem with hin | hfirst
        · exact Or.inl (mem_cons_of_mem _ hin)
        · cases hfirst
          exact Or.inl mem_cons_self
      · intro package hpackage
        rcases mem_cons.mp hpackage with hsame | htail
        · rw [hsame]
          exact hnewer
        · exact hrest package htail
    · refine ⟨?_, ?_, ?_⟩
      · rcases hmem with hin | hfirst
        · exact Or.inl (mem_cons_of_mem _ hin)
        · exact Or.inr (heq.trans hfirst)
      · intro package hpackage
        rcases mem_cons.mp hpackage with hsame | htail
        · rw [hsame]
          exact le_trans hlow hnewer
        · exact hrest package htail
      · intro shown hshown
        rw [heq] at hshown
        cases hshown
        exact hnewer

/-- The map has each package that is in a file, in a version that no other one supersedes. -/
theorem packageUuidMap_newest (files : List LicenseFile) (uuid : Text) :
    (forall package, (packageUuidMap files).lookup uuid = some package ->
      package ∈ files.flatMap LicenseFile.packages ∧ package.uuid = uuid ∧
        superseded files package = false) ∧
    ((packageUuidMap files).lookup uuid = none ->
      forall package, package ∈ files.flatMap LicenseFile.packages -> package.uuid ≠ uuid) := by
  unfold packageUuidMap
  constructor
  · intro package h
    rw [Dict.lookup_update, AList.lookup_empty] at h
    rcases foldl_newerPackage h with ⟨hmem, hnewest, _⟩
    rcases mem_filter.mp (hmem.resolve_right nofun) with ⟨hpackage, huuid⟩
    refine ⟨hpackage, of_decide_eq_true huuid, ?_⟩
    unfold superseded
    rw [any_eq_false]
    intro other hother
    have hsame : other.uuid = package.uuid -> other.version ≤ package.version := by
      intro hequal
      apply hnewest other
      exact mem_filter.mpr ⟨hother, by simpa [hequal] using huuid⟩
    simpa using hsame
  · intro hnone package hpackage huuid
    exact AList.lookup_eq_none.mp hnone (Dict.mem_update.mpr (Or.inr ⟨package, hpackage, huuid⟩))

/-- The first version has the licence, the second one no longer does. -/
def twoVersions : List LicenseFile :=
  [⟨[⟨"p".toList, 1, [⟨"local".toList, none, [⟨"kpi".toList, 0, 100, []⟩]⟩]⟩]⟩,
    ⟨[⟨"p".toList, 2, [⟨"local".toList, none, [⟨"rms".toList, 0, 100, []⟩]⟩]⟩]⟩]

/-- The same files with the licence taken out of the first version too. -/
def withoutLicence : List LicenseFile :=
  [⟨[⟨"p".toList, 1, [⟨"local".toList, none, [⟨"rms".toList, 0, 100, []⟩]⟩]⟩]⟩,
    ⟨[⟨"p".toList, 2, [⟨"local".toList, none, [⟨"rms".toList, 0, 100, []⟩]⟩]⟩]⟩]

/-- The superseded version keeps the licence valid. -/
theorem superseded_licence_counts : ¬ OnlyNewestCounts localSite twoVersions := by
  intro h
  have hsame : SameNewest twoVersions withoutLicence := by
    refine List.Forall₂.cons ?_ (List.Forall₂.cons ?_ List.Forall₂.nil)
    · exact List.Forall₂.cons (Or.inr ⟨by decide, rfl, rfl⟩) List.Forall₂.nil
    · exact forall₂_samePackage_refl twoVersions _
  have hstate := h withoutLicence hsame .kpi []
  revert hstate
  decide +kernel

end Icsw.License
