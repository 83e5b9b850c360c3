import Icsw.Foundation.Dict
import Icsw.Foundation.Python
import Mathlib.Data.Int.Order.Basic

/-!
# Licence files

A licence file lists packages; a package has a block of licences for each
cluster it was issued to.  The state of a licence is the highest state found in
the blocks of the local cluster, over all files whose fingerprint fits.
-/

namespace Icsw.License

open Foundation List

inductive LicenseEnum where
  | mdConfigServer
  | kpi
  | graphing
  | discoveryServer
  | monitoringDashboard
  | distributedMonitoring
  | snapshot
  | notification
  | networkWeathermap
  | rootkitHunter
  | reporting
  | extLicense
  | virtualDesktop
  | hpcWorkbench
  | packageInstall
  | rms
  | netboot
  | fastFrontend
deriving DecidableEq

def LicenseEnum.name : LicenseEnum -> Text
  | .mdConfigServer => "md_config_server".toList
  | .kpi => "kpi".toList
  | .graphing => "graphing".toList
  | .discoveryServer => "discovery_server".toList
  | .monitoringDashboard => "monitoring_dashboard".toList
  | .distributedMonitoring => "distributed_monitoring".toList
  | .snapshot => "snapshot".toList
  | .notification => "notification".toList
  | .networkWeathermap => "network_weathermap".toList
  | .rootkitHunter => "rootkit_hunter".toList
  | .reporting => "reporting".toList
  | .extLicense => "ext_license".toList
  | .virtualDesktop => "virtual_desktop".toList
  | .hpcWorkbench => "hpc_workbench".toList
  | .packageInstall => "package_install".toList
  | .rms => "rms".toList
  | .netboot => "netboot".toList
  | .fastFrontend => "fast_frontend".toList

def LicenseEnum.all : List LicenseEnum :=
  [.mdConfigServer, .kpi, .graphing, .discoveryServer, .monitoringDashboard,
    .distributedMonitoring, .snapshot, .notification, .networkWeathermap, .rootkitHunter,
    .reporting, .extLicense, .virtualDesktop, .hpcWorkbench, .packageInstall, .rms, .netboot,
    .fastFrontend]

/-- `LicenseEnum[lic_id]`, where it does not raise. -/
def LicenseEnum.ofName (name : Text) : Option LicenseEnum :=
  LicenseEnum.all.find? fun license => license.name = name

inductive LicenseParameterTypeEnum where
  | service
  | device
  | user
  | extLicense
  | ovum
deriving DecidableEq

def LicenseParameterTypeEnum.name : LicenseParameterTypeEnum -> Text
  | .service => "service".toList
  | .device => "device".toList
  | .user => "user".toList
  | .extLicense => "ext_license".toList
  | .ovum => "ovum".toList

/-- A parameter; its text may be no number. -/
structure LicenseParameter where
  id : Text
  value : Option Int
deriving DecidableEq

/-- A licence; dates are day numbers. -/
structure LicenseXml where
  id : Text
  validFrom : Int
  validTo : Int
  parameters : List LicenseParameter
deriving DecidableEq

/-- The text of a fingerprint is not empty. -/
structure FingerPrint where
  text : Text
  nonempty : text ≠ []
deriving DecidableEq

/-- The block of one cluster in a package. -/
structure ClusterXml where
  id : Text
  hardwareFingerPrint : Option FingerPrint
  licenses : List LicenseXml
deriving DecidableEq

structure PackageXml where
  uuid : Text
  version : Int
  clusters : List ClusterXml
deriving DecidableEq

structure LicenseFile where
  packages : List PackageXml
deriving DecidableEq

structure Site where
  clusterId : Text
  currentFingerPrint : FingerPrint
  today : Int
deriving DecidableEq

inductive LicenseState where
  | violated
  | valid
  | grace
  | newInstall
  | expired
  | validInFuture
  | none
  | notNeeded
  | ipMismatch
  | fpMismatch
deriving DecidableEq

def LicenseState.value : LicenseState -> Int
  | .violated => 120
  | .valid => 100
  | .grace => 80
  | .newInstall => 60
  | .expired => 40
  | .validInFuture => 20
  | .none => 0
  | .notNeeded => -1
  | .ipMismatch => 200
  | .fpMismatch => 300

def LicenseState.isValid : LicenseState -> Bool
  | .valid => true
  | .grace => true
  | .newInstall => true
  | _ => false

/-- Two weeks. -/
def licenseUsageGracePeriod : Int := 14

variable (site : Site)

def getStateFromLicenseXml (node : LicenseXml) : LicenseState :=
  if site.today < node.validFrom then .validInFuture
  else if node.validTo + licenseUsageGracePeriod < site.today then .expired
  else if node.validTo < site.today then .grace
  else .valid

def raiseState (state other : LicenseState) : LicenseState :=
  if state.value < other.value then other else state

def highestState (start : LicenseState) (states : List LicenseState) : LicenseState :=
  states.foldl raiseState start

def LicenseFile.clusters (file : LicenseFile) : List ClusterXml :=
  file.packages.flatMap PackageXml.clusters

def ownClusters (packages : List PackageXml) : List ClusterXml :=
  (packages.flatMap PackageXml.clusters).filter fun cluster => cluster.id = site.clusterId

/-- Only the first fingerprint is compared. -/
def fingerPrintsOk (packages : List PackageXml) : Bool :=
  match (ownClusters site packages).filterMap ClusterXml.hardwareFingerPrint with
  | [] => true
  | first :: _ => decide (first = site.currentFingerPrint)

def fingerprintOk (file : LicenseFile) : Bool := fingerPrintsOk site file.packages

abbrev Parameters := List (LicenseParameterTypeEnum × Int)

def LicenseXml.hasParameter (node : LicenseXml) (required : LicenseParameterTypeEnum × Int) : Bool :=
  node.parameters.any fun parameter =>
    decide (parameter.id = required.1.name) && parameter.value.any fun value => required.2 ≤ value

def LicenseXml.fits (node : LicenseXml) (license : LicenseEnum) (parameters : Parameters) : Bool :=
  decide (node.id = license.name) && parameters.all node.hasParameter

def getLicenseState (file : LicenseFile) (license : LicenseEnum)
    (parameters : Parameters) : LicenseState :=
  if fingerprintOk site file then
    highestState .none
      ((((ownClusters site file.packages).flatMap ClusterXml.licenses).filter fun node =>
        node.fits license parameters).map (getStateFromLicenseXml site))
  else .fpMismatch

/-- The licences of all blocks, whatever their cluster. -/
def getValidLicenses (file : LicenseFile) : List LicenseEnum :=
  ((((file.clusters.flatMap ClusterXml.licenses).filter fun node =>
    (getStateFromLicenseXml site node).isValid).map LicenseXml.id).dedup).filterMap
      LicenseEnum.ofName

variable (files : List LicenseFile)

def managerLicenseState (license : LicenseEnum) (parameters : Parameters) : LicenseState :=
  if files = [] then .none
  else
    match (files.map fun file => getLicenseState site file license parameters).filter
        fun state => state ≠ .fpMismatch with
    | [] => .fpMismatch
    | first :: rest => highestState first rest

def hasValidLicense (license : LicenseEnum) (parameters : Parameters) : Bool :=
  (managerLicenseState site files license parameters).isValid

def managerValidLicenses : List LicenseEnum :=
  (files.flatMap (getValidLicenses site)).dedup

def newerPackage (held : Option PackageXml) (package : PackageXml) : PackageXml :=
  match held with
  | some shown => if shown.version < package.version then package else shown
  | none => package

def packageUuidMap : Dict Text PackageXml :=
  (∅ : Dict Text PackageXml).update PackageXml.uuid newerPackage
    (files.flatMap LicenseFile.packages)

theorem raiseState_cases (state other : LicenseState) :
    raiseState state other = state ∧ other.value ≤ state.value ∨
      raiseState state other = other ∧ state.value ≤ other.value := by
  unfold raiseState
  by_cases h : state.value < other.value
  · rw [if_pos h]
    exact Or.inr ⟨rfl, le_of_lt h⟩
  · rw [if_neg h]
    exact Or.inl ⟨rfl, not_lt.mp h⟩

theorem highestState_mem (start : LicenseState) (states : List LicenseState) :
    highestState start states ∈ start :: states := by
  induction states generalizing start with
  | nil => exact mem_cons_self
  | cons first rest ih =>
    have hstep := ih (raiseState start first)
    show highestState (raiseState start first) rest ∈ _
    rcases raiseState_cases start first with ⟨heq, _⟩ | ⟨heq, _⟩
    · rw [heq] at hstep ⊢
      rcases mem_cons.mp hstep with hstart | hrest
      · exact mem_cons.mpr (Or.inl hstart)
      · exact mem_cons_of_mem _ (mem_cons_of_mem _ hrest)
    · rw [heq] at hstep ⊢
      exact mem_cons_of_mem _ hstep

variable {states : List LicenseState} {start : LicenseState}

theorem le_highestState {state : LicenseState} (h : state ∈ start :: states) :
    state.value ≤ (highestState start states).value := by
  induction states generalizing start state with
  | nil =>
    rw [mem_singleton.mp h]
    exact le_refl _
  | cons first rest ih =>
    have hraised : start.value ≤ (raiseState start first).value ∧
        first.value ≤ (raiseState start first).value := by
      rcases raiseState_cases start first with ⟨heq, hle⟩ | ⟨heq, hle⟩
      · rw [heq]
        exact ⟨le_refl _, hle⟩
      · rw [heq]
        exact ⟨hle, le_refl _⟩
    have hstart := ih (mem_cons_self : raiseState start first ∈ raiseState start first :: rest)
    show _ ≤ (highestState (raiseState start first) rest).value
    rcases mem_cons.mp h with heq | hmem
    · rw [heq]
      exact le_trans hraised.left hstart
    · rcases mem_cons.mp hmem with heq | hrest
      · rw [heq]
        exact le_trans hraised.right hstart
      · exact ih (mem_cons_of_mem _ hrest)

/-- The states that a file gives to a licence when its fingerprint fits. -/
def LicenseState.Dated (state : LicenseState) : Prop :=
  state = .valid ∨ state = .grace ∨ state = .expired ∨ state = .validInFuture ∨ state = .none

theorem LicenseState.Dated.isValid_iff {state : LicenseState} (h : state.Dated) :
    state.isValid = true <-> 80 ≤ state.value := by
  rcases h with h | h | h | h | h
  all_goals
    rw [h]
    decide

theorem getStateFromLicenseXml_dated (node : LicenseXml) :
    (getStateFromLicenseXml site node).Dated := by
  unfold getStateFromLicenseXml LicenseState.Dated
  split_ifs <;> simp

theorem highestState_dated (h : forall state, state ∈ start :: states -> state.Dated) :
    (highestState start states).Dated :=
  h _ (highestState_mem start states)

theorem highestState_isValid_iff (h : forall state, state ∈ start :: states -> state.Dated) :
    (highestState start states).isValid = true <->
      exists state, state ∈ start :: states ∧ state.isValid = true := by
  constructor
  · intro hvalid
    exact ⟨_, highestState_mem start states, hvalid⟩
  · intro hvalid
    rcases hvalid with ⟨state, hmem, hstate⟩
    have hhigh := ((h state hmem).isValid_iff).mp hstate
    exact ((highestState_dated h).isValid_iff).mpr (le_trans hhigh (le_highestState hmem))

end Icsw.License
