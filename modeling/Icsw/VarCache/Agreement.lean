import Icsw.Foundation.Dict
import Icsw.Foundation.Python

/-!
# The variable cache

A device has variables of its own, takes over those of its group that may be inherited, and then
those of the cluster.  The cache reads all variables at once or those of one device on demand.  A
filled cache compares the id of a variable's group with the key of a device, so it agrees with the
other one only where this does not matter.
-/

namespace Icsw.VarCache

open Foundation List

structure Device where
  pk : Nat
  deviceGroup : Nat
  isMetaDevice : Bool
deriving DecidableEq

inductive VarType where
  | integer
  | string
  | datetime
  | date
  | time
  | blob
deriving DecidableEq

def VarType.code : VarType -> Text
  | .integer => "i".toList
  | .string => "s".toList
  | .datetime => "d".toList
  | .date => "D".toList
  | .time => "t".toList
  | .blob => "b".toList

inductive Value where
  | none
  | int (value : Int)
  | str (value : Text)
deriving DecidableEq

structure DeviceVariable where
  device : Device
  name : Text
  varType : VarType
  valInt : Option Int
  valStr : Option Text
  inherit : Bool
deriving DecidableEq

def getValue (self : DeviceVariable) : Value :=
  match self.varType with
  | .integer => self.valInt.elim .none .int
  | .string => self.valStr.elim .none .str
  | other => .str ("get_value for ".toList ++ other.code)

/--
The devices, the meta-device of each group, the meta-device of the cluster group
and the variables.  No device has two variables of one name.
-/
structure Database where
  devices : List Device
  groupDevice : Nat -> Option Nat
  cdg : Device
  deviceVariables : List DeviceVariable
  distinctDevices : (devices.map Device.pk).Nodup
  distinct : (deviceVariables.map fun var => (var.device.pk, var.name)).Nodup
  owned : forall var, var ∈ deviceVariables -> var.device ∈ devices
  clusterDevice : cdg ∈ devices ∧ cdg.isMetaDevice = true
  metaDevice : forall dev, dev ∈ devices -> forall group,
    groupDevice group = some dev.pk <-> dev.isMetaDevice = true ∧ dev.deviceGroup = group

/-- The keys `GLOBAL`, `g__` and `d__`. -/
inductive CacheKey where
  | global
  | group (pk : Nat)
  | device (pk : Nat)
deriving DecidableEq

/-- A value and whether it may be inherited. -/
abbrev Entry := Value × Bool

abbrev Cache := Dict CacheKey (Dict Text Entry)

def entryOf (var : DeviceVariable) : Entry := (getValue var, var.inherit)

def defaults (defDict : Dict Text Value) : Dict Text Entry :=
  defDict.comprehend fun _ value => some (value, true)

variable (db : Database)

/-- The key under which `_prefill` files a variable. -/
def fileKey (var : DeviceVariable) : CacheKey :=
  if var.device.isMetaDevice then
    if var.device.deviceGroup = db.cdg.pk then .global else .group var.device.deviceGroup
  else .device var.device.pk

def startOf (defDict : Dict Text Value) : CacheKey -> Dict Text Entry
  | .global => defaults defDict
  | .group _ => ∅
  | .device _ => ∅

def prefill (defDict : Dict Text Value) : Cache :=
  (∅ : Cache).update (fileKey db)
    (fun held var => Dict.updateInner (startOf defDict (fileKey db var)) DeviceVariable.name
      (fun _ var => entryOf var) held var)
    db.deviceVariables

def fetchVars (refDev : Option Nat) : Dict Text Entry :=
  (∅ : Dict Text Entry).update DeviceVariable.name (fun _ var => entryOf var)
    (db.deviceVariables.filter fun var => refDev = some var.device.pk)

/-- The defaults are added where the cluster has no variable of the name. -/
def fetchGlobal (defDict : Dict Text Value) : Dict Text Entry :=
  fetchVars db (some db.cdg.pk) ∪ defaults defDict

def ensureKey (cache : Cache) (key : CacheKey) (read : Dict Text Entry) : Cache :=
  if key ∈ cache then cache else cache.insert key read

/-- The cache in the state in which `get_vars` reads it. -/
def readFor (prefilled : Bool) (defDict : Dict Text Value) (cache : Cache) (dev : Device) : Cache :=
  let cache := ensureKey cache .global (fetchGlobal db defDict)
  if prefilled then cache
  else
    let cache := ensureKey cache (.group dev.deviceGroup)
      (fetchVars db (db.groupDevice dev.deviceGroup))
    ensureKey cache (.device dev.pk) (fetchVars db (some dev.pk))

/-- The entries of a key that count, all of them or the inheritable ones. -/
def visible (cache : Cache) (key : CacheKey) (ignoreInherit : Bool) : Dict Text Value :=
  ((cache.lookup key).getD ∅).comprehend fun _ entry =>
    if entry.2 || ignoreInherit then some entry.1 else none

def countNew (known added : Dict Text Value) : Nat :=
  (added.keys.filter fun name => name ∉ known).length

structure Vars where
  retDict : Dict Text Value
  fromDevice : Nat
  fromGroup : Nat
  fromCluster : Nat

def getVars (prefilled : Bool) (defDict : Dict Text Value) (cache : Cache)
    (dev : Device) : Vars × Cache :=
  let cache := readFor db prefilled defDict cache dev
  let ofDevice := visible cache (.device dev.pk) true
  let ofGroup := visible cache (.group dev.deviceGroup) false
  let ofCluster := visible cache .global false
  ({ retDict := (ofDevice ∪ ofGroup) ∪ ofCluster
     fromDevice := countNew ∅ ofDevice
     fromGroup := countNew ofDevice ofGroup
     fromCluster := countNew (ofDevice ∪ ofGroup) ofCluster }, cache)

/-- `VarCache(prefill, def_dict).get_vars(dev)`; the first part of its result. -/
def varsOf (prefilled : Bool) (defDict : Dict Text Value) (dev : Device) : Dict Text Value :=
  let cache := if prefilled then prefill db defDict else ∅
  (getVars db prefilled defDict cache dev).1.retDict

def variableOf (pk : Option Nat) (name : Text) : Option Entry :=
  (fetchVars db pk).lookup name

def inheritable (entry : Option Entry) : Option Value :=
  entry.bind fun entry => if entry.2 then some entry.1 else none

/-- A variable hides the default of its name, inheritable or not. -/
def overDefault (entry : Option Entry) (default : Option Value) : Option Value :=
  inheritable (entry.or (default.map fun value => (value, true)))

section Layers

variable (db : Database) (defDict : Dict Text Value) (dev : Device) (name : Text)

def own : Option Entry := variableOf db (some dev.pk) name

def ofGroup : Option Entry := variableOf db (db.groupDevice dev.deviceGroup) name

def ofCluster : Option Entry := variableOf db (some db.cdg.pk) name

/-- The own variable, else what may be inherited, else the default. -/
def expected : Option Value :=
  ((own db dev name).map Prod.fst).or
    ((inheritable (ofGroup db dev name)).or
      ((inheritable (ofCluster db name)).or (defDict.lookup name)))

/-- The device that `_prefill` takes for that of the cluster. -/
def filedDevice : Option Nat := db.groupDevice db.cdg.pk

/-- What `_prefill` files as global: the filed device has variables, or the cluster's are read. -/
def globalLayer : Option Value :=
  if (db.deviceVariables.filter fun var => filedDevice db = some var.device.pk) = [] then
    overDefault (ofCluster db name) (defDict.lookup name)
  else overDefault (variableOf db (filedDevice db) name) (defDict.lookup name)

end Layers

theorem variableOf_eq (db : Database) (pk : Option Nat) (name : Text) :
    variableOf db pk name =
      ((db.deviceVariables.filter fun var =>
        pk = some var.device.pk ∧ var.name = name).getLast?).map entryOf := by
  unfold variableOf fetchVars
  rw [Dict.lookup_update_assign, filter_filter]
  have hfilter : (db.deviceVariables.filter fun var =>
      decide (var.name = name) && decide (pk = some var.device.pk)) =
      db.deviceVariables.filter fun var => pk = some var.device.pk ∧ var.name = name :=
    filter_congr fun var _ => by
      simp [Bool.and_comm]
  rw [hfilter]

theorem lookup_defaults (defDict : Dict Text Value) (name : Text) :
    (defaults defDict).lookup name = (defDict.lookup name).map fun value => (value, true) := by
  unfold defaults
  rw [Dict.lookup_comprehend]
  cases defDict.lookup name with
  | none => rfl
  | some value => rfl

theorem lookup_visible (cache : Cache) (key : CacheKey) (ignoreInherit : Bool) (name : Text) :
    (visible cache key ignoreInherit).lookup name =
      (((cache.lookup key).getD ∅).lookup name).bind fun entry =>
        if entry.2 || ignoreInherit then some entry.1 else none := by
  unfold visible
  rw [Dict.lookup_comprehend]

theorem lookup_ensureKey (cache : Cache) (key other : CacheKey) (read : Dict Text Entry) :
    (ensureKey cache key read).lookup other =
      if key = other then some ((cache.lookup key).getD read) else cache.lookup other := by
  unfold ensureKey
  by_cases hmem : key ∈ cache
  · rw [if_pos hmem]
    rcases Dict.exists_lookup hmem with ⟨held, hheld⟩
    by_cases hkey : key = other
    · rw [if_pos hkey, ← hkey, hheld]
      rfl
    · rw [if_neg hkey]
  · rw [if_neg hmem, Dict.lookup_insert_if, AList.lookup_eq_none.mpr hmem]
    rfl

theorem lookup_retDict (db : Database) (prefilled : Bool) (defDict : Dict Text Value)
    (cache : Cache) (dev : Device) (name : Text) :
    (getVars db prefilled defDict cache dev).1.retDict.lookup name =
      (((visible (readFor db prefilled defDict cache dev) (.device dev.pk) true).lookup name).or
        ((visible (readFor db prefilled defDict cache dev) (.group dev.deviceGroup)
          false).lookup name)).or
        ((visible (readFor db prefilled defDict cache dev) .global false).lookup name) := by
  unfold getVars
  rw [Dict.lookup_union, Dict.lookup_union]

theorem readFor_onDemand (db : Database) (defDict : Dict Text Value) (dev : Device) :
    (readFor db false defDict ∅ dev).lookup .global = some (fetchGlobal db defDict) ∧
      (readFor db false defDict ∅ dev).lookup (.group dev.deviceGroup) =
        some (fetchVars db (db.groupDevice dev.deviceGroup)) ∧
      (readFor db false defDict ∅ dev).lookup (.device dev.pk) =
        some (fetchVars db (some dev.pk)) := by
  unfold readFor
  simp [lookup_ensureKey]

theorem lookup_fetchGlobal (db : Database) (defDict : Dict Text Value) (name : Text) :
    inheritable ((fetchGlobal db defDict).lookup name) =
      overDefault (ofCluster db name) (defDict.lookup name) := by
  unfold fetchGlobal overDefault
  rw [Dict.lookup_union, lookup_defaults]
  rfl

theorem visible_own (cache : Cache) (key : CacheKey) (name : Text) :
    (visible cache key true).lookup name =
      (((cache.lookup key).getD ∅).lookup name).map Prod.fst := by
  rw [lookup_visible]
  cases ((cache.lookup key).getD ∅).lookup name with
  | none => rfl
  | some entry => simp

theorem visible_inherited (cache : Cache) (key : CacheKey) (name : Text) :
    (visible cache key false).lookup name =
      inheritable (((cache.lookup key).getD ∅).lookup name) := by
  rw [lookup_visible]
  unfold inheritable
  simp only [Bool.or_false]

theorem varsOf_onDemand (db : Database) (defDict : Dict Text Value) (dev : Device) (name : Text) :
    (varsOf db false defDict dev).lookup name =
      ((own db dev name).map Prod.fst).or
        ((inheritable (ofGroup db dev name)).or
          (overDefault (ofCluster db name) (defDict.lookup name))) := by
  rcases readFor_onDemand db defDict dev with ⟨hglobal, hgroup, hdevice⟩
  unfold varsOf
  rw [if_neg (by simp), lookup_retDict, visible_own, visible_inherited, visible_inherited,
    hdevice, hgroup, hglobal, Option.getD_some, Option.getD_some, Option.getD_some,
    lookup_fetchGlobal, Option.or_assoc]
  rfl

def filed (db : Database) (key : CacheKey) (name : Text) : Option Entry :=
  ((db.deviceVariables.filter fun var => fileKey db var = key ∧ var.name = name).getLast?).map
    entryOf

theorem lookup_prefill (db : Database) (defDict : Dict Text Value) (key : CacheKey) (name : Text) :
    (((prefill db defDict).lookup key).getD (startOf defDict key)).lookup name =
      (filed db key name).or ((startOf defDict key).lookup name) := by
  unfold prefill filed
  rw [Dict.lookup_update, AList.lookup_empty]
  have hbase : (db.deviceVariables.filter fun var => fileKey db var = key).foldl
      (fun current var => some (Dict.updateInner (startOf defDict (fileKey db var))
        DeviceVariable.name (fun _ var => entryOf var) current var)) none =
      (db.deviceVariables.filter fun var => fileKey db var = key).foldl
        (fun current var => some (Dict.updateInner (startOf defDict key)
          DeviceVariable.name (fun _ var => entryOf var) current var)) none := by
    apply foldl_ext
    intro current var hvar
    have hkey : fileKey db var = key := by simpa using (mem_filter.mp hvar).right
    rw [hkey]
  rw [hbase, Dict.getD_foldl_updateInner, Dict.lookup_update, Dict.foldl_assign,
    filter_filter]
  have hfilter : (db.deviceVariables.filter fun var =>
      decide (var.name = name) && decide (fileKey db var = key)) =
      db.deviceVariables.filter fun var => fileKey db var = key ∧ var.name = name :=
    filter_congr fun var _ => by
      simp [Bool.and_comm]
  rw [hfilter]
  rfl

section Filing

variable {db : Database} {var : DeviceVariable}

theorem fileKey_device {pk : Nat} :
    fileKey db var = .device pk <-> var.device.isMetaDevice = false ∧ var.device.pk = pk := by
  unfold fileKey
  cases var.device.isMetaDevice with
  | false => simp
  | true =>
    by_cases hgroup : var.device.deviceGroup = db.cdg.pk
    · simp [hgroup]
    · simp [hgroup]

theorem fileKey_group {group : Nat} :
    fileKey db var = .group group <->
      group ≠ db.cdg.pk ∧ var.device.isMetaDevice = true ∧ var.device.deviceGroup = group := by
  unfold fileKey
  cases var.device.isMetaDevice with
  | false => simp
  | true =>
    by_cases hgroup : var.device.deviceGroup = db.cdg.pk
    · simp only [if_true, if_pos hgroup, true_and]
      constructor
      · intro h
        cases h
      · intro h
        exact absurd (h.right ▸ hgroup) h.left
    · simp only [if_true, if_neg hgroup, true_and, CacheKey.group.injEq]
      constructor
      · intro h
        exact ⟨h ▸ hgroup, h⟩
      · intro h
        exact h.right

theorem fileKey_global :
    fileKey db var = .global <->
      var.device.isMetaDevice = true ∧ var.device.deviceGroup = db.cdg.pk := by
  unfold fileKey
  cases var.device.isMetaDevice with
  | false => simp
  | true =>
    by_cases hgroup : var.device.deviceGroup = db.cdg.pk
    · simp [hgroup]
    · simp [hgroup]

end Filing

section Filed

variable {db : Database}

theorem filed_congr {key : CacheKey} {pk : Option Nat} {name : Text}
    (h : forall var, var ∈ db.deviceVariables ->
      (fileKey db var = key <-> pk = some var.device.pk)) :
    filed db key name = variableOf db pk name := by
  unfold filed
  rw [variableOf_eq]
  have hfilter : (db.deviceVariables.filter fun var => fileKey db var = key ∧ var.name = name) =
      db.deviceVariables.filter fun var => pk = some var.device.pk ∧ var.name = name :=
    filter_congr fun var hvar => by
      simp [h var hvar]
  rw [hfilter]

theorem variableOf_none (db : Database) (name : Text) : variableOf db none name = none := by
  rw [variableOf_eq]
  simp

/-- A device's own variables are filed under it, unless it is a meta-device. -/
theorem filed_device {dev : Device} (hdev : dev ∈ db.devices) (name : Text) :
    filed db (.device dev.pk) name =
      if dev.isMetaDevice then none else own db dev name := by
  have hsame : forall var, var ∈ db.deviceVariables -> var.device.pk = dev.pk ->
      var.device = dev := fun var hvar hpk =>
    inj_on_of_nodup_map db.distinctDevices (db.owned var hvar) hdev hpk
  cases hmeta : dev.isMetaDevice with
  | true =>
    rw [if_pos rfl, ← variableOf_none db name]
    apply filed_congr
    intro var hvar
    rw [fileKey_device]
    constructor
    · intro h
      rw [hsame var hvar h.right, hmeta] at h
      cases h.left
    · intro h
      cases h
  | false =>
    rw [if_neg (by simp)]
    apply filed_congr
    intro var hvar
    rw [fileKey_device]
    constructor
    · intro h
      rw [h.right]
    · intro h
      have hpk : var.device.pk = dev.pk := (Option.some.inj h).symm
      exact ⟨by rw [hsame var hvar hpk, hmeta], hpk⟩

/-- A group's variables are filed under it, unless its id is the key of the cluster device. -/
theorem filed_group (group : Nat) (name : Text) :
    filed db (.group group) name =
      if group = db.cdg.pk then none else variableOf db (db.groupDevice group) name := by
  by_cases hgroup : group = db.cdg.pk
  · rw [if_pos hgroup, ← variableOf_none db name]
    apply filed_congr
    intro var _
    rw [fileKey_group]
    constructor
    · intro h
      exact absurd hgroup h.left
    · intro h
      cases h
  · rw [if_neg hgroup]
    apply filed_congr
    intro var hvar
    rw [fileKey_group, db.metaDevice var.device (db.owned var hvar) group]
    constructor
    · intro h
      exact h.right
    · intro h
      exact ⟨hgroup, h⟩

theorem fileKey_global_iff {var : DeviceVariable} (hvar : var ∈ db.deviceVariables) :
    fileKey db var = .global <-> filedDevice db = some var.device.pk := by
  unfold filedDevice
  rw [fileKey_global, db.metaDevice var.device (db.owned var hvar)]

theorem filed_global (name : Text) : filed db .global name = variableOf db (filedDevice db) name :=
  filed_congr fun _ hvar => fileKey_global_iff hvar

end Filed

theorem global_mem_prefill {db : Database} {defDict : Dict Text Value} :
    CacheKey.global ∈ prefill db defDict <->
      (db.deviceVariables.filter fun var => filedDevice db = some var.device.pk) ≠ [] := by
  unfold prefill
  rw [Dict.mem_update, Ne, filter_eq_nil_iff]
  constructor
  · intro h hnone
    rcases h with hempty | ⟨var, hvar, hkey⟩
    · exact absurd hempty (AList.notMem_empty _)
    · exact absurd ((fileKey_global_iff hvar).mp hkey) (by simpa using hnone var hvar)
  · intro h
    right
    by_contra hnone
    apply h
    intro var hvar
    simp only [decide_eq_true_eq]
    intro hdevice
    exact hnone ⟨var, hvar, (fileKey_global_iff hvar).mpr hdevice⟩

theorem varsOf_prefilled {db : Database} {dev : Device} (hdev : dev ∈ db.devices)
    (defDict : Dict Text Value) (name : Text) :
    (varsOf db true defDict dev).lookup name =
      ((if dev.isMetaDevice then none else own db dev name).map Prod.fst).or
        ((inheritable (if dev.deviceGroup = db.cdg.pk then none else ofGroup db dev name)).or
          (globalLayer db defDict name)) := by
  have hdevice : (readFor db true defDict (prefill db defDict) dev).lookup (.device dev.pk) =
      (prefill db defDict).lookup (.device dev.pk) := by
    simp [readFor, lookup_ensureKey]
  have hgroup : (readFor db true defDict (prefill db defDict) dev).lookup
      (.group dev.deviceGroup) = (prefill db defDict).lookup (.group dev.deviceGroup) := by
    simp [readFor, lookup_ensureKey]
  have hglobal : (readFor db true defDict (prefill db defDict) dev).lookup .global =
      some (((prefill db defDict).lookup .global).getD (fetchGlobal db defDict)) := by
    simp [readFor, lookup_ensureKey]
  have hlayer : inheritable ((((prefill db defDict).lookup .global).getD
      (fetchGlobal db defDict)).lookup name) = globalLayer db defDict name := by
    unfold globalLayer
    by_cases hnone : (db.deviceVariables.filter fun var =>
        filedDevice db = some var.device.pk) = []
    · have habsent : CacheKey.global ∉ prefill db defDict := fun h =>
        global_mem_prefill.mp h hnone
      rw [if_pos hnone, AList.lookup_eq_none.mpr habsent, Option.getD_none, lookup_fetchGlobal]
    · have hsome := AList.lookup_isSome.mpr (global_mem_prefill.mpr hnone :
        CacheKey.global ∈ prefill db defDict)
      rcases Option.isSome_iff_exists.mp hsome with ⟨held, hheld⟩
      have hlookup := lookup_prefill db defDict .global name
      rw [hheld, Option.getD_some, filed_global] at hlookup
      rw [if_neg hnone, hheld, Option.getD_some, hlookup]
      unfold overDefault
      rw [show (startOf defDict .global) = defaults defDict from rfl, lookup_defaults]
  have hown := lookup_prefill db defDict (.device dev.pk) name
  have hgroups := lookup_prefill db defDict (.group dev.deviceGroup) name
  rw [show startOf defDict (.device dev.pk) = ∅ from rfl, AList.lookup_empty, Option.or_none,
    filed_device hdev] at hown
  rw [show startOf defDict (.group dev.deviceGroup) = ∅ from rfl, AList.lookup_empty,
    Option.or_none, filed_group] at hgroups
  unfold varsOf
  rw [if_pos rfl, lookup_retDict, visible_own, visible_inherited, visible_inherited, hdevice,
    hgroup, hglobal, Option.getD_some, hlayer, hown, hgroups, Option.or_assoc]
  rfl

structure ModesAgree (db : Database) (defDict : Dict Text Value) (dev : Device) : Prop where
  same : forall name,
    (varsOf db true defDict dev).lookup name = (varsOf db false defDict dev).lookup name
  expected : forall name,
    (varsOf db false defDict dev).lookup name = expected db defDict dev name

/--
No default is hidden, for names that neither the device nor its group settles, by a variable of the
cluster that is not inheritable, and the layer filed as global has what the cluster or the defaults
have.  A variable of a meta-device that is not inheritable is in that layer with the same value.
-/
structure Settled (db : Database) (defDict : Dict Text Value) (dev : Device) : Prop where
  defaults : forall name, own db dev name = none -> inheritable (ofGroup db dev name) = none ->
    forall value, ofCluster db name = some (value, false) -> defDict.lookup name = none
  global : forall name, own db dev name = none -> inheritable (ofGroup db dev name) = none ->
    globalLayer db defDict name =
      (inheritable (ofCluster db name)).or (defDict.lookup name)
  metaDevice : dev.isMetaDevice = true -> forall name value,
    own db dev name = some (value, false) -> globalLayer db defDict name = some value

section Agreement

variable {db : Database} {defDict : Dict Text Value} {dev : Device}

theorem overDefault_eq_iff {entry : Option Entry} {default : Option Value} :
    overDefault entry default = (inheritable entry).or default <->
      forall value, entry = some (value, false) -> default = none := by
  cases entry with
  | none =>
    cases default with
    | none => simp [overDefault, inheritable]
    | some value => simp [overDefault, inheritable]
  | some entry =>
    rcases entry with ⟨value, inherit⟩
    cases inherit with
    | true => simp [overDefault, inheritable]
    | false =>
      cases default with
      | none => simp [overDefault, inheritable]
      | some value => simp [overDefault, inheritable]

theorem onDemand_expected_iff (name : Text) :
    (varsOf db false defDict dev).lookup name = expected db defDict dev name <->
      (own db dev name = none -> inheritable (ofGroup db dev name) = none ->
        forall value, ofCluster db name = some (value, false) -> defDict.lookup name = none) := by
  rw [varsOf_onDemand]
  unfold expected
  cases own db dev name with
  | some entry => simp
  | none =>
    cases inheritable (ofGroup db dev name) with
    | some value => simp
    | none =>
      simp only [Option.map_none, Option.none_or, forall_const]
      exact overDefault_eq_iff

theorem ofGroup_eq_own (hdev : dev ∈ db.devices) (hmeta : dev.isMetaDevice = true)
    (name : Text) : ofGroup db dev name = own db dev name := by
  unfold ofGroup own
  rw [(db.metaDevice dev hdev dev.deviceGroup).mpr ⟨hmeta, rfl⟩]

theorem globalLayer_filed (hgroup : dev.deviceGroup = db.cdg.pk) {name : Text} {entry : Entry}
    (hentry : ofGroup db dev name = some entry) :
    globalLayer db defDict name = overDefault (some entry) (defDict.lookup name) := by
  have hfiled : variableOf db (filedDevice db) name = some entry := by
    unfold filedDevice
    rw [← hgroup]
    exact hentry
  unfold globalLayer
  rw [if_neg, hfiled]
  intro hnone
  rw [variableOf_eq] at hfiled
  rcases Option.map_eq_some_iff.mp hfiled with ⟨var, hlast, _⟩
  rcases mem_filter.mp (mem_of_getLast? hlast) with ⟨hvar, hnames⟩
  have hmem : var ∈ db.deviceVariables.filter fun var => filedDevice db = some var.device.pk :=
    mem_filter.mpr ⟨hvar, by simpa using (of_decide_eq_true hnames).left⟩
  rw [hnone] at hmem
  cases hmem

theorem overDefault_inheritable {entry : Entry} {default : Option Value} {value : Value}
    (h : inheritable (some entry) = some value) :
    overDefault (some entry) default = some value := h

theorem prefilled_group {name : Text} {value : Value}
    (hvalue : inheritable (ofGroup db dev name) = some value) :
    (inheritable (if dev.deviceGroup = db.cdg.pk then none else ofGroup db dev name)).or
      (globalLayer db defDict name) = some value := by
  by_cases hgroup : dev.deviceGroup = db.cdg.pk
  · rw [if_pos hgroup]
    cases hentry : ofGroup db dev name with
    | none =>
      rw [hentry] at hvalue
      cases hvalue
    | some entry =>
      rw [hentry] at hvalue
      rw [globalLayer_filed hgroup hentry]
      exact overDefault_inheritable hvalue
  · rw [if_neg hgroup, hvalue]
    rfl

theorem prefilled_open {name : Text} (hnone : inheritable (ofGroup db dev name) = none) :
    (inheritable (if dev.deviceGroup = db.cdg.pk then none else ofGroup db dev name)).or
      (globalLayer db defDict name) = globalLayer db defDict name := by
  by_cases hgroup : dev.deviceGroup = db.cdg.pk
  · rw [if_pos hgroup]
    rfl
  · rw [if_neg hgroup, hnone]
    rfl

theorem prefilled_expected_iff (hdev : dev ∈ db.devices) (name : Text) :
    (varsOf db true defDict dev).lookup name = expected db defDict dev name <->
      (own db dev name = none -> inheritable (ofGroup db dev name) = none ->
        globalLayer db defDict name =
          (inheritable (ofCluster db name)).or (defDict.lookup name)) ∧
      (dev.isMetaDevice = true -> forall value, own db dev name = some (value, false) ->
        globalLayer db defDict name = some value) := by
  rw [varsOf_prefilled hdev]
  unfold expected
  cases hown : own db dev name with
  | none =>
    have hnoOwn : (if dev.isMetaDevice = true then none else (none : Option Entry)) = none := by
      cases dev.isMetaDevice <;> rfl
    rw [hnoOwn]
    cases hgroup : inheritable (ofGroup db dev name) with
    | none =>
      rw [prefilled_open hgroup]
      simp
    | some value =>
      rw [prefilled_group hgroup]
      simp
  | some entry =>
    rcases entry with ⟨value, inherit⟩
    cases hmeta : dev.isMetaDevice with
    | false => simp
    | true =>
      have hentry : ofGroup db dev name = some (value, inherit) := by
        rw [ofGroup_eq_own hdev hmeta, hown]
      cases inherit with
      | true =>
        have hgroup : inheritable (ofGroup db dev name) = some value := by
          rw [hentry]
          rfl
        rw [if_pos rfl, prefilled_group hgroup]
        simp
      | false =>
        have hgroup : inheritable (ofGroup db dev name) = none := by
          rw [hentry]
          rfl
        rw [if_pos rfl, prefilled_open hgroup]
        simp

end Agreement

/-- Both modes agree exactly where the layers are settled. -/
theorem modesAgree_iff_settled (db : Database) (defDict : Dict Text Value) {dev : Device}
    (hdev : dev ∈ db.devices) :
    ModesAgree db defDict dev <-> Settled db defDict dev := by
  constructor
  · intro h
    have hfilled : forall name,
        (varsOf db true defDict dev).lookup name = expected db defDict dev name :=
      fun name => (h.same name).trans (h.expected name)
    exact {
      defaults := fun name => (onDemand_expected_iff name).mp (h.expected name)
      global := fun name => ((prefilled_expected_iff hdev name).mp (hfilled name)).left
      metaDevice := fun hmeta name =>
        ((prefilled_expected_iff hdev name).mp (hfilled name)).right hmeta }
  · intro h
    have honDemand : forall name,
        (varsOf db false defDict dev).lookup name = expected db defDict dev name :=
      fun name => (onDemand_expected_iff name).mpr (h.defaults name)
    have hfilled : forall name,
        (varsOf db true defDict dev).lookup name = expected db defDict dev name :=
      fun name => (prefilled_expected_iff hdev name).mpr
        ⟨h.global name, fun hmeta => h.metaDevice hmeta name⟩
    exact ⟨fun name => (hfilled name).trans (honDemand name).symm, honDemand⟩

def clusterDevice : Device := ⟨2, 1, true⟩

def rackDevice : Device := ⟨3, 2, true⟩

def node : Device := ⟨4, 2, false⟩

def twoGroups : Database where
  devices := [clusterDevice, rackDevice, node]
  groupDevice := fun group => if group = 1 then some 2 else if group = 2 then some 3 else none
  cdg := clusterDevice
  deviceVariables :=
    [⟨clusterDevice, "SNMP_READ_COMMUNITY".toList, .string, none, some "secret".toList, true⟩,
      ⟨rackDevice, "SNMP_VERSION".toList, .integer, some 1, none, true⟩]
  distinctDevices := by decide
  distinct := by decide
  owned := by decide
  clusterDevice := by decide
  metaDevice := by
    intro dev hdev group
    have hcases : dev = clusterDevice ∨ dev = rackDevice ∨ dev = node := by simpa using hdev
    by_cases hone : group = 1
    · subst hone
      rcases hcases with h | h | h
      all_goals
        rw [h]
        decide
    · by_cases htwo : group = 2
      · subst htwo
        rcases hcases with h | h | h
        all_goals
          rw [h]
          decide
      · rcases hcases with h | h | h
        all_goals
          simp [h, hone, htwo, clusterDevice, rackDevice, node, Ne.symm hone, Ne.symm htwo]

def snmpDefaults : Dict Text Value :=
  (∅ : Dict Text Value).insert "SNMP_READ_COMMUNITY".toList (.str "public".toList)

/-- The condition about the node is about a device of the database. -/
theorem node_modesAgree_iff :
    node ∈ twoGroups.devices ∧
      (ModesAgree twoGroups snmpDefaults node <-> Settled twoGroups snmpDefaults node) :=
  ⟨by decide, modesAgree_iff_settled twoGroups snmpDefaults (by decide)⟩

/-- A filled cache has the default for the node, where the cluster's variable is expected. -/
theorem node_modes_differ : ¬ ModesAgree twoGroups snmpDefaults node := by
  intro h
  have hsame := h.same "SNMP_READ_COMMUNITY".toList
  have hfilled : (varsOf twoGroups true snmpDefaults node).lookup
      "SNMP_READ_COMMUNITY".toList = some (.str "public".toList) := by
    decide +kernel
  have honDemand : (varsOf twoGroups false snmpDefaults node).lookup
      "SNMP_READ_COMMUNITY".toList = some (.str "secret".toList) := by
    decide +kernel
  rw [hfilled, honDemand] at hsame
  revert hsame
  decide

end Icsw.VarCache
