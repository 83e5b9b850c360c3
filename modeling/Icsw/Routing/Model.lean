import Icsw.Foundation.Dict
import Icsw.Foundation.Python
import Mathlib.Algebra.GroupWithZero.Nat
import Mathlib.Data.List.Infix

/-!
# Routing to servers

The routing dictionary says which servers offer a service type..  It is built from the service
instances and the devices, kept in a cache, and read back later..  A command for a service type with
node splitting is split by the bootservers of its devices.
-/

namespace Icsw.Routing

open Foundation

inductive ServiceEnum where
  | configServer
  | clusterServer
  | motherServer
  | monitorServer
  | discoveryServer
  | logcheckServer
  | packageServer
  | collectdServer
  | rmsServer
  | grapherServer
  | imageServer
  | kernelServer
  | virtualDesktopClient
  | autoEtcHosts
  | mongodbServer
  | reportServer
  | ldapServer
  | ypServer
  | bindServer
deriving DecidableEq

def ServiceEnum.name : ServiceEnum -> Text
  | .configServer => "config_server".toList
  | .clusterServer => "cluster_server".toList
  | .motherServer => "mother_server".toList
  | .monitorServer => "monitor_server".toList
  | .discoveryServer => "discovery_server".toList
  | .logcheckServer => "logcheck_server".toList
  | .packageServer => "package_server".toList
  | .collectdServer => "collectd_server".toList
  | .rmsServer => "rms_server".toList
  | .grapherServer => "grapher_server".toList
  | .imageServer => "image_server".toList
  | .kernelServer => "kernel_server".toList
  | .virtualDesktopClient => "virtual_desktop_client".toList
  | .autoEtcHosts => "auto_etc_hosts".toList
  | .mongodbServer => "mongodb_server".toList
  | .reportServer => "report_server".toList
  | .ldapServer => "ldap_server".toList
  | .ypServer => "yp_server".toList
  | .bindServer => "bind_server".toList

structure ServiceInstance where
  name : Text
  nodeSplit : Bool
  configEnums : List ServiceEnum
deriving DecidableEq

/-- A device on which a service runs, with the first address and the penalty of a route to it. -/
structure EffectiveDevice where
  pk : Nat
  fullName : Text
  isMetaDevice : Bool
  route : Option (Text × Int)
deriving DecidableEq

structure ServerEntry where
  fullName : Text
  ip : Text
  pk : Nat
  penalty : Int
  configs : List ServiceEnum
deriving DecidableEq

/-- What a routing dictionary is built from. -/
structure Site where
  instances : List ServiceInstance
  localDevice : Option Nat
  serverInfoStr : Text
  aliasDict : Dict Text Text
  devicesWith : ServiceEnum -> List (Option EffectiveDevice)

inductive ResolvValue where
  | servers (entries : List ServerEntry)
  | localDevice (pk : Nat)
  | text (value : Text)
  | aliases (dict : Dict Text Text)
  | names (list : List Text)
  | unroutable (dict : Dict Text (List Text))

abbrev ResolvDict := Dict Text ResolvValue

variable (site : Site)

def nodeSplitNames : List Text :=
  (site.instances.filter fun inst => inst.nodeSplit).map ServiceInstance.name

def enumNames : List ServiceEnum :=
  (site.instances.flatMap ServiceInstance.configEnums).dedup

def routeTo (dev : EffectiveDevice) : Option (Text × Int) :=
  if site.localDevice = some dev.pk then some ("127.0.0.1".toList, 1) else dev.route

/-- The servers found so far and the devices without a route. -/
structure Found where
  servers : List ServerEntry
  unroutable : List Text

def addDevice (enum : ServiceEnum) (found : Found) :
    Option EffectiveDevice -> Found
  | none => found
  | some dev =>
    if dev.isMetaDevice then found
    else
      match routeTo site dev with
      | none => { found with unroutable := found.unroutable ++ [dev.fullName] }
      | some (ip, penalty) =>
        if found.servers.any fun entry => entry.pk = dev.pk then found
        else
          { found with
            servers := found.servers ++ [⟨dev.fullName, ip, dev.pk, penalty, [enum]⟩] }

def findServers (enum : ServiceEnum) : Found :=
  (site.devicesWith enum).foldl (addDevice site enum) ⟨[], []⟩

/-- Order of the entries of one service: by penalty, then by the fields from the left. -/
def entryLe (first second : ServerEntry) : Bool :=
  decide (first.penalty < second.penalty) ||
    (decide (first.penalty = second.penalty) &&
      (decide (first.fullName < second.fullName) ||
        (decide (first.fullName = second.fullName) &&
          (decide (first.ip < second.ip) ||
            (decide (first.ip = second.ip) && decide (first.pk ≤ second.pk))))))

variable (dict : ResolvDict)

def addServers (enum : ServiceEnum) : ResolvDict :=
  match (findServers site enum).servers with
  | [] => dict
  | entries => dict.insert enum.name (.servers (entries.mergeSort entryLe))

def unroutableConfigs : Dict Text (List Text) :=
  (enumNames site).foldl (fun dict enum =>
    match (findServers site enum).unroutable with
    | [] => dict
    | names => dict.insert enum.name names) ∅

def localDeviceKey : Text := "_local_device".toList

def nodeSplitKey : Text := "_node_split_list".toList

def nodeSplitListKey : Text := "node_split_list".toList

def aliasKey : Text := "_alias_dict".toList

def setLocalDevice : ResolvDict :=
  match site.localDevice with
  | some pk => dict.insert localDeviceKey (.localDevice pk)
  | none => dict

def buildResolvDict : ResolvDict :=
  let servers := (enumNames site).foldl (addServers site) ∅
  let dict := (setLocalDevice site servers).insert "_server_info_str".toList
    (.text site.serverInfoStr)
  let dict := dict.insert aliasKey (.aliases site.aliasDict)
  let dict := dict.insert nodeSplitKey (.names (nodeSplitNames site))
  dict.insert "_unroutable_configs".toList (.unroutable (unroutableConfigs site))

structure SrvTypeRouting where
  localDevice : Option Nat
  aliasDict : ResolvValue
  resolvDict : ResolvDict
  nodeSplitList : ResolvValue
  noBootserverDevices : List (Nat × Text)

/-- A constructor call: the cache holds the dictionary of an earlier site, or nothing. -/
structure Creation where
  site : Site
  cached : Option Site
  force : Bool
  deviceExists : Nat -> Bool

variable (call : Creation)

def initialResolvDict : ResolvDict :=
  match call.cached with
  | none => buildResolvDict call.site
  | some earlier =>
    if call.force then buildResolvDict call.site
    else
      let dict := buildResolvDict earlier
      if localDeviceKey ∈ dict then dict else buildResolvDict call.site

def knownLocalDevice (deviceExists : Nat -> Bool) (dict : ResolvDict) : Option Nat :=
  match dict.lookup localDeviceKey with
  | some (.localDevice pk) => if deviceExists pk then some pk else none
  | _ => none

def create : SrvTypeRouting :=
  let first := initialResolvDict call
  let found := knownLocalDevice call.deviceExists first
  let dict :=
    if localDeviceKey ∈ first ∧ found = none then buildResolvDict call.site else first
  { localDevice := found
    aliasDict := (dict.lookup aliasKey).getD (.aliases ∅)
    resolvDict := dict
    nodeSplitList := (dict.lookup nodeSplitListKey).getD (.names [])
    noBootserverDevices := [] }

structure Update where
  site : Site
  cacheFilled : Bool
  force : Bool
  deviceExists : Nat -> Bool

/-- A local device that the database does not have ends the update with an error. -/
def update (self : SrvTypeRouting) (call : Update) : SrvTypeRouting :=
  if call.cacheFilled ∧ ¬ call.force then self
  else
    let dict := buildResolvDict call.site
    if localDeviceKey ∈ dict then
      { self with
        resolvDict := dict
        localDevice := (knownLocalDevice call.deviceExists dict).or self.localDevice }
    else
      { self with
        resolvDict := dict
        localDevice := none }

/-- A routing object after any number of updates. -/
def routing (updates : List Update) : SrvTypeRouting :=
  updates.foldl update (create call)

structure DeviceElement where
  pk : Nat
  bootserverHint : Int
  content : Text
deriving DecidableEq

structure SrvCommand where
  content : Text
  devices : List DeviceElement
deriving DecidableEq

structure DeviceRow where
  pk : Nat
  bootserver : Option Int
  name : Text
deriving DecidableEq

structure DeviceTable where
  rows : List DeviceRow
  distinct : (rows.map DeviceRow.pk).Nodup
  served : forall row, row ∈ rows -> row.bootserver ≠ some 0

def devDict (command : SrvCommand) : Dict Nat DeviceElement :=
  (∅ : Dict Nat DeviceElement).update DeviceElement.pk (fun _ element => element) command.devices

/-- The hints other than zero. -/
def bsHints (command : SrvCommand) : Dict Nat Int :=
  ((∅ : Dict Nat Int).update DeviceElement.pk (fun _ element => element.bootserverHint)
    command.devices).comprehend fun _ hint => if hint = 0 then none else some hint

def serverFor (command : SrvCommand) (row : DeviceRow) : Option Int :=
  match row.bootserver with
  | some server => if server = 0 then (bsHints command).lookup row.pk else some server
  | none => (bsHints command).lookup row.pk

variable (table : DeviceTable)

def selectedRows (command : SrvCommand) : List DeviceRow :=
  table.rows.filter fun row => row.pk ∈ devDict command

/-- The devices of each server. -/
def clDict (command : SrvCommand) : Dict Int (List Nat) :=
  (∅ : Dict Int (List Nat)).update Prod.fst (fun held routed => held.getD [] ++ [routed.2])
    ((selectedRows table command).filterMap fun row =>
      (serverFor command row).map fun server => (server, row.pk))

def unservedDevices (command : SrvCommand) : List (Nat × Text) :=
  ((selectedRows table command).filter fun row => serverFor command row = none).map
    fun row => (row.pk, row.name)

def splitSend (command : SrvCommand) : List (Option Int × SrvCommand) :=
  match (clDict table command).entries with
  | [] => []
  | [entry] => [(some entry.1, command)]
  | entries => entries.map fun entry =>
    (some entry.1, { command with devices := entry.2.filterMap (devDict command).lookup })

/-- `srv_type in list` for a value of the dictionary. -/
def ResolvValue.holds (value : ResolvValue) (srvType : Text) : Bool :=
  match value with
  | .names list => decide (srvType ∈ list)
  | .aliases dict => decide (srvType ∈ dict)
  | .unroutable dict => decide (srvType ∈ dict)
  | .text value => decide (srvType <:+: value)
  | .servers _ => false
  | .localDevice _ => false

def checkForSplitSend (self : SrvTypeRouting) (table : DeviceTable) (srvType : Text)
    (command : SrvCommand) : List (Option Int × SrvCommand) × SrvTypeRouting :=
  if self.nodeSplitList.holds srvType then
    (splitSend table command, { self with noBootserverDevices := unservedDevices table command })
  else
    ([(none, command)], { self with noBootserverDevices := [] })

/-!
## Splitting a command

The list of service types with node splitting is stored under one key and looked
up under another.  No routing object ever has it, so no command is split.
-/

theorem name_ne_nodeSplitListKey (enum : ServiceEnum) : enum.name ≠ nodeSplitListKey := by
  cases enum <;> decide

theorem addServers_lookup (enum : ServiceEnum) :
    (addServers site dict enum).lookup nodeSplitListKey = dict.lookup nodeSplitListKey := by
  unfold addServers
  cases (findServers site enum).servers with
  | nil => rfl
  | cons entry rest =>
    exact AList.lookup_insert_ne (name_ne_nodeSplitListKey enum).symm

theorem foldl_addServers_lookup (enums : List ServiceEnum) :
    (enums.foldl (addServers site) dict).lookup nodeSplitListKey =
      dict.lookup nodeSplitListKey := by
  induction enums generalizing dict with
  | nil => rfl
  | cons enum rest ih =>
    rw [List.foldl_cons, ih, addServers_lookup]

theorem setLocalDevice_lookup :
    (setLocalDevice site dict).lookup nodeSplitListKey = dict.lookup nodeSplitListKey := by
  unfold setLocalDevice
  cases site.localDevice with
  | none => rfl
  | some pk => exact AList.lookup_insert_ne (by decide)

theorem buildResolvDict_lookup : (buildResolvDict site).lookup nodeSplitListKey = none := by
  unfold buildResolvDict
  rw [AList.lookup_insert_ne (by decide), AList.lookup_insert_ne (by decide),
    AList.lookup_insert_ne (by decide), AList.lookup_insert_ne (by decide),
    setLocalDevice_lookup, foldl_addServers_lookup, AList.lookup_empty]

theorem initialResolvDict_lookup : (initialResolvDict call).lookup nodeSplitListKey = none := by
  unfold initialResolvDict
  cases call.cached with
  | none => exact buildResolvDict_lookup call.site
  | some earlier =>
    by_cases hforce : call.force = true
    · simp only [if_pos hforce, buildResolvDict_lookup]
    · by_cases hlocal : localDeviceKey ∈ buildResolvDict earlier
      · simp only [if_neg hforce, if_pos hlocal, buildResolvDict_lookup]
      · simp only [if_neg hforce, if_neg hlocal, buildResolvDict_lookup]

theorem create_nodeSplitList : (create call).nodeSplitList = .names [] := by
  unfold create
  by_cases hlost : localDeviceKey ∈ initialResolvDict call ∧
      knownLocalDevice call.deviceExists (initialResolvDict call) = none
  · simp only [if_pos hlost, buildResolvDict_lookup, Option.getD_none]
  · simp only [if_neg hlost, initialResolvDict_lookup, Option.getD_none]

theorem update_nodeSplitList (self : SrvTypeRouting) (call : Update) :
    (update self call).nodeSplitList = self.nodeSplitList := by
  unfold update
  by_cases hkeep : call.cacheFilled = true ∧ ¬ call.force = true
  · rw [if_pos hkeep]
  · rw [if_neg hkeep]
    by_cases hlocal : localDeviceKey ∈ buildResolvDict call.site
    · simp only [if_pos hlocal]
    · simp only [if_neg hlocal]

theorem routing_nodeSplitList (updates : List Update) :
    (routing call updates).nodeSplitList = .names [] := by
  unfold routing
  have hupdates : forall self : SrvTypeRouting,
      (updates.foldl update self).nodeSplitList = self.nodeSplitList := by
    intro self
    induction updates generalizing self with
    | nil => rfl
    | cons first rest ih => rw [List.foldl_cons, ih, update_nodeSplitList]
  rw [hupdates, create_nodeSplitList]

theorem routing_never_splits (updates : List Update) (table : DeviceTable)
    (srvType : Text) (command : SrvCommand) :
    (checkForSplitSend (routing call updates) table srvType command).1 = [(none, command)] := by
  unfold checkForSplitSend
  rw [routing_nodeSplitList]
  rfl

/-- The server of a device: its bootserver, and lacking one, a hint other than zero. -/
def destination (element : DeviceElement) : Option Int :=
  match (table.rows.find? fun row => row.pk = element.pk).bind DeviceRow.bootserver with
  | some server => some server
  | none => if element.bootserverHint = 0 then none else some element.bootserverHint

/-- How often a device is in the commands. -/
def occurrences (sent : List (Option Int × SrvCommand)) (pk : Nat) : Nat :=
  (sent.map fun entry => entry.2.devices.countP fun element => element.pk = pk).sum

def SentTo (sent : List (Option Int × SrvCommand)) (pk : Nat) (server : Int) : Prop :=
  exists command, (some server, command) ∈ sent ∧
    exists element, element ∈ command.devices ∧ element.pk = pk

/--
A device with a server is in the commands once, in the one for that server; any
other device is in none of them and is reported.
-/
def Partitioned (command : SrvCommand)
    (sent : List (Option Int × SrvCommand)) (reported : List (Nat × Text)) : Prop :=
  forall element, element ∈ command.devices ->
    match destination table element with
    | some server => occurrences sent element.pk = 1 ∧ SentTo sent element.pk server
    | none => occurrences sent element.pk = 0 ∧ exists name, (element.pk, name) ∈ reported

/-- The commands are a partition exactly where there is nothing to send. -/
theorem checkForSplitSend_partitioned_iff (call : Creation) (updates : List Update)
    (table : DeviceTable) (srvType : Text) (command : SrvCommand) :
    Partitioned table command
        (checkForSplitSend (routing call updates) table srvType command).1
        (checkForSplitSend (routing call updates) table srvType command).2.noBootserverDevices <->
      command.devices = [] := by
  rw [routing_never_splits]
  constructor
  · intro h
    cases hdevices : command.devices with
    | nil => rfl
    | cons element rest =>
      have hmem : element ∈ command.devices := by
        rw [hdevices]
        exact List.mem_cons_self
      have helement := h element hmem
      cases hserver : destination table element with
      | none =>
        rw [hserver] at helement
        have hzero := helement.left
        simp [occurrences, hdevices] at hzero
      | some server =>
        rw [hserver] at helement
        rcases helement.right with ⟨sent, hsent, _⟩
        simp at hsent
  · intro h element hmem
    rw [h] at hmem
    cases hmem

/-- The mother service as it is installed, with node splitting. -/
def motherSite : Site where
  instances := [⟨"mother".toList, true, [.motherServer]⟩]
  localDevice := some 1
  serverInfoStr := []
  aliasDict := ∅
  devicesWith := fun _ => [some ⟨1, "server".toList, false, none⟩]

def motherRouting : SrvTypeRouting :=
  routing ⟨motherSite, none, false, fun _ => true⟩ []

def twoServers : DeviceTable where
  rows := [⟨10, some 1, "node10".toList⟩, ⟨11, some 2, "node11".toList⟩]
  distinct := by decide
  served := by decide

def rebootBoth : SrvCommand where
  content := "reboot".toList
  devices := [⟨10, 0, []⟩, ⟨11, 0, []⟩]

/-- The service type has node splitting, and the command is sent as it is. -/
theorem mother_command_not_split :
    "mother".toList ∈ nodeSplitNames motherSite ∧
      ¬ Partitioned twoServers rebootBoth
        (checkForSplitSend motherRouting twoServers "mother".toList rebootBoth).1
        (checkForSplitSend motherRouting twoServers "mother".toList
          rebootBoth).2.noBootserverDevices := by
  constructor
  · decide
  · intro h
    have hfirst := h ⟨10, 0, []⟩ (by decide)
    rcases hfirst.right with ⟨sent, hsent, _⟩
    unfold motherRouting at hsent
    rw [routing_never_splits] at hsent
    simp at hsent

end Icsw.Routing
