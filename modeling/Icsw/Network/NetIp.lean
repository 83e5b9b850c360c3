import Icsw.Foundation.Program
import Icsw.Network.Arithmetic

/-!
# Saving networks and addresses

Before a network is saved, the address that has not been given is derived from the others, and the
range is checked.  An address without a network, or with one that it does not match, gets the
network with the longest prefix, or one for all addresses that is created for it.
-/

namespace Icsw.Network

open Foundation

inductive ChangeAttribute where
  | network
  | netmask
  | broadcast
  | gateway
deriving DecidableEq

/-- A network as the handler finds it.  A penalty may be no integer, a master network counts with
the identifier of its type. -/
structure NetworkInstance where
  penalty : Option Int
  networkType : Text
  slaves : Nat
  masterType : Option Text
  network : Text
  netmask : Text
  broadcast : Text
  gateway : Text
  startRange : Option Text
  endRange : Option Text
  enforceUniqueIps : Bool
  preEnforceUniqueIps : Bool
  changeAttribute : Option ChangeAttribute
  netIps : List Text

structure Addresses where
  network : Ipv4
  netmask : Ipv4
  broadcast : Ipv4
  gateway : Ipv4

def invalid {α : Type} (message : Text) : Except PyError α := .error (.validationError message)

def checkPenalty (penalty : Option Int) : Except PyError Unit :=
  match penalty with
  | none => invalid "penalty is not an integer".toList
  | some value =>
    if value < -100 ∨ value > 100 then
      invalid ("penalty (".toList ++ formatInt value ++ ") not in [-100, 100]".toList)
    else .ok ()

variable (inst : NetworkInstance)

def checkType : Except PyError Unit :=
  if inst.slaves ≠ 0 ∧ inst.networkType ≠ ['p'] then
    invalid "slave networks exists, cannot change type".toList
  else if inst.networkType ≠ ['s'] ∧ inst.masterType ≠ none then
    invalid "only slave networks can have a master".toList
  else if inst.networkType = ['s'] then
    match inst.masterType with
    | none => invalid "slave network needs a master network".toList
    | some identifier =>
      if identifier ≠ ['p'] then invalid "master network must be a production network".toList
      else .ok ()
  else .ok ()

def readAddress (key : Text) (value : Text) : Except PyError Ipv4 :=
  match Ipv4.ofText value with
  | .ok ip => .ok ip
  | .error _ => invalid (key ++ " is not an IPv4 address".toList)

def readAddresses : Except PyError Addresses := do
  let broadcast <- readAddress "broadcast".toList inst.broadcast
  let netmask <- readAddress "netmask".toList inst.netmask
  let network <- readAddress "network".toList inst.network
  let gateway <- readAddress "gateway".toList inst.gateway
  pure { network := network, netmask := netmask, broadcast := broadcast, gateway := gateway }

def deriveAddress (changeAttr : ChangeAttribute) (ipDict : Addresses) : Except PyError Addresses :=
  match changeAttr with
  | .network | .netmask => do
      let hosts <- ipDict.netmask.invert
      let network <- ipDict.network.and ipDict.netmask
      let broadcast <- hosts.or network
      pure { ipDict with broadcast := broadcast }
  | .broadcast => do
      let others <- ipDict.network.invert
      let hosts <- ipDict.broadcast.and others
      let netmask <- hosts.invert
      pure { ipDict with netmask := netmask }
  | .gateway => pure ipDict

/-- The loop over the netmasks, from the one without ones. -/
def anyMatch : Nat -> Int -> Int -> Bool
  | 0, mask, value => decide (mask = value)
  | idx + 1, mask, value => decide (mask = value) || anyMatch idx (mask + 2 ^ idx) value

def checkNetmask (netmask : Ipv4) : Except PyError Unit :=
  if anyMatch 32 0 netmask.value = true then .ok () else invalid "netmask is not valid".toList

def correctAddresses (ipDict : Addresses) : Except PyError Addresses := do
  let network <- ipDict.network.and ipDict.netmask
  let hosts <- ipDict.netmask.invert
  let place <- ipDict.gateway.and hosts
  let gateway <- place.or network
  pure { ipDict with network := network, gateway := gateway }

def toggled : Bool :=
  inst.preEnforceUniqueIps != inst.enforceUniqueIps && inst.enforceUniqueIps

/-- The addresses that are used more than once. -/
def repeated (ips : List Text) : List Text := ips.dedup.filter fun ip => decide (1 < ips.count ip)

/-- The addresses of the network are not needed any more when this has passed: the variable that
held them is in use for those of the devices. -/
def checkUnique (ipDict : Addresses) : Except PyError (Option Addresses) :=
  if toggled inst = true then
    if repeated inst.netIps ≠ [] then
      invalid ("not all IPs are unique: ".toList ++
        List.intercalate [',', ' '] ((repeated inst.netIps).map fun ip =>
          ip ++ ": used ".toList ++ formatInt (inst.netIps.count ip) ++ " times".toList))
    else .ok none
  else .ok (some ipDict)

def ignoredRange (value : Option Text) : Bool :=
  decide (value = none ∨ value = some [] ∨ value = some "0.0.0.0".toList)

def highest (ipDict : Addresses) : Except PyError Ipv4 := do
  let hosts <- ipDict.netmask.invert
  let place <- ipDict.broadcast.and hosts
  ipDict.network.or place

def checkLimits (startRange endRange : Ipv4) (ipDict : Option Addresses) :
    Except PyError (Ipv4 × Ipv4) :=
  if endRange.lt startRange = true then
    invalid ("range end ".toList ++ endRange.str ++ " is below range start ".toList ++
      startRange.str)
  else
    match ipDict with
    | none => .error .keyError
    | some ipDict =>
      if startRange.le ipDict.network = true then
        invalid ("range start ".toList ++ endRange.str ++
          " is less or equal to network ".toList ++ ipDict.network.str)
      else do
        let highest <- highest ipDict
        if endRange.ge highest = true then
          invalid ("range end ".toList ++ endRange.str ++
            " is above or equal to highest IP ".toList ++ highest.str)
        else pure (startRange, endRange)

def checkRange (ipDict : Option Addresses) : Except PyError (Option (Ipv4 × Ipv4)) :=
  if ignoredRange inst.startRange = false ∧ ignoredRange inst.endRange = false then
    match Ipv4.ofText (inst.startRange.getD []), Ipv4.ofText (inst.endRange.getD []) with
    | .ok startRange, .ok endRange => (checkLimits startRange endRange ipDict).map some
    | _, _ =>
      invalid ("start / end range ".toList ++ inst.startRange.getD [] ++ " / ".toList ++
        inst.endRange.getD [] ++ " not valid".toList)
  else .ok none

def withValues (ipDict : Option Addresses) (range : Option (Ipv4 × Ipv4)) : NetworkInstance :=
  let inst :=
    match ipDict with
    | none => inst
    | some ipDict =>
      { inst with
        network := ipDict.network.str
        netmask := ipDict.netmask.str
        broadcast := ipDict.broadcast.str
        gateway := ipDict.gateway.str }
  match range with
  | none => inst
  | some (startRange, endRange) =>
    { inst with
      startRange := some startRange.str
      endRange := some endRange.str }

def networkPreSave : Except PyError NetworkInstance := do
  checkPenalty inst.penalty
  checkType inst
  let read <- readAddresses inst
  let derived <- deriveAddress (inst.changeAttribute.getD .network) read
  checkNetmask derived.netmask
  let corrected <- correctAddresses derived
  let ipDict <- checkUnique inst corrected
  let range <- checkRange inst ipDict
  pure (withValues inst ipDict range)

structure NetworkRow where
  pk : Nat
  identifier : Text
  network : Text
  netmask : Text
  enforceUniqueIps : Bool
deriving DecidableEq

structure NetIpRow where
  pk : Nat
  ip : Text
  networkId : Nat
  device : Nat
deriving DecidableEq

/-- An address as the handler finds it, before its first save without a key. -/
structure NetIpInstance where
  pk : Option Nat
  ip : Text
  networkId : Option Nat
  device : Nat

/-- The tables that are read, and the option of the config store. -/
structure NetIpTables where
  networks : List NetworkRow
  networkTypes : List Text
  netIps : List NetIpRow
  deviceNames : Nat -> Text
  createDefaultNetwork : Bool

def freshKey (keys : List Nat) : Nat := keys.foldr max 0 + 1

def networkMatches (ipvAddr : Ipv4) (nw : NetworkRow) : Except PyError Bool := do
  let netmask <- Ipv4.ofText nw.netmask
  let masked <- ipvAddr.and netmask
  let network <- Ipv4.ofText nw.network
  pure (masked.eq network)

def matchList (ipvAddr : Ipv4) : List NetworkRow -> Except PyError (List (Int × NetworkRow))
  | [] => .ok []
  | nw :: rest => do
      let network <- Ipv4.ofText nw.network
      let netmask <- Ipv4.ofText nw.netmask
      let masked <- ipvAddr.and netmask
      let later <- matchList ipvAddr rest
      pure (if masked.eq network = true then (netmask.netmaskBits, nw) :: later else later)

section Ranked

/- The order of model instances, which the language leaves open. -/
variable (rank : NetworkRow -> Nat)

/-- The order of the tuples from the greatest on. -/
def Before (entry other : Int × NetworkRow) : Prop :=
  other.fst < entry.fst ∨ other.fst = entry.fst ∧ rank other.snd ≤ rank entry.snd

instance decidableBefore : DecidableRel (Before rank) := fun entry other =>
  inferInstanceAs (Decidable (other.fst < entry.fst ∨ _ ∧ _))

def findMatchingNetwork (ipvAddr : Ipv4) (networks : List NetworkRow) :
    Except PyError (List (Int × NetworkRow)) := do
  let matchList <- matchList ipvAddr networks
  pure (matchList.insertionSort (Before rank))

def defaultNetwork : NetworkInstance where
  penalty := some 1
  networkType := ['o']
  slaves := 0
  masterType := none
  network := "0.0.0.0".toList
  netmask := "0.0.0.0".toList
  broadcast := "255.255.255.255".toList
  gateway := "0.0.0.0".toList
  startRange := some "0.0.0.0".toList
  endRange := some "0.0.0.0".toList
  enforceUniqueIps := false
  preEnforceUniqueIps := false
  changeAttribute := none
  netIps := []

def createDefault : Program NetIpTables NetworkRow := do
  let tables <- get
  if ['o'] ∉ tables.networkTypes then throw .objectDoesNotExist
  else do
    let saved <- computed (networkPreSave defaultNetwork)
    if "all".toList ∈ tables.networks.map NetworkRow.identifier then throw .integrityError
    else do
      let row : NetworkRow :=
        { pk := freshKey (tables.networks.map NetworkRow.pk)
          identifier := "all".toList
          network := saved.network
          netmask := saved.netmask
          enforceUniqueIps := saved.enforceUniqueIps }
      set { tables with networks := tables.networks ++ [row] }
      pure row

def getDefault : Program NetIpTables NetworkRow := do
  let tables <- get
  match tables.networks.filter fun nw => decide (nw.network = "0.0.0.0".toList) with
  | [] => createDefault
  | [nw] => pure nw
  | _ => throw .multipleObjectsReturned

def nothingFound (ip : Text) : PyError :=
  .validationError ("nothing found for '".toList ++ ip ++ ['\''])

variable (inst : NetIpInstance)

/-- The network that is given, or one that is found for the address. -/
def currentNetwork (ipvAddr : Ipv4) : Program NetIpTables NetworkRow := do
  let tables <- get
  match inst.networkId with
  | some pk =>
    match tables.networks.find? fun nw => decide (nw.pk = pk) with
    | some nw => pure nw
    | none => throw .objectDoesNotExist
  | none => do
      let matchList <- computed (findMatchingNetwork rank ipvAddr tables.networks)
      match matchList with
      | first :: _ => pure first.snd
      | [] => if tables.createDefaultNetwork = true then getDefault else throw (nothingFound inst.ip)

/-- Another network for an address that does not match its network. -/
def matchingNetwork (ipvAddr : Ipv4) (nw : NetworkRow) :
    Program NetIpTables NetworkRow := do
  let tables <- get
  let matching <- computed (networkMatches ipvAddr nw)
  if matching = true then pure nw
  else do
    let matchList <- computed (findMatchingNetwork rank ipvAddr tables.networks)
    match matchList with
    | first :: _ => pure first.snd
    | [] => throw (nothingFound inst.ip)

def others (rows : List NetIpRow) : List NetIpRow :=
  rows.filter fun row => decide (some row.pk ≠ inst.pk)

def checkDevice (nw : NetworkRow) (tables : NetIpTables) : Except PyError Unit :=
  if (inst.ip, nw.pk) ∈ ((others inst tables.netIps).filter fun row =>
      decide (row.device = inst.device)).map fun row => (row.ip, row.networkId) then
    invalid ("Address ".toList ++ inst.ip ++ " already used, device ".toList ++
      tables.deviceNames inst.device)
  else .ok ()

def checkEnforced (nw : NetworkRow) (tables : NetIpTables) : Except PyError Unit :=
  if nw.enforceUniqueIps = true then
    match (others inst tables.netIps).filter fun row =>
        decide (row.networkId = nw.pk ∧ row.ip = inst.ip) with
    | [] => .ok ()
    | [present] =>
      invalid ("IP already used for ".toList ++ tables.deviceNames present.device ++
        " (enforce_unique_ips == True)".toList)
    | _ => invalid "IP already used more than once in network (force_unique_ips == True)".toList
  else .ok ()

def netIpPreSave : Program NetIpTables NetworkRow := do
  match Ipv4.ofText inst.ip with
  | .error _ => throw (.validationError "not a valid IPv4 address".toList)
  | .ok ipvAddr => do
      let current <- currentNetwork rank inst ipvAddr
      let nw <- matchingNetwork rank inst ipvAddr current
      let tables <- get
      check (checkDevice inst nw tables)
      check (checkEnforced inst nw tables)
      pure nw

def writeRow (nw : NetworkRow) (rows : List NetIpRow) : List NetIpRow :=
  let row : NetIpRow :=
    { pk := inst.pk.getD (freshKey (rows.map NetIpRow.pk))
      ip := inst.ip
      networkId := nw.pk
      device := inst.device }
  row :: rows.filter fun other => decide (other.pk ≠ row.pk)

def saveNetIp : Program NetIpTables NetworkRow := do
  let nw <- netIpPreSave rank inst
  modify fun tables => { tables with netIps := writeRow inst nw tables.netIps }
  pure nw

inductive NetIpRequest where
  | save (inst : NetIpInstance)
  | delete (pk : Nat)

def netIpStep (tables : NetIpTables) : NetIpRequest -> NetIpTables
  | .save inst => (saveNetIp rank inst).after tables
  | .delete pk => { tables with netIps := tables.netIps.filter fun row => decide (row.pk ≠ pk) }

end Ranked

/-!
## Free addresses

The search starts at the first address of the range and adds one as long as the address is used.
Only then it looks whether the range has ended.
-/

structure RangedNetwork where
  startRange : Option Text
  endRange : Option Text
  netIps : List Text

/-- `free_ip in used_ips`: an equal address with the same hash. -/
def inSet (usedIps : List Ipv4) (ip : Ipv4) : Bool :=
  usedIps.any fun other => decide (other.hash = ip.hash) && other.eq ip

def skipUsed (usedIps : List Ipv4) (offset : Ipv4) : Nat -> Ipv4 -> Except PyError Ipv4
  | 0, _ => .error .endlessLoop
  | rounds + 1, freeIp =>
    if inSet usedIps freeIp = true then do
      let next <- freeIp.add offset
      skipUsed usedIps offset rounds next
    else .ok freeIp

def getFreeIp (rounds : Nat) (nw : RangedNetwork) : Except PyError (Option Ipv4) :=
  if ignoredRange nw.startRange = false ∧ ignoredRange nw.endRange = false then do
    let usedIps <- nw.netIps.mapM Ipv4.ofText
    let offset <- Ipv4.ofText "0.0.0.1".toList
    let startRange <- Ipv4.ofText (nw.startRange.getD [])
    let freeIp <- skipUsed usedIps offset rounds startRange
    let endRange <- Ipv4.ofText (nw.endRange.getD [])
    if freeIp.gt endRange = true then .ok none else .ok (some freeIp)
  else .ok none

structure RangeOf (nw : RangedNetwork) (first last : Address) : Prop where
  startSet : ignoredRange nw.startRange = false
  endSet : ignoredRange nw.endRange = false
  startRange : Spells (nw.startRange.getD []) first
  endRange : Spells (nw.endRange.getD []) last

def Used (nw : RangedNetwork) (ip : Address) : Prop :=
  exists text, text ∈ nw.netIps ∧ Spells text ip

/-- The used texts are addresses other than the last one of all. -/
def UsedBelow (nw : RangedNetwork) : Prop :=
  forall text, text ∈ nw.netIps -> exists ip, Spells text ip ∧ ip.number < 2 ^ 32 - 1

def InRange (first last ip : Address) : Prop :=
  first.number ≤ ip.number ∧ ip.number ≤ last.number

def SmallestFree (nw : RangedNetwork) (first last : Address) (result : Option Ipv4) : Prop :=
  (exists ip, result = some (.ofAddress ip) ∧ InRange first last ip ∧ ¬ Used nw ip ∧
      forall other, InRange first last other -> ¬ Used nw other -> ip.number ≤ other.number) ∨
    (result = none ∧ forall other, InRange first last other -> Used nw other)

theorem inSet_iff {usedIps : List Ipv4} {ip : Ipv4} : inSet usedIps ip = true <-> ip ∈ usedIps := by
  unfold inSet
  rw [List.any_eq_true]
  constructor
  · rintro ⟨other, hother, hequal⟩
    rw [Bool.and_eq_true] at hequal
    have hparts : other.parts = ip.parts := of_decide_eq_true hequal.right
    rwa [← Ipv4.ext hparts]
  · intro hip
    refine ⟨ip, hip, ?_⟩
    rw [Bool.and_eq_true]
    exact ⟨decide_eq_true rfl, decide_eq_true rfl⟩

theorem add_one {ip : Address} (h : ip.number < 2 ^ 32 - 1) :
    exists next : Address, next.number = ip.number + 1 ∧
      (Ipv4.ofAddress ip).add (.ofAddress ⟨0, 0, 0, 1⟩) = .ok (.ofAddress next) := by
  have hone : (Address.mk 0 0 0 1).number = 1 := rfl
  have hless : ip.number + (Address.mk 0 0 0 1).number < 2 ^ 32 := by
    rw [hone]
    omega
  exact ⟨_, Address.number_ofNumber hless, add_ofAddress hless⟩

theorem skipUsed_ok {usedIps : List Ipv4}
    (hused : forall ip : Address, .ofAddress ip ∈ usedIps -> ip.number < 2 ^ 32 - 1) :
    forall (rounds : Nat) (ip : Address), 2 ^ 32 - ip.number ≤ rounds ->
      exists free : Address,
        skipUsed usedIps (.ofAddress ⟨0, 0, 0, 1⟩) rounds (.ofAddress ip) = .ok (.ofAddress free) ∧
          ip.number ≤ free.number ∧ .ofAddress free ∉ usedIps ∧
            forall other : Address, ip.number ≤ other.number -> other.number < free.number ->
              .ofAddress other ∈ usedIps := by
  intro rounds
  induction rounds with
  | zero =>
    intro ip hrounds
    have := ip.number_lt
    omega
  | succ rounds ih =>
    intro ip hrounds
    by_cases hip : .ofAddress ip ∈ usedIps
    · rcases add_one (hused ip hip) with ⟨next, hnext, hadd⟩
      rcases ih next (by omega) with ⟨free, hfree, hle, hnot, hbefore⟩
      refine ⟨free, ?_, by omega, hnot, ?_⟩
      · rw [skipUsed, if_pos (inSet_iff.mpr hip), hadd]
        exact hfree
      · intro other hother hless
        rcases Nat.eq_or_lt_of_le hother with hsame | hmore
        · rw [← Address.number_inj hsame]
          exact hip
        · exact hbefore other (by omega) hless
    · refine ⟨ip, ?_, Nat.le_refl _, hip, fun other hother hless => by omega⟩
      rw [skipUsed, if_neg fun h => hip (inSet_iff.mp h)]

theorem mapM_ofText_spells {texts : List Text}
    (h : forall text, text ∈ texts -> exists ip, Spells text ip) :
    exists usedIps, texts.mapM Ipv4.ofText = .ok usedIps ∧
      forall ip : Address, .ofAddress ip ∈ usedIps <-> exists text, text ∈ texts ∧ Spells text ip := by
  have hread : exists usedIps, texts.mapM Ipv4.ofText = .ok usedIps := by
    apply exists_mapM_ok
    intro text htext
    rcases h text htext with ⟨ip, hip⟩
    exact ⟨_, ofText_spells hip⟩
  rcases hread with ⟨usedIps, hread⟩
  refine ⟨usedIps, hread, fun ip => ⟨fun hip => ?_, ?_⟩⟩
  · rcases (mapM_ok_mem hread).right _ hip with ⟨text, htext, hok⟩
    rcases h text htext with ⟨other, hother⟩
    rw [ofText_spells hother] at hok
    have hsame : other = ip := octets_injective (congrArg Ipv4.parts (Except.ok.inj hok))
    exact ⟨text, htext, hsame ▸ hother⟩
  · rintro ⟨text, htext, hspells⟩
    rcases (mapM_ok_mem hread).left text htext with ⟨found, hfound, hok⟩
    rw [ofText_spells hspells] at hok
    rw [Except.ok.inj hok]
    exact hfound

/-- The search ends, and finds the smallest free address if there is one. -/
theorem getFreeIp_smallest {nw : RangedNetwork} {first last : Address}
    (hrange : RangeOf nw first last) (hused : UsedBelow nw) :
    exists rounds, forall more, rounds ≤ more ->
      exists result, getFreeIp more nw = .ok result ∧ SmallestFree nw first last result := by
  refine ⟨2 ^ 32, fun more hmore => ?_⟩
  have hspells : forall text, text ∈ nw.netIps -> exists ip, Spells text ip := by
    intro text htext
    rcases hused text htext with ⟨ip, hip, _⟩
    exact ⟨ip, hip⟩
  rcases mapM_ofText_spells hspells with ⟨usedIps, hread, hmem⟩
  have hbelow : forall ip : Address, .ofAddress ip ∈ usedIps -> ip.number < 2 ^ 32 - 1 := by
    intro ip hip
    rcases (hmem ip).mp hip with ⟨text, htext, hspell⟩
    rcases hused text htext with ⟨other, hother, hless⟩
    rwa [hspell.unique hother]
  rcases skipUsed_ok hbelow more first (by omega) with ⟨free, hfree, hfirst, hnot, hbefore⟩
  have hoffset : Ipv4.ofText "0.0.0.1".toList = .ok (.ofAddress ⟨0, 0, 0, 1⟩) := rfl
  have hsearch : getFreeIp more nw =
      if (Ipv4.ofAddress free).gt (.ofAddress last) = true then .ok none
      else .ok (some (.ofAddress free)) := by
    unfold getFreeIp
    rw [if_pos ⟨hrange.startSet, hrange.endSet⟩, hread, hoffset, ofText_spells hrange.startRange,
      ofText_spells hrange.endRange]
    show (skipUsed _ _ _ _ >>= _) = _
    rw [hfree]
    rfl
  have hgt : (Ipv4.ofAddress free).gt (.ofAddress last) = true <-> last.number < free.number :=
    lt_ofAddress last free
  rw [hsearch]
  split
  · next hover =>
      refine ⟨none, rfl, Or.inr ⟨rfl, fun other hother => (hmem other).mp ?_⟩⟩
      exact hbefore other hother.left (lt_of_le_of_lt hother.right (hgt.mp hover))
  · next hinside =>
      refine ⟨_, rfl, Or.inl ⟨free, rfl, ⟨hfirst, ?_⟩, fun hin => hnot ((hmem free).mpr hin), ?_⟩⟩
      · exact Nat.le_of_not_lt fun hless => hinside (hgt.mpr hless)
      · intro other hother hunused
        apply Nat.le_of_not_lt
        exact fun hless => hunused ((hmem other).mp (hbefore other hother.left hless))

/-- The used addresses reach into the next octet. -/
def crowded : RangedNetwork where
  startRange := some "10.0.0.254".toList
  endRange := some "10.0.1.1".toList
  netIps := ["10.0.0.254".toList, "10.0.0.255".toList, "010.0.1.0".toList]

theorem getFreeIp_crowded :
    exists rounds, forall more, rounds ≤ more ->
      exists result, getFreeIp more crowded = .ok result ∧
        SmallestFree crowded ⟨10, 0, 0, 254⟩ ⟨10, 0, 1, 1⟩ result := by
  have hrange : RangeOf crowded ⟨10, 0, 0, 254⟩ ⟨10, 0, 1, 1⟩ := by
    constructor
    case startSet => rfl
    case endSet => rfl
    case startRange => unfold Spells; rfl
    case endRange => unfold Spells; rfl
  have hused : UsedBelow crowded := by
    intro text htext
    simp only [crowded, List.mem_cons, List.not_mem_nil, or_false] at htext
    rcases htext with rfl | rfl | rfl
    · exact ⟨⟨10, 0, 0, 254⟩, by unfold Spells; rfl, by decide⟩
    · exact ⟨⟨10, 0, 0, 255⟩, by unfold Spells; rfl, by decide⟩
    · exact ⟨⟨10, 0, 1, 0⟩, by unfold Spells; rfl, by decide⟩
  exact getFreeIp_smallest hrange hused

end Icsw.Network
