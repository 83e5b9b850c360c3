import Icsw.Foundation.Bytes
import Icsw.Foundation.Regex
import Icsw.Network.NetIp

/-!
# Types of network devices

A network device gets the type whose pattern matches its name, or one that is created from the name
and the MAC address; its MAC addresses are compared with the number of bytes of the type.
-/

namespace Icsw.Network

open Foundation

structure ReLibrary where
  leftOpen : Text -> Option (Text -> Bool)
  exceptInfo : Text -> Text

def ReLibrary.compile (re : ReLibrary) (pattern : Text) : Option (Text -> Bool) :=
  Regex.compile re.leftOpen pattern

/-- The format is a byte string, which takes ASCII characters only. -/
def formatAscii (before value after : Text) : Except PyError Text :=
  if asciiChars value = true then .ok (before ++ value ++ after)
  else .error .unicodeEncodeError

structure NetworkDeviceType where
  pk : Nat
  identifier : Text
  nameRe : Text
  description : Text
  macBytes : Nat
  allowVirtualInterfaces : Bool
  forMatching : Bool
  autoCreated : Bool
deriving DecidableEq

namespace NetworkDeviceType

/-- `match` -/
def matchName (re : ReLibrary) (ndt : NetworkDeviceType) (devname : Text) : Except PyError Bool :=
  let mName :=
    if ndt.allowVirtualInterfaces = true ∧ devname.count ':' = 1 then
      devname.takeWhile fun c => c != ':'
    else devname
  match re.compile ndt.nameRe with
  | none => .error .reError
  | some accepts => .ok (accepts mName)

def identifierRe : Text := "^[a-zA-Z0-9\\-]+$".toList

/-- `network_device_type_pre_save` -/
def preSave (re : ReLibrary) (ndt : NetworkDeviceType) : Except PyError NetworkDeviceType :=
  if strip ndt.identifier = [] then invalid "identifer must not be empty".toList
  else
    match re.compile identifierRe with
    | none => .error .reError
    | some accepts =>
      if accepts ndt.identifier = false then do
        let message <- formatAscii "identifier '".toList ndt.identifier
          "' contains illegal characters".toList
        invalid message
      else do
        let nameRe <-
          if ndt.nameRe.head? = some '^' then .ok ndt.nameRe else formatAscii ['^'] ndt.nameRe []
        let nameRe <-
          if nameRe.getLast? = some '$' then .ok nameRe else formatAscii [] nameRe ['$']
        if (re.compile nameRe).isNone = true then do
          let message <- formatAscii "invalid re '".toList nameRe
            ("': ".toList ++ re.exceptInfo nameRe)
          invalid message
        else if ndt.macBytes < 6 ∨ 24 < ndt.macBytes then
          invalid ("mac_bytes (".toList ++ formatInt ndt.macBytes ++ ") not in [6, 24]".toList)
        else .ok { ndt with nameRe := nameRe }

/-- The handler, and then the columns of the table. -/
def save (re : ReLibrary) (ndts : List NetworkDeviceType) (ndt : NetworkDeviceType) :
    Except PyError NetworkDeviceType := do
  let ndt <- ndt.preSave re
  if 48 < ndt.identifier.length ∨ 128 < ndt.nameRe.length ∨ 192 < ndt.description.length then
    .error .dataError
  else if ndts.any (fun other => other.identifier == ndt.identifier) = true then
    .error .integrityError
  else .ok ndt

end NetworkDeviceType

structure MasterNetdevice where
  pk : Nat
  masterDeviceId : Option Nat

structure Netdevice where
  pk : Option Nat
  devname : Text
  macaddr : Text
  fakeMacaddr : Text
  mtu : Int
  forceNetworkDeviceTypeMatch : Bool
  networkDeviceTypeId : Option Nat
  vlanId : Option Int
  penalty : Option Int
  masterDevice : Option MasterNetdevice
  netdeviceSpeedId : Option Nat

/-- `re.split("\d+", devname)` -/
def splitDigits : Text -> List Text
  | [] => [[]]
  | c :: rest =>
    if Regex.isDigit c = true then
      if rest.head?.any Regex.isDigit = true then splitDigits rest else [] :: splitDigits rest
    else (splitDigits rest).modifyHead (c :: ·)

def colons (macaddr : Text) : Text := macaddr.map fun c => if c = '-' then ':' else c

def autogenName (genIdx : Nat) : Text := "autogen-".toList ++ formatInt genIdx

/-- The loop over the indices from one of them on, with a bound for its rounds. -/
def nextName (genNames : List Text) : Nat -> Nat -> Except PyError Text
  | 0, _ => .error .endlessLoop
  | rounds + 1, genIdx =>
    if autogenName genIdx ∈ genNames then nextName genNames rounds (genIdx + 1)
    else .ok (autogenName genIdx)

def newNameRe (devname : Text) : Text :=
  '^' :: (List.intercalate "\\d+".toList (splitDigits devname) ++ ['$'])

def macBytesOf (macaddr : Text) : Nat :=
  if macaddr ≠ [] then (colons macaddr).count ':' + 1 else 6

def createNewType (re : ReLibrary) (ndts : List NetworkDeviceType) (ndev : Netdevice) :
    Except PyError NetworkDeviceType := do
  let newRe <- formatAscii ['^'] (List.intercalate "\\d+".toList (splitDigits ndev.devname)) ['$']
  let macBytes := min 6 (macBytesOf ndev.macaddr)
  let genNames := (ndts.map NetworkDeviceType.identifier).filter fun name =>
    "autogen-".toList.isPrefixOf name
  let newName <- nextName genNames (genNames.length + 1) 1
  let description <- formatAscii "autogenerated from '".toList ndev.devname ['\'']
  let newNdt : NetworkDeviceType :=
    { pk := freshKey (ndts.map NetworkDeviceType.pk)
      identifier := newName
      nameRe := newRe
      description := description
      macBytes := macBytes
      allowVirtualInterfaces := false
      forMatching := true
      autoCreated := true }
  newNdt.save re ndts

/-- The tables that are read, the names of the other network devices of the device, the order of
types of equal length, and the option of the config store. -/
structure NetdeviceTables where
  ndts : List NetworkDeviceType
  ndNames : List Text
  rank : NetworkDeviceType -> Nat
  defaultSpeed : Option Nat
  createNetworkDeviceTypes : Bool

def matchingTypes (re : ReLibrary) (devname : Text) :
    List NetworkDeviceType -> Except PyError (List NetworkDeviceType)
  | [] => .ok []
  | ndt :: rest =>
    if ndt.forMatching = true then do
      let isMatch <- ndt.matchName re devname
      let matched <- matchingTypes re devname rest
      return if isMatch = true then ndt :: matched else matched
    else matchingTypes re devname rest

def findMatchingNetworkDeviceType (re : ReLibrary) (tables : NetdeviceTables) (devname : Text) :
    Except PyError (Option NetworkDeviceType) := do
  let matchList <- matchingTypes re devname tables.ndts
  return (matchList.insertionSort fun ndt other =>
    ndt.nameRe.length < other.nameRe.length ∨
      (ndt.nameRe.length = other.nameRe.length ∧ tables.rank ndt ≤ tables.rank other)).head?

def chooseType (re : ReLibrary) (tables : NetdeviceTables) (inst : Netdevice) :
    Except PyError NetworkDeviceType :=
  if inst.forceNetworkDeviceTypeMatch = true then do
    let ndType <- findMatchingNetworkDeviceType re tables inst.devname
    match ndType with
    | some ndType => return ndType
    | none =>
      if tables.createNetworkDeviceTypes = true then createNewType re tables.ndts inst
      else do
        let key :=
          match inst.pk with
          | some pk => formatInt pk
          | none => "new nd".toList
        let message <- formatAscii "nothing found for '".toList inst.devname
          ("' (".toList ++ key ++ [')'])
        invalid message
  else
    match inst.networkDeviceTypeId with
    | some pk =>
      match tables.ndts.find? fun ndt => ndt.pk == pk with
      | some ndt => .ok ndt
      | none => .error .objectDoesNotExist
    | none =>
      match (tables.ndts.filter fun ndt => !ndt.forMatching).head? with
      | some ndt => .ok ndt
      | none => .error .indexError

def isHex (c : Char) : Bool := Regex.isDigit c || (decide ('a' ≤ c) && decide (c ≤ 'f'))

/-- `int(text, 16)` -/
def intBase16 (text : Text) : Option Int :=
  let body := strip text
  let isNegative := decide (body.head? = some '-')
  let unsigned := if body.head? = some '-' ∨ body.head? = some '+' then body.tail else body
  let digits :=
    if unsigned.take 2 = ['0', 'x'] ∨ unsigned.take 2 = ['0', 'X'] then unsigned.drop 2
    else unsigned
  let value : Option Nat := digits.foldlM (fun value c =>
    ((Regex.hexValue c).or (digitValue c)).map fun digit => 16 * value + digit) 0
  if digits = [] then none
  else value.map fun value => if isNegative = true then -Int.ofNat value else Int.ofNat value

/-- `[0-9a-f]{2}` -/
def pairRest : Text -> Option Text
  | high :: low :: rest => if isHex high = true ∧ isHex low = true then some rest else none
  | _ => none

/-- A number of pairs with a colon between them. -/
def pairsRest : Nat -> Text -> Option Text
  | 0, text => some text
  | 1, text => pairRest text
  | macBytes + 2, text =>
    match pairRest text with
    | some (':' :: rest) => pairsRest (macBytes + 1) rest
    | _ => none

/-- `mac_re.match(text)`: a newline may follow. -/
def macReMatch (macBytes : Nat) (text : Text) : Bool :=
  decide (pairsRest macBytes text = some [] ∨ pairsRest macBytes text = some ['\n'])

def dummyMac (macBytes : Nat) : Text :=
  List.intercalate [':'] (List.replicate macBytes ['0', '0'])

def lowerColons (macaddr : Text) : Text := (colons macaddr).map Char.toLower

/-- An address that is not set becomes the one of zeros. -/
def fillMac (macBytes : Nat) (before macaddr : Text) : Except PyError Text :=
  if strip macaddr = [] then .ok (dummyMac macBytes)
  else
    match intBase16 (macaddr.filter fun c => c != ':') with
    | none => do
        let message <- formatAscii before macaddr "' has illegal format".toList
        invalid message
    | some value => .ok (if value = 0 then dummyMac macBytes else macaddr)

def macReText (macBytes : Nat) : Text :=
  '^' :: (List.intercalate [':'] (List.replicate macBytes "[0-9a-f]\x7b2\x7d".toList) ++ ['$'])

/-- The two addresses, when they fit the number of bytes. -/
def checkMacs (macBytes : Nat) (macaddr fakeMacaddr : Text) : Except PyError (Text × Text) := do
  let macaddr <- fillMac macBytes "MACaddress '".toList macaddr
  let fakeMacaddr <- fillMac macBytes "fake MACaddress '".toList fakeMacaddr
  if macReMatch macBytes macaddr = false then do
    let message <- formatAscii "MACaddress '".toList macaddr
      ("' has illegal format for RE '".toList ++ macReText macBytes ++ ['\''])
    invalid message
  else if macReMatch macBytes fakeMacaddr = false then do
    let message <- formatAscii "fake MACaddress '".toList fakeMacaddr "' has illegal format".toList
    invalid message
  else return (macaddr, fakeMacaddr)

def isValidationError : PyError -> Bool
  | .validationError _ => true
  | _ => false

/-- The addresses that are saved, with the other message where the type has changed. -/
def savedMacs (ndt : NetworkDeviceType) (inst : Netdevice) : Except PyError (Text × Text) :=
  if inst.forceNetworkDeviceTypeMatch = true then
    match checkMacs ndt.macBytes (lowerColons inst.macaddr) (lowerColons inst.fakeMacaddr) with
    | .ok macs => .ok macs
    | .error raised =>
      if isValidationError raised = true ∧ inst.networkDeviceTypeId ≠ some ndt.pk then
        invalid ("NetworkDeviceType has changed and so the MAC-format has changed to '".toList ++
          dummyMac ndt.macBytes ++ ['\''])
      else .error raised
  else .ok (inst.macaddr, inst.fakeMacaddr)

def checkMaster (inst : Netdevice) : Except PyError Unit :=
  match inst.masterDevice with
  | none => .ok ()
  | some master =>
    if inst.vlanId.getD 0 = 0 then invalid "VLAN id cannot be zero".toList
    else if inst.pk = some master.pk then invalid "cannot be my own VLAN master".toList
    else if master.masterDeviceId.getD 0 ≠ 0 then invalid "cannot chain VLAN devices".toList
    else .ok ()

def chooseSpeed (tables : NetdeviceTables) (inst : Netdevice) : Except PyError Nat :=
  match inst.netdeviceSpeedId.or tables.defaultSpeed with
  | some speed => .ok speed
  | none => .error .objectDoesNotExist

/-- The name as it is saved. -/
def Netdevice.cut (inst : Netdevice) : Netdevice := { inst with devname := inst.devname.take 63 }

def netdevicePreSave (re : ReLibrary) (tables : NetdeviceTables) (inst : Netdevice) :
    Except PyError Netdevice := do
  let inst := inst.cut
  if strip inst.devname = [] then invalid "devname can not be empty".toList
  else if inst.mtu < 0 ∨ 65536 < inst.mtu then
    invalid ("mtu (".toList ++ formatInt inst.mtu ++ ") not in [0, 65536]".toList)
  else if inst.devname ∈ tables.ndNames then do
    let message <- formatAscii "devname '".toList inst.devname "' already used".toList
    invalid message
  else do
    let ndt <- chooseType re tables inst
    match inst.penalty with
    | none => invalid "penalty is not an integer".toList
    | some _ => do
        let (macaddr, fakeMacaddr) <- savedMacs ndt inst
        checkMaster inst
        let speed <- chooseSpeed tables inst
        return { inst with
          networkDeviceTypeId := some ndt.pk
          vlanId := some (inst.vlanId.getD 0)
          macaddr := macaddr
          fakeMacaddr := fakeMacaddr
          netdeviceSpeedId := some speed }

end Icsw.Network
