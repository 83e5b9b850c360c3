import Icsw.Foundation.Bytes
import Icsw.Foundation.OnesComplement

/-!
# ICMP datagrams

What was packed with a checksum over its bytes is accepted behind every header of twenty bytes, and
is rejected as soon as one of its bits has been flipped..  The host has little-endian words.
-/

namespace Icsw.Icmp

open Foundation List

/-- What is raised when packets are packed and unpacked. -/
inductive PacketError where
  | structError
  | notImplementedError
deriving DecidableEq

/-- The format `H` in network order. -/
def packH (value : Nat) : Except PacketError Bytes :=
  if value < 65536 then .ok [UInt8.ofNat (value / 256), UInt8.ofNat (value % 256)]
  else .error .structError

/-- The format `B`. -/
def packB (value : Nat) : Except PacketError Bytes :=
  if value < 256 then .ok [UInt8.ofNat value] else .error .structError

/-- The format `h` in network order. -/
def packShort (value : Int) : Except PacketError Bytes :=
  if -32768 ≤ value ∧ value < 32768 then packH (value % 65536).toNat else .error .structError

/-- The number of two bytes in network order. -/
def unpackH (high low : UInt8) : Nat := high.toNat * 256 + low.toNat

def unpackShort (high low : UInt8) : Int :=
  let value := unpackH high low
  if value < 32768 then value else value - 65536

/-- `socket.htons` -/
def htons (value : Nat) : Nat := value % 256 * 256 + value / 256 % 256

/-- `array.array("h", data)` -/
def arrayH : Bytes -> List Int
  | low :: high :: rest =>
    let value : Nat := low.toNat + 256 * high.toNat
    (if value < 32768 then (value : Int) else value - 65536) :: arrayH rest
  | _ => []

def checksum (data : Bytes) : Nat :=
  let data := if data.length % 2 = 1 then data ++ [0] else data
  let curSum := ((arrayH data).map fun word => (word % 65536).toNat).sum
  let hi := curSum / 65536
  let lo := curSum % 65536
  let curSum := hi + lo
  let curSum := curSum + curSum / 65536
  65535 - curSum % 65536

structure IpPacket where
  ihl : Nat
  ihlversion : Nat
  tos : Nat
  totLen : Nat
  ident : Nat
  flagsFragment : Nat
  ttl : Nat
  protocol : Nat
  checksum : Nat
  srcAddr : Bytes
  dstAddr : Bytes
  payload : Bytes

namespace IpPacket

/-- The format `4s`. -/
def pack4s (text : Bytes) : Bytes := (text ++ replicate 4 0).take 4

def packed (packet : IpPacket) : Except PacketError Bytes := do
  let ihlversion <- packB packet.ihlversion
  let tos <- packB packet.tos
  let totLen <- packH packet.totLen
  let ident <- packH packet.ident
  let flagsFragment <- packH packet.flagsFragment
  let ttl <- packB packet.ttl
  let protocol <- packB packet.protocol
  let checksum <- packH packet.checksum
  return ihlversion ++ tos ++ totLen ++ ident ++ flagsFragment ++ ttl ++ protocol ++ checksum ++
    pack4s packet.srcAddr ++ pack4s packet.dstAddr ++ packet.payload

/-- A packet without options. -/
def new (srcAddr dstAddr payload : Bytes) (version tos ident : Nat)
    (dontFragment moreFragments : Bool) (fragOffset ttl protocol : Nat) :
    Except PacketError IpPacket := do
  let flagsFragment := (if dontFragment then 0x4000 else 0) + (if moreFragments then 0x2000 else 0)
  let packet := {
    ihl := 5
    ihlversion := 5 &&& (0xF0 + version)
    tos := tos
    totLen := 5 + payload.length
    ident := ident
    flagsFragment := flagsFragment + (fragOffset &&& 0x1FFF)
    ttl := ttl
    protocol := protocol
    checksum := 0
    srcAddr := srcAddr
    dstAddr := dstAddr
    payload := payload }
  let data <- packed packet
  return { packet with checksum := Icmp.checksum data }

end IpPacket

/-- `socket.inet_ntoa` -/
def inetNtoa (first second third fourth : UInt8) : Bytes :=
  let digits := fun byte : UInt8 => encodeUtf8 (Nat.toDigits 10 byte.toNat)
  let dot : UInt8 := 46
  digits first ++ dot :: digits second ++ dot :: digits third ++ dot :: digits fourth

def parseIpPacket : Bytes -> Except PacketError IpPacket
  | ihlversion :: tos :: _ :: _ :: identHigh :: identLow :: flagsHigh :: flagsLow :: ttl ::
      protocol :: _ :: _ :: src0 :: src1 :: src2 :: src3 :: dst0 :: dst1 :: dst2 :: dst3 ::
      payload =>
        let flagsFragment := unpackH flagsHigh flagsLow
        if ihlversion.toNat &&& 0x0F > 20 then .error .notImplementedError
        else IpPacket.new (inetNtoa src0 src1 src2 src3) (inetNtoa dst0 dst1 dst2 dst3) payload
          (ihlversion.toNat &&& 0xF0) tos.toNat (unpackH identHigh identLow)
          (flagsFragment &&& 0x4000 ≠ 0) (flagsFragment &&& 0x2000 ≠ 0) flagsFragment ttl.toNat
          protocol.toNat
  | _ => .error .structError

/-- What the datagrams of a type have besides the common fields. -/
inductive Content where
  | plain
  | echo (ident seqno : Int)
  | unreachable (originalIppacket : IpPacket)

structure IcmpDatagram where
  packetType : UInt8
  code : UInt8
  checksum : Nat
  data : Bytes
  content : Content

namespace IcmpDatagram

/-- The bytes over which the checksum is built. -/
def unchecked (packetType code : UInt8) (data : Bytes) : Bytes :=
  packetType :: code :: 0 :: 0 :: data

def calcChecksum (dgram : IcmpDatagram) : IcmpDatagram :=
  { dgram with checksum := Icmp.checksum (unchecked dgram.packetType dgram.code dgram.data) }

def packed (dgram : IcmpDatagram) : Except PacketError Bytes := do
  let dgram := dgram.calcChecksum
  let field <- packH (htons dgram.checksum)
  return dgram.packetType :: dgram.code :: field ++ dgram.data

def new (packetType code : UInt8) (data : Bytes) : IcmpDatagram :=
  ⟨packetType, code, 0, data, .plain⟩

end IcmpDatagram

def echoTestdata : Bytes := encodeUtf8 "icmp echo testdata".toList

def icmpEcho (code : UInt8) (data : Bytes) (ident seqno : Int) :
    Except PacketError IcmpDatagram := do
  let data := if data = [] then echoTestdata else data
  let identField <- packShort ident
  let seqnoField <- packShort seqno
  return ⟨8, code, 0, identField ++ seqnoField ++ data, .echo ident seqno⟩

def unpackEcho : Bytes -> Except PacketError Content
  | identHigh :: identLow :: seqnoHigh :: seqnoLow :: _ =>
    .ok (.echo (unpackShort identHigh identLow) (unpackShort seqnoHigh seqnoLow))
  | _ => .error .structError

def unpackAs (packetType code : UInt8) (checksum : Nat) (data : Bytes) :
    Option (Except PacketError IcmpDatagram) :=
  if packetType = 0 then
    some ((unpackEcho data).map fun content => ⟨packetType, code, checksum, data.take 8, content⟩)
  else if packetType = 3 then
    some ((parseIpPacket (data.drop 4)).map fun packet =>
      ⟨packetType, code, checksum, data, .unreachable packet⟩)
  else if packetType = 8 then
    let data := if data = [] then echoTestdata else data
    some ((unpackEcho data).map fun content => ⟨packetType, code, checksum, data.take 8, content⟩)
  else none

/-- What becomes of a datagram that is received.  All but the last end in a line of the log, or in
an exception where there is no log. -/
inductive Parsed where
  | mismatch (checksum chk : Nat)
  | unsupported (packetType : UInt8)
  | undecoded (length : Nat)
  | decoded (dgram : IcmpDatagram)

/-- What is made of a datagram with the right checksum. -/
def decode (packetType code : UInt8) (checksum : Nat) (data : Bytes) : Except PacketError Parsed :=
  match unpackAs packetType code checksum data with
  | none => .ok (.unsupported packetType)
  | some (.ok dgram) => .ok (.decoded dgram)
  | some (.error .structError) => .ok (.undecoded data.length)
  | some (.error raised) => .error raised

def parseDatagram (datagram : Bytes) : Except PacketError Parsed := do
  let packet <- parseIpPacket datagram
  match packet.payload with
  | packetType :: code :: high :: low :: data =>
    let chk := htons (checksum (IcmpDatagram.unchecked packetType code data))
    if unpackH high low ≠ chk then return .mismatch (unpackH high low) chk
    else decode packetType code (unpackH high low) data
  | _ => .error .structError

def digits (data : Bytes) : List Nat := data.map UInt8.toNat

theorem arrayH_sum (data : Bytes) (heven : data.length % 2 = 0) :
    ((arrayH data).map fun word => (word % 65536).toNat).sum = wordSum 256 (digits data) := by
  induction data using arrayH.induct with
  | case1 low high rest ih =>
    have hrest : rest.length % 2 = 0 := by
      simp only [length_cons] at heven
      omega
    have hlow := low.toNat_lt
    have hhigh := high.toNat_lt
    have hword : ((if low.toNat + 256 * high.toNat < 32768
        then ((low.toNat + 256 * high.toNat : Nat) : Int)
        else ((low.toNat + 256 * high.toNat : Nat) : Int) - 65536) % 65536).toNat =
          low.toNat + 256 * high.toNat := by
      split <;> omega
    have hsum := ih hrest
    simp only [arrayH, map_cons, sum_cons, hsum]
    exact congrArg (· + wordSum 256 (digits rest)) hword
  | case2 data hdata =>
    rcases data with _ | ⟨low, _ | ⟨high, rest⟩⟩
    · rfl
    · cases heven
    · exact absurd rfl (hdata low high rest)

theorem checksum_eq (data : Bytes) :
    checksum data = 65535 - foldCarries 65536 (wordSum 256 (digits data)) := by
  have hpadded : ((arrayH (if data.length % 2 = 1 then data ++ [0] else data)).map
      fun word => (word % 65536).toNat).sum = wordSum 256 (digits data) := by
    by_cases hodd : data.length % 2 = 1
    · have heven : (data ++ [0]).length % 2 = 0 := by
        rw [length_append, length_singleton]
        omega
      have hdigits : digits (data ++ [0]) = digits data ++ [0] := map_append
      rw [if_pos hodd, arrayH_sum _ heven, hdigits, wordSum_append_zero]
    · rw [if_neg hodd]
      exact arrayH_sum data (by omega)
  unfold checksum
  simp only [hpadded]
  rfl

theorem checksum_lt (data : Bytes) : checksum data < 65536 := by
  rw [checksum_eq]
  omega

variable {data : Bytes}

theorem wordSum_digits_lt (h : data.length < 131072) :
    wordSum 256 (digits data) < 65536 * 65536 := by
  have hdigits : forall value, value ∈ digits data -> value < 256 := by
    intro value hvalue
    rcases mem_map.mp hvalue with ⟨byte, _, rfl⟩
    exact byte.toNat_lt
  have hle := wordSum_le hdigits
  rw [digits, length_map] at hle
  have hwords : (data.length + 1) / 2 ≤ 65536 := by omega
  have hmul := Nat.mul_le_mul_right (256 * 256 - 1) hwords
  exact Nat.lt_of_le_of_lt (Nat.le_trans hle hmul) (by decide)

theorem checksum_ne_of_lt {data other : Bytes} {diff : Nat} (hdiff : 0 < diff)
    (hlt : diff < 65535) (hother : other.length < 131072)
    (hsum : wordSum 256 (digits other) = wordSum 256 (digits data) + diff) :
    checksum data ≠ checksum other := by
  have hbound := wordSum_digits_lt hother
  rw [hsum] at hbound
  have hfold := @foldCarries_ne 65536 (by decide) _ _ hdiff hlt hbound
  have hdata := @foldCarries_lt 65536 (by decide) (wordSum 256 (digits data))
  have hlast := @foldCarries_lt 65536 (by decide) (wordSum 256 (digits data) + diff)
  rw [checksum_eq, checksum_eq, hsum]
  omega

theorem checksum_set_ne {index : Nat} (hindex : index < data.length)
    (hlength : data.length < 131072) {byte : UInt8} (hne : byte ≠ data[index]) :
    checksum (data.set index byte) ≠ checksum data := by
  have hdigit : index < (digits data).length := by rwa [digits, length_map]
  have hset := @wordSum_set 256 _ _ hdigit byte.toNat
  have hdigits : digits (data.set index byte) = (digits data).set index byte.toNat := map_set
  have hget : (digits data)[index] = data[index].toNat := getElem_map _
  rw [← hdigits, hget] at hset
  have hplace : placeValue 256 index = 1 ∨ placeValue 256 index = 256 := by
    unfold placeValue
    split
    · exact Or.inl rfl
    · exact Or.inr rfl
  have hbyte := byte.toNat_lt
  have hold := data[index].toNat_lt
  have hvalue : byte.toNat ≠ data[index].toNat := fun heq => hne (UInt8.toNat_inj.mp heq)
  have hotherLength : (data.set index byte).length < 131072 := by rwa [length_set]
  generalize placeValue 256 index = place at hset hplace
  rcases Nat.lt_or_gt_of_ne hvalue with hless | hmore
  · apply @checksum_ne_of_lt _ _ (place * (data[index].toNat - byte.toNat))
    all_goals rcases hplace with rfl | rfl <;> omega
  · apply Ne.symm
    apply @checksum_ne_of_lt _ _ (place * (byte.toNat - data[index].toNat))
    all_goals rcases hplace with rfl | rfl <;> omega

def flipBit (data : Bytes) (bit : Nat) : Bytes :=
  data.modify (bit / 8) fun byte => byte ^^^ (1 <<< UInt8.ofNat (bit % 8))

theorem xor_bit_ne (byte : UInt8) (bit : Nat) : byte ^^^ (1 <<< UInt8.ofNat (bit % 8)) ≠ byte := by
  have hmask : forall k, k < 8 -> (1 <<< UInt8.ofNat k : UInt8) ≠ 0 := by decide
  intro heq
  have hzero : byte ^^^ (byte ^^^ (1 <<< UInt8.ofNat (bit % 8))) = byte ^^^ byte :=
    congrArg (byte ^^^ ·) heq
  rw [← UInt8.xor_assoc, UInt8.xor_self, UInt8.zero_xor] at hzero
  exact hmask _ (Nat.mod_lt _ (by decide)) hzero

theorem flipBit_eq_set {bit : Nat} (h : bit / 8 < data.length) :
    exists byte, byte ≠ data[bit / 8] ∧ flipBit data bit = data.set (bit / 8) byte :=
  ⟨_, xor_bit_ne data[bit / 8] bit, modify_eq_set_get _ h⟩

theorem htons_lt (value : Nat) : htons value < 65536 := by
  unfold htons
  omega

theorem htons_injective {value other : Nat} (hvalue : value < 65536) (hother : other < 65536)
    (h : htons value = htons other) : value = other := by
  unfold htons at h
  omega

variable {value : Nat}

theorem packB_ok (h : value < 256) : packB value = .ok [UInt8.ofNat value] := if_pos h

theorem packH_ok (h : value < 65536) :
    packH value = .ok [UInt8.ofNat (value / 256), UInt8.ofNat (value % 256)] := if_pos h

theorem unpackH_lt (high low : UInt8) : unpackH high low < 65536 := by
  have hhigh := high.toNat_lt
  have hlow := low.toNat_lt
  unfold unpackH
  omega

theorem unpackH_packed (h : value < 65536) :
    unpackH (UInt8.ofNat (value / 256)) (UInt8.ofNat (value % 256)) = value := by
  unfold unpackH
  rw [UInt8.toNat_ofNat', UInt8.toNat_ofNat']
  omega

theorem unpackH_high_injective {high other low : UInt8}
    (h : unpackH high low = unpackH other low) : high = other := by
  unfold unpackH at h
  exact UInt8.toNat_inj.mp (by omega)

theorem unpackH_low_injective {high low other : UInt8} (h : unpackH high low = unpackH high other) :
    low = other := by
  unfold unpackH at h
  exact UInt8.toNat_inj.mp (by omega)

variable {version tos ident fragOffset ttl protocol : Nat} {dontFragment moreFragments : Bool}

variable {srcAddr dstAddr payload : Bytes}

theorem exists_new (htos : tos < 256) (hident : ident < 65536) (httl : ttl < 256)
    (hprotocol : protocol < 256) (hpayload : 5 + payload.length < 65536) :
    exists packet, IpPacket.new srcAddr dstAddr payload version tos ident dontFragment moreFragments
      fragOffset ttl protocol = .ok packet ∧ packet.payload = payload := by
  have hversion : 5 &&& (0xF0 + version) < 256 := Nat.lt_of_le_of_lt Nat.and_le_left (by decide)
  have hfrag : fragOffset &&& 0x1FFF ≤ 0x1FFF := Nat.and_le_right
  have hflags : (if dontFragment then 0x4000 else 0) + (if moreFragments then 0x2000 else 0) +
      (fragOffset &&& 0x1FFF) < 65536 := by
    split <;> split <;> omega
  unfold IpPacket.new IpPacket.packed
  simp only [packB_ok hversion, packB_ok htos, packH_ok hpayload, packH_ok hident, packH_ok hflags,
    packB_ok httl, packB_ok hprotocol, packH_ok (show 0 < 65536 by decide)]
  exact ⟨_, rfl, rfl⟩

theorem new_too_long (htos : tos < 256) (hpayload : 65536 ≤ 5 + payload.length) :
    IpPacket.new srcAddr dstAddr payload version tos ident dontFragment moreFragments fragOffset
      ttl protocol = .error .structError := by
  have hversion : 5 &&& (0xF0 + version) < 256 := Nat.lt_of_le_of_lt Nat.and_le_left (by decide)
  have hlength : packH (5 + payload.length) = .error .structError :=
    if_neg (Nat.not_lt.mpr hpayload)
  unfold IpPacket.new IpPacket.packed
  simp only [packB_ok hversion, packB_ok htos, hlength]
  rfl

theorem exists_parse_eq {header : Bytes} (hheader : header.length = 20) (message : Bytes) :
    exists srcAddr dstAddr version tos ident fragOffset ttl protocol dontFragment moreFragments,
      tos < 256 ∧ ident < 65536 ∧ ttl < 256 ∧ protocol < 256 ∧
        parseIpPacket (header ++ message) = IpPacket.new srcAddr dstAddr message version tos ident
          dontFragment moreFragments fragOffset ttl protocol := by
  rcases header with _ | ⟨ihlversion, _ | ⟨tos, _ | ⟨_, _ | ⟨_, _ | ⟨identHigh, _ | ⟨identLow,
    _ | ⟨flagsHigh, _ | ⟨flagsLow, _ | ⟨ttl, _ | ⟨protocol, _ | ⟨_, _ | ⟨_, _ | ⟨_, _ | ⟨_,
    _ | ⟨_, _ | ⟨_, _ | ⟨_, _ | ⟨_, _ | ⟨_, _ | ⟨_, rest⟩⟩⟩⟩⟩⟩⟩⟩⟩⟩⟩⟩⟩⟩⟩⟩⟩⟩⟩⟩
  all_goals first | cases hheader | skip
  have hrest : rest = [] := by
    simp only [length_cons] at hheader
    exact length_eq_zero_iff.mp (by omega)
  subst hrest
  have hihl : ¬ (ihlversion.toNat &&& 0x0F > 20) :=
    Nat.not_lt.mpr (Nat.le_trans Nat.and_le_right (by decide))
  exact ⟨_, _, _, _, _, _, _, _, _, _, tos.toNat_lt, unpackH_lt identHigh identLow, ttl.toNat_lt,
    protocol.toNat_lt, if_neg hihl⟩

variable {message : Bytes}

theorem exists_parseIpPacket {header : Bytes} (hheader : header.length = 20)
    (hmessage : message.length ≤ 65530) :
    exists packet, parseIpPacket (header ++ message) = .ok packet ∧ packet.payload = message := by
  rcases exists_parse_eq hheader message with
    ⟨_, _, _, _, _, _, _, _, _, _, htos, hident, httl, hprotocol, hparse⟩
  rw [hparse]
  exact exists_new htos hident httl hprotocol (by omega)

theorem parseIpPacket_too_long {header : Bytes} (hheader : header.length = 20)
    (hmessage : 65530 < message.length) :
    parseIpPacket (header ++ message) = .error .structError := by
  rcases exists_parse_eq hheader message with
    ⟨_, _, _, _, _, _, _, _, _, _, htos, hident, httl, hprotocol, hparse⟩
  rw [hparse]
  exact new_too_long htos (by omega)

variable {raised : PacketError}

theorem parseIpPacket_error (h : parseIpPacket data = .error raised) : raised = .structError := by
  unfold parseIpPacket at h
  split at h
  · rename_i ihlversion tos _ _ identHigh identLow _ _ ttl protocol _ _ _ _ _ _ _ _ _ _ payload
    have hihl : ¬ (ihlversion.toNat &&& 0x0F > 20) :=
      Nat.not_lt.mpr (Nat.le_trans Nat.and_le_right (by decide))
    simp only [if_neg hihl] at h
    by_cases hpayload : 5 + payload.length < 65536
    · rcases exists_new tos.toNat_lt (unpackH_lt identHigh identLow) ttl.toNat_lt
        protocol.toNat_lt hpayload with ⟨packet, hpacket, _⟩
      rw [hpacket] at h
      cases h
    · rw [new_too_long tos.toNat_lt (Nat.not_lt.mp hpayload)] at h
      cases h
      rfl
  · cases h
    rfl

/-- The checksum test has let the datagram pass. -/
def Accepts (datagram : Bytes) : Prop :=
  exists parsed, parseDatagram datagram = .ok parsed ∧
    forall checksum chk, parsed ≠ .mismatch checksum chk

def Rejects (datagram : Bytes) : Prop :=
  exists checksum chk, parseDatagram datagram = .ok (.mismatch checksum chk)

theorem unpackEcho_error (h : unpackEcho data = .error raised) : raised = .structError := by
  unfold unpackEcho at h
  split at h
  · cases h
  · cases h
    rfl

theorem error_of_map {α β : Type} {result : Except PacketError α} {build : α -> β}
    (h : some (result.map build) = some (.error raised)) :
    result = .error raised := by
  rcases result with error | value
  · cases h
    rfl
  · cases h

theorem unpackAs_error {packetType code : UInt8} {checksum : Nat}
    (h : unpackAs packetType code checksum data = some (.error raised)) :
    raised = .structError := by
  unfold unpackAs at h
  split at h
  · exact unpackEcho_error (error_of_map h)
  · split at h
    · exact parseIpPacket_error (error_of_map h)
    · split at h
      · exact unpackEcho_error (error_of_map h)
      · cases h

theorem exists_decode (packetType code : UInt8) (checksum : Nat) (data : Bytes) :
    exists parsed, decode packetType code checksum data = .ok parsed ∧
      forall given chk, parsed ≠ .mismatch given chk := by
  unfold decode
  rcases hunpack : unpackAs packetType code checksum data with _ | ⟨raised | dgram⟩
  · exact ⟨_, rfl, nofun⟩
  · cases unpackAs_error hunpack
    exact ⟨_, rfl, nofun⟩
  · exact ⟨_, rfl, nofun⟩

theorem parseDatagram_eq {header : Bytes} (hheader : header.length = 20)
    (packetType code high low : UInt8) (hdata : data.length ≤ 65526) :
    parseDatagram (header ++ packetType :: code :: high :: low :: data) =
      if unpackH high low ≠ htons (checksum (IcmpDatagram.unchecked packetType code data)) then
        .ok (.mismatch (unpackH high low)
          (htons (checksum (IcmpDatagram.unchecked packetType code data))))
      else decode packetType code (unpackH high low) data := by
  have hlength : (packetType :: code :: high :: low :: data).length ≤ 65530 := by
    simp only [length_cons]
    omega
  rcases exists_parseIpPacket hheader hlength with ⟨packet, hpacket, hpayload⟩
  unfold parseDatagram
  rw [bind_of_ok hpacket, hpayload]
  rfl

theorem packed_eq (dgram : IcmpDatagram) :
    let chk := htons (checksum (IcmpDatagram.unchecked dgram.packetType dgram.code dgram.data))
    dgram.packed = .ok (dgram.packetType :: dgram.code :: UInt8.ofNat (chk / 256) ::
      UInt8.ofNat (chk % 256) :: dgram.data) := by
  intro chk
  have hchk : chk < 65536 := htons_lt _
  have hpacked := packH_ok hchk
  unfold IcmpDatagram.packed
  show (packH chk >>= _) = _
  rw [hpacked]
  rfl

def ChecksumDecides (header : Bytes) (dgram : IcmpDatagram) : Prop :=
  exists message, dgram.packed = .ok message ∧ Accepts (header ++ message) ∧
    forall bit, bit < 8 * message.length -> Rejects (header ++ flipBit message bit)

/-- An echo and the reply to it have the identifier and the sequence number of the request. -/
def EchoKept (header : Bytes) (dgram : IcmpDatagram) : Prop :=
  forall code data ident seqno, icmpEcho code data ident seqno = .ok dgram ->
    forall packetType, packetType = 0 ∨ packetType = 8 ->
      exists message received, { dgram with packetType := packetType }.packed = .ok message ∧
        parseDatagram (header ++ message) = .ok (.decoded received) ∧
          received.packetType = packetType ∧ received.content = .echo ident seqno

theorem packShort_eq {value : Int} {field : Bytes} (h : packShort value = .ok field) :
    exists high low, field = [high, low] ∧ unpackShort high low = value := by
  unfold packShort at h
  split at h
  · rename_i hrange
    have hlt : (value % 65536).toNat < 65536 := by omega
    cases (packH_ok hlt).symm.trans h
    refine ⟨_, _, rfl, ?_⟩
    unfold unpackShort
    rw [unpackH_packed hlt]
    dsimp only
    split <;> omega
  · cases h

theorem unpackEcho_icmpEcho {code : UInt8} {ident seqno : Int}
    {dgram : IcmpDatagram} (h : icmpEcho code data ident seqno = .ok dgram) :
    dgram.data ≠ [] ∧ unpackEcho dgram.data = .ok (.echo ident seqno) := by
  rcases exists_of_bind h with ⟨identField, hident, hrest⟩
  rcases exists_of_bind hrest with ⟨seqnoField, hseqno, hdgram⟩
  rcases packShort_eq hident with ⟨identHigh, identLow, rfl, hidentValue⟩
  rcases packShort_eq hseqno with ⟨seqnoHigh, seqnoLow, rfl, hseqnoValue⟩
  cases hdgram
  refine ⟨cons_ne_nil _ _, ?_⟩
  rw [← hidentValue, ← hseqnoValue]
  rfl

section Behind

variable {header : Bytes} (hheader : header.length = 20)
include hheader

theorem rejects_of_field_ne {packetType code high low : UInt8} (hdata : data.length ≤ 65526)
    (hfield : unpackH high low ≠ htons (checksum (IcmpDatagram.unchecked packetType code data))) :
    Rejects (header ++ packetType :: code :: high :: low :: data) := by
  have hparse := parseDatagram_eq hheader packetType code high low hdata
  rw [if_pos hfield] at hparse
  exact ⟨_, _, hparse⟩

variable {dgram : IcmpDatagram}

theorem accepted_decode (hdata : dgram.data.length ≤ 65526) :
    exists message checksum, dgram.packed = .ok message ∧
      parseDatagram (header ++ message) =
        decode dgram.packetType dgram.code checksum dgram.data := by
  let chk := htons (checksum (IcmpDatagram.unchecked dgram.packetType dgram.code dgram.data))
  have hchk : unpackH (UInt8.ofNat (chk / 256)) (UInt8.ofNat (chk % 256)) = chk :=
    unpackH_packed (htons_lt _)
  refine ⟨_, chk, packed_eq dgram, ?_⟩
  rw [parseDatagram_eq hheader _ _ _ _ hdata, if_neg (not_not_intro hchk), hchk]

theorem rejects_set (hdata : dgram.data.length ≤ 65526)
    (hmessage : dgram.packed = .ok message) {index : Nat} (hindex : index < message.length)
    {byte : UInt8} (hne : byte ≠ message[index]) :
    Rejects (header ++ message.set index byte) := by
  let bytes := IcmpDatagram.unchecked dgram.packetType dgram.code dgram.data
  let chk := htons (checksum bytes)
  have hchk : unpackH (UInt8.ofNat (chk / 256)) (UInt8.ofNat (chk % 256)) = chk :=
    unpackH_packed (htons_lt _)
  have hbytes : bytes.length < 131072 := by
    show dgram.data.length + 1 + 1 + 1 + 1 < 131072
    omega
  -- The field stays while one of the bytes that are summed up differs.
  have hsummed : forall {other : Bytes}, checksum other ≠ checksum bytes ->
      unpackH (UInt8.ofNat (chk / 256)) (UInt8.ofNat (chk % 256)) ≠ htons (checksum other) := by
    intro other hother heq
    rw [hchk] at heq
    exact hother (htons_injective (checksum_lt _) (checksum_lt _) heq.symm)
  cases (packed_eq dgram).symm.trans hmessage
  rcases index with _ | _ | _ | _ | index
  · exact rejects_of_field_ne hheader hdata
      (hsummed (@checksum_set_ne bytes 0 (Nat.succ_pos _) hbytes _ hne))
  · exact rejects_of_field_ne hheader hdata
      (hsummed (@checksum_set_ne bytes 1 (Nat.succ_lt_succ (Nat.succ_pos _)) hbytes _ hne))
  · apply rejects_of_field_ne hheader hdata
    intro heq
    exact hne (unpackH_high_injective (heq.trans hchk.symm))
  · apply rejects_of_field_ne hheader hdata
    intro heq
    exact hne (unpackH_low_injective (heq.trans hchk.symm))
  · have hset : (dgram.data.set index byte).length ≤ 65526 := by rwa [length_set]
    exact rejects_of_field_ne hheader hset
      (hsummed (@checksum_set_ne bytes (index + 4) hindex hbytes _ hne))

theorem checksumDecides (hdata : dgram.data.length ≤ 65526) : ChecksumDecides header dgram := by
  rcases accepted_decode hheader hdata with ⟨message, checksum, hmessage, hparse⟩
  refine ⟨message, hmessage, ?_, ?_⟩
  · rcases exists_decode dgram.packetType dgram.code checksum dgram.data with
      ⟨parsed, hdecode, hpassed⟩
    exact ⟨parsed, hparse.trans hdecode, hpassed⟩
  · intro bit hbit
    have hindex : bit / 8 < message.length := Nat.div_lt_of_lt_mul hbit
    rcases flipBit_eq_set hindex with ⟨byte, hne, hflip⟩
    rw [hflip]
    exact rejects_set hheader hdata hmessage hindex hne

theorem echoKept (hdata : dgram.data.length ≤ 65526) : EchoKept header dgram := by
  intro code data ident seqno hecho packetType htype
  rcases @accepted_decode _ hheader { dgram with packetType := packetType } hdata with
    ⟨message, checksum, hmessage, hparse⟩
  rcases unpackEcho_icmpEcho hecho with ⟨hnonempty, hcontent⟩
  have hdecode : exists received, decode packetType dgram.code checksum dgram.data =
      .ok (.decoded received) ∧ received.packetType = packetType ∧
        received.content = .echo ident seqno := by
    unfold decode unpackAs
    rcases htype with rfl | rfl
    · rw [if_pos rfl, hcontent]
      exact ⟨_, rfl, rfl, rfl⟩
    · rw [if_neg (by decide), if_neg (by decide), if_pos rfl]
      simp only [if_neg hnonempty, hcontent]
      exact ⟨_, rfl, rfl, rfl⟩
  rcases hdecode with ⟨received, hreceived, hkept⟩
  exact ⟨message, received, hmessage, hparse.trans hreceived, hkept⟩

end Behind

theorem not_accepts_too_long {header : Bytes} (hheader : header.length = 20)
    (hmessage : 65530 < message.length) : ¬ Accepts (header ++ message) := by
  rintro ⟨parsed, hparse, _⟩
  unfold parseDatagram at hparse
  rcases exists_of_bind hparse with ⟨packet, hpacket, _⟩
  rw [parseIpPacket_too_long hheader hmessage] at hpacket
  cases hpacket

theorem not_checksumDecides_too_long {header : Bytes} (hheader : header.length = 20)
    {dgram : IcmpDatagram} (hdata : 65526 < dgram.data.length) :
    ¬ ChecksumDecides header dgram := by
  rintro ⟨message, hmessage, haccepts, _⟩
  cases (packed_eq dgram).symm.trans hmessage
  apply not_accepts_too_long hheader _ haccepts
  simp only [length_cons]
  omega

/-- The datagrams that fit into an IP packet are accepted as they were packed and rejected with any
bit flipped, and echos keep their identifier and sequence number. -/
theorem datagrams_checked {header : Bytes} (hheader : header.length = 20) {dgram : IcmpDatagram}
    (hdata : dgram.data.length ≤ 65526) :
    ChecksumDecides header dgram ∧ EchoKept header dgram :=
  ⟨checksumDecides hheader hdata, echoKept hheader hdata⟩

/-- An echo with a payload of five bytes. -/
theorem odd_echo_checked :
    let dgram : IcmpDatagram := ⟨8, 0, 0, [0, 1, 0, 33, 97], .echo 1 33⟩
    icmpEcho 0 [97] 1 33 = .ok dgram ∧ ChecksumDecides (List.replicate 20 0) dgram ∧
      EchoKept (List.replicate 20 0) dgram :=
  ⟨rfl, datagrams_checked (by decide) (by decide)⟩

theorem long_payload_not_accepted :
    ¬ forall header : Bytes, header.length = 20 -> forall dgram : IcmpDatagram,
      dgram.data.length ≤ 65535 -> ChecksumDecides header dgram ∧ EchoKept header dgram := by
  intro h
  let data : Bytes := List.replicate 65527 0
  have hdata : data.length = 65527 := length_replicate
  have hchecked := h (List.replicate 20 0) length_replicate (.new 13 7 data)
    (Nat.le_trans (Nat.le_of_eq hdata) (by decide))
  exact not_checksumDecides_too_long length_replicate
    (Nat.lt_of_lt_of_eq (by decide) hdata.symm) hchecked.left

end Icsw.Icmp
