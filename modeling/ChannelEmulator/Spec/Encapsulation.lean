import ChannelEmulator.Spec.EncapsulationPacket

/-!
# Encapsulation

The packet classes of `lib/EncapsulationPacket.hpp`, with the fields that `build` sets, and
`modules/CCSDS/modEncapPkt_Add.cpp` and `modEncapPkt_Remove.cpp`, with the outputs connected.
-/

namespace ChannelEmulator.Encap

/-! ## Fields -/

def maxProtocolID : ℕ := 7
def maxLengthOfLength : ℕ := 3
def maxUserDefinedField : ℕ := 0xF
def maxProtocolIDExtension : ℕ := 0xF

/-- `getProtocolID`. -/
def getProtocolID (u : Bytes) : Except Fault ℕ := do
  let first ← octetAt u 0
  return first.toNat / 4 % 8

/-- `getLengthOfLength`. -/
def getLengthOfLength (u : Bytes) : Except Fault ℕ := do
  let first ← octetAt u 0
  return first.toNat % 4

/-- `setFrontOctet_`. -/
def setFrontOctet (u : Bytes) (protocolId lengthOfLength : ℕ) : Except Fault Bytes :=
  storeAt u 0 [UInt8.ofNat (0xE0 + protocolId % 8 * 4 + lengthOfLength % 4)]

/-- `setPacketVersionNumber`. -/
def setPacketVersionNumber (u : Bytes) : Except Fault Bytes := do
  let first ← octetAt u 0
  storeAt u 0 [first ||| 0xE0]

/-- `setProtocolID`. -/
def setProtocolID (u : Bytes) (newProtID : ℕ) : Except Fault Bytes :=
  if newProtID ≤ maxProtocolID then do
    let lengthOfLength ← getLengthOfLength u
    setFrontOctet u newProtID lengthOfLength
  else .error (.valueTooLarge (valueTooLargeMsg "Protocol ID" newProtID maxProtocolID))

/-- `setLengthOfLength`. -/
def setLengthOfLength (u : Bytes) (newLoL : ℕ) : Except Fault Bytes :=
  if newLoL ≤ maxLengthOfLength then do
    let protocolId ← getProtocolID u
    setFrontOctet u protocolId newLoL
  else .error (.valueTooLarge (valueTooLargeMsg "Length of Length" newLoL maxLengthOfLength))

/-- `hasUserDefinedField` and `hasProtocolIDExtension`, of a Length of Length. -/
def hasUserDefinedField (lengthOfLength : ℕ) : Bool := 1 < lengthOfLength

/-- `hasCssdsDefinedField`. -/
def hasCssdsDefinedField (lengthOfLength : ℕ) : Bool := lengthOfLength = 3

/-- `hasPacketLength` and `hasData`. -/
def hasPacketLength (lengthOfLength : ℕ) : Bool := 0 < lengthOfLength

def hasData (lengthOfLength : ℕ) : Bool := 0 < lengthOfLength

/-- `setUserDefinedField`, of a packet that has the field. -/
def setUserDefinedField (u : Bytes) (newUDF : ℕ) : Except Fault Bytes :=
  if newUDF ≤ maxUserDefinedField then do
    let b ← octetAt u 1
    storeAt u 1 [UInt8.ofNat (newUDF * 16 + b.toNat % 16)]
  else .error (.valueTooLarge (valueTooLargeMsg "User Defined" newUDF maxUserDefinedField))

/-- `setProtocolIDExtension`, of a packet that has the field. -/
def setProtocolIDExtension (u : Bytes) (newProtIDExt : ℕ) : Except Fault Bytes :=
  if newProtIDExt ≤ maxProtocolIDExtension then do
    let b ← octetAt u 1
    storeAt u 1 [UInt8.ofNat (b.toNat / 16 * 16 + newProtIDExt)]
  else .error (.valueTooLarge
    (valueTooLargeMsg "Protocol ID Extension" newProtIDExt maxProtocolIDExtension))

/-- `setCssdsDefinedField`, of a packet that has the field. -/
def setCssdsDefinedField (u : Bytes) (newCDF : ℕ) : Except Fault Bytes :=
  storeAt u 2 (fromU16 newCDF)

/-- `setPacketLength`, of a value of 32 bits. -/
def setPacketLength (u : Bytes) (newPacketLen : ℕ) : Except Fault Bytes := do
  match ← getLengthOfLength u with
  | 0 => .error (.missingField (missingFieldMsg "Encapsulation Packet" "Packet Length"))
  | 1 =>
    if newPacketLen ≤ 0xFF then storeAt u 1 [UInt8.ofNat newPacketLen]
    else .error (.valueTooLarge (valueTooLargeMsg "Packet Length" newPacketLen 0xFF))
  | 2 =>
    if newPacketLen ≤ 0xFFFF then storeAt u 2 (fromU16 newPacketLen)
    else .error (.valueTooLarge (valueTooLargeMsg "Packet Length" newPacketLen 0xFFFF))
  | _ => storeAt u 4 (fromU32 newPacketLen)

/-! ## The Internet Protocol Extension -/

/-- `IPv4_Datagram`, of the IPE header values. -/
def ipv4Datagram : ℕ := 33
def ipv6Datagram : ℕ := 87

/-- `InternetProtocolExtenstion` and `IPv4`, of the protocol identifiers with and without support
of the IPE. -/
def internetProtocolExtension : ℕ := 2
def protocolIPv4 : ℕ := 2
def protocolIPv6 : ℕ := 4
def arbitraryAggregationsOfOctets : ℕ := 7

/-- `properIPE`, of a value of 64 bits. -/
def properIPE (testIPE : ℕ) : Bool := testIPE &&& 0x0101010101010101 = 1

/-- `calcIPEOctets`, of a value of as many octets at most. -/
def countOctets : ℕ → ℕ → ℕ
  | 0, _ => 1
  | octets + 1, n => if n / 256 = 0 then 1 else countOctets octets (n / 256) + 1

def calcIPEOctets (testIPE : ℕ) : ℕ := countOctets 7 testIPE

/-- The loop of `setIPE`: the octets of a value, the most significant first. -/
def ipeOctets : ℕ → ℕ → Bytes
  | 0, _ => []
  | octets + 1, n => if n = 0 then [] else ipeOctets octets (n / 256) ++ [UInt8.ofNat n]

/-- `EncapsulationPacketWithIPE` and `EncapsulationPacketPreIPE`. -/
inductive PacketClass
  | withIPE
  | preIPE
deriving DecidableEq, Repr

/-- `hasIPE`. -/
def hasIPE (k : PacketClass) (u : Bytes) : Except Fault Bool :=
  match k with
  | .preIPE => .ok false
  | .withIPE => do
    let protocolId ← getProtocolID u
    return protocolId = internetProtocolExtension

/-- `setIPE`, of a packet that has one. -/
def setIPE (u : Bytes) (newIPE : ℕ) : Except Fault Bytes :=
  if !properIPE newIPE then
    .error (.badValue (badValueMsg "Internet Protocol Extension" newIPE))
  else do
    let first ← octetAt u 0
    copyUnit u (getHeaderOctets first) (ipeOctets 8 newIPE)

/-- The loop of `countIPEOctets`, from octet `count` of the IPE on. The count is of type `unsigned short`:
behind 65535 it starts over, at octets it has seen. -/
def countLoop (header unitLength : ℕ) : ℕ → Bytes → Except Fault ℕ
  | _, [] => .error .outOfBounds
  | count, b :: rest =>
    if b.toNat % 2 = 1 then .ok ((count + 1) % 65536)
    else if header + count + 1 > unitLength then .error (.ndError
      "countIPEOctets() attempted to search beyond the end-of-packet, IPE set incorrectly?")
    else if count = 65535 then .error .diverges
    else countLoop header unitLength (count + 1) rest

/-- `countIPEOctets`. -/
def countIPEOctets (k : PacketClass) (u : Bytes) : Except Fault ℕ := do
  if ← hasIPE k u then do
    let first ← octetAt u 0
    countLoop (getHeaderOctets first) u.length 0 (u.drop (getHeaderOctets first))
  else return 0

/-- The loop of `getIPE`, from octet `idx` of the IPE on. The index is of type `short`: behind 32767 it is
negative, in front of the unit. -/
def ipeLoop (header unitLength : ℕ) : ℕ → ℕ → Bytes → Except Fault ℕ
  | _, _, [] => .error .outOfBounds
  | idx, aggregate, b :: rest =>
    if b.toNat % 2 = 1 then .ok (aggregate + b.toNat)
    else if header + idx + 1 > unitLength then .error (.ndError
      "getIPE() attempted to search beyond the end-of-packet, IPE set incorrectly?")
    else if idx = 32767 then .error .outOfBounds
    else ipeLoop header unitLength (idx + 1) ((aggregate + b.toNat) * 256 % 2 ^ 64) rest

/-- `getIPE`, of a packet that has one. -/
def getIPE (u : Bytes) : Except Fault ℕ := do
  let first ← octetAt u 0
  ipeLoop (getHeaderOctets first) u.length 0 0 (u.drop (getHeaderOctets first))

/-- `getIPE`, of any packet of the class that supports the IPE. -/
def getIPEIfAny (u : Bytes) : Except Fault ℕ := do
  if ← hasIPE .withIPE u then getIPE u
  else .error (.missingField (missingFieldMsg "Encapsulation Packet" "Internet Protocol Extension"))

/-! ## The data field -/

/-- `ptrData`, as an offset. -/
def ptrData (k : PacketClass) (u : Bytes) : Except Fault ℕ := do
  let first ← octetAt u 0
  if hasData (first.toNat % 4) then do
    let ipe ← countIPEOctets k u
    return getHeaderOctets first + ipe
  else .error (.missingField (missingFieldMsg "Encapsulation Packet" "Data"))

/-- `getDataLength`, of type `size_t`. -/
def getDataLength (k : PacketClass) (u : Bytes) : Except Fault ℕ := do
  let first ← octetAt u 0
  let ipe ← countIPEOctets k u
  return (u.length + 2 ^ 64 - getHeaderOctets first - ipe) % 2 ^ 64

/-- `setData`, without a change of size. -/
def setData (k : PacketClass) (u data : Bytes) : Except Fault Bytes := do
  let dataLength ← getDataLength k u
  if data.length ≤ dataLength then do
    let start ← ptrData k u
    copyUnit u start data
  else .error (.bufferOverflow (bufferOverflowMsg "Data Field" data.length dataLength))

/-- `wrapInnerPDU`. -/
def wrapInnerPDU (k : PacketClass) (u : Bytes) : Except Fault Bytes := do
  let pduSize ← getDataLength k u
  let pduStart ← ptrData k u
  if u.length < pduStart + pduSize then .error .outOfBounds
  else return (u.drop pduStart).take pduSize

/-- The fields of the header that `build` sets first. -/
structure HeaderFields where
  protID : ℕ
  newLoL : ℕ
  UDF : ℕ
  protIDExt : ℕ
  ccsdsDefinedField : ℕ
deriving DecidableEq, Repr

/-- `build`, up to the CCSDS Defined Field. -/
def setHeader (u : Bytes) (f : HeaderFields) : Except Fault Bytes := do
  let u ← setPacketVersionNumber u
  let u ← setProtocolID u f.protID
  let u ← setLengthOfLength u f.newLoL
  let u ← if hasUserDefinedField f.newLoL then setUserDefinedField u f.UDF else pure u
  let u ← if hasUserDefinedField f.newLoL then setProtocolIDExtension u f.protIDExt else pure u
  if hasCssdsDefinedField f.newLoL then setCssdsDefinedField u f.ccsdsDefinedField else pure u

/-- The IPE, of a packet that has one and of a value. -/
def buildIPE (k : PacketClass) (u : Bytes) (ipe : ℕ) : Except Fault Bytes := do
  if (← hasIPE k u) && decide (0 < ipe) then setIPE u ipe else return u

/-- `build` of both classes, with the packet length left to it. Without support of the IPE, `ipe`
is 0. -/
def build (k : PacketClass) (f : HeaderFields) (data : Bytes) (ipe : ℕ) : Except Fault Bytes := do
  let ipeLen := if 0 < ipe then calcIPEOctets ipe else 0
  let u := newUnit (getHeaderOctets (UInt8.ofNat f.newLoL) + ipeLen + data.length)
  let u ← setHeader u f
  let u ← buildIPE k u ipe
  let u ← if hasData f.newLoL then setData k u data else pure u
  if hasPacketLength f.newLoL then setPacketLength u (u.length % 2 ^ 32) else pure u

/-! ## `modEncapPkt_Add` -/

/-- The types of data that have an IPE header value of their own, and all other data. -/
inductive DataType
  | networkData
  | ipv4Packet
  | ipv4UdpDatagram
deriving DecidableEq, Repr

/-- `getIPE_Header_Val`, where it is not -1. -/
def DataType.getIPEHeaderVal : DataType → Option ℕ
  | networkData => none
  | ipv4Packet => some 0x21
  | ipv4UdpDatagram => some 0x21

structure Data where
  type : DataType
  octets : Bytes
deriving DecidableEq, Repr

/-- A packet as it is handed on. -/
structure Packet where
  cls : PacketClass
  octets : Bytes
deriving DecidableEq, Repr

def unsetIpeVal : ℕ := 2
def unsetProtocolVal : ℕ := 0xFF

/-- The settings of `modEncapPkt_Add`, as its setters admit them. -/
structure AddSetting where
  ipeSupport : Bool
  ipe : ℕ
  protocol : ℕ
  lengthOfLength : ℕ
  userDefinedField : ℕ
  protocolIdExt : ℕ
  ccsdsDefinedField : ℕ
  ipe_ok : ipe = unsetIpeVal ∨ properIPE ipe = true ∧ ipe < 2 ^ 64
  protocol_ok : protocol ≤ 7 ∨ protocol = unsetProtocolVal
  lengthOfLength_ok : lengthOfLength ≤ 3
  userDefinedField_ok : userDefinedField ≤ 0xF
  protocolIdExt_ok : protocolIdExt ≤ 0xF
  ccsdsDefinedField_ok : ccsdsDefinedField < 2 ^ 16

/-- `_pickProtocol`. -/
def AddSetting.pickProtocol (c : AddSetting) (autoVal : ℕ) : ℕ :=
  if c.protocol = unsetProtocolVal then autoVal else c.protocol

/-- The class, the protocol and the IPE value of the packet for some data. -/
def AddSetting.select (c : AddSetting) (data : Data) : PacketClass × ℕ × ℕ :=
  if c.ipeSupport then
    if c.ipe ≠ unsetIpeVal then (.withIPE, c.pickProtocol internetProtocolExtension, c.ipe)
    else match data.type.getIPEHeaderVal with
      | none => (.withIPE, c.pickProtocol arbitraryAggregationsOfOctets, 0)
      | some val => (.withIPE, c.pickProtocol internetProtocolExtension, val)
  else match data.type.getIPEHeaderVal with
    | none => (.preIPE, c.pickProtocol arbitraryAggregationsOfOctets, 0)
    | some val =>
      if val = ipv4Datagram then (.preIPE, c.pickProtocol protocolIPv4, 0)
      else if val = ipv6Datagram then (.preIPE, c.pickProtocol protocolIPv6, 0)
      else (.preIPE, unsetProtocolVal, 0)

/-- The header fields of a packet of some protocol. -/
def AddSetting.fields (c : AddSetting) (protocol : ℕ) : HeaderFields where
  protID := protocol
  newLoL := c.lengthOfLength
  UDF := c.userDefinedField
  protIDExt := c.protocolIdExt
  ccsdsDefinedField := c.ccsdsDefinedField

/-- `modEncapPkt_Add::svc`, for one unit of data. -/
def add (c : AddSetting) (data : Data) : Except Fault Packet := do
  let (cls, protocol, ipe) := c.select data
  let u ← build cls (c.fields protocol) data.octets ipe
  return ⟨cls, u⟩

/-! ## `modEncapPkt_Remove` -/

/-- Whether the packet is taken for one with an IPv4 datagram. -/
def carriesIPv4 (p : Packet) : Except Fault Bool :=
  match p.cls with
  | .withIPE => do
    if ← hasIPE .withIPE p.octets then do
      let ipe ← getIPE p.octets
      return ipe = ipv4Datagram
    else return false
  | .preIPE => do
    let protocolId ← getProtocolID p.octets
    return protocolId = protocolIPv4

/-- `UDP`, of the protocol types of an IPv4 packet; the type is in octet 9. -/
def protocolTypeUDP : Octet := 17

/-- The data of a packet. With no data field, a null pointer is sent. -/
def removeHeader (p : Packet) (lengthOfLength : ℕ) : Except Fault Data := do
  if ← carriesIPv4 p then do
    let data ← wrapInnerPDU p.cls p.octets
    let protocol ← octetAt data 9
    if protocol = protocolTypeUDP then do
      let data ← wrapInnerPDU p.cls p.octets
      return ⟨.ipv4UdpDatagram, data⟩
    else return ⟨.ipv4Packet, data⟩
  else if hasData lengthOfLength then do
    let data ← wrapInnerPDU p.cls p.octets
    return ⟨.networkData, data⟩
  else .error .nullPointer

/-- `modEncapPkt_Remove::svc`, for one packet; what it drops gives nothing. -/
def remove (ipeSupport : Bool) (p : Packet) : Except Fault (Option Data) :=
  if p.cls ≠ (if ipeSupport then .withIPE else .preIPE) then .ok none
  else do
    let lengthOfLength ← getLengthOfLength p.octets
    if hasPacketLength lengthOfLength then do
      let packetLength ← getPacketLength p.octets
      if p.octets.length ≠ packetLength then return none
      else do
        let data ← removeHeader p lengthOfLength
        return some data
    else do
      let data ← removeHeader p lengthOfLength
      return some data

end ChannelEmulator.Encap
