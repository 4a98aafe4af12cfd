import ChannelEmulator.Spec.UdpDatagram
import ChannelEmulator.Spec.UnitData

/-!
# Wrapping in UDP datagrams

`build` and `setData` of `lib/IPv4_UDP_Datagram.cpp` and `lib/IPv4Packet.cpp`, and the modules
`modules/IP/modUDP_Add.cpp` and `modules/IP/modUDP_Remove.cpp`. The octets of a unit that grows are those
of the memory behind it.
-/

namespace ChannelEmulator.IPv4

/-- `IPv4Addr`: the octets of an address, in the order of the network. -/
structure Addr where
  a : Octet
  b : Octet
  c : Octet
  d : Octet
deriving DecidableEq, Repr

/-- `from_u32_` of `IPv4Addr::get`, without a swap. -/
def Addr.octets (addr : Addr) : Bytes := [addr.a, addr.b, addr.c, addr.d]

/-- `setSrc`. -/
def setSrc (u : Bytes) (addr : Addr) : Except Fault Bytes := storeAt u 12 addr.octets

/-- `setDst`. -/
def setDst (u : Bytes) (addr : Addr) : Except Fault Bytes := storeAt u 16 addr.octets

/-- `setSrcPort`. -/
def setSrcPort (u : Bytes) (newPort : ℕ) : Except Fault Bytes := do
  let ptr ← ptrSrcPort u
  storeAt u ptr (fromU16 newPort)

/-- `setDstPort`. -/
def setDstPort (u : Bytes) (newPort : ℕ) : Except Fault Bytes := do
  let ptr ← ptrSrcPort u
  storeAt u (ptr + 2) (fromU16 newPort)

/-- `setUDPLength`. -/
def setUDPLength (u : Bytes) (newLength : ℕ) : Except Fault Bytes := do
  let ptr ← ptrSrcPort u
  storeAt u (ptr + 4) (fromU16 newLength)

/-- `IPv4_UDP_Datagram::getHeaderLength`. -/
def getDatagramHeaderLength (u : Bytes) : Except Fault ℕ := do
  let headerLen ← getHeaderLength u
  return headerLen + 8

/-- `IPv4_UDP_Datagram::ptrData`. -/
def ptrDatagramData (u : Bytes) : Except Fault ℕ := do
  let ptr ← ptrSrcPort u
  return ptr + 8

/-- `IPv4_UDP_Datagram::getDataLength`. -/
def getDatagramDataLength (u : Bytes) : Except Fault ℕ := do
  let headerLen ← getDatagramHeaderLength u
  return sizeDiff u.length headerLen

/-- `IPv4_UDP_Datagram::setData`. -/
def setDatagramData (behind : ℕ → Octet) (u data : Bytes) : Except Fault Bytes := do
  let headerLen ← getDatagramHeaderLength u
  let u := if u.length ≠ data.length + headerLen then setUnitLength behind u (headerLen + data.length) else u
  -- `NetworkData::setData`, without a change of the length
  let dataLen ← getDatagramDataLength u
  let ptrData ← ptrDatagramData u
  let u ← if data.length ≤ dataLen then copyUnit u ptrData data
    else .error (.bufferOverflow (bufferOverflowMsg "Data Field" data.length dataLen))
  let u ← setTotalLength u u.length
  let ipHeaderLen ← getHeaderLength u
  setUDPLength u (sizeDiff u.length ipHeaderLen)

/-- `IPv4Packet::build`, without data. `clearUnit` leaves a unit of zeros. -/
def buildPacket (src dst : Addr) (ttl prot : Octet) : Except Fault Bytes := do
  let u ← copyUnit (newUnit 20) 0
    [0x45, 0, 0, 0, 0, 0, 0x40, 0, ttl, prot, 0, 0, 0, 0, 0, 0, 0, 0, 0, 0]
  let u ← setSrc u src
  setDst u dst

/-- `IPv4_UDP_Datagram::build`, without data. -/
def buildDatagram (behind : ℕ → Octet) (src : Addr) (srcPort : ℕ) (dst : Addr) (dstPort : ℕ) (ttl : Octet) :
    Except Fault Bytes := do
  let u ← buildPacket src dst ttl (UInt8.ofNat protocolUDP)
  let newSize ← getDatagramHeaderLength u
  let u := setUnitLength behind u newSize
  let ptr ← ptrSrcPort u
  let ipHeaderLen ← getHeaderLength u
  let u ← storeAt u ptr (newUnit (sizeDiff newSize ipHeaderLen))
  let u ← setSrcPort u srcPort
  setDstPort u dstPort

/-- `NetworkData::wrapInnerPDU`, of the data of a datagram. -/
def wrapInnerPDU (u : Bytes) : Except Fault Bytes := do
  let pduSize ← getDatagramDataLength u
  let pduStart ← ptrDatagramData u
  if u.length < pduStart + pduSize then .error .outOfBounds
  else return (u.drop pduStart).take pduSize

/-! ## `modUDP_Add` -/

/-- The settings of the module; its ports are of type `int`. -/
structure UdpAdd where
  srcIPAddr : Addr
  srcPort : ℤ
  dstIPAddr : Addr
  dstPort : ℤ
  computeCRC : Bool
deriving DecidableEq, Repr

/-- `getSrcPort` and `getDstPort`: a port of 16 bits. -/
def portOf (setting : ℤ) : ℕ := (setting % 65536).toNat

/-- `_updateTemplate`: the header it builds. -/
def UdpAdd.updateTemplate (s : UdpAdd) (behind : ℕ → Octet) : Except Fault Bytes :=
  buildDatagram behind s.srcIPAddr (portOf s.srcPort) s.dstIPAddr (portOf s.dstPort) 63

/-- One unit through `svc`: the datagrams that are sent. -/
def UdpAdd.svc (s : UdpAdd) (behind : ℕ → Octet) (dgmHeader : Bytes) (connected : Bool) (data : Bytes) :
    Except Fault (List Bytes) :=
  if connected then do
    let dgm ← setDatagramData behind dgmHeader data
    let checksum ← computeChecksum dgm
    let dgm ← setChecksum dgm checksum
    let dgm ← if s.computeCRC then do
        let udpChecksum ← computeUDPChecksum dgm protocolUDP
        setUDPChecksum dgm udpChecksum
      else .ok dgm
    return [dgm]
  else return []

/-! ## `modUDP_Remove` -/

/-- The setting and the counters of the module. -/
structure UdpRemove where
  checkCRC : Bool
  badIPCRCCount : UInt32
  badUDPCRCCount : UInt32
deriving DecidableEq, Repr

/-- What the module receives, by its type. -/
inductive Received
  | udpDatagram (u : Bytes)
  | other (u : Bytes)
deriving DecidableEq, Repr

/-- `_goodCRC`. -/
def UdpRemove.goodCRC (s : UdpRemove) (dgm : Bytes) : Except Fault (UdpRemove × Bool) :=
  if s.checkCRC then do
    let valid ← hasValidChecksum dgm
    if !valid then return ({ s with badIPCRCCount := s.badIPCRCCount + 1 }, false)
    else do
      let validUDP ← hasValidUDPChecksum dgm
      if !validUDP then return ({ s with badUDPCRCCount := s.badUDPCRCCount + 1 }, false)
      else return (s, true)
  else return (s, true)

/-- One unit through `svc`: the units that are sent. -/
def UdpRemove.svc (s : UdpRemove) (connected : Bool) : Received → Except Fault (UdpRemove × List Bytes)
  | .other _ => .ok (s, [])
  | .udpDatagram dgm =>
    if connected then do
      let (s, good) ← s.goodCRC dgm
      if good then do
        let data ← wrapInnerPDU dgm
        return (s, [data])
      else return (s, [])
    else .ok (s, [])

end ChannelEmulator.IPv4
