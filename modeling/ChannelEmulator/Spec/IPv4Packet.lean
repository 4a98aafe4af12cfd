import ChannelEmulator.Framing.Loop
import ChannelEmulator.Spec.NetworkData

/-!
# IPv4 packets

`lib/IPv4Packet.cpp` and `.hpp`, with what `lib/IPv4_UDP_Datagram.hpp` overrides of them. The names
that the source qualifies with `IPv4Packet::` are functions of the octets; `ptrData` without the
qualification is virtual, and goes by the `Kind` of the packet.
-/

namespace ChannelEmulator.IPv4

/-- `IP_MF` and `IP_OFFMASK` of `netinet/ip.h`. -/
def ipMF : ℕ := 0x2000
def ipOffMask : ℕ := 0x1FFF

/-! ## Fields -/

/-- `getVersion`. -/
def getVersion (u : Bytes) : Except Fault ℕ := do
  let b ← octetAt u 0
  return b.toNat >>> 4

/-- `getHeaderWords`. -/
def getHeaderWords (u : Bytes) : Except Fault ℕ := do
  let b ← octetAt u 0
  return b.toNat &&& 0xF

/-- `getHeaderLength`. -/
def getHeaderLength (u : Bytes) : Except Fault ℕ := do
  let words ← getHeaderWords u
  return words * 4

/-- `getTotalLength`. -/
def getTotalLength (u : Bytes) : Except Fault ℕ := toU16 (u.drop 2)

/-- `setTotalLength`. -/
def setTotalLength (u : Bytes) (len : ℕ) : Except Fault Bytes := storeAt u 2 (fromU16 len)

/-- `setIdent`. -/
def setIdent (u : Bytes) (id : ℕ) : Except Fault Bytes := storeAt u 4 (fromU16 id)

/-- `getFlags`. -/
def getFlags (u : Bytes) : Except Fault ℕ := toU16 (u.drop 6)

/-- `setFlags`. -/
def setFlags (u : Bytes) (flagsAndOffset : ℕ) : Except Fault Bytes :=
  storeAt u 6 (fromU16 flagsAndOffset)

/-- `getOffset`. -/
def getOffset (u : Bytes) : Except Fault ℕ := do
  let flags ← getFlags u
  return flags &&& ipOffMask

/-- `getChecksum`. -/
def getChecksum (u : Bytes) : Except Fault ℕ := toU16 (u.drop 10)

/-- `setChecksum`. -/
def setChecksum (u : Bytes) (chk : ℕ) : Except Fault Bytes := storeAt u 10 (fromU16 chk)

/-- `getDataLength`. The difference is of type `size_t`. -/
def getDataLength (u : Bytes) : Except Fault ℕ := do
  let headerLen ← getHeaderLength u
  return (u.length + 2 ^ 64 - headerLen) % 2 ^ 64

/-- `isExpectedType`, of four octets and more. -/
def isExpectedType (u : Bytes) : Except Fault Bool := do
  let version ← getVersion u
  let words ← getHeaderWords u
  let total ← getTotalLength u
  return version == 4 && (5 ≤ words && words ≤ 15) && words * 4 ≤ total

/-! ## The header checksum -/

/-- The sum of the words of a header, from the word at `idx` on, less the checksum itself. -/
def sumWords (idx : ℕ) : Bytes → ℕ
  | a :: b :: rest => (if idx = 5 then 0 else a.toNat * 256 + b.toNat) + sumWords (idx + 1) rest
  | _ => 0

/-- The loop that adds up the carries; a sum of 32 bits takes three turns at most. -/
def addCarries : ℕ → ℕ → ℕ
  | 0, checksum => checksum
  | fuel + 1, checksum =>
    if checksum >>> 16 = 0 then checksum
    else addCarries fuel ((checksum &&& 0xFFFF) + (checksum >>> 16))

/-- `computeChecksum`. -/
def computeChecksum (u : Bytes) : Except Fault ℕ := do
  let headerLen ← getHeaderLength u
  if u.length < headerLen then .error .outOfBounds
  else return 0xFFFF - addCarries 3 (sumWords 0 (u.take headerLen))

/-- `hasValidChecksum`. -/
def hasValidChecksum (u : Bytes) : Except Fault Bool := do
  let stored ← getChecksum u
  let computed ← computeChecksum u
  return stored == computed

/-! ## Packets -/

inductive Kind
  | packet
  | udpDatagram
deriving DecidableEq, Repr

/-- The header length of the octets of a packet. -/
def headerLength (u : Bytes) : ℕ := ((u.headD 0).toNat &&& 0xF) * 4

/-- An `IPv4Packet` or `IPv4_UDP_Datagram`: the octets of the unit, and those its buffer has behind
them. A packet has the five words of a header at least, and all the words it says; its length is of
type `size_t`. -/
structure Packet where
  kind : Kind
  unit : Bytes
  behind : Bytes
  header_ge : 20 ≤ headerLength unit
  header_le : headerLength unit ≤ unit.length
  length_lt : unit.length < 2 ^ 64

/-- `ptrData` of a packet and of a datagram, whose header it is behind. -/
def Packet.ptrData (p : Packet) : Except Fault ℕ := do
  let headerLen ← getHeaderLength p.unit
  match p.kind with
  | .packet => return headerLen
  | .udpDatagram => return headerLen + 8

/-- `copyUnit(ptrUnit() + dst, ptr, dataLen)`, from the octets at `src` of a buffer. -/
def copyFrom (u : Bytes) (dst : ℕ) (buffer : Bytes) (src dataLen : ℕ) : Except Fault Bytes :=
  if u.length < dst + dataLen then
    .error (.bufferOverflow
      "Data copy failed, supplied buffer length exceeds available capacity in unit.")
  else if dataLen ≠ 0 ∧ buffer.length < src + dataLen then .error .outOfBounds
  else .ok (overwrite u dst ((buffer.drop src).take dataLen))

/-- `_make_one_fragment`. Its lengths are of type `ACE_UINT16`. -/
def makeOneFragment (p : Packet) (offset dataLen id : ℕ) (isLast : Bool) : Except Fault Bytes := do
  let headerLen ← getHeaderLength p.unit
  let totalLen := (headerLen + dataLen) % 2 ^ 16
  let frag ← copyFrom (newUnit totalLen) 0 (p.unit ++ p.behind) 0 headerLen
  let fragHeaderLen ← getHeaderLength frag
  let ptrData ← p.ptrData
  let frag ← copyFrom frag fragHeaderLen (p.unit ++ p.behind) (ptrData + offset) dataLen
  let frag ← setIdent frag id
  let flags ← getFlags p.unit
  let frag ← setFlags frag (if isLast then (flags ||| (offset / 8)) &&& (0xFFFF - ipMF)
    else flags ||| ipMF ||| (offset / 8))
  let frag ← setTotalLength frag totalLen
  let checksum ← computeChecksum frag
  setChecksum frag checksum

/-- The most data of a fragment, as `fragment` computes it. -/
def maxData (headerLen maxLen : ℕ) : ℕ :=
  (maxLen + 2 ^ 64 - headerLen) % 2 ^ 64 / 8 * 8 % 2 ^ 16

/-- One turn of the loop of `fragment`, at the data index `idx`, of type `ACE_UINT16`. -/
def fragmentPass (p : Packet) (maxData id : ℕ) (_ : ℕ) (idx : ℕ) :
    Except Fault (ℕ × List Bytes × Option ℕ) := do
  let frag ← makeOneFragment p idx maxData id false
  let next := (idx + maxData) % 2 ^ 16
  return (next, [frag], some next)

/-- `fragment`, with the identification it draws, for a number of turns of its loop at most. -/
def fragment (fuel : ℕ) (p : Packet) (maxLen id : ℕ) : Except Fault (List Bytes) := do
  let headerLen ← getHeaderLength p.unit
  let dataLen ← getDataLength p.unit
  let most := maxData headerLen maxLen
  let (idx, frags) ← Framing.Loop.loop (fragmentPass p most id) (dataLen - most) .diverges fuel 0 0
  let last ← makeOneFragment p idx ((dataLen - idx) % 2 ^ 16) id true
  return frags ++ [last]

/-- `defragment`. The octets that `setUnitLength` adds are written before they are read. -/
def defragment (u newDataBuf : Bytes) : Except Fault Bytes := do
  let offset ← getOffset u
  let dataLen ← getDataLength u
  let headerLen ← getHeaderLength u
  let bufLen := offset * 8 + dataLen
  let u := (u ++ newUnit (headerLen + bufLen - u.length)).take (headerLen + bufLen)
  let flags ← getFlags u
  let u ← setFlags u (flags &&& (0xFFFF - (ipOffMask ||| ipMF)))
  let ptrData ← getHeaderLength u
  let u ← if newDataBuf.length < bufLen then .error .outOfBounds
    else storeAt u ptrData (newDataBuf.take bufLen)
  let u ← setTotalLength u (u.length % 2 ^ 16)
  let u ← setIdent u 0
  let checksum ← computeChecksum u
  setChecksum u checksum

/-- The data of a fragment. -/
def payload (u : Bytes) : Bytes := u.drop (headerLength u)

end ChannelEmulator.IPv4
