import ChannelEmulator.Framing.Run
import ChannelEmulator.Spec.EncapsulationPacket

/-!
# The AOS multiplexing service

`lib/AOS_Multiplexing_PDU.cpp`, `modules/AOS/modAOS_M_PDU_Add.cpp` and
`modAOS_M_PDU_Remove.cpp`, with the outputs connected. `_sendImmediately` of the adder is
true from the constructor on (it has no setter), so each M_PDU is sent when it is full.
-/

namespace ChannelEmulator.Multiplexing

/-! ## `AOS_Multiplexing_PDU` -/

def hasIdleVal : ℕ := 0x7FE
def hasHeaderlessVal : ℕ := 0x7FF
def spanHeader : ℕ := 2

/-- `getRsvdSpare`. -/
def getRsvdSpare (u : Bytes) : Except Fault ℕ := do
  let h ← octetAt u 0
  return (h.toNat &&& 0xF8) >>> 3

/-- `getFirstHeaderIndex`. -/
def getFirstHeaderIndex (u : Bytes) : Except Fault ℕ := do
  let h ← toU16 u
  return h &&& 0x7FF

/-- `setFirstHeaderIndex`. -/
def setFirstHeaderIndex (u : Bytes) (newVal : ℕ) : Except Fault Bytes := do
  let spare ← getRsvdSpare u
  if u.length < spanHeader then .error .outOfBounds
  else return overwrite u 0 (fromU16 ((spare <<< 11) ||| (newVal &&& 0x7FF)))

/-- `hasHeaderlessData`, of a first header index. -/
def hasHeaderlessData (index : ℕ) : Bool := index = hasHeaderlessVal

/-- `hasHeader`. -/
def hasHeader (index : ℕ) : Bool := index < hasIdleVal

/-- `hasContinuedData`. -/
def hasContinuedData (index : ℕ) : Bool :=
  hasHeaderlessData index || (hasHeader index && 0 < index)

/-- `isIdle`. -/
def isIdle (index : ℕ) : Bool := index = hasIdleVal

/-- `getPacketZoneLength`, and `getDataLength`. -/
def getPacketZoneLength (u : Bytes) : ℕ := u.length - spanHeader

/-- The octets the fill loop of `addFill` writes. An empty pattern never ends it. -/
def fillOctets (fill : Bytes) : ℕ → ℕ → Except Fault Bytes
  | _, 0 => .ok []
  | 0, _ + 1 => .error .diverges
  | fuel + 1, count + 1 => do
    let fillCount := count + 1
    let copySize := if fill.length ≤ fillCount then fill.length else fillCount
    let rest ← fillOctets fill fuel (fillCount - copySize)
    return fill.take copySize ++ rest

/-- `addFill`. -/
def addFill (u : Bytes) (fillIdx : ℕ) (fill : Bytes) : Except Fault Bytes := do
  let fillCount := getPacketZoneLength u - fillIdx
  let octets ← fillOctets fill fillCount fillCount
  return overwrite u (spanHeader + fillIdx) octets

/-! ## `modAOS_M_PDU_Add` -/

structure Add where
  mpduLength : ℕ
  fillPattern : Bytes := [0xE0]
  multiPacketZone : Bool := true
  unfilledMpdu : Option Bytes := none
  unfilledMpduIdx : ℕ := 0
  firstHeaderIndexSet : Bool := false
deriving DecidableEq, Repr

/-- The locals of `_processData`, with what it has sent. -/
structure Locals where
  mpdu : Option Bytes := none
  mpduIdx : ℕ := 0
  firstHeaderIndexSet : Bool := false
  sent : List Bytes := []
deriving DecidableEq, Repr

namespace Add

/-- `_getPacketZoneLength`. -/
def packetZoneLength (s : Add) : ℕ := s.mpduLength - spanHeader

/-- The M_PDU a pass of the loop works on: a new one where there is none. -/
def currentMpdu (s : Add) (l : Locals) : Bytes × Locals :=
  match l.mpdu with
  | some u => (u, l)
  | none => (newUnit s.mpduLength, { l with mpduIdx := 0, firstHeaderIndexSet := false })

/-- The header of the M_PDU after `dataLen` octets were copied, the first of them at
`netdataIdx` of the packet. -/
def markHeader (u : Bytes) (l : Locals) (netdataIdx dataLen zoneLen : ℕ) :
    Except Fault (Bytes × Bool) :=
  if 0 < netdataIdx && dataLen = zoneLen then do
    let u ← setFirstHeaderIndex u hasHeaderlessVal
    return (u, l.firstHeaderIndexSet)
  else if netdataIdx = 0 && !l.firstHeaderIndexSet then do
    let u ← setFirstHeaderIndex u l.mpduIdx
    return (u, true)
  else .ok (u, l.firstHeaderIndexSet)

/-- `while (netdata)`, for one packet without further parts; `rest` is the packet from
`netdataIdx` on. -/
def fillLoop (s : Add) : ℕ → Locals → ℕ → Bytes → Except Fault Locals
  | 0, _, _, _ => .error .diverges
  | fuel + 1, l, netdataIdx, rest =>
    let (mpdu, l) := s.currentMpdu l
    let room := s.packetZoneLength - l.mpduIdx
    let dataLen := if rest.length ≤ room then rest.length else room
    match copyUnit mpdu (spanHeader + l.mpduIdx) (rest.take dataLen) with
    | .error _ => .ok { l with mpdu := none }
    | .ok mpdu => do
      let (mpdu, set) ← markHeader mpdu l netdataIdx dataLen s.packetZoneLength
      let mpduIdx := l.mpduIdx + dataLen
      let rest := rest.drop dataLen
      let l ←
        if mpduIdx = s.packetZoneLength then
          pure { mpdu := none, mpduIdx := mpduIdx, firstHeaderIndexSet := set,
                 sent := l.sent ++ [mpdu] }
        else if mpduIdx > s.packetZoneLength then
          .error (.logicError "mpdu_idx > packet_zone_len")
        else pure { l with mpdu := some mpdu, mpduIdx := mpduIdx, firstHeaderIndexSet := set }
      if rest.length = 0 then return l
      else fillLoop s fuel l (netdataIdx + dataLen) rest

/-- The last M_PDU, padded with fill. -/
def padLast (s : Add) (l : Locals) (last : Bytes) : Except Fault Bytes := do
  let last ← addFill last l.mpduIdx s.fillPattern
  -- a first header index that was never set points to the first fill packet
  let last ← if l.firstHeaderIndexSet then pure last else setFirstHeaderIndex last l.mpduIdx
  if l.mpduIdx = 0 then setFirstHeaderIndex last hasIdleVal else return last

/-- The part of `_processData` after its loop; `queueEmpty` tells that no packet came in
the time it waits for one. -/
def finish (s : Add) (l : Locals) (queueEmpty : Bool) : Except Fault (Add × List Bytes) :=
  match l.mpdu with
  | none => .ok ({ s with firstHeaderIndexSet := l.firstHeaderIndexSet }, l.sent)
  | some last =>
    if !s.multiPacketZone || queueEmpty then
      if l.mpduIdx < s.packetZoneLength then do
        let last ← s.padLast l last
        return ({ s with firstHeaderIndexSet := false }, l.sent ++ [last])
      else .ok ({ s with firstHeaderIndexSet := l.firstHeaderIndexSet }, l.sent)
    else .ok ({ s with
      unfilledMpdu := some last
      unfilledMpduIdx := l.mpduIdx
      firstHeaderIndexSet := l.firstHeaderIndexSet }, l.sent)

/-- `_processData`: a packet, and whether the queue is empty behind it. -/
def processData (s : Add) (input : Bytes × Bool) : Except Fault (Add × List Bytes) := do
  let l : Locals :=
    { mpdu := s.unfilledMpdu
      mpduIdx := s.unfilledMpduIdx
      firstHeaderIndexSet := s.firstHeaderIndexSet }
  let l ← fillLoop s (input.1.length + 1) l 0 input.1
  finish { s with unfilledMpdu := none, unfilledMpduIdx := 0 } l input.2

end Add

/-! ## `modAOS_M_PDU_Remove` -/

structure Remove where
  multiPacketZone : Bool := true
  allowPacketsAfterFill : Bool := true
  badEncapTally : ℕ := 0
  encap : Option Chain := none
deriving DecidableEq, Repr

namespace Remove

/-- `a - b` of two values of type `size_t`. -/
def sizeSub (a b : ℕ) : ℕ := (a + 2 ^ 64 - b) % 2 ^ 64

/-- Releases the packet at hand and counts it. -/
def dropEncap (s : Remove) : Remove :=
  { s with badEncapTally := s.badEncapTally + 1, encap := none }

/-- `_encap->flatten()` and `_send(_encap)`, with the octets sent. -/
def sendEncap (s : Remove) (encap : Chain) : Remove × List Bytes :=
  ({ s with encap := none }, [encap.flatten])

/-- Start a new packet at `idx`. The last component is the next `idx`, or `none` for a
`break`. -/
def startPacket (s : Remove) (zone : Bytes) (index idx : ℕ) :
    Except Fault (Remove × List Bytes × Option ℕ) :=
  if idx = 0 && hasContinuedData index then
    if hasHeaderlessData index then .ok (s, [], none)
    else .ok (s, [], some (idx + index))
  else do
    let remainingOctets := zone.length - idx
    let firstOctet ← octetAt zone idx
    let minOctets := Encap.minBytesToDetermineLength firstOctet
    if minOctets = 1 && Encap.isFill firstOctet then
      if s.allowPacketsAfterFill && s.multiPacketZone then return (s, [], some (idx + 1))
      else return (s, [], none)
    else if remainingOctets < minOctets then
      -- not enough here to figure out the length, copy what's left
      return ({ s with encap := some ⟨(zone.drop idx).take remainingOctets, []⟩ }, [], none)
    else do
      let encap : Chain := ⟨(zone.drop idx).take minOctets, []⟩
      let idx := idx + minOctets
      let remainingOctets := remainingOctets - minOctets
      let expected ← Encap.expectedLength encap.head
      let dataLen :=
        if sizeSub expected minOctets ≥ remainingOctets then remainingOctets
        else sizeSub expected minOctets
      let encap := encap.append ((zone.drop idx).take dataLen)
      let idx := idx + dataLen
      if ← encap.hasAllParts Encap.expectedLength then
        let (s, sent) := s.sendEncap encap
        return (s, sent, if s.multiPacketZone then some idx else none)
      else return ({ s with encap := some encap }, [], some idx)

/-- Get the tail of the last truncated packet. -/
def continuePacket (s : Remove) (encap : Chain) (zone : Bytes) (index idx : ℕ) :
    Except Fault (Remove × List Bytes × Option ℕ) := do
  let firstOctet ← octetAt encap.head 0
  if idx = 0 && hasContinuedData index then
    let foundTail := !hasHeaderlessData index
    let dataLen := if hasHeaderlessData index then zone.length else index
    let idx := idx + dataLen
    if zone.length < dataLen then .error .outOfBounds
    else
      let part := zone.take dataLen
      let encap :=
        if encap.head.length ≥ Encap.minBytesToDetermineLength firstOctet then encap.addPart part
        else encap.append part
      if ← encap.hasAllParts Encap.expectedLength then
        let (s, sent) := s.sendEncap encap
        return (s, sent, if s.multiPacketZone then some idx else none)
      else if foundTail then return (s.dropEncap, [], some idx)
      else if encap.head.length ≥ Encap.minBytesToDetermineLength firstOctet then
        let expected ← Encap.expectedLength encap.head
        if expected < encap.totalLength then return (s.dropEncap, [], some idx)
        else return ({ s with encap := some encap }, [], some idx)
      else return ({ s with encap := some encap }, [], some idx)
  else return (s.dropEncap, [], some idx)

/-- One pass of the loop. -/
def pass (s : Remove) (zone : Bytes) (index idx : ℕ) :
    Except Fault (Remove × List Bytes × Option ℕ) :=
  match s.encap with
  | none => s.startPacket zone index idx
  | some encap => s.continuePacket encap zone index idx

/-- `while (idx < m_pdu->getDataLength())`. -/
def loop : ℕ → Remove → Bytes → ℕ → ℕ → Except Fault (Remove × List Bytes)
  | 0, s, zone, _, idx => if idx < zone.length then .error .diverges else .ok (s, [])
  | fuel + 1, s, zone, index, idx =>
    if idx < zone.length then do
      let (s, sent, next) ← s.pass zone index idx
      match next with
      | none => return (s, sent)
      | some idx => do
        let (s, sent') ← loop fuel s zone index idx
        return (s, sent ++ sent')
    else .ok (s, [])

/-- `_assemble_encap`, with the packets it sends. Every pass but one that drops a packet
takes at least one octet, and two such passes are never in a row. -/
def assembleEncap (s : Remove) (mpdu : Bytes) : Except Fault (Remove × List Bytes) := do
  let index ← getFirstHeaderIndex mpdu
  if isIdle index then return (s, [])
  else
    let zone := mpdu.drop spanHeader
    loop (2 * zone.length + 1) s zone index 0

end Remove

end ChannelEmulator.Multiplexing
