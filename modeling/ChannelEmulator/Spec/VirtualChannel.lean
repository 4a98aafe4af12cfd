import ChannelEmulator.Framing.Run
import ChannelEmulator.Spec.EncapsulationPacket
import ChannelEmulator.Spec.TransferFrame

/-!
# The TM virtual channel packet service

`modules/TM/modTM_VC_Gen_Packet.cpp` and `modTM_VC_Rcv_Packet.cpp`, with the outputs
connected (of the receiver, those of all packet version numbers).
-/

namespace ChannelEmulator.TM

/-! ## `modTM_VC_Gen_Packet` -/

structure Gen where
  channel : Channel
  frameSize : ℕ
  fillPattern : Bytes := [0xE0]
  multiPacketDataField : Bool := true
  currentFrameNumber : ℕ := 0
  unfilledFrame : Option Bytes := none
  unfilledFrameIdx : ℕ := 0
  firstHeaderIndexSet : Bool := false
  fillPatternLocked : Bool := false
deriving DecidableEq, Repr

namespace Gen

/-- `getDataFieldLength`. -/
def dataFieldLength (s : Gen) : ℕ := s.frameSize - s.channel.nonDataLength

/-- `incCurrentFrameNumber(maxVCFrameCount)`. -/
def incFrameNumber (n : ℕ) : ℕ := if n = maxVCFrameCount then 0 else n + 1

/-- The locals of `_processData`, with the members its loop writes and what it has sent. -/
structure Locals where
  frame : Option Bytes := none
  frameIdx : ℕ := 0
  firstHeaderIndexSet : Bool := false
  currentFrameNumber : ℕ := 0
  sent : List Bytes := []
deriving DecidableEq, Repr

/-- The frame a pass of the loop works on: a new one where there is none. -/
def currentFrame (s : Gen) (l : Locals) : Except Fault (Bytes × Locals) :=
  match l.frame with
  | some u => .ok (u, l)
  | none => do
    let u ← initializeFrame s.channel s.dataFieldLength 0 l.currentFrameNumber
    return (u, { l with frameIdx := 0, firstHeaderIndexSet := false })

/-- The first header pointer after `dataLen` octets were copied, the first of them at
`netdataIdx` of the packet. -/
def markHeader (u : Bytes) (l : Locals) (netdataIdx dataLen dataFieldLen : ℕ) :
    Except Fault (Bytes × Bool) :=
  if 0 < netdataIdx && dataLen = dataFieldLen then do
    let u ← setFirstHeaderPointer u maxFirstHeaderPointer
    return (u, l.firstHeaderIndexSet)
  else if netdataIdx = 0 && !l.firstHeaderIndexSet then do
    let u ← setFirstHeaderPointer u l.frameIdx
    return (u, true)
  else .ok (u, l.firstHeaderIndexSet)

/-- `while (netdata)`, for one packet without further parts; `rest` is the packet from
`netdataIdx` on. A frame that overflows ends `_processData`. -/
def fillLoop (s : Gen) : ℕ → Locals → ℕ → Bytes → Except Fault Locals
  | 0, _, _, _ => .error .diverges
  | fuel + 1, l, netdataIdx, rest => do
    let (frame, l) ← s.currentFrame l
    let room := s.dataFieldLength - l.frameIdx
    let dataLen := if rest.length ≤ room then rest.length else room
    match copyUnit frame (s.channel.ptrData + l.frameIdx) (rest.take dataLen) with
    | .error _ => return { l with frame := none }
    | .ok frame => do
      let (frame, set) ← markHeader frame l netdataIdx dataLen s.dataFieldLength
      let frameIdx := l.frameIdx + dataLen
      let rest := rest.drop dataLen
      let l ←
        if frameIdx = s.dataFieldLength then
          pure { frame := none, frameIdx := frameIdx, firstHeaderIndexSet := set,
                 currentFrameNumber := incFrameNumber l.currentFrameNumber,
                 sent := l.sent ++ [frame] }
        else if frameIdx > s.dataFieldLength then .error (.logicError "frameIdx > dataFieldLen")
        else pure { l with frame := some frame, frameIdx := frameIdx, firstHeaderIndexSet := set }
      if rest.length = 0 then return l
      else fillLoop s fuel l (netdataIdx + dataLen) rest

/-- `_fillPatternLock.acquire()`, which waits for ever while the lock is held. -/
def acquireFillPattern (s : Gen) : Except Fault Gen :=
  if s.fillPatternLocked then .error .diverges else .ok { s with fillPatternLocked := true }

/-- `_fillPatternLock.release()`. -/
def releaseFillPattern (s : Gen) : Gen := { s with fillPatternLocked := false }

/-- The idle packet, or the octets, that fill a frame from `frameIdx` on. -/
def idleFill (s : Gen) (frameIdx : ℕ) : Except Fault Bytes :=
  let emptyLen := s.dataFieldLength - frameIdx
  if s.dataFieldLength < 14 then
    NetworkData.setDataToPattern (newUnit emptyLen) s.fillPattern
  else SpacePacket.newIdle (if emptyLen > 7 then emptyLen else 7) s.fillPattern

/-- What fills a frame is made with the fill pattern locked. -/
def lockedFill (s : Gen) (frameIdx : ℕ) : Except Fault (Gen × Bytes) := do
  let s ← s.acquireFillPattern
  let fill ← s.idleFill frameIdx
  return (s.releaseFillPattern, fill)

/-- `_processData`, with the answers to the waits for another packet: true when the queue
stays empty, as it is when no answer is left. The fuel bounds the calls of itself. -/
def process : ℕ → Gen → Bytes → List Bool → Except Fault (Gen × List Bytes)
  | 0, _, _, _ => .error .diverges
  | fuel + 1, s, netdata, answers => do
    let l : Locals :=
      { frame := s.unfilledFrame
        frameIdx := s.unfilledFrameIdx
        firstHeaderIndexSet := s.firstHeaderIndexSet
        currentFrameNumber := s.currentFrameNumber }
    let l ← fillLoop s (netdata.length + 1) l 0 netdata
    let s := { s with
      unfilledFrame := none
      unfilledFrameIdx := 0
      firstHeaderIndexSet := l.firstHeaderIndexSet
      currentFrameNumber := l.currentFrameNumber }
    match l.frame with
    | none => return (s, l.sent)
    | some last => do
      let s := { s with unfilledFrame := some last, unfilledFrameIdx := l.frameIdx }
      let queueEmpty := answers.headD true
      let answers := if s.multiPacketDataField then answers.tail else answers
      if !s.multiPacketDataField || queueEmpty then
        if l.frameIdx < s.dataFieldLength then do
          let (s, fill) ← s.lockedFill l.frameIdx
          let (s, sent) ← process fuel s fill answers
          return (s, l.sent ++ sent)
        else return (s, l.sent)
      else return (s, l.sent)

/-- `_processData` on a packet of the queue: no more than two calls of itself follow. -/
def processData (s : Gen) (input : Bytes × List Bool) : Except Fault (Gen × List Bytes) :=
  process 3 s input.1 input.2

end Gen

/-! ## `modTM_VC_Rcv_Packet` -/

def pvnSpacePacket : ℕ := 0
def pvnSCPS_NP : ℕ := 1
def pvnEncapsulationPacket : ℕ := 7

/-- `getPVN`. -/
def getPVN (first : Octet) : ℕ := first.toNat / 32

structure Rcv where
  multiDataField : Bool := true
  allowPacketsAfterFill : Bool := true
  badPacketTally : ℕ := 0
  packet : Option Chain := none
deriving DecidableEq, Repr

namespace Rcv

/-- Releases the packet at hand and counts it. -/
def dropPacket (s : Rcv) : Rcv :=
  { s with badPacketTally := s.badPacketTally + 1, packet := none }

/-- What a step over the data field answers: the state, what was sent, the next index and
whether more packets are coming. -/
abbrev Step := Rcv × List Bytes × ℕ × Bool

/-- `a - b` of two values of type `size_t`. -/
def sizeSub (a b : ℕ) : ℕ := (a + 2 ^ 64 - b) % 2 ^ 64

/-- Continued data with nothing to append to. -/
def skipContinued (s : Rcv) (pointer idx : ℕ) : Step :=
  (s, [], if noPacketStart pointer then idx else idx + pointer, s.multiDataField)

/-- A complete space packet is sent unless it is idle. -/
def finishSpacePkt (s : Rcv) (packet : Chain) : Except Fault (Rcv × List Bytes) := do
  if ← SpacePacket.isIdle packet.flatten then return ({ s with packet := none }, [])
  else return ({ s with packet := none }, [packet.flatten])

/-- `_startNewSpacePkt`. -/
def startNewSpacePkt (s : Rcv) (data : Bytes) (pointer idx : ℕ) : Except Fault Step :=
  if idx = 0 && 0 < pointer then .ok (s.skipContinued pointer idx)
  else do
    let remainingOctets := data.length - idx
    let minOctets := SpacePacket.minBytesToDetermineLength
    if minOctets > remainingOctets then do
      let head ← SpacePacket.new ((data.drop idx).take remainingOctets)
      return ({ s with packet := some ⟨head, []⟩ }, [], idx, false)
    else do
      let head ← SpacePacket.new ((data.drop idx).take minOctets)
      let idx := idx + minOctets
      let remainingOctets := remainingOctets - minOctets
      let expectedLen ← SpacePacket.expectedLength head
      let dataLen :=
        if sizeSub expectedLen minOctets ≥ remainingOctets then remainingOctets
        else sizeSub expectedLen minOctets
      let packet := (⟨head, []⟩ : Chain).append ((data.drop idx).take dataLen)
      let idx := idx + dataLen
      if ← packet.hasAllParts SpacePacket.expectedLength then do
        let (s, sent) ← s.finishSpacePkt packet
        return (s, sent, idx, s.multiDataField)
      else return ({ s with packet := some packet }, [], idx, s.multiDataField)

/-- The octets at the front of the data field that continue a packet, and whether its tail
is among them. -/
def continuedLen (data : Bytes) (pointer : ℕ) : ℕ × Bool :=
  if noPacketStart pointer then (data.length, false) else (pointer, true)

/-- The packet at hand with the front of the data field: behind the octets of its head
while these do not hold its length. -/
def extendPacket (packet : Chain) (minOctets : ℕ) (part : Bytes) : Chain :=
  if packet.head.length ≥ minOctets then packet.addPart part else packet.append part

/-- `_continueSpacePkt` and `_continueEncap`, which differ in the packet's length, in the
octets that tell it and in how a complete packet is finished. -/
def continuePkt (s : Rcv) (packet : Chain) (data : Bytes) (pointer idx minOctets : ℕ)
    (expectedLength : Bytes → Except Fault ℕ)
    (finish : Rcv → Chain → Except Fault (Rcv × List Bytes)) : Except Fault Step :=
  if idx = 0 && 0 < pointer then
    let (dataLen, foundTail) := continuedLen data pointer
    if data.length < dataLen then .error .outOfBounds
    else do
      let idx := idx + dataLen
      let packet := extendPacket packet minOctets (data.take dataLen)
      if ← packet.hasAllParts expectedLength then do
        let (s, sent) ← finish s packet
        return (s, sent, idx, s.multiDataField)
      else if foundTail then return (s.dropPacket, [], idx, s.multiDataField)
      else if packet.head.length ≥ minOctets then do
        let expected ← expectedLength packet.head
        if expected < packet.totalLength then return (s.dropPacket, [], idx, false)
        else return ({ s with packet := some packet }, [], idx, s.multiDataField)
      else return ({ s with packet := some packet }, [], idx, s.multiDataField)
  else .ok (s.dropPacket, [], idx, true)

/-- `_continueSpacePkt`. -/
def continueSpacePkt (s : Rcv) (packet : Chain) (data : Bytes) (pointer idx : ℕ) :
    Except Fault Step :=
  s.continuePkt packet data pointer idx SpacePacket.minBytesToDetermineLength
    SpacePacket.expectedLength finishSpacePkt

/-- `_startNewEncap`. -/
def startNewEncap (s : Rcv) (data : Bytes) (pointer idx : ℕ) : Except Fault Step :=
  if idx = 0 && 0 < pointer then .ok (s.skipContinued pointer idx)
  else do
    let remainingOctets := data.length - idx
    let firstOctet ← octetAt data idx
    let minOctets := Encap.minBytesToDetermineLength firstOctet
    if minOctets = 1 && Encap.isFill firstOctet then
      if s.allowPacketsAfterFill then return (s, [], idx + 1, s.multiDataField)
      else return (s, [], idx, false)
    else if minOctets > remainingOctets then
      return ({ s with packet := some ⟨(data.drop idx).take remainingOctets, []⟩ }, [], idx, false)
    else do
      let head := (data.drop idx).take minOctets
      let idx := idx + minOctets
      let remainingOctets := remainingOctets - minOctets
      let expectedLen ← Encap.expectedLength head
      let dataLen :=
        if sizeSub expectedLen minOctets ≥ remainingOctets then remainingOctets
        else sizeSub expectedLen minOctets
      let packet := (⟨head, []⟩ : Chain).append ((data.drop idx).take dataLen)
      let idx := idx + dataLen
      if ← packet.hasAllParts Encap.expectedLength then
        return ({ s with packet := none }, [packet.flatten], idx, s.multiDataField)
      else return ({ s with packet := some packet }, [], idx, s.multiDataField)

/-- `_continueEncap`. -/
def continueEncap (s : Rcv) (packet : Chain) (data : Bytes) (pointer idx : ℕ) :
    Except Fault Step := do
  let firstOctet ← octetAt packet.head 0
  s.continuePkt packet data pointer idx (Encap.minBytesToDetermineLength firstOctet)
    Encap.expectedLength fun s packet => .ok ({ s with packet := none }, [packet.flatten])

/-- `_assembleSpacePkt`. -/
def assembleSpacePkt (s : Rcv) (data : Bytes) (pointer idx : ℕ) : Except Fault Step :=
  if onlyIdleData pointer then .ok (s, [], idx, false)
  else match s.packet with
    | some packet => s.continueSpacePkt packet data pointer idx
    | none => s.startNewSpacePkt data pointer idx

/-- `_assembleEncap`. -/
def assembleEncap (s : Rcv) (data : Bytes) (pointer idx : ℕ) : Except Fault Step :=
  if onlyIdleData pointer then .ok (s, [], idx, false)
  else match s.packet with
    | some packet => s.continueEncap packet data pointer idx
    | none => s.startNewEncap data pointer idx

/-- One pass of the loop of `_assemblePacket`. SCPS-NP packets and unknown packet version
numbers end it. -/
def pass (s : Rcv) (data : Bytes) (pointer idx : ℕ) : Except Fault Step := do
  let first ← match s.packet with
    | some packet => octetAt packet.head 0
    | none => octetAt data idx
  if getPVN first = pvnSpacePacket then s.assembleSpacePkt data pointer idx
  else if getPVN first = pvnEncapsulationPacket then s.assembleEncap data pointer idx
  else return (s, [], idx, false)

/-- `while (morePacketsComing && headerPointer < frame->getDataLength())`. -/
def loop : ℕ → Rcv → Bytes → ℕ → ℕ → Except Fault (Rcv × List Bytes)
  | 0, s, data, _, idx => if idx < data.length then .error .diverges else .ok (s, [])
  | fuel + 1, s, data, pointer, idx =>
    if idx < data.length then do
      let (s, sent, idx, morePacketsComing) ← s.pass data pointer idx
      if morePacketsComing then do
        let (s, sent') ← loop fuel s data pointer idx
        return (s, sent ++ sent')
      else return (s, sent)
    else .ok (s, [])

/-- `_assemblePacket`, with the packets it sends. A pass that neither drops a packet nor
takes an octet leaves all as it was, so where the fuel runs out the loop never ends. -/
def assemblePacket (c : Channel) (s : Rcv) (frame : Bytes) : Except Fault (Rcv × List Bytes) := do
  let pointer ← getFirstHeaderPointer frame
  let data := c.data frame
  loop (2 * data.length + 1) s data pointer 0

end Rcv

end ChannelEmulator.TM
