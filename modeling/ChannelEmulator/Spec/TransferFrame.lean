import ChannelEmulator.Spec.NetworkData

/-!
# TM transfer frames and space packets

`lib/TM_Transfer_Frame.cpp` and `.hpp`, and `lib/SpacePacket.cpp`: what the virtual channel
packet services read and write.
-/

namespace ChannelEmulator

namespace TM

/-! ## `TM_Transfer_Frame` -/

def maxSpacecraftID : ℕ := 0x3ff
def maxVirtualChannelID : ℕ := 7
def maxFirstHeaderPointer : ℕ := 0x7ff
def maxVCFrameCount : ℕ := 0xff
def spanPrimaryHeader : ℕ := 6
def spanOperationalControlField : ℕ := 4
def spanFrameErrorControlField : ℕ := 2

/-- The fields all frames of a virtual channel have or lack, with the identifiers its
setters accept. -/
structure Channel where
  scid : ℕ
  vcid : ℕ
  useOperationalControl : Bool := false
  useFrameErrorControl : Bool := false
  fshSize : ℕ := 0
  scid_le : scid ≤ maxSpacecraftID := by decide
  vcid_le : vcid ≤ maxVirtualChannelID := by decide
deriving DecidableEq, Repr

/-- `getNonDataLength`. -/
def Channel.nonDataLength (c : Channel) : ℕ :=
  spanPrimaryHeader + c.fshSize + (if c.useOperationalControl then spanOperationalControlField else 0)
    + (if c.useFrameErrorControl then spanFrameErrorControlField else 0)

/-- `ptrData`. -/
def Channel.ptrData (c : Channel) : ℕ := spanPrimaryHeader + c.fshSize

/-- `getDataLength`. -/
def Channel.dataLength (c : Channel) (u : Bytes) : ℕ := u.length - c.nonDataLength

/-- The octets of the data field. -/
def Channel.data (c : Channel) (u : Bytes) : Bytes := (u.drop c.ptrData).take (c.dataLength u)

/-- `getDataFieldStat`. -/
def getDataFieldStat (u : Bytes) : Except Fault ℕ := toU16 (u.drop 4)

/-- `setDataFieldStat`. -/
def setDataFieldStat (u : Bytes) (newVal : ℕ) : Except Fault Bytes :=
  if u.length < spanPrimaryHeader then .error .outOfBounds
  else .ok (overwrite u 4 (fromU16 newVal))

/-- `getFirstHeaderPointer`. -/
def getFirstHeaderPointer (u : Bytes) : Except Fault ℕ := do
  let stat ← getDataFieldStat u
  return stat &&& 0x7ff

/-- `getVCFrameCount`. -/
def getVCFrameCount (u : Bytes) : Except Fault Octet := octetAt u 3

/-- `setFirstHeaderPointer`. -/
def setFirstHeaderPointer (u : Bytes) (newVal : ℕ) : Except Fault Bytes :=
  if newVal > maxFirstHeaderPointer then
    .error (.valueTooLarge (valueTooLargeMsg "First Header Pointer" newVal maxFirstHeaderPointer))
  else do
    let stat ← getDataFieldStat u
    setDataFieldStat u ((stat &&& 0xf800) ||| (newVal &&& maxFirstHeaderPointer))

/-- `noPacketStart`, of a first header pointer. -/
def noPacketStart (pointer : ℕ) : Bool := pointer = maxFirstHeaderPointer

/-- `onlyIdleData`, of a first header pointer. -/
def onlyIdleData (pointer : ℕ) : Bool := pointer = maxFirstHeaderPointer - 1

/-- `initialize`: the header fields of an otherwise zero frame. -/
def initializeFrame (c : Channel) (dataLen mcFrameCount vcFrameCount : ℕ) : Except Fault Bytes :=
  if c.scid > maxSpacecraftID then
    .error (.valueTooLarge (valueTooLargeMsg "Spacecraft ID" c.scid maxSpacecraftID))
  else if c.vcid > maxVirtualChannelID then
    .error (.valueTooLarge (valueTooLargeMsg "VCID" c.vcid maxVirtualChannelID))
  else
    let ocff := if c.useOperationalControl then 1 else 0
    let fshFlag := if 0 < c.fshSize then 1 else 0
    let fsh := if 0 < c.fshSize then
        UInt8.ofNat ((c.fshSize - 1) &&& 0x3f) :: newUnit (c.fshSize - 1) else []
    let trailer := c.nonDataLength - c.ptrData
    .ok (fromU16 ((c.scid <<< 4) ||| (c.vcid <<< 1) ||| ocff) ++
      [UInt8.ofNat mcFrameCount, UInt8.ofNat vcFrameCount] ++
      fromU16 ((fshFlag <<< 15) ||| (3 <<< 11)) ++ fsh ++ newUnit (dataLen + trailer))

end TM

/-! ## `SpacePacket` -/

namespace SpacePacket

def idleAPIDVal : ℕ := 0x7ff

/-- `minBytesToDetermineLength`. -/
def minBytesToDetermineLength : ℕ := 6

/-- `getPktDataLen`. -/
def getPktDataLen (u : Bytes) : Except Fault ℕ := toU16 (u.drop 4)

/-- `setPktDataLen`. -/
def setPktDataLen (u : Bytes) (newVal : ℕ) : Except Fault Bytes :=
  if u.length < 6 then .error .outOfBounds else .ok (overwrite u 4 (fromU16 newVal))

/-- `expectedLength`. -/
def expectedLength (u : Bytes) : Except Fault ℕ := do
  let n ← getPktDataLen u
  return n + 7

/-- `isIdle`. -/
def isIdle (u : Bytes) : Except Fault Bool := do
  let id ← toU16 u
  return (id &&& 0x7ff) == idleAPIDVal

/-- `SpacePacket(bufLen, frameBuf)`. The Packet Data Length is set to `bufLen - 7` (of
type `ACE_UINT32`) in the low 16 bits, over the octets copied. -/
def new (frameBuf : Bytes) : Except Fault Bytes :=
  if frameBuf.length = 0 then .ok frameBuf
  else setPktDataLen frameBuf ((frameBuf.length + 2 ^ 32 - 7) % 2 ^ 16)

/-- The loop of `setDataToPattern`. An empty pattern never ends it. -/
def patternOctets (pattern : Bytes) : ℕ → ℕ → Except Fault Bytes
  | _, 0 => .ok []
  | 0, _ + 1 => .error .diverges
  | fuel + 1, count + 1 => do
    let rest ← patternOctets pattern fuel (count + 1 - pattern.length)
    return pattern.take (count + 1) ++ rest

/-- `new SpacePacket(bufLen)` and `makeIdle(fillPattern)`. -/
def newIdle (bufLen : ℕ) (fillPattern : Bytes) : Except Fault Bytes := do
  let u ← setPktDataLen (newUnit bufLen) ((bufLen + 2 ^ 32 - 7) % 2 ^ 16)
  let id ← toU16 u
  let u := overwrite u 0 (fromU16 ((id &&& 0xf000) ||| idleAPIDVal))
  let len ← getPktDataLen u
  let octets ← patternOctets fillPattern (len + 1) (len + 1)
  copyUnit u 6 octets

/-- A space packet (version 0) whose Packet Data Length agrees with its octets. -/
def WellFormed (p : Bytes) : Prop :=
  (∃ first rest, p = first :: rest ∧ first.toNat / 32 = 0) ∧ 7 ≤ p.length ∧
    expectedLength p = .ok p.length

end SpacePacket

/-! ## Units without a data field -/

namespace NetworkData

/-- `getDataLength`, which only the classes with a data field override. -/
def getDataLength (_ : Bytes) : Except Fault ℕ :=
  .error (.ndError "Network Data used NetworkData getDataLength()!")

/-- `ptrData`, which only the classes with a data field override. -/
def ptrData (_ : Bytes) : Except Fault ℕ :=
  .error (.ndError "Network Data used NetworkData ptrData()!")

/-- `setDataToPattern`. -/
def setDataToPattern (u pattern : Bytes) : Except Fault Bytes := do
  let fillCount ← getDataLength u
  let octets ← SpacePacket.patternOctets pattern fillCount fillCount
  let data ← ptrData u
  copyUnit u data octets

end NetworkData

end ChannelEmulator
