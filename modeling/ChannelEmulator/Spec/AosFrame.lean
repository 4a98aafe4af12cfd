import ChannelEmulator.Spec.NetworkData

/-!
# AOS transfer frames

`lib/AOS_Transfer_Frame.cpp` and `.hpp`. A frame is its octets; which optional fields it has
is its `Layout`.
-/

namespace ChannelEmulator.AOS

def spanGVCIDField : ℕ := 2
def spanSignalingField : ℕ := 1
def spanVCFrameCountField : ℕ := 3
def spanRequiredHeader : ℕ := spanGVCIDField + spanSignalingField + spanVCFrameCountField
def spanFrameHeaderErrorControl : ℕ := 2
def spanOperationalControlField : ℕ := 4
def spanFrameErrorControlField : ℕ := 2
def crcInitial : UInt16 := 0xFFFF
def maxSpacecraftID : ℕ := 0xFF
def maxVirtualChannelID : ℕ := 63
def maxVCFrameCount : ℕ := 16777215
def maxVCFrameCountCycle : ℕ := 15
def idleVirtualChannelID : ℕ := maxVirtualChannelID

/-- The optional fields of a frame. -/
structure Layout where
  hasHeaderErrorControl : Bool := false
  inSduLen : ℕ := 0
  hasOperationalControl : Bool := false
  hasFrameErrorControl : Bool := false
deriving DecidableEq, Repr

/-- `getHeaderByteLength`. -/
def Layout.headerByteLength (l : Layout) : ℕ :=
  spanRequiredHeader + (if l.hasHeaderErrorControl then spanFrameHeaderErrorControl else 0)

/-- `getNonDataLength`. -/
def Layout.nonDataLength (l : Layout) : ℕ :=
  l.headerByteLength + (if l.hasOperationalControl then spanOperationalControlField else 0) +
    (if l.hasFrameErrorControl then spanFrameErrorControlField else 0)

/-- `getDataLength`. -/
def Layout.dataLength (l : Layout) (u : Bytes) : ℕ := u.length - l.inSduLen - l.nonDataLength

def ptrVCFrameCount : ℕ := spanGVCIDField
def ptrSignalingField : ℕ := ptrVCFrameCount + spanVCFrameCountField

/-- `ptrData`. -/
def Layout.ptrData (l : Layout) : ℕ :=
  ptrSignalingField + spanSignalingField + l.inSduLen +
    (if l.hasHeaderErrorControl then spanFrameHeaderErrorControl else 0)

/-! ## Identifiers -/

/-- `_front2OctetVal`. -/
def front2OctetVal (u : Bytes) : Except Fault ℕ := toU16 u

/-- `_front2OctetSet`. -/
def front2OctetSet (u : Bytes) (verNum spacecraftId vcid : ℕ) : Except Fault Bytes :=
  storeAt u 0 (fromU16 ((verNum <<< 14) ||| (spacecraftId <<< 6) ||| vcid))

/-- `getMCID`. -/
def getMCID (u : Bytes) : Except Fault ℕ := do
  let v ← toU16 u
  return v >>> 6

/-- `getTFVN`. -/
def getTFVN (u : Bytes) : Except Fault ℕ := do
  let v ← front2OctetVal u
  return (v &&& 0xC000) >>> 14

/-- `getSpacecraftID`. -/
def getSpacecraftID (u : Bytes) : Except Fault ℕ := do
  let v ← front2OctetVal u
  return (v &&& 0x3FC0) >>> 6

/-- `getVirtualChannelID`. -/
def getVirtualChannelID (u : Bytes) : Except Fault ℕ := do
  let v ← front2OctetVal u
  return v &&& 0x3F

/-- `setTFVN`. -/
def setTFVN (u : Bytes) (newVer : ℕ) : Except Fault Bytes := do
  let scid ← getSpacecraftID u
  let vcid ← getVirtualChannelID u
  front2OctetSet u newVer scid vcid

/-- `setSpacecraftID`. -/
def setSpacecraftID (u : Bytes) (newSCID : ℕ) : Except Fault Bytes :=
  if newSCID ≤ maxSpacecraftID then do
    let ver ← getTFVN u
    let vcid ← getVirtualChannelID u
    front2OctetSet u ver newSCID vcid
  else .error (.valueTooLarge (valueTooLargeMsg "Spacecraft ID" newSCID maxSpacecraftID))

/-- `setVirtualChannelID`. -/
def setVirtualChannelID (u : Bytes) (newVcId : ℕ) : Except Fault Bytes :=
  if newVcId ≤ maxVirtualChannelID then do
    let ver ← getTFVN u
    let scid ← getSpacecraftID u
    front2OctetSet u ver scid newVcId
  else .error (.valueTooLarge (valueTooLargeMsg "Virtual Channel ID" newVcId maxVirtualChannelID))

/-- `isIdle`. -/
def isIdle (u : Bytes) : Except Fault Bool := do
  let vcid ← getVirtualChannelID u
  return vcid == idleVirtualChannelID

/-! ## Frame count and signaling field -/

/-- `getVCFrameCount`. -/
def getVCFrameCount (u : Bytes) : Except Fault ℕ := do
  let v ← toU32 (u.drop ptrVCFrameCount)
  return v >>> 8

/-- `setVCFrameCount`. -/
def setVCFrameCount (u : Bytes) (newCount : ℕ) : Except Fault Bytes :=
  if newCount ≤ maxVCFrameCount then copyUnit u ptrVCFrameCount ((fromU32 newCount).drop 1)
  else .error (.valueTooLarge (valueTooLargeMsg "Virtual Frame Count" newCount maxVCFrameCount))

/-- `getSignalingField`. -/
def getSignalingField (u : Bytes) : Except Fault Octet := octetAt u ptrSignalingField

/-- `getReplayFlag`. -/
def getReplayFlag (u : Bytes) : Except Fault Bool := do
  let b ← getSignalingField u
  return decide (b >>> 7 ≠ 0)

/-- `setReplayFlag`. -/
def setReplayFlag (u : Bytes) (flagVal : Bool) : Except Fault Bytes := do
  let b ← getSignalingField u
  storeAt u ptrSignalingField [(b &&& 0x7F) + (if flagVal then 0x80 else 0)]

/-- `getVCFrameCountCycleUsageFlag`. -/
def getVCFrameCountCycleUsageFlag (u : Bytes) : Except Fault Bool := do
  let b ← getSignalingField u
  return decide ((b &&& (0x40 : Octet)) ≠ 0)

/-- `setVCFrameCountCycleUsageFlag`. -/
def setVCFrameCountCycleUsageFlag (u : Bytes) (flagVal : Bool) : Except Fault Bytes := do
  let b ← getSignalingField u
  storeAt u ptrSignalingField [(b &&& 0xBF) ||| (if flagVal then 0x40 else 0)]

/-- `setRsvdSpare`. -/
def setRsvdSpare (u : Bytes) (newVal : Octet) : Except Fault Bytes := do
  let b ← getSignalingField u
  storeAt u ptrSignalingField [(b &&& 0xEF) ||| ((newVal &&& (0x1 : Octet)) <<< (4 : Octet))]

/-- `getVCFrameCountCycle`. -/
def getVCFrameCountCycle (u : Bytes) : Except Fault ℕ := do
  let b ← getSignalingField u
  return (b &&& 0xF).toNat

/-- `setVCFrameCountCycle`. The usage flag is negated where the value is zero. -/
def setVCFrameCountCycle (u : Bytes) (newVal : ℕ) : Except Fault Bytes :=
  if newVal ≤ maxVCFrameCountCycle then do
    let u ← setVCFrameCountCycleUsageFlag u (newVal ≠ 0)
    let b ← getSignalingField u
    storeAt u ptrSignalingField [(b &&& 0xF0) ||| (UInt8.ofNat newVal &&& 0xF)]
  else .error (.valueTooLarge
    (valueTooLargeMsg "Virtual Frame Count Cycle" newVal maxVCFrameCountCycle))

/-- `incVCFrameCountCycle`. -/
def incVCFrameCountCycle (u : Bytes) : Except Fault Bytes := do
  let c ← getVCFrameCountCycle u
  setVCFrameCountCycle u (c + 1)

/-- `incVCFrameCount`. -/
def incVCFrameCount (u : Bytes) : Except Fault Bytes := do
  let n ← getVCFrameCount u
  if n = maxVCFrameCount then do
    let u ← setVCFrameCount u 0
    incVCFrameCountCycle u
  else setVCFrameCount u (n + 1)

/-- `getVCFrameCountPlusCycle`. -/
def getVCFrameCountPlusCycle (u : Bytes) : Except Fault ℕ := do
  let c ← getVCFrameCountCycle u
  let n ← getVCFrameCount u
  return (c <<< 24) + n

/-! ## Frame error control -/

/-- One octet of `computeCCITT_16_CRC`. -/
def crcStep (crc : UInt16) (octet : Octet) : UInt16 :=
  let crc := (crc >>> 8) ||| (crc <<< 8)
  let crc := crc ^^^ octet.toUInt16
  let crc := crc ^^^ ((crc &&& 0xff) >>> 4)
  let crc := crc ^^^ ((crc <<< 8) <<< 4)
  crc ^^^ (((crc &&& 0xff) <<< 4) <<< 1)

/-- `computeCCITT_16_CRC`. -/
def computeCRC (data : Bytes) (crc : UInt16) : UInt16 := data.foldl crcStep crc

/-- `getFrameCRC16`. -/
def getFrameCRC16 (u : Bytes) : UInt16 :=
  computeCRC (u.take (u.length - spanFrameErrorControlField)) crcInitial

/-- `hasValidCRC`. -/
def hasValidCRC (u : Bytes) : Bool := computeCRC u crcInitial == 0

namespace Layout

variable (l : Layout)

/-- `setFrameErrorControl`. -/
def setFrameErrorControl (u : Bytes) (newECVal : UInt16) : Except Fault Bytes :=
  if !l.hasFrameErrorControl then
    .error (.missingField (missingFieldMsg "AOS Transfer Frame" "Frame Error Control"))
  else storeAt u ((if l.hasOperationalControl then spanOperationalControlField else 0) + l.ptrData +
    l.dataLength u) (fromU16 newECVal.toNat)

/-- `initializeCRC`, for a frame with a frame error control field. -/
def initializeCRC (u : Bytes) : Except Fault Bytes := l.setFrameErrorControl u (getFrameCRC16 u)

/-- `ptrOperationalControl`. In a frame shorter than its fields, the pointer is off the data. -/
def ptrOperationalControl (u : Bytes) : Except Fault ℤ :=
  if l.hasOperationalControl then .ok ((l.ptrData : ℤ) + (u.length - l.inSduLen - l.nonDataLength))
  else .error (.missingField (missingFieldMsg "AOS Transfer Frame" "Operational Control"))

/-- `setReportType`. -/
def setReportType (u : Bytes) (newReportVal : ℕ) : Except Fault Bytes :=
  if newReportVal ≠ 1 ∧ newReportVal ≠ 2 then
    .error (.valueOutOfRange (valueOutOfRangeMsg "Report Type" newReportVal 1 2))
  else do
    let ptr ← l.ptrOperationalControl u
    let b ← octetAtPtr u ptr
    storeAtPtr u ptr [if newReportVal = 1 then b &&& 0x7f else b ||| 0x80]

/-- `setData`. -/
def setData (u data : Bytes) : Except Fault Bytes :=
  if data.length ≤ l.dataLength u then copyUnit u l.ptrData data
  else .error (.bufferOverflow (bufferOverflowMsg "Data Field" data.length (l.dataLength u)))

/-- `initialize`. -/
def initializeFrame (spacecraftId virtualChannelId dataLen : ℕ) (vcFrameCount : ℤ)
    (vcFrameCountCycleUsageFlag : Bool) (vcFrameCountCycle : ℤ) : Except Fault Bytes := do
  let u ← setTFVN (newUnit (l.nonDataLength + dataLen + l.inSduLen)) 1
  let u ← setSpacecraftID u spacecraftId
  let u ← setVirtualChannelID u virtualChannelId
  let u ← if vcFrameCount > -1 then setVCFrameCount u vcFrameCount.toNat else .ok u
  let u ← setVCFrameCountCycleUsageFlag u vcFrameCountCycleUsageFlag
  let u ← if vcFrameCountCycle > -1 then setVCFrameCountCycle u vcFrameCountCycle.toNat else .ok u
  setRsvdSpare u 0

/-- What `build` does where there is an operational control field. -/
def setReports (u : Bytes) (replayFlag : Bool) (reportType : ℕ) : Except Fault Bytes :=
  if l.hasOperationalControl then do
    let u ← setReplayFlag u replayFlag
    l.setReportType u reportType
  else .ok u

/-- `build`. The frame count is of type `ACE_UINT32` and the cycle of type `ACE_UINT8`;
`initialize` takes them as signed values. -/
def build (spacecraftID virtualChannelID vcFrameCount : ℕ) (replayFlag vcFrameCountCycleUsageFlag : Bool)
    (vcFrameCountCycle reportType : ℕ) (data : Bytes) : Except Fault Bytes := do
  let u ← l.initializeFrame spacecraftID virtualChannelID data.length
    (Int.bmod vcFrameCount (2 ^ 32)) vcFrameCountCycleUsageFlag (Int.bmod vcFrameCountCycle (2 ^ 8))
  let u ← l.setReports u replayFlag reportType
  let u ← l.setData u data
  if l.hasFrameErrorControl then l.setFrameErrorControl u (getFrameCRC16 u) else .ok u

/-- `build` where no data is given: the frame error control field is left as `initialize` leaves it. -/
def buildNoData (spacecraftID virtualChannelID vcFrameCount : ℕ) (replayFlag vcFrameCountCycleUsageFlag : Bool)
    (vcFrameCountCycle reportType : ℕ) : Except Fault Bytes := do
  let u ← l.initializeFrame spacecraftID virtualChannelID 0 (Int.bmod vcFrameCount (2 ^ 32))
    vcFrameCountCycleUsageFlag (Int.bmod vcFrameCountCycle (2 ^ 8))
  l.setReports u replayFlag reportType

end Layout

end ChannelEmulator.AOS
