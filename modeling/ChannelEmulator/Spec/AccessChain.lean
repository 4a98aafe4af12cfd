import ChannelEmulator.Spec.FrameReception
import ChannelEmulator.Spec.FrameZones

/-!
# The TM chain of the access service

The loops of `svc` of `modules/TM/modTM_VC_Gen_Access.cpp`, `modTM_MC_Gen.cpp`, `modTM_AF_Gen.cpp`,
`modTM_AF_Rcv.cpp` and `modTM_MC_Rcv.cpp`, with the output links connected, and the setters of
`TM_MasterChannel_Service.hpp` and `TM_VirtualChannel_Service.hpp`.
-/

namespace ChannelEmulator.TM

open Framing

/-! ## Settings -/

/-- What all modules of a chain are set to. -/
structure Settings where
  scid : ℕ
  vcid : Octet
  fshSize : ℕ := 0
  useOperationalControl : Bool := false
  useFrameErrorControl : Bool := false
  frameSize : ℕ
  dropBadFrames : Bool := true
deriving DecidableEq, Repr

/-- `setSCID`. The member it sets is of type `u_int8_t`. -/
def setSCID (newVal : ℕ) : Except Fault Octet :=
  if newVal > maxSpacecraftID then
    .error (.valueTooLarge (valueTooLargeMsg "SCID" newVal maxSpacecraftID))
  else .ok (UInt8.ofNat newVal)

/-- `setVCID`. -/
def setVCID (newVal : Octet) : Except Fault Octet :=
  if newVal.toNat > maxVirtualChannelID then
    .error (.valueTooLarge (valueTooLargeMsg "VCID" newVal.toNat maxVirtualChannelID))
  else .ok newVal

/-- `setFSHSize`. -/
def setFSHSize (newVal : ℕ) : Except Fault ℕ :=
  if newVal > maxFSHLen then
    .error (.valueTooLarge
      (valueTooLargeMsg "Frame Secondary Header Length" newVal maxFSHLen))
  else .ok newVal

/-- The fields of the frames of a module whose members are set so: `getSCID`, and `getVCID`,
which keeps three bits. -/
def channelOf (s : Settings) (scid vcid : Octet) (fshSize : ℕ) : Channel where
  scid := scid.toNat
  vcid := vcid.toNat &&& 7
  useOperationalControl := s.useOperationalControl
  useFrameErrorControl := s.useFrameErrorControl
  fshSize := fshSize
  scid_le := Nat.le_trans (Nat.le_of_lt_succ scid.toNat_lt) (Nat.le_of_ble_eq_true rfl)
  vcid_le := Nat.and_le_right

/-- A module with its settings. -/
def Settings.configure (s : Settings) : Except Fault Service := do
  let scid ← setSCID s.scid
  let vcid ← setVCID s.vcid
  let fshSize ← setFSHSize s.fshSize
  return { channel := channelOf s scid vcid fshSize, frameSize := s.frameSize
           dropBadFrames := s.dropBadFrames }

/-! ## Octets of the header -/

/-- `setSynchronizationFlag`. -/
def setSynchronizationFlag (u : Bytes) (newVal : Bool) : Except Fault Bytes := do
  let b ← octetAt u 4
  storeAt u 4 [UInt8.ofNat ((b.toNat &&& 0xbf) ||| ((if newVal then 1 else 0) <<< 6))]

/-- `setMCFrameCount`. -/
def setMCFrameCount (u : Bytes) (newVal : Octet) : Except Fault Bytes := storeAt u 2 [newVal]

/-- `getMCFrameCount`. -/
def getMCFrameCount (u : Bytes) : Except Fault Octet := octetAt u 2

/-- `getSpacecraftID`. -/
def getSpacecraftID (u : Bytes) : Except Fault ℕ := do
  let mcid ← getMCID u
  return mcid &&& 0x3ff

/-- `setData`, of a frame with the fields of `c`. -/
def Channel.setData (c : Channel) (u data : Bytes) : Except Fault Bytes :=
  if data.length ≤ c.dataLength u then copyUnit u c.ptrData data
  else .error (.bufferOverflow (bufferOverflowMsg "Data Field" data.length (c.dataLength u)))

/-- `setFrameErrorControl`, of a frame with the field. -/
def Channel.setFrameErrorControl (c : Channel) (u : Bytes) (newECVal : UInt16) : Except Fault Bytes :=
  if !c.useFrameErrorControl then
    .error (.missingField (missingFieldMsg "TM Transfer Frame" "Frame Error Control"))
  else storeAt u ((if c.useOperationalControl then spanOperationalControlField else 0) + c.ptrData +
    c.dataLength u) (fromU16 newECVal.toNat)

/-- `getFrameCRC16`; `computeCCITT_16_CRC` is that of the AOS frames. -/
def getFrameCRC16 (u : Bytes) : UInt16 :=
  AOS.computeCRC (u.take (u.length - spanFrameErrorControlField)) AOS.crcInitial

/-- `initializeCRC`, of a frame with the fields of `c` and a frame error control field. -/
def Channel.initializeCRC (c : Channel) (u : Bytes) : Except Fault Bytes :=
  c.setFrameErrorControl u (getFrameCRC16 u)

/-- `hasValidCRC`. -/
def hasValidCRC (u : Bytes) : Bool := AOS.computeCRC u AOS.crcInitial == 0

/-! ## The sender -/

namespace Service

variable (v : Service)

/-- `getMRU` of `modTM_VC_Gen_Access`. -/
def getMRU : ℕ := v.frameSize - v.channel.nonDataLength

/-- `build` as `modTM_VC_Gen_Access` calls it, and the synchronization flag set. -/
def buildAccess (count : Octet) (data : Bytes) : Except Fault Bytes := do
  let frame ← initializeFrame v.channel data.length 0 count.toNat
  let frame ← v.channel.setData frame data
  let frame ← setFirstHeaderPointer frame 0
  setSynchronizationFlag frame true

/-- One pass of the loop of `svc` of `modTM_VC_Gen_Access` over a unit. -/
def accessGen (k : Tallies) (data : Bytes) : Except Fault (Tallies × List Bytes) :=
  let frameIsValid : Bool := data.length = v.getMRU
  if v.failed frameIsValid then .ok (k, [])
  else do
    let frame ← v.buildAccess k.currentFrameNumber data
    let k := if frameIsValid then { k with validFrameCount := k.validFrameCount + 1 } else k
    return ({ k with currentFrameNumber := incCurrentFrameNumber k.currentFrameNumber }, [frame])

/-- One pass of the loop of `svc` of `modTM_MC_Gen` over a frame. -/
def mcGen (k : Tallies) (frame : Bytes) : Except Fault (Tallies × List Bytes) :=
  let sized : Bool := frame.length = v.frameSize
  let k := if sized then k else { k with badLengthCount := k.badLengthCount + 1 }
  if v.failed sized then .ok (k, [])
  else do
    let scid ← getSpacecraftID frame
    let ours : Bool := scid = v.channel.scid
    let k := if ours then k else { k with badMCIDCount := k.badMCIDCount + 1 }
    if v.failed ours then return (k, [])
    else do
      let k := if sized && ours then { k with validFrameCount := k.validFrameCount + 1 } else k
      let frame ← setMCFrameCount frame k.currentFrameNumber
      return ({ k with currentFrameNumber := incCurrentFrameNumber k.currentFrameNumber }, [frame])

/-- `addErrorControlIfPossible`, of a frame that has the field where the module uses it. -/
def addErrorControlIfPossible (frame : Bytes) : Except Fault Bytes :=
  if v.channel.useFrameErrorControl then
    v.channel.setFrameErrorControl frame (getFrameCRC16 frame)
  else .ok frame

/-- One pass of the loop of `svc` of `modTM_AF_Gen` over a frame. -/
def afGen (k : Tallies) (frame : Bytes) : Except Fault (Tallies × List Bytes) :=
  let sized : Bool := frame.length = v.frameSize
  let k := if sized then { k with validFrameCount := k.validFrameCount + 1 }
    else { k with badLengthCount := k.badLengthCount + 1 }
  if v.failed sized then .ok (k, [])
  else do
    let frame ← v.addErrorControlIfPossible frame
    return (k, [frame])

/-! ## The receiver -/

/-- The fields of `_frameTemplate` of `modTM_AF_Rcv`, which the octets received are taken to have:
whether there is an operational control field depends on the virtual channel. -/
def template : Channel where
  scid := v.channel.scid
  vcid := v.channel.vcid
  useOperationalControl := false
  useFrameErrorControl := v.channel.useFrameErrorControl
  fshSize := 0
  scid_le := v.channel.scid_le
  vcid_le := v.channel.vcid_le

/-- `modTM_AF_Rcv` with its tallies. -/
structure AllFrames where
  tallies : Tallies := {}
  badFrameChecksumCount : ℕ := 0
deriving DecidableEq, Repr

/-- The tests of `svc` of `modTM_AF_Rcv`, and whether the frame passes them. -/
def checkAllFrames (k : AllFrames) (frame : Bytes) : Except Fault (AllFrames × Bool) := do
  let (t, valid) ← validateFrame { v with channel := v.template } k.tallies frame
  let k := { k with tallies := t }
  if !valid then return (k, false)
  else if v.channel.useFrameErrorControl && !hasValidCRC frame then
    return ({ k with badFrameChecksumCount := k.badFrameChecksumCount + 1 }, false)
  else return ({ k with tallies := { t with validFrameCount := t.validFrameCount + 1 } }, true)

/-- One pass of the loop of `svc` of `modTM_AF_Rcv` over octets. -/
def afRcv (k : AllFrames) (frame : Bytes) : Except Fault (AllFrames × List Bytes) := do
  let (k, valid) ← v.checkAllFrames k frame
  if v.failed valid then return (k, [])
  else do
    let pointer ← getFirstHeaderPointer frame
    if onlyIdleData pointer then return (k, []) else return (k, [frame])

/-- What `modTM_MC_Rcv` does with the master channel frame count of a frame. -/
def countMasterFrame (k : Tallies) (count : Octet) (valid : Bool) : Tallies :=
  let k := if count ≠ k.currentFrameNumber then { k with currentFrameNumber := count } else k
  let k := if valid then { k with validFrameCount := k.validFrameCount + 1 } else k
  { k with currentFrameNumber := incCurrentFrameNumber k.currentFrameNumber }

/-- One pass of the loop of `svc` of `modTM_MC_Rcv` over a frame. -/
def mcRcv (k : Tallies) (frame : Bytes) : Except Fault (Tallies × List Bytes) :=
  let sized : Bool := frame.length = v.frameSize
  let k := if sized then k else { k with badLengthCount := k.badLengthCount + 1 }
  if v.failed sized then .ok (k, [])
  else do
    let (k, good) ← v.validateFrame k frame
    if v.failed good then return (k, [])
    else do
      let mcid ← getMCID frame
      let ours : Bool := mcid = v.channel.scid
      let k := if ours then k else { k with badMCIDCount := k.badMCIDCount + 1 }
      if v.failed ours then return (k, [])
      else do
        let pointer ← getFirstHeaderPointer frame
        if onlyIdleData pointer then return (k, [])
        else do
          let count ← getMCFrameCount frame
          return (countMasterFrame k count (sized && good && ours), [frame])

/-! ## The chain -/

/-- What the sender makes of units. -/
def emit (units : List Bytes) : Except Fault (List Bytes) := do
  let (_, frames) ← runAll v.accessGen {} units
  let (_, frames) ← runAll v.mcGen {} frames
  let (_, octets) ← runAll v.afGen {} frames
  return octets

/-- What the receiver is left with. -/
structure Received where
  allFrames : AllFrames
  masterChannel : Tallies
  virtualChannel : Tallies
  units : List Bytes
deriving DecidableEq, Repr

/-- The receiver on octets. -/
def receive (octets : List Bytes) : Except Fault Received := do
  let (a, frames) ← runAll v.afRcv {} octets
  let (m, frames) ← runAll v.mcRcv {} frames
  let (k, units) ← runAll (accessSvc v) {} frames
  return { allFrames := a, masterChannel := m, virtualChannel := k, units := units }

/-- Both ends. -/
def chain (units : List Bytes) : Except Fault Received := do
  let octets ← v.emit units
  v.receive octets

end Service

end ChannelEmulator.TM
