import ChannelEmulator.Spec.VirtualChannel

/-!
# The TM virtual channel reception

`modules/TM/modTM_VC_Rcv_Packet.cpp` and `modTM_VC_Rcv_Access.cpp`: the loops of `svc`, with
`isValid` of `lib/TM_Transfer_Frame.cpp` and `validateFrame` of `TM_PhysicalChannel_Service.cpp`.
-/

namespace ChannelEmulator.TM

/-! ## Header fields -/

/-- `getMCID`. -/
def getMCID (u : Bytes) : Except Fault ℕ := do
  let v ← toU16 u
  return v >>> 4

/-- `getTFVN`. -/
def getTFVN (u : Bytes) : Except Fault ℕ := do
  let b ← octetAt u 0
  return b.toNat >>> 6

/-- `getVCID`. -/
def getVCID (u : Bytes) : Except Fault ℕ := do
  let b ← octetAt u 1
  return (b.toNat &&& 0xe) >>> 1

/-- `getOCFF`. -/
def getOCFF (u : Bytes) : Except Fault Bool := do
  let b ← octetAt u 1
  return b.toNat &&& 1 = 1

/-- `getSecondaryHeaderFlag`. -/
def getSecondaryHeaderFlag (u : Bytes) : Except Fault Bool := do
  let b ← octetAt u 4
  return (b.toNat >>> 7) &&& 1 = 1

/-- `getSynchronizationFlag`. -/
def getSynchronizationFlag (u : Bytes) : Except Fault Bool := do
  let b ← octetAt u 4
  return (b.toNat >>> 6) &&& 1 = 1

/-- `getPacketOrderFlag`. -/
def getPacketOrderFlag (u : Bytes) : Except Fault Bool := do
  let b ← octetAt u 4
  return (b.toNat >>> 5) &&& 1 = 1

/-- `getSegmentLengthID`. -/
def getSegmentLengthID (u : Bytes) : Except Fault ℕ := do
  let b ← octetAt u 4
  return (b.toNat >>> 3) &&& 3

/-- `getSecondaryHeaderDataLength`, of a frame with a secondary header. -/
def getSecondaryHeaderDataLength (u : Bytes) : Except Fault ℕ := do
  let b ← octetAt u spanPrimaryHeader
  return b.toNat &&& 0x3f

/-- The length stored in the secondary header, which is read where the frame has one. -/
def Channel.secondaryHeaderDataLength (c : Channel) (u : Bytes) : Except Fault ℕ :=
  if 0 < c.fshSize then getSecondaryHeaderDataLength u else .ok 0

/-- `isValid`. Where a frame is shorter than its fields, the length of its data field wraps around. -/
def isValid (c : Channel) (u : Bytes) : Except Fault ℤ := do
  let tfvn ← getTFVN u
  if tfvn ≠ 0 then return -1
  else do
    let ocff ← getOCFF u
    if c.useOperationalControl && !ocff then return -2
    else if !c.useOperationalControl && ocff then return -3
    else do
      let secondaryHeaderFlag ← getSecondaryHeaderFlag u
      let synchronizationFlag ← getSynchronizationFlag u
      let packetOrderFlag ← getPacketOrderFlag u
      let segmentLengthID ← getSegmentLengthID u
      if 0 < c.fshSize ∧ !secondaryHeaderFlag then return -4
      else if c.fshSize = 0 ∧ secondaryHeaderFlag then return -5
      else if !synchronizationFlag && packetOrderFlag then return -6
      else if !synchronizationFlag ∧ segmentLengthID ≠ 3 then return -7
      else do
        let dataLength ← c.secondaryHeaderDataLength u
        if 0 < c.fshSize ∧ dataLength ≠ c.fshSize - 1 then return -8
        else do
          let pointer ← getFirstHeaderPointer u
          if !noPacketStart pointer ∧ !onlyIdleData pointer ∧ pointer > sizeDiff u.length c.nonDataLength then
            return -9
          else return 1

/-! ## The tests of `svc` -/

/-- The tallies of a virtual channel. -/
structure Tallies where
  currentFrameNumber : Octet := 0
  frameCountMisses : ℕ := 0
  validFrameCount : ℕ := 0
  badLengthCount : ℕ := 0
  badHeaderCount : ℕ := 0
  badMCIDCount : ℕ := 0
  badVCIDCount : ℕ := 0
deriving DecidableEq, Repr

/-- What both services are set up with. -/
structure Service where
  channel : Channel
  frameSize : ℕ
  dropBadFrames : Bool := true
deriving DecidableEq, Repr

namespace Service

variable (v : Service)

/-- `validateFrame`. -/
def validateFrame (k : Tallies) (u : Bytes) : Except Fault (Tallies × Bool) :=
  if u.length ≠ v.frameSize then .ok ({ k with badLengthCount := k.badLengthCount + 1 }, false)
  else do
    let valid ← isValid v.channel u
    if 0 < valid then return (k, true)
    else return ({ k with badHeaderCount := k.badHeaderCount + 1 }, false)

/-- A test that fails: whether the loop goes on with the frame. -/
def failed (valid : Bool) : Bool := !valid && v.dropBadFrames

/-- The tests of `svc` both services make, with the answer to whether the frame is valid, or none
where it is dropped. `deleteBadFrame` is the argument of `validateFrame`: the frame it releases is
used again where bad frames are not dropped. -/
def identify (deleteBadFrame : Bool) (k : Tallies) (u : Bytes) :
    Except Fault (Tallies × Option Bool) :=
  let sized : Bool := u.length = v.frameSize
  let k := if sized then k else { k with badLengthCount := k.badLengthCount + 1 }
  if v.failed sized then .ok (k, none)
  else do
    let (k, good) ← v.validateFrame k u
    if v.failed good then return (k, none)
    else if deleteBadFrame && !sized then .error .nullPointer
    else do
      let mcid ← getMCID u
      let ours : Bool := mcid = v.channel.scid
      let k := if ours then k else { k with badMCIDCount := k.badMCIDCount + 1 }
      if v.failed ours then return (k, none)
      else do
        let vcid ← getVCID u
        let mine : Bool := vcid = v.channel.vcid
        let k := if mine then k else { k with badVCIDCount := k.badVCIDCount + 1 }
        if v.failed mine then return (k, none)
        else return (k, some (sized && good && ours && mine))

end Service

/-- `incCurrentFrameNumber(maxVCFrameCount)`. -/
def incCurrentFrameNumber (n : Octet) : Octet := if n = 0xff then 0 else n + 1

/-- What is done with the frame count of a frame. -/
def Tallies.countFrame (k : Tallies) (count : Octet) (valid : Bool) : Tallies :=
  let k := if count ≠ k.currentFrameNumber then
      { k with frameCountMisses := k.frameCountMisses + 1, currentFrameNumber := count }
    else k
  let k := if valid then { k with validFrameCount := k.validFrameCount + 1 } else k
  { k with currentFrameNumber := incCurrentFrameNumber k.currentFrameNumber }

/-! ## `modTM_VC_Rcv_Packet` -/

structure PacketService where
  tallies : Tallies := {}
  rcv : Rcv := {}
deriving DecidableEq, Repr

/-- What `svc` does with a frame that it has counted. -/
def Rcv.deliver (c : Channel) (s : Rcv) (u : Bytes) : Except Fault (Rcv × List Bytes) := do
  let synchronizationFlag ← getSynchronizationFlag u
  if synchronizationFlag then return (s, [])
  else s.assemblePacket c u

/-- One pass of the loop of `svc` over a frame. -/
def PacketService.svc (v : Service) (s : PacketService) (u : Bytes) :
    Except Fault (PacketService × List Bytes) := do
  let (k, checked) ← v.identify false s.tallies u
  match checked with
  | none => return ({ s with tallies := k }, [])
  | some valid => do
    let pointer ← getFirstHeaderPointer u
    if onlyIdleData pointer then return ({ s with tallies := k }, [])
    else do
      let count ← getVCFrameCount u
      -- the packet at hand can't be valid behind a gap
      let rcv := if count ≠ k.currentFrameNumber then { s.rcv with packet := none } else s.rcv
      let (rcv, sent) ← rcv.deliver v.channel u
      return ({ tallies := k.countFrame count valid, rcv := rcv }, sent)

/-! ## `modTM_VC_Rcv_Access` -/

/-- One pass of the loop of `svc` over a frame. -/
def accessSvc (v : Service) (k : Tallies) (u : Bytes) : Except Fault (Tallies × List Bytes) := do
  let (k, checked) ← v.identify true k u
  match checked with
  | none => return (k, [])
  | some valid => do
    let synchronizationFlag ← getSynchronizationFlag u
    if v.failed synchronizationFlag then return (k, [])
    else do
      let pointer ← getFirstHeaderPointer u
      if onlyIdleData pointer then return (k, [])
      else do
        let count ← getVCFrameCount u
        return (k.countFrame count (valid && synchronizationFlag), [v.channel.data u])

end ChannelEmulator.TM
