import ChannelEmulator.Spec.AosFrame
import ChannelEmulator.Spec.SymbolPacking

/-!
# AOS frames of a physical channel

`modules/AOS/modAOS_AF_Gen.cpp` and `modAOS_AF_Rcv.cpp`, with the output link connected: the header error
control and the frame error control.
-/

namespace ChannelEmulator.AOS

open ReedSolomon

/-- What `_aosHeaderEncoder` and `_aosHeaderDecoder` are constructed with. -/
def headerCode : RSParams := ⟨0x13, 4, 10, 4, 1, 6, 1, false⟩

/-- The settings of `AOS_PhysicalChannel_Service`, which both modules are set to. -/
structure PhysicalChannel where
  frameSize : ℕ
  useHeaderErrorControl : Bool := false
  useFrameErrorControl : Bool := false
  insertZoneSize : ℕ := 0
  dropBadFrames : Bool := true
deriving DecidableEq, Repr

/-- `ptrHeaderErrorControl`. -/
def Layout.ptrHeaderErrorControl (l : Layout) : Except Fault ℕ :=
  if l.hasHeaderErrorControl then .ok (ptrSignalingField + spanSignalingField)
  else .error (.missingField (missingFieldMsg "AOS Transfer Frame" "Header Error Control"))

/-- The octets at a pointer, as `memcpy` reads them. -/
def octetsAt (u : Bytes) (ptr len : ℕ) : Except Fault Bytes :=
  if u.length < ptr + len then .error .outOfBounds else .ok ((u.drop ptr).take len)

/-! ## `modAOS_AF_Gen` -/

/-- The symbols that parity is generated for. -/
def headerDataUnpacked (u : Bytes) : Except Fault SymVec := do
  let gvcid ← octetsAt u 0 2
  let signalingField ← getSignalingField u
  unpack 4 (gvcid ++ [signalingField]) 6 0

/-- `addErrorControlIfPossible`: the parity of the header. -/
def addHeaderErrorControl (rs : RSBase) (l : Layout) (u : Bytes) : Except Fault Bytes := do
  let headerData ← headerDataUnpacked u
  let headerParity ← rs.encode headerData
  let ptr ← l.ptrHeaderErrorControl
  let packed ← pack 4 headerParity 4 2 0
  storeAt u ptr packed

/-- `addErrorControlIfPossible`: the header of a frame that has the field. -/
def addHeaderIfPossible (v : PhysicalChannel) (rs : RSBase) (l : Layout) (u : Bytes) : Except Fault Bytes :=
  if v.useHeaderErrorControl && l.hasHeaderErrorControl then addHeaderErrorControl rs l u else .ok u

/-- `addErrorControlIfPossible`. -/
def addErrorControlIfPossible (v : PhysicalChannel) (rs : RSBase) (l : Layout) (u : Bytes) : Except Fault Bytes := do
  let u ← addHeaderIfPossible v rs l u
  if v.useFrameErrorControl && l.hasFrameErrorControl then l.initializeCRC u else .ok u

/-- The tallies of `modAOS_AF_Gen`. -/
structure GenTallies where
  validFrameCount : ℕ := 0
  badLengthCount : ℕ := 0
deriving DecidableEq, Repr

/-- One pass of the loop of `svc` of `modAOS_AF_Gen` over a frame; `getMRU` is the frame size. -/
def afGen (v : PhysicalChannel) (rs : RSBase) (l : Layout) (k : GenTallies) (u : Bytes) :
    Except Fault (GenTallies × List Bytes) := do
  let sized : Bool := u.length = v.frameSize
  let k := if sized then { k with validFrameCount := k.validFrameCount + 1 }
    else { k with badLengthCount := k.badLengthCount + 1 }
  if !sized && v.dropBadFrames then return (k, [])
  else do
    let u ← addErrorControlIfPossible v rs l u
    return (k, [u])

/-! ## `modAOS_AF_Rcv` -/

/-- The tallies of `modAOS_AF_Rcv`. -/
structure RcvTallies where
  validFrameCount : ℕ := 0
  badLengthCount : ℕ := 0
  badTFVNCount : ℕ := 0
  badFrameChecksumCount : ℕ := 0
  correctedHeaderErrorCount : ℕ := 0
  uncorrectedHeaderErrorCount : ℕ := 0
  errorlessHeaderUnitCount : ℕ := 0
  correctedHeaderUnitCount : ℕ := 0
  uncorrectedHeaderUnitCount : ℕ := 0
deriving DecidableEq, Repr

/-- The symbols that parity is checked for. -/
def codewordUnpacked (u : Bytes) : Except Fault SymVec := do
  let gvcid ← octetsAt u 0 2
  let signaling ← octetsAt u ptrSignalingField 3
  unpack 4 (gvcid ++ signaling) 10 0

/-- The correction of the header in `validateFrame`, with the frame that it leaves, or none where it fails. -/
def correctHeader (rs : RSBase) (k : RcvTallies) (u : Bytes) : Except Fault (RcvTallies × Option Bytes) := do
  let codeword ← codewordUnpacked u
  match rs.correct codeword with
  | .ok (corrected, errs) => do
    let headerData ← pack 4 corrected 10 5 0
    if 0 < errs then do
      let u ← copyUnit u 0 (headerData.take 2)
      let u ← copyUnit u ptrSignalingField (headerData.drop 2)
      return ({ k with
        correctedHeaderUnitCount := k.correctedHeaderUnitCount + 1
        correctedHeaderErrorCount := k.correctedHeaderErrorCount + errs }, some u)
    else return ({ k with errorlessHeaderUnitCount := k.errorlessHeaderUnitCount + 1 }, some u)
  | .error (.tooManyErrors _ errors) => return ({ k with
      uncorrectedHeaderUnitCount := k.uncorrectedHeaderUnitCount + 1
      uncorrectedHeaderErrorCount := k.uncorrectedHeaderErrorCount + errors }, none)
  | .error (.logicError _) => return (k, none)
  | .error e => .error e

/-- The part of `validateFrame` that corrects the header of a frame that has the field. -/
def correctIfUsed (v : PhysicalChannel) (rs : RSBase) (l : Layout) (k : RcvTallies) (u : Bytes) :
    Except Fault (RcvTallies × Option Bytes) :=
  if v.useHeaderErrorControl && l.hasHeaderErrorControl then correctHeader rs k u else .ok (k, some u)

/-- What is left of a bad frame. -/
def kept (deleteBadFrame : Bool) (u : Bytes) : Option Bytes := if deleteBadFrame then none else some u

/-- `validateFrame`: the frame that it leaves, unless it has released it, and the answer. -/
def validateAllFrames (v : PhysicalChannel) (rs : RSBase) (l : Layout) (deleteBadFrame : Bool) (k : RcvTallies)
    (u : Bytes) : Except Fault (RcvTallies × Option Bytes × Bool) :=
  if u.length ≠ v.frameSize then
    .ok ({ k with badLengthCount := k.badLengthCount + 1 }, kept deleteBadFrame u, false)
  else do
    let (k, corrected) ← correctIfUsed v rs l k u
    match corrected with
    | none => return (k, kept deleteBadFrame u, false)
    | some u => do
      let tfvn ← getTFVN u
      if tfvn ≠ 1 then return ({ k with badTFVNCount := k.badTFVNCount + 1 }, kept deleteBadFrame u, false)
      else if v.useFrameErrorControl && !hasValidCRC u then
        return ({ k with badFrameChecksumCount := k.badFrameChecksumCount + 1 }, kept deleteBadFrame u, false)
      else return (k, some u, true)

/-- The fields of a frame as `svc` of `modAOS_AF_Rcv` sets them. -/
def PhysicalChannel.receivedAs (v : PhysicalChannel) (l : Layout) : Layout :=
  { l with
    hasHeaderErrorControl := v.useHeaderErrorControl
    inSduLen := v.insertZoneSize
    hasFrameErrorControl := v.useFrameErrorControl }

/-- One pass of the loop of `svc` of `modAOS_AF_Rcv` over a frame. -/
def afRcv (v : PhysicalChannel) (rs : RSBase) (l : Layout) (k : RcvTallies) (u : Bytes) :
    Except Fault (RcvTallies × List Bytes) := do
  let (k, frame, valid) ← validateAllFrames v rs (v.receivedAs l) v.dropBadFrames k u
  if !valid && v.dropBadFrames then return (k, [])
  else
    let k := if valid then { k with validFrameCount := k.validFrameCount + 1 } else k
    match frame with
    | none => .error .nullPointer
    | some u => do
      let idle ← isIdle u
      if idle then return (k, []) else return (k, [u])

end ChannelEmulator.AOS
