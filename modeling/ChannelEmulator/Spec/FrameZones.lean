import ChannelEmulator.Spec.AosFrame
import ChannelEmulator.Spec.FrameReception

/-!
# Zones of a frame: insert and extract

`modules/TM/modTM_FSH_Insert.cpp`, `modTM_FSH_Extract.cpp`, `modTM_OCF_Insert.cpp` and
`modTM_OCF_Extract.cpp`, `modules/AOS/modAOS_IN_SDU_Insert.cpp`, `modAOS_IN_SDU_Extract.cpp`,
`modAOS_OCF_Insert.cpp` and `modAOS_OCF_Extract.cpp`, with both outputs connected, and what they
use of `lib/TM_Transfer_Frame.cpp` and `lib/AOS_Transfer_Frame.cpp`. The optional fields a
module is set up with are those of the frames.
-/

namespace ChannelEmulator

/-- A unit on an auxiliary link. Its class is known where it arrives: a
`TC_Comm_Link_Control_Word`, or any other. -/
inductive AuxUnit
  | clcw (octets : Bytes)
  | data (octets : Bytes)
deriving DecidableEq, Repr

/-- `MalformedPayload::msg`. -/
def malformedPayloadMsg (typeStr expectedPayload : String) : String :=
  typeStr ++ " has a malformed payload. Expected, but did not find " ++ article expectedPayload ++
    "'" ++ expectedPayload ++ "'."

/-- `wrapInnerPDU<NetworkData>(pduSize, ptrUnit() + offset)`, of a frame with `dataLength` octets
of data. -/
def wrapZone (dataLength : ℕ) (u : Bytes) (pduSize : ℕ) (offset : ℤ) : Except Fault Bytes :=
  let pduSize := if pduSize = 0 then dataLength else pduSize
  if 0 ≤ offset ∧ offset + pduSize ≤ u.length then .ok ((u.drop offset.toNat).take pduSize)
  else .error .outOfBounds

/-- `catch (const MissingField&)`: the unit is dropped. -/
def catchMissingField {α : Type} (unchanged : α) : Except Fault α → Except Fault α
  | .error (.missingField _) => .ok unchanged
  | r => r

/-- `catch (const BufferOverflow&)`: the unit is dropped. -/
def catchBufferOverflow {α : Type} (unchanged : α) : Except Fault α → Except Fault α
  | .error (.bufferOverflow _) => .ok unchanged
  | r => r

/-- `getReportType`, of the octet the report starts with. -/
def reportTypeOf (b : Octet) : ℕ := if b &&& 0x80 ≠ 0 then 2 else 1

/-! ## TM frames -/

namespace TM

def maxFSHLen : ℕ := 64

namespace Channel

variable (c : Channel)

/-- `ptrOperationalControl`. In a frame shorter than its fields, the pointer is off the data. -/
def ptrOperationalControl (u : Bytes) : Except Fault ℤ :=
  if c.useOperationalControl then .ok ((c.ptrData : ℤ) + (u.length - c.nonDataLength))
  else .error (.missingField (missingFieldMsg "TM Transfer Frame" "Operational Control"))

/-- `getReportType`. -/
def getReportType (u : Bytes) : Except Fault ℕ := do
  let ptr ← c.ptrOperationalControl u
  let b ← octetAtPtr u ptr
  return reportTypeOf b

/-- `setCLCW`. -/
def setCLCW (u newCLCW : Bytes) : Except Fault Bytes :=
  if !c.useOperationalControl then
    .error (.missingField (missingFieldMsg "TM Transfer Frame"
      "Communications Link Control Word in the Operational Control"))
  else do
    let ptr ← c.ptrOperationalControl u
    copyUnitTo u ptr newCLCW

/-- `setType2ReportData`, of four octets. Where it throws for the type bit, the octets have
been copied: the text is returned with them. -/
def setType2ReportData (u data : Bytes) : Except Fault (Bytes × Option String) :=
  if !c.useOperationalControl then
    .error (.missingField (missingFieldMsg "TM Transfer Frame"
      "Type-2-Report in the Operational Control"))
  else do
    let ptr ← c.ptrOperationalControl u
    let u ← copyUnitTo u ptr data
    let reportType ← c.getReportType u
    return (u, if reportType = 2 then none
      else some (malformedPayloadMsg "TM Transfer Frame" "properly set report type bit"))

/-- `getCLCW`. -/
def getCLCW (u : Bytes) : Except Fault Bytes := do
  let ptr ← c.ptrOperationalControl u
  wrapZone (c.dataLength u) u spanOperationalControlField ptr

/-- `setSecondaryHeaderLen`. -/
def setSecondaryHeaderLen (newVal : ℕ) : Except Fault Channel :=
  if newVal > maxFSHLen then
    .error (.valueTooLarge (valueTooLargeMsg "Frame Secondary Header Length" newVal maxFSHLen))
  else .ok { c with fshSize := newVal }

/-- `ptrSecondaryHeaderData`. -/
def ptrSecondaryHeaderData : Except Fault ℕ :=
  if c.fshSize = 0 then
    .error (.missingField (missingFieldMsg "TM Transfer Frame" "Transfer Frame Secondary Header"))
  else .ok (spanPrimaryHeader + 1)

/-- `setSecondaryHeaderData`. -/
def setSecondaryHeaderData (u data : Bytes) : Except Fault Bytes :=
  if data.length < c.fshSize then do
    let ptr ← c.ptrSecondaryHeaderData
    copyUnit u ptr data
  else .error (.bufferOverflow
    (bufferOverflowMsg "Transfer Frame Secondary Header" data.length c.fshSize))

end Channel

end TM

/-! ## AOS frames -/

namespace AOS.Layout

variable (l : Layout)

/-- `getReportType`. -/
def getReportType (u : Bytes) : Except Fault ℕ := do
  let ptr ← l.ptrOperationalControl u
  let b ← octetAtPtr u ptr
  return reportTypeOf b

/-- `setCLCW`. -/
def setCLCW (u newCLCW : Bytes) : Except Fault Bytes :=
  if !l.hasOperationalControl then
    .error (.missingField (missingFieldMsg "AOS Transfer Frame"
      "Communications Link Control Word in the Operational Control"))
  else do
    let ptr ← l.ptrOperationalControl u
    let u ← copyUnitTo u ptr newCLCW
    let reportType ← l.getReportType u
    if reportType = 2 then l.setReportType u 1 else .ok u

/-- `setType2ReportData`, as that of a TM frame. -/
def setType2ReportData (u data : Bytes) : Except Fault (Bytes × Option String) :=
  if !l.hasOperationalControl then
    .error (.missingField (missingFieldMsg "AOS Transfer Frame"
      "Type-2-Report in the Operational Control"))
  else do
    let ptr ← l.ptrOperationalControl u
    let u ← copyUnitTo u ptr data
    let reportType ← l.getReportType u
    return (u, if reportType = 2 then none
      else some (malformedPayloadMsg "AOS Transfer Frame" "properly set report type bit"))

/-- `getCLCW`. -/
def getCLCW (u : Bytes) : Except Fault Bytes := do
  let ptr ← l.ptrOperationalControl u
  wrapZone (l.dataLength u) u spanOperationalControlField ptr

/-- `ptrInsertZone`. -/
def ptrInsertZone : Except Fault ℕ :=
  if l.inSduLen = 0 then
    .error (.missingField (missingFieldMsg "AOS Transfer Frame" "Master Channel Insert Zone"))
  else .ok (ptrSignalingField + spanSignalingField +
    (if l.hasHeaderErrorControl then spanFrameHeaderErrorControl else 0))

/-- `setInsertZone`. -/
def setInsertZone (u data : Bytes) : Except Fault Bytes :=
  if data.length ≤ l.inSduLen then do
    let ptr ← l.ptrInsertZone
    copyUnit u ptr data
  else .error (.bufferOverflow
    (bufferOverflowMsg "Master Channel Insert Zone" data.length l.inSduLen))

end AOS.Layout

/-! ## The modules -/

namespace Zone

/-- The tallies of an insert or an extract module. -/
structure Tallies where
  validFrameCount : ℕ := 0
  badLengthCount : ℕ := 0
  receivedUnitCount : ℕ := 0
  receivedOctetCount : ℕ := 0
  receivedFrameUnitCount : ℕ := 0
  receivedFrameOctetCount : ℕ := 0
deriving DecidableEq, Repr

/-- A unit was taken for a zone. -/
def Tallies.received (k : Tallies) (octets : Bytes) : Tallies :=
  { k with
    receivedUnitCount := k.receivedUnitCount + 1
    receivedOctetCount := k.receivedOctetCount + octets.length }

/-- The test for the frame size. -/
def Tallies.sized (k : Tallies) (good : Bool) : Tallies :=
  if good then { k with validFrameCount := k.validFrameCount + 1 }
  else { k with badLengthCount := k.badLengthCount + 1 }

/-- The settings of a module. -/
structure Settings where
  frameSize : ℕ
  dropBadFrames : Bool := true
deriving DecidableEq, Repr

/-- `_insertWaitingReport`, of a report that waits. -/
def insertReport (setCLCW : Bytes → Bytes → Except Fault Bytes)
    (setType2ReportData : Bytes → Bytes → Except Fault (Bytes × Option String)) (k : Tallies)
    (frame : Bytes) : AuxUnit → Except Fault (Tallies × Bytes)
  | .clcw clcw => do
    let u ← catchMissingField frame (setCLCW frame clcw)
    return (k.received clcw, u)
  | .data ocf =>
    if ocf.length ≠ TM.spanOperationalControlField then .ok (k, frame)
    else do
      -- a malformed report is dropped after it was copied
      let (u, _) ← catchMissingField (frame, none) (setType2ReportData frame ocf)
      return (k.received ocf, u)

/-- `_insertWaitingFSHUnit`. -/
def insertFSHUnit (c : TM.Channel) (k : Tallies) (frame : Bytes) (unit : AuxUnit) :
    Except Fault (Tallies × Bytes) :=
  let fsh := match unit with | .clcw octets => octets | .data octets => octets
  if (fsh.length : ℤ) ≠ c.fshSize - 1 then .ok (k, frame)
  else do
    let u ← catchBufferOverflow frame (c.setSecondaryHeaderData frame fsh)
    return (k.received fsh, u)

/-- `_insertWaitingInSduUnit`. -/
def insertInSduUnit (l : AOS.Layout) (k : Tallies) (frame : Bytes) (unit : AuxUnit) :
    Except Fault (Tallies × Bytes) :=
  let inSdu := match unit with | .clcw octets => octets | .data octets => octets
  if inSdu.length ≠ l.inSduLen then .ok (k, frame)
  else do
    let u ← catchBufferOverflow frame (l.setInsertZone frame inSdu)
    return (k.received inSdu, u)

/-- `_extractAndSendFSH`. -/
def extractFSH (c : TM.Channel) (frame : Bytes) : Except Fault (List AuxUnit) := do
  let flag ← TM.getSecondaryHeaderFlag frame
  if flag then do
    let ptr ← c.ptrSecondaryHeaderData
    let length ← TM.getSecondaryHeaderDataLength frame
    let fsh ← wrapZone (c.dataLength frame) frame length ptr
    return [.data fsh]
  else return []

/-- `_extractAndSendInSdu`. -/
def extractInSdu (l : AOS.Layout) (frame : Bytes) : Except Fault (List AuxUnit) :=
  if l.inSduLen ≠ 0 then do
    let ptr ← l.ptrInsertZone
    let inSdu ← wrapZone (l.dataLength frame) frame l.inSduLen ptr
    return [.data inSdu]
  else .ok []

/-- `_extractAndSendOCF` of `modTM_OCF_Extract`. -/
def extractTmOCF (c : TM.Channel) (frame : Bytes) : Except Fault (List AuxUnit) := do
  let flag ← TM.getOCFF frame
  if flag then do
    let reportType ← c.getReportType frame
    if reportType = 1 then do
      let clcw ← c.getCLCW frame
      return [.clcw clcw]
    else do
      let ptr ← c.ptrOperationalControl frame
      let ocf ← wrapZone (c.dataLength frame) frame TM.spanOperationalControlField ptr
      return [.data ocf]
  else return []

/-- `_extractAndSendOCF` of `modAOS_OCF_Extract`. -/
def extractAosOCF (l : AOS.Layout) (frame : Bytes) : Except Fault (List AuxUnit) :=
  if l.hasOperationalControl then do
    let reportType ← l.getReportType frame
    if reportType = 1 then do
      let clcw ← l.getCLCW frame
      return [.clcw clcw]
    else do
      let ptr ← l.ptrOperationalControl frame
      let ocf ← wrapZone (l.dataLength frame) frame AOS.spanOperationalControlField ptr
      return [.data ocf]
  else .ok []

end Zone

/-- The zones of a frame. -/
inductive Zone
  | secondaryHeader (c : TM.Channel)
  | tmReport (c : TM.Channel)
  | insertZone (l : AOS.Layout)
  | aosReport (l : AOS.Layout)
deriving DecidableEq, Repr

namespace Zone

/-- What the insert module of a zone does with a unit that waits. -/
def insert : Zone → Tallies → Bytes → AuxUnit → Except Fault (Tallies × Bytes)
  | secondaryHeader c => insertFSHUnit c
  | tmReport c => insertReport c.setCLCW c.setType2ReportData
  | insertZone l => insertInSduUnit l
  | aosReport l => insertReport l.setCLCW l.setType2ReportData

/-- The fields an extract module gives a frame it has received. -/
def configure : Zone → Except Fault Zone
  | secondaryHeader c => do
    let c ← c.setSecondaryHeaderLen c.fshSize
    return secondaryHeader c
  | tmReport c => .ok (tmReport { c with useOperationalControl := true })
  | insertZone l => .ok (insertZone l)
  | aosReport l => .ok (aosReport { l with hasOperationalControl := true })

/-- What the extract module of a zone sends to its auxiliary output. -/
def extract : Zone → Bytes → Except Fault (List AuxUnit)
  | secondaryHeader c => extractFSH c
  | tmReport c => extractTmOCF c
  | insertZone l => extractInSdu l
  | aosReport l => extractAosOCF l

/-- One pass of the loop of `svc` of an insert module over a frame: what is left on the
auxiliary queue, and the frame sent. -/
def insertSvc (z : Zone) (v : Settings) (k : Tallies) (queue : List AuxUnit) (frame : Bytes) :
    Except Fault (Tallies × List AuxUnit × Option Bytes) :=
  let good : Bool := frame.length = v.frameSize
  let k := k.sized good
  if !good && v.dropBadFrames then .ok (k, queue, none)
  else
    let k := { k with
      receivedFrameUnitCount := k.receivedFrameUnitCount + 1
      receivedFrameOctetCount := k.receivedFrameOctetCount + frame.length }
    match queue with
    | [] => .ok (k, [], some frame)
    | unit :: queue => do
      let (k, u) ← z.insert k frame unit
      return (k, queue, some u)

/-- One pass of the loop of `svc` of an extract module over a frame: the units sent to the
auxiliary output, and the frame sent. -/
def extractSvc (z : Zone) (v : Settings) (k : Tallies) (frame : Bytes) :
    Except Fault (Tallies × List AuxUnit × Option Bytes) := do
  let z ← z.configure
  let good : Bool := frame.length = v.frameSize
  let k := k.sized good
  if !good && v.dropBadFrames then return (k, [], none)
  else do
    let units ← z.extract frame
    return (k, units, some frame)

end Zone

end ChannelEmulator
