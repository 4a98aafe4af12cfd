import ChannelEmulator.Spec.UnitData

/-!
# 802.1q frames

`lib/Dot1qFrame.hpp` and `.cpp`, with what they use of `lib/EthernetFrame.hpp`. The classes have no frame
check sequence: the lengths are those of a frame without one.
-/

namespace ChannelEmulator.Ethernet

def ethAddrLen : ℕ := 6
def ethMinPayload : ℕ := 46
def eth8021q : ℕ := 0x8100
def typeNormalLen : ℕ := 2
def type8021qLen : ℕ := 6
def maxSize : ℕ := 9500

/-- `MacAddress`. -/
structure MacAddress where
  address : Bytes
  length_eq : address.length = ethAddrLen := by decide

/-- `SupportedFrameTypes`. -/
inductive FrameType
  | pcap
  | linuxTap
  | ieee
deriving DecidableEq, Repr

/-- `preambleLength_`. -/
def FrameType.preambleLength : FrameType → ℕ
  | .pcap => 0
  | .linuxTap => 4
  | .ieee => 8

/-- The classes of payloads, by their Ethernet type. -/
inductive PayloadClass
  | ipv4
  | arp
  | aos
  | other
deriving DecidableEq, Repr

/-- A payload. -/
structure Payload where
  cls : PayloadClass
  unit : Bytes
deriving DecidableEq, Repr

/-- `enetType`. -/
def Payload.enetType (p : Payload) : ℕ :=
  match p.cls with
  | .ipv4 => 0x0800
  | .arp => 0x0806
  | .aos => 0x0A05
  | .other => if p.unit.length ≤ 1500 then p.unit.length else 0

/-- `estimate_length`, of type `ACE_UINT32`. -/
def estimateLength (payloadLen preambleLen typeLen : ℕ) : ℕ :=
  (payloadLen + preambleLen + typeLen + ethAddrLen * 2) % 4294967296

/-- A frame, with the length of the preamble and of the type field that it is set to. -/
structure Frame where
  frameType : FrameType
  typeLen : ℕ
  isInitialized : Bool
  unit : Bytes
deriving DecidableEq, Repr

namespace Frame

/-- `Dot1qFrame(frameType)`. -/
def new (frameType : FrameType) : Frame := ⟨frameType, type8021qLen, false, []⟩

variable (f : Frame)

def ptrPreambleType : Except Fault ℕ :=
  if f.frameType = .linuxTap then .ok 2
  else .error (.ndError "The requested length of the Ethernet preamble does not match the one in use.")

def ptrDstAddr : ℕ := f.frameType.preambleLength
def ptrSrcAddr : ℕ := f.ptrDstAddr + ethAddrLen
def ptrEtherType : ℕ := f.ptrSrcAddr + ethAddrLen
def ptrPayload : ℕ := f.ptrEtherType + f.typeLen

/-- `calculateHeaderLength`. -/
def calculateHeaderLength : ℕ := f.frameType.preambleLength + ethAddrLen * 2 + f.typeLen

/-- `calculatePayloadLength`, of type `unsigned`. -/
def calculatePayloadLength : ℕ := sizeDiff f.unit.length f.calculateHeaderLength % 4294967296

/-- Writing through a pointer. -/
def store (i : ℕ) (octets : Bytes) : Except Fault Frame := do
  let unit ← storeAt f.unit i octets
  return { f with unit }

/-- Writing with `copyUnit`. -/
def copy (i : ℕ) (octets : Bytes) : Except Fault Frame := do
  let unit ← copyUnit f.unit i octets
  return { f with unit }

/-- `setPreambleType`. -/
def setPreambleType (newType : ℕ) : Except Fault Frame := do
  let ptr ← f.ptrPreambleType
  f.store ptr (fromU16 newType)

def setDstAddr (dstMac : MacAddress) : Except Fault Frame := f.copy f.ptrDstAddr dstMac.address
def setSrcAddr (srcMac : MacAddress) : Except Fault Frame := f.copy f.ptrSrcAddr srcMac.address

def getEtherType : Except Fault ℕ := toU16 (f.unit.drop f.ptrEtherType)
def setEtherType (newType : ℕ) : Except Fault Frame := f.store f.ptrEtherType (fromU16 newType)

/-- `is8021q`. -/
def is8021q : Except Fault Bool := do
  let etherType ← f.getEtherType
  return etherType == eth8021q

/-- `isValid8021q`. -/
def isValid8021q : Except Fault Bool := do
  let tagged ← f.is8021q
  return tagged && f.typeLen == type8021qLen

/-- `ptrTag`. -/
def ptrTag : Except Fault ℕ := do
  let valid ← f.isValid8021q
  if valid then return f.ptrEtherType + 2
  else .error (.runtimeError "Attempted 802.1q operation on non-802.1q frame.")

/-- `getTag`. -/
def getTag : Except Fault ℕ := do
  let ptr ← f.ptrTag
  toU16 (f.unit.drop ptr)

/-- `setTag`. -/
def setTag (newTag : ℕ) : Except Fault Frame := do
  let ptr ← f.ptrTag
  f.store ptr (fromU16 newTag)

/-- `ptrEther8021qType`. -/
def ptrEther8021qType : Except Fault ℕ := do
  let ptr ← f.ptrTag
  return ptr + 2

/-- `getEther8021qType`. -/
def getEther8021qType : Except Fault ℕ := do
  let ptr ← f.ptrEther8021qType
  toU16 (f.unit.drop ptr)

/-- `setEther8021qType`. -/
def setEther8021qType (newType : ℕ) : Except Fault Frame := do
  let ptr ← f.ptrEther8021qType
  f.store ptr (fromU16 newType)

/-- `setData`, without a change of size. -/
def setData (data : Bytes) : Except Fault Frame :=
  if data.length ≤ f.calculatePayloadLength then f.copy f.ptrPayload data
  else .error (.bufferOverflow (bufferOverflowMsg "Data Field" data.length f.calculatePayloadLength))

/-- `setPayload`. -/
def setPayload (newPayload : Payload) : Except Fault Frame :=
  if newPayload.unit.length < ethMinPayload then
    .error (.valueOutOfRange
      (valueOutOfRangeMsg "Ethernet payload length" newPayload.unit.length ethMinPayload maxSize))
  else do
    let f ← f.setData newPayload.unit
    f.setEtherType newPayload.enetType

/-- The part of `build` for a frame with a preamble type. -/
def markPreamble (newPayloadType : ℕ) : Except Fault Frame :=
  if f.frameType = .linuxTap then f.setPreambleType newPayloadType else .ok f

/-- `Dot1qFrame::build`, with what is in the memory that the unit is given. -/
def build (behind : ℕ → Octet) (dstMac srcMac : MacAddress) (newPayload : Payload)
    (newPayloadType new8021qTag : UInt16) : Except Fault Frame :=
  if f.isInitialized then
    .error (.redundantInitialization (redundantInitializationMsg "Ethernet 802.1q Frame"))
  else do
    let f := { f with typeLen := type8021qLen }
    let unit := setUnitLength behind f.unit
      (estimateLength newPayload.unit.length f.frameType.preambleLength f.typeLen)
    let f := { f with unit, isInitialized := true }
    let f ← f.markPreamble newPayloadType.toNat
    let f ← f.setDstAddr dstMac
    let f ← f.setSrcAddr srcMac
    let f ← f.setEtherType eth8021q
    let f ← f.setTag new8021qTag.toNat
    let f ← f.setEther8021qType newPayloadType.toNat
    f.setPayload newPayload

end Frame

end ChannelEmulator.Ethernet
