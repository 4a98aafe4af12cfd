import ChannelEmulator.Spec.Dot1qFrame

/-!
# Ethernet framing

`lib/EthernetFrame.hpp` and `.cpp`, `lib/MacAddress.cpp`, and the modules `modEthFrame_Add` and
`modEthFrame_Remove`.

* `EthernetFrame`: frames whose type field is of two octets.
* `EthFrameAdd`: the module that puts a payload into a frame. It copies the header of a template, which it builds
  when an address is set.
* `EthFrameRemove.svc`: the module that takes the payload out again.

The settings that hold text are lists of characters.
-/

namespace ChannelEmulator.Ethernet

def ethMinLen : ℕ := 60
def ethIPv4 : ℕ := 0x0800
def ethARP : ℕ := 0x0806
def ethAOS : ℕ := 0x0A05
def ethIPv6 : ℕ := 0x86DD
def ethMaxType : ℕ := 0xFFFF

/-! ## Addresses -/

namespace MacAddress

def hexDigits : List Char := "0123456789ABCDEF".toList

/-- One octet, as two digits. -/
def hexPair (o : Octet) : List Char := [hexDigits.getD (o.toNat / 16) '0', hexDigits.getD (o.toNat % 16) '0']

/-- `addr2str`. -/
def addr2str (m : MacAddress) : List Char := [':'].intercalate (m.address.map hexPair)

/-- The value of a character of the class `[:xdigit:]`. -/
def xdigit (c : Char) : Option ℕ :=
  if '0' ≤ c ∧ c ≤ '9' then some (c.toNat - 48)
  else if 'A' ≤ c ∧ c ≤ 'F' then some (c.toNat - 55)
  else if 'a' ≤ c ∧ c ≤ 'f' then some (c.toNat - 87)
  else none

def octetOf (a b : Char) : Option Octet := do
  let high ← xdigit a
  let low ← xdigit b
  return UInt8.ofNat (high * 16 + low)

/-- Pairs of digits with colons between them. -/
def octetsOf : List Char → Option Bytes
  | [a, b] => do
    let o ← octetOf a b
    return [o]
  | a :: b :: c :: rest => do
    let o ← if c = ':' then octetOf a b else none
    let os ← octetsOf rest
    return o :: os
  | _ => none

/-- `str2addr`. -/
def str2addr (macStr : List Char) : Except Fault MacAddress :=
  match octetsOf macStr with
  | some os =>
    if h : os.length = ethAddrLen then .ok ⟨os, h⟩
    else .error (.runtimeError ("std::string '" ++ String.ofList macStr ++ "' is not a valid MAC address."))
  | none => .error (.runtimeError ("std::string '" ++ String.ofList macStr ++ "' is not a valid MAC address."))

/-- `generateFake`, with the numbers drawn. -/
def generateFake (drawn : ℕ → Octet) (addr1 : Octet) : MacAddress :=
  ⟨[0, addr1, drawn 2, drawn 3, drawn 4, drawn 5], rfl⟩

end MacAddress

/-! ## Frames -/

namespace EthernetFrame

/-- `typeStr`. -/
def typeStr : FrameType → String
  | .linuxTap => "Tap Ethernet Frame"
  | .ieee => "IEEE Ethernet Frame"
  | .pcap => "PCap Ethernet Frame"

/-- `EthernetFrame(frameType)`. -/
def new (frameType : FrameType) : Frame := ⟨frameType, typeNormalLen, false, []⟩

/-- `EthernetFrame(bufferSize, frameType, typeNormalLen)`. -/
def ofSize (bufferSize : ℕ) (frameType : FrameType) : Frame := ⟨frameType, typeNormalLen, true, newUnit bufferSize⟩

variable (f : Frame)

/-- The payload that `build` is called with, if there is one. -/
def setPayloadIf (newPayload : Option Payload) : Except Fault Frame :=
  match newPayload with
  | some payload => f.setPayload payload
  | none => .ok f

/-- `build`, with what is in the memory that the unit is given. -/
def build (behind : ℕ → Octet) (dstMac srcMac : MacAddress) (newPayload : Option Payload) (newPayloadType : ℕ) :
    Except Fault Frame :=
  if f.isInitialized then .error (.redundantInitialization (redundantInitializationMsg (typeStr f.frameType)))
  else do
    let payloadLen := (newPayload.map fun payload => payload.unit.length).getD 0
    let unit := setUnitLength behind f.unit (estimateLength payloadLen f.frameType.preambleLength f.typeLen)
    let f := { f with unit, isInitialized := true }
    let f ← f.markPreamble newPayloadType
    let f ← f.setDstAddr dstMac
    let f ← f.setSrcAddr srcMac
    let f ← f.setEtherType newPayloadType
    setPayloadIf f newPayload

/-- `extractPayloadLength`. -/
def extractPayloadLength : Except Fault ℕ := do
  let payloadType ← f.getEtherType
  if payloadType ≤ 1500 then .ok payloadType
  else if payloadType = ethIPv4 then toU16 (f.unit.drop (f.ptrPayload + 2))
  else if payloadType = ethARP then .ok 46
  else if payloadType = ethIPv6 then do
    let len ← toU16 (f.unit.drop (f.ptrPayload + 4))
    return 40 + len
  else .error (.ndError "EthernetFrame::extractPayloadLength() attempted on unrecognized payload.")

/-- `getExpectedLength`. -/
def getExpectedLength : Except Fault ℕ := do
  let len ← extractPayloadLength f
  return f.calculateHeaderLength + len

/-- `isExpectedType`: the preamble of a tap frame. -/
def tapAgrees : Except Fault Bool := do
  let preamble ← toU16 f.unit
  if preamble = 0 then do
    let preambleType ← toU16 (f.unit.drop 2)
    let etherType ← f.getEtherType
    return preambleType == etherType
  else return false

/-- `isExpectedType`. -/
def isExpectedType : Except Fault Bool :=
  if f.unit.length < ethMinLen then
    .error (.runtimeError "Not enough bytes loaded to determine packet type validity.")
  else if f.frameType = .linuxTap then tapAgrees f
  else do
    let eType ← f.getEtherType
    return eType == ethIPv4 || eType == ethARP || eType == eth8021q || eType == ethIPv6

/-- `wrapInnerPDU`, of the whole payload. -/
def wrapInnerPDU : Bytes := (f.unit.drop f.ptrPayload).take f.calculatePayloadLength

end EthernetFrame

/-! ## Adding a frame -/

/-- `str2FrameType`. -/
def str2FrameType (frameTypeStr : List Char) : FrameType :=
  match (frameTypeStr.headD '\x00').toLower with
  | 'p' => .pcap
  | 'l' => .linuxTap
  | 'i' => .ieee
  | _ => .pcap

/-- `frameType2Str`. -/
def frameType2Str : FrameType → List Char
  | .pcap => "PCap".toList
  | .linuxTap => "LinuxTap".toList
  | .ieee => "IEEE".toList

/-- `modEthFrame_Add`. -/
structure EthFrameAdd where
  frameType : List Char
  dstMAC : List Char
  srcMAC : List Char
  defaultPayloadType : ℤ
  frameHeader : Frame
deriving DecidableEq, Repr

/-- The settings that the module is constructed with. -/
structure AddConfig where
  frameType : List Char := []
  dstMAC : List Char := []
  srcMAC : List Char := []
  defaultPayloadType : ℤ := 0

/-- The calls that reconfigure the module. -/
inductive Reconfiguration
  | setFrameType (newVal : FrameType)
  | setDstMAC (newVal : MacAddress)
  | setSrcMAC (newVal : MacAddress)
  | setDefaultPayloadType (newVal : UInt16)

namespace EthFrameAdd

/-- `getFrameType`. -/
def getFrameType (s : EthFrameAdd) : FrameType := str2FrameType s.frameType

/-- `getDstMAC`. -/
def getDstMAC (s : EthFrameAdd) : Except Fault MacAddress := MacAddress.str2addr s.dstMAC

/-- `getSrcMAC`. -/
def getSrcMAC (s : EthFrameAdd) : Except Fault MacAddress := MacAddress.str2addr s.srcMAC

/-- `getDefaultPayloadType`. -/
def getDefaultPayloadType (s : EthFrameAdd) : ℕ := (s.defaultPayloadType % 65536).toNat

/-- `_updateTemplate`, with what is in the memory that the template is given. -/
def updateTemplate (behind : ℕ → Octet) (s : EthFrameAdd) : Except Fault EthFrameAdd := do
  let frameHeader := EthernetFrame.new s.getFrameType
  let dst ← MacAddress.str2addr s.dstMAC
  let src ← MacAddress.str2addr s.srcMAC
  let frameHeader ← EthernetFrame.build frameHeader behind dst src none ethMaxType
  return { s with frameHeader }

/-- `modEthFrame_Add::modEthFrame_Add`, with the numbers drawn for addresses that are not set. -/
def new (behind drawnDst drawnSrc : ℕ → Octet) (c : AddConfig) : Except Fault EthFrameAdd :=
  updateTemplate behind {
    frameType := if c.frameType = [] then "PCap".toList else c.frameType
    dstMAC := if c.dstMAC = [] then (MacAddress.generateFake drawnDst 0xFA).addr2str else c.dstMAC
    srcMAC := if c.srcMAC = [] then (MacAddress.generateFake drawnSrc 0xFA).addr2str else c.srcMAC
    defaultPayloadType := c.defaultPayloadType
    frameHeader := EthernetFrame.new .pcap }

/-- `setFrameType`, `setDstMAC`, `setSrcMAC` and `setDefaultPayloadType`. -/
def step (behind : ℕ → Octet) (s : EthFrameAdd) : Reconfiguration → Except Fault EthFrameAdd
  | .setFrameType newVal => .ok { s with frameType := frameType2Str newVal }
  | .setDstMAC newVal => updateTemplate behind { s with dstMAC := newVal.addr2str }
  | .setSrcMAC newVal => updateTemplate behind { s with srcMAC := newVal.addr2str }
  | .setDefaultPayloadType newVal => .ok { s with defaultPayloadType := newVal.toNat }

/-- Calls one after the other, each with what the memory then holds. -/
def run (s : EthFrameAdd) : List ((ℕ → Octet) × Reconfiguration) → Except Fault EthFrameAdd
  | [] => .ok s
  | (behind, call) :: calls => do
    let s ← step behind s call
    run s calls

/-- `svc`: the type of data that has none of its own. -/
def useDefaultType (s : EthFrameAdd) (frame : Frame) : Except Fault Frame := do
  let etherType ← frame.getEtherType
  if etherType ≤ 1500 ∧ s.getDefaultPayloadType ≠ 0 then frame.setEtherType s.getDefaultPayloadType
  else .ok frame

/-- `svc`, for one payload that is read: what is sent, if there is a link to send it to. -/
def svc (s : EthFrameAdd) (linked : Bool) (payload : Payload) : Except Fault (Option Frame) :=
  if linked ∧ ethMinPayload ≤ payload.unit.length then do
    let frame := EthernetFrame.ofSize (s.frameHeader.unit.length + payload.unit.length) s.getFrameType
    let frame ← frame.copy 0 s.frameHeader.unit
    let frame ← frame.setPayload payload
    let frame ← s.useDefaultType frame
    return some frame
  else .ok none

end EthFrameAdd

/-! ## Removing a frame -/

/-- The classes that a payload is wrapped in. -/
inductive Wrapper
  | ipv4Packet
  | ipv4UdpDatagram
  | arpPacket
  | aosTransferFrame
  | networkData
deriving DecidableEq, Repr

namespace EthFrameRemove

/-- `IPv4Packet::UDP`. -/
def protocolUDP : Octet := 17

/-- `modEthFrame_Remove::svc`: the payload of a frame. -/
def unwrap (frame : Frame) : Except Fault (Wrapper × Bytes) := do
  let etherType ← frame.getEtherType
  let payload := EthernetFrame.wrapInnerPDU frame
  if etherType = ethIPv4 then do
    let protocol ← octetAt payload 9
    return (if protocol = protocolUDP then .ipv4UdpDatagram else .ipv4Packet, payload)
  else if etherType = ethARP then .ok (.arpPacket, payload)
  else if etherType = ethAOS then .ok (.aosTransferFrame, payload)
  else .ok (.networkData, payload)

/-- `modEthFrame_Remove::svc`, for one frame that is read: what is sent, if there is a link to send it to. -/
def svc (linked : Bool) (frame : Frame) : Except Fault (Option (Wrapper × Bytes)) :=
  if linked then do
    let payload ← unwrap frame
    return some payload
  else .ok none

end EthFrameRemove

/-! ## What reconfiguration asks for -/

/-- What a module is configured to, with the frame type that there was when an address was last set. -/
structure Configured where
  frameType : FrameType
  builtFor : FrameType
  dst : MacAddress
  src : MacAddress
  defaultPayloadType : ℕ

def Configured.after (c : Configured) : Reconfiguration → Configured
  | .setFrameType newVal => { c with frameType := newVal }
  | .setDstMAC newVal => { c with dst := newVal, builtFor := c.frameType }
  | .setSrcMAC newVal => { c with src := newVal, builtFor := c.frameType }
  | .setDefaultPayloadType newVal => { c with defaultPayloadType := newVal.toNat }

/-- The configuration after some calls. -/
def Configured.afterAll (c : Configured) (calls : List ((ℕ → Octet) × Reconfiguration)) : Configured :=
  calls.foldl (fun c call => c.after call.2) c

/-- A module that was constructed, with its addresses. -/
def Configured.initially (s : EthFrameAdd) (dst src : MacAddress) : Configured :=
  ⟨s.getFrameType, s.getFrameType, dst, src, s.getDefaultPayloadType⟩

/-- The type that is written into the frame of a payload. -/
def Configured.typeField (c : Configured) (p : Payload) : ℕ :=
  if p.enetType ≤ 1500 ∧ c.defaultPayloadType ≠ 0 then c.defaultPayloadType else p.enetType

/-- A frame has the addresses, says how long it is and what it is, and gives its payload back. -/
structure Reversible (c : Configured) (p : Payload) (frame : Frame) : Prop where
  dstAddr : (frame.unit.drop frame.ptrDstAddr).take ethAddrLen = c.dst.address
  srcAddr : (frame.unit.drop frame.ptrSrcAddr).take ethAddrLen = c.src.address
  expectedLength : ∀ etherType, frame.getEtherType = .ok etherType → etherType ≤ 1500 ∨ etherType = ethIPv4 →
    EthernetFrame.getExpectedLength frame = .ok frame.unit.length
  expectedType : p.cls = .ipv4 ∨ p.cls = .arp → EthernetFrame.isExpectedType frame = .ok true
  removed : ∃ wrapper, EthFrameRemove.svc true frame = .ok (some (wrapper, p.unit))

/-- The module frames a payload. -/
def Frames (s : EthFrameAdd) (c : Configured) (p : Payload) : Prop :=
  ∃ frame, s.svc true p = .ok (some frame) ∧ Reversible c p frame

/-- The template is of the frame type, the length of the payload is one of 32 bits and the one that the type field
and the packet tell, and what has to be recognised does not go to a tap. -/
structure Framable (c : Configured) (p : Payload) : Prop where
  fresh : c.builtFor = c.frameType
  length_lt : p.unit.length < 4294967296
  notTap : p.cls = .ipv4 ∨ p.cls = .arp → c.frameType ≠ .linuxTap
  lengthField : c.typeField p ≤ 1500 → c.typeField p = p.unit.length
  totalLength : c.typeField p = ethIPv4 → toU16 (p.unit.drop 2) = .ok p.unit.length

end ChannelEmulator.Ethernet
