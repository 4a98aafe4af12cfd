import ChannelEmulator.Spec.ChannelMacros

/-!
# Return channel macros

`modules/AOS/modAOS_Macros.cpp` and `modules/TM/modTM_Macros.cpp`: `newReturnChannel`, with what it
uses of `server/Channel.hpp` and of the constructors of demultiplexers. Of the settings of a segment
there are its outputs, those of the decoder and the length that the sync marker's remover expects.

* `Locals`: the variables of the function, which keep their values from one loop to the next.
* `Agree`: what a forward channel and a return channel of the same properties are to be to each other.
-/

namespace ChannelEmulator.Macros

open LinkGraph

/-- The setting `serviceType`. -/
inductive ServiceType
  | Bitstream
  | Packet
  | Access
deriving DecidableEq, Repr

/-- The modules of a return channel, some with settings. -/
inductive RcvModule
  | ASM_Remove (expectedUnitLength : ℤ)
  | PseudoRandomize
  | RSDecode (maxErrorsPerCodeword interleavingDepth : ℕ)
  | EncapPkt_Remove
  | AOS_AF_Rcv
  | AOS_MC_Demux
  | AOS_VC_Demux
  | AOS_VC_Rcv (serviceType : ServiceType)
  | AOS_B_PDU_Remove
  | AOS_M_PDU_Remove
  | TM_AF_Rcv
  | TM_MC_Demux
  | TM_MC_Rcv
  | TM_VC_Demux
  | TM_VC_Rcv_Packet
  | TM_VC_Rcv_Access
deriving DecidableEq, Repr

/-- The classes derived from `AOS_Demux_Base` and `TM_Demux_Base`, and the others. -/
def RcvModule.kind : RcvModule → Kind
  | AOS_MC_Demux | AOS_VC_Demux | TM_MC_Demux | TM_VC_Demux | TM_VC_Rcv_Packet => .demux
  | _ => .plain

structure RcvSegment where
  segName : String
  dll : RcvModule
deriving DecidableEq, Repr

def rcvHandlers : Handlers RcvSegment where
  kind g := g.dll.kind
  auxQueue _ := true

/-- A `Channel` with the segments of a return channel, in the order in which they came. -/
structure RcvChannel where
  segments : List RcvSegment := []
  net : Net RcvSegment := {}

/-- A `std::map<std::string, int>`, in the order of the keys. -/
abbrev NameMap := List (String × ℕ)

/-- `map[name] = value`. -/
def NameMap.assign (name : String) (value : ℕ) : NameMap → NameMap
  | [] => [(name, value)]
  | e :: es =>
    if e.1 = name then (name, value) :: es
    else if name < e.1 then (name, value) :: e :: es
    else e :: NameMap.assign name value es

namespace RcvChannel

/-- `Channel::find`. -/
def find (ch : RcvChannel) (handlerName : String) : Option RcvSegment :=
  ch.segments.find? fun g => g.segName == handlerName

/-- The constructor of a demultiplexer, of the setting `primaryOutputs`. The search for a circular
connection follows no more links than there are. -/
def construct (ch : RcvChannel) (handler : RcvSegment) : NameMap → Net RcvSegment → Except Failure (Net RcvSegment)
  | [], net => .ok net
  | (targetName, identifier) :: outputNames, net =>
    match ch.find targetName with
    | none => construct ch handler outputNames net
    | some target =>
      if (net.primaryOutputLinks handler).any fun e => e.1 == UInt8.ofNat identifier then
        construct ch handler outputNames net
      else
        match rcvHandlers.connectSourceToTarget (net.next + 2) net.next handler target .PrimaryOutput .PrimaryInput
          (net.alloc.setOutputs handler
            (LinkGraph.assign (UInt8.ofNat identifier) net.next (net.primaryOutputLinks handler))) with
        | .error c => .error (.crash c)
        | .ok (some e, _) => .error (.thrown e)
        | .ok (none, net) => construct ch handler outputNames net

/-- `Channel::initializeHandlerConnections`, of the setting `primaryOutput`. -/
def initializeHandlerConnections (ch : RcvChannel) (handler : RcvSegment) (primaryOutput : Option String) :
    Except Failure RcvChannel :=
  match primaryOutput.bind ch.find with
  | none => .ok ch
  | some target =>
    match rcvHandlers.connectOutput (ch.segments.length + 1) handler target .PrimaryOutput .PrimaryInput
      ch.net with
    | .error c => .error (.crash c)
    | .ok (some e, _) => .error (.thrown e)
    | .ok (none, net) => .ok { ch with net := net }

/-- `Channel::add`. The handler is made before it is in the channel. -/
def add (ch : RcvChannel) (handler : RcvSegment) (primaryOutput : Option String) (primaryOutputs : NameMap) :
    Except Failure RcvChannel :=
  if (ch.find handler.segName).isSome then .error .DuplicateHandlerName
  else do
    let net ← ch.construct handler primaryOutputs ch.net
    initializeHandlerConnections ⟨ch.segments ++ [handler], net⟩ handler primaryOutput

/-- The loop of `_getUniqueSegName`, for a number of turns at most. -/
def uniqueFrom (ch : RcvChannel) (baseName : String) : ℕ → ℕ → Except Failure String
  | 0, _ => .error .noName
  | turns + 1, x =>
    let name := baseName ++ ("_" ++ Nat.repr x)
    if (ch.find name).isSome then uniqueFrom ch baseName turns (x + 1) else .ok name

/-- `_getUniqueSegName`. There are no more turns than names in use. -/
def getUniqueSegName (ch : RcvChannel) (baseName : String) : Except Failure String :=
  if (ch.find baseName).isSome then ch.uniqueFrom baseName (ch.segments.length + 1) 0
  else .ok baseName

end RcvChannel

/-- A segment under a name of its own. -/
def addRcvSegment (props : ChannelProps) (ch : RcvChannel) (dll : RcvModule) (baseName : String)
    (num1 num2 : Option ℕ) (primaryOutput : Option String) (primaryOutputs : NameMap) :
    Except Failure (RcvChannel × String) := do
  let segName ← ch.getUniqueSegName (props.makeSegName baseName num1 num2)
  let ch ← ch.add ⟨segName, dll⟩ primaryOutput primaryOutputs
  return (ch, segName)

/-! ## Lengths -/

/-- `frameLength`, as an XML-RPC integer gives it. -/
structure FrameLength where
  octets : ℕ
  pos : 0 < octets
  lt : octets < 2147483648

/-- The octets of data in a code word, as a `size_t`. -/
def dataLength (maxErrorsPerCodeWord : ℕ) : ℕ :=
  sizeDiff 255 (2 * maxErrorsPerCodeWord % 18446744073709551616)

/-- `interleavingDepth`: a quotient that is rounded up. -/
def interleavingDepth (frameLength : FrameLength) (maxErrorsPerCodeWord : ℕ) : ℕ :=
  (frameLength.octets + dataLength maxErrorsPerCodeWord - 1) / dataLength maxErrorsPerCodeWord

/-- The setting `expectedUnitLength`, a `size_t` as an `int`. -/
def expectedUnitLength (frameLength : FrameLength) (maxErrorsPerCodeWord : ℕ) : ℤ :=
  Int.bmod ((frameLength.octets + interleavingDepth frameLength maxErrorsPerCodeWord * maxErrorsPerCodeWord * 2) %
    18446744073709551616 : ℕ) 4294967296

/-! ## The function -/

/-- The variables of `newReturnChannel`. -/
structure Locals where
  ch : RcvChannel := {}
  segName : String := ""
  lastSegName : String := ""
  vcCount : ℕ := 0
  vcMap : NameMap := []
  mcMap : NameMap := []

namespace AOS

/-- `_addVCRcv`, and the entry of the receiver in `vcMap`. -/
def addVCRcv (props : ChannelProps) (mcCount : ℕ) (svcType : ServiceType) (targetName : String) (s : Locals) :
    Except Failure Locals := do
  let (ch, vcName) ← addRcvSegment props s.ch (.AOS_VC_Rcv svcType) "vcRcv" (some mcCount) (some s.vcCount)
    (some targetName) []
  let vcCount := if s.vcCount < 63 then s.vcCount + 1 else s.vcCount
  return { s with ch := ch, vcCount := vcCount, vcMap := s.vcMap.assign vcName (vcCount - 1) }

/-- A turn of the loop over the bitstream services. -/
def addBitstreamRcv (props : ChannelProps) (mcCount : ℕ) (s : Locals) : Except Failure Locals := do
  let (ch, segName) ← addRcvSegment props s.ch .AOS_B_PDU_Remove "bpduDel" (some mcCount) (some s.vcCount) none []
  addVCRcv props mcCount .Bitstream segName { s with ch := ch, segName := segName }

/-- A turn of the loop over the packet services. -/
def addPacketRcv (props : ChannelProps) (mcCount : ℕ) (s : Locals) : Except Failure Locals := do
  let (ch, lastSegName) ← addRcvSegment props s.ch .EncapPkt_Remove "encapDel" (some mcCount) (some s.vcCount)
    none []
  let (ch, segName) ← addRcvSegment props ch .AOS_M_PDU_Remove "mpduDel" (some mcCount) (some s.vcCount)
    (some lastSegName) []
  addVCRcv props mcCount .Packet segName { s with ch := ch, segName := segName, lastSegName := lastSegName }

/-- A turn of the loop over the access services. -/
def addAccessRcv (props : ChannelProps) (mcCount : ℕ) (s : Locals) : Except Failure Locals :=
  addVCRcv props mcCount .Access s.lastSegName s

def addVC_Demux (props : newAOSChannelProps) (mcCount : ℕ) (s : Locals) : Except Failure Locals :=
  if hasVcMux props then do
    let (ch, segName) ← addRcvSegment props.toChannelProps s.ch .AOS_VC_Demux "vcDemux" (some mcCount) none none
      s.vcMap
    return { s with ch := ch, segName := segName }
  else return s

/-- A turn of the loop over the master channels. -/
def addRcvMasterChannel (props : newAOSChannelProps) (mcCount : ℕ) (s : Locals) : Except Failure Locals := do
  let s ← repeatTurns (addBitstreamRcv props.toChannelProps mcCount) props.bitstreamSvcCount
    { s with vcCount := 0, vcMap := [] }
  let s ← repeatTurns (addPacketRcv props.toChannelProps mcCount) props.packetSvcCount s
  let s ← repeatTurns (addAccessRcv props.toChannelProps mcCount) props.vcAccessSvcCount s
  let s ← addVC_Demux props mcCount s
  return { s with mcMap := s.mcMap.assign s.segName mcCount }

/-- The loop over the master channels, from the first that is left. -/
def addRcvMasterChannels (props : newAOSChannelProps) : ℕ → ℕ → Locals → Except Failure Locals
  | 0, _, s => .ok s
  | n + 1, mcCount, s => do
    let s ← addRcvMasterChannel props mcCount s
    addRcvMasterChannels props n (mcCount + 1) s

end AOS

/-! ## TM -/

namespace TM

/-- `modTM_VC_Rcv_Packet::pvnEncapsulationPacket`. -/
def pvnEncapsulationPacket : ℕ := 7

/-- The end of `_addVCRcv`, and the entry of the receiver in `vcMap`. -/
def countVCRcv (segName : String) (ch : RcvChannel) (s : Locals) : Locals :=
  let vcCount := if s.vcCount < 7 then s.vcCount + 1 else s.vcCount
  { s with ch := ch, segName := segName, vcCount := vcCount, vcMap := s.vcMap.assign segName (vcCount - 1) }

/-- A turn of the loop over the packet services: `_addVCRcv` with a target. -/
def addPacketRcv (props : ChannelProps) (mcCount : ℕ) (s : Locals) : Except Failure Locals := do
  let (ch, lastSegName) ← addRcvSegment props s.ch .EncapPkt_Remove "encapDel" (some mcCount) (some s.vcCount)
    none []
  let (ch, segName) ← addRcvSegment props ch .TM_VC_Rcv_Packet "vcRcvPkt" (some mcCount) (some s.vcCount) none
    [(lastSegName, pvnEncapsulationPacket)]
  return countVCRcv segName ch { s with lastSegName := lastSegName }

/-- A turn of the loop over the access services: `_addVCRcv` with no target. -/
def addAccessRcv (props : ChannelProps) (mcCount : ℕ) (s : Locals) : Except Failure Locals := do
  let (ch, segName) ← addRcvSegment props s.ch .TM_VC_Rcv_Access "vcRcvAcc" (some mcCount) (some s.vcCount) none []
  return countVCRcv segName ch s

def addVC_Demux (props : newTMChannelProps) (mcCount : ℕ) (s : Locals) : Except Failure Locals :=
  if hasVcMux props then do
    let (ch, segName) ← addRcvSegment props.toChannelProps s.ch .TM_VC_Demux "vcDemux" (some mcCount) none none
      s.vcMap
    return { s with ch := ch, segName := segName, lastSegName := segName }
  else
    match s.vcMap with
    | [e] => return { s with lastSegName := e.1 }
    | _ => return { s with lastSegName := "" }

def addMC_Rcv (props : ChannelProps) (mcCount : ℕ) (s : Locals) : Except Failure Locals := do
  let (ch, segName) ← addRcvSegment props s.ch .TM_MC_Rcv "mcRcv" (some mcCount) none
    (if s.lastSegName = "" then none else some s.lastSegName) []
  return { s with ch := ch, segName := segName, mcMap := s.mcMap.assign segName mcCount }

/-- A turn of the loop over the master channels. -/
def addRcvMasterChannel (props : newTMChannelProps) (mcCount : ℕ) (s : Locals) : Except Failure Locals := do
  let s ← repeatTurns (addPacketRcv props.toChannelProps mcCount) props.packetSvcCount
    { s with vcCount := 0, vcMap := [] }
  let s ← repeatTurns (addAccessRcv props.toChannelProps mcCount) props.vcAccessSvcCount s
  let s ← addVC_Demux props mcCount s
  addMC_Rcv props.toChannelProps mcCount s

/-- The loop over the master channels, from the first that is left. -/
def addRcvMasterChannels (props : newTMChannelProps) : ℕ → ℕ → Locals → Except Failure Locals
  | 0, _, s => .ok s
  | n + 1, mcCount, s => do
    let s ← addRcvMasterChannel props mcCount s
    addRcvMasterChannels props n (mcCount + 1) s

end TM

/-! ## What the channels are to be to each other -/

/-- The handlers that the links from a handler lead to. -/
def RcvChannel.outputs (ch : RcvChannel) (g : RcvSegment) : List RcvSegment :=
  (rcvHandlers.outputLinks g ch.net).filterMap fun e => (ch.net.heap e.1).bind fun l => l.target

/-- The segments lead from one to the next, each to this one only and this one from each only. -/
def RcvChannel.Flows (ch : RcvChannel) : List RcvSegment → Prop
  | [] => False
  | [a] => a ∈ ch.segments
  | a :: b :: path => a ∈ ch.segments ∧ (∀ t, t ∈ ch.outputs a ↔ t = b) ∧
    (∀ c ∈ ch.segments, b ∈ ch.outputs c ↔ c = a) ∧ ch.Flows (b :: path)

/-- No segment outputs to the first. -/
def RcvChannel.Enters (ch : RcvChannel) (path : List RcvSegment) : Prop :=
  ch.Flows path ∧ ∀ a, path.head? = some a → ∀ c ∈ ch.segments, a ∉ ch.outputs c

/-- The module that removes what the service of a virtual channel has added, if there is one. -/
def RcvModule.remover : RcvModule → Option RcvModule
  | AOS_VC_Rcv .Bitstream => some AOS_B_PDU_Remove
  | AOS_VC_Rcv .Packet => some AOS_M_PDU_Remove
  | TM_VC_Rcv_Packet => some EncapPkt_Remove
  | _ => none

/-- The virtual channel receivers. -/
def RcvModule.isVCRcv : RcvModule → Bool
  | AOS_VC_Rcv _ | TM_VC_Rcv_Packet | TM_VC_Rcv_Access => true
  | _ => false

/-- A receiver that came after the segments `pre` outputs to the service remover that was made for it, the last
of them, or to nothing. -/
def RcvChannel.Serves (ch : RcvChannel) (pre : List RcvSegment) (g : RcvSegment) : Prop :=
  match g.dll.remover with
  | none => ∀ t, t ∉ ch.outputs g
  | some m => ∃ r, pre.getLast? = some r ∧ r.dll = m ∧ ∀ t, t ∈ ch.outputs g ↔ t = r

/-- All receivers do. -/
def RcvChannel.AllServe (ch : RcvChannel) : Prop :=
  ∀ pre g post, ch.segments = pre ++ g :: post → g.dll.isVCRcv = true → ch.Serves pre g

/-- The first segment of the stages of a forward channel. -/
def ChannelProps.trunkHead (props : ChannelProps) (afGen mcMux : Module) : Module :=
  if props.hasMcMux then mcMux else afGen

end ChannelEmulator.Macros
