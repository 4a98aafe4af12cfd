import ChannelEmulator.Spec.LinkGraph

/-!
# Channel macros

`modules/AOS/modAOS_Macros.cpp` and `modules/TM/modTM_Macros.cpp`: `newForwardChannel`, with what it
uses of `server/Channel.cpp` and `.hpp`. Of the settings of a segment there are its identifiers and its
primary output, which `Channel::add` reads back when it has made the handler.
-/

namespace ChannelEmulator.Macros

open LinkGraph

/-- The modules of a forward channel. -/
inductive Module
  | ASM_Add
  | PseudoRandomize
  | RSEncode
  | EncapPkt_Add
  | AOS_AF_Gen
  | AOS_MC_Mux
  | AOS_VC_Mux
  | AOS_VC_Gen
  | AOS_VC_Frame
  | AOS_MC_Frame
  | AOS_B_PDU_Add
  | AOS_M_PDU_Add
  | TM_AF_Gen
  | TM_MC_Mux
  | TM_MC_Gen
  | TM_VC_Mux
  | TM_VC_Gen_Packet
  | TM_VC_Gen_Access
  | TM_VC_Frame
  | TM_MC_Frame
deriving DecidableEq, Repr

/-- The classes derived from `AOS_Mux_Base` and `TM_Mux_Base`, and the others. -/
def Module.kind : Module → Kind
  | AOS_MC_Mux | AOS_VC_Mux | TM_MC_Mux | TM_VC_Mux | TM_VC_Gen_Packet => .mux
  | _ => .plain

/-- The virtual channel generators. -/
def Module.isVCGen : Module → Bool
  | AOS_VC_Gen | TM_VC_Gen_Packet | TM_VC_Gen_Access => true
  | _ => false

/-- A segment: a traffic handler of a channel, and its spacecraft identifier if it is set. -/
structure Segment where
  segName : String
  dll : Module
  SCID : Option ℕ
deriving DecidableEq, Repr

def handlers : Handlers Segment where
  kind g := g.dll.kind
  auxQueue _ := true

/-- What ends a macro early. -/
inductive Failure
  | DuplicateHandlerName
  | thrown (e : Thrown)
  | crash (c : Crash)
  | noName

/-- A `Channel`, and the links of its handlers. -/
structure Channel where
  segments : List Segment := []
  net : Net Segment := {}

namespace Channel

/-- `Channel::find`. -/
def find (ch : Channel) (handlerName : String) : Option Segment :=
  ch.segments.find? fun g => g.segName == handlerName

/-- `Channel::initializeHandlerConnections`, of the setting `primaryOutput`. The search for a circular
connection goes no deeper than the channel has handlers. -/
def initializeHandlerConnections (ch : Channel) (handler : Segment) (primaryOutput : Option String) :
    Except Failure Channel :=
  match primaryOutput.bind ch.find with
  | none => .ok ch
  | some target =>
    match handlers.connectOutput (ch.segments.length + 1) handler target .PrimaryOutput .PrimaryInput
      ch.net with
    | .error c => .error (.crash c)
    | .ok (some e, _) => .error (.thrown e)
    | .ok (none, net) => .ok { ch with net := net }

/-- `Channel::add`. -/
def add (ch : Channel) (handler : Segment) (primaryOutput : Option String) : Except Failure Channel :=
  if (ch.find handler.segName).isSome then .error .DuplicateHandlerName
  else
    initializeHandlerConnections { ch with segments := ch.segments ++ [handler] } handler primaryOutput

/-- The loop of `_getUniqueSegName`, for a number of turns at most. -/
def uniqueFrom (ch : Channel) (baseName : String) : ℕ → ℕ → Except Failure String
  | 0, _ => .error .noName
  | turns + 1, x =>
    let name := baseName ++ ("_" ++ Nat.repr x)
    if (ch.find name).isSome then uniqueFrom ch baseName turns (x + 1) else .ok name

/-- `_getUniqueSegName`. There are no more turns than names in use. -/
def getUniqueSegName (ch : Channel) (baseName : String) : Except Failure String :=
  if (ch.find baseName).isSome then ch.uniqueFrom baseName (ch.segments.length + 1) 0
  else .ok baseName

end Channel

/-! ## Properties -/

/-- What `newAOSChannelProps` and `newTMChannelProps` both have, of what the wiring depends on. -/
structure ChannelProps where
  packetSvcCount : ℕ
  vcAccessSvcCount : ℕ
  vcFrameSvcCount : ℕ
  mcFrameSvcCount : ℕ
  masterChannelCount : ℕ
  maxErrorsReedSolomon : ℕ
  useASM : Bool
  usePseudoRandomize : Bool
  minimize : Bool
  segNamePrefix : String
  segNameSuffix : String

/-- `makeSegName`. -/
def ChannelProps.makeSegName (props : ChannelProps) (baseName : String) (num1 num2 : Option ℕ) :
    String :=
  props.segNamePrefix ++ (baseName ++ (props.segNameSuffix ++
    ((num1.elim "" Nat.repr) ++ (num2.elim "" fun n => "_" ++ Nat.repr n))))

/-- `newAOSChannelProps`. -/
structure newAOSChannelProps extends ChannelProps where
  bitstreamSvcCount : ℕ

/-- `newTMChannelProps`. -/
structure newTMChannelProps extends ChannelProps

/-- A loop that counts its turns. -/
def repeatTurns {σ : Type} (turn : σ → Except Failure σ) : ℕ → σ → Except Failure σ
  | 0, s => .ok s
  | n + 1, s => do
    let s ← turn s
    repeatTurns turn n s

/-- A segment under a name of its own, which the macros insert in one way. -/
def addSegment (props : ChannelProps) (ch : Channel) (dll : Module) (baseName : String)
    (num1 num2 SCID : Option ℕ) (primaryOutput : Option String) :
    Except Failure (Channel × String) := do
  let segName ← ch.getUniqueSegName (props.makeSegName baseName num1 num2)
  let ch ← ch.add ⟨segName, dll, SCID⟩ primaryOutput
  return (ch, segName)

/-! ## The stages behind the frames -/

/-- The segments from the sync marker back to the master channel multiplexer, with the names that the
macros give the last segment. -/
def addASM (props : ChannelProps) (ch : Channel) (lastSegName : String) :
    Except Failure (Channel × String) :=
  if props.useASM then addSegment props ch .ASM_Add "asmAdd" none none none none
  else return (ch, lastSegName)

def addRandomize (props : ChannelProps) (ch : Channel) (lastSegName : String) :
    Except Failure (Channel × String) :=
  if props.usePseudoRandomize then
    addSegment props ch .PseudoRandomize "randomize" none none none (some lastSegName)
  else return (ch, lastSegName)

/-- The encoder is connected if there is a sync marker. -/
def addRSEncode (props : ChannelProps) (ch : Channel) (lastSegName : String) :
    Except Failure (Channel × String) :=
  if props.maxErrorsReedSolomon = 8 ∨ props.maxErrorsReedSolomon = 16 then
    addSegment props ch .RSEncode "rsEncode" none none none
      (if props.useASM then some lastSegName else none)
  else return (ch, lastSegName)

def addAF_Gen (props : ChannelProps) (afGen : Module) (ch : Channel) (lastSegName : String) :
    Except Failure (Channel × String) :=
  addSegment props ch afGen "afGen" none none none
    (if lastSegName = "" then none else some lastSegName)

/-- There is a multiplexer of master channels. -/
def ChannelProps.hasMcMux (props : ChannelProps) : Bool :=
  !props.minimize || decide (1 < props.masterChannelCount + props.mcFrameSvcCount)

def addMC_Mux (props : ChannelProps) (mcMux : Module) (ch : Channel) (lastSegName : String) :
    Except Failure (Channel × String) :=
  if props.hasMcMux then addSegment props ch mcMux "mcMux" none none none (some lastSegName)
  else return (ch, lastSegName)

/-- All of them. -/
def addStages (props : ChannelProps) (afGen mcMux : Module) (ch : Channel) :
    Except Failure (Channel × String) := do
  let (ch, lastSegName) ← addASM props ch ""
  let (ch, lastSegName) ← addRandomize props ch lastSegName
  let (ch, lastSegName) ← addRSEncode props ch lastSegName
  let (ch, lastSegName) ← addAF_Gen props afGen ch lastSegName
  addMC_Mux props mcMux ch lastSegName

/-- The master channel frame services. -/
def addMC_Frames (props : ChannelProps) (mcFrame : Module) (mcMuxSegName : String) (ch : Channel) :
    Except Failure Channel :=
  repeatTurns (fun ch => do
    let (ch, _) ← addSegment props ch mcFrame "mcFrame" (some props.masterChannelCount) none none
      (some mcMuxSegName)
    return ch) props.mcFrameSvcCount ch

/-- The virtual channel frame services of a master channel. -/
def addVC_Frames (props : ChannelProps) (vcFrame : Module) (mcCount vcCount : ℕ)
    (targetName : String) (ch : Channel) : Except Failure Channel :=
  repeatTurns (fun ch => do
    let (ch, _) ← addSegment props ch vcFrame "vcFrame" (some mcCount) (some vcCount) (some mcCount)
      (some targetName)
    return ch) props.vcFrameSvcCount ch

/-! ## AOS -/

namespace AOS

/-- `_addVCGen`, with the number of the next virtual channel. -/
def addVCGen (props : ChannelProps) (ch : Channel) (targetName : String) (mcCount vcCount : ℕ) :
    Except Failure (Channel × String × ℕ) := do
  let (ch, segName) ← addSegment props ch .AOS_VC_Gen "vcGen" (some mcCount) (some vcCount)
    (some mcCount) (some targetName)
  return (ch, segName, if vcCount < 63 then vcCount + 1 else vcCount)

/-- A multiplexer of virtual channels is needed. -/
def hasVcMux (props : newAOSChannelProps) : Bool :=
  !props.minimize || decide (1 < props.packetSvcCount + props.bitstreamSvcCount +
    props.vcAccessSvcCount + props.vcFrameSvcCount)

def addVC_Mux (props : newAOSChannelProps) (mcMuxSegName : String) (mcCount : ℕ) (ch : Channel)
    (lastSegName : String) : Except Failure (Channel × String) :=
  if hasVcMux props then
    addSegment props.toChannelProps ch .AOS_VC_Mux "vcMux" (some mcCount) none (some mcCount)
      (some mcMuxSegName)
  else return (ch, lastSegName)

/-- The bitstream services, with the number of the next virtual channel. -/
def addBitstreams (props : newAOSChannelProps) (vcMuxSegName : String) (mcCount : ℕ) :
    Channel × ℕ → Except Failure (Channel × ℕ) :=
  repeatTurns (fun (ch, vcCount) => do
    let (ch, vcName, vcCount) ← addVCGen props.toChannelProps ch vcMuxSegName mcCount vcCount
    let (ch, _) ← addSegment props.toChannelProps ch .AOS_B_PDU_Add "bpduAdd" (some mcCount)
      (some (vcCount - 1)) none (some vcName)
    return (ch, vcCount)) props.bitstreamSvcCount

/-- The packet services, with the name of the last segment. -/
def addPackets (props : newAOSChannelProps) (vcMuxSegName : String) (mcCount : ℕ) :
    Channel × ℕ × String → Except Failure (Channel × ℕ × String) :=
  repeatTurns (fun (ch, vcCount, _) => do
    let (ch, vcName, vcCount) ← addVCGen props.toChannelProps ch vcMuxSegName mcCount vcCount
    let (ch, lastSegName) ← addSegment props.toChannelProps ch .AOS_M_PDU_Add "mpduAdd"
      (some mcCount) (some (vcCount - 1)) none (some vcName)
    let (ch, _) ← addSegment props.toChannelProps ch .EncapPkt_Add "encapAdd" (some mcCount)
      (some (vcCount - 1)) none (some lastSegName)
    return (ch, vcCount, lastSegName)) props.packetSvcCount

/-- The access services. -/
def addAccesses (props : newAOSChannelProps) (vcMuxSegName : String) (mcCount : ℕ) :
    Channel × ℕ → Except Failure (Channel × ℕ) :=
  repeatTurns (fun (ch, vcCount) => do
    let (ch, _, vcCount) ← addVCGen props.toChannelProps ch vcMuxSegName mcCount vcCount
    return (ch, vcCount)) props.vcAccessSvcCount

/-- The segments of one master channel, with the name of the last one but the services that do not
count. -/
def addMasterChannel (props : newAOSChannelProps) (mcMuxSegName : String) (mcCount : ℕ) (ch : Channel)
    (lastSegName : String) : Except Failure (Channel × String) := do
  let (ch, vcMuxSegName) ← addVC_Mux props mcMuxSegName mcCount ch lastSegName
  let (ch, vcCount) ← addBitstreams props vcMuxSegName mcCount (ch, 0)
  let (ch, vcCount, lastSegName) ← addPackets props vcMuxSegName mcCount (ch, vcCount, vcMuxSegName)
  let (ch, vcCount) ← addAccesses props vcMuxSegName mcCount (ch, vcCount)
  let ch ← addVC_Frames props.toChannelProps .AOS_VC_Frame mcCount vcCount vcMuxSegName ch
  return (ch, lastSegName)

/-- The loop over the master channels, from the first that is left. -/
def addMasterChannels (props : newAOSChannelProps) (mcMuxSegName : String) :
    ℕ → ℕ → Channel × String → Except Failure (Channel × String)
  | 0, _, s => .ok s
  | n + 1, mcCount, (ch, lastSegName) => do
    let s ← addMasterChannel props mcMuxSegName mcCount ch lastSegName
    addMasterChannels props mcMuxSegName n (mcCount + 1) s

/-- `modAOS_Macros::newForwardChannel`, for a channel that is new. -/
def newForwardChannel (props : newAOSChannelProps) : Except Failure Channel := do
  let (ch, mcMuxSegName) ← addStages props.toChannelProps .AOS_AF_Gen .AOS_MC_Mux {}
  let (ch, _) ← addMasterChannels props mcMuxSegName props.masterChannelCount 0 (ch, mcMuxSegName)
  addMC_Frames props.toChannelProps .AOS_MC_Frame mcMuxSegName ch

end AOS

/-! ## TM -/

namespace TM

/-- `_addVCGen`, with the number of the next virtual channel. -/
def addVCGen (props : ChannelProps) (ch : Channel) (targetName : String) (mcCount vcCount : ℕ)
    (dll : Module) (baseName : String) : Except Failure (Channel × String × ℕ) := do
  let (ch, segName) ← addSegment props ch dll baseName (some mcCount) (some vcCount) (some mcCount)
    (some targetName)
  return (ch, segName, if vcCount < 7 then vcCount + 1 else vcCount)

/-- A multiplexer of virtual channels is needed. -/
def hasVcMux (props : newTMChannelProps) : Bool :=
  !props.minimize || decide (1 < props.packetSvcCount + props.vcAccessSvcCount +
    props.vcFrameSvcCount)

def addVC_Mux (props : newTMChannelProps) (mcCount : ℕ) (ch : Channel) (lastSegName : String) :
    Except Failure (Channel × String) :=
  if hasVcMux props then
    addSegment props.toChannelProps ch .TM_VC_Mux "vcMux" (some mcCount) none (some mcCount)
      (some lastSegName)
  else return (ch, lastSegName)

/-- The packet services. -/
def addPackets (props : newTMChannelProps) (lastSegName : String) (mcCount : ℕ) :
    Channel × ℕ → Except Failure (Channel × ℕ) :=
  repeatTurns (fun (ch, vcCount) => do
    let (ch, vcPktName, vcCount) ← addVCGen props.toChannelProps ch lastSegName mcCount vcCount
      .TM_VC_Gen_Packet "vcGenPkt"
    let (ch, _) ← addSegment props.toChannelProps ch .EncapPkt_Add "encapAdd" (some mcCount)
      (some (vcCount - 1)) none (some vcPktName)
    return (ch, vcCount)) props.packetSvcCount

/-- The access services. -/
def addAccesses (props : newTMChannelProps) (lastSegName : String) (mcCount : ℕ) :
    Channel × ℕ → Except Failure (Channel × ℕ) :=
  repeatTurns (fun (ch, vcCount) => do
    let (ch, _, vcCount) ← addVCGen props.toChannelProps ch lastSegName mcCount vcCount
      .TM_VC_Gen_Access "vcGenAcc"
    return (ch, vcCount)) props.vcAccessSvcCount

/-- The segments of one master channel. -/
def addMasterChannel (props : newTMChannelProps) (mcMuxSegName : String) (mcCount : ℕ) (ch : Channel) :
    Except Failure Channel := do
  let (ch, lastSegName) ← addSegment props.toChannelProps ch .TM_MC_Gen "mcGen" (some mcCount) none
    (some mcCount) (some mcMuxSegName)
  let (ch, lastSegName) ← addVC_Mux props mcCount ch lastSegName
  let (ch, vcCount) ← addPackets props lastSegName mcCount (ch, 0)
  let (ch, vcCount) ← addAccesses props lastSegName mcCount (ch, vcCount)
  addVC_Frames props.toChannelProps .TM_VC_Frame mcCount vcCount lastSegName ch

/-- The loop over the master channels, from the first that is left. -/
def addMasterChannels (props : newTMChannelProps) (mcMuxSegName : String) :
    ℕ → ℕ → Channel → Except Failure Channel
  | 0, _, ch => .ok ch
  | n + 1, mcCount, ch => do
    let ch ← addMasterChannel props mcMuxSegName mcCount ch
    addMasterChannels props mcMuxSegName n (mcCount + 1) ch

/-- `modTM_Macros::newForwardChannel`, for a channel that is new. -/
def newForwardChannel (props : newTMChannelProps) : Except Failure Channel := do
  let (ch, mcMuxSegName) ← addStages props.toChannelProps .TM_AF_Gen .TM_MC_Mux {}
  let ch ← addMasterChannels props mcMuxSegName props.masterChannelCount 0 ch
  addMC_Frames props.toChannelProps .TM_MC_Frame mcMuxSegName ch

end TM

/-! ## What a channel is to be -/

/-- The handler that the primary output of a handler is linked to. -/
def Channel.next (ch : Channel) (g : Segment) : Option Segment :=
  match ch.net.links g .PrimaryOutputLink with
  | some p => (ch.net.heap p).bind fun l => l.target
  | none => none

/-- The primary outputs lead from a handler through some others, to one that has none. -/
def Channel.Leads (ch : Channel) (g : Segment) : List Segment → Prop
  | [] => ch.next g = none
  | t :: path => ch.next g = some t ∧ ch.Leads t path

/-- The stages that are enabled, in their order. -/
def ChannelProps.stages (props : ChannelProps) : List Module :=
  (if props.maxErrorsReedSolomon = 8 ∨ props.maxErrorsReedSolomon = 16 then [.RSEncode] else []) ++
  (if props.usePseudoRandomize then [.PseudoRandomize] else []) ++
  (if props.useASM then [.ASM_Add] else [])

/-- What comes behind the segments of a master channel: the multiplexer of all of them, if there is
one, the generator of all frames and the stages that are enabled. -/
def ChannelProps.trunk (props : ChannelProps) (afGen mcMux : Module) : List (Module × Option ℕ) :=
  ((if props.hasMcMux then [mcMux] else []) ++ afGen :: props.stages).map fun m => (m, none)

/-- What the virtual channel generators of an AOS master channel are to lead through. -/
def AOS.wanted (props : newAOSChannelProps) (mcCount : ℕ) : List (Module × Option ℕ) :=
  (if hasVcMux props then [(.AOS_VC_Mux, some mcCount)] else []) ++
    props.trunk .AOS_AF_Gen .AOS_MC_Mux

/-- What those of a TM master channel are to lead through. -/
def TM.wanted (props : newTMChannelProps) (mcCount : ℕ) : List (Module × Option ℕ) :=
  (if hasVcMux props then [(.TM_VC_Mux, some mcCount)] else []) ++
    (.TM_MC_Gen, some mcCount) :: props.trunk .TM_AF_Gen .TM_MC_Mux

/-- Every virtual channel generator leads through what is wanted for its master channel. -/
def Wired (wanted : ℕ → List (Module × Option ℕ)) (ch : Channel) : Prop :=
  ∀ g ∈ ch.segments, g.dll.isVCGen = true → ∃ mcCount path, g.SCID = some mcCount ∧
    ch.Leads g path ∧ path.map (fun t => (t.dll, t.SCID)) = wanted mcCount

end ChannelEmulator.Macros
