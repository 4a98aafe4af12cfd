import ChannelEmulator.Spec.AosFrame
import ChannelEmulator.Spec.FrameReception

/-!
# The AOS and TM multiplexers

`modules/AOS/AOS_Mux_Base.cpp`, `modAOS_VC_Mux.cpp` and `modAOS_MC_Mux.cpp`,
`modules/TM/TM_Mux_Base.cpp`, `modTM_VC_Mux.cpp` and `modTM_MC_Mux.cpp`: what `putq` does with a
frame that comes in over any of the input links, and one pass of the loop of `svc`.
-/

namespace ChannelEmulator

namespace TM

/-- `initializeCRC`, for a frame with a frame error control field. -/
def initializeCRC (u : Bytes) : Except Fault Bytes :=
  if u.length < spanFrameErrorControlField then .error .outOfBounds
  else storeAt u (u.length - spanFrameErrorControlField) (fromU16 (AOS.getFrameCRC16 u).toNat)

end TM

namespace Mux

/-- The four multiplexers. -/
inductive Kind
  | aosVC
  | aosMC
  | tmVC
  | tmMC
deriving DecidableEq, Repr

/-- A frame has a primary header, of six octets in AOS and in TM. -/
structure Frame where
  octets : Bytes
  header : TM.spanPrimaryHeader ≤ octets.length
deriving DecidableEq, Repr

/-- The settings of a multiplexer, and whether its output is connected. -/
structure Handler where
  kind : Kind
  frameSize : ℕ
  scid : ℕ := 0
  dropBadFrames : Bool := true
  useFrameErrorControl : Bool := false
  defaultPriority : ℤ := 1000
  /-- The list `channelID_Priorities`. -/
  channelIDPriorities : List (ℕ × ℤ) := []
  connected : Bool := true
deriving DecidableEq, Repr

/-- The tallies of a multiplexer. -/
structure Tallies where
  validFrameCount : ℕ := 0
  badLengthCount : ℕ := 0
  badMCIDCount : ℕ := 0
deriving DecidableEq, Repr

namespace Handler

variable (m : Handler)

/-- `getMCID` of the service. -/
def getMCID : ℕ :=
  match m.kind with
  | .aosVC | .aosMC => ((1 <<< 8) ||| (m.scid &&& 0xFF)) &&& 0x3FF
  | .tmVC | .tmMC => m.scid % 2 ^ 16

/-! ## Into the queue -/

/-- `getIdentifier_`, of type `ACE_UINT8`. -/
def getIdentifier (u : Bytes) : Except Fault Octet := do
  let id ← match m.kind with
    | .aosVC => AOS.getVirtualChannelID u
    | .aosMC => AOS.getMCID u
    | .tmVC => TM.getVCID u
    | .tmMC => TM.getMCID u
  return UInt8.ofNat id

/-- `getPriority` of `AOS_Mux_Base`. Its map holds the list with the identifiers cut to eight
bits; of two items of one identifier the later is kept. -/
def getPriorityAOS (identifier : Octet) : ℤ :=
  match m.channelIDPriorities.reverse.find? (fun p => UInt8.ofNat p.1 = identifier) with
  | some p => p.2
  | none => m.defaultPriority

/-- `getPriority` of `TM_Mux_Base`: the first item of the list with the identifier. -/
def getPriorityTM (identifier : Octet) : ℤ :=
  match m.channelIDPriorities.find? (fun p => p.1 = identifier.toNat) with
  | some p => p.2
  | none => m.defaultPriority

/-- `getPriority`. -/
def getPriority (identifier : Octet) : ℤ :=
  match m.kind with
  | .aosVC | .aosMC => m.getPriorityAOS identifier
  | .tmVC | .tmMC => m.getPriorityTM identifier

end Handler

/-- A message block: which one it is, and its `msg_priority`, of type `unsigned long`. -/
structure Message where
  block : ℕ
  frame : Frame
  priority : ℕ
deriving DecidableEq, Repr

/-- The queue, how many message blocks were put into it so far, and the tallies. -/
structure State where
  queue : List Message := []
  arrived : ℕ := 0
  tallies : Tallies := {}
deriving DecidableEq, Repr

namespace Handler

variable (m : Handler)

/-- `putq`: the message block gets its priority, and `taskType::putq` appends it. -/
def putq (s : State) (f : Frame) : Except Fault State := do
  let identifier ← m.getIdentifier f.octets
  let priority := (m.getPriority identifier % 2 ^ 64).toNat
  return { s with queue := s.queue ++ [⟨s.arrived, f, priority⟩], arrived := s.arrived + 1 }

/-! ## Out of the queue -/

/-- `addErrorControlIfPossible`. -/
def addErrorControlIfPossible (u : Bytes) : Except Fault Bytes :=
  if m.useFrameErrorControl then TM.initializeCRC u else .ok u

/-- What `svc` of `modAOS_VC_Mux` does with a frame: it is dropped, or goes to the output. -/
def svcAosVC (k : Tallies) (u : Bytes) : Except Fault (Tallies × Option Bytes) :=
  if u.length ≠ m.frameSize then .ok ({ k with badLengthCount := k.badLengthCount + 1 }, none)
  else do
    let mcid ← AOS.getMCID u
    let bad : Bool := mcid ≠ m.getMCID
    let k := if bad then { k with badMCIDCount := k.badMCIDCount + 1 } else k
    if bad && m.dropBadFrames then return (k, none)
    else return ({ k with validFrameCount := k.validFrameCount + 1 }, some u)

/-- What `svc` of `modAOS_MC_Mux` does with a frame. -/
def svcAosMC (k : Tallies) (u : Bytes) : Except Fault (Tallies × Option Bytes) :=
  if u.length ≠ m.frameSize then
    let k := { k with badLengthCount := k.badLengthCount + 1 }
    if m.dropBadFrames then .ok (k, none) else .ok (k, some u)
  else .ok ({ k with validFrameCount := k.validFrameCount + 1 }, some u)

/-- What `svc` of `modTM_VC_Mux` does with a frame. -/
def svcTmVC (k : Tallies) (u : Bytes) : Except Fault (Tallies × Option Bytes) :=
  let short : Bool := u.length ≠ m.frameSize
  let k := if short then { k with badLengthCount := k.badLengthCount + 1 } else k
  if short && m.dropBadFrames then .ok (k, none)
  else do
    let mcid ← TM.getMCID u
    let bad : Bool := mcid ≠ m.getMCID
    let k := if bad then { k with badMCIDCount := k.badMCIDCount + 1 } else k
    if bad && m.dropBadFrames then return (k, none)
    else do
      let u ← m.addErrorControlIfPossible u
      let valid := !short && !bad
      return (if valid then { k with validFrameCount := k.validFrameCount + 1 } else k, some u)

/-- What `svc` of `modTM_MC_Mux` does with a frame. -/
def svcTmMC (k : Tallies) (u : Bytes) : Except Fault (Tallies × Option Bytes) :=
  let short : Bool := u.length ≠ m.frameSize
  let k := if short then { k with badLengthCount := k.badLengthCount + 1 }
    else { k with validFrameCount := k.validFrameCount + 1 }
  if short && m.dropBadFrames then .ok (k, none)
  else do
    let u ← m.addErrorControlIfPossible u
    return (k, some u)

/-- What `svc` does with a frame, ahead of the output. -/
def multiplex (k : Tallies) (u : Bytes) : Except Fault (Tallies × Option Bytes) :=
  match m.kind with
  | .aosVC => m.svcAosVC k u
  | .aosMC => m.svcAosMC k u
  | .tmVC => m.svcTmVC k u
  | .tmMC => m.svcTmMC k u

/-- One pass of the loop of `svc`: `getq` removes the head of the queue. With the output
connected, what is forwarded is paired with the message block it came in. -/
def svc (s : State) : Except Fault (State × Option (Message × Bytes)) :=
  match s.queue with
  | [] => .ok (s, none)
  | msg :: queue => do
    let (tallies, sent) ← m.multiplex s.tallies msg.frame.octets
    return ({ s with queue := queue, tallies := tallies },
      if m.connected then sent.map (msg, ·) else none)

end Handler

/-- What happens to a multiplexer: a frame arrives, or the queue is served. Serving an empty
queue changes nothing: `getq` blocks. -/
inductive Event
  | arrive (f : Frame)
  | serve
deriving DecidableEq, Repr

namespace Handler

variable (m : Handler)

/-- One event, with what it forwards. -/
def step (s : State) : Event → Except Fault (State × List (Message × Bytes))
  | .arrive f => do
    let s ← m.putq s f
    return (s, [])
  | .serve => do
    let (s, sent) ← m.svc s
    return (s, sent.toList)

end Handler

end Mux

end ChannelEmulator
