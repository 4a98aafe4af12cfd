import ChannelEmulator.Spec.AosVirtualChannel
import ChannelEmulator.Spec.FrameReception

/-!
# The AOS and TM demultiplexers

`modules/TM/TM_Demux_Base.cpp`, `modTM_VC_Demux.cpp` and `modTM_MC_Demux.cpp`,
`modules/AOS/AOS_Demux_Base.cpp`, `modAOS_VC_Demux.cpp` and `modAOS_MC_Demux.cpp`: the output
links of a demultiplexer by the target each one leads to, and one pass of the loop of `svc`.
-/

namespace ChannelEmulator

/-! ## `HandlerLinkMap` -/

namespace Demux

variable {τ : Type} [DecidableEq τ]

/-- `primaryOutputLinks_`. -/
abbrev HandlerLinkMap (τ : Type) := Octet → Option τ

/-- `connectPrimaryOutput`. Another target of the identifier is disconnected first. -/
def connectPrimaryOutput (links : HandlerLinkMap τ) (identifier : Octet) (target : τ) :
    HandlerLinkMap τ :=
  if links identifier = some target then links else Function.update links identifier (some target)

/-- `connectPrimaryOutput` of the interfaces: an identifier is cut to `ACE_UINT8`. -/
def connect (links : HandlerLinkMap τ) (p : ℕ × τ) : HandlerLinkMap τ :=
  connectPrimaryOutput links (UInt8.ofNat p.1) p.2

end Demux

/-! ## TM -/

namespace TM

variable {τ : Type} (v : Service) (links : Demux.HandlerLinkMap τ)

/-- One pass of the loop of `svc` of `modTM_VC_Demux`: the tallies, and what the frame is sent
to. -/
def svcVCDemux (k : Tallies) (u : Bytes) : Except Fault (Tallies × Option τ) := do
  let (k, good) ← v.validateFrame k u
  if v.failed good then return (k, none)
  else do
    let mcid ← getMCID u
    let ours : Bool := mcid = v.channel.scid
    let k := if ours then k else { k with badMCIDCount := k.badMCIDCount + 1 }
    if v.failed ours then return (k, none)
    else do
      let k := if good && ours then { k with validFrameCount := k.validFrameCount + 1 } else k
      let vcid ← getVCID u
      return (k, links (UInt8.ofNat vcid))

/-- One pass of the loop of `svc` of `modTM_MC_Demux`. -/
def svcMCDemux (k : Tallies) (u : Bytes) : Except Fault (Tallies × Option τ) := do
  let (k, good) ← v.validateFrame k u
  if v.failed good then return (k, none)
  else do
    let k := if good then { k with validFrameCount := k.validFrameCount + 1 } else k
    let mcid ← getMCID u
    return (k, links (UInt8.ofNat mcid))

end TM

/-! ## AOS -/

namespace AOS

/-- What the demultiplexers are set up with. -/
structure Service where
  channel : Channel := {}
  frameSize : ℕ
  dropBadFrames : Bool := true
deriving DecidableEq, Repr

variable {τ : Type} (v : Service) (links : Demux.HandlerLinkMap τ)

/-- One pass of the loop of `svc` of `modAOS_VC_Demux`. A frame that is not valid is dropped in
any case. -/
def svcVCDemux (k : Rcv) (u : Bytes) : Except Fault (Rcv × Option τ) := do
  let (k, good) ← validateFrame k u v.frameSize
  if !good then return (k, none)
  else do
    let mcid ← getMCID u
    let ours : Bool := mcid = v.channel.getMCID
    let k := if ours then k else { k with badMCIDCount := k.badMCIDCount + 1 }
    if !ours && v.dropBadFrames then return (k, none)
    else do
      let k := if ours then { k with validFrameCount := k.validFrameCount + 1 } else k
      let vcid ← getVirtualChannelID u
      return (k, links (UInt8.ofNat vcid))

/-- One pass of the loop of `svc` of `modAOS_MC_Demux`. -/
def svcMCDemux (k : Rcv) (u : Bytes) : Except Fault (Rcv × Option τ) := do
  let (k, good) ← validateFrame k u v.frameSize
  if !good && v.dropBadFrames then return (k, none)
  else do
    let k := if good then { k with validFrameCount := k.validFrameCount + 1 } else k
    let scid ← getSpacecraftID u
    return (k, links (UInt8.ofNat scid))

end AOS

/-! ## The four of them -/

namespace Demux

inductive Handler
  | tmVC (v : TM.Service)
  | tmMC (v : TM.Service)
  | aosVC (v : AOS.Service)
  | aosMC (v : AOS.Service)
deriving DecidableEq, Repr

namespace Handler

variable {τ : Type}

/-- The identifier `svc` looks up. -/
def getIdentifier : Handler → Bytes → Except Fault ℕ
  | tmVC _, u => TM.getVCID u
  | tmMC _, u => TM.getMCID u
  | aosVC _, u => AOS.getVirtualChannelID u
  | aosMC _, u => AOS.getSpacecraftID u

/-- The tallies a demultiplexer keeps, of which it uses those of its kind. -/
structure Tallies where
  tm : TM.Tallies := {}
  aos : AOS.Rcv := {}
deriving DecidableEq, Repr

/-- One pass of the loop of `svc`: the tallies, and what a frame is sent to. -/
def svc (h : Handler) (k : Tallies) (links : HandlerLinkMap τ) (u : Bytes) :
    Except Fault (Tallies × Option τ) :=
  match h with
  | tmVC v => (fun r => ({ k with tm := r.1 }, r.2)) <$> TM.svcVCDemux v links k.tm u
  | tmMC v => (fun r => ({ k with tm := r.1 }, r.2)) <$> TM.svcMCDemux v links k.tm u
  | aosVC v => (fun r => ({ k with aos := r.1 }, r.2)) <$> AOS.svcVCDemux v links k.aos u
  | aosMC v => (fun r => ({ k with aos := r.1 }, r.2)) <$> AOS.svcMCDemux v links k.aos u

end Handler

end Demux

end ChannelEmulator
