import ChannelEmulator.Spec.AosPacketService
import ChannelEmulator.Spec.Demux
import ChannelEmulator.Spec.FrameMux
import ChannelEmulator.Spec.TrafficNetwork

/-!
# The virtual channels of an AOS physical channel

The modules of a physical channel with any number of virtual channels that carry packets, each with its thread: the
frames of the virtual channels of a spacecraft meet at `modAOS_VC_Mux`, those of all spacecraft at `modAOS_MC_Mux`, and
`modAOS_MC_Demux` and `modAOS_VC_Demux` send them to the receivers.
-/

namespace ChannelEmulator.AOS

open Network Traffic ReedSolomon

/-- The modules, of virtual channels `k` and of the spacecraft `m`, with what is before the first and behind the last of
a virtual channel. -/
inductive Place (κ : Type)
  | source (k : κ)
  | add (k : κ)
  | gen (k : κ)
  | vcMux (m : Octet)
  | mcMux
  | afGen
  | afRcv
  | mcDemux
  | vcDemux (m : Octet)
  | rcv (k : κ)
  | remove (k : κ)
  | sink (k : κ)
deriving DecidableEq

/-- How far on a module is. -/
def Place.rank {κ : Type} : Place κ → ℕ
  | source _ => 0
  | add _ => 1
  | gen _ => 2
  | vcMux _ => 3
  | mcMux => 4
  | afGen => 5
  | afRcv => 6
  | mcDemux => 7
  | vcDemux _ => 8
  | rcv _ => 9
  | remove _ => 10
  | sink _ => 11

/-- What the modules are set to, and the output links of the demultiplexers. -/
structure PhysicalLink (κ : Type) where
  scid : κ → ℕ
  vcid : κ → ℕ
  useVCFrameCycle : κ → Bool := fun _ => false
  layout : Layout := {}
  physical : PhysicalChannel
  zones : κ → PacketZones := fun _ => {}
  dropBadFrames : Bool := true
  mcLinks : Demux.HandlerLinkMap Octet
  vcLinks : Octet → Demux.HandlerLinkMap κ

/-- `svc` of a multiplexer, with its output linked. -/
def muxService (h : Mux.Handler) : Traffic.Service :=
  .plain (fun k u => (h.multiplex k u).map fun r => (r.1, r.2.toList)) {}

/-- `svc` of a demultiplexer, by what its output links lead to. -/
def demuxSegment {κ τ : Type} (svc : Rcv → Bytes → Except Fault (Rcv × Option τ)) (place : τ → Place κ) :
    Segment (Place κ) :=
  .plain (fun k u => (svc k u).map fun r => (r.1, r.2.toList.map fun target => (place target, u))) {}

namespace PhysicalLink

variable {κ : Type} (p : PhysicalLink κ)

/-- The settings of a virtual channel. -/
def channel (k : κ) : Channel := ⟨p.scid k, p.vcid k, p.useVCFrameCycle k, p.layout⟩

/-- The spacecraft of a virtual channel, as the links of `modAOS_MC_Demux` have it. -/
def spacecraft (k : κ) : Octet := UInt8.ofNat (p.channel k).getSCID

/-- The data that a frame has room for. -/
def getMRU : ℕ := p.physical.frameSize - p.layout.nonDataLength - p.layout.inSduLen

def vcMux (m : Octet) : Mux.Handler :=
  { kind := .aosVC, frameSize := p.physical.frameSize, scid := m.toNat, dropBadFrames := p.dropBadFrames }

def mcMux : Mux.Handler :=
  { kind := .aosMC, frameSize := p.physical.frameSize, dropBadFrames := p.dropBadFrames }

def mcDemux : AOS.Service := { frameSize := p.physical.frameSize, dropBadFrames := p.dropBadFrames }

def vcDemux (m : Octet) : AOS.Service :=
  { channel := { scid := m.toNat, layout := p.layout }, frameSize := p.physical.frameSize,
    dropBadFrames := p.dropBadFrames }

/-- The modules with their links. -/
def segments (rs : RSBase) : Place κ → Segment (Place κ)
  | .source _ => .sink _
  | .add k => (mpduAdd ((p.zones k).add p.getMRU)).linked (.gen k)
  | .gen k => (Traffic.Service.plain (AOS.gen (p.channel k) p.getMRU) {}).linked (.vcMux (p.spacecraft k))
  | .vcMux m => (muxService (p.vcMux m)).linked .mcMux
  | .mcMux => (muxService p.mcMux).linked .afGen
  | .afGen => (Traffic.Service.plain (AOS.afGen p.physical rs p.layout) {}).linked .afRcv
  | .afRcv => (Traffic.Service.plain (AOS.afRcv p.physical rs p.layout) {}).linked .mcDemux
  | .mcDemux => demuxSegment (svcMCDemux p.mcDemux p.mcLinks) .vcDemux
  | .vcDemux m => demuxSegment (svcVCDemux (p.vcDemux m) (p.vcLinks m)) .rcv
  | .rcv k =>
    (Traffic.Service.plain (AOS.rcv (p.channel k) p.physical.frameSize p.dropBadFrames) {}).linked (.remove k)
  | .remove k => (Traffic.Service.plain Multiplexing.Remove.assembleEncap (p.zones k).remove).linked (.sink k)
  | .sink _ => .sink _

/-- Packets come from outside for every virtual channel. -/
def supply (packets : κ → List Bytes) : Place κ → List (Place κ × Bytes)
  | .source k => (packets k).map (.add k, ·)
  | _ => []

/-- All of it, before any thread has gone on. -/
abbrev net (rs : RSBase) (packets : κ → List Bytes) : Net (Place κ) Fault Bytes :=
  network (p.segments rs) (supply packets)

variable {p} {rs : RSBase} {packets : κ → List Bytes}

/-- What has come out of a virtual channel. -/
def delivered (s : (p.net rs packets).State) (k : κ) : List Bytes :=
  let sink : Handler (List Bytes) := s.memory (.sink k)
  sink.memory

/-- What the receiver of a virtual channel keeps. -/
def received (s : (p.net rs packets).State) (k : κ) : Rcv :=
  let vcRcv : Handler Rcv := s.memory (.rcv k)
  vcRcv.memory

variable (p)

/-- The modules can work together, and packets can be sent: the settings of both sides agree, no virtual channel is
that of idle frames, a frame has room for data, what is counted in cycles does not run over, and the demultiplexers are
linked to the receivers of their channels. -/
structure Agrees (rs : RSBase) (packets : κ → List Bytes) : Prop where
  code : RSBase.new headerCode = .ok rs
  received : p.physical.receivedAs p.layout = p.layout
  vcid_lt : ∀ k, (p.channel k).getVCID < 63
  ten_le : 10 ≤ p.getMRU
  le_max : p.getMRU ≤ 2048
  wellFormed : ∀ k, ∀ u ∈ packets k, Encap.WellFormed u
  cycle : ∀ k, p.useVCFrameCycle k = false ∨ ((packets k).map List.length).sum ≤ 2 ^ 28
  mcLinks : ∀ k, p.mcLinks (p.spacecraft k) = some (p.spacecraft k)
  vcLinks : ∀ k, p.vcLinks (p.spacecraft k) (UInt8.ofNat (p.channel k).getVCID) = some k

end PhysicalLink

end ChannelEmulator.AOS
