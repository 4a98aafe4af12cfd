import ChannelEmulator.Spec.AosAllFrames
import ChannelEmulator.Spec.AosVirtualChannel

/-!
# The AOS access service

The modules that a unit of the access service goes through: `modAOS_VC_Gen`, `modAOS_AF_Gen`, `modAOS_AF_Rcv` and
`modAOS_VC_Rcv`.
-/

namespace ChannelEmulator.AOS

open Framing ReedSolomon

/-- `getMRU` of `modAOS_VC_Gen`, for frames that have room for their fields. -/
def Channel.getMRU (c : Channel) (frameSize : ℕ) : ℕ := frameSize - c.layout.nonDataLength - c.layout.inSduLen

/-- What the modules of a link have counted. -/
structure Link where
  vcGen : Counter
  afGen : GenTallies
  afRcv : RcvTallies
  vcRcv : Rcv
deriving DecidableEq, Repr

/-- The units that the receiver passes on for the units that are sent. Each module takes, in order, all that the
module before it sends. -/
def transfer (c : Channel) (v : PhysicalChannel) (rs : RSBase) (dropBadFrames : Bool) (units : List Bytes) :
    Except Fault (Link × List Bytes) := do
  let (vcGen, frames) ← runAll (gen c (c.getMRU v.frameSize)) {} units
  let (afGen, frames) ← runAll (afGen v rs c.layout) {} frames
  let (afRcv, frames) ← runAll (afRcv v rs c.layout) {} frames
  let (vcRcv, units) ← runAll (rcv c v.frameSize dropBadFrames) {} frames
  return (⟨vcGen, afGen, afRcv, vcRcv⟩, units)

end ChannelEmulator.AOS
