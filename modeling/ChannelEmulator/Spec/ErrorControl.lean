import ChannelEmulator.Spec.PseudoRandomize
import ChannelEmulator.Spec.RSDecode
import ChannelEmulator.Spec.SyncMarker
import ChannelEmulator.Spec.TrafficHandler

/-!
# Error control

`modules/ECC/modRSEncode.cpp`, and the modules that frames go through before and behind a link with errors, each with
its thread.
-/

namespace ChannelEmulator

open ReedSolomon

namespace RSEncode

/-- `_dataLength`, as `_resetLengths` sets it. -/
def dataLength (maxErrorsPerCodeword : ℕ) : ℕ := 255 - maxErrorsPerCodeword * 2

/-- One turn of the loop of `svc`, with what it sends over the primary output. Units are shorter than `2 ^ 31` octets,
as `dataLen` is an `int`. -/
def handle (rs : RSBase) (maxErrorsPerCodeword interleavingDepth : ℕ) (data : Bytes) : Except Fault (List Bytes) :=
  if dataLength maxErrorsPerCodeword * interleavingDepth < data.length then .ok []
  else do
    let parity ← rs.encode data
    return [data ++ parity]

end RSEncode

namespace ErrorControl

open Traffic

/-- What both ends of a link are set to. -/
structure Link where
  maxErrorsPerCodeword : ℕ
  interleavingDepth : ℕ
  marker : Bytes
  frameLength : ℕ
  allowedMarkerBitErrors : ℤ := 0

namespace Link

variable (c : Link)

/-- The octets of a frame with its parity. -/
def expectedUnitLength : ℕ := c.frameLength + c.maxErrorsPerCodeword * 2 * c.interleavingDepth

end Link

end ErrorControl

end ChannelEmulator
