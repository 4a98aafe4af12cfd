import ChannelEmulator.Spec.NetworkData

/-!
# Phase ambiguity

`modules/Emulation/modEmulatePhaseAmbiguity.cpp` and `modules/ECC/modResolvePhaseAmbiguity.cpp`
(without the detection of the shift), with the outputs connected. A block comes with the answer to
the wait for another one: true when the queue stays empty.
-/

namespace ChannelEmulator.PhaseAmbiguity

/-- What both modules are set to. -/
structure Setting where
  leftShiftBits : ℕ
  invert : Bool
  le_seven : leftShiftBits ≤ 7
deriving DecidableEq, Repr

/-- `b << bits` and `b >> bits`, of octets and fewer than eight bits. -/
def shl (b : Octet) (bits : ℕ) : Octet := b <<< UInt8.ofNat bits

def shr (b : Octet) (bits : ℕ) : Octet := b >>> UInt8.ofNat bits

/-- `_invert`, of an octet. -/
def Setting.flip (c : Setting) (b : Octet) : Octet := if c.invert then ~~~b else b

/-! ## `modEmulatePhaseAmbiguity` -/

namespace Emulate

/-- The loop over the octets of a block; `prev` is the octet at `offset - 1`. -/
def shiftOctets (c : Setting) (carry : Octet) : Option Octet → Bytes → Bytes
  | _, [] => []
  | prev, b :: rest =>
    let octet :=
      if 0 < c.leftShiftBits then
        match prev with
        | none => shr b (8 - c.leftShiftBits) ||| carry
        | some a => shl a c.leftShiftBits ||| shr b (8 - c.leftShiftBits)
      else b
    c.flip octet :: shiftOctets c carry (some b) rest

/-- `svc`, from a carry on: the units sent. A block without octets is dropped. -/
def svc (c : Setting) : Octet → List (Bytes × Bool) → List Bytes
  | _, [] => []
  | carry, (data, queueEmpty) :: blocks =>
    match data.getLast? with
    | none => svc c carry blocks
    | some last =>
      let shifted := shiftOctets c carry none data
      if 0 < c.leftShiftBits then
        let carry := shl last c.leftShiftBits
        if queueEmpty then (shifted ++ [c.flip carry]) :: svc c 0 blocks
        else shifted :: svc c carry blocks
      else shifted :: svc c carry blocks

end Emulate

/-! ## `modResolvePhaseAmbiguity` -/

namespace Resolve

/-- The loop over the octets of a block; `prev` is the octet at `offset - 1`, and the carry is
there where `haveCarry` is set. The first octet is left out where it is not. -/
def shiftOctets (c : Setting) (carry : Option Octet) : Option Octet → Bytes → Bytes
  | _, [] => []
  | prev, b :: rest =>
    let octets :=
      if 0 < c.leftShiftBits then
        match prev, carry with
        | none, none => []
        | none, some carry => [carry ||| shr b c.leftShiftBits]
        | some a, _ => [shl a (8 - c.leftShiftBits) ||| shr b c.leftShiftBits]
      else [b]
    octets.map c.flip ++ shiftOctets c carry (some b) rest

/-- `svc`, from a carry on: the units sent. -/
def svc (c : Setting) : Option Octet → List (Bytes × Bool) → List Bytes
  | _, [] => []
  | carry, (data, queueEmpty) :: blocks =>
    match data.getLast? with
    | none => svc c carry blocks
    | some last =>
      let shifted := shiftOctets c carry none data
      if 0 < c.leftShiftBits then
        let carry := if queueEmpty then none else some (shl last (8 - c.leftShiftBits))
        shifted :: svc c carry blocks
      else shifted :: svc c carry blocks

end Resolve

end ChannelEmulator.PhaseAmbiguity
