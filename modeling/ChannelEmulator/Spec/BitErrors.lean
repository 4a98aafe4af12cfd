import ChannelEmulator.Framing.Run
import ChannelEmulator.Spec.NetworkData

/-!
# Emulated bit errors

`modules/Emulation/modEmulateBitErrors.cpp`, with an output connected: the tests of a unit, each with
what the random numbers make of it, and the bits that are flipped.
-/

namespace ChannelEmulator.BitErrors

/-- The protected parts of a unit, as set, and the counters. -/
structure State where
  protectedHeaderBits : ℤ
  protectedTrailerBits : ℤ
  unitsWithErrors : ℕ
  totalErrors : ℕ
deriving DecidableEq, Repr

/-- What `lrand48` returns. -/
abbrev Draw := Fin 2147483648

/-- The difference is taken of a `size_t` and stored in an `int`. -/
def State.errorZoneBitLen (s : State) (unitLength : ℕ) : ℤ :=
  Int.bmod ((unitLength : ℤ) * 8 - s.protectedHeaderBits - s.protectedTrailerBits) 4294967296

/-- The body of a test that makes an error. A negative index is one past the end of any unit, as
`unsigned long`. -/
def flipBit (s : State) (u : Bytes) (draw : Draw) : Except Fault Bytes := do
  let errorZoneBitLen := s.errorZoneBitLen u.length
  let bitIdx := Int.tmod draw errorZoneBitLen + s.protectedHeaderBits
  if errorZoneBitLen = 0 then .error .divisionByZero
  else if bitIdx < 0 then .error .outOfBounds
  else do
    let octet ← octetAt u (bitIdx.toNat / 8)
    storeAt u (bitIdx.toNat / 8) [octet ^^^ (0x80 >>> UInt8.ofNat (bitIdx.toNat % 8))]

/-- The loop of tests of a unit. A test whose `drand48()` is above the error probability draws no bit. -/
def testLoop (s : State) (madeError : Bool) (u : Bytes) : List (Option Draw) → Except Fault (State × Bytes)
  | [] => .ok (s, u)
  | none :: tests => testLoop s madeError u tests
  | some draw :: tests => do
    let u ← flipBit s u draw
    let unitsWithErrors := if madeError then s.unitsWithErrors else s.unitsWithErrors + 1
    testLoop { s with unitsWithErrors := unitsWithErrors, totalErrors := s.totalErrors + 1 } true u tests

/-- `svc`, for one unit. -/
def handle (s : State) (item : Bytes × List (Option Draw)) : Except Fault (State × List Bytes) := do
  let (s, u) ← testLoop s false item.1 item.2
  return (s, [u])

/-- `svc`: the units sent. -/
def svc (s : State) (items : List (Bytes × List (Option Draw))) : Except Fault (State × List Bytes) :=
  Framing.runAll handle s items

end ChannelEmulator.BitErrors
