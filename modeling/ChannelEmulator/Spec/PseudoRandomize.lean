import ChannelEmulator.Spec.NetworkData

/-!
# Pseudo-randomization

`modules/CCSDS/modPseudoRandomize.cpp`: the sequence that the constructor stores, and what the service
does to a unit.
-/

namespace ChannelEmulator.PseudoRandomize

/-- `seqBufLen`. -/
def seqBufLen : ℕ := 65536

/-- The generator behind bit `x`. The source's `! x % 255` is the remainder of `! x`. -/
def nextGen (x : ℕ) (gen curBit : Octet) : Octet :=
  if 0 < x ∧ (if x = 0 then 1 else 0) % 255 ≠ 0 then 255 else (gen >>> 1) ||| (curBit <<< 7)

/-- The loop of the constructor, from bit `x` on, for a number of turns. -/
def fillFrom : ℕ → ℕ → Octet → Bytes → Except Fault Bytes
  | 0, _, _, seqBuf => .ok seqBuf
  | turns + 1, x, gen, seqBuf => do
    let curBit := gen &&& 1
    let seqBuf ← orAt seqBuf (x / 8) (curBit <<< .ofNat (7 - x % 8))
    let curBit := curBit ^^^ (((gen &&& 8) >>> 3) ^^^ ((gen &&& 32) >>> 5) ^^^ ((gen &&& 128) >>> 7))
    fillFrom turns (x + 1) (nextGen x gen curBit) seqBuf

/-- The constructor: `_seqBuf`. -/
def new : Except Fault Bytes := fillFrom (seqBufLen * 8) 0 0xff (List.replicate seqBufLen 0)

/-- The loop of `svc` over a unit, from octet `x` on. -/
def randomizeFrom (seqBuf : Bytes) : ℕ → Bytes → Except Fault Bytes
  | _, [] => .ok []
  | x, b :: data => do
    let s ← octetAt seqBuf x
    let rest ← randomizeFrom seqBuf (x + 1) data
    return (b ^^^ s) :: rest

/-- What a module that is constructed sends for a unit. -/
def randomize (data : Bytes) : Except Fault Bytes := do
  let seqBuf ← new
  randomizeFrom seqBuf 0 data

end ChannelEmulator.PseudoRandomize
