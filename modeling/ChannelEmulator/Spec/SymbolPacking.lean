import ChannelEmulator.Spec.ReedSolomon

/-!
# Packing of symbols

`lib/RSBase.cpp`: the static `pack` and `unpack`, of one to eight bits per symbol. A shift count is of
type `size_t`; one that wraps below zero is undefined, as is an octet out of bounds.
-/

namespace ChannelEmulator.ReedSolomon

/-- `mask`. -/
def mask (bitsPerSymbol : ℕ) : ℕ := 0xff >>> (8 - bitsPerSymbol)

/-- `maxBitOffsetForOneByte`. -/
def maxBitOffsetForOneByte (bitsPerSymbol : ℕ) : ℕ := 8 - bitsPerSymbol

/-- The number of whole symbols that a buffer has room for; the difference is of type `size_t`. -/
def room (bitsPerSymbol bufLen initialBitOffset : ℕ) : ℕ :=
  (if bufLen * 8 < initialBitOffset then 2 ^ 64 + bufLen * 8 - initialBitOffset
    else bufLen * 8 - initialBitOffset) / bitsPerSymbol

/-- One turn of the loop of `unpack`, for the symbol `i`. -/
def unpackSymbol (bitsPerSymbol : ℕ) (buf : Bytes) (initialBitOffset i : ℕ) : Except Fault ℕ :=
  let bufOffset := i * bitsPerSymbol / 8
  let bitOffset := i * bitsPerSymbol % 8 + initialBitOffset
  if maxBitOffsetForOneByte bitsPerSymbol < bitOffset then
    -- the symbol overlaps the byte boundary
    if 16 < bitOffset + bitsPerSymbol then .error .outOfBounds
    else do
      let high ← octetAt buf bufOffset
      let low ← octetAt buf (bufOffset + 1)
      return ((high.toNat <<< 8 ||| low.toNat) >>> (16 - bitOffset - bitsPerSymbol)) &&& mask bitsPerSymbol
  else do
    let octet ← octetAt buf bufOffset
    return (octet.toNat >>> (8 - bitOffset - bitsPerSymbol)) &&& mask bitsPerSymbol

/-- The loop of `unpack`, from the symbol `i` on. -/
def unpackLoop (bitsPerSymbol : ℕ) (buf : Bytes) (initialBitOffset : ℕ) : ℕ → ℕ → Except Fault SymVec
  | 0, _ => .ok []
  | symCount + 1, i => do
    let sym ← unpackSymbol bitsPerSymbol buf initialBitOffset i
    let syms ← unpackLoop bitsPerSymbol buf initialBitOffset symCount (i + 1)
    return UInt8.ofNat sym :: syms

/-- `unpack`. -/
def unpack (bitsPerSymbol : ℕ) (buf : Bytes) (maxSymbols initialBitOffset : ℕ) : Except Fault SymVec :=
  unpackLoop bitsPerSymbol buf initialBitOffset
    (min maxSymbols (room bitsPerSymbol buf.length initialBitOffset)) 0

/-- One turn of the loop of `pack`, for the symbol `i`. -/
def packSymbol (bitsPerSymbol : ℕ) (sym : Sym) (initialBitOffset i : ℕ) (buf : Bytes) : Except Fault Bytes :=
  let bufOffset := i * bitsPerSymbol / 8
  let bitOffset := i * bitsPerSymbol % 8 + initialBitOffset
  if maxBitOffsetForOneByte bitsPerSymbol < bitOffset then
    -- the symbol overlaps the byte boundary
    if 16 < bitOffset + bitsPerSymbol then .error .outOfBounds
    else do
      let wideVal := ((sym.toNat &&& mask bitsPerSymbol) <<< (16 - bitOffset - bitsPerSymbol)) % 2 ^ 16
      let buf ← orAt buf bufOffset (.ofNat (wideVal >>> 8))
      orAt buf (bufOffset + 1) (.ofNat (wideVal &&& 0xff))
  else orAt buf bufOffset (.ofNat ((sym.toNat &&& mask bitsPerSymbol) <<< (8 - bitOffset - bitsPerSymbol)))

/-- The loop of `pack`, from the symbol `i` on. -/
def packLoop (bitsPerSymbol : ℕ) (syms : SymVec) (initialBitOffset : ℕ) : ℕ → ℕ → Bytes → Except Fault Bytes
  | 0, _, buf => .ok buf
  | symCount + 1, i, buf => do
    let sym ← octetAt syms i
    let buf ← packSymbol bitsPerSymbol sym initialBitOffset i buf
    packLoop bitsPerSymbol syms initialBitOffset symCount (i + 1) buf

/-- `pack`: what it leaves in a buffer of `bufLen` octets. -/
def pack (bitsPerSymbol : ℕ) (syms : SymVec) (maxSymbols bufLen initialBitOffset : ℕ) : Except Fault Bytes :=
  let symCount := min maxSymbols (if syms.length * bitsPerSymbol + initialBitOffset ≤ bufLen * 8 then
    syms.length else room bitsPerSymbol bufLen initialBitOffset)
  packLoop bitsPerSymbol syms initialBitOffset symCount 0 (newUnit bufLen)

end ChannelEmulator.ReedSolomon
