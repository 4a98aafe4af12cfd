import ChannelEmulator.Spec.NetworkData

/-!
# Bit patterns

`lib/BitPattern.cpp`: the buffers that are filled with a pattern, the words of a pattern, and the
pseudo-random pattern; with the bit access of `lib/NetworkData.cpp`.
-/

namespace ChannelEmulator

/-! ## Bit access -/

/-- `NetworkData::getBit`. -/
def getBit (buf : Bytes) (bitOffset : ℕ) : Except Fault Bool := do
  let octet ← octetAt buf (bitOffset / 8)
  return decide (octet.toNat &&& (1 <<< (bitOffset % 8)) ≠ 0)

/-- `NetworkData::setBit`. -/
def setBit (buf : Bytes) (bitOffset : ℕ) (val : Bool) : Except Fault Bytes := do
  let octet ← octetAt buf (bitOffset / 8)
  storeAt buf (bitOffset / 8)
    [.ofNat ((octet.toNat &&& (0xff - (1 <<< (bitOffset % 8)))) ||| (val.toNat <<< (bitOffset % 8)))]

/-- The loop of `NetworkData::bitCopy`, from the bit `b` on. -/
def bitCopyFrom (srcBitOffset dstBitOffset : ℕ) (src : Bytes) : ℕ → ℕ → Bytes → Except Fault Bytes
  | 0, _, dst => .ok dst
  | bitLen + 1, b, dst => do
    let bit ← getBit src (srcBitOffset + b)
    let dst ← setBit dst (dstBitOffset + b) bit
    bitCopyFrom srcBitOffset dstBitOffset src bitLen (b + 1) dst

/-- `NetworkData::bitCopy`. -/
def bitCopy (srcBitOffset dstBitOffset bitLen : ℕ) (src dst : Bytes) : Except Fault Bytes :=
  bitCopyFrom srcBitOffset dstBitOffset src bitLen 0 dst

/-! ## Patterns -/

/-- `BufferRangeError::msg`. -/
def bufferRangeMsg (msg : String) (attemptedIndex max : ℕ) : String :=
  msg ++ ": attempt to access beyond the end of buffer: index " ++ toString attemptedIndex ++
    " attempted with max of " ++ toString max ++ "."

/-- `BitPattern`. -/
structure BitPattern where
  wordBits : ℕ
  pattern : Bytes
  patternBitLen : ℕ
  nextBitToCopy : ℕ
deriving DecidableEq, Repr

namespace BitPattern

/-- `getPatternByteLen`. -/
def byteLen (patternBitLen : ℕ) : ℕ := patternBitLen / 8 + (if 0 < patternBitLen % 8 then 1 else 0)

/-- The constructor. -/
def new (patternBitLen wordBits : ℕ) : BitPattern where
  wordBits := if wordBits < 2 then 2 else if 24 < wordBits then 24 else wordBits
  pattern := newUnit (byteLen patternBitLen)
  patternBitLen := patternBitLen
  nextBitToCopy := 0

/-- The loop over an octet-aligned pattern, from the octet `x` of the buffer on. -/
def alignedFrom (pattern : Bytes) (nextBitToCopy : ℕ) : ℕ → ℕ → Except Fault Bytes
  | 0, _ => .ok []
  | octets + 1, x => do
    let octet ← octetAt pattern ((x + nextBitToCopy / 8) % pattern.length)
    let rest ← alignedFrom pattern nextBitToCopy octets (x + 1)
    return (octet &&& 0xff) :: rest

/-- The loop over a pattern that is not aligned, from the bit `b` of the buffer on, for a number of turns at
most. It leaves the buffer and the number of bits of the last copy. -/
def unalignedFrom (pattern : Bytes) (patternBitLen bufBitLen : ℕ) :
    ℕ → ℕ → ℕ → Bytes → Except Fault (Bytes × ℕ)
  | 0, _, _, _ => .error .diverges
  | fuel + 1, b, bitsToCopy, buf =>
    if b < bufBitLen then do
      let bitsToCopy := if bufBitLen < patternBitLen + b then bufBitLen - b else patternBitLen
      let buf ← bitCopy 0 b bitsToCopy pattern buf
      unalignedFrom pattern patternBitLen bufBitLen fuel (b + bitsToCopy) bitsToCopy buf
    else .ok (buf, bitsToCopy)

/-- The bits of the buffer, and where the last copy is said to have left off. A remainder by zero is
undefined. -/
def fillBuffer (p : BitPattern) (bufLen : ℕ) : Except Fault (Bytes × ℕ) :=
  if p.patternBitLen % 8 = 0 then
    if p.pattern.length = 0 then .error .outOfBounds
    else do
      let buf ← alignedFrom p.pattern p.nextBitToCopy bufLen 0
      return (buf, bufLen % p.pattern.length * 8)
  else unalignedFrom p.pattern p.patternBitLen (bufLen * 8) (bufLen * 8 + 1) 0 0 (newUnit bufLen)

/-- `makeNewPatternBuffer`. -/
def makeNewPatternBuffer (p : BitPattern) (bufLen : ℕ) (restart : Bool) : Except Fault (BitPattern × Bytes) := do
  let p := if restart then { p with nextBitToCopy := 0 } else p
  let (buf, nextBitToCopy) ← p.fillBuffer bufLen
  let nextBitToCopy := if p.patternBitLen ≤ nextBitToCopy then 0 else nextBitToCopy
  return ({ p with nextBitToCopy := nextBitToCopy }, buf)

/-! ## Words -/

/-- `bitMask_` and `invBitMask_`. -/
def bitMask : List Octet := [0x1, 0x2, 0x4, 0x8, 0x10, 0x20, 0x40, 0x80]
def invBitMask : List Octet := [0xfe, 0xfd, 0xfb, 0xf7, 0xef, 0xdf, 0xbf, 0x7f]

/-- The checks of `getWordBit` and `setWordBit`, and where the bit is. -/
def wordBitNum (p : BitPattern) (name : String) (word bit : ℕ) : Except Fault ℕ :=
  if p.pattern.length * 8 < word * p.wordBits + bit then
    .error (.ndError (bufferRangeMsg name (word * p.wordBits) (p.pattern.length * 8)))
  else if p.wordBits ≤ bit then .error (.ndError (bufferRangeMsg name bit (p.wordBits - 1)))
  else .ok ((word + 1) * p.wordBits - bit - 1)

/-- `getWordBit`. -/
def getWordBit (p : BitPattern) (word bit : ℕ) : Except Fault Bool := do
  let bitNum ← p.wordBitNum "BitPattern::getWordBit" word bit
  let bval ← octetAt p.pattern (bitNum / 8)
  return decide (bval &&& bitMask.getD (7 - bitNum % 8) 0 ≠ 0)

/-- `setWordBit`. -/
def setWordBit (p : BitPattern) (word bit : ℕ) (val : Bool) : Except Fault BitPattern := do
  let bitNum ← p.wordBitNum "BitPattern::setWordBit" word bit
  let old ← octetAt p.pattern (bitNum / 8)
  let pattern ← storeAt p.pattern (bitNum / 8)
    [(old &&& invBitMask.getD (7 - bitNum % 8) 0) ||| .ofNat (val.toNat <<< (7 - bitNum % 8))]
  return { p with pattern := pattern }

/-- The loop of `copySubWord`, from the bit `x` on. -/
def copySubWordFrom (srcWord srcBit dstWord dstBit : ℕ) : ℕ → ℕ → BitPattern → Except Fault BitPattern
  | 0, _, p => .ok p
  | len + 1, x, p =>
    if srcBit + x < p.wordBits ∧ dstBit + x < p.wordBits then do
      let bit ← p.getWordBit srcWord (srcBit + x)
      let p ← p.setWordBit dstWord (dstBit + x) bit
      copySubWordFrom srcWord srcBit dstWord dstBit len (x + 1) p
    else .ok p

/-- `copySubWord`. -/
def copySubWord (p : BitPattern) (srcWord srcBit len dstWord dstBit : ℕ) : Except Fault BitPattern :=
  copySubWordFrom srcWord srcBit dstWord dstBit len 0 p

/-- The loop of `word2Long`, from the bit `x` on. -/
def word2LongFrom (p : BitPattern) (word : ℕ) : ℕ → ℕ → ℕ → Except Fault ℕ
  | 0, _, ret => .ok ret
  | bits + 1, x, ret => do
    let bit ← p.getWordBit word x
    word2LongFrom p word bits (x + 1) (ret ||| (bit.toNat <<< x))

/-- `word2Long`. -/
def word2Long (p : BitPattern) (word : ℕ) : Except Fault ℕ := word2LongFrom p word p.wordBits 0 0

/-! ## The pseudo-random pattern -/

/-- The loop of `_genWordLsh` over the taps. -/
def xorTaps (p : BitPattern) (word : ℕ) : List ℕ → Bool → Except Fault Bool
  | [], i => .ok i
  | t :: taps, i => do
    let bit ← p.getWordBit word t
    xorTaps p word taps (i ^^ bit)

/-- `_genWordLsh`. -/
def genWordLsh (p : BitPattern) (word : ℕ) (taps : List ℕ) : Except Fault BitPattern := do
  let p ← p.copySubWord (word - 1) 0 (p.wordBits - 1) word 1
  let i ← p.getWordBit (word - 1) (p.wordBits - 1)
  let i ← p.xorTaps (word - 1) taps i
  p.setWordBit word 0 i

/-- The loops of `_genPattern`, from the word `w` on. -/
def genWords (taps : List ℕ) : ℕ → ℕ → BitPattern → Except Fault BitPattern
  | 0, _, p => .ok p
  | words + 1, w, p => do
    let p ← p.genWordLsh w taps
    genWords taps words (w + 1) p

/-- `singleTapTable`. -/
def singleTapTable : List ℤ :=
  [-2, -2, -1, 1, 2, 2, 4, 5,
    -1, 4, 6, 8, -1, -1, -1, 13,
    -1, 13, 10, -1, 16, 18, 20, 17,
    -1, 21]

/-- The taps of the cases of the switch. -/
def switchTaps : ℕ → Option (List ℕ)
  | 8 => some [5, 4, 3]
  | 12 => some [5, 3, 0]
  | 13 => some [3, 2, 0]
  | 14 => some [4, 2, 0]
  | 16 => some [14, 12, 3]
  | 24 => some [22, 21, 16]
  | _ => none

/-- The sequence is initialized; `_genPattern` does so with 1, which is `setWordBit(0, 0, true)`. -/
def loadSeed (seed : ℕ) : ℕ → BitPattern → Except Fault BitPattern
  | 0, p => .ok p
  | bits + 1, p => do
    let p ← if seed.testBit bits then p.setWordBit 0 bits true else .ok p
    loadSeed seed bits p

/-- `_genPattern`, from a seed on. -/
def genPattern (p : BitPattern) (seed : ℕ) : Except Fault BitPattern := do
  let p ← loadSeed seed p.wordBits p
  let words := (1 <<< p.wordBits) - 1 - 1
  let tap := singleTapTable.getD p.wordBits (-2)
  if -1 < tap then genWords [tap.toNat] words 1 p
  else if p.wordBits = 2 then do
    let p ← p.setWordBit 1 1 true
    let p ← p.setWordBit 2 0 true
    p.setWordBit 2 1 true
  else
    match switchTaps p.wordBits with
    | some taps => genWords taps words 1 p
    | none => .ok p

/-- `PrbsPattern`, of a seed. -/
def prbsPattern (shifterBits seed : ℕ) : Except Fault BitPattern :=
  genPattern (new (((1 <<< shifterBits) - 1) * shifterBits) shifterBits) seed

end BitPattern

end ChannelEmulator
