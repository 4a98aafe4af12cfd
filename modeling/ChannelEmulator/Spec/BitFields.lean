import ChannelEmulator.Spec.NetworkData

/-!
# Bit fields

`lib/NetworkData.cpp`: `bits2uint` and `uint2bits`, on a host that stores the least significant octet
of a number first.
-/

namespace ChannelEmulator.BitFields

/-- Where the octets of a field are, as offsets, and the bits of the first and of the last one. -/
structure Places where
  firstOctet : ℕ
  firstOctetAnd : Octet
  middle : ℕ
  middleOctets : ℕ
  lastOctet : ℕ
  lastOctetBits : ℕ
  lastOctetAnd : Octet

/-- The bits behind the first octet; the difference is of type `unsigned`. -/
def bitsBehind (bitOffset bitLength : ℕ) : ℕ := (bitLength + 2 ^ 32 - (8 - bitOffset % 8)) % 2 ^ 32

def places (bitOffset bitLength : ℕ) : Places :=
  let firstOctetBits := 8 - bitOffset % 8
  let middleOctets := bitsBehind bitOffset bitLength / 8 % 2 ^ 8
  let lastOctetBits := bitsBehind bitOffset bitLength % 8
  { firstOctet := bitOffset / 8
    firstOctetAnd := .ofNat (0xFF >>> (8 - firstOctetBits))
    middle := bitOffset / 8 + 1
    middleOctets := middleOctets
    lastOctet := bitOffset / 8 + 1 + middleOctets
    lastOctetBits := lastOctetBits
    lastOctetAnd := .ofNat (0xFF <<< (8 - lastOctetBits)) }

/-- The octets of a number of 64 bits, as they are in memory. -/
def octetsOf (val : ℕ) : Bytes := (List.range 8).map fun k => .ofNat (val >>> (8 * k))

/-- The number of octets in memory. -/
def valueOf : Bytes → ℕ
  | [] => 0
  | b :: rest => b.toNat + 256 * valueOf rest

/-- `valP + pos`, where `pos` has been moved `k` times. -/
def position (byteswap : Bool) (k : ℕ) : Except Fault ℕ :=
  if 8 ≤ k then .error .outOfBounds else .ok (if byteswap then k else 7 - k)

/-- The loop of `bits2uint` over the middle octets, in the order of the list. -/
def gatherMiddle (byteswap : Bool) (buf : Bytes) (middle : ℕ) : List ℕ → ℕ → Bytes → Except Fault (ℕ × Bytes)
  | [], k, val => .ok (k, val)
  | m :: ms, k, val => do
    let octet ← octetAt buf (middle + m)
    let pos ← position byteswap k
    let val ← storeAt val pos [octet]
    gatherMiddle byteswap buf middle ms (k + 1) val

/-- `bits2uint`. -/
def bits2uint (buf : Bytes) (bitOffset bitLength : ℕ) (byteswap : Bool) : Except Fault ℕ :=
  if 64 < bitLength then .error (.ndError "Length of bit field is too long; 64 max.")
  else do
    let p := places bitOffset bitLength
    let last ← octetAt buf p.lastOctet
    let pos ← position byteswap 0
    let val ← storeAt (newUnit 8) pos [last &&& p.lastOctetAnd]
    -- without the swap the first middle octet is left out
    let (k, val) ← gatherMiddle byteswap buf p.middle
      (if byteswap then List.range p.middleOctets else (List.range' 1 (p.middleOctets - 1)).reverse) 1 val
    let first ← octetAt buf p.firstOctet
    let pos ← position byteswap k
    let val ← storeAt val pos [first &&& p.firstOctetAnd]
    return valueOf val >>> (8 - p.lastOctetBits)

/-- The loop of `uint2bits` over the middle octets, from the octet `m` on. -/
def scatterMiddle (byteswap : Bool) (val : Bytes) (middle : ℕ) : ℕ → ℕ → Bytes → Except Fault Bytes
  | 0, _, buf => .ok buf
  | octets + 1, m, buf => do
    let pos ← position byteswap (m + 1)
    let octet ← octetAt val pos
    let buf ← storeAt buf (middle + m) [octet]
    scatterMiddle byteswap val middle octets (m + 1) buf

/-- `uint2bits`. -/
def uint2bits (val : ℕ) (buf : Bytes) (bitOffset bitLength : ℕ) (byteswap : Bool) : Except Fault Bytes := do
  let p := places bitOffset bitLength
  let tmpVal := octetsOf ((val <<< (8 - p.lastOctetBits)) % 2 ^ 64)
  let last ← octetAt buf p.lastOctet
  let pos ← position byteswap 0
  let octet ← octetAt tmpVal pos
  let buf ← storeAt buf p.lastOctet [(last &&& ~~~p.lastOctetAnd) ||| octet]
  let buf ← scatterMiddle byteswap tmpVal p.middle p.middleOctets 0 buf
  let first ← octetAt buf p.firstOctet
  let pos ← position byteswap (p.middleOctets + 1)
  let octet ← octetAt tmpVal pos
  storeAt buf p.firstOctet [(first &&& ~~~p.firstOctetAnd) ||| octet]

end ChannelEmulator.BitFields
