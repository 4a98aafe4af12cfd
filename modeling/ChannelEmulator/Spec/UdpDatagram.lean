import ChannelEmulator.Spec.IPv4Packet

/-!
# UDP datagrams

`lib/IPv4_UDP_Datagram.cpp` and `.hpp`: the fields of the UDP header, and its checksum.
-/

namespace ChannelEmulator.IPv4

/-- `IPv4Packet::UDP`. -/
def protocolUDP : ℕ := 17

/-- `ptrSrcPort`, as an offset. -/
def ptrSrcPort (u : Bytes) : Except Fault ℕ := getHeaderLength u

/-- `getUDPLength`. -/
def getUDPLength (u : Bytes) : Except Fault ℕ := do
  let ptr ← ptrSrcPort u
  toU16 (u.drop (ptr + 4))

/-- `getUDPChecksum`. -/
def getUDPChecksum (u : Bytes) : Except Fault ℕ := do
  let ptr ← ptrSrcPort u
  toU16 (u.drop (ptr + 6))

/-- `setUDPChecksum`. -/
def setUDPChecksum (u : Bytes) (newChecksum : ℕ) : Except Fault Bytes := do
  let ptr ← ptrSrcPort u
  storeAt u (ptr + 6) (fromU16 newChecksum)

/-- `hasUDPChecksum`. -/
def hasUDPChecksum (u : Bytes) : Except Fault Bool := do
  let checksum ← getUDPChecksum u
  return decide (0 < checksum)

/-- The loops of `computeUDPChecksum`, from the octet `idx` of the datagram on; the sum is of 32 bits.
They leave the sum and the octets they have not read. -/
def addWords (bound : ℕ) : ℕ → ℕ → Bytes → Except Fault (ℕ × Bytes)
  | idx, sum, a :: b :: rest =>
    if idx < bound then addWords bound (idx + 2) ((sum + (a.toNat * 256 + b.toNat)) % 2 ^ 32) rest
    else .ok (sum, a :: b :: rest)
  | idx, sum, rest => if idx < bound then .error .outOfBounds else .ok (sum, rest)

/-- The sum over the actual datagram, on top of that of the pseudo-header. -/
def addDatagram (u : Bytes) (sum : ℕ) : Except Fault ℕ := do
  let udpLength ← getUDPLength u
  let ptr ← ptrSrcPort u
  if u.length % 2 = 1 then do
    let (sum, rest) ← addWords ((udpLength + 2 ^ 32 - 1) % 2 ^ 32) 0 sum (u.drop ptr)
    -- as if there were one more octet, of zero
    let last ← octetAt rest 0
    return (sum + last.toNat * 256) % 2 ^ 32
  else do
    let (sum, _) ← addWords udpLength 0 sum (u.drop ptr)
    return sum

/-- The end of `computeUDPChecksum`, of the sum with the carries added up. The complement is that of 32
bits; only then is the sum cut. -/
def complementSum (sum : ℕ) : ℕ :=
  let sum := 2 ^ 32 - 1 - sum
  let sum := if sum = 0 then 0xFFFF else sum
  sum % 2 ^ 16

/-- `computeUDPChecksum`. -/
def computeUDPChecksum (u : Bytes) (protocol : ℕ) : Except Fault ℕ := do
  let src ← toU16 (u.drop 12)
  let src' ← toU16 (u.drop 14)
  let dst ← toU16 (u.drop 16)
  let dst' ← toU16 (u.drop 18)
  let udpLength ← getUDPLength u
  let sum ← addDatagram u (src + src' + dst + dst' + (protocol + udpLength))
  return complementSum (addCarries 3 sum)

/-- `hasValidUDPChecksum`. -/
def hasValidUDPChecksum (u : Bytes) : Except Fault Bool := do
  let stored ← getUDPChecksum u
  if stored = 0 then return true
  else do
    let computed ← computeUDPChecksum u protocolUDP
    return decide (computed = 0)

end ChannelEmulator.IPv4
