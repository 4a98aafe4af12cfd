import ChannelEmulator.Spec.NetworkData

/-!
# Encapsulation packets

`lib/EncapsulationPacket.cpp`: what the multiplexing services read of a packet.
-/

namespace ChannelEmulator.Encap

/-- `getHeaderOctets` of a value whose low two bits are the Length of Length. -/
def getHeaderOctets (lengthOfLength : Octet) : ℕ :=
  match lengthOfLength.toNat % 4 with
  | 0 => 1
  | 1 => 2
  | 2 => 4
  | _ => 8

/-- `EncapsulationPacketBase::minBytesToDetermineLength`. -/
def minBytesToDetermineLength (firstOctet : Octet) : ℕ := getHeaderOctets firstOctet

/-- `isFill(firstOctet)`. -/
def isFill (firstOctet : Octet) : Bool := firstOctet = 0xE0

/-- `getPacketLength`. -/
def getPacketLength (u : Bytes) : Except Fault ℕ := do
  let first ← octetAt u 0
  match first.toNat % 4 with
  | 0 => .error (.missingField (missingFieldMsg "Encapsulation Packet" "Packet Length"))
  | 1 => do
    let b ← octetAt u 1
    return b.toNat
  | 2 => toU16 (u.drop 2)
  | _ => toU32 (u.drop 4)

/-- `expectedLength`. -/
def expectedLength (u : Bytes) : Except Fault ℕ := getPacketLength u

/-- A packet with length of length 2 or 3 whose Packet Length field equals its length. -/
def WellFormed (p : Bytes) : Prop :=
  ∃ first rest, p = first :: rest ∧ 2 ≤ first.toNat % 4 ∧
    minBytesToDetermineLength first ≤ p.length ∧ expectedLength p = .ok p.length

end ChannelEmulator.Encap
