import ChannelEmulator.Spec.Encapsulation

/-!
# Values of the Internet Protocol Extension

`lib/EncapsulationPacket.cpp`: `convertToIPE` and `unconvertIPE`.
-/

namespace ChannelEmulator.Encap

/-- `maxIntStorableInIPE`. -/
def maxIntStorableInIPE : ℕ := 0xFFFFFFFFFFFFFF

/-- `to_u64_`: the first eight octets of a buffer, most significant first. -/
def toU64 (u : Bytes) : Except Fault ℕ :=
  if u.length < 8 then .error .outOfBounds
  else .ok ((u.take 8).foldl (fun n b => n * 256 + b.toNat) 0)

/-- The loop of `convertToIPE`, from the octet before `octets` to the front. -/
def convertLoop : ℕ → ℕ → ℕ → Bytes → Except Fault Bytes
  | 0, _, _, _ => .error .outOfBounds
  | octetIndex + 1, currentOctetVal, anyNum, newIPE => do
    let newIPE ← storeAt newIPE octetIndex [.ofNat (currentOctetVal ||| ((anyNum &&& 0x7F) <<< 1))]
    if anyNum >>> 7 ≠ 0 then convertLoop octetIndex 0 (anyNum >>> 7) newIPE else .ok newIPE

/-- `convertToIPE`. -/
def convertToIPE (anyNum : ℕ) : Except Fault ℕ :=
  if maxIntStorableInIPE < anyNum then
    .error (.valueTooLarge (valueTooLargeMsg "Internet Protocol Extension" anyNum maxIntStorableInIPE))
  else do
    let newIPE ← convertLoop 8 0x1 anyNum (newUnit 8)
    toU64 newIPE

/-- The loop of `unconvertIPE`; a value of 64 bits takes eight turns at most. -/
def unconvertLoop : ℕ → ℕ → ℕ → ℕ → Except Fault ℕ
  | 0, _, _, _ => .error .diverges
  | fuel + 1, currentBits, testIPE, normalNum =>
    let normalNum := normalNum ||| (((testIPE &&& 0xFE) >>> 1) <<< currentBits)
    if testIPE >>> 8 ≠ 0 then unconvertLoop fuel (currentBits + 7) (testIPE >>> 8) normalNum
    else .ok normalNum

/-- `unconvertIPE`. -/
def unconvertIPE (testIPE : ℕ) : Except Fault ℕ :=
  if !properIPE testIPE then
    .error (.badValue (badValueMsg "Internet Protocol Extension" testIPE))
  else unconvertLoop 8 0 testIPE 0

end ChannelEmulator.Encap
