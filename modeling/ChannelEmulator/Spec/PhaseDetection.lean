import ChannelEmulator.Spec.PhaseAmbiguity

/-!
# Detection of the phase

`modules/ECC/modResolvePhaseAmbiguity.cpp`: the table of the shifted and inverted markers, and the search
for them in a block.
-/

namespace ChannelEmulator.PhaseAmbiguity

/-- A marker that is not empty. Its length is an `int`. -/
structure Marker where
  octets : Bytes
  ne_nil : octets ≠ []
  length_lt : octets.length < 2147483648
deriving DecidableEq

namespace Detect

/-- What the detection works with. -/
structure Detector where
  setting : Setting
  marker : Marker
  allowedMarkerBitErrors : ℕ
deriving DecidableEq

/-- The inner loop of `_updateMarkerTable`: the octets of a row that is not inverted. -/
def shiftMarker (leftShiftBits : ℕ) : Bytes → Bytes
  | [] => []
  | [a] => [if leftShiftBits = 0 then a else shl a leftShiftBits]
  | a :: b :: rest =>
    (if leftShiftBits = 0 then a else shl a leftShiftBits ||| shr b (8 - leftShiftBits)) ::
      shiftMarker leftShiftBits (b :: rest)

/-- `_updateMarkerTable`: eight rows, and the same ones inverted. -/
def markerTable (marker : Bytes) : List Bytes :=
  let rows := (List.range 8).map fun leftShiftBits => shiftMarker leftShiftBits marker
  rows ++ rows.map fun row => row.map fun b => ~~~b

/-- `std::bitset<8>::count`. -/
def countBits (b : Octet) : ℕ := ((List.range 8).filter fun i => b.toNat.testBit i).length

/-- The loop of `_inTableAt` over all octets of the row but the last one: the bit errors, if they are not
too many. -/
def compareOctets (allowed : ℕ) (row buffer : Bytes) (start : ℕ) :
    ℕ → ℕ → ℕ → Except Fault (Option ℕ)
  | 0, _, currentBitErrors => .ok (some currentBitErrors)
  | count + 1, offset, currentBitErrors => do
    let expected ← octetAt row offset
    let octet ← octetAt buffer (start + offset)
    let currentBitErrors' := currentBitErrors + countBits (octet ^^^ expected)
    if expected ≠ octet ∧ allowed = 0 then return none
    else if allowed < currentBitErrors' then return none
    else compareOctets allowed row buffer start count (offset + 1) currentBitErrors'

/-- `_inTableAt`, of the octets of a buffer from `start` on. -/
def inTableAt (d : Detector) (buffer : Bytes) (start : ℕ) (c : Setting) : Except Fault Bool := do
  let row := (markerTable d.marker.octets).getD (if c.invert then c.leftShiftBits + 8 else c.leftShiftBits) []
  let last := d.marker.octets.length - 1
  let finalOctetMask := shl 0xff c.leftShiftBits
  match ← compareOctets d.allowedMarkerBitErrors row buffer start last 0 0 with
  | none => return false
  | some currentBitErrors => do
    let expected ← octetAt row last
    let octet ← octetAt buffer (start + last)
    if d.allowedMarkerBitErrors = 0 then return decide (expected &&& finalOctetMask = octet &&& finalOctetMask)
    else
      let testOctet := (octet &&& finalOctetMask) ^^^ (expected &&& finalOctetMask)
      return decide (currentBitErrors + countBits testOctet ≤ d.allowedMarkerBitErrors)

/-- The settings, in the order of the loops over both. -/
def settings : List Setting :=
  (List.finRange 8).flatMap fun n : Fin 8 =>
    [⟨n, false, Nat.le_of_lt_succ n.isLt⟩, ⟨n, true, Nat.le_of_lt_succ n.isLt⟩]

/-- The loops of `_findInTable`. -/
def firstInTable (d : Detector) (buffer : Bytes) (start : ℕ) : List Setting → Except Fault (Option Setting)
  | [] => .ok none
  | c :: cs => do
    if ← inTableAt d buffer start c then return some c
    else firstInTable d buffer start cs

/-- `_findInTable`. The present setting is tried first. -/
def findInTable (d : Detector) (buffer : Bytes) (start : ℕ) : Except Fault (Option Setting) :=
  firstInTable d buffer start (d.setting :: settings)

/-- The loop of `_findShift` over the offsets. -/
def countShifts (d : Detector) (data : Bytes) : ℕ → ℕ → (Setting → ℕ) → Except Fault (Setting → ℕ)
  | 0, _, counters => .ok counters
  | count + 1, offset, counters => do
    match ← findInTable d data offset with
    | none => countShifts d data count (offset + 1) counters
    | some found =>
      countShifts d data count (offset + 1) fun c => if c = found then counters c + 1 else counters c

/-- The vote of `_findShift`. -/
def mostCounted (counters : Setting → ℕ) : Setting :=
  settings.foldl (fun most c => if counters most < counters c then c else most) ⟨0, false, by omega⟩

/-- The number of passes of the loop over the offsets. The difference is unsigned. -/
def offsets (unitLength markerLen : ℕ) : ℕ :=
  if markerLen ≤ unitLength then unitLength - markerLen else 18446744073709551616 - (markerLen - unitLength)

/-- `_findShift`. `foundSomething` is set where a counter is. -/
def findShift (d : Detector) (data : Bytes) : Except Fault Detector := do
  let counters ← countShifts d data (offsets data.length d.marker.octets.length) 0 fun _ => 0
  if settings.any fun c => 0 < counters c then return { d with setting := mostCounted counters }
  else return d

end Detect

end ChannelEmulator.PhaseAmbiguity
