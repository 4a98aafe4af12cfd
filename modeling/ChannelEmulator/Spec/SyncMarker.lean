import ChannelEmulator.Framing.Run
import ChannelEmulator.Spec.NetworkData

/-!
# Attached sync markers

`modules/CCSDS/modASM_Add.cpp` and `modASM_Remove.cpp`, with the output connected. The
locals of a `svc` that live across its loop are fields of the module's record.
-/

namespace ChannelEmulator.ASM

/-- `modASM_Add`. -/
structure Add where
  marker : Bytes
  rebuildMarker : Bool := true
  asmCount : ℕ := 0
  /-- The local buffer of `svc`. -/
  markerBuf : Bytes := []
deriving DecidableEq, Repr

namespace Add

/-- `setMarker`. -/
def setMarker (s : Add) (newMarker : Bytes) : Add :=
  { s with marker := newMarker, rebuildMarker := true }

/-- `_updateMarker`. -/
def updateMarker (s : Add) : Add :=
  if s.rebuildMarker then { s with markerBuf := s.marker, rebuildMarker := false } else s

/-- One turn of `svc`. -/
def svc (s : Add) (data : Bytes) : Except Fault (Add × List Bytes) :=
  if data.length = 0 then .ok (s, [])
  else
    let s := s.updateMarker
    let markerLen := s.markerBuf.length
    if markerLen = 0 then .ok (s, [data])
    else do
      let newData ← copyUnit (newUnit (data.length + markerLen)) 0 s.markerBuf
      let newData ← copyUnit newData markerLen data
      return ({ s with asmCount := s.asmCount + 1 }, [newData])

end Add

/-- The bits in which two octets differ: `std::bitset<8>(a ^ b).count()`. -/
def bitErrors (a b : Octet) : ℕ :=
  ((List.range 8).filter fun i => (a ^^^ b).toNat.testBit i).length

/-- `modASM_Remove`. -/
structure Remove where
  marker : Bytes
  expectedUnitLength : ℕ := 256
  allowedMarkerBitErrors : ℤ := 0
  rebuildMarker : Bool := true
  currentBitErrors : ℕ := 0
  asmCount : ℕ := 0
  asmValidCount : ℕ := 0
  asmMissedCount : ℕ := 0
  asmSearchCount : ℕ := 0
  asmDiscoveredCount : ℕ := 0
  asmBitErrorsAllowed : ℕ := 0
  asmBitErrorsRejected : ℕ := 0
  asmAllowedWithBitErrorsCount : ℕ := 0
  asmRejectedWithBitErrorsCount : ℕ := 0
  asmPartialMismatch : ℕ := 0
  /-- The locals of `svc`. -/
  markerBuf : Bytes := []
  goodUnit : Option Bytes := none
  goodUnitLength : ℕ := 0
  markerOffset : ℕ := 0
  searching : Bool := false
deriving DecidableEq, Repr

namespace Remove

/-- `setMarker`: unlike that of `modASM_Add`, it does not ask for a new buffer. -/
def setMarker (s : Remove) (newMarker : Bytes) : Remove := { s with marker := newMarker }

/-- `_updateMarker`. -/
def updateMarker (s : Remove) : Remove :=
  if s.rebuildMarker then { s with markerBuf := s.marker, rebuildMarker := false } else s

/-- The octet loop of `_markerMatch`: the errors counted when it ends, and whether it ran
to the end. -/
def countBitErrors (allowed : ℤ) : ℕ → List (Octet × Octet) → ℕ × Bool
  | current, [] => (current, true)
  | current, (u, m) :: rest =>
    let current := current + bitErrors u m
    if (current : ℤ) > allowed then (current, false) else countBitErrors allowed current rest

/-- `_markerMatch`. The counters take their increment as a 16-bit value. -/
def markerMatch (s : Remove) (unitBuf markerBuf : Bytes) : Remove × Bool :=
  if (s.currentBitErrors : ℤ) > s.allowedMarkerBitErrors then (s, false)
  else if unitBuf = markerBuf then (s, true)
  else if s.allowedMarkerBitErrors = 0 then (s, false)
  else
    match countBitErrors s.allowedMarkerBitErrors s.currentBitErrors (unitBuf.zip markerBuf) with
    | (current, false) =>
      ({ s with
          currentBitErrors := current
          asmBitErrorsRejected := s.asmBitErrorsRejected + current % 2 ^ 16
          asmRejectedWithBitErrorsCount := s.asmRejectedWithBitErrorsCount + 1 }, false)
    | (current, true) =>
      ({ s with
          currentBitErrors := current
          asmBitErrorsAllowed := s.asmBitErrorsAllowed + current % 2 ^ 16
          asmAllowedWithBitErrorsCount := s.asmAllowedWithBitErrorsCount + 1 }, true)

/-- `wrapInnerPDU<NetworkData>(pduSize, ptrUnit() + offset)`: a size of zero stands for
the whole data length, whatever the offset. -/
def wrapInnerPDU (data : Bytes) (pduSize offset : ℕ) : Except Fault Bytes :=
  let pduSize := if pduSize = 0 then data.length else pduSize
  if offset + pduSize ≤ data.length then .ok ((data.drop offset).take pduSize)
  else .error .outOfBounds

/-- The branch that found a whole marker, of which the data holds `partialMarkerLen` octets. -/
def foundASM (s : Remove) (data : Bytes) (partialMarkerLen : ℕ) :
    Except Fault (Remove × List Bytes × ℕ) :=
  let s := { s with
    asmCount := s.asmCount + 1
    asmDiscoveredCount := if s.searching then s.asmDiscoveredCount + 1 else s.asmDiscoveredCount
    asmValidCount := if s.searching then s.asmValidCount else s.asmValidCount + 1
    searching := false
    markerOffset := 0
    currentBitErrors := 0 }
  if data.length - partialMarkerLen ≥ s.expectedUnitLength then do
    let goodUnit ← wrapInnerPDU data s.expectedUnitLength partialMarkerLen
    return (s, [goodUnit], partialMarkerLen + s.expectedUnitLength)
  else do
    let goodUnitLength := data.length - partialMarkerLen
    let goodUnit ← copyUnit (newUnit s.expectedUnitLength) 0 (data.drop partialMarkerLen)
    return ({ s with goodUnit := some goodUnit, goodUnitLength := goodUnitLength }, [],
      partialMarkerLen + goodUnitLength)

/-- The branch that missed a whole marker. -/
def missedASM (s : Remove) : Remove :=
  { s with
    asmMissedCount := if s.searching then s.asmMissedCount else s.asmMissedCount + 1
    searching := true
    asmSearchCount := s.asmSearchCount + 1
    markerOffset := 0
    currentBitErrors := 0 }

/-- The branch that missed the part of a marker the data has room for. -/
def missedPartial (s : Remove) : Remove :=
  { s with
    asmPartialMismatch := s.asmPartialMismatch + 1
    markerOffset := 0
    currentBitErrors := 0 }

/-- No unit to continue, need to find next ASM. -/
def findASM (s : Remove) (data : Bytes) : Except Fault (Remove × List Bytes × ℕ) :=
  let partialMarkerLen := s.markerBuf.length - s.markerOffset
  let ptrMarkerBuf := s.markerBuf.drop s.markerOffset
  if data.length < partialMarkerLen then
    match s.markerMatch data (ptrMarkerBuf.take data.length) with
    | (s, true) =>
      .ok ({ s with markerOffset := s.markerOffset + data.length }, [], data.length)
    | (s, false) => .ok (s.missedPartial, [], data.length)
  else
    match s.markerMatch (data.take partialMarkerLen) (ptrMarkerBuf.take partialMarkerLen) with
    | (s, true) => s.foundASM data partialMarkerLen
    | (s, false) => .ok (s.missedASM, [], 1)

/-- Continuing previous unit, don't look for ASM. -/
def continueUnit (s : Remove) (goodUnit data : Bytes) : Except Fault (Remove × List Bytes × ℕ) :=
  let remainingLen := s.expectedUnitLength - s.goodUnitLength
  if data.length ≥ remainingLen then do
    let goodUnit ← copyUnit goodUnit s.goodUnitLength (data.take remainingLen)
    return ({ s with goodUnit := none }, [goodUnit], remainingLen)
  else do
    let goodUnit ← copyUnit goodUnit s.goodUnitLength data
    return ({ s with
      goodUnit := some goodUnit
      goodUnitLength := s.goodUnitLength + data.length }, [], data.length)

/-- One pass of the inner loop: the state, the units sent, and `advanceLen`. -/
def pass (s : Remove) (data : Bytes) : Except Fault (Remove × List Bytes × ℕ) :=
  match s.goodUnit with
  | none => s.findASM data
  | some goodUnit => s.continueUnit goodUnit data

/-- `while ( data->getUnitLength() )`. -/
def loop : ℕ → Remove → Bytes → Except Fault (Remove × List Bytes)
  | 0, s, data => if data = [] then .ok (s, []) else .error .diverges
  | fuel + 1, s, data =>
    if data = [] then .ok (s, [])
    else do
      let (s, sent, advanceLen) ← s.pass data
      let (s, sent') ← loop fuel s (data.drop advanceLen)
      return (s, sent ++ sent')

/-- One turn of `svc`. A pass that does not advance never ends the loop, so as many
passes as there are octets are enough. -/
def svc (s : Remove) (data : Bytes) : Except Fault (Remove × List Bytes) :=
  loop data.length s.updateMarker data

/-- The module when its `svc` starts. -/
def start (marker : Bytes) (expectedUnitLength : ℕ) (allowedMarkerBitErrors : ℤ) : Remove :=
  { marker, expectedUnitLength, allowedMarkerBitErrors }

end Remove

/-- The module when its `svc` starts. -/
def Add.start (marker : Bytes) : Add := { marker }

/-! ## Both ends -/

/-- The two modules, the output of `modASM_Add` connected to `modASM_Remove`. -/
structure Ends where
  add : Add
  remove : Remove
deriving DecidableEq, Repr

namespace Ends

/-- Both ends when their `svc` start with one marker. -/
def start (marker : Bytes) (expectedUnitLength : ℕ) (allowedMarkerBitErrors : ℤ) : Ends :=
  ⟨Add.start marker, Remove.start marker expectedUnitLength allowedMarkerBitErrors⟩

/-- `setMarker` on both ends. -/
def setMarker (e : Ends) (newMarker : Bytes) : Ends :=
  ⟨e.add.setMarker newMarker, e.remove.setMarker newMarker⟩

/-- Some changes of the marker, and then a unit: what is sent of it comes out of
`modASM_Remove`. -/
def pass (e : Ends) (p : List Bytes × Bytes) : Except Fault (Ends × List Bytes) := do
  let e := p.1.foldl setMarker e
  let (add, sent) ← e.add.svc p.2
  let (remove, out) ← Framing.runAll Remove.svc e.remove sent
  return (⟨add, remove⟩, out)

end Ends

end ChannelEmulator.ASM
