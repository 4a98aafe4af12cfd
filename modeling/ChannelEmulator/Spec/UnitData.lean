import ChannelEmulator.Spec.NetworkData

/-!
# The data field of a unit

`lib/NetworkData.cpp`: the change of a unit's length, and what is written into its data field;
`addFill` of `lib/AOS_Multiplexing_PDU.cpp`; the fill pattern of `modules/AOS/modAOS_M_PDU_Add.cpp`.
-/

namespace ChannelEmulator

/-- The type of a unit, by the lengths of its header and its trailer. -/
structure UnitType where
  headerLength : ℕ
  trailerLength : ℕ
deriving DecidableEq, Repr

/-- `AOS_Multiplexing_PDU`. -/
def UnitType.mpdu : UnitType := ⟨2, 0⟩

def UnitType.getDataLength (t : UnitType) (u : Bytes) : ℕ := u.length - t.headerLength - t.trailerLength

/-- `setUnitLength`, with what is in the memory behind a unit that grows. -/
def setUnitLength (behind : ℕ → Octet) (u : Bytes) (newLen : ℕ) : Bytes :=
  u.take newLen ++ (List.range' u.length (newLen - u.length)).map behind

/-- `copyUnit`, from the unit itself. `memcpy` is not defined where source and destination overlap. -/
def copyWithin (u : Bytes) (dst src len : ℕ) : Except Fault Bytes :=
  if u.length < dst + len then
    .error (.bufferOverflow "Data copy failed, supplied buffer length exceeds available capacity in unit.")
  else if src < dst + len ∧ dst < src + len then .error .overlappingCopy
  else .ok (overwrite u dst ((u.drop src).take len))

/-- A result, where an error comes with the unit that it leaves. -/
abbrev Leaving (α : Type) := Except (Fault × Bytes) α

/-- An error leaves the unit as it is. -/
def leaving {α : Type} (u : Bytes) (r : Except Fault α) : Leaving α := r.mapError fun fault => (fault, u)

/-- `setData`: the relocation of the trailer, if there is one. -/
def relocateTrailer (u : Bytes) (dst ptrTrailer trailerLength : ℕ) : Leaving Bytes :=
  if trailerLength = 0 then .ok u else leaving u (copyWithin u dst ptrTrailer trailerLength)

/-- `setData`. -/
def setData (t : UnitType) (behind : ℕ → Octet) (u data : Bytes) (allowResize : Bool) : Leaving Bytes :=
  let dataLength := t.getDataLength u
  if data.length ≤ dataLength then leaving u (copyUnit u t.headerLength data)
  else if allowResize then do
    let deltaLength := data.length - dataLength
    let trailerLength := u.length - (t.headerLength + dataLength)
    let grown := setUnitLength behind u (u.length + deltaLength)
    let ptrTrailer := t.headerLength + data.length - deltaLength
    let moved ← relocateTrailer grown (t.headerLength + data.length) ptrTrailer trailerLength
    leaving moved (copyUnit moved t.headerLength data)
  else .error (.bufferOverflow (bufferOverflowMsg "Data Field" data.length dataLength), u)

/-! ## Filling -/

/-- The loop of `setDataToPattern` and of `addFill`, from `i` on. An empty pattern never ends it. -/
def fillLoop (copy : Bytes → ℕ → Bytes → Except Fault Bytes) (pattern : Bytes) (dst fillCount : ℕ) :
    ℕ → ℕ → Bytes → Except Fault Bytes
  | fuel, i, u =>
    if i < fillCount then
      match fuel with
      | 0 => .error .diverges
      | fuel + 1 => do
        let u ← copy u (dst + i) (pattern.take (fillCount - i))
        fillLoop copy pattern dst fillCount fuel (i + pattern.length) u
    else .ok u

/-- `setDataToPattern`. -/
def setDataToPattern (t : UnitType) (u pattern : Bytes) (offset : ℕ) : Except Fault Bytes :=
  let fillCount := sizeDiff (t.getDataLength u) offset
  fillLoop copyUnit pattern (t.headerLength + offset) fillCount fillCount 0 u

/-- `AOS_Multiplexing_PDU::addFill`, which copies without the check of `copyUnit`. -/
def addFill (u pattern : Bytes) (fillIdx : ℕ) : Except Fault Bytes :=
  let fillCount := sizeDiff (UnitType.mpdu.getDataLength u) fillIdx
  fillLoop storeAt pattern (UnitType.mpdu.headerLength + fillIdx) fillCount fillCount 0 u

/-! ## The fill pattern -/

/-- `_fillPattern` of a module, with its setting and its lock. -/
structure FillPattern where
  fillPattern : Bytes
  fillPatternSetting : List Octet
  locked : Bool
deriving DecidableEq, Repr

namespace FillPattern

/-- The part of the constructor. -/
def new (saved : List Octet) : FillPattern :=
  if saved = [] then ⟨[0xE0], [0xE0], false⟩ else ⟨saved, saved, false⟩

/-- `setFillPattern(const NetworkData*)`. The destination of the copy is the null pointer, which is below
any unit. -/
def setFromUnit (behind : ℕ → Octet) (s : FillPattern) (fill : Bytes) : Except (Fault × FillPattern) FillPattern :=
  if s.locked then .error (.diverges, s)
  else
    .error (.bufferOverflow "Data copy failed, destination is below unit range.",
      { s with fillPattern := setUnitLength behind s.fillPattern fill.length, locked := true })

/-- The loop of `setFillPattern(const std::vector<uint8_t>&)`, from `i` on. -/
def storeFill : Bytes → ℕ → Bytes → List Octet → Except Fault (Bytes × List Octet)
  | [], _, u, setting => .ok (u, setting)
  | b :: fill, i, u, setting => do
    let setting := if setting.length < i + 1 then setting ++ [b] else setting.set i b
    let u ← storeAt u i [b]
    storeFill fill (i + 1) u setting

/-- `setFillPattern(const std::vector<uint8_t>&)`. -/
def setFromVector (behind : ℕ → Octet) (s : FillPattern) (fill : Bytes) :
    Except (Fault × FillPattern) FillPattern := do
  let resized := setUnitLength behind s.fillPattern fill.length
  let (fillPattern, setting) ← (storeFill fill 0 resized s.fillPatternSetting).mapError fun fault => (fault, s)
  return { fillPattern, fillPatternSetting := setting.take fill.length, locked := false }

/-- The two functions `setFillPattern`. -/
inductive Overload
  | unit
  | vector
deriving DecidableEq, Repr

def setFillPattern : Overload → (ℕ → Octet) → FillPattern → Bytes → Except (Fault × FillPattern) FillPattern
  | .unit => setFromUnit
  | .vector => setFromVector

def getFillPattern (s : FillPattern) : Bytes := s.fillPattern

end FillPattern

end ChannelEmulator
