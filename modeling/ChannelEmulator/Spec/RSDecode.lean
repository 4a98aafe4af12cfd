import ChannelEmulator.Spec.ReedSolomon

/-!
# The decoder module

`modRSDecode` of `modules/ECC/modRSDecode.cpp`: its loop over the units that are received, with the counters. The
decoder is built again for the settings before they take effect.
-/

namespace ChannelEmulator.RSDecode

open ReedSolomon

/-- The attributes of the code, with those that are set. -/
def params (maxErrorsPerCodeword interleavingDepth : ℕ) : RSParams where
  primitivePoly := 0x187
  parityLength := maxErrorsPerCodeword * 2
  codeLength := 255
  bitsPerSymbol := 8
  primitiveRootIdx := 11
  firstConsecutiveRoot := if maxErrorsPerCodeword = 8 then 120 else 112
  interleaveDepth := interleavingDepth
  doBasisTransform := true

/-- `rebuildDecoder`. -/
def rebuildDecoder (maxErrorsPerCodeword interleavingDepth : ℕ) : Except Fault RSBase :=
  if maxErrorsPerCodeword ≠ 8 ∧ maxErrorsPerCodeword ≠ 16 then
    .error (.badValue (badValueMsg "Max errors per codeword" maxErrorsPerCodeword))
  else RSBase.new (params maxErrorsPerCodeword interleavingDepth)

/-- The counters. -/
structure Counters where
  correctedErrorCount : ℕ := 0
  uncorrectedErrorCount : ℕ := 0
  errorlessUnitCount : ℕ := 0
  correctedUnitCount : ℕ := 0
  uncorrectedUnitCount : ℕ := 0
deriving DecidableEq, Repr

/-- An addition to a `uint64_t`. -/
def addCount (count n : ℕ) : ℕ := (count + n) % 18446744073709551616

namespace Counters

/-- The counters behind a unit that was decoded, with a number of errors. -/
def decoded (s : Counters) (errs : ℕ) : Counters :=
  if errs = 0 then
    { s with
      errorlessUnitCount := addCount s.errorlessUnitCount 1
      correctedErrorCount := addCount s.correctedErrorCount errs }
  else
    { s with
      correctedUnitCount := addCount s.correctedUnitCount 1
      correctedErrorCount := addCount s.correctedErrorCount errs }

/-- The counters behind a unit with too many errors. -/
def uncorrected (s : Counters) (errors : ℕ) : Counters :=
  { s with
    uncorrectedUnitCount := addCount s.uncorrectedUnitCount 1
    uncorrectedErrorCount := addCount s.uncorrectedErrorCount errors }

end Counters

/-- A unit that is received, and whether `links_[PrimaryOutputLink]` is set then. -/
structure Received where
  data : Bytes
  linked : Bool
deriving DecidableEq, Repr

/-- The ends of the `try` block around `decode`, with what is sent. -/
def Counters.after (s : Counters) : Except Fault (SymVec × ℕ) → Except Fault (Counters × Option Bytes)
  | .ok (corrected, errs) => .ok (s.decoded errs, some corrected)
  | .error (.tooManyErrors _ errors) => .ok (s.uncorrected errors, none)
  | .error (.logicError _) => .ok (s, none)
  -- where the virtual fill is longer than the message, `assign` throws a `std::length_error`, a `logic_error`
  | .error .outOfBounds => .ok (s, none)
  | .error e => .error e

/-- One turn of the loop of `svc`, with what it sends. -/
def handle (rs : RSBase) (u : Received) (s : Counters) : Except Fault (Counters × Option Bytes) :=
  if u.linked then
    if rs.codeLength * rs.interleaveDepth < u.data.length then .ok (s, none) else s.after (rs.decode u.data)
  else .ok (s, none)

/-- The loop of `svc`. -/
def svc (rs : RSBase) : List Received → Counters → Except Fault (Counters × List Bytes)
  | [], s => .ok (s, [])
  | u :: units, s => do
    let (s, sent) ← handle rs u s
    let (s, rest) ← svc rs units s
    return (s, sent.toList ++ rest)

end ChannelEmulator.RSDecode
