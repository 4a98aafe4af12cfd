import Mathlib.Data.List.Basic
import Mathlib.Data.Nat.Bitwise
import Mathlib.Tactic.Common

/-!
# Network data units

`lib/NetworkData.cpp`. A unit is the octets between its read and write pointers;
a **chain** is a head unit with the parts hung on its continuation field. The
functions of the source that can throw return `Except Fault`. A read or write
outside a buffer, which the source leaves undefined, is a `Fault` of its own.
-/

namespace ChannelEmulator

abbrev Octet := UInt8
abbrev Bytes := List UInt8

/-- The exceptions of the source, and the ways a run goes wrong without one. -/
inductive Fault
  | bufferOverflow (msg : String)
  | logicError (msg : String)
  | missingField (msg : String)
  | valueTooLarge (msg : String)
  | valueTooSmall (msg : String)
  | valueOutOfRange (msg : String)
  | malformedPayload (msg : String)
  | badValue (msg : String)
  | tooManyErrors (msg : String) (errors : ℕ)
  | ndError (msg : String)
  | circularConnection (msg : String)
  | noAuxiliaryQueue (msg : String)
  | redundantInitialization (msg : String)
  | runtimeError (msg : String)
  | outOfBounds
  | overlappingCopy
  | divisionByZero
  | useAfterFree
  | doubleFree
  | nullPointer
  | diverges
deriving DecidableEq, Repr

/-- The faults that are exceptions of the source. -/
def Fault.isThrown : Fault → Bool
  | .outOfBounds | .overlappingCopy | .divisionByZero | .useAfterFree | .doubleFree | .nullPointer | .diverges => false
  | _ => true

/-- `nd_error::article`: the position of the first vowel is used as a truth value,
so a word that starts with a vowel gets `a`. -/
def article (s : String) : String :=
  if s.toList.findIdx? (· ∈ "aeiouAEIOU".toList) = some 0 then "a " else "an "

/-- `MissingField::msg`. -/
def missingFieldMsg (dataType field : String) : String :=
  "Access to the " ++ field ++ " field attempted in " ++ article dataType ++ dataType ++
    " initialized without one."

/-- `ValueTooLarge::msg`. -/
def valueTooLargeMsg (field : String) (given limit : ℕ) : String :=
  field ++ " specified as " ++ toString given ++ "; limit is " ++ toString limit ++ "."

/-- `ValueOutOfRange::msg`. -/
def valueOutOfRangeMsg (field : String) (given lower upper : ℕ) : String :=
  field ++ " specified as " ++ toString given ++ "; allowed range is " ++ toString lower ++ " - " ++
    toString upper ++ "."

/-- `RedundantInitialization::msg`. -/
def redundantInitializationMsg (typeStr : String) : String :=
  "Attempt to re-initialize " ++ article typeStr ++ typeStr ++ " was not allowed."

/-- `BufferOverflow::msg`. -/
def bufferOverflowMsg (field : String) (given limit : ℕ) : String :=
  "Source buffer of length " ++ toString given ++ " cannot fit into target buffer (" ++ field ++
    ") of length " ++ toString limit ++ "."

/-- `BadValue::msg`, of a number. -/
def badValueMsg (field : String) (given : ℕ) : String :=
  field ++ " specified as 0x" ++ String.ofList (Nat.toDigits 16 given) ++
    ", which is not an allowed value."

/-- `to_u16_`: the first two octets of a buffer, most significant first. -/
def toU16 : Bytes → Except Fault ℕ
  | a :: b :: _ => .ok (a.toNat * 256 + b.toNat)
  | _ => .error .outOfBounds

/-- `to_u32_`: the first four octets of a buffer, most significant first. -/
def toU32 : Bytes → Except Fault ℕ
  | a :: b :: c :: d :: _ =>
    .ok (((a.toNat * 256 + b.toNat) * 256 + c.toNat) * 256 + d.toNat)
  | _ => .error .outOfBounds

/-- `from_u16_`: the octets it stores for the low 16 bits of `val`. -/
def fromU16 (val : ℕ) : Bytes := [UInt8.ofNat (val / 256), UInt8.ofNat val]

/-- `from_u32_`: the octets it stores for the low 32 bits of `val`. -/
def fromU32 (val : ℕ) : Bytes :=
  [UInt8.ofNat (val / 2 ^ 24), UInt8.ofNat (val / 2 ^ 16), UInt8.ofNat (val / 2 ^ 8), UInt8.ofNat val]

/-- Reading one octet through a pointer. -/
def octetAt (u : Bytes) (i : ℕ) : Except Fault Octet :=
  match u[i]? with
  | some b => .ok b
  | none => .error .outOfBounds

/-- `memcpy` of `src` to offset `dst` of `u`, where it fits. -/
def overwrite (u : Bytes) (dst : ℕ) (src : Bytes) : Bytes :=
  u.take dst ++ src ++ u.drop (dst + src.length)

/-- Writing octets through a pointer. -/
def storeAt (u : Bytes) (i : ℕ) (octets : Bytes) : Except Fault Bytes :=
  if u.length < i + octets.length then .error .outOfBounds else .ok (overwrite u i octets)

/-- `buf[i] |= s`. -/
def orAt (buf : Bytes) (i : ℕ) (s : Octet) : Except Fault Bytes := do
  let old ← octetAt buf i
  return buf.set i (old ||| s)

/-- `NetworkData::copyUnit(ptrUnit() + dst, src, src.length)`. -/
def copyUnit (u : Bytes) (dst : ℕ) (src : Bytes) : Except Fault Bytes :=
  if u.length < dst + src.length then
    .error (.bufferOverflow
      "Data copy failed, supplied buffer length exceeds available capacity in unit.")
  else .ok (overwrite u dst src)

/-- Reading one octet through a pointer that may be below the unit. -/
def octetAtPtr (u : Bytes) (ptr : ℤ) : Except Fault Octet :=
  if ptr < 0 then .error .outOfBounds else octetAt u ptr.toNat

/-- Writing octets through such a pointer. -/
def storeAtPtr (u : Bytes) (ptr : ℤ) (octets : Bytes) : Except Fault Bytes :=
  if ptr < 0 then .error .outOfBounds else storeAt u ptr.toNat octets

/-- `NetworkData::copyUnit` to such a pointer. -/
def copyUnitTo (u : Bytes) (ptr : ℤ) (src : Bytes) : Except Fault Bytes :=
  if ptr < 0 then .error (.bufferOverflow "Data copy failed, destination is below unit range.")
  else copyUnit u ptr.toNat src

/-- A difference of `size_t`. -/
def sizeDiff (a b : ℕ) : ℕ := if b ≤ a then a - b else 18446744073709551616 - (b - a)

/-- `new NetworkData(len)`: a zeroed unit. -/
def newUnit (len : ℕ) : Bytes := List.replicate len 0

/-- A head unit and its continuation parts. -/
structure Chain where
  head : Bytes
  parts : List Bytes
deriving DecidableEq, Repr

namespace Chain

/-- `getTotalUnitLength`. -/
def totalLength (c : Chain) : ℕ := c.head.length + c.parts.flatten.length

/-- `append`: extends the head. -/
def append (c : Chain) (b : Bytes) : Chain := { c with head := c.head ++ b }

/-- `tail()->setNextPart(part)`. -/
def addPart (c : Chain) (b : Bytes) : Chain := { c with parts := c.parts ++ [b] }

/-- `flatten`: the one unit the parts are merged into. -/
def flatten (c : Chain) : Bytes := c.head ++ c.parts.flatten

/-- `NetworkData::hasAllParts`. The static `minBytesToDetermineLength` it calls is
that of `NetworkData` (four octets) whatever the packet type; `expectedLength` is
virtual. -/
def hasAllParts (expectedLength : Bytes → Except Fault ℕ) (c : Chain) : Except Fault Bool :=
  if c.head.length < 4 then
    .error (.logicError "hasAllParts(): Not enough data in head to determine expected size.")
  else do
    let n ← expectedLength c.head
    return c.totalLength == n

@[simp] theorem flatten_append (c : Chain) (b : Bytes) (h : c.parts = []) :
    (c.append b).flatten = c.flatten ++ b := by simp [append, flatten, h]

@[simp] theorem flatten_addPart (c : Chain) (b : Bytes) :
    (c.addPart b).flatten = c.flatten ++ b := by simp [addPart, flatten]

theorem totalLength_eq (c : Chain) : c.totalLength = c.flatten.length := by
  simp [totalLength, flatten]

end Chain

@[simp] theorem newUnit_length (n : ℕ) : (newUnit n).length = n := by simp [newUnit]

theorem newUnit_add (m n : ℕ) : newUnit (m + n) = newUnit m ++ newUnit n := List.replicate_add m n 0

/-- A copy that fits does not throw. -/
theorem copyUnit_ok {u : Bytes} {dst : ℕ} {src : Bytes} (h : dst + src.length ≤ u.length) :
    copyUnit u dst src = .ok (overwrite u dst src) := by
  rw [copyUnit, if_neg (by omega)]

/-! A pointer that is not below the unit is an offset. -/

@[simp] theorem octetAtPtr_natCast (u : Bytes) (i : ℕ) : octetAtPtr u i = octetAt u i :=
  if_neg (Int.not_lt.2 (Int.natCast_nonneg i))

@[simp] theorem storeAtPtr_natCast (u : Bytes) (i : ℕ) (octets : Bytes) : storeAtPtr u i octets = storeAt u i octets :=
  if_neg (Int.not_lt.2 (Int.natCast_nonneg i))

@[simp] theorem copyUnitTo_natCast (u : Bytes) (i : ℕ) (src : Bytes) : copyUnitTo u i src = copyUnit u i src :=
  if_neg (Int.not_lt.2 (Int.natCast_nonneg i))

theorem overwrite_length {u : Bytes} {dst : ℕ} {src : Bytes} (h : dst + src.length ≤ u.length) :
    (overwrite u dst src).length = u.length := by
  simp [overwrite]; omega

/-- The octets before and behind what is written stay. -/
theorem getElem?_overwrite {u : Bytes} {dst i : ℕ} {src : Bytes} (hfit : dst + src.length ≤ u.length)
    (hi : i < dst ∨ dst + src.length ≤ i) : (overwrite u dst src)[i]? = u[i]? := by
  have htake : (u.take dst).length = dst := by rw [List.length_take]; omega
  unfold overwrite
  rcases hi with hlt | hge
  · rw [List.append_assoc, List.getElem?_append_left (by omega), List.getElem?_take_of_lt hlt]
  · rw [List.getElem?_append_right (by rw [List.length_append]; omega), List.length_append, htake,
      List.getElem?_drop]
    congr 1
    omega

/-- Sixteen bits are read back as they were written. -/
theorem toU16_fromU16 (t : Bytes) {v : ℕ} (hv : v < 2 ^ 16) : toU16 (fromU16 v ++ t) = .ok v := by
  have h₁ : (UInt8.ofNat (v / 256)).toNat = v / 256 := by
    rw [UInt8.toNat_ofNat', Nat.mod_eq_of_lt (by omega)]
  have h₂ : (UInt8.ofNat v).toNat = v % 256 := UInt8.toNat_ofNat'
  simp only [fromU16, toU16, List.cons_append, List.nil_append, h₁, h₂]
  congr 1
  omega

/-- The first octet of a unit that starts with sixteen bits. -/
theorem octetAt_fromU16 (t : Bytes) (v : ℕ) :
    octetAt (fromU16 v ++ t) 0 = .ok (UInt8.ofNat (v / 256)) := rfl

/-- Writing where the written part of a unit ends. -/
theorem overwrite_zeros (pre src : Bytes) {n : ℕ} :
    overwrite (pre ++ newUnit n) pre.length src = pre ++ src ++ newUnit (n - src.length) := by
  simp [overwrite, newUnit, List.drop_append, List.drop_replicate]

/-- Writing in the place of as many octets. -/
theorem storeAt_append (pre old src v : Bytes) (h : old.length = src.length) :
    storeAt (pre ++ old ++ v) pre.length src = .ok (pre ++ src ++ v) := by
  rw [storeAt, if_neg (by simp only [List.length_append]; omega), overwrite, ← h]
  simp [List.drop_append]

theorem storeAt_one {u : Bytes} {i : ℕ} (hi : i < u.length) (b : Octet) :
    storeAt u i [b] = .ok (u.set i b) := by
  unfold storeAt overwrite
  rw [if_neg (by rw [List.length_singleton]; omega), List.set_eq_take_append_cons_drop, if_pos hi,
    List.append_assoc]
  rfl

theorem getElem?_of_lt {u : Bytes} {x : ℕ} (hx : x < u.length) : u[x]? = some (u.getD x 0) := by
  rw [List.getD_eq_getElem?_getD, List.getElem?_eq_getElem hx, Option.getD_some]

theorem octetAt_of_getElem? {u : Bytes} {i : ℕ} {b : Octet} (h : u[i]? = some b) :
    octetAt u i = .ok b := by rw [octetAt, h]

theorem orAt_ok {buf : Bytes} {i : ℕ} (hi : i < buf.length) (s : Octet) :
    orAt buf i s = .ok (buf.set i (buf[i] ||| s)) := by
  unfold orAt
  rw [octetAt_of_getElem? (List.getElem?_eq_getElem hi)]
  rfl

theorem octetAt_of_drop {u : Bytes} {i : ℕ} {b : Octet} {t : Bytes} (h : u.drop i = b :: t) :
    octetAt u i = .ok b := by
  apply octetAt_of_getElem?
  rw [← List.head?_drop, h]
  rfl

theorem drop_of_octetAt {u : Bytes} {i : ℕ} {b : Octet} (h : octetAt u i = .ok b) :
    ∃ t, u.drop i = b :: t := by
  unfold octetAt at h
  cases hget : u[i]? with
  | none =>
    rw [hget] at h
    exact absurd h (by simp)
  | some b' =>
    rw [hget] at h
    obtain rfl := Except.ok.inj h
    rw [← List.head?_drop] at hget
    exact List.head?_eq_some_iff.1 hget

end ChannelEmulator
