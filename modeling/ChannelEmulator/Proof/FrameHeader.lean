import ChannelEmulator.Proof.FrameReception
import ChannelEmulator.Proof.FrameSender

/-!
# The header of a generated TM frame

* `unit`: the octets of a frame with a given count in its master and in its virtual channel, data
  field status, first header pointer and rest; `frame` is one.
* `isValid_unit`, `validFrame_unit`: **a frame passes the tests** of a receiver that knows the
  fields it has.
-/

namespace ChannelEmulator.TM

open Framing

/-- The first sixteen bits of the frames of a channel. -/
def ids (c : Channel) : ℕ :=
  (c.scid <<< 4) ||| (c.vcid <<< 1) ||| (if c.useOperationalControl then 1 else 0)

/-- A frame with all it has behind the frame secondary header. -/
def unit (c : Channel) (mc vc : Octet) (status pointer : ℕ) (rest : Bytes) : Bytes :=
  fromU16 (ids c) ++ [mc, vc] ++ fromU16 (2 ^ 11 * status + pointer) ++ fsh c ++ rest

theorem frame_eq_unit (c : Channel) (count pointer : ℕ) (data : Bytes) :
    frame c count pointer data = unit c 0 (UInt8.ofNat count) (status c) pointer
      (data ++ newUnit (c.nonDataLength - c.ptrData)) := rfl

/-! ## The identifiers -/

theorem ids_eq (c : Channel) :
    ids c = 2 ^ 4 * c.scid + (2 * c.vcid + if c.useOperationalControl then 1 else 0) := by
  have hv : c.vcid < 2 ^ 3 := Nat.lt_of_le_of_lt c.vcid_le (by decide)
  have hlow : (c.vcid <<< 1) ||| (if c.useOperationalControl then 1 else 0) =
      2 * c.vcid + if c.useOperationalControl then 1 else 0 := by
    rw [Nat.shiftLeft_eq, Nat.mul_comm, ← Nat.two_pow_add_eq_or_of_lt (by split <;> decide)]
  unfold ids
  rw [Nat.lor_assoc, hlow, Nat.shiftLeft_eq, Nat.mul_comm, ← Nat.two_pow_add_eq_or_of_lt]
  split <;> omega

variable {c : Channel} {mc vc : Octet} {st pointer : ℕ} {rest : Bytes}

theorem ids_lt (c : Channel) : ids c < 2 ^ 14 := by
  have hs : c.scid < 2 ^ 10 := Nat.lt_of_le_of_lt c.scid_le (by decide)
  have hv : c.vcid < 2 ^ 3 := Nat.lt_of_le_of_lt c.vcid_le (by decide)
  rw [ids_eq]
  split <;> omega

theorem toNat_ofNat_of_lt {n : ℕ} (h : n < 256) : (UInt8.ofNat n).toNat = n := by
  rw [UInt8.toNat_ofNat', Nat.mod_eq_of_lt h]

theorem getTFVN_unit : getTFVN (unit c mc vc st pointer rest) = .ok 0 := by
  have h := ids_lt c
  have h0 : (ids c / 256) >>> 6 = 0 := by rw [Nat.shiftRight_eq_div_pow]; omega
  show Except.ok ((UInt8.ofNat (ids c / 256)).toNat >>> 6) = _
  rw [toNat_ofNat_of_lt (by omega), h0]

theorem getMCID_unit : getMCID (unit c mc vc st pointer rest) = .ok c.scid := by
  have h := ids_lt c
  have hv : c.vcid < 2 ^ 3 := Nat.lt_of_le_of_lt c.vcid_le (by decide)
  have h4 : ids c >>> 4 = c.scid := by
    rw [ids_eq, Nat.shiftRight_eq_div_pow]
    split <;> omega
  rw [getMCID, unit, List.append_assoc, List.append_assoc, List.append_assoc,
    toU16_fromU16 _ (Nat.lt_trans h (by decide))]
  exact congrArg Except.ok h4

/-- The second octet. -/
theorem low_ids (c : Channel) : (UInt8.ofNat (ids c)).toNat =
    16 * (c.scid % 16) + (2 * c.vcid + if c.useOperationalControl then 1 else 0) := by
  have hv : c.vcid < 2 ^ 3 := Nat.lt_of_le_of_lt c.vcid_le (by decide)
  rw [UInt8.toNat_ofNat', ids_eq]
  split <;> omega

theorem getVCID_unit : getVCID (unit c mc vc st pointer rest) = .ok c.vcid := by
  have hv : c.vcid < 2 ^ 3 := Nat.lt_of_le_of_lt c.vcid_le (by decide)
  have h : ((UInt8.ofNat (ids c)).toNat &&& 0xe) >>> 1 = c.vcid := by
    rw [Nat.shiftRight_and_distrib, low_ids, Nat.shiftRight_eq_div_pow, show 0xe >>> 1 = 2 ^ 3 - 1 by rfl,
      Nat.and_two_pow_sub_one_eq_mod]
    split <;> omega
  exact congrArg Except.ok h

theorem getOCFF_unit : getOCFF (unit c mc vc st pointer rest) = .ok c.useOperationalControl := by
  have h : (UInt8.ofNat (ids c)).toNat &&& 1 = if c.useOperationalControl then 1 else 0 := by
    rw [low_ids, show 1 = 2 ^ 1 - 1 by rfl, Nat.and_two_pow_sub_one_eq_mod]
    split <;> omega
  have : decide ((UInt8.ofNat (ids c)).toNat &&& 1 = 1) = c.useOperationalControl := by
    rw [h]
    cases c.useOperationalControl <;> rfl
  exact congrArg Except.ok this

/-! ## The data field status -/

theorem octetAt_status (c : Channel) (mc vc : Octet) (rest : Bytes) (hst : st < 2 ^ 5)
    (hp : pointer < 2 ^ 11) :
    ∃ b, octetAt (unit c mc vc st pointer rest) 4 = .ok b ∧ b.toNat = 8 * st + pointer / 2 ^ 8 := by
  refine ⟨UInt8.ofNat ((2 ^ 11 * st + pointer) / 256), rfl, ?_⟩
  rw [toNat_ofNat_of_lt (by omega)]
  omega

/-- A bit of the data field status. -/
theorem status_bit (hst : st < 2 ^ 5) (hp : pointer < 2 ^ 11) (k : ℕ) :
    (do
      let b ← octetAt (unit c mc vc st pointer rest) 4
      return decide ((b.toNat >>> (3 + k)) &&& 1 = 1) : Except Fault Bool) =
        .ok (st.testBit k) := by
  obtain ⟨b, hb, hval⟩ := octetAt_status c mc vc rest hst hp
  rw [hb]
  apply congrArg Except.ok
  rw [hval, Nat.shiftRight_add, show (8 * st + pointer / 2 ^ 8) >>> 3 = st by
    rw [Nat.shiftRight_eq_div_pow]; omega, Nat.testBit_eq_decide_div_mod_eq, Nat.and_one_is_mod,
    Nat.shiftRight_eq_div_pow]

theorem getSecondaryHeaderFlag_unit (hst : st < 2 ^ 5) (hp : pointer < 2 ^ 11) :
    getSecondaryHeaderFlag (unit c mc vc st pointer rest) = .ok (st.testBit 4) :=
  status_bit hst hp 4

theorem getSynchronizationFlag_unit (hst : st < 2 ^ 5) (hp : pointer < 2 ^ 11) :
    getSynchronizationFlag (unit c mc vc st pointer rest) = .ok (st.testBit 3) :=
  status_bit hst hp 3

theorem getPacketOrderFlag_unit (hst : st < 2 ^ 5) (hp : pointer < 2 ^ 11) :
    getPacketOrderFlag (unit c mc vc st pointer rest) = .ok (st.testBit 2) :=
  status_bit hst hp 2

theorem getSegmentLengthID_unit (hst : st < 2 ^ 5) (hp : pointer < 2 ^ 11) :
    getSegmentLengthID (unit c mc vc st pointer rest) = .ok (st % 4) := by
  obtain ⟨b, hb, hval⟩ := octetAt_status c mc vc rest hst hp
  have h : (b.toNat >>> 3) &&& 3 = st % 4 := by
    rw [hval, Nat.shiftRight_eq_div_pow, show 3 = 2 ^ 2 - 1 by rfl, Nat.and_two_pow_sub_one_eq_mod]
    omega
  unfold getSegmentLengthID
  rw [hb]
  exact congrArg Except.ok h

theorem getFirstHeaderPointer_unit (hst : st < 2 ^ 5) (hp : pointer < 2 ^ 11) :
    getFirstHeaderPointer (unit c mc vc st pointer rest) = .ok pointer := by
  have h : (2 ^ 11 * st + pointer) &&& 0x7ff = pointer := by
    rw [show 0x7ff = 2 ^ 11 - 1 by rfl, Nat.and_two_pow_sub_one_eq_mod]
    omega
  have hstat : getDataFieldStat (unit c mc vc st pointer rest) = .ok (2 ^ 11 * st + pointer) :=
    toU16_fromU16 _ (by omega)
  unfold getFirstHeaderPointer
  rw [hstat]
  exact congrArg Except.ok h

theorem getSecondaryHeaderDataLength_unit (h : 0 < c.fshSize) (hmax : c.fshSize ≤ 64) :
    getSecondaryHeaderDataLength (unit c mc vc st pointer rest) = .ok (c.fshSize - 1) := by
  have hand : (c.fshSize - 1) &&& 0x3f = c.fshSize - 1 := by
    rw [show 0x3f = 2 ^ 6 - 1 by rfl, Nat.and_two_pow_sub_one_eq_mod]
    omega
  have hb : octetAt (unit c mc vc st pointer rest) spanPrimaryHeader =
      .ok (UInt8.ofNat (c.fshSize - 1)) := by
    rw [unit, fsh, if_pos h, hand]
    rfl
  unfold getSecondaryHeaderDataLength
  rw [hb]
  apply congrArg Except.ok
  rw [toNat_ofNat_of_lt (by omega), hand]

/-! ## The tests -/

theorem unit_length : (unit c mc vc st pointer rest).length = c.ptrData + rest.length := by
  simp only [unit, fromU16, List.length_append, List.length_cons, List.length_nil, fsh_length]
  unfold Channel.ptrData spanPrimaryHeader
  omega

/-- A data field status a receiver accepts: the secondary header flag says whether there is one,
and a packet that starts is announced with neither order nor segments. -/
structure Status (c : Channel) (st : ℕ) : Prop where
  lt : st < 2 ^ 5
  header : st.testBit 4 = decide (0 < c.fshSize)
  order : st.testBit 2 = false
  segment : st % 4 = 3

/-- The fields of a frame agree with its channel. -/
theorem agrees_unit (hst : Status c st) (hfsh : c.fshSize ≤ 64) (hp : pointer < 2 ^ 11) :
    Agrees c (unit c mc vc st pointer rest) where
  version := getTFVN_unit
  operationalControl := getOCFF_unit
  secondaryHeader := by rw [getSecondaryHeaderFlag_unit hst.lt hp, hst.header]
  unsynchronized _ := by
    rw [getPacketOrderFlag_unit hst.lt hp, getSegmentLengthID_unit hst.lt hp, hst.order, hst.segment]
    exact ⟨rfl, rfl⟩
  secondaryHeaderLength h := getSecondaryHeaderDataLength_unit h hfsh

/-- **A frame is valid** for a receiver that knows the fields it has. -/
theorem isValid_unit (hst : Status c st) (hfsh : c.fshSize ≤ 64) (hp : pointer < 2 ^ 11)
    (hpointer : noPacketStart pointer = true ∨ onlyIdleData pointer = true ∨
      pointer ≤ c.dataLength (unit c mc vc st pointer rest)) :
    isValid c (unit c mc vc st pointer rest) = .ok 1 := by
  refine isValid_of_agrees (agrees_unit hst hfsh hp) (getFirstHeaderPointer_unit hst.lt hp) ?_
  rcases hpointer with h | h | h
  · exact .inl (.inl h)
  · exact .inl (.inr h)
  · right
    unfold Channel.dataLength at h
    unfold sizeDiff
    split <;> omega

/-- A frame of the right size passes all tests of a virtual channel. -/
theorem validFrame_unit {v : Service} (hst : Status v.channel st) (hfsh : v.channel.fshSize ≤ 64)
    (hp : pointer < 2 ^ 11)
    (hlen : (unit v.channel mc vc st pointer rest).length = v.frameSize)
    (hpointer : noPacketStart pointer = true ∨ onlyIdleData pointer = true ∨
      pointer ≤ v.channel.dataLength (unit v.channel mc vc st pointer rest)) :
    ValidFrame v (unit v.channel mc vc st pointer rest) :=
  ⟨hlen, isValid_unit hst hfsh hp hpointer, getMCID_unit, getVCID_unit⟩

end ChannelEmulator.TM
