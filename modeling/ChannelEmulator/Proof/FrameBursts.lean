import ChannelEmulator.Coding.ShiftRegister
import ChannelEmulator.Proof.AccessChain
import ChannelEmulator.Proof.AosFrame
import ChannelEmulator.Proof.FrameZones

/-!
# The frame error control field is the remainder of a shift register

* `computeCRC_eq`: **the octet-wise checksum is the register that leaves at the top**, with the
  generator `x^16 + x^12 + x^5 + 1`, fed with the bits of the octets.
* `errorControl_checks`: with it, an initialized frame is valid, and a burst of up to 16 bits in a
  valid frame is detected.
-/

namespace ChannelEmulator.AOS

open Coding

/-- The generator, without its leading term. -/
def generatingPoly : BitVec 16 := .twoPow 16 12 ^^^ .twoPow 16 5 ^^^ .twoPow 16 0

example : generatingPoly = 0x1021 := by decide

/-- The register of the checksum. -/
abbrev crcRegister : Register 16 := .left generatingPoly

/-- The bits of octets in the order of transmission. -/
def bitString (u : Bytes) : List Bool := u.flatMap fun o => msbFirst o.toBitVec

/-- The bits two frames differ in are among `n` consecutive ones. -/
def Burst (n : ℕ) (u v : Bytes) : Prop :=
  u ≠ v ∧ u.length = v.length ∧
    ∃ p, ∀ i : ℕ, (bitString u)[i]? ≠ (bitString v)[i]? → p ≤ i ∧ i < p + n

/-! ## One octet -/

theorem swap_disjoint (crc : UInt16) : (crc >>> 8) ||| (crc <<< 8) = (crc >>> 8) ^^^ (crc <<< 8) := by
  apply UInt16.toBitVec_inj.mp
  apply BitVec.eq_of_getLsbD_eq
  intro i hi
  by_cases h : i < 8
  · simp [h]
  · have : crc.toBitVec.getLsbD (8 + i) = false := BitVec.getLsbD_of_ge _ _ (by omega)
    simp [h, this]

theorem mask_xor (a b m : UInt16) : (a ^^^ b) &&& m = (a &&& m) ^^^ (b &&& m) := by
  apply UInt16.toBitVec_inj.mp
  apply BitVec.eq_of_getLsbD_eq
  intro i hi
  simp [Bool.and_xor_distrib_right]

/-- A remainder with a part of it added. -/
def addPart (f : UInt16 → UInt16) (crc : UInt16) : UInt16 := crc ^^^ f crc

theorem addPart_xor {f : UInt16 → UInt16} (hf : ∀ a b, f (a ^^^ b) = f a ^^^ f b) (a b : UInt16) :
    addPart f (a ^^^ b) = addPart f a ^^^ addPart f b := by
  unfold addPart
  rw [hf]
  ac_rfl

/-- The feedback of an octet that has come in. -/
def feedback (crc : UInt16) : UInt16 :=
  addPart (fun c => ((c &&& 0xff) <<< 4) <<< 1)
    (addPart (fun c => (c <<< 8) <<< 4) (addPart (fun c => (c &&& 0xff) >>> 4) crc))

theorem feedback_xor (a b : UInt16) : feedback (a ^^^ b) = feedback a ^^^ feedback b := by
  unfold feedback
  rw [addPart_xor, addPart_xor, addPart_xor]
  · intro x y
    rw [mask_xor, UInt16.shiftLeft_xor, UInt16.shiftLeft_xor]
  · intro x y
    rw [UInt16.shiftLeft_xor, UInt16.shiftLeft_xor]
  · intro x y
    rw [mask_xor, UInt16.shiftRight_xor]

/-- One octet of the checksum is linear in the remainder and the octet together. -/
theorem crcStep_xor (c d : UInt16) (a b : Octet) :
    crcStep (c ^^^ d) (a ^^^ b) = crcStep c a ^^^ crcStep d b := by
  have hstep : ∀ (e : UInt16) (o : Octet),
      crcStep e o = feedback ((e >>> 8) ^^^ (e <<< 8) ^^^ o.toUInt16) := by
    intro e o
    rw [← swap_disjoint]
    rfl
  rw [hstep, hstep, hstep, ← feedback_xor, UInt16.shiftLeft_xor, UInt16.shiftRight_xor,
    UInt8.toUInt16_xor]
  congr 1
  ac_rfl

/-- What an octet adds to a remainder of zero, for each of its values. -/
theorem crcStep_zero (x : Octet) :
    (crcStep 0 x).toBitVec = crcRegister.shift^[8] (x.toBitVec.setWidth 16 <<< 8) := by
  revert x
  apply forall_octet
  decide +kernel

/-- **One octet of the checksum** is eight shifts of the register. -/
theorem crcStep_eq (c : UInt16) (o : Octet) :
    (crcStep c o).toBitVec = crcRegister.run c.toBitVec (msbFirst o.toBitVec) := by
  have hsplit : crcStep c o = (c <<< 8) ^^^ crcStep 0 ((c >>> 8).toUInt8 ^^^ o) := by
    rw [← crcStep_high, ← crcStep_xor, UInt16.xor_zero, ← UInt8.xor_assoc, UInt8.xor_self,
      UInt8.zero_xor]
  have hlow : (c.toBitVec ^^^ (o.toBitVec.setWidth 16 <<< 8)) <<< 8 = (c <<< 8).toBitVec := by
    rw [BitVec.shiftLeft_xor_distrib, ← BitVec.shiftLeft_add]
    simp
  have hhigh : ((c.toBitVec ^^^ (o.toBitVec.setWidth 16 <<< 8)) >>> 8) <<< 8 =
      ((c >>> 8).toUInt8 ^^^ o).toBitVec.setWidth 16 <<< 8 := by
    apply BitVec.eq_of_getLsbD_eq
    intro i hi
    have hoff : 8 + (i - 8) = i ∨ i < 8 := by omega
    rcases hoff with hoff | hoff
    · have hi8 : ¬ i < 8 := by omega
      have hi16 : i - 8 < 8 := by omega
      simp [hi, hi8, hi16, hoff, show i - 8 < 16 by omega]
    · simp [hoff]
  rw [Register.run_eq _ _ (by simp), msbFirst_length, Register.word_msbFirst _ (by decide),
    Register.left_shift_high _ _ (by decide), hsplit, UInt16.toBitVec_xor, crcStep_zero, hlow, hhigh]

/-! ## Frames -/

/-- **The checksum is the register** fed with the bits of the octets. -/
theorem computeCRC_eq (data : Bytes) (crc : UInt16) :
    (computeCRC data crc).toBitVec = crcRegister.run crc.toBitVec (bitString data) := by
  induction data generalizing crc with
  | nil => rfl
  | cons o data ih =>
    have htail := ih (crcStep crc o)
    rw [bitString, List.flatMap_cons, Register.run_append, ← crcStep_eq]
    exact htail

theorem bitString_injective {u v : Bytes} (hlen : u.length = v.length)
    (h : bitString u = bitString v) : u = v := by
  induction u generalizing v with
  | nil => exact (List.length_eq_zero_iff.1 hlen.symm).symm
  | cons a u ih =>
    obtain ⟨b, v, rfl⟩ := List.exists_cons_of_length_eq_add_one hlen.symm
    simp only [bitString, List.flatMap_cons] at h
    obtain ⟨hhead, htail⟩ := List.append_inj h (by rw [msbFirst_length, msbFirst_length])
    rw [UInt8.toBitVec_inj.1 (msbFirst_injective hhead), ih (by simpa using hlen) htail]

theorem bitString_length (u : Bytes) : (bitString u).length = 8 * u.length := by
  induction u with
  | nil => rfl
  | cons o u ih =>
    rw [bitString, List.flatMap_cons, List.length_append, msbFirst_length, ← bitString, ih,
      List.length_cons]
    omega

/-- **A burst in a valid frame is detected.** -/
theorem hasValidCRC_burst {u v : Bytes} (hu : hasValidCRC u = true) (h : Burst 16 u v) :
    hasValidCRC v = false := by
  obtain ⟨hne, hlen, p, hburst⟩ := h
  have hfaithful : crcRegister.Faithful := Register.left_faithful (by decide)
  have hbits : (bitString u).length = (bitString v).length := by
    rw [bitString_length, bitString_length, hlen]
  have hdiffer := hfaithful.run_burst (Register.left_separated _) crcInitial.toBitVec hbits
    (fun heq => hne (bitString_injective hlen heq)) hburst
  rw [← computeCRC_eq, ← computeCRC_eq] at hdiffer
  unfold hasValidCRC at hu ⊢
  rw [beq_iff_eq] at hu
  rw [beq_eq_false_iff_ne]
  intro hv
  exact hdiffer (by rw [hu, hv])

/-- A frame that has room for its fields has the checksum at its end, and is valid with it. -/
theorem initializeCRC_valid (l : Layout) {u : Bytes} (hfec : l.hasFrameErrorControl = true)
    (hroom : l.inSduLen + l.nonDataLength ≤ u.length) :
    ∃ u', l.initializeCRC u = .ok u' ∧ u'.length = u.length ∧ hasValidCRC u' = true := by
  obtain ⟨hm, hparts⟩ := l.length_parts (u := u) (m := u.length - l.inSduLen - l.nonDataLength)
    (by omega)
  rw [if_pos hfec, spanFrameErrorControlField] at hparts
  obtain ⟨hstore, hvalid⟩ := store_crc (u := u) (by omega)
  refine ⟨_, ?_, ?_, hvalid⟩
  · rw [Layout.initializeCRC, Layout.setFrameErrorControl, hfec, if_neg (by decide), hm, ← hstore]
    congr 1
    omega
  · rw [List.length_append, List.length_take, fromU16, List.length_cons, List.length_singleton]
    omega

end ChannelEmulator.AOS

namespace ChannelEmulator.TM

open AOS (Burst hasValidCRC_burst)

/-- A frame that has room for its fields has the checksum at its end, and is valid with it. -/
theorem initializeCRC_valid (c : Channel) {u : Bytes} (hfec : c.useFrameErrorControl = true)
    (hroom : c.nonDataLength ≤ u.length) :
    ∃ u', c.initializeCRC u = .ok u' ∧ u'.length = u.length ∧ hasValidCRC u' = true := by
  obtain ⟨hat, hspan⟩ := errorControl_at hfec hroom
  obtain ⟨hstore, hvalid⟩ := AOS.store_crc (u := u) (by omega)
  refine ⟨_, ?_, ?_, hvalid⟩
  · rw [Channel.initializeCRC, Channel.setFrameErrorControl, hfec, if_neg (by decide), hat]
    exact hstore
  · rw [List.length_append, List.length_take, fromU16, List.length_cons, List.length_singleton]
    omega

end ChannelEmulator.TM

namespace ChannelEmulator

/-- **The frame error control field**: the checksum is the remainder of the shift register, an
initialized frame is valid, and no burst of up to 16 bits in a valid frame goes undetected. -/
theorem errorControl_checks :
    (∀ data crc, (AOS.computeCRC data crc).toBitVec =
      (Coding.Register.left AOS.generatingPoly).run crc.toBitVec (AOS.bitString data)) ∧
    (∀ (l : AOS.Layout) (u : Bytes), l.hasFrameErrorControl = true →
      l.inSduLen + l.nonDataLength ≤ u.length →
        ∃ u', l.initializeCRC u = .ok u' ∧ u'.length = u.length ∧ AOS.hasValidCRC u' = true) ∧
    (∀ (c : TM.Channel) (u : Bytes), c.useFrameErrorControl = true → c.nonDataLength ≤ u.length →
        ∃ u', c.initializeCRC u = .ok u' ∧ u'.length = u.length ∧ TM.hasValidCRC u' = true) ∧
    (∀ u v, AOS.Burst 16 u v → AOS.hasValidCRC u = true → AOS.hasValidCRC v = false) ∧
    (∀ u v, AOS.Burst 16 u v → TM.hasValidCRC u = true → TM.hasValidCRC v = false) :=
  ⟨AOS.computeCRC_eq, fun l _ hfec hroom => AOS.initializeCRC_valid l hfec hroom,
    fun c _ hfec hroom => TM.initializeCRC_valid c hfec hroom,
    fun _ _ h hu => AOS.hasValidCRC_burst hu h, fun _ _ h hu => AOS.hasValidCRC_burst hu h⟩

/-- Frames of nine octets, and two neighbouring bits of a frame of three in error. -/
theorem errorControl_checks_short :
    (∃ u', (⟨false, 0, false, true⟩ : AOS.Layout).initializeCRC (newUnit 9) = .ok u' ∧
      u'.length = 9 ∧ AOS.hasValidCRC u' = true) ∧
    (∃ u', (⟨0, 0, false, true, 0, Nat.zero_le _, Nat.zero_le _⟩ : TM.Channel).initializeCRC
        (newUnit 9) = .ok u' ∧ u'.length = 9 ∧ TM.hasValidCRC u' = true) ∧
    AOS.hasValidCRC [0xFF, 0xFE, 0x80] = false ∧ TM.hasValidCRC [0xFF, 0xFE, 0x80] = false := by
  have hburst : AOS.Burst 16 [0xFF, 0xFF, 0x00] [0xFF, 0xFE, 0x80] := by
    refine ⟨by decide, rfl, 8, ?_⟩
    intro i hi
    by_cases hlast : i < 24
    · constructor
      · by_contra hfirst
        revert hi
        -- the first octet is the same in both
        exact not_not.2 ((by decide : ∀ i < 8, (AOS.bitString [0xFF, 0xFF, 0x00])[i]? =
          (AOS.bitString [0xFF, 0xFE, 0x80])[i]?) i (Nat.lt_of_not_le hfirst))
      · exact hlast
    · refine absurd ?_ hi
      rw [List.getElem?_eq_none, List.getElem?_eq_none]
      · exact Nat.le_of_not_lt hlast
      · exact Nat.le_of_not_lt hlast
  exact ⟨errorControl_checks.2.1 _ _ rfl (by decide), errorControl_checks.2.2.1 _ _ rfl (by decide),
    errorControl_checks.2.2.2.1 _ _ hburst (by decide),
    errorControl_checks.2.2.2.2 _ _ hburst (by decide)⟩

end ChannelEmulator
