import ChannelEmulator.Coding.ShiftRegister
import ChannelEmulator.Proof.FrameZones
import ChannelEmulator.Spec.HdlcFrame
import Mathlib.Data.List.GetD

/-!
# The frame check sequences of HDLC frames are remainders of shift registers

* `fcs16_eq`, `fcs32_eq`: **the loops over the tables are the registers that leave at the bottom**,
  fed with the bits of the octets, least significant first.
* `fcs16_residue`, `fcs32_residue`: a string closed with its complemented remainder leaves the good
  residue, whatever the initial value.
-/

namespace ChannelEmulator.Hdlc

open Coding

/-- The reflected generator of the 16-bit sequence. -/
def poly16 : BitVec 16 := 0x8408

/-- The reflected generator of the 32-bit sequence. -/
def poly32 : BitVec 32 := 0xEDB88320

/-- The bits of octets in the order in which a reflected register takes them. -/
def bitString (u : Bytes) : List Bool := u.flatMap fun o => lsbFirst o.toBitVec

/-- An octet fed to a reflected register: `n` shifts of the low octet, added to the others. -/
theorem run_octet {w : ℕ} (g c : BitVec w) (hw : 8 ≤ w) (o : Octet) :
    (Register.right g).run c (lsbFirst o.toBitVec) =
      (c >>> 8) ^^^ (Register.right g).shift^[8] ((c.setWidth 8 ^^^ o.toBitVec).setWidth w) := by
  have hhigh : (c ^^^ o.toBitVec.setWidth w) >>> 8 = c >>> 8 := by
    rw [BitVec.ushiftRight_xor_distrib]
    have hnone : o.toBitVec.setWidth w >>> 8 = 0 := by
      apply BitVec.eq_of_getLsbD_eq
      intro i hi
      simp
    rw [hnone]
    exact BitVec.xor_zero
  have hlow : (c ^^^ o.toBitVec.setWidth w).setWidth 8 = c.setWidth 8 ^^^ o.toBitVec := by
    rw [BitVec.setWidth_xor]
    congr 1
    apply BitVec.eq_of_getLsbD_eq
    intro i hi
    simp [hi]
    omega
  rw [Register.run_eq _ _ (by simpa using hw), lsbFirst_length, Register.word_lsbFirst,
    Register.right_shift_low, hhigh, hlow]

/-! ## The tables -/

/-- An entry of a table of numbers that are their indices, shifted out. -/
theorem getD_of_map {t : List ℕ} {f : ℕ → ℕ} (h : t = (List.range 256).map f) (x : Octet) :
    t.getD x.toNat 0 = f x.toNat := by
  rw [h, List.getD_eq_getElem?_getD, List.getElem?_map, List.getElem?_range x.toNat_lt, Option.map_some,
    Option.getD_some]

/-- Every entry of `_fcstab` is its index, shifted out. -/
theorem fcstab_eq (x : Octet) :
    (fcstab.getD x.toNat 0).toBitVec = (Register.right poly16).shift^[8] (x.toBitVec.setWidth 16) := by
  have hmap : fcstab.map UInt16.toNat = (List.range 256).map (Register.rightShift 0x8408)^[8] := by decide +kernel
  have hentry : (fcstab.map UInt16.toNat).getD x.toNat 0 = (fcstab.getD x.toNat 0).toNat :=
    List.getD_map fcstab 0 UInt16.toNat
  apply BitVec.toNat_inj.1
  rw [Register.right_iterate_toNat, BitVec.toNat_setWidth,
    Nat.mod_eq_of_lt (x.toBitVec.isLt.trans_le (by decide)), UInt16.toNat_toBitVec, ← hentry, getD_of_map hmap,
    UInt8.toNat_toBitVec]
  rfl

/-- Every entry of `_fcstab_32` is its index, shifted out. -/
theorem fcstab32_eq (x : Octet) :
    (fcstab32.getD x.toNat 0).toBitVec = (Register.right poly32).shift^[8] (x.toBitVec.setWidth 32) := by
  have hmap : fcstab32.map UInt32.toNat = (List.range 256).map (Register.rightShift 0xEDB88320)^[8] := by
    decide +kernel
  have hentry : (fcstab32.map UInt32.toNat).getD x.toNat 0 = (fcstab32.getD x.toNat 0).toNat :=
    List.getD_map fcstab32 0 UInt32.toNat
  apply BitVec.toNat_inj.1
  rw [Register.right_iterate_toNat, BitVec.toNat_setWidth,
    Nat.mod_eq_of_lt (x.toBitVec.isLt.trans_le (by decide)), UInt32.toNat_toBitVec, ← hentry, getD_of_map hmap,
    UInt8.toNat_toBitVec]
  rfl

theorem fcs16Step_eq (c : UInt16) (o : Octet) :
    (fcs16Step c o).toBitVec = (Register.right poly16).run c.toBitVec (lsbFirst o.toBitVec) := by
  have hindex : ((c ^^^ o.toUInt16) &&& 0xff).toNat = (c.toUInt8 ^^^ o).toNat := by
    rw [UInt16.toNat_and, UInt16.toNat_xor, UInt8.toNat_toUInt16, UInt8.toNat_xor, UInt16.toNat_toUInt8]
    show (c.toNat ^^^ o.toNat) &&& (2 ^ 8 - 1) = _
    rw [Nat.and_two_pow_sub_one_eq_mod, Nat.xor_mod_two_pow, Nat.mod_eq_of_lt o.toNat_lt]
  rw [run_octet _ _ (by decide), fcs16Step, hindex, UInt16.toBitVec_xor, fcstab_eq]
  rfl

theorem fcs32Step_eq (c : UInt32) (o : Octet) :
    (fcs32Step c o).toBitVec = (Register.right poly32).run c.toBitVec (lsbFirst o.toBitVec) := by
  have hindex : ((c ^^^ o.toUInt32) &&& 0xff).toNat = (c.toUInt8 ^^^ o).toNat := by
    rw [UInt32.toNat_and, UInt32.toNat_xor, UInt8.toNat_toUInt32, UInt8.toNat_xor, UInt32.toNat_toUInt8]
    show (c.toNat ^^^ o.toNat) &&& (2 ^ 8 - 1) = _
    rw [Nat.and_two_pow_sub_one_eq_mod, Nat.xor_mod_two_pow, Nat.mod_eq_of_lt o.toNat_lt]
  rw [run_octet _ _ (by decide), fcs32Step, hindex, UInt32.toBitVec_xor, fcstab32_eq]
  rfl

/-! ## Strings -/

/-- **The 16-bit sequence is the reflected register** fed with the bits of the octets. -/
theorem fcs16_eq (cp : Bytes) (fcs : UInt16) :
    (fcs16 fcs cp).toBitVec = (Register.right poly16).run fcs.toBitVec (bitString cp) := by
  induction cp generalizing fcs with
  | nil => rfl
  | cons o cp ih =>
    have htail := ih (fcs16Step fcs o)
    rw [bitString, List.flatMap_cons, Register.run_append, ← fcs16Step_eq]
    exact htail

/-- **The 32-bit sequence is the reflected register** fed with the bits of the octets. -/
theorem fcs32_eq (cp : Bytes) (fcs : UInt32) :
    (fcs32 fcs cp).toBitVec = (Register.right poly32).run fcs.toBitVec (bitString cp) := by
  induction cp generalizing fcs with
  | nil => rfl
  | cons o cp ih =>
    have htail := ih (fcs32Step fcs o)
    rw [bitString, List.flatMap_cons, Register.run_append, ← fcs32Step_eq]
    exact htail

theorem bitString_hostU16 (v : UInt16) : bitString (hostU16 v) = lsbFirst v.toBitVec := by
  simp only [hostU16, bitString, List.flatMap_cons, List.flatMap_nil, List.append_nil]
  exact (lsbFirst_split (m := 8) (n := 8) v.toBitVec).symm

theorem bitString_hostU32 (v : UInt32) : bitString (hostU32 v) = lsbFirst v.toBitVec := by
  -- what is left of the word when `k` bits, and then eight more, are split off
  have hnext : ∀ k n : ℕ, (((v.toBitVec >>> k).setWidth (8 + n)) >>> 8).setWidth n =
      (v.toBitVec >>> (k + 8)).setWidth n := by
    intro k n
    apply BitVec.eq_of_getLsbD_eq
    intro i hi
    simp [hi, Nat.add_assoc]
  have hoctet : ∀ k n : ℕ, ((v.toBitVec >>> k).setWidth (8 + n)).setWidth 8 =
      (v.toBitVec >>> k).setWidth 8 := by
    intro k n
    apply BitVec.eq_of_getLsbD_eq
    intro i hi
    simp [hi]
  have h₈ := lsbFirst_split (m := 8) (n := 24) v.toBitVec
  have h₁₆ := lsbFirst_split (m := 8) (n := 16) ((v.toBitVec >>> 8).setWidth 24)
  have h₂₄ := lsbFirst_split (m := 8) (n := 8) ((v.toBitVec >>> 16).setWidth 16)
  rw [hoctet 8 16, hnext 8 16] at h₁₆
  rw [hoctet 16 8, hnext 16 8] at h₂₄
  rw [h₁₆, h₂₄] at h₈
  simp only [hostU32, bitString, List.flatMap_cons, List.flatMap_nil, List.append_nil]
  exact h₈.symm

/-- A word fed to a register that holds its complement shifts all ones out. -/
theorem run_complement {w : ℕ} (g c : BitVec w) :
    (Register.right g).run c (lsbFirst (c ^^^ BitVec.allOnes w)) =
      (Register.right g).shift^[w] (BitVec.allOnes w) := by
  rw [Register.run_eq _ _ (by simp), lsbFirst_length, Register.word_lsbFirst, BitVec.setWidth_eq,
    ← BitVec.xor_assoc, BitVec.xor_self, BitVec.zero_xor]

theorem fcs16_append (fcs : UInt16) (cp cp' : Bytes) :
    fcs16 fcs (cp ++ cp') = fcs16 (fcs16 fcs cp) cp' := List.foldl_append

theorem fcs32_append (fcs : UInt32) (cp cp' : Bytes) :
    fcs32 fcs (cp ++ cp') = fcs32 (fcs32 fcs cp) cp' := List.foldl_append

/-- **A string closed with its complemented 16-bit sequence** leaves the good residue. -/
theorem fcs16_residue (cp : Bytes) (fcs : UInt16) :
    fcs16 fcs (cp ++ hostU16 (fcs16 fcs cp ^^^ 0xFFFF)) = goodFCS16 := by
  apply UInt16.toBitVec_inj.1
  rw [fcs16_append, fcs16_eq, bitString_hostU16, UInt16.toBitVec_xor]
  refine (run_complement poly16 _).trans (BitVec.toNat_inj.1 ?_)
  rw [Register.right_iterate_toNat]
  rfl

/-- **A string closed with its complemented 32-bit sequence** leaves the good residue. -/
theorem fcs32_residue (cp : Bytes) (fcs : UInt32) :
    fcs32 fcs (cp ++ hostU32 (fcs32 fcs cp ^^^ 0xFFFFFFFF)) = goodFCS32 := by
  apply UInt32.toBitVec_inj.1
  rw [fcs32_append, fcs32_eq, bitString_hostU32, UInt32.toBitVec_xor]
  refine (run_complement poly32 _).trans (BitVec.toNat_inj.1 ?_)
  rw [Register.right_iterate_toNat]
  rfl

/-- **The checksums over tables equal their bitwise definitions**, and a string closed with its
complemented checksum leaves the good residue. -/
theorem checksums_bitwise (cp : Bytes) (c : UInt16) (d : UInt32) :
    (fcs16 c cp).toBitVec = (Register.right 0x8408).run c.toBitVec (bitString cp) ∧
      (fcs32 d cp).toBitVec = (Register.right 0xEDB88320).run d.toBitVec (bitString cp) ∧
      fcs16 c (cp ++ hostU16 (fcs16 c cp ^^^ 0xFFFF)) = goodFCS16 ∧
      fcs32 d (cp ++ hostU32 (fcs32 d cp ^^^ 0xFFFFFFFF)) = goodFCS32 :=
  ⟨fcs16_eq cp c, fcs32_eq cp d, fcs16_residue cp c, fcs32_residue cp d⟩

end ChannelEmulator.Hdlc
