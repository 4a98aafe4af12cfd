import ChannelEmulator.Spec.AosFrame

/-!
# The frame error control field checks the frame it closes

* `hasValidCRC_close`: **a frame that ends with the checksum of what is ahead of it is valid**. Each
  octet of the checksum cancels the one the remainder would be shifted by.
-/

namespace ChannelEmulator.AOS

theorem high_octet (crc : UInt16) : (crc >>> 8).toUInt8.toUInt16 = crc >>> 8 := by
  apply UInt16.toNat_inj.1
  have := crc.toNat_lt
  simp [Nat.shiftRight_eq_div_pow]
  omega

/-- The high octet cancels itself in the swapped remainder. -/
theorem swap_xor_high (crc : UInt16) :
    ((crc >>> 8) ||| (crc <<< 8)) ^^^ (crc >>> 8).toUInt8.toUInt16 = crc <<< 8 := by
  rw [high_octet]
  apply UInt16.toBitVec_inj.mp
  apply BitVec.eq_of_getLsbD_eq
  intro i hi
  by_cases h : i < 8
  · simp [h]
  · have : crc.toBitVec.getLsbD (8 + i) = false := BitVec.getLsbD_of_ge _ _ (by omega)
    simp [h, this]

theorem low_clear (crc : UInt16) : (crc <<< 8) &&& 0xff = 0 := by
  apply UInt16.toBitVec_inj.mp
  apply BitVec.eq_of_getLsbD_eq
  intro i hi
  have hff : 8 ≤ i → (255#16).getLsbD i = false := by
    intro h
    rw [BitVec.getLsbD_ofNat, show 255 = 2 ^ 8 - 1 by rfl, Nat.testBit_two_pow_sub_one]
    simp
    omega
  simp only [UInt16.toBitVec_and, UInt16.toBitVec_shiftLeft, BitVec.getLsbD_and]
  by_cases h : 8 ≤ i
  · simp [hff h]
  · simp [show i < 8 by omega]

theorem shift_out (crc : UInt16) : (crc <<< 8) <<< 8 = 0 := by
  apply UInt16.toBitVec_inj.mp
  apply BitVec.eq_of_getLsbD_eq
  intro i hi
  simp

theorem high_shift (crc : UInt16) : ((crc <<< 8) >>> 8).toUInt8 = crc.toUInt8 := by
  apply UInt8.toNat_inj.1
  have := crc.toNat_lt
  simp [Nat.shiftRight_eq_div_pow, Nat.shiftLeft_eq]
  omega

/-- The high octet of the remainder shifts it by eight bits. -/
theorem crcStep_high (crc : UInt16) : crcStep crc (crc >>> 8).toUInt8 = crc <<< 8 := by
  -- nothing is left in the low octet that the feedback could take up
  have h4 : (0 : UInt16) <<< 4 = 0 := by decide
  simp only [crcStep, swap_xor_high, low_clear]
  rw [show (0 : UInt16) >>> 4 = 0 by decide, UInt16.xor_zero, shift_out, h4, UInt16.xor_zero, low_clear,
    h4, show (0 : UInt16) <<< 1 = 0 by decide, UInt16.xor_zero]

theorem fromU16_toNat (crc : UInt16) : fromU16 crc.toNat = [(crc >>> 8).toUInt8, crc.toUInt8] := by
  have h₁ : UInt8.ofNat (crc.toNat / 256) = (crc >>> 8).toUInt8 := by
    apply UInt8.toNat_inj.1
    simp [Nat.shiftRight_eq_div_pow]
  have h₂ : UInt8.ofNat crc.toNat = crc.toUInt8 := by
    apply UInt8.toNat_inj.1
    simp
  rw [fromU16, h₁, h₂]

theorem computeCRC_close (d : Bytes) (crc : UInt16) :
    computeCRC (d ++ fromU16 (computeCRC d crc).toNat) crc = 0 := by
  generalize hx : computeCRC d crc = x
  have hfold : d.foldl crcStep crc = x := hx
  rw [computeCRC, List.foldl_append, hfold, fromU16_toNat, List.foldl_cons, List.foldl_cons,
    List.foldl_nil, crcStep_high, ← high_shift, crcStep_high, shift_out]

/-- **A frame closed with its checksum is valid.** -/
theorem hasValidCRC_close (d : Bytes) :
    hasValidCRC (d ++ fromU16 (computeCRC d crcInitial).toNat) = true := by
  rw [hasValidCRC, computeCRC_close]
  rfl

/-- What `initializeCRC` stores at the end of a frame of two octets and more makes it valid. -/
theorem store_crc {u : Bytes} (h : 2 ≤ u.length) :
    storeAt u (u.length - 2) (fromU16 (getFrameCRC16 u).toNat) =
        .ok (u.take (u.length - 2) ++ fromU16 (getFrameCRC16 u).toNat) ∧
      hasValidCRC (u.take (u.length - 2) ++ fromU16 (getFrameCRC16 u).toNat) = true := by
  refine ⟨?_, hasValidCRC_close _⟩
  have hlen : (fromU16 (getFrameCRC16 u).toNat).length = 2 := rfl
  rw [storeAt, if_neg (by omega), overwrite, hlen, Nat.sub_add_cancel h, List.drop_length,
    List.append_nil]

/-! ## Zeros in the place of the checksum -/

theorem shift12_self {x : UInt16} (h : x ^^^ ((x <<< 8) <<< 4) = 0) : x = 0 := by
  have heq := congrArg UInt16.toNat (UInt16.xor_eq_zero_iff.1 h)
  have hlt := x.toNat_lt
  simp [Nat.shiftLeft_eq] at heq
  apply UInt16.toNat_inj.1
  rw [UInt16.toNat_zero]
  omega

theorem low_toNat (x : UInt16) : (x &&& 0xff).toNat = x.toNat % 256 := by
  rw [UInt16.toNat_and]
  exact Nat.and_two_pow_sub_one_eq_mod _ 8

theorem low4_self {x : UInt16} (h : x ^^^ ((x &&& 0xff) >>> 4) = 0) : x = 0 := by
  have heq := congrArg UInt16.toNat (UInt16.xor_eq_zero_iff.1 h)
  have hlt := x.toNat_lt
  rw [UInt16.toNat_shiftRight, low_toNat] at heq
  simp [Nat.shiftRight_eq_div_pow] at heq
  apply UInt16.toNat_inj.1
  rw [UInt16.toNat_zero]
  have hle := Nat.mod_le x.toNat 256
  omega

theorem low5_self {x : UInt16} (h : x ^^^ (((x &&& 0xff) <<< 4) <<< 1) = 0) : x = 0 := by
  have heq := congrArg UInt16.toNat (UInt16.xor_eq_zero_iff.1 h)
  have hlt := x.toNat_lt
  rw [UInt16.toNat_shiftLeft, UInt16.toNat_shiftLeft, low_toNat] at heq
  simp [Nat.shiftLeft_eq] at heq
  apply UInt16.toNat_inj.1
  rw [UInt16.toNat_zero]
  omega

theorem swap_eq_zero {x : UInt16} (h : ((x >>> 8) ||| (x <<< 8)) = 0) : x = 0 := by
  obtain ⟨h₁, h₂⟩ := UInt16.or_eq_zero_iff.1 h
  have e₁ := congrArg UInt16.toNat h₁
  have e₂ := congrArg UInt16.toNat h₂
  have hlt := x.toNat_lt
  simp [Nat.shiftLeft_eq, Nat.shiftRight_eq_div_pow] at e₁ e₂
  apply UInt16.toNat_inj.1
  rw [UInt16.toNat_zero]
  omega

/-- Only the remainder zero stays zero behind an octet of zeros. -/
theorem eq_zero_of_crcStep {crc : UInt16} (h : crcStep crc 0 = 0) : crc = 0 := by
  have h₃ := shift12_self (low5_self h)
  have h₁ := low4_self h₃
  rw [show (0 : Octet).toUInt16 = 0 from rfl, UInt16.xor_zero] at h₁
  exact swap_eq_zero h₁

theorem computeCRC_zeros_iff (d : Bytes) (crc : UInt16) : computeCRC (d ++ newUnit 2) crc = 0 ↔ computeCRC d crc = 0 := by
  have hfold : computeCRC (d ++ newUnit 2) crc = crcStep (crcStep (computeCRC d crc) 0) 0 := by
    unfold computeCRC
    rw [List.foldl_append]
    rfl
  rw [hfold]
  constructor
  · intro h
    exact eq_zero_of_crcStep (eq_zero_of_crcStep h)
  · intro h
    rw [h]
    rfl

end ChannelEmulator.AOS
