import ChannelEmulator.Spec.AosFrame

/-!
# The header of a built AOS transfer frame

Every write of `build` behind the primary header leaves its six octets alone (`Same`), so what
a built frame says of itself is settled by the setters of the header.

* `build_ok`: **a frame built within its limits** carries its frame count, and in its
  signaling field the cycle with the usage flag set exactly where the cycle is not zero.
* `incVCFrameCount_steps_iff`: **the pair of cycle and count steps by one** modulo `2 ^ 28`,
  but for the greatest pair, at which the increment throws.
-/

namespace ChannelEmulator.AOS

/-! ## Octets written behind the header -/

/-- The six octets of the primary header and the length are as they were. -/
def Same (u v : Bytes) : Prop := v.take 6 = u.take 6 ∧ v.length = u.length

theorem Same.refl (u : Bytes) : Same u u := ⟨rfl, rfl⟩

theorem Same.trans {u v w : Bytes} (h : Same u v) (h' : Same v w) : Same u w :=
  ⟨h'.1.trans h.1, h'.2.trans h.2⟩

theorem same_overwrite {u o : Bytes} {i : ℕ} (hi : 6 ≤ i) (hu : i + o.length ≤ u.length) :
    Same u (overwrite u i o) := by
  refine ⟨?_, overwrite_length hu⟩
  have h6 : 6 ≤ (u.take i).length := by rw [List.length_take]; omega
  rw [overwrite, List.append_assoc, List.take_append_of_le_length h6, List.take_take]
  congr 1
  omega

theorem storeAt_same {u o : Bytes} {i : ℕ} (hi : 6 ≤ i) (hu : i + o.length ≤ u.length) :
    ∃ v, storeAt u i o = .ok v ∧ Same u v := by
  refine ⟨overwrite u i o, ?_, same_overwrite hi hu⟩
  rw [storeAt, if_neg (by omega)]

theorem copyUnit_same {u o : Bytes} {i : ℕ} (hi : 6 ≤ i) (hu : i + o.length ≤ u.length) :
    ∃ v, copyUnit u i o = .ok v ∧ Same u v :=
  ⟨overwrite u i o, copyUnit_ok hu, same_overwrite hi hu⟩

/-- A unit with a header is its six octets and the rest. -/
theorem exists_header {u : Bytes} (hu : 6 ≤ u.length) :
    ∃ a b n₂ n₁ n₀ g t, u = a :: b :: n₂ :: n₁ :: n₀ :: g :: t := by
  rcases u with - | ⟨a, - | ⟨b, - | ⟨n₂, - | ⟨n₁, - | ⟨n₀, - | ⟨g, t⟩⟩⟩⟩⟩⟩
  all_goals first | (simp only [List.length_cons, List.length_nil] at hu; omega) | skip
  exact ⟨a, b, n₂, n₁, n₀, g, t, rfl⟩

/-! ## The fields of the header -/

section Header

variable (a b n₂ n₁ n₀ g : Octet) (t : Bytes)

/-- Storing the identifiers. -/
theorem front2OctetSet_ok (v s c : ℕ) :
    ∃ a' b', front2OctetSet (a :: b :: t) v s c = .ok (a' :: b' :: t) := by
  set w := (v <<< 14) ||| (s <<< 6) ||| c with hw
  refine ⟨UInt8.ofNat (w / 256), UInt8.ofNat w, ?_⟩
  rw [front2OctetSet, ← hw, storeAt, if_neg (by simp [fromU16])]
  simp [overwrite, fromU16]

theorem setTFVN_ok (v : ℕ) : ∃ a' b', setTFVN (a :: b :: t) v = .ok (a' :: b' :: t) :=
  front2OctetSet_ok a b t _ _ _

theorem setSpacecraftID_ok {s : ℕ} (hs : s ≤ maxSpacecraftID) :
    ∃ a' b', setSpacecraftID (a :: b :: t) s = .ok (a' :: b' :: t) := by
  rw [setSpacecraftID, if_pos hs]
  exact front2OctetSet_ok a b t _ _ _

theorem setVirtualChannelID_ok {c : ℕ} (hc : c ≤ maxVirtualChannelID) :
    ∃ a' b', setVirtualChannelID (a :: b :: t) c = .ok (a' :: b' :: t) := by
  rw [setVirtualChannelID, if_pos hc]
  exact front2OctetSet_ok a b t _ _ _

/-- The frame count field of a count. -/
def countOctets (n : ℕ) : Octet × Octet × Octet :=
  (UInt8.ofNat (n / 2 ^ 16), UInt8.ofNat (n / 2 ^ 8), UInt8.ofNat n)

theorem setVCFrameCount_ok {n : ℕ} (hn : n ≤ maxVCFrameCount) :
    setVCFrameCount (a :: b :: n₂ :: n₁ :: n₀ :: g :: t) n =
      .ok (a :: b :: (countOctets n).1 :: (countOctets n).2.1 :: (countOctets n).2.2 :: g :: t) := by
  rw [setVCFrameCount, if_pos hn, copyUnit_ok (by simp [fromU32, ptrVCFrameCount, spanGVCIDField])]
  simp [overwrite, fromU32, countOctets, ptrVCFrameCount, spanGVCIDField]

/-- The frame count that three octets hold. -/
theorem getVCFrameCount_eq :
    getVCFrameCount (a :: b :: n₂ :: n₁ :: n₀ :: g :: t) =
      .ok ((n₂.toNat * 256 + n₁.toNat) * 256 + n₀.toNat) := by
  have hg := g.toNat_lt
  simp only [getVCFrameCount, ptrVCFrameCount, spanGVCIDField, List.drop_succ_cons, List.drop_zero,
    toU32, bind, Except.bind, pure, Except.pure, Nat.shiftRight_eq_div_pow]
  apply congrArg Except.ok
  omega

theorem getVCFrameCount_le : ∃ n, getVCFrameCount (a :: b :: n₂ :: n₁ :: n₀ :: g :: t) = .ok n ∧
    n ≤ maxVCFrameCount := by
  refine ⟨_, getVCFrameCount_eq a b n₂ n₁ n₀ g t, ?_⟩
  have h₂ := n₂.toNat_lt
  have h₁ := n₁.toNat_lt
  have h₀ := n₀.toNat_lt
  rw [maxVCFrameCount]
  omega

theorem getVCFrameCount_countOctets {n : ℕ} (hn : n ≤ maxVCFrameCount) :
    getVCFrameCount (a :: b :: (countOctets n).1 :: (countOctets n).2.1 :: (countOctets n).2.2
      :: g :: t) = .ok n := by
  rw [maxVCFrameCount] at hn
  rw [getVCFrameCount_eq]
  simp only [countOctets, UInt8.toNat_ofNat']
  apply congrArg Except.ok
  omega

theorem getSignalingField_eq :
    getSignalingField (a :: b :: n₂ :: n₁ :: n₀ :: g :: t) = .ok g := by
  rw [getSignalingField, ptrSignalingField, ptrVCFrameCount, spanGVCIDField, spanVCFrameCountField]
  rfl

/-- Storing the signaling field. -/
theorem storeAt_signaling (x : Octet) :
    storeAt (a :: b :: n₂ :: n₁ :: n₀ :: g :: t) ptrSignalingField [x] =
      .ok (a :: b :: n₂ :: n₁ :: n₀ :: x :: t) := by
  rw [ptrSignalingField, ptrVCFrameCount, spanGVCIDField, spanVCFrameCountField, storeAt,
    if_neg (by simp)]
  simp [overwrite]

theorem setVCFrameCountCycleUsageFlag_eq (f : Bool) :
    setVCFrameCountCycleUsageFlag (a :: b :: n₂ :: n₁ :: n₀ :: g :: t) f =
      .ok (a :: b :: n₂ :: n₁ :: n₀ :: ((g &&& 0xBF) ||| (if f then 0x40 else 0)) :: t) := by
  rw [setVCFrameCountCycleUsageFlag, getSignalingField_eq]
  exact storeAt_signaling a b n₂ n₁ n₀ g t _

/-- The signaling field that a cycle is stored in. -/
def cycleOctet (g : Octet) (c : ℕ) : Octet :=
  (((g &&& 0xBF) ||| (if c ≠ 0 then 0x40 else 0)) &&& 0xF0) ||| (UInt8.ofNat c &&& 0xF)

theorem setVCFrameCountCycle_ok {c : ℕ} (hc : c ≤ maxVCFrameCountCycle) :
    setVCFrameCountCycle (a :: b :: n₂ :: n₁ :: n₀ :: g :: t) c =
      .ok (a :: b :: n₂ :: n₁ :: n₀ :: cycleOctet g c :: t) := by
  rw [setVCFrameCountCycle, if_pos hc, setVCFrameCountCycleUsageFlag_eq]
  simp only [bind, Except.bind, getSignalingField_eq, cycleOctet, decide_eq_true_eq]
  exact storeAt_signaling a b n₂ n₁ n₀ _ t _

theorem setRsvdSpare_eq (x : Octet) :
    setRsvdSpare (a :: b :: n₂ :: n₁ :: n₀ :: g :: t) x =
      .ok (a :: b :: n₂ :: n₁ :: n₀ :: ((g &&& 0xEF) ||| ((x &&& (0x1 : Octet)) <<< (4 : Octet)))
        :: t) := by
  rw [setRsvdSpare, getSignalingField_eq]
  exact storeAt_signaling a b n₂ n₁ n₀ g t _

theorem setReplayFlag_eq (f : Bool) :
    setReplayFlag (a :: b :: n₂ :: n₁ :: n₀ :: g :: t) f =
      .ok (a :: b :: n₂ :: n₁ :: n₀ :: ((g &&& 0x7F) + (if f then 0x80 else 0)) :: t) := by
  rw [setReplayFlag, getSignalingField_eq]
  exact storeAt_signaling a b n₂ n₁ n₀ g t _

theorem getVCFrameCountCycle_eq :
    getVCFrameCountCycle (a :: b :: n₂ :: n₁ :: n₀ :: g :: t) = .ok (g &&& 0xF).toNat := by
  rw [getVCFrameCountCycle, getSignalingField_eq]
  rfl

theorem getVCFrameCountCycleUsageFlag_eq :
    getVCFrameCountCycleUsageFlag (a :: b :: n₂ :: n₁ :: n₀ :: g :: t) =
      .ok (decide ((g &&& (0x40 : Octet)) ≠ 0)) := by
  rw [getVCFrameCountCycleUsageFlag, getSignalingField_eq]
  rfl

end Header

/-! ## The signaling field -/

/-- The octet holds the cycle `c`, with the usage flag set where `c` is not zero. -/
def Signals (g : Octet) (c : ℕ) : Prop := (g &&& 0xF).toNat = c ∧ (g &&& 0x40 ≠ 0 ↔ c ≠ 0)

instance (g : Octet) (c : ℕ) : Decidable (Signals g c) := inferInstanceAs (Decidable (_ ∧ _))

theorem octet_cases {P : Octet → Prop} (h : ∀ x : Fin 256, P (UInt8.ofFin x)) (g : Octet) : P g :=
  h g.toFin

theorem or_and_octet (x y z : Octet) : (x ||| y) &&& z = (x &&& z) ||| (y &&& z) :=
  UInt8.toBitVec_inj.1 BitVec.and_or_distrib_right

theorem cycleOctet_low (g : Octet) (c : ℕ) : cycleOctet g c &&& 0xF = UInt8.ofNat c &&& 0xF := by
  unfold cycleOctet
  rw [or_and_octet, UInt8.and_assoc, UInt8.and_assoc, show (0xF0 : Octet) &&& 0xF = 0 from rfl,
    show (0xF : Octet) &&& 0xF = 0xF from rfl, UInt8.and_zero, UInt8.zero_or]

theorem cycleOctet_flag (g : Octet) (c : ℕ) : cycleOctet g c &&& 0x40 = if c ≠ 0 then 0x40 else 0 := by
  unfold cycleOctet
  rw [or_and_octet, UInt8.and_assoc, UInt8.and_assoc, show (0xF0 : Octet) &&& 0x40 = 0x40 from rfl,
    show (0xF : Octet) &&& 0x40 = 0 from rfl, UInt8.and_zero, UInt8.or_zero, or_and_octet, UInt8.and_assoc,
    show (0xBF : Octet) &&& 0x40 = 0 from rfl, UInt8.and_zero, UInt8.zero_or]
  split <;> rfl

theorem signals_cycleOctet (g : Octet) {c : ℕ} (hc : c ≤ maxVCFrameCountCycle) :
    Signals (cycleOctet g c) c := by
  rw [maxVCFrameCountCycle] at hc
  refine ⟨?_, ?_⟩
  · rw [cycleOctet_low, UInt8.toNat_and, UInt8.toNat_ofNat', show (0xF : Octet).toNat = 2 ^ 4 - 1 from rfl,
      Nat.and_two_pow_sub_one_eq_mod]
    omega
  · rw [cycleOctet_flag]
    by_cases h : c = 0
    · simp [h]
    · simp [h]

/-- The spare bit and the replay flag lie outside the cycle and the usage flag. -/
theorem masks_outside (g : Octet) :
    let s := (g &&& 0xEF) ||| (((0 : Octet) &&& (0x1 : Octet)) <<< (4 : Octet))
    let r := (g &&& 0x7F) + 0
    (s &&& 0xF = g &&& 0xF ∧ s &&& 0x40 = g &&& 0x40) ∧
      r &&& 0xF = g &&& 0xF ∧ r &&& 0x40 = g &&& 0x40 := by
  revert g
  apply octet_cases
  decide +kernel

theorem Signals.congr {g g' : Octet} {c : ℕ} (h : Signals g c)
    (hg : g' &&& 0xF = g &&& 0xF ∧ g' &&& 0x40 = g &&& 0x40) : Signals g' c := by
  rw [Signals, hg.1, hg.2]
  exact h

/-! ## A built frame -/

/-- The frame carries the count `n` and signals the cycle `c`. -/
def Carrying (u : Bytes) (n c : ℕ) : Prop :=
  ∃ a b g t, u = a :: b :: (countOctets n).1 :: (countOctets n).2.1 :: (countOctets n).2.2 :: g :: t ∧
    Signals g c

theorem Carrying.same {u v : Bytes} {n c : ℕ} (h : Carrying u n c) (hv : Same u v) :
    Carrying v n c := by
  obtain ⟨a, b, g, t, rfl, hg⟩ := h
  refine ⟨a, b, g, v.drop 6, ?_, hg⟩
  have h6 := hv.1
  simp only [List.take_succ_cons, List.take_zero] at h6
  rw [← List.take_append_drop 6 v, h6]
  simp

theorem Carrying.getVCFrameCount {u : Bytes} {n c : ℕ} (h : Carrying u n c)
    (hn : n ≤ maxVCFrameCount) : getVCFrameCount u = .ok n := by
  obtain ⟨a, b, g, t, rfl, -⟩ := h
  exact getVCFrameCount_countOctets a b g t hn

theorem Carrying.getVCFrameCountCycle {u : Bytes} {n c : ℕ} (h : Carrying u n c) :
    getVCFrameCountCycle u = .ok c := by
  obtain ⟨a, b, g, t, rfl, hg⟩ := h
  rw [getVCFrameCountCycle_eq, hg.1]

theorem Carrying.getVCFrameCountCycleUsageFlag {u : Bytes} {n c : ℕ} (h : Carrying u n c) :
    getVCFrameCountCycleUsageFlag u = .ok (decide (c ≠ 0)) := by
  obtain ⟨a, b, g, t, rfl, hg⟩ := h
  rw [getVCFrameCountCycleUsageFlag_eq, decide_eq_decide.2 hg.2]

namespace Layout

variable (l : Layout)

theorem initializeFrame_ok {s v m n c : ℕ} (f : Bool) (hs : s ≤ maxSpacecraftID)
    (hv : v ≤ maxVirtualChannelID) (hn : n ≤ maxVCFrameCount) (hc : c ≤ maxVCFrameCountCycle) :
    ∃ u, l.initializeFrame s v m n f c = .ok u ∧ Carrying u n c ∧
      u.length = l.nonDataLength + m + l.inSduLen := by
  have h6 : 6 ≤ (newUnit (l.nonDataLength + m + l.inSduLen)).length := by
    rw [newUnit_length, nonDataLength, headerByteLength, spanRequiredHeader, spanGVCIDField,
      spanSignalingField, spanVCFrameCountField]
    omega
  have hlen := newUnit_length (l.nonDataLength + m + l.inSduLen)
  obtain ⟨a, b, n₂, n₁, n₀, g, t, hu⟩ := exists_header h6
  obtain ⟨a₁, b₁, h₁⟩ := setTFVN_ok a b (n₂ :: n₁ :: n₀ :: g :: t) 1
  obtain ⟨a₂, b₂, h₂⟩ := setSpacecraftID_ok a₁ b₁ (n₂ :: n₁ :: n₀ :: g :: t) hs
  obtain ⟨a₃, b₃, h₃⟩ := setVirtualChannelID_ok a₂ b₂ (n₂ :: n₁ :: n₀ :: g :: t) hv
  set g₁ := (g &&& 0xBF) ||| (if f then (0x40 : Octet) else 0) with hg₁
  set g₂ := (cycleOctet g₁ c &&& 0xEF) ||| (((0 : Octet) &&& (0x1 : Octet)) <<< (4 : Octet)) with hg₂
  refine ⟨a₃ :: b₃ :: (countOctets n).1 :: (countOctets n).2.1 :: (countOctets n).2.2 :: g₂ :: t,
    ?_, ⟨a₃, b₃, g₂, t, rfl, ?_⟩, ?_⟩
  · have hn' : ((n : ℕ) : ℤ) > -1 := by omega
    have hc' : ((c : ℕ) : ℤ) > -1 := by omega
    simp only [initializeFrame, hu, h₁, h₂, h₃, bind, Except.bind, if_pos hn', if_pos hc',
      Int.toNat_natCast, setVCFrameCount_ok a₃ b₃ n₂ n₁ n₀ g t hn,
      setVCFrameCountCycleUsageFlag_eq, ← hg₁, setVCFrameCountCycle_ok _ _ _ _ _ g₁ t hc,
      setRsvdSpare_eq, ← hg₂]
  · exact (signals_cycleOctet g₁ hc).congr (masks_outside _).1
  · rw [← hlen, hu]
    rfl

theorem initializeFrame_big {s v m n c : ℕ} (f : Bool) (hs : s ≤ maxSpacecraftID)
    (hv : v ≤ maxVirtualChannelID) (hn : n ≤ maxVCFrameCount) (hc : maxVCFrameCountCycle < c) :
    l.initializeFrame s v m n f c = .error (.valueTooLarge
      (valueTooLargeMsg "Virtual Frame Count Cycle" c maxVCFrameCountCycle)) := by
  have h6 : 6 ≤ (newUnit (l.nonDataLength + m + l.inSduLen)).length := by
    rw [newUnit_length, nonDataLength, headerByteLength, spanRequiredHeader, spanGVCIDField,
      spanSignalingField, spanVCFrameCountField]
    omega
  obtain ⟨a, b, n₂, n₁, n₀, g, t, hu⟩ := exists_header h6
  obtain ⟨a₁, b₁, h₁⟩ := setTFVN_ok a b (n₂ :: n₁ :: n₀ :: g :: t) 1
  obtain ⟨a₂, b₂, h₂⟩ := setSpacecraftID_ok a₁ b₁ (n₂ :: n₁ :: n₀ :: g :: t) hs
  obtain ⟨a₃, b₃, h₃⟩ := setVirtualChannelID_ok a₂ b₂ (n₂ :: n₁ :: n₀ :: g :: t) hv
  have hn' : ((n : ℕ) : ℤ) > -1 := by omega
  have hc' : ((c : ℕ) : ℤ) > -1 := by omega
  simp only [initializeFrame, hu, h₁, h₂, h₃, bind, Except.bind, if_pos hn', if_pos hc',
    Int.toNat_natCast, setVCFrameCount_ok a₃ b₃ n₂ n₁ n₀ g t hn,
    setVCFrameCountCycleUsageFlag_eq, setVCFrameCountCycle, if_neg (by omega : ¬c ≤ maxVCFrameCountCycle)]

theorem six_le_ptrData : 6 ≤ l.ptrData := by
  rw [ptrData, ptrSignalingField, ptrVCFrameCount, spanGVCIDField, spanVCFrameCountField,
    spanSignalingField]
  omega

/-- Header, data field, operational control and frame error control follow each other. -/
theorem length_parts {u : Bytes} {m : ℕ} (hu : u.length = l.nonDataLength + m + l.inSduLen) :
    l.dataLength u = m ∧ l.ptrData + m +
      (if l.hasOperationalControl then spanOperationalControlField else 0) +
      (if l.hasFrameErrorControl then spanFrameErrorControlField else 0) = u.length := by
  rw [dataLength, hu, ptrData, nonDataLength, headerByteLength, ptrSignalingField, ptrVCFrameCount,
    spanRequiredHeader, spanGVCIDField, spanVCFrameCountField, spanSignalingField]
  omega

/-- In a frame that is as long as its fields, the operational control field is behind the data. -/
theorem ptrOperationalControl_eq {u : Bytes} {m : ℕ} (hu : u.length = l.nonDataLength + m + l.inSduLen)
    (ho : l.hasOperationalControl = true) : l.ptrOperationalControl u = .ok ((l.ptrData + m : ℕ) : ℤ) := by
  unfold ptrOperationalControl
  rw [if_pos ho]
  congr 1
  omega

theorem setReportType_same {u : Bytes} {m r : ℕ} (hr : r = 1 ∨ r = 2)
    (hu : u.length = l.nonDataLength + m + l.inSduLen) (ho : l.hasOperationalControl = true) :
    ∃ v, l.setReportType u r = .ok v ∧ Same u v := by
  obtain ⟨hm, hlen⟩ := l.length_parts hu
  have h6 := l.six_le_ptrData
  rw [if_pos ho, spanOperationalControlField] at hlen
  obtain ⟨b, hb⟩ : ∃ b, u[l.ptrData + m]? = some b :=
    ⟨_, List.getElem?_eq_getElem (by omega)⟩
  rw [setReportType, if_neg (by omega), l.ptrOperationalControl_eq hu ho]
  simp only [octetAtPtr_natCast, storeAtPtr_natCast, octetAt_of_getElem? hb, bind, Except.bind]
  apply storeAt_same (by omega)
  rw [List.length_singleton]
  omega

theorem setData_same {u data : Bytes} (hu : u.length = l.nonDataLength + data.length + l.inSduLen) :
    ∃ v, l.setData u data = .ok v ∧ Same u v := by
  obtain ⟨hm, hlen⟩ := l.length_parts hu
  have h6 := l.six_le_ptrData
  rw [setData, if_pos hm.ge]
  exact copyUnit_same h6 (by omega)

theorem setFrameErrorControl_same {u : Bytes} {m : ℕ} (e : UInt16)
    (hu : u.length = l.nonDataLength + m + l.inSduLen) (he : l.hasFrameErrorControl = true) :
    ∃ v, l.setFrameErrorControl u e = .ok v ∧ Same u v := by
  obtain ⟨hm, hlen⟩ := l.length_parts hu
  have h6 := l.six_le_ptrData
  rw [if_pos he, spanFrameErrorControlField] at hlen
  rw [setFrameErrorControl, he, if_neg (by decide), hm]
  apply storeAt_same (by omega)
  rw [fromU16, List.length_cons, List.length_singleton]
  omega

theorem setReplayFlag_carrying {u : Bytes} {n c : ℕ} (h : Carrying u n c) :
    ∃ v, setReplayFlag u false = .ok v ∧ Carrying v n c ∧ v.length = u.length := by
  obtain ⟨a, b, g, t, rfl, hg⟩ := h
  refine ⟨_, setReplayFlag_eq a b _ _ _ g t false, ⟨a, b, _, t, rfl, ?_⟩, by simp⟩
  exact hg.congr (masks_outside g).2

theorem setReports_carrying {u : Bytes} {m n c r : ℕ} (hr : r = 1 ∨ r = 2)
    (hu : u.length = l.nonDataLength + m + l.inSduLen) (h : Carrying u n c) :
    ∃ v, l.setReports u false r = .ok v ∧ Carrying v n c ∧ v.length = u.length := by
  unfold setReports
  by_cases ho : l.hasOperationalControl = true
  · obtain ⟨u', h', hu', hl'⟩ := setReplayFlag_carrying h
    obtain ⟨v, hv, hs⟩ := l.setReportType_same hr (hl'.trans hu) ho
    refine ⟨v, ?_, hu'.same hs, hs.2.trans hl'⟩
    rw [if_pos ho, h']
    exact hv
  · exact ⟨u, by rw [if_neg ho], h, rfl⟩

/-- **A frame within its limits** is built, and carries its count and its cycle. -/
theorem build_ok {s v n c r : ℕ} (f : Bool) (data : Bytes) (hs : s ≤ maxSpacecraftID)
    (hv : v ≤ maxVirtualChannelID) (hn : n ≤ maxVCFrameCount) (hc : c ≤ maxVCFrameCountCycle)
    (hr : r = 1 ∨ r = 2) :
    ∃ u, l.build s v n false f c r data = .ok u ∧ Carrying u n c := by
  have hn' : Int.bmod (n : ℤ) (2 ^ 32) = n := by
    rw [maxVCFrameCount] at hn
    apply Int.bmod_eq_of_le <;> omega
  have hc' : Int.bmod (c : ℤ) (2 ^ 8) = c := by
    rw [maxVCFrameCountCycle] at hc
    apply Int.bmod_eq_of_le <;> omega
  obtain ⟨u₁, h₁, hu₁, hl₁⟩ := l.initializeFrame_ok (m := data.length) f hs hv hn hc
  obtain ⟨u₂, h₂, hu₂, hl₂⟩ := l.setReports_carrying hr hl₁ hu₁
  obtain ⟨u₃, h₃, hs₃⟩ := l.setData_same (hl₂.trans hl₁)
  by_cases he : l.hasFrameErrorControl = true
  · obtain ⟨u₄, h₄, hs₄⟩ := l.setFrameErrorControl_same (getFrameCRC16 u₃)
      (hs₃.2.trans (hl₂.trans hl₁)) he
    refine ⟨u₄, ?_, (hu₂.same hs₃).same hs₄⟩
    rw [build, hn', hc', h₁]
    simp only [bind, Except.bind, h₂, h₃, if_pos he, h₄]
  · refine ⟨u₃, ?_, hu₂.same hs₃⟩
    rw [build, hn', hc', h₁]
    simp only [bind, Except.bind, h₂, h₃, if_neg he]

/-- A cycle that does not fit its four bits is refused. -/
theorem build_big {s v n c : ℕ} (f : Bool) (r : ℕ) (data : Bytes) (hs : s ≤ maxSpacecraftID)
    (hv : v ≤ maxVirtualChannelID) (hn : n ≤ maxVCFrameCount) (hc : maxVCFrameCountCycle < c)
    (hc' : c < 2 ^ 7) :
    l.build s v n false f c r data = .error (.valueTooLarge
      (valueTooLargeMsg "Virtual Frame Count Cycle" c maxVCFrameCountCycle)) := by
  have hn' : Int.bmod (n : ℤ) (2 ^ 32) = n := by
    rw [maxVCFrameCount] at hn
    apply Int.bmod_eq_of_le <;> omega
  have hb : Int.bmod (c : ℤ) (2 ^ 8) = c := by apply Int.bmod_eq_of_le <;> omega
  rw [build, hn', hb, l.initializeFrame_big f hs hv hn hc]
  rfl

end Layout

/-! ## `incVCFrameCount` -/

/-- Cycle and count in one number. -/
def pairOf (g : Octet) (n : ℕ) : ℕ := (g &&& 0xF).toNat * 2 ^ 24 + n

theorem cycle_le (g : Octet) : (g &&& 0xF).toNat ≤ 15 := by
  revert g
  apply octet_cases
  decide +kernel

section Pair

variable (a b n₂ n₁ n₀ g : Octet) (t : Bytes)

theorem getVCFrameCountPlusCycle_of {n : ℕ}
    (h : getVCFrameCount (a :: b :: n₂ :: n₁ :: n₀ :: g :: t) = .ok n) :
    getVCFrameCountPlusCycle (a :: b :: n₂ :: n₁ :: n₀ :: g :: t) = .ok (pairOf g n) := by
  rw [getVCFrameCountPlusCycle, getVCFrameCountCycle_eq, h]
  simp only [bind, Except.bind, pure, Except.pure, Nat.shiftLeft_eq, pairOf]

/-- Below the greatest count only the count is stepped. -/
theorem incVCFrameCount_count {n : ℕ}
    (h : getVCFrameCount (a :: b :: n₂ :: n₁ :: n₀ :: g :: t) = .ok n) (hn : n < maxVCFrameCount) :
    ∃ u, incVCFrameCount (a :: b :: n₂ :: n₁ :: n₀ :: g :: t) = .ok u ∧
      getVCFrameCountPlusCycle u = .ok (pairOf g (n + 1)) := by
  refine ⟨_, ?_, getVCFrameCountPlusCycle_of a b _ _ _ g t
    (getVCFrameCount_countOctets a b g t (Nat.succ_le_of_lt hn))⟩
  rw [incVCFrameCount, h]
  simp only [bind, Except.bind, if_neg hn.ne]
  exact setVCFrameCount_ok a b n₂ n₁ n₀ g t hn

/-- At the greatest count it flips and the cycle is stepped. -/
theorem incVCFrameCount_cycle
    (h : getVCFrameCount (a :: b :: n₂ :: n₁ :: n₀ :: g :: t) = .ok maxVCFrameCount)
    (hc : (g &&& 0xF).toNat + 1 ≤ maxVCFrameCountCycle) :
    ∃ u, incVCFrameCount (a :: b :: n₂ :: n₁ :: n₀ :: g :: t) = .ok u ∧
      getVCFrameCountPlusCycle u = .ok (((g &&& 0xF).toNat + 1) * 2 ^ 24) := by
  set g' := cycleOctet g ((g &&& 0xF).toNat + 1) with hg'
  have hs : pairOf g' 0 = ((g &&& 0xF).toNat + 1) * 2 ^ 24 := by
    rw [pairOf, hg', (signals_cycleOctet g hc).1, Nat.add_zero]
  refine ⟨a :: b :: (countOctets 0).1 :: (countOctets 0).2.1 :: (countOctets 0).2.2 :: g' :: t, ?_, ?_⟩
  · rw [incVCFrameCount, h]
    simp only [bind, Except.bind, if_true,
      setVCFrameCount_ok a b n₂ n₁ n₀ g t (Nat.zero_le maxVCFrameCount)]
    rw [incVCFrameCountCycle, getVCFrameCountCycle_eq]
    exact setVCFrameCountCycle_ok a b _ _ _ g t hc
  · rw [getVCFrameCountPlusCycle_of a b _ _ _ g' t
      (getVCFrameCount_countOctets a b g' t (Nat.zero_le _)), hs]

/-- At the greatest pair the increment of the cycle is refused. -/
theorem incVCFrameCount_greatest
    (h : getVCFrameCount (a :: b :: n₂ :: n₁ :: n₀ :: g :: t) = .ok maxVCFrameCount)
    (hc : maxVCFrameCountCycle < (g &&& 0xF).toNat + 1) (u : Bytes) :
    incVCFrameCount (a :: b :: n₂ :: n₁ :: n₀ :: g :: t) ≠ .ok u := by
  rw [incVCFrameCount, h]
  simp only [bind, Except.bind, if_true,
    setVCFrameCount_ok a b n₂ n₁ n₀ g t (Nat.zero_le maxVCFrameCount)]
  rw [incVCFrameCountCycle, getVCFrameCountCycle_eq]
  simp only [bind, Except.bind]
  rw [setVCFrameCountCycle, if_neg (by omega)]
  simp

end Pair

/-- The increment of a frame steps its number by one. -/
def Steps (u : Bytes) : Prop :=
  ∃ p u', getVCFrameCountPlusCycle u = .ok p ∧ incVCFrameCount u = .ok u' ∧
    getVCFrameCountPlusCycle u' = .ok ((p + 1) % 2 ^ 28)

/-- **The increment steps the pair of cycle and count by one**, but for the greatest pair. -/
theorem incVCFrameCount_steps_iff {u : Bytes} (hu : 6 ≤ u.length) :
    Steps u ↔ getVCFrameCountPlusCycle u ≠ .ok (2 ^ 28 - 1) := by
  obtain ⟨a, b, n₂, n₁, n₀, g, t, rfl⟩ := exists_header hu
  have hg := cycle_le g
  obtain ⟨n, hn, hle⟩ := getVCFrameCount_le a b n₂ n₁ n₀ g t
  have hp := getVCFrameCountPlusCycle_of a b n₂ n₁ n₀ g t hn
  rcases hle.lt_or_eq with hlt | rfl
  · obtain ⟨u', hu', hp'⟩ := incVCFrameCount_count a b n₂ n₁ n₀ g t hn hlt
    have hne : pairOf g n ≠ 2 ^ 28 - 1 ∧ pairOf g (n + 1) = (pairOf g n + 1) % 2 ^ 28 := by
      rw [maxVCFrameCount] at hlt
      simp only [pairOf]
      omega
    refine ⟨fun _ h => hne.1 (Except.ok.inj (hp.symm.trans h)), fun _ => ⟨_, u', hp, hu', ?_⟩⟩
    rw [hp', hne.2]
  by_cases hc : (g &&& 0xF).toNat + 1 ≤ maxVCFrameCountCycle
  · obtain ⟨u', hu', hp'⟩ := incVCFrameCount_cycle a b n₂ n₁ n₀ g t hn hc
    have hne : pairOf g maxVCFrameCount ≠ 2 ^ 28 - 1 ∧
        ((g &&& 0xF).toNat + 1) * 2 ^ 24 = (pairOf g maxVCFrameCount + 1) % 2 ^ 28 := by
      rw [maxVCFrameCountCycle] at hc
      simp only [pairOf, maxVCFrameCount]
      omega
    refine ⟨fun _ h => hne.1 (Except.ok.inj (hp.symm.trans h)), fun _ => ⟨_, u', hp, hu', ?_⟩⟩
    rw [hp', hne.2]
  · have hthrows := incVCFrameCount_greatest a b n₂ n₁ n₀ g t hn (by omega)
    have hmax : pairOf g maxVCFrameCount = 2 ^ 28 - 1 := by
      rw [maxVCFrameCountCycle] at hc
      simp only [pairOf, maxVCFrameCount]
      omega
    constructor
    · rintro ⟨_, u', -, h, -⟩
      exact absurd h (hthrows u')
    · intro h
      exact absurd (hp.trans (congrArg Except.ok hmax)) h

end ChannelEmulator.AOS
