import Mathlib.Tactic.Ring
import ChannelEmulator.Framing.Run
import ChannelEmulator.Spec.Encapsulation

/-!
# Encapsulation and its inverse

* `encapsulation_returns_iff`: **the payload comes back** just when the packet has a length field,
  its protocol is that of an IPE where it has an IPE value, and an IPv4 datagram has the octet that
  its protocol type is read from.
-/

namespace ChannelEmulator.Encap

/-! ## The header -/

section Header

/-- The values that the setters of a header take. -/
structure HeaderFields.Admitted (f : HeaderFields) : Prop where
  protID_le : f.protID ≤ 7
  newLoL_le : f.newLoL ≤ 3
  UDF_le : f.UDF ≤ 0xF
  protIDExt_le : f.protIDExt ≤ 0xF

/-- The first octet of a packet. -/
def frontOctet (f : HeaderFields) : Octet := UInt8.ofNat (0xE0 + f.protID % 8 * 4 + f.newLoL % 4)

/-- The header of a packet with a Packet Length. -/
def header (f : HeaderFields) (packetLength : ℕ) : Bytes :=
  frontOctet f :: match f.newLoL with
    | 0 => []
    | 1 => [UInt8.ofNat packetLength]
    | 2 => UInt8.ofNat (f.UDF * 16 + f.protIDExt) :: fromU16 packetLength
    | _ => UInt8.ofNat (f.UDF * 16 + f.protIDExt) :: fromU16 f.ccsdsDefinedField ++
        fromU32 packetLength

theorem storeAt_front (a x : Octet) (u : Bytes) : storeAt (a :: u) 0 [x] = .ok (x :: u) :=
  storeAt_append [] [a] [x] u rfl

theorem storeAt_second (a b x : Octet) (u : Bytes) : storeAt (a :: b :: u) 1 [x] = .ok (a :: x :: u) :=
  storeAt_append [a] [b] [x] u rfl

variable {f : HeaderFields}

theorem frontOctet_toNat (hf : f.Admitted) : (frontOctet f).toNat = 0xE0 + f.protID * 4 + f.newLoL := by
  have h₁ := hf.protID_le
  have h₂ := hf.newLoL_le
  rw [frontOctet, UInt8.toNat_ofNat']
  omega

theorem getHeaderOctets_front (hf : f.Admitted) :
    getHeaderOctets (frontOctet f) = getHeaderOctets (UInt8.ofNat f.newLoL) := by
  have h := hf.newLoL_le
  unfold getHeaderOctets
  rw [frontOctet_toNat hf, UInt8.toNat_ofNat', show (0xE0 + f.protID * 4 + f.newLoL) % 4 = f.newLoL by omega,
    show f.newLoL % 2 ^ 8 % 4 = f.newLoL by omega]

theorem lengthOfLength_cases (hf : f.Admitted) :
    f.newLoL = 0 ∨ f.newLoL = 1 ∨ f.newLoL = 2 ∨ f.newLoL = 3 := by
  have h := hf.newLoL_le
  omega

theorem header_length (hf : f.Admitted) (n : ℕ) :
    (header f n).length = getHeaderOctets (frontOctet f) := by
  rw [getHeaderOctets_front hf, header]
  rcases lengthOfLength_cases hf with h | h | h | h <;> rw [h] <;> rfl

/-- The front octet, set over a zero octet. -/
theorem setFront_zero (hf : f.Admitted) (u : Bytes) :
    setPacketVersionNumber (0 :: u) = .ok (0xE0 :: u) ∧
      setProtocolID (0xE0 :: u) f.protID = .ok (UInt8.ofNat (0xE0 + f.protID % 8 * 4) :: u) ∧
      setLengthOfLength (UInt8.ofNat (0xE0 + f.protID % 8 * 4) :: u) f.newLoL =
        .ok (frontOctet f :: u) := by
  have hp := hf.protID_le
  refine ⟨storeAt_front 0 0xE0 u, ?_, ?_⟩
  · rw [setProtocolID, maxProtocolID, if_pos hp]
    exact storeAt_front 0xE0 _ u
  · have hprot : (UInt8.ofNat (0xE0 + f.protID % 8 * 4)).toNat / 4 % 8 = f.protID := by
      rw [UInt8.toNat_ofNat']
      omega
    rw [setLengthOfLength, maxLengthOfLength, if_pos hf.newLoL_le, getProtocolID]
    simp only [octetAt, List.getElem?_cons_zero, bind, Except.bind, pure, Except.pure, hprot]
    exact storeAt_front _ _ u

/-- The second octet, set over a zero octet. -/
theorem setSecond_zero (hf : f.Admitted) (a : Octet) (u : Bytes) :
    setUserDefinedField (a :: 0 :: u) f.UDF = .ok (a :: UInt8.ofNat (f.UDF * 16) :: u) ∧
      setProtocolIDExtension (a :: UInt8.ofNat (f.UDF * 16) :: u) f.protIDExt =
        .ok (a :: UInt8.ofNat (f.UDF * 16 + f.protIDExt) :: u) := by
  have hu := hf.UDF_le
  constructor
  · rw [setUserDefinedField, maxUserDefinedField, if_pos hu]
    exact storeAt_second a 0 _ u
  · have hudf : (UInt8.ofNat (f.UDF * 16)).toNat / 16 * 16 = f.UDF * 16 := by
      rw [UInt8.toNat_ofNat']
      omega
    rw [setProtocolIDExtension, maxProtocolIDExtension, if_pos hf.protIDExt_le]
    simp only [octetAt, List.getElem?_cons_succ, List.getElem?_cons_zero, bind, Except.bind, hudf]
    exact storeAt_second a _ _ u

/-- The fields are set over a zero unit. -/
theorem setHeader_newUnit (hf : f.Admitted) (n : ℕ) :
    setHeader (newUnit (getHeaderOctets (UInt8.ofNat f.newLoL) + n)) f = .ok (header f 0 ++ newUnit n) := by
  have hzeros : ∀ k, newUnit (k + n) = newUnit k ++ newUnit n := fun k => List.replicate_add k n 0
  unfold setHeader header
  rcases lengthOfLength_cases hf with h | h | h | h
  · obtain ⟨h₁, h₂, h₃⟩ := setFront_zero hf (newUnit n)
    rw [h] at h₃
    rw [h, hzeros]
    change ((do
      let u ← setPacketVersionNumber (0 :: newUnit n)
      _) : Except Fault Bytes) = _
    simp only [h₁, h₂, h₃, bind, Except.bind]
    rfl
  · obtain ⟨h₁, h₂, h₃⟩ := setFront_zero hf (0 :: newUnit n)
    rw [h] at h₃
    rw [h, hzeros]
    change ((do
      let u ← setPacketVersionNumber (0 :: 0 :: newUnit n)
      _) : Except Fault Bytes) = _
    simp only [h₁, h₂, h₃, bind, Except.bind]
    rfl
  · obtain ⟨h₁, h₂, h₃⟩ := setFront_zero hf (0 :: 0 :: 0 :: newUnit n)
    obtain ⟨h₄, h₅⟩ := setSecond_zero hf (frontOctet f) (0 :: 0 :: newUnit n)
    rw [h] at h₃
    rw [h, hzeros]
    change ((do
      let u ← setPacketVersionNumber (0 :: 0 :: 0 :: 0 :: newUnit n)
      _) : Except Fault Bytes) = _
    simp only [h₁, h₂, h₃, h₄, h₅, bind, Except.bind, hasUserDefinedField, hasCssdsDefinedField,
      show decide (1 < 2) = true from rfl, show decide (2 = 3) = false from rfl, if_true]
    rfl
  · obtain ⟨h₁, h₂, h₃⟩ := setFront_zero hf (0 :: 0 :: 0 :: 0 :: 0 :: 0 :: 0 :: newUnit n)
    obtain ⟨h₄, h₅⟩ := setSecond_zero hf (frontOctet f) (0 :: 0 :: 0 :: 0 :: 0 :: 0 :: newUnit n)
    have h₆ : setCssdsDefinedField (frontOctet f :: UInt8.ofNat (f.UDF * 16 + f.protIDExt) :: 0 :: 0 ::
        0 :: 0 :: 0 :: 0 :: newUnit n) f.ccsdsDefinedField =
        .ok (frontOctet f :: UInt8.ofNat (f.UDF * 16 + f.protIDExt) ::
          (fromU16 f.ccsdsDefinedField ++ 0 :: 0 :: 0 :: 0 :: newUnit n)) :=
      storeAt_append [_, _] [0, 0] (fromU16 f.ccsdsDefinedField) (0 :: 0 :: 0 :: 0 :: newUnit n) rfl
    rw [h] at h₃
    rw [h, hzeros]
    change ((do
      let u ← setPacketVersionNumber (0 :: 0 :: 0 :: 0 :: 0 :: 0 :: 0 :: 0 :: newUnit n)
      _) : Except Fault Bytes) = _
    simp only [h₁, h₂, h₃, h₄, h₅, h₆, bind, Except.bind, hasUserDefinedField, hasCssdsDefinedField,
      show decide (1 < 3) = true from rfl, if_true]
    rfl

/-- The octets that a Packet Length can tell. -/
def maxPacketLength (lengthOfLength : ℕ) : ℕ :=
  match lengthOfLength with
  | 0 => 0
  | 1 => 0xFF
  | 2 => 0xFFFF
  | _ => 0xFFFFFFFF

/-- Thirty-two bits are read back as they were written. -/
theorem toU32_fromU32 (t : Bytes) {v : ℕ} (hv : v < 2 ^ 32) : toU32 (fromU32 v ++ t) = .ok v := by
  have h₁ : (UInt8.ofNat (v / 2 ^ 24)).toNat = v / 2 ^ 24 % 256 := UInt8.toNat_ofNat'
  have h₂ : (UInt8.ofNat (v / 2 ^ 16)).toNat = v / 2 ^ 16 % 256 := UInt8.toNat_ofNat'
  have h₃ : (UInt8.ofNat (v / 2 ^ 8)).toNat = v / 2 ^ 8 % 256 := UInt8.toNat_ofNat'
  have h₄ : (UInt8.ofNat v).toNat = v % 256 := UInt8.toNat_ofNat'
  simp only [fromU32, toU32, List.cons_append, h₁, h₂, h₃, h₄]
  congr 1
  omega

theorem maxPacketLength_lt (lengthOfLength : ℕ) : maxPacketLength lengthOfLength < 2 ^ 32 := by
  unfold maxPacketLength
  split <;> decide

theorem getLengthOfLength_header (hf : f.Admitted) (n : ℕ) (v : Bytes) :
    getLengthOfLength (header f n ++ v) = .ok f.newLoL := by
  have h := frontOctet_toNat hf
  have hl := hf.newLoL_le
  rw [getLengthOfLength, header, List.cons_append, octetAt, List.getElem?_cons_zero]
  simp only [bind, Except.bind, pure, Except.pure, h]
  congr 1
  omega

theorem getProtocolID_header (hf : f.Admitted) (n : ℕ) (v : Bytes) :
    getProtocolID (header f n ++ v) = .ok f.protID := by
  have h := frontOctet_toNat hf
  have hl := hf.newLoL_le
  have hp := hf.protID_le
  rw [getProtocolID, header, List.cons_append, octetAt, List.getElem?_cons_zero]
  simp only [bind, Except.bind, pure, Except.pure, h]
  congr 1
  omega

/-- The Packet Length, set over zeros and read back. -/
theorem packetLength_header (hf : f.Admitted) (h0 : f.newLoL ≠ 0) {n : ℕ}
    (hn : n ≤ maxPacketLength f.newLoL) (v : Bytes) :
    setPacketLength (header f 0 ++ v) n = .ok (header f n ++ v) ∧
      getPacketLength (header f n ++ v) = .ok n := by
  have hlol := getLengthOfLength_header hf 0 v
  have hmod : (frontOctet f).toNat % 4 = f.newLoL := by
    have h := hf.newLoL_le
    rw [frontOctet_toNat hf]
    omega
  unfold setPacketLength getPacketLength
  rw [hlol]
  simp only [bind, Except.bind]
  rcases lengthOfLength_cases hf with h | h | h | h
  · exact absurd h h0
  · rw [h] at hn hmod
    simp only [h, header, List.cons_append, List.nil_append, octetAt, List.getElem?_cons_zero, hmod]
    have hn' : n ≤ 0xFF := hn
    rw [if_pos hn']
    refine ⟨storeAt_second _ _ _ v, ?_⟩
    simp only [List.getElem?_cons_succ, List.getElem?_cons_zero, pure, Except.pure]
    rw [UInt8.toNat_ofNat', Nat.mod_eq_of_lt (by omega)]
  · rw [h] at hn hmod
    simp only [h, header, List.cons_append, octetAt, List.getElem?_cons_zero, hmod]
    have hn' : n ≤ 0xFFFF := hn
    rw [if_pos hn']
    exact ⟨storeAt_append [_, _] (fromU16 0) (fromU16 n) v rfl, toU16_fromU16 v (by omega)⟩
  · rw [h] at hn hmod
    simp only [h, header, List.cons_append, octetAt, List.getElem?_cons_zero, hmod]
    have hn' : n ≤ 0xFFFFFFFF := hn
    rw [List.append_assoc]
    refine ⟨?_, toU32_fromU32 v (by omega)⟩
    have hst := storeAt_append (frontOctet f :: UInt8.ofNat (f.UDF * 16 + f.protIDExt) ::
      fromU16 f.ccsdsDefinedField) (fromU32 0) (fromU32 n) v rfl
    simp only [List.cons_append, List.append_assoc] at hst ⊢
    exact hst

end Header

/-! ## The octets of an IPE -/

section Shim

/-- Octets of which the last one, and no other, has its low bit set. -/
def Shim (o : Bytes) : Prop :=
  ∃ init last, o = init ++ [last] ∧ (∀ b ∈ init, b.toNat % 2 = 0) ∧ last.toNat % 2 = 1

/-- The value of octets, the most significant first. -/
def valueOf (o : Bytes) : ℕ := o.foldl (fun n b => n * 256 + b.toNat) 0

theorem valueOf_append (o : Bytes) (b : Octet) : valueOf (o ++ [b]) = valueOf o * 256 + b.toNat := by
  simp [valueOf]

theorem ipeOctets_value : ∀ k n : ℕ, n < 256 ^ k → valueOf (ipeOctets k n) = n := by
  intro k
  induction k with
  | zero => intro n hn; rw [ipeOctets]; simp at hn; rw [hn]; rfl
  | succ k ih =>
    intro n hn
    rw [ipeOctets]
    split
    · rename_i h
      rw [h]
      rfl
    · rw [valueOf_append, ih (n / 256) (by rw [Nat.pow_succ] at hn; omega), UInt8.toNat_ofNat']
      omega

theorem ipeOctets_length : ∀ k n : ℕ, 0 < n → n < 256 ^ (k + 1) →
    (ipeOctets (k + 1) n).length = countOctets k n := by
  intro k
  induction k with
  | zero =>
    intro n h0 hn
    rw [ipeOctets, if_neg (by omega), ipeOctets, countOctets]
    rfl
  | succ k ih =>
    intro n h0 hn
    rw [ipeOctets, if_neg (by omega), countOctets, List.length_append, List.length_singleton]
    split
    · rename_i h
      rw [h, ipeOctets, if_pos rfl]
      rfl
    · rw [ih (n / 256) (by omega) (by rw [Nat.pow_succ] at hn; omega)]

/-- The low bits of the octets of a proper IPE. -/
theorem properIPE_bits {n : ℕ} (h : properIPE n = true) {i : ℕ} (hi : i < 8) :
    n / 256 ^ i % 2 = if i = 0 then 1 else 0 := by
  have hmask : n &&& 0x0101010101010101 = 1 := of_decide_eq_true h
  have hbit := congrArg (fun m => Nat.testBit m (8 * i)) hmask
  have hall : ∀ j < 8, Nat.testBit 0x0101010101010101 (8 * j) = true ∧
      Nat.testBit 1 (8 * j) = decide (j = 0) := by decide
  simp only [Nat.testBit_and, (hall i hi).1, (hall i hi).2, Bool.and_true] at hbit
  rw [Nat.testBit_eq_decide_div_mod_eq, Nat.pow_mul, show (2 : ℕ) ^ 8 = 256 from rfl,
    decide_eq_decide] at hbit
  split
  · rename_i h0
    exact hbit.2 h0
  · rename_i h0
    have := mt hbit.1 h0
    omega

theorem ipeOctets_even : ∀ k n : ℕ, (∀ i < k, n / 256 ^ i % 2 = 0) →
    ∀ b ∈ ipeOctets k n, b.toNat % 2 = 0 := by
  intro k
  induction k with
  | zero => intro n _ b hb; cases hb
  | succ k ih =>
    intro n hn b hb
    rw [ipeOctets] at hb
    split at hb
    · cases hb
    · rcases List.mem_append.1 hb with hb | hb
      · refine ih (n / 256) (fun i hi => ?_) b hb
        have h := hn (i + 1) (by omega)
        rwa [Nat.pow_succ, Nat.mul_comm, ← Nat.div_div_eq_div_mul] at h
      · obtain rfl := List.mem_singleton.1 hb
        have h := hn 0 (by omega)
        rw [UInt8.toNat_ofNat']
        simp only [Nat.pow_zero, Nat.div_one] at h
        omega

/-- A proper IPE is stored as a shim. -/
theorem ipeOctets_shim {n : ℕ} (h : properIPE n = true) : Shim (ipeOctets 8 n) := by
  have h0 := properIPE_bits h (show 0 < 8 by omega)
  simp only [Nat.pow_zero, Nat.div_one, if_true] at h0
  refine ⟨ipeOctets 7 (n / 256), UInt8.ofNat n, ?_, ?_, ?_⟩
  · rw [ipeOctets, if_neg (by omega)]
  · apply ipeOctets_even
    intro i hi
    have hb := properIPE_bits h (show i + 1 < 8 by omega)
    rwa [if_neg (by omega), Nat.pow_succ, Nat.mul_comm, ← Nat.div_div_eq_div_mul] at hb
  · rw [UInt8.toNat_ofNat']
    omega

theorem ipeOctets_length_le (k n : ℕ) : (ipeOctets k n).length ≤ k := by
  induction k generalizing n with
  | zero => exact Nat.le_refl 0
  | succ k ih =>
    unfold ipeOctets
    split
    · exact Nat.zero_le _
    · rw [List.length_append, List.length_singleton]
      exact Nat.succ_le_succ (ih _)

/-- A shim inside the unit is counted. -/
theorem countLoop_shim {o : Bytes} (h : Shim o) (v : Bytes) (m n : ℕ) : ∀ c : ℕ,
    m + c + o.length ≤ n → c + o.length ≤ 65535 → countLoop m n c (o ++ v) = .ok (c + o.length) := by
  obtain ⟨init, last, rfl, heven, hodd⟩ := h
  induction init with
  | nil =>
    intro c _ hshort
    simp only [List.nil_append, List.length_singleton] at hshort
    rw [List.nil_append, List.singleton_append, countLoop, if_pos hodd, List.length_singleton,
      Nat.mod_eq_of_lt (by omega)]
  | cons b init ih =>
    intro c hc hshort
    have hb := heven b List.mem_cons_self
    simp only [List.cons_append, List.length_cons, List.length_append, List.length_nil] at hc hshort ih ⊢
    rw [countLoop, if_neg (by omega), if_neg (by omega), if_neg (by omega),
      ih (fun x hx => heven x (List.mem_cons_of_mem b hx)) (c + 1) (by omega) (by omega)]
    congr 1
    omega

/-- Zeros are counted past the end of the unit, or without end. -/
theorem countLoop_zeros (m n k : ℕ) : ∀ c : ℕ, m + c + k ≤ n →
    ∃ e, countLoop m n c (newUnit k) = .error e := by
  induction k with
  | zero => exact fun c _ => ⟨_, rfl⟩
  | succ k ih =>
    intro c hc
    rw [newUnit, List.replicate_succ, countLoop, if_neg (by decide), if_neg (by omega)]
    by_cases hlast : c = 65535
    · exact ⟨_, if_pos hlast⟩
    · rw [if_neg hlast]
      exact ih (c + 1) (by omega)

/-- A shim is read as its value. -/
theorem ipeLoop_shim {o : Bytes} (h : Shim o) (v : Bytes) (m n : ℕ) : ∀ idx agg : ℕ,
    m + idx + o.length ≤ n → idx + o.length ≤ 32767 → agg * 256 ^ (o.length - 1) + valueOf o < 2 ^ 64 →
    ipeLoop m n idx agg (o ++ v) = .ok (agg * 256 ^ (o.length - 1) + valueOf o) := by
  obtain ⟨init, last, rfl, heven, hodd⟩ := h
  have hval : ∀ (o : Bytes) (a : ℕ), o.foldl (fun n b => n * 256 + b.toNat) a =
      a * 256 ^ o.length + valueOf o := by
    intro o
    induction o with
    | nil => intro a; simp [valueOf]
    | cons b o ih =>
      intro a
      have h₁ := ih (a * 256 + b.toNat)
      have h₂ := ih b.toNat
      rw [valueOf, List.foldl_cons, List.foldl_cons, h₁, Nat.zero_mul, Nat.zero_add, h₂,
        List.length_cons, Nat.pow_succ]
      ring
  induction init with
  | nil =>
    intro idx agg _ _ _
    rw [List.nil_append, List.singleton_append, ipeLoop, if_pos hodd]
    simp [valueOf]
  | cons b init ih =>
    intro idx agg hn hshort hlt
    have hb := heven b List.mem_cons_self
    have hcons : valueOf (b :: (init ++ [last])) =
        b.toNat * 256 ^ (init ++ [last]).length + valueOf (init ++ [last]) := by
      rw [valueOf, List.foldl_cons, hval]
      simp
    simp only [List.cons_append, List.length_cons, List.length_append, List.length_nil,
      Nat.add_sub_cancel, Nat.zero_add, hcons] at hn hshort hlt ih ⊢
    have hsum : (agg + b.toNat) * 256 * 256 ^ init.length + valueOf (init ++ [last]) =
        agg * 256 ^ (init.length + 1) + (b.toNat * 256 ^ (init.length + 1) + valueOf (init ++ [last])) := by
      rw [Nat.pow_succ]
      ring
    have hone : 1 ≤ 256 ^ init.length := Nat.one_le_pow _ _ (by decide)
    have hsmall : (agg + b.toNat) * 256 < 2 ^ 64 := by
      have := Nat.le_mul_of_pos_right ((agg + b.toNat) * 256) hone
      omega
    rw [ipeLoop, if_neg (by omega), if_neg (by omega), if_neg (by omega), Nat.mod_eq_of_lt hsmall,
      ih (fun x hx => heven x (List.mem_cons_of_mem b hx)) (idx + 1) _ (by omega) (by omega) (by omega), hsum]

end Shim

/-! ## The packet built -/

section Build

variable {f : HeaderFields} {k : PacketClass}

theorem hasIPE_header (hf : f.Admitted) (n : ℕ) (v : Bytes) :
    hasIPE k (header f n ++ v) = .ok (decide (k = .withIPE ∧ f.protID = internetProtocolExtension)) := by
  cases k with
  | preIPE => rfl
  | withIPE =>
    rw [hasIPE, getProtocolID_header hf]
    simp [bind, Except.bind, pure, Except.pure]

theorem drop_header (hf : f.Admitted) (n : ℕ) (v : Bytes) :
    (header f n ++ v).drop (getHeaderOctets (frontOctet f)) = v := by
  rw [← header_length hf n, List.drop_left]

theorem octetAt_header (n : ℕ) (v : Bytes) : octetAt (header f n ++ v) 0 = .ok (frontOctet f) := rfl

theorem countIPEOctets_header (hf : f.Admitted) (n : ℕ) (v : Bytes) :
    countIPEOctets k (header f n ++ v) =
      if k = .withIPE ∧ f.protID = internetProtocolExtension then
        countLoop (getHeaderOctets (frontOctet f)) (header f n ++ v).length 0 v
      else .ok 0 := by
  rw [countIPEOctets, hasIPE_header hf]
  simp only [bind, Except.bind, octetAt_header, drop_header hf, decide_eq_true_eq, pure, Except.pure]

/-- The octets behind the header: `m` octets of the IPE, and the data field. -/
structure Parted (k : PacketClass) (f : HeaderFields) (n m : ℕ) (v : Bytes) : Prop where
  counted : countIPEOctets k (header f n ++ v) = .ok m
  le_length : m ≤ v.length
  length_lt : (header f n ++ v).length < 2 ^ 64

theorem Parted.getDataLength {n m : ℕ} {v : Bytes} (hf : f.Admitted) (h : Parted k f n m v) :
    getDataLength k (header f n ++ v) = .ok (v.length - m) := by
  have hle := h.le_length
  have hlt := h.length_lt
  rw [List.length_append, header_length hf] at hlt
  rw [Encap.getDataLength, h.counted]
  simp only [bind, Except.bind, octetAt_header, pure, Except.pure, List.length_append,
    header_length hf]
  congr 1
  omega

theorem Parted.ptrData {n m : ℕ} {v : Bytes} (hf : f.Admitted) (h0 : f.newLoL ≠ 0)
    (h : Parted k f n m v) :
    ptrData k (header f n ++ v) = .ok (getHeaderOctets (frontOctet f) + m) := by
  have hl := hf.newLoL_le
  have hmod : (frontOctet f).toNat % 4 = f.newLoL := by
    rw [frontOctet_toNat hf]
    omega
  rw [Encap.ptrData, h.counted]
  simp only [bind, Except.bind, octetAt_header, hmod, hasData, Nat.pos_of_ne_zero h0, decide_true,
    if_true, pure, Except.pure]

/-- Data over the zeros behind the IPE. -/
theorem Parted.setData {n m r : ℕ} {o d : Bytes} (hf : f.Admitted) (h0 : f.newLoL ≠ 0)
    (h : Parted k f n m (o ++ newUnit r)) (ho : o.length = m) (hd : d.length ≤ r) :
    setData k (header f n ++ (o ++ newUnit r)) d =
      .ok (header f n ++ (o ++ (d ++ newUnit (r - d.length)))) := by
  have hr : (o ++ newUnit r).length - m = r := by
    rw [List.length_append, newUnit_length]
    omega
  have hzeros := overwrite_zeros (header f n ++ o) d (n := r)
  rw [Encap.setData, h.getDataLength hf, h.ptrData hf h0]
  simp only [bind, Except.bind, hr, hd, if_true]
  rw [copyUnit_ok (by
    rw [List.length_append, List.length_append, newUnit_length, header_length hf]
    omega), ← ho, ← header_length hf n, ← List.length_append, ← List.append_assoc, hzeros]
  simp only [List.append_assoc]

theorem Parted.wrapInnerPDU {n m : ℕ} {o d : Bytes} (hf : f.Admitted) (h0 : f.newLoL ≠ 0)
    (h : Parted k f n m (o ++ d)) (ho : o.length = m) :
    wrapInnerPDU k (header f n ++ (o ++ d)) = .ok d := by
  have hr : (o ++ d).length - m = d.length := by
    rw [List.length_append]
    omega
  have hdrop : (header f n ++ (o ++ d)).drop (getHeaderOctets (frontOctet f) + m) = d := by
    rw [← List.drop_drop, drop_header hf, ← ho, List.drop_left]
  rw [Encap.wrapInnerPDU, h.getDataLength hf, h.ptrData hf h0]
  simp only [bind, Except.bind, hr]
  rw [if_neg (by
    rw [List.length_append, List.length_append, header_length hf]
    omega), hdrop, List.take_length]
  rfl

/-- A packet without a place for an IPE. -/
theorem parted_plain (hf : f.Admitted) (n : ℕ) {v : Bytes}
    (hno : ¬(k = .withIPE ∧ f.protID = internetProtocolExtension))
    (hlt : (header f n ++ v).length < 2 ^ 64) : Parted k f n 0 v where
  counted := by rw [countIPEOctets_header hf, if_neg hno]
  le_length := Nat.zero_le _
  length_lt := hlt

/-- A packet with an IPE. -/
theorem parted_shim (hf : f.Admitted) (n : ℕ) {o d : Bytes}
    (hyes : k = .withIPE ∧ f.protID = internetProtocolExtension) (ho : Shim o) (ho8 : o.length ≤ 8)
    (hlt : (header f n ++ (o ++ d)).length < 2 ^ 64) : Parted k f n o.length (o ++ d) where
  counted := by
    rw [countIPEOctets_header hf, if_pos hyes, countLoop_shim ho _ _ _ 0 (by
      rw [List.length_append, List.length_append, header_length hf]
      omega) (by omega), Nat.zero_add]
  le_length := by rw [List.length_append]; omega
  length_lt := hlt

/-- The octets that are kept for an IPE value. -/
def ipeLen (ipe : ℕ) : ℕ := if 0 < ipe then calcIPEOctets ipe else 0

/-- The length of the packet for some data. -/
def packetLen (f : HeaderFields) (data : Bytes) (ipe : ℕ) : ℕ :=
  getHeaderOctets (UInt8.ofNat f.newLoL) + ipeLen ipe + data.length

theorem header_append_length (hf : f.Admitted) (data : Bytes) (ipe n : ℕ) (w : Bytes)
    (hw : w.length = ipeLen ipe + data.length) :
    (header f n ++ w).length = packetLen f data ipe := by
  rw [List.length_append, header_length hf, getHeaderOctets_front hf, packetLen, hw]
  omega

theorem ipeOctets_ipeLen {ipe : ℕ} (h : properIPE ipe = true) (hlt : ipe < 2 ^ 64) :
    (ipeOctets 8 ipe).length = ipeLen ipe := by
  have hpos : 0 < ipe := by
    rcases Nat.eq_zero_or_pos ipe with rfl | h'
    · cases h
    · exact h'
  rw [ipeLen, if_pos hpos, calcIPEOctets]
  exact ipeOctets_length 7 ipe hpos (by omega)

/-- The header and the zeros that the rest is set over. -/
theorem build_eq (hf : f.Admitted) (data : Bytes) (ipe : ℕ) :
    build k f data ipe = (do
      let u ← buildIPE k (header f 0 ++ newUnit (ipeLen ipe + data.length)) ipe
      let u ← if hasData f.newLoL then setData k u data else pure u
      if hasPacketLength f.newLoL then setPacketLength u (u.length % 2 ^ 32) else pure u) := by
  have h := setHeader_newUnit hf (ipeLen ipe + data.length)
  rw [← Nat.add_assoc, ipeLen] at h
  unfold build
  simp only [h, bind, Except.bind, ipeLen]

/-- What is set of a length, once the data are. -/
theorem setPacketLength_built (hf : f.Admitted) (h0 : f.newLoL ≠ 0) {n : ℕ} {v : Bytes}
    (hn : n ≤ maxPacketLength f.newLoL) (hv : (header f 0 ++ v).length = n) :
    setPacketLength (header f 0 ++ v) ((header f 0 ++ v).length % 2 ^ 32) = .ok (header f n ++ v) := by
  have hmax := maxPacketLength_lt f.newLoL
  rw [hv, Nat.mod_eq_of_lt (by omega)]
  exact (packetLength_header hf h0 hn v).1

section Fits

variable {data : Bytes} {ipe : ℕ}

/-- With no place for an IPE, the octets kept for a value are left zero behind the data. -/
theorem build_plain (hf : f.Admitted) (h0 : f.newLoL ≠ 0)
    (hno : ¬(k = .withIPE ∧ f.protID = internetProtocolExtension))
    (hfit : packetLen f data ipe ≤ maxPacketLength f.newLoL) :
    build k f data ipe =
      .ok (header f (packetLen f data ipe) ++ (data ++ newUnit (ipeLen ipe))) := by
  have hmax := maxPacketLength_lt f.newLoL
  have hlen := header_append_length hf data ipe
  have hzeros := hlen 0 (newUnit (ipeLen ipe + data.length)) (newUnit_length _)
  have hparted := parted_plain hf 0 (v := newUnit (ipeLen ipe + data.length)) hno (by omega)
  have hset := hparted.setData (o := []) (d := data) hf h0 rfl (by omega)
  rw [List.nil_append, List.nil_append, Nat.add_sub_cancel] at hset
  have hlength := setPacketLength_built hf h0 hfit (hlen 0 (data ++ newUnit (ipeLen ipe)) (by
    rw [List.length_append, newUnit_length]
    omega))
  have hpos := Nat.pos_of_ne_zero h0
  rw [build_eq hf, buildIPE, hasIPE_header hf]
  simp only [bind, Except.bind, hno, decide_false, Bool.false_and, Bool.false_eq_true, if_false,
    pure, Except.pure, hasData, hasPacketLength, hpos, decide_true, if_true, hset, hlength]

/-- With a place for an IPE and a value, the data are behind it. -/
theorem build_shim (hf : f.Admitted) (h0 : f.newLoL ≠ 0)
    (hyes : k = .withIPE ∧ f.protID = internetProtocolExtension) (hipe : properIPE ipe = true)
    (hlt : ipe < 2 ^ 64) (hfit : packetLen f data ipe ≤ maxPacketLength f.newLoL) :
    build k f data ipe =
      .ok (header f (packetLen f data ipe) ++ (ipeOctets 8 ipe ++ data)) := by
  have hmax := maxPacketLength_lt f.newLoL
  have ho := ipeOctets_ipeLen hipe hlt
  have hpos : 0 < ipe := by
    rcases Nat.eq_zero_or_pos ipe with rfl | h'
    · cases hipe
    · exact h'
  have hlen := header_append_length hf data ipe
  have hzeros := hlen 0 (newUnit (ipeLen ipe + data.length)) (newUnit_length _)
  have hfilled := hlen 0 (ipeOctets 8 ipe ++ newUnit data.length) (by
    rw [List.length_append, newUnit_length, ho])
  have hset : setIPE (header f 0 ++ newUnit (ipeLen ipe + data.length)) ipe =
      .ok (header f 0 ++ (ipeOctets 8 ipe ++ newUnit data.length)) := by
    have h := overwrite_zeros (header f 0) (ipeOctets 8 ipe) (n := ipeLen ipe + data.length)
    rw [setIPE, hipe]
    simp only [Bool.not_true, Bool.false_eq_true, if_false, bind, Except.bind, octetAt_header]
    rw [copyUnit_ok (by
      rw [List.length_append, newUnit_length, header_length hf]
      omega), ← header_length hf 0, h, ho, Nat.add_sub_cancel_left, List.append_assoc]
  have hparted := parted_shim hf 0 (d := newUnit data.length) hyes (ipeOctets_shim hipe)
    (ipeOctets_length_le 8 ipe) (by omega)
  have hdata := hparted.setData (d := data) hf h0 rfl le_rfl
  rw [Nat.sub_self] at hdata
  have hnil : data ++ newUnit 0 = data := List.append_nil data
  rw [hnil] at hdata
  have hlength := setPacketLength_built hf h0 hfit (hlen 0 (ipeOctets 8 ipe ++ data) (by
    rw [List.length_append, ho]))
  have hpos' := Nat.pos_of_ne_zero h0
  rw [build_eq hf, buildIPE, hasIPE_header hf, decide_eq_true hyes]
  simp only [bind, Except.bind, decide_true, Bool.and_self, hpos, hset, if_true, hasData,
    hasPacketLength, hpos', hdata, hlength]

/-- With a place for an IPE and no value, the octets are searched past the end of the packet. -/
theorem build_missing (hf : f.Admitted) (h0 : f.newLoL ≠ 0)
    (hyes : k = .withIPE ∧ f.protID = internetProtocolExtension) :
    ∃ e, build k f data 0 = .error e := by
  have hcount : ∃ e, countIPEOctets k (header f 0 ++ newUnit (ipeLen 0 + data.length)) = .error e := by
    rw [countIPEOctets_header hf, if_pos hyes]
    apply countLoop_zeros
    rw [List.length_append, newUnit_length, header_length hf]
    omega
  obtain ⟨e, hcount⟩ := hcount
  have hpos := Nat.pos_of_ne_zero h0
  refine ⟨e, ?_⟩
  rw [build_eq hf, buildIPE, hasIPE_header hf]
  simp only [bind, Except.bind, Nat.lt_irrefl, decide_false, Bool.and_false, Bool.false_eq_true,
    if_false, pure, Except.pure, hasData, hpos, decide_true, if_true, setData, getDataLength,
    octetAt_header, hcount]

end Fits

end Build

/-! ## The packet taken apart -/

section Remove

variable {f : HeaderFields} {k : PacketClass}

/-- The class that a setting of IPE support goes with. -/
def classOf (ipeSupport : Bool) : PacketClass := if ipeSupport then .withIPE else .preIPE

/-- A packet is accepted whose Packet Length is right. -/
theorem remove_header (hf : f.Admitted) (h0 : f.newLoL ≠ 0) {n : ℕ} {v : Bytes}
    (hn : n ≤ maxPacketLength f.newLoL) (hv : (header f n ++ v).length = n) {ipeSupport : Bool}
    (hk : k = classOf ipeSupport) :
    remove ipeSupport ⟨k, header f n ++ v⟩ = (do
      let data ← removeHeader ⟨k, header f n ++ v⟩ f.newLoL
      return some data) := by
  have hlength := (packetLength_header hf h0 hn v).2
  have hpos := Nat.pos_of_ne_zero h0
  rw [remove, if_neg (fun h => h hk), getLengthOfLength_header hf]
  simp only [bind, Except.bind, hasPacketLength, hpos, decide_true, if_true, hlength]
  rw [if_neg (fun h => h hv)]

/-- The data come out, where octet 9 of an IPv4 datagram is there. -/
theorem removeHeader_eq (h0 : f.newLoL ≠ 0) {u d : Bytes} {isIPv4 : Bool}
    (hw : wrapInnerPDU k u = .ok d) (hc : carriesIPv4 ⟨k, u⟩ = .ok isIPv4) :
    (∃ type, removeHeader ⟨k, u⟩ f.newLoL = .ok ⟨type, d⟩) ↔ (isIPv4 = true → 10 ≤ d.length) := by
  have hpos := Nat.pos_of_ne_zero h0
  rw [removeHeader, hc]
  simp only [bind, Except.bind, hw]
  cases isIPv4 with
  | false =>
    simp only [Bool.false_eq_true, if_false, hasData, hpos, decide_true, if_true]
    exact ⟨fun _ h => absurd h (by decide), fun _ => ⟨_, rfl⟩⟩
  | true =>
    simp only [if_true, true_implies]
    by_cases hlen : 10 ≤ d.length
    · obtain ⟨b, hb⟩ : ∃ b, octetAt d 9 = .ok b :=
        ⟨_, octetAt_of_getElem? (List.getElem?_eq_getElem (by omega : 9 < d.length))⟩
      simp only [hb]
      refine ⟨fun _ => hlen, fun _ => ?_⟩
      by_cases hudp : b = protocolTypeUDP
      · exact ⟨.ipv4UdpDatagram, by rw [if_pos hudp]; rfl⟩
      · exact ⟨.ipv4Packet, by rw [if_neg hudp]; rfl⟩
    · have hb : octetAt d 9 = .error .outOfBounds := by
        rw [octetAt, List.getElem?_eq_none (by omega)]
      rw [hb]
      refine ⟨fun h => ?_, fun h => absurd h hlen⟩
      obtain ⟨type, h⟩ := h
      cases h

theorem removeHeader_octets {u d : Bytes} (hw : wrapInnerPDU k u = .ok d) {lengthOfLength : ℕ}
    {data : Data} (h : removeHeader ⟨k, u⟩ lengthOfLength = .ok data) : data.octets = d := by
  rw [removeHeader] at h
  obtain ⟨isIPv4, -, h⟩ := Framing.bind_ok h
  simp only [hw] at h
  split at h
  · obtain ⟨d', hd, h⟩ := Framing.bind_ok h
    obtain rfl := Except.ok.inj hd
    obtain ⟨b, -, h⟩ := Framing.bind_ok h
    split at h
    · obtain ⟨d', hd, h⟩ := Framing.bind_ok h
      obtain rfl := Except.ok.inj hd
      rw [← Except.ok.inj h]
    · rw [← Except.ok.inj h]
  · split at h
    · obtain ⟨d', hd, h⟩ := Framing.bind_ok h
      obtain rfl := Except.ok.inj hd
      rw [← Except.ok.inj h]
    · cases h

theorem carriesIPv4_plain (hf : f.Admitted) (n : ℕ) (v : Bytes)
    (hno : ¬(k = .withIPE ∧ f.protID = internetProtocolExtension)) :
    carriesIPv4 ⟨k, header f n ++ v⟩ = .ok (decide (k = .preIPE ∧ f.protID = protocolIPv4)) := by
  unfold carriesIPv4
  cases k with
  | withIPE =>
    have hne : ¬f.protID = internetProtocolExtension := fun h => hno ⟨rfl, h⟩
    simp only [hasIPE_header hf, hne, and_false, decide_false, bind, Except.bind,
      Bool.false_eq_true, if_false, pure, Except.pure]
    rfl
  | preIPE =>
    simp only [getProtocolID_header hf, bind, Except.bind, pure, Except.pure, true_and]

theorem carriesIPv4_shim (hf : f.Admitted) (n : ℕ) (d : Bytes) {ipe : ℕ}
    (hp : f.protID = internetProtocolExtension) (hipe : properIPE ipe = true) (hlt : ipe < 2 ^ 64) :
    carriesIPv4 ⟨.withIPE, header f n ++ (ipeOctets 8 ipe ++ d)⟩ = .ok (decide (ipe = ipv4Datagram)) := by
  have hval := ipeOctets_value 8 ipe (by omega)
  have hle := ipeOctets_length_le 8 ipe
  have hget : getIPE (header f n ++ (ipeOctets 8 ipe ++ d)) = .ok ipe := by
    rw [getIPE]
    simp only [octetAt_header, bind, Except.bind, drop_header hf]
    rw [ipeLoop_shim (ipeOctets_shim hipe) d _ _ 0 0 (by
      rw [List.length_append, List.length_append, header_length hf]
      omega) (by omega) (by rw [hval]; omega), hval, Nat.zero_mul, Nat.zero_add]
  unfold carriesIPv4
  simp only [hasIPE_header hf, hp, and_self, decide_true, bind, Except.bind, if_true, hget, pure,
    Except.pure]

/-- A packet without a length field gives no data. -/
theorem remove_fill {u : Bytes} (hu : getLengthOfLength u = .ok 0) (ipeSupport : Bool) (data : Data) :
    remove ipeSupport ⟨k, u⟩ ≠ .ok (some data) := by
  intro h
  have hwrap : ∀ d, wrapInnerPDU k u ≠ .ok d := by
    intro d hd
    obtain ⟨b, hb⟩ : ∃ b, octetAt u 0 = .ok b ∧ b.toNat % 4 = 0 := by
      rw [getLengthOfLength] at hu
      obtain ⟨b, hb, hu⟩ := Framing.bind_ok hu
      exact ⟨b, hb, Except.ok.inj hu⟩
    rw [wrapInnerPDU] at hd
    obtain ⟨len, -, hd⟩ := Framing.bind_ok hd
    rw [ptrData, hb.1] at hd
    simp only [bind, Except.bind, hb.2, hasData, Nat.lt_irrefl, decide_false, Bool.false_eq_true,
      if_false] at hd
    cases hd
  have hnone : ∀ x, removeHeader ⟨k, u⟩ 0 ≠ .ok x := by
    intro x hx
    rw [removeHeader] at hx
    obtain ⟨isIPv4, -, hx⟩ := Framing.bind_ok hx
    split at hx
    · obtain ⟨d, hd, -⟩ := Framing.bind_ok hx
      exact hwrap d hd
    · simp [hasData] at hx
  rw [remove] at h
  by_cases hk : k = classOf ipeSupport
  · rw [if_neg (fun hne => hne hk), hu] at h
    obtain ⟨lol, hlol, h⟩ := Framing.bind_ok h
    obtain rfl := Except.ok.inj hlol
    rw [if_neg (by decide)] at h
    obtain ⟨x, hx, -⟩ := Framing.bind_ok h
    exact hnone x hx
  · have hne : (⟨k, u⟩ : Packet).cls ≠ if ipeSupport then .withIPE else .preIPE := hk
    rw [if_pos hne] at h
    simp at h

end Remove

/-! ## The two modules -/

section Pair

variable (c : AddSetting) (data : Data)

/-- Data that the packet's length field can tell, where it has one. -/
def Fits : Prop :=
  c.lengthOfLength = 0 ∨ packetLen (c.fields (c.select data).2.1) data.octets (c.select data).2.2 ≤
    maxPacketLength c.lengthOfLength

/-- Neither module fails, and the payload comes back. -/
def Returned : Prop :=
  ∃ p type, add c data = .ok p ∧ remove c.ipeSupport p = .ok (some ⟨type, data.octets⟩)

/-- The packet is taken for one with an IPv4 datagram. -/
def TakenForIPv4 : Prop :=
  if c.ipeSupport then (c.select data).2.1 = internetProtocolExtension ∧
    (c.select data).2.2 = ipv4Datagram
  else (c.select data).2.1 = protocolIPv4

/-- What the module selects is admitted. -/
theorem select_spec : ∃ protocol ipe, c.select data = (classOf c.ipeSupport, protocol, ipe) ∧
    protocol ≤ 7 ∧ (ipe = 0 ∨ properIPE ipe = true ∧ ipe < 2 ^ 64) ∧ (c.ipeSupport = false → ipe = 0) := by
  have hpick : ∀ auto ≤ 7, c.pickProtocol auto ≤ 7 := by
    intro auto hauto
    unfold AddSetting.pickProtocol
    split
    · exact hauto
    · rename_i hset
      rcases c.protocol_ok with h | h
      · exact h
      · exact absurd h hset
  unfold AddSetting.select classOf
  cases hs : c.ipeSupport with
  | true =>
    simp only [if_true]
    by_cases hset : c.ipe = unsetIpeVal
    · rw [if_neg (fun h => h hset)]
      cases ht : data.type.getIPEHeaderVal with
      | none => exact ⟨_, _, rfl, hpick _ (by decide), .inl rfl, fun h => by cases h⟩
      | some val =>
        have hval : val = 33 := by
          rcases data with ⟨type, octets⟩
          cases type
          · cases ht
          · exact (Option.some.inj ht).symm
          · exact (Option.some.inj ht).symm
        subst hval
        exact ⟨_, _, rfl, hpick _ (by decide), .inr ⟨by decide, by decide⟩, fun h => by cases h⟩
    · rw [if_pos hset]
      rcases c.ipe_ok with h | h
      · exact absurd h hset
      · exact ⟨_, _, rfl, hpick _ (by decide), .inr h, fun h => by cases h⟩
  | false =>
    simp only [Bool.false_eq_true, if_false]
    cases ht : data.type.getIPEHeaderVal with
    | none => exact ⟨_, _, rfl, hpick _ (by decide), .inl rfl, fun _ => rfl⟩
    | some val =>
      have hval : val = ipv4Datagram := by
        rcases data with ⟨type, octets⟩
        cases type
        · cases ht
        · exact (Option.some.inj ht).symm
        · exact (Option.some.inj ht).symm
      subst hval
      exact ⟨_, _, rfl, hpick _ (by decide), .inl rfl, fun _ => rfl⟩

theorem fields_admitted {protocol : ℕ} (h : protocol ≤ 7) : (c.fields protocol).Admitted where
  protID_le := h
  newLoL_le := c.lengthOfLength_ok
  UDF_le := c.userDefinedField_ok
  protIDExt_le := c.protocolIdExt_ok

variable {c data}

/-- The packet built without a length field has none. -/
theorem build_fill {f : HeaderFields} {k : PacketClass} (hf : f.Admitted) (h0 : f.newLoL = 0)
    {d u : Bytes} {ipe : ℕ} (h : build k f d ipe = .ok u) : getLengthOfLength u = .ok 0 := by
  rw [build_eq hf, buildIPE, hasIPE_header hf] at h
  simp only [h0, hasData, hasPacketLength, Nat.lt_irrefl, decide_false, Bool.false_eq_true,
    if_false] at h
  obtain ⟨u₁, h₁, h⟩ := Framing.bind_ok h
  obtain rfl : u₁ = u := Except.ok.inj h
  have hfront : ∀ v : Bytes, getLengthOfLength (frontOctet f :: v) = .ok 0 := by
    intro v
    have h := getLengthOfLength_header hf 0 v
    rwa [header, h0] at h
  simp only [bind, Except.bind] at h₁
  split at h₁
  · rw [setIPE] at h₁
    split at h₁
    · cases h₁
    · simp only [octetAt_header, bind, Except.bind] at h₁
      rw [copyUnit] at h₁
      split at h₁
      · cases h₁
      · obtain rfl := Except.ok.inj h₁
        -- the IPE is copied behind the front octet
        obtain ⟨n, hn⟩ : ∃ n, getHeaderOctets (frontOctet f) = n + 1 :=
          ⟨_, (Nat.sub_add_cancel (Nat.one_le_iff_ne_zero.2 (by
            unfold getHeaderOctets
            split <;> decide))).symm⟩
        rw [hn, overwrite, header, List.cons_append, List.take_succ_cons, List.cons_append,
          List.cons_append]
        exact hfront _
  · rw [← Except.ok.inj h₁, header, List.cons_append]
    exact hfront _

/-- The payload comes back just when it is what the packet built gives. -/
theorem returned_iff_of_build {protocol ipe : ℕ} {f : HeaderFields} {v d : Bytes} {isIPv4 : Bool}
    (hsel : c.select data = (classOf c.ipeSupport, protocol, ipe)) (hfields : c.fields protocol = f)
    (hf : f.Admitted) (h0 : f.newLoL ≠ 0)
    (hfit : packetLen f data.octets ipe ≤ maxPacketLength f.newLoL)
    (hb : build (classOf c.ipeSupport) f data.octets ipe =
      .ok (header f (packetLen f data.octets ipe) ++ v))
    (hv : v.length = ipeLen ipe + data.octets.length)
    (hw : wrapInnerPDU (classOf c.ipeSupport) (header f (packetLen f data.octets ipe) ++ v) = .ok d)
    (hc : carriesIPv4 ⟨classOf c.ipeSupport, header f (packetLen f data.octets ipe) ++ v⟩ = .ok isIPv4) :
    Returned c data ↔ d = data.octets ∧ (isIPv4 = true → 10 ≤ d.length) := by
  have hlen := header_append_length hf data.octets ipe (packetLen f data.octets ipe) v hv
  have hrem := remove_header hf h0 hfit hlen (k := classOf c.ipeSupport) rfl
  rw [← removeHeader_eq h0 hw hc]
  unfold Returned add
  rw [hsel]
  simp only [hfields, hb, bind, Except.bind, pure, Except.pure, Except.ok.injEq]
  constructor
  · rintro ⟨p, type, rfl, h⟩
    rw [hrem] at h
    obtain ⟨out, hout, h⟩ := Framing.bind_ok h
    obtain rfl := Option.some.inj (Except.ok.inj h)
    have hd := removeHeader_octets hw hout
    exact ⟨hd.symm, type, by rw [hout, ← hd]⟩
  · rintro ⟨rfl, type, h⟩
    refine ⟨_, type, rfl, ?_⟩
    rw [hrem, h]
    rfl

/-- **When the payload comes back.** -/
theorem encapsulation_returns_iff (hfit : Fits c data) :
    Returned c data ↔ c.lengthOfLength ≠ 0 ∧
      (c.ipeSupport = true → ((c.select data).2.1 = internetProtocolExtension ↔
        0 < (c.select data).2.2)) ∧
      (TakenForIPv4 c data → 10 ≤ data.octets.length) := by
  obtain ⟨protocol, ipe, hsel, hprot, hipe, hnone⟩ := select_spec c data
  have hf := fields_admitted c hprot
  obtain ⟨f, hfields⟩ : ∃ f, c.fields protocol = f := ⟨_, rfl⟩
  have hlol : f.newLoL = c.lengthOfLength := by rw [← hfields]; rfl
  have hid : f.protID = protocol := by rw [← hfields]; rfl
  unfold TakenForIPv4
  unfold Fits at hfit
  rw [hsel] at hfit ⊢
  simp only [hfields] at hf hfit ⊢
  by_cases h0 : c.lengthOfLength = 0
  · -- no data field, and no data to send
    refine ⟨?_, fun h => absurd h0 h.1⟩
    rintro ⟨p, type, hadd, hrem⟩
    rw [add, hsel] at hadd
    obtain ⟨u, hu, hadd⟩ := Framing.bind_ok hadd
    simp only [hfields] at hu
    obtain rfl := Except.ok.inj hadd
    exact absurd hrem (remove_fill (build_fill hf (hlol.trans h0) hu) _ _)
  have h0' : f.newLoL ≠ 0 := by rwa [hlol]
  rw [← hlol] at hfit
  have hfit' := hfit.resolve_left h0'
  have hlt : ∀ w : Bytes, w.length = ipeLen ipe + data.octets.length →
      (header f (packetLen f data.octets ipe) ++ w).length < 2 ^ 64 := by
    intro w hw
    have hmax := maxPacketLength_lt f.newLoL
    rw [header_append_length hf data.octets ipe _ w hw]
    omega
  -- the IPE of the header and the value of the IPE have to go together
  by_cases hyes : classOf c.ipeSupport = .withIPE ∧ f.protID = internetProtocolExtension
  · have hsup : c.ipeSupport = true := by
      by_contra h
      rw [classOf, if_neg h] at hyes
      exact absurd hyes.1 (by decide)
    have hp : protocol = internetProtocolExtension := hid ▸ hyes.2
    rcases hipe with rfl | ⟨hipe, hipelt⟩
    · -- a place for an IPE without a value
      refine ⟨?_, fun h => absurd ((h.2.1 hsup).1 hp) (by decide)⟩
      rintro ⟨p, type, hadd, hrem⟩
      obtain ⟨e, hmissing⟩ : ∃ e, build (classOf c.ipeSupport) f data.octets 0 = .error e :=
        build_missing hf h0' hyes
      rw [add, hsel] at hadd
      simp only [hfields, hmissing, bind, Except.bind] at hadd
      cases hadd
    · have hpos : 0 < ipe := by
        rcases Nat.eq_zero_or_pos ipe with rfl | h
        · cases hipe
        · exact h
      have hv : (ipeOctets 8 ipe ++ data.octets).length = ipeLen ipe + data.octets.length := by
        rw [List.length_append, ipeOctets_ipeLen hipe hipelt]
      have hb := build_shim hf h0' hyes hipe hipelt hfit'
      have hw := (parted_shim hf (packetLen f data.octets ipe) hyes (ipeOctets_shim hipe)
        (ipeOctets_length_le 8 ipe) (hlt _ hv)).wrapInnerPDU hf h0' rfl
      have hc := carriesIPv4_shim hf (packetLen f data.octets ipe) data.octets hyes.2 hipe hipelt
      rw [← hyes.1] at hc
      rw [returned_iff_of_build hsel hfields hf h0' hfit' hb hv hw hc, hsup]
      simp only [true_and, decide_eq_true_eq, if_true, hp, hpos, iff_self, implies_true, ne_eq, h0,
        not_false_eq_true]
  · have hv : (data.octets ++ newUnit (ipeLen ipe)).length = ipeLen ipe + data.octets.length := by
      rw [List.length_append, newUnit_length]
      omega
    have hb := build_plain hf h0' hyes hfit'
    have hw : wrapInnerPDU (classOf c.ipeSupport)
        (header f (packetLen f data.octets ipe) ++ (data.octets ++ newUnit (ipeLen ipe))) =
        .ok (data.octets ++ newUnit (ipeLen ipe)) :=
      (parted_plain hf _ hyes (hlt _ hv)).wrapInnerPDU (o := []) hf h0' rfl
    have hc := carriesIPv4_plain hf (packetLen f data.octets ipe)
      (data.octets ++ newUnit (ipeLen ipe)) hyes
    rw [returned_iff_of_build hsel hfields hf h0' hfit' hb hv hw hc]
    rcases hipe with rfl | ⟨hipe, hipelt⟩
    · have hnil : data.octets ++ newUnit (ipeLen 0) = data.octets := List.append_nil data.octets
      rw [hnil]
      cases hs : c.ipeSupport with
      | true =>
        rw [hs, hid] at hyes
        have hne : protocol ≠ internetProtocolExtension := fun h => hyes ⟨rfl, h⟩
        simp [classOf, h0, hne]
      | false => simp [classOf, h0, hid]
    · -- the octets kept for the value come back behind the payload
      have hpos : 0 < ipe := by
        rcases Nat.eq_zero_or_pos ipe with rfl | h
        · cases hipe
        · exact h
      have hsup : c.ipeSupport = true := by
        by_contra h
        rw [hnone (by simpa using h)] at hpos
        exact absurd hpos (by decide)
      have hne : protocol ≠ internetProtocolExtension := by
        intro h
        rw [hsup, hid] at hyes
        exact hyes ⟨rfl, h⟩
      refine ⟨fun h => ?_, fun h => absurd ((h.2.1 hsup).2 hpos) hne⟩
      have hlen := congrArg List.length h.1
      have hshim := ipeOctets_ipeLen hipe hipelt
      obtain ⟨init, last, ho, -, -⟩ := ipeOctets_shim hipe
      rw [ho, List.length_append, List.length_singleton] at hshim
      rw [hv] at hlen
      omega

/-- The default settings. -/
def AddSetting.default : AddSetting :=
  { ipeSupport := true, ipe := unsetIpeVal, protocol := unsetProtocolVal, lengthOfLength := 2,
    userDefinedField := 0, protocolIdExt := 0, ccsdsDefinedField := 0,
    ipe_ok := .inl rfl, protocol_ok := .inr rfl, lengthOfLength_ok := by decide,
    userDefinedField_ok := by decide, protocolIdExt_ok := by decide,
    ccsdsDefinedField_ok := by decide }

/-- Octets of no type of their own, with the default settings. -/
theorem encapsulation_returns_default :
    Returned AddSetting.default ⟨.networkData, [1, 2, 3]⟩ ↔
      AddSetting.default.lengthOfLength ≠ 0 ∧
      (AddSetting.default.ipeSupport = true →
        ((AddSetting.default.select ⟨.networkData, [1, 2, 3]⟩).2.1 = internetProtocolExtension ↔
          0 < (AddSetting.default.select ⟨.networkData, [1, 2, 3]⟩).2.2)) ∧
      (TakenForIPv4 AddSetting.default ⟨.networkData, [1, 2, 3]⟩ →
        10 ≤ [(1 : Octet), 2, 3].length) :=
  encapsulation_returns_iff (.inr (by decide))

/-- An IPv4 datagram, with the protocol overridden: the octet kept for the IPE value comes back
behind the payload. -/
theorem payload_extended :
    ∃ p, add { AddSetting.default with protocol := 3, protocol_ok := .inl (by decide) }
        ⟨.ipv4Packet, [0x45, 2]⟩ = .ok p ∧
      remove true p = .ok (some ⟨.networkData, [0x45, 2, 0]⟩) ∧
      ¬Returned { AddSetting.default with protocol := 3, protocol_ok := .inl (by decide) }
        ⟨.ipv4Packet, [0x45, 2]⟩ := by
  have hadd : add { AddSetting.default with protocol := 3, protocol_ok := .inl (by decide) }
      ⟨.ipv4Packet, [0x45, 2]⟩ = .ok ⟨.withIPE, [0xEE, 0, 0, 7, 0x45, 2, 0]⟩ := by decide +kernel
  have hrem : remove true ⟨.withIPE, [0xEE, 0, 0, 7, 0x45, 2, 0]⟩ =
      .ok (some ⟨.networkData, [0x45, 2, 0]⟩) := by decide +kernel
  refine ⟨_, hadd, hrem, ?_⟩
  rintro ⟨p, type, hp, h⟩
  obtain rfl := Except.ok.inj (hadd.symm.trans hp)
  have hsame := Option.some.inj (Except.ok.inj (hrem.symm.trans h))
  exact absurd (congrArg Data.octets hsame) (by simp)

end Pair

end ChannelEmulator.Encap
