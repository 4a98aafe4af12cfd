import ChannelEmulator.Proof.HdlcChecksum

/-!
# When a built frame is valid and gives back what it was built from

A frame check sequence of zero is taken for one that is not there yet, so that a frame it closes is
checked without it; and the sequence is read with its octets in the other order than they are stored.

* `buildHdlc_eq`, `buildPpp_eq`: what `build` makes.
* `built_sound_iff`: **a built frame is valid, and every getter returns what was given**, just when
  the remainder is not all ones and reads the same in both orders, the values fit their fields, and
  the buffer of an HDLC payload is no larger than its unit.
-/

namespace ChannelEmulator.Hdlc

open Coding

/-! ## Sequences of either length -/

/-- The octets of the sequence that closes a string. -/
def fcsOctets (fcsLen : ℕ) (content : Bytes) : Bytes :=
  if fcsLen = 2 then hostU16 (fcs16 initFCS16 content ^^^ 0xFFFF)
  else hostU32 (fcs32 initFCS32 content ^^^ 0xFFFFFFFF)

/-- The value of the sequence that closes a string. -/
def fcsGiven (fcsLen : ℕ) (content : Bytes) : ℕ :=
  if fcsLen = 2 then (fcs16 initFCS16 content ^^^ 0xFFFF).toNat
  else (fcs32 initFCS32 content ^^^ 0xFFFFFFFF).toNat

theorem fcsOctets_length {fcsLen : ℕ} (h : fcsLen = 2 ∨ fcsLen = 4) (content : Bytes) :
    (fcsOctets fcsLen content).length = fcsLen := by
  rcases h with rfl | rfl <;> rfl

/-- The number of four or two octets reads the same with its octets reversed. -/
def SameOrder (fcsLen n : ℕ) : Prop :=
  if fcsLen = 2 then n % 256 = n / 256
  else n % 256 = n / 16777216 ∧ n / 256 % 256 = n / 65536 % 256

/-- The octets of a number of four octets. -/
theorem octets_of {n : ℕ} (hn : n < 4294967296) : ∃ a b c d, a < 256 ∧ b < 256 ∧ c < 256 ∧ d < 256 ∧
    n % 256 = a ∧ n / 256 % 256 = b ∧ n / 65536 % 256 = c ∧ n / 16777216 = d ∧
    n = a + 256 * b + 65536 * c + 16777216 * d :=
  ⟨n % 256, n / 256 % 256, n / 65536 % 256, n / 16777216, by omega, by omega, by omega, by omega,
    rfl, rfl, rfl, rfl, by omega⟩

theorem octets_sum {a b c d n : ℕ} (ha : a < 256) (hb : b < 256) (hc : c < 256)
    (hn : n = a + 256 * b + 65536 * c + 16777216 * d) :
    n % 256 = a ∧ n / 256 % 256 = b ∧ n / 65536 % 256 = c ∧ n / 16777216 = d := by
  omega

/-- The remainder of the shift register of a sequence, from all ones. -/
def remainder (fcsLen : ℕ) (content : Bytes) : ℕ :=
  if fcsLen = 2 then ((Register.right poly16).run (BitVec.allOnes 16) (bitString content)).toNat
  else ((Register.right poly32).run (BitVec.allOnes 32) (bitString content)).toNat

theorem complement16 (c : UInt16) : (c ^^^ 0xFFFF).toNat = 65535 - c.toNat := by
  have h : (c ^^^ 0xFFFF).toBitVec = ~~~c.toBitVec := by
    rw [UInt16.toBitVec_xor]
    exact BitVec.xor_allOnes
  have hnat := congrArg BitVec.toNat h
  rwa [BitVec.toNat_not] at hnat

theorem complement32 (c : UInt32) : (c ^^^ 0xFFFFFFFF).toNat = 4294967295 - c.toNat := by
  have h : (c ^^^ 0xFFFFFFFF).toBitVec = ~~~c.toBitVec := by
    rw [UInt32.toBitVec_xor]
    exact BitVec.xor_allOnes
  have hnat := congrArg BitVec.toNat h
  rwa [BitVec.toNat_not] at hnat

/-- The sequence is the complement of the remainder. -/
theorem fcsGiven_eq {fcsLen : ℕ} (h : fcsLen = 2 ∨ fcsLen = 4) (content : Bytes) :
    fcsGiven fcsLen content = 256 ^ fcsLen - 1 - remainder fcsLen content ∧
      remainder fcsLen content < 256 ^ fcsLen := by
  rcases h with rfl | rfl
  · have heq : remainder 2 content = (fcs16 initFCS16 content).toNat :=
      congrArg BitVec.toNat (fcs16_eq content initFCS16).symm
    rw [heq]
    exact ⟨complement16 _, (fcs16 initFCS16 content).toNat_lt⟩
  · have heq : remainder 4 content = (fcs32 initFCS32 content).toNat :=
      congrArg BitVec.toNat (fcs32_eq content initFCS32).symm
    rw [heq]
    exact ⟨complement32 _, (fcs32 initFCS32 content).toNat_lt⟩

/-- A number and its complement have the same symmetry. -/
theorem sameOrder_complement {fcsLen n : ℕ} (h : fcsLen = 2 ∨ fcsLen = 4) (hn : n < 256 ^ fcsLen) :
    SameOrder fcsLen (256 ^ fcsLen - 1 - n) ↔ SameOrder fcsLen n := by
  unfold SameOrder
  rcases h with rfl | rfl
  · rw [if_pos rfl, if_pos rfl]
    omega
  · rw [if_neg (by decide), if_neg (by decide)]
    have hn : n < 4294967296 := hn
    obtain ⟨a, b, c, d, ha, hb, hc, hd, ea, eb, ec, ed, hsum⟩ := octets_of hn
    have hrest : 256 ^ 4 - 1 - n =
        (255 - a) + 256 * (255 - b) + 65536 * (255 - c) + 16777216 * (255 - d) := by omega
    obtain ⟨ea', eb', ec', ed'⟩ := octets_sum (by omega) (by omega) (by omega) hrest
    rw [ea, eb, ec, ed, ea', eb', ec', ed']
    omega

theorem toU16_hostU16 (v : UInt16) (t : Bytes) :
    toU16 (hostU16 v ++ t) = .ok (v.toNat % 256 * 256 + v.toNat / 256) := by
  have hhigh : (v >>> 8).toUInt8.toNat = v.toNat / 256 := by
    have := v.toNat_lt
    rw [UInt16.toNat_toUInt8, UInt16.toNat_shiftRight]
    show v.toNat >>> 8 % 2 ^ 8 = _
    rw [Nat.shiftRight_eq_div_pow]
    omega
  show Except.ok (v.toUInt8.toNat * 256 + (v >>> 8).toUInt8.toNat) = _
  rw [hhigh, UInt16.toNat_toUInt8]

theorem toU32_hostU32 (v : UInt32) (t : Bytes) :
    toU32 (hostU32 v ++ t) = .ok (((v.toNat % 256 * 256 + v.toNat / 256 % 256) * 256 +
      v.toNat / 65536 % 256) * 256 + v.toNat / 16777216) := by
  have hoctet : ∀ k : UInt32, k.toNat < 32 → (v >>> k).toUInt8.toNat = v.toNat / 2 ^ k.toNat % 256 := by
    intro k hk
    rw [UInt32.toNat_toUInt8, UInt32.toNat_shiftRight, Nat.shiftRight_eq_div_pow, Nat.mod_eq_of_lt hk]
  have hlast : v.toNat / 2 ^ 24 % 256 = v.toNat / 16777216 := by
    have := v.toNat_lt
    omega
  show Except.ok (((v.toUInt8.toNat * 256 + (v >>> 8).toUInt8.toNat) * 256 +
    (v >>> 16).toUInt8.toNat) * 256 + (v >>> 24).toUInt8.toNat) = _
  rw [UInt32.toNat_toUInt8, hoctet 8 (by decide), hoctet 16 (by decide), hoctet 24 (by decide)]
  show Except.ok (((v.toNat % 256 * 256 + v.toNat / 256 % 256) * 256 + v.toNat / 65536 % 256) * 256 +
    v.toNat / 2 ^ 24 % 256) = _
  rw [hlast]

namespace Frame

theorem store_eq (f : Frame) (pre old post octets : Bytes) {i : ℕ} (hu : f.unit = pre ++ old ++ post)
    (hi : i = pre.length) (h : old.length = octets.length) :
    f.store i octets = .ok { f with unit := pre ++ octets ++ post } := by
  rw [store, hu, hi, storeAt_append pre old octets post h]
  rfl

/-- A frame, part by part. -/
def assemble (k : Kind) (a c n : ℕ) (ps : List Bytes) : Frame := ⟨k, a, c, n, ps.flatten⟩

/-- Storing a part in the place of as many octets. -/
theorem assemble_store {k : Kind} {a c n : ℕ} (ps qs : List Bytes) {o p : Bytes} {i : ℕ}
    (hi : i = ps.flatten.length) (h : o.length = p.length) :
    (assemble k a c n (ps ++ o :: qs)).store i p = .ok (assemble k a c n (ps ++ p :: qs)) := by
  have hstore := (assemble k a c n (ps ++ o :: qs)).store_eq ps.flatten o qs.flatten p
    (by simp [assemble]) hi h
  rw [hstore]
  simp [assemble]

theorem assemble_setData {k : Kind} {a c n : ℕ} (ps qs : List Bytes) {old : Bytes} {data : Payload}
    (hi : (assemble k a c n (ps ++ old :: qs)).dataPtr = ps.flatten.length)
    (h : old.length = data.unit.length) :
    (assemble k a c n (ps ++ old :: qs)).setData data =
      .ok (assemble k a c n (ps ++ data.unit :: qs)) := by
  have hu : (assemble k a c n (ps ++ old :: qs)).unit = ps.flatten ++ old ++ qs.flatten := by
    simp [assemble]
  have hstore := storeAt_append ps.flatten old data.unit qs.flatten h
  rw [storeAt, if_neg (by simp only [List.length_append]; omega)] at hstore
  rw [setData, hu, hi, copyUnit, if_neg (by simp only [List.length_append]; omega), hstore]
  simp [bind, Except.bind, pure, Except.pure, assemble]

/-- A frame with its content, its sequence and its flags in place. -/
structure Framed (f : Frame) (start : Octet) (content fcs : Bytes) (stop : Octet) : Prop where
  unit_eq : f.unit = [start] ++ content ++ fcs ++ [stop]
  fcsPtr_eq : f.fcsPtr = 1 + content.length
  fcs_length : fcs.length = f.fcsLen

variable {f : Frame} {start stop : Octet} {content fcs : Bytes}

theorem Framed.replace (hf : f.Framed start content fcs stop) (fcs' : Bytes)
    (h : fcs'.length = fcs.length) :
    f.store f.fcsPtr fcs' = .ok { f with unit := [start] ++ content ++ fcs' ++ [stop] } ∧
      ({ f with unit := [start] ++ content ++ fcs' ++ [stop] } : Frame).Framed start content fcs' stop := by
  refine ⟨f.store_eq _ _ _ _ hf.unit_eq ?_ h.symm, rfl, ?_, h.trans hf.fcs_length⟩
  · rw [hf.fcsPtr_eq, List.length_append, List.length_singleton]
  · rw [← hf.fcsPtr_eq]
    have hlen : ([start] ++ content ++ fcs' ++ [stop]).length = f.unit.length := by
      rw [hf.unit_eq]
      simp only [List.length_append, h]
    unfold fcsPtr dataLength
    rw [hlen]
    rfl

/-- What the sequence is read from. -/
theorem Framed.drop_fcsPtr (hf : f.Framed start content fcs stop) :
    f.unit.drop f.fcsPtr = fcs ++ [stop] := by
  rw [hf.unit_eq, hf.fcsPtr_eq, List.append_assoc, List.drop_left']
  rw [List.length_append, List.length_singleton]

/-- The octets that are checked, where the sequence is zero and where it is not. -/
theorem Framed.checked_eq (hf : f.Framed start content fcs stop) {v : ℕ} (hv : f.fcsVal = .ok v) :
    f.checked = .ok (content ++ if v = 0 then [] else fcs) := by
  have hlen : f.unit.length = 1 + content.length + fcs.length + 1 := by
    rw [hf.unit_eq]
    simp only [List.length_append, List.length_singleton]
  have hdrop : f.unit.drop addressPtr = content ++ (fcs ++ [stop]) := by
    rw [hf.unit_eq]
    simp [addressPtr]
  unfold checked
  rw [hv]
  simp only [bind, Except.bind]
  rw [if_neg (by rw [← hf.fcs_length]; split <;> omega), hdrop]
  by_cases h0 : v = 0
  · rw [if_pos h0, if_pos h0, List.append_nil, List.take_left' (by rw [← hf.fcs_length]; omega)]
    rfl
  · rw [if_neg h0, if_neg h0, ← List.append_assoc,
      List.take_left' (by rw [List.length_append]; omega)]
    rfl

/-- The sequence is read with its octets reversed. -/
theorem Framed.fcsVal_eq (hlen : f.fcsLen = 2 ∨ f.fcsLen = 4)
    (hf : f.Framed start content (fcsOctets f.fcsLen content) stop) :
    ∃ v, f.fcsVal = .ok v ∧ (v = 0 ↔ fcsGiven f.fcsLen content = 0) ∧
      (v = fcsGiven f.fcsLen content ↔ SameOrder f.fcsLen (fcsGiven f.fcsLen content)) := by
  unfold fcsVal
  rw [hf.drop_fcsPtr]
  unfold fcsOctets fcsGiven SameOrder
  rcases hlen with h | h
  · rw [if_pos h, if_pos h, if_pos h, if_pos h, toU16_hostU16]
    generalize hv : (fcs16 initFCS16 content ^^^ 0xFFFF).toNat = v
    have : v < 65536 := hv ▸ (fcs16 initFCS16 content ^^^ 0xFFFF).toNat_lt
    exact ⟨_, rfl, by omega, by omega⟩
  · have h2 : f.fcsLen ≠ 2 := by omega
    rw [if_neg h2, if_neg h2, if_neg h2, if_neg h2, toU32_hostU32]
    generalize hv : (fcs32 initFCS32 content ^^^ 0xFFFFFFFF).toNat = v
    have hv32 : v < 4294967296 := hv ▸ (fcs32 initFCS32 content ^^^ 0xFFFFFFFF).toNat_lt
    obtain ⟨a, b, c, d, ha, hb, hc, hd, ea, eb, ec, ed, hsum⟩ := octets_of hv32
    rw [ea, eb, ec, ed, hsum]
    exact ⟨_, rfl, by omega, by omega⟩

/-- **A frame is valid just when its sequence is not zero.** -/
theorem Framed.fcsValid_eq (hlen : f.fcsLen = 2 ∨ f.fcsLen = 4)
    (hf : f.Framed start content (fcsOctets f.fcsLen content) stop) :
    f.fcsValid = .ok (decide (fcsGiven f.fcsLen content ≠ 0)) := by
  obtain ⟨v, hv, hzero, -⟩ := hf.fcsVal_eq hlen
  have hchecked := hf.checked_eq hv
  unfold fcsValid frameFcs16 frameFcs32
  rw [hchecked]
  by_cases h0 : v = 0
  · -- without its sequence, the frame leaves all ones, the complement of zero
    have hgiven := hzero.1 h0
    rw [if_pos h0, hgiven, List.append_nil]
    rcases hlen with h | h
    · rw [fcsGiven, if_pos h, complement16] at hgiven
      have hones : fcs16 initFCS16 content = 0xFFFF := by
        apply UInt16.toNat_inj.1
        have := (fcs16 initFCS16 content).toNat_lt
        show _ = 65535
        omega
      rw [if_pos h]
      show Except.ok (fcs16 initFCS16 content == goodFCS16) = _
      rw [hones]
      rfl
    · have h2 : f.fcsLen ≠ 2 := by omega
      rw [fcsGiven, if_neg h2, complement32] at hgiven
      have hones : fcs32 initFCS32 content = 0xFFFFFFFF := by
        apply UInt32.toNat_inj.1
        have := (fcs32 initFCS32 content).toNat_lt
        show _ = 4294967295
        omega
      rw [if_neg h2]
      show Except.ok (fcs32 initFCS32 content == goodFCS32) = _
      rw [hones]
      rfl
  · have hgiven : fcsGiven f.fcsLen content ≠ 0 := fun h => h0 (hzero.2 h)
    rw [if_neg h0, decide_eq_true hgiven]
    rcases hlen with h | h
    · rw [if_pos h, fcsOctets, if_pos h]
      show Except.ok (fcs16 initFCS16 _ == goodFCS16) = _
      rw [fcs16_residue]
      rfl
    · have h2 : f.fcsLen ≠ 2 := by omega
      rw [if_neg h2, fcsOctets, if_neg h2]
      show Except.ok (fcs32 initFCS32 _ == goodFCS32) = _
      rw [fcs32_residue]
      rfl

/-- What the end of `build` makes of a frame whose sequence is zero. -/
theorem Framed.close_eq (hlen : f.fcsLen = 2 ∨ f.fcsLen = 4)
    (hf : f.Framed start content (newUnit f.fcsLen) stop) :
    ∃ g : Frame, f.close = .ok (.ok g) ∧ g.Framed start content (fcsOctets f.fcsLen content) stop ∧
      g = { f with unit := [start] ++ content ++ fcsOctets f.fcsLen content ++ [stop] } := by
  have hzero : ({ f with unit := [start] ++ content ++ newUnit f.fcsLen ++ [stop] } : Frame) = f := by
    rw [← hf.unit_eq]
  have hclear := (hf.replace _ rfl).1
  rw [hzero] at hclear
  have hlast := hf.replace (fcsOctets f.fcsLen content)
    (by rw [fcsOctets_length hlen, newUnit_length])
  refine ⟨_, ?_, hlast.2, rfl⟩
  have hval : f.fcsVal = .ok 0 := by
    unfold fcsVal
    rw [hf.drop_fcsPtr]
    rcases hlen with h | h <;> rw [h] <;> rfl
  have hchecked := hf.checked_eq hval
  rw [if_pos rfl, List.append_nil] at hchecked
  unfold close
  rcases hlen with h | h
  · have hfirst : f.setFcsVal16 0 false = .ok f := by
      rw [setFcsVal16, if_neg (by omega), ← hclear, h]
      rfl
    have hfcs : f.frameFcs16 = .ok (fcs16 initFCS16 content) := by
      rw [frameFcs16, hchecked]
      rfl
    have hsecond : f.setFcsVal16 (fcs16 initFCS16 content) true =
        .ok { f with unit := [start] ++ content ++ fcsOctets f.fcsLen content ++ [stop] } := by
      rw [setFcsVal16, if_neg (by omega), ← hlast.1, fcsOctets, if_pos h]
      rfl
    split
    · simp only [hfirst, hfcs, hsecond, bind, Except.bind, pure, Except.pure]
    · omega
    · exact absurd h ‹_›
  · have h2 : f.fcsLen ≠ 2 := by omega
    have hfirst : f.setFcsVal32 0 false = .ok f := by
      rw [setFcsVal32, if_neg (by omega), ← hclear, h]
      rfl
    have hfcs : f.frameFcs32 = .ok (fcs32 initFCS32 content) := by
      rw [frameFcs32, hchecked]
      rfl
    have hsecond : f.setFcsVal32 (fcs32 initFCS32 content) true =
        .ok { f with unit := [start] ++ content ++ fcsOctets f.fcsLen content ++ [stop] } := by
      rw [setFcsVal32, if_neg (by omega), ← hlast.1, fcsOctets, if_neg h2]
      rfl
    split
    · omega
    · simp only [hfirst, hfcs, hsecond, bind, Except.bind, pure, Except.pure]
    · exact absurd h ‹_›

theorem Framed.fcsVal_iff (hlen : f.fcsLen = 2 ∨ f.fcsLen = 4)
    (hf : f.Framed start content (fcsOctets f.fcsLen content) stop) :
    f.fcsVal = .ok (fcsGiven f.fcsLen content) ↔ SameOrder f.fcsLen (remainder f.fcsLen content) := by
  obtain ⟨v, hv, -, hgiven⟩ := hf.fcsVal_eq hlen
  obtain ⟨hcomplement, hlt⟩ := fcsGiven_eq hlen content
  rw [hv, Except.ok.injEq, hgiven, hcomplement, sameOrder_complement hlen hlt]

theorem Framed.fcsValid_iff (hlen : f.fcsLen = 2 ∨ f.fcsLen = 4)
    (hf : f.Framed start content (fcsOctets f.fcsLen content) stop) :
    f.fcsValid = .ok true ↔ ¬remainder f.fcsLen content = 256 ^ f.fcsLen - 1 := by
  obtain ⟨hcomplement, hlt⟩ := fcsGiven_eq hlen content
  rw [hf.fcsValid_eq hlen, Except.ok.injEq, decide_eq_true_eq, hcomplement]
  omega

end Frame

/-! ## HDLC frames -/

/-- What an HDLC frame is built from. -/
structure HdlcRequest where
  addressLen : ℕ
  address : ℕ
  controlLen : ℕ
  control : ℕ
  data : Payload
  fcsLen : ℕ
  flagVal : Octet
  addressLen_ok : addressLen = 1 ∨ addressLen = 2
  address_lt : address < 2 ^ 16
  controlLen_ok : controlLen = 1 ∨ controlLen = 2
  control_lt : control < 2 ^ 16
  fcsLen_ok : fcsLen = 2 ∨ fcsLen = 4

/-- The octets of a field of one or two octets. -/
def field (len val : ℕ) : Bytes := if len = 1 then [UInt8.ofNat (val &&& 0xFF)] else fromU16 val

theorem field_length {len : ℕ} (h : len = 1 ∨ len = 2) (val : ℕ) : (field len val).length = len := by
  rcases h with rfl | rfl <;> rfl

/-- What is read from a field is what fits it. -/
theorem read_field {u t : Bytes} {p len val : ℕ} (hlen : len = 1 ∨ len = 2) (hval : val < 2 ^ 16)
    (hu : u.drop p = field len val ++ t) :
    (if len = 1 then (octetAt u p >>= fun b => pure b.toNat) else toU16 (u.drop p)) =
      .ok (val % 256 ^ len) := by
  rcases hlen with rfl | rfl
  · rw [if_pos rfl, octetAt_of_drop hu]
    show Except.ok (UInt8.ofNat (val &&& (2 ^ 8 - 1))).toNat = _
    rw [Nat.and_two_pow_sub_one_eq_mod, UInt8.toNat_ofNat', Nat.mod_mod]
    rfl
  · rw [if_neg (by decide), hu]
    show toU16 (fromU16 val ++ t) = _
    rw [toU16_fromU16 t hval, Nat.mod_eq_of_lt (show val < 256 ^ 2 from hval)]

namespace HdlcRequest

variable (r : HdlcRequest)

/-- `HdlcFrame::build`, of what is given. -/
def build : Except Fault (Except String Frame) :=
  Frame.buildHdlc r.addressLen r.address r.controlLen r.control r.data r.fcsLen r.flagVal

/-- The octets between the opening flag and the sequence. -/
def content : Bytes :=
  field r.addressLen r.address ++ field r.controlLen r.control ++ r.data.unit ++
    newUnit (r.data.bufferSize - r.data.unit.length)

theorem content_length :
    r.content.length = r.addressLen + r.controlLen + r.data.bufferSize := by
  have := r.data.unit_le
  simp only [content, List.length_append, field_length r.addressLen_ok, field_length r.controlLen_ok,
    newUnit_length]
  omega

/-- The frame that is built, with what it has at the place of the sequence. -/
def frame (fcs : Bytes) : Frame :=
  ⟨.hdlc, r.addressLen, r.controlLen, r.fcsLen, [r.flagVal] ++ r.content ++ fcs ++ [r.flagVal]⟩

theorem frame_framed (fcs : Bytes) (h : fcs.length = r.fcsLen) :
    (r.frame fcs).Framed r.flagVal r.content fcs r.flagVal := by
  refine ⟨rfl, ?_, h⟩
  have hlen : (r.frame fcs).unit.length = 1 + r.content.length + r.fcsLen + 1 := by
    simp only [frame, List.length_append, List.length_singleton, h]
  have hcontent := r.content_length
  unfold Frame.fcsPtr Frame.dataLength
  rw [hlen]
  show 1 + r.addressLen + r.controlLen + (1 + r.content.length + r.fcsLen + 1 -
    (1 + r.addressLen + r.controlLen + r.fcsLen + 1)) = 1 + r.content.length
  omega

/-- A frame of the request, part by part. -/
abbrev stage (ps : List Bytes) : Frame := .assemble .hdlc r.addressLen r.controlLen r.fcsLen ps

/-- **What `build` makes** of a request. -/
theorem build_eq : r.build = .ok (.ok (r.frame (fcsOctets r.fcsLen r.content))) := by
  have hle := r.data.unit_le
  have hA := field_length r.addressLen_ok r.address
  have hC := field_length r.controlLen_ok r.control
  generalize hA₀ : newUnit r.addressLen = A₀
  generalize hC₀ : newUnit r.controlLen = C₀
  generalize hD₀ : newUnit r.data.unit.length = D₀
  generalize hZ : newUnit (r.data.bufferSize - r.data.unit.length) = Z
  generalize hF : newUnit r.fcsLen = F
  have hlA : A₀.length = r.addressLen := by rw [← hA₀, newUnit_length]
  have hlC : C₀.length = r.controlLen := by rw [← hC₀, newUnit_length]
  have hlD : D₀.length = r.data.unit.length := by rw [← hD₀, newUnit_length]
  have hlZ : Z.length = r.data.bufferSize - r.data.unit.length := by rw [← hZ, newUnit_length]
  have hlF : F.length = r.fcsLen := by rw [← hF, newUnit_length]
  have hzeros : newUnit ((r.stage []).nonDataLength + r.data.bufferSize) =
      [[0], A₀, C₀, D₀, Z, F, [0]].flatten := by
    have hN : (r.stage []).nonDataLength + r.data.bufferSize = 1 + (r.addressLen + (r.controlLen +
        (r.data.unit.length + ((r.data.bufferSize - r.data.unit.length) + (r.fcsLen + 1))))) := by
      show 1 + r.addressLen + r.controlLen + r.fcsLen + 1 + r.data.bufferSize = _
      omega
    rw [hN]
    simp only [newUnit_add, hA₀, hC₀, hD₀, hZ, hF, List.flatten_cons, List.flatten_nil, List.append_nil]
    rfl
  -- the stores of `build`, from the first octet to the last
  have hflag : (r.stage [[0], A₀, C₀, D₀, Z, F, [0]]).store 0 [r.flagVal] =
      .ok (r.stage [[r.flagVal], A₀, C₀, D₀, Z, F, [0]]) :=
    Frame.assemble_store [] [A₀, C₀, D₀, Z, F, [0]] rfl rfl
  have haddress : (r.stage [[r.flagVal], A₀, C₀, D₀, Z, F, [0]]).setAddress r.address =
      .ok (r.stage [[r.flagVal], field r.addressLen r.address, C₀, D₀, Z, F, [0]]) :=
    Frame.assemble_store [[r.flagVal]] [C₀, D₀, Z, F, [0]] rfl (hlA.trans hA.symm)
  have hcontrol : (r.stage [[r.flagVal], field r.addressLen r.address, C₀, D₀, Z, F, [0]]).setControl
      r.control = .ok (r.stage [[r.flagVal], field r.addressLen r.address,
        field r.controlLen r.control, D₀, Z, F, [0]]) := by
    refine Frame.assemble_store [[r.flagVal], field r.addressLen r.address] [D₀, Z, F, [0]] ?_
      (hlC.trans hC.symm)
    show 1 + r.addressLen = _
    simp [hA, Nat.add_comm]
  have hdata : (r.stage [[r.flagVal], field r.addressLen r.address, field r.controlLen r.control, D₀, Z,
      F, [0]]).setData r.data = .ok (r.stage [[r.flagVal], field r.addressLen r.address,
        field r.controlLen r.control, r.data.unit, Z, F, [0]]) := by
    refine Frame.assemble_setData [[r.flagVal], field r.addressLen r.address,
      field r.controlLen r.control] [Z, F, [0]] ?_ hlD
    show 1 + r.addressLen + r.controlLen = _
    simp [hA, hC]
    omega
  have hstop : (r.stage [[r.flagVal], field r.addressLen r.address, field r.controlLen r.control,
      r.data.unit, Z, F, [0]]).store (r.stage [[r.flagVal], field r.addressLen r.address,
        field r.controlLen r.control, r.data.unit, Z, F, [0]]).endFlagPtr [r.flagVal] =
        .ok (r.frame F) := by
    refine (Frame.assemble_store [[r.flagVal], field r.addressLen r.address, field r.controlLen r.control,
      r.data.unit, Z, F] [] (o := [0]) (p := [r.flagVal]) ?_ rfl).trans ?_
    · unfold Frame.endFlagPtr Frame.fcsPtr Frame.dataLength
      show 1 + r.addressLen + r.controlLen + (List.length (List.flatten _) -
        (1 + r.addressLen + r.controlLen + r.fcsLen + 1)) + r.fcsLen = _
      simp [hA, hC, hlZ, hlF]
      omega
    · simp [Frame.assemble, frame, content, hZ]
  obtain ⟨g, hg, -, rfl⟩ := (r.frame_framed (newUnit r.fcsLen) (newUnit_length _)).close_eq
    r.fcsLen_ok
  rw [hF] at hg
  unfold build Frame.buildHdlc
  have hstart : ({ r.stage [] with unit := newUnit ((r.stage []).nonDataLength + r.data.bufferSize) } :
      Frame) = r.stage [[0], A₀, C₀, D₀, Z, F, [0]] := by
    rw [hzeros]
    rfl
  show (({ r.stage [] with unit := newUnit ((r.stage []).nonDataLength + r.data.bufferSize) } :
    Frame).store 0 [r.flagVal] >>= _) = _
  rw [hstart]
  simp only [hflag, haddress, hcontrol, hdata, hstop, bind, Except.bind]
  exact hg

/-! ### The getters -/

/-- A built frame is valid, and its getters return what was given. -/
def Sound (f : Frame) : Prop :=
  f.fcsValid = .ok true ∧ f.fcsVal = .ok (fcsGiven r.fcsLen r.content) ∧
    f.addressVal = .ok r.address ∧ f.controlVal = .ok r.control ∧ f.data = r.data.unit

/-- What has to be so for that. -/
def Returned : Prop :=
  remainder r.fcsLen r.content ≠ 256 ^ r.fcsLen - 1 ∧ SameOrder r.fcsLen (remainder r.fcsLen r.content) ∧
    r.address < 256 ^ r.addressLen ∧ r.control < 256 ^ r.controlLen ∧
    r.data.unit.length = r.data.bufferSize

theorem addressVal_eq (fcs : Bytes) :
    (r.frame fcs).addressVal = .ok (r.address % 256 ^ r.addressLen) := by
  refine read_field (t := field r.controlLen r.control ++ r.data.unit ++
    newUnit (r.data.bufferSize - r.data.unit.length) ++ fcs ++ [r.flagVal]) r.addressLen_ok
    r.address_lt ?_
  simp [frame, content, Frame.addressPtr]

theorem controlVal_eq (fcs : Bytes) :
    (r.frame fcs).controlVal = .ok (r.control % 256 ^ r.controlLen) := by
  have hA := field_length r.addressLen_ok r.address
  refine read_field (t := r.data.unit ++ newUnit (r.data.bufferSize - r.data.unit.length) ++ fcs ++
    [r.flagVal]) r.controlLen_ok r.control_lt ?_
  have hunit : (r.frame fcs).unit = ([r.flagVal] ++ field r.addressLen r.address) ++
      (field r.controlLen r.control ++ (r.data.unit ++
        newUnit (r.data.bufferSize - r.data.unit.length) ++ fcs ++ [r.flagVal])) := by
    simp [frame, content]
  have hptr : ([r.flagVal] ++ field r.addressLen r.address).length = (r.frame fcs).controlPtr := by
    rw [List.length_append, hA]
    rfl
  rw [hunit, List.drop_left' hptr]
  rfl

/-- The data field is the payload, filled up to the size of its buffer. -/
theorem data_eq {fcs : Bytes} (h : fcs.length = r.fcsLen) : (r.frame fcs).data =
    r.data.unit ++ newUnit (r.data.bufferSize - r.data.unit.length) := by
  have hle := r.data.unit_le
  have hunit : (r.frame fcs).unit = ([r.flagVal] ++ field r.addressLen r.address ++
      field r.controlLen r.control) ++ ((r.data.unit ++
        newUnit (r.data.bufferSize - r.data.unit.length)) ++ (fcs ++ [r.flagVal])) := by
    simp [frame, content]
  have hptr : ([r.flagVal] ++ field r.addressLen r.address ++ field r.controlLen r.control).length =
      (r.frame fcs).dataPtr := by
    rw [List.length_append, List.length_append, field_length r.addressLen_ok,
      field_length r.controlLen_ok]
    rfl
  have hend := (r.frame_framed _ h).fcsPtr_eq
  rw [r.content_length] at hend
  have hdata : (r.frame fcs).dataLength = (r.data.unit ++
      newUnit (r.data.bufferSize - r.data.unit.length)).length := by
    rw [List.length_append, newUnit_length]
    have hstart : (r.frame fcs).dataPtr = 1 + r.addressLen + r.controlLen := rfl
    rw [Frame.fcsPtr, hstart] at hend
    omega
  rw [Frame.data, hunit, List.drop_left' hptr, hdata, List.take_left' rfl]

/-- **A built frame is valid and gives back what was given** just when that can be. -/
theorem sound_iff : (∃ f, r.build = .ok (.ok f) ∧ r.Sound f) ↔ r.Returned := by
  have hlen := fcsOctets_length r.fcsLen_ok r.content
  have hframed := r.frame_framed _ hlen
  have hvalid : (r.frame (fcsOctets r.fcsLen r.content)).fcsValid = .ok true ↔
      ¬remainder r.fcsLen r.content = 256 ^ r.fcsLen - 1 := hframed.fcsValid_iff r.fcsLen_ok
  have hval : (r.frame (fcsOctets r.fcsLen r.content)).fcsVal = .ok (fcsGiven r.fcsLen r.content) ↔
      SameOrder r.fcsLen (remainder r.fcsLen r.content) := hframed.fcsVal_iff r.fcsLen_ok
  have hdata : r.data.unit ++ newUnit (r.data.bufferSize - r.data.unit.length) = r.data.unit ↔
      r.data.unit.length = r.data.bufferSize := by
    have hle := r.data.unit_le
    rw [List.append_right_eq_self, ← List.length_eq_zero_iff, newUnit_length]
    omega
  have hfits : ∀ len val : ℕ, val % 256 ^ len = val ↔ val < 256 ^ len := fun len val =>
    ⟨fun h => h ▸ Nat.mod_lt _ (Nat.pow_pos (by decide)), Nat.mod_eq_of_lt⟩
  have hall : ∀ f, r.build = .ok (.ok f) ↔ f = r.frame (fcsOctets r.fcsLen r.content) := by
    intro f
    rw [r.build_eq]
    simp [eq_comm]
  simp only [hall, exists_eq_left, Sound, Returned, hvalid, hval, r.addressVal_eq, r.controlVal_eq, r.data_eq hlen,
    Except.ok.injEq, hdata, hfits, ne_eq]

end HdlcRequest

/-! ## PPP frames -/

/-- What a PPP frame is built from. -/
structure PppRequest where
  protocol : ℕ
  data : Payload
  fcsLen : ℕ
  protocol_lt : protocol < 2 ^ 16
  fcsLen_ok : fcsLen = 2 ∨ fcsLen = 4

namespace PppRequest

variable (r : PppRequest)

/-- `PppFrame::build`, of what is given. -/
def build : Except Fault (Except String Frame) := Frame.buildPpp r.protocol r.data r.fcsLen

/-- The octets between the opening flag and the sequence. -/
def content : Bytes := [0xFF, 0x03] ++ fromU16 r.protocol ++ r.data.unit

/-- The frame that is built, with what it has at the place of the sequence. -/
def frame (fcs : Bytes) : Frame := ⟨.ppp, 1, 1, r.fcsLen, [0x7E] ++ r.content ++ fcs ++ [0x7E]⟩

theorem frame_framed (fcs : Bytes) (h : fcs.length = r.fcsLen) :
    (r.frame fcs).Framed 0x7E r.content fcs 0x7E := by
  refine ⟨rfl, ?_, h⟩
  have hlen : (r.frame fcs).unit.length = 1 + r.content.length + r.fcsLen + 1 := by
    simp only [frame, List.length_append, List.length_singleton, h]
  have hcontent : r.content.length = 4 + r.data.unit.length := by
    simp only [content, fromU16, List.length_append, List.length_cons, List.length_nil]
  unfold Frame.fcsPtr Frame.dataLength
  rw [hlen]
  show 1 + 1 + 1 + 2 + (1 + r.content.length + r.fcsLen + 1 - (5 + r.fcsLen + 1)) = 1 + r.content.length
  omega

/-- A frame of the request, part by part. -/
abbrev stage (ps : List Bytes) : Frame := .assemble .ppp 1 1 r.fcsLen ps

/-- **What `build` makes** of a request. -/
theorem build_eq : r.build = .ok (.ok (r.frame (fcsOctets r.fcsLen r.content))) := by
  generalize hD₀ : newUnit r.data.unit.length = D₀
  generalize hF : newUnit r.fcsLen = F
  have hlD : D₀.length = r.data.unit.length := by rw [← hD₀, newUnit_length]
  have hlF : F.length = r.fcsLen := by rw [← hF, newUnit_length]
  have hzeros : newUnit ((r.stage []).nonDataLength + r.data.unit.length) =
      [[0], [0], [0], [0, 0], D₀, F, [0]].flatten := by
    have hN : (r.stage []).nonDataLength + r.data.unit.length =
        5 + (r.data.unit.length + (r.fcsLen + 1)) := by
      show 5 + r.fcsLen + 1 + r.data.unit.length = _
      omega
    rw [hN, newUnit_add 5, newUnit_add r.data.unit.length, newUnit_add r.fcsLen, hD₀, hF]
    rfl
  -- the stores of `build`: the static values, the protocol and the payload
  have hflag : (r.stage [[0], [0], [0], [0, 0], D₀, F, [0]]).store 0 [0x7E] =
      .ok (r.stage [[0x7E], [0], [0], [0, 0], D₀, F, [0]]) :=
    Frame.assemble_store [] [[0], [0], [0, 0], D₀, F, [0]] rfl rfl
  have haddress : (r.stage [[0x7E], [0], [0], [0, 0], D₀, F, [0]]).store Frame.addressPtr [0xFF] =
      .ok (r.stage [[0x7E], [0xFF], [0], [0, 0], D₀, F, [0]]) :=
    Frame.assemble_store [[0x7E]] [[0], [0, 0], D₀, F, [0]] rfl rfl
  have hcontrol : (r.stage [[0x7E], [0xFF], [0], [0, 0], D₀, F, [0]]).store
      (r.stage [[0x7E], [0xFF], [0], [0, 0], D₀, F, [0]]).controlPtr [0x03] =
      .ok (r.stage [[0x7E], [0xFF], [0x03], [0, 0], D₀, F, [0]]) :=
    Frame.assemble_store [[0x7E], [0xFF]] [[0, 0], D₀, F, [0]] rfl rfl
  have hstop : (r.stage [[0x7E], [0xFF], [0x03], [0, 0], D₀, F, [0]]).store
      (r.stage [[0x7E], [0xFF], [0x03], [0, 0], D₀, F, [0]]).endFlagPtr [0x7E] =
      .ok (r.stage [[0x7E], [0xFF], [0x03], [0, 0], D₀, F, [0x7E]]) := by
    refine Frame.assemble_store [[0x7E], [0xFF], [0x03], [0, 0], D₀, F] [] (o := [0]) (p := [0x7E])
      ?_ rfl
    unfold Frame.endFlagPtr Frame.fcsPtr Frame.dataLength
    show 1 + 1 + 1 + 2 + (List.length (List.flatten _) - (5 + r.fcsLen + 1)) + r.fcsLen = _
    simp [hlF]
    omega
  have hprotocol : (r.stage [[0x7E], [0xFF], [0x03], [0, 0], D₀, F, [0x7E]]).setProtocolVal r.protocol =
      .ok (r.stage [[0x7E], [0xFF], [0x03], fromU16 r.protocol, D₀, F, [0x7E]]) :=
    Frame.assemble_store [[0x7E], [0xFF], [0x03]] [D₀, F, [0x7E]] rfl rfl
  have hdata : (r.stage [[0x7E], [0xFF], [0x03], fromU16 r.protocol, D₀, F, [0x7E]]).setData r.data =
      .ok (r.frame F) := by
    refine (Frame.assemble_setData [[0x7E], [0xFF], [0x03], fromU16 r.protocol] [F, [0x7E]] rfl
      hlD).trans ?_
    simp [Frame.assemble, frame, content]
  obtain ⟨g, hg, -, rfl⟩ := (r.frame_framed (newUnit r.fcsLen) (newUnit_length _)).close_eq
    r.fcsLen_ok
  rw [hF] at hg
  unfold build Frame.buildPpp
  have hstart : ({ r.stage [] with unit := newUnit ((r.stage []).nonDataLength + r.data.unit.length) } :
      Frame) = r.stage [[0], [0], [0], [0, 0], D₀, F, [0]] := by
    rw [hzeros]
    rfl
  show (({ r.stage [] with unit := newUnit ((r.stage []).nonDataLength + r.data.unit.length) } :
    Frame).setStaticVals >>= _) = _
  rw [hstart]
  simp only [Frame.setStaticVals, hflag, haddress, hcontrol, hstop, hprotocol, hdata, bind, Except.bind]
  exact hg

/-- A built frame is valid, and its getters return what was given. -/
def Sound (f : Frame) : Prop :=
  f.fcsValid = .ok true ∧ f.fcsVal = .ok (fcsGiven r.fcsLen r.content) ∧ f.addressVal = .ok 0xFF ∧
    f.controlVal = .ok 0x03 ∧ f.protocolVal = .ok r.protocol ∧ f.data = r.data.unit

/-- What has to be so for that. -/
def Returned : Prop :=
  remainder r.fcsLen r.content ≠ 256 ^ r.fcsLen - 1 ∧ SameOrder r.fcsLen (remainder r.fcsLen r.content)

theorem data_eq {fcs : Bytes} (h : fcs.length = r.fcsLen) : (r.frame fcs).data = r.data.unit := by
  have hunit : (r.frame fcs).unit = ([0x7E, 0xFF, 0x03] ++ fromU16 r.protocol) ++
      (r.data.unit ++ (fcs ++ [0x7E])) := by
    simp [frame, content]
  have hdata : (r.frame fcs).dataLength = r.data.unit.length := by
    have hend := (r.frame_framed _ h).fcsPtr_eq
    have hcontent : r.content.length = 4 + r.data.unit.length := by
      simp only [content, fromU16, List.length_append, List.length_cons, List.length_nil]
    have hstart : (r.frame fcs).dataPtr = 5 := rfl
    rw [Frame.fcsPtr, hstart, hcontent] at hend
    omega
  have hptr : ([0x7E, 0xFF, 0x03] ++ fromU16 r.protocol).length = (r.frame fcs).dataPtr := rfl
  rw [Frame.data, hunit, List.drop_left' hptr, hdata, List.take_left' rfl]

/-- **A built frame is valid and gives back what was given** just when that can be. -/
theorem sound_iff : (∃ f, r.build = .ok (.ok f) ∧ r.Sound f) ↔ r.Returned := by
  have hlen := fcsOctets_length r.fcsLen_ok r.content
  have hframed := r.frame_framed _ hlen
  have hvalid : (r.frame (fcsOctets r.fcsLen r.content)).fcsValid = .ok true ↔
      ¬remainder r.fcsLen r.content = 256 ^ r.fcsLen - 1 := hframed.fcsValid_iff r.fcsLen_ok
  have hval : (r.frame (fcsOctets r.fcsLen r.content)).fcsVal = .ok (fcsGiven r.fcsLen r.content) ↔
      SameOrder r.fcsLen (remainder r.fcsLen r.content) := hframed.fcsVal_iff r.fcsLen_ok
  have haddress : (r.frame (fcsOctets r.fcsLen r.content)).addressVal = .ok 0xFF := rfl
  have hcontrol : (r.frame (fcsOctets r.fcsLen r.content)).controlVal = .ok 0x03 := rfl
  have hprotocol : (r.frame (fcsOctets r.fcsLen r.content)).protocolVal = .ok r.protocol := by
    refine (congrArg toU16 ?_).trans
      (toU16_fromU16 (r.data.unit ++ fcsOctets r.fcsLen r.content ++ [0x7E]) r.protocol_lt)
    simp [frame, content, Frame.protocolPtr, Frame.controlPtr, Frame.addressPtr]
  have hall : ∀ f, r.build = .ok (.ok f) ↔ f = r.frame (fcsOctets r.fcsLen r.content) := by
    intro f
    rw [r.build_eq]
    simp [eq_comm]
  simp only [hall, exists_eq_left, Sound, Returned, hvalid, hval, haddress, hcontrol,
    hprotocol, r.data_eq hlen, and_true, ne_eq]

end PppRequest

/-- **A built frame is valid, and every getter returns what was given,** just when the remainder of
its content is not all ones and reads the same in both orders of its octets, and an HDLC frame's
values fit their fields and its payload fills its buffer. -/
theorem built_sound_iff (r : HdlcRequest) (q : PppRequest) :
    ((∃ f, r.build = .ok (.ok f) ∧ r.Sound f) ↔ r.Returned) ∧
      ((∃ f, q.build = .ok (.ok f) ∧ q.Sound f) ↔ q.Returned) :=
  ⟨r.sound_iff, q.sound_iff⟩

/-- An IPv4 packet of two octets whose frame has the sequence zero. -/
def zeroRequest : PppRequest where
  protocol := 0x0021
  data := ⟨[0x3D, 0xEA], 2, Nat.le_refl _⟩
  fcsLen := 2
  protocol_lt := Nat.le_of_ble_eq_true rfl
  fcsLen_ok := .inl rfl

/-- **The frame of that packet is not valid.** -/
theorem zero_fcs_invalid :
    ¬ ∀ r : PppRequest, ∃ f, r.build = .ok (.ok f) ∧ f.fcsValid = .ok true := by
  intro hall
  obtain ⟨f, hf, hvalid⟩ := hall zeroRequest
  have hrun : zeroRequest.build =
      .ok (.ok ⟨.ppp, 1, 1, 2, [0x7E, 0xFF, 0x03, 0x00, 0x21, 0x3D, 0xEA, 0, 0, 0x7E]⟩) := by
    decide +kernel
  obtain rfl := Except.ok.inj (Except.ok.inj (hrun.symm.trans hf))
  exact absurd hvalid (by decide +kernel)

end ChannelEmulator.Hdlc
