import ChannelEmulator.Coding.BitString
import ChannelEmulator.Framing.Run
import ChannelEmulator.Spec.SymbolPacking

/-!
# Packing of symbols is reversible

* `packSymbol_ok`, `unpackSymbol_ok`: one symbol is written to its field and read from it, where it
  ends in the two octets that the loops look at.
* `packLoop_ok`, `unpackLoop_ok`: the loops.
* `pack_unpack_iff`: **unpacking returns what was packed if every symbol ends in those two octets**;
  the first one that does not is shifted by a negative count.
-/

namespace ChannelEmulator.ReedSolomon

open Coding

variable {b off i : ℕ} {buf : Bytes}

/-! ## Shifts -/

theorem and_mask (hb : b ≤ 8) (x : ℕ) : x &&& mask b = x % 2 ^ b := by
  have hall : ∀ b < 9, mask b = 2 ^ b - 1 := by decide
  rw [hall b (by omega), Nat.and_two_pow_sub_one_eq_mod]

/-- A value that is shifted to bit `t` of a window of `w` bits. -/
theorem testBit_placed_in {v t w r : ℕ} (hv : v < 2 ^ b) (hfit : t + b ≤ w) (hr : r < w) :
    (v <<< (w - t - b)).testBit (w - 1 - r) =
      (decide (t ≤ r ∧ r < t + b) && v.testBit (b - 1 - (r - t))) := by
  rw [Nat.testBit_shiftLeft]
  by_cases hin : t ≤ r ∧ r < t + b
  · obtain ⟨hge, hlt⟩ := hin
    rw [decide_eq_true (show w - 1 - r ≥ w - t - b by omega), decide_eq_true ⟨hge, hlt⟩,
      show w - 1 - r - (w - t - b) = b - 1 - (r - t) by omega]
  · rw [decide_eq_false hin, Bool.false_and, Bool.and_eq_false_iff]
    by_cases hlow : r < t
    · -- above the value
      have hpow : 2 ^ b ≤ 2 ^ (w - 1 - r - (w - t - b)) := Nat.pow_le_pow_right (by decide) (by omega)
      exact .inr (Nat.testBit_lt_two_pow (hv.trans_le hpow))
    · exact .inl (decide_eq_false (by omega))

/-- A value that is shifted back from bit `t` of a window of `w` bits. -/
theorem testBit_taken_from {x t w j : ℕ} (hfit : t + b ≤ w) (hj : j < b) :
    ((x >>> (w - t - b)) % 2 ^ b).testBit (b - 1 - j) = x.testBit (w - 1 - (t + j)) := by
  rw [Nat.testBit_mod_two_pow, decide_eq_true (by omega), Bool.true_and, Nat.testBit_shiftRight,
    show w - t - b + (b - 1 - j) = w - 1 - (t + j) by omega]

/-! ## One symbol -/

theorem orAt_bits (hi : i < buf.length) (s : Octet) :
    ∃ buf', orAt buf i s = .ok buf' ∧ buf'.length = buf.length ∧
      ∀ p, bitAt buf' p = (bitAt buf p || (decide (p / 8 = i) && s.toNat.testBit (7 - p % 8))) :=
  ⟨_, orAt_ok hi s, List.length_set, bitAt_set_or (List.getElem?_eq_getElem hi) s⟩

/-- What is packed of a symbol: its bits are added to its field. -/
def Added (start width : ℕ) (sym : Sym) (buf buf' : Bytes) : Prop :=
  buf'.length = buf.length ∧ ∀ p, bitAt buf' p = (bitAt buf p ||
    (decide (start ≤ p ∧ p < start + width) && sym.toNat.testBit (width - 1 - (p - start))))

/-- **One turn of `pack`.** -/
theorem packSymbol_ok (hb0 : 0 < b) (hb : b ≤ 8) {sym : Sym} (hsym : sym.toNat < 2 ^ b)
    (hfit : off + i * b + b ≤ 8 * buf.length) (hwindow : i * b % 8 + off + b ≤ 16) :
    ∃ buf', packSymbol b sym off i buf = .ok buf' ∧ Added (off + i * b) b sym buf buf' := by
  have hmask : sym.toNat &&& mask b = sym.toNat := (and_mask hb _).trans (Nat.mod_eq_of_lt hsym)
  unfold packSymbol maxBitOffsetForOneByte
  rw [hmask]
  by_cases htwo : 8 - b < i * b % 8 + off
  · obtain ⟨high, hhigh, hlen, hbits⟩ := orAt_bits (show i * b / 8 < buf.length by omega)
      (.ofNat (((sym.toNat <<< (16 - (i * b % 8 + off) - b)) % 2 ^ 16) >>> 8))
    obtain ⟨low, hlow, hlen', hbits'⟩ := orAt_bits (show i * b / 8 + 1 < high.length by omega)
      (.ofNat ((sym.toNat <<< (16 - (i * b % 8 + off) - b)) % 2 ^ 16 &&& 0xff))
    refine ⟨low, ?_, hlen'.trans hlen, fun p => ?_⟩
    · refine (if_pos htwo).trans ((if_neg (Nat.not_lt.2 hwindow)).trans ?_)
      show (orAt buf _ _ >>= _) = _
      rw [hhigh]
      exact hlow
    · have hplaced := fun r (hr : r < 16) => testBit_placed_in hsym hwindow hr
      have hand : ∀ x : ℕ, x &&& 0xff = x % 2 ^ 8 := fun x => Nat.and_two_pow_sub_one_eq_mod x 8
      rw [hbits' p, hbits p, testBit_octet _ (by omega), testBit_octet _ (by omega), hand,
        Nat.testBit_shiftRight, Nat.testBit_mod_two_pow, Nat.testBit_mod_two_pow, Nat.testBit_mod_two_pow,
        decide_eq_true (show 8 + (7 - p % 8) < 16 by omega), decide_eq_true (show 7 - p % 8 < 8 by omega),
        decide_eq_true (show 7 - p % 8 < 16 by omega), Bool.true_and, Bool.true_and, Bool.true_and, Bool.or_assoc]
      congr 1
      by_cases hq : p / 8 = i * b / 8
      · -- in the first octet of the window
        have hbit := hplaced (p % 8) (by omega)
        rw [decide_eq_true hq, decide_eq_false (show ¬ p / 8 = i * b / 8 + 1 by omega), Bool.true_and,
          Bool.false_and, Bool.or_false, show 8 + (7 - p % 8) = 16 - 1 - p % 8 by omega, hbit]
        congr 2
        · exact propext (by omega)
        · omega
      · by_cases hq' : p / 8 = i * b / 8 + 1
        · have hbit := hplaced (8 + p % 8) (by omega)
          rw [decide_eq_false hq, decide_eq_true hq', Bool.true_and, Bool.false_and, Bool.false_or,
            show 7 - p % 8 = 16 - 1 - (8 + p % 8) by omega, hbit]
          congr 2
          · exact propext (by omega)
          · omega
        · rw [decide_eq_false hq, decide_eq_false hq', Bool.false_and, Bool.false_and,
            decide_eq_false (by omega), Bool.false_and]
          rfl
  · obtain ⟨buf', hrun, hlen, hbits⟩ := orAt_bits (show i * b / 8 < buf.length by omega)
      (.ofNat (sym.toNat <<< (8 - (i * b % 8 + off) - b)))
    refine ⟨buf', (if_neg htwo).trans hrun, hlen, fun p => ?_⟩
    rw [hbits p, testBit_octet _ (by omega)]
    congr 1
    by_cases hq : p / 8 = i * b / 8
    · have hbit := testBit_placed_in hsym (show i * b % 8 + off + b ≤ 8 by omega) (show p % 8 < 8 by omega)
      rw [decide_eq_true hq, Bool.true_and, show 7 - p % 8 = 8 - 1 - p % 8 by omega, hbit]
      congr 2
      · exact propext (by omega)
      · omega
    · rw [decide_eq_false hq, Bool.false_and, decide_eq_false (by omega), Bool.false_and]

/-- **One turn of `unpack`.** -/
theorem unpackSymbol_ok (hb0 : 0 < b) (hb : b ≤ 8) (hfit : off + i * b + b ≤ 8 * buf.length)
    (hwindow : i * b % 8 + off + b ≤ 16) :
    ∃ v, unpackSymbol b buf off i = .ok v ∧ v < 2 ^ b ∧ FieldAt buf (off + i * b) b v := by
  have hlt : ∀ x, x % 2 ^ b < 2 ^ b := fun x => Nat.mod_lt x (Nat.two_pow_pos b)
  unfold unpackSymbol maxBitOffsetForOneByte
  by_cases htwo : 8 - b < i * b % 8 + off
  · obtain ⟨high, hhigh⟩ : ∃ o, buf[i * b / 8]? = some o := ⟨_, List.getElem?_eq_getElem (by omega)⟩
    obtain ⟨low, hlow⟩ : ∃ o, buf[i * b / 8 + 1]? = some o := ⟨_, List.getElem?_eq_getElem (by omega)⟩
    refine ⟨_, ?_, hlt ((high.toNat <<< 8 ||| low.toNat) >>> (16 - (i * b % 8 + off) - b)), fun j hj => ?_⟩
    · refine (if_pos htwo).trans ((if_neg (Nat.not_lt.2 hwindow)).trans ?_)
      rw [octetAt_of_getElem? hhigh, octetAt_of_getElem? hlow]
      exact congrArg Except.ok (and_mask hb _)
    · rw [testBit_taken_from hwindow hj, Nat.testBit_or, Nat.testBit_shiftLeft]
      by_cases hr : i * b % 8 + off + j < 8
      · have hsmall : low.toNat < 2 ^ (16 - 1 - (i * b % 8 + off + j)) :=
          low.toNat_lt.trans_le (Nat.pow_le_pow_right (by decide) (by omega))
        rw [bitAt_of_getElem? (by rw [show (off + i * b + j) / 8 = i * b / 8 by omega]; exact hhigh),
          decide_eq_true (by omega), Bool.true_and, Nat.testBit_lt_two_pow hsmall, Bool.or_false]
        congr 1
        omega
      · rw [bitAt_of_getElem? (by rw [show (off + i * b + j) / 8 = i * b / 8 + 1 by omega]; exact hlow),
          decide_eq_false (by omega), Bool.false_and, Bool.false_or]
        congr 1
        omega
  · obtain ⟨octet, hoctet⟩ : ∃ o, buf[i * b / 8]? = some o := ⟨_, List.getElem?_eq_getElem (by omega)⟩
    refine ⟨_, ?_, hlt (octet.toNat >>> (8 - (i * b % 8 + off) - b)), fun j hj => ?_⟩
    · refine (if_neg htwo).trans ?_
      rw [octetAt_of_getElem? hoctet]
      exact congrArg Except.ok (and_mask hb _)
    · rw [testBit_taken_from (by omega) hj,
        bitAt_of_getElem? (by rw [show (off + i * b + j) / 8 = i * b / 8 by omega]; exact hoctet)]
      congr 1
      omega

/-- A symbol that ends behind the two octets is shifted by a negative count. -/
theorem packSymbol_window (hb : b ≤ 8) {sym : Sym} {buf' : Bytes} (h : packSymbol b sym off i buf = .ok buf') :
    i * b % 8 + off + b ≤ 16 := by
  by_contra hwindow
  unfold packSymbol maxBitOffsetForOneByte at h
  have hfault := (if_pos (show 8 - b < i * b % 8 + off by omega)).symm.trans h
  cases (if_pos (Nat.lt_of_not_le hwindow)).symm.trans hfault

/-- A symbol that is added to clear bits stands in its field. -/
theorem Added.field {start : ℕ} {sym : Sym} {buf' : Bytes} (h : Added start b sym buf buf')
    (hclear : ∀ p, start ≤ p → bitAt buf p = false) : FieldAt buf' start b sym.toNat := by
  intro j hj
  rw [h.2, hclear _ (Nat.le_add_right start j), Bool.false_or, decide_eq_true (by omega), Bool.true_and,
    Nat.add_sub_cancel_left]

theorem Added.before {start : ℕ} {sym : Sym} {buf' : Bytes} (h : Added start b sym buf buf') {p : ℕ}
    (hp : p < start ∨ start + b ≤ p) : bitAt buf' p = bitAt buf p := by
  rw [h.2, decide_eq_false (by omega), Bool.false_and, Bool.or_false]

/-! ## The loops -/

variable {syms : SymVec}

/-- **The loop of `pack`** puts the symbols to their fields, and keeps the bits before them. -/
theorem packLoop_ok (hb0 : 0 < b) (hb : b ≤ 8) (hsyms : ∀ s ∈ syms, s.toNat < 2 ^ b) (symCount : ℕ) {i : ℕ}
    {buf : Bytes} (hcount : i + symCount = syms.length) (hfit : off + syms.length * b ≤ 8 * buf.length)
    (hwindow : ∀ j < syms.length, j * b % 8 + off + b ≤ 16) (hclear : ∀ p, off + i * b ≤ p → bitAt buf p = false) :
    ∃ buf', packLoop b syms off symCount i buf = .ok buf' ∧ buf'.length = buf.length ∧
      (∀ p < off + i * b, bitAt buf' p = bitAt buf p) ∧
      ∀ j s, i ≤ j → syms[j]? = some s → FieldAt buf' (off + j * b) b s.toNat := by
  induction symCount generalizing i buf with
  | zero =>
    refine ⟨buf, rfl, rfl, fun p _ => rfl, fun j s hj hs => ?_⟩
    rw [List.getElem?_eq_none (by omega)] at hs
    cases hs
  | succ symCount ih =>
    obtain ⟨sym, hsym⟩ : ∃ s, syms[i]? = some s := ⟨_, List.getElem?_eq_getElem (by omega)⟩
    have hnext : (i + 1) * b = i * b + b := Nat.succ_mul i b
    have hlast : (i + 1) * b ≤ syms.length * b := Nat.mul_le_mul_right b (by omega)
    obtain ⟨mid, hrun, hadded⟩ := packSymbol_ok hb0 hb (hsyms sym (List.mem_of_getElem? hsym))
      (show off + i * b + b ≤ 8 * buf.length by omega) (hwindow i (by omega))
    have hlen := hadded.1
    obtain ⟨buf', hrest, hlen', hkept, hfields⟩ := ih (i := i + 1) (by omega)
      (show off + syms.length * b ≤ 8 * mid.length by omega) fun p hp => by
        rw [hadded.before (.inr (by omega))]
        exact hclear p (by omega)
    refine ⟨buf', ?_, hlen'.trans hlen, fun p hp => ?_, fun j s hj hs => ?_⟩
    · unfold packLoop
      rw [octetAt_of_getElem? hsym]
      show (packSymbol b sym off i buf >>= _) = _
      rw [hrun]
      exact hrest
    · rw [hkept p (by omega), hadded.before (.inl hp)]
    · rcases Nat.eq_or_lt_of_le hj with rfl | hlt
      · rw [hsym] at hs
        obtain rfl := Option.some.inj hs
        exact (hadded.field hclear).congr fun p _ hp => hkept p (by omega)
      · exact hfields j s hlt hs

/-- A loop that ends has packed symbols that end in their two octets only. -/
theorem packLoop_window (hb : b ≤ 8) (symCount : ℕ) {i : ℕ} {buf buf' : Bytes}
    (h : packLoop b syms off symCount i buf = .ok buf') {j : ℕ} (hij : i ≤ j) (hj : j < i + symCount) :
    j * b % 8 + off + b ≤ 16 := by
  induction symCount generalizing i buf with
  | zero => omega
  | succ symCount ih =>
    obtain ⟨sym, _, hturn⟩ := Framing.bind_ok h
    obtain ⟨mid, hrun, hrest⟩ := Framing.bind_ok hturn
    rcases Nat.eq_or_lt_of_le hij with rfl | hlt
    · exact packSymbol_window hb hrun
    · exact ih hrest hlt (by omega)

/-- **The loop of `unpack`** reads the symbols that stand in the fields. -/
theorem unpackLoop_ok (hb0 : 0 < b) (hb : b ≤ 8) (hsyms : ∀ s ∈ syms, s.toNat < 2 ^ b) (symCount : ℕ) {i : ℕ}
    (hcount : i + symCount = syms.length) (hfit : off + syms.length * b ≤ 8 * buf.length)
    (hwindow : ∀ j < syms.length, j * b % 8 + off + b ≤ 16)
    (hfields : ∀ j s, syms[j]? = some s → FieldAt buf (off + j * b) b s.toNat) :
    unpackLoop b buf off symCount i = .ok (syms.drop i) := by
  induction symCount generalizing i with
  | zero =>
    rw [List.drop_of_length_le (by omega)]
    rfl
  | succ symCount ih =>
    have hlt : i < syms.length := by omega
    have hsym : syms[i]? = some syms[i] := List.getElem?_eq_getElem hlt
    have hnext : (i + 1) * b = i * b + b := Nat.succ_mul i b
    have hlast : (i + 1) * b ≤ syms.length * b := Nat.mul_le_mul_right b (by omega)
    obtain ⟨v, hrun, hv, hfield⟩ := unpackSymbol_ok hb0 hb (show off + i * b + b ≤ 8 * buf.length by omega)
      (hwindow i hlt)
    have hval := hfield.eq (hfields i _ hsym) hv (hsyms _ (List.getElem_mem hlt))
    have hoctet : UInt8.ofNat v = syms[i] := by
      rw [hval, UInt8.ofNat_toNat]
    unfold unpackLoop
    rw [hrun, ih (by omega), List.drop_eq_getElem_cons hlt]
    show Except.ok (UInt8.ofNat v :: _) = _
    rw [hoctet]

/-! ## Reversibility -/

theorem room_ge (hb0 : 0 < b) {bufLen n : ℕ} (hfit : off + n * b ≤ 8 * bufLen) : n ≤ room b bufLen off := by
  unfold room
  rw [if_neg (by omega), Nat.le_div_iff_mul_le hb0]
  omega

/-- What the claim of a round trip is: the symbols come back, and no octet but those of the buffer is
touched. -/
def Reversible (b : ℕ) (syms : SymVec) (maxSymbols bufLen off : ℕ) : Prop :=
  ∃ buf, pack b syms maxSymbols bufLen off = .ok buf ∧ buf.length = bufLen ∧
    unpack b buf syms.length off = .ok syms

/-- **Symbol packing is reversible** exactly if every symbol ends in the two octets from the one on that
its offset without the initial one is in. -/
theorem pack_unpack_iff {b off maxSymbols bufLen : ℕ} {syms : SymVec} (hb0 : 1 ≤ b) (hb : b ≤ 8)
    (hsyms : ∀ s ∈ syms, s.toNat < 2 ^ b) (hmax : syms.length ≤ maxSymbols)
    (hfit : off + syms.length * b ≤ 8 * bufLen) :
    Reversible b syms maxSymbols bufLen off ↔ ∀ i < syms.length, i * b % 8 + off + b ≤ 16 := by
  have hcount : pack b syms maxSymbols bufLen off = packLoop b syms off syms.length 0 (newUnit bufLen) := by
    unfold pack
    rw [if_pos (by omega), Nat.min_eq_right hmax]
  constructor
  · rintro ⟨buf, hpack, _⟩ i hi
    rw [hcount] at hpack
    exact packLoop_window hb syms.length hpack (Nat.zero_le i) (by omega)
  · intro hwindow
    obtain ⟨buf, hpack, hlen, _, hfields⟩ := packLoop_ok hb0 hb hsyms syms.length (Nat.zero_add _)
      (show off + syms.length * b ≤ 8 * (newUnit bufLen).length by rw [newUnit_length]; exact hfit) hwindow
      fun p _ => bitAt_replicate_zero bufLen p
    rw [newUnit_length] at hlen
    refine ⟨buf, hcount.trans hpack, hlen, ?_⟩
    unfold unpack
    rw [hlen, Nat.min_eq_left (room_ge hb0 hfit)]
    exact unpackLoop_ok hb0 hb hsyms syms.length (Nat.zero_add _) (by omega) hwindow
      fun j s hs => hfields j s (Nat.zero_le j) hs

/-- Symbols of four bits behind two bits. -/
theorem pack_unpack_nibbles : Reversible 4 [0xf, 0xe, 0xd, 0xc, 0xb, 0xa] 6 4 2 :=
  (pack_unpack_iff (by decide) (by decide) (by decide +kernel) (by decide) (by decide)).2 (by decide)

/-- The second of two symbols of seven bits behind seven bits reaches into a third octet. -/
theorem third_octet_unreached :
    ¬ ∀ b off maxSymbols bufLen (syms : SymVec), 1 ≤ b → b ≤ 8 → off ≤ 7 → (∀ s ∈ syms, s.toNat < 2 ^ b) →
      syms.length ≤ maxSymbols → off + syms.length * b ≤ 8 * bufLen →
      Reversible b syms maxSymbols bufLen off := by
  intro h
  obtain ⟨buf, hpack, _⟩ := h 7 7 2 3 [0x55, 0x2a] (by decide) (by decide) (by decide)
    (by decide +kernel) (by decide) (by decide)
  have hfault : pack 7 [0x55, 0x2a] 2 3 7 = .error .outOfBounds := by decide
  rw [hfault] at hpack
  cases hpack

end ChannelEmulator.ReedSolomon
