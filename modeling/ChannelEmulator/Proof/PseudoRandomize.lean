import ChannelEmulator.Coding.BitString
import ChannelEmulator.Framing.Run
import ChannelEmulator.Spec.PseudoRandomize

/-!
# Pseudo-randomization

* `ccsdsBit`, `ccsdsOctet`: the sequence of the generator polynomial `x^8 + x^7 + x^5 + x^3 + 1` from
  eight ones, which repeats after 255 octets.
* `new_ok`: **the constructor stores that sequence**.
* `randomized_iff`: **a unit is randomized, and back again, as far as the stored sequence goes**.
-/

namespace ChannelEmulator.PseudoRandomize

open Coding

/-! ## The sequence -/

/-- The bits of the sequence, by the recurrence of the generator polynomial. -/
def ccsdsBit : ℕ → Bool
  | k + 8 => ccsdsBit k ^^ ccsdsBit (k + 3) ^^ ccsdsBit (k + 5) ^^ ccsdsBit (k + 7)
  | _ => true

/-- The octets of the sequence. -/
def ccsdsOctet (i : ℕ) : Octet := .ofNat (ofBits (fun j => ccsdsBit (8 * i + j)) 8)

theorem testBit_ccsdsOctet (i : ℕ) {j : ℕ} (hj : j < 8) :
    (ccsdsOctet i).toNat.testBit (7 - j) = ccsdsBit (8 * i + j) := by
  have hlt := ofBits_lt (fun j => ccsdsBit (8 * i + j)) 8
  unfold ccsdsOctet
  rw [UInt8.toNat_ofNat', Nat.mod_eq_of_lt hlt, testBit_ofBits _ (by omega)]
  congr 2
  omega

/-- The generator of the source, whose condition for another start never holds. -/
def shiftGen (gen : Octet) : Octet :=
  let curBit : Octet := gen &&& 1
  nextGen 0 gen (curBit ^^^ (((gen &&& 8) >>> 3) ^^^ ((gen &&& 32) >>> 5) ^^^ ((gen &&& 128) >>> 7)))

theorem nextGen_eq (x : ℕ) (gen curBit : Octet) : nextGen x gen curBit = nextGen 0 gen curBit := by
  unfold nextGen
  rw [if_neg (fun h => h.2 (by rw [if_neg h.1.ne', Nat.zero_mod])), if_neg (fun h => absurd h.1 (by decide))]

/-- The generator shifts, and takes in the sum of four of its bits. -/
theorem testBit_shiftGen (gen : Octet) {j : ℕ} (hj : j < 8) :
    (shiftGen gen).toNat.testBit j = if j < 7 then gen.toNat.testBit (j + 1) else
      (gen.toNat.testBit 0 ^^ gen.toNat.testBit 3 ^^ gen.toNat.testBit 5 ^^ gen.toNat.testBit 7) := by
  have hall : ∀ n < 256, ∀ j < 8, (shiftGen (.ofNat n)).toNat.testBit j =
      if j < 7 then (UInt8.ofNat n).toNat.testBit (j + 1) else
        ((UInt8.ofNat n).toNat.testBit 0 ^^ (UInt8.ofNat n).toNat.testBit 3 ^^
          (UInt8.ofNat n).toNat.testBit 5 ^^ (UInt8.ofNat n).toNat.testBit 7) := by
    decide +kernel
  have hgen := hall gen.toNat gen.toNat_lt j hj
  rwa [UInt8.ofNat_toNat] at hgen

/-- **The generator holds the next eight bits.** -/
theorem testBit_generator (x : ℕ) {j : ℕ} (hj : j < 8) :
    (shiftGen^[x] 0xff).toNat.testBit j = ccsdsBit (x + j) := by
  induction x generalizing j with
  | zero =>
    have hall : ∀ j < 8, (0xff : Octet).toNat.testBit j = ccsdsBit (0 + j) := by decide
    exact hall j hj
  | succ x ih =>
    rw [Function.iterate_succ_apply', testBit_shiftGen _ hj]
    by_cases hlow : j < 7
    · rw [if_pos hlow, ih (by omega), Nat.add_right_comm, Nat.add_assoc]
    · obtain rfl : j = 7 := by omega
      rw [if_neg (by decide), ih (by decide), ih (by decide), ih (by decide), ih (by decide)]
      rfl

theorem ccsdsBit_add_period (k : ℕ) : ccsdsBit (k + 255) = ccsdsBit k := by
  have hperiod : shiftGen^[255] 0xff = 0xff := by decide +kernel
  have hgen := testBit_generator (k + 255) (j := 0) (by decide)
  rw [Function.iterate_add_apply, hperiod, testBit_generator k (by decide)] at hgen
  exact hgen.symm

/-- **The sequence repeats after 255 octets.** -/
theorem ccsdsOctet_add_period (i : ℕ) : ccsdsOctet (i + 255) = ccsdsOctet i := by
  unfold ccsdsOctet
  rw [ofBits_congr fun j _ => ?_]
  have hsplit : 8 * (i + 255) + j = 8 * i + j + 255 + 255 + 255 + 255 + 255 + 255 + 255 + 255 := by omega
  rw [hsplit]
  simp only [ccsdsBit_add_period]

theorem ccsdsOctet_mod (i : ℕ) : ccsdsOctet (i % 255) = ccsdsOctet i := by
  have hall : ∀ k r, ccsdsOctet (r + 255 * k) = ccsdsOctet r := by
    intro k r
    induction k with
    | zero => rfl
    | succ k ih => rw [Nat.mul_succ, ← Nat.add_assoc, ccsdsOctet_add_period, ih]
  conv_rhs => rw [← Nat.mod_add_div i 255]
  exact (hall _ _).symm

/-! ## The stored sequence -/

/-- The lowest bit of the generator at its place in an octet. -/
theorem testBit_placed (gen : Octet) {r j : ℕ} (hr : r < 8) (hj : j < 8) :
    ((gen &&& 1) <<< (.ofNat (7 - r) : Octet)).toNat.testBit (7 - j) =
      (decide (j = r) && gen.toNat.testBit 0) := by
  have hall : ∀ b < 2, ∀ r < 8, ∀ j < 8, ((UInt8.ofNat b) <<< (.ofNat (7 - r) : Octet)).toNat.testBit (7 - j)
      = (decide (j = r) && decide (b = 1)) := by decide
  have hand : (gen &&& 1) = UInt8.ofNat (gen.toNat % 2) := by
    refine UInt8.toNat_inj.1 ?_
    rw [UInt8.toNat_and, UInt8.toNat_ofNat', Nat.mod_eq_of_lt (b := 2 ^ 8) (by omega)]
    exact Nat.and_one_is_mod _
  rw [hand, hall _ (Nat.mod_lt _ (by decide)) r hr j hj, Nat.testBit_zero]

/-- What is stored before bit `x` is filled in. -/
structure Filling (n x : ℕ) (seqBuf : Bytes) : Prop where
  size : seqBuf.length = n
  filled : ∀ i < x, bitAt seqBuf i = ccsdsBit i
  clear : ∀ i, x ≤ i → bitAt seqBuf i = false

/-- One bit is filled in. -/
theorem Filling.store {n x : ℕ} {seqBuf : Bytes} (hf : Filling n x seqBuf) (hx : x / 8 < seqBuf.length) :
    Filling n (x + 1) (seqBuf.set (x / 8)
      (seqBuf[x / 8] ||| ((shiftGen^[x] 0xff &&& 1) <<< (.ofNat (7 - x % 8) : Octet)))) := by
  have hbit : ∀ i, bitAt (seqBuf.set (x / 8)
      (seqBuf[x / 8] ||| ((shiftGen^[x] 0xff &&& 1) <<< (.ofNat (7 - x % 8) : Octet)))) i =
      (bitAt seqBuf i || (decide (i = x) && ccsdsBit x)) := by
    intro i
    rw [bitAt_set hx]
    by_cases hi : i / 8 = x / 8
    · have hplace : decide (i % 8 = x % 8) = decide (i = x) := decide_eq_decide.2 (by omega)
      rw [if_pos hi, UInt8.toNat_or, Nat.testBit_or, testBit_placed _ (by omega) (by omega),
        testBit_generator x (by decide), Nat.add_zero, hplace,
        bitAt_of_getElem? (by rw [hi, List.getElem?_eq_getElem hx])]
    · have hne : i ≠ x := fun h => hi (h ▸ rfl)
      rw [if_neg hi, decide_eq_false hne, Bool.false_and, Bool.or_false]
  refine ⟨by rw [List.length_set, hf.size], fun i hi => ?_, fun i hi => ?_⟩
  · rw [hbit]
    rcases Nat.lt_succ_iff_lt_or_eq.1 hi with hlt | rfl
    · rw [decide_eq_false hlt.ne, Bool.false_and, Bool.or_false, hf.filled i hlt]
    · rw [hf.clear i (Nat.le_refl i), decide_eq_true rfl, Bool.true_and, Bool.false_or]
  · have hne : i ≠ x := by omega
    rw [hbit, decide_eq_false hne, Bool.false_and, Bool.or_false, hf.clear i (by omega)]

/-- **The loop of the constructor.** -/
theorem fillFrom_ok {n turns x : ℕ} (hx : x + turns = 8 * n) {seqBuf : Bytes} (hf : Filling n x seqBuf) :
    ∃ seqBuf', fillFrom turns x (shiftGen^[x] 0xff) seqBuf = .ok seqBuf' ∧ Filling n (8 * n) seqBuf' := by
  induction turns generalizing x seqBuf with
  | zero =>
    obtain rfl : x = 8 * n := hx
    exact ⟨seqBuf, rfl, hf⟩
  | succ turns ih =>
    have hlt : x / 8 < seqBuf.length := by
      rw [hf.size]
      omega
    obtain ⟨seqBuf', hrun, hf'⟩ := ih (by omega) (hf.store hlt)
    refine ⟨seqBuf', ?_, hf'⟩
    unfold fillFrom
    show (orAt seqBuf (x / 8) _ >>= _) = _
    rw [orAt_ok hlt]
    show fillFrom turns (x + 1) (nextGen x _ _) _ = _
    rw [nextGen_eq]
    rw [Function.iterate_succ_apply'] at hrun
    exact hrun

/-- **The constructor stores the sequence.** -/
theorem new_ok : new = .ok ((List.range seqBufLen).map ccsdsOctet) := by
  have hstart : Filling seqBufLen 0 (List.replicate seqBufLen 0) := by
    refine ⟨List.length_replicate .., fun i hi => absurd hi (Nat.not_lt_zero i), fun i _ => ?_⟩
    exact bitAt_replicate_zero seqBufLen i
  obtain ⟨seqBuf, hrun, hf⟩ := fillFrom_ok (show 0 + seqBufLen * 8 = 8 * seqBufLen by omega) hstart
  unfold new
  refine hrun.trans (congrArg Except.ok (eq_of_bitAt ?_ fun i hi => ?_))
  · rw [hf.size, List.length_map, List.length_range]
  · rw [hf.size] at hi
    have hget : ((List.range seqBufLen).map ccsdsOctet)[i / 8]? = some (ccsdsOctet (i / 8)) := by
      rw [List.getElem?_map, List.getElem?_range (by omega)]
      rfl
    rw [hf.filled i hi, bitAt_of_getElem? hget, testBit_ccsdsOctet _ (by omega), Nat.div_add_mod]

/-! ## Units -/

/-- The loop over a unit that the stored sequence is long enough for. -/
theorem randomizeFrom_ok {seqBuf : Bytes} {x : ℕ} {data : Bytes} (h : x + data.length ≤ seqBuf.length) :
    randomizeFrom seqBuf x data = .ok (List.zipWith (· ^^^ ·) data (seqBuf.drop x)) := by
  induction data generalizing x with
  | nil => rfl
  | cons b data ih =>
    rw [List.length_cons] at h
    have hlt : x < seqBuf.length := by omega
    unfold randomizeFrom
    rw [octetAt_of_getElem? (List.getElem?_eq_getElem hlt), ih (by omega), List.drop_eq_getElem_cons hlt]
    rfl

/-- A unit that is longer is read from behind the stored sequence. -/
theorem randomizeFrom_error {seqBuf : Bytes} {x : ℕ} (hx : x ≤ seqBuf.length) {data : Bytes}
    (h : seqBuf.length < x + data.length) : randomizeFrom seqBuf x data = .error .outOfBounds := by
  induction data generalizing x with
  | nil => exact absurd h (Nat.not_lt.2 hx)
  | cons b data ih =>
    rw [List.length_cons] at h
    unfold randomizeFrom
    rcases Nat.eq_or_lt_of_le hx with rfl | hlt
    · unfold octetAt
      rw [List.getElem?_eq_none (Nat.le_refl _)]
      rfl
    · rw [octetAt_of_getElem? (List.getElem?_eq_getElem hlt), ih hlt (by omega)]
      rfl

theorem randomize_ok {data : Bytes} (h : data.length ≤ seqBufLen) :
    randomize data = .ok (List.zipWith (· ^^^ ·) data ((List.range seqBufLen).map ccsdsOctet)) := by
  unfold randomize
  rw [new_ok]
  refine (randomizeFrom_ok ?_).trans (by rw [List.drop_zero])
  rw [List.length_map, List.length_range, Nat.zero_add]
  exact h

theorem randomize_error {data : Bytes} (h : seqBufLen < data.length) :
    randomize data = .error .outOfBounds := by
  unfold randomize
  rw [new_ok]
  refine randomizeFrom_error (Nat.zero_le _) ?_
  rw [List.length_map, List.length_range, Nat.zero_add]
  exact h

/-- **A unit is exclusive-ored with the sequence, and back again,** exactly if the stored sequence is
long enough. -/
theorem randomized_iff (data : Bytes) :
    (∃ out, randomize data = .ok out ∧ out.length = data.length ∧
      (∀ i b, data[i]? = some b → out[i]? = some (b ^^^ ccsdsOctet (i % 255))) ∧
      randomize out = .ok data) ↔ data.length ≤ seqBufLen := by
  have hsize : ((List.range seqBufLen).map ccsdsOctet).length = seqBufLen := by
    rw [List.length_map, List.length_range]
  constructor
  · rintro ⟨out, hrun, -⟩
    by_contra hlt
    rw [randomize_error (Nat.lt_of_not_le hlt)] at hrun
    cases hrun
  · intro h
    have hlen : (List.zipWith (· ^^^ ·) data ((List.range seqBufLen).map ccsdsOctet)).length =
        data.length := by
      rw [List.length_zipWith, hsize, Nat.min_eq_left h]
    have hget : ∀ i b, data[i]? = some b →
        (List.zipWith (· ^^^ ·) data ((List.range seqBufLen).map ccsdsOctet))[i]? =
          some (b ^^^ ccsdsOctet i) := by
      intro i b hb
      have hi : i < seqBufLen := (List.getElem?_eq_some_iff.1 hb).1.trans_le h
      rw [List.getElem?_zipWith, hb, List.getElem?_map, List.getElem?_range hi]
      rfl
    refine ⟨_, randomize_ok h, hlen, fun i b hb => ?_, ?_⟩
    · rw [ccsdsOctet_mod, hget i b hb]
    · rw [randomize_ok (hlen.trans_le h)]
      refine congrArg Except.ok (List.ext_getElem? fun i => ?_)
      by_cases hi : i < data.length
      · have hb := List.getElem?_eq_getElem hi
        rw [List.getElem?_zipWith, hget i _ hb, List.getElem?_map, List.getElem?_range (hi.trans_le h), hb]
        exact congrArg some ((UInt8.xor_assoc ..).trans ((congrArg _ UInt8.xor_self).trans UInt8.xor_zero))
      · rw [List.getElem?_eq_none (by rw [List.length_zipWith, hlen]; omega),
          List.getElem?_eq_none (Nat.not_lt.1 hi)]

/-- A unit of one octet more than are stored. -/
theorem long_unit_overread : ¬ ∀ data : Bytes, ∃ out, randomize data = .ok out ∧
    out.length = data.length ∧
    (∀ i b, data[i]? = some b → out[i]? = some (b ^^^ ccsdsOctet (i % 255))) ∧
    randomize out = .ok data := by
  intro hall
  obtain ⟨out, hrun, -⟩ := hall (List.replicate 65537 0)
  rw [randomize_error (by rw [List.length_replicate]; decide)] at hrun
  cases hrun

end ChannelEmulator.PseudoRandomize
