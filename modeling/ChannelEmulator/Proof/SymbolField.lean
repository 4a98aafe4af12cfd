import ChannelEmulator.Coding.RegisterField
import ChannelEmulator.Spec.ReedSolomon
import Mathlib.Data.Finset.Card
import Mathlib.Data.Finset.Image
import Mathlib.Order.Interval.Finset.Nat

/-!
# The field of symbols

* `Primitive`: a polynomial over two elements, with bits as its coefficients, modulo which the powers
  of the unknown run through all polynomials of lower degree but zero.
* `Primitive.cycle`: **the shift register of such a polynomial makes a field of the symbols**.
* `sym`: an element of the field as a symbol.
-/

namespace ChannelEmulator.ReedSolomon

open Coding

/-- The product with the unknown, modulo a polynomial of degree `m`. -/
def timesX (m poly a : ℕ) : ℕ :=
  if (a <<< 1).testBit m then (a <<< 1) ^^^ poly else a <<< 1

/-- The polynomial has degree `m`, and the unknown has the order `2 ^ m - 1` modulo it. -/
structure Primitive (m poly : ℕ) : Prop where
  low : 2 ^ m ≤ poly
  high : poly < 2 ^ (m + 1)
  order : (timesX m poly)^[2 ^ m - 1] 1 = 1
  least : ∀ k, 0 < k → k < 2 ^ m - 1 → (timesX m poly)^[k] 1 ≠ 1

variable {m poly : ℕ}

/-- What is below `2 ^ (m + 1)` and lacks the highest bit is below `2 ^ m`. -/
theorem lt_of_not_testBit {a : ℕ} (h : a < 2 ^ (m + 1)) (hbit : a.testBit m = false) : a < 2 ^ m := by
  refine Nat.lt_pow_two_of_testBit a fun i hi => ?_
  rcases hi.eq_or_lt with rfl | hlt
  · exact hbit
  · exact Nat.testBit_lt_two_pow (h.trans_le (Nat.pow_le_pow_right (by decide) hlt))

theorem testBit_of_le {a : ℕ} (hlow : 2 ^ m ≤ a) (hhigh : a < 2 ^ (m + 1)) : a.testBit m = true := by
  by_contra hbit
  have hlt := lt_of_not_testBit hhigh (Bool.eq_false_of_not_eq_true hbit)
  omega

theorem shift_lt {a : ℕ} (h : a < 2 ^ m) : a <<< 1 < 2 ^ (m + 1) := by
  rw [Nat.shiftLeft_eq, Nat.pow_succ]
  omega

theorem timesX_lt (hlow : 2 ^ m ≤ poly) (hhigh : poly < 2 ^ (m + 1)) {a : ℕ} (ha : a < 2 ^ m) :
    timesX m poly a < 2 ^ m := by
  unfold timesX
  by_cases hbit : (a <<< 1).testBit m = true
  · rw [if_pos hbit]
    refine lt_of_not_testBit (Nat.xor_lt_two_pow (shift_lt ha) hhigh) ?_
    rw [Nat.testBit_xor, hbit, testBit_of_le hlow hhigh]
    rfl
  · rw [if_neg hbit]
    exact lt_of_not_testBit (shift_lt ha) (Bool.eq_false_of_not_eq_true hbit)

theorem iterate_timesX_lt (hlow : 2 ^ m ≤ poly) (hhigh : poly < 2 ^ (m + 1)) (hm : 0 < m) (k : ℕ) :
    (timesX m poly)^[k] 1 < 2 ^ m := by
  induction k with
  | zero => exact Nat.one_lt_two_pow hm.ne'
  | succ k ih =>
    rw [Function.iterate_succ_apply']
    exact timesX_lt hlow hhigh ih

namespace Primitive

/-- **The shift register of the polynomial multiplies with the unknown.** -/
theorem toNat_shift (h : Primitive m poly) (hm : 0 < m) (c : BitVec m) :
    ((Register.left (BitVec.ofNat m poly)).shift c).toNat = timesX m poly c.toNat := by
  have hlt := timesX_lt h.low h.high c.isLt
  have hmsb : c.msb = (c.toNat <<< 1).testBit m := by
    rw [BitVec.msb_eq_getLsbD_last, Nat.testBit_shiftLeft, decide_eq_true (show m ≥ 1 from hm),
      Bool.true_and]
    exact (BitVec.testBit_toNat c).symm
  show ((c <<< 1) ^^^ gate c.msb (BitVec.ofNat m poly)).toNat = _
  rw [hmsb]
  unfold timesX at hlt ⊢
  by_cases hbit : (c.toNat <<< 1).testBit m = true
  · rw [if_pos hbit] at hlt ⊢
    rw [hbit, gate_true, BitVec.toNat_xor, BitVec.toNat_shiftLeft, BitVec.toNat_ofNat,
      ← Nat.xor_mod_two_pow, Nat.mod_eq_of_lt hlt]
  · rw [if_neg hbit] at hlt ⊢
    have hgate : (c <<< 1) ^^^ gate false (BitVec.ofNat m poly) = c <<< 1 := BitVec.xor_zero
    rw [Bool.eq_false_of_not_eq_true hbit, hgate, BitVec.toNat_shiftLeft, Nat.mod_eq_of_lt hlt]

theorem iterate_lt (h : Primitive m poly) (hm : 0 < m) (k : ℕ) : (timesX m poly)^[k] 1 < 2 ^ m :=
  iterate_timesX_lt h.low h.high hm k

theorem timesX_zero (m poly : ℕ) : timesX m poly 0 = 0 := by
  unfold timesX
  rw [Nat.zero_shiftLeft, Nat.zero_testBit, if_neg (by decide)]

theorem iterate_ne_zero (h : Primitive m poly) {k : ℕ} (hk : k < 2 ^ m - 1) :
    (timesX m poly)^[k] 1 ≠ 0 := by
  intro hzero
  have horder := h.order
  rw [← Nat.sub_add_cancel hk.le, Function.iterate_add_apply, hzero,
    Function.iterate_fixed (timesX_zero m poly)] at horder
  cases horder

/-- The powers of the unknown are different. -/
theorem iterate_inj (h : Primitive m poly) {j k : ℕ} (hj : j < 2 ^ m - 1) (hk : k < 2 ^ m - 1)
    (heq : (timesX m poly)^[j] 1 = (timesX m poly)^[k] 1) : j = k := by
  have hle : ∀ {i l : ℕ}, i < l → l < 2 ^ m - 1 →
      (timesX m poly)^[i] 1 ≠ (timesX m poly)^[l] 1 := by
    intro i l hil hl heq
    -- the rest of the cycle leads from the first to one, and from the second beyond it
    refine h.least (l - i) (by omega) (by omega) ?_
    have hrest := congrArg (timesX m poly)^[2 ^ m - 1 - i] heq
    rw [← Function.iterate_add_apply, ← Function.iterate_add_apply,
      Nat.sub_add_cancel (by omega), h.order] at hrest
    have hsum : 2 ^ m - 1 - i + l = (l - i) + (2 ^ m - 1) := by omega
    rw [hsum, Function.iterate_add_apply, h.order] at hrest
    exact hrest.symm
  rcases Nat.lt_trichotomy j k with hlt | heqjk | hgt
  · exact absurd heq (hle hlt hk)
  · exact heqjk
  · exact absurd heq.symm (hle hgt hj)

/-- **The powers of the unknown are all but zero.** -/
theorem iterate_covers (h : Primitive m poly) (hm : 0 < m) {a : ℕ} (ha : a < 2 ^ m) (hne : a ≠ 0) :
    ∃ k < 2 ^ m - 1, (timesX m poly)^[k] 1 = a := by
  let powers := (Finset.range (2 ^ m - 1)).image fun k => (timesX m poly)^[k] 1
  have hsub : powers ⊆ Finset.Ico 1 (2 ^ m) := by
    intro x hx
    obtain ⟨k, hk, rfl⟩ := Finset.mem_image.1 hx
    have hpos := Nat.pos_of_ne_zero (h.iterate_ne_zero (Finset.mem_range.1 hk))
    exact Finset.mem_Ico.2 ⟨hpos, h.iterate_lt hm k⟩
  have hcard : powers.card = 2 ^ m - 1 := by
    rw [Finset.card_image_of_injOn, Finset.card_range]
    intro j hj k hk heq
    exact h.iterate_inj (Finset.mem_range.1 hj) (Finset.mem_range.1 hk) heq
  have hall : powers = Finset.Ico 1 (2 ^ m) :=
    Finset.eq_of_subset_of_card_le hsub (by rw [hcard, Nat.card_Ico])
  have hmem : a ∈ powers := by
    rw [hall]
    exact Finset.mem_Ico.2 ⟨Nat.pos_of_ne_zero hne, ha⟩
  obtain ⟨k, hk, heq⟩ := Finset.mem_image.1 hmem
  exact ⟨k, Finset.mem_range.1 hk, heq⟩

theorem toNat_iterate (h : Primitive m poly) (hm : 0 < m) (k : ℕ) :
    ((Register.left (BitVec.ofNat m poly)).shift^[k] (BitVec.ofNat m 1)).toNat =
      (timesX m poly)^[k] 1 := by
  induction k with
  | zero => exact Nat.mod_eq_of_lt (Nat.one_lt_two_pow hm.ne')
  | succ k ih => rw [Function.iterate_succ_apply', Function.iterate_succ_apply', h.toNat_shift hm, ih]

/-- The shift register of the polynomial. -/
def cycle (h : Primitive m poly) (hm : 1 < m) : Cycle m where
  toRegister := Register.left (BitVec.ofNat m poly)
  one := BitVec.ofNat m 1
  period := 2 ^ m - 1
  one_ne hone := by
    have hnat := congrArg BitVec.toNat hone
    rw [BitVec.toNat_ofNat, Nat.mod_eq_of_lt (Nat.one_lt_two_pow (by omega))] at hnat
    cases hnat
  period_pos := Nat.sub_pos_of_lt (Nat.one_lt_two_pow (by omega))
  periodic := by
    refine BitVec.eq_of_toNat_eq ?_
    rw [h.toNat_iterate (by omega), h.order, BitVec.toNat_ofNat,
      Nat.mod_eq_of_lt (Nat.one_lt_two_pow (by omega))]
  least k hpos hlt heq := by
    refine h.least k hpos hlt ?_
    rw [← h.toNat_iterate (by omega), heq, BitVec.toNat_ofNat,
      Nat.mod_eq_of_lt (Nat.one_lt_two_pow (by omega))]
  covers x hx := by
    have hne : x.toNat ≠ 0 := fun hzero => hx (BitVec.eq_of_toNat_eq hzero)
    obtain ⟨k, hk, heq⟩ := h.iterate_covers (by omega) x.isLt hne
    exact ⟨k, hk, BitVec.eq_of_toNat_eq ((h.toNat_iterate (by omega) k).trans heq)⟩

end Primitive

/-- Symbols of two bits. -/
theorem primitive_two : Primitive 2 7 := by
  refine ⟨by decide, by decide, by decide, fun k hpos hlt => ?_⟩
  have hall : ∀ k < 3, 0 < k → (timesX 2 7)^[k] 1 ≠ 1 := by decide
  exact hall k hlt hpos

/-- Symbols of three bits. -/
theorem primitive_three : Primitive 3 11 := by
  refine ⟨by decide, by decide, by decide, fun k hpos hlt => ?_⟩
  have hall : ∀ k < 7, 0 < k → (timesX 3 11)^[k] 1 ≠ 1 := by decide
  exact hall k hlt hpos

/-! ## Symbols -/

/-- An element of the field as a symbol. -/
def sym {C : Cycle m} (x : C.Element) : Sym := .ofNat x.word.toNat

variable {C : Cycle m}

theorem toNat_sym (hm : m ≤ 8) (x : C.Element) : (sym x).toNat = x.word.toNat := by
  refine Nat.mod_eq_of_lt (x.word.isLt.trans_le ?_)
  exact Nat.pow_le_pow_right (by decide) hm

theorem sym_lt (hm : m ≤ 8) (x : C.Element) : (sym x).toNat < 2 ^ m := by
  rw [toNat_sym hm]
  exact x.word.isLt

theorem sym_inj (hm : m ≤ 8) {x y : C.Element} : sym x = sym y ↔ x = y := by
  refine ⟨fun h => ?_, fun h => by rw [h]⟩
  have hnat := congrArg UInt8.toNat h
  rw [toNat_sym hm, toNat_sym hm] at hnat
  exact Cycle.Element.ext (BitVec.eq_of_toNat_eq hnat)

theorem sym_zero : sym (0 : C.Element) = 0 := by
  have hzero : (0 : C.Element).word.toNat = 0 := BitVec.toNat_zero
  unfold sym
  rw [hzero]
  rfl

theorem sym_eq_zero (hm : m ≤ 8) {x : C.Element} : sym x = 0 ↔ x = 0 := by
  rw [← sym_inj hm, sym_zero]

theorem sym_add (x y : C.Element) : sym (x + y) = sym x ^^^ sym y := by
  unfold sym
  rw [Cycle.Element.word_add, BitVec.toNat_xor, UInt8.ofNat_xor]

/-- A symbol that is in range is an element. -/
theorem exists_sym (C : Cycle m) {s : Sym} (h : s.toNat < 2 ^ m) : ∃ x : C.Element, sym x = s := by
  refine ⟨⟨BitVec.ofNat m s.toNat⟩, ?_⟩
  unfold sym
  rw [BitVec.toNat_ofNat, Nat.mod_eq_of_lt h, UInt8.ofNat_toNat]

theorem exists_map_sym (C : Cycle m) {v : SymVec} (h : ∀ s ∈ v, s.toNat < 2 ^ m) :
    ∃ xs : List C.Element, v = xs.map sym := by
  induction v with
  | nil => exact ⟨[], rfl⟩
  | cons s v ih =>
    obtain ⟨x, rfl⟩ := exists_sym C (h s (List.mem_cons_self ..))
    obtain ⟨xs, rfl⟩ := ih fun s hs => h s (List.mem_cons_of_mem _ hs)
    exact ⟨x :: xs, rfl⟩

end ChannelEmulator.ReedSolomon
