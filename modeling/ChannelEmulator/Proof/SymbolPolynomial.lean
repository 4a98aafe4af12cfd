import ChannelEmulator.Coding.BitPolynomial
import ChannelEmulator.Proof.SymbolTables

/-!
# Symbols as polynomials

* `primitive_iff`: the powers that the tables are filled with run through all symbols just if the unknown is a
  primitive element modulo the polynomial.
* `residue_mul`: **the field of the tables is that of the polynomials modulo the primitive one.**
* `gfArithmetic_polynomial`: **products and quotients through the tables are those of polynomials modulo the
  primitive polynomial.**
-/

namespace ChannelEmulator.ReedSolomon

open Coding Coding.Cycle.Element Polynomial

variable {m poly : ℕ}

/-! ## Powers of the unknown -/

/-- The step of the tables is the product with the unknown. -/
theorem residue_timesX (m poly a : ℕ) : residue (bitPolynomial poly) (timesX m poly a) =
    AdjoinRoot.root (bitPolynomial poly) * residue (bitPolynomial poly) a := by
  unfold timesX
  by_cases hbit : (a <<< 1).testBit m = true
  · have hself : residue (bitPolynomial poly) poly = 0 := AdjoinRoot.mk_self
    rw [if_pos hbit, residue_xor, residue_shiftLeft, hself, add_zero]
  · rw [if_neg hbit, residue_shiftLeft]

theorem residue_iterate (m poly k : ℕ) : residue (bitPolynomial poly) ((timesX m poly)^[k] 1) =
    AdjoinRoot.root (bitPolynomial poly) ^ k := by
  induction k with
  | zero => rw [Function.iterate_zero_apply, residue_one, pow_zero]
  | succ k ih => rw [Function.iterate_succ_apply', residue_timesX, ih, pow_succ']

/-- A power is one just if the table's is. -/
theorem root_pow_eq_one_iff (hm : 0 < m) (hlow : 2 ^ m ≤ poly) (hhigh : poly < 2 ^ (m + 1)) (k : ℕ) :
    AdjoinRoot.root (bitPolynomial poly) ^ k = 1 ↔ (timesX m poly)^[k] 1 = 1 := by
  have hdegree := (natDegree_bitPolynomial_iff hm).2 ⟨hlow, hhigh⟩
  have hlt := iterate_timesX_lt hlow hhigh hm k
  have hone : 1 < 2 ^ m := Nat.one_lt_two_pow hm.ne'
  rw [← residue_iterate m, ← residue_one, residue_inj hm hdegree hlt hone]

/-- **The tables run through all symbols just if the polynomial is primitive.** -/
theorem primitive_iff (hm : 0 < m) : Primitive m poly ↔ PrimitivePolynomial m (bitPolynomial poly) := by
  have hpos : 0 < 2 ^ m - 1 := Nat.sub_pos_of_lt (Nat.one_lt_two_pow hm.ne')
  constructor
  · intro h
    refine ⟨(natDegree_bitPolynomial_iff hm).2 ⟨h.low, h.high⟩, (orderOf_eq_iff hpos).2 ⟨?_, ?_⟩⟩
    · exact (root_pow_eq_one_iff hm h.low h.high _).2 h.order
    · intro k hk hkpos hone
      exact h.least k hkpos hk ((root_pow_eq_one_iff hm h.low h.high k).1 hone)
  · intro h
    obtain ⟨hlow, hhigh⟩ := (natDegree_bitPolynomial_iff hm).1 h.degree
    obtain ⟨horder, hleast⟩ := (orderOf_eq_iff hpos).1 h.order
    refine ⟨hlow, hhigh, (root_pow_eq_one_iff hm hlow hhigh _).1 horder, fun k hkpos hk hone => ?_⟩
    exact hleast k hk hkpos ((root_pow_eq_one_iff hm hlow hhigh k).2 hone)

/-! ## The field -/

/-- The polynomial of a symbol. -/
noncomputable def symbolPolynomial (s : Sym) : (ZMod 2)[X] := bitPolynomial s.toNat

theorem residue_power (h : Primitive m poly) (hm : 1 < m) (k : ℕ) :
    residue (bitPolynomial poly) (power (h.cycle hm) k).word.toNat =
      AdjoinRoot.root (bitPolynomial poly) ^ k := by
  rw [← residue_iterate m]
  exact congrArg (residue _) (h.toNat_iterate (by omega) k)

/-- **A product of the field is the product of the polynomials.** -/
theorem residue_mul (h : Primitive m poly) (hm : 1 < m) (x y : (h.cycle hm).Element) :
    residue (bitPolynomial poly) (x * y).word.toNat =
      residue (bitPolynomial poly) x.word.toNat * residue (bitPolynomial poly) y.word.toNat := by
  have hword : (0 : (h.cycle hm).Element).word.toNat = 0 := BitVec.toNat_zero
  have hzero : residue (bitPolynomial poly) (0 : (h.cycle hm).Element).word.toNat = 0 := by
    rw [hword, residue_zero]
  by_cases hx : x = 0
  · rw [hx, zero_mul, hzero, zero_mul]
  by_cases hy : y = 0
  · rw [hy, mul_zero, hzero, mul_zero]
  obtain ⟨j, -, rfl⟩ := exists_power hx
  obtain ⟨k, -, rfl⟩ := exists_power hy
  rw [power_mul_power, residue_power, residue_power, residue_power, pow_add]

theorem symbolPolynomial_mul (h : Primitive m poly) (hm : 1 < m) (hm' : m ≤ 8) (x y : (h.cycle hm).Element) :
    symbolPolynomial (sym (x * y)) =
      symbolPolynomial (sym x) * symbolPolynomial (sym y) %ₘ bitPolynomial poly := by
  have hdegree := (natDegree_bitPolynomial_iff (by omega)).2 ⟨h.low, h.high⟩
  unfold symbolPolynomial
  rw [toNat_sym hm', toNat_sym hm', toNat_sym hm']
  refine bitPolynomial_eq_modByMonic (by omega) hdegree (x * y).word.isLt ?_
  rw [residue_mul, map_mul]
  rfl

theorem symbolPolynomial_one : symbolPolynomial 1 = 1 := bitPolynomial_one

/-- **Products and quotients through the tables**: of symbols as polynomials, modulo the primitive one. -/
theorem gfArithmetic_polynomial {p : RSParams} (hbits : 2 ≤ p.bitsPerSymbol) (hbits_le : p.bitsPerSymbol ≤ 8)
    (hprimitive : PrimitivePolynomial p.bitsPerSymbol (bitPolynomial p.primitivePoly))
    (hdepth : 1 ≤ p.interleaveDepth) :
    ∃ rs, RSBase.new p = .ok rs ∧
      (∀ x y : Sym, x.toNat < 2 ^ p.bitsPerSymbol → y.toNat < 2 ^ p.bitsPerSymbol →
        ∃ z, rs.gfMul x y = .ok z ∧ symbolPolynomial z =
          symbolPolynomial x * symbolPolynomial y %ₘ bitPolynomial p.primitivePoly) ∧
      (∀ x y : Sym, x.toNat < 2 ^ p.bitsPerSymbol → y.toNat < 2 ^ p.bitsPerSymbol → y ≠ 0 →
        ∃ z i : Sym, rs.gfDiv x y = .ok z ∧
          symbolPolynomial i * symbolPolynomial y %ₘ bitPolynomial p.primitivePoly = 1 ∧
          symbolPolynomial z = symbolPolynomial x * symbolPolynomial i %ₘ bitPolynomial p.primitivePoly) ∧
      ∀ x, rs.gfDiv x 0 = .error (.valueTooSmall "Division by zero attempted in RSBase::gfDiv()") := by
  have h := (primitive_iff (by omega)).2 hprimitive
  obtain ⟨rs, hload, -, ht⟩ := loadTables_tabled hbits hbits_le h
  have hnew : RSBase.new p = .ok rs := by
    unfold RSBase.new
    rw [if_neg (Nat.not_lt.2 hbits_le), if_neg (by omega), hload]
  refine ⟨rs, hnew, fun x y hx hy => ?_, fun x y hx hy hne => ?_, fun x => if_pos rfl⟩
  · obtain ⟨x, rfl⟩ := exists_sym (h.cycle hbits) hx
    obtain ⟨y, rfl⟩ := exists_sym (h.cycle hbits) hy
    exact ⟨sym (x * y), ht.gfMul_ok x y, symbolPolynomial_mul h hbits hbits_le x y⟩
  · obtain ⟨x, rfl⟩ := exists_sym (h.cycle hbits) hx
    obtain ⟨y, rfl⟩ := exists_sym (h.cycle hbits) hy
    have hy0 : y ≠ 0 := fun hzero => hne ((sym_eq_zero hbits_le).2 hzero)
    refine ⟨sym (x / y), sym y⁻¹, ht.gfDiv_ok x hy0, ?_, ?_⟩
    · rw [← symbolPolynomial_mul h hbits hbits_le, inv_mul_cancel₀ hy0, ht.one, symbolPolynomial_one]
    · rw [← symbolPolynomial_mul h hbits hbits_le, div_eq_mul_inv]

/-- The symbols of two bits. -/
theorem gfArithmetic_polynomial_two :
    PrimitivePolynomial 2 (bitPolynomial 7) ∧ ∃ rs, RSBase.new ⟨7, 2, 3, 2, 1, 0, 1, false⟩ = .ok rs ∧
      ∃ z, rs.gfMul 2 3 = .ok z ∧
        symbolPolynomial z = symbolPolynomial 2 * symbolPolynomial 3 %ₘ bitPolynomial 7 := by
  have hp := (primitive_iff (by decide)).1 primitive_two
  obtain ⟨rs, hnew, hmul, -, -⟩ := gfArithmetic_polynomial (p := ⟨7, 2, 3, 2, 1, 0, 1, false⟩) (by decide)
    (by decide) hp (by decide)
  exact ⟨hp, rs, hnew, hmul 2 3 (by decide) (by decide)⟩

end ChannelEmulator.ReedSolomon
