import Mathlib

/-!
# Numbers as polynomials over two elements

The bits of a number are the coefficients of a polynomial, the least significant first.

* `bitPolynomial_xor`, `bitPolynomial_shiftLeft`: exclusive or is the sum, and a shift the product with the unknown.
* `residue_inj`: **numbers below `2 ^ m` are the residues modulo a polynomial of degree `m`**.
* `PrimitivePolynomial`: the unknown has the order `2 ^ m - 1` modulo the polynomial.
-/

namespace Coding

open Polynomial

/-- The polynomial with the bits of a number as its coefficients. -/
noncomputable def bitPolynomial (n : ℕ) : (ZMod 2)[X] :=
  ∑ i ∈ Finset.range n.size, if n.testBit i then X ^ i else 0

variable {a b m n : ℕ}

theorem testBit_of_size_le {i : ℕ} (h : n.size ≤ i) : n.testBit i = false :=
  Nat.testBit_lt_two_pow (Nat.size_le.1 h)

theorem coeff_bitPolynomial (n i : ℕ) : (bitPolynomial n).coeff i = if n.testBit i then 1 else 0 := by
  have hterm : ∀ j, (if n.testBit j then (X : (ZMod 2)[X]) ^ j else 0).coeff i =
      if j = i then (if n.testBit i then 1 else 0) else 0 := by
    intro j
    by_cases hji : j = i
    · subst hji
      by_cases hbit : n.testBit j = true
      · rw [if_pos hbit, if_pos rfl, if_pos hbit, coeff_X_pow, if_pos rfl]
      · rw [if_neg hbit, if_pos rfl, if_neg hbit, coeff_zero]
    · rw [if_neg hji]
      by_cases hbit : n.testBit j = true
      · rw [if_pos hbit, coeff_X_pow, if_neg (Ne.symm hji)]
      · rw [if_neg hbit, coeff_zero]
  unfold bitPolynomial
  rw [finsetSum_coeff, Finset.sum_congr rfl fun j _ => hterm j, Finset.sum_ite_eq' (Finset.range n.size)]
  by_cases hi : i ∈ Finset.range n.size
  · rw [if_pos hi]
  · -- beyond its size a number has no bits
    rw [Finset.mem_range, not_lt] at hi
    rw [if_neg (by rwa [Finset.mem_range, not_lt]), testBit_of_size_le hi]
    rfl

theorem bitPolynomial_xor (a b : ℕ) : bitPolynomial (a ^^^ b) = bitPolynomial a + bitPolynomial b := by
  ext i
  rw [coeff_add, coeff_bitPolynomial, coeff_bitPolynomial, coeff_bitPolynomial, Nat.testBit_xor]
  cases a.testBit i <;> cases b.testBit i <;> decide

theorem bitPolynomial_shiftLeft (n : ℕ) : bitPolynomial (n <<< 1) = X * bitPolynomial n := by
  ext i
  rw [coeff_bitPolynomial, Nat.testBit_shiftLeft]
  cases i with
  | zero => rw [coeff_X_mul_zero]; rfl
  | succ i =>
    rw [coeff_X_mul, coeff_bitPolynomial, decide_eq_true (Nat.succ_le_succ (Nat.zero_le i)), Bool.true_and,
      Nat.add_sub_cancel]

theorem bitPolynomial_zero : bitPolynomial 0 = 0 := by
  ext i
  rw [coeff_bitPolynomial, Nat.zero_testBit, coeff_zero]
  rfl

theorem bitPolynomial_one : bitPolynomial 1 = 1 := by
  ext i
  rw [coeff_bitPolynomial, coeff_one]
  cases i with
  | zero => rfl
  | succ i => rw [Nat.testBit_succ, Nat.zero_testBit, if_neg (Nat.succ_ne_zero i)]; rfl

theorem bitPolynomial_inj : bitPolynomial a = bitPolynomial b ↔ a = b := by
  refine ⟨fun h => Nat.eq_of_testBit_eq fun i => ?_, fun h => by rw [h]⟩
  have hcoeff := congrArg (fun p => coeff p i) h
  simp only [coeff_bitPolynomial] at hcoeff
  cases ha : a.testBit i <;> cases hb : b.testBit i <;> rw [ha, hb] at hcoeff <;>
    first | rfl | exact absurd hcoeff (by decide)

/-- A number below `2 ^ m` is a polynomial below degree `m`. -/
theorem degree_bitPolynomial_lt (h : a < 2 ^ m) : (bitPolynomial a).degree < m := by
  rw [degree_lt_iff_coeff_zero]
  intro i hi
  rw [coeff_bitPolynomial, Nat.testBit_lt_two_pow (h.trans_le (Nat.pow_le_pow_right (by decide) hi))]
  rfl

/-- The degree is the place of the highest bit. -/
theorem natDegree_bitPolynomial_iff (h : 0 < m) :
    (bitPolynomial n).natDegree = m ↔ 2 ^ m ≤ n ∧ n < 2 ^ (m + 1) := by
  constructor
  · intro hdegree
    have hlow : ¬n < 2 ^ m := by
      intro hlt
      have hne : bitPolynomial n ≠ 0 := fun hzero => by rw [hzero, natDegree_zero] at hdegree; omega
      have hdeg := (natDegree_lt_iff_degree_lt hne).2 (degree_bitPolynomial_lt hlt)
      omega
    refine ⟨Nat.not_lt.1 hlow, Nat.lt_pow_two_of_testBit n fun i hi => ?_⟩
    have hzero := coeff_eq_zero_of_natDegree_lt (show (bitPolynomial n).natDegree < i by omega)
    rw [coeff_bitPolynomial] at hzero
    by_contra hbit
    rw [Bool.not_eq_false] at hbit
    rw [if_pos hbit] at hzero
    exact absurd hzero (by decide)
  · rintro ⟨hlow, hhigh⟩
    refine natDegree_eq_of_le_of_coeff_ne_zero ?_ ?_
    · rw [natDegree_le_iff_degree_le]
      exact Order.le_of_lt_succ (degree_bitPolynomial_lt hhigh)
    · rw [coeff_bitPolynomial, if_pos (Nat.testBit_of_two_pow_le_and_two_pow_add_one_gt hlow hhigh)]
      exact one_ne_zero

/-- A polynomial over two elements is monic but where it is zero. -/
theorem monic_of_natDegree_pos {p : (ZMod 2)[X]} (h : 0 < p.natDegree) : p.Monic := by
  have hne : p.leadingCoeff ≠ 0 := by
    rw [leadingCoeff_ne_zero]
    rintro rfl
    rw [natDegree_zero] at h
    omega
  have hall : ∀ c : ZMod 2, c ≠ 0 → c = 1 := by decide
  exact hall p.leadingCoeff hne

/-! ## Residues -/

/-- What is left of the polynomial of a number modulo another. -/
noncomputable def residue (p : (ZMod 2)[X]) (n : ℕ) : AdjoinRoot p := AdjoinRoot.mk p (bitPolynomial n)

variable {p : (ZMod 2)[X]}

theorem residue_one (p : (ZMod 2)[X]) : residue p 1 = 1 := by
  unfold residue
  rw [bitPolynomial_one, map_one]

theorem residue_zero (p : (ZMod 2)[X]) : residue p 0 = 0 := by
  unfold residue
  rw [bitPolynomial_zero, map_zero]

theorem residue_xor (p : (ZMod 2)[X]) (a b : ℕ) : residue p (a ^^^ b) = residue p a + residue p b := by
  unfold residue
  rw [bitPolynomial_xor, map_add]

theorem residue_shiftLeft (p : (ZMod 2)[X]) (n : ℕ) :
    residue p (n <<< 1) = AdjoinRoot.root p * residue p n := by
  unfold residue
  rw [bitPolynomial_shiftLeft, map_mul, AdjoinRoot.mk_X]

/-- A residue that is a product is the product's remainder. -/
theorem bitPolynomial_eq_modByMonic {f : (ZMod 2)[X]} (hm : 0 < m) (hp : p.natDegree = m) (ha : a < 2 ^ m)
    (h : residue p a = AdjoinRoot.mk p f) : bitPolynomial a = f %ₘ p := by
  have hmonic := monic_of_natDegree_pos (hp ▸ hm)
  have hdegree : (bitPolynomial a).degree < p.degree := by
    rw [degree_eq_natDegree hmonic.ne_zero, hp]
    exact degree_bitPolynomial_lt ha
  rw [← modByMonic_eq_of_dvd_sub hmonic (AdjoinRoot.mk_eq_mk.1 h), (modByMonic_eq_self_iff hmonic).2 hdegree]

/-- **Numbers below `2 ^ m` have different residues** modulo a polynomial of degree `m`. -/
theorem residue_inj (hm : 0 < m) (hp : p.natDegree = m) (ha : a < 2 ^ m) (hb : b < 2 ^ m) :
    residue p a = residue p b ↔ a = b := by
  refine ⟨fun h => bitPolynomial_inj.1 ?_, fun h => by rw [h]⟩
  rw [bitPolynomial_eq_modByMonic hm hp ha h]
  exact (bitPolynomial_eq_modByMonic hm hp hb rfl).symm

/-- A polynomial of degree `m` modulo which the unknown has the order `2 ^ m - 1`. -/
structure PrimitivePolynomial (m : ℕ) (p : (ZMod 2)[X]) : Prop where
  degree : p.natDegree = m
  order : orderOf (AdjoinRoot.root p) = 2 ^ m - 1

end Coding
