import Mathlib.Algebra.Polynomial.BigOperators
import Mathlib.Algebra.Polynomial.Derivative
import Mathlib.Algebra.Field.GeomSum

/-!
# Power sums of weighted points

Points `x i` with weights `y i`, and the power sums of weights times powers of points that begin with
the exponent `b`.

* `locator`: the polynomial with the inverses of the points as its zeros.
* `key_equation`: **the power sums times the locator are the evaluator**, up to the power sums' number.
* `forney`: **the evaluator and the derivative of the locator give the weights**.
-/

namespace Coding

open Polynomial Finset

variable {K ι : Type} [Field K] [DecidableEq ι]

/-- The power sum with the exponent `b + j`. -/
def powerSum (s : Finset ι) (x y : ι → K) (b j : ℕ) : K := ∑ i ∈ s, y i * x i ^ (b + j)

/-- The first power sums as coefficients. -/
noncomputable def powerSums (s : Finset ι) (x y : ι → K) (b n : ℕ) : K[X] :=
  ∑ j ∈ range n, C (powerSum s x y b j) * X ^ j

noncomputable def locator (s : Finset ι) (x : ι → K) : K[X] := ∏ i ∈ s, (1 - C (x i) * X)

/-- The evaluator. -/
noncomputable def evaluator (s : Finset ι) (x y : ι → K) (b : ℕ) : K[X] :=
  ∑ i ∈ s, C (y i * x i ^ b) * locator (s.erase i) x

variable {s : Finset ι} {x y : ι → K} {i : ι}

theorem locator_insert (hi : i ∉ s) : locator (insert i s) x = (1 - C (x i) * X) * locator s x :=
  prod_insert hi

theorem locator_erase (hi : i ∈ s) : (1 - C (x i) * X) * locator (s.erase i) x = locator s x :=
  mul_prod_erase s (fun i => 1 - C (x i) * X) hi

theorem degree_locator_le (s : Finset ι) (x : ι → K) : (locator s x).degree ≤ s.card := by
  induction s using Finset.induction_on with
  | empty => exact degree_one_le
  | insert i s hi ih =>
    have hfactor : (1 - C (x i) * X).degree ≤ 1 := by
      refine (degree_sub_le _ _).trans (max_le (degree_one_le.trans zero_le_one) ?_)
      rw [← pow_one (X : K[X])]
      exact degree_C_mul_X_pow_le 1 (x i)
    rw [locator_insert hi, card_insert_of_notMem hi, Nat.cast_succ, add_comm]
    exact (degree_mul_le _ _).trans (add_le_add hfactor ih)

omit [DecidableEq ι] in
theorem eval_zero_locator (s : Finset ι) (x : ι → K) : (locator s x).eval 0 = 1 := by
  unfold locator
  rw [eval_prod]
  refine prod_eq_one fun i _ => ?_
  rw [eval_sub, eval_one, eval_mul, eval_X, mul_zero, sub_zero]

omit [DecidableEq ι] in
/-- The zeros of the locator are the inverses of the points. -/
theorem eval_locator_eq_zero {z : K} : (locator s x).eval z = 0 ↔ ∃ i ∈ s, x i * z = 1 := by
  unfold locator
  rw [eval_prod, prod_eq_zero_iff]
  refine exists_congr fun i => and_congr_right fun _ => ?_
  rw [eval_sub, eval_one, eval_mul, eval_C, eval_X, sub_eq_zero, eq_comm]

theorem degree_evaluator_lt (s : Finset ι) (x y : ι → K) (b : ℕ) :
    (evaluator s x y b).degree < s.card := by
  unfold evaluator
  refine (degree_sum_le _ _).trans_lt ((Finset.sup_lt_iff (WithBot.bot_lt_coe _)).2 fun i hi => ?_)
  rw [← smul_eq_C_mul]
  refine (degree_smul_le _ _).trans_lt ((degree_locator_le _ _).trans_lt ?_)
  exact_mod_cast card_erase_lt_of_mem hi

/-- The power sums of one point are a geometric series. -/
theorem geometric (a : K) (n : ℕ) :
    (∑ j ∈ range n, C (a ^ j) * X ^ j) * (1 - C a * X) = 1 - C (a ^ n) * X ^ n := by
  have hterm : ∀ j, C (a ^ j) * X ^ j = (C a * X) ^ j := by
    intro j
    rw [mul_pow, C_pow]
  simp only [hterm]
  exact geom_sum_mul_neg (C a * X) n

/-- **The power sums times the locator** are the evaluator, but for the powers from `n` on. -/
theorem key_equation (s : Finset ι) (x y : ι → K) (b n : ℕ) :
    powerSums s x y b n * locator s x =
      -evaluator s x y (b + n) * X ^ n + evaluator s x y b := by
  have hsums : powerSums s x y b n =
      ∑ i ∈ s, C (y i * x i ^ b) * ∑ j ∈ range n, C (x i ^ j) * X ^ j := by
    unfold powerSums powerSum
    simp only [map_sum, sum_mul, mul_sum]
    rw [sum_comm]
    refine sum_congr rfl fun i _ => sum_congr rfl fun j _ => ?_
    rw [pow_add, ← mul_assoc, map_mul, mul_assoc]
  rw [hsums, sum_mul]
  unfold evaluator
  rw [neg_mul, sum_mul, ← sum_neg_distrib, ← sum_add_distrib]
  refine sum_congr rfl fun i hi => ?_
  calc C (y i * x i ^ b) * (∑ j ∈ range n, C (x i ^ j) * X ^ j) * locator s x
      = C (y i * x i ^ b) * ((∑ j ∈ range n, C (x i ^ j) * X ^ j) * (1 - C (x i) * X)) *
          locator (s.erase i) x := by rw [← locator_erase hi]; ring
    _ = C (y i * x i ^ b) * (1 - C (x i ^ n) * X ^ n) * locator (s.erase i) x := by rw [geometric]
    _ = _ := by
        rw [pow_add, ← mul_assoc, map_mul (C : K →+* K[X]) (y i * x i ^ b) (x i ^ n)]
        ring

/-- The value of the evaluator at the inverse of a point. -/
theorem eval_evaluator (hi : i ∈ s) (hx : x i ≠ 0) (b : ℕ) :
    (evaluator s x y b).eval (x i)⁻¹ = y i * x i ^ b * (locator (s.erase i) x).eval (x i)⁻¹ := by
  unfold evaluator
  rw [eval_finsetSum, sum_eq_single_of_mem i hi fun j hj hne => ?_, eval_mul, eval_C]
  -- the locator of the others without `j` has the zero of `i`
  rw [eval_mul, eval_locator_eq_zero.2 ⟨i, mem_erase.2 ⟨hne.symm, hi⟩, mul_inv_cancel₀ hx⟩, mul_zero]

/-- The value of the locator's derivative there. -/
theorem eval_derivative_locator (hi : i ∈ s) (hx : x i ≠ 0) :
    (derivative (locator s x)).eval (x i)⁻¹ = -(x i) * (locator (s.erase i) x).eval (x i)⁻¹ := by
  rw [← locator_erase hi, derivative_mul, eval_add, eval_mul, eval_mul]
  have hfactor : (1 - C (x i) * X).eval (x i)⁻¹ = 0 := by
    rw [eval_sub, eval_one, eval_mul, eval_C, eval_X, mul_inv_cancel₀ hx, sub_self]
  rw [hfactor, zero_mul, add_zero, derivative_sub, derivative_one, zero_sub, derivative_mul,
    derivative_C, zero_mul, zero_add, derivative_X, mul_one, eval_neg, eval_C]

/-- The other points are not zeros of the locator without them. -/
theorem eval_locator_erase_ne_zero (hi : i ∈ s) (hx : x i ≠ 0) (hinj : Set.InjOn x s) :
    (locator (s.erase i) x).eval (x i)⁻¹ ≠ 0 := by
  intro hzero
  obtain ⟨j, hj, hmul⟩ := eval_locator_eq_zero.1 hzero
  obtain ⟨hne, hjs⟩ := mem_erase.1 hj
  exact hne (hinj hjs hi ((mul_inv_eq_one₀ hx).1 hmul))

/-- **Forney's formula.** -/
theorem forney (hi : i ∈ s) (hx : x i ≠ 0) (hinj : Set.InjOn x s) (b : ℕ) :
    (evaluator s x y b).eval (x i)⁻¹ / ((x i)⁻¹ * (derivative (locator s x)).eval (x i)⁻¹) =
      -(y i * x i ^ b) := by
  have hne := eval_locator_erase_ne_zero hi hx hinj
  have hden : (x i)⁻¹ * (-(x i) * (locator (s.erase i) x).eval (x i)⁻¹) =
      -(locator (s.erase i) x).eval (x i)⁻¹ := by
    rw [← mul_assoc, mul_neg, inv_mul_cancel₀ hx, neg_one_mul]
  rw [eval_evaluator hi hx, eval_derivative_locator hi hx, hden, div_neg,
    mul_div_cancel_right₀ _ hne]

end Coding
