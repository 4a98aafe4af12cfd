import ChannelEmulator.Coding.Massey
import Mathlib.LinearAlgebra.Lagrange

/-!
# The weights of points

* `powerSum_turn`: a power sum times an element, with the next one, is a power sum with other weights.
* `Massey.weights`: **a sequence whose polynomial has as many zeros as its length is one of power sums**, with weights
  none of which is zero.
-/

namespace Coding

open Polynomial

variable {K ι : Type} [Field K] [DecidableEq ι] {S S' b c : K[X]} {L n : ℕ} {s : Finset ι} {x y : ι → K}

omit [DecidableEq ι] in
/-- Power sums are turned into others. -/
theorem powerSum_turn (s : Finset ι) (x y : ι → K) (e j : ℕ) (z : K) :
    powerSum s x y e j * z + powerSum s x y e (j + 1) = powerSum s x (fun i => y i * (z + x i)) e j := by
  unfold powerSum
  rw [Finset.sum_mul, ← Finset.sum_add_distrib]
  refine Finset.sum_congr rfl fun i _ => ?_
  rw [← Nat.add_assoc, pow_succ]
  ring

/-- A coefficient of a product depends on those up to it. -/
theorem coeff_mul_congr (hS : ∀ k < n, S.coeff k = S'.coeff k) (p : K[X]) {k : ℕ} (hk : k < n) :
    (p * S).coeff k = (p * S').coeff k := by
  rw [coeff_mul, coeff_mul]
  refine Finset.sum_congr rfl fun a ha => ?_
  have hsum : a.1 + a.2 = k := Finset.HasAntidiagonal.mem_antidiagonal.1 ha
  rw [hS a.2 (by omega)]

theorem Generates.congr (h : Generates S c L n) (hS : ∀ k < n, S.coeff k = S'.coeff k) : Generates S' c L n where
  constant := h.constant
  degree_le := h.degree_le
  product k hk hlt := (coeff_mul_congr hS c hlt).symm.trans (h.product k hk hlt)

/-- What generates with as many zeros as its length is the locator of the points. -/
theorem Generates.eq_locator (h : Generates S c L n) (hcard : s.card = L) (hinj : Set.InjOn x s)
    (hx : ∀ k ∈ s, x k ≠ 0) (hzero : ∀ k ∈ s, c.eval (x k)⁻¹ = 0) : c = locator s x := by
  classical
  have hnot : (0 : K) ∉ s.image fun k => (x k)⁻¹ := by
    intro hmem
    obtain ⟨k, hk, heq⟩ := Finset.mem_image.1 hmem
    exact inv_ne_zero (hx k hk) heq
  have himage : (s.image fun k => (x k)⁻¹).card = L := by
    rw [Finset.card_image_of_injOn fun j hj k hk heq => hinj hj hk (inv_injective heq), hcard]
  refine eq_of_degree_sub_lt_of_eval_finset_eq (insert 0 (s.image fun k => (x k)⁻¹)) ?_ fun z hz => ?_
  · rw [Finset.card_insert_of_notMem hnot, himage]
    have hlocator := degree_locator_le s x
    rw [hcard] at hlocator
    refine ((degree_sub_le _ _).trans (max_le (natDegree_le_iff_degree_le.1 h.degree_le) hlocator)).trans_lt ?_
    exact_mod_cast Nat.lt_succ_self L
  · -- both are one at zero, and zero at the inverses of the points
    rcases Finset.mem_insert.1 hz with rfl | hz
    · rw [eval_zero_locator, ← coeff_zero_eq_eval_zero, h.constant]
    · obtain ⟨k, hk, rfl⟩ := Finset.mem_image.1 hz
      rw [hzero k hk, eval_locator_eq_zero.2 ⟨k, hk, mul_inv_cancel₀ (hx k hk)⟩]

/-- A polynomial below the number of the points is the evaluator of some weights. -/
theorem exists_evaluator {R : K[X]} (hR : R.degree < s.card) (hinj : Set.InjOn x s) (hx : ∀ k ∈ s, x k ≠ 0) (e : ℕ) :
    ∃ y : ι → K, evaluator s x y e = R := by
  classical
  refine ⟨fun k => R.eval (x k)⁻¹ / (x k ^ e * (locator (s.erase k) x).eval (x k)⁻¹), ?_⟩
  refine eq_of_degree_sub_lt_of_eval_index_eq s (fun k hk j hj heq => hinj hk hj (inv_injective heq)) ?_ fun k hk => ?_
  · exact (degree_sub_le _ _).trans_lt (max_lt (degree_evaluator_lt s x _ e) hR)
  · have hpow : x k ^ e ≠ 0 := pow_ne_zero _ (hx k hk)
    have hothers := eval_locator_erase_ne_zero hk (hx k hk) hinj
    rw [eval_evaluator hk (hx k hk), mul_assoc, div_mul_cancel₀ _ (mul_ne_zero hpow hothers)]

/-- **A sequence whose polynomial has as many zeros as its length is one of power sums.** -/
theorem Generates.weights (h : Generates S c L n) (hcard : s.card = L) (hinj : Set.InjOn x s)
    (hx : ∀ k ∈ s, x k ≠ 0) (hzero : ∀ k ∈ s, c.eval (x k)⁻¹ = 0) (e : ℕ) :
    ∃ y : ι → K, ∀ j < n, S.coeff j = (powerSums s x y e n).coeff j := by
  obtain ⟨A, R, hprod, hR⟩ := h.remainder
  rw [h.eq_locator hcard hinj hx hzero] at hprod
  obtain ⟨y, hy⟩ := exists_evaluator (R := R) (by rwa [hcard]) hinj hx e
  refine ⟨y, fun j hj => ?_⟩
  have hdvd : X ^ n ∣ (S - powerSums s x y e n) * locator s x := by
    refine ⟨A + evaluator s x y (e + n), ?_⟩
    rw [sub_mul, key_equation, hy, mul_comm S, hprod]
    ring
  have hone : ¬ X ∣ locator s x := by
    rw [X_dvd_iff, coeff_zero_eq_eval_zero, eval_zero_locator]
    exact one_ne_zero
  have hcoeff := X_pow_dvd_iff.1 (prime_X.pow_dvd_of_dvd_mul_right n hone hdvd) j hj
  rwa [coeff_sub, sub_eq_zero] at hcoeff

omit [DecidableEq ι] in
theorem coeff_powerSums {j : ℕ} (hj : j < n) (e : ℕ) : (powerSums s x y e n).coeff j = powerSum s x y e j := by
  unfold powerSums
  rw [finsetSum_coeff]
  simp only [coeff_C_mul_X_pow]
  rw [Finset.sum_eq_single j (fun k _ hne => if_neg hne.symm) fun hnot => absurd (Finset.mem_range.2 hj) hnot,
    if_pos rfl]

/-- **None of the weights is zero** where the length is the least. -/
theorem Massey.weights (h : Massey S c b L n) (hcard : s.card = L) (hinj : Set.InjOn x s) (hx : ∀ k ∈ s, x k ≠ 0)
    (hzero : ∀ k ∈ s, c.eval (x k)⁻¹ = 0) (e : ℕ) :
    ∃ y : ι → K, (∀ k ∈ s, y k ≠ 0) ∧ ∀ j < n, S.coeff j = powerSum s x y e j := by
  obtain ⟨y, hy⟩ := h.generates.weights hcard hinj hx hzero e
  refine ⟨y, fun k hk hyk => ?_, fun j hj => (hy j hj).trans (coeff_powerSums hj e)⟩
  -- without that point there would be a shorter one
  have hshorter : ∀ j < n, (powerSums (s.erase k) x y e n).coeff j = S.coeff j := by
    intro j hj
    rw [hy j hj, coeff_powerSums hj, coeff_powerSums hj]
    unfold powerSum
    rw [← Finset.add_sum_erase s _ hk, hyk, zero_mul, zero_add]
  have hle := h.least _ _ ((generates_locator (s.erase k) x y e n).congr hshorter)
  have hpos := Finset.card_pos.2 ⟨k, hk⟩
  rw [Finset.card_erase_of_mem hk] at hle
  omega

end Coding
