import ChannelEmulator.Coding.Massey

/-!
# Recurrences

A polynomial with the constant coefficient one that generates a sequence is a linear recurrence: each element is
a sum of multiples of those before.

* `coeff_mul_sum`: a coefficient of a product with such a polynomial.
* `generates_iff_recurrence`: **a sequence is generated with a length just if it has a recurrence of that length.**
-/

namespace Coding

open Polynomial

variable {K : Type} [Field K] {S : K[X]} {L i n : ℕ}

/-- A coefficient of a product with a polynomial whose constant coefficient is one. -/
theorem coeff_mul_sum {p : K[X]} (hdegree : p.natDegree ≤ L) (hL : L ≤ i) (hone : p.coeff 0 = 1) :
    (p * S).coeff i = S.coeff i + ∑ t ∈ Finset.range L, p.coeff (1 + t) * S.coeff (i - (1 + t)) := by
  rw [coeff_mul, Finset.Nat.sum_antidiagonal_eq_sum_range_succ_mk]
  have hsub : Finset.range (L + 1) ⊆ Finset.range i.succ := Finset.range_subset_range.2 (by omega)
  rw [← Finset.sum_subset hsub fun k _ hk => ?_]
  · rw [Finset.sum_range_succ', hone, one_mul, Nat.sub_zero, add_comm]
    simp only [Nat.add_comm 1]
  · have hlt : L < k := by
      rw [Finset.mem_range] at hk
      omega
    rw [coeff_eq_zero_of_natDegree_lt (hdegree.trans_lt hlt), zero_mul]

/-- The polynomial of a recurrence. -/
noncomputable def recurrence (taps : ℕ → K) (L : ℕ) : K[X] := 1 - ∑ t ∈ Finset.range L, C (taps t) * X ^ (1 + t)

theorem coeff_recurrence (taps : ℕ → K) (L k : ℕ) : (recurrence taps L).coeff k =
    if k = 0 then 1 else if k ≤ L then -taps (k - 1) else 0 := by
  unfold recurrence
  rw [coeff_sub, finsetSum_coeff]
  simp only [coeff_C_mul_X_pow, coeff_one]
  rcases Nat.eq_zero_or_pos k with rfl | hk
  · rw [if_pos rfl, if_pos rfl, Finset.sum_eq_zero fun t _ => if_neg (by omega), sub_zero]
  · rw [if_neg (by omega), if_neg (by omega), zero_sub]
    by_cases hle : k ≤ L
    · rw [if_pos hle, Finset.sum_eq_single (k - 1) (fun t _ hne => if_neg (by omega)) fun hnot => ?_,
        if_pos (by omega)]
      rw [Finset.mem_range] at hnot
      omega
    · rw [if_neg hle, Finset.sum_eq_zero fun t ht => ?_, neg_zero]
      rw [Finset.mem_range] at ht
      exact if_neg (by omega)

theorem natDegree_recurrence_le (taps : ℕ → K) (L : ℕ) : (recurrence taps L).natDegree ≤ L := by
  refine natDegree_le_iff_coeff_eq_zero.2 fun k hk => ?_
  rw [coeff_recurrence, if_neg (by omega), if_neg (by omega)]

/-- **A sequence is generated with a length just if it has a recurrence of that length.** -/
theorem generates_iff_recurrence : (∃ c, Generates S c L n) ↔
    ∃ taps : ℕ → K, ∀ k, L ≤ k → k < n → S.coeff k = ∑ t ∈ Finset.range L, taps t * S.coeff (k - (1 + t)) := by
  constructor
  · rintro ⟨c, h⟩
    refine ⟨fun t => -c.coeff (1 + t), fun k hk hlt => ?_⟩
    have hzero := h.product k hk hlt
    rw [coeff_mul_sum h.degree_le hk h.constant] at hzero
    rw [eq_neg_of_add_eq_zero_left hzero, ← Finset.sum_neg_distrib]
    exact Finset.sum_congr rfl fun t _ => (neg_mul _ _).symm
  · rintro ⟨taps, h⟩
    have hone : (recurrence taps L).coeff 0 = 1 := by rw [coeff_recurrence, if_pos rfl]
    refine ⟨recurrence taps L, hone, natDegree_recurrence_le taps L, fun k hk hlt => ?_⟩
    rw [coeff_mul_sum (natDegree_recurrence_le taps L) hk hone, h k hk hlt, ← Finset.sum_add_distrib]
    refine Finset.sum_eq_zero fun t ht => ?_
    rw [Finset.mem_range] at ht
    rw [coeff_recurrence, if_neg (by omega), if_pos (by omega), Nat.add_sub_cancel_left, neg_mul, add_neg_cancel]

end Coding
