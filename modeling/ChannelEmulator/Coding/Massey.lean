import ChannelEmulator.Coding.Forney
import ChannelEmulator.Coding.ListPolynomial
import Mathlib.Algebra.Polynomial.Roots

/-!
# The Berlekamp-Massey algorithm

The coefficients of `S` below `i` are generated by a polynomial with a length when the product has no
coefficients from the length on.

* `Generates.add_le`: **what generates one coefficient more has to be long**.
* `Massey`: the two polynomials of the algorithm behind some coefficients, with `agree`, `adjust` and
  `lengthen` for its turns. **The length is the least there is.**
* `generates_locator`: the locator of weighted points generates their power sums.
* `Massey.locates`: **few points are found**: the length is their number, and the zeros are theirs.
-/

namespace Coding

open Polynomial

variable {K : Type} [Field K] {S b c g : K[X]} {i L n : ℕ}

/-- The polynomial generates the coefficients of `S` below `i`, with the length `L`. -/
structure Generates (S c : K[X]) (L i : ℕ) : Prop where
  constant : c.coeff 0 = 1
  degree_le : c.natDegree ≤ L
  product : ∀ k, L ≤ k → k < i → (c * S).coeff k = 0

theorem Generates.of_succ (h : Generates S c L (i + 1)) : Generates S c L i :=
  ⟨h.constant, h.degree_le, fun k hk hlt => h.product k hk (Nat.lt_succ_of_lt hlt)⟩

/-- A coefficient of a product, where those before are zero as far as the degree reaches. -/
theorem coeff_mul_of_gap {p q : K[X]} (hp : p.natDegree ≤ L)
    (hq : ∀ k, i ≤ k + L → k < i → q.coeff k = 0) : (p * q).coeff i = p.coeff 0 * q.coeff i := by
  rw [coeff_mul]
  refine Finset.sum_eq_single (0, i) (fun x hx hne => ?_) fun hnot => ?_
  · have hsum : x.1 + x.2 = i := Finset.HasAntidiagonal.mem_antidiagonal.1 hx
    by_cases hdeg : x.1 ≤ L
    · have hpos : x.1 ≠ 0 := by
        intro hzero
        exact hne (Prod.ext hzero (by show x.2 = i; omega))
      rw [hq x.2 (by omega) (by omega), mul_zero]
    · rw [coeff_eq_zero_of_natDegree_lt (hp.trans_lt (Nat.lt_of_not_le hdeg)), zero_mul]
  · exact absurd (Finset.HasAntidiagonal.mem_antidiagonal.2 (Nat.zero_add i)) hnot

/-- **Massey's bound**: where one polynomial fails at a coefficient, another that does not fail there
is long. -/
theorem Generates.add_le (h : Generates S c L i) (hfail : (c * S).coeff i ≠ 0)
    (hg : Generates S g n (i + 1)) : i + 1 ≤ L + n := by
  by_contra hlt
  -- the coefficient of the product of both with `S`, taken in two ways
  have hleft : (c * (g * S)).coeff i = c.coeff 0 * (g * S).coeff i :=
    coeff_mul_of_gap h.degree_le fun k hk hki => hg.product k (by omega) (by omega)
  have hright : (g * (c * S)).coeff i = g.coeff 0 * (c * S).coeff i :=
    coeff_mul_of_gap hg.degree_le fun k hk hki => h.product k (by omega) hki
  rw [hg.product i (by omega) (Nat.lt_succ_self i), mul_zero] at hleft
  rw [hg.constant, one_mul, mul_left_comm, hleft] at hright
  exact hfail hright.symm

/-- The state of the algorithm: a polynomial that generates the coefficients below `i`, and an older
one. -/
structure Massey (S c b : K[X]) (L i : ℕ) : Prop where
  generates : Generates S c L i
  length_le : L ≤ i
  old_degree : b.natDegree + L ≤ i
  old : ∀ k, i < k + L → k ≤ i → (X * b * S).coeff k = if k = i then 1 else 0
  least : ∀ g n, Generates S g n i → L ≤ n

theorem Massey.start (S : K[X]) : Massey S 1 1 0 0 where
  generates := ⟨coeff_one_zero, natDegree_one.le, fun k _ hk => absurd hk (Nat.not_lt_zero k)⟩
  length_le := Nat.le_refl 0
  old_degree := natDegree_one.le
  old k hk hle := absurd hk (by omega)
  least _ n _ := Nat.zero_le n

namespace Massey

/-- The older polynomial once more multiplied by the unknown. -/
theorem old_shift (h : Massey S c b L i) (k : ℕ) (hk : i + 1 < k + L) (hle : k ≤ i + 1) :
    (X * (X * b) * S).coeff k = if k = i + 1 then 1 else 0 := by
  have hlen := h.length_le
  obtain ⟨k, rfl⟩ := Nat.exists_eq_succ_of_ne_zero (show k ≠ 0 by omega)
  rw [mul_assoc, Nat.succ_eq_add_one, coeff_X_mul, h.old k (by omega) (by omega)]
  exact if_congr (by omega) rfl rfl

theorem old_shift_degree (h : Massey S c b L i) : (X * b).natDegree + L ≤ i + 1 := by
  have hdegree : (X * b).natDegree ≤ 1 + b.natDegree := natDegree_mul_le.trans
    (Nat.add_le_add_right natDegree_X_le _)
  have hold := h.old_degree
  omega

/-- **The next coefficient agrees.** -/
theorem agree (h : Massey S c b L i) (hzero : (c * S).coeff i = 0) : Massey S c (X * b) L (i + 1) where
  generates := by
    refine ⟨h.generates.constant, h.generates.degree_le, fun k hk hlt => ?_⟩
    rcases Nat.lt_succ_iff_lt_or_eq.1 hlt with hlt | rfl
    · exact h.generates.product k hk hlt
    · exact hzero
  length_le := Nat.le_succ_of_le h.length_le
  old_degree := h.old_shift_degree
  old := h.old_shift
  least g n hg := h.least g n hg.of_succ

/-- A multiple of the older polynomial is subtracted. -/
theorem coeff_adjusted (d : K) (k : ℕ) :
    ((c - X * b * C d) * S).coeff k = (c * S).coeff k - (X * b * S).coeff k * d := by
  rw [sub_mul, mul_right_comm, coeff_sub, coeff_mul_C]

theorem constant_adjusted (h : Massey S c b L i) (d : K) : (c - X * b * C d).coeff 0 = 1 := by
  rw [coeff_sub, mul_assoc, coeff_X_mul_zero, sub_zero, h.generates.constant]

theorem degree_adjusted (h : Massey S c b L i) (d : K) {n : ℕ} (hc : L ≤ n) (hb : i + 1 ≤ n + L) :
    (c - X * b * C d).natDegree ≤ n := by
  have hdegree := h.old_shift_degree
  refine (natDegree_sub_le _ _).trans (max_le (h.generates.degree_le.trans hc) ?_)
  exact (natDegree_mul_C_le _ _).trans (by omega)

/-- **The next coefficient disagrees**, and the length is enough. -/
theorem adjust (h : Massey S c b L i) (hlong : i < 2 * L) :
    Massey S (c - X * b * C ((c * S).coeff i)) (X * b) L (i + 1) where
  generates := by
    refine ⟨h.constant_adjusted _, h.degree_adjusted _ (Nat.le_refl L) (by omega), fun k hk hlt => ?_⟩
    rw [coeff_adjusted, h.old k (by omega) (by omega)]
    rcases Nat.lt_succ_iff_lt_or_eq.1 hlt with hlt | rfl
    · rw [h.generates.product k hk hlt, if_neg hlt.ne, zero_mul, sub_zero]
    · rw [if_pos rfl, one_mul, sub_self]
  length_le := Nat.le_succ_of_le h.length_le
  old_degree := h.old_shift_degree
  old := h.old_shift
  least g n hg := h.least g n hg.of_succ

/-- **The next coefficient disagrees**, and more length is needed. -/
theorem lengthen (h : Massey S c b L i) (hfail : (c * S).coeff i ≠ 0) (hshort : 2 * L ≤ i) :
    Massey S (c - X * b * C ((c * S).coeff i)) (c * C ((c * S).coeff i)⁻¹) (i + 1 - L) (i + 1) where
  generates := by
    refine ⟨h.constant_adjusted _, h.degree_adjusted _ (by omega) (by omega), fun k hk hlt => ?_⟩
    rw [coeff_adjusted, h.old k (by omega) (by omega)]
    rcases Nat.lt_succ_iff_lt_or_eq.1 hlt with hlt | rfl
    · rw [h.generates.product k (by omega) hlt, if_neg hlt.ne, zero_mul, sub_zero]
    · rw [if_pos rfl, one_mul, sub_self]
  length_le := Nat.sub_le _ _
  old_degree := by
    have hdegree := (natDegree_mul_C_le c ((c * S).coeff i)⁻¹).trans h.generates.degree_le
    omega
  old k hk hle := by
    obtain ⟨k, rfl⟩ := Nat.exists_eq_succ_of_ne_zero (show k ≠ 0 by omega)
    rw [Nat.succ_eq_add_one, mul_assoc, coeff_X_mul, mul_right_comm, coeff_mul_C]
    rcases Nat.lt_or_ge k i with hlt | hge
    · rw [h.generates.product k (by omega) hlt, zero_mul, if_neg (by omega)]
    · obtain rfl : k = i := by omega
      rw [mul_inv_cancel₀ hfail, if_pos rfl]
  least g n hg := by
    have hbound := h.generates.add_le hfail hg
    omega

end Massey

/-! ## Power sums -/

/-- **The locator of some points generates their power sums**, with their number as its length. -/
theorem generates_locator {ι : Type} [DecidableEq ι] (s : Finset ι) (x y : ι → K) (b n : ℕ) :
    Generates (powerSums s x y b n) (locator s x) s.card n where
  constant := by
    rw [coeff_zero_eq_eval_zero]
    exact eval_zero_locator s x
  degree_le := natDegree_le_iff_degree_le.2 (degree_locator_le s x)
  product k hk hlt := by
    have hdegree : (evaluator s x y b).degree < k :=
      (degree_evaluator_lt s x y b).trans_le (by exact_mod_cast hk)
    rw [mul_comm, key_equation, coeff_add, coeff_mul_X_pow', if_neg (Nat.not_le.2 hlt), zero_add,
      coeff_eq_zero_of_degree_lt hdegree]

theorem degree_mul_lt {p q : K[X]} {j k : ℕ} (hp : p.degree < j) (hq : q.degree ≤ k) :
    (p * q).degree < ((j + k : ℕ) : WithBot ℕ) := by
  by_cases hp0 : p = 0
  · rw [hp0, zero_mul, degree_zero]
    exact WithBot.bot_lt_coe _
  by_cases hq0 : q = 0
  · rw [hq0, mul_zero, degree_zero]
    exact WithBot.bot_lt_coe _
  rw [degree_eq_natDegree hp0] at hp
  rw [degree_eq_natDegree hq0] at hq
  have hp' : p.natDegree < j := by exact_mod_cast hp
  have hq' : q.natDegree ≤ k := by exact_mod_cast hq
  rw [degree_mul, degree_eq_natDegree hp0, degree_eq_natDegree hq0]
  exact_mod_cast (by omega : p.natDegree + q.natDegree < j + k)

/-- What generates coefficients leaves a remainder that is shorter than its length. -/
theorem Generates.remainder (h : Generates S c L n) :
    ∃ A R : K[X], c * S = A * X ^ n + R ∧ R.degree < L := by
  have hmonic : (X ^ n : K[X]).Monic := monic_X_pow n
  refine ⟨c * S /ₘ X ^ n, c * S %ₘ X ^ n, ?_, ?_⟩
  · rw [mul_comm _ (X ^ n), add_comm, modByMonic_add_div]
  · refine (degree_lt_iff_coeff_zero _ _).2 fun k hk => ?_
    by_cases hkn : k < n
    · have hsum := congrArg (fun p => p.coeff k) (modByMonic_add_div (c * S) (X ^ n))
      simp only [coeff_add, coeff_X_pow_mul', if_neg (Nat.not_le.2 hkn), add_zero] at hsum
      rw [hsum]
      exact h.product k hk hkn
    · have hdeg : (c * S %ₘ X ^ n).degree < n := by
        have hlt := degree_modByMonic_lt (c * S) hmonic
        rwa [degree_X_pow] at hlt
      exact coeff_eq_zero_of_degree_lt (hdeg.trans_le (by exact_mod_cast Nat.le_of_not_lt hkn))

section Points

variable {ι : Type} [DecidableEq ι] {s : Finset ι} {x y : ι → K} {e : ℕ}

/-- **What generates power sums has the inverses of the points as zeros.** -/
theorem Generates.eval_eq_zero (h : Generates (powerSums s x y e n) c L n) (hlen : L + s.card ≤ n)
    (hinj : Set.InjOn x s) (hx : ∀ k ∈ s, x k ≠ 0) (hy : ∀ k ∈ s, y k ≠ 0) {k : ι} (hk : k ∈ s) :
    c.eval (x k)⁻¹ = 0 := by
  obtain ⟨A, R, hprod, hR⟩ := h.remainder
  have hcross : R * locator s x = c * evaluator s x y e := by
    have hleft : (R * locator s x).degree < n :=
      (degree_mul_lt hR (degree_locator_le s x)).trans_le (by exact_mod_cast hlen)
    have hright : (c * evaluator s x y e).degree < n := by
      rw [mul_comm]
      refine (degree_mul_lt (degree_evaluator_lt s x y e) (natDegree_le_iff_degree_le.1 h.degree_le)).trans_le ?_
      exact_mod_cast (by omega : s.card + L ≤ n)
    -- the product of all three, in two ways
    refine eq_of_mul_X_pow_add (a := A * locator s x) (b := -(c * evaluator s x y (e + n))) hleft hright ?_
    calc A * locator s x * X ^ n + R * locator s x = c * powerSums s x y e n * locator s x := by
          rw [hprod]; ring
      _ = c * (powerSums s x y e n * locator s x) := by ring
      _ = -(c * evaluator s x y (e + n)) * X ^ n + c * evaluator s x y e := by
          rw [key_equation]; ring
  have hzero : (locator s x).eval (x k)⁻¹ = 0 :=
    eval_locator_eq_zero.2 ⟨k, hk, mul_inv_cancel₀ (hx k hk)⟩
  have heval := congrArg (fun p => p.eval (x k)⁻¹) hcross
  simp only [eval_mul, hzero, mul_zero] at heval
  refine (mul_eq_zero.1 heval.symm).resolve_right ?_
  rw [eval_evaluator hk (hx k hk)]
  exact mul_ne_zero (mul_ne_zero (hy k hk) (pow_ne_zero _ (hx k hk))) (eval_locator_erase_ne_zero hk (hx k hk) hinj)

omit [DecidableEq ι] in
/-- There are no more zeros than the degree. -/
theorem card_le_of_zeros (hc : c ≠ 0) (hinj : Set.InjOn x s) (hzero : ∀ k ∈ s, c.eval (x k)⁻¹ = 0) :
    s.card ≤ c.natDegree := by
  classical
  have hcard : (s.image fun k => (x k)⁻¹).card = s.card :=
    Finset.card_image_of_injOn fun j hj k hk heq => hinj hj hk (inv_injective heq)
  rw [← hcard]
  refine card_le_degree_of_subset_roots fun z hz => ?_
  obtain ⟨k, hk, rfl⟩ := Finset.mem_image.1 hz
  exact (mem_roots hc).2 (hzero k hk)

theorem Generates.ne_zero (h : Generates S c L n) : c ≠ 0 := by
  intro hc
  have hone := h.constant
  rw [hc, coeff_zero] at hone
  exact one_ne_zero hone.symm

/-- **The points are not more than the length**, where both together are few. -/
theorem Generates.card_le (h : Generates (powerSums s x y e n) c L n) (hlen : L + s.card ≤ n)
    (hinj : Set.InjOn x s) (hx : ∀ k ∈ s, x k ≠ 0) (hy : ∀ k ∈ s, y k ≠ 0) : s.card ≤ L :=
  (card_le_of_zeros h.ne_zero hinj fun _ hk => h.eval_eq_zero hlen hinj hx hy hk).trans h.degree_le

/-- **Few points are found**: there are as many as the length, and the polynomial has no other zeros. -/
theorem Massey.locates (h : Massey (powerSums s x y e n) c b L n) (hfew : 2 * s.card ≤ n)
    (hx : ∀ k, x k ≠ 0) (hy : ∀ k ∈ s, y k ≠ 0) {t : Finset ι} (hst : s ⊆ t) (hinj : Set.InjOn x t) :
    L = s.card ∧ ∀ k ∈ t, c.eval (x k)⁻¹ = 0 ↔ k ∈ s := by
  have hinj' : Set.InjOn x s := hinj.mono hst
  have hle : L ≤ s.card := h.least _ _ (generates_locator ..)
  have hge := h.generates.card_le (by omega) hinj' (fun k _ => hx k) hy
  have hzero : ∀ k ∈ s, c.eval (x k)⁻¹ = 0 := fun k hk =>
    h.generates.eval_eq_zero (by omega) hinj' (fun k _ => hx k) hy hk
  refine ⟨Nat.le_antisymm hle hge, fun k hk => ⟨fun hk0 => ?_, hzero k⟩⟩
  by_contra hnot
  -- one zero too many
  have hinsert : Set.InjOn x (insert k s : Finset ι) := hinj.mono (Finset.insert_subset hk hst)
  have hmany := card_le_of_zeros h.generates.ne_zero hinsert fun j hj => by
    rcases Finset.mem_insert.1 hj with rfl | hj
    · exact hk0
    · exact hzero j hj
  rw [Finset.card_insert_of_notMem hnot] at hmany
  have hdegree := h.generates.degree_le
  omega

end Points

end Coding
