import Mathlib.Algebra.Polynomial.Degree.Lemmas
import Mathlib.Algebra.Polynomial.Eval.Degree

/-!
# Polynomials as lists of coefficients

The coefficients of a polynomial in a list, the highest first, with zeros in front perhaps.

* `ofCoeffs_append`, `ofCoeffs_set`, `ofCoeffs_zipWith`: what lists put together, changed in one place
  and added up stand for.
* `horner`: the value of a polynomial, from the highest coefficient on.
* `ofCoeffs_drop`: **the coefficients at the end are a remainder modulo a power of the unknown**.
-/

namespace Coding

open Polynomial

variable {K : Type} [CommRing K]

/-- The polynomial with these coefficients, the highest first. -/
noncomputable def ofCoeffs : List K → K[X]
  | [] => 0
  | a :: p => C a * X ^ p.length + ofCoeffs p

@[simp] theorem ofCoeffs_nil : ofCoeffs ([] : List K) = 0 := rfl

theorem ofCoeffs_cons (a : K) (p : List K) : ofCoeffs (a :: p) = C a * X ^ p.length + ofCoeffs p := rfl

@[simp] theorem ofCoeffs_singleton (a : K) : ofCoeffs [a] = C a := by
  rw [ofCoeffs_cons, ofCoeffs_nil, List.length_nil, pow_zero, mul_one, add_zero]

theorem ofCoeffs_append (p q : List K) : ofCoeffs (p ++ q) = ofCoeffs p * X ^ q.length + ofCoeffs q := by
  induction p with
  | nil => rw [List.nil_append, ofCoeffs_nil, zero_mul, zero_add]
  | cons a p ih =>
    rw [List.cons_append, ofCoeffs_cons, ofCoeffs_cons, ih, List.length_append, pow_add]
    ring

theorem ofCoeffs_replicate_zero (n : ℕ) : ofCoeffs (List.replicate n (0 : K)) = 0 := by
  induction n with
  | zero => rfl
  | succ n ih => rw [List.replicate_succ, ofCoeffs_cons, ih, map_zero, zero_mul, add_zero]

theorem degree_ofCoeffs_lt (p : List K) : (ofCoeffs p).degree < p.length := by
  induction p with
  | nil => exact degree_zero.trans_lt (WithBot.bot_lt_coe 0)
  | cons a p ih =>
    rw [ofCoeffs_cons]
    refine (degree_add_le _ _).trans_lt (max_lt ?_ (ih.trans ?_))
    · refine (degree_C_mul_X_pow_le _ _).trans_lt ?_
      exact_mod_cast Nat.lt_succ_self p.length
    · exact_mod_cast Nat.lt_succ_self p.length

/-- A coefficient, counted from the end of the list. -/
theorem coeff_ofCoeffs (p : List K) (k : ℕ) : (ofCoeffs p).coeff k = (p.reverse[k]?).getD 0 := by
  induction p with
  | nil => rfl
  | cons a p ih =>
    rw [ofCoeffs_cons, coeff_add, coeff_C_mul_X_pow, ih, List.reverse_cons]
    rcases Nat.lt_trichotomy k p.length with hlt | rfl | hgt
    · rw [if_neg hlt.ne, zero_add, List.getElem?_append_left (by rwa [List.length_reverse])]
    · rw [if_pos rfl, List.getElem?_append_right (by rw [List.length_reverse]),
        List.getElem?_eq_none (by rw [List.length_reverse]), List.length_reverse, Nat.sub_self]
      exact add_zero a
    · rw [if_neg hgt.ne', zero_add, List.getElem?_eq_none (by rw [List.length_reverse]; exact hgt.le),
        List.getElem?_eq_none
          (by rw [List.length_append, List.length_reverse, List.length_singleton]; exact hgt)]

/-- A change in one place. -/
theorem ofCoeffs_set {r : List K} {k : ℕ} {a : K} (h : r[k]? = some a) (v : K) :
    ofCoeffs (r.set k (a + v)) = ofCoeffs r + C v * X ^ (r.length - 1 - k) := by
  induction r generalizing k with
  | nil => cases h
  | cons b r ih =>
    cases k with
    | zero =>
      obtain rfl := Option.some.inj h
      rw [List.set_cons_zero, ofCoeffs_cons, ofCoeffs_cons, List.length_cons, Nat.add_sub_cancel,
        Nat.sub_zero, map_add]
      ring
    | succ k =>
      have hk : k + 1 < r.length + 1 := (List.getElem?_eq_some_iff.1 h).1
      rw [List.set_cons_succ, ofCoeffs_cons, ofCoeffs_cons, ih h, List.length_set, List.length_cons,
        show r.length + 1 - 1 - (k + 1) = r.length - 1 - k by omega]
      ring

theorem ofCoeffs_zipWith {p q : List K} (h : p.length = q.length) :
    ofCoeffs (List.zipWith (· + ·) p q) = ofCoeffs p + ofCoeffs q := by
  induction p generalizing q with
  | nil =>
    obtain rfl := List.length_eq_zero_iff.1 h.symm
    rw [List.zipWith_nil_left, ofCoeffs_nil, add_zero]
  | cons a p ih =>
    cases q with
    | nil => cases h
    | cons b q =>
      have hlen : p.length = q.length := Nat.succ.inj h
      rw [List.zipWith_cons_cons, ofCoeffs_cons, ofCoeffs_cons, ofCoeffs_cons, ih hlen,
        List.length_zipWith, hlen, Nat.min_self, map_add]
      ring

theorem ofCoeffs_map_mul (p : List K) (c : K) : ofCoeffs (p.map (· * c)) = ofCoeffs p * C c := by
  induction p with
  | nil => rw [List.map_nil, ofCoeffs_nil, zero_mul]
  | cons a p ih =>
    rw [List.map_cons, ofCoeffs_cons, ofCoeffs_cons, ih, List.length_map, map_mul]
    ring

/-- **The value of a polynomial**, from the highest coefficient on. -/
theorem horner (x y : K) (p : List K) :
    p.foldl (fun y a => y * x + a) y = y * x ^ p.length + (ofCoeffs p).eval x := by
  induction p generalizing y with
  | nil => rw [List.foldl_nil, ofCoeffs_nil, eval_zero, List.length_nil, pow_zero, mul_one, add_zero]
  | cons a p ih =>
    rw [List.foldl_cons, ih, ofCoeffs_cons, eval_add, eval_mul, eval_C, eval_pow, eval_X,
      List.length_cons, pow_succ]
    ring

/-- What has a degree below the exponent is the remainder modulo a power of the unknown. -/
theorem eq_of_mul_X_pow_add {n : ℕ} {a b r s : K[X]} (hr : r.degree < n) (hs : s.degree < n)
    (h : a * X ^ n + r = b * X ^ n + s) : r = s := by
  ext k
  by_cases hk : k < n
  · have hcoeff := congrArg (fun p => coeff p k) h
    simp only [coeff_add, coeff_mul_X_pow', if_neg (Nat.not_le.2 hk), zero_add] at hcoeff
    exact hcoeff
  · have hle : ((n : ℕ) : WithBot ℕ) ≤ k := by exact_mod_cast Nat.not_lt.1 hk
    rw [coeff_eq_zero_of_degree_lt (hr.trans_le hle), coeff_eq_zero_of_degree_lt (hs.trans_le hle)]

/-- **The last coefficients.** -/
theorem ofCoeffs_drop {p : List K} {n : ℕ} (hn : n ≤ p.length) {a r : K[X]} (hr : r.degree < n)
    (h : ofCoeffs p = a * X ^ n + r) : ofCoeffs (p.drop (p.length - n)) = r := by
  have hlen : (p.drop (p.length - n)).length = n := by
    rw [List.length_drop]
    omega
  have hdegree := degree_ofCoeffs_lt (p.drop (p.length - n))
  rw [hlen] at hdegree
  refine eq_of_mul_X_pow_add hdegree hr (a := ofCoeffs (p.take (p.length - n))) (b := a) ?_
  have hsplit := ofCoeffs_append (p.take (p.length - n)) (p.drop (p.length - n))
  rw [List.take_append_drop, hlen] at hsplit
  rw [← hsplit, h]

end Coding
