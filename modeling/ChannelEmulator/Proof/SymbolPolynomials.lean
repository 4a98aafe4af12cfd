import ChannelEmulator.Coding.ListPolynomial
import ChannelEmulator.Proof.SymbolTables
import Mathlib.Algebra.Polynomial.Derivative

/-!
# Polynomials of symbols

What the functions on vectors of symbols do, as polynomials over the field of symbols.

* `gfPolyMul_ok`, `gfPolyEval_ok`, `gfPolyScale_ok`, `gfPolyAdd_map`: **products, values, multiples and
  sums**.
* `eval_derivative`: every other coefficient makes the derivative.
-/

namespace ChannelEmulator.ReedSolomon

open Coding Polynomial

variable {m : ℕ} {C : Cycle m} {rs : RSBase}

theorem octetAt_map {v : List C.Element} {i : ℕ} {a : C.Element} (h : v[i]? = some a) :
    octetAt (v.map sym) i = .ok (sym a) := by
  refine octetAt_some ?_
  rw [List.getElem?_map, h]
  rfl

theorem xorAt_map {v : List C.Element} {i : ℕ} {a : C.Element} (h : v[i]? = some a) (b : C.Element) :
    xorAt (v.map sym) i (sym b) = .ok ((v.set i (a + b)).map sym) := by
  have hlt : i < (v.map sym).length := by
    rw [List.length_map]
    exact (List.getElem?_eq_some_iff.1 h).1
  unfold xorAt
  rw [octetAt_map h, List.map_set, sym_add]
  exact setAt_ok hlt _

namespace Tabled

/-- The inner loop adds a multiple. -/
theorem mulInner_ok (h : Tabled C rs) (c : C.Element) (i j : ℕ) (p r : List C.Element)
    (hle : i + j + p.length ≤ r.length) :
    ∃ r', rs.mulInner (sym c) j i (p.map sym) (r.map sym) = .ok (r'.map sym) ∧ r'.length = r.length ∧
      ofCoeffs r' = ofCoeffs r + Polynomial.C c * ofCoeffs p * X ^ (r.length - (i + j + p.length)) := by
  induction p generalizing i r with
  | nil => exact ⟨r, rfl, rfl, by rw [ofCoeffs_nil, mul_zero, zero_mul, add_zero]⟩
  | cons a p ih =>
    rw [List.length_cons] at hle ⊢
    have hget : r[i + j]? = some r[i + j] := List.getElem?_eq_getElem (by omega)
    obtain ⟨r', hrun, hlen, hr'⟩ := ih (i + 1) (r.set (i + j) (r[i + j] + a * c)) (by
      rw [List.length_set]
      omega)
    rw [List.length_set] at hlen hr'
    refine ⟨r', ?_, hlen, ?_⟩
    · rw [List.map_cons]
      unfold RSBase.mulInner
      rw [h.gfMul_ok]
      show (xorAt (r.map sym) (i + j) (sym (a * c)) >>= _) = _
      rw [xorAt_map hget]
      exact hrun
    · have hexp : r.length - 1 - (i + j) = p.length + (r.length - (i + j + (p.length + 1))) := by omega
      have hexp' : r.length - (i + 1 + j + p.length) = r.length - (i + j + (p.length + 1)) := by omega
      rw [hr', ofCoeffs_set hget, ofCoeffs_cons, hexp, hexp', pow_add, map_mul]
      ring

theorem mulOuter_ok (h : Tabled C rs) (p : List C.Element) (j : ℕ) (q r : List C.Element)
    (hle : j + q.length + p.length ≤ r.length + 1) :
    ∃ r', rs.mulOuter (p.map sym) j (q.map sym) (r.map sym) = .ok (r'.map sym) ∧
      r'.length = r.length ∧
      ofCoeffs r' = ofCoeffs r +
        ofCoeffs p * ofCoeffs q * X ^ (r.length + 1 - (j + q.length + p.length)) := by
  induction q generalizing j r with
  | nil => exact ⟨r, rfl, rfl, by rw [ofCoeffs_nil, mul_zero, zero_mul, add_zero]⟩
  | cons c q ih =>
    rw [List.length_cons] at hle ⊢
    obtain ⟨r₁, hrun₁, hlen₁, hr₁⟩ := h.mulInner_ok c 0 j p r (by omega)
    obtain ⟨r₂, hrun₂, hlen₂, hr₂⟩ := ih (j + 1) r₁ (by omega)
    refine ⟨r₂, ?_, hlen₂.trans hlen₁, ?_⟩
    · rw [List.map_cons]
      unfold RSBase.mulOuter
      rw [hrun₁]
      exact hrun₂
    · have hexp : r.length - (0 + j + p.length) =
          q.length + (r.length + 1 - (j + (q.length + 1) + p.length)) := by omega
      have hexp' : r.length + 1 - (j + 1 + q.length + p.length) =
          r.length + 1 - (j + (q.length + 1) + p.length) := by omega
      rw [hr₂, hr₁, hlen₁, ofCoeffs_cons, hexp, hexp', pow_add]
      ring

/-- **Products of polynomials.** -/
theorem gfPolyMul_ok (h : Tabled C rs) {p q : List C.Element} (hpos : 0 < p.length + q.length) :
    ∃ r, rs.gfPolyMul (p.map sym) (q.map sym) = .ok (r.map sym) ∧
      r.length = p.length + q.length - 1 ∧ ofCoeffs r = ofCoeffs p * ofCoeffs q := by
  obtain ⟨r, hrun, hlen, hr⟩ := h.mulOuter_ok p 0 q (List.replicate (p.length + q.length - 1) 0) (by
    rw [List.length_replicate]
    omega)
  rw [List.length_replicate] at hlen hr
  refine ⟨r, ?_, hlen, ?_⟩
  · unfold RSBase.gfPolyMul
    rw [List.length_map, List.length_map]
    rw [List.map_replicate, sym_zero] at hrun
    exact hrun
  · have hexp : p.length + q.length - 1 + 1 - (0 + q.length + p.length) = 0 := by omega
    rw [hr, ofCoeffs_replicate_zero, zero_add, hexp, pow_zero, mul_one]

theorem evalFrom_ok (h : Tabled C rs) (x y : C.Element) (p : List C.Element) :
    rs.evalFrom (sym x) (sym y) (p.map sym) = .ok (sym (p.foldl (fun y a => y * x + a) y)) := by
  induction p generalizing y with
  | nil => rfl
  | cons a p ih =>
    rw [List.map_cons, List.foldl_cons, ← ih]
    unfold RSBase.evalFrom
    rw [h.gfMul_ok, sym_add]
    cases p <;> rfl

/-- **Values of polynomials.** -/
theorem gfPolyEval_ok (h : Tabled C rs) {p : List C.Element} (hp : p ≠ []) (x : C.Element) :
    rs.gfPolyEval (p.map sym) (sym x) = .ok (sym ((ofCoeffs p).eval x)) := by
  cases p with
  | nil => exact absurd rfl hp
  | cons a p =>
    rw [List.map_cons]
    unfold RSBase.gfPolyEval
    simp only
    rw [h.evalFrom_ok, horner, ofCoeffs_cons, eval_add, eval_mul, eval_C, eval_pow, eval_X]

/-- **Multiples.** -/
theorem gfPolyScale_ok (h : Tabled C rs) (p : List C.Element) (x : C.Element) :
    rs.gfPolyScale (p.map sym) (sym x) = .ok ((p.map (· * x)).map sym) := by
  unfold RSBase.gfPolyScale
  induction p with
  | nil => rfl
  | cons a p ih =>
    rw [List.map_cons, List.mapM_cons, h.gfMul_ok, ih]
    rfl

end Tabled

theorem padFront_map (size : ℕ) (p : List C.Element) :
    RSBase.padFront size (p.map sym) = (List.replicate (size - p.length) 0 ++ p).map sym := by
  unfold RSBase.padFront
  rw [List.map_append, List.map_replicate, sym_zero, List.length_map]

/-- **Sums.** -/
theorem gfPolyAdd_map (p q : List C.Element) :
    ∃ r, RSBase.gfPolyAdd (p.map sym) (q.map sym) = r.map sym ∧
      r.length = max p.length q.length ∧ ofCoeffs r = ofCoeffs p + ofCoeffs q := by
  let pad : List C.Element → List C.Element :=
    fun v => List.replicate (max p.length q.length - v.length) 0 ++ v
  have hlen : ∀ v : List C.Element, v.length ≤ max p.length q.length →
      (pad v).length = max p.length q.length := by
    intro v hv
    show (List.replicate _ _ ++ v).length = _
    rw [List.length_append, List.length_replicate, Nat.sub_add_cancel hv]
  have hp := hlen p (le_max_left _ _)
  have hq := hlen q (le_max_right _ _)
  have hpad : ∀ v : List C.Element, ofCoeffs (pad v) = ofCoeffs v := by
    intro v
    show ofCoeffs (List.replicate _ _ ++ v) = _
    rw [ofCoeffs_append, ofCoeffs_replicate_zero, zero_mul, zero_add]
  refine ⟨List.zipWith (· + ·) (pad p) (pad q), ?_, ?_, ?_⟩
  · unfold RSBase.gfPolyAdd
    rw [List.length_map, List.length_map, padFront_map, padFront_map, List.zipWith_map,
      List.map_zipWith]
    simp only [sym_add]
    rfl
  · rw [List.length_zipWith, hp, hq, Nat.min_self]
  · rw [ofCoeffs_zipWith (hp.trans hq.symm), hpad, hpad]

/-! ## Every other coefficient -/

theorem cast_double (n : ℕ) : ((2 * n : ℕ) : C.Element) = 0 := by
  rw [Nat.cast_mul, Nat.cast_ofNat, CharTwo.two_eq_zero, zero_mul]

/-- Of an even number of coefficients, those of the odd powers make the derivative. -/
theorem everyOther_map {n : ℕ} {v : List C.Element} (hlen : v.length = 2 * n) :
    ∃ u : List C.Element, RSBase.everyOther (v.map sym) = u.map sym ∧ u.length = n ∧
      ∀ x, (ofCoeffs u).eval (x * x) = (derivative (ofCoeffs v)).eval x := by
  induction n generalizing v with
  | zero =>
    obtain rfl := List.length_eq_zero_iff.1 hlen
    exact ⟨[], rfl, rfl, fun x => by rw [ofCoeffs_nil, derivative_zero, eval_zero, eval_zero]⟩
  | succ n ih =>
    obtain ⟨a, v, rfl⟩ := List.exists_cons_of_length_eq_add_one (show v.length = 2 * n + 1 + 1 from hlen)
    obtain ⟨b, v, rfl⟩ := List.exists_cons_of_length_eq_add_one (Nat.succ.inj hlen)
    have hv : v.length = 2 * n := Nat.succ.inj (Nat.succ.inj hlen)
    obtain ⟨u, hu, hulen, heval⟩ := ih hv
    refine ⟨a :: u, ?_, by rw [List.length_cons, hulen], fun x => ?_⟩
    · rw [List.map_cons, List.map_cons, List.map_cons, ← hu]
      rfl
    · have hodd : ((2 * n + 1 : ℕ) : C.Element) = 1 := by rw [Nat.cast_succ, cast_double, zero_add]
      rw [ofCoeffs_cons, ofCoeffs_cons, ofCoeffs_cons, List.length_cons, hv, hulen, derivative_add,
        derivative_add, derivative_C_mul_X_pow, derivative_C_mul_X_pow, hodd, cast_double, eval_add,
        eval_add, eval_add, ← heval, mul_zero, map_zero, zero_mul, eval_zero, zero_add,
        Nat.add_sub_cancel, mul_one]
      simp only [eval_mul, eval_C, eval_pow, eval_X]
      rw [← pow_two, ← pow_mul]

/-- **The derivative**, from the coefficients that `correctErrata_` takes. -/
theorem derivative_map {q : List C.Element} (hq : 2 ≤ q.length) :
    ∃ u : List C.Element, RSBase.everyOther ((q.map sym).drop ((q.map sym).length % 2)) = u.map sym ∧
      u ≠ [] ∧ ∀ x, (ofCoeffs u).eval (x * x) = (derivative (ofCoeffs q)).eval x := by
  rw [List.length_map, ← List.map_drop]
  have hlen : (q.drop (q.length % 2)).length = 2 * (q.length / 2) := by
    rw [List.length_drop]
    omega
  obtain ⟨u, hu, hulen, heval⟩ := everyOther_map hlen
  refine ⟨u, hu, ?_, fun x => ?_⟩
  · rintro rfl
    rw [List.length_nil] at hulen
    omega
  rw [heval]
  rcases Nat.mod_two_eq_zero_or_one q.length with hmod | hmod
  · rw [hmod, List.drop_zero]
  · -- the highest power is even, and its derivative zero
    obtain ⟨a, v, rfl⟩ := List.exists_cons_of_length_pos (show 0 < q.length by omega)
    have hv : v.length = 2 * (v.length / 2) := by
      rw [List.length_cons] at hmod
      omega
    rw [hmod, List.drop_succ_cons, List.drop_zero, ofCoeffs_cons, derivative_add, derivative_C_mul_X_pow]
    conv_rhs => rw [hv]
    rw [cast_double, mul_zero, map_zero, zero_mul, zero_add]

end ChannelEmulator.ReedSolomon
