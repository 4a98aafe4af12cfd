import ChannelEmulator.Framing.Run
import ChannelEmulator.Proof.ErrataCorrection

/-!
# The encoding of words

* `generatorPoly_ok`: the generator polynomial has the consecutive roots as its zeros.
* `divideFrom_ok`: the loop of `encodeOneWord_` leaves a remainder of the division by it.
* `encodeOneWord_word`: **data with the remainder behind it is a codeword.**
-/

namespace ChannelEmulator.ReedSolomon

open Coding Coding.Cycle.Element Polynomial

variable {m : ℕ} {C : Cycle m} {rs : RSBase}

/-! ## The generator polynomial -/

/-- A generator polynomial with its symbols: it is monic of the degree of the parity, and the consecutive
roots are zeros. -/
structure Generator (rs : RSBase) (g : List C.Element) : Prop where
  length_eq : g.length = rs.parityLength + 1
  lead : (ofCoeffs g).coeff rs.parityLength = 1
  zeros : ∀ j < rs.parityLength, (ofCoeffs g).eval (rootPower C rs (j + rs.firstConsecutiveRoot.toNat)) = 0

/-- The factors of some consecutive roots. -/
noncomputable def factors (C : Cycle m) (rs : RSBase) (i turns : ℕ) : C.Element[X] :=
  ∏ t ∈ Finset.range turns, (X + Polynomial.C (rootPower C rs (i + t)))

theorem factors_succ (i turns : ℕ) :
    factors C rs i (turns + 1) = (X + Polynomial.C (rootPower C rs i)) * factors C rs (i + 1) turns := by
  unfold factors
  rw [Finset.prod_range_succ', mul_comm, Nat.add_zero]
  refine congrArg (_ * ·) (Finset.prod_congr rfl fun t _ => ?_)
  rw [show i + (t + 1) = i + 1 + t by omega]

theorem factors_monic (i turns : ℕ) : (factors C rs i turns).Monic :=
  monic_prod_of_monic _ _ fun _ _ => monic_X_add_C _

theorem natDegree_factors (i turns : ℕ) : (factors C rs i turns).natDegree = turns := by
  unfold factors
  rw [natDegree_prod_of_monic _ _ fun _ _ => monic_X_add_C _]
  simp only [natDegree_X_add_C, Finset.sum_const, Finset.card_range, smul_eq_mul, mul_one]

theorem eval_factors {i turns t : ℕ} (ht : t < turns) :
    (factors C rs i turns).eval (rootPower C rs (i + t)) = 0 := by
  unfold factors
  rw [eval_prod]
  refine Finset.prod_eq_zero (Finset.mem_range.2 ht) ?_
  rw [eval_add, eval_X, eval_C, add_self]

/-- The loop of `_initGeneratorPoly`. -/
theorem generatorFrom_ok (h : Tabled C rs) (turns : ℕ) {i : ℕ} {g : List C.Element} :
    ∃ r : List C.Element, rs.generatorFrom turns i (g.map sym) = .ok (r.map sym) ∧
      r.length = g.length + turns ∧ ofCoeffs r = ofCoeffs g * factors C rs i turns := by
  induction turns generalizing i g with
  | zero => exact ⟨g, rfl, rfl, (mul_one _).symm⟩
  | succ turns ih =>
    have hfactor : [1, sym (rootPower C rs i)] = List.map sym [1, rootPower C rs i] := by
      rw [List.map_cons, h.one]
      rfl
    obtain ⟨r, hmul, hlen, hr⟩ := h.gfPolyMul_ok (p := g) (q := [1, rootPower C rs i])
      (Nat.lt_add_left _ (Nat.succ_pos _))
    obtain ⟨r', hrun, hlen', hr'⟩ := ih (i := i + 1) (g := r)
    refine ⟨r', ?_, ?_, ?_⟩
    · unfold RSBase.generatorFrom
      rw [h.root_eq, Framing.ok_bind, hfactor, hmul]
      exact hrun
    · rw [hlen', hlen, List.length_cons, List.length_singleton]
      omega
    · have hlinear : ofCoeffs [1, rootPower C rs i] = X + Polynomial.C (rootPower C rs i) := by
        rw [ofCoeffs_cons, ofCoeffs_cons, List.length_singleton, List.length_nil, pow_one, pow_zero, map_one,
          one_mul,
          mul_one]
        exact congrArg _ (add_zero _)
      rw [hr', hr, hlinear, mul_assoc, ← factors_succ]

/-- **The generator polynomial.** -/
theorem generatorPoly_ok (h : Tabled C rs) :
    ∃ g : List C.Element, rs.generatorPoly = .ok (g.map sym) ∧ Generator rs g := by
  have hone : List.map sym [(1 : C.Element)] = [1] := congrArg (fun s => [s]) h.one
  obtain ⟨g, hrun, hlen, hg⟩ :=
    generatorFrom_ok h rs.parityLength (i := rs.firstConsecutiveRoot.toNat) (g := [1])
  rw [hone] at hrun
  rw [ofCoeffs_singleton, map_one, one_mul] at hg
  refine ⟨g, hrun, ⟨by rw [hlen, List.length_singleton, Nat.add_comm], ?_, fun j hj => ?_⟩⟩
  · have hmonic : (factors C rs rs.firstConsecutiveRoot.toNat rs.parityLength).Monic := factors_monic _ _
    unfold Monic leadingCoeff at hmonic
    rwa [natDegree_factors, ← hg] at hmonic
  · rw [hg, Nat.add_comm, eval_factors hj]

/-! ## Division -/

/-- One turn of the division takes the highest coefficient away. -/
theorem divide_turn {g : List C.Element} (hg : Generator rs g) {p p' : C.Element[X]} {a : C.Element} {k : ℕ}
    (hp : p.degree < ((rs.parityLength + k + 1 : ℕ) : WithBot ℕ)) (ha : p.coeff (rs.parityLength + k) = a)
    (hp' : p' = p + Polynomial.C a * ofCoeffs g * X ^ k) :
    p'.degree < ((rs.parityLength + k : ℕ) : WithBot ℕ) := by
  have hgdeg : (ofCoeffs g).degree < ((rs.parityLength + 1 : ℕ) : WithBot ℕ) := by
    rw [← hg.length_eq]
    exact degree_ofCoeffs_lt g
  refine (degree_lt_iff_coeff_zero _ _).2 fun j hj => ?_
  rw [hp', coeff_add, coeff_mul_X_pow', if_pos (by omega), coeff_C_mul]
  rcases Nat.eq_or_lt_of_le hj with rfl | hlt
  · rw [ha, Nat.add_sub_cancel, hg.lead, mul_one, add_self]
  · rw [(degree_lt_iff_coeff_zero _ _).1 hp j hlt,
      (degree_lt_iff_coeff_zero _ _).1 hgdeg (j - k) (by omega), mul_zero, add_zero]

theorem divideFrom_succ (g : SymVec) (turns i : ℕ) (msgOut : SymVec) :
    rs.divideFrom g (turns + 1) i msgOut = octetAt msgOut i >>= fun coef =>
      (if coef ≠ 0 then rs.mulInner coef i 0 g msgOut else .ok msgOut) >>= rs.divideFrom g turns (i + 1) := by
  rw [RSBase.divideFrom]
  refine congrArg (octetAt msgOut i >>= ·) (funext fun coef => ?_)
  by_cases h0 : coef ≠ 0
  · rw [if_pos h0, if_pos h0]
  · rw [if_neg h0, if_neg h0]

/-- **The loop of `encodeOneWord_`** adds multiples of the generator polynomial until only the parity is left. -/
theorem divideFrom_ok (h : Tabled C rs) {g : List C.Element} (hg : Generator rs g) {n : ℕ} (turns : ℕ) {i : ℕ}
    {w : ℕ → C.Element} (hi : i + turns + rs.parityLength = n)
    (hw : (ofCoeffs (word n w)).degree < ((n - i : ℕ) : WithBot ℕ)) :
    ∃ (w' : ℕ → C.Element) (q : C.Element[X]), rs.divideFrom (g.map sym) turns i ((word n w).map sym) =
        .ok ((word n w').map sym) ∧
      (ofCoeffs (word n w')).degree < rs.parityLength ∧
      ofCoeffs (word n w') = ofCoeffs (word n w) + q * ofCoeffs g := by
  induction turns generalizing i w with
  | zero =>
    rw [show n - i = rs.parityLength by omega] at hw
    exact ⟨w, 0, rfl, hw, by rw [zero_mul, add_zero]⟩
  | succ turns ih =>
    have hin : i < n := by omega
    have hplace : n - 1 - i = rs.parityLength + turns := by omega
    have hcoef : (ofCoeffs (word n w)).coeff (rs.parityLength + turns) = w i := by rw [← hplace, coeff_word hin]
    rw [show n - i = rs.parityLength + turns + 1 by omega] at hw
    obtain ⟨mid, hrun, hmid⟩ : ∃ mid : ℕ → C.Element,
        (if sym (w i) ≠ 0 then rs.mulInner (sym (w i)) i 0 (g.map sym) ((word n w).map sym)
          else .ok ((word n w).map sym)) = .ok ((word n mid).map sym) ∧
        ofCoeffs (word n mid) = ofCoeffs (word n w) + Polynomial.C (w i) * ofCoeffs g * X ^ turns := by
      by_cases h0 : w i = 0
      · refine ⟨w, if_neg (not_not.2 ((sym_eq_zero h.bits_le).2 h0)), ?_⟩
        rw [h0, map_zero, zero_mul, zero_mul, add_zero]
      · obtain ⟨r, hrun, hlen, hr⟩ := h.mulInner_ok (w i) 0 i g (word n w)
          (by rw [hg.length_eq, length_word]; omega)
        rw [length_word] at hlen hr
        rw [eq_word hlen] at hrun hr
        refine ⟨_, (if_pos (mt (sym_eq_zero h.bits_le).1 h0)).trans hrun, hr.trans ?_⟩
        rw [hg.length_eq, show n - (0 + i + (rs.parityLength + 1)) = turns by omega]
    have hdegree := divide_turn hg hw hcoef hmid
    obtain ⟨w', q, hrest, hlow, hq⟩ := ih (i := i + 1) (w := mid) (by omega)
      (by rwa [show n - (i + 1) = rs.parityLength + turns by omega])
    refine ⟨w', q + Polynomial.C (w i) * X ^ turns, ?_, hlow, ?_⟩
    · rw [divideFrom_succ, octetAt_map (word_getElem? hin w), Framing.ok_bind, hrun]
      exact hrest
    · rw [hq, hmid]
      ring

/-! ## Codewords -/

theorem syndrome_add (n : ℕ) (w w' : ℕ → C.Element) (j : ℕ) :
    syndrome rs n (fun i => w i + w' i) j = syndrome rs n w j + syndrome rs n w' j := by
  unfold syndrome
  rw [eval_word, eval_word, eval_word, ← Finset.sum_add_distrib]
  exact Finset.sum_congr rfl fun i _ => add_mul _ _ _

/-- **Data with the remainder behind it is a codeword.** -/
theorem encodeOneWord_word (h : Tabled C rs) {g : List C.Element} (hg : Generator rs g)
    (hparity : rs.parityLength ≤ rs.codeLength) (d : ℕ → C.Element) :
    ∃ e : ℕ → C.Element, rs.encodeOneWord (g.map sym) ((word rs.codeLength d).map sym) =
        .ok ((word rs.codeLength e).map sym) ∧
      (∀ i < rs.codeLength - rs.parityLength, e i = 0) ∧
      ∀ j < rs.parityLength, syndrome rs rs.codeLength (fun i => d i + e i) j = 0 := by
  have hdegree : (ofCoeffs (word rs.codeLength d)).degree < ((rs.codeLength - 0 : ℕ) : WithBot ℕ) := by
    have hlt := degree_ofCoeffs_lt (word rs.codeLength d)
    rwa [length_word] at hlt
  obtain ⟨e, q, hrun, hlow, hq⟩ := divideFrom_ok h hg (rs.codeLength - rs.parityLength) (i := 0) (w := d)
    (show 0 + (rs.codeLength - rs.parityLength) + rs.parityLength = rs.codeLength by omega) hdegree
  refine ⟨e, ?_, fun i hi => ?_, fun j hj => ?_⟩
  · have hlen : ((word rs.codeLength d).map sym).length = rs.codeLength := by rw [List.length_map, length_word]
    unfold RSBase.encodeOneWord
    rw [hlen, Nat.sub_self, List.replicate_zero, List.append_nil, List.take_of_length_le (Nat.le_of_eq hlen)]
    exact hrun
  · rw [← coeff_word (show i < rs.codeLength by omega) e]
    exact coeff_eq_zero_of_degree_lt (hlow.trans_le (by exact_mod_cast (by omega)))
  · rw [syndrome_add]
    unfold syndrome
    rw [hq, eval_add, eval_mul, hg.zeros j hj, mul_zero, add_zero, add_self]

end ChannelEmulator.ReedSolomon
