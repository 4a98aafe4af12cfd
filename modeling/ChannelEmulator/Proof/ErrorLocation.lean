import ChannelEmulator.Coding.Recurrence
import ChannelEmulator.Proof.ErrataCorrection

/-!
# The location of errors

What `findErrors_` finds for any syndromes: the Berlekamp-Massey algorithm on vectors of symbols, and the
search for the zeros of its result.

* `deltaFrom_ok`, `masseyTurn_ok`: a turn of the code is a turn of the algorithm.
* `masseyFrom_ok`: **the error polynomial generates the syndromes with the least length**.
* `zerosFrom_ok`: the positions whose points are the inverses of its zeros.
-/

namespace ChannelEmulator.ReedSolomon

open Coding Coding.Cycle.Element Polynomial

variable {m : ℕ} {C : Cycle m} {rs : RSBase} {S : C.Element[X]}

/-! ## The discrepancy -/

/-- A symbol, counted from the end. -/
theorem octetAt_fromEnd {p : List C.Element} {j : ℕ} (hj : j < p.length) :
    octetAt (p.map sym) (p.length - 1 - j) = .ok (sym ((ofCoeffs p).coeff j)) := by
  have hget : p[p.length - 1 - j]? = some ((ofCoeffs p).coeff j) := by
    rw [coeff_ofCoeffs, List.getElem?_reverse hj, List.getElem?_eq_getElem (by omega)]
    rfl
  exact octetAt_map hget

/-- The loop that adds up the discrepancy. -/
theorem Tabled.deltaFrom_ok (h : Tabled C rs) {p : List C.Element} {n i turns j : ℕ}
    (w : ℕ → C.Element) (hi : i < n) (hp : j + turns ≤ p.length) (hj : j + turns ≤ i + 1)
    (d : C.Element) :
    rs.deltaFrom (p.map sym) ((word n w).map sym) i turns j (sym d) =
      .ok (sym (d + ∑ t ∈ Finset.range turns, (ofCoeffs p).coeff (j + t) * w (i - (j + t)))) := by
  induction turns generalizing j d with
  | zero =>
    rw [Finset.sum_range_zero, add_zero]
    rfl
  | succ turns ih =>
    have hsum : d + ∑ t ∈ Finset.range (turns + 1), (ofCoeffs p).coeff (j + t) * w (i - (j + t)) =
        (d + (ofCoeffs p).coeff j * w (i - j)) +
          ∑ t ∈ Finset.range turns, (ofCoeffs p).coeff (j + 1 + t) * w (i - (j + 1 + t)) := by
      rw [Finset.sum_range_succ', Nat.add_zero, add_assoc, add_comm (_ * _)]
      simp only [Nat.add_assoc, Nat.add_comm 1]
    rw [hsum, ← ih (by omega) (by omega)]
    conv_lhs => unfold RSBase.deltaFrom
    rw [List.length_map, octetAt_fromEnd (by omega)]
    show (if i < j then _ else _) = _
    rw [if_neg (by omega), octetAt_map (word_getElem? (by omega) w)]
    show (rs.gfMul _ _ >>= _) = _
    rw [h.gfMul_ok, sym_add]
    rfl

/-! ## A turn of the algorithm -/

/-- The algorithm's polynomials in vectors of their sizes. -/
structure Located (S : C.Element[X]) (p q : List C.Element) (L i : ℕ) : Prop where
  massey : Massey S (ofCoeffs p) (ofCoeffs q) L i
  size : p.length = L + 1
  old_size : q.length + L = i + 1

/-- **One turn.** -/
theorem Tabled.masseyTurn_ok (h : Tabled C rs) {p q : List C.Element} {n L i : ℕ}
    {w : ℕ → C.Element} (hS : ∀ k < n, S.coeff k = w k) (hi : i < n) (hl : Located S p q L i) :
    ∃ p' q' L', rs.masseyTurn ((word n w).map sym) i (p.map sym) (q.map sym) =
        .ok (p'.map sym, q'.map sym) ∧ Located S p' q' L' (i + 1) := by
  obtain ⟨hmassey, hsize, hold⟩ := hl
  have hlen := hmassey.length_le
  have hshift : (q.map sym ++ [0] : SymVec) = (q ++ [0]).map sym := by
    rw [List.map_append, List.map_singleton, sym_zero]
  have hshiftPoly : ofCoeffs (q ++ [0]) = X * ofCoeffs q := by
    rw [ofCoeffs_append, ofCoeffs_singleton, map_zero, add_zero, List.length_singleton, pow_one, mul_comm]
  have hshiftSize : (q ++ [0]).length = q.length + 1 := by
    rw [List.length_append, List.length_singleton]
  -- the discrepancy
  have hdelta : rs.deltaFrom (p.map sym) ((word n w).map sym) i L 1 (sym (w i)) =
      .ok (sym ((ofCoeffs p * S).coeff i)) := by
    rw [h.deltaFrom_ok w hi (by omega) (by omega), coeff_mul_sum hmassey.generates.degree_le hlen
      hmassey.generates.constant, hS i hi]
    refine congrArg (fun x => Except.ok (sym (w i + x))) (Finset.sum_congr rfl fun t ht => ?_)
    rw [hS _ (by omega)]
  have hrun : rs.masseyTurn ((word n w).map sym) i (p.map sym) (q.map sym) =
      if sym ((ofCoeffs p * S).coeff i) = 0 then .ok (p.map sym, (q ++ [0]).map sym)
      else if (p.map sym).length < ((q ++ [0]).map sym).length then
        rs.gfPolyScale ((q ++ [0]).map sym) (sym ((ofCoeffs p * S).coeff i)) >>= fun newPoly =>
          rs.gfDiv 1 (sym ((ofCoeffs p * S).coeff i)) >>= fun inverse =>
          rs.gfPolyScale (p.map sym) inverse >>= fun oldPoly =>
          rs.gfPolyScale oldPoly (sym ((ofCoeffs p * S).coeff i)) >>= fun scaled =>
          .ok (RSBase.gfPolyAdd newPoly scaled, oldPoly)
      else
        rs.gfPolyScale ((q ++ [0]).map sym) (sym ((ofCoeffs p * S).coeff i)) >>= fun scaled =>
          .ok (RSBase.gfPolyAdd (p.map sym) scaled, (q ++ [0]).map sym) := by
    have hturns : (p.map sym).length - 1 = L := by
      rw [List.length_map, hsize, Nat.add_sub_cancel]
    unfold RSBase.masseyTurn
    rw [hshift, octetAt_map (word_getElem? hi w)]
    show (rs.deltaFrom (p.map sym) _ i ((p.map sym).length - 1) 1 (sym (w i)) >>= _) = _
    rw [hturns, hdelta]
    rfl
  rw [hrun]
  by_cases hzero : (ofCoeffs p * S).coeff i = 0
  · rw [if_pos ((sym_eq_zero h.bits_le).2 hzero)]
    exact ⟨p, q ++ [0], L, rfl, hshiftPoly ▸ hmassey.agree hzero, hsize, by omega⟩
  rw [if_neg (mt (sym_eq_zero h.bits_le).1 hzero), List.length_map, List.length_map, hshiftSize, hsize]
  by_cases hshort : 2 * L ≤ i
  · -- the error polynomial becomes the old one, divided by the discrepancy
    have hinverse : rs.gfDiv 1 (sym ((ofCoeffs p * S).coeff i)) =
        .ok (sym ((ofCoeffs p * S).coeff i)⁻¹) := by
      rw [← h.one, h.gfDiv_ok _ hzero, one_div]
    obtain ⟨r, hr, hrsize, hrpoly⟩ := gfPolyAdd_map ((q ++ [0]).map (· * (ofCoeffs p * S).coeff i))
      ((p.map (· * ((ofCoeffs p * S).coeff i)⁻¹)).map (· * (ofCoeffs p * S).coeff i))
    refine ⟨r, p.map (· * ((ofCoeffs p * S).coeff i)⁻¹), i + 1 - L, ?_, ?_, ?_, ?_⟩
    · rw [if_pos (by omega), h.gfPolyScale_ok, hinverse]
      show (rs.gfPolyScale _ _ >>= _) = _
      rw [h.gfPolyScale_ok]
      show (rs.gfPolyScale _ _ >>= _) = _
      rw [h.gfPolyScale_ok, ← hr]
      rfl
    · have hpoly : ofCoeffs r = ofCoeffs p - X * ofCoeffs q * Polynomial.C ((ofCoeffs p * S).coeff i) := by
        rw [hrpoly, ofCoeffs_map_mul, ofCoeffs_map_mul, ofCoeffs_map_mul, mul_assoc (ofCoeffs p), ← C_mul,
          inv_mul_cancel₀ hzero, C_1, mul_one, hshiftPoly, CharTwo.sub_eq_add, add_comm]
      rw [hpoly, ofCoeffs_map_mul]
      exact hmassey.lengthen hzero hshort
    · rw [hrsize, List.length_map, List.length_map, List.length_map]
      omega
    · rw [List.length_map]
      omega
  · obtain ⟨r, hr, hrsize, hrpoly⟩ := gfPolyAdd_map p ((q ++ [0]).map (· * (ofCoeffs p * S).coeff i))
    refine ⟨r, q ++ [0], L, ?_, ?_, ?_, by omega⟩
    · rw [if_neg (by omega), h.gfPolyScale_ok, ← hr]
      rfl
    · have hpoly : ofCoeffs r = ofCoeffs p - X * ofCoeffs q * Polynomial.C ((ofCoeffs p * S).coeff i) := by
        rw [hrpoly, ofCoeffs_map_mul, hshiftPoly, CharTwo.sub_eq_add]
      rw [hpoly, hshiftPoly]
      exact hmassey.adjust (by omega)
    · rw [hrsize, List.length_map]
      omega

/-- **The whole algorithm.** -/
theorem Tabled.masseyFrom_ok (h : Tabled C rs) {n : ℕ} {w : ℕ → C.Element}
    (hS : ∀ k < n, S.coeff k = w k) {turns i L : ℕ} (hi : i + turns = n) {p q : List C.Element}
    (hl : Located S p q L i) :
    ∃ p' q' L', rs.masseyFrom ((word n w).map sym) turns i (p.map sym) (q.map sym) =
        .ok (p'.map sym, q'.map sym) ∧ Located S p' q' L' n := by
  induction turns generalizing i L p q with
  | zero =>
    obtain rfl : i = n := hi
    exact ⟨p, q, L, rfl, hl⟩
  | succ turns ih =>
    obtain ⟨p', q', L', hrun, hl'⟩ := h.masseyTurn_ok hS (show i < n by omega) hl
    obtain ⟨p'', q'', L'', hrest, hl''⟩ := ih (by omega) hl'
    refine ⟨p'', q'', L'', ?_, hl''⟩
    unfold RSBase.masseyFrom
    rw [hrun]
    exact hrest

/-! ## The search -/

/-- The search keeps the indices whose points are zeros. -/
theorem Tabled.zerosFrom_ok (h : Tabled C rs) {p : List C.Element} (hp : p ≠ []) (n turns i : ℕ) :
    ∃ ks : List ℕ, rs.zerosFrom (p.map sym) n turns i = .ok (ks.map fun k => .ofNat (n - 1 - k)) ∧
      ks.Sublist (List.range' i turns) ∧
      ∀ k, i ≤ k → k < i + turns → (k ∈ ks ↔ (ofCoeffs p).eval (rootPower C rs (C.period - k)) = 0) := by
  induction turns generalizing i with
  | zero => exact ⟨[], rfl, .slnil, fun k hk hlt => absurd hlt (by omega)⟩
  | succ turns ih =>
    obtain ⟨ks, hrun, hsub, hmem⟩ := ih (i + 1)
    have hstep : rs.zerosFrom (p.map sym) n (turns + 1) i =
        .ok (if sym ((ofCoeffs p).eval (rootPower C rs (C.period - i))) = 0 then
          .ofNat (n - 1 - i) :: ks.map fun k => .ofNat (n - 1 - k)
          else ks.map fun k => .ofNat (n - 1 - k)) := by
      unfold RSBase.zerosFrom
      rw [h.root_eq, h.max]
      show (rs.gfPolyEval (p.map sym) _ >>= _) = _
      rw [h.gfPolyEval_ok hp]
      show (rs.zerosFrom (p.map sym) n turns (i + 1) >>= _) = _
      rw [hrun]
      rfl
    have hnot : i ∉ ks := by
      intro hi
      have hrange := List.mem_range'_1.1 (hsub.subset hi)
      omega
    by_cases hzero : (ofCoeffs p).eval (rootPower C rs (C.period - i)) = 0
    · refine ⟨i :: ks, ?_, hsub.cons_cons i, fun k hk hlt => ?_⟩
      · rw [hstep, if_pos ((sym_eq_zero h.bits_le).2 hzero)]
        rfl
      · rcases Nat.eq_or_lt_of_le hk with rfl | hik
        · exact iff_of_true (List.mem_cons_self ..) hzero
        · rw [List.mem_cons, ← hmem k hik (by omega)]
          exact or_iff_right hik.ne'
    · refine ⟨ks, ?_, hsub.cons i, fun k hk hlt => ?_⟩
      · rw [hstep, if_neg (mt (sym_eq_zero h.bits_le).1 hzero)]
      · rcases Nat.eq_or_lt_of_le hk with rfl | hik
        · exact iff_of_false hnot hzero
        · exact hmem k hik (by omega)

/-- The positions of the zeros of a polynomial. -/
structure Zeros (rs : RSBase) (C : Cycle m) (c : C.Element[X]) (n : ℕ) (pos : SymVec) : Prop where
  nodup : pos.Nodup
  lt : ∀ i ∈ pos, i.toNat < n
  mem : ∀ i < n, i ∈ places pos ↔ c.eval (point rs C n i)⁻¹ = 0

/-- **What `findErrors_` finds**, in a word of a code that may be shortened. -/
theorem Tabled.findErrors_ok (h : Tabled C rs) {size : ℕ} (hsize : size ≤ C.period) (n : ℕ)
    (w : ℕ → C.Element) :
    ∃ (c b : C.Element[X]) (L : ℕ) (pos : SymVec),
      Massey (ofCoeffs (word n w).reverse) c b L n ∧ Zeros rs C c size pos ∧
      rs.findErrors ((word n w).map sym) size =
        if n < L * 2 then .error (.tooManyErrors (RSBase.tooManyErrorsMsg L (n / 2)) L)
        else if pos.length ≠ L then .error (.logicError "Couldn't find error locations.")
        else .ok pos := by
  have hS : ∀ k < n, (ofCoeffs (word n w).reverse).coeff k = w k := by
    intro k hk
    rw [coeff_ofCoeffs, List.reverse_reverse, word_getElem? hk]
    rfl
  have hstart : Located (ofCoeffs (word n w).reverse) [1] [1] 0 0 := by
    refine ⟨?_, rfl, rfl⟩
    rw [ofCoeffs_singleton, C_1]
    exact .start _
  obtain ⟨p, q, L, hrun, hmassey, hlength, -⟩ := h.masseyFrom_ok hS (Nat.zero_add n) hstart
  obtain ⟨ks, hzeros, hsub, hmem⟩ := h.zerosFrom_ok (List.ne_nil_of_length_eq_add_one hlength)
    size size 0
  have hperiod : C.period ≤ 255 := by
    have hle : 2 ^ m ≤ 2 ^ 8 := Nat.pow_le_pow_right (by decide) h.bits_le
    rw [h.period_eq]
    omega
  have hlt : ∀ k ∈ ks, k < size := by
    intro k hk
    have hrange := List.mem_range'_1.1 (hsub.subset hk)
    omega
  have htoNat : ∀ k, (UInt8.ofNat (size - 1 - k)).toNat = size - 1 - k := by
    intro k
    exact Nat.mod_eq_of_lt (by omega)
  refine ⟨ofCoeffs p, ofCoeffs q, L, ks.map fun k => .ofNat (size - 1 - k), hmassey, ⟨?_, ?_, ?_⟩, ?_⟩
  · refine ((List.nodup_range' 1).sublist hsub).map_on fun j hj k hk heq => ?_
    have hnat := congrArg UInt8.toNat heq
    rw [htoNat, htoNat] at hnat
    have hj' := hlt j hj
    have hk' := hlt k hk
    omega
  · intro i hi
    obtain ⟨k, hk, rfl⟩ := List.mem_map.1 hi
    rw [htoNat]
    have hk' := hlt k hk
    omega
  · intro i hi
    have hinverse : rootPower C rs (C.period - (size - 1 - i)) = (point rs C size i)⁻¹ := by
      rw [← point_inv h hi hsize, h.max]
      congr 1
      omega
    rw [← hinverse, ← hmem (size - 1 - i) (Nat.zero_le _) (by omega), mem_places]
    constructor
    · rintro ⟨s, hs, hsi⟩
      obtain ⟨k, hk, rfl⟩ := List.mem_map.1 hs
      rw [htoNat] at hsi
      have hk' := hlt k hk
      rwa [← hsi, show size - 1 - (size - 1 - k) = k by omega]
    · intro hk
      refine ⟨_, List.mem_map.2 ⟨_, hk, rfl⟩, ?_⟩
      rw [htoNat]
      omega
  · have hone : List.map sym [(1 : C.Element)] = [1] := congrArg (fun s => [s]) h.one
    rw [hone] at hrun
    unfold RSBase.findErrors
    rw [List.length_map, length_word, hrun]
    show (if n < (((p.map sym).length - 1) * 2) then _ else _) = _
    rw [List.length_map, hlength, Nat.add_sub_cancel, hzeros]
    rfl

end ChannelEmulator.ReedSolomon
