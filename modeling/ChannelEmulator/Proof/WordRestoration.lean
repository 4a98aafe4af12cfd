import ChannelEmulator.Proof.WordCorrection

/-!
# The restoration of words

* `findErrors_powerSums`, `findErrors_places`: few points are found by their power sums, and so are the errors of a
  word that is near a codeword.
* `correctErrata_restores`: a word is restored at positions among which its errors are.
* `correctOneWord_restores`: **a word that differs from a codeword in few symbols is restored**, and its
  errors are counted.
-/

namespace ChannelEmulator.ReedSolomon

open Coding Coding.Cycle.Element Polynomial

variable {m : ℕ} {C : Cycle m} {rs : RSBase} {w c : ℕ → C.Element}

theorem eq_of_add_eq_zero {x y : C.Element} (h : x + y = 0) : x = y := by
  have hback : x + y + y = x := by rw [add_assoc, add_self, add_zero]
  rw [← hback, h, zero_add]

theorem error_ne_zero {n i : ℕ} (hi : i ∈ differing n w c) : w i + c i ≠ 0 := by
  obtain ⟨-, hne⟩ := Finset.mem_filter.1 hi
  exact fun h => hne (congrArg sym (eq_of_add_eq_zero h))

/-- A word near a codeword whose syndromes are zero is the codeword. -/
theorem differing_eq_empty (h : Tabled C rs) (hcop : Nat.Coprime rs.primitiveRootIdx.toNat C.period) {n : ℕ}
    (hn : n ≤ C.period) (hc : ∀ j < rs.parityLength, syndrome rs n c j = 0)
    (hfew : (differing n w c).card ≤ rs.parityLength)
    (hw : ∀ j < rs.parityLength, syndrome rs n w j = 0) : differing n w c = ∅ := by
  have hsums := syndromes_differing h.bits_le hc (w := w)
  have hzero : ofCoeffs (word rs.parityLength (syndrome rs n w)).reverse = 0 := by
    rw [ofCoeffs_reverse_word]
    refine Finset.sum_eq_zero fun j hj => ?_
    rw [hw j (Finset.mem_range.1 hj), C_0, zero_mul]
  -- the constant generates them
  have hone : Generates (powerSums (differing n w c) (point rs C n) (fun i => w i + c i)
      rs.firstConsecutiveRoot.toNat rs.parityLength) 1 0 rs.parityLength := by
    rw [← hsums, hzero]
    exact ⟨coeff_one_zero, natDegree_one.le, fun k _ _ => by rw [mul_zero, coeff_zero]⟩
  have hcard := hone.card_le (by omega) ((point_inj hcop hn).mono (Finset.filter_subset _ _))
    (fun k _ => rootPower_ne_zero _) fun k hk => error_ne_zero hk
  exact Finset.card_eq_zero.1 (Nat.le_zero.1 hcard)

/-- **Few points are found** by their power sums. -/
theorem findErrors_powerSums (h : Tabled C rs) (hcop : Nat.Coprime rs.primitiveRootIdx.toNat C.period) {n : ℕ}
    (hn : n ≤ C.period) {N b : ℕ} {s : Finset ℕ} (hs : s ⊆ Finset.range n) {y : ℕ → C.Element}
    (hy : ∀ k ∈ s, y k ≠ 0) (hfew : 2 * s.card ≤ N) :
    ∃ pos : SymVec, rs.findErrors ((word N (powerSum s (point rs C n) y b)).map sym) n = .ok pos ∧
      pos.Nodup ∧ (∀ i ∈ pos, i.toNat < n) ∧ places pos = s := by
  obtain ⟨e, a, L, pos, hmassey, hzeros, hfind⟩ := h.findErrors_ok hn N (powerSum s (point rs C n) y b)
  have hsums : ofCoeffs (word N (powerSum s (point rs C n) y b)).reverse = powerSums s (point rs C n) y b N :=
    ofCoeffs_reverse_word N _
  rw [hsums] at hmassey
  obtain ⟨hL, hroots⟩ := hmassey.locates hfew (fun k => rootPower_ne_zero _) hy hs (point_inj hcop hn)
  have hplaces : places pos = s := by
    ext i
    constructor
    · intro hi
      obtain ⟨a, ha, rfl⟩ := mem_places.1 hi
      have hlt := hzeros.lt a ha
      exact (hroots _ (Finset.mem_range.2 hlt)).1 ((hzeros.mem _ hlt).1 hi)
    · intro hi
      have hrange := hs hi
      exact (hzeros.mem i (Finset.mem_range.1 hrange)).2 ((hroots i hrange).2 hi)
  have hcount : pos.length = L := by rw [hL, ← hplaces, card_places hzeros.nodup]
  refine ⟨pos, ?_, hzeros.nodup, hzeros.lt, hplaces⟩
  rw [hfind, if_neg (by omega), if_neg (not_not.2 hcount)]

/-- **The errors of a word near a codeword are found.** -/
theorem findErrors_places (h : Tabled C rs) (hcop : Nat.Coprime rs.primitiveRootIdx.toNat C.period) {n : ℕ}
    (hn : n ≤ C.period) (hc : ∀ j < rs.parityLength, syndrome rs n c j = 0)
    (hfew : 2 * (differing n w c).card ≤ rs.parityLength) :
    ∃ pos : SymVec, rs.findErrors ((word rs.parityLength (syndrome rs n w)).map sym) n = .ok pos ∧
      pos.Nodup ∧ (∀ i ∈ pos, i.toNat < n) ∧ places pos = differing n w c := by
  have hagree : ∀ i < n, i ∉ differing n w c → w i = c i := fun i hi => eq_of_not_differing h.bits_le hi
  rw [word_congr.2 fun j hj => syndrome_errors (Finset.filter_subset _ _) hagree (hc j hj)]
  exact findErrors_powerSums h hcop hn (Finset.filter_subset _ _) (fun k hk => error_ne_zero hk) hfew

/-- **A word is restored** at positions among which all of its errors are. -/
theorem correctErrata_restores (h : Tabled C rs) (hcop : Nat.Coprime rs.primitiveRootIdx.toNat C.period)
    (hpos : 0 < rs.codeLength) (hn : rs.codeLength ≤ C.period) (hsurplus : surplus C rs rs.codeLength = 1)
    (hc : ∀ j < rs.parityLength, syndrome rs rs.codeLength c j = 0) {pos : SymVec} (hnodup : pos.Nodup)
    (hlt : ∀ i ∈ pos, i.toNat < rs.codeLength) (hlen : pos.length ≤ rs.parityLength)
    (hagree : ∀ i < rs.codeLength, i ∉ places pos → w i = c i) :
    (rs.correctErrata ((word rs.codeLength w).map sym)
        ((word rs.parityLength (syndrome rs rs.codeLength w)).map sym) pos >>= fun msgOut =>
      rs.calcSyndromes msgOut >>= fun synd =>
      if synd.any (0 < ·) then .error (.logicError "Non-zero syndromes after error correction.")
      else .ok (msgOut, pos.length)) = .ok ((word rs.codeLength c).map sym, pos.length) := by
  have hplaces : places pos ⊆ Finset.range rs.codeLength := by
    intro i hi
    obtain ⟨a, ha, rfl⟩ := mem_places.1 hi
    exact Finset.mem_range.2 (hlt a ha)
  have hcorrect := correctErrata_word h hcop hn hnodup hlt hlen (w := w) (y := fun i => w i + c i) fun j hj =>
    syndrome_errors hplaces hagree (hc j hj)
  have hword : (word rs.codeLength fun i =>
      if i ∈ places pos then w i + (w i + c i) * surplus C rs rs.codeLength else w i) =
      word rs.codeLength c := by
    refine word_congr.2 fun i hi => ?_
    rw [hsurplus, mul_one, ← add_assoc, add_self, zero_add]
    by_cases hin : i ∈ places pos
    · rw [if_pos hin]
    · rw [if_neg hin]
      exact hagree i hi hin
  rw [hcorrect, Framing.ok_bind, hword, calcSyndromes_word h hpos, Framing.ok_bind,
    (syndromes_any_eq_false h rs.codeLength).2 hc]
  rfl

/-- **A word that differs from a codeword in few symbols is restored.** -/
theorem correctOneWord_restores (h : Tabled C rs) (hcop : Nat.Coprime rs.primitiveRootIdx.toNat C.period)
    (hpos : 0 < rs.codeLength) (hn : rs.codeLength ≤ C.period) (hsurplus : surplus C rs rs.codeLength = 1)
    (hc : ∀ j < rs.parityLength, syndrome rs rs.codeLength c j = 0)
    (hfew : 2 * (differing rs.codeLength w c).card ≤ rs.parityLength) :
    rs.correctOneWord ((word rs.codeLength w).map sym) =
      .ok ((word rs.codeLength c).map sym, (differing rs.codeLength w c).card) := by
  have hagree : ∀ i < rs.codeLength, i ∉ differing rs.codeLength w c → w i = c i :=
    fun i hi => eq_of_not_differing h.bits_le hi
  rw [correctOneWord_word h hpos]
  by_cases hsum : (((word rs.parityLength (syndrome rs rs.codeLength w)).map sym).map UInt8.toNat).sum = 0
  · have hempty := differing_eq_empty h hcop hn hc (by omega) ((syndromes_sum_eq_zero h _).1 hsum)
    have hsame : word rs.codeLength w = word rs.codeLength c := by
      refine word_congr.2 fun i hi => hagree i hi ?_
      rw [hempty]
      exact Finset.notMem_empty i
    rw [if_pos hsum, hsame, hempty, Finset.card_empty]
  rw [if_neg hsum]
  obtain ⟨pos, hfind, hnodup, hlt, hplaces⟩ := findErrors_places h hcop hn hc hfew
  have hcount : pos.length = (differing rs.codeLength w c).card := by rw [← hplaces, card_places hnodup]
  rw [hfind, Framing.ok_bind, ← hcount]
  exact correctErrata_restores h hcop hpos hn hsurplus hc hnodup hlt (by omega) (hplaces ▸ hagree)

end ChannelEmulator.ReedSolomon
