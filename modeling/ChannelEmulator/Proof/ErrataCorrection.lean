import ChannelEmulator.Coding.Forney
import ChannelEmulator.Proof.SymbolPolynomials

/-!
# The correction of errata

What `correctErrata_` does to a word that differs from a codeword at positions that it is told.

* `calcSyndromes_word`: the syndromes are the values of the word at the roots.
* `syndrome_errors`: those of a word with errors are power sums of the errors.
* `correctErrata_word`: **each error is taken away, times a power that depends on the code only**.
* `errata_corrected_iff`: **when this restores the codeword**.
-/

namespace ChannelEmulator.ReedSolomon

open Coding Coding.Cycle.Element Polynomial

variable {m : ℕ} {C : Cycle m} {rs : RSBase}

/-! ## Words -/

/-- A word of `n` symbols. -/
def word (n : ℕ) (w : ℕ → C.Element) : List C.Element := (List.range n).map w

@[simp] theorem length_word (n : ℕ) (w : ℕ → C.Element) : (word n w).length = n := by
  rw [word, List.length_map, List.length_range]

theorem word_getElem? {n i : ℕ} (hi : i < n) (w : ℕ → C.Element) : (word n w)[i]? = some (w i) := by
  unfold word
  rw [List.getElem?_map, List.getElem?_range hi]
  rfl

theorem word_set {n i : ℕ} (w : ℕ → C.Element) (v : C.Element) :
    (word n w).set i v = word n (Function.update w i v) := by
  refine List.ext_getElem? fun k => ?_
  rw [List.getElem?_set, length_word]
  by_cases hk : k < n
  · rw [word_getElem? hk, word_getElem? hk]
    by_cases hik : i = k
    · subst hik
      rw [if_pos rfl, if_pos hk, Function.update_self]
    · rw [if_neg hik, Function.update_of_ne (Ne.symm hik)]
  · have hnone : ∀ u : ℕ → C.Element, (word n u)[k]? = none := by
      intro u
      exact List.getElem?_eq_none (by rw [length_word]; omega)
    rw [hnone, hnone]
    by_cases hik : i = k
    · rw [if_pos hik, if_neg (hik ▸ hk)]
    · rw [if_neg hik]

theorem word_congr {n : ℕ} {w w' : ℕ → C.Element} : word n w = word n w' ↔ ∀ i < n, w i = w' i := by
  unfold word
  rw [List.map_inj_left]
  simp only [List.mem_range]

/-- Symbols of the field are a word. -/
theorem eq_word {xs : List C.Element} {n : ℕ} (hlen : xs.length = n) :
    xs = word n fun i => (xs[i]?).getD 0 := by
  refine List.ext_getElem? fun k => ?_
  by_cases hk : k < n
  · rw [word_getElem? hk, List.getElem?_eq_getElem (hlen ▸ hk)]
    rfl
  · rw [List.getElem?_eq_none (by omega), List.getElem?_eq_none (by rw [length_word]; omega)]

/-- Symbols that are in range are a word. -/
theorem exists_word {v : SymVec} {n : ℕ} (hlen : v.length = n) (h : ∀ s ∈ v, s.toNat < 2 ^ m) :
    ∃ w : ℕ → C.Element, v = (word n w).map sym := by
  obtain ⟨xs, rfl⟩ := exists_map_sym C h
  rw [List.length_map] at hlen
  exact ⟨_, congrArg _ (eq_word hlen)⟩

/-- The coefficients of a word are its symbols from the last one on. -/
theorem coeff_word {n i : ℕ} (hi : i < n) (w : ℕ → C.Element) :
    (ofCoeffs (word n w)).coeff (n - 1 - i) = w i := by
  have hlen : (word n w).length = n := length_word n w
  rw [coeff_ofCoeffs, List.getElem?_reverse (by omega), hlen, show n - 1 - (n - 1 - i) = i by omega,
    word_getElem? hi]
  rfl

/-- The value of a word is a sum over its places. -/
theorem eval_word (n : ℕ) (w : ℕ → C.Element) (z : C.Element) :
    (ofCoeffs (word n w)).eval z = ∑ i ∈ Finset.range n, w i * z ^ (n - 1 - i) := by
  induction n with
  | zero => exact eval_zero
  | succ n ih =>
    have hsplit : word (n + 1) w = word n w ++ [w n] := by
      unfold word
      rw [List.range_succ, List.map_append]
      rfl
    rw [hsplit, ofCoeffs_append, ofCoeffs_singleton, List.length_singleton, pow_one, eval_add, eval_mul,
      eval_X, eval_C, ih, Finset.sum_range_succ, Finset.sum_mul, Nat.add_sub_cancel, Nat.sub_self,
      pow_zero, mul_one]
    refine congrArg (· + w n) (Finset.sum_congr rfl fun i hi => ?_)
    have hlt := Finset.mem_range.1 hi
    rw [mul_assoc, ← pow_succ]
    congr 2
    omega

/-- A word from its end. -/
theorem ofCoeffs_reverse_word (n : ℕ) (w : ℕ → C.Element) :
    ofCoeffs (word n w).reverse = ∑ j ∈ Finset.range n, Polynomial.C (w j) * X ^ j := by
  induction n with
  | zero => rfl
  | succ n ih =>
    have hsplit : word (n + 1) w = word n w ++ [w n] := by
      unfold word
      rw [List.range_succ, List.map_append]
      rfl
    rw [hsplit, List.reverse_append, List.reverse_singleton, List.singleton_append, ofCoeffs_cons, ih,
      List.length_reverse, length_word, Finset.sum_range_succ, add_comm]

/-! ## Syndromes -/

theorem mapM_ok {α β : Type} {f : α → Except Fault β} {g : α → β} {l : List α}
    (h : ∀ a ∈ l, f a = .ok (g a)) : l.mapM f = .ok (l.map g) := by
  induction l with
  | nil => rfl
  | cons a l ih =>
    rw [List.mapM_cons, h a (List.mem_cons_self ..), ih fun b hb => h b (List.mem_cons_of_mem _ hb)]
    rfl

/-- A power of the code's primitive root. -/
def rootPower (C : Cycle m) (rs : RSBase) (e : ℕ) : C.Element :=
  power C (rs.primitiveRootIdx.toNat * e)

theorem rootPower_add (j k : ℕ) : rootPower C rs (j + k) = rootPower C rs j * rootPower C rs k := by
  unfold rootPower
  rw [power_mul_power, Nat.mul_add]

theorem rootPower_mul (j k : ℕ) : rootPower C rs (j * k) = rootPower C rs j ^ k := by
  unfold rootPower
  rw [power_eq_pow, power_eq_pow (_ * j), ← pow_mul, Nat.mul_assoc]

theorem rootPower_ne_zero (e : ℕ) : rootPower C rs e ≠ 0 := power_ne_zero _

/-- The syndromes of a word. -/
noncomputable def syndrome (rs : RSBase) (n : ℕ) (w : ℕ → C.Element) (j : ℕ) : C.Element :=
  (ofCoeffs (word n w)).eval (rootPower C rs (j + rs.firstConsecutiveRoot.toNat))

theorem Tabled.root_eq (h : Tabled C rs) (e : ℕ) : rs.root e = .ok (sym (rootPower C rs e)) :=
  h.root_ok e

/-- **The syndromes are the values at the roots.** -/
theorem calcSyndromes_word (h : Tabled C rs) {n : ℕ} (hn : 0 < n) (w : ℕ → C.Element) :
    rs.calcSyndromes ((word n w).map sym) = .ok ((word rs.parityLength (syndrome rs n w)).map sym) := by
  have hne : word n w ≠ [] := by
    intro hnil
    have hlen := congrArg List.length hnil
    rw [length_word, List.length_nil] at hlen
    omega
  have hmap : (word rs.parityLength (syndrome rs n w)).map sym =
      (List.range rs.parityLength).map fun j => sym (syndrome rs n w j) := List.map_map ..
  unfold RSBase.calcSyndromes
  rw [hmap]
  refine mapM_ok fun j _ => ?_
  rw [h.root_eq]
  exact h.gfPolyEval_ok hne _

/-- The point of a position: the power of the root that its symbol counts with. -/
def point (rs : RSBase) (C : Cycle m) (n i : ℕ) : C.Element := rootPower C rs (n - 1 - i)

/-- **The syndromes of a codeword with errors** are power sums of the errors. -/
theorem syndrome_errors {n : ℕ} {w c : ℕ → C.Element} {s : Finset ℕ} (hs : s ⊆ Finset.range n)
    (hagree : ∀ i < n, i ∉ s → w i = c i) {j : ℕ} (hc : syndrome rs n c j = 0) :
    syndrome rs n w j =
      powerSum s (point rs C n) (fun i => w i + c i) rs.firstConsecutiveRoot.toNat j := by
  have hsum : syndrome rs n w j = syndrome rs n w j + syndrome rs n c j := by rw [hc, add_zero]
  rw [hsum]
  unfold syndrome powerSum
  rw [eval_word, eval_word, ← Finset.sum_add_distrib, ← Finset.sum_subset hs fun i hi hni => ?_]
  · refine Finset.sum_congr rfl fun i _ => ?_
    rw [← add_mul, point, ← rootPower_mul, ← rootPower_mul, Nat.add_comm j, Nat.mul_comm]
  · rw [hagree i (Finset.mem_range.1 hi) hni, ← add_mul, Cycle.Element.add_self, zero_mul]

/-! ## The locator and the evaluator -/

/-- The positions as numbers. -/
def places (pos : SymVec) : Finset ℕ := (pos.map UInt8.toNat).toFinset

theorem mem_places {pos : SymVec} {i : ℕ} : i ∈ places pos ↔ ∃ s ∈ pos, s.toNat = i := by
  unfold places
  rw [List.mem_toFinset, List.mem_map]

theorem nodup_places {pos : SymVec} (hnodup : pos.Nodup) : (pos.map UInt8.toNat).Nodup :=
  hnodup.map fun _ _ h => UInt8.toNat_inj.1 h

theorem card_places {pos : SymVec} (hnodup : pos.Nodup) : (places pos).card = pos.length := by
  rw [places, List.toFinset_card_of_nodup (nodup_places hnodup), List.length_map]

/-- The points of different positions are different. -/
theorem point_inj {n : ℕ} (hcop : Nat.Coprime rs.primitiveRootIdx.toNat C.period) (hn : n ≤ C.period) :
    Set.InjOn (point rs C n) (Finset.range n) := by
  have hle : ∀ {i j : ℕ}, i < j → j < n → point rs C n i ≠ point rs C n j := by
    intro i j hij hj heq
    have hsplit : n - 1 - i = (n - 1 - j) + (j - i) := by omega
    unfold point at heq
    rw [hsplit, rootPower_add] at heq
    have hne : rootPower C rs (n - 1 - j) ≠ 0 := rootPower_ne_zero _
    have hone : power C (rs.primitiveRootIdx.toNat * (j - i)) = 1 :=
      mul_left_cancel₀ hne (heq.trans (mul_one _).symm)
    have hdvd := hcop.symm.dvd_of_dvd_mul_left ((power_eq_one_iff _).1 hone)
    have hlt := Nat.le_of_dvd (by omega) hdvd
    omega
  intro i hi j hj heq
  have hi' := Finset.mem_range.1 hi
  have hj' := Finset.mem_range.1 hj
  rcases Nat.lt_trichotomy i j with hlt | heqij | hgt
  · exact absurd heq (hle hlt hj')
  · exact heqij
  · exact absurd heq.symm (hle hgt hi')

/-- The loop over the positions multiplies with one factor each. -/
theorem locatorFrom_ok (h : Tabled C rs) (n : ℕ) (pos : SymVec) (q : List C.Element) :
    ∃ r : List C.Element, rs.locatorFrom n pos (q.map sym) = .ok (r.map sym) ∧
      r.length = q.length + pos.length ∧
      ofCoeffs r = ofCoeffs q *
        ((pos.map UInt8.toNat).map fun i => 1 - Polynomial.C (point rs C n i) * X).prod := by
  induction pos generalizing q with
  | nil => exact ⟨q, rfl, rfl, (mul_one _).symm⟩
  | cons i pos ih =>
    obtain ⟨r₁, hrun₁, hlen₁, hr₁⟩ := h.gfPolyMul_ok (p := q) (q := [point rs C n i.toNat, 1])
      (by rw [List.length_cons]; omega)
    obtain ⟨r₂, hrun₂, hlen₂, hr₂⟩ := ih r₁
    refine ⟨r₂, ?_, ?_, ?_⟩
    · unfold RSBase.locatorFrom
      rw [h.root_eq]
      show (rs.gfPolyMul (q.map sym) [sym (point rs C n i.toNat), 1] >>= _) = _
      rw [← h.one]
      show (rs.gfPolyMul (q.map sym) (List.map sym [point rs C n i.toNat, 1]) >>= _) = _
      rw [hrun₁]
      exact hrun₂
    · rw [hlen₂, hlen₁, List.length_cons, List.length_cons, List.length_cons, List.length_nil]
      omega
    · have hfactor : ofCoeffs [point rs C n i.toNat, 1] = 1 - Polynomial.C (point rs C n i.toNat) * X := by
        rw [ofCoeffs_cons, ofCoeffs_singleton, List.length_singleton, pow_one, map_one,
          CharTwo.sub_eq_add, add_comm]
      rw [hr₂, hr₁, hfactor, List.map_cons, List.map_cons, List.prod_cons, mul_assoc]

theorem prod_places {pos : SymVec} (hnodup : pos.Nodup) (n : ℕ) :
    ((pos.map UInt8.toNat).map fun i => 1 - Polynomial.C (point rs C n i) * X).prod =
      locator (places pos) (point rs C n) :=
  (List.prod_toFinset _ (nodup_places hnodup)).symm

/-! ## The corrections -/

/-- The power that every error is multiplied with: the code's length counts as if it were full. -/
def surplus (C : Cycle m) (rs : RSBase) (n : ℕ) : C.Element :=
  rootPower C rs (rs.firstConsecutiveRoot.toNat * n)

/-- The inverse of a point, as `correctErrata_` looks it up. -/
theorem point_inv (h : Tabled C rs) {n i : ℕ} (hi : i < n) (hn : n ≤ C.period) :
    rootPower C rs (i + rs.maxSymbol + 1 - n) = (point rs C n i)⁻¹ := by
  refine eq_inv_of_mul_eq_one_left ?_
  have hsum : i + rs.maxSymbol + 1 - n + (n - 1 - i) = C.period := by
    rw [h.max]
    omega
  unfold point
  rw [← rootPower_add, hsum]
  exact (power_eq_one_iff _).2 (Dvd.intro_left _ rfl)

/-- What is added at a position, for an evaluator polynomial. -/
noncomputable def magnitude (rs : RSBase) (C : Cycle m) (n : ℕ) (s : Finset ℕ) (e : C.Element[X])
    (i : ℕ) : C.Element :=
  rootPower C rs (rs.firstConsecutiveRoot.toNat * (i + 1)) *
    (e.eval (point rs C n i)⁻¹ /
      ((point rs C n i)⁻¹ * (derivative (locator s (point rs C n))).eval (point rs C n i)⁻¹))

/-- **With the evaluator of the errors** the error is added, times the surplus. -/
theorem magnitude_evaluator {n : ℕ} {s : Finset ℕ} {y : ℕ → C.Element}
    (hinj : Set.InjOn (point rs C n) s) {i : ℕ} (hi : i ∈ s) (hlt : i < n) :
    magnitude rs C n s (evaluator s (point rs C n) y rs.firstConsecutiveRoot.toNat) i =
      y i * surplus C rs n := by
  have hsplit : rs.firstConsecutiveRoot.toNat * n =
      rs.firstConsecutiveRoot.toNat * (i + 1) + (n - 1 - i) * rs.firstConsecutiveRoot.toNat := by
    rw [Nat.mul_comm (n - 1 - i), ← Nat.mul_add]
    congr 1
    omega
  have hx : point rs C n i ≠ 0 := rootPower_ne_zero _
  unfold magnitude
  rw [forney hi hx hinj, CharTwo.neg_eq]
  -- the factor looked up makes the surplus out of the point's power
  unfold surplus point
  rw [hsplit, rootPower_add, rootPower_mul (n - 1 - i)]
  ring

/-- What `correctErrata_` has of the positions: an evaluator polynomial and the derivative of the
locator. -/
structure Forney (rs : RSBase) (C : Cycle m) (n : ℕ) (s : Finset ℕ) (p q : List C.Element) :
    Prop where
  places_lt : ∀ i ∈ s, i < n
  size_le : n ≤ C.period
  distinct : Set.InjOn (point rs C n) s
  evaluator_ne : p ≠ []
  derivative_ne : q ≠ []
  derivative_eq : ∀ x, (ofCoeffs q).eval (x * x) = (derivative (locator s (point rs C n))).eval x

/-- **The loop over the positions** adds a magnitude at each. -/
theorem correctFrom_ok (h : Tabled C rs) {n : ℕ} {s : Finset ℕ} {p q : List C.Element}
    (hf : Forney rs C n s p q) {pos : SymVec} (hnodup : pos.Nodup) (hpos : places pos ⊆ s)
    (w : ℕ → C.Element) :
    rs.correctFrom (p.map sym) (q.map sym) pos ((word n w).map sym) = .ok ((word n fun i =>
      if i ∈ places pos then w i + magnitude rs C n s (ofCoeffs p) i else w i).map sym) := by
  induction pos generalizing w with
  | nil => rfl
  | cons a pos ih =>
    obtain ⟨hnew, hnodup'⟩ := List.nodup_cons.1 hnodup
    have hi : a.toNat ∈ s := hpos (mem_places.2 ⟨a, List.mem_cons_self .., rfl⟩)
    have hlt := hf.places_lt _ hi
    have hsub : places pos ⊆ s := by
      intro i hi'
      obtain ⟨b, hb, rfl⟩ := mem_places.1 hi'
      exact hpos (mem_places.2 ⟨b, List.mem_cons_of_mem _ hb, rfl⟩)
    have hnotin : a.toNat ∉ places pos := by
      intro hmem
      obtain ⟨b, hb, heq⟩ := mem_places.1 hmem
      exact hnew (UInt8.toNat_inj.1 heq ▸ hb)
    have hx : point rs C n a.toNat ≠ 0 := rootPower_ne_zero _
    have hxz : (point rs C n a.toNat)⁻¹ *
        (derivative (locator s (point rs C n))).eval (point rs C n a.toNat)⁻¹ ≠ 0 := by
      rw [eval_derivative_locator hi hx]
      exact mul_ne_zero (inv_ne_zero hx)
        (mul_ne_zero (neg_ne_zero.2 hx) (eval_locator_erase_ne_zero hi hx hf.distinct))
    have hstep : rs.correctFrom (p.map sym) (q.map sym) (a :: pos) ((word n w).map sym) =
        rs.correctFrom (p.map sym) (q.map sym) pos ((word n (Function.update w a.toNat
          (w a.toNat + magnitude rs C n s (ofCoeffs p) a.toNat))).map sym) := by
      conv_lhs => unfold RSBase.correctFrom
      rw [List.length_map, length_word, h.root_eq, point_inv h hlt hf.size_le]
      show (rs.gfPolyEval (p.map sym) _ >>= _) = _
      rw [h.gfPolyEval_ok hf.evaluator_ne]
      show (rs.gfMul _ _ >>= _) = _
      rw [h.gfMul_ok]
      show (rs.gfPolyEval (q.map sym) _ >>= _) = _
      rw [h.gfPolyEval_ok hf.derivative_ne, hf.derivative_eq]
      show (rs.gfMul _ _ >>= _) = _
      rw [h.gfMul_ok]
      show (rs.gfDiv _ _ >>= _) = _
      rw [h.gfDiv_ok _ hxz]
      show (rs.root _ >>= _) = _
      rw [h.root_eq]
      show (rs.gfMul _ _ >>= _) = _
      rw [h.gfMul_ok]
      show (xorAt _ _ _ >>= _) = _
      rw [xorAt_map (word_getElem? hlt w), word_set]
      rfl
    rw [hstep, ih hnodup' hsub]
    refine congrArg (fun u => Except.ok (List.map sym u)) (word_congr.2 fun i _ => ?_)
    by_cases hia : i = a.toNat
    · subst hia
      rw [if_neg hnotin, Function.update_self, if_pos (mem_places.2 ⟨a, List.mem_cons_self .., rfl⟩)]
    · have hiff : i ∈ places (a :: pos) ↔ i ∈ places pos := by
        rw [mem_places, mem_places]
        constructor
        · rintro ⟨b, hb, rfl⟩
          rcases List.mem_cons.1 hb with rfl | hb
          · exact absurd rfl hia
          · exact ⟨b, hb, rfl⟩
        · rintro ⟨b, hb, rfl⟩
          exact ⟨b, List.mem_cons_of_mem _ hb, rfl⟩
      rw [Function.update_of_ne hia]
      exact if_congr hiff.symm rfl rfl

theorem word_take {n k : ℕ} (hk : k ≤ n) (w : ℕ → C.Element) : (word n w).take k = word k w := by
  unfold word
  rw [← List.map_take, List.take_range, Nat.min_eq_left hk]

/-- **What `correctErrata_` does**, for any syndromes: it adds the magnitudes for the polynomial that
the syndromes times the locator are, up to the number of positions. -/
theorem correctErrata_ok (h : Tabled C rs) (hcop : Nat.Coprime rs.primitiveRootIdx.toNat C.period)
    {n : ℕ} (hn : n ≤ C.period) {pos : SymVec} (hnodup : pos.Nodup) (hlt : ∀ i ∈ pos, i.toNat < n)
    {k : ℕ} (hlen : pos.length ≤ k) (w synd : ℕ → C.Element) :
    ∃ e : C.Element[X],
      (∀ a r : C.Element[X], r.degree < pos.length →
        ofCoeffs (word pos.length synd).reverse * locator (places pos) (point rs C n) =
          a * X ^ pos.length + r → e = r) ∧
      rs.correctErrata ((word n w).map sym) ((word k synd).map sym) pos = .ok ((word n fun i =>
        if i ∈ places pos then w i + magnitude rs C n (places pos) e i else w i).map sym) := by
  by_cases hnil : pos = []
  · subst hnil
    refine ⟨0, fun a r hr _ => ?_, rfl⟩
    exact (degree_eq_bot.1 (Nat.WithBot.lt_zero_iff.1 hr)).symm
  have hpos : 0 < pos.length := List.length_pos_iff.2 hnil
  have hplaces : ∀ i ∈ places pos, i < n := by
    intro i hi
    obtain ⟨a, ha, rfl⟩ := mem_places.1 hi
    exact hlt a ha
  -- the locator
  obtain ⟨q, hq, hqlen, hqpoly⟩ := locatorFrom_ok h n pos [1]
  rw [ofCoeffs_singleton, map_one, one_mul, prod_places hnodup] at hqpoly
  rw [List.length_singleton] at hqlen
  have hone : List.map sym [(1 : C.Element)] = [1] := congrArg (fun s => [s]) h.one
  rw [hone] at hq
  -- the evaluator
  obtain ⟨p, hp, hplen, hppoly⟩ := h.gfPolyMul_ok (p := (word pos.length synd).reverse) (q := q)
    (by omega)
  rw [List.length_reverse, length_word, hqlen] at hplen
  rw [hqpoly] at hppoly
  -- the derivative
  obtain ⟨d, hd, hdne, hdeval⟩ := derivative_map (q := q) (by omega)
  rw [hqpoly] at hdeval
  have hforney : Forney rs C n (places pos) (p.drop (p.length - pos.length)) d := by
    refine ⟨hplaces, hn, ?_, ?_, hdne, hdeval⟩
    · exact (point_inj hcop hn).mono fun i hi => Finset.mem_range.2 (hplaces i hi)
    · intro hempty
      have hzero := congrArg List.length hempty
      rw [List.length_drop, List.length_nil] at hzero
      omega
  refine ⟨ofCoeffs (p.drop (p.length - pos.length)), fun a r hr heq => ?_, ?_⟩
  · exact ofCoeffs_drop (by omega) hr (hppoly.trans heq)
  · unfold RSBase.correctErrata
    rw [List.length_map, length_word, hq]
    show (if _ < _ then _ else _) = _
    rw [if_neg (by rw [List.length_map, length_word]; omega), ← List.map_take, word_take hlen,
      ← List.map_reverse, hp]
    show rs.correctFrom _ _ pos _ = _
    rw [List.length_map, ← List.map_drop, hd]
    exact correctFrom_ok h hforney hnodup (fun _ hi => hi) w

/-- **When all places that count in the syndromes are given**, each error is added, times the
surplus. -/
theorem correctErrata_word (h : Tabled C rs)
    (hcop : Nat.Coprime rs.primitiveRootIdx.toNat C.period) {n : ℕ} (hn : n ≤ C.period) {pos : SymVec}
    (hnodup : pos.Nodup) (hlt : ∀ i ∈ pos, i.toNat < n) (hlen : pos.length ≤ rs.parityLength)
    {w y : ℕ → C.Element} (hsynd : ∀ j < rs.parityLength, syndrome rs n w j =
      powerSum (places pos) (point rs C n) y rs.firstConsecutiveRoot.toNat j) :
    rs.correctErrata ((word n w).map sym) ((word rs.parityLength (syndrome rs n w)).map sym) pos =
      .ok ((word n fun i => if i ∈ places pos then w i + y i * surplus C rs n else w i).map sym) := by
  obtain ⟨e, he, hrun⟩ := correctErrata_ok h hcop hn hnodup hlt hlen w (syndrome rs n w)
  have hplaces : ∀ i ∈ places pos, i < n := by
    intro i hi
    obtain ⟨a, ha, rfl⟩ := mem_places.1 hi
    exact hlt a ha
  have hdistinct : Set.InjOn (point rs C n) (places pos) :=
    (point_inj hcop hn).mono fun i hi => Finset.mem_range.2 (hplaces i hi)
  have hsums : ofCoeffs (word pos.length (syndrome rs n w)).reverse =
      powerSums (places pos) (point rs C n) y rs.firstConsecutiveRoot.toNat pos.length := by
    rw [ofCoeffs_reverse_word]
    refine Finset.sum_congr rfl fun j hj => ?_
    rw [hsynd j ((Finset.mem_range.1 hj).trans_le hlen)]
  have heval := he _ _ ((degree_evaluator_lt _ _ _ _).trans_eq (by rw [card_places hnodup]))
    (hsums ▸ key_equation (places pos) (point rs C n) y rs.firstConsecutiveRoot.toNat pos.length)
  rw [hrun]
  refine congrArg (fun u => Except.ok (List.map sym u)) (word_congr.2 fun i hi => ?_)
  by_cases hmem : i ∈ places pos
  · rw [if_pos hmem, if_pos hmem, heval, magnitude_evaluator hdistinct hmem hi]
  · rw [if_neg hmem, if_neg hmem]

/-! ## Codewords -/

/-- The word is a codeword: a word of the code's length of symbols in range, whose syndromes are all
zero. -/
def RSBase.IsCodeword (rs : RSBase) (c : SymVec) : Prop :=
  c.length = rs.codeLength ∧ (∀ s ∈ c, s.toNat ≤ rs.maxSymbol) ∧
    rs.calcSyndromes c = .ok (List.replicate rs.parityLength 0)

/-- The correction leaves the errors as they are only if the code's length makes no difference. -/
theorem surplus_eq_one_iff (hcop : Nat.Coprime rs.primitiveRootIdx.toNat C.period) (n : ℕ) :
    surplus C rs n = 1 ↔ C.period ∣ rs.firstConsecutiveRoot.toNat * n := by
  unfold surplus rootPower
  rw [power_eq_one_iff]
  exact ⟨fun h => hcop.symm.dvd_of_dvd_mul_left h, fun h => h.mul_left _⟩

/-- The syndromes of a codeword are zero. -/
theorem RSBase.IsCodeword.syndrome_eq (h : Tabled C rs) {n : ℕ} (hn : 0 < n) {c : ℕ → C.Element}
    (hc : rs.IsCodeword ((word n c).map sym)) {j : ℕ} (hj : j < rs.parityLength) :
    syndrome rs n c j = 0 := by
  have heq := (calcSyndromes_word h hn c).symm.trans hc.2.2
  have hget := congrArg (fun v : SymVec => v[j]?) (Except.ok.inj heq)
  simp only [List.getElem?_map, word_getElem? hj, List.getElem?_replicate_of_lt hj, Option.map_some] at hget
  exact (sym_eq_zero h.bits_le).1 (Option.some.inj hget)

/-- **When the correction at the true positions restores the codeword**: the code's length times the
first root is a multiple of the length of the full code, or there is no error. -/
theorem errata_corrected_iff {p : RSParams} (hp : p.Admissible) {rs : RSBase}
    (hrs : RSBase.new p = .ok rs) {sent msg pos : SymVec} (hc : rs.IsCodeword sent)
    (hlen : msg.length = p.codeLength) (hrange : ∀ s ∈ msg, s.toNat ≤ p.maxSymbol)
    (hnodup : pos.Nodup) (hlt : ∀ i ∈ pos, i.toNat < p.codeLength)
    (hfew : 2 * pos.length ≤ p.parityLength)
    (hagree : ∀ k, (∀ i ∈ pos, i.toNat ≠ k) → msg[k]? = sent[k]?) :
    (rs.calcSyndromes msg >>= fun synd => rs.correctErrata msg synd pos) = .ok sent ↔
      msg = sent ∨ 2 ^ p.bitsPerSymbol - 1 ∣ p.firstConsecutiveRoot.toNat * p.codeLength := by
  obtain ⟨rfl, h⟩ := tabled_of_new hp hrs
  have hn := hp.parity_lt
  have hmax : rs.maxSymbol < 2 ^ rs.bitsPerSymbol := by
    rw [maxSymbol_eq hp.bits_le]
    exact Nat.sub_lt (Nat.two_pow_pos _) (by decide)
  obtain ⟨w, rfl⟩ := exists_word (C := hp.cycle) hlen fun s hs => (hrange s hs).trans_lt hmax
  obtain ⟨cw, rfl⟩ := exists_word (C := hp.cycle) hc.1 fun s hs => (hc.2.1 s hs).trans_lt hmax
  have hinj : ∀ u v : ℕ → hp.cycle.Element, (word rs.codeLength u).map sym =
      (word rs.codeLength v).map sym ↔ ∀ i < rs.codeLength, u i = v i := by
    intro u v
    rw [List.map_inj_right fun _ _ => (sym_inj hp.bits_le).1, word_congr]
  have hcode : ∀ j < rs.parityLength, syndrome rs rs.codeLength cw j = 0 :=
    fun j hj => hc.syndrome_eq h (by omega) hj
  have hout : ∀ i < rs.codeLength, i ∉ places pos → w i = cw i := by
    intro i hi hni
    have heq := hagree i fun a ha hai => hni (mem_places.2 ⟨a, ha, hai⟩)
    rw [List.getElem?_map, List.getElem?_map, word_getElem? hi, word_getElem? hi] at heq
    exact (sym_inj hp.bits_le).1 (Option.some.inj heq)
  have hsub : places pos ⊆ Finset.range rs.codeLength := by
    intro i hi
    obtain ⟨a, ha, rfl⟩ := mem_places.1 hi
    exact Finset.mem_range.2 (hlt a ha)
  have hcorrect := correctErrata_word (y := fun i => w i + cw i) h hp.root_coprime hp.code_le hnodup hlt
    (by omega) fun j hj => syndrome_errors hsub hout (hcode j hj)
  have hdvd : surplus hp.cycle rs rs.codeLength = 1 ↔
      2 ^ rs.bitsPerSymbol - 1 ∣ rs.firstConsecutiveRoot.toNat * rs.codeLength :=
    surplus_eq_one_iff hp.root_coprime rs.codeLength
  rw [calcSyndromes_word h (by omega)]
  show rs.correctErrata _ _ pos = _ ↔ _
  rw [hcorrect, Except.ok.injEq, hinj, hinj, ← hdvd]
  constructor
  · intro hrestored
    by_cases hsurplus : surplus hp.cycle rs rs.codeLength = 1
    · exact .inr hsurplus
    refine .inl fun i hi => ?_
    by_cases hi' : i ∈ places pos
    · -- an error that is taken away times something else stays one
      have heq := hrestored i hi
      rw [if_pos hi', add_comm (w i) (_ * _), CharTwo.add_eq_iff_eq_add, add_comm (cw i)] at heq
      by_contra hne
      have herror : w i + cw i ≠ 0 := fun hzero => hne (CharTwo.add_eq_zero.1 hzero)
      exact hsurplus (mul_left_cancel₀ herror (heq.trans (mul_one _).symm))
    · exact hout i hi hi'
  · rintro (hsame | hsurplus) i hi
    · rw [hsame i hi, Cycle.Element.add_self, zero_mul, add_zero]
      exact ite_self _
    · by_cases hi' : i ∈ places pos
      · rw [if_pos hi', hsurplus, mul_one, ← add_assoc, Cycle.Element.add_self, zero_add]
      · rw [if_neg hi', hout i hi hi']

set_option maxRecDepth 4000 in
/-- One error in a full word of three symbols. -/
theorem errata_corrected_full : ∃ rs, RSBase.new ⟨7, 2, 3, 2, 1, 0, 1, false⟩ = .ok rs ∧
    (rs.calcSyndromes [1, 3, 3] >>= fun synd => rs.correctErrata [1, 3, 3] synd [2]) =
      .ok [1, 3, 2] := by
  have hp : RSParams.Admissible ⟨7, 2, 3, 2, 1, 0, 1, false⟩ :=
    ⟨by decide, by decide, primitive_two, ⟨1, rfl⟩, by decide, by decide, by decide, by decide⟩
  refine ⟨⟨⟨7, 2, 3, 2, 1, 0, 1, false⟩, [1, 2, 3, 1, 2, 3, 1, 2], [3, 0, 1, 2], loadTal, loadTalInv⟩,
    rfl, ?_⟩
  refine (errata_corrected_iff hp rfl ⟨rfl, by decide, rfl⟩ rfl (by decide) (by decide) (by decide)
    (by decide) fun k hk => ?_).2 (.inr (by decide))
  rcases k with _ | _ | _ | k
  · rfl
  · rfl
  · exact absurd rfl (hk 2 (List.mem_singleton.2 rfl))
  · rfl

set_option maxRecDepth 4000 in
/-- One error in a word of four symbols of three bits, with the first root one: the correction adds
another error. -/
theorem shortened_miscorrected : ¬ ∀ (p : RSParams), p.Admissible → ∀ rs, RSBase.new p = .ok rs →
    ∀ sent msg pos : SymVec, rs.IsCodeword sent → msg.length = p.codeLength →
      (∀ s ∈ msg, s.toNat ≤ p.maxSymbol) → pos.Nodup → (∀ i ∈ pos, i.toNat < p.codeLength) →
      2 * pos.length ≤ p.parityLength → (∀ k, (∀ i ∈ pos, i.toNat ≠ k) → msg[k]? = sent[k]?) →
      (rs.calcSyndromes msg >>= fun synd => rs.correctErrata msg synd pos) = .ok sent := by
  intro hall
  have hp : RSParams.Admissible ⟨11, 2, 4, 3, 1, 1, 1, false⟩ :=
    ⟨by decide, by decide, primitive_three, ⟨1, rfl⟩, by decide, by decide, by decide, by decide⟩
  have hrun := hall _ hp ⟨⟨11, 2, 4, 3, 1, 1, 1, false⟩, [1, 2, 4, 3, 6, 7, 5, 1, 2, 4, 3, 6, 7, 5, 1, 2],
    [7, 0, 1, 3, 2, 6, 4, 5], loadTal, loadTalInv⟩ rfl [0, 0, 0, 0] [0, 0, 0, 1] [3]
    ⟨rfl, by decide, rfl⟩ rfl (by decide) (by decide) (by decide) (by decide) (fun k hk => by
      rcases k with _ | _ | _ | _ | k
      · rfl
      · rfl
      · rfl
      · exact absurd rfl (hk 3 (List.mem_singleton.2 rfl))
      · rfl)
  have hout := congrArg Except.toOption hrun
  exact absurd hout (by decide)

end ChannelEmulator.ReedSolomon
