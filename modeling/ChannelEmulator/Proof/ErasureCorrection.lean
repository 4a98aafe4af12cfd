import ChannelEmulator.Proof.ForneySyndromes

/-!
# Erasures and errors

What `correctOneWord_` makes of a codeword with erased symbols and errors, few enough for the code.

* `RSBase.weighed`: the errors as the turned syndromes show them.
* `corrected_of_found`, `found_of_corrected`: the codeword comes out just if they look like errors at few positions that
  are not erased.
* `erasures_corrected_iff`: **when the codeword is restored**.
* `erasures_corrected_of_root`: it always is where the primitive root is the generator that the tables are made of.
-/

namespace ChannelEmulator.ReedSolomon

open Coding Coding.Cycle.Element Polynomial

variable {m : ℕ} {C : Cycle m} {rs : RSBase} {w c g : ℕ → C.Element}

/-! ## Words of the field -/

/-- The syndromes are power sums of all symbols. -/
theorem syndrome_eq_powerSum (n : ℕ) (w : ℕ → C.Element) (j : ℕ) : syndrome rs n w j =
    powerSum (Finset.range n) (point rs C n) w rs.firstConsecutiveRoot.toNat j := by
  unfold syndrome powerSum
  rw [eval_word]
  refine Finset.sum_congr rfl fun i _ => ?_
  rw [point, ← rootPower_mul, ← rootPower_mul, Nat.add_comm j, Nat.mul_comm]

/-- The places of the symbols that are not zero. -/
def nonzeros (n : ℕ) (w : ℕ → C.Element) : Finset ℕ := (Finset.range n).filter fun i => sym (w i) ≠ 0

theorem nonzeros_subset (n : ℕ) (w : ℕ → C.Element) : nonzeros n w ⊆ Finset.range n := Finset.filter_subset _ _

theorem mem_nonzeros (hm : m ≤ 8) {n i : ℕ} : i ∈ nonzeros n w ↔ i < n ∧ w i ≠ 0 := by
  unfold nonzeros
  rw [Finset.mem_filter, Finset.mem_range, Ne, sym_eq_zero hm]

/-- Only they count. -/
theorem syndrome_nonzeros (hm : m ≤ 8) (n : ℕ) (w : ℕ → C.Element) (j : ℕ) : syndrome rs n w j =
    powerSum (nonzeros n w) (point rs C n) w rs.firstConsecutiveRoot.toNat j := by
  rw [syndrome_eq_powerSum]
  unfold powerSum
  refine (Finset.sum_subset (nonzeros_subset n w) fun i hi hnot => ?_).symm
  have hzero : w i = 0 := by
    by_contra hne
    exact hnot ((mem_nonzeros hm).2 ⟨Finset.mem_range.1 hi, hne⟩)
  rw [hzero, zero_mul]

/-- The errors, as the turned syndromes show them. -/
noncomputable def seen (rs : RSBase) (n : ℕ) (erased : List ℕ) (w c : ℕ → C.Element) (i : ℕ) : C.Element :=
  (w i + c i) * turnWeight C n erased (point rs C n i)

/-- They look like errors at few positions that are not erased, among them all of the errors there. -/
structure Found (rs : RSBase) (n : ℕ) (erased : List ℕ) (w c g : ℕ → C.Element) : Prop where
  zero : ∀ i ∈ erased, g i = 0
  errors : ∀ i < n, i ∉ erased → w i ≠ c i → g i ≠ 0
  few : 2 * (nonzeros n g).card ≤ rs.parityLength - erased.length
  sums : ∀ j < rs.parityLength - erased.length, syndrome rs n (seen rs n erased w c) j = syndrome rs n g j

/-! ## The correction -/

theorem places_map_ofNat {erased : List ℕ} (hlt : ∀ k ∈ erased, k < 256) :
    places (erased.map UInt8.ofNat) = erased.toFinset := by
  have hback : (erased.map UInt8.ofNat).map UInt8.toNat = erased := by
    rw [List.map_map]
    exact (List.map_congr_left fun k hk => Nat.mod_eq_of_lt (hlt k hk)).trans (List.map_id' _)
  unfold places
  rw [hback]

theorem places_append (pos pos' : SymVec) : places (pos ++ pos') = places pos ∪ places pos' := by
  unfold places
  rw [List.map_append, List.toFinset_append]

/-- The syndromes behind the turns. -/
theorem forneySyndromes_seen (h : Tabled C rs) {n : ℕ} (hn : n ≤ C.period) {erased : List ℕ}
    (hlt : ∀ k ∈ erased, k < n) (hfew : erased.length ≤ rs.parityLength)
    (hc : ∀ j < rs.parityLength, syndrome rs n c j = 0) :
    rs.forneySyndromes n (erased.map UInt8.ofNat) ((word rs.parityLength (syndrome rs n w)).map sym) =
      .ok ((word (rs.parityLength - erased.length) (syndrome rs n (seen rs n erased w c))).map sym) := by
  have hsynd : word rs.parityLength (syndrome rs n w) = word rs.parityLength
      (powerSum (Finset.range n) (point rs C n) (fun i => w i + c i) rs.firstConsecutiveRoot.toNat) :=
    word_congr.2 fun j hj => syndrome_errors (Finset.Subset.refl _)
      (fun i hi hnot => absurd (Finset.mem_range.2 hi) hnot) (hc j hj)
  rw [hsynd, h.forneySyndromes_ok hn hlt hfew, word_congr.2 fun j _ => (syndrome_eq_powerSum n _ j).symm]
  rfl

/-- **What is found is corrected.** -/
theorem corrected_of_found (h : Tabled C rs) (hcop : Nat.Coprime rs.primitiveRootIdx.toNat C.period)
    (hn : rs.codeLength = C.period) {msg : SymVec} (hw : rs.zeroed msg = (word rs.codeLength w).map sym)
    (hc : ∀ j < rs.parityLength, syndrome rs rs.codeLength c j = 0)
    (hfew : 2 * ((differing rs.codeLength w c).filter (· ∉ rs.erased msg)).card + (rs.erased msg).length ≤
      rs.parityLength)
    (hfound : Found rs rs.codeLength (rs.erased msg) w c g) :
    ∃ errs, rs.correctOneWord msg = .ok ((word rs.codeLength c).map sym, errs) := by
  have hpos : 0 < rs.codeLength := hn ▸ C.period_pos
  have hsurplus : surplus C rs rs.codeLength = 1 := (surplus_eq_one_iff hcop _).2 (hn ▸ Nat.dvd_mul_left _ _)
  have hlen := length_of_zeroed hw
  have hlt : ∀ k ∈ rs.erased msg, k < rs.codeLength := fun k hk => hlen ▸ erased_lt hk
  have hperiod : C.period ≤ 255 := by
    have hle : 2 ^ m ≤ 2 ^ 8 := Nat.pow_le_pow_right (by decide) h.bits_le
    rw [h.period_eq]
    omega
  rw [correctOneWord_erased h hpos hw (by omega)]
  by_cases hsum : (((word rs.parityLength (syndrome rs rs.codeLength w)).map sym).map UInt8.toNat).sum = 0
  · -- without errors in the syndromes there are none
    have hcard : (differing rs.codeLength w c).card ≤
        ((differing rs.codeLength w c).filter (· ∉ rs.erased msg)).card + (rs.erased msg).length := by
      have hsplit := Finset.card_filter_add_card_filter_not (s := differing rs.codeLength w c) (· ∉ rs.erased msg)
      have hsub : (differing rs.codeLength w c).filter (fun i => ¬ i ∉ rs.erased msg) ⊆ (rs.erased msg).toFinset := by
        intro i hi
        exact List.mem_toFinset.2 (not_not.1 (Finset.mem_filter.1 hi).2)
      have hle := (Finset.card_le_card hsub).trans (List.toFinset_card_le _)
      omega
    have hempty := differing_eq_empty h hcop hn.le hc (by omega) ((syndromes_sum_eq_zero h _).1 hsum)
    have hsame : word rs.codeLength w = word rs.codeLength c := by
      refine word_congr.2 fun i hi => eq_of_not_differing h.bits_le hi ?_
      rw [hempty]
      exact Finset.notMem_empty i
    rw [if_pos hsum, hsame]
    exact ⟨_, rfl⟩
  rw [if_neg hsum, forneySyndromes_seen h hn.le hlt (by omega) hc, Framing.ok_bind]
  have hturned : word (rs.parityLength - (rs.erased msg).length)
      (syndrome rs rs.codeLength (seen rs rs.codeLength (rs.erased msg) w c)) =
      word (rs.parityLength - (rs.erased msg).length) (powerSum (nonzeros rs.codeLength g) (point rs C rs.codeLength) g
        rs.firstConsecutiveRoot.toNat) :=
    word_congr.2 fun j hj => (hfound.sums j hj).trans (syndrome_nonzeros h.bits_le _ g j)
  obtain ⟨errPos, hfind, hnodup, herrLt, hplaces⟩ := findErrors_powerSums h hcop hn.le
    (b := rs.firstConsecutiveRoot.toNat) (nonzeros_subset _ g)
    (fun k hk => ((mem_nonzeros h.bits_le).1 hk).2) hfound.few
  rw [hturned, hfind, Framing.ok_bind]
  have hall : places ((rs.erased msg).map UInt8.ofNat ++ errPos) =
      (rs.erased msg).toFinset ∪ nonzeros rs.codeLength g := by
    rw [places_append, hplaces, places_map_ofNat fun k hk => by have := hlt k hk; omega]
  have hdistinct : ((rs.erased msg).map UInt8.ofNat ++ errPos).Nodup := by
    refine List.nodup_append.2 ⟨?_, hnodup, ?_⟩
    · refine (nodup_erased msg).map_on fun j hj k hk heq => ?_
      have hnat := congrArg UInt8.toNat heq
      have hj' := hlt j hj
      have hk' := hlt k hk
      rwa [h.toNat_log (by omega), h.toNat_log (by omega)] at hnat
    · rintro a ha b hb rfl
      obtain ⟨k, hk, rfl⟩ := List.mem_map.1 ha
      have hplace : (UInt8.ofNat k).toNat ∈ nonzeros rs.codeLength g := hplaces ▸ mem_places.2 ⟨_, hb, rfl⟩
      have hk' := hlt k hk
      rw [h.toNat_log (by omega)] at hplace
      exact ((mem_nonzeros h.bits_le).1 hplace).2 (hfound.zero k hk)
  have hcount : errPos.length = (nonzeros rs.codeLength g).card := by rw [← hplaces, card_places hnodup]
  have hfewFound := hfound.few
  refine ⟨_, correctErrata_restores h hcop hpos hn.le hsurplus hc hdistinct (fun i hi => ?_) ?_ fun i hi hnot => ?_⟩
  · rcases List.mem_append.1 hi with hi | hi
    · obtain ⟨k, hk, rfl⟩ := List.mem_map.1 hi
      have hk' := hlt k hk
      rwa [h.toNat_log (by omega)]
    · exact herrLt i hi
  · rw [List.length_append, List.length_map]
    omega
  · rw [hall, Finset.mem_union, not_or, List.mem_toFinset] at hnot
    by_contra hne
    exact hnot.2 ((mem_nonzeros h.bits_le).2 ⟨hi, hfound.errors i hi hnot.1 hne⟩)

/-- **What is corrected was found.** -/
theorem found_of_corrected (h : Tabled C rs) (hcop : Nat.Coprime rs.primitiveRootIdx.toNat C.period)
    (hn : rs.codeLength = C.period) {msg : SymVec} (hw : rs.zeroed msg = (word rs.codeLength w).map sym)
    (hc : ∀ j < rs.parityLength, syndrome rs rs.codeLength c j = 0)
    (hfew : (rs.erased msg).length ≤ rs.parityLength) {errs : ℕ}
    (hrun : rs.correctOneWord msg = .ok ((word rs.codeLength c).map sym, errs)) :
    ∃ g, Found rs rs.codeLength (rs.erased msg) w c g := by
  have hpos : 0 < rs.codeLength := hn ▸ C.period_pos
  have hlen := length_of_zeroed hw
  have hlt : ∀ k ∈ rs.erased msg, k < rs.codeLength := fun k hk => hlen ▸ erased_lt hk
  have hinj : ∀ {u v : ℕ → C.Element}, (word rs.codeLength u).map sym = (word rs.codeLength v).map sym →
      ∀ i < rs.codeLength, u i = v i := fun heq =>
    word_congr.1 ((List.map_inj_right fun _ _ => (sym_inj h.bits_le).1).1 heq)
  rw [correctOneWord_erased h hpos hw hfew] at hrun
  by_cases hsum : (((word rs.parityLength (syndrome rs rs.codeLength w)).map sym).map UInt8.toNat).sum = 0
  · -- there are no errors
    rw [if_pos hsum] at hrun
    obtain ⟨hout, -⟩ := Prod.mk.inj (Except.ok.inj hrun)
    have hsame := hinj hout
    have hzero : ∀ i < rs.codeLength, seen rs rs.codeLength (rs.erased msg) w c i = 0 := by
      intro i hi
      unfold seen
      rw [hsame i hi, add_self, zero_mul]
    refine ⟨fun _ => 0, fun _ _ => rfl, fun i hi _ hne => absurd (hsame i hi) hne, ?_, fun j _ => ?_⟩
    · have hnone : nonzeros rs.codeLength (fun _ => (0 : C.Element)) = ∅ :=
        Finset.filter_eq_empty_iff.2 fun i _ => not_not.2 sym_zero
      rw [hnone, Finset.card_empty]
      exact Nat.zero_le _
    · unfold syndrome
      rw [word_congr.2 hzero]
  rw [if_neg hsum, forneySyndromes_seen h hn.le hlt hfew hc, Framing.ok_bind] at hrun
  obtain ⟨errPos, hfind, hrun⟩ := Framing.bind_ok hrun
  obtain ⟨msgOut, herrata, hrun⟩ := Framing.bind_ok hrun
  -- the errors that were found
  obtain ⟨e, b, L, pos, hmassey, hzeros, hfound⟩ := h.findErrors_ok hn.le (rs.parityLength - (rs.erased msg).length)
    (syndrome rs rs.codeLength (seen rs rs.codeLength (rs.erased msg) w c))
  rw [hfind] at hfound
  by_cases hmany : rs.parityLength - (rs.erased msg).length < L * 2
  · rw [if_pos hmany] at hfound
    cases hfound
  by_cases hcount : pos.length = L
  swap
  · rw [if_neg hmany, if_pos hcount] at hfound
    cases hfound
  rw [if_neg hmany, if_neg (not_not.2 hcount)] at hfound
  obtain rfl := Except.ok.inj hfound
  have hposLt : ∀ i ∈ (rs.erased msg).map UInt8.ofNat ++ errPos, i.toNat < rs.codeLength := by
    intro i hi
    rcases List.mem_append.1 hi with hi | hi
    · obtain ⟨k, hk, rfl⟩ := List.mem_map.1 hi
      have hk' := hlt k hk
      rwa [h.toNat_log (by omega)]
    · exact hzeros.lt i hi
  have hnodup := correctErrata_distinct h hn.le hposLt herrata
  -- nothing else was changed
  obtain ⟨d, -, hcorrect⟩ := correctErrata_ok h hcop hn.le hnodup hposLt (k := rs.parityLength)
    (by rw [List.length_append, List.length_map]; omega) w (syndrome rs rs.codeLength w)
  obtain rfl := Except.ok.inj (hcorrect.symm.trans herrata)
  obtain ⟨synd, -, hrun⟩ := Framing.bind_ok hrun
  by_cases hany : synd.any (0 < ·) = true
  · rw [if_pos hany] at hrun
    cases hrun
  rw [if_neg hany] at hrun
  obtain ⟨hout, -⟩ := Prod.mk.inj (Except.ok.inj hrun)
  have hkept : ∀ i < rs.codeLength, i ∉ places ((rs.erased msg).map UInt8.ofNat ++ errPos) → w i = c i := by
    intro i hi hnot
    have heq := hinj hout i hi
    rwa [if_neg hnot] at heq
  have hplaces : places errPos ⊆ Finset.range rs.codeLength := by
    intro i hi
    obtain ⟨a, ha, rfl⟩ := mem_places.1 hi
    exact Finset.mem_range.2 (hzeros.lt a ha)
  obtain ⟨y, hy, hsums⟩ := hmassey.weights ((card_places hzeros.nodup).trans hcount)
    ((point_inj hcop hn.le).mono hplaces) (fun k _ => rootPower_ne_zero _)
    (fun k hk => (hzeros.mem k (Finset.mem_range.1 (hplaces hk))).1 hk) rs.firstConsecutiveRoot.toNat
  have hnonzeros : nonzeros rs.codeLength (fun i => if i ∈ places errPos then y i else 0) = places errPos := by
    ext i
    rw [mem_nonzeros h.bits_le]
    constructor
    · rintro ⟨-, hne⟩
      by_contra hnot
      exact hne (if_neg hnot)
    · intro hi
      rw [if_pos hi]
      exact ⟨Finset.mem_range.1 (hplaces hi), hy i hi⟩
  refine ⟨fun i => if i ∈ places errPos then y i else 0, fun i hi => if_neg fun hmem => ?_, fun i hi hnot hne => ?_, ?_,
    fun j hj => ?_⟩
  · obtain ⟨a, ha, rfl⟩ := mem_places.1 hmem
    have hback : UInt8.ofNat a.toNat = a := UInt8.ofNat_toNat
    exact List.disjoint_of_nodup_append hnodup (hback ▸ List.mem_map_of_mem hi) ha
  · have hmem : i ∈ places errPos := by
      by_contra hout'
      refine hne (hkept i hi ?_)
      rw [places_append, Finset.mem_union, not_or]
      refine ⟨fun hin => ?_, hout'⟩
      obtain ⟨a, ha, rfl⟩ := mem_places.1 hin
      obtain ⟨k, hk, rfl⟩ := List.mem_map.1 ha
      have hk' := hlt k hk
      rw [h.toNat_log (by omega)] at hnot
      exact hnot hk
    rw [if_pos hmem]
    exact hy i hmem
  · rw [hnonzeros, card_places hzeros.nodup]
    omega
  · have hcoeff := hsums j hj
    rw [coeff_ofCoeffs, List.reverse_reverse, word_getElem? hj] at hcoeff
    rw [syndrome_nonzeros h.bits_le _ (fun i => if i ∈ places errPos then y i else 0), hnonzeros]
    exact hcoeff.trans (Finset.sum_congr rfl fun i hi => congrArg (· * _) (if_pos hi).symm)

/-- **With the root that the tables are made of**, each error keeps a weight, and the erased symbols lose theirs. -/
theorem found_of_root (h : Tabled C rs) (hcop : Nat.Coprime rs.primitiveRootIdx.toNat C.period)
    (hroot : rs.primitiveRootIdx.toNat % C.period = 1) {n : ℕ} (hn : n ≤ C.period) {erased : List ℕ}
    (hlt : ∀ k ∈ erased, k < n)
    (hfew : 2 * ((differing n w c).filter (· ∉ erased)).card + erased.length ≤ rs.parityLength) :
    Found rs n erased w c (seen rs n erased w c) := by
  have hpoint : ∀ k, power C (n - 1 - k) = point rs C n k := by
    intro k
    unfold point rootPower
    rw [← power_mod (rs.primitiveRootIdx.toNat * (n - 1 - k)), Nat.mul_mod, hroot, Nat.one_mul, Nat.mod_mod, power_mod]
  have hzero : ∀ i ∈ erased, seen rs n erased w c i = 0 := by
    intro i hi
    have hfactor : power C (n - 1 - i) + point rs C n i = 0 := by rw [hpoint, add_self]
    unfold seen turnWeight
    rw [List.prod_eq_zero (List.mem_map.2 ⟨i, hi, hfactor⟩), mul_zero]
  have hsub : nonzeros n (seen rs n erased w c) ⊆ (differing n w c).filter (· ∉ erased) := by
    intro i hi
    obtain ⟨hin, hne⟩ := (mem_nonzeros h.bits_le).1 hi
    refine Finset.mem_filter.2 ⟨?_, fun hmem => hne (hzero i hmem)⟩
    by_contra hnot
    refine hne ?_
    unfold seen
    rw [eq_of_not_differing h.bits_le hin hnot, add_self, zero_mul]
  refine ⟨hzero, fun i hi hnot hne => mul_ne_zero (fun hsum => hne (eq_of_add_eq_zero hsum)) ?_, ?_, fun _ _ => rfl⟩
  · refine List.prod_ne_zero fun hmem => ?_
    obtain ⟨k, hk, hsum⟩ := List.mem_map.1 hmem
    rw [hpoint] at hsum
    have heq := point_inj hcop hn (Finset.mem_coe.2 (Finset.mem_range.2 (hlt k hk)))
      (Finset.mem_coe.2 (Finset.mem_range.2 hi)) (eq_of_add_eq_zero hsum)
    exact hnot (heq ▸ hk)
  · have hle := Finset.card_le_card hsub
    omega

/-! ## The condition on the symbols -/

/-- The positions of the errors: of the symbols in range that differ from the codeword's. -/
def RSBase.wrong (rs : RSBase) (sent msg : SymVec) : List ℕ :=
  (List.range msg.length).filter fun i => i ∉ rs.erased msg ∧ msg[i]? ≠ sent[i]?

/-- What the word with zeros at the erased positions differs by from the codeword. -/
def RSBase.errors (rs : RSBase) (sent msg : SymVec) : SymVec := List.zipWith (· ^^^ ·) (rs.zeroed msg) sent

/-- An error, times the sum of its point and the power of the generator for each erased position. -/
def RSBase.weigh (rs : RSBase) (n i : ℕ) : List ℕ → Sym → Except Fault Sym
  | [], s => .ok s
  | k :: erased, s => do
    let x ← rs.root (n - 1 - i)
    let y ← octetAt rs.gfExp (n - 1 - k)
    let s ← rs.gfMul s (y ^^^ x)
    rs.weigh n i erased s

/-- All errors. -/
def RSBase.weighed (rs : RSBase) (erased : List ℕ) (errors : SymVec) : Except Fault SymVec :=
  (List.range errors.length).mapM fun i => do
    let s ← octetAt errors i
    rs.weigh errors.length i erased s

/-- **The weighed errors look like others**: these are at few positions that are not erased, among them all of the
errors there, and the first syndromes of both are the same. -/
structure Spotted (rs : RSBase) (sent msg other : SymVec) : Prop where
  length : other.length = rs.codeLength
  range : ∀ s ∈ other, s.toNat ≤ rs.maxSymbol
  zero : ∀ i ∈ rs.erased msg, other[i]? = some 0
  errors : ∀ i ∈ rs.wrong sent msg, other[i]? ≠ some 0
  few : 2 * other.countP (· ≠ 0) ≤ rs.parityLength - (rs.erased msg).length
  syndromes : ∃ weighed synd synd', rs.weighed (rs.erased msg) (rs.errors sent msg) = .ok weighed ∧
    rs.calcSyndromes weighed = .ok synd ∧ rs.calcSyndromes other = .ok synd' ∧
    synd.take (rs.parityLength - (rs.erased msg).length) = synd'.take (rs.parityLength - (rs.erased msg).length)

theorem Tabled.weigh_ok (h : Tabled C rs) {n : ℕ} (hn : n ≤ C.period) {erased : List ℕ} (hlt : ∀ k ∈ erased, k < n)
    (i : ℕ) (a : C.Element) :
    rs.weigh n i erased (sym a) = .ok (sym (a * turnWeight C n erased (point rs C n i))) := by
  induction erased generalizing a with
  | nil =>
    unfold turnWeight
    rw [List.map_nil, List.prod_nil, mul_one]
    rfl
  | cons k erased ih =>
    have hk := hlt k List.mem_cons_self
    have hlookup : octetAt rs.gfExp (n - 1 - k) = .ok (sym (power C (n - 1 - k))) := octetAt_some (h.exp _ (by omega))
    rw [RSBase.weigh, h.root_eq, Framing.ok_bind, hlookup, Framing.ok_bind, ← sym_add, h.gfMul_ok, Framing.ok_bind,
      ih fun j hj => hlt j (List.mem_cons_of_mem k hj)]
    unfold turnWeight
    rw [List.map_cons, List.prod_cons, mul_assoc]
    rfl

theorem Tabled.weighed_ok (h : Tabled C rs) {n : ℕ} (hn : n ≤ C.period) {erased : List ℕ}
    (hlt : ∀ k ∈ erased, k < n) (v : ℕ → C.Element) : rs.weighed erased ((word n v).map sym) =
      .ok ((word n fun i => v i * turnWeight C n erased (point rs C n i)).map sym) := by
  have hmap : (word n fun i => v i * turnWeight C n erased (point rs C n i)).map sym =
      (List.range n).map fun i => sym (v i * turnWeight C n erased (point rs C n i)) := List.map_map ..
  unfold RSBase.weighed
  rw [hmap, List.length_map, length_word]
  refine mapM_ok fun i hi => ?_
  rw [octetAt_map (word_getElem? (List.mem_range.1 hi) v), Framing.ok_bind]
  exact h.weigh_ok hn hlt i _

theorem errors_word {n : ℕ} {sent msg : SymVec} (hw : rs.zeroed msg = (word n w).map sym)
    (hsent : sent = (word n c).map sym) : rs.errors sent msg = (word n fun i => w i + c i).map sym := by
  unfold RSBase.errors
  rw [hw, hsent]
  unfold word
  rw [List.map_map, List.map_map, List.map_map, List.zipWith_map, List.zipWith_self]
  exact List.map_congr_left fun i _ => (sym_add _ _).symm

theorem mem_wrong {n : ℕ} {sent msg : SymVec} (hw : rs.zeroed msg = (word n w).map sym)
    (hsent : sent = (word n c).map sym) {i : ℕ} :
    i ∈ rs.wrong sent msg ↔ i ∈ (differing n w c).filter (· ∉ rs.erased msg) := by
  have hlen := length_of_zeroed hw
  unfold RSBase.wrong differing
  rw [List.mem_filter, List.mem_range, decide_eq_true_eq, Finset.mem_filter, Finset.mem_filter, Finset.mem_range, hlen,
    and_assoc, and_comm (a := i ∉ rs.erased msg)]
  refine and_congr_right fun hi => and_congr_left fun hnot => ?_
  rw [← zeroed_getElem? hnot, hw, hsent, List.getElem?_map, List.getElem?_map, word_getElem? hi, word_getElem? hi,
    Option.map_some, Option.map_some, Ne, Option.some_inj]

theorem countP_word (n : ℕ) (g : ℕ → C.Element) : ((word n g).map sym).countP (· ≠ 0) = (nonzeros n g).card := by
  unfold word nonzeros
  rw [List.map_map, List.countP_map, List.countP_eq_length_filter]
  rfl

/-- The condition, in the field. -/
theorem spotted_iff (h : Tabled C rs) (hpos : 0 < rs.codeLength) (hn : rs.codeLength ≤ C.period) {sent msg : SymVec}
    (hw : rs.zeroed msg = (word rs.codeLength w).map sym) (hsent : sent = (word rs.codeLength c).map sym) :
    (∃ other, Spotted rs sent msg other) ↔ ∃ g, Found rs rs.codeLength (rs.erased msg) w c g := by
  have hlen := length_of_zeroed hw
  have hlt : ∀ k ∈ rs.erased msg, k < rs.codeLength := fun k hk => hlen ▸ erased_lt hk
  have hget : ∀ (g : ℕ → C.Element) {i : ℕ}, i < rs.codeLength →
      (((word rs.codeLength g).map sym)[i]? = some 0 ↔ g i = 0) := by
    intro g i hi
    rw [List.getElem?_map, word_getElem? hi, Option.map_some, Option.some_inj, sym_eq_zero h.bits_le]
  have hweighed : rs.weighed (rs.erased msg) (rs.errors sent msg) =
      .ok ((word rs.codeLength (seen rs rs.codeLength (rs.erased msg) w c)).map sym) := by
    rw [errors_word hw hsent]
    exact h.weighed_ok hn hlt _
  have hfirst : ∀ u v : ℕ → C.Element, ((word rs.parityLength (syndrome rs rs.codeLength u)).map sym).take
      (rs.parityLength - (rs.erased msg).length) = ((word rs.parityLength (syndrome rs rs.codeLength v)).map sym).take
      (rs.parityLength - (rs.erased msg).length) ↔ ∀ j < rs.parityLength - (rs.erased msg).length,
        syndrome rs rs.codeLength u j = syndrome rs rs.codeLength v j := by
    intro u v
    rw [← List.map_take, ← List.map_take, word_take (Nat.sub_le _ _), word_take (Nat.sub_le _ _),
      List.map_inj_right fun _ _ => (sym_inj h.bits_le).1, word_congr]
  have hwrong : ∀ {i}, i ∈ rs.wrong sent msg ↔ i < rs.codeLength ∧ i ∉ rs.erased msg ∧ w i ≠ c i := by
    intro i
    rw [mem_wrong hw hsent, Finset.mem_filter]
    unfold differing
    rw [Finset.mem_filter, Finset.mem_range, Ne, sym_inj h.bits_le, and_assoc, and_comm (a := ¬ w i = c i)]
  constructor
  · rintro ⟨other, hspot⟩
    obtain ⟨g, rfl⟩ := exists_word (C := C) hspot.length fun s hs => by
      have hle := hspot.range s hs
      have hpow := Nat.two_pow_pos m
      rw [h.max, h.period_eq] at hle
      omega
    obtain ⟨weighed, synd, synd', hrun, hsynd, hsynd', htake⟩ := hspot.syndromes
    obtain rfl := Except.ok.inj (hweighed.symm.trans hrun)
    obtain rfl := Except.ok.inj ((calcSyndromes_word h hpos _).symm.trans hsynd)
    obtain rfl := Except.ok.inj ((calcSyndromes_word h hpos _).symm.trans hsynd')
    refine ⟨g, fun i hi => (hget g (hlt i hi)).1 (hspot.zero i hi), fun i hi hnot hne hzero => ?_, ?_,
      (hfirst _ _).1 htake⟩
    · exact hspot.errors i (hwrong.2 ⟨hi, hnot, hne⟩) ((hget g hi).2 hzero)
    · rw [← countP_word]
      exact hspot.few
  · rintro ⟨g, hfound⟩
    refine ⟨(word rs.codeLength g).map sym, by rw [List.length_map, length_word], fun s hs => ?_,
      fun i hi => (hget g (hlt i hi)).2 (hfound.zero i hi), fun i hi => ?_, ?_,
      _, _, _, hweighed, calcSyndromes_word h hpos _, calcSyndromes_word h hpos _, (hfirst _ _).2 hfound.sums⟩
    · obtain ⟨x, -, rfl⟩ := List.mem_map.1 hs
      rw [h.max, h.period_eq]
      exact Nat.le_sub_one_of_lt (sym_lt h.bits_le x)
    · obtain ⟨hin, hnot, hne⟩ := hwrong.1 hi
      exact fun hzero => hfound.errors i hin hnot hne ((hget g hin).1 hzero)
    · rw [countP_word]
      exact hfound.few

theorem length_wrong {n : ℕ} {sent msg : SymVec} (hw : rs.zeroed msg = (word n w).map sym)
    (hsent : sent = (word n c).map sym) :
    (rs.wrong sent msg).length = ((differing n w c).filter (· ∉ rs.erased msg)).card := by
  have hnodup : (rs.wrong sent msg).Nodup := List.nodup_range.filter _
  rw [← List.toFinset_card_of_nodup hnodup]
  refine congrArg Finset.card (Finset.ext fun i => ?_)
  rw [List.mem_toFinset, mem_wrong hw hsent]

/-- A received word and a codeword, in the field. -/
theorem exists_words (h : Tabled C rs) (hpos : 0 < rs.codeLength) {sent msg : SymVec} (hc : rs.IsCodeword sent)
    (hlen : msg.length = rs.codeLength) : ∃ w c : ℕ → C.Element, rs.zeroed msg = (word rs.codeLength w).map sym ∧
      sent = (word rs.codeLength c).map sym ∧ ∀ j < rs.parityLength, syndrome rs rs.codeLength c j = 0 := by
  have hbits : ∀ {v : SymVec}, (∀ s ∈ v, s.toNat ≤ rs.maxSymbol) → ∀ s ∈ v, s.toNat < 2 ^ m := by
    intro v hv s hs
    have hle := hv s hs
    have hpow := Nat.two_pow_pos m
    rw [h.max, h.period_eq] at hle
    omega
  have hrange : ∀ s ∈ rs.zeroed msg, s.toNat ≤ rs.maxSymbol := zeroed_le msg
  obtain ⟨w, hw⟩ := exists_word (C := C) ((length_zeroed msg).trans hlen) (hbits hrange)
  obtain ⟨c, rfl⟩ := exists_word (C := C) hc.1 (hbits hc.2.1)
  exact ⟨w, c, hw, rfl, fun j hj => hc.syndrome_eq h hpos hj⟩

/-- **When a codeword with erased symbols and errors is restored**: the errors, weighed as the turned syndromes show
them, look like errors at few positions that are not erased. -/
theorem erasures_corrected_iff {p : RSParams} (hp : p.Admissible) (hfull : p.codeLength = 2 ^ p.bitsPerSymbol - 1)
    {rs : RSBase} (hrs : RSBase.new p = .ok rs) {sent msg : SymVec} (hc : rs.IsCodeword sent)
    (hlen : msg.length = p.codeLength)
    (hfew : 2 * (rs.wrong sent msg).length + (rs.erased msg).length ≤ p.parityLength) :
    (∃ errs, rs.correctOneWord msg = .ok (sent, errs)) ↔ ∃ other, Spotted rs sent msg other := by
  obtain ⟨rfl, h⟩ := tabled_of_new hp hrs
  have hpos : 0 < rs.codeLength := Nat.lt_of_le_of_lt (Nat.zero_le _) hp.parity_lt
  have hn : rs.codeLength = hp.cycle.period := hfull.trans h.period_eq.symm
  obtain ⟨w, c, hw, rfl, hcode⟩ := exists_words h hpos hc hlen
  rw [length_wrong hw rfl] at hfew
  rw [spotted_iff h hpos hn.le hw rfl]
  constructor
  · rintro ⟨errs, hrun⟩
    exact found_of_corrected h hp.root_coprime hn hw hcode (by omega) hrun
  · rintro ⟨g, hfound⟩
    exact corrected_of_found h hp.root_coprime hn hw hcode hfew hfound

/-- **Where the primitive root is the generator of the tables**, a codeword is restored from every such word. -/
theorem erasures_corrected_of_root {p : RSParams} (hp : p.Admissible)
    (hfull : p.codeLength = 2 ^ p.bitsPerSymbol - 1) (hroot : p.primitiveRootIdx.toNat % (2 ^ p.bitsPerSymbol - 1) = 1)
    {rs : RSBase} (hrs : RSBase.new p = .ok rs) {sent msg : SymVec} (hc : rs.IsCodeword sent)
    (hlen : msg.length = p.codeLength)
    (hfew : 2 * (rs.wrong sent msg).length + (rs.erased msg).length ≤ p.parityLength) :
    ∃ errs, rs.correctOneWord msg = .ok (sent, errs) := by
  obtain ⟨rfl, h⟩ := tabled_of_new hp hrs
  have hpos : 0 < rs.codeLength := Nat.lt_of_le_of_lt (Nat.zero_le _) hp.parity_lt
  have hn : rs.codeLength = hp.cycle.period := hfull.trans h.period_eq.symm
  obtain ⟨w, c, hw, rfl, hcode⟩ := exists_words h hpos hc hlen
  rw [length_wrong hw rfl] at hfew
  exact corrected_of_found h hp.root_coprime hn hw hcode hfew
    (found_of_root h hp.root_coprime (h.period_eq ▸ hroot) hn.le (fun k hk => hlen ▸ erased_lt hk) hfew)

set_option maxRecDepth 4000 in
/-- Two erased symbols in a word of three symbols, with the square of the generator as the primitive root. -/
theorem erasures_corrected_two : ∃ rs, RSBase.new ⟨7, 2, 3, 2, 2, 0, 1, false⟩ = .ok rs ∧
    ∃ errs, rs.correctOneWord [4, 4, 3] = .ok ([1, 2, 3], errs) := by
  have hp : RSParams.Admissible ⟨7, 2, 3, 2, 2, 0, 1, false⟩ :=
    ⟨by decide, by decide, primitive_two, ⟨1, rfl⟩, by decide, by decide, by decide, by decide⟩
  refine ⟨⟨⟨7, 2, 3, 2, 2, 0, 1, false⟩, [1, 2, 3, 1, 2, 3, 1, 2], [3, 0, 1, 2], loadTal, loadTalInv⟩, rfl, ?_⟩
  exact (erasures_corrected_iff hp rfl rfl ⟨rfl, by decide, rfl⟩ rfl (by decide)).2
    ⟨[0, 0, 0], rfl, by decide, by decide, by decide, by decide, _, _, _, rfl, rfl, rfl, rfl⟩

set_option maxRecDepth 4000 in
/-- One of them alone is not corrected. -/
theorem erasure_lost : ¬ ∀ p : RSParams, p.Admissible → p.bitsPerSymbol < 8 →
    p.codeLength = 2 ^ p.bitsPerSymbol - 1 → ∀ rs, RSBase.new p = .ok rs → ∀ sent msg : SymVec, rs.IsCodeword sent →
      msg.length = p.codeLength → 2 * (rs.wrong sent msg).length + (rs.erased msg).length ≤ p.parityLength →
      ∃ errs, rs.correctOneWord msg = .ok (sent, errs) := by
  intro hall
  have hp : RSParams.Admissible ⟨7, 2, 3, 2, 2, 0, 1, false⟩ :=
    ⟨by decide, by decide, primitive_two, ⟨1, rfl⟩, by decide, by decide, by decide, by decide⟩
  obtain ⟨errs, hrun⟩ := hall _ hp (by decide) rfl
    ⟨⟨7, 2, 3, 2, 2, 0, 1, false⟩, [1, 2, 3, 1, 2, 3, 1, 2], [3, 0, 1, 2], loadTal, loadTalInv⟩ rfl [1, 2, 3] [1, 4, 3]
    ⟨rfl, by decide, rfl⟩ rfl (by decide)
  have hout : ∃ msg errors, RSBase.correctOneWord ⟨⟨7, 2, 3, 2, 2, 0, 1, false⟩, [1, 2, 3, 1, 2, 3, 1, 2], [3, 0, 1, 2],
      loadTal, loadTalInv⟩ [1, 4, 3] = .error (.tooManyErrors msg errors) := ⟨_, _, rfl⟩
  obtain ⟨msg, errors, hthrown⟩ := hout
  rw [hthrown] at hrun
  cases hrun

end ChannelEmulator.ReedSolomon
