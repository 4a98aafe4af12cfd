import ChannelEmulator.Proof.MessageCoding

/-!
# How corrections end

* `recurs_iff`: **syndromes have a recurrence just if they are generated with its length.**
* `correctOneWord_outcome`: **how the correction of a word ends**, by what it is near to and by the recurrences of its
  syndromes.
* `correct_outcome`: the same for the rows of a unit.
-/

namespace ChannelEmulator.ReedSolomon

open Coding Coding.Cycle.Element Polynomial

/-! ## Recurrences of syndromes -/

/-- The sum of the products of two vectors, as far as both reach. -/
def RSBase.dot (rs : RSBase) : SymVec → SymVec → Except Fault Sym
  | a :: p, b :: q => do
    let m ← rs.gfMul a b
    let sum ← rs.dot p q
    return m ^^^ sum
  | _, _ => .ok 0

/-- The syndromes have a recurrence of a length: from there on, each is the sum of multiples of those before. -/
def RSBase.Recurs (rs : RSBase) (synd : SymVec) (L : ℕ) : Prop :=
  ∃ taps : SymVec, taps.length = L ∧ (∀ s ∈ taps, s.toNat ≤ rs.maxSymbol) ∧
    ∀ i s, L ≤ i → synd[i]? = some s → rs.dot taps (synd.take i).reverse = .ok s

variable {m : ℕ} {C : Cycle m} {rs : RSBase} {S : C.Element[X]}

theorem Tabled.dot_ok (h : Tabled C rs) (p q : List C.Element) :
    rs.dot (p.map sym) (q.map sym) = .ok (sym (List.zipWith (· * ·) p q).sum) := by
  induction p generalizing q with
  | nil => exact congrArg Except.ok sym_zero.symm
  | cons x p ih =>
    cases q with
    | nil => exact congrArg Except.ok sym_zero.symm
    | cons y q =>
      rw [List.map_cons, List.map_cons, RSBase.dot, h.gfMul_ok, Framing.ok_bind, ih, Framing.ok_bind,
        List.zipWith_cons_cons, List.sum_cons, sym_add]
      rfl

theorem sum_zipWith_word {L n : ℕ} (hL : L ≤ n) (x y : ℕ → C.Element) :
    (List.zipWith (· * ·) (word L x) (word n y)).sum = ∑ t ∈ Finset.range L, x t * y t := by
  have hzip : List.zipWith (· * ·) (word L x) (word n y) = word L fun t => x t * y t := by
    refine List.ext_getElem? fun i => ?_
    rw [List.getElem?_zipWith]
    by_cases hi : i < L
    · rw [word_getElem? hi, word_getElem? (by omega), word_getElem? hi]
    · have hnone : ∀ z : ℕ → C.Element, (word L z)[i]? = none := fun z =>
        List.getElem?_eq_none (by rw [length_word]; omega)
      rw [hnone, hnone]
  rw [hzip]
  rfl

theorem reverse_take_word {n i : ℕ} (hi : i ≤ n) (w : ℕ → C.Element) :
    ((word n w).take i).reverse = word i fun t => w (i - (1 + t)) := by
  refine List.ext_getElem? fun t => ?_
  have hlen : ((word n w).take i).length = i := by rw [List.length_take, length_word, Nat.min_eq_left hi]
  by_cases ht : t < i
  · rw [List.getElem?_reverse (by rwa [hlen]), hlen, List.getElem?_take_of_lt (by omega), word_getElem? (by omega),
      word_getElem? ht, Nat.sub_sub]
  · rw [List.getElem?_eq_none (by rw [List.length_reverse, hlen]; omega),
      List.getElem?_eq_none (by rw [length_word]; omega)]

/-- **Syndromes have a recurrence just if they are generated with its length.** -/
theorem recurs_iff (h : Tabled C rs) {n : ℕ} {w : ℕ → C.Element} (hS : ∀ k < n, S.coeff k = w k) (L : ℕ) :
    rs.Recurs ((word n w).map sym) L ↔ ∃ c, Generates S c L n := by
  have hdot : ∀ (x : ℕ → C.Element) (i : ℕ), L ≤ i → i < n →
      rs.dot ((word L x).map sym) (((word n w).map sym).take i).reverse =
        .ok (sym (∑ t ∈ Finset.range L, x t * S.coeff (i - (1 + t)))) := by
    intro x i hL hi
    rw [← List.map_take, ← List.map_reverse, reverse_take_word (Nat.le_of_lt hi), h.dot_ok, sum_zipWith_word hL]
    refine congrArg (fun s => Except.ok (sym s)) (Finset.sum_congr rfl fun t _ => ?_)
    rw [hS _ (by omega)]
  have hget : ∀ i < n, ((word n w).map sym)[i]? = some (sym (w i)) := by
    intro i hi
    rw [List.getElem?_map, word_getElem? hi]
    rfl
  rw [generates_iff_recurrence]
  constructor
  · rintro ⟨taps, hlen, hrange, hrec⟩
    have hbits : ∀ s ∈ taps, s.toNat < 2 ^ m := by
      intro s hs
      have hle := hrange s hs
      have hpow := Nat.two_pow_pos m
      rw [h.max, h.period_eq] at hle
      omega
    obtain ⟨x, rfl⟩ := exists_word (C := C) hlen hbits
    refine ⟨x, fun i hL hi => ?_⟩
    have heq := (hdot x i hL hi).symm.trans (hrec i _ hL (hget i hi))
    rw [hS i hi]
    exact ((sym_inj h.bits_le).1 (Except.ok.inj heq)).symm
  · rintro ⟨x, hrec⟩
    refine ⟨(word L x).map sym, by rw [List.length_map, length_word], fun s hs => ?_, fun i s hL hs => ?_⟩
    · obtain ⟨y, -, rfl⟩ := List.mem_map.1 hs
      rw [h.max, h.period_eq]
      exact Nat.le_sub_one_of_lt (sym_lt h.bits_le y)
    · have hi : i < n := by
        have hlt := (List.getElem?_eq_some_iff.1 hs).1
        rwa [List.length_map, length_word] at hlt
      rw [hdot x i hL hi, ← hrec i hL hi, hS i hi]
      exact congrArg Except.ok (Option.some.inj ((hget i hi).symm.trans hs))

/-! ## The outcome of a word -/

/-- A codeword is at most as many symbols away as can be corrected. -/
def RSBase.Near (rs : RSBase) (row : SymVec) : Prop :=
  ∃ word, rs.IsCodeword word ∧ changes row word ≤ rs.parityLength / 2

/-- The syndromes have no recurrence that is short enough for a correction. -/
def RSBase.Many (rs : RSBase) (row : SymVec) : Prop :=
  ∀ synd L, rs.calcSyndromes row = .ok synd → rs.Recurs synd L → rs.parityLength < 2 * L

/-- How `correctOneWord_` ends: with a word, with `TooManyErrors`, or with a `logic_error`. -/
inductive Outcome (rs : RSBase) (row : SymVec) : Except Fault (SymVec × ℕ) → Prop
  | corrected {word : SymVec} {errs : ℕ} (near : rs.Near row) (length : word.length = rs.codeLength) :
      Outcome rs row (.ok (word, errs))
  | tooMany {msg : String} {errors : ℕ} (far : ¬ rs.Near row) (many : rs.Many row) (counted : 0 < errors) :
      Outcome rs row (.error (.tooManyErrors msg errors))
  | escaped {msg : String} (far : ¬ rs.Near row) (few : ¬ rs.Many row) : Outcome rs row (.error (.logicError msg))

/-- The errors are too many just if the algorithm finds them too many. -/
theorem many_iff (h : Tabled C rs) (hpos : 0 < rs.codeLength) {w : ℕ → C.Element} {c b : C.Element[X]} {L : ℕ}
    (hmassey : Massey (ofCoeffs (word rs.parityLength (syndrome rs rs.codeLength w)).reverse) c b L rs.parityLength) :
    rs.Many ((word rs.codeLength w).map sym) ↔ rs.parityLength < L * 2 := by
  have hS : ∀ k < rs.parityLength, (ofCoeffs (word rs.parityLength (syndrome rs rs.codeLength w)).reverse).coeff k =
      syndrome rs rs.codeLength w k := by
    intro k hk
    rw [coeff_ofCoeffs, List.reverse_reverse, word_getElem? hk]
    rfl
  constructor
  · intro hmany
    have hlt := hmany _ L (calcSyndromes_word h hpos w) ((recurs_iff h hS L).2 ⟨c, hmassey.generates⟩)
    omega
  · intro hlt synd L' hsynd hrec
    obtain rfl := Except.ok.inj ((calcSyndromes_word h hpos w).symm.trans hsynd)
    obtain ⟨g, hg⟩ := (recurs_iff h hS L').1 hrec
    have hle := hmassey.least g L' hg
    omega

/-- **How the correction of a word ends**: a word near a codeword is corrected, and of the others some have too many
errors and some escape. -/
theorem correctOneWord_outcome (h : Tabled C rs) (hcop : Nat.Coprime rs.primitiveRootIdx.toNat C.period)
    (hn : rs.codeLength = C.period) (heven : Even rs.parityLength) {row : SymVec} (hlen : row.length = rs.codeLength)
    (hrange : ∀ s ∈ row, s.toNat < 2 ^ m) : Outcome rs row (rs.correctOneWord row) := by
  have hpos : 0 < rs.codeLength := hn ▸ C.period_pos
  have hbits : ∀ {v : SymVec}, (∀ s ∈ v, s.toNat ≤ rs.maxSymbol) → ∀ s ∈ v, s.toNat < 2 ^ m := by
    intro v hv s hs
    have hle := hv s hs
    have hpow := Nat.two_pow_pos m
    rw [h.max, h.period_eq] at hle
    omega
  obtain ⟨w, rfl⟩ := exists_word (C := C) hlen hrange
  -- near words are corrected
  have hnear : rs.Near ((word rs.codeLength w).map sym) →
      ∃ out errs, out.length = rs.codeLength ∧ rs.correctOneWord ((word rs.codeLength w).map sym) = .ok (out, errs) := by
    rintro ⟨v, hcode, hfew⟩
    obtain ⟨c, rfl⟩ := exists_word (C := C) hcode.1 (hbits hcode.2.1)
    have hsurplus : surplus C rs rs.codeLength = 1 :=
      (surplus_eq_one_iff hcop _).2 (hn ▸ Nat.dvd_mul_left _ _)
    rw [changes_word] at hfew
    refine ⟨_, _, hcode.1, correctOneWord_restores h hcop hpos hn.le hsurplus
      (fun j hj => hcode.syndrome_eq h hpos hj) ?_⟩
    obtain ⟨k, hk⟩ := heven
    omega
  obtain ⟨c, b, L, hmassey, hcases⟩ := correctOneWord_cases h hcop hn w
  have hmany := many_iff h hpos hmassey
  by_cases hclose : rs.Near ((word rs.codeLength w).map sym)
  · obtain ⟨out, errs, hout, hrun⟩ := hnear hclose
    rw [hrun]
    exact .corrected hclose hout
  · rcases hcases with ⟨hlong, msg, hrun⟩ | ⟨hshort, ⟨msg, hrun⟩ | ⟨out, errs, hrun, hrepaired⟩⟩
    · rw [hrun]
      exact .tooMany hclose (hmany.2 hlong) (by omega)
    · rw [hrun]
      exact .escaped hclose (mt hmany.1 hshort)
    · exact absurd ⟨out, hrepaired.codeword, hrepaired.few⟩ hclose

/-! ## The rows of a unit -/

/-- The loop over rows none of which escapes. -/
theorem correctRows_returns {rows : List SymVec} (hrows : ∀ row ∈ rows, Outcome rs row (rs.correctOneWord row))
    (hin : ∀ row ∈ rows, rs.Near row ∨ rs.Many row) (s : RSBase.Progress) :
    ∃ s', rs.correctRows rows s = .ok s' ∧ s.uncorrectedErrCount ≤ s'.uncorrectedErrCount ∧
      ((∃ row ∈ rows, ¬ rs.Near row) → s.uncorrectedErrCount < s'.uncorrectedErrCount) ∧
      ((∀ row ∈ rows, rs.Near row) → s'.uncorrectedErrCount = s.uncorrectedErrCount ∧
        ∃ words, s'.corrected = s.corrected ++ words ∧ words.length = rows.length ∧
          ∀ word ∈ words, word.length = rs.codeLength) := by
  induction rows generalizing s with
  | nil =>
    refine ⟨s, rfl, Nat.le_refl _, ?_, fun _ => ⟨rfl, [], (List.append_nil _).symm, rfl, ?_⟩⟩
    · rintro ⟨row, hrow, -⟩
      cases hrow
    · intro word hword
      cases hword
  | cons row rows ih =>
    have houtcome := hrows row List.mem_cons_self
    have hrest := ih (fun r hr => hrows r (List.mem_cons_of_mem row hr))
      fun r hr => hin r (List.mem_cons_of_mem row hr)
    rw [RSBase.correctRows]
    cases hres : rs.correctOneWord row with
    | ok p =>
      obtain ⟨word, errs⟩ := p
      rw [hres] at houtcome
      obtain ⟨hnear, hlength⟩ : rs.Near row ∧ word.length = rs.codeLength := by
        cases houtcome with
        | corrected near length => exact ⟨near, length⟩
      obtain ⟨s', hrun, hle, hmany, hall⟩ := hrest { s with
        corrected := s.corrected ++ [word], lastCorrectedErrors := s.lastCorrectedErrors + errs }
      refine ⟨s', hrun, hle, ?_, fun hnears => ?_⟩
      · rintro ⟨r, hr, hfar⟩
        rcases List.mem_cons.1 hr with rfl | hr
        · exact absurd hnear hfar
        · exact hmany ⟨r, hr, hfar⟩
      · obtain ⟨hcount, words, hcorrected, hlen, hwords⟩ := hall fun r hr => hnears r (List.mem_cons_of_mem row hr)
        refine ⟨hcount, word :: words, by rw [hcorrected, List.append_assoc, List.singleton_append], ?_, ?_⟩
        · rw [List.length_cons, List.length_cons, hlen]
        · intro v hv
          rcases List.mem_cons.1 hv with rfl | hv
          · exact hlength
          · exact hwords v hv
    | error e =>
      rw [hres] at houtcome
      cases houtcome with
      | tooMany far many counted =>
        rename_i msg errors
        obtain ⟨s', hrun, hle, -, -⟩ := hrest { s with
          errMsg := s.errMsg ++ (msg ++ " "), uncorrectedErrCount := s.uncorrectedErrCount + errors }
        have hlt : s.uncorrectedErrCount < s'.uncorrectedErrCount :=
          Nat.lt_of_lt_of_le (Nat.lt_add_of_pos_right counted) hle
        refine ⟨s', hrun, Nat.le_of_lt hlt, fun _ => hlt, fun hnears => ?_⟩
        exact absurd (hnears row List.mem_cons_self) far
      | escaped far few => exact absurd (hin row List.mem_cons_self) (not_or.2 ⟨far, few⟩)

/-- The loop over rows one of which escapes. -/
theorem correctRows_escapes {rows : List SymVec} (hrows : ∀ row ∈ rows, Outcome rs row (rs.correctOneWord row))
    (hout : ¬ ∀ row ∈ rows, rs.Near row ∨ rs.Many row) (s : RSBase.Progress) :
    ∃ msg, rs.correctRows rows s = .error (.logicError msg) := by
  induction rows generalizing s with
  | nil => exact absurd (fun row hrow => by cases hrow) hout
  | cons row rows ih =>
    have houtcome := hrows row List.mem_cons_self
    have hrest := ih fun r hr => hrows r (List.mem_cons_of_mem row hr)
    have htail : rs.Near row ∨ rs.Many row → ¬ ∀ r ∈ rows, rs.Near r ∨ rs.Many r := by
      intro hrow hall
      refine hout fun r hr => ?_
      rcases List.mem_cons.1 hr with rfl | hr
      · exact hrow
      · exact hall r hr
    rw [RSBase.correctRows]
    cases hres : rs.correctOneWord row with
    | ok p =>
      obtain ⟨word, errs⟩ := p
      rw [hres] at houtcome
      cases houtcome with
      | corrected near length => exact hrest (htail (Or.inl near)) _
    | error e =>
      rw [hres] at houtcome
      cases houtcome with
      | tooMany far many counted => exact hrest (htail (Or.inr many)) _
      | escaped far few => exact ⟨_, rfl⟩

/-- Rows that all have a length, as a grid. -/
theorem exists_grid {words : List SymVec} {I n : ℕ} (hI : words.length = I) (hn : ∀ word ∈ words, word.length = n) :
    ∃ f, words = grid I n f := by
  refine ⟨fun r o => (((words[r]?).getD [])[o]?).getD 0, List.ext_getElem? fun r => ?_⟩
  unfold grid
  rw [List.getElem?_map]
  by_cases hr : r < I
  · have hword : words[r]? = some words[r] := List.getElem?_eq_getElem (by omega)
    have hlen := hn words[r] (List.getElem_mem _)
    rw [List.getElem?_range hr, Option.map_some, hword]
    refine congrArg some (List.ext_getElem? fun o => ?_)
    unfold line
    rw [List.getElem?_map]
    simp only [hword, Option.getD_some]
    by_cases ho : o < n
    · have hsym : words[r][o]? = some words[r][o] := List.getElem?_eq_getElem (by omega)
      rw [List.getElem?_range ho, Option.map_some, hsym, Option.getD_some]
    · rw [List.getElem?_eq_none (by omega), List.getElem?_eq_none (by rw [List.length_range]; omega), Option.map_none]
  · rw [List.getElem?_eq_none (by omega), List.getElem?_eq_none (by rw [List.length_range]; omega), Option.map_none]

/-- The rows of a unit, as `correct` makes them. -/
def RSBase.rowsOf (rs : RSBase) (unit : SymVec) : Except Fault (List SymVec) := do
  let data ← if rs.doBasisTransform then rs.ccsdsDualBasisToConventional unit else .ok unit
  rs.ccsdsInterleave data true

theorem rowsOf_eq (unit : SymVec) : rs.rowsOf unit =
    ((if rs.doBasisTransform then rs.ccsdsDualBasisToConventional unit else .ok unit) >>= fun data =>
      rs.ccsdsInterleave data true) := by
  unfold RSBase.rowsOf
  cases rs.doBasisTransform with
  | false => rfl
  | true => rfl

/-- **How the correction of a unit ends.** -/
theorem correct_outcome (h : Tabled C rs) (hcop : Nat.Coprime rs.primitiveRootIdx.toNat C.period)
    (hn : rs.codeLength = C.period) (heven : Even rs.parityLength) (hparity : rs.parityLength < rs.codeLength)
    (hI : 0 < rs.interleaveDepth) {f g : Sym → Sym} (hfg : Bases rs m f g) {unit : SymVec}
    (hrange : ∀ s ∈ unit, s.toNat < 2 ^ m) (hlen : unit.length ≤ rs.codeLength * rs.interleaveDepth) :
    ∃ rows, rs.rowsOf unit = .ok rows ∧
      ((¬ ∀ row ∈ rows, rs.Near row ∨ rs.Many row) → ∃ msg, rs.correct unit = .error (.logicError msg)) ∧
      ((∀ row ∈ rows, rs.Near row ∨ rs.Many row) →
        ((∃ row ∈ rows, ¬ rs.Near row) → ∃ msg errors, rs.correct unit = .error (.tooManyErrors msg errors)) ∧
        ((∀ row ∈ rows, rs.Near row) → ∃ out errs, rs.correct unit = .ok (out, errs) ∧
          out.length = (rs.codeLength - rs.parityLength) * rs.interleaveDepth)) := by
  obtain ⟨a, hrows, ha⟩ := @ccsdsInterleave_ok rs (rs.codeLength - 1) hI (unit.map f) true rfl (by omega) (by
    rwa [List.length_map, show rs.codeLength - 1 + 1 = rs.codeLength by omega])
  have hrowsOf : rs.rowsOf unit = .ok (grid rs.interleaveDepth rs.codeLength a) := by
    rw [rowsOf_eq, hfg.before, Framing.ok_bind, hrows]
  have hsymbols : ∀ r < rs.interleaveDepth, ∀ o < rs.codeLength, (a r o).toNat < 2 ^ m := by
    intro r hr o ho
    rw [ha r hr o ho, if_pos (Nat.le_sub_one_of_lt ho)]
    refine symbolAt_lt (Nat.two_pow_pos m) (fun s hs => ?_) _
    obtain ⟨t, ht, rfl⟩ := List.mem_map.1 hs
    exact hfg.range t (hrange t ht)
  have houtcomes : ∀ row ∈ grid rs.interleaveDepth rs.codeLength a, Outcome rs row (rs.correctOneWord row) := by
    intro row hrow
    obtain ⟨r, hr, rfl⟩ := List.mem_map.1 hrow
    refine correctOneWord_outcome h hcop hn heven ?_ fun s hs => ?_
    · unfold line
      rw [List.length_map, List.length_range]
    · obtain ⟨o, ho, rfl⟩ := List.mem_map.1 hs
      exact hsymbols r (List.mem_range.1 hr) o (List.mem_range.1 ho)
  have hcorrect : rs.correct unit = (rs.correctRows (grid rs.interleaveDepth rs.codeLength a) {} >>= fun s =>
      if 0 < s.uncorrectedErrCount then .error (.tooManyErrors s.errMsg s.uncorrectedErrCount)
      else rs.ccsdsDeinterleave s.corrected >>= fun v =>
        (if rs.doBasisTransform then rs.ccsdsConventionalToDualBasis v else .ok v) >>= fun out =>
        .ok (out, s.lastCorrectedErrors)) := by
    rw [correct_eq, hfg.before, Framing.ok_bind, hrows, Framing.ok_bind]
  refine ⟨_, hrowsOf, fun hescape => ?_, fun hin => ?_⟩
  · obtain ⟨msg, hrun⟩ := correctRows_escapes houtcomes hescape {}
    exact ⟨msg, by rw [hcorrect, hrun]; rfl⟩
  · obtain ⟨s, hrun, -, hmany, hall⟩ := correctRows_returns houtcomes hin {}
    rw [hcorrect, hrun, Framing.ok_bind]
    refine ⟨fun hfar => ?_, fun hnear => ?_⟩
    · rw [if_pos (hmany hfar)]
      exact ⟨_, _, rfl⟩
    · obtain ⟨hcount, words, hcorrected, hlength, hwords⟩ := hall hnear
      have hgrid : (grid rs.interleaveDepth rs.codeLength a).length = rs.interleaveDepth := by
        unfold grid
        rw [List.length_map, List.length_range]
      obtain ⟨b, hb⟩ := exists_grid (hlength.trans hgrid) hwords
      have hcorrected' : s.corrected = grid rs.interleaveDepth rs.codeLength b := hcorrected.trans hb
      rw [hcount, if_neg (Nat.lt_irrefl 0), hcorrected', ccsdsDeinterleave_ok hI hparity, Framing.ok_bind, hfg.behind,
        Framing.ok_bind]
      refine ⟨_, _, rfl, ?_⟩
      rw [List.length_map, List.length_reverse, List.length_map, List.length_range]

end ChannelEmulator.ReedSolomon
