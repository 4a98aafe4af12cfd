import ChannelEmulator.Framing.Run
import ChannelEmulator.Proof.ErrorLocation

/-!
# The correction of words

What `correctOneWord_` and `correct` return for any symbols in range, few errors or many.

* `correctOneWord_cases`: what a word comes to, with the length that the algorithm finds.
* `correctOneWord_handled`: **a word is thrown back, or comes out as a codeword** with the number of its
  symbols that were changed.
* `correction_sound`: the same for messages in rows.
-/

namespace ChannelEmulator.ReedSolomon

open Coding Coding.Cycle.Element Polynomial

variable {m : ℕ} {C : Cycle m} {rs : RSBase}

/-- The number of symbols in which two words differ. -/
def changes (v w : SymVec) : ℕ := (v.zip w).countP fun s => s.1 ≠ s.2

theorem changes_self (v : SymVec) : changes v v = 0 := by
  unfold changes
  refine List.countP_eq_zero.2 fun s hs => ?_
  have heq : s.1 = s.2 := by
    obtain ⟨i, hi⟩ := List.mem_iff_getElem?.1 hs
    obtain ⟨hl, hr⟩ := List.getElem?_zip_eq_some.1 hi
    exact Option.some.inj (hl.symm.trans hr)
  simp [heq]

/-- What a word that is corrected comes out as. -/
structure Repaired (rs : RSBase) (msg out : SymVec) (errs : ℕ) : Prop where
  codeword : rs.IsCodeword out
  few : changes msg out ≤ rs.parityLength / 2
  count : errs = changes msg out

/-- A word is thrown back; a count of too many errors is not zero. -/
structure ThrownBack (e : Fault) : Prop where
  thrown : e.isThrown
  counted : ∀ msg errors, e = .tooManyErrors msg errors → 0 < errors

/-- What a correction returns: it throws the word back or repairs it. -/
def Handled (rs : RSBase) (msg : SymVec) (result : Except Fault (SymVec × ℕ)) : Prop :=
  (∃ e, result = .error e ∧ ThrownBack e) ∨
    ∃ out errs, result = .ok (out, errs) ∧ Repaired rs msg out errs

/-- The symbols in which words of the field differ. -/
def differing (n : ℕ) (w w' : ℕ → C.Element) : Finset ℕ :=
  (Finset.range n).filter fun i => sym (w i) ≠ sym (w' i)

theorem changes_word (n : ℕ) (w w' : ℕ → C.Element) :
    changes ((word n w).map sym) ((word n w').map sym) = (differing n w w').card := by
  have hzip : ((word n w).map sym).zip ((word n w').map sym) =
      (List.range n).map fun i => (sym (w i), sym (w' i)) := by
    unfold word
    rw [List.map_map, List.map_map, List.zip_map']
    rfl
  unfold changes differing
  rw [hzip, List.countP_map, List.countP_eq_length_filter]
  rfl

theorem erasuresFrom_inRange {msg : SymVec} (h : ∀ s ∈ msg, s.toNat ≤ rs.maxSymbol) (i : ℕ) :
    rs.erasuresFrom i msg = (msg, []) := by
  induction msg generalizing i with
  | nil => rfl
  | cons s msg ih =>
    unfold RSBase.erasuresFrom
    rw [ih (fun s hs => h s (List.mem_cons_of_mem _ hs)) (i + 1)]
    show (if _ then _ else _) = _
    rw [if_neg (Nat.not_lt.2 (h s (List.mem_cons_self ..)))]

/-- A word whose syndromes are zero. -/
theorem isCodeword_word (h : Tabled C rs) (hn : 0 < rs.codeLength) {c : ℕ → C.Element}
    (hc : ∀ j < rs.parityLength, syndrome rs rs.codeLength c j = 0) :
    rs.IsCodeword ((word rs.codeLength c).map sym) := by
  refine ⟨by rw [List.length_map, length_word], fun s hs => ?_, ?_⟩
  · obtain ⟨x, -, rfl⟩ := List.mem_map.1 hs
    rw [h.max, h.period_eq]
    exact Nat.le_sub_one_of_lt (sym_lt h.bits_le x)
  · have hzero : word rs.parityLength (syndrome rs rs.codeLength c) = List.replicate rs.parityLength 0 := by
      refine List.eq_replicate_iff.2 ⟨length_word .., fun x hx => ?_⟩
      obtain ⟨j, hj, rfl⟩ := List.mem_map.1 hx
      exact hc j (List.mem_range.1 hj)
    rw [calcSyndromes_word h hn, hzero, List.map_replicate, sym_zero]

theorem eq_of_not_differing (hm : m ≤ 8) {n : ℕ} {w w' : ℕ → C.Element} {i : ℕ} (hi : i < n)
    (hnot : i ∉ differing n w w') : w i = w' i := by
  by_contra hne
  exact hnot (Finset.mem_filter.2 ⟨Finset.mem_range.2 hi, mt (sym_inj hm).1 hne⟩)

/-- The syndromes of a word are power sums of what it differs in from a codeword. -/
theorem syndromes_differing (hm : m ≤ 8) {n : ℕ} {w w' : ℕ → C.Element}
    (hcode : ∀ j < rs.parityLength, syndrome rs n w' j = 0) :
    ofCoeffs (word rs.parityLength (syndrome rs n w)).reverse =
      powerSums (differing n w w') (point rs C n) (fun i => w i + w' i)
        rs.firstConsecutiveRoot.toNat rs.parityLength := by
  have hagree : ∀ i < n, i ∉ differing n w w' → w i = w' i := fun i hi => eq_of_not_differing hm hi
  rw [ofCoeffs_reverse_word]
  refine Finset.sum_congr rfl fun j hj => ?_
  rw [syndrome_errors (Finset.filter_subset _ _) hagree (hcode j (Finset.mem_range.1 hj))]
  rfl

/-- **The number of errors found is the number of symbols that a codeword is away**: the syndromes are
not generated with less. -/
theorem length_eq_card {c b : C.Element[X]} {n L : ℕ} {w w' : ℕ → C.Element} (hm : m ≤ 8)
    (hmassey : Massey (ofCoeffs (word rs.parityLength (syndrome rs n w)).reverse) c b L rs.parityLength)
    {s : Finset ℕ} (hs : s.card = L) (hkeep : ∀ i < n, i ∉ s → w' i = w i)
    (hcode : ∀ j < rs.parityLength, syndrome rs n w' j = 0) : L = (differing n w w').card := by
  refine Nat.le_antisymm ?_ ?_
  · rw [syndromes_differing hm hcode] at hmassey
    exact hmassey.least _ _ (generates_locator ..)
  · rw [← hs]
    refine Finset.card_le_card fun i hi => ?_
    obtain ⟨hrange, hne⟩ := Finset.mem_filter.1 hi
    by_contra hnot
    exact hne (congrArg sym (hkeep i (Finset.mem_range.1 hrange) hnot).symm)

/-- The sum that `correctOneWord_` tests is zero just if all syndromes are. -/
theorem syndromes_sum_eq_zero (h : Tabled C rs) {w : ℕ → C.Element} (n : ℕ) :
    (((word rs.parityLength (syndrome rs n w)).map sym).map UInt8.toNat).sum = 0 ↔
      ∀ j < rs.parityLength, syndrome rs n w j = 0 := by
  rw [List.sum_eq_zero_iff]
  constructor
  · intro hsum j hj
    have hmem : sym (syndrome rs n w j) ∈ (word rs.parityLength (syndrome rs n w)).map sym :=
      List.mem_map_of_mem (List.mem_map_of_mem (List.mem_range.2 hj))
    exact (sym_eq_zero h.bits_le).1 (UInt8.toNat_inj.1 (hsum _ (List.mem_map_of_mem hmem)))
  · intro hzero k hk
    obtain ⟨s, hs, rfl⟩ := List.mem_map.1 hk
    obtain ⟨x, hx, rfl⟩ := List.mem_map.1 hs
    obtain ⟨j, hj, rfl⟩ := List.mem_map.1 hx
    rw [hzero j (List.mem_range.1 hj), sym_zero]
    rfl

/-- The check behind the correction finds nothing just if all syndromes are zero. -/
theorem syndromes_any_eq_false (h : Tabled C rs) {w : ℕ → C.Element} (n : ℕ) :
    ((word rs.parityLength (syndrome rs n w)).map sym).any (0 < ·) = false ↔
      ∀ j < rs.parityLength, syndrome rs n w j = 0 := by
  rw [← syndromes_sum_eq_zero h n, List.sum_eq_zero_iff, List.any_eq_false]
  constructor
  · intro hany k hk
    obtain ⟨s, hs, rfl⟩ := List.mem_map.1 hk
    by_contra hne
    refine hany s hs (decide_eq_true (UInt8.pos_iff_ne_zero.2 fun hzero => hne ?_))
    rw [hzero]
    rfl
  · intro hsum s hs hpos
    have hzero : s = 0 := UInt8.toNat_inj.1 (hsum _ (List.mem_map_of_mem hs))
    rw [hzero] at hpos
    exact absurd hpos (by decide)

/-- `correctOneWord_` without erasures. -/
theorem correctOneWord_word (h : Tabled C rs) (hpos : 0 < rs.codeLength) (w : ℕ → C.Element) :
    rs.correctOneWord ((word rs.codeLength w).map sym) =
      if (((word rs.parityLength (syndrome rs rs.codeLength w)).map sym).map UInt8.toNat).sum = 0 then
        .ok ((word rs.codeLength w).map sym, 0)
      else
        rs.findErrors ((word rs.parityLength (syndrome rs rs.codeLength w)).map sym) rs.codeLength >>=
          fun errPos => rs.correctErrata ((word rs.codeLength w).map sym)
            ((word rs.parityLength (syndrome rs rs.codeLength w)).map sym) errPos >>=
          fun msgOut => rs.calcSyndromes msgOut >>=
          fun synd => if synd.any (0 < ·) then
              .error (.logicError "Non-zero syndromes after error correction.")
            else .ok (msgOut, errPos.length) := by
  have hrange : ∀ s ∈ (word rs.codeLength w).map sym, s.toNat ≤ rs.maxSymbol := by
    intro s hs
    obtain ⟨x, -, rfl⟩ := List.mem_map.1 hs
    rw [h.max, h.period_eq]
    exact Nat.le_sub_one_of_lt (sym_lt h.bits_le x)
  have hlen : ((word rs.codeLength w).map sym).length = rs.codeLength := by
    rw [List.length_map, length_word]
  unfold RSBase.correctOneWord
  rw [if_neg (not_not.2 hlen), erasuresFrom_inRange hrange]
  show (if rs.parityLength < 0 then _ else _) = _
  rw [if_neg (Nat.not_lt_zero _), calcSyndromes_word h hpos, hlen]
  rfl

/-- **What `correctOneWord_` returns**, with the length that the algorithm finds. -/
theorem correctOneWord_cases (h : Tabled C rs) (hcop : Nat.Coprime rs.primitiveRootIdx.toNat C.period)
    (hn : rs.codeLength = C.period) (w : ℕ → C.Element) :
    ∃ (c b : C.Element[X]) (L : ℕ),
      Massey (ofCoeffs (word rs.parityLength (syndrome rs rs.codeLength w)).reverse) c b L rs.parityLength ∧
      ((rs.parityLength < L * 2 ∧ ∃ msg, rs.correctOneWord ((word rs.codeLength w).map sym) =
          .error (.tooManyErrors msg L)) ∨
        (¬ rs.parityLength < L * 2 ∧ ((∃ msg, rs.correctOneWord ((word rs.codeLength w).map sym) =
          .error (.logicError msg)) ∨ ∃ out errs, rs.correctOneWord ((word rs.codeLength w).map sym) =
          .ok (out, errs) ∧ Repaired rs ((word rs.codeLength w).map sym) out errs))) := by
  have hpos : 0 < rs.codeLength := hn ▸ C.period_pos
  obtain ⟨c, b, L, pos, hmassey, hzeros, hfind⟩ :=
    h.findErrors_ok hn.le rs.parityLength (syndrome rs rs.codeLength w)
  refine ⟨c, b, L, hmassey, ?_⟩
  rw [correctOneWord_word h hpos]
  by_cases hsum : (((word rs.parityLength (syndrome rs rs.codeLength w)).map sym).map UInt8.toNat).sum = 0
  · -- the word is a codeword, and the constant generates its syndromes
    have hcode := (syndromes_sum_eq_zero h rs.codeLength).1 hsum
    have hzero : ofCoeffs (word rs.parityLength (syndrome rs rs.codeLength w)).reverse = 0 := by
      rw [ofCoeffs_reverse_word]
      refine Finset.sum_eq_zero fun j hj => ?_
      rw [hcode j (Finset.mem_range.1 hj), C_0, zero_mul]
    have hle : L ≤ 0 := hmassey.least 1 0 ⟨coeff_one_zero, natDegree_one.le, fun k _ _ => by
      rw [hzero, mul_zero, coeff_zero]⟩
    refine Or.inr ⟨by omega, Or.inr ⟨_, 0, if_pos hsum, isCodeword_word h hpos hcode, ?_, ?_⟩⟩
    · rw [changes_self]
      exact Nat.zero_le _
    · rw [changes_self]
  rw [if_neg hsum, hfind]
  by_cases hmany : rs.parityLength < L * 2
  · rw [if_pos hmany]
    exact Or.inl ⟨hmany, _, rfl⟩
  rw [if_neg hmany]
  refine Or.inr ⟨hmany, ?_⟩
  by_cases hcount : pos.length = L
  swap
  · rw [if_pos hcount]
    exact Or.inl ⟨_, rfl⟩
  rw [if_neg (not_not.2 hcount)]
  obtain ⟨e, -, hcorrect⟩ := correctErrata_ok h hcop hn.le hzeros.nodup hzeros.lt
    (k := rs.parityLength) (by omega) w (syndrome rs rs.codeLength w)
  rw [Framing.ok_bind, hcorrect, Framing.ok_bind, calcSyndromes_word h hpos, Framing.ok_bind]
  by_cases hany : ((word rs.parityLength (syndrome rs rs.codeLength fun i => if i ∈ places pos then
      w i + magnitude rs C rs.codeLength (places pos) e i else w i)).map sym).any (0 < ·) = true
  · rw [if_pos hany]
    exact Or.inl ⟨_, rfl⟩
  rw [if_neg hany]
  -- the syndromes are zero, and what was changed is at the places found
  have hcode := (syndromes_any_eq_false h rs.codeLength).1 (Bool.eq_false_iff.2 hany)
  have hcard : (places pos).card = L := (card_places hzeros.nodup).trans hcount
  have heq := length_eq_card h.bits_le hmassey hcard (fun i _ hi => if_neg hi) hcode
  rw [← changes_word] at heq
  refine Or.inr ⟨_, _, rfl, isCodeword_word h hpos hcode, ?_, hcount.trans heq⟩
  omega

/-- **A word of symbols in range is thrown back or repaired.** -/
theorem correctOneWord_handled (h : Tabled C rs) (hcop : Nat.Coprime rs.primitiveRootIdx.toNat C.period)
    (hn : rs.codeLength = C.period) {msg : SymVec} (hrange : ∀ s ∈ msg, s.toNat ≤ rs.maxSymbol) :
    Handled rs msg (rs.correctOneWord msg) := by
  have hmsg : ∀ text, ThrownBack (.logicError text) := fun _ => ⟨rfl, fun _ _ h => nomatch h⟩
  by_cases hlen : msg.length = rs.codeLength
  swap
  · unfold RSBase.correctOneWord
    rw [if_pos hlen]
    exact .inl ⟨_, rfl, hmsg _⟩
  obtain ⟨w, rfl⟩ := exists_word (C := C) hlen fun s hs => by
    have hle := hrange s hs
    have hlt := C.period_pos
    rw [h.max, h.period_eq] at hle
    rw [h.period_eq] at hlt
    omega
  obtain ⟨c, b, L, -, ⟨hlong, text, hrun⟩ | ⟨-, ⟨text, hrun⟩ | ⟨out, errs, hrun, hrepaired⟩⟩⟩ :=
    correctOneWord_cases h hcop hn w
  · rw [hrun]
    refine .inl ⟨_, rfl, rfl, fun msg errors heq => ?_⟩
    obtain ⟨-, rfl⟩ := Fault.tooManyErrors.inj heq
    omega
  · rw [hrun]
    exact .inl ⟨_, rfl, hmsg _⟩
  · rw [hrun]
    exact .inr ⟨out, errs, rfl, hrepaired⟩

/-! ## Messages in rows -/

theorem setAt_inv {v w : SymVec} {i : ℕ} {s : Sym} (h : setAt v i s = .ok w) : w = v.set i s := by
  unfold setAt at h
  split at h
  · exact (Except.ok.inj h).symm
  · cases h

theorem rowAt_mem {rows : List SymVec} {row : ℕ} {line : SymVec}
    (h : RSBase.rowAt rows row = .ok line) : line ∈ rows := by
  unfold RSBase.rowAt at h
  cases hget : rows[row]? with
  | none =>
    rw [hget] at h
    cases h
  | some l =>
    rw [hget] at h
    exact Except.ok.inj h ▸ List.mem_of_getElem? hget

/-- Interleaving makes no symbols of its own but zeros. -/
theorem interleaveFrom_mem {P : Sym → Prop} {msg : SymVec} (hmsg : ∀ s ∈ msg, P s) {row offset : ℕ}
    {rows rows' : List SymVec} (hrows : ∀ line ∈ rows, ∀ s ∈ line, P s)
    (hrun : rs.interleaveFrom msg row offset rows = .ok rows') :
    ∀ line ∈ rows', ∀ s ∈ line, P s := by
  induction msg generalizing row offset rows with
  | nil => exact Except.ok.inj hrun ▸ hrows
  | cons a msg ih =>
    unfold RSBase.interleaveFrom at hrun
    obtain ⟨line, hline, hrun₁⟩ := Framing.bind_ok hrun
    obtain ⟨line', hset, hrun₂⟩ := Framing.bind_ok hrun₁
    obtain rfl := setAt_inv hset
    have hrows' : ∀ l ∈ rows.set row (line.set offset a), ∀ s ∈ l, P s := by
      intro l hl s hs
      rcases List.mem_or_eq_of_mem_set hl with hl | rfl
      · exact hrows l hl s hs
      · rcases List.mem_or_eq_of_mem_set hs with hs | rfl
        · exact hrows line (rowAt_mem hline) s hs
        · exact hmsg _ (List.mem_cons_self ..)
    have hmsg' : ∀ s ∈ msg, P s := fun s hs => hmsg s (List.mem_cons_of_mem _ hs)
    split at hrun₂
    · exact ih hmsg' hrows' hrun₂
    · exact ih hmsg' hrows' hrun₂

/-- Words that are repaired, each with the number of its changes. -/
def RowsRepaired (rs : RSBase) : List SymVec → List SymVec → Prop :=
  List.Forall₂ fun row word => rs.correctOneWord row = .ok (word, changes row word) ∧
    Repaired rs row word (changes row word)

/-- **The loop over the rows**: without errors that were counted, all rows are repaired. -/
theorem correctRows_ok {rows : List SymVec}
    (hhandled : ∀ row ∈ rows, Handled rs row (rs.correctOneWord row)) {s s' : RSBase.Progress}
    (hrun : rs.correctRows rows s = .ok s') (hcount : s'.uncorrectedErrCount = 0) :
    s.uncorrectedErrCount = 0 ∧ ∃ words, s'.corrected = s.corrected ++ words ∧
      RowsRepaired rs rows words ∧
      s'.lastCorrectedErrors = s.lastCorrectedErrors + (List.zipWith changes rows words).sum := by
  induction rows generalizing s with
  | nil =>
    obtain rfl := Except.ok.inj hrun
    exact ⟨hcount, [], (List.append_nil _).symm, .nil, rfl⟩
  | cons row rows ih =>
    have hrest := fun r hr => hhandled r (List.mem_cons_of_mem _ hr)
    unfold RSBase.correctRows at hrun
    rcases hhandled row (List.mem_cons_self ..) with ⟨e, he, hback⟩ | ⟨word, errs, hword, hrepaired⟩
    · rw [he] at hrun
      cases e with
      | tooManyErrors msg errors =>
        -- the count does not come back to zero
        obtain ⟨hzero, -⟩ := ih hrest hrun
        have hpos := hback.counted msg errors rfl
        have hsum : s.uncorrectedErrCount + errors = 0 := hzero
        omega
      | _ => cases hrun
    · rw [hword] at hrun
      obtain ⟨hzero, words, hcorrected, hrows, hlast⟩ := ih hrest hrun
      obtain rfl := hrepaired.count
      refine ⟨hzero, word :: words, ?_, .cons ⟨hword, hrepaired⟩ hrows, ?_⟩
      · rw [hcorrected, List.append_assoc]
        rfl
      · rw [hlast, List.zipWith_cons_cons, List.sum_cons, Nat.add_assoc]

/-- `correct` as a chain. -/
theorem correct_eq (msg : SymVec) : rs.correct msg =
    ((if rs.doBasisTransform then rs.ccsdsDualBasisToConventional msg else .ok msg) >>= fun data =>
      rs.ccsdsInterleave data true >>= fun rows => rs.correctRows rows {} >>= fun s =>
      if 0 < s.uncorrectedErrCount then .error (.tooManyErrors s.errMsg s.uncorrectedErrCount)
      else rs.ccsdsDeinterleave s.corrected >>= fun v =>
        (if rs.doBasisTransform then rs.ccsdsConventionalToDualBasis v else .ok v) >>= fun out =>
        .ok (out, s.lastCorrectedErrors)) := by
  unfold RSBase.correct
  cases rs.doBasisTransform <;> rfl

/-- **Decoding never returns a wrong word that is no codeword**: a word of symbols in range is thrown
back or repaired, and a message is returned only with all of its rows repaired. -/
theorem correction_sound {p : RSParams} (hp : p.Admissible)
    (hfull : p.codeLength = 2 ^ p.bitsPerSymbol - 1) {rs : RSBase} (hrs : RSBase.new p = .ok rs)
    {msg : SymVec} (hrange : ∀ s ∈ msg, s.toNat ≤ p.maxSymbol) :
    Handled rs msg (rs.correctOneWord msg) ∧
      ((p.doBasisTransform = true → p.bitsPerSymbol = 8) → ∀ out errs, rs.correct msg = .ok (out, errs) →
        ∃ data rows words,
          (if p.doBasisTransform then rs.ccsdsDualBasisToConventional msg else .ok msg) = .ok data ∧
          rs.ccsdsInterleave data true = .ok rows ∧ RowsRepaired rs rows words ∧
          errs = (List.zipWith changes rows words).sum ∧
          (rs.ccsdsDeinterleave words >>= fun v =>
            if p.doBasisTransform then rs.ccsdsConventionalToDualBasis v else .ok v) = .ok out) := by
  obtain ⟨rfl, h⟩ := tabled_of_new hp hrs
  have hhandled : ∀ v : SymVec, (∀ s ∈ v, s.toNat ≤ rs.maxSymbol) → Handled rs v (rs.correctOneWord v) :=
    fun v hv => correctOneWord_handled h hp.root_coprime hfull hv
  refine ⟨hhandled msg hrange, fun hbasis out errs hrun => ?_⟩
  rw [correct_eq] at hrun
  obtain ⟨data, hdata, hrun₁⟩ := Framing.bind_ok hrun
  obtain ⟨rows, hrows, hrun₂⟩ := Framing.bind_ok hrun₁
  obtain ⟨s, hs, hrun₃⟩ := Framing.bind_ok hrun₂
  -- the change of basis stays in range, since it is for octets
  have hin : ∀ a ∈ data, a.toNat ≤ rs.maxSymbol := by
    by_cases hdo : rs.doBasisTransform = true
    · intro a _
      rw [maxSymbol_eq hp.bits_le, hbasis hdo]
      exact Nat.le_of_lt_succ a.toNat_lt
    · rw [if_neg hdo] at hdata
      exact Except.ok.inj hdata ▸ hrange
  have hrowsIn := interleaveFrom_mem (fun a ha => hin a (List.mem_reverse.1 ha))
    (fun line hline a ha => by
      obtain rfl := List.eq_of_mem_replicate hline
      obtain rfl := List.eq_of_mem_replicate ha
      exact Nat.zero_le _) hrows
  by_cases hcount : 0 < s.uncorrectedErrCount
  · rw [if_pos hcount] at hrun₃
    cases hrun₃
  rw [if_neg hcount] at hrun₃
  obtain ⟨-, words, hcorrected, hrepaired, hlast⟩ :=
    correctRows_ok (fun row hrow => hhandled row (hrowsIn row hrow)) hs (by omega)
  obtain ⟨v, hv, hrun₄⟩ := Framing.bind_ok hrun₃
  obtain ⟨v', hv', hrun₅⟩ := Framing.bind_ok hrun₄
  obtain ⟨rfl, rfl⟩ := Prod.mk.inj (Except.ok.inj hrun₅)
  refine ⟨data, rows, words, hdata, hrows, hrepaired, ?_, ?_⟩
  · rw [hlast]
    exact Nat.zero_add _
  · have hwords : s.corrected = words := hcorrected
    rw [← hwords, hv]
    exact hv'

set_option maxRecDepth 4000 in
/-- One error in a word of three symbols of two bits. -/
theorem correction_sound_full : ∃ rs, RSBase.new ⟨7, 2, 3, 2, 1, 0, 1, false⟩ = .ok rs ∧
    Handled rs [1, 3, 3] (rs.correctOneWord [1, 3, 3]) ∧ ∃ rows words,
      rs.ccsdsInterleave [1, 3, 3] true = .ok rows ∧ RowsRepaired rs rows words ∧
      1 = (List.zipWith changes rows words).sum := by
  have hp : RSParams.Admissible ⟨7, 2, 3, 2, 1, 0, 1, false⟩ :=
    ⟨by decide, by decide, primitive_two, ⟨1, rfl⟩, by decide, by decide, by decide, by decide⟩
  have hrs : RSBase.new ⟨7, 2, 3, 2, 1, 0, 1, false⟩ = .ok ⟨⟨7, 2, 3, 2, 1, 0, 1, false⟩,
      [1, 2, 3, 1, 2, 3, 1, 2], [3, 0, 1, 2], loadTal, loadTalInv⟩ := rfl
  have hrange : ∀ s ∈ ([1, 3, 3] : SymVec),
      s.toNat ≤ RSParams.maxSymbol ⟨7, 2, 3, 2, 1, 0, 1, false⟩ := by decide
  have hsound := correction_sound hp rfl hrs hrange
  obtain ⟨data, rows, words, hdata, hrows, hrepaired, hsum, -⟩ := hsound.2 (by decide) [1] 1 rfl
  obtain rfl := Except.ok.inj hdata
  exact ⟨_, hrs, hsound.1, rows, words, hrows, hrepaired, hsum⟩

end ChannelEmulator.ReedSolomon
