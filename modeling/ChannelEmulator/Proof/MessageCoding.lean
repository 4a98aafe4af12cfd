import ChannelEmulator.Proof.Interleaving
import ChannelEmulator.Proof.WordEncoding
import ChannelEmulator.Proof.WordRestoration

/-!
# The coding of messages

* `paritySymbols_ok`: the parity of a message makes each of its rows a codeword.
* `correctRows_restores`: rows that differ from codewords in few symbols are restored.
* `correct_restores`: correction in a code that may be shortened.
* `decode_restores`: **the message comes back from what is received**, if each row has few errors, and
  they are counted.
-/

namespace ChannelEmulator.ReedSolomon

open Coding Coding.Cycle.Element Polynomial

variable {m : ℕ} {C : Cycle m} {rs : RSBase} {I n : ℕ}

/-! ## Rows of the field -/

/-- Symbols in range, at all places, are those of elements of the field. -/
theorem exists_elements (C : Cycle m) {f : ℕ → ℕ → Sym} (h : ∀ r o, (f r o).toNat < 2 ^ m) :
    ∃ d : ℕ → ℕ → C.Element, ∀ r o, f r o = sym (d r o) := by
  choose d hd using fun r o => exists_sym C (h r o)
  exact ⟨d, fun r o => (hd r o).symm⟩

theorem grid_congr {f f' : ℕ → ℕ → Sym} (h : ∀ r < I, ∀ o < n, f r o = f' r o) :
    grid I n f = grid I n f' := by
  unfold grid line
  refine List.map_congr_left fun r hr => List.map_congr_left fun o ho => ?_
  exact h r (List.mem_range.1 hr) o (List.mem_range.1 ho)

theorem line_sym (n : ℕ) (d : ℕ → C.Element) : line n (fun o => sym (d o)) = (word n d).map sym := by
  unfold line word
  rw [List.map_map]
  rfl

theorem mapM_grid {α : Type} {F : SymVec → Except Fault α} {f : ℕ → ℕ → Sym} {G : ℕ → α}
    (h : ∀ r < I, F (line n (f r)) = .ok (G r)) : (grid I n f).mapM F = .ok ((List.range I).map G) := by
  unfold grid
  rw [List.mapM_map]
  exact mapM_ok fun r hr => h r (List.mem_range.1 hr)

theorem symbolAt_lt {msg : SymVec} {b : ℕ} (hb : 0 < b) (h : ∀ s ∈ msg, s.toNat < b) (k : ℕ) :
    (symbolAt msg k).toNat < b := by
  unfold symbolAt
  cases hget : msg.reverse[k]? with
  | none => exact hb
  | some s => exact h s (List.mem_reverse.1 (List.mem_of_getElem? hget))

/-! ## Parity -/

/-- The parity symbols of data in conventional representation. -/
def paritySymbols (rs : RSBase) (data : SymVec) : Except Fault SymVec := do
  let rows ← rs.ccsdsInterleave data false
  let g ← rs.generatorPoly
  let encoded ← rows.mapM (rs.encodeOneWord g)
  let parity ← (List.range rs.parityLength).mapM (rs.parityAt encoded)
  return parity.flatten

theorem encode_eq (msg : SymVec) : rs.encode msg =
    ((if rs.doBasisTransform then rs.ccsdsDualBasisToConventional msg else .ok msg) >>= fun data =>
      paritySymbols rs data >>= fun parity =>
        if rs.doBasisTransform then rs.ccsdsConventionalToDualBasis parity else .ok parity) := by
  unfold RSBase.encode paritySymbols
  cases rs.doBasisTransform <;> simp only [bind_assoc, pure_bind] <;> rfl

theorem getElem?_flatten {α : Type} {L : List (List α)} (hL : ∀ l ∈ L, l.length = I) {q t : ℕ}
    (ht : t < I) :
    L.flatten[q * I + t]? = (L[q]?).bind (·[t]?) := by
  induction L generalizing q with
  | nil => rfl
  | cons l L ih =>
    have hl := hL l List.mem_cons_self
    rw [List.flatten_cons]
    cases q with
    | zero =>
      rw [Nat.zero_mul, Nat.zero_add, List.getElem?_append_left (by omega)]
      rfl
    | succ q =>
      have hnext : (q + 1) * I + t - l.length = q * I + t := by
        rw [Nat.succ_mul, hl]
        omega
      rw [List.getElem?_append_right (by rw [Nat.succ_mul, hl]; omega), hnext,
        ih fun l' hl' => hL l' (List.mem_cons_of_mem _ hl')]
      rfl

/-- The parity is taken out of the rows, one offset after the other. -/
def parityOf (I K P : ℕ) (e : ℕ → ℕ → Sym) : SymVec :=
  ((List.range P).map fun offset => (List.range I).map fun row => e row (K + offset)).flatten

theorem parityOf_length (I K P : ℕ) (e : ℕ → ℕ → Sym) : (parityOf I K P e).length = P * I := by
  unfold parityOf
  rw [List.length_flatten, List.map_map]
  have hconst : (List.length ∘ fun offset => (List.range I).map fun row => e row (K + offset)) = fun _ => I := by
    funext offset
    rw [Function.comp_apply, List.length_map, List.length_range]
  rw [hconst, List.map_const', List.length_range, List.sum_replicate, smul_eq_mul]

/-- The numbers of the places behind the data. -/
theorem slot_lt_parity {K P r o : ℕ} (hI : 0 < I) (hK : K ≤ o) (ho : o < K + P) :
    slot I (K + P - 1) r o < P * I := by
  have hle : (K + P - 1 - o) * I + I ≤ P * I := by
    rw [← Nat.succ_mul]
    exact Nat.mul_le_mul_right I (by omega)
  unfold slot
  omega

/-- The number of a parity symbol. -/
theorem parityOf_symbolAt {K P r o : ℕ} {e : ℕ → ℕ → Sym} (hr : r < I) (hK : K ≤ o) (ho : o < K + P) :
    symbolAt (parityOf I K P e) (slot I (K + P - 1) r o) = e r o := by
  have hplace : P * I - 1 - slot I (K + P - 1) r o = (o - K) * I + r := by
    have hsum : (K + P - 1 - o) * I + ((o - K) * I + I) = P * I := by
      rw [← Nat.succ_mul, ← Nat.add_mul]
      congr 1
      omega
    unfold slot
    omega
  have hlt := slot_lt_parity (Nat.zero_lt_of_lt hr) hK ho (r := r)
  unfold symbolAt
  rw [List.getElem?_reverse (by rwa [parityOf_length]), parityOf_length, hplace]
  unfold parityOf
  rw [getElem?_flatten (fun l hl => ?_) hr, List.getElem?_map, List.getElem?_range (by omega), Option.map_some,
    Option.bind_some, List.getElem?_map, List.getElem?_range hr, Option.map_some, Option.getD_some,
    Nat.add_sub_of_le hK]
  obtain ⟨offset, -, rfl⟩ := List.mem_map.1 hl
  rw [List.length_map, List.length_range]

theorem symbolAt_append (data parity : SymVec) (k : ℕ) : symbolAt (data ++ parity) k =
    if k < parity.length then symbolAt parity k else symbolAt data (k - parity.length) := by
  unfold symbolAt
  rw [List.reverse_append]
  by_cases hk : k < parity.length
  · rw [if_pos hk, List.getElem?_append_left (by rwa [List.length_reverse])]
  · rw [if_neg hk, List.getElem?_append_right (by rw [List.length_reverse]; omega), List.length_reverse]

/-- A place of the data, in rows with parity. -/
theorem slot_add {K P r o : ℕ} (ho : o < K) : slot I (K + P - 1) r o = P * I + slot I (K - 1) r o := by
  have hsum : (K + P - 1 - o) * I = P * I + (K - 1 - o) * I := by
    rw [← Nat.add_mul]
    congr 1
    omega
  unfold slot
  omega

/-- What a message is coded as: rows of codewords, with the data in front. -/
structure Coded (rs : RSBase) (data parity : SymVec) (c : ℕ → ℕ → C.Element) : Prop where
  length_eq : parity.length = rs.parityLength * rs.interleaveDepth
  range : ∀ s ∈ parity, s.toNat < 2 ^ m
  codeword : ∀ row, ∀ j < rs.parityLength, syndrome rs rs.codeLength (c row) j = 0
  symbol : ∀ row < rs.interleaveDepth, ∀ o < rs.codeLength,
    symbolAt (data ++ parity) (slot rs.interleaveDepth (rs.codeLength - 1) row o) = sym (c row o)
  data_symbol : ∀ row < rs.interleaveDepth, ∀ o < rs.codeLength - rs.parityLength,
    sym (c row o) = symbolAt data (slot rs.interleaveDepth (rs.codeLength - rs.parityLength - 1) row o)

/-- **The parity of a message makes its rows codewords.** -/
theorem paritySymbols_ok (h : Tabled C rs) (hI : 0 < rs.interleaveDepth) (hparity : rs.parityLength < rs.codeLength)
    {data : SymVec} (hrange : ∀ s ∈ data, s.toNat < 2 ^ m)
    (hlen : data.length ≤ (rs.codeLength - rs.parityLength) * rs.interleaveDepth) :
    ∃ (parity : SymVec) (c : ℕ → ℕ → C.Element),
      paritySymbols rs data = .ok parity ∧ Coded rs data parity c := by
  obtain ⟨K, hK⟩ : ∃ K, rs.codeLength - rs.parityLength = K := ⟨_, rfl⟩
  have hn : rs.codeLength = K + rs.parityLength := by omega
  obtain ⟨f, hrows, hf⟩ := @ccsdsInterleave_ok rs (K - 1) hI data false
    (by rw [← hK]; rfl) (by omega) (by rwa [show K - 1 + 1 = K by omega, ← hK])
  -- the rows as words of the field
  obtain ⟨d, hd⟩ := exists_elements C (f := fun r o =>
    if o < K then symbolAt data (slot rs.interleaveDepth (K - 1) r o) else 0) (by
      intro r o
      by_cases ho : o < K
      · rw [if_pos ho]
        exact symbolAt_lt (Nat.two_pow_pos m) hrange _
      · rw [if_neg ho]
        exact Nat.two_pow_pos m)
  have hgrid : grid rs.interleaveDepth rs.codeLength f =
      grid rs.interleaveDepth rs.codeLength fun r o => sym (d r o) := by
    refine grid_congr fun r hr o ho => ?_
    rw [hf r hr o ho, ← hd r o]
    by_cases hoK : o < K
    · rw [if_pos hoK, if_pos (by omega)]
    · rw [if_neg hoK, if_neg (by omega)]
  obtain ⟨g, hg, hgen⟩ := generatorPoly_ok h
  choose e hrun hzero hcode using fun r => encodeOneWord_word h hgen hparity.le (d r)
  have hencoded : (grid rs.interleaveDepth rs.codeLength fun r o => sym (d r o)).mapM
      (rs.encodeOneWord (g.map sym)) = .ok (grid rs.interleaveDepth rs.codeLength fun r o => sym (e r o)) := by
    refine mapM_grid fun r _ => ?_
    rw [line_sym, hrun, line_sym]
  have hparities : (List.range rs.parityLength).mapM
      (rs.parityAt (grid rs.interleaveDepth rs.codeLength fun r o => sym (e r o))) =
      .ok ((List.range rs.parityLength).map fun offset =>
        (List.range rs.interleaveDepth).map fun row => sym (e row (K + offset))) := by
    refine mapM_ok fun offset hoffset => ?_
    have hlt := List.mem_range.1 hoffset
    unfold RSBase.parityAt
    rw [hK]
    exact mapM_grid fun r _ => octetAt_some (line_getElem? (by omega))
  have hlength := parityOf_length rs.interleaveDepth K rs.parityLength fun r o => sym (e r o)
  have hdata : ∀ r, ∀ o < K, sym (d r o + e r o) = symbolAt data (slot rs.interleaveDepth (K - 1) r o) := by
    intro r o ho
    rw [hzero r o (by omega), add_zero, ← hd r o, if_pos ho]
  refine ⟨parityOf rs.interleaveDepth K rs.parityLength fun r o => sym (e r o), fun r o => d r o + e r o, ?_,
    hlength, fun s hs => ?_, hcode, fun r hr o ho => ?_, fun r _ o ho => ?_⟩
  · unfold paritySymbols
    rw [hrows, Framing.ok_bind, hg, Framing.ok_bind, hgrid, hencoded, Framing.ok_bind, hparities]
    rfl
  · obtain ⟨l, hl, hs⟩ := List.mem_flatten.1 hs
    obtain ⟨offset, -, rfl⟩ := List.mem_map.1 hl
    obtain ⟨row, -, rfl⟩ := List.mem_map.1 hs
    exact sym_lt h.bits_le _
  · rw [symbolAt_append, hlength, hn]
    by_cases hoK : o < K
    · rw [slot_add hoK, if_neg (by omega), Nat.add_sub_cancel_left, hdata r o hoK]
    · have hfill : d r o = 0 := by
        have hsym := hd r o
        rw [if_neg hoK] at hsym
        exact (sym_eq_zero h.bits_le).1 hsym.symm
      rw [if_pos (slot_lt_parity hI (by omega) (by omega)), parityOf_symbolAt hr (by omega) (by omega), hfill,
        zero_add]
  · rw [hK] at ho ⊢
    exact hdata r o ho

/-! ## Errors -/

/-- The row of a symbol of a message with its parity, by its index. -/
def rowOf (I length i : ℕ) : ℕ := I - 1 - (length - 1 - i) % I

/-- The places where messages differ. -/
def errorPlaces (sent received : SymVec) : Finset ℕ :=
  (Finset.range sent.length).filter fun i => sent[i]? ≠ received[i]?

/-- The errors in a row. -/
def rowErrors (I : ℕ) (sent received : SymVec) (row : ℕ) : ℕ :=
  ((errorPlaces sent received).filter fun i => rowOf I sent.length i = row).card

theorem changes_eq_card {sent received : SymVec} (hlen : received.length = sent.length) :
    changes sent received = (errorPlaces sent received).card := by
  have hzip : sent.zip received =
      (List.range sent.length).map fun i => ((sent[i]?).getD 0, (received[i]?).getD 0) := by
    refine List.ext_getElem? fun i => ?_
    rw [List.getElem?_map]
    by_cases hi : i < sent.length
    · have hs : sent[i]? = some sent[i] := List.getElem?_eq_getElem hi
      have hr : received[i]? = some received[i] := List.getElem?_eq_getElem (by omega)
      have hz : (sent.zip received)[i]? = some (sent[i], received[i]) := List.getElem?_zip_eq_some.2 ⟨hs, hr⟩
      rw [hz, List.getElem?_range hi, Option.map_some, hs, hr]
      rfl
    · rw [List.getElem?_eq_none (by rw [List.length_zip]; omega),
        List.getElem?_eq_none (by rw [List.length_range]; omega)]
      rfl
  unfold changes errorPlaces
  rw [hzip, List.countP_map, List.countP_eq_length_filter]
  refine congrArg List.length (List.filter_congr fun i hi => ?_)
  have hi' := List.mem_range.1 hi
  have hs : sent[i]? = some sent[i] := List.getElem?_eq_getElem hi'
  have hr : received[i]? = some received[i] := List.getElem?_eq_getElem (by omega)
  show decide ((sent[i]?).getD 0 ≠ (received[i]?).getD 0) = decide (sent[i]? ≠ received[i]?)
  rw [hs, hr]
  exact decide_eq_decide.2 (not_congr (Option.some_inj).symm)

/-- **The errors of a message are those of its rows.** -/
theorem sum_rowErrors (hI : 0 < I) {sent received : SymVec} (hlen : received.length = sent.length) :
    ((List.range I).map (rowErrors I sent received)).sum = changes sent received := by
  rw [changes_eq_card hlen, Finset.card_eq_sum_card_fiberwise (f := rowOf I sent.length) (t := Finset.range I)
    fun i _ => Finset.mem_coe.2 (Finset.mem_range.2 (by unfold rowOf; omega))]
  rfl

/-- The symbol at a place, from the end and from the start. -/
theorem symbolAt_eq {msg : SymVec} {k : ℕ} (hk : k < msg.length) :
    symbolAt msg k = (msg[msg.length - 1 - k]?).getD 0 := by
  unfold symbolAt
  rw [List.getElem?_reverse hk]

theorem symbolAt_of_le {msg : SymVec} {k : ℕ} (hk : msg.length ≤ k) : symbolAt msg k = 0 := by
  unfold symbolAt
  rw [List.getElem?_eq_none (by rwa [List.length_reverse])]
  rfl

/-- **The symbols in which a row differs are the errors in it.** -/
theorem card_differing {sent received : SymVec} (hlen : received.length = sent.length)
    (hroom : sent.length ≤ n * I) {row : ℕ} (hrow : row < I) {c w : ℕ → C.Element}
    (hc : ∀ o < n, symbolAt sent (slot I (n - 1) row o) = sym (c o))
    (hw : ∀ o < n, symbolAt received (slot I (n - 1) row o) = sym (w o)) :
    (differing n w c).card = rowErrors I sent received row := by
  have hI : 0 < I := Nat.zero_lt_of_lt hrow
  have hnumber : ∀ o, slot I (n - 1) row o / I = n - 1 - o ∧ slot I (n - 1) row o % I = I - 1 - row :=
    fun o => number_div_mod (show I - 1 - row < I by omega)
  -- a place with an error is one of the message, and not of its virtual fill
  have hplace : ∀ o < n, sym (w o) ≠ sym (c o) → slot I (n - 1) row o < sent.length := by
    intro o ho hne
    by_contra hle
    rw [← hc o ho, ← hw o ho, symbolAt_of_le (by omega), symbolAt_of_le (by omega)] at hne
    exact hne rfl
  -- the place of a symbol of the row
  have hback : ∀ i < sent.length, rowOf I sent.length i = row →
      (sent.length - 1 - i) / I < n ∧
        slot I (n - 1) row (n - 1 - (sent.length - 1 - i) / I) = sent.length - 1 - i := by
    intro i hi hrowi
    have hdiv : (sent.length - 1 - i) / I < n :=
      Nat.div_lt_of_lt_mul (Nat.lt_of_lt_of_le (show sent.length - 1 - i < sent.length by omega)
        (by rwa [Nat.mul_comm]))
    unfold rowOf at hrowi
    refine ⟨hdiv, ?_⟩
    rw [← hrowi]
    exact slot_of_number hI (Nat.le_sub_one_of_lt hdiv)
  refine Finset.card_nbij' (fun o => sent.length - 1 - slot I (n - 1) row o)
    (fun i => n - 1 - (sent.length - 1 - i) / I) (fun o ho => ?_) (fun i hi => ?_) (fun o ho => ?_) (fun i hi => ?_)
  · obtain ⟨hrange, hne⟩ := Finset.mem_filter.1 ho
    have hon := Finset.mem_range.1 hrange
    have hlt := hplace o hon hne
    have hin : sent.length - 1 - slot I (n - 1) row o < sent.length := by omega
    refine Finset.mem_filter.2 ⟨Finset.mem_filter.2 ⟨Finset.mem_range.2 hin, fun heq => hne ?_⟩, ?_⟩
    · rw [← hw o hon, ← hc o hon, symbolAt_eq hlt, symbolAt_eq (by rwa [hlen]), hlen, heq]
    · unfold rowOf
      rw [Nat.sub_sub_self (Nat.le_sub_one_of_lt hlt), (hnumber o).2, Nat.sub_sub_self (by omega)]
  · obtain ⟨herror, hrowi⟩ := Finset.mem_filter.1 hi
    obtain ⟨hrange, hne⟩ := Finset.mem_filter.1 herror
    have hi' := Finset.mem_range.1 hrange
    obtain ⟨hdiv, hslot⟩ := hback i hi' hrowi
    have hon : n - 1 - (sent.length - 1 - i) / I < n := Nat.lt_of_le_of_lt (Nat.sub_le _ _)
      (Nat.sub_lt (Nat.zero_lt_of_lt hdiv) Nat.one_pos)
    refine Finset.mem_filter.2 ⟨Finset.mem_range.2 hon, fun heq => hne ?_⟩
    rw [← hw _ hon, ← hc _ hon, hslot, symbolAt_eq (by omega), symbolAt_eq (by omega), hlen,
      show sent.length - 1 - (sent.length - 1 - i) = i by omega] at heq
    have hs : sent[i]? = some sent[i] := List.getElem?_eq_getElem hi'
    have hr : received[i]? = some received[i] := List.getElem?_eq_getElem (by omega)
    rw [hs, hr] at heq ⊢
    exact congrArg some heq.symm
  · obtain ⟨hrange, hne⟩ := Finset.mem_filter.1 ho
    have hon := Finset.mem_range.1 hrange
    have hlt := hplace o hon hne
    show n - 1 - (sent.length - 1 - (sent.length - 1 - slot I (n - 1) row o)) / I = o
    rw [Nat.sub_sub_self (Nat.le_sub_one_of_lt hlt), (hnumber o).1, Nat.sub_sub_self (by omega)]
  · obtain ⟨herror, hrowi⟩ := Finset.mem_filter.1 hi
    obtain ⟨hrange, hne⟩ := Finset.mem_filter.1 herror
    have hi' := Finset.mem_range.1 hrange
    show sent.length - 1 - slot I (n - 1) row (n - 1 - (sent.length - 1 - i) / I) = i
    rw [(hback i hi' hrowi).2]
    omega

/-! ## Correction -/

/-- The loop of `correct` over rows that are all corrected. -/
theorem correctRows_all {rows : List ℕ} {F G : ℕ → SymVec} {errs : ℕ → ℕ}
    (h : ∀ row ∈ rows, rs.correctOneWord (F row) = .ok (G row, errs row)) (s : RSBase.Progress) :
    rs.correctRows (rows.map F) s = .ok { s with
      corrected := s.corrected ++ rows.map G
      lastCorrectedErrors := s.lastCorrectedErrors + (rows.map errs).sum } := by
  induction rows generalizing s with
  | nil =>
    rw [List.map_nil, List.map_nil, List.append_nil]
    rfl
  | cons row rows ih =>
    rw [List.map_cons, RSBase.correctRows, h row List.mem_cons_self]
    refine (ih (fun r hr => h r (List.mem_cons_of_mem _ hr)) _).trans ?_
    rw [List.map_cons, List.map_cons, List.sum_cons, List.append_assoc, Nat.add_assoc]
    rfl

/-- **What is received is restored**, if each row has few errors. -/
theorem restored (h : Tabled C rs) (hcop : Nat.Coprime rs.primitiveRootIdx.toNat C.period)
    (hn : rs.codeLength ≤ C.period) (hsurplus : surplus C rs rs.codeLength = 1) (hI : 0 < rs.interleaveDepth)
    (hparity : rs.parityLength < rs.codeLength)
    {data parity : SymVec} {c : ℕ → ℕ → C.Element} (hcoded : Coded rs data parity c)
    (hlen : data.length ≤ (rs.codeLength - rs.parityLength) * rs.interleaveDepth) {received : SymVec}
    (hreceived : received.length = (data ++ parity).length) (hrange : ∀ s ∈ received, s.toNat < 2 ^ m)
    (hfew : ∀ row < rs.interleaveDepth,
      2 * rowErrors rs.interleaveDepth (data ++ parity) received row ≤ rs.parityLength) :
    ∃ rows s, rs.ccsdsInterleave received true = .ok rows ∧ rs.correctRows rows {} = .ok s ∧
      s.uncorrectedErrCount = 0 ∧ s.lastCorrectedErrors = changes (data ++ parity) received ∧
      rs.ccsdsDeinterleave s.corrected = .ok
        (List.replicate ((rs.codeLength - rs.parityLength) * rs.interleaveDepth - data.length) 0 ++ data) := by
  have hroom : (data ++ parity).length ≤ rs.codeLength * rs.interleaveDepth := by
    have hsum : (rs.codeLength - rs.parityLength) * rs.interleaveDepth + rs.parityLength * rs.interleaveDepth =
        rs.codeLength * rs.interleaveDepth := by
      rw [← Nat.add_mul]
      congr 1
      omega
    rw [List.length_append, hcoded.length_eq]
    omega
  obtain ⟨f, hrows, hf⟩ := @ccsdsInterleave_ok rs (rs.codeLength - 1) hI received true rfl (by omega) (by
      rw [show rs.codeLength - 1 + 1 = rs.codeLength by omega]
      omega)
  obtain ⟨w, hw⟩ := exists_elements C (f := fun r o =>
    symbolAt received (slot rs.interleaveDepth (rs.codeLength - 1) r o)) fun r o =>
      symbolAt_lt (Nat.two_pow_pos m) hrange _
  have hgrid : grid rs.interleaveDepth rs.codeLength f =
      (List.range rs.interleaveDepth).map fun r => (word rs.codeLength (w r)).map sym := by
    unfold grid
    refine List.map_congr_left fun r hr => ?_
    rw [← line_sym]
    refine List.map_congr_left fun o ho => ?_
    rw [hf r (List.mem_range.1 hr) o (List.mem_range.1 ho), if_pos, ← hw r o]
    exact Nat.le_sub_one_of_lt (List.mem_range.1 ho)
  have hcard : ∀ row < rs.interleaveDepth, (differing rs.codeLength (w row) (c row)).card =
      rowErrors rs.interleaveDepth (data ++ parity) received row := fun row hrow =>
    card_differing hreceived hroom hrow (hcoded.symbol row hrow) fun o _ => hw row o
  have hwords : ∀ row ∈ List.range rs.interleaveDepth,
      rs.correctOneWord ((word rs.codeLength (w row)).map sym) =
      .ok ((word rs.codeLength (c row)).map sym,
        rowErrors rs.interleaveDepth (data ++ parity) received row) := by
    intro row hrow
    have hlt := List.mem_range.1 hrow
    rw [← hcard row hlt]
    refine correctOneWord_restores h hcop (Nat.zero_lt_of_lt hparity) hn hsurplus (hcoded.codeword row) ?_
    rw [hcard row hlt]
    exact hfew row hlt
  refine ⟨_, _, hrows, by rw [hgrid]; exact correctRows_all hwords {}, rfl, ?_, ?_⟩
  · exact (Nat.zero_add _).trans (sum_rowErrors hI hreceived)
  · have hcorrected : (List.range rs.interleaveDepth).map (fun r => (word rs.codeLength (c r)).map sym) =
        grid rs.interleaveDepth rs.codeLength fun r o => sym (c r o) := by
      unfold grid
      exact List.map_congr_left fun r _ => (line_sym _ _).symm
    show rs.ccsdsDeinterleave ([] ++ _) = _
    rw [List.nil_append, hcorrected]
    exact deinterleave_data hI hparity hlen fun r hr o ho => hcoded.data_symbol r hr o ho

/-! ## The change of basis -/

/-- A symbol of the dual basis in the conventional one, and back. -/
def fromDual (s : Sym) : Sym := (loadTalInv[s.toNat]?).getD 0
def toDual (s : Sym) : Sym := (loadTal[s.toNat]?).getD 0

/-- The bits that a loop sets. -/
theorem testBit_foldl_or (f : ℕ → ℕ) (l : List ℕ) (bits v : ℕ) :
    (l.foldl (fun bits i => bits ||| 1 <<< f i) bits).testBit v = true ↔
      bits.testBit v = true ∨ ∃ i ∈ l, f i = v := by
  induction l generalizing bits with
  | nil => simp only [List.foldl_nil, List.not_mem_nil, false_and, exists_false, or_false]
  | cons j l ih =>
    rw [List.foldl_cons, ih, Nat.testBit_or, Bool.or_eq_true, Nat.one_shiftLeft, Nat.testBit_two_pow, decide_eq_true_eq,
      or_assoc]
    simp only [List.mem_cons, or_and_right, exists_or, exists_eq_left]

/-- What a loop writes at a place that it writes once. -/
theorem getElem?_foldl_set {α : Type} (f : ℕ → ℕ) (g : ℕ → α) {l : List ℕ} {v : List α} {i : ℕ} (hi : i ∈ l)
    (honce : ∀ j ∈ l, f j = f i → j = i) (hlt : f i < v.length) :
    (l.foldl (fun v j => v.set (f j) (g j)) v)[f i]? = some (g i) := by
  have hlength : ∀ l : List ℕ, (l.foldl (fun v j => v.set (f j) (g j)) v).length = v.length := by
    intro l
    induction l using List.reverseRecOn with
    | nil => rfl
    | append_singleton l j ih => rw [List.foldl_concat, List.length_set, ih]
  induction l using List.reverseRecOn with
  | nil => cases hi
  | append_singleton l j ih =>
    rw [List.foldl_concat]
    by_cases hj : f j = f i
    · rw [honce j (List.mem_append_right _ List.mem_cons_self) hj]
      exact List.getElem?_set_self (by rw [hlength]; exact hlt)
    · rw [List.getElem?_set_ne hj]
      refine ih ?_ fun k hk => honce k (List.mem_append_left _ hk)
      exact (List.mem_append.1 hi).resolve_right fun h => hj (by rw [List.mem_singleton.1 h])

/-- The entries of the table have all bits together: each symbol is one of them. -/
theorem talEntry_bits : (List.range 256).foldl (fun bits i => bits ||| 1 <<< (talEntry i).toNat) 0 = 2 ^ 256 - 1 := by
  decide +kernel

theorem talEntry_surjective (s : Sym) : ∃ i < 256, talEntry i = s := by
  have hbit : ((List.range 256).foldl (fun bits i => bits ||| 1 <<< (talEntry i).toNat) 0).testBit s.toNat = true := by
    rw [talEntry_bits, Nat.testBit_two_pow_sub_one]
    exact decide_eq_true s.toNat_lt
  rcases (testBit_foldl_or (fun i => (talEntry i).toNat) _ _ _).1 hbit with hzero | ⟨i, hi, hs⟩
  · rw [Nat.zero_testBit] at hzero
    cases hzero
  · exact ⟨i, List.mem_range.1 hi, UInt8.toNat_inj.1 hs⟩

theorem talEntry_injective {i j : ℕ} (hi : i < 256) (hj : j < 256) (h : talEntry i = talEntry j) : i = j := by
  have hinj : Function.Injective fun k : Fin 256 => (⟨(talEntry k).toNat, (talEntry k).toNat_lt⟩ : Fin 256) := by
    refine Finite.injective_iff_surjective.2 fun v => ?_
    obtain ⟨k, hk, hentry⟩ := talEntry_surjective (.ofNat v)
    refine ⟨⟨k, hk⟩, Fin.ext ?_⟩
    show (talEntry k).toNat = v
    rw [hentry]
    exact UInt8.toNat_ofNat_of_lt' v.isLt
  exact congrArg Fin.val (@hinj ⟨i, hi⟩ ⟨j, hj⟩ (Fin.ext (congrArg UInt8.toNat h)))

theorem loadTal_entry {i : ℕ} (hi : i < 256) : loadTal[i]? = some (talEntry i) := by
  unfold loadTal
  rw [List.getElem?_map, List.getElem?_range hi]
  rfl

theorem loadTalInv_entry {i : ℕ} (hi : i < 256) : loadTalInv[(talEntry i).toNat]? = some (.ofNat i) := by
  refine getElem?_foldl_set (fun i => (talEntry i).toNat) UInt8.ofNat (List.mem_range.2 hi) (fun j hj h => ?_) ?_
  · exact talEntry_injective (List.mem_range.1 hj) hi (UInt8.toNat_inj.1 h)
  · rw [List.length_replicate]
    exact (talEntry i).toNat_lt

theorem dual_inverse (s : Sym) : toDual (fromDual s) = s ∧ fromDual (toDual s) = s := by
  have hentry : toDual s = talEntry s.toNat := by
    unfold toDual
    rw [loadTal_entry s.toNat_lt, Option.getD_some]
  have hback : ∀ i < 256, fromDual (talEntry i) = .ofNat i := by
    intro i hi
    unfold fromDual
    rw [loadTalInv_entry hi, Option.getD_some]
  constructor
  · obtain ⟨i, hi, rfl⟩ := talEntry_surjective s
    rw [hback i hi]
    unfold toDual
    rw [UInt8.toNat_ofNat_of_lt' hi, loadTal_entry hi, Option.getD_some]
  · rw [hentry, hback _ s.toNat_lt, UInt8.ofNat_toNat]

theorem dual_tables (s : Sym) : loadTal[s.toNat]?.isSome ∧ loadTalInv[s.toNat]?.isSome := by
  obtain ⟨i, hi, rfl⟩ := talEntry_surjective s
  rw [loadTal_entry (talEntry i).toNat_lt, loadTalInv_entry hi]
  exact ⟨rfl, rfl⟩

theorem octetAt_isSome {v : SymVec} {k : ℕ} (h : v[k]?.isSome) : octetAt v k = .ok ((v[k]?).getD 0) := by
  obtain ⟨s, hs⟩ := Option.isSome_iff_exists.1 h
  rw [octetAt_some hs, hs]
  rfl

theorem tal_of_new {p : RSParams} (hp : p.Admissible) (hrs : RSBase.new p = .ok rs) :
    rs.talTab = loadTal ∧ rs.talTabInv = loadTalInv := by
  rw [new_eq hp] at hrs
  unfold loadTables at hrs
  obtain ⟨tables, -, hrs₁⟩ := Framing.bind_ok hrs
  obtain ⟨gfLog, -, hrs₂⟩ := Framing.bind_ok hrs₁
  obtain ⟨gfExp, -, hrs₃⟩ := Framing.bind_ok hrs₂
  obtain rfl := Except.ok.inj hrs₃
  exact ⟨by with_reducible rfl, by with_reducible rfl⟩

/-- What a message is changed to before its coding, and what the code is changed to behind it. -/
structure Bases (rs : RSBase) (m : ℕ) (f g : Sym → Sym) : Prop where
  before : ∀ v, (if rs.doBasisTransform then rs.ccsdsDualBasisToConventional v else .ok v) = .ok (v.map f)
  behind : ∀ v, (if rs.doBasisTransform then rs.ccsdsConventionalToDualBasis v else .ok v) = .ok (v.map g)
  back : ∀ s, g (f s) = s
  forth : ∀ s, f (g s) = s
  range : ∀ s : Sym, s.toNat < 2 ^ m → (f s).toNat < 2 ^ m

/-- **The change of basis is undone.** -/
theorem exists_bases {p : RSParams} (hp : p.Admissible) (hrs : RSBase.new p = .ok rs)
    (hbasis : rs.doBasisTransform = true → m = 8) : ∃ f g, Bases rs m f g := by
  cases hdo : rs.doBasisTransform with
  | false =>
    refine ⟨id, id, fun v => ?_, fun v => ?_, fun _ => rfl, fun _ => rfl, fun s hs => hs⟩
    · rw [hdo, List.map_id]
      rfl
    · rw [hdo, List.map_id]
      rfl
  | true =>
    obtain ⟨htal, hinv⟩ := tal_of_new hp hrs
    refine ⟨fromDual, toDual, fun v => ?_, fun v => ?_, fun s => (dual_inverse s).1, fun s => (dual_inverse s).2,
      fun s _ => ?_⟩
    · rw [if_pos hdo]
      unfold RSBase.ccsdsDualBasisToConventional
      rw [hinv]
      exact mapM_ok fun s _ => octetAt_isSome (dual_tables s).2
    · rw [if_pos hdo]
      unfold RSBase.ccsdsConventionalToDualBasis
      rw [htal]
      exact mapM_ok fun s _ => octetAt_isSome (dual_tables s).1
    · rw [hbasis hdo]
      exact (fromDual s).toNat_lt

theorem Bases.injective {f g : Sym → Sym} (h : Bases rs m f g) : Function.Injective f := by
  intro s t hst
  rw [← h.back s, hst, h.back]

/-- A change of the symbols, one by one, leaves the errors where they are. -/
theorem errorPlaces_map {f : Sym → Sym} (hf : Function.Injective f) (sent received : SymVec) :
    errorPlaces (sent.map f) (received.map f) = errorPlaces sent received := by
  unfold errorPlaces
  rw [List.length_map]
  refine Finset.filter_congr fun i _ => ?_
  rw [List.getElem?_map, List.getElem?_map]
  exact not_congr (Option.map_injective hf).eq_iff

/-! ## Messages -/

/-- **Correction restores what it can**, also in a shortened code whose correction has no surplus: the data
comes back behind its virtual fill, in the order of the encoder. -/
theorem correct_restores (h : Tabled C rs) (hcop : Nat.Coprime rs.primitiveRootIdx.toNat C.period)
    (hn : rs.codeLength ≤ C.period) (hsurplus : surplus C rs rs.codeLength = 1) (hI : 0 < rs.interleaveDepth)
    (hparity : rs.parityLength < rs.codeLength) (heven : Even rs.parityLength) {f g : Sym → Sym}
    (hfg : Bases rs m f g) {msg : SymVec} (hmsg : ∀ s ∈ msg, s.toNat < 2 ^ m)
    (hlen : msg.length ≤ (rs.codeLength - rs.parityLength) * rs.interleaveDepth) :
    ∃ parity : SymVec, rs.encode msg = .ok (parity.map g) ∧ parity.length = rs.parityLength * rs.interleaveDepth ∧
      (∀ s ∈ parity, s.toNat < 2 ^ m) ∧
      ∀ received : SymVec, received.length = (msg ++ parity.map g).length → (∀ s ∈ received, s.toNat < 2 ^ m) →
        (∀ row < rs.interleaveDepth,
          rowErrors rs.interleaveDepth (msg ++ parity.map g) received row ≤ rs.parityLength / 2) →
        rs.correct received = .ok ((List.replicate
          ((rs.codeLength - rs.parityLength) * rs.interleaveDepth - msg.length) 0 ++ msg.map f).map g,
          changes (msg ++ parity.map g) received) := by
  have hrange : ∀ {v : SymVec}, (∀ s ∈ v, s.toNat < 2 ^ m) → ∀ s ∈ v.map f, s.toNat < 2 ^ m := by
    intro v hv s hs
    obtain ⟨t, ht, rfl⟩ := List.mem_map.1 hs
    exact hfg.range t (hv t ht)
  obtain ⟨parity, c, hsymbols, hcoded⟩ := paritySymbols_ok h hI hparity (hrange hmsg) (by rwa [List.length_map])
  have hsent : (msg ++ parity.map g).map f = msg.map f ++ parity := by
    rw [List.map_append, List.map_map, show f ∘ g = id from funext hfg.forth, List.map_id]
  refine ⟨parity, ?_, hcoded.length_eq, hcoded.range, fun received hreceived hin hfew => ?_⟩
  · rw [encode_eq, hfg.before, Framing.ok_bind, hsymbols, Framing.ok_bind, hfg.behind]
  have hlength : (received.map f).length = (msg.map f ++ parity).length := by
    rw [← hsent, List.length_map, List.length_map, hreceived]
  -- the change of basis leaves the errors where they are
  have herrors : errorPlaces (msg.map f ++ parity) (received.map f) =
      errorPlaces (msg ++ parity.map g) received := by
    rw [← hsent, errorPlaces_map hfg.injective]
  obtain ⟨rows, s, hrows, hrun, hzero, hlast, hout⟩ := restored h hcop hn hsurplus hI hparity hcoded
    (by rwa [List.length_map]) hlength (hrange hin) fun row hrow => by
      have hrowErrors := hfew row hrow
      unfold rowErrors at hrowErrors ⊢
      rw [herrors, ← hsent, List.length_map]
      obtain ⟨k, hk⟩ := heven
      omega
  have hchanges : s.lastCorrectedErrors = changes (msg ++ parity.map g) received := by
    rw [hlast, changes_eq_card hlength, herrors, changes_eq_card hreceived]
  rw [List.length_map] at hout
  rw [correct_eq, hfg.before, Framing.ok_bind, hrows, Framing.ok_bind, hrun, Framing.ok_bind, hzero,
    if_neg (Nat.lt_irrefl 0), hout, Framing.ok_bind, hfg.behind, Framing.ok_bind, hchanges]

/-- **Reed-Solomon coding restores what it can**: the message comes back from what is received instead of it
and its parity, if no row has errors in more than half as many symbols as it has parity. The errors are
counted. -/
theorem decode_restores {p : RSParams} (hp : p.Admissible) (hfull : p.codeLength = 2 ^ p.bitsPerSymbol - 1)
    (hbasis : p.doBasisTransform = true → p.bitsPerSymbol = 8) {rs : RSBase} (hrs : RSBase.new p = .ok rs)
    {msg : SymVec} (hmsg : ∀ s ∈ msg, s.toNat ≤ p.maxSymbol)
    (hlen : msg.length ≤ (p.codeLength - p.parityLength) * p.interleaveDepth) :
    ∃ parity, rs.encode msg = .ok parity ∧ parity.length = p.parityLength * p.interleaveDepth ∧
      ∀ received : SymVec, received.length = (msg ++ parity).length →
        (∀ s ∈ received, s.toNat ≤ p.maxSymbol) →
        (∀ row < p.interleaveDepth, rowErrors p.interleaveDepth (msg ++ parity) received row ≤ p.parityLength / 2) →
        rs.decode received = .ok (msg, changes (msg ++ parity) received) := by
  obtain ⟨rfl, h⟩ := tabled_of_new hp hrs
  obtain ⟨f, g, hfg⟩ := exists_bases (m := rs.bitsPerSymbol) hp hrs hbasis
  have hlt : ∀ {s : Sym}, s.toNat ≤ rs.maxSymbol → s.toNat < 2 ^ rs.bitsPerSymbol := by
    intro s hs
    have hpow : 0 < 2 ^ rs.bitsPerSymbol := Nat.two_pow_pos _
    rw [maxSymbol_eq hp.bits_le] at hs
    omega
  -- the full length is the period, which has no surplus
  have hperiod : rs.codeLength = hp.cycle.period := hfull.trans h.period_eq.symm
  have hsurplus : surplus hp.cycle rs rs.codeLength = 1 :=
    (surplus_eq_one_iff hp.root_coprime _).2 (hperiod ▸ Nat.dvd_mul_left _ _)
  obtain ⟨parity, hencode, hcount, -, hcorrect⟩ := correct_restores h hp.root_coprime hperiod.le hsurplus
    hp.depth_pos hp.parity_lt hp.parity_even hfg (fun s hs => hlt (hmsg s hs)) hlen
  refine ⟨parity.map g, hencode, by rw [List.length_map, hcount], fun received hreceived hin hfew => ?_⟩
  -- the virtual fill
  have hfill : rs.codeLength * rs.interleaveDepth - received.length =
      (rs.codeLength - rs.parityLength) * rs.interleaveDepth - msg.length := by
    rw [hreceived, List.length_append, List.length_map, hcount, Nat.sub_mul]
    omega
  have hback : (msg.map f).map g = msg := by
    rw [List.map_map, show g ∘ f = id from funext hfg.back, List.map_id]
  unfold RSBase.decode
  rw [hcorrect received hreceived (fun s hs => hlt (hin s hs)) hfew, Framing.ok_bind]
  show (if _ then _ else _) = _
  rw [hfill, List.map_append, List.map_replicate, hback]
  rw [if_neg (by rw [List.length_append, List.length_replicate]; omega)]
  exact congrArg (fun v => Except.ok (v, changes (msg ++ parity.map g) received))
    (List.drop_left' List.length_replicate)

set_option maxRecDepth 4000 in
/-- Two rows of symbols of two bits with an error in each. -/
theorem decode_restores_two : ∃ rs, RSBase.new ⟨7, 2, 3, 2, 1, 0, 2, false⟩ = .ok rs ∧
    rs.encode [1, 2] = .ok [3, 1, 2, 3] ∧ rs.decode [1, 0, 0, 1, 2, 3] = .ok ([1, 2], 2) := by
  have hp : RSParams.Admissible ⟨7, 2, 3, 2, 1, 0, 2, false⟩ :=
    ⟨by decide, by decide, primitive_two, ⟨1, rfl⟩, by decide, by decide, by decide, by decide⟩
  have hrs : RSBase.new ⟨7, 2, 3, 2, 1, 0, 2, false⟩ = .ok ⟨⟨7, 2, 3, 2, 1, 0, 2, false⟩,
      [1, 2, 3, 1, 2, 3, 1, 2], [3, 0, 1, 2], loadTal, loadTalInv⟩ := rfl
  obtain ⟨parity, hparity, -, hdecode⟩ := decode_restores hp rfl (by decide) hrs
    (show ∀ s ∈ ([1, 2] : SymVec), s.toNat ≤ RSParams.maxSymbol ⟨7, 2, 3, 2, 1, 0, 2, false⟩ by decide)
    (by decide)
  have hencode : RSBase.encode ⟨⟨7, 2, 3, 2, 1, 0, 2, false⟩, [1, 2, 3, 1, 2, 3, 1, 2], [3, 0, 1, 2],
      loadTal, loadTalInv⟩ [1, 2] = .ok [3, 1, 2, 3] := rfl
  obtain rfl := Except.ok.inj (hencode.symm.trans hparity)
  exact ⟨_, hrs, hencode, hdecode [1, 0, 0, 1, 2, 3] rfl (by decide) (by decide)⟩

end ChannelEmulator.ReedSolomon
