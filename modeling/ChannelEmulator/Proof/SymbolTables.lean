import ChannelEmulator.Proof.SymbolField

/-!
# The tables of exponentials and logarithms

* `RSParams.Admissible`: the parameters of a code.
* `loadTables_ok`: **the constructor fills the tables with the powers of the unknown and their
  exponents**.
* `gfMul_ok`, `gfDiv_ok`: products and quotients through the tables are those of the field.
-/

namespace ChannelEmulator.ReedSolomon

open Coding Coding.Cycle.Element

/-- The parameters of a code over the symbols of `bitsPerSymbol` bits. -/
structure RSParams.Admissible (p : RSParams) : Prop where
  bits : 2 ≤ p.bitsPerSymbol
  bits_le : p.bitsPerSymbol ≤ 8
  primitive : Primitive p.bitsPerSymbol p.primitivePoly
  parity_even : Even p.parityLength
  parity_lt : p.parityLength < p.codeLength
  code_le : p.codeLength ≤ 2 ^ p.bitsPerSymbol - 1
  root_coprime : Nat.Coprime p.primitiveRootIdx.toNat (2 ^ p.bitsPerSymbol - 1)
  depth_pos : 0 < p.interleaveDepth

/-- The field of its symbols. -/
def RSParams.Admissible.cycle {p : RSParams} (h : p.Admissible) : Cycle p.bitsPerSymbol :=
  h.primitive.cycle h.bits

theorem maxSymbol_eq {p : RSParams} (h : p.bitsPerSymbol ≤ 8) :
    p.maxSymbol = 2 ^ p.bitsPerSymbol - 1 := by
  have hall : ∀ m ≤ 8, 0xff >>> (8 - m) = 2 ^ m - 1 := by decide
  exact hall p.bitsPerSymbol h

theorem setAt_ok {v : SymVec} {i : ℕ} (h : i < v.length) (s : Sym) : setAt v i s = .ok (v.set i s) :=
  if_pos h

theorem octetAt_some {v : SymVec} {i : ℕ} {s : Sym} (h : v[i]? = some s) : octetAt v i = .ok s := by
  unfold octetAt
  rw [h]

variable {m poly : ℕ}

/-! ## Loading -/

/-- The tables while the powers up to index `i` are in them. -/
structure Loading (m poly i : ℕ) (gfExp gfLog : SymVec) : Prop where
  exp_length : gfExp.length = (2 ^ m - 1 + 1) * 2
  log_length : gfLog.length = 2 ^ m - 1 + 1
  exp : ∀ k < i, gfExp[k]? = some (.ofNat ((timesX m poly)^[k] 1))
  rest : ∀ k, i ≤ k → k < (2 ^ m - 1 + 1) * 2 → gfExp[k]? = some 1
  log : ∀ k < i, gfLog[(timesX m poly)^[k] 1]? = some (.ofNat k)

theorem loading_start (hm : 0 < m) : Loading m poly 1
    (List.replicate ((2 ^ m - 1 + 1) * 2) 1) (List.replicate (2 ^ m - 1 + 1) 0) where
  exp_length := List.length_replicate
  log_length := List.length_replicate
  exp k hk := by
    obtain rfl : k = 0 := by omega
    exact List.getElem?_replicate_of_lt (by omega)
  rest k _ hk := List.getElem?_replicate_of_lt hk
  log k hk := by
    obtain rfl : k = 0 := by omega
    have hpos := Nat.one_lt_two_pow hm.ne'
    exact List.getElem?_replicate_of_lt (show 1 < 2 ^ m - 1 + 1 by omega)

/-- One turn. -/
theorem Loading.store (h : Primitive m poly) (hm : 0 < m) {i : ℕ} {gfExp gfLog : SymVec}
    (hl : Loading m poly i gfExp gfLog) (hi : i < 2 ^ m - 1) :
    Loading m poly (i + 1) (gfExp.set i (.ofNat ((timesX m poly)^[i] 1)))
      (gfLog.set ((timesX m poly)^[i] 1) (.ofNat i)) where
  exp_length := by rw [List.length_set, hl.exp_length]
  log_length := by rw [List.length_set, hl.log_length]
  exp k hk := by
    rw [List.getElem?_set]
    by_cases hik : i = k
    · subst hik
      rw [if_pos rfl, if_pos (by rw [hl.exp_length]; omega)]
    · rw [if_neg hik]
      exact hl.exp k (by omega)
  rest k hik hk := by
    rw [List.getElem?_set, if_neg (by omega)]
    exact hl.rest k (by omega) hk
  log k hk := by
    have hlt := h.iterate_lt hm i
    rw [List.getElem?_set]
    by_cases hik : i = k
    · subst hik
      rw [if_pos rfl, if_pos (by rw [hl.log_length]; omega)]
    · -- the powers are different, so the entry of another one stays
      rw [if_neg fun heq => hik (h.iterate_inj hi (by omega) heq)]
      exact hl.log k (by omega)

theorem loadPowers_ok (h : Primitive m poly) (hm : 0 < m) {turns i : ℕ} {gfExp gfLog : SymVec}
    (hturns : turns + (i + 1) = 2 ^ m - 1) (hl : Loading m poly (i + 1) gfExp gfLog) :
    ∃ gfExp' gfLog', loadPowers poly (2 ^ m - 1) turns (i + 1) ((timesX m poly)^[i] 1)
        (gfExp, gfLog) = .ok (gfExp', gfLog') ∧
      Loading m poly (2 ^ m - 1) gfExp' gfLog' := by
  induction turns generalizing i gfExp gfLog with
  | zero =>
    have hi : i + 1 = 2 ^ m - 1 := by omega
    exact ⟨gfExp, gfLog, rfl, hi ▸ hl⟩
  | succ turns ih =>
    have hstep : (if (timesX m poly)^[i] 1 <<< 1 &&& (2 ^ m - 1 + 1) ≠ 0 then
        (timesX m poly)^[i] 1 <<< 1 ^^^ poly else (timesX m poly)^[i] 1 <<< 1) =
        (timesX m poly)^[i + 1] 1 := by
      rw [Function.iterate_succ_apply', Nat.sub_add_cancel Nat.one_le_two_pow, Nat.and_two_pow]
      unfold timesX
      cases Nat.testBit (_ <<< 1) m with
      | true => rw [Bool.toNat_true, Nat.one_mul, if_pos (Nat.two_pow_pos m).ne', if_pos rfl]
      | false => rw [Bool.toNat_false, Nat.zero_mul, if_neg (fun h => h rfl), if_neg (by decide)]
    have hlt := h.iterate_lt hm (i + 1)
    obtain ⟨gfExp', gfLog', hrun, hl'⟩ := ih (by omega) (hl.store h hm (by omega))
    refine ⟨gfExp', gfLog', ?_, hl'⟩
    unfold loadPowers
    simp only [hstep]
    rw [setAt_ok (by rw [hl.exp_length]; omega)]
    show (setAt gfLog _ _ >>= _) = _
    rw [setAt_ok (by rw [hl.log_length]; omega)]
    exact hrun

/-- The table of powers while it is copied. -/
theorem copyPowers_ok {N : ℕ} {powers : ℕ → Sym} (hperiod : ∀ k, powers (k + N) = powers k)
    {turns i : ℕ} {gfExp : SymVec} (hN : 0 < N) (hlen : gfExp.length = turns + i) (hi : N ≤ i)
    (hexp : ∀ k < i, gfExp[k]? = some (powers k)) :
    ∃ gfExp', copyPowers N turns i gfExp = .ok gfExp' ∧
      ∀ k < turns + i, gfExp'[k]? = some (powers k) := by
  induction turns generalizing i gfExp with
  | zero => exact ⟨gfExp, rfl, fun k hk => hexp k (by omega)⟩
  | succ turns ih =>
    have hnew : powers (i - N) = powers i := by
      have heq := hperiod (i - N)
      rw [Nat.sub_add_cancel hi] at heq
      exact heq.symm
    have hset : ∀ k < i + 1, (gfExp.set i (powers i))[k]? = some (powers k) := by
      intro k hk
      rw [List.getElem?_set]
      by_cases hik : i = k
      · subst hik
        rw [if_pos rfl, if_pos (by omega)]
      · rw [if_neg hik]
        exact hexp k (by omega)
    obtain ⟨gfExp', hrun, hall⟩ := ih (by rw [List.length_set]; omega) (by omega) hset
    refine ⟨gfExp', ?_, fun k hk => hall k (by omega)⟩
    unfold copyPowers
    rw [octetAt_some (hexp (i - N) (by omega)), hnew]
    show (setAt gfExp i (powers i) >>= _) = _
    rw [setAt_ok (by omega)]
    exact hrun

/-! ## The field through the tables -/

/-- The tables hold the powers and their exponents. -/
structure Tabled (C : Cycle m) (rs : RSBase) : Prop where
  bits_le : m ≤ 8
  period_eq : C.period = 2 ^ m - 1
  max : rs.maxSymbol = C.period
  one : sym (1 : C.Element) = 1
  exp : ∀ k < (C.period + 1) * 2, rs.gfExp[k]? = some (sym (power C k))
  log : ∀ k < C.period, rs.gfLog[(sym (power C k)).toNat]? = some (.ofNat k)

/-- **The constructor fills the tables.** -/
theorem loadTables_tabled {p : RSParams} (hbits : 1 < p.bitsPerSymbol) (hbits_le : p.bitsPerSymbol ≤ 8)
    (h : Primitive p.bitsPerSymbol p.primitivePoly) :
    ∃ rs, loadTables p = .ok rs ∧ rs.toRSParams = p ∧ Tabled (h.cycle hbits) rs := by
  have hm : 0 < p.bitsPerSymbol := by omega
  have hmax := maxSymbol_eq hbits_le
  have hfour : 4 ≤ 2 ^ p.bitsPerSymbol := Nat.pow_le_pow_right (n := 2) (by decide) hbits
  have hpow : ∀ k, (.ofNat ((timesX p.bitsPerSymbol p.primitivePoly)^[k] 1) : Sym) =
      sym (power (h.cycle hbits) k) := by
    intro k
    exact congrArg UInt8.ofNat (h.toNat_iterate hm k).symm
  have hnat : ∀ k, (sym (power (h.cycle hbits) k)).toNat =
      (timesX p.bitsPerSymbol p.primitivePoly)^[k] 1 := by
    intro k
    rw [toNat_sym hbits_le]
    exact h.toNat_iterate hm k
  have hturns : 2 ^ p.bitsPerSymbol - 1 - 1 + (0 + 1) = 2 ^ p.bitsPerSymbol - 1 := by omega
  obtain ⟨gfExp, gfLog, hload, hl⟩ := loadPowers_ok h hm hturns (loading_start hm)
  rw [Nat.zero_add, Function.iterate_zero_apply] at hload
  have hperiod : ∀ k, sym (power (h.cycle hbits) (k + (2 ^ p.bitsPerSymbol - 1))) =
      sym (power (h.cycle hbits) k) := by
    intro k
    exact congrArg sym (Cycle.Element.ext (shift_add_period k))
  have hexp : ∀ k < 2 ^ p.bitsPerSymbol - 1 + 1, gfExp[k]? = some (sym (power (h.cycle hbits) k)) := by
    intro k hk
    by_cases hlt : k < 2 ^ p.bitsPerSymbol - 1
    · rw [hl.exp k hlt, hpow]
    · -- the entry of the period is still the one that the table began with
      obtain rfl : k = 2 ^ p.bitsPerSymbol - 1 := by omega
      have hzero := hperiod 0
      rw [Nat.zero_add, ← hpow 0] at hzero
      rw [hl.rest _ (le_refl _) (by omega), hzero]
      rfl
  obtain ⟨gfExp', hcopy, hexp'⟩ := copyPowers_ok hperiod (by omega)
    (show gfExp.length = (2 ^ p.bitsPerSymbol - 1 + 1) + (2 ^ p.bitsPerSymbol - 1 + 1) by
      rw [hl.exp_length]; omega) (by omega) hexp
  refine ⟨{ p with
    gfExp := gfExp', gfLog := gfLog.set 0 (.ofNat (2 ^ p.bitsPerSymbol - 1)),
    talTab := loadTal, talTabInv := loadTalInv }, ?_, rfl, ?_⟩
  · unfold loadTables
    simp only [hmax]
    rw [hload]
    show (setAt gfLog 0 _ >>= _) = _
    rw [setAt_ok (by rw [hl.log_length]; omega)]
    show (copyPowers _ _ _ gfExp >>= _) = _
    rw [hcopy]
    rfl
  · refine ⟨hbits_le, rfl, hmax, (hpow 0).symm, fun k hk => hexp' k ?_, fun k hk => ?_⟩
    · have hk' : k < (2 ^ p.bitsPerSymbol - 1 + 1) * 2 := hk
      omega
    · have hne : (sym (power (h.cycle hbits) k)).toNat ≠ 0 := by
        rw [hnat]
        exact h.iterate_ne_zero hk
      show (gfLog.set 0 _)[_]? = _
      rw [List.getElem?_set, if_neg hne.symm, hnat]
      exact hl.log k hk

theorem loadTables_ok {p : RSParams} (h : p.Admissible) :
    ∃ rs, loadTables p = .ok rs ∧ rs.toRSParams = p ∧ Tabled h.cycle rs :=
  loadTables_tabled h.bits h.bits_le h.primitive

theorem new_eq {p : RSParams} (h : p.Admissible) : RSBase.new p = loadTables p := by
  have hdepth := h.depth_pos
  unfold RSBase.new
  rw [if_neg (Nat.not_lt.2 h.bits_le), if_neg (by omega)]

/-- **What the constructor makes** of admissible parameters. -/
theorem new_ok {p : RSParams} (h : p.Admissible) :
    ∃ rs, RSBase.new p = .ok rs ∧ rs.toRSParams = p ∧ Tabled h.cycle rs := by
  rw [new_eq h]
  exact loadTables_ok h

theorem tabled_of_new {p : RSParams} (h : p.Admissible) {rs : RSBase} (hrs : RSBase.new p = .ok rs) :
    rs.toRSParams = p ∧ Tabled h.cycle rs := by
  obtain ⟨rs', hrs', hp, ht⟩ := new_ok h
  obtain rfl := Except.ok.inj (hrs.symm.trans hrs')
  exact ⟨hp, ht⟩

namespace Tabled

variable {C : Cycle m} {rs : RSBase}

theorem toNat_log (h : Tabled C rs) {k : ℕ} (hk : k < C.period) : (UInt8.ofNat k).toNat = k := by
  refine Nat.mod_eq_of_lt ?_
  have hle : 2 ^ m ≤ 2 ^ 8 := Nat.pow_le_pow_right (by decide) h.bits_le
  have hperiod := h.period_eq
  omega

/-- **Products through the tables.** -/
theorem gfMul_ok (h : Tabled C rs) (x y : C.Element) : rs.gfMul (sym x) (sym y) = .ok (sym (x * y)) := by
  unfold RSBase.gfMul
  by_cases hzero : sym x = 0 ∨ sym y = 0
  · rw [if_pos hzero, sym_eq_zero h.bits_le, sym_eq_zero h.bits_le] at *
    rw [mul_eq_zero.2 hzero, sym_zero]
  · rw [if_neg hzero]
    rw [sym_eq_zero h.bits_le, sym_eq_zero h.bits_le, not_or] at hzero
    obtain ⟨j, hj, rfl⟩ := exists_power hzero.1
    obtain ⟨k, hk, rfl⟩ := exists_power hzero.2
    rw [octetAt_some (h.log j hj), octetAt_some (h.log k hk), power_mul_power]
    show octetAt rs.gfExp _ = _
    rw [h.toNat_log hj, h.toNat_log hk]
    exact octetAt_some (h.exp (j + k) (by omega))

/-- **Quotients through the tables.** -/
theorem gfDiv_ok (h : Tabled C rs) (x : C.Element) {y : C.Element} (hy : y ≠ 0) :
    rs.gfDiv (sym x) (sym y) = .ok (sym (x / y)) := by
  unfold RSBase.gfDiv
  rw [if_neg (mt (sym_eq_zero h.bits_le).1 hy)]
  by_cases hx : x = 0
  · rw [if_pos ((sym_eq_zero h.bits_le).2 hx), hx, zero_div, sym_zero]
  · rw [if_neg (mt (sym_eq_zero h.bits_le).1 hx)]
    obtain ⟨j, hj, rfl⟩ := exists_power hx
    obtain ⟨k, hk, rfl⟩ := exists_power hy
    have hdiv : power C j / power C k = power C (j + C.period - k) := by
      rw [div_eq_iff (power_ne_zero k), power_mul_power, Nat.sub_add_cancel (by omega),
        ← power_mul_power j C.period, power_period, mul_one]
    rw [octetAt_some (h.log j hj), octetAt_some (h.log k hk), hdiv]
    show octetAt rs.gfExp _ = _
    rw [h.toNat_log hj, h.toNat_log hk, h.max]
    exact octetAt_some (h.exp (j + C.period - k) (by omega))

/-- A root of the code's generator, by its exponent. -/
theorem root_ok (h : Tabled C rs) (e : ℕ) :
    rs.root e = .ok (sym (power C (rs.primitiveRootIdx.toNat * e))) := by
  unfold RSBase.root
  rw [h.max, ← power_mod]
  have hlt := Nat.mod_lt (rs.primitiveRootIdx.toNat * e) C.period_pos
  exact octetAt_some (h.exp _ (by omega))

end Tabled

end ChannelEmulator.ReedSolomon
