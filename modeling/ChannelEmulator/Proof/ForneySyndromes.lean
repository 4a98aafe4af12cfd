import ChannelEmulator.Coding.Weights
import ChannelEmulator.Proof.WordRestoration

/-!
# Erased symbols

The symbols that are out of range, and what `correctOneWord_` does about them.

* `forneySyndromes_ok`: **the syndromes are turned once for each erased position**, which weighs the errors.
* `correctErrata_distinct`: no position may be corrected twice.
* `correctOneWord_erased`: `correctOneWord_` of a word with erased symbols.
-/

namespace ChannelEmulator.ReedSolomon

open Coding Coding.Cycle.Element Polynomial

/-- The positions of the symbols that are out of range. -/
def RSBase.erased (rs : RSBase) (msg : SymVec) : List ℕ :=
  (List.range msg.length).filter fun i => rs.maxSymbol < (msg.getD i 0).toNat

/-- The word with zeros there. -/
def RSBase.zeroed (rs : RSBase) (msg : SymVec) : SymVec := msg.map fun s => if rs.maxSymbol < s.toNat then 0 else s

variable {m : ℕ} {C : Cycle m} {rs : RSBase}

theorem erasuresFrom_eq (i : ℕ) (msg : SymVec) :
    rs.erasuresFrom i msg = (rs.zeroed msg, (rs.erased msg).map fun k => .ofNat (i + k)) := by
  induction msg generalizing i with
  | nil => rfl
  | cons s msg ih =>
    have herased : rs.erased (s :: msg) =
        (if rs.maxSymbol < s.toNat then [0] else []) ++ (rs.erased msg).map (· + 1) := by
      unfold RSBase.erased
      rw [List.length_cons, List.range_succ_eq_map, List.filter_cons, List.filter_map]
      simp only [List.getD_cons_zero, decide_eq_true_eq]
      split
      · rfl
      · rfl
    have hzeroed : rs.zeroed (s :: msg) = (if rs.maxSymbol < s.toNat then 0 else s) :: rs.zeroed msg := rfl
    have hshift : ((rs.erased msg).map (· + 1)).map (fun k => UInt8.ofNat (i + k)) =
        (rs.erased msg).map fun k => .ofNat (i + 1 + k) := by
      rw [List.map_map]
      refine List.map_congr_left fun k _ => ?_
      show UInt8.ofNat (i + (k + 1)) = _
      rw [Nat.add_comm k, Nat.add_assoc]
    unfold RSBase.erasuresFrom
    rw [ih (i + 1), herased, hzeroed, List.map_append, hshift]
    show (if _ then _ else _) = _
    split
    · rfl
    · rfl

theorem mem_erased {msg : SymVec} {i : ℕ} :
    i ∈ rs.erased msg ↔ ∃ s, msg[i]? = some s ∧ rs.maxSymbol < s.toNat := by
  unfold RSBase.erased
  rw [List.mem_filter, List.mem_range, decide_eq_true_eq]
  constructor
  · rintro ⟨hi, hlt⟩
    rw [List.getD_eq_getElem?_getD, List.getElem?_eq_getElem hi] at hlt
    exact ⟨_, List.getElem?_eq_getElem hi, hlt⟩
  · rintro ⟨s, hs, hlt⟩
    refine ⟨(List.getElem?_eq_some_iff.1 hs).1, ?_⟩
    rwa [List.getD_eq_getElem?_getD, hs]

theorem erased_lt {msg : SymVec} {i : ℕ} (hi : i ∈ rs.erased msg) : i < msg.length :=
  List.mem_range.1 (List.mem_filter.1 hi).1

theorem nodup_erased (msg : SymVec) : (rs.erased msg).Nodup := List.nodup_range.filter _

/-! ## Turned syndromes -/

theorem word_succ (n : ℕ) (w : ℕ → C.Element) : word (n + 1) w = w 0 :: word n fun i => w (i + 1) := by
  unfold word
  rw [List.range_succ_eq_map, List.map_cons, List.map_map]
  rfl

/-- One turn. -/
theorem Tabled.forneyTurn_ok (h : Tabled C rs) (z : C.Element) (n : ℕ) (w : ℕ → C.Element) :
    rs.forneyTurn (sym z) ((word (n + 1) w).map sym) = .ok ((word n fun j => w j * z + w (j + 1)).map sym) := by
  induction n generalizing w with
  | zero => rfl
  | succ n ih =>
    have hrest := ih fun i => w (i + 1)
    rw [word_succ, List.map_cons] at hrest
    rw [word_succ, word_succ, List.map_cons, List.map_cons, RSBase.forneyTurn, h.gfMul_ok, Framing.ok_bind, hrest,
      Framing.ok_bind, word_succ n fun j => w j * z + w (j + 1), List.map_cons, sym_add]
    rfl

/-- What an error is weighed with: the sums of its point and the powers that the erased positions are looked up
under. -/
noncomputable def turnWeight (C : Cycle m) (n : ℕ) (erased : List ℕ) (x : C.Element) : C.Element :=
  (erased.map fun k => power C (n - 1 - k) + x).prod

/-- **The syndromes are turned once for each erased position.** -/
theorem Tabled.forneySyndromes_ok (h : Tabled C rs) {n : ℕ} (hn : n ≤ C.period) {erased : List ℕ}
    (hlt : ∀ k ∈ erased, k < n) {N : ℕ} (hN : erased.length ≤ N) (s : Finset ℕ) (x y : ℕ → C.Element) (b : ℕ) :
    rs.forneySyndromes n (erased.map UInt8.ofNat) ((word N (powerSum s x y b)).map sym) =
      .ok ((word (N - erased.length)
        (powerSum s x (fun i => y i * turnWeight C n erased (x i)) b)).map sym) := by
  induction erased generalizing N y with
  | nil =>
    simp only [turnWeight, List.map_nil, List.prod_nil, mul_one]
    rfl
  | cons k erased ih =>
    have hk := hlt k List.mem_cons_self
    obtain ⟨N, rfl⟩ := Nat.exists_eq_succ_of_ne_zero (show N ≠ 0 by rw [List.length_cons] at hN; omega)
    rw [List.length_cons] at hN
    have hlookup : octetAt rs.gfExp (n - 1 - (UInt8.ofNat k).toNat) = .ok (sym (power C (n - 1 - k))) := by
      rw [h.toNat_log (show k < C.period by omega)]
      exact octetAt_some (h.exp _ (by omega))
    have hturned : (word N fun j => powerSum s x y b j * power C (n - 1 - k) + powerSum s x y b (j + 1)) =
        word N (powerSum s x (fun i => y i * (power C (n - 1 - k) + x i)) b) :=
      word_congr.2 fun j _ => powerSum_turn s x y b j _
    rw [List.map_cons, RSBase.forneySyndromes, hlookup, Framing.ok_bind, Nat.succ_eq_add_one, h.forneyTurn_ok,
      Framing.ok_bind, hturned, ih (fun j hj => hlt j (List.mem_cons_of_mem k hj)) (by omega), List.length_cons,
      Nat.add_sub_add_right]
    simp only [turnWeight, List.map_cons, List.prod_cons, mul_assoc]

/-! ## Positions that are corrected twice -/

/-- Where the correction succeeds, the derivative of the locator is not zero. -/
theorem correctFrom_derivative (h : Tabled C rs) {n : ℕ} (hn : n ≤ C.period) {p q : List C.Element} (hp : p ≠ [])
    (hq : q ≠ []) {pos : SymVec} (hlt : ∀ i ∈ pos, i.toNat < n) {w : ℕ → C.Element} {out : SymVec}
    (hrun : rs.correctFrom (p.map sym) (q.map sym) pos ((word n w).map sym) = .ok out) :
    ∀ i ∈ pos, (ofCoeffs q).eval ((point rs C n i.toNat)⁻¹ * (point rs C n i.toNat)⁻¹) ≠ 0 := by
  induction pos generalizing w with
  | nil => exact fun i hi => absurd hi List.not_mem_nil
  | cons a pos ih =>
    have ha := hlt a List.mem_cons_self
    rw [RSBase.correctFrom, List.length_map, length_word, h.root_eq, point_inv h ha hn, Framing.ok_bind,
      h.gfPolyEval_ok hp, Framing.ok_bind, h.gfMul_ok, Framing.ok_bind, h.gfPolyEval_ok hq, Framing.ok_bind,
      h.gfMul_ok, Framing.ok_bind] at hrun
    obtain ⟨d, hd, hrun⟩ := Framing.bind_ok hrun
    by_cases hzero : (ofCoeffs q).eval ((point rs C n a.toNat)⁻¹ * (point rs C n a.toNat)⁻¹) = 0
    · rw [hzero, mul_zero] at hd
      unfold RSBase.gfDiv at hd
      rw [if_pos sym_zero] at hd
      cases hd
    · have hx : (point rs C n a.toNat)⁻¹ ≠ 0 := inv_ne_zero (rootPower_ne_zero _)
      obtain rfl := Except.ok.inj ((h.gfDiv_ok _ (mul_ne_zero hx hzero)).symm.trans hd)
      rw [h.root_eq, Framing.ok_bind, h.gfMul_ok, Framing.ok_bind, xorAt_map (word_getElem? ha w), word_set,
        Framing.ok_bind] at hrun
      intro i hi
      rcases List.mem_cons.1 hi with rfl | hi
      · exact hzero
      · exact ih (fun i hi => hlt i (List.mem_cons_of_mem a hi)) hrun i hi

/-- The derivative of a product is zero at the zero of a factor that is in it twice. -/
theorem eval_derivative_of_sq_dvd {K : Type} [Field K] {f q : K[X]} {z : K} (hdvd : f * f ∣ q) (hz : f.eval z = 0) :
    (derivative q).eval z = 0 := by
  obtain ⟨g, rfl⟩ := hdvd
  rw [mul_assoc, derivative_mul, eval_add, eval_mul, eval_mul, eval_mul, hz, zero_mul, mul_zero, zero_add,
    derivative_mul, eval_add, eval_mul, eval_mul, hz, zero_mul]

/-- **No position may be corrected twice.** -/
theorem correctErrata_distinct (h : Tabled C rs) {n : ℕ} (hn : n ≤ C.period) {pos : SymVec}
    (hlt : ∀ i ∈ pos, i.toNat < n) {k : ℕ} {w synd : ℕ → C.Element} {out : SymVec}
    (hrun : rs.correctErrata ((word n w).map sym) ((word k synd).map sym) pos = .ok out) : pos.Nodup := by
  by_cases hnil : pos = []
  · rw [hnil]
    exact List.nodup_nil
  have hpos : 0 < pos.length := List.length_pos_iff.2 hnil
  obtain ⟨q, hq, hqlen, hqpoly⟩ := locatorFrom_ok h n pos [1]
  rw [ofCoeffs_singleton, map_one, one_mul] at hqpoly
  rw [List.length_singleton] at hqlen
  have hone : List.map sym [(1 : C.Element)] = [1] := congrArg (fun s => [s]) h.one
  rw [hone] at hq
  unfold RSBase.correctErrata at hrun
  rw [List.length_map, length_word, hq, Framing.ok_bind, List.length_map, length_word] at hrun
  by_cases hshort : k < pos.length
  · rw [if_pos hshort] at hrun
    cases hrun
  obtain ⟨p, hp, hplen, -⟩ := h.gfPolyMul_ok (p := (word pos.length synd).reverse) (q := q) (by omega)
  rw [List.length_reverse, length_word, hqlen] at hplen
  obtain ⟨d, hd, hdne, hdeval⟩ := derivative_map (q := q) (by omega)
  rw [if_neg hshort, ← List.map_take, word_take (Nat.le_of_not_lt hshort), ← List.map_reverse, hp, Framing.ok_bind,
    List.length_map, ← List.map_drop, hd] at hrun
  have hne : p.drop (p.length - pos.length) ≠ [] := by
    intro hempty
    have hzero := congrArg List.length hempty
    rw [List.length_drop, List.length_nil] at hzero
    omega
  have hderivative := correctFrom_derivative h hn hne hdne hlt hrun
  rw [List.nodup_iff_sublist]
  intro a hsub
  refine hderivative a (hsub.subset List.mem_cons_self) ?_
  rw [hdeval, hqpoly]
  have hsub' := (hsub.map UInt8.toNat).map fun i => 1 - Polynomial.C (point rs C n i) * X
  have hdvd := hsub'.prod_dvd_prod
  rw [List.map_cons, List.map_cons, List.map_cons, List.map_cons, List.map_nil, List.map_nil, List.prod_cons,
    List.prod_singleton] at hdvd
  refine eval_derivative_of_sq_dvd hdvd ?_
  have hx : point rs C n a.toNat ≠ 0 := rootPower_ne_zero _
  rw [eval_sub, eval_one, eval_mul, eval_C, eval_X, mul_inv_cancel₀ hx, sub_self]

/-! ## Words with erased symbols -/

theorem length_zeroed (msg : SymVec) : (rs.zeroed msg).length = msg.length := List.length_map ..

theorem length_of_zeroed {n : ℕ} {msg : SymVec} {w : ℕ → C.Element} (hw : rs.zeroed msg = (word n w).map sym) :
    msg.length = n := by
  have hlen := congrArg List.length hw
  rwa [length_zeroed, List.length_map, length_word] at hlen

theorem zeroed_le (msg : SymVec) : ∀ s ∈ rs.zeroed msg, s.toNat ≤ rs.maxSymbol := by
  intro s hs
  obtain ⟨t, -, rfl⟩ := List.mem_map.1 hs
  by_cases hlt : rs.maxSymbol < t.toNat
  · rw [if_pos hlt]
    exact Nat.zero_le _
  · rw [if_neg hlt]
    exact Nat.le_of_not_lt hlt

theorem zeroed_getElem? {msg : SymVec} {i : ℕ} (hi : i ∉ rs.erased msg) : (rs.zeroed msg)[i]? = msg[i]? := by
  unfold RSBase.zeroed
  rw [List.getElem?_map]
  cases hs : msg[i]? with
  | none => rfl
  | some s => exact congrArg some (if_neg fun hlt => hi (mem_erased.2 ⟨s, hs, hlt⟩))

/-- `correctOneWord_` of a word that is not erased too often. -/
theorem correctOneWord_erased (h : Tabled C rs) (hpos : 0 < rs.codeLength) {msg : SymVec} {w : ℕ → C.Element}
    (hw : rs.zeroed msg = (word rs.codeLength w).map sym) (hfew : (rs.erased msg).length ≤ rs.parityLength) :
    rs.correctOneWord msg =
      if (((word rs.parityLength (syndrome rs rs.codeLength w)).map sym).map UInt8.toNat).sum = 0 then
        .ok ((word rs.codeLength w).map sym, 0)
      else
        rs.forneySyndromes rs.codeLength ((rs.erased msg).map UInt8.ofNat)
          ((word rs.parityLength (syndrome rs rs.codeLength w)).map sym) >>= fun fsynd =>
          rs.findErrors fsynd rs.codeLength >>= fun errPos =>
          rs.correctErrata ((word rs.codeLength w).map sym)
            ((word rs.parityLength (syndrome rs rs.codeLength w)).map sym)
            ((rs.erased msg).map UInt8.ofNat ++ errPos) >>= fun msgOut => rs.calcSyndromes msgOut >>= fun synd =>
          if synd.any (0 < ·) then .error (.logicError "Non-zero syndromes after error correction.")
          else .ok (msgOut, ((rs.erased msg).map UInt8.ofNat ++ errPos).length) := by
  have hlen := length_of_zeroed hw
  have hout : ((word rs.codeLength w).map sym).length = rs.codeLength := by
    rw [List.length_map, length_word]
  have herase : rs.erasuresFrom 0 msg = ((word rs.codeLength w).map sym, (rs.erased msg).map UInt8.ofNat) := by
    rw [erasuresFrom_eq, hw]
    simp only [Nat.zero_add]
  unfold RSBase.correctOneWord
  rw [if_neg (not_not.2 hlen), herase]
  show (if rs.parityLength < ((rs.erased msg).map UInt8.ofNat).length then _ else _) = _
  rw [if_neg (by rw [List.length_map]; omega), calcSyndromes_word h hpos, hout]
  rfl

end ChannelEmulator.ReedSolomon
