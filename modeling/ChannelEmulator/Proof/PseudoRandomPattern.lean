import ChannelEmulator.Coding.FullPeriod
import ChannelEmulator.Proof.PatternBuffers
import Mathlib.Tactic.IntervalCases
import Mathlib.Tactic.NormNum.Prime

/-!
# The pseudo-random pattern

* `getWordBit_ok`, `setWordBit_ok`, `word2Long_ok`: the words of a pattern are fields of its bits.
* `genWordLsh_ok`, `genWords_ok`: **each word is the one before it, as a register with taps shifts it.**
* `fullPeriod_taps`: the taps of the source give the full period.
* `maximal_period_iff`: **the words go through all numbers but zero**, but for 19 bits, where there are
  no taps, and for 2 bits, where all words but the first are fixed, from other seeds than 1.
-/

namespace ChannelEmulator.BitPattern

open Coding

variable {p : BitPattern} {w b : ℕ}

/-! ## Words -/

/-- A bit of a word. -/
def bit (p : BitPattern) (w b : ℕ) : Bool := bitAt p.pattern ((w + 1) * p.wordBits - b - 1)

/-- The word is inside the pattern. -/
def Inside (p : BitPattern) (w : ℕ) : Prop := (w + 1) * p.wordBits ≤ 8 * p.pattern.length

/-- Another pattern has words at the same places. -/
def SameSize (p p' : BitPattern) : Prop := p'.wordBits = p.wordBits ∧ p'.pattern.length = p.pattern.length

theorem SameSize.refl (p : BitPattern) : SameSize p p := ⟨rfl, rfl⟩

theorem SameSize.trans {p q r : BitPattern} (h : SameSize p q) (h' : SameSize q r) : SameSize p r :=
  ⟨h'.1.trans h.1, h'.2.trans h.2⟩

theorem SameSize.inside {p' : BitPattern} (h : SameSize p p') (hw : p.Inside w) : p'.Inside w := by
  unfold Inside
  rw [h.1, h.2]
  exact hw

/-- Bits of words are at different places. -/
theorem place_inj {n w w' b b' : ℕ} (hb : b < n) (hb' : b' < n)
    (h : (w + 1) * n - b - 1 = (w' + 1) * n - b' - 1) : w = w' ∧ b = b' := by
  have hplace : ∀ w b, b < n → (w + 1) * n - b - 1 = n - 1 - b + w * n := by
    intro w b hb
    rw [Nat.succ_mul]
    omega
  have hword : ∀ w b, b < n → (n - 1 - b + w * n) / n = w := by
    intro w b hb
    rw [Nat.add_mul_div_right _ _ (by omega), Nat.div_eq_of_lt (by omega), Nat.zero_add]
  rw [hplace w b hb, hplace w' b' hb'] at h
  have hw : w = w' := by rw [← hword w b hb, h, hword w' b' hb']
  subst hw
  exact ⟨rfl, by omega⟩

theorem wordBitNum_ok (hw : p.Inside w) (hb : b < p.wordBits) (name : String) :
    p.wordBitNum name w b = .ok ((w + 1) * p.wordBits - b - 1) ∧
      (w + 1) * p.wordBits - b - 1 < 8 * p.pattern.length := by
  unfold Inside at hw
  have hmul : (w + 1) * p.wordBits = w * p.wordBits + p.wordBits := Nat.succ_mul _ _
  refine ⟨?_, by omega⟩
  unfold wordBitNum
  rw [if_neg (by omega), if_neg (by omega)]

theorem getWordBit_ok (hw : p.Inside w) (hb : b < p.wordBits) : p.getWordBit w b = .ok (p.bit w b) := by
  obtain ⟨hnum, hlt⟩ := wordBitNum_ok hw hb "BitPattern::getWordBit"
  have hmask : ∀ j < 8, (bitMask.getD j 0).toNat = 2 ^ j := by decide
  unfold getWordBit bit
  rw [hnum, Framing.ok_bind]
  generalize (w + 1) * p.wordBits - b - 1 = i at hlt
  rw [octetAt_of_getElem? (getElem?_of_lt (show i / 8 < p.pattern.length by omega)), Framing.ok_bind,
    bitAt_of_getElem? (getElem?_of_lt (show i / 8 < p.pattern.length by omega))]
  refine congrArg Except.ok ?_
  have hand : (p.pattern.getD (i / 8) 0 &&& bitMask.getD (7 - i % 8) 0).toNat =
      ((p.pattern.getD (i / 8) 0).toNat.testBit (7 - i % 8)).toNat * 2 ^ (7 - i % 8) := by
    rw [UInt8.toNat_and, hmask _ (by omega), Nat.and_two_pow]
  have hpos := Nat.two_pow_pos (7 - i % 8)
  cases hbit : (p.pattern.getD (i / 8) 0).toNat.testBit (7 - i % 8) with
  | false =>
    rw [hbit, Bool.toNat_false, Nat.zero_mul] at hand
    exact decide_eq_false (not_not.2 (UInt8.toNat_inj.1 hand))
  | true =>
    rw [hbit, Bool.toNat_true, Nat.one_mul] at hand
    refine decide_eq_true fun h => ?_
    rw [h, UInt8.toNat_zero] at hand
    omega

/-- The octet with one bit set, through the tables of masks. -/
theorem masked_octet (old : Octet) (val : Bool) {j : ℕ} (hj : j < 8) :
    (old &&& invBitMask.getD j 0) ||| UInt8.ofNat (val.toNat <<< j) =
      UInt8.ofNat ((old.toNat &&& (0xff - (1 <<< j))) ||| (val.toNat <<< j)) := by
  have hinv : ∀ j < 8, (invBitMask.getD j 0).toNat = 0xff - (1 <<< j) := by decide
  have hall : ∀ v : Bool, ∀ j < 8, v.toNat <<< j < 2 ^ 8 := by decide
  have hkept : (old.toNat &&& (0xff - (1 <<< j))) < 2 ^ 8 := Nat.and_lt_two_pow _
    (Nat.lt_of_le_of_lt (Nat.sub_le _ _) (by decide))
  refine UInt8.toNat_inj.1 ?_
  rw [UInt8.toNat_or, UInt8.toNat_and, hinv j hj, UInt8.toNat_ofNat', UInt8.toNat_ofNat',
    Nat.mod_eq_of_lt (hall val j hj), Nat.mod_eq_of_lt (Nat.or_lt_two_pow hkept (hall val j hj))]

/-- One bit of octets in a row is set. -/
theorem bitAt_set_bit {u : Bytes} {i : ℕ} (hi : i / 8 < u.length) (val : Bool) (k : ℕ) :
    bitAt (u.set (i / 8) (.ofNat (((u.getD (i / 8) 0).toNat &&& (0xff - (1 <<< (7 - i % 8)))) |||
      (val.toNat <<< (7 - i % 8))))) k = if k = i then val else bitAt u k := by
  rw [bitAt_set hi]
  by_cases hdiv : k / 8 = i / 8
  · have hold : bitAt u k = (u.getD (i / 8) 0).toNat.testBit (7 - k % 8) :=
      bitAt_of_getElem? (by rw [hdiv]; exact getElem?_of_lt hi)
    rw [if_pos hdiv, testBit_set_bit _ _ (by omega) (by omega), hold]
    by_cases hki : k = i
    · rw [if_pos hki, if_pos (by rw [hki])]
    · rw [if_neg hki, if_neg (by omega)]
  · rw [if_neg hdiv, if_neg (fun h => hdiv (by rw [h]))]

theorem setWordBit_ok (hw : p.Inside w) (hb : b < p.wordBits) (val : Bool) :
    ∃ p', p.setWordBit w b val = .ok p' ∧ SameSize p p' ∧
      ∀ w' b', b' < p.wordBits → p'.bit w' b' = if w' = w ∧ b' = b then val else p.bit w' b' := by
  obtain ⟨hnum, hlt⟩ := wordBitNum_ok hw hb "BitPattern::setWordBit"
  have hsame : ∀ w' b', b' < p.wordBits →
      ((w' + 1) * p.wordBits - b' - 1 = (w + 1) * p.wordBits - b - 1 ↔ w' = w ∧ b' = b) :=
    fun w' b' hb' => ⟨place_inj hb' hb, fun h => by rw [h.1, h.2]⟩
  generalize (w + 1) * p.wordBits - b - 1 = i at hnum hlt hsame
  have hdiv : i / 8 < p.pattern.length := by omega
  refine ⟨{ p with pattern := p.pattern.set (i / 8) (.ofNat (((p.pattern.getD (i / 8) 0).toNat &&&
    (0xff - (1 <<< (7 - i % 8)))) ||| (val.toNat <<< (7 - i % 8)))) }, ?_, ⟨rfl, List.length_set⟩,
    fun w' b' hb' => ?_⟩
  · unfold setWordBit
    rw [hnum, Framing.ok_bind, octetAt_of_getElem? (getElem?_of_lt hdiv), Framing.ok_bind, storeAt_one hdiv,
      masked_octet _ _ (show 7 - i % 8 < 8 by omega)]
    rfl
  · refine (bitAt_set_bit hdiv val _).trans ?_
    simp only [hsame w' b' hb']
    rfl

/-- The loop of `copySubWord` for a left shift by one bit. -/
theorem copySubWordFrom_ok {src dst : ℕ} (hne : src ≠ dst) (len : ℕ) {x : ℕ} {p : BitPattern}
    (hsrc : p.Inside src) (hdst : p.Inside dst) (hlen : x + len < p.wordBits) :
    ∃ p', copySubWordFrom src 0 dst 1 len x p = .ok p' ∧ SameSize p p' ∧
      ∀ w b, b < p.wordBits → p'.bit w b =
        if w = dst ∧ x + 1 ≤ b ∧ b < x + 1 + len then p.bit src (b - 1) else p.bit w b := by
  induction len generalizing x p with
  | zero => exact ⟨p, rfl, SameSize.refl p, fun w b _ => (if_neg (by omega)).symm⟩
  | succ len ih =>
    obtain ⟨mid, hset, hsame, hmid⟩ := setWordBit_ok hdst (show 1 + x < p.wordBits by omega) (p.bit src (0 + x))
    obtain ⟨p', hrun, hsame', hp'⟩ := ih (x := x + 1) (p := mid) (hsame.inside hsrc) (hsame.inside hdst)
      (by rw [hsame.1]; omega)
    refine ⟨p', ?_, hsame.trans hsame', fun w b hb => ?_⟩
    · unfold copySubWordFrom
      rw [if_pos (by omega), getWordBit_ok hsrc (show 0 + x < p.wordBits by omega), Framing.ok_bind, hset]
      exact hrun
    · rw [hsame.1] at hp'
      rw [hp' w b hb]
      by_cases hin : w = dst ∧ x + 1 ≤ b ∧ b < x + 1 + (len + 1)
      · obtain ⟨rfl, hge, hlt⟩ := hin
        rw [if_pos (show w = w ∧ x + 1 ≤ b ∧ b < x + 1 + (len + 1) from ⟨rfl, hge, hlt⟩)]
        by_cases hfirst : b = 1 + x
        · rw [if_neg (by omega), hmid w b hb, if_pos ⟨rfl, hfirst⟩, show 0 + x = b - 1 by omega]
        · rw [if_pos (by omega), hmid src (b - 1) (by omega), if_neg (fun h => hne h.1)]
      · rw [if_neg hin, if_neg (by omega), hmid w b hb, if_neg (by omega)]

/-- The word holds a number. -/
def WordIs (p : BitPattern) (w v : ℕ) : Prop := ∀ b < p.wordBits, p.bit w b = v.testBit b

theorem xorTaps_ok (hw : p.Inside w) {v : ℕ} (hv : p.WordIs w v) {taps : List ℕ}
    (htaps : ∀ t ∈ taps, t < p.wordBits) (i : Bool) : p.xorTaps w taps i = .ok (i ^^ parity taps v) := by
  induction taps generalizing i with
  | nil => exact congrArg Except.ok (Bool.xor_false i).symm
  | cons t taps ih =>
    have ht := htaps t List.mem_cons_self
    unfold xorTaps parity
    rw [getWordBit_ok hw ht, Framing.ok_bind, ih (fun s hs => htaps s (List.mem_cons_of_mem t hs)), hv t ht,
      Bool.xor_assoc]

/-- **The generation of a word** is a shift of the register with its highest bit as a tap of its own. -/
theorem genWordLsh_ok (hw : p.Inside w) (hw' : p.Inside (w + 1)) (h0 : 0 < p.wordBits) {v : ℕ} (hv : p.WordIs w v)
    {taps : List ℕ} (htaps : ∀ t ∈ taps, t < p.wordBits) :
    ∃ p', p.genWordLsh (w + 1) taps = .ok p' ∧ SameSize p p' ∧
      p'.WordIs (w + 1) (shiftWithTaps p.wordBits ((p.wordBits - 1) :: taps) v) ∧
      ∀ w', w' ≠ w + 1 → ∀ b < p.wordBits, p'.bit w' b = p.bit w' b := by
  obtain ⟨mid, hcopy, hsame, hmid⟩ := copySubWordFrom_ok (Nat.ne_of_lt (Nat.lt_succ_self w)) (p.wordBits - 1)
    (x := 0) hw hw' (by omega)
  have hvmid : mid.WordIs w v := by
    intro b hb
    rw [hsame.1] at hb
    rw [hmid w b hb, if_neg (by omega), hv b hb]
  have hmidw := hsame.inside hw
  have htop : p.wordBits - 1 < mid.wordBits := by rw [hsame.1]; omega
  obtain ⟨p', hset, hsame', hp'⟩ := setWordBit_ok (hsame.inside hw')
    (show 0 < mid.wordBits by rw [hsame.1]; exact h0) (mid.bit w (p.wordBits - 1) ^^ parity taps v)
  rw [hsame.1] at hp'
  refine ⟨p', ?_, hsame.trans hsame', fun b hb => ?_, fun w' hne b hb => ?_⟩
  · unfold genWordLsh copySubWord
    rw [Nat.add_sub_cancel, hcopy, Framing.ok_bind]
    rw [hsame.1, getWordBit_ok hmidw htop, Framing.ok_bind,
      xorTaps_ok hmidw hvmid (fun t ht => by rw [hsame.1]; exact htaps t ht), Framing.ok_bind]
    exact hset
  · rw [(hsame.trans hsame').1] at hb
    rw [hp' _ b hb]
    cases b with
    | zero =>
      rw [if_pos ⟨rfl, rfl⟩, testBit_shiftWithTaps_zero h0, hvmid _ htop]
      rfl
    | succ b =>
      rw [if_neg (by omega), hmid _ _ hb, if_pos (by omega), testBit_shiftWithTaps_succ hb, Nat.add_sub_cancel,
        hv b (by omega)]
  · rw [hp' w' b hb, if_neg (fun h => hne h.1), hmid w' b hb, if_neg (fun h => hne h.1)]

/-- **The words one after the other.** -/
theorem genWords_ok {n : ℕ} (h0 : 0 < n) {taps : List ℕ} (htaps : ∀ t ∈ taps, t < n) (seed words : ℕ) {w : ℕ}
    {p : BitPattern} (hn : p.wordBits = n) (hinside : p.Inside (w + words))
    (hwords : ∀ k ≤ w, p.WordIs k ((shiftWithTaps n ((n - 1) :: taps))^[k] seed)) :
    ∃ p', genWords taps words (w + 1) p = .ok p' ∧ SameSize p p' ∧
      ∀ k ≤ w + words, p'.WordIs k ((shiftWithTaps n ((n - 1) :: taps))^[k] seed) := by
  have hbefore : ∀ k, k ≤ w + words → p.Inside k := by
    intro k hk
    exact Nat.le_trans (Nat.mul_le_mul_right _ (by omega)) hinside
  induction words generalizing w p with
  | zero => exact ⟨p, rfl, SameSize.refl p, hwords⟩
  | succ words ih =>
    subst hn
    obtain ⟨mid, hrun, hsame, hnew, hold⟩ := genWordLsh_ok (hbefore w (by omega)) (hbefore (w + 1) (by omega)) h0
      (hwords w (Nat.le_refl w)) htaps
    have hmid : ∀ k ≤ w + 1, mid.WordIs k ((shiftWithTaps p.wordBits ((p.wordBits - 1) :: taps))^[k] seed) := by
      intro k hk
      rcases Nat.eq_or_lt_of_le hk with rfl | hlt
      · rw [Function.iterate_succ_apply']
        exact hnew
      · intro b hb
        rw [hsame.1] at hb
        rw [hold k (by omega) b hb]
        exact hwords k (by omega) b hb
    have hlast : mid.Inside (w + 1 + words) := hsame.inside (hbefore _ (by omega))
    obtain ⟨p', hrest, hsame', hp'⟩ := ih hsame.1 hlast hmid fun k hk => hsame.inside (hbefore k (by omega))
    refine ⟨p', ?_, hsame.trans hsame', fun k hk => hp' k (by omega)⟩
    unfold genWords
    rw [hrun]
    exact hrest

/-- The loop of `word2Long`. -/
theorem word2LongFrom_ok (hw : p.Inside w) {v : ℕ} (hv : p.WordIs w v) (bits : ℕ) {x : ℕ}
    (hx : x + bits = p.wordBits) : word2LongFrom p w bits x (v % 2 ^ x) = .ok (v % 2 ^ p.wordBits) := by
  induction bits generalizing x with
  | zero =>
    obtain rfl : x = p.wordBits := hx
    rfl
  | succ bits ih =>
    have hnext : v % 2 ^ x ||| ((v.testBit x).toNat <<< x) = v % 2 ^ (x + 1) := by
      refine Nat.eq_of_testBit_eq fun j => ?_
      rw [Nat.testBit_or, Nat.testBit_shiftLeft, Nat.testBit_mod_two_pow, Nat.testBit_mod_two_pow]
      rcases Nat.lt_trichotomy j x with hlt | rfl | hgt
      · rw [decide_eq_true hlt, decide_eq_true (show j < x + 1 by omega), decide_eq_false (by omega),
          Bool.false_and, Bool.or_false]
      · rw [decide_eq_false (Nat.lt_irrefl j), decide_eq_true (Nat.lt_succ_self j), Nat.sub_self, Bool.false_and,
          Bool.false_or, decide_eq_true (Nat.le_refl j), Bool.true_and, Bool.true_and]
        cases v.testBit j <;> rfl
      · have hsmall : (v.testBit x).toNat < 2 ^ (j - x) :=
          Nat.lt_of_lt_of_le (Bool.toNat_lt _) (Nat.le_self_pow (by omega) 2)
        rw [decide_eq_false (by omega), decide_eq_false (show ¬ j < x + 1 by omega), Bool.false_and,
          Nat.testBit_lt_two_pow hsmall, Bool.and_false]
        rfl
    unfold word2LongFrom
    rw [getWordBit_ok hw (by omega), Framing.ok_bind, hv x (by omega), hnext]
    exact ih (by omega)

theorem word2Long_ok (hw : p.Inside w) {v : ℕ} (hv : p.WordIs w v) (hlt : v < 2 ^ p.wordBits) :
    p.word2Long w = .ok v := by
  have h := word2LongFrom_ok hw hv p.wordBits (x := 0) (Nat.zero_add _)
  rwa [Nat.pow_zero, Nat.mod_one, Nat.mod_eq_of_lt hlt] at h

/-- A word has one number. -/
theorem WordIs.eq {v v' : ℕ} (h : p.WordIs w v) (h' : p.WordIs w v') (hv : v < 2 ^ p.wordBits)
    (hv' : v' < 2 ^ p.wordBits) : v = v' := by
  refine Nat.eq_of_testBit_eq fun j => ?_
  by_cases hj : j < p.wordBits
  · exact (h j hj).symm.trans (h' j hj)
  · have hpow : 2 ^ p.wordBits ≤ 2 ^ j := Nat.pow_le_pow_right (by decide) (by omega)
    rw [Nat.testBit_lt_two_pow (hv.trans_le hpow), Nat.testBit_lt_two_pow (hv'.trans_le hpow)]

/-! ## The start -/

theorem loadSeed_succ (seed bits : ℕ) (p : BitPattern) : loadSeed seed (bits + 1) p =
    (if seed.testBit bits then p.setWordBit 0 bits true else .ok p) >>= loadSeed seed bits := by
  unfold loadSeed
  cases seed.testBit bits <;> rfl

/-- The bits that are loaded are added to those of the first word. -/
theorem loadSeed_ok (seed : ℕ) (bits : ℕ) {p : BitPattern} (hw : p.Inside 0) (hbits : bits ≤ p.wordBits) :
    ∃ p', loadSeed seed bits p = .ok p' ∧ SameSize p p' ∧
      ∀ w b, b < p.wordBits → p'.bit w b =
        if w = 0 ∧ b < bits ∧ seed.testBit b = true then true else p.bit w b := by
  induction bits generalizing p with
  | zero => exact ⟨p, rfl, SameSize.refl p, fun w b _ => (if_neg (by omega)).symm⟩
  | succ bits ih =>
    obtain ⟨mid, hset, hsame, hmid⟩ : ∃ mid,
        (if seed.testBit bits then p.setWordBit 0 bits true else .ok p) = .ok mid ∧ SameSize p mid ∧
        ∀ w b, b < p.wordBits →
          mid.bit w b = if w = 0 ∧ b = bits ∧ seed.testBit b = true then true else p.bit w b := by
      cases hbit : seed.testBit bits with
      | false =>
        refine ⟨p, rfl, SameSize.refl p, fun w b _ => (if_neg ?_).symm⟩
        rintro ⟨_, rfl, hb⟩
        rw [hbit] at hb
        cases hb
      | true =>
        obtain ⟨mid, hset, hsame, hmid⟩ := setWordBit_ok hw (show bits < p.wordBits by omega) true
        refine ⟨mid, hset, hsame, fun w b hb => ?_⟩
        rw [hmid w b hb]
        by_cases hin : w = 0 ∧ b = bits
        · rw [if_pos hin, if_pos ⟨hin.1, hin.2, by rw [hin.2, hbit]⟩]
        · rw [if_neg hin, if_neg (fun h => hin ⟨h.1, h.2.1⟩)]
    obtain ⟨p', hrun, hsame', hp'⟩ := ih (p := mid) (hsame.inside hw) (by rw [hsame.1]; omega)
    refine ⟨p', ?_, hsame.trans hsame', fun w b hb => ?_⟩
    · rw [loadSeed_succ, hset]
      exact hrun
    · rw [hp' w b (by rw [hsame.1]; exact hb), hmid w b hb]
      by_cases hin : w = 0 ∧ b < bits + 1 ∧ seed.testBit b = true
      · obtain ⟨rfl, hlt, hbit⟩ := hin
        rw [if_pos (show (0 = 0 ∧ b < bits + 1 ∧ seed.testBit b = true) from ⟨rfl, hlt, hbit⟩)]
        by_cases hb' : b < bits
        · rw [if_pos ⟨rfl, hb', hbit⟩]
        · rw [if_neg (fun h => hb' h.2.1), if_pos ⟨rfl, by omega, hbit⟩]
      · rw [if_neg hin, if_neg (fun h => hin ⟨h.1, by omega, h.2.2⟩),
          if_neg (fun h => hin ⟨h.1, by omega, h.2.2⟩)]

/-- The taps of a number of bits, but for its highest bit. -/
def tapsOf (n : ℕ) : Option (List ℕ) :=
  if -1 < singleTapTable.getD n (-2) then some [(singleTapTable.getD n (-2)).toNat] else switchTaps n

/-- The prime numbers in the lengths of the periods. -/
def periodPrimes : List ℕ :=
  [3, 5, 7, 11, 13, 17, 19, 23, 31, 41, 43, 47, 73, 89, 127, 151, 241, 257, 337, 683, 8191, 131071, 178481]

theorem periodPrimes_prime : ∀ q ∈ periodPrimes, q.Prime := by
  simp only [periodPrimes, List.forall_mem_cons]
  norm_num

/-- The taps of a number of bits are checked. -/
def tapsCheck (n : ℕ) : Bool :=
  match tapsOf n with
  | some taps => periodCheck n (columns (shiftWithTaps n ((n - 1) :: taps)) n) periodPrimes &&
      periodPrimes.prod ^ 3 % (2 ^ n - 1) == 0 && taps.all (· < n)
  | none => n == 19

theorem tapsCheck_all {n : ℕ} (hn : 2 < n) (hmax : n ≤ 24) : tapsCheck n = true := by
  interval_cases n <;> decide +kernel

/-- **The taps of the source** give the full period; there are none for 19 bits. -/
theorem fullPeriod_taps {n : ℕ} (hn : 2 < n) (hmax : n ≤ 24) (h19 : n ≠ 19) :
    ∃ taps, tapsOf n = some taps ∧ (∀ t ∈ taps, t < n) ∧ FullPeriod n (shiftWithTaps n ((n - 1) :: taps)) := by
  have hcheck : tapsCheck n = true := tapsCheck_all hn hmax
  unfold tapsCheck at hcheck
  cases htaps : tapsOf n with
  | none =>
    rw [htaps] at hcheck
    exact absurd (beq_iff_eq.1 hcheck) h19
  | some taps =>
    rw [htaps] at hcheck
    simp only [Bool.and_eq_true, beq_iff_eq, List.all_eq_true, decide_eq_true_iff] at hcheck
    obtain ⟨⟨hperiod, hcover⟩, hlow⟩ := hcheck
    exact ⟨taps, rfl, hlow, fullPeriod_of_check (by omega) (shiftWithTaps_linear n _)
      (fun x _ => shiftWithTaps_lt (by omega) _ x) periodPrimes_prime (Nat.dvd_of_mod_eq_zero hcover) hperiod⟩

/-! ## The pattern -/

theorem new_wordBits {n : ℕ} (hn : 2 ≤ n) (hmax : n ≤ 24) (L : ℕ) : (new L n).wordBits = n := by
  unfold new
  rw [if_neg (by omega), if_neg (by omega)]

/-- The pattern after the seed: all words but the first are zero. -/
theorem start_ok {n : ℕ} (hn : 2 ≤ n) (hmax : n ≤ 24) (seed : ℕ) :
    ∃ p, loadSeed seed n (new ((2 ^ n - 1) * n) n) = .ok p ∧ p.wordBits = n ∧
      (∀ w < 2 ^ n - 1, p.Inside w) ∧ p.WordIs 0 seed ∧ ∀ w, w ≠ 0 → p.WordIs w 0 := by
  have hbits := new_wordBits hn hmax ((2 ^ n - 1) * n)
  have hpow : 2 ^ 2 ≤ 2 ^ n := Nat.pow_le_pow_right (by decide) hn
  have hinside : ∀ w < 2 ^ n - 1, (new ((2 ^ n - 1) * n) n).Inside w := by
    intro w hw
    unfold Inside
    rw [hbits]
    refine Nat.le_trans (Nat.mul_le_mul_right n (show w + 1 ≤ 2 ^ n - 1 by omega)) ?_
    refine (le_byteLen _).trans (Nat.le_of_eq ?_)
    exact congrArg (8 * ·) (newUnit_length _).symm
  have hzero : ∀ w b, (new ((2 ^ n - 1) * n) n).bit w b = false := fun w b => bitAt_replicate_zero _ _
  obtain ⟨p, hload, hsame, hp⟩ := loadSeed_ok seed n (hinside 0 (by omega)) (Nat.le_of_eq hbits.symm)
  refine ⟨p, hload, hsame.1.trans hbits, fun w hw => hsame.inside (hinside w hw), fun b hb => ?_,
    fun w hw b hb => ?_⟩
  · rw [hsame.1] at hb
    rw [hp 0 b hb, hzero]
    rw [hbits] at hb
    cases hbit : seed.testBit b with
    | false => rw [if_neg (fun h => Bool.false_ne_true h.2.2)]
    | true => rw [if_pos ⟨rfl, hb, rfl⟩]
  · rw [hsame.1] at hb
    rw [hp w b hb, hzero, if_neg (fun h => hw h.1), Nat.zero_testBit]

/-- What is generated after the seed. -/
theorem prbsPattern_of_taps {n seed : ℕ} {mid : BitPattern} {taps : List ℕ} (hn : 2 < n) (hmax : n ≤ 24)
    (hload : loadSeed seed n (new ((2 ^ n - 1) * n) n) = .ok mid) (hbits : mid.wordBits = n)
    (htaps : tapsOf n = some taps) : prbsPattern n seed = genWords taps (2 ^ n - 1 - 1) 1 mid := by
  unfold tapsOf at htaps
  unfold prbsPattern genPattern
  rw [Nat.one_shiftLeft, new_wordBits (by omega) hmax, hload, Framing.ok_bind]
  simp only [Nat.one_shiftLeft, hbits]
  by_cases htap : -1 < singleTapTable.getD n (-2)
  · rw [if_pos htap] at htaps ⊢
    rw [Option.some.inj htaps]
  · rw [if_neg htap] at htaps ⊢
    rw [if_neg (by omega), htaps]

/-- Of 19 bits, only the first word is loaded. -/
theorem prbsPattern_of_none {n seed : ℕ} {mid : BitPattern} (hn : 2 < n) (hmax : n ≤ 24)
    (hload : loadSeed seed n (new ((2 ^ n - 1) * n) n) = .ok mid) (hbits : mid.wordBits = n)
    (htaps : tapsOf n = none) : prbsPattern n seed = .ok mid := by
  unfold tapsOf at htaps
  unfold prbsPattern genPattern
  rw [Nat.one_shiftLeft, new_wordBits (by omega) hmax, hload, Framing.ok_bind]
  by_cases htap : -1 < singleTapTable.getD n (-2)
  · rw [if_pos htap] at htaps
    cases htaps
  · rw [if_neg htap] at htaps
    simp only [hbits, if_neg htap, if_neg (Nat.ne_of_gt hn), htaps]

/-- The words of 2 bits are fixed, but for the first. -/
theorem two_bits : ∀ seed < 4, 0 < seed →
    prbsPattern 2 seed = .ok ⟨2, [.ofNat (64 * seed + 44)], 6, 0⟩ := by decide

theorem two_bits_words : ∀ seed < 4, 0 < seed → ∀ p : BitPattern, p = ⟨2, [.ofNat (64 * seed + 44)], 6, 0⟩ →
    p.word2Long 0 = .ok seed ∧ p.word2Long 1 = .ok 2 ∧ p.word2Long 2 = .ok 3 := by
  rintro seed hlt hpos p rfl
  revert seed
  decide

/-- The words of the pattern are numbers that are not zero, as many as there are and each one once. -/
def MaximalPeriod (n seed : ℕ) : Prop :=
  ∃ (p : BitPattern) (word : ℕ → ℕ), prbsPattern n seed = .ok p ∧ word 0 = seed ∧
    (∀ w < 2 ^ n - 1, p.word2Long w = .ok (word w) ∧ 0 < word w ∧ word w < 2 ^ n) ∧
    ∀ w < 2 ^ n - 1, ∀ v < w, word v ≠ word w

theorem maximalPeriod_two {seed : ℕ} (hpos : 0 < seed) (hlt : seed < 4) : MaximalPeriod 2 seed ↔ seed = 1 := by
  have hrun := two_bits seed hlt hpos
  obtain ⟨h0, h1, h2⟩ := two_bits_words seed hlt hpos _ rfl
  constructor
  · rintro ⟨p, word, hp, -, hwords, hne⟩
    obtain rfl := Except.ok.inj (hrun.symm.trans hp)
    have hword0 := Except.ok.inj (h0.symm.trans (hwords 0 (by decide)).1)
    have hword1 := Except.ok.inj (h1.symm.trans (hwords 1 (by decide)).1)
    have hword2 := Except.ok.inj (h2.symm.trans (hwords 2 (by decide)).1)
    have hne1 := hne 1 (by decide) 0 (by decide)
    have hne2 := hne 2 (by decide) 0 (by decide)
    omega
  · rintro rfl
    refine ⟨_, fun w => w + 1, hrun, rfl, fun w hw => ?_, fun w _ v hv h =>
      absurd (Nat.succ.inj h) (Nat.ne_of_lt hv)⟩
    have hw' : w < 3 := hw
    obtain rfl | rfl | rfl : w = 0 ∨ w = 1 ∨ w = 2 := by omega
    · exact ⟨h0, by decide, by decide⟩
    · exact ⟨h1, by decide, by decide⟩
    · exact ⟨h2, by decide, by decide⟩

theorem maximalPeriod_of_taps {n seed : ℕ} (hn : 2 < n) (hmax : n ≤ 24) (h19 : n ≠ 19) (hpos : 0 < seed)
    (hlt : seed < 2 ^ n) : MaximalPeriod n seed := by
  obtain ⟨taps, htaps, hlow, hfull⟩ := fullPeriod_taps hn hmax h19
  obtain ⟨mid, hload, hbits, hinside, hfirst, -⟩ := start_ok (by omega) hmax seed
  obtain ⟨-, hstates, hdistinct⟩ := hfull seed hpos hlt
  have hpow : 2 ^ 2 ≤ 2 ^ n := Nat.pow_le_pow_right (by decide) (by omega)
  obtain ⟨p, hrun, hsame, hp⟩ := genWords_ok (show 0 < n by omega) hlow seed (2 ^ n - 1 - 1) (w := 0) hbits
    (hinside _ (by omega)) (fun k hk => by
      obtain rfl : k = 0 := Nat.le_zero.1 hk
      exact hfirst)
  refine ⟨p, fun w => (shiftWithTaps n ((n - 1) :: taps))^[w] seed, ?_, rfl, fun w hw => ?_, hdistinct⟩
  · rw [prbsPattern_of_taps hn hmax hload hbits htaps]
    exact hrun
  · refine ⟨word2Long_ok (hsame.inside (hinside w hw)) (hp w (by omega)) ?_, hstates w hw⟩
    rw [hsame.1, hbits]
    exact (hstates w hw).2

theorem not_maximalPeriod_of_none {n seed : ℕ} (hn : 2 < n) (hmax : n ≤ 24) (htaps : tapsOf n = none) :
    ¬ MaximalPeriod n seed := by
  rintro ⟨p, word, hp, -, hwords, -⟩
  obtain ⟨mid, hload, hbits, hinside, -, hrest⟩ := start_ok (by omega) hmax seed
  rw [prbsPattern_of_none hn hmax hload hbits htaps] at hp
  obtain rfl := Except.ok.inj hp
  have hpow : 2 ^ 2 ≤ 2 ^ n := Nat.pow_le_pow_right (by decide) (by omega)
  -- the second word is read as zero
  obtain ⟨hread, hword, -⟩ := hwords 1 (by omega)
  rw [word2Long_ok (hinside 1 (by omega)) (hrest 1 (by decide)) (Nat.two_pow_pos _)] at hread
  rw [← Except.ok.inj hread] at hword
  exact Nat.lt_irrefl 0 hword

/-- **The words go through all numbers but zero** from each seed, but for 19 bits, where only the first word
is not zero, and for 2 bits from other seeds than 1. -/
theorem maximal_period_iff {n seed : ℕ} (hn : 2 ≤ n) (hmax : n ≤ 24) (hpos : 0 < seed) (hlt : seed < 2 ^ n) :
    MaximalPeriod n seed ↔ n ≠ 19 ∧ (n = 2 → seed = 1) := by
  rcases Nat.eq_or_lt_of_le hn with rfl | hn'
  · rw [maximalPeriod_two hpos hlt]
    exact ⟨fun h => ⟨by decide, fun _ => h⟩, fun h => h.2 rfl⟩
  by_cases h19 : n = 19
  · exact iff_of_false (not_maximalPeriod_of_none hn' hmax (by rw [h19]; rfl)) (fun h => h.1 h19)
  · exact iff_of_true (maximalPeriod_of_taps hn' hmax h19 hpos hlt) ⟨h19, fun h => by omega⟩

theorem maximal_period_three : MaximalPeriod 3 1 :=
  (maximal_period_iff (by decide) (by decide) (by decide) (by decide)).2 ⟨by decide, fun h => by omega⟩

/-- **A register of 19 bits has no taps.** -/
theorem nineteen_bits_stop : ¬ MaximalPeriod 19 1 := not_maximalPeriod_of_none (by decide) (by decide) rfl

end ChannelEmulator.BitPattern
