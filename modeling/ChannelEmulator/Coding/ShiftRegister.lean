import Mathlib.Data.List.Basic
import Mathlib.Logic.Function.Iterate
import Mathlib.Tactic.Common

/-!
# Shift registers with feedback

A **register** of `w` bits takes a string of bits, each added to the bit that leaves it. Its
shift is linear over exclusive or, and moves a bit from each place to the one that leaves next.

* `run_eq`: **a string no longer than the register is the register shifted with the string on its
  places**.
* `run_xor`: the run is linear in the register and the string together.
* `run_burst`: **two strings that differ within `w` consecutive bits leave different registers**,
  where the shift loses nothing.
* `Register.left`, `Register.right`: the registers that leave at the most and at the least
  significant bit; `right_shift_low` and `left_shift_high` split `n` shifts for a table.
-/

namespace Coding

/-- A register of `w` bits: its shift, and its places in the order in which they leave. -/
structure Register (w : ℕ) where
  shift : BitVec w → BitVec w
  place : ℕ → BitVec w
  shift_xor : ∀ a b, shift (a ^^^ b) = shift a ^^^ shift b
  shift_place : ∀ i, i + 1 < w → shift (place (i + 1)) = place i

/-- A word where a bit is set. -/
def gate {w : ℕ} (b : Bool) (v : BitVec w) : BitVec w := if b then v else 0

@[simp] theorem gate_true {w : ℕ} (v : BitVec w) : gate true v = v := rfl

@[simp] theorem gate_false {w : ℕ} (v : BitVec w) : gate false v = 0 := rfl

theorem gate_xor {w : ℕ} (p q : Bool) (v : BitVec w) :
    gate (Bool.xor p q) v = gate p v ^^^ gate q v := by
  cases p <;> cases q <;> simp

theorem getLsbD_gate {w : ℕ} (b : Bool) (v : BitVec w) (j : ℕ) :
    (gate b v).getLsbD j = (b && v.getLsbD j) := by
  cases b with
  | true => rw [gate_true, Bool.true_and]
  | false => rw [gate_false, Bool.false_and]; exact BitVec.getLsbD_zero

theorem getMsbD_gate {w : ℕ} (b : Bool) (v : BitVec w) (j : ℕ) :
    (gate b v).getMsbD j = (b && v.getMsbD j) := by
  cases b with
  | true => rw [gate_true, Bool.true_and]
  | false => rw [gate_false, Bool.false_and]; exact BitVec.getMsbD_zero

/-- The bits of a word, least significant first. -/
def lsbFirst {n : ℕ} (v : BitVec n) : List Bool := (List.range n).map v.getLsbD

/-- The bits of a word, most significant first. -/
def msbFirst {n : ℕ} (v : BitVec n) : List Bool := (List.range n).map v.getMsbD

@[simp] theorem lsbFirst_length {n : ℕ} (v : BitVec n) : (lsbFirst v).length = n := by simp [lsbFirst]

@[simp] theorem msbFirst_length {n : ℕ} (v : BitVec n) : (msbFirst v).length = n := by simp [msbFirst]

theorem msbFirst_injective {n : ℕ} : Function.Injective (msbFirst (n := n)) := by
  intro v v' h
  apply BitVec.eq_of_getMsbD_eq
  intro i hi
  have hi' := congrArg (fun bs : List Bool => bs[i]?) h
  simpa [msbFirst, hi] using hi'

theorem lsbFirst_split {m n : ℕ} (v : BitVec (m + n)) :
    lsbFirst v = lsbFirst (v.setWidth m) ++ lsbFirst ((v >>> m).setWidth n) := by
  unfold lsbFirst
  rw [List.range_add, List.map_append, List.map_map]
  congr 1
  · refine List.map_congr_left fun i hi => ?_
    simp [List.mem_range.1 hi]
  · refine List.map_congr_left fun i hi => ?_
    simp [List.mem_range.1 hi]

namespace Register

variable {w : ℕ} (R : Register w)

/-- The word with the bits of a string on the places from `i` on. -/
def word : ℕ → List Bool → BitVec w
  | _, [] => 0
  | i, b :: bs => gate b (R.place i) ^^^ word (i + 1) bs

/-- A bit enters, added to the one that leaves. -/
def feed (c : BitVec w) (b : Bool) : BitVec w := R.shift (c ^^^ gate b (R.place 0))

def run (c : BitVec w) (bits : List Bool) : BitVec w := bits.foldl R.feed c

/-- The shift loses nothing. -/
def Faithful : Prop := ∀ c, R.shift c = 0 → c = 0

/-- The places do not overlap: the word of a string with a one is not zero. -/
def Separated : Prop := ∀ bs : List Bool, bs.length ≤ w → R.word 0 bs = 0 → ∀ b ∈ bs, b = false

@[simp] theorem run_nil (c : BitVec w) : R.run c [] = c := rfl

@[simp] theorem run_cons (c : BitVec w) (b : Bool) (bs : List Bool) :
    R.run c (b :: bs) = R.run (R.feed c b) bs := rfl

theorem run_append (c : BitVec w) (xs ys : List Bool) :
    R.run c (xs ++ ys) = R.run (R.run c xs) ys := List.foldl_append

theorem shift_zero : R.shift 0 = 0 := by
  have h := R.shift_xor 0 0
  rwa [BitVec.xor_self, BitVec.xor_self] at h

theorem iterate_xor (n : ℕ) (a b : BitVec w) :
    R.shift^[n] (a ^^^ b) = R.shift^[n] a ^^^ R.shift^[n] b := by
  induction n generalizing a b with
  | zero => rfl
  | succ n ih => rw [Function.iterate_succ_apply, R.shift_xor, ih]; rfl

theorem iterate_zero (n : ℕ) : R.shift^[n] 0 = 0 :=
  Function.iterate_fixed R.shift_zero n

/-- A word moves as a whole while its first bit has not left. -/
theorem shift_word {i : ℕ} {bs : List Bool} (h : i + 1 + bs.length ≤ w) :
    R.shift (R.word (i + 1) bs) = R.word i bs := by
  induction bs generalizing i with
  | nil => exact R.shift_zero
  | cons b bs ih =>
    simp only [List.length_cons] at h
    rw [word, word, R.shift_xor, ih (by omega)]
    cases b with
    | true => rw [gate_true, gate_true, R.shift_place i (by omega)]
    | false => rw [gate_false, gate_false, R.shift_zero]

/-- **A string no longer than the register** is the register shifted with the string on its
places. -/
theorem run_eq (c : BitVec w) {bs : List Bool} (h : bs.length ≤ w) :
    R.run c bs = R.shift^[bs.length] (c ^^^ R.word 0 bs) := by
  induction bs generalizing c with
  | nil => simp [word]
  | cons b bs ih =>
    simp only [List.length_cons] at h
    have hmove : R.shift (R.word (0 + 1) bs) = R.word 0 bs := R.shift_word (by omega)
    rw [run_cons, ih _ (by omega), feed, ← hmove, ← R.shift_xor, List.length_cons,
      Function.iterate_succ_apply, word, BitVec.xor_assoc]

/-- **The run is linear** in the register and the string together. -/
theorem run_xor (a b : BitVec w) {xs ys : List Bool} (h : xs.length = ys.length) :
    R.run (a ^^^ b) (List.zipWith Bool.xor xs ys) = R.run a xs ^^^ R.run b ys := by
  induction xs generalizing a b ys with
  | nil =>
    obtain rfl : ys = [] := List.length_eq_zero_iff.1 h.symm
    rfl
  | cons x xs ih =>
    obtain ⟨y, ys, rfl⟩ := List.exists_cons_of_length_eq_add_one h.symm
    have hfeed : R.feed (a ^^^ b) (Bool.xor x y) = R.feed a x ^^^ R.feed b y := by
      rw [feed, feed, feed, ← R.shift_xor]
      congr 1
      rw [gate_xor]
      ac_rfl
    rw [List.zipWith_cons_cons, run_cons, run_cons, run_cons, hfeed, ih _ _ (by simpa using h)]

/-- Zeros only shift. -/
theorem run_zeros (c : BitVec w) (n : ℕ) :
    R.run c (List.replicate n false) = R.shift^[n] c := by
  induction n generalizing c with
  | zero => rfl
  | succ n ih =>
    have hfeed : R.feed c false = R.shift c := by simp [feed]
    rw [List.replicate_succ, run_cons, hfeed, ih, Function.iterate_succ_apply]

variable {R}

theorem Faithful.iterate (hR : R.Faithful) {n : ℕ} {c : BitVec w} (h : R.shift^[n] c = 0) : c = 0 := by
  induction n generalizing c with
  | zero => exact h
  | succ n ih => exact hR _ (ih h)

/-- A string with its ones among `w` consecutive bits does not leave the register zero. -/
theorem Faithful.run_ne_zero (hR : R.Faithful) (hword : R.Separated)
    {d : List Bool} {p : ℕ} (hone : true ∈ d)
    (hburst : ∀ i : ℕ, d[i]? = some true → p ≤ i ∧ i < p + w) : R.run 0 d ≠ 0 := by
  have hzeros : ∀ e : List Bool, true ∉ e → e = List.replicate e.length false := by
    intro e he
    exact List.eq_replicate_of_mem fun b hb => by
      cases b with
      | true => exact absurd hb he
      | false => rfl
  -- the string is zeros, then what the window shows, then zeros
  have hfirst : true ∉ d.take p := by
    intro hmem
    obtain ⟨i, hi⟩ := List.mem_iff_getElem?.1 hmem
    rw [List.getElem?_take] at hi
    split_ifs at hi with hlt
    have := (hburst i hi).1
    omega
  have hlast : true ∉ (d.drop p).drop w := by
    intro hmem
    obtain ⟨i, hi⟩ := List.mem_iff_getElem?.1 hmem
    rw [List.drop_drop, List.getElem?_drop] at hi
    have := (hburst _ hi).2
    omega
  have hsplit : d = d.take p ++ ((d.drop p).take w ++ (d.drop p).drop w) := by
    rw [List.take_append_drop, List.take_append_drop]
  have hmid : true ∈ (d.drop p).take w := by
    rw [hsplit, List.mem_append, List.mem_append] at hone
    rcases hone with h | h | h
    · exact absurd h hfirst
    · exact h
    · exact absurd h hlast
  have hlen : ((d.drop p).take w).length ≤ w := by simp only [List.length_take]; omega
  intro hrun
  rw [hsplit, run_append, run_append, hzeros _ hfirst, run_zeros, iterate_zero, hzeros _ hlast,
    run_zeros, R.run_eq 0 hlen] at hrun
  have hzero : R.word 0 ((d.drop p).take w) = 0 := by
    simpa using hR.iterate (hR.iterate hrun)
  exact Bool.noConfusion (hword _ hlen hzero _ hmid)

/-- **Two strings that differ within `w` consecutive bits leave different registers.** -/
theorem Faithful.run_burst (hR : R.Faithful) (hword : R.Separated)
    (c : BitVec w) {xs ys : List Bool} {p : ℕ} (hlen : xs.length = ys.length) (hne : xs ≠ ys)
    (hburst : ∀ i : ℕ, xs[i]? ≠ ys[i]? → p ≤ i ∧ i < p + w) : R.run c xs ≠ R.run c ys := by
  have hget : ∀ i : ℕ, (List.zipWith Bool.xor xs ys)[i]? = some true ↔ xs[i]? ≠ ys[i]? := by
    intro i
    rw [List.getElem?_zipWith]
    by_cases hi : i < xs.length
    · rw [List.getElem?_eq_getElem hi, List.getElem?_eq_getElem (hlen ▸ hi)]
      simp
    · rw [List.getElem?_eq_none (by omega), List.getElem?_eq_none (by omega)]
      simp
  have hone : true ∈ List.zipWith Bool.xor xs ys := by
    obtain ⟨i, hi⟩ : ∃ i : ℕ, xs[i]? ≠ ys[i]? := by
      by_contra hall
      push Not at hall
      exact hne (List.ext_getElem? hall)
    exact List.mem_of_getElem? ((hget i).2 hi)
  have hz := hR.run_ne_zero hword hone fun i hi => hburst i ((hget i).1 hi)
  have hdiff : R.run 0 (List.zipWith Bool.xor xs ys) = R.run c xs ^^^ R.run c ys := by
    rw [← R.run_xor c c hlen, BitVec.xor_self]
    rfl
  intro heq
  exact hz (by rw [hdiff, heq, BitVec.xor_self]; rfl)

/-! ## The register that leaves at the least significant bit -/

/-- Shifting to the right; the bit that leaves feeds `g` back. -/
def right (g : BitVec w) : Register w where
  shift c := (c >>> 1) ^^^ gate (c.getLsbD 0) g
  place i := BitVec.twoPow w i
  shift_xor a b := by
    rw [BitVec.getLsbD_xor, BitVec.ushiftRight_xor_distrib, gate_xor]
    ac_rfl
  shift_place i hi := by
    have hlow : (BitVec.twoPow w (i + 1)).getLsbD 0 = false := by simp [BitVec.getLsbD_twoPow]
    rw [hlow, gate_false]
    apply BitVec.eq_of_getLsbD_eq
    intro j hj
    rw [BitVec.getLsbD_xor, BitVec.getLsbD_ushiftRight, BitVec.getLsbD_twoPow, BitVec.getLsbD_twoPow,
      Bool.eq_iff_iff]
    simp
    omega

/-- The shift of a number to the right. -/
def rightShift (g c : ℕ) : ℕ := (c >>> 1) ^^^ if c % 2 = 1 then g else 0

theorem right_shift_toNat (g c : BitVec w) : ((right g).shift c).toNat = rightShift g.toNat c.toNat := by
  have hlow : c.getLsbD 0 = decide (c.toNat % 2 = 1) := by
    rw [BitVec.getLsbD, Nat.testBit_zero]
  have hgate : (gate (c.getLsbD 0) g).toNat = if c.toNat % 2 = 1 then g.toNat else 0 := by
    rw [hlow, gate]
    by_cases h : c.toNat % 2 = 1 <;> simp [h]
  show ((c >>> 1) ^^^ gate (c.getLsbD 0) g).toNat = _
  rw [BitVec.toNat_xor, BitVec.toNat_ushiftRight, hgate]
  rfl

theorem right_iterate_toNat (g : BitVec w) (k : ℕ) (c : BitVec w) :
    ((right g).shift^[k] c).toNat = (rightShift g.toNat)^[k] c.toNat := by
  induction k with
  | zero => rfl
  | succ k ih => rw [Function.iterate_succ_apply', Function.iterate_succ_apply', right_shift_toNat, ih]

/-- The bits of a word on the places. -/
theorem getLsbD_word_right (g : BitVec w) (i : ℕ) (bs : List Bool) {j : ℕ} (hj : j < w) :
    ((right g).word i bs).getLsbD j = (decide (i ≤ j) && (bs[j - i]?).getD false) := by
  induction bs generalizing i with
  | nil => simp [word]
  | cons b bs ih =>
    have hplace : (gate b ((right g).place i)).getLsbD j = (b && decide (i = j)) := by
      rw [getLsbD_gate]
      show (b && (BitVec.twoPow w i).getLsbD j) = _
      rw [BitVec.getLsbD_twoPow]
      by_cases hij : i = j
      · subst hij
        simp [hj]
      · simp [hij]
    rw [word, BitVec.getLsbD_xor, hplace, ih]
    rcases Nat.lt_trichotomy i j with h | rfl | h
    · obtain ⟨k, rfl⟩ := Nat.exists_eq_add_of_lt h
      have hk : i + k + 1 - i = k + 1 := by omega
      have hk' : i + k + 1 - (i + 1) = k := by omega
      simp [hk, hk', show i ≤ i + k + 1 by omega, show i ≠ i + k + 1 by omega]
    · simp [show ¬ i + 1 ≤ i by omega]
    · simp [show ¬ i ≤ j by omega, show ¬ i + 1 ≤ j by omega, show i ≠ j by omega]

/-- The string of a word, on the places, is the word. -/
theorem word_lsbFirst (g : BitVec w) {n : ℕ} (v : BitVec n) :
    (right g).word 0 (lsbFirst v) = v.setWidth w := by
  apply BitVec.eq_of_getLsbD_eq
  intro j hj
  rw [getLsbD_word_right g 0 _ hj, BitVec.getLsbD_setWidth]
  by_cases hn : j < n
  · simp [lsbFirst, hn, hj]
  · simp [lsbFirst, hn, BitVec.getLsbD_of_ge v j (by omega)]

/-- Nothing is fed back while zeros leave. -/
theorem right_shift_free (g c : BitVec w) {n : ℕ} (h : ∀ i < n, c.getLsbD i = false) :
    (right g).shift^[n] c = c >>> n := by
  induction n with
  | zero => simp
  | succ n ih =>
    have hlow : (c >>> n).getLsbD 0 = false := by
      rw [BitVec.getLsbD_ushiftRight]
      exact h n (by omega)
    rw [Function.iterate_succ_apply', ih fun i hi => h i (by omega)]
    show (c >>> n) >>> 1 ^^^ gate ((c >>> n).getLsbD 0) g = _
    rw [hlow, gate_false, ← BitVec.shiftRight_add]
    exact BitVec.xor_zero

/-- **`n` shifts** of a register are those of its low `n` bits, added to the others. -/
theorem right_shift_low (g c : BitVec w) (n : ℕ) :
    (right g).shift^[n] c = (c >>> n) ^^^ (right g).shift^[n] ((c.setWidth n).setWidth w) := by
  have hsplit : c = ((c >>> n) <<< n) ^^^ (c.setWidth n).setWidth w := by
    apply BitVec.eq_of_getLsbD_eq
    intro j hj
    rw [BitVec.getLsbD_xor, BitVec.getLsbD_shiftLeft, BitVec.getLsbD_ushiftRight,
      BitVec.getLsbD_setWidth, BitVec.getLsbD_setWidth]
    by_cases hn : j < n
    · simp only [hj, hn, decide_true, Bool.not_true, Bool.and_false, Bool.false_and, Bool.true_and,
        Bool.false_xor]
    · simp only [hj, hn, decide_true, decide_false, Bool.not_false, Bool.and_true, Bool.false_and,
        Bool.true_and, Bool.and_false, Bool.xor_false]
      congr 1
      omega
  have hfree : (right g).shift^[n] ((c >>> n) <<< n) = c >>> n := by
    rw [right_shift_free]
    · apply BitVec.eq_of_getLsbD_eq
      intro j hj
      rw [BitVec.getLsbD_ushiftRight, BitVec.getLsbD_shiftLeft, BitVec.getLsbD_ushiftRight]
      rw [Nat.add_sub_cancel_left, show decide (n + j < n) = false by simp]
      by_cases hw : n + j < w
      · simp only [hw, decide_true, Bool.not_false, Bool.and_self, Bool.true_and,
          BitVec.getLsbD_ushiftRight]
      · simp [hw]
        exact BitVec.getLsbD_of_ge c (n + j) (by omega)
    · intro i hi
      rw [BitVec.getLsbD_shiftLeft]
      simp [hi]
  conv_lhs => rw [hsplit]
  rw [iterate_xor, hfree]

/-! ## The register that leaves at the most significant bit -/

/-- Shifting to the left; the bit that leaves feeds `g` back. -/
def left (g : BitVec w) : Register w where
  shift c := (c <<< 1) ^^^ gate c.msb g
  place i := BitVec.twoPow w (w - 1 - i)
  shift_xor a b := by
    rw [BitVec.msb_xor, BitVec.shiftLeft_xor_distrib, gate_xor]
    ac_rfl
  shift_place i hi := by
    have htop : (BitVec.twoPow w (w - 1 - (i + 1))).msb = false := by
      rw [BitVec.msb_eq_getLsbD_last, BitVec.getLsbD_twoPow]
      simp
      omega
    rw [htop, gate_false]
    apply BitVec.eq_of_getLsbD_eq
    intro j hj
    rw [BitVec.getLsbD_xor, BitVec.getLsbD_shiftLeft, BitVec.getLsbD_twoPow, BitVec.getLsbD_twoPow,
      Bool.eq_iff_iff]
    simp [hj]
    omega

theorem left_faithful {g : BitVec w} (hg : g.getLsbD 0 = true) : (left g).Faithful := by
  intro c hc
  have hbit : ∀ j, (decide (j < w) && !decide (j < 1) && c.getLsbD (j - 1)) =
      (c.msb && g.getLsbD j) := by
    intro j
    have h := congrArg (BitVec.getLsbD · j) hc
    change ((c <<< 1) ^^^ gate c.msb g).getLsbD j = (0#w).getLsbD j at h
    rw [BitVec.getLsbD_xor, BitVec.getLsbD_shiftLeft, getLsbD_gate, BitVec.getLsbD_zero] at h
    simpa using h
  have htop : c.msb = false := by
    have h := hbit 0
    rw [hg] at h
    simpa using h.symm
  apply BitVec.eq_of_getLsbD_eq
  intro j hj
  rw [show (0 : BitVec w).getLsbD j = false from BitVec.getLsbD_zero]
  by_cases hlast : j + 1 < w
  · simpa [htop, hlast] using hbit (j + 1)
  · rw [BitVec.msb_eq_getLsbD_last, show w - 1 = j by omega] at htop
    exact htop

/-- The bits of a word on the places. -/
theorem getMsbD_word_left (g : BitVec w) (i : ℕ) (bs : List Bool) (hi : i + bs.length ≤ w) {j : ℕ}
    (hj : j < w) :
    ((left g).word i bs).getMsbD j = (decide (i ≤ j) && (bs[j - i]?).getD false) := by
  induction bs generalizing i with
  | nil => simp [word]
  | cons b bs ih =>
    simp only [List.length_cons] at hi
    have hplace : (gate b ((left g).place i)).getMsbD j = (b && decide (i = j)) := by
      rw [getMsbD_gate]
      show (b && (BitVec.twoPow w (w - 1 - i)).getMsbD j) = _
      rw [BitVec.getMsbD_twoPow]
      rw [Bool.eq_iff_iff]
      simp
      omega
    rw [word, BitVec.getMsbD_xor, hplace, ih _ (by omega)]
    rcases Nat.lt_trichotomy i j with h | rfl | h
    · obtain ⟨k, rfl⟩ := Nat.exists_eq_add_of_lt h
      have hk : i + k + 1 - i = k + 1 := by omega
      have hk' : i + k + 1 - (i + 1) = k := by omega
      simp [hk, hk', show i ≤ i + k + 1 by omega, show i ≠ i + k + 1 by omega]
    · simp [show ¬ i + 1 ≤ i by omega]
    · simp [show ¬ i ≤ j by omega, show ¬ i + 1 ≤ j by omega, show i ≠ j by omega]

theorem left_separated (g : BitVec w) : (left g).Separated := by
  intro bs hlen hzero b hb
  obtain ⟨j, hj, rfl⟩ := List.mem_iff_getElem.1 hb
  have hbit := getMsbD_word_left g 0 bs (by omega) (Nat.lt_of_lt_of_le hj hlen)
  rw [hzero, show (0 : BitVec w).getMsbD j = false from BitVec.getMsbD_zero] at hbit
  simpa [hj] using hbit.symm

/-- The string of a word, on the places, is the word at the end that leaves. -/
theorem word_msbFirst (g : BitVec w) {n : ℕ} (hn : n ≤ w) (v : BitVec n) :
    (left g).word 0 (msbFirst v) = v.setWidth w <<< (w - n) := by
  apply BitVec.eq_of_getMsbD_eq
  intro j hj
  rw [getMsbD_word_left g 0 _ (by simpa using hn) hj, BitVec.getMsbD_shiftLeft,
    BitVec.getMsbD_setWidth, show j + (w - n) + n - w = j by omega]
  by_cases hjn : j < n
  · simp [msbFirst, hjn]
  · simp [msbFirst, hjn, BitVec.getMsbD_of_ge v j (by omega)]

/-- Nothing is fed back while zeros leave. -/
theorem left_shift_free (g c : BitVec w) {n : ℕ} (h : ∀ i < n, c.getMsbD i = false) :
    (left g).shift^[n] c = c <<< n := by
  induction n with
  | zero => simp
  | succ n ih =>
    have htop : (c <<< n).msb = false := by
      rw [BitVec.msb, BitVec.getMsbD_shiftLeft, Nat.zero_add]
      exact h n (by omega)
    rw [Function.iterate_succ_apply', ih fun i hi => h i (by omega)]
    show (c <<< n) <<< 1 ^^^ gate ((c <<< n).msb) g = _
    rw [htop, gate_false, ← BitVec.shiftLeft_add]
    exact BitVec.xor_zero

/-- **`n` shifts** of a register are those of its high `n` bits, added to the others. -/
theorem left_shift_high (g c : BitVec w) {n : ℕ} (hn : n ≤ w) :
    (left g).shift^[n] c = (c <<< n) ^^^ (left g).shift^[n] ((c >>> (w - n)) <<< (w - n)) := by
  have hsplit : c = ((c <<< n) >>> n) ^^^ ((c >>> (w - n)) <<< (w - n)) := by
    apply BitVec.eq_of_getLsbD_eq
    intro j hj
    rw [BitVec.getLsbD_xor, BitVec.getLsbD_ushiftRight, BitVec.getLsbD_shiftLeft,
      BitVec.getLsbD_shiftLeft, BitVec.getLsbD_ushiftRight, Nat.add_sub_cancel_left,
      show decide (n + j < n) = false by simp]
    by_cases hlow : j < w - n
    · simp [hj, hlow, show n + j < w by omega]
    · simp only [hj, hlow, show ¬ n + j < w by omega, decide_true, decide_false, Bool.not_false,
        Bool.false_and, Bool.and_self, Bool.true_and, Bool.false_xor]
      congr 1
      omega
  have hfree : (left g).shift^[n] ((c <<< n) >>> n) = c <<< n := by
    rw [left_shift_free]
    · apply BitVec.eq_of_getLsbD_eq
      intro j hj
      simp only [BitVec.getLsbD_shiftLeft, BitVec.getLsbD_ushiftRight]
      by_cases hjn : j < n
      · simp [hjn]
      · simp [hj, hjn, show n + (j - n) = j by omega]
    · intro i hi
      rw [BitVec.getMsbD_ushiftRight]
      simp [hi]
  conv_lhs => rw [hsplit]
  rw [iterate_xor, hfree]

end Register

end Coding
