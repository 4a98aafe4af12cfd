import Mathlib.Data.List.Prime
import Mathlib.Data.Nat.Bitwise
import Mathlib.Data.Nat.Prime.Basic
import Mathlib.Dynamics.PeriodicPts.Defs
import Mathlib.Order.Interval.Finset.Nat
import Mathlib.Tactic.Common

/-!
# Linear maps of full period

A map of numbers of `n` bits that is linear over exclusive or is given by its columns, the images of the
powers of two.

* `combine_columns`: the map from its columns. `applyPowers_eq`: its iterates, from the columns of the
  iterates that squaring gives.
* `FullPeriod`: every number but zero goes through all numbers but zero before it comes again.
* `fullPeriod_of_check`: **one number of the largest period is enough**, and it has this period if it
  comes again after `2^n - 1` steps, but not after that number divided by one of its prime divisors.
* `shiftWithTaps`: a register that is shifted to the left, with feedback from its taps.
-/

namespace Coding

/-- Linear over exclusive or. -/
structure XorLinear (f : ℕ → ℕ) : Prop where
  zero : f 0 = 0
  xor : ∀ x y, f (x ^^^ y) = f x ^^^ f y

theorem XorLinear.iterate {f : ℕ → ℕ} (hf : XorLinear f) (k : ℕ) : XorLinear f^[k] := by
  induction k with
  | zero => exact ⟨rfl, fun _ _ => rfl⟩
  | succ k ih =>
    constructor
    · rw [Function.iterate_succ_apply', ih.zero, hf.zero]
    · intro x y
      rw [Function.iterate_succ_apply', Function.iterate_succ_apply', Function.iterate_succ_apply', ih.xor, hf.xor]

/-! ## Columns -/

/-- The columns at the bits of a number, put together. -/
def combine : List ℕ → ℕ → ℕ
  | [], _ => 0
  | c :: cs, x => (if x % 2 = 1 then c else 0) ^^^ combine cs (x / 2)

/-- The columns of a map, from the bit `k` on. -/
def columnsFrom (f : ℕ → ℕ) (k n : ℕ) : List ℕ := (List.range' k n).map fun i => f (1 <<< i)

def columns (f : ℕ → ℕ) (n : ℕ) : List ℕ := columnsFrom f 0 n

theorem combine_columnsFrom {f : ℕ → ℕ} (hf : XorLinear f) (n : ℕ) {k x : ℕ} (hx : x < 2 ^ n) :
    combine (columnsFrom f k n) x = f (x <<< k) := by
  induction n generalizing k x with
  | zero =>
    obtain rfl : x = 0 := Nat.lt_one_iff.1 hx
    rw [Nat.zero_shiftLeft, hf.zero]
    rfl
  | succ n ih =>
    have hstep : combine (columnsFrom f k (n + 1)) x =
        (if x % 2 = 1 then f (1 <<< k) else 0) ^^^ combine (columnsFrom f (k + 1) n) (x / 2) := by
      unfold columnsFrom
      rw [List.range'_succ, List.map_cons]
      rfl
    -- the number is its lowest bit and the others
    have hsplit : x = (x % 2) ^^^ ((x / 2) <<< 1) := by
      refine Nat.eq_of_testBit_eq fun j => ?_
      rw [Nat.testBit_xor, Nat.testBit_shiftLeft]
      cases j with
      | zero =>
        rw [Nat.testBit_zero, Nat.testBit_zero, Nat.mod_mod]
        exact (Bool.xor_false _).symm
      | succ j =>
        have hlow : x % 2 < 2 ^ (j + 1) := Nat.lt_of_lt_of_le (Nat.mod_lt _ (by decide))
          (Nat.le_self_pow (Nat.succ_ne_zero j) 2)
        rw [Nat.testBit_lt_two_pow hlow, Bool.false_xor, decide_eq_true (Nat.le_add_left 1 j), Bool.true_and,
          Nat.testBit_succ, Nat.add_sub_cancel]
    rw [hstep, ih (by rw [Nat.pow_succ] at hx; omega)]
    conv_rhs => rw [hsplit, Nat.shiftLeft_xor_distrib, hf.xor, ← Nat.shiftLeft_add, Nat.add_comm 1 k]
    congr 1
    rcases Nat.mod_two_eq_zero_or_one x with h0 | h1
    · rw [if_neg (by omega), h0, Nat.zero_shiftLeft, hf.zero]
    · rw [if_pos h1, h1]

theorem combine_columns {f : ℕ → ℕ} (hf : XorLinear f) {n x : ℕ} (hx : x < 2 ^ n) :
    combine (columns f n) x = f x := by
  have h := combine_columnsFrom hf n (k := 0) hx
  rwa [Nat.shiftLeft_zero] at h

/-- The columns of the iterates for the powers of two. -/
def powers : ℕ → List ℕ → List (List ℕ)
  | 0, C => [C]
  | m + 1, C => C :: powers m (C.map (combine C))

/-- An iterate, from the columns of the iterates for the powers of two. -/
def applyPowers : List (List ℕ) → ℕ → ℕ → ℕ
  | [], _, x => x
  | C :: Cs, k, x => applyPowers Cs (k / 2) (if k % 2 = 1 then combine C x else x)

variable {n : ℕ} {f : ℕ → ℕ}

theorem iterate_lt (hlt : ∀ x < 2 ^ n, f x < 2 ^ n) (k : ℕ) {x : ℕ} (hx : x < 2 ^ n) : f^[k] x < 2 ^ n := by
  induction k with
  | zero => exact hx
  | succ k ih =>
    rw [Function.iterate_succ_apply']
    exact hlt _ ih

theorem map_combine_columns (hf : XorLinear f) (hlt : ∀ x < 2 ^ n, f x < 2 ^ n) (s : ℕ) :
    (columns f^[s] n).map (combine (columns f^[s] n)) = columns f^[2 * s] n := by
  unfold columns columnsFrom
  rw [List.map_map]
  refine List.map_congr_left fun i hi => ?_
  have hin : i < n := by
    have hmem := (List.mem_range'_1.1 hi).2
    omega
  have hone : 1 <<< i < 2 ^ n := by
    rw [Nat.one_shiftLeft]
    exact Nat.pow_lt_pow_right (by decide) hin
  have hcombine := combine_columns (hf.iterate s) (iterate_lt hlt s hone)
  rw [Nat.two_mul, Function.iterate_add_apply]
  exact hcombine

/-- One turn of `applyPowers`. -/
theorem turn_eq (hf : XorLinear f) (s k : ℕ) {x : ℕ} (hx : x < 2 ^ n) :
    (if k % 2 = 1 then combine (columns f^[s] n) x else x) = f^[s * (k % 2)] x := by
  rcases Nat.mod_two_eq_zero_or_one k with h0 | h1
  · rw [if_neg (by omega), h0]
    rfl
  · rw [if_pos h1, h1, Nat.mul_one, combine_columns (hf.iterate s) hx]

/-- **Iterates by squaring.** -/
theorem applyPowers_eq (hf : XorLinear f) (hlt : ∀ x < 2 ^ n, f x < 2 ^ n) (m : ℕ) {s k x : ℕ}
    (hk : k < 2 ^ (m + 1)) (hx : x < 2 ^ n) :
    applyPowers (powers m (columns f^[s] n)) k x = f^[s * k] x := by
  have hturn := turn_eq hf s k hx
  induction m generalizing s k x with
  | zero =>
    rw [Nat.mod_eq_of_lt (show k < 2 from hk)] at hturn
    show (if k % 2 = 1 then combine (columns f^[s] n) x else x) = _
    rw [Nat.mod_eq_of_lt (show k < 2 from hk), hturn]
  | succ m ih =>
    rw [Nat.pow_succ] at hk
    have hmid := iterate_lt hlt (s * (k % 2)) hx
    have hrest := ih (s := 2 * s) (show k / 2 < 2 ^ (m + 1) by omega) hmid (turn_eq hf _ _ hmid)
    have hsum : 2 * s * (k / 2) + s * (k % 2) = s * k := by
      rw [Nat.mul_comm 2 s, Nat.mul_assoc, ← Nat.mul_add, Nat.div_add_mod]
    show applyPowers (powers m ((columns f^[s] n).map (combine (columns f^[s] n)))) (k / 2)
      (if k % 2 = 1 then combine (columns f^[s] n) x else x) = _
    rw [map_combine_columns hf hlt, hturn, hrest, ← Function.iterate_add_apply, hsum]

/-! ## Full period -/

/-- Every number of `n` bits but zero goes through `2^n - 1` different numbers but zero, and comes again. -/
def FullPeriod (n : ℕ) (f : ℕ → ℕ) : Prop :=
  ∀ x, 0 < x → x < 2 ^ n → f^[2 ^ n - 1] x = x ∧
    (∀ i < 2 ^ n - 1, 0 < f^[i] x ∧ f^[i] x < 2 ^ n) ∧ ∀ i < 2 ^ n - 1, ∀ j < i, f^[j] x ≠ f^[i] x

/-- A number comes again after the largest period, and not after that divided by a prime number. -/
def periodCheck (n : ℕ) (C : List ℕ) (primes : List ℕ) : Bool :=
  applyPowers (powers n C) (2 ^ n - 1) 1 == 1 &&
    primes.all fun q => (2 ^ n - 1) % q != 0 || applyPowers (powers n C) ((2 ^ n - 1) / q) 1 != 1

open Function in
/-- The least period, from its multiples divided by a prime number. -/
theorem minimalPeriod_eq_of_prime {x N : ℕ} (hper : f^[N] x = x)
    (hprime : ∀ p, p.Prime → p ∣ N → f^[N / p] x ≠ x) : minimalPeriod f x = N := by
  have hdvd : minimalPeriod f x ∣ N := IsPeriodicPt.minimalPeriod_dvd hper
  obtain ⟨c, hc⟩ := hdvd
  by_contra hne
  have hc1 : c ≠ 1 := fun h => hne (by rw [hc, h, Nat.mul_one])
  obtain ⟨p, hp, d, rfl⟩ := Nat.exists_prime_and_dvd hc1
  have hquot : N / p = minimalPeriod f x * d := by
    rw [hc, Nat.mul_left_comm, Nat.mul_div_cancel_left _ hp.pos]
  refine hprime p hp ⟨minimalPeriod f x * d, by rw [← Nat.mul_left_comm, ← hc]⟩ ?_
  rw [hquot]
  exact isPeriodicPt_iff_minimalPeriod_dvd.2 ⟨d, rfl⟩

open Function in
/-- **One number of the largest period is enough.** -/
theorem fullPeriod_of_minimalPeriod (hf : XorLinear f) (hlt : ∀ x < 2 ^ n, f x < 2 ^ n) {e : ℕ} (he0 : 0 < e)
    (he : e < 2 ^ n) (hper : minimalPeriod f e = 2 ^ n - 1) : FullPeriod n f := by
  have hpow : 0 < 2 ^ n := Nat.two_pow_pos n
  have hiter : f^[2 ^ n - 1] e = e := by
    rw [← hper]
    exact iterate_minimalPeriod
  have hpos : ∀ i < 2 ^ n - 1, 0 < f^[i] e := by
    intro i hi
    refine Nat.pos_of_ne_zero fun h0 => ?_
    have hend : f^[2 ^ n - 1 - i + i] e = 0 := by
      rw [iterate_add_apply, h0, (hf.iterate _).zero]
    rw [Nat.sub_add_cancel (Nat.le_of_lt hi), hiter] at hend
    omega
  -- the numbers that `e` goes through are all numbers but zero
  have himage : (Finset.range (2 ^ n - 1)).image (fun i => f^[i] e) = Finset.Icc 1 (2 ^ n - 1) := by
    refine Finset.eq_of_subset_of_card_le (fun y hy => ?_) ?_
    · obtain ⟨i, hi, rfl⟩ := Finset.mem_image.1 hy
      have hmem := Finset.mem_range.1 hi
      have hrange := iterate_lt hlt i he
      exact Finset.mem_Icc.2 ⟨hpos i hmem, by omega⟩
    · rw [Finset.card_image_of_injOn, Finset.card_range, Nat.card_Icc]
      · omega
      · intro i hi j hj hij
        exact (iterate_eq_iterate_iff_of_lt_minimalPeriod (by rw [hper]; exact Finset.mem_range.1 hi)
          (by rw [hper]; exact Finset.mem_range.1 hj)).1 hij
  intro x hx0 hx
  have hmem : x ∈ (Finset.range (2 ^ n - 1)).image (fun i => f^[i] e) := by
    rw [himage]
    exact Finset.mem_Icc.2 ⟨hx0, by omega⟩
  obtain ⟨k, hk, rfl⟩ := Finset.mem_image.1 hmem
  have hpt : e ∈ periodicPts f := ⟨2 ^ n - 1, by have := Finset.mem_range.1 hk; omega, hiter⟩
  have hperx : minimalPeriod f (f^[k] e) = 2 ^ n - 1 := (minimalPeriod_apply_iterate hpt k).trans hper
  have hiterx : f^[2 ^ n - 1] (f^[k] e) = f^[k] e := by
    rw [← iterate_add_apply, Nat.add_comm, iterate_add_apply, hiter]
  refine ⟨hiterx, fun i hi => ⟨Nat.pos_of_ne_zero fun h0 => ?_, iterate_lt hlt i hx⟩, fun i hi j hj heq => ?_⟩
  · have hend : f^[2 ^ n - 1 - i + i] (f^[k] e) = 0 := by
      rw [iterate_add_apply, h0, (hf.iterate _).zero]
    rw [Nat.sub_add_cancel (Nat.le_of_lt hi), hiterx] at hend
    exact Nat.ne_of_gt hx0 hend
  · have hsame := (iterate_eq_iterate_iff_of_lt_minimalPeriod (by rw [hperx]; omega)
      (by rw [hperx]; exact hi)).1 heq
    omega

/-- **A check of the full period**, with prime numbers that all prime divisors of the period are among. -/
theorem fullPeriod_of_check (hn : 0 < n) (hf : XorLinear f) (hlt : ∀ x < 2 ^ n, f x < 2 ^ n) {primes : List ℕ}
    (hprimes : ∀ q ∈ primes, q.Prime) {m : ℕ} (hcover : 2 ^ n - 1 ∣ primes.prod ^ m)
    (hcheck : periodCheck n (columns f n) primes = true) : FullPeriod n f := by
  have hpow : 2 ≤ 2 ^ n := Nat.le_self_pow (Nat.ne_of_gt hn) 2
  have hone : 1 < 2 ^ n := hpow
  have hiter : ∀ k ≤ 2 ^ n - 1, applyPowers (powers n (columns f n)) k 1 = f^[k] 1 := by
    intro k hk
    have h := applyPowers_eq hf hlt n (s := 1) (k := k) (x := 1) (by rw [Nat.pow_succ]; omega) hone
    rwa [Nat.one_mul] at h
  unfold periodCheck at hcheck
  obtain ⟨hfull, hall⟩ := Bool.and_eq_true_iff.1 hcheck
  refine fullPeriod_of_minimalPeriod hf hlt Nat.one_pos hone (minimalPeriod_eq_of_prime ?_ fun p hp hdvd => ?_)
  · rw [← hiter _ (Nat.le_refl _)]
    exact eq_of_beq hfull
  · obtain ⟨q, hq, hpq⟩ := (Prime.dvd_prod_iff hp.prime).1 (hp.dvd_of_dvd_pow (hdvd.trans hcover))
    obtain rfl := (Nat.prime_dvd_prime_iff_eq hp (hprimes q hq)).1 hpq
    have hcase := List.all_eq_true.1 hall p hq
    rw [Nat.mod_eq_zero_of_dvd hdvd, hiter _ (Nat.div_le_self _ _)] at hcase
    exact bne_iff_ne.1 hcase

/-! ## Registers -/

/-- The exclusive or of some bits of a number. -/
def parity : List ℕ → ℕ → Bool
  | [], _ => false
  | t :: taps, x => x.testBit t ^^ parity taps x

/-- A register of `n` bits that is shifted to the left, with the exclusive or of its taps in its lowest bit. -/
def shiftWithTaps (n : ℕ) (taps : List ℕ) (x : ℕ) : ℕ := (x <<< 1) % 2 ^ n ^^^ (parity taps x).toNat

theorem parity_xor (taps : List ℕ) (x y : ℕ) : parity taps (x ^^^ y) = (parity taps x ^^ parity taps y) := by
  induction taps with
  | nil => rfl
  | cons t taps ih =>
    have hswap : ∀ a b c d : Bool, ((a ^^ b) ^^ (c ^^ d)) = ((a ^^ c) ^^ (b ^^ d)) := by decide
    unfold parity
    rw [ih, Nat.testBit_xor, hswap]

theorem parity_zero (taps : List ℕ) : parity taps 0 = false := by
  induction taps with
  | nil => rfl
  | cons t taps ih =>
    unfold parity
    rw [ih, Nat.zero_testBit]
    rfl

theorem shiftWithTaps_linear (n : ℕ) (taps : List ℕ) : XorLinear (shiftWithTaps n taps) := by
  constructor
  · unfold shiftWithTaps
    rw [parity_zero, Nat.zero_shiftLeft, Nat.zero_mod]
    rfl
  · intro x y
    have hbool : ∀ a b : Bool, (a ^^ b).toNat = a.toNat ^^^ b.toNat := by decide
    unfold shiftWithTaps
    rw [parity_xor, Nat.shiftLeft_xor_distrib, Nat.xor_mod_two_pow, hbool, Nat.xor_assoc, Nat.xor_assoc,
      Nat.xor_left_comm (y <<< 1 % 2 ^ n)]

theorem shiftWithTaps_lt (hn : 0 < n) (taps : List ℕ) (x : ℕ) : shiftWithTaps n taps x < 2 ^ n := by
  have hbit : (parity taps x).toNat < 2 ^ n :=
    Nat.lt_of_lt_of_le (Bool.toNat_lt _) (Nat.le_self_pow (Nat.ne_of_gt hn) 2)
  exact Nat.xor_lt_two_pow (Nat.mod_lt _ (Nat.two_pow_pos n)) hbit

theorem testBit_shiftWithTaps_zero (hn : 0 < n) (taps : List ℕ) (x : ℕ) :
    (shiftWithTaps n taps x).testBit 0 = parity taps x := by
  unfold shiftWithTaps
  rw [Nat.testBit_xor, Nat.testBit_mod_two_pow, Nat.testBit_shiftLeft, decide_eq_true hn, Bool.true_and]
  cases parity taps x <;> rfl

theorem testBit_shiftWithTaps_succ {j : ℕ} (hj : j + 1 < n) (taps : List ℕ) (x : ℕ) :
    (shiftWithTaps n taps x).testBit (j + 1) = x.testBit j := by
  have hbit : (parity taps x).toNat < 2 ^ (j + 1) :=
    Nat.lt_of_lt_of_le (Bool.toNat_lt _) (Nat.le_self_pow (Nat.succ_ne_zero j) 2)
  unfold shiftWithTaps
  rw [Nat.testBit_xor, Nat.testBit_mod_two_pow, Nat.testBit_shiftLeft, Nat.testBit_lt_two_pow hbit,
    decide_eq_true hj, decide_eq_true (Nat.le_add_left 1 j), Bool.true_and, Bool.true_and, Bool.xor_false,
    Nat.add_sub_cancel]

end Coding
