import Mathlib.Data.List.Basic
import Mathlib.Data.Nat.Bitwise
import Mathlib.Tactic.Common

/-!
# Octets as a string of bits

The bits of octets in a row, the most significant of each octet first.

* `bitAt`, `bitAt_set`, `bitAt_append`: the bits of octets, and of octets that are changed or put
  together.
* `eq_of_bitAt`: **octets of one length with the same bits are the same**.
* `FieldAt`: a number stands in a row of bits, the most significant first; it can be read back.
* `ofBits`: the number that bits stand for, the most significant first, and its bits.
-/

namespace Coding

/-- A bit of octets in a row, the most significant of each first. -/
def bitAt (u : List UInt8) (i : ℕ) : Bool := (u[i / 8]?.getD 0).toNat.testBit (7 - i % 8)

theorem bitAt_eq (u : List UInt8) (i : ℕ) : bitAt u i = (u[i / 8]?.getD 0).toNat.testBit (7 - i % 8) := rfl

theorem testBit_octet (x : ℕ) {j : ℕ} (hj : j < 8) : (UInt8.ofNat x).toNat.testBit j = x.testBit j := by
  rw [UInt8.toNat_ofNat', Nat.testBit_mod_two_pow, decide_eq_true hj, Bool.true_and]

theorem bitAt_of_getElem? {u : List UInt8} {i : ℕ} {b : UInt8} (h : u[i / 8]? = some b) :
    bitAt u i = b.toNat.testBit (7 - i % 8) := by
  rw [bitAt_eq, h]
  rfl

theorem octet_ext {a b : UInt8} (h : ∀ j < 8, a.toNat.testBit (7 - j) = b.toNat.testBit (7 - j)) :
    a = b := by
  refine UInt8.toNat_inj.1 (Nat.eq_of_testBit_eq fun j => ?_)
  by_cases hj : j < 8
  · have hbit := h (7 - j) (by omega)
    rwa [show 7 - (7 - j) = j by omega] at hbit
  · have hpow : 2 ^ 8 ≤ 2 ^ j := Nat.pow_le_pow_right (by decide) (by omega)
    rw [Nat.testBit_lt_two_pow (a.toNat_lt.trans_le hpow), Nat.testBit_lt_two_pow (b.toNat_lt.trans_le hpow)]

/-- **Octets with the same bits are the same.** -/
theorem eq_of_bitAt {u v : List UInt8} (hlen : u.length = v.length)
    (h : ∀ i < 8 * u.length, bitAt u i = bitAt v i) : u = v := by
  refine List.ext_getElem hlen fun k hu hv => octet_ext fun j hj => ?_
  have hbit := h (8 * k + j) (by omega)
  have hdiv : (8 * k + j) / 8 = k := by omega
  have hmod : (8 * k + j) % 8 = j := by omega
  rw [bitAt_of_getElem? (by rw [hdiv, List.getElem?_eq_getElem hu]),
    bitAt_of_getElem? (by rw [hdiv, List.getElem?_eq_getElem hv]), hmod] at hbit
  exact hbit

/-- One octet is changed. -/
theorem bitAt_set {u : List UInt8} {k : ℕ} (hk : k < u.length) (b : UInt8) (i : ℕ) :
    bitAt (u.set k b) i = if i / 8 = k then b.toNat.testBit (7 - i % 8) else bitAt u i := by
  rw [bitAt_eq, bitAt_eq]
  by_cases hik : i / 8 = k
  · rw [if_pos hik, hik, List.getElem?_set_self hk]
    rfl
  · rw [if_neg hik, List.getElem?_set_ne (Ne.symm hik)]

theorem bitAt_append (u v : List UInt8) (i : ℕ) :
    bitAt (u ++ v) i = if i < 8 * u.length then bitAt u i else bitAt v (i - 8 * u.length) := by
  rw [bitAt_eq, bitAt_eq, bitAt_eq]
  by_cases hi : i < 8 * u.length
  · rw [if_pos hi, List.getElem?_append_left (by omega)]
  · rw [if_neg hi, List.getElem?_append_right (by omega), show i / 8 - u.length = (i - 8 * u.length) / 8
      by omega, show (i - 8 * u.length) % 8 = i % 8 by omega]

theorem bitAt_replicate_zero (n i : ℕ) : bitAt (List.replicate n 0) i = false := by
  rw [bitAt_eq, List.getElem?_replicate]
  split <;> exact Nat.zero_testBit _

/-- Bits are added to one octet. -/
theorem bitAt_set_or {u : List UInt8} {k : ℕ} {b : UInt8} (hb : u[k]? = some b) (x : UInt8) (i : ℕ) :
    bitAt (u.set k (b ||| x)) i = (bitAt u i || (decide (i / 8 = k) && x.toNat.testBit (7 - i % 8))) := by
  have hk : k < u.length := (List.getElem?_eq_some_iff.1 hb).1
  rw [bitAt_set hk]
  by_cases hik : i / 8 = k
  · rw [if_pos hik, decide_eq_true hik, Bool.true_and, UInt8.toNat_or, Nat.testBit_or,
      bitAt_of_getElem? (by rw [hik]; exact hb)]
  · rw [if_neg hik, decide_eq_false hik, Bool.false_and, Bool.or_false]

/-! ## Fields -/

/-- The number `value` stands in the `width` bits from `start` on. -/
def FieldAt (u : List UInt8) (start width value : ℕ) : Prop :=
  ∀ j < width, bitAt u (start + j) = value.testBit (width - 1 - j)

/-- **A field has one value.** -/
theorem FieldAt.eq {u : List UInt8} {start width v w : ℕ} (hv : FieldAt u start width v)
    (hw : FieldAt u start width w)
    (hvlt : v < 2 ^ width) (hwlt : w < 2 ^ width) : v = w := by
  refine Nat.eq_of_testBit_eq fun j => ?_
  by_cases hj : j < width
  · have hbit := (hv (width - 1 - j) (by omega)).symm.trans (hw (width - 1 - j) (by omega))
    rwa [show width - 1 - (width - 1 - j) = j by omega] at hbit
  · have hpow : 2 ^ width ≤ 2 ^ j := Nat.pow_le_pow_right (by decide) (by omega)
    rw [Nat.testBit_lt_two_pow (hvlt.trans_le hpow), Nat.testBit_lt_two_pow (hwlt.trans_le hpow)]

/-- A field of octets that have the same bits there. -/
theorem FieldAt.congr {u u' : List UInt8} {start width v : ℕ} (h : FieldAt u start width v)
    (hsame : ∀ i, start ≤ i → i < start + width → bitAt u' i = bitAt u i) : FieldAt u' start width v :=
  fun j hj => (hsame (start + j) (by omega) (by omega)).trans (h j hj)

/-! ## Numbers -/

/-- The number that the first bits stand for, the most significant first. -/
def ofBits (f : ℕ → Bool) : ℕ → ℕ
  | 0 => 0
  | n + 1 => 2 * ofBits f n + (f n).toNat

theorem ofBits_lt (f : ℕ → Bool) (n : ℕ) : ofBits f n < 2 ^ n := by
  induction n with
  | zero => exact Nat.one_pos
  | succ n ih =>
    unfold ofBits
    have hbit := Bool.toNat_lt (f n)
    omega

theorem testBit_ofBits (f : ℕ → Bool) {n j : ℕ} (hj : j < n) :
    (ofBits f n).testBit j = f (n - 1 - j) := by
  induction n generalizing j with
  | zero => omega
  | succ n ih =>
    unfold ofBits
    cases j with
    | zero =>
      rw [Nat.testBit_zero, Nat.add_sub_cancel, Nat.sub_zero]
      cases f n <;> simp [Nat.add_mod]
    | succ j =>
      have hhalf : (2 * ofBits f n + (f n).toNat) / 2 = ofBits f n := by
        have hbit := Bool.toNat_lt (f n)
        omega
      rw [Nat.testBit_succ, hhalf, ih (by omega)]
      congr 1
      omega

theorem ofBits_congr {f g : ℕ → Bool} {n : ℕ} (h : ∀ i < n, f i = g i) : ofBits f n = ofBits g n := by
  induction n with
  | zero => rfl
  | succ n ih =>
    unfold ofBits
    rw [ih fun i hi => h i (Nat.lt_succ_of_lt hi), h n (Nat.lt_succ_self n)]

end Coding
