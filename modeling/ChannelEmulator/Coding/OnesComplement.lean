import Mathlib.Data.List.Basic
import Mathlib.Tactic.Common

/-!
# One's complement sums

Sums of the words of 16 bits of octets, the last one filled up with a zero octet.

* `AgreeBut`: octets that are the same but for those of one word, and their slices.
* `wordSum_agree`, `wordSum_slice`: **octets that differ in one word differ by it in their sums.**
-/

namespace Coding

/-- The word at an octet; octets that are missing are zeros. -/
def wordAt (u : List UInt8) (k : ℕ) : ℕ := (u.getD k 0).toNat * 256 + (u.getD (k + 1) 0).toNat

/-- The sum of the words of octets. -/
def wordSum : List UInt8 → ℕ
  | a :: b :: rest => a.toNat * 256 + b.toNat + wordSum rest
  | [a] => a.toNat * 256
  | [] => 0

@[simp] theorem wordSum_nil : wordSum [] = 0 := rfl

@[simp] theorem wordSum_one (a : UInt8) : wordSum [a] = a.toNat * 256 := rfl

@[simp] theorem wordSum_cons (a b : UInt8) (rest : List UInt8) :
    wordSum (a :: b :: rest) = a.toNat * 256 + b.toNat + wordSum rest := rfl

theorem wordAt_cons (a b : UInt8) (rest : List UInt8) (k : ℕ) :
    wordAt (a :: b :: rest) (k + 2) = wordAt rest k := rfl

theorem wordAt_lt (u : List UInt8) (k : ℕ) : wordAt u k < 0x10000 := by
  have hhigh := (u.getD k 0).toNat_lt
  have hlow := (u.getD (k + 1) 0).toNat_lt
  unfold wordAt
  omega

theorem wordSum_le (u : List UInt8) : wordSum u ≤ 0xFFFF * ((u.length + 1) / 2) := by
  induction u using wordSum.induct with
  | case1 a b rest ih =>
    have ha := a.toNat_lt
    have hb := b.toNat_lt
    rw [wordSum_cons, List.length_cons, List.length_cons]
    omega
  | case2 a =>
    have ha := a.toNat_lt
    rw [wordSum_one, List.length_singleton]
    omega
  | case3 => exact Nat.zero_le _

theorem wordSum_append {u : List UInt8} (heven : u.length % 2 = 0) (v : List UInt8) :
    wordSum (u ++ v) = wordSum u + wordSum v := by
  induction u using wordSum.induct with
  | case1 a b rest ih =>
    rw [List.length_cons, List.length_cons] at heven
    rw [List.cons_append, List.cons_append, wordSum_cons, wordSum_cons, ih (by omega), Nat.add_assoc (_ + _)]
  | case2 a => exact absurd heven (by simp)
  | case3 => rw [List.nil_append, wordSum_nil, Nat.zero_add]

/-- The first word of a slice. -/
theorem wordSum_slice_succ {u : List UInt8} {m : ℕ} (hm : m + 2 ≤ u.length) (n : ℕ) :
    wordSum ((u.drop m).take (n + 2)) = wordAt u m + wordSum ((u.drop (m + 2)).take n) := by
  have hhigh : u.getD m 0 = u[m] := by
    rw [List.getD_eq_getElem?_getD, List.getElem?_eq_getElem (by omega), Option.getD_some]
  have hlow : u.getD (m + 1) 0 = u[m + 1] := by
    rw [List.getD_eq_getElem?_getD, List.getElem?_eq_getElem (by omega), Option.getD_some]
  unfold wordAt
  rw [List.drop_eq_getElem_cons (by omega), List.drop_eq_getElem_cons (show m + 1 < u.length by omega),
    List.take_succ_cons, List.take_succ_cons, wordSum_cons, hhigh, hlow]

/-- The octets are the same but for those of one word. -/
def AgreeBut (k : ℕ) (u v : List UInt8) : Prop :=
  u.length = v.length ∧ ∀ i, i ≠ k → i ≠ k + 1 → u[i]? = v[i]?

theorem AgreeBut.symm {k : ℕ} {u v : List UInt8} (h : AgreeBut k u v) : AgreeBut k v u :=
  ⟨h.1.symm, fun i hk hk1 => (h.2 i hk hk1).symm⟩

/-- **One word is changed.** -/
theorem wordSum_agree {u v : List UInt8} {j : ℕ} (h : AgreeBut (2 * j) u v) :
    wordSum u + wordAt v (2 * j) = wordSum v + wordAt u (2 * j) := by
  induction u using wordSum.induct generalizing v j with
  | case3 =>
    rw [List.length_eq_zero_iff.1 h.1.symm]
  | case2 a =>
    obtain ⟨b, rfl⟩ := List.length_eq_one_iff.1 h.1.symm
    cases j with
    | zero =>
      have hword : ∀ x : UInt8, wordAt [x] (2 * 0) = x.toNat * 256 := fun x => Nat.add_zero _
      rw [hword, hword, wordSum_one, wordSum_one, Nat.add_comm]
    | succ j =>
      have hfirst := h.2 0 (by omega) (by omega)
      rw [Option.some.inj hfirst]
  | case1 a b rest ih =>
    obtain ⟨a', b', rest', rfl⟩ : ∃ a' b' rest', v = a' :: b' :: rest' := by
      cases v with
      | nil => exact absurd h.1 (by simp)
      | cons a' v =>
        cases v with
        | nil => exact absurd h.1 (by simp)
        | cons b' rest' => exact ⟨a', b', rest', rfl⟩
    have hlen : rest.length = rest'.length := Nat.succ.inj (Nat.succ.inj h.1)
    cases j with
    | zero =>
      have hrest : rest = rest' := List.ext_getElem? fun i => h.2 (i + 2) (by omega) (by omega)
      have hword : wordAt (a :: b :: rest) (2 * 0) = a.toNat * 256 + b.toNat := rfl
      have hword' : wordAt (a' :: b' :: rest') (2 * 0) = a'.toNat * 256 + b'.toNat := rfl
      rw [hword, hword', wordSum_cons, wordSum_cons, hrest]
      omega
    | succ j =>
      have hfirst : a = a' := Option.some.inj (h.2 0 (by omega) (by omega))
      have hsecond : b = b' := Option.some.inj (h.2 1 (by omega) (by omega))
      have hsum := ih (v := rest') (j := j) ⟨hlen, fun i hk hk1 => h.2 (i + 2) (by omega) (by omega)⟩
      rw [Nat.mul_succ, wordAt_cons, wordAt_cons, wordSum_cons, wordSum_cons, hfirst, hsecond]
      omega

/-- A slice that begins an even number of octets ahead of the word. -/
theorem AgreeBut.slice {k : ℕ} {u v : List UInt8} (h : AgreeBut k u v) {m : ℕ} (hm : m ≤ k) (n : ℕ) :
    AgreeBut (k - m) ((u.drop m).take n) ((v.drop m).take n) := by
  refine ⟨by rw [List.length_take, List.length_drop, List.length_take, List.length_drop, h.1], fun i hk hk1 => ?_⟩
  rw [List.getElem?_take, List.getElem?_take, List.getElem?_drop, List.getElem?_drop,
    h.2 (m + i) (by omega) (by omega)]

/-- A slice that the word is not in. -/
theorem AgreeBut.slice_eq {k : ℕ} {u v : List UInt8} (h : AgreeBut k u v) {m n : ℕ}
    (hout : k + 1 < m ∨ m + n ≤ k) : (u.drop m).take n = (v.drop m).take n := by
  refine List.ext_getElem? fun i => ?_
  rw [List.getElem?_take, List.getElem?_take, List.getElem?_drop, List.getElem?_drop]
  by_cases hi : i < n
  · rw [if_pos hi, if_pos hi, h.2 (m + i) (by omega) (by omega)]
  · rw [if_neg hi, if_neg hi]

theorem wordAt_slice {u : List UInt8} {m n k : ℕ} (hm : m ≤ k) (hn : k + 1 < m + n) :
    wordAt ((u.drop m).take n) (k - m) = wordAt u k := by
  unfold wordAt
  rw [List.getD_eq_getElem?_getD, List.getD_eq_getElem?_getD, List.getD_eq_getElem?_getD,
    List.getD_eq_getElem?_getD, List.getElem?_take_of_lt (by omega), List.getElem?_take_of_lt (by omega),
    List.getElem?_drop, List.getElem?_drop, show m + (k - m) = k by omega,
    show m + (k - m + 1) = k + 1 by omega]

/-- **One word of a slice is changed.** -/
theorem wordSum_slice {k m n : ℕ} {u v : List UInt8} (h : AgreeBut k u v) (hm : m ≤ k) (hn : k + 1 < m + n)
    (heven : (k - m) % 2 = 0) :
    wordSum ((u.drop m).take n) + wordAt v k = wordSum ((v.drop m).take n) + wordAt u k := by
  have hslice := h.slice hm n
  rw [show k - m = 2 * ((k - m) / 2) by omega] at hslice
  have hsum := wordSum_agree hslice
  rwa [← show k - m = 2 * ((k - m) / 2) by omega, wordAt_slice hm hn, wordAt_slice hm hn] at hsum

/-- **One word behind an octet is changed.** -/
theorem wordSum_drop {k m : ℕ} {u v : List UInt8} (h : AgreeBut k u v) (hm : m ≤ k) (heven : (k - m) % 2 = 0) :
    wordSum (u.drop m) + wordAt v k = wordSum (v.drop m) + wordAt u k := by
  have hall : ∀ w : List UInt8, (w.drop m).take (w.length + k + 2) = w.drop m := fun w =>
    List.take_of_length_le (by rw [List.length_drop]; omega)
  have hslice := wordSum_slice h hm (show k + 1 < m + (u.length + k + 2) by omega) heven
  have hv := hall v
  rw [← h.1] at hv
  rwa [hall u, hv] at hslice

/-- The octets from one behind the word on. -/
theorem AgreeBut.drop_eq {k m : ℕ} {u v : List UInt8} (h : AgreeBut k u v) (hm : k + 1 < m) :
    u.drop m = v.drop m := by
  refine List.ext_getElem? fun i => ?_
  rw [List.getElem?_drop, List.getElem?_drop, h.2 (m + i) (by omega) (by omega)]

theorem AgreeBut.wordAt_eq {k m : ℕ} {u v : List UInt8} (h : AgreeBut k u v) (hm : m + 1 < k ∨ k + 1 < m) :
    wordAt u m = wordAt v m := by
  unfold wordAt
  rw [List.getD_eq_getElem?_getD, List.getD_eq_getElem?_getD, List.getD_eq_getElem?_getD,
    List.getD_eq_getElem?_getD, h.2 m (by omega) (by omega), h.2 (m + 1) (by omega) (by omega)]

end Coding
