import ChannelEmulator.Coding.ShiftRegister
import Mathlib.Algebra.CharP.Two
import Mathlib.Algebra.Field.MinimalAxioms

/-!
# The field of a shift register

A register whose shift runs through all words but zero makes a field of them: the sum is exclusive or,
and the product with the word that `k` shifts lead to is `k` shifts.

* `Cycle`: such a register, with the word that is the one of the field.
* `Cycle.Element`: the words as a field of characteristic two.
* `word_mul_power`: **a product with a power is a number of shifts**.
* `power_mul_power`, `power_eq_one_iff`: exponents add up, and count modulo the period.
-/

namespace Coding

/-- A register that runs from one word through all words but zero and back. -/
structure Cycle (w : ℕ) extends Register w where
  one : BitVec w
  period : ℕ
  one_ne : one ≠ 0
  period_pos : 0 < period
  periodic : shift^[period] one = one
  least : ∀ k, 0 < k → k < period → shift^[k] one ≠ one
  covers : ∀ x, x ≠ 0 → ∃ k < period, shift^[k] one = x

namespace Cycle

variable {w : ℕ} (C : Cycle w)

/-- The words as elements of the field. -/
@[ext] structure Element (C : Cycle w) where
  word : BitVec w
deriving DecidableEq

variable {C}

namespace Element

/-- The power of the element that one shift multiplies with. -/
def power (C : Cycle w) (k : ℕ) : Element C := ⟨C.shift^[k] C.one⟩

instance : Zero (Element C) := ⟨⟨0⟩⟩
instance : One (Element C) := ⟨⟨C.one⟩⟩
instance : Add (Element C) := ⟨fun x y => ⟨x.word ^^^ y.word⟩⟩
instance : Neg (Element C) := ⟨fun x => x⟩

/-- The number of shifts that lead to an element. -/
noncomputable def log (x : Element C) : ℕ :=
  open Classical in if h : x.word ≠ 0 then (C.covers x.word h).choose else 0

noncomputable instance : Mul (Element C) :=
  ⟨fun x y => if y = 0 then 0 else ⟨C.shift^[log y] x.word⟩⟩

noncomputable instance : Inv (Element C) := ⟨fun x => if x = 0 then 0 else power C (C.period - log x)⟩

theorem word_zero : (0 : Element C).word = 0 := rfl

theorem word_add (x y : Element C) : (x + y).word = x.word ^^^ y.word := rfl

theorem word_power (k : ℕ) : (power C k).word = C.shift^[k] C.one := rfl

theorem power_zero : power C 0 = 1 := rfl

theorem power_period : power C C.period = 1 := Element.ext C.periodic

theorem word_ne_zero {x : Element C} (h : x ≠ 0) : x.word ≠ 0 := fun hw => h (Element.ext hw)

/-- A shift beyond the period starts again. -/
theorem shift_add_period (k : ℕ) : C.shift^[k + C.period] C.one = C.shift^[k] C.one := by
  rw [Function.iterate_add_apply, C.periodic]

theorem shift_add_mul_period (k n : ℕ) : C.shift^[k + n * C.period] C.one = C.shift^[k] C.one := by
  induction n with
  | zero => rw [Nat.zero_mul, Nat.add_zero]
  | succ n ih => rw [Nat.succ_mul, ← Nat.add_assoc, shift_add_period, ih]

theorem power_ne_zero (k : ℕ) : power C k ≠ 0 := by
  intro h
  have hzero : C.shift^[k] C.one = 0 := congrArg Element.word h
  have hback : C.shift^[(k * C.period - k) + k] C.one = C.one := by
    have hle : k ≤ k * C.period := Nat.le_mul_of_pos_right k C.period_pos
    rw [Nat.sub_add_cancel hle]
    have hmany := shift_add_mul_period (C := C) 0 k
    rw [Nat.zero_add] at hmany
    exact hmany
  rw [Function.iterate_add_apply, hzero, C.iterate_zero] at hback
  exact C.one_ne hback.symm

theorem power_log {x : Element C} (h : x ≠ 0) : power C (log x) = x := by
  have hw := word_ne_zero h
  refine Element.ext ?_
  rw [word_power, log, dif_pos hw]
  exact (C.covers x.word hw).choose_spec.2

theorem log_lt {x : Element C} (h : x ≠ 0) : log x < C.period := by
  have hw := word_ne_zero h
  rw [log, dif_pos hw]
  exact (C.covers x.word hw).choose_spec.1

/-- Every element but zero is a power. -/
theorem exists_power {x : Element C} (h : x ≠ 0) : ∃ k < C.period, power C k = x :=
  ⟨log x, log_lt h, power_log h⟩

/-- Numbers of shifts that lead from one to the same word do the same to every word. -/
theorem shift_eq_of_power {j k : ℕ} (h : power C j = power C k) (x : BitVec w) :
    C.shift^[j] x = C.shift^[k] x := by
  have hone : C.shift^[j] C.one = C.shift^[k] C.one := congrArg Element.word h
  by_cases hx : x = 0
  · rw [hx, C.iterate_zero, C.iterate_zero]
  · obtain ⟨i, -, rfl⟩ := C.covers x hx
    rw [← Function.iterate_add_apply, ← Function.iterate_add_apply, Nat.add_comm j i,
      Nat.add_comm k i, Function.iterate_add_apply, Function.iterate_add_apply, hone]

/-- **A product with a power is a number of shifts.** -/
theorem word_mul_power (x : Element C) (k : ℕ) : (x * power C k).word = C.shift^[k] x.word := by
  show (if power C k = 0 then (0 : Element C) else ⟨C.shift^[log (power C k)] x.word⟩).word = _
  rw [if_neg (power_ne_zero k)]
  exact shift_eq_of_power (power_log (power_ne_zero k)) x.word

/-- Exponents add up. -/
theorem power_mul_power (j k : ℕ) : power C j * power C k = power C (j + k) := by
  refine Element.ext ?_
  rw [word_mul_power, word_power, word_power, Nat.add_comm, Function.iterate_add_apply]

theorem mul_zero' (x : Element C) : x * 0 = 0 := if_pos rfl

theorem zero_mul' (x : Element C) : 0 * x = 0 := by
  by_cases h : x = 0
  · exact if_pos h
  · rw [← power_log h]
    refine Element.ext ?_
    rw [word_mul_power, word_zero, C.iterate_zero]

theorem add_mul' (x y z : Element C) : (x + y) * z = x * z + y * z := by
  by_cases hz : z = 0
  · subst hz
    refine Element.ext ?_
    rw [mul_zero', mul_zero', mul_zero', word_add]
    exact BitVec.xor_self.symm
  · rw [← power_log hz]
    refine Element.ext ?_
    rw [word_add, word_mul_power, word_mul_power, word_mul_power, word_add, C.iterate_xor]

theorem mul_comm' (x y : Element C) : x * y = y * x := by
  by_cases hx : x = 0
  · rw [hx, zero_mul', mul_zero']
  by_cases hy : y = 0
  · rw [hy, zero_mul', mul_zero']
  rw [← power_log hx, ← power_log hy, power_mul_power, power_mul_power, Nat.add_comm]

theorem mul_assoc' (x y z : Element C) : x * y * z = x * (y * z) := by
  by_cases hy : y = 0
  · rw [hy, mul_zero', zero_mul', mul_zero']
  by_cases hz : z = 0
  · rw [hz, mul_zero', mul_zero', mul_zero']
  rw [← power_log hy, ← power_log hz, power_mul_power]
  refine Element.ext ?_
  rw [word_mul_power, word_mul_power, word_mul_power, Nat.add_comm, Function.iterate_add_apply]

theorem one_mul' (x : Element C) : 1 * x = x := by
  rw [mul_comm', ← power_zero]
  exact Element.ext (word_mul_power x 0)

theorem mul_inv' (x : Element C) (h : x ≠ 0) : x * x⁻¹ = 1 := by
  show x * (if x = 0 then 0 else power C (C.period - log x)) = 1
  rw [if_neg h]
  calc x * power C (C.period - log x)
      = power C (log x) * power C (C.period - log x) := by rw [power_log h]
    _ = power C C.period := by rw [power_mul_power, Nat.add_sub_cancel' (log_lt h).le]
    _ = 1 := power_period

noncomputable instance : Field (Element C) :=
  Field.ofMinimalAxioms (Element C)
    (fun x y z => Element.ext (BitVec.xor_assoc x.word y.word z.word))
    (fun x => Element.ext (BitVec.zero_xor))
    (fun x => Element.ext (BitVec.xor_self))
    mul_assoc' mul_comm' one_mul' mul_inv' (if_pos rfl)
    (fun x y z => by rw [mul_comm', add_mul', mul_comm' y x, mul_comm' z x])
    ⟨1, 0, fun h => C.one_ne (congrArg Element.word h)⟩

/-- An element is its own opposite. -/
theorem add_self (x : Element C) : x + x = 0 := Element.ext BitVec.xor_self

instance : CharP (Element C) 2 :=
  CharTwo.of_one_ne_zero_of_two_eq_zero one_ne_zero (by rw [← one_add_one_eq_two]; exact add_self 1)

/-- The powers are those of the first one. -/
theorem power_eq_pow (k : ℕ) : power C k = power C 1 ^ k := by
  induction k with
  | zero => rw [pow_zero, power_zero]
  | succ k ih => rw [pow_succ, ← ih, power_mul_power]

/-- **Exponents count modulo the period.** -/
theorem power_eq_one_iff (k : ℕ) : power C k = 1 ↔ C.period ∣ k := by
  constructor
  · intro h
    have hmod : power C (k % C.period) = 1 := by
      have hword : C.shift^[k] C.one = C.shift^[k % C.period] C.one := by
        conv_lhs => rw [← Nat.mod_add_div' k C.period]
        exact shift_add_mul_period _ _
      rw [← h]
      exact Element.ext hword.symm
    refine Nat.dvd_of_mod_eq_zero ?_
    by_contra hne
    exact C.least (k % C.period) (Nat.pos_of_ne_zero hne) (Nat.mod_lt _ C.period_pos)
      (congrArg Element.word hmod)
  · rintro ⟨n, rfl⟩
    rw [power_eq_pow, pow_mul, ← power_eq_pow, power_period, one_pow]

theorem power_mod (k : ℕ) : power C (k % C.period) = power C k := by
  refine Element.ext ?_
  conv_rhs => rw [← Nat.mod_add_div' k C.period]
  exact (shift_add_mul_period _ _).symm

end Element

end Cycle

end Coding
