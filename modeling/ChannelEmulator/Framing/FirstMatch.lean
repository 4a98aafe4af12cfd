import Mathlib.Data.List.Basic
import Mathlib.Tactic.Common

/-!
# The first place of a needle in data that grows

`firstFrom needle offset u` is the first place, from an offset on, at which a needle stands in a list.

* `firstFrom_eq_some_iff`, `firstFrom_eq_none_iff`: what a search finds.
* `firstFrom_take_some`, `firstFrom_take_none`: **the front of a list shows a needle at its place in the whole, and
  only once it reaches behind it.**
-/

namespace Framing

variable {α : Type*} {needle u v : List α} {i k offset : ℕ}

/-- The needle stands at a place. -/
def StandsAt (needle u : List α) (i : ℕ) : Prop := (u.drop i).take needle.length = needle

instance [DecidableEq α] : Decidable (StandsAt needle u i) := inferInstanceAs (Decidable (_ = _))

/-- The first place from an offset on at which a needle stands. -/
def firstFrom [DecidableEq α] (needle : List α) (offset : ℕ) (u : List α) : Option ℕ :=
  (List.range' offset (u.length + 1 - needle.length - offset)).find? fun i => StandsAt needle u i

theorem StandsAt.add_le (h : StandsAt needle u i) (hneedle : needle ≠ []) : i + needle.length ≤ u.length := by
  have hlen := congrArg List.length h
  rw [List.length_take, List.length_drop] at hlen
  have hpos := List.length_pos_iff.2 hneedle
  omega

theorem StandsAt.getElem? (h : StandsAt needle u i) {j : ℕ} (hj : j < needle.length) :
    u[i + j]? = needle[j]? := by
  conv_rhs => rw [← h]
  rw [List.getElem?_take_of_lt hj, List.getElem?_drop]

/-- Behind a first part, a needle stands where it stands in the rest. -/
theorem standsAt_append (hi : u.length ≤ i) : StandsAt needle (u ++ v) i ↔ StandsAt needle v (i - u.length) := by
  unfold StandsAt
  rw [List.drop_append, List.drop_eq_nil_of_le hi, List.nil_append]

/-- In the front of a list a needle stands where it stands in the list. -/
theorem standsAt_take (hneedle : needle ≠ []) :
    StandsAt needle (u.take k) i ↔ StandsAt needle u i ∧ i + needle.length ≤ k := by
  have hiff : i + needle.length ≤ k → (StandsAt needle (u.take k) i ↔ StandsAt needle u i) := fun hle => by
    unfold StandsAt
    rw [List.drop_take, List.take_take, Nat.min_eq_left (by omega)]
  constructor
  · intro h
    have hle : i + needle.length ≤ k := Nat.le_trans (h.add_le hneedle) (List.length_take_le k u)
    exact ⟨(hiff hle).1 h, hle⟩
  · rintro ⟨h, hle⟩
    exact (hiff hle).2 h

/-- A needle that stands in a list without anything of its second part stands in the first part. -/
theorem StandsAt.left (h : StandsAt needle (u ++ v) i) (hneedle : needle ≠ []) (hv : ∀ a ∈ v, a ∉ needle) :
    StandsAt needle u i := by
  have hadd := h.add_le hneedle
  have hpos := List.length_pos_iff.2 hneedle
  have hle : i + needle.length ≤ u.length := by
    by_contra hlt
    -- the first element of the second part that the needle takes
    have hj : max i u.length - i < needle.length := by omega
    have hget := h.getElem? hj
    rw [Nat.add_sub_cancel' (Nat.le_max_left ..), List.getElem?_append_right (Nat.le_max_right ..),
      List.getElem?_eq_getElem hj] at hget
    exact hv _ (List.mem_of_getElem? hget) (List.getElem_mem hj)
  have htake := (standsAt_take hneedle).2 ⟨h, hle⟩
  rwa [List.take_left] at htake

variable [DecidableEq α]

theorem firstFrom_eq_some_iff (hneedle : needle ≠ []) : firstFrom needle offset u = some i ↔
    offset ≤ i ∧ StandsAt needle u i ∧ ∀ j, offset ≤ j → j < i → ¬ StandsAt needle u j := by
  unfold firstFrom
  rw [List.find?_range'_eq_some]
  simp only [decide_eq_true_eq, List.mem_range'_1, Bool.not_eq_true', decide_eq_false_iff_not]
  constructor
  · rintro ⟨h, ⟨hle, -⟩, hfirst⟩
    exact ⟨hle, h, hfirst⟩
  · rintro ⟨hle, h, hfirst⟩
    have hadd := h.add_le hneedle
    exact ⟨h, ⟨hle, by omega⟩, hfirst⟩

theorem firstFrom_eq_none_iff (hneedle : needle ≠ []) :
    firstFrom needle offset u = none ↔ ∀ j, offset ≤ j → ¬ StandsAt needle u j := by
  unfold firstFrom
  rw [List.find?_range'_eq_none]
  simp only [Bool.not_eq_true', decide_eq_false_iff_not]
  constructor
  · intro h j hj hstands
    have hadd := hstands.add_le hneedle
    exact h j hj (by omega) hstands
  · intro h j hj _
    exact h j hj

/-- The front of a list that reaches behind the first needle shows it. -/
theorem firstFrom_take_some (hneedle : needle ≠ []) (h : firstFrom needle offset u = some i)
    (hk : i + needle.length ≤ k) : firstFrom needle offset (u.take k) = some i := by
  obtain ⟨hle, hstands, hfirst⟩ := (firstFrom_eq_some_iff hneedle).1 h
  refine (firstFrom_eq_some_iff hneedle).2 ⟨hle, (standsAt_take hneedle).2 ⟨hstands, hk⟩, ?_⟩
  intro j hj hlt hstandsj
  exact hfirst j hj hlt ((standsAt_take hneedle).1 hstandsj).1

/-- The front of a list that ends before the first needle does shows none. -/
theorem firstFrom_take_none (hneedle : needle ≠ []) (h : firstFrom needle offset u = some i)
    (hk : k < i + needle.length) : firstFrom needle offset (u.take k) = none := by
  obtain ⟨-, -, hfirst⟩ := (firstFrom_eq_some_iff hneedle).1 h
  refine (firstFrom_eq_none_iff hneedle).2 fun j hj hstands => ?_
  obtain ⟨hu, hle⟩ := (standsAt_take hneedle).1 hstands
  exact hfirst j hj (by omega) hu

/-- A needle whose first element is not in the list before it. -/
theorem firstFrom_append {a : α} {t : List α} (h : a ∉ u) :
    firstFrom (a :: t) 0 (u ++ ((a :: t) ++ v)) = some u.length := by
  refine (firstFrom_eq_some_iff (List.cons_ne_nil a t)).2 ⟨Nat.zero_le _, ?_, ?_⟩
  · rw [standsAt_append (Nat.le_refl _), Nat.sub_self]
    unfold StandsAt
    rw [List.drop_zero, List.take_left]
  · intro j _ hj hstands
    have hget := hstands.getElem? (Nat.succ_pos t.length)
    rw [Nat.add_zero, List.getElem?_append_left hj] at hget
    exact h (List.mem_of_getElem? hget)

end Framing
