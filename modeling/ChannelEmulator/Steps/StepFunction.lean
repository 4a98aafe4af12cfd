import Mathlib.Order.Lattice
import Mathlib.Order.Defs.LinearOrder

/-!
# Step functions

The function of time that a list of changes stands for.

* `stepAt_of_lt`: before the first change it has the first value.
* `stepAt_of_greatest`: **from then on it has the value of the last change at or before the time.**
* `stepAt_const`: it does not change between changes.
-/

namespace Steps

variable {T V : Type*} [LinearOrder T] {d : V} {cs : List (T × V)} {t : T}

/-- The changes are in the order of their times. -/
def Chronological (cs : List (T × V)) : Prop := cs.Pairwise fun a b => a.1 < b.1

/-- The value at a time, for changes in their order. -/
def stepAt (d : V) : List (T × V) → T → V
  | [], _ => d
  | c :: cs, t => if c.1 ≤ t then stepAt c.2 cs t else d

theorem Chronological.tail {a : T × V} (h : Chronological (a :: cs)) : Chronological cs :=
  (List.pairwise_cons.1 h).2

theorem Chronological.head_lt {a b : T × V} (h : Chronological (a :: cs)) (hb : b ∈ cs) : a.1 < b.1 :=
  (List.pairwise_cons.1 h).1 b hb

theorem Chronological.concat (h : Chronological cs) {b : T × V} (hb : ∀ a ∈ cs, a.1 < b.1) :
    Chronological (cs ++ [b]) := by
  refine List.pairwise_append.2 ⟨h, List.pairwise_singleton _ _, fun a ha b' hb' => ?_⟩
  rw [List.mem_singleton.1 hb']
  exact hb a ha

theorem stepAt_of_lt (h : ∀ a ∈ cs, t < a.1) : stepAt d cs t = d := by
  cases cs with
  | nil => rfl
  | cons c cs => exact if_neg (not_le.2 (h c List.mem_cons_self))

/-- **The last change at or before a time gives the value.** -/
theorem stepAt_of_greatest (hcs : Chronological cs) {a : T × V} (ha : a ∈ cs) (hat : a.1 ≤ t)
    (hmax : ∀ b ∈ cs, b.1 ≤ t → b.1 ≤ a.1) : stepAt d cs t = a.2 := by
  induction cs generalizing d with
  | nil => cases ha
  | cons c cs ih =>
    unfold stepAt
    rcases List.mem_cons.1 ha with rfl | ha
    · rw [if_pos hat]
      -- those after it are later than the time
      refine stepAt_of_lt fun b hb => not_le.1 fun hbt => ?_
      exact absurd (hmax b (List.mem_cons_of_mem a hb) hbt) (not_le.2 (hcs.head_lt hb))
    · rw [if_pos ((hcs.head_lt ha).le.trans hat)]
      exact ih hcs.tail ha fun b hb => hmax b (List.mem_cons_of_mem c hb)

theorem stepAt_const {t' : T} (ht : t ≤ t') (h : ∀ a ∈ cs, a.1 ≤ t' → a.1 ≤ t) :
    stepAt d cs t = stepAt d cs t' := by
  induction cs generalizing d with
  | nil => rfl
  | cons c cs ih =>
    unfold stepAt
    by_cases hc : c.1 ≤ t
    · rw [if_pos hc, if_pos (hc.trans ht)]
      exact ih fun a ha => h a (List.mem_cons_of_mem c ha)
    · rw [if_neg hc, if_neg (fun hct => hc (h c List.mem_cons_self hct))]

end Steps
