import Mathlib.Data.List.Perm.Basic
import Mathlib.Data.List.Pairwise

/-!
# Bottom-up merge sort

The sort of a linked list: each element is carried through bins of sorted lists, as a counter is increased, and
the bins are merged in the end. The comparator is any test.

* `listSort_perm`: it keeps the elements.
* `listSort_pairwise`: **it sorts by any transitive relation that the comparator decides one way or the other**;
  the comparator need not be strict.
-/

namespace Sorting

variable {α : Type*}

/-- The elements of the second list go ahead of those of the first where the comparator says so. -/
def merge (comp : α → α → Bool) : List α → List α → List α
  | [], ys => ys
  | x :: xs, [] => x :: xs
  | x :: xs, y :: ys => if comp y x then y :: merge comp (x :: xs) ys else x :: merge comp xs (y :: ys)

/-- A list that is carried into the bins: full bins are merged with it and emptied, up to the first that is
empty. -/
def carry (comp : α → α → Bool) : List α → List (List α) → List (List α)
  | xs, [] => [xs]
  | xs, [] :: bins => xs :: bins
  | xs, (y :: ys) :: bins => [] :: carry comp (merge comp (y :: ys) xs) bins

/-- The bins, merged from the first on. -/
def mergeBins (comp : α → α → Bool) : List α → List (List α) → List α
  | xs, [] => xs
  | xs, bin :: bins => mergeBins comp (merge comp bin xs) bins

/-- The sort. -/
def listSort (comp : α → α → Bool) (xs : List α) : List α :=
  mergeBins comp [] (xs.foldl (fun bins x => carry comp [x] bins) [])

variable {comp : α → α → Bool}

/-! ## The elements -/

theorem merge_perm (xs ys : List α) : (merge comp xs ys).Perm (xs ++ ys) := by
  induction xs, ys using merge.induct comp with
  | case1 ys => rw [merge, List.nil_append]
  | case2 x xs => rw [merge, List.append_nil]
  | case3 x xs y ys hcomp ih =>
    rw [merge, if_pos hcomp]
    exact (ih.cons y).trans List.perm_middle.symm
  | case4 x xs y ys hcomp ih =>
    rw [merge, if_neg hcomp]
    exact ih.cons x

theorem carry_perm (xs : List α) (bins : List (List α)) : (carry comp xs bins).flatten.Perm (xs ++ bins.flatten) := by
  induction bins generalizing xs with
  | nil => rw [carry, List.flatten_cons]
  | cons bin bins ih =>
    cases bin with
    | nil => rw [carry, List.flatten_cons, List.flatten_cons, List.nil_append]
    | cons y ys =>
      rw [carry, List.flatten_cons, List.flatten_cons, List.nil_append]
      refine (ih _).trans ?_
      rw [← List.append_assoc]
      exact ((merge_perm _ _).trans List.perm_append_comm).append_right _

theorem mergeBins_perm (xs : List α) (bins : List (List α)) :
    (mergeBins comp xs bins).Perm (xs ++ bins.flatten) := by
  induction bins generalizing xs with
  | nil => rw [mergeBins, List.flatten_nil, List.append_nil]
  | cons bin bins ih =>
    rw [mergeBins, List.flatten_cons, ← List.append_assoc]
    exact (ih _).trans (((merge_perm _ _).trans List.perm_append_comm).append_right _)

/-- **The sort keeps the elements.** -/
theorem listSort_perm (xs : List α) : (listSort comp xs).Perm xs := by
  have hcarry : ∀ bins : List (List α),
      (xs.foldl (fun bins x => carry comp [x] bins) bins).flatten.Perm (bins.flatten ++ xs) := by
    induction xs with
    | nil =>
      intro bins
      rw [List.foldl_nil, List.append_nil]
    | cons x xs ih =>
      intro bins
      rw [List.foldl_cons]
      refine (ih _).trans (((carry_perm [x] bins).append_right xs).trans ?_)
      rw [List.append_assoc, List.singleton_append]
      exact List.perm_middle.symm
  exact (mergeBins_perm [] _).trans (hcarry [])

/-! ## The order -/

section

variable {P : α → Prop} {R : α → α → Prop} (htrans : ∀ a b c, R a b → R b c → R a c)
  (hpos : ∀ a b, P a → P b → comp a b → R a b) (hneg : ∀ a b, P a → P b → comp a b = false → R b a)

/-- A sorted list of elements that the comparator is right about. -/
def Ordered (P : α → Prop) (R : α → α → Prop) (xs : List α) : Prop := xs.Pairwise R ∧ ∀ x ∈ xs, P x

include htrans hpos hneg

theorem merge_ordered {xs ys : List α} (hx : Ordered P R xs) (hy : Ordered P R ys) :
    Ordered P R (merge comp xs ys) := by
  refine ⟨?_, fun x hmem => (List.mem_append.1 ((merge_perm xs ys).mem_iff.1 hmem)).elim (hx.2 x) (hy.2 x)⟩
  obtain ⟨hx, hPx⟩ := hx
  obtain ⟨hy, hPy⟩ := hy
  induction xs, ys using merge.induct comp with
  | case1 ys =>
    rw [merge]
    exact hy
  | case2 x xs =>
    rw [merge]
    exact hx
  | case3 x xs y ys hcomp ih =>
    rw [merge, if_pos hcomp]
    obtain ⟨hfirst, hys⟩ := List.pairwise_cons.1 hy
    refine List.pairwise_cons.2 ⟨fun z hz => ?_, ih hx hPx hys fun z hz => hPy z (List.mem_cons_of_mem y hz)⟩
    have hyx := hpos y x (hPy y List.mem_cons_self) (hPx x List.mem_cons_self) hcomp
    rcases List.mem_append.1 ((merge_perm _ _).mem_iff.1 hz) with hz | hz
    · rcases List.mem_cons.1 hz with rfl | hz
      · exact hyx
      · exact htrans _ _ _ hyx ((List.pairwise_cons.1 hx).1 z hz)
    · exact hfirst z hz
  | case4 x xs y ys hcomp ih =>
    rw [merge, if_neg hcomp]
    obtain ⟨hfirst, hxs⟩ := List.pairwise_cons.1 hx
    refine List.pairwise_cons.2 ⟨fun z hz => ?_, ih hxs (fun z hz => hPx z (List.mem_cons_of_mem x hz)) hy hPy⟩
    have hxy := hneg y x (hPy y List.mem_cons_self) (hPx x List.mem_cons_self) (by simpa using hcomp)
    rcases List.mem_append.1 ((merge_perm _ _).mem_iff.1 hz) with hz | hz
    · exact hfirst z hz
    · rcases List.mem_cons.1 hz with rfl | hz
      · exact hxy
      · exact htrans _ _ _ hxy ((List.pairwise_cons.1 hy).1 z hz)

theorem carry_ordered {xs : List α} {bins : List (List α)} (hx : Ordered P R xs)
    (hbins : ∀ bin ∈ bins, Ordered P R bin) : ∀ bin ∈ carry comp xs bins, Ordered P R bin := by
  induction bins generalizing xs with
  | nil =>
    intro bin hbin
    rwa [List.mem_singleton.1 hbin]
  | cons bin bins ih =>
    have hrest : ∀ b ∈ bins, Ordered P R b := fun b hb => hbins b (List.mem_cons_of_mem bin hb)
    cases bin with
    | nil =>
      intro b hb
      rcases List.mem_cons.1 hb with rfl | hb
      · exact hx
      · exact hrest b hb
    | cons y ys =>
      intro b hb
      rcases List.mem_cons.1 hb with rfl | hb
      · exact ⟨List.Pairwise.nil, by simp⟩
      · exact ih (merge_ordered htrans hpos hneg (hbins _ List.mem_cons_self) hx) hrest b hb

theorem mergeBins_ordered {xs : List α} {bins : List (List α)} (hx : Ordered P R xs)
    (hbins : ∀ bin ∈ bins, Ordered P R bin) : Ordered P R (mergeBins comp xs bins) := by
  induction bins generalizing xs with
  | nil => exact hx
  | cons bin bins ih =>
    rw [mergeBins]
    exact ih (merge_ordered htrans hpos hneg (hbins bin List.mem_cons_self) hx)
      fun b hb => hbins b (List.mem_cons_of_mem bin hb)

/-- **The sort puts the elements in order.** -/
theorem listSort_pairwise {xs : List α} (hP : ∀ x ∈ xs, P x) : (listSort comp xs).Pairwise R := by
  have hcarry : ∀ bins : List (List α), (∀ bin ∈ bins, Ordered P R bin) →
      ∀ bin ∈ xs.foldl (fun bins x => carry comp [x] bins) bins, Ordered P R bin := by
    induction xs with
    | nil => exact fun bins hbins => hbins
    | cons x xs ih =>
      intro bins hbins
      rw [List.foldl_cons]
      refine ih (fun y hy => hP y (List.mem_cons_of_mem x hy)) _
        (carry_ordered htrans hpos hneg ⟨List.pairwise_singleton R x, fun y hy => ?_⟩ hbins)
      rw [List.mem_singleton.1 hy]
      exact hP x List.mem_cons_self
  exact (mergeBins_ordered htrans hpos hneg ⟨List.Pairwise.nil, by simp⟩ (hcarry [] (by simp))).1

end

end Sorting
