import Mathlib.Data.List.Basic
import Mathlib.Tactic.Common

/-!
# Resolving the components of a path

A path is a list of components: the directory it has come to, the one above, or a name in it. It goes
from a directory, which is given by its names from the topmost on.

* `walk_eq`: a path goes so many directories up and then down by names.
* `prefix_walk_iff`: **a path ends in or below its start** just when it names again what it climbs.
-/

namespace Paths

inductive Component (α : Type*)
  | here
  | up
  | name (a : α)
deriving DecidableEq

variable {α : Type*}

/-- Where a path goes from a directory. There is nothing above the topmost. -/
def walk (dir : List α) : List (Component α) → List α
  | [] => dir
  | .here :: path => walk dir path
  | .up :: path => walk dir.dropLast path
  | .name a :: path => walk (dir ++ [a]) path

/-- How far a path climbs above its start, and the names it takes from there. -/
def climb (ups : ℕ) (names : List α) : List (Component α) → ℕ × List α
  | [] => (ups, names)
  | .here :: path => climb ups names path
  | .up :: path =>
    match names with
    | [] => climb (ups + 1) [] path
    | _ :: _ => climb ups names.dropLast path
  | .name a :: path => climb ups (names ++ [a]) path

/-- The names that a path takes are, to begin with, those of the directories that it has climbed. -/
def Returns (dir : List α) (path : List (Component α)) : Prop :=
  dir.drop (dir.length - (climb 0 [] path).1) <+: (climb 0 [] path).2

instance [DecidableEq α] (dir : List α) (path : List (Component α)) : Decidable (Returns dir path) :=
  inferInstanceAs (Decidable (_ <+: _))

theorem walk_append (dir : List α) (path path' : List (Component α)) :
    walk dir (path ++ path') = walk (walk dir path) path' := by
  induction path generalizing dir with
  | nil => rfl
  | cons c path ih =>
    cases c with
    | here => exact ih dir
    | up => exact ih dir.dropLast
    | name a => exact ih (dir ++ [a])

/-- What a path has climbed and named so far is what it goes on with. -/
theorem walk_climb (dir : List α) (ups : ℕ) (names : List α) (path : List (Component α)) :
    walk (dir.take (dir.length - ups) ++ names) path =
      dir.take (dir.length - (climb ups names path).1) ++ (climb ups names path).2 := by
  induction path generalizing ups names with
  | nil => rfl
  | cons c path ih =>
    cases c with
    | here => exact ih ups names
    | name a =>
      rw [walk, climb, ← ih, List.append_assoc]
    | up =>
      rw [walk]
      cases names with
      | nil =>
        have hup : (dir.take (dir.length - ups)).dropLast = dir.take (dir.length - (ups + 1)) := by
          rw [List.dropLast_eq_take, List.take_take, List.length_take]
          congr 1
          omega
        rw [climb, ← ih, List.append_nil, List.append_nil, hup]
      | cons a names =>
        rw [climb, ← ih, List.dropLast_append_of_ne_nil (List.cons_ne_nil a names)]

/-- **Where a path goes**: up, then down by names. -/
theorem walk_eq (dir : List α) (path : List (Component α)) :
    walk dir path = dir.take (dir.length - (climb 0 [] path).1) ++ (climb 0 [] path).2 := by
  have h := walk_climb dir 0 [] path
  rwa [Nat.sub_zero, List.take_length, List.append_nil] at h

/-- **A path ends in or below its start** just when it names again what it climbs. -/
theorem prefix_walk_iff (dir : List α) (path : List (Component α)) :
    dir <+: walk dir path ↔ Returns dir path := by
  have hsplit := List.take_append_drop (dir.length - (climb 0 [] path).1) dir
  rw [Returns, walk_eq]
  nth_rewrite 1 [← hsplit]
  exact List.prefix_append_right_inj _

theorem prefix_walk_of_no_up {dir : List α} {path : List (Component α)} (h : ∀ c ∈ path, c ≠ .up) :
    dir <+: walk dir path := by
  induction path generalizing dir with
  | nil => exact List.prefix_rfl
  | cons c path ih =>
    have hrest : ∀ c ∈ path, c ≠ .up := fun c hc => h c (List.mem_cons_of_mem _ hc)
    cases c with
    | here => exact ih hrest
    | up => exact absurd rfl (h .up List.mem_cons_self)
    | name a => exact (List.prefix_append dir [a]).trans (ih hrest)

/-- A name in a directory that a name differs from leads out of it. -/
theorem not_prefix_walk_name {dir : List α} {a b : α} {path : List (Component α)} (hab : a ≠ b)
    (h : ∀ c ∈ path, c ≠ .up) : ¬dir ++ [a] <+: walk dir (.name b :: path) := by
  intro hpre
  have hb : dir ++ [b] <+: walk dir (.name b :: path) := prefix_walk_of_no_up h
  have heq := List.prefix_of_prefix_length_le hpre hb (by simp)
  have hlast := heq.eq_of_length (by simp)
  exact hab (List.singleton_inj.1 (List.append_cancel_left hlast))

end Paths
