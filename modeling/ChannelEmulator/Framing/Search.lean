import Mathlib.Data.List.Basic
import Mathlib.Tactic.Common
import Mathlib.Tactic.Ring

/-!
# Cutting units out of a marked stream

A stream over any type, with a test `hit` that tells whether a marker of length `n`
starts at the head of the rest. `scan` is the position-by-position search: where the
marker is not hit it moves on by one element, where it is hit it takes the `L` elements
after the marker as one unit.

* `scan_drop`: elements at which no marker starts can be dropped.
* `scan_hit`, `scan_short`: what a hit yields.
* `scan_framed`: **a stream of marked units yields these units**.
-/

namespace Framing

variable {α : Type*}

/-- The units found in a stream. The last one is not reported while it is unfinished. -/
def scan (hit : List α → Bool) (n L : ℕ) : List α → List (List α)
  | [] => []
  | a :: t =>
    if hit (a :: t) then
      if n + L ≤ t.length + 1 then
        ((a :: t).drop n).take L :: scan hit n L (t.drop (n + L - 1))
      else []
    else scan hit n L t
termination_by s => s.length
decreasing_by all_goals simp only [List.length_drop, List.length_cons]; omega

variable {hit : List α → Bool} {n L : ℕ}

@[simp] theorem scan_nil : scan hit n L [] = [] := by rw [scan]

theorem scan_miss {a : α} {t : List α} (h : hit (a :: t) = false) :
    scan hit n L (a :: t) = scan hit n L t := by
  rw [scan, h, if_neg Bool.false_ne_true]

/-- Elements at which no marker starts can be dropped. -/
theorem scan_drop : ∀ (j : ℕ) (s : List α), (∀ i < j, hit (s.drop i) = false) →
    scan hit n L s = scan hit n L (s.drop j) := by
  intro j
  induction j with
  | zero => intro s _; rfl
  | succ j ih =>
    intro s hs
    cases s with
    | nil => simp
    | cons a t =>
      rw [scan_miss (hs 0 (by omega)), List.drop_succ_cons]
      exact ih t fun i hi => by simpa using hs (i + 1) (by omega)

/-- A hit with its whole unit behind it. -/
theorem scan_hit {s : List α} (hs : hit s = true) (hn : 0 < n) (hl : n + L ≤ s.length) :
    scan hit n L s = (s.drop n).take L :: scan hit n L (s.drop (n + L)) := by
  cases s with
  | nil => simp at hl; omega
  | cons a t =>
    rw [scan, if_pos hs, if_pos (by simpa using hl)]
    rw [show n + L = (n + L - 1) + 1 by omega, List.drop_succ_cons, Nat.add_sub_cancel]

/-- A hit whose unit is not finished. -/
theorem scan_short {s : List α} (hs : hit s = true) (hl : s.length < n + L) :
    scan hit n L s = [] := by
  cases s with
  | nil => simp
  | cons a t => rw [scan, if_pos hs, if_neg (by simpa using hl)]

/-- Nothing is found in less than a marker's length. -/
theorem scan_of_length_lt (hh : ∀ s, hit s = true → n ≤ s.length) :
    ∀ s : List α, s.length < n → scan hit n L s = [] := by
  intro s
  induction s with
  | nil => intro _; simp
  | cons a t ih =>
    intro hs
    have hm : hit (a :: t) = false := by
      by_contra hc
      have := hh _ (by simpa using hc)
      omega
    rw [scan_miss hm]
    exact ih (by simp at hs; omega)

/-- The marked form of a list of units. -/
def framed (m : List α) (us : List (List α)) : List α := (us.map (m ++ ·)).flatten

@[simp] theorem framed_nil (m : List α) : framed m [] = [] := rfl

@[simp] theorem framed_cons (m u : List α) (us : List (List α)) :
    framed m (u :: us) = m ++ (u ++ framed m us) := by simp [framed]

/-- The marked form from its `q`-th unit on. -/
theorem framed_drop {m : List α} : ∀ (q : ℕ) (us : List (List α)), (∀ u ∈ us, u.length = L) →
    (framed m us).drop (q * (m.length + L)) = framed m (us.drop q) := by
  intro q
  induction q with
  | zero => intro us _; simp
  | succ q ih =>
    intro us hu
    cases us with
    | nil => simp
    | cons u us =>
      have hL : u.length = L := hu u (by simp)
      rw [framed_cons, List.drop_succ_cons, ← ih us fun v hv => hu v (by simp [hv]),
        show (q + 1) * (m.length + L) = m.length + (L + q * (m.length + L)) by ring,
        ← List.drop_drop, List.drop_left, ← List.drop_drop, List.drop_left' hL]

/-- Wherever the marked form has an element left, a marker starts. -/
theorem exists_framed_drop {m : List α} {us : List (List α)} (hu : ∀ u ∈ us, u.length = L) {q : ℕ}
    (h : (framed m us).drop (q * (m.length + L)) ≠ []) :
    ∃ t, (framed m us).drop (q * (m.length + L)) = m ++ t := by
  rw [framed_drop q us hu] at h ⊢
  cases hd : us.drop q with
  | nil => rw [hd] at h; exact absurd rfl h
  | cons u vs => exact ⟨_, framed_cons m u vs⟩

/-- **A stream of marked units yields these units**, whatever their octets. -/
theorem scan_framed {m : List α} (hm : ∀ t, hit (m ++ t) = true) (hne : m ≠ []) :
    ∀ us : List (List α), (∀ u ∈ us, u.length = L) →
      scan hit m.length L (framed m us) = us := by
  intro us
  induction us with
  | nil => intro _; simp
  | cons u us ih =>
    intro hu
    have hL : u.length = L := hu u (by simp)
    have hpos : 0 < m.length := List.length_pos_iff.2 hne
    rw [framed_cons, scan_hit (hm _) hpos (by simp; omega), ← List.drop_drop,
      List.drop_left, List.take_left' hL, List.drop_left' hL,
      ih fun v hv => hu v (by simp [hv])]

end Framing
