import ChannelEmulator.Network.Graph
import Mathlib.Data.List.Forall2

/-!
# Streams that share a way

Units of several streams go one way in some order, those of each stream in their own. What they stand for are things
with labels, one label for each stream.

* `Woven.run`: a machine that answers each unit with one keeps the streams.
* `Woven.merge`: **streams that come from several machines are woven** in whatever order their units arrive.
* `Woven.split`: **what is sent to each of several machines** are the streams of the labels that it is for.
-/

namespace Network

open Framing

variable {κ ι ε γ α β σ : Type*} [DecidableEq κ]

/-- The units stand for the first things of each stream, and for all of them where all is through. -/
def Woven (through : Prop) (streams : κ → List γ) (R : κ → γ → α → Prop) (units : List α) : Prop :=
  ∃ w : List (κ × γ), (∀ k, part k w <+: streams k ∧ (through → part k w = streams k)) ∧
    List.Forall₂ (fun p u => R p.1 p.2 u) w units

variable {through : Prop} {streams : κ → List γ} {R : κ → γ → α → Prop} {units : List α}

/-! ## Parts -/

theorem mem_part {k : κ} {g : γ} {w : List (κ × γ)} : g ∈ part k w ↔ (k, g) ∈ w := by
  unfold part
  rw [List.mem_filterMap]
  constructor
  · rintro ⟨⟨k', g'⟩, hmem, heq⟩
    split_ifs at heq with h
    obtain rfl := h
    obtain rfl := Option.some.inj heq
    exact hmem
  · intro hmem
    exact ⟨(k, g), hmem, if_pos rfl⟩

/-- Where no thing has a label, none of the things has it. -/
theorem label_ne {k : κ} {w : List (κ × γ)} (h : part k w <+: []) {x : κ × γ} (hx : x ∈ w) : x.1 ≠ k := by
  rintro rfl
  have hmem : x.2 ∈ part x.1 w := mem_part.2 hx
  rw [List.prefix_nil.1 h] at hmem
  cases hmem

/-- The things of a label, of those that came from the one machine that they may come from. -/
theorem part_map_snd [DecidableEq ι] {φ : κ → ι} {w : List (ι × (κ × γ))} (h : ∀ x ∈ w, φ x.2.1 = x.1) (k : κ) :
    part k (w.map Prod.snd) = part k (part (φ k) w) := by
  induction w with
  | nil => rfl
  | cons x w ih =>
    have hx := h x List.mem_cons_self
    have hrest := ih fun y hy => h y (List.mem_cons_of_mem x hy)
    rw [List.map_cons, part_cons, part_cons, hrest]
    by_cases hk : x.2.1 = k
    · subst hk
      rw [if_pos rfl, if_pos hx.symm, part_cons, if_pos rfl]
    · rw [if_neg hk]
      split_ifs with hi
      · rw [part_cons, if_neg hk]
      · rfl

/-- The things of a label, of those with some labels. -/
theorem part_filter (k : κ) (P : κ → Prop) [DecidablePred P] (w : List (κ × γ)) :
    part k (w.filter fun x => decide (P x.1)) = if P k then part k w else [] := by
  induction w with
  | nil => split_ifs <;> rfl
  | cons x w ih =>
    rw [List.filter_cons, part_cons]
    by_cases hx : x.1 = k
    · subst hx
      by_cases hP : P x.1
      · rw [if_pos (decide_eq_true hP), part_cons, if_pos rfl, ih, if_pos hP, if_pos hP, if_pos rfl]
      · rw [if_neg (by simpa using hP), ih, if_neg hP, if_neg hP]
    · rw [if_neg hx]
      split_ifs with hp hk hk
      · rw [part_cons, if_neg hx, ih, if_pos hk]
      · rw [part_cons, if_neg hx, ih, if_neg hk]
      · rw [ih, if_pos hk]
      · rw [ih, if_neg hk]

/-- What the units from each machine stand for, put together. -/
theorem exists_weave [DecidableEq ι] {P : γ → α → Prop} {got : List (ι × α)} {w : ι → List γ}
    (h : ∀ i, List.Forall₂ P (w i) (part i got)) :
    ∃ v : List (ι × γ), List.Forall₂ (fun x y => x.1 = y.1 ∧ P x.2 y.2) v got ∧ ∀ i, part i v = w i := by
  induction got generalizing w with
  | nil =>
    refine ⟨[], .nil, fun i => ?_⟩
    have hi := h i
    rw [part_nil] at hi
    cases hw : w i with
    | nil => rfl
    | cons g l =>
      rw [hw] at hi
      cases hi
  | cons y got ih =>
    have hy := h y.1
    rw [part_cons, if_pos rfl] at hy
    obtain ⟨g, l, hg, hl, hw⟩ : ∃ g l, P g y.2 ∧ List.Forall₂ P l (part y.1 got) ∧ w y.1 = g :: l := by
      cases hw : w y.1 with
      | nil =>
        rw [hw] at hy
        cases hy
      | cons g l =>
        rw [hw] at hy
        cases hy with
        | cons hg hl => exact ⟨g, l, hg, hl, rfl⟩
    obtain ⟨v, hv, hpart⟩ := ih (w := Function.update w y.1 l) fun i => by
      by_cases hi : i = y.1
      · subst hi
        rw [Function.update_self]
        exact hl
      · rw [Function.update_of_ne hi]
        have hother := h i
        rwa [part_cons, if_neg (Ne.symm hi)] at hother
    refine ⟨(y.1, g) :: v, .cons ⟨rfl, hg⟩ hv, fun i => ?_⟩
    rw [part_cons, hpart]
    by_cases hi : i = y.1
    · subst hi
      rw [if_pos rfl, Function.update_self, hw]
    · rw [if_neg (Ne.symm hi), Function.update_of_ne hi]

/-- A machine that answers each unit with one. -/
theorem runAll_answers {f : σ → α → Except ε (σ × List β)} {P : γ → α → Prop} {Q : γ → β → Prop} {I : ℕ → σ → Prop}
    (step : ∀ n s g u, I n s → P g u → ∃ s' v, f s u = .ok (s', [v]) ∧ Q g v ∧ I (n + 1) s') {gs : List γ}
    (h : List.Forall₂ P gs units) {n : ℕ} {s : σ} (hs : I n s) :
    ∃ s' out, runAll f s units = .ok (s', out) ∧ List.Forall₂ Q gs out ∧ I (n + units.length) s' := by
  induction h generalizing n s with
  | nil => exact ⟨s, [], rfl, .nil, hs⟩
  | @cons g u gs units hp _ ih =>
    obtain ⟨s₁, v, hstep, hv, hs₁⟩ := step n s g u hs hp
    obtain ⟨s₂, out, hout, hQ, hs₂⟩ := ih hs₁
    refine ⟨s₂, v :: out, runAll_cons hstep hout, .cons hv hQ, ?_⟩
    rwa [List.length_cons, show n + (units.length + 1) = n + 1 + units.length by omega]

namespace Woven

theorem nil (h : through → ∀ k, streams k = []) : Woven through streams R [] :=
  ⟨[], fun k => ⟨⟨_, rfl⟩, fun ht => (h ht k).symm⟩, .nil⟩

theorem congr {streams' : κ → List γ} (h : Woven through streams R units) (hstreams : ∀ k, streams k = streams' k) :
    Woven through streams' R units := by
  obtain rfl := funext hstreams
  exact h

/-- The first of the units. -/
theorem take {first : List α} (h : Woven through streams R units)
    (hfirst : first <+: units ∧ (through → first = units)) : Woven through streams R first := by
  obtain ⟨w, hw, hR⟩ := h
  obtain ⟨⟨rest, rfl⟩, hall⟩ := hfirst
  have hpre : w.take first.length <+: w := List.take_prefix _ _
  refine ⟨w.take first.length, fun k => ⟨(part_mono k hpre).trans (hw k).1, fun ht => ?_⟩,
    List.forall₂_take_append _ _ _ hR⟩
  rw [List.take_of_length_le, (hw k).2 ht]
  rw [hR.length_eq, ← hall ht]

/-- What the units stand for is of the streams. -/
theorem mem (h : Woven through streams R units) :
    Woven through streams (fun k g u => g ∈ streams k ∧ R k g u) units := by
  obtain ⟨w, hw, hR⟩ := h
  refine ⟨w, hw, ?_⟩
  have hmem : ∀ x ∈ w, x.2 ∈ streams x.1 := fun x hx => (hw x.1).1.subset (mem_part.2 hx)
  clear hw
  induction hR with
  | nil => exact .nil
  | @cons x u w units hxu _ ih =>
    exact .cons ⟨hmem x List.mem_cons_self, hxu⟩ (ih fun y hy => hmem y (List.mem_cons_of_mem x hy))

/-- **The rule of a stage**: each unit is answered with one that stands for the same thing. -/
theorem run {f : σ → α → Except ε (σ × List β)} {Q : κ → γ → β → Prop} {I : ℕ → σ → Prop}
    (step : ∀ n s k g u, I n s → R k g u → ∃ s' v, f s u = .ok (s', [v]) ∧ Q k g v ∧ I (n + 1) s')
    (h : Woven through streams R units) {s : σ} (hs : I 0 s) :
    ∃ s' out, runAll f s units = .ok (s', out) ∧ Woven through streams Q out ∧ I units.length s' := by
  obtain ⟨w, hw, hR⟩ := h
  obtain ⟨s', out, hout, hQ, hs'⟩ := runAll_answers (fun n s p u => step n s p.1 p.2 u) hR hs
  rw [Nat.zero_add] at hs'
  exact ⟨s', out, hout, ⟨w, hw, hQ⟩, hs'⟩

/-- **Streams from several machines**, each from one of them, are woven in the order in which their units arrive. -/
theorem merge [DecidableEq ι] (φ : κ → ι) {got : List (ι × α)}
    (h : ∀ i, Woven through (fun k => if φ k = i then streams k else []) R (part i got)) :
    Woven through streams R (got.map Prod.snd) := by
  choose w hw hR using h
  dsimp only at hw
  obtain ⟨v, hv, hpart⟩ := exists_weave hR
  have hfrom : ∀ x ∈ v, φ x.2.1 = x.1 := by
    intro x hx
    by_contra hne
    -- a machine that the stream does not come from has none of its things
    have hempty := (hw x.1 x.2.1).1
    rw [if_neg hne] at hempty
    have hmem : x.2 ∈ w x.1 := by
      rw [← hpart]
      exact mem_part.2 hx
    exact label_ne hempty hmem rfl
  refine ⟨v.map Prod.snd, fun k => ?_, ?_⟩
  · have hk := hw (φ k) k
    rw [if_pos rfl] at hk
    rw [part_map_snd hfrom, hpart]
    exact hk
  · rw [List.forall₂_map_left_iff, List.forall₂_map_right_iff]
    exact hv.imp fun _ _ hxy => hxy.2

/-- **Streams that part**: what is sent to a machine stands for the things with the labels that it is for. -/
theorem split [DecidableEq ι] (ψ : κ → ι) {out : List (ι × α)}
    (h : Woven through streams (fun k g q => q.1 = ψ k ∧ R k g q.2) out) (i : ι) :
    Woven through (fun k => if ψ k = i then streams k else []) R (part i out) := by
  obtain ⟨w, hw, hR⟩ := h
  refine ⟨w.filter fun x => decide (ψ x.1 = i), fun k => ?_, ?_⟩
  · dsimp only
    rw [part_filter k fun k => ψ k = i]
    split_ifs
    · exact hw k
    · exact ⟨⟨_, rfl⟩, fun _ => rfl⟩
  · clear hw
    induction hR with
    | nil => exact .nil
    | @cons x q w out hxq _ ih =>
      rw [List.filter_cons, part_cons, hxq.1]
      by_cases hi : ψ x.1 = i
      · rw [if_pos (decide_eq_true hi), if_pos hi]
        exact .cons hxq.2 ih
      · rw [if_neg (by simpa using hi), if_neg hi]
        exact ih

/-- One stream alone. -/
theorem single {k : κ} {things first : List γ} (hfirst : first <+: things ∧ (through → first = things))
    (h : List.Forall₂ (R k) first units) : Woven through (fun k' => if k = k' then things else []) R units := by
  refine ⟨first.map (k, ·), fun k' => ?_, List.forall₂_map_left_iff.2 h⟩
  dsimp only
  rw [part_toward]
  split_ifs
  · exact hfirst
  · exact ⟨⟨_, rfl⟩, fun _ => rfl⟩

end Woven

end Network
