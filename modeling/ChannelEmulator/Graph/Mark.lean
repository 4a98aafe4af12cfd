import Mathlib.Data.Finset.Card
import Mathlib.Logic.Relation

/-!
# Marking what is reached

A depth-first walk that marks each node once, before the nodes that its edges lead to.

* `markFrom_returns`: **a walk over finitely many nodes ends**, also over cycles; what it marks is closed but for
  what was marked before.
* `mem_markFrom_iff`: **it marks just the nodes that are reached.**
* `card_lt_of_reaches`: without cycles, a node reaches more nodes than those that it reaches.
-/

namespace Marking

variable {ν : Type*} [DecidableEq ν]

/-- Marks the nodes of a list that are not marked, each with all that its edges lead to. `none`: more walks are
nested than are allowed. -/
def markFrom (edges : ν → List ν) : ℕ → List ν → Finset ν → Option (Finset ν)
  | 0, _, _ => none
  | fuel + 1, ns, marked =>
    ns.foldlM (fun marked n => if n ∈ marked then some marked else markFrom edges fuel (edges n) (insert n marked))
      marked

/-- An edge. -/
def Edge (edges : ν → List ν) (a b : ν) : Prop := b ∈ edges a

/-- What a walk has marked, besides what was marked before: the nodes of the list, the targets of the edges of
all that is new, and nothing that is not reached. -/
structure Marks (edges : ν → List ν) (ns : List ν) (old new : Finset ν) : Prop where
  old_subset : old ⊆ new
  list_mem : ∀ n ∈ ns, n ∈ new
  closed : ∀ n ∈ new, n ∉ old → ∀ m ∈ edges n, m ∈ new
  reached : ∀ n ∈ new, n ∉ old → ∃ m ∈ ns, Relation.ReflTransGen (Edge edges) m n

variable {edges : ν → List ν} {U : Finset ν}

omit [DecidableEq ν] in
theorem Marks.refl {ns : List ν} {old : Finset ν} (h : ∀ n ∈ ns, n ∈ old) : Marks edges ns old old where
  old_subset := Finset.Subset.refl old
  list_mem := h
  closed _ hn hnot := absurd hn hnot
  reached _ hn hnot := absurd hn hnot

theorem Marks.cons {n : ν} {ns : List ν} {old mid new : Finset ν} (h₁ : Marks edges [n] old mid)
    (h₂ : Marks edges ns mid new) : Marks edges (n :: ns) old new where
  old_subset := h₁.old_subset.trans h₂.old_subset
  list_mem m hm := by
    rcases List.mem_cons.1 hm with rfl | hm
    · exact h₂.old_subset (h₁.list_mem m List.mem_cons_self)
    · exact h₂.list_mem m hm
  closed a ha hold m hm := by
    by_cases hmid : a ∈ mid
    · exact h₂.old_subset (h₁.closed a hmid hold m hm)
    · exact h₂.closed a ha hmid m hm
  reached a ha hold := by
    by_cases hmid : a ∈ mid
    · obtain ⟨m, hm, hreach⟩ := h₁.reached a hmid hold
      exact ⟨m, List.mem_cons.2 (.inl (List.mem_singleton.1 hm)), hreach⟩
    · obtain ⟨m, hm, hreach⟩ := h₂.reached a ha hmid
      exact ⟨m, List.mem_cons_of_mem n hm, hreach⟩

/-- A node, marked ahead of what its edges lead to. -/
theorem Marks.node {n : ν} {old new : Finset ν} (h : Marks edges (edges n) (insert n old) new) :
    Marks edges [n] old new where
  old_subset := (Finset.subset_insert n old).trans h.old_subset
  list_mem m hm := by
    rw [List.mem_singleton.1 hm]
    exact h.old_subset (Finset.mem_insert_self n old)
  closed a ha hold m hm := by
    by_cases han : a = n
    · exact h.list_mem m (han ▸ hm)
    · exact h.closed a ha (fun hmem => (Finset.mem_insert.1 hmem).elim han hold) m hm
  reached a ha hold := by
    refine ⟨n, List.mem_cons_self, ?_⟩
    by_cases han : a = n
    · rw [han]
    · obtain ⟨m, hm, hreach⟩ := h.reached a ha fun hmem => (Finset.mem_insert.1 hmem).elim han hold
      exact hreach.head hm

/-- **A walk over finitely many nodes ends.** -/
theorem markFrom_returns (hedges : ∀ n ∈ U, ∀ m ∈ edges n, m ∈ U) :
    ∀ (fuel : ℕ) {ns : List ν} {old : Finset ν}, (∀ n ∈ ns, n ∈ U) → old ⊆ U → U.card < fuel + old.card →
      ∃ new, markFrom edges fuel ns old = some new ∧ new ⊆ U ∧ Marks edges ns old new := by
  intro fuel
  induction fuel with
  | zero =>
    intro ns old _ hold hcard
    have := Finset.card_le_card hold
    omega
  | succ fuel ih =>
    intro ns old hns hold hcard
    unfold markFrom
    induction ns generalizing old with
    | nil =>
      exact ⟨old, rfl, hold, .refl fun n hn => absurd hn List.not_mem_nil⟩
    | cons n ns ihns =>
      obtain ⟨mid, hmid, hmidU, hmarks⟩ : ∃ mid, (if n ∈ old then some old
          else markFrom edges fuel (edges n) (insert n old)) = some mid ∧ mid ⊆ U ∧ Marks edges [n] old mid := by
        by_cases hn : n ∈ old
        · rw [if_pos hn]
          refine ⟨old, rfl, hold, .refl fun m hm => ?_⟩
          rwa [List.mem_singleton.1 hm]
        · rw [if_neg hn]
          have hnU := hns n List.mem_cons_self
          -- one node more is marked, and one walk less may be nested
          obtain ⟨mid, hmid, hmidU, hmarks⟩ := ih (hedges n hnU) (Finset.insert_subset hnU hold)
            (by rw [Finset.card_insert_of_notMem hn]; omega)
          exact ⟨mid, hmid, hmidU, hmarks.node⟩
      have hle := Finset.card_le_card hmarks.old_subset
      obtain ⟨new, hnew, hnewU, hrest⟩ := ihns (fun m hm => hns m (List.mem_cons_of_mem n hm)) hmidU (by omega)
      refine ⟨new, ?_, hnewU, hmarks.cons hrest⟩
      rw [List.foldlM_cons, hmid]
      exact hnew

/-- **It marks just the nodes that are reached.** -/
theorem mem_markFrom_iff (hedges : ∀ n ∈ U, ∀ m ∈ edges n, m ∈ U) {fuel : ℕ} (hfuel : U.card < fuel) {ns : List ν}
    (hns : ∀ n ∈ ns, n ∈ U) : ∃ marked, markFrom edges fuel ns ∅ = some marked ∧
      ∀ x, x ∈ marked ↔ ∃ n ∈ ns, Relation.ReflTransGen (Edge edges) n x := by
  obtain ⟨marked, hmarked, -, hmarks⟩ := markFrom_returns hedges fuel hns (Finset.empty_subset U)
    (by rw [Finset.card_empty]; omega)
  refine ⟨marked, hmarked, fun x => ⟨fun hx => hmarks.reached x hx (Finset.notMem_empty x), ?_⟩⟩
  rintro ⟨n, hn, hreach⟩
  induction hreach with
  | refl => exact hmarks.list_mem n hn
  | tail _ hedge ih => exact hmarks.closed _ ih (Finset.notMem_empty _) _ hedge

omit [DecidableEq ν] in
/-- **Without cycles, a node reaches more nodes than one that it reaches.** -/
theorem card_lt_of_reaches {E : ν → ν → Prop} (hacyclic : ∀ n, ¬ Relation.TransGen E n n) {a b : ν}
    (hab : Relation.TransGen E a b) {as bs : Finset ν} (ha : ∀ x, x ∈ as ↔ Relation.TransGen E a x)
    (hb : ∀ x, x ∈ bs ↔ Relation.TransGen E b x) : bs.card < as.card := by
  refine Finset.card_lt_card ⟨fun x hx => (ha x).2 (hab.trans ((hb x).1 hx)), fun hsub => ?_⟩
  exact hacyclic b ((hb b).1 (hsub ((ha b).2 hab)))

end Marking
