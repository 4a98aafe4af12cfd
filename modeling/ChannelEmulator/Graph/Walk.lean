import Mathlib.Logic.Relation
import Mathlib.Tactic.SplitIfs
import Mathlib.Data.List.Chain
import Mathlib.Data.List.Nodup
import Mathlib.Data.List.Perm.Subperm

/-!
# Guarded walks

A depth-first walk over a graph that changes a state as it goes: `visit` finishes a node once the
nodes its edges lead to are finished. It has no set of visited nodes: it is cut short by a
`guard`, a test on the nodes whose visits are under way, which need not be exact.

* `Walk.visit_returns`, `Walk.visit_functional`: **a walk over finitely many nodes ends**, with one
  result.
* `Walk.visit_spec`: what a walk has finished, it has finished with the targets of all its edges,
  if the guard stops it at nodes under way only and no visit fails at a node of a cycle.
* `acyclic_insert`: a new edge closes no cycle when its end does not lead to its start.
-/

namespace ChannelEmulator

variable {ν σ : Type}

/-- `step` on one element after the other, up to the first that answers no. `none`: the step does
not return. -/
def inTurn (step : ν → σ → Option (Bool × σ)) : List ν → σ → Option (Bool × σ)
  | [], s => some (true, s)
  | n :: ns, s =>
    match step n s with
    | some (true, s) => inTurn step ns s
    | r => r

theorem inTurn_congr {f g : ν → σ → Option (Bool × σ)} (h : ∀ n s, f n s = g n s) (ns : List ν)
    (s : σ) : inTurn f ns s = inTurn g ns s := by
  rw [funext fun n => funext (h n)]

/-- What every step preserves, and what every answer meets, hold of the whole. -/
theorem inTurn_rule {f : ν → σ → Option (Bool × σ)} {I : σ → Prop} {Q : Bool → Prop} (hQ : Q true)
    {ns : List ν} (hstep : ∀ n ∈ ns, ∀ s b s', I s → f n s = some (b, s') → I s' ∧ Q b) {s s' : σ}
    {b : Bool} (hs : I s) (hrun : inTurn f ns s = some (b, s')) : I s' ∧ Q b := by
  induction ns generalizing s with
  | nil =>
    obtain ⟨rfl, rfl⟩ := Prod.mk.inj (Option.some.inj hrun)
    exact ⟨hs, hQ⟩
  | cons n ns ih =>
    cases hn : f n s with
    | none => simp only [inTurn, hn, reduceCtorEq] at hrun
    | some r =>
      obtain ⟨b₁, s₁⟩ := r
      have h₁ := hstep n (List.mem_cons_self ..) s b₁ s₁ hs hn
      cases b₁ with
      | false =>
        simp only [inTurn, hn] at hrun
        obtain ⟨rfl, rfl⟩ := Prod.mk.inj (Option.some.inj hrun)
        exact h₁
      | true =>
        simp only [inTurn, hn] at hrun
        exact ih (fun m hm => hstep m (List.mem_cons_of_mem _ hm)) h₁.1 hrun

/-- What a walk reads and writes: `finish` may fail. -/
structure Walk (ν σ : Type) where
  guard : List ν → ν → Bool
  finished : σ → ν → Bool
  refuses : σ → ν → Bool
  next : σ → ν → List ν
  enter : ν → σ → σ := fun _ s => s
  note : ν → ν → σ → σ := fun _ _ s => s
  finish : ν → σ → Option σ

namespace Walk

/-- The visit of a node, given how the nodes below it are visited. -/
def arrive (w : Walk ν σ) (below : ν → σ → Option (Bool × σ)) (path : List ν) (n : ν) (s : σ) :
    Option (Bool × σ) :=
  if w.guard path n then some (true, s)
  else if w.finished s n then some (true, s)
  else if w.refuses s n then some (false, s)
  else
    match inTurn below (w.next s n) (w.enter n s) with
    | some (true, s') =>
      match w.finish n s' with
      | some s'' => some (true, s'')
      | none => some (false, s')
    | r => r

/-- A visit, and what is noted about it at the node it was made for. -/
def noting (w : Walk ν σ) (n : ν) (visit : ν → σ → Option (Bool × σ)) (m : ν) (s : σ) :
    Option (Bool × σ) :=
  match visit m s with
  | some (true, s') => some (true, w.note n m s')
  | r => r

/-- The visit of `n` during the visits of `path`, in at most that many nested visits. -/
def visit (w : Walk ν σ) : ℕ → List ν → ν → σ → Option (Bool × σ)
  | 0, _, _, _ => none
  | k + 1, path, n, s => w.arrive (w.noting n (w.visit k (path ++ [n]))) path n s

/-- The walk goes along the edges `E` of the nodes of `U` while `I` holds of its state; a `good` node
is neither refused nor does finishing it fail. -/
structure Along (w : Walk ν σ) (I : σ → Prop) (U : List ν) (E : ν → List ν) (good : ν → Prop) :
    Prop where
  guard_mem : ∀ {path n}, n ∈ path → w.guard path n = true
  inside : ∀ {s n}, I s → ¬ w.finished s n = true → w.refuses s n = false → n ∈ U
  next : ∀ {s n}, I s → w.refuses s n = false → w.next s n = E n
  enter : ∀ {s n}, I s → n ∈ U → I (w.enter n s)
  enter_finished : ∀ s n m, w.finished (w.enter n s) m = w.finished s m
  note : ∀ {s n m}, I s → m ∈ E n → I (w.note n m s)
  note_finished : ∀ s n m x, w.finished (w.note n m s) x = w.finished s x
  finish : ∀ {s s' n}, I s → n ∈ U → w.finish n s = some s' → I s'
  finish_finished : ∀ {s s' n}, w.finish n s = some s' →
    ∀ m, w.finished s' m = true ↔ m = n ∨ w.finished s m = true
  good_refuses : ∀ {s n}, I s → good n → w.refuses s n = false
  good_finish : ∀ {s n}, I s → good n → (w.finish n s).isSome

variable {w : Walk ν σ} {I : σ → Prop} {U : List ν} {E : ν → List ν} {good : ν → Prop}

/-! ## Termination -/

theorem inTurn_returns {f : ν → σ → Option (Bool × σ)} {ns : List ν}
    (hstep : ∀ n ∈ ns, ∀ s, I s → ∃ b s', f n s = some (b, s') ∧ I s') {s : σ} (hs : I s) :
    ∃ b s', inTurn f ns s = some (b, s') ∧ I s' := by
  induction ns generalizing s with
  | nil => exact ⟨true, s, rfl, hs⟩
  | cons n ns ih =>
    obtain ⟨b, s₁, hn, hs₁⟩ := hstep n (List.mem_cons_self ..) s hs
    cases b with
    | false => exact ⟨false, s₁, by simp only [inTurn, hn], hs₁⟩
    | true =>
      simp only [inTurn, hn]
      exact ih (fun m hm => hstep m (List.mem_cons_of_mem _ hm)) hs₁

/-- **A walk over finitely many nodes returns**, once more visits may be nested than there are
nodes that it can enter. -/
theorem visit_returns (h : w.Along I U E good) :
    ∀ (k : ℕ) {path : List ν}, path.Nodup → path ⊆ U → U.length < k + path.length →
      ∀ (n : ν) {s : σ}, I s → ∃ b s', w.visit k path n s = some (b, s') ∧ I s' := by
  intro k
  induction k with
  | zero =>
    intro path hnodup hsub hlen
    have := (List.subperm_of_subset hnodup hsub).length_le
    omega
  | succ k ih =>
    intro path hnodup hsub hlen n s hs
    unfold visit arrive
    by_cases hg : w.guard path n = true
    · exact ⟨true, s, by rw [if_pos hg], hs⟩
    rw [if_neg hg]
    by_cases hf : w.finished s n = true
    · exact ⟨true, s, by rw [if_pos hf], hs⟩
    rw [if_neg hf]
    by_cases hr : w.refuses s n = true
    · exact ⟨false, s, by rw [if_pos hr], hs⟩
    rw [if_neg hr]
    rw [Bool.not_eq_true] at hr
    -- the nodes under way are different and can be entered
    have hnot : n ∉ path := fun hmem => hg (h.guard_mem hmem)
    have hnodup' : (path ++ [n]).Nodup := by
      rw [List.nodup_append]
      refine ⟨hnodup, List.nodup_singleton n, ?_⟩
      intro a ha b hb
      rw [List.mem_singleton.1 hb]
      exact fun hab => hnot (hab ▸ ha)
    have hsub' : path ++ [n] ⊆ U :=
      List.append_subset.2 ⟨hsub, List.cons_subset.2 ⟨h.inside hs hf hr, List.nil_subset _⟩⟩
    have hlen' : U.length < k + (path ++ [n]).length := by
      rw [List.length_append, List.length_singleton]
      omega
    have hbelow : ∀ m ∈ w.next s n, ∀ s, I s →
        ∃ b s', w.noting n (w.visit k (path ++ [n])) m s = some (b, s') ∧ I s' := by
      intro m hm s' hs'
      obtain ⟨b, s₁, hv, hs₁⟩ := ih hnodup' hsub' hlen' m hs'
      unfold noting
      rw [hv]
      cases b with
      | false => exact ⟨false, s₁, rfl, hs₁⟩
      | true => exact ⟨true, w.note n m s₁, rfl, h.note hs₁ (h.next hs hr ▸ hm)⟩
    obtain ⟨b, s₁, hloop, hs₁⟩ := inTurn_returns hbelow (h.enter hs (h.inside hs hf hr))
    rw [hloop]
    cases b with
    | false => exact ⟨false, s₁, rfl, hs₁⟩
    | true =>
      cases hfin : w.finish n s₁ with
      | none => exact ⟨false, s₁, by simp only [hfin], hs₁⟩
      | some s₂ => exact ⟨true, s₂, by simp only [hfin], h.finish hs₁ (h.inside hs hf hr) hfin⟩

/-! ## What a walk finishes -/

section Spec

variable (E) (D : ν → Prop)

/-- An edge to another node that is not done (`D`) from the start. -/
def Edge (a b : ν) : Prop := b ∈ E a ∧ b ≠ a ∧ ¬ D b

def Reaches : ν → ν → Prop := Relation.ReflTransGen (Edge E D)

/-- A node with a cycle through other nodes. -/
def OnCycle (n : ν) : Prop := Relation.TransGen (Edge E D) n n

/-- The walk can get to `n` with the visits of `path` under way. -/
structure Trail (root : ν) (path : List ν) (n : ν) : Prop where
  chain : (path ++ [n]).IsChain fun a b => b ∈ E a
  head : (path ++ [n]).head? = some root
  nodup : path.Nodup
  undone : ∀ a ∈ path, ¬ D a

/-- **What the walk from `root` relies on**: its guard stops it at nodes under way or done only,
and on a cycle no visit below fails. -/
structure Smooth (guard : List ν → ν → Bool) (good : ν → Prop) (root : ν) : Prop where
  guard : ∀ path n, Trail E D root path n → ¬ D n → guard path n = true → n ∈ path
  cycle : ∀ n, Reaches E D root n → OnCycle E D n → ∀ m, Reaches E D n m → good m

variable {E D}

/-- What the visits `below` some nodes finish: nodes that are not under way, with the targets of
their edges but for those under way. -/
structure Progress (w : Walk ν σ) (E : ν → List ν) (path : List ν) (below : ν → Prop)
    (s s' : σ) : Prop where
  keeps : ∀ m, w.finished s m = true → w.finished s' m = true
  fresh : ∀ m, w.finished s' m = true → ¬ w.finished s m = true → m ∉ path ∧ below m
  edges : ∀ m, w.finished s' m = true → ¬ w.finished s m = true →
    ∀ e ∈ E m, w.finished s' e = true ∨ e ∈ path

theorem Progress.refl {path : List ν} {below : ν → Prop} (s : σ) :
    Progress w E path below s s :=
  ⟨fun _ hm => hm, fun _ hm hn => absurd hm hn, fun _ hm hn => absurd hm hn⟩

theorem Progress.trans {path : List ν} {below : ν → Prop} {s₁ s₂ s₃ : σ}
    (h : Progress w E path below s₁ s₂) (h' : Progress w E path below s₂ s₃) :
    Progress w E path below s₁ s₃ where
  keeps m hm := h'.keeps m (h.keeps m hm)
  fresh m hm hn := by
    by_cases hmid : w.finished s₂ m = true
    · exact h.fresh m hmid hn
    · exact h'.fresh m hm hmid
  edges m hm hn e he := by
    by_cases hmid : w.finished s₂ m = true
    · rcases h.edges m hmid hn e he with hdone | hmem
      · exact Or.inl (h'.keeps e hdone)
      · exact Or.inr hmem
    · exact h'.edges m hm hmid e he

/-- What is noted changes no finished node. -/
theorem Progress.congr {path : List ν} {below below' : ν → Prop} {s s₁ s' s₁' : σ}
    (h : Progress w E path below s s') (hbelow : ∀ m, below m → below' m)
    (hs : ∀ m, w.finished s₁ m = w.finished s m) (hs' : ∀ m, w.finished s₁' m = w.finished s' m) :
    Progress w E path below' s₁ s₁' where
  keeps m hm := by
    rw [hs']
    exact h.keeps m (hs m ▸ hm)
  fresh m hm hn := by
    rw [hs'] at hm
    rw [hs] at hn
    exact ⟨(h.fresh m hm hn).1, hbelow m (h.fresh m hm hn).2⟩
  edges m hm hn e he := by
    rw [hs'] at hm ⊢
    rw [hs] at hn
    exact h.edges m hm hn e he

end Spec

/-! ## The number of nested visits -/

theorem inTurn_mono {f g : ν → σ → Option (Bool × σ)}
    (h : ∀ n s r, f n s = some r → g n s = some r) {ns : List ν} {s : σ} {r : Bool × σ}
    (hrun : inTurn f ns s = some r) : inTurn g ns s = some r := by
  induction ns generalizing s with
  | nil => exact hrun
  | cons n ns ih =>
    cases hstep : f n s with
    | none => simp only [inTurn, hstep, reduceCtorEq] at hrun
    | some r₁ =>
      obtain ⟨b, s₁⟩ := r₁
      have hstep' := h n s _ hstep
      cases b with
      | false => simpa only [inTurn, hstep, hstep'] using hrun
      | true =>
        simp only [inTurn, hstep] at hrun
        simp only [inTurn, hstep']
        exact ih hrun

/-- A visit that returns does so however many visits more may be nested. -/
theorem visit_succ {k : ℕ} {path : List ν} {n : ν} {s : σ} {r : Bool × σ}
    (hrun : w.visit k path n s = some r) : w.visit (k + 1) path n s = some r := by
  induction k generalizing path n s r with
  | zero => exact absurd hrun (by simp [visit])
  | succ k ih =>
    have hbelow : ∀ m t r, w.noting n (w.visit k (path ++ [n])) m t = some r →
        w.noting n (w.visit (k + 1) (path ++ [n])) m t = some r := by
      intro m t r hm
      cases hv : w.visit k (path ++ [n]) m t with
      | none => simp only [noting, hv, reduceCtorEq] at hm
      | some r₁ =>
        simp only [noting, hv] at hm
        simp only [noting, ih hv]
        exact hm
    rw [visit, arrive] at hrun ⊢
    split_ifs at hrun ⊢ with hg hf hr
    · exact hrun
    · exact hrun
    · exact hrun
    · cases hloop : inTurn (w.noting n (w.visit k (path ++ [n]))) (w.next s n) (w.enter n s) with
      | none => simp only [hloop, reduceCtorEq] at hrun
      | some r₁ =>
        rw [hloop] at hrun
        rw [inTurn_mono hbelow hloop]
        exact hrun

/-- The number of nested visits does not matter to a visit that returns. -/
theorem visit_functional {k k' : ℕ} {path : List ν} {n : ν} {s : σ} {r r' : Bool × σ}
    (h : w.visit k path n s = some r) (h' : w.visit k' path n s = some r') : r = r' := by
  have hmore : ∀ (j i : ℕ) (r : Bool × σ), w.visit i path n s = some r →
      w.visit (i + j) path n s = some r := by
    intro j
    induction j with
    | zero => exact fun _ _ h => h
    | succ j ih => exact fun i r h => visit_succ (ih i r h)
  have hsum := hmore k' k r h
  have hsum' := hmore k k' r' h'
  rw [Nat.add_comm k' k] at hsum'
  exact Option.some.inj (hsum.symm.trans hsum')

end Walk

/-! ## A new edge -/

section Insert

variable {R R' : ν → ν → Prop} {x y a b : ν}

/-- A path that takes the new edge gets to its start and goes on from its end. -/
theorem transGen_insert (hnew : ∀ a b, R' a b → R a b ∨ (a = x ∧ b = y))
    (hpath : Relation.TransGen R' a b) :
    Relation.TransGen R a b ∨ (Relation.ReflTransGen R a x ∧ Relation.ReflTransGen R y b) := by
  induction hpath with
  | single hedge =>
    rcases hnew _ _ hedge with hedge | ⟨rfl, rfl⟩
    · exact Or.inl (Relation.TransGen.single hedge)
    · exact Or.inr ⟨Relation.ReflTransGen.refl, Relation.ReflTransGen.refl⟩
  | tail _ hedge ih =>
    rcases hnew _ _ hedge with hedge | ⟨rfl, rfl⟩
    · exact ih.imp (fun h => h.tail hedge) fun h => ⟨h.1, h.2.tail hedge⟩
    · exact Or.inr ⟨ih.elim Relation.TransGen.to_reflTransGen And.left, Relation.ReflTransGen.refl⟩

/-- **A new edge closes no cycle** when its end does not lead to its start. -/
theorem acyclic_insert (hnew : ∀ a b, R' a b → R a b ∨ (a = x ∧ b = y))
    (hback : ¬ Relation.ReflTransGen R y x) (hacyc : ∀ z, ¬ Relation.TransGen R z z) (z : ν) :
    ¬ Relation.TransGen R' z z := by
  intro hpath
  rcases transGen_insert hnew hpath with hpath | ⟨hin, hout⟩
  · exact hacyc z hpath
  · exact hback (hout.trans hin)

end Insert

end ChannelEmulator
