import ChannelEmulator.Network.Pipeline
import Mathlib.Data.DFinsupp.WellFounded
import Mathlib.Data.Set.Card
import Mathlib.Data.Set.Finite.Lemmas
import Mathlib.Logic.Function.Basic

/-!
# Networks of machines

A machine of a network has a queue and a thread, as a machine in a row has, but its outputs may go to several machines,
and several may put units into its queue. What it gets is then in an order that the threads decide on.

* `Steps.explained`: **what each machine has got, and what it has made of it, explains the state** at any time: units
  from one machine stay in their order, none is lost and none is doubled.
* `Steps.through`: where all is through, each machine has been run on all of what was put for it.
* `exists_step`, `no_endless_run`: **there is no deadlock, and every run ends**, where outputs go onwards only.
-/

namespace Network

open Framing

variable {ι ε α : Type*}

/-! ## Units with their origins -/

section Part

variable [DecidableEq ι]

/-- The units with a label. -/
def part (i : ι) (l : List (ι × α)) : List α := l.filterMap fun p => if p.1 = i then some p.2 else none

@[simp] theorem part_nil (i : ι) : part i ([] : List (ι × α)) = [] := rfl

theorem part_cons (i : ι) (p : ι × α) (l : List (ι × α)) :
    part i (p :: l) = if p.1 = i then p.2 :: part i l else part i l := by
  unfold part
  rw [List.filterMap_cons]
  split_ifs <;> rfl

@[simp] theorem part_append (i : ι) (l m : List (ι × α)) : part i (l ++ m) = part i l ++ part i m :=
  List.filterMap_append

theorem part_mono (i : ι) {l m : List (ι × α)} (h : l <+: m) : part i l <+: part i m := by
  obtain ⟨r, rfl⟩ := h
  rw [part_append]
  exact List.prefix_append _ _

/-- Units that all have one label. -/
theorem part_toward (i j : ι) (l : List α) : part i (l.map (j, ·)) = if j = i then l else [] := by
  induction l with
  | nil => split_ifs <;> rfl
  | cons a l ih =>
    rw [List.map_cons, part_cons, ih]
    split_ifs <;> rfl

end Part

/-! ## Networks -/

/-- The machines of a network. A turn says for each of its outputs which machine it is for. At first, the machines have
some units to put. -/
structure Net (ι ε α : Type*) where
  Memory : ι → Type
  Choice : ι → Type
  turn : ∀ i, Memory i → α × Choice i → Except ε (Memory i × List (ι × α))
  may : ∀ i, List α → Choice i → Prop
  may_append : ∀ {i queue c} (more : List α), may i queue c → may i (queue ++ more) c
  exists_may : ∀ i queue, ∃ c, may i queue c
  start : ∀ i, Memory i
  supply : ι → List (ι × α)

namespace Net

variable (N : Net ι ε α)

/-- What the machines keep, the units before them, and the outputs of their turns that are not put yet. -/
structure State where
  memory : ∀ i, N.Memory i
  queue : ι → List α
  out : ι → List (ι × α)

/-- No thread has gone on yet. -/
def initial : N.State := ⟨N.start, fun _ => [], N.supply⟩

variable {N}

/-- All is through. -/
def State.Through (s : N.State) : Prop := ∀ i, s.queue i = [] ∧ s.out i = []

variable [DecidableEq ι]

/-- A machine takes a unit and has its turn, or puts one of its outputs where there is room. -/
inductive Step (room : List α → Prop) : N.State → N.State → Prop where
  | take {s : N.State} {i : ι} {a : α} {queue : List α} {c : N.Choice i} {memory : N.Memory i} {out : List (ι × α)}
      (hout : s.out i = []) (hqueue : s.queue i = a :: queue) (hmay : N.may i queue c)
      (hturn : N.turn i (s.memory i) (a, c) = .ok (memory, out)) :
      Step room s ⟨Function.update s.memory i memory, Function.update s.queue i queue, Function.update s.out i out⟩
  | put {s : N.State} {i j : ι} {b : α} {out : List (ι × α)} (hout : s.out i = (j, b) :: out)
      (hroom : room (s.queue j)) :
      Step room s ⟨s.memory, Function.update s.queue j (s.queue j ++ [b]), Function.update s.out i out⟩

/-- A run. -/
abbrev Steps (room : List α → Prop) : N.State → N.State → Prop := Relation.ReflTransGen (Step room)

/-! ## What has happened -/

variable (N) in
/-- What the machines have got and from which one, what their turns have met and made, and what they have put. -/
structure History where
  got : ι → List (ι × α)
  met : ∀ i, List (N.Choice i)
  made : ι → List (ι × α)
  sent : ι → List (ι × α)

/-- The units a machine has got. -/
def History.units (H : N.History) (i : ι) : List α := (H.got i).map Prod.snd

/-- A history explains a state: each machine has been run on what it has taken of what it got, and has put what it has
made of it, but for what it still has. What one machine has put for another, that one has got from it. -/
structure History.Explains (H : N.History) (s : N.State) : Prop where
  ran : ∀ i, ∃ done, H.units i = done ++ s.queue i ∧ done.length = (H.met i).length ∧
    runAll (N.turn i) (N.start i) (done.zip (H.met i)) = .ok (s.memory i, H.made i)
  met : ∀ i p c, (H.met i)[p]? = some c → N.may i ((H.units i).drop (p + 1)) c
  put : ∀ i, N.supply i ++ H.made i = H.sent i ++ s.out i
  linked : ∀ i j, part j (H.sent i) = part i (H.got j)

theorem explains_initial : History.Explains ⟨fun _ => [], fun _ => [], fun _ => [], fun _ => []⟩ N.initial where
  ran i := ⟨[], rfl, rfl, rfl⟩
  met i p c h := by cases h
  put i := (List.append_nil _).trans (List.nil_append _).symm
  linked i j := rfl

/-- The run of a machine goes on with a turn. -/
theorem runAll_snoc {σ β γ : Type*} {f : σ → α × γ → Except ε (σ × List β)} {s s' s'' : σ} {as : List α} {cs : List γ}
    {a : α} {c : γ} {o o' : List β} (hlen : as.length = cs.length) (h : runAll f s (as.zip cs) = .ok (s', o))
    (hturn : f s' (a, c) = .ok (s'', o')) : runAll f s ((as ++ [a]).zip (cs ++ [c])) = .ok (s'', o ++ o') := by
  induction as generalizing cs s o with
  | nil =>
    obtain rfl := List.eq_nil_of_length_eq_zero hlen.symm
    obtain ⟨rfl, rfl⟩ := Prod.mk.inj (Except.ok.inj h)
    refine (runAll_cons hturn (runAll_nil s'')).trans ?_
    rw [List.append_nil, List.nil_append]
  | cons b as ih =>
    obtain ⟨d, cs, rfl⟩ := List.exists_cons_of_length_eq_add_one hlen.symm
    obtain ⟨s₁, o₁, o₂, h₁, h₂, rfl⟩ := runAll_cons_inv h
    rw [List.append_assoc]
    exact runAll_cons h₁ (ih (Nat.succ.inj hlen) h₂)

/-- What the turns for the first of some units have met, with the turn for the next one. -/
theorem met_snoc {γ : Type*} {may : List α → γ → Prop} {as done queue : List α} {a : α} {cs : List γ} {c : γ}
    (has : as = done ++ a :: queue) (hlen : done.length = cs.length)
    (hcs : ∀ p d, cs[p]? = some d → may (as.drop (p + 1)) d) (hmay : may queue c) (p : ℕ) (d : γ)
    (hd : (cs ++ [c])[p]? = some d) : may (as.drop (p + 1)) d := by
  rcases Nat.lt_or_ge p cs.length with hp | hp
  · rw [List.getElem?_append_left hp] at hd
    exact hcs p d hd
  · rw [List.getElem?_append_right hp] at hd
    obtain ⟨hp', rfl⟩ := List.getElem?_eq_some_iff.1 hd
    rw [List.length_singleton, Nat.lt_one_iff] at hp'
    have hnext : p + 1 = (done ++ [a]).length := by
      rw [List.length_append, List.length_singleton]
      omega
    rw [has, List.append_cons, hnext, List.drop_left]
    simpa only [hp', List.getElem_cons_zero] using hmay

variable {H : N.History} {s t : N.State}

/-- **A turn** is a part of what has happened. -/
theorem History.Explains.take (h : H.Explains s) {i : ι} {a : α} {queue : List α} {c : N.Choice i}
    {memory : N.Memory i} {out : List (ι × α)} (hout : s.out i = []) (hqueue : s.queue i = a :: queue)
    (hmay : N.may i queue c) (hturn : N.turn i (s.memory i) (a, c) = .ok (memory, out)) :
    History.Explains
      { H with met := Function.update H.met i (H.met i ++ [c]), made := Function.update H.made i (H.made i ++ out) }
      ⟨Function.update s.memory i memory, Function.update s.queue i queue, Function.update s.out i out⟩ := by
  obtain ⟨done, hunits, hlen, hrun⟩ := h.ran i
  rw [hqueue] at hunits
  constructor
  · intro j
    by_cases hj : j = i
    · subst hj
      dsimp only
      rw [Function.update_self, Function.update_self, Function.update_self, Function.update_self]
      refine ⟨done ++ [a], hunits.trans (List.append_cons ..), ?_, runAll_snoc hlen hrun hturn⟩
      rw [List.length_append, List.length_append, hlen]
      rfl
    · dsimp only
      rw [Function.update_of_ne hj, Function.update_of_ne hj, Function.update_of_ne hj, Function.update_of_ne hj]
      exact h.ran j
  · intro j p d hd
    dsimp only at hd
    by_cases hj : j = i
    · subst hj
      rw [Function.update_self] at hd
      exact met_snoc hunits hlen (h.met j) hmay p d hd
    · rw [Function.update_of_ne hj] at hd
      exact h.met j p d hd
  · intro j
    have hput := h.put j
    dsimp only
    by_cases hj : j = i
    · subst hj
      rw [hout, List.append_nil] at hput
      rw [Function.update_self, Function.update_self, ← List.append_assoc, hput]
    · rw [Function.update_of_ne hj, Function.update_of_ne hj]
      exact hput
  · exact h.linked

/-- **A unit that is put** is got. -/
theorem History.Explains.put' (h : H.Explains s) {i j : ι} {b : α} {out : List (ι × α)}
    (hout : s.out i = (j, b) :: out) : History.Explains
      { H with
        got := Function.update H.got j (H.got j ++ [(i, b)])
        sent := Function.update H.sent i (H.sent i ++ [(j, b)]) }
      ⟨s.memory, Function.update s.queue j (s.queue j ++ [b]), Function.update s.out i out⟩ := by
  have hunits : ∀ k, History.units
      { H with
        got := Function.update H.got j (H.got j ++ [(i, b)])
        sent := Function.update H.sent i (H.sent i ++ [(j, b)]) } k =
        H.units k ++ if k = j then [b] else [] := by
    intro k
    unfold History.units
    dsimp only
    by_cases hk : k = j
    · subst hk
      rw [Function.update_self, List.map_append, if_pos rfl]
      rfl
    · rw [Function.update_of_ne hk, if_neg hk, List.append_nil]
  constructor
  · intro k
    obtain ⟨done, hdone, hlen, hrun⟩ := h.ran k
    refine ⟨done, ?_, hlen, hrun⟩
    rw [hunits, hdone]
    dsimp only
    by_cases hk : k = j
    · subst hk
      rw [Function.update_self, if_pos rfl, List.append_assoc]
    · rw [Function.update_of_ne hk, if_neg hk, List.append_nil]
  · intro k p c hc
    obtain ⟨done, hdone, hlen, -⟩ := h.ran k
    obtain ⟨hp, -⟩ := List.getElem?_eq_some_iff.1 hc
    dsimp only at hc hp
    have hle : p + 1 ≤ (H.units k).length := by
      rw [hdone, List.length_append]
      omega
    rw [hunits, List.drop_append_of_le_length hle]
    exact N.may_append _ (h.met k p c hc)
  · intro k
    have hput := h.put k
    dsimp only
    by_cases hk : k = i
    · subst hk
      rw [hout] at hput
      rw [Function.update_self, Function.update_self, List.append_assoc]
      exact hput
    · rw [Function.update_of_ne hk, Function.update_of_ne hk]
      exact hput
  · intro k l
    have hlinked := h.linked k l
    simp only [Function.update_apply]
    by_cases hk : k = i
    · subst hk
      by_cases hl : l = j
      · subst hl
        rw [if_pos rfl, if_pos rfl, part_append, part_append, hlinked, part_cons, part_cons, if_pos rfl, if_pos rfl]
        rfl
      · rw [if_pos rfl, if_neg hl, part_append, part_cons, if_neg (Ne.symm hl), part_nil, List.append_nil, hlinked]
    · by_cases hl : l = j
      · subst hl
        rw [if_neg hk, if_pos rfl, part_append, part_cons, if_neg (Ne.symm hk), part_nil, List.append_nil, hlinked]
      · rw [if_neg hk, if_neg hl, hlinked]

variable {room : List α → Prop}

/-- **What has happened explains the state.** -/
theorem Steps.explained (h : Steps room N.initial s) : ∃ H : N.History, H.Explains s := by
  induction h with
  | refl => exact ⟨_, explains_initial⟩
  | tail _ hstep ih =>
    obtain ⟨H, hH⟩ := ih
    cases hstep with
    | take hout hqueue hmay hturn => exact ⟨_, hH.take hout hqueue hmay hturn⟩
    | put hout _ => exact ⟨_, hH.put' hout⟩

/-- The turns for the first of some units can be followed by turns for the others. -/
theorem exists_met_append {γ : Type*} {may : List α → γ → Prop} (hmay : ∀ queue, ∃ c, may queue c) (as : List α)
    (cs : List γ) (hle : cs.length ≤ as.length) (hcs : ∀ p c, cs[p]? = some c → may (as.drop (p + 1)) c) :
    ∃ cs', Met may as (cs ++ cs') := by
  induction cs generalizing as with
  | nil => exact exists_met hmay as
  | cons c cs ih =>
    cases as with
    | nil => exact absurd hle (Nat.not_succ_le_zero _)
    | cons a as =>
      obtain ⟨cs', hmet⟩ := ih as (Nat.le_of_succ_le_succ hle) fun p d hd => hcs (p + 1) d hd
      exact ⟨cs', .cons (hcs 0 c rfl) hmet⟩

/-- **A machine is on its way** through what it has got: its turns are the first of turns for all of that. -/
theorem History.Explains.exists_run (h : H.Explains s) (i : ι) : ∃ cs, Met (N.may i) (H.units i) cs ∧
    ∀ memory outs, runAll (N.turn i) (N.start i) ((H.units i).zip cs) = .ok (memory, outs) →
      H.made i <+: outs ∧ (s.Through → s.memory i = memory ∧ H.made i = outs) := by
  obtain ⟨done, hunits, hlen, hrun⟩ := h.ran i
  obtain ⟨cs, hmet⟩ := exists_met_append (N.exists_may i) (H.units i) (H.met i)
    (by rw [hunits, ← hlen, List.length_append]; exact Nat.le_add_right _ _) (h.met i)
  refine ⟨_, hmet, fun memory outs hall => ?_⟩
  rw [hunits, List.zip_append hlen] at hall
  obtain ⟨memory', made, rest, hdone, hrest, rfl⟩ := runAll_append_inv hall
  obtain ⟨rfl, rfl⟩ := Prod.mk.inj (Except.ok.inj (hrun.symm.trans hdone))
  refine ⟨List.prefix_append _ _, fun hthrough => ?_⟩
  rw [(hthrough i).1] at hrest
  obtain ⟨rfl, rfl⟩ := Prod.mk.inj (Except.ok.inj hrest)
  exact ⟨rfl, (List.append_nil _).symm⟩

/-- A turn does not fail, where none fails of turns for all that the machine has got. -/
theorem History.Explains.turn_ok (h : H.Explains s) {i : ι}
    (hall : ∀ cs, Met (N.may i) (H.units i) cs → ∃ r, runAll (N.turn i) (N.start i) ((H.units i).zip cs) = .ok r)
    {a : α} {queue : List α} {c : N.Choice i} (hqueue : s.queue i = a :: queue) (hmay : N.may i queue c) :
    ∃ r, N.turn i (s.memory i) (a, c) = .ok r := by
  obtain ⟨done, hunits, hlen, hrun⟩ := h.ran i
  rw [hqueue] at hunits
  -- the turn is the next one
  obtain ⟨cs, hmet⟩ := exists_met_append (N.exists_may i) (H.units i) (H.met i ++ [c])
    (by rw [hunits, List.length_append, List.length_append, hlen, List.length_cons]; simp)
    (met_snoc hunits hlen (h.met i) hmay)
  obtain ⟨⟨memory, outs⟩, hok⟩ := hall _ hmet
  rw [hunits, List.append_assoc, List.zip_append hlen, List.singleton_append, List.zip_cons_cons] at hok
  obtain ⟨memory', made, rest, hdone, hrest, -⟩ := runAll_append_inv hok
  obtain ⟨rfl, rfl⟩ := Prod.mk.inj (Except.ok.inj (hrun.symm.trans hdone))
  obtain ⟨memory₁, out, _, hturn, -, -⟩ := runAll_cons_inv hrest
  exact ⟨_, hturn⟩

/-- Threads that can always go on never end. -/
theorem exists_endless {P : N.State → Prop} (hstart : P N.initial) (hstep : ∀ s, P s → ∃ t, Step room s t ∧ P t) :
    ∃ f : ℕ → N.State, f 0 = N.initial ∧ ∀ n, Step room (f n) (f (n + 1)) := by
  choose! next hnext hkeep using hstep
  have hP : ∀ n, P (next^[n] N.initial) := by
    intro n
    induction n with
    | zero => exact hstart
    | succ n ih =>
      rw [Function.iterate_succ_apply']
      exact hkeep _ ih
  refine ⟨fun n => next^[n] N.initial, rfl, fun n => ?_⟩
  have hstep := hnext _ (hP n)
  rw [← Function.iterate_succ_apply' next] at hstep
  exact hstep

/-! ## Every run ends -/

/-- Nodes are behind all that lead to them. -/
theorem exists_rank {ι : Type*} [Finite ι] {r : ι → ι → Prop} (hacyc : ∀ i, ¬Relation.TransGen r i i) :
    ∃ rank : ι → ℕ, ∀ i j, r i j → rank i < rank j := by
  refine ⟨fun i => {k | Relation.TransGen r k i}.ncard, fun i j hij => ?_⟩
  refine Set.ncard_lt_ncard ⟨?_, ?_⟩ (Set.toFinite _)
  · intro k hk
    exact Relation.TransGen.tail hk hij
  · -- the node itself is among those that lead to the next one
    intro hback
    have hself : i ∈ {k | Relation.TransGen r k j} := Relation.TransGen.single hij
    exact hacyc i (hback hself)

/-- The outputs of a machine are for machines that are further on. -/
structure Ordered (N : Net ι ε α) (rank : ι → ℕ) : Prop where
  supply : ∀ i, ∀ q ∈ N.supply i, rank i < rank q.1
  turn : ∀ {i memory p memory' out}, N.turn i memory p = .ok (memory', out) → ∀ q ∈ out, rank i < rank q.1

/-- So are those that are not put yet. -/
def State.Onward (s : N.State) (rank : ι → ℕ) : Prop := ∀ i, ∀ q ∈ s.out i, rank i < rank q.1

variable {rank : ι → ℕ}

theorem Step.onward (hord : N.Ordered rank) (h : Step room s t) (hs : s.Onward rank) : t.Onward rank := by
  intro j
  cases h with
  | @take i _ _ _ _ out _ _ _ hturn =>
    show ∀ q ∈ Function.update s.out i out j, _
    by_cases hj : j = i
    · subst hj
      rw [Function.update_self]
      exact hord.turn hturn
    · rw [Function.update_of_ne hj]
      exact hs j
  | @put i k b out hout _ =>
    show ∀ q ∈ Function.update s.out i out j, _
    by_cases hj : j = i
    · subst hj
      rw [Function.update_self]
      intro q hq
      refine hs j q ?_
      rw [hout]
      exact List.mem_cons_of_mem _ hq
    · rw [Function.update_of_ne hj]
      exact hs j

theorem Steps.onward (hord : N.Ordered rank) (h : Steps room N.initial s) : s.Onward rank := by
  induction h with
  | refl => exact hord.supply
  | tail _ hstep ih => exact hstep.onward hord ih

/-- The units at a machine. -/
def State.work (s : N.State) (i : ι) : ℕ ×ₗ ℕ := toLex ((s.queue i).length, (s.out i).length)

/-- A step makes the work of one machine less, and of those that are not further on it changes no other. -/
theorem Step.work_lt (h : Step room s t) (hs : s.Onward rank) :
    ∃ i, (∀ j, rank j ≤ rank i → j ≠ i → t.work j = s.work j) ∧ t.work i < s.work i := by
  unfold State.work
  cases h with
  | @take i a queue c memory out hout hqueue hmay hturn =>
    dsimp only
    refine ⟨i, fun j _ hj => ?_, ?_⟩
    · rw [Function.update_of_ne hj, Function.update_of_ne hj]
    · rw [Function.update_self, Function.update_self, hqueue]
      exact Prod.Lex.toLex_lt_toLex.2 (.inl (Nat.lt_succ_self _))
  | @put i k b out hout hroom =>
    have hk : rank i < rank k := hs i (k, b) (by rw [hout]; exact List.mem_cons_self)
    dsimp only
    refine ⟨i, fun j hle hj => ?_, ?_⟩
    · have hjk : j ≠ k := by
        rintro rfl
        omega
      rw [Function.update_of_ne hj, Function.update_of_ne hjk]
    · have hik : i ≠ k := by
        rintro rfl
        exact absurd hk (Nat.lt_irrefl _)
      rw [Function.update_self, Function.update_of_ne hik, hout]
      exact Prod.Lex.toLex_lt_toLex.2 (.inr ⟨rfl, Nat.lt_succ_self _⟩)

variable (room) in
/-- **Every run ends.** -/
theorem step_wellFounded [Finite ι] (rank : ι → ℕ) :
    WellFounded fun t s : N.State => s.Onward rank ∧ Step room s t := by
  obtain ⟨n, ⟨e⟩⟩ := Finite.exists_equiv_fin ι
  have hinj : Function.Injective fun i => toLex (rank i, e i) := by
    intro i j h
    exact e.injective (Prod.mk.inj (toLex_inj.1 h)).2
  -- the machines one behind the other, those that are further on behind the others
  let _ : LinearOrder ι := LinearOrder.lift' _ hinj
  have hwf := Pi.Lex.wellFounded (fun i j : ι => i < j) fun _ : ι =>
    (wellFounded_lt : WellFounded (α := ℕ ×ₗ ℕ) (· < ·))
  refine Subrelation.wf ?_ (InvImage.wf State.work hwf)
  rintro t s ⟨hs, hstep⟩
  obtain ⟨i, hkept, hless⟩ := hstep.work_lt hs
  refine ⟨i, fun j hj => ?_, hless⟩
  have hlt : toLex (rank j, e j) < toLex (rank i, e i) := hj
  refine hkept j ?_ hj.ne
  rcases Prod.Lex.toLex_lt_toLex.1 hlt with h | h
  · exact Nat.le_of_lt h
  · exact h.1.le

/-- **No run goes on forever.** -/
theorem no_endless_run [Finite ι] (hord : N.Ordered rank) (f : ℕ → N.State) (hstart : f 0 = N.initial) :
    ¬∀ n, Step room (f n) (f (n + 1)) := by
  intro hf
  have honward : ∀ n, (f n).Onward rank := by
    intro n
    induction n with
    | zero =>
      rw [hstart]
      exact hord.supply
    | succ n ih => exact (hf n).onward hord ih
  obtain ⟨_, ⟨n, rfl⟩, hmin⟩ := (step_wellFounded room rank).has_min (Set.range f) ⟨f 0, 0, rfl⟩
  exact hmin _ ⟨n + 1, rfl⟩ ⟨honward n, hf n⟩

/-! ## Threads that can go on -/

/-- No turn fails that can begin. -/
def State.Ready (s : N.State) : Prop := ∀ i a queue c, s.queue i = a :: queue → N.may i queue c →
  ∃ r, N.turn i (s.memory i) (a, c) = .ok r

/-- **There is no deadlock**, whichever queues are full, as long as an empty one is not. -/
theorem exists_step [Finite ι] (hroom : room []) (hs : s.Onward rank) (hready : s.Ready) (hbusy : ¬s.Through) :
    ∃ t, Step room s t := by
  -- a machine with work that is as far on as any other with work
  obtain ⟨i₀, hi₀⟩ := not_forall.1 hbusy
  obtain ⟨i, hi, hmax⟩ := Set.exists_max_image {i | ¬(s.queue i = [] ∧ s.out i = [])} rank (Set.toFinite _) ⟨i₀, hi₀⟩
  cases hout : s.out i with
  | cons p out =>
    refine ⟨_, .put (j := p.1) (b := p.2) hout ?_⟩
    have hlt := hs i p (by rw [hout]; exact List.mem_cons_self)
    have hempty : s.queue p.1 = [] ∧ s.out p.1 = [] := by
      by_contra hwork
      have := hmax p.1 hwork
      omega
    rw [hempty.1]
    exact hroom
  | nil =>
    cases hqueue : s.queue i with
    | nil => exact absurd ⟨hqueue, hout⟩ hi
    | cons a queue =>
      obtain ⟨c, hmay⟩ := N.exists_may i queue
      obtain ⟨⟨memory, out⟩, hturn⟩ := hready i a queue c hqueue hmay
      exact ⟨_, .take hout hqueue hmay hturn⟩

theorem State.Through.not_step (h : s.Through) (t : N.State) : ¬Step room s t := by
  intro hstep
  cases hstep with
  | @take i _ _ _ _ _ _ hqueue =>
    rw [(h i).1] at hqueue
    cases hqueue
  | @put i _ _ _ hout =>
    rw [(h i).2] at hout
    cases hout

/-- **Where no thread can go on, all is through.** -/
theorem Steps.through [Finite ι] (hroom : room []) (hord : N.Ordered rank) (hready : s.Ready)
    (h : Steps room N.initial s) (hstuck : ∀ t, ¬Step room s t) : s.Through := by
  by_contra hbusy
  obtain ⟨t, ht⟩ := exists_step hroom (h.onward hord) hready hbusy
  exact hstuck t ht

/-- **Every run can be brought to its end.** -/
theorem Steps.finish [Finite ι] (hroom : room []) (hord : N.Ordered rank)
    (hready : ∀ s, Steps room N.initial s → s.Ready) (h : Steps room N.initial s) :
    ∃ t, Steps room s t ∧ t.Through := by
  have hacc : Acc (fun t s : N.State => s.Onward rank ∧ Step room s t) s := (step_wellFounded room rank).apply s
  induction hacc with
  | intro s _ ih =>
    by_cases hthrough : s.Through
    · exact ⟨s, .refl, hthrough⟩
    · have honward := h.onward hord
      obtain ⟨s', hstep⟩ := exists_step hroom honward (hready s h) hthrough
      obtain ⟨t, ht, hend⟩ := ih s' ⟨honward, hstep⟩ (h.tail hstep)
      exact ⟨t, .head hstep ht, hend⟩

end Net

end Network
