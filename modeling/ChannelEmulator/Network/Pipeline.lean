import ChannelEmulator.Framing.Run
import Mathlib.Logic.Relation
import Mathlib.Order.WellFounded

/-!
# Machines in a row

Each machine has a queue and a thread: it takes a unit, has its turn and puts the outputs into the queue of the next
machine, one after the other, where there is room. The threads go on in any order. A turn may depend on what the
thread meets: whether there are units behind the one that it takes, or what is drawn for it.

* `Step.ends`: what comes out behind a step **comes out of the machines that are run one after the other**.
* `Step.safe`: no turn fails on the way that does not fail then.
* `exists_step`: **there is no deadlock**, as long as an empty queue has room.
* `step_wellFounded`: **every run ends**.
* `Steps.agree`, `Steps.finish`: the four of them for a run.
-/

namespace Network

open Framing

variable {ε α : Type*}

/-- A machine with its thread: the units before it, and the outputs of its turn that are not put yet. What a turn may
meet depends on the units behind the one that is taken; units that come later do not take it back. -/
structure Node (ε α : Type*) where
  Memory : Type
  Choice : Type
  turn : Memory → α × Choice → Except ε (Memory × List α)
  may : List α → Choice → Prop
  may_append : ∀ {queue c} (more : List α), may queue c → may (queue ++ more) c
  exists_may : ∀ queue, ∃ c, may queue c
  memory : Memory
  queue : List α
  out : List α

/-- Nothing is before the machine, and nothing is left to put. -/
def Node.Idle (n : Node ε α) : Prop := n.queue = [] ∧ n.out = []

/-- What the turns for units may meet, one after the other. -/
inductive Met {γ : Type*} (may : List α → γ → Prop) : List α → List γ → Prop where
  | nil : Met may [] []
  | cons {a : α} {as : List α} {c : γ} {cs : List γ} (h : may as c) (hrest : Met may as cs) :
      Met may (a :: as) (c :: cs)

/-- The machines are run one after the other, each on all of its inputs: the machines behind that, and what comes
out. -/
inductive Settles : List (Node ε α) → List α → List (Node ε α) → List α → Prop where
  | nil (as : List α) : Settles [] as [] as
  | cons {n : Node ε α} {ns ns' : List (Node ε α)} {as sent out : List α} {cs : List n.Choice} {memory : n.Memory}
      (hmet : Met n.may (n.queue ++ as) cs)
      (hrun : runAll n.turn n.memory ((n.queue ++ as).zip cs) = .ok (memory, sent))
      (hrest : Settles ns (n.out ++ sent) ns' out) :
      Settles (n :: ns) as ({ n with memory := memory, queue := [], out := [] } :: ns') out

/-- No turn of machines that are run one after the other fails, whatever it meets. -/
def Safe : List (Node ε α) → List α → Prop
  | [], _ => True
  | n :: ns, as => ∀ cs, Met n.may (n.queue ++ as) cs →
      ∃ memory sent, runAll n.turn n.memory ((n.queue ++ as).zip cs) = .ok (memory, sent) ∧ Safe ns (n.out ++ sent)

/-- A step of one of the threads, with what it puts behind the last machine. -/
inductive Turn (room : List α → Prop) : List (Node ε α) → List (Node ε α) → List α → Prop where
  | take {n : Node ε α} {ns : List (Node ε α)} {a : α} {queue out : List α} {c : n.Choice} {memory : n.Memory}
      (hout : n.out = []) (hqueue : n.queue = a :: queue) (hmay : n.may queue c)
      (hturn : n.turn n.memory (a, c) = .ok (memory, out)) :
      Turn room (n :: ns) ({ n with memory := memory, queue := queue, out := out } :: ns) []
  | put {n m : Node ε α} {ns : List (Node ε α)} {b : α} {out : List α} (hout : n.out = b :: out)
      (hroom : room m.queue) :
      Turn room (n :: m :: ns) ({ n with out := out } :: { m with queue := m.queue ++ [b] } :: ns) []
  | deliver {n : Node ε α} {b : α} {out : List α} (hout : n.out = b :: out) :
      Turn room [n] [{ n with out := out }] [b]
  | next {n : Node ε α} {ns ns' : List (Node ε α)} {sent : List α} (h : Turn room ns ns' sent) :
      Turn room (n :: ns) (n :: ns') sent

/-- The machines, the units that have not arrived at the first, and what the last has delivered. -/
structure World (ε α : Type*) where
  pending : List α
  nodes : List (Node ε α)
  delivered : List α

/-- A step: a unit arrives, or a thread goes on. -/
inductive Step (room : List α → Prop) : World ε α → World ε α → Prop where
  | arrive {n : Node ε α} {ns : List (Node ε α)} {a : α} {as delivered : List α} (hroom : room n.queue) :
      Step room ⟨a :: as, n :: ns, delivered⟩ ⟨as, { n with queue := n.queue ++ [a] } :: ns, delivered⟩
  | turn {ns ns' : List (Node ε α)} {as sent delivered : List α} (h : Turn room ns ns' sent) :
      Step room ⟨as, ns, delivered⟩ ⟨as, ns', delivered ++ sent⟩

/-- A run. -/
abbrev Steps (room : List α → Prop) : World ε α → World ε α → Prop := Relation.ReflTransGen (Step room)

/-- The machines that are run one after the other end so. -/
def World.Ends (w : World ε α) (ns : List (Node ε α)) (delivered : List α) : Prop :=
  ∃ out, Settles w.nodes w.pending ns out ∧ delivered = w.delivered ++ out

/-- No turn fails. -/
def World.Safe (w : World ε α) : Prop := Network.Safe w.nodes w.pending

/-- All machines are idle, and no unit is to arrive. -/
def World.Done (w : World ε α) : Prop := w.pending = [] ∧ ∀ n ∈ w.nodes, n.Idle

variable {room : List α → Prop}

/-! ## What a turn may meet -/

theorem exists_met {γ : Type*} {may : List α → γ → Prop} (h : ∀ queue, ∃ c, may queue c) :
    ∀ as, ∃ cs, Met may as cs
  | [] => ⟨[], .nil⟩
  | a :: as => by
    obtain ⟨c, hc⟩ := h as
    obtain ⟨cs, hcs⟩ := exists_met h as
    exact ⟨c :: cs, .cons hc hcs⟩

/-- What the last of the turns meets. -/
theorem Met.getLast {γ : Type*} {may : List α → γ → Prop} {as : List α} {cs : List γ} (h : Met may as cs) :
    ∀ p ∈ (as.zip cs).getLast?, may [] p.2 := by
  induction h with
  | nil =>
    intro p hp
    cases hp
  | @cons a as c cs h hrest ih =>
    cases hrest with
    | nil => exact fun p hp => by rw [← Option.some.inj hp]; exact h
    | cons _ _ => exact ih

theorem Met.length_eq {γ : Type*} {may : List α → γ → Prop} {as : List α} {cs : List γ} (h : Met may as cs) :
    as.length = cs.length := by
  induction h with
  | nil => rfl
  | cons _ _ ih => rw [List.length_cons, List.length_cons, ih]

/-- The run of a machine whose turn for the first unit is known. -/
theorem run_cons {n : Node ε α} {a : α} {queue as out sent : List α} {c : n.Choice} {cs : List n.Choice}
    {memory last : n.Memory} (hqueue : n.queue = a :: queue) (hmay : n.may queue c)
    (hturn : n.turn n.memory (a, c) = .ok (memory, out)) (hmet : Met n.may (queue ++ as) cs)
    (hrun : runAll n.turn memory ((queue ++ as).zip cs) = .ok (last, sent)) :
    Met n.may (n.queue ++ as) (c :: cs) ∧
      runAll n.turn n.memory ((n.queue ++ as).zip (c :: cs)) = .ok (last, out ++ sent) := by
  rw [hqueue, List.cons_append]
  exact ⟨.cons (n.may_append as hmay) hmet, runAll_cons hturn hrun⟩

/-! ## One step -/

/-- **What comes out behind a step of a thread comes out before it**, of machines that are run one after the other. -/
theorem Turn.settles {ns ns' : List (Node ε α)} {sent : List α} (h : Turn room ns ns' sent) {as out : List α}
    {fs : List (Node ε α)} (hs : Settles ns' as fs out) : Settles ns as fs (sent ++ out) := by
  induction h generalizing as fs out with
  | take hout hqueue hmay hturn =>
    cases hs with
    | @cons _ _ _ _ sent _ cs last hmet hrun hrest =>
      obtain ⟨hmet', hrun'⟩ := run_cons hqueue hmay hturn hmet hrun
      refine .cons hmet' hrun' ?_
      rw [hout]
      exact hrest
  | @put n m ns b out' hout hroom =>
    cases hs with
    | @cons _ _ _ _ sent _ cs last hmet hrun hrest =>
      cases hrest with
      | @cons _ _ _ _ sent' _ cs' last' hmet' hrun' hrest' =>
        have hmove : (m.queue ++ [b]) ++ (out' ++ sent) = m.queue ++ (n.out ++ sent) := by
          rw [hout, List.cons_append, List.append_assoc, List.singleton_append]
        simp only [hmove] at hmet' hrun'
        exact .cons hmet hrun (.cons hmet' hrun' hrest')
  | @deliver n b out' hout =>
    cases hs with
    | cons hmet hrun hrest =>
      cases hrest with
      | nil =>
        refine .cons hmet hrun ?_
        rw [hout]
        exact .nil _
  | next _ ih =>
    cases hs with
    | cons hmet hrun hrest => exact .cons hmet hrun (ih hrest)

/-- No turn fails behind a step of a thread that does not fail before it. -/
theorem Turn.safe {ns ns' : List (Node ε α)} {sent : List α} (h : Turn room ns ns' sent) {as : List α}
    (hs : Safe ns as) : Safe ns' as := by
  induction h generalizing as with
  | @take n ns a queue out c memory hout hqueue hmay hturn =>
    intro cs hmet
    have hmet' : Met n.may (n.queue ++ as) (c :: cs) := by
      rw [hqueue, List.cons_append]
      exact .cons (n.may_append as hmay) hmet
    obtain ⟨last, sent, hrun, hrest⟩ := hs _ hmet'
    rw [hqueue, List.cons_append, List.zip_cons_cons] at hrun
    obtain ⟨memory', out', sent', hturn', hrun', rfl⟩ := runAll_cons_inv hrun
    rw [hturn] at hturn'
    obtain ⟨rfl, rfl⟩ := Prod.mk.inj (Except.ok.inj hturn')
    rw [hout] at hrest
    exact ⟨last, sent', hrun', hrest⟩
  | @put n m ns b out' hout hroom =>
    intro cs hmet
    obtain ⟨last, sent, hrun, hrest⟩ := hs cs hmet
    refine ⟨last, sent, hrun, fun cs' hmet' => ?_⟩
    have hmove : (m.queue ++ [b]) ++ (out' ++ sent) = m.queue ++ (n.out ++ sent) := by
      rw [hout, List.cons_append, List.append_assoc, List.singleton_append]
    simp only [hmove] at hmet' ⊢
    exact hrest cs' hmet'
  | deliver hout =>
    intro cs hmet
    obtain ⟨last, sent, hrun, -⟩ := hs cs hmet
    exact ⟨last, sent, hrun, trivial⟩
  | next _ ih =>
    intro cs hmet
    obtain ⟨last, sent, hrun, hrest⟩ := hs cs hmet
    exact ⟨last, sent, hrun, ih hrest⟩

/-- **What comes out behind a step comes out before it.** -/
theorem Step.ends {w v : World ε α} (h : Step room w v) {fs : List (Node ε α)} {delivered : List α}
    (hv : v.Ends fs delivered) : w.Ends fs delivered := by
  obtain ⟨out, hs, rfl⟩ := hv
  cases h with
  | @arrive n ns a as delivered hroom =>
    cases hs with
    | cons hmet hrun hrest =>
      simp only [← List.append_cons] at hmet hrun
      exact ⟨out, .cons hmet hrun hrest, rfl⟩
  | turn h => exact ⟨_, h.settles hs, List.append_assoc ..⟩

theorem Step.safe {w v : World ε α} (h : Step room w v) (hw : w.Safe) : v.Safe := by
  cases h with
  | arrive hroom =>
    intro cs hmet
    simp only [← List.append_cons] at hmet ⊢
    exact hw cs hmet
  | turn h => exact h.safe hw

/-! ## Threads that can go on -/

/-- A thread with a unit before it can take it. -/
theorem Safe.exists_turn {n : Node ε α} {ns : List (Node ε α)} {as queue : List α} {a : α} (hs : Safe (n :: ns) as)
    (hqueue : n.queue = a :: queue) {c : n.Choice} (hmay : n.may queue c) : ∃ q, n.turn n.memory (a, c) = .ok q := by
  obtain ⟨cs, hcs⟩ := exists_met n.exists_may (queue ++ as)
  have hmet : Met n.may (n.queue ++ as) (c :: cs) := by
    rw [hqueue, List.cons_append]
    exact .cons (n.may_append as hmay) hcs
  obtain ⟨last, sent, hrun, -⟩ := hs _ hmet
  rw [hqueue, List.cons_append, List.zip_cons_cons] at hrun
  obtain ⟨memory, out, _, hturn, -, -⟩ := runAll_cons_inv hrun
  exact ⟨_, hturn⟩

theorem Safe.tail {n : Node ε α} {ns : List (Node ε α)} {as : List α} (hs : Safe (n :: ns) as) :
    ∃ as', Safe ns as' := by
  obtain ⟨cs, hcs⟩ := exists_met n.exists_may (n.queue ++ as)
  obtain ⟨_, sent, -, hrest⟩ := hs cs hcs
  exact ⟨_, hrest⟩

/-- No turn fails that a thread can begin. -/
theorem Safe.turn_ok {ns : List (Node ε α)} {as : List α} (hs : Safe ns as) {n : Node ε α} (hn : n ∈ ns) {a : α}
    {queue : List α} (hqueue : n.queue = a :: queue) {c : n.Choice} (hmay : n.may queue c) :
    ∃ q, n.turn n.memory (a, c) = .ok q := by
  induction ns generalizing as with
  | nil => cases hn
  | cons m ns ih =>
    rcases List.mem_cons.1 hn with rfl | hn
    · exact hs.exists_turn hqueue hmay
    · obtain ⟨_, hrest⟩ := hs.tail
      exact ih hrest hn

/-- One of the threads can go on, if any of them has a unit. -/
theorem exists_turn (hroom : room []) {ns : List (Node ε α)} {as : List α} (hs : Safe ns as)
    (hbusy : ¬∀ n ∈ ns, n.Idle) : ∃ ns' sent, Turn room ns ns' sent := by
  induction ns generalizing as with
  | nil => exact absurd (fun n hn => absurd hn List.not_mem_nil) hbusy
  | cons n ns ih =>
    by_cases hbehind : ∀ m ∈ ns, m.Idle
    · cases hout : n.out with
      | cons b out =>
        -- the queue of the next machine is empty
        cases ns with
        | nil => exact ⟨_, _, .deliver hout⟩
        | cons m ns =>
          refine ⟨_, _, .put hout ?_⟩
          rw [(hbehind m List.mem_cons_self).1]
          exact hroom
      | nil =>
        cases hqueue : n.queue with
        | nil => exact absurd (List.forall_mem_cons.2 ⟨⟨hqueue, hout⟩, hbehind⟩) hbusy
        | cons a queue =>
          obtain ⟨c, hmay⟩ := n.exists_may queue
          obtain ⟨⟨memory, out⟩, hturn⟩ := hs.exists_turn hqueue hmay
          exact ⟨_, _, .take hout hqueue hmay hturn⟩
    · obtain ⟨_, hrest⟩ := hs.tail
      obtain ⟨ns', sent, hturn⟩ := ih hrest hbehind
      exact ⟨_, _, .next hturn⟩

/-- **There is no deadlock**, whichever queues are full, as long as an empty one is not. -/
theorem exists_step (hroom : room []) {w : World ε α} (hw : w.Safe) (hnodes : w.nodes ≠ []) (hdone : ¬w.Done) :
    ∃ v, Step room w v := by
  obtain ⟨as, ns, delivered⟩ := w
  by_cases hbusy : ∀ n ∈ ns, n.Idle
  · cases as with
    | nil => exact absurd ⟨rfl, hbusy⟩ hdone
    | cons a as =>
      cases ns with
      | nil => exact absurd rfl hnodes
      | cons n ns =>
        refine ⟨_, .arrive ?_⟩
        rw [(hbusy n List.mem_cons_self).1]
        exact hroom
  · obtain ⟨ns', sent, hturn⟩ := exists_turn hroom hw hbusy
    exact ⟨_, .turn hturn⟩

/-! ## Every run ends -/

/-- Numbers of which the first that is another has become less. -/
inductive Fewer : List ℕ → List ℕ → Prop where
  | head {x y : ℕ} {xs ys : List ℕ} (h : x < y) (hlen : xs.length = ys.length) : Fewer (x :: xs) (y :: ys)
  | tail {x : ℕ} {xs ys : List ℕ} (h : Fewer xs ys) : Fewer (x :: xs) (x :: ys)

theorem Fewer.length_eq {xs ys : List ℕ} (h : Fewer xs ys) : xs.length = ys.length := by
  induction h with
  | head _ hlen => rw [List.length_cons, List.length_cons, hlen]
  | tail _ ih => rw [List.length_cons, List.length_cons, ih]

theorem fewer_wellFounded : WellFounded Fewer := by
  have hacc : ∀ n, ∀ ys : List ℕ, ys.length = n → Acc Fewer ys := by
    intro n
    induction n with
    | zero =>
      intro ys hlen
      obtain rfl := List.eq_nil_of_length_eq_zero hlen
      exact .intro _ fun xs h => by cases h
    | succ n ihn =>
      have hcons : ∀ y, ∀ ys : List ℕ, ys.length = n → Acc Fewer (y :: ys) := by
        intro y
        induction y using Nat.strongRecOn with
        | _ y ihy =>
          intro ys hlen
          have hys := ihn ys hlen
          induction hys with
          | intro ys _ ihys =>
            refine .intro _ fun xs h => ?_
            cases h with
            | head hlt hlen' => exact ihy _ hlt _ (hlen'.trans hlen)
            | tail h => exact ihys _ h (h.length_eq.trans hlen)
      intro ys hlen
      obtain ⟨y, ys, rfl⟩ := List.exists_cons_of_length_eq_add_one hlen
      exact hcons y ys (Nat.succ.inj hlen)
  exact ⟨fun ys => hacc _ ys rfl⟩

/-- The units at the machines, from the first on. -/
def counts (ns : List (Node ε α)) : List ℕ := ns.flatMap fun n => [n.queue.length, n.out.length]

theorem counts_cons (n : Node ε α) (ns : List (Node ε α)) :
    counts (n :: ns) = n.queue.length :: n.out.length :: counts ns := rfl

theorem Turn.fewer {ns ns' : List (Node ε α)} {sent : List α} (h : Turn room ns ns' sent) :
    Fewer (counts ns') (counts ns) := by
  induction h with
  | take hout hqueue =>
    rw [counts_cons, counts_cons, hqueue]
    exact .head (Nat.lt_succ_self _) rfl
  | put hout =>
    rw [counts_cons, counts_cons, counts_cons, counts_cons, hout]
    exact .tail (.head (Nat.lt_succ_self _) rfl)
  | deliver hout =>
    rw [counts_cons, counts_cons, hout]
    exact .tail (.head (Nat.lt_succ_self _) rfl)
  | next _ ih =>
    rw [counts_cons, counts_cons]
    exact .tail (.tail ih)

/-- **Every run ends.** -/
theorem step_wellFounded : WellFounded fun v w : World ε α => Step room w v := by
  refine Subrelation.wf ?_ (InvImage.wf (fun w : World ε α => w.pending.length :: counts w.nodes) fewer_wellFounded)
  intro v w h
  cases h with
  | arrive =>
    refine .head (Nat.lt_succ_self _) ?_
    rw [counts_cons, counts_cons]
    rfl
  | turn h => exact .tail h.fewer

/-! ## Runs -/

theorem Turn.nodes_ne_nil {ns ns' : List (Node ε α)} {sent : List α} (h : Turn room ns ns' sent) : ns' ≠ [] := by
  cases h <;> exact List.cons_ne_nil _ _

theorem Step.nodes_ne_nil {w v : World ε α} (h : Step room w v) : v.nodes ≠ [] := by
  cases h with
  | arrive => exact List.cons_ne_nil _ _
  | turn h => exact h.nodes_ne_nil

theorem settles_idle : ∀ {ns : List (Node ε α)}, (∀ n ∈ ns, n.Idle) → Settles ns [] ns []
  | [], _ => .nil []
  | n :: ns, h => by
    obtain ⟨hqueue, hout⟩ := h n List.mem_cons_self
    have hrest := settles_idle fun m hm => h m (List.mem_cons_of_mem n hm)
    obtain ⟨Memory, Choice, turn, may, hmore, hsome, memory, queue, out⟩ := n
    obtain rfl := hqueue
    obtain rfl := hout
    have hmet : Met may ([] ++ []) [] := .nil
    exact .cons hmet rfl hrest

/-- Machines of which no turn fails can be run one after the other. -/
theorem Safe.exists_settles {ns : List (Node ε α)} {as : List α} (hs : Safe ns as) :
    ∃ fs out, Settles ns as fs out := by
  induction ns generalizing as with
  | nil => exact ⟨[], as, .nil as⟩
  | cons n ns ih =>
    obtain ⟨cs, hcs⟩ := exists_met n.exists_may (n.queue ++ as)
    obtain ⟨memory, sent, hrun, hrest⟩ := hs cs hcs
    obtain ⟨fs, out, hfs⟩ := ih hrest
    exact ⟨_, _, .cons hcs hrun hfs⟩

/-- What holds of the machines before a run is not lost in it. -/
theorem Steps.keeps {w v : World ε α} (h : Steps room w v) (hw : w.nodes ≠ []) (hsafe : w.Safe) :
    v.Safe ∧ v.nodes ≠ [] ∧ ∀ fs out, v.Ends fs out → w.Ends fs out := by
  induction h with
  | refl => exact ⟨hsafe, hw, fun _ _ h => h⟩
  | tail _ hstep ih =>
    obtain ⟨hsafe', -, hends⟩ := ih
    exact ⟨hstep.safe hsafe', hstep.nodes_ne_nil, fun fs out h => hends fs out (hstep.ends h)⟩

theorem World.Done.ends {v : World ε α} (h : v.Done) : v.Ends v.nodes v.delivered := by
  refine ⟨[], ?_, (List.append_nil _).symm⟩
  rw [h.1]
  exact settles_idle h.2

theorem Turn.not_idle {ns ns' : List (Node ε α)} {sent : List α} (h : Turn room ns ns' sent) : ¬∀ n ∈ ns, n.Idle := by
  induction h with
  | take _ hqueue =>
    intro hidle
    rw [(hidle _ List.mem_cons_self).1] at hqueue
    cases hqueue
  | put hout =>
    intro hidle
    rw [(hidle _ List.mem_cons_self).2] at hout
    cases hout
  | deliver hout =>
    intro hidle
    rw [(hidle _ List.mem_cons_self).2] at hout
    cases hout
  | next _ ih => exact fun hidle => ih fun n hn => hidle n (List.mem_cons_of_mem _ hn)

theorem World.Done.not_step {v : World ε α} (h : v.Done) (u : World ε α) : ¬Step room v u := by
  intro hstep
  cases hstep with
  | arrive => cases h.1
  | turn hturn => exact hturn.not_idle h.2

/-- **A run of the threads agrees with the machines run one after the other.** What is delivered is always a first part
of what may come out of those, and no turn fails. Where the run can go no further, everything has been delivered, and
the machines are as they are then. -/
theorem Steps.agree (hroom : room []) {w v : World ε α} (h : Steps room w v) (hw : w.nodes ≠ []) (hsafe : w.Safe) :
    (∃ fs out, w.Ends fs out ∧ v.delivered <+: out) ∧
      (∀ n ∈ v.nodes, ∀ a queue c, n.queue = a :: queue → n.may queue c → ∃ q, n.turn n.memory (a, c) = .ok q) ∧
      ((∀ u, ¬Step room v u) → v.Done ∧ w.Ends v.nodes v.delivered) := by
  obtain ⟨hv, hne, hends⟩ := h.keeps hw hsafe
  refine ⟨?_, fun n hn a queue c hqueue hmay => Safe.turn_ok hv hn hqueue hmay, fun hstuck => ?_⟩
  · obtain ⟨fs, out, hfs⟩ := hv.exists_settles
    exact ⟨fs, _, hends fs _ ⟨out, hfs, rfl⟩, List.prefix_append _ _⟩
  · by_cases hdone : v.Done
    · exact ⟨hdone, hends _ _ hdone.ends⟩
    · obtain ⟨u, hu⟩ := exists_step hroom hv hne hdone
      exact absurd hu (hstuck u)

/-- **Every run can be brought to its end**, where everything has been delivered. -/
theorem Steps.finish (hroom : room []) {w : World ε α} (hw : w.nodes ≠ []) (hsafe : w.Safe) {v : World ε α}
    (h : Steps room w v) : ∃ u, Steps room v u ∧ u.Done ∧ w.Ends u.nodes u.delivered := by
  have hacc : Acc (fun v w => Step room w v) v := step_wellFounded.apply v
  induction hacc with
  | intro v _ ih =>
    obtain ⟨hv, hne, hends⟩ := h.keeps hw hsafe
    by_cases hdone : v.Done
    · exact ⟨v, .refl, hdone, hends _ _ hdone.ends⟩
    · obtain ⟨v', hstep⟩ := exists_step hroom hv hne hdone
      obtain ⟨u, hu, hend⟩ := ih v' hstep (h.tail hstep)
      exact ⟨u, .head hstep hu, hend⟩

/-- No run goes on forever. -/
theorem no_endless_run (f : ℕ → World ε α) : ¬∀ n, Step room (f n) (f (n + 1)) := by
  intro hf
  obtain ⟨_, ⟨n, rfl⟩, hmin⟩ := step_wellFounded.has_min (Set.range f) ⟨f 0, 0, rfl⟩
  exact hmin _ ⟨n + 1, rfl⟩ (hf n)

end Network
