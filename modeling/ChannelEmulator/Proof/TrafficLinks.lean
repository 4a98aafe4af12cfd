import ChannelEmulator.Proof.LinkInvariants
import ChannelEmulator.Proof.TrafficNetwork

/-!
# The threads of modules that are linked by the operations

* `linked_ends`: **modules whose links were made by the operations** do not run forever and do not stand still, where
  the ends of new links are apart.
* `relays_endless`: **two opposite links**, which are accepted, are enough for threads that never end.
-/

namespace ChannelEmulator.Traffic

open Framing Network

variable {ι : Type}

/-! ## Links without cycles -/

/-- The operations leave no cycle. -/
theorem acyclic_run [DecidableEq ι] {d : LinkGraph.Handlers ι} {g : LinkGraph.Net ι}
    (hrun : LinkGraph.Run d (fun s o _ => o.Apart d s) g) : LinkGraph.Acyclic g := by
  induction hrun with
  | start =>
    intro x hx
    obtain ⟨y, ⟨p, l, hl, -⟩, -⟩ := Relation.TransGen.head'_iff.1 hx
    cases hl
  | op hprev ho hapart hrun ih => exact LinkGraph.acyclic_step (LinkGraph.run_settled_all hprev) ih ho hapart hrun

variable [DecidableEq ι] {segments : ι → Segment ι} {supply : ι → List (ι × Bytes)}

/-- **Modules that the operations have linked.** Where the ends of new links were apart, and the modules send over
their links only, no run of the threads goes on forever, and none ends before all is through. -/
theorem linked_ends [Finite ι] {d : LinkGraph.Handlers ι} {g : LinkGraph.Net ι}
    (hrun : LinkGraph.Run d (fun s o _ => o.Apart d s) g) (hsupply : ∀ i, ∀ q ∈ supply i, LinkGraph.Edge g i q.1)
    (hsvc : ∀ i memory p memory' out, (segments i).svc memory p = .ok (memory', out) →
      ∀ q ∈ out, LinkGraph.Edge g i q.1)
    (room : List Bytes → Prop) (hroom : room [])
    (hready : ∀ s, Net.Steps room (network segments supply).initial s → s.Ready) :
    (¬∃ f : ℕ → (network segments supply).State, f 0 = (network segments supply).initial ∧
      ∀ n, Net.Step room (f n) (f (n + 1))) ∧
    ∀ s, Net.Steps room (network segments supply).initial s →
      ((∀ t, ¬Net.Step room s t) → s.Through) ∧ ∃ t, Net.Steps room s t ∧ t.Through ∧ ∀ t', ¬Net.Step room t t' := by
  obtain ⟨rank, hrank⟩ := Net.exists_rank (acyclic_run hrun)
  exact ordered_ends (network_ordered (fun i q hq => hrank _ _ (hsupply i q hq))
    fun i memory p memory' out h q hq => hrank _ _ (hsvc i memory p memory' out h q hq)) room hroom hready

/-- A module that passes on what it gets. -/
def relay (target : ι) : Segment ι := (Service.plain (fun (_ : Unit) u => .ok ((), [u])) ()).linked target

/-- The first of two modules passes on what it gets to the second, which is linked to nothing. -/
def twoRelays (b : Bool) : Segment Bool := if b then .sink _ else relay true

/-- It begins with a unit to put. -/
def oneUnit (u : Bytes) (b : Bool) : List (Bool × Bytes) := if b then [] else [(true, u)]

/-- Two handlers with one link. -/
theorem linked_ends_two : ∃ t : (network twoRelays (oneUnit [7])).State,
    Net.Steps (· = []) (network twoRelays (oneUnit [7])).initial t ∧ t.Through := by
  obtain ⟨g, hrun, hedge⟩ := LinkGraph.linked_first
  have hsupply : ∀ b, ∀ q ∈ oneUnit [7] b, LinkGraph.Edge g b q.1 := by
    intro b q hq
    cases b with
    | false =>
      obtain rfl := List.mem_singleton.1 hq
      exact hedge
    | true => cases hq
  have hsvc : ∀ b memory p memory' out, (twoRelays b).svc memory p = .ok (memory', out) →
      ∀ q ∈ out, LinkGraph.Edge g b q.1 := by
    intro b memory p memory' out h q hq
    cases b with
    | false =>
      rw [Service.linked_sends h q hq]
      exact hedge
    | true =>
      obtain ⟨-, rfl⟩ := Prod.mk.inj (Except.ok.inj h)
      cases hq
  have hready : ∀ s : (network twoRelays (oneUnit [7])).State, s.Ready := by
    intro s b a queue c _ _
    have hok : ∃ r, (twoRelays b).svc (handler s b).memory (a, c) = .ok r := by
      cases b with
      | false => exact ⟨_, rfl⟩
      | true => exact ⟨_, rfl⟩
    obtain ⟨r, hr⟩ := hok
    exact ⟨_, ((twoRelays b).turn_eq (handler s b) (a, c)).trans (by rw [hr]; rfl)⟩
  obtain ⟨-, hend⟩ := linked_ends hrun hsupply hsvc (· = []) rfl fun s _ => hready s
  obtain ⟨t, ht, hthrough, -⟩ := (hend _ .refl).2
  exact ⟨t, ht, hthrough⟩

/-! ## Links with a cycle -/

/-- Two modules that pass on what they get to each other, with a unit to put. -/
abbrev circle (u : Bytes) : Net Bool Fault Bytes := network (fun b => relay (!b)) (oneUnit u)

/-- The unit is with one of the modules, which is about to put it or to take it. -/
def Around (u : Bytes) (s : (circle u).State) : Prop :=
  ∃ b, s.queue (!b) = [] ∧ s.out (!b) = [] ∧
    (s.out b = [(!b, u)] ∧ s.queue b = [] ∨ s.queue b = [u] ∧ s.out b = [])

theorem Around.step {u : Bytes} {room : List Bytes → Prop} (hroom : room []) {s : (circle u).State} (h : Around u s) :
    ∃ t, Net.Step room s t ∧ Around u t := by
  obtain ⟨b, hqueue, hout, ⟨hput, hnone⟩ | ⟨htake, hnone⟩⟩ := h
  · -- it is put
    refine ⟨_, .put hput (by rw [hqueue]; exact hroom), !b, ?_, ?_, .inr ⟨?_, ?_⟩⟩
    · simp [hnone]
    · simp
    · simp [hqueue]
    · simp [hout]
  · -- it is taken, and is to be put for the other module
    have hturn : (circle u).turn b (s.memory b) (u, ()) =
        .ok ({ (handler s b).getData u with memory := () }, [(!b, u)]) := rfl
    refine ⟨_, .take hnone htake trivial hturn, b, ?_, ?_, .inl ⟨?_, ?_⟩⟩
    · simp [hqueue]
    · simp [hout]
    · simp
    · simp

/-- **Opposite links**, both of which are accepted, make threads that never end of two modules that pass on what they
get: the unit goes round. -/
theorem relays_endless (u : Bytes) (room : List Bytes → Prop) (hroom : room []) :
    (∃ g : LinkGraph.Net Bool, LinkGraph.Run LinkGraph.twoHandlers (fun _ _ r => r = none) g ∧
      ∀ b, LinkGraph.Edge g b (!b)) ∧
    ∃ f : ℕ → (circle u).State, f 0 = (circle u).initial ∧ ∀ n, Net.Step room (f n) (f (n + 1)) := by
  refine ⟨?_, Net.exists_endless (P := Around u) ⟨false, rfl, rfl, .inl ⟨rfl, rfl⟩⟩ fun s hs => hs.step hroom⟩
  obtain ⟨g, hrun, hforth, hback⟩ := LinkGraph.opposite_links
  refine ⟨g, hrun, fun b => ?_⟩
  cases b with
  | false => exact hforth
  | true => exact hback

end ChannelEmulator.Traffic
