import ChannelEmulator.Spec.SyncMarker
import ChannelEmulator.Spec.TrafficHandler

/-!
# The threads of modules agree with their loops

* `runAll_counted`: a thread does what the loop of its module does, and counts.
* `threads_agree`: **in any order of the threads nothing is lost, doubled or moved**.
* `threads_end`: **no run of the threads goes on forever**, and none stands still before all is delivered.
-/

namespace ChannelEmulator.Traffic

open Framing Network

/-! ## Counts -/

namespace Handler

variable {σ : Type}

/-- The units are counted. -/
def getAll (h : Handler σ) (units : List Bytes) : Handler σ := units.foldl getData h

theorem getAll_cons (h : Handler σ) (u : Bytes) (units : List Bytes) :
    h.getAll (u :: units) = (h.getData u).getAll units := rfl

/-- What the loop keeps is nothing to the counts. -/
theorem getAll_memory (h : Handler σ) (m : σ) (units : List Bytes) :
    ({ h with memory := m } : Handler σ).getAll units = { h.getAll units with memory := m } := by
  induction units generalizing h with
  | nil => rfl
  | cons u units ih => exact ih (h.getData u)

theorem getAll_units (units : List Bytes) {h : Handler σ} (hlt : h.receivedUnitCount < 2 ^ 64) :
    (h.getAll units).receivedUnitCount = (h.receivedUnitCount + units.length) % 2 ^ 64 := by
  induction units generalizing h with
  | nil => exact (Nat.mod_eq_of_lt hlt).symm
  | cons u units ih =>
    have hcount : (h.getData u).receivedUnitCount = (h.receivedUnitCount + 1) % 2 ^ 64 := rfl
    rw [getAll_cons, ih (by rw [hcount]; exact Nat.mod_lt _ (by decide)), hcount, Nat.mod_add_mod, List.length_cons,
      Nat.add_assoc, Nat.add_comm 1]

theorem getAll_octets (units : List Bytes) {h : Handler σ} (hlt : h.receivedOctetCount < 2 ^ 64) :
    (h.getAll units).receivedOctetCount =
      (h.receivedOctetCount + (units.map fun u => u.length % 2 ^ 32).sum) % 2 ^ 64 := by
  induction units generalizing h with
  | nil => exact (Nat.mod_eq_of_lt hlt).symm
  | cons u units ih =>
    have hcount : (h.getData u).receivedOctetCount = (h.receivedOctetCount + u.length % 2 ^ 32) % 2 ^ 64 := rfl
    rw [getAll_cons, ih (by rw [hcount]; exact Nat.mod_lt _ (by decide)), hcount, Nat.mod_add_mod, List.map_cons,
      List.sum_cons, Nat.add_assoc]

end Handler

/-! ## One thread -/

section Turns

variable {σ γ β : Type} {svc : σ → Bytes × γ → Except Fault (σ × List β)}

/-- **Turns do what the loop of the module does**, and count the units. -/
theorem runAll_counted {turn : Handler σ → Bytes × γ → Except Fault (Handler σ × List β)}
    (hturn : ∀ h p, turn h p = (svc h.memory p).map fun r => ({ h.getData p.1 with memory := r.1 }, r.2))
    (h : Handler σ) (ps : List (Bytes × γ)) : runAll turn h ps =
      (runAll svc h.memory ps).map fun r => ({ h.getAll (ps.map Prod.fst) with memory := r.1 }, r.2) := by
  induction ps generalizing h with
  | nil => rfl
  | cons p ps ih =>
    rw [runAll_cons_eq, runAll_cons_eq, hturn]
    cases svc h.memory p with
    | error e => rfl
    | ok q =>
      show runAll turn { h.getData p.1 with memory := q.1 } ps >>= _ = _
      rw [ih, ok_bind]
      cases runAll svc q.1 ps with
      | error e => rfl
      | ok r =>
        refine congrArg (fun k => Except.ok (k, q.2 ++ r.2)) ?_
        rw [List.map_cons, Handler.getAll_cons, Handler.getAll_memory]

/-- The turns of a module that has started, on all of its units. -/
theorem run_counted {turn : Handler σ → Bytes × γ → Except Fault (Handler σ × List β)}
    (hturn : ∀ h p, turn h p = (svc h.memory p).map fun r => ({ h.getData p.1 with memory := r.1 }, r.2)) {start : σ}
    {units : List Bytes} {cs : List γ} (hlen : units.length = cs.length) {h : Handler σ} {sent : List β}
    (hrun : runAll turn { memory := start } (units.zip cs) = .ok (h, sent)) : ∃ memory,
      runAll svc start (units.zip cs) = .ok (memory, sent) ∧ h =
        { memory := memory
          receivedUnitCount := units.length % 2 ^ 64
          receivedOctetCount := (units.map fun u => u.length % 2 ^ 32).sum % 2 ^ 64 } := by
  rw [runAll_counted hturn, List.map_fst_zip hlen.le] at hrun
  cases hsvc : runAll svc start (units.zip cs) with
  | error e =>
    rw [hsvc] at hrun
    cases hrun
  | ok r =>
    rw [hsvc] at hrun
    obtain ⟨rfl, rfl⟩ := Prod.mk.inj (Except.ok.inj hrun)
    have hstart : ({ memory := start } : Handler σ).receivedUnitCount < 2 ^ 64 := Nat.two_pow_pos 64
    have hunits := Handler.getAll_units units hstart
    have hoctets := Handler.getAll_octets units (h := { memory := start }) hstart
    rw [Nat.zero_add] at hunits hoctets
    refine ⟨r.1, rfl, ?_⟩
    rw [← hunits, ← hoctets]

end Turns

namespace Service

variable (s : Service)

theorem turn_eq (h : Handler s.Memory) (p : Bytes × s.Choice) :
    s.turn h p = (s.svc h.memory p).map fun r => ({ h.getData p.1 with memory := r.1 }, r.2) := by
  show (s.svc h.memory p >>= _) = _
  cases s.svc h.memory p <;> rfl

/-- A thread that has begun, on all of its units. -/
theorem run_started {units sent : List Bytes} {cs : List s.Choice} {h : Handler s.Memory} (hmet : Met s.may units cs)
    (hrun : runAll s.turn { memory := s.start } (units.zip cs) = .ok (h, sent)) :
    ∃ memory, runAll s.svc s.start (units.zip cs) = .ok (memory, sent) ∧ s.thread h [] [] = s.ended memory units := by
  obtain ⟨memory, hsvc, rfl⟩ := run_counted s.turn_eq hmet.length_eq hrun
  exact ⟨memory, hsvc, rfl⟩

end Service

/-! ## All threads -/

variable {services : List Service} {units out : List Bytes}

/-- The threads that have begun. -/
def threads (services : List Service) : List (Node Fault Bytes) :=
  services.map fun s => s.thread { memory := s.start } [] []

theorem passes_of_settles {ns : List (Node Fault Bytes)} (h : Settles (threads services) units ns out) :
    Passes services units ns out := by
  induction services generalizing units ns with
  | nil =>
    cases h
    exact .nil _
  | cons s services ih =>
    cases h with
    | cons hmet hrun hrest =>
      obtain ⟨memory, hsvc, hended⟩ := s.run_started hmet hrun
      have hpasses := Passes.cons hmet hsvc (ih hrest)
      rw [← hended] at hpasses
      exact hpasses

theorem safe_of_neverFails (h : NeverFails services units) : Safe (threads services) units := by
  induction services generalizing units with
  | nil => exact trivial
  | cons s services ih =>
    intro cs hmet
    obtain ⟨memory, sent, hrun, hrest⟩ := h cs hmet
    have hturn := runAll_counted s.turn_eq { memory := s.start } (units.zip cs)
    rw [show ({ memory := s.start } : Handler s.Memory).memory = s.start from rfl, hrun] at hturn
    exact ⟨_, sent, hturn, ih hrest⟩

variable {room : List Bytes → Prop} {v : World Fault Bytes}

theorem passes_of_ends {ns : List (Node Fault Bytes)} {delivered : List Bytes}
    (h : (started services units).Ends ns delivered) : Passes services units ns delivered := by
  obtain ⟨out, hsettles, rfl⟩ := h
  exact passes_of_settles hsettles

/-! ## What modules make of units -/

/-- The modules never fail for the units, and `P` tells their threads behind that, and what comes out. -/
def Yields (services : List Service) (units : List Bytes) (P : List (Node Fault Bytes) → List Bytes → Prop) : Prop :=
  NeverFails services units ∧ ∀ ns out, Passes services units ns out → P ns out

namespace Yields

variable {P : List (Node Fault Bytes) → List Bytes → Prop}

theorem nil (h : P [] units) : Yields [] units P := by
  refine ⟨trivial, fun ns out hpasses => ?_⟩
  cases hpasses
  exact h

/-- The first module is run, whatever it meets, and then the others. -/
theorem cons {s : Service} (h : ∀ cs, Met s.may units cs → ∃ memory sent,
    runAll s.svc s.start (units.zip cs) = .ok (memory, sent) ∧
      Yields services sent fun ns out => P (s.ended memory units :: ns) out) : Yields (s :: services) units P := by
  constructor
  · intro cs hmet
    obtain ⟨memory, sent, hrun, hrest, -⟩ := h cs hmet
    exact ⟨memory, sent, hrun, hrest⟩
  · intro ns out hpasses
    cases hpasses with
    | cons hmet hrun hrest =>
      obtain ⟨memory, sent, hrun', -, hP⟩ := h _ hmet
      obtain ⟨rfl, rfl⟩ := Prod.mk.inj (Except.ok.inj (hrun'.symm.trans hrun))
      exact hP _ _ hrest

/-- A module that depends on the units alone. -/
theorem plain {σ : Type} {svc : σ → Bytes → Except Fault (σ × List Bytes)} {start memory : σ} {sent : List Bytes}
    (hrun : runAll svc start units = .ok (memory, sent))
    (h : Yields services sent fun ns out => P ((Service.plain svc start).ended memory units :: ns) out) :
    Yields (.plain svc start :: services) units P := by
  refine cons fun cs hmet => ⟨memory, sent, ?_, h⟩
  have hmap := runAll_map (f := svc) Prod.fst start (units.zip cs)
  rw [List.map_fst_zip hmet.length_eq.le] at hmap
  exact hmap.trans hrun

/-- **What modules make of units, their threads make of them**, in any order. -/
theorem steps (room : List Bytes → Prop) (hroom : room []) (hne : services ≠ []) (hyields : Yields services units P)
    (h : Steps room (started services units) v) :
    (∃ ns out, P ns out ∧ v.delivered <+: out) ∧ ((∀ u, ¬Step room v u) → v.pending = [] ∧ P v.nodes v.delivered) := by
  have hnodes : threads services ≠ [] := fun hnil => hne (List.map_eq_nil_iff.1 hnil)
  obtain ⟨⟨ns, out, hends, hpre⟩, -, hend⟩ := h.agree hroom hnodes (safe_of_neverFails hyields.1)
  refine ⟨⟨ns, out, hyields.2 ns out (passes_of_ends hends), hpre⟩, fun hstuck => ?_⟩
  obtain ⟨hdone, hends'⟩ := hend hstuck
  exact ⟨hdone.1, hyields.2 _ _ (passes_of_ends hends')⟩

/-- The threads can be brought to where none can go on. -/
theorem exists_end (room : List Bytes → Prop) (hroom : room []) (hne : services ≠ [])
    (hyields : Yields services units P) :
    ∃ w, Steps room (started services units) w ∧ ∀ u, ¬Step room w u := by
  have hnodes : threads services ≠ [] := fun hnil => hne (List.map_eq_nil_iff.1 hnil)
  obtain ⟨u, hu, hdone, -⟩ :=
    Steps.finish (w := started services units) hroom hnodes (safe_of_neverFails hyields.1) .refl
  exact ⟨u, hu, hdone.not_step⟩

end Yields

/-- **In any order of the threads nothing is lost, doubled or moved.** What is delivered is always a first part of what
comes out of the modules that get all of their units one after the other. Where no thread can go on, all of it is
delivered, and each module is as it is then, with the units and octets counted that it got. -/
theorem threads_agree (room : List Bytes → Prop) (hroom : room []) (hne : services ≠ [])
    (hfails : NeverFails services units) (h : Steps room (started services units) v) :
    (∃ ns out, Passes services units ns out ∧ v.delivered <+: out) ∧
      ((∀ u, ¬Step room v u) → v.pending = [] ∧ Passes services units v.nodes v.delivered) :=
  Yields.steps room hroom hne ⟨hfails, fun _ _ hpasses => hpasses⟩ h

/-- A module that puts a marker before two units. -/
theorem marker_yields : Yields [.plain ASM.Add.svc (.start [0x1A, 0xCF])] [[1, 2], [3]] fun _ out =>
    out = [[0x1A, 0xCF, 1, 2], [0x1A, 0xCF, 3]] :=
  .plain rfl (.nil rfl)

theorem threads_agree_marker : ∃ w,
    Steps (· = []) (started [.plain ASM.Add.svc (.start [0x1A, 0xCF])] [[1, 2], [3]]) w ∧ w.pending = [] ∧
    Passes [.plain ASM.Add.svc (.start [0x1A, 0xCF])] [[1, 2], [3]] w.nodes w.delivered := by
  obtain ⟨w, hw, hstuck⟩ := marker_yields.exists_end (· = []) rfl (List.cons_ne_nil _ _)
  exact ⟨w, hw, (threads_agree (· = []) rfl (List.cons_ne_nil _ _) marker_yields.1 hw).2 hstuck⟩

/-- **No run of the threads goes on forever**, and each can be brought to where all is delivered. -/
theorem threads_end (room : List Bytes → Prop) (hroom : room []) (hne : services ≠ [])
    (hfails : NeverFails services units) :
    (¬∃ f : ℕ → World Fault Bytes, f 0 = started services units ∧ ∀ n, Step room (f n) (f (n + 1))) ∧
      ∀ v, Steps room (started services units) v → ∃ u, Steps room v u ∧ (∀ u', ¬Step room u u') ∧ u.pending = [] ∧
        Passes services units u.nodes u.delivered := by
  have hnodes : threads services ≠ [] := fun hnil => hne (List.map_eq_nil_iff.1 hnil)
  refine ⟨fun ⟨f, _, hf⟩ => no_endless_run f hf, fun v hv => ?_⟩
  obtain ⟨u, hu, hdone, hends⟩ :=
    Steps.finish (w := started services units) hroom hnodes (safe_of_neverFails hfails) hv
  exact ⟨u, hu, hdone.not_step, hdone.1, passes_of_ends hends⟩

theorem threads_end_marker : ∃ u,
    Steps (· = []) (started [.plain ASM.Add.svc (.start [0x1A, 0xCF])] [[1, 2], [3]]) u ∧
    Passes [.plain ASM.Add.svc (.start [0x1A, 0xCF])] [[1, 2], [3]] u.nodes u.delivered := by
  obtain ⟨u, hu, -, -, hpasses⟩ :=
    (threads_end (· = []) rfl (List.cons_ne_nil _ _) marker_yields.1).2 _ Relation.ReflTransGen.refl
  exact ⟨u, hu, hpasses⟩

end ChannelEmulator.Traffic
