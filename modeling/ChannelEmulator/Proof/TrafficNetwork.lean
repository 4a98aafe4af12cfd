import ChannelEmulator.Network.Graph
import ChannelEmulator.Proof.SyncMarker
import ChannelEmulator.Proof.TrafficHandler
import ChannelEmulator.Spec.TrafficNetwork

/-!
# Modules that are linked in any way

* `exists_run`: a module is on its way through the units that it has got.
* `units_explained`: **whatever the links, the state of the modules tells what happened to every unit**.
* `network_ends`: where units go onwards only, no run goes on forever, and none ends before all is through.
-/

namespace ChannelEmulator.Traffic

open Framing Network

variable {ι : Type} {segments : ι → Segment ι} {supply : ι → List (ι × Bytes)}

theorem Segment.turn_eq (s : Segment ι) (h : Handler s.Memory) (p : Bytes × s.Choice) :
    s.turn h p = (s.svc h.memory p).map fun r => ({ h.getData p.1 with memory := r.1 }, r.2) := by
  show (s.svc h.memory p >>= _) = _
  cases s.svc h.memory p <;> rfl

/-- A turn sends what the loop sends. -/
theorem Segment.turn_sends {s : Segment ι} {h h' : Handler s.Memory} {p : Bytes × s.Choice} {out : List (ι × Bytes)}
    (hturn : s.turn h p = .ok (h', out)) : ∃ memory, s.svc h.memory p = .ok (memory, out) := by
  rw [turn_eq] at hturn
  cases hsvc : s.svc h.memory p with
  | error e =>
    rw [hsvc] at hturn
    cases hturn
  | ok r =>
    rw [hsvc] at hturn
    obtain ⟨-, rfl⟩ := Prod.mk.inj (Except.ok.inj hturn)
    exact ⟨r.1, rfl⟩

/-- A module sends to the one that it is linked to. -/
theorem Service.linked_sends {s : Service} {target : ι} {memory memory' : s.Memory} {p : Bytes × s.Choice}
    {out : List (ι × Bytes)} (h : (s.linked target).svc memory p = .ok (memory', out)) : ∀ q ∈ out, q.1 = target := by
  have hmap : (s.svc memory p).map (fun r => (r.1, r.2.map (target, ·))) = .ok (memory', out) := h
  cases hsvc : s.svc memory p with
  | error e =>
    rw [hsvc] at hmap
    cases hmap
  | ok r =>
    rw [hsvc] at hmap
    obtain ⟨-, rfl⟩ := Prod.mk.inj (Except.ok.inj hmap)
    intro q hq
    obtain ⟨u, -, rfl⟩ := List.mem_map.1 hq
    rfl

/-- A module that is linked to another one sends what it makes to that one. -/
theorem Service.run_linked (s : Service) (target : ι) (memory : s.Memory) (ps : List (Bytes × s.Choice)) :
    runAll (s.linked target).svc memory ps = (runAll s.svc memory ps).map fun r => (r.1, r.2.map (target, ·)) :=
  runAll_outputs _ _ _

/-- The attributes of a module. -/
def handler (s : (network segments supply).State) (i : ι) : Handler (segments i).Memory := s.memory i

variable [DecidableEq ι] {s : (network segments supply).State} {H : (network segments supply).History}

/-- **A module is on its way** through the units that it has got. -/
theorem exists_run (h : H.Explains s) (i : ι) : ∃ cs, Met (segments i).may (H.units i) cs ∧
    ∀ memory outs, runAll (segments i).svc (segments i).start ((H.units i).zip cs) = .ok (memory, outs) →
      H.made i <+: outs ∧ (s.Through → (handler s i).memory = memory ∧ H.made i = outs) := by
  obtain ⟨cs, hmet, hrun⟩ := h.exists_run i
  refine ⟨cs, hmet, fun memory outs hsvc => ?_⟩
  have hturn := runAll_counted (segments i).turn_eq { memory := (segments i).start } ((H.units i).zip cs)
  rw [hsvc] at hturn
  obtain ⟨hpre, hthrough⟩ := hrun _ outs hturn
  exact ⟨hpre, fun ht => ⟨congrArg Handler.memory (hthrough ht).1, (hthrough ht).2⟩⟩

/-- The next turn of a module does not fail, where its loop fails for nothing that it has got. -/
theorem turn_ok (h : H.Explains s) {i : ι}
    (hall : ∀ cs, Met (segments i).may (H.units i) cs →
      ∃ r, runAll (segments i).svc (segments i).start ((H.units i).zip cs) = .ok r) {a : Bytes} {queue : List Bytes}
    {c : (segments i).Choice} (hqueue : s.queue i = a :: queue) (hmay : (segments i).may queue c) :
    ∃ r, (network segments supply).turn i (s.memory i) (a, c) = .ok r := by
  refine h.turn_ok (fun cs hmet => ?_) hqueue hmay
  obtain ⟨r, hr⟩ := hall cs hmet
  have hturn := runAll_counted (segments i).turn_eq { memory := (segments i).start } ((H.units i).zip cs)
  rw [hr] at hturn
  exact ⟨_, hturn⟩

omit [DecidableEq ι] in
/-- Outputs lead onwards where what the loops send does. -/
theorem network_ordered {rank : ι → ℕ} (hsupply : ∀ i, ∀ q ∈ supply i, rank i < rank q.1)
    (hsvc : ∀ i memory p memory' out, (segments i).svc memory p = .ok (memory', out) → ∀ q ∈ out, rank i < rank q.1) :
    (network segments supply).Ordered rank := by
  refine ⟨hsupply, fun {i h p h' out} hturn q hq => ?_⟩
  obtain ⟨memory, hmemory⟩ := Segment.turn_sends (s := segments i) hturn
  exact hsvc i _ p memory out hmemory q hq

/-- **No run goes on forever**, and each can be brought to its end. -/
theorem ordered_ends [Finite ι] {rank : ι → ℕ} (hord : (network segments supply).Ordered rank)
    (room : List Bytes → Prop) (hroom : room [])
    (hready : ∀ s, Net.Steps room (network segments supply).initial s → s.Ready) :
    (¬∃ f : ℕ → (network segments supply).State, f 0 = (network segments supply).initial ∧
      ∀ n, Net.Step room (f n) (f (n + 1))) ∧
    ∀ s, Net.Steps room (network segments supply).initial s →
      ((∀ t, ¬Net.Step room s t) → s.Through) ∧ ∃ t, Net.Steps room s t ∧ t.Through ∧ ∀ t', ¬Net.Step room t t' := by
  refine ⟨?_, fun s hs => ⟨fun hstuck => ?_, ?_⟩⟩
  · rintro ⟨f, hstart, hf⟩
    exact Net.no_endless_run hord f hstart hf
  · exact Net.Steps.through hroom hord (hready s hs) hs hstuck
  · obtain ⟨t, ht, hthrough⟩ := Net.Steps.finish hroom hord hready hs
    exact ⟨t, ht, hthrough, hthrough.not_step⟩

variable {room : List Bytes → Prop}

/-- **The state of the modules tells what happened to every unit.** Each module has got units from others; it has taken
the first of them, counted these, and is as its loop leaves it behind them, and the others are in its queue. What
was made by it for another module, that one has got from it, in this order, but for what is still to be sent. -/
theorem units_explained (h : Net.Steps room (network segments supply).initial s) :
    ∃ got made : ι → List (ι × Bytes),
      (∀ i j, part j (supply i ++ made i) = part i (got j) ++ part j (s.out i)) ∧
      ∀ i, ∃ done cs, (got i).map Prod.snd = done ++ s.queue i ∧ done.length = cs.length ∧
        (∀ p c, cs[p]? = some c → (segments i).may (((got i).map Prod.snd).drop (p + 1)) c) ∧
        ∃ memory, runAll (segments i).svc (segments i).start (done.zip cs) = .ok (memory, made i) ∧
          handler s i =
            { memory := memory
              receivedUnitCount := done.length % 2 ^ 64
              receivedOctetCount := (done.map fun u => u.length % 2 ^ 32).sum % 2 ^ 64 } := by
  obtain ⟨H, hH⟩ := Net.Steps.explained h
  refine ⟨H.got, H.made, fun i j => ?_, fun i => ?_⟩
  · have hput : supply i ++ H.made i = H.sent i ++ s.out i := hH.put i
    rw [hput, part_append, hH.linked]
  · obtain ⟨done, hunits, hlen, hrun⟩ := hH.ran i
    obtain ⟨memory, hsvc, hhandler⟩ := run_counted (segments i).turn_eq hlen hrun
    exact ⟨done, H.met i, hunits, hlen, hH.met i, memory, hsvc, hhandler⟩

/-- A marker is put before the units of two senders. What both make goes to one module. -/
def twoSenders (i : Option Bool) : Segment (Option Bool) :=
  i.elim (.sink _) fun b => (Service.plain ASM.Add.svc (.start [if b then 0x1B else 0x1A])).linked none

/-- One unit from outside for the second of them. -/
def twoUnits (i : Option Bool) : List (Option Bool × Bytes) :=
  i.elim [] fun b => if b then [(none, [8])] else [(some true, [7])]

theorem units_explained_two : ∃ s : (network twoSenders twoUnits).State,
    Net.Steps (· = []) (network twoSenders twoUnits).initial s ∧
    ∃ got made : Option Bool → List (Option Bool × Bytes),
      ∀ i j, part j (twoUnits i ++ made i) = part i (got j) ++ part j (s.out i) := by
  have hstep : Net.Step (· = []) (network twoSenders twoUnits).initial _ :=
    .put (i := some false) (j := some true) (b := [7]) rfl rfl
  obtain ⟨got, made, hgot, -⟩ := units_explained (.single hstep)
  exact ⟨_, .single hstep, got, made, hgot⟩

/-- **No run of the modules goes on forever**, and each can be brought to where all is through, where outputs lead to
modules that are further on and no turn fails. -/
theorem network_ends [Finite ι] (rank : ι → ℕ) (room : List Bytes → Prop)
    (hsupply : ∀ i, ∀ q ∈ supply i, rank i < rank q.1)
    (hsvc : ∀ i memory p memory' out, (segments i).svc memory p = .ok (memory', out) → ∀ q ∈ out, rank i < rank q.1)
    (hroom : room []) (hready : ∀ s, Net.Steps room (network segments supply).initial s → s.Ready) :
    (¬∃ f : ℕ → (network segments supply).State, f 0 = (network segments supply).initial ∧
      ∀ n, Net.Step room (f n) (f (n + 1))) ∧
    ∀ s, Net.Steps room (network segments supply).initial s →
      ((∀ t, ¬Net.Step room s t) → s.Through) ∧ ∃ t, Net.Steps room s t ∧ t.Through ∧ ∀ t', ¬Net.Step room t t' := by
  exact ordered_ends (network_ordered hsupply hsvc) room hroom hready

/-- How far on the modules are. -/
def twoRank (i : Option Bool) : ℕ := i.elim 2 Bool.toNat

/-- The three modules, over queues that take one unit: none of their loops fails. -/
theorem network_ends_two : ∃ t : (network twoSenders twoUnits).State,
    Net.Steps (· = []) (network twoSenders twoUnits).initial t ∧ t.Through := by
  have hadd : ∀ (memory : ASM.Add) (u : Bytes), ∃ r, ASM.Add.svc memory u = .ok r := by
    intro memory u
    by_cases hu : u = []
    · exact ⟨(memory, []), if_pos (List.length_eq_zero_iff.2 hu)⟩
    · by_cases hm : memory.updateMarker.markerBuf = []
      · refine ⟨(memory.updateMarker, [u]), ?_⟩
        rw [ASM.Add.svc, if_neg fun h => hu (List.length_eq_zero_iff.1 h)]
        exact if_pos (List.length_eq_zero_iff.2 hm)
      · exact ⟨_, ASM.Add.svc_spec rfl hm hu⟩
  have hsvc : ∀ i memory p, ∃ r, (twoSenders i).svc memory p = .ok r := by
    intro i memory p
    rcases i with _ | _ | _
    · exact ⟨_, rfl⟩
    · obtain ⟨r, hr⟩ := hadd memory p.1
      exact ⟨_, congrArg (Except.map _) hr⟩
    · obtain ⟨r, hr⟩ := hadd memory p.1
      exact ⟨_, congrArg (Except.map _) hr⟩
  have hsends : ∀ i memory p memory' out, (twoSenders i).svc memory p = .ok (memory', out) →
      ∀ q ∈ out, twoRank i < twoRank q.1 := by
    intro i memory p memory' out h q hq
    rcases i with _ | _ | _
    · obtain ⟨-, rfl⟩ := Prod.mk.inj (Except.ok.inj h)
      cases hq
    · rw [Service.linked_sends h q hq]
      decide
    · rw [Service.linked_sends h q hq]
      decide
  have hsupply : ∀ i, ∀ q ∈ twoUnits i, twoRank i < twoRank q.1 := by
    intro i q hq
    rcases i with _ | _ | _
    · cases hq
    · obtain rfl := List.mem_singleton.1 hq
      decide
    · obtain rfl := List.mem_singleton.1 hq
      decide
  obtain ⟨-, hend⟩ := network_ends twoRank (· = []) hsupply hsends rfl fun s _ i a queue c _ _ => by
    obtain ⟨r, hr⟩ := hsvc i (handler s i).memory (a, c)
    exact ⟨_, ((twoSenders i).turn_eq (handler s i) (a, c)).trans (by rw [hr]; rfl)⟩
  obtain ⟨t, ht, hthrough, -⟩ := (hend _ .refl).2
  exact ⟨t, ht, hthrough⟩

end ChannelEmulator.Traffic
