import ChannelEmulator.Framing.Loop
import ChannelEmulator.Graph.Mark
import ChannelEmulator.Spec.AutoLoad
import Mathlib.Data.List.Forall2

/-!
# Segments are loaded behind what they output to

* `getDependencies_eq`: the dependencies are marked by a walk along the outputs.
* `getDependencies_ok`: **the dependencies are the segments that are reached**, cycles or not.
* `doesNotDependOn_iff`: without cycles the comparator compares the numbers of dependencies.
* `loads_behind_outputs`: **the segments are loaded once each, behind what they output to.**
-/

namespace ChannelEmulator.AutoLoad

open Framing

/-- The outputs of the segment of a name. -/
def Channel.outputs (ch : Channel) (name : String) : List String := ((ch.find? name).map Setting.outputs).getD []

/-- A segment outputs to another. -/
def Channel.OutputsTo (ch : Channel) : String → String → Prop := Marking.Edge ch.outputs

/-- A segment outputs to another, directly or indirectly. -/
def Channel.Leads (ch : Channel) : String → String → Prop := Relation.TransGen ch.OutputsTo

/-- Every output names an existing segment. -/
def Channel.Closed (ch : Channel) : Prop := ∀ seg ∈ ch.settings, ∀ name ∈ seg.outputs, (ch.find? name).isSome

/-- The outputs form no cycle. -/
def Channel.Acyclic (ch : Channel) : Prop := ∀ name, ¬ ch.Leads name name

variable {ch : Channel}

theorem find_some {name : String} {seg : Setting} (h : ch.find? name = some seg) :
    seg ∈ ch.settings ∧ seg.name = name := by
  refine ⟨List.mem_of_find?_eq_some h, ?_⟩
  simpa using List.find?_some h

theorem find_name {seg : Setting} (h : seg ∈ ch.settings) : ch.find? seg.name = some seg := by
  have hsome : (ch.find? seg.name).isSome := by
    rw [Channel.find?, List.find?_isSome]
    exact ⟨seg, h, beq_self_eq_true _⟩
  obtain ⟨seg', hseg'⟩ := Option.isSome_iff_exists.1 hsome
  obtain ⟨hmem, hname⟩ := find_some hseg'
  rw [hseg', List.inj_on_of_nodup_map ch.names_nodup hmem h hname]

theorem outputs_name {seg : Setting} (h : seg ∈ ch.settings) : ch.outputs seg.name = seg.outputs := by
  rw [Channel.outputs, find_name h]
  rfl

/-! ## The dependencies -/

/-- The names of a channel. -/
def Channel.names (ch : Channel) : Finset String := (ch.settings.map Setting.name).toFinset

theorem mem_names {name : String} : name ∈ ch.names ↔ (ch.find? name).isSome := by
  rw [Channel.names, List.mem_toFinset, List.mem_map]
  constructor
  · rintro ⟨seg, hseg, rfl⟩
    rw [find_name hseg]
    rfl
  · intro h
    obtain ⟨seg, hseg⟩ := Option.isSome_iff_exists.1 h
    exact ⟨seg, find_some hseg⟩

theorem Channel.Closed.outputs_mem (h : ch.Closed) {name : String} (hname : name ∈ ch.names) :
    ∀ m ∈ ch.outputs name, m ∈ ch.names := by
  obtain ⟨seg, hseg⟩ := Option.isSome_iff_exists.1 (mem_names.1 hname)
  obtain ⟨hmem, rfl⟩ := find_some hseg
  intro m hm
  rw [outputs_name hmem] at hm
  exact mem_names.2 (h seg hmem m hm)

/-- **The dependencies are marked along the outputs.** -/
theorem getDependencies_eq (h : ch.Closed) (fuel : ℕ) {seg : Setting} (hseg : seg ∈ ch.settings)
    (deps : Finset String) : getDependencies ch fuel seg deps =
      (Marking.markFrom ch.outputs fuel seg.outputs deps).elim (.error .diverges) .ok := by
  induction fuel generalizing seg deps with
  | zero => rfl
  | succ fuel ih =>
    have hout : ∀ name ∈ seg.outputs, (ch.find? name).isSome := h seg hseg
    unfold getDependencies Marking.markFrom
    generalize seg.outputs = names at hout
    induction names generalizing deps with
    | nil => rfl
    | cons name names ihnames =>
      have hrest : ∀ m ∈ names, (ch.find? m).isSome := fun m hm => hout m (List.mem_cons_of_mem name hm)
      rw [List.foldlM_cons, List.foldlM_cons]
      unfold addDependency
      by_cases hmem : name ∈ deps
      · rw [if_pos hmem, if_pos hmem]
        exact ihnames deps hrest
      · obtain ⟨dep, hdep⟩ := Option.isSome_iff_exists.1 (hout name List.mem_cons_self)
        obtain ⟨hdepmem, rfl⟩ := find_some hdep
        rw [if_neg hmem, if_neg hmem, hdep]
        simp only [ih hdepmem, outputs_name hdepmem]
        cases Marking.markFrom ch.outputs fuel dep.outputs (insert dep.name deps) with
        | none => rfl
        | some marked => exact ihnames marked hrest

/-- **The dependencies of a segment are the segments that it reaches**, also over cycles. -/
theorem getDependencies_ok (h : ch.Closed) {fuel : ℕ} (hfuel : ch.settings.length < fuel) {seg : Setting}
    (hseg : seg ∈ ch.settings) :
    ∃ deps, getDependencies ch fuel seg ∅ = .ok deps ∧ ∀ name, name ∈ deps ↔ ch.Leads seg.name name := by
  have hcard : ch.names.card < fuel := by
    have hle := List.toFinset_card_le (ch.settings.map Setting.name)
    rw [List.length_map] at hle
    exact Nat.lt_of_le_of_lt hle hfuel
  have hfrom : ∀ m ∈ seg.outputs, m ∈ ch.names := fun m hm => mem_names.2 (h seg hseg m hm)
  obtain ⟨deps, hdeps, hmem⟩ := Marking.mem_markFrom_iff (fun n hn => h.outputs_mem hn) hcard hfrom
  refine ⟨deps, by rw [getDependencies_eq h fuel hseg, hdeps]; rfl, fun name => (hmem name).trans ?_⟩
  have hfirst : ∀ m, m ∈ seg.outputs ↔ ch.OutputsTo seg.name m := fun m => by
    rw [Channel.OutputsTo, Marking.Edge, outputs_name hseg]
  constructor
  · rintro ⟨m, hm, hreach⟩
    exact Relation.TransGen.head' ((hfirst m).1 hm) hreach
  · intro hlead
    obtain ⟨m, hm, hreach⟩ := Relation.TransGen.head'_iff.1 hlead
    exact ⟨m, (hfirst m).2 hm, hreach⟩

/-! ## The order -/

/-- A segment with its dependencies. -/
def IsSegment (ch : Channel) (p : String × Finset String) : Prop := ∀ name, name ∈ p.2 ↔ ch.Leads p.1 name

/-- **Without cycles the comparator compares the numbers of dependencies.** -/
theorem doesNotDependOn_iff (hacyclic : ch.Acyclic) {p q : String × Finset String} (hp : IsSegment ch p)
    (hq : IsSegment ch q) : doesNotDependOn p q = true ↔ p.2.card ≤ q.2.card := by
  unfold doesNotDependOn
  by_cases hmem : q.1 ∈ p.2
  · have hlt := Marking.card_lt_of_reaches hacyclic ((hp q.1).1 hmem) hp hq
    rw [if_pos hmem]
    exact ⟨fun h => absurd h Bool.false_ne_true, fun h => by omega⟩
  · rw [if_neg hmem]
    by_cases hcard : p.2.card > q.2.card
    · rw [if_pos hcard]
      exact ⟨fun h => absurd h Bool.false_ne_true, fun h => by omega⟩
    · rw [if_neg hcard]
      exact ⟨fun _ => by omega, fun _ => rfl⟩

theorem loadableSegments_ok (h : ch.Closed) {fuel : ℕ} (hfuel : ch.settings.length < fuel) :
    ∃ segments, loadableSegments ch fuel = .ok segments ∧ (∀ p ∈ segments, IsSegment ch p) ∧
      segments.map Prod.fst = (ch.settings.filter Setting.loadable).map Setting.name := by
  unfold loadableSegments
  have hsub : ∀ seg ∈ ch.settings.filter Setting.loadable, seg ∈ ch.settings :=
    fun seg hseg => List.mem_of_mem_filter hseg
  generalize ch.settings.filter Setting.loadable = segs at hsub ⊢
  induction segs with
  | nil => exact ⟨[], rfl, by simp, rfl⟩
  | cons seg segs ih =>
    obtain ⟨deps, hdeps, hmem⟩ := getDependencies_ok h hfuel (hsub seg List.mem_cons_self)
    obtain ⟨segments, hsegments, hall, hnames⟩ := ih fun s hs => hsub s (List.mem_cons_of_mem seg hs)
    refine ⟨(seg.name, deps) :: segments, ?_, ?_, ?_⟩
    · rw [List.mapM_cons, hdeps, ok_bind, hsegments]
      rfl
    · intro p hp
      rcases List.mem_cons.1 hp with rfl | hp
      · exact hmem
      · exact hall p hp
    · rw [List.map_cons, List.map_cons, hnames]

/-- What stands behind all that it leads to, in an order that has no cycles. -/
def BehindOutputs (ch : Channel) (names : List String) : Prop :=
  ∀ a ∈ names, ∀ b ∈ names, ch.Leads a b → names.idxOf b < names.idxOf a

theorem behindOutputs_of_pairwise {segments : List (String × Finset String)} (hacyclic : ch.Acyclic)
    (hall : ∀ p ∈ segments, IsSegment ch p) (hsorted : segments.Pairwise fun p q => p.2.card ≤ q.2.card) :
    BehindOutputs ch (segments.map Prod.fst) := by
  intro a ha b hb hlead
  have hi := List.idxOf_lt_length_of_mem ha
  have hj := List.idxOf_lt_length_of_mem hb
  by_contra hnot
  have hne : a ≠ b := by
    rintro rfl
    exact hacyclic a hlead
  have hidx : (segments.map Prod.fst).idxOf a < (segments.map Prod.fst).idxOf b := by
    refine Nat.lt_of_le_of_ne (Nat.le_of_not_lt hnot) fun heq => hne ?_
    rw [← List.getElem_idxOf hi, ← List.getElem_idxOf hj]
    exact getElem_congr_idx heq
  -- the segment in front has no more dependencies, and has those of the other one besides it
  rw [List.length_map] at hi hj
  have hle := List.pairwise_iff_getElem.1 hsorted _ _ hi hj hidx
  have hfst : ∀ (i : ℕ) (hlt : i < segments.length), (segments.map Prod.fst)[i]? = some segments[i].1 := by
    intro i hlt
    rw [List.getElem?_map, List.getElem?_eq_getElem hlt]
    rfl
  have hnameA : (segments[(segments.map Prod.fst).idxOf a]).1 = a := by
    have := hfst _ hi
    rw [List.getElem?_idxOf ha] at this
    exact (Option.some.inj this).symm
  have hnameB : (segments[(segments.map Prod.fst).idxOf b]).1 = b := by
    have := hfst _ hj
    rw [List.getElem?_idxOf hb] at this
    exact (Option.some.inj this).symm
  have hpa := hall _ (List.getElem_mem hi)
  have hpb := hall _ (List.getElem_mem hj)
  have hlt := Marking.card_lt_of_reaches hacyclic (hnameA.symm ▸ hnameB.symm ▸ hlead) hpa hpb
  omega

/-- **Automatic loading respects outputs.** The dependencies of every segment are got and are the segments that it
reaches; where the outputs are acyclic, each loadable segment is loaded once, behind those that it leads to. -/
theorem loads_behind_outputs (ch : Channel) (hclosed : ch.Closed) {fuel : ℕ} (hfuel : ch.settings.length < fuel) :
    (∀ seg ∈ ch.settings, ∃ deps, getDependencies ch fuel seg ∅ = .ok deps ∧
      ∀ name, name ∈ deps ↔ ch.Leads seg.name name) ∧
    (ch.Acyclic → ∃ names, autoLoad ch fuel = .ok names ∧ names.Nodup ∧
      (∀ name, name ∈ names ↔ ∃ seg ∈ ch.settings, seg.loadable ∧ seg.name = name) ∧ BehindOutputs ch names) := by
  refine ⟨fun seg hseg => getDependencies_ok hclosed hfuel hseg, fun hacyclic => ?_⟩
  obtain ⟨segments, hsegments, hall, hnames⟩ := loadableSegments_ok hclosed hfuel
  have hperm : (Sorting.listSort doesNotDependOn segments).Perm segments := Sorting.listSort_perm segments
  have hpermNames : ((Sorting.listSort doesNotDependOn segments).map Prod.fst).Perm
      ((ch.settings.filter Setting.loadable).map Setting.name) := hnames ▸ hperm.map Prod.fst
  have hsorted : (Sorting.listSort doesNotDependOn segments).Pairwise fun p q => p.2.card ≤ q.2.card := by
    refine Sorting.listSort_pairwise (P := IsSegment ch)
      (R := fun p q : String × Finset String => p.2.card ≤ q.2.card) (fun p q r => Nat.le_trans)
      (fun p q hp hq hcomp => (doesNotDependOn_iff hacyclic hp hq).1 hcomp) (fun p q hp hq hcomp => ?_) hall
    by_contra hnot
    rw [(doesNotDependOn_iff hacyclic hp hq).2 (by omega)] at hcomp
    cases hcomp
  refine ⟨_, by rw [autoLoad, hsegments, ok_bind]; rfl, ?_, fun name => ?_,
    behindOutputs_of_pairwise hacyclic (fun p hp => hall p (hperm.mem_iff.1 hp)) hsorted⟩
  · exact hpermNames.nodup_iff.2 ((List.filter_sublist.map Setting.name).nodup ch.names_nodup)
  · rw [hpermNames.mem_iff, List.mem_map]
    constructor
    · rintro ⟨seg, hseg, rfl⟩
      exact ⟨seg, List.mem_of_mem_filter hseg, (List.mem_filter.1 hseg).2, rfl⟩
    · rintro ⟨seg, hseg, hload, rfl⟩
      exact ⟨seg, List.mem_filter.2 ⟨hseg, hload⟩, rfl⟩

/-- A marker adder that outputs to a randomizer, ahead of which it is configured. -/
def markerChannel : Channel where
  settings := [{ name := "asmAdd", dllName := some "modASM_Add", primaryOutput := some "randomize" },
    { name := "randomize", dllName := some "modPseudoRandomize" }]
  names_nodup := by decide

theorem markerChannel_edge {a b : String} (h : markerChannel.OutputsTo a b) : a = "asmAdd" ∧ b = "randomize" := by
  unfold Channel.OutputsTo Marking.Edge Channel.outputs at h
  cases hfind : markerChannel.find? a with
  | none =>
    rw [hfind] at h
    cases h
  | some seg =>
    obtain ⟨hmem, rfl⟩ := find_some hfind
    rw [hfind] at h
    rcases List.mem_cons.1 hmem with rfl | hmem
    · exact ⟨rfl, List.mem_singleton.1 h⟩
    · rw [List.mem_singleton.1 hmem] at h
      cases h

theorem loads_behind_outputs_marker : ∃ names, autoLoad markerChannel 3 = .ok names ∧ names.Nodup ∧
    (∀ name, name ∈ names ↔ ∃ seg ∈ markerChannel.settings, seg.loadable ∧ seg.name = name) ∧
    BehindOutputs markerChannel names := by
  refine (loads_behind_outputs markerChannel ?_ (by decide)).2 fun name hcycle => ?_
  · show ∀ seg ∈ markerChannel.settings, ∀ name ∈ seg.outputs, (markerChannel.find? name).isSome
    decide
  · obtain ⟨m, hm, -⟩ := Relation.TransGen.head'_iff.1 hcycle
    obtain ⟨m', -, hm'⟩ := Relation.TransGen.tail'_iff.1 hcycle
    obtain rfl := (markerChannel_edge hm).1
    exact absurd (markerChannel_edge hm').2 (by decide)

end ChannelEmulator.AutoLoad
