import ChannelEmulator.Proof.LinkSearch

/-!
# What the public operations do

Each operation of a settled net, by what it makes of the links: the links that are dropped
(`Drops`) and the new one.

* `disconnectOutput_ok`, `baseConnectOutput_ok`, `connectNewOutput_ok`, `withdraw_ok`: what an
  operation that returns has done.
* `run_settled`: **every operation keeps the net settled**.
-/

namespace ChannelEmulator

namespace LinkGraph

variable {ι : Type} [DecidableEq ι] {d : Handlers ι} {s s' : Net ι} {h x y : ι} {t : LinkType}
  {p q : ℕ} {l : HandlerLink ι} {outRank : OutputRank} {inRank : InputRank}

/-! ## Disconnecting -/

/-- A slot's link is deleted and the setting removed. -/
theorem baseDisconnectOutput_spec (hc : Settled d s) (hmap : ¬ d.HasMap h outRank.link) :
    ∃ s₁, d.baseDisconnectOutput h outRank s = .ok (s₁.setOutput h outRank none) ∧ Settled d s₁ ∧
      Drops (fun q => s.links h outRank.link = some q) s s₁ ∧ s₁.links h outRank.link = none := by
  obtain ⟨s₁, hs₁, hc₁, hd₁, hnone, -⟩ := deleteLink_spec hc (not_hasSet_output h outRank) hmap
    (fun _ _ _ => not_false) (s.links h outRank.link)
  refine ⟨s₁, ?_, hc₁, hd₁, hnone⟩
  unfold Handlers.baseDisconnectOutput
  simp only [hs₁, bind, Except.bind]

/-- A demultiplexer's map is not its slot. -/
theorem baseDisconnectOutput_map (hc : Settled d s) (hmap : d.HasMap h outRank.link) :
    d.baseDisconnectOutput h outRank s = .error .nullPointer := by
  unfold Handlers.baseDisconnectOutput Handlers.deleteLink
  rw [hc.single h outRank.link (Or.inr hmap), if_neg (not_hasSet_output h outRank), if_pos hmap]
  rfl

theorem disconnectOutput_plain (hk : d.kind h ≠ .demux) (old : Option ℕ) :
    d.disconnectOutput h outRank old s = d.baseDisconnectOutput h outRank s := by
  unfold Handlers.disconnectOutput
  cases hk' : d.kind h with
  | plain => rfl
  | mux => rfl
  | demux => exact absurd hk' hk

theorem disconnectOutput_demux (hk : d.kind h = .demux) (old : Option ℕ) :
    d.disconnectOutput h outRank old s = (do
      let s ← Handlers.forgetNames h old s
      if outRank = .PrimaryOutput ∧ old.isSome then d.deleteLink h .PrimaryOutputLink old s
      else d.baseDisconnectOutput h outRank s) := by
  unfold Handlers.disconnectOutput
  rw [hk]

/-- What `disconnectOutput` without a link has done when it returns: a demultiplexer has no names
then. -/
theorem disconnectOutput_ok (hc : Settled d s)
    (hrun : d.disconnectOutput h outRank none s = .ok s') :
    ¬ d.HasMap h outRank.link ∧ (d.kind h = .demux → s.outputNames h = []) ∧
      ∃ s₁, s' = s₁.setOutput h outRank none ∧
        d.baseDisconnectOutput h outRank s = .ok (s₁.setOutput h outRank none) ∧ Settled d s₁ ∧
        Drops (fun q => s.links h outRank.link = some q) s s₁ ∧ s₁.links h outRank.link = none := by
  have hbase : d.baseDisconnectOutput h outRank s = .ok s' → ¬ d.HasMap h outRank.link ∧
      ∃ s₁, s' = s₁.setOutput h outRank none ∧
        d.baseDisconnectOutput h outRank s = .ok (s₁.setOutput h outRank none) ∧ Settled d s₁ ∧
        Drops (fun q => s.links h outRank.link = some q) s s₁ ∧
        s₁.links h outRank.link = none := by
    intro hrun
    have hmap : ¬ d.HasMap h outRank.link := by
      intro hmap
      rw [baseDisconnectOutput_map hc hmap] at hrun
      cases hrun
    obtain ⟨s₁, hs₁, hspec⟩ := baseDisconnectOutput_spec hc hmap
    exact ⟨hmap, s₁, Except.ok.inj (hrun.symm.trans hs₁), hs₁, hspec⟩
  by_cases hk : d.kind h = .demux
  · rw [disconnectOutput_demux hk] at hrun
    obtain ⟨s₀, hforget, hrun⟩ := Framing.bind_ok hrun
    unfold Handlers.forgetNames at hforget
    cases hnames : s.outputNames h with
    | nil =>
      simp only [hnames] at hforget
      obtain rfl := Except.ok.inj hforget
      rw [if_neg (fun hn => Bool.false_ne_true hn.2)] at hrun
      obtain ⟨hmap, hspec⟩ := hbase hrun
      exact ⟨hmap, fun _ => rfl, hspec⟩
    | cons e es =>
      simp only [hnames] at hforget
      cases hforget
  · rw [disconnectOutput_plain hk] at hrun
    obtain ⟨hmap, hspec⟩ := hbase hrun
    exact ⟨hmap, fun hk' => absurd hk' hk, hspec⟩

/-! ## A new link -/

/-- **What connecting a link without ends does**: it throws, or the link is between the handlers and
what the target's slot held is destroyed. -/
theorem connectSourceToTarget_ok (hc : Settled d s) (hheld : ∀ h t, d.Holds s h t p ↔
      d.HasMap x outRank.link ∧ h = x ∧ t = outRank.link) (hlt : p < s.next)
    (hempty : s.links x outRank.link = none) {k : ℕ} {r : Option Thrown}
    (hrun : d.connectSourceToTarget k p x y outRank inRank s = .ok (r, s')) :
    (r = some .CircularConnection ↔ Reaches s x y) ∧ r ≠ some .nd_error ∧
      ((r ≠ none ∧ s' = s) ∨ (r = none ∧ Settled d s' ∧
        Drops (fun q => s.links y inRank.link = some q)
          (s.setHeap p (some (between x y outRank inRank))) s')) := by
  cases hsearch : d.isCircularConnection s y k x with
  | error c =>
    unfold Handlers.connectSourceToTarget at hrun
    simp only [hsearch, bind, Except.bind] at hrun
    cases hrun
  | ok b =>
    have hfound := isCircularConnection_iff hc hsearch
    have hnot : b = false → ¬ Reaches s x y := by
      rintro rfl hr
      exact absurd (hfound.2 hr) Bool.false_ne_true
    rcases connectSourceToTarget_spec hc hheld hlt hempty hsearch with
      ⟨hb, hspec⟩ | ⟨hb, -, hspec⟩ | ⟨hb, s₁, hspec, hc₁, hd₁⟩
    · obtain ⟨rfl, rfl⟩ := Prod.mk.inj (Except.ok.inj (hspec.symm.trans hrun))
      exact ⟨iff_of_true rfl (hfound.1 hb), by decide, Or.inl ⟨Option.some_ne_none _, rfl⟩⟩
    · obtain ⟨rfl, rfl⟩ := Prod.mk.inj (Except.ok.inj (hspec.symm.trans hrun))
      exact ⟨iff_of_false (by decide) (hnot hb), by decide, Or.inl ⟨Option.some_ne_none _, rfl⟩⟩
    · obtain ⟨rfl, rfl⟩ := Prod.mk.inj (Except.ok.inj (hspec.symm.trans hrun))
      exact ⟨iff_of_false (by decide) (hnot hb), by decide, Or.inr ⟨rfl, hc₁, hd₁⟩⟩

/-- A crash while connecting is one of the search that has not returned yet. -/
theorem connectSourceToTarget_error (hc : Settled d s) (hheld : ∀ h t, d.Holds s h t p ↔
      d.HasMap x outRank.link ∧ h = x ∧ t = outRank.link) (hlt : p < s.next)
    (hempty : s.links x outRank.link = none) {k : ℕ} {c : Crash}
    (hrun : d.connectSourceToTarget k p x y outRank inRank s = .error c) : c = .running := by
  cases hsearch : d.isCircularConnection s y k x with
  | error c' =>
    have hc' := isCircularConnection_error hc hsearch
    unfold Handlers.connectSourceToTarget at hrun
    simp only [hsearch, bind, Except.bind] at hrun
    rw [← Except.error.inj hrun]
    exact hc'
  | ok b =>
    rcases connectSourceToTarget_spec hc hheld hlt hempty hsearch with
      ⟨hb, hspec⟩ | ⟨hb, -, hspec⟩ | ⟨hb, s₁, hspec, hc₁, hd₁⟩
    · cases hspec.symm.trans hrun
    · cases hspec.symm.trans hrun
    · cases hspec.symm.trans hrun

/-! ## `connectOutput` -/

/-- The state after the output was disconnected. -/
structure Disconnected (d : Handlers ι) (h : ι) (outRank : OutputRank) (s s₁ : Net ι) : Prop where
  slot : ¬ d.HasMap h outRank.link
  names : d.kind h = .demux → s.outputNames h = []
  run : d.baseDisconnectOutput h outRank s = .ok (s₁.setOutput h outRank none)
  settled : Settled d s₁
  drops : Drops (fun q => s.links h outRank.link = some q) s s₁
  empty : s₁.links h outRank.link = none

/-- **What `connectOutput` of the base class has done**: the old output is disconnected, and unless
it throws there is the new link. -/
theorem baseConnectOutput_ok (hc : Settled d s) {k : ℕ} {r : Option Thrown}
    (hrun : d.baseConnectOutput k h y outRank inRank s = .ok (r, s')) :
    ∃ s₁, Disconnected d h outRank s s₁ ∧ (r = some .CircularConnection ↔ Reaches s₁ h y) ∧
      r ≠ some .nd_error ∧
      ((r ≠ none ∧ s' = (s₁.setOutput h outRank none).alloc.setHeap s₁.next none) ∨
        (r = none ∧ ∃ s₂, s' = s₂.setOutput h outRank (some (y, inRank)) ∧ Settled d s₂ ∧
          Drops (fun q => s₁.links y inRank.link = some q) ((s₁.setOutput h outRank none).alloc.setHeap
            s₁.next (some (between h y outRank inRank))) s₂)) := by
  unfold Handlers.baseConnectOutput at hrun
  obtain ⟨s₀, hdisc, hrun⟩ := Framing.bind_ok hrun
  obtain ⟨hmap, hnames, s₁, rfl, hbase, hc₁, hd₁, hempty⟩ := disconnectOutput_ok hc hdisc
  obtain ⟨⟨r', s₂⟩, hconn, hrun⟩ := Framing.bind_ok hrun
  have hc₁' := hc₁.setOutput h outRank none
  have hheld : ∀ h' t, d.Holds (s₁.setOutput h outRank none).alloc h' t s₁.next ↔
      d.HasMap h outRank.link ∧ h' = h ∧ t = outRank.link := by
    intro h' t
    exact iff_of_false (hc₁'.fresh (h := h') (t := t)) fun hn => hmap hn.1
  have hlt : s₁.next < (s₁.setOutput h outRank none).alloc.next := Nat.lt_succ_self _
  obtain ⟨hcirc, hnd, hcase⟩ := connectSourceToTarget_ok hc₁'.alloc hheld hlt hempty hconn
  have hreach : Reaches (s₁.setOutput h outRank none).alloc h y ↔ Reaches s₁ h y := by
    unfold Reaches
    rw [edge_alloc hc₁']
    rfl
  rw [hreach] at hcirc
  refine ⟨s₁, ⟨hmap, hnames, hbase, hc₁, hd₁, hempty⟩, ?_⟩
  rcases hcase with ⟨hr, rfl⟩ | ⟨rfl, hc₂, hd₂⟩
  · cases r' with
    | none => exact absurd rfl hr
    | some e =>
      obtain ⟨rfl, rfl⟩ := Prod.mk.inj (Except.ok.inj hrun)
      exact ⟨hcirc, hnd, Or.inl ⟨hr, rfl⟩⟩
  · obtain ⟨rfl, rfl⟩ := Prod.mk.inj (Except.ok.inj hrun)
    exact ⟨hcirc, hnd, Or.inr ⟨rfl, s₂, rfl, hc₂, hd₂⟩⟩

/-! ## `connectPrimaryOutput` -/

/-- A map with a new link without ends, for an identifier that it does not have. -/
theorem Consistent.mapNew (hc : Settled d s) (hk : d.kind h = .demux) (id : Octet)
    (hid : ∀ e ∈ s.primaryOutputLinks h, e.1 ≠ id) :
    Settled d (s.alloc.setOutputs h (assign id s.next (s.primaryOutputLinks h))) := by
  have hmap : d.HasMap h .PrimaryOutputLink := ⟨hk, rfl⟩
  have hfresh : s.next ∉ (s.primaryOutputLinks h).map Prod.snd := by
    intro hmem
    exact hc.fresh ((holds_map hmap).2 hmem)
  have hmem : ∀ q, q ∈ (assign id s.next (s.primaryOutputLinks h)).map Prod.snd ↔
      q = s.next ∨ d.Holds s h .PrimaryOutputLink q := by
    intro q
    rw [holds_map hmap, List.mem_map, List.mem_map]
    constructor
    · rintro ⟨e, he, rfl⟩
      rcases (mem_assign (hc.keys h) e).1 he with rfl | ⟨he, -⟩
      · exact Or.inl rfl
      · exact Or.inr ⟨e, he, rfl⟩
    · rintro (rfl | ⟨e, he, rfl⟩)
      · exact ⟨(id, s.next), (mem_assign (hc.keys h) _).2 (Or.inl rfl), rfl⟩
      · exact ⟨e, (mem_assign (hc.keys h) e).2 (Or.inr ⟨he, hid e he⟩), rfl⟩
  have hca := hc.alloc
  refine ⟨hca.toTidy.setOutputs hk (nodup_assign (hc.map h) hfresh) (pairwise_assign (hc.keys h)),
    ?_, ?_, hca.whole, ?_, hca.below⟩
  · intro h' t q hh
    rw [holds_setOutputs hk] at hh
    split_ifs at hh with heq
    · obtain ⟨rfl, rfl⟩ := heq
      rcases (hmem q).1 hh with rfl | hh
      · exact ⟨{}, setHeap_self .., Or.inr ⟨⟨rfl, rfl⟩, hmap⟩⟩
      · exact hca.live h' _ q hh
    · exact hca.live h' t q hh
  · intro h' t q l hl ht hpend
    have hh := hca.held h' t q l hl ht hpend
    rw [holds_setOutputs hk]
    split_ifs with heq
    · obtain ⟨rfl, rfl⟩ := heq
      exact (hmem q).2 (Or.inr hh)
    · exact hh
  · -- the new link is in this map only
    intro q l h₁ t₁ h₂ t₂ hl hhalf hh₁ hh₂
    have hold : ∀ h' t', d.Holds (s.alloc.setOutputs h (assign id s.next (s.primaryOutputLinks h)))
        h' t' q → (h' = h ∧ q = s.next) ∨ d.Holds s h' t' q := by
      intro h' t' hh
      rw [holds_setOutputs hk] at hh
      split_ifs at hh with heq
      · obtain ⟨rfl, rfl⟩ := heq
        exact ((hmem q).1 hh).imp (fun hq => ⟨rfl, hq⟩) fun hh => hh
      · exact Or.inr hh
    rcases hold h₁ t₁ hh₁ with ⟨h₁', hq⟩ | hh₁'
    · rcases hold h₂ t₂ hh₂ with ⟨h₂', -⟩ | hh₂'
      · rw [h₁', h₂']
      · rw [hq] at hh₂'
        exact absurd hh₂' hc.fresh
    · rcases hold h₂ t₂ hh₂ with ⟨-, hq⟩ | hh₂'
      · rw [hq] at hh₁'
        exact absurd hh₁' hc.fresh
      · exact hca.alone q l h₁ t₁ h₂ t₂ hl hhalf hh₁' hh₂'

/-- The state in which the new link is in the map. -/
def Mapped (s : Net ι) (h : ι) (id : Octet) : Net ι :=
  s.alloc.setOutputs h (assign id s.next (s.primaryOutputLinks h))

theorem connectNewOutput_eq (k : ℕ) (h : ι) (id : Octet) (y : ι) (inRank : InputRank) (s : Net ι) :
    d.connectNewOutput k h id y inRank s = (do
      let r ← d.connectSourceToTarget k s.next h y .PrimaryOutput inRank (Mapped s h id)
      match r with
      | (some e, s) => .ok (some e, s)
      | (none, s) => .ok (none, s.setNames h (Handlers.addName y inRank id (s.outputNames h)))) := rfl

/-- What is assigned does not depend on the old entry. -/
theorem mapped_filter (ht : Tidy d s) {id : Octet} (hnil : s.outputNames h = []) :
    Mapped (((s.setOutputs h ((s.primaryOutputLinks h).filter fun e => e.1 ≠ id)).setHeap p
      none).setNames h []) h id = Mapped (s.setHeap p none) h id := by
  have hnames : Function.update s.outputNames h [] = s.outputNames := by
    rw [← hnil, Function.update_eq_self]
  unfold Mapped Net.setOutputs Net.alloc Net.setHeap Net.setNames
  simp only [Function.update_self, Function.update_idem, assign_filter (ht.keys h), hnames]

/-- The new link is in that map only. -/
theorem mapped_held (hc : Settled d s) (hk : d.kind h = .demux) (id : Octet) (h' : ι) (t : LinkType) :
    d.Holds (Mapped s h id) h' t s.next ↔
      d.HasMap h OutputRank.PrimaryOutput.link ∧ h' = h ∧ t = OutputRank.PrimaryOutput.link := by
  unfold Mapped
  rw [holds_setOutputs hk]
  split_ifs with heq
  · refine iff_of_true ?_ ⟨⟨hk, rfl⟩, heq⟩
    exact List.mem_map.2 ⟨(id, s.next), (mem_assign (hc.keys h) _).2 (Or.inl rfl), rfl⟩
  · exact iff_of_false (hc.fresh (h := h') (t := t)) fun hn => heq hn.2

/-- **What connecting a new output by identifier has done**: the link is in the map, also when it
throws. -/
theorem connectNewOutput_ok (hc : Settled d s) (hk : d.kind h = .demux) {id : Octet}
    (hid : ∀ e ∈ s.primaryOutputLinks h, e.1 ≠ id) {k : ℕ} {r : Option Thrown}
    (hrun : d.connectNewOutput k h id y inRank s = .ok (r, s')) :
    (r = some .CircularConnection ↔ Reaches s h y) ∧ Settled d (Mapped s h id) ∧
      ((r ≠ none ∧ s' = Mapped s h id) ∨
        (r = none ∧ ∃ s₂, s' = s₂.setNames h (Handlers.addName y inRank id (s₂.outputNames h)) ∧
          Settled d s₂ ∧ Drops (fun q => s.links y inRank.link = some q)
            ((Mapped s h id).setHeap s.next (some (between h y .PrimaryOutput inRank))) s₂)) := by
  unfold Handlers.connectNewOutput at hrun
  obtain ⟨⟨r', s₂⟩, hconn, hrun⟩ := Framing.bind_ok hrun
  have hc₁ : Settled d (Mapped s h id) := hc.mapNew hk id hid
  have hmap : d.HasMap h .PrimaryOutputLink := ⟨hk, rfl⟩
  have hlt : s.next < (Mapped s h id).next := Nat.lt_succ_self _
  have hempty : (Mapped s h id).links h OutputRank.PrimaryOutput.link = none :=
    hc.single h _ (Or.inr hmap)
  obtain ⟨hcirc, -, hcase⟩ := connectSourceToTarget_ok hc₁ (mapped_held hc hk id) hlt hempty hconn
  have hreach : Reaches (Mapped s h id) h y ↔ Reaches s h y := by
    unfold Reaches
    rw [show Edge (Mapped s h id) = Edge s from edge_alloc hc]
  rw [hreach] at hcirc
  rcases hcase with ⟨hr, rfl⟩ | ⟨rfl, hc₂, hd₂⟩
  · cases r' with
    | none => exact absurd rfl hr
    | some e =>
      obtain ⟨rfl, rfl⟩ := Prod.mk.inj (Except.ok.inj hrun)
      exact ⟨hcirc, hc₁, Or.inl ⟨hr, rfl⟩⟩
  · obtain ⟨rfl, rfl⟩ := Prod.mk.inj (Except.ok.inj hrun)
    exact ⟨hcirc, hc₁, Or.inr ⟨rfl, s₂, rfl, hc₂, hd₂⟩⟩

/-- What `forgetNames` does for a link with a target. -/
theorem forgetNames_eq {z : ι} (hl : s.heap p = some l) (hz : l.target = some z) :
    Handlers.forgetNames h (some p) s =
      .ok (s.setNames h (Handlers.removeNames z (s.outputNames h))) := by
  unfold Handlers.forgetNames
  cases hnames : s.outputNames h with
  | nil =>
    have hself : s.setNames h (Handlers.removeNames z []) = s := by
      unfold Net.setNames
      rw [show Handlers.removeNames z [] = s.outputNames h from hnames.symm,
        Function.update_eq_self]
    rw [hself]
  | cons e es =>
    simp only [Net.targetName, deref_eq hl, hz, bind, Except.bind]

theorem deleteLink_map (hk : d.kind h = .demux) (hmem : p ∈ (s.primaryOutputLinks h).map Prod.snd) :
    d.deleteLink h .PrimaryOutputLink (some p) s = d.destroy p s := by
  unfold Handlers.deleteLink
  rw [if_neg (show ¬ d.HasSet h .PrimaryOutputLink from not_hasSet_output h .PrimaryOutput),
    if_pos (show d.HasMap h .PrimaryOutputLink from ⟨hk, rfl⟩)]
  simp only [if_pos hmem]

/-- A link without ends is taken out of a map. -/
theorem Consistent.unmap (hc : Settled d s) (hk : d.kind h = .demux) {id : Octet}
    (hmem : (id, p) ∈ s.primaryOutputLinks h) (hl : s.heap p = some l) (hhalf : l.Half) :
    Settled d ((s.setOutputs h ((s.primaryOutputLinks h).filter fun e => e.1 ≠ id)).setHeap p none) ∧
      Drops (fun q => (id, q) ∈ s.primaryOutputLinks h) s
        ((s.setOutputs h ((s.primaryOutputLinks h).filter fun e => e.1 ≠ id)).setHeap p none) := by
  have hmap : d.HasMap h .PrimaryOutputLink := ⟨hk, rfl⟩
  have hsub : List.Sublist ((s.primaryOutputLinks h).filter fun e => e.1 ≠ id)
      (s.primaryOutputLinks h) := List.filter_sublist
  have hentry : ∀ e ∈ s.primaryOutputLinks h, e.1 = id ↔ e.2 = p := by
    intro e he
    constructor
    · intro hid
      rw [hc.toTidy.key_unique he hmem hid]
    · intro hp
      rw [hc.toTidy.link_unique he hmem hp]
  -- the filter on the channel takes out the one link
  have hin : ∀ q, q ∈ ((s.primaryOutputLinks h).filter fun e => e.1 ≠ id).map Prod.snd ↔
      d.Holds s h .PrimaryOutputLink q ∧ q ≠ p := by
    intro q
    rw [holds_map hmap, List.mem_map, List.mem_map]
    constructor
    · rintro ⟨e, he, rfl⟩
      rw [List.mem_filter, decide_eq_true_eq] at he
      exact ⟨⟨e, he.1, rfl⟩, fun hp => he.2 ((hentry e he.1).2 hp)⟩
    · rintro ⟨⟨e, he, rfl⟩, hp⟩
      refine ⟨e, List.mem_filter.2 ⟨he, decide_eq_true fun hid => hp ((hentry e he).1 hid)⟩, rfl⟩
  have hholds : ∀ h' t q, d.Holds (s.setOutputs h ((s.primaryOutputLinks h).filter fun e => e.1 ≠ id))
      h' t q ↔ d.Holds s h' t q ∧ q ≠ p := by
    intro h' t q
    rw [holds_setOutputs hk]
    split_ifs with heq
    · obtain ⟨rfl, rfl⟩ := heq
      exact hin q
    · refine ⟨fun hh => ⟨hh, ?_⟩, fun hh => hh.1⟩
      rintro rfl
      obtain ⟨l', hl', hcase⟩ := hc.live h' t q hh
      obtain rfl := Option.some.inj (hl.symm.trans hl')
      rcases hcase with hcase | hcase
      · have := hcase.1
        rw [hhalf.holder] at this
        cases this
      · -- a link without ends is in one map only
        have hh' := (holds_map hmap).2 (List.mem_map_of_mem hmem)
        obtain rfl := hc.alone q l h' t h .PrimaryOutputLink hl hhalf hh hh'
        exact heq ⟨rfl, hcase.2.2⟩
  have hset : Settled d (s.setOutputs h ((s.primaryOutputLinks h).filter fun e => e.1 ≠ id)) := by
    refine ⟨hc.toTidy.setOutputs hk ((hc.map h).sublist (hsub.map _)) ((hc.keys h).sublist hsub),
      ?_, ?_, hc.whole, ?_, hc.below⟩
    · intro h' t q hh
      exact hc.live h' t q ((hholds h' t q).1 hh).1
    · intro h' t q l' hl' ht hpend
      refine (hholds h' t q).2 ⟨hc.held h' t q l' hl' ht hpend, ?_⟩
      rintro rfl
      obtain rfl := Option.some.inj (hl.symm.trans hl')
      rw [hhalf.holder] at ht
      cases ht
    · intro q l' h₁ t₁ h₂ t₂ hl' hhalf' hh₁ hh₂
      exact hc.alone q l' h₁ t₁ h₂ t₂ hl' hhalf' ((hholds h₁ t₁ q).1 hh₁).1 ((hholds h₂ t₂ q).1 hh₂).1
  refine ⟨hset.free fun h' t hh => ((hholds h' t p).1 hh).2 rfl, ⟨rfl, rfl, rfl⟩, ?_, ?_, ?_⟩
  · intro q hq
    obtain rfl := (Prod.mk.inj (hc.toTidy.key_unique hq hmem rfl)).2
    exact setHeap_self ..
  · intro q hq
    have hqp : q ≠ p := by
      rintro rfl
      exact hq hmem
    exact setHeap_of_ne hqp _
  · -- the maps of the other handlers do not have the link
    intro h' e
    show e ∈ (s.setOutputs h ((s.primaryOutputLinks h).filter fun e => e.1 ≠ id)).primaryOutputLinks h'
      ↔ _
    unfold Net.setOutputs
    by_cases hh' : h' = h
    · subst hh'
      simp only [Function.update_self, List.mem_filter, decide_eq_true_eq]
      refine and_congr_right fun he => not_congr ?_
      constructor
      · rintro rfl
        exact he
      · intro hq
        exact (hentry e he).2 (hentry (id, e.2) hq |>.1 rfl)
    · simp only [Function.update_of_ne hh']
      refine ⟨fun he => ⟨he, fun hq => hh' ?_⟩, fun he => he.1⟩
      have hp : e.2 = p := (Prod.mk.inj (hc.toTidy.key_unique hq hmem rfl)).2
      obtain ⟨-, hh⟩ := hc.toTidy.holds_of_mem he
      rw [hp] at hh
      exact hc.alone p l h' _ h _ hl hhalf hh ((holds_map hmap).2 (List.mem_map_of_mem hmem))

/-- The destructor of a link without ends. -/
theorem destroy_half (hl : s.heap p = some l) (hhalf : l.Half) :
    d.destroy p s = .ok (s.setHeap p none) := by
  unfold Handlers.destroy
  simp only [deref_eq hl, hhalf.1, hhalf.2, Handlers.unsetEnd, bind, Except.bind]

/-- The old link of an identifier is disconnected. -/
theorem disconnectOld_ok (hc : Settled d s) (hk : d.kind h = .demux) {id : Octet}
    (hmem : (id, p) ∈ s.primaryOutputLinks h) (hl : s.heap p = some l) {s₁ : Net ι}
    (hdisc : d.disconnectOutput h .PrimaryOutput (some p) s = .ok s₁) :
    (∃ z, l.target = some z ∧ ∃ s₀, Settled d s₀ ∧
        Drops (fun q => (id, q) ∈ s.primaryOutputLinks h) s s₀ ∧
        s₁ = s₀.setNames h (Handlers.removeNames z (s.outputNames h))) ∨
      (l.Half ∧ s.outputNames h = [] ∧ s₁ = s.setHeap p none) := by
  have hmap : d.HasMap h .PrimaryOutputLink := ⟨hk, rfl⟩
  have hmem' : p ∈ (s.primaryOutputLinks h).map Prod.snd := List.mem_map_of_mem hmem
  have hentry : ∀ q, q = p ↔ (id, q) ∈ s.primaryOutputLinks h := by
    intro q
    constructor
    · rintro rfl
      exact hmem
    · intro hq
      exact (Prod.mk.inj (hc.toTidy.key_unique hq hmem rfl)).2
  rw [disconnectOutput_demux hk] at hdisc
  obtain ⟨s₂, hforget, hdisc⟩ := Framing.bind_ok hdisc
  rw [if_pos ⟨rfl, rfl⟩] at hdisc
  cases htarget : l.target with
  | some z =>
    rw [forgetNames_eq hl htarget] at hforget
    obtain rfl := Except.ok.inj hforget
    have hj : l.Joined := by
      refine (hc.whole p l hl).resolve_right fun hhalf => ?_
      rw [hhalf.2] at htarget
      cases htarget
    rw [deleteLink_map (s := s.setNames h _) hk hmem'] at hdisc
    obtain ⟨s₃, hs₃, hc₃, hd₃, -⟩ := (hc.setNames h _).destroy hl (fun _ => not_false) hj
    obtain rfl := Except.ok.inj (hs₃.symm.trans hdisc)
    refine Or.inl ⟨z, rfl, s₃.setNames h (s.outputNames h), hc₃.setNames h _, ?_, ?_⟩
    · have hd := hd₃.congr hentry
      refine ⟨⟨hd.rest.next, hd.rest.output, ?_⟩, hd.dead, hd.kept, hd.map⟩
      show Function.update s₃.outputNames h (s.outputNames h) = s.outputNames
      rw [hd.rest.outputNames]
      unfold Net.setNames
      rw [Function.update_idem, Function.update_eq_self]
    · unfold Net.setNames
      simp only [Function.update_idem]
      have hnames : s₃.outputNames =
          Function.update s.outputNames h (Handlers.removeNames z (s.outputNames h)) :=
        hd₃.rest.outputNames
      rw [hnames, Function.update_idem, ← hnames]
  | none =>
    have hhalf : l.Half := by
      refine (hc.whole p l hl).resolve_left fun hj => ?_
      have := hj.2
      rw [htarget] at this
      exact Bool.false_ne_true this
    unfold Handlers.forgetNames at hforget
    cases hnames : s.outputNames h with
    | nil =>
      simp only [hnames] at hforget
      obtain rfl := Except.ok.inj hforget
      rw [deleteLink_map hk hmem', destroy_half hl hhalf] at hdisc
      exact Or.inr ⟨hhalf, rfl, (Except.ok.inj hdisc).symm⟩
    | cons e es =>
      simp only [hnames, Net.targetName, deref_eq hl, htarget, bind, Except.bind, reduceCtorEq]
        at hforget

/-- **What `connectPrimaryOutput` has done**: nothing for a link that there is; otherwise the link of
the identifier is dropped, with the names of its target, and a new one is connected. -/
theorem connectPrimaryOutput_ok (hc : Settled d s) (hk : d.kind h = .demux) {id : Octet} {k : ℕ}
    {r : Option Thrown} (hrun : d.connectPrimaryOutput k h id y inRank s = .ok (r, s')) :
    (r = none ∧ s' = s ∧ ∃ p l, (id, p) ∈ s.primaryOutputLinks h ∧ s.heap p = some l ∧
        l.target = some y) ∨
      ∃ s₀ names, Settled d s₀ ∧ Drops (fun q => (id, q) ∈ s.primaryOutputLinks h) s s₀ ∧
        ((∀ e ∈ s.primaryOutputLinks h, e.1 ≠ id) ∧ names = s.outputNames h ∨
          ∃ p l, (id, p) ∈ s.primaryOutputLinks h ∧ s.heap p = some l ∧ l.target ≠ some y ∧
            ((∃ z, l.target = some z ∧ names = Handlers.removeNames z (s.outputNames h)) ∨
              l.Half ∧ names = [] ∧ s.outputNames h = [])) ∧
        d.connectNewOutput k h id y inRank (s₀.setNames h names) = .ok (r, s') := by
  have hself : ∀ s : Net ι, s.setNames h (s.outputNames h) = s := by
    intro s
    unfold Net.setNames
    rw [Function.update_eq_self]
  unfold Handlers.connectPrimaryOutput at hrun
  cases hlook : (s.primaryOutputLinks h).lookup id with
  | none =>
    simp only [hlook] at hrun
    have hid := lookup_none hlook
    refine Or.inr ⟨s, s.outputNames h, hc, Drops.none (fun q hq => hid _ hq rfl) s,
      Or.inl ⟨hid, rfl⟩, ?_⟩
    rw [hself]
    exact hrun
  | some p =>
    simp only [hlook] at hrun
    have hmem := lookup_mem hlook
    have hmap : d.HasMap h .PrimaryOutputLink := ⟨hk, rfl⟩
    obtain ⟨l, hl, -⟩ := hc.live _ _ _ ((holds_map hmap).2 (List.mem_map_of_mem hmem))
    simp only [deref_eq hl, bind, Except.bind] at hrun
    by_cases hy : l.target = some y
    · rw [if_pos hy] at hrun
      obtain ⟨rfl, rfl⟩ := Prod.mk.inj (Except.ok.inj hrun)
      exact Or.inl ⟨rfl, rfl, p, l, hmem, hl, hy⟩
    rw [if_neg hy] at hrun
    cases hdisc : d.disconnectOutput h .PrimaryOutput (some p) s with
    | error c => simp only [hdisc, reduceCtorEq] at hrun
    | ok s₁ =>
      simp only [hdisc] at hrun
      rcases disconnectOld_ok hc hk hmem hl hdisc with ⟨z, hz, s₀, hc₀, hd₀, rfl⟩ | ⟨hhalf, hnil, rfl⟩
      · exact Or.inr ⟨s₀, _, hc₀, hd₀, Or.inr ⟨p, l, hmem, hl, hy, Or.inl ⟨z, hz, rfl⟩⟩, hrun⟩
      · obtain ⟨hc₀, hd₀⟩ := hc.unmap hk hmem hl hhalf
        refine Or.inr ⟨_, [], hc₀, hd₀, Or.inr ⟨p, l, hmem, hl, hy, Or.inr ⟨hhalf, rfl, hnil⟩⟩, ?_⟩
        -- the entry that is left is written over
        rw [connectNewOutput_eq, ← hrun, connectNewOutput_eq, mapped_filter hc.toTidy hnil]
        rfl

/-! ## Withdrawal -/

theorem deleteSlot_spec (hc : Settled d s) (h : ι) (t : LinkType) :
    ∃ s', d.deleteSlot h t s = .ok s' ∧ Settled d s' ∧ Shrinks s s' := by
  unfold Handlers.deleteSlot
  cases hlink : s.links h t with
  | none => exact ⟨s, rfl, hc, Shrinks.refl s⟩
  | some p =>
    have hst : ¬ (d.HasSet h t ∨ d.HasMap h t) := by
      intro hst
      rw [hc.single h t hst] at hlink
      cases hlink
    rw [not_or] at hst
    obtain ⟨l, hl, hj, -⟩ := hc.joined hst.2 ((holds_single hst.1 hst.2).2 hlink)
    obtain ⟨s', hs', hc', hd', -⟩ := hc.destroy hl (fun _ => not_false) hj
    exact ⟨s', hs', hc', _, hd'⟩

theorem baseWithdraw_spec (hc : Settled d s) (h : ι) :
    ∃ s', d.baseWithdraw h s = .ok s' ∧ Settled d s' ∧ Shrinks s s' := by
  obtain ⟨s₁, hs₁, hc₁, hd₁⟩ := deleteSlot_spec hc h .PrimaryInputLink
  obtain ⟨s₂, hs₂, hc₂, hd₂⟩ := deleteSlot_spec hc₁ h .AuxInputLink
  obtain ⟨s₃, hs₃, hc₃, hd₃⟩ := deleteSlot_spec hc₂ h .PrimaryOutputLink
  obtain ⟨s₄, hs₄, hc₄, hd₄⟩ := deleteSlot_spec hc₃ h .AuxOutputLink
  refine ⟨s₄, ?_, hc₄, ((hd₁.trans hd₂).trans hd₃).trans hd₄⟩
  unfold Handlers.baseWithdraw
  simp only [hs₁, hs₂, hs₃, hs₄, bind, Except.bind]

/-- A link of a multiplexer's set is deleted. -/
theorem deleteLink_set (hc : Settled d s) (hk : d.kind h = .mux) (hp : p ∈ s.primaryInputLinks h) :
    ∃ s', d.deleteLink h .PrimaryInputLink (some p) s = .ok s' ∧ Settled d s' ∧ Shrinks s s' := by
  have hset : d.HasSet h .PrimaryInputLink := ⟨hk, rfl⟩
  obtain ⟨l, hl, hj, -⟩ := hc.joined (not_hasMap_input h .PrimaryInput) ((holds_set hset).2 hp)
  obtain ⟨x, hx⟩ := Option.isSome_iff_exists.1 hj.1
  obtain ⟨y, hy⟩ := Option.isSome_iff_exists.1 hj.2
  obtain ⟨s', hs', hc', hd', -⟩ := hc.destroy hl (fun _ => not_false) hj
  refine ⟨s', ?_, hc', _, hd'⟩
  unfold Handlers.deleteLink
  rw [if_pos hset]
  simp only [Net.sourceName, Net.targetName, deref_eq hl, hx, hy, bind, Except.bind, if_pos hp, hs']

/-- The loop over a multiplexer's set ends with an empty set, or has not returned yet. -/
theorem withdrawInputs_spec (hk : d.kind h = .mux) (k : ℕ) (hc : Settled d s) :
    (d.withdrawInputs h k s = .error .running) ∨
      ∃ s', d.withdrawInputs h k s = .ok s' ∧ Settled d s' ∧ Shrinks s s' ∧
        s'.primaryInputLinks h = [] := by
  induction k generalizing s with
  | zero =>
    unfold Handlers.withdrawInputs
    split_ifs with hnil
    · exact Or.inr ⟨s, rfl, hc, Shrinks.refl s, hnil⟩
    · exact Or.inl rfl
  | succ k ih =>
    unfold Handlers.withdrawInputs
    cases hins : s.primaryInputLinks h with
    | nil => exact Or.inr ⟨s, rfl, hc, Shrinks.refl s, hins⟩
    | cons p ps =>
      have hp : p ∈ s.primaryInputLinks h := by
        rw [hins]
        exact List.mem_cons_self ..
      obtain ⟨s₁, hs₁, hc₁, hd₁⟩ := deleteLink_set hc hk hp
      simp only [hs₁, bind, Except.bind]
      rcases ih hc₁ with hrun | ⟨s', hs', hc', hd', hnil⟩
      · exact Or.inl hrun
      · exact Or.inr ⟨s', hs', hc', hd₁.trans hd', hnil⟩

theorem setInputs_nil (hnil : s.primaryInputLinks h = []) : s.setInputs h [] = s := by
  unfold Net.setInputs
  rw [← hnil, Function.update_eq_self]

/-- The loop over a demultiplexer's map ends only when no link of the map has ends: the element of one
that has is erased while the iterator is at it. -/
theorem withdrawOutputs_ok (hc : Settled d s) (hk : d.kind h = .demux) {es : List (Octet × ℕ)}
    {ps : List ℕ} (hes : ∀ e ∈ es, e ∈ s.primaryOutputLinks h)
    (hrun : d.withdrawOutputs h es (kill ps s) = .ok s') :
    s' = kill (ps ++ es.map Prod.snd) s ∧ ∀ e ∈ es, ∃ l, s.heap e.2 = some l ∧ l.Half := by
  induction es generalizing ps with
  | nil =>
    obtain rfl := Except.ok.inj hrun
    rw [List.map_nil, List.append_nil]
    exact ⟨rfl, fun e he => absurd he List.not_mem_nil⟩
  | cons e es ih =>
    unfold Handlers.withdrawOutputs at hrun
    obtain ⟨s₁, hdes, hrun⟩ := Framing.bind_ok hrun
    have hmem := hes e (List.mem_cons_self ..)
    obtain ⟨hmap, hh⟩ := hc.toTidy.holds_of_mem hmem
    obtain ⟨l, hl, hcase⟩ := hc.live _ _ _ hh
    have hnot : e.2 ∉ ps := by
      intro hps
      unfold Handlers.destroy Net.deref at hdes
      simp only [kill, if_pos hps, bind, Except.bind, reduceCtorEq] at hdes
    have hlive : (kill ps s).heap e.2 = some l := by
      unfold kill
      simp only [if_neg hnot]
      exact hl
    rcases hc.whole _ l hl with hj | hhalf
    · -- the element of the iterator is erased
      have hhold : l.holder .PrimaryOutputLink = some h := by
        rcases hcase with hcase | hcase
        · exact hcase.1
        · exact absurd hcase.1 hj.not_half
      have htidy : Tidy d (kill ps s) :=
        ⟨hc.set, hc.map, hc.keys, hc.single, hc.onlySet, hc.onlyMap⟩
      obtain ⟨s₂, hs₂, hd⟩ := destroy_spec htidy hlive
        fun h' t ht => hc.held h' t e.2 l hl ht not_false
      obtain rfl := Except.ok.inj (hs₂.symm.trans hdes)
      have hgone : e ∉ s₂.primaryOutputLinks h := by
        rw [hd.map]
        exact fun hn => hn.2 ⟨hhold, hk, rfl⟩
      rw [if_neg hgone] at hrun
      cases hrun
    · rw [destroy_half hlive hhalf, kill_snoc] at hdes
      obtain rfl := Except.ok.inj hdes
      rw [if_pos (show e ∈ (kill (ps ++ [e.2]) s).primaryOutputLinks h from hmem)] at hrun
      obtain ⟨hs', hrest⟩ := ih (fun a ha => hes a (List.mem_cons_of_mem _ ha)) hrun
      rw [List.append_assoc] at hs'
      refine ⟨hs', fun a ha => ?_⟩
      rcases List.mem_cons.1 ha with rfl | ha
      · exact ⟨l, hl, hhalf⟩
      · exact hrest a ha

/-- A map of links without ends is cleared. -/
theorem Consistent.clear (hc : Settled d s) (hk : d.kind h = .demux)
    (hhalf : ∀ e ∈ s.primaryOutputLinks h, ∃ l, s.heap e.2 = some l ∧ l.Half) :
    Settled d ((kill ((s.primaryOutputLinks h).map Prod.snd) s).setOutputs h []) ∧
      Shrinks s ((kill ((s.primaryOutputLinks h).map Prod.snd) s).setOutputs h []) := by
  have hmap : d.HasMap h .PrimaryOutputLink := ⟨hk, rfl⟩
  -- no other slot refers to a link of the map
  have hother : ∀ h' t q, d.Holds s h' t q → q ∈ (s.primaryOutputLinks h).map Prod.snd →
      h' = h ∧ t = .PrimaryOutputLink := by
    intro h' t q hh hq
    obtain ⟨e, he, rfl⟩ := List.mem_map.1 hq
    obtain ⟨l, hl, hl'⟩ := hhalf e he
    obtain ⟨l₁, hl₁, hcase⟩ := hc.live h' t e.2 hh
    obtain rfl := Option.some.inj (hl.symm.trans hl₁)
    rcases hcase with hcase | hcase
    · have := hcase.1
      rw [hl'.holder] at this
      cases this
    · exact ⟨hc.alone _ l h' t h .PrimaryOutputLink hl hl' hh ((holds_map hmap).2 hq), hcase.2.2⟩
  have hheap : ∀ q l, (kill ((s.primaryOutputLinks h).map Prod.snd) s).heap q = some l →
      s.heap q = some l ∧ q ∉ (s.primaryOutputLinks h).map Prod.snd := by
    intro q l hl
    by_cases hq : q ∈ (s.primaryOutputLinks h).map Prod.snd
    · simp only [kill, if_pos hq, reduceCtorEq] at hl
    · simp only [kill, if_neg hq] at hl
      exact ⟨hl, hq⟩
  have hholds : ∀ h' t q, d.Holds ((kill ((s.primaryOutputLinks h).map Prod.snd) s).setOutputs h [])
      h' t q → d.Holds s h' t q ∧ q ∉ (s.primaryOutputLinks h).map Prod.snd := by
    intro h' t q hh
    rw [holds_setOutputs hk] at hh
    split_ifs at hh with heq
    · exact absurd hh List.not_mem_nil
    · exact ⟨hh, fun hq => heq (hother h' t q hh hq)⟩
  refine ⟨⟨?_, ?_, ?_, ?_, ?_, ?_⟩, (· ∈ (s.primaryOutputLinks h).map Prod.snd), ⟨rfl, rfl, rfl⟩,
    ?_, ?_, ?_⟩
  · have hnil : (([] : List (Octet × ℕ)).map Prod.snd).Nodup := List.nodup_nil
    have htidy : Tidy d (kill ((s.primaryOutputLinks h).map Prod.snd) s) :=
      ⟨hc.set, hc.map, hc.keys, hc.single, hc.onlySet, hc.onlyMap⟩
    exact htidy.setOutputs hk hnil List.Pairwise.nil
  · intro h' t q hh
    obtain ⟨hh, hq⟩ := hholds h' t q hh
    obtain ⟨l, hl, hcase⟩ := hc.live h' t q hh
    exact ⟨l, (if_neg hq).trans hl, hcase⟩
  · intro h' t q l hl ht hpend
    obtain ⟨hl, hq⟩ := hheap q l hl
    have hh := hc.held h' t q l hl ht hpend
    rw [holds_setOutputs hk, if_neg]
    · exact hh
    · rintro ⟨rfl, rfl⟩
      exact hq ((holds_map hmap).1 hh)
  · intro q l hl
    exact hc.whole q l (hheap q l hl).1
  · intro q l h₁ t₁ h₂ t₂ hl hl' hh₁ hh₂
    exact hc.alone q l h₁ t₁ h₂ t₂ (hheap q l hl).1 hl' (hholds h₁ t₁ q hh₁).1 (hholds h₂ t₂ q hh₂).1
  · intro q hq
    have hnone := hc.below q hq
    show (if q ∈ (s.primaryOutputLinks h).map Prod.snd then none else s.heap q) = none
    rw [hnone, ite_self]
  · intro q hq
    exact if_pos hq
  · intro q hq
    exact if_neg hq
  · intro h' e
    unfold Net.setOutputs kill
    by_cases hh' : h' = h
    · subst hh'
      simp only [Function.update_self, List.not_mem_nil, false_iff, not_and, not_not]
      exact fun he => List.mem_map_of_mem he
    · simp only [Function.update_of_ne hh']
      refine ⟨fun he => ⟨he, fun hq => hh' ?_⟩, fun he => he.1⟩
      exact (hother h' _ _ (hc.toTidy.holds_of_mem he).2 hq).1

/-- **What `withdraw` has done**: links are dropped. -/
theorem withdraw_ok (hc : Settled d s) {k : ℕ} (hrun : d.withdraw k h s = .ok s') :
    Settled d s' ∧ Shrinks s s' := by
  unfold Handlers.withdraw at hrun
  cases hk : d.kind h with
  | plain =>
    simp only [hk] at hrun
    obtain ⟨s₁, hs₁, hspec⟩ := baseWithdraw_spec hc h
    obtain rfl := Except.ok.inj (hs₁.symm.trans hrun)
    exact hspec
  | mux =>
    simp only [hk] at hrun
    obtain ⟨s₁, hins, hrun⟩ := Framing.bind_ok hrun
    rcases withdrawInputs_spec hk k hc with herr | ⟨s₂, hs₂, hc₂, hd₂, hnil⟩
    · cases herr.symm.trans hins
    · obtain rfl := Except.ok.inj (hs₂.symm.trans hins)
      rw [setInputs_nil hnil] at hrun
      obtain ⟨s₃, hs₃, hc₃, hd₃⟩ := baseWithdraw_spec hc₂ h
      obtain rfl := Except.ok.inj (hs₃.symm.trans hrun)
      exact ⟨hc₃, hd₂.trans hd₃⟩
  | demux =>
    simp only [hk] at hrun
    obtain ⟨s₁, houts, hrun⟩ := Framing.bind_ok hrun
    have hkill : kill [] s = s := by
      unfold kill
      simp only [List.not_mem_nil, if_false]
    have houts' : d.withdrawOutputs h (s.primaryOutputLinks h) (kill [] s) = .ok s₁ := by
      rw [hkill]
      exact houts
    obtain ⟨rfl, hhalf⟩ := withdrawOutputs_ok hc hk (fun e he => he) houts'
    obtain ⟨hc₂, hd₂⟩ := hc.clear hk hhalf
    obtain ⟨s₃, hs₃, hc₃, hd₃⟩ := baseWithdraw_spec hc₂ h
    obtain rfl := Except.ok.inj (hs₃.symm.trans hrun)
    exact ⟨hc₃, hd₂.trans hd₃⟩

/-! ## Every operation -/

/-- **Every operation keeps the net settled.** -/
theorem run_settled (hc : Settled d s) {o : Op ι} (ho : o.Defined d) {k : ℕ} {r : Option Thrown}
    (hrun : o.run d k s = .ok (r, s')) : Settled d s' := by
  cases o with
  | connectOutput h y outRank inRank =>
    replace hrun : d.connectOutput k h y outRank inRank s = .ok (r, s') := hrun
    unfold Handlers.connectOutput at hrun
    split_ifs at hrun
    · obtain ⟨-, rfl⟩ := Prod.mk.inj (Except.ok.inj hrun)
      exact hc
    · obtain ⟨s₁, hdisc, -, -, hcase⟩ := baseConnectOutput_ok hc hrun
      have hc₁ := hdisc.settled.setOutput h outRank none
      rcases hcase with ⟨-, rfl⟩ | ⟨-, s₂, rfl, hc₂, -⟩
      · exact hc₁.alloc.free fun h' t => hc₁.fresh
      · exact hc₂.setOutput h outRank _
  | connectPrimaryOutput h id y inRank =>
    rcases connectPrimaryOutput_ok hc ho hrun with ⟨-, rfl, -⟩ | ⟨s₀, names, hc₀, hd₀, -, hnew⟩
    · exact hc
    · have hid : ∀ e ∈ (s₀.setNames h names).primaryOutputLinks h, e.1 ≠ id := by
        rintro e he rfl
        obtain ⟨hold, hn⟩ := (hd₀.map h e).1 he
        exact hn hold
      obtain ⟨-, hc₁, hcase⟩ := connectNewOutput_ok (hc₀.setNames h names) ho hid hnew
      rcases hcase with ⟨-, rfl⟩ | ⟨-, s₂, rfl, hc₂, -⟩
      · exact hc₁
      · exact hc₂.setNames h _
  | disconnectOutput h outRank =>
    obtain ⟨s₁, hdisc, hrun⟩ := Framing.bind_ok hrun
    obtain ⟨-, rfl⟩ := Prod.mk.inj (Except.ok.inj hrun)
    obtain ⟨-, -, s₂, rfl, -, hc₂, -⟩ := disconnectOutput_ok hc hdisc
    exact hc₂.setOutput h outRank none
  | withdraw h =>
    obtain ⟨s₁, hwith, hrun⟩ := Framing.bind_ok hrun
    obtain ⟨-, rfl⟩ := Prod.mk.inj (Except.ok.inj hrun)
    exact (withdraw_ok hc hwith).1

omit [DecidableEq ι] in
/-- Handlers without links. -/
theorem settled_start (d : Handlers ι) : Settled d ({} : Net ι) := by
  have hnone : ∀ h t p, ¬ d.Holds ({} : Net ι) h t p := by
    intro h t p hh
    unfold Handlers.Holds at hh
    split_ifs at hh
    · exact List.not_mem_nil hh
    · exact List.not_mem_nil hh
  refine ⟨⟨fun _ => List.nodup_nil, fun _ => List.nodup_nil, fun _ => List.Pairwise.nil,
    fun _ _ _ => rfl, fun _ _ => rfl, fun _ _ => rfl⟩, ?_, ?_, ?_, ?_, fun _ _ => rfl⟩
  · exact fun h t p hh => absurd hh (hnone h t p)
  · exact fun h t p l hl => by cases hl
  · exact fun p l hl => by cases hl
  · exact fun p l h t h' t' hl => by cases hl

/-- **A reachable net is settled.** -/
theorem run_settled_all {allowed : Net ι → Op ι → Option Thrown → Prop} (h : Run d allowed s) :
    Settled d s := by
  induction h with
  | start => exact settled_start d
  | op _ ho _ hrun ih => exact run_settled ih ho hrun

/-! ## Runs that are computed -/

/-- The operations one after the other, when none of them throws. -/
def succeed (d : Handlers ι) (k : ℕ) : List (Op ι) → Net ι → Option (Net ι)
  | [], s => some s
  | o :: os, s =>
    match o.run d k s with
    | .ok (none, s') => succeed d k os s'
    | _ => none

theorem run_succeed {allowed : Net ι → Op ι → Option Thrown → Prop}
    (hallowed : ∀ s o, allowed s o none) {k : ℕ} {os : List (Op ι)} (hos : ∀ o ∈ os, o.Defined d)
    (hrun : Run d allowed s) (h : succeed d k os s = some s') : Run d allowed s' := by
  induction os generalizing s with
  | nil =>
    obtain rfl := Option.some.inj h
    exact hrun
  | cons o os ih =>
    unfold succeed at h
    cases ho : o.run d k s with
    | error c =>
      rw [ho] at h
      cases h
    | ok r =>
      obtain ⟨_ | e, s₁⟩ := r
      · rw [ho] at h
        refine ih (fun o ho => hos o (List.mem_cons_of_mem _ ho)) ?_ h
        exact Run.op hrun (hos o (List.mem_cons_self ..)) (hallowed s o) ho
      · rw [ho] at h
        cases h

end LinkGraph

end ChannelEmulator
