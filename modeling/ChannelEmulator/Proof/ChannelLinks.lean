import ChannelEmulator.Proof.LinkInvariants
import ChannelEmulator.Proof.LinkSettings

/-!
# Connecting a new handler

In a net whose links all go from primary outputs to primary inputs, what `connectOutput` does for a
handler that outputs to no other yet.

* `connect_new`: **the link is made**; a target that is no multiplexer loses the input it had.
-/

namespace ChannelEmulator

namespace LinkGraph

variable {ι : Type} [DecidableEq ι] {d : Handlers ι} {s s' : Net ι} {x y a b : ι} {p : ℕ}

/-- Every link goes from a primary output to a primary input. -/
def AllPrimary (s : Net ι) : Prop :=
  ∀ p l, s.heap p = some l → l.sourceOutputRank = .PrimaryOutput ∧ l.targetInputRank = .PrimaryInput

omit [DecidableEq ι] in
theorem allPrimary_start : AllPrimary ({} : Net ι) := by
  intro p l hl
  cases hl

omit [DecidableEq ι] in
/-- A handler that outputs to no other has no links in its output slots. -/
theorem no_output (hc : Settled d s) (hmap : d.kind x ≠ .demux) (hx : ∀ z, ¬ Edge s x z)
    (rank : OutputRank) : s.links x rank.link = none := by
  have hnot : ¬ d.HasMap x rank.link := fun hm => hmap hm.1
  cases hl : s.links x rank.link with
  | none => rfl
  | some p =>
    obtain ⟨l, hheap, hjoined, hhold, -⟩ :=
      hc.joined hnot ((holds_single (not_hasSet_output x rank) hnot).2 hl)
    obtain ⟨z, hz⟩ := Option.isSome_iff_exists.1 hjoined.2
    rcases (l.holder_eq _ _).1 hhold with ⟨-, hr⟩ | ⟨hs, -⟩
    · exact absurd hr.symm (InputRank.link_ne _ _)
    · exact absurd ⟨p, l, hheap, hs, hz⟩ (hx z)

/-- The search from a handler that outputs to no other. -/
theorem search_new (hc : Settled d s) (hmap : d.kind x ≠ .demux) (hx : ∀ z, ¬ Edge s x z)
    (hxy : x ≠ y) (k : ℕ) : d.isCircularConnection s y (k + 1) x = .ok false := by
  have hnil : d.outputLinks x s = [] := by
    have hprim := no_output hc hmap hx .PrimaryOutput
    have haux := no_output hc hmap hx .AuxOutput
    simp only [OutputRank.link] at hprim haux
    unfold Handlers.outputLinks
    rw [hprim, haux]
    cases hk : d.kind x with
    | plain => rfl
    | mux => rfl
    | demux => exact absurd hk hmap
  rw [Handlers.isCircularConnection, if_neg (Ne.symm hxy), hnil]
  rfl

omit [DecidableEq ι] in
/-- The links that go into a handler with one primary input. -/
theorem input_iff (hc : Settled d s) (hprim : AllPrimary s) {l : HandlerLink ι}
    (hl : s.heap p = some l) :
    s.links y .PrimaryInputLink = some p ↔ d.kind y ≠ .mux ∧ l.target = some y := by
  constructor
  · intro hlink
    have hslot : s.links y InputRank.PrimaryInput.link = some p := hlink
    refine ⟨?_, target_of_input hc hl hslot⟩
    intro hmux
    have hnone := hc.single y .PrimaryInputLink (.inl ⟨hmux, rfl⟩)
    rw [hnone] at hlink
    cases hlink
  · rintro ⟨hmux, ht⟩
    have hset : ¬ d.HasSet y .PrimaryInputLink := fun hs => hmux hs.1
    have hheld := hc.held y .PrimaryInputLink p l hl
      ((l.holder_eq _ _).2 (.inl ⟨ht, by rw [(hprim p l hl).2]; rfl⟩)) not_false
    exact (holds_single hset (not_hasMap_input y .PrimaryInput)).1 hheld

omit [DecidableEq ι] in
/-- **The links of afterwards** are the new one, and those of before but the one input of its target. -/
theorem connected_edges {s₁ s₂ : Net ι} (hc : Settled d s) (hprim : AllPrimary s)
    (hnew : s₁.heap s.next = some (between x y .PrimaryOutput .PrimaryInput))
    (hold : ∀ q, q ≠ s.next → s₁.heap q = s.heap q)
    (hd : Drops (fun q => s.links y .PrimaryInputLink = some q) s₁ s₂) :
    AllPrimary s₂ ∧ ∀ a b, Edge s₂ a b ↔ (Edge s a b ∧ ¬(d.kind y ≠ .mux ∧ b = y)) ∨ (a = x ∧ b = y) := by
  have hfresh : ¬ s.links y .PrimaryInputLink = some s.next := by
    intro hlink
    have hset : ¬ d.HasSet y .PrimaryInputLink := by
      intro hset
      rw [hc.single y _ (.inl hset)] at hlink
      cases hlink
    exact hc.fresh ((holds_single hset (not_hasMap_input y .PrimaryInput)).2 hlink)
  have hmade : s₂.heap s.next = some (between x y .PrimaryOutput .PrimaryInput) :=
    (hd.kept _ hfresh).trans hnew
  have hkept : ∀ q l, q ≠ s.next → (s₂.heap q = some l ↔
      s.heap q = some l ∧ ¬(d.kind y ≠ .mux ∧ l.target = some y)) := by
    intro q l hq
    by_cases hgone : s.links y .PrimaryInputLink = some q
    · rw [hd.dead q hgone]
      refine iff_of_false (fun h => by cases h) ?_
      rintro ⟨hl, hnot⟩
      exact hnot ((input_iff hc hprim hl).1 hgone)
    · rw [hd.kept q hgone, hold q hq]
      refine ⟨fun hl => ⟨hl, fun h => hgone ?_⟩, fun h => h.1⟩
      exact (input_iff hc hprim hl).2 h
  refine ⟨fun q l hl => ?_, fun a b => ?_⟩
  · by_cases hq : q = s.next
    · subst hq
      obtain rfl := Option.some.inj (hmade.symm.trans hl)
      exact ⟨rfl, rfl⟩
    · exact hprim q l ((hkept q l hq).1 hl).1
  · constructor
    · rintro ⟨q, l, hl, hs, ht⟩
      by_cases hq : q = s.next
      · subst hq
        obtain rfl := Option.some.inj (hmade.symm.trans hl)
        exact .inr ⟨(Option.some.inj hs).symm, (Option.some.inj ht).symm⟩
      · obtain ⟨hl', hnot⟩ := (hkept q l hq).1 hl
        exact .inl ⟨⟨q, l, hl', hs, ht⟩, fun h => hnot ⟨h.1, ht.trans (congrArg some h.2)⟩⟩
    · rintro (⟨⟨q, l, hl, hs, ht⟩, hnot⟩ | ⟨rfl, rfl⟩)
      · have hq : q ≠ s.next := by
          rintro rfl
          rw [hc.below _ (Nat.le_refl _)] at hl
          cases hl
        refine ⟨q, l, (hkept q l hq).2 ⟨hl, fun h => hnot ⟨h.1, ?_⟩⟩, hs, ht⟩
        exact Option.some.inj (ht.symm.trans h.2)
      · exact ⟨s.next, _, hmade, rfl, rfl⟩

/-- **What `connectOutput` does** for a handler that outputs to no other yet. -/
theorem connect_new (hc : Settled d s) (hprim : AllPrimary s) (hmap : d.kind x ≠ .demux)
    (hx : ∀ z, ¬ Edge s x z) (hxy : x ≠ y) (k : ℕ) : ∃ s',
    d.connectOutput (k + 1) x y .PrimaryOutput .PrimaryInput s = .ok (none, s') ∧ Settled d s' ∧
      AllPrimary s' ∧ (AllJoined s → AllJoined s') ∧ ∀ a b, Edge s' a b ↔
        (Edge s a b ∧ ¬(d.kind y ≠ .mux ∧ b = y)) ∨ (a = x ∧ b = y) := by
  have hempty := no_output hc hmap hx .PrimaryOutput
  have hnot : ¬ d.HasMap x OutputRank.PrimaryOutput.link := fun hm => hmap hm.1
  obtain ⟨s₁, hdisc, hc₁, hd₁, hempty₁⟩ := baseDisconnectOutput_spec hc hnot
  have hgone : ∀ q, ¬ s.links x OutputRank.PrimaryOutput.link = some q := by
    intro q hq
    rw [hempty] at hq
    cases hq
  have hheap₁ : ∀ q, s₁.heap q = s.heap q := fun q => hd₁.kept q (hgone q)
  -- the new link is behind all others
  have hc₂ := (hc₁.setOutput x .PrimaryOutput none).alloc
  have hheld : ∀ h' t, d.Holds (s₁.setOutput x .PrimaryOutput none).alloc h' t s₁.next ↔
      d.HasMap x OutputRank.PrimaryOutput.link ∧ h' = x ∧ t = OutputRank.PrimaryOutput.link := by
    intro h' t
    exact iff_of_false ((hc₁.setOutput x .PrimaryOutput none).fresh (h := h') (t := t))
      fun hn => hnot hn.1
  have hedge₂ : Edge (s₁.setOutput x .PrimaryOutput none).alloc = Edge s := by
    rw [edge_alloc (hc₁.setOutput x .PrimaryOutput none)]
    show Edge s₁ = Edge s
    unfold Edge
    simp only [hheap₁]
  have hsearch := search_new (y := y) hc₂ hmap (by rw [hedge₂]; exact hx) hxy k
  obtain ⟨s₂, s₃, hset₂, hset₃, hc₃, hd₃⟩ := setBoth_spec y .PrimaryInput hc₂ hheld
    (Nat.lt_succ_self _) hempty₁
  have hconn : d.connectSourceToTarget (k + 1) s₁.next x y .PrimaryOutput .PrimaryInput
      (s₁.setOutput x .PrimaryOutput none).alloc = .ok (none, s₃) := by
    unfold between at hset₂
    have hrank : ¬ (InputRank.PrimaryInput = .AuxInput ∧ ¬ d.auxQueue y = true) := fun h => by cases h.1
    unfold Handlers.connectSourceToTarget
    simp only [hsearch, bind, Except.bind, Bool.false_eq_true, if_false, hset₂, hset₃]
    rw [if_neg hrank]
  have hprim₁ : AllPrimary s₁ := fun q l hl => hprim q l ((hheap₁ q).symm.trans hl)
  have hedge₁ : Edge s₁ = Edge s := by
    unfold Edge
    simp only [hheap₁]
  have hold : ∀ q, q ≠ s₁.next → (((s₁.setOutput x .PrimaryOutput none).alloc).setHeap s₁.next
      (some (between x y .PrimaryOutput .PrimaryInput))).heap q = s₁.heap q :=
    fun q hq => (setHeap_of_ne hq _).trans (setHeap_of_ne hq _)
  obtain ⟨hprim₃, hedge₃⟩ := connected_edges hc₁ hprim₁ (setHeap_self ..) hold hd₃
  rw [hedge₁] at hedge₃
  have hjoined : AllJoined s → AllJoined s₃ := fun hj =>
    hj.between hd₃ fun q hq => (setHeap_of_ne hq _).trans (hheap₁ q)
  refine ⟨s₃.setOutput x .PrimaryOutput (some (y, .PrimaryInput)), ?_, hc₃.setOutput x _ _, hprim₃, hjoined, hedge₃⟩
  unfold Handlers.connectOutput Handlers.baseConnectOutput
  rw [if_neg fun h => hmap h.1, disconnectOutput_plain hmap, hdisc]
  show (do
    let r ← d.connectSourceToTarget (k + 1) s₁.next x y .PrimaryOutput .PrimaryInput
      (s₁.setOutput x .PrimaryOutput none).alloc
    _) = _
  rw [hconn]
  rfl

/-- **What the constructor of a demultiplexer does** for a handler that it does not lead to and an identifier that it
does not have. -/
theorem connect_listed (hc : Settled d s) (hprim : AllPrimary s) (hjoined : AllJoined s) (hacyc : Acyclic s)
    (hk : d.kind x = .demux) {id : Octet} (hid : ∀ e ∈ s.primaryOutputLinks x, e.1 ≠ id) (hxy : ¬ Reaches s x y) :
    ∃ s', d.connectSourceToTarget (s.next + 2) s.next x y .PrimaryOutput .PrimaryInput
        (s.alloc.setOutputs x (assign id s.next (s.primaryOutputLinks x))) = .ok (none, s') ∧ Settled d s' ∧
      AllPrimary s' ∧ AllJoined s' ∧ ∀ a b, Edge s' a b ↔
        (Edge s a b ∧ ¬(d.kind y ≠ .mux ∧ b = y)) ∨ (a = x ∧ b = y) := by
  have hc₁ : Settled d (Mapped s x id) := hc.mapNew hk id hid
  have hedge₁ : Edge (Mapped s x id) = Edge s := edge_alloc hc
  have hacyc₁ : Acyclic (Mapped s x id) := by
    unfold Acyclic
    rw [hedge₁]
    exact hacyc
  obtain ⟨b, hsearch⟩ := isCircularConnection_returns hc₁ hacyc₁ x y
  have hfound := isCircularConnection_iff hc₁ hsearch
  rw [show Reaches (Mapped s x id) x y ↔ Reaches s x y by unfold Reaches; rw [hedge₁]] at hfound
  have hempty : (Mapped s x id).links x OutputRank.PrimaryOutput.link = none := hc.single x _ (.inr ⟨hk, rfl⟩)
  have hspec := @connectSourceToTarget_spec ι d _ _ x y .PrimaryOutput .PrimaryInput _ hc₁ (mapped_held hc hk id)
    (Nat.lt_succ_self _) hempty _ _ hsearch
  rcases hspec with ⟨hb, -⟩ | ⟨-, haux, -⟩ | ⟨-, s₂, hspec, hc₂, hd₂⟩
  · exact absurd (hfound.1 hb) hxy
  · cases haux
  · have hold : ∀ q, q ≠ s.next → ((Mapped s x id).setHeap s.next
        (some (between x y .PrimaryOutput .PrimaryInput))).heap q = s.heap q :=
      fun q hq => (setHeap_of_ne hq _).trans (setHeap_of_ne hq _)
    obtain ⟨hprim₂, hedge₂⟩ := connected_edges hc hprim (setHeap_self ..) hold hd₂
    have hjoined₂ : AllJoined s₂ := hjoined.between hd₂ fun q hq => setHeap_of_ne hq _
    exact ⟨s₂, hspec, hc₂, hprim₂, hjoined₂, hedge₂⟩

end LinkGraph

end ChannelEmulator
