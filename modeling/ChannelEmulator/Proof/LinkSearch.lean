import ChannelEmulator.Proof.LinkGraph
import ChannelEmulator.Framing.Run
import Mathlib.Data.List.Perm.Subperm

/-!
# The search for a circular connection

* `Edge`, `Reaches`: one traffic handler outputs to another.
* `isCircularConnection_iff`: **the search finds the handlers that its handler reaches**.
* `isCircularConnection_returns`: it returns when no handler reaches itself.
-/

namespace ChannelEmulator

namespace LinkGraph

variable {ι : Type} {d : Handlers ι} {s s' : Net ι} {h x y : ι} {p : ℕ} {l : HandlerLink ι}

/-- A link from `a` to `b`. -/
def Edge (s : Net ι) (a b : ι) : Prop :=
  ∃ p l, s.heap p = some l ∧ l.source = some a ∧ l.target = some b

def Reaches (s : Net ι) : ι → ι → Prop := Relation.ReflTransGen (Edge s)

/-- No handler can be reached from itself. -/
def Acyclic (s : Net ι) : Prop := ∀ x, ¬ Relation.TransGen (Edge s) x x

/-- A new link without ends is no edge. -/
theorem edge_alloc (hc : Settled d s) : Edge s.alloc = Edge s := by
  funext a b
  apply propext
  constructor
  · rintro ⟨p, l, hl, hs, ht⟩
    have hp : p ≠ s.next := by
      rintro rfl
      obtain rfl := Option.some.inj ((setHeap_self ..).symm.trans hl)
      cases hs
    exact ⟨p, l, (setHeap_of_ne hp _).symm.trans hl, hs, ht⟩
  · rintro ⟨p, l, hl, hs, ht⟩
    have hp : p ≠ s.next := by
      rintro rfl
      rw [hc.below _ (Nat.le_refl _)] at hl
      cases hl
    exact ⟨p, l, (setHeap_of_ne hp _).trans hl, hs, ht⟩

/-- The links between handlers are those of before, and `p` perhaps. -/
theorem drops_between {gone : ℕ → Prop} {s₁ : Net ι} {outRank : OutputRank} {inRank : InputRank}
    (hd : Drops gone (s₁.setHeap p (some (between x y outRank inRank))) s') {a b : ι}
    (hedge : Edge s' a b) : Edge s₁ a b ∨ (a = x ∧ b = y) := by
  obtain ⟨q, l, hl, hs, ht⟩ := hedge
  have hn : ¬ gone q := by
    intro hq
    rw [hd.dead q hq] at hl
    cases hl
  rw [hd.kept q hn] at hl
  by_cases hq : q = p
  · subst hq
    obtain rfl := Option.some.inj ((setHeap_self ..).symm.trans hl)
    exact Or.inr ⟨(Option.some.inj hs).symm, (Option.some.inj ht).symm⟩
  · exact Or.inl ⟨q, l, (setHeap_of_ne hq _).symm.trans hl, hs, ht⟩

/-- The links that the search tries are those that the handler is the source of, and links without
ends, which are passed over. -/
theorem outputLinks_live (hc : Settled d s) {e : ℕ × Bool} (he : e ∈ d.outputLinks h s) :
    ∃ l, s.heap e.1 = some l ∧ ((l.Joined ∧ l.source = some h) ∨ (l.Half ∧ e.2 = true)) := by
  have hslot : ∀ r : OutputRank, ¬ d.HasMap h r.link → s.links h r.link = some e.1 →
      ∃ l, s.heap e.1 = some l ∧ ((l.Joined ∧ l.source = some h) ∨ (l.Half ∧ e.2 = true)) := by
    intro r hmap hlink
    obtain ⟨l, hl, hj, hhold, -⟩ := hc.joined hmap
      ((holds_single (not_hasSet_output h r) hmap).2 hlink)
    refine ⟨l, hl, Or.inl ⟨hj, ?_⟩⟩
    rcases (l.holder_eq _ _).1 hhold with ⟨-, hr⟩ | ⟨hs, -⟩
    · exact absurd hr.symm (InputRank.link_ne _ _)
    · exact hs
  have haux : e ∈ (s.links h .AuxOutputLink).toList.map (fun p => (p, false)) →
      ∃ l, s.heap e.1 = some l ∧ ((l.Joined ∧ l.source = some h) ∨ (l.Half ∧ e.2 = true)) := by
    intro he
    obtain ⟨p, hp, rfl⟩ := List.mem_map.1 he
    exact hslot .AuxOutput (fun hm => by cases hm.2) (Option.mem_toList.1 hp)
  unfold Handlers.outputLinks at he
  cases hk : d.kind h with
  | demux =>
    rw [hk] at he
    rcases List.mem_append.1 he with he | he
    · obtain ⟨a, ha, rfl⟩ := List.mem_map.1 he
      obtain ⟨hmap, hh⟩ := hc.toTidy.holds_of_mem ha
      obtain ⟨l, hl, hcase⟩ := hc.live _ _ _ hh
      refine ⟨l, hl, ?_⟩
      rcases hcase with hcase | hcase
      · refine Or.inl ⟨(hc.whole _ l hl).resolve_right fun hhalf => ?_, ?_⟩
        · have := hcase.1
          rw [hhalf.holder] at this
          cases this
        · rcases (l.holder_eq _ _).1 hcase.1 with ⟨-, hr⟩ | ⟨hs, -⟩
          · exact absurd hr.symm (InputRank.link_ne _ .PrimaryOutput)
          · exact hs
      · exact Or.inr ⟨hcase.1, rfl⟩
    · exact haux he
  | plain =>
    rw [hk] at he
    rcases List.mem_append.1 he with he | he
    · obtain ⟨p, hp, rfl⟩ := List.mem_map.1 he
      exact hslot .PrimaryOutput (fun hm => by rw [hm.1] at hk; cases hk) (Option.mem_toList.1 hp)
    · exact haux he
  | mux =>
    rw [hk] at he
    rcases List.mem_append.1 he with he | he
    · obtain ⟨p, hp, rfl⟩ := List.mem_map.1 he
      exact hslot .PrimaryOutput (fun hm => by rw [hm.1] at hk; cases hk) (Option.mem_toList.1 hp)
    · exact haux he

theorem mem_outputLinks (hc : Settled d s) (hl : s.heap p = some l) (hs : l.source = some h) :
    ∃ skip, (p, skip) ∈ d.outputLinks h s := by
  have hhold : l.holder l.sourceOutputRank.link = some h :=
    (l.holder_eq _ _).2 (Or.inr ⟨hs, rfl⟩)
  have hh := hc.held h _ p l hl hhold not_false
  unfold Handlers.outputLinks
  cases hr : l.sourceOutputRank with
  | AuxOutput =>
    rw [hr] at hh
    have hlink : s.links h .AuxOutputLink = some p :=
      (holds_single (fun hset => by cases hset.2) (fun hm => by cases hm.2)).1 hh
    have hmem : (p, false) ∈ (s.links h .AuxOutputLink).toList.map (fun p => (p, false)) := by
      rw [hlink]
      exact List.mem_singleton_self _
    refine ⟨false, ?_⟩
    cases d.kind h <;> exact List.mem_append_right _ hmem
  | PrimaryOutput =>
    rw [hr] at hh
    cases hk : d.kind h with
    | demux =>
      replace hh := (holds_map (d := d) (h := h) (t := .PrimaryOutputLink) ⟨hk, rfl⟩).1 hh
      obtain ⟨e, he, rfl⟩ := List.mem_map.1 hh
      exact ⟨true, List.mem_append_left _ (List.mem_map.2 ⟨e, he, rfl⟩)⟩
    | plain =>
      have hlink : s.links h .PrimaryOutputLink = some p :=
        (holds_single (fun hset => by cases hset.2) (fun hm => by rw [hm.1] at hk; cases hk)).1 hh
      refine ⟨false, List.mem_append_left _ ?_⟩
      rw [hlink]
      exact List.mem_singleton_self _
    | mux =>
      have hlink : s.links h .PrimaryOutputLink = some p :=
        (holds_single (fun hset => by cases hset.2) (fun hm => by rw [hm.1] at hk; cases hk)).1 hh
      refine ⟨false, List.mem_append_left _ ?_⟩
      rw [hlink]
      exact List.mem_singleton_self _

/-! ## One handler after the other -/

section AnyTarget

variable {test : ι → Except Crash Bool} {es : List (ℕ × Bool)} {b : Bool}

/-- The target of a tried link. -/
def Targets (s : Net ι) (es : List (ℕ × Bool)) (t : ι) : Prop :=
  ∃ e ∈ es, ∃ l, s.heap e.1 = some l ∧ l.target = some t

theorem Targets.tail {e : ℕ × Bool} {t : ι} (ht : Targets s es t) : Targets s (e :: es) t := by
  obtain ⟨a, ha, hl⟩ := ht
  exact ⟨a, List.mem_cons_of_mem _ ha, hl⟩

theorem targets_cons {skip : Bool} (hl : s.heap p = some l) {t : ι} :
    Targets s ((p, skip) :: es) t ↔ l.target = some t ∨ Targets s es t := by
  constructor
  · rintro ⟨e, he, l', hl', ht⟩
    rcases List.mem_cons.1 he with rfl | he
    · obtain rfl := Option.some.inj (hl.symm.trans hl')
      exact Or.inl ht
    · exact Or.inr ⟨e, he, l', hl', ht⟩
  · rintro (ht | ht)
    · exact ⟨_, List.mem_cons_self .., l, hl, ht⟩
    · exact ht.tail

/-- An answer of the loop is that of one target, or of all. -/
theorem anyTarget_ok (hrun : Handlers.anyTarget test s es = .ok b) :
    (b = true → ∃ t, Targets s es t ∧ test t = .ok true) ∧
      (b = false → ∀ t, Targets s es t → test t = .ok false) := by
  induction es with
  | nil =>
    obtain rfl := Except.ok.inj hrun
    refine ⟨fun hb => absurd hb Bool.false_ne_true, fun _ t ht => ?_⟩
    obtain ⟨e, he, -⟩ := ht
    exact absurd he List.not_mem_nil
  | cons e es ih =>
    obtain ⟨p, skip⟩ := e
    unfold Handlers.anyTarget at hrun
    obtain ⟨l, hderef, hrun⟩ := Framing.bind_ok hrun
    have hl : s.heap p = some l := by
      unfold Net.deref at hderef
      cases hp : s.heap p with
      | none => rw [hp] at hderef; cases hderef
      | some l' =>
        rw [hp] at hderef
        rw [Except.ok.inj hderef]
    have hrest : Handlers.anyTarget test s es = .ok b → l.target = none ∨
        (∃ t, l.target = some t ∧ test t = .ok false) →
        (b = true → ∃ t, Targets s ((p, skip) :: es) t ∧ test t = .ok true) ∧
        (b = false → ∀ t, Targets s ((p, skip) :: es) t → test t = .ok false) := by
      intro hrun hhead
      obtain ⟨htrue, hfalse⟩ := ih hrun
      refine ⟨fun hb => ?_, fun hb t ht => ?_⟩
      · obtain ⟨t, ht, htest⟩ := htrue hb
        exact ⟨t, ht.tail, htest⟩
      · rcases (targets_cons hl).1 ht with ht | ht
        · rcases hhead with hhead | ⟨t', ht', htest⟩
          · rw [hhead] at ht
            cases ht
          · obtain rfl := Option.some.inj (ht'.symm.trans ht)
            exact htest
        · exact hfalse hb t ht
    cases ht : l.target with
    | none =>
      simp only [ht] at hrun
      split_ifs at hrun
      exact hrest hrun (Or.inl ht)
    | some t =>
      simp only [ht] at hrun
      obtain ⟨found, htest, hrun⟩ := Framing.bind_ok hrun
      cases found with
      | true =>
        simp only [if_true] at hrun
        obtain rfl := Except.ok.inj hrun
        refine ⟨fun _ => ⟨t, (targets_cons hl).2 (Or.inl ht), htest⟩, fun hb => ?_⟩
        exact absurd hb.symm Bool.false_ne_true
      | false =>
        simp only [Bool.false_eq_true, if_false] at hrun
        exact hrest hrun (Or.inr ⟨t, ht, htest⟩)

/-- A crash of the loop is that of one target, when the links are live. -/
theorem anyTarget_error {c : Crash}
    (hlive : ∀ e ∈ es, ∃ l, s.heap e.1 = some l ∧ (l.target.isSome = true ∨ e.2 = true))
    (hrun : Handlers.anyTarget test s es = .error c) : ∃ t, Targets s es t ∧ test t = .error c := by
  induction es with
  | nil => cases hrun
  | cons e es ih =>
    obtain ⟨p, skip⟩ := e
    obtain ⟨l, hl, hends⟩ := hlive (p, skip) (List.mem_cons_self ..)
    have hrest : Handlers.anyTarget test s es = .error c →
        ∃ t, Targets s ((p, skip) :: es) t ∧ test t = .error c := by
      intro hrun
      obtain ⟨t, ht, htest⟩ := ih (fun e he => hlive e (List.mem_cons_of_mem _ he)) hrun
      exact ⟨t, ht.tail, htest⟩
    unfold Handlers.anyTarget at hrun
    simp only [deref_eq hl, bind, Except.bind] at hrun
    cases ht : l.target with
    | none =>
      have hskip : skip = true := by
        rw [ht] at hends
        exact hends.resolve_left Bool.false_ne_true
      simp only [ht, hskip, if_true] at hrun
      exact hrest hrun
    | some t =>
      simp only [ht] at hrun
      cases htest : test t with
      | error c' =>
        simp only [htest] at hrun
        obtain rfl := Except.error.inj hrun
        exact ⟨t, (targets_cons hl).2 (Or.inl ht), htest⟩
      | ok found =>
        simp only [htest] at hrun
        split_ifs at hrun
        exact hrest hrun

end AnyTarget

/-- The targets of a handler's output links. -/
theorem targets_outputLinks (hc : Settled d s) {t : ι} :
    Targets s (d.outputLinks h s) t ↔ Edge s h t := by
  constructor
  · rintro ⟨e, he, l, hl, ht⟩
    obtain ⟨l', hl', hcase⟩ := outputLinks_live hc he
    obtain rfl := Option.some.inj (hl.symm.trans hl')
    rcases hcase with hcase | hcase
    · exact ⟨e.1, l, hl, hcase.2, ht⟩
    · rw [hcase.1.2] at ht
      cases ht
  · rintro ⟨p, l, hl, hs, ht⟩
    obtain ⟨skip, hmem⟩ := mem_outputLinks hc hl hs
    exact ⟨(p, skip), hmem, l, hl, ht⟩

section

variable [DecidableEq ι]

/-- **The search finds what its handler reaches.** -/
theorem isCircularConnection_iff (hc : Settled d s) {k : ℕ} {b : Bool}
    (hrun : d.isCircularConnection s y k x = .ok b) : b = true ↔ Reaches s x y := by
  induction k generalizing x b with
  | zero => cases hrun
  | succ k ih =>
    unfold Handlers.isCircularConnection at hrun
    split_ifs at hrun with heq
    · obtain rfl := Except.ok.inj hrun
      exact iff_of_true rfl (heq ▸ Relation.ReflTransGen.refl)
    · obtain ⟨htrue, hfalse⟩ := anyTarget_ok hrun
      constructor
      · intro hb
        obtain ⟨t, ht, htest⟩ := htrue hb
        exact Relation.ReflTransGen.head ((targets_outputLinks hc).1 ht) ((ih htest).1 rfl)
      · intro hreach
        rcases Relation.ReflTransGen.cases_head hreach with rfl | ⟨t, hedge, hreach⟩
        · exact absurd rfl heq
        · by_contra hb
          have htest := hfalse (Bool.not_eq_true _ ▸ hb) t ((targets_outputLinks hc).2 hedge)
          exact absurd ((ih htest).2 hreach) Bool.false_ne_true

/-- The search does not go wrong. -/
theorem isCircularConnection_error (hc : Settled d s) {k : ℕ} {c : Crash}
    (hrun : d.isCircularConnection s y k x = .error c) : c = .running := by
  induction k generalizing x with
  | zero => exact (Except.error.inj hrun).symm
  | succ k ih =>
    unfold Handlers.isCircularConnection at hrun
    split_ifs at hrun
    have hlive : ∀ e ∈ d.outputLinks x s,
        ∃ l, s.heap e.1 = some l ∧ (l.target.isSome = true ∨ e.2 = true) := by
      intro e he
      obtain ⟨l, hl, hcase⟩ := outputLinks_live hc he
      exact ⟨l, hl, hcase.imp (fun hj => hj.1.2) fun hh => hh.2⟩
    obtain ⟨t, -, htest⟩ := anyTarget_error hlive hrun
    exact ih htest

/-- **The search returns** when no handler reaches itself: its path takes every link at most
once. -/
theorem isCircularConnection_returns (hc : Settled d s) (hacyc : Acyclic s) (x y : ι) :
    ∃ b, d.isCircularConnection s y (s.next + 1) x = .ok b := by
  -- `ps` are the links of the path so far
  have hpath : ∀ (k : ℕ) (ps : List ℕ) (x : ι), ps.Nodup → (∀ p ∈ ps, p < s.next ∧
      ∃ l a, s.heap p = some l ∧ l.source = some a ∧ Relation.TransGen (Edge s) a x) →
      s.next < k + ps.length → ∃ b, d.isCircularConnection s y k x = .ok b := by
    intro k
    induction k with
    | zero =>
      intro ps x hnodup hps hlen
      have hsub : ps ⊆ List.range s.next := fun p hp => List.mem_range.2 (hps p hp).1
      have := (List.subperm_of_subset hnodup hsub).length_le
      rw [List.length_range] at this
      omega
    | succ k ih =>
      intro ps x hnodup hps hlen
      cases hrun : d.isCircularConnection s y (k + 1) x with
      | ok b => exact ⟨b, rfl⟩
      | error c =>
        unfold Handlers.isCircularConnection at hrun
        split_ifs at hrun
        have hlive : ∀ e ∈ d.outputLinks x s,
            ∃ l, s.heap e.1 = some l ∧ (l.target.isSome = true ∨ e.2 = true) := by
          intro e he
          obtain ⟨l, hl, hcase⟩ := outputLinks_live hc he
          exact ⟨l, hl, hcase.imp (fun hj => hj.1.2) fun hh => hh.2⟩
        obtain ⟨t, ht, htest⟩ := anyTarget_error hlive hrun
        obtain ⟨p, l, hl, hs, ht'⟩ := (targets_outputLinks hc).1 ht
        have hedge : Edge s x t := ⟨p, l, hl, hs, ht'⟩
        have hnew : p ∉ ps := by
          intro hp
          obtain ⟨-, l', a, hl', ha, hreach⟩ := hps p hp
          obtain rfl := Option.some.inj (hl.symm.trans hl')
          obtain rfl := Option.some.inj (hs.symm.trans ha)
          exact hacyc x hreach
        have hlt : p < s.next := by
          by_contra hge
          rw [hc.below p (Nat.not_lt.1 hge)] at hl
          cases hl
        obtain ⟨b, hb⟩ := ih (p :: ps) t (List.nodup_cons.2 ⟨hnew, hnodup⟩) (by
          intro q hq
          rcases List.mem_cons.1 hq with rfl | hq
          · exact ⟨hlt, l, x, hl, hs, Relation.TransGen.single hedge⟩
          · obtain ⟨hlt', l', a, hl', ha, hreach⟩ := hps q hq
            exact ⟨hlt', l', a, hl', ha, hreach.tail hedge⟩) (by
          rw [List.length_cons]
          omega)
        rw [hb] at htest
        cases htest
  exact hpath (s.next + 1) [] x List.nodup_nil (fun p hp => absurd hp List.not_mem_nil) (Nat.lt_succ_self _)

end

end LinkGraph

end ChannelEmulator
