import ChannelEmulator.Spec.LinkGraph
import ChannelEmulator.Framing.Run
import Mathlib.Data.List.Nodup
import Mathlib.Tactic.SplitIfs

/-!
# Links and slots stay consistent

* `Consistent`: every slot refers to a live link with that end, and every end of a live link is held
  in its slot; a link that is in a demultiplexer's map but was never connected has no ends.
* `Drops`: links are destroyed, and taken out of the maps.
* `destroy_spec`, `setLink_spec`, `connectSourceToTarget_spec`: **what the private operations do** to a
  consistent net.
-/

namespace ChannelEmulator

namespace LinkGraph

variable {ι : Type} {d : Handlers ι} {s s' : Net ι} {h : ι} {t : LinkType} {p q : ℕ}
  {l : HandlerLink ι}

/-- The handler whose slot of this type refers to the link. -/
def HandlerLink.holder (l : HandlerLink ι) : LinkType → Option ι
  | .PrimaryInputLink => if l.targetInputRank = .PrimaryInput then l.target else none
  | .AuxInputLink => if l.targetInputRank = .AuxInput then l.target else none
  | .PrimaryOutputLink => if l.sourceOutputRank = .PrimaryOutput then l.source else none
  | .AuxOutputLink => if l.sourceOutputRank = .AuxOutput then l.source else none

theorem InputRank.link_ne (r : InputRank) (r' : OutputRank) : r.link ≠ r'.link := by
  cases r <;> cases r' <;> decide

theorem HandlerLink.holder_eq (l : HandlerLink ι) (t : LinkType) (h : ι) :
    l.holder t = some h ↔ (l.target = some h ∧ t = l.targetInputRank.link) ∨
      (l.source = some h ∧ t = l.sourceOutputRank.link) := by
  cases t with
  | PrimaryInputLink => cases hr : l.targetInputRank <;> cases hr' : l.sourceOutputRank <;>
      simp [holder, InputRank.link, OutputRank.link, hr]
  | AuxInputLink => cases hr : l.targetInputRank <;> cases hr' : l.sourceOutputRank <;>
      simp [holder, InputRank.link, OutputRank.link, hr]
  | PrimaryOutputLink => cases hr : l.targetInputRank <;> cases hr' : l.sourceOutputRank <;>
      simp [holder, InputRank.link, OutputRank.link, hr']
  | AuxOutputLink => cases hr : l.targetInputRank <;> cases hr' : l.sourceOutputRank <;>
      simp [holder, InputRank.link, OutputRank.link, hr']

theorem deref_eq (hl : s.heap p = some l) : s.deref p = .ok l := by
  unfold Net.deref
  rw [hl]

/-- A link with both ends. -/
def HandlerLink.Joined (l : HandlerLink ι) : Prop := l.source.isSome ∧ l.target.isSome

/-- A link without ends. -/
def HandlerLink.Half (l : HandlerLink ι) : Prop := l.source = none ∧ l.target = none

theorem HandlerLink.Half.holder (hl : l.Half) (t : LinkType) : l.holder t = none := by
  cases t with
  | PrimaryInputLink => simp only [HandlerLink.holder, hl.2, ite_self]
  | AuxInputLink => simp only [HandlerLink.holder, hl.2, ite_self]
  | PrimaryOutputLink => simp only [HandlerLink.holder, hl.1, ite_self]
  | AuxOutputLink => simp only [HandlerLink.holder, hl.1, ite_self]

theorem HandlerLink.Joined.not_half (hl : l.Joined) : ¬ l.Half := by
  intro hh
  have := hl.1
  rw [hh.1] at this
  exact Bool.false_ne_true this

/-! ## Slots -/

/-- A slot of the handler refers to the link. -/
def Handlers.Holds (d : Handlers ι) (s : Net ι) (h : ι) (t : LinkType) (p : ℕ) : Prop :=
  if d.HasSet h t then p ∈ s.primaryInputLinks h
  else if d.HasMap h t then p ∈ (s.primaryOutputLinks h).map Prod.snd
  else s.links h t = some p

/-- Sets and maps are such, and only the handlers that need them have them. -/
structure Tidy (d : Handlers ι) (s : Net ι) : Prop where
  set : ∀ h, (s.primaryInputLinks h).Nodup
  map : ∀ h, ((s.primaryOutputLinks h).map Prod.snd).Nodup
  keys : ∀ h, (s.primaryOutputLinks h).Pairwise fun a b => a.1 < b.1
  single : ∀ h t, d.HasSet h t ∨ d.HasMap h t → s.links h t = none
  onlySet : ∀ h, d.kind h ≠ .mux → s.primaryInputLinks h = []
  onlyMap : ∀ h, d.kind h ≠ .demux → s.primaryOutputLinks h = []

/-- A slot that is not a set or a map. -/
theorem holds_single (hset : ¬ d.HasSet h t) (hmap : ¬ d.HasMap h t) :
    d.Holds s h t p ↔ s.links h t = some p := by
  unfold Handlers.Holds
  rw [if_neg hset, if_neg hmap]

theorem holds_set (hset : d.HasSet h t) : d.Holds s h t p ↔ p ∈ s.primaryInputLinks h := by
  unfold Handlers.Holds
  rw [if_pos hset]

theorem holds_map (hmap : d.HasMap h t) :
    d.Holds s h t p ↔ p ∈ (s.primaryOutputLinks h).map Prod.snd := by
  have hset : ¬ d.HasSet h t := fun hset => by
    have := hset.1.symm.trans hmap.1
    cases this
  unfold Handlers.Holds
  rw [if_neg hset, if_pos hmap]

/-- What the slots are for is the same. -/
structure SameRest (s s' : Net ι) : Prop where
  next : s'.next = s.next
  output : s'.output = s.output
  outputNames : s'.outputNames = s.outputNames

theorem SameRest.refl (s : Net ι) : SameRest s s := ⟨rfl, rfl, rfl⟩

theorem SameRest.trans {s₁ s₂ s₃ : Net ι} (h : SameRest s₁ s₂) (h' : SameRest s₂ s₃) :
    SameRest s₁ s₃ :=
  ⟨h'.next.trans h.next, h'.output.trans h.output, h'.outputNames.trans h.outputNames⟩

/-! ## Consistency -/

/-- Every slot refers to a live link that has that end, or to a link without ends in its only map;
and an end of a live link that is not `pending` is held in its slot. -/
structure Consistent (d : Handlers ι) (pending : ℕ → LinkType → Prop) (s : Net ι) : Prop
    extends Tidy d s where
  live : ∀ h t p, d.Holds s h t p → ∃ l, s.heap p = some l ∧
    ((l.holder t = some h ∧ ¬ pending p t) ∨ (l.Half ∧ d.HasMap h t))
  held : ∀ h t p l, s.heap p = some l → l.holder t = some h → ¬ pending p t → d.Holds s h t p
  whole : ∀ p l, s.heap p = some l → l.Joined ∨ l.Half
  alone : ∀ p l h t h' t', s.heap p = some l → l.Half → d.Holds s h t p → d.Holds s h' t' p → h = h'
  below : ∀ p, s.next ≤ p → s.heap p = none

/-- The links that are `gone` are destroyed, and out of the maps. -/
structure Drops (gone : ℕ → Prop) (s s' : Net ι) : Prop where
  rest : SameRest s s'
  dead : ∀ q, gone q → s'.heap q = none
  kept : ∀ q, ¬ gone q → s'.heap q = s.heap q
  map : ∀ h e, e ∈ s'.primaryOutputLinks h ↔ e ∈ s.primaryOutputLinks h ∧ ¬ gone e.2

theorem Drops.none {gone : ℕ → Prop} (hgone : ∀ q, ¬ gone q) (s : Net ι) : Drops gone s s :=
  ⟨SameRest.refl s, fun q hq => absurd hq (hgone q), fun _ _ => rfl,
    fun _ e => ⟨fun he => ⟨he, hgone e.2⟩, fun he => he.1⟩⟩

theorem Drops.trans {gone gone' gone'' : ℕ → Prop} {s₁ s₂ s₃ : Net ι} (h : Drops gone s₁ s₂)
    (h' : Drops gone' s₂ s₃) (hor : ∀ q, gone'' q ↔ gone q ∨ gone' q) : Drops gone'' s₁ s₃ where
  rest := h.rest.trans h'.rest
  dead q hq := by
    by_cases hq' : gone' q
    · exact h'.dead q hq'
    · rw [h'.kept q hq']
      exact h.dead q (((hor q).1 hq).resolve_right hq')
  kept q hq := by
    rw [hor, not_or] at hq
    rw [h'.kept q hq.2, h.kept q hq.1]
  map x e := by
    rw [h'.map, h.map, hor, not_or, and_assoc]

theorem Drops.congr {gone gone' : ℕ → Prop} (hd : Drops gone s s') (hiff : ∀ q, gone q ↔ gone' q) :
    Drops gone' s s' :=
  hd.trans (Drops.none (fun _ => not_false) s') fun q => by rw [or_false, hiff]

variable {P : ℕ → LinkType → Prop}

/-- A link in a map. -/
theorem Tidy.holds_of_mem (ht : Tidy d s) {e : Octet × ℕ} (he : e ∈ s.primaryOutputLinks h) :
    d.HasMap h .PrimaryOutputLink ∧ d.Holds s h .PrimaryOutputLink e.2 := by
  have hk : d.kind h = .demux := by
    by_contra hk
    rw [ht.onlyMap h hk] at he
    exact List.not_mem_nil he
  have hmap : d.HasMap h .PrimaryOutputLink := ⟨hk, rfl⟩
  exact ⟨hmap, (holds_map hmap).2 (List.mem_map_of_mem he)⟩

/-- A slot that is neither a set nor a map refers to a link with both ends. -/
theorem Consistent.joined (hc : Consistent d P s) (hmap : ¬ d.HasMap h t)
    (hh : d.Holds s h t p) : ∃ l, s.heap p = some l ∧ l.Joined ∧ l.holder t = some h ∧ ¬ P p t := by
  obtain ⟨l, hl, hcase⟩ := hc.live h t p hh
  rcases hcase with hcase | hcase
  · refine ⟨l, hl, (hc.whole p l hl).resolve_right fun hhalf => ?_, hcase⟩
    have := hcase.1
    rw [hhalf.holder] at this
    cases this
  · exact absurd hcase.2 hmap

/-- Nothing is pending. -/
abbrev Settled (d : Handlers ι) (s : Net ι) : Prop := Consistent d (fun _ _ => False) s

/-- A slot of a settled net, and what is left of it when links are dropped. -/
theorem Drops.holds {gone : ℕ → Prop} (hd : Drops gone s s') (hc : Settled d s)
    (hc' : Settled d s') : d.Holds s' h t q ↔ d.Holds s h t q ∧ ¬ gone q := by
  by_cases hmap : d.HasMap h t
  · rw [holds_map hmap, holds_map hmap, List.mem_map, List.mem_map]
    constructor
    · rintro ⟨e, he, rfl⟩
      rw [hd.map] at he
      exact ⟨⟨e, he.1, rfl⟩, he.2⟩
    · rintro ⟨⟨e, he, rfl⟩, hn⟩
      exact ⟨e, (hd.map h e).2 ⟨he, hn⟩, rfl⟩
  · constructor
    · intro hh
      obtain ⟨l, hl, -, hhold, -⟩ := hc'.joined hmap hh
      have hn : ¬ gone q := by
        intro hq
        rw [hd.dead q hq] at hl
        cases hl
      rw [hd.kept q hn] at hl
      exact ⟨hc.held h t q l hl hhold not_false, hn⟩
    · rintro ⟨hh, hn⟩
      obtain ⟨l, hl, -, hhold, -⟩ := hc.joined hmap hh
      rw [← hd.kept q hn] at hl
      exact hc'.held h t q l hl hhold not_false

theorem Drops.links {gone : ℕ → Prop} (hd : Drops gone s s') (hc : Settled d s)
    (hc' : Settled d s') (hset : ¬ d.HasSet h t) (hmap : ¬ d.HasMap h t) :
    s'.links h t = some q ↔ s.links h t = some q ∧ ¬ gone q := by
  rw [← holds_single hset hmap, ← holds_single hset hmap]
  exact hd.holds hc hc'

variable {x y : ι} {outRank : OutputRank} {inRank : InputRank}

theorem not_hasSet_output (h : ι) (r : OutputRank) : ¬ d.HasSet h r.link :=
  fun hset => InputRank.link_ne .PrimaryInput r hset.2.symm

theorem not_hasMap_input (h : ι) (r : InputRank) : ¬ d.HasMap h r.link :=
  fun hmap => InputRank.link_ne r .PrimaryOutput hmap.2

/-- The link from `x` to `y`. -/
def between (x y : ι) (outRank : OutputRank) (inRank : InputRank) : HandlerLink ι :=
  { source := some x, sourceOutputRank := outRank, target := some y, targetInputRank := inRank }

theorem between_input : (between x y outRank inRank).holder inRank.link = some y :=
  (HandlerLink.holder_eq _ _ _).2 (Or.inl ⟨rfl, rfl⟩)

theorem between_output : (between x y outRank inRank).holder outRank.link = some x :=
  (HandlerLink.holder_eq _ _ _).2 (Or.inr ⟨rfl, rfl⟩)

theorem between_holder : (between x y outRank inRank).holder t = some h ↔
    (y = h ∧ t = inRank.link) ∨ (x = h ∧ t = outRank.link) := by
  rw [HandlerLink.holder_eq]
  simp only [between, Option.some.injEq]

theorem setHeap_self (s : Net ι) (p : ℕ) (v : Option (HandlerLink ι)) :
    (s.setHeap p v).heap p = v := Function.update_self ..

theorem setHeap_of_ne (hq : q ≠ p) (v : Option (HandlerLink ι)) :
    (s.setHeap p v).heap q = s.heap q := Function.update_of_ne hq ..

/-- A link is given its ends, which are pending but for one that is in a map already. -/
theorem Consistent.join (y : ι) (inRank : InputRank) (hc : Settled d s)
    (hheld : ∀ h t, d.Holds s h t p ↔ d.HasMap x outRank.link ∧ h = x ∧ t = outRank.link)
    (hlt : p < s.next) :
    Consistent d (fun q t => q = p ∧ (t = inRank.link ∨ t = outRank.link ∧ ¬ d.HasMap x t))
      (s.setHeap p (some (between x y outRank inRank))) where
  toTidy := ⟨hc.set, hc.map, hc.keys, hc.single, hc.onlySet, hc.onlyMap⟩
  live := by
    intro h t q hh
    replace hh : d.Holds s h t q := hh
    by_cases hq : q = p
    · subst hq
      obtain ⟨hmap, rfl, rfl⟩ := (hheld h t).1 hh
      refine ⟨_, setHeap_self .., Or.inl ⟨between_output, ?_⟩⟩
      rintro ⟨-, hin | hout⟩
      · exact InputRank.link_ne _ _ hin.symm
      · exact hout.2 hmap
    · obtain ⟨l, hl, hcase⟩ := hc.live h t q hh
      refine ⟨l, (setHeap_of_ne hq _).trans hl, hcase.imp ?_ id⟩
      exact fun hcase => ⟨hcase.1, fun hn => hq hn.1⟩
  held := by
    intro h t q l hl ht hpend
    show d.Holds s h t q
    by_cases hq : q = p
    · subst hq
      obtain rfl := Option.some.inj ((setHeap_self ..).symm.trans hl)
      rcases between_holder.1 ht with ⟨rfl, rfl⟩ | ⟨rfl, rfl⟩
      · exact absurd ⟨rfl, Or.inl rfl⟩ hpend
      · rw [hheld]
        refine ⟨?_, rfl, rfl⟩
        by_contra hmap
        exact hpend ⟨rfl, Or.inr ⟨rfl, hmap⟩⟩
    · exact hc.held h t q l ((setHeap_of_ne hq _).symm.trans hl) ht not_false
  whole := by
    intro q l hl
    by_cases hq : q = p
    · subst hq
      obtain rfl := Option.some.inj ((setHeap_self ..).symm.trans hl)
      exact Or.inl ⟨rfl, rfl⟩
    · exact hc.whole q l ((setHeap_of_ne hq _).symm.trans hl)
  alone := by
    intro q l h t h' t' hl hhalf
    have hq : q ≠ p := by
      rintro rfl
      obtain rfl := Option.some.inj ((setHeap_self ..).symm.trans hl)
      cases hhalf.1
    exact hc.alone q l h t h' t' ((setHeap_of_ne hq _).symm.trans hl) hhalf
  below := by
    intro q hq
    have hne : q ≠ p := by
      rintro rfl
      exact absurd hlt (Nat.not_lt.2 hq)
    exact (setHeap_of_ne hne _).trans (hc.below q hq)

theorem Consistent.mono {P' : ℕ → LinkType → Prop} (hc : Consistent d P s)
    (hiff : ∀ q t, P q t ↔ P' q t) : Consistent d P' s := by
  have heq : P = P' := funext fun q => funext fun t => propext (hiff q t)
  rw [← heq]
  exact hc

theorem Consistent.fresh (hc : Settled d s) : ¬ d.Holds s h t s.next := by
  intro hh
  obtain ⟨l, hl, -⟩ := hc.live h t s.next hh
  rw [hc.below s.next (Nat.le_refl _)] at hl
  cases hl

/-- A link without ends that no slot refers to. -/
theorem Consistent.alloc (hc : Settled d s) : Settled d s.alloc where
  toTidy := ⟨hc.set, hc.map, hc.keys, hc.single, hc.onlySet, hc.onlyMap⟩
  live := by
    intro h t q hh
    replace hh : d.Holds s h t q := hh
    obtain ⟨l, hl, hcase⟩ := hc.live h t q hh
    have hq : q ≠ s.next := by
      rintro rfl
      exact hc.fresh hh
    exact ⟨l, (setHeap_of_ne hq _).trans hl, hcase⟩
  held := by
    intro h t q l hl ht hpend
    have hq : q ≠ s.next := by
      rintro rfl
      obtain rfl := Option.some.inj ((setHeap_self ..).symm.trans hl)
      rw [HandlerLink.Half.holder ⟨rfl, rfl⟩] at ht
      cases ht
    exact hc.held h t q l ((setHeap_of_ne hq _).symm.trans hl) ht hpend
  whole := by
    intro q l hl
    by_cases hq : q = s.next
    · subst hq
      obtain rfl := Option.some.inj ((setHeap_self ..).symm.trans hl)
      exact Or.inr ⟨rfl, rfl⟩
    · exact hc.whole q l ((setHeap_of_ne hq _).symm.trans hl)
  alone := by
    intro q l h t h' t' hl hhalf hh hh'
    have hq : q ≠ s.next := by
      rintro rfl
      exact hc.fresh hh
    exact hc.alone q l h t h' t' ((setHeap_of_ne hq _).symm.trans hl) hhalf hh hh'
  below := by
    intro q hq
    have hlt : s.next < q := hq
    exact (setHeap_of_ne (Nat.ne_of_gt hlt) _).trans (hc.below q (Nat.le_of_lt hlt))

/-- A link that no slot refers to is freed. -/
theorem Consistent.free (hc : Settled d s) (hfree : ∀ h t, ¬ d.Holds s h t p) :
    Settled d (s.setHeap p none) where
  toTidy := ⟨hc.set, hc.map, hc.keys, hc.single, hc.onlySet, hc.onlyMap⟩
  live := by
    intro h t q hh
    replace hh : d.Holds s h t q := hh
    obtain ⟨l, hl, hcase⟩ := hc.live h t q hh
    have hq : q ≠ p := by
      rintro rfl
      exact hfree h t hh
    exact ⟨l, (setHeap_of_ne hq _).trans hl, hcase⟩
  held := by
    intro h t q l hl ht hpend
    have hq : q ≠ p := by
      rintro rfl
      rw [setHeap_self] at hl
      cases hl
    exact hc.held h t q l ((setHeap_of_ne hq _).symm.trans hl) ht hpend
  whole := by
    intro q l hl
    have hq : q ≠ p := by
      rintro rfl
      rw [setHeap_self] at hl
      cases hl
    exact hc.whole q l ((setHeap_of_ne hq _).symm.trans hl)
  alone := by
    intro q l h t h' t' hl hhalf hh hh'
    have hq : q ≠ p := by
      rintro rfl
      exact hfree h t hh
    exact hc.alone q l h t h' t' ((setHeap_of_ne hq _).symm.trans hl) hhalf hh hh'
  below := by
    intro q hq
    by_cases hqp : q = p
    · rw [hqp]
      exact setHeap_self ..
    · exact (setHeap_of_ne hqp _).trans (hc.below q hq)

/-! ## Maps -/

/-- An assignment writes over the entry of the key. -/
theorem mem_assign {id : Octet} {es : List (Octet × ℕ)} (hes : es.Pairwise fun a b => a.1 < b.1)
    (e : Octet × ℕ) : e ∈ assign id p es ↔ e = (id, p) ∨ e ∈ es ∧ e.1 ≠ id := by
  induction es with
  | nil => simp only [assign, List.mem_singleton, List.not_mem_nil, false_and, or_false]
  | cons a es ih =>
    rw [List.pairwise_cons] at hes
    unfold assign
    split_ifs with heq hlt
    · rw [List.mem_cons, List.mem_cons]
      constructor
      · rintro (rfl | he)
        · exact Or.inl rfl
        · refine Or.inr ⟨Or.inr he, fun hid => ?_⟩
          have := hes.1 e he
          rw [heq, hid] at this
          exact absurd this (UInt8.lt_irrefl _)
      · rintro (rfl | ⟨rfl | he, hne⟩)
        · exact Or.inl rfl
        · exact absurd heq hne
        · exact Or.inr he
    · rw [List.mem_cons, List.mem_cons]
      constructor
      · rintro (rfl | rfl | he)
        · exact Or.inl rfl
        · exact Or.inr ⟨Or.inl rfl, heq⟩
        · refine Or.inr ⟨Or.inr he, fun hid => ?_⟩
          have := UInt8.lt_trans hlt (hes.1 e he)
          rw [hid] at this
          exact absurd this (UInt8.lt_irrefl _)
      · rintro (rfl | ⟨he, -⟩)
        · exact Or.inl rfl
        · exact Or.inr he
    · rw [List.mem_cons, ih hes.2, List.mem_cons]
      constructor
      · rintro (rfl | rfl | ⟨he, hne⟩)
        · exact Or.inr ⟨Or.inl rfl, heq⟩
        · exact Or.inl rfl
        · exact Or.inr ⟨Or.inr he, hne⟩
      · rintro (rfl | ⟨rfl | he, hne⟩)
        · exact Or.inr (Or.inl rfl)
        · exact Or.inl rfl
        · exact Or.inr (Or.inr ⟨he, hne⟩)

theorem pairwise_assign {id : Octet} {es : List (Octet × ℕ)}
    (hes : es.Pairwise fun a b => a.1 < b.1) :
    (assign id p es).Pairwise fun a b => a.1 < b.1 := by
  induction es with
  | nil => exact List.pairwise_singleton _ _
  | cons a es ih =>
    have hes' := List.pairwise_cons.1 hes
    unfold assign
    split_ifs with heq hlt
    · rw [List.pairwise_cons]
      refine ⟨fun e he => ?_, hes'.2⟩
      have := hes'.1 e he
      rw [heq] at this
      exact this
    · rw [List.pairwise_cons]
      refine ⟨fun e he => ?_, hes⟩
      rcases List.mem_cons.1 he with rfl | he
      · exact hlt
      · exact UInt8.lt_trans hlt (hes'.1 e he)
    · rw [List.pairwise_cons]
      refine ⟨fun e he => ?_, ih hes'.2⟩
      rcases (mem_assign hes'.2 e).1 he with rfl | ⟨he, -⟩
      · rcases UInt8.lt_or_eq_of_le (UInt8.not_lt.1 hlt) with hlt' | heq'
        · exact hlt'
        · exact absurd heq' heq
      · exact hes'.1 e he

/-- An assignment forgets the entry that it writes over. -/
theorem assign_filter {id : Octet} {es : List (Octet × ℕ)}
    (hes : es.Pairwise fun a b => a.1 < b.1) :
    assign id p (es.filter fun e => e.1 ≠ id) = assign id p es := by
  induction es with
  | nil => rfl
  | cons a es ih =>
    rw [List.pairwise_cons] at hes
    have hself : (es.filter fun e => e.1 ≠ id) = es ∨ ¬ (a.1 = id ∨ id < a.1) := by
      by_cases hle : a.1 = id ∨ id < a.1
      · refine Or.inl (List.filter_eq_self.2 fun e he => ?_)
        have hlt := hes.1 e he
        rw [decide_eq_true_eq]
        rintro rfl
        rcases hle with heq | hlt'
        · rw [heq] at hlt
          exact UInt8.lt_irrefl _ hlt
        · exact UInt8.lt_irrefl _ (UInt8.lt_trans hlt hlt')
      · exact Or.inr hle
    by_cases heq : a.1 = id
    · have hes' := hself.resolve_right fun hn => hn (Or.inl heq)
      rw [List.filter_cons_of_neg (by simpa using heq), hes', assign, if_pos heq]
      cases es with
      | nil => rfl
      | cons b es =>
        have hlt := hes.1 b (List.mem_cons_self ..)
        rw [heq] at hlt
        have hne : ¬ b.1 = id := by
          intro hb
          rw [hb] at hlt
          exact UInt8.lt_irrefl _ hlt
        rw [assign, if_neg hne, if_pos hlt]
    · rw [List.filter_cons_of_pos (by simpa using heq)]
      unfold assign
      rw [if_neg heq, if_neg heq]
      by_cases hlt : id < a.1
      · have hes' := hself.resolve_right fun hn => hn (Or.inr hlt)
        rw [if_pos hlt, if_pos hlt, hes']
      · rw [if_neg hlt, if_neg hlt, ih hes.2]

theorem mem_of_mem_assign {id : Octet} {es : List (Octet × ℕ)} {e : Octet × ℕ}
    (he : e ∈ assign id p es) : e = (id, p) ∨ e ∈ es := by
  induction es with
  | nil => exact Or.inl (List.mem_singleton.1 he)
  | cons b es ih =>
    unfold assign at he
    split_ifs at he
    · rcases List.mem_cons.1 he with rfl | he
      · exact Or.inl rfl
      · exact Or.inr (List.mem_cons_of_mem _ he)
    · rcases List.mem_cons.1 he with rfl | he
      · exact Or.inl rfl
      · exact Or.inr he
    · rcases List.mem_cons.1 he with rfl | he
      · exact Or.inr (List.mem_cons_self ..)
      · rcases ih he with rfl | he
        · exact Or.inl rfl
        · exact Or.inr (List.mem_cons_of_mem _ he)

/-- The pointers of a map stay different when a new one is assigned. -/
theorem nodup_assign {id : Octet} {es : List (Octet × ℕ)}
    (hes : (es.map Prod.snd).Nodup) (hp : p ∉ es.map Prod.snd) :
    ((assign id p es).map Prod.snd).Nodup := by
  induction es with
  | nil => exact List.nodup_singleton p
  | cons a es ih =>
    rw [List.map_cons, List.nodup_cons] at hes
    rw [List.map_cons, List.mem_cons, not_or] at hp
    unfold assign
    split_ifs with heq hlt
    · exact List.nodup_cons.2 ⟨hp.2, hes.2⟩
    · apply List.nodup_cons.2
      refine ⟨?_, List.nodup_cons.2 hes⟩
      rw [List.map_cons, List.mem_cons, not_or]
      exact hp
    · apply List.nodup_cons.2
      refine ⟨?_, ih hes.2 hp.2⟩
      intro ha
      obtain ⟨e, he, hea⟩ := List.mem_map.1 ha
      rcases mem_of_mem_assign he with rfl | he
      · exact hp.1 hea
      · exact hes.1 (hea ▸ List.mem_map_of_mem he)

/-- The entry of an identifier. -/
theorem lookup_mem {id : Octet} {es : List (Octet × ℕ)} (hl : es.lookup id = some p) :
    (id, p) ∈ es := by
  induction es with
  | nil => cases hl
  | cons e es ih =>
    obtain ⟨a, q⟩ := e
    rw [List.lookup_cons] at hl
    by_cases ha : id = a
    · subst ha
      simp only [beq_self_eq_true] at hl
      obtain rfl := Option.some.inj hl
      exact List.mem_cons_self ..
    · simp only [beq_eq_false_iff_ne.2 ha] at hl
      exact List.mem_cons_of_mem _ (ih hl)

theorem lookup_none {id : Octet} {es : List (Octet × ℕ)} (hl : es.lookup id = none) :
    ∀ e ∈ es, e.1 ≠ id := by
  induction es with
  | nil => exact fun e he => absurd he List.not_mem_nil
  | cons e es ih =>
    obtain ⟨a, q⟩ := e
    rw [List.lookup_cons] at hl
    by_cases ha : id = a
    · subst ha
      simp only [beq_self_eq_true, reduceCtorEq] at hl
    · simp only [beq_eq_false_iff_ne.2 ha] at hl
      intro e he
      rcases List.mem_cons.1 he with rfl | he
      · exact fun h => ha h.symm
      · exact ih hl e he

/-- Two entries of one identifier. -/
theorem Tidy.key_unique (ht : Tidy d s) {e e' : Octet × ℕ} (he : e ∈ s.primaryOutputLinks h)
    (he' : e' ∈ s.primaryOutputLinks h) (hk : e.1 = e'.1) : e = e' := by
  have hsorted := ht.keys h
  generalize s.primaryOutputLinks h = es at he he' hsorted
  have hne : ∀ a b : Octet × ℕ, a.1 < b.1 → a.1 ≠ b.1 := by
    intro a b hlt heq
    rw [heq] at hlt
    exact UInt8.lt_irrefl _ hlt
  induction es with
  | nil => exact absurd he List.not_mem_nil
  | cons a es ih =>
    rw [List.pairwise_cons] at hsorted
    rcases List.mem_cons.1 he with hea | hmem
    · rcases List.mem_cons.1 he' with hea' | hmem'
      · rw [hea, hea']
      · rw [hea] at hk
        exact absurd hk (hne _ _ (hsorted.1 e' hmem'))
    · rcases List.mem_cons.1 he' with hea' | hmem'
      · rw [hea'] at hk
        exact absurd hk.symm (hne _ _ (hsorted.1 e hmem))
      · exact ih hmem hmem' hsorted.2

/-- Two entries of one link. -/
theorem Tidy.link_unique (ht : Tidy d s) {e e' : Octet × ℕ} (he : e ∈ s.primaryOutputLinks h)
    (he' : e' ∈ s.primaryOutputLinks h) (hp : e.2 = e'.2) : e = e' :=
  List.inj_on_of_nodup_map (ht.map h) he he' hp

/-- Some links are dropped. -/
def Shrinks (s s' : Net ι) : Prop := ∃ gone, Drops gone s s'

theorem Shrinks.refl (s : Net ι) : Shrinks s s := ⟨_, Drops.none (fun _ => not_false) s⟩

theorem Shrinks.trans {s₁ s₂ s₃ : Net ι} (h : Shrinks s₁ s₂) (h' : Shrinks s₂ s₃) :
    Shrinks s₁ s₃ := by
  obtain ⟨gone, hd⟩ := h
  obtain ⟨gone', hd'⟩ := h'
  exact ⟨fun q => gone q ∨ gone' q, hd.trans hd' fun _ => Iff.rfl⟩

/-- The links of `ps` are freed, whatever refers to them. -/
def kill (ps : List ℕ) (s : Net ι) : Net ι :=
  { s with heap := fun q => if q ∈ ps then none else s.heap q }

theorem kill_snoc (ps : List ℕ) (p : ℕ) (s : Net ι) :
    (kill ps s).setHeap p none = kill (ps ++ [p]) s := by
  unfold kill Net.setHeap
  congr 1
  funext q
  by_cases hq : q = p
  · subst hq
    simp only [Function.update_self, List.mem_append, List.mem_singleton, or_true, if_true]
  · simp only [Function.update_of_ne hq, List.mem_append, List.mem_singleton, hq, or_false]

section

variable [DecidableEq ι]

theorem holds_setSlot (hset : ¬ d.HasSet h t) (hmap : ¬ d.HasMap h t) (v : Option ℕ) (h' : ι)
    (t' : LinkType) (q : ℕ) :
    d.Holds (s.setSlot h t v) h' t' q ↔
      if h' = h ∧ t' = t then v = some q else d.Holds s h' t' q := by
  split_ifs with heq
  · obtain ⟨rfl, rfl⟩ := heq
    unfold Handlers.Holds Net.setSlot
    rw [if_neg hset, if_neg hmap]
    simp only [Function.update_self]
  · have hlinks : (s.setSlot h t v).links h' t' = s.links h' t' := by
      unfold Net.setSlot
      by_cases hh : h' = h
      · subst hh
        have ht : t' ≠ t := fun ht => heq ⟨rfl, ht⟩
        simp only [Function.update_self, Function.update_of_ne ht]
      · simp only [Function.update_of_ne hh]
    unfold Handlers.Holds
    rw [hlinks]
    rfl

theorem holds_setInputs (hmux : d.kind h = .mux) (ps : List ℕ) (h' : ι) (t' : LinkType) (q : ℕ) :
    d.Holds (s.setInputs h ps) h' t' q ↔
      if h' = h ∧ t' = .PrimaryInputLink then q ∈ ps else d.Holds s h' t' q := by
  split_ifs with heq
  · obtain ⟨rfl, rfl⟩ := heq
    unfold Handlers.Holds Net.setInputs
    rw [if_pos ⟨hmux, rfl⟩]
    simp only [Function.update_self]
  · by_cases hset : d.HasSet h' t'
    · have hne : h' ≠ h := fun hh => heq ⟨hh, hset.2⟩
      unfold Handlers.Holds Net.setInputs
      rw [if_pos hset, if_pos hset]
      simp only [Function.update_of_ne hne]
    · unfold Handlers.Holds
      rw [if_neg hset, if_neg hset]
      rfl

theorem holds_setOutputs (hdemux : d.kind h = .demux) (es : List (Octet × ℕ)) (h' : ι)
    (t' : LinkType) (q : ℕ) :
    d.Holds (s.setOutputs h es) h' t' q ↔
      if h' = h ∧ t' = .PrimaryOutputLink then q ∈ es.map Prod.snd else d.Holds s h' t' q := by
  split_ifs with heq
  · obtain ⟨rfl, rfl⟩ := heq
    unfold Handlers.Holds Net.setOutputs
    rw [if_neg (fun hset => by simp [Handlers.HasSet] at hset), if_pos ⟨hdemux, rfl⟩]
    simp only [Function.update_self]
  · by_cases hmap : d.HasMap h' t'
    · have hne : h' ≠ h := fun hh => heq ⟨hh, hmap.2⟩
      have hset : ¬ d.HasSet h' t' := fun hset => by
        have := hset.1.symm.trans hmap.1
        cases this
      unfold Handlers.Holds Net.setOutputs
      rw [if_neg hset, if_neg hset, if_pos hmap, if_pos hmap]
      simp only [Function.update_of_ne hne]
    · unfold Handlers.Holds
      rw [if_neg hmap, if_neg hmap]
      rfl

theorem Tidy.setSlot (ht : Tidy d s) (hset : ¬ d.HasSet h t) (hmap : ¬ d.HasMap h t)
    (v : Option ℕ) : Tidy d (s.setSlot h t v) where
  set := ht.set
  map := ht.map
  keys := ht.keys
  single h' t' hst := by
    have hne : ¬ (h' = h ∧ t' = t) := by
      rintro ⟨rfl, rfl⟩
      exact hst.elim hset hmap
    have := ht.single h' t' hst
    unfold Net.setSlot
    by_cases hh : h' = h
    · subst hh
      have htt : t' ≠ t := fun htt => hne ⟨rfl, htt⟩
      simp only [Function.update_self, Function.update_of_ne htt]
      exact this
    · simp only [Function.update_of_ne hh]
      exact this
  onlySet := ht.onlySet
  onlyMap := ht.onlyMap

theorem Tidy.setInputs (ht : Tidy d s) (hmux : d.kind h = .mux) {ps : List ℕ} (hps : ps.Nodup) :
    Tidy d (s.setInputs h ps) where
  set h' := by
    unfold Net.setInputs
    by_cases hh : h' = h
    · subst hh
      simp only [Function.update_self]
      exact hps
    · simp only [Function.update_of_ne hh]
      exact ht.set h'
  map := ht.map
  keys := ht.keys
  single := ht.single
  onlySet h' hk := by
    have hh : h' ≠ h := fun hh => hk (hh ▸ hmux)
    unfold Net.setInputs
    simp only [Function.update_of_ne hh]
    exact ht.onlySet h' hk
  onlyMap := ht.onlyMap

theorem Tidy.setOutputs (ht : Tidy d s) (hdemux : d.kind h = .demux) {es : List (Octet × ℕ)}
    (hes : (es.map Prod.snd).Nodup) (hkeys : es.Pairwise fun a b => a.1 < b.1) :
    Tidy d (s.setOutputs h es) where
  set := ht.set
  map h' := by
    unfold Net.setOutputs
    by_cases hh : h' = h
    · subst hh
      simp only [Function.update_self]
      exact hes
    · simp only [Function.update_of_ne hh]
      exact ht.map h'
  keys h' := by
    unfold Net.setOutputs
    by_cases hh : h' = h
    · subst hh
      simp only [Function.update_self]
      exact hkeys
    · simp only [Function.update_of_ne hh]
      exact ht.keys h'
  single := ht.single
  onlySet := ht.onlySet
  onlyMap h' hk := by
    have hh : h' ≠ h := fun hh => hk (hh ▸ hdemux)
    unfold Net.setOutputs
    simp only [Function.update_of_ne hh]
    exact ht.onlyMap h' hk

/-! ## Unsetting a slot -/

/-- The elements of a map that are left when a pointer is erased. -/
theorem mem_eraseP_snd {es : List (Octet × ℕ)} (hes : (es.map Prod.snd).Nodup) (p : ℕ)
    (e : Octet × ℕ) : e ∈ es.eraseP (fun e => e.2 = p) ↔ e ∈ es ∧ e.2 ≠ p := by
  induction es with
  | nil => simp only [List.eraseP_nil, List.not_mem_nil, false_and]
  | cons a es ih =>
    rw [List.map_cons, List.nodup_cons] at hes
    rw [List.eraseP_cons]
    by_cases ha : a.2 = p
    · simp only [ha, decide_true, cond_true, List.mem_cons]
      constructor
      · intro he
        refine ⟨Or.inr he, fun hp => hes.1 ?_⟩
        rw [ha, ← hp]
        exact List.mem_map_of_mem he
      · rintro ⟨rfl | he, hp⟩
        · exact absurd ha hp
        · exact he
    · simp only [ha, decide_false, cond_false, List.mem_cons, ih hes.2]
      constructor
      · rintro (rfl | he)
        · exact ⟨Or.inl rfl, ha⟩
        · exact ⟨Or.inr he.1, he.2⟩
      · rintro ⟨rfl | he, hp⟩
        · exact Or.inl rfl
        · exact Or.inr ⟨he, hp⟩

/-- A slot that refers to the link `p` is unset, and no other. -/
structure Unset (d : Handlers ι) (h : ι) (t : LinkType) (p : ℕ) (s s' : Net ι) : Prop where
  tidy : Tidy d s'
  rest : SameRest s s'
  heap : s'.heap = s.heap
  holds : ∀ h' t' q, d.Holds s' h' t' q ↔ d.Holds s h' t' q ∧ ¬ (h' = h ∧ t' = t ∧ q = p)
  map : ∀ h' e, e ∈ s'.primaryOutputLinks h' ↔
    e ∈ s.primaryOutputLinks h' ∧ ¬ (h' = h ∧ d.HasMap h t ∧ e.2 = p)

theorem unsetLink_spec (ht : Tidy d s) (hh : d.Holds s h t p) :
    ∃ s', d.unsetLink h t p s = .ok s' ∧ Unset d h t p s s' := by
  unfold Handlers.unsetLink
  by_cases hset : d.HasSet h t
  · rw [if_pos hset]
    have hnomap : ¬ d.HasMap h t := fun hmap => by
      have := hset.1.symm.trans hmap.1
      cases this
    refine ⟨_, rfl, ht.setInputs hset.1 ((ht.set h).erase p), ⟨rfl, rfl, rfl⟩, rfl, ?_, ?_⟩
    · intro h' t' q
      rw [holds_setInputs hset.1]
      split_ifs with heq
      · obtain ⟨rfl, ht'⟩ := heq
        obtain rfl : t' = t := ht'.trans hset.2.symm
        rw [holds_set hset, (ht.set h').mem_erase_iff]
        simp only [true_and]
        exact and_comm
      · rw [← hset.2] at heq
        exact ⟨fun hq => ⟨hq, fun hn => heq ⟨hn.1, hn.2.1⟩⟩, fun hq => hq.1⟩
    · exact fun h' e => ⟨fun he => ⟨he, fun hn => hnomap hn.2.1⟩, fun he => he.1⟩
  rw [if_neg hset]
  by_cases hmap : d.HasMap h t
  · rw [if_pos hmap]
    have hmem := (holds_map hmap).1 hh
    rw [if_pos hmem]
    have herase := mem_eraseP_snd (ht.map h) p
    have hsub : List.Sublist ((s.primaryOutputLinks h).eraseP fun e => e.2 = p)
        (s.primaryOutputLinks h) := List.eraseP_sublist
    refine ⟨_, rfl, ht.setOutputs hmap.1 ((ht.map h).sublist (hsub.map _)) ((ht.keys h).sublist hsub),
      ⟨rfl, rfl, rfl⟩, rfl, ?_, ?_⟩
    · intro h' t' q
      rw [holds_setOutputs hmap.1]
      split_ifs with heq
      · obtain ⟨rfl, ht'⟩ := heq
        obtain rfl : t' = t := ht'.trans hmap.2.symm
        rw [holds_map hmap, List.mem_map, List.mem_map]
        simp only [herase, true_and]
        constructor
        · rintro ⟨e, ⟨he, hp⟩, rfl⟩
          exact ⟨⟨e, he, rfl⟩, hp⟩
        · rintro ⟨⟨e, he, rfl⟩, hp⟩
          exact ⟨e, ⟨he, hp⟩, rfl⟩
      · rw [← hmap.2] at heq
        exact ⟨fun hq => ⟨hq, fun hn => heq ⟨hn.1, hn.2.1⟩⟩, fun hq => hq.1⟩
    · intro h' e
      unfold Net.setOutputs
      by_cases hh' : h' = h
      · subst hh'
        simp only [Function.update_self, herase, true_and, hmap]
      · simp only [Function.update_of_ne hh', hh', false_and, not_false_eq_true, and_true]
  · rw [if_neg hmap]
    refine ⟨_, rfl, ht.setSlot hset hmap none, ⟨rfl, rfl, rfl⟩, rfl, ?_, ?_⟩
    · intro h' t' q
      rw [holds_setSlot hset hmap]
      split_ifs with heq
      · obtain ⟨rfl, rfl⟩ := heq
        rw [holds_single hset hmap] at hh ⊢
        rw [hh]
        simp only [true_and, false_iff, not_and, not_not, Option.some.injEq]
        exact Eq.symm
      · exact ⟨fun hq => ⟨hq, fun hn => heq ⟨hn.1, hn.2.1⟩⟩, fun hq => hq.1⟩
    · exact fun h' e => ⟨fun he => ⟨he, fun hn => hmap hn.2.1⟩, fun he => he.1⟩

theorem unsetEnd_spec {x : Option ι} (ht : Tidy d s) (hh : ∀ h, x = some h → d.Holds s h t p) :
    ∃ s', d.unsetEnd x t p s = .ok s' ∧ Tidy d s' ∧ SameRest s s' ∧ s'.heap = s.heap ∧
      (∀ h' t' q, d.Holds s' h' t' q ↔ d.Holds s h' t' q ∧ ¬ (x = some h' ∧ t' = t ∧ q = p)) ∧
      ∀ h' e, e ∈ s'.primaryOutputLinks h' ↔
        e ∈ s.primaryOutputLinks h' ∧ ¬ (x = some h' ∧ d.HasMap h' t ∧ e.2 = p) := by
  cases x with
  | none =>
    refine ⟨s, rfl, ht, SameRest.refl s, rfl, fun h' t' q => ?_, fun h' e => ?_⟩
    · simp only [reduceCtorEq, false_and, not_false_eq_true, and_true]
    · simp only [reduceCtorEq, false_and, not_false_eq_true, and_true]
  | some h =>
    obtain ⟨s', hs', hu⟩ := unsetLink_spec ht (hh h rfl)
    refine ⟨s', hs', hu.tidy, hu.rest, hu.heap, fun h' t' q => ?_, fun h' e => ?_⟩
    · rw [hu.holds, Option.some.injEq, eq_comm (a := h)]
    · rw [hu.map, Option.some.injEq]
      constructor
      · rintro ⟨he, hn⟩
        refine ⟨he, ?_⟩
        rintro ⟨rfl, hm, hp⟩
        exact hn ⟨rfl, hm, hp⟩
      · rintro ⟨he, hn⟩
        refine ⟨he, ?_⟩
        rintro ⟨rfl, hm, hp⟩
        exact hn ⟨rfl, hm, hp⟩

/-! ## Destroying a link -/

/-- The link `p` is destroyed, and its ends are unset. -/
structure Destroyed (d : Handlers ι) (p : ℕ) (l : HandlerLink ι) (s s' : Net ι) : Prop where
  tidy : Tidy d s'
  rest : SameRest s s'
  heap : s'.heap = Function.update s.heap p none
  holds : ∀ h t q, d.Holds s' h t q ↔ d.Holds s h t q ∧ ¬ (l.holder t = some h ∧ q = p)
  map : ∀ h e, e ∈ s'.primaryOutputLinks h ↔ e ∈ s.primaryOutputLinks h ∧
    ¬ (l.holder .PrimaryOutputLink = some h ∧ d.kind h = .demux ∧ e.2 = p)

theorem destroy_spec (ht : Tidy d s) (hl : s.heap p = some l)
    (hh : ∀ h t, l.holder t = some h → d.Holds s h t p) :
    ∃ s', d.destroy p s = .ok s' ∧ Destroyed d p l s s' := by
  obtain ⟨s₁, hs₁, ht₁, hr₁, hheap₁, hholds₁, hmap₁⟩ := unsetEnd_spec (x := l.target)
    (t := l.targetInputRank.link) (p := p) ht
    (fun h hx => hh h _ ((l.holder_eq _ h).2 (Or.inl ⟨hx, rfl⟩)))
  have hsource : ∀ h, l.source = some h → d.Holds s₁ h l.sourceOutputRank.link p := by
    intro h hx
    rw [hholds₁]
    refine ⟨hh h _ ((l.holder_eq _ h).2 (Or.inr ⟨hx, rfl⟩)), fun hn => ?_⟩
    exact InputRank.link_ne _ _ hn.2.1.symm
  obtain ⟨s₂, hs₂, ht₂, hr₂, hheap₂, hholds₂, hmap₂⟩ := unsetEnd_spec (x := l.source)
    (t := l.sourceOutputRank.link) (p := p) ht₁ hsource
  have hr := hr₁.trans hr₂
  refine ⟨s₂.setHeap p none, ?_, ⟨ht₂.set, ht₂.map, ht₂.keys, ht₂.single, ht₂.onlySet, ht₂.onlyMap⟩,
    ⟨hr.next, hr.output, hr.outputNames⟩, ?_, ?_, ?_⟩
  · unfold Handlers.destroy
    simp only [deref_eq hl, hs₁, hs₂, bind, Except.bind]
  · rw [← hheap₁, ← hheap₂]
    rfl
  · intro h t q
    show d.Holds s₂ h t q ↔ _
    rw [hholds₂, hholds₁, l.holder_eq]
    tauto
  · intro h e
    show e ∈ s₂.primaryOutputLinks h ↔ _
    rw [hmap₂, hmap₁, l.holder_eq]
    have hin : ¬ d.HasMap h l.targetInputRank.link := by
      intro hm
      exact InputRank.link_ne l.targetInputRank .PrimaryOutput hm.2
    have hout : LinkType.PrimaryOutputLink ≠ l.targetInputRank.link :=
      fun ht => InputRank.link_ne l.targetInputRank .PrimaryOutput ht.symm
    unfold Handlers.HasMap at hin ⊢
    tauto

/-- **A link with both ends is destroyed**, in a consistent net. -/
theorem Consistent.destroy (hc : Consistent d P s) (hl : s.heap p = some l) (hp : ∀ t, ¬ P p t)
    (hj : l.Joined) : ∃ s', d.destroy p s = .ok s' ∧ Consistent d P s' ∧ Drops (· = p) s s' ∧
      ∀ h t q, d.Holds s' h t q → d.Holds s h t q ∧ q ≠ p := by
  obtain ⟨s', hs', hd⟩ := destroy_spec hc.toTidy hl fun h t ht => hc.held h t p l hl ht (hp t)
  -- nothing else than its ends refers to the link
  have hends : ∀ h t, d.Holds s h t p → l.holder t = some h := by
    intro h t hh
    obtain ⟨l', hl', hcase⟩ := hc.live h t p hh
    obtain rfl := Option.some.inj (hl.symm.trans hl')
    rcases hcase with hcase | hcase
    · exact hcase.1
    · exact absurd hcase.1 hj.not_half
  have hheap : ∀ q, q ≠ p → s'.heap q = s.heap q := by
    intro q hq
    rw [hd.heap, Function.update_of_ne hq]
  have hgone : s'.heap p = none := by rw [hd.heap, Function.update_self]
  have hholds : ∀ h t q, d.Holds s' h t q → d.Holds s h t q ∧ q ≠ p := by
    intro h t q hh
    obtain ⟨hh, hn⟩ := (hd.holds h t q).1 hh
    refine ⟨hh, ?_⟩
    rintro rfl
    exact hn ⟨hends h t hh, rfl⟩
  refine ⟨s', hs', ⟨hd.tidy, ?_, ?_, ?_, ?_, ?_⟩, ⟨hd.rest, ?_, hheap, ?_⟩, hholds⟩
  · intro h t q hh
    obtain ⟨hh, hq⟩ := hholds h t q hh
    rw [hheap q hq]
    exact hc.live h t q hh
  · intro h t q l' hl' ht hpend
    have hq : q ≠ p := by
      rintro rfl
      rw [hgone] at hl'
      cases hl'
    rw [hheap q hq] at hl'
    exact (hd.holds h t q).2 ⟨hc.held h t q l' hl' ht hpend, fun hn => hq hn.2⟩
  · intro q l' hl'
    have hq : q ≠ p := by
      rintro rfl
      rw [hgone] at hl'
      cases hl'
    rw [hheap q hq] at hl'
    exact hc.whole q l' hl'
  · intro q l' h t h' t' hl' hhalf hh hh'
    obtain ⟨hh, hq⟩ := hholds h t q hh
    rw [hheap q hq] at hl'
    exact hc.alone q l' h t h' t' hl' hhalf hh (hholds h' t' q hh').1
  · intro q hq
    by_cases hqp : q = p
    · rw [hqp]
      exact hgone
    · rw [hheap q hqp]
      rw [hd.rest.next] at hq
      exact hc.below q hq
  · rintro q rfl
    exact hgone
  · intro h e
    rw [hd.map]
    constructor
    · rintro ⟨he, hn⟩
      refine ⟨he, fun hp' => hn ?_⟩
      obtain ⟨hmap, hh⟩ := hc.toTidy.holds_of_mem he
      rw [hp'] at hh
      exact ⟨hends h _ hh, hmap.1, hp'⟩
    · rintro ⟨he, hn⟩
      exact ⟨he, fun hn' => hn hn'.2.2⟩

theorem setSlot_self {v : Option ℕ} (hl : s.links h t = v) : s.setSlot h t v = s := by
  unfold Net.setSlot
  rw [← hl, Function.update_eq_self, Function.update_eq_self]

/-- `deleteLink_` of a slot that is neither a set nor a map. -/
theorem deleteLink_spec (hc : Consistent d P s) (hset : ¬ d.HasSet h t) (hmap : ¬ d.HasMap h t)
    (hp : ∀ p, s.links h t = some p → ∀ t', ¬ P p t') (old : Option ℕ) :
    ∃ s', d.deleteLink h t old s = .ok s' ∧ Consistent d P s' ∧
      Drops (fun q => s.links h t = some q) s s' ∧ s'.links h t = none ∧
      ∀ h' t' q, d.Holds s' h' t' q → d.Holds s h' t' q := by
  unfold Handlers.deleteLink
  rw [if_neg hset, if_neg hmap]
  cases hlink : s.links h t with
  | none =>
    refine ⟨s, rfl, hc, Drops.none (fun q hq => ?_) s, hlink, fun _ _ _ hh => hh⟩
    cases hq
  | some p =>
    have hh : d.Holds s h t p := (holds_single hset hmap).2 hlink
    obtain ⟨l, hl, hj, hhold, -⟩ := hc.joined hmap hh
    obtain ⟨s', hs', hc', hdrop, hholds⟩ := hc.destroy hl (hp p hlink) hj
    have hnone : s'.links h t = none := by
      by_contra hsome
      obtain ⟨q, hq⟩ := Option.ne_none_iff_exists'.1 hsome
      obtain ⟨hold, hne⟩ := hholds h t q ((holds_single hset hmap).2 hq)
      rw [holds_single hset hmap, hlink] at hold
      exact hne (Option.some.inj hold).symm
    refine ⟨s', ?_, hc', ?_, hnone, fun h' t' q hh' => (hholds h' t' q hh').1⟩
    · simp only [hs', bind, Except.bind]
      rw [setSlot_self hnone]
    · apply hdrop.congr
      intro q
      rw [Option.some.injEq, eq_comm]

/-! ## Connecting -/

/-- A slot that takes a link. -/
theorem Consistent.attach (hc : Consistent d P s) (hl : s.heap p = some l)
    (hhold : l.holder t = some h) (hp : ∀ q t', P q t' → q = p) {s' : Net ι} (ht : Tidy d s')
    (hheap : s'.heap = s.heap) (hrest : SameRest s s')
    (hholds : ∀ h' t' q, d.Holds s' h' t' q ↔
      if h' = h ∧ t' = t then q = p ∨ d.Holds s h t q else d.Holds s h' t' q) :
    Consistent d (fun q t' => P q t' ∧ t' ≠ t) s' where
  toTidy := ht
  live := by
    intro h' t' q hh
    rw [hholds] at hh
    rw [hheap]
    split_ifs at hh with heq
    · obtain ⟨rfl, rfl⟩ := heq
      rcases hh with rfl | hh
      · exact ⟨l, hl, Or.inl ⟨hhold, fun hn => hn.2 rfl⟩⟩
      · obtain ⟨l', hl', hcase⟩ := hc.live _ _ _ hh
        exact ⟨l', hl', hcase.imp (fun hq => ⟨hq.1, fun hn => hn.2 rfl⟩) id⟩
    · obtain ⟨l', hl', hcase⟩ := hc.live _ _ _ hh
      exact ⟨l', hl', hcase.imp (fun hq => ⟨hq.1, fun hn => hq.2 hn.1⟩) id⟩
  held := by
    intro h' t' q l' hl' ht' hpend
    rw [hheap] at hl'
    rw [hholds]
    by_cases hP : P q t'
    · obtain rfl := hp q t' hP
      obtain rfl := Option.some.inj (hl.symm.trans hl')
      have htt : t' = t := by
        by_contra htt
        exact hpend ⟨hP, htt⟩
      subst htt
      obtain rfl := Option.some.inj (hhold.symm.trans ht')
      rw [if_pos ⟨rfl, rfl⟩]
      exact Or.inl rfl
    · have hh := hc.held h' t' q l' hl' ht' hP
      split_ifs with heq
      · obtain ⟨rfl, rfl⟩ := heq
        exact Or.inr hh
      · exact hh
  whole := by
    intro q l' hl'
    rw [hheap] at hl'
    exact hc.whole q l' hl'
  alone := by
    intro q l' h₁ t₁ h₂ t₂ hl' hhalf hh₁ hh₂
    rw [hheap] at hl'
    have hold : ∀ h' t', d.Holds s' h' t' q → d.Holds s h' t' q := by
      intro h' t' hh
      rw [hholds] at hh
      split_ifs at hh with heq
      · obtain ⟨rfl, rfl⟩ := heq
        rcases hh with rfl | hh
        · obtain rfl := Option.some.inj (hl.symm.trans hl')
          rw [hhalf.holder] at hhold
          cases hhold
        · exact hh
      · exact hh
    exact hc.alone q l' h₁ t₁ h₂ t₂ hl' hhalf (hold h₁ t₁ hh₁) (hold h₂ t₂ hh₂)
  below := by
    intro q hq
    rw [hrest.next] at hq
    rw [hheap]
    exact hc.below q hq

/-- `setLink_` with a link whose end is pending: what was in a single slot is destroyed. -/
theorem setLink_spec (hc : Consistent d P s) (hl : s.heap p = some l)
    (hhold : l.holder t = some h) (hp : ∀ q t', P q t' → q = p) (hpend : P p t)
    (hmap : ¬ d.HasMap h t) :
    ∃ s', d.setLink h t p s = .ok s' ∧ Consistent d (fun q t' => P q t' ∧ t' ≠ t) s' ∧
      Drops (fun q => ¬ d.HasSet h t ∧ s.links h t = some q) s s' := by
  -- the link is not in the slot yet
  have hnot : ¬ d.Holds s h t p := by
    intro hh
    obtain ⟨l', -, hcase⟩ := hc.live h t p hh
    rcases hcase with hcase | hcase
    · exact hcase.2 hpend
    · exact hmap hcase.2
  unfold Handlers.setLink
  by_cases hset : d.HasSet h t
  · rw [holds_set hset] at hnot
    rw [if_pos hset, if_neg hnot]
    have hnodup : (s.primaryInputLinks h ++ [p]).Nodup := by
      rw [List.nodup_append]
      refine ⟨hc.set h, List.nodup_singleton p, ?_⟩
      intro a ha b hb
      rw [List.mem_singleton.1 hb]
      rintro rfl
      exact hnot ha
    have hrest : SameRest s (s.setInputs h (s.primaryInputLinks h ++ [p])) := ⟨rfl, rfl, rfl⟩
    refine ⟨_, rfl, ?_, hrest, fun q hq => absurd hset hq.1, fun q _ => rfl, fun h' e => ?_⟩
    · apply hc.attach hl hhold hp (hc.toTidy.setInputs hset.1 hnodup) rfl hrest
      intro h' t' q
      rw [holds_setInputs hset.1, ← hset.2]
      split_ifs with heq
      · rw [holds_set hset, List.mem_append, List.mem_singleton]
        exact or_comm
      · rfl
    · exact ⟨fun he => ⟨he, fun hn => hn.1 hset⟩, fun he => he.1⟩
  · rw [if_neg hset, if_neg hmap]
    have hold : ∀ q, s.links h t = some q → ∀ t', ¬ P q t' := by
      intro q hq t' hP
      obtain rfl := hp q t' hP
      exact hnot ((holds_single hset hmap).2 hq)
    -- the old link of the slot
    have hclear : ∃ s₁, d.clearSlot h t s = .ok s₁ ∧ Consistent d P s₁ ∧
        Drops (fun q => s.links h t = some q) s s₁ ∧ s₁.links h t = none := by
      unfold Handlers.clearSlot
      cases hlink : s.links h t with
      | none =>
        exact ⟨s, rfl, hc, Drops.none (fun q hq => by cases hq) s, hlink⟩
      | some q =>
        obtain ⟨s₁, hs₁, hc₁, hdrop, hnone, -⟩ := deleteLink_spec hc hset hmap hold (some q)
        rw [hlink] at hdrop
        exact ⟨s₁, hs₁, hc₁, hdrop, hnone⟩
    obtain ⟨s₁, hs₁, hc₁, hdrop, hnone⟩ := hclear
    have hl₁ : s₁.heap p = some l := by
      rw [hdrop.kept p fun hq => hnot ((holds_single hset hmap).2 hq)]
      exact hl
    refine ⟨s₁.setSlot h t (some p), ?_, ?_, ?_⟩
    · simp only [hs₁, bind, Except.bind]
    · apply hc₁.attach hl₁ hhold hp (hc₁.toTidy.setSlot hset hmap (some p)) rfl ⟨rfl, rfl, rfl⟩
      intro h' t' q
      rw [holds_setSlot hset hmap]
      split_ifs with heq
      · rw [holds_single hset hmap, hnone, Option.some.injEq]
        simp only [reduceCtorEq, or_false]
        exact eq_comm
      · rfl
    · have hrest : SameRest s (s₁.setSlot h t (some p)) :=
        ⟨hdrop.rest.next, hdrop.rest.output, hdrop.rest.outputNames⟩
      refine ⟨hrest, fun q hq => hdrop.dead q hq.2, fun q hq => ?_, fun h' e => ?_⟩
      · exact hdrop.kept q fun hlink => hq ⟨hset, hlink⟩
      · show e ∈ s₁.primaryOutputLinks h' ↔ _
        rw [hdrop.map]
        simp only [hset, not_false_eq_true, true_and]

/-- Both ends of a link are put in their slots; the link that the target's slot held is destroyed. -/
theorem setBoth_spec (y : ι) (inRank : InputRank) (hc : Settled d s) (hheld : ∀ h t, d.Holds s h t p ↔
      d.HasMap x outRank.link ∧ h = x ∧ t = outRank.link) (hlt : p < s.next)
    (hempty : s.links x outRank.link = none) :
    ∃ s₁ s', d.setLink y inRank.link p (s.setHeap p (some (between x y outRank inRank))) = .ok s₁ ∧
      d.setLink x outRank.link p s₁ = .ok s' ∧ Settled d s' ∧
      Drops (fun q => s.links y inRank.link = some q)
        (s.setHeap p (some (between x y outRank inRank))) s' := by
  have hin : ¬ d.HasMap y inRank.link := not_hasMap_input y inRank
  have hjoin := hc.join y inRank hheld hlt
  have hheap : (s.setHeap p (some (between x y outRank inRank))).heap p =
      some (between x y outRank inRank) := setHeap_self ..
  obtain ⟨s₁, hs₁, hc₁, hd₁⟩ := setLink_spec hjoin hheap between_input (fun q t hq => hq.1)
    ⟨rfl, Or.inl rfl⟩ hin
  have hlink : ∀ q, (¬ d.HasSet y inRank.link ∧
      (s.setHeap p (some (between x y outRank inRank))).links y inRank.link = some q) ↔
      s.links y inRank.link = some q := by
    intro q
    refine ⟨fun hq => hq.2, fun hq => ⟨fun hset => ?_, hq⟩⟩
    rw [hc.single y inRank.link (Or.inl hset)] at hq
    cases hq
  have hp : ¬ s.links y inRank.link = some p := by
    intro hq
    have hh : d.Holds s y inRank.link p := by
      rw [holds_single (fun hset => by rw [hc.single _ _ (Or.inl hset)] at hq; cases hq) hin]
      exact hq
    exact InputRank.link_ne _ _ ((hheld _ _).1 hh).2.2
  have hd₁' : Drops (fun q => s.links y inRank.link = some q)
      (s.setHeap p (some (between x y outRank inRank))) s₁ :=
    hd₁.trans (Drops.none (fun _ => not_false) s₁) fun q => by rw [or_false, hlink]
  by_cases hmap : d.HasMap x outRank.link
  · -- the link is in the map already
    refine ⟨s₁, s₁, hs₁, ?_, hc₁.mono fun q t => ?_, hd₁'⟩
    · unfold Handlers.setLink
      rw [if_neg (not_hasSet_output x outRank), if_pos hmap]
    · constructor
      · rintro ⟨⟨-, rfl | ⟨rfl, hn⟩⟩, hne⟩
        · exact hne rfl
        · exact hn hmap
      · exact False.elim
  · have hheap₁ : s₁.heap p = some (between x y outRank inRank) := by
      rw [hd₁'.kept p hp]
      exact hheap
    obtain ⟨s₂, hs₂, hc₂, hd₂⟩ := setLink_spec hc₁ hheap₁ between_output (fun q t hq => hq.1.1)
      ⟨⟨rfl, Or.inr ⟨rfl, hmap⟩⟩, (InputRank.link_ne _ _).symm⟩ hmap
    have hset := not_hasSet_output (d := d) x outRank
    -- the source's slot is still empty
    have hempty₁ : s₁.links x outRank.link = none := by
      by_contra hsome
      obtain ⟨q, hq⟩ := Option.ne_none_iff_exists'.1 hsome
      obtain ⟨l, hl, -, hhold, hpend⟩ := hc₁.joined hmap ((holds_single hset hmap).2 hq)
      have hqp : q ≠ p := by
        rintro rfl
        exact hpend ⟨⟨rfl, Or.inr ⟨rfl, hmap⟩⟩, (InputRank.link_ne _ _).symm⟩
      have hn : ¬ s.links y inRank.link = some q := by
        intro hgone
        rw [hd₁'.dead q hgone] at hl
        cases hl
      rw [hd₁'.kept q hn] at hl
      have hold := hc.held x outRank.link q l ((setHeap_of_ne hqp _).symm.trans hl) hhold
        not_false
      rw [holds_single hset hmap, hempty] at hold
      cases hold
    refine ⟨s₁, s₂, hs₁, hs₂, hc₂.mono fun q t => ?_, hd₁'.trans hd₂ fun q => ?_⟩
    · constructor
      · rintro ⟨⟨⟨-, rfl | ⟨rfl, -⟩⟩, hne⟩, hne'⟩
        · exact hne rfl
        · exact hne' rfl
      · exact False.elim
    · rw [hempty₁]
      simp only [reduceCtorEq, and_false, or_false]

/-- **What connecting does**: nothing when it throws. -/
theorem connectSourceToTarget_spec (hc : Settled d s) (hheld : ∀ h t, d.Holds s h t p ↔
      d.HasMap x outRank.link ∧ h = x ∧ t = outRank.link) (hlt : p < s.next)
    (hempty : s.links x outRank.link = none) {k : ℕ} {b : Bool}
    (hsearch : d.isCircularConnection s y k x = .ok b) :
    (b = true ∧ d.connectSourceToTarget k p x y outRank inRank s =
        .ok (some .CircularConnection, s)) ∨
    (b = false ∧ inRank = .AuxInput ∧ d.connectSourceToTarget k p x y outRank inRank s =
        .ok (some .NoAuxiliaryQueue, s)) ∨
    (b = false ∧ ∃ s', d.connectSourceToTarget k p x y outRank inRank s = .ok (none, s') ∧
      Settled d s' ∧ Drops (fun q => s.links y inRank.link = some q)
        (s.setHeap p (some (between x y outRank inRank))) s') := by
  unfold Handlers.connectSourceToTarget
  simp only [hsearch, bind, Except.bind]
  cases b with
  | true => exact Or.inl ⟨rfl, rfl⟩
  | false =>
    simp only [Bool.false_eq_true, if_false]
    by_cases haux : inRank = .AuxInput ∧ ¬ d.auxQueue y = true
    · rw [if_pos haux]
      exact Or.inr (Or.inl ⟨trivial, haux.1, rfl⟩)
    · rw [if_neg haux]
      obtain ⟨s₁, s', hs₁, hs', hc', hd⟩ := setBoth_spec y inRank hc hheld hlt hempty
      unfold between at hs₁
      exact Or.inr (Or.inr ⟨trivial, s', by simp only [hs₁, hs'], hc', hd⟩)

/-! ## A new link -/

/-- The settings play no part. -/
theorem Consistent.setOutput (hc : Settled d s) (h : ι) (rank : OutputRank)
    (v : Option (ι × InputRank)) : Settled d (s.setOutput h rank v) where
  toTidy := ⟨hc.set, hc.map, hc.keys, hc.single, hc.onlySet, hc.onlyMap⟩
  live := hc.live
  held := hc.held
  whole := hc.whole
  alone := hc.alone
  below := hc.below

theorem Consistent.setNames (hc : Settled d s) (h : ι) (names : List (ι × InputRank × Octet)) :
    Settled d (s.setNames h names) where
  toTidy := ⟨hc.set, hc.map, hc.keys, hc.single, hc.onlySet, hc.onlyMap⟩
  live := hc.live
  held := hc.held
  whole := hc.whole
  alone := hc.alone
  below := hc.below

end

end LinkGraph

end ChannelEmulator
