import ChannelEmulator.Proof.LinkInvariants

/-!
# The saved topology

The settings of a handler are written where it connects and disconnects its outputs; its links are also
destroyed from the other end.

* `Saved`: the settings name exactly the live output links.
* `saved_of_inStep`: **the settings and the links agree** in runs in which a connection takes its input
  from no other output, and only handlers without links are withdrawn.
-/

namespace ChannelEmulator

namespace LinkGraph

variable {ι : Type} {d : Handlers ι} {s s' : Net ι} {h x y z : ι} {p q : ℕ} {l : HandlerLink ι}
  {id : Octet} {i : InputRank} {rank outRank : OutputRank} {inRank : InputRank}
  {names : List (ι × InputRank × Octet)}

/-- Where a handler outputs: a slot, or a channel of a demultiplexer. -/
inductive Output where
  | slot (rank : OutputRank)
  | channel (id : Octet)

/-- The handler's output has the link. -/
def LinkAt (s : Net ι) (h : ι) : Output → ℕ → Prop
  | .slot rank, p => s.links h rank.link = some p
  | .channel id, p => (id, p) ∈ s.primaryOutputLinks h

/-- There is a link from the output to an input of `y`. -/
def Live (s : Net ι) (h : ι) (o : Output) (y : ι) (i : InputRank) : Prop :=
  ∃ p l, LinkAt s h o p ∧ s.heap p = some l ∧ l.target = some y ∧ l.targetInputRank = i

/-- The settings name the input of `y` for the output. -/
def SavedAs (s : Net ι) (h : ι) : Output → ι → InputRank → Prop
  | .slot rank, y, i => s.output h rank = some (y, i)
  | .channel id, y, i => (y, i, id) ∈ s.outputNames h

/-- The settings name exactly the live output links, each once. -/
structure Saved (s : Net ι) : Prop where
  exact : ∀ h o y i, SavedAs s h o y i ↔ Live s h o y i
  nodup : ∀ h, (s.outputNames h).Nodup

/-! ## The lists of names -/

/-- A list with one sublist for each target. -/
abbrev OncePerTarget (names : List (ι × InputRank × Octet)) : Prop := (names.map Prod.fst).Nodup

section Names

variable [DecidableEq ι]

/-- The loop removes the sublist of the target, which there is once at most, and what it passes over
is another's. -/
theorem removeNames_eq (t : ι) (honce : OncePerTarget names) :
    Handlers.removeNames t names = names.filter fun e => e.1 ≠ t := by
  induction names using Handlers.removeNames.induct t with
  | case1 => rfl
  | case2 e he => rw [Handlers.removeNames, if_pos he, List.filter_cons_of_neg (by simpa using he),
      List.filter_nil]
  | case3 e he => rw [Handlers.removeNames, if_neg he, List.filter_cons_of_pos (by simpa using he),
      List.filter_nil]
  | case4 e e' es he ih =>
    unfold OncePerTarget at honce
    rw [List.map_cons, List.map_cons, List.nodup_cons, List.nodup_cons, List.mem_cons] at honce
    have he' : e'.1 ≠ t := fun h => honce.1 (Or.inl (he.trans h.symm))
    rw [Handlers.removeNames, if_pos he, List.filter_cons_of_neg (by simpa using he),
      List.filter_cons_of_pos (by simpa using he'), ih honce.2.2]
  | case5 e e' es he ih =>
    unfold OncePerTarget at honce
    rw [List.map_cons, List.nodup_cons] at honce
    rw [Handlers.removeNames, if_neg he, List.filter_cons_of_pos (by simpa using he), ih honce.2]

theorem map_addName (y : ι) (i : InputRank) (id : Octet) :
    (Handlers.addName y i id names).map Prod.fst =
      if y ∈ names.map Prod.fst then names.map Prod.fst else names.map Prod.fst ++ [y] := by
  induction names with
  | nil => rfl
  | cons e es ih =>
    unfold Handlers.addName
    by_cases he : e.1 = y
    · rw [if_pos he, if_pos (by rw [← he]; exact List.mem_cons_self ..), List.map_cons, List.map_cons,
        he]
    · rw [if_neg he, List.map_cons, ih, List.map_cons]
      have hmem : y ∈ e.1 :: es.map Prod.fst ↔ y ∈ es.map Prod.fst := by
        rw [List.mem_cons]
        exact ⟨fun h => h.resolve_left (Ne.symm he), Or.inr⟩
      by_cases hy : y ∈ es.map Prod.fst
      · rw [if_pos hy, if_pos (hmem.2 hy)]
      · rw [if_neg hy, if_neg (fun h => hy (hmem.1 h)), List.cons_append]

theorem OncePerTarget.addName (honce : OncePerTarget names) (y : ι) (i : InputRank) (id : Octet) :
    OncePerTarget (Handlers.addName y i id names) := by
  unfold OncePerTarget
  rw [map_addName]
  split_ifs with hy
  · exact honce
  · refine List.nodup_append.2 ⟨honce, List.nodup_singleton y, ?_⟩
    rintro a ha b hb rfl
    rw [List.mem_singleton.1 hb] at ha
    exact hy ha

/-- The sublist of the target is written over, or added. -/
theorem mem_addName (honce : OncePerTarget names) {e : ι × InputRank × Octet} :
    e ∈ Handlers.addName y i id names ↔ (e ∈ names ∧ e.1 ≠ y) ∨ e = (y, i, id) := by
  induction names with
  | nil =>
    unfold Handlers.addName
    rw [List.mem_singleton]
    exact ⟨Or.inr, fun h => h.resolve_left fun hn => List.not_mem_nil hn.1⟩
  | cons a es ih =>
    unfold OncePerTarget at honce
    rw [List.map_cons, List.nodup_cons] at honce
    unfold Handlers.addName
    by_cases ha : a.1 = y
    · rw [if_pos ha, List.mem_cons, List.mem_cons]
      have hes : e ∈ es → e.1 ≠ y := by
        rintro he rfl
        exact honce.1 (ha ▸ List.mem_map_of_mem he)
      constructor
      · rintro (rfl | he)
        · exact Or.inr rfl
        · exact Or.inl ⟨Or.inr he, hes he⟩
      · rintro (⟨rfl | he, hy⟩ | rfl)
        · exact absurd ha hy
        · exact Or.inr he
        · exact Or.inl rfl
    · rw [if_neg ha, List.mem_cons, List.mem_cons, ih honce.2]
      constructor
      · rintro (rfl | he)
        · exact Or.inl ⟨Or.inl rfl, ha⟩
        · exact he.imp (fun he => ⟨Or.inr he.1, he.2⟩) fun he => he
      · rintro (⟨rfl | he, hy⟩ | rfl)
        · exact Or.inl rfl
        · exact Or.inr (Or.inl ⟨he, hy⟩)
        · exact Or.inr (Or.inr rfl)

end Names

/-! ## Outputs and links -/

theorem OutputRank.link_inj {r r' : OutputRank} (hr : r.link = r'.link) : r = r' := by
  revert hr
  cases r <;> cases r' <;> decide

theorem InputRank.link_inj {r r' : InputRank} (hr : r.link = r'.link) : r = r' := by
  revert hr
  cases r <;> cases r' <;> decide

/-- A link is in the output slot that is its source. -/
theorem output_iff (hc : Settled d s) (hmap : ¬ d.HasMap h rank.link) (hl : s.heap p = some l) :
    s.links h rank.link = some p ↔ l.source = some h ∧ l.sourceOutputRank = rank := by
  rw [← holds_single (not_hasSet_output h rank) hmap]
  constructor
  · intro hh
    obtain ⟨l', hl', -, hhold, -⟩ := hc.joined hmap hh
    obtain rfl := Option.some.inj (hl.symm.trans hl')
    rcases (l.holder_eq _ _).1 hhold with ⟨-, hr⟩ | ⟨hs, hr⟩
    · exact absurd hr.symm (InputRank.link_ne _ _)
    · exact ⟨hs, OutputRank.link_inj hr.symm⟩
  · rintro ⟨hs, rfl⟩
    exact hc.held h _ p l hl ((l.holder_eq _ _).2 (Or.inr ⟨hs, rfl⟩)) not_false

/-- A link is in the input slot that is its target. -/
theorem target_of_input (hc : Settled d s) (hl : s.heap p = some l)
    (hlink : s.links y inRank.link = some p) : l.target = some y := by
  have hset : ¬ d.HasSet y inRank.link := by
    intro hset
    rw [hc.single y _ (Or.inl hset)] at hlink
    cases hlink
  obtain ⟨l', hl', -, hhold, -⟩ := hc.joined (not_hasMap_input y inRank)
    ((holds_single hset (not_hasMap_input y inRank)).2 hlink)
  obtain rfl := Option.some.inj (hl.symm.trans hl')
  rcases (l.holder_eq _ _).1 hhold with ⟨ht, -⟩ | ⟨-, hr⟩
  · exact ht
  · exact absurd hr (InputRank.link_ne _ _)

/-- A link in a map has the demultiplexer as its source. -/
theorem channel_source (hc : Settled d s) (hj : AllJoined s) (he : (id, p) ∈ s.primaryOutputLinks h)
    (hl : s.heap p = some l) :
    d.HasMap h .PrimaryOutputLink ∧ l.source = some h ∧ l.sourceOutputRank = .PrimaryOutput := by
  obtain ⟨hmap, hh⟩ := hc.toTidy.holds_of_mem he
  obtain ⟨l', hl', hcase⟩ := hc.live _ _ _ hh
  obtain rfl := Option.some.inj (hl.symm.trans hl')
  rcases hcase with ⟨hhold, -⟩ | ⟨hhalf, -⟩
  · rcases (l.holder_eq _ _).1 hhold with ⟨-, hr⟩ | ⟨hs, hr⟩
    · exact absurd hr.symm (InputRank.link_ne _ .PrimaryOutput)
    · exact ⟨hmap, hs, (OutputRank.link_inj (r := .PrimaryOutput) hr).symm⟩
  · exact absurd hhalf (hj p l hl).not_half

/-- What a slot's link is to. -/
theorem live_slot (hc : Settled d s) (hmap : ¬ d.HasMap h rank.link) : Live s h (.slot rank) y i ↔
    ∃ p l, s.heap p = some l ∧ (l.source = some h ∧ l.sourceOutputRank = rank) ∧
      l.target = some y ∧ l.targetInputRank = i := by
  constructor
  · rintro ⟨p, l, hlink, hl, hends⟩
    exact ⟨p, l, hl, (output_iff hc hmap hl).1 hlink, hends⟩
  · rintro ⟨p, l, hl, hsource, hends⟩
    exact ⟨p, l, (output_iff hc hmap hl).2 hsource, hl, hends⟩

theorem not_live_slot (hc : Settled d s) (hmap : d.HasMap h rank.link) :
    ¬ Live s h (.slot rank) y i := by
  rintro ⟨p, l, hlink, -⟩
  rw [LinkAt, hc.single h _ (Or.inr hmap)] at hlink
  cases hlink

/-- A slot's link is in no map. -/
theorem slot_ne_channel (hc : Settled d s) (hj : AllJoined s) (hmap : ¬ d.HasMap h rank.link)
    (hlink : s.links h rank.link = some p) : (id, p) ∉ s.primaryOutputLinks x := by
  intro he
  obtain ⟨l, hl, -⟩ := hc.joined hmap ((holds_single (not_hasSet_output h rank) hmap).2 hlink)
  obtain ⟨hmap', hs', hr'⟩ := channel_source hc hj he hl
  obtain ⟨hs, rfl⟩ := (output_iff hc hmap hl).1 hlink
  obtain rfl := Option.some.inj (hs.symm.trans hs')
  rw [hr'] at hmap
  exact hmap hmap'

/-! ## Disconnecting and connecting a slot -/

section Slots

variable [DecidableEq ι]

theorem setOutput_apply (s : Net ι) (h a : ι) (r r' : OutputRank) (v : Option (ι × InputRank)) :
    (s.setOutput h r v).output a r' = if a = h ∧ r' = r then v else s.output a r' := by
  show Function.update s.output h (Function.update (s.output h) r v) a r' = _
  by_cases ha : a = h
  · subst ha
    by_cases hr : r' = r
    · subst hr
      rw [if_pos ⟨rfl, rfl⟩, Function.update_self, Function.update_self]
    · rw [if_neg fun hn => hr hn.2, Function.update_self, Function.update_of_ne hr]
  · rw [if_neg fun hn => ha hn.1, Function.update_of_ne ha]

/-- **The settings after a slot is disconnected.** -/
theorem saved_disconnect {s₁ : Net ι} (hc : Settled d s) (hj : AllJoined s) (hs : Saved s)
    (hmap : ¬ d.HasMap h outRank.link) (hc₁ : Settled d s₁)
    (hd₁ : Drops (fun q => s.links h outRank.link = some q) s s₁) :
    Saved (s₁.setOutput h outRank none) := by
  have hnames : s₁.outputNames = s.outputNames := hd₁.rest.outputNames
  have houtput : s₁.output = s.output := hd₁.rest.output
  refine ⟨?_, fun a => ?_⟩
  · rintro a (r | id) b j
    · show (s₁.setOutput h outRank none).output a r = _ ↔ Live s₁ a (.slot r) b j
      rw [setOutput_apply, houtput]
      by_cases har : a = h ∧ r = outRank
      · -- the slot is empty
        rw [if_pos har]
        obtain ⟨rfl, rfl⟩ := har
        refine iff_of_false (by simp) ?_
        rintro ⟨p, l, hlink, -⟩
        obtain ⟨hlink, hn⟩ := (hd₁.links hc hc₁ (not_hasSet_output a r) hmap).1 hlink
        exact hn hlink
      · rw [if_neg har]
        refine (hs.exact a (.slot r) b j).trans ?_
        by_cases hmap' : d.HasMap a r.link
        · exact iff_of_false (not_live_slot hc hmap') (not_live_slot hc₁ hmap')
        have hother : ∀ {p : ℕ} {l : HandlerLink ι}, s.heap p = some l →
            s.links a r.link = some p → s.links h outRank.link ≠ some p := by
          intro p l hl hlink hgone
          obtain ⟨hsa, hra⟩ := (output_iff hc hmap' hl).1 hlink
          obtain ⟨hsh, hrh⟩ := (output_iff hc hmap hl).1 hgone
          exact har ⟨Option.some.inj (hsa.symm.trans hsh), hra.symm.trans hrh⟩
        have hlinks : ∀ p, s₁.links a r.link = some p ↔
            s.links a r.link = some p ∧ ¬ s.links h outRank.link = some p :=
          fun p => hd₁.links hc hc₁ (not_hasSet_output a r) hmap'
        constructor
        · rintro ⟨p, l, hlink, hl, hends⟩
          have hn := hother hl hlink
          exact ⟨p, l, (hlinks p).2 ⟨hlink, hn⟩, (hd₁.kept p hn).trans hl, hends⟩
        · rintro ⟨p, l, hlink, hl, hends⟩
          obtain ⟨hlink, hn⟩ := (hlinks p).1 hlink
          exact ⟨p, l, hlink, (hd₁.kept p hn).symm.trans hl, hends⟩
    · -- the maps are as they were
      show (b, j, id) ∈ s₁.outputNames a ↔ Live s₁ a (.channel id) b j
      rw [hnames]
      refine (hs.exact a (.channel id) b j).trans ?_
      constructor
      · rintro ⟨p, l, he, hl, hends⟩
        have hn : ¬ s.links h outRank.link = some p := fun hlink => slot_ne_channel hc hj hmap hlink he
        exact ⟨p, l, (hd₁.map a _).2 ⟨he, hn⟩, (hd₁.kept p hn).trans hl, hends⟩
      · rintro ⟨p, l, he, hl, hends⟩
        obtain ⟨he, hn⟩ := (hd₁.map a _).1 he
        exact ⟨p, l, he, (hd₁.kept p hn).symm.trans hl, hends⟩
  · show (s₁.outputNames a).Nodup
    rw [hnames]
    exact hs.nodup a

/-- **The settings after a free slot is connected** to an input that is not taken. -/
theorem saved_connect {s₂ : Net ι} (hc : Settled d s) (hs : Saved s)
    (hmap : ¬ d.HasMap h outRank.link) (hempty : s.links h outRank.link = none)
    {gone : ℕ → Prop} (hgone : ∀ q, ¬ gone q) (hc₂ : Settled d s₂)
    (hd₂ : Drops gone (s.alloc.setHeap s.next (some (between h y outRank inRank))) s₂) :
    Saved (s₂.setOutput h outRank (some (y, inRank))) := by
  have hnames : s₂.outputNames = s.outputNames := hd₂.rest.outputNames
  have houtput : s₂.output = s.output := hd₂.rest.output
  have hnew : s₂.heap s.next = some (between h y outRank inRank) :=
    (hd₂.kept _ (hgone _)).trans (setHeap_self ..)
  have hkept : ∀ p, p ≠ s.next → s₂.heap p = s.heap p := by
    intro p hp
    rw [hd₂.kept _ (hgone _), setHeap_of_ne hp]
    exact setHeap_of_ne hp _
  have hlt : ∀ {p : ℕ} {l : HandlerLink ι}, s.heap p = some l → p ≠ s.next := by
    rintro p l hl rfl
    rw [hc.below _ (Nat.le_refl _)] at hl
    cases hl
  refine ⟨?_, fun a => ?_⟩
  · rintro a (r | id) b j
    · show (s₂.setOutput h outRank (some (y, inRank))).output a r = _ ↔ Live s₂ a (.slot r) b j
      rw [setOutput_apply, houtput]
      by_cases hmap' : d.HasMap a r.link
      · have har : ¬ (a = h ∧ r = outRank) := by
          rintro ⟨rfl, rfl⟩
          exact hmap hmap'
        rw [if_neg har]
        refine iff_of_false (fun hsaved => ?_) (not_live_slot hc₂ hmap')
        exact not_live_slot hc hmap' ((hs.exact a (.slot r) b j).1 hsaved)
      by_cases har : a = h ∧ r = outRank
      · rw [if_pos har, live_slot hc₂ hmap', Option.some.injEq, Prod.mk.injEq]
        obtain ⟨rfl, rfl⟩ := har
        constructor
        · rintro ⟨rfl, rfl⟩
          exact ⟨s.next, _, hnew, ⟨rfl, rfl⟩, rfl, rfl⟩
        · rintro ⟨p, l, hl, hsource, hy, hi⟩
          by_cases hp : p = s.next
          · subst hp
            obtain rfl := Option.some.inj (hnew.symm.trans hl)
            exact ⟨Option.some.inj hy, hi⟩
          · -- the slot was free
            rw [hkept p hp] at hl
            have hlink := (output_iff hc hmap hl).2 hsource
            rw [hempty] at hlink
            cases hlink
      · rw [if_neg har]
        refine (hs.exact a (.slot r) b j).trans ?_
        rw [live_slot hc hmap', live_slot hc₂ hmap']
        constructor
        · rintro ⟨p, l, hl, hends⟩
          exact ⟨p, l, (hkept p (hlt hl)).trans hl, hends⟩
        · rintro ⟨p, l, hl, hsource, hends⟩
          have hp : p ≠ s.next := by
            rintro rfl
            obtain rfl := Option.some.inj (hnew.symm.trans hl)
            exact har ⟨(Option.some.inj hsource.1).symm, hsource.2.symm⟩
          exact ⟨p, l, (hkept p hp).symm.trans hl, hsource, hends⟩
    · show (b, j, id) ∈ s₂.outputNames a ↔ Live s₂ a (.channel id) b j
      rw [hnames]
      refine (hs.exact a (.channel id) b j).trans ?_
      have hmaps : ∀ p, (id, p) ∈ s₂.primaryOutputLinks a ↔ (id, p) ∈ s.primaryOutputLinks a :=
        fun p => (hd₂.map a (id, p)).trans (and_iff_left (hgone p))
      constructor
      · rintro ⟨p, l, he, hl, hends⟩
        exact ⟨p, l, (hmaps p).2 he, (hkept p (hlt hl)).trans hl, hends⟩
      · rintro ⟨p, l, he, hl, hends⟩
        have he' := (hmaps p).1 he
        obtain ⟨-, hh⟩ := hc.toTidy.holds_of_mem he'
        obtain ⟨l', hl', -⟩ := hc.live _ _ _ hh
        exact ⟨p, l, he', (hkept p (hlt hl')).symm.trans hl, hends⟩
  · show (s₂.outputNames a).Nodup
    rw [hnames]
    exact hs.nodup a

end Slots

/-! ## Connecting a channel -/

section Channels

variable [DecidableEq ι]

/-- The new link of an identifier, after that of before was dropped and `names` are left. -/
structure Rewired (d : Handlers ι) (h : ι) (id : Octet) (y : ι) (inRank : InputRank)
    (names : List (ι × InputRank × Octet)) (s s₀ s₂ : Net ι) : Prop where
  demux : d.kind h = .demux
  before : Settled d s₀
  drops : Drops (fun q => (id, q) ∈ s.primaryOutputLinks h) s s₀
  after : Settled d s₂
  takes : Drops (fun q => s₀.links y inRank.link = some q)
    ((Mapped (s₀.setNames h names) h id).setHeap s₀.next (some (between h y .PrimaryOutput inRank))) s₂

/-- What the new link takes its input from is a link of the same demultiplexer, and the links that the
demultiplexer has to the target are those. -/
def TakesOwn (s : Net ι) (h y : ι) (inRank : InputRank) : Prop :=
  (∀ q, s.links y inRank.link = some q → ∃ id, (id, q) ∈ s.primaryOutputLinks h) ∧
    ∀ id q l, (id, q) ∈ s.primaryOutputLinks h → s.heap q = some l → l.target = some y →
      s.links y inRank.link = some q

variable {s₀ s₂ : Net ι}

/-- A link of before that stays. -/
theorem Rewired.kept (hr : Rewired d h id y inRank names s s₀ s₂) (hl : s.heap p = some l)
    (hne : (id, p) ∉ s.primaryOutputLinks h) (hin : s₀.links y inRank.link ≠ some p) :
    s₂.heap p = some l ∧ p ≠ s₀.next := by
  have hl₀ : s₀.heap p = some l := (hr.drops.kept p hne).trans hl
  have hp : p ≠ s₀.next := by
    rintro rfl
    rw [hr.before.below _ (Nat.le_refl _)] at hl₀
    cases hl₀
  refine ⟨?_, hp⟩
  rw [hr.takes.kept p hin, setHeap_of_ne hp]
  exact (setHeap_of_ne hp _).trans hl₀

/-- A link of afterwards is the new one or one of before. -/
theorem Rewired.old (hr : Rewired d h id y inRank names s s₀ s₂) (hl : s₂.heap p = some l)
    (hp : p ≠ s₀.next) : s.heap p = some l ∧ (id, p) ∉ s.primaryOutputLinks h ∧
      s₀.links y inRank.link ≠ some p := by
  have hin : s₀.links y inRank.link ≠ some p := by
    intro hgone
    rw [hr.takes.dead p hgone] at hl
    cases hl
  rw [hr.takes.kept p hin, setHeap_of_ne hp] at hl
  have hl₀ : s₀.heap p = some l := (setHeap_of_ne hp _).symm.trans hl
  have hne : (id, p) ∉ s.primaryOutputLinks h := by
    intro hgone
    rw [hr.drops.dead p hgone] at hl₀
    cases hl₀
  exact ⟨(hr.drops.kept p hne).symm.trans hl₀, hne, hin⟩

theorem Rewired.new (hr : Rewired d h id y inRank names s s₀ s₂) :
    s₂.heap s₀.next = some (between h y .PrimaryOutput inRank) := by
  refine (hr.takes.kept _ fun hgone => ?_).trans (setHeap_self ..)
  have hset : ¬ d.HasSet y inRank.link := by
    intro hset
    rw [hr.before.single y _ (Or.inl hset)] at hgone
    cases hgone
  exact hr.before.fresh ((holds_single hset (not_hasMap_input y inRank)).2 hgone)

theorem Rewired.outputNames_eq (hr : Rewired d h id y inRank names s s₀ s₂) (x : ι) :
    s₂.outputNames x = if x = h then names else s.outputNames x := by
  rw [hr.takes.rest.outputNames]
  show Function.update s₀.outputNames h names x = _
  by_cases hx : x = h
  · subst hx
    rw [Function.update_self, if_pos rfl]
  · rw [Function.update_of_ne hx, hr.drops.rest.outputNames, if_neg hx]

/-- The slots are as they were. -/
theorem Rewired.live_slot (hr : Rewired d h id y inRank names s s₀ s₂) (hc : Settled d s) (hj : AllJoined s)
    (htakes : TakesOwn s h y inRank) (hmap : ¬ d.HasMap x rank.link) :
    Live s₂ x (.slot rank) z i ↔ Live s x (.slot rank) z i := by
  rw [LinkGraph.live_slot hr.after hmap, LinkGraph.live_slot hc hmap]
  constructor
  · rintro ⟨p, l, hl, hsource, hends⟩
    have hp : p ≠ s₀.next := by
      rintro rfl
      obtain rfl := Option.some.inj (hr.new.symm.trans hl)
      obtain ⟨hx, rfl⟩ := hsource
      obtain rfl := Option.some.inj hx
      exact hmap ⟨hr.demux, rfl⟩
    exact ⟨p, l, (hr.old hl hp).1, hsource, hends⟩
  · rintro ⟨p, l, hl, hsource, hends⟩
    have hslot := (output_iff hc hmap hl).2 hsource
    have hin : s₀.links y inRank.link ≠ some p := by
      intro hlink
      have hset : ¬ d.HasSet y inRank.link := by
        intro hset
        rw [hr.before.single y _ (Or.inl hset)] at hlink
        cases hlink
      have hlink' := ((hr.drops.links hc hr.before hset (not_hasMap_input y inRank)).1 hlink).1
      obtain ⟨id', he⟩ := htakes.1 p hlink'
      exact slot_ne_channel hc hj hmap hslot he
    exact ⟨p, l, (hr.kept hl (slot_ne_channel hc hj hmap hslot) hin).1, hsource, hends⟩

/-- The channels: the identifier's link and those to the target make room for the new one. -/
theorem Rewired.live_channel (hr : Rewired d h id y inRank names s s₀ s₂) (hc : Settled d s)
    (hj : AllJoined s) (htakes : TakesOwn s h y inRank) {id' : Octet} :
    Live s₂ x (.channel id') z i ↔ (Live s x (.channel id') z i ∧ ¬ (x = h ∧ (id' = id ∨ z = y))) ∨
      (x = h ∧ id' = id ∧ z = y ∧ i = inRank) := by
  have hlinks : ∀ p, s₀.links y inRank.link = some p ↔
      s.links y inRank.link = some p ∧ (id, p) ∉ s.primaryOutputLinks h := by
    intro p
    by_cases hset : d.HasSet y inRank.link
    · rw [hr.before.single y _ (Or.inl hset), hc.single y _ (Or.inl hset)]
      exact iff_of_false (by simp) fun hn => by cases hn.1
    · exact hr.drops.links hc hr.before hset (not_hasMap_input y inRank)
  -- the maps afterwards
  have hmaps : ∀ e, e ∈ s₂.primaryOutputLinks x ↔ ((x = h ∧ e = (id, s₀.next)) ∨
      (e ∈ s₀.primaryOutputLinks x ∧ ¬ (x = h ∧ e.1 = id))) ∧ s₀.links y inRank.link ≠ some e.2 := by
    intro e
    refine (hr.takes.map x e).trans (and_congr_left fun _ => ?_)
    show e ∈ Function.update s₀.primaryOutputLinks h (assign id s₀.next (s₀.primaryOutputLinks h)) x ↔ _
    by_cases hx : x = h
    · subst hx
      rw [Function.update_self, mem_assign (hr.before.keys x)]
      simp only [true_and]
    · rw [Function.update_of_ne hx]
      simp only [hx, false_and, false_or, not_false_eq_true, and_true]
  constructor
  · rintro ⟨p, l, he, hl, hy, hi⟩
    by_cases hp : p = s₀.next
    · subst hp
      obtain rfl := Option.some.inj (hr.new.symm.trans hl)
      rcases ((hmaps _).1 he).1 with ⟨hx, he⟩ | ⟨he, -⟩
      · exact Or.inr ⟨hx, (Prod.mk.inj he).1, (Option.some.inj hy).symm, hi.symm⟩
      · exact absurd (hr.before.toTidy.holds_of_mem he).2 hr.before.fresh
    · obtain ⟨hl', hne, hin⟩ := hr.old hl hp
      rcases ((hmaps _).1 he).1 with ⟨-, he⟩ | ⟨he, hid⟩
      · exact absurd (Prod.mk.inj he).2 hp
      · have he' := ((hr.drops.map x _).1 he).1
        refine Or.inl ⟨⟨p, l, he', hl', hy, hi⟩, ?_⟩
        rintro ⟨rfl, rfl | rfl⟩
        · exact hid ⟨rfl, rfl⟩
        · exact hin ((hlinks p).2 ⟨htakes.2 _ p l he' hl' hy, hne⟩)
  · rintro (⟨⟨p, l, he, hl, hy, hi⟩, hnot⟩ | ⟨rfl, rfl, rfl, rfl⟩)
    · have hsource : ∀ id'', (id'', p) ∈ s.primaryOutputLinks h → x = h := by
        intro id'' he'
        obtain ⟨-, hx, -⟩ := channel_source hc hj he hl
        obtain ⟨-, hh, -⟩ := channel_source hc hj he' hl
        exact Option.some.inj (hx.symm.trans hh)
      have hne : (id, p) ∉ s.primaryOutputLinks h := by
        intro he'
        obtain rfl := hsource id he'
        exact hnot ⟨rfl, Or.inl (Prod.mk.inj (hc.toTidy.link_unique he he' rfl)).1⟩
      have hin : s₀.links y inRank.link ≠ some p := by
        intro hlink
        have hlink' := ((hlinks p).1 hlink).1
        obtain ⟨id'', he'⟩ := htakes.1 p hlink'
        have hz := Option.some.inj (hy.symm.trans (target_of_input hc hl hlink'))
        exact hnot ⟨hsource id'' he', Or.inr hz⟩
      refine ⟨p, l, (hmaps _).2 ⟨Or.inr ⟨(hr.drops.map x _).2 ⟨he, hne⟩, ?_⟩, hin⟩,
        (hr.kept hl hne hin).1, hy, hi⟩
      rintro ⟨hx, rfl⟩
      exact hnot ⟨hx, Or.inl rfl⟩
    · refine ⟨s₀.next, _, (hmaps _).2 ⟨Or.inl ⟨rfl, rfl⟩, fun hgone => ?_⟩, hr.new, rfl, rfl⟩
      have hdead := hr.takes.dead _ hgone
      rw [hr.new] at hdead
      cases hdead

/-- **The settings after a channel is connected**, when the names left are those of the other
channels. -/
theorem saved_channel (hr : Rewired d h id y inRank names s s₀ s₂) (hc : Settled d s) (hj : AllJoined s)
    (hs : Saved s) (htakes : TakesOwn s h y inRank) (honce : OncePerTarget names)
    (hnames : ∀ e, e ∈ names ↔ e ∈ s.outputNames h ∧ e.2.2 ≠ id) :
    Saved (s₂.setNames h (Handlers.addName y inRank id (s₂.outputNames h))) := by
  have hrest := hr.outputNames_eq
  have houtput : s₂.output = s.output := hr.takes.rest.output.trans hr.drops.rest.output
  have hself : s₂.outputNames h = names := by rw [hrest, if_pos rfl]
  have hadd : ∀ x, (s₂.setNames h (Handlers.addName y inRank id (s₂.outputNames h))).outputNames x =
      if x = h then Handlers.addName y inRank id names else s.outputNames x := by
    intro x
    show Function.update s₂.outputNames h _ x = _
    by_cases hx : x = h
    · subst hx
      rw [Function.update_self, if_pos rfl, hself]
    · rw [Function.update_of_ne hx, hrest, if_neg hx, if_neg hx]
  refine ⟨?_, fun x => ?_⟩
  · rintro x (r | id') z j
    · show s₂.output x r = _ ↔ Live s₂ x (.slot r) z j
      rw [houtput]
      refine (hs.exact x (.slot r) z j).trans ?_
      by_cases hmap : d.HasMap x r.link
      · exact iff_of_false (not_live_slot hc hmap) (not_live_slot hr.after hmap)
      · exact (hr.live_slot hc hj htakes hmap).symm
    · show (z, j, id') ∈ _ ↔ Live s₂ x (.channel id') z j
      rw [hr.live_channel hc hj htakes, hadd]
      have hold : (z, j, id') ∈ s.outputNames x ↔ Live s x (.channel id') z j :=
        hs.exact x (.channel id') z j
      by_cases hx : x = h
      · subst hx
        rw [if_pos rfl, mem_addName honce, hnames, hold]
        simp only [true_and, Prod.mk.injEq, not_or]
        constructor
        · rintro (⟨⟨hlive, hid⟩, hz⟩ | ⟨rfl, rfl, rfl⟩)
          · exact Or.inl ⟨hlive, hid, hz⟩
          · exact Or.inr ⟨rfl, rfl, rfl⟩
        · rintro (⟨hlive, hid, hz⟩ | ⟨rfl, rfl, rfl⟩)
          · exact Or.inl ⟨⟨hlive, hid⟩, hz⟩
          · exact Or.inr ⟨rfl, rfl, rfl⟩
      · rw [if_neg hx, hold]
        simp only [hx, false_and, not_false_eq_true, and_true, or_false]
  · rw [hadd]
    split_ifs
    · exact List.Nodup.of_map _ (honce.addName y inRank id)
    · exact hs.nodup x

end Channels

/-! ## Whole runs -/

/-- The settings stay in step with the links: a new link takes its input from no other output than the
one that is connected, a demultiplexer is connected to no target twice, and a handler is withdrawn
when it has no links. -/
def Op.InStep (s : Net ι) : Op ι → Prop
  | connectOutput h y outRank inRank =>
    ∀ q, s.links y inRank.link = some q → s.links h outRank.link = some q
  | connectPrimaryOutput h id y inRank =>
    (∃ p l, (id, p) ∈ s.primaryOutputLinks h ∧ s.heap p = some l ∧ l.target = some y) ∨
      TakesOwn s h y inRank
  | disconnectOutput _ _ => True
  | withdraw h => ∀ p l, s.heap p = some l → l.source ≠ some h ∧ l.target ≠ some h

/-- What holds in a run in step. -/
structure Kept (d : Handlers ι) (s : Net ι) : Prop where
  settled : Settled d s
  joined : AllJoined s
  saved : Saved s
  once : ∀ h, OncePerTarget (s.outputNames h)

variable [DecidableEq ι]

theorem kept_disconnect {s₁ : Net ι} (hk : Kept d s) (hmap : ¬ d.HasMap h outRank.link)
    (hc₁ : Settled d s₁) (hd₁ : Drops (fun q => s.links h outRank.link = some q) s s₁) :
    Kept d (s₁.setOutput h outRank none) := by
  have hj₁ : AllJoined s₁ := hk.joined.shrinks ⟨_, hd₁⟩
  refine ⟨hc₁.setOutput h outRank none, hj₁,
    saved_disconnect hk.settled hk.joined hk.saved hmap hc₁ hd₁, fun a => ?_⟩
  show OncePerTarget (s₁.outputNames a)
  rw [hd₁.rest.outputNames]
  exact hk.once a

theorem kept_connectOutput (hk : Kept d s) {k : ℕ}
    (hstep : (Op.connectOutput h y outRank inRank).InStep s)
    (hrun : d.baseConnectOutput k h y outRank inRank s = .ok (none, s')) : Kept d s' := by
  obtain ⟨s₁, hdisc, -, -, ⟨hr, -⟩ | ⟨-, s₂, rfl, hc₂, hd₂⟩⟩ := baseConnectOutput_ok hk.settled hrun
  · exact absurd rfl hr
  have hk₁ := kept_disconnect hk hdisc.slot hdisc.settled hdisc.drops
  have hgone : ∀ q, ¬ s₁.links y inRank.link = some q := by
    intro q hlink
    have hset : ¬ d.HasSet y inRank.link := by
      intro hset
      rw [hdisc.settled.single y _ (Or.inl hset)] at hlink
      cases hlink
    obtain ⟨hlink', hn⟩ := (hdisc.drops.links hk.settled hdisc.settled hset
      (not_hasMap_input y inRank)).1 hlink
    exact hn (hstep q hlink')
  have hj₂ : AllJoined s₂ := hk₁.joined.between hd₂ fun q hq => setHeap_of_ne hq _
  refine ⟨hc₂.setOutput h outRank _, hj₂,
    saved_connect hk₁.settled hk₁.saved hdisc.slot hdisc.empty hgone hc₂ hd₂, fun a => ?_⟩
  show OncePerTarget (s₂.outputNames a)
  rw [hd₂.rest.outputNames]
  exact hk₁.once a

/-- The names that are left are those of the other identifiers. -/
theorem names_left (hk : Kept d s) (hold : (∀ e ∈ s.primaryOutputLinks h, e.1 ≠ id) ∧
      names = s.outputNames h ∨ ∃ p l, (id, p) ∈ s.primaryOutputLinks h ∧ s.heap p = some l ∧
        l.target ≠ some y ∧ ((∃ z, l.target = some z ∧
          names = Handlers.removeNames z (s.outputNames h)) ∨
            l.Half ∧ names = [] ∧ s.outputNames h = [])) :
    OncePerTarget names ∧ ∀ e, e ∈ names ↔ e ∈ s.outputNames h ∧ e.2.2 ≠ id := by
  have hlive : ∀ e ∈ s.outputNames h, Live s h (.channel e.2.2) e.1 e.2.1 :=
    fun e he => (hk.saved.exact h (.channel e.2.2) e.1 e.2.1).1 he
  rcases hold with ⟨hid, rfl⟩ | ⟨p, l, hp, hl, -, ⟨z, hz, rfl⟩ | ⟨hhalf, -⟩⟩
  · refine ⟨hk.once h, fun e => ⟨fun he => ⟨he, ?_⟩, And.left⟩⟩
    obtain ⟨q, -, hq, -⟩ := hlive e he
    exact hid _ hq
  · rw [removeNames_eq z (hk.once h)]
    refine ⟨(hk.once h).sublist (List.filter_sublist.map _), fun e => ?_⟩
    rw [List.mem_filter, decide_eq_true_eq]
    refine and_congr_right fun he => not_congr ?_
    constructor
    · -- the sublist of the target is the one of this link
      rintro rfl
      have hname : (e.1, l.targetInputRank, id) ∈ s.outputNames h :=
        (hk.saved.exact h (.channel id) e.1 l.targetInputRank).2 ⟨p, l, hp, hl, hz, rfl⟩
      rw [List.inj_on_of_nodup_map (hk.once h) he hname rfl]
    · rintro rfl
      obtain ⟨q, l', hq, hl', hy, -⟩ := hlive e he
      obtain rfl := (Prod.mk.inj (hk.settled.toTidy.key_unique hp hq rfl)).2
      obtain rfl := Option.some.inj (hl.symm.trans hl')
      exact Option.some.inj (hy.symm.trans hz)
  · exact absurd hhalf (hk.joined p l hl).not_half

theorem kept_connectPrimaryOutput (hk : Kept d s) {k : ℕ} (hdemux : d.kind h = .demux)
    (hstep : (Op.connectPrimaryOutput h id y inRank).InStep s)
    (hrun : d.connectPrimaryOutput k h id y inRank s = .ok (none, s')) : Kept d s' := by
  rcases connectPrimaryOutput_ok hk.settled hdemux hrun with
    ⟨-, rfl, -⟩ | ⟨s₀, names, hc₀, hd₀, hold, hnew⟩
  · exact hk
  have hlinked : ¬ ∃ p l, (id, p) ∈ s.primaryOutputLinks h ∧ s.heap p = some l ∧
      l.target = some y := by
    rintro ⟨p, l, hp, hl, hy⟩
    rcases hold with ⟨hid, -⟩ | ⟨p', l', hp', hl', hy', -⟩
    · exact hid _ hp rfl
    · obtain rfl := (Prod.mk.inj (hk.settled.toTidy.key_unique hp hp' rfl)).2
      obtain rfl := Option.some.inj (hl.symm.trans hl')
      exact hy' hy
  have htakes := hstep.resolve_left hlinked
  have hid : ∀ e ∈ (s₀.setNames h names).primaryOutputLinks h, e.1 ≠ id := by
    rintro e he rfl
    obtain ⟨hmem, hn⟩ := (hd₀.map h e).1 he
    exact hn hmem
  obtain ⟨-, -, ⟨hr, -⟩ | ⟨-, s₂, rfl, hc₂, hd₂⟩⟩ :=
    connectNewOutput_ok (hc₀.setNames h names) hdemux hid hnew
  · exact absurd rfl hr
  obtain ⟨honce, hnames⟩ := names_left hk hold
  have hr : Rewired d h id y inRank names s s₀ s₂ := ⟨hdemux, hc₀, hd₀, hc₂, hd₂⟩
  have hj₀ : AllJoined s₀ := hk.joined.shrinks ⟨_, hd₀⟩
  have hj₂ : AllJoined s₂ := hj₀.between hd₂ fun q hq => setHeap_of_ne hq _
  refine ⟨hc₂.setNames h _, hj₂, saved_channel hr hk.settled hk.joined hk.saved htakes honce hnames,
    fun x => ?_⟩
  show OncePerTarget (Function.update s₂.outputNames h _ x)
  by_cases hx : x = h
  · subst hx
    rw [Function.update_self, hr.outputNames_eq, if_pos rfl]
    exact honce.addName y inRank id
  · rw [Function.update_of_ne hx, hr.outputNames_eq, if_neg hx]
    exact hk.once x

/-- Nothing happens to a handler without links that is withdrawn. -/
theorem withdraw_unlinked (hk : Kept d s) (hstep : (Op.withdraw h).InStep s) {k : ℕ}
    (hrun : d.withdraw k h s = .ok s') : s' = s := by
  have hnot : ∀ t p, ¬ d.Holds s h t p := by
    intro t p hh
    obtain ⟨l, hl, hcase⟩ := hk.settled.live h t p hh
    rcases hcase with ⟨hhold, -⟩ | ⟨hhalf, -⟩
    · rcases (l.holder_eq _ _).1 hhold with ⟨ht, -⟩ | ⟨hs, -⟩
      · exact (hstep p l hl).2 ht
      · exact (hstep p l hl).1 hs
    · exact absurd hhalf (hk.joined p l hl).not_half
  have hslot : ∀ t, s.links h t = none := by
    intro t
    by_cases hst : d.HasSet h t ∨ d.HasMap h t
    · exact hk.settled.single h t hst
    · rw [not_or] at hst
      rw [Option.eq_none_iff_forall_ne_some]
      exact fun p hp => hnot t p ((holds_single hst.1 hst.2).2 hp)
  have hbase : d.baseWithdraw h s = .ok s := by
    unfold Handlers.baseWithdraw Handlers.deleteSlot
    simp only [hslot, bind, Except.bind]
  unfold Handlers.withdraw at hrun
  cases hkind : d.kind h with
  | plain =>
    simp only [hkind] at hrun
    exact Except.ok.inj (hrun.symm.trans hbase)
  | mux =>
    have hnil : s.primaryInputLinks h = [] := by
      refine List.eq_nil_iff_forall_not_mem.2 fun p hp => hnot .PrimaryInputLink p ?_
      exact (holds_set ⟨hkind, rfl⟩).2 hp
    have hins : d.withdrawInputs h k s = .ok s := by
      unfold Handlers.withdrawInputs
      cases k with
      | zero => exact if_pos hnil
      | succ k => simp only [hnil]
    simp only [hkind, hins, setInputs_nil hnil, bind, Except.bind] at hrun
    exact Except.ok.inj (hrun.symm.trans hbase)
  | demux =>
    have hnil : s.primaryOutputLinks h = [] := by
      refine List.eq_nil_iff_forall_not_mem.2 fun e he => hnot .PrimaryOutputLink e.2 ?_
      exact (hk.settled.toTidy.holds_of_mem he).2
    have hself : s.setOutputs h [] = s := by
      unfold Net.setOutputs
      rw [← hnil, Function.update_eq_self]
    simp only [hkind, hnil, Handlers.withdrawOutputs, hself, bind, Except.bind] at hrun
    exact Except.ok.inj (hrun.symm.trans hbase)

/-- **One operation in step.** -/
theorem kept_step (hk : Kept d s) {o : Op ι} (ho : o.Defined d) (hstep : o.InStep s) {k : ℕ}
    (hrun : o.run d k s = .ok (none, s')) : Kept d s' := by
  cases o with
  | connectOutput h y outRank inRank =>
    replace hrun : d.connectOutput k h y outRank inRank s = .ok (none, s') := hrun
    unfold Handlers.connectOutput at hrun
    split_ifs at hrun
    · cases Except.ok.inj hrun
    · exact kept_connectOutput hk hstep hrun
  | connectPrimaryOutput h id y inRank => exact kept_connectPrimaryOutput hk ho hstep hrun
  | disconnectOutput h outRank =>
    obtain ⟨s₁, hdisc, hrun⟩ := Framing.bind_ok hrun
    obtain ⟨-, rfl⟩ := Prod.mk.inj (Except.ok.inj hrun)
    obtain ⟨hmap, -, s₂, rfl, -, hc₂, hd₂, -⟩ := disconnectOutput_ok hk.settled hdisc
    exact kept_disconnect hk hmap hc₂ hd₂
  | withdraw h =>
    obtain ⟨s₁, hwith, hrun⟩ := Framing.bind_ok hrun
    obtain ⟨-, rfl⟩ := Prod.mk.inj (Except.ok.inj hrun)
    rw [withdraw_unlinked hk hstep hwith]
    exact hk

/-- **The saved topology is the live one** in runs of successful operations that stay in step. -/
theorem saved_of_inStep (hrun : Run d (fun s o r => r = none ∧ o.InStep s) s) : Saved s := by
  have hkept : Kept d s := by
    induction hrun with
    | start =>
      have hj : AllJoined ({} : Net ι) := fun p l hl => by cases hl
      refine ⟨settled_start d, hj, ⟨?_, fun _ => List.nodup_nil⟩, fun _ => List.nodup_nil⟩
      rintro x (r | id) y i
      · refine iff_of_false (fun hsaved => by cases hsaved) ?_
        rintro ⟨p, l, hlink, -⟩
        cases hlink
      · refine iff_of_false List.not_mem_nil ?_
        rintro ⟨p, l, hmem, -⟩
        exact List.not_mem_nil hmem
    | op _ ho hallowed hrun ih =>
      obtain ⟨rfl, hstep⟩ := hallowed
      exact kept_step ih ho hstep hrun
  exact hkept.saved

/-- A demultiplexer and a handler that it may be connected to. -/
def fromDemux : Handlers Bool where
  kind h := if h then .plain else .demux
  auxQueue _ := false

/-- The first channel of a demultiplexer. -/
theorem saved_of_inStep_channel : ∃ s : Net Bool,
    s.outputNames false = [(true, .PrimaryInput, 5)] ∧ Saved s := by
  have hdec : ((Op.connectPrimaryOutput false 5 true .PrimaryInput).run fromDemux 1 {}).toOption.map
      (fun r => (r.1, r.2.outputNames false)) = some (none, [(true, .PrimaryInput, 5)]) := by decide
  cases hrun : (Op.connectPrimaryOutput false 5 true .PrimaryInput).run fromDemux 1 {} with
  | error c =>
    rw [hrun] at hdec
    cases hdec
  | ok r =>
    rw [hrun] at hdec
    obtain ⟨hr, hnames⟩ := Prod.mk.inj (Option.some.inj hdec)
    have hstep : (Op.connectPrimaryOutput false 5 true .PrimaryInput).InStep {} := by
      refine Or.inr ⟨fun q hq => ?_, fun id q l hmem => absurd hmem List.not_mem_nil⟩
      cases hq
    have hall : Run fromDemux (fun s o r => r = none ∧ o.InStep s) r.2 :=
      Run.op (o := .connectPrimaryOutput false 5 true .PrimaryInput) Run.start (by rfl) ⟨hr, hstep⟩ hrun
    exact ⟨r.2, hnames, saved_of_inStep hall⟩

/-- Three handlers. -/
def threeHandlers : Handlers (Fin 3) where
  kind _ := .plain
  auxQueue _ := false

/-- A handler whose input was taken by another still has its target in the settings. -/
theorem taken_input_stale : ¬ ∀ s : Net (Fin 3), Run threeHandlers (fun _ _ r => r = none) s →
    Saved s := by
  intro hclaim
  have hdec : (succeed threeHandlers 1 [.connectOutput 0 2 .PrimaryOutput .PrimaryInput,
      .connectOutput 1 2 .PrimaryOutput .PrimaryInput] {}).map
        (fun s => (s.output 0 .PrimaryOutput, s.links 0 .PrimaryOutputLink)) =
          some (some (2, .PrimaryInput), none) := by decide
  obtain ⟨s, hs, hdec⟩ := Option.map_eq_some_iff.1 hdec
  obtain ⟨houtput, hlink⟩ := Prod.mk.inj hdec
  have hrun : Run threeHandlers (fun _ _ r => r = none) s :=
    run_succeed (fun _ _ => rfl) (by simp [Op.Defined]) Run.start hs
  obtain ⟨p, l, hlive, -⟩ := ((hclaim s hrun).exact 0 (.slot .PrimaryOutput) 2 .PrimaryInput).1 houtput
  cases hlink.symm.trans hlive

end LinkGraph

end ChannelEmulator
