import ChannelEmulator.Proof.ChannelSegments

/-!
# The wiring of forward channels

The macros insert a segment behind another that is there already. As long as every segment that is no
multiplexer is given one input at most, the links of before stay.

* `Extends`: what the services of a master channel do to a channel.
* `AOS.newForwardChannel_ok`, `TM.newForwardChannel_ok`: **what the virtual channel generators lead
  through**.
* `AOS.wired_iff`, `TM.wired_iff`: **when that is what they are to lead through**.
-/

namespace ChannelEmulator.Macros

open LinkGraph

variable {ch ch' ch₁ ch₂ : Channel} {a b g t u v : Segment} {name : String} {mc : Option ℕ} {m n : ℕ}

/-! ## Room for inputs -/

/-- No segment outputs to this one. -/
def Free (ch : Channel) (t : Segment) : Prop := ∀ a, ch.next a ≠ some t

/-- An input does not take the place of another. -/
def Open (ch : Channel) (t : Segment) : Prop := t.dll.kind = .mux ∨ Free ch t

/-- There is room for this many inputs. -/
def Room (ch : Channel) (t : Segment) (n : ℕ) : Prop :=
  t.dll.kind = .mux ∨ n = 0 ∨ (n = 1 ∧ Free ch t)

theorem Room.isOpen (h : Room ch t (n + 1)) : Open ch t := by
  rcases h with h | h | ⟨-, h⟩
  · exact .inl h
  · omega
  · exact .inr h

/-- One input less. -/
theorem Room.next (h : Room ch t (n + 1)) : Room ch' t n := by
  rcases h with h | h | ⟨h, -⟩
  · exact .inl h
  · omega
  · exact .inr (.inl (by omega))

theorem Added.next_eq (h : Added ch ch' g (some u)) (hopen : Open ch u) (ha : a ≠ g) :
    ch'.next a = ch.next a := by
  rcases h.next_old a ha with heq | ⟨-, t, ht, hkind, hnext⟩
  · exact heq
  · obtain rfl := Option.some.inj ht
    rcases hopen with hmux | hfree
    · exact absurd hmux hkind
    · exact absurd hnext (hfree a)

/-- Links of before are all that segments of before have. -/
theorem Added.next_back {target : Option Segment} (h : Added ch ch' g target) (ha : a ∈ ch.segments)
    (hnext : ch'.next a = some t) : ch.next a = some t := by
  rcases h.next_old a (fun heq => h.new (heq ▸ ha)) with heq | ⟨hnone, -⟩
  · exact heq.symm.trans hnext
  · rw [hnone] at hnext
    cases hnext

theorem Added.mem_old {target : Option Segment} (h : Added ch ch' g target) (ha : a ∈ ch.segments) :
    a ∈ ch'.segments := by
  rw [h.segments]
  exact List.mem_append_left _ ha

theorem Added.mem_new {target : Option Segment} (h : Added ch ch' g target) : g ∈ ch'.segments := by
  rw [h.segments]
  exact List.mem_append_right _ (List.mem_singleton.2 rfl)

theorem Added.free_new {target : Option Segment} (hg : Good ch) (h : Added ch ch' g target) :
    Free ch' g := by
  intro a hnext
  by_cases ha : a = g
  · subst ha
    exact h.new (h.target_mem a (h.next_new.symm.trans hnext))
  · rcases h.next_old a ha with heq | ⟨hnone, -⟩
    · exact h.new (hg.inside_next (heq.symm.trans hnext)).2
    · rw [hnone] at hnext
      cases hnext

/-! ## Extending a channel -/

/-- The place of a stage, from the sync marker on: 0 for what is no stage. -/
def Module.stage : Module → ℕ
  | ASM_Add => 1
  | PseudoRandomize => 2
  | RSEncode => 3
  | AOS_AF_Gen | TM_AF_Gen => 4
  | AOS_MC_Mux | TM_MC_Mux => 5
  | _ => 0

/-- The number of virtual channel generators. -/
def Channel.gens (ch : Channel) : ℕ := ch.segments.countP fun g => g.dll.isVCGen

theorem Added.gens_eq {target : Option Segment} (h : Added ch ch' g target) :
    ch'.gens = ch.gens + g.dll.isVCGen.toNat := by
  unfold Channel.gens
  rw [h.segments, List.countP_append, List.countP_singleton]
  cases g.dll.isVCGen <;> rfl

/-- New segments have come that are no stages, of which `n` are virtual channel generators, all of the master channel
`mc` and behind `v`. No other segment of before has a new input. -/
structure Extends (v : Segment) (mc : Option ℕ) (n : ℕ) (ch ch' : Channel) : Prop where
  good : Good ch'
  old : ∀ a ∈ ch.segments, a ∈ ch'.segments ∧ ch'.next a = ch.next a
  into : ∀ a t, ch'.next a = some t → t ∈ ch.segments → a ∈ ch.segments ∨ t = v
  generators : ∀ a ∈ ch'.segments, a ∉ ch.segments → a.dll.isVCGen = true →
    ch'.next a = some v ∧ ∃ m, mc = some m ∧ a.SCID = some m
  stages : ∀ a ∈ ch'.segments, a ∉ ch.segments → a.dll.stage = 0
  count : ch'.gens = ch.gens + n

theorem Extends.refl (hg : Good ch) : Extends v mc 0 ch ch where
  good := hg
  old _ ha := ⟨ha, rfl⟩
  into _ _ h _ := .inl (hg.inside_next h).1
  generators _ ha hn := absurd ha hn
  stages _ ha hn := absurd ha hn
  count := rfl

theorem Extends.trans (h₁ : Extends v mc m ch ch₁) (h₂ : Extends v mc n ch₁ ch₂) :
    Extends v mc (m + n) ch ch₂ where
  good := h₂.good
  old a ha := by
    obtain ⟨ha₁, heq₁⟩ := h₁.old a ha
    obtain ⟨ha₂, heq₂⟩ := h₂.old a ha₁
    exact ⟨ha₂, heq₂.trans heq₁⟩
  into a t hnext ht := by
    rcases h₂.into a t hnext (h₁.old t ht).1 with ha₁ | rfl
    · exact h₁.into a t ((h₂.old a ha₁).2.symm.trans hnext) ht
    · exact .inr rfl
  generators a ha hn hgen := by
    by_cases ha₁ : a ∈ ch₁.segments
    · obtain ⟨hnext, hmc⟩ := h₁.generators a ha₁ hn hgen
      exact ⟨(h₂.old a ha₁).2.trans hnext, hmc⟩
    · exact h₂.generators a ha ha₁ hgen
  stages a ha hn := by
    by_cases ha₁ : a ∈ ch₁.segments
    · exact h₁.stages a ha₁ hn
    · exact h₂.stages a ha ha₁
  count := by rw [h₂.count, h₁.count, Nat.add_assoc]

/-- One segment more, behind `v` or behind a new one. -/
theorem Extends.add (h : Extends v mc n ch ch₁) (ha : Added ch₁ ch₂ g (some u)) (hopen : Open ch₁ u)
    (hu : u = v ∨ u ∉ ch.segments)
    (hgen : g.dll.isVCGen = true → u = v ∧ ∃ m, mc = some m ∧ g.SCID = some m) (hstage : g.dll.stage = 0) :
    Extends v mc (n + g.dll.isVCGen.toNat) ch ch₂ where
  good := ha.good
  old a hold := by
    obtain ⟨ha₁, heq₁⟩ := h.old a hold
    have hag : a ≠ g := fun heq => ha.new (heq ▸ ha₁)
    exact ⟨ha.mem_old ha₁, (ha.next_eq hopen hag).trans heq₁⟩
  into a t hnext ht := by
    by_cases hag : a = g
    · subst hag
      obtain rfl := Option.some.inj (ha.next_new.symm.trans hnext)
      exact .inr (hu.resolve_right fun hn => hn ht)
    · exact h.into a t ((ha.next_eq hopen hag).symm.trans hnext) ht
  generators a hmem hn hisgen := by
    rw [ha.segments] at hmem
    rcases List.mem_append.1 hmem with ha₁ | hag
    · have hag : a ≠ g := fun heq => ha.new (heq ▸ ha₁)
      obtain ⟨hnext, hmc⟩ := h.generators a ha₁ hn hisgen
      exact ⟨(ha.next_eq hopen hag).trans hnext, hmc⟩
    · obtain rfl := List.mem_singleton.1 hag
      obtain ⟨rfl, hmc⟩ := hgen hisgen
      exact ⟨ha.next_new, hmc⟩
  stages a hmem hn := by
    rw [ha.segments] at hmem
    rcases List.mem_append.1 hmem with ha₁ | hag
    · exact h.stages a ha₁ hn
    · rw [List.mem_singleton.1 hag]
      exact hstage
  count := by rw [ha.gens_eq, h.count, Nat.add_assoc]

/-- The same of a call of `addSegment`. -/
theorem Extends.addSegment (h : Extends v mc n ch ch₁) (props : ChannelProps) {dll : Module}
    {baseName : String} (hbase : baseName ≠ "") (num1 num2 SCID : Option ℕ) (ht : u ∈ ch₁.segments)
    (hopen : Open ch₁ u) (hu : u = v ∨ u ∉ ch.segments)
    (hgen : dll.isVCGen = true → u = v ∧ ∃ m, mc = some m ∧ SCID = some m) (hstage : dll.stage = 0) :
    ∃ ch₂ g, Macros.addSegment props ch₁ dll baseName num1 num2 SCID (some u.segName) =
        .ok (ch₂, g.segName) ∧ g.dll = dll ∧ g.SCID = SCID ∧
      Extends v mc (n + dll.isVCGen.toNat) ch ch₂ ∧ g ∈ ch₂.segments ∧ g ∉ ch.segments ∧ Free ch₂ g ∧
      ch₂.next g = some u := by
  obtain ⟨ch₂, g, hrun, -, rfl, rfl, ha⟩ := addSegment_ok h.good props dll hbase num1 num2 SCID
    (.segment u ht)
  exact ⟨ch₂, g, hrun, rfl, rfl, h.add ha hopen hu hgen hstage, ha.mem_new, fun hold => ha.new (h.old g hold).1,
    ha.free_new h.good, ha.next_new⟩

/-! ## Ways through the channel -/

theorem Good.leads (hg : Good ch) (hold : ∀ a ∈ ch.segments, ch'.next a = ch.next a) {path : List Segment}
    (ha : a ∈ ch.segments) (hlead : ch.Leads a path) : ch'.Leads a path := by
  induction path generalizing a with
  | nil => exact (hold a ha).trans hlead
  | cons t path ih =>
    obtain ⟨hnext, hrest⟩ := hlead
    exact ⟨(hold a ha).trans hnext, ih (hg.inside_next hnext).2 hrest⟩

theorem Extends.leads (h : Extends v mc n ch ch') (hg : Good ch) {path : List Segment}
    (ha : a ∈ ch.segments) (hlead : ch.Leads a path) : ch'.Leads a path :=
  hg.leads (fun a ha => (h.old a ha).2) ha hlead

/-- There is one way. -/
theorem leads_unique {p q : List Segment} (hp : ch.Leads a p) (hq : ch.Leads a q) : p = q := by
  induction p generalizing a q with
  | nil =>
    cases q with
    | nil => rfl
    | cons t q => cases hp.symm.trans hq.1
  | cons t p ih =>
    cases q with
    | nil => cases hp.1.symm.trans hq
    | cons u q =>
      obtain rfl := Option.some.inj (hp.1.symm.trans hq.1)
      rw [ih hp.2 hq.2]

/-- A segment of the channel and those it leads through. -/
def Chain (ch : Channel) (t : Segment) (w : List (Module × Option ℕ)) : Prop :=
  t ∈ ch.segments ∧ ∃ path, ch.Leads t path ∧ (t :: path).map (fun u => (u.dll, u.SCID)) = w

theorem Extends.chain {w : List (Module × Option ℕ)} (h : Extends v mc n ch ch') (hg : Good ch)
    (hchain : Chain ch t w) : Chain ch' t w := by
  obtain ⟨ht, path, hlead, hw⟩ := hchain
  exact ⟨(h.old t ht).1, path, h.leads hg ht hlead, hw⟩

/-- The generators that are new lead through what `v` leads through. -/
theorem Extends.wired {w : ℕ → List (Module × Option ℕ)} (h : Extends v mc n ch ch') (hg : Good ch)
    (hw : Wired w ch) (hchain : ∀ m, mc = some m → Chain ch v (w m)) : Wired w ch' := by
  intro g hmem hgen
  by_cases hold : g ∈ ch.segments
  · obtain ⟨m, path, hm, hlead, hpath⟩ := hw g hold hgen
    exact ⟨m, path, hm, h.leads hg hold hlead, hpath⟩
  · obtain ⟨hnext, m, hmc, hm⟩ := h.generators g hmem hold hgen
    obtain ⟨hv, path, hlead, hpath⟩ := hchain m hmc
    exact ⟨m, v :: path, hm, ⟨hnext, h.leads hg hv hlead⟩, hpath⟩

/-- A loop whose turns give `v` an input each. -/
theorem repeatTurns_extends {σ : Type} {turn : σ → Except Failure σ} (channel : σ → Channel) {j : ℕ}
    (hturn : ∀ s, Good (channel s) → v ∈ (channel s).segments → Open (channel s) v →
      ∃ s', turn s = .ok s' ∧ Extends v mc j (channel s) (channel s'))
    (n r : ℕ) (s : σ) (hg : Good (channel s)) (hv : v ∈ (channel s).segments)
    (hroom : Room (channel s) v (n + r)) :
    ∃ s', repeatTurns turn n s = .ok s' ∧ Extends v mc (n * j) (channel s) (channel s') ∧
      Room (channel s') v r := by
  induction n generalizing s with
  | zero =>
    rw [Nat.zero_add] at hroom
    exact ⟨s, rfl, by rw [Nat.zero_mul]; exact Extends.refl hg, hroom⟩
  | succ n ih =>
    rw [Nat.succ_add] at hroom
    obtain ⟨s₁, hrun, he⟩ := hturn s hg hv hroom.isOpen
    obtain ⟨s₂, hruns, hes, hroom'⟩ := ih s₁ he.good (he.old v hv).1 hroom.next
    refine ⟨s₂, ?_, ?_, hroom'⟩
    · show (turn s >>= _) = _
      rw [hrun]
      exact hruns
    · rw [Nat.succ_mul, Nat.add_comm]
      exact he.trans hes

/-! ## The stages -/

/-- The stages that the frame generator leads through: the encoder has no output without a sync
marker. -/
def ChannelProps.linkedStages (props : ChannelProps) : List Module :=
  if (props.maxErrorsReedSolomon = 8 ∨ props.maxErrorsReedSolomon = 16) ∧ props.useASM = false then
    [.RSEncode]
  else props.stages

/-- The channel while its stages come, with the name of the last segment and those it leads through. -/
def Tail (ch : Channel) (lastSegName : String) (w : List (Module × Option ℕ)) : Prop :=
  Good ch ∧ ch.gens = 0 ∧ ((w = [] ∧ lastSegName = "" ∧ ch.segments = []) ∨
    ∃ e, lastSegName = e.segName ∧ e.segName ≠ "" ∧ Free ch e ∧ Chain ch e w ∧
      ∀ g ∈ ch.segments, g = e ∨ g.dll.stage < e.dll.stage)

variable {w : List (Module × Option ℕ)} {dll : Module} {baseName : String}

/-- Stages come in their order. -/
theorem Tail.below (h : Tail ch name w) (hstage : ∀ x ∈ w, x.1.stage < dll.stage) :
    ∀ g ∈ ch.segments, g.dll.stage < dll.stage := by
  intro g hmem
  obtain ⟨-, -, ⟨-, -, hnil⟩ | ⟨e, -, -, -, ⟨-, path, -, rfl⟩, hlast⟩⟩ := h
  · rw [hnil] at hmem
    cases hmem
  · have he := hstage _ List.mem_cons_self
    rcases hlast g hmem with rfl | hlt
    · exact he
    · exact hlt.trans he

theorem Added.last {target : Option Segment} (h : Added ch ch' g target)
    (hbelow : ∀ a ∈ ch.segments, a.dll.stage < g.dll.stage) :
    ∀ a ∈ ch'.segments, a = g ∨ a.dll.stage < g.dll.stage := by
  intro a ha
  rw [h.segments] at ha
  rcases List.mem_append.1 ha with ha | ha
  · exact .inr (hbelow a ha)
  · exact .inl (List.mem_singleton.1 ha)

/-- A stage that outputs to no other. -/
theorem Tail.first (h : Tail ch name w) (props : ChannelProps) (hbase : baseName ≠ "")
    (hgen : dll.isVCGen = false) (hstage : ∀ x ∈ w, x.1.stage < dll.stage) {primaryOutput : Option String}
    (hno : Refers ch primaryOutput none) :
    ∃ ch' e, Macros.addSegment props ch dll baseName none none none primaryOutput = .ok (ch', e) ∧
      Tail ch' e [(dll, none)] := by
  have hbelow := h.below hstage
  obtain ⟨hg, hgens, -⟩ := h
  obtain ⟨ch', g, hrun, hne, hdll, hscid, ha⟩ := addSegment_ok hg props dll hbase none none none hno
  refine ⟨ch', g.segName, hrun, ha.good, ?_, .inr ⟨g, rfl, hne, ha.free_new hg, ⟨ha.mem_new, [],
    ha.next_new, ?_⟩, ha.last (hdll.symm ▸ hbelow)⟩⟩
  · rw [ha.gens_eq, hgens, hdll, hgen]
    rfl
  · simp only [List.map_cons, List.map_nil, hdll, hscid]

/-- A stage that outputs to the last one, if there is one. -/
theorem Tail.addSegment (h : Tail ch name w) (props : ChannelProps) (hbase : baseName ≠ "")
    (hgen : dll.isVCGen = false) (hstage : ∀ x ∈ w, x.1.stage < dll.stage) :
    ∃ ch' e, Macros.addSegment props ch dll baseName none none none (some name) = .ok (ch', e) ∧
      Tail ch' e ((dll, none) :: w) := by
  have htail := h
  have hbelow := h.below hstage
  obtain ⟨hg, hgens, ⟨rfl, rfl, hnil⟩ | ⟨e, rfl, -, hfree, hchain, -⟩⟩ := h
  · -- the empty name is that of no segment
    have hfind : ch.find "" = none := by
      unfold Channel.find
      rw [hnil]
      rfl
    exact htail.first props hbase hgen hstage (.noName hfind)
  · obtain ⟨ch', g, hrun, hne, hdll, hscid, ha⟩ := addSegment_ok hg props dll hbase none none none
      (.segment e hchain.1)
    have hold : ∀ a ∈ ch.segments, ch'.next a = ch.next a := fun a hmem =>
      ha.next_eq (.inr hfree) fun hag => ha.new (hag ▸ hmem)
    obtain ⟨he, path, hlead, hw⟩ := hchain
    refine ⟨ch', g.segName, hrun, ha.good, ?_, .inr ⟨g, rfl, hne, ha.free_new hg, ⟨ha.mem_new, e :: path,
      ⟨ha.next_new, hg.leads hold he hlead⟩, ?_⟩, ha.last (hdll.symm ▸ hbelow)⟩⟩
    · rw [ha.gens_eq, hgens, hdll, hgen]
      rfl
    · rw [List.map_cons, hw, hdll, hscid]

theorem tail_start : Tail {} "" [] := ⟨good_start, rfl, .inl ⟨rfl, rfl, rfl⟩⟩

theorem addASM_tail (props : ChannelProps) (h : Tail ch name []) :
    ∃ ch' e, addASM props ch name = .ok (ch', e) ∧
      Tail ch' e ((if props.useASM then [Module.ASM_Add] else []).map fun m => (m, none)) := by
  unfold addASM
  cases props.useASM with
  | false => exact ⟨ch, name, rfl, h⟩
  | true => exact h.first props (by decide) rfl (fun x hx => by cases hx) .nothing

theorem stage_lt_of_map {modules : List Module} {k : ℕ} (h : ∀ m ∈ modules, m.stage < k) :
    ∀ x ∈ modules.map fun m => ((m, none) : Module × Option ℕ), x.1.stage < k := by
  intro x hx
  obtain ⟨m, hm, rfl⟩ := List.mem_map.1 hx
  exact h m hm

theorem addRandomize_tail (props : ChannelProps)
    (h : Tail ch name ((if props.useASM then [Module.ASM_Add] else []).map fun m => (m, none))) :
    ∃ ch' e, addRandomize props ch name = .ok (ch', e) ∧
      Tail ch' e (((if props.usePseudoRandomize then [Module.PseudoRandomize] else []) ++
        (if props.useASM then [Module.ASM_Add] else [])).map fun m => (m, none)) := by
  unfold addRandomize
  cases props.usePseudoRandomize with
  | false => exact ⟨ch, name, rfl, h⟩
  | true =>
    refine h.addSegment props ?_ rfl (stage_lt_of_map ?_)
    · decide
    · cases props.useASM <;> decide

theorem addRSEncode_tail (props : ChannelProps)
    (h : Tail ch name (((if props.usePseudoRandomize then [Module.PseudoRandomize] else []) ++
      (if props.useASM then [Module.ASM_Add] else [])).map fun m => (m, none))) :
    ∃ ch' e, addRSEncode props ch name = .ok (ch', e) ∧
      Tail ch' e (props.linkedStages.map fun m => (m, none)) := by
  unfold addRSEncode ChannelProps.linkedStages ChannelProps.stages
  have hbelow : ∀ m ∈ (if props.usePseudoRandomize then [Module.PseudoRandomize] else []) ++
      (if props.useASM then [Module.ASM_Add] else []), m.stage < Module.stage .RSEncode := by
    cases props.usePseudoRandomize <;> cases props.useASM <;> decide
  by_cases hrs : props.maxErrorsReedSolomon = 8 ∨ props.maxErrorsReedSolomon = 16
  · simp only [hrs, if_true, true_and]
    cases hasm : props.useASM with
    | false => exact h.first props (by decide) rfl (stage_lt_of_map hbelow) .nothing
    | true =>
      rw [hasm] at h hbelow
      refine h.addSegment props ?_ rfl (stage_lt_of_map hbelow)
      decide
  · simp only [hrs, if_false, false_and, List.nil_append]
    exact ⟨ch, name, rfl, h⟩

theorem addAF_Gen_tail (props : ChannelProps) {afGen : Module} (hgen : afGen.isVCGen = false)
    (hstage : ∀ x ∈ w, x.1.stage < afGen.stage) (h : Tail ch name w) :
    ∃ ch' e, addAF_Gen props afGen ch name = .ok (ch', e) ∧ Tail ch' e ((afGen, none) :: w) := by
  unfold addAF_Gen
  by_cases hname : name = ""
  · rw [if_pos hname]
    obtain ⟨-, -, ⟨rfl, -, -⟩ | ⟨e, rfl, hne, -⟩⟩ := id h
    · exact h.first props (by decide) hgen hstage .nothing
    · exact absurd hname hne
  · rw [if_neg hname]
    exact h.addSegment props (by decide) hgen hstage

/-- What the segments of the master channels lead through. -/
def ChannelProps.linkedTrunk (props : ChannelProps) (afGen mcMux : Module) :
    List (Module × Option ℕ) :=
  ((if props.hasMcMux then [mcMux] else []) ++ afGen :: props.linkedStages).map fun m => (m, none)

/-- The generator of all frames and a multiplexer of master channels. -/
structure TrunkModules (afGen mcMux : Module) : Prop where
  gen : afGen.isVCGen = false
  muxGen : mcMux.isVCGen = false
  kind : mcMux.kind = .mux
  stage : afGen.stage = 4
  muxStage : mcMux.stage = 5

theorem linkedStages_lt (props : ChannelProps) : ∀ m ∈ props.linkedStages, m.stage < 4 := by
  unfold ChannelProps.linkedStages ChannelProps.stages
  by_cases hrs : props.maxErrorsReedSolomon = 8 ∨ props.maxErrorsReedSolomon = 16 <;>
    cases props.usePseudoRandomize <;> cases props.useASM <;> simp only [hrs, if_true, if_false] <;> decide

/-- **The stages**, up to a segment that there is room behind, and that is the only one of its module. -/
theorem addStages_ok (props : ChannelProps) {afGen mcMux : Module} (hm : TrunkModules afGen mcMux) :
    ∃ ch e, addStages props afGen mcMux {} = .ok (ch, e.segName) ∧ Good ch ∧ ch.gens = 0 ∧
      Room ch e (props.masterChannelCount + props.mcFrameSvcCount) ∧
      Chain ch e (props.linkedTrunk afGen mcMux) ∧ e.dll.stage ≠ 0 ∧ ∀ g ∈ ch.segments, g.dll = e.dll → g = e := by
  obtain ⟨ch₁, n₁, hrun₁, htail₁⟩ := addASM_tail props tail_start
  obtain ⟨ch₂, n₂, hrun₂, htail₂⟩ := addRandomize_tail props htail₁
  obtain ⟨ch₃, n₃, hrun₃, htail₃⟩ := addRSEncode_tail props htail₂
  obtain ⟨ch₄, n₄, hrun₄, htail₄⟩ := addAF_Gen_tail props hm.gen
    (hm.stage.symm ▸ stage_lt_of_map (linkedStages_lt props)) htail₃
  have hmux : ∃ ch₅ n₅, addMC_Mux props mcMux ch₄ n₄ = .ok (ch₅, n₅) ∧
      Tail ch₅ n₅ (props.linkedTrunk afGen mcMux) := by
    unfold addMC_Mux ChannelProps.linkedTrunk
    cases props.hasMcMux with
    | false => exact ⟨ch₄, n₄, rfl, htail₄⟩
    | true =>
      refine htail₄.addSegment props ?_ hm.muxGen fun x hx => ?_
      · decide
      · rw [hm.muxStage]
        rcases List.mem_cons.1 hx with rfl | hx
        · exact Nat.lt_succ_of_le (Nat.le_of_eq hm.stage)
        · exact (stage_lt_of_map (linkedStages_lt props) x hx).trans (by decide)
  obtain ⟨ch₅, n₅, hrun₅, hg, hgens, ⟨hnil, -⟩ | ⟨e, rfl, -, hfree, hchain, hlast⟩⟩ := hmux
  · unfold ChannelProps.linkedTrunk at hnil
    simp only [List.map_eq_nil_iff, List.append_eq_nil_iff, reduceCtorEq, and_false] at hnil
  have hstage : e.dll.stage ≠ 0 := by
    obtain ⟨-, path, -, hpath⟩ := hchain
    unfold ChannelProps.linkedTrunk at hpath
    cases hmux : props.hasMcMux <;> rw [hmux] at hpath
    · rw [show e.dll = afGen from congrArg Prod.fst (List.cons.inj hpath).1, hm.stage]
      decide
    · rw [show e.dll = mcMux from congrArg Prod.fst (List.cons.inj hpath).1, hm.muxStage]
      decide
  refine ⟨ch₅, e, ?_, hg, hgens, ?_, hchain, hstage, fun g hmem hdll =>
    (hlast g hmem).resolve_right fun hlt => Nat.lt_irrefl _ (hdll ▸ hlt)⟩
  · unfold addStages
    simp only [hrun₁, hrun₂, hrun₃, hrun₄, hrun₅, bind, Except.bind]
  · obtain ⟨-, path, -, hpath⟩ := hchain
    unfold ChannelProps.linkedTrunk at hpath
    cases hmux : props.hasMcMux with
    | true =>
      rw [hmux] at hpath
      have hdll : e.dll = mcMux := congrArg Prod.fst (List.cons.inj hpath).1
      exact .inl (hdll ▸ hm.kind)
    | false =>
      -- one input at most
      unfold ChannelProps.hasMcMux at hmux
      simp only [Bool.or_eq_false_iff, decide_eq_false_iff_not] at hmux
      have hle := hmux.2
      by_cases hzero : props.masterChannelCount + props.mcFrameSvcCount = 0
      · exact .inr (.inl hzero)
      · exact .inr (.inr ⟨by omega, hfree⟩)

/-- A segment that others are to lead through. -/
theorem relay_ok {wired : ℕ → List (Module × Option ℕ)} (props : ChannelProps) (hg : Good ch)
    (hw : Wired wired ch) (hchain : Chain ch u w) (hopen : Open ch u) (hbase : baseName ≠ "")
    (dll : Module) (hgen : dll.isVCGen = false) (hstage : dll.stage = 0) (num1 num2 SCID : Option ℕ) :
    ∃ ch' g, Macros.addSegment props ch dll baseName num1 num2 SCID (some u.segName) =
        .ok (ch', g.segName) ∧ g.dll = dll ∧ Extends u none 0 ch ch' ∧ Wired wired ch' ∧ Free ch' g ∧
      Chain ch' g ((dll, SCID) :: w) := by
  have hno : dll.isVCGen = true → u = u ∧ ∃ m, none = some m ∧ SCID = some m := by
    intro h
    rw [hgen] at h
    cases h
  obtain ⟨ch', g, hrun, hdll, hscid, hext, hmem, -, hfree, hnext⟩ :=
    (Extends.refl hg).addSegment props hbase num1 num2 SCID hchain.1 hopen (.inl rfl) hno hstage
  have hext : Extends u none 0 ch ch' := by
    rw [hgen] at hext
    exact hext
  obtain ⟨hu, path, hlead, hpath⟩ := hchain
  refine ⟨ch', g, hrun, hdll, hext, hext.wired hg hw (fun m hm => by cases hm), hfree, hmem,
    u :: path, ⟨hnext, hext.leads hg hu hlead⟩, ?_⟩
  rw [List.map_cons, hpath, hdll, hscid]

/-- The encoder has no output though there are stages behind it. -/
def ChannelProps.EncoderUnlinked (props : ChannelProps) : Prop :=
  (props.maxErrorsReedSolomon = 8 ∨ props.maxErrorsReedSolomon = 16) ∧
    props.usePseudoRandomize = true ∧ props.useASM = false

theorem linkedStages_eq_iff (props : ChannelProps) : props.linkedStages = props.stages ↔ ¬ props.EncoderUnlinked := by
  unfold ChannelProps.linkedStages ChannelProps.stages ChannelProps.EncoderUnlinked
  by_cases hrs : props.maxErrorsReedSolomon = 8 ∨ props.maxErrorsReedSolomon = 16 <;>
    cases props.usePseudoRandomize <;> cases props.useASM <;>
    simp only [hrs, if_true, if_false] <;> decide

theorem linkedTrunk_eq_iff (props : ChannelProps) (afGen mcMux : Module) :
    props.linkedTrunk afGen mcMux = props.trunk afGen mcMux ↔ ¬ props.EncoderUnlinked := by
  rw [← linkedStages_eq_iff]
  unfold ChannelProps.linkedTrunk ChannelProps.trunk
  constructor
  · intro h
    have hlists := congrArg (List.map Prod.fst) h
    simp only [List.map_map] at hlists
    have hid : (Prod.fst ∘ fun m : Module => ((m, none) : Module × Option ℕ)) = id := rfl
    rw [hid, List.map_id, List.map_id] at hlists
    exact (List.cons.inj (List.append_cancel_left hlists)).2
  · intro h
    rw [h]

/-- When there are virtual channel generators, all is as wanted if what they lead through is. -/
theorem wired_wanted_iff {linked wanted : ℕ → List (Module × Option ℕ)} {P : Prop}
    (hw : Wired linked ch) (hiff : ∀ mcCount, linked mcCount = wanted mcCount ↔ P) :
    Wired wanted ch ↔ ch.gens = 0 ∨ P := by
  constructor
  · intro hwanted
    by_cases hzero : ch.gens = 0
    · exact .inl hzero
    obtain ⟨g, hmem, hgen⟩ := List.countP_pos_iff.1 (Nat.pos_of_ne_zero hzero)
    obtain ⟨m, path, hm, hlead, hpath⟩ := hw g hmem hgen
    obtain ⟨m', path', hm', hlead', hpath'⟩ := hwanted g hmem hgen
    obtain rfl := Option.some.inj (hm.symm.trans hm')
    rw [leads_unique hlead' hlead] at hpath'
    exact .inr ((hiff m).1 (hpath.symm.trans hpath'))
  · rintro (hzero | hP)
    · intro g hmem hgen
      exact absurd hzero (Nat.pos_iff_ne_zero.1 (List.countP_pos_iff.2 ⟨g, hmem, hgen⟩))
    · have heq : linked = wanted := funext fun mcCount => (hiff mcCount).2 hP
      exact heq ▸ hw

/-- A channel between two master channels: the stages end in `t`, which leads through `trunk` and is the only one of
its module. -/
structure Ready (wired : ℕ → List (Module × Option ℕ)) (trunk : List (Module × Option ℕ))
    (t : Segment) (n : ℕ) (ch : Channel) : Prop where
  good : Good ch
  wired : Wired wired ch
  chain : Chain ch t trunk
  room : Room ch t n
  stage : t.dll.stage ≠ 0
  only : ∀ g ∈ ch.segments, g.dll = t.dll → g = t

/-- No new segment is of the module of a stage. -/
theorem Extends.only (h : Extends v mc n ch ch') (hstage : t.dll.stage ≠ 0)
    (honly : ∀ g ∈ ch.segments, g.dll = t.dll → g = t) : ∀ g ∈ ch'.segments, g.dll = t.dll → g = t := by
  intro g hmem hdll
  by_cases hold : g ∈ ch.segments
  · exact honly g hold hdll
  · exact absurd (hdll ▸ h.stages g hmem hold) hstage

/-- The frame services, which generate no frames. -/
theorem frames_ok (props : ChannelProps) (hbase : baseName ≠ "") (hgen : dll.isVCGen = false)
    (hstage : dll.stage = 0) (num1 num2 SCID : Option ℕ) (n r : ℕ) (hg : Good ch) (hv : v ∈ ch.segments)
    (hroom : Room ch v (n + r)) :
    ∃ ch', repeatTurns (fun ch => do
        let (ch, _) ← Macros.addSegment props ch dll baseName num1 num2 SCID (some v.segName)
        return ch) n ch = .ok ch' ∧ Extends v mc (n * 0) ch ch' ∧ Room ch' v r := by
  refine repeatTurns_extends (fun ch => ch) (fun s hs hvs hopen => ?_) n r ch hg hv hroom
  have hno : dll.isVCGen = true → v = v ∧ ∃ m, mc = some m ∧ SCID = some m := by
    intro h
    rw [hgen] at h
    cases h
  obtain ⟨s', g, hrun, -, -, hext, -⟩ :=
    (Extends.refl hs).addSegment props hbase num1 num2 SCID hvs hopen (.inl rfl) hno hstage
  rw [hgen] at hext
  exact ⟨s', by simp only [hrun, bind, Except.bind, pure, Except.pure], hext⟩

theorem addVC_Frames_ok (props : ChannelProps) {vcFrame : Module} (hgen : vcFrame.isVCGen = false)
    (hstage : vcFrame.stage = 0)
    (mcCount vcCount r : ℕ) (hg : Good ch) (hv : v ∈ ch.segments)
    (hroom : Room ch v (props.vcFrameSvcCount + r)) :
    ∃ ch', addVC_Frames props vcFrame mcCount vcCount v.segName ch = .ok ch' ∧
      Extends v mc 0 ch ch' ∧ Room ch' v r :=
  frames_ok props (by decide) hgen hstage (some mcCount) (some vcCount) (some mcCount) _ r hg hv hroom

theorem addMC_Frames_ok (props : ChannelProps) {mcFrame : Module} (hgen : mcFrame.isVCGen = false)
    (hstage : mcFrame.stage = 0) (hg : Good ch) (hv : v ∈ ch.segments) (hroom : Room ch v props.mcFrameSvcCount) :
    ∃ ch', addMC_Frames props mcFrame v.segName ch = .ok ch' ∧ Extends v none 0 ch ch' := by
  obtain ⟨ch', hrun, hext, -⟩ := frames_ok props (show "mcFrame" ≠ "" from by decide) hgen hstage
    (some props.masterChannelCount) none none _ 0 hg hv hroom
  exact ⟨ch', hrun, hext⟩

/-! ## AOS -/

namespace AOS

theorem addVCGen_ok (props : ChannelProps) (mcCount vcCount : ℕ) (hg : Good ch)
    (hv : v ∈ ch.segments) (hopen : Open ch v) :
    ∃ ch' g vcCount', addVCGen props ch v.segName mcCount vcCount = .ok (ch', g.segName, vcCount') ∧
      Extends v (some mcCount) 1 ch ch' ∧ g ∈ ch'.segments ∧ g ∉ ch.segments ∧ Free ch' g := by
  obtain ⟨ch', g, hrun, -, -, hext, hmem, hnew, hfree, -⟩ := (Extends.refl hg).addSegment props
    (show "vcGen" ≠ "" from by decide) (some mcCount) (some vcCount) (some mcCount) hv hopen (.inl rfl)
    (show Module.isVCGen .AOS_VC_Gen = true → _ from fun _ => ⟨rfl, mcCount, rfl, rfl⟩) rfl
  exact ⟨ch', g, _, by simp only [addVCGen, hrun, bind, Except.bind]; rfl, hext, hmem, hnew, hfree⟩

theorem addBitstreams_ok (props : newAOSChannelProps) (mcCount vcCount r : ℕ) (hg : Good ch)
    (hv : v ∈ ch.segments) (hroom : Room ch v (props.bitstreamSvcCount + r)) :
    ∃ s, addBitstreams props v.segName mcCount (ch, vcCount) = .ok s ∧
      Extends v (some mcCount) (props.bitstreamSvcCount * 1) ch s.1 ∧ Room s.1 v r := by
  refine repeatTurns_extends Prod.fst (fun s hs hvs hopen => ?_) _ r (ch, vcCount) hg hv hroom
  obtain ⟨ch, vcCount⟩ := s
  obtain ⟨ch₁, g, vcCount', hrun, hext, hmem, hnew, hfree⟩ :=
    addVCGen_ok props.toChannelProps mcCount vcCount hs hvs hopen
  obtain ⟨ch₂, b, hrun₂, -, -, hext₂, -⟩ := hext.addSegment props.toChannelProps
    (show "bpduAdd" ≠ "" from by decide) (some mcCount) (some (vcCount' - 1)) none hmem (.inr hfree)
    (.inr hnew) (show Module.isVCGen .AOS_B_PDU_Add = true → _ from fun h => by cases h) rfl
  exact ⟨(ch₂, vcCount'), by simp only [hrun, hrun₂, bind, Except.bind, pure, Except.pure], hext₂⟩

theorem addPackets_ok (props : newAOSChannelProps) (mcCount vcCount r : ℕ) (lastSegName : String)
    (hg : Good ch) (hv : v ∈ ch.segments) (hroom : Room ch v (props.packetSvcCount + r)) :
    ∃ s, addPackets props v.segName mcCount (ch, vcCount, lastSegName) = .ok s ∧
      Extends v (some mcCount) (props.packetSvcCount * 1) ch s.1 ∧ Room s.1 v r := by
  refine repeatTurns_extends Prod.fst (fun s hs hvs hopen => ?_) _ r (ch, vcCount, lastSegName) hg hv
    hroom
  obtain ⟨ch, vcCount, lastSegName⟩ := s
  obtain ⟨ch₁, g, vcCount', hrun, hext, hmem, hnew, hfree⟩ :=
    addVCGen_ok props.toChannelProps mcCount vcCount hs hvs hopen
  obtain ⟨ch₂, p, hrun₂, -, -, hext₂, hmem₂, hnew₂, hfree₂, -⟩ := hext.addSegment props.toChannelProps
    (show "mpduAdd" ≠ "" from by decide) (some mcCount) (some (vcCount' - 1)) none hmem (.inr hfree)
    (.inr hnew) (show Module.isVCGen .AOS_M_PDU_Add = true → _ from fun h => by cases h) rfl
  obtain ⟨ch₃, e, hrun₃, -, -, hext₃, -⟩ := hext₂.addSegment props.toChannelProps
    (show "encapAdd" ≠ "" from by decide) (some mcCount) (some (vcCount' - 1)) none hmem₂ (.inr hfree₂)
    (.inr hnew₂) (show Module.isVCGen .EncapPkt_Add = true → _ from fun h => by cases h) rfl
  exact ⟨(ch₃, vcCount', p.segName),
    by simp only [hrun, hrun₂, hrun₃, bind, Except.bind, pure, Except.pure], hext₃⟩

theorem addAccesses_ok (props : newAOSChannelProps) (mcCount vcCount r : ℕ) (hg : Good ch)
    (hv : v ∈ ch.segments) (hroom : Room ch v (props.vcAccessSvcCount + r)) :
    ∃ s, addAccesses props v.segName mcCount (ch, vcCount) = .ok s ∧
      Extends v (some mcCount) (props.vcAccessSvcCount * 1) ch s.1 ∧ Room s.1 v r := by
  refine repeatTurns_extends Prod.fst (fun s hs hvs hopen => ?_) _ r (ch, vcCount) hg hv hroom
  obtain ⟨ch, vcCount⟩ := s
  obtain ⟨ch₁, g, vcCount', hrun, hext, -⟩ :=
    addVCGen_ok props.toChannelProps mcCount vcCount hs hvs hopen
  exact ⟨(ch₁, vcCount'), by simp only [hrun, bind, Except.bind, pure, Except.pure], hext⟩

theorem trunkModules : TrunkModules .AOS_AF_Gen .AOS_MC_Mux := ⟨rfl, rfl, rfl, rfl, rfl⟩

/-- What the virtual channel generators of a master channel lead through. -/
def linked (props : newAOSChannelProps) (mcCount : ℕ) : List (Module × Option ℕ) :=
  (if hasVcMux props then [(.AOS_VC_Mux, some mcCount)] else []) ++
    props.linkedTrunk .AOS_AF_Gen .AOS_MC_Mux

/-- The number of services of a master channel that generate frames. -/
def services (props : newAOSChannelProps) : ℕ :=
  props.bitstreamSvcCount + (props.packetSvcCount + props.vcAccessSvcCount)

variable {props : newAOSChannelProps} {lastSegName : String}

/-- A multiplexer, or the room there is. -/
theorem addVC_Mux_ok (mcCount : ℕ)
    (h : Ready (linked props) (props.linkedTrunk .AOS_AF_Gen .AOS_MC_Mux) t (n + 1) ch)
    (hlast : hasVcMux props = true ∨ lastSegName = t.segName) :
    ∃ ch' v, addVC_Mux props t.segName mcCount ch lastSegName = .ok (ch', v.segName) ∧
      Extends t none 0 ch ch' ∧ Wired (linked props) ch' ∧ Chain ch' v (linked props mcCount) ∧
      Room ch' v (services props + props.vcFrameSvcCount) ∧ (hasVcMux props = false → v = t) := by
  unfold addVC_Mux linked
  cases hmux : hasVcMux props with
  | true =>
    obtain ⟨ch', g, hrun, hdll, hext, hw, hfree, hchain⟩ := relay_ok
      props.toChannelProps h.good h.wired h.chain h.room.isOpen (show "vcMux" ≠ "" from by decide)
      .AOS_VC_Mux rfl rfl (some mcCount) none (some mcCount)
    refine ⟨ch', g, hrun, hext, ?_, hchain, .inl ?_, fun h => by cases h⟩
    · unfold linked at hw
      rw [hmux] at hw
      exact hw
    · rw [hdll]
      rfl
  | false =>
    obtain rfl := hlast.resolve_left (by rw [hmux]; decide)
    refine ⟨ch, t, rfl, Extends.refl h.good, ?_, h.chain, ?_, fun _ => rfl⟩
    · have hw := h.wired
      unfold linked at hw
      rw [hmux] at hw
      exact hw
    · -- without a multiplexer there is one service at most
      have hle : services props + props.vcFrameSvcCount ≤ 1 := by
        unfold hasVcMux at hmux
        simp only [Bool.or_eq_false_iff, decide_eq_false_iff_not] at hmux
        have hsum := hmux.2
        unfold services
        omega
      rcases h.room with hkind | hzero | ⟨-, hfree⟩
      · exact .inl hkind
      · omega
      · by_cases hnone : services props + props.vcFrameSvcCount = 0
        · exact .inr (.inl hnone)
        · exact .inr (.inr ⟨by omega, hfree⟩)

/-- **The segments of one master channel.** -/
theorem addMasterChannel_ok (mcCount : ℕ)
    (h : Ready (linked props) (props.linkedTrunk .AOS_AF_Gen .AOS_MC_Mux) t (n + 1) ch)
    (hlast : hasVcMux props = true ∨ lastSegName = t.segName) :
    ∃ ch' last, addMasterChannel props t.segName mcCount ch lastSegName = .ok (ch', last) ∧
      Ready (linked props) (props.linkedTrunk .AOS_AF_Gen .AOS_MC_Mux) t n ch' ∧
      ch'.gens = ch.gens + services props ∧
      (hasVcMux props = false → props.packetSvcCount = 0 → last = t.segName) := by
  obtain ⟨ch₁, v, hrun₁, hext₁, hw₁, hchain₁, hroom₁, hv⟩ := addVC_Mux_ok mcCount h hlast
  rw [services, Nat.add_assoc] at hroom₁
  obtain ⟨⟨ch₂, vc₂⟩, hrun₂, hext₂, hroom₂⟩ :=
    addBitstreams_ok props mcCount 0 _ hext₁.good hchain₁.1 hroom₁
  rw [Nat.add_assoc] at hroom₂
  obtain ⟨⟨ch₃, vc₃, last⟩, hrun₃, hext₃, hroom₃⟩ :=
    addPackets_ok props mcCount vc₂ _ v.segName hext₂.good (hext₂.old v hchain₁.1).1 hroom₂
  have hext₁₃ := hext₂.trans hext₃
  obtain ⟨⟨ch₄, vc₄⟩, hrun₄, hext₄, hroom₄⟩ :=
    addAccesses_ok props mcCount vc₃ _ hext₃.good (hext₁₃.old v hchain₁.1).1 hroom₃
  have hext₁₄ := hext₁₃.trans hext₄
  obtain ⟨ch₅, hrun₅, hext₅, -⟩ := addVC_Frames_ok props.toChannelProps
    (show Module.isVCGen .AOS_VC_Frame = false from rfl) rfl mcCount vc₄ 0 hext₄.good
    (hext₁₄.old v hchain₁.1).1 hroom₄
  have hext := hext₁₄.trans hext₅
  refine ⟨ch₅, last, ?_, ⟨hext.good, ?_, ?_, h.room.next, h.stage, hext.only h.stage (hext₁.only h.stage h.only)⟩,
    ?_, ?_⟩
  · unfold addMasterChannel
    simp only [hrun₁, hrun₂, hrun₃, hrun₄, hrun₅, bind, Except.bind, pure, Except.pure]
  · refine hext.wired hext₁.good hw₁ fun m hm => ?_
    obtain rfl := Option.some.inj hm
    exact hchain₁
  · exact hext.chain hext₁.good (hext₁.chain h.good h.chain)
  · rw [hext.count, hext₁.count, services]
    omega
  · intro hmux hzero
    -- no packet service gives the last segment another name
    unfold addPackets at hrun₃
    rw [hzero] at hrun₃
    rw [← hv hmux]
    exact (congrArg (fun s => s.2.2) (Except.ok.inj hrun₃)).symm

/-- **The loop over the master channels**, when the last segment of one is not what the next one is
to be behind. -/
theorem addMasterChannels_ok (r : ℕ) (hloop : hasVcMux props = true ∨ props.packetSvcCount = 0 ∨ n ≤ 1)
    (mcCount : ℕ)
    (h : Ready (linked props) (props.linkedTrunk .AOS_AF_Gen .AOS_MC_Mux) t (n + r) ch)
    (hlast : hasVcMux props = true ∨ lastSegName = t.segName ∨ n = 0) :
    ∃ ch' last, addMasterChannels props t.segName n mcCount (ch, lastSegName) = .ok (ch', last) ∧
      Ready (linked props) (props.linkedTrunk .AOS_AF_Gen .AOS_MC_Mux) t r ch' ∧
      ch'.gens = ch.gens + n * services props := by
  induction n generalizing mcCount ch lastSegName with
  | zero =>
    rw [Nat.zero_add] at h
    exact ⟨ch, lastSegName, rfl, h, by omega⟩
  | succ n ih =>
    rw [Nat.succ_add] at h
    obtain ⟨ch₁, last, hrun₁, hready₁, hgens₁, hkeep⟩ := addMasterChannel_ok mcCount h
      (hlast.imp_right fun h => h.resolve_right (Nat.succ_ne_zero n))
    have hlast₁ : hasVcMux props = true ∨ last = t.segName ∨ n = 0 := by
      cases hmux : hasVcMux props with
      | true => exact .inl rfl
      | false =>
        rcases hloop with h | h | h
        · rw [hmux] at h
          cases h
        · exact .inr (.inl (hkeep hmux h))
        · exact .inr (.inr (by omega))
    obtain ⟨ch₂, last₂, hrun₂, hready₂, hgens₂⟩ := ih
      (hloop.imp_right fun h => h.imp_right fun h => by omega) (mcCount + 1) hready₁ hlast₁
    refine ⟨ch₂, last₂, ?_, hready₂, ?_⟩
    · unfold addMasterChannels
      simp only [hrun₁, bind, Except.bind]
      exact hrun₂
    · rw [hgens₂, hgens₁, Nat.succ_mul]
      omega

/-- **What the virtual channel generators lead through**, when the last segment of a master channel is
not what the next one is to be behind. -/
theorem newForwardChannel_ok (hloop : hasVcMux props = true ∨ props.packetSvcCount = 0 ∨
      props.masterChannelCount ≤ 1) :
    ∃ ch, newForwardChannel props = .ok ch ∧ Wired (linked props) ch ∧
      ch.gens = props.masterChannelCount * services props ∧
      ∃ t, Chain ch t (props.linkedTrunk .AOS_AF_Gen .AOS_MC_Mux) ∧ ∀ g ∈ ch.segments, g.dll = t.dll → g = t := by
  obtain ⟨ch₁, e, hrun₁, hg₁, hgens₁, hroom₁, hchain₁, hstage₁, honly₁⟩ :=
    addStages_ok props.toChannelProps trunkModules
  have hnone : Wired (linked props) ch₁ := by
    intro g hmem hgen
    exact absurd hgens₁ (Nat.pos_iff_ne_zero.1 (List.countP_pos_iff.2 ⟨g, hmem, hgen⟩))
  obtain ⟨ch₂, last, hrun₂, hready₂, hgens₂⟩ :=
    addMasterChannels_ok _ hloop 0 ⟨hg₁, hnone, hchain₁, hroom₁, hstage₁, honly₁⟩ (.inr (.inl rfl))
  obtain ⟨ch₃, hrun₃, hext₃⟩ := addMC_Frames_ok props.toChannelProps
    (show Module.isVCGen .AOS_MC_Frame = false from rfl) rfl hready₂.good hready₂.chain.1 hready₂.room
  refine ⟨ch₃, ?_, hext₃.wired hready₂.good hready₂.wired (fun m hm => by cases hm), ?_, e,
    hext₃.chain hready₂.good hready₂.chain, hext₃.only hready₂.stage hready₂.only⟩
  · unfold newForwardChannel
    simp only [hrun₁, hrun₂, bind, Except.bind]
    exact hrun₃
  · rw [hext₃.count, hgens₂, hgens₁]
    omega

theorem linked_eq_iff (props : newAOSChannelProps) (mcCount : ℕ) :
    linked props mcCount = wanted props mcCount ↔ ¬ props.EncoderUnlinked := by
  rw [← linkedTrunk_eq_iff props.toChannelProps .AOS_AF_Gen .AOS_MC_Mux]
  unfold linked wanted
  rw [List.append_cancel_left_eq]

/-! ## Packet services without a multiplexer -/

/-- A virtual channel generator does not output to the multiplexer of master channels. -/
def Astray (ch : Channel) : Prop :=
  ∃ g ∈ ch.segments, g.dll.isVCGen = true ∧ ∀ t, ch.next g = some t → t.dll ≠ .AOS_MC_Mux

theorem Astray.added {target : Option Segment} (h : Astray ch) (ha : Added ch ch' g target) :
    Astray ch' := by
  obtain ⟨a, hmem, hgen, hnext⟩ := h
  exact ⟨a, ha.mem_old hmem, hgen, fun t ht => hnext t (ha.next_back hmem ht)⟩

/-- One packet service, and no other, in a master channel without a multiplexer. -/
structure LonePacketService (props : newAOSChannelProps) : Prop where
  noMux : hasVcMux props = false
  packet : props.packetSvcCount = 1
  bitstream : props.bitstreamSvcCount = 0
  vcAccess : props.vcAccessSvcCount = 0
  vcFrame : props.vcFrameSvcCount = 0

theorem lonePacketService_iff : LonePacketService props ↔
    hasVcMux props = false ∧ props.packetSvcCount ≠ 0 := by
  constructor
  · intro h
    exact ⟨h.noMux, by rw [h.packet]; decide⟩
  · rintro ⟨hmux, hpacket⟩
    have hle := hmux
    unfold hasVcMux at hle
    simp only [Bool.or_eq_false_iff, decide_eq_false_iff_not] at hle
    obtain ⟨-, hle⟩ := hle
    exact ⟨hmux, by omega, by omega, by omega, by omega⟩

/-- Its master channel: the generator, behind the last segment of before, and the packet multiplexer,
which is the last segment afterwards. -/
theorem addMasterChannel_lone (hlone : LonePacketService props) (hg : Good ch) {mcMuxSegName : String}
    {mcCount : ℕ} {last : String}
    (hrun : addMasterChannel props mcMuxSegName mcCount ch lastSegName = .ok (ch', last)) :
    Good ch' ∧ (Astray ch → Astray ch') ∧
      (∃ p ∈ ch'.segments, p.segName = last ∧ p.dll = .AOS_M_PDU_Add) ∧
      ∃ g ∈ ch'.segments, g.dll.isVCGen = true ∧
        ∀ t, ch'.next g = some t → t ∈ ch.segments ∧ t.segName = lastSegName := by
  unfold addMasterChannel addVC_Mux addBitstreams addPackets addAccesses addVC_Frames at hrun
  rw [hlone.noMux, hlone.packet, hlone.bitstream, hlone.vcAccess, hlone.vcFrame] at hrun
  obtain ⟨s₁, h₁, hrun⟩ := Framing.bind_ok hrun
  obtain rfl := Except.ok.inj h₁
  obtain ⟨s₂, h₂, hrun⟩ := Framing.bind_ok hrun
  obtain rfl := Except.ok.inj h₂
  obtain ⟨s₃, h₃, hrun⟩ := Framing.bind_ok hrun
  obtain ⟨s₄, h₄, hrun⟩ := Framing.bind_ok hrun
  obtain rfl := Except.ok.inj h₄
  obtain ⟨s₅, h₅, hrun⟩ := Framing.bind_ok hrun
  obtain rfl := Except.ok.inj h₅
  obtain ⟨rfl, rfl⟩ := Prod.mk.inj (Except.ok.inj hrun)
  -- the one turn of the packet services
  obtain ⟨s₆, h₆, hturn⟩ := Framing.bind_ok h₃
  obtain rfl := Except.ok.inj hturn
  obtain ⟨⟨ch₁, vcName, vcCount⟩, h₇, h₆⟩ := Framing.bind_ok h₆
  obtain ⟨⟨ch₂, mpduName⟩, h₈, h₆⟩ := Framing.bind_ok h₆
  obtain ⟨⟨ch₃, encapName⟩, h₉, h₆⟩ := Framing.bind_ok h₆
  obtain rfl := Except.ok.inj h₆
  obtain ⟨⟨ch₁', vcName'⟩, h₁₀, h₇⟩ := Framing.bind_ok h₇
  obtain ⟨rfl, heq⟩ := Prod.mk.inj (Except.ok.inj h₇)
  obtain ⟨rfl, -⟩ := Prod.mk.inj heq
  obtain ⟨target₁, ha₁, hname₁⟩ := addSegment_keeps hg h₁₀
  obtain ⟨target₂, ha₂, -⟩ := addSegment_keeps ha₁.good h₈
  obtain ⟨target₃, ha₃, -⟩ := addSegment_keeps ha₂.good h₉
  refine ⟨ha₃.good, fun h => ((h.added ha₁).added ha₂).added ha₃,
    ⟨_, ha₃.mem_old ha₂.mem_new, rfl, rfl⟩,
    ⟨_, ha₃.mem_old (ha₂.mem_old ha₁.mem_new), rfl, fun t ht => ?_⟩⟩
  have ht₁ := ha₂.next_back ha₁.mem_new (ha₃.next_back (ha₂.mem_old ha₁.mem_new) ht)
  have htarget := ha₁.next_new.symm.trans ht₁
  exact ⟨ha₁.target_mem t htarget, (Option.some.inj (hname₁ t htarget)).symm⟩

theorem addMasterChannels_lone (hlone : LonePacketService props) (hg : Good ch) (hastray : Astray ch)
    {mcMuxSegName : String} {mcCount : ℕ} {last : String}
    (hrun : addMasterChannels props mcMuxSegName n mcCount (ch, lastSegName) = .ok (ch', last)) :
    Good ch' ∧ Astray ch' := by
  induction n generalizing ch mcCount lastSegName with
  | zero =>
    obtain ⟨rfl, -⟩ := Prod.mk.inj (Except.ok.inj hrun)
    exact ⟨hg, hastray⟩
  | succ n ih =>
    obtain ⟨⟨ch₁, last₁⟩, hrun₁, hrun⟩ := Framing.bind_ok hrun
    obtain ⟨hg₁, hkeep, -⟩ := addMasterChannel_lone hlone hg hrun₁
    exact ih hg₁ (hkeep hastray) hrun

theorem addMC_Frames_astray (props : ChannelProps) {mcFrame : Module} {mcMuxSegName : String}
    (hg : Good ch) (hastray : Astray ch) (hrun : addMC_Frames props mcFrame mcMuxSegName ch = .ok ch') :
    Astray ch' := by
  unfold addMC_Frames at hrun
  generalize props.mcFrameSvcCount = n at hrun
  induction n generalizing ch with
  | zero =>
    obtain rfl := Except.ok.inj hrun
    exact hastray
  | succ n ih =>
    obtain ⟨ch₁, hturn, hrun⟩ := Framing.bind_ok hrun
    obtain ⟨⟨ch₂, name⟩, hadd, hturn⟩ := Framing.bind_ok hturn
    obtain rfl := Except.ok.inj hturn
    obtain ⟨target, ha, -⟩ := addSegment_keeps hg hadd
    exact ih ha.good (hastray.added ha) hrun

/-- **The generator of the second master channel** leads astray: it is behind the packet multiplexer of
the first. -/
theorem astray_of_lone (hlone : LonePacketService props) (hmany : 2 ≤ props.masterChannelCount)
    (hrun : newForwardChannel props = .ok ch) : Astray ch := by
  obtain ⟨ch₀, e, hrun₀, hg₀, -⟩ := addStages_ok props.toChannelProps trunkModules
  obtain ⟨s₀, hrun₀', hrun⟩ := Framing.bind_ok hrun
  obtain rfl := Except.ok.inj (hrun₀.symm.trans hrun₀')
  obtain ⟨⟨ch₄, last⟩, hloop, hrun⟩ := Framing.bind_ok hrun
  obtain ⟨k, hk⟩ := Nat.exists_eq_add_of_le' hmany
  have hloop' : addMasterChannels props e.segName (k + 2) 0 (ch₀, e.segName) = .ok (ch₄, last) := by
    rw [← hk]
    exact hloop
  obtain ⟨⟨ch₁, last₁⟩, hrun₁, hloop'⟩ := Framing.bind_ok hloop'
  obtain ⟨⟨ch₂, last₂⟩, hrun₂, hloop'⟩ := Framing.bind_ok hloop'
  obtain ⟨hg₁, -, ⟨p, hp, hpname, hpdll⟩, -⟩ := addMasterChannel_lone hlone hg₀ hrun₁
  obtain ⟨hg₂, -, -, g, hmem, hgen, hnext⟩ := addMasterChannel_lone hlone hg₁ hrun₂
  have hastray : Astray ch₂ := by
    refine ⟨g, hmem, hgen, fun t ht => ?_⟩
    obtain ⟨htmem, htname⟩ := hnext t ht
    rw [List.inj_on_of_nodup_map hg₁.names htmem hp (htname.trans hpname.symm), hpdll]
    decide
  obtain ⟨hg₄, hastray₄⟩ := addMasterChannels_lone hlone hg₂ hastray hloop'
  exact addMC_Frames_astray _ hg₄ hastray₄ hrun

theorem Astray.not_wired (h : Astray ch) (hmux : hasVcMux props = false)
    (hmany : 2 ≤ props.masterChannelCount) : ¬ Wired (wanted props) ch := by
  intro hw
  obtain ⟨g, hmem, hgen, hnext⟩ := h
  obtain ⟨m, path, -, hlead, hpath⟩ := hw g hmem hgen
  have hmc : props.hasMcMux = true := by
    unfold ChannelProps.hasMcMux
    rw [Bool.or_eq_true, decide_eq_true_eq]
    exact .inr (by omega)
  unfold wanted ChannelProps.trunk at hpath
  rw [hmux, hmc] at hpath
  cases path with
  | nil => cases hpath
  | cons t path => exact hnext t hlead.1 (congrArg Prod.fst (List.cons.inj hpath).1)

/-- **When the generators of an AOS channel lead through what they are to lead through.** -/
theorem wired_iff (props : newAOSChannelProps) :
    (∃ ch, newForwardChannel props = .ok ch ∧ Wired (wanted props) ch) ↔
      props.masterChannelCount * services props = 0 ∨ (¬ props.EncoderUnlinked ∧
        ¬(hasVcMux props = false ∧ props.packetSvcCount ≠ 0 ∧ 2 ≤ props.masterChannelCount)) := by
  by_cases hlone : hasVcMux props = false ∧ props.packetSvcCount ≠ 0 ∧ 2 ≤ props.masterChannelCount
  · obtain ⟨hmux, hpacket, hmany⟩ := hlone
    refine iff_of_false ?_ ?_
    · rintro ⟨ch, hrun, hw⟩
      exact (astray_of_lone (lonePacketService_iff.2 ⟨hmux, hpacket⟩) hmany hrun).not_wired hmux hmany hw
    · rintro (hzero | ⟨-, hnot⟩)
      · unfold services at hzero
        rcases Nat.mul_eq_zero.1 hzero with h | h <;> omega
      · exact hnot ⟨hmux, hpacket, hmany⟩
  · have hloop : hasVcMux props = true ∨ props.packetSvcCount = 0 ∨ props.masterChannelCount ≤ 1 := by
      cases hmux : hasVcMux props with
      | true => exact .inl rfl
      | false =>
        by_cases hpacket : props.packetSvcCount = 0
        · exact .inr (.inl hpacket)
        · exact .inr (.inr (by by_contra hmany; exact hlone ⟨hmux, hpacket, by omega⟩))
    obtain ⟨ch, hrun, hw, hgens, -⟩ := newForwardChannel_ok hloop
    have hiff := wired_wanted_iff hw (linked_eq_iff props)
    rw [hgens] at hiff
    rw [and_iff_left hlone, ← hiff]
    constructor
    · rintro ⟨ch', hrun', hw'⟩
      obtain rfl := Except.ok.inj (hrun.symm.trans hrun')
      exact hw'
    · intro h
      exact ⟨ch, hrun, h⟩

end AOS

/-! ## TM -/

namespace TM

theorem addVCGen_ok (props : ChannelProps) (mcCount vcCount : ℕ) (hbase : baseName ≠ "")
    (hg : Good ch) (hv : v ∈ ch.segments) (hopen : Open ch v) (hgen : dll.isVCGen = true) (hstage : dll.stage = 0) :
    ∃ ch' g vcCount', addVCGen props ch v.segName mcCount vcCount dll baseName =
        .ok (ch', g.segName, vcCount') ∧
      Extends v (some mcCount) 1 ch ch' ∧ g ∈ ch'.segments ∧ g ∉ ch.segments ∧ Free ch' g := by
  obtain ⟨ch', g, hrun, -, -, hext, hmem, hnew, hfree, -⟩ := (Extends.refl hg).addSegment props hbase
    (some mcCount) (some vcCount) (some mcCount) hv hopen (.inl rfl)
    (show dll.isVCGen = true → _ from fun _ => ⟨rfl, mcCount, rfl, rfl⟩) hstage
  rw [hgen] at hext
  exact ⟨ch', g, _, by simp only [addVCGen, hrun, bind, Except.bind]; rfl, hext, hmem, hnew, hfree⟩

theorem addPackets_ok (props : newTMChannelProps) (mcCount vcCount r : ℕ) (hg : Good ch)
    (hv : v ∈ ch.segments) (hroom : Room ch v (props.packetSvcCount + r)) :
    ∃ s, addPackets props v.segName mcCount (ch, vcCount) = .ok s ∧
      Extends v (some mcCount) (props.packetSvcCount * 1) ch s.1 ∧ Room s.1 v r := by
  refine repeatTurns_extends Prod.fst (fun s hs hvs hopen => ?_) _ r (ch, vcCount) hg hv hroom
  obtain ⟨ch, vcCount⟩ := s
  obtain ⟨ch₁, g, vcCount', hrun, hext, hmem, hnew, hfree⟩ := addVCGen_ok props.toChannelProps mcCount
    vcCount (show "vcGenPkt" ≠ "" from by decide) hs hvs hopen
    (show Module.isVCGen .TM_VC_Gen_Packet = true from rfl) rfl
  obtain ⟨ch₂, e, hrun₂, -, -, hext₂, -⟩ := hext.addSegment props.toChannelProps
    (show "encapAdd" ≠ "" from by decide) (some mcCount) (some (vcCount' - 1)) none hmem (.inr hfree)
    (.inr hnew) (show Module.isVCGen .EncapPkt_Add = true → _ from fun h => by cases h) rfl
  exact ⟨(ch₂, vcCount'), by simp only [hrun, hrun₂, bind, Except.bind, pure, Except.pure], hext₂⟩

theorem addAccesses_ok (props : newTMChannelProps) (mcCount vcCount r : ℕ) (hg : Good ch)
    (hv : v ∈ ch.segments) (hroom : Room ch v (props.vcAccessSvcCount + r)) :
    ∃ s, addAccesses props v.segName mcCount (ch, vcCount) = .ok s ∧
      Extends v (some mcCount) (props.vcAccessSvcCount * 1) ch s.1 ∧ Room s.1 v r := by
  refine repeatTurns_extends Prod.fst (fun s hs hvs hopen => ?_) _ r (ch, vcCount) hg hv hroom
  obtain ⟨ch, vcCount⟩ := s
  obtain ⟨ch₁, g, vcCount', hrun, hext, -⟩ := addVCGen_ok props.toChannelProps mcCount vcCount
    (show "vcGenAcc" ≠ "" from by decide) hs hvs hopen
    (show Module.isVCGen .TM_VC_Gen_Access = true from rfl) rfl
  exact ⟨(ch₁, vcCount'), by simp only [hrun, bind, Except.bind, pure, Except.pure], hext⟩

theorem trunkModules : TrunkModules .TM_AF_Gen .TM_MC_Mux := ⟨rfl, rfl, rfl, rfl, rfl⟩

/-- What the virtual channel generators of a master channel lead through. -/
def linked (props : newTMChannelProps) (mcCount : ℕ) : List (Module × Option ℕ) :=
  (if hasVcMux props then [(.TM_VC_Mux, some mcCount)] else []) ++
    (.TM_MC_Gen, some mcCount) :: props.linkedTrunk .TM_AF_Gen .TM_MC_Mux

/-- The number of services of a master channel that generate frames. -/
def services (props : newTMChannelProps) : ℕ := props.packetSvcCount + props.vcAccessSvcCount

variable {props : newTMChannelProps}

/-- A multiplexer behind the master channel generator, or the room that is there. -/
theorem addVC_Mux_ok (mcCount : ℕ) (hg : Good ch) (hw : Wired (linked props) ch) (hfree : Free ch u)
    (hchain : Chain ch u
      ((.TM_MC_Gen, some mcCount) :: props.linkedTrunk .TM_AF_Gen .TM_MC_Mux)) :
    ∃ ch' v, addVC_Mux props mcCount ch u.segName = .ok (ch', v.segName) ∧ Extends u none 0 ch ch' ∧
      Wired (linked props) ch' ∧ Chain ch' v (linked props mcCount) ∧
      Room ch' v (services props + props.vcFrameSvcCount) := by
  unfold linked at hw
  unfold addVC_Mux linked
  cases hmux : hasVcMux props with
  | true =>
    obtain ⟨ch', g, hrun, hdll, hext, hw', hfree', hchain'⟩ := relay_ok props.toChannelProps hg hw hchain
      (.inr hfree) (show "vcMux" ≠ "" from by decide) .TM_VC_Mux rfl rfl (some mcCount) none (some mcCount)
    refine ⟨ch', g, hrun, hext, ?_, hchain', .inl ?_⟩
    · rw [hmux] at hw'
      exact hw'
    · rw [hdll]
      rfl
  | false =>
    refine ⟨ch, u, rfl, Extends.refl hg, ?_, hchain, ?_⟩
    · rw [hmux] at hw
      exact hw
    · -- without a multiplexer there is one service at most
      unfold hasVcMux at hmux
      simp only [Bool.or_eq_false_iff, decide_eq_false_iff_not] at hmux
      obtain ⟨-, hle⟩ := hmux
      by_cases hnone : services props + props.vcFrameSvcCount = 0
      · exact .inr (.inl hnone)
      · exact .inr (.inr ⟨by unfold services at hnone ⊢; omega, hfree⟩)

/-- **The segments of one master channel.** -/
theorem addMasterChannel_ok (mcCount : ℕ)
    (h : Ready (linked props) (props.linkedTrunk .TM_AF_Gen .TM_MC_Mux) t (n + 1) ch) :
    ∃ ch', addMasterChannel props t.segName mcCount ch = .ok ch' ∧
      Ready (linked props) (props.linkedTrunk .TM_AF_Gen .TM_MC_Mux) t n ch' ∧
      ch'.gens = ch.gens + services props := by
  obtain ⟨ch₀, u, hrun₀, -, hext₀, hw₀, hfree₀, hchain₀⟩ := relay_ok props.toChannelProps h.good h.wired
    h.chain h.room.isOpen (show "mcGen" ≠ "" from by decide) .TM_MC_Gen rfl rfl (some mcCount) none
    (some mcCount)
  obtain ⟨ch₁, v, hrun₁, hext₁, hw₁, hchain₁, hroom₁⟩ := addVC_Mux_ok mcCount hext₀.good hw₀ hfree₀ hchain₀
  rw [services, Nat.add_assoc] at hroom₁
  obtain ⟨⟨ch₃, vc₃⟩, hrun₃, hext₃, hroom₃⟩ :=
    addPackets_ok props mcCount 0 _ hext₁.good hchain₁.1 hroom₁
  obtain ⟨⟨ch₄, vc₄⟩, hrun₄, hext₄, hroom₄⟩ :=
    addAccesses_ok props mcCount vc₃ _ hext₃.good (hext₃.old v hchain₁.1).1 hroom₃
  have hext₁₄ := hext₃.trans hext₄
  obtain ⟨ch₅, hrun₅, hext₅, -⟩ := addVC_Frames_ok props.toChannelProps
    (show Module.isVCGen .TM_VC_Frame = false from rfl) rfl mcCount vc₄ 0 hext₄.good
    (hext₁₄.old v hchain₁.1).1 hroom₄
  have hext := hext₁₄.trans hext₅
  refine ⟨ch₅, ?_, ⟨hext.good, ?_, ?_, h.room.next, h.stage,
    hext.only h.stage (hext₁.only h.stage (hext₀.only h.stage h.only))⟩, ?_⟩
  · unfold addMasterChannel
    simp only [hrun₀, hrun₁, hrun₃, hrun₄, bind, Except.bind]
    exact hrun₅
  · refine hext.wired hext₁.good hw₁ fun m hm => ?_
    obtain rfl := Option.some.inj hm
    exact hchain₁
  · exact hext.chain hext₁.good (hext₁.chain hext₀.good (hext₀.chain h.good h.chain))
  · rw [hext.count, hext₁.count, hext₀.count, services]
    omega

/-- **The loop over the master channels.** -/
theorem addMasterChannels_ok (r mcCount : ℕ)
    (h : Ready (linked props) (props.linkedTrunk .TM_AF_Gen .TM_MC_Mux) t (n + r) ch) :
    ∃ ch', addMasterChannels props t.segName n mcCount ch = .ok ch' ∧
      Ready (linked props) (props.linkedTrunk .TM_AF_Gen .TM_MC_Mux) t r ch' ∧
      ch'.gens = ch.gens + n * services props := by
  induction n generalizing mcCount ch with
  | zero =>
    rw [Nat.zero_add] at h
    exact ⟨ch, rfl, h, by omega⟩
  | succ n ih =>
    rw [Nat.succ_add] at h
    obtain ⟨ch₁, hrun₁, hready₁, hgens₁⟩ := addMasterChannel_ok mcCount h
    obtain ⟨ch₂, hrun₂, hready₂, hgens₂⟩ := ih (mcCount + 1) hready₁
    refine ⟨ch₂, ?_, hready₂, ?_⟩
    · unfold addMasterChannels
      simp only [hrun₁, bind, Except.bind]
      exact hrun₂
    · rw [hgens₂, hgens₁, Nat.succ_mul]
      omega

/-- **What the virtual channel generators lead through.** -/
theorem newForwardChannel_ok (props : newTMChannelProps) :
    ∃ ch, newForwardChannel props = .ok ch ∧ Wired (linked props) ch ∧
      ch.gens = props.masterChannelCount * services props ∧
      ∃ t, Chain ch t (props.linkedTrunk .TM_AF_Gen .TM_MC_Mux) ∧ ∀ g ∈ ch.segments, g.dll = t.dll → g = t := by
  obtain ⟨ch₁, e, hrun₁, hg₁, hgens₁, hroom₁, hchain₁, hstage₁, honly₁⟩ :=
    addStages_ok props.toChannelProps trunkModules
  have hnone : Wired (linked props) ch₁ := by
    intro g hmem hgen
    exact absurd hgens₁ (Nat.pos_iff_ne_zero.1 (List.countP_pos_iff.2 ⟨g, hmem, hgen⟩))
  obtain ⟨ch₂, hrun₂, hready₂, hgens₂⟩ := addMasterChannels_ok _ 0 ⟨hg₁, hnone, hchain₁, hroom₁, hstage₁, honly₁⟩
  obtain ⟨ch₃, hrun₃, hext₃⟩ := addMC_Frames_ok props.toChannelProps
    (show Module.isVCGen .TM_MC_Frame = false from rfl) rfl hready₂.good hready₂.chain.1 hready₂.room
  refine ⟨ch₃, ?_, hext₃.wired hready₂.good hready₂.wired (fun m hm => by cases hm), ?_, e,
    hext₃.chain hready₂.good hready₂.chain, hext₃.only hready₂.stage hready₂.only⟩
  · unfold newForwardChannel
    simp only [hrun₁, hrun₂, bind, Except.bind]
    exact hrun₃
  · rw [hext₃.count, hgens₂, hgens₁]
    omega

theorem linked_eq_iff (props : newTMChannelProps) (mcCount : ℕ) :
    linked props mcCount = wanted props mcCount ↔ ¬ props.EncoderUnlinked := by
  rw [← linkedTrunk_eq_iff props.toChannelProps .TM_AF_Gen .TM_MC_Mux]
  unfold linked wanted
  rw [List.append_cancel_left_eq, List.cons_eq_cons, and_iff_right rfl]

/-- **When the generators of a TM channel lead through what they are to lead through.** -/
theorem wired_iff (props : newTMChannelProps) :
    (∃ ch, newForwardChannel props = .ok ch ∧ Wired (wanted props) ch) ↔
      props.masterChannelCount * services props = 0 ∨ ¬ props.EncoderUnlinked := by
  obtain ⟨ch, hrun, hw, hgens, -⟩ := newForwardChannel_ok props
  have hiff := wired_wanted_iff hw (linked_eq_iff props)
  rw [hgens] at hiff
  rw [← hiff]
  constructor
  · rintro ⟨ch', hrun', hw'⟩
    obtain rfl := Except.ok.inj (hrun.symm.trans hrun')
    exact hw'
  · intro h
    exact ⟨ch, hrun, h⟩

end TM

/-- **When all virtual channel generators of forward channels lead through what they are to lead
through.** -/
theorem forward_channels_wired_iff (aos : newAOSChannelProps) (tm : newTMChannelProps) :
    ((∃ ch, AOS.newForwardChannel aos = .ok ch ∧ Wired (AOS.wanted aos) ch) ↔
      aos.masterChannelCount * AOS.services aos = 0 ∨ (¬ aos.EncoderUnlinked ∧
        ¬(AOS.hasVcMux aos = false ∧ aos.packetSvcCount ≠ 0 ∧ 2 ≤ aos.masterChannelCount))) ∧
    ((∃ ch, TM.newForwardChannel tm = .ok ch ∧ Wired (TM.wanted tm) ch) ↔
      tm.masterChannelCount * TM.services tm = 0 ∨ ¬ tm.EncoderUnlinked) :=
  ⟨AOS.wired_iff aos, TM.wired_iff tm⟩

/-- Reed-Solomon encoding and randomization without a sync marker: the encoder outputs to nothing. -/
theorem encoder_unlinked : ¬ ∀ aos : newAOSChannelProps,
    ∃ ch, AOS.newForwardChannel aos = .ok ch ∧ Wired (AOS.wanted aos) ch := by
  intro hall
  let props : newAOSChannelProps :=
    { packetSvcCount := 1, vcAccessSvcCount := 0, vcFrameSvcCount := 0, mcFrameSvcCount := 0,
      masterChannelCount := 1, maxErrorsReedSolomon := 16, useASM := false, usePseudoRandomize := true,
      minimize := false, segNamePrefix := "", segNameSuffix := "", bitstreamSvcCount := 0 }
  rcases (AOS.wired_iff props).1 (hall props) with hzero | ⟨hlinked, -⟩
  · cases hzero
  · exact hlinked ⟨.inr rfl, rfl, rfl⟩

end ChannelEmulator.Macros
