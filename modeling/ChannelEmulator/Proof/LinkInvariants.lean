import ChannelEmulator.Proof.LinkOperations
import ChannelEmulator.Graph.Walk

/-!
# The link graph over whole runs

* `slots_paired`: **without demultiplexers every slot refers to a live link that has that end, every
  link is in one output and one input slot**, and nothing is destroyed twice.
* `run_edges`: the search starts at the source of the new link, so it finds a second path between the
  handlers and not the cycle that the link closes.
* `acyclic_of_apart`: **the graph stays acyclic** in runs in which neither end of a new link leads to
  the other.
* `throw_keeps_iff`: **what a connect leaves that throws**: the links, exactly when there was no old
  output to disconnect and no entry in a map.
-/

namespace ChannelEmulator

namespace LinkGraph

variable {ι : Type} {d : Handlers ι} {s s' : Net ι} {h x y : ι} {t : LinkType}
  {p q : ℕ} {l : HandlerLink ι} {allowed : Net ι → Op ι → Option Thrown → Prop}

/-! ## Slots and links -/

/-- A slot or a set of the handler has a pointer to the link. -/
def RefersTo (s : Net ι) (h : ι) (t : LinkType) (p : ℕ) : Prop :=
  s.links h t = some p ∨ (t = .PrimaryInputLink ∧ p ∈ s.primaryInputLinks h)

/-- Every pointer is to a live link with that end, and every live link has its two ends in one output
slot and one input slot or set. -/
structure Paired (s : Net ι) : Prop where
  slots : ∀ h t p, RefersTo s h t p → ∃ l, s.heap p = some l ∧ l.holder t = some h
  output : ∀ p l, s.heap p = some l → ∃ x, l.source = some x ∧
    ∀ h r, RefersTo s h (OutputRank.link r) p ↔ h = x ∧ r = l.sourceOutputRank
  input : ∀ p l, s.heap p = some l → ∃ y, l.target = some y ∧
    ∀ h r, RefersTo s h (InputRank.link r) p ↔ h = y ∧ r = l.targetInputRank

/-- Every link has both ends. -/
def AllJoined (s : Net ι) : Prop := ∀ p l, s.heap p = some l → l.Joined

theorem AllJoined.shrinks (hj : AllJoined s) (hd : Shrinks s s') : AllJoined s' := by
  obtain ⟨gone, hd⟩ := hd
  intro p l hl
  by_cases hp : gone p
  · rw [hd.dead p hp] at hl
    cases hl
  · rw [hd.kept p hp] at hl
    exact hj p l hl

/-- The heap after a new link was made. -/
theorem AllJoined.between {s₁ : Net ι} {gone : ℕ → Prop} {outRank : OutputRank} {inRank : InputRank}
    (hj : AllJoined s) (hd : Drops gone (s₁.setHeap p (some (between x y outRank inRank))) s')
    (hsame : ∀ q, q ≠ p → s₁.heap q = s.heap q) : AllJoined s' := by
  intro q l hl
  have hq : ¬ gone q := by
    intro hq
    rw [hd.dead q hq] at hl
    cases hl
  rw [hd.kept q hq] at hl
  by_cases hn : q = p
  · subst hn
    obtain rfl := Option.some.inj ((setHeap_self ..).symm.trans hl)
    exact ⟨rfl, rfl⟩
  · rw [setHeap_of_ne hn, hsame q hn] at hl
    exact hj q l hl

theorem refersTo_iff (hc : Settled d s) (hplain : ∀ h, d.kind h ≠ .demux) :
    RefersTo s h t p ↔ d.Holds s h t p := by
  have hmap : ¬ d.HasMap h t := fun hm => hplain h hm.1
  by_cases hset : d.HasSet h t
  · rw [holds_set hset]
    unfold RefersTo
    rw [hc.single h t (Or.inl hset)]
    exact ⟨fun hr => (hr.resolve_left (by rintro ⟨⟩)).2, fun hp => Or.inr ⟨hset.2, hp⟩⟩
  · rw [holds_single hset hmap]
    refine ⟨fun hr => hr.resolve_right ?_, Or.inl⟩
    rintro ⟨rfl, hp⟩
    have hk : d.kind h ≠ .mux := fun hk => hset ⟨hk, rfl⟩
    rw [hc.onlySet h hk] at hp
    exact List.not_mem_nil hp

theorem paired_of_settled (hc : Settled d s) (hplain : ∀ h, d.kind h ≠ .demux)
    (hj : AllJoined s) : Paired s := by
  have hend : ∀ h t p l, s.heap p = some l → (RefersTo s h t p ↔ l.holder t = some h) := by
    intro h t p l hl
    rw [refersTo_iff hc hplain]
    constructor
    · intro hh
      obtain ⟨l', hl', -, hhold, -⟩ := hc.joined (fun hm => hplain h hm.1) hh
      obtain rfl := Option.some.inj (hl.symm.trans hl')
      exact hhold
    · exact fun hhold => hc.held h t p l hl hhold not_false
  refine ⟨fun h t p hr => ?_, fun p l hl => ?_, fun p l hl => ?_⟩
  · obtain ⟨l, hl, -, hhold, -⟩ := hc.joined (fun hm => hplain h hm.1) ((refersTo_iff hc hplain).1 hr)
    exact ⟨l, hl, hhold⟩
  · obtain ⟨x, hx⟩ := Option.isSome_iff_exists.1 (hj p l hl).1
    refine ⟨x, hx, fun h r => ?_⟩
    rw [hend h _ p l hl, l.holder_eq, hx, Option.some.injEq]
    constructor
    · rintro (⟨-, hr⟩ | ⟨rfl, hr⟩)
      · exact absurd hr.symm (InputRank.link_ne _ _)
      · refine ⟨rfl, ?_⟩
        revert hr
        cases r <;> cases l.sourceOutputRank <;> decide
    · rintro ⟨rfl, rfl⟩
      exact Or.inr ⟨rfl, rfl⟩
  · obtain ⟨y, hy⟩ := Option.isSome_iff_exists.1 (hj p l hl).2
    refine ⟨y, hy, fun h r => ?_⟩
    rw [hend h _ p l hl, l.holder_eq, hy, Option.some.injEq]
    constructor
    · rintro (⟨rfl, hr⟩ | ⟨-, hr⟩)
      · refine ⟨rfl, ?_⟩
        revert hr
        cases r <;> cases l.targetInputRank <;> decide
      · exact absurd hr (InputRank.link_ne _ _)
    · rintro ⟨rfl, rfl⟩
      exact Or.inl ⟨rfl, rfl⟩

variable [DecidableEq ι]

/-- Without demultiplexers there are no links without ends. -/
theorem run_joined (hplain : ∀ h, d.kind h ≠ .demux) (hrun : Run d allowed s) : AllJoined s := by
  induction hrun with
  | start => exact fun p l hl => by cases hl
  | @op s s' k o r hprev ho _ hrun ih =>
    have hc := run_settled_all hprev
    cases o with
    | connectOutput h y outRank inRank =>
      replace hrun : d.connectOutput k h y outRank inRank s = .ok (r, s') := hrun
      unfold Handlers.connectOutput at hrun
      rw [if_neg fun hn => hplain h hn.1] at hrun
      obtain ⟨s₁, hdisc, -, -, hcase⟩ := baseConnectOutput_ok hc hrun
      have hj : AllJoined s₁ := ih.shrinks ⟨_, hdisc.drops⟩
      have hj₁ : AllJoined (s₁.setOutput h outRank none) := hj
      rcases hcase with ⟨-, rfl⟩ | ⟨-, s₂, rfl, -, hd₂⟩
      · intro p l hl
        have hp : p ≠ s₁.next := by
          rintro rfl
          cases (setHeap_self ..).symm.trans hl
        exact hj₁ p l ((setHeap_of_ne hp _).symm.trans ((setHeap_of_ne hp _).symm.trans hl))
      · have hj₂ : AllJoined s₂ := hj₁.between hd₂ fun q hq => setHeap_of_ne hq _
        exact hj₂
    | connectPrimaryOutput h id y inRank => exact absurd ho (hplain h)
    | disconnectOutput h outRank =>
      obtain ⟨s₁, hdisc, hrun⟩ := Framing.bind_ok hrun
      obtain ⟨-, rfl⟩ := Prod.mk.inj (Except.ok.inj hrun)
      obtain ⟨-, -, s₂, rfl, -, -, hd₂, -⟩ := disconnectOutput_ok hc hdisc
      have hj₂ : AllJoined s₂ := ih.shrinks ⟨_, hd₂⟩
      exact hj₂
    | withdraw h =>
      obtain ⟨s₁, hwith, hrun⟩ := Framing.bind_ok hrun
      obtain ⟨-, rfl⟩ := Prod.mk.inj (Except.ok.inj hrun)
      exact ih.shrinks (withdraw_ok hc hwith).2

/-- Without demultiplexers an operation goes wrong in no way: it has not returned yet at most. -/
theorem run_error (hc : Settled d s) (hplain : ∀ h, d.kind h ≠ .demux) {o : Op ι}
    (ho : o.Defined d) {k : ℕ} {c : Crash} (hrun : o.run d k s = .error c) : c = .running := by
  cases o with
  | connectOutput h y outRank inRank =>
    replace hrun : d.connectOutput k h y outRank inRank s = .error c := hrun
    unfold Handlers.connectOutput Handlers.baseConnectOutput at hrun
    rw [if_neg fun hn => hplain h hn.1, disconnectOutput_plain (hplain h)] at hrun
    have hmap : ¬ d.HasMap h outRank.link := fun hm => hplain h hm.1
    obtain ⟨s₁, hs₁, hc₁, -, hempty⟩ := baseDisconnectOutput_spec hc hmap
    have hc₁' := hc₁.setOutput h outRank none
    have hheld : ∀ h' t, d.Holds (s₁.setOutput h outRank none).alloc h' t s₁.next ↔
        d.HasMap h outRank.link ∧ h' = h ∧ t = outRank.link := by
      intro h' t
      exact iff_of_false (hc₁'.fresh (h := h') (t := t)) fun hn => hmap hn.1
    have hlt : s₁.next < (s₁.setOutput h outRank none).alloc.next := Nat.lt_succ_self _
    simp only [hs₁, bind, Except.bind] at hrun
    cases hconn : d.connectSourceToTarget k (s₁.setOutput h outRank none).next h y outRank inRank
        (s₁.setOutput h outRank none).alloc with
    | error c' =>
      rw [hconn] at hrun
      rw [← Except.error.inj hrun]
      exact connectSourceToTarget_error hc₁'.alloc hheld hlt hempty hconn
    | ok r =>
      rw [hconn] at hrun
      obtain ⟨_ | e, s₂⟩ := r
      · cases hrun
      · cases hrun
  | connectPrimaryOutput h id y inRank => exact absurd ho (hplain h)
  | disconnectOutput h outRank =>
    have hmap : ¬ d.HasMap h outRank.link := fun hm => hplain h hm.1
    obtain ⟨s₁, hs₁, -⟩ := baseDisconnectOutput_spec hc hmap
    simp only [Op.run, disconnectOutput_plain (hplain h), hs₁, bind, Except.bind, reduceCtorEq] at hrun
  | withdraw h =>
    unfold Op.run Handlers.withdraw at hrun
    cases hk : d.kind h with
    | plain =>
      obtain ⟨s₁, hs₁, -⟩ := baseWithdraw_spec hc h
      simp only [hk, hs₁, bind, Except.bind, reduceCtorEq] at hrun
    | mux =>
      rcases withdrawInputs_spec hk k hc with herr | ⟨s₁, hs₁, hc₁, -, hnil⟩
      · simp only [hk, herr, bind, Except.bind] at hrun
        exact (Except.error.inj hrun).symm
      · obtain ⟨s₂, hs₂, -⟩ := baseWithdraw_spec hc₁ h
        simp only [hk, hs₁, setInputs_nil hnil, hs₂, bind, Except.bind, reduceCtorEq] at hrun
    | demux => exact absurd hk (hplain h)

/-- **Links and slots stay paired** without demultiplexers, and no operation follows a pointer to a
link that was destroyed. -/
theorem slots_paired (hplain : ∀ h, d.kind h ≠ .demux) (hrun : Run d allowed s) :
    Paired s ∧ ∀ o : Op ι, o.Defined d → ∀ k c, o.run d k s = .error c → c = .running := by
  have hc := run_settled_all hrun
  exact ⟨paired_of_settled hc hplain (run_joined hplain hrun),
    fun o ho k c herr => run_error hc hplain ho herr⟩

/-- A handler that may be connected to a multiplexer. -/
def toMux : Handlers Bool where
  kind h := if h then .mux else .plain
  auxQueue _ := false

/-- The set of the multiplexer has the link after the connect. -/
theorem slots_paired_mux : ∃ s : Net Bool, s.primaryInputLinks true = [0] ∧ Paired s ∧
    ∀ o : Op Bool, o.Defined toMux → ∀ k c, o.run toMux k s = .error c → c = .running := by
  have hdec : (succeed toMux 1 [.connectOutput false true .PrimaryOutput .PrimaryInput] {}).map
      (fun s => s.primaryInputLinks true) = some [0] := by decide
  obtain ⟨s, hs, hins⟩ := Option.map_eq_some_iff.1 hdec
  have hrun : Run toMux (fun _ _ _ => True) s :=
    run_succeed (fun _ _ => trivial) (by simp [Op.Defined]) Run.start hs
  exact ⟨s, hins, slots_paired (by decide) hrun⟩

/-! ## Cycles -/

section Links

omit [DecidableEq ι]

/-- The operation makes a link from `a` to `b`, unless it throws. -/
def Op.Makes (d : Handlers ι) (s : Net ι) : Op ι → ι → ι → Prop
  | connectOutput h y outRank _, a, b =>
    a = h ∧ b = y ∧ ¬ (d.kind h = .demux ∧ outRank = .PrimaryOutput)
  | connectPrimaryOutput h id y _, a, b => a = h ∧ b = y ∧
    ¬ ∃ p l, (id, p) ∈ s.primaryOutputLinks h ∧ s.heap p = some l ∧ l.target = some y
  | _, _, _ => False

/-- The link that is dropped to make room for the new one. -/
def Op.Replaces (s : Net ι) : Op ι → ℕ → Prop
  | connectOutput h _ outRank _, q => s.links h outRank.link = some q
  | connectPrimaryOutput h id _ _, q => (id, q) ∈ s.primaryOutputLinks h
  | _, _ => False

/-- An edge by a link that is not `gone`. -/
def EdgeBut (gone : ℕ → Prop) (s : Net ι) (a b : ι) : Prop :=
  ∃ p l, ¬ gone p ∧ s.heap p = some l ∧ l.source = some a ∧ l.target = some b

/-- Over the links that stay, the source of the new link leads to its target. -/
def Op.Doubles (d : Handlers ι) (s : Net ι) (o : Op ι) : Prop :=
  ∃ x y, o.Makes d s x y ∧ Relation.ReflTransGen (EdgeBut (o.Replaces s) s) x y

/-- The new link closes a cycle: its target leads to its source. -/
def Op.Closes (d : Handlers ι) (s : Net ι) (o : Op ι) : Prop :=
  ∃ x y, o.Makes d s x y ∧ Reaches s y x

/-- The new link is from a handler to itself, or between handlers neither of which leads to the
other. -/
def Op.Apart (d : Handlers ι) (s : Net ι) (o : Op ι) : Prop :=
  ∀ x y, o.Makes d s x y → x = y ∨
    (¬ Reaches s y x ∧ ¬ Relation.ReflTransGen (EdgeBut (o.Replaces s) s) x y)

theorem Op.Makes.unique {o : Op ι} {a b : ι} (h : o.Makes d s x y) (h' : o.Makes d s a b) :
    a = x ∧ b = y := by
  cases o with
  | connectOutput => exact ⟨h'.1.trans h.1.symm, h'.2.1.trans h.2.1.symm⟩
  | connectPrimaryOutput => exact ⟨h'.1.trans h.1.symm, h'.2.1.trans h.2.1.symm⟩
  | disconnectOutput => exact h.elim
  | withdraw => exact h.elim

/-- What is left of the edges when links are dropped. -/
theorem Drops.edge {gone : ℕ → Prop} (hd : Drops gone s s') : Edge s' = EdgeBut gone s := by
  funext a b
  apply propext
  constructor
  · rintro ⟨p, l, hl, hends⟩
    have hp : ¬ gone p := by
      intro hp
      rw [hd.dead p hp] at hl
      cases hl
    exact ⟨p, l, hp, (hd.kept p hp).symm.trans hl, hends⟩
  · rintro ⟨p, l, hp, hl, hends⟩
    exact ⟨p, l, (hd.kept p hp).trans hl, hends⟩

theorem Drops.edge_le {gone : ℕ → Prop} (hd : Drops gone s s') {a b : ι} (he : Edge s' a b) :
    Edge s a b := by
  rw [hd.edge] at he
  obtain ⟨p, l, -, hl, hends⟩ := he
  exact ⟨p, l, hl, hends⟩

/-- For links between handlers that are apart the search answers right. -/
theorem doubles_iff_closes {o : Op ι} (hapart : o.Apart d s) : o.Doubles d s ↔ o.Closes d s := by
  constructor
  · rintro ⟨x, y, hmakes, hreach⟩
    rcases hapart x y hmakes with rfl | ⟨-, hn⟩
    · exact ⟨x, x, hmakes, Relation.ReflTransGen.refl⟩
    · exact absurd hreach hn
  · rintro ⟨x, y, hmakes, hreach⟩
    rcases hapart x y hmakes with rfl | ⟨hn, -⟩
    · exact ⟨x, x, hmakes, Relation.ReflTransGen.refl⟩
    · exact absurd hreach hn

theorem not_edge_start {a b : ι} : ¬ Edge ({} : Net ι) a b := by
  rintro ⟨p, l, hl, -⟩
  cases hl

end Links

/-- **The edges after an operation**, and when it throws: an edge is one of before or the new one, and
the connection is refused when its source leads to its target already. -/
theorem run_edges (hc : Settled d s) {o : Op ι} (ho : o.Defined d) {k : ℕ} {r : Option Thrown}
    (hrun : o.run d k s = .ok (r, s')) :
    (∀ a b, Edge s' a b → Edge s a b ∨ (r = none ∧ o.Makes d s a b)) ∧
      (r = some .CircularConnection ↔ o.Doubles d s) := by
  cases o with
  | connectOutput h y outRank inRank =>
    replace hrun : d.connectOutput k h y outRank inRank s = .ok (r, s') := hrun
    unfold Handlers.connectOutput at hrun
    by_cases hmap : d.kind h = .demux ∧ outRank = .PrimaryOutput
    · rw [if_pos hmap] at hrun
      obtain ⟨rfl, rfl⟩ := Prod.mk.inj (Except.ok.inj hrun)
      refine ⟨fun a b he => Or.inl he, iff_of_false (by decide) ?_⟩
      rintro ⟨a, b, hmakes, -⟩
      exact hmakes.2.2 hmap
    rw [if_neg hmap] at hrun
    -- the link that was in the place is dropped first, also where the new one would close a circle
    obtain ⟨s₁, hdisc, hcirc, -, hcase⟩ := baseConnectOutput_ok hc hrun
    have hedge := hdisc.drops.edge
    refine ⟨?_, ?_⟩
    · rcases hcase with ⟨-, rfl⟩ | ⟨rfl, s₂, rfl, -, hd₂⟩
      · rintro a b ⟨p, l, hl, hends⟩
        have hp : p ≠ s₁.next := by
          rintro rfl
          cases (setHeap_self ..).symm.trans hl
        have hl₁ : s₁.heap p = some l :=
          (setHeap_of_ne hp _).symm.trans ((setHeap_of_ne hp _).symm.trans hl)
        exact Or.inl (hdisc.drops.edge_le ⟨p, l, hl₁, hends⟩)
      · intro a b he
        rcases drops_between hd₂ he with he | ⟨rfl, rfl⟩
        · rw [edge_alloc (hdisc.settled.setOutput h outRank none)] at he
          exact Or.inl (hdisc.drops.edge_le he)
        · exact Or.inr ⟨rfl, rfl, rfl, hmap⟩
    · rw [hcirc]
      unfold Reaches
      rw [hedge]
      constructor
      · exact fun hreach => ⟨h, y, ⟨rfl, rfl, hmap⟩, hreach⟩
      · rintro ⟨a, b, ⟨rfl, rfl, -⟩, hreach⟩
        exact hreach
  | connectPrimaryOutput h id y inRank =>
    rcases connectPrimaryOutput_ok hc ho hrun with
      ⟨rfl, rfl, hlinked⟩ | ⟨s₀, names, hc₀, hd₀, hold, hnew⟩
    · refine ⟨fun a b he => Or.inl he, iff_of_false (by decide) ?_⟩
      rintro ⟨a, b, hmakes, -⟩
      exact hmakes.2.2 hlinked
    have hmakes : (Op.connectPrimaryOutput h id y inRank).Makes d s h y := by
      refine ⟨rfl, rfl, ?_⟩
      rintro ⟨p, l, hp, hl, hy⟩
      rcases hold with ⟨hid, -⟩ | ⟨p', l', hp', hl', hy', -⟩
      · exact hid _ hp rfl
      · obtain rfl := (Prod.mk.inj (hc.toTidy.key_unique hp hp' rfl)).2
        obtain rfl := Option.some.inj (hl.symm.trans hl')
        exact hy' hy
    have hc₁ := hc₀.setNames h names
    have hid : ∀ e ∈ (s₀.setNames h names).primaryOutputLinks h, e.1 ≠ id := by
      rintro e he rfl
      obtain ⟨hmem, hn⟩ := (hd₀.map h e).1 he
      exact hn hmem
    obtain ⟨hcirc, -, hcase⟩ := connectNewOutput_ok hc₁ ho hid hnew
    have hmapped : Edge (Mapped (s₀.setNames h names) h id) = Edge s₀ := edge_alloc hc₁
    refine ⟨?_, ?_⟩
    · rcases hcase with ⟨-, rfl⟩ | ⟨rfl, s₂, rfl, -, hd₂⟩
      · intro a b he
        rw [hmapped] at he
        exact Or.inl (hd₀.edge_le he)
      · intro a b he
        rcases drops_between hd₂ he with he | ⟨rfl, rfl⟩
        · rw [hmapped] at he
          exact Or.inl (hd₀.edge_le he)
        · exact Or.inr ⟨rfl, hmakes⟩
    · have hedge : Edge (s₀.setNames h names) =
          EdgeBut ((Op.connectPrimaryOutput h id y inRank).Replaces s) s := hd₀.edge
      rw [hcirc]
      unfold Reaches
      rw [hedge]
      constructor
      · exact fun hreach => ⟨h, y, hmakes, hreach⟩
      · rintro ⟨a, b, ⟨rfl, rfl, -⟩, hreach⟩
        exact hreach
  | disconnectOutput h outRank =>
    -- links are only dropped
    obtain ⟨s₁, hdisc, hrun⟩ := Framing.bind_ok hrun
    obtain ⟨rfl, rfl⟩ := Prod.mk.inj (Except.ok.inj hrun)
    obtain ⟨-, -, s₂, rfl, -, -, hd₂, -⟩ := disconnectOutput_ok hc hdisc
    refine ⟨fun a b he => Or.inl (hd₂.edge_le he), iff_of_false (by decide) ?_⟩
    rintro ⟨a, b, hmakes, -⟩
    exact hmakes
  | withdraw h =>
    obtain ⟨s₁, hwith, hrun⟩ := Framing.bind_ok hrun
    obtain ⟨rfl, rfl⟩ := Prod.mk.inj (Except.ok.inj hrun)
    obtain ⟨gone, hd⟩ := (withdraw_ok hc hwith).2
    refine ⟨fun a b he => Or.inl (hd.edge_le he), iff_of_false (by decide) ?_⟩
    rintro ⟨a, b, hmakes, -⟩
    exact hmakes

/-- One operation closes no cycle. -/
theorem acyclic_step (hc : Settled d s) (hacyc : Acyclic s) {o : Op ι} (ho : o.Defined d)
    (hapart : o.Apart d s) {k : ℕ} {r : Option Thrown} (hrun : o.run d k s = .ok (r, s')) :
    Acyclic s' := by
  obtain ⟨hedges, hthrows⟩ := run_edges hc ho hrun
  by_cases hcirc : r = some .CircularConnection ∨ ∀ x y, ¬ o.Makes d s x y
  · -- nothing is new
    intro z hz
    apply hacyc z
    refine Relation.TransGen.mono (fun a b he => (hedges a b he).resolve_right ?_) z z hz
    rintro ⟨rfl, hmakes⟩
    rcases hcirc with hcirc | hnone
    · cases hcirc
    · exact hnone a b hmakes
  · rw [not_or, not_forall] at hcirc
    obtain ⟨hr, x, hmakes⟩ := hcirc
    rw [not_forall] at hmakes
    obtain ⟨y, hmakes⟩ := hmakes
    rw [not_not] at hmakes
    have hback : ¬ Reaches s y x := by
      intro hreach
      exact hr (hthrows.2 ((doubles_iff_closes hapart).2 ⟨x, y, hmakes, hreach⟩))
    exact acyclic_insert (fun a b he => (hedges a b he).imp id fun hnew => hmakes.unique hnew.2)
      hback hacyc

/-- **The graph stays acyclic, the search returns and refuses the links that close a cycle**, when the
ends of new links are apart. -/
theorem acyclic_of_apart (hrun : Run d (fun s o _ => o.Apart d s) s) :
    Acyclic s ∧ (∀ x y, ∃ k b, d.isCircularConnection s y k x = .ok b) ∧
      ∀ o : Op ι, o.Defined d → o.Apart d s → ∀ k r s', o.run d k s = .ok (r, s') →
        (r = some .CircularConnection ↔ o.Closes d s) := by
  have hc := run_settled_all hrun
  have hacyc : Acyclic s := by
    clear hc
    induction hrun with
    | start =>
      intro x hx
      obtain ⟨y, ⟨p, l, hl, -⟩, -⟩ := Relation.TransGen.head'_iff.1 hx
      cases hl
    | op hprev ho hapart hrun ih => exact acyclic_step (run_settled_all hprev) ih ho hapart hrun
  refine ⟨hacyc, fun x y => ⟨_, isCircularConnection_returns hc hacyc x y⟩, fun o ho hapart k r s' hrun => ?_⟩
  exact (run_edges hc ho hrun).2.trans (doubles_iff_closes hapart)

/-- Two handlers. -/
def twoHandlers : Handlers Bool where
  kind _ := .plain
  auxQueue _ := false

/-- The first link of two handlers. -/
theorem linked_first : ∃ s : Net Bool, Run twoHandlers (fun s o _ => o.Apart twoHandlers s) s ∧ Edge s false true := by
  have hdec : ((Op.connectOutput false true .PrimaryOutput .PrimaryInput).run twoHandlers 1
      {}).toOption.map (fun r => r.2.heap 0) =
        some (some (between false true .PrimaryOutput .PrimaryInput)) := by decide
  have hapart : (Op.connectOutput false true .PrimaryOutput .PrimaryInput).Apart twoHandlers {} := by
    rintro x y ⟨rfl, rfl, -⟩
    refine Or.inr ⟨fun hreach => ?_, fun hreach => ?_⟩
    · rcases Relation.ReflTransGen.cases_head hreach with heq | ⟨c, hedge, -⟩
      · cases heq
      · exact not_edge_start hedge
    · rcases Relation.ReflTransGen.cases_head hreach with heq | ⟨c, ⟨p, l, -, hl, -⟩, -⟩
      · cases heq
      · cases hl
  cases hrun : (Op.connectOutput false true .PrimaryOutput .PrimaryInput).run twoHandlers 1 {} with
  | error c =>
    rw [hrun] at hdec
    cases hdec
  | ok r =>
    rw [hrun] at hdec
    have hall : Run twoHandlers (fun s o _ => o.Apart twoHandlers s) r.2 :=
      Run.op (o := .connectOutput false true .PrimaryOutput .PrimaryInput) Run.start trivial hapart hrun
    exact ⟨r.2, hall, 0, _, Option.some.inj hdec, rfl, rfl⟩

theorem acyclic_of_apart_first : ∃ s : Net Bool, Edge s false true ∧ Acyclic s ∧
    (∀ x y, ∃ k b, twoHandlers.isCircularConnection s y k x = .ok b) ∧
      ∀ o : Op Bool, o.Defined twoHandlers → o.Apart twoHandlers s →
        ∀ k r s', o.run twoHandlers k s = .ok (r, s') →
          (r = some .CircularConnection ↔ o.Closes twoHandlers s) := by
  obtain ⟨s, hall, hedge⟩ := linked_first
  exact ⟨s, hedge, acyclic_of_apart hall⟩

/-- Two opposite links are made. -/
theorem opposite_links : ∃ s : Net Bool, Run twoHandlers (fun _ _ r => r = none) s ∧ Edge s false true ∧
    Edge s true false := by
  have hdec : (succeed twoHandlers 1 [.connectOutput false true .PrimaryOutput .PrimaryInput,
      .connectOutput true false .PrimaryOutput .PrimaryInput] {}).map (fun s => [s.heap 0, s.heap 1]) =
        some [some (between false true .PrimaryOutput .PrimaryInput),
          some (between true false .PrimaryOutput .PrimaryInput)] := by decide
  obtain ⟨s, hs, hheap⟩ := Option.map_eq_some_iff.1 hdec
  have hrun : Run twoHandlers (fun _ _ r => r = none) s :=
    run_succeed (fun _ _ => rfl) (by simp [Op.Defined]) Run.start hs
  simp only [List.cons.injEq, and_true] at hheap
  exact ⟨s, hrun, ⟨0, _, hheap.1, rfl, rfl⟩, ⟨1, _, hheap.2, rfl, rfl⟩⟩

/-- The second of two opposite links closes a cycle, and is made. -/
theorem opposite_links_accepted : ¬ ∀ s : Net Bool, Run twoHandlers (fun _ _ r => r = none) s →
    Acyclic s := by
  intro hclaim
  obtain ⟨s, hrun, hforth, hback⟩ := opposite_links
  apply hclaim s hrun false
  exact Relation.TransGen.tail (Relation.TransGen.single hforth) hback

/-! ## Operations that throw -/

/-- The links, the slots and the maps are the same. -/
structure SameRouting (s s' : Net ι) : Prop where
  heap : s'.heap = s.heap
  links : s'.links = s.links
  inputs : s'.primaryInputLinks = s.primaryInputLinks
  outputs : s'.primaryOutputLinks = s.primaryOutputLinks

/-- The operation changes nothing before the connection is tried: there is no old link, and the new
one is in no map. -/
def Op.Atomic (d : Handlers ι) (s : Net ι) : Op ι → Prop
  | connectOutput h _ outRank _ =>
    (d.kind h = .demux ∧ outRank = .PrimaryOutput) ∨ s.links h outRank.link = none
  | connectPrimaryOutput _ _ _ _ => False
  | _ => True

/-- An empty slot is disconnected without effect on the links. -/
theorem Disconnected.sameRouting {s₁ : Net ι} {h : ι} {outRank : OutputRank}
    (hdisc : Disconnected d h outRank s s₁) (hempty : s.links h outRank.link = none) :
    SameRouting s s₁ := by
  have hrun := hdisc.run
  unfold Handlers.baseDisconnectOutput Handlers.deleteLink at hrun
  rw [if_neg (not_hasSet_output h outRank), if_neg hdisc.slot] at hrun
  simp only [hempty, bind, Except.bind] at hrun
  have heq := Except.ok.inj hrun
  refine ⟨?_, ?_, ?_, ?_⟩
  · exact (congrArg Net.heap heq).symm
  · exact (congrArg Net.links heq).symm
  · exact (congrArg Net.primaryInputLinks heq).symm
  · exact (congrArg Net.primaryOutputLinks heq).symm

/-- **What a connect that throws leaves**: the links, the slots and the maps of before, exactly when
it has disconnected nothing and entered nothing in a map by then. -/
theorem throw_keeps_iff (hreach : Run d allowed s) {o : Op ι} (ho : o.Defined d) {k : ℕ}
    {e : Thrown} (hrun : o.run d k s = .ok (some e, s')) : SameRouting s s' ↔ o.Atomic d s := by
  have hc := run_settled_all hreach
  cases o with
  | connectOutput h y outRank inRank =>
    replace hrun : d.connectOutput k h y outRank inRank s = .ok (some e, s') := hrun
    unfold Handlers.connectOutput at hrun
    by_cases hmap : d.kind h = .demux ∧ outRank = .PrimaryOutput
    · rw [if_pos hmap] at hrun
      obtain ⟨-, rfl⟩ := Prod.mk.inj (Except.ok.inj hrun)
      exact iff_of_true ⟨rfl, rfl, rfl, rfl⟩ (Or.inl hmap)
    rw [if_neg hmap] at hrun
    obtain ⟨s₁, hdisc, -, -, ⟨-, rfl⟩ | ⟨hnone, -⟩⟩ := baseConnectOutput_ok hc hrun
    · constructor
      · intro hsame
        refine Or.inr ?_
        have hlinks := congrFun (congrFun hsame.links h) outRank.link
        exact hlinks.symm.trans hdisc.empty
      · intro hatomic
        have hsame := hdisc.sameRouting (hatomic.resolve_left hmap)
        refine ⟨?_, hsame.links, hsame.inputs, hsame.outputs⟩
        -- the link that was allocated is freed
        have hfree : Function.update s₁.heap s₁.next none = s₁.heap := by
          rw [← hdisc.settled.below s₁.next (Nat.le_refl _), Function.update_eq_self]
        rw [← hsame.heap]
        unfold Net.alloc Net.setHeap Net.setOutput
        rw [Function.update_idem, hfree]
    · cases hnone
  | connectPrimaryOutput h id y inRank =>
    refine iff_of_false (fun hsame => ?_) not_false
    rcases connectPrimaryOutput_ok hc ho hrun with ⟨hr, -⟩ | ⟨s₀, names, hc₀, hd₀, -, hnew⟩
    · cases hr
    have hid : ∀ e ∈ (s₀.setNames h names).primaryOutputLinks h, e.1 ≠ id := by
      rintro e he rfl
      obtain ⟨hmem, hn⟩ := (hd₀.map h e).1 he
      exact hn hmem
    obtain ⟨-, -, ⟨-, rfl⟩ | ⟨hnone, -⟩⟩ := connectNewOutput_ok (hc₀.setNames h names) ho hid hnew
    · -- the new link is on the heap
      have hheap := congrFun hsame.heap s₀.next
      rw [hd₀.rest.next, hc.below s.next (Nat.le_refl _), ← hd₀.rest.next] at hheap
      cases (setHeap_self s₀ s₀.next _).symm.trans hheap
    · cases hnone
  | disconnectOutput h outRank =>
    obtain ⟨s₁, -, hrun⟩ := Framing.bind_ok hrun
    cases Except.ok.inj hrun
  | withdraw h =>
    obtain ⟨s₁, -, hrun⟩ := Framing.bind_ok hrun
    cases Except.ok.inj hrun

/-- A first link from a handler to itself is refused, and nothing has changed. -/
theorem throw_keeps_first : ∃ s' : Net Bool,
    (Op.connectOutput false false .PrimaryOutput .PrimaryInput).run twoHandlers 1 {} =
      .ok (some .CircularConnection, s') ∧ SameRouting {} s' := by
  have hdec : ((Op.connectOutput false false .PrimaryOutput .PrimaryInput).run twoHandlers 1
      {}).toOption.map Prod.fst = some (some .CircularConnection) := by decide
  cases hrun : (Op.connectOutput false false .PrimaryOutput .PrimaryInput).run twoHandlers 1 {} with
  | error c =>
    rw [hrun] at hdec
    cases hdec
  | ok r =>
    obtain ⟨e, s'⟩ := r
    rw [hrun] at hdec
    obtain rfl := Option.some.inj hdec
    have hstart : Run twoHandlers (fun _ _ _ => True) {} := Run.start
    refine ⟨s', rfl, ?_⟩
    exact (throw_keeps_iff hstart (o := .connectOutput false false .PrimaryOutput .PrimaryInput) trivial
      hrun).2 (Or.inr rfl)

/-- The old link is gone after a connection that was refused. -/
theorem refused_drops_link : ¬ ∀ s : Net Bool, Run twoHandlers (fun _ _ _ => True) s →
    ∀ o : Op Bool, o.Defined twoHandlers → ∀ k e s', o.run twoHandlers k s = .ok (some e, s') →
      SameRouting s s' := by
  intro hclaim
  have hdec : (succeed twoHandlers 1 [.connectOutput false true .PrimaryOutput .PrimaryInput]
      {}).bind (fun s => ((Op.connectOutput false false .PrimaryOutput .PrimaryInput).run twoHandlers 1
        s).toOption.map fun r => [r.1.isSome, (s.heap 0).isSome, (r.2.heap 0).isSome]) =
          some [true, true, false] := by decide
  obtain ⟨s, hs, hdec⟩ := Option.bind_eq_some_iff.1 hdec
  have hreach : Run twoHandlers (fun _ _ _ => True) s :=
    run_succeed (fun _ _ => trivial) (by simp [Op.Defined]) Run.start hs
  cases hrun : (Op.connectOutput false false .PrimaryOutput .PrimaryInput).run twoHandlers 1 s with
  | error c =>
    rw [hrun] at hdec
    cases hdec
  | ok r =>
    obtain ⟨_ | e, s'⟩ := r
    · rw [hrun] at hdec
      cases hdec
    · rw [hrun] at hdec
      have hsame := hclaim s hreach (.connectOutput false false .PrimaryOutput .PrimaryInput) trivial 1 e
        s' hrun
      simp only [Except.toOption, Option.map_some, hsame.heap, Option.some.injEq, List.cons.injEq,
        and_true] at hdec
      exact Bool.false_ne_true (hdec.2.2.symm.trans hdec.2.1)

end LinkGraph

end ChannelEmulator
