import ChannelEmulator.Spec.ChannelMacros
import ChannelEmulator.Framing.Names
import ChannelEmulator.Proof.ChannelLinks

/-!
# Adding a segment to a channel

* `Good`: segments under names of their own, with links between them only.
* `getUniqueSegName_ok`: a name that is free is found.
* `addSegment_ok`: **a segment is added** behind a segment of the channel.
* `addSegment_keeps`: the same of a call that returned, whatever the target is called.
-/

namespace ChannelEmulator.Macros

open LinkGraph

variable {ch ch' : Channel} {a b g t : Segment} {name : String}

/-- The segments have names of their own, and the links lead from one of them to another. -/
structure Good (ch : Channel) : Prop where
  settled : Settled handlers ch.net
  primary : AllPrimary ch.net
  names : (ch.segments.map Segment.segName).Nodup
  inside : ∀ a b, Edge ch.net a b → a ∈ ch.segments ∧ b ∈ ch.segments

theorem good_start : Good {} where
  settled := settled_start handlers
  primary := allPrimary_start
  names := List.nodup_nil
  inside _ _ h := absurd h not_edge_start

theorem no_demux (g : Segment) : handlers.kind g ≠ .demux := by
  rcases g with ⟨_, dll, _⟩
  cases dll <;> exact fun h => by cases h

/-- The primary outputs are the links. -/
theorem Good.next_iff (hg : Good ch) : ch.next a = some b ↔ Edge ch.net a b := by
  have hmap : ¬ handlers.HasMap a OutputRank.PrimaryOutput.link := fun h => no_demux a h.1
  have hslot : ∀ {p l}, ch.net.heap p = some l →
      (ch.net.links a .PrimaryOutputLink = some p ↔ l.source = some a) := by
    intro p l hl
    have hiff := output_iff hg.settled hmap hl
    rw [and_iff_left (hg.primary p l hl).1] at hiff
    exact hiff
  unfold Channel.next
  constructor
  · intro h
    cases hlink : ch.net.links a .PrimaryOutputLink with
    | none =>
      rw [hlink] at h
      cases h
    | some p =>
      rw [hlink] at h
      obtain ⟨l, hl, ht⟩ := Option.bind_eq_some_iff.1 h
      exact ⟨p, l, hl, (hslot hl).1 hlink, ht⟩
  · rintro ⟨p, l, hl, hs, ht⟩
    rw [(hslot hl).2 hs]
    show (ch.net.heap p).bind _ = _
    rw [hl]
    exact ht

theorem Good.inside_next (hg : Good ch) (h : ch.next a = some b) :
    a ∈ ch.segments ∧ b ∈ ch.segments :=
  hg.inside a b (hg.next_iff.1 h)

/-! ## Names -/

theorem find_some (h : ch.find name = some t) : t ∈ ch.segments ∧ t.segName = name := Framing.find_key_some h

theorem find_none_iff : ch.find name = none ↔ ∀ t ∈ ch.segments, t.segName ≠ name := Framing.find_key_none_iff

/-- A segment is found under its name. -/
theorem Good.find_eq (hg : Good ch) (ht : t ∈ ch.segments) : ch.find t.segName = some t :=
  Framing.find_key_eq hg.names ht

theorem find_taken (ch : Channel) : ∀ n, (ch.find n).isSome = true → n ∈ ch.segments.map Segment.segName := by
  intro n hn
  obtain ⟨t, ht⟩ := Option.isSome_iff_exists.1 hn
  obtain ⟨hmem, rfl⟩ := find_some ht
  exact List.mem_map_of_mem hmem

theorem uniqueFrom_eq (ch : Channel) (baseName : String) (turns x : ℕ) : ch.uniqueFrom baseName turns x =
    (Framing.firstFree (fun n => (ch.find n).isSome) baseName turns x).elim (.error .noName) .ok := by
  induction turns generalizing x with
  | zero => rfl
  | succ turns ih =>
    unfold Channel.uniqueFrom Framing.firstFree
    by_cases htaken : (ch.find (baseName ++ ("_" ++ Nat.repr x))).isSome = true
    · simp only [htaken, if_true]
      exact ih (x + 1)
    · simp only [htaken, Bool.false_eq_true, if_false]
      rfl

theorem getUniqueSegName_eq (ch : Channel) (baseName : String) : ch.getUniqueSegName baseName =
    (Framing.ownName (fun n => (ch.find n).isSome) ch.segments.length baseName).elim (.error .noName) .ok := by
  unfold Channel.getUniqueSegName Framing.ownName
  by_cases htaken : (ch.find baseName).isSome = true
  · rw [if_pos htaken, if_pos htaken, uniqueFrom_eq]
  · rw [if_neg htaken, if_neg htaken]
    rfl

theorem getUniqueSegName_free {baseName : String} (h : ch.getUniqueSegName baseName = .ok name) :
    ch.find name = none := by
  rw [getUniqueSegName_eq] at h
  cases hown : Framing.ownName (fun n => (ch.find n).isSome) ch.segments.length baseName with
  | none =>
    rw [hown] at h
    cases h
  | some n =>
    rw [hown] at h
    obtain rfl := Except.ok.inj h
    exact Option.isNone_iff_eq_none.1 (Option.isSome_eq_false_iff.1 (Framing.ownName_free hown))

/-- **A free name is found.** -/
theorem getUniqueSegName_ok (ch : Channel) {baseName : String} (hbase : baseName ≠ "") :
    ∃ name, ch.getUniqueSegName baseName = .ok name ∧ ch.find name = none ∧ name ≠ "" := by
  obtain ⟨name, hown, -, hne⟩ := Framing.ownName_some (find_taken ch) hbase
  rw [List.length_map] at hown
  have hname : ch.getUniqueSegName baseName = .ok name := by
    rw [getUniqueSegName_eq, hown]
    rfl
  exact ⟨name, hname, getUniqueSegName_free hname, hne⟩

/-! ## Segments -/

/-- A segment is new, and has a target perhaps. A target that is no multiplexer loses the input that it
had. -/
structure Added (ch ch' : Channel) (g : Segment) (target : Option Segment) : Prop where
  good : Good ch'
  segments : ch'.segments = ch.segments ++ [g]
  new : g ∉ ch.segments
  target_mem : ∀ t, target = some t → t ∈ ch.segments
  next_new : ch'.next g = target
  next_old : ∀ a, a ≠ g → ch'.next a = ch.next a ∨
    (ch'.next a = none ∧ ∃ t, target = some t ∧ t.dll.kind ≠ .mux ∧ ch.next a = some t)

theorem Good.names_append (hg : Good ch) (hfree : ch.find g.segName = none) :
    ((ch.segments ++ [g]).map Segment.segName).Nodup := Framing.nodup_key_append hg.names hfree

/-- A segment without a target. -/
theorem Good.alone (hg : Good ch) (hfree : ch.find g.segName = none) :
    Added ch ⟨ch.segments ++ [g], ch.net⟩ g none := by
  have hnew : g ∉ ch.segments := fun hmem => find_none_iff.1 hfree g hmem rfl
  refine ⟨⟨hg.settled, hg.primary, hg.names_append hfree, fun a b he => ?_⟩, rfl, hnew,
    (fun t ht => by cases ht), ?_, fun a _ => .inl rfl⟩
  · obtain ⟨ha, hb⟩ := hg.inside a b he
    exact ⟨List.mem_append_left _ ha, List.mem_append_left _ hb⟩
  · cases hnext : ch.next g with
    | none => exact hnext
    | some t => exact absurd (hg.inside_next hnext).1 hnew

/-- A segment behind one of the channel. -/
theorem Good.linked (hg : Good ch) (hfree : ch.find g.segName = none) (ht : t ∈ ch.segments) (k : ℕ) :
    ∃ net, handlers.connectOutput (k + 1) g t .PrimaryOutput .PrimaryInput ch.net = .ok (none, net) ∧
      Added ch ⟨ch.segments ++ [g], net⟩ g (some t) := by
  have hnew : g ∉ ch.segments := fun hmem => find_none_iff.1 hfree g hmem rfl
  have hgt : g ≠ t := by
    rintro rfl
    exact hnew ht
  obtain ⟨net, hrun, hset, hprim, -, hedge⟩ := connect_new hg.settled hg.primary (no_demux g)
    (fun z he => hnew (hg.inside g z he).1) hgt k
  have hgood : Good ⟨ch.segments ++ [g], net⟩ := by
    refine ⟨hset, hprim, hg.names_append hfree, fun a b he => ?_⟩
    rcases (hedge a b).1 he with ⟨he, -⟩ | ⟨rfl, rfl⟩
    · obtain ⟨ha, hb⟩ := hg.inside a b he
      exact ⟨List.mem_append_left _ ha, List.mem_append_left _ hb⟩
    · exact ⟨List.mem_append_right _ (List.mem_singleton.2 rfl), List.mem_append_left _ ht⟩
  refine ⟨net, hrun, hgood, rfl, hnew, fun u hu => ?_, ?_, fun a ha => ?_⟩
  · obtain rfl := Option.some.inj hu
    exact ht
  · exact hgood.next_iff.2 ((hedge g t).2 (.inr ⟨rfl, rfl⟩))
  · cases hnext : ch.next a with
    | none =>
      refine .inl ?_
      cases hnext' : Channel.next ⟨ch.segments ++ [g], net⟩ a with
      | none => rfl
      | some b =>
        rcases (hedge a b).1 (hgood.next_iff.1 hnext') with ⟨he, -⟩ | ⟨rfl, -⟩
        · rw [hg.next_iff.2 he] at hnext
          cases hnext
        · exact absurd rfl ha
    | some b =>
      have he := hg.next_iff.1 hnext
      by_cases htaken : handlers.kind t ≠ .mux ∧ b = t
      · -- the target has one input, and this was it
        obtain ⟨hkind, rfl⟩ := htaken
        refine .inr ⟨?_, b, rfl, hkind, rfl⟩
        cases hnext' : Channel.next ⟨ch.segments ++ [g], net⟩ a with
        | none => rfl
        | some c =>
          rcases (hedge a c).1 (hgood.next_iff.1 hnext') with ⟨he', hnot⟩ | ⟨rfl, -⟩
          · have hbc := (hg.next_iff.2 he).symm.trans (hg.next_iff.2 he')
            exact absurd ⟨hkind, (Option.some.inj hbc).symm⟩ hnot
          · exact absurd rfl ha
      · exact .inl (hgood.next_iff.2 ((hedge a b).2 (.inl ⟨he, htaken⟩)))

/-- What the name of a target refers to. -/
inductive Refers (ch : Channel) : Option String → Option Segment → Prop
  | nothing : Refers ch none none
  | noName (h : ch.find "" = none) : Refers ch (some "") none
  | segment (t : Segment) (ht : t ∈ ch.segments) : Refers ch (some t.segName) (some t)

theorem makeSegName_ne (props : ChannelProps) {baseName : String} (hbase : baseName ≠ "")
    (num1 num2 : Option ℕ) : props.makeSegName baseName num1 num2 ≠ "" := by
  intro h
  unfold ChannelProps.makeSegName at h
  exact hbase (String.append_eq_empty_iff.1 (String.append_eq_empty_iff.1 h).2).1

theorem find_append (ch : Channel) (g : Segment) (net : Net Segment) (name : String) :
    Channel.find ⟨ch.segments ++ [g], net⟩ name =
      (ch.find name).or (if g.segName = name then some g else none) := Framing.find_key_append

theorem initialize_none {primaryOutput : Option String} (h : primaryOutput.bind ch.find = none) :
    ch.initializeHandlerConnections g primaryOutput = .ok ch := by
  unfold Channel.initializeHandlerConnections
  rw [h]

/-- A segment behind one of the channel, by its name. -/
theorem initialize_some (hg : Good ch) (hfree : ch.find g.segName = none) (ht : t ∈ ch.segments) :
    ∃ ch', Channel.initializeHandlerConnections ⟨ch.segments ++ [g], ch.net⟩ g (some t.segName) =
      .ok ch' ∧ Added ch ch' g (some t) := by
  obtain ⟨net, hrun, hadded⟩ := hg.linked hfree ht (ch.segments ++ [g]).length
  have hfind : (some t.segName).bind (Channel.find ⟨ch.segments ++ [g], ch.net⟩) = some t := by
    show Channel.find ⟨ch.segments ++ [g], ch.net⟩ t.segName = some t
    rw [find_append, hg.find_eq ht]
    rfl
  refine ⟨_, ?_, hadded⟩
  unfold Channel.initializeHandlerConnections
  rw [hfind]
  simp only [hrun]

/-- `addSegment` is a name and a handler under it. -/
theorem addSegment_eq (props : ChannelProps) (dll : Module) {baseName : String}
    {num1 num2 SCID : Option ℕ} (primaryOutput : Option String)
    (hname : ch.getUniqueSegName (props.makeSegName baseName num1 num2) = .ok name) :
    addSegment props ch dll baseName num1 num2 SCID primaryOutput =
      (Channel.initializeHandlerConnections ⟨ch.segments ++ [⟨name, dll, SCID⟩], ch.net⟩
        ⟨name, dll, SCID⟩ primaryOutput).map fun ch' => (ch', name) := by
  unfold addSegment Channel.add
  rw [hname]
  show (do
    let ch ← (if (ch.find name).isSome then Except.error Failure.DuplicateHandlerName else _)
    return (ch, name)) = _
  rw [getUniqueSegName_free hname]
  cases Channel.initializeHandlerConnections ⟨ch.segments ++ [⟨name, dll, SCID⟩], ch.net⟩
    ⟨name, dll, SCID⟩ primaryOutput <;> rfl

/-- **What `addSegment` does**, with a target of the channel or none. -/
theorem addSegment_ok (hg : Good ch) (props : ChannelProps) (dll : Module) {baseName : String}
    (hbase : baseName ≠ "") (num1 num2 SCID : Option ℕ) {primaryOutput : Option String}
    {target : Option Segment} (hrefers : Refers ch primaryOutput target) :
    ∃ ch' g, addSegment props ch dll baseName num1 num2 SCID primaryOutput = .ok (ch', g.segName) ∧
      g.segName ≠ "" ∧ g.dll = dll ∧ g.SCID = SCID ∧ Added ch ch' g target := by
  obtain ⟨name, hname, hfree, hne⟩ := getUniqueSegName_ok ch (makeSegName_ne props hbase num1 num2)
  have hadd : ∀ ch', Channel.initializeHandlerConnections
      ⟨ch.segments ++ [⟨name, dll, SCID⟩], ch.net⟩ ⟨name, dll, SCID⟩ primaryOutput = .ok ch' →
      addSegment props ch dll baseName num1 num2 SCID primaryOutput = .ok (ch', name) := by
    intro ch' hrun
    rw [addSegment_eq props dll primaryOutput hname, hrun]
    rfl
  cases hrefers with
  | nothing => exact ⟨_, ⟨name, dll, SCID⟩, hadd _ (initialize_none rfl), hne, rfl, rfl, hg.alone hfree⟩
  | noName hempty =>
    refine ⟨_, ⟨name, dll, SCID⟩, hadd _ (initialize_none ?_), hne, rfl, rfl, hg.alone hfree⟩
    show Channel.find ⟨ch.segments ++ [⟨name, dll, SCID⟩], ch.net⟩ "" = none
    rw [find_append, hempty, if_neg hne]
    rfl
  | segment t ht =>
    obtain ⟨ch', hrun, hadded⟩ := initialize_some (g := ⟨name, dll, SCID⟩) hg hfree ht
    exact ⟨ch', ⟨name, dll, SCID⟩, hadd ch' hrun, hne, rfl, rfl, hadded⟩

/-- A handler is not connected to itself. -/
theorem connectOutput_self (hg : Good ch) {k : ℕ} {net : Net Segment} :
    handlers.connectOutput k g g .PrimaryOutput .PrimaryInput ch.net ≠ .ok (none, net) := by
  intro hrun
  unfold Handlers.connectOutput at hrun
  rw [if_neg fun h => no_demux g h.1] at hrun
  obtain ⟨s₁, -, hcirc, -, -⟩ := baseConnectOutput_ok hg.settled hrun
  cases hcirc.2 Relation.ReflTransGen.refl

/-- A segment that is to output to itself is refused. -/
theorem initialize_self (hg : Good ch) (hfree : ch.find g.segName = none) :
    Channel.initializeHandlerConnections ⟨ch.segments ++ [g], ch.net⟩ g (some g.segName) ≠
      .ok ch' := by
  intro hinit
  have hbind : (some g.segName).bind (Channel.find ⟨ch.segments ++ [g], ch.net⟩) = some g := by
    show Channel.find ⟨ch.segments ++ [g], ch.net⟩ g.segName = some g
    rw [find_append, hfree, if_pos rfl]
    rfl
  unfold Channel.initializeHandlerConnections at hinit
  rw [hbind] at hinit
  cases hconn : handlers.connectOutput ((ch.segments ++ [g]).length + 1) g g .PrimaryOutput
      .PrimaryInput ch.net with
  | error c => simp only [hconn, reduceCtorEq] at hinit
  | ok r =>
    obtain ⟨e, net⟩ := r
    cases e with
    | none => exact connectOutput_self hg hconn
    | some e => simp only [hconn, reduceCtorEq] at hinit

/-- **What `addSegment` has done** when it returns. -/
theorem addSegment_keeps (hg : Good ch) {props : ChannelProps} {dll : Module} {baseName : String}
    {num1 num2 SCID : Option ℕ} {primaryOutput : Option String}
    (hrun : addSegment props ch dll baseName num1 num2 SCID primaryOutput = .ok (ch', name)) :
    ∃ target, Added ch ch' ⟨name, dll, SCID⟩ target ∧
      ∀ t, target = some t → primaryOutput = some t.segName := by
  obtain ⟨name', hname, -⟩ := Framing.bind_ok hrun
  rw [addSegment_eq props dll primaryOutput hname] at hrun
  have hfree := getUniqueSegName_free hname
  cases hinit : Channel.initializeHandlerConnections
      ⟨ch.segments ++ [⟨name', dll, SCID⟩], ch.net⟩ ⟨name', dll, SCID⟩ primaryOutput with
  | error e =>
    rw [hinit] at hrun
    cases hrun
  | ok ch₁ =>
    rw [hinit] at hrun
    obtain ⟨rfl, rfl⟩ := Prod.mk.inj (Except.ok.inj hrun)
    have hnone : primaryOutput.bind (Channel.find ⟨ch.segments ++ [⟨name', dll, SCID⟩], ch.net⟩) = none →
        ∃ target, Added ch ch₁ ⟨name', dll, SCID⟩ target ∧
          ∀ t, target = some t → primaryOutput = some t.segName := by
      intro hbind
      rw [initialize_none hbind] at hinit
      obtain rfl := Except.ok.inj hinit
      exact ⟨none, hg.alone hfree, fun t ht => by cases ht⟩
    cases primaryOutput with
    | none => exact hnone rfl
    | some n =>
      cases hfind : ch.find n with
      | some t =>
        obtain ⟨ht, rfl⟩ := find_some hfind
        obtain ⟨ch₂, hrun', hadded⟩ := initialize_some (g := ⟨name', dll, SCID⟩) hg hfree ht
        obtain rfl := Except.ok.inj (hrun'.symm.trans hinit)
        refine ⟨some t, hadded, fun u hu => ?_⟩
        rw [Option.some.inj hu]
      | none =>
        have hfind' := find_append ch ⟨name', dll, SCID⟩ ch.net n
        rw [hfind, Option.none_or] at hfind'
        by_cases hself : name' = n
        · -- the name is the new segment's own
          subst hself
          exact absurd hinit (initialize_self (g := ⟨name', dll, SCID⟩) hg hfree)
        · rw [if_neg hself] at hfind'
          exact hnone hfind'

end ChannelEmulator.Macros
