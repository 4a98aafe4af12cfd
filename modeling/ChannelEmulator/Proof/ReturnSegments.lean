import ChannelEmulator.Spec.ReturnMacros
import ChannelEmulator.Proof.ChannelSegments

/-!
# Adding a segment to a return channel

Every segment outputs to segments that are nearer to the end of the stream, so no connection is circular.

* `RcvModule.level`: how far a module is from the end.
* `RcvGood`: segments under names of their own, with links towards the end only.
* `addRcvSegment_plain`, `addRcvSegment_demux`: **a segment is added** behind others, which lose the inputs they had.
-/

namespace ChannelEmulator.Macros

open LinkGraph

variable {ch ch' : RcvChannel} {a b g t : RcvSegment} {name : String} {net : Net RcvSegment}

/-- How far a module is from the end of the stream. -/
def RcvModule.level : RcvModule → ℕ
  | EncapPkt_Remove => 0
  | AOS_B_PDU_Remove | AOS_M_PDU_Remove => 1
  | AOS_VC_Rcv _ | TM_VC_Rcv_Packet | TM_VC_Rcv_Access => 2
  | AOS_VC_Demux | TM_VC_Demux => 3
  | TM_MC_Rcv => 4
  | AOS_MC_Demux | TM_MC_Demux => 5
  | AOS_AF_Rcv | TM_AF_Rcv => 6
  | RSDecode _ _ => 7
  | PseudoRandomize => 8
  | ASM_Remove _ => 9

/-- The segments have names of their own, and the links lead from one of them to one nearer to the end. -/
structure RcvGood (ch : RcvChannel) : Prop where
  settled : Settled rcvHandlers ch.net
  primary : AllPrimary ch.net
  joined : AllJoined ch.net
  names : (ch.segments.map RcvSegment.segName).Nodup
  named : ∀ g ∈ ch.segments, g.segName ≠ ""
  inside : ∀ a b, Edge ch.net a b → a ∈ ch.segments ∧ b ∈ ch.segments
  descends : ∀ a b, Edge ch.net a b → b.dll.level < a.dll.level

theorem no_mux (g : RcvSegment) : rcvHandlers.kind g ≠ .mux := by
  rcases g with ⟨_, dll⟩
  cases dll <;> exact fun h => by cases h

/-- The outputs are the links. -/
theorem RcvGood.mem_outputs (hg : RcvGood ch) : b ∈ ch.outputs a ↔ Edge ch.net a b := by
  rw [← targets_outputLinks hg.settled]
  unfold RcvChannel.outputs Targets
  simp only [List.mem_filterMap, Option.bind_eq_some_iff]

/-! ## Links towards the end -/

/-- Every link leads to a segment that is nearer to the end. -/
def Descends (net : Net RcvSegment) : Prop := ∀ a b, Edge net a b → b.dll.level < a.dll.level

theorem Descends.reaches (h : Descends net) (hreach : Reaches net a b) : a = b ∨ b.dll.level < a.dll.level := by
  induction hreach with
  | refl => exact .inl rfl
  | tail _ hedge ih =>
    have hlt := h _ _ hedge
    rcases ih with rfl | ih
    · exact .inr hlt
    · exact .inr (hlt.trans ih)

theorem Descends.acyclic (h : Descends net) : Acyclic net := by
  intro x hx
  have hlt : ∀ y, Relation.TransGen (Edge net) x y → y.dll.level < x.dll.level := by
    intro y hy
    induction hy with
    | single hedge => exact h _ _ hedge
    | tail _ hedge ih => exact (h _ _ hedge).trans ih
  exact Nat.lt_irrefl _ (hlt x hx)

/-! ## Names -/

theorem rcv_find_some (h : ch.find name = some t) : t ∈ ch.segments ∧ t.segName = name := Framing.find_key_some h

theorem RcvGood.find_eq (hg : RcvGood ch) (ht : t ∈ ch.segments) : ch.find t.segName = some t :=
  Framing.find_key_eq hg.names ht

/-- No segment has the empty name. -/
theorem RcvGood.find_empty (hg : RcvGood ch) : ch.find "" = none := Framing.find_key_none_iff.2 hg.named

theorem rcv_find_taken (ch : RcvChannel) :
    ∀ n, (ch.find n).isSome = true → n ∈ ch.segments.map RcvSegment.segName := by
  intro n hn
  obtain ⟨t, ht⟩ := Option.isSome_iff_exists.1 hn
  obtain ⟨hmem, rfl⟩ := rcv_find_some ht
  exact List.mem_map_of_mem hmem

theorem rcv_uniqueFrom_eq (ch : RcvChannel) (baseName : String) (turns x : ℕ) : ch.uniqueFrom baseName turns x =
    (Framing.firstFree (fun n => (ch.find n).isSome) baseName turns x).elim (.error .noName) .ok := by
  induction turns generalizing x with
  | zero => rfl
  | succ turns ih =>
    unfold RcvChannel.uniqueFrom Framing.firstFree
    by_cases htaken : (ch.find (baseName ++ ("_" ++ Nat.repr x))).isSome = true
    · simp only [htaken, if_true]
      exact ih (x + 1)
    · simp only [htaken, Bool.false_eq_true, if_false]
      rfl

/-- **A free name is found.** -/
theorem rcv_getUniqueSegName_ok (ch : RcvChannel) {baseName : String} (hbase : baseName ≠ "") :
    ∃ name, ch.getUniqueSegName baseName = .ok name ∧ ch.find name = none ∧ name ≠ "" := by
  have heq : ch.getUniqueSegName baseName =
      (Framing.ownName (fun n => (ch.find n).isSome) ch.segments.length baseName).elim (.error .noName) .ok := by
    unfold RcvChannel.getUniqueSegName Framing.ownName
    by_cases htaken : (ch.find baseName).isSome = true
    · rw [if_pos htaken, if_pos htaken, rcv_uniqueFrom_eq]
    · rw [if_neg htaken, if_neg htaken]
      rfl
  obtain ⟨name, hown, hfree, hne⟩ := Framing.ownName_some (rcv_find_taken ch) hbase
  rw [List.length_map] at hown
  refine ⟨name, ?_, Option.isNone_iff_eq_none.1 (Option.isSome_eq_false_iff.1 hfree), hne⟩
  rw [heq, hown]
  rfl

/-! ## The links of a new segment -/

/-- In the net, the new segment leads to those that are `done`, all of one level, and these have no other inputs. -/
structure Linked (ch : RcvChannel) (g : RcvSegment) (level : ℕ) (done : List RcvSegment) (net : Net RcvSegment) :
    Prop where
  settled : Settled rcvHandlers net
  primary : AllPrimary net
  joined : AllJoined net
  edge : ∀ a b, Edge net a b ↔ (Edge ch.net a b ∧ b ∉ done) ∨ (a = g ∧ b ∈ done)
  mem : ∀ t ∈ done, t ∈ ch.segments
  levels : ∀ t ∈ done, t.dll.level = level

variable {level : ℕ} {done : List RcvSegment}

theorem RcvGood.linked_start (hg : RcvGood ch) (g : RcvSegment) (level : ℕ) : Linked ch g level [] ch.net where
  settled := hg.settled
  primary := hg.primary
  joined := hg.joined
  edge a b := by simp only [List.not_mem_nil, not_false_iff, and_true, and_false, or_false]
  mem _ h := by cases h
  levels _ h := by cases h

theorem Linked.descends (hg : RcvGood ch) (h : Linked ch g level done net) (hlevel : level < g.dll.level) :
    Descends net := by
  intro a b hedge
  rcases (h.edge a b).1 hedge with ⟨hold, -⟩ | ⟨rfl, hdone⟩
  · exact hg.descends a b hold
  · rw [h.levels b hdone]
    exact hlevel

/-- The links with one more from `g` to `t`. -/
theorem Linked.append (h : Linked ch g level done net) {net' : Net RcvSegment}
    (hset : Settled rcvHandlers net') (hprim : AllPrimary net') (hjoin : AllJoined net')
    (hedge : ∀ a b, Edge net' a b ↔
      (Edge net a b ∧ ¬(rcvHandlers.kind t ≠ .mux ∧ b = t)) ∨ (a = g ∧ b = t))
    (ht : t ∈ ch.segments) (hlevel : t.dll.level = level) : Linked ch g level (done ++ [t]) net' where
  settled := hset
  primary := hprim
  joined := hjoin
  edge a b := by
    rw [hedge, h.edge, and_iff_right (no_mux t), List.mem_append, List.mem_singleton]
    constructor
    · rintro (⟨⟨hold, hnot⟩ | ⟨rfl, hdone⟩, hne⟩ | ⟨rfl, rfl⟩)
      · exact .inl ⟨hold, not_or.2 ⟨hnot, hne⟩⟩
      · exact .inr ⟨rfl, .inl hdone⟩
      · exact .inr ⟨rfl, .inr rfl⟩
    · rintro (⟨hold, hnot⟩ | ⟨rfl, hdone⟩)
      · exact .inl ⟨.inl ⟨hold, fun h => hnot (.inl h)⟩, fun h => hnot (.inr h)⟩
      · by_cases hbt : b = t
        · exact .inr ⟨rfl, hbt⟩
        · exact .inl ⟨.inr ⟨rfl, hdone.resolve_right hbt⟩, hbt⟩
  mem u hu := by
    rcases List.mem_append.1 hu with hu | hu
    · exact h.mem u hu
    · rw [List.mem_singleton.1 hu]
      exact ht
  levels u hu := by
    rcases List.mem_append.1 hu with hu | hu
    · exact h.levels u hu
    · rw [List.mem_singleton.1 hu]
      exact hlevel

/-- **A turn of the constructor** that links a segment which is not linked yet. -/
theorem Linked.step (hg : RcvGood ch) (h : Linked ch g level done net) (hkind : g.dll.kind = .demux)
    (hnew : g ∉ ch.segments) (hlevel : level < g.dll.level) (ht : t ∈ ch.segments) (htlevel : t.dll.level = level)
    (hnot : t ∉ done) {id : Octet} (hid : ∀ e ∈ net.primaryOutputLinks g, e.1 ≠ id) :
    ∃ net', rcvHandlers.connectSourceToTarget (net.next + 2) net.next g t .PrimaryOutput .PrimaryInput
        (net.alloc.setOutputs g (LinkGraph.assign id net.next (net.primaryOutputLinks g))) = .ok (none, net') ∧
      Linked ch g level (done ++ [t]) net' := by
  have hdesc := h.descends hg hlevel
  have hapart : ¬ Reaches net g t := by
    intro hreach
    rcases Relation.ReflTransGen.cases_head hreach with rfl | ⟨c, hedge, hrest⟩
    · exact hnew ht
    · -- the first link is to one that is done
      rcases (h.edge g c).1 hedge with ⟨hold, -⟩ | ⟨-, hdone⟩
      · exact hnew (hg.inside g c hold).1
      · rcases hdesc.reaches hrest with rfl | hlt
        · exact hnot hdone
        · rw [h.levels c hdone, htlevel] at hlt
          exact Nat.lt_irrefl _ hlt
  obtain ⟨net', hrun, hset, hprim, hjoin, hedge⟩ :=
    connect_listed h.settled h.primary h.joined hdesc.acyclic hkind hid hapart
  exact ⟨net', hrun, h.append hset hprim hjoin hedge ht htlevel⟩

/-- **The constructor** links some of the segments that are listed, the first one of them if nothing is linked yet. -/
theorem construct_linked (hg : RcvGood ch) (hkind : g.dll.kind = .demux) (hnew : g ∉ ch.segments)
    (hlevel : level < g.dll.level) {m : NameMap} (hnames : (m.map Prod.fst).Nodup)
    (hlevels : ∀ e ∈ m, ∀ t, ch.find e.1 = some t → t.dll.level = level) (h : Linked ch g level done net)
    (hdone : ∀ t ∈ done, t.segName ∉ m.map Prod.fst) :
    ∃ net' more, ch.construct g m net = .ok net' ∧ Linked ch g level (done ++ more) net' ∧
      (∀ t ∈ more, t.segName ∈ m.map Prod.fst) ∧
      (net.primaryOutputLinks g = [] → ∀ e t, m.head? = some e → ch.find e.1 = some t → t ∈ more) := by
  induction m generalizing done net with
  | nil =>
    refine ⟨net, [], rfl, by rwa [List.append_nil], fun t ht => ?_, fun _ e t he => ?_⟩
    · cases ht
    · cases he
  | cons e m ih =>
    obtain ⟨n, identifier⟩ := e
    obtain ⟨hn, hnames'⟩ := List.nodup_cons.1 hnames
    have hlevels' := fun e he => hlevels e (List.mem_cons_of_mem _ he)
    have hskip : ∀ t ∈ done, t.segName ∉ m.map Prod.fst := fun t ht hin => hdone t ht (List.mem_cons_of_mem _ hin)
    have hpass : ∃ net' more, ch.construct g m net = .ok net' ∧ Linked ch g level (done ++ more) net' ∧
        ∀ t ∈ more, t.segName ∈ ((n, identifier) :: m).map Prod.fst := by
      obtain ⟨net', more, hrun, hlinked, hmore, -⟩ := ih hnames' hlevels' h hskip
      exact ⟨net', more, hrun, hlinked, fun t ht => List.mem_cons_of_mem _ (hmore t ht)⟩
    unfold RcvChannel.construct
    cases hfind : ch.find n with
    | none =>
      obtain ⟨net', more, hrun, hlinked, hmore⟩ := hpass
      refine ⟨net', more, hrun, hlinked, hmore, fun _ e t he ht => ?_⟩
      obtain rfl := Option.some.inj he
      cases hfind.symm.trans ht
    | some t =>
      simp only
      by_cases htaken : ((net.primaryOutputLinks g).any fun e => e.1 == UInt8.ofNat identifier) = true
      · rw [if_pos htaken]
        obtain ⟨net', more, hrun, hlinked, hmore⟩ := hpass
        refine ⟨net', more, hrun, hlinked, hmore, fun hnil => ?_⟩
        rw [hnil] at htaken
        cases htaken
      rw [if_neg htaken]
      obtain ⟨ht, rfl⟩ := rcv_find_some hfind
      have hid : ∀ e ∈ net.primaryOutputLinks g, e.1 ≠ UInt8.ofNat identifier := fun e he heq =>
        htaken (List.any_eq_true.2 ⟨e, he, beq_iff_eq.2 heq⟩)
      have hnot : t ∉ done := fun hin => hdone t hin List.mem_cons_self
      obtain ⟨net₁, hconn, hlinked₁⟩ := h.step hg hkind hnew hlevel ht
        (hlevels _ List.mem_cons_self t hfind) hnot hid
      obtain ⟨net₂, more, hrun, hlinked₂, hmore, -⟩ := ih hnames' hlevels' hlinked₁ (by
        intro u hu hin
        rcases List.mem_append.1 hu with hu | hu
        · exact hskip u hu hin
        · rw [List.mem_singleton.1 hu] at hin
          exact hn hin)
      refine ⟨net₂, t :: more, ?_, ?_, ?_, fun _ e u he hu => ?_⟩
      · rw [hconn]
        exact hrun
      · rw [List.append_assoc] at hlinked₂
        exact hlinked₂
      · intro u hu
        rcases List.mem_cons.1 hu with rfl | hu
        · exact List.mem_cons_self
        · exact List.mem_cons_of_mem _ (hmore u hu)
      · obtain rfl := Option.some.inj he
        obtain rfl := Option.some.inj (hfind.symm.trans hu)
        exact List.mem_cons_self

/-- A segment that is not in the channel has no outputs by identifier. -/
theorem RcvGood.no_channels (hg : RcvGood ch) (hnew : g ∉ ch.segments) : ch.net.primaryOutputLinks g = [] := by
  refine List.eq_nil_iff_forall_not_mem.2 fun e he => ?_
  obtain ⟨hmap, hholds⟩ := hg.settled.toTidy.holds_of_mem he
  obtain ⟨l, hl, -⟩ := hg.settled.live _ _ _ hholds
  obtain ⟨-, hsource, -⟩ := channel_source hg.settled hg.joined he hl
  obtain ⟨t, ht⟩ := Option.isSome_iff_exists.1 (hg.joined _ l hl).2
  exact hnew (hg.inside g t ⟨e.2, l, hl, hsource, ht⟩).1

/-! ## Segments -/

/-- A segment is new, and leads to its targets, which have no other inputs. -/
structure RcvAdded (ch ch' : RcvChannel) (g : RcvSegment) (targets : List RcvSegment) : Prop where
  good : RcvGood ch'
  segments : ch'.segments = ch.segments ++ [g]
  new : g ∉ ch.segments
  mem : ∀ t ∈ targets, t ∈ ch.segments
  edge : ∀ a b, Edge ch'.net a b ↔ (Edge ch.net a b ∧ b ∉ targets) ∨ (a = g ∧ b ∈ targets)

theorem Linked.added (hg : RcvGood ch) (hfree : ch.find g.segName = none) (hne : g.segName ≠ "")
    (hlevel : level < g.dll.level ∨ done = []) (h : Linked ch g level done net) :
    RcvAdded ch ⟨ch.segments ++ [g], net⟩ g done where
  good := {
    settled := h.settled
    primary := h.primary
    joined := h.joined
    names := Framing.nodup_key_append hg.names hfree
    named := by
      intro u hu
      rcases List.mem_append.1 hu with hu | hu
      · exact hg.named u hu
      · rw [List.mem_singleton.1 hu]
        exact hne
    inside := by
      intro a b hedge
      rcases (h.edge a b).1 hedge with ⟨hold, -⟩ | ⟨rfl, hdone⟩
      · obtain ⟨ha, hb⟩ := hg.inside a b hold
        exact ⟨List.mem_append_left _ ha, List.mem_append_left _ hb⟩
      · exact ⟨List.mem_append_right _ (List.mem_singleton.2 rfl), List.mem_append_left _ (h.mem b hdone)⟩
    descends := by
      rcases hlevel with hlevel | rfl
      · exact h.descends hg hlevel
      · intro a b hedge
        rcases (h.edge a b).1 hedge with ⟨hold, -⟩ | ⟨-, hdone⟩
        · exact hg.descends a b hold
        · cases hdone }
  segments := rfl
  new hmem := Framing.find_key_none_iff.1 hfree g hmem rfl
  mem := h.mem
  edge := h.edge

/-- What the name of a target refers to. -/
inductive RcvRefers (ch : RcvChannel) : Option String → Option RcvSegment → Prop
  | nothing : RcvRefers ch none none
  | noName : RcvRefers ch (some "") none
  | segment (t : RcvSegment) (ht : t ∈ ch.segments) : RcvRefers ch (some t.segName) (some t)

theorem rcv_initialize_none {primaryOutput : Option String} (h : primaryOutput.bind ch.find = none) :
    ch.initializeHandlerConnections g primaryOutput = .ok ch := by
  unfold RcvChannel.initializeHandlerConnections
  rw [h]

/-- A new segment that is no demultiplexer is connected. -/
theorem RcvGood.connected (hg : RcvGood ch) (hkind : g.dll.kind ≠ .demux) (hfree : ch.find g.segName = none)
    (hne : g.segName ≠ "") {primaryOutput : Option String} {target : Option RcvSegment}
    (hrefers : RcvRefers ch primaryOutput target) (hlevel : ∀ t, target = some t → t.dll.level < g.dll.level) :
    ∃ ch', RcvChannel.initializeHandlerConnections ⟨ch.segments ++ [g], ch.net⟩ g primaryOutput = .ok ch' ∧
      RcvAdded ch ch' g target.toList := by
  have hnew : g ∉ ch.segments := fun hmem => Framing.find_key_none_iff.1 hfree g hmem rfl
  have hfind : ∀ n, RcvChannel.find ⟨ch.segments ++ [g], ch.net⟩ n =
      (ch.find n).or (if g.segName = n then some g else none) := fun n => Framing.find_key_append
  have halone : RcvAdded ch ⟨ch.segments ++ [g], ch.net⟩ g [] :=
    (hg.linked_start g 0).added hg hfree hne (.inr rfl)
  cases hrefers with
  | nothing => exact ⟨_, rcv_initialize_none rfl, halone⟩
  | noName =>
    refine ⟨_, rcv_initialize_none ?_, halone⟩
    show RcvChannel.find ⟨ch.segments ++ [g], ch.net⟩ "" = none
    rw [hfind, hg.find_empty, if_neg hne]
    rfl
  | segment t ht =>
    have hgt : g ≠ t := by
      rintro rfl
      exact hnew ht
    obtain ⟨net, hrun, hset, hprim, hjoin, hedge⟩ := connect_new hg.settled hg.primary hkind
      (fun z he => hnew (hg.inside g z he).1) hgt (ch.segments ++ [g]).length
    have hlinked : Linked ch g t.dll.level [t] net :=
      (hg.linked_start g t.dll.level).append hset hprim (hjoin hg.joined) hedge ht rfl
    refine ⟨⟨ch.segments ++ [g], net⟩, ?_, hlinked.added hg hfree hne (.inl (hlevel t rfl))⟩
    have hbind : (some t.segName).bind (RcvChannel.find ⟨ch.segments ++ [g], ch.net⟩) = some t := by
      show RcvChannel.find ⟨ch.segments ++ [g], ch.net⟩ t.segName = some t
      rw [hfind, hg.find_eq ht]
      rfl
    unfold RcvChannel.initializeHandlerConnections
    rw [hbind]
    simp only [hrun]

/-- `addRcvSegment` is a name, a handler made under it, and its connection. -/
theorem addRcvSegment_eq (props : ChannelProps) (dll : RcvModule) {baseName : String} {num1 num2 : Option ℕ}
    {primaryOutput : Option String} {primaryOutputs : NameMap}
    (hname : ch.getUniqueSegName (props.makeSegName baseName num1 num2) = .ok name) (hfree : ch.find name = none)
    (hmade : ch.construct ⟨name, dll⟩ primaryOutputs ch.net = .ok net)
    (hinit : RcvChannel.initializeHandlerConnections ⟨ch.segments ++ [⟨name, dll⟩], net⟩ ⟨name, dll⟩
      primaryOutput = .ok ch') :
    addRcvSegment props ch dll baseName num1 num2 primaryOutput primaryOutputs = .ok (ch', name) := by
  unfold addRcvSegment RcvChannel.add
  rw [hname, Framing.ok_bind]
  simp only [hfree, Option.isSome_none, Bool.false_eq_true, if_false, hmade, Framing.ok_bind, hinit]
  rfl

variable {dll : RcvModule} {baseName : String}

/-- **A segment is added** behind one of the channel or none. -/
theorem addRcvSegment_plain (hg : RcvGood ch) (props : ChannelProps) (hkind : dll.kind ≠ .demux)
    (hbase : baseName ≠ "") (num1 num2 : Option ℕ) {primaryOutput : Option String} {target : Option RcvSegment}
    (hrefers : RcvRefers ch primaryOutput target) (hlevel : ∀ t, target = some t → t.dll.level < dll.level) :
    ∃ ch' g, addRcvSegment props ch dll baseName num1 num2 primaryOutput [] = .ok (ch', g.segName) ∧
      g.dll = dll ∧ RcvAdded ch ch' g target.toList := by
  obtain ⟨name, hname, hfree, hne⟩ := rcv_getUniqueSegName_ok ch (makeSegName_ne props hbase num1 num2)
  have hplain : (RcvSegment.mk name dll).dll.kind ≠ .demux := hkind
  obtain ⟨ch', hinit, hadded⟩ := hg.connected hplain hfree hne hrefers hlevel
  exact ⟨ch', ⟨name, dll⟩, addRcvSegment_eq props dll hname hfree rfl hinit, rfl, hadded⟩

/-- **A demultiplexer is added** behind some of the segments that are listed, the first one of them if there is such
a one. -/
theorem addRcvSegment_demux (hg : RcvGood ch) (props : ChannelProps) (hkind : dll.kind = .demux)
    (hbase : baseName ≠ "") (num1 num2 : Option ℕ) {m : NameMap} (hnames : (m.map Prod.fst).Nodup)
    (hlevel : level < dll.level) (hlevels : ∀ e ∈ m, ∀ t, ch.find e.1 = some t → t.dll.level = level) :
    ∃ ch' g targets, addRcvSegment props ch dll baseName num1 num2 none m = .ok (ch', g.segName) ∧
      g.dll = dll ∧ RcvAdded ch ch' g targets ∧ (∀ t ∈ targets, t.segName ∈ m.map Prod.fst ∧ t.dll.level = level) ∧
      ∀ e t, m.head? = some e → ch.find e.1 = some t → t ∈ targets := by
  obtain ⟨name, hname, hfree, hne⟩ := rcv_getUniqueSegName_ok ch (makeSegName_ne props hbase num1 num2)
  have hnew : (⟨name, dll⟩ : RcvSegment) ∉ ch.segments := fun hmem =>
    Framing.find_key_none_iff.1 hfree _ hmem rfl
  have hdemux : (RcvSegment.mk name dll).dll.kind = .demux := hkind
  have hbelow : level < (RcvSegment.mk name dll).dll.level := hlevel
  obtain ⟨net, targets, hmade, hlinked, htargets, hfirst⟩ := construct_linked hg hdemux hnew hbelow hnames hlevels
    (hg.linked_start _ level) (fun t ht => by cases ht)
  refine ⟨_, ⟨name, dll⟩, targets, addRcvSegment_eq props dll hname hfree hmade (rcv_initialize_none rfl), rfl,
    hlinked.added hg hfree hne (.inl hbelow), fun t ht => ⟨htargets t ht, hlinked.levels t ht⟩, ?_⟩
  exact hfirst (hg.no_channels hnew)

end ChannelEmulator.Macros
