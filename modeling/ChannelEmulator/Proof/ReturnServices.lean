import ChannelEmulator.Proof.ReturnSegments

/-!
# Service removers of a return channel

* `Step`: the ways in which the loops over the services add a segment.
* `Step.allServe`: **receivers stay connected to their own removers** as long as none goes astray.
* `Strayed.not_allServe`, `Owned.not_allServe`: what stays wrong once it is.
-/

namespace ChannelEmulator.Macros

open LinkGraph

variable {ch ch' : RcvChannel} {a b g r t : RcvSegment} {targets : List RcvSegment} {astray : Prop}

/-! ## What a new segment leaves as it is -/

theorem RcvAdded.mem_old (h : RcvAdded ch ch' g targets) (ha : a ∈ ch.segments) : a ∈ ch'.segments := by
  rw [h.segments]
  exact List.mem_append_left _ ha

theorem RcvAdded.mem_new (h : RcvAdded ch ch' g targets) : g ∈ ch'.segments := by
  rw [h.segments]
  exact List.mem_append_right _ (List.mem_singleton.2 rfl)

theorem RcvAdded.getLast (h : RcvAdded ch ch' g targets) : ch'.segments.getLast? = some g := by
  rw [h.segments, List.getLast?_concat]

/-- No segment outputs to the new one. -/
theorem RcvAdded.free (hg : RcvGood ch) (h : RcvAdded ch ch' g targets) (c : RcvSegment) : ¬ Edge ch'.net c g := by
  intro hedge
  rcases (h.edge c g).1 hedge with ⟨hold, -⟩ | ⟨-, hin⟩
  · exact h.new (hg.inside c g hold).2
  · exact h.new (h.mem g hin)

theorem RcvAdded.edge_new (hg : RcvGood ch) (h : RcvAdded ch ch' g targets) : Edge ch'.net g t ↔ t ∈ targets := by
  rw [h.edge]
  constructor
  · rintro (⟨hold, -⟩ | ⟨-, hin⟩)
    · exact absurd (hg.inside g t hold).1 h.new
    · exact hin
  · exact fun hin => .inr ⟨rfl, hin⟩

theorem RcvAdded.edge_old (h : RcvAdded ch ch' g targets) (ha : a ∈ ch.segments) :
    Edge ch'.net a t ↔ Edge ch.net a t ∧ t ∉ targets := by
  rw [h.edge]
  constructor
  · rintro (hold | ⟨rfl, -⟩)
    · exact hold
    · exact absurd ha h.new
  · exact .inl

/-- The targets count as a set. -/
theorem RcvAdded.congr {targets' : List RcvSegment} (h : RcvAdded ch ch' g targets)
    (hsame : ∀ t, t ∈ targets ↔ t ∈ targets') : RcvAdded ch ch' g targets' where
  good := h.good
  segments := h.segments
  new := h.new
  mem t ht := h.mem t ((hsame t).2 ht)
  edge a b := by rw [h.edge, hsame]

/-- The last segment of a list, or one before it. -/
theorem split_append {α : Type} {l pre post : List α} {x y : α} (h : l ++ [y] = pre ++ x :: post) :
    (pre = l ∧ x = y) ∨ ∃ post', l = pre ++ x :: post' := by
  rcases List.eq_nil_or_concat post with rfl | ⟨post', z, rfl⟩
  · obtain ⟨hl, hx⟩ := List.append_inj' h rfl
    exact .inl ⟨hl.symm, (List.cons.inj hx).1.symm⟩
  · have heq : l ++ [y] = (pre ++ x :: post') ++ [z] := by
      rw [h, List.concat_eq_append, List.append_assoc]
      rfl
    exact .inr ⟨post', (List.append_inj' heq rfl).1⟩

/-! ## The services -/

/-- A new segment with its targets: a receiver behind the remover that came last, a segment that leads nowhere and
has no remover, a segment that is no receiver behind one that has no input or behind receivers and what comes before
these, or an access service's receiver that goes astray. -/
inductive Step (astray : Prop) (ch : RcvChannel) (g : RcvSegment) : List RcvSegment → Prop
  | receiver {r : RcvSegment} (last : ch.segments.getLast? = some r) (free : ∀ c, ¬ Edge ch.net c r)
      (remover : g.dll.remover = some r.dll) : Step astray ch g [r]
  | bare (remover : g.dll.remover = none) : Step astray ch g []
  | relay {r : RcvSegment} (receiver : g.dll.isVCRcv = false) (free : ∀ c, ¬ Edge ch.net c r) : Step astray ch g [r]
  | above {targets : List RcvSegment} (receiver : g.dll.isVCRcv = false) (levels : ∀ t ∈ targets, 2 ≤ t.dll.level) :
      Step astray ch g targets
  | stray {r : RcvSegment} (access : g.dll = .AOS_VC_Rcv .Access) (target : r.dll = .EncapPkt_Remove)
      (goes : astray) : Step astray ch g [r]

theorem level_of_isVCRcv (h : g.dll.isVCRcv = true) : g.dll.level = 2 := by
  rcases g with ⟨_, dll⟩
  cases dll with
  | AOS_VC_Rcv | TM_VC_Rcv_Packet | TM_VC_Rcv_Access => rfl
  | _ => cases h

theorem serves_iff (hg : RcvGood ch) (pre : List RcvSegment) :
    ch.Serves pre g ↔ match g.dll.remover with
      | none => ∀ t, ¬ Edge ch.net g t
      | some m => ∃ r, pre.getLast? = some r ∧ r.dll = m ∧ ∀ t, Edge ch.net g t ↔ t = r := by
  unfold RcvChannel.Serves
  cases g.dll.remover with
  | none => simp only [hg.mem_outputs]
  | some m => simp only [hg.mem_outputs]

/-- What outputs to a target of a step is no receiver. -/
theorem Step.no_receiver (hg : RcvGood ch) (hs : Step astray ch g targets) (hnot : ¬ astray)
    (ha : a.dll.isVCRcv = true) (hedge : Edge ch.net a t) : t ∉ targets := by
  intro hin
  cases hs with
  | receiver last free remover => exact free a (List.mem_singleton.1 hin ▸ hedge)
  | bare remover => cases hin
  | relay receiver free => exact free a (List.mem_singleton.1 hin ▸ hedge)
  | above receiver levels =>
    have hlt := hg.descends a t hedge
    rw [level_of_isVCRcv ha] at hlt
    exact Nat.not_lt.2 (levels t hin) hlt
  | stray access target goes => exact hnot goes

/-- **Receivers stay connected to their own removers.** -/
theorem Step.allServe (hg : RcvGood ch) (hs : Step astray ch g targets) (hnot : ¬ astray)
    (ha : RcvAdded ch ch' g targets) (h : ch.AllServe) : ch'.AllServe := by
  intro pre x post hsplit hrcv
  rw [ha.segments] at hsplit
  rw [serves_iff ha.good]
  rcases split_append hsplit with ⟨rfl, rfl⟩ | ⟨post', hold⟩
  · -- the new segment
    cases hs with
    | receiver last free remover =>
      rw [remover]
      refine ⟨_, last, rfl, fun t => ?_⟩
      rw [ha.edge_new hg, List.mem_singleton]
    | bare remover =>
      rw [remover]
      intro t hedge
      cases (ha.edge_new hg).1 hedge
    | relay receiver free =>
      rw [receiver] at hrcv
      cases hrcv
    | above receiver levels =>
      rw [receiver] at hrcv
      cases hrcv
    | stray access target goes => exact absurd goes hnot
  · have hx : x ∈ ch.segments := by
      rw [hold]
      exact List.mem_append_right _ List.mem_cons_self
    have hsame : ∀ t, Edge ch'.net x t ↔ Edge ch.net x t := fun t =>
      (ha.edge_old hx).trans (and_iff_left_of_imp fun hedge => hs.no_receiver hg hnot hrcv hedge)
    simp only [hsame]
    exact (serves_iff hg pre).1 (h pre x post' hold hrcv)

/-! ## What stays wrong -/

/-- The receiver of an access service outputs to a remover. -/
def Strayed (ch : RcvChannel) : Prop :=
  ∃ g t, Edge ch.net g t ∧ g.dll = .AOS_VC_Rcv .Access ∧ t.dll = .EncapPkt_Remove

theorem Strayed.not_allServe (hg : RcvGood ch) (h : Strayed ch) : ¬ ch.AllServe := by
  intro hall
  obtain ⟨x, t, hedge, hdll, -⟩ := h
  obtain ⟨pre, post, hsplit⟩ := List.append_of_mem (hg.inside x t hedge).1
  have hserves := (serves_iff hg pre).1 (hall pre x post hsplit (by rw [hdll]; rfl))
  rw [hdll] at hserves
  exact hserves t hedge

/-- The remover that was made for a receiver. -/
def Owned (ch : RcvChannel) (t : RcvSegment) : Prop :=
  ∃ pre g post, ch.segments = pre ++ g :: post ∧ g.dll.isVCRcv = true ∧ g.dll.remover = some t.dll ∧
    pre.getLast? = some t

/-- When another segment takes its input, the receiver is left without it. -/
theorem Owned.not_allServe (hg : RcvGood ch) (h : Owned ch t) (hnot : ∀ g, g.dll.isVCRcv = true → ¬ Edge ch.net g t) :
    ¬ ch.AllServe := by
  intro hall
  obtain ⟨pre, x, post, hsplit, hrcv, hremover, hlast⟩ := h
  have hserves := (serves_iff hg pre).1 (hall pre x post hsplit hrcv)
  rw [hremover] at hserves
  obtain ⟨r, hr, -, hedge⟩ := hserves
  obtain rfl := Option.some.inj (hlast.symm.trans hr)
  exact hnot x hrcv ((hedge t).2 rfl)

/-- What the segments of later leave as it is. -/
structure Later (ch ch' : RcvChannel) : Prop where
  mem : ∀ t ∈ ch.segments, t ∈ ch'.segments
  owned : ∀ t, Owned ch t → Owned ch' t
  strayed : Strayed ch → Strayed ch'

theorem Later.refl (ch : RcvChannel) : Later ch ch := ⟨fun _ h => h, fun _ h => h, id⟩

theorem Later.trans {ch₁ : RcvChannel} (h₁ : Later ch ch₁) (h₂ : Later ch₁ ch') : Later ch ch' where
  mem t ht := h₂.mem t (h₁.mem t ht)
  owned t ht := h₂.owned t (h₁.owned t ht)
  strayed h := h₂.strayed (h₁.strayed h)

theorem Owned.append (h : Owned ch t) (ha : RcvAdded ch ch' g targets) : Owned ch' t := by
  obtain ⟨pre, x, post, hsplit, hrest⟩ := h
  refine ⟨pre, x, post ++ [g], ?_, hrest⟩
  rw [ha.segments, hsplit, List.append_assoc]
  rfl

theorem Step.later (hg : RcvGood ch) (hs : Step astray ch g targets) (ha : RcvAdded ch ch' g targets) :
    Later ch ch' where
  mem t ht := ha.mem_old ht
  owned t ht := ht.append ha
  strayed := by
    rintro ⟨x, t, hedge, hx, ht⟩
    have hmem := (hg.inside x t hedge).1
    by_cases hin : t ∈ targets
    · cases hs with
      | receiver last free remover => exact absurd (List.mem_singleton.1 hin ▸ hedge) (free x)
      | bare remover => cases hin
      | relay receiver free => exact absurd (List.mem_singleton.1 hin ▸ hedge) (free x)
      | above receiver levels =>
        have hlevel := levels t hin
        rw [ht] at hlevel
        cases hlevel
      | stray access target goes =>
        -- it is the new receiver that outputs to a remover
        exact ⟨g, _, (ha.edge_new hg).2 (List.mem_singleton.2 rfl), access, target⟩
    · exact ⟨x, t, (ha.edge_old hmem).2 ⟨hedge, hin⟩, hx, ht⟩

/-- The remover that a receiver has come behind. -/
theorem RcvAdded.owned (ha : RcvAdded ch ch' g targets) (hlast : ch.segments.getLast? = some r)
    (hrcv : g.dll.isVCRcv = true) (hremover : g.dll.remover = some r.dll) : Owned ch' r :=
  ⟨ch.segments, g, [], ha.segments, hrcv, hremover, hlast⟩

/-! ## Maps of names -/

/-- A map whose names are those of segments of the channel, or empty. -/
structure Named (ch : RcvChannel) (P : RcvSegment → Prop) (empty : Prop) (m : NameMap) : Prop where
  sorted : m.Pairwise fun a b => a.1 < b.1
  names : ∀ e ∈ m, (e.1 = "" ∧ empty) ∨ ∃ t ∈ ch.segments, t.segName = e.1 ∧ P t

variable {P P' : RcvSegment → Prop} {empty : Prop} {m : NameMap} {name : String} {value : ℕ}

theorem Named.nil : Named ch P empty [] := ⟨List.Pairwise.nil, fun e he => by cases he⟩

theorem Named.nodup (h : Named ch P empty m) : (m.map Prod.fst).Nodup := by
  unfold List.Nodup
  rw [List.pairwise_map]
  exact h.sorted.imp String.ne_of_lt

theorem Named.found (hg : RcvGood ch) (h : Named ch P empty m) : ∀ e ∈ m, ∀ t, ch.find e.1 = some t → P t := by
  intro e he t ht
  rcases h.names e he with ⟨hempty, -⟩ | ⟨u, hu, hname, hP⟩
  · rw [hempty, hg.find_empty] at ht
    cases ht
  · rw [← hname, hg.find_eq hu] at ht
    exact Option.some.inj ht ▸ hP

theorem Named.mono (h : Named ch P empty m) (hmem : ∀ t ∈ ch.segments, t ∈ ch'.segments) (hP : ∀ t, P t → P' t) :
    Named ch' P' empty m where
  sorted := h.sorted
  names e he := by
    rcases h.names e he with hempty | ⟨t, ht, hname, hPt⟩
    · exact .inl hempty
    · exact .inr ⟨t, hmem t ht, hname, hP t hPt⟩

theorem mem_nameAssign {e : String × ℕ} (h : e ∈ m.assign name value) : e.1 = name ∨ e ∈ m := by
  induction m with
  | nil => exact .inl (by rw [List.mem_singleton.1 h])
  | cons d m ih =>
    unfold NameMap.assign at h
    split_ifs at h with heq hlt
    · rcases List.mem_cons.1 h with rfl | h
      · exact .inl rfl
      · exact .inr (List.mem_cons_of_mem _ h)
    · rcases List.mem_cons.1 h with rfl | h
      · exact .inl rfl
      · exact .inr h
    · rcases List.mem_cons.1 h with rfl | h
      · exact .inr List.mem_cons_self
      · exact (ih h).imp_right (List.mem_cons_of_mem _)

theorem nameAssign_sorted (h : m.Pairwise fun a b => a.1 < b.1) (name : String) (value : ℕ) :
    (m.assign name value).Pairwise fun a b => a.1 < b.1 := by
  induction m with
  | nil => exact List.pairwise_singleton _ _
  | cons d m ih =>
    obtain ⟨hd, hm⟩ := List.pairwise_cons.1 h
    unfold NameMap.assign
    split_ifs with heq hlt
    · refine List.pairwise_cons.2 ⟨fun e he => ?_, hm⟩
      rw [← heq]
      exact hd e he
    · refine List.pairwise_cons.2 ⟨fun e he => ?_, h⟩
      rcases List.mem_cons.1 he with rfl | he
      · exact hlt
      · exact String.lt_trans hlt (hd e he)
    · refine List.pairwise_cons.2 ⟨fun e he => ?_, ih hm⟩
      rcases mem_nameAssign he with hname | he
      · by_contra hnot
        rw [hname] at hnot
        exact heq (String.le_antisymm (String.not_lt.1 hlt) (String.not_lt.1 hnot))
      · exact hd e he

theorem Named.assign (h : Named ch P empty m) (value : ℕ)
    (hname : (name = "" ∧ empty) ∨ ∃ t ∈ ch.segments, t.segName = name ∧ P t) :
    Named ch P empty (m.assign name value) where
  sorted := nameAssign_sorted h.sorted name value
  names e he := by
    rcases mem_nameAssign he with rfl | he
    · exact hname
    · exact h.names e he

end ChannelEmulator.Macros
