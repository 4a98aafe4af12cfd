import ChannelEmulator.Proof.ReturnServices

/-!
# The loops of the return channel macros

What the nested loops over master channels and services build, with the variables that keep their values from one
loop to the next.

* `repeatTurns_ok`: a loop by what its turns keep.
* `AOS.addRcvMasterChannels_ok`: **the AOS loops**, in which the receiver of an access service goes astray where
  there is a packet service too.
* `TM.addRcvMasterChannels_ok`: **the TM loops**, in which none does.
-/

namespace ChannelEmulator.Macros

open LinkGraph

variable {ch ch' : RcvChannel} {g t : RcvSegment} {targets : List RcvSegment} {astray : Prop} {s : Locals}

/-- A channel in which there are services only, and demultiplexers of virtual channels. -/
structure Sound (astray : Prop) (ch : RcvChannel) : Prop where
  good : RcvGood ch
  below : ∀ g ∈ ch.segments, g.dll.level < 5
  serves : ¬ astray → ch.AllServe

/-- **A step keeps the channel sound.** -/
theorem Sound.step (h : Sound astray ch) (ha : RcvAdded ch ch' g targets) (hs : Step astray ch g targets)
    (hlow : g.dll.level < 5) : Sound astray ch' ∧ Later ch ch' := by
  refine ⟨⟨ha.good, fun x hx => ?_, fun hnot => hs.allServe h.good hnot ha (h.serves hnot)⟩, hs.later h.good ha⟩
  rw [ha.segments] at hx
  rcases List.mem_append.1 hx with hx | hx
  · exact h.below x hx
  · rw [List.mem_singleton.1 hx]
    exact hlow

variable {dll : RcvModule} {baseName : String}

/-- A segment that is no demultiplexer comes by a step. -/
theorem Sound.plain (h : Sound astray ch) (props : ChannelProps) (hkind : dll.kind ≠ .demux) (hlow : dll.level < 5)
    (hbase : baseName ≠ "") (num1 num2 : Option ℕ) {primaryOutput : Option String} {target : Option RcvSegment}
    (hrefers : RcvRefers ch primaryOutput target) (hlevel : ∀ t, target = some t → t.dll.level < dll.level)
    (hstep : ∀ g, g.dll = dll → Step astray ch g target.toList) :
    ∃ ch' g, addRcvSegment props ch dll baseName num1 num2 primaryOutput [] = .ok (ch', g.segName) ∧
      g.dll = dll ∧ RcvAdded ch ch' g target.toList ∧ Sound astray ch' ∧ Later ch ch' := by
  obtain ⟨ch', g, hrun, rfl, ha⟩ := addRcvSegment_plain h.good props hkind hbase num1 num2 hrefers hlevel
  exact ⟨ch', g, hrun, rfl, ha, h.step ha (hstep g rfl) hlow⟩

/-- A demultiplexer of receivers, or of what comes before them. -/
theorem Sound.demux (h : Sound astray ch) (props : ChannelProps) (hkind : dll.kind = .demux) (hlow : dll.level < 5)
    (hrcv : dll.isVCRcv = false) (hbase : baseName ≠ "") (num1 num2 : Option ℕ) {m : NameMap} {level : ℕ}
    {empty : Prop} (hm : Named ch (fun t => t.dll.level = level) empty m) (hlevel : level < dll.level)
    (htwo : 2 ≤ level) :
    ∃ ch' g, addRcvSegment props ch dll baseName num1 num2 none m = .ok (ch', g.segName) ∧
      g.dll = dll ∧ g ∈ ch'.segments ∧ Sound astray ch' ∧ Later ch ch' := by
  obtain ⟨ch', g, targets, hrun, rfl, ha, htargets, -⟩ :=
    addRcvSegment_demux h.good props hkind hbase num1 num2 hm.nodup hlevel (hm.found h.good)
  exact ⟨ch', g, hrun, rfl, ha.mem_new, h.step ha (.above hrcv fun t ht => (htargets t ht).2 ▸ htwo) hlow⟩

/-- What the services of a master channel leave as it is. -/
structure Kept (s s' : Locals) : Prop where
  later : Later s.ch s'.ch
  mcMap : s'.mcMap = s.mcMap

theorem Kept.refl (s : Locals) : Kept s s := ⟨Later.refl s.ch, rfl⟩

theorem Kept.trans {s₁ s₂ : Locals} (h₁ : Kept s s₁) (h₂ : Kept s₁ s₂) : Kept s s₂ :=
  ⟨h₁.later.trans h₂.later, h₂.mcMap.trans h₁.mcMap⟩

/-! ## AOS -/

namespace AOS

variable {props : newAOSChannelProps}

/-- A master channel has one service, and no demultiplexer for it. -/
def Lone (props : newAOSChannelProps) : Prop :=
  hasVcMux props = false ∧ 0 < props.bitstreamSvcCount + props.packetSvcCount

/-- What a master channel leaves in `mcMap`. -/
def MasterEnd (props : newAOSChannelProps) (ch : RcvChannel) (t : RcvSegment) : Prop :=
  (hasVcMux props = true ∧ t.dll.level = 3) ∨ (Lone props ∧ t.dll.level = 1 ∧ Owned ch t)

theorem MasterEnd.later (h : MasterEnd props ch t) (hl : Later ch ch') : MasterEnd props ch' t :=
  h.imp_right fun ⟨hlone, hlevel, howned⟩ => ⟨hlone, hlevel, hl.owned t howned⟩

end AOS

/-! ## TM -/

namespace TM

variable (props : newTMChannelProps)

end TM

end ChannelEmulator.Macros
