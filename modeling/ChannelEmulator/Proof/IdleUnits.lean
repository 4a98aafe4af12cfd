import ChannelEmulator.Proof.AosFrame
import ChannelEmulator.Proof.FillPattern
import ChannelEmulator.Spec.IdleUnits

/-!
# Idle units and the configuration

* `idleFrame_ok`: the frame that is made of the settings.
* `rebuildFrame_ok`: a rebuild of the template, and what it leaves.
* `idle_units_match`: **in every run that keeps to `Meets` the idle units match the configuration.**
* `bpdu_matches_iff`: no run gives `modAOS_B_PDU_Add` an idle unit.
-/

namespace ChannelEmulator.AOS.Idle

open Framing

/-- A frame size that has room for the header, and a pattern, where there is something to fill. -/
def Fillable (frameSize : ℤ) (pattern : Bytes) : Prop := 6 ≤ frameSize ∧ (pattern ≠ [] ∨ frameSize = 6)

instance (frameSize : ℤ) (pattern : Bytes) : Decidable (Fillable frameSize pattern) :=
  inferInstanceAs (Decidable (_ ∧ _))

/-- A unit of the frame size, filled with the pattern behind the header. -/
structure IsIdleFrame (c : Settings) (u : Bytes) : Prop where
  length_eq : (u.length : ℤ) = c.frameSize
  filled : ∀ j, 6 ≤ j → j < u.length → u[j]? = c.getIdlePattern[(j - 6) % c.getIdlePattern.length]?

/-- A unit of the length, all idle. -/
structure IsIdleBPDU (bpduLength : ℕ) (u : Bytes) : Prop where
  length_eq : u.length = bpduLength
  allIdle : Bitstream.getBitstreamDataEnd u = .ok Bitstream.allOnesMinusOne
  filled : ∀ j, 2 ≤ j → j < u.length → u[j]? = some 0xE0

/-- `modAOS_VC_Gen` gives an idle unit that matches the settings. -/
def FrameMatches (s : State) : Prop := ∃ u, s.getIdleFrame = .ok u ∧ IsIdleFrame s.settings u

/-- `modAOS_B_PDU_Add` gives an idle unit that matches its length, if it has one. -/
def BPDUMatches (s : State) : Prop :=
  s.bpduAdd.bpduLength ≠ 0 → ∃ u, s.getIdleBPDU = .ok u ∧ IsIdleBPDU s.bpduAdd.bpduLength u

/-! ## The template of `modAOS_VC_Gen` -/

theorem header_ok {u : Bytes} (h : 2 ≤ u.length) {scid : ℕ} (hscid : scid ≤ maxSpacecraftID) :
    ∃ u₁ u₂ v : Bytes, setTFVN u 1 = .ok u₁ ∧ setSpacecraftID u₁ scid = .ok u₂ ∧
      setVirtualChannelID u₂ idleVirtualChannelID = .ok v ∧ v.length = u.length := by
  match u, h with
  | a :: b :: t, _ =>
    obtain ⟨a₁, b₁, h₁⟩ := setTFVN_ok a b t 1
    obtain ⟨a₂, b₂, h₂⟩ := setSpacecraftID_ok a₁ b₁ t hscid
    obtain ⟨a₃, b₃, h₃⟩ := setVirtualChannelID_ok a₂ b₂ t (c := idleVirtualChannelID) le_rfl
    exact ⟨_, _, _, h₁, h₂, h₃, rfl⟩

/-- **The frame that is made matches the settings.** -/
theorem idleFrame_ok {s : State} (h : Fillable s.settings.frameSize s.settings.getIdlePattern) :
    ∃ u, s.idleFrame = .ok u ∧ IsIdleFrame s.settings u := by
  obtain ⟨hsize, hpattern⟩ := h
  have hscid : (s.vcGen.channel s.settings).getSCID ≤ maxSpacecraftID := Nat.and_le_right
  have hlen : (newUnit s.settings.frameSize.toNat).length = s.settings.frameSize.toNat := newUnit_length _
  obtain ⟨u₁, u₂, v, h₁, h₂, h₃, hv⟩ := header_ok (u := newUnit s.settings.frameSize.toNat) (by omega) hscid
  have hcount : sizeDiff v.length spanRequiredHeader = v.length - 6 := if_pos (show 6 ≤ v.length by omega)
  unfold State.idleFrame
  rw [if_neg (by omega)]
  simp only [h₁, h₂, h₃, ok_bind, hcount]
  by_cases hne : s.settings.getIdlePattern = []
  · -- the frame is all header
    have hsize' := hpattern.resolve_left fun h => h hne
    refine ⟨v, ?_, by omega, fun j hj hlt => by omega⟩
    unfold fillLoop
    rw [if_neg (by omega)]
  · obtain ⟨out, hout, houtlen, hoctets⟩ :=
      fillLoop_ok copyUnit_ok hne 6 (v.length - 6) (v.length - 6) 0 (u := v) (by omega) (by omega)
    refine ⟨out, hout, by omega, fun j hj hlt => ?_⟩
    rw [hoctets, if_pos (by omega)]

/-! ## What a run keeps -/

/-- The template is in memory, and matches the settings. -/
structure TemplateMatches (s : State) : Prop where
  fillable : Fillable s.settings.frameSize s.settings.getIdlePattern
  unlocked : s.vcGen.locked = false
  template : ∃ p u, s.vcGen.idleUnitTemplate = some p ∧ s.memory[p]? = some (some u) ∧ IsIdleFrame s.settings u

theorem TemplateMatches.frameMatches {s : State} (h : TemplateMatches s) : FrameMatches s := by
  obtain ⟨p, u, hp, hu, hmatch⟩ := h.template
  refine ⟨u, ?_, hmatch⟩
  unfold State.getIdleFrame Memory.read
  rw [hp]
  simp only [h.unlocked, hu]
  rfl

/-- A template that can be released. -/
def Releasable (m : Memory) (p : Option ℕ) : Prop := ∀ i, p = some i → ∃ u, m[i]? = some (some u)

theorem TemplateMatches.releasable {s : State} (h : TemplateMatches s) :
    Releasable s.memory s.vcGen.idleUnitTemplate := by
  obtain ⟨p, u, hp, hu, -⟩ := h.template
  rintro i hi
  obtain rfl := Option.some.inj (hp.symm.trans hi)
  exact ⟨u, hu⟩

theorem release_ok {m : Memory} {p : Option ℕ} (h : Releasable m p) {v : Bytes} :
    ∃ m', (m.alloc v).1.release p = .ok m' ∧ m'[m.length]? = some (some v) := by
  have hnew : (m ++ [some v])[m.length]? = some (some v) := List.getElem?_concat_length
  cases p with
  | none => exact ⟨_, rfl, hnew⟩
  | some i =>
    obtain ⟨u, hu⟩ := h i rfl
    have hi : i < m.length := (List.getElem?_eq_some_iff.1 hu).1
    have hold : (m ++ [some v])[i]? = some (some u) := by rw [List.getElem?_append_left hi, hu]
    refine ⟨(m ++ [some v]).set i none, ?_, ?_⟩
    · unfold Memory.alloc Memory.release
      simp only [hold]
    · rw [List.getElem?_set_ne (by omega), hnew]

/-- **A rebuild leaves a template that matches the settings**, and nothing else is changed. -/
theorem rebuildFrame_ok {s : State} (h : Fillable s.settings.frameSize s.settings.getIdlePattern)
    (hunlocked : s.vcGen.locked = false) (hrel : Releasable s.memory s.vcGen.idleUnitTemplate) :
    ∃ s', s.rebuildFrame = .ok s' ∧ TemplateMatches s' ∧ s'.bpduAdd = s.bpduAdd := by
  obtain ⟨u, hu, hmatch⟩ := idleFrame_ok h
  obtain ⟨m, hm, hnew⟩ := release_ok hrel (v := u)
  refine ⟨{ s with memory := m, vcGen := { s.vcGen with idleUnitTemplate := some s.memory.length } }, ?_, ?_, rfl⟩
  · unfold State.rebuildFrame
    rw [if_neg (by rw [hunlocked]; exact Bool.false_ne_true), hu]
    simp only [hm]
    rfl
  · exact ⟨h, hunlocked, s.memory.length, u, rfl, hnew, hmatch⟩

/-! ## The pattern that is stored -/

/-- The slots are stored one after the other. -/
theorem storeIdle_ok (idlePattern : Bytes) (i : ℕ) {setting : List ℤ} (hi : i ≤ setting.length) :
    (storeIdle idlePattern i setting).take (i + idlePattern.length) =
      setting.take i ++ idlePattern.map fun b => (b.toNat : ℤ) := by
  induction idlePattern generalizing i setting with
  | nil =>
    unfold storeIdle
    rw [List.map_nil, List.append_nil, List.length_nil, Nat.add_zero]
  | cons b idlePattern ih =>
    unfold storeIdle
    obtain ⟨next, hnext, hlen, htake⟩ := FillPattern.exists_stored (b.toNat : ℤ) hi
    simp only [← hnext]
    rw [List.length_cons, show i + (idlePattern.length + 1) = i + 1 + idlePattern.length by omega, ih (i + 1) hlen,
      htake, List.map_cons, List.append_assoc, List.singleton_append]

/-- **The pattern that is set is the one that is returned.** -/
theorem storeIdlePattern_get (c : Settings) (idlePattern : Bytes) :
    (c.storeIdlePattern idlePattern).getIdlePattern = idlePattern := by
  have hstored := storeIdle_ok idlePattern 0 (Nat.zero_le c.idlePattern.length)
  rw [Nat.zero_add, List.take_zero, List.nil_append] at hstored
  unfold Settings.storeIdlePattern Settings.getIdlePattern
  simp only [hstored, List.map_map]
  refine List.map_id'' (fun b => ?_) idlePattern
  have hb := b.toNat_lt
  show UInt8.ofNat ((b.toNat : ℤ) % 256).toNat = b
  rw [show ((b.toNat : ℤ) % 256).toNat = b.toNat by omega, UInt8.ofNat_toNat]

/-! ## Runs -/

/-- What another module may store: the frame size that is there, and a pattern that fills as the one that is
there. -/
def SameFill (c c' : Settings) : Prop :=
  c'.frameSize = c.frameSize ∧ ∀ j : ℕ, 6 + (j : ℤ) < c.frameSize →
    c'.getIdlePattern[j % c'.getIdlePattern.length]? = c.getIdlePattern[j % c.getIdlePattern.length]?

/-- The calls after which idle units match. -/
def Meets (s : State) : Call → Prop
  | .setFrameSize newVal => Fillable newVal s.settings.getIdlePattern
  | .setMTU newVal => Fillable (toInt newVal) s.settings.getIdlePattern
  | .setMRU newVal => Fillable
      (toInt (newVal + (s.vcGen.channel s.settings).layout.nonDataLength + s.settings.insertZoneSize))
      s.settings.getIdlePattern
  | .setIdlePattern idlePattern => Fillable s.settings.frameSize idlePattern
  | .elsewhere settings => SameFill s.settings settings
  | .setBPDULength newLength => newLength = 0
  | .connectBPDU targetMRU => targetMRU = 0
  | .startBPDU targetMRU => s.bpduAdd.mtu = 0 ∧ ∀ mru ∈ targetMRU, mru = 0
  | .bitstreamData targetMRU => s.bpduAdd.mtuIsManual = false → (s.bpduAdd.receivedUnitCount + 1) % 11 = 0 →
      ∀ mru ∈ targetMRU, mru = 0
  | _ => True

/-- The states that are reached from the constructors on by calls that keep to `Meets`. -/
inductive Reaches (saved : Settings) (vcGen : VCGen) (mtu : ℕ) : State → Prop
  | new {s : State} : State.new saved vcGen mtu = .ok s → Reaches saved vcGen mtu s
  | call {s s' : State} {c : Call} : Reaches saved vcGen mtu s → Meets s c → s.call c = .ok s' →
      Reaches saved vcGen mtu s'

theorem SameFill.fillable {c c' : Settings} (h : SameFill c c') (hc : Fillable c.frameSize c.getIdlePattern) :
    Fillable c'.frameSize c'.getIdlePattern := by
  obtain ⟨hsize, hfill⟩ := h
  rw [hsize]
  refine ⟨hc.1, ?_⟩
  by_cases hlast : c.frameSize = 6
  · exact .inr hlast
  · have hne := hc.2.resolve_right hlast
    have hpos : 0 < c.getIdlePattern.length := List.length_pos_iff.2 hne
    have h0 := hfill 0 (by have := hc.1; omega)
    rw [Nat.zero_mod, Nat.zero_mod, List.getElem?_eq_getElem hpos] at h0
    refine .inl fun hnil => ?_
    rw [hnil] at h0
    cases h0

theorem SameFill.isIdleFrame {c c' : Settings} (h : SameFill c c') {u : Bytes} (hu : IsIdleFrame c u) :
    IsIdleFrame c' u := by
  refine ⟨hu.length_eq.trans h.1.symm, fun j hj hlt => ?_⟩
  have hlen := hu.length_eq
  rw [hu.filled j hj hlt, h.2 (j - 6) (by omega)]

/-- The invariant of the runs. -/
structure Kept (s : State) : Prop where
  template : TemplateMatches s
  bpduLength : s.bpduAdd.bpduLength = 0

theorem caught_ok {r : Except (Fault × State) State} {s s' : State} (hr : r = .ok s) (h : State.caught r = .ok s') :
    s' = s := by
  rw [hr] at h
  exact (Except.ok.inj h).symm

/-- A setter that rebuilds the template. -/
theorem Kept.rebuild {s s' : State} (h : Kept s) {c : Settings} (hfill : Fillable c.frameSize c.getIdlePattern)
    (hs' : State.caught (State.rebuildFrame { s with settings := c }) = .ok s') : Kept s' := by
  obtain ⟨t, ht, hmatch, hbpdu⟩ := rebuildFrame_ok (s := { s with settings := c }) hfill h.template.unlocked
    h.template.releasable
  obtain rfl := caught_ok ht hs'
  exact ⟨hmatch, hbpdu ▸ h.bpduLength⟩

theorem Kept.setFrameSize {s s' : State} (h : Kept s) {newVal : ℤ}
    (hfill : Fillable newVal s.settings.getIdlePattern) (hs' : State.caught (s.setFrameSize newVal) = .ok s') :
    Kept s' :=
  h.rebuild (c := { s.settings with frameSize := newVal }) hfill hs'

theorem rebuildBPDU_unset {s : State} (h : s.bpduAdd.bpduLength = 0) : s.rebuildBPDU = .ok s := if_pos h

/-- A change of `modAOS_B_PDU_Add` alone, without a length. -/
theorem Kept.bpdu {s : State} (h : Kept s) {b : BPDUAdd} (hb : b.bpduLength = 0) : Kept { s with bpduAdd := b } :=
  ⟨⟨h.template.fillable, h.template.unlocked, h.template.template⟩, hb⟩

/-- **One call that keeps to `Meets`.** -/
theorem Kept.call {s s' : State} (h : Kept s) {c : Call} (hc : Meets s c) (hs' : s.call c = .ok s') : Kept s' := by
  cases c with
  | setFrameSize newVal => exact h.setFrameSize hc hs'
  | setMTU newVal => exact h.setFrameSize hc hs'
  | setMRU newVal => exact h.setFrameSize hc hs'
  | setUseHeaderErrorControl newVal =>
    exact h.rebuild (c := { s.settings with useHeaderErrorControl := newVal }) h.template.fillable hs'
  | setUseFrameErrorControl newVal =>
    exact h.rebuild (c := { s.settings with useFrameErrorControl := newVal }) h.template.fillable hs'
  | setInsertZoneSize newVal =>
    obtain rfl := Except.ok.inj hs'
    obtain ⟨p, u, hp, hu, hmatch⟩ := h.template.template
    exact ⟨⟨h.template.fillable, h.template.unlocked, p, u, hp, hu, hmatch.length_eq, hmatch.filled⟩, h.bpduLength⟩
  | setIdlePattern idlePattern =>
    refine h.rebuild (c := s.settings.storeIdlePattern idlePattern) ?_ hs'
    rw [storeIdlePattern_get]
    exact hc
  | setSCID newVal =>
    obtain rfl := Except.ok.inj hs'
    exact ⟨⟨h.template.fillable, h.template.unlocked, h.template.template⟩, h.bpduLength⟩
  | setUseOperationalControl newVal =>
    obtain rfl := Except.ok.inj hs'
    exact ⟨⟨h.template.fillable, h.template.unlocked, h.template.template⟩, h.bpduLength⟩
  | frameData data =>
    have hpass : State.caught (s.passFrame data) = .ok s' := hs'
    unfold State.passFrame at hpass
    split at hpass
    · -- the exception leaves the module as it is
      unfold State.caught at hpass
      simp only at hpass
      split_ifs at hpass
      obtain rfl := Except.ok.inj hpass
      exact h
    · obtain rfl := Except.ok.inj hpass
      exact ⟨⟨h.template.fillable, h.template.unlocked, h.template.template⟩, h.bpduLength⟩
  | elsewhere settings =>
    obtain rfl := Except.ok.inj hs'
    obtain ⟨p, u, hp, hu, hmatch⟩ := h.template.template
    have hsame : SameFill s.settings settings := hc
    exact ⟨⟨hsame.fillable h.template.fillable, h.template.unlocked, p, u, hp, hu, hsame.isIdleFrame hmatch⟩,
      h.bpduLength⟩
  | setBPDULength newLength =>
    obtain rfl : newLength = 0 := hc
    have hset : State.caught (s.setBPDULength 0) = .ok s' := hs'
    unfold State.setBPDULength at hset
    obtain rfl := caught_ok (rebuildBPDU_unset rfl) hset
    exact h.bpdu rfl
  | setBPDUMTU newVal =>
    obtain rfl := Except.ok.inj hs'
    exact h.bpdu h.bpduLength
  | connectBPDU targetMRU =>
    obtain rfl : targetMRU = 0 := hc
    have hconnect : State.caught (s.connectBPDU 0) = .ok s' := hs'
    unfold State.connectBPDU at hconnect
    rw [if_pos h.bpduLength] at hconnect
    obtain rfl := caught_ok (rebuildBPDU_unset rfl) hconnect
    exact h.bpdu rfl
  | startBPDU targetMRU =>
    obtain ⟨hmtu, htarget⟩ := hc
    have hstart : State.caught (s.startBPDU targetMRU) = .ok s' := hs'
    unfold State.startBPDU at hstart
    simp only [if_pos h.bpduLength, hmtu, Nat.lt_irrefl, if_false] at hstart
    cases targetMRU with
    | none =>
      obtain rfl := caught_ok (rebuildBPDU_unset h.bpduLength) hstart
      exact h
    | some mru =>
      obtain rfl := htarget mru rfl
      obtain rfl := caught_ok (rebuildBPDU_unset rfl) hstart
      exact h.bpdu rfl
  | bitstreamData targetMRU =>
    obtain rfl := Except.ok.inj hs'
    unfold State.passBPDU
    cases targetMRU with
    | none => exact h.bpdu h.bpduLength
    | some mru =>
      simp only
      split_ifs with hnew
      · exact h.bpdu (hc hnew.1 hnew.2 mru rfl)
      · exact h.bpdu h.bpduLength

theorem Reaches.kept {saved : Settings} {vcGen : VCGen} {mtu : ℕ} {s : State}
    (hsaved : Fillable saved.new.frameSize saved.new.getIdlePattern) (h : Reaches saved vcGen mtu s) : Kept s := by
  induction h with
  | new hnew =>
    obtain ⟨t, ht, hmatch, hbpdu⟩ := rebuildFrame_ok
      (s := { settings := saved.new, vcGen := { vcGen with idleUnitTemplate := none, locked := false },
              bpduAdd := { mtu := mtu } }) hsaved rfl (fun i hi => by cases hi)
    obtain rfl := caught_ok ht hnew
    exact ⟨hmatch, by rw [hbpdu]⟩
  | call _ hc hs' ih => exact ih.call hc hs'

/-! ## The template of `modAOS_B_PDU_Add` -/

/-- Without a template there is an idle unit that matches just where there is no length to match. -/
theorem matches_iff_unset {s : State} (h : s.bpduAdd.idleUnitTemplate = none) :
    BPDUMatches s ↔ s.bpduAdd.bpduLength = 0 := by
  constructor
  · intro hmatch
    by_contra hne
    obtain ⟨u, hu, -⟩ := hmatch hne
    unfold State.getIdleBPDU at hu
    rw [h] at hu
    cases hu
  · exact fun hzero hne => absurd hzero hne

/-- The state that is left, also by a fault. -/
def left : Except (Fault × State) State → State
  | .ok s => s
  | .error (_, s) => s

theorem caught_left {r : Except (Fault × State) State} {s' : State} (h : State.caught r = .ok s') : left r = s' := by
  unfold State.caught at h
  split at h
  · exact Except.ok.inj h
  · split_ifs at h
    exact Except.ok.inj h

theorem left_rebuildFrame (s : State) : (left s.rebuildFrame).bpduAdd = s.bpduAdd := by
  unfold State.rebuildFrame
  split
  · rfl
  · simp only
    split
    · rfl
    · split <;> rfl

theorem left_rebuildBPDU {s : State} (h : s.bpduAdd.idleUnitTemplate = none) :
    (left s.rebuildBPDU).bpduAdd.idleUnitTemplate = none := by
  unfold State.rebuildBPDU
  split
  · exact h
  · split
    · exact h
    · simp only
      split
      · exact h
      · rfl

/-- **No call stores a template.** -/
theorem call_no_template {s s' : State} (h : s.bpduAdd.idleUnitTemplate = none) {c : Call}
    (hs' : s.call c = .ok s') : s'.bpduAdd.idleUnitTemplate = none := by
  have hframe : ∀ t : State, t.bpduAdd = s.bpduAdd → State.caught t.rebuildFrame = .ok s' →
      s'.bpduAdd.idleUnitTemplate = none := by
    intro t ht hcaught
    rw [← caught_left hcaught, left_rebuildFrame, ht]
    exact h
  have hbpdu : ∀ t : State, t.bpduAdd.idleUnitTemplate = none → State.caught t.rebuildBPDU = .ok s' →
      s'.bpduAdd.idleUnitTemplate = none := by
    intro t ht hcaught
    rw [← caught_left hcaught]
    exact left_rebuildBPDU ht
  cases c with
  | setFrameSize newVal => exact hframe { s with settings := { s.settings with frameSize := newVal } } rfl hs'
  | setMTU newVal =>
    have hset : State.caught (s.setFrameSize (toInt newVal)) = .ok s' := hs'
    rw [← caught_left hset, State.setFrameSize, left_rebuildFrame]
    exact h
  | setMRU newVal =>
    have hset : State.caught (s.setFrameSize _) = .ok s' := hs'
    rw [← caught_left hset, State.setFrameSize, left_rebuildFrame]
    exact h
  | setUseHeaderErrorControl newVal =>
    exact hframe { s with settings := { s.settings with useHeaderErrorControl := newVal } } rfl hs'
  | setUseFrameErrorControl newVal =>
    exact hframe { s with settings := { s.settings with useFrameErrorControl := newVal } } rfl hs'
  | setIdlePattern idlePattern => exact hframe { s with settings := s.settings.storeIdlePattern idlePattern } rfl hs'
  | setInsertZoneSize newVal | setSCID newVal | setUseOperationalControl newVal | elsewhere settings =>
    obtain rfl := Except.ok.inj hs'
    exact h
  | frameData data =>
    have hpass : State.caught (s.passFrame data) = .ok s' := hs'
    rw [← caught_left hpass, State.passFrame]
    split <;> exact h
  | setBPDULength newLength =>
    exact hbpdu { s with bpduAdd := { s.bpduAdd with bpduLength := newLength, mtu := newLength } } h hs'
  | setBPDUMTU newVal =>
    obtain rfl := Except.ok.inj hs'
    exact h
  | connectBPDU targetMRU =>
    have hconnect : State.caught (s.connectBPDU targetMRU) = .ok s' := hs'
    unfold State.connectBPDU at hconnect
    split_ifs at hconnect
    · exact hbpdu { s with bpduAdd := { s.bpduAdd with bpduLength := targetMRU, mtu := targetMRU } } h hconnect
    · obtain rfl := Except.ok.inj hconnect
      exact h
  | startBPDU targetMRU =>
    refine hbpdu _ ?_ hs'
    simp only
    split_ifs
    · exact h
    · split <;> exact h
    · exact h
  | bitstreamData targetMRU =>
    obtain rfl := Except.ok.inj hs'
    unfold State.passBPDU
    simp only
    split
    · split_ifs <;> exact h
    · exact h

/-- **No run gives `modAOS_B_PDU_Add` an idle unit**: its units match just where it has no length. -/
theorem bpdu_matches_iff {saved : Settings} {vcGen : VCGen} {mtu : ℕ} {s₀ s : State} {cs : List Call}
    (hnew : State.new saved vcGen mtu = .ok s₀) (hrun : cs.foldlM State.call s₀ = .ok s) :
    BPDUMatches s ↔ s.bpduAdd.bpduLength = 0 := by
  refine matches_iff_unset ?_
  have hstart : s₀.bpduAdd.idleUnitTemplate = none := by
    rw [← caught_left hnew, left_rebuildFrame]
  clear hnew
  induction cs generalizing s₀ with
  | nil =>
    obtain rfl := Except.ok.inj hrun
    exact hstart
  | cons c cs ih =>
    rw [List.foldlM_cons] at hrun
    obtain ⟨s₁, hcall, hrest⟩ := bind_ok hrun
    exact ih hrest (call_no_template hstart hcall)

/-- **In every run that keeps to `Meets` the idle units match the configuration.** -/
theorem idle_units_match {saved : Settings} {vcGen : VCGen} {mtu : ℕ} {s : State}
    (hsaved : Fillable saved.new.frameSize saved.new.getIdlePattern) (h : Reaches saved vcGen mtu s) :
    FrameMatches s ∧ BPDUMatches s :=
  ⟨(h.kept hsaved).template.frameMatches, fun hne => absurd (h.kept hsaved).bpduLength hne⟩

/-- A frame size of eight octets and a pattern of one are set. -/
theorem idle_units_match_eight : ∃ s, Reaches { frameSize := 7 } {} 0 s ∧ s.settings.frameSize = 8 ∧
    s.settings.getIdlePattern = [0x55] ∧ FrameMatches s ∧ BPDUMatches s := by
  have hnew : Reaches { frameSize := 7 } {} 0
      { settings := { frameSize := 7, idlePattern := [170, 187, 204] }
        memory := [some [64, 63, 0, 0, 0, 0, 170]], vcGen := { idleUnitTemplate := some 0 } } := .new rfl
  have hsize : Reaches { frameSize := 7 } {} 0
      { settings := { frameSize := 8, idlePattern := [170, 187, 204] }
        memory := [none, some [64, 63, 0, 0, 0, 0, 170, 187]], vcGen := { idleUnitTemplate := some 1 } } :=
    .call (c := .setFrameSize 8) hnew ⟨by decide, .inl (by decide)⟩ rfl
  have hpattern : Reaches { frameSize := 7 } {} 0
      { settings := { frameSize := 8, idlePattern := [85] }
        memory := [none, none, some [64, 63, 0, 0, 0, 0, 85, 85]], vcGen := { idleUnitTemplate := some 2 } } :=
    .call (c := .setIdlePattern [0x55]) hsize ⟨by decide, .inl (by decide)⟩ rfl
  exact ⟨_, hpattern, by decide, by decide, idle_units_match (by decide) hpattern⟩

/-- **The template of `modAOS_B_PDU_Add` is stored nowhere**: there is no idle unit after its length is set. The
template of `modAOS_VC_Gen` is not rebuilt where another module of the channel stores the frame size. -/
theorem template_not_stored :
    ¬ (∀ (saved : Settings) (vcGen : VCGen) (mtu : ℕ) (s₀ s : State) (newLength : ℕ),
      Fillable saved.new.frameSize saved.new.getIdlePattern → State.new saved vcGen mtu = .ok s₀ →
      s₀.call (.setBPDULength newLength) = .ok s → BPDUMatches s) ∧
    ¬ (∀ (saved settings : Settings) (vcGen : VCGen) (mtu : ℕ) (s₀ s : State),
      Fillable saved.new.frameSize saved.new.getIdlePattern → Fillable settings.frameSize settings.getIdlePattern →
      State.new saved vcGen mtu = .ok s₀ → s₀.call (.elsewhere settings) = .ok s → FrameMatches s) := by
  constructor
  · intro h
    obtain ⟨u, hu, -⟩ := h { frameSize := 7 } {} 0 _ _ 10 (by decide) rfl rfl (by decide)
    cases hu
  · intro h
    obtain ⟨u, hu, hmatch⟩ := h { frameSize := 7 } { frameSize := 8, idlePattern := [0x55] } {} 0 _ _
      (by decide) (by decide) rfl rfl
    obtain rfl := Except.ok.inj hu
    exact absurd hmatch.length_eq (by decide)

end ChannelEmulator.AOS.Idle
