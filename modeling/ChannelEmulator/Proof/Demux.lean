import ChannelEmulator.Spec.Demux
import ChannelEmulator.Proof.FrameReception
import Mathlib.Data.List.Find
import Mathlib.Data.List.Induction

/-!
# Where a demultiplexer sends a frame

The output links are kept under identifiers of eight bits. The identifiers of a TM master channel
have ten.

* `connected_eq`: what the links hold after any number of connections.
* `svc_valid`: a valid frame goes to what the links hold for its identifier in eight bits.
* `routes_iff`: **a valid frame is sent to the output connected for its identifier and to no
  other, and no two identifiers share an output, exactly when no two of the identifiers at hand
  agree in their low eight bits.**
* `fits`: this is so of virtual channels, and of AOS master channels.
-/

namespace ChannelEmulator.Demux

variable {τ : Type}

/-! ## Valid frames -/

namespace Handler

/-- The frame passes the tests of `svc`. -/
def Valid : Handler → Bytes → Prop
  | tmVC v, u => u.length = v.frameSize ∧ TM.isValid v.channel u = .ok 1 ∧
      TM.getMCID u = .ok v.channel.scid
  | tmMC v, u => u.length = v.frameSize ∧ TM.isValid v.channel u = .ok 1
  | aosVC v, u => u.length = v.frameSize ∧ AOS.getTFVN u = .ok 1 ∧
      AOS.getMCID u = .ok v.channel.getMCID
  | aosMC v, u => u.length = v.frameSize ∧ AOS.getTFVN u = .ok 1

/-- The greatest identifier of a channel. -/
def maxIdentifier : Handler → ℕ
  | tmVC _ => TM.maxVirtualChannelID
  | tmMC _ => TM.maxSpacecraftID
  | aosVC _ => AOS.maxVirtualChannelID
  | aosMC _ => AOS.maxSpacecraftID

end Handler

theorem tm_validateFrame {v : TM.Service} {u : Bytes} (k : TM.Tallies)
    (hlen : u.length = v.frameSize) (hvalid : TM.isValid v.channel u = .ok 1) :
    v.validateFrame k u = .ok (k, true) := by
  unfold TM.Service.validateFrame
  rw [if_neg (not_not.2 hlen), hvalid]
  rfl

theorem aos_validateFrame {size : ℕ} {u : Bytes} (k : AOS.Rcv) (hlen : u.length = size)
    (htfvn : AOS.getTFVN u = .ok 1) : AOS.validateFrame k u size = .ok (k, true) := by
  unfold AOS.validateFrame
  rw [if_neg (not_not.2 hlen), htfvn]
  rfl

/-- A frame that was read has the octets the identifiers are in. -/
theorem two_octets {u : Bytes} (h : 2 ≤ u.length) : ∃ a b t, u = a :: b :: t := by
  rcases u with _ | ⟨a, _ | ⟨b, t⟩⟩
  · exact absurd h (by simp)
  · exact absurd h (by simp)
  · exact ⟨a, b, t, rfl⟩

theorem aos_two_octets {u : Bytes} (h : AOS.getTFVN u = .ok 1) : 2 ≤ u.length := by
  rcases u with _ | ⟨a, _ | ⟨b, t⟩⟩
  · exact absurd h (by simp [AOS.getTFVN, AOS.front2OctetVal, toU16, bind, Except.bind])
  · exact absurd h (by simp [AOS.getTFVN, AOS.front2OctetVal, toU16, bind, Except.bind])
  · simp

variable {u : Bytes}

theorem tmVC_valid {v : TM.Service} (h : (Handler.tmVC v).Valid u) :
    ∃ id, TM.getVCID u = .ok id ∧ ∀ (links : HandlerLinkMap τ) k,
      ∃ k', TM.svcVCDemux v links k u = .ok (k', links (UInt8.ofNat id)) := by
  obtain ⟨hlen, hvalid, hmcid⟩ := h
  obtain ⟨a, b, t, hu⟩ := two_octets (le_trans (by decide) (TM.isValid_length hvalid))
  obtain ⟨id, hid⟩ : ∃ id, TM.getVCID u = .ok id := by rw [hu]; exact ⟨_, rfl⟩
  refine ⟨id, hid, fun links k => ?_⟩
  simp only [TM.svcVCDemux, tm_validateFrame k hlen hvalid, hmcid, hid, TM.Service.failed, bind,
    Except.bind, pure, Except.pure, Bool.not_true, Bool.false_and, decide_true, Bool.false_eq_true,
    if_false]
  exact ⟨_, rfl⟩

theorem tmMC_valid {v : TM.Service} (h : (Handler.tmMC v).Valid u) :
    ∃ id, TM.getMCID u = .ok id ∧ ∀ (links : HandlerLinkMap τ) k,
      ∃ k', TM.svcMCDemux v links k u = .ok (k', links (UInt8.ofNat id)) := by
  obtain ⟨hlen, hvalid⟩ := h
  obtain ⟨a, b, t, hu⟩ := two_octets (le_trans (by decide) (TM.isValid_length hvalid))
  obtain ⟨id, hid⟩ : ∃ id, TM.getMCID u = .ok id := by rw [hu]; exact ⟨_, rfl⟩
  refine ⟨id, hid, fun links k => ?_⟩
  simp only [TM.svcMCDemux, tm_validateFrame k hlen hvalid, hid, TM.Service.failed, bind,
    Except.bind, pure, Except.pure, Bool.not_true, Bool.false_and, Bool.false_eq_true, if_false]
  exact ⟨_, rfl⟩

theorem aosVC_valid {v : AOS.Service} (h : (Handler.aosVC v).Valid u) :
    ∃ id, AOS.getVirtualChannelID u = .ok id ∧ ∀ (links : HandlerLinkMap τ) k,
      ∃ k', AOS.svcVCDemux v links k u = .ok (k', links (UInt8.ofNat id)) := by
  obtain ⟨hlen, htfvn, hmcid⟩ := h
  obtain ⟨a, b, t, hu⟩ := two_octets (aos_two_octets htfvn)
  obtain ⟨id, hid⟩ : ∃ id, AOS.getVirtualChannelID u = .ok id := by rw [hu]; exact ⟨_, rfl⟩
  refine ⟨id, hid, fun links k => ?_⟩
  simp only [AOS.svcVCDemux, aos_validateFrame k hlen htfvn, hmcid, hid, bind, Except.bind, pure,
    Except.pure, Bool.not_true, Bool.false_and, decide_true, Bool.false_eq_true, if_false]
  exact ⟨_, rfl⟩

theorem aosMC_valid {v : AOS.Service} (h : (Handler.aosMC v).Valid u) :
    ∃ id, AOS.getSpacecraftID u = .ok id ∧ ∀ (links : HandlerLinkMap τ) k,
      ∃ k', AOS.svcMCDemux v links k u = .ok (k', links (UInt8.ofNat id)) := by
  obtain ⟨hlen, htfvn⟩ := h
  obtain ⟨a, b, t, hu⟩ := two_octets (aos_two_octets htfvn)
  obtain ⟨id, hid⟩ : ∃ id, AOS.getSpacecraftID u = .ok id := by rw [hu]; exact ⟨_, rfl⟩
  refine ⟨id, hid, fun links k => ?_⟩
  simp only [AOS.svcMCDemux, aos_validateFrame k hlen htfvn, hid, bind, Except.bind, pure,
    Except.pure, Bool.not_true, Bool.false_and, Bool.false_eq_true, if_false]
  exact ⟨_, rfl⟩

/-- A valid frame goes to what the links hold for its identifier in eight bits. -/
theorem svc_valid {h : Handler} (hu : h.Valid u) :
    ∃ id, h.getIdentifier u = .ok id ∧ ∀ (links : HandlerLinkMap τ) k,
      ∃ k', h.svc k links u = .ok (k', links (UInt8.ofNat id)) := by
  cases h with
  | tmVC v =>
    obtain ⟨id, hid, hsvc⟩ := tmVC_valid (τ := τ) hu
    refine ⟨id, hid, fun links k => ?_⟩
    obtain ⟨k', hk'⟩ := hsvc links k.tm
    exact ⟨{ k with tm := k' }, by simp only [Handler.svc, hk', Functor.map, Except.map]⟩
  | tmMC v =>
    obtain ⟨id, hid, hsvc⟩ := tmMC_valid (τ := τ) hu
    refine ⟨id, hid, fun links k => ?_⟩
    obtain ⟨k', hk'⟩ := hsvc links k.tm
    exact ⟨{ k with tm := k' }, by simp only [Handler.svc, hk', Functor.map, Except.map]⟩
  | aosVC v =>
    obtain ⟨id, hid, hsvc⟩ := aosVC_valid (τ := τ) hu
    refine ⟨id, hid, fun links k => ?_⟩
    obtain ⟨k', hk'⟩ := hsvc links k.aos
    exact ⟨{ k with aos := k' }, by simp only [Handler.svc, hk', Functor.map, Except.map]⟩
  | aosMC v =>
    obtain ⟨id, hid, hsvc⟩ := aosMC_valid (τ := τ) hu
    refine ⟨id, hid, fun links k => ?_⟩
    obtain ⟨k', hk'⟩ := hsvc links k.aos
    exact ⟨{ k with aos := k' }, by simp only [Handler.svc, hk', Functor.map, Except.map]⟩

/-! ## Identifiers -/

/-- Of the identifiers that were connected and that of the frame, no two agree in their low eight
bits. -/
def Distinct (h : Handler) (connects : List (ℕ × τ)) (u : Bytes) : Prop :=
  ∀ i j, (h.getIdentifier u = .ok i ∨ i ∈ connects.map Prod.fst) →
    (h.getIdentifier u = .ok j ∨ j ∈ connects.map Prod.fst) → i % 256 = j % 256 → i = j

theorem getIdentifier_le {h : Handler} (hnarrow : h.maxIdentifier < 256) {id : ℕ}
    (hid : h.getIdentifier u = .ok id) : id ≤ h.maxIdentifier := by
  cases h with
  | tmVC v =>
    obtain ⟨b, -, hid⟩ := Framing.bind_ok hid
    obtain rfl := Except.ok.inj hid
    have hle : b.toNat &&& 0xe ≤ 0xe := Nat.and_le_right
    change (b.toNat &&& 0xe) >>> 1 ≤ 7
    rw [Nat.shiftRight_eq_div_pow]
    omega
  | tmMC v => exact absurd hnarrow (by simp [Handler.maxIdentifier, TM.maxSpacecraftID])
  | aosVC v =>
    obtain ⟨n, -, hid⟩ := Framing.bind_ok hid
    obtain rfl := Except.ok.inj hid
    exact Nat.and_le_right
  | aosMC v =>
    obtain ⟨n, -, hid⟩ := Framing.bind_ok hid
    obtain rfl := Except.ok.inj hid
    have hle : n &&& 0x3FC0 ≤ 0x3FC0 := Nat.and_le_right
    change (n &&& 0x3FC0) >>> 6 ≤ 0xFF
    rw [Nat.shiftRight_eq_div_pow]
    omega

/-- The identifiers of virtual channels and of AOS master channels are distinct. -/
theorem fits {h : Handler} (hnarrow : h.maxIdentifier < 256) {connects : List (ℕ × τ)}
    (hmax : ∀ p ∈ connects, p.1 ≤ h.maxIdentifier) (u : Bytes) : Distinct h connects u := by
  have hlt : ∀ i, (h.getIdentifier u = .ok i ∨ i ∈ connects.map Prod.fst) → i < 256 := by
    rintro i (hi | hi)
    · exact lt_of_le_of_lt (getIdentifier_le hnarrow hi) hnarrow
    · obtain ⟨p, hp, rfl⟩ := List.mem_map.1 hi
      exact lt_of_le_of_lt (hmax p hp) hnarrow
  intro i j hi hj hmod
  rwa [Nat.mod_eq_of_lt (hlt i hi), Nat.mod_eq_of_lt (hlt j hj)] at hmod

/-! ## Connections -/

variable [DecidableEq τ]

/-- The target that was connected last for an identifier. -/
def lastConnected (connects : List (ℕ × τ)) (identifier : ℕ) : Option τ :=
  (connects.reverse.find? (fun p => p.1 = identifier)).map Prod.snd

/-- The links after all connections were made. -/
def connected (connects : List (ℕ × τ)) : HandlerLinkMap τ := connects.foldl connect fun _ => none

theorem connect_apply (links : HandlerLinkMap τ) (p : ℕ × τ) (slot : Octet) :
    connect links p slot = if UInt8.ofNat p.1 = slot then some p.2 else links slot := by
  unfold connect connectPrimaryOutput
  by_cases hslot : UInt8.ofNat p.1 = slot
  · subst hslot
    rw [if_pos rfl]
    split
    · assumption
    · exact Function.update_self _ _ _
  · rw [if_neg hslot]
    split
    · rfl
    · exact Function.update_of_ne (Ne.symm hslot) _ _

/-- A slot holds the last target connected for any of its identifiers. -/
theorem connected_eq (connects : List (ℕ × τ)) (slot : Octet) :
    connected connects slot =
      (connects.reverse.find? (fun p => UInt8.ofNat p.1 = slot)).map Prod.snd := by
  unfold connected
  induction connects using List.reverseRecOn with
  | nil => rfl
  | append_singleton connects p ih =>
    rw [List.foldl_append, List.foldl_cons, List.foldl_nil, connect_apply, ih, List.reverse_append,
      List.reverse_cons, List.reverse_nil, List.nil_append, List.singleton_append, List.find?_cons]
    by_cases hslot : UInt8.ofNat p.1 = slot <;> simp [hslot]

/-! ## Routing -/

/-- The frame is sent to the output connected for its identifier, or to none where there is
none, and two identifiers that were connected have slots of their own. -/
def Routes (h : Handler) (connects : List (ℕ × τ)) (u : Bytes) : Prop :=
  (∃ id, h.getIdentifier u = .ok id ∧
    ∀ k, ∃ k', h.svc k (connected connects) u = .ok (k', lastConnected connects id)) ∧
  ∀ p ∈ connects, ∀ q ∈ connects, UInt8.ofNat p.1 = UInt8.ofNat q.1 → p.1 = q.1

theorem ofNat_eq_iff {i j : ℕ} : UInt8.ofNat i = UInt8.ofNat j ↔ i % 256 = j % 256 := by
  rw [← UInt8.toNat_inj, UInt8.toNat_ofNat', UInt8.toNat_ofNat']

/-- A slot that no other identifier shares holds what was connected for its identifier. -/
theorem connected_of_distinct {connects : List (ℕ × τ)} {id : ℕ}
    (hid : ∀ p ∈ connects, UInt8.ofNat p.1 = UInt8.ofNat id → p.1 = id) :
    connected connects (UInt8.ofNat id) = lastConnected connects id := by
  rw [connected_eq, lastConnected]
  congr 1
  apply List.find?_congr
  intro p hp
  have hp' : UInt8.ofNat p.1 = UInt8.ofNat id ↔ p.1 = id :=
    ⟨hid p (List.mem_reverse.1 hp), fun h => by rw [h]⟩
  simp only [hp']

/-- A valid frame is routed, whatever else was connected, exactly when the identifiers are
distinct in eight bits. -/
theorem routes_iff (h : Handler) (connects : List (ℕ × τ)) (u : Bytes) (hu : h.Valid u) :
    Routes h connects u ↔ Distinct h connects u := by
  obtain ⟨id, hid, hsvc⟩ := svc_valid (τ := τ) hu
  constructor
  · rintro ⟨⟨id', hid', hsent⟩, hslots⟩
    obtain rfl : id = id' := Except.ok.inj (hid.symm.trans hid')
    obtain ⟨k₁, hk₁⟩ := hsvc (connected connects) {}
    obtain ⟨k₂, hk₂⟩ := hsent {}
    have hsame : connected connects (UInt8.ofNat id) = lastConnected connects id :=
      (Prod.mk.inj (Except.ok.inj (hk₁.symm.trans hk₂))).2
    -- an identifier in the slot of the frame's is the frame's
    have hframe : ∀ j ∈ connects.map Prod.fst, j % 256 = id % 256 → j = id := by
      intro j hj hmod
      obtain ⟨p, hp, rfl⟩ := List.mem_map.1 hj
      have hfull : (connected connects (UInt8.ofNat id)).isSome := by
        rw [connected_eq, Option.isSome_map, List.find?_isSome]
        exact ⟨p, List.mem_reverse.2 hp, by simpa using ofNat_eq_iff.2 hmod⟩
      rw [hsame, lastConnected, Option.isSome_map, List.find?_isSome] at hfull
      obtain ⟨q, hq, hqid⟩ := hfull
      have hqid : q.1 = id := by simpa using hqid
      rw [← hqid]
      exact hslots p hp q (List.mem_reverse.1 hq) (ofNat_eq_iff.2 (by rw [hmod, hqid]))
    intro i j hi hj hmod
    rcases hi with hi | hi <;> rcases hj with hj | hj
    · exact Except.ok.inj (hi.symm.trans hj)
    · obtain rfl : id = i := Except.ok.inj (hid.symm.trans hi)
      exact (hframe j hj hmod.symm).symm
    · obtain rfl : id = j := Except.ok.inj (hid.symm.trans hj)
      exact hframe i hi hmod
    · obtain ⟨p, hp, rfl⟩ := List.mem_map.1 hi
      obtain ⟨q, hq, rfl⟩ := List.mem_map.1 hj
      exact hslots p hp q hq (ofNat_eq_iff.2 hmod)
  · intro hdistinct
    refine ⟨⟨id, hid, fun k => ?_⟩, ?_⟩
    · obtain ⟨k', hk'⟩ := hsvc (connected connects) k
      refine ⟨k', ?_⟩
      rw [hk', connected_of_distinct]
      intro p hp hslot
      exact hdistinct p.1 id (.inr (List.mem_map_of_mem hp)) (.inl hid) (ofNat_eq_iff.1 hslot)
    · intro p hp q hq hslot
      exact hdistinct p.1 q.1 (.inr (List.mem_map_of_mem hp)) (.inr (List.mem_map_of_mem hq))
        (ofNat_eq_iff.1 hslot)

/-! ## Master channels -/

/-- A TM master channel demultiplexer for frames of eight octets. -/
def masterChannels : Handler :=
  .tmMC { channel := { scid := 0, vcid := 0, scid_le := Nat.zero_le _, vcid_le := Nat.zero_le _ },
          frameSize := 8 }

/-- A frame of the spacecraft 257. -/
def frameOf257 : Bytes := [0x10, 0x10, 0, 0, 0x18, 0, 0, 0]

theorem routes_iff_frameOf257 :
    Routes masterChannels [(257, true), (2, false)] frameOf257 ↔
      Distinct masterChannels [(257, true), (2, false)] frameOf257 :=
  routes_iff masterChannels [(257, true), (2, false)] frameOf257 ⟨rfl, by decide⟩

/-- A valid frame of the spacecraft 257 goes to the output of the spacecraft 1, the only one
connected. -/
theorem misrouted : masterChannels.Valid frameOf257 ∧ 1 ≤ masterChannels.maxIdentifier ∧
    ¬ Routes masterChannels [(1, true)] frameOf257 := by
  refine ⟨⟨rfl, by decide⟩, by decide, ?_⟩
  rintro ⟨⟨id, hid, hsent⟩, -⟩
  obtain rfl : 257 = id := Except.ok.inj hid
  obtain ⟨k', hk'⟩ := hsent {}
  have hslot : (masterChannels.svc {} (connected [(1, true)]) frameOf257).toOption.map Prod.snd =
      some (some true) := by decide
  have hnone : lastConnected [(1, true)] 257 = none := rfl
  rw [hk', hnone] at hslot
  exact absurd hslot (by simp [Except.toOption])

end ChannelEmulator.Demux
