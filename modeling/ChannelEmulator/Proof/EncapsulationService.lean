import ChannelEmulator.Proof.EncapsulationReceiver
import ChannelEmulator.Proof.FrameHeader

/-!
# The TM encapsulation packet service

* `zoneFrames_received`: the frames of a generator pass the tests of a receiver with its settings,
  so that only the packets in them matter.
* `carried_iff`: **the packets are carried** just when there is one packet in a data field, or no
  idle packet has its header cut by the end of a frame and nothing of the last packet is held back.
-/

namespace ChannelEmulator.TM

open Framing
open Gen (zoneFrames encaps Clean Uncut HeldBack configured)

/-! ## The frames of a generator -/

theorem status_plain (c : Channel) : Status c (status c) := by
  by_cases h : 0 < c.fshSize
  · rw [status, if_pos h]
    exact ⟨by decide, by simp [h]; decide, by decide, by decide⟩
  · rw [status, if_neg h]
    exact ⟨by decide, by simp [h]; decide, by decide, by decide⟩

theorem status_asynchronous (c : Channel) : (status c).testBit 3 = false := by
  unfold status
  split <;> decide

variable {v : Service} {D : ℕ} {zs : List (Zone Octet)} {u : Bytes}

/-- A receiver with the settings of a generator of data fields of `D` octets. -/
structure Matches (v : Service) (D : ℕ) : Prop where
  frameSize : v.frameSize = v.channel.nonDataLength + D
  header_le : v.channel.fshSize ≤ 64

/-- The frame of a zone, by its place among those sent. -/
theorem zoneFrames_getElem {i : ℕ} (hu : (zoneFrames v.channel 0 zs)[i]? = some u) :
    ∃ z ∈ zs, u = frame v.channel (Gen.countAfter 0 i) (Rcv.pointerOf z) z.flat := by
  unfold zoneFrames at hu
  rw [Gen.frames_getElem?, List.getElem?_map, Option.map_map, Option.map_eq_some_iff] at hu
  obtain ⟨z, hz, rfl⟩ := hu
  exact ⟨z, List.mem_of_getElem? hz, rfl⟩

/-- The frame of a zone at the receiver: it is valid, no frame of idle data, and goes to the
packets' assembly. -/
structure Received (v : Service) (u : Bytes) : Prop where
  valid : ValidFrame v u
  data : ¬Idle u
  deliver_eq : ∀ s : Rcv, s.deliver v.channel u = s.assemblePacket v.channel u

theorem frame_received (hv : Matches v D) (hD : D ≤ 2046) (count : ℕ) {z : Zone Octet}
    (hz : z.flat.length = D) (hb : Rcv.pointerOf z = maxFirstHeaderPointer ∨ Rcv.pointerOf z < D) :
    Received v (frame v.channel count (Rcv.pointerOf z) z.flat) := by
  have hst := status_plain v.channel
  have hp : Rcv.pointerOf z < 2 ^ 11 := by
    rcases hb with h | h
    · rw [h]
      decide
    · omega
  have hle : Rcv.pointerOf z ≤ maxFirstHeaderPointer := Nat.lt_succ_iff.1 hp
  have hlen : (frame v.channel count (Rcv.pointerOf z) z.flat).length = v.frameSize := by
    rw [frame_length, hz, hv.frameSize]
  refine ⟨?_, ?_, fun s => ?_⟩
  · rw [frame_eq_unit] at hlen ⊢
    refine validFrame_unit hst hv.header_le hp hlen ?_
    rcases hb with h | h
    · exact Or.inl (decide_eq_true h)
    · refine Or.inr (Or.inr ?_)
      unfold Channel.dataLength
      rw [hlen, hv.frameSize]
      omega
  · intro hidle
    have hpointer : getFirstHeaderPointer (frame v.channel count (Rcv.pointerOf z) z.flat) =
        .ok (Rcv.pointerOf z) := getFirstHeaderPointer_frame hle
    have := Except.ok.inj (hpointer.symm.trans hidle)
    rcases hb with h | h
    · rw [h] at this
      exact absurd this (by decide)
    · unfold maxFirstHeaderPointer at this
      omega
  · unfold Rcv.deliver
    rw [frame_eq_unit, getSynchronizationFlag_unit hst.lt hp, status_asynchronous]
    rfl

/-- **Only the packets in the frames matter**: they are put together from all frames, and none of
the tests of the receiver stands in their way. -/
theorem zoneFrames_received (hv : Matches v D) (hD : D ≤ 2046) {items : List Bytes}
    {b : Bytes} (hc : Carries [] zs items b) (hi : ∀ x ∈ items, x ≠ [])
    (hfull : ∀ z ∈ zs, z.flat.length = D) (rcv : Rcv) (out : List Bytes) :
    (∃ r, runAll (PacketService.svc v) { rcv := rcv } (zoneFrames v.channel 0 zs) =
        .ok (r, out)) ↔
      ∃ r, runAll (Rcv.assemblePacket v.channel) rcv (zoneFrames v.channel 0 zs) =
        .ok (r, out) := by
  have hall : ∀ u ∈ zoneFrames v.channel 0 zs, Received v u := by
    intro u hu
    obtain ⟨i, hi'⟩ := List.mem_iff_getElem?.1 hu
    obtain ⟨z, hz, rfl⟩ := zoneFrames_getElem hi'
    refine frame_received hv hD _ (hfull z hz) ?_
    rcases Rcv.pointerOf_cases (hfull z hz) with ⟨-, hptr, hlt⟩ | ⟨hb, -⟩
    · exact Or.inr (by omega)
    · refine Or.inl ?_
      unfold Rcv.pointerOf
      rw [Rcv.header_none (fun x hx => hi x (hc.whole_mem hz x hx)) hb]
      rfl
  have hdata : dataFrames (zoneFrames v.channel 0 zs) = zoneFrames v.channel 0 zs :=
    List.filter_eq_self.2 fun u hu => decide_eq_true (hall u hu).data
  have hseq : SequenceFrom 0 0 (zoneFrames v.channel 0 zs) := by
    intro i u hu
    obtain ⟨z, -, rfl⟩ := zoneFrames_getElem hu
    have hmod := Gen.countAfter_mod i (Nat.zero_le maxVCFrameCount)
    rw [getVCFrameCount_frame]
    apply congrArg Except.ok
    apply UInt8.toNat_inj.1
    rw [UInt8.zero_add, UInt8.toNat_ofNat', UInt8.toNat_ofNat', hmod]
  have hwhole : WholeFrom 0 (zoneFrames v.channel 0 zs) := by
    intro pre u post hsplit _
    have hnone : pre.countP (fun u => Idle u) = 0 := by
      rw [List.countP_eq_zero]
      intro w hw
      have := (hall w (by rw [hsplit]; exact List.mem_append_left _ hw)).data
      simpa using this
    rw [hnone]
    exact Nat.dvd_zero 256
  rw [packet_run_whole (fun u hu => (hall u hu).valid) hseq hwhole, hdata,
    runAll_congr fun s u hu => (hall u hu).deliver_eq s]
  constructor
  · rintro ⟨r, h⟩
    obtain ⟨⟨rcv', o⟩, hrun, h⟩ := bind_ok h
    obtain ⟨rfl, rfl⟩ := Prod.mk.inj (Except.ok.inj h)
    exact ⟨rcv', hrun⟩
  · rintro ⟨r, h⟩
    rw [h]
    exact ⟨_, rfl⟩

/-! ## Sender and receiver -/

/-- The packets given to the sender come out of the receiver, each once and in order, with nothing
between them. -/
def Carried (v : Service) (D : ℕ) (pattern : Bytes) (multi allow : Bool)
    (inputs : List (Bytes × List Bool)) : Prop :=
  ∃ s sent r,
    runAll Gen.processData (configured v.channel D pattern multi) inputs = .ok (s, sent) ∧
    runAll (PacketService.svc v)
      { rcv := { multiDataField := multi, allowPacketsAfterFill := allow } } sent =
        .ok (r, inputs.map Prod.fst)

variable {inputs : List (Bytes × List Bool)} {pattern : Bytes}

/-- What the sender holds back of the last packet. -/
theorem heldBack_iff {b : Bytes} {z : Zone Octet} {i₁ i₂ : List Bytes} (h : Carries b [z] i₂ [])
    (hz : Clean z) : encaps i₂ = [] ↔ ¬HeldBack z (i₁ ++ i₂).getLast? := by
  have hocts := h.flatten_eq
  rw [List.flatMap_singleton, List.append_nil] at hocts
  have hlast : i₂ ≠ [] → (i₁ ++ i₂).getLast? = i₂.getLast? := fun hne => by
    rw [List.getLast?_append, List.getLast?_eq_some_getLast hne, Option.some_or]
  constructor
  · rintro hnone ⟨hflat, x, hx, hv⟩
    have hne : i₂ ≠ [] := by
      rintro rfl
      exact hflat (List.append_eq_nil_iff.1 hocts).2
    rw [hlast hne] at hx
    have hmem : x ∈ encaps i₂ := List.mem_filter.2 ⟨List.mem_of_getLast? hx, hv⟩
    rw [hnone] at hmem
    cases hmem
  · intro hnot
    by_contra hsome
    apply hnot
    rcases h.single rfl hz.trail_eq with ⟨rfl, hl, rfl⟩ | ⟨hb, hl, rfl⟩
    · have hne : z.whole ≠ [] := by
        intro hw
        rw [hw] at hsome
        exact hsome rfl
      have hp := hz.whole _ (List.getLast_mem hne)
      refine ⟨fun hflat => ?_, _, (hlast hne).trans (List.getLast?_eq_some_getLast hne), hp.version⟩
      rw [List.nil_append] at hocts
      rw [hflat] at hocts
      exact hp.ne_nil (List.flatten_eq_nil_iff.1 hocts.symm _ (List.getLast_mem hne))
    · refine ⟨fun hflat => hl (List.append_eq_nil_iff.1 hflat).1, ?_⟩
      rw [hlast (List.cons_ne_nil _ _)]
      rcases List.eq_nil_or_concat z.whole with hw | ⟨xs, x, hw⟩
      · -- the only packet is the one that ends in the zone
        rw [hw] at hsome ⊢
        refine ⟨b ++ z.lead, rfl, ?_⟩
        by_contra hv
        exact hsome (Gen.encaps_none (by simpa using hv))
      · refine ⟨x, ?_, (hz.whole x (by rw [hw]; simp)).version⟩
        rw [hw, List.concat_eq_append, ← List.cons_append]
        exact List.getLast?_concat

/-- What is given to the sender and what its frames hold. -/
theorem carried_iff_assembled {multi allow : Bool} (hv : Matches v D) (hD : D ≤ 2046)
    {s' : Gen} {b : Bytes} {items : List Bytes}
    (hrun : runAll Gen.processData (configured v.channel D pattern multi) inputs =
      .ok (s', zoneFrames v.channel 0 zs))
    (hc : Carries [] zs items b) (hi : ∀ x ∈ items, x ≠ []) (hfull : ∀ z ∈ zs, z.flat.length = D) :
    Carried v D pattern multi allow inputs ↔ ∃ r, runAll (Rcv.assemblePacket v.channel)
      { multiDataField := multi, allowPacketsAfterFill := allow } (zoneFrames v.channel 0 zs) =
        .ok (r, inputs.map Prod.fst) := by
  rw [← zoneFrames_received hv hD hc hi hfull]
  constructor
  · rintro ⟨s, sent, r, hgen, hrcv⟩
    rw [hrun] at hgen
    obtain ⟨-, rfl⟩ := Prod.mk.inj (Except.ok.inj hgen)
    exact ⟨r, hrcv⟩
  · rintro ⟨r, hrcv⟩
    exact ⟨s', _, r, hrun, hrcv⟩

/-- With one packet in a data field. -/
theorem carried_alone (hv : Matches v D) (h14 : 14 ≤ D) (hD : D ≤ 2046) (hpat : pattern ≠ [])
    (allow : Bool) (hp : ∀ a ∈ inputs, EncPacket a.1) :
    Carried v D pattern false allow inputs := by
  obtain ⟨s', zs, items, hrun, hfill, halone, hitems, hencaps⟩ :=
    Gen.run_alone h14 hD inputs (Gen.configured_waiting v.channel (by omega) pattern false) rfl
      hpat hp
  have hc := hfill.carries [] [] (.first (.nil []))
  rw [List.nil_append] at hc
  have hcar : Carries [] zs items [] := hc.drop_empty
  have hstart : Rcv.OneAtHand { multiDataField := false, allowPacketsAfterFill := allow } [] :=
    ⟨rfl, fun h => absurd h (by decide), fun _ => rfl⟩
  obtain ⟨r, hrecv, -⟩ := Rcv.receive_alone v.channel h14 hD hcar 0 (.nil []) hstart hfill.full
    halone (by simpa using hitems)
  rw [carried_iff_assembled hv hD hrun hcar (fun x hx => Rcv.mixed_ne_nil (hitems x hx))
    hfill.full]
  rw [hencaps] at hrecv
  exact ⟨r, hrecv⟩

/-- With multi-packet data fields. -/
theorem carried_mixed (hv : Matches v D) (h14 : 14 ≤ D) (hD : D ≤ 2046) (hpat : pattern ≠ [])
    (allow : Bool) (hp : ∀ a ∈ inputs, EncPacket a.1) :
    Carried v D pattern true allow inputs ↔
      idlesFit D (0, false) (inputs.map fun a => (a.1.length, a.2)) = true := by
  obtain ⟨s', zs, z', items, hrun, hfill, hord, hclean, hitems, hencaps, hfits⟩ :=
    Gen.run_mixed h14 hD inputs (Gen.configured_waiting v.channel (by omega) pattern true)
      Gen.clean_empty rfl hpat hp
  have hheld := hfits none false (by simp [HeldBack])
  rw [Option.or_none] at hheld
  have hc := hfill.carries [] [] (.first (.nil []))
  rw [List.nil_append] at hc
  obtain ⟨b, i₁, i₂, h₁, h₂, rfl⟩ := hc.split
  have hstart : Rcv.AtHand D { multiDataField := true, allowPacketsAfterFill := allow } [] :=
    ⟨rfl, fun h => absurd rfl h, fun h => absurd h (by decide), fun _ c hc => by cases hc⟩
  obtain ⟨hgood, hbad⟩ := Rcv.receive_mixed v.channel h14 hD h₁ 0 h₂ hstart hfill.full hord hitems
  rw [Gen.encaps_append] at hencaps
  rw [← heldBack_iff h₂ hclean] at hheld
  rw [carried_iff_assembled hv hD hrun h₁
    (fun x hx => Rcv.mixed_ne_nil (hitems x (List.mem_append_left _ hx))) hfill.full]
  refine Iff.trans ?_ hheld.symm
  constructor
  · rintro ⟨r, hrcv⟩
    have hunc : ∀ z ∈ zs, Uncut z := by
      by_contra hcut
      obtain ⟨e, he⟩ := hbad hcut
      rw [he] at hrcv
      cases hrcv
    obtain ⟨r', hr', -⟩ := hgood hunc
    have hout := congrArg Prod.snd (Except.ok.inj (hr'.symm.trans hrcv))
    have heq : encaps i₁ = inputs.map Prod.fst := hout
    rw [← hencaps] at heq
    exact ⟨hunc, List.append_right_eq_self.1 heq.symm⟩
  · rintro ⟨hunc, hnone⟩
    obtain ⟨r, hr, -⟩ := hgood hunc
    rw [hnone, List.append_nil] at hencaps
    rw [hencaps] at hr
    exact ⟨r, hr⟩

/-- **When the service is lossless.** With multi-packet data fields the receiver writes the length
field of an idle packet whose header it has not read, behind the octets that are there. -/
theorem carried_iff (hv : Matches v D) (h14 : 14 ≤ D) (hD : D ≤ 2046) (hpat : pattern ≠ [])
    (multi allow : Bool) (hp : ∀ a ∈ inputs, EncPacket a.1) :
    Carried v D pattern multi allow inputs ↔
      multi = false ∨ idlesFit D (0, false) (inputs.map fun a => (a.1.length, a.2)) = true := by
  cases multi with
  | false => exact ⟨fun _ => Or.inl rfl, fun _ => carried_alone hv h14 hD hpat allow hp⟩
  | true =>
    rw [carried_mixed hv h14 hD hpat allow hp]
    simp

/-- Frames with fourteen octets of data. -/
def narrowService : Service :=
  { channel :=
      { scid := 0, vcid := 0, scid_le := Nat.zero_le _, vcid_le := Nat.zero_le _ }
    frameSize := 20 }

theorem narrowService_matches : Matches narrowService 14 := ⟨rfl, Nat.zero_le 64⟩

theorem carried_iff_short : Carried narrowService 14 [0xE0] true true [([0xE2, 0, 0, 4], [])] ↔
    true = false ∨ idlesFit 14 (0, false) [(4, [])] = true :=
  carried_iff narrowService_matches le_rfl (by decide) (by decide) true true (by
    intro a ha
    obtain rfl := List.mem_singleton.1 ha
    exact ⟨⟨0xE2, [0, 0, 4], rfl, by decide, by decide, by decide⟩, by decide⟩)

/-- A packet of ten octets leaves room for four of the idle packet behind it, and the length field
of that packet is written behind the octets that are there. -/
theorem idle_header_cut : ¬Carried narrowService 14 [0xE0] true true
    [([0xE2, 0, 0, 10, 1, 2, 3, 4, 5, 6], []), ([0xE2, 0, 0, 4], [])] := by
  rw [carried_mixed narrowService_matches le_rfl (by decide) (by decide) true]
  · decide
  · intro a ha
    rcases List.mem_cons.1 ha with rfl | ha
    · exact ⟨⟨0xE2, [0, 0, 10, 1, 2, 3, 4, 5, 6], rfl, by decide, by decide, by decide⟩, by decide⟩
    · obtain rfl := List.mem_singleton.1 ha
      exact ⟨⟨0xE2, [0, 0, 4], rfl, by decide, by decide, by decide⟩, by decide⟩

end ChannelEmulator.TM
