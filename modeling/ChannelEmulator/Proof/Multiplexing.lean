import ChannelEmulator.Proof.MpduReceiver

/-!
# The multiplexing service

* `service_lossless`: **the receiver delivers the packets given to the sender**, in order,
  for every schedule of the sender's queue.
-/

namespace ChannelEmulator.Multiplexing

open Framing

variable {Z : ℕ} {zs : List (Zone Octet)} {z : Zone Octet} {items : List Bytes}

theorem wellFormed_of_unfilled {packets : List Bytes} (h : Add.unfilled items = packets)
    (hp : ∀ p ∈ packets, Encap.WellFormed p) : ∀ x ∈ items, Encap.WellFormed x ∨ x = fillPacket := by
  intro x hx
  by_cases hf : x = fillPacket
  · exact Or.inr hf
  · refine Or.inl (hp x ?_)
    rw [← h, Add.unfilled, List.mem_filter]
    exact ⟨hx, by simpa using hf⟩

/-- The zones sent, received up to the one that is not full. -/
theorem receive_run (h8 : 8 ≤ Z) (hZ : Z ≤ 2046) (hc : Carries [] (zs ++ [z]) items [])
    (hfull : ∀ w ∈ zs, w.flat.length = Z) {s : Remove} (htidy : ∀ w ∈ zs, Tidy s.multiPacketZone w)
    (hs : s.encap = none) (hi : ∀ x ∈ items, Encap.WellFormed x ∨ x = fillPacket) :
    ∃ r out, runAll Remove.assembleEncap s (zs.map encode) = .ok (r, out) ∧
      r.badEncapTally = s.badEncapTally ∧ out <+: Add.unfilled items ∧
      (z = {} → out = Add.unfilled items ∧ r.encap = none) := by
  have hnone : ∀ {r : Remove}, r.Stash [] → r.encap = none := by
    intro r hr
    by_contra hne
    obtain ⟨c, hc⟩ := Option.ne_none_iff_exists'.1 hne
    rw [Remove.Stash, hc] at hr
    exact hr.head_ne (List.append_eq_nil_iff.1 hr.flatten_eq).1
  have hstash : s.Stash [] := by rw [Remove.Stash, hs]
  by_cases hz : z = {}
  · subst hz
    obtain ⟨r, hrun, hst, hsame⟩ := Remove.run_lossless h8 hZ hc.drop_empty (Carries.nil _) hstash
      hfull htidy (by simpa using hi)
    refine ⟨r, _, hrun, by rw [hsame], List.prefix_refl _, fun _ => ⟨rfl, hnone hst⟩⟩
  · obtain ⟨b, i₁, i₂, h₁, h₂, rfl⟩ := hc.split
    obtain ⟨r, hrun, -, hsame⟩ := Remove.run_lossless h8 hZ h₁ h₂ hstash hfull htidy hi
    refine ⟨r, _, hrun, by rw [hsame], ?_, fun h => absurd h hz⟩
    rw [Add.unfilled_append]
    exact List.prefix_append _ _

/-- **The service is lossless.** The receiver delivers the packets in order, each once and
none discarded; those whose octets the sender holds back are the last ones, and it holds
none back when the queue is empty behind the last packet. -/
theorem service_lossless (multi allow : Bool) (h8 : 8 ≤ Z) (hZ : Z ≤ 2046)
    (inputs : List (Bytes × Bool)) (hwf : ∀ a ∈ inputs, Encap.WellFormed a.1) :
    ∃ s sent r out, runAll Add.processData (Add.start multi Z) inputs = .ok (s, sent) ∧
      runAll Remove.assembleEncap { multiPacketZone := multi, allowPacketsAfterFill := allow } sent =
        .ok (r, out) ∧
      r.badEncapTally = 0 ∧ out <+: inputs.map Prod.fst ∧
      (s.unfilledMpdu = none ∨ (∀ a ∈ inputs.getLast?, a.2 = true) →
        out = inputs.map Prod.fst ∧ r.encap = none) := by
  obtain ⟨s, zs, z, items, hrun, hw, hfull, htidy, hcar, hun, hlast, hnil⟩ :=
    Add.run_spec hZ inputs (Add.start_waiting multi (by omega)) hwf
  have hstart : Carries [] [({} : Zone Octet)] [] [] := .first (.nil [])
  have hc := hcar [] [] hstart
  have hi := wellFormed_of_unfilled hun (by
    intro p hp
    obtain ⟨a, ha, rfl⟩ := List.mem_map.1 hp
    exact hwf a ha)
  obtain ⟨r, out, hrecv, htally, hpre, hall⟩ := receive_run h8 hZ hc hfull
    (s := { multiPacketZone := multi, allowPacketsAfterFill := allow }) htidy rfl hi
  rw [List.nil_append, hun] at hpre hall
  refine ⟨s, _, r, out, hrun, hrecv, htally, hpre, fun h => hall ?_⟩
  rcases h with h | h
  · exact hw.working.empty h
  · by_cases hin : inputs = []
    · exact hnil hin
    · exact hlast _ (List.getLast?_eq_getLast_of_ne_nil hin) (h _ (List.getLast?_eq_getLast_of_ne_nil hin))

theorem service_lossless_two : ∃ s sent r,
    runAll Add.processData (Add.start true 8)
      [([0xE6, 0, 0, 11, 1, 2, 3, 4, 5, 6, 7], false), ([0xE6, 0, 0, 4], true)] = .ok (s, sent) ∧
    runAll Remove.assembleEncap {} sent =
      .ok (r, [[0xE6, 0, 0, 11, 1, 2, 3, 4, 5, 6, 7], [0xE6, 0, 0, 4]]) := by
  obtain ⟨s, sent, r, out, hadd, hrecv, -, -, hall⟩ := service_lossless true true (Z := 8)
    (by decide) (by decide)
    [([0xE6, 0, 0, 11, 1, 2, 3, 4, 5, 6, 7], false), ([0xE6, 0, 0, 4], true)] (by
      intro a ha
      rcases List.mem_cons.1 ha with rfl | ha
      · exact ⟨0xE6, _, rfl, by decide, by decide, by decide⟩
      · obtain rfl := List.mem_singleton.1 ha
        exact ⟨0xE6, _, rfl, by decide, by decide, by decide⟩)
  obtain ⟨rfl, -⟩ := hall (Or.inr (by decide))
  exact ⟨s, sent, r, hadd, hrecv⟩

end ChannelEmulator.Multiplexing
