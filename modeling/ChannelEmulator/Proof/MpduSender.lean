import ChannelEmulator.Framing.Zones
import ChannelEmulator.Spec.Multiplexing

/-!
# The multiplexing sender

* `spill_spec`: what is left of a packet goes on over as many zones as it takes.
* `processData_spec`: **one packet**. The M_PDUs sent are zones that carry it behind what
  came before, with fill packets behind it where the zone is closed.
* `run_spec`: a run of packets.
-/

namespace ChannelEmulator.Multiplexing

open Framing

/-! ## The header -/

/-- An M_PDU with a given first header index and packet zone. -/
def mpdu (index : ℕ) (zone : Bytes) : Bytes := fromU16 index ++ zone

theorem mpdu_length (i : ℕ) (zone : Bytes) : (mpdu i zone).length = zone.length + 2 := by
  simp [mpdu, fromU16]

theorem getFirstHeaderIndex_mpdu {i : ℕ} (hi : i ≤ hasHeaderlessVal) (zone : Bytes) :
    getFirstHeaderIndex (mpdu i zone) = .ok i := by
  have h : i &&& 0x7FF = i := by
    rw [show 0x7FF = 2 ^ 11 - 1 by rfl, Nat.and_two_pow_sub_one_eq_mod]
    exact Nat.mod_eq_of_lt (by rw [hasHeaderlessVal] at hi; omega)
  rw [getFirstHeaderIndex, mpdu, toU16_fromU16 zone (by rw [hasHeaderlessVal] at hi; omega)]
  simp only [bind, Except.bind, pure, Except.pure, h]

theorem setFirstHeaderIndex_mpdu {i j : ℕ} (hi : i ≤ hasHeaderlessVal) (hj : j ≤ hasHeaderlessVal)
    (zone : Bytes) : setFirstHeaderIndex (mpdu i zone) j = .ok (mpdu j zone) := by
  have hm : j &&& 0x7FF = j := by
    rw [show 0x7FF = 2 ^ 11 - 1 by rfl, Nat.and_two_pow_sub_one_eq_mod]
    exact Nat.mod_eq_of_lt (by rw [hasHeaderlessVal] at hj; omega)
  have hs : getRsvdSpare (mpdu i zone) = .ok 0 := by
    have hb : (UInt8.ofNat (i / 256)).toNat = i / 256 := by
      rw [UInt8.toNat_ofNat', Nat.mod_eq_of_lt (by rw [hasHeaderlessVal] at hi; omega)]
    have hz : (i / 256 &&& 0xF8) >>> 3 = 0 := by
      have hlt : i / 256 < 2 ^ 3 := by rw [hasHeaderlessVal] at hi; omega
      rw [Nat.shiftRight_and_distrib, Nat.shiftRight_eq_div_pow, Nat.div_eq_of_lt hlt, Nat.zero_and]
    rw [getRsvdSpare, mpdu, octetAt_fromU16]
    simp only [bind, Except.bind, hb, hz, pure, Except.pure]
  rw [setFirstHeaderIndex, hs]
  simp only [bind, Except.bind, mpdu_length, spanHeader,
    if_neg (show ¬ zone.length + 2 < 2 by omega), Nat.zero_shiftLeft, Nat.zero_or, hm, pure,
    Except.pure]
  rfl

/-- The one-octet packet the default pattern fills with. -/
def fillPacket : Bytes := [0xE0]

/-- The M_PDU that a zone is sent as. -/
def encode (z : Zone Octet) : Bytes := mpdu (z.header.getD hasHeaderlessVal) z.flat

/-- One, where there are octets of a packet. -/
def share (octets : Bytes) : ℕ := if octets.length = 0 then 0 else 1

theorem share_le (octets : Bytes) : share octets ≤ 1 := by
  rw [share]; split <;> omega

@[simp] theorem share_nil : share [] = 0 := rfl

/-- The packet zone of the sender holds fill behind packets only, and with multi-packet
zones off at most one packet has octets in it. -/
def Tidy (multi : Bool) (z : Zone Octet) : Prop :=
  ∃ ps k, z.whole = ps ++ List.replicate k fillPacket ∧ (∀ p ∈ ps, Encap.WellFormed p) ∧
    (0 < k → z.trail = []) ∧
    (multi = false → share z.lead + ps.length + share z.trail ≤ 1)

namespace Add

variable {s : Add} {Z : ℕ}

/-- The unfilled M_PDU of a zone that ends between packets. -/
def partly (Z : ℕ) (z : Zone Octet) : Bytes :=
  mpdu (if z.whole = [] then 0 else z.lead.length) (z.flat ++ newUnit (Z - z.flat.length))

/-- The M_PDU at hand is that of a zone that is not full and ends between packets. -/
structure Working (Z : ℕ) (l : Locals) (z : Zone Octet) : Prop where
  trail_eq : z.trail = []
  lt : z.flat.length < Z
  empty : l.mpdu = none → z = {}
  unit_eq : ∀ u, l.mpdu = some u → u = partly Z z
  idx_eq : ∀ u, l.mpdu = some u → l.mpduIdx = z.flat.length
  set_eq : ∀ u, l.mpdu = some u → l.firstHeaderIndexSet = decide (z.whole ≠ [])

theorem newUnit_partly (hs : s.mpduLength = Z + 2) : newUnit s.mpduLength = partly Z {} := by
  rw [hs, partly, mpdu, newUnit]
  rfl

theorem currentMpdu_spec (hs : s.mpduLength = Z + 2) {l : Locals} {z : Zone Octet}
    (h : Working Z l z) :
    ∃ l', s.currentMpdu l = (partly Z z, l') ∧ l'.mpduIdx = z.flat.length ∧
      l'.firstHeaderIndexSet = decide (z.whole ≠ []) ∧ l'.sent = l.sent := by
  unfold currentMpdu
  cases hl : l.mpdu with
  | none =>
    obtain rfl := h.empty hl
    exact ⟨{ l with mpduIdx := 0, firstHeaderIndexSet := false }, by rw [newUnit_partly hs, hl],
      rfl, rfl, rfl⟩
  | some u => exact ⟨l, by rw [h.unit_eq u hl], h.idx_eq u hl, h.set_eq u hl, rfl⟩

/-- Octets copied behind those of an unfilled M_PDU. -/
theorem copyUnit_behind {i : ℕ} {d c : Bytes} (h : d.length + c.length ≤ Z) :
    copyUnit (mpdu i (d ++ newUnit (Z - d.length))) (spanHeader + d.length) c =
      .ok (mpdu i (d ++ c ++ newUnit (Z - (d.length + c.length)))) := by
  rw [copyUnit_ok (by
    rw [mpdu_length, List.length_append, newUnit_length, spanHeader]; omega)]
  have hpre : (fromU16 i ++ d).length = spanHeader + d.length := by
    simp [fromU16, spanHeader]; omega
  have ho := overwrite_zeros (fromU16 i ++ d) c (n := Z - d.length)
  rw [hpre] at ho
  simp only [mpdu, List.append_assoc] at ho ⊢
  rw [ho, Nat.sub_sub]

/-- The header after the start of a packet was copied: that of the first that starts. -/
theorem markHeader_first {z : Zone Octet} (hz : z.trail = []) (hlt : z.flat.length ≤ hasIdleVal)
    {l : Locals} (hi : l.mpduIdx = z.flat.length)
    (hset : l.firstHeaderIndexSet = decide (z.whole ≠ [])) (n : ℕ) (zone : Bytes) :
    markHeader (mpdu (if z.whole = [] then 0 else z.lead.length) zone) l 0 n Z =
      .ok (mpdu z.lead.length zone, true) := by
  have hle : z.lead.length ≤ z.flat.length := by simp [Zone.flat]
  have hb : z.flat.length ≤ hasHeaderlessVal := by
    rw [hasHeaderlessVal]; rw [hasIdleVal] at hlt; omega
  rw [markHeader]
  by_cases hw : z.whole = []
  · have hflat : z.flat.length = z.lead.length := by simp [Zone.flat, hw, hz]
    simp only [hw, hset, hi, if_true, ne_eq, not_true, decide_false, Nat.lt_irrefl,
      Bool.false_and, Bool.not_false, Bool.and_true, decide_true, Bool.false_eq_true, if_false]
    rw [setFirstHeaderIndex_mpdu (Nat.zero_le _) hb, hflat]
    rfl
  · simp [hw, hset]

/-- What a step hands over to the rest of the run: the zones sent, and the one at hand. -/
structure Spills (Z : ℕ) (l l' : Locals) (zs : List (Zone Octet)) (z : Zone Octet) : Prop where
  sent_eq : l'.sent = l.sent ++ zs.map encode
  full : ∀ w ∈ zs, w.flat.length = Z
  working : Working Z l' z
  nonempty : ∀ u, l'.mpdu = some u → z.flat ≠ []

/-- What is left of a packet begun in earlier zones goes on over as many as it takes. -/
theorem spill_spec (hs : s.mpduLength = Z + 2) (hZ : 1 ≤ Z) :
    ∀ (fuel : ℕ) (l : Locals) (i : ℕ) (rest : Bytes), l.mpdu = none → 0 < i → rest ≠ [] →
      rest.length < fuel →
      ∃ l' zs z, fillLoop s fuel l i rest = .ok l' ∧ Spills Z l l' zs z ∧
        (∀ t : Bytes, t ≠ [] → Carries t (zs ++ [z]) [t ++ rest] []) ∧
        (∀ w ∈ zs, w.whole = [] ∧ w.trail = [] ∧ w.lead ≠ []) ∧ z.whole = [] := by
  intro fuel
  induction fuel with
  | zero => intro l i rest _ _ _ h; omega
  | succ fuel ih =>
    intro l i rest hl hi hr hf
    have hz : s.packetZoneLength = Z := by rw [packetZoneLength, hs]; rfl
    have hrpos : 0 < rest.length := List.length_pos_iff.2 hr
    rw [fillLoop, currentMpdu, hl, newUnit_partly hs]
    simp only [hz, Nat.sub_zero]
    have hcopy : ∀ c : Bytes, c.length ≤ Z →
        copyUnit (partly Z {}) (spanHeader + 0) c = .ok (mpdu 0 (c ++ newUnit (Z - c.length))) := by
      intro c hc
      have := copyUnit_behind (Z := Z) (i := 0) (d := []) (c := c) (by simpa using hc)
      simpa [partly, Zone.flat] using this
    by_cases hlt : rest.length < Z
    · -- the end of the packet, with room left
      simp only [if_pos (by omega : rest.length ≤ Z), List.take_length, List.drop_length]
      rw [hcopy rest (by omega)]
      have hmark : ∀ (u : Bytes) (l : Locals), markHeader u l i rest.length Z =
          .ok (u, l.firstHeaderIndexSet) := by
        intro u l
        rw [markHeader]
        simp [hi, show ¬ rest.length = Z by omega, show ¬ i = 0 by omega]
      simp only [hmark, bind, Except.bind, Nat.zero_add, if_neg (by omega : ¬ rest.length = Z),
        if_neg (by omega : ¬ rest.length > Z), List.length_nil, if_true, pure, Except.pure]
      refine ⟨_, [], { lead := rest }, rfl, ⟨by simp, by simp, ⟨rfl, by simpa [Zone.flat] using hlt,
        by simp, ?_, ?_, ?_⟩, by simpa [Zone.flat] using hr⟩, ?_, by simp, rfl⟩
      · intro u hu
        obtain rfl := Option.some.inj hu
        simp [partly, Zone.flat]
      · intro u _; simp [Zone.flat]
      · intro u _; rfl
      · intro t ht
        simpa using Carries.last ht hr (Carries.nil ([] : Bytes)) (w := [])
    · -- a zone full of the packet
      have hlen : (if rest.length ≤ Z then rest.length else Z) = Z := by split <;> omega
      have htl : (rest.take Z).length = Z := List.length_take_of_le (by omega)
      simp only [hlen]
      rw [hcopy _ (by omega), htl, Nat.sub_self]
      have hmark : ∀ (l : Locals) (zone : Bytes), markHeader (mpdu 0 zone) l i Z Z =
          .ok (mpdu hasHeaderlessVal zone, l.firstHeaderIndexSet) := by
        intro l zone
        rw [markHeader]
        simp only [hi, decide_true, Bool.true_and, if_true,
          setFirstHeaderIndex_mpdu (Nat.zero_le _) le_rfl]
        rfl
      have henc : mpdu hasHeaderlessVal (rest.take Z ++ newUnit 0) =
          encode { lead := rest.take Z } := by
        simp [encode, Zone.header, Zone.flat, newUnit]
      have hne : rest.take Z ≠ [] := List.length_pos_iff.1 (by omega)
      simp only [hmark, bind, Except.bind, Nat.zero_add, if_true, pure, Except.pure, henc]
      by_cases he : (rest.drop Z).length = 0
      · simp only [he, if_true]
        refine ⟨_, [{ lead := rest.take Z }], {}, rfl, ⟨by simp, ?_, ⟨rfl, ?_, by simp, by simp,
          by simp, by simp⟩, by simp⟩, ?_, ?_, rfl⟩
        · intro w hw
          obtain rfl := List.mem_singleton.1 hw
          simpa [Zone.flat] using htl
        · simpa [Zone.flat] using Nat.lt_of_succ_le hZ
        · intro t ht
          have htake : rest.take Z = rest :=
            List.take_of_length_le (by rw [List.length_drop] at he; omega)
          rw [htake]
          have hend := Carries.first (w := []) (Carries.nil ([] : Bytes))
          simpa using Carries.last ht hr hend (w := [])
        · intro w hw
          obtain rfl := List.mem_singleton.1 hw
          exact ⟨rfl, rfl, hne⟩
      · -- more than the zone is left: the next pass starts at the end of this one
        simp only [he, if_false]
        have hdl : (rest.drop Z).length = rest.length - Z := List.length_drop
        obtain ⟨l', zs, z, hloop, hsp, hcar, hmid, hw⟩ := ih
          { mpdu := none, mpduIdx := Z, firstHeaderIndexSet := false,
            sent := l.sent ++ [encode { lead := rest.take Z }] } (i + Z) (rest.drop Z) rfl
          (by omega) (by intro hc; rw [hc] at he; exact he rfl) (by omega)
        refine ⟨l', { lead := rest.take Z } :: zs, z, hloop, ⟨?_, ?_, hsp.working, hsp.nonempty⟩,
          ?_, ?_, hw⟩
        · rw [hsp.sent_eq, List.map_cons, List.append_assoc]; rfl
        · intro w hw'
          rcases List.mem_cons.1 hw' with rfl | hw'
          · simpa [Zone.flat] using htl
          · exact hsp.full w hw'
        · intro t ht
          have := hcar (t ++ rest.take Z) (by simp [ht])
          rw [List.append_assoc, List.take_append_drop] at this
          exact Carries.mid ht hne this
        · intro w hw'
          rcases List.mem_cons.1 hw' with rfl | hw'
          · exact ⟨rfl, rfl, hne⟩
          · exact hmid w hw'

/-- The zone at hand with one more packet. -/
def withItem (z : Zone Octet) (p : Bytes) : Zone Octet := ⟨z.lead, z.whole ++ [p], []⟩

/-- The zone at hand with the start of one more packet. -/
def withStart (z : Zone Octet) (t : Bytes) : Zone Octet := ⟨z.lead, z.whole, t⟩

theorem withItem_flat {z : Zone Octet} (hz : z.trail = []) (p : Bytes) :
    (withItem z p).flat = z.flat ++ p := by simp [withItem, Zone.flat, hz]

theorem withStart_flat {z : Zone Octet} (hz : z.trail = []) (t : Bytes) :
    (withStart z t).flat = z.flat ++ t := by simp [withStart, Zone.flat, hz]

theorem encode_withItem {z : Zone Octet} (hz : z.trail = []) (p : Bytes) :
    encode (withItem z p) = mpdu z.lead.length (z.flat ++ p) := by
  rw [encode, withItem_flat hz, Zone.header, if_neg (by simp [withItem])]
  rfl

theorem encode_withStart {z : Zone Octet} (hz : z.trail = []) {t : Bytes} (ht : t ≠ []) :
    encode (withStart z t) = mpdu z.lead.length (z.flat ++ t) := by
  rw [encode, withStart_flat hz, Zone.header, if_neg (by simp [withStart, ht])]
  rfl

theorem partly_withItem {z : Zone Octet} (hz : z.trail = []) (p : Bytes) :
    partly Z (withItem z p) =
      mpdu z.lead.length (z.flat ++ p ++ newUnit (Z - (z.flat.length + p.length))) := by
  rw [partly, withItem_flat hz, if_neg (by simp [withItem]), List.length_append]
  rfl

/-- **The loop over one packet**, put behind what the zone at hand holds. -/
theorem fillLoop_spec (hs : s.mpduLength = Z + 2) (hZ : Z ≤ 2046) {l : Locals} {z : Zone Octet}
    (h : Working Z l z) {p : Bytes} (hp : p ≠ []) :
    ∃ l' zs z', fillLoop s (p.length + 1) l 0 p = .ok l' ∧ Spills Z l l' zs z' ∧
      (∀ a items, Carries a [z] items [] → Carries a (zs ++ [z']) (items ++ [p]) []) ∧
      ((zs = [] ∧ z' = withItem z p) ∨ (zs = [withItem z p] ∧ z' = {}) ∨
        ∃ t ws, t ≠ [] ∧ zs = withStart z t :: ws ∧
          (∀ w ∈ ws, w.whole = [] ∧ w.trail = [] ∧ w.lead ≠ []) ∧ z'.whole = []) := by
  have hlt := h.lt
  have ht := h.trail_eq
  have hz : s.packetZoneLength = Z := by rw [packetZoneLength, hs]; rfl
  have hppos : 0 < p.length := List.length_pos_iff.2 hp
  obtain ⟨l₀, hcur, hidx, hset, hsent⟩ := currentMpdu_spec hs h
  have hmark := fun n zone => markHeader_first (Z := Z) ht (by rw [hasIdleVal]; omega) hidx hset n zone
  rw [fillLoop, hcur]
  simp only [hidx, hz]
  by_cases hc : p.length ≤ Z - z.flat.length
  · -- the whole packet fits
    rw [if_pos hc, List.take_length, List.drop_length, partly, copyUnit_behind (by omega)]
    simp only [hmark, bind, Except.bind]
    by_cases hfull : z.flat.length + p.length = Z
    · -- and fills the zone, which is sent
      simp only [hfull, if_true, pure, Except.pure, List.length_nil]
      refine ⟨_, [withItem z p], {}, rfl, ⟨?_, ?_, ⟨rfl, ?_, by simp, by simp, by simp, by simp⟩,
        by simp⟩, ?_, Or.inr (Or.inl ⟨rfl, rfl⟩)⟩
      · simp [hsent, encode_withItem ht, newUnit]
      · intro w hw
        obtain rfl := List.mem_singleton.1 hw
        rw [withItem_flat ht, List.length_append, hfull]
      · simp [Zone.flat]; omega
      · intro a items hcar
        have hend := (hcar.put ht p).append (Carries.first (w := []) (Carries.nil ([] : Bytes)))
        simpa [withItem] using hend
    · simp only [if_neg hfull, if_neg (by omega : ¬ z.flat.length + p.length > Z), pure,
        Except.pure, List.length_nil, if_true]
      refine ⟨_, [], withItem z p, rfl, ⟨by simp [hsent], by simp, ⟨rfl, ?_, by simp, ?_, ?_, ?_⟩,
        by simp [withItem_flat ht, hp]⟩, ?_, Or.inl ⟨rfl, rfl⟩⟩
      · rw [withItem_flat ht, List.length_append]; omega
      · intro u hu
        obtain rfl := Option.some.inj hu
        rw [partly_withItem ht]
      · intro u _; rw [withItem_flat ht, List.length_append]
      · intro u _; simp [withItem]
      · intro a items hcar; exact hcar.put ht p
  · -- the packet goes on in the next zones
    obtain ⟨t, htdef⟩ : ∃ t, t = p.take (Z - z.flat.length) := ⟨_, rfl⟩
    have htl : t.length = Z - z.flat.length := by
      rw [htdef]; exact List.length_take_of_le (by omega)
    have hne : t ≠ [] := List.length_pos_iff.1 (by omega)
    have hdl : (p.drop (Z - z.flat.length)).length = p.length - (Z - z.flat.length) :=
      List.length_drop
    rw [if_neg hc, ← htdef, partly, copyUnit_behind (by omega)]
    simp only [hmark, bind, Except.bind, htl, show z.flat.length + (Z - z.flat.length) = Z by omega,
      Nat.sub_self, if_true, pure, Except.pure, if_neg (by omega :
        ¬ (p.drop (Z - z.flat.length)).length = 0)]
    obtain ⟨l', ws, z', hloop, hsp, hcar, hmid, hw⟩ := spill_spec (s := s) hs (by omega) p.length
      { mpdu := none, mpduIdx := Z, firstHeaderIndexSet := true,
        sent := l₀.sent ++ [mpdu z.lead.length (z.flat ++ t ++ newUnit 0)] }
      (0 + (Z - z.flat.length)) (p.drop (Z - z.flat.length)) rfl (by omega)
      (by intro hd; rw [hd] at hdl; simp at hdl; omega) (by omega)
    refine ⟨l', withStart z t :: ws, z', hloop, ⟨?_, ?_, hsp.working, hsp.nonempty⟩, ?_,
      Or.inr (Or.inr ⟨t, ws, hne, rfl, hmid, hw⟩)⟩
    · rw [hsp.sent_eq, List.map_cons, encode_withStart ht hne, hsent]
      simp [newUnit]
    · intro w hw'
      rcases List.mem_cons.1 hw' with rfl | hw'
      · rw [withStart_flat ht, List.length_append, htl]; omega
      · exact hsp.full w hw'
    · intro a items hcar'
      have hrest := hcar t hne
      rw [htdef, List.take_append_drop, ← htdef] at hrest
      simpa [withStart] using (hcar'.begin ht t).append hrest

/-! ## The last M_PDU -/

theorem fillOctets_default : ∀ n : ℕ, fillOctets [0xE0] n n = .ok (List.replicate n 0xE0)
  | 0 => rfl
  | n + 1 => by
    rw [fillOctets]
    simp only [List.length_singleton, if_pos (by omega : 1 ≤ n + 1), Nat.add_sub_cancel,
      fillOctets_default n, bind, Except.bind, pure, Except.pure]
    rfl

/-- A zone closed with fill packets. -/
def close (Z : ℕ) (z : Zone Octet) : Zone Octet :=
  ⟨z.lead, z.whole ++ List.replicate (Z - z.flat.length) fillPacket, []⟩

theorem replicate_fillPacket_flatten (n : ℕ) :
    (List.replicate n fillPacket).flatten = List.replicate n 0xE0 := by
  induction n with
  | zero => rfl
  | succ n ih => rw [List.replicate_succ, List.flatten_cons, ih]; rfl

theorem close_flat {z : Zone Octet} (hz : z.trail = []) :
    (close Z z).flat = z.flat ++ List.replicate (Z - z.flat.length) 0xE0 := by
  simp [close, Zone.flat, hz, replicate_fillPacket_flatten]

theorem encode_close {z : Zone Octet} (hz : z.trail = []) (h : z.flat.length < Z) :
    encode (close Z z) =
      mpdu z.lead.length (z.flat ++ List.replicate (Z - z.flat.length) 0xE0) := by
  have hne : (close Z z).whole ≠ [] := by
    simp [close]; omega
  rw [encode, close_flat hz, Zone.header, if_neg (by simp [hne])]
  rfl

/-- Fill packets behind the packets of the last zone. -/
theorem Carries_close {a : Bytes} {zs : List (Zone Octet)} {z : Zone Octet} {items : List Bytes}
    (h : Carries a (zs ++ [z]) items []) (hz : z.trail = []) :
    Carries a (zs ++ [close Z z])
      (items ++ List.replicate (Z - z.flat.length) fillPacket) [] := by
  obtain ⟨b, i₁, i₂, h₁, h₂, rfl⟩ := h.split
  rw [List.append_assoc]
  refine h₁.append ?_
  rcases h₂.single rfl hz with ⟨rfl, hl, rfl⟩ | ⟨ha, hl, rfl⟩
  · rw [close, hl]
    simpa using Carries.first (Carries.nil ([] : Bytes))
      (w := z.whole ++ List.replicate (Z - z.flat.length) fillPacket)
  · simpa [close] using Carries.last ha hl (Carries.nil ([] : Bytes))
      (w := z.whole ++ List.replicate (Z - z.flat.length) fillPacket)

/-- How many packets have octets in a zone that ends between packets. -/
def packets (z : Zone Octet) : ℕ := share z.lead + z.whole.length

/-- The locals `_processData` starts with. -/
def initLocals (s : Add) : Locals :=
  { mpdu := s.unfilledMpdu
    mpduIdx := s.unfilledMpduIdx
    firstHeaderIndexSet := s.firstHeaderIndexSet }

/-- Between packets: the octets of the zone `z` wait in the unfilled M_PDU. -/
structure Waiting (Z : ℕ) (s : Add) (z : Zone Octet) : Prop where
  length_eq : s.mpduLength = Z + 2
  pattern_eq : s.fillPattern = [0xE0]
  working : Working Z s.initLocals z
  wellFormed : ∀ p ∈ z.whole, Encap.WellFormed p
  alone : s.multiPacketZone = false → z = {}

/-- One packet goes out: the zones sent, the zone at hand, and the fill packets. -/
structure Delivers (Z : ℕ) (s s' : Add) (z : Zone Octet) (p : Bytes) (zs : List (Zone Octet))
    (z' : Zone Octet) (k : ℕ) : Prop where
  carries : ∀ a items, Carries a [z] items [] →
    Carries a (zs ++ [z']) (items ++ [p] ++ List.replicate k fillPacket) []
  full : ∀ w ∈ zs, w.flat.length = Z
  tidy : ∀ w ∈ zs, Tidy s.multiPacketZone w
  waiting : Waiting Z s' z'
  mode : s'.multiPacketZone = s.multiPacketZone

theorem tidy_close {multi : Bool} {z : Zone Octet} (hw : ∀ p ∈ z.whole, Encap.WellFormed p)
    (hm : multi = false → packets z ≤ 1) : Tidy multi (close Z z) :=
  ⟨z.whole, Z - z.flat.length, rfl, hw, fun _ => rfl, fun h => by
    have := hm h
    simpa [packets, close] using this⟩

/-- The zones of one packet are tidy, and so is the one at hand when it is closed. -/
theorem tidy_loop {multi : Bool} {z z' : Zone Octet} {p : Bytes} {zs : List (Zone Octet)}
    (hz : ∀ q ∈ z.whole, Encap.WellFormed q) (hp : Encap.WellFormed p)
    (hm : multi = false → z = {})
    (h : (zs = [] ∧ z' = withItem z p) ∨ (zs = [withItem z p] ∧ z' = {}) ∨
        ∃ t ws, t ≠ [] ∧ zs = withStart z t :: ws ∧
          (∀ w ∈ ws, w.whole = [] ∧ w.trail = [] ∧ w.lead ≠ []) ∧ z'.whole = []) :
    (∀ w ∈ zs, Tidy multi w) ∧ (∀ q ∈ z'.whole, Encap.WellFormed q) ∧
      (multi = false → packets z' ≤ 1) := by
  have hitem : ∀ q ∈ (withItem z p).whole, Encap.WellFormed q := by
    intro q hq
    rcases List.mem_append.1 hq with hq | hq
    · exact hz q hq
    · obtain rfl := List.mem_singleton.1 hq; exact hp
  have hone : multi = false → packets (withItem z p) ≤ 1 := by
    intro h; rw [hm h]; simp [packets, withItem]
  rcases h with ⟨rfl, rfl⟩ | ⟨rfl, rfl⟩ | ⟨t, ws, ht, rfl, hws, hw'⟩
  · exact ⟨by simp, hitem, hone⟩
  · refine ⟨?_, by simp, fun _ => by simp [packets]⟩
    intro w hw
    obtain rfl := List.mem_singleton.1 hw
    exact ⟨_, 0, by simp, hitem, fun _ => rfl, fun h => by
      have := hone h
      simpa [packets, withItem] using this⟩
  · refine ⟨?_, by simp [hw'], fun _ => ?_⟩
    · intro w hw
      rcases List.mem_cons.1 hw with rfl | hw
      · refine ⟨z.whole, 0, by simp [withStart], hz, fun h => absurd h (by omega), fun h => ?_⟩
        rw [hm h]
        simpa [withStart] using share_le t
      · obtain ⟨h₁, h₂, -⟩ := hws w hw
        refine ⟨[], 0, by simp [h₁], by simp, fun h => absurd h (by omega), fun _ => ?_⟩
        rw [h₂]
        simpa using share_le w.lead
    · rw [packets, hw', List.length_nil]; exact share_le _

/-- The last M_PDU, padded with fill and its header set. -/
theorem padLast_spec (hs : s.fillPattern = [0xE0]) (hZ : Z ≤ 2046) {l : Locals} {z : Zone Octet}
    (hz : z.trail = []) (h : z.flat.length < Z) (hi : l.mpduIdx = z.flat.length)
    (hset : l.firstHeaderIndexSet = decide (z.whole ≠ [])) (hpos : z.flat.length ≠ 0) :
    s.padLast l (partly Z z) = .ok (encode (close Z z)) := by
  have hzl : getPacketZoneLength (partly Z z) = Z := by
    rw [getPacketZoneLength, partly, mpdu_length, List.length_append, newUnit_length, spanHeader]
    omega
  obtain ⟨i, hidx⟩ : ∃ i, i = if z.whole = [] then 0 else z.lead.length := ⟨_, rfl⟩
  have hfill : addFill (partly Z z) z.flat.length [0xE0] =
      .ok (mpdu i (z.flat ++ List.replicate (Z - z.flat.length) 0xE0)) := by
    have hpre : (fromU16 i ++ z.flat).length = spanHeader + z.flat.length := by
      simp [fromU16, spanHeader]; omega
    have ho := overwrite_zeros (fromU16 i ++ z.flat)
      (List.replicate (Z - z.flat.length) (0xE0 : Octet)) (n := Z - z.flat.length)
    rw [hpre, List.length_replicate, Nat.sub_self] at ho
    rw [addFill, hzl, fillOctets_default]
    simp only [bind, Except.bind, pure, Except.pure, partly, ← hidx, mpdu, ← List.append_assoc, ho]
    simp [newUnit]
  rw [padLast, hi, hs, hfill, encode_close hz h]
  simp only [bind, Except.bind, if_neg hpos, hset]
  by_cases hw : z.whole = []
  · have hflat : z.flat.length = z.lead.length := by simp [Zone.flat, hw, hz]
    simp only [hw, if_true] at hidx
    subst hidx
    simp only [hw, ne_eq, not_true, decide_false, Bool.false_eq_true, if_false]
    rw [setFirstHeaderIndex_mpdu (Nat.zero_le _) (by rw [hasHeaderlessVal]; omega), hflat]
    rfl
  · simp only [hw, if_false] at hidx
    subst hidx
    simp only [hw, ne_eq, not_false_eq_true, decide_true, if_true]
    rfl

/-- **One packet through the sender.** -/
theorem processData_spec (hZ : Z ≤ 2046) {z : Zone Octet} (h : Waiting Z s z) {p : Bytes}
    (hp : Encap.WellFormed p) (q : Bool) :
    ∃ s' zs z' k, s.processData (p, q) = .ok (s', zs.map encode) ∧
      Delivers Z s s' z p zs z' k ∧ (q = true → z' = {}) := by
  have hne : p ≠ [] := by
    obtain ⟨first, rest, rfl, -⟩ := hp; simp
  obtain ⟨l, zs, z', hloop, hsp, hcar, hshape⟩ := fillLoop_spec (s := s) h.length_eq hZ h.working hne
  obtain ⟨htidy, hwf, hone⟩ := tidy_loop h.wellFormed hp h.alone hshape
  have hproc : s.processData (p, q) =
      finish { s with unfilledMpdu := none, unfilledMpduIdx := 0 } l q := by
    show (fillLoop s (p.length + 1) s.initLocals 0 p >>= _) = _
    rw [hloop]; rfl
  have hsent : l.sent = zs.map encode := by rw [hsp.sent_eq]; rfl
  have hlt := hsp.working.lt
  have ht := hsp.working.trail_eq
  have hz : packetZoneLength { s with unfilledMpdu := none, unfilledMpduIdx := 0 } = Z := by
    rw [packetZoneLength, h.length_eq]; rfl
  have hempty : ∀ set : Bool, Waiting Z { s with
      unfilledMpdu := none, unfilledMpduIdx := 0, firstHeaderIndexSet := set } {} := fun set =>
    ⟨h.length_eq, h.pattern_eq, ⟨rfl, by simp [Zone.flat]; omega, fun _ => rfl,
      fun u hu => absurd hu (by simp [initLocals]), fun u hu => absurd hu (by simp [initLocals]),
      fun u hu => absurd hu (by simp [initLocals])⟩, by simp, fun _ => rfl⟩
  rw [hproc, finish]
  cases hl : l.mpdu with
  | none =>
    obtain rfl := hsp.working.empty hl
    refine ⟨_, zs, {}, 0, by rw [hsent], ⟨?_, hsp.full, htidy, hempty _, rfl⟩, fun _ => rfl⟩
    intro a items hc
    simpa using hcar a items hc
  | some u =>
    obtain rfl := hsp.working.unit_eq u hl
    have hi := hsp.working.idx_eq _ hl
    have hset := hsp.working.set_eq _ hl
    have hpos : z'.flat.length ≠ 0 := fun h0 =>
      hsp.nonempty _ hl (List.length_eq_zero_iff.1 h0)
    by_cases hc : (!s.multiPacketZone || q) = true
    · -- no more packets are to come for the zone: it is closed with fill
      have hlast : padLast { s with unfilledMpdu := none, unfilledMpduIdx := 0 } l (partly Z z') =
          .ok (encode (close Z z')) := padLast_spec h.pattern_eq hZ ht hlt hi hset hpos
      refine ⟨_, zs ++ [close Z z'], {}, Z - z'.flat.length, ?_,
        ⟨?_, ?_, ?_, hempty false, rfl⟩, fun _ => rfl⟩
      · simp only [hc, if_true, hz, if_pos (show l.mpduIdx < Z by omega), hlast, bind,
          Except.bind, pure, Except.pure, hsent, List.map_append, List.map_cons, List.map_nil]
      · intro a items hcar'
        have hend := (Carries_close (hcar a items hcar') ht (Z := Z)).append
          (Carries.first (w := []) (Carries.nil ([] : Bytes)))
        simpa using hend
      · intro w hw
        rcases List.mem_append.1 hw with hw | hw
        · exact hsp.full w hw
        · obtain rfl := List.mem_singleton.1 hw
          rw [close_flat ht, List.length_append, List.length_replicate]; omega
      · intro w hw
        rcases List.mem_append.1 hw with hw | hw
        · exact htidy w hw
        · obtain rfl := List.mem_singleton.1 hw
          exact tidy_close hwf hone
    · have hm : s.multiPacketZone = true := by
        by_contra hm
        exact hc (by simp [hm])
      have hq : q = false := by
        by_contra hq
        exact hc (by simp [hq])
      refine ⟨{ s with
        unfilledMpdu := some (partly Z z')
        unfilledMpduIdx := l.mpduIdx
        firstHeaderIndexSet := l.firstHeaderIndexSet }, zs, z', 0, ?_,
        ⟨?_, hsp.full, htidy, ?_, rfl⟩, fun h => absurd h (by simp [hq])⟩
      · simp only [hc, hsent, Bool.false_eq_true, if_false]
      · intro a items hc'
        simpa using hcar a items hc'
      · refine ⟨h.length_eq, h.pattern_eq, ⟨ht, hlt, fun hn => absurd hn (by simp [initLocals]), ?_,
          fun _ _ => hi, fun _ _ => hset⟩, hwf, fun hf => ?_⟩
        · intro u hu
          exact (Option.some.inj hu).symm
        · rw [show s.multiPacketZone = false from hf] at hm
          exact absurd hm (by simp)

/-! ## Runs -/

theorem wellFormed_ne_fill {p : Bytes} (h : Encap.WellFormed p) : p ≠ fillPacket := by
  rintro rfl
  obtain ⟨first, rest, hp, hlol, -⟩ := h
  obtain ⟨rfl, -⟩ := List.cons.inj hp
  exact absurd hlol (by decide)

/-- The packets among the items, fill left out. -/
def unfilled (items : List Bytes) : List Bytes := items.filter (· ≠ fillPacket)

theorem unfilled_append (xs ys : List Bytes) :
    unfilled (xs ++ ys) = unfilled xs ++ unfilled ys := List.filter_append ..

@[simp] theorem unfilled_replicate (k : ℕ) : unfilled (List.replicate k fillPacket) = [] := by
  simp [unfilled]

theorem unfilled_of_wellFormed {ps : List Bytes} (h : ∀ p ∈ ps, Encap.WellFormed p) :
    unfilled ps = ps := by
  rw [unfilled, List.filter_eq_self]
  intro p hp
  simpa using wellFormed_ne_fill (h p hp)

/-- **A run of packets** is sent in full, tidy zones that carry them with fill between. -/
theorem run_spec (hZ : Z ≤ 2046) :
    ∀ (inputs : List (Bytes × Bool)) {s : Add} {z : Zone Octet}, Waiting Z s z →
      (∀ a ∈ inputs, Encap.WellFormed a.1) →
      ∃ s' zs z' items, runAll processData s inputs = .ok (s', zs.map encode) ∧ Waiting Z s' z' ∧
        (∀ w ∈ zs, w.flat.length = Z) ∧ (∀ w ∈ zs, Tidy s.multiPacketZone w) ∧
        (∀ a its, Carries a [z] its [] → Carries a (zs ++ [z']) (its ++ items) []) ∧
        unfilled items = inputs.map Prod.fst ∧
        (∀ a ∈ inputs.getLast?, a.2 = true → z' = {}) ∧ (inputs = [] → z' = z) := by
  intro inputs
  induction inputs with
  | nil =>
    intro s z h _
    exact ⟨s, [], z, [], rfl, h, by simp, by simp, by simp, rfl, by simp, fun _ => rfl⟩
  | cons a inputs ih =>
    intro s z h hwf
    obtain ⟨p, q⟩ := a
    obtain ⟨s₁, zs₁, z₁, k, hproc, hdel, hq⟩ := processData_spec hZ h (hwf (p, q) (by simp)) q
    obtain ⟨s₂, zs₂, z₂, items, hrun, hw, hfull, htidy, hcar, hun, hlast, hnil⟩ :=
      ih hdel.waiting fun b hb => hwf b (by simp [hb])
    refine ⟨s₂, zs₁ ++ zs₂, z₂, p :: (List.replicate k fillPacket ++ items), ?_, hw, ?_, ?_, ?_, ?_,
      ?_, by simp⟩
    · rw [List.map_append]; exact runAll_cons hproc hrun
    · intro w hw'
      rcases List.mem_append.1 hw' with hw' | hw'
      · exact hdel.full w hw'
      · exact hfull w hw'
    · intro w hw'
      rcases List.mem_append.1 hw' with hw' | hw'
      · exact hdel.tidy w hw'
      · rw [← hdel.mode]; exact htidy w hw'
    · intro b its hc
      obtain ⟨c, i₁, i₂, h₁, h₂, he⟩ := (hdel.carries b its hc).split
      have hend := h₁.append (hcar c i₂ h₂)
      rw [← List.append_assoc i₁, ← he] at hend
      simpa using hend
    · rw [show p :: (List.replicate k fillPacket ++ items) =
          [p] ++ (List.replicate k fillPacket ++ items) by rfl, unfilled_append, unfilled_append,
        unfilled_replicate, hun, unfilled_of_wellFormed (by
          intro x hx
          obtain rfl := List.mem_singleton.1 hx
          exact hwf (x, q) (by simp))]
      rfl
    · intro b hb hbt
      cases inputs with
      | nil =>
        obtain rfl : (p, q) = b := by simpa using hb
        rw [hnil rfl]; exact hq hbt
      | cons c cs => exact hlast b (by simpa [List.getLast?_cons_cons] using hb) hbt

/-- The sender when its `svc` starts, for a packet zone of `Z` octets. -/
def start (multiPacketZone : Bool) (Z : ℕ) : Add := { mpduLength := Z + spanHeader, multiPacketZone }

theorem start_waiting (multi : Bool) (hZ : 1 ≤ Z) : Waiting Z (start multi Z) {} :=
  ⟨rfl, rfl, ⟨rfl, by simpa [Zone.flat] using Nat.lt_of_succ_le hZ, fun _ => rfl,
    fun u hu => absurd hu (by simp [initLocals, start]),
    fun u hu => absurd hu (by simp [initLocals, start]),
    fun u hu => absurd hu (by simp [initLocals, start])⟩, by simp, fun _ => rfl⟩

end Add

end ChannelEmulator.Multiplexing
