import ChannelEmulator.Proof.EncapsulationSender
import ChannelEmulator.Proof.PacketExtraction

/-!
# Encapsulation packets out of the frames of a channel

* `pass_whole`, `pass_open`, `pass_completed`, `pass_goes_on`: the passes over the octets of an
  encapsulation packet, wherever they are cut.
* `AtHand`: what is at hand between frames, with multi-packet data fields.
* `receive_mixed`: **the packets of the zones are delivered** just when no header of an idle packet
  is cut.
* `receive_alone`: **without multi-packet data fields they are delivered** always.
-/

namespace ChannelEmulator.TM

open Framing
open Multiplexing.Remove (Holds extend)
open Gen (Idle Mixed Orderly Uncut Alone encaps starts)

/-- The header of an encapsulation packet. -/
theorem EncPacket.header {p : Bytes} (h : EncPacket p) : ∃ first rest, p = first :: rest ∧
    getPVN first = pvnEncapsulationPacket ∧ Encap.isFill first = false ∧
    4 ≤ Encap.minBytesToDetermineLength first ∧
    Encap.minBytesToDetermineLength first ≤ p.length ∧ Encap.expectedLength p = .ok p.length := by
  obtain ⟨first, rest, rfl, hlol, hmin, hexp⟩ := h.wellFormed
  have hv : getPVN first = pvnEncapsulationPacket := of_decide_eq_true h.version
  refine ⟨first, rest, rfl, hv, ?_, Encap.headerOctets_ge hlol, hmin, hexp⟩
  refine decide_eq_false ?_
  rintro rfl
  exact absurd hlol (by decide)

namespace Rcv

variable {s s' : Rcv} {data : Bytes} {pointer idx : ℕ} {p t r a part : Bytes} {c : Chain}

theorem loop_stop {fuel : ℕ} {sent : List Bytes} (h : idx < data.length) {idx' : ℕ} {more : Bool}
    (hs : s.pass data pointer idx = .ok (s', sent, idx', more)) (hmore : more = false) :
    loop (fuel + 1) s data pointer idx = .ok (s', sent) := by
  subst hmore
  rw [loop, if_pos h, hs]
  rfl

/-! ## From the start of a packet -/

theorem pass_encap {first : Octet} {tail : Bytes} (hn : s.packet = none)
    (honly : onlyIdleData pointer = false) (hv : getPVN first = pvnEncapsulationPacket)
    (hd : data.drop idx = first :: tail) :
    s.pass data pointer idx = s.startNewEncap data pointer idx := by
  rw [pass_fresh hn hd, if_neg (by rw [hv]; decide), if_pos hv, honly]
  rfl

/-- The pass over a whole packet. -/
theorem pass_whole (hp : EncPacket p) (hn : s.packet = none)
    (hi : (idx = 0 && 0 < pointer) = false) (honly : onlyIdleData pointer = false)
    (hd : data.drop idx = p ++ t) :
    s.pass data pointer idx = .ok (s, [p], idx + p.length, s.multiDataField) := by
  obtain ⟨first, rest, hcons, hv, hfill, h4, hmin, hexp⟩ := hp.header
  obtain ⟨u, hu⟩ : ∃ u, p ++ t = first :: u := ⟨rest ++ t, by rw [hcons]; rfl⟩
  have hlen : p.length ≤ (first :: u).length := by
    rw [← hu, List.length_append]
    exact Nat.le_add_right _ _
  have htake : (first :: u).take p.length = p := by rw [← hu, List.take_left]
  have he : Encap.expectedLength (first :: u) = .ok p.length := by
    have hlol : first.toNat % 4 ≠ 0 := (Encap.header_of_expectedLength (hcons ▸ hexp)).1
    rw [← Encap.expectedLength_take rfl hlol hmin, htake, hexp]
  have hk := Encap.taken_eq hmin (Encap.expectedLength_lt hexp)
  rw [hu] at hd
  rw [pass_encap hn honly hv hd, startNewEncap_eq hi hd hfill (hmin.trans hlen) he hk,
    Encap.hasAllParts_taken he hk, if_neg (by omega), Nat.min_eq_left hlen, htake,
    decide_eq_true ⟨hmin, hlen⟩]
  simp only [bind, Except.bind, pure, Except.pure, if_true, Chain.flatten, List.flatten_nil,
    List.append_nil]
  rw [← hn]

/-- The pass over the start of a packet that goes on in the next frame. -/
theorem pass_open (hp : EncPacket (t ++ r)) (ht : t ≠ []) (hr : r ≠ []) (hn : s.packet = none)
    (hi : (idx = 0 && 0 < pointer) = false) (honly : onlyIdleData pointer = false)
    (hd : data.drop idx = t) :
    ∃ idx' more, s.pass data pointer idx =
        .ok ({ s with packet := some ⟨t, []⟩ }, [], idx', more) ∧
      (more = true → idx' = data.length) := by
  obtain ⟨first, rest, hcons, hv, hfill, h4, hmin, hexp⟩ := hp.header
  obtain ⟨u, rfl⟩ : ∃ u, t = first :: u := by
    obtain ⟨b, u, rfl⟩ := List.exists_cons_of_ne_nil ht
    exact ⟨u, by rw [(List.cons.inj hcons).1]⟩
  have hpass := pass_encap hn honly hv hd
  by_cases hcut : (first :: u).length < Encap.minBytesToDetermineLength first
  · exact ⟨_, _, hpass.trans (startNewEncap_cut hi hd hfill hcut), fun h => absurd h (by decide)⟩
  · have hpos := List.length_pos_iff.2 hr
    have hlen : (first :: u).length < (first :: u ++ r).length := by
      rw [List.length_append]
      omega
    have he : Encap.expectedLength (first :: u) = .ok (first :: u ++ r).length := by
      have := Multiplexing.expectedLength_prefix hp.wellFormed rfl (Nat.not_lt.1 hcut)
      rwa [List.take_left] at this
    have hk := Encap.taken_eq hmin (Encap.expectedLength_lt hexp)
    have hidx : idx + (first :: u).length = data.length := by
      have := congrArg List.length hd
      rw [List.length_drop, List.length_cons] at this
      rw [List.length_cons]
      omega
    refine ⟨data.length, s.multiDataField, ?_, fun _ => rfl⟩
    rw [hpass, startNewEncap_eq hi hd hfill (Nat.not_lt.1 hcut) he hk,
      Encap.hasAllParts_taken he hk, if_neg (by omega), Nat.min_eq_right hlen.le,
      List.take_of_length_le hlen.le, decide_eq_false (by omega), hidx]
    rfl

/-! ## The rest of a packet begun earlier -/

/-- The first pass over a data field that goes on with the packet at hand. -/
theorem pass_extend (hs : s.packet = some c) (hc : Holds c a) (ha : a ≠ [])
    (hp : EncPacket (a ++ part ++ r)) (honly : onlyIdleData pointer = false) (h0 : 0 < pointer)
    {n : ℕ} {tail : Bool} (hn : continuedLen data pointer = (n, tail)) (hle : n ≤ data.length)
    (hpart : data.take n = part) (hhead : r = [] ∨
      ∀ b, a.head? = some b → Encap.minBytesToDetermineLength b ≤ (a ++ part).length) :
    ∃ c', Holds c' (a ++ part) ∧ s.pass data pointer 0 =
      if r = [] then .ok ({ s with packet := none }, [a ++ part], n, s.multiDataField)
      else if tail then .ok (s.dropPacket, [], n, s.multiDataField)
      else .ok ({ s with packet := some c' }, [], n, s.multiDataField) := by
  obtain ⟨first, rest, hcons, hv, hfill, h4, hmin, hexp⟩ := hp.header
  have hfirst : (a ++ part ++ r).head? = some first := by rw [hcons]; rfl
  have haf : a.head? = some first := by
    obtain ⟨b, u, rfl⟩ := List.exists_cons_of_ne_nil ha
    exact hfirst
  obtain ⟨x, u, hx⟩ : ∃ x u, c.head = x :: u := List.exists_cons_of_ne_nil hc.head_ne
  obtain rfl : x = first := by
    have hflat := hc.flatten_eq
    rw [Chain.flatten, hx] at hflat
    rw [← hflat] at haf
    exact Option.some.inj haf
  obtain ⟨hext, hlong⟩ := hc.extend haf part
  -- what is put together holds the header
  have hmin' : Encap.minBytesToDetermineLength x ≤ (a ++ part).length := by
    rcases hhead with rfl | h
    · rwa [List.append_nil] at hmin
    · exact h x haf
  have hwhole : (a ++ part ++ r).take (a ++ part).length = a ++ part := List.take_left
  have hall := Multiplexing.Remove.hasAllParts_prefix hp.wellFormed (c := extend c x part)
    (n := (a ++ part).length) (by rw [hwhole]; exact hext.flatten_eq) hfirst (hlong hmin')
  have hhd : (extend c x part).head = (a ++ part ++ r).take (extend c x part).head.length := by
    have h₁ : (extend c x part).head = (extend c x part).flatten.take (extend c x part).head.length := by
      rw [Chain.flatten, List.take_left]
    have hle₁ : (extend c x part).head.length ≤ (a ++ part).length := by
      rw [← hext.flatten_eq, Chain.flatten, List.length_append]
      exact Nat.le_add_right _ _
    rw [hext.flatten_eq] at h₁
    rw [List.take_append_of_le_length hle₁]
    exact h₁
  have hexp' : Encap.expectedLength (extend c x part).head = .ok (a ++ part ++ r).length := by
    rw [hhd]
    exact Multiplexing.expectedLength_prefix hp.wellFormed hfirst (hlong hmin')
  have htotal : (extend c x part).totalLength = (a ++ part).length := by
    rw [Chain.totalLength_eq, hext.flatten_eq]
  have hlast : ((a ++ part ++ r).take (a ++ part).length).length = (a ++ part ++ r).length ↔
      r = [] := by
    rw [hwhole, ← List.length_eq_zero_iff]
    simp only [List.length_append]
    omega
  have hbeq : (((a ++ part ++ r).take (a ++ part).length).length == (a ++ part ++ r).length) =
      decide (r = []) := by
    rw [Bool.eq_iff_iff, beq_iff_eq, decide_eq_true_iff, hlast]
  refine ⟨extend c x part, hext, ?_⟩
  have hb : octetAt c.head 0 = .ok x := by
    rw [hx]
    rfl
  have hE : extendPacket c (Encap.minBytesToDetermineLength x) part = extend c x part := rfl
  rw [pass_held hs hx, if_neg (by rw [hv]; decide), if_pos hv, honly, continueEncap, hb]
  simp only [bind, Except.bind, continuePkt, h0, decide_true, Bool.and_self, if_true, hn, Nat.not_lt.2 hle, if_false, hpart, hE,
    hall, hbeq, Nat.zero_add, Bool.false_eq_true, pure, Except.pure, hext.flatten_eq, htotal,
    hexp', ge_iff_le, hlong hmin', decide_eq_true_eq]
  by_cases hr : r = []
  · simp only [hr, if_true]
  · simp only [hr, if_false]
    cases tail with
    | true => rfl
    | false =>
      have : ¬(a ++ part ++ r).length < (a ++ part).length := by
        simp only [List.length_append]
        omega
      simp only [Bool.false_eq_true, if_false, this]

/-! ## Multi-packet data fields -/

/-- What is at hand behind the start `x` of a packet, or behind a whole idle packet `x`. -/
structure AtHand (D : ℕ) (s : Rcv) (x : Bytes) : Prop where
  multi : s.multiDataField = true
  some_of : x ≠ [] → s.packet ≠ none
  encap : isEncap x = true → ∀ c, s.packet = some c → Holds c x
  idle : isEncap x = false → ∀ c, s.packet = some c → Started c ∧ c.totalLength ≤ D

/-- The start of a packet the zones carry. -/
def Opening (D : ℕ) (x : Bytes) : Prop := x ≠ [] → ∃ r, r ≠ [] ∧ Mixed D (x ++ r)

theorem idle_version {x : Bytes} {n : ℕ} (h : Idle (x ++ r) n) (hx : x ≠ []) :
    ∃ b t, x = b :: t ∧ getPVN b = pvnSpacePacket := by
  obtain ⟨b, t, rfl⟩ := List.exists_cons_of_ne_nil hx
  have hb : some b = some 7 := h.first_eq
  obtain rfl := Option.some.inj hb
  exact ⟨7, t, rfl, by decide⟩

variable {D : ℕ} {z : Zone Octet} {ch : Channel} {count : ℕ} {x : Bytes}

/-- Behind the front of a data field. -/
theorem guard_of_pos (h : 0 < idx) : (idx = 0 && 0 < pointer) = false := by
  rw [decide_eq_false (by omega : ¬idx = 0), Bool.false_and]

/-- The passes over whole packets. -/
theorem loop_whole (hm : s.multiDataField = true) (hn : s.packet = none)
    (honly : onlyIdleData pointer = false) : ∀ (ps : List Bytes) {idx : ℕ} (fuel : ℕ) {rest : Bytes},
      (∀ p ∈ ps, EncPacket p) → (idx = 0 && 0 < pointer) = false →
      data.drop idx = ps.flatten ++ rest →
        loop (ps.length + fuel) s data pointer idx =
          (loop fuel s data pointer (idx + ps.flatten.length)).map fun q => (q.1, ps ++ q.2) := by
  intro ps
  induction ps with
  | nil =>
    intro idx fuel rest _ _ _
    rw [List.length_nil, Nat.zero_add, List.flatten_nil, List.length_nil, Nat.add_zero]
    rcases loop fuel s data pointer idx with e | ⟨s', sent⟩
    · rfl
    · rfl
  | cons p ps ih =>
    intro idx fuel rest hps hi hd
    have hp := hps p List.mem_cons_self
    have hpos := List.length_pos_iff.2 hp.ne_nil
    rw [List.flatten_cons, List.append_assoc] at hd
    have hlt : idx < data.length := by
      have := congrArg List.length hd
      rw [List.length_drop, List.length_append] at this
      omega
    have hpass := pass_whole hp hn hi honly hd
    have hnext : data.drop (idx + p.length) = ps.flatten ++ rest := by
      rw [← List.drop_drop, hd, List.drop_left]
    have hstep := ih fuel (fun q hq => hps q (List.mem_cons_of_mem p hq))
      (guard_of_pos (Nat.add_pos_right idx hpos)) hnext
    rw [List.length_cons, show ps.length + 1 + fuel = (ps.length + fuel) + 1 by omega,
      List.flatten_cons, List.length_append, ← Nat.add_assoc]
    rw [hm] at hpass
    rcases hl : loop fuel s data pointer (idx + p.length + ps.flatten.length) with e | ⟨s', sent⟩
    · rw [hl] at hstep
      exact loop_next_error hlt hpass hstep
    · rw [hl] at hstep
      show _ = Except.ok (s', [p] ++ (ps ++ sent))
      exact loop_next hlt hpass hstep

/-- The last pass over a zone: the start of a packet, or a whole idle packet. -/
theorem loop_rest (hm : s.multiDataField = true) (hn : s.packet = none)
    (hi : (idx = 0 && 0 < pointer) = false) (honly : onlyIdleData pointer = false)
    (hd : data.drop idx = x) (hlen : data.length = D) (hD : D ≤ 2046)
    (hx : Opening D x ∨ ∃ n, 7 ≤ n ∧ Idle x n) (fuel : ℕ) :
    Judged (loop (fuel + 2) s data pointer idx)
      (x ≠ [] → isEncap x = false → SpacePacket.minBytesToDetermineLength ≤ x.length) []
      fun s' => AtHand D s' x := by
  by_cases hx₀ : x = []
  · subst hx₀
    refine .of_ok (fun h => absurd rfl h) (loop_done (List.drop_eq_nil_iff.1 hd) _) ?_
    exact ⟨hm, fun h => absurd rfl h, fun h => absurd h (by decide), fun _ c hc => by
      rw [hn] at hc
      cases hc⟩
  have hlt : idx < data.length := by
    by_contra hc
    rw [List.drop_eq_nil_of_le (Nat.not_lt.1 hc)] at hd
    exact hx₀ hd.symm
  have hxlen : x.length ≤ D := by
    rw [← hd, List.length_drop]
    omega
  cases hv : isEncap x with
  | true =>
    -- an encapsulation packet goes on in the next frame
    obtain ⟨r, hr, hp⟩ : ∃ r, r ≠ [] ∧ EncPacket (x ++ r) := by
      rcases hx with hx | ⟨n, -, hidle⟩
      · obtain ⟨r, hr, hp | ⟨n, -, -, hidle⟩⟩ := hx hx₀
        · exact ⟨r, hr, hp⟩
        · have := isEncap_idle hidle
          rw [isEncap_append hx₀, hv] at this
          cases this
      · rw [isEncap_idle hidle] at hv
        cases hv
    obtain ⟨idx', more, hpass, hmore⟩ := pass_open hp hx₀ hr hn hi honly hd
    have hhand : AtHand D { s with packet := some ⟨x, []⟩ } x := by
      refine ⟨hm, fun _ => Option.some_ne_none _, fun _ c hc => ?_, fun h => ?_⟩
      swap
      · rw [hv] at h
        cases h
      obtain rfl := Option.some.inj hc
      exact ⟨List.append_nil x, hx₀, fun _ _ _ => rfl⟩
    refine .of_ok (fun _ h => absurd h (by decide)) ?_ hhand
    cases more with
    | false => exact loop_stop hlt hpass rfl
    | true => exact loop_next hlt hpass (loop_done (hmore rfl).ge _)
  | false =>
    -- an idle packet
    obtain ⟨b, t, hb, hb0⟩ : ∃ b t, x = b :: t ∧ getPVN b = pvnSpacePacket := by
      rcases hx with hx | ⟨n, -, hidle⟩
      · obtain ⟨r, hr, hp | ⟨n, -, -, hidle⟩⟩ := hx hx₀
        · have := hp.version
          rw [isEncap_append hx₀, hv] at this
          cases this
        · exact idle_version hidle hx₀
      · exact idle_version (by rwa [List.append_nil]) hx₀
    by_cases h₆ : 6 ≤ x.length
    · obtain ⟨c, hc, hflat, hpass⟩ := pass_start hn hm hi hd hb hb0 h₆
        (by unfold maxLength; omega) honly
      refine .of_ok (fun _ _ => h₆) (loop_next hlt hpass (loop_done le_rfl _)) ?_
      refine ⟨hm, fun _ => Option.some_ne_none _, fun h => ?_, fun _ c' hc' => ?_⟩
      · rw [hv] at h
        cases h
      obtain rfl := Option.some.inj hc'
      refine ⟨hc, ?_⟩
      rw [Chain.totalLength_eq, hflat, mark_length h₆]
      exact hxlen
    · refine ⟨fun h => absurd (h hx₀ rfl) h₆, fun _ => ⟨.outOfBounds, ?_⟩⟩
      exact loop_error hlt (pass_cut hn hi hd hb hb0 (by omega) honly)

theorem pointerOf_cases (hz : z.flat.length = D) :
    (behind z ≠ [] ∧ pointerOf z = z.lead.length ∧ z.lead.length < D) ∨
      (behind z = [] ∧ z.lead.length = D) := by
  have hlen := flat_length z
  by_cases hb : behind z = []
  · rw [hb, List.length_nil] at hlen
    exact Or.inr ⟨hb, by omega⟩
  · have := List.length_pos_iff.2 hb
    exact Or.inl ⟨hb, pointerOf_behind hb, by omega⟩

/-- Packets have four octets at least. -/
theorem flatten_ge {es : List Bytes} (h : ∀ e ∈ es, EncPacket e) : 4 * es.length ≤ es.flatten.length := by
  induction es with
  | nil => exact le_rfl
  | cons e es ih =>
    obtain ⟨first, -, -, -, -, h4, hmin, -⟩ := (h e List.mem_cons_self).header
    have := ih fun q hq => h q (List.mem_cons_of_mem e hq)
    rw [List.length_cons, List.flatten_cons, List.length_append]
    omega

/-- The loop from the end of an earlier packet on. -/
theorem loop_orderly (hz : z.flat.length = D) (hD : D ≤ 2046) (hm : s.multiDataField = true)
    (hn : s.packet = none) (hord : Orderly D z) (ht : Opening D z.trail) (fuel : ℕ)
    (hf : D / 4 + 2 ≤ fuel) :
    Judged (loop fuel s z.flat (pointerOf z) z.lead.length) (Uncut z) (encaps z.whole)
      fun s' => AtHand D s' z.trail := by
  rcases pointerOf_cases hz with ⟨hb, hptr, hlt⟩ | ⟨hb, hfull⟩
  · have hi : (decide (z.lead.length = 0) && decide (0 < pointerOf z)) = false := by
      rw [hptr]
      by_cases h0 : z.lead.length = 0
      · simp [h0]
      · simp [h0]
    have honly : onlyIdleData (pointerOf z) = false := onlyIdleData_lt (by rw [hptr]; omega)
    have hdrop : z.flat.drop z.lead.length = z.whole.flatten ++ z.trail := by
      unfold Zone.flat
      exact List.drop_left
    -- the packets that lie in the zone, and what is behind them
    have hwalk : ∀ (es : List Bytes) (x : Bytes), (∀ e ∈ es, EncPacket e) →
        z.flat.drop z.lead.length = es.flatten ++ x → (Opening D x ∨ ∃ n, 7 ≤ n ∧ Idle x n) →
          Judged (loop fuel s z.flat (pointerOf z) z.lead.length)
            (x ≠ [] → isEncap x = false → SpacePacket.minBytesToDetermineLength ≤ x.length) es
            fun s' => AtHand D s' x := by
      intro es x hes hd hx
      have hle := flatten_ge hes
      have hes' : es.flatten.length ≤ D := by
        have := congrArg List.length hd
        rw [List.length_drop, List.length_append] at this
        omega
      obtain ⟨k, rfl⟩ : ∃ k, fuel = es.length + (k + 2) := ⟨fuel - es.length - 2, by omega⟩
      have hrest : z.flat.drop (z.lead.length + es.flatten.length) = x := by
        rw [← List.drop_drop, hd, List.drop_left]
      have hi' : (decide (z.lead.length + es.flatten.length = 0) && decide (0 < pointerOf z)) =
          false := by
        rw [hptr]
        by_cases h0 : z.lead.length = 0
        · simp [h0]
        · simp [h0]
      obtain ⟨hgood, hbad⟩ := loop_rest hm hn hi' honly hrest hz hD hx k
      rw [loop_whole hm hn honly es _ hes hi hd]
      constructor
      · intro h
        obtain ⟨s', hs', hhand⟩ := hgood h
        rw [hs']
        exact ⟨s', by rw [Except.map, List.append_nil], hhand⟩
      · intro h
        obtain ⟨e, he⟩ := hbad h
        rw [he]
        exact ⟨e, rfl⟩
    rcases hord with hall | ⟨htrail, es, f, hw, hes, n, h₇, hn', hidle⟩
    · rw [Gen.encaps_all hall]
      exact hwalk z.whole z.trail hall hdrop (Or.inl ht)
    · have hd : z.flat.drop z.lead.length = es.flatten ++ f := by
        rw [hdrop, hw, htrail, List.append_nil, List.flatten_append, List.flatten_cons,
          List.flatten_nil, List.append_nil]
      have hjudged := hwalk es f hes hd (Or.inr ⟨n, h₇, hidle⟩)
      have henc : encaps z.whole = es := by
        rw [hw, Gen.encaps_append, Gen.encaps_all hes, Gen.encaps_none, List.append_nil]
        intro x hx
        obtain rfl := List.mem_singleton.1 hx
        exact isEncap_idle hidle
      obtain ⟨s', hs', hhand⟩ := hjudged.1 fun _ _ => by
        rw [hidle.length_eq]
        unfold SpacePacket.minBytesToDetermineLength
        omega
      rw [henc, htrail]
      refine .of_ok (Gen.uncut_of_whole htrail) hs' ⟨hhand.multi, fun h => absurd rfl h,
        fun h => absurd h (by decide), fun _ => hhand.idle (isEncap_idle hidle)⟩
  · obtain ⟨hw, htr⟩ := List.append_eq_nil_iff.1 hb
    have henc : encaps z.whole = [] := Gen.encaps_none fun x hx => by
      rw [List.flatten_eq_nil_iff.1 hw x hx]
      rfl
    rw [henc, htr]
    refine .of_ok (Gen.uncut_of_whole htr) (loop_done (by omega) _) ⟨hm, fun h => absurd rfl h,
      fun h => absurd h (by decide), fun _ c hc => ?_⟩
    rw [hn] at hc
    cases hc

/-- A zone whose front is passed first. -/
theorem judged_of_pass (hpos : 0 < D) (hD : D ≤ 2046) (hz : z.flat.length = D)
    (hord : Orderly D z) (ht : Opening D z.trail) (ch : Channel) (count : ℕ) {s₁ : Rcv}
    {sent : List Bytes} {more : Bool}
    (hpass : s.pass z.flat (pointerOf z) 0 = .ok (s₁, sent, z.lead.length, more))
    (hmore : more = true) (hm : s₁.multiDataField = true) (hn : s₁.packet = none) :
    Judged (assemblePacket ch s (frame ch count (pointerOf z) z.flat)) (Uncut z)
      (sent ++ encaps z.whole) fun s' => AtHand D s' z.trail := by
  have hlt : 0 < z.flat.length := by omega
  subst hmore
  obtain ⟨hgood, hbad⟩ := loop_orderly hz hD hm hn hord ht (2 * D) (by omega)
  rw [assemblePacket_zone hD hz]
  constructor
  · intro h
    obtain ⟨s', hs', hhand⟩ := hgood h
    exact ⟨s', loop_next hlt hpass hs', hhand⟩
  · intro h
    obtain ⟨e, he⟩ := hbad h
    exact ⟨e, loop_next_error hlt hpass he⟩

/-- Where the end of an earlier packet lies in the data field. -/
theorem continuedLen_lead (hD : D ≤ 2046) (hz : z.flat.length = D)
    (hl : z.lead ≠ []) (hb : behind z = [] → z.header = none) :
    0 < pointerOf z ∧ onlyIdleData (pointerOf z) = false ∧
      ∃ tail, continuedLen z.flat (pointerOf z) = (z.lead.length, tail) ∧
        (tail = true ↔ behind z ≠ []) := by
  have hpos := List.length_pos_iff.2 hl
  rcases pointerOf_cases hz with ⟨hb', hptr, hlt⟩ | ⟨hb', hfull⟩
  · refine ⟨by omega, onlyIdleData_lt (by omega), true, ?_, fun _ => hb', fun _ => rfl⟩
    unfold continuedLen
    rw [hptr, if_neg (by rw [noPacketStart_lt (by omega)]; simp)]
  · have hptr : pointerOf z = maxFirstHeaderPointer := by
      unfold pointerOf
      rw [hb hb']
      rfl
    refine ⟨by rw [hptr]; decide, by rw [hptr]; decide, false, ?_, fun h => absurd h (by decide),
      fun h => absurd hb' h⟩
    unfold continuedLen
    rw [hptr, if_pos (by decide), hz, hfull]

theorem take_lead (z : Zone Octet) : z.flat.take z.lead.length = z.lead := List.take_left

/-- What the zones carry has octets. -/
theorem mixed_ne_nil (hx : Mixed D x) : x ≠ [] := by
  rcases hx with hp | ⟨n, h₇, -, hidle⟩
  · exact hp.ne_nil
  · have := hidle.length_eq
    exact List.ne_nil_of_length_pos (by omega)

/-- A zone of packets with nothing behind the end of an earlier one has no header. -/
theorem header_none (hw : ∀ x ∈ z.whole, x ≠ []) (hb : behind z = []) : z.header = none := by
  obtain ⟨hw', ht⟩ := List.append_eq_nil_iff.1 hb
  refine if_pos ⟨List.eq_nil_iff_forall_not_mem.2 fun x hx => ?_, ht⟩
  exact hw x hx (List.flatten_eq_nil_iff.1 hw' x hx)

/-- A zone in which packets start only. -/
theorem takes_start (ch : Channel) (count : ℕ) (h₀ : 0 < D) (hD : D ≤ 2046) (hz : z.flat.length = D) (hl : z.lead = [])
    (hord : Orderly D z) (ht : Opening D z.trail) (hs : AtHand D s []) :
    Judged (assemblePacket ch s (frame ch count (pointerOf z) z.flat)) (Uncut z)
      (encaps z.whole) fun s' => AtHand D s' z.trail := by
  have hb : behind z ≠ [] := by
    intro hb
    rw [flat_length, hl, hb] at hz
    simp only [List.length_nil] at hz
    omega
  have hptr : pointerOf z = 0 := by rw [pointerOf_behind hb, hl]; rfl
  cases hp : s.packet with
  | none =>
    rw [assemblePacket_zone hD hz]
    have h := loop_orderly hz hD hs.multi hp hord ht (2 * D + 1) (by omega)
    rw [hl] at h
    exact h
  | some c =>
    -- an idle packet ended the frame ahead
    obtain ⟨hst, -⟩ := hs.idle rfl c hp
    have hpass : s.pass z.flat (pointerOf z) 0 = .ok (s.dropPacket, [], z.lead.length, true) := by
      rw [hl]
      exact pass_drop hp hst (onlyIdleData_lt (by omega)) (by rw [hptr]; rfl)
    exact judged_of_pass h₀ hD hz hord ht ch count hpass rfl hs.multi rfl

/-- A zone that the end of a packet is in. -/
theorem takes_end (ch : Channel) (count : ℕ) (h₀ : 0 < D) (hD : D ≤ 2046) (hz : z.flat.length = D) (ha : a ≠ [])
    (hl : z.lead ≠ []) (hord : Orderly D z) (hw : ∀ x ∈ z.whole, x ≠ []) (ht : Opening D z.trail)
    (hs : AtHand D s a) (hx : Mixed D (a ++ z.lead)) :
    Judged (assemblePacket ch s (frame ch count (pointerOf z) z.flat)) (Uncut z)
      (encaps [a ++ z.lead] ++ encaps z.whole) fun s' => AtHand D s' z.trail := by
  obtain ⟨c, hc⟩ := Option.ne_none_iff_exists'.1 (hs.some_of ha)
  have hlen := flat_length z
  obtain ⟨h0, honly, tail, hcont, htail⟩ := continuedLen_lead hD hz hl (header_none hw)
  rcases hx with hp | ⟨n, h₇, hn, hidle⟩
  · -- the packet is complete
    have hv : isEncap a = true := by rw [← isEncap_append ha z.lead]; exact hp.version
    obtain ⟨c', -, hpass⟩ := pass_extend (r := []) hc (hs.encap hv c hc) ha
      (by rw [List.append_nil]; exact hp) honly h0 hcont (by omega) (take_lead z) (Or.inl rfl)
    rw [if_pos rfl] at hpass
    have hall : encaps [a ++ z.lead] = [a ++ z.lead] := Gen.encaps_all (by simpa using hp)
    rw [hall]
    exact judged_of_pass h₀ hD hz hord ht ch count hpass hs.multi hs.multi rfl
  · -- the end of an idle packet is dropped with its start
    have hv : isEncap a = false := by
      rw [← isEncap_append ha z.lead]
      exact isEncap_idle hidle
    obtain ⟨hst, htotal⟩ := hs.idle hv c hc
    have hsum := hidle.length_eq
    have hapos := List.length_pos_iff.2 ha
    rw [List.length_append] at hsum
    have hb : behind z ≠ [] := by
      intro hb
      rw [hb, List.length_nil] at hlen
      omega
    obtain rfl := htail.2 hb
    have hpass := pass_dropped hc hs.multi hst honly h0 hcont (by omega)
      (by unfold maxLength; omega)
    have hnone : encaps [a ++ z.lead] = [] := Gen.encaps_none (by simpa using isEncap_idle hidle)
    rw [hnone]
    exact judged_of_pass h₀ hD hz hord ht ch count hpass rfl hs.multi rfl

/-- A zone full of a packet that goes on. -/
theorem takes_middle (ch : Channel) (count : ℕ) (h14 : 14 ≤ D) (hD : D ≤ 2046) {lead : Bytes}
    (hlead : lead.length = D) (ha : a ≠ []) (hr : r ≠ []) (hs : s.packet ≠ none)
    (hh : ∀ c, s.packet = some c → Holds c a) (hp : EncPacket (a ++ lead ++ r)) :
    ∃ c', Holds c' (a ++ lead) ∧
      assemblePacket ch s (frame ch count (pointerOf (ending lead)) (ending lead).flat) =
        .ok ({ s with packet := some c' }, []) := by
  obtain ⟨c, hc⟩ := Option.ne_none_iff_exists'.1 hs
  have hflat : (ending lead).flat = lead := by simp [Zone.flat]
  have hptr : pointerOf (ending lead) = maxFirstHeaderPointer := rfl
  have hcont : continuedLen lead maxFirstHeaderPointer = (lead.length, false) := if_pos (by decide)
  obtain ⟨c', hc', hpass⟩ := pass_extend hc (hh c hc) ha hp (by decide) (by decide) hcont le_rfl
    List.take_length (Or.inr fun first _ => by
      have := Encap.headerOctets_le first
      rw [List.length_append]
      omega)
  rw [if_neg hr, if_neg Bool.false_ne_true] at hpass
  refine ⟨c', hc', ?_⟩
  rw [assemblePacket_zone hD (by rw [hflat, hlead]), hptr, hflat]
  by_cases hm : s.multiDataField = false
  · exact loop_stop (by omega) hpass hm
  · have hmore : s.multiDataField = true := by simpa using hm
    have hgo : s.pass lead maxFirstHeaderPointer 0 =
        .ok ({ s with packet := some c' }, [], lead.length, true) := by rw [hpass, hmore]
    exact loop_next (by omega) hgo (loop_done le_rfl _)

variable {zs ws : List (Zone Octet)} {items its : List Bytes}

theorem opening_of_carries (h : Carries x zs items []) (hi : ∀ y ∈ items, Mixed D y) :
    Opening D x := by
  intro hx
  obtain ⟨r, rest, hr, hitems⟩ := h.exists_rest hx rfl
  exact ⟨r, hr, hi _ (by rw [hitems]; exact List.mem_cons_self)⟩

/-- A packet that goes on over a whole frame is no idle packet. -/
theorem encap_of_long (hx : Mixed D x) (hlong : D < x.length) : EncPacket x := by
  rcases hx with hp | ⟨n, -, hn, hidle⟩
  · exact hp
  · have := hidle.length_eq
    omega

/-- **Over all zones, with multi-packet data fields.** -/
theorem receive_mixed (ch : Channel) (h14 : 14 ≤ D) (hD : D ≤ 2046) {b : Bytes}
    (h : Carries a zs items b) :
    ∀ {s : Rcv} (count : ℕ), Carries b ws its [] → AtHand D s a →
      (∀ z ∈ zs, z.flat.length = D) → (∀ z ∈ zs, Orderly D z) → (∀ x ∈ items ++ its, Mixed D x) →
        Judged (runAll (assemblePacket ch) s (Gen.zoneFrames ch count zs)) (∀ z ∈ zs, Uncut z)
          (encaps items) fun s' => AtHand D s' b := by
  induction h with
  | nil a =>
    intro s count _ hs _ _ _
    exact .of_ok (by simp) (runAll_nil s) hs
  | @mid a lead zs items b ha hl h ih =>
    intro s count hb hs hfull hord hi
    obtain ⟨r, rest, hr, hitems⟩ := (h.append hb).exists_rest (by simp [ha]) rfl
    have hlen : lead.length = D := by
      have := hfull ⟨lead, [], []⟩ List.mem_cons_self
      simpa [Zone.flat] using this
    have hpos := List.length_pos_iff.2 ha
    have hp : EncPacket (a ++ lead ++ r) := by
      refine encap_of_long (hi _ (by rw [hitems]; exact List.mem_cons_self)) ?_
      simp only [List.length_append]
      omega
    have hne : a ++ lead ≠ [] := by simp [ha]
    have hv : isEncap (a ++ lead) = true := by
      rw [← isEncap_append hne r]
      exact hp.version
    obtain ⟨c', hc', hpass⟩ := takes_middle ch count h14 hD hlen ha hr (hs.some_of ha)
      (hs.encap (by rw [← isEncap_append ha lead]; exact hv)) hp
    have hhand : AtHand D { s with packet := some c' } (a ++ lead) := by
      refine ⟨hs.multi, fun _ => Option.some_ne_none _, fun _ c hc => ?_, fun hf => ?_⟩
      · obtain rfl := Option.some.inj hc
        exact hc'
      · rw [hv] at hf
        cases hf
    rw [zoneFrames_cons, List.forall_mem_cons]
    exact Judged.cons (.of_ok (Gen.uncut_of_whole rfl) hpass hhand) fun s₁ hs₁ =>
      ih _ hb hs₁ (fun z hz => hfull z (List.mem_cons_of_mem _ hz))
        (fun z hz => hord z (List.mem_cons_of_mem _ hz)) hi
  | @last a lead whole trail zs items b ha hl h ih =>
    intro s count hb hs hfull hord hi
    rw [List.cons_append, List.append_assoc] at hi
    have hi' : ∀ x ∈ items ++ its, Mixed D x := fun x hx =>
      hi x (List.mem_cons_of_mem _ (List.mem_append_right _ hx))
    have htake := takes_end (z := ⟨lead, whole, trail⟩) ch count (by omega) hD
      (hfull _ List.mem_cons_self) ha hl (hord _ List.mem_cons_self)
      (fun x hx => mixed_ne_nil (hi x (List.mem_cons_of_mem _ (List.mem_append_left _ hx))))
      (opening_of_carries (h.append hb) hi') hs (hi _ List.mem_cons_self)
    have hsplit : encaps ((a ++ lead) :: (whole ++ items)) =
        encaps [a ++ lead] ++ encaps whole ++ encaps items := by
      rw [← List.singleton_append, Gen.encaps_append, Gen.encaps_append, List.append_assoc]
    rw [zoneFrames_cons, List.forall_mem_cons, hsplit]
    exact htake.cons fun s₁ hs₁ => ih _ hb hs₁ (fun z hz => hfull z (List.mem_cons_of_mem _ hz))
      (fun z hz => hord z (List.mem_cons_of_mem _ hz)) hi'
  | @first whole trail zs items b h ih =>
    intro s count hb hs hfull hord hi
    rw [List.append_assoc] at hi
    have hi' : ∀ x ∈ items ++ its, Mixed D x := fun x hx => hi x (List.mem_append_right _ hx)
    have htake := takes_start (z := ⟨[], whole, trail⟩) ch count (by omega) hD
      (hfull _ List.mem_cons_self) rfl (hord _ List.mem_cons_self)
      (opening_of_carries (h.append hb) hi') hs
    rw [zoneFrames_cons, List.forall_mem_cons, Gen.encaps_append]
    exact htake.cons fun s₁ hs₁ => ih _ hb hs₁ (fun z hz => hfull z (List.mem_cons_of_mem _ hz))
      (fun z hz => hord z (List.mem_cons_of_mem _ hz)) hi'

/-! ## One packet in a data field -/

/-- What is at hand behind the start `x` of a packet: nothing of an idle packet. -/
structure OneAtHand (s : Rcv) (x : Bytes) : Prop where
  single : s.multiDataField = false
  encap : isEncap x = true → s.packet ≠ none ∧ ∀ c, s.packet = some c → Holds c x
  idle : isEncap x = false → s.packet = none

theorem encap_of_version (hx : Mixed D x) (hv : isEncap x = true) : EncPacket x := by
  rcases hx with hp | ⟨n, -, -, hidle⟩
  · exact hp
  · rw [isEncap_idle hidle] at hv
    cases hv

/-- Nothing of what starts in the zone is an encapsulation packet. -/
theorem encaps_starts (h : encaps (starts z) = []) :
    encaps z.whole = [] ∧ isEncap z.trail = false := by
  unfold starts at h
  rw [Gen.encaps_append] at h
  obtain ⟨hw, ht⟩ := List.append_eq_nil_iff.1 h
  refine ⟨hw, ?_⟩
  by_cases htr : z.trail = []
  · rw [htr]
    rfl
  · rw [if_neg htr] at ht
    have := List.filter_eq_nil_iff.1 ht z.trail (List.mem_singleton_self _)
    simpa using this

/-- The pass over a data field that goes on with nothing at hand. -/
theorem pass_skipped (hm : s.multiDataField = false) (hn : s.packet = none) (h0 : 0 < pointer)
    (hd : data ≠ []) : ∃ idx', s.pass data pointer 0 = .ok (s, [], idx', false) := by
  obtain ⟨first, tail, hcons⟩ := List.exists_cons_of_ne_nil hd
  have hi : ((0 : ℕ) = 0 && 0 < pointer : Bool) = true := by simpa using h0
  rw [pass_fresh hn (show data.drop 0 = first :: tail from hcons)]
  unfold startNewSpacePkt startNewEncap skipContinued
  rw [hi, hm]
  simp only [if_true]
  split_ifs
  all_goals exact ⟨_, rfl⟩

/-- A zone that a packet starts. -/
theorem one_start (ch : Channel) (count : ℕ) (h14 : 14 ≤ D) (hD : D ≤ 2046)
    (hz : z.flat.length = D) (hl : z.lead = []) (halone : Alone z) (hw : ∀ x ∈ z.whole, Mixed D x)
    (ht : Opening D z.trail) (hs : OneAtHand s []) :
    ∃ s', assemblePacket ch s (frame ch count (pointerOf z) z.flat) = .ok (s', encaps z.whole) ∧
      OneAtHand s' z.trail := by
  obtain ⟨x, rest, hstarts, hv, hrest⟩ : ∃ x rest, starts z = x :: rest ∧ isEncap x = true ∧
      encaps rest = [] := by
    rcases halone with ⟨-, h⟩ | ⟨hne, -⟩
    · exact h
    · exact absurd hl hne
  have hn := hs.idle rfl
  have hb : behind z ≠ [] := by
    intro hb
    rw [flat_length, hl, hb] at hz
    simp only [List.length_nil] at hz
    omega
  have hptr : pointerOf z = 0 := by rw [pointerOf_behind hb, hl]; rfl
  have hi : ((0 : ℕ) = 0 && 0 < pointerOf z : Bool) = false := by rw [hptr]; rfl
  have honly : onlyIdleData (pointerOf z) = false := onlyIdleData_lt (by omega)
  have hlt : 0 < z.flat.length := by omega
  have hflat : z.flat.drop 0 = z.whole.flatten ++ z.trail := by
    rw [List.drop_zero, Zone.flat, hl, List.nil_append]
  rw [assemblePacket_zone hD hz]
  rcases hwh : z.whole with - | ⟨p, ps⟩
  · -- the packet goes on in the next frame
    rw [hwh, List.flatten_nil, List.nil_append] at hflat
    have htr : z.trail ≠ [] := by
      intro htr
      rw [starts, hwh, if_pos htr] at hstarts
      cases hstarts
    rw [starts, hwh, if_neg htr] at hstarts
    obtain rfl : z.trail = x := (List.cons.inj hstarts).1
    obtain ⟨r, hr, hx⟩ := ht htr
    have hp : EncPacket (z.trail ++ r) := encap_of_version hx (by rw [isEncap_append htr, hv])
    obtain ⟨idx', more, hpass, hmore⟩ := pass_open hp htr hr hn hi honly hflat
    have hhand : OneAtHand { s with packet := some ⟨z.trail, []⟩ } z.trail := by
      refine ⟨hs.single, fun _ => ⟨Option.some_ne_none _, fun c hc => ?_⟩, fun hf => ?_⟩
      · obtain rfl := Option.some.inj hc
        exact ⟨List.append_nil _, htr, fun _ _ _ => rfl⟩
      · rw [hv] at hf
        cases hf
    refine ⟨_, ?_, hhand⟩
    cases more with
    | false => exact loop_stop hlt hpass rfl
    | true => exact loop_next hlt hpass (loop_done (hmore rfl).ge _)
  · -- it lies in the zone, and the rest of the zone is not read
    have hstarts' : p :: (ps ++ if z.trail = [] then [] else [z.trail]) = x :: rest := by
      rw [← hstarts, starts, hwh]
      rfl
    obtain ⟨rfl, hps⟩ := List.cons.inj hstarts'
    rw [← hps] at hrest
    obtain ⟨hnone, htrail⟩ := encaps_starts (z := ⟨[], ps, z.trail⟩) hrest
    have hp : EncPacket p := encap_of_version (hw p (by rw [hwh]; exact List.mem_cons_self)) hv
    rw [hwh, List.flatten_cons, List.append_assoc] at hflat
    have hpass := pass_whole hp hn hi honly hflat
    have hout : encaps (p :: ps) = [p] := by
      rw [← List.singleton_append, Gen.encaps_append, show encaps ps = [] from hnone,
        Gen.encaps_all (by simpa using hp), List.append_nil]
    rw [hout]
    refine ⟨s, loop_stop hlt hpass hs.single, hs.single, fun hf => ?_, fun _ => hn⟩
    rw [show isEncap z.trail = false from htrail] at hf
    cases hf

/-- A zone that the end of a packet is in. -/
theorem one_end (ch : Channel) (count : ℕ) (h14 : 14 ≤ D) (hD : D ≤ 2046)
    (hz : z.flat.length = D) (ha : a ≠ []) (hl : z.lead ≠ []) (halone : Alone z)
    (hw : ∀ x ∈ z.whole, x ≠ []) (hs : OneAtHand s a) (hx : Mixed D (a ++ z.lead)) :
    ∃ s', assemblePacket ch s (frame ch count (pointerOf z) z.flat) =
        .ok (s', encaps [a ++ z.lead] ++ encaps z.whole) ∧ OneAtHand s' z.trail := by
  obtain ⟨hnone, htrail⟩ : encaps z.whole = [] ∧ isEncap z.trail = false := by
    rcases halone with ⟨h, -⟩ | ⟨-, h⟩
    · exact absurd h hl
    · exact encaps_starts h
  have hlen := flat_length z
  have hlt : 0 < z.flat.length := by omega
  obtain ⟨h0, honly, tail, hcont, -⟩ := continuedLen_lead hD hz hl (header_none hw)
  have hhand : ∀ s' : Rcv, s'.multiDataField = false → s'.packet = none → OneAtHand s' z.trail := by
    intro s' hm hn
    refine ⟨hm, fun hf => ?_, fun _ => hn⟩
    rw [htrail] at hf
    cases hf
  rw [assemblePacket_zone hD hz, hnone, List.append_nil]
  cases hv : isEncap (a ++ z.lead) with
  | true =>
    have hp := encap_of_version hx hv
    obtain ⟨hsome, hholds⟩ := hs.encap (by rw [← isEncap_append ha z.lead]; exact hv)
    obtain ⟨c, hc⟩ := Option.ne_none_iff_exists'.1 hsome
    obtain ⟨c', -, hpass⟩ := pass_extend (r := []) hc (hholds c hc) ha
      (by rw [List.append_nil]; exact hp) honly h0 hcont (by omega) (take_lead z) (Or.inl rfl)
    rw [if_pos rfl] at hpass
    have hall : encaps [a ++ z.lead] = [a ++ z.lead] := Gen.encaps_all (by simpa using hp)
    rw [hall]
    exact ⟨{ s with packet := none }, loop_stop hlt hpass hs.single, hhand _ hs.single rfl⟩
  | false =>
    -- nothing of an idle packet is at hand
    have hn := hs.idle (by rw [← isEncap_append ha z.lead]; exact hv)
    obtain ⟨idx', hpass⟩ := pass_skipped hs.single hn h0
      (List.length_pos_iff.1 hlt)
    have hout : encaps [a ++ z.lead] = [] := Gen.encaps_none (by simpa using hv)
    rw [hout]
    exact ⟨s, loop_stop hlt hpass rfl, hhand s hs.single hn⟩

/-- **Over all zones, without multi-packet data fields.** -/
theorem receive_alone (ch : Channel) (h14 : 14 ≤ D) (hD : D ≤ 2046) {b : Bytes}
    (h : Carries a zs items b) :
    ∀ {s : Rcv} (count : ℕ), Carries b ws its [] → OneAtHand s a →
      (∀ z ∈ zs, z.flat.length = D) → (∀ z ∈ zs, Alone z) → (∀ x ∈ items ++ its, Mixed D x) →
        ∃ s', runAll (assemblePacket ch) s (Gen.zoneFrames ch count zs) = .ok (s', encaps items) ∧
          OneAtHand s' b := by
  induction h with
  | nil a =>
    intro s count _ hs _ _ _
    exact ⟨s, runAll_nil s, hs⟩
  | @mid a lead zs items b ha hl h ih =>
    intro s count hb hs hfull halone hi
    obtain ⟨r, rest, hr, hitems⟩ := (h.append hb).exists_rest (by simp [ha]) rfl
    have hlen : lead.length = D := by
      have := hfull ⟨lead, [], []⟩ List.mem_cons_self
      simpa [Zone.flat] using this
    have hpos := List.length_pos_iff.2 ha
    have hp : EncPacket (a ++ lead ++ r) := by
      refine encap_of_long (hi _ (by rw [hitems]; exact List.mem_cons_self)) ?_
      simp only [List.length_append]
      omega
    have hne : a ++ lead ≠ [] := by simp [ha]
    have hv : isEncap (a ++ lead) = true := by
      rw [← isEncap_append hne r]
      exact hp.version
    obtain ⟨hsome, hholds⟩ := hs.encap (by rw [← isEncap_append ha lead]; exact hv)
    obtain ⟨c', hc', hpass⟩ := takes_middle ch count h14 hD hlen ha hr hsome hholds hp
    have hhand : OneAtHand { s with packet := some c' } (a ++ lead) := by
      refine ⟨hs.single, fun _ => ⟨Option.some_ne_none _, fun c hc => ?_⟩, fun hf => ?_⟩
      · obtain rfl := Option.some.inj hc
        exact hc'
      · rw [hv] at hf
        cases hf
    obtain ⟨s₂, hrun, hs₂⟩ := ih (Gen.incFrameNumber count) hb hhand (fun z hz => hfull z (List.mem_cons_of_mem _ hz))
      (fun z hz => halone z (List.mem_cons_of_mem _ hz)) hi
    exact ⟨s₂, runAll_cons hpass hrun, hs₂⟩
  | @last a lead whole trail zs items b ha hl h ih =>
    intro s count hb hs hfull halone hi
    rw [List.cons_append, List.append_assoc] at hi
    have hi' : ∀ x ∈ items ++ its, Mixed D x := fun x hx =>
      hi x (List.mem_cons_of_mem _ (List.mem_append_right _ hx))
    obtain ⟨s₁, hpass, hs₁⟩ := one_end (z := ⟨lead, whole, trail⟩) ch count h14 hD
      (hfull _ List.mem_cons_self) ha hl (halone _ List.mem_cons_self)
      (fun x hx => mixed_ne_nil (hi x (List.mem_cons_of_mem _ (List.mem_append_left _ hx)))) hs
      (hi _ List.mem_cons_self)
    obtain ⟨s₂, hrun, hs₂⟩ := ih (Gen.incFrameNumber count) hb hs₁ (fun z hz => hfull z (List.mem_cons_of_mem _ hz))
      (fun z hz => halone z (List.mem_cons_of_mem _ hz)) hi'
    have hsplit : encaps ((a ++ lead) :: (whole ++ items)) =
        encaps [a ++ lead] ++ encaps whole ++ encaps items := by
      rw [← List.singleton_append, Gen.encaps_append, Gen.encaps_append, List.append_assoc]
    rw [hsplit]
    exact ⟨s₂, runAll_cons hpass hrun, hs₂⟩
  | @first whole trail zs items b h ih =>
    intro s count hb hs hfull halone hi
    rw [List.append_assoc] at hi
    have hi' : ∀ x ∈ items ++ its, Mixed D x := fun x hx => hi x (List.mem_append_right _ hx)
    obtain ⟨s₁, hpass, hs₁⟩ := one_start (z := ⟨[], whole, trail⟩) ch count h14 hD
      (hfull _ List.mem_cons_self) rfl (halone _ List.mem_cons_self)
      (fun x hx => hi x (List.mem_append_left _ hx)) (opening_of_carries (h.append hb) hi') hs
    obtain ⟨s₂, hrun, hs₂⟩ := ih (Gen.incFrameNumber count) hb hs₁ (fun z hz => hfull z (List.mem_cons_of_mem _ hz))
      (fun z hz => halone z (List.mem_cons_of_mem _ hz)) hi'
    rw [Gen.encaps_append]
    exact ⟨s₂, runAll_cons hpass hrun, hs₂⟩

end Rcv

end ChannelEmulator.TM
