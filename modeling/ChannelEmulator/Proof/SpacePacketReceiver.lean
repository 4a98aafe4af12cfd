import ChannelEmulator.Proof.MpduReceiver
import ChannelEmulator.Proof.SpacePacketSender

/-!
# What the receiver takes for a space packet

The head of a packet is put in a new `SpacePacket`, whose constructor sets the Packet Data
Length to `bufLen - 7`, which for the six octets of a primary header is `0xffff`.

* `Started`: a packet at hand, which waits for 65542 octets whatever its length.
* `pass_start`, `pass_cut`, `pass_continued`, `pass_drop`: the passes of the loop.
* `sent_length`: **no space packet of another length is ever sent**, from whatever frames.
* `receive_run`: **the packets of the zones are delivered** just when no header is cut.
-/

namespace ChannelEmulator.TM

open Framing
open Gen (Big Idle Item Neat packets)

namespace SpacePacketHead

/-- The head of a packet, from its first six octets. -/
theorem new_six {u : Bytes} (h : u.length = 6) :
    SpacePacket.new u = .ok (u.take 4 ++ [0xff, 0xff]) := by
  unfold SpacePacket.new SpacePacket.setPktDataLen overwrite
  rw [if_neg (by omega), if_neg (by omega), h]
  have hd : u.drop (4 + (fromU16 ((6 + 2 ^ 32 - 7) % 2 ^ 16)).length) = [] :=
    List.drop_eq_nil_of_le (by rw [fromU16, h]; decide)
  rw [hd, List.append_nil]
  rfl

/-- Fewer octets are written over behind their end. -/
theorem new_short {u : Bytes} (h₀ : u ≠ []) (h : u.length < 6) :
    SpacePacket.new u = .error .outOfBounds := by
  unfold SpacePacket.new SpacePacket.setPktDataLen
  rw [if_neg (by simpa using h₀), if_pos h]

theorem expectedLength_ff {u : Bytes} (h : u.length = 4) (t : Bytes) :
    SpacePacket.expectedLength (u ++ [0xff, 0xff] ++ t) = .ok maxLength := by
  unfold SpacePacket.expectedLength SpacePacket.getPktDataLen
  rw [List.append_assoc, List.drop_left' h]
  rfl

end SpacePacketHead

/-- A packet at hand: of version 0, and waiting for the greatest length. -/
structure Started (c : Chain) : Prop where
  head_le : 6 ≤ c.head.length
  first : ∃ b t, c.head = b :: t ∧ getPVN b = pvnSpacePacket
  expected : SpacePacket.expectedLength c.head = .ok maxLength

namespace Started

variable {c : Chain}

theorem octetAt_zero (h : Started c) : ∃ b, octetAt c.head 0 = .ok b ∧ getPVN b = pvnSpacePacket := by
  obtain ⟨b, t, hb, hv⟩ := h.first
  exact ⟨b, by rw [hb]; rfl, hv⟩

theorem addPart (h : Started c) (part : Bytes) : Started (c.addPart part) :=
  ⟨h.head_le, h.first, h.expected⟩

theorem hasAllParts (h : Started c) :
    c.hasAllParts SpacePacket.expectedLength = .ok (c.totalLength == maxLength) := by
  have := h.head_le
  unfold Chain.hasAllParts
  rw [if_neg (by omega), h.expected]
  rfl

/-- The head of a packet is in its first six octets. -/
theorem of_six {u : Bytes} {b : Octet} {t : Bytes} (hu : u = b :: t) (h : 6 ≤ u.length)
    (hv : getPVN b = pvnSpacePacket) (rest : Bytes) :
    Started ⟨u.take 4 ++ [0xff, 0xff] ++ rest, []⟩ := by
  refine ⟨?_, ⟨b, ?_⟩, SpacePacketHead.expectedLength_ff (List.length_take_of_le (by omega)) rest⟩
  · simp only [List.length_append, List.length_take, List.length_cons, List.length_nil]
    omega
  · subst hu
    exact ⟨_, rfl, hv⟩

end Started

namespace Rcv

variable {s s' s₁ s₂ : Rcv} {data : Bytes} {pointer idx : ℕ}

theorem sizeSub_eq {a b : ℕ} (h : b ≤ a) (ha : a < 2 ^ 32) : sizeSub a b = a - b := by
  unfold sizeSub
  rw [show a + 2 ^ 64 - b = (a - b) + 2 ^ 64 by omega, Nat.add_mod_right]
  exact Nat.mod_eq_of_lt (by omega)

theorem loop_done (h : data.length ≤ idx) (fuel : ℕ) :
    loop fuel s data pointer idx = .ok (s, []) := by
  cases fuel with
  | zero => rw [loop, if_neg (by omega)]
  | succ fuel => rw [loop, if_neg (by omega)]

theorem loop_next {idx' fuel : ℕ} {sent sent' : List Bytes} (h : idx < data.length)
    (hs : s.pass data pointer idx = .ok (s₁, sent, idx', true))
    (hl : loop fuel s₁ data pointer idx' = .ok (s₂, sent')) :
    loop (fuel + 1) s data pointer idx = .ok (s₂, sent ++ sent') := by
  rw [loop, if_pos h, hs]
  simp only [bind, Except.bind, if_true, hl, pure, Except.pure]

theorem loop_error {fuel : ℕ} {e : Fault} (h : idx < data.length)
    (hs : s.pass data pointer idx = .error e) :
    loop (fuel + 1) s data pointer idx = .error e := by
  rw [loop, if_pos h, hs]
  rfl

theorem loop_next_error {idx' fuel : ℕ} {sent : List Bytes} {e : Fault} (h : idx < data.length)
    (hs : s.pass data pointer idx = .ok (s₁, sent, idx', true))
    (hl : loop fuel s₁ data pointer idx' = .error e) :
    loop (fuel + 1) s data pointer idx = .error e := by
  rw [loop, if_pos h, hs]
  simp only [bind, Except.bind, if_true, hl]

/-- What a packet starts with. -/
def mark (u : Bytes) : Bytes := u.take 4 ++ [0xff, 0xff] ++ u.drop 6

theorem mark_length {u : Bytes} (h : 6 ≤ u.length) : (mark u).length = u.length := by
  unfold mark
  simp only [List.length_append, List.length_take, List.length_drop, List.length_cons,
    List.length_nil]
  omega

/-! ## The passes -/

/-- The pass over the start of a packet whose header is there. -/
theorem pass_start {u : Bytes} {b : Octet} {t : Bytes} (hn : s.packet = none)
    (hm : s.multiDataField = true) (hi : (idx = 0 && 0 < pointer) = false) (hd : data.drop idx = u) (hu : u = b :: t)
    (hv : getPVN b = pvnSpacePacket) (h₆ : 6 ≤ u.length) (hlen : u.length < maxLength)
    (honly : onlyIdleData pointer = false) :
    ∃ c, Started c ∧ c.flatten = mark u ∧
      s.pass data pointer idx =
        .ok ({ s with packet := some c }, [], data.length, true) := by
  have hst : Started ⟨u.take 4 ++ [0xff, 0xff] ++ u.drop 6, []⟩ := Started.of_six hu h₆ hv _
  have hflat : (⟨u.take 4 ++ [0xff, 0xff] ++ u.drop 6, []⟩ : Chain).flatten = mark u := by
    simp [Chain.flatten, mark]
  have htotal : (⟨u.take 4 ++ [0xff, 0xff] ++ u.drop 6, []⟩ : Chain).totalLength = u.length := by
    rw [Chain.totalLength_eq, hflat, mark_length h₆]
  have hsub : data.length - idx = u.length := by rw [← hd, List.length_drop]
  refine ⟨_, hst, hflat, ?_⟩
  unfold pass assembleSpacePkt startNewSpacePkt
  rw [hn]
  simp only [octetAt_of_drop (hd.trans hu), bind, Except.bind, hv, if_true, honly,
    Bool.false_eq_true, if_false, hi, hsub, hd]
  rw [if_neg (by unfold SpacePacket.minBytesToDetermineLength; omega)]
  have hnew : SpacePacket.new (u.take SpacePacket.minBytesToDetermineLength) =
      .ok (u.take 4 ++ [0xff, 0xff]) := by
    have h := SpacePacketHead.new_six (u := u.take 6) (List.length_take_of_le h₆)
    rwa [List.take_take] at h
  have hexp : SpacePacket.expectedLength (u.take 4 ++ [0xff, 0xff]) = .ok maxLength := by
    have h := SpacePacketHead.expectedLength_ff (u := u.take 4) (List.length_take_of_le (by omega)) []
    rwa [List.append_nil] at h
  have hall : (data.drop (idx + SpacePacket.minBytesToDetermineLength)).take
      (u.length - SpacePacket.minBytesToDetermineLength) = u.drop 6 := by
    rw [← List.drop_drop, hd, SpacePacket.minBytesToDetermineLength]
    exact List.take_of_length_le (by rw [List.length_drop])
  have hge : sizeSub maxLength SpacePacket.minBytesToDetermineLength ≥
      u.length - SpacePacket.minBytesToDetermineLength := by
    rw [sizeSub_eq (by decide) (by decide)]
    unfold SpacePacket.minBytesToDetermineLength
    omega
  have hidx : idx + SpacePacket.minBytesToDetermineLength +
      (u.length - SpacePacket.minBytesToDetermineLength) = data.length := by
    unfold SpacePacket.minBytesToDetermineLength
    omega
  have hpart : Chain.append ⟨u.take 4 ++ [0xff, 0xff], []⟩ (u.drop 6) =
      ⟨u.take 4 ++ [0xff, 0xff] ++ u.drop 6, []⟩ := rfl
  have hfew : (u.length == maxLength) = false := by
    simpa using hlen.ne
  simp only [hnew, hexp, if_pos hge, hall, hpart, hst.hasAllParts, htotal, hfew, hidx, pure,
    Except.pure, Bool.false_eq_true, if_false, hm]

/-- The pass over the start of a packet whose header is cut. -/
theorem pass_cut {u : Bytes} {b : Octet} {t : Bytes} (hn : s.packet = none)
    (hi : (idx = 0 && 0 < pointer) = false) (hd : data.drop idx = u) (hu : u = b :: t)
    (hv : getPVN b = pvnSpacePacket) (h₆ : u.length < 6) (honly : onlyIdleData pointer = false) :
    s.pass data pointer idx = .error .outOfBounds := by
  have hsub : data.length - idx = u.length := by rw [← hd, List.length_drop]
  unfold pass assembleSpacePkt startNewSpacePkt
  rw [hn]
  simp only [octetAt_of_drop (hd.trans hu), bind, Except.bind, hv, if_true, honly,
    Bool.false_eq_true, if_false, hi, hsub, hd]
  rw [if_pos (by unfold SpacePacket.minBytesToDetermineLength; omega), List.take_of_length_le le_rfl,
    SpacePacketHead.new_short (by rw [hu]; simp) h₆]

/-- A packet at hand that the frame does not continue is dropped. -/
theorem pass_drop {c : Chain} (hs : s.packet = some c) (hc : Started c)
    (honly : onlyIdleData pointer = false) (hi : (idx = 0 && 0 < pointer) = false) :
    s.pass data pointer idx = .ok (s.dropPacket, [], idx, true) := by
  obtain ⟨b, hb, hv⟩ := hc.octetAt_zero
  unfold pass assembleSpacePkt continueSpacePkt continuePkt
  rw [hs]
  simp only [hb, bind, Except.bind, hv, if_true, honly, Bool.false_eq_true, if_false, hi]

variable {c : Chain}

/-- A packet at hand that is complete. -/
theorem pass_complete (hs : s.packet = some c) (hm : s.multiDataField = true) (hc : Started c)
    (honly : onlyIdleData pointer = false) (hp : 0 < pointer) {n : ℕ} {tail idle : Bool}
    (hn : continuedLen data pointer = (n, tail)) (hle : n ≤ data.length)
    (htotal : (c.flatten ++ data.take n).length = maxLength)
    (hidle : SpacePacket.isIdle (c.flatten ++ data.take n) = .ok idle) :
    s.pass data pointer 0 = .ok ({ s with packet := none },
      if idle then [] else [c.flatten ++ data.take n], n, true) := by
  obtain ⟨b, hb, hv⟩ := hc.octetAt_zero
  have hext : extendPacket c SpacePacket.minBytesToDetermineLength (data.take n) =
      c.addPart (data.take n) := if_pos hc.head_le
  have hfull : ((c.addPart (data.take n)).totalLength == maxLength) = true := by
    rw [Chain.totalLength_eq, Chain.flatten_addPart, htotal]
    rfl
  unfold pass assembleSpacePkt continueSpacePkt continuePkt
  rw [hs]
  simp only [hb, bind, Except.bind, hv, if_true, honly, Bool.false_eq_true, if_false, hp,
    decide_true, Bool.and_self, hn, Nat.not_lt.2 hle, hext, (hc.addPart _).hasAllParts, hfull,
    Nat.zero_add]
  unfold finishSpacePkt
  rw [Chain.flatten_addPart, hidle]
  cases idle <;> simp [bind, Except.bind, pure, Except.pure, hm]

/-- A packet at hand that ends in the frame, but short of its length. -/
theorem pass_dropped (hs : s.packet = some c) (hm : s.multiDataField = true) (hc : Started c)
    (honly : onlyIdleData pointer = false) (hp : 0 < pointer) {n : ℕ}
    (hn : continuedLen data pointer = (n, true)) (hle : n ≤ data.length)
    (htotal : c.totalLength + n < maxLength) :
    s.pass data pointer 0 = .ok (s.dropPacket, [], n, true) := by
  obtain ⟨b, hb, hv⟩ := hc.octetAt_zero
  have hext : extendPacket c SpacePacket.minBytesToDetermineLength (data.take n) =
      c.addPart (data.take n) := if_pos hc.head_le
  have hfew : ((c.addPart (data.take n)).totalLength == maxLength) = false := by
    rw [Chain.totalLength_eq, Chain.flatten_addPart, List.length_append, ← Chain.totalLength_eq,
      List.length_take_of_le hle]
    simpa using htotal.ne
  unfold pass assembleSpacePkt continueSpacePkt continuePkt
  rw [hs]
  simp only [hb, bind, Except.bind, hv, if_true, honly, Bool.false_eq_true, if_false, hp,
    decide_true, Bool.and_self, hn, Nat.not_lt.2 hle, hext, (hc.addPart _).hasAllParts, hfew,
    Nat.zero_add, pure, Except.pure, hm]

/-- A packet at hand that goes on behind the frame. -/
theorem pass_waits (hs : s.packet = some c) (hm : s.multiDataField = true) (hc : Started c)
    (honly : onlyIdleData pointer = false) (hp : 0 < pointer)
    (hn : noPacketStart pointer = true) (htotal : c.totalLength + data.length < maxLength) :
    s.pass data pointer 0 = .ok ({ s with packet := some (c.addPart data) }, [], data.length,
      true) := by
  obtain ⟨b, hb, hv⟩ := hc.octetAt_zero
  have hc' := hc.addPart data
  have hext : extendPacket c SpacePacket.minBytesToDetermineLength data = c.addPart data :=
    if_pos hc.head_le
  have hlen : (c.addPart data).totalLength = c.totalLength + data.length := by
    rw [Chain.totalLength_eq, Chain.flatten_addPart, List.length_append, ← Chain.totalLength_eq]
  have hfew : (c.totalLength + data.length == maxLength) = false := by simpa using htotal.ne
  have hcont : continuedLen data pointer = (data.length, false) := if_pos hn
  unfold pass assembleSpacePkt continueSpacePkt continuePkt
  rw [hs]
  simp only [hb, bind, Except.bind, hv, if_true, honly, Bool.false_eq_true, if_false, hp,
    decide_true, Bool.and_self, hcont, Nat.lt_irrefl, hext, List.take_length, hc'.hasAllParts, hlen,
    hfew, Nat.zero_add, ge_iff_le, hc'.expected]
  rw [if_pos (by exact hc'.head_le), if_neg (by omega), hm]
  rfl

/-! ## Zones -/

/-- The first header pointer of a zone's frame. -/
def pointerOf (z : Zone Octet) : ℕ := z.header.getD maxFirstHeaderPointer

/-- What lies behind the end of an earlier packet. -/
def behind (z : Zone Octet) : Bytes := z.whole.flatten ++ z.trail

variable {D : ℕ} {z : Zone Octet} {ch : Channel} {count : ℕ}

theorem flat_length (z : Zone Octet) : z.flat.length = z.lead.length + (behind z).length := by
  unfold Zone.flat behind
  rw [List.length_append]

/-- A zone that something starts in has a header. -/
theorem header_of_behind (h : behind z ≠ []) : z.header = some z.lead.length := by
  unfold Zone.header
  rw [if_neg]
  rintro ⟨hw, ht⟩
  exact h (by rw [behind, hw, ht]; rfl)

theorem pointerOf_behind (h : behind z ≠ []) : pointerOf z = z.lead.length := by
  unfold pointerOf
  rw [header_of_behind h]
  rfl

/-- What the receiver reads of the frame of a zone. -/
theorem assemblePacket_zone (hD : D ≤ 2046) (hz : z.flat.length = D) :
    assemblePacket ch s (frame ch count (pointerOf z) z.flat) =
      loop (2 * D + 1) s z.flat (pointerOf z) 0 := by
  have hp : pointerOf z ≤ maxFirstHeaderPointer := by
    unfold pointerOf
    cases hh : z.header with
    | none => exact le_rfl
    | some i =>
      have := (z.header_le hh).2
      rw [Option.getD_some]
      unfold maxFirstHeaderPointer
      omega
  unfold assemblePacket
  rw [getFirstHeaderPointer_frame hp]
  simp only [bind, Except.bind, data_frame, hz]

theorem onlyIdleData_lt {p : ℕ} (h : p < 2046) : onlyIdleData p = false :=
  decide_eq_false (by unfold maxFirstHeaderPointer; omega)

theorem noPacketStart_lt {p : ℕ} (h : p < 2047) : noPacketStart p = false :=
  decide_eq_false (by unfold maxFirstHeaderPointer; omega)

/-- What is at hand behind a zone in which `x` starts. -/
def After (s : Rcv) (x : Bytes) : Prop :=
  (x = [] ∧ s.packet = none) ∨
    (6 ≤ x.length ∧ ∃ c, s.packet = some c ∧ Started c ∧ c.flatten = mark x)

/-- The loop from the end of an earlier packet on. -/
theorem loop_behind (hD : D ≤ 2046) (hz : z.flat.length = D) (hn : s.packet = none)
    (hm : s.multiDataField = true)
    (hx : z.whole = [] ∧ z.trail = [] ∨ ∃ b t, behind z = b :: t ∧ getPVN b = pvnSpacePacket) (fuel : ℕ) :
    (Fits D z → ∃ s', loop (fuel + 2) s z.flat (pointerOf z) z.lead.length = .ok (s', []) ∧
      s'.multiDataField = true ∧ After s' (behind z)) ∧
    (¬ Fits D z → loop (fuel + 2) s z.flat (pointerOf z) z.lead.length = .error .outOfBounds) := by
  have hlen := flat_length z
  rcases hx with hx | ⟨b, t, hbt, hv⟩
  · have hb : behind z = [] := by
      unfold behind
      rw [hx.1, hx.2]
      rfl
    exact ⟨fun _ => ⟨s, loop_done (by rw [hlen, hb]; simp) _, hm, Or.inl ⟨hb, hn⟩⟩,
      fun hf => absurd (Gen.fits_of_header_none hx) hf⟩
  · have hb : behind z ≠ [] := by simp [hbt]
    have hpos := List.length_pos_iff.2 hb
    have hptr := pointerOf_behind hb
    have hfit : Fits D z ↔ 6 ≤ (behind z).length := by
      unfold Fits SpacePacket.minBytesToDetermineLength
      rw [header_of_behind hb]
      constructor
      · intro h
        have := h _ rfl
        omega
      · intro h i hi
        obtain rfl := Option.some.inj hi
        omega
    have hguard : (decide (z.lead.length = 0) && decide (0 < pointerOf z)) = false := by
      rw [hptr]
      by_cases h0 : z.lead.length = 0
      · simp [h0]
      · simp [h0]
    have hdrop : z.flat.drop z.lead.length = behind z := by
      unfold Zone.flat
      exact List.drop_left
    have honly : onlyIdleData (pointerOf z) = false := onlyIdleData_lt (by rw [hptr]; omega)
    constructor
    · intro hf
      obtain ⟨c, hc, hflat, hpass⟩ := pass_start hn hm hguard hdrop hbt hv (hfit.1 hf)
        (by unfold maxLength; omega) honly
      refine ⟨_, loop_next (by omega) hpass (loop_done le_rfl _), hm, Or.inr ⟨hfit.1 hf, c, rfl, hc,
        hflat⟩⟩
    · intro hf
      rw [hfit] at hf
      exact loop_error (by omega) (pass_cut hn hguard hdrop hbt hv (by omega) honly)

/-- A packet at hand that the next frame does not continue. -/
def Stale (s : Rcv) : Prop :=
  s.multiDataField = true ∧ ∀ c, s.packet = some c → Started c

/-- The start of an idle packet. -/
def Junk (D : ℕ) (s : Rcv) : Prop :=
  s.multiDataField = true ∧ ∃ c, s.packet = some c ∧ Started c ∧ c.totalLength ≤ D

/-- The start `a` of a packet. -/
def Open (s : Rcv) (a : Bytes) : Prop :=
  s.multiDataField = true ∧ ∃ c, s.packet = some c ∧ Started c ∧ c.flatten = a

/-- What a zone makes of a packet at hand: it sends `sent`, and what starts in the zone is at
hand then; or the zone is refused since the header of what starts in it is cut. -/
def Takes (D : ℕ) (ch : Channel) (count : ℕ) (s : Rcv) (z : Zone Octet) (sent : List Bytes) :
    Prop :=
  (Fits D z → ∃ s', assemblePacket ch s (frame ch count (pointerOf z) z.flat) = .ok (s', sent) ∧
    s'.multiDataField = true ∧ After s' (behind z)) ∧
  (¬ Fits D z → ∃ e, assemblePacket ch s (frame ch count (pointerOf z) z.flat) = .error e)

/-- Something starts in the zone, in version 0, or nothing does. -/
def Opens (z : Zone Octet) : Prop :=
  z.whole = [] ∧ z.trail = [] ∨ ∃ b t, behind z = b :: t ∧ getPVN b = pvnSpacePacket

/-- A first pass over the end of an earlier packet, and what comes behind. -/
theorem Takes.of_pass (h14 : 14 ≤ D) (hD : D ≤ 2046) (hz : z.flat.length = D) (hx : Opens z)
    {sent : List Bytes} (s₁ : Rcv)
    (hpass : s.pass z.flat (pointerOf z) 0 = .ok (s₁, sent, z.lead.length, true))
    (hn : s₁.packet = none) (hm : s₁.multiDataField = true) : Takes D ch count s z sent := by
  unfold Takes
  rw [assemblePacket_zone hD hz]
  obtain ⟨k, rfl⟩ : ∃ k, D = k + 1 := ⟨D - 1, by omega⟩
  obtain ⟨hfit, hcut⟩ := loop_behind hD hz hn hm hx (2 * k)
  have h0 : 0 < z.flat.length := by omega
  constructor
  · intro hf
    obtain ⟨s', hloop, hm', hafter⟩ := hfit hf
    have hrun := loop_next h0 hpass hloop
    rw [List.append_nil] at hrun
    exact ⟨s', hrun, hm', hafter⟩
  · intro hf
    exact ⟨_, loop_next_error h0 hpass (hcut hf)⟩

/-- A zone in which packets start only. -/
theorem takes_first (h14 : 14 ≤ D) (hD : D ≤ 2046) (hz : z.flat.length = D) (hl : z.lead = [])
    (hx : Opens z) (hs : Stale s) : Takes D ch count s z [] := by
  have hb : behind z ≠ [] := by
    intro hb
    rw [flat_length, hl, hb] at hz
    simp only [List.length_nil] at hz
    omega
  have hptr : pointerOf z = 0 := by rw [pointerOf_behind hb, hl]; rfl
  cases hp : s.packet with
  | none =>
    unfold Takes
    rw [assemblePacket_zone hD hz]
    obtain ⟨k, rfl⟩ : ∃ k, D = k + 1 := ⟨D - 1, by omega⟩
    obtain ⟨hfit, hcut⟩ := loop_behind hD hz hp hs.1 hx (2 * k + 1)
    rw [hl] at hfit hcut
    exact ⟨hfit, fun hf => ⟨_, hcut hf⟩⟩
  | some c =>
    refine .of_pass h14 hD hz hx s.dropPacket ?_ rfl hs.1
    rw [hl]
    exact pass_drop hp (hs.2 c hp) (onlyIdleData_lt (by omega)) (by rw [hptr]; rfl)

/-- A zone that the end of an idle packet is in. -/
theorem takes_junk (h14 : 14 ≤ D) (hD : D ≤ 2046) (hz : z.flat.length = D) (hl : z.lead ≠ [])
    (hlt : z.lead.length < D) (hx : Opens z) (hs : Junk D s) : Takes D ch count s z [] := by
  obtain ⟨hm, c, hp, hc, htotal⟩ := hs
  have hlen := flat_length z
  have hb : behind z ≠ [] := by
    intro hb
    rw [hb, List.length_nil] at hlen
    omega
  have hptr := pointerOf_behind hb
  have hpos := List.length_pos_iff.2 hl
  refine .of_pass h14 hD hz hx s.dropPacket ?_ rfl hm
  have hcont : continuedLen z.flat (pointerOf z) = (z.lead.length, true) := by
    unfold continuedLen
    rw [hptr, if_neg (by rw [noPacketStart_lt (by omega)]; simp)]
  exact pass_dropped hp hm hc (onlyIdleData_lt (by omega)) (by omega) hcont (by omega)
    (by unfold maxLength; omega)

/-- A zone that the end of a packet is in. -/
theorem takes_last (h14 : 14 ≤ D) (hD : D ≤ 2046) (hz : z.flat.length = D) {a : Bytes}
    (hl : z.lead ≠ []) (hx : Opens z) (hs : Open s a) (hbig : Big (a ++ z.lead)) :
    Takes D ch count s z [a ++ z.lead] := by
  obtain ⟨hm, c, hp, hc, rfl⟩ := hs
  have hlen := flat_length z
  have hpos := List.length_pos_iff.2 hl
  have htake : z.flat.take z.lead.length = z.lead := by
    unfold Zone.flat
    exact List.take_left
  refine .of_pass h14 hD hz hx { s with packet := none } ?_ rfl hm
  have hpass : ∀ tail, 0 < pointerOf z → onlyIdleData (pointerOf z) = false →
      continuedLen z.flat (pointerOf z) = (z.lead.length, tail) →
        s.pass z.flat (pointerOf z) 0 =
          .ok ({ s with packet := none }, [c.flatten ++ z.lead], z.lead.length, true) := by
    intro tail h0 honly hcont
    have h := pass_complete hp hm hc honly h0 hcont (by omega) (by rw [htake]; exact hbig.length_eq)
      (by rw [htake]; exact hbig.isIdle)
    rwa [htake] at h
  by_cases hb : behind z = []
  · -- the zone is full of the end of the packet
    have hnone : z.header = none := by
      rcases hx with hx | ⟨b, t, hbt, -⟩
      · exact if_pos hx
      · exact absurd hb (by simp [hbt])
    have hptr : pointerOf z = maxFirstHeaderPointer := by
      unfold pointerOf
      rw [hnone]
      rfl
    rw [hb, List.length_nil, Nat.add_zero] at hlen
    refine hpass false (by rw [hptr]; decide) (by rw [hptr]; decide) ?_
    unfold continuedLen
    rw [hptr, if_pos (by decide), hlen]
  · have hptr := pointerOf_behind hb
    have := List.length_pos_iff.2 hb
    refine hpass true (by omega) (onlyIdleData_lt (by omega)) ?_
    unfold continuedLen
    rw [hptr, if_neg (by rw [noPacketStart_lt (by omega)]; simp)]

/-- A zone full of a packet that goes on. -/
theorem takes_mid (ch : Channel) (count : ℕ) (h14 : 14 ≤ D) (hD : D ≤ 2046) {a lead : Bytes} (hlead : lead.length = D)
    (hs : Open s a) (hlt : a.length + D < maxLength) :
    ∃ s', assemblePacket ch s (frame ch count (pointerOf (ending lead)) (ending lead).flat) =
        .ok (s', []) ∧ Open s' (a ++ lead) := by
  obtain ⟨hm, c, hp, hc, rfl⟩ := hs
  have hflat : (ending lead).flat = lead := by simp [Zone.flat]
  have hptr : pointerOf (ending lead) = maxFirstHeaderPointer := rfl
  rw [assemblePacket_zone hD (by rw [hflat, hlead]), hptr, hflat]
  have hpass : s.pass lead maxFirstHeaderPointer 0 = _ := pass_waits hp hm hc (by decide)
    (by decide) (by decide) (by rw [Chain.totalLength_eq]; omega)
  refine ⟨{ s with packet := some (c.addPart lead) },
    loop_next (by omega) hpass (loop_done le_rfl _), hm, c.addPart lead, rfl, hc.addPart lead, ?_⟩
  rw [Chain.flatten_addPart]

/-! ## Packets carried in zones -/

theorem Item.first {x : Bytes} (h : Item D x) : ∃ b t, x = b :: t ∧ getPVN b = pvnSpacePacket := by
  rcases h with h | ⟨n, hn, -, h⟩
  · obtain ⟨⟨b, t, hb, hv⟩, -, -⟩ := h.wellFormed
    exact ⟨b, t, hb, hv⟩
  · obtain ⟨t, ht⟩ := List.head?_eq_some_iff.1 h.first_eq
    exact ⟨7, t, ht, by decide⟩

theorem mark_append {t r : Bytes} (h : 6 ≤ t.length) : mark (t ++ r) = mark t ++ r := by
  unfold mark
  rw [List.take_append_of_le_length (by omega), List.drop_append_of_le_length (by omega),
    List.append_assoc]
  simp only [List.append_assoc]

/-- The length field of a packet of the greatest length is the one the receiver writes. -/
theorem mark_big {p : Bytes} (h : Big p) : mark p = p := by
  have hlen := h.length_eq
  unfold maxLength at hlen
  have hexp := h.wellFormed.2.2
  obtain ⟨v, hv, hv'⟩ := bind_ok hexp
  have hv' : v + 7 = p.length := Except.ok.inj hv'
  obtain ⟨a, b, t, hd⟩ : ∃ a b t, p.drop 4 = a :: b :: t := by
    rcases hd : p.drop 4 with _ | ⟨a, _ | ⟨b, t⟩⟩
    · exact absurd (congrArg List.length hd) (by rw [List.length_drop, List.length_nil]; omega)
    · exact absurd (congrArg List.length hd) (by rw [List.length_drop, List.length_singleton]; omega)
    · exact ⟨a, b, t, rfl⟩
  unfold SpacePacket.getPktDataLen at hv
  rw [hd] at hv
  have hval : a.toNat * 256 + b.toNat = v := Except.ok.inj hv
  have ha := a.toNat_lt
  have hb := b.toNat_lt
  have ha' : a = 0xff := UInt8.toNat_inj.1 (show a.toNat = 255 by omega)
  have hb' : b = 0xff := UInt8.toNat_inj.1 (show b.toNat = 255 by omega)
  have h6 : p.drop 6 = t := by
    rw [show 6 = 4 + 2 from rfl, ← List.drop_drop, hd]
    rfl
  unfold mark
  rw [h6, List.append_assoc]
  nth_rewrite 2 [← List.take_append_drop 4 p]
  rw [hd, ha', hb']
  rfl

/-- Between zones: `a` is the start of the first of the packets to come. -/
structure Tracks (D : ℕ) (s : Rcv) (a : Bytes) (items : List Bytes) : Prop where
  stale : a = [] → Stale s
  open_of : ∀ q ∈ items.head?, a ≠ [] → Big q → Open s a
  junk_of : ∀ q ∈ items.head?, a ≠ [] → ¬ Big q → Junk D s

/-- What starts in a zone starts the packets to come. -/
theorem tracks_after {items : List Bytes} (hz : z.flat.length = D) (hneat : Neat z)
    (hm : s.multiDataField = true) (hs : After s (behind z))
    (hq : z.trail ≠ [] → ∃ r rest, items = (z.trail ++ r) :: rest) : Tracks D s z.trail items := by
  have hlen := flat_length z
  have hstarted : ∀ c, s.packet = some c → Started c := by
    intro c hc
    rcases hs with ⟨-, hn⟩ | ⟨-, c', hc', hst, -⟩
    · rw [hn] at hc
      exact absurd hc (by simp)
    · rw [hc'] at hc
      obtain rfl := Option.some.inj hc
      exact hst
  have hbehind : z.trail ≠ [] → behind z = z.trail := by
    intro ht
    rcases hneat with hw | ⟨-, ht'⟩
    · unfold behind
      rw [hw]
      rfl
    · exact absurd ht' ht
  have hopen : z.trail ≠ [] →
      6 ≤ z.trail.length ∧ ∃ c, s.packet = some c ∧ Started c ∧ c.flatten = mark z.trail := by
    intro ht
    rw [hbehind ht] at hs
    rcases hs with ⟨hx, -⟩ | hs
    · exact absurd hx ht
    · exact hs
  refine ⟨fun _ => ⟨hm, hstarted⟩, fun q hq' ht hbig => ?_, fun q hq' ht _ => ?_⟩
  · obtain ⟨h₆, c, hc, hst, hflat⟩ := hopen ht
    obtain ⟨r, rest, rfl⟩ := hq ht
    obtain rfl : z.trail ++ r = q := Option.some.inj hq'
    have hmark := mark_big hbig
    rw [mark_append h₆] at hmark
    exact ⟨hm, c, hc, hst, hflat.trans (List.append_cancel_right hmark)⟩
  · obtain ⟨h₆, c, hc, hst, hflat⟩ := hopen ht
    refine ⟨hm, c, hc, hst, ?_⟩
    rw [Chain.totalLength_eq, hflat, mark_length h₆, ← hbehind ht]
    omega

/-- What a run over zones sends, or that it is refused. -/
def Receives (D : ℕ) (ch : Channel) (count : ℕ) (s : Rcv) (zs : List (Zone Octet))
    (sent : List Bytes) : Prop :=
  ((∀ z ∈ zs, Fits D z) →
    ∃ s', runAll (assemblePacket ch) s (Gen.zoneFrames ch count zs) = .ok (s', sent)) ∧
  ((∃ z ∈ zs, ¬ Fits D z) →
    ∃ e, runAll (assemblePacket ch) s (Gen.zoneFrames ch count zs) = .error e)

variable {zs ws : List (Zone Octet)} {items its : List Bytes}

theorem zoneFrames_cons (ch : Channel) (count : ℕ) (z : Zone Octet) (zs : List (Zone Octet)) :
    Gen.zoneFrames ch count (z :: zs) =
      frame ch count (pointerOf z) z.flat :: Gen.zoneFrames ch (Gen.incFrameNumber count) zs := rfl

/-- One zone of a run. -/
theorem Receives.cons {sent' : List Bytes} (sent : List Bytes) (a : Bytes) (its : List Bytes)
    (htake : (Fits D z → ∃ s', assemblePacket ch s (frame ch count (pointerOf z) z.flat) =
        .ok (s', sent) ∧ Tracks D s' a its) ∧
      (¬ Fits D z → ∃ e, assemblePacket ch s (frame ch count (pointerOf z) z.flat) = .error e))
    (hrest : ∀ s', Tracks D s' a its →
      Receives D ch (Gen.incFrameNumber count) s' zs sent') :
    Receives D ch count s (z :: zs) (sent ++ sent') := by
  unfold Receives
  rw [zoneFrames_cons]
  constructor
  · intro hfit
    obtain ⟨s', hpass, ht⟩ := htake.1 (hfit z List.mem_cons_self)
    obtain ⟨s'', hrun⟩ := (hrest s' ht).1 fun w hw => hfit w (List.mem_cons_of_mem _ hw)
    exact ⟨s'', runAll_cons hpass hrun⟩
  · rintro ⟨w, hw, hcut⟩
    by_cases hf : Fits D z
    · obtain ⟨s', hpass, ht⟩ := htake.1 hf
      rcases List.mem_cons.1 hw with rfl | hw
      · exact absurd hf hcut
      · obtain ⟨e, he⟩ := (hrest s' ht).2 ⟨w, hw, hcut⟩
        exact ⟨e, runAll_cons_error hpass he⟩
    · obtain ⟨e, he⟩ := htake.2 hf
      exact ⟨e, runAll_error he⟩

theorem big_length {x : Bytes} (h : Item D x) (hx : D < x.length) : Big x := by
  rcases h with h | ⟨n, -, hn, h⟩
  · exact h
  · have := h.length_eq
    omega

theorem short_of_not_big {x : Bytes} (h : Item D x) (hb : ¬ Big x) : x.length ≤ D := by
  rcases h with h | ⟨n, -, hn, h⟩
  · exact absurd h hb
  · rw [h.length_eq]
    exact hn

theorem packets_big {x : Bytes} (h : Big x) : packets [x] = [x] :=
  List.filter_cons_of_pos (by simpa using h.length_eq)

theorem packets_short (hD : D ≤ 2046) {xs : List Bytes} (h : ∀ x ∈ xs, x.length ≤ D) :
    packets xs = [] := by
  refine List.filter_eq_nil_iff.2 fun x hx => ?_
  have := h x hx
  rw [decide_eq_true_eq]
  unfold maxLength
  omega

theorem whole_short (hz : z.flat.length = D) : ∀ x ∈ z.whole, x.length ≤ D := by
  intro x hx
  have hsub := (List.sublist_flatten_of_mem hx).length_le
  have hlen := flat_length z
  unfold behind at hlen
  rw [List.length_append] at hlen
  omega

/-- A zone starts with what the packets to come start with. -/
theorem opens_of_item (hneat : Neat z) (hw : ∀ x ∈ z.whole, Item D x)
    (hq : z.trail ≠ [] → ∃ r, Item D (z.trail ++ r)) : Opens z := by
  rcases hneat with hw₀ | ⟨⟨x, hx⟩, ht⟩
  · by_cases ht : z.trail = []
    · exact Or.inl ⟨hw₀, ht⟩
    · obtain ⟨r, hr⟩ := hq ht
      obtain ⟨b, t, hb, hv⟩ := Item.first hr
      obtain ⟨b', t', ht'⟩ := List.exists_cons_of_ne_nil ht
      refine Or.inr ⟨b', t', ?_, ?_⟩
      · unfold behind
        rw [hw₀, ht']
        rfl
      · rw [ht'] at hb
        obtain ⟨rfl, -⟩ := List.cons.inj hb
        exact hv
  · obtain ⟨b, t, hb, hv⟩ := Item.first (hw x (by simp [hx]))
    refine Or.inr ⟨b, t, ?_, hv⟩
    unfold behind
    rw [hx, ht, hb]
    simp

/-- What a zone and the packets to come say of each other. -/
structure ZoneItems (z : Zone Octet) (items : List Bytes) : Prop where
  opens : Opens z
  trail : z.trail ≠ [] → ∃ r rest, items = (z.trail ++ r) :: rest
  packets_eq : packets z.whole = []

theorem zone_items (hD : D ≤ 2046) (hz : z.flat.length = D) (hneat : Neat z)
    (h : Carries z.trail zs items []) (hi : ∀ x ∈ z.whole ++ items, Item D x) :
    ZoneItems z items := by
  have htrail : z.trail ≠ [] → ∃ r rest, items = (z.trail ++ r) :: rest := by
    intro ht
    obtain ⟨r, rest, -, hitems⟩ := h.exists_rest ht rfl
    exact ⟨r, rest, hitems⟩
  refine ⟨opens_of_item hneat (fun x hx => hi x (List.mem_append_left _ hx)) fun ht => ?_, htrail,
    packets_short hD (whole_short hz)⟩
  obtain ⟨r, rest, hitems⟩ := htrail ht
  exact ⟨r, hi _ (List.mem_append_right _ (by rw [hitems]; exact List.mem_cons_self))⟩

theorem Takes.tracks {sent : List Bytes} (h : Takes D ch count s z sent) (hz : z.flat.length = D)
    (hneat : Neat z) (ht : z.trail ≠ [] → ∃ r rest, items = (z.trail ++ r) :: rest) :
    (Fits D z → ∃ s', assemblePacket ch s (frame ch count (pointerOf z) z.flat) = .ok (s', sent) ∧
      Tracks D s' z.trail items) ∧
    (¬ Fits D z → ∃ e, assemblePacket ch s (frame ch count (pointerOf z) z.flat) = .error e) := by
  refine ⟨fun hf => ?_, h.2⟩
  obtain ⟨s', hpass, hm, hafter⟩ := h.1 hf
  exact ⟨s', hpass, tracks_after hz hneat hm hafter ht⟩

/-- **The packets the zones carry are delivered**, if the headers of all that start in them
lie in one zone; otherwise the run is refused. -/
theorem receive_run (h14 : 14 ≤ D) (hD : D ≤ 2046) {a b : Bytes} (h : Carries a zs items b) :
    ∀ {s : Rcv} {count : ℕ}, Carries b ws its [] → Tracks D s a (items ++ its) →
      (∀ z ∈ zs, z.flat.length = D) → (∀ z ∈ zs, Neat z) → (∀ x ∈ items ++ its, Item D x) →
        Receives D ch count s zs (packets items) := by
  induction h with
  | nil a =>
    intro s count _ _ _ _ _
    exact ⟨fun _ => ⟨s, rfl⟩, fun ⟨z, hz, _⟩ => absurd hz (by simp)⟩
  | @mid a lead zs items b ha hl h ih =>
    -- the data field holds octets of one packet only, too many for an idle packet
    intro s count hb hs hfull hneat hi
    obtain ⟨r, rest, hr, hitems⟩ := (h.append hb).exists_rest (by simp [ha]) rfl
    have hlen : lead.length = D := by
      have := hfull ⟨lead, [], []⟩ List.mem_cons_self
      simpa [Zone.flat] using this
    have hpos := List.length_pos_iff.2 ha
    have hrpos := List.length_pos_iff.2 hr
    have hbig : Big (a ++ lead ++ r) := by
      refine big_length (hi _ (by rw [hitems]; exact List.mem_cons_self)) ?_
      simp only [List.length_append]
      omega
    have hlt : a.length + D < maxLength := by
      have := hbig.length_eq
      simp only [List.length_append] at this
      omega
    obtain ⟨s', hpass, hopen⟩ := takes_mid ch count h14 hD hlen
      (hs.open_of _ (by rw [hitems]; rfl) ha hbig) hlt
    have hne : a ++ lead ≠ [] := by simp [ha]
    have htrack : Tracks D s' (a ++ lead) (items ++ its) := by
      refine ⟨fun h0 => absurd h0 hne, fun q _ _ _ => hopen, fun q hq _ hnot => ?_⟩
      rw [hitems] at hq
      obtain rfl : a ++ lead ++ r = q := Option.some.inj hq
      exact absurd hbig hnot
    refine Receives.cons [] (a ++ lead) (items ++ its)
      ⟨fun _ => ⟨s', hpass, htrack⟩, fun hf => absurd (Gen.fits_of_header_none ⟨rfl, rfl⟩) hf⟩
      fun s₁ h₁ => ih hb h₁ (fun z hz => hfull z (List.mem_cons_of_mem _ hz))
        (fun z hz => hneat z (List.mem_cons_of_mem _ hz)) hi
  | @last a lead whole trail zs items b ha hl h ih =>
    -- the data field ends a packet: what is at hand depends on whether it is an idle one
    intro s count hb hs hfull hneat hi
    rw [List.cons_append, List.append_assoc] at hi hs
    have hz : (⟨lead, whole, trail⟩ : Zone Octet).flat.length = D := hfull _ List.mem_cons_self
    have hn : Neat ⟨lead, whole, trail⟩ := hneat _ List.mem_cons_self
    have hq : Item D (a ++ lead) := hi _ List.mem_cons_self
    have hi' : ∀ x ∈ whole ++ (items ++ its), Item D x := fun x hx =>
      hi x (List.mem_cons_of_mem _ hx)
    have hz' := zone_items hD hz hn (h.append hb) hi'
    have hlen := flat_length ⟨lead, whole, trail⟩
    have hwhole : packets whole = [] := hz'.packets_eq
    have hsplit : packets ((a ++ lead) :: (whole ++ items)) =
        packets [a ++ lead] ++ packets items := by
      rw [← List.singleton_append, Gen.packets_append, Gen.packets_append, hwhole, List.nil_append]
    have hnext : ∀ s₁, Tracks D s₁ trail (items ++ its) →
        Receives D ch (Gen.incFrameNumber count) s₁ zs (packets items) := fun s₁ h₁ =>
      ih hb h₁ (fun z hz => hfull z (List.mem_cons_of_mem _ hz))
        (fun z hz => hneat z (List.mem_cons_of_mem _ hz))
        fun x hx => hi' x (List.mem_append_right _ hx)
    by_cases hbig : Big (a ++ lead)
    · have htake : Takes D ch count s ⟨lead, whole, trail⟩ [a ++ lead] :=
        takes_last h14 hD hz hl hz'.opens (hs.open_of _ rfl ha hbig) hbig
      rw [hsplit, packets_big hbig]
      exact Receives.cons _ _ _ (htake.tracks hz hn hz'.trail) hnext
    · have hlt : lead.length < D := by
        have hshort := short_of_not_big hq hbig
        have := List.length_pos_iff.2 ha
        rw [List.length_append] at hshort
        omega
      have htake : Takes D ch count s ⟨lead, whole, trail⟩ [] :=
        takes_junk h14 hD hz hl hlt hz'.opens (hs.junk_of _ rfl ha hbig)
      have hnone : packets [a ++ lead] = [] := packets_short hD (by
        intro x hx
        obtain rfl := List.mem_singleton.1 hx
        exact short_of_not_big hq hbig)
      rw [hsplit, hnone]
      exact Receives.cons _ _ _ (htake.tracks hz hn hz'.trail) hnext
  | @first whole trail zs items b h ih =>
    intro s count hb hs hfull hneat hi
    rw [List.append_assoc] at hi hs
    have hz : (⟨[], whole, trail⟩ : Zone Octet).flat.length = D := hfull _ List.mem_cons_self
    have hn : Neat ⟨[], whole, trail⟩ := hneat _ List.mem_cons_self
    have hz' := zone_items hD hz hn (h.append hb) hi
    have htake : Takes D ch count s ⟨[], whole, trail⟩ [] :=
      takes_first h14 hD hz rfl hz'.opens (hs.stale rfl)
    have hwhole : packets whole = [] := hz'.packets_eq
    rw [Gen.packets_append, hwhole]
    exact Receives.cons _ _ _ (htake.tracks hz hn hz'.trail) fun s₁ h₁ =>
      ih hb h₁ (fun z hz => hfull z (List.mem_cons_of_mem _ hz))
        (fun z hz => hneat z (List.mem_cons_of_mem _ hz))
        fun x hx => hi x (List.mem_append_right _ hx)

end Rcv

end ChannelEmulator.TM
