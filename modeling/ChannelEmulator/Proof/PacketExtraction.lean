import ChannelEmulator.Framing.Loop
import ChannelEmulator.Proof.EncapsulationPacket
import ChannelEmulator.Proof.SpacePackets

/-!
# The end of TM packet extraction

`_assemblePacket` walks the headers of a data field whose octets it trusts.

* `Readable`: the headers from some octet on can be walked.
* `assemblePacket_ends_iff`: **the extraction ends without a fault** just when the headers from
  the first header pointer on are readable, what is at hand is long enough to tell its length when
  it is continued, and a data field without a packet start finds a packet at hand to continue.
* `continued_never_ends`: a frame without a packet start, and nothing at hand.
-/

namespace ChannelEmulator.TM.Rcv

open Framing

/-! ## The loop -/

/-- A pass, with the next index where more packets are coming. -/
def advance (data : Bytes) (pointer : ℕ) (s : Rcv) (idx : ℕ) :
    Except Fault (Rcv × List Bytes × Option ℕ) := do
  let (s, sent, idx, more) ← s.pass data pointer idx
  return (s, sent, if more then some idx else none)

theorem loop_eq (data : Bytes) (pointer : ℕ) : ∀ (fuel : ℕ) (s : Rcv) (idx : ℕ),
    loop fuel s data pointer idx =
      Loop.loop (advance data pointer) data.length .diverges fuel s idx := by
  intro fuel
  induction fuel with
  | zero => intro s idx; rfl
  | succ fuel ih =>
    intro s idx
    rw [loop, Loop.loop, advance]
    split
    · rcases s.pass data pointer idx with e | ⟨s', sent, idx', more⟩
      · rfl
      · cases more
        · rfl
        · simp only [bind, Except.bind, pure, Except.pure, if_true, ih]
    · rfl

/-- The settings are as they were. -/
def SameSetup (s s' : Rcv) : Prop :=
  s'.multiDataField = s.multiDataField ∧ s'.allowPacketsAfterFill = s.allowPacketsAfterFill

theorem sizeSub_add (a b : ℕ) : b + sizeSub a b = Encap.taken b a := rfl

/-! ## What a new packet needs -/

/-- The octets taken for a space packet: the constructor sets the greatest length. -/
def spaceTaken : ℕ := 65542

/-- The packets that start in `rest`, one behind the other, can be walked: a space packet has its
primary header there, an encapsulation packet whose header is there has a length, and with what is
taken for it at least four octets. -/
def Readable (multi allowFill : Bool) (rest : Bytes) : Prop :=
  match rest with
  | [] => True
  | first :: tail =>
    if getPVN first = pvnSpacePacket then
      6 ≤ (first :: tail).length ∧
        (multi = true → Readable multi allowFill ((first :: tail).drop spaceTaken))
    else if getPVN first = pvnEncapsulationPacket then
      if Encap.isFill first then multi = true → allowFill = true → Readable multi allowFill tail
      else Encap.minBytesToDetermineLength first ≤ (first :: tail).length →
        ∃ e, Encap.expectedLength (first :: tail) = .ok e ∧
          4 ≤ min (Encap.taken (Encap.minBytesToDetermineLength first) e) (first :: tail).length ∧
          (multi = true → Readable multi allowFill
            ((first :: tail).drop (Encap.taken (Encap.minBytesToDetermineLength first) e)))
    else True
termination_by rest.length
decreasing_by
  · rw [List.length_drop, List.length_cons, spaceTaken]
    omega
  · rw [List.length_cons]
    omega
  · have hpos := Encap.headerOctets_pos first
    have hle := Encap.le_taken (Encap.minBytesToDetermineLength first) e
    rw [List.length_drop, List.length_cons]
    omega

section Start

variable {s : Rcv} {data : Bytes} {pointer idx : ℕ} {first : Octet} {tail : Bytes}

/-- A space packet whose header is cut. -/
theorem startNewSpacePkt_short (hi : (idx = 0 && 0 < pointer) = false)
    (hd : data.drop idx = first :: tail) (h : (first :: tail).length < 6) :
    ∃ e, s.startNewSpacePkt data pointer idx = .error e := by
  have hsub : data.length - idx = (first :: tail).length := by rw [← hd, List.length_drop]
  refine ⟨.outOfBounds, ?_⟩
  unfold startNewSpacePkt
  rw [hi, hd, hsub]
  simp only [Bool.false_eq_true, if_false, SpacePacket.minBytesToDetermineLength, gt_iff_lt, h, if_true,
    List.take_length, SpacePacketHead.new_short (List.cons_ne_nil first tail) h]
  rfl

/-- A space packet whose header is there takes the greatest length, or all octets that are left. -/
theorem startNewSpacePkt_ok (hi : (idx = 0 && 0 < pointer) = false)
    (hd : data.drop idx = first :: tail) (hv : getPVN first = pvnSpacePacket)
    (h : 6 ≤ (first :: tail).length) :
    ∃ s' sent, s.startNewSpacePkt data pointer idx =
        .ok (s', sent, idx + min spaceTaken (first :: tail).length, s.multiDataField) ∧
      SameSetup s s' ∧ (spaceTaken ≤ (first :: tail).length → s'.packet = none) := by
  have hsub : data.length - idx = (first :: tail).length := by rw [← hd, List.length_drop]
  have hnew : SpacePacket.new ((first :: tail).take 6) = .ok ((first :: tail).take 4 ++ [0xff, 0xff]) := by
    have h := SpacePacketHead.new_six (u := (first :: tail).take 6) (List.length_take_of_le h)
    rwa [List.take_take] at h
  have hst := Started.of_six rfl h hv
  have hexp : SpacePacket.expectedLength ((first :: tail).take 4 ++ [0xff, 0xff]) = .ok maxLength := by
    have := (hst []).expected
    rwa [List.append_nil] at this
  set n := (first :: tail).length with hn
  have hsize : sizeSub maxLength 6 = 65536 := by decide
  set x := if 65536 ≥ n - 6 then n - 6 else 65536 with hx
  have hxmin : idx + 6 + x = idx + min spaceTaken n := by
    rw [hx, spaceTaken]
    split <;> omega
  set part := (data.drop (idx + 6)).take x with hpart
  have hlen : part.length = x := by
    rw [hpart, ← List.drop_drop, hd, List.length_take, List.length_drop, ← hn, hx]
    split <;> omega
  have htotal : (⟨(first :: tail).take 4 ++ [0xff, 0xff] ++ part, []⟩ : Chain).totalLength = 6 + x := by
    rw [Chain.totalLength, List.length_append, List.length_append, hlen]
    simp only [List.length_take, ← hn, List.length_cons, List.length_nil, List.flatten_nil]
    omega
  unfold startNewSpacePkt
  rw [hi, hd, hsub]
  simp only [Bool.false_eq_true, if_false, SpacePacket.minBytesToDetermineLength, gt_iff_lt,
    Nat.not_lt.2 h, hnew, bind, Except.bind, hexp, hsize, ← hx, ← hpart, hxmin]
  rw [show (Chain.append ⟨(first :: tail).take 4 ++ [0xff, 0xff], []⟩ part) =
    ⟨(first :: tail).take 4 ++ [0xff, 0xff] ++ part, []⟩ from rfl, (hst part).hasAllParts, htotal]
  by_cases hall : spaceTaken ≤ n
  · have hfull : (6 + x == maxLength) = true := by
      have hx' : x = 65536 := by
        rw [spaceTaken] at hall
        rw [hx]
        split <;> omega
      rw [hx']
      rfl
    obtain ⟨idle, hidle⟩ : ∃ idle, SpacePacket.isIdle
        (⟨(first :: tail).take 4 ++ [0xff, 0xff] ++ part, []⟩ : Chain).flatten = .ok idle := by
      rcases tail with - | ⟨b, t⟩
      · simp [hn] at h
      · exact ⟨_, rfl⟩
    simp only [hfull, if_true, finishSpacePkt, hidle, bind, Except.bind, pure, Except.pure]
    cases idle
    · exact ⟨_, _, rfl, ⟨rfl, rfl⟩, fun _ => rfl⟩
    · exact ⟨_, _, rfl, ⟨rfl, rfl⟩, fun _ => rfl⟩
  · have hfew : (6 + x == maxLength) = false := by
      rw [spaceTaken] at hall
      rw [hx, if_pos (by omega), beq_eq_false_iff_ne, maxLength]
      omega
    simp only [hfew, Bool.false_eq_true, if_false, pure, Except.pure]
    exact ⟨_, _, rfl, ⟨rfl, rfl⟩, fun h => absurd h hall⟩

/-- A fill packet. -/
theorem startNewEncap_fill (hi : (idx = 0 && 0 < pointer) = false)
    (hd : data.drop idx = first :: tail) (hf : Encap.isFill first = true) :
    s.startNewEncap data pointer idx = if s.allowPacketsAfterFill then
      .ok (s, [], idx + 1, s.multiDataField) else .ok (s, [], idx, false) := by
  have hone : Encap.minBytesToDetermineLength first = 1 := by
    obtain rfl : first = 0xE0 := of_decide_eq_true hf
    decide
  unfold startNewEncap
  rw [hi, octetAt_of_drop hd]
  simp only [Bool.false_eq_true, if_false, bind, Except.bind, hone, hf, decide_true, Bool.and_self,
    if_true, pure, Except.pure]

/-- A packet whose header is cut is kept. -/
theorem startNewEncap_cut (hi : (idx = 0 && 0 < pointer) = false)
    (hd : data.drop idx = first :: tail) (hf : Encap.isFill first = false)
    (h : (first :: tail).length < Encap.minBytesToDetermineLength first) :
    s.startNewEncap data pointer idx =
      .ok ({ s with packet := some ⟨first :: tail, []⟩ }, [], idx, false) := by
  have hsub : data.length - idx = (first :: tail).length := by rw [← hd, List.length_drop]
  unfold startNewEncap
  rw [hi, octetAt_of_drop hd, hsub, hd]
  simp only [Bool.false_eq_true, if_false, bind, Except.bind, hf, Bool.and_false, gt_iff_lt, h, if_true,
    List.take_length, pure, Except.pure]

/-- The pass over a packet whose header is there, up to the question whether it is complete. -/
theorem startNewEncap_eq (hi : (idx = 0 && 0 < pointer) = false)
    (hd : data.drop idx = first :: tail) (hf : Encap.isFill first = false)
    (h : Encap.minBytesToDetermineLength first ≤ (first :: tail).length) {e k : ℕ}
    (he : Encap.expectedLength (first :: tail) = .ok e)
    (hk : Encap.taken (Encap.minBytesToDetermineLength first) e = k) :
    s.startNewEncap data pointer idx = (do
      if ← (⟨(first :: tail).take k, []⟩ : Chain).hasAllParts Encap.expectedLength then
        return ({ s with packet := none }, [(⟨(first :: tail).take k, []⟩ : Chain).flatten],
          idx + min k (first :: tail).length, s.multiDataField)
      else return ({ s with packet := some ⟨(first :: tail).take k, []⟩ }, [],
          idx + min k (first :: tail).length, s.multiDataField)) := by
  have hsub : data.length - idx = (first :: tail).length := by rw [← hd, List.length_drop]
  have hlol := (Encap.header_of_expectedLength he).1
  have hhead : Encap.expectedLength ((first :: tail).take (Encap.minBytesToDetermineLength first)) =
      .ok e := by
    rw [Encap.expectedLength_take rfl hlol le_rfl, he]
  obtain ⟨x, hx⟩ : ∃ x, sizeSub e (Encap.minBytesToDetermineLength first) = x := ⟨_, rfl⟩
  obtain rfl : Encap.minBytesToDetermineLength first + x = k := by rw [← hx, sizeSub_add, hk]
  have hidx : idx + Encap.minBytesToDetermineLength first +
      (if x ≥ (first :: tail).length - Encap.minBytesToDetermineLength first then
        (first :: tail).length - Encap.minBytesToDetermineLength first else x) =
      idx + min (Encap.minBytesToDetermineLength first + x) (first :: tail).length := by
    split <;> omega
  unfold startNewEncap
  rw [hi, octetAt_of_drop hd, hsub, hd]
  simp only [Bool.false_eq_true, if_false, bind, Except.bind, hf, Bool.and_false, gt_iff_lt,
    Nat.not_lt.2 h, hhead, ← List.drop_drop, hd, hx, Encap.append_taken, hidx]

/-- A packet that tells no length, or of which too few octets are taken, faults. -/
theorem startNewEncap_error (hi : (idx = 0 && 0 < pointer) = false)
    (hd : data.drop idx = first :: tail) (hf : Encap.isFill first = false)
    (h : Encap.minBytesToDetermineLength first ≤ (first :: tail).length)
    (hno : ¬∃ e, Encap.expectedLength (first :: tail) = .ok e ∧
      4 ≤ min (Encap.taken (Encap.minBytesToDetermineLength first) e) (first :: tail).length) :
    ∃ err, s.startNewEncap data pointer idx = .error err := by
  by_cases hlol : first.toNat % 4 = 0
  · have hsub : data.length - idx = (first :: tail).length := by rw [← hd, List.length_drop]
    refine ⟨.missingField (missingFieldMsg "Encapsulation Packet" "Packet Length"), ?_⟩
    have hone : Encap.minBytesToDetermineLength first = 1 := by
      rw [Encap.minBytesToDetermineLength, Encap.getHeaderOctets, hlol]
      rfl
    rw [hone] at h
    unfold startNewEncap
    rw [hi, octetAt_of_drop hd, hsub, hd]
    simp only [Bool.false_eq_true, if_false, bind, Except.bind, hf, Bool.and_false, gt_iff_lt, hone,
      Nat.not_lt.2 h, List.take_succ_cons, List.take_zero, Encap.expectedLength_cons, hlol]
  · obtain ⟨e, he⟩ := Encap.expectedLength_ok rfl hlol h
    have hfew : min (Encap.taken (Encap.minBytesToDetermineLength first) e) (first :: tail).length < 4 :=
      Nat.lt_of_not_le fun hle => hno ⟨e, he, hle⟩
    refine ⟨.logicError "hasAllParts(): Not enough data in head to determine expected size.", ?_⟩
    rw [startNewEncap_eq hi hd hf h he rfl, Encap.hasAllParts_taken he rfl, if_pos hfew]
    rfl

/-- A packet of which enough is taken: complete it is gone, else it starts with the same octet. -/
theorem startNewEncap_ok (hi : (idx = 0 && 0 < pointer) = false)
    (hd : data.drop idx = first :: tail) (hf : Encap.isFill first = false)
    (h : Encap.minBytesToDetermineLength first ≤ (first :: tail).length) {e k : ℕ}
    (he : Encap.expectedLength (first :: tail) = .ok e)
    (hk : Encap.taken (Encap.minBytesToDetermineLength first) e = k)
    (hfour : 4 ≤ min k (first :: tail).length) :
    ∃ s' sent, s.startNewEncap data pointer idx =
        .ok (s', sent, idx + min k (first :: tail).length, s.multiDataField) ∧
      SameSetup s s' ∧ ∀ c, s'.packet = some c → ∃ t, c.head = first :: t := by
  rw [startNewEncap_eq hi hd hf h he hk, Encap.hasAllParts_taken he hk, if_neg (Nat.not_lt.2 hfour)]
  simp only [bind, Except.bind, pure, Except.pure]
  split
  · exact ⟨_, _, rfl, ⟨rfl, rfl⟩, fun c hc => by cases hc⟩
  · refine ⟨_, _, rfl, ⟨rfl, rfl⟩, fun c hc => ?_⟩
    obtain rfl := Option.some.inj hc
    obtain ⟨n, rfl⟩ : ∃ n, k = n + 1 := ⟨k - 1, by omega⟩
    exact ⟨tail.take n, List.take_succ_cons⟩

end Start

/-! ## From pass to pass -/

section Passes

variable {s s' : Rcv} {data : Bytes} {pointer idx idx' : ℕ} {sent : List Bytes} {more : Bool}

theorem not_ends_of_pass {e : Fault} (h : idx < data.length) (hp : s.pass data pointer idx = .error e) :
    ¬Loop.Ends (advance data pointer) data.length s idx := by
  apply Loop.not_ends_of_error (e := e) h
  rw [advance, hp]
  rfl

/-- A loop ends just when it does from behind the next pass, where that goes on. -/
theorem ends_iff_of_pass (h : idx < data.length)
    (hp : s.pass data pointer idx = .ok (s', sent, idx', more)) :
    Loop.Ends (advance data pointer) data.length s idx ↔
      (more = true → Loop.Ends (advance data pointer) data.length s' idx') := by
  have hadv : advance data pointer s idx = .ok (s', sent, if more then some idx' else none) := by
    rw [advance, hp]
    rfl
  cases more with
  | false => exact ⟨fun _ h => absurd h (by decide), fun _ => Loop.ends_of_stop hadv⟩
  | true =>
    rw [Loop.ends_iff_next h hadv]
    exact ⟨fun h _ => h, fun h => h rfl⟩

variable {first : Octet} {tail : Bytes}

theorem pass_fresh (hn : s.packet = none) (hd : data.drop idx = first :: tail) :
    s.pass data pointer idx =
      if getPVN first = pvnSpacePacket then
        if onlyIdleData pointer then .ok (s, [], idx, false) else s.startNewSpacePkt data pointer idx
      else if getPVN first = pvnEncapsulationPacket then
        if onlyIdleData pointer then .ok (s, [], idx, false) else s.startNewEncap data pointer idx
      else .ok (s, [], idx, false) := by
  rw [pass_eq, hn, Option.elim_none, octetAt_of_drop hd]
  simp only [bind, Except.bind, assembleSpacePkt, assembleEncap, hn]

/-- A version whose packets are extracted. -/
def Recognised (first : Octet) : Prop :=
  getPVN first = pvnSpacePacket ∨ getPVN first = pvnEncapsulationPacket

theorem pass_held {c : Chain} (hs : s.packet = some c) (hc : c.head = first :: tail) :
    s.pass data pointer idx =
      if getPVN first = pvnSpacePacket then
        if onlyIdleData pointer then .ok (s, [], idx, false)
        else s.continueSpacePkt c data pointer idx
      else if getPVN first = pvnEncapsulationPacket then
        if onlyIdleData pointer then .ok (s, [], idx, false) else s.continueEncap c data pointer idx
      else .ok (s, [], idx, false) := by
  have hb : octetAt c.head 0 = .ok first := by
    rw [hc]
    rfl
  rw [pass_eq, hs, Option.elim_some, hb]
  simp only [bind, Except.bind, assembleSpacePkt, assembleEncap, hs]

/-- The pass over a packet at hand that the data field does not continue. -/
theorem pass_unmet {c : Chain} (hs : s.packet = some c) (hc : c.head = first :: tail)
    (hv : Recognised first) (honly : onlyIdleData pointer = false)
    (hi : (idx = 0 && 0 < pointer) = false) :
    s.pass data pointer idx = .ok (s.dropPacket, [], idx, true) := by
  have hb : octetAt c.head 0 = .ok first := by
    rw [hc]
    rfl
  rw [pass_held hs hc, honly, continueSpacePkt, continueEncap, hb]
  simp only [bind, Except.bind, continuePkt, hi, Bool.false_eq_true, if_false]
  rcases hv with hv | hv
  · rw [if_pos hv]
  · rw [hv, if_neg (by decide), if_pos rfl]

/-- A packet at hand that the data field does not continue is dropped. -/
theorem ends_dropPacket {c : Chain} (hs : s.packet = some c) (hc : c.head = first :: tail)
    (hv : Recognised first) (honly : onlyIdleData pointer = false)
    (hi : (idx = 0 && 0 < pointer) = false) :
    Loop.Ends (advance data pointer) data.length s idx ↔
      Loop.Ends (advance data pointer) data.length s.dropPacket idx := by
  by_cases h : idx < data.length
  · rw [ends_iff_of_pass h (pass_unmet hs hc hv honly hi)]
    exact ⟨fun h => h rfl, fun h _ => h⟩
  · exact ⟨fun _ => .done (by omega), fun _ => .done (by omega)⟩

end Passes

/-! ## Walking the headers -/

/-- **The walk.** Behind the front of a data field, with no packet at hand, the loop ends just when
the headers are readable. -/
theorem ends_iff_readable {data : Bytes} {pointer : ℕ} (honly : onlyIdleData pointer = false) :
    ∀ (n idx : ℕ) (s : Rcv), (data.drop idx).length ≤ n → s.packet = none →
      (idx = 0 && 0 < pointer) = false →
      (Loop.Ends (advance data pointer) data.length s idx ↔
        Readable s.multiDataField s.allowPacketsAfterFill (data.drop idx)) := by
  intro n
  induction n with
  | zero =>
    intro idx s hle hn hi
    have hd : data.drop idx = [] := List.eq_nil_of_length_eq_zero (by omega)
    rw [hd, Readable]
    exact ⟨fun _ => trivial, fun _ => .done (List.drop_eq_nil_iff.1 hd)⟩
  | succ n ih =>
    intro idx s hle hn hi
    rcases hd : data.drop idx with - | ⟨first, tail⟩
    · rw [Readable]
      exact ⟨fun _ => trivial, fun _ => .done (List.drop_eq_nil_iff.1 hd)⟩
    have hlen : data.length = idx + (first :: tail).length := by
      rw [← hd, List.length_drop]
      have : (data.drop idx).length ≠ 0 := by rw [hd]; simp
      rw [List.length_drop] at this
      omega
    have hpos : 0 < (first :: tail).length := by simp
    have hlt : idx < data.length := by omega
    rw [hd] at hle
    -- behind `k` octets, with a state of the same settings and nothing at hand
    have next : ∀ (k : ℕ) (s' : Rcv), 0 < k → SameSetup s s' →
        (k ≤ (first :: tail).length → s'.packet = none) →
        (Loop.Ends (advance data pointer) data.length s' (idx + min k (first :: tail).length) ↔
          Readable s.multiDataField s.allowPacketsAfterFill ((first :: tail).drop k)) := by
      intro k s' hk hsame hnone
      by_cases hk' : k ≤ (first :: tail).length
      · rw [Nat.min_eq_left hk', ih (idx + k) s' (by rw [List.length_drop]; omega) (hnone hk')
          (by simp; omega), hsame.1, hsame.2, ← hd, List.drop_drop]
      · rw [List.drop_eq_nil_of_le (by omega), Readable]
        exact ⟨fun _ => trivial, fun _ => .done (by omega)⟩
    rw [Readable]
    by_cases h0 : getPVN first = pvnSpacePacket
    · rw [if_pos h0]
      have hp : s.pass data pointer idx = _ := pass_fresh hn hd
      rw [if_pos h0, honly, if_neg (by decide)] at hp
      by_cases h6 : 6 ≤ (first :: tail).length
      · obtain ⟨s', sent, hok, hsame, hnone⟩ := startNewSpacePkt_ok (s := s) hi hd h0 h6
        rw [ends_iff_of_pass hlt (hp.trans hok), next spaceTaken s' (by decide) hsame hnone]
        exact ⟨fun h => ⟨h6, h⟩, And.right⟩
      · obtain ⟨e, he⟩ := startNewSpacePkt_short (s := s) hi hd (by omega)
        exact ⟨fun h => absurd h (not_ends_of_pass hlt (hp.trans he)), fun h => absurd h.1 h6⟩
    rw [if_neg h0]
    by_cases h7 : getPVN first = pvnEncapsulationPacket
    · rw [if_pos h7]
      have hp : s.pass data pointer idx = _ := pass_fresh hn hd
      rw [if_neg h0, if_pos h7, honly, if_neg (by decide)] at hp
      by_cases hf : Encap.isFill first = true
      · rw [if_pos hf]
        rw [startNewEncap_fill hi hd hf] at hp
        by_cases hallow : s.allowPacketsAfterFill = true
        · rw [if_pos hallow] at hp
          have := next 1 s (by decide) ⟨rfl, rfl⟩ (fun _ => hn)
          rw [Nat.min_eq_left (by omega), List.drop_succ_cons, List.drop_zero] at this
          rw [ends_iff_of_pass hlt hp, this]
          exact ⟨fun h hm _ => h hm, fun h hm => h hm hallow⟩
        · rw [if_neg hallow] at hp
          rw [ends_iff_of_pass hlt hp]
          exact ⟨fun _ _ h => absurd h hallow, fun _ h => absurd h (by decide)⟩
      · rw [if_neg hf]
        have hf' : Encap.isFill first = false := by simpa using hf
        by_cases hm : Encap.minBytesToDetermineLength first ≤ (first :: tail).length
        · by_cases hgood : ∃ e, Encap.expectedLength (first :: tail) = .ok e ∧
              4 ≤ min (Encap.taken (Encap.minBytesToDetermineLength first) e) (first :: tail).length
          · obtain ⟨e, he, hfour⟩ := hgood
            have hkpos := (Encap.headerOctets_pos first).trans_le
              (Encap.le_taken (Encap.minBytesToDetermineLength first) e)
            have hiff : (Encap.minBytesToDetermineLength first ≤ (first :: tail).length →
                ∃ e, Encap.expectedLength (first :: tail) = .ok e ∧
                  4 ≤ min (Encap.taken (Encap.minBytesToDetermineLength first) e)
                    (first :: tail).length ∧
                  (s.multiDataField = true → Readable s.multiDataField s.allowPacketsAfterFill
                    ((first :: tail).drop (Encap.taken (Encap.minBytesToDetermineLength first) e)))) ↔
                (s.multiDataField = true → Readable s.multiDataField s.allowPacketsAfterFill
                    ((first :: tail).drop (Encap.taken (Encap.minBytesToDetermineLength first) e))) := by
              constructor
              · intro h
                obtain ⟨e', he', -, h⟩ := h hm
                obtain rfl := Except.ok.inj (he.symm.trans he')
                exact h
              · exact fun h _ => ⟨e, he, hfour, h⟩
            rw [hiff]
            obtain ⟨k, hk⟩ : ∃ k, Encap.taken (Encap.minBytesToDetermineLength first) e = k := ⟨_, rfl⟩
            rw [hk] at hkpos hfour ⊢
            obtain ⟨s', sent, hok, hsame, hhead⟩ := startNewEncap_ok (s := s) hi hd hf' hm he hk hfour
            rw [ends_iff_of_pass hlt (hp.trans hok)]
            rcases hs' : s'.packet with - | c
            · rw [next k s' hkpos hsame (fun _ => hs')]
            · -- a part of a packet at hand behind the front is dropped at once
              obtain ⟨t, ht⟩ := hhead c hs'
              rw [ends_dropPacket hs' ht (.inr h7) honly (by simp; omega),
                next k s'.dropPacket hkpos hsame (fun _ => rfl)]
          · obtain ⟨e, he⟩ := startNewEncap_error (s := s) hi hd hf' hm hgood
            refine ⟨fun h => absurd h (not_ends_of_pass hlt (hp.trans he)), fun h => ?_⟩
            obtain ⟨e, he, hfour, -⟩ := h hm
            exact absurd ⟨e, he, hfour⟩ hgood
        · have hok := startNewEncap_cut (s := s) hi hd hf' (by omega)
          rw [ends_iff_of_pass hlt (hp.trans hok)]
          exact ⟨fun _ h => absurd h hm, fun _ h => absurd h (by decide)⟩
    · rw [if_neg h7]
      have hp : s.pass data pointer idx = _ := pass_fresh hn hd
      rw [if_neg h0, if_neg h7] at hp
      rw [ends_iff_of_pass hlt hp]
      exact ⟨fun _ => trivial, fun _ h => absurd h (by decide)⟩

/-! ## The front of the data field -/

/-- The octets that tell the length of a packet. -/
def minOctets (first : Octet) : ℕ :=
  if getPVN first = pvnSpacePacket then SpacePacket.minBytesToDetermineLength
  else Encap.minBytesToDetermineLength first

/-- `expectedLength` of a packet that starts with `first`. -/
def lengthOf (first : Octet) : Bytes → Except Fault ℕ :=
  if getPVN first = pvnSpacePacket then SpacePacket.expectedLength else Encap.expectedLength

/-- A head long enough for the test whether the packet is complete. -/
def TellsLength (exp : Bytes → Except Fault ℕ) (head : Bytes) : Prop :=
  4 ≤ head.length ∧ ∃ e, exp head = .ok e

/-- A packet at hand is continued: from octets that are there, to a head that tells its length, and
where its tail is found, with headers behind it that can be walked. -/
def Continued (s : Rcv) (packet : Chain) (first : Octet) (data : Bytes) (pointer : ℕ) : Prop :=
  (continuedLen data pointer).1 ≤ data.length ∧
    TellsLength (lengthOf first)
      (extendPacket packet (minOctets first) (data.take (continuedLen data pointer).1)).head ∧
    ((continuedLen data pointer).2 = true → s.multiDataField = true →
      Readable s.multiDataField s.allowPacketsAfterFill (data.drop (continuedLen data pointer).1))

/-- Nothing is at hand: the front is skipped up to the first header, where there is one. -/
def Skipped (s : Rcv) (data : Bytes) (pointer : ℕ) : Prop :=
  s.multiDataField = true → noPacketStart pointer = false ∧
    Readable s.multiDataField s.allowPacketsAfterFill (data.drop pointer)

/-- The condition under which a data field is extracted: it is empty, or the first octet of the
packet at hand, or of the data field where there is none, is of a version that is not extracted, or
the data field is idle, or its headers can be walked from its start, or from the first header behind
a front that is continued or skipped. -/
def Extractable (s : Rcv) (data : Bytes) (pointer : ℕ) : Prop :=
  data = [] ∨ ∃ first, ((s.packet.elim data Chain.head).head? = some first) ∧
    (Recognised first → onlyIdleData pointer = false →
      if pointer = 0 then Readable s.multiDataField s.allowPacketsAfterFill data
      else s.packet.elim (Skipped s data pointer) fun packet => Continued s packet first data pointer)

section Front

variable {s : Rcv} {data : Bytes} {pointer : ℕ} {first : Octet} {tail : Bytes}

/-- The pass over a front with nothing to append to. -/
theorem pass_unappended (hn : s.packet = none) (hd : data = first :: tail) (hv : Recognised first)
    (honly : onlyIdleData pointer = false) (hp : 0 < pointer) :
    s.pass data pointer 0 = .ok (s.skipContinued pointer 0) := by
  have hi : ((0 : ℕ) = 0 && 0 < pointer : Bool) = true := by simpa using hp
  rw [pass_fresh hn (by rw [hd]; rfl), honly, startNewSpacePkt, startNewEncap, hi]
  simp only [Bool.false_eq_true, if_false, if_true]
  rcases hv with hv | hv
  · rw [if_pos hv]
  · rw [hv, if_neg (by decide), if_pos rfl]

/-- A front with nothing to append to. -/
theorem ends_iff_skipped (hn : s.packet = none) (hd : data = first :: tail) (hv : Recognised first)
    (honly : onlyIdleData pointer = false) (hp : 0 < pointer) :
    Loop.Ends (advance data pointer) data.length s 0 ↔ Skipped s data pointer := by
  have hlt : 0 < data.length := by rw [hd]; simp
  have hpass := pass_unappended hn hd hv honly hp
  rw [skipContinued, Nat.zero_add] at hpass
  unfold Skipped
  cases hnp : noPacketStart pointer with
  | false =>
    rw [hnp, if_neg (by decide)] at hpass
    rw [ends_iff_of_pass hlt hpass, ends_iff_readable honly _ pointer s le_rfl hn (by simp)]
    exact ⟨fun h hm => ⟨rfl, h hm⟩, fun h hm => (h hm).2⟩
  | true =>
    rw [hnp, if_pos rfl] at hpass
    cases hm : s.multiDataField with
    | false =>
      rw [hm] at hpass
      rw [ends_iff_of_pass hlt hpass]
      exact ⟨fun _ h => absurd h (by decide), fun _ h => absurd h (by decide)⟩
    | true =>
      -- nothing is taken and more packets are coming: the pass is taken for ever
      have hsame : advance data pointer s 0 = .ok (s, [], some 0) := by
        rw [advance, hpass, hm]
        rfl
      exact ⟨fun h => absurd h (Loop.not_ends_of_same hlt hsame),
        fun h => absurd (h rfl).1 (by decide)⟩

/-- A packet at hand is continued where its extended head tells its length. -/
theorem continuePkt_ok {c : Chain} {m : ℕ} {exp : Bytes → Except Fault ℕ}
    {finish : Rcv → Chain → Except Fault (Rcv × List Bytes)} (hp : 0 < pointer)
    (hfin : ∀ c : Chain, 4 ≤ c.head.length → ∃ sent, finish s c = .ok ({ s with packet := none }, sent))
    (hle : (continuedLen data pointer).1 ≤ data.length)
    (h : TellsLength exp (extendPacket c m (data.take (continuedLen data pointer).1)).head) :
    ∃ s' sent more, s.continuePkt c data pointer 0 m exp finish =
        .ok (s', sent, (continuedLen data pointer).1, more) ∧ SameSetup s s' ∧
      ((continuedLen data pointer).2 = true → s'.packet = none ∧ more = s.multiDataField) := by
  have hi : ((0 : ℕ) = 0 && 0 < pointer : Bool) = true := by simpa using hp
  obtain ⟨h4, e, he⟩ := h
  unfold continuePkt
  rw [hi, if_pos rfl]
  generalize continuedLen data pointer = cl at hle h4 he ⊢
  obtain ⟨n, found⟩ := cl
  simp only at hle h4 he ⊢
  rw [if_neg (Nat.not_lt.2 hle)]
  simp only [Chain.hasAllParts, Nat.zero_add]
  rw [if_neg (Nat.not_lt.2 h4), he]
  simp only [bind, Except.bind, pure, Except.pure]
  split
  · obtain ⟨sent, hs⟩ := hfin _ h4
    rw [hs]
    exact ⟨_, _, _, rfl, ⟨rfl, rfl⟩, fun _ => ⟨rfl, rfl⟩⟩
  · cases found with
    | true => exact ⟨_, _, _, rfl, ⟨rfl, rfl⟩, fun _ => ⟨rfl, rfl⟩⟩
    | false =>
      rw [if_neg (by decide)]
      split
      · split
        · exact ⟨_, _, _, rfl, ⟨rfl, rfl⟩, fun h => absurd h (by decide)⟩
        · exact ⟨_, _, _, rfl, ⟨rfl, rfl⟩, fun h => absurd h (by decide)⟩
      · exact ⟨_, _, _, rfl, ⟨rfl, rfl⟩, fun h => absurd h (by decide)⟩

/-- Elsewhere the test whether it is complete fails. -/
theorem continuePkt_error {c : Chain} {m : ℕ} {exp : Bytes → Except Fault ℕ}
    {finish : Rcv → Chain → Except Fault (Rcv × List Bytes)} (hp : 0 < pointer)
    (hle : (continuedLen data pointer).1 ≤ data.length)
    (h : ¬TellsLength exp (extendPacket c m (data.take (continuedLen data pointer).1)).head) :
    ∃ e, s.continuePkt c data pointer 0 m exp finish = .error e := by
  have hi : ((0 : ℕ) = 0 && 0 < pointer : Bool) = true := by simpa using hp
  unfold TellsLength at h
  unfold continuePkt
  rw [hi, if_pos rfl]
  generalize continuedLen data pointer = cl at hle h ⊢
  obtain ⟨n, found⟩ := cl
  simp only at hle h ⊢
  rw [if_neg (Nat.not_lt.2 hle)]
  simp only [Chain.hasAllParts, Nat.zero_add]
  by_cases h4 : (extendPacket c m (data.take n)).head.length < 4
  · rw [if_pos h4]
    exact ⟨_, rfl⟩
  · rw [if_neg h4]
    rcases he : exp (extendPacket c m (data.take n)).head with e | n'
    · exact ⟨e, rfl⟩
    · exact absurd ⟨by omega, n', he⟩ h

theorem finishSpacePkt_ok (c : Chain) (h : 4 ≤ c.head.length) :
    ∃ sent, s.finishSpacePkt c = .ok ({ s with packet := none }, sent) := by
  obtain ⟨idle, hidle⟩ : ∃ idle, SpacePacket.isIdle c.flatten = .ok idle := by
    have hlen : 2 ≤ c.flatten.length := by
      rw [Chain.flatten, List.length_append]
      omega
    generalize c.flatten = u at hlen ⊢
    rcases u with - | ⟨a, - | ⟨b, t⟩⟩
    · simp at hlen
    · simp at hlen
    · exact ⟨_, rfl⟩
  rw [finishSpacePkt, hidle]
  cases idle
  · exact ⟨_, rfl⟩
  · exact ⟨_, rfl⟩

/-- The pass over a front that continues the packet at hand. -/
theorem pass_continued (data : Bytes) {c : Chain} (hs : s.packet = some c) (hc : c.head = first :: tail)
    (hv : Recognised first) (honly : onlyIdleData pointer = false) :
    ∃ finish : Rcv → Chain → Except Fault (Rcv × List Bytes),
      (∀ c : Chain, 4 ≤ c.head.length →
        ∃ sent, finish s c = .ok ({ s with packet := none }, sent)) ∧
      s.pass data pointer 0 =
        s.continuePkt c data pointer 0 (minOctets first) (lengthOf first) finish := by
  have hb : octetAt c.head 0 = .ok first := by
    rw [hc]
    rfl
  rw [pass_held hs hc, honly, minOctets, lengthOf]
  rcases hv with hv | hv
  · rw [if_pos hv, if_pos hv, if_pos hv]
    exact ⟨finishSpacePkt, finishSpacePkt_ok, rfl⟩
  · have hne : ¬getPVN first = pvnSpacePacket := by rw [hv]; decide
    rw [if_neg hne, if_neg hne, if_neg hne, if_pos hv, continueEncap, hb]
    exact ⟨fun s packet => .ok ({ s with packet := none }, [packet.flatten]),
      fun c _ => ⟨_, rfl⟩, rfl⟩

/-- A front that continues the packet at hand. -/
theorem ends_iff_continued {c : Chain} (hs : s.packet = some c) (hc : c.head = first :: tail)
    (hdata : data ≠ []) (hv : Recognised first) (honly : onlyIdleData pointer = false)
    (hp : 0 < pointer) :
    Loop.Ends (advance data pointer) data.length s 0 ↔ Continued s c first data pointer := by
  have hlt : 0 < data.length := List.length_pos_iff.2 hdata
  obtain ⟨finish, hfin, hpass⟩ := pass_continued data hs hc hv honly
  unfold Continued
  by_cases hle : (continuedLen data pointer).1 ≤ data.length
  · by_cases hgood : TellsLength (lengthOf first)
      (extendPacket c (minOctets first) (data.take (continuedLen data pointer).1)).head
    · obtain ⟨s', sent, more, hok, hsame, hfound⟩ := continuePkt_ok hp hfin hle hgood
      rw [ends_iff_of_pass hlt (hpass.trans hok)]
      cases htail : (continuedLen data pointer).2 with
      | true =>
        obtain ⟨hn, rfl⟩ := hfound htail
        have hlen : (continuedLen data pointer).1 = pointer := by
          unfold continuedLen at htail ⊢
          split at htail
          · cases htail
          · rename_i hnp
            rw [if_neg hnp]
        rw [ends_iff_readable honly _ _ s' le_rfl hn (by rw [hlen]; simp), hsame.1, hsame.2]
        exact ⟨fun h => ⟨hle, hgood, fun _ => h⟩, fun h => h.2.2 rfl⟩
      | false =>
        -- all octets of the data field are taken
        have hall : data.length ≤ (continuedLen data pointer).1 := by
          unfold continuedLen at htail ⊢
          split at htail
          · rename_i hnp
            rw [if_pos hnp]
          · cases htail
        exact ⟨fun _ => ⟨hle, hgood, fun h => absurd h (by decide)⟩, fun _ _ => .done hall⟩
    · obtain ⟨e, he⟩ : ∃ e, s.continuePkt c data pointer 0 (minOctets first) (lengthOf first) finish =
          .error e := continuePkt_error hp hle hgood
      exact ⟨fun h => absurd h (not_ends_of_pass hlt (hpass.trans he)), fun h => absurd h.2.1 hgood⟩
  · have herr : s.pass data pointer 0 = .error .outOfBounds := by
      have hi : ((0 : ℕ) = 0 && 0 < pointer : Bool) = true := by simpa using hp
      rw [hpass]
      unfold continuePkt
      rw [hi, if_pos rfl]
      simp only
      rw [if_pos (by omega)]
    exact ⟨fun h => absurd h (not_ends_of_pass hlt herr), fun h => absurd h.1 hle⟩

/-- **From the first octet on.** -/
theorem ends_iff_extractable :
    Loop.Ends (advance data pointer) data.length s 0 ↔ Extractable s data pointer := by
  unfold Extractable
  by_cases hdata : data = []
  · exact ⟨fun _ => .inl hdata, fun _ => .done (by rw [hdata]; simp)⟩
  have hlt : 0 < data.length := List.length_pos_iff.2 hdata
  have hone : ∀ {P : Octet → Prop} {first : Octet} {o : Option Octet}, o = some first →
      ((data = [] ∨ ∃ x, o = some x ∧ P x) ↔ P first) := by
    intro P first o ho
    subst ho
    refine ⟨fun h => ?_, fun h => .inr ⟨first, rfl, h⟩⟩
    rcases h with h | ⟨x, hx, h⟩
    · exact absurd h hdata
    · obtain rfl := Option.some.inj hx
      exact h
  -- a version that is not recognised and a data field of idle data end the loop at once
  have hstop : ∀ first, (s.packet.elim data Chain.head).head? = some first →
      ¬(Recognised first ∧ onlyIdleData pointer = false) →
      Loop.Ends (advance data pointer) data.length s 0 := by
    intro first hf hnot
    have hpass : s.pass data pointer 0 = .ok (s, [], 0, false) := by
      have hcases : (if getPVN first = pvnSpacePacket then (Except.ok (s, [], 0, false) : Except Fault Step)
          else if getPVN first = pvnEncapsulationPacket then .ok (s, [], 0, false)
          else .ok (s, [], 0, false)) = .ok (s, [], 0, false) := by
        split
        · rfl
        · split <;> rfl
      have honly : Recognised first → onlyIdleData pointer = true := by
        intro hv
        by_contra h
        exact hnot ⟨hv, by simpa using h⟩
      rcases hs : s.packet with - | c
      · rw [hs, Option.elim_none] at hf
        obtain ⟨tail, hd⟩ := List.head?_eq_some_iff.1 hf
        rw [pass_fresh hs (by rw [hd]; rfl)]
        by_cases h0 : getPVN first = pvnSpacePacket
        · rw [if_pos h0, if_pos (honly (.inl h0))]
        · rw [if_neg h0]
          by_cases h7 : getPVN first = pvnEncapsulationPacket
          · rw [if_pos h7, if_pos (honly (.inr h7))]
          · rw [if_neg h7]
      · rw [hs, Option.elim_some] at hf
        obtain ⟨tail, hd⟩ := List.head?_eq_some_iff.1 hf
        rw [pass_held hs hd]
        by_cases h0 : getPVN first = pvnSpacePacket
        · rw [if_pos h0, if_pos (honly (.inl h0))]
        · rw [if_neg h0]
          by_cases h7 : getPVN first = pvnEncapsulationPacket
          · rw [if_pos h7, if_pos (honly (.inr h7))]
          · rw [if_neg h7]
    rw [ends_iff_of_pass hlt hpass]
    exact fun h => absurd h (by decide)
  rcases hf : (s.packet.elim data Chain.head).head? with - | first
  · -- a packet at hand with no octet at all is read outside its head
    refine ⟨fun h => ?_, fun h => ?_⟩
    · rcases hs : s.packet with - | c
      · rw [hs, Option.elim_none, List.head?_eq_none_iff] at hf
        exact absurd hf hdata
      · rw [hs, Option.elim_some, List.head?_eq_none_iff] at hf
        have herr : s.pass data pointer 0 = .error .outOfBounds := by
          rw [pass_eq, hs, Option.elim_some, hf]
          rfl
        exact absurd h (not_ends_of_pass hlt herr)
    · rcases h with h | ⟨x, hx, -⟩
      · exact absurd h hdata
      · cases hx
  rw [hone rfl]
  by_cases hgo : Recognised first ∧ onlyIdleData pointer = false
  · obtain ⟨hv, honly⟩ := hgo
    have himp : ∀ {P : Prop}, (Recognised first → onlyIdleData pointer = false → P) ↔ P :=
      ⟨fun h => h hv honly, fun h _ _ => h⟩
    rw [himp]
    rcases hs : s.packet with - | c
    · rw [hs, Option.elim_none] at hf
      obtain ⟨tail, hd⟩ := List.head?_eq_some_iff.1 hf
      rw [Option.elim_none]
      split
      · rename_i h0
        subst h0
        exact ends_iff_readable honly _ 0 s le_rfl hs (by decide)
      · exact ends_iff_skipped hs hd hv honly (by omega)
    · rw [hs, Option.elim_some] at hf
      obtain ⟨tail, hc⟩ := List.head?_eq_some_iff.1 hf
      rw [Option.elim_some]
      split
      · rename_i h0
        subst h0
        rw [ends_dropPacket hs hc hv honly (by decide)]
        exact ends_iff_readable honly _ 0 s.dropPacket le_rfl rfl (by decide)
      · exact ends_iff_continued hs hc hdata hv honly (by omega)
  · exact ⟨fun _ hv honly => absurd ⟨hv, honly⟩ hgo, fun _ => hstop first hf hgo⟩

end Front

/-! ## The passes it takes -/

section Measure

variable {s s' : Rcv} {data : Bytes} {pointer idx idx' : ℕ} {sent : List Bytes}

/-- What a pass does that is not the last: nothing, or it takes octets, or it drops the packet at
hand. -/
def Progress (s s' : Rcv) (idx idx' : ℕ) : Prop :=
  (s' = s ∧ idx' = idx) ∨ idx < idx' ∨ (idx' = idx ∧ s.packet ≠ none ∧ s'.packet = none)

theorem skipContinued_progress (h : s.skipContinued pointer idx = (s', sent, idx', true)) :
    Progress s s' idx idx' := by
  simp only [skipContinued, Prod.mk.injEq] at h
  obtain ⟨rfl, -, rfl, -⟩ := h
  split
  · exact .inl ⟨rfl, rfl⟩
  · rcases Nat.eq_zero_or_pos pointer with rfl | hp
    · exact .inl ⟨rfl, rfl⟩
    · exact .inr (.inl (by omega))

theorem startNewSpacePkt_progress (h : s.startNewSpacePkt data pointer idx = .ok (s', sent, idx', true)) :
    Progress s s' idx idx' := by
  unfold startNewSpacePkt at h
  split at h
  · exact skipContinued_progress (Except.ok.inj h)
  · dsimp only at h
    split at h
    · obtain ⟨head, -, h⟩ := bind_ok h
      simp [pure, Except.pure] at h
    · obtain ⟨head, -, h⟩ := bind_ok h
      obtain ⟨len, -, h⟩ := bind_ok h
      obtain ⟨all, -, h⟩ := bind_ok h
      refine .inr (.inl ?_)
      have hsix : 0 < SpacePacket.minBytesToDetermineLength := by decide
      split at h
      · obtain ⟨r, -, h⟩ := bind_ok h
        simp only [pure, Except.pure, Except.ok.injEq, Prod.mk.injEq] at h
        obtain ⟨-, -, rfl, -⟩ := h
        omega
      · simp only [pure, Except.pure, Except.ok.injEq, Prod.mk.injEq] at h
        obtain ⟨-, -, rfl, -⟩ := h
        omega

theorem startNewEncap_progress (h : s.startNewEncap data pointer idx = .ok (s', sent, idx', true)) :
    Progress s s' idx idx' := by
  unfold startNewEncap at h
  split at h
  · exact skipContinued_progress (Except.ok.inj h)
  · obtain ⟨first, -, h⟩ := bind_ok h
    have hpos := Encap.headerOctets_pos first
    dsimp only at h
    split at h
    · split at h
      · simp only [pure, Except.pure, Except.ok.injEq, Prod.mk.injEq] at h
        obtain ⟨-, -, rfl, -⟩ := h
        exact .inr (.inl (by omega))
      · simp [pure, Except.pure] at h
    · split at h
      · simp [pure, Except.pure] at h
      · obtain ⟨len, -, h⟩ := bind_ok h
        obtain ⟨all, -, h⟩ := bind_ok h
        refine .inr (.inl ?_)
        split at h
        · simp only [pure, Except.pure, Except.ok.injEq, Prod.mk.injEq] at h
          obtain ⟨-, -, rfl, -⟩ := h
          omega
        · simp only [pure, Except.pure, Except.ok.injEq, Prod.mk.injEq] at h
          obtain ⟨-, -, rfl, -⟩ := h
          omega

theorem continuePkt_progress {c : Chain} {m : ℕ} {exp : Bytes → Except Fault ℕ}
    {finish : Rcv → Chain → Except Fault (Rcv × List Bytes)} (hs : s.packet = some c)
    (hlt : idx < data.length)
    (h : s.continuePkt c data pointer idx m exp finish = .ok (s', sent, idx', true)) :
    Progress s s' idx idx' := by
  unfold continuePkt at h
  split at h
  · rename_i hi
    have hp : 0 < pointer := by simpa using (Bool.and_eq_true_iff.1 hi).2
    have hsome : 0 < (continuedLen data pointer).1 := by
      unfold continuedLen
      split
      · exact Nat.zero_lt_of_lt hlt
      · exact hp
    refine .inr (.inl ?_)
    dsimp only at h
    split at h
    · cases h
    · obtain ⟨all, -, h⟩ := bind_ok h
      split at h
      · obtain ⟨r, -, h⟩ := bind_ok h
        simp only [pure, Except.pure, Except.ok.injEq, Prod.mk.injEq] at h
        omega
      · split at h
        · simp only [pure, Except.pure, Except.ok.injEq, Prod.mk.injEq] at h
          omega
        · split at h
          · obtain ⟨e, -, h⟩ := bind_ok h
            split at h
            · simp [pure, Except.pure] at h
            · simp only [pure, Except.pure, Except.ok.injEq, Prod.mk.injEq] at h
              omega
          · simp only [pure, Except.pure, Except.ok.injEq, Prod.mk.injEq] at h
            omega
  · simp only [Except.ok.injEq, Prod.mk.injEq] at h
    obtain ⟨rfl, -, rfl, -⟩ := h
    exact .inr (.inr ⟨rfl, by rw [hs]; simp, rfl⟩)

theorem pass_progress (hlt : idx < data.length)
    (h : s.pass data pointer idx = .ok (s', sent, idx', true)) : Progress s s' idx idx' := by
  rw [pass_eq] at h
  obtain ⟨first, -, h⟩ := bind_ok h
  split at h
  · unfold assembleSpacePkt at h
    split at h
    · cases h
    · split at h
      · rename_i hs
        exact continuePkt_progress hs hlt h
      · exact startNewSpacePkt_progress h
  · split at h
    · unfold assembleEncap at h
      split at h
      · cases h
      · split at h
        · rename_i hs
          obtain ⟨b, -, h⟩ := bind_ok h
          exact continuePkt_progress hs hlt h
        · exact startNewEncap_progress h
    · cases h

/-- The passes that are left at most: two for every octet, and one for the packet at hand. -/
def passesLeft (data : Bytes) (s : Rcv) (idx : ℕ) : ℕ :=
  2 * (data.length - idx) + if s.packet = none then 0 else 1

theorem advance_progress (hlt : idx < data.length)
    (h : advance data pointer s idx = .ok (s', sent, some idx')) :
    (s' = s ∧ idx' = idx) ∨ passesLeft data s' idx' < passesLeft data s idx := by
  unfold advance at h
  obtain ⟨⟨s₁, sent₁, idx₁, more⟩, hp, h⟩ := bind_ok h
  simp only [pure, Except.pure, Except.ok.injEq, Prod.mk.injEq] at h
  obtain ⟨rfl, rfl, hmore⟩ := h
  cases more with
  | false => cases hmore
  | true =>
    obtain rfl := Option.some.inj hmore
    unfold passesLeft
    rcases pass_progress hlt hp with hsame | hlater | ⟨rfl, hsome, hnone⟩
    · exact .inl hsame
    · refine .inr ?_
      split <;> split <;> omega
    · rw [if_pos hnone, if_neg hsome]
      exact .inr (by omega)

end Measure

/-! ## The extraction -/

/-- The loop that is run over a data field comes to its end just when the field is extractable. -/
theorem loop_ends_iff {s : Rcv} {data : Bytes} {pointer : ℕ} :
    (∃ r, loop (2 * data.length + 1) s data pointer 0 = .ok r) ↔ Extractable s data pointer := by
  rw [loop_eq, ← ends_iff_extractable]
  constructor
  · rintro ⟨r, hr⟩
    exact Loop.ends_of_loop hr
  · intro h
    refine h.loop_ok .diverges (passesLeft data) ?_ ?_ ?_
    · intro s idx hlt
      rw [passesLeft]
      omega
    · intro s idx s' sent idx' hlt hp
      exact advance_progress hlt hp
    · rw [passesLeft]
      split <;> omega

end ChannelEmulator.TM.Rcv
