import ChannelEmulator.Proof.MpduReceiver
import ChannelEmulator.Proof.PacketExtraction

/-!
# M_PDU reassembly of any octets

`_assemble_encap` walks the headers of a packet zone whose octets it trusts.

* `startPacket_eq`: **both services start an encapsulation packet alike**.
* `Walkable`: the headers from some octet on can be walked.
* `assembleEncap_ends_iff`: the M_PDUs that are reassembled without a fault.
* `assembleEncap_declared`: every packet sent has the length its header declares.
* `reassembles_iff`: **the runs without a fault**, with the lengths of the packets sent.
-/

namespace ChannelEmulator

/-- The length an encapsulation packet declares: one octet where its length of length is zero. -/
def Encap.declaredLength (u : Bytes) : Except Fault ℕ := do
  let first ← octetAt u 0
  if first.toNat % 4 = 0 then return 1 else getPacketLength u

namespace Multiplexing.Remove

open Framing

/-! ## The loop -/

theorem loop_eq (zone : Bytes) (index : ℕ) : ∀ (fuel : ℕ) (s : Remove) (idx : ℕ),
    loop fuel s zone index idx =
      Loop.loop (fun s idx => s.pass zone index idx) zone.length .diverges fuel s idx := by
  intro fuel
  induction fuel with
  | zero => intro s idx; rfl
  | succ fuel ih =>
    intro s idx
    rw [loop, Loop.loop]
    split
    · rcases s.pass zone index idx with e | ⟨s', sent, next⟩
      · rfl
      · cases next with
        | none => rfl
        | some idx' => simp only [bind, Except.bind, pure, Except.pure, ih]
    · rfl

/-- The loop from some index on comes to its end without a fault. -/
abbrev Ends (zone : Bytes) (index : ℕ) (s : Remove) (idx : ℕ) : Prop :=
  Loop.Ends (fun s idx => s.pass zone index idx) zone.length s idx

variable {s s' : Remove} {zone : Bytes} {index idx idx' : ℕ} {sent : List Bytes} {first : Octet}
  {tail : Bytes}

/-- The loop ends just when it does from behind the next pass, where that goes on. -/
theorem ends_iff_of_pass (h : idx < zone.length) {next : Option ℕ}
    (hp : s.pass zone index idx = .ok (s', sent, next)) :
    Ends zone index s idx ↔ ∀ idx', next = some idx' → Ends zone index s' idx' := by
  cases next with
  | none => exact ⟨fun _ _ h => absurd h (by simp), fun _ => Loop.ends_of_stop hp⟩
  | some i =>
    unfold Ends
    rw [Loop.ends_iff_next h hp]
    refine ⟨fun he j hj => ?_, fun he => he i rfl⟩
    obtain rfl := Option.some.inj hj
    exact he

theorem not_ends_of_pass (h : idx < zone.length) {e : Fault}
    (hp : s.pass zone index idx = .error e) : ¬ Ends zone index s idx :=
  Loop.not_ends_of_error h hp

/-! ## The start of a packet -/

/-- The TM receiver at the same point, where it goes on behind every packet. -/
def asRcv (s : Remove) : TM.Rcv :=
  { multiDataField := true
    allowPacketsAfterFill := s.allowPacketsAfterFill && s.multiPacketZone
    badPacketTally := s.badEncapTally
    packet := s.encap }

/-- **Both services start an encapsulation packet alike.** This one ends the zone behind a packet
that was sent, where a zone holds no more than one. -/
theorem startPacket_eq (hi : (idx = 0 && hasContinuedData index) = false) :
    s.startPacket zone index idx = (do
      let (r, sent, idx, more) ← s.asRcv.startNewEncap zone 0 idx
      return ({ s with encap := r.packet }, sent,
        if more && (sent.isEmpty || s.multiPacketZone) then some idx else none)) := by
  unfold startPacket TM.Rcv.startNewEncap
  rw [hi]
  simp only [Bool.false_eq_true, if_false, Nat.lt_irrefl, decide_false, Bool.and_false]
  rcases octetAt zone idx with e | first
  · rfl
  simp only [bind, Except.bind, pure, Except.pure]
  split
  · by_cases ha : (s.allowPacketsAfterFill && s.multiPacketZone) = true
    · rw [if_pos ha, if_pos (show s.asRcv.allowPacketsAfterFill = true from ha)]
      rfl
    · rw [if_neg ha, if_neg (show ¬ s.asRcv.allowPacketsAfterFill = true from ha)]
      rfl
  · split
    · rfl
    · rcases Encap.expectedLength
        ((zone.drop idx).take (Encap.minBytesToDetermineLength first)) with e | expected
      · rfl
      · have hsize : sizeSub expected (Encap.minBytesToDetermineLength first) =
            TM.Rcv.sizeSub expected (Encap.minBytesToDetermineLength first) := rfl
        dsimp only
        rw [hsize]
        split
        · rfl
        · rename_i all _
          cases all
          · rfl
          · rfl

/-- The encapsulation packets that start in `rest`, one behind the other, can be walked: one whose
header is there has a length, and with what is taken for it at least four octets. -/
def Walkable (multi allowFill : Bool) (rest : Bytes) : Prop :=
  match rest with
  | [] => True
  | first :: tail =>
    if Encap.isFill first then allowFill = true → multi = true → Walkable multi allowFill tail
    else Encap.minBytesToDetermineLength first ≤ (first :: tail).length →
      ∃ e, Encap.expectedLength (first :: tail) = .ok e ∧
        4 ≤ min (Encap.taken (Encap.minBytesToDetermineLength first) e) (first :: tail).length ∧
        ((Encap.minBytesToDetermineLength first ≤ e → multi = true) → Walkable multi allowFill
          ((first :: tail).drop (Encap.taken (Encap.minBytesToDetermineLength first) e)))
termination_by rest.length
decreasing_by
  · rw [List.length_cons]
    omega
  · have hpos := Encap.headerOctets_pos first
    have hle := Encap.le_taken (Encap.minBytesToDetermineLength first) e
    rw [List.length_drop, List.length_cons]
    omega

/-- A first header pointer of zero has nothing continued. -/
theorem unguarded (idx : ℕ) : (idx = 0 && (0 : ℕ) < 0 : Bool) = false := by simp

/-- A packet whose header is cut is kept. -/
theorem startPacket_cut (hn : s.encap = none)
    (hi : (idx = 0 && hasContinuedData index) = false) (hd : zone.drop idx = first :: tail)
    (hf : Encap.isFill first = false)
    (h : (first :: tail).length < Encap.minBytesToDetermineLength first) :
    ∃ s', s.pass zone index idx = .ok (s', [], none) := by
  have hr := TM.Rcv.startNewEncap_cut (s := s.asRcv) (unguarded idx) hd hf h
  rw [pass, hn]
  simp only [startPacket_eq hi, hr, bind, Except.bind, pure, Except.pure]
  exact ⟨_, rfl⟩

/-- A packet that tells no length, or of which too few octets are taken, faults. -/
theorem startPacket_error (hn : s.encap = none)
    (hi : (idx = 0 && hasContinuedData index) = false) (hd : zone.drop idx = first :: tail)
    (hf : Encap.isFill first = false)
    (h : Encap.minBytesToDetermineLength first ≤ (first :: tail).length)
    (hno : ¬∃ e, Encap.expectedLength (first :: tail) = .ok e ∧
      4 ≤ min (Encap.taken (Encap.minBytesToDetermineLength first) e) (first :: tail).length) :
    ∃ err, s.pass zone index idx = .error err := by
  obtain ⟨err, he⟩ :=
    TM.Rcv.startNewEncap_error (s := s.asRcv) (unguarded idx) hd hf h hno
  rw [pass, hn]
  simp only [startPacket_eq hi, he, bind, Except.bind]
  exact ⟨_, rfl⟩

/-- A packet of which enough is taken is sent where it is complete. -/
theorem startPacket_ok (hn : s.encap = none)
    (hi : (idx = 0 && hasContinuedData index) = false) (hd : zone.drop idx = first :: tail)
    (hf : Encap.isFill first = false)
    (h : Encap.minBytesToDetermineLength first ≤ (first :: tail).length) {e k : ℕ}
    (he : Encap.expectedLength (first :: tail) = .ok e)
    (hk : Encap.taken (Encap.minBytesToDetermineLength first) e = k)
    (hfour : 4 ≤ min k (first :: tail).length) :
    s.pass zone index idx =
      if Encap.minBytesToDetermineLength first ≤ e ∧ e ≤ (first :: tail).length then
        .ok (s, [(first :: tail).take k],
          if s.multiPacketZone then some (idx + min k (first :: tail).length) else none)
      else .ok ({ s with encap := some ⟨(first :: tail).take k, []⟩ }, [],
        some (idx + min k (first :: tail).length)) := by
  have hstart := TM.Rcv.startNewEncap_eq (s := s.asRcv) (unguarded idx) hd hf h he hk
  rw [Encap.hasAllParts_taken he hk, if_neg (Nat.not_lt.2 hfour)] at hstart
  rw [pass, hn]
  simp only [startPacket_eq hi, hstart, bind, Except.bind, pure, Except.pure]
  by_cases hall : Encap.minBytesToDetermineLength first ≤ e ∧ e ≤ (first :: tail).length
  · rw [if_pos hall, if_pos (decide_eq_true hall)]
    simp only [asRcv, List.isEmpty_cons, Bool.false_or, Bool.true_and, Chain.flatten,
      List.flatten_nil, List.append_nil]
    rw [← hn]
  · rw [if_neg hall, if_neg (by simpa using hall)]
    rfl

/-- A packet at hand that the zone does not continue is dropped. -/
theorem pass_drop {c : Chain} (hs : s.encap = some c) (hc : c.head.head? = some first)
    (hi : (idx = 0 && hasContinuedData index) = false) :
    s.pass zone index idx = .ok (s.dropEncap, [], some idx) := by
  obtain ⟨tail, hc⟩ := List.head?_eq_some_iff.1 hc
  have hb : octetAt c.head 0 = .ok first := by
    rw [hc]
    rfl
  rw [pass, hs]
  simp only [continuePacket, hb, bind, Except.bind, hi, Bool.false_eq_true, if_false]
  rfl

theorem ends_dropEncap {c : Chain} (hs : s.encap = some c) (hc : c.head.head? = some first)
    (hi : (idx = 0 && hasContinuedData index) = false) :
    Ends zone index s idx ↔ Ends zone index s.dropEncap idx := by
  by_cases h : idx < zone.length
  · rw [ends_iff_of_pass h (pass_drop hs hc hi)]
    refine ⟨fun he => he idx rfl, fun he i hi => ?_⟩
    obtain rfl := Option.some.inj hi
    exact he
  · exact ⟨fun _ => .done (by omega), fun _ => .done (by omega)⟩

/-! ## Walking the headers -/

/-- **The walk.** Behind the front of a zone, with no packet at hand, the loop ends just when the
headers can be walked. -/
theorem ends_iff_walkable {zone : Bytes} {index : ℕ} : ∀ (n idx : ℕ) (s : Remove),
    (zone.drop idx).length ≤ n → s.encap = none → (idx = 0 && hasContinuedData index) = false →
      (Ends zone index s idx ↔
        Walkable s.multiPacketZone s.allowPacketsAfterFill (zone.drop idx)) := by
  intro n
  induction n with
  | zero =>
    intro idx s hle hn hi
    have hd : zone.drop idx = [] := List.eq_nil_of_length_eq_zero (by omega)
    rw [hd, Walkable]
    exact ⟨fun _ => trivial, fun _ => .done (List.drop_eq_nil_iff.1 hd)⟩
  | succ n ih =>
    intro idx s hle hn hi
    rcases hd : zone.drop idx with - | ⟨first, tail⟩
    · rw [Walkable]
      exact ⟨fun _ => trivial, fun _ => .done (List.drop_eq_nil_iff.1 hd)⟩
    have hpos : 0 < (first :: tail).length := by simp
    have hlen : zone.length = idx + (first :: tail).length := by
      have hcut := congrArg List.length hd
      rw [List.length_drop] at hcut
      omega
    have hlt : idx < zone.length := by omega
    rw [hd] at hle
    -- behind `k` octets, with nothing at hand
    have next : ∀ (k : ℕ) (s' : Remove), 0 < k → s'.multiPacketZone = s.multiPacketZone →
        s'.allowPacketsAfterFill = s.allowPacketsAfterFill → s'.encap = none →
        (Ends zone index s' (idx + min k (first :: tail).length) ↔
          Walkable s.multiPacketZone s.allowPacketsAfterFill ((first :: tail).drop k)) := by
      intro k s' hk hm ha hnone
      by_cases hk' : k ≤ (first :: tail).length
      · rw [Nat.min_eq_left hk', ih (idx + k) s' (by rw [List.length_drop]; omega) hnone
          (guard_false (.inr (by omega))), hm, ha, ← hd, List.drop_drop]
      · rw [List.drop_eq_nil_of_le (by omega), Walkable]
        exact ⟨fun _ => trivial, fun _ => .done (by omega)⟩
    rw [Walkable]
    by_cases hf : Encap.isFill first = true
    · rw [if_pos hf]
      obtain rfl : first = 0xE0 := of_decide_eq_true hf
      have hp := startPacket_fill hn hi hd
      rw [ends_iff_of_pass hlt hp]
      have hone := next 1 s (by decide) rfl rfl hn
      rw [Nat.min_eq_left (by omega), List.drop_succ_cons, List.drop_zero] at hone
      cases ha : s.allowPacketsAfterFill with
      | false => exact ⟨fun _ h => absurd h (by decide), fun _ _ h => absurd h (by simp)⟩
      | true =>
        cases hm : s.multiPacketZone with
        | false => exact ⟨fun _ _ h => absurd h (by decide), fun _ _ h => absurd h (by simp)⟩
        | true =>
          rw [hm, ha] at hone
          refine ⟨fun he _ _ => hone.1 (he _ rfl), fun hw i hi' => ?_⟩
          obtain rfl := Option.some.inj hi'
          exact hone.2 (hw rfl rfl)
    · rw [if_neg hf]
      have hf' : Encap.isFill first = false := by simpa using hf
      by_cases hm : Encap.minBytesToDetermineLength first ≤ (first :: tail).length
      · by_cases hgood : ∃ e, Encap.expectedLength (first :: tail) = .ok e ∧
            4 ≤ min (Encap.taken (Encap.minBytesToDetermineLength first) e) (first :: tail).length
        · obtain ⟨e, he, hfour⟩ := hgood
          have hkpos := (Encap.headerOctets_pos first).trans_le
            (Encap.le_taken (Encap.minBytesToDetermineLength first) e)
          obtain ⟨k, hk⟩ : ∃ k, Encap.taken (Encap.minBytesToDetermineLength first) e = k :=
            ⟨_, rfl⟩
          have hiff : (Encap.minBytesToDetermineLength first ≤ (first :: tail).length →
              ∃ e, Encap.expectedLength (first :: tail) = .ok e ∧
                4 ≤ min (Encap.taken (Encap.minBytesToDetermineLength first) e)
                  (first :: tail).length ∧
                ((Encap.minBytesToDetermineLength first ≤ e → s.multiPacketZone = true) →
                  Walkable s.multiPacketZone s.allowPacketsAfterFill
                    ((first :: tail).drop (Encap.taken (Encap.minBytesToDetermineLength first) e)))) ↔
              ((Encap.minBytesToDetermineLength first ≤ e → s.multiPacketZone = true) →
                Walkable s.multiPacketZone s.allowPacketsAfterFill ((first :: tail).drop k)) := by
            constructor
            · intro h
              obtain ⟨e', he', -, h⟩ := h hm
              obtain rfl := Except.ok.inj (he.symm.trans he')
              rwa [hk] at h
            · intro h _
              exact ⟨e, he, hfour, by rwa [hk]⟩
          rw [hiff]
          rw [hk] at hkpos hfour
          have hp := startPacket_ok hn hi hd hf' hm he hk hfour
          by_cases hall : Encap.minBytesToDetermineLength first ≤ e ∧ e ≤ (first :: tail).length
          · rw [if_pos hall] at hp
            rw [ends_iff_of_pass hlt hp]
            have hk' := next k s hkpos rfl rfl hn
            cases hmz : s.multiPacketZone with
            | false =>
              exact ⟨fun _ h => absurd (h hall.1) (by decide), fun _ _ h => absurd h (by simp)⟩
            | true =>
              rw [hmz] at hk'
              refine ⟨fun h _ => hk'.1 (h _ rfl), fun h i hi' => ?_⟩
              obtain rfl := Option.some.inj hi'
              exact hk'.2 (h fun _ => rfl)
          · rw [if_neg hall] at hp
            rw [ends_iff_of_pass hlt hp]
            have hstep : Ends zone index { s with encap := some ⟨(first :: tail).take k, []⟩ }
                (idx + min k (first :: tail).length) ↔
                Walkable s.multiPacketZone s.allowPacketsAfterFill ((first :: tail).drop k) := by
              have hhead : ((first :: tail).take k).head? = some first := by
                obtain ⟨j, rfl⟩ : ∃ j, k = j + 1 := ⟨k - 1, by omega⟩
                rfl
              rw [ends_dropEncap rfl hhead (guard_false (.inr (by omega)))]
              exact next k _ hkpos rfl rfl rfl
            -- a packet longer than its header goes past the end of the zone
            have hpast : Encap.minBytesToDetermineLength first ≤ e →
                (first :: tail).drop k = [] := by
              intro hme
              rw [Encap.taken_eq hme (Encap.expectedLength_lt he)] at hk
              apply List.drop_eq_nil_of_le
              by_contra hc
              exact hall ⟨hme, by omega⟩
            constructor
            · intro h _
              exact hstep.1 (h _ rfl)
            · intro h i hi'
              obtain rfl := Option.some.inj hi'
              apply hstep.2
              by_cases hme : Encap.minBytesToDetermineLength first ≤ e
              · rw [hpast hme, Walkable]
                trivial
              · exact h fun hc => absurd hc hme
        · obtain ⟨e, he⟩ := startPacket_error hn hi hd hf' hm hgood
          refine ⟨fun h => absurd h (not_ends_of_pass hlt he), fun h => ?_⟩
          obtain ⟨e, he, hfour, -⟩ := h hm
          exact absurd ⟨e, he, hfour⟩ hgood
      · obtain ⟨s', hok⟩ := startPacket_cut hn hi hd hf' (by omega)
        rw [ends_iff_of_pass hlt hok]
        exact ⟨fun _ h => absurd h hm, fun _ _ h => absurd h (by simp)⟩

/-! ## The front of the zone -/

/-- The octets at the front of a zone that continue a packet. -/
def continuedLen (zone : Bytes) (index : ℕ) : ℕ :=
  if hasHeaderlessData index then zone.length else index

/-- A packet at hand is continued: from octets that are there, to a head long enough for the test
whether it is complete, and where its tail is found, with headers behind it that can be walked. -/
def Continued (s : Remove) (c : Chain) (first : Octet) (zone : Bytes) (index : ℕ) : Prop :=
  continuedLen zone index ≤ zone.length ∧
    ∃ all, (extend c first (zone.take (continuedLen zone index))).hasAllParts
        Encap.expectedLength = .ok all ∧
      (hasHeaderlessData index = false → (all = true → s.multiPacketZone = true) →
        Walkable s.multiPacketZone s.allowPacketsAfterFill (zone.drop index))

/-- With nothing at hand a front that continues a packet is skipped, up to the first header where
there is one. -/
def Fresh (s : Remove) (zone : Bytes) (index : ℕ) : Prop :=
  if hasContinuedData index then hasHeaderlessData index = false →
    Walkable s.multiPacketZone s.allowPacketsAfterFill (zone.drop index)
  else Walkable s.multiPacketZone s.allowPacketsAfterFill zone

/-- A zone is reassembled: it is empty, or its headers can be walked behind a front that is
continued, skipped or not there. -/
def ZoneReassembles (s : Remove) (zone : Bytes) (index : ℕ) : Prop :=
  zone = [] ∨ s.encap.elim (Fresh s zone index) fun c => ∃ first, c.head.head? = some first ∧
    if hasContinuedData index then Continued s c first zone index
    else Walkable s.multiPacketZone s.allowPacketsAfterFill zone

theorem continued_pos (hcont : hasContinuedData index = true)
    (hhead : hasHeaderlessData index = false) : 0 < index := by
  unfold hasContinuedData at hcont
  rw [hhead, Bool.false_or] at hcont
  simpa using (Bool.and_eq_true_iff.1 hcont).2

theorem ends_iff_fresh (hz : zone ≠ []) (hn : s.encap = none) :
    Ends zone index s 0 ↔ Fresh s zone index := by
  have hlt : 0 < zone.length := List.length_pos_iff.2 hz
  unfold Fresh
  cases hcont : hasContinuedData index with
  | false =>
    rw [if_neg (by decide), ends_iff_walkable _ 0 s le_rfl hn (by rw [hcont]; rfl), List.drop_zero]
  | true =>
    rw [if_pos rfl]
    cases hhead : hasHeaderlessData index with
    | true =>
      have hp : s.pass zone index 0 = .ok (s, [], none) := by
        rw [pass, hn]
        simp only [startPacket, hcont, hhead, decide_true, Bool.and_self, if_true]
      rw [ends_iff_of_pass hlt hp]
      exact ⟨fun _ h => absurd h (by decide), fun _ _ h => absurd h (by simp)⟩
    | false =>
      have hp : s.pass zone index 0 = .ok (s, [], some (0 + index)) := by
        rw [pass, hn]
        simp only [startPacket, hcont, hhead, decide_true, Bool.and_self, if_true,
          Bool.false_eq_true, if_false]
      have hw : Ends zone index s index ↔ _ := ends_iff_walkable _ index s le_rfl hn
        (guard_false (.inr (continued_pos hcont hhead)))
      rw [ends_iff_of_pass hlt hp, Nat.zero_add]
      refine ⟨fun h _ => hw.1 (h index rfl), fun h i hi => ?_⟩
      obtain rfl := Option.some.inj hi
      exact hw.2 (h rfl)

/-- A pass over a front that continues the packet at hand. -/
theorem pass_continue {c : Chain} (hs : s.encap = some c) (hc : c.head.head? = some first)
    (hcont : hasContinuedData index = true) :
    s.pass zone index 0 =
      if zone.length < continuedLen zone index then .error .outOfBounds
      else do
        let c' := extend c first (zone.take (continuedLen zone index))
        let all ← c'.hasAllParts Encap.expectedLength
        if all then return ({ s with encap := none }, [c'.flatten],
            if s.multiPacketZone then some (continuedLen zone index) else none)
        else if hasHeaderlessData index = false then
          return (s.dropEncap, [], some (continuedLen zone index))
        else if c'.head.length ≥ Encap.minBytesToDetermineLength first then do
          let expected ← Encap.expectedLength c'.head
          if expected < c'.totalLength then
            return (s.dropEncap, [], some (continuedLen zone index))
          else return ({ s with encap := some c' }, [], some (continuedLen zone index))
        else return ({ s with encap := some c' }, [], some (continuedLen zone index)) := by
  obtain ⟨tail, hc⟩ := List.head?_eq_some_iff.1 hc
  have hb : octetAt c.head 0 = .ok first := by
    rw [hc]
    rfl
  rw [pass, hs]
  simp only [continuePacket, hb, hcont, decide_true, Bool.and_self, if_true, Nat.zero_add, bind,
    Except.bind, pure, Except.pure, sendEncap]
  unfold continuedLen extend
  cases hasHeaderlessData index
  · rfl
  · rfl

theorem ends_iff_continued {c : Chain} (hz : zone ≠ []) (hs : s.encap = some c)
    (hc : c.head.head? = some first) (hcont : hasContinuedData index = true) :
    Ends zone index s 0 ↔ Continued s c first zone index := by
  have hlt : 0 < zone.length := List.length_pos_iff.2 hz
  have hp : s.pass zone index 0 = _ := pass_continue hs hc hcont
  unfold Continued
  by_cases hle : continuedLen zone index ≤ zone.length
  swap
  · rw [if_pos (by omega)] at hp
    exact ⟨fun h => absurd h (not_ends_of_pass hlt hp), fun h => absurd h.1 hle⟩
  rw [if_neg (by omega)] at hp
  dsimp only at hp
  rcases hall : (extend c first (zone.take (continuedLen zone index))).hasAllParts
    Encap.expectedLength with e | all
  · rw [hall] at hp
    refine ⟨fun h => absurd h (not_ends_of_pass hlt hp), fun h => ?_⟩
    obtain ⟨-, all, h, -⟩ := h
    cases h
  rw [hall] at hp
  simp only [bind, Except.bind, pure, Except.pure] at hp
  have hcond : ∀ P : Prop, (continuedLen zone index ≤ zone.length ∧
      ∃ b, (Except.ok all : Except Fault Bool) = .ok b ∧
        (hasHeaderlessData index = false → (b = true → s.multiPacketZone = true) → P)) ↔
      (hasHeaderlessData index = false → (all = true → s.multiPacketZone = true) → P) := by
    intro P
    constructor
    · rintro ⟨-, b, hb, h⟩
      obtain rfl := Except.ok.inj hb
      exact h
    · exact fun h => ⟨hle, all, rfl, h⟩
  rw [hcond]
  cases hhead : hasHeaderlessData index with
  | true =>
    -- all octets of the zone are taken
    have hall' : zone.length ≤ continuedLen zone index := by
      unfold continuedLen
      rw [hhead, if_pos rfl]
    have hdone : ∀ {s' : Remove} {sent : List Bytes} {next : Option ℕ},
        s.pass zone index 0 = .ok (s', sent, next) →
        (∀ i, next = some i → i = continuedLen zone index) → Ends zone index s 0 := by
      intro s' sent next hp' hnext
      rw [ends_iff_of_pass hlt hp']
      intro i hi
      rw [hnext i hi]
      exact .done hall'
    refine ⟨fun _ h => absurd h (by decide), fun _ => ?_⟩
    cases all with
    | true =>
      rw [if_pos rfl] at hp
      refine hdone hp fun i hi => ?_
      split at hi
      · exact (Option.some.inj hi).symm
      · cases hi
    | false =>
      rw [if_neg (by decide), hhead, if_neg (by decide)] at hp
      split at hp
      · have he : ∃ e, Encap.expectedLength
            (extend c first (zone.take (continuedLen zone index))).head = .ok e := by
          unfold Chain.hasAllParts at hall
          split at hall
          · cases hall
          · obtain ⟨e, he, -⟩ := bind_ok hall
            exact ⟨e, he⟩
        obtain ⟨e, he⟩ := he
        rw [he] at hp
        dsimp only at hp
        split at hp
        · exact hdone hp fun i hi => (Option.some.inj hi).symm
        · exact hdone hp fun i hi => (Option.some.inj hi).symm
      · exact hdone hp fun i hi => (Option.some.inj hi).symm
  | false =>
    have hlen : continuedLen zone index = index := by
      unfold continuedLen
      rw [hhead, if_neg (by decide)]
    have hi : (index = 0 && hasContinuedData index) = false :=
      guard_false (.inr (continued_pos hcont hhead))
    have himp : ∀ {P : Prop}, (false = false → P) ↔ P := ⟨fun h => h rfl, fun h _ => h⟩
    rw [himp]
    cases all with
    | true =>
      rw [if_pos rfl, hlen] at hp
      rw [ends_iff_of_pass hlt hp]
      have hw : Ends zone index { s with encap := none } index ↔ _ :=
        ends_iff_walkable _ index _ le_rfl rfl hi
      cases hm : s.multiPacketZone with
      | false => exact ⟨fun _ h => absurd (h rfl) (by decide), fun _ i hi => absurd hi (by simp)⟩
      | true =>
        rw [show ({ s with encap := none } : Remove).multiPacketZone = true from hm] at hw
        refine ⟨fun h _ => hw.1 (h index rfl), fun h i hi' => ?_⟩
        obtain rfl := Option.some.inj hi'
        exact hw.2 (h fun _ => rfl)
    | false =>
      rw [if_neg (by decide), if_pos hhead, hlen] at hp
      rw [ends_iff_of_pass hlt hp]
      have hw : Ends zone index s.dropEncap index ↔ _ :=
        ends_iff_walkable _ index _ le_rfl rfl hi
      refine ⟨fun h _ => hw.1 (h index rfl), fun h i hi' => ?_⟩
      obtain rfl := Option.some.inj hi'
      exact hw.2 (h fun h => absurd h (by decide))

/-- **From the first octet on.** -/
theorem ends_iff_zoneReassembles :
    Ends zone index s 0 ↔ ZoneReassembles s zone index := by
  unfold ZoneReassembles
  by_cases hz : zone = []
  · exact ⟨fun _ => .inl hz, fun _ => .done (by rw [hz]; simp)⟩
  have hlt : 0 < zone.length := List.length_pos_iff.2 hz
  rw [or_iff_right hz]
  rcases hs : s.encap with - | c
  · rw [Option.elim_none]
    exact ends_iff_fresh hz hs
  rw [Option.elim_some]
  rcases hc : c.head.head? with - | first
  · -- a packet at hand with no octet at all is read outside its head
    have hnil : c.head = [] := List.head?_eq_none_iff.1 hc
    have hp : s.pass zone index 0 = .error .outOfBounds := by
      rw [pass, hs]
      simp only [continuePacket, hnil]
      rfl
    refine ⟨fun h => absurd h (not_ends_of_pass hlt hp), fun h => ?_⟩
    obtain ⟨x, hx, -⟩ := h
    cases hx
  have hone : ∀ {P : Octet → Prop}, (∃ x, some first = some x ∧ P x) ↔ P first := by
    intro P
    constructor
    · rintro ⟨x, hx, h⟩
      obtain rfl := Option.some.inj hx
      exact h
    · exact fun h => ⟨first, rfl, h⟩
  rw [hone]
  cases hcont : hasContinuedData index with
  | true =>
    rw [if_pos rfl]
    exact ends_iff_continued hz hs hc hcont
  | false =>
    have hi : (((0 : ℕ) = 0 : Bool) && hasContinuedData index) = false := by rw [hcont]; rfl
    rw [if_neg (by decide), ends_dropEncap hs hc hi,
      ends_iff_walkable _ 0 s.dropEncap le_rfl rfl hi, List.drop_zero]
    exact Iff.rfl

/-! ## The passes it takes -/

/-- What a pass does that is not the last: it takes octets, or it drops the packet at hand. -/
def Progress (s s' : Remove) (idx idx' : ℕ) : Prop :=
  idx < idx' ∨ (idx' = idx ∧ s.encap ≠ none ∧ s'.encap = none)

theorem startPacket_progress (h : s.startPacket zone index idx = .ok (s', sent, some idx')) :
    Progress s s' idx idx' := by
  refine .inl ?_
  unfold startPacket at h
  split at h
  · rename_i hg
    obtain ⟨-, hcont⟩ := Bool.and_eq_true_iff.1 hg
    split at h
    · cases h
    · rename_i hhead
      simp only [Except.ok.injEq, Prod.mk.injEq, Option.some.injEq] at h
      have := continued_pos hcont (by simpa using hhead)
      omega
  · obtain ⟨first, -, h⟩ := bind_ok h
    have hpos := Encap.headerOctets_pos first
    dsimp only at h
    split at h
    · split at h
      · simp only [pure, Except.pure, Except.ok.injEq, Prod.mk.injEq, Option.some.injEq] at h
        omega
      · simp [pure, Except.pure] at h
    · split at h
      · simp [pure, Except.pure] at h
      · obtain ⟨len, -, h⟩ := bind_ok h
        obtain ⟨all, -, h⟩ := bind_ok h
        split at h
        · simp only [sendEncap, pure, Except.pure, Except.ok.injEq, Prod.mk.injEq] at h
          obtain ⟨-, -, h⟩ := h
          by_cases hm : s.multiPacketZone = true
          · simp only [hm, if_true, Option.some.injEq] at h
            omega
          · simp only [hm, Bool.false_eq_true, if_false] at h
            cases h
        · simp only [pure, Except.pure, Except.ok.injEq, Prod.mk.injEq, Option.some.injEq] at h
          obtain ⟨-, -, rfl⟩ := h
          omega

/-- A pass with a packet at hand reads its first octet. -/
theorem head_of_pass {c : Chain} {r : Remove × List Bytes × Option ℕ} (hs : s.encap = some c)
    (h : s.pass zone index idx = .ok r) : ∃ first, c.head.head? = some first := by
  rw [pass, hs] at h
  obtain ⟨first, hb, -⟩ := bind_ok h
  obtain ⟨tail, hd⟩ := drop_of_octetAt hb
  exact ⟨first, by rw [← c.head.drop_zero, hd]; rfl⟩

theorem continuePacket_progress {c : Chain} (hs : s.encap = some c) (hlt : idx < zone.length)
    (h : s.pass zone index idx = .ok (s', sent, some idx')) : Progress s s' idx idx' := by
  obtain ⟨first, hc⟩ := head_of_pass hs h
  by_cases hg : (idx = 0 && hasContinuedData index) = true
  · obtain ⟨h0, hcont⟩ := Bool.and_eq_true_iff.1 hg
    obtain rfl : idx = 0 := of_decide_eq_true h0
    have hsome : 0 < continuedLen zone index := by
      unfold continuedLen
      split
      · exact hlt
      · rename_i hhead
        exact continued_pos hcont (by simpa using hhead)
    refine .inl ?_
    rw [pass_continue hs hc hcont] at h
    split at h
    · cases h
    · obtain ⟨all, -, h⟩ := bind_ok h
      split at h
      · simp only [pure, Except.pure, Except.ok.injEq, Prod.mk.injEq] at h
        obtain ⟨-, -, h⟩ := h
        split at h
        · obtain rfl := Option.some.inj h
          exact hsome
        · cases h
      · split at h
        · simp only [pure, Except.pure, Except.ok.injEq, Prod.mk.injEq, Option.some.injEq] at h
          omega
        · split at h
          · obtain ⟨e, -, h⟩ := bind_ok h
            split at h
            · simp only [pure, Except.pure, Except.ok.injEq, Prod.mk.injEq, Option.some.injEq] at h
              omega
            · simp only [pure, Except.pure, Except.ok.injEq, Prod.mk.injEq, Option.some.injEq] at h
              omega
          · simp only [pure, Except.pure, Except.ok.injEq, Prod.mk.injEq, Option.some.injEq] at h
            omega
  · rw [pass_drop hs hc (by simpa using hg)] at h
    simp only [Except.ok.injEq, Prod.mk.injEq, Option.some.injEq] at h
    obtain ⟨rfl, -, rfl⟩ := h
    exact .inr ⟨rfl, by rw [hs]; simp, rfl⟩

/-- The passes that are left at most: two for every octet, and one for the packet at hand. -/
def passesLeft (zone : Bytes) (s : Remove) (idx : ℕ) : ℕ :=
  2 * (zone.length - idx) + if s.encap = none then 0 else 1

theorem pass_progress (hlt : idx < zone.length)
    (h : s.pass zone index idx = .ok (s', sent, some idx')) :
    passesLeft zone s' idx' < passesLeft zone s idx := by
  have hprogress : Progress s s' idx idx' := by
    rcases hs : s.encap with - | c
    · rw [pass, hs] at h
      exact startPacket_progress h
    · exact continuePacket_progress hs hlt h
  unfold passesLeft
  rcases hprogress with hlater | ⟨rfl, hsome, hnone⟩
  · split <;> split <;> omega
  · rw [if_pos hnone, if_neg hsome]
    omega

/-! ## The reassembly -/

/-- An M_PDU has a header, and is idle or has a packet zone that is reassembled. -/
def Reassembles (s : Remove) (mpdu : Bytes) : Prop :=
  ∃ index, getFirstHeaderIndex mpdu = .ok index ∧
    (isIdle index = true ∨ ZoneReassembles s (mpdu.drop spanHeader) index)

/-- **The reassembly of an M_PDU ends without a fault** just when its packet zone can be walked. -/
theorem assembleEncap_ends_iff (s : Remove) (mpdu : Bytes) :
    (∃ r, s.assembleEncap mpdu = .ok r) ↔ Reassembles s mpdu := by
  unfold assembleEncap Reassembles
  rcases hf : getFirstHeaderIndex mpdu with e | index
  · constructor
    · rintro ⟨r, hr⟩
      cases hr
    · rintro ⟨index, hi, -⟩
      cases hi
  simp only [bind, Except.bind, Except.ok.injEq, exists_eq_left']
  by_cases hidle : isIdle index = true
  · rw [if_pos hidle]
    exact ⟨fun _ => .inl hidle, fun _ => ⟨_, rfl⟩⟩
  rw [if_neg hidle, or_iff_right hidle, ← ends_iff_zoneReassembles, loop_eq]
  constructor
  · rintro ⟨r, hr⟩
    exact Loop.ends_of_loop hr
  · intro h
    refine h.loop_ok .diverges (passesLeft (mpdu.drop spanHeader)) ?_ ?_ ?_
    · intro s idx hlt
      rw [passesLeft]
      omega
    · intro s idx s' sent idx' hlt hp
      exact .inr (pass_progress hlt hp)
    · rw [passesLeft]
      split <;> omega

/-! ## What is sent -/

/-- A chain that has all its parts has the length its head declares. -/
theorem declared_of_hasAllParts {c : Chain} (h : c.hasAllParts Encap.expectedLength = .ok true) :
    Encap.declaredLength c.flatten = .ok c.flatten.length := by
  unfold Chain.hasAllParts at h
  split at h
  · cases h
  obtain ⟨n, he, h⟩ := bind_ok h
  have htotal : c.totalLength = n := by simpa [pure, Except.pure] using h
  rcases hhead : c.head with - | ⟨first, tail⟩
  · rw [hhead] at he
    cases he
  obtain ⟨hlol, hmin⟩ := Encap.header_of_expectedLength (hhead ▸ he)
  have hflat : c.flatten = (first :: tail) ++ c.parts.flatten := by rw [Chain.flatten, hhead]
  have hfirst : c.flatten.head? = some first := by rw [hflat]; rfl
  have hexp : Encap.expectedLength c.flatten = .ok n := by
    rw [← he, hhead, ← Encap.expectedLength_take hfirst hlol hmin, hflat, List.take_left]
  have hb : octetAt c.flatten 0 = .ok first := by rw [hflat]; rfl
  unfold Encap.declaredLength
  rw [hb]
  simp only [bind, Except.bind, hlol, if_false]
  rw [← c.totalLength_eq, htotal]
  exact hexp

/-- The packets sent have the lengths their headers declare. -/
def Declared (sent : List Bytes) : Prop := ∀ p ∈ sent, Encap.declaredLength p = .ok p.length

theorem declared_nil : Declared [] := fun _ hp => absurd hp (by simp)

theorem declared_single {c : Chain} (h : c.hasAllParts Encap.expectedLength = .ok true) :
    Declared [c.flatten] := by
  intro p hp
  obtain rfl := List.mem_singleton.1 hp
  exact declared_of_hasAllParts h

theorem Declared.append {a b : List Bytes} (ha : Declared a) (hb : Declared b) :
    Declared (a ++ b) := by
  intro p hp
  rcases List.mem_append.1 hp with hp | hp
  · exact ha p hp
  · exact hb p hp

theorem startPacket_declared {next : Option ℕ}
    (h : s.startPacket zone index idx = .ok (s', sent, next)) : Declared sent := by
  unfold startPacket at h
  split at h
  · split at h
    · cases h
      exact declared_nil
    · cases h
      exact declared_nil
  · obtain ⟨first, -, h⟩ := bind_ok h
    dsimp only at h
    split at h
    · split at h
      · cases h
        exact declared_nil
      · cases h
        exact declared_nil
    · split at h
      · cases h
        exact declared_nil
      · obtain ⟨len, -, h⟩ := bind_ok h
        obtain ⟨all, hall, h⟩ := bind_ok h
        cases all with
        | true =>
          simp only [if_true, sendEncap, pure, Except.pure, Except.ok.injEq, Prod.mk.injEq] at h
          obtain ⟨-, rfl, -⟩ := h
          exact declared_single hall
        | false =>
          simp only [Bool.false_eq_true, if_false, pure, Except.pure, Except.ok.injEq,
            Prod.mk.injEq] at h
          obtain ⟨-, rfl, -⟩ := h
          exact declared_nil

theorem continuePacket_declared {c : Chain} {next : Option ℕ} (hs : s.encap = some c)
    (h : s.pass zone index idx = .ok (s', sent, next)) : Declared sent := by
  obtain ⟨first, hc⟩ := head_of_pass hs h
  by_cases hg : (idx = 0 && hasContinuedData index) = true
  · obtain ⟨h0, hcont⟩ := Bool.and_eq_true_iff.1 hg
    obtain rfl : idx = 0 := of_decide_eq_true h0
    rw [pass_continue hs hc hcont] at h
    split at h
    · cases h
    · obtain ⟨all, hall, h⟩ := bind_ok h
      cases all with
      | true =>
        cases h
        exact declared_single hall
      | false =>
        rw [if_neg (by decide)] at h
        split at h
        · cases h
          exact declared_nil
        · split at h
          · obtain ⟨e, -, h⟩ := bind_ok h
            split at h
            · cases h
              exact declared_nil
            · cases h
              exact declared_nil
          · cases h
            exact declared_nil
  · rw [pass_drop hs hc (by simpa using hg)] at h
    cases h
    exact declared_nil

theorem loop_declared : ∀ (fuel : ℕ) {s : Remove} {idx : ℕ} {r : Remove × List Bytes},
    loop fuel s zone index idx = .ok r → Declared r.2 := by
  intro fuel
  induction fuel with
  | zero =>
    intro s idx r h
    rw [loop] at h
    split at h
    · cases h
    · cases h
      exact declared_nil
  | succ fuel ih =>
    intro s idx r h
    rw [loop] at h
    split at h
    · obtain ⟨⟨s₁, sent, next⟩, hpass, h⟩ := bind_ok h
      have hsent : Declared sent := by
        rcases hs : s.encap with - | c
        · rw [pass, hs] at hpass
          exact startPacket_declared hpass
        · exact continuePacket_declared hs hpass
      cases next with
      | none =>
        cases h
        exact hsent
      | some idx' =>
        obtain ⟨⟨s₂, sent'⟩, hl, h⟩ := bind_ok h
        cases h
        exact hsent.append (ih hl)
    · cases h
      exact declared_nil

/-- **What is sent has the length its header declares.** -/
theorem assembleEncap_declared {mpdu : Bytes} {r : Remove × List Bytes}
    (h : s.assembleEncap mpdu = .ok r) : Declared r.2 := by
  unfold assembleEncap at h
  obtain ⟨index, -, h⟩ := bind_ok h
  split at h
  · cases h
    exact declared_nil
  · exact loop_declared _ h

/-! ## Runs -/

/-- The M_PDUs are reassembled one after the other, and the packets sent have the lengths their
headers declare. -/
def RunReassembles (s : Remove) (mpdus : List Bytes) : Prop :=
  ∃ s' sent, runAll assembleEncap s mpdus = .ok (s', sent) ∧ Declared sent

/-- At every M_PDU the state that is reached ahead of it reassembles it. -/
def AlwaysReassembles : Remove → List Bytes → Prop
  | _, [] => True
  | s, mpdu :: mpdus => Reassembles s mpdu ∧
    ∀ s' sent, s.assembleEncap mpdu = .ok (s', sent) → AlwaysReassembles s' mpdus

/-- **The runs that get through.** -/
theorem reassembles_iff (s : Remove) (mpdus : List Bytes) :
    RunReassembles s mpdus ↔ AlwaysReassembles s mpdus := by
  induction mpdus generalizing s with
  | nil => exact ⟨fun _ => trivial, fun _ => ⟨s, [], rfl, declared_nil⟩⟩
  | cons mpdu mpdus ih =>
    rw [AlwaysReassembles, ← assembleEncap_ends_iff]
    constructor
    · rintro ⟨s', sent, hrun, hsent⟩
      obtain ⟨s₁, o₁, o₂, h₁, h₂, rfl⟩ := runAll_cons_inv hrun
      refine ⟨⟨_, h₁⟩, fun s₂ o₃ h => ?_⟩
      obtain ⟨rfl, rfl⟩ := Prod.mk.inj (Except.ok.inj (h₁.symm.trans h))
      exact (ih s₁).1 ⟨s', o₂, h₂, fun p hp => hsent p (List.mem_append_right _ hp)⟩
    · rintro ⟨⟨⟨s₁, o₁⟩, h₁⟩, hrest⟩
      obtain ⟨s', o₂, h₂, hsent⟩ := (ih s₁).2 (hrest s₁ o₁ h₁)
      exact ⟨s', o₁ ++ o₂, runAll_cons h₁ h₂, (assembleEncap_declared h₁).append hsent⟩

/-- A packet of one octet, its length of length zero, that is no fill: the field that would tell
its length is missing. -/
theorem one_octet_throws : ¬ RunReassembles {} [[0, 0, 0xE4]] := by
  rintro ⟨s', sent, hrun, -⟩
  have he : runAll assembleEncap {} [[0, 0, 0xE4]] =
      .error (.missingField (missingFieldMsg "Encapsulation Packet" "Packet Length")) := by decide
  rw [he] at hrun
  cases hrun

end Multiplexing.Remove

end ChannelEmulator
