import ChannelEmulator.Proof.SpacePacketReceiver

/-!
# The space packet service

* `Rcv.run_good`: from whatever frames, only space packets of the greatest length are sent.
* `lossless_iff`: **the service is lossless just when** every packet has the greatest length
  and is not idle, no header is cut, and nothing of the last packet is held back.
-/

namespace ChannelEmulator.TM

open Framing
open Gen (Big Idle Item Neat packets)

namespace Rcv

variable {s s' : Rcv} {data : Bytes} {pointer idx idx' : ℕ} {sent : List Bytes} {more : Bool}

/-! ## From whatever frames -/

theorem hasAllParts_true {exp : Bytes → Except Fault ℕ} {c : Chain}
    (h : c.hasAllParts exp = .ok true) : exp c.head = .ok c.totalLength := by
  unfold Chain.hasAllParts at h
  split at h
  · exact absurd h (by simp)
  · obtain ⟨n, hn, h⟩ := bind_ok h
    have heq : (c.totalLength == n) = true := Except.ok.inj h
    rw [hn, beq_iff_eq.1 heq]

/-- What continuing a packet comes to. -/
theorem continuePkt_cases {c : Chain} {m : ℕ} {exp : Bytes → Except Fault ℕ}
    {finish : Rcv → Chain → Except Fault (Rcv × List Bytes)}
    (h : s.continuePkt c data pointer idx m exp finish = .ok (s', sent, idx', more)) :
    (s'.packet = none ∧ sent = []) ∨
      ∃ part, (s'.packet = some (extendPacket c m part) ∧ sent = []) ∨
        ((extendPacket c m part).hasAllParts exp = .ok true ∧
          finish s (extendPacket c m part) = .ok (s', sent)) := by
  unfold continuePkt at h
  split at h
  · dsimp only at h
    split at h
    · exact absurd h (by simp)
    · obtain ⟨all, hall, h⟩ := bind_ok h
      split at h
      · rename_i htrue
        obtain ⟨r, hr, h⟩ := bind_ok h
        obtain ⟨s₁, sent₁⟩ := r
        simp only [pure, Except.pure, Except.ok.injEq, Prod.mk.injEq] at h
        obtain ⟨rfl, rfl, -, -⟩ := h
        exact Or.inr ⟨_, Or.inr ⟨by rw [hall, htrue], hr⟩⟩
      · split at h
        · simp only [pure, Except.pure, Except.ok.injEq, Prod.mk.injEq] at h
          obtain ⟨rfl, rfl, -, -⟩ := h
          exact Or.inl ⟨rfl, rfl⟩
        · split at h
          · obtain ⟨e, he, h⟩ := bind_ok h
            split at h
            · simp only [pure, Except.pure, Except.ok.injEq, Prod.mk.injEq] at h
              obtain ⟨rfl, rfl, -, -⟩ := h
              exact Or.inl ⟨rfl, rfl⟩
            · simp only [pure, Except.pure, Except.ok.injEq, Prod.mk.injEq] at h
              obtain ⟨rfl, rfl, -, -⟩ := h
              exact Or.inr ⟨_, Or.inl ⟨rfl, rfl⟩⟩
          · simp only [pure, Except.pure, Except.ok.injEq, Prod.mk.injEq] at h
            obtain ⟨rfl, rfl, -, -⟩ := h
            exact Or.inr ⟨_, Or.inl ⟨rfl, rfl⟩⟩
  · simp only [Except.ok.injEq, Prod.mk.injEq] at h
    obtain ⟨rfl, rfl, -, -⟩ := h
    exact Or.inl ⟨rfl, rfl⟩

/-- An encapsulation packet, by its version. -/
def OtherVersion (u : Bytes) : Prop := ∃ b t, u = b :: t ∧ getPVN b = pvnEncapsulationPacket

/-- The packet at hand is an encapsulation packet, or waits for the greatest length. -/
def Kept (s : Rcv) : Prop := ∀ c, s.packet = some c → Started c ∨ OtherVersion c.head

/-- A packet that is sent: an encapsulation packet, or one of the greatest length. -/
def Good (x : Bytes) : Prop :=
  (x.length = maxLength ∧ SpacePacket.isIdle x = .ok false) ∨ OtherVersion x

theorem kept_none (h : s.packet = none) : Kept s := fun c hc => by
  rw [h] at hc
  exact absurd hc (by simp)

theorem started_extend {c : Chain} (h : Started c) (part : Bytes) :
    Started (extendPacket c SpacePacket.minBytesToDetermineLength part) := by
  unfold extendPacket
  rw [if_pos (show c.head.length ≥ SpacePacket.minBytesToDetermineLength from h.head_le)]
  exact h.addPart part

theorem otherVersion_extend {c : Chain} (h : OtherVersion c.head) (m : ℕ) (part : Bytes) :
    OtherVersion (extendPacket c m part).head := by
  obtain ⟨b, t, hb, hv⟩ := h
  unfold extendPacket
  split
  · exact ⟨b, t, hb, hv⟩
  · exact ⟨b, t ++ part, by rw [Chain.append, hb]; rfl, hv⟩

theorem otherVersion_flatten {c : Chain} (h : OtherVersion c.head) : OtherVersion c.flatten := by
  obtain ⟨b, t, hb, hv⟩ := h
  exact ⟨b, t ++ c.parts.flatten, by rw [Chain.flatten, hb]; rfl, hv⟩

/-- A complete space packet. -/
theorem finish_good {c : Chain} (hc : Started c)
    (hall : c.hasAllParts SpacePacket.expectedLength = .ok true)
    (h : s.finishSpacePkt c = .ok (s', sent)) : s'.packet = none ∧ ∀ x ∈ sent, Good x := by
  have hlen : c.totalLength = maxLength := by
    have := hasAllParts_true hall
    rw [hc.expected] at this
    exact (Except.ok.inj this).symm
  unfold finishSpacePkt at h
  obtain ⟨idle, hidle, h⟩ := bind_ok h
  cases idle with
  | true =>
    obtain ⟨rfl, rfl⟩ := Prod.mk.inj (Except.ok.inj h)
    exact ⟨rfl, by simp⟩
  | false =>
    obtain ⟨rfl, rfl⟩ := Prod.mk.inj (Except.ok.inj h)
    refine ⟨rfl, fun x hx => ?_⟩
    obtain rfl := List.mem_singleton.1 hx
    exact Or.inl ⟨by rw [← Chain.totalLength_eq, hlen], hidle⟩

/-- The start of a space packet. -/
theorem startNewSpacePkt_good {b : Octet} (hb : octetAt data idx = .ok b)
    (hv : getPVN b = pvnSpacePacket) (hn : s.packet = none)
    (h : s.startNewSpacePkt data pointer idx = .ok (s', sent, idx', more)) :
    Kept s' ∧ ∀ x ∈ sent, Good x := by
  obtain ⟨t, ht⟩ := drop_of_octetAt hb
  have hsub : data.length - idx = (data.drop idx).length := List.length_drop.symm
  unfold startNewSpacePkt at h
  split at h
  · unfold skipContinued at h
    simp only [Except.ok.injEq, Prod.mk.injEq] at h
    obtain ⟨rfl, rfl, -, -⟩ := h
    exact ⟨kept_none hn, by simp⟩
  · dsimp only at h
    split at h
    · -- the constructor writes behind the octets
      rename_i hshort
      rw [hsub, List.take_length, SpacePacketHead.new_short (by rw [ht]; simp) (by
        rw [← hsub]
        exact hshort)] at h
      exact absurd h (by simp [bind, Except.bind])
    · rename_i hlong
      have h₆ : 6 ≤ (data.drop idx).length := by
        rw [← hsub]
        exact Nat.not_lt.1 hlong
      have hnew : SpacePacket.new ((data.drop idx).take SpacePacket.minBytesToDetermineLength) =
          .ok ((data.drop idx).take 4 ++ [0xff, 0xff]) := by
        have h := SpacePacketHead.new_six (u := (data.drop idx).take 6) (List.length_take_of_le h₆)
        rwa [List.take_take] at h
      obtain ⟨head, hhead, h⟩ := bind_ok h
      obtain rfl := Except.ok.inj (hnew.symm.trans hhead)
      obtain ⟨len, -, h⟩ := bind_ok h
      obtain ⟨all, hall, h⟩ := bind_ok h
      have hst := Started.of_six ht h₆ hv
      split at h
      · rename_i htrue
        rw [htrue] at hall
        obtain ⟨r, hr, h⟩ := bind_ok h
        obtain ⟨s₁, sent₁⟩ := r
        simp only [pure, Except.pure, Except.ok.injEq, Prod.mk.injEq] at h
        obtain ⟨rfl, rfl, -, -⟩ := h
        obtain ⟨hnone, hgood⟩ := finish_good (hst _) hall hr
        exact ⟨kept_none hnone, hgood⟩
      · simp only [pure, Except.pure, Except.ok.injEq, Prod.mk.injEq] at h
        obtain ⟨rfl, rfl, -, -⟩ := h
        refine ⟨fun c hc => Or.inl ?_, by simp⟩
        obtain rfl := Option.some.inj hc
        exact hst _

/-- The start of an encapsulation packet. -/
theorem startNewEncap_good {b : Octet} (hb : octetAt data idx = .ok b)
    (hv : getPVN b = pvnEncapsulationPacket) (hn : s.packet = none)
    (h : s.startNewEncap data pointer idx = .ok (s', sent, idx', more)) :
    Kept s' ∧ ∀ x ∈ sent, Good x := by
  obtain ⟨t, ht⟩ := drop_of_octetAt hb
  have hother : ∀ {n : ℕ}, 0 < n → OtherVersion ((data.drop idx).take n) := by
    intro n h0
    obtain ⟨k, rfl⟩ : ∃ k, n = k + 1 := ⟨n - 1, by omega⟩
    exact ⟨b, t.take k, by rw [ht]; rfl, hv⟩
  have hlt : 0 < data.length - idx := by
    rw [← List.length_drop, ht]
    exact Nat.succ_pos _
  unfold startNewEncap at h
  split at h
  · unfold skipContinued at h
    simp only [Except.ok.injEq, Prod.mk.injEq] at h
    obtain ⟨rfl, rfl, -, -⟩ := h
    exact ⟨kept_none hn, by simp⟩
  · dsimp only at h
    rw [hb] at h
    simp only [bind, Except.bind] at h
    split at h
    · split at h
      · simp only [pure, Except.pure, Except.ok.injEq, Prod.mk.injEq] at h
        obtain ⟨rfl, rfl, -, -⟩ := h
        exact ⟨kept_none hn, by simp⟩
      · simp only [pure, Except.pure, Except.ok.injEq, Prod.mk.injEq] at h
        obtain ⟨rfl, rfl, -, -⟩ := h
        exact ⟨kept_none hn, by simp⟩
    · split at h
      · simp only [pure, Except.pure, Except.ok.injEq, Prod.mk.injEq] at h
        obtain ⟨rfl, rfl, -, -⟩ := h
        refine ⟨fun c hc => Or.inr ?_, by simp⟩
        obtain rfl := Option.some.inj hc
        exact hother hlt
      · obtain ⟨len, -, h⟩ := bind_ok h
        obtain ⟨all, hall, h⟩ := bind_ok h
        have hhead := hother (Encap.headerOctets_pos b)
        split at h
        · simp only [pure, Except.pure, Except.ok.injEq, Prod.mk.injEq] at h
          obtain ⟨rfl, rfl, -, -⟩ := h
          refine ⟨kept_none rfl, fun x hx => ?_⟩
          obtain rfl := List.mem_singleton.1 hx
          refine Or.inr (otherVersion_flatten ?_)
          obtain ⟨b', t', hb', hv'⟩ := hhead
          exact ⟨b', _, by rw [Chain.append, hb']; rfl, hv'⟩
        · simp only [pure, Except.pure, Except.ok.injEq, Prod.mk.injEq] at h
          obtain ⟨rfl, rfl, -, -⟩ := h
          refine ⟨fun c hc => Or.inr ?_, by simp⟩
          obtain rfl := Option.some.inj hc
          obtain ⟨b', t', hb', hv'⟩ := hhead
          exact ⟨b', _, by rw [Chain.append, hb']; rfl, hv'⟩

/-- A pass goes by the version of the packet at hand, or of the next one. -/
theorem pass_eq : s.pass data pointer idx =
    (s.packet.elim (octetAt data idx) fun c => octetAt c.head 0) >>= fun first =>
      if getPVN first = pvnSpacePacket then s.assembleSpacePkt data pointer idx
      else if getPVN first = pvnEncapsulationPacket then s.assembleEncap data pointer idx
      else .ok (s, [], idx, false) := by
  unfold pass
  cases s.packet <;> rfl

/-- **One pass** keeps what is at hand, and sends nothing else. -/
theorem pass_good (hs : Kept s) (h : s.pass data pointer idx = .ok (s', sent, idx', more)) :
    Kept s' ∧ ∀ x ∈ sent, Good x := by
  have hsame : s' = s → sent = [] → Kept s' ∧ ∀ x ∈ sent, Good x := by
    rintro rfl rfl
    exact ⟨hs, by simp⟩
  rw [pass_eq] at h
  obtain ⟨b, hb, h⟩ := bind_ok h
  split at h
  · rename_i hv
    unfold assembleSpacePkt at h
    split at h
    · simp only [Except.ok.injEq, Prod.mk.injEq] at h
      exact hsame h.1.symm h.2.1.symm
    · split at h
      · rename_i c hc
        rw [hc, Option.elim_some] at hb
        have hst : Started c := by
          rcases hs c hc with h | ⟨b', t, hb', hv'⟩
          · exact h
          · rw [hb'] at hb
            obtain rfl : b' = b := Except.ok.inj hb
            rw [hv'] at hv
            exact absurd hv (by decide)
        rcases continuePkt_cases h with ⟨hn, rfl⟩ | ⟨part, ⟨hp, rfl⟩ | ⟨hall, hfin⟩⟩
        · exact ⟨kept_none hn, by simp⟩
        · refine ⟨fun c' hc' => Or.inl ?_, by simp⟩
          rw [hp] at hc'
          obtain rfl := Option.some.inj hc'
          exact started_extend hst part
        · obtain ⟨hnone, hgood⟩ := finish_good (started_extend hst part) hall hfin
          exact ⟨kept_none hnone, hgood⟩
      · rename_i hn
        rw [hn, Option.elim_none] at hb
        exact startNewSpacePkt_good hb hv hn h
  · split at h
    · rename_i hv
      unfold assembleEncap at h
      split at h
      · simp only [Except.ok.injEq, Prod.mk.injEq] at h
        exact hsame h.1.symm h.2.1.symm
      · split at h
        · rename_i c hc
          rw [hc, Option.elim_some] at hb
          have hother : OtherVersion c.head := by
            obtain ⟨t, ht⟩ := drop_of_octetAt hb
            exact ⟨b, t, ht, hv⟩
          unfold continueEncap at h
          obtain ⟨b', -, h⟩ := bind_ok h
          rcases continuePkt_cases h with ⟨hn, rfl⟩ | ⟨part, ⟨hp, rfl⟩ | ⟨-, hfin⟩⟩
          · exact ⟨kept_none hn, by simp⟩
          · refine ⟨fun c' hc' => Or.inr ?_, by simp⟩
            rw [hp] at hc'
            obtain rfl := Option.some.inj hc'
            exact otherVersion_extend hother _ part
          · obtain ⟨rfl, rfl⟩ := Prod.mk.inj (Except.ok.inj hfin)
            refine ⟨kept_none rfl, fun x hx => ?_⟩
            obtain rfl := List.mem_singleton.1 hx
            exact Or.inr (otherVersion_flatten (otherVersion_extend hother _ part))
        · rename_i hn
          rw [hn, Option.elim_none] at hb
          exact startNewEncap_good hb hv hn h
    · simp only [Except.ok.injEq, Prod.mk.injEq] at h
      exact hsame h.1.symm h.2.1.symm

theorem loop_good : ∀ (fuel idx : ℕ) {s s' : Rcv} {sent : List Bytes}, Kept s →
    loop fuel s data pointer idx = .ok (s', sent) → Kept s' ∧ ∀ x ∈ sent, Good x := by
  intro fuel
  induction fuel with
  | zero =>
    intro idx s s' sent hs h
    unfold loop at h
    split at h
    · exact absurd h (by simp)
    · obtain ⟨rfl, rfl⟩ := Prod.mk.inj (Except.ok.inj h)
      exact ⟨hs, by simp⟩
  | succ fuel ih =>
    intro idx s s' sent hs h
    unfold loop at h
    split at h
    · obtain ⟨⟨s₁, sent₁, idx₁, more⟩, hpass, h⟩ := bind_ok h
      obtain ⟨hs₁, hg₁⟩ := pass_good hs hpass
      cases more with
      | false =>
        obtain ⟨rfl, rfl⟩ := Prod.mk.inj (Except.ok.inj h)
        exact ⟨hs₁, hg₁⟩
      | true =>
        obtain ⟨⟨s₂, sent₂⟩, hloop, h⟩ := bind_ok h
        obtain ⟨rfl, rfl⟩ := Prod.mk.inj (Except.ok.inj h)
        obtain ⟨hs₂, hg₂⟩ := ih idx₁ hs₁ hloop
        exact ⟨hs₂, fun x hx => (List.mem_append.1 hx).elim (hg₁ x) (hg₂ x)⟩
    · obtain ⟨rfl, rfl⟩ := Prod.mk.inj (Except.ok.inj h)
      exact ⟨hs, by simp⟩

/-- **Whatever frames are received**, a packet that is sent is an encapsulation packet or has
the greatest length. -/
theorem run_good (ch : Channel) : ∀ (frames : List Bytes) {s s' : Rcv} {sent : List Bytes},
    Kept s → runAll (assemblePacket ch) s frames = .ok (s', sent) → ∀ x ∈ sent, Good x := by
  intro frames
  induction frames with
  | nil =>
    intro s s' sent _ h
    obtain ⟨rfl, rfl⟩ := Prod.mk.inj (Except.ok.inj h)
    simp
  | cons u frames ih =>
    intro s s' sent hs h
    obtain ⟨s₁, o₁, o₂, h₁, h₂, rfl⟩ := runAll_cons_inv h
    obtain ⟨pointer, -, hloop⟩ := bind_ok h₁
    obtain ⟨hs₁, hg⟩ := loop_good _ _ hs hloop
    exact fun x hx => (List.mem_append.1 hx).elim (hg x) (ih hs₁ h₂ x)

end Rcv

/-! ## Sender and receiver -/

/-- A sender of frames with data fields of `D` octets. -/
def Gen.start (c : Channel) (D : ℕ) : Gen := { channel := c, frameSize := c.nonDataLength + D }

/-- The packets given to the sender come out of the receiver. -/
def Lossless (c : Channel) (D : ℕ) (inputs : List (Bytes × List Bool)) : Prop :=
  ∃ s sent r, runAll Gen.processData (Gen.start c D) inputs = .ok (s, sent) ∧
    runAll (Rcv.assemblePacket c) {} sent = .ok (r, inputs.map Prod.fst)

variable {c : Channel} {D : ℕ} {inputs : List (Bytes × List Bool)}

theorem start_waiting (c : Channel) (hD : 1 ≤ D) : Gen.Waiting D (Gen.start c D) (ending []) := by
  refine ⟨Nat.add_sub_cancel_left _ _, rfl, {}, ⟨fun _ => rfl, fun u hu => absurd hu (by simp), rfl, rfl,
    by simp, rfl⟩, ⟨rfl, hD, fun _ => rfl, fun u hu => absurd hu (by simp),
    fun u hu => absurd hu (by simp), fun u hu => absurd hu (by simp)⟩⟩

/-- Only packets of the greatest length come out. -/
theorem Lossless.big (h : Lossless c D inputs) (hwf : ∀ a ∈ inputs, SpacePacket.WellFormed a.1) :
    ∀ a ∈ inputs, Big a.1 := by
  obtain ⟨s, sent, r, -, hrcv⟩ := h
  intro a ha
  rcases Rcv.run_good c sent (Rcv.kept_none rfl) hrcv a.1 (List.mem_map_of_mem ha) with
    ⟨hlen, hidle⟩ | ⟨b, t, hb, hv⟩
  · exact ⟨hwf a ha, hlen, hidle⟩
  · obtain ⟨⟨b', t', hb', hv'⟩, -⟩ := hwf a ha
    rw [hb] at hb'
    obtain ⟨rfl, -⟩ := List.cons.inj hb'
    unfold getPVN pvnEncapsulationPacket at hv
    omega

/-- What the sender holds back of the last packet. -/
theorem held_iff {b lead : Bytes} {i₁ i₂ : List Bytes} (h : Carries b [ending lead] i₂ []) :
    packets i₂ = [] ↔ ¬ Gen.Held lead (i₁ ++ i₂).getLast? := by
  unfold Gen.Held
  rcases h.single rfl rfl with ⟨-, hl, rfl⟩ | ⟨-, hl, rfl⟩
  · have hl : lead = [] := hl
    simp [packets, hl]
  · have hl : lead ≠ [] := hl
    rw [List.getLast?_concat]
    simp [packets, hl, List.filter_cons]

theorem lossless_of_big (h14 : 14 ≤ D) (hD : D ≤ 2046) (hbig : ∀ a ∈ inputs, Big a.1) :
    Lossless c D inputs ↔ headersFit D (0, false) (inputs.map Prod.snd) = true := by
  obtain ⟨s', zs, lead', items, hrun, hfill, hneat, hitems, hpackets, hfits⟩ :=
    Gen.run_big h14 hD inputs (start_waiting c (by omega)) rfl (by simp [Gen.start]) hbig
  have hheld := hfits none false (by simp [Gen.Held])
  rw [Option.or_none] at hheld
  have hc := hfill.carries [] [] (.first (.nil []))
  rw [List.nil_append] at hc
  obtain ⟨b, i₁, i₂, h₁, h₂, rfl⟩ := hc.split
  have hrecv : Rcv.Receives D (Gen.start c D).channel (Gen.start c D).currentFrameNumber {} zs
      (packets i₁) := Rcv.receive_run h14 hD h₁ h₂
    ⟨fun _ => ⟨rfl, fun c hc => absurd hc (by simp)⟩, fun _ _ h => absurd rfl h,
      fun _ _ h => absurd rfl h⟩ hfill.full hneat hitems
  rw [Gen.packets_append] at hpackets
  rw [show ([] : Bytes).length = 0 from rfl, ← held_iff h₂] at hheld
  rw [hheld]
  constructor
  · rintro ⟨s, sent, r, hgen, hrcv⟩
    rw [hrun] at hgen
    obtain ⟨rfl, rfl⟩ := Prod.mk.inj (Except.ok.inj hgen)
    have hfit : ∀ z ∈ zs, Fits D z := by
      by_contra hcon
      push Not at hcon
      obtain ⟨e, he⟩ := hrecv.2 hcon
      exact absurd (hrcv.symm.trans he) (by simp)
    obtain ⟨r', hr'⟩ := hrecv.1 hfit
    have hout := Except.ok.inj (hr'.symm.trans hrcv)
    have heq : packets i₁ = inputs.map Prod.fst := congrArg Prod.snd hout
    rw [← hpackets] at heq
    exact ⟨hfit, List.append_right_eq_self.1 heq.symm⟩
  · rintro ⟨hfit, hnone⟩
    obtain ⟨r, hr⟩ := hrecv.1 hfit
    rw [hnone, List.append_nil] at hpackets
    rw [hpackets] at hr
    exact ⟨_, _, r, hrun, hr⟩

/-- **When the service is lossless.** The receiver takes every packet for one of the greatest
length, since its `SpacePacket` sets the length field of the head it has read. -/
theorem lossless_iff (c : Channel) (h14 : 14 ≤ D) (hD : D ≤ 2046)
    (hwf : ∀ a ∈ inputs, SpacePacket.WellFormed a.1) :
    Lossless c D inputs ↔
      (∀ a ∈ inputs, a.1.length = maxLength ∧ SpacePacket.isIdle a.1 = .ok false) ∧
        headersFit D (0, false) (inputs.map Prod.snd) = true := by
  constructor
  · intro h
    have hbig := h.big hwf
    exact ⟨fun a ha => ⟨(hbig a ha).length_eq, (hbig a ha).isIdle⟩,
      (lossless_of_big h14 hD hbig).1 h⟩
  · rintro ⟨hlen, hfit⟩
    exact (lossless_of_big h14 hD fun a ha => ⟨hwf a ha, (hlen a ha).1, (hlen a ha).2⟩).2 hfit

/-- A packet of the greatest length. -/
def longest : Bytes := [0, 0, 0, 0, 0xff, 0xff] ++ newUnit 65536

theorem longest_length : longest.length = maxLength := by
  unfold longest
  rw [List.length_append, newUnit_length]
  rfl

theorem lossless_longest : Lossless { scid := 1, vcid := 1 } 14 [(longest, [true])] := by
  refine (lossless_iff { scid := 1, vcid := 1 } (by decide) (by decide) ?_).2 ⟨?_, by decide⟩
  · intro a ha
    obtain rfl := List.mem_singleton.1 ha
    refine ⟨⟨0, _, rfl, by decide⟩, ?_, ?_⟩
    · rw [longest_length]
      decide
    · rw [longest_length]
      rfl
  · intro a ha
    obtain rfl := List.mem_singleton.1 ha
    refine ⟨longest_length, ?_⟩
    have hid : toU16 longest = .ok 0 := rfl
    unfold SpacePacket.isIdle
    rw [hid]
    exact congrArg Except.ok (by decide)

/-- A packet of seven octets in a data field of fourteen is not delivered. -/
theorem short_packet_lost : SpacePacket.WellFormed [0, 1, 0, 0, 0, 0, 5] ∧
    ¬ Lossless { scid := 1, vcid := 1 } 14 [([0, 1, 0, 0, 0, 0, 5], [true])] := by
  have hwf : SpacePacket.WellFormed [0, 1, 0, 0, 0, 0, 5] :=
    ⟨⟨0, _, rfl, by decide⟩, by decide, by decide⟩
  refine ⟨hwf, fun h => ?_⟩
  have hbig := h.big (by
    intro a ha
    obtain rfl := List.mem_singleton.1 ha
    exact hwf) _ List.mem_cons_self
  exact absurd hbig.length_eq (by decide)

end ChannelEmulator.TM
