import ChannelEmulator.Framing.Loss
import ChannelEmulator.Proof.EncapsulationService

/-!
# TM frames lost on the way

* `Resumes`: where the receiver goes on with the packets of a frame.
* `Rcv.takes_unmet`, `Rcv.takes_continued`: one zone, with whatever is at hand.
* `Tracking.run`: **what lies in the frames received is delivered**, whichever are lost, in every run
  whose frames are all taken so.
* `resynchronisation_lost`: elsewhere the version of a packet is read from the end of one that is lost.
-/

namespace ChannelEmulator.TM

open Framing
open Gen (zoneFrames encaps configured Mixed Orderly Uncut Clean)
open Multiplexing.Remove (Holds extend)

/-- The packets' assembly, behind the test of the frame count. -/
def PacketService.counted (s : PacketService) (u : Bytes) : Rcv :=
  if u.getD 3 0 ≠ s.tallies.currentFrameNumber then { s.rcv with packet := none } else s.rcv

/-- The data field is extracted to its end, and where a packet starts behind octets that there is
nothing to append to, the first of these octets is of a version that is extracted. -/
structure Resumes (s : Rcv) (data : Bytes) (pointer : ℕ) : Prop where
  ends : Rcv.Extractable s data pointer
  version : s.packet = none → 0 < pointer → noPacketStart pointer = false →
    ∀ first, data.head? = some first → Rcv.Recognised first

/-- The condition on a frame and the receiver ahead of it. -/
def StepResumes (v : Service) (s : PacketService) (u : Bytes) : Prop :=
  ∀ pointer, getFirstHeaderPointer u = .ok pointer → Resumes (s.counted u) (v.channel.data u) pointer

namespace Rcv

variable {s s' : Rcv} {D count : ℕ} {z : Zone Octet} {ch : Channel} {c : Chain} {a r : Bytes}

/-! ## One zone -/

theorem kept_head (hs : Kept s) (hc : s.packet = some c) :
    ∃ first tail, c.head = first :: tail ∧ Recognised first := by
  rcases hs c hc with hst | ⟨b, t, hb, hv⟩
  · obtain ⟨b, hb, hv⟩ := hst.octetAt_zero
    obtain ⟨t, ht⟩ := drop_of_octetAt hb
    exact ⟨b, t, ht, Or.inl hv⟩
  · exact ⟨b, t, hb, Or.inr hv⟩

/-- What the loop leaves at hand. -/
theorem kept_assemble (hs : Kept s) {u : Bytes} {out : List Bytes}
    (h : assemblePacket ch s u = .ok (s', out)) : Kept s' := by
  obtain ⟨pointer, -, hloop⟩ := bind_ok h
  exact (loop_good _ _ hs hloop).1

/-- A data field whose loop ends is refused by none of its packets. -/
theorem uncut_of_judged {ε σ β : Type} {x : Except ε (σ × List β)} {good : Prop} {out : List β} {I : σ → Prop}
    (h : Judged x good out I) (hx : ∃ q, x = .ok q) : ∃ s', x = .ok (s', out) ∧ I s' := by
  by_cases hg : good
  · exact h.1 hg
  · obtain ⟨e, he⟩ := h.2 hg
    obtain ⟨q, hq⟩ := hx
    rw [he] at hq
    cases hq

/-- The extraction of the frame of a zone. -/
theorem extracted (hD : D ≤ 2046) (hz : z.flat.length = D)
    (hext : Extractable s z.flat (pointerOf z)) :
    ∃ q, assemblePacket ch s (frame ch count (pointerOf z) z.flat) = .ok q := by
  rw [assemblePacket_zone hD hz, ← hz]
  exact loop_ends_iff.2 hext

/-- A zone that packets start only, whatever is at hand. -/
theorem takes_unmet (ch : Channel) (count : ℕ) (h₀ : 0 < D) (hD : D ≤ 2046) (hz : z.flat.length = D)
    (hl : z.lead = []) (hord : Orderly D z) (ht : Opening D z.trail) (hs : Kept s)
    (hm : s.multiDataField = true) (hext : Extractable s z.flat (pointerOf z)) :
    ∃ s', assemblePacket ch s (frame ch count (pointerOf z) z.flat) = .ok (s', encaps z.whole) ∧
      AtHand D s' z.trail := by
  have hb : behind z ≠ [] := by
    intro hb
    rw [flat_length, hl, hb] at hz
    simp only [List.length_nil] at hz
    omega
  have hptr : pointerOf z = 0 := by rw [pointerOf_behind hb, hl]; rfl
  have hok : ∃ q, assemblePacket ch s (frame ch count (pointerOf z) z.flat) = .ok q :=
    extracted hD hz hext
  cases hp : s.packet with
  | none =>
    have h := loop_orderly hz hD hm hp hord ht (2 * D + 1) (by omega)
    rw [hl] at h
    rw [assemblePacket_zone hD hz] at hok ⊢
    exact uncut_of_judged h hok
  | some c =>
    -- what is at hand is not continued
    obtain ⟨first, tail, hc, hv⟩ := kept_head hs hp
    have hpass : s.pass z.flat (pointerOf z) 0 = .ok (s.dropPacket, [], z.lead.length, true) := by
      rw [hl]
      exact pass_unmet hp hc hv (onlyIdleData_lt (by omega)) (by rw [hptr]; rfl)
    exact uncut_of_judged (judged_of_pass h₀ hD hz hord ht ch count hpass rfl hm rfl) hok

/-- The first pass over a zone that goes on with a packet. -/
structure Front (s : Rcv) (z : Zone Octet) (s₁ : Rcv) (joined : List Bytes) : Prop where
  multi : s₁.multiDataField = true
  pass : ∃ idx more, s.pass z.flat (pointerOf z) 0 = .ok (s₁, joined, idx, more) ∧
    (more = true → idx = z.lead.length) ∧ (behind z ≠ [] → more = true ∧ s₁.packet = none)

/-- With a packet at hand. -/
theorem front_continued (hs : Kept s) (hm : s.multiDataField = true) (hp : s.packet = some c) (hD : D ≤ 2046)
    (hz : z.flat.length = D) (hl : z.lead ≠ []) (hw : ∀ x ∈ z.whole, x ≠ [])
    (hext : Extractable s z.flat (pointerOf z)) : ∃ s₁ joined, Front s z s₁ joined := by
  obtain ⟨h0, honly, tail, hcont, htail⟩ := continuedLen_lead hD hz hl (header_none hw)
  obtain ⟨first, t, hc, hv⟩ := kept_head hs hp
  have hflat := flat_length z
  have hpos := List.length_pos_iff.2 hl
  obtain ⟨x, hx, hgo⟩ := hext.resolve_left (List.length_pos_iff.1 (by omega : 0 < z.flat.length))
  rw [hp, Option.elim_some, hc] at hx
  obtain rfl : first = x := Option.some.inj hx
  have hcontd := hgo hv honly
  rw [if_neg (by omega), hp, Option.elim_some] at hcontd
  obtain ⟨finish, hfin, hpass⟩ := pass_continued z.flat hp hc hv honly
  obtain ⟨s₁, sent, more, hok, hsame, hfound⟩ := continuePkt_ok (s := s) h0 hfin hcontd.1 hcontd.2.1
  rw [hcont] at hok hfound
  refine ⟨s₁, sent, hsame.1.trans hm, _, more, hpass.trans hok, fun _ => rfl, fun hb => ?_⟩
  obtain ⟨hnone, hmore⟩ := hfound (htail.2 hb)
  exact ⟨hmore.trans hm, hnone⟩

/-- With nothing at hand. -/
theorem front_skipped (hm : s.multiDataField = true) (hp : s.packet = none) (hD : D ≤ 2046)
    (hz : z.flat.length = D) (hl : z.lead ≠ []) (hw : ∀ x ∈ z.whole, x ≠ [])
    (h : Resumes s z.flat (pointerOf z)) : Front s z s [] := by
  obtain ⟨h0, honly, -⟩ := continuedLen_lead hD hz hl (header_none hw)
  have hflat := flat_length z
  have hpos := List.length_pos_iff.2 hl
  obtain ⟨first, tail, hcons⟩ := List.exists_cons_of_ne_nil
    (List.length_pos_iff.1 (by omega : 0 < z.flat.length))
  have hhead : z.flat.head? = some first := by rw [hcons]; rfl
  rcases pointerOf_cases hz with ⟨hb, hptr, hlt⟩ | ⟨hb, hfull⟩
  · -- the packets start behind octets whose version is extracted
    have hnp : noPacketStart (pointerOf z) = false := noPacketStart_lt (by omega)
    have hpass := pass_unappended hp hcons (h.version hp h0 hnp first hhead) honly h0
    rw [skipContinued, hnp, if_neg Bool.false_ne_true, Nat.zero_add, hptr, hm] at hpass
    rw [← hptr] at hpass
    exact ⟨hm, _, true, hpass, fun _ => hptr, fun _ => ⟨rfl, hp⟩⟩
  · -- no packet starts: a version that is extracted would hold the loop for ever
    have hptr : pointerOf z = maxFirstHeaderPointer := by
      unfold pointerOf
      rw [header_none hw hb]
      rfl
    have hnot : ¬Recognised first := by
      intro hv
      obtain ⟨x, hx, hgo⟩ := h.ends.resolve_left (by rw [hcons]; simp)
      rw [hp, Option.elim_none, hhead] at hx
      obtain rfl := Option.some.inj hx
      have hskip := hgo hv honly
      rw [if_neg (by omega), hp, Option.elim_none] at hskip
      have := (hskip hm).1
      rw [hptr] at this
      exact absurd this (by decide)
    obtain ⟨h₁, h₂⟩ := not_or.1 hnot
    have hpass : s.pass z.flat (pointerOf z) 0 = .ok (s, [], 0, false) := by
      rw [pass_fresh hp (show z.flat.drop 0 = first :: tail from hcons), if_neg h₁, if_neg h₂]
    exact ⟨hm, 0, false, hpass, fun hf => absurd hf (by decide), fun hne => absurd hb hne⟩

/-- A zone behind its first pass. -/
theorem takes_continued (ch : Channel) (count : ℕ) (hD : D ≤ 2046) (hz : z.flat.length = D)
    (hl : z.lead ≠ []) (hord : Orderly D z) (hw : ∀ x ∈ z.whole, x ≠ []) (ht : Opening D z.trail)
    (hext : Extractable s z.flat (pointerOf z)) {s₁ : Rcv} {joined : List Bytes}
    (hfront : Front s z s₁ joined) :
    ∃ s', assemblePacket ch s (frame ch count (pointerOf z) z.flat) = .ok (s', joined ++ encaps z.whole) ∧
      s'.multiDataField = true ∧ (behind z ≠ [] → AtHand D s' z.trail) ∧ (behind z = [] → s' = s₁) := by
  obtain ⟨hm, idx, more, hpass, hidx, hmore⟩ := hfront
  have hflat := flat_length z
  have hpos := List.length_pos_iff.2 hl
  by_cases hb : behind z = []
  · have hwhole : z.whole = [] := by
      refine List.eq_nil_iff_forall_not_mem.2 fun x hx => hw x hx ?_
      exact List.flatten_eq_nil_iff.1 (List.append_eq_nil_iff.1 hb).1 x hx
    have hlen : z.lead.length = D := by
      rw [hb, List.length_nil] at hflat
      omega
    refine ⟨s₁, ?_, hm, fun h => absurd hb h, fun _ => rfl⟩
    rw [assemblePacket_zone hD hz, hwhole, show encaps [] = [] from rfl]
    cases more with
    | false =>
      rw [List.append_nil]
      exact loop_stop (by omega) hpass rfl
    | true => exact loop_next (by omega) hpass (loop_done (by have := hidx rfl; omega) _)
  · obtain ⟨rfl, hnone⟩ := hmore hb
    obtain rfl := hidx rfl
    obtain ⟨s', hs', hhand⟩ := uncut_of_judged
      (judged_of_pass (by omega) hD hz hord ht ch count hpass rfl hm hnone) (extracted hD hz hext)
    exact ⟨s', hs', hhand.multi, fun _ => hhand, fun h => absurd h hb⟩

/-- The front of the zone completes the header of what is at hand. -/
theorem header_told (hp : s.packet = some c) (hc : Holds c a) (hD : D ≤ 2046)
    (hz : z.flat.length = D) (hl : z.lead ≠ []) (hw : ∀ x ∈ z.whole, x ≠ []) (hv : isEncap a = true)
    (hext : Extractable s z.flat (pointerOf z)) :
    ∀ b, a.head? = some b → Encap.minBytesToDetermineLength b ≤ (a ++ z.lead).length := by
  intro b hb
  obtain ⟨h0, honly, tail, hcont, -⟩ := continuedLen_lead hD hz hl (header_none hw)
  have hflat := flat_length z
  have hpos := List.length_pos_iff.2 hl
  obtain ⟨x, u, hx⟩ := List.exists_cons_of_ne_nil hc.head_ne
  have hfirst : a.head? = some x := by
    rw [← hc.flatten_eq, Chain.flatten, hx]
    rfl
  obtain rfl : x = b := Option.some.inj (hfirst.symm.trans hb)
  have hpvn : getPVN x = pvnEncapsulationPacket := by
    rw [isEncap, hfirst] at hv
    exact of_decide_eq_true hv
  obtain ⟨y, hy, hgo⟩ := hext.resolve_left (List.length_pos_iff.1 (by omega : 0 < z.flat.length))
  rw [hp, Option.elim_some, hx] at hy
  obtain rfl : x = y := Option.some.inj hy
  have hcontd := hgo (Or.inr hpvn) honly
  rw [if_neg (by omega), hp, Option.elim_some] at hcontd
  have hne : ¬getPVN x = pvnSpacePacket := by rw [hpvn]; decide
  obtain ⟨-, ⟨-, e, he⟩, -⟩ := hcontd
  rw [hcont, lengthOf, minOctets, if_neg hne, if_neg hne, take_lead] at he
  -- the head that tells the length is among the octets put together
  obtain ⟨hext', -⟩ := hc.extend hfirst z.lead
  change Encap.expectedLength (extend c x z.lead).head = .ok e at he
  obtain ⟨w, hw'⟩ : ∃ w, (extend c x z.lead).head = x :: w := by
    unfold extend
    split
    · exact ⟨u, hx⟩
    · exact ⟨u ++ z.lead, by rw [Chain.append, hx]; rfl⟩
  rw [hw'] at he
  refine (Encap.header_of_expectedLength he).2.trans ?_
  rw [← hw', ← hext'.flatten_eq, Chain.flatten, List.length_append]
  exact Nat.le_add_right _ _

/-- The front of a zone that goes on with the packet whose start is at hand. -/
theorem Front.synced {s₁ : Rcv} {joined : List Bytes} (hf : Front s z s₁ joined) (hp : s.packet = some c)
    (hc : Holds c a) (ha : a ≠ []) (hD : D ≤ 2046) (hz : z.flat.length = D) (hl : z.lead ≠ [])
    (hw : ∀ x ∈ z.whole, x ≠ []) (henc : EncPacket (a ++ z.lead ++ r)) (hr : r ≠ [] → behind z = [])
    (hext : Extractable s z.flat (pointerOf z)) :
    (r = [] → joined = [a ++ z.lead]) ∧
      (r ≠ [] → ∃ c', s₁.packet = some c' ∧ Holds c' (a ++ z.lead)) := by
  obtain ⟨h0, honly, tail, hcont, htail⟩ := continuedLen_lead hD hz hl (header_none hw)
  have hflat := flat_length z
  have hv : isEncap a = true := by
    rw [← isEncap_append ha z.lead, ← isEncap_append (by simp [ha]) r]
    exact henc.version
  have htold := header_told hp hc hD hz hl hw hv hext
  obtain ⟨c', hc', hpass⟩ := pass_extend hp hc ha henc honly h0 hcont (by omega) (take_lead z)
    (Or.inr htold)
  obtain ⟨idx, more, hpass', -⟩ := hf.pass
  rw [hpass] at hpass'
  constructor
  · intro hr0
    rw [if_pos hr0] at hpass'
    exact ((Prod.mk.inj (Prod.mk.inj (Except.ok.inj hpass')).2).1).symm
  · intro hr0
    have hfalse : tail = false := by
      by_contra h
      exact htail.1 (by simpa using h) (hr hr0)
    rw [if_neg hr0, hfalse, if_neg Bool.false_ne_true] at hpass'
    obtain rfl := (Prod.mk.inj (Except.ok.inj hpass')).1
    exact ⟨c', rfl, hc'⟩

end Rcv

/-! ## The receiver from frame to frame -/

variable {v : Service} {D n : ℕ} {keep : List Bool} {s : PacketService} {a b : Bytes} {z : Zone Octet}

theorem svc_received {u : Bytes} (hr : Received v u) (s : PacketService) : s.svc v u = (do
    let (rcv, sent) ← (s.counted u).assemblePacket v.channel u
    return ({ tallies := tally s.tallies u, rcv := rcv }, sent)) := by
  rw [svc_data hr.valid hr.data]
  simp only [hr.deliver_eq]
  rfl

theorem tally_count {u : Bytes} (hu : ¬Idle u) (k : Tallies) :
    (tally k u).currentFrameNumber = u.getD 3 0 + 1 := by
  rw [tally, if_neg hu]
  unfold Tallies.countFrame
  simp only [if_true, incCurrentFrameNumber_eq]
  split
  · rfl
  · next h =>
    rw [not_ne_iff.1 h]

/-- Ahead of frame `n`, of which `a` is the start of a packet that went before. The receiver expects the
count of the frame where it has taken the one ahead, and has the start at hand where it has taken all
frames that hold it. -/
structure Tracking (D : ℕ) (keep : List Bool) (n : ℕ) (a : Bytes) (s : PacketService) : Prop where
  multi : s.rcv.multiDataField = true
  held : Rcv.Kept s.rcv
  count : (0 < n → keep.getD (n - 1) false = true) → s.tallies.currentFrameNumber = UInt8.ofNat n
  sync : a ≠ [] → isEncap a = true → received keep ((n * D - a.length) / D) n = true →
    ∃ c, s.rcv.packet = some c ∧ Holds c a
  le : a.length ≤ n * D

namespace Tracking

/-- Frame `n` is lost. -/
theorem lose (h : Tracking D keep n a s) (hk : keep.getD n false = false) {a' : Bytes}
    (hle : a'.length ≤ (n + 1) * D) : Tracking D keep (n + 1) a' s := by
  refine ⟨h.multi, h.held, fun hc => ?_, fun ha _ hr => ?_, hle⟩
  · have := hc (Nat.succ_pos n)
    rw [Nat.add_sub_cancel, hk] at this
    exact absurd this Bool.false_ne_true
  · have hlt := position_lt ha hle
    rw [received_succ (by omega), hk] at hr
    exact absurd hr.2 Bool.false_ne_true

theorem counted_multi (h : Tracking D keep n a s) (u : Bytes) : (s.counted u).multiDataField = true := by
  unfold PacketService.counted
  split
  · exact h.multi
  · exact h.multi

theorem counted_held (h : Tracking D keep n a s) (u : Bytes) : Rcv.Kept (s.counted u) := by
  unfold PacketService.counted
  split
  · exact Rcv.kept_none rfl
  · exact h.held

/-- What is in step is not released. -/
theorem counted_sync (h : Tracking D keep n a s) {u : Bytes} (hu : u.getD 3 0 = UInt8.ofNat n) (ha : a ≠ [])
    (hv : isEncap a = true) (hr : received keep ((n * D - a.length) / D) n = true) :
    ∃ c, (s.counted u).packet = some c ∧ Holds c a := by
  have hlt := position_lt ha h.le
  have hcount := h.count fun hn => by
    exact received_iff.1 hr (n - 1) (by omega) (by omega)
  unfold PacketService.counted
  rw [if_neg (by rw [hu, hcount]; exact fun h => h rfl)]
  exact h.sync ha hv hr

/-- Frame `n` is received. -/
theorem next {u : Bytes} (hu : ¬Idle u) (hcount : u.getD 3 0 = UInt8.ofNat n) {rcv : Rcv}
    (hm : rcv.multiDataField = true) (hheld : Rcv.Kept rcv) {a' : Bytes}
    (hsync : a' ≠ [] → isEncap a' = true → received keep (((n + 1) * D - a'.length) / D) (n + 1) = true →
      ∃ c, rcv.packet = some c ∧ Holds c a') (hle : a'.length ≤ (n + 1) * D) (k : Tallies) :
    Tracking D keep (n + 1) a' { tallies := tally k u, rcv := rcv } := by
  refine ⟨hm, hheld, fun _ => ?_, hsync, hle⟩
  rw [tally_count hu, hcount, UInt8.ofNat_add]
  rfl

/-- The frame of zone `n` at the receiver. -/
structure Arrives (v : Service) (n : ℕ) (z : Zone Octet) (u : Bytes) : Prop where
  received : Received v u
  count : u.getD 3 0 = UInt8.ofNat n
  pointer : getFirstHeaderPointer u = .ok (Rcv.pointerOf z)
  data : v.channel.data u = z.flat

theorem arrives (hv : Matches v D) (hD : D ≤ 2046) (hz : z.flat.length = D) (hw : ∀ x ∈ z.whole, x ≠ []) :
    Arrives v n z (frame v.channel (n % 256) (Rcv.pointerOf z) z.flat) := by
  have hb : Rcv.pointerOf z = maxFirstHeaderPointer ∨ Rcv.pointerOf z < D := by
    rcases Rcv.pointerOf_cases hz with ⟨-, hptr, hlt⟩ | ⟨hb, -⟩
    · exact Or.inr (by omega)
    · refine Or.inl ?_
      unfold Rcv.pointerOf
      rw [Rcv.header_none hw hb]
      rfl
  refine ⟨frame_received hv hD _ hz hb, ?_, getFirstHeaderPointer_frame ?_, data_frame _ _ _ _⟩
  · rw [count_eq (getVCFrameCount_frame v.channel (n % 256) (Rcv.pointerOf z) z.flat)]
    apply UInt8.toNat_inj.1
    rw [UInt8.toNat_ofNat', UInt8.toNat_ofNat', Nat.mod_mod]
  · unfold maxFirstHeaderPointer at hb ⊢
    omega

theorem Arrives.svc {u : Bytes} (hu : Arrives v n z u) {rcv : Rcv} {out : List Bytes}
    (h : (s.counted u).assemblePacket v.channel u = .ok (rcv, out)) :
    s.svc v u = .ok ({ tallies := tally s.tallies u, rcv := rcv }, out) := by
  rw [svc_received hu.received, h]
  rfl

/-- Zone `n` is received and starts with a packet. -/
theorem first (h : Tracking D keep n [] s) (hv : Matches v D) (h₀ : 0 < D) (hD : D ≤ 2046)
    (hz : z.flat.length = D) (hl : z.lead = []) (hw : ∀ x ∈ z.whole, x ≠ []) (hord : Orderly D z)
    (ht : Rcv.Opening D z.trail)
    (hstep : StepResumes v s (frame v.channel (n % 256) (Rcv.pointerOf z) z.flat)) :
    ∃ s', s.svc v (frame v.channel (n % 256) (Rcv.pointerOf z) z.flat) = .ok (s', encaps z.whole) ∧
      Tracking D keep (n + 1) z.trail s' := by
  have hu := arrives (n := n) hv hD hz hw
  have hgo := hstep _ hu.pointer
  rw [hu.data] at hgo
  obtain ⟨rcv, hrun, hhand⟩ := Rcv.takes_unmet v.channel (n % 256) h₀ hD hz hl hord ht (h.counted_held _)
    (h.counted_multi _) hgo.ends
  refine ⟨_, hu.svc hrun, next hu.received.data hu.count hhand.multi
    (Rcv.kept_assemble (h.counted_held _) hrun) (fun hne henc _ => ?_) (trail_le hz) _⟩
  obtain ⟨c, hc⟩ := Option.ne_none_iff_exists'.1 (hhand.some_of hne)
  exact ⟨c, hc, hhand.encap henc c hc⟩

/-- Zone `n` is received and goes on with a packet, of which `r` is still to come. -/
theorem continued (h : Tracking D keep n a s) (hv : Matches v D) (hD : D ≤ 2046)
    (hz : z.flat.length = D) (ha : a ≠ []) (hl : z.lead ≠ []) (hw : ∀ x ∈ z.whole, x ≠ [])
    (hord : Orderly D z) (ht : Rcv.Opening D z.trail) {r : Bytes} (hx : Mixed D (a ++ z.lead ++ r))
    (hr : r ≠ [] → z.whole = [] ∧ z.trail = [])
    (hstep : StepResumes v s (frame v.channel (n % 256) (Rcv.pointerOf z) z.flat)) :
    ∃ s' joined, s.svc v (frame v.channel (n % 256) (Rcv.pointerOf z) z.flat) =
        .ok (s', joined ++ encaps z.whole) ∧
      Tracking D keep (n + 1) (if r = [] then z.trail else a ++ z.lead) s' ∧
      (r = [] → isEncap (a ++ z.lead) = true →
        received keep ((n * D - a.length) / D) (n + 1) = true → joined = [a ++ z.lead]) := by
  have hu := arrives (n := n) hv hD hz hw
  have hgo := hstep _ hu.pointer
  rw [hu.data] at hgo
  have hlt := position_lt ha h.le
  have hlen := Rcv.flat_length z
  have hbehind : r ≠ [] → Rcv.behind z = [] := fun hr0 => by
    rw [Rcv.behind, (hr hr0).1, (hr hr0).2]
    rfl
  -- whatever is at hand meets the front of the zone
  obtain ⟨s₁, joined, hfront⟩ : ∃ s₁ joined, Rcv.Front (s.counted _) z s₁ joined := by
    cases hp : (s.counted (frame v.channel (n % 256) (Rcv.pointerOf z) z.flat)).packet with
    | none => exact ⟨_, _, Rcv.front_skipped (h.counted_multi _) hp hD hz hl hw hgo⟩
    | some c => exact Rcv.front_continued (h.counted_held _) (h.counted_multi _) hp hD hz hl hw hgo.ends
  obtain ⟨rcv, hrun, hm, hhand, hfull⟩ := Rcv.takes_continued v.channel (n % 256) hD hz hl hord hw ht
    hgo.ends hfront
  -- in step, it is the start of the packet
  have hsync : isEncap (a ++ z.lead) = true → received keep ((n * D - a.length) / D) (n + 1) = true →
      (r = [] → joined = [a ++ z.lead]) ∧ (r ≠ [] → ∃ c', s₁.packet = some c' ∧ Holds c' (a ++ z.lead)) := by
    intro henc hrec
    obtain ⟨c, hp, hc⟩ := h.counted_sync hu.count ha (by rw [← isEncap_append ha z.lead]; exact henc)
      ((received_succ (by omega)).1 hrec).1
    have hp' := Rcv.encap_of_version hx (by rw [isEncap_append (by simp [ha])]; exact henc)
    exact hfront.synced hp hc ha hD hz hl hw hp' hbehind hgo.ends
  refine ⟨_, joined, hu.svc hrun, next hu.received.data hu.count hm
    (Rcv.kept_assemble (h.counted_held _) hrun) ?_ ?_ _, fun hr0 henc hrec => (hsync henc hrec).1 hr0⟩
  · by_cases hr0 : r = []
    · rw [if_pos hr0]
      intro hne henc _
      have hb : Rcv.behind z ≠ [] := fun hb => hne (List.append_eq_nil_iff.1 hb).2
      obtain ⟨c, hc⟩ := Option.ne_none_iff_exists'.1 ((hhand hb).some_of hne)
      exact ⟨c, hc, (hhand hb).encap henc c hc⟩
    · rw [if_neg hr0]
      intro _ henc hrec
      have hlead : z.lead.length = D := by
        rw [hbehind hr0, List.length_nil] at hlen
        omega
      rw [position_mid hlead h.le] at hrec
      rw [hfull (hbehind hr0)]
      exact (hsync henc hrec).2 hr0
  · by_cases hr0 : r = []
    · rw [if_pos hr0]
      exact trail_le hz
    · have := h.le
      rw [if_neg hr0, List.length_append, Nat.succ_mul]
      omega

/-! ## All frames -/

theorem frames_cons (c : Channel) (z : Zone Octet) (zs : List (Zone Octet)) :
    zoneFrames c (n % 256) (z :: zs) =
      frame c (n % 256) (Rcv.pointerOf z) z.flat :: zoneFrames c ((n + 1) % 256) zs := by
  rw [Rcv.zoneFrames_cons]
  unfold Gen.incFrameNumber maxVCFrameCount
  split
  · next h => rw [show (n + 1) % 256 = 0 by omega]
  · next h => rw [show (n + 1) % 256 = n % 256 + 1 by omega]

/-- **Frames of which some are lost**: what survives is delivered. -/
theorem run (hv : Matches v D) (h₀ : 0 < D) (hD : D ≤ 2046) {zs ws : List (Zone Octet)}
    {items its : List Bytes} (hc : Carries a zs items b) :
    ∀ {s : PacketService} {n : ℕ}, Tracking D keep n a s → Carries b ws its [] →
      (∀ x ∈ items ++ its, Mixed D x) → keep.length = n + zs.length → (∀ z ∈ zs, z.flat.length = D) →
      (∀ z ∈ zs, Orderly D z) →
      EveryStep (PacketService.svc v) (StepResumes v) s
        (kept (keep.drop n) (zoneFrames v.channel (n % 256) zs)) →
        ∃ s' out, runAll (PacketService.svc v) s
            (kept (keep.drop n) (zoneFrames v.channel (n % 256) zs)) = .ok (s', out) ∧
          (encaps (survivors D keep (n * D - a.length) items)).Sublist out := by
  induction hc with
  | nil a =>
    intro s n _ _ _ _ _ _ _
    refine ⟨s, [], ?_, List.nil_sublist _⟩
    rw [show zoneFrames v.channel (n % 256) [] = [] from rfl, kept_nil]
    rfl
  | @mid a lead zs items b ha hl hc ih =>
    -- the zone holds octets of one packet only, and the packet goes on
    intro s n h hb hi hk hfull hord hsteps
    obtain ⟨r, rest, hr, hitems⟩ := (hc.append hb).exists_rest (by simp [ha]) rfl
    have hx : Mixed D (a ++ lead ++ r) := hi _ (by rw [hitems]; exact List.mem_cons_self)
    have hlen : lead.length = D := by
      have := hfull ⟨lead, [], []⟩ List.mem_cons_self
      simpa [Zone.flat] using this
    have hk' : keep.length = n + 1 + zs.length := by rw [hk, List.length_cons]; omega
    have hfull' : ∀ z ∈ zs, z.flat.length = D := fun z hz => hfull z (List.mem_cons_of_mem _ hz)
    have hord' : ∀ z ∈ zs, Orderly D z := fun z hz => hord z (List.mem_cons_of_mem _ hz)
    rw [drop_flag (by rw [hk, List.length_cons]; omega), frames_cons] at hsteps ⊢
    rw [← position_mid hlen h.le]
    cases hkn : keep.getD n false with
    | false =>
      rw [hkn] at hsteps
      have hle : (a ++ lead).length ≤ (n + 1) * D := by
        have := h.le
        rw [List.length_append, Nat.succ_mul]
        omega
      exact ih (h.lose hkn hle) hb hi hk' hfull' hord' hsteps
    | true =>
      rw [hkn] at hsteps
      obtain ⟨s₁, joined, hz, htrack, -⟩ := h.continued hv hD (hfull _ List.mem_cons_self) ha hl (by simp)
        (hord _ List.mem_cons_self) (fun ht => absurd rfl ht) hx (fun _ => ⟨rfl, rfl⟩) hsteps.1
      rw [if_neg hr] at htrack
      obtain ⟨s₂, out, hrun, hsub⟩ := ih htrack hb hi hk' hfull' hord' (hsteps.2 _ _ hz)
      exact ⟨s₂, _, runAll_cons hz hrun, hsub.trans (List.sublist_append_right _ _)⟩
  | @last a lead whole trail zs items b ha hl hc ih =>
    -- the zone ends the open packet: it survives where all its frames were received
    intro s n h hb hi hk hfull hord hsteps
    rw [List.cons_append, List.append_assoc] at hi
    have hlen : (⟨lead, whole, trail⟩ : Zone Octet).flat.length = D := hfull _ List.mem_cons_self
    have hw : ∀ x ∈ whole, x ≠ [] := fun x hx =>
      Rcv.mixed_ne_nil (hi x (List.mem_cons_of_mem _ (List.mem_append_left _ hx)))
    have hrest : ∀ x ∈ items ++ its, Mixed D x := fun x hx =>
      hi x (List.mem_cons_of_mem _ (List.mem_append_right _ hx))
    have hx : Mixed D (a ++ lead ++ []) := by
      rw [List.append_nil]
      exact hi _ List.mem_cons_self
    have hk' : keep.length = n + 1 + zs.length := by rw [hk, List.length_cons]; omega
    have hfull' : ∀ z ∈ zs, z.flat.length = D := fun z hz => hfull z (List.mem_cons_of_mem _ hz)
    have hord' : ∀ z ∈ zs, Orderly D z := fun z hz => hord z (List.mem_cons_of_mem _ hz)
    rw [drop_flag (by rw [hk, List.length_cons]; omega), frames_cons] at hsteps ⊢
    rw [survivors_last hl h.le hlen hw, Gen.encaps_append, Gen.encaps_append]
    have hlt := position_lt ha h.le
    cases hkn : keep.getD n false with
    | false =>
      rw [hkn] at hsteps
      have hrec : received keep ((n * D - a.length) / D) (n + 1) = false := by
        rw [Bool.eq_false_iff]
        intro hrec
        rw [received_succ (by omega), hkn] at hrec
        exact Bool.false_ne_true hrec.2
      rw [hrec, if_neg Bool.false_ne_true, if_neg Bool.false_ne_true]
      exact ih (h.lose hkn (trail_le hlen)) hb hrest hk' hfull' hord' hsteps
    | true =>
      rw [hkn] at hsteps
      obtain ⟨s₁, joined, hz, htrack, hjoin⟩ := h.continued hv hD hlen ha hl hw (hord _ List.mem_cons_self)
        (Rcv.opening_of_carries (hc.append hb) hrest) hx (fun hr => absurd rfl hr) hsteps.1
      rw [if_pos rfl] at htrack
      obtain ⟨s₂, out, hrun, hsub⟩ := ih htrack hb hrest hk' hfull' hord' (hsteps.2 _ _ hz)
      refine ⟨s₂, _, runAll_cons hz hrun, ?_⟩
      rw [if_pos rfl, List.append_assoc]
      refine List.Sublist.append ?_ (List.Sublist.append (List.Sublist.refl _) hsub)
      by_cases hrec : received keep ((n * D - a.length) / D) (n + 1) = true
      · rw [if_pos hrec]
        cases henc : isEncap (a ++ lead) with
        | true =>
          rw [hjoin rfl henc hrec]
          exact List.filter_sublist
        | false =>
          rw [Gen.encaps_none (by simpa using henc)]
          exact List.nil_sublist _
      · rw [if_neg hrec]
        exact List.nil_sublist _
  | @first whole trail zs items b hc ih =>
    -- nothing is open, so what is at hand has no part in the zone
    intro s n h hb hi hk hfull hord hsteps
    rw [List.append_assoc] at hi
    have hlen : (⟨[], whole, trail⟩ : Zone Octet).flat.length = D := hfull _ List.mem_cons_self
    have hw : ∀ x ∈ whole, x ≠ [] := fun x hx => Rcv.mixed_ne_nil (hi x (List.mem_append_left _ hx))
    have hrest : ∀ x ∈ items ++ its, Mixed D x := fun x hx => hi x (List.mem_append_right _ hx)
    have hk' : keep.length = n + 1 + zs.length := by rw [hk, List.length_cons]; omega
    have hfull' : ∀ z ∈ zs, z.flat.length = D := fun z hz => hfull z (List.mem_cons_of_mem _ hz)
    have hord' : ∀ z ∈ zs, Orderly D z := fun z hz => hord z (List.mem_cons_of_mem _ hz)
    rw [drop_flag (by rw [hk, List.length_cons]; omega), frames_cons] at hsteps ⊢
    rw [List.length_nil, Nat.sub_zero, survivors_first hlen hw, Gen.encaps_append]
    cases hkn : keep.getD n false with
    | false =>
      rw [hkn] at hsteps
      rw [if_neg Bool.false_ne_true]
      exact ih (h.lose hkn (trail_le hlen)) hb hrest hk' hfull' hord' hsteps
    | true =>
      rw [hkn] at hsteps
      obtain ⟨s₁, hz, htrack⟩ := h.first hv h₀ hD hlen rfl hw (hord _ List.mem_cons_self)
        (Rcv.opening_of_carries (hc.append hb) hrest) hsteps.1
      obtain ⟨s₂, out, hrun, hsub⟩ := ih htrack hb hrest hk' hfull' hord' (hsteps.2 _ _ hz)
      refine ⟨s₂, _, runAll_cons hz hrun, ?_⟩
      rw [if_pos rfl]
      exact List.Sublist.append (List.Sublist.refl _) hsub

end Tracking

/-- **When the receiver is resynchronised.** The frames of the sender are full data fields that carry the
packets in order with idle ones between. Whichever of the frames are lost, in every run whose frames are
all taken so, the packets that lie in the frames received are delivered, in order. -/
theorem resynchronises (hv : Matches v D) (h₀ : 1 ≤ D) (hD : D ≤ 2046) {pattern : Bytes} (hpat : pattern ≠ [])
    (multi allow : Bool) {inputs : List (Bytes × List Bool)} (hp : ∀ x ∈ inputs, EncPacket x.1)
    {g : Gen} {frames : List Bytes}
    (hrun : runAll Gen.processData (configured v.channel D pattern multi) inputs = .ok (g, frames)) :
    ∃ zs z layout, frames = zoneFrames v.channel 0 zs ∧ (∀ w ∈ zs, w.flat.length = D) ∧
      Carries [] (zs ++ [z]) layout [] ∧ encaps layout = inputs.map Prod.fst ∧
      ∀ keep : List Bool, keep.length = zs.length →
        EveryStep (PacketService.svc v) (StepResumes v) { rcv := { allowPacketsAfterFill := allow } }
          (kept keep frames) →
        ∃ r out, runAll (PacketService.svc v) { rcv := { allowPacketsAfterFill := allow } }
            (kept keep frames) = .ok (r, out) ∧
          (encaps (survivors D keep 0 layout)).Sublist out := by
  have hw := Gen.configured_waiting v.channel h₀ pattern multi
  have hgood : 14 ≤ D ∨ Gen.NeverFills D multi 0 inputs := by
    by_contra hc
    obtain ⟨h14, hbad⟩ := not_or.1 hc
    obtain ⟨e, he⟩ := Gen.run_error (by omega) inputs hw hpat (fun x hx => (hp x hx).ne_nil) hbad
    rw [he] at hrun
    cases hrun
  obtain ⟨s', zs, z', items, hok, hfill, hord, hitems, hencaps⟩ :=
    Gen.run_orderly hD inputs hw Gen.clean_empty hpat hp hgood
  rw [hok] at hrun
  obtain ⟨-, rfl⟩ := Prod.mk.inj (Except.ok.inj hrun)
  have hc := hfill.carries [] [] (.first (.nil []))
  rw [List.nil_append] at hc
  refine ⟨zs, z', items, rfl, hfill.full, hc, hencaps, fun keep hk hsteps => ?_⟩
  obtain ⟨b, i₁, i₂, h₁, h₂, rfl⟩ := hc.split
  have hstart : Tracking D keep 0 [] { rcv := { allowPacketsAfterFill := allow } } :=
    ⟨rfl, Rcv.kept_none rfl, fun _ => rfl, fun h => absurd rfl h, Nat.zero_le _⟩
  obtain ⟨r, out, hrecv, hsub⟩ := hstart.run hv h₀ hD h₁ h₂ hitems (by omega) hfill.full hord hsteps
  rw [Nat.zero_mul, Nat.zero_sub] at hsub
  refine ⟨r, out, hrecv, ?_⟩
  rwa [survivors_unsent h₀ h₁ h₂ hfill.full hk
    fun x hx => Rcv.mixed_ne_nil (hitems x (List.mem_append_right _ hx))]

/-- A packet of twenty octets of which `b` is the first in the second frame, and a packet of eight octets
behind it there. -/
def twoPackets (b : Octet) : List (Bytes × List Bool) :=
  [([0xE2, 0, 0, 20, 1, 2, 3, 4, 5, 6, 7, 8, 9, 10, b, 12, 13, 14, 15, 16], [false]),
   ([0xE2, 0, 0, 8, 1, 2, 3, 4], [true])]

/-- The sender behind its second frame. -/
def secondFrame : Gen :=
  { configured narrowService.channel 14 [0xE0] true with currentFrameNumber := 2, firstHeaderIndexSet := true }

/-- The two frames of the packets. -/
def twoFrames (b : Octet) : List Bytes :=
  [frame narrowService.channel 0 0 [0xE2, 0, 0, 20, 1, 2, 3, 4, 5, 6, 7, 8, 9, 10],
   frame narrowService.channel 1 6 [b, 12, 13, 14, 15, 16, 0xE2, 0, 0, 8, 1, 2, 3, 4]]

theorem resynchronises_two : ∃ layout r out, encaps layout = (twoPackets 0xE0).map Prod.fst ∧
    runAll (PacketService.svc narrowService) {} (kept [false, true] (twoFrames 0xE0)) = .ok (r, out) ∧
    (encaps (survivors 14 [false, true] 0 layout)).Sublist out := by
  have hrun : runAll Gen.processData (configured narrowService.channel 14 [0xE0] true) (twoPackets 0xE0) =
      .ok (secondFrame, twoFrames 0xE0) := by
    decide +kernel
  have hp : ∀ x ∈ twoPackets 0xE0, EncPacket x.1 := by
    intro x hx
    rcases List.mem_cons.1 hx with rfl | hx
    · exact ⟨⟨0xE2, _, rfl, by decide, by decide, by decide⟩, by decide⟩
    · obtain rfl := List.mem_singleton.1 hx
      exact ⟨⟨0xE2, _, rfl, by decide, by decide, by decide⟩, by decide⟩
  have hsteps : EveryStep (PacketService.svc narrowService) (StepResumes narrowService) {}
      (kept [false, true] (twoFrames 0xE0)) := by
    refine ⟨fun pointer hptr => ?_, fun _ _ _ => trivial⟩
    have h6 : getFirstHeaderPointer (frame narrowService.channel 1 6
        [0xE0, 12, 13, 14, 15, 16, 0xE2, 0, 0, 8, 1, 2, 3, 4]) = .ok 6 := by decide +kernel
    obtain rfl := Except.ok.inj (h6.symm.trans hptr)
    rw [data_frame]
    refine ⟨Rcv.loop_ends_iff.1 ⟨({}, [[0xE2, 0, 0, 8, 1, 2, 3, 4]]), by decide +kernel⟩, fun _ _ _ first hf => ?_⟩
    obtain rfl := Option.some.inj hf
    exact Or.inr (by decide)
  obtain ⟨zs, z, layout, hframes, -, -, henc, hall⟩ := resynchronises narrowService_matches (by decide)
    (by decide) (by decide) true true hp hrun
  have hlen : zs.length = 2 := by
    have := congrArg List.length hframes
    rw [zoneFrames, Gen.frames_length, List.length_map] at this
    exact this.symm
  obtain ⟨r, out, hrecv, hsub⟩ := hall [false, true] hlen.symm hsteps
  exact ⟨layout, r, out, henc, hrecv, hsub⟩

/-- **The version is read from the end of a packet that is lost**: the first frame is dropped, and of the
second, which is received, the packet that lies in it is discarded. -/
theorem resynchronisation_lost :
    runAll Gen.processData (configured narrowService.channel 14 [0xE0] true) (twoPackets 0x20) =
      .ok (secondFrame, twoFrames 0x20) ∧
    twoFrames 0x20 = zoneFrames narrowService.channel 0
      [⟨[], [], [0xE2, 0, 0, 20, 1, 2, 3, 4, 5, 6, 7, 8, 9, 10]⟩,
       ⟨[0x20, 12, 13, 14, 15, 16], [[0xE2, 0, 0, 8, 1, 2, 3, 4]], []⟩] ∧
    encaps (survivors 14 [false, true] 0 ((twoPackets 0x20).map Prod.fst)) = [[0xE2, 0, 0, 8, 1, 2, 3, 4]] ∧
    (runAll (PacketService.svc narrowService) {} (kept [false, true] (twoFrames 0x20))).map Prod.snd = .ok [] := by
  decide +kernel

end ChannelEmulator.TM
