import ChannelEmulator.Proof.FrameSender

/-!
# Frames of space packets that do not fit one

The packets are of the greatest length, and so longer than any data field.

* `advance`, `headersFit`: how many octets wait in the unfilled frame behind each packet,
  and whether a packet header is cut by the end of a frame.
* `Fills`: what a call, or a run, hands over, with its composition `Fills.trans`.
* `processData_big`, `run_big`: **the zones the sender fills**, with the idle packets it
  puts in, and that a header is cut in one of them just when the positions say so.
-/

namespace ChannelEmulator.TM

open Framing

/-- The header of the first packet that starts in a zone lies in it. -/
def Fits (D : ℕ) (z : Zone Octet) : Prop :=
  ∀ i, z.header = some i → i + SpacePacket.minBytesToDetermineLength ≤ D

/-- A packet header behind `u` octets of a data field is cut by its end. -/
def cut (D u : ℕ) : Bool := decide (D < u + SpacePacket.minBytesToDetermineLength)

/-- The greatest length of a space packet. -/
def maxLength : ℕ := 65542

/-- Behind a packet of the greatest length, given the octets that wait in the unfilled frame
ahead of it and the answers to the waits for another: the octets that wait then, and whether
the packet ends with them. None where its header is cut or that of the idle packet behind it. -/
def advance (D u : ℕ) (answers : List Bool) : Option (ℕ × Bool) :=
  let u' := (u + maxLength) % D
  if cut D u then none
  else if u' = 0 then some (0, false)
  else if !answers.headD true then some (u', true)
  else if cut D u' then none
  -- an idle packet of seven octets has the last one in the next frame
  else if decide (u' + 6 = D) && !answers.tail.headD true then some (1, false)
  else some (0, false)

section Advance

variable {D u : ℕ} {answers : List Bool}

theorem advance_cut (h : cut D u = true) : advance D u answers = none := by
  unfold advance
  rw [if_pos h]

theorem advance_full (h : cut D u = false) (hu : (u + maxLength) % D = 0) :
    advance D u answers = some (0, false) := by
  unfold advance
  rw [if_neg (by simp [h]), if_pos hu]

theorem advance_waits (h : cut D u = false) (hu : (u + maxLength) % D ≠ 0)
    (hq : answers.headD true = false) :
    advance D u answers = some ((u + maxLength) % D, true) := by
  unfold advance
  rw [if_neg (by simp [h]), if_neg hu, if_pos (by rw [hq]; rfl)]

theorem advance_fills (h : cut D u = false) (hu : (u + maxLength) % D ≠ 0)
    (hq : answers.headD true = true) :
    advance D u answers =
      if cut D ((u + maxLength) % D) then none
      else some (if decide ((u + maxLength) % D + 6 = D) && !answers.tail.headD true
        then 1 else 0, false) := by
  unfold advance
  rw [if_neg (by simp [h]), if_neg hu, if_neg (by rw [hq]; simp)]
  split
  · rfl
  · split <;> rfl

end Advance

/-- No header is cut and all of the last packet is sent. -/
def headersFit (D : ℕ) : ℕ × Bool → List (List Bool) → Bool
  | (_, held), [] => !held
  | (u, _), answers :: rest =>
    match advance D u answers with
    | none => false
    | some next => headersFit D next rest

/-- A zone that only the end of a packet is in. -/
abbrev ending (lead : Bytes) : Zone Octet := ⟨lead, [], []⟩

namespace Gen

/-- The members a call leaves alone. -/
structure SameSetup (s s' : Gen) : Prop where
  channel_eq : s'.channel = s.channel
  pattern_eq : s'.fillPattern = s.fillPattern
  multi_eq : s'.multiPacketDataField = s.multiPacketDataField

/-- What is left behind: the zones sent, and the one at hand. -/
structure Fills (D : ℕ) (s s' : Gen) (z z' : Zone Octet) (zs : List (Zone Octet))
    (items : List Bytes) : Prop where
  setup : SameSetup s s'
  number_eq : s'.currentFrameNumber = countAfter s.currentFrameNumber zs.length
  full : ∀ w ∈ zs, w.flat.length = D
  waiting : Waiting D s' z'
  carries : ∀ a its, Carries a [z] its [] → Carries a (zs ++ [z']) (its ++ items) []

variable {D : ℕ} {s s₁ s₂ s' : Gen} {z z₁ z₂ z' : Zone Octet} {zs ws : List (Zone Octet)}
  {items its : List Bytes} {lead p : Bytes} {answers : List Bool}

theorem Waiting.trail_eq (h : Waiting D s z) : z.trail = [] := by
  obtain ⟨-, -, m, -, hw⟩ := h
  exact hw.trail_eq

theorem Waiting.lt (h : Waiting D s z) : z.flat.length < D := by
  obtain ⟨-, -, m, -, hw⟩ := h
  exact hw.lt

theorem Waiting.setup (h : Waiting D s z) : s.dataFieldLength = D := h.length_eq

theorem zoneFrames_append (c : Channel) (count : ℕ) (zs ws : List (Zone Octet)) :
    zoneFrames c count (zs ++ ws) =
      zoneFrames c count zs ++ zoneFrames c (countAfter count zs.length) ws := by
  unfold zoneFrames
  rw [List.map_append, frames_append, List.length_map]

namespace Fills

theorem refl (h : Waiting D s z) : Fills D s s z z [] [] :=
  ⟨⟨rfl, rfl, rfl⟩, rfl, by simp, h, fun a its hc => by simpa using hc⟩

theorem trans (h₁ : Fills D s s₁ z z₁ zs items) (h₂ : Fills D s₁ s₂ z₁ z₂ ws its) :
    Fills D s s₂ z z₂ (zs ++ ws) (items ++ its) := by
  refine ⟨⟨h₂.setup.channel_eq.trans h₁.setup.channel_eq,
    h₂.setup.pattern_eq.trans h₁.setup.pattern_eq, h₂.setup.multi_eq.trans h₁.setup.multi_eq⟩,
    ?_, ?_, h₂.waiting, ?_⟩
  · rw [h₂.number_eq, h₁.number_eq, List.length_append, countAfter_add]
  · intro w hw
    rcases List.mem_append.1 hw with hw | hw
    · exact h₁.full w hw
    · exact h₂.full w hw
  · intro a xs hc
    obtain ⟨b, i₁, i₂, hb₁, hb₂, hi⟩ := (h₁.carries a xs hc).split
    rw [← List.append_assoc, hi, List.append_assoc zs, List.append_assoc i₁]
    exact hb₁.append (h₂.carries b i₂ hb₂)

/-- The frames of two steps. -/
theorem frames_eq (h : Fills D s s₁ z z₁ zs items) (ws : List (Zone Octet)) :
    zoneFrames s.channel s.currentFrameNumber (zs ++ ws) =
      zoneFrames s.channel s.currentFrameNumber zs ++
        zoneFrames s₁.channel s₁.currentFrameNumber ws := by
  rw [zoneFrames_append, h.number_eq, h.setup.channel_eq]

end Fills

/-- A zone that ends between packets ends some run of zones. -/
theorem exists_carries (hz : z.trail = []) : ∃ a its, Carries a [z] its [] := by
  obtain ⟨lead, whole, trail⟩ := z
  obtain rfl := hz
  by_cases hl : lead = []
  · subst hl
    exact ⟨_, _, .first (.nil [])⟩
  · exact ⟨[0], _, .last (by simp) hl (.nil [])⟩

/-- The octets of the packets are those of the zones. -/
theorem Fills.length_eq (h : Fills D s s' z z' zs items) (hz : z.trail = []) :
    z.flat.length + items.flatten.length = D * zs.length + z'.flat.length := by
  obtain ⟨a, its, hc⟩ := exists_carries hz
  have hall : (zs.flatMap Zone.flat).length = D * zs.length := by
    have hfull := h.full
    clear h hc
    induction zs with
    | nil => rfl
    | cons w ws ih =>
      rw [List.flatMap_cons, List.length_append, hfull w (by simp),
        ih fun x hx => hfull x (by simp [hx]), List.length_cons, Nat.mul_succ]
      omega
  have h₁ := congrArg List.length hc.flatten_eq
  have h₂ := congrArg List.length (h.carries a its hc).flatten_eq
  simp only [List.flatMap_append, List.flatMap_cons, List.flatMap_nil, List.append_nil,
    List.length_append, List.flatten_append, hall] at h₁ h₂
  omega

/-- The loop over a packet that does not fit: it starts in the zone at hand, and what is left
of it goes on over zones of its own. -/
theorem loop_spill (hD : D ≤ 2046) (h : Waiting D s (ending lead))
    (hlong : D < lead.length + p.length) (hp : p ≠ []) :
    ∃ l t ws lead', fillLoop s (p.length + 1) s.initLocals 0 p = .ok l ∧
      l.sent = zoneFrames s.channel s.currentFrameNumber (⟨lead, [], t⟩ :: ws) ∧
      Fills D s (s.afterLoop l) (ending lead) (ending lead') (⟨lead, [], t⟩ :: ws) [p] ∧
      t ≠ [] ∧ (∀ w ∈ ws, w.whole = [] ∧ w.trail = []) ∧ (l.frame = none → lead' = []) ∧
      (∀ u, l.frame = some u → l.frameIdx = lead'.length ∧ lead' ≠ []) := by
  obtain ⟨l, zs, z', hloop, hsent, hcount, hfull, hw, hnone, hsome, hcar, hshape⟩ :=
    fillLoop_spec hD h hp
  have hfills : Fills D s (s.afterLoop l) (ending lead) z' zs [p] :=
    ⟨⟨rfl, rfl, rfl⟩, hcount, hfull, hw, hcar⟩
  have hlen := hfills.length_eq rfl
  have hlt := hw.lt
  simp only [Zone.flat, List.flatten_nil, List.append_nil, List.flatten_cons] at hlen
  rcases hshape with ⟨rfl, -⟩ | ⟨rfl, rfl⟩ | ⟨t, ws, ht, rfl, hws, hwhole⟩
  · -- the packet does not fit behind what waits
    rw [List.length_nil, Nat.mul_zero, Nat.zero_add] at hlen
    unfold Zone.flat at hlt
    omega
  · -- nor does it fill the frame
    simp only [List.length_singleton, Nat.mul_one, List.append_nil, List.length_nil,
      List.flatten_nil] at hlen
    omega
  · obtain ⟨lead', whole, trail⟩ := z'
    obtain rfl := hwhole
    obtain rfl : trail = [] := hw.trail_eq
    refine ⟨l, t, ws, lead', hloop, hsent, hfills, ht, fun w hw => ⟨(hws w hw).1, (hws w hw).2.1⟩,
      fun hl => (congrArg Zone.lead (hnone hl)), fun u hu => ?_⟩
    simpa [Zone.flat] using hsome u hu

/-- The loop over a packet that fills the frame. -/
theorem loop_exact (hD : D ≤ 2046) (h : Waiting D s (ending lead))
    (hlen : lead.length + p.length = D) (hp : p ≠ []) :
    ∃ l, fillLoop s (p.length + 1) s.initLocals 0 p = .ok l ∧ l.frame = none ∧
      l.sent = zoneFrames s.channel s.currentFrameNumber [⟨lead, [p], []⟩] ∧
      Fills D s (s.afterLoop l) (ending lead) (ending []) [⟨lead, [p], []⟩] [p] := by
  obtain ⟨l, zs, z', hloop, hsent, hcount, hfull, hw, hnone, hsome, hcar, hshape⟩ :=
    fillLoop_spec hD h hp
  have hfills : Fills D s (s.afterLoop l) (ending lead) z' zs [p] :=
    ⟨⟨rfl, rfl, rfl⟩, hcount, hfull, hw, hcar⟩
  have hsum := hfills.length_eq rfl
  have hlt := hw.lt
  simp only [List.flatten_cons, List.flatten_nil, List.append_nil] at hsum
  have hflat : (ending lead).flat.length = lead.length := by simp [Zone.flat]
  have hone : zs.length = 1 ∧ z'.flat.length = 0 := by
    rw [hflat, hlen] at hsum
    rcases Nat.lt_trichotomy zs.length 1 with hz | hz | hz
    · obtain hz : zs.length = 0 := by omega
      rw [hz, Nat.mul_zero] at hsum
      omega
    · rw [hz] at hsum
      exact ⟨hz, by omega⟩
    · have := Nat.mul_le_mul_left D hz
      omega
  have hframe : l.frame = none := by
    by_contra hc
    obtain ⟨u, hu⟩ := Option.ne_none_iff_exists'.1 hc
    exact (hsome u hu).2 (List.length_eq_zero_iff.1 hone.2)
  obtain rfl := hnone hframe
  rcases hshape with ⟨rfl, -⟩ | ⟨rfl, -⟩ | ⟨t, ws, ht, rfl, -, -⟩
  · exact absurd hone.1 (by simp)
  · exact ⟨l, hloop, hframe, hsent, hfills⟩
  · -- a packet that is started goes on behind the zone
    obtain rfl : ws = [] := by simpa using hone.1
    obtain ⟨a, its, hc⟩ := exists_carries (z := ending lead) rfl
    obtain ⟨b, i₁, i₂, h₁, h₂, -⟩ := Carries.split (show Carries a ([_] ++ [_]) _ _ from hcar a its hc)
    rcases h₂.single rfl rfl with ⟨hb, -, -⟩ | ⟨-, hl, -⟩
    · exact absurd ((Carries.single_open h₁ ht).symm.trans hb) ht
    · exact absurd rfl hl

/-! ## Calls of `_processData` -/

/-- A packet of the greatest length that is not idle. -/
structure Big (p : Bytes) : Prop where
  wellFormed : SpacePacket.WellFormed p
  length_eq : p.length = maxLength
  isIdle : SpacePacket.isIdle p = .ok false

/-- What the zones carry: big packets, and idle ones that do not fill a data field's length. -/
def Item (D : ℕ) (x : Bytes) : Prop := Big x ∨ ∃ n, 7 ≤ n ∧ n ≤ D ∧ Idle x n

/-- The packets among what the zones carry. -/
def packets (items : List Bytes) : List Bytes := items.filter fun x => x.length = maxLength

/-- The zones the receiver meets: no more than one packet starts in each. -/
def Neat (z : Zone Octet) : Prop := z.whole = [] ∨ (∃ x, z.whole = [x]) ∧ z.trail = []

/-- What waits behind the packets does so for the packet `advance` says. -/
structure Agrees (D : ℕ) (lead : Bytes) (answers : List Bool) (zs : List (Zone Octet))
    (lead' : Bytes) (idles : List Bytes) : Prop where
  none_of : advance D lead.length answers = none →
    ∃ z ∈ zs, ¬ Fits D z
  some_of : ∀ u held, advance D lead.length answers = some (u, held) →
    (∀ z ∈ zs, Fits D z) ∧ lead'.length = u ∧
      (held = true ↔ idles = [] ∧ lead' ≠ [])

theorem Agrees.of_none {lead' : Bytes} {idles : List Bytes}
    (h : advance D lead.length answers = none)
    (hz : ∃ z ∈ zs, ¬ Fits D z) :
    Agrees D lead answers zs lead' idles :=
  ⟨fun _ => hz, fun u held hs => absurd (h.symm.trans hs) (by simp)⟩

theorem Agrees.of_some {lead' : Bytes} {idles : List Bytes} (held : Bool)
    (h : advance D lead.length answers = some (lead'.length, held))
    (hz : ∀ z ∈ zs, Fits D z) (hheld : held = true ↔ idles = [] ∧ lead' ≠ []) :
    Agrees D lead answers zs lead' idles := by
  refine ⟨fun hn => absurd (h.symm.trans hn) (by simp), fun u held' hs => ?_⟩
  obtain ⟨rfl, rfl⟩ := Prod.mk.inj (Option.some.inj (h.symm.trans hs))
  exact ⟨hz, rfl, hheld⟩

theorem fits_of_header_none (h : z.whole = [] ∧ z.trail = []) : Fits D z := by
  intro i hi
  unfold Zone.header at hi
  rw [if_pos h] at hi
  exact absurd hi (by simp)

theorem fits_iff {w : List Bytes} {t : Bytes} (h : ¬ (w = [] ∧ t = [])) :
    Fits D ⟨lead, w, t⟩ ↔ cut D lead.length = false := by
  have hh : (⟨lead, w, t⟩ : Zone Octet).header = some lead.length := by
    unfold Zone.header
    exact if_neg h
  unfold Fits cut
  rw [hh]
  simp

/-- The idle packet that fills the frame. -/
theorem process_exact (fuel : ℕ) (hD : D ≤ 2046) (h : Waiting D s (ending lead)) {n : ℕ}
    (hp : Idle p n) (h₇ : 7 ≤ n) (hlen : lead.length + n = D) (answers : List Bool) :
    ∃ s', process (fuel + 1) s p answers =
        .ok (s', zoneFrames s.channel s.currentFrameNumber [⟨lead, [p], []⟩]) ∧
      Fills D s s' (ending lead) (ending []) [⟨lead, [p], []⟩] [p] := by
  have hne : p ≠ [] := List.ne_nil_of_length_pos (by rw [hp.length_eq]; omega)
  obtain ⟨l, hloop, hl, hsent, hf⟩ := loop_exact hD h (by rw [hp.length_eq, hlen]) hne
  exact ⟨_, by rw [process_full hloop hl, hsent], hf⟩

/-- The idle packets behind a packet: one, or two where the first does not end with the
frame. -/
structure Padded (D : ℕ) (s s' : Gen) (lead : Bytes) (answers : List Bool)
    (zs : List (Zone Octet)) (lead' : Bytes) (idles : List Bytes) : Prop where
  fills : Fills D s s' (ending lead) (ending lead') zs idles
  neat : ∀ z ∈ zs, Neat z
  idle : ∀ x ∈ idles, ∃ n, 7 ≤ n ∧ n ≤ D ∧ Idle x n
  nonempty : idles ≠ []
  none_of : cut D lead.length = true →
    ∃ z ∈ zs, ¬ Fits D z
  some_of : cut D lead.length = false →
    (∀ z ∈ zs, Fits D z) ∧
      lead'.length = if decide (lead.length + 6 = D) && !answers.headD true then 1 else 0

variable {f : Bytes}

/-- An idle packet that ends with the frame. -/
theorem padded_exact (hD : D ≤ 2046) (h : Waiting D s (ending lead))
    (hidle : Idle f (D - lead.length)) (h₇ : 7 ≤ D - lead.length) (answers : List Bool) :
    ∃ s' zs lead' idles,
      process 2 s f answers = .ok (s', zoneFrames s.channel s.currentFrameNumber zs) ∧
      Padded D s s' lead answers zs lead' idles := by
  have hfits : Fits D ⟨lead, [f], []⟩ ↔
      cut D lead.length = false := fits_iff (by simp)
  obtain ⟨s', hproc, hfill⟩ := process_exact 1 hD h hidle h₇ (by omega) answers
  refine ⟨s', _, [], [f], hproc, hfill, ?_, ?_, by simp, ?_, ?_⟩
  · intro z hz
    obtain rfl := List.mem_singleton.1 hz
    exact Or.inr ⟨⟨f, rfl⟩, rfl⟩
  · intro x hx
    obtain rfl := List.mem_singleton.1 hx
    exact ⟨_, h₇, by omega, hidle⟩
  · intro hcut
    refine ⟨_, List.mem_singleton_self _, fun hfit => ?_⟩
    rw [hfits.1 hfit] at hcut
    exact absurd hcut (by simp)
  · intro hcut
    refine ⟨fun z hz => ?_, ?_⟩
    · obtain rfl := List.mem_singleton.1 hz
      exact hfits.2 hcut
    · rw [show decide (lead.length + 6 = D) = false from decide_eq_false (by omega)]
      simp

/-- An idle packet of seven octets that has the last ones in the next frame: that frame is
left to the next packet, or filled with another idle packet. -/
theorem padded_spill (h14 : 14 ≤ D) (hD : D ≤ 2046) (h : Waiting D s (ending lead))
    (hm : s.multiPacketDataField = true) (hpat : s.fillPattern ≠ []) (hidle : Idle f 7)
    (h₇ : D - lead.length < 7) (answers : List Bool) :
    ∃ s' zs lead' idles,
      process 2 s f answers = .ok (s', zoneFrames s.channel s.currentFrameNumber zs) ∧
      Padded D s s' lead answers zs lead' idles := by
  have hlt : lead.length < D := by simpa [Zone.flat] using h.lt
  have hne : f ≠ [] := List.ne_nil_of_length_pos (by rw [hidle.length_eq]; omega)
  obtain ⟨l, t, ws, lead₂, hloop, hsent, hfill, ht, -, hnone, hsome⟩ :=
    loop_spill hD h (by rw [hidle.length_eq]; omega) hne
  have hlen := hfill.length_eq rfl
  simp only [Zone.flat, List.flatten_nil, List.append_nil, List.flatten_cons, hidle.length_eq,
    List.length_cons, Nat.mul_succ] at hlen
  -- seven octets go over one end of a frame only
  have hws : ws = [] := by
    by_contra hc
    have := Nat.mul_le_mul_left D (List.length_pos_iff.2 hc)
    omega
  subst hws
  rw [List.length_nil, Nat.mul_zero] at hlen
  have hlead : lead₂ ≠ [] := by
    rintro rfl
    rw [List.length_nil] at hlen
    omega
  obtain ⟨u, hu⟩ := Option.ne_none_iff_exists'.1 fun hc => hlead (hnone hc)
  have hfits : Fits D ⟨lead, [], t⟩ ↔
      cut D lead.length = false := fits_iff (by simp [ht])
  have hcutFit : ∀ {zs : List (Zone Octet)}, cut D lead.length = true →
      ∃ z ∈ (⟨lead, [], t⟩ : Zone Octet) :: zs, ¬ Fits D z := by
    intro zs hcut
    refine ⟨_, List.mem_cons_self, fun hfit => ?_⟩
    rw [hfits.1 hfit] at hcut
    exact absurd hcut (by simp)
  cases hq : answers.headD true with
  | false =>
    refine ⟨_, _, lead₂, [f], by rw [process_waits hloop hu hm hq, hsent], hfill, ?_, ?_,
      by simp, hcutFit, ?_⟩
    · intro z hz
      obtain rfl := List.mem_singleton.1 hz
      exact Or.inl rfl
    · intro x hx
      obtain rfl := List.mem_singleton.1 hx
      exact ⟨7, le_rfl, by omega, hidle⟩
    · intro hcut
      refine ⟨fun z hz => ?_, ?_⟩
      · obtain rfl := List.mem_singleton.1 hz
        exact hfits.2 hcut
      · have hle : lead.length + 6 ≤ D := by
          unfold cut SpacePacket.minBytesToDetermineLength at hcut
          simpa using hcut
        rw [hq, show decide (lead.length + 6 = D) = true from decide_eq_true (by omega)]
        simp only [Bool.and_self, Bool.not_false, if_true]
        omega
  | true =>
    obtain ⟨f₂, hf₂, hidle₂⟩ := idleFill_ok (u := lead₂.length) hfill.waiting.length_eq h14 hD
      (by rw [hfill.setup.pattern_eq]; exact hpat) (by omega)
    rw [Nat.max_eq_left (by omega)] at hidle₂
    obtain ⟨s', hproc, hfill₂⟩ := process_exact 0 hD hfill.waiting hidle₂ (by omega)
      (by omega) (if s.multiPacketDataField then answers.tail else answers)
    rw [← (hsome u hu).1] at hf₂
    refine ⟨s', _, [], [f, f₂], ?_, hfill.trans hfill₂, ?_, ?_, by simp, hcutFit, ?_⟩
    · rw [process_fills hloop hu (fun _ => hq) (by rw [h.length_eq, (hsome u hu).1]; omega)
        hfill.waiting.unlocked hf₂ hproc, hsent,
        hfill.frames_eq]
    · intro z hz
      rcases List.mem_cons.1 hz with rfl | hz
      · exact Or.inl rfl
      · obtain rfl := List.mem_singleton.1 hz
        exact Or.inr ⟨⟨f₂, rfl⟩, rfl⟩
    · intro x hx
      rcases List.mem_cons.1 hx with rfl | hx
      · exact ⟨7, le_rfl, by omega, hidle⟩
      · obtain rfl := List.mem_singleton.1 hx
        exact ⟨_, by omega, by omega, hidle₂⟩
    · intro hcut
      refine ⟨fun z hz => ?_, ?_⟩
      · rcases List.mem_cons.1 hz with rfl | hz
        · exact hfits.2 hcut
        · obtain rfl := List.mem_singleton.1 hz
          refine (fits_iff (by simp)).2 ?_
          unfold cut SpacePacket.minBytesToDetermineLength
          exact decide_eq_false (by omega)
      · rw [hq]
        simp

theorem fill_spec (h14 : 14 ≤ D) (hD : D ≤ 2046) (h : Waiting D s (ending lead))
    (hm : s.multiPacketDataField = true) (hpat : s.fillPattern ≠ []) (answers : List Bool) :
    ∃ f s' zs lead' idles, s.idleFill lead.length = .ok f ∧
      process 2 s f answers = .ok (s', zoneFrames s.channel s.currentFrameNumber zs) ∧
      Padded D s s' lead answers zs lead' idles := by
  have hlt : lead.length < D := by simpa [Zone.flat] using h.lt
  obtain ⟨f, hf, hidle⟩ := idleFill_ok h.length_eq h14 hD hpat hlt
  by_cases h₇ : 7 ≤ D - lead.length
  · rw [Nat.max_eq_left h₇] at hidle
    obtain ⟨s', zs, lead', idles, hproc, hpad⟩ := padded_exact hD h hidle h₇ answers
    exact ⟨f, s', zs, lead', idles, hf, hproc, hpad⟩
  · rw [Nat.max_eq_right (by omega)] at hidle
    obtain ⟨s', zs, lead', idles, hproc, hpad⟩ :=
      padded_spill h14 hD h hm hpat hidle (by omega) answers
    exact ⟨f, s', zs, lead', idles, hf, hproc, hpad⟩

/-- **A call on a packet of the greatest length.** -/
theorem processData_big (h14 : 14 ≤ D) (hD : D ≤ 2046) (h : Waiting D s (ending lead))
    (hm : s.multiPacketDataField = true) (hpat : s.fillPattern ≠ []) (hp : p.length = maxLength)
    (answers : List Bool) :
    ∃ s' zs lead' idles,
      processData s (p, answers) = .ok (s', zoneFrames s.channel s.currentFrameNumber zs) ∧
      Fills D s s' (ending lead) (ending lead') zs (p :: idles) ∧ (∀ z ∈ zs, Neat z) ∧
      (∀ x ∈ idles, ∃ n, 7 ≤ n ∧ n ≤ D ∧ Idle x n) ∧ Agrees D lead answers zs lead' idles := by
  have hne : p ≠ [] := List.ne_nil_of_length_pos (by rw [hp, maxLength]; omega)
  obtain ⟨l, t, ws, lead₁, hloop, hsent, hfill, ht, hws, hnone, hsome⟩ :=
    loop_spill hD h (by rw [hp, maxLength]; omega) hne
  have hu : (lead.length + maxLength) % D = lead₁.length := by
    have hlen := hfill.length_eq rfl
    have hlt := hfill.waiting.lt
    simp only [Zone.flat, List.flatten_nil, List.append_nil, List.flatten_cons, hp] at hlen hlt
    rw [hlen, Nat.mul_add_mod, Nat.mod_eq_of_lt hlt]
  have hfits : Fits D ⟨lead, [], t⟩ ↔
      cut D lead.length = false := fits_iff (by simp [ht])
  have hneat : ∀ z ∈ (⟨lead, [], t⟩ : Zone Octet) :: ws, Neat z := by
    intro z hz
    rcases List.mem_cons.1 hz with rfl | hz
    · exact Or.inl rfl
    · exact Or.inl (hws z hz).1
  have hcutFit : ∀ {zs : List (Zone Octet)}, cut D lead.length = true →
      ∃ z ∈ (⟨lead, [], t⟩ : Zone Octet) :: zs, ¬ Fits D z := by
    intro zs hcut
    refine ⟨_, List.mem_cons_self, fun hfit => ?_⟩
    rw [hfits.1 hfit] at hcut
    exact absurd hcut (by simp)
  have hallFit : cut D lead.length = false →
      ∀ z ∈ (⟨lead, [], t⟩ : Zone Octet) :: ws, Fits D z := by
    intro hcut z hz
    rcases List.mem_cons.1 hz with rfl | hz
    · exact hfits.2 hcut
    · exact fits_of_header_none (hws z hz)
  have hcutAgrees : ∀ {zs : List (Zone Octet)} {lead' : Bytes} {idles : List Bytes},
      cut D lead.length = true →
        Agrees D lead answers (⟨lead, [], t⟩ :: zs) lead' idles :=
    fun hcut => .of_none (advance_cut hcut) (hcutFit hcut)
  unfold processData
  by_cases hl : l.frame = none
  · -- the packet ends with the frame
    obtain rfl := hnone hl
    refine ⟨_, _, [], [], by rw [process_full hloop hl, hsent], hfill, hneat, by simp, ?_⟩
    cases hcut : cut D lead.length with
    | true => exact hcutAgrees hcut
    | false => exact .of_some false (advance_full hcut hu) (hallFit hcut) (by simp)
  · obtain ⟨v, hv⟩ := Option.ne_none_iff_exists'.1 hl
    obtain ⟨hidx, hlead⟩ := hsome v hv
    have hpos : (lead.length + maxLength) % D ≠ 0 := by rw [hu]; simpa using hlead
    cases hq : answers.headD true with
    | false =>
      -- another packet comes
      refine ⟨_, _, lead₁, [], by rw [process_waits hloop hv hm hq, hsent], hfill, hneat,
        by simp, ?_⟩
      cases hcut : cut D lead.length with
      | true => exact hcutAgrees hcut
      | false =>
        refine .of_some true ?_ (hallFit hcut) (by simp [hlead])
        rw [advance_waits hcut hpos hq, hu]
    | true =>
      -- the frame is filled
      obtain ⟨f, s', zs, lead', idles, hf, hproc, hpad⟩ := fill_spec h14 hD hfill.waiting
        (by rw [hfill.setup.multi_eq]; exact hm) (by rw [hfill.setup.pattern_eq]; exact hpat)
        (if s.multiPacketDataField then answers.tail else answers)
      rw [← hidx] at hf
      have hlt : lead₁.length < D := by simpa [Zone.flat] using hfill.waiting.lt
      refine ⟨s', _, lead', idles, ?_, hfill.trans hpad.fills, ?_, hpad.idle, ?_⟩
      · rw [process_fills hloop hv (fun _ => hq) (by rw [h.length_eq, hidx]; omega)
          h.unlocked hf hproc, hsent,
          hfill.frames_eq]
      · intro z hz
        rcases List.mem_append.1 hz with hz | hz
        · exact hneat z hz
        · exact hpad.neat z hz
      · cases hcut : cut D lead.length with
        | true => exact hcutAgrees hcut
        | false =>
          have hadv := advance_fills hcut hpos hq
          rw [hu] at hadv
          cases hcut' : cut D lead₁.length with
          | true =>
            obtain ⟨z, hz, hfit⟩ := hpad.none_of hcut'
            exact .of_none (by rw [hadv, if_pos hcut']) ⟨z, List.mem_append_right _ hz, hfit⟩
          | false =>
            obtain ⟨hall, hlen⟩ := hpad.some_of hcut'
            refine .of_some false ?_ ?_ (by simp [hpad.nonempty])
            · rw [hadv, if_neg (by simp [hcut']), hlen, if_pos hm]
            · intro z hz
              rcases List.mem_append.1 hz with hz | hz
              · exact hallFit hcut z hz
              · exact hall z hz

/-! ## Runs -/

/-- Octets of a packet, the last of those given, wait in the unfilled frame. -/
def Held (lead : Bytes) (last : Option Bytes) : Prop :=
  lead ≠ [] ∧ ∃ x ∈ last, x.length = maxLength

theorem packets_append (xs ys : List Bytes) : packets (xs ++ ys) = packets xs ++ packets ys :=
  List.filter_append ..

theorem packets_cons {xs : List Bytes} (hp : p.length = maxLength)
    (hx : ∀ x ∈ xs, x.length ≠ maxLength) : packets (p :: xs) = [p] := by
  unfold packets
  rw [List.filter_cons_of_pos (by simpa using hp), List.filter_eq_nil_iff.2 (by simpa using hx)]

theorem idle_length_ne (hD : D ≤ 2046) {x : Bytes} (h : ∃ n, 7 ≤ n ∧ n ≤ D ∧ Idle x n) :
    x.length ≠ maxLength := by
  obtain ⟨n, -, hn, hx⟩ := h
  rw [hx.length_eq]
  unfold maxLength
  omega

/-- **A run over packets of the greatest length.** The positions tell whether a header is cut
in the zones sent, and whether octets of the last packet are held back. -/
theorem run_big (h14 : 14 ≤ D) (hD : D ≤ 2046) :
    ∀ (inputs : List (Bytes × List Bool)) {s : Gen} {lead : Bytes}, Waiting D s (ending lead) →
      s.multiPacketDataField = true → s.fillPattern ≠ [] → (∀ a ∈ inputs, Big a.1) →
        ∃ s' zs lead' items,
          runAll processData s inputs =
            .ok (s', zoneFrames s.channel s.currentFrameNumber zs) ∧
          Fills D s s' (ending lead) (ending lead') zs items ∧ (∀ z ∈ zs, Neat z) ∧
          (∀ x ∈ items, Item D x) ∧ packets items = inputs.map Prod.fst ∧
          ∀ last held, (held = true ↔ Held lead last) →
            (headersFit D (lead.length, held) (inputs.map Prod.snd) = true ↔
              (∀ z ∈ zs, Fits D z) ∧
                ¬ Held lead' (items.getLast?.or last)) := by
  intro inputs
  induction inputs with
  | nil =>
    intro s lead h _ _ _
    refine ⟨s, [], lead, [], rfl, .refl h, by simp, by simp, rfl, fun last held hh => ?_⟩
    rw [List.getLast?_nil, Option.none_or, ← hh]
    simp [headersFit]
  | cons a inputs ih =>
    intro s lead h hm hpat hbig
    obtain ⟨p, answers⟩ := a
    have hp : Big p := hbig _ List.mem_cons_self
    obtain ⟨s₁, zs, lead₁, idles, hproc, hfill, hneat, hidle, hagree⟩ :=
      processData_big h14 hD h hm hpat hp.length_eq answers
    obtain ⟨s', ws, lead', items, hrun, hfill', hneat', hitems, hpackets, hfits⟩ :=
      ih hfill.waiting (by rw [hfill.setup.multi_eq]; exact hm)
        (by rw [hfill.setup.pattern_eq]; exact hpat) fun b hb => hbig b (by simp [hb])
    have hshort : ∀ x ∈ idles, x.length ≠ maxLength := fun x hx => idle_length_ne hD (hidle x hx)
    refine ⟨s', zs ++ ws, lead', p :: idles ++ items, ?_, hfill.trans hfill', ?_, ?_, ?_, ?_⟩
    · rw [hfill.frames_eq]
      exact runAll_cons hproc hrun
    · intro z hz
      rcases List.mem_append.1 hz with hz | hz
      · exact hneat z hz
      · exact hneat' z hz
    · intro x hx
      rcases List.mem_append.1 hx with hx | hx
      · rcases List.mem_cons.1 hx with rfl | hx
        · exact Or.inl hp
        · exact Or.inr (hidle x hx)
      · exact hitems x hx
    · rw [packets_append, packets_cons hp.length_eq hshort, hpackets]
      rfl
    · intro last held hheld
      rw [List.getLast?_append, Option.or_assoc, List.map_cons, headersFit]
      cases hadv : advance D lead.length answers with
      | none =>
        obtain ⟨z, hz, hfit⟩ := hagree.none_of hadv
        refine ⟨fun hf => absurd hf (by simp), fun hf => ?_⟩
        exact absurd (hf.1 z (List.mem_append_left _ hz)) hfit
      | some next =>
        obtain ⟨u, held₁⟩ := next
        obtain ⟨hall, rfl, hheld₁⟩ := hagree.some_of u held₁ hadv
        -- the packet is the last one handed over unless idle packets follow it
        have hlast : held₁ = true ↔ Held lead₁ ((p :: idles).getLast?.or last) := by
          rw [hheld₁]
          unfold Held
          rcases List.eq_nil_or_concat idles with rfl | ⟨xs, x, rfl⟩
          · simp [hp.length_eq]
          · have hx : x.length ≠ maxLength := hshort x (by simp)
            have hl : (p :: xs.concat x).getLast? = some x := by
              rw [List.concat_eq_append, ← List.cons_append, List.getLast?_concat]
            rw [hl, Option.some_or]
            simp [hx]
        rw [hfits _ held₁ hlast]
        constructor
        · rintro ⟨hf, hh⟩
          refine ⟨fun z hz => ?_, hh⟩
          rcases List.mem_append.1 hz with hz | hz
          · exact hall z hz
          · exact hf z hz
        · rintro ⟨hf, hh⟩
          exact ⟨fun z hz => hf z (List.mem_append_right _ hz), hh⟩

end Gen

end ChannelEmulator.TM
