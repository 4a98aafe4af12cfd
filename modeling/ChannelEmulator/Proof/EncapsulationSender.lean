import ChannelEmulator.Proof.FrameGeneration

/-!
# Frames of encapsulation packets

Encapsulation packets of any lengths, with the space packets that fill the frames.

* `afterPacket`, `idlesFit`: how many octets wait in the unfilled frame behind each packet, and
  whether the header of an idle packet is cut by the end of a frame.
* `emits_mixed`, `emits_alone`: one packet, with multi-packet data fields and without.
* `run_mixed`: **with multi-packet data fields** an idle packet ends the frame it is in, and its
  header is cut just when the positions say so.
* `run_alone`: **without them** every packet starts a frame, and only idle packets follow it there.
-/

namespace ChannelEmulator.TM

open Framing

/-- The packet starts with the version of an encapsulation packet. -/
def isEncap (x : Bytes) : Bool := x.head?.any fun b => getPVN b = pvnEncapsulationPacket

/-- A packet of the service: its Packet Length field is its length. -/
structure EncPacket (p : Bytes) : Prop where
  wellFormed : Encap.WellFormed p
  version : isEncap p = true

/-- Behind a packet of `len` octets, given the octets that wait in the unfilled frame ahead of it
and the answers to the waits for another: the octets that wait then, and whether the packet ends
with them. None where the header of the idle packet behind it is cut. -/
def afterPacket (D u len : ℕ) (answers : List Bool) : Option (ℕ × Bool) :=
  let u' := (u + len) % D
  if u' = 0 then some (0, false)
  else if !answers.headD true then some (u', true)
  else if cut D u' then none
  -- an idle packet of seven octets has the last one in the next frame
  else if decide (u' + 6 = D) && !answers.tail.headD true then some (1, false)
  else some (0, false)

/-- No header of an idle packet is cut and all of the last packet is sent. -/
def idlesFit (D : ℕ) : ℕ × Bool → List (ℕ × List Bool) → Bool
  | (_, held), [] => !held
  | (u, _), (len, answers) :: rest =>
    match afterPacket D u len answers with
    | none => false
    | some next => idlesFit D next rest

section Packets

variable {x t r : Bytes} {n : ℕ}

theorem isEncap_append (ht : t ≠ []) (r : Bytes) : isEncap (t ++ r) = isEncap t := by
  obtain ⟨b, t, rfl⟩ := List.exists_cons_of_ne_nil ht
  rfl

theorem isEncap_idle (h : Gen.Idle x n) : isEncap x = false := by
  unfold isEncap
  rw [h.first_eq]
  rfl

theorem EncPacket.ne_nil (h : EncPacket x) : x ≠ [] := by
  rintro rfl
  exact absurd h.version (by decide)

end Packets

namespace Gen

/-! ## Zones of packets -/

/-- What the zones carry: encapsulation packets, and idle packets that fit a data field. -/
def Mixed (D : ℕ) (x : Bytes) : Prop := EncPacket x ∨ ∃ n, 7 ≤ n ∧ n ≤ D ∧ Idle x n

/-- The encapsulation packets among what the zones carry. -/
def encaps (items : List Bytes) : List Bytes := items.filter isEncap

/-- A zone at hand that ends between packets, with no idle packet in it. -/
structure Clean (z : Zone Octet) : Prop where
  trail_eq : z.trail = []
  whole : ∀ x ∈ z.whole, EncPacket x

/-- An idle packet in the zone ends with it. -/
def Orderly (D : ℕ) (z : Zone Octet) : Prop :=
  (∀ x ∈ z.whole, EncPacket x) ∨
    (z.trail = [] ∧ ∃ es f, z.whole = es ++ [f] ∧ (∀ x ∈ es, EncPacket x) ∧
      ∃ n, 7 ≤ n ∧ n ≤ D ∧ Idle f n)

/-- The header of an idle packet that goes on behind the zone lies in it. -/
def Uncut (z : Zone Octet) : Prop :=
  z.trail ≠ [] → isEncap z.trail = false → SpacePacket.minBytesToDetermineLength ≤ z.trail.length

/-- What starts in a zone. -/
def starts (z : Zone Octet) : List Bytes := z.whole ++ if z.trail = [] then [] else [z.trail]

/-- No more than one encapsulation packet has octets in the zone, and it comes first there. -/
def Alone (z : Zone Octet) : Prop :=
  (z.lead = [] ∧ ∃ x rest, starts z = x :: rest ∧ isEncap x = true ∧ encaps rest = []) ∨
    (z.lead ≠ [] ∧ encaps (starts z) = [])

variable {D : ℕ} {s s' : Gen} {z z' : Zone Octet} {zs : List (Zone Octet)}
  {p f t : Bytes} {answers : List Bool} {items idles : List Bytes}

open Multiplexing.Add (withItem withStart withItem_flat withStart_flat)

theorem encaps_append (xs ys : List Bytes) : encaps (xs ++ ys) = encaps xs ++ encaps ys :=
  List.filter_append ..

theorem encaps_all {xs : List Bytes} (h : ∀ x ∈ xs, EncPacket x) : encaps xs = xs :=
  List.filter_eq_self.2 fun x hx => (h x hx).version

theorem encaps_none {xs : List Bytes} (h : ∀ x ∈ xs, isEncap x = false) : encaps xs = [] :=
  List.filter_eq_nil_iff.2 fun x hx => by
    rw [h x hx]
    exact Bool.false_ne_true

theorem encaps_cons {xs : List Bytes} (hp : isEncap p = true) (hx : ∀ x ∈ xs, isEncap x = false) :
    encaps (p :: xs) = [p] := by
  unfold encaps
  rw [List.filter_cons_of_pos hp]
  exact congrArg _ (encaps_none hx)

theorem uncut_of_whole (h : z.trail = []) : Uncut z := fun ht => absurd h ht

theorem uncut_withStart (ht : t ≠ []) : Uncut (withStart z t) ↔
    (isEncap t = false → SpacePacket.minBytesToDetermineLength ≤ t.length) :=
  ⟨fun h => h ht, fun h _ => h⟩

theorem clean_empty : Clean {} := ⟨rfl, fun _ hx => by cases hx⟩

theorem clean_ending (lead : Bytes) : Clean (ending lead) := ⟨rfl, fun _ hx => by cases hx⟩

theorem Clean.withItem (h : Clean z) (hp : EncPacket p) : Clean (withItem z p) := by
  refine ⟨rfl, fun x hx => ?_⟩
  rcases List.mem_append.1 hx with hx | hx
  · exact h.whole x hx
  · obtain rfl := List.mem_singleton.1 hx
    exact hp

theorem orderly_withItem (h : Clean z) {n : ℕ} (hf : Idle f n) (h₇ : 7 ≤ n) (hn : n ≤ D) :
    Orderly D (Multiplexing.Add.withItem z f) :=
  Or.inr ⟨rfl, z.whole, f, rfl, h.whole, n, h₇, hn, hf⟩

/-- The zones of a packet, behind a clean one. -/
theorem Places.clean (h : Places z p zs z') (hz : Clean z) (hp : EncPacket p) :
    (∀ w ∈ zs, Orderly D w) ∧ (∀ w ∈ zs, Uncut w) ∧ Clean z' := by
  cases h with
  | behind => exact ⟨by simp, by simp, hz.withItem hp⟩
  | fills =>
    refine ⟨fun w hw => ?_, fun w hw => ?_, clean_empty⟩
    · obtain rfl := List.mem_singleton.1 hw
      exact Or.inl (hz.withItem hp).whole
    · obtain rfl := List.mem_singleton.1 hw
      exact uncut_of_whole rfl
  | @spills t lead ws ht hws hsplit hrest =>
    have hone : ∀ w ∈ ws, Orderly D w := fun w hw => Or.inl (by rw [(hws w hw).1]; simp)
    refine ⟨fun w hw => ?_, fun w hw => ?_, clean_ending lead⟩
    · rcases List.mem_cons.1 hw with rfl | hw
      · exact Or.inl hz.whole
      · exact hone w hw
    · rcases List.mem_cons.1 hw with rfl | hw
      · -- what goes on is an encapsulation packet
        refine (uncut_withStart ht).2 fun hidle => ?_
        have hv := hp.version
        rw [hsplit, isEncap_append ht, hidle] at hv
        exact absurd hv (by simp)
      · exact uncut_of_whole (hws w hw).2

/-- The start of an idle packet of seven octets. -/
theorem uncut_spill {lead : Bytes} (hf : Idle f 7) (ht : t ≠ []) (hsplit : f = t ++ lead)
    (hlen : z.flat.length + t.length = D) :
    Uncut (withStart z t) ↔ cut D z.flat.length = false := by
  have hidle : isEncap t = false := by
    rw [← isEncap_append ht lead, ← hsplit]
    exact isEncap_idle hf
  rw [uncut_withStart ht, cut, decide_eq_false_iff_not]
  constructor
  · intro h
    have := h hidle
    omega
  · intro h _
    omega

/-- The zones of the idle packets, behind a clean one. -/
theorem Filling.clean {more : Bool} (h : Filling D z more zs z' idles) (hz : Clean z) :
    (∀ w ∈ zs, Orderly D w) ∧ Clean z' ∧ ((∀ w ∈ zs, Uncut w) ↔ cut D z.flat.length = false) ∧
      (cut D z.flat.length = false →
        z'.flat.length = if decide (z.flat.length + 6 = D) && more then 1 else 0) := by
  cases h with
  | @exact f n hf h₇ hlen =>
    have hfits : cut D z.flat.length = false :=
      decide_eq_false (by unfold SpacePacket.minBytesToDetermineLength; omega)
    refine ⟨fun w hw => ?_, clean_empty, ⟨fun _ => hfits, fun _ w hw => ?_⟩, fun _ => ?_⟩
    · obtain rfl := List.mem_singleton.1 hw
      exact orderly_withItem hz hf h₇ (by omega)
    · obtain rfl := List.mem_singleton.1 hw
      exact uncut_of_whole rfl
    · rw [decide_eq_false (by omega : ¬z.flat.length + 6 = D)]
      rfl
  | @spill f t lead hf ht hsplit hlead hlen hmore =>
    refine ⟨fun w hw => ?_, clean_ending lead, ?_, fun hfits => ?_⟩
    · obtain rfl := List.mem_singleton.1 hw
      exact Or.inl hz.whole
    · rw [← uncut_spill hf ht hsplit hlen]
      simp
    · -- six octets of the packet lie in the zone, and one behind it
      have h₁ := hf.length_eq
      have h₂ := List.length_pos_iff.2 hlead
      rw [hsplit, List.length_append] at h₁
      have h₃ := of_decide_eq_false hfits
      unfold SpacePacket.minBytesToDetermineLength at h₃
      have hflat : (ending lead).flat = lead := by simp [Zone.flat]
      rw [hflat, hmore, decide_eq_true (by omega : z.flat.length + 6 = D)]
      simp only [Bool.and_self, if_true]
      omega
  | @refill f t lead f₂ n hf ht hsplit hlead hlen hmore hf₂ h₇ hlen₂ =>
    refine ⟨fun w hw => ?_, clean_empty, ?_, fun _ => ?_⟩
    · rcases List.mem_cons.1 hw with rfl | hw
      · exact Or.inl hz.whole
      · obtain rfl := List.mem_singleton.1 hw
        exact orderly_withItem (clean_ending lead) hf₂ h₇ (by omega)
    · rw [← uncut_spill hf ht hsplit hlen]
      refine ⟨fun h => h _ List.mem_cons_self, fun h w hw => ?_⟩
      rcases List.mem_cons.1 hw with rfl | hw
      · exact h
      · obtain rfl := List.mem_singleton.1 hw
        exact uncut_of_whole rfl
    · rw [hmore, Bool.and_false]
      rfl

theorem Filling.bounds {more : Bool} (h : Filling D z more zs z' idles) (h14 : 14 ≤ D) :
    ∀ x ∈ idles, ∃ n, 7 ≤ n ∧ n ≤ D ∧ Idle x n := by
  intro x hx
  cases h with
  | @exact f n hf h₇ hlen =>
    obtain rfl := List.mem_singleton.1 hx
    exact ⟨n, h₇, by omega, hf⟩
  | spill hf =>
    obtain rfl := List.mem_singleton.1 hx
    exact ⟨7, le_rfl, by omega, hf⟩
  | @refill f t lead f₂ n hf ht hsplit hlead hlen hmore hf₂ h₇ hlen₂ =>
    rcases List.mem_cons.1 hx with rfl | hx
    · exact ⟨7, le_rfl, by omega, hf⟩
    · obtain rfl := List.mem_singleton.1 hx
      exact ⟨n, h₇, by omega, hf₂⟩

theorem Filling.ne_nil {more : Bool} (h : Filling D z more zs z' idles) : idles ≠ [] := by
  cases h <;> simp

/-! ## One packet, with multi-packet data fields -/

/-- What waits behind the packet does so for the packet `afterPacket` says. -/
structure Follows (D : ℕ) (z : Zone Octet) (p : Bytes) (answers : List Bool)
    (zs : List (Zone Octet)) (z' : Zone Octet) (idles : List Bytes) : Prop where
  orderly : ∀ w ∈ zs, Orderly D w
  clean : Clean z'
  idle : ∀ x ∈ idles, ∃ n, 7 ≤ n ∧ n ≤ D ∧ Idle x n
  none_of : afterPacket D z.flat.length p.length answers = none → ∃ w ∈ zs, ¬Uncut w
  some_of : ∀ u held, afterPacket D z.flat.length p.length answers = some (u, held) →
    (∀ w ∈ zs, Uncut w) ∧ z'.flat.length = u ∧ (held = true ↔ idles = [] ∧ z'.flat ≠ [])

theorem emits_mixed (h : Emits D true z p answers zs z' idles) (hz : Clean z) (hp : EncPacket p)
    (h14 : 14 ≤ D) : Follows D z p answers zs z' idles := by
  cases h with
  | full h hlen =>
    obtain ⟨hord, hunc, hclean⟩ := h.places.clean (D := D) hz hp
    have hafter : afterPacket D z.flat.length p.length answers = some (0, false) :=
      if_pos (h.length_eq.symm.trans hlen)
    refine ⟨hord, hclean, by simp, fun hn => ?_, fun u held hs => ?_⟩
    · rw [hafter] at hn
      cases hn
    · rw [hafter] at hs
      obtain ⟨rfl, rfl⟩ := Prod.mk.inj (Option.some.inj hs)
      exact ⟨hunc, hlen, by simp [List.length_eq_zero_iff.1 hlen]⟩
  | waits h hpos hmore =>
    obtain ⟨hord, hunc, hclean⟩ := h.places.clean (D := D) hz hp
    have hq : (!answers.headD true) = true := hmore
    have hafter : afterPacket D z.flat.length p.length answers = some (z'.flat.length, true) := by
      rw [h.length_eq] at hpos ⊢
      unfold afterPacket
      rw [if_neg (by omega), if_pos hq]
    refine ⟨hord, hclean, by simp, fun hn => ?_, fun u held hs => ?_⟩
    · rw [hafter] at hn
      cases hn
    · rw [hafter] at hs
      obtain ⟨rfl, rfl⟩ := Prod.mk.inj (Option.some.inj hs)
      exact ⟨hunc, rfl, by simpa using List.length_pos_iff.1 hpos⟩
  | @padded zs ws z₁ z' idles h hpos hmore hfill =>
    obtain ⟨hord, hunc, hclean⟩ := h.places.clean (D := D) hz hp
    obtain ⟨hord', hclean', huncut, hlen⟩ := hfill.clean hclean
    have hq : (!answers.headD true) = false := hmore
    have hafter : afterPacket D z.flat.length p.length answers =
        if cut D z₁.flat.length then none
        else some (if decide (z₁.flat.length + 6 = D) && !answers.tail.headD true then 1 else 0,
          false) := by
      rw [h.length_eq] at hpos ⊢
      unfold afterPacket
      rw [if_neg (by omega), if_neg (by rw [hq]; exact Bool.false_ne_true)]
      split
      · rfl
      · split <;> rfl
    refine ⟨fun w hw => (List.mem_append.1 hw).elim (hord w) (hord' w), hclean',
      hfill.bounds h14, fun hn => ?_, fun u held hs => ?_⟩
    · have hcut : cut D z₁.flat.length = true := by
        by_contra hc
        rw [hafter, if_neg hc] at hn
        cases hn
      by_contra hno
      have hall : ∀ w ∈ ws, Uncut w := fun w hw => by
        by_contra hw'
        exact hno ⟨w, List.mem_append_right _ hw, hw'⟩
      rw [huncut.1 hall] at hcut
      exact absurd hcut (by simp)
    · have hcut : cut D z₁.flat.length = false := by
        by_contra hc
        rw [hafter, if_pos (by simpa using hc)] at hs
        cases hs
      rw [hafter, if_neg (by simp [hcut])] at hs
      obtain ⟨rfl, rfl⟩ := Prod.mk.inj (Option.some.inj hs)
      refine ⟨fun w hw => (List.mem_append.1 hw).elim (hunc w) (huncut.2 hcut w), hlen hcut, ?_⟩
      simp [hfill.ne_nil]

/-! ## One packet, without them -/

/-- The zone behind a packet that started a frame, before that frame is filled. -/
theorem Places.alone (h : Places {} p zs z') (hp : EncPacket p)
    (hfull : ∀ w ∈ zs, w.flat.length = D) (hD : 0 < D) :
    (∀ w ∈ zs, Alone w) ∧ (z'.flat.length = 0 → z' = {}) ∧
      (0 < z'.flat.length → z'.trail = [] ∧
        (z'.lead = [] ∧ z'.whole = [p] ∨ z'.lead ≠ [] ∧ z'.whole = [])) := by
  have hpos := List.length_pos_iff.2 hp.ne_nil
  cases h with
  | behind =>
    refine ⟨by simp, fun h => ?_, fun _ => ⟨rfl, Or.inl ⟨rfl, rfl⟩⟩⟩
    rw [withItem_flat rfl, List.length_append] at h
    omega
  | fills =>
    refine ⟨fun w hw => ?_, fun _ => rfl, fun h => absurd h (by simp [Zone.flat])⟩
    obtain rfl := List.mem_singleton.1 hw
    exact Or.inl ⟨rfl, p, [], rfl, hp.version, rfl⟩
  | @spills t lead ws ht hws hsplit hrest =>
    have hflat : (ending lead).flat = lead := by simp [Zone.flat]
    refine ⟨fun w hw => ?_, fun h => ?_, fun h => ?_⟩
    · rcases List.mem_cons.1 hw with rfl | hw'
      · have hv := hp.version
        rw [hsplit, isEncap_append ht] at hv
        refine Or.inl ⟨rfl, t, [], ?_, hv, rfl⟩
        show ([] : List Bytes) ++ (if t = [] then [] else [t]) = [t]
        rw [if_neg ht]
        rfl
      · -- a frame full of the packet
        obtain ⟨hwhole, htrail⟩ := hws w hw'
        have hlen := hfull w hw
        refine Or.inr ⟨?_, by simp [starts, hwhole, htrail, encaps]⟩
        intro hl
        simp only [Zone.flat, hl, hwhole, htrail, List.flatten_nil, List.append_nil,
          List.length_nil] at hlen
        omega
    · rw [hflat, List.length_eq_zero_iff] at h
      rw [h]
    · rw [hflat, List.length_pos_iff] at h
      exact ⟨rfl, Or.inr ⟨h, rfl⟩⟩

/-- A zone that is filled behind the only packet that has octets in it. -/
theorem alone_of_idle (xs : List Bytes)
    (hz : z.lead = [] ∧ z.whole = [p] ∨ z.lead ≠ [] ∧ z.whole = []) (hp : EncPacket p)
    (hlead : z'.lead = z.lead) (hstarts : starts z' = z.whole ++ xs)
    (hx : ∀ x ∈ xs, isEncap x = false) : Alone z' := by
  rcases hz with ⟨hl, hw⟩ | ⟨hl, hw⟩
  · refine Or.inl ⟨hlead.trans hl, p, xs, ?_, hp.version, encaps_none hx⟩
    rw [hstarts, hw]
    rfl
  · refine Or.inr ⟨by rw [hlead]; exact hl, ?_⟩
    rw [hstarts, hw]
    exact encaps_none hx

theorem emits_alone (h : Emits D false {} p answers zs z' idles) (hp : EncPacket p)
    (hfull : ∀ w ∈ zs, w.flat.length = D) (h14 : 14 ≤ D) :
    z' = {} ∧ (∀ w ∈ zs, Alone w) ∧ ∀ x ∈ idles, ∃ n, 7 ≤ n ∧ n ≤ D ∧ Idle x n := by
  cases h with
  | full h hlen =>
    obtain ⟨halone, hempty, -⟩ := h.places.alone hp hfull (by omega)
    exact ⟨hempty hlen, halone, by simp⟩
  | waits h hpos hmore => cases hmore
  | @padded zs ws z₁ z' idles h hpos hmore hfill =>
    obtain ⟨halone, -, hshape⟩ := h.places.alone hp
      (fun w hw => hfull w (List.mem_append_left _ hw)) (by omega)
    obtain ⟨htrail, hz⟩ := hshape hpos
    have hidle := hfill.bounds h14
    cases hfill with
    | @exact f n hf =>
      refine ⟨rfl, fun w hw => ?_, hidle⟩
      rcases List.mem_append.1 hw with hw | hw
      · exact halone w hw
      · obtain rfl := List.mem_singleton.1 hw
        refine alone_of_idle [f] hz hp rfl (List.append_nil _) fun x hx => ?_
        obtain rfl := List.mem_singleton.1 hx
        exact isEncap_idle hf
    | spill hf ht hsplit hlead hlen hmore' => cases hmore'
    | @refill f t lead f₂ n hf ht hsplit hlead hlen hmore' hf₂ =>
      refine ⟨rfl, fun w hw => ?_, hidle⟩
      rcases List.mem_append.1 hw with hw | hw
      · exact halone w hw
      rcases List.mem_cons.1 hw with rfl | hw
      · -- the start of an idle packet ends the frame
        refine alone_of_idle [t] hz hp rfl ?_ fun x hx => ?_
        · show z₁.whole ++ (if t = [] then [] else [t]) = z₁.whole ++ [t]
          rw [if_neg ht]
        · obtain rfl := List.mem_singleton.1 hx
          rw [← isEncap_append ht lead, ← hsplit]
          exact isEncap_idle hf
      · obtain rfl := List.mem_singleton.1 hw
        refine Or.inr ⟨hlead, encaps_none fun x hx => ?_⟩
        obtain rfl : x = f₂ := by simpa [starts, withItem] using hx
        exact isEncap_idle hf₂

/-! ## Runs -/

/-- Octets of an encapsulation packet, the last packet given, wait in the unfilled frame. -/
def HeldBack (z : Zone Octet) (last : Option Bytes) : Prop :=
  z.flat ≠ [] ∧ ∃ x ∈ last, isEncap x = true

theorem encaps_packet (hp : EncPacket p)
    (hidle : ∀ x ∈ idles, ∃ n, 7 ≤ n ∧ n ≤ D ∧ Idle x n) (items : List Bytes) :
    encaps (p :: idles ++ items) = p :: encaps items := by
  rw [encaps_append, encaps_cons hp.version fun x hx => ?_]
  · rfl
  · obtain ⟨n, -, -, hx⟩ := hidle x hx
    exact isEncap_idle hx

theorem mixed_packet (hp : EncPacket p) (hidle : ∀ x ∈ idles, ∃ n, 7 ≤ n ∧ n ≤ D ∧ Idle x n)
    (hitems : ∀ x ∈ items, Mixed D x) : ∀ x ∈ p :: idles ++ items, Mixed D x := by
  intro x hx
  rcases List.mem_append.1 hx with hx | hx
  · rcases List.mem_cons.1 hx with rfl | hx
    · exact Or.inl hp
    · exact Or.inr (hidle x hx)
  · exact hitems x hx

/-- **A run with multi-packet data fields.** The positions tell whether the header of an idle
packet is cut in the zones sent, and whether octets of the last packet are held back. -/
theorem run_mixed (h14 : 14 ≤ D) (hD : D ≤ 2046) :
    ∀ (inputs : List (Bytes × List Bool)) {s : Gen} {z : Zone Octet}, Waiting D s z → Clean z →
      s.multiPacketDataField = true → s.fillPattern ≠ [] → (∀ a ∈ inputs, EncPacket a.1) →
        ∃ s' zs z' items,
          runAll processData s inputs =
            .ok (s', zoneFrames s.channel s.currentFrameNumber zs) ∧
          Fills D s s' z z' zs items ∧ (∀ w ∈ zs, Orderly D w) ∧ Clean z' ∧
          (∀ x ∈ items, Mixed D x) ∧ encaps items = inputs.map Prod.fst ∧
          ∀ last held, (held = true ↔ HeldBack z last) →
            (idlesFit D (z.flat.length, held) (inputs.map fun a => (a.1.length, a.2)) = true ↔
              (∀ w ∈ zs, Uncut w) ∧ ¬HeldBack z' (items.getLast?.or last)) := by
  intro inputs
  induction inputs with
  | nil =>
    intro s z h hz _ _ _
    refine ⟨s, [], z, [], rfl, .refl h, by simp, hz, by simp, rfl, fun last held hh => ?_⟩
    rw [List.getLast?_nil, Option.none_or, ← hh]
    simp [idlesFit]
  | cons a inputs ih =>
    intro s z h hz hm hpat hall
    obtain ⟨p, answers⟩ := a
    have hp : EncPacket p := hall _ List.mem_cons_self
    obtain ⟨s₁, zs, z₁, idles, hproc, hfill, hemits, -⟩ :=
      processData_ok hD h hpat hp.ne_nil answers (Or.inl h14)
    rw [hm] at hemits
    have hfol := emits_mixed hemits hz hp h14
    obtain ⟨s', ws, z', items, hrun, hfill', hord, hclean, hitems, hencaps, hfits⟩ :=
      ih hfill.waiting hfol.clean (by rw [hfill.setup.multi_eq]; exact hm)
        (by rw [hfill.setup.pattern_eq]; exact hpat) fun b hb => hall b (List.mem_cons_of_mem _ hb)
    refine ⟨s', zs ++ ws, z', p :: idles ++ items, ?_, hfill.trans hfill', ?_, hclean,
      mixed_packet hp hfol.idle hitems, ?_, fun last held hheld => ?_⟩
    · rw [hfill.frames_eq]
      exact runAll_cons hproc hrun
    · exact fun w hw => (List.mem_append.1 hw).elim (hfol.orderly w) (hord w)
    · rw [encaps_packet hp hfol.idle, hencaps]
      rfl
    · rw [List.getLast?_append, Option.or_assoc, List.map_cons, idlesFit]
      cases hadv : afterPacket D z.flat.length p.length answers with
      | none =>
        obtain ⟨w, hw, hcut⟩ := hfol.none_of hadv
        refine ⟨fun hf => absurd hf (by simp), fun hf => ?_⟩
        exact absurd (hf.1 w (List.mem_append_left _ hw)) hcut
      | some next =>
        obtain ⟨u, held₁⟩ := next
        obtain ⟨hunc, rfl, hheld₁⟩ := hfol.some_of u held₁ hadv
        -- the packet is the last one handed over unless idle packets follow it
        have hlast : held₁ = true ↔ HeldBack z₁ ((p :: idles).getLast?.or last) := by
          rw [hheld₁]
          unfold HeldBack
          rcases List.eq_nil_or_concat idles with rfl | ⟨xs, x, rfl⟩
          · simp [hp.version]
          · obtain ⟨n, -, -, hx⟩ := hfol.idle x (by simp)
            have hl : (p :: xs.concat x).getLast? = some x := by
              rw [List.concat_eq_append, ← List.cons_append, List.getLast?_concat]
            rw [hl, Option.some_or]
            simp [isEncap_idle hx]
        rw [hfits _ held₁ hlast]
        constructor
        · rintro ⟨hf, hh⟩
          exact ⟨fun w hw => (List.mem_append.1 hw).elim (hunc w) (hf w), hh⟩
        · rintro ⟨hf, hh⟩
          exact ⟨fun w hw => hf w (List.mem_append_right _ hw), hh⟩

/-- **A run without multi-packet data fields**: every frame is filled. -/
theorem run_alone (h14 : 14 ≤ D) (hD : D ≤ 2046) :
    ∀ (inputs : List (Bytes × List Bool)) {s : Gen}, Waiting D s {} →
      s.multiPacketDataField = false → s.fillPattern ≠ [] → (∀ a ∈ inputs, EncPacket a.1) →
        ∃ s' zs items,
          runAll processData s inputs =
            .ok (s', zoneFrames s.channel s.currentFrameNumber zs) ∧
          Fills D s s' {} {} zs items ∧ (∀ w ∈ zs, Alone w) ∧
          (∀ x ∈ items, Mixed D x) ∧ encaps items = inputs.map Prod.fst := by
  intro inputs
  induction inputs with
  | nil =>
    intro s h _ _ _
    exact ⟨s, [], [], rfl, .refl h, by simp, by simp, rfl⟩
  | cons a inputs ih =>
    intro s h hm hpat hall
    obtain ⟨p, answers⟩ := a
    have hp : EncPacket p := hall _ List.mem_cons_self
    obtain ⟨s₁, zs, z₁, idles, hproc, hfill, hemits, -⟩ :=
      processData_ok hD h hpat hp.ne_nil answers (Or.inl h14)
    rw [hm] at hemits
    obtain ⟨rfl, halone, hidle⟩ := emits_alone hemits hp hfill.full h14
    obtain ⟨s', ws, items, hrun, hfill', halone', hitems, hencaps⟩ :=
      ih hfill.waiting (by rw [hfill.setup.multi_eq]; exact hm)
        (by rw [hfill.setup.pattern_eq]; exact hpat) fun b hb => hall b (List.mem_cons_of_mem _ hb)
    refine ⟨s', zs ++ ws, p :: idles ++ items, ?_, hfill.trans hfill', ?_,
      mixed_packet hp hidle hitems, ?_⟩
    · rw [hfill.frames_eq]
      exact runAll_cons hproc hrun
    · exact fun w hw => (List.mem_append.1 hw).elim (halone w) (halone' w)
    · rw [encaps_packet hp hidle, hencaps]
      rfl

/-! ## Either way, with data fields of any size -/

/-- Where nothing is to be filled, no idle packets follow. -/
theorem Emits.idles_nil {multi : Bool} (h : Emits D multi z p answers zs z' idles)
    (hn : NothingToFill D multi (z.flat.length + p.length) answers) : idles = [] := by
  cases h with
  | full => rfl
  | waits => rfl
  | @padded zs ws z₁ z' idles h hpos hmore hfill =>
    rw [h.length_eq] at hpos
    rcases hn with h0 | ⟨hm, ha⟩
    · omega
    · rw [another, hm, ha] at hmore
      cases hmore

/-- The zones of a packet and of the idle packets behind it. -/
theorem Emits.orderly {multi : Bool} (h : Emits D multi z p answers zs z' idles) (hz : Clean z)
    (hp : EncPacket p) : (∀ w ∈ zs, Orderly D w) ∧ Clean z' := by
  cases h with
  | full h _ =>
    obtain ⟨hord, -, hclean⟩ := h.places.clean (D := D) hz hp
    exact ⟨hord, hclean⟩
  | waits h _ _ =>
    obtain ⟨hord, -, hclean⟩ := h.places.clean (D := D) hz hp
    exact ⟨hord, hclean⟩
  | padded h _ _ hfill =>
    obtain ⟨hord, -, hclean⟩ := h.places.clean (D := D) hz hp
    obtain ⟨hord', hclean', -, -⟩ := hfill.clean hclean
    exact ⟨fun w hw => (List.mem_append.1 hw).elim (hord w) (hord' w), hclean'⟩

theorem Emits.bounds {multi : Bool} (h : Emits D multi z p answers zs z' idles) (h14 : 14 ≤ D) :
    ∀ x ∈ idles, ∃ n, 7 ≤ n ∧ n ≤ D ∧ Idle x n := by
  cases h with
  | full => simp
  | waits => simp
  | padded _ _ _ hfill => exact hfill.bounds h14

/-- **Any run that gets through**: an idle packet in a zone ends with it. -/
theorem run_orderly (hD : D ≤ 2046) :
    ∀ (inputs : List (Bytes × List Bool)) {s : Gen} {z : Zone Octet}, Waiting D s z → Clean z →
      s.fillPattern ≠ [] → (∀ a ∈ inputs, EncPacket a.1) →
      (14 ≤ D ∨ NeverFills D s.multiPacketDataField z.flat.length inputs) →
        ∃ s' zs z' items,
          runAll processData s inputs =
            .ok (s', zoneFrames s.channel s.currentFrameNumber zs) ∧
          Fills D s s' z z' zs items ∧ (∀ w ∈ zs, Orderly D w) ∧
          (∀ x ∈ items, Mixed D x) ∧ encaps items = inputs.map Prod.fst := by
  intro inputs
  induction inputs with
  | nil =>
    intro s z h _ _ _ _
    exact ⟨s, [], z, [], rfl, .refl h, by simp, by simp, rfl⟩
  | cons a inputs ih =>
    intro s z h hz hpat hall hgood
    obtain ⟨p, answers⟩ := a
    have hp : EncPacket p := hall _ List.mem_cons_self
    obtain ⟨s₁, zs, z₁, idles, hproc, hfill, hemits, hpos⟩ :=
      processData_ok hD h hpat hp.ne_nil answers (hgood.imp_right fun hn => hn.1)
    obtain ⟨hord, hclean⟩ := hemits.orderly hz hp
    have hidle : ∀ x ∈ idles, ∃ n, 7 ≤ n ∧ n ≤ D ∧ Idle x n := by
      rcases hgood with h14 | hn
      · exact hemits.bounds h14
      · rw [hemits.idles_nil hn.1]
        simp
    obtain ⟨s', ws, z', items, hrun, hfill', hord', hitems, hencaps⟩ := ih hfill.waiting hclean
      (by rw [hfill.setup.pattern_eq]; exact hpat) (fun b hb => hall b (List.mem_cons_of_mem _ hb))
      (by
        rw [hfill.setup.multi_eq]
        by_cases h14 : 14 ≤ D
        · exact Or.inl h14
        · rw [hpos (by omega)]
          exact hgood.imp_right fun hn => hn.2)
    refine ⟨s', zs ++ ws, z', p :: idles ++ items, ?_, hfill.trans hfill',
      fun w hw => (List.mem_append.1 hw).elim (hord w) (hord' w), mixed_packet hp hidle hitems, ?_⟩
    · rw [hfill.frames_eq]
      exact runAll_cons hproc hrun
    · rw [encaps_packet hp hidle, hencaps]
      rfl

end Gen

end ChannelEmulator.TM
