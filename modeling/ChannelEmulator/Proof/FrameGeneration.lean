import ChannelEmulator.Proof.SpacePacketSender

/-!
# What the TM sender makes of any packets

Packets of any lengths, with any answers to the waits for another, and multi-packet data
fields allowed or not.

* `Places`, `Filling`, `Emits`: the zones a packet, the idle packets behind it, and both make.
* `loop_spec`, `fill_ok`, `processData_ok`: that the sender makes these.
* `NeverFills`: behind no packet is a frame to be filled.
* `runs_iff`: **the sender gets through with well formed frames just when the data field has
  fourteen octets or no frame is to be filled**. The octets that are to fill a shorter data
  field are asked of a unit that has none, with the fill pattern locked.
-/

namespace ChannelEmulator.TM

open Framing

/-! ## Counts -/

theorem getVCFrameCount_frame (c : Channel) (count pointer : ℕ) (data : Bytes) :
    getVCFrameCount (frame c count pointer data) = .ok (UInt8.ofNat count) := rfl

namespace Gen

/-- The counts go up by one, modulo 256. -/
theorem countAfter_mod : ∀ (k : ℕ) {count : ℕ}, count ≤ maxVCFrameCount →
    countAfter count k % 256 = (count + k) % 256 := by
  intro k
  induction k with
  | zero => intro count _; rfl
  | succ k ih =>
    intro count h
    rw [countAfter]
    unfold incFrameNumber
    unfold maxVCFrameCount at ih h ⊢
    split
    · rw [ih (by omega)]; omega
    · rw [ih (by omega)]; omega

/-- A frame by its place among those sent. -/
theorem frames_getElem? (c : Channel) : ∀ (fs : List (ℕ × Bytes)) (count i : ℕ),
    (frames c count fs)[i]? = fs[i]?.map fun f => frame c (countAfter count i) f.1 f.2 := by
  intro fs
  induction fs with
  | nil => intro count i; rfl
  | cons f fs ih =>
    intro count i
    obtain ⟨j, d⟩ := f
    cases i with
    | zero => rfl
    | succ i =>
      rw [frames, List.getElem?_cons_succ, List.getElem?_cons_succ, ih, countAfter]

theorem frames_length (c : Channel) : ∀ (fs : List (ℕ × Bytes)) (count : ℕ),
    (frames c count fs).length = fs.length := by
  intro fs
  induction fs with
  | nil => intro count; rfl
  | cons f fs ih =>
    intro count
    rw [frames, List.length_cons, ih, List.length_cons]

/-! ## Well formed frames -/

/-- The packets in their order, with idle ones in between. -/
inductive WithIdle : List Bytes → List Bytes → Prop
  | nil : WithIdle [] []
  | packet (p : Bytes) {ps items : List Bytes} (h : WithIdle ps items) :
      WithIdle (p :: ps) (p :: items)
  | idle {x : Bytes} {n : ℕ} (hx : Idle x n) {ps items : List Bytes} (h : WithIdle ps items) :
      WithIdle ps (x :: items)

theorem WithIdle.idles {ps items : List Bytes} (h : WithIdle ps items) :
    ∀ {idles : List Bytes}, (∀ x ∈ idles, ∃ n, Idle x n) → WithIdle ps (idles ++ items) := by
  intro idles
  induction idles with
  | nil => intro _; exact h
  | cons x idles ih =>
    intro hx
    obtain ⟨n, hn⟩ := hx x List.mem_cons_self
    exact .idle hn (ih fun y hy => hx y (List.mem_cons_of_mem x hy))

/-- The frame at place `i`: its data field is the zone `z`. -/
structure FrameOf (c : Channel) (D i : ℕ) (f : Bytes) (z : Zone Octet) : Prop where
  data_eq : c.data f = z.flat
  full : z.flat.length = D
  count_eq : getVCFrameCount f = .ok (UInt8.ofNat (i % 256))
  pointer_eq : getFirstHeaderPointer f = .ok (z.header.getD maxFirstHeaderPointer)

/-- The frames carry the packets, and idle ones, over full data fields; the end of what they
carry may wait in a frame that is not full. Counts go up by one, and a first header pointer
is where the first packet of its data field starts. -/
def WellFormed (c : Channel) (D : ℕ) (ps fs : List Bytes) : Prop :=
  ∃ (zs : List (Zone Octet)) (rest : Zone Octet) (items : List Bytes),
    WithIdle ps items ∧ Carries [] (zs ++ [rest]) items [] ∧ rest.flat.length < D ∧
    fs.length = zs.length ∧
    ∀ i f z, fs[i]? = some f → zs[i]? = some z → FrameOf c D i f z

theorem frameOf_zoneFrames {c : Channel} {D : ℕ} (hD : D ≤ 2046) {zs : List (Zone Octet)}
    (hfull : ∀ z ∈ zs, z.flat.length = D) {i : ℕ} {f : Bytes} {z : Zone Octet}
    (hf : (zoneFrames c 0 zs)[i]? = some f) (hz : zs[i]? = some z) : FrameOf c D i f z := by
  have hlen := hfull z (List.mem_of_getElem? hz)
  have hpt : z.header.getD maxFirstHeaderPointer ≤ maxFirstHeaderPointer := by
    cases hh : z.header with
    | none => exact le_rfl
    | some j =>
      have := (z.header_le hh).2
      rw [Option.getD_some]
      unfold maxFirstHeaderPointer
      omega
  unfold zoneFrames at hf
  rw [frames_getElem?, List.getElem?_map, hz] at hf
  obtain rfl := Option.some.inj hf
  refine ⟨data_frame c _ _ _, hlen, ?_, getFirstHeaderPointer_frame hpt⟩
  have hmod := countAfter_mod i (Nat.zero_le maxVCFrameCount)
  rw [Nat.zero_add] at hmod
  rw [getVCFrameCount_frame, ← hmod]
  apply congrArg Except.ok
  apply UInt8.toNat_inj.1
  rw [UInt8.toNat_ofNat', UInt8.toNat_ofNat', Nat.mod_mod]

variable {D : ℕ} {s : Gen} {z : Zone Octet} {p f : Bytes} {answers : List Bool}

/-! ## The zones of a packet -/

open Multiplexing.Add (withItem withStart withItem_flat withStart_flat)

/-- What the loop makes of a packet behind the zone at hand: it lies in the zone, or fills it, or
goes on over zones of its own. -/
inductive Places (z : Zone Octet) (p : Bytes) : List (Zone Octet) → Zone Octet → Prop
  | behind : Places z p [] (withItem z p)
  | fills : Places z p [withItem z p] {}
  | spills {t lead : Bytes} {ws : List (Zone Octet)} (ht : t ≠ [])
      (hws : ∀ w ∈ ws, w.whole = [] ∧ w.trail = [])
      (hp : p = t ++ (ws.flatMap Zone.flat ++ lead)) (hrest : ws.flatMap Zone.flat ++ lead ≠ []) :
      Places z p (withStart z t :: ws) (ending lead)

/-- The idle packets that fill a frame: one that ends with it, or one of seven octets with the last
of them in the next frame, which is left to the next packet or filled in its turn. -/
inductive Filling (D : ℕ) (z : Zone Octet) (more : Bool) :
    List (Zone Octet) → Zone Octet → List Bytes → Prop
  | exact {f : Bytes} {n : ℕ} (hf : Idle f n) (h₇ : 7 ≤ n) (hlen : z.flat.length + n = D) :
      Filling D z more [withItem z f] {} [f]
  | spill {f t lead : Bytes} (hf : Idle f 7) (ht : t ≠ []) (hsplit : f = t ++ lead)
      (hlead : lead ≠ []) (hlen : z.flat.length + t.length = D) (hmore : more = true) :
      Filling D z more [withStart z t] (ending lead) [f]
  | refill {f t lead f₂ : Bytes} {n : ℕ} (hf : Idle f 7) (ht : t ≠ []) (hsplit : f = t ++ lead)
      (hlead : lead ≠ []) (hlen : z.flat.length + t.length = D) (hmore : more = false)
      (hf₂ : Idle f₂ n) (h₇ : 7 ≤ n) (hlen₂ : lead.length + n = D) :
      Filling D z more [withStart z t, withItem (ending lead) f₂] {} [f, f₂]

/-- Another packet comes into the frame. -/
def another (multi : Bool) (answers : List Bool) : Bool := multi && !answers.headD true

/-- The answers behind the first wait. -/
def later (multi : Bool) (answers : List Bool) : List Bool :=
  if multi then answers.tail else answers

/-- The zones of a packet, and where it ends. -/
structure Lies (D : ℕ) (z : Zone Octet) (p : Bytes) (zs : List (Zone Octet)) (z' : Zone Octet) :
    Prop where
  places : Places z p zs z'
  length_eq : z'.flat.length = (z.flat.length + p.length) % D

/-- What a call makes of a packet behind the zone at hand: the zones sent, the zone at hand then,
and the idle packets behind the packet. -/
inductive Emits (D : ℕ) (multi : Bool) (z : Zone Octet) (p : Bytes) (answers : List Bool) :
    List (Zone Octet) → Zone Octet → List Bytes → Prop
  | full {zs : List (Zone Octet)} {z' : Zone Octet} (h : Lies D z p zs z')
      (hlen : z'.flat.length = 0) : Emits D multi z p answers zs z' []
  | waits {zs : List (Zone Octet)} {z' : Zone Octet} (h : Lies D z p zs z')
      (hpos : 0 < z'.flat.length) (hmore : another multi answers = true) :
      Emits D multi z p answers zs z' []
  | padded {zs ws : List (Zone Octet)} {z₁ z' : Zone Octet} {idles : List Bytes}
      (h : Lies D z p zs z₁) (hpos : 0 < z₁.flat.length) (hmore : another multi answers = false)
      (hfill : Filling D z₁ (another multi (later multi answers)) ws z' idles) :
      Emits D multi z p answers (zs ++ ws) z' idles

theorem Filling.idle {more : Bool} {zs : List (Zone Octet)} {z' : Zone Octet} {idles : List Bytes}
    (h : Filling D z more zs z' idles) : ∀ x ∈ idles, ∃ n, Idle x n := by
  intro x hx
  cases h with
  | exact hf =>
    obtain rfl := List.mem_singleton.1 hx
    exact ⟨_, hf⟩
  | spill hf =>
    obtain rfl := List.mem_singleton.1 hx
    exact ⟨_, hf⟩
  | refill hf ht hsplit hlead hlen hmore hf₂ =>
    rcases List.mem_cons.1 hx with rfl | hx
    · exact ⟨_, hf⟩
    · obtain rfl := List.mem_singleton.1 hx
      exact ⟨_, hf₂⟩

theorem Emits.idle {multi : Bool} {zs : List (Zone Octet)} {z' : Zone Octet} {idles : List Bytes}
    (h : Emits D multi z p answers zs z' idles) : ∀ x ∈ idles, ∃ n, Idle x n := by
  cases h with
  | full => simp
  | waits => simp
  | padded _ _ _ hfill => exact hfill.idle

/-! ## One packet -/

/-- The zones that hold a packet hold its octets. -/
theorem Fills.octets {s' : Gen} {z' : Zone Octet} {zs : List (Zone Octet)}
    (h : Fills D s s' z z' zs [p]) (hz : z.trail = []) :
    z.flat ++ p = zs.flatMap Zone.flat ++ z'.flat := by
  obtain ⟨a, its, hc⟩ := exists_carries hz
  have h₁ := hc.flatten_eq
  have h₂ := (h.carries a its hc).flatten_eq
  simp only [List.flatMap_append, List.flatMap_cons, List.flatMap_nil, List.append_nil,
    List.flatten_append, List.flatten_cons, List.flatten_nil] at h₁ h₂
  apply List.append_cancel_left
  rw [← List.append_assoc, h₁, h₂]

/-- The loop over a packet: what waits in the frame behind it. -/
theorem loop_spec (hD : D ≤ 2046) (h : Waiting D s z) (hp : p ≠ []) :
    ∃ l zs z', fillLoop s (p.length + 1) s.initLocals 0 p = .ok l ∧
      l.sent = zoneFrames s.channel s.currentFrameNumber zs ∧
      Fills D s (s.afterLoop l) z z' zs [p] ∧ Places z p zs z' ∧
      (l.frame = none → z'.flat.length = 0) ∧
      ∀ u, l.frame = some u → l.frameIdx = z'.flat.length ∧ 0 < z'.flat.length := by
  obtain ⟨l, zs, z', hloop, hsent, hcount, hfull, hw, hnone, hsome, hcar, hshape⟩ :=
    fillLoop_spec hD h hp
  have hfill : Fills D s (s.afterLoop l) z z' zs [p] :=
    ⟨⟨rfl, rfl, rfl⟩, hcount, hfull, hw, hcar⟩
  refine ⟨l, zs, z', hloop, hsent, hfill, ?_, fun hl => ?_, fun u hu => ?_⟩
  · have hocts := hfill.octets h.trail_eq
    rcases hshape with ⟨rfl, rfl⟩ | ⟨rfl, rfl⟩ | ⟨t, ws, ht, rfl, hws, hwhole⟩
    · exact .behind
    · exact .fills
    · obtain ⟨lead, whole, trail⟩ := z'
      obtain rfl : whole = [] := hwhole
      obtain rfl : trail = [] := hw.trail_eq
      have hlead : (ending lead).flat = lead := by simp [Zone.flat]
      rw [List.flatMap_cons, withStart_flat h.trail_eq, hlead, List.append_assoc, List.append_assoc]
        at hocts
      refine .spills ht (fun w hw => ⟨(hws w hw).1, (hws w hw).2.1⟩)
        (List.append_cancel_left hocts) fun hrest => ?_
      -- a packet that ends with the zone it starts in is not begun there
      obtain ⟨hflat, rfl⟩ := List.append_eq_nil_iff.1 hrest
      obtain rfl : ws = [] := List.eq_nil_iff_forall_not_mem.2 fun w hw => by
        have hw₀ := List.flatMap_eq_nil_iff.1 hflat w hw
        exact (hws w hw).2.2 (List.append_eq_nil_iff.1 hw₀).1
      obtain ⟨a, its, hc⟩ := exists_carries h.trail_eq
      obtain ⟨b, i₁, i₂, h₁, h₂, -⟩ := Carries.split (hcar a its hc)
      rcases h₂.single rfl rfl with ⟨hb, -, -⟩ | ⟨-, hl, -⟩
      · exact ht ((Carries.single_open h₁ ht).symm.trans hb)
      · exact absurd rfl hl
  · rw [hnone hl]
    rfl
  · exact ⟨(hsome u hu).1, List.length_pos_iff.2 (hsome u hu).2⟩

/-- Where a packet ends. -/
theorem Fills.position {s' : Gen} {z' : Zone Octet} {zs : List (Zone Octet)}
    (h : Fills D s s' z z' zs [p]) (hz : z.trail = []) :
    z'.flat.length = (z.flat.length + p.length) % D := by
  have hlen := h.length_eq hz
  rw [List.flatten_cons, List.flatten_nil, List.append_nil] at hlen
  rw [hlen, Nat.mul_add_mod, Nat.mod_eq_of_lt h.waiting.lt]

/-- A packet that fills the frame. -/
theorem Places.exact {zs : List (Zone Octet)} {z' : Zone Octet} (h : Places z p zs z')
    (hz : z.trail = []) (hfull : ∀ w ∈ zs, w.flat.length = D) (hlt : z'.flat.length < D)
    (hlen : z.flat.length + p.length = D) : zs = [withItem z p] ∧ z' = {} := by
  cases h with
  | behind =>
    rw [withItem_flat hz, List.length_append] at hlt
    omega
  | fills => exact ⟨rfl, rfl⟩
  | @spills t lead ws ht hws hp hrest =>
    -- the start of the packet fills the frame, so there is no rest
    have h₁ := hfull _ List.mem_cons_self
    have h₂ := List.length_pos_iff.2 hrest
    rw [withStart_flat hz, List.length_append] at h₁
    rw [hp, List.length_append] at hlen
    omega

/-- A packet that goes on in the next frame, and ends there. -/
theorem Places.spill {zs : List (Zone Octet)} {z' : Zone Octet} (h : Places z p zs z')
    (hz : z.trail = []) (hfull : ∀ w ∈ zs, w.flat.length = D) (hlt : z'.flat.length < D)
    (hlen : D < z.flat.length + p.length) (hle : z.flat.length + p.length < D + D) :
    ∃ t lead, t ≠ [] ∧ lead ≠ [] ∧ p = t ++ lead ∧ z.flat.length + t.length = D ∧
      zs = [withStart z t] ∧ z' = ending lead := by
  cases h with
  | behind =>
    rw [withItem_flat hz, List.length_append] at hlt
    omega
  | fills =>
    have h₁ := hfull _ List.mem_cons_self
    rw [withItem_flat hz, List.length_append] at h₁
    omega
  | @spills t lead ws ht hws hp hrest =>
    have h₁ := hfull _ List.mem_cons_self
    rw [withStart_flat hz, List.length_append] at h₁
    cases ws with
    | nil => exact ⟨t, lead, ht, hrest, hp, h₁, rfl, rfl⟩
    | cons w ws =>
      have h₂ := hfull w (by simp)
      rw [hp, List.flatMap_cons] at hle
      simp only [List.length_append] at hle
      omega

/-- What the calls of itself on idle packets leave. -/
structure Filled (D : ℕ) (s : Gen) (z : Zone Octet) (f : Bytes) (fuel : ℕ)
    (answers : List Bool) : Prop where
  exists_run : ∃ s' zs z' idles, process fuel s f answers =
      .ok (s', zoneFrames s.channel s.currentFrameNumber zs) ∧
    Fills D s s' z z' zs idles ∧
    Filling D z (another s.multiPacketDataField answers) zs z' idles

/-- An idle packet that ends with the frame. -/
theorem filled_exact (fuel : ℕ) (hD : D ≤ 2046) (h : Waiting D s z) {n : ℕ} (hidle : Idle f n)
    (h₇ : 7 ≤ n) (hlen : z.flat.length + n = D) (answers : List Bool) :
    ∃ s', process (fuel + 1) s f answers =
        .ok (s', zoneFrames s.channel s.currentFrameNumber [withItem z f]) ∧
      Fills D s s' z {} [withItem z f] [f] := by
  have hne : f ≠ [] := List.ne_nil_of_length_pos (by rw [hidle.length_eq]; omega)
  obtain ⟨l, zs, z', hloop, hsent, hfill, hplace, -, hsome⟩ := loop_spec hD h hne
  obtain ⟨rfl, rfl⟩ := hplace.exact h.trail_eq hfill.full hfill.waiting.lt
    (by rw [hidle.length_eq, hlen])
  have hl : l.frame = none := by
    by_contra hc
    obtain ⟨u, hu⟩ := Option.ne_none_iff_exists'.1 hc
    exact absurd (hsome u hu).2 (by simp [Zone.flat])
  exact ⟨_, by rw [process_full hloop hl, hsent], hfill⟩

/-- An idle packet of seven octets that has its last ones in the next frame. That frame
is left to the next packet, or has room for another idle packet that ends with it. -/
theorem filled_spill (h14 : 14 ≤ D) (hD : D ≤ 2046) (h : Waiting D s z)
    (hpat : s.fillPattern ≠ []) (hidle : Idle f 7) (h₇ : D - z.flat.length < 7)
    (answers : List Bool) : Filled D s z f 2 answers := by
  have hlt := h.lt
  have hlen := hidle.length_eq
  have hne : f ≠ [] := List.ne_nil_of_length_pos (by omega)
  obtain ⟨l, zs, z', hloop, hsent, hfill, hplace, hnone, hsome⟩ := loop_spec hD h hne
  obtain ⟨t, lead, ht, hlead, hsplit, htlen, rfl, rfl⟩ := hplace.spill h.trail_eq hfill.full
    hfill.waiting.lt (by omega) (by omega)
  have hflat : (ending lead).flat = lead := by simp [Zone.flat]
  have hpos := List.length_pos_iff.2 hlead
  have hleadlen : lead.length + t.length = 7 := by
    rw [← hlen, hsplit, List.length_append]
    omega
  obtain ⟨u, hu⟩ := Option.ne_none_iff_exists'.1 fun hc : l.frame = none => by
    have := hnone hc
    rw [hflat] at this
    omega
  rw [hflat] at hsome
  by_cases hq : s.multiPacketDataField = true ∧ answers.headD true = false
  · exact ⟨_, _, _, [f], by rw [process_waits hloop hu hq.1 hq.2, hsent], hfill,
      .spill hidle ht hsplit hlead htlen (by rw [another, hq.1, hq.2]; rfl)⟩
  · have hq' : s.multiPacketDataField = true → answers.headD true = true := fun hm => by
      by_contra hc
      exact hq ⟨hm, by simpa using hc⟩
    have hmore : another s.multiPacketDataField answers = false := by
      cases hm : s.multiPacketDataField
      · rfl
      · rw [another, hq' hm]
        rfl
    -- at least eight octets are left, and no more than a data field
    obtain ⟨f₂, hf₂, hidle₂⟩ := idleFill_ok (u := lead.length) hfill.waiting.length_eq h14 hD
      (by rw [hfill.setup.pattern_eq]; exact hpat) (by omega)
    rw [Nat.max_eq_left (by omega)] at hidle₂
    obtain ⟨s', hproc, hfill₂⟩ := filled_exact 0 hD hfill.waiting hidle₂
      (by omega) (by rw [hflat]; omega) (if s.multiPacketDataField then answers.tail else answers)
    rw [← (hsome u hu).1] at hf₂
    refine ⟨s', _, _, [f, f₂], ?_, hfill.trans hfill₂,
      .refill hidle ht hsplit hlead htlen hmore hidle₂ (by omega) (by omega)⟩
    rw [process_fills hloop hu hq' (by rw [h.length_eq, (hsome u hu).1]; omega) h.unlocked hf₂
      hproc, hsent, hfill.frames_eq]

/-- **The idle packets behind a packet.** -/
theorem fill_ok (h14 : 14 ≤ D) (hD : D ≤ 2046) (h : Waiting D s z) (hpat : s.fillPattern ≠ [])
    (answers : List Bool) :
    ∃ f, s.idleFill z.flat.length = .ok f ∧ Filled D s z f 2 answers := by
  obtain ⟨f, hf, hidle⟩ := idleFill_ok h.length_eq h14 hD hpat h.lt
  refine ⟨f, hf, ?_⟩
  have hlt := h.lt
  by_cases h₇ : 7 ≤ D - z.flat.length
  · rw [Nat.max_eq_left h₇] at hidle
    obtain ⟨s', hproc, hfill⟩ := filled_exact 1 hD h hidle h₇ (by omega) answers
    exact ⟨s', _, _, _, hproc, hfill, .exact hidle h₇ (by omega)⟩
  · rw [Nat.max_eq_right (by omega)] at hidle
    exact filled_spill h14 hD h hpat hidle (by omega) answers

/-- No frame is to be filled behind a packet: it ends with a frame, or another one comes. -/
def NothingToFill (D : ℕ) (multi : Bool) (u : ℕ) (answers : List Bool) : Prop :=
  u % D = 0 ∨ (multi = true ∧ answers.headD true = false)

/-- **A call that does not throw.** -/
theorem processData_ok (hD : D ≤ 2046) (h : Waiting D s z) (hpat : s.fillPattern ≠ [])
    (hp : p ≠ []) (answers : List Bool) (hgood : 14 ≤ D ∨
      NothingToFill D s.multiPacketDataField (z.flat.length + p.length) answers) :
    ∃ s' zs z' idles, processData s (p, answers) =
        .ok (s', zoneFrames s.channel s.currentFrameNumber zs) ∧
      Fills D s s' z z' zs (p :: idles) ∧ Emits D s.multiPacketDataField z p answers zs z' idles ∧
      (D < 14 → z'.flat.length = (z.flat.length + p.length) % D) := by
  obtain ⟨l, zs, z', hloop, hsent, hfill, hplace, hnone, hsome⟩ := loop_spec hD h hp
  have hpos := hfill.position h.trail_eq
  have hlies : Lies D z p zs z' := ⟨hplace, hpos⟩
  unfold processData
  cases hl : l.frame with
  | none =>
    exact ⟨_, zs, z', [], by rw [process_full hloop hl, hsent], hfill, .full hlies (hnone hl),
      fun _ => hpos⟩
  | some u =>
    obtain ⟨hidx, hu⟩ := hsome u hl
    by_cases hq : s.multiPacketDataField = true ∧ answers.headD true = false
    · exact ⟨_, zs, z', [], by rw [process_waits hloop hl hq.1 hq.2, hsent], hfill,
        .waits hlies hu (by rw [another, hq.1, hq.2]; rfl), fun _ => hpos⟩
    · have h14 : 14 ≤ D := by
        rcases hgood with h14 | h0 | hq'
        · exact h14
        · omega
        · exact absurd hq' hq
      have hq' : s.multiPacketDataField = true → answers.headD true = true := fun hm => by
        by_contra hc
        exact hq ⟨hm, by simpa using hc⟩
      have hmore : another s.multiPacketDataField answers = false := by
        cases hm : s.multiPacketDataField
        · rfl
        · rw [another, hq' hm]
          rfl
      obtain ⟨f, hf, s', ws, z₂, idles, hproc, hfill₂, hfilling⟩ := fill_ok h14 hD hfill.waiting
        (by rw [hfill.setup.pattern_eq]; exact hpat)
        (if s.multiPacketDataField then answers.tail else answers)
      rw [← hidx] at hf
      have hlt := hfill.waiting.lt
      rw [hfill.setup.multi_eq] at hfilling
      refine ⟨s', zs ++ ws, z₂, idles, ?_, hfill.trans hfill₂, .padded hlies hu hmore hfilling,
        fun _ => by omega⟩
      rw [process_fills hloop hl hq' (by rw [h.length_eq, hidx]; omega) h.unlocked hf hproc, hsent,
        hfill.frames_eq]

/-- **A call that throws**: a short data field is to be filled. -/
theorem processData_error (h14 : D < 14) (h : Waiting D s z) (hp : p ≠ [])
    (hbad : ¬ NothingToFill D s.multiPacketDataField (z.flat.length + p.length) answers) :
    processData s (p, answers) =
      .error (.ndError "Network Data used NetworkData getDataLength()!") := by
  obtain ⟨l, zs, z', hloop, -, hfill, -, hnone, hsome⟩ := loop_spec (by omega) h hp
  have hpos := hfill.position h.trail_eq
  unfold NothingToFill at hbad
  obtain ⟨hmod, hq⟩ := not_or.1 hbad
  obtain ⟨u, hl⟩ := Option.ne_none_iff_exists'.1 fun hc : l.frame = none => by
    have := hnone hc
    omega
  obtain ⟨hidx, -⟩ := hsome u hl
  have hq' : s.multiPacketDataField = true → answers.headD true = true := fun hm => by
    by_contra hc
    exact hq ⟨hm, by simpa using hc⟩
  have hlt := hfill.waiting.lt
  have hf : s.idleFill l.frameIdx =
      .error (.ndError "Network Data used NetworkData getDataLength()!") := by
    unfold idleFill
    rw [h.length_eq, if_pos h14]
    rfl
  exact process_fails hloop hl hq' (by rw [h.length_eq, hidx]; omega) h.unlocked hf

/-! ## Runs -/

/-- Behind no packet is a frame to be filled; `u` octets wait ahead of the first. -/
def NeverFills (D : ℕ) (multi : Bool) : ℕ → List (Bytes × List Bool) → Prop
  | _, [] => True
  | u, (p, answers) :: inputs =>
    NothingToFill D multi (u + p.length) answers ∧
      NeverFills D multi ((u + p.length) % D) inputs

/-- A run that gets through. -/
theorem run_ok (hD : D ≤ 2046) : ∀ (inputs : List (Bytes × List Bool)) {s : Gen} {z : Zone Octet},
    Waiting D s z → s.fillPattern ≠ [] → (∀ a ∈ inputs, a.1 ≠ []) →
    (14 ≤ D ∨ NeverFills D s.multiPacketDataField z.flat.length inputs) →
      ∃ s' zs z' items, runAll processData s inputs =
          .ok (s', zoneFrames s.channel s.currentFrameNumber zs) ∧
        Fills D s s' z z' zs items ∧ WithIdle (inputs.map Prod.fst) items := by
  intro inputs
  induction inputs with
  | nil =>
    intro s z h _ _ _
    exact ⟨s, [], z, [], rfl, .refl h, .nil⟩
  | cons a inputs ih =>
    intro s z h hpat hne hgood
    obtain ⟨p, answers⟩ := a
    obtain ⟨s₁, zs, z₁, idles, hproc, hfill, hemits, hpos⟩ := processData_ok hD h hpat
      (hne (p, answers) List.mem_cons_self) answers (hgood.imp_right fun hn => hn.1)
    obtain ⟨s', ws, z', items, hrun, hfill', hwith⟩ := ih hfill.waiting
      (by rw [hfill.setup.pattern_eq]; exact hpat) (fun b hb => hne b (List.mem_cons_of_mem _ hb))
      (by
        rw [hfill.setup.multi_eq]
        by_cases h14 : 14 ≤ D
        · exact Or.inl h14
        · rw [hpos (by omega)]
          exact hgood.imp_right fun hn => hn.2)
    refine ⟨s', zs ++ ws, z', p :: idles ++ items, ?_, hfill.trans hfill', ?_⟩
    · rw [hfill.frames_eq]
      exact runAll_cons hproc hrun
    · exact .packet p (hwith.idles hemits.idle)

/-- A run that throws. -/
theorem run_error (h14 : D < 14) : ∀ (inputs : List (Bytes × List Bool)) {s : Gen}
    {z : Zone Octet}, Waiting D s z → s.fillPattern ≠ [] → (∀ a ∈ inputs, a.1 ≠ []) →
    ¬ NeverFills D s.multiPacketDataField z.flat.length inputs →
      ∃ e, runAll processData s inputs = .error e := by
  intro inputs
  induction inputs with
  | nil =>
    intro s z _ _ _ hbad
    exact absurd trivial hbad
  | cons a inputs ih =>
    intro s z h hpat hne hbad
    obtain ⟨p, answers⟩ := a
    have hp : p ≠ [] := hne (p, answers) List.mem_cons_self
    by_cases hn : NothingToFill D s.multiPacketDataField (z.flat.length + p.length) answers
    · obtain ⟨s₁, zs, z₁, idles, hproc, hfill, -, hpos⟩ :=
        processData_ok (by omega) h hpat hp answers (Or.inr hn)
      have hrest : ¬ NeverFills D s₁.multiPacketDataField z₁.flat.length inputs := by
        rw [hfill.setup.multi_eq, hpos h14]
        exact fun hc => hbad ⟨hn, hc⟩
      obtain ⟨e, he⟩ := ih hfill.waiting (by rw [hfill.setup.pattern_eq]; exact hpat)
        (fun b hb => hne b (List.mem_cons_of_mem _ hb)) hrest
      exact ⟨e, runAll_cons_error hproc he⟩
    · exact ⟨_, runAll_error (processData_error h14 h hp hn)⟩

/-- A sender with the settings given, before its first packet. -/
def configured (c : Channel) (D : ℕ) (pattern : Bytes) (multi : Bool) : Gen :=
  { channel := c
    frameSize := c.nonDataLength + D
    fillPattern := pattern
    multiPacketDataField := multi }

/-- The sender gets through the packets, with the lock free and well formed frames. -/
def Generates (c : Channel) (D : ℕ) (pattern : Bytes) (multi : Bool)
    (inputs : List (Bytes × List Bool)) : Prop :=
  ∃ s' fs, runAll processData (configured c D pattern multi) inputs = .ok (s', fs) ∧
    s'.fillPatternLocked = false ∧ WellFormed c D (inputs.map Prod.fst) fs

theorem configured_waiting (c : Channel) (hD : 1 ≤ D) (pattern : Bytes) (multi : Bool) :
    Waiting D (configured c D pattern multi) {} := by
  refine ⟨Nat.add_sub_cancel_left _ _, rfl, {}, ⟨fun _ => rfl, fun u hu => absurd hu (by simp), rfl,
    rfl, by simp, rfl⟩, ⟨rfl, hD, fun _ => rfl, fun u hu => absurd hu (by simp),
    fun u hu => absurd hu (by simp), fun u hu => absurd hu (by simp)⟩⟩

/-- **When the frames generated are well formed.** -/
theorem generates_iff (c : Channel) {D : ℕ} (h₁ : 1 ≤ D) (hD : D ≤ 2046) {pattern : Bytes}
    (hpat : pattern ≠ []) (multi : Bool) {inputs : List (Bytes × List Bool)}
    (hne : ∀ a ∈ inputs, a.1 ≠ []) :
    Generates c D pattern multi inputs ↔ 14 ≤ D ∨ NeverFills D multi 0 inputs := by
  have hw := configured_waiting c h₁ pattern multi
  constructor
  · rintro ⟨s', fs, hrun, -, -⟩
    by_contra hc
    obtain ⟨h14, hbad⟩ := not_or.1 hc
    obtain ⟨e, he⟩ := run_error (by omega) inputs hw hpat hne hbad
    rw [he] at hrun
    exact absurd hrun (by simp)
  · intro hgood
    obtain ⟨s', zs, z', items, hrun, hfill, hwith⟩ := run_ok hD inputs hw hpat hne hgood
    refine ⟨s', _, hrun, hfill.waiting.unlocked, zs, z', items, hwith, ?_, hfill.waiting.lt, ?_, ?_⟩
    · simpa using hfill.carries [] [] (.first (.nil []))
    · unfold zoneFrames
      rw [frames_length, List.length_map]
    · intro i f z hf hz
      exact frameOf_zoneFrames hD hfill.full hf hz

theorem generates_default : Generates { scid := 0, vcid := 0 } 14 [0xE0] true [([1, 2, 3], [])] :=
  (generates_iff { scid := 0, vcid := 0 } (by decide) (by decide) (by decide) true (by decide)).2
    (Or.inl le_rfl)

/-- A packet of one octet in data fields of two: the exception leaves the fill pattern locked. -/
theorem short_field_throws :
    ¬ Generates { scid := 0, vcid := 0 } 2 [0xE0] true [([1], [])] := by
  rintro ⟨s', fs, hrun, -, -⟩
  have he : runAll processData (configured { scid := 0, vcid := 0 } 2 [0xE0] true) [([1], [])] =
      .error (.ndError "Network Data used NetworkData getDataLength()!") := by decide
  rw [he] at hrun
  exact absurd hrun (by simp)

end Gen

end ChannelEmulator.TM
