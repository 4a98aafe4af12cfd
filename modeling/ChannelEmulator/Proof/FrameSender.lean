import ChannelEmulator.Proof.MpduSender
import ChannelEmulator.Spec.VirtualChannel

/-!
# The TM sender fills its frames as the multiplexing sender its packet zones

* `frame`: the octets of a frame with a given count, first header pointer and data field.
* `Mirrors`: a TM sender and a multiplexing sender at the same point of the same packets.
* `fillLoop_mirrors`: **one loop simulates the other**, so that the zones the one fills are
  the data fields the other fills.
-/

namespace ChannelEmulator.TM

open Framing

/-! ## The header -/

/-- The frame secondary header. -/
def fsh (c : Channel) : Bytes :=
  if 0 < c.fshSize then UInt8.ofNat ((c.fshSize - 1) &&& 0x3f) :: newUnit (c.fshSize - 1) else []

/-- What stands ahead of the first header pointer in the data field status. -/
def status (c : Channel) : ℕ := if 0 < c.fshSize then 19 else 3

/-- Everything ahead of the data field. -/
def front (c : Channel) (count pointer : ℕ) : Bytes :=
  fromU16 ((c.scid <<< 4) ||| (c.vcid <<< 1) ||| (if c.useOperationalControl then 1 else 0)) ++
    [0, UInt8.ofNat count] ++ fromU16 (2 ^ 11 * status c + pointer) ++ fsh c

/-- A frame with a given count, first header pointer and data field. -/
def frame (c : Channel) (count pointer : ℕ) (data : Bytes) : Bytes :=
  front c count pointer ++ (data ++ newUnit (c.nonDataLength - c.ptrData))

theorem fsh_length (c : Channel) : (fsh c).length = c.fshSize := by
  unfold fsh
  split
  · rw [List.length_cons, newUnit_length]; omega
  · rw [List.length_nil]; omega

theorem front_length (c : Channel) (count pointer : ℕ) :
    (front c count pointer).length = c.ptrData := by
  simp only [front, fromU16, List.length_append, List.length_cons, List.length_nil, fsh_length]
  unfold Channel.ptrData spanPrimaryHeader
  omega

theorem ptrData_le (c : Channel) : c.ptrData ≤ c.nonDataLength := by
  unfold Channel.nonDataLength Channel.ptrData
  omega

theorem frame_length (c : Channel) (count pointer : ℕ) (data : Bytes) :
    (frame c count pointer data).length = c.nonDataLength + data.length := by
  have := ptrData_le c
  rw [frame, List.length_append, front_length, List.length_append, newUnit_length]
  omega

theorem data_frame (c : Channel) (count pointer : ℕ) (data : Bytes) :
    c.data (frame c count pointer data) = data := by
  have hlen : c.dataLength (frame c count pointer data) = data.length := by
    unfold Channel.dataLength
    rw [frame_length]
    omega
  unfold Channel.data
  rw [hlen, frame, List.drop_left' (front_length c count pointer), List.take_left]

theorem initializeFrame_eq (c : Channel) (dataLen count : ℕ) :
    initializeFrame c dataLen 0 count = .ok (frame c count 0 (newUnit dataLen)) := by
  have hs : ((if 0 < c.fshSize then 1 else 0) <<< 15) ||| (3 <<< 11) = 2 ^ 11 * status c + 0 := by
    unfold status
    split <;> decide
  unfold initializeFrame
  rw [if_neg (by have := c.scid_le; omega), if_neg (by have := c.vcid_le; omega)]
  dsimp only
  rw [hs, newUnit_add]
  rfl

variable {c : Channel} {count i j : ℕ} {data : Bytes}

theorem status_lt (c : Channel) : status c < 2 ^ 5 := by
  unfold status
  split <;> decide

theorem getDataFieldStat_frame (hi : i ≤ maxFirstHeaderPointer) :
    getDataFieldStat (frame c count i data) = .ok (2 ^ 11 * status c + i) := by
  have hs := status_lt c
  unfold maxFirstHeaderPointer at hi
  exact toU16_fromU16 _ (by omega)

theorem getFirstHeaderPointer_frame (hi : i ≤ maxFirstHeaderPointer) :
    getFirstHeaderPointer (frame c count i data) = .ok i := by
  have h : (2 ^ 11 * status c + i) &&& 0x7ff = i := by
    rw [show 0x7ff = 2 ^ 11 - 1 by rfl, Nat.and_two_pow_sub_one_eq_mod, Nat.mul_add_mod]
    exact Nat.mod_eq_of_lt (by unfold maxFirstHeaderPointer at hi; omega)
  unfold getFirstHeaderPointer
  rw [getDataFieldStat_frame hi]
  simp only [bind, Except.bind, pure, Except.pure, h]

/-- The bits ahead of the first header pointer. -/
theorem and_high {a i : ℕ} (hi : i < 2 ^ 11) (ha : a < 2 ^ 5) :
    (2 ^ 11 * a + i) &&& 0xf800 = 2 ^ 11 * a := by
  apply Nat.eq_of_testBit_eq
  intro k
  rw [Nat.testBit_and, Nat.testBit_two_pow_mul_add a hi, show 0xf800 = 2 ^ 11 * 31 by rfl,
    Nat.testBit_two_pow_mul, Nat.testBit_two_pow_mul]
  by_cases hk : k < 11
  · simp [hk, show ¬ 11 ≤ k by omega]
  · by_cases hk5 : k - 11 < 5
    · have h31 : Nat.testBit 31 (k - 11) = true := by
        rw [show 31 = 2 ^ 5 - 1 by rfl, Nat.testBit_two_pow_sub_one]
        exact decide_eq_true hk5
      simp [hk, show 11 ≤ k by omega, h31]
    · have ha0 : Nat.testBit a (k - 11) = false :=
        Nat.testBit_lt_two_pow (lt_of_lt_of_le ha (Nat.pow_le_pow_right (by decide) (by omega)))
      simp [hk, ha0]

theorem setFirstHeaderPointer_frame (hi : i ≤ maxFirstHeaderPointer)
    (hj : j ≤ maxFirstHeaderPointer) :
    setFirstHeaderPointer (frame c count i data) j = .ok (frame c count j data) := by
  have hj' : j < 2 ^ 11 := by unfold maxFirstHeaderPointer at hj; omega
  have hi' : i < 2 ^ 11 := by unfold maxFirstHeaderPointer at hi; omega
  have hval : ((2 ^ 11 * status c + i) &&& 0xf800) ||| (j &&& maxFirstHeaderPointer) =
      2 ^ 11 * status c + j := by
    have hm : j &&& maxFirstHeaderPointer = j := by
      rw [show maxFirstHeaderPointer = 2 ^ 11 - 1 by rfl, Nat.and_two_pow_sub_one_eq_mod]
      exact Nat.mod_eq_of_lt hj'
    rw [and_high hi' (status_lt c), hm, ← Nat.two_pow_add_eq_or_of_lt hj']
  unfold setFirstHeaderPointer
  rw [if_neg (by omega), getDataFieldStat_frame hi]
  simp only [bind, Except.bind, hval]
  unfold setDataFieldStat
  rw [if_neg (by
    have := ptrData_le c
    rw [frame_length, spanPrimaryHeader]
    unfold Channel.ptrData spanPrimaryHeader at this
    omega)]
  rfl

/-! ## Copying into the data field -/

/-- A copy into the middle of a unit. -/
theorem overwrite_inside (pre post : Bytes) {u v : Bytes} {k : ℕ} (h : k + v.length ≤ u.length) :
    overwrite (pre ++ (u ++ post)) (pre.length + k) v = pre ++ (overwrite u k v ++ post) := by
  unfold overwrite
  rw [List.take_append, List.take_of_length_le (Nat.le_add_right _ _), Nat.add_sub_cancel_left,
    List.take_append_of_le_length (by omega), Nat.add_assoc, ← List.drop_drop, List.drop_left,
    List.drop_append_of_le_length h]
  simp only [List.append_assoc]

theorem copyUnit_frame {src : Bytes} {k : ℕ} (h : k + src.length ≤ data.length) :
    copyUnit (frame c count i data) (c.ptrData + k) src =
      .ok (frame c count i (overwrite data k src)) := by
  have hlen := ptrData_le c
  have hin := overwrite_inside (front c count i)
    (newUnit (c.nonDataLength - c.ptrData)) h
  rw [front_length] at hin
  rw [copyUnit_ok (by rw [frame_length]; omega)]
  exact congrArg Except.ok hin

end ChannelEmulator.TM

namespace ChannelEmulator.Multiplexing

theorem copyUnit_mpdu {i k : ℕ} {zone src : Bytes} (h : k + src.length ≤ zone.length) :
    copyUnit (mpdu i zone) (spanHeader + k) src = .ok (mpdu i (overwrite zone k src)) := by
  have hin := TM.overwrite_inside (fromU16 i) [] h
  rw [copyUnit_ok (by rw [mpdu_length, spanHeader]; omega)]
  rw [List.append_nil, List.append_nil] at hin
  exact congrArg Except.ok hin

end ChannelEmulator.Multiplexing

namespace ChannelEmulator.TM

open Framing

/-! ## Both loops -/

namespace Gen

/-- The frames of some first header pointers and data fields, counted on from `count`. -/
def frames (c : Channel) : ℕ → List (ℕ × Bytes) → List Bytes
  | _, [] => []
  | count, (i, d) :: fs => frame c count i d :: frames c (incFrameNumber count) fs

/-- The count after so many frames. -/
def countAfter : ℕ → ℕ → ℕ
  | count, 0 => count
  | count, k + 1 => countAfter (incFrameNumber count) k

theorem frames_append (c : Channel) : ∀ (count : ℕ) (fs gs : List (ℕ × Bytes)),
    frames c count (fs ++ gs) = frames c count fs ++ frames c (countAfter count fs.length) gs := by
  intro count fs
  induction fs generalizing count with
  | nil => intro gs; rfl
  | cons f fs ih =>
    intro gs
    obtain ⟨i, d⟩ := f
    rw [List.cons_append, frames, ih, frames, List.length_cons, countAfter, List.cons_append]

theorem countAfter_add : ∀ (a b count : ℕ),
    countAfter count (a + b) = countAfter (countAfter count a) b := by
  intro a
  induction a with
  | zero => intro b count; rw [Nat.zero_add]; rfl
  | succ a ih => intro b count; rw [Nat.succ_add, countAfter, ih, countAfter]

/-- A TM sender and a multiplexing sender at the same point of the same packets: the unit
at hand is the same but for what surrounds its data field, and so are those sent, counted
on from `count`. -/
structure Mirrors (c : Channel) (D count : ℕ) (l : Locals) (m : Multiplexing.Locals)
    (fs : List (ℕ × Bytes)) : Prop where
  none_eq : m.mpdu = none → l.frame = none
  some_eq : ∀ u, m.mpdu = some u → ∃ i d, i ≤ maxFirstHeaderPointer ∧ d.length = D ∧
    u = Multiplexing.mpdu i d ∧ l.frame = some (frame c l.currentFrameNumber i d) ∧
    l.frameIdx = m.mpduIdx ∧ m.mpduIdx ≤ D ∧ l.firstHeaderIndexSet = m.firstHeaderIndexSet
  sent_eq : m.sent = fs.map fun f => Multiplexing.mpdu f.1 f.2
  frames_eq : l.sent = frames c count fs
  pointers_le : ∀ f ∈ fs, f.1 ≤ maxFirstHeaderPointer
  count_eq : l.currentFrameNumber = countAfter count fs.length

variable {c : Channel} {D count : ℕ} {l : Locals} {m : Multiplexing.Locals} {fs : List (ℕ × Bytes)}
  {s : Gen} {a : Multiplexing.Add}

/-- The unit of a pass. -/
theorem Mirrors.current (h : Mirrors s.channel D count l m fs) (hs : s.dataFieldLength = D)
    (ha : a.mpduLength = D + 2) :
    ∃ i d l₀ m₀, a.currentMpdu m = (Multiplexing.mpdu i d, m₀) ∧
      s.currentFrame l = .ok (frame s.channel l.currentFrameNumber i d, l₀) ∧
      i ≤ maxFirstHeaderPointer ∧ d.length = D ∧ l₀.frameIdx = m₀.mpduIdx ∧ m₀.mpduIdx ≤ D ∧
      l₀.firstHeaderIndexSet = m₀.firstHeaderIndexSet ∧ m₀.sent = m.sent ∧ l₀.sent = l.sent ∧
      l₀.currentFrameNumber = l.currentFrameNumber := by
  unfold Multiplexing.Add.currentMpdu currentFrame
  cases hm : m.mpdu with
  | none =>
    rw [h.none_eq hm, hs]
    dsimp only
    rw [initializeFrame_eq]
    refine ⟨0, newUnit D, { l with frame := none, frameIdx := 0, firstHeaderIndexSet := false },
      { m with mpdu := none, mpduIdx := 0, firstHeaderIndexSet := false }, ?_, ?_, Nat.zero_le _,
      newUnit_length D, rfl, Nat.zero_le _, rfl, rfl, rfl, rfl⟩
    · rw [Multiplexing.Add.newUnit_partly ha]
      rfl
    · rfl
  | some u =>
    obtain ⟨i, d, hi, hd, rfl, hl, hidx, hle, hset⟩ := h.some_eq u hm
    rw [hl]
    exact ⟨i, d, l, m, rfl, rfl, hi, hd, hidx, hle, hset, rfl, rfl, rfl⟩

/-- The first header pointer and the first header index are set alike. -/
theorem markHeader_mirrors {c : Channel} {l : Locals} {m : Multiplexing.Locals} {i : ℕ}
    (hi : i ≤ maxFirstHeaderPointer) (hidx : l.frameIdx = m.mpduIdx)
    (hle : m.mpduIdx ≤ maxFirstHeaderPointer)
    (hset : l.firstHeaderIndexSet = m.firstHeaderIndexSet) (n k D cnt : ℕ) (d : Bytes) :
    ∃ j set, Multiplexing.Add.markHeader (Multiplexing.mpdu i d) m n k D =
        .ok (Multiplexing.mpdu j d, set) ∧
      markHeader (frame c cnt i d) l n k D = .ok (frame c cnt j d, set) ∧
      j ≤ maxFirstHeaderPointer := by
  unfold Multiplexing.Add.markHeader markHeader
  rw [hset, hidx]
  split
  · refine ⟨maxFirstHeaderPointer, m.firstHeaderIndexSet, ?_, ?_, le_rfl⟩
    · rw [Multiplexing.setFirstHeaderIndex_mpdu hi le_rfl]
      rfl
    · rw [setFirstHeaderPointer_frame hi le_rfl]
      rfl
  · split
    · refine ⟨m.mpduIdx, true, ?_, ?_, hle⟩
      · rw [Multiplexing.setFirstHeaderIndex_mpdu hi hle]
        rfl
      · rw [setFirstHeaderPointer_frame hi hle]
        rfl
    · exact ⟨i, _, rfl, rfl, hi⟩

theorem Mirrors.sent (h : Mirrors c D count l m fs) {j : ℕ} (hj : j ≤ maxFirstHeaderPointer)
    {d : Bytes} {n : ℕ} (set : Bool) :
    Mirrors c D count
      { frame := none, frameIdx := n, firstHeaderIndexSet := set,
        currentFrameNumber := incFrameNumber l.currentFrameNumber,
        sent := l.sent ++ [frame c l.currentFrameNumber j d] }
      { mpdu := none, mpduIdx := n, firstHeaderIndexSet := set,
        sent := m.sent ++ [Multiplexing.mpdu j d] } (fs ++ [(j, d)]) := by
  refine ⟨fun _ => rfl, fun u hu => absurd hu (by simp), by rw [h.sent_eq]; simp, ?_, ?_, ?_⟩
  · rw [frames_append, ← h.frames_eq, ← h.count_eq]
    rfl
  · intro f hf
    rcases List.mem_append.1 hf with hf | hf
    · exact h.pointers_le f hf
    · obtain rfl := List.mem_singleton.1 hf
      exact hj
  · rw [List.length_append, countAfter_add, ← h.count_eq]
    rfl

theorem Mirrors.unfilled (h : Mirrors c D count l m fs) {j : ℕ} (hj : j ≤ maxFirstHeaderPointer)
    {d : Bytes} (hd : d.length = D) {n : ℕ} (hn : n ≤ D) (set : Bool) :
    Mirrors c D count
      { frame := some (frame c l.currentFrameNumber j d), frameIdx := n, firstHeaderIndexSet := set,
        currentFrameNumber := l.currentFrameNumber, sent := l.sent }
      { mpdu := some (Multiplexing.mpdu j d), mpduIdx := n, firstHeaderIndexSet := set,
        sent := m.sent } fs := by
  refine ⟨fun hm => absurd hm (by simp), fun u hu => ?_, h.sent_eq, h.frames_eq, h.pointers_le,
    h.count_eq⟩
  exact ⟨j, d, hj, hd, (Option.some.inj hu).symm, rfl, rfl, hn, rfl⟩

/-- **The loop fills frames as the multiplexing sender fills packet zones.** -/
theorem fillLoop_mirrors (hs : s.dataFieldLength = D) (hD : D ≤ maxFirstHeaderPointer)
    (ha : a.mpduLength = D + 2) :
    ∀ (fuel : ℕ) (l : Locals) (m : Multiplexing.Locals) (n : ℕ) (rest : Bytes)
      (fs : List (ℕ × Bytes)) (m' : Multiplexing.Locals), Mirrors s.channel D count l m fs →
      Multiplexing.Add.fillLoop a fuel m n rest = .ok m' →
        ∃ l' fs', fillLoop s fuel l n rest = .ok l' ∧ Mirrors s.channel D count l' m' fs' := by
  intro fuel
  induction fuel with
  | zero =>
    intro l m n rest fs m' _ hm
    exact absurd hm (by simp [Multiplexing.Add.fillLoop])
  | succ fuel ih =>
    intro l m n rest fs m' h hm
    obtain ⟨i, d, l₀, m₀, hcur, hcur', hi, hd, hidx, hle, hset, hms, hls, hcnt⟩ := h.current hs ha
    have hzone : a.packetZoneLength = D := by
      unfold Multiplexing.Add.packetZoneLength Multiplexing.spanHeader
      omega
    unfold Multiplexing.Add.fillLoop at hm
    rw [hcur] at hm
    simp only [hzone] at hm
    generalize hk : (if rest.length ≤ D - m₀.mpduIdx then rest.length else D - m₀.mpduIdx) = k at hm
    have hkle : k ≤ D - m₀.mpduIdx ∧ k ≤ rest.length := by rw [← hk]; split <;> omega
    have hsrc : m₀.mpduIdx + (rest.take k).length ≤ d.length := by
      rw [List.length_take_of_le hkle.2, hd]; omega
    rw [Multiplexing.copyUnit_mpdu hsrc] at hm
    obtain ⟨j, set, hmark, hmark', hj⟩ := markHeader_mirrors (c := s.channel) hi hidx
      (hle.trans hD) hset n k D l.currentFrameNumber (overwrite d m₀.mpduIdx (rest.take k))
    simp only [hmark, bind, Except.bind] at hm
    unfold fillLoop
    rw [hcur']
    simp only [bind, Except.bind, hs, hidx, hk]
    rw [copyUnit_frame hsrc]
    simp only [hmark']
    have hlen : (overwrite d m₀.mpduIdx (rest.take k)).length = D := by
      rw [overwrite_length hsrc, hd]
    have hnext : ∀ {l₁ m₁ fs₁}, Mirrors s.channel D count l₁ m₁ fs₁ →
        (if (rest.drop k).length = 0 then pure m₁
          else a.fillLoop fuel m₁ (n + k) (rest.drop k)) = Except.ok m' →
        ∃ l' fs', (if (rest.drop k).length = 0 then pure l₁
          else s.fillLoop fuel l₁ (n + k) (rest.drop k)) = Except.ok l' ∧
            Mirrors s.channel D count l' m' fs' := by
      intro l₁ m₁ fs₁ h₁ hm₁
      by_cases hz : (rest.drop k).length = 0
      · rw [if_pos hz] at hm₁ ⊢
        obtain rfl := Except.ok.inj hm₁
        exact ⟨l₁, fs₁, rfl, h₁⟩
      · rw [if_neg hz] at hm₁ ⊢
        exact ih l₁ m₁ (n + k) (rest.drop k) fs₁ m' h₁ hm₁
    by_cases hfull : m₀.mpduIdx + k = D
    · rw [if_pos hfull] at hm ⊢
      rw [hms] at hm
      rw [hcnt, hls]
      exact hnext (h.sent hj set) hm
    · rw [if_neg hfull, if_neg (by omega)] at hm ⊢
      rw [hms] at hm
      rw [hcnt, hls]
      exact hnext (h.unfilled hj hlen (by omega) set) hm

/-! ## One packet -/

/-- The frames the zones are sent as. -/
def zoneFrames (c : Channel) (count : ℕ) (zs : List (Zone Octet)) : List Bytes :=
  frames c count (zs.map fun z => (z.header.getD maxFirstHeaderPointer, z.flat))

theorem mpdu_inj {i j : ℕ} {d e : Bytes} (hi : i ≤ maxFirstHeaderPointer)
    (hj : j ≤ maxFirstHeaderPointer) (h : Multiplexing.mpdu i d = Multiplexing.mpdu j e) :
    (i, d) = (j, e) := by
  have hpt := Multiplexing.getFirstHeaderIndex_mpdu hi d
  rw [h, Multiplexing.getFirstHeaderIndex_mpdu hj e] at hpt
  obtain rfl := Except.ok.inj hpt
  rw [List.append_cancel_left h]

theorem map_mpdu_inj : ∀ {fs gs : List (ℕ × Bytes)}, (∀ f ∈ fs, f.1 ≤ maxFirstHeaderPointer) →
    (∀ g ∈ gs, g.1 ≤ maxFirstHeaderPointer) →
    (fs.map fun f => Multiplexing.mpdu f.1 f.2) = (gs.map fun g => Multiplexing.mpdu g.1 g.2) →
      fs = gs := by
  intro fs
  induction fs with
  | nil =>
    intro gs _ _ h
    exact (List.map_eq_nil_iff.1 h.symm).symm
  | cons f fs ih =>
    intro gs hf hg h
    cases gs with
    | nil => exact absurd h (by simp)
    | cons g gs =>
      rw [List.map_cons, List.map_cons] at h
      obtain ⟨h₁, h₂⟩ := List.cons.inj h
      have hfg : f = g := mpdu_inj (hf f (by simp)) (hg g (by simp)) h₁
      rw [hfg, ih (fun x hx => hf x (by simp [hx])) (fun x hx => hg x (by simp [hx])) h₂]

/-- The locals `_processData` starts with. -/
def initLocals (s : Gen) : Locals :=
  { frame := s.unfilledFrame
    frameIdx := s.unfilledFrameIdx
    firstHeaderIndexSet := s.firstHeaderIndexSet
    currentFrameNumber := s.currentFrameNumber }

/-- Between packets: the octets of the zone `z` wait in the unfilled frame. -/
structure Waiting (D : ℕ) (s : Gen) (z : Zone Octet) : Prop where
  length_eq : s.dataFieldLength = D
  unlocked : s.fillPatternLocked = false
  mirror : ∃ m, Mirrors s.channel D s.currentFrameNumber s.initLocals m [] ∧
    Multiplexing.Add.Working D m z

/-- The state behind the loop. -/
def afterLoop (s : Gen) (l : Locals) : Gen :=
  { s with
    unfilledFrame := l.frame
    unfilledFrameIdx := if l.frame = none then 0 else l.frameIdx
    firstHeaderIndexSet := l.firstHeaderIndexSet
    currentFrameNumber := l.currentFrameNumber }

/-- **The loop over one packet**: the zones it fills, and the one at hand. -/
theorem fillLoop_spec (hD : D ≤ 2046) {z : Zone Octet} (h : Waiting D s z) {p : Bytes}
    (hp : p ≠ []) :
    ∃ l zs z', fillLoop s (p.length + 1) s.initLocals 0 p = .ok l ∧
      l.sent = zoneFrames s.channel s.currentFrameNumber zs ∧
      l.currentFrameNumber = countAfter s.currentFrameNumber zs.length ∧
      (∀ w ∈ zs, w.flat.length = D) ∧ Waiting D (s.afterLoop l) z' ∧
      (l.frame = none → z' = {}) ∧
      (∀ u, l.frame = some u → l.frameIdx = z'.flat.length ∧ z'.flat ≠ []) ∧
      (∀ a items, Carries a [z] items [] → Carries a (zs ++ [z']) (items ++ [p]) []) ∧
      ((zs = [] ∧ z' = Multiplexing.Add.withItem z p) ∨
        (zs = [Multiplexing.Add.withItem z p] ∧ z' = {}) ∨
        ∃ t ws, t ≠ [] ∧ zs = Multiplexing.Add.withStart z t :: ws ∧
          (∀ w ∈ ws, w.whole = [] ∧ w.trail = [] ∧ w.lead ≠ []) ∧ z'.whole = []) := by
  obtain ⟨hs, hfree, m, hm, hw⟩ := h
  obtain ⟨m', zs, z', hloop, hsp, hcar, hshape⟩ := Multiplexing.Add.fillLoop_spec
    (s := { mpduLength := D + 2 }) rfl hD hw hp
  obtain ⟨l, fs, hloop', hm'⟩ := fillLoop_mirrors hs
    (hD.trans (by unfold maxFirstHeaderPointer; omega)) rfl _ _ _ _ _ _ _ hm hloop
  have hfs : fs = zs.map fun z => (z.header.getD maxFirstHeaderPointer, z.flat) := by
    refine map_mpdu_inj hm'.pointers_le ?_ ?_
    · intro g hg
      obtain ⟨w, hw, rfl⟩ := List.mem_map.1 hg
      cases hh : w.header with
      | none => exact le_rfl
      | some i =>
        have := (w.header_le hh).2
        have := hsp.full w hw
        rw [Option.getD_some]
        unfold maxFirstHeaderPointer
        omega
    · rw [← hm'.sent_eq, hsp.sent_eq, hm.sent_eq, List.map_map]
      rfl
  have hlen : fs.length = zs.length := by rw [hfs, List.length_map]
  have hnone : l.frame = none ↔ m'.mpdu = none := by
    refine ⟨fun hl => ?_, hm'.none_eq⟩
    by_contra hc
    obtain ⟨u, hu⟩ := Option.ne_none_iff_exists'.1 hc
    obtain ⟨_, _, _, _, _, hf, _⟩ := hm'.some_eq u hu
    rw [hl] at hf
    exact absurd hf (by simp)
  refine ⟨l, zs, z', hloop', by rw [hm'.frames_eq, hfs]; rfl, by rw [hm'.count_eq, hlen], hsp.full,
    ⟨hs, hfree, { m' with sent := [] }, ⟨hm'.none_eq, fun u hu => ?_, rfl, rfl, by simp, rfl⟩,
      ⟨hsp.working.trail_eq, hsp.working.lt, hsp.working.empty, hsp.working.unit_eq,
        hsp.working.idx_eq, hsp.working.set_eq⟩⟩,
    fun hl => hsp.working.empty (hnone.1 hl), fun u hu => ?_, hcar, hshape⟩
  · obtain ⟨i, d, hi, hd, hu', hf, hidx, hle, hset⟩ := hm'.some_eq u hu
    refine ⟨i, d, hi, hd, hu', hf, ?_, hle, hset⟩
    show (if l.frame = none then 0 else l.frameIdx) = m'.mpduIdx
    rw [if_neg (by rw [hf]; simp), hidx]
  · obtain ⟨v, hv⟩ : ∃ v, m'.mpdu = some v :=
      Option.ne_none_iff_exists'.1 fun hc => by
        rw [hnone.2 hc] at hu
        exact absurd hu (by simp)
    obtain ⟨_, _, _, _, _, _, hidx, _⟩ := hm'.some_eq v hv
    exact ⟨by rw [hidx, hsp.working.idx_eq v hv], hsp.nonempty v hv⟩

/-! ## Calls of `_processData` -/

/-- A call whose last frame is full. -/
theorem process_full {p : Bytes} {answers : List Bool} {fuel : ℕ} {l : Locals}
    (hloop : fillLoop s (p.length + 1) s.initLocals 0 p = .ok l) (hl : l.frame = none) :
    process (fuel + 1) s p answers = .ok (s.afterLoop l, l.sent) := by
  unfold initLocals at hloop
  unfold process
  dsimp only
  rw [hloop]
  simp only [bind, Except.bind, hl, pure, Except.pure]
  unfold afterLoop
  rw [hl, if_pos rfl]

/-- A call behind which another packet comes. -/
theorem process_waits {p : Bytes} {answers : List Bool} {fuel : ℕ} {l : Locals} {u : Bytes}
    (hloop : fillLoop s (p.length + 1) s.initLocals 0 p = .ok l) (hl : l.frame = some u)
    (hm : s.multiPacketDataField = true) (hq : answers.headD true = false) :
    process (fuel + 1) s p answers = .ok (s.afterLoop l, l.sent) := by
  unfold initLocals at hloop
  unfold process
  dsimp only
  rw [hloop]
  simp only [bind, Except.bind, hl, pure, Except.pure]
  rw [if_neg (by rw [hm, hq]; decide)]
  unfold afterLoop
  rw [hl, if_neg (by simp)]

/-- A call behind which no other packet comes into the frame. -/
theorem process_unfilled {p : Bytes} {answers : List Bool} {fuel : ℕ} {l : Locals} {u : Bytes}
    (hloop : fillLoop s (p.length + 1) s.initLocals 0 p = .ok l) (hl : l.frame = some u)
    (hq : s.multiPacketDataField = true → answers.headD true = true) :
    process (fuel + 1) s p answers =
      if l.frameIdx < s.dataFieldLength then do
        let (s', fill) ← (s.afterLoop l).lockedFill l.frameIdx
        let (s', sent) ← process fuel s' fill
          (if s.multiPacketDataField then answers.tail else answers)
        return (s', l.sent ++ sent)
      else .ok (s.afterLoop l, l.sent) := by
  have hs : s.afterLoop l = { s with
      unfilledFrame := some u
      unfilledFrameIdx := l.frameIdx
      firstHeaderIndexSet := l.firstHeaderIndexSet
      currentFrameNumber := l.currentFrameNumber } := by
    unfold afterLoop
    rw [hl, if_neg (by simp)]
  have hguard : (!s.multiPacketDataField || answers.headD true) = true := by
    cases hm : s.multiPacketDataField with
    | false => rfl
    | true => rw [hq hm]; rfl
  unfold initLocals at hloop
  conv_lhs => unfold process
  dsimp only
  rw [hloop]
  simp only [bind, Except.bind, hl, pure, Except.pure]
  rw [if_pos hguard, hs]
  rfl

/-- The lock is free again behind what is made under it. -/
theorem lockedFill_ok {i : ℕ} {f : Bytes} (hfree : s.fillPatternLocked = false)
    (hf : s.idleFill i = .ok f) : s.lockedFill i = .ok (s, f) := by
  have hback : releaseFillPattern { s with fillPatternLocked := true } = s := by
    unfold releaseFillPattern
    rw [← hfree]
  have hf' : idleFill { s with fillPatternLocked := true } i = .ok f := hf
  unfold lockedFill acquireFillPattern
  rw [if_neg (by simp [hfree])]
  simp only [bind, Except.bind, hf', pure, Except.pure, hback]

/-- A call behind which the frame is filled. -/
theorem process_fills {p : Bytes} {answers : List Bool} {fuel : ℕ} {l : Locals} {u f : Bytes}
    {s' : Gen} {sent : List Bytes}
    (hloop : fillLoop s (p.length + 1) s.initLocals 0 p = .ok l) (hl : l.frame = some u)
    (hq : s.multiPacketDataField = true → answers.headD true = true)
    (hlt : l.frameIdx < s.dataFieldLength) (hfree : s.fillPatternLocked = false)
    (hf : s.idleFill l.frameIdx = .ok f)
    (hrec : process fuel (s.afterLoop l) f
      (if s.multiPacketDataField then answers.tail else answers) = .ok (s', sent)) :
    process (fuel + 1) s p answers = .ok (s', l.sent ++ sent) := by
  have hfill : (s.afterLoop l).lockedFill l.frameIdx = .ok (s.afterLoop l, f) :=
    lockedFill_ok hfree hf
  rw [process_unfilled hloop hl hq, if_pos hlt]
  simp only [hfill, bind, Except.bind, hrec, pure, Except.pure]

/-- A call behind which the frame cannot be filled. -/
theorem process_fails {p : Bytes} {answers : List Bool} {fuel : ℕ} {l : Locals} {u : Bytes}
    {e : Fault} (hloop : fillLoop s (p.length + 1) s.initLocals 0 p = .ok l)
    (hl : l.frame = some u) (hq : s.multiPacketDataField = true → answers.headD true = true)
    (hlt : l.frameIdx < s.dataFieldLength) (hfree : s.fillPatternLocked = false)
    (hf : s.idleFill l.frameIdx = .error e) :
    process (fuel + 1) s p answers = .error e := by
  have hf' : idleFill { s.afterLoop l with fillPatternLocked := true } l.frameIdx = .error e := hf
  have hfree' : (s.afterLoop l).fillPatternLocked = false := hfree
  rw [process_unfilled hloop hl hq, if_pos hlt]
  unfold lockedFill acquireFillPattern
  rw [if_neg (by simp [hfree'])]
  simp only [bind, Except.bind, hf']

/-! ## Idle packets -/

theorem patternOctets_ok {pattern : Bytes} (hne : pattern ≠ []) : ∀ (fuel count : ℕ),
    count ≤ fuel → ∃ o, SpacePacket.patternOctets pattern fuel count = .ok o ∧ o.length = count := by
  have hpos := List.length_pos_iff.2 hne
  intro fuel
  induction fuel with
  | zero =>
    intro count h
    obtain rfl : count = 0 := by omega
    exact ⟨[], rfl, rfl⟩
  | succ fuel ih =>
    intro count h
    cases count with
    | zero => exact ⟨[], rfl, rfl⟩
    | succ count =>
      obtain ⟨o, ho, hlen⟩ := ih (count + 1 - pattern.length) (by omega)
      unfold SpacePacket.patternOctets
      rw [ho]
      refine ⟨pattern.take (count + 1) ++ o, rfl, ?_⟩
      rw [List.length_append, List.length_take, hlen]
      omega

/-- An idle packet: version 0, the idle identifier, and a consistent length. -/
structure Idle (f : Bytes) (len : ℕ) : Prop where
  length_eq : f.length = len
  first_eq : f.head? = some 7
  isIdle : SpacePacket.isIdle f = .ok true
  expected : SpacePacket.expectedLength f = .ok len

theorem newIdle_ok {pattern : Bytes} (hne : pattern ≠ []) {len : ℕ} (h₇ : 7 ≤ len)
    (hlen : len ≤ 65542) : ∃ f, SpacePacket.newIdle len pattern = .ok f ∧ Idle f len := by
  obtain ⟨k, rfl⟩ : ∃ k, len = 6 + k := ⟨len - 6, by omega⟩
  have hv : (6 + k + 2 ^ 32 - 7) % 2 ^ 16 = k - 1 := by
    rw [show 6 + k + 2 ^ 32 - 7 = (k - 1) + 2 ^ 16 * 2 ^ 16 by omega, Nat.add_mul_mod_self_left]
    exact Nat.mod_eq_of_lt (by omega)
  obtain ⟨o, ho, holen⟩ := patternOctets_ok hne (k - 1 + 1) (k - 1 + 1) le_rfl
  have hread : ∀ t, toU16 (fromU16 (k - 1) ++ t) = .ok (k - 1) := fun t =>
    toU16_fromU16 t (by omega)
  have hset : SpacePacket.setPktDataLen (newUnit (6 + k)) (k - 1) =
      .ok ([0, 0, 0, 0] ++ fromU16 (k - 1) ++ newUnit k) := by
    unfold SpacePacket.setPktDataLen
    rw [if_neg (by rw [newUnit_length]; omega), newUnit_add]
    rfl
  have hid : toU16 ([0, 0, 0, 0] ++ fromU16 (k - 1) ++ newUnit k) = .ok 0 := rfl
  have hmark : overwrite ([0, 0, 0, 0] ++ fromU16 (k - 1) ++ newUnit k) 0
      (fromU16 ((0 &&& 0xf000) ||| SpacePacket.idleAPIDVal)) =
        [7, 255, 0, 0] ++ fromU16 (k - 1) ++ newUnit k := by
    rfl
  have hget : ∀ t, SpacePacket.getPktDataLen ([7, 255, 0, 0] ++ fromU16 (k - 1) ++ t) =
      .ok (k - 1) := fun t => hread t
  have hcopy : copyUnit ([7, 255, 0, 0] ++ fromU16 (k - 1) ++ newUnit k) 6 o =
      .ok ([7, 255, 0, 0] ++ fromU16 (k - 1) ++ o) := by
    rw [copyUnit_ok (by simp [fromU16]; omega)]
    have hin := overwrite_inside ([7, 255, 0, 0] ++ fromU16 (k - 1)) [] (u := newUnit k) (v := o)
      (k := 0) (by simp; omega)
    have hall : overwrite (newUnit k) 0 o = o := by
      unfold overwrite
      rw [List.drop_eq_nil_of_le (by rw [newUnit_length]; omega)]
      simp
    rw [hall, List.append_nil, List.append_nil] at hin
    exact congrArg Except.ok hin
  refine ⟨[7, 255, 0, 0] ++ fromU16 (k - 1) ++ o, ?_, ?_, rfl, ?_, ?_⟩
  · unfold SpacePacket.newIdle
    simp only [hv, hset, bind, Except.bind, hid, hmark, hget, ho, hcopy]
  · simp only [List.length_append, fromU16, List.length_cons, List.length_nil, holen]
    omega
  · have hid' : toU16 ([7, 255, 0, 0] ++ fromU16 (k - 1) ++ o) = .ok SpacePacket.idleAPIDVal := rfl
    unfold SpacePacket.isIdle
    rw [hid']
    exact congrArg Except.ok (by decide)
  · unfold SpacePacket.expectedLength
    rw [hget]
    exact congrArg Except.ok (by omega)

theorem idleFill_ok (hs : s.dataFieldLength = D) (h14 : 14 ≤ D) (hD : D ≤ 2046)
    (hne : s.fillPattern ≠ []) {u : ℕ} (hu : u < D) :
    ∃ f, s.idleFill u = .ok f ∧ Idle f (max (D - u) 7) := by
  unfold idleFill
  rw [hs, if_neg (by omega)]
  have hlen : (if D - u > 7 then D - u else 7) = max (D - u) 7 := by
    split <;> omega
  rw [hlen]
  exact newIdle_ok hne (by omega) (by omega)

end Gen

end ChannelEmulator.TM
