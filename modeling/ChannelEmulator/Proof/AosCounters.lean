import ChannelEmulator.Proof.AosFrame
import ChannelEmulator.Spec.AosVirtualChannel

/-!
# The frame counters of an AOS virtual channel

* `numbering_iff`: **a generated frame carries its number** where the cycle is not in use, or
  where the number is from `2 ^ 24` on and below `2 ^ 28`.
* `accounting_exact`: **the misses that the receiver records** are the places at which the
  received counts break off.
-/

namespace ChannelEmulator.AOS

open Framing

/-! ## Generation -/

/-- The cycle that goes with frame `k`. -/
def cycleAt (useVCFrameCycle : Bool) (k : ℕ) : ℕ :=
  if useVCFrameCycle then k / 2 ^ 24 % 2 ^ 8 else 0

/-- The counters when `k` frames are sent. -/
def after (useVCFrameCycle : Bool) (k : ℕ) : Counter :=
  { frameCount := k % 2 ^ 24, frameCountCycle := cycleAt useVCFrameCycle k }

theorem after_inc (f : Bool) (k : ℕ) : (after f k).inc f = after f (k + 1) := by
  unfold Counter.inc after cycleAt
  rw [maxVCFrameCount]
  cases f
  · simp only [Bool.false_eq_true, if_false]
    split
    · rw [Counter.mk.injEq]; omega
    · rw [Counter.mk.injEq]; omega
  · simp only [if_true]
    split
    · rw [Counter.mk.injEq]; omega
    · rw [Counter.mk.injEq]; omega

/-- Frame `k` can be built. -/
def Fits (useVCFrameCycle : Bool) (k : ℕ) : Prop := useVCFrameCycle = false ∨ k < 2 ^ 28

theorem cycleAt_le {f : Bool} {k : ℕ} (h : Fits f k) : cycleAt f k ≤ maxVCFrameCountCycle := by
  rw [cycleAt, maxVCFrameCountCycle]
  rcases h with rfl | hk
  · simp
  · split <;> omega

theorem getSCID_le (c : Channel) : c.getSCID ≤ maxSpacecraftID := Nat.and_le_right

theorem getVCID_le (c : Channel) : c.getVCID ≤ maxVirtualChannelID := Nat.and_le_right

theorem gen_skips (c : Channel) {mru : ℕ} (s : Counter) {data : Bytes} (h : data.length ≠ mru) :
    gen c mru s data = .ok (s, []) := by
  rw [gen, if_pos h]

theorem gen_sends (c : Channel) {mru k : ℕ} {data : Bytes} (h : data.length = mru)
    (hk : Fits c.useVCFrameCycle k) :
    ∃ u, gen c mru (after c.useVCFrameCycle k) data =
      .ok (after c.useVCFrameCycle (k + 1), [u]) ∧
        Carrying u (k % 2 ^ 24) (cycleAt c.useVCFrameCycle k) := by
  have hn : k % 2 ^ 24 ≤ maxVCFrameCount := by rw [maxVCFrameCount]; omega
  obtain ⟨u, hu, hcar⟩ := c.layout.build_ok c.useVCFrameCycle data (getSCID_le c)
    (getVCID_le c) hn (cycleAt_le hk) (Or.inr rfl : reportType = 1 ∨ reportType = 2)
  refine ⟨u, ?_, hcar⟩
  rw [gen, if_neg (not_not.2 h)]
  simp only [after] at hu ⊢
  simp only [hu, bind, Except.bind, pure, Except.pure]
  rw [← after, after_inc]
  rfl

theorem gen_throws (c : Channel) {mru : ℕ} {data : Bytes} (h : data.length = mru)
    (hc : c.useVCFrameCycle = true) :
    ∃ e, gen c mru (after c.useVCFrameCycle (2 ^ 28)) data = .error e := by
  have hb := c.layout.build_big (n := 2 ^ 28 % 2 ^ 24) (c := 16) c.useVCFrameCycle reportType data
    (getSCID_le c) (getVCID_le c) (by decide) (by decide) (by decide)
  have hcyc : (after c.useVCFrameCycle (2 ^ 28)).frameCountCycle = 16 := by
    rw [after, cycleAt, if_pos hc]
    rfl
  refine ⟨.valueTooLarge (valueTooLargeMsg "Virtual Frame Count Cycle" 16 maxVCFrameCountCycle), ?_⟩
  rw [gen, if_neg (not_not.2 h), hcyc]
  simp only [after, hb, bind, Except.bind]

/-- The inputs that make a frame. -/
def framed (mru : ℕ) (inputs : List Bytes) : List Bytes := inputs.filter (·.length = mru)

/-- **A run of the generator** whose frames all fit. -/
theorem gen_run (c : Channel) (mru : ℕ) (inputs : List Bytes) (j : ℕ)
    (h : ∀ i < (framed mru inputs).length, Fits c.useVCFrameCycle (j + i)) :
    ∃ frames, runAll (gen c mru) (after c.useVCFrameCycle j) inputs =
        .ok (after c.useVCFrameCycle (j + (framed mru inputs).length), frames) ∧
      frames.length = (framed mru inputs).length ∧
      ∀ i u, frames[i]? = some u →
        Carrying u ((j + i) % 2 ^ 24) (cycleAt c.useVCFrameCycle (j + i)) := by
  induction inputs generalizing j with
  | nil => exact ⟨[], rfl, rfl, by simp⟩
  | cons data inputs ih =>
    by_cases hd : data.length = mru
    · have hcons : framed mru (data :: inputs) = data :: framed mru inputs := by
        simp [framed, hd]
      rw [hcons, List.length_cons] at h ⊢
      obtain ⟨u, hu, hcar⟩ := gen_sends c hd (h 0 (by omega))
      obtain ⟨frames, hr, hl, hf⟩ := ih (j + 1)
        (fun i hi => by have := h (i + 1) (by omega); rwa [show j + 1 + i = j + (i + 1) by omega])
      refine ⟨u :: frames, ?_, by rw [List.length_cons, hl], ?_⟩
      · rw [show j + ((framed mru inputs).length + 1) = j + 1 + (framed mru inputs).length by omega]
        exact runAll_cons hu hr
      · intro i v hv
        cases i with
        | zero =>
          obtain rfl : u = v := by simpa using hv
          exact hcar
        | succ i =>
          rw [show j + (i + 1) = j + 1 + i by omega]
          exact hf i v (by simpa using hv)
    · have hcons : framed mru (data :: inputs) = framed mru inputs := by simp [framed, hd]
      rw [hcons] at h ⊢
      obtain ⟨frames, hr, hl, hf⟩ := ih j h
      exact ⟨frames, runAll_cons (gen_skips c _ hd) hr, hl, hf⟩

/-- A run that comes to the frame behind the last cycle throws there. -/
theorem gen_run_throws (c : Channel) (hc : c.useVCFrameCycle = true) (mru : ℕ)
    (inputs : List Bytes) (j : ℕ) (hj : j ≤ 2 ^ 28) (h : 2 ^ 28 < j + (framed mru inputs).length) :
    ∃ e, runAll (gen c mru) (after c.useVCFrameCycle j) inputs = .error e := by
  induction inputs generalizing j with
  | nil =>
    rw [framed, List.filter_nil, List.length_nil] at h
    omega
  | cons data inputs ih =>
    by_cases hd : data.length = mru
    · have hcons : framed mru (data :: inputs) = data :: framed mru inputs := by
        simp [framed, hd]
      rw [hcons, List.length_cons] at h
      by_cases hlast : j = 2 ^ 28
      · rw [hlast]
        obtain ⟨e, he⟩ := gen_throws c hd hc
        exact ⟨e, runAll_error he⟩
      · obtain ⟨u, hu, -⟩ := gen_sends c hd (k := j) (.inr (by omega))
        obtain ⟨e, he⟩ := ih (j + 1) (by omega) (by omega)
        exact ⟨e, runAll_cons_error hu he⟩
    · have hcons : framed mru (data :: inputs) = framed mru inputs := by simp [framed, hd]
      rw [hcons] at h
      obtain ⟨e, he⟩ := ih j hj h
      exact ⟨e, runAll_cons_error (gen_skips c _ hd) he⟩

/-- The frame says that it is frame `n`. -/
def Numbered (useVCFrameCycle : Bool) (n : ℕ) (u : Bytes) : Prop :=
  getVCFrameCount u = .ok (n % 2 ^ 24) ∧ (useVCFrameCycle = true →
    getVCFrameCountCycle u = .ok (n / 2 ^ 24 % 16) ∧ getVCFrameCountCycleUsageFlag u = .ok true)

/-- The run on the inputs goes through, and its frame `n` says that it is frame `n`. -/
def NumbersFrame (c : Channel) (mru : ℕ) (inputs : List Bytes) (n : ℕ) : Prop :=
  ∃ s frames u, runAll (gen c mru) {} inputs = .ok (s, frames) ∧ frames[n]? = some u ∧
    Numbered c.useVCFrameCycle n u

theorem after_zero (f : Bool) : after f 0 = {} := by
  cases f <;> rfl

theorem numbersFrame_iff (c : Channel) {mru : ℕ} {inputs : List Bytes} {n : ℕ}
    (h : (framed mru inputs).length = n + 1) :
    NumbersFrame c mru inputs n ↔ c.useVCFrameCycle = false ∨ 2 ^ 24 ≤ n ∧ n < 2 ^ 28 := by
  unfold NumbersFrame
  rw [← after_zero c.useVCFrameCycle]
  by_cases hfit : Fits c.useVCFrameCycle n
  · obtain ⟨frames, hr, hl, hf⟩ := gen_run c mru inputs 0 (by
      intro i hi
      rcases hfit with hc | hn
      · exact .inl hc
      · exact .inr (by omega))
    have hlast : n < frames.length := by omega
    have hcar := hf n _ (List.getElem?_eq_getElem hlast)
    rw [Nat.zero_add] at hcar
    have hcount := hcar.getVCFrameCount (by rw [maxVCFrameCount]; omega)
    constructor
    · rintro ⟨s, frames', u, hr', hu, -, hcyc⟩
      obtain ⟨-, rfl⟩ := Prod.mk.inj (Except.ok.inj (hr.symm.trans hr'))
      obtain rfl := Option.some.inj ((List.getElem?_eq_getElem hlast).symm.trans hu)
      cases hc : c.useVCFrameCycle with
      | false => exact .inl rfl
      | true =>
        obtain ⟨-, hflag⟩ := hcyc hc
        rw [hcar.getVCFrameCountCycleUsageFlag, hc] at hflag
        have hne := of_decide_eq_true (Except.ok.inj hflag)
        rcases hfit with h' | h'
        · rw [hc] at h'; cases h'
        · rw [cycleAt, if_pos rfl] at hne
          exact .inr ⟨by omega, h'⟩
    · intro hgood
      refine ⟨_, frames, _, hr, List.getElem?_eq_getElem hlast, hcount, fun hc => ?_⟩
      rcases hgood with h' | ⟨hlo, hhi⟩
      · rw [hc] at h'; cases h'
      · have hcycle : cycleAt c.useVCFrameCycle n = n / 2 ^ 24 % 16 := by
          rw [cycleAt, if_pos hc]; omega
        have hne : cycleAt c.useVCFrameCycle n ≠ 0 := by omega
        rw [hcar.getVCFrameCountCycle, hcar.getVCFrameCountCycleUsageFlag, hcycle]
        exact ⟨rfl, congrArg Except.ok (decide_eq_true (hcycle ▸ hne))⟩
  · have hc : c.useVCFrameCycle = true := by
      rcases Bool.eq_false_or_eq_true c.useVCFrameCycle with h' | h'
      · exact h'
      · exact absurd (.inl h') hfit
    have hn : 2 ^ 28 ≤ n := by
      by_contra h'
      exact hfit (.inr (by omega))
    obtain ⟨e, he⟩ := gen_run_throws c hc mru inputs 0 (by omega) (by omega)
    constructor
    · rintro ⟨s, frames, u, hr, -⟩
      rw [he] at hr
      cases hr
    · rintro (h' | ⟨-, h'⟩)
      · rw [hc] at h'; cases h'
      · omega

/-- **When the numbering is right**: of the frames of every configuration, and of the increment
of a frame's own number. -/
theorem numbering_iff (c : Channel) (mru : ℕ) (inputs : List Bytes) (n : ℕ) (u : Bytes)
    (hn : (framed mru inputs).length = n + 1) (hu : 6 ≤ u.length) :
    (NumbersFrame c mru inputs n ↔ c.useVCFrameCycle = false ∨ 2 ^ 24 ≤ n ∧ n < 2 ^ 28) ∧
      (Steps u ↔ getVCFrameCountPlusCycle u ≠ .ok (2 ^ 28 - 1)) :=
  ⟨numbersFrame_iff c hn, incVCFrameCount_steps_iff hu⟩

theorem numbering_iff_one :
    (NumbersFrame {} 1 [[7]] 0 ↔ (false = false ∨ 2 ^ 24 ≤ 0 ∧ 0 < 2 ^ 28)) ∧
      (Steps [0x40, 0, 0, 0, 0, 0] ↔
        getVCFrameCountPlusCycle [0x40, 0, 0, 0, 0, 0] ≠ .ok (2 ^ 28 - 1)) :=
  numbering_iff {} 1 [[7]] 0 [0x40, 0, 0, 0, 0, 0] rfl (by decide)

/-- With the cycle in use, the first frame does not have the usage flag set. -/
theorem usage_flag_negated : ¬NumbersFrame { useVCFrameCycle := true } 1 [[7]] 0 := by
  have hrun : runAll (gen { useVCFrameCycle := true } 1) {} [[7]] =
      .ok ({ frameCount := 1 }, [[0x40, 0, 0, 0, 0, 0, 7]]) := by rfl
  rintro ⟨s, frames, u, hr, hu, -, hcyc⟩
  obtain ⟨-, rfl⟩ := Prod.mk.inj (Except.ok.inj (hrun.symm.trans hr))
  obtain rfl := Option.some.inj hu
  exact absurd (hcyc rfl).2 (by decide)

/-! ## Reception -/

/-- The tests ahead of the frame count let the frame through. -/
def Reaches (c : Channel) (frameSize : ℕ) (dropBadFrames : Bool) (aos : Bytes) : Prop :=
  aos.length = frameSize ∧ getVirtualChannelID aos ≠ .ok idleVirtualChannelID ∧
    (dropBadFrames = true → getTFVN aos = .ok 1 ∧ getMCID aos = .ok c.getMCID ∧
      getVirtualChannelID aos = .ok c.getVCID)

instance (c : Channel) (frameSize : ℕ) (dropBadFrames : Bool) (aos : Bytes) :
    Decidable (Reaches c frameSize dropBadFrames aos) := inferInstanceAs (Decidable (_ ∧ _))

/-- The identifiers of a frame of at least two octets. -/
theorem ids_ok (a b : Octet) (t : Bytes) : ∃ v m i, getTFVN (a :: b :: t) = .ok v ∧
    getMCID (a :: b :: t) = .ok m ∧ getVirtualChannelID (a :: b :: t) = .ok i :=
  ⟨_, _, _, rfl, rfl, rfl⟩

theorem validateFrame_eq (s : Rcv) {aos : Bytes} {frameSize v : ℕ} (hl : aos.length = frameSize)
    (hv : getTFVN aos = .ok v) :
    validateFrame s aos frameSize =
      .ok (if v = 1 then s else { s with badTFVNCount := s.badTFVNCount + 1 }, decide (v = 1)) := by
  rw [validateFrame, if_neg (not_not.2 hl), hv]
  by_cases h : v = 1 <;> simp [h, bind, Except.bind, pure, Except.pure]

/-- The tests do not touch the counters. -/
theorem check_spec (c : Channel) (frameSize : ℕ) (dropBadFrames : Bool) (s : Rcv) (a b : Octet)
    (t : Bytes) : ∃ s' valid, check c frameSize dropBadFrames s (a :: b :: t) =
      .ok (s', decide (Reaches c frameSize dropBadFrames (a :: b :: t)), valid) ∧
        s'.counter = s.counter ∧ s'.frameCountMisses = s.frameCountMisses := by
  obtain ⟨v, m, i, hv, hm, hi⟩ := ids_ok a b t
  by_cases hl : (a :: b :: t).length = frameSize
  · have hidle : isIdle (a :: b :: t) = .ok (decide (i = idleVirtualChannelID)) := by
      rw [isIdle, hi]
      rfl
    have hr : Reaches c frameSize dropBadFrames (a :: b :: t) ↔ i ≠ idleVirtualChannelID ∧
        (dropBadFrames = true → v = 1 ∧ m = c.getMCID ∧ i = c.getVCID) := by
      simp only [Reaches, hv, hm, hi, hl, Except.ok.injEq, true_and, ne_eq]
    simp only [check, hl, hm, hi, hidle, validateFrame_eq s hl hv, bind, Except.bind, ne_eq,
      not_true, if_false, pure, Except.pure, decide_eq_decide.2 hr]
    -- which tests fail decides which tallies are stepped
    by_cases h₁ : v = 1 <;> by_cases h₂ : m = c.getMCID <;> by_cases h₃ : i = c.getVCID <;>
      cases dropBadFrames <;> simp [h₁, h₂, h₃]
  · refine ⟨{ s with badLengthCount := s.badLengthCount + 1 }, false, ?_, rfl, rfl⟩
    rw [check, if_pos hl, decide_eq_false (fun h => hl h.1)]

/-- A frame that is counted, whatever was expected: its count is the one to go on from. -/
theorem countFrame_spec (f : Bool) (s : Rcv) {n : ℕ} (hn : n ≤ maxVCFrameCount) :
    (countFrame f s n).frameCountMisses =
        s.frameCountMisses + (if n = s.counter.frameCount then 0 else 1) ∧
      (countFrame f s n).counter.frameCount = (n + 1) % 2 ^ 24 := by
  rw [maxVCFrameCount] at hn
  unfold countFrame Counter.inc
  rw [maxVCFrameCount]
  by_cases h : n = s.counter.frameCount
  · subst h
    simp only [ne_eq, not_true, if_false, if_true, Nat.add_zero, true_and]
    split <;> simp only <;> omega
  · simp only [ne_eq, h, not_false_iff, if_true, if_false, true_and]
    split <;> simp only <;> omega

/-- The count of a frame that the tests let through. -/
def receivedCount (c : Channel) (frameSize : ℕ) (dropBadFrames : Bool) (aos : Bytes) : Option ℕ :=
  if Reaches c frameSize dropBadFrames aos then (getVCFrameCount aos).toOption else none

/-- **One pass**: the misses and the expected count, from the count received. -/
theorem rcv_spec (c : Channel) (frameSize : ℕ) (dropBadFrames : Bool) (s : Rcv) {aos : Bytes}
    (ha : 6 ≤ aos.length) : ∃ s' out, rcv c frameSize dropBadFrames s aos = .ok (s', out) ∧
      match receivedCount c frameSize dropBadFrames aos with
      | some n => s'.frameCountMisses =
            s.frameCountMisses + (if n = s.counter.frameCount then 0 else 1) ∧
          s'.counter.frameCount = (n + 1) % 2 ^ 24
      | none => s'.frameCountMisses = s.frameCountMisses ∧
          s'.counter.frameCount = s.counter.frameCount := by
  obtain ⟨a, b, n₂, n₁, n₀, g, t, rfl⟩ := exists_header ha
  obtain ⟨n, hn, hle⟩ := getVCFrameCount_le a b n₂ n₁ n₀ g t
  set g' := (g &&& 0xBF) ||| (if c.useVCFrameCycle then (0x40 : Octet) else 0) with hg'
  have hn' : getVCFrameCount (a :: b :: n₂ :: n₁ :: n₀ :: g' :: t) = .ok n := by
    rw [getVCFrameCount_eq] at hn ⊢
    exact hn
  obtain ⟨s₁, valid, hc, hs₁, hm₁⟩ := check_spec c frameSize dropBadFrames s a b
    (n₂ :: n₁ :: n₀ :: g' :: t)
  have hreach : Reaches c frameSize dropBadFrames (a :: b :: n₂ :: n₁ :: n₀ :: g' :: t) ↔
      Reaches c frameSize dropBadFrames (a :: b :: n₂ :: n₁ :: n₀ :: g :: t) := Iff.rfl
  rw [rcv, setVCFrameCountCycleUsageFlag_eq, ← hg', receivedCount]
  simp only [bind, Except.bind, hc, pure, Except.pure]
  by_cases hr : Reaches c frameSize dropBadFrames (a :: b :: n₂ :: n₁ :: n₀ :: g :: t)
  · rw [if_pos hr, hn, decide_eq_true (hreach.2 hr)]
    simp only [Bool.not_true, Bool.false_eq_true, if_false, hn', Except.toOption]
    refine ⟨_, _, rfl, ?_⟩
    rw [← hs₁, ← hm₁]
    cases valid
    · exact countFrame_spec _ s₁ hle
    · exact countFrame_spec _ { s₁ with validFrameCount := s₁.validFrameCount + 1 } hle
  · rw [if_neg hr, decide_eq_false (mt hreach.1 hr)]
    exact ⟨s₁, [], rfl, hm₁, by rw [hs₁]⟩

/-! ## Runs of the receiver -/

/-- The places at which a list of counts breaks off. -/
def breaks (counts : List ℕ) : ℕ :=
  (counts.zip counts.tail).countP fun p => p.2 ≠ (p.1 + 1) % 2 ^ 24

theorem breaks_cons (n m : ℕ) (ns : List ℕ) :
    breaks (n :: m :: ns) = breaks (m :: ns) + (if m = (n + 1) % 2 ^ 24 then 0 else 1) := by
  simp only [breaks, List.tail_cons, List.zip_cons_cons, List.countP_cons]
  by_cases h : m = (n + 1) % 2 ^ 24 <;> simp [h]

/-- Counts without a gap. -/
def GapFree (counts : List ℕ) : Prop := counts.IsChain fun n m => m = (n + 1) % 2 ^ 24

theorem GapFree.breaks {counts : List ℕ} (h : GapFree counts) : breaks counts = 0 := by
  induction counts with
  | nil => rfl
  | cons n ns ih =>
    cases ns with
    | nil => rfl
    | cons m ns =>
      obtain ⟨hm, hns⟩ := List.isChain_cons_cons.1 h
      rw [breaks_cons, ih hns, if_pos hm]

/-- The miss that the first count makes: it is not the one expected. -/
def firstMiss (expected : ℕ) (counts : List ℕ) : ℕ :=
  match counts with
  | [] => 0
  | n :: _ => if n = expected then 0 else 1

/-- The expected count when all counts are received. -/
def expectedAfter (expected : ℕ) (counts : List ℕ) : ℕ :=
  (counts.getLast?).elim expected fun n => (n + 1) % 2 ^ 24

variable (c : Channel) (frameSize : ℕ) (dropBadFrames : Bool)

/-- The counts of the frames that the tests let through. -/
def receivedCounts (frames : List Bytes) : List ℕ :=
  frames.filterMap (receivedCount c frameSize dropBadFrames)

/-- Every octet of a frame's header is touched ahead of the tests. -/
theorem rcv_length {s s' : Rcv} {aos : Bytes} {out : List Bytes}
    (h : rcv c frameSize dropBadFrames s aos = .ok (s', out)) : 6 ≤ aos.length := by
  by_contra hlen
  obtain ⟨u, hu, -⟩ := bind_ok h
  obtain ⟨g, hg, -⟩ := bind_ok hu
  rw [getSignalingField, octetAt, List.getElem?_eq_none (by
    rw [ptrSignalingField, ptrVCFrameCount, spanGVCIDField, spanVCFrameCountField]; omega)] at hg
  cases hg

/-- **A run of the receiver**: the misses and the expected count, from the counts received. -/
theorem rcv_run {s s' : Rcv} {frames : List Bytes} {out : List Bytes}
    (h : runAll (rcv c frameSize dropBadFrames) s frames = .ok (s', out)) :
    let counts := receivedCounts c frameSize dropBadFrames frames
    s'.frameCountMisses =
        s.frameCountMisses + firstMiss s.counter.frameCount counts + breaks counts ∧
      s'.counter.frameCount = expectedAfter s.counter.frameCount counts := by
  induction frames generalizing s out with
  | nil =>
    obtain ⟨rfl, -⟩ := Prod.mk.inj (Except.ok.inj h)
    exact ⟨rfl, rfl⟩
  | cons aos frames ih =>
    obtain ⟨s₁, o₁, o₂, h₁, h₂, -⟩ := runAll_cons_inv h
    obtain ⟨s₁', o₁', h₁', hstep⟩ := rcv_spec c frameSize dropBadFrames s
      (rcv_length c frameSize dropBadFrames h₁)
    obtain ⟨rfl, -⟩ := Prod.mk.inj (Except.ok.inj (h₁'.symm.trans h₁))
    obtain ⟨hmiss, hexp⟩ := ih h₂
    rw [receivedCounts, List.filterMap_cons, ← receivedCounts]
    rcases hr : receivedCount c frameSize dropBadFrames aos with - | n
    · -- the frame does not get as far as the count
      rw [hr] at hstep
      obtain ⟨hm, he⟩ := hstep
      simp only
      rw [hmiss, hexp, hm, he]
      exact ⟨rfl, rfl⟩
    · rw [hr] at hstep
      obtain ⟨hm, he⟩ := hstep
      simp only
      rw [hmiss, hexp, hm, he]
      rcases receivedCounts c frameSize dropBadFrames frames with - | ⟨m, ms⟩
      · exact ⟨rfl, rfl⟩
      · constructor
        · rw [breaks_cons]
          simp only [firstMiss]
          omega
        · rw [expectedAfter, expectedAfter, List.getLast?_cons_cons,
            List.getLast?_eq_some_getLast (List.cons_ne_nil m ms)]
          rfl

/-- **The accounting is exact.** Whatever the frames: the misses recorded are the places at which
the received counts break off, and one where the first is not the expected one; the expected
count follows the last one received; a stream without a gap records no miss behind its first
frame. Frames that have a header are received without fault. -/
theorem accounting_exact (s : Rcv) (frames : List Bytes) :
    (∀ s' out, runAll (rcv c frameSize dropBadFrames) s frames = .ok (s', out) →
      let counts := receivedCounts c frameSize dropBadFrames frames
      s'.frameCountMisses =
          s.frameCountMisses + firstMiss s.counter.frameCount counts + breaks counts ∧
        s'.counter.frameCount = expectedAfter s.counter.frameCount counts ∧
        (GapFree counts →
          s'.frameCountMisses = s.frameCountMisses + firstMiss s.counter.frameCount counts)) ∧
    ((∀ aos ∈ frames, 6 ≤ aos.length) →
      ∃ s' out, runAll (rcv c frameSize dropBadFrames) s frames = .ok (s', out)) := by
  constructor
  · intro s' out h
    obtain ⟨hm, he⟩ := rcv_run c frameSize dropBadFrames h
    refine ⟨hm, he, fun hgap => ?_⟩
    rw [hm, hgap.breaks, Nat.add_zero]
  · intro hlen
    induction frames generalizing s with
    | nil => exact ⟨s, [], rfl⟩
    | cons aos frames ih =>
      obtain ⟨s₁, o₁, h₁, -⟩ := rcv_spec c frameSize dropBadFrames s (hlen aos (by simp))
      obtain ⟨s₂, o₂, h₂⟩ := ih s₁ (fun a ha => hlen a (by simp [ha]))
      exact ⟨s₂, _, runAll_cons h₁ h₂⟩

/-- Two frames in a row at the wrap, received in step: no miss. -/
theorem accounting_exact_wrap :
    (∀ s' out, runAll (rcv {} 7 false) { counter := { frameCount := 2 ^ 24 - 1 } }
        [[0x40, 0, 0xFF, 0xFF, 0xFF, 0, 7], [0x40, 0, 0, 0, 0, 0, 7]] = .ok (s', out) →
      s'.frameCountMisses = 0) ∧
    ∃ s' out, runAll (rcv {} 7 false) { counter := { frameCount := 2 ^ 24 - 1 } }
        [[0x40, 0, 0xFF, 0xFF, 0xFF, 0, 7], [0x40, 0, 0, 0, 0, 0, 7]] = .ok (s', out) := by
  have h := accounting_exact {} 7 false { counter := { frameCount := 2 ^ 24 - 1 } }
    [[0x40, 0, 0xFF, 0xFF, 0xFF, 0, 7], [0x40, 0, 0, 0, 0, 0, 7]]
  have hc : receivedCounts {} 7 false [[0x40, 0, 0xFF, 0xFF, 0xFF, 0, 7], [0x40, 0, 0, 0, 0, 0, 7]] =
      [2 ^ 24 - 1, 0] := by decide
  refine ⟨fun s' out hrun => ?_, h.2 (by decide)⟩
  obtain ⟨-, -, hgap⟩ := h.1 s' out hrun
  rw [hc] at hgap
  exact hgap (by simp [GapFree])

end ChannelEmulator.AOS
