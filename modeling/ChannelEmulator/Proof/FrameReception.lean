import ChannelEmulator.Spec.FrameReception

/-!
# TM frame counts and idle frames

Frames of idle data leave the loops of both services ahead of the frame count, so the count
expected is not stepped over them.

* `idle_tolerated_iff`: **a gap-free stream is received without a miss** where the idle frames
  ahead of every data frame are a multiple of 256, the size of the frame count.
-/

namespace ChannelEmulator.TM

open Framing

/-! ## Streams -/

/-- The frame passes the tests of `svc`. -/
structure ValidFrame (v : Service) (u : Bytes) : Prop where
  length_eq : u.length = v.frameSize
  valid : isValid v.channel u = .ok 1
  mcid : getMCID u = .ok v.channel.scid
  vcid : getVCID u = .ok v.channel.vcid

/-- The frame carries only idle data. -/
def Idle (u : Bytes) : Prop := getFirstHeaderPointer u = .ok (maxFirstHeaderPointer - 1)

instance : DecidablePred Idle := fun u =>
  inferInstanceAs (Decidable (getFirstHeaderPointer u = .ok (maxFirstHeaderPointer - 1)))

/-- The frames with data. -/
def dataFrames (frames : List Bytes) : List Bytes := frames.filter fun u => ¬Idle u

/-- The counts of the frames follow each other, from `k` behind `n` on. -/
def SequenceFrom (n : Octet) (k : ℕ) (frames : List Bytes) : Prop :=
  ∀ i u, frames[i]? = some u → getVCFrameCount u = .ok (n + UInt8.ofNat (k + i))

/-- The counts of the frames follow each other, from `n` on. -/
def InSequence (n : Octet) (frames : List Bytes) : Prop := SequenceFrom n 0 frames

/-- Ahead of every data frame, `k` and the idle frames make a multiple of 256. -/
def WholeFrom (k : ℕ) (frames : List Bytes) : Prop :=
  ∀ pre u post, frames = pre ++ u :: post → ¬Idle u → 256 ∣ k + pre.countP (fun u => Idle u)

/-- Ahead of every data frame, the idle frames are a multiple of 256. -/
def WholeIdleRuns (frames : List Bytes) : Prop := WholeFrom 0 frames

theorem wholeFrom_idle {k : ℕ} {u : Bytes} {us : List Bytes} (hu : Idle u) :
    WholeFrom k (u :: us) ↔ WholeFrom (k + 1) us := by
  constructor
  · intro h pre w post he hw
    have := h (u :: pre) w post (by rw [he, List.cons_append]) hw
    rw [List.countP_cons, if_pos (by simpa using hu)] at this
    rwa [show k + 1 + pre.countP (fun u => Idle u) = k + (pre.countP (fun u => Idle u) + 1) by omega]
  · intro h pre w post he hw
    cases pre with
    | nil =>
      obtain ⟨rfl, -⟩ := List.cons.inj he
      exact absurd hu hw
    | cons x pre =>
      obtain ⟨rfl, he'⟩ := List.cons.inj he
      have := h pre w post he' hw
      rw [List.countP_cons, if_pos (by simpa using hu)]
      rwa [show k + (pre.countP (fun u => Idle u) + 1) = k + 1 + pre.countP (fun u => Idle u) by omega]

theorem wholeFrom_data {k : ℕ} {u : Bytes} {us : List Bytes} (hu : ¬Idle u) :
    WholeFrom k (u :: us) ↔ 256 ∣ k ∧ WholeFrom k us := by
  constructor
  · intro h
    refine ⟨by simpa using h [] u us rfl hu, fun pre w post he hw => ?_⟩
    have := h (u :: pre) w post (by rw [he, List.cons_append]) hw
    rwa [List.countP_cons, if_neg (by simpa using hu), Nat.add_zero] at this
  · rintro ⟨hk, h⟩ pre w post he hw
    cases pre with
    | nil => simpa using hk
    | cons x pre =>
      obtain ⟨rfl, he'⟩ := List.cons.inj he
      rw [List.countP_cons, if_neg (by simpa using hu), Nat.add_zero]
      exact h pre w post he' hw

/-! ## The counts -/

/-- What a valid frame does to the tallies. -/
def tally (k : Tallies) (u : Bytes) : Tallies :=
  if Idle u then k else k.countFrame (u.getD 3 0) true

theorem incCurrentFrameNumber_eq (n : Octet) : incCurrentFrameNumber n = n + 1 := by
  unfold incCurrentFrameNumber
  split
  · rename_i h
    rw [h]
    rfl
  · rfl

theorem ofNat_eq_zero {k : ℕ} : UInt8.ofNat k = 0 ↔ 256 ∣ k := by
  rw [← UInt8.toNat_inj, UInt8.toNat_ofNat', Nat.dvd_iff_mod_eq_zero]
  rfl

theorem count_eq {u : Bytes} {m : Octet} (h : getVCFrameCount u = .ok m) : u.getD 3 0 = m := by
  rw [getVCFrameCount, octetAt] at h
  rcases hu : u[3]? with - | b
  · rw [hu] at h
    cases h
  · rw [hu] at h
    rw [List.getD_eq_getElem?_getD, hu]
    exact Except.ok.inj h

theorem sequenceFrom_cons {n : Octet} {k : ℕ} {u : Bytes} {us : List Bytes} :
    SequenceFrom n k (u :: us) ↔
      getVCFrameCount u = .ok (n + UInt8.ofNat k) ∧ SequenceFrom n (k + 1) us := by
  constructor
  · intro h
    refine ⟨h 0 u rfl, fun i w hw => ?_⟩
    rw [show k + 1 + i = k + (i + 1) by omega]
    exact h (i + 1) w (by simpa using hw)
  · rintro ⟨h₀, h⟩ i w hw
    cases i with
    | zero =>
      obtain rfl : u = w := by simpa using hw
      exact h₀
    | succ i =>
      rw [show k + (i + 1) = k + 1 + i by omega]
      exact h i w (by simpa using hw)

theorem sequenceFrom_succ {n : Octet} {k : ℕ} {us : List Bytes} (h : SequenceFrom n (k + 1) us) :
    SequenceFrom (n + 1) k us := by
  intro i w hw
  rw [h i w hw]
  apply congrArg Except.ok
  rw [show k + 1 + i = 1 + (k + i) by omega, UInt8.ofNat_add, ← UInt8.add_assoc]
  rfl

theorem tally_misses_le (k : Tallies) (u : Bytes) :
    k.frameCountMisses ≤ (tally k u).frameCountMisses := by
  unfold tally Tallies.countFrame
  split
  · exact le_rfl
  · simp only [if_true]
    split
    · exact Nat.le_succ _
    · exact le_rfl

theorem foldl_tally_misses_le (frames : List Bytes) (k : Tallies) :
    k.frameCountMisses ≤ (frames.foldl tally k).frameCountMisses := by
  induction frames generalizing k with
  | nil => exact le_rfl
  | cons u us ih => exact (tally_misses_le k u).trans (ih (tally k u))

/-- **The misses of a gap-free stream**: none just where the idle frames come in whole runs. -/
theorem foldl_tally_misses_iff {frames : List Bytes} {k : Tallies} {j : ℕ}
    (h : SequenceFrom k.currentFrameNumber j frames) :
    (frames.foldl tally k).frameCountMisses = k.frameCountMisses ↔ WholeFrom j frames := by
  induction frames generalizing k j with
  | nil =>
    refine ⟨fun _ pre u post he => ?_, fun _ => rfl⟩
    simp at he
  | cons u us ih =>
    obtain ⟨hu, hus⟩ := sequenceFrom_cons.1 h
    rw [List.foldl_cons]
    by_cases hidle : Idle u
    · -- the count is not looked at
      rw [wholeFrom_idle hidle, tally, if_pos hidle]
      exact ih hus
    · rw [wholeFrom_data hidle]
      have hcount : u.getD 3 0 = k.currentFrameNumber ↔ 256 ∣ j := by
        rw [count_eq hu, ← ofNat_eq_zero]
        exact UInt8.add_eq_left
      by_cases hj : 256 ∣ j
      · -- in step: the next count is expected
        have hk : (tally k u).frameCountMisses = k.frameCountMisses ∧
            (tally k u).currentFrameNumber = k.currentFrameNumber + 1 := by
          simp only [tally, if_neg hidle, Tallies.countFrame, hcount.2 hj, ne_eq, not_true,
            if_false, if_true, incCurrentFrameNumber_eq, and_self]
        rw [← hk.1, ih (by rw [hk.2]; exact sequenceFrom_succ hus)]
        exact ⟨fun h => ⟨hj, h⟩, And.right⟩
      · -- out of step: a miss that stays recorded
        have hk : (tally k u).frameCountMisses = k.frameCountMisses + 1 := by
          simp only [tally, if_neg hidle, Tallies.countFrame, mt hcount.1 hj, ne_eq, not_false_iff,
            if_true]
        have hle := foldl_tally_misses_le us (tally k u)
        exact ⟨fun h => by omega, fun h => absurd h.1 hj⟩

/-! ## What `isValid` accepts -/

/-- The flags and the secondary header of a frame agree with the fields of its channel. -/
structure Agrees (c : Channel) (u : Bytes) : Prop where
  version : getTFVN u = .ok 0
  operationalControl : getOCFF u = .ok c.useOperationalControl
  secondaryHeader : getSecondaryHeaderFlag u = .ok (decide (0 < c.fshSize))
  unsynchronized : getSynchronizationFlag u = .ok false →
    getPacketOrderFlag u = .ok false ∧ getSegmentLengthID u = .ok 3
  secondaryHeaderLength : 0 < c.fshSize → getSecondaryHeaderDataLength u = .ok (c.fshSize - 1)

/-- A first header pointer that does not point to a packet. -/
def Reserved (pointer : ℕ) : Prop := noPacketStart pointer = true ∨ onlyIdleData pointer = true

/-- A test that is passed. -/
theorem passed {P : Prop} [Decidable P] {m n : ℤ} {r : Except Fault ℤ}
    (h : (if P then pure m else r) = .ok n) (hn : 0 < n) (hm : m ≤ 0) : ¬P ∧ r = .ok n := by
  by_cases hP : P
  · rw [if_pos hP] at h
    have heq : m = n := Except.ok.inj h
    omega
  · rw [if_neg hP] at h
    exact ⟨hP, h⟩

theorem eq_of_flags : ∀ {a b : Bool}, ¬(a && !b) = true → ¬(!a && b) = true → b = a := by decide

/-- **What `isValid` accepts.** -/
theorem isValid_of_pos {c : Channel} {u : Bytes} {n : ℤ} (h : isValid c u = .ok n) (hn : 0 < n) :
    Agrees c u ∧ ∃ pointer, getFirstHeaderPointer u = .ok pointer ∧
      (Reserved pointer ∨ pointer ≤ sizeDiff u.length c.nonDataLength) := by
  obtain ⟨tfvn, htfvn, h⟩ := bind_ok h
  obtain ⟨h₁, h⟩ := passed h hn (by decide)
  obtain ⟨ocff, hocff, h⟩ := bind_ok h
  obtain ⟨h₂, h⟩ := passed h hn (by decide)
  obtain ⟨h₃, h⟩ := passed h hn (by decide)
  obtain ⟨header, hheader, h⟩ := bind_ok h
  obtain ⟨sync, hsync, h⟩ := bind_ok h
  obtain ⟨order, horder, h⟩ := bind_ok h
  obtain ⟨segment, hsegment, h⟩ := bind_ok h
  obtain ⟨h₄, h⟩ := passed h hn (by decide)
  obtain ⟨h₅, h⟩ := passed h hn (by decide)
  obtain ⟨h₆, h⟩ := passed h hn (by decide)
  obtain ⟨h₇, h⟩ := passed h hn (by decide)
  obtain ⟨len, hlen, h⟩ := bind_ok h
  obtain ⟨h₈, h⟩ := passed h hn (by decide)
  obtain ⟨pointer, hpointer, h⟩ := bind_ok h
  obtain ⟨h₉, -⟩ := passed h hn (by decide)
  refine ⟨⟨?_, ?_, ?_, fun hunsync => ?_, fun hpos => ?_⟩, pointer, hpointer, ?_⟩
  · rw [htfvn, not_ne_iff.1 h₁]
  · rw [hocff]
    congr 1
    exact eq_of_flags h₂ h₃
  · rw [hheader]
    congr 1
    by_cases hpos : 0 < c.fshSize
    · rw [decide_eq_true hpos]
      cases header with
      | false => exact absurd ⟨hpos, rfl⟩ h₄
      | true => rfl
    · rw [decide_eq_false hpos]
      cases header with
      | false => rfl
      | true => exact absurd ⟨by omega, rfl⟩ h₅
  · obtain rfl := Except.ok.inj (hsync.symm.trans hunsync)
    rw [horder, hsegment]
    constructor
    · cases order with
      | false => rfl
      | true => exact absurd rfl h₆
    · congr 1
      by_contra hne
      exact h₇ ⟨rfl, hne⟩
  · unfold Channel.secondaryHeaderDataLength at hlen
    rw [if_pos hpos] at hlen
    rw [hlen]
    congr 1
    by_contra hne
    exact h₈ ⟨hpos, hne⟩
  · by_contra hno
    obtain ⟨hreserved, hgt⟩ := not_or.1 hno
    obtain ⟨hp, hi⟩ := not_or.1 hreserved
    exact h₉ ⟨by simpa using hp, by simpa using hi, by omega⟩

/-- **A frame that agrees with its channel is accepted** by its first header pointer. -/
theorem isValid_of_agrees {c : Channel} {u : Bytes} {pointer : ℕ} (hu : Agrees c u)
    (hpointer : getFirstHeaderPointer u = .ok pointer)
    (hle : Reserved pointer ∨ pointer ≤ sizeDiff u.length c.nonDataLength) : isValid c u = .ok 1 := by
  obtain ⟨b, hb, -⟩ := bind_ok hu.secondaryHeader
  have hsync : getSynchronizationFlag u = .ok (decide ((b.toNat >>> 6) &&& 1 = 1)) := by
    unfold getSynchronizationFlag
    rw [hb]
    rfl
  have horder : getPacketOrderFlag u = .ok (decide ((b.toNat >>> 5) &&& 1 = 1)) := by
    unfold getPacketOrderFlag
    rw [hb]
    rfl
  have hsegment : getSegmentLengthID u = .ok ((b.toNat >>> 3) &&& 3) := by
    unfold getSegmentLengthID
    rw [hb]
    rfl
  have hun := hu.unsynchronized
  rw [hsync, horder, hsegment] at hun
  generalize decide ((b.toNat >>> 6) &&& 1 = 1) = sync at *
  generalize decide ((b.toNat >>> 5) &&& 1 = 1) = order at *
  generalize (b.toNat >>> 3) &&& 3 = segment at *
  have hlen : c.secondaryHeaderDataLength u = .ok (c.fshSize - 1) := by
    unfold Channel.secondaryHeaderDataLength
    split
    · next hpos => exact hu.secondaryHeaderLength hpos
    · next hzero => rw [show c.fshSize = 0 by omega]
  have hlast : ¬((!noPacketStart pointer) = true ∧ (!onlyIdleData pointer) = true ∧
      pointer > sizeDiff u.length c.nonDataLength) := by
    rintro ⟨h₁, h₂, h₃⟩
    rcases hle with (h | h) | h
    · rw [h] at h₁; cases h₁
    · rw [h] at h₂; cases h₂
    · omega
  have hflags : sync = false → order = false ∧ segment = 3 := by
    intro hs
    obtain ⟨ho, hg⟩ := hun (by rw [hs])
    exact ⟨Except.ok.inj ho, Except.ok.inj hg⟩
  unfold isValid
  rw [hu.version, ok_bind, if_neg (by decide), hu.operationalControl, ok_bind,
    if_neg (by cases c.useOperationalControl <;> decide), if_neg (by cases c.useOperationalControl <;> decide),
    hu.secondaryHeader, ok_bind, hsync, ok_bind, horder, ok_bind, hsegment, ok_bind,
    if_neg (by simp; omega), if_neg (by simp)]
  rw [if_neg, if_neg, hlen, ok_bind, if_neg, hpointer, ok_bind, if_neg hlast]
  · rfl
  · exact fun h => h.2 rfl
  · rintro ⟨hs, hne⟩
    exact hne (hflags (by simpa using hs)).2
  · intro h
    obtain ⟨hs, ho⟩ := Bool.and_eq_true_iff.1 h
    rw [(hflags (by simpa using hs)).1] at ho
    cases ho

/-! ## One pass over a valid frame -/

section Pass

variable {v : Service} {u : Bytes}

theorem isValid_length {c : Channel} (h : isValid c u = .ok 1) : 6 ≤ u.length := by
  obtain ⟨-, pointer, hp, -⟩ := isValid_of_pos h (by decide)
  obtain ⟨stat, hs, -⟩ := bind_ok hp
  by_contra hlen
  have hdrop : (u.drop 4).length < 2 := by rw [List.length_drop]; omega
  rw [getDataFieldStat] at hs
  rcases hu : u.drop 4 with - | ⟨a, - | ⟨b, t⟩⟩
  · rw [hu] at hs; cases hs
  · rw [hu] at hs; cases hs
  · rw [hu] at hdrop
    simp only [List.length_cons] at hdrop
    omega

theorem identify_valid (hu : ValidFrame v u) (del : Bool) (k : Tallies) :
    v.identify del k u = .ok (k, some true) := by
  simp only [Service.identify, hu.length_eq, Service.failed, Service.validateFrame, hu.valid, hu.mcid,
    hu.vcid, bind, Except.bind, pure, Except.pure, decide_true, Bool.not_true, Bool.false_and,
    if_true, ne_eq, not_true, if_false, Int.zero_lt_one, Bool.and_false, Bool.false_eq_true, Bool.and_self]

/-- The first header pointer, the synchronization flag and the count of a valid frame. -/
theorem fields_ok (hu : ValidFrame v u) : ∃ pointer flag, getFirstHeaderPointer u = .ok pointer ∧
    getSynchronizationFlag u = .ok flag ∧ getVCFrameCount u = .ok (u.getD 3 0) := by
  have hlen := isValid_length hu.valid
  rcases u with - | ⟨a, - | ⟨b, - | ⟨c, - | ⟨d, - | ⟨e, - | ⟨f, t⟩⟩⟩⟩⟩⟩
  all_goals first | (simp only [List.length_cons, List.length_nil] at hlen; omega) | skip
  exact ⟨_, _, rfl, rfl, rfl⟩

theorem onlyIdleData_iff {pointer : ℕ} (h : getFirstHeaderPointer u = .ok pointer) :
    onlyIdleData pointer = true ↔ Idle u := by
  rw [onlyIdleData, Idle, h, decide_eq_true_iff]
  exact ⟨congrArg _, Except.ok.inj⟩

theorem svc_idle (hu : ValidFrame v u) (hidle : Idle u) (s : PacketService) :
    s.svc v u = .ok (s, []) := by
  obtain ⟨pointer, flag, hp, -, -⟩ := fields_ok hu
  rw [PacketService.svc, identify_valid hu]
  simp only [bind, Except.bind, hp, (onlyIdleData_iff hp).2 hidle, if_true, pure, Except.pure]

theorem svc_data (hu : ValidFrame v u) (hidle : ¬Idle u) (s : PacketService) :
    s.svc v u = (do
      let rcv := if u.getD 3 0 ≠ s.tallies.currentFrameNumber then { s.rcv with packet := none }
        else s.rcv
      let (rcv, sent) ← rcv.deliver v.channel u
      return ({ tallies := tally s.tallies u, rcv := rcv }, sent)) := by
  obtain ⟨pointer, flag, hp, -, hc⟩ := fields_ok hu
  rw [PacketService.svc, identify_valid hu, tally, if_neg hidle]
  simp only [bind, Except.bind, hp, hc, mt (onlyIdleData_iff hp).1 hidle, Bool.false_eq_true, if_false]

theorem accessSvc_valid (hu : ValidFrame v u) (hs : getSynchronizationFlag u = .ok true)
    (k : Tallies) : ∃ out, accessSvc v k u = .ok (tally k u, out) := by
  obtain ⟨pointer, flag, hp, -, hc⟩ := fields_ok hu
  rw [accessSvc, identify_valid hu, tally]
  simp only [bind, Except.bind, hp, hc, hs, Service.failed, Bool.not_true, Bool.false_and,
    Bool.false_eq_true, if_false]
  by_cases hidle : Idle u
  · rw [if_pos ((onlyIdleData_iff hp).2 hidle), if_pos hidle]
    exact ⟨_, rfl⟩
  · rw [if_neg (mt (onlyIdleData_iff hp).1 hidle), if_neg hidle]
    exact ⟨_, rfl⟩

end Pass

/-! ## Runs -/

variable {v : Service} {frames : List Bytes}

/-- The tallies behind a run of the packet service are those of its frames alone. -/
theorem packet_run_tallies {s s' : PacketService} {out : List Bytes}
    (hv : ∀ u ∈ frames, ValidFrame v u) (h : runAll (PacketService.svc v) s frames = .ok (s', out)) :
    s'.tallies = frames.foldl tally s.tallies := by
  induction frames generalizing s out with
  | nil =>
    obtain ⟨rfl, -⟩ := Prod.mk.inj (Except.ok.inj h)
    rfl
  | cons u us ih =>
    obtain ⟨s₁, o₁, o₂, h₁, h₂, -⟩ := runAll_cons_inv h
    have hu := hv u List.mem_cons_self
    rw [ih (fun w hw => hv w (List.mem_cons_of_mem u hw)) h₂, List.foldl_cons]
    apply congrArg (us.foldl tally)
    by_cases hidle : Idle u
    · rw [svc_idle hu hidle] at h₁
      obtain ⟨rfl, -⟩ := Prod.mk.inj (Except.ok.inj h₁)
      rw [tally, if_pos hidle]
    · rw [svc_data hu hidle] at h₁
      obtain ⟨⟨rcv, sent⟩, -, h₁⟩ := bind_ok h₁
      obtain ⟨rfl, -⟩ := Prod.mk.inj (Except.ok.inj h₁)
      rfl

/-- **Idle frames in whole runs do nothing**: the packets are put together as if only the data
frames had come, to the same end. -/
theorem packet_run_whole {s : PacketService} {j : ℕ} (hv : ∀ u ∈ frames, ValidFrame v u)
    (hseq : SequenceFrom s.tallies.currentFrameNumber j frames) (hw : WholeFrom j frames) :
    runAll (PacketService.svc v) s frames = (do
      let (rcv, out) ← runAll (Rcv.deliver v.channel) s.rcv (dataFrames frames)
      return ({ tallies := frames.foldl tally s.tallies, rcv := rcv }, out)) := by
  induction frames generalizing s j with
  | nil => rfl
  | cons u us ih =>
    have hu := hv u List.mem_cons_self
    have hus := fun w hw => hv w (List.mem_cons_of_mem u hw)
    obtain ⟨hcount, hseq'⟩ := sequenceFrom_cons.1 hseq
    by_cases hidle : Idle u
    · have hdata : dataFrames (u :: us) = dataFrames us := by simp [dataFrames, hidle]
      have ht : tally s.tallies u = s.tallies := by rw [tally, if_pos hidle]
      rw [hdata, List.foldl_cons, ht, ← ih hus hseq' ((wholeFrom_idle hidle).1 hw)]
      rcases hr : runAll (PacketService.svc v) s us with e | ⟨s', o⟩
      · exact runAll_cons_error (svc_idle hu hidle s) hr
      · exact runAll_cons (svc_idle hu hidle s) hr
    · obtain ⟨hj, hw'⟩ := (wholeFrom_data hidle).1 hw
      have hdata : dataFrames (u :: us) = u :: dataFrames us := by simp [dataFrames, hidle]
      have hexp : u.getD 3 0 = s.tallies.currentFrameNumber := by
        rw [count_eq hcount, ofNat_eq_zero.2 hj, UInt8.add_zero]
      have hnext : (tally s.tallies u).currentFrameNumber = s.tallies.currentFrameNumber + 1 := by
        simp only [tally, if_neg hidle, Tallies.countFrame, hexp, ne_eq, not_true, if_false, if_true,
          incCurrentFrameNumber_eq]
      rw [hdata, runAll, runAll, svc_data hu hidle]
      simp only [hexp, ne_eq, not_true, if_false, List.foldl_cons]
      rcases Rcv.deliver v.channel s.rcv u with e | ⟨r, o⟩
      · rfl
      · have := ih (s := ⟨tally s.tallies u, r⟩) hus
          (by rw [hnext]; exact sequenceFrom_succ hseq') hw'
        simp only [bind, Except.bind, pure, Except.pure] at this ⊢
        rw [this]
        rcases runAll (Rcv.deliver v.channel) r (dataFrames us) with e | ⟨r', o'⟩
        · rfl
        · rfl

/-- A run of the access service. -/
theorem access_run (hv : ∀ u ∈ frames, ValidFrame v u)
    (hs : ∀ u ∈ frames, getSynchronizationFlag u = .ok true) (k : Tallies) :
    ∃ out, runAll (accessSvc v) k frames = .ok (frames.foldl tally k, out) := by
  induction frames generalizing k with
  | nil => exact ⟨[], rfl⟩
  | cons u us ih =>
    obtain ⟨o₁, h₁⟩ := accessSvc_valid (hv u List.mem_cons_self) (hs u List.mem_cons_self) k
    obtain ⟨o₂, h₂⟩ := ih (fun w hw => hv w (List.mem_cons_of_mem u hw))
      (fun w hw => hs w (List.mem_cons_of_mem u hw)) (tally k u)
    exact ⟨o₁ ++ o₂, runAll_cons h₁ h₂⟩

/-- **When idle frames are tolerated.** For a gap-free stream of valid frames: a run of the packet
service records no miss and puts its packets together as from the data frames alone, and a run of
the access service records no miss, just where the idle frames ahead of every data frame are a
multiple of 256. There the packet service faults only as the data frames alone make it. -/
theorem idle_tolerated_iff (v : Service) (frames : List Bytes)
    (hv : ∀ u ∈ frames, ValidFrame v u) :
    (∀ s : PacketService, InSequence s.tallies.currentFrameNumber frames →
      (∀ s' out, runAll (PacketService.svc v) s frames = .ok (s', out) →
        ((s'.tallies.frameCountMisses = s.tallies.frameCountMisses ∧
          runAll (Rcv.deliver v.channel) s.rcv (dataFrames frames) = .ok (s'.rcv, out)) ↔
            WholeIdleRuns frames)) ∧
      (WholeIdleRuns frames → ∀ e, runAll (PacketService.svc v) s frames = .error e →
        runAll (Rcv.deliver v.channel) s.rcv (dataFrames frames) = .error e)) ∧
    ∀ k : Tallies, InSequence k.currentFrameNumber frames →
      (∀ u ∈ frames, getSynchronizationFlag u = .ok true) →
      ∃ k' out, runAll (accessSvc v) k frames = .ok (k', out) ∧
        (k'.frameCountMisses = k.frameCountMisses ↔ WholeIdleRuns frames) := by
  refine ⟨fun s hseq => ⟨fun s' out h => ?_, fun hw e h => ?_⟩, fun k hseq hs => ?_⟩
  · rw [packet_run_tallies hv h, foldl_tally_misses_iff hseq]
    refine ⟨And.left, fun hw => ⟨hw, ?_⟩⟩
    rw [packet_run_whole hv hseq hw] at h
    obtain ⟨⟨r, o⟩, hr, h⟩ := bind_ok h
    obtain ⟨rfl, rfl⟩ := Prod.mk.inj (Except.ok.inj h)
    exact hr
  · rw [packet_run_whole hv hseq hw] at h
    rcases hr : runAll (Rcv.deliver v.channel) s.rcv (dataFrames frames) with e' | ⟨r, o⟩
    · rw [hr] at h
      exact congrArg Except.error (Except.error.inj h)
    · rw [hr] at h
      cases h
  · obtain ⟨out, h⟩ := access_run hv hs k
    exact ⟨_, out, h, foldl_tally_misses_iff hseq⟩

/-! ## An encapsulation packet cut by an idle frame -/

/-- A channel of frames with eight octets of data. -/
def smallService : Service := { channel := { scid := 0, vcid := 0 }, frameSize := 14 }

/-- The first eight octets of a packet of twelve, a frame of idle data, and the rest of the packet
with fill. -/
def cutByIdle : List Bytes :=
  [[0, 0, 0, 0, 0x18, 0, 0xE2, 0, 0, 12, 1, 2, 3, 4],
   [0, 0, 1, 1, 0x1F, 0xFE, 0, 0, 0, 0, 0, 0, 0, 0],
   [0, 0, 2, 2, 0x18, 4, 5, 6, 7, 8, 0xE0, 0xE0, 0xE0, 0xE0]]

theorem cutByIdle_valid : ∀ u ∈ cutByIdle, ValidFrame smallService u := by
  intro u hu
  simp only [cutByIdle, List.mem_cons, List.not_mem_nil, or_false] at hu
  rcases hu with rfl | rfl | rfl
  all_goals exact ⟨rfl, by decide +kernel, rfl, rfl⟩

theorem cutByIdle_inSequence : InSequence 0 cutByIdle := by
  intro i u hu
  rcases i with - | - | - | i
  · obtain rfl := Option.some.inj hu
    rfl
  · obtain rfl := Option.some.inj hu
    rfl
  · obtain rfl := Option.some.inj hu
    rfl
  · simp [cutByIdle] at hu

/-- The first frame on its own: the packet is begun, and there is no miss. -/
theorem idle_tolerated_iff_first :
    runAll (Rcv.deliver smallService.channel) {} (dataFrames (cutByIdle.take 1)) =
      .ok ({ packet := some ⟨[0xE2, 0, 0, 12, 1, 2, 3, 4], []⟩ }, []) := by
  have hrun : runAll (PacketService.svc smallService) {} (cutByIdle.take 1) =
      .ok ({ tallies := { currentFrameNumber := 1, validFrameCount := 1 },
             rcv := { packet := some ⟨[0xE2, 0, 0, 12, 1, 2, 3, 4], []⟩ } }, []) := by decide +kernel
  refine (((idle_tolerated_iff smallService (cutByIdle.take 1)
    (fun u hu => cutByIdle_valid u (List.mem_of_mem_take hu))).1 {} (fun i u hu => ?_)).1 _ _ hrun).2 ?_ |>.2
  · apply cutByIdle_inSequence i u
    rw [List.getElem?_take] at hu
    split at hu
    · exact hu
    · cases hu
  · intro pre u post he hidle
    have hlen := congrArg List.length he
    simp only [cutByIdle, List.take_succ_cons, List.take_zero, List.length_append,
      List.length_cons, List.length_nil] at hlen
    obtain rfl : pre = [] := List.eq_nil_of_length_eq_zero (by omega)
    exact Nat.dvd_zero _

/-- The packet that the idle frame cuts is lost and a miss recorded, in a gap-free stream of valid
frames; without the idle frame the packet is delivered. -/
theorem idle_frame_not_tolerated :
    (∀ u ∈ cutByIdle, ValidFrame smallService u) ∧ InSequence 0 cutByIdle ∧
    runAll (PacketService.svc smallService) {} cutByIdle = .ok ({
      tallies := { currentFrameNumber := 3, frameCountMisses := 1, validFrameCount := 2 } }, []) ∧
    runAll (Rcv.deliver smallService.channel) {} (dataFrames cutByIdle) =
      .ok ({}, [[0xE2, 0, 0, 12, 1, 2, 3, 4, 5, 6, 7, 8]]) :=
  ⟨cutByIdle_valid, cutByIdle_inSequence, by decide +kernel, by decide +kernel⟩

end ChannelEmulator.TM
