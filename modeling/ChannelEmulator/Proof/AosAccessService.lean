import ChannelEmulator.Proof.AosCounters
import ChannelEmulator.Proof.HeaderCorrection
import ChannelEmulator.Spec.AosAccessService

/-!
# The transparency of the AOS access service

* `addErrorControl_carries`: what the sender makes of a unit, `Carries` it.
* `afRcv_carries`, `rcv_carries`: **a frame that carries a unit** goes through both receivers, and the unit comes
  out. No error is counted.
* `transfer_transparent_iff`: **when the service is transparent** for any number of units: it is, but for the cycle
  behind the fifteenth.
-/

namespace ChannelEmulator.AOS

open Framing ReedSolomon

/-! ## The frames of the units -/

/-- The arguments that frame `k` is built from. -/
def argsAt (c : Channel) (k : ℕ) (data : Bytes) : BuildArgs where
  spacecraftID := c.getSCID
  virtualChannelID := c.getVCID
  vcFrameCount := k % 2 ^ 24
  replayFlag := false
  vcFrameCountCycleUsageFlag := c.useVCFrameCycle
  vcFrameCountCycle := cycleAt c.useVCFrameCycle k
  reportType := reportType
  data := some data

variable {c : Channel} {v : PhysicalChannel} {rs : RSBase} {k : ℕ} {data : Bytes}

theorem argsAt_inRange (data : Bytes) (hk : Fits c.useVCFrameCycle k) : (argsAt c k data).InRange c.layout where
  spacecraftID_le := getSCID_le c
  virtualChannelID_le := getVCID_le c
  vcFrameCount_le := by
    show k % 2 ^ 24 ≤ maxVCFrameCount
    rw [maxVCFrameCount]
    omega
  vcFrameCountCycle_le := cycleAt_le hk
  reportType_eq := fun _ => .inr rfl

/-- **The generator** builds frame `k`. -/
theorem gen_frame {mru : ℕ} (hk : Fits c.useVCFrameCycle k) (hdata : data.length = mru) :
    gen c mru (after c.useVCFrameCycle k) data =
      .ok (after c.useVCFrameCycle (k + 1), [frame c.layout (argsAt c k data)]) := by
  have hbuild := build_eq (argsAt_inRange data hk)
  unfold Layout.buildFrom at hbuild
  unfold gen
  rw [if_neg (not_not.2 hdata), ← after_inc]
  exact congrArg (· >>= fun aos => .ok ((after c.useVCFrameCycle k).inc c.useVCFrameCycle, [aos])) hbuild

/-! ## The frames on the link -/

/-- The frame `u` carries `data` as unit `k`: it has the size and the identifiers that the receiver is set to, its
header has no error, and its checksum is right. -/
structure Carries (c : Channel) (v : PhysicalChannel) (rs : RSBase) (k : ℕ) (data u : Bytes) : Prop where
  size : u.length = v.frameSize
  header : ∃ g t, u = header (argsAt c k data) g ++ t
  field : (u.drop c.layout.ptrData).take (c.layout.dataLength u) = data
  errorless : v.useHeaderErrorControl = true → ∀ s : RcvTallies, correctHeader rs s u =
    .ok ({ s with errorlessHeaderUnitCount := s.errorlessHeaderUnitCount + 1 }, some u)
  checksum : v.useFrameErrorControl = true → hasValidCRC u = true

/-- The octets of a frame on the link: the header, the header error control field, the insert zone, the data, the
report and the checksum. -/
def onLink (l : Layout) (a : BuildArgs) (checks crc : Bytes) : Bytes :=
  header a (frameSignal l a) ++ (checks ++ newUnit l.inSduLen) ++ AOS.field a ++ report l a ++ crc

theorem onLink_header (l : Layout) (a : BuildArgs) (checks crc : Bytes) :
    ∃ t, onLink l a checks crc = AOS.header a (frameSignal l a) ++ t := by
  unfold onLink
  exact ⟨(checks ++ newUnit l.inSduLen) ++ (AOS.field a ++ (report l a ++ crc)), by simp only [List.append_assoc]⟩

theorem frame_onLink {l : Layout} (a : BuildArgs) {m : ℕ}
    (hm : m = if l.hasHeaderErrorControl then spanFrameHeaderErrorControl else 0) :
    frame l a = onLink l a (newUnit m) (AOS.checksum l a) := by
  unfold frame body onLink
  rw [← newUnit_add, hm, Nat.add_comm]
  rfl

theorem checksum_length (l : Layout) (a : BuildArgs) :
    (AOS.checksum l a).length = if l.hasFrameErrorControl then 2 else 0 := by
  unfold AOS.checksum
  split
  · split <;> rfl
  · rfl

/-- The header error control field of a frame, behind `addErrorControlIfPossible`. -/
theorem addHeader_onLink (hrs : RSBase.new headerCode = .ok rs) {l : Layout} (a : BuildArgs)
    (hheader : v.useHeaderErrorControl = l.hasHeaderErrorControl) :
    ∃ checks : Bytes, (checks ++ newUnit l.inSduLen).length = l.gap ∧
      addHeaderIfPossible v rs l (frame l a) = .ok (onLink l a checks (AOS.checksum l a)) ∧
      (v.useHeaderErrorControl = true → ∀ (s : RcvTallies) (crc : Bytes), correctHeader rs s (onLink l a checks crc) =
        .ok ({ s with errorlessHeaderUnitCount := s.errorlessHeaderUnitCount + 1 },
          some (onLink l a checks crc))) := by
  unfold addHeaderIfPossible Layout.gap
  by_cases hl : l.hasHeaderErrorControl = true
  · obtain ⟨a₁, a₂, n₂, n₁, n₀, g, hhead⟩ : ∃ a₁ a₂ n₂ n₁ n₀ g,
        AOS.header a (frameSignal l a) = [a₁, a₂, n₂, n₁, n₀, g] := ⟨_, _, _, _, _, _, rfl⟩
    obtain ⟨p, q, r, s, hencode, hcorrect⟩ := encode_errorless hrs a₁ a₂ g
    have hlink : ∀ c d crc, onLink l a [c, d] crc =
        headed a₁ a₂ n₂ n₁ n₀ g c d (newUnit l.inSduLen ++ AOS.field a ++ report l a ++ crc) := by
      intro c d crc
      unfold onLink headed
      rw [hhead]
      simp only [List.cons_append, List.nil_append, List.append_assoc]
    refine ⟨[joined p q, joined r s], ?_, ?_, fun _ s crc => ?_⟩
    · rw [if_pos hl, List.length_append, newUnit_length]
      exact Nat.add_comm ..
    · rw [if_pos (by rw [hheader, hl]; rfl), frame_onLink (m := 2) a (by rw [if_pos hl]; rfl),
        show newUnit 2 = [0, 0] from rfl, hlink, hlink]
      exact addHeaderErrorControl_eq hl hencode
    · rw [hlink]
      exact correctHeader_errorless s _ hcorrect
  · refine ⟨[], ?_, ?_, fun hv => absurd (hheader.symm.trans hv) hl⟩
    · rw [if_neg hl, List.nil_append, newUnit_length, Nat.add_zero]
    · rw [if_neg (by simp [hl]), frame_onLink (m := 0) a (by rw [if_neg hl])]
      rfl

theorem onLink_length {l : Layout} (a : BuildArgs) {checks crc : Bytes}
    (hchecks : (checks ++ newUnit l.inSduLen).length = l.gap) (hcrc : crc.length = (AOS.checksum l a).length) :
    (onLink l a checks crc).length = l.nonDataLength + (AOS.field a).length + l.inSduLen := by
  have hnon := nonDataLength_eq l
  rw [checksum_length] at hcrc
  unfold onLink
  rw [List.length_append, List.length_append, List.length_append, List.length_append, header_length, hchecks,
    report_length, hcrc]
  omega

/-- **What the sender makes of a unit** carries it. -/
theorem afGen_carries (hrs : RSBase.new headerCode = .ok rs) (hset : v.receivedAs c.layout = c.layout)
    (hsize : c.layout.nonDataLength + c.layout.inSduLen ≤ v.frameSize)
    (hdata : data.length = c.getMRU v.frameSize) (s : GenTallies) :
    ∃ u, afGen v rs c.layout s (frame c.layout (argsAt c k data)) =
      .ok ({ s with validFrameCount := s.validFrameCount + 1 }, [u]) ∧ Carries c v rs k data u := by
  have hheader : v.useHeaderErrorControl = c.layout.hasHeaderErrorControl := congrArg Layout.hasHeaderErrorControl hset
  have hcheck : v.useFrameErrorControl = c.layout.hasFrameErrorControl := congrArg Layout.hasFrameErrorControl hset
  have hfield : AOS.field (argsAt c k data) = data := rfl
  unfold Channel.getMRU at hdata
  obtain ⟨checks, hchecks, hadd, herrorless⟩ := addHeader_onLink hrs (argsAt c k data) hheader
  -- the checksum takes the place of that of `build`
  obtain ⟨crc, hlen, hcontrol, hvalid⟩ : ∃ crc : Bytes, crc.length = (AOS.checksum c.layout (argsAt c k data)).length ∧
      addErrorControlIfPossible v rs c.layout (frame c.layout (argsAt c k data)) =
        .ok (onLink c.layout (argsAt c k data) checks crc) ∧
      (v.useFrameErrorControl = true → hasValidCRC (onLink c.layout (argsAt c k data) checks crc) = true) := by
    unfold addErrorControlIfPossible
    rw [hadd, ok_bind]
    by_cases hf : v.useFrameErrorControl = true
    · have hlf := hcheck.symm.trans hf
      have htwo := checksum_length c.layout (argsAt c k data)
      rw [if_pos hlf] at htwo
      obtain ⟨hcrc, hvalid⟩ := initializeCRC_eq (u := onLink c.layout (argsAt c k data) checks
        (AOS.checksum c.layout (argsAt c k data))) hlf (by rw [onLink_length _ hchecks rfl]; omega)
      generalize getFrameCRC16 _ = word at hcrc hvalid
      have htake : (onLink c.layout (argsAt c k data) checks (AOS.checksum c.layout (argsAt c k data))).take
          ((onLink c.layout (argsAt c k data) checks (AOS.checksum c.layout (argsAt c k data))).length - 2) ++
            fromU16 word.toNat = onLink c.layout (argsAt c k data) checks (fromU16 word.toNat) := by
        unfold onLink
        rw [List.length_append, htwo, Nat.add_sub_cancel, List.take_left]
      rw [htake] at hcrc hvalid
      refine ⟨fromU16 word.toNat, by rw [htwo]; rfl, ?_, fun _ => hvalid⟩
      rw [if_pos (by rw [hf, hlf]; rfl)]
      exact hcrc
    · refine ⟨_, rfl, ?_, fun h => absurd h hf⟩
      rw [if_neg (by simp [hf])]
  have hsent := onLink_length _ hchecks hlen
  have hframe := frame_length c.layout (argsAt c k data)
  rw [hfield] at hsent hframe
  have hpre : (AOS.header (argsAt c k data) (frameSignal c.layout (argsAt c k data)) ++
      (checks ++ newUnit c.layout.inSduLen)).length = c.layout.ptrData := by
    rw [List.length_append, header_length, hchecks, ptrData_eq]
  refine ⟨_, ?_, ⟨by omega, ⟨_, onLink_header ..⟩, ?_, fun hv s => herrorless hv s crc, hvalid⟩⟩
  · unfold afGen
    have hsized : (frame c.layout (argsAt c k data)).length = v.frameSize := by omega
    simp only [hsized, decide_true, Bool.not_true, Bool.false_and, Bool.false_eq_true, if_false, if_true]
    rw [hcontrol]
    rfl
  · have hlength : c.layout.dataLength (onLink c.layout (argsAt c k data) checks crc) = data.length := by
      unfold Layout.dataLength
      omega
    rw [hlength]
    unfold onLink
    rw [← hpre, List.append_assoc, List.append_assoc, List.drop_left, hfield, List.take_left]

/-! ## The receivers -/

/-- The identifiers of a frame that carries a unit. -/
theorem header_ids (k : ℕ) (data : Bytes) (g : Octet) (t : Bytes) :
    getTFVN (header (argsAt c k data) g ++ t) = .ok 1 ∧ getMCID (header (argsAt c k data) g ++ t) = .ok c.getMCID ∧
      getVirtualChannelID (header (argsAt c k data) g ++ t) = .ok c.getVCID ∧
      getVCFrameCount (header (argsAt c k data) g ++ t) = .ok (k % 2 ^ 24) := by
  have hs : c.getSCID < 256 := Nat.lt_succ_of_le (getSCID_le c)
  have hv : c.getVCID < 64 := Nat.lt_succ_of_le (getVCID_le c)
  have hword : idWord (argsAt c k data) = 16384 + 64 * c.getSCID + c.getVCID := rfl
  have hw : idWord (argsAt c k data) < 65536 := by omega
  have hmcid : c.getMCID = 256 + c.getSCID := by
    unfold Channel.getMCID
    rw [← Nat.shiftLeft_add_eq_or_of_lt (i := 8) hs 1, Nat.shiftLeft_eq,
      show 0x3FF = 2 ^ 10 - 1 from rfl, Nat.and_two_pow_sub_one_eq_mod]
    omega
  unfold header
  rw [List.append_assoc]
  refine ⟨?_, ?_, ?_, ?_⟩
  · rw [getTFVN_word hw]
    congr 1
    omega
  · unfold getMCID
    rw [toU16_fromU16 _ hw, ok_bind, hmcid, Nat.shiftRight_eq_div_pow]
    show Except.ok _ = _
    congr 1
    omega
  · rw [getVirtualChannelID_word hw]
    congr 1
    omega
  · exact getVCFrameCount_countOctets _ _ g t (by rw [maxVCFrameCount]; show k % 2 ^ 24 ≤ _; omega)

theorem isIdle_false (hvcid : c.getVCID < 63) {u : Bytes} (hvc : getVirtualChannelID u = .ok c.getVCID) :
    isIdle u = .ok false := by
  have hne : (c.getVCID == idleVirtualChannelID) = false := by
    rw [beq_eq_false_iff_ne, idleVirtualChannelID, maxVirtualChannelID]
    omega
  unfold isIdle
  rw [hvc, ok_bind, hne]
  rfl

/-- The tallies of `modAOS_AF_Rcv` over `k` frames that it has found nothing wrong with. -/
structure RcvTallies.Clean (s : RcvTallies) (k : ℕ) : Prop where
  valid : s.validFrameCount = k
  badLength : s.badLengthCount = 0
  badTFVN : s.badTFVNCount = 0
  badChecksum : s.badFrameChecksumCount = 0
  corrected : s.correctedHeaderErrorCount = 0 ∧ s.correctedHeaderUnitCount = 0
  uncorrected : s.uncorrectedHeaderErrorCount = 0 ∧ s.uncorrectedHeaderUnitCount = 0

/-- **The receiver of all frames** passes a frame that carries a unit. -/
theorem afRcv_carries (hset : v.receivedAs c.layout = c.layout) (hvcid : c.getVCID < 63) {n : ℕ} {s : RcvTallies}
    (hs : s.Clean n) {u : Bytes} (hu : Carries c v rs k data u) :
    ∃ s', afRcv v rs c.layout s u = .ok (s', [u]) ∧ s'.Clean (n + 1) := by
  obtain ⟨g, t, ht⟩ := hu.header
  obtain ⟨htfvn, -, hvc, -⟩ := header_ids (c := c) k data g t
  rw [← ht] at htfvn hvc
  have hheader : v.useHeaderErrorControl = c.layout.hasHeaderErrorControl := congrArg Layout.hasHeaderErrorControl hset
  have hidle := isIdle_false hvcid hvc
  obtain ⟨s', hcorrect, hclean⟩ : ∃ s', correctIfUsed v rs c.layout s u = .ok (s', some u) ∧ s'.Clean n := by
    unfold correctIfUsed
    by_cases hv : v.useHeaderErrorControl = true
    · rw [if_pos (by rw [← hheader, hv]; rfl), hu.errorless hv]
      exact ⟨_, rfl, hs.valid, hs.badLength, hs.badTFVN, hs.badChecksum, hs.corrected, hs.uncorrected⟩
    · rw [if_neg (by simp [hv])]
      exact ⟨s, rfl, hs⟩
  have hvalidate : validateAllFrames v rs c.layout v.dropBadFrames s u = .ok (s', some u, true) := by
    unfold validateAllFrames
    rw [if_neg (not_not.2 hu.size), hcorrect, ok_bind]
    simp only
    rw [htfvn, ok_bind, if_neg (by decide), if_neg]
    · rfl
    · intro hbad
      obtain ⟨hf, hcrc⟩ := Bool.and_eq_true_iff.1 hbad
      rw [hu.checksum hf] at hcrc
      cases hcrc
  refine ⟨{ s' with validFrameCount := s'.validFrameCount + 1 }, ?_, ⟨by rw [hclean.valid], hclean.badLength,
    hclean.badTFVN, hclean.badChecksum, hclean.corrected, hclean.uncorrected⟩⟩
  unfold afRcv
  rw [hset, hvalidate, ok_bind]
  simp only [Bool.not_true, Bool.false_and, Bool.false_eq_true, if_false, if_true]
  rw [hidle, ok_bind, if_neg (by decide)]
  rfl

/-- The state of `modAOS_VC_Rcv` behind `k` frames that it has found nothing wrong with. -/
structure Rcv.Clean (s : Rcv) (k : ℕ) : Prop where
  count : s.counter.frameCount = k % 2 ^ 24
  misses : s.frameCountMisses = 0
  valid : s.validFrameCount = k
  bad : s.badLengthCount = 0 ∧ s.badTFVNCount = 0 ∧ s.badMCIDCount = 0 ∧ s.badGVCIDCount = 0

/-- A frame with the settings of the receiver passes its tests. -/
theorem check_passes {frameSize : ℕ} {dropBadFrames : Bool} {s : Rcv} {u : Bytes} (hsize : u.length = frameSize)
    (htfvn : getTFVN u = .ok 1) (hmcid : getMCID u = .ok c.getMCID) (hvc : getVirtualChannelID u = .ok c.getVCID)
    (hvcid : c.getVCID < 63) : check c frameSize dropBadFrames s u = .ok (s, true, true) := by
  have hidle := isIdle_false hvcid hvc
  simp only [check, hsize, validateFrame_eq s hsize htfvn, hmcid, hvc, hidle, bind, Except.bind, ne_eq, not_true,
    if_false, if_true, pure, Except.pure]
  simp

/-- A frame that is counted as it was expected. -/
theorem countFrame_expected {f : Bool} {s : Rcv} (hs : s.Clean k) :
    (countFrame f { s with validFrameCount := s.validFrameCount + 1 } (k % 2 ^ 24)).Clean (k + 1) := by
  have hn : k % 2 ^ 24 ≤ maxVCFrameCount := by
    rw [maxVCFrameCount]
    omega
  obtain ⟨hmisses, hcount⟩ := countFrame_spec f { s with validFrameCount := s.validFrameCount + 1 } hn
  rw [if_pos hs.count.symm] at hmisses
  refine ⟨by rw [hcount]; omega, hmisses.trans hs.misses, ?_, ?_⟩
  · unfold countFrame
    simp only [hs.count, ne_eq, not_true, if_false, hs.valid]
  · unfold countFrame
    simp only [hs.count, ne_eq, not_true, if_false]
    exact hs.bad

/-- **The receiver of the channel** passes on the unit that a frame carries. -/
theorem rcv_carries (hvcid : c.getVCID < 63) {dropBadFrames : Bool} {s : Rcv} (hs : s.Clean k) {u : Bytes}
    (hu : Carries c v rs k data u) :
    ∃ s', rcv c v.frameSize dropBadFrames s u = .ok (s', [data]) ∧ s'.Clean (k + 1) := by
  obtain ⟨g, t, rfl⟩ := hu.header
  obtain ⟨g', hflag⟩ : ∃ g', setVCFrameCountCycleUsageFlag (header (argsAt c k data) g ++ t) c.useVCFrameCycle =
      .ok (header (argsAt c k data) g' ++ t) := ⟨_, setVCFrameCountCycleUsageFlag_eq _ _ _ _ _ g t _⟩
  obtain ⟨htfvn, hmcid, hvc, hcount⟩ := header_ids (c := c) k data g' t
  have hsize : (header (argsAt c k data) g' ++ t).length = v.frameSize := hu.size
  have hfield : ((header (argsAt c k data) g' ++ t).drop c.layout.ptrData).take
      (c.layout.dataLength (header (argsAt c k data) g' ++ t)) = data := by
    have h := hu.field
    rw [ptrData_eq c.layout, Nat.add_comm] at h ⊢
    exact h
  unfold rcv
  rw [hflag, ok_bind, check_passes hsize htfvn hmcid hvc hvcid, ok_bind]
  simp only [Bool.not_true, Bool.false_eq_true, if_false, if_true]
  rw [hcount, ok_bind, hfield]
  exact ⟨_, rfl, countFrame_expected hs⟩

/-! ## The service -/

/-- Nothing is wrong with `k` frames, at any module of the link. -/
structure Link.Clean (s : Link) (k : ℕ) : Prop where
  afGen : s.afGen = { validFrameCount := k }
  afRcv : s.afRcv.Clean k
  vcRcv : s.vcRcv.Clean k

theorem inStep_units {f : Bool} {mru : ℕ} {units : List Bytes} {k : ℕ} (hunits : ∀ d ∈ units, d.length = mru)
    (hfits : ∀ i < units.length, Fits f (k + i)) :
    InStep (fun k d a => a = d ∧ d.length = mru ∧ Fits f k) k units units := by
  induction units generalizing k with
  | nil => exact .nil
  | cons d ds ih =>
    refine .cons ⟨rfl, hunits d List.mem_cons_self, hfits 0 (Nat.succ_pos _)⟩ (ih ?_ fun i hi => ?_)
    · exact fun d' hd' => hunits d' (List.mem_cons_of_mem d hd')
    · rw [show k + 1 + i = k + (i + 1) by omega]
      exact hfits (i + 1) (Nat.succ_lt_succ hi)

theorem eq_of_inStep {k : ℕ} {units out : List Bytes} (h : InStep (fun _ d u => u = d) k units out) : out = units := by
  induction h with
  | nil => rfl
  | cons hd _ ih => rw [hd, ih]

/-- **The run of the generator** over units whose frames can all be built. -/
theorem gen_run_builds {units : List Bytes} (hunits : ∀ d ∈ units, d.length = c.getMRU v.frameSize)
    (hfits : ∀ i < units.length, Fits c.useVCFrameCycle i) :
    ∃ s frames, runAll (gen c (c.getMRU v.frameSize)) {} units = .ok (s, frames) ∧
      InStep (fun k d u => u = frame c.layout (argsAt c k d) ∧ d.length = c.getMRU v.frameSize) 0 units frames := by
  have hin := inStep_units (k := 0) hunits (fun i hi => by rw [Nat.zero_add]; exact hfits i hi)
  obtain ⟨vcGen, frames, hgen, hframes, -⟩ := runAll_inStep (f := gen c (c.getMRU v.frameSize))
    (Q := fun k d u => u = frame c.layout (argsAt c k d) ∧ d.length = c.getMRU v.frameSize)
    (I := fun k s => s = after c.useVCFrameCycle k)
    (by
      rintro k s d a rfl ⟨rfl, hd, hk⟩
      exact ⟨_, _, gen_frame hk hd, ⟨rfl, hd⟩, rfl⟩) hin (after_zero c.useVCFrameCycle).symm
  exact ⟨vcGen, frames, hgen, hframes⟩

/-- **The run of the receiver** over frames that carry units. -/
theorem rcv_run_carries (hvcid : c.getVCID < 63) (dropBadFrames : Bool) {units frames : List Bytes}
    (h : InStep (Carries c v rs) 0 units frames) :
    ∃ s : Rcv, runAll (rcv c v.frameSize dropBadFrames) {} frames = .ok (s, units) ∧ s.Clean units.length := by
  obtain ⟨vcRcv, out, hrcv, hout, hvcRcv⟩ := runAll_inStep (f := rcv c v.frameSize dropBadFrames)
    (Q := fun _ d u => u = d) (I := fun k s => s.Clean k)
    (by
      intro k s d u hs hu
      obtain ⟨s', h, hs'⟩ := rcv_carries hvcid hs hu
      exact ⟨s', d, h, rfl, hs'⟩) h (s := {}) ⟨rfl, rfl, rfl, rfl, rfl, rfl, rfl⟩
  obtain rfl := eq_of_inStep hout
  rw [Nat.zero_add] at hvcRcv
  exact ⟨vcRcv, hrcv, hvcRcv⟩

/-- **The run of a link** whose frames can all be built. -/
theorem transfer_run (hrs : RSBase.new headerCode = .ok rs) (hset : v.receivedAs c.layout = c.layout)
    (hvcid : c.getVCID < 63) (hsize : c.layout.nonDataLength + c.layout.inSduLen < v.frameSize) (dropBadFrames : Bool)
    {units : List Bytes} (hunits : ∀ d ∈ units, d.length = c.getMRU v.frameSize)
    (hfits : ∀ i < units.length, Fits c.useVCFrameCycle i) :
    ∃ s, transfer c v rs dropBadFrames units = .ok (s, units) ∧ s.Clean units.length := by
  -- the frames that the generator builds
  obtain ⟨vcGen, frames, hgen, hframes⟩ := gen_run_builds hunits hfits
  -- the frames on the link
  obtain ⟨sent, frames', hsent, hlink, hafGen⟩ := runAll_inStep (f := afGen v rs c.layout)
    (Q := Carries c v rs) (I := fun k s => s = { validFrameCount := k })
    (by
      rintro k s d a rfl ⟨rfl, hd⟩
      obtain ⟨u, hu, hcarries⟩ := afGen_carries hrs hset (Nat.le_of_lt hsize) hd { validFrameCount := k }
      exact ⟨_, u, hu, hcarries, rfl⟩) hframes (s := {}) rfl
  obtain ⟨received, frames'', hreceived, hpassed, hafRcv⟩ := runAll_inStep (f := afRcv v rs c.layout)
    (Q := Carries c v rs) (I := fun k s => s.Clean k)
    (by
      intro k s d u hs hu
      obtain ⟨s', h, hs'⟩ := afRcv_carries hset hvcid hs hu
      exact ⟨s', u, h, hu, hs'⟩) hlink (s := {}) ⟨rfl, rfl, rfl, rfl, ⟨rfl, rfl⟩, ⟨rfl, rfl⟩⟩
  -- the units that the frames carry
  obtain ⟨vcRcv, hrcv, hvcRcv⟩ := rcv_run_carries hvcid dropBadFrames hpassed
  rw [Nat.zero_add] at hafGen hafRcv
  refine ⟨⟨vcGen, sent, received, vcRcv⟩, ?_, ⟨hafGen, hafRcv, hvcRcv⟩⟩
  unfold transfer
  rw [hgen, ok_bind]
  simp only [hsent, ok_bind, hreceived, hrcv]
  rfl

/-- A run whose generator throws delivers nothing. -/
theorem transfer_throws (rs : RSBase) (hcycle : c.useVCFrameCycle = true) (dropBadFrames : Bool) {units : List Bytes}
    (hunits : ∀ d ∈ units, d.length = c.getMRU v.frameSize) (hmany : 2 ^ 28 < units.length) :
    ∃ e, transfer c v rs dropBadFrames units = .error e := by
  have hframed : framed (c.getMRU v.frameSize) units = units := by
    unfold framed
    rw [List.filter_eq_self]
    exact fun d hd => decide_eq_true (hunits d hd)
  obtain ⟨e, he⟩ := gen_run_throws c hcycle (c.getMRU v.frameSize) units 0 (Nat.zero_le _) (by
    rw [hframed, Nat.zero_add]
    exact hmany)
  rw [after_zero] at he
  refine ⟨e, ?_⟩
  unfold transfer
  rw [he]
  rfl

/-- **When the access service is transparent**: each unit is received once and in order, and no module counts a bad
or a missing frame, where the cycle is not in use, or for the frames of sixteen cycles. -/
theorem transfer_transparent_iff (hrs : RSBase.new headerCode = .ok rs) (hset : v.receivedAs c.layout = c.layout)
    (hvcid : c.getVCID < 63) (hsize : c.layout.nonDataLength + c.layout.inSduLen < v.frameSize) (dropBadFrames : Bool)
    {units : List Bytes} (hunits : ∀ d ∈ units, d.length = c.getMRU v.frameSize) :
    (∃ s, transfer c v rs dropBadFrames units = .ok (s, units) ∧ s.Clean units.length) ↔
      c.useVCFrameCycle = false ∨ units.length ≤ 2 ^ 28 := by
  constructor
  · rintro ⟨s, hrun, -⟩
    by_contra hnot
    obtain ⟨hcycle, hmany⟩ := not_or.1 hnot
    obtain ⟨e, he⟩ := transfer_throws rs (Bool.eq_true_of_not_eq_false hcycle) dropBadFrames hunits
      (Nat.lt_of_not_le hmany)
    rw [he] at hrun
    cases hrun
  · intro h
    refine transfer_run hrs hset hvcid hsize dropBadFrames hunits fun i hi => ?_
    rcases h with h | h
    · exact .inl h
    · exact .inr (Nat.lt_of_lt_of_le hi h)

/-- Two units on a link with every field. -/
theorem transfer_transparent_two : ∃ rs, RSBase.new headerCode = .ok rs ∧
    ((∃ s, transfer ⟨1, 2, true, ⟨true, 1, true, true⟩⟩ ⟨17, true, true, 1, true⟩ rs true [[7, 8], [9, 10]] =
      .ok (s, [[7, 8], [9, 10]]) ∧ s.Clean 2) ↔ (true = false ∨ 2 ≤ 2 ^ 28)) := by
  obtain ⟨rs, hrs, -⟩ := new_ok headerCode_admissible
  exact ⟨rs, hrs, transfer_transparent_iff (c := ⟨1, 2, true, ⟨true, 1, true, true⟩⟩)
    (v := ⟨17, true, true, 1, true⟩) hrs rfl (by decide) (by decide) true (by decide)⟩

/-- With the cycle in use, the frame behind the sixteenth cycle is not built. -/
theorem sixteen_cycles_end : ∃ rs, RSBase.new headerCode = .ok rs ∧
    ¬∃ s, transfer ⟨1, 2, true, ⟨false, 0, false, false⟩⟩ ⟨7, false, false, 0, true⟩ rs true
      (List.replicate (2 ^ 28 + 1) [7]) = .ok (s, List.replicate (2 ^ 28 + 1) [7]) := by
  obtain ⟨rs, hrs, -⟩ := new_ok headerCode_admissible
  refine ⟨rs, hrs, fun ⟨s, hrun⟩ => ?_⟩
  have hunits : ∀ d ∈ List.replicate (2 ^ 28 + 1) ([7] : Bytes),
      d.length = Channel.getMRU ⟨1, 2, true, ⟨false, 0, false, false⟩⟩ 7 := by
    intro d hd
    rw [List.eq_of_mem_replicate hd]
    rfl
  obtain ⟨e, he⟩ := transfer_throws (c := ⟨1, 2, true, ⟨false, 0, false, false⟩⟩)
    (v := ⟨7, false, false, 0, true⟩) rs rfl true hunits
    (by rw [List.length_replicate]; omega)
  rw [he] at hrun
  cases hrun

end ChannelEmulator.AOS
