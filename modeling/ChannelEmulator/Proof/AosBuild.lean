import ChannelEmulator.Proof.AosFrame
import ChannelEmulator.Proof.FrameCRC
import ChannelEmulator.Proof.UnitData
import ChannelEmulator.Spec.FrameZones

/-!
# What a built AOS transfer frame says of its arguments

* `build_eq`: the octets of a frame that is built within its limits.
* `tiles_zones`: **the zones of a frame follow each other**, from its start to its end.
* `build_roundTrips_iff`: **when a frame returns what it was built from**. The usage flag is that of the
  cycle, the replay flag is stored in a frame with an operational control field, and a frame without data is not
  given its checksum.
-/

namespace ChannelEmulator.AOS

open Framing

/-- The arguments of `build`. -/
structure BuildArgs where
  spacecraftID : ℕ
  virtualChannelID : ℕ
  vcFrameCount : ℕ
  replayFlag : Bool
  vcFrameCountCycleUsageFlag : Bool
  vcFrameCountCycle : ℕ
  reportType : ℕ
  data : Option Bytes

/-- `build`, of its arguments. -/
def Layout.buildFrom (l : Layout) (a : BuildArgs) : Except Fault Bytes :=
  match a.data with
  | some data => l.build a.spacecraftID a.virtualChannelID a.vcFrameCount a.replayFlag
      a.vcFrameCountCycleUsageFlag a.vcFrameCountCycle a.reportType data
  | none => l.buildNoData a.spacecraftID a.virtualChannelID a.vcFrameCount a.replayFlag
      a.vcFrameCountCycleUsageFlag a.vcFrameCountCycle a.reportType

/-- Every argument fits its field. -/
structure BuildArgs.InRange (a : BuildArgs) (l : Layout) : Prop where
  spacecraftID_le : a.spacecraftID ≤ maxSpacecraftID
  virtualChannelID_le : a.virtualChannelID ≤ maxVirtualChannelID
  vcFrameCount_le : a.vcFrameCount ≤ maxVCFrameCount
  vcFrameCountCycle_le : a.vcFrameCountCycle ≤ maxVCFrameCountCycle
  reportType_eq : l.hasOperationalControl = true → a.reportType = 1 ∨ a.reportType = 2

/-! ## The identifiers -/

theorem ids_word {ver s c : ℕ} (hs : s < 256) (hc : c < 64) :
    (ver <<< 14) ||| (s <<< 6) ||| c = 16384 * ver + 64 * s + c := by
  have h6 : s <<< 6 ||| c = s <<< 6 + c := (Nat.shiftLeft_add_eq_or_of_lt (i := 6) hc s).symm
  have hlow : s <<< 6 + c < 2 ^ 14 := by
    rw [Nat.shiftLeft_eq]
    omega
  rw [Nat.or_assoc, h6, ← Nat.shiftLeft_add_eq_or_of_lt hlow, Nat.shiftLeft_eq, Nat.shiftLeft_eq]
  omega

theorem front2OctetSet_eq (a b : Octet) (t : Bytes) {ver s c : ℕ} (hs : s < 256) (hc : c < 64) :
    front2OctetSet (a :: b :: t) ver s c = .ok (fromU16 (16384 * ver + 64 * s + c) ++ t) := by
  unfold front2OctetSet
  rw [ids_word hs hc, storeAt, if_neg (by simp [fromU16])]
  simp [overwrite, fromU16]

/-- The identifiers that a frame starts with. -/
theorem getTFVN_word {w : ℕ} (hw : w < 65536) (t : Bytes) : getTFVN (fromU16 w ++ t) = .ok (w / 16384) := by
  have h : (w &&& 0xC000) >>> 14 = w / 16384 := by
    rw [Nat.shiftRight_and_distrib, show 0xC000 >>> 14 = 2 ^ 2 - 1 by rfl, Nat.and_two_pow_sub_one_eq_mod,
      Nat.shiftRight_eq_div_pow]
    omega
  unfold getTFVN front2OctetVal
  rw [toU16_fromU16 t hw, ok_bind, h]
  rfl

theorem getSpacecraftID_word {w : ℕ} (hw : w < 65536) (t : Bytes) :
    getSpacecraftID (fromU16 w ++ t) = .ok (w / 64 % 256) := by
  have h : (w &&& 0x3FC0) >>> 6 = w / 64 % 256 := by
    rw [Nat.shiftRight_and_distrib, show 0x3FC0 >>> 6 = 2 ^ 8 - 1 by rfl, Nat.and_two_pow_sub_one_eq_mod,
      Nat.shiftRight_eq_div_pow]
  unfold getSpacecraftID front2OctetVal
  rw [toU16_fromU16 t hw, ok_bind, h]
  rfl

theorem getVirtualChannelID_word {w : ℕ} (hw : w < 65536) (t : Bytes) :
    getVirtualChannelID (fromU16 w ++ t) = .ok (w % 64) := by
  have h : w &&& 0x3F = w % 64 := Nat.and_two_pow_sub_one_eq_mod w 6
  unfold getVirtualChannelID front2OctetVal
  rw [toU16_fromU16 t hw, ok_bind, h]
  rfl

/-! ## The octets of a frame -/

/-- The word of the identifiers. -/
def idWord (a : BuildArgs) : ℕ := 16384 + 64 * a.spacecraftID + a.virtualChannelID

/-- The signaling field that `initialize` leaves. -/
def signalOctet (a : BuildArgs) : Octet :=
  (cycleOctet (((0 : Octet) &&& 0xBF) ||| (if a.vcFrameCountCycleUsageFlag then 0x40 else 0)) a.vcFrameCountCycle
    &&& 0xEF) ||| (((0 : Octet) &&& (0x1 : Octet)) <<< (4 : Octet))

/-- The signaling field of a frame. -/
def frameSignal (l : Layout) (a : BuildArgs) : Octet :=
  if l.hasOperationalControl then (signalOctet a &&& 0x7F) + (if a.replayFlag then 0x80 else 0) else signalOctet a

/-- The primary header, with a signaling field. -/
def header (a : BuildArgs) (g : Octet) : Bytes :=
  fromU16 (idWord a) ++ [(countOctets a.vcFrameCount).1, (countOctets a.vcFrameCount).2.1,
    (countOctets a.vcFrameCount).2.2, g]

/-- The octets between the required header and the data. -/
def Layout.gap (l : Layout) : ℕ := l.inSduLen + if l.hasHeaderErrorControl then spanFrameHeaderErrorControl else 0

/-- The octets of the data field. -/
def field (a : BuildArgs) : Bytes := a.data.getD []

/-- The operational control field. -/
def report (l : Layout) (a : BuildArgs) : Bytes :=
  if l.hasOperationalControl then (if a.reportType = 1 then 0 else 0x80) :: newUnit 3 else []

/-- The frame, up to its error control field. -/
def body (l : Layout) (a : BuildArgs) : Bytes :=
  header a (frameSignal l a) ++ newUnit l.gap ++ field a ++ report l a

/-- The frame error control field. Without data, `build` does not set it. -/
def checksum (l : Layout) (a : BuildArgs) : Bytes :=
  if l.hasFrameErrorControl then
    if a.data.isSome then fromU16 (computeCRC (body l a) crcInitial).toNat else newUnit 2
  else []

/-- The frame. -/
def frame (l : Layout) (a : BuildArgs) : Bytes := body l a ++ checksum l a

variable {l : Layout} {a : BuildArgs}

theorem header_length (a : BuildArgs) (g : Octet) : (header a g).length = 6 := rfl

theorem ptrData_eq (l : Layout) : l.ptrData = 6 + l.gap := by
  unfold Layout.ptrData Layout.gap ptrSignalingField ptrVCFrameCount spanGVCIDField spanVCFrameCountField
    spanSignalingField
  omega

theorem report_length (l : Layout) (a : BuildArgs) :
    (report l a).length = if l.hasOperationalControl then 4 else 0 := by
  unfold report
  split <;> rfl

theorem nonDataLength_eq (l : Layout) : l.nonDataLength + l.inSduLen =
    6 + l.gap + (if l.hasOperationalControl then 4 else 0) + (if l.hasFrameErrorControl then 2 else 0) := by
  unfold Layout.nonDataLength Layout.headerByteLength Layout.gap spanRequiredHeader spanOperationalControlField
    spanFrameErrorControlField spanGVCIDField spanSignalingField spanVCFrameCountField
  omega

/-- What `initialize` leaves. -/
theorem initializeFrame_eq (l : Layout) (hr : a.InRange l) (m : ℕ) :
    l.initializeFrame a.spacecraftID a.virtualChannelID m a.vcFrameCount a.vcFrameCountCycleUsageFlag
      a.vcFrameCountCycle = .ok (header a (signalOctet a) ++ newUnit (l.gap + m +
        (if l.hasOperationalControl then 4 else 0) + (if l.hasFrameErrorControl then 2 else 0))) := by
  obtain ⟨hs, hv, hn, hc, -⟩ := hr
  have hs' : a.spacecraftID < 256 := Nat.lt_succ_of_le hs
  have hv' : a.virtualChannelID < 64 := Nat.lt_succ_of_le hv
  have hlen := nonDataLength_eq l
  generalize hk : l.gap + m + (if l.hasOperationalControl then 4 else 0) +
    (if l.hasFrameErrorControl then 2 else 0) = k
  have hunit : newUnit (l.nonDataLength + m + l.inSduLen) = 0 :: 0 :: 0 :: 0 :: 0 :: 0 :: newUnit k := by
    rw [show l.nonDataLength + m + l.inSduLen = k + 6 by omega]
    rfl
  generalize ht : (0 :: 0 :: 0 :: 0 :: newUnit k : Bytes) = t at *
  -- the identifiers, one after the other
  have h₁ : setTFVN (0 :: 0 :: t) 1 = .ok (fromU16 16384 ++ t) :=
    front2OctetSet_eq 0 0 t (s := 0) (c := 0) (by decide) (by decide)
  have h₂ : setSpacecraftID (fromU16 16384 ++ t) a.spacecraftID = .ok (fromU16 (16384 + 64 * a.spacecraftID) ++ t) := by
    unfold setSpacecraftID
    rw [if_pos hs, getTFVN_word (by decide), ok_bind, getVirtualChannelID_word (by decide), ok_bind]
    exact front2OctetSet_eq _ _ t hs' (by decide)
  have h₃ : setVirtualChannelID (fromU16 (16384 + 64 * a.spacecraftID) ++ t) a.virtualChannelID =
      .ok (fromU16 (idWord a) ++ t) := by
    unfold setVirtualChannelID
    rw [if_pos hv, getTFVN_word (by omega), ok_bind, getSpacecraftID_word (by omega), ok_bind,
      show (16384 + 64 * a.spacecraftID) / 16384 = 1 by omega,
      show (16384 + 64 * a.spacecraftID) / 64 % 256 = a.spacecraftID by omega]
    exact front2OctetSet_eq _ _ t hs' hv'
  have hn' : ((a.vcFrameCount : ℕ) : ℤ) > -1 := by omega
  have hc' : ((a.vcFrameCountCycle : ℕ) : ℤ) > -1 := by omega
  unfold Layout.initializeFrame
  rw [hunit, ← ht] at *
  simp only [h₁, h₂, h₃, ok_bind, if_pos hn', if_pos hc', Int.toNat_natCast]
  unfold fromU16
  simp only [List.cons_append, List.nil_append, setVCFrameCount_ok _ _ _ _ _ _ _ hn, ok_bind,
    setVCFrameCountCycleUsageFlag_eq, setVCFrameCountCycle_ok _ _ _ _ _ _ _ hc, setRsvdSpare_eq]
  rfl

theorem setReplayFlag_header (a : BuildArgs) (g : Octet) (t : Bytes) (f : Bool) : setReplayFlag (header a g ++ t) f =
    .ok (header a ((g &&& 0x7F) + (if f then 0x80 else 0)) ++ t) :=
  setReplayFlag_eq _ _ _ _ _ g t f

/-- What `build` leaves of the signaling field and the operational control field. -/
theorem setReports_eq (hr : a.InRange l) (m : ℕ) :
    l.setReports (header a (signalOctet a) ++ newUnit (l.gap + m +
        (if l.hasOperationalControl then 4 else 0) + (if l.hasFrameErrorControl then 2 else 0)))
      a.replayFlag a.reportType = .ok (header a (frameSignal l a) ++ newUnit (l.gap + m) ++ report l a ++
        newUnit (if l.hasFrameErrorControl then 2 else 0)) := by
  have hnon := nonDataLength_eq l
  have htype := hr.reportType_eq
  generalize hf : (if l.hasFrameErrorControl then 2 else 0) = f at *
  unfold Layout.setReports frameSignal report
  by_cases hocf : l.hasOperationalControl = true
  · simp only [if_pos hocf] at hnon ⊢
    rw [setReplayFlag_header, ok_bind]
    generalize (signalOctet a &&& 0x7F) + (if a.replayFlag then 0x80 else 0) = g
    have hunit : header a g ++ newUnit (l.gap + m + 4 + f) =
        header a g ++ newUnit (l.gap + m) ++ [0] ++ (newUnit 3 ++ newUnit f) := by
      rw [newUnit_add, newUnit_add _ 4, show newUnit 4 = [0] ++ newUnit 3 from rfl]
      simp only [List.append_assoc]
    have hpre : (header a g ++ newUnit (l.gap + m)).length = l.ptrData + m := by
      rw [List.length_append, header_length, newUnit_length, ptrData_eq]
      omega
    have hoctet : octetAt (header a g ++ newUnit (l.gap + m + 4 + f)) (l.ptrData + m) = .ok 0 := by
      apply octetAt_of_getElem?
      rw [hunit, List.append_assoc, List.getElem?_append_right hpre.le, hpre, Nat.sub_self]
      rfl
    have hlen : (header a g ++ newUnit (l.gap + m + 4 + f)).length = l.nonDataLength + m + l.inSduLen := by
      rw [List.length_append, header_length, newUnit_length]
      omega
    unfold Layout.setReportType
    rw [if_neg (by rcases htype hocf with h | h <;> omega), l.ptrOperationalControl_eq hlen hocf, ok_bind,
      octetAtPtr_natCast, hoctet, ok_bind, storeAtPtr_natCast, hunit, ← hpre,
      storeAt_append _ [0] [if a.reportType = 1 then 0 &&& 0x7f else 0 ||| 0x80] _ rfl]
    rcases htype hocf with h | h <;> rw [h] <;> simp
  · simp only [if_neg hocf, Nat.add_zero, List.append_nil]
    rw [newUnit_add, List.append_assoc]

/-- Within the limits, the signed counts are the counts. -/
theorem bmod_eq (hr : a.InRange l) : Int.bmod (a.vcFrameCount : ℤ) (2 ^ 32) = a.vcFrameCount ∧
    Int.bmod (a.vcFrameCountCycle : ℤ) (2 ^ 8) = a.vcFrameCountCycle := by
  have hn := hr.vcFrameCount_le
  have hc := hr.vcFrameCountCycle_le
  rw [maxVCFrameCount] at hn
  rw [maxVCFrameCountCycle] at hc
  constructor <;> apply Int.bmod_eq_of_le <;> omega

/-- The data takes the place of as many zeros. -/
theorem setData_eq (l : Layout) (a : BuildArgs) (d : Bytes) :
    l.setData (header a (frameSignal l a) ++ newUnit (l.gap + d.length) ++ report l a ++
      newUnit (if l.hasFrameErrorControl then 2 else 0)) d =
    .ok (header a (frameSignal l a) ++ newUnit l.gap ++ d ++ report l a ++
      newUnit (if l.hasFrameErrorControl then 2 else 0)) := by
  have hnon := nonDataLength_eq l
  have hreport := report_length l a
  have hptr := ptrData_eq l
  have hpre : (header a (frameSignal l a) ++ newUnit l.gap).length = l.ptrData := by
    rw [List.length_append, header_length, newUnit_length, hptr]
  have hsplit : header a (frameSignal l a) ++ newUnit (l.gap + d.length) ++ report l a ++
      newUnit (if l.hasFrameErrorControl then 2 else 0) = header a (frameSignal l a) ++ newUnit l.gap ++
      newUnit d.length ++ (report l a ++ newUnit (if l.hasFrameErrorControl then 2 else 0)) := by
    rw [newUnit_add]
    simp only [List.append_assoc]
  unfold Layout.setData Layout.dataLength
  rw [if_pos, copyUnit_ok, hsplit, ← hpre, overwrite_append _ (newUnit d.length) d _ (newUnit_length _)]
  · simp only [List.append_assoc]
  · simp only [List.length_append, header_length, newUnit_length, hreport]
    omega
  · simp only [List.length_append, header_length, newUnit_length, hreport]
    omega

theorem body_length (l : Layout) (a : BuildArgs) :
    (body l a).length = l.ptrData + (field a).length + if l.hasOperationalControl then 4 else 0 := by
  unfold body
  rw [ptrData_eq]
  simp only [List.length_append, header_length, newUnit_length, report_length]

/-- The checksum takes the place of the last two octets. -/
theorem setFrameErrorControl_eq (he : l.hasFrameErrorControl = true) :
    l.setFrameErrorControl (body l a ++ newUnit 2) (getFrameCRC16 (body l a ++ newUnit 2)) =
      .ok (body l a ++ fromU16 (computeCRC (body l a) crcInitial).toNat) := by
  have hnon := nonDataLength_eq l
  have hptr := ptrData_eq l
  have hbody := body_length l a
  have htake : (body l a ++ newUnit 2).take ((body l a ++ newUnit 2).length - 2) = body l a := by
    rw [List.length_append, newUnit_length, Nat.add_sub_cancel, List.take_left]
  have hcrc : getFrameCRC16 (body l a ++ newUnit 2) = computeCRC (body l a) crcInitial := by
    unfold getFrameCRC16
    rw [show spanFrameErrorControlField = 2 from rfl, htake]
  have hlen : (body l a ++ newUnit 2).length = (body l a).length + 2 := by
    rw [List.length_append, newUnit_length]
  simp only [if_pos he] at hnon
  have hplace : (if l.hasOperationalControl then spanOperationalControlField else 0) + l.ptrData +
      l.dataLength (body l a ++ newUnit 2) = (body l a ++ newUnit 2).length - 2 := by
    unfold Layout.dataLength spanOperationalControlField
    rw [hlen]
    omega
  have hstore := (store_crc (u := body l a ++ newUnit 2) (by omega)).1
  rw [htake, hcrc] at hstore
  unfold Layout.setFrameErrorControl
  rw [he, hplace, hcrc]
  exact hstore

/-- **The octets of a frame that is built within its limits.** -/
theorem build_eq (hr : a.InRange l) : l.buildFrom a = .ok (frame l a) := by
  obtain ⟨hn, hc⟩ := bmod_eq hr
  unfold Layout.buildFrom frame checksum
  cases hd : a.data with
  | none =>
    have hfield : field a = [] := by
      unfold field
      rw [hd]
      rfl
    simp only
    unfold Layout.buildNoData
    rw [hn, hc, initializeFrame_eq l hr, ok_bind, setReports_eq hr]
    unfold body
    rw [hfield, List.append_nil, Nat.add_zero]
    by_cases he : l.hasFrameErrorControl = true
    · simp only [if_pos he]
      rfl
    · simp only [if_neg he]
      rfl
  | some d =>
    have hfield : field a = d := by
      unfold field
      rw [hd]
      rfl
    have hdata := setData_eq l a d
    rw [show header a (frameSignal l a) ++ newUnit l.gap ++ d ++ report l a = body l a by unfold body; rw [hfield]]
      at hdata
    simp only
    unfold Layout.build
    rw [hn, hc, initializeFrame_eq l hr, ok_bind, setReports_eq hr, ok_bind, hdata, ok_bind]
    by_cases he : l.hasFrameErrorControl = true
    · simp only [if_pos he]
      exact setFrameErrorControl_eq he
    · simp only [if_neg he]
      rfl

/-! ## The zones -/

/-- The length of the operational control field. -/
def Layout.reportLen (l : Layout) : ℕ := if l.hasOperationalControl then spanOperationalControlField else 0

/-- The zones of a frame, each by its place and its length: header, insert zone, data field, operational
control field and error control field. -/
def zones (l : Layout) (u : Bytes) : List (ℕ × ℕ) :=
  [(0, l.headerByteLength), (l.headerByteLength, l.inSduLen), (l.ptrData, l.dataLength u),
    (l.ptrData + l.dataLength u, l.reportLen), (l.reportLen + l.ptrData + l.dataLength u,
      if l.hasFrameErrorControl then spanFrameErrorControlField else 0)]

/-- Each zone begins where the one before it ends, from `start` on up to `stop`. -/
def Tiles : ℕ → List (ℕ × ℕ) → ℕ → Prop
  | start, [], stop => start = stop
  | start, (place, len) :: rest, stop => place = start ∧ Tiles (start + len) rest stop

/-- **The zones of a frame follow each other**, in a frame that is not shorter than its fields. -/
theorem tiles_zones {u : Bytes} (hu : l.nonDataLength + l.inSduLen ≤ u.length) : Tiles 0 (zones l u) u.length := by
  have hheader : l.headerByteLength + l.inSduLen = l.ptrData := by
    unfold Layout.headerByteLength Layout.ptrData spanRequiredHeader ptrSignalingField ptrVCFrameCount
      spanGVCIDField spanVCFrameCountField spanSignalingField
    omega
  have hall := nonDataLength_eq l
  have hptr := ptrData_eq l
  have hgap : l.headerByteLength + l.inSduLen = 6 + l.gap := hheader.trans hptr
  unfold zones Layout.dataLength Layout.reportLen spanOperationalControlField spanFrameErrorControlField
  refine ⟨rfl, by omega, by omega, by omega, by omega, ?_⟩
  unfold Tiles
  omega

/-! ## What a frame returns -/

/-- A frame returns what it was built from, its zones follow each other, and its checksum is right. -/
structure RoundTrips (l : Layout) (a : BuildArgs) (u : Bytes) : Prop where
  version : getTFVN u = .ok 1
  spacecraftID : getSpacecraftID u = .ok a.spacecraftID
  virtualChannelID : getVirtualChannelID u = .ok a.virtualChannelID
  vcFrameCount : getVCFrameCount u = .ok a.vcFrameCount
  vcFrameCountCycle : getVCFrameCountCycle u = .ok a.vcFrameCountCycle
  usageFlag : getVCFrameCountCycleUsageFlag u = .ok a.vcFrameCountCycleUsageFlag
  replayFlag : getReplayFlag u = .ok a.replayFlag
  reportType : l.hasOperationalControl = true → l.getReportType u = .ok a.reportType
  data : (u.drop l.ptrData).take (l.dataLength u) = field a
  zones : Tiles 0 (zones l u) u.length
  valid : l.hasFrameErrorControl = true → hasValidCRC u = true

/-- A frame is its header and the rest. -/
theorem frame_eq (l : Layout) (a : BuildArgs) : ∃ t, frame l a = header a (frameSignal l a) ++ t := by
  unfold frame
  generalize checksum l a = t
  unfold body
  exact ⟨newUnit l.gap ++ (field a ++ (report l a ++ t)), by simp only [List.append_assoc]⟩

/-- The signaling field has the cycle, its own usage flag, and the replay flag where there is a report. -/
theorem frameSignal_fields (hr : a.InRange l) :
    (frameSignal l a &&& 0xF).toNat = a.vcFrameCountCycle ∧
      decide (frameSignal l a &&& 0x40 ≠ 0) = decide (a.vcFrameCountCycle ≠ 0) ∧
      decide (frameSignal l a >>> 7 ≠ 0) = (l.hasOperationalControl && a.replayFlag) := by
  have hall : ∀ (c : Fin 16) (usage hasReport replay : Bool),
      let s := (cycleOctet (((0 : Octet) &&& 0xBF) ||| (if usage then 0x40 else 0)) c &&& 0xEF) |||
        (((0 : Octet) &&& (0x1 : Octet)) <<< (4 : Octet))
      let g := if hasReport then (s &&& 0x7F) + (if replay then 0x80 else 0) else s
      (g &&& 0xF).toNat = c ∧ decide (g &&& 0x40 ≠ 0) = decide ((c : ℕ) ≠ 0) ∧
        decide (g >>> 7 ≠ 0) = (hasReport && replay) := by decide
  exact hall ⟨a.vcFrameCountCycle, Nat.lt_succ_of_le hr.vcFrameCountCycle_le⟩ a.vcFrameCountCycleUsageFlag
    l.hasOperationalControl a.replayFlag

theorem frame_length (l : Layout) (a : BuildArgs) :
    (frame l a).length = l.nonDataLength + (field a).length + l.inSduLen := by
  have hnon := nonDataLength_eq l
  have hptr := ptrData_eq l
  have hcrc : (checksum l a).length = if l.hasFrameErrorControl then 2 else 0 := by
    unfold checksum
    split
    · split <;> rfl
    · rfl
  unfold frame
  rw [List.length_append, body_length, hcrc]
  omega

theorem dataLength_frame (l : Layout) (a : BuildArgs) : l.dataLength (frame l a) = (field a).length := by
  unfold Layout.dataLength
  rw [frame_length]
  omega

theorem drop_frame (l : Layout) (a : BuildArgs) : ∃ t, (frame l a).drop l.ptrData = field a ++ (report l a ++ t) := by
  have hpre : (header a (frameSignal l a) ++ newUnit l.gap).length = l.ptrData := by
    rw [List.length_append, header_length, newUnit_length, ptrData_eq]
  refine ⟨checksum l a, ?_⟩
  unfold frame
  generalize checksum l a = t
  unfold body
  rw [List.append_assoc, List.append_assoc, ← hpre, List.drop_left]

/-- Without data, the checksum is right where the rest of the frame leaves no remainder. -/
theorem valid_noData_iff (hfec : l.hasFrameErrorControl = true) (hnone : a.data = none) :
    hasValidCRC (frame l a) = true ↔ computeCRC (body l a) crcInitial = 0 := by
  unfold frame checksum hasValidCRC
  rw [if_pos hfec, hnone, beq_iff_eq]
  exact computeCRC_zeros_iff _ _

/-- What the getters return of a frame that is built within its limits. -/
theorem frame_roundTrips_iff (hr : a.InRange l) : RoundTrips l a (frame l a) ↔
    a.vcFrameCountCycleUsageFlag = decide (a.vcFrameCountCycle ≠ 0) ∧
      (a.replayFlag = true → l.hasOperationalControl = true) ∧
      (l.hasFrameErrorControl = true → a.data = none → computeCRC (body l a) crcInitial = 0) := by
  obtain ⟨t, ht⟩ := frame_eq l a
  obtain ⟨hcycle, husage, hreplay⟩ := frameSignal_fields hr
  have hs : a.spacecraftID < 256 := Nat.lt_succ_of_le hr.spacecraftID_le
  have hv : a.virtualChannelID < 64 := Nat.lt_succ_of_le hr.virtualChannelID_le
  have hw : idWord a < 65536 := by
    unfold idWord
    omega
  -- the identifiers are read from the first word, all else from the zones
  have hword : ∃ t', frame l a = fromU16 (idWord a) ++ t' :=
    ⟨_, by rw [ht]; unfold header; rw [List.append_assoc]⟩
  obtain ⟨t', ht'⟩ := hword
  have husage' : getVCFrameCountCycleUsageFlag (frame l a) = .ok (decide (a.vcFrameCountCycle ≠ 0)) := by
    rw [ht, ← husage]
    exact getVCFrameCountCycleUsageFlag_eq _ _ _ _ _ _ t
  have hreplay' : getReplayFlag (frame l a) = .ok (l.hasOperationalControl && a.replayFlag) := by
    have hsignal : getSignalingField (header a (frameSignal l a) ++ t) = .ok (frameSignal l a) :=
      getSignalingField_eq _ _ _ _ _ _ t
    rw [ht, ← hreplay]
    unfold getReplayFlag
    rw [hsignal, ok_bind]
    rfl
  constructor
  · intro h
    have h₁ := Except.ok.inj (husage'.symm.trans h.usageFlag)
    have h₂ := Except.ok.inj (hreplay'.symm.trans h.replayFlag)
    refine ⟨h₁.symm, fun hflag => ?_, fun hfec hnone => ?_⟩
    · rw [hflag, Bool.and_true] at h₂
      exact h₂
    · exact (valid_noData_iff hfec hnone).1 (h.valid hfec)
  · rintro ⟨hflag, hreport, hcrc⟩
    refine ⟨?_, ?_, ?_, ?_, ?_, hflag ▸ husage', ?_, ?_, ?_, ?_, ?_⟩
    · rw [ht', getTFVN_word hw]
      congr 1
      unfold idWord
      omega
    · rw [ht', getSpacecraftID_word hw]
      congr 1
      unfold idWord
      omega
    · rw [ht', getVirtualChannelID_word hw]
      congr 1
      unfold idWord
      omega
    · rw [ht]
      exact getVCFrameCount_countOctets _ _ _ t hr.vcFrameCount_le
    · rw [ht, ← hcycle]
      exact getVCFrameCountCycle_eq _ _ _ _ _ _ t
    · rw [hreplay']
      cases hrep : a.replayFlag with
      | false => rw [Bool.and_false]
      | true => rw [hreport hrep, Bool.and_true]
    · intro hocf
      obtain ⟨t'', hdrop⟩ := drop_frame l a
      have hlen := frame_length l a
      have hoctet : octetAt (frame l a) (l.ptrData + (field a).length) =
          .ok (if a.reportType = 1 then 0 else 0x80) := by
        have hdrop' : (frame l a).drop (l.ptrData + (field a).length) = report l a ++ t'' := by
          rw [← List.drop_drop, hdrop, List.drop_left]
        unfold report at hdrop'
        rw [if_pos hocf] at hdrop'
        exact octetAt_of_drop hdrop'
      unfold Layout.getReportType
      rw [l.ptrOperationalControl_eq hlen hocf, ok_bind, octetAtPtr_natCast, hoctet, ok_bind]
      rcases hr.reportType_eq hocf with h | h <;> rw [h] <;> rfl
    · obtain ⟨t'', hdrop⟩ := drop_frame l a
      rw [hdrop, dataLength_frame, List.take_left]
    · refine tiles_zones ?_
      rw [frame_length]
      omega
    · intro hfec
      cases hd : a.data with
      | none => exact (valid_noData_iff hfec hd).2 (hcrc hfec hd)
      | some d =>
        unfold frame checksum
        rw [if_pos hfec, hd]
        exact hasValidCRC_close _

/-- The getters return what fits the fields. -/
theorem RoundTrips.inRange {u : Bytes} (h : RoundTrips l a u) : a.InRange l := by
  refine ⟨?_, ?_, ?_, ?_, fun hocf => ?_⟩
  · obtain ⟨w, -, hw⟩ := bind_ok h.spacecraftID
    have heq : (w &&& 0x3FC0) >>> 6 = a.spacecraftID := Except.ok.inj hw
    rw [← heq, Nat.shiftRight_and_distrib, show 0x3FC0 >>> 6 = 2 ^ 8 - 1 by rfl]
    exact Nat.and_le_right
  · obtain ⟨w, -, hw⟩ := bind_ok h.virtualChannelID
    have heq : w &&& 0x3F = a.virtualChannelID := Except.ok.inj hw
    rw [← heq]
    exact Nat.and_le_right
  · have hlen : 6 ≤ u.length := by
      obtain ⟨w, hw, -⟩ := bind_ok h.vcFrameCount
      by_contra hshort
      have hdrop : (u.drop ptrVCFrameCount).length < 4 := by
        rw [List.length_drop]
        unfold ptrVCFrameCount spanGVCIDField
        omega
      unfold toU32 at hw
      split at hw
      · next heq =>
        rw [heq] at hdrop
        simp only [List.length_cons] at hdrop
        omega
      · cases hw
    obtain ⟨a₁, a₂, n₂, n₁, n₀, g, t, rfl⟩ := exists_header hlen
    obtain ⟨n, hn, hle⟩ := getVCFrameCount_le a₁ a₂ n₂ n₁ n₀ g t
    rw [← Except.ok.inj (hn.symm.trans h.vcFrameCount)]
    exact hle
  · obtain ⟨g, -, hg⟩ := bind_ok h.vcFrameCountCycle
    have heq : (g &&& 0xF).toNat = a.vcFrameCountCycle := Except.ok.inj hg
    rw [← heq, UInt8.toNat_and]
    exact Nat.and_le_right
  · obtain ⟨ptr, -, hrest⟩ := bind_ok (h.reportType hocf)
    obtain ⟨b, -, hb⟩ := bind_ok hrest
    have heq : reportTypeOf b = a.reportType := Except.ok.inj hb
    rw [← heq]
    unfold reportTypeOf
    split
    · exact .inr rfl
    · exact .inl rfl

/-- **When a frame returns what it was built from**: every argument fits its field, the usage flag is that
of the cycle, a replay flag is set in a frame with an operational control field only, and an error control
field comes with data, or closes a frame that leaves no remainder. -/
theorem build_roundTrips_iff (l : Layout) (a : BuildArgs) : (∃ u, l.buildFrom a = .ok u ∧ RoundTrips l a u) ↔
    a.InRange l ∧ a.vcFrameCountCycleUsageFlag = decide (a.vcFrameCountCycle ≠ 0) ∧
      (a.replayFlag = true → l.hasOperationalControl = true) ∧
      (l.hasFrameErrorControl = true → a.data = none → computeCRC (body l a) crcInitial = 0) := by
  constructor
  · rintro ⟨u, hbuild, hround⟩
    have hr := hround.inRange
    obtain rfl := Except.ok.inj ((build_eq hr).symm.trans hbuild)
    exact ⟨hr, (frame_roundTrips_iff hr).1 hround⟩
  · rintro ⟨hr, hflags⟩
    exact ⟨_, build_eq hr, (frame_roundTrips_iff hr).2 hflags⟩

/-- The usage flag is given for the cycle 0. -/
theorem usage_flag_lost :
    ¬∃ u, Layout.buildFrom {} ⟨1, 2, 3, false, true, 0, 1, some [7]⟩ = .ok u ∧
      RoundTrips {} ⟨1, 2, 3, false, true, 0, 1, some [7]⟩ u := by
  rintro ⟨u, hbuild, hround⟩
  obtain rfl : u = [0x40, 0x42, 0, 0, 3, 0, 7] := by
    have hoctets : Layout.buildFrom {} ⟨1, 2, 3, false, true, 0, 1, some [7]⟩ = .ok [0x40, 0x42, 0, 0, 3, 0, 7] := by
      decide +kernel
    exact Except.ok.inj (hbuild.symm.trans hoctets)
  exact absurd hround.usageFlag (by decide)

end ChannelEmulator.AOS
