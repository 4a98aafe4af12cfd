import ChannelEmulator.Proof.AccessChain
import ChannelEmulator.Proof.FrameZones
import ChannelEmulator.Proof.UnitData
import ChannelEmulator.Spec.TmFrameBuild

/-!
# Well-formed TM transfer frames

* `isValid_pos_iff`: what `isValid` accepts, for all octets.
* `build_eq`: the octets of a frame that is built within its limits.
* `isValid_wellFormed_iff`: **when `isValid` tells a well-formed frame**. A first header pointer to the end of
  the data field passes, and any pointer does in a frame that is shorter than its fields. Every frame that is
  built within its limits is accepted, and returns what it was built from.
-/

namespace ChannelEmulator.TM

open Framing

/-! ## What is accepted -/

/-- A frame is well formed: it agrees with its channel, and its first header pointer is reserved or points
into the data field. -/
def WellFormed (c : Channel) (u : Bytes) : Prop :=
  Agrees c u ∧ ∃ pointer, getFirstHeaderPointer u = .ok pointer ∧ (Reserved pointer ∨ pointer < c.dataLength u)

/-- The frame agrees with its channel, but its first header pointer points to the end of the data field, or the
frame is shorter than its fields. -/
def PointsPast (c : Channel) (u : Bytes) : Prop :=
  Agrees c u ∧ ∃ pointer, getFirstHeaderPointer u = .ok pointer ∧ ¬Reserved pointer ∧
    (u.length = c.nonDataLength + pointer ∨ u.length < c.nonDataLength)

theorem isValid_pos_iff (c : Channel) (u : Bytes) : (∃ n, isValid c u = .ok n ∧ 0 < n) ↔
    Agrees c u ∧ ∃ pointer, getFirstHeaderPointer u = .ok pointer ∧
      (Reserved pointer ∨ pointer ≤ sizeDiff u.length c.nonDataLength) := by
  constructor
  · rintro ⟨n, hn, hpos⟩
    exact isValid_of_pos hn hpos
  · rintro ⟨hu, pointer, hpointer, hle⟩
    exact ⟨1, isValid_of_agrees hu hpointer hle, by decide⟩

/-- A secondary header whose length is stored is not longer than its limit. -/
theorem Agrees.fshSize_le {c : Channel} {u : Bytes} (h : Agrees c u) : c.fshSize ≤ maxFSHLen := by
  by_cases hpos : 0 < c.fshSize
  · obtain ⟨b, -, hb⟩ := bind_ok (h.secondaryHeaderLength hpos)
    have heq : b.toNat &&& 0x3f = c.fshSize - 1 := Except.ok.inj hb
    have hle : b.toNat &&& 0x3f ≤ 0x3f := Nat.and_le_right
    unfold maxFSHLen
    omega
  · omega

theorem getFirstHeaderPointer_le {u : Bytes} {pointer : ℕ} (h : getFirstHeaderPointer u = .ok pointer) :
    pointer ≤ maxFirstHeaderPointer := by
  obtain ⟨stat, -, hstat⟩ := bind_ok h
  have heq : stat &&& 0x7ff = pointer := Except.ok.inj hstat
  rw [← heq]
  exact Nat.and_le_right

/-- The accepted frames that are not well formed. -/
theorem accepted_iff (c : Channel) (u : Bytes) :
    (∃ n, isValid c u = .ok n ∧ 0 < n) ↔ WellFormed c u ∨ PointsPast c u := by
  rw [isValid_pos_iff]
  constructor
  · rintro ⟨hu, pointer, hpointer, hle⟩
    by_cases hres : Reserved pointer
    · exact .inl ⟨hu, pointer, hpointer, .inl hres⟩
    have hle' := hle.resolve_left hres
    unfold sizeDiff at hle'
    by_cases hshort : u.length < c.nonDataLength
    · exact .inr ⟨hu, pointer, hpointer, hres, .inr hshort⟩
    rw [if_pos (by omega)] at hle'
    by_cases hend : u.length = c.nonDataLength + pointer
    · exact .inr ⟨hu, pointer, hpointer, hres, .inl hend⟩
    · refine .inl ⟨hu, pointer, hpointer, .inr ?_⟩
      unfold Channel.dataLength
      omega
  · rintro (⟨hu, pointer, hpointer, hres | hlt⟩ | ⟨hu, pointer, hpointer, -, hpast⟩)
    · exact ⟨hu, pointer, hpointer, .inl hres⟩
    · refine ⟨hu, pointer, hpointer, .inr ?_⟩
      unfold Channel.dataLength at hlt
      unfold sizeDiff
      rw [if_pos (by omega)]
      omega
    · refine ⟨hu, pointer, hpointer, .inr ?_⟩
      have hfsh := hu.fshSize_le
      have hmax := getFirstHeaderPointer_le hpointer
      have hnon : c.nonDataLength ≤ 76 := by
        unfold Channel.nonDataLength spanPrimaryHeader spanOperationalControlField spanFrameErrorControlField
        unfold maxFSHLen at hfsh
        split <;> split <;> omega
      unfold maxFirstHeaderPointer at hmax
      unfold sizeDiff
      -- the length of the data field wraps around to more than any pointer
      split <;> omega

theorem not_wellFormed_of_pointsPast {c : Channel} {u : Bytes} (h : PointsPast c u) : ¬WellFormed c u := by
  obtain ⟨-, pointer, hpointer, hres, hpast⟩ := h
  rintro ⟨-, pointer', hpointer', hok⟩
  obtain rfl := Except.ok.inj (hpointer.symm.trans hpointer')
  have hlt := hok.resolve_left hres
  unfold Channel.dataLength at hlt
  omega

/-- `isValid` tells a well-formed frame but for its pointer. -/
theorem accepts_iff (c : Channel) (u : Bytes) :
    ((∃ n, isValid c u = .ok n ∧ 0 < n) ↔ WellFormed c u) ↔ ¬PointsPast c u := by
  rw [accepted_iff]
  constructor
  · intro h hpast
    exact not_wellFormed_of_pointsPast hpast (h.1 (.inr hpast))
  · intro h
    exact ⟨fun hor => hor.resolve_right h, .inl⟩

/-! ## The octets of a frame -/

/-- The primary header. -/
def head (c : Channel) (mc vc : Octet) (pointer : ℕ) : Bytes :=
  fromU16 (ids c) ++ [mc, vc] ++ fromU16 (2 ^ 11 * status c + pointer)

/-- The octets of the data field. -/
def field (a : BuildArgs) : Bytes := a.data.getD []

/-- The secondary header, with data that is given for it. -/
def secondary (c : Channel) (a : BuildArgs) : Bytes :=
  if 0 < c.fshSize then
    UInt8.ofNat ((c.fshSize - 1) &&& 0x3f) ::
      (a.fshData.getD [] ++ newUnit (c.fshSize - 1 - (a.fshData.getD []).length))
  else []

/-- The length of the operational control field. -/
def Channel.reportLen (c : Channel) : ℕ := if c.useOperationalControl then spanOperationalControlField else 0

/-- The length of the frame error control field. -/
def Channel.checkLen (c : Channel) : ℕ := if c.useFrameErrorControl then spanFrameErrorControlField else 0

/-- The operational control field. -/
def report (c : Channel) (a : BuildArgs) : Bytes := (a.clcw.or a.ocfData).getD (newUnit c.reportLen)

/-- The frame, up to its error control field. -/
def body (c : Channel) (a : BuildArgs) : Bytes :=
  head c a.mcFrameCount a.vcFrameCount a.firstHeaderPointer ++ secondary c a ++ field a ++ report c a

/-- The frame error control field. -/
def checksum (c : Channel) (a : BuildArgs) : Bytes :=
  if a.doCRC && c.useFrameErrorControl then fromU16 (AOS.computeCRC (body c a) AOS.crcInitial).toNat
  else newUnit c.checkLen

/-- The arguments fit the fields of the channel. -/
structure BuildArgs.InRange (a : BuildArgs) (c : Channel) : Prop where
  secondaryHeader_le : c.fshSize ≤ maxFSHLen
  pointer_le : a.firstHeaderPointer ≤ maxFirstHeaderPointer
  pointer : Reserved a.firstHeaderPointer ∨ a.firstHeaderPointer < (field a).length
  fshData_lt : ∀ d, a.fshData = some d → d.length < c.fshSize
  clcw : ∀ w, a.clcw = some w → c.useOperationalControl = true ∧ w.length = spanOperationalControlField
  ocfData : ∀ d, a.ocfData = some d → c.useOperationalControl = true ∧ a.clcw = none ∧
    d.length = spanOperationalControlField ∧ ∃ b t, d = b :: t ∧ reportTypeOf b = 2

variable {c : Channel} {a : BuildArgs} {mc vc : Octet} {pointer : ℕ} {t : Bytes}

theorem head_length : (head c mc vc pointer).length = spanPrimaryHeader := rfl

theorem secondary_length (hr : a.InRange c) : (secondary c a).length = c.fshSize := by
  unfold secondary
  split
  · next hpos =>
    rw [List.length_cons, List.length_append, newUnit_length]
    cases hd : a.fshData with
    | none =>
      rw [Option.getD_none, List.length_nil]
      omega
    | some d =>
      have hlt := hr.fshData_lt d hd
      rw [Option.getD_some]
      omega
  · next hzero =>
    rw [List.length_nil]
    omega

theorem report_length (hr : a.InRange c) : (report c a).length = c.reportLen := by
  unfold report
  cases hw : a.clcw with
  | some w =>
    obtain ⟨hocf, hlen⟩ := hr.clcw w hw
    unfold Channel.reportLen
    rw [if_pos hocf, Option.some_or, Option.getD_some, hlen]
  | none =>
    cases hd : a.ocfData with
    | some d =>
      obtain ⟨hocf, -, hlen, -⟩ := hr.ocfData d hd
      unfold Channel.reportLen
      rw [if_pos hocf, Option.none_or, Option.getD_some, hlen]
    | none =>
      rw [Option.none_or, Option.getD_none, newUnit_length]

theorem nonDataLength_eq (c : Channel) : c.nonDataLength = c.ptrData + c.reportLen + c.checkLen := rfl

/-- What `initialize` leaves. -/
theorem initializeFrame_head (c : Channel) (n : ℕ) (mc vc : Octet) : initializeFrame c n mc.toNat vc.toNat =
    .ok (head c mc vc 0 ++ fsh c ++ newUnit n ++ newUnit c.reportLen ++ newUnit c.checkLen) := by
  have hs : ((if 0 < c.fshSize then 1 else 0) <<< 15) ||| (3 <<< 11) = 2 ^ 11 * status c + 0 := by
    unfold status
    split <;> decide
  have htrailer : n + (c.nonDataLength - c.ptrData) = n + c.reportLen + c.checkLen := by
    rw [nonDataLength_eq]
    omega
  unfold initializeFrame
  rw [if_neg (by have := c.scid_le; omega), if_neg (by have := c.vcid_le; omega)]
  dsimp only
  rw [hs, htrailer, newUnit_add, newUnit_add, UInt8.ofNat_toNat, UInt8.ofNat_toNat]
  unfold head ids fsh
  simp only [List.append_assoc]

theorem getDataFieldStat_head (hp : pointer ≤ maxFirstHeaderPointer) :
    getDataFieldStat (head c mc vc pointer ++ t) = .ok (2 ^ 11 * status c + pointer) := by
  have hs := status_lt c
  unfold maxFirstHeaderPointer at hp
  exact toU16_fromU16 _ (by omega)

theorem setFirstHeaderPointer_head (hp : pointer ≤ maxFirstHeaderPointer) :
    setFirstHeaderPointer (head c mc vc 0 ++ t) pointer = .ok (head c mc vc pointer ++ t) := by
  have hp' : pointer < 2 ^ 11 := Nat.lt_succ_of_le hp
  have hval : ((2 ^ 11 * status c + 0) &&& 0xf800) ||| (pointer &&& maxFirstHeaderPointer) =
      2 ^ 11 * status c + pointer := by
    have hm : pointer &&& maxFirstHeaderPointer = pointer := by
      rw [show maxFirstHeaderPointer = 2 ^ 11 - 1 by rfl, Nat.and_two_pow_sub_one_eq_mod]
      exact Nat.mod_eq_of_lt hp'
    rw [and_high (by decide) (status_lt c), hm, ← Nat.two_pow_add_eq_or_of_lt hp']
  unfold setFirstHeaderPointer
  rw [if_neg (by omega), getDataFieldStat_head (Nat.zero_le _), ok_bind, hval]
  unfold setDataFieldStat
  rw [if_neg (by rw [List.length_append, head_length]; omega)]
  rfl

theorem fsh_of_none (hnone : a.fshData = none) : fsh c = secondary c a := by
  unfold fsh secondary
  rw [hnone]
  rfl

/-- The data for the secondary header goes behind its length. -/
theorem storeSecondaryHeader_eq (hr : a.InRange c) (h : Bytes) (hlen : h.length = spanPrimaryHeader) (t : Bytes) :
    c.storeSecondaryHeader (h ++ fsh c ++ t) a.fshData = .ok (h ++ secondary c a ++ t) := by
  cases hd : a.fshData with
  | none =>
    rw [fsh_of_none hd]
    rfl
  | some d =>
    have hlt := hr.fshData_lt d hd
    have hpos : 0 < c.fshSize := by omega
    have hsplit : h ++ fsh c ++ t = h ++ [UInt8.ofNat ((c.fshSize - 1) &&& 0x3f)] ++ newUnit d.length ++
        (newUnit (c.fshSize - 1 - d.length) ++ t) := by
      unfold fsh
      rw [if_pos hpos, show c.fshSize - 1 = d.length + (c.fshSize - 1 - d.length) by omega, newUnit_add,
        show d.length + (c.fshSize - 1 - d.length) - d.length = c.fshSize - 1 - d.length by omega]
      simp only [List.append_assoc, List.cons_append, List.nil_append]
    have hpre : (h ++ [UInt8.ofNat ((c.fshSize - 1) &&& 0x3f)]).length = spanPrimaryHeader + 1 := by
      rw [List.length_append, hlen, List.length_singleton]
    unfold Channel.storeSecondaryHeader Channel.setSecondaryHeaderData Channel.ptrSecondaryHeaderData
    simp only
    rw [if_pos hpos, if_pos hlt, if_neg (by omega), ok_bind, hsplit, ← hpre, copyUnit_ok,
      overwrite_append _ (newUnit d.length) d _ (newUnit_length _)]
    · unfold secondary
      rw [if_pos hpos, hd, Option.getD_some]
      simp only [List.append_assoc, List.cons_append, List.nil_append]
    · simp only [List.length_append, newUnit_length]
      omega

/-- The data takes the place of as many zeros. -/
theorem storeData_eq (h : Bytes) (hlen : h.length = c.ptrData) :
    c.storeData (h ++ newUnit (field a).length ++ newUnit c.reportLen ++ newUnit c.checkLen) a.data =
      .ok (h ++ field a ++ newUnit c.reportLen ++ newUnit c.checkLen) := by
  unfold field
  cases hd : a.data with
  | none => rfl
  | some d =>
    rw [Option.getD_some, List.append_assoc]
    unfold Channel.storeData Channel.setData Channel.dataLength
    simp only
    rw [if_pos, ← hlen, copyUnit_ok, overwrite_append _ (newUnit d.length) d _ (newUnit_length _),
      List.append_assoc (h ++ d)]
    · simp only [List.length_append, newUnit_length]
      omega
    · rw [nonDataLength_eq]
      simp only [List.length_append, newUnit_length]
      omega

theorem ptrOperationalControl_of_length {u : Bytes} {n : ℕ} (hlen : u.length = c.nonDataLength + n)
    (hocf : c.useOperationalControl = true) : c.ptrOperationalControl u = .ok ((c.ptrData + n : ℕ) : ℤ) := by
  unfold Channel.ptrOperationalControl
  rw [if_pos hocf, hlen]
  congr 1
  omega

/-- The link control word or the other data is stored in the operational control field. -/
theorem storeReport_eq (hr : a.InRange c) (h : Bytes) (hlen : c.ptrData ≤ h.length) :
    c.storeReport (h ++ newUnit c.reportLen ++ newUnit c.checkLen) a.clcw a.ocfData =
      .ok (h ++ report c a ++ newUnit c.checkLen) := by
  by_cases hocf : c.useOperationalControl = true
  · have hlen' : ∀ z : Bytes, z.length = spanOperationalControlField →
        (h ++ z ++ newUnit c.checkLen).length = c.nonDataLength + (h.length - c.ptrData) := by
      intro z hz
      rw [nonDataLength_eq, Channel.reportLen, if_pos hocf]
      simp only [List.length_append, newUnit_length, hz]
      omega
    have hptr : ∀ z : Bytes, z.length = spanOperationalControlField →
        c.ptrOperationalControl (h ++ z ++ newUnit c.checkLen) = .ok (h.length : ℤ) := by
      intro z hz
      rw [ptrOperationalControl_of_length (hlen' z hz) hocf, Nat.add_sub_cancel' hlen]
    have hzero : (newUnit c.reportLen).length = spanOperationalControlField := by
      rw [newUnit_length, Channel.reportLen, if_pos hocf]
    have hstore : ∀ z : Bytes, z.length = spanOperationalControlField →
        copyUnitTo (h ++ newUnit c.reportLen ++ newUnit c.checkLen) (h.length : ℤ) z =
          .ok (h ++ z ++ newUnit c.checkLen) := by
      intro z hz
      rw [copyUnitTo_natCast, copyUnit_ok, overwrite_append _ _ _ _ (hzero.trans hz.symm)]
      simp only [List.length_append, hzero, hz]
      omega
    unfold Channel.storeReport report
    rw [if_pos hocf]
    cases hw : a.clcw with
    | some w =>
      have hwlen := (hr.clcw w hw).2
      simp only
      unfold Channel.setCLCW
      rw [hocf, Option.some_or, Option.getD_some, hptr _ hzero, ok_bind]
      exact hstore w hwlen
    | none =>
      cases hd : a.ocfData with
      | none => rfl
      | some d =>
        obtain ⟨-, -, hdlen, b, t, hb, htype⟩ := hr.ocfData d hd
        have hoctet : octetAt (h ++ d ++ newUnit c.checkLen) h.length = .ok b := by
          apply octetAt_of_getElem?
          rw [List.append_assoc, List.getElem?_append_right (Nat.le_refl _), Nat.sub_self, hb]
          rfl
        simp only
        unfold Channel.setType2ReportData Channel.getReportType
        rw [hocf, Option.none_or, Option.getD_some, hptr _ hzero, ok_bind]
        simp only [hstore d hdlen, ok_bind, hptr d hdlen, octetAtPtr_natCast, hoctet]
        simp only [bind, Except.bind, pure, Except.pure, htype]
        rfl
  · have hnone : report c a = [] := by
      apply List.eq_nil_of_length_eq_zero
      rw [report_length hr, Channel.reportLen, if_neg hocf]
    have hzero : c.reportLen = 0 := by rw [Channel.reportLen, if_neg hocf]
    unfold Channel.storeReport
    rw [if_neg hocf, hnone, hzero]
    rfl

theorem body_length (hr : a.InRange c) : (body c a).length = c.ptrData + (field a).length + c.reportLen := by
  unfold body
  simp only [List.length_append, head_length, secondary_length hr, report_length hr]
  rfl

/-- The checksum closes the frame. -/
theorem initializeCRC_eq (hr : a.InRange c) (hfec : c.useFrameErrorControl = true) :
    c.initializeCRC (body c a ++ newUnit c.checkLen) =
      .ok (body c a ++ fromU16 (AOS.computeCRC (body c a) AOS.crcInitial).toNat) := by
  have hcheck : c.checkLen = 2 := by
    rw [Channel.checkLen, if_pos hfec]
    rfl
  have hbody := body_length hr
  have htake : (body c a ++ newUnit 2).take ((body c a ++ newUnit 2).length - 2) = body c a := by
    rw [List.length_append, newUnit_length, Nat.add_sub_cancel, List.take_left]
  have hcrc : getFrameCRC16 (body c a ++ newUnit 2) = AOS.computeCRC (body c a) AOS.crcInitial := by
    unfold getFrameCRC16
    rw [show spanFrameErrorControlField = 2 from rfl, htake]
  have hlen : (body c a ++ newUnit 2).length = (body c a).length + 2 := by
    rw [List.length_append, newUnit_length]
  have hplace : (if c.useOperationalControl then spanOperationalControlField else 0) + c.ptrData +
      c.dataLength (body c a ++ newUnit 2) = (body c a ++ newUnit 2).length - 2 := by
    unfold Channel.dataLength
    rw [nonDataLength_eq, hcheck, hlen, hbody]
    unfold Channel.reportLen
    omega
  have hstore := (AOS.store_crc (u := body c a ++ newUnit 2) (by omega)).1
  have hcrc' : AOS.getFrameCRC16 (body c a ++ newUnit 2) = AOS.computeCRC (body c a) AOS.crcInitial := hcrc
  rw [htake, hcrc'] at hstore
  unfold Channel.initializeCRC Channel.setFrameErrorControl
  rw [hfec, hcheck, hplace, hcrc]
  exact hstore

/-- **The octets of a frame that is built within its limits.** -/
theorem build_eq (hr : a.InRange c) : c.build a = .ok (body c a ++ checksum c a) := by
  have hfront : (head c a.mcFrameCount a.vcFrameCount 0 ++ fsh c).length = c.ptrData := by
    rw [List.length_append, head_length, fsh_length]
    rfl
  have hdata := storeData_eq (a := a) _ hfront
  unfold Channel.build
  rw [initializeFrame_head, ok_bind]
  unfold field at hdata
  rw [hdata, ok_bind]
  simp only [List.append_assoc]
  rw [setFirstHeaderPointer_head hr.pointer_le, ok_bind]
  have hsecondary := storeSecondaryHeader_eq hr (head c a.mcFrameCount a.vcFrameCount a.firstHeaderPointer)
    head_length (field a ++ (newUnit c.reportLen ++ newUnit c.checkLen))
  have hreport := storeReport_eq hr
    (head c a.mcFrameCount a.vcFrameCount a.firstHeaderPointer ++ secondary c a ++ field a)
    (by
      simp only [List.length_append, head_length, secondary_length hr]
      unfold Channel.ptrData
      omega)
  unfold field at hsecondary hreport
  simp only [List.append_assoc] at hsecondary hreport
  rw [hsecondary, ok_bind, hreport, ok_bind]
  have hbody : head c a.mcFrameCount a.vcFrameCount a.firstHeaderPointer ++ (secondary c a ++
      (a.data.getD [] ++ (report c a ++ newUnit c.checkLen))) = body c a ++ newUnit c.checkLen := by
    unfold body field
    simp only [List.append_assoc]
  rw [hbody]
  unfold checksum
  by_cases hcrc : (a.doCRC && c.useFrameErrorControl) = true
  · rw [if_pos hcrc, if_pos hcrc]
    exact initializeCRC_eq hr (Bool.and_eq_true_iff.1 hcrc).2
  · rw [if_neg hcrc, if_neg hcrc]

/-! ## What a frame returns -/

/-- A frame returns what it was built from, and its checksum is right where one is asked for. -/
structure Returns (c : Channel) (a : BuildArgs) (u : Bytes) : Prop where
  spacecraftID : getSpacecraftID u = .ok c.scid
  vcid : getVCID u = .ok c.vcid
  mcFrameCount : getMCFrameCount u = .ok a.mcFrameCount
  vcFrameCount : getVCFrameCount u = .ok a.vcFrameCount
  firstHeaderPointer : getFirstHeaderPointer u = .ok a.firstHeaderPointer
  data : c.data u = field a
  fshData : ∀ d, a.fshData = some d → (u.drop (spanPrimaryHeader + 1)).take d.length = d
  clcw : ∀ w, a.clcw = some w → c.getCLCW u = .ok w
  ocfData : ∀ d, a.ocfData = some d → c.getReportType u = .ok 2 ∧ c.getCLCW u = .ok d
  valid : a.doCRC = true → c.useFrameErrorControl = true → hasValidCRC u = true

/-- A channel like `c` whose frames have no secondary header: all its frame has behind the primary header is
the rest. -/
def headOnly (c : Channel) : Channel := { c with fshSize := 0 }

theorem head_eq_unit : head c mc vc pointer ++ t = unit (headOnly c) mc vc (status c) pointer t := by
  have hnone : fsh (headOnly c) = [] := rfl
  unfold unit
  rw [hnone, List.append_nil]
  rfl

theorem status_ok (c : Channel) : Status c (status c) := by
  by_cases h : 0 < c.fshSize
  · rw [status, if_pos h]
    exact ⟨by decide, by rw [decide_eq_true h]; decide, by decide, by decide⟩
  · rw [status, if_neg h]
    exact ⟨by decide, by rw [decide_eq_false h]; decide, by decide, by decide⟩

/-- The header of a frame agrees with its channel, whatever the secondary header has behind its length. -/
theorem agrees_head (hfsh : c.fshSize ≤ maxFSHLen) (hp : pointer ≤ maxFirstHeaderPointer)
    (hlen : 0 < c.fshSize → ∃ t', t = UInt8.ofNat ((c.fshSize - 1) &&& 0x3f) :: t') :
    Agrees c (head c mc vc pointer ++ t) := by
  have hp' : pointer < 2 ^ 11 := Nat.lt_succ_of_le hp
  have hst := status_ok c
  rw [head_eq_unit]
  refine ⟨getTFVN_unit, getOCFF_unit, ?_, fun _ => ⟨?_, ?_⟩, fun hpos => ?_⟩
  · rw [getSecondaryHeaderFlag_unit hst.lt hp', hst.header]
  · rw [getPacketOrderFlag_unit hst.lt hp', hst.order]
  · rw [getSegmentLengthID_unit hst.lt hp', hst.segment]
  · obtain ⟨t', rfl⟩ := hlen hpos
    have hand : (c.fshSize - 1) &&& 0x3f = c.fshSize - 1 := by
      unfold maxFSHLen at hfsh
      rw [show 0x3f = 2 ^ 6 - 1 by rfl, Nat.and_two_pow_sub_one_eq_mod]
      omega
    have hb : octetAt (unit (headOnly c) mc vc (status c) pointer
        (UInt8.ofNat ((c.fshSize - 1) &&& 0x3f) :: t')) spanPrimaryHeader =
        .ok (UInt8.ofNat (c.fshSize - 1)) := by
      rw [hand, ← head_eq_unit]
      rfl
    unfold maxFSHLen at hfsh
    unfold getSecondaryHeaderDataLength
    rw [hb, ok_bind, toNat_ofNat_of_lt (by omega), hand]
    rfl

theorem getSpacecraftID_head : getSpacecraftID (head c mc vc pointer ++ t) = .ok c.scid := by
  have hle := c.scid_le
  have hand : c.scid &&& 0x3ff = c.scid := by
    unfold maxSpacecraftID at hle
    rw [show 0x3ff = 2 ^ 10 - 1 by rfl, Nat.and_two_pow_sub_one_eq_mod]
    omega
  unfold getSpacecraftID
  rw [head_eq_unit, getMCID_unit, ok_bind]
  exact congrArg Except.ok hand

/-- The parts of a frame behind its primary header. -/
theorem frame_split (c : Channel) (a : BuildArgs) : body c a ++ checksum c a =
    head c a.mcFrameCount a.vcFrameCount a.firstHeaderPointer ++
      (secondary c a ++ (field a ++ (report c a ++ checksum c a))) := by
  generalize checksum c a = t
  unfold body
  simp only [List.append_assoc]

theorem checksum_length (c : Channel) (a : BuildArgs) : (checksum c a).length = c.checkLen := by
  unfold checksum
  split
  · next h =>
    rw [Channel.checkLen, if_pos (Bool.and_eq_true_iff.1 h).2]
    rfl
  · exact newUnit_length _

theorem frame_length_of (hr : a.InRange c) :
    (body c a ++ checksum c a).length = c.nonDataLength + (field a).length := by
  rw [List.length_append, body_length hr, checksum_length, nonDataLength_eq]
  omega

theorem dataLength_frame (hr : a.InRange c) : c.dataLength (body c a ++ checksum c a) = (field a).length := by
  unfold Channel.dataLength
  rw [frame_length_of hr]
  omega

/-- The zones of a frame behind its data. -/
theorem drop_report (hr : a.InRange c) :
    (body c a ++ checksum c a).drop (c.ptrData + (field a).length) = report c a ++ checksum c a := by
  have hfront : (head c a.mcFrameCount a.vcFrameCount a.firstHeaderPointer ++ secondary c a ++ field a).length =
      c.ptrData + (field a).length := by
    simp only [List.length_append, head_length, secondary_length hr]
    rfl
  unfold body
  rw [List.append_assoc _ (report c a), ← hfront, List.drop_left]

/-- The operational control field is what was given for it. -/
theorem getCLCW_frame (hr : a.InRange c) (hocf : c.useOperationalControl = true) :
    c.getCLCW (body c a ++ checksum c a) = .ok (report c a) := by
  have hreport : (report c a).length = spanOperationalControlField := by
    rw [report_length hr, Channel.reportLen, if_pos hocf]
  have hlen := frame_length_of hr
  rw [nonDataLength_eq, ← report_length hr, hreport] at hlen
  unfold Channel.getCLCW wrapZone
  rw [ptrOperationalControl_of_length (frame_length_of hr) hocf, ok_bind]
  simp only [if_neg (show spanOperationalControlField ≠ 0 by decide), Int.toNat_natCast]
  rw [if_pos (by omega), drop_report hr, List.take_left' hreport]

theorem data_frame_of (hr : a.InRange c) : c.data (body c a ++ checksum c a) = field a := by
  have hfront : (head c a.mcFrameCount a.vcFrameCount a.firstHeaderPointer ++ secondary c a).length = c.ptrData := by
    rw [List.length_append, head_length, secondary_length hr]
    rfl
  unfold Channel.data
  rw [dataLength_frame hr, frame_split, ← List.append_assoc, ← hfront, List.drop_left, List.take_left]

/-- **A frame that is built within its limits is accepted, and returns what it was built from.** -/
theorem build_returns (hr : a.InRange c) :
    ∃ u, c.build a = .ok u ∧ (∃ n, isValid c u = .ok n ∧ 0 < n) ∧ WellFormed c u ∧ Returns c a u := by
  have hp : a.firstHeaderPointer < 2 ^ 11 := Nat.lt_succ_of_le hr.pointer_le
  have hpointer : getFirstHeaderPointer (body c a ++ checksum c a) = .ok a.firstHeaderPointer := by
    rw [frame_split, head_eq_unit]
    exact getFirstHeaderPointer_unit (status_ok c).lt hp
  have hwell : WellFormed c (body c a ++ checksum c a) := by
    refine ⟨?_, a.firstHeaderPointer, hpointer, ?_⟩
    · rw [frame_split]
      refine agrees_head hr.secondaryHeader_le hr.pointer_le fun hpos => ?_
      unfold secondary
      rw [if_pos hpos]
      exact ⟨_, rfl⟩
    · rw [dataLength_frame hr]
      exact hr.pointer
  refine ⟨_, build_eq hr, (accepted_iff c _).2 (.inl hwell), hwell, ?_⟩
  refine ⟨?_, ?_, ?_, ?_, hpointer, data_frame_of hr, fun d hd => ?_, fun w hw => ?_, fun d hd => ?_,
    fun hcrc hfec => ?_⟩
  · rw [frame_split, getSpacecraftID_head]
  · rw [frame_split, head_eq_unit]
    exact getVCID_unit
  · rw [frame_split]
    rfl
  · rw [frame_split]
    rfl
  · have hpos : 0 < c.fshSize := by
      have := hr.fshData_lt d hd
      omega
    rw [frame_split]
    unfold secondary
    rw [if_pos hpos, hd, Option.getD_some]
    have hdrop : ∀ t : Bytes, (head c a.mcFrameCount a.vcFrameCount a.firstHeaderPointer ++
        (UInt8.ofNat ((c.fshSize - 1) &&& 0x3f) :: t)).drop (spanPrimaryHeader + 1) = t := fun _ => rfl
    rw [List.cons_append, hdrop, List.append_assoc, List.take_left]
  · have hreport : report c a = w := by
      unfold report
      rw [hw]
      rfl
    rw [getCLCW_frame hr (hr.clcw w hw).1, hreport]
  · obtain ⟨hocf, hnone, -, b, t, hb, htype⟩ := hr.ocfData d hd
    have hreport : report c a = d := by
      unfold report
      rw [hnone, hd]
      rfl
    refine ⟨?_, by rw [getCLCW_frame hr hocf, hreport]⟩
    have hoctet : octetAt (body c a ++ checksum c a) (c.ptrData + (field a).length) = .ok b := by
      have hdrop := drop_report hr
      rw [hreport, hb, List.cons_append] at hdrop
      exact octetAt_of_drop hdrop
    unfold Channel.getReportType
    rw [ptrOperationalControl_of_length (frame_length_of hr) hocf, ok_bind, octetAtPtr_natCast, hoctet, ok_bind,
      htype]
    rfl
  · unfold checksum
    rw [hcrc, hfec]
    exact AOS.hasValidCRC_close _

/-- **When `isValid` tells a well-formed frame**: where the octets do not agree with the channel, or the first
header pointer is reserved, or the frame is not shorter than its fields and the pointer is not to the end of the
data field. Every frame that is built within its limits is accepted, and returns what it was built from. -/
theorem isValid_wellFormed_iff (c : Channel) (u : Bytes) (a : BuildArgs) :
    (((∃ n, isValid c u = .ok n ∧ 0 < n) ↔ WellFormed c u) ↔ ¬PointsPast c u) ∧
      (a.InRange c → ∃ f, c.build a = .ok f ∧ (∃ n, isValid c f = .ok n ∧ 0 < n) ∧ Returns c a f) := by
  refine ⟨accepts_iff c u, fun hr => ?_⟩
  obtain ⟨f, hbuild, hvalid, -, hreturns⟩ := build_returns hr
  exact ⟨f, hbuild, hvalid, hreturns⟩

/-- A frame with all the fields. -/
theorem isValid_wellFormed_full :
    ∃ f, Channel.build ⟨1, 2, true, true, 3, by decide, by decide⟩
        ⟨5, 6, some [7, 8], true, 1, some [9], none, some [0x80, 0, 0, 1]⟩ = .ok f ∧
      (∃ n, isValid ⟨1, 2, true, true, 3, by decide, by decide⟩ f = .ok n ∧ 0 < n) ∧
      Returns ⟨1, 2, true, true, 3, by decide, by decide⟩
        ⟨5, 6, some [7, 8], true, 1, some [9], none, some [0x80, 0, 0, 1]⟩ f := by
  refine (isValid_wellFormed_iff _ [] _).2 ⟨by decide, by decide, .inr (by decide), ?_, ?_, ?_⟩
  · intro d hd
    obtain rfl := Option.some.inj hd
    decide
  · intro w hw
    cases hw
  · intro d hd
    obtain rfl := Option.some.inj hd
    exact ⟨rfl, rfl, rfl, _, _, rfl, by decide⟩

/-- A frame of one octet of data, whose pointer is 1. -/
theorem end_pointer_accepted :
    ¬((∃ n, isValid ⟨1, 2, false, false, 0, by decide, by decide⟩ [0, 0x14, 0, 0, 0x18, 1, 7] = .ok n ∧ 0 < n) ↔
      WellFormed ⟨1, 2, false, false, 0, by decide, by decide⟩ [0, 0x14, 0, 0, 0x18, 1, 7]) := by
  intro h
  obtain ⟨-, pointer, hpointer, hok⟩ := h.1 ⟨1, by decide, by decide⟩
  obtain rfl := Except.ok.inj hpointer
  unfold Reserved at hok
  exact absurd hok (by decide)

end ChannelEmulator.TM
