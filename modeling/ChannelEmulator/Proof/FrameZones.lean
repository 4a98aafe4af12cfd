import ChannelEmulator.Spec.FrameZones
import ChannelEmulator.Framing.Run

/-!
# Insertion into a zone and extraction from it

* `insert_header`, `insert_zone`, `insert_tmReport`, `insert_aosReport`: what each insert module
  makes of a frame.
* `extract_data`, `extract_report`: what an extract module sends of a zone that holds a unit.
* `inverse_iff`: **insertion is local and extraction gives back the unit** but for two kinds of
  unit: a link control word with its type bit set, in a TM frame, and the unit of a secondary
  header of one octet, which has none.
-/

namespace ChannelEmulator

/-! ## Writing to a part of a unit -/

section Overwrite

variable {u src : Bytes} {dst i : ℕ}

theorem octetAt_overwrite (hfit : dst + src.length ≤ u.length)
    (hi : i < dst ∨ dst + src.length ≤ i) : octetAt (overwrite u dst src) i = octetAt u i := by
  unfold octetAt
  rw [getElem?_overwrite hfit hi]

/-- What was written is read back. -/
theorem wrapZone_overwrite {size : ℕ} (hfit : dst + src.length ≤ u.length) (hsize : size ≠ 0)
    (hlen : src.length = size) (dataLength : ℕ) :
    wrapZone dataLength (overwrite u dst src) size dst = .ok src := by
  have htake : (u.take dst).length = dst := by rw [List.length_take]; omega
  unfold wrapZone
  simp only [if_neg hsize, Int.toNat_natCast]
  rw [if_pos (by rw [overwrite_length hfit]; omega), overwrite, List.append_assoc,
    List.drop_left' htake, List.take_left' hlen]

/-- The first octet of what was written. -/
theorem octetAt_overwrite_head {b : Octet} {t : Bytes} (hfit : dst + (b :: t).length ≤ u.length) :
    octetAt (overwrite u dst (b :: t)) dst = .ok b := by
  have htake : (u.take dst).length = dst := by rw [List.length_take]; omega
  apply octetAt_of_drop
  rw [overwrite, List.append_assoc, List.drop_left' htake]
  rfl

/-- Writing the first octet again. -/
theorem overwrite_head {b b' : Octet} {t : Bytes} (hfit : dst + (b :: t).length ≤ u.length) :
    overwrite (overwrite u dst (b :: t)) dst [b'] = overwrite u dst (b' :: t) := by
  have htake : (u.take dst).length = dst := by rw [List.length_take]; omega
  have hhead : (overwrite u dst (b :: t)).take dst = u.take dst := by
    rw [overwrite, List.append_assoc, List.take_left' htake]
  have htail : (overwrite u dst (b :: t)).drop (dst + 1) = t ++ u.drop (dst + (b :: t).length) := by
    rw [← List.drop_drop, overwrite, List.append_assoc, List.drop_left' htake]
    rfl
  rw [overwrite, hhead, List.length_singleton, htail]
  simp [overwrite]

end Overwrite

/-! ## The type bit -/

theorem reportTypeOf_iff (b : Octet) : reportTypeOf b = 2 ↔ b &&& 0x80 ≠ 0 := by
  unfold reportTypeOf
  split <;> simp_all

/-- Each octet by its number. -/
theorem forall_octet {P : Octet → Prop} (h : ∀ n : Fin 256, P (UInt8.ofNat n)) (b : Octet) : P b := by
  have := h ⟨b.toNat, b.toNat_lt⟩
  rwa [UInt8.ofNat_toNat] at this

theorem and_masks (b : Octet) : (b &&& 0x7f) &&& 0x80 = 0 := by
  rw [UInt8.and_assoc, show (0x7f : Octet) &&& 0x80 = 0 from rfl, UInt8.and_zero]

theorem clear_type_bit (b : Octet) : reportTypeOf (b &&& 0x7f) = 1 := by
  unfold reportTypeOf
  rw [and_masks, if_neg (fun h => h rfl)]

theorem type_bit_clear_iff (b : Octet) : b &&& 0x7f = b ↔ b &&& 0x80 = 0 := by
  constructor
  · intro h
    rw [← h, and_masks]
  · intro h
    have hsplit : b &&& (0x7f ||| 0x80) = (b &&& 0x7f) ||| (b &&& 0x80) :=
      UInt8.toBitVec_inj.1 BitVec.and_or_distrib_left
    rw [h, UInt8.or_zero, show (0x7f : Octet) ||| 0x80 = -1 from rfl, UInt8.and_neg_one] at hsplit
    exact hsplit.symm

namespace Zone

/-! ## Zones -/

/-- Where a zone starts in a frame. -/
def start : Zone → Bytes → ℕ
  | secondaryHeader _, _ => TM.spanPrimaryHeader + 1
  | tmReport c, u => c.ptrData + c.dataLength u
  | insertZone l, _ => l.headerByteLength
  | aosReport l, u => l.ptrData + l.dataLength u

/-- How many octets a zone has. -/
def span : Zone → ℕ
  | secondaryHeader c => c.fshSize - 1
  | tmReport _ => TM.spanOperationalControlField
  | insertZone l => l.inSduLen
  | aosReport _ => AOS.spanOperationalControlField

/-- The frame has the fields of its layout, and header fields that say so. -/
def Frame : Zone → Bytes → Prop
  | secondaryHeader c, u => c.nonDataLength ≤ u.length ∧ 1 ≤ c.fshSize ∧ c.fshSize ≤ TM.maxFSHLen ∧
      TM.getSecondaryHeaderFlag u = .ok true ∧
      TM.getSecondaryHeaderDataLength u = .ok (c.fshSize - 1)
  | tmReport c, u => c.nonDataLength ≤ u.length ∧ c.useOperationalControl = true ∧
      TM.getOCFF u = .ok true
  | insertZone l, u => l.inSduLen + l.nonDataLength ≤ u.length ∧ 1 ≤ l.inSduLen
  | aosReport l, u => l.inSduLen + l.nonDataLength ≤ u.length ∧ l.hasOperationalControl = true

/-- The units of a zone: link control words and Type-2 reports of four octets for an operational
control field, and units of its size for the others. -/
def Unit : Zone → AuxUnit → Prop
  | secondaryHeader c, .data w => w.length = c.fshSize - 1
  | insertZone l, .data w => w.length = l.inSduLen
  | tmReport _, .clcw w | aosReport _, .clcw w => w.length = TM.spanOperationalControlField
  | tmReport _, .data w | aosReport _, .data w =>
    ∃ b t, w = b :: t ∧ t.length = 3 ∧ reportTypeOf b = 2
  | _, _ => False

/-- What is to come out for a unit: a link control word as a Type-1 report. -/
def expected : AuxUnit → AuxUnit
  | .clcw (b :: t) => .clcw ((b &&& 0x7f) :: t)
  | unit => unit

/-- A link control word whose type bit is set. -/
def typeBitSet : AuxUnit → Prop
  | .clcw (b :: _) => reportTypeOf b = 2
  | _ => False

variable {z : Zone} {u w : Bytes} {unit : AuxUnit}

/-- A zone lies within its frame. -/
theorem Frame.fits (h : z.Frame u) : z.start u + z.span ≤ u.length := by
  cases z with
  | secondaryHeader c =>
    obtain ⟨hlen, hone, -⟩ := h
    unfold TM.Channel.nonDataLength at hlen
    simp only [start, span]
    omega
  | tmReport c =>
    obtain ⟨hlen, hocf, -⟩ := h
    simp only [start, span, TM.Channel.ptrData, TM.Channel.dataLength]
    simp only [TM.Channel.nonDataLength, hocf, if_true] at hlen ⊢
    omega
  | insertZone l =>
    obtain ⟨hlen, -⟩ := h
    simp only [start, span]
    unfold AOS.Layout.nonDataLength at hlen
    omega
  | aosReport l =>
    obtain ⟨hlen, hocf⟩ := h
    simp only [start, span, AOS.Layout.ptrData, AOS.Layout.dataLength, AOS.ptrSignalingField,
      AOS.ptrVCFrameCount]
    simp only [AOS.Layout.nonDataLength, AOS.Layout.headerByteLength, hocf, if_true,
      AOS.spanRequiredHeader] at hlen ⊢
    omega

/-- What is written for a unit: `setCLCW` of an AOS frame clears the type bit. -/
def stored : Zone → AuxUnit → Bytes
  | aosReport _, .clcw (b :: t) => (b &&& 0x7f) :: t
  | _, .clcw w => w
  | _, .data w => w

theorem Unit.stored_length (h : z.Unit unit) : (z.stored unit).length = z.span := by
  cases z with
  | secondaryHeader c =>
    cases unit with
    | clcw w => exact absurd h not_false
    | data w => exact h
  | insertZone l =>
    cases unit with
    | clcw w => exact absurd h not_false
    | data w => exact h
  | tmReport c =>
    cases unit with
    | clcw w => exact h
    | data w =>
      obtain ⟨b, t, rfl, ht, -⟩ := h
      simp [stored, span, TM.spanOperationalControlField, ht]
  | aosReport l =>
    cases unit with
    | clcw w =>
      cases w with
      | nil => exact h
      | cons b t => exact h
    | data w =>
      obtain ⟨b, t, rfl, ht, -⟩ := h
      simp [stored, span, AOS.spanOperationalControlField, ht]

/-! ## Insertion -/

/-- The unit of a secondary header. -/
theorem insert_header {c : TM.Channel} (hf : (secondaryHeader c).Frame u)
    (hw : w.length = c.fshSize - 1) (k : Tallies) :
    insertFSHUnit c k u (.data w) =
      .ok (k.received w, overwrite u (TM.spanPrimaryHeader + 1) w) := by
  have hfit : TM.spanPrimaryHeader + 1 + (c.fshSize - 1) ≤ u.length := Frame.fits hf
  obtain ⟨-, hone, -⟩ := hf
  have hset : c.setSecondaryHeaderData u w = .ok (overwrite u (TM.spanPrimaryHeader + 1) w) := by
    unfold TM.Channel.setSecondaryHeaderData TM.Channel.ptrSecondaryHeaderData
    rw [if_pos (by omega), if_neg (by omega)]
    exact copyUnit_ok (by omega)
  unfold insertFSHUnit
  simp only
  rw [if_neg (by omega), hset]
  rfl

/-- The unit of an insert zone. -/
theorem insert_zone {l : AOS.Layout} (hf : (insertZone l).Frame u) (hw : w.length = l.inSduLen)
    (k : Tallies) :
    insertInSduUnit l k u (.data w) = .ok (k.received w, overwrite u l.headerByteLength w) := by
  have hfit : l.headerByteLength + l.inSduLen ≤ u.length := Frame.fits hf
  obtain ⟨-, hone⟩ := hf
  have hset : l.setInsertZone u w = .ok (overwrite u l.headerByteLength w) := by
    unfold AOS.Layout.setInsertZone AOS.Layout.ptrInsertZone
    rw [if_pos (by omega), if_neg (by omega)]
    exact copyUnit_ok (by rw [hw]; exact hfit)
  unfold insertInSduUnit
  simp only
  rw [if_neg (not_not.2 hw), hset]
  rfl

theorem tm_ptr {c : TM.Channel} (hf : (tmReport c).Frame u) :
    c.ptrOperationalControl u = .ok ((tmReport c).start u : ℤ) := by
  have hlen := hf.1
  have hstart : (tmReport c).start u = c.ptrData + (u.length - c.nonDataLength) := rfl
  unfold TM.Channel.ptrOperationalControl
  rw [if_pos hf.2.1]
  congr 1
  omega

theorem aos_ptr {l : AOS.Layout} (hf : (aosReport l).Frame u) :
    l.ptrOperationalControl u = .ok ((aosReport l).start u : ℤ) := by
  have hlen := hf.1
  have hstart : (aosReport l).start u = l.ptrData + (u.length - l.inSduLen - l.nonDataLength) := rfl
  unfold AOS.Layout.ptrOperationalControl
  rw [if_pos hf.2]
  congr 1
  omega

/-- The report of a frame of the same length starts at the same place. -/
theorem tm_getReportType {c : TM.Channel} (hf : (tmReport c).Frame u) {b : Octet} {t : Bytes}
    (hfit : (tmReport c).start u + (b :: t).length ≤ u.length) :
    c.getReportType (overwrite u ((tmReport c).start u) (b :: t)) = .ok (reportTypeOf b) := by
  have hptr : c.ptrOperationalControl (overwrite u ((tmReport c).start u) (b :: t)) =
      c.ptrOperationalControl u := by
    unfold TM.Channel.ptrOperationalControl
    rw [overwrite_length hfit]
  unfold TM.Channel.getReportType
  rw [hptr, tm_ptr hf]
  simp only [bind, Except.bind, octetAtPtr_natCast, octetAt_overwrite_head hfit, pure, Except.pure]

theorem aos_getReportType {l : AOS.Layout} (hf : (aosReport l).Frame u) {b : Octet} {t : Bytes}
    (hfit : (aosReport l).start u + (b :: t).length ≤ u.length) :
    l.getReportType (overwrite u ((aosReport l).start u) (b :: t)) = .ok (reportTypeOf b) := by
  have hptr : l.ptrOperationalControl (overwrite u ((aosReport l).start u) (b :: t)) =
      l.ptrOperationalControl u := by
    unfold AOS.Layout.ptrOperationalControl
    rw [overwrite_length hfit]
  unfold AOS.Layout.getReportType
  rw [hptr, aos_ptr hf]
  simp only [bind, Except.bind, octetAtPtr_natCast, octetAt_overwrite_head hfit, pure, Except.pure]

/-- A report of a TM frame. -/
theorem insert_tmReport {c : TM.Channel} (hf : (tmReport c).Frame u)
    (hw : (tmReport c).Unit unit) (k : Tallies) :
    ∃ k', insertReport c.setCLCW c.setType2ReportData k u unit =
      .ok (k', overwrite u ((tmReport c).start u) ((tmReport c).stored unit)) := by
  have hfit := hf.fits
  have hlen := hw.stored_length
  have hocf := hf.2.1
  rw [← hlen] at hfit
  cases unit with
  | clcw w =>
    have hset : c.setCLCW u w = .ok (overwrite u ((tmReport c).start u) w) := by
      unfold TM.Channel.setCLCW
      rw [hocf]
      simp only [Bool.not_true, Bool.false_eq_true, if_false, tm_ptr hf, bind, Except.bind, copyUnitTo_natCast]
      exact copyUnit_ok hfit
    exact ⟨_, by simp only [insertReport, hset, catchMissingField, bind, Except.bind]; rfl⟩
  | data w =>
    obtain ⟨b, t, rfl, ht, hb⟩ := hw
    have hfit' : (tmReport c).start u + (b :: t).length ≤ u.length := hfit
    have hset : c.setType2ReportData u (b :: t) =
        .ok (overwrite u ((tmReport c).start u) (b :: t), none) := by
      unfold TM.Channel.setType2ReportData
      rw [hocf]
      simp only [Bool.not_true, Bool.false_eq_true, if_false, tm_ptr hf, bind, Except.bind, copyUnitTo_natCast]
      rw [copyUnit_ok hfit']
      simp only [tm_getReportType hf hfit', hb, if_true, pure, Except.pure]
    have hfour : ¬ (b :: t).length ≠ TM.spanOperationalControlField := by
      rw [List.length_cons, ht]
      exact not_not.2 rfl
    unfold insertReport
    simp only
    rw [if_neg hfour, hset]
    exact ⟨_, rfl⟩

/-- A report of an AOS frame: the type bit of a link control word is cleared. -/
theorem insert_aosReport {l : AOS.Layout} (hf : (aosReport l).Frame u)
    (hw : (aosReport l).Unit unit) (k : Tallies) :
    ∃ k', insertReport l.setCLCW l.setType2ReportData k u unit =
      .ok (k', overwrite u ((aosReport l).start u) ((aosReport l).stored unit)) := by
  have hfit := hf.fits
  have hlen := hw.stored_length
  have hocf := hf.2
  rw [← hlen] at hfit
  cases unit with
  | clcw w =>
    obtain ⟨b, t, rfl⟩ : ∃ b t, w = b :: t := by
      cases w with
      | nil => exact absurd hw (by simp [Unit, TM.spanOperationalControlField])
      | cons b t => exact ⟨b, t, rfl⟩
    have hset : l.setCLCW u (b :: t) =
        .ok (overwrite u ((aosReport l).start u) ((b &&& 0x7f) :: t)) := by
      have hfit' : (aosReport l).start u + (b :: t).length ≤ u.length := hfit
      have hlen' : (overwrite u ((aosReport l).start u) (b :: t)).length = u.length :=
        overwrite_length hfit'
      have hptr : l.ptrOperationalControl (overwrite u ((aosReport l).start u) (b :: t)) =
          .ok ((aosReport l).start u : ℤ) := by
        rw [← aos_ptr hf]
        unfold AOS.Layout.ptrOperationalControl
        rw [hlen']
      unfold AOS.Layout.setCLCW
      rw [hocf]
      simp only [Bool.not_true, Bool.false_eq_true, if_false, aos_ptr hf, bind, Except.bind, copyUnitTo_natCast]
      rw [copyUnit_ok hfit']
      simp only [aos_getReportType hf hfit']
      by_cases hb : reportTypeOf b = 2
      · have hroom : ¬ (overwrite u ((aosReport l).start u) (b :: t)).length <
            (aosReport l).start u + [b &&& 0x7f].length := by
          rw [hlen']
          simp only [List.length_cons, List.length_nil] at hfit' ⊢
          omega
        rw [if_pos hb]
        unfold AOS.Layout.setReportType
        simp only [hptr, octetAtPtr_natCast, storeAtPtr_natCast, octetAt_overwrite_head hfit', bind, Except.bind,
          if_true]
        rw [if_neg (by decide)]
        rw [storeAt, if_neg hroom, overwrite_head hfit']
      · -- the type bit is clear already
        have hclear : b &&& 0x7f = b := by
          rw [type_bit_clear_iff]
          by_contra hc
          exact hb ((reportTypeOf_iff b).2 hc)
        rw [if_neg hb, hclear]
    exact ⟨_, by simp only [insertReport, hset, catchMissingField, bind, Except.bind]; rfl⟩
  | data w =>
    obtain ⟨b, t, rfl, ht, hb⟩ := hw
    have hfit' : (aosReport l).start u + (b :: t).length ≤ u.length := hfit
    have hset : l.setType2ReportData u (b :: t) =
        .ok (overwrite u ((aosReport l).start u) (b :: t), none) := by
      unfold AOS.Layout.setType2ReportData
      rw [hocf]
      simp only [Bool.not_true, Bool.false_eq_true, if_false, aos_ptr hf, bind, Except.bind, copyUnitTo_natCast]
      rw [copyUnit_ok hfit']
      simp only [aos_getReportType hf hfit', hb, if_true, pure, Except.pure]
    have hfour : ¬ (b :: t).length ≠ TM.spanOperationalControlField := by
      rw [List.length_cons, ht]
      exact not_not.2 rfl
    unfold insertReport
    simp only
    rw [if_neg hfour, hset]
    exact ⟨_, rfl⟩

/-- **Insertion writes the unit to its zone.** -/
theorem insert_eq (hf : z.Frame u) (hw : z.Unit unit) (k : Tallies) :
    ∃ k', z.insert k u unit = .ok (k', overwrite u (z.start u) (z.stored unit)) := by
  cases z with
  | secondaryHeader c =>
    cases unit with
    | clcw w => exact absurd hw not_false
    | data w => exact ⟨_, insert_header hf hw k⟩
  | tmReport c => exact insert_tmReport hf hw k
  | insertZone l =>
    cases unit with
    | clcw w => exact absurd hw not_false
    | data w => exact ⟨_, insert_zone hf hw k⟩
  | aosReport l => exact insert_aosReport hf hw k

/-! ## Extraction -/

/-- The header of a frame whose zone was written to. -/
theorem header_octet (hf : z.Frame u) (hw : w.length = z.span) {i : ℕ} (hi : i < z.start u) :
    octetAt (overwrite u (z.start u) w) i = octetAt u i := by
  have hfit := hf.fits
  exact octetAt_overwrite (by omega) (Or.inl hi)

theorem header_fields {c : TM.Channel} (hf : (secondaryHeader c).Frame u)
    (hw : w.length = c.fshSize - 1) :
    TM.getSecondaryHeaderFlag (overwrite u (TM.spanPrimaryHeader + 1) w) = .ok true ∧
      TM.getSecondaryHeaderDataLength (overwrite u (TM.spanPrimaryHeader + 1) w) =
        .ok (c.fshSize - 1) := by
  obtain ⟨-, -, -, hflag, hlength⟩ := id hf
  have hword : octetAt (overwrite u (TM.spanPrimaryHeader + 1) w) 4 = octetAt u 4 :=
    header_octet hf hw (i := 4) (by simp only [start, TM.spanPrimaryHeader]; omega)
  have hid : octetAt (overwrite u (TM.spanPrimaryHeader + 1) w) TM.spanPrimaryHeader =
      octetAt u TM.spanPrimaryHeader :=
    header_octet hf hw (i := TM.spanPrimaryHeader) (Nat.lt_succ_self _)
  constructor
  · rw [← hflag]
    unfold TM.getSecondaryHeaderFlag
    rw [hword]
  · rw [← hlength]
    unfold TM.getSecondaryHeaderDataLength
    rw [hid]

/-- The unit of a secondary header of two octets or more. -/
theorem extract_header {c : TM.Channel} (hf : (secondaryHeader c).Frame u)
    (hw : w.length = c.fshSize - 1) (hone : c.fshSize ≠ 1) :
    extractFSH c (overwrite u (TM.spanPrimaryHeader + 1) w) = .ok [.data w] := by
  obtain ⟨hflag, hlength⟩ := header_fields hf hw
  have hfit : TM.spanPrimaryHeader + 1 + (c.fshSize - 1) ≤ u.length := Frame.fits hf
  have hpos := hf.2.1
  have hfit' : TM.spanPrimaryHeader + 1 + w.length ≤ u.length := by
    rw [hw]
    exact hfit
  have hwrap := wrapZone_overwrite hfit' (by omega : c.fshSize - 1 ≠ 0) hw
    (c.dataLength (overwrite u (TM.spanPrimaryHeader + 1) w))
  unfold extractFSH TM.Channel.ptrSecondaryHeaderData
  simp only [hflag, hlength, bind, Except.bind, if_true]
  rw [if_neg (by omega)]
  simp only [hwrap, pure, Except.pure]

/-- A secondary header of one octet has no unit: the data field is sent. -/
theorem extract_header_one {c : TM.Channel} (hf : (secondaryHeader c).Frame u)
    (hw : w.length = c.fshSize - 1) (hone : c.fshSize = 1) :
    extractFSH c (overwrite u (TM.spanPrimaryHeader + 1) w) = .ok [.data (c.data u)] := by
  obtain ⟨hflag, hlength⟩ := header_fields hf hw
  obtain rfl : w = [] := List.length_eq_zero_iff.1 (by omega)
  have hsame : overwrite u (TM.spanPrimaryHeader + 1) [] = u := by
    rw [overwrite, List.append_nil]
    exact List.take_append_drop _ _
  have hwrap : wrapZone (c.dataLength u) u 0 (TM.spanPrimaryHeader + 1 : ℕ) = .ok (c.data u) := by
    have hlen := hf.1
    unfold TM.Channel.nonDataLength at hlen
    unfold wrapZone TM.Channel.data TM.Channel.ptrData
    simp only [if_true, Int.toNat_natCast]
    rw [if_pos (by unfold TM.Channel.dataLength TM.Channel.nonDataLength; omega), hone]
  rw [hsame] at hflag hlength ⊢
  unfold extractFSH TM.Channel.ptrSecondaryHeaderData
  simp only [hflag, hlength, bind, Except.bind, if_true]
  rw [if_neg (by omega), hone]
  simp only [Nat.sub_self, hwrap, pure, Except.pure]

/-- The unit of an insert zone. -/
theorem extract_zone {l : AOS.Layout} (hf : (insertZone l).Frame u) (hw : w.length = l.inSduLen) :
    extractInSdu l (overwrite u l.headerByteLength w) = .ok [.data w] := by
  have hfit : l.headerByteLength + l.inSduLen ≤ u.length := Frame.fits hf
  have hpos := hf.2
  have hfit' : l.headerByteLength + w.length ≤ u.length := by
    rw [hw]
    exact hfit
  have hwrap := wrapZone_overwrite hfit' (by omega : l.inSduLen ≠ 0) hw
    (l.dataLength (overwrite u l.headerByteLength w))
  have hptr : l.ptrInsertZone = .ok l.headerByteLength := by
    unfold AOS.Layout.ptrInsertZone
    rw [if_neg (by omega)]
    rfl
  unfold extractInSdu
  rw [if_pos (by omega), hptr]
  simp only [hwrap, bind, Except.bind, pure, Except.pure]

/-- What is sent of a report. -/
def sentReport (b : Octet) (t : Bytes) : AuxUnit :=
  if reportTypeOf b = 1 then .clcw (b :: t) else .data (b :: t)

theorem extract_tmReport {c : TM.Channel} (hf : (tmReport c).Frame u) {b : Octet} {t : Bytes}
    (ht : t.length = 3) :
    extractTmOCF c (overwrite u ((tmReport c).start u) (b :: t)) = .ok [sentReport b t] := by
  have hfour : (b :: t).length = TM.spanOperationalControlField := by rw [List.length_cons, ht]; rfl
  have hfit : (tmReport c).start u + (b :: t).length ≤ u.length := by
    rw [hfour]
    exact hf.fits
  have hptr : c.ptrOperationalControl (overwrite u ((tmReport c).start u) (b :: t)) =
      .ok ((tmReport c).start u) := by
    rw [← tm_ptr hf]
    unfold TM.Channel.ptrOperationalControl
    rw [overwrite_length hfit]
  have hflag : TM.getOCFF (overwrite u ((tmReport c).start u) (b :: t)) = .ok true := by
    rw [← hf.2.2]
    unfold TM.getOCFF
    rw [header_octet hf hfour (i := 1)
      (by simp only [start, TM.Channel.ptrData, TM.spanPrimaryHeader]; omega)]
  have hwrap := wrapZone_overwrite hfit (by decide : TM.spanOperationalControlField ≠ 0) hfour
    (c.dataLength (overwrite u ((tmReport c).start u) (b :: t)))
  unfold extractTmOCF TM.Channel.getCLCW sentReport
  simp only [hflag, bind, Except.bind, if_true, tm_getReportType hf hfit, hptr, hwrap, pure,
    Except.pure]
  split <;> rfl

theorem extract_aosReport {l : AOS.Layout} (hf : (aosReport l).Frame u) {b : Octet} {t : Bytes}
    (ht : t.length = 3) :
    extractAosOCF l (overwrite u ((aosReport l).start u) (b :: t)) = .ok [sentReport b t] := by
  have hfour : (b :: t).length = AOS.spanOperationalControlField := by
    rw [List.length_cons, ht]; rfl
  have hfit : (aosReport l).start u + (b :: t).length ≤ u.length := by
    rw [hfour]
    exact hf.fits
  have hptr : l.ptrOperationalControl (overwrite u ((aosReport l).start u) (b :: t)) =
      .ok ((aosReport l).start u) := by
    rw [← aos_ptr hf]
    unfold AOS.Layout.ptrOperationalControl
    rw [overwrite_length hfit]
  have hwrap := wrapZone_overwrite hfit (by decide : AOS.spanOperationalControlField ≠ 0) hfour
    (l.dataLength (overwrite u ((aosReport l).start u) (b :: t)))
  unfold extractAosOCF AOS.Layout.getCLCW sentReport
  rw [if_pos hf.2]
  simp only [bind, Except.bind, aos_getReportType hf hfit, hptr, hwrap, pure, Except.pure]
  split <;> rfl

/-! ## Both -/

/-- The units an extract module gives back. -/
def Returns : Zone → Bytes → AuxUnit → Prop
  | tmReport _, _, unit => ¬ typeBitSet unit
  | secondaryHeader c, u, _ => c.fshSize ≠ 1 ∨ c.dataLength u = 0
  | _, _, _ => True

/-- A link control word, by its first octet. -/
theorem Unit.clcw_eq {octets : Bytes} (h : octets.length = TM.spanOperationalControlField) :
    ∃ b t, octets = b :: t ∧ t.length = 3 := by
  cases octets with
  | nil => exact absurd h (by decide)
  | cons b t => exact ⟨b, t, rfl, Nat.succ.inj h⟩

/-- What an extract module sends of a zone that was written to. -/
theorem extract_eq (hf : z.Frame u) (hw : z.Unit unit) :
    ∃ z' out, z.configure = .ok z' ∧
      z'.extract (overwrite u (z.start u) (z.stored unit)) = .ok [out] ∧
      (out = expected unit ↔ z.Returns u unit) := by
  cases z with
  | secondaryHeader c =>
    cases unit with
    | clcw w => exact absurd hw not_false
    | data w =>
      have hconf : (secondaryHeader c).configure = .ok (secondaryHeader c) := by
        have hlimit : ¬ c.fshSize > TM.maxFSHLen := Nat.not_lt.2 hf.2.2.1
        simp only [configure, TM.Channel.setSecondaryHeaderLen, if_neg hlimit, bind, Except.bind,
          pure, Except.pure]
      by_cases hone : c.fshSize = 1
      · -- a length of zero is taken for the whole of the data field
        refine ⟨_, _, hconf, extract_header_one hf hw hone, ?_⟩
        obtain rfl : w = [] := List.length_eq_zero_iff.1 (by rw [hw, hone])
        have hdata : (c.data u).length = c.dataLength u := by
          unfold TM.Channel.data TM.Channel.dataLength TM.Channel.ptrData TM.Channel.nonDataLength
          rw [List.length_take, List.length_drop]
          omega
        unfold expected Returns
        rw [AuxUnit.data.injEq, ← List.length_eq_zero_iff, hdata]
        constructor
        · exact Or.inr
        · exact fun h => h.resolve_left (not_not.2 hone)
      · exact ⟨_, _, hconf, extract_header hf hw hone, iff_of_true rfl (Or.inl hone)⟩
  | insertZone l =>
    cases unit with
    | clcw w => exact absurd hw not_false
    | data w => exact ⟨_, _, rfl, extract_zone hf hw, iff_of_true rfl trivial⟩
  | tmReport c =>
    have hconf : (tmReport c).configure = .ok (tmReport c) := by
      unfold configure
      rw [← hf.2.1]
    cases unit with
    | clcw w =>
      obtain ⟨b, t, rfl, ht⟩ := Unit.clcw_eq hw
      refine ⟨_, _, hconf, extract_tmReport hf ht, ?_⟩
      unfold sentReport expected Returns typeBitSet
      by_cases hb : reportTypeOf b = 2
      · -- a report whose type bit is set is no longer a control word
        rw [if_neg (by rw [hb]; decide)]
        exact iff_of_false (by simp) (not_not.2 hb)
      · have hclear : b &&& 0x7f = b := by
          rw [type_bit_clear_iff]
          by_contra hc
          exact hb ((reportTypeOf_iff b).2 hc)
        have htype : reportTypeOf b = 1 := by
          rw [← hclear]
          exact clear_type_bit b
        rw [if_pos htype]
        apply iff_of_true _ hb
        simp only [hclear]
    | data w =>
      obtain ⟨b, t, rfl, ht, hb⟩ := hw
      refine ⟨_, _, hconf, extract_tmReport hf ht, ?_⟩
      unfold sentReport
      rw [if_neg (by rw [hb]; decide)]
      exact iff_of_true rfl not_false
  | aosReport l =>
    have hconf : (aosReport l).configure = .ok (aosReport l) := by
      unfold configure
      rw [← hf.2]
    cases unit with
    | clcw w =>
      obtain ⟨b, t, rfl, ht⟩ := Unit.clcw_eq hw
      refine ⟨_, _, hconf, extract_aosReport hf ht, ?_⟩
      unfold sentReport
      rw [if_pos (clear_type_bit b)]
      exact iff_of_true rfl trivial
    | data w =>
      obtain ⟨b, t, rfl, ht, hb⟩ := hw
      refine ⟨_, _, hconf, extract_aosReport hf ht, ?_⟩
      unfold sentReport
      rw [if_neg (by rw [hb]; decide)]
      exact iff_of_true rfl trivial

/-- Whatever else waits and was counted: the insert module sends a frame that differs from the
one it received in its own zone at most, and the extract module sends the unit, and that frame. -/
def Inverse (z : Zone) (v : Settings) (u : Bytes) (unit : AuxUnit) : Prop :=
  ∀ k k' queue, ∃ k₁ u' k₂, z.insertSvc v k (unit :: queue) u = .ok (k₁, queue, some u') ∧
    u'.length = u.length ∧
    (∀ i, i < z.start u ∨ z.start u + z.span ≤ i → u'[i]? = u[i]?) ∧
    z.extractSvc v k' u' = .ok (k₂, [expected unit], some u')

/-- A unit of a zone is inserted and comes out again exactly when it is not a link control word
for a TM frame with its type bit set, nor for a secondary header of one octet in a frame with
data. -/
theorem inverse_iff (z : Zone) (v : Settings) (u : Bytes) (unit : AuxUnit) (hf : z.Frame u)
    (hw : z.Unit unit) (hv : v.frameSize = u.length) :
    z.Inverse v u unit ↔ z.Returns u unit := by
  obtain ⟨z', out, hconf, hextract, hout⟩ := extract_eq hf hw
  have hlen := hw.stored_length
  have hfit := hf.fits
  rw [← hlen] at hfit
  have hsize := overwrite_length hfit
  have hgood : decide (u.length = v.frameSize) = true := decide_eq_true hv.symm
  have hsvc : ∀ k queue, ∃ k₁, z.insertSvc v k (unit :: queue) u =
      .ok (k₁, queue, some (overwrite u (z.start u) (z.stored unit))) := by
    intro k queue
    unfold insertSvc
    simp only [hgood, Bool.not_true, Bool.false_and, Bool.false_eq_true, if_false]
    obtain ⟨k₁, hk₁⟩ := insert_eq hf hw { k.sized true with
      receivedFrameUnitCount := (k.sized true).receivedFrameUnitCount + 1
      receivedFrameOctetCount := (k.sized true).receivedFrameOctetCount + u.length }
    exact ⟨k₁, by simp only [hk₁, bind, Except.bind, pure, Except.pure]⟩
  have hsent : ∀ k', ∃ k₂, z.extractSvc v k' (overwrite u (z.start u) (z.stored unit)) =
      .ok (k₂, [out], some (overwrite u (z.start u) (z.stored unit))) := by
    intro k'
    refine ⟨k'.sized true, ?_⟩
    simp only [extractSvc, hconf, bind, Except.bind, hsize, hgood, Bool.not_true,
      Bool.false_and, Bool.false_eq_true, if_false, hextract, pure, Except.pure]
  constructor
  · intro h
    obtain ⟨k₁, u', k₂, hins, -, -, hext⟩ := h {} {} []
    obtain ⟨k₁', hins'⟩ := hsvc {} []
    obtain ⟨-, hr⟩ := Prod.mk.inj (Except.ok.inj (hins.symm.trans hins'))
    obtain rfl := Option.some.inj (Prod.mk.inj hr).2
    obtain ⟨k₂', hext'⟩ := hsent {}
    obtain ⟨-, hr⟩ := Prod.mk.inj (Except.ok.inj (hext'.symm.trans hext))
    exact hout.1 (List.head_eq_of_cons_eq (Prod.mk.inj hr).1)
  · intro h k k' queue
    obtain ⟨k₁, hins⟩ := hsvc k queue
    obtain ⟨k₂, hext⟩ := hsent k'
    rw [hout.2 h] at hext
    refine ⟨k₁, _, k₂, hins, hsize, fun i hi => ?_, hext⟩
    apply getElem?_overwrite hfit
    rw [hlen]
    exact hi

/-- A TM channel whose frames have an operational control field. -/
def reporting : TM.Channel where
  scid := 1
  vcid := 0
  useOperationalControl := true
  scid_le := Nat.le_of_ble_eq_true rfl
  vcid_le := Nat.zero_le _

/-- A frame of that channel with two octets of data. -/
def reportFrame : Bytes := [0x00, 0x11, 0, 0, 0x18, 0, 7, 8, 0, 0, 0, 0]

theorem inverse_iff_clcw :
    (tmReport reporting).Inverse { frameSize := 12 } reportFrame (.clcw [1, 2, 3, 4]) ↔
      (tmReport reporting).Returns reportFrame (.clcw [1, 2, 3, 4]) :=
  inverse_iff (tmReport reporting) { frameSize := 12 } reportFrame (.clcw [1, 2, 3, 4])
    ⟨by decide, rfl, by decide⟩ rfl rfl

/-- The link control word 81 02 03 04 comes out as a Type-2 report. -/
theorem clcw_stays_type_2 :
    ¬ (tmReport reporting).Inverse { frameSize := 12 } reportFrame (.clcw [0x81, 2, 3, 4]) := by
  intro h
  obtain ⟨k₁, u', k₂, hins, -, -, hext⟩ := h {} {} []
  have hsent : ((tmReport reporting).insertSvc { frameSize := 12 } {} [.clcw [0x81, 2, 3, 4]]
      reportFrame).toOption.map (fun r => r.2.2) =
        some (some [0x00, 0x11, 0, 0, 0x18, 0, 7, 8, 0x81, 2, 3, 4]) := by decide
  rw [hins] at hsent
  obtain rfl : u' = [0x00, 0x11, 0, 0, 0x18, 0, 7, 8, 0x81, 2, 3, 4] := by
    simpa [Except.toOption] using hsent
  have hout : ((tmReport reporting).extractSvc { frameSize := 12 } {}
      [0x00, 0x11, 0, 0, 0x18, 0, 7, 8, 0x81, 2, 3, 4]).toOption.map (fun r => r.2.1) =
        some [.data [0x81, 2, 3, 4]] := by decide
  rw [hext] at hout
  -- a link control word is sent, and none was
  simp [Except.toOption, expected] at hout

end Zone

end ChannelEmulator
