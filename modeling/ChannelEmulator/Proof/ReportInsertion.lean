import ChannelEmulator.Proof.FrameZones

/-!
# Setting a Type-2 report

The octets of a report are copied to the frame, and then its type bit is read there.

* `reported`: what setting a report does, in TM and in AOS frames (`tm_set_eq`, `aos_set_eq`).
* `atomic_reported_iff`: when a report that is refused leaves the frame as it was.
* `setType2ReportData_atomic_iff`: **the same of the functions, and of the modules that insert reports**.
-/

namespace ChannelEmulator

open Framing

/-- What is behind the data of a frame, with an operational control field. -/
def reportSpan (hasFrameErrorControl : Bool) : ℕ := 4 + if hasFrameErrorControl then 2 else 0

/-- What setting a report does. -/
def reported (typeStr : String) (hasOperationalControl hasFrameErrorControl : Bool) (u : Bytes) (b : Octet)
    (t : Bytes) : Except Fault (Bytes × Option String) :=
  if hasOperationalControl = false then
    .error (.missingField (missingFieldMsg typeStr "Type-2-Report in the Operational Control"))
  else if u.length < reportSpan hasFrameErrorControl then
    .error (.bufferOverflow "Data copy failed, destination is below unit range.")
  else .ok (overwrite u (u.length - reportSpan hasFrameErrorControl) (b :: t),
    if reportTypeOf b = 2 then none else some (malformedPayloadMsg typeStr "properly set report type bit"))

/-- A report that is refused for its type bit leaves the frame as it was. -/
def Atomic (setType2ReportData : Bytes → Bytes → Except Fault (Bytes × Option String)) (u data : Bytes) : Prop :=
  ∀ u' msg, setType2ReportData u data = .ok (u', some msg) → u' = u

/-- The same, of the frame that a module sends. -/
def AtomicInModule (setCLCW : Bytes → Bytes → Except Fault Bytes)
    (setType2ReportData : Bytes → Bytes → Except Fault (Bytes × Option String)) (k : Zone.Tallies)
    (u data : Bytes) : Prop :=
  ∀ u' msg k' frame, setType2ReportData u data = .ok (u', some msg) →
    Zone.insertReport setCLCW setType2ReportData k u (.data data) = .ok (k', frame) → frame = u

/-- The report is of the right type, or there is no place for it, or it is there already. -/
def KeepsFrame (hasOperationalControl hasFrameErrorControl : Bool) (u data : Bytes) : Prop :=
  hasOperationalControl = false ∨ u.length < reportSpan hasFrameErrorControl ∨ reportTypeOf (data.headD 0) = 2 ∨
    (u.drop (u.length - reportSpan hasFrameErrorControl)).take 4 = data

variable {u t : Bytes} {b : Octet}

theorem reportSpan_ge (hasFrameErrorControl : Bool) : 4 ≤ reportSpan hasFrameErrorControl := by
  unfold reportSpan
  omega

/-! ## The functions -/

/-- A copy through a pointer that is `span` octets ahead of the end of the unit. -/
theorem copyUnitTo_end {span : ℕ} {src : Bytes} {ptr : ℤ} (hptr : ptr = u.length - span) (hsrc : src.length ≤ span) :
    copyUnitTo u ptr src =
      if u.length < span then .error (.bufferOverflow "Data copy failed, destination is below unit range.")
      else .ok (overwrite u (u.length - span) src) := by
  by_cases hshort : u.length < span
  · unfold copyUnitTo
    rw [if_pos hshort, if_pos (by omega)]
  · obtain rfl : ptr = ((u.length - span : ℕ) : ℤ) := by omega
    rw [if_neg hshort, copyUnitTo_natCast, copyUnit_ok (by omega)]

theorem tm_ptr_end (c : TM.Channel) (hocf : c.useOperationalControl = true) (u : Bytes) :
    c.ptrOperationalControl u = .ok ((u.length : ℤ) - reportSpan c.useFrameErrorControl) := by
  unfold TM.Channel.ptrOperationalControl TM.Channel.ptrData TM.Channel.nonDataLength reportSpan
  rw [if_pos hocf, if_pos hocf]
  congr 1
  simp only [TM.spanOperationalControlField, TM.spanFrameErrorControlField]
  split <;> omega

theorem aos_ptr_end (l : AOS.Layout) (hocf : l.hasOperationalControl = true) (u : Bytes) :
    l.ptrOperationalControl u = .ok ((u.length : ℤ) - reportSpan l.hasFrameErrorControl) := by
  unfold AOS.Layout.ptrOperationalControl AOS.Layout.ptrData AOS.Layout.nonDataLength AOS.Layout.headerByteLength
    reportSpan
  rw [if_pos hocf, if_pos hocf]
  congr 1
  simp only [AOS.spanOperationalControlField, AOS.spanFrameErrorControlField, AOS.spanRequiredHeader,
    AOS.ptrSignalingField, AOS.ptrVCFrameCount]
  split <;> omega

/-- **Setting a report** at a pointer that is the span of the report ahead of the end. -/
theorem set_eq_reported {ptr : Bytes → Except Fault ℤ} {hasFrameErrorControl : Bool}
    (hptr : ∀ u : Bytes, ptr u = .ok ((u.length : ℤ) - reportSpan hasFrameErrorControl)) (typeStr : String) (u : Bytes)
    (b : Octet) (ht : t.length = 3) :
    (do
      let p ← ptr u
      let u ← copyUnitTo u p (b :: t)
      let reportType ← (do
        let p ← ptr u
        let o ← octetAtPtr u p
        return reportTypeOf o)
      return (u, if reportType = 2 then none
        else some (malformedPayloadMsg typeStr "properly set report type bit"))) =
      reported typeStr true hasFrameErrorControl u b t := by
  have hspan := reportSpan_ge hasFrameErrorControl
  unfold reported
  rw [if_neg (by decide), hptr, ok_bind, copyUnitTo_end rfl (by rw [List.length_cons]; omega)]
  by_cases hshort : u.length < reportSpan hasFrameErrorControl
  · rw [if_pos hshort, if_pos hshort]
    rfl
  · have hfit : u.length - reportSpan hasFrameErrorControl + (b :: t).length ≤ u.length := by
      rw [List.length_cons]
      omega
    -- the octet that the type is read back from is the first one written
    rw [if_neg hshort, if_neg hshort, ok_bind, hptr, ok_bind, overwrite_length hfit,
      show (u.length : ℤ) - reportSpan hasFrameErrorControl = (u.length - reportSpan hasFrameErrorControl : ℕ) by
        omega, octetAtPtr_natCast, octetAt_overwrite_head hfit]
    rfl

theorem tm_set_eq (c : TM.Channel) (u : Bytes) (b : Octet) (ht : t.length = 3) : c.setType2ReportData u (b :: t) =
    reported "TM Transfer Frame" c.useOperationalControl c.useFrameErrorControl u b t := by
  cases hocf : c.useOperationalControl with
  | false =>
    unfold TM.Channel.setType2ReportData
    rw [hocf]
    rfl
  | true =>
    rw [← set_eq_reported (tm_ptr_end c hocf) "TM Transfer Frame" u b ht]
    unfold TM.Channel.setType2ReportData
    rw [hocf]
    rfl

theorem aos_set_eq (l : AOS.Layout) (u : Bytes) (b : Octet) (ht : t.length = 3) : l.setType2ReportData u (b :: t) =
    reported "AOS Transfer Frame" l.hasOperationalControl l.hasFrameErrorControl u b t := by
  cases hocf : l.hasOperationalControl with
  | false =>
    unfold AOS.Layout.setType2ReportData
    rw [hocf]
    rfl
  | true =>
    rw [← set_eq_reported (aos_ptr_end l hocf) "AOS Transfer Frame" u b ht]
    unfold AOS.Layout.setType2ReportData
    rw [hocf]
    rfl

/-! ## A report that is refused -/

/-- Writing what is there already. -/
theorem overwrite_eq_self_iff (u : Bytes) (dst : ℕ) (src : Bytes) :
    overwrite u dst src = u ↔ (u.drop dst).take src.length = src := by
  have hsplit : u = u.take dst ++ (u.drop dst).take src.length ++ u.drop (dst + src.length) := by
    rw [List.append_assoc, ← List.drop_drop, List.take_append_drop, List.take_append_drop]
  unfold overwrite
  constructor
  · intro h
    have hboth := h.trans hsplit
    rw [List.append_assoc, List.append_assoc, List.append_cancel_left_eq, List.append_cancel_right_eq] at hboth
    exact hboth.symm
  · intro h
    rw [h] at hsplit
    exact hsplit.symm

/-- **When a report that is refused leaves the frame as it was.** -/
theorem atomic_reported_iff {set : Bytes → Bytes → Except Fault (Bytes × Option String)} {typeStr : String}
    {hasOperationalControl hasFrameErrorControl : Bool} (ht : t.length = 3)
    (hset : set u (b :: t) = reported typeStr hasOperationalControl hasFrameErrorControl u b t) :
    Atomic set u (b :: t) ↔ KeepsFrame hasOperationalControl hasFrameErrorControl u (b :: t) := by
  have hspan := reportSpan_ge hasFrameErrorControl
  have hlen : (b :: t).length = 4 := by rw [List.length_cons, ht]
  unfold Atomic KeepsFrame
  rw [hset]
  unfold reported
  by_cases hocf : hasOperationalControl = false
  · rw [if_pos hocf]
    refine iff_of_true (fun _ _ h => ?_) (.inl hocf)
    cases h
  rw [if_neg hocf]
  by_cases hshort : u.length < reportSpan hasFrameErrorControl
  · rw [if_pos hshort]
    refine iff_of_true (fun _ _ h => ?_) (.inr (.inl hshort))
    cases h
  rw [if_neg hshort]
  by_cases htype : reportTypeOf b = 2
  · rw [if_pos htype]
    refine iff_of_true (fun _ _ h => ?_) (.inr (.inr (.inl htype)))
    cases h
  · rw [if_neg htype]
    have hsame := overwrite_eq_self_iff u (u.length - reportSpan hasFrameErrorControl) (b :: t)
    rw [hlen] at hsame
    constructor
    · intro h
      exact .inr (.inr (.inr (hsame.1 (h _ _ rfl))))
    · rintro (h | h | h | h) u' msg hrun
      · exact absurd h hocf
      · exact absurd h hshort
      · exact absurd h htype
      · obtain ⟨rfl, -⟩ := Prod.mk.inj (Except.ok.inj hrun)
        exact hsame.2 h

/-- A module sends the frame that the function leaves. -/
theorem atomicInModule_iff {setCLCW : Bytes → Bytes → Except Fault Bytes}
    {set : Bytes → Bytes → Except Fault (Bytes × Option String)} (k : Zone.Tallies) (ht : t.length = 3) :
    AtomicInModule setCLCW set k u (b :: t) ↔ Atomic set u (b :: t) := by
  have hfour : ¬(b :: t).length ≠ TM.spanOperationalControlField := by
    rw [List.length_cons, ht]
    exact not_not.2 rfl
  have hinsert : ∀ u' msg, set u (b :: t) = .ok (u', some msg) →
      Zone.insertReport setCLCW set k u (.data (b :: t)) = .ok (k.received (b :: t), u') := by
    intro u' msg hset
    unfold Zone.insertReport
    simp only
    rw [if_neg hfour, hset]
    rfl
  constructor
  · intro h u' msg hset
    exact h u' msg _ u' hset (hinsert u' msg hset)
  · intro h u' msg k' frame hset hrun
    obtain ⟨-, rfl⟩ := Prod.mk.inj (Except.ok.inj ((hinsert u' msg hset).symm.trans hrun))
    exact h u' msg hset

/-- **When setting a Type-2 report is atomic**, in a TM and in an AOS frame, and in the modules that insert
reports: if the type bit is set, or there is no place for the report, or it is there already. -/
theorem setType2ReportData_atomic_iff (c : TM.Channel) (l : AOS.Layout) (k : Zone.Tallies) (u : Bytes) {data : Bytes}
    (hdata : data.length = 4) :
    (Atomic c.setType2ReportData u data ↔ KeepsFrame c.useOperationalControl c.useFrameErrorControl u data) ∧
    (Atomic l.setType2ReportData u data ↔ KeepsFrame l.hasOperationalControl l.hasFrameErrorControl u data) ∧
    (AtomicInModule c.setCLCW c.setType2ReportData k u data ↔
      KeepsFrame c.useOperationalControl c.useFrameErrorControl u data) ∧
    (AtomicInModule l.setCLCW l.setType2ReportData k u data ↔
      KeepsFrame l.hasOperationalControl l.hasFrameErrorControl u data) := by
  cases data with
  | nil => cases hdata
  | cons b t =>
    have ht : t.length = 3 := Nat.succ.inj hdata
    have htm := atomic_reported_iff ht (tm_set_eq c u b ht)
    have haos := atomic_reported_iff ht (aos_set_eq l u b ht)
    exact ⟨htm, haos, (atomicInModule_iff k ht).trans htm, (atomicInModule_iff k ht).trans haos⟩

/-- A report with its type bit set. -/
theorem setType2ReportData_atomic_set : ([0x80, 0, 0, 7] : Bytes).length = 4 ∧
    Atomic (AOS.Layout.setType2ReportData { hasOperationalControl := true }) (newUnit 12) [0x80, 0, 0, 7] := by
  refine ⟨rfl, (setType2ReportData_atomic_iff { scid := 0, vcid := 0 } { hasOperationalControl := true } {}
    (newUnit 12) rfl).2.1.2 (.inr (.inr (.inl ?_)))⟩
  decide

/-- A report without its type bit replaces one with it, and is refused afterwards. -/
theorem valid_report_replaced :
    ¬Atomic (AOS.Layout.setType2ReportData { hasOperationalControl := true })
      [0x40, 0, 0, 0, 0, 0, 9, 0x80, 1, 2, 3] [0, 4, 5, 6] := by
  intro h
  have hsame := h [0x40, 0, 0, 0, 0, 0, 9, 0, 4, 5, 6]
    (malformedPayloadMsg "AOS Transfer Frame" "properly set report type bit") rfl
  exact absurd hsame (by decide)

end ChannelEmulator
