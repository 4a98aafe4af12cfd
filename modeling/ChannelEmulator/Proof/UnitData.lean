import ChannelEmulator.Framing.Run
import ChannelEmulator.Spec.UnitData

/-!
# What setting the data leaves of a unit

A unit is its header, its data and its trailer, in a row.

* `setUnitLength_length`, `setUnitLength_append`: a unit that grows.
* `setData_fits`, `setData_grows`, `setData_overlaps`: the cases of `setData`.
* `setData_preserves_iff`: **when header and trailer are kept**, and no copy overlaps.
-/

namespace ChannelEmulator

open Framing

variable {h d t data : Bytes} {behind : ℕ → Octet}

/-- Writing in the place of as many octets. -/
theorem overwrite_append (pre old src v : Bytes) (hlen : old.length = src.length) :
    overwrite (pre ++ old ++ v) pre.length src = pre ++ src ++ v := by
  unfold overwrite
  have htake : (pre ++ old ++ v).take pre.length = pre := by rw [List.append_assoc, List.take_left]
  rw [← hlen, ← List.length_append, List.drop_left, htake]

theorem setUnitLength_length (behind : ℕ → Octet) (u : Bytes) (newLen : ℕ) :
    (setUnitLength behind u newLen).length = newLen := by
  unfold setUnitLength
  rw [List.length_append, List.length_take, List.length_map, List.length_range']
  omega

/-- The octets of a unit that grows stay. -/
theorem setUnitLength_append (behind : ℕ → Octet) (u : Bytes) (n : ℕ) :
    ∃ grown, setUnitLength behind u (u.length + n) = u ++ grown ∧ grown.length = n := by
  refine ⟨(List.range' u.length (u.length + n - u.length)).map behind, ?_, ?_⟩
  · unfold setUnitLength
    rw [List.take_of_length_le (by omega)]
  · rw [List.length_map, List.length_range', Nat.add_sub_cancel_left]

/-- The type of a unit with this header and this trailer. -/
abbrev typeOf (h t : Bytes) : UnitType := ⟨h.length, t.length⟩

theorem getDataLength_eq (h d t : Bytes) : (typeOf h t).getDataLength (h ++ d ++ t) = d.length := by
  unfold UnitType.getDataLength
  simp only [List.length_append]
  omega

/-- Data that fits takes the first octets of the data field. -/
theorem setData_fits (hlen : data.length ≤ d.length) (allowResize : Bool) :
    setData (typeOf h t) behind (h ++ d ++ t) data allowResize = .ok (h ++ (data ++ d.drop data.length) ++ t) := by
  have hsplit : h ++ d ++ t = h ++ d.take data.length ++ (d.drop data.length ++ t) := by
    rw [List.append_assoc, List.append_assoc, ← List.append_assoc (d.take _), List.take_append_drop]
  unfold setData
  simp only [getDataLength_eq]
  rw [if_pos hlen, copyUnit_ok (by simp only [List.length_append]; omega), hsplit,
    overwrite_append h _ data _ (by rw [List.length_take]; omega)]
  simp only [List.append_assoc]
  rfl

theorem setData_refused (hlen : d.length < data.length) :
    setData (typeOf h t) behind (h ++ d ++ t) data false =
      .error (.bufferOverflow (bufferOverflowMsg "Data Field" data.length d.length), h ++ d ++ t) := by
  unfold setData
  simp only [getDataLength_eq]
  rw [if_neg (by omega)]
  rfl

/-- What is left to do for data that does not fit. -/
theorem setData_eq (h t : Bytes) (behind : ℕ → Octet) (hlen : d.length < data.length) :
    ∃ grown, grown.length = data.length - d.length ∧
      setData (typeOf h t) behind (h ++ d ++ t) data true = (do
        let moved ← relocateTrailer (h ++ d ++ t ++ grown) (h.length + data.length) (h.length + d.length) t.length
        leaving moved (copyUnit moved h.length data)) := by
  obtain ⟨grown, hgrown, hlength⟩ := setUnitLength_append behind (h ++ d ++ t) (data.length - d.length)
  refine ⟨grown, hlength, ?_⟩
  have htrailer : (h ++ d ++ t).length - (h.length + d.length) = t.length := by
    simp only [List.length_append]
    omega
  have hptr : h.length + data.length - (data.length - d.length) = h.length + d.length := by omega
  unfold setData
  simp only [getDataLength_eq, hgrown, htrailer, hptr]
  rw [if_neg (by omega), if_pos trivial]

/-- The trailer is copied to its new place, where that one is far enough. What is between the data and
the trailer then is of no account. -/
theorem relocateTrailer_ok (h d t grown : Bytes) (hfar : t.length ≤ grown.length) :
    ∃ gap : Bytes, gap.length = grown.length ∧
      relocateTrailer (h ++ d ++ t ++ grown) (h.length + d.length + grown.length) (h.length + d.length) t.length =
        .ok (h ++ (d ++ gap) ++ t) := by
  by_cases ht : t.length = 0
  · obtain rfl := List.length_eq_zero_iff.1 ht
    refine ⟨grown, rfl, ?_⟩
    unfold relocateTrailer
    rw [if_pos ht]
    simp only [List.append_nil, List.append_assoc]
  · obtain ⟨gap, last, hgap, hsplit⟩ : ∃ gap last : Bytes, gap.length = grown.length ∧ t ++ grown = gap ++ last :=
      ⟨(t ++ grown).take grown.length, (t ++ grown).drop grown.length,
        by rw [List.length_take, List.length_append]; omega, (List.take_append_drop _ _).symm⟩
    have hlast : last.length = t.length := by
      have := congrArg List.length hsplit
      simp only [List.length_append] at this
      omega
    have hunit : h ++ d ++ t ++ grown = h ++ d ++ gap ++ last ++ [] := by
      rw [List.append_nil, List.append_assoc, hsplit, ← List.append_assoc]
    have hsrc : ((h ++ d ++ t ++ grown).drop (h.length + d.length)).take t.length = t := by
      rw [List.append_assoc, ← List.length_append, List.drop_left, List.take_left]
    have hdst : h.length + d.length + grown.length = (h ++ d ++ gap).length := by
      simp only [List.length_append]
      omega
    refine ⟨gap, hgap, ?_⟩
    unfold relocateTrailer copyWithin
    rw [if_neg ht, if_neg (by simp only [List.length_append]; omega), if_neg (by omega), hsrc, hdst, hunit,
      overwrite_append _ last t [] hlast]
    simp only [List.append_nil, List.append_assoc]
    rfl

/-- **Data that does not fit** moves the trailer, where its two places do not overlap. -/
theorem setData_grows (hlen : d.length < data.length) (hfar : t.length ≤ data.length - d.length) :
    setData (typeOf h t) behind (h ++ d ++ t) data true = .ok (h ++ data ++ t) := by
  obtain ⟨grown, hgrown, heq⟩ := setData_eq h t behind hlen
  obtain ⟨gap, hgap, hmove⟩ := relocateTrailer_ok h d t grown (by omega)
  rw [show h.length + d.length + grown.length = h.length + data.length by omega] at hmove
  rw [heq, hmove, ok_bind, copyUnit_ok (by simp only [List.length_append]; omega),
    overwrite_append h _ data _ (by rw [List.length_append]; omega)]
  rfl

/-- Where the data grows by less than the trailer, the trailer is copied over itself. -/
theorem setData_overlaps (h : Bytes) (behind : ℕ → Octet) (hlen : d.length < data.length) (hnear : data.length - d.length < t.length) :
    ∃ u, setData (typeOf h t) behind (h ++ d ++ t) data true = .error (.overlappingCopy, u) := by
  obtain ⟨grown, hgrown, heq⟩ := setData_eq h t behind hlen
  refine ⟨h ++ d ++ t ++ grown, ?_⟩
  have hmove : relocateTrailer (h ++ d ++ t ++ grown) (h.length + data.length) (h.length + d.length) t.length =
      .error (.overlappingCopy, h ++ d ++ t ++ grown) := by
    unfold relocateTrailer copyWithin
    rw [if_neg (by omega), if_neg (by simp only [List.length_append]; omega), if_pos (by omega)]
    rfl
  rw [heq, hmove]
  rfl

/-- What `setData` should do: it keeps header and trailer and makes copies that are defined, and refuses
data that does not fit unless it may resize. -/
def SetsData (h d t data : Bytes) (behind : ℕ → Octet) (allowResize : Bool) : Prop :=
  setData (typeOf h t) behind (h ++ d ++ t) data allowResize =
    if data.length ≤ d.length then .ok (h ++ (data ++ d.drop data.length) ++ t)
    else if allowResize then .ok (h ++ data ++ t)
    else .error (.bufferOverflow (bufferOverflowMsg "Data Field" data.length d.length), h ++ d ++ t)

/-- **When header and trailer are kept**: unless the data grows by less than the trailer. -/
theorem setData_preserves_iff (h d t data : Bytes) (behind : ℕ → Octet) (allowResize : Bool) :
    SetsData h d t data behind allowResize ↔
      ¬(allowResize = true ∧ d.length < data.length ∧ data.length - d.length < t.length) := by
  unfold SetsData
  by_cases hlen : data.length ≤ d.length
  · rw [if_pos hlen]
    exact iff_of_true (setData_fits hlen allowResize) (by omega)
  · rw [if_neg hlen]
    cases allowResize with
    | false => exact iff_of_true (setData_refused (Nat.lt_of_not_le hlen)) (fun hresize => Bool.false_ne_true hresize.1)
    | true =>
      by_cases hfar : t.length ≤ data.length - d.length
      · exact iff_of_true (setData_grows (Nat.lt_of_not_le hlen) hfar) (by omega)
      · refine iff_of_false (fun hkeep => ?_) (fun hnot => hnot ⟨rfl, by omega, by omega⟩)
        obtain ⟨u, hu⟩ := setData_overlaps h behind (Nat.lt_of_not_le hlen) (Nat.lt_of_not_le hfar)
        rw [hu] at hkeep
        cases hkeep

/-- A frame with a control field and a checksum behind its data, which grows by one octet. -/
theorem trailer_copied_over_itself :
    ¬SetsData [0x40, 0, 0, 0, 0, 0] [1, 2] [1, 0, 0, 0, 0xab, 0xcd] [3, 4, 5] (fun _ => 0) true := by
  intro hkeep
  unfold SetsData at hkeep
  revert hkeep
  decide

end ChannelEmulator
