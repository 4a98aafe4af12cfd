import ChannelEmulator.Proof.UnitData
import Mathlib.Tactic.SplitIfs

/-!
# Filling a data field with a pattern

The loop advances by the length of the pattern. The patterns that `setFillPattern` takes are octets of any
number.

* `fillLoop_ok`, `fillLoop_inv`: what the loop writes, and what it needs to come to an end.
* `fills_iff`: **when the loop fills the data field**, in both places that have it.
* `setFromVector_ok`: what one of the functions `setFillPattern` leaves; the other one throws.
* `fill_pattern_iff`: **when a pattern is set, returned, and fills what it should**.
-/

namespace ChannelEmulator

open Framing

variable {copy : Bytes → ℕ → Bytes → Except Fault Bytes} {pattern : Bytes} {dst n : ℕ}

/-- The octets that are written. -/
theorem getElem?_overwrite_inside {u src : Bytes} {k : ℕ} (hfit : dst + src.length ≤ u.length)
    (hk : k < src.length) : (overwrite u dst src)[dst + k]? = src[k]? := by
  have htake : (u.take dst).length = dst := by rw [List.length_take]; omega
  unfold overwrite
  rw [List.append_assoc, List.getElem?_append_right (by omega), htake, Nat.add_sub_cancel_left,
    List.getElem?_append_left hk]

/-- A unit with the octets from `lo` to `hi` filled with a pattern. -/
def Filled (u pattern : Bytes) (lo hi : ℕ) (out : Bytes) : Prop :=
  out.length = u.length ∧ ∀ j, out[j]? =
    if lo ≤ j ∧ j < hi then pattern[(j - lo) % pattern.length]? else u[j]?

/-- **The loop fills from `dst + i` to `dst + n`** with the pattern, which is not empty. -/
theorem fillLoop_ok (hcopy : ∀ {u dst src}, dst + src.length ≤ u.length → copy u dst src = .ok (overwrite u dst src))
    (hne : pattern ≠ []) (dst n fuel i : ℕ) {u : Bytes} (hfuel : n ≤ i + fuel) (hfit : dst + n ≤ u.length) :
    ∃ out, fillLoop copy pattern dst n fuel i u = .ok out ∧ Filled u pattern (dst + i) (dst + n) out := by
  have hpos : 0 < pattern.length := List.length_pos_iff.2 hne
  induction fuel generalizing i u with
  | zero =>
    refine ⟨u, ?_, rfl, fun j => ?_⟩
    · unfold fillLoop
      rw [if_neg (by omega)]
    · rw [if_neg (by omega)]
  | succ fuel ih =>
    unfold fillLoop
    by_cases hi : i < n
    · have hlen : (pattern.take (n - i)).length = min (n - i) pattern.length := List.length_take
      have hchunk : dst + i + (pattern.take (n - i)).length ≤ u.length := by omega
      obtain ⟨out, hout, houtlen, hoctets⟩ := ih (i + pattern.length)
        (u := overwrite u (dst + i) (pattern.take (n - i))) (by omega) (by rw [overwrite_length hchunk]; exact hfit)
      refine ⟨out, ?_, houtlen.trans (overwrite_length hchunk), fun j => ?_⟩
      · rw [if_pos hi]
        simp only
        rw [hcopy hchunk, ok_bind, hout]
      · rw [hoctets]
        by_cases hlo : dst + i ≤ j ∧ j < dst + n
        · rw [if_pos hlo]
          by_cases hnext : dst + (i + pattern.length) ≤ j
          · -- the octets of the later passes
            rw [if_pos ⟨hnext, hlo.2⟩, show j - (dst + i) = j - (dst + (i + pattern.length)) + pattern.length by omega,
              Nat.add_mod_right]
          · obtain ⟨k, rfl⟩ : ∃ k, j = dst + i + k := ⟨j - (dst + i), by omega⟩
            rw [if_neg fun h => hnext h.1, getElem?_overwrite_inside hchunk (by omega), Nat.add_sub_cancel_left,
              Nat.mod_eq_of_lt (by omega), List.getElem?_take_of_lt (by omega)]
        · rw [if_neg hlo, if_neg (by omega), getElem?_overwrite hchunk (by omega)]
    · refine ⟨u, ?_, rfl, fun j => ?_⟩
      · rw [if_neg hi]
      · rw [if_neg (by omega)]

/-- A loop that comes to an end has a pattern, and a place for all that it fills. -/
theorem fillLoop_inv (hcopy : ∀ {u dst src out}, copy u dst src = .ok out →
      dst + src.length ≤ u.length ∧ out.length = u.length)
    (fuel i : ℕ) {u out : Bytes} (hrun : fillLoop copy pattern dst n fuel i u = .ok out) (hi : i < n) :
    pattern ≠ [] ∧ dst + n ≤ u.length := by
  induction fuel generalizing i u with
  | zero =>
    unfold fillLoop at hrun
    rw [if_pos hi] at hrun
    cases hrun
  | succ fuel ih =>
    unfold fillLoop at hrun
    rw [if_pos hi] at hrun
    obtain ⟨u', hchunk, hrest⟩ := bind_ok hrun
    obtain ⟨hfit, hlen⟩ := hcopy hchunk
    rw [List.length_take] at hfit
    by_cases hlast : i + pattern.length < n
    · obtain ⟨hne, hend⟩ := ih (i + pattern.length) hrest hlast
      exact ⟨hne, hlen ▸ hend⟩
    · refine ⟨fun h => hlast ?_, by omega⟩
      rw [h]
      exact hi

theorem copyUnit_inv {u src out : Bytes} (h : copyUnit u dst src = .ok out) :
    dst + src.length ≤ u.length ∧ out.length = u.length := by
  unfold copyUnit at h
  split_ifs at h with hlt
  obtain rfl := Except.ok.inj h
  exact ⟨by omega, overwrite_length (by omega)⟩

theorem storeAt_inv {u src out : Bytes} (h : storeAt u dst src = .ok out) :
    dst + src.length ≤ u.length ∧ out.length = u.length := by
  unfold storeAt at h
  split_ifs at h with hlt
  obtain rfl := Except.ok.inj h
  exact ⟨by omega, overwrite_length (by omega)⟩

theorem storeAt_ok {u src : Bytes} (h : dst + src.length ≤ u.length) :
    storeAt u dst src = .ok (overwrite u dst src) := by
  unfold storeAt
  rw [if_neg (by omega)]

/-! ## The data field -/

/-- A fill start inside a unit of a type. -/
structure StartIn (t : UnitType) (u : Bytes) (start : ℕ) : Prop where
  zones : t.headerLength + t.trailerLength ≤ u.length
  length_lt : u.length < 18446744073709551616
  start_le : t.headerLength + start ≤ u.length

/-- A result is the unit with its data field filled from `start` on, and nothing else changed. -/
def FillsData (t : UnitType) (u pattern : Bytes) (start : ℕ) (result : Except Fault Bytes) : Prop :=
  ∃ out, result = .ok out ∧ Filled u pattern (t.headerLength + start) (u.length - t.trailerLength) out

/-- **When the loop fills the data field**: it starts in it, and the pattern is not empty or has nothing
to fill. -/
theorem fills_iff {t : UnitType} {u : Bytes} {start : ℕ} (hstart : StartIn t u start)
    (hcopy : ∀ {u dst src}, dst + src.length ≤ u.length → copy u dst src = .ok (overwrite u dst src))
    (hinv : ∀ {u dst src out}, copy u dst src = .ok out → dst + src.length ≤ u.length ∧ out.length = u.length) :
    FillsData t u pattern start (fillLoop copy pattern (t.headerLength + start)
      (sizeDiff (t.getDataLength u) start) (sizeDiff (t.getDataLength u) start) 0 u) ↔
    start ≤ t.getDataLength u ∧ (pattern ≠ [] ∨ start = t.getDataLength u) := by
  obtain ⟨hzones, hlen, hle⟩ := hstart
  have hdata : t.headerLength + t.getDataLength u = u.length - t.trailerLength := by
    unfold UnitType.getDataLength
    omega
  constructor
  · rintro ⟨out, hrun, -⟩
    rcases Nat.eq_zero_or_pos (sizeDiff (t.getDataLength u) start) with hzero | hpos
    · unfold sizeDiff at hzero
      split_ifs at hzero with hin
      · exact ⟨hin, .inr (by omega)⟩
      · omega
    · obtain ⟨hne, hend⟩ := fillLoop_inv hinv _ 0 hrun hpos
      refine ⟨?_, .inl hne⟩
      by_contra hout
      unfold sizeDiff at hend
      rw [if_neg hout] at hend
      omega
  · rintro ⟨hin, hpattern⟩
    have hcount : sizeDiff (t.getDataLength u) start = t.getDataLength u - start := if_pos hin
    rw [hcount]
    by_cases hne : pattern = []
    · obtain rfl := hpattern.resolve_left fun h => h hne
      refine ⟨u, ?_, rfl, fun j => ?_⟩
      · unfold fillLoop
        rw [if_neg (by omega)]
      · rw [if_neg (by omega)]
    · obtain ⟨out, hrun, hfilled⟩ := fillLoop_ok hcopy hne (t.headerLength + start)
        (t.getDataLength u - start) (t.getDataLength u - start) 0 (u := u) (by omega) (by omega)
      refine ⟨out, hrun, ?_⟩
      rwa [Nat.add_zero, show t.headerLength + start + (t.getDataLength u - start) = u.length - t.trailerLength by
        omega] at hfilled

theorem setDataToPattern_iff (pattern : Bytes) {t : UnitType} {u : Bytes} {offset : ℕ} (hstart : StartIn t u offset) :
    FillsData t u pattern offset (setDataToPattern t u pattern offset) ↔
      offset ≤ t.getDataLength u ∧ (pattern ≠ [] ∨ offset = t.getDataLength u) :=
  fills_iff hstart copyUnit_ok copyUnit_inv

theorem addFill_iff (pattern : Bytes) {u : Bytes} {fillIdx : ℕ} (hstart : StartIn .mpdu u fillIdx) :
    FillsData .mpdu u pattern fillIdx (addFill u pattern fillIdx) ↔
      fillIdx ≤ UnitType.mpdu.getDataLength u ∧ (pattern ≠ [] ∨ fillIdx = UnitType.mpdu.getDataLength u) :=
  fills_iff hstart storeAt_ok storeAt_inv

/-! ## The pattern that is set -/

namespace FillPattern

/-- A slot that is stored, in the place of an old one or behind the last one. -/
theorem exists_stored {α : Type} {setting : List α} {i : ℕ} (a : α) (hi : i ≤ setting.length) : ∃ next,
    next = (if setting.length < i + 1 then setting ++ [a] else setting.set i a) ∧ i + 1 ≤ next.length ∧
      next.take (i + 1) = setting.take i ++ [a] := by
  refine ⟨_, rfl, ?_⟩
  split_ifs with hlt
  · obtain rfl : i = setting.length := by omega
    rw [List.length_append, List.take_of_length_le (by rw [List.length_append, List.length_singleton]),
      List.take_length]
    exact ⟨le_rfl, rfl⟩
  · rw [List.length_set, List.take_add_one, List.getElem?_set_self (by omega), List.take_set_of_le le_rfl]
    exact ⟨by omega, rfl⟩

/-- The octets are stored one after the other, in the unit and in the setting. -/
theorem storeFill_ok (fill : Bytes) (i : ℕ) (u : Bytes) (setting : List Octet) (hu : i + fill.length ≤ u.length)
    (hsetting : i ≤ setting.length) : ∃ setting', storeFill fill i u setting =
      .ok (overwrite u i fill, setting') ∧ setting'.take (i + fill.length) = setting.take i ++ fill := by
  induction fill generalizing i u setting with
  | nil =>
    refine ⟨setting, ?_, by rw [List.append_nil]; rfl⟩
    unfold storeFill overwrite
    rw [List.append_nil, List.length_nil, Nat.add_zero, List.take_append_drop]
  | cons b fill ih =>
    rw [List.length_cons] at hu
    obtain ⟨next, hnext, hnextlen, hnexttake⟩ := exists_stored b hsetting
    obtain ⟨setting', hrun, htake⟩ := ih (i + 1) (u.set i b) next
      (by rw [List.length_set]; omega) hnextlen
    refine ⟨setting', ?_, ?_⟩
    · unfold storeFill
      rw [storeAt_one (by omega), ok_bind, ← hnext, hrun]
      unfold overwrite
      rw [List.take_add_one, List.getElem?_set_self (by omega), List.take_set_of_le le_rfl,
        List.drop_set_of_lt (by omega), List.length_cons, show i + 1 + fill.length = i + (fill.length + 1) by omega]
      simp only [Option.toList_some, List.append_assoc, List.singleton_append]
    · rw [List.length_cons, show i + (fill.length + 1) = i + 1 + fill.length by omega, htake, hnexttake,
        List.append_assoc, List.singleton_append]

/-- **A pattern that is given as a vector is set**, also in the setting. -/
theorem setFromVector_ok (behind : ℕ → Octet) (s : FillPattern) (fill : Bytes) :
    setFromVector behind s fill = .ok ⟨fill, fill, false⟩ := by
  have hlen := setUnitLength_length behind s.fillPattern fill.length
  obtain ⟨setting', hrun, htake⟩ := storeFill_ok fill 0 (setUnitLength behind s.fillPattern fill.length)
    s.fillPatternSetting (by omega) (Nat.zero_le _)
  rw [Nat.zero_add, List.take_zero, List.nil_append] at htake
  have hall : overwrite (setUnitLength behind s.fillPattern fill.length) 0 fill = fill := by
    unfold overwrite
    rw [List.take_zero, List.nil_append, List.drop_of_length_le (by omega), List.append_nil]
  unfold setFromVector
  simp only [hrun, Except.mapError, ok_bind, htake, hall]
  rfl

/-- A pattern that is given as a unit is refused. -/
theorem setFromUnit_error (behind : ℕ → Octet) (s : FillPattern) (fill : Bytes) :
    ∃ e, setFromUnit behind s fill = .error e := by
  unfold setFromUnit
  split <;> exact ⟨_, rfl⟩

/-- A pattern is set, is the one that is returned, and fills the data field of a unit and the packet zone of
an M_PDU. -/
def FillSafe (overload : Overload) (behind : ℕ → Octet) (s : FillPattern) (fill : Bytes) (t : UnitType) (u : Bytes)
    (offset : ℕ) (mpdu : Bytes) (fillIdx : ℕ) : Prop :=
  ∃ s', setFillPattern overload behind s fill = .ok s' ∧ getFillPattern s' = fill ∧
    FillsData t u fill offset (setDataToPattern t u s'.fillPattern offset) ∧
    FillsData .mpdu mpdu fill fillIdx (addFill mpdu s'.fillPattern fillIdx)

/-- **When a pattern is set, returned, and fills what it should**: it is given as a vector, what is filled
starts in the data field, and the pattern is not empty or has nothing to fill. -/
theorem fill_pattern_iff (overload : Overload) (behind : ℕ → Octet) (s : FillPattern) (fill : Bytes)
    {t : UnitType} {u mpdu : Bytes} {offset fillIdx : ℕ} (hoffset : StartIn t u offset)
    (hfillIdx : StartIn .mpdu mpdu fillIdx) :
    FillSafe overload behind s fill t u offset mpdu fillIdx ↔
      overload = .vector ∧ offset ≤ t.getDataLength u ∧
        (fill ≠ [] ∨ offset = t.getDataLength u ∧ fillIdx = UnitType.mpdu.getDataLength mpdu) := by
  have hidx : fillIdx ≤ UnitType.mpdu.getDataLength mpdu := by
    have hle : 2 + fillIdx ≤ mpdu.length := hfillIdx.start_le
    show fillIdx ≤ mpdu.length - 2 - 0
    omega
  unfold FillSafe
  cases overload with
  | unit =>
    refine iff_of_false (fun h => ?_) (fun h => by cases h.1)
    obtain ⟨s', hset, -⟩ := h
    obtain ⟨e, he⟩ := setFromUnit_error behind s fill
    rw [show setFillPattern .unit behind s fill = setFromUnit behind s fill from rfl, he] at hset
    cases hset
  | vector =>
    have hset : setFillPattern .vector behind s fill = .ok ⟨fill, fill, false⟩ := setFromVector_ok behind s fill
    have hfills := setDataToPattern_iff fill hoffset
    have hadds := addFill_iff fill hfillIdx
    constructor
    · rintro ⟨s', hs', -, hdata, hzone⟩
      obtain rfl := Except.ok.inj (hset.symm.trans hs')
      obtain ⟨hin, hne⟩ := hfills.1 hdata
      obtain ⟨-, hne'⟩ := hadds.1 hzone
      by_cases hfill : fill = []
      · exact ⟨rfl, hin, .inr ⟨hne.resolve_left fun h => h hfill, hne'.resolve_left fun h => h hfill⟩⟩
      · exact ⟨rfl, hin, .inl hfill⟩
    · rintro ⟨-, hin, hfill⟩
      exact ⟨_, hset, rfl, hfills.2 ⟨hin, hfill.imp_right And.left⟩, hadds.2 ⟨hidx, hfill.imp_right And.right⟩⟩

/-- One octet of a frame and one of an M_PDU are filled with `E0`. -/
theorem fill_pattern_one : StartIn ⟨1, 1⟩ [1, 2, 3] 0 ∧ StartIn .mpdu [0, 0, 7] 0 ∧
    FillSafe .vector (fun _ => 0) (new []) [0xE0] ⟨1, 1⟩ [1, 2, 3] 0 [0, 0, 7] 0 := by
  have hframe : StartIn ⟨1, 1⟩ [1, 2, 3] 0 := ⟨by decide, by decide, by decide⟩
  have hmpdu : StartIn .mpdu [0, 0, 7] 0 := ⟨by decide, by decide, by decide⟩
  refine ⟨hframe, hmpdu, (fill_pattern_iff .vector _ _ _ hframe hmpdu).2 ⟨rfl, by decide, .inl (by decide)⟩⟩

/-- An empty pattern is set, and fills one octet for ever; a pattern that is given as a unit is not set. -/
theorem fill_unsafe : ¬FillSafe .vector (fun _ => 0) (new []) [] ⟨1, 1⟩ [1, 2, 3] 0 [0, 0, 7] 0 ∧
    ¬FillSafe .unit (fun _ => 0) (new []) [0xE0] ⟨1, 1⟩ [1, 2, 3] 0 [0, 0, 7] 0 := by
  constructor
  · rintro ⟨s', hset, -, ⟨out, hout, -⟩, -⟩
    obtain rfl := Except.ok.inj ((setFromVector_ok (fun _ => 0) (new []) []).symm.trans hset)
    cases hout
  · rintro ⟨s', hset, -⟩
    cases hset

end FillPattern

end ChannelEmulator
