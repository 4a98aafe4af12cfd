import ChannelEmulator.Framing.Run
import ChannelEmulator.Spec.PhaseDetection
import Mathlib.Data.List.FinRange

/-!
# What the detection of the phase finds

A block is searched at every offset but the last one at which the marker fits, and outside of itself where
the marker does not fit.

* `inTableAt_eq`: what a test at an offset says, where no bit errors are allowed.
* `findInTable_some`, `findInTable_none`: the tests of all settings at an offset.
* `countShifts_ok`, `countShifts_error`: the loop over the offsets.
* `findShift_iff`: **when the search stays in the block and selects the one setting of its marker**.
-/

namespace ChannelEmulator.PhaseAmbiguity.Detect

open Framing

/-- The row of the table for a setting: the marker shifted, and inverted. -/
def row (marker : Bytes) (c : Setting) : Bytes := (shiftMarker c.leftShiftBits marker).map c.flip

/-- The bits of the octet `k` of a marker of length `n` that are the marker's, after the shift. -/
def mask (c : Setting) (n k : ℕ) : Octet := if k + 1 = n then shl 0xff c.leftShiftBits else 0xff

/-- The marker stands in a block at `offset`, with a shift and inversion. -/
def OccursAt (marker : Bytes) (c : Setting) (data : Bytes) (offset : ℕ) : Prop :=
  offset + marker.length ≤ data.length ∧ ∀ k < marker.length,
    data.getD (offset + k) 0 &&& mask c marker.length k = (row marker c).getD k 0 &&& mask c marker.length k

/-- The marker stands somewhere in a block. -/
def Occurs (marker : Bytes) (c : Setting) (data : Bytes) : Prop := ∃ offset, OccursAt marker c data offset

/-- The marker stands in a block with one shift and inversion only. -/
def OccursOnly (marker : Bytes) (c : Setting) (data : Bytes) : Prop := ∀ c', Occurs marker c' data ↔ c' = c

/-- The search stays in the block, and selects the one setting of the marker. -/
def Detects (d : Detector) (data : Bytes) : Prop :=
  ∃ d', findShift d data = .ok d' ∧ ∀ c, OccursOnly d.marker.octets c data → d'.setting = c

variable {d : Detector} {data : Bytes}

/-! ## The table -/

theorem shiftMarker_length (bits : ℕ) (marker : Bytes) : (shiftMarker bits marker).length = marker.length := by
  fun_induction shiftMarker bits marker with
  | case1 => rfl
  | case2 => rfl
  | case3 a b rest ih => rw [List.length_cons, ih, List.length_cons, List.length_cons, List.length_cons]

theorem row_length (marker : Bytes) (c : Setting) : (row marker c).length = marker.length := by
  unfold row
  rw [List.length_map, shiftMarker_length]

/-- The row that is looked up. -/
theorem markerTable_getD (marker : Bytes) (c : Setting) :
    (markerTable marker).getD (if c.invert then c.leftShiftBits + 8 else c.leftShiftBits) [] = row marker c := by
  obtain ⟨bits, invert, hbits⟩ := c
  unfold markerTable row Setting.flip
  simp only
  have hrow : ((List.range 8).map fun n => shiftMarker n marker)[bits]? = some (shiftMarker bits marker) := by
    rw [List.getElem?_map, List.getElem?_range (by omega)]
    rfl
  cases invert with
  | false =>
    simp only [Bool.false_eq_true, if_false, List.map_id_fun', id_eq]
    rw [List.getD_append _ _ _ _ (by rw [List.length_map, List.length_range]; omega),
      List.getD_eq_getElem?_getD, hrow]
    rfl
  | true =>
    simp only [if_true]
    rw [List.getD_append_right _ _ _ _ (by rw [List.length_map, List.length_range]; omega),
      List.length_map, List.length_range, Nat.add_sub_cancel, List.getD_eq_getElem?_getD, List.getElem?_map, hrow]
    rfl

theorem mem_settings (c : Setting) : c ∈ settings := by
  obtain ⟨bits, invert, hbits⟩ := c
  refine List.mem_flatMap.2 ⟨⟨bits, by omega⟩, List.mem_finRange _, ?_⟩
  cases invert with
  | false => exact List.mem_cons_self
  | true => exact List.mem_cons_of_mem _ List.mem_cons_self

/-! ## One test -/

theorem countBits_zero : countBits 0 = 0 := by decide

/-- Octets that are all the same. -/
theorem compareOctets_eq {row buffer : Bytes} {start count offset : ℕ}
    (hrow : offset + count ≤ row.length) (hbuf : start + offset + count ≤ buffer.length) :
    compareOctets 0 row buffer start count offset 0 =
      .ok (if ∀ k < count, buffer.getD (start + offset + k) 0 = row.getD (offset + k) 0 then some 0 else none) := by
  induction count generalizing offset with
  | zero =>
    rw [if_pos fun k hk => absurd hk (Nat.not_lt_zero k)]
    rfl
  | succ count ih =>
    have hexpected := getElem?_of_lt (show offset < row.length by omega)
    have hoctet := getElem?_of_lt (show start + offset < buffer.length by omega)
    unfold compareOctets
    rw [octetAt_of_getElem? hexpected, octetAt_of_getElem? hoctet, ok_bind, ok_bind]
    by_cases heq : row.getD offset 0 = buffer.getD (start + offset) 0
    · have hxor : buffer.getD (start + offset) 0 ^^^ row.getD offset 0 = 0 := by rw [heq, UInt8.xor_self]
      simp only [hxor, countBits_zero, Nat.add_zero]
      rw [if_neg fun h => h.1 heq, if_neg (Nat.lt_irrefl 0), ih (by omega) (by omega)]
      congr 1
      refine if_congr ⟨fun h k hk => ?_, fun h k hk => ?_⟩ rfl rfl
      · cases k with
        | zero => exact heq.symm
        | succ k =>
          have hk' := h k (by omega)
          rwa [show start + (offset + 1) + k = start + offset + (k + 1) by omega,
            show offset + 1 + k = offset + (k + 1) by omega] at hk'
      · have hk' := h (k + 1) (by omega)
        rwa [show start + (offset + 1) + k = start + offset + (k + 1) by omega,
          show offset + 1 + k = offset + (k + 1) by omega]
    · rw [if_pos ⟨heq, rfl⟩, if_neg fun h => heq (h 0 (by omega)).symm]
      rfl

theorem and_mask (b : Octet) : b &&& 0xff = b := by
  refine UInt8.toNat_inj.1 ?_
  rw [UInt8.toNat_and]
  exact Nat.and_two_pow_sub_one_of_lt_two_pow (n := 8) b.toNat_lt

/-- The marker stands at an offset if its octets but the last one, and the bits of that one, do. -/
theorem occursAt_iff {marker : Bytes} (hne : marker ≠ []) {c : Setting} {offset : ℕ}
    (hfit : offset + marker.length ≤ data.length) : OccursAt marker c data offset ↔
      (∀ k < marker.length - 1, data.getD (offset + k) 0 = (row marker c).getD k 0) ∧
      (row marker c).getD (marker.length - 1) 0 &&& shl 0xff c.leftShiftBits =
        data.getD (offset + (marker.length - 1)) 0 &&& shl 0xff c.leftShiftBits := by
  have hpos : 0 < marker.length := List.length_pos_iff.2 hne
  unfold OccursAt mask
  constructor
  · rintro ⟨-, h⟩
    refine ⟨fun k hk => ?_, ?_⟩
    · have hk' := h k (by omega)
      rwa [if_neg (by omega), and_mask, and_mask] at hk'
    · have hlast := h (marker.length - 1) (by omega)
      rw [if_pos (by omega)] at hlast
      exact hlast.symm
  · rintro ⟨hfull, hlast⟩
    refine ⟨hfit, fun k hk => ?_⟩
    by_cases hk' : k + 1 = marker.length
    · obtain rfl : k = marker.length - 1 := by omega
      rw [if_pos hk', hlast]
    · rw [if_neg hk', and_mask, and_mask]
      exact hfull k (by omega)

/-- **A test says whether the marker stands there**, where it fits. -/
theorem inTableAt_eq (hd : d.allowedMarkerBitErrors = 0) {offset : ℕ} (c : Setting)
    (hfit : offset + d.marker.octets.length ≤ data.length) :
    ∃ found, inTableAt d data offset c = .ok found ∧ (found = true ↔ OccursAt d.marker.octets c data offset) := by
  have hpos : 0 < d.marker.octets.length := List.length_pos_iff.2 d.marker.ne_nil
  have hrow := row_length d.marker.octets c
  have hexpected := getElem?_of_lt
    (show d.marker.octets.length - 1 < (row d.marker.octets c).length by omega)
  have hoctet := getElem?_of_lt (show offset + (d.marker.octets.length - 1) < data.length by omega)
  rw [occursAt_iff d.marker.ne_nil hfit]
  unfold inTableAt
  simp only [markerTable_getD, hd]
  rw [compareOctets_eq (by omega) (by omega), ok_bind]
  simp only [Nat.add_zero, Nat.zero_add]
  by_cases hfull : ∀ k < d.marker.octets.length - 1,
      data.getD (offset + k) 0 = (row d.marker.octets c).getD k 0
  · rw [if_pos hfull]
    refine ⟨_, ?_, decide_eq_true_iff.trans (and_iff_right hfull).symm⟩
    simp only [octetAt_of_getElem? hexpected, octetAt_of_getElem? hoctet, ok_bind, if_true]
    rfl
  · rw [if_neg hfull]
    exact ⟨false, rfl, iff_of_false Bool.false_ne_true fun h => hfull h.1⟩

/-- A test from the end of a block on reads an octet behind it. -/
theorem inTableAt_error {offset : ℕ} (c : Setting) (h : data.length ≤ offset) :
    inTableAt d data offset c = .error .outOfBounds := by
  have hpos : 0 < d.marker.octets.length := List.length_pos_iff.2 d.marker.ne_nil
  have hrow := row_length d.marker.octets c
  have hread : ∀ k, octetAt data (offset + k) = .error .outOfBounds := by
    intro k
    unfold octetAt
    rw [List.getElem?_eq_none (by omega)]
  unfold inTableAt
  simp only [markerTable_getD]
  cases hlast : d.marker.octets.length - 1 with
  | zero =>
    have hexpected := getElem?_of_lt (show 0 < (row d.marker.octets c).length by omega)
    unfold compareOctets
    simp only [ok_bind, octetAt_of_getElem? hexpected, hread]
    rfl
  | succ last =>
    have hexpected := getElem?_of_lt (show 0 < (row d.marker.octets c).length by omega)
    unfold compareOctets
    simp only [octetAt_of_getElem? hexpected, hread, ok_bind]
    rfl

/-! ## All tests at an offset -/

theorem firstInTable_spec (hd : d.allowedMarkerBitErrors = 0) {offset : ℕ}
    (hfit : offset + d.marker.octets.length ≤ data.length) (cs : List Setting) :
    ∃ found, firstInTable d data offset cs = .ok found ∧
      (∀ c, found = some c → OccursAt d.marker.octets c data offset) ∧
      (found = none → ∀ c ∈ cs, ¬OccursAt d.marker.octets c data offset) := by
  induction cs with
  | nil =>
    refine ⟨none, rfl, fun c h => ?_, fun _ _ h => absurd h List.not_mem_nil⟩
    cases h
  | cons c cs ih =>
    obtain ⟨here, htest, hhere⟩ := inTableAt_eq hd c hfit
    unfold firstInTable
    rw [htest, ok_bind]
    cases here with
    | true =>
      refine ⟨some c, rfl, fun c' h => ?_, fun h => by cases h⟩
      obtain rfl := Option.some.inj h
      exact hhere.1 rfl
    | false =>
      obtain ⟨found, hrest, hsome, hnone⟩ := ih
      refine ⟨found, hrest, hsome, fun h => List.forall_mem_cons.2 ⟨fun ho => ?_, hnone h⟩⟩
      exact absurd (hhere.2 ho) Bool.false_ne_true

/-- A setting is found at an offset just when the marker stands there with one. -/
theorem findInTable_spec (data : Bytes) (hd : d.allowedMarkerBitErrors = 0) (offset : ℕ)
    (hfit : offset + d.marker.octets.length ≤ data.length) :
    ∃ found, findInTable d data offset = .ok found ∧
      (∀ c, found = some c → OccursAt d.marker.octets c data offset) ∧
      (found = none → ∀ c, ¬OccursAt d.marker.octets c data offset) := by
  obtain ⟨found, hfound, hsome, hnone⟩ := firstInTable_spec hd hfit (d.setting :: settings)
  exact ⟨found, hfound, hsome, fun h c => hnone h c (List.mem_cons_of_mem _ (mem_settings c))⟩

theorem findInTable_error {offset : ℕ} (h : data.length ≤ offset) :
    findInTable d data offset = .error .outOfBounds := by
  unfold findInTable firstInTable
  rw [inTableAt_error d.setting h]
  rfl

/-! ## The loop over the offsets -/

/-- **The loop counts settings with which the marker stands at its offsets**, and one for each offset at
which there is one. -/
theorem countShifts_ok (data : Bytes) (hd : d.allowedMarkerBitErrors = 0) (count offset : ℕ) (counters : Setting → ℕ)
    (hfit : offset + count + d.marker.octets.length ≤ data.length + 1) :
    ∃ counters', countShifts d data count offset counters = .ok counters' ∧
      (∀ c, counters c ≤ counters' c) ∧
      (∀ c, counters c < counters' c → ∃ k < count, OccursAt d.marker.octets c data (offset + k)) ∧
      ∀ k < count, (∃ c, OccursAt d.marker.octets c data (offset + k)) → ∃ c, counters c < counters' c := by
  induction count generalizing offset counters with
  | zero =>
    exact ⟨counters, rfl, fun _ => le_rfl, fun c h => absurd h (lt_irrefl _), fun k hk => absurd hk (Nat.not_lt_zero k)⟩
  | succ count ih =>
    have hnext : ∀ k, offset + 1 + k = offset + (k + 1) := fun k => by omega
    obtain ⟨found, hfound, hsome, hnone⟩ := findInTable_spec data hd offset (by omega)
    unfold countShifts
    rw [hfound, ok_bind]
    cases found with
    | none =>
      obtain ⟨counters', hrun, hle, hocc, hcount⟩ := ih (offset + 1) counters (by omega)
      refine ⟨counters', hrun, hle, fun c hc => ?_, fun k hk => ?_⟩
      · obtain ⟨k, hk, ho⟩ := hocc c hc
        exact ⟨k + 1, by omega, hnext k ▸ ho⟩
      · rintro ⟨c, hc⟩
        cases k with
        | zero => exact absurd hc (hnone rfl c)
        | succ k => exact hcount k (by omega) ⟨c, by rwa [hnext]⟩
    | some f =>
      obtain ⟨counters', hrun, hle, hocc, -⟩ := ih (offset + 1)
        (fun c => if c = f then counters c + 1 else counters c) (by omega)
      have hf : counters f < counters' f := by
        have := hle f
        rw [if_pos rfl] at this
        omega
      refine ⟨counters', hrun, fun c => ?_, fun c hc => ?_, fun _ _ _ => ⟨f, hf⟩⟩
      · have := hle c
        split at this <;> omega
      · by_cases hcf : c = f
        · exact ⟨0, by omega, hcf ▸ hsome f rfl⟩
        · obtain ⟨k, hk, ho⟩ := hocc c (by rwa [if_neg hcf])
          exact ⟨k + 1, by omega, hnext k ▸ ho⟩

/-- A loop that goes past the end of the block reads behind it. -/
theorem countShifts_error (d : Detector) {data : Bytes} {count offset : ℕ} (counters : Setting → ℕ)
    (h : data.length < offset + count) (hle : offset ≤ data.length) :
    ∃ e, countShifts d data count offset counters = .error e := by
  induction count generalizing offset counters with
  | zero => omega
  | succ count ih =>
    unfold countShifts
    rcases hle.lt_or_eq with hlt | rfl
    · cases hfound : findInTable d data offset with
      | error e => exact ⟨e, rfl⟩
      | ok found =>
        rw [ok_bind]
        cases found with
        | none => exact ih _ (by omega) (by omega)
        | some f => exact ih _ (by omega) (by omega)
    · rw [findInTable_error le_rfl]
      exact ⟨_, rfl⟩

/-- The vote, where one setting only is counted. -/
theorem mostCounted_eq {counters : Setting → ℕ} {c : Setting} (hpos : 0 < counters c)
    (hother : ∀ c', c' ≠ c → counters c' = 0) : mostCounted counters = c := by
  have hfold : ∀ (cs : List Setting) (most : Setting), most = c ∨ c ∈ cs →
      cs.foldl (fun most c => if counters most < counters c then c else most) most = c := by
    intro cs
    induction cs with
    | nil =>
      rintro most (rfl | h)
      · rfl
      · exact absurd h List.not_mem_nil
    | cons c' cs ih =>
      intro most hmost
      rw [List.foldl_cons]
      by_cases hm : most = c
      · subst hm
        by_cases hc' : c' = most
        · subst hc'
          exact ih _ (.inl (ite_self _))
        · have h0 := hother c' hc'
          rw [if_neg (by omega)]
          exact ih _ (.inl rfl)
      · have h0 := hother most hm
        have hin : c ∈ c' :: cs := hmost.resolve_left hm
        by_cases hc' : c' = c
        · subst hc'
          rw [if_pos (by omega)]
          exact ih _ (.inl rfl)
        · have h0' := hother c' hc'
          rw [if_neg (by omega)]
          exact ih _ (.inr ((List.mem_cons.1 hin).resolve_left fun h => hc' h.symm))
  exact hfold settings _ (.inr (mem_settings c))

/-! ## The search -/

/-- A block that is shorter than the marker is searched outside of itself. -/
theorem findShift_short {d : Detector} {data : Bytes} (h : data.length < d.marker.octets.length) :
    ∃ e, findShift d data = .error e := by
  have hlt := d.marker.length_lt
  have hcount : data.length < 0 + offsets data.length d.marker.octets.length := by
    unfold offsets
    rw [if_neg (by omega)]
    omega
  obtain ⟨e, he⟩ := countShifts_error d (fun _ => 0) hcount (Nat.zero_le _)
  refine ⟨e, ?_⟩
  unfold findShift
  rw [he]
  rfl

/-- The setting that a search leaves: the one that is counted most, or the one before. -/
theorem findShift_ok (hd : d.allowedMarkerBitErrors = 0) (h : d.marker.octets.length ≤ data.length) :
    ∃ counters : Setting → ℕ,
      (∀ c, 0 < counters c → ∃ offset < data.length - d.marker.octets.length,
        OccursAt d.marker.octets c data offset) ∧
      (∀ offset < data.length - d.marker.octets.length,
        (∃ c, OccursAt d.marker.octets c data offset) → ∃ c, 0 < counters c) ∧
      findShift d data =
        .ok (if settings.any fun c => 0 < counters c then { d with setting := mostCounted counters } else d) := by
  obtain ⟨counters, hrun, -, hocc, hcount⟩ :=
    countShifts_ok data hd (data.length - d.marker.octets.length) 0 (fun _ => 0) (by omega)
  simp only [Nat.zero_add] at hocc hcount
  refine ⟨counters, hocc, hcount, ?_⟩
  unfold findShift offsets
  rw [if_pos h, hrun, ok_bind]
  split <;> rfl

/-- **When the search stays in the block and selects the one setting of its marker**: the block is not
shorter than the marker, and the one setting is that of a marker ahead of the last place, or the present
one. -/
theorem findShift_iff (hd : d.allowedMarkerBitErrors = 0) : Detects d data ↔
    d.marker.octets.length ≤ data.length ∧ ∀ c, OccursOnly d.marker.octets c data →
      (∃ offset < data.length - d.marker.octets.length, OccursAt d.marker.octets c data offset) ∨
        d.setting = c := by
  have hany : ∀ counters : Setting → ℕ, (settings.any fun c => 0 < counters c) = true ↔ ∃ c, 0 < counters c := by
    intro counters
    rw [List.any_eq_true]
    exact ⟨fun ⟨c, _, hc⟩ => ⟨c, of_decide_eq_true hc⟩, fun ⟨c, hc⟩ => ⟨c, mem_settings c, decide_eq_true hc⟩⟩
  constructor
  · rintro ⟨d', hrun, hselect⟩
    have hlen : d.marker.octets.length ≤ data.length := by
      by_contra hshort
      obtain ⟨e, he⟩ := findShift_short (Nat.lt_of_not_le hshort)
      rw [hrun] at he
      cases he
    refine ⟨hlen, fun c honly => ?_⟩
    obtain ⟨counters, hocc, -, hresult⟩ := findShift_ok hd hlen
    have hd' := Except.ok.inj (hrun.symm.trans hresult)
    have hc := hselect c honly
    by_cases hsome : ∃ c, 0 < counters c
    · obtain ⟨c', hc'⟩ := hsome
      obtain ⟨offset, hoffset, ho⟩ := hocc c' hc'
      obtain rfl := (honly c').1 ⟨offset, ho⟩
      exact .inl ⟨offset, hoffset, ho⟩
    · rw [if_neg fun h => hsome ((hany counters).1 h)] at hd'
      exact .inr (hd' ▸ hc)
  · rintro ⟨hlen, hplace⟩
    obtain ⟨counters, hocc, hcount, hresult⟩ := findShift_ok hd hlen
    refine ⟨_, hresult, fun c honly => ?_⟩
    by_cases hsome : ∃ c, 0 < counters c
    · -- whatever is counted is the one setting
      have hone : ∀ c', 0 < counters c' → c' = c := by
        intro c' hc'
        obtain ⟨offset, -, ho⟩ := hocc c' hc'
        exact (honly c').1 ⟨offset, ho⟩
      obtain ⟨c', hc'⟩ := hsome
      obtain rfl := hone c' hc'
      rw [if_pos ((hany counters).2 ⟨c', hc'⟩)]
      exact mostCounted_eq hc' fun c'' hne => Nat.eq_zero_of_not_pos fun h => hne (hone c'' h)
    · rw [if_neg fun h => hsome ((hany counters).1 h)]
      rcases hplace c honly with ⟨offset, hoffset, ho⟩ | hpresent
      · exact absurd (hcount offset hoffset ⟨c, ho⟩) hsome
      · exact hpresent

/-- The detection of the tests: a marker of two octets, and a shift by three bits before. -/
def atThree : Detector := ⟨⟨3, false, by decide⟩, ⟨[0x1a, 0xcf], by decide, by decide⟩, 0⟩

instance (marker : Bytes) (c : Setting) (data : Bytes) (offset : ℕ) : Decidable (OccursAt marker c data offset) :=
  inferInstanceAs (Decidable (_ ∧ _))

theorem occursOnly_marker : OccursOnly atThree.marker.octets ⟨0, false, by decide⟩ [0x1a, 0xcf] := by
  have hall : ∀ c ∈ settings, OccursAt atThree.marker.octets c [0x1a, 0xcf] 0 ↔ c = ⟨0, false, by decide⟩ := by
    decide
  intro c
  rw [← hall c (mem_settings c)]
  refine ⟨fun ⟨offset, ho⟩ => ?_, fun ho => ⟨0, ho⟩⟩
  obtain rfl : offset = 0 := by
    have hfit := ho.1
    simp only [atThree, List.length_cons, List.length_nil] at hfit
    omega
  exact ho

/-- At the end of a block, the marker is not found; in a block of one octet, the search goes behind it. -/
theorem marker_missed : ¬Detects atThree [0x1a, 0xcf] ∧ ¬Detects atThree [0x1a] := by
  constructor
  · rintro ⟨d', hrun, hselect⟩
    have hsame : findShift atThree [0x1a, 0xcf] = .ok atThree := by decide
    obtain rfl := Except.ok.inj (hrun.symm.trans hsame)
    exact absurd (hselect _ occursOnly_marker) (by decide)
  · rintro ⟨d', hrun, -⟩
    have hshort : ([0x1a] : Bytes).length < atThree.marker.octets.length := by decide
    obtain ⟨e, he⟩ := findShift_short hshort
    rw [hrun] at he
    cases he

/-- The marker is found ahead of another octet. -/
theorem findShift_iff_at_three : atThree.allowedMarkerBitErrors = 0 ∧ Detects atThree [0x1a, 0xcf, 0] := by
  refine ⟨rfl, (findShift_iff rfl).2 ⟨by decide, fun c honly => .inl ⟨0, by decide, ?_⟩⟩⟩
  have hfirst : OccursAt atThree.marker.octets ⟨0, false, by decide⟩ [0x1a, 0xcf, 0] 0 := by decide
  obtain rfl := (honly ⟨0, false, by decide⟩).1 ⟨0, hfirst⟩
  exact hfirst

end ChannelEmulator.PhaseAmbiguity.Detect
