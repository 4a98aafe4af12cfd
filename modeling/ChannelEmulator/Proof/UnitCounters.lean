import ChannelEmulator.Proof.WordOutcome
import ChannelEmulator.Spec.RSDecode

/-!
# The counters of units

* `handle_counted`, `handle_notCounted`: a unit that is counted increments one counter, and another one none.
* `units_counted_iff`: **each unit increments exactly one counter just if it is counted**, and the counters add up to
  the units received just if all are.
-/

namespace ChannelEmulator.RSDecode

open ReedSolomon

/-- The units that were counted. -/
def Counters.total (s : Counters) : ℕ := s.errorlessUnitCount + s.correctedUnitCount + s.uncorrectedUnitCount

/-- Exactly one of the counters of units is incremented. -/
def IncrementsOne (s s' : Counters) : Prop :=
  (s'.errorlessUnitCount = addCount s.errorlessUnitCount 1 ∧ s'.correctedUnitCount = s.correctedUnitCount ∧
    s'.uncorrectedUnitCount = s.uncorrectedUnitCount) ∨
  (s'.errorlessUnitCount = s.errorlessUnitCount ∧ s'.correctedUnitCount = addCount s.correctedUnitCount 1 ∧
    s'.uncorrectedUnitCount = s.uncorrectedUnitCount) ∨
  (s'.errorlessUnitCount = s.errorlessUnitCount ∧ s'.correctedUnitCount = s.correctedUnitCount ∧
    s'.uncorrectedUnitCount = addCount s.uncorrectedUnitCount 1)

/-- **The units that are counted.** -/
structure Counted (rs : RSBase) (u : Received) : Prop where
  linked : u.linked = true
  fits : u.data.length ≤ rs.codeLength * rs.interleaveDepth
  /-- Each row is near a codeword, or the algorithm finds that it has too many errors. -/
  rows : ∀ rows, rs.rowsOf u.data = .ok rows → ∀ row ∈ rows, rs.Near row ∨ rs.Many row
  /-- The unit holds all of its parity, or some row has too many errors. -/
  full : rs.parityLength * rs.interleaveDepth ≤ u.data.length ∨
    ∃ rows row, rs.rowsOf u.data = .ok rows ∧ row ∈ rows ∧ ¬ rs.Near row

/-! ## The decoder -/

/-- The symbols of eight bits. -/
theorem primitive_eight : Primitive 8 0x187 := by
  refine ⟨by decide, by decide, by decide +kernel, fun k hpos hlt => ?_⟩
  have hall : ∀ k < 255, 0 < k → (timesX 8 0x187)^[k] 1 ≠ 1 := by decide +kernel
  exact hall k hlt hpos

/-- The codes of the module. -/
theorem admissible {maxErrorsPerCodeword interleavingDepth : ℕ}
    (hE : maxErrorsPerCodeword = 8 ∨ maxErrorsPerCodeword = 16) (hI : 0 < interleavingDepth) :
    (params maxErrorsPerCodeword interleavingDepth).Admissible where
  bits := show 2 ≤ 8 by decide
  bits_le := Nat.le_refl 8
  primitive := primitive_eight
  parity_even := ⟨maxErrorsPerCodeword, Nat.mul_two _⟩
  parity_lt := show maxErrorsPerCodeword * 2 < 255 by omega
  code_le := show 255 ≤ 2 ^ 8 - 1 by decide
  root_coprime := show Nat.Coprime 11 (2 ^ 8 - 1) by decide
  depth_pos := hI

/-- What is known of a decoder that was built. -/
structure Built (rs : RSBase) : Prop where
  admissible : rs.toRSParams.Admissible
  new : RSBase.new rs.toRSParams = .ok rs
  codeLength : rs.codeLength = 2 ^ rs.bitsPerSymbol - 1
  bits : rs.bitsPerSymbol = 8

theorem built_of_rebuildDecoder {maxErrorsPerCodeword interleavingDepth : ℕ} {rs : RSBase}
    (hrs : rebuildDecoder maxErrorsPerCodeword interleavingDepth = .ok rs) : Built rs := by
  unfold rebuildDecoder at hrs
  by_cases hE : maxErrorsPerCodeword ≠ 8 ∧ maxErrorsPerCodeword ≠ 16
  · rw [if_pos hE] at hrs
    cases hrs
  rw [if_neg hE] at hrs
  have hI : 0 < interleavingDepth := by
    by_contra hzero
    have hbits : ¬ 8 < (params maxErrorsPerCodeword interleavingDepth).bitsPerSymbol := Nat.lt_irrefl 8
    have hdepth : (params maxErrorsPerCodeword interleavingDepth).interleaveDepth < 1 := Nat.lt_of_not_le hzero
    unfold RSBase.new at hrs
    rw [if_neg hbits, if_pos hdepth] at hrs
    cases hrs
  have hp := RSDecode.admissible (show maxErrorsPerCodeword = 8 ∨ maxErrorsPerCodeword = 16 by omega) hI
  obtain ⟨hparams, -⟩ := tabled_of_new hp hrs
  have hcode : rs.codeLength = 255 := congrArg RSParams.codeLength hparams
  have hbits : rs.bitsPerSymbol = 8 := congrArg RSParams.bitsPerSymbol hparams
  refine ⟨hparams ▸ hp, hparams ▸ hrs, ?_, hbits⟩
  rw [hcode, hbits]
  rfl

/-! ## One unit -/

theorem addCount_one_ne (n : ℕ) : addCount n 1 ≠ n := by
  unfold addCount
  omega

theorem not_incrementsOne_self (s : Counters) : ¬ IncrementsOne s s := by
  rintro (⟨h, -, -⟩ | ⟨-, h, -⟩ | ⟨-, -, h⟩)
  · exact addCount_one_ne _ h.symm
  · exact addCount_one_ne _ h.symm
  · exact addCount_one_ne _ h.symm

theorem incrementsOne_decoded (s : Counters) (errs : ℕ) : IncrementsOne s (s.decoded errs) := by
  unfold Counters.decoded
  split
  · exact Or.inl ⟨rfl, rfl, rfl⟩
  · exact Or.inr (Or.inl ⟨rfl, rfl, rfl⟩)

theorem incrementsOne_uncorrected (s : Counters) (errors : ℕ) : IncrementsOne s (s.uncorrected errors) :=
  Or.inr (Or.inr ⟨rfl, rfl, rfl⟩)

variable {rs : RSBase}

/-- How `decode` ends for a unit that fits. -/
theorem decode_outcome (h : Built rs) {unit : Bytes} (hfits : unit.length ≤ rs.codeLength * rs.interleaveDepth) :
    ∃ rows, rs.rowsOf unit = .ok rows ∧
      ((¬ ∀ row ∈ rows, rs.Near row ∨ rs.Many row) → ∃ msg, rs.decode unit = .error (.logicError msg)) ∧
      ((∀ row ∈ rows, rs.Near row ∨ rs.Many row) →
        ((∃ row ∈ rows, ¬ rs.Near row) → ∃ msg errors, rs.decode unit = .error (.tooManyErrors msg errors)) ∧
        ((∀ row ∈ rows, rs.Near row) →
          (rs.parityLength * rs.interleaveDepth ≤ unit.length → ∃ out errs, rs.decode unit = .ok (out, errs)) ∧
          (¬ rs.parityLength * rs.interleaveDepth ≤ unit.length → rs.decode unit = .error .outOfBounds))) := by
  have hp := h.admissible
  obtain ⟨-, htabled⟩ := tabled_of_new hp h.new
  obtain ⟨f, g, hfg⟩ := exists_bases (m := rs.bitsPerSymbol) hp h.new fun _ => h.bits
  have hperiod : rs.codeLength = hp.cycle.period := h.codeLength.trans htabled.period_eq.symm
  have hrange : ∀ s ∈ unit, s.toNat < 2 ^ rs.bitsPerSymbol := by
    intro s _
    rw [h.bits]
    exact s.toNat_lt
  obtain ⟨rows, hrows, hescape, hin⟩ := correct_outcome htabled hp.root_coprime hperiod hp.parity_even hp.parity_lt
    hp.depth_pos hfg hrange hfits
  refine ⟨rows, hrows, fun hout => ?_, fun hall => ⟨fun hfar => ?_, fun hnear => ?_⟩⟩
  · obtain ⟨msg, hrun⟩ := hescape hout
    exact ⟨msg, by unfold RSBase.decode; rw [hrun]; rfl⟩
  · obtain ⟨msg, errors, hrun⟩ := (hin hall).1 hfar
    exact ⟨msg, errors, by unfold RSBase.decode; rw [hrun]; rfl⟩
  · obtain ⟨out, errs, hrun, hlen⟩ := (hin hall).2 hnear
    have hsplit : (rs.codeLength - rs.parityLength) * rs.interleaveDepth + rs.parityLength * rs.interleaveDepth =
        rs.codeLength * rs.interleaveDepth := by
      rw [← Nat.add_mul, Nat.sub_add_cancel (Nat.le_of_lt hp.parity_lt)]
    have hdecode : rs.decode unit = if out.length < rs.codeLength * rs.interleaveDepth - unit.length then
        .error .outOfBounds else .ok (out.drop (rs.codeLength * rs.interleaveDepth - unit.length), errs) := by
      unfold RSBase.decode
      rw [hrun]
      rfl
    rw [hdecode, hlen]
    constructor
    · intro hfull
      rw [if_neg (by omega)]
      exact ⟨_, _, rfl⟩
    · intro hshort
      rw [if_pos (by omega)]

theorem handle_of_fits {u : Received} (hlinked : u.linked = true)
    (hfits : u.data.length ≤ rs.codeLength * rs.interleaveDepth) (s : Counters) :
    handle rs u s = s.after (rs.decode u.data) := by
  unfold handle
  rw [if_pos hlinked, if_neg (Nat.not_lt.2 hfits)]

/-- **A unit that is counted increments one counter.** -/
theorem handle_counted (h : Built rs) {u : Received} (hu : Counted rs u) (s : Counters) :
    ∃ s' sent, handle rs u s = .ok (s', sent) ∧ IncrementsOne s s' := by
  obtain ⟨rows, hrows, -, hin⟩ := decode_outcome h hu.fits
  obtain ⟨hmany, hnear⟩ := hin (hu.rows rows hrows)
  rw [handle_of_fits hu.linked hu.fits]
  by_cases hfar : ∃ row ∈ rows, ¬ rs.Near row
  · obtain ⟨msg, errors, hrun⟩ := hmany hfar
    rw [hrun]
    exact ⟨_, _, rfl, incrementsOne_uncorrected s errors⟩
  · have hall : ∀ row ∈ rows, rs.Near row := by
      intro row hrow
      by_contra hnot
      exact hfar ⟨row, hrow, hnot⟩
    have hfull : rs.parityLength * rs.interleaveDepth ≤ u.data.length := by
      rcases hu.full with hfull | ⟨rows', row, hrows', hrow, hnot⟩
      · exact hfull
      · obtain rfl := Except.ok.inj (hrows.symm.trans hrows')
        exact absurd ⟨row, hrow, hnot⟩ hfar
    obtain ⟨out, errs, hrun⟩ := (hnear hall).1 hfull
    rw [hrun]
    exact ⟨_, _, rfl, incrementsOne_decoded s errs⟩

/-- **Another unit increments none.** -/
theorem handle_notCounted (h : Built rs) {u : Received} (hu : ¬ Counted rs u) (s : Counters) :
    handle rs u s = .ok (s, none) := by
  by_cases hlinked : u.linked = true
  swap
  · unfold handle
    rw [if_neg hlinked]
  by_cases hfits : u.data.length ≤ rs.codeLength * rs.interleaveDepth
  swap
  · unfold handle
    rw [if_pos hlinked, if_pos (Nat.lt_of_not_le hfits)]
  obtain ⟨rows, hrows, hescape, hin⟩ := decode_outcome h hfits
  rw [handle_of_fits hlinked hfits]
  by_cases hall : ∀ row ∈ rows, rs.Near row ∨ rs.Many row
  · have hrowsOf : ∀ rows', rs.rowsOf u.data = .ok rows' → ∀ row ∈ rows', rs.Near row ∨ rs.Many row := by
      intro rows' hrows'
      obtain rfl := Except.ok.inj (hrows.symm.trans hrows')
      exact hall
    have hfull : ¬ (rs.parityLength * rs.interleaveDepth ≤ u.data.length ∨
        ∃ rows row, rs.rowsOf u.data = .ok rows ∧ row ∈ rows ∧ ¬ rs.Near row) := fun hfull =>
      hu ⟨hlinked, hfits, hrowsOf, hfull⟩
    obtain ⟨hshort, hnear⟩ := not_or.1 hfull
    have hnears : ∀ row ∈ rows, rs.Near row := by
      intro row hrow
      by_contra hnot
      exact hnear ⟨rows, row, hrows, hrow, hnot⟩
    rw [((hin hall).2 hnears).2 hshort]
    rfl
  · obtain ⟨msg, hrun⟩ := hescape hall
    rw [hrun]
    rfl

/-! ## Runs -/

theorem IncrementsOne.total_eq {s s' : Counters} (h : IncrementsOne s s') (hroom : s.total + 1 < 18446744073709551616) :
    s'.total = s.total + 1 := by
  unfold IncrementsOne addCount at h
  unfold Counters.total at hroom ⊢
  omega

/-- **The counters behind a run**: they grow by the number of units just if all are counted. -/
theorem svc_total (h : Built rs) (units : List Received) (s : Counters)
    (hroom : s.total + units.length < 18446744073709551616) : ∃ s' sent, svc rs units s = .ok (s', sent) ∧
      s'.total ≤ s.total + units.length ∧ (s'.total = s.total + units.length ↔ ∀ u ∈ units, Counted rs u) := by
  induction units generalizing s with
  | nil => exact ⟨s, [], rfl, Nat.le_refl _, iff_of_true rfl fun u hu => absurd hu List.not_mem_nil⟩
  | cons u units ih =>
    rw [List.length_cons] at hroom ⊢
    by_cases hu : Counted rs u
    · obtain ⟨s₁, sent, hrun, hone⟩ := handle_counted h hu s
      have htotal := hone.total_eq (by omega)
      obtain ⟨s', rest, hrest, hle, hiff⟩ := ih s₁ (by omega)
      refine ⟨s', sent.toList ++ rest, ?_, by omega, ?_⟩
      · rw [svc, hrun, Framing.ok_bind]
        show (svc rs units s₁ >>= _) = _
        rw [hrest]
        rfl
      · rw [show s.total + (units.length + 1) = s₁.total + units.length by omega, hiff, List.forall_mem_cons]
        exact ⟨fun hall => ⟨hu, hall⟩, fun hall => hall.2⟩
    · obtain ⟨s', rest, hrest, hle, -⟩ := ih s (by omega)
      refine ⟨s', rest, ?_, by omega, iff_of_false (by omega) fun hall => hu (hall u List.mem_cons_self)⟩
      rw [svc, handle_notCounted h hu, Framing.ok_bind]
      show (svc rs units s >>= _) = _
      rw [hrest]
      rfl

/-- **Each unit increments exactly one counter just if it is counted, and in every run the counters add up to the
units received just if all of them are.** -/
theorem units_counted_iff {maxErrorsPerCodeword interleavingDepth : ℕ} {rs : RSBase}
    (hrs : rebuildDecoder maxErrorsPerCodeword interleavingDepth = .ok rs) :
    (∀ u s, ∃ s' sent, handle rs u s = .ok (s', sent) ∧ (IncrementsOne s s' ↔ Counted rs u)) ∧
      ∀ units : List Received, units.length < 18446744073709551616 → ∃ s sent, svc rs units {} = .ok (s, sent) ∧
        (s.total = units.length ↔ ∀ u ∈ units, Counted rs u) := by
  have h := built_of_rebuildDecoder hrs
  refine ⟨fun u s => ?_, fun units hunits => ?_⟩
  · by_cases hu : Counted rs u
    · obtain ⟨s', sent, hrun, hone⟩ := handle_counted h hu s
      exact ⟨s', sent, hrun, iff_of_true hone hu⟩
    · exact ⟨s, none, handle_notCounted h hu s, iff_of_false (not_incrementsOne_self s) hu⟩
  · have hzero : Counters.total {} = 0 := rfl
    obtain ⟨s, sent, hrun, -, hiff⟩ := svc_total h units {} (by omega)
    rw [hzero, Nat.zero_add] at hiff
    exact ⟨s, sent, hrun, hiff⟩

/-- A decoder that corrects sixteen errors, without interleaving. -/
theorem exists_rebuilt : ∃ rs, rebuildDecoder 16 1 = .ok rs ∧ rs.codeLength * rs.interleaveDepth = 255 := by
  obtain ⟨rs, hrs, hparams, -⟩ := new_ok (admissible (Or.inr rfl) Nat.one_pos : (params 16 1).Admissible)
  refine ⟨rs, ?_, by rw [hparams]; rfl⟩
  unfold rebuildDecoder
  rw [if_neg fun h => h.2 rfl, hrs]

/-- A unit that the code cannot hold is counted neither alone nor behind another one. -/
theorem units_counted_two : ∃ rs, rebuildDecoder 16 1 = .ok rs ∧ ∃ s sent,
    svc rs [⟨List.replicate 255 0, true⟩, ⟨List.replicate 256 0, true⟩] {} = .ok (s, sent) ∧ s.total ≠ 2 := by
  obtain ⟨rs, hrs, hcode⟩ := exists_rebuilt
  obtain ⟨s, sent, hrun, hiff⟩ :=
    (units_counted_iff hrs).2 [⟨List.replicate 255 0, true⟩, ⟨List.replicate 256 0, true⟩] (by decide)
  refine ⟨rs, hrs, s, sent, hrun, fun htotal => ?_⟩
  have hfits := (hiff.1 htotal ⟨List.replicate 256 0, true⟩ (List.mem_cons_of_mem _ List.mem_cons_self)).fits
  rw [List.length_replicate, hcode] at hfits
  omega

/-- One octet more than the code can hold, and no counter is incremented. -/
theorem long_unit_notCounted : ∃ rs, rebuildDecoder 16 1 = .ok rs ∧
    svc rs [⟨List.replicate 256 0, true⟩] {} = .ok ({}, []) ∧ Counters.total {} ≠ 1 := by
  obtain ⟨rs, hrs, hcode⟩ := exists_rebuilt
  have hhandle : handle rs ⟨List.replicate 256 0, true⟩ {} = .ok ({}, none) := by
    unfold handle
    rw [if_pos rfl, if_pos (by rw [hcode, List.length_replicate]; omega)]
  refine ⟨rs, hrs, ?_, by decide⟩
  rw [svc, hhandle]
  rfl

end ChannelEmulator.RSDecode
