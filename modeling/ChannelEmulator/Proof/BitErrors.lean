import ChannelEmulator.Coding.BitString
import ChannelEmulator.Spec.BitErrors
import Mathlib.Data.List.Forall2
import Mathlib.Data.List.ReduceOption
import Mathlib.Tactic.SplitIfs

/-!
# Where bit errors are made

The draws of `lrand48` take every place of the zone that is computed, and of its absolute value where it
is negative.

* `flipBit_ok`: a draw flips one bit, in a unit that the settings fit.
* `testLoop_protects`, `svc_protects`: the tests of a unit, and of a run of units.
* `svc_safe_iff`: **when every sequence of draws is safe**.
* `fits_iff_of_short`: the condition in units of less than 2 ^ 27 octets.
-/

namespace ChannelEmulator.BitErrors

open Coding Framing

/-- The zone is not empty, begins in the unit, and ends before what is protected behind it. -/
def Fits (s : State) (unitLength : ℕ) : Prop :=
  s.errorZoneBitLen unitLength ≠ 0 ∧ 0 ≤ s.protectedHeaderBits ∧
    s.protectedHeaderBits + (s.errorZoneBitLen unitLength).natAbs ≤
      unitLength * 8 - max s.protectedTrailerBits 0

/-- Only bits between the protected parts are changed. -/
def Protects (s : State) (u out : Bytes) : Prop :=
  out.length = u.length ∧ ∀ i < 8 * u.length, bitAt out i ≠ bitAt u i →
    s.protectedHeaderBits ≤ i ∧ (i : ℤ) < u.length * 8 - s.protectedTrailerBits

/-- Every unit of a run gets through, with what is protected of it. -/
def Safe (s : State) (items : List (Bytes × List (Option Draw))) : Prop :=
  ∃ s' outs, svc s items = .ok (s', outs) ∧ List.Forall₂ (fun item out => Protects s item.1 out) items outs

/-- The settings of two states are the same. -/
def SameSettings (s t : State) : Prop :=
  t.protectedHeaderBits = s.protectedHeaderBits ∧ t.protectedTrailerBits = s.protectedTrailerBits

variable {s t : State} {u out : Bytes}

theorem SameSettings.zone (h : SameSettings s t) (n : ℕ) : t.errorZoneBitLen n = s.errorZoneBitLen n := by
  unfold State.errorZoneBitLen
  rw [h.1, h.2]

theorem SameSettings.fits (h : SameSettings s t) (n : ℕ) : Fits t n ↔ Fits s n := by
  unfold Fits
  rw [h.zone, h.1, h.2]

theorem SameSettings.protects (h : SameSettings s t) : Protects t u out ↔ Protects s u out := by
  unfold Protects
  rw [h.1, h.2]

theorem Protects.refl (s : State) (u : Bytes) : Protects s u u := ⟨rfl, fun _ _ h => absurd rfl h⟩

theorem Protects.trans {v w : Bytes} (h : Protects s u v) (h' : Protects s v w) : Protects s u w := by
  refine ⟨h'.1.trans h.1, fun i hi hne => ?_⟩
  by_cases hv : bitAt v i = bitAt u i
  · have hw := h'.2 i (by rw [h.1]; exact hi) (fun heq => hne (heq.trans hv))
    rwa [h.1] at hw
  · exact h.2 i hi hv

/-! ## One bit -/

theorem errorZoneBitLen_bound (s : State) (n : ℕ) : (s.errorZoneBitLen n).natAbs ≤ 2147483648 := by
  unfold State.errorZoneBitLen
  generalize (n : ℤ) * 8 - s.protectedHeaderBits - s.protectedTrailerBits = x
  have hlow := @Int.le_bmod x 4294967296 (by decide)
  have hhigh := @Int.bmod_lt x 4294967296 (by decide)
  omega

/-- The place that a draw takes in the zone. -/
theorem tmod_draw (draw : Draw) (zone : ℤ) : Int.tmod draw zone = ((draw : ℕ) % zone.natAbs : ℕ) := by
  rw [Int.tmod_eq_emod_of_nonneg (Int.natCast_nonneg _)]
  obtain ⟨n, rfl | rfl⟩ := Int.eq_nat_or_neg zone
  · rw [Int.natAbs_natCast, Int.natCast_mod]
  · rw [Int.emod_neg, Int.natAbs_neg, Int.natAbs_natCast, Int.natCast_mod]

theorem testBit_mask : ∀ j k : Fin 8, ((0x80 : UInt8) >>> UInt8.ofNat j).toNat.testBit (7 - k) = decide (k = j) := by
  decide

/-- The octet of a flipped bit. -/
theorem bitAt_flip {k : ℕ} {b : Octet} (hb : u[k / 8]? = some b) (i : ℕ) :
    bitAt (u.set (k / 8) (b ^^^ (0x80 >>> UInt8.ofNat (k % 8)))) i =
      (bitAt u i ^^ decide (i = k)) := by
  obtain ⟨hk, -⟩ := List.getElem?_eq_some_iff.1 hb
  rw [bitAt_set hk]
  by_cases hik : i / 8 = k / 8
  · have hmask := testBit_mask ⟨k % 8, Nat.mod_lt _ (by decide)⟩ ⟨i % 8, Nat.mod_lt _ (by decide)⟩
    have hdec : decide (i % 8 = k % 8) = decide (i = k) := by
      rw [decide_eq_decide]
      omega
    rw [if_pos hik, bitAt_of_getElem? (by rw [hik]; exact hb), UInt8.toNat_xor, Nat.testBit_xor, ← hdec]
    simp only [Fin.mk.injEq] at hmask
    rw [hmask]
  · have hne : i ≠ k := fun h => hik (by rw [h])
    rw [if_neg hik, decide_eq_false hne, Bool.xor_false]

/-- **A draw flips one bit**, where the zone is not empty and the bit is in the unit. -/
theorem flipBit_ok {draw : Draw} {k : ℕ} (hzone : s.errorZoneBitLen u.length ≠ 0)
    (hk : Int.tmod draw (s.errorZoneBitLen u.length) + s.protectedHeaderBits = k) (hin : k < 8 * u.length) :
    ∃ out, flipBit s u draw = .ok out ∧ out.length = u.length ∧
      ∀ i, bitAt out i = (bitAt u i ^^ decide (i = k)) := by
  have hoct := getElem?_of_lt (show k / 8 < u.length by omega)
  refine ⟨_, ?_, ?_, bitAt_flip hoct⟩
  · unfold flipBit
    simp only [if_neg hzone, hk, Int.toNat_natCast, octetAt_of_getElem? hoct]
    rw [if_neg (by omega), ok_bind, storeAt_one (by omega)]
  · rw [List.length_set]

theorem not_ok_of_zone (hzone : s.errorZoneBitLen u.length = 0) (draw : Draw) :
    flipBit s u draw ≠ .ok out := by
  unfold flipBit
  rw [hzone]
  intro h
  cases h

/-- A draw that gets through is one of a bit of the unit. -/
theorem flipBit_inv {draw : Draw} (h : flipBit s u draw = .ok out) : ∃ k : ℕ,
    s.errorZoneBitLen u.length ≠ 0 ∧
    Int.tmod draw (s.errorZoneBitLen u.length) + s.protectedHeaderBits = k ∧ k < 8 * u.length := by
  have hzone : s.errorZoneBitLen u.length ≠ 0 := fun hz => not_ok_of_zone hz draw h
  unfold flipBit at h
  simp only [if_neg hzone] at h
  split_ifs at h with hneg
  obtain ⟨octet, hoct, -⟩ := bind_ok h
  refine ⟨_, hzone, (Int.toNat_of_nonneg (by omega)).symm, ?_⟩
  unfold octetAt at hoct
  split at hoct
  · rename_i b hb
    obtain ⟨hlt, -⟩ := List.getElem?_eq_some_iff.1 hb
    omega
  · cases hoct

/-- Where the settings fit, a draw flips a bit outside the protected parts. -/
theorem flipBit_protects (hfits : Fits s u.length) (draw : Draw) :
    ∃ out, flipBit s u draw = .ok out ∧ Protects s u out := by
  obtain ⟨hzone, hheader, hend⟩ := hfits
  have hpos : 0 < (s.errorZoneBitLen u.length).natAbs := Int.natAbs_pos.2 hzone
  have hlt : (draw : ℕ) % (s.errorZoneBitLen u.length).natAbs < (s.errorZoneBitLen u.length).natAbs :=
    Nat.mod_lt _ hpos
  obtain ⟨header, hh⟩ := Int.eq_ofNat_of_zero_le hheader
  have hk : Int.tmod draw (s.errorZoneBitLen u.length) + s.protectedHeaderBits =
      ((draw : ℕ) % (s.errorZoneBitLen u.length).natAbs + header : ℕ) := by
    rw [tmod_draw, hh, Int.natCast_add]
  rw [hh] at hend
  obtain ⟨out, hout, hlen, hbits⟩ := flipBit_ok hzone hk (by omega)
  refine ⟨out, hout, hlen, fun i _ hne => ?_⟩
  have hik : i = (draw : ℕ) % (s.errorZoneBitLen u.length).natAbs + header := by
    by_contra hik
    rw [hbits, decide_eq_false hik, Bool.xor_false] at hne
    exact hne rfl
  rw [hh]
  omega

/-- The settings fit, where every draw gets through and flips a bit outside the protected parts. -/
theorem fits_of_protects (h : ∀ draw, ∃ out, flipBit s u draw = .ok out ∧ Protects s u out) :
    Fits s u.length := by
  have hplace : ∀ draw : Draw, s.errorZoneBitLen u.length ≠ 0 ∧
      ∃ k : ℕ, ((draw : ℕ) % (s.errorZoneBitLen u.length).natAbs : ℕ) + s.protectedHeaderBits = k ∧
        k < 8 * u.length ∧ (k : ℤ) < u.length * 8 - s.protectedTrailerBits := by
    intro draw
    obtain ⟨out, hout, -, hprotected⟩ := h draw
    obtain ⟨k, hzone, hk, hin⟩ := flipBit_inv hout
    obtain ⟨out', hout', -, hbits⟩ := flipBit_ok hzone hk hin
    obtain rfl := Except.ok.inj (hout.symm.trans hout')
    have hne : bitAt out k ≠ bitAt u k := by
      rw [hbits, decide_eq_true rfl]
      cases bitAt u k <;> decide
    rw [tmod_draw] at hk
    exact ⟨hzone, k, hk, hin, (hprotected k hin hne).2⟩
  -- the first and the last place of the zone are drawn
  obtain ⟨hzone, k, hk, -, -⟩ := hplace ⟨0, by decide⟩
  have hbound := errorZoneBitLen_bound s u.length
  have hpos : 0 < (s.errorZoneBitLen u.length).natAbs := Int.natAbs_pos.2 hzone
  obtain ⟨-, l, hl, hin, hprotected⟩ := hplace ⟨(s.errorZoneBitLen u.length).natAbs - 1, by omega⟩
  rw [Nat.zero_mod] at hk
  simp only at hl
  rw [Nat.mod_eq_of_lt (by omega)] at hl
  refine ⟨hzone, by omega, ?_⟩
  omega

/-! ## A unit, and a run of units -/

/-- **The tests of a unit**: each error is counted, and the unit once. -/
theorem testLoop_protects (tests : List (Option Draw)) (madeError : Bool) (hfits : Fits s u.length) :
    ∃ s' out, testLoop s madeError u tests = .ok (s', out) ∧ Protects s u out ∧ SameSettings s s' ∧
      s'.totalErrors = s.totalErrors + tests.reduceOption.length := by
  induction tests generalizing s u madeError with
  | nil => exact ⟨s, u, rfl, .refl s u, ⟨rfl, rfl⟩, rfl⟩
  | cons test tests ih =>
    cases test with
    | none => exact ih madeError hfits
    | some draw =>
      obtain ⟨v, hv, hprotects⟩ := flipBit_protects hfits draw
      obtain ⟨s', out, hloop, hprotects', hsame, htotal⟩ := ih (u := v)
        (s := { s with
          unitsWithErrors := if madeError then s.unitsWithErrors else s.unitsWithErrors + 1
          totalErrors := s.totalErrors + 1 }) true (by rw [hprotects.1]; exact hfits)
      refine ⟨s', out, ?_, hprotects.trans hprotects', hsame, ?_⟩
      · unfold testLoop
        rw [hv, ok_bind]
        exact hloop
      · rw [htotal, List.reduceOption_cons_of_some, List.length_cons]
        simp only
        omega

theorem handle_protects (tests : List (Option Draw)) (hfits : Fits s u.length) :
    ∃ s' out, handle s (u, tests) = .ok (s', [out]) ∧ Protects s u out ∧ SameSettings s s' := by
  obtain ⟨s', out, hloop, hprotects, hsame, -⟩ := testLoop_protects tests false hfits
  refine ⟨s', out, ?_, hprotects, hsame⟩
  unfold handle
  rw [hloop]
  rfl

/-- **A run of units** that the settings fit. -/
theorem svc_protects (items : List (Bytes × List (Option Draw)))
    (hfits : ∀ item ∈ items, Fits s item.1.length) : Safe s items := by
  induction items generalizing s with
  | nil => exact ⟨s, [], rfl, .nil⟩
  | cons item items ih =>
    obtain ⟨hfirst, hrest⟩ := List.forall_mem_cons.1 hfits
    obtain ⟨s₁, out, hhandle, hprotects, hsame⟩ := handle_protects item.2 hfirst
    obtain ⟨s', outs, hrun, houts⟩ := ih (s := s₁) fun item hitem => (hsame.fits _).2 (hrest item hitem)
    refine ⟨s', out :: outs, runAll_cons hhandle hrun, .cons hprotects (houts.imp fun _ _ h => ?_)⟩
    exact hsame.protects.1 h

/-- A unit with one draw, in a run that is safe. -/
theorem flipBit_of_safe {items : List (Bytes × List (Option Draw))} (hsafe : Safe s items) {draw : Draw}
    (hitems : ∀ item ∈ items, item.2 = [some draw]) :
    ∀ item ∈ items, ∃ out, flipBit s item.1 draw = .ok out ∧ Protects s item.1 out := by
  induction items generalizing s with
  | nil => exact fun _ h => absurd h List.not_mem_nil
  | cons first items ih =>
    obtain ⟨s', outs, hrun, houts⟩ := hsafe
    obtain ⟨s₁, o₁, o₂, hfirst, hrest, rfl⟩ := runAll_cons_inv hrun
    obtain ⟨⟨s₂, out⟩, hloop, hret⟩ := bind_ok hfirst
    obtain ⟨rfl, rfl⟩ := Prod.mk.inj (Except.ok.inj hret)
    rw [hitems first List.mem_cons_self] at hloop
    obtain ⟨v, hflip, hend⟩ := bind_ok hloop
    obtain ⟨hs₂, rfl⟩ := Prod.mk.inj (Except.ok.inj hend)
    rw [List.singleton_append, List.forall₂_cons] at houts
    have hsame : SameSettings s s₂ := by
      rw [← hs₂]
      exact ⟨rfl, rfl⟩
    refine List.forall_mem_cons.2 ⟨⟨v, hflip, houts.1⟩, fun item hitem => ?_⟩
    have hsafe₂ : Safe s₂ items := ⟨s', o₂, hrest, houts.2.imp fun _ _ h => hsame.protects.2 h⟩
    obtain ⟨w, hw, hprotects⟩ := ih hsafe₂ (fun item h => hitems item (List.mem_cons_of_mem _ h)) item hitem
    refine ⟨w, ?_, hsame.protects.1 hprotects⟩
    unfold flipBit at hw ⊢
    rwa [hsame.zone, hsame.1] at hw

/-- **When every sequence of draws is safe**: the settings fit each of the units. -/
theorem svc_safe_iff (s : State) (units : List Bytes) :
    (∀ items, items.map Prod.fst = units → Safe s items) ↔ ∀ u ∈ units, Fits s u.length := by
  constructor
  · intro h u hu
    refine fits_of_protects fun draw => ?_
    have hsafe := h (units.map fun u => (u, [some draw])) (by rw [List.map_map]; exact List.map_id units)
    have hitems : ∀ item ∈ units.map fun u => (u, [some draw]), item.2 = [some draw] := by
      intro item hitem
      obtain ⟨u, -, rfl⟩ := List.mem_map.1 hitem
      rfl
    exact flipBit_of_safe hsafe hitems (u, [some draw]) (List.mem_map_of_mem hu)
  · rintro h items rfl
    exact svc_protects items fun item hitem => h item.1 (List.mem_map_of_mem hitem)

/-- In a unit without octets, and without protected parts, the division is one by zero. -/
theorem not_safe_empty : ¬∀ items, items.map Prod.fst = [[]] → Safe ⟨0, 0, 0, 0⟩ items := by
  intro h
  obtain ⟨s', outs, hrun, -⟩ := h [([], [some ⟨0, by decide⟩])] rfl
  cases hrun

/-- **In a unit of less than 2 ^ 27 octets**, the settings fit if they leave a bit between them. -/
theorem fits_iff_of_short {n : ℕ} (hn : n < 134217728) (hheader : -2147483648 ≤ s.protectedHeaderBits)
    (hheader' : s.protectedHeaderBits < 2147483648) (htrailer : -2147483648 ≤ s.protectedTrailerBits)
    (htrailer' : s.protectedTrailerBits < 2147483648) :
    Fits s n ↔ 0 ≤ s.protectedHeaderBits ∧ 0 ≤ s.protectedTrailerBits ∧
      s.protectedHeaderBits + s.protectedTrailerBits < n * 8 := by
  unfold Fits State.errorZoneBitLen
  rw [Int.bmod_def]
  constructor
  · rintro ⟨hzone, hpos, hend⟩
    split_ifs at hzone hend <;> omega
  · rintro ⟨hpos, hpos', hlt⟩
    split_ifs <;> omega

end ChannelEmulator.BitErrors
