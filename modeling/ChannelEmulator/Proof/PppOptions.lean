import ChannelEmulator.Proof.Lcp

/-!
# Reading back the options of a packet

* `dataLength_built`: the data length is an octet, and what does not fit it is lost.
* `countOpts_long`: so `countOpts` stops early in a packet of 256 octets of options or more.
* `options_read_back_iff`: **all options are read back only where there is one at most**.
-/

namespace ChannelEmulator.Lcp

open Framing

/-- The data length of a packet of any options. -/
theorem dataLength_built (options : List PppConfOption) (code identifier : Octet) :
    dataLength (build code identifier options) = .ok ((body options).length % 256) := by
  have hdrop : (packet code identifier (headerByteLen + (body options).length)
      (body options)).drop 2 = fromU16 (headerByteLen + (body options).length) ++ body options := rfl
  have hmod : fromU16 (headerByteLen + (body options).length) =
      fromU16 ((headerByteLen + (body options).length) % 2 ^ 16) := by
    unfold fromU16
    refine congrArg₂ (fun a b => [a, b]) (UInt8.toNat_inj.1 ?_) (UInt8.toNat_inj.1 ?_)
    · rw [UInt8.toNat_ofNat', UInt8.toNat_ofNat']
      omega
    · rw [UInt8.toNat_ofNat', UInt8.toNat_ofNat']
      omega
  unfold dataLength lengthVal headerByteLen at *
  rw [build_eq, headerByteLen, hdrop, hmod, toU16_fromU16 _ (Nat.mod_lt _ (by decide))]
  refine congrArg Except.ok ?_
  omega

/-- The loop of `countOpts` leaves an option out if the data length is short by 256. -/
theorem countLoop_short {d : ℕ} : ∀ (options : List PppConfOption) (pre : Bytes) {fuel n : ℕ},
    (∀ o ∈ options, Fits o) → d + 256 ≤ (pre ++ body options).length → pre.length < d + 255 →
      0 < fuel → d < fuel + pre.length →
        ∃ k < options.length, countLoop (pre ++ body options) d fuel n pre.length = .ok (n + k) := by
  intro options
  induction options with
  | nil =>
    intro pre fuel n _ hlong hpre _ _
    rw [body, List.flatMap_nil, List.append_nil] at hlong
    omega
  | cons opt options ih =>
    intro pre fuel n hfits hlong hpre hfuel hreach
    obtain ⟨fuel, rfl⟩ : ∃ k, fuel = k + 1 := ⟨fuel - 1, by omega⟩
    have hfit := hfits opt List.mem_cons_self
    unfold countLoop
    by_cases hlt : pre.length < d
    · have hnext := append_encoded_length pre opt
      have hle : opt.optBuf.length ≤ 253 := hfit
      obtain ⟨k, hk, hrun⟩ := ih (pre ++ encoded opt) (n := n + 1)
        (fun o ho => hfits o (List.mem_cons_of_mem _ ho)) (by rwa [List.append_assoc, ← body_cons])
        (by omega) (by omega : 0 < fuel) (by omega)
      rw [List.append_assoc, hnext] at hrun
      refine ⟨k + 1, Nat.succ_lt_succ hk, ?_⟩
      rw [if_pos hlt, body_cons, bufLenAt_body hfit]
      refine hrun.trans (congrArg Except.ok ?_)
      omega
    · exact ⟨0, Nat.succ_pos _, by rw [if_neg hlt]; rfl⟩

/-- **A packet of 256 octets of options or more** is not counted to its end. -/
theorem countOpts_long {options : List PppConfOption} (hfits : ∀ o ∈ options, Fits o)
    (hlong : 256 ≤ (body options).length) (code identifier : Octet) :
    ∃ k < options.length, countOpts (build code identifier options) = .ok k := by
  obtain ⟨k, hk, hrun⟩ := countLoop_short options [] (d := (body options).length % 256) (n := 0)
    hfits (by rw [List.nil_append]; omega) (by rw [List.length_nil]; omega)
    (Nat.succ_pos ((body options).length % 256)) (Nat.lt_succ_self _)
  refine ⟨k, hk, ?_⟩
  unfold countOpts
  rw [dataLength_built, data_build]
  rw [Nat.zero_add] at hrun
  exact hrun

/-- **All options are read back** only if there is one at most, in a packet that has options by its
code. -/
theorem options_read_back_iff {options : List PppConfOption} (hfits : ∀ o ∈ options, Fits o)
    (code identifier : Octet) :
    (countOpts (build code identifier options) = .ok options.length ∧
      ∀ (i : ℕ) (h : i < options.length),
        optionAt (build code identifier options) i = .ok (.ok options[i])) ↔
      options = [] ∨ options.length = 1 ∧ HasOptions code := by
  constructor
  · rintro ⟨hcount, hread⟩
    by_cases hlong : 256 ≤ (body options).length
    · obtain ⟨k, hk, hrun⟩ := countOpts_long hfits hlong code identifier
      have heq := Except.ok.inj (hrun.symm.trans hcount)
      omega
    by_cases hne : options = []
    · exact .inl hne
    have hpos := List.length_pos_iff.2 hne
    have hfirst := hread 0 hpos
    by_cases hcode : HasOptions code
    · refine .inr ⟨?_, hcode⟩
      rw [optionAt_build hfits (by omega) hne hcode] at hfirst
      by_cases hlast : ((0 : ℕ) : ℤ) = options.length - 1
      · omega
      · rw [if_neg hlast] at hfirst
        cases hfirst
    · -- a packet without options by its code is not read
      unfold optionAt at hfirst
      rw [codeVal_build] at hfirst
      simp only [bind, Except.bind] at hfirst
      rw [if_pos ⟨fun h => hcode (.inl h), fun h => hcode (.inr (.inl h)),
        fun h => hcode (.inr (.inr h))⟩] at hfirst
      cases hfirst
  · rintro (rfl | ⟨hone, hcode⟩)
    · exact ⟨countOpts_build hfits (by decide) code identifier, fun i h => absurd h (Nat.not_lt_zero i)⟩
    · obtain ⟨opt, rfl⟩ := List.length_eq_one_iff.1 hone
      have hle : opt.optBuf.length ≤ 253 := hfits opt (List.mem_singleton.2 rfl)
      have hshort : (body [opt]).length < 256 := by
        rw [body_cons, List.length_append, encoded_length, body, List.flatMap_nil, List.length_nil]
        omega
      refine ⟨countOpts_build hfits hshort code identifier, fun i h => ?_⟩
      obtain rfl : i = 0 := by rw [List.length_singleton] at h; omega
      rw [optionAt_build hfits hshort (List.cons_ne_nil opt []) hcode, if_pos (by simp)]
      rfl

/-- A magic number by itself. -/
theorem options_read_back_one :
    countOpts (build configureRequest 1 [⟨5, [1, 2, 3, 4]⟩]) = .ok 1 ∧
      ∀ (i : ℕ) (h : i < 1), optionAt (build configureRequest 1 [⟨5, [1, 2, 3, 4]⟩]) i =
        .ok (.ok [(⟨5, [1, 2, 3, 4]⟩ : PppConfOption)][i]) :=
  (options_read_back_iff (by unfold Fits; decide) configureRequest 1).2 (.inr ⟨rfl, .inl rfl⟩)

/-- Of two options the first is not read back. -/
theorem first_option_unread : ¬ ∀ (options : List PppConfOption), (∀ o ∈ options, Fits o) →
    ∀ code identifier : Octet, countOpts (build code identifier options) = .ok options.length ∧
      ∀ (i : ℕ) (h : i < options.length),
        optionAt (build code identifier options) i = .ok (.ok options[i]) := by
  intro hall
  have hfirst := (hall [⟨1, [5, 220]⟩, ⟨5, [1, 2, 3, 4]⟩] (by unfold Fits; decide) configureRequest 1).2 0
    (by decide)
  exact absurd hfirst (by decide)

end ChannelEmulator.Lcp
