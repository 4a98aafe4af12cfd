import ChannelEmulator.Framing.Search
import ChannelEmulator.Spec.SyncMarker

/-!
# One pass of the marker search

* `markerMatch_iff`: a comparison succeeds iff the bit errors of the candidate so far are
  within the allowance.
* `pass_spec`: **one pass of the loop** pays what it sends out of what the
  position-by-position search `scan` still owes, as long as no marker starts in the
  octets a failed comparison gives up.
-/

namespace ChannelEmulator.ASM

open Framing

/-! ## Bit errors -/

theorem bitErrors_self (a : Octet) : bitErrors a a = 0 := by simp [bitErrors]

theorem bitErrors_eq_zero {a b : Octet} : bitErrors a b = 0 ↔ a = b := by
  constructor
  · intro h
    have hbits : ∀ i < 8, (a ^^^ b).toNat.testBit i = false := by
      simpa [bitErrors, List.filter_eq_nil_iff] using h
    have hz : (a ^^^ b).toNat = 0 := by
      apply Nat.eq_of_testBit_eq
      intro i
      by_cases hi : i < 8
      · rw [hbits i hi, Nat.zero_testBit]
      · rw [Nat.zero_testBit]
        refine Nat.testBit_lt_two_pow (lt_of_lt_of_le (a ^^^ b).toNat_lt ?_)
        exact Nat.pow_le_pow_right (by omega) (by omega : 8 ≤ i)
    have : a ^^^ b = 0 := UInt8.toNat_inj.1 hz
    exact UInt8.xor_eq_zero_iff.1 this
  · rintro rfl; exact bitErrors_self a

/-- The bit errors of one run of octets against another. -/
def bitDistance (u m : Bytes) : ℕ := ((u.zip m).map fun p => bitErrors p.1 p.2).sum

@[simp] theorem bitDistance_nil (m : Bytes) : bitDistance [] m = 0 := rfl

theorem bitDistance_cons (a b : Octet) (u m : Bytes) :
    bitDistance (a :: u) (b :: m) = bitErrors a b + bitDistance u m := by
  simp [bitDistance]

theorem bitDistance_self (u : Bytes) : bitDistance u u = 0 := by
  induction u with
  | nil => rfl
  | cons a u ih => rw [bitDistance_cons, bitErrors_self, ih]

/-- Octets compared one after the other with the marker. -/
theorem bitDistance_append_left (u₂ : Bytes) : ∀ u₁ m : Bytes,
    bitDistance (u₁ ++ u₂) m = bitDistance u₁ m + bitDistance u₂ (m.drop u₁.length)
  | [], m => by simp
  | a :: u₁, [] => by simp [bitDistance]
  | a :: u₁, b :: m => by
    rw [List.cons_append, bitDistance_cons, bitDistance_cons, bitDistance_append_left u₂ u₁ m,
      List.length_cons, List.drop_succ_cons, Nat.add_assoc]

theorem bitDistance_take : ∀ (u m : Bytes) {n : ℕ}, u.length ≤ n →
    bitDistance u (m.take n) = bitDistance u m
  | [], m, _, _ => by simp
  | a :: u, [], n, _ => by simp
  | a :: u, b :: m, 0, h => by simp at h
  | a :: u, b :: m, n + 1, h => by
    rw [List.take_succ_cons, bitDistance_cons, bitDistance_cons,
      bitDistance_take u m (by simpa using h)]

theorem bitDistance_eq_zero : ∀ {u m : Bytes}, u.length = m.length → bitDistance u m = 0 → u = m
  | [], [], _, _ => rfl
  | a :: u, b :: m, hl, h => by
    rw [bitDistance_cons] at h
    rw [bitErrors_eq_zero.1 (by omega : bitErrors a b = 0),
      bitDistance_eq_zero (by simpa using hl) (by omega : bitDistance u m = 0)]

/-- Whether a marker within the allowance starts at the head of a stream. -/
def near (allowed : ℤ) (marker s : Bytes) : Bool :=
  marker.length ≤ s.length && (bitDistance (s.take marker.length) marker : ℤ) ≤ allowed

theorem near_iff {allowed : ℤ} {marker s : Bytes} :
    near allowed marker s = true ↔
      marker.length ≤ s.length ∧ (bitDistance (s.take marker.length) marker : ℤ) ≤ allowed := by
  simp [near]

namespace Remove

theorem countBitErrors_iff (allowed : ℤ) : ∀ (l : List (Octet × Octet)) (e : ℕ), (e : ℤ) ≤ allowed →
    ((countBitErrors allowed e l).2 = true ↔
      ((e + (l.map fun p => bitErrors p.1 p.2).sum : ℕ) : ℤ) ≤ allowed) := by
  intro l
  induction l with
  | nil => intro e he; simpa [countBitErrors] using he
  | cons p l ih =>
    intro e he
    obtain ⟨u, m⟩ := p
    rw [countBitErrors]
    by_cases hc : ((e + bitErrors u m : ℕ) : ℤ) > allowed
    · simp only [hc, if_true, List.map_cons, List.sum_cons]
      constructor
      · intro h; exact absurd h Bool.false_ne_true
      · intro h; omega
    · simp only [hc, if_false]
      rw [ih _ (by omega), List.map_cons, List.sum_cons, Nat.add_assoc]

theorem countBitErrors_true (allowed : ℤ) : ∀ (l : List (Octet × Octet)) (e : ℕ),
    (countBitErrors allowed e l).2 = true →
      (countBitErrors allowed e l).1 = e + (l.map fun p => bitErrors p.1 p.2).sum := by
  intro l
  induction l with
  | nil => intro e _; simp [countBitErrors]
  | cons p l ih =>
    intro e h
    obtain ⟨u, m⟩ := p
    rw [countBitErrors] at h ⊢
    by_cases hc : ((e + bitErrors u m : ℕ) : ℤ) > allowed
    · simp only [hc, if_true] at h
      exact absurd h Bool.false_ne_true
    · simp only [hc, if_false] at h ⊢
      rw [ih _ h, List.map_cons, List.sum_cons, Nat.add_assoc]

/-- **A comparison succeeds iff the candidate stays within the allowance.** -/
theorem markerMatch_iff (s : Remove) {u m : Bytes} (hl : u.length = m.length) :
    (s.markerMatch u m).2 = true ↔
      ((s.currentBitErrors + bitDistance u m : ℕ) : ℤ) ≤ s.allowedMarkerBitErrors := by
  unfold markerMatch
  by_cases h₁ : (s.currentBitErrors : ℤ) > s.allowedMarkerBitErrors
  · simp only [h₁, if_true]
    constructor
    · intro h; exact absurd h Bool.false_ne_true
    · intro h; omega
  simp only [h₁, if_false]
  by_cases h₂ : u = m
  · simp only [h₂, if_true, bitDistance_self, true_iff]; omega
  simp only [h₂, if_false]
  have hpos : bitDistance u m ≠ 0 := fun h => h₂ (bitDistance_eq_zero hl h)
  by_cases h₃ : s.allowedMarkerBitErrors = 0
  · simp only [h₃, if_true]
    constructor
    · intro h; exact absurd h Bool.false_ne_true
    · intro h; omega
  simp only [h₃, if_false]
  rw [bitDistance, ← countBitErrors_iff _ _ _ (by omega)]
  rcases countBitErrors s.allowedMarkerBitErrors s.currentBitErrors (u.zip m) with ⟨e, b⟩
  cases b <;> simp

/-- Two states with the same marker, settings and unit being put together. -/
structure SameSetup (s s' : Remove) : Prop where
  rebuildMarker : s'.rebuildMarker = s.rebuildMarker
  markerBuf : s'.markerBuf = s.markerBuf
  expectedUnitLength : s'.expectedUnitLength = s.expectedUnitLength
  allowed : s'.allowedMarkerBitErrors = s.allowedMarkerBitErrors
  goodUnit : s'.goodUnit = s.goodUnit

theorem markerMatch_sameSetup (s : Remove) (u m : Bytes) : SameSetup s (s.markerMatch u m).1 := by
  unfold markerMatch
  split_ifs
  · exact ⟨rfl, rfl, rfl, rfl, rfl⟩
  · exact ⟨rfl, rfl, rfl, rfl, rfl⟩
  · exact ⟨rfl, rfl, rfl, rfl, rfl⟩
  · rcases countBitErrors s.allowedMarkerBitErrors s.currentBitErrors (u.zip m) with ⟨e, b⟩
    cases b <;> exact ⟨rfl, rfl, rfl, rfl, rfl⟩

theorem markerMatch_offset (s : Remove) (u m : Bytes) :
    (s.markerMatch u m).1.markerOffset = s.markerOffset := by
  unfold markerMatch
  split_ifs
  · rfl
  · rfl
  · rfl
  · rcases countBitErrors s.allowedMarkerBitErrors s.currentBitErrors (u.zip m) with ⟨e, b⟩
    cases b <;> rfl

/-- The errors carried after a comparison that succeeded. -/
theorem markerMatch_errors (s : Remove) {u m : Bytes} (h : (s.markerMatch u m).2 = true) :
    (s.markerMatch u m).1.currentBitErrors = s.currentBitErrors + bitDistance u m := by
  unfold markerMatch at h ⊢
  by_cases h₁ : (s.currentBitErrors : ℤ) > s.allowedMarkerBitErrors
  · simp [h₁] at h
  simp only [h₁, if_false] at h ⊢
  by_cases h₂ : u = m
  · simp only [h₂, if_true, bitDistance_self]; rfl
  simp only [h₂, if_false] at h ⊢
  by_cases h₃ : s.allowedMarkerBitErrors = 0
  · simp [h₃] at h
  simp only [h₃, if_false] at h ⊢
  have ht := countBitErrors_true s.allowedMarkerBitErrors (u.zip m) s.currentBitErrors
  rcases hc : countBitErrors s.allowedMarkerBitErrors s.currentBitErrors (u.zip m) with ⟨e, b⟩
  rw [hc] at h ht
  cases b with
  | false => simp at h
  | true => simpa [bitDistance] using ht rfl

/-! ## One pass -/

/-- The octets of the candidate marker that were consumed with earlier data. -/
def carried (s : Remove) (seen : Bytes) : Bytes := seen.drop (seen.length - s.markerOffset)

/-- How much of a marker is still to be compared. -/
def partialMarkerLen (s : Remove) : ℕ := s.markerBuf.length - s.markerOffset

/-- The coming comparison. -/
def comparison (s : Remove) (data : Bytes) : Remove × Bool :=
  s.markerMatch (data.take s.partialMarkerLen)
    ((s.markerBuf.drop s.markerOffset).take (data.take s.partialMarkerLen).length)

/-- Whether the coming comparison succeeds. -/
def matching (s : Remove) (data : Bytes) : Bool := (s.comparison data).2

/-- How many octets of the candidate and the data are given up when it fails. -/
def givenUp (s : Remove) (data : Bytes) : ℕ :=
  if data.length < s.partialMarkerLen then s.markerOffset + data.length else s.markerOffset + 1

/-- The condition on a pass: a failed comparison gives up no octet, other than the first
of the candidate, at which a marker starts, and a marker is not found when the unit
length is zero. -/
def PassOk (s : Remove) (seen data later : Bytes) : Prop :=
  s.goodUnit = none →
    if s.matching data then s.partialMarkerLen ≤ data.length → s.expectedUnitLength ≠ 0
    else ∀ j < s.givenUp data, 0 < j →
      near s.allowedMarkerBitErrors s.markerBuf ((s.carried seen ++ data ++ later).drop j) = false

instance (s : Remove) (seen data later : Bytes) : Decidable (s.PassOk seen data later) :=
  inferInstanceAs (Decidable (_ → _))

/-- What is known of the state after the octets `seen`. -/
structure Tracks (marker : Bytes) (L : ℕ) (allowed : ℤ) (s : Remove) (seen : Bytes) : Prop where
  built : s.rebuildMarker = false
  marker_eq : s.markerBuf = marker
  unit_eq : s.expectedUnitLength = L
  allowed_eq : s.allowedMarkerBitErrors = allowed
  offset_lt : s.markerOffset < marker.length
  offset_le : s.markerOffset ≤ seen.length
  errors_eq : s.currentBitErrors = bitDistance (s.carried seen) marker
  unit_ok : ∀ g, s.goodUnit = some g →
    s.markerOffset = 0 ∧ g.length = L ∧ s.goodUnitLength < L

/-- What the search would still send from a state, `rest` being all that is to come. -/
def owed (marker : Bytes) (L : ℕ) (allowed : ℤ) (s : Remove) (seen rest : Bytes) : List Bytes :=
  match s.goodUnit with
  | none => scan (near allowed marker) marker.length L (s.carried seen ++ rest)
  | some g =>
    if s.goodUnitLength + rest.length < L then []
    else (g.take s.goodUnitLength ++ rest.take (L - s.goodUnitLength)) ::
      scan (near allowed marker) marker.length L (rest.drop (L - s.goodUnitLength))

/-- The octets `seen` end in the `q`-th marked unit, as far as the state says. -/
def Anchored (marker : Bytes) (L : ℕ) (s : Remove) (seen : Bytes) (q : ℕ) : Prop :=
  match s.goodUnit with
  | none => seen.length = q * (marker.length + L) + s.markerOffset
  | some _ => seen.length = q * (marker.length + L) + marker.length + s.goodUnitLength

/-- A pass that advances, keeps `Tracks`, and sends what it takes out of what is owed. -/
structure Pays (marker : Bytes) (L : ℕ) (allowed : ℤ) (s : Remove) (seen data later : Bytes)
    (s' : Remove) (sent : List Bytes) (advanceLen : ℕ) : Prop where
  pos : 0 < advanceLen
  le : advanceLen ≤ data.length
  tracks : Tracks marker L allowed s' (seen ++ data.take advanceLen)
  pays : owed marker L allowed s seen (data ++ later) =
    sent ++ owed marker L allowed s' (seen ++ data.take advanceLen) (data.drop advanceLen ++ later)
  anchored : ∀ q, Anchored marker L s seen q →
    (s.goodUnit = none ∧ s.matching data = false) ∨
      ∃ q', Anchored marker L s' (seen ++ data.take advanceLen) q'

variable {marker : Bytes} {L : ℕ} {allowed : ℤ} {s : Remove} {seen data later : Bytes}

@[simp] theorem carried_length (h : s.markerOffset ≤ seen.length) :
    (s.carried seen).length = s.markerOffset := by
  simp [carried]; omega

theorem carried_zero (h : s.markerOffset = 0) : s.carried seen = [] := by
  simp [carried, h]

/-- The comparison counts the errors of the candidate with the data against the marker. -/
theorem Tracks.matching_iff (h : Tracks marker L allowed s seen) :
    s.matching data = true ↔
      (bitDistance (s.carried seen ++ data.take s.partialMarkerLen) marker : ℤ) ≤ allowed := by
  have hlen : (data.take s.partialMarkerLen).length ≤ (s.markerBuf.drop s.markerOffset).length := by
    simp [partialMarkerLen]
  rw [matching, comparison, markerMatch_iff _ (List.length_take_of_le hlen).symm,
    bitDistance_take _ _ le_rfl, h.allowed_eq, h.errors_eq, bitDistance_append_left,
    carried_length h.offset_le, h.marker_eq]

/-- Errors already over the allowance stay over it. -/
theorem near_take_false {u w : Bytes} (hu : u.length ≤ marker.length)
    (h : ¬ (bitDistance u marker : ℤ) ≤ allowed) : near allowed marker (u ++ w) = false := by
  rw [Bool.eq_false_iff, Ne, near_iff]
  rintro ⟨-, hn⟩
  rw [List.take_append, List.take_of_length_le hu, bitDistance_append_left] at hn
  omega

/-- Where no marker starts in the octets given up, nothing owed is lost by giving them up. -/
theorem scan_giveUp {u rest : Bytes} (k : ℕ) (h0 : near allowed marker (u ++ rest) = false)
    (h : ∀ j < k, 0 < j → near allowed marker ((u ++ rest).drop j) = false) :
    scan (near allowed marker) marker.length L (u ++ rest) =
      scan (near allowed marker) marker.length L ((u ++ rest).drop k) := by
  apply scan_drop
  intro i hi
  rcases Nat.eq_zero_or_pos i with rfl | hpos
  · exact h0
  · exact h i hi hpos

/-- The search branch in terms of the comparison it makes. -/
theorem findASM_eq (s : Remove) (data : Bytes) :
    s.findASM data =
      if data.length < s.partialMarkerLen then
        if s.matching data then
          .ok ({ (s.comparison data).1 with
            markerOffset := (s.comparison data).1.markerOffset + data.length }, [], data.length)
        else .ok ((s.comparison data).1.missedPartial, [], data.length)
      else if s.matching data then (s.comparison data).1.foundASM data s.partialMarkerLen
      else .ok ((s.comparison data).1.missedASM, [], 1) := by
  by_cases hlt : data.length < s.partialMarkerLen
  · have hc : s.comparison data =
        s.markerMatch data ((s.markerBuf.drop s.markerOffset).take data.length) := by
      rw [comparison, List.take_of_length_le (by omega)]
    rw [findASM, matching, hc]
    simp only [if_pos hlt, if_pos (show data.length < s.markerBuf.length - s.markerOffset from hlt)]
    rcases s.markerMatch data ((s.markerBuf.drop s.markerOffset).take data.length) with ⟨s₁, b⟩
    cases b <;> rfl
  · have hc : s.comparison data = s.markerMatch (data.take s.partialMarkerLen)
        ((s.markerBuf.drop s.markerOffset).take s.partialMarkerLen) := by
      rw [comparison, List.length_take_of_le (by omega)]
    rw [findASM, matching, hc]
    have hp : s.markerBuf.length - s.markerOffset = s.partialMarkerLen := rfl
    simp only [hp, if_neg hlt]
    rcases s.markerMatch (data.take s.partialMarkerLen)
      ((s.markerBuf.drop s.markerOffset).take s.partialMarkerLen) with ⟨s₁, b⟩
    cases b <;> rfl

theorem carried_append {s' : Remove} (h : s'.markerOffset = s.markerOffset + data.length)
    (hle : s.markerOffset ≤ seen.length) : s'.carried (seen ++ data) = s.carried seen ++ data := by
  rw [carried, carried, h, List.length_append,
    show seen.length + data.length - (s.markerOffset + data.length) =
      seen.length - s.markerOffset by omega, List.drop_append_of_le_length (by omega)]

theorem owed_none (hg : s.goodUnit = none) (rest : Bytes) :
    owed marker L allowed s seen rest =
      scan (near allowed marker) marker.length L (s.carried seen ++ rest) := by
  rw [owed, hg]

theorem anchored_none (hg : s.goodUnit = none) {q : ℕ} :
    Anchored marker L s seen q ↔
      seen.length = q * (marker.length + L) + s.markerOffset := by
  rw [Anchored, hg]

/-- A search that starts afresh carries nothing. -/
theorem Tracks.afresh (h : Tracks marker L allowed s seen) {s' : Remove} (hs : SameSetup s s')
    (hg : s.goodUnit = none) (ho : s'.markerOffset = 0) (he : s'.currentBitErrors = 0)
    (seen' : Bytes) : Tracks marker L allowed s' seen' := by
  have hpos := h.offset_lt
  refine ⟨hs.rebuildMarker.trans h.built, hs.markerBuf.trans h.marker_eq,
    hs.expectedUnitLength.trans h.unit_eq, hs.allowed.trans h.allowed_eq, by omega, by omega, ?_, ?_⟩
  · rw [carried_zero ho, he, bitDistance_nil]
  · intro g hg'
    rw [hs.goodUnit, hg] at hg'
    exact absurd hg' (by simp)

/-- A pass at the end of the data that matched as much of the marker as there was. -/
theorem pays_partialHit (h : Tracks marker L allowed s seen) (hd : data ≠ [])
    (hg : s.goodUnit = none) (hlt : data.length < s.partialMarkerLen) {s' : Remove}
    (hs : SameSetup s s') (ho : s'.markerOffset = s.markerOffset + data.length)
    (he : s'.currentBitErrors = bitDistance (s.carried seen ++ data) marker) :
    Pays marker L allowed s seen data later s' [] data.length := by
  have hoff := h.offset_lt
  have hoff' := h.offset_le
  have hcar : s'.carried (seen ++ data) = s.carried seen ++ data := carried_append ho hoff'
  have hg' : s'.goodUnit = none := hs.goodUnit.trans hg
  refine ⟨List.length_pos_iff.2 hd, le_rfl, ?_, ?_, ?_⟩
  · rw [List.take_length]
    refine ⟨hs.rebuildMarker.trans h.built, hs.markerBuf.trans h.marker_eq,
      hs.expectedUnitLength.trans h.unit_eq, hs.allowed.trans h.allowed_eq, ?_, ?_, ?_, ?_⟩
    · rw [partialMarkerLen, h.marker_eq] at hlt; omega
    · rw [List.length_append]; omega
    · rw [hcar, he]
    · intro g hg''
      rw [hg'] at hg''
      exact absurd hg'' (by simp)
  · rw [List.take_length, List.drop_length, List.nil_append, List.nil_append, owed_none hg,
      owed_none hg', hcar, List.append_assoc]
  · intro q hq
    rw [anchored_none hg] at hq
    refine Or.inr ⟨q, (anchored_none hg').2 ?_⟩
    rw [List.take_length, List.length_append, ho]; omega

/-- A pass that gave up `k` octets of the candidate and the data, at none of which a
marker starts. -/
theorem pays_giveUp (h : Tracks marker L allowed s seen) (hg : s.goodUnit = none)
    (hm : s.matching data = false) {s' : Remove}
    (hs : SameSetup s s') (ho : s'.markerOffset = 0) (he : s'.currentBitErrors = 0)
    {advanceLen : ℕ} (hpos : 0 < advanceLen) (hle : advanceLen ≤ data.length)
    (h0 : near allowed marker (s.carried seen ++ data ++ later) = false)
    (hno : ∀ j < s.markerOffset + advanceLen, 0 < j →
      near allowed marker ((s.carried seen ++ data ++ later).drop j) = false) :
    Pays marker L allowed s seen data later s' [] advanceLen := by
  refine ⟨hpos, hle, h.afresh hs hg ho he _, ?_, fun _ _ => Or.inl ⟨hg, hm⟩⟩
  rw [owed_none hg, owed_none (hs.goodUnit.trans hg), carried_zero ho, List.nil_append,
    List.nil_append, ← List.append_assoc, List.append_assoc,
    scan_giveUp (s.markerOffset + advanceLen) (by rw [← List.append_assoc]; exact h0)
      (by rw [← List.append_assoc]; exact hno), ← List.drop_drop]
  rw [List.drop_left' (carried_length h.offset_le), List.drop_append_of_le_length hle]

/-- A whole marker with a whole unit behind it. -/
theorem pays_wholeUnit (h : Tracks marker L allowed s seen) (hg : s.goodUnit = none) {s' : Remove}
    (hs : SameSetup s s') (ho : s'.markerOffset = 0) (he : s'.currentBitErrors = 0)
    (h0 : near allowed marker (s.carried seen ++ data ++ later) = true)
    (hle : s.partialMarkerLen + L ≤ data.length) :
    Pays marker L allowed s seen data later s' [(data.drop s.partialMarkerLen).take L]
      (s.partialMarkerLen + L) := by
  have hoff := h.offset_lt
  have hp : s.markerOffset + s.partialMarkerLen = marker.length := by
    rw [partialMarkerLen, h.marker_eq]; omega
  have hdrop : (s.carried seen ++ data ++ later).drop marker.length =
      data.drop s.partialMarkerLen ++ later := by
    rw [← hp, ← List.drop_drop, List.append_assoc, List.drop_left' (carried_length h.offset_le),
      List.drop_append_of_le_length (by omega)]
  refine ⟨by omega, hle, h.afresh hs hg ho he _, ?_, ?_⟩
  · rw [owed_none hg, owed_none (hs.goodUnit.trans hg), carried_zero ho, List.nil_append,
      ← List.append_assoc, scan_hit h0 (by omega)
        (by simp only [List.length_append, carried_length h.offset_le]; omega),
      ← List.drop_drop, hdrop, List.take_append_of_le_length (by rw [List.length_drop]; omega),
      List.drop_append_of_le_length (by rw [List.length_drop]; omega), List.drop_drop]
    rfl
  · intro q hq
    rw [anchored_none hg] at hq
    refine Or.inr ⟨q + 1, (anchored_none (hs.goodUnit.trans hg)).2 ?_⟩
    rw [List.length_append, List.length_take_of_le hle, ho, Nat.succ_mul]; omega

/-- A state that holds the first `glen` octets of a unit. -/
structure Holds (marker : Bytes) (L : ℕ) (allowed : ℤ) (s : Remove) (g : Bytes) : Prop where
  built : s.rebuildMarker = false
  marker_eq : s.markerBuf = marker
  unit_eq : s.expectedUnitLength = L
  allowed_eq : s.allowedMarkerBitErrors = allowed
  goodUnit : s.goodUnit = some g
  length_eq : g.length = L
  lt : s.goodUnitLength < L
  offset_zero : s.markerOffset = 0
  errors_zero : s.currentBitErrors = 0

theorem Holds.tracks {g : Bytes} (h : Holds marker L allowed s g) (hne : marker ≠ [])
    (seen : Bytes) : Tracks marker L allowed s seen := by
  refine ⟨h.built, h.marker_eq, h.unit_eq, h.allowed_eq, ?_, ?_, ?_, ?_⟩
  · rw [h.offset_zero]; exact List.length_pos_iff.2 hne
  · rw [h.offset_zero]; exact Nat.zero_le _
  · rw [carried_zero h.offset_zero, h.errors_zero, bitDistance_nil]
  · intro g' hg'
    obtain rfl : g = g' := Option.some.inj (h.goodUnit.symm.trans hg')
    exact ⟨h.offset_zero, h.length_eq, h.lt⟩

theorem Tracks.holds {g : Bytes} (h : Tracks marker L allowed s seen) (hg : s.goodUnit = some g) :
    Holds marker L allowed s g := by
  obtain ⟨ho, hl, hlt⟩ := h.unit_ok g hg
  refine ⟨h.built, h.marker_eq, h.unit_eq, h.allowed_eq, hg, hl, hlt, ho, ?_⟩
  rw [h.errors_eq, carried_zero ho, bitDistance_nil]

theorem Holds.anchored_iff {g : Bytes} (h : Holds marker L allowed s g) {q : ℕ} :
    Anchored marker L s seen q ↔
      seen.length = q * (marker.length + L) + marker.length + s.goodUnitLength := by
  rw [Anchored, h.goodUnit]

theorem Holds.owed_eq {g : Bytes} (h : Holds marker L allowed s g) (seen rest : Bytes) :
    owed marker L allowed s seen rest =
      if s.goodUnitLength + rest.length < L then []
      else (g.take s.goodUnitLength ++ rest.take (L - s.goodUnitLength)) ::
        scan (near allowed marker) marker.length L (rest.drop (L - s.goodUnitLength)) := by
  rw [owed, h.goodUnit]

/-- A whole marker with part of a unit behind it. -/
theorem pays_heldUnit (h : Tracks marker L allowed s seen) (hg : s.goodUnit = none) {s' : Remove}
    {g : Bytes} (hs : Holds marker L allowed s' g)
    (hlen : s'.goodUnitLength = data.length - s.partialMarkerLen)
    (hgood : g.take s'.goodUnitLength = data.drop s.partialMarkerLen)
    (h0 : near allowed marker (s.carried seen ++ data ++ later) = true)
    (hle : s.partialMarkerLen ≤ data.length) :
    Pays marker L allowed s seen data later s' [] data.length := by
  have hoff := h.offset_lt
  have hp : s.markerOffset + s.partialMarkerLen = marker.length := by
    rw [partialMarkerLen, h.marker_eq]; omega
  have hlt := hs.lt
  have hne : marker ≠ [] := List.length_pos_iff.1 (by omega)
  have hdrop : (s.carried seen ++ data ++ later).drop marker.length =
      data.drop s.partialMarkerLen ++ later := by
    rw [← hp, ← List.drop_drop, List.append_assoc, List.drop_left' (carried_length h.offset_le),
      List.drop_append_of_le_length (by omega)]
  refine ⟨by omega, le_rfl, hs.tracks hne _, ?_, ?_⟩
  · rw [owed_none hg, hs.owed_eq, List.drop_length, List.nil_append, List.nil_append,
      ← List.append_assoc]
    by_cases hc : s'.goodUnitLength + later.length < L
    · rw [if_pos hc]
      exact scan_short h0 (by simp only [List.length_append, carried_length h.offset_le]; omega)
    · have hdl : (data.drop s.partialMarkerLen).length = s'.goodUnitLength := by
        rw [List.length_drop, hlen]
      have hd₁ : (data.drop s.partialMarkerLen).take L = data.drop s.partialMarkerLen :=
        List.take_of_length_le (by omega)
      have hd₂ : (data.drop s.partialMarkerLen).drop L = [] := List.drop_of_length_le (by omega)
      rw [if_neg hc, scan_hit h0 (by omega)
        (by simp only [List.length_append, carried_length h.offset_le]; omega), ← List.drop_drop,
        hdrop, List.take_append, List.drop_append, hdl, hd₁, hd₂, List.nil_append, hgood]
  · intro q hq
    rw [anchored_none hg] at hq
    refine Or.inr ⟨q, hs.anchored_iff.2 ?_⟩
    rw [List.take_length, List.length_append]; omega

/-- The rest of a unit. -/
theorem pays_completed {g : Bytes} (h : Holds marker L allowed s g) (hne : marker ≠ [])
    {s' : Remove} (hs : s' = { s with goodUnit := none })
    (hle : L - s.goodUnitLength ≤ data.length) :
    Pays marker L allowed s seen data later s'
      [g.take s.goodUnitLength ++ data.take (L - s.goodUnitLength)] (L - s.goodUnitLength) := by
  have hlt := h.lt
  have ho : s'.markerOffset = 0 := by rw [hs]; exact h.offset_zero
  refine ⟨by omega, hle, ?_, ?_, ?_⟩
  · refine ⟨by rw [hs]; exact h.built, by rw [hs]; exact h.marker_eq, by rw [hs]; exact h.unit_eq,
      by rw [hs]; exact h.allowed_eq, ?_, by omega, ?_, ?_⟩
    · rw [ho]; exact List.length_pos_iff.2 hne
    · rw [carried_zero ho, bitDistance_nil, hs]; exact h.errors_zero
    · intro g' hg'
      rw [hs] at hg'
      exact absurd hg' (by simp)
  · rw [h.owed_eq, owed_none (by rw [hs]), carried_zero ho, List.nil_append,
      if_neg (by rw [List.length_append]; omega), List.take_append_of_le_length hle,
      List.drop_append_of_le_length hle]
    rfl
  · intro q hq
    rw [h.anchored_iff] at hq
    refine Or.inr ⟨q + 1, (anchored_none (by rw [hs])).2 ?_⟩
    rw [List.length_append, List.length_take_of_le hle, ho, Nat.succ_mul]; omega

/-- More of a unit, but not the rest of it. -/
theorem pays_extended {g g' : Bytes} (h : Holds marker L allowed s g) (hne : marker ≠ [])
    (hd : data ≠ []) {s' : Remove} (hs : Holds marker L allowed s' g')
    (hlen : s'.goodUnitLength = s.goodUnitLength + data.length)
    (hg : g'.take s'.goodUnitLength = g.take s.goodUnitLength ++ data) :
    Pays marker L allowed s seen data later s' [] data.length := by
  have hlt := hs.lt
  refine ⟨List.length_pos_iff.2 hd, le_rfl, hs.tracks hne _, ?_, ?_⟩
  · rw [h.owed_eq, hs.owed_eq, List.drop_length, List.nil_append, List.nil_append,
      List.length_append, hlen, ← Nat.add_assoc]
    by_cases hc : s.goodUnitLength + data.length + later.length < L
    · rw [if_pos hc, if_pos hc]
    · have hd₁ : data.take (L - s.goodUnitLength) = data := List.take_of_length_le (by omega)
      have hd₂ : data.drop (L - s.goodUnitLength) = [] := List.drop_of_length_le (by omega)
      rw [if_neg hc, if_neg hc, ← hlen, hg, List.take_append, List.drop_append, hd₁, hd₂,
        List.nil_append, List.append_assoc, hlen, Nat.sub_sub]
  · intro q hq
    rw [h.anchored_iff] at hq
    refine Or.inr ⟨q, hs.anchored_iff.2 ?_⟩
    rw [List.take_length, List.length_append]; omega

theorem comparison_sameSetup (s : Remove) (data : Bytes) : SameSetup s (s.comparison data).1 :=
  markerMatch_sameSetup _ _ _

/-- A whole marker was compared, and found. -/
theorem foundASM_spec (h : Tracks marker L allowed s seen) (hg : s.goodUnit = none)
    (hle : s.partialMarkerLen ≤ data.length) (hL : L ≠ 0)
    (h0 : near allowed marker (s.carried seen ++ data ++ later) = true) :
    ∃ s' sent advanceLen, (s.comparison data).1.foundASM data s.partialMarkerLen =
        .ok (s', sent, advanceLen) ∧
      Pays marker L allowed s seen data later s' sent advanceLen := by
  have hs := comparison_sameSetup s data
  have hu : (s.comparison data).1.expectedUnitLength = L := hs.expectedUnitLength.trans h.unit_eq
  rw [foundASM]
  simp only [hu]
  by_cases hc : data.length - s.partialMarkerLen ≥ L
  · have hw : wrapInnerPDU data L s.partialMarkerLen =
        .ok ((data.drop s.partialMarkerLen).take L) := by
      rw [wrapInnerPDU]
      simp only [if_neg hL]
      rw [if_pos (by omega)]
    rw [if_pos hc, hw]
    refine ⟨_, _, _, rfl, pays_wholeUnit h hg ?_ rfl rfl h0 (by omega)⟩
    exact ⟨hs.rebuildMarker, hs.markerBuf, h.unit_eq.symm, hs.allowed, hs.goodUnit⟩
  · have hfit : 0 + (data.drop s.partialMarkerLen).length ≤ (newUnit L).length := by
      rw [newUnit_length, List.length_drop]; omega
    rw [if_neg hc, copyUnit_ok hfit]
    refine ⟨_, _, _, rfl, ?_⟩
    rw [show s.partialMarkerLen + (data.length - s.partialMarkerLen) = data.length by omega]
    refine pays_heldUnit h hg (g := overwrite (newUnit L) 0 (data.drop s.partialMarkerLen))
      ⟨hs.rebuildMarker.trans h.built, hs.markerBuf.trans h.marker_eq, rfl,
        hs.allowed.trans h.allowed_eq, rfl, ?_, ?_, rfl, rfl⟩ rfl ?_ h0 hle
    · rw [overwrite_length hfit, newUnit_length]
    · show data.length - s.partialMarkerLen < L
      omega
    · show (overwrite (newUnit L) 0 (data.drop s.partialMarkerLen)).take
        (data.length - s.partialMarkerLen) = _
      rw [overwrite, List.take_zero, List.nil_append, List.take_left' (by rw [List.length_drop])]

/-- The comparison decides whether a marker within the allowance starts at the candidate. -/
theorem Tracks.matching_near (h : Tracks marker L allowed s seen)
    (hle : s.partialMarkerLen ≤ data.length) :
    s.matching data = near allowed marker (s.carried seen ++ data ++ later) := by
  have hoff := h.offset_lt
  have hp : s.markerOffset + s.partialMarkerLen = marker.length := by
    rw [partialMarkerLen, h.marker_eq]; omega
  have htake : (s.carried seen ++ data ++ later).take marker.length =
      s.carried seen ++ data.take s.partialMarkerLen := by
    rw [← hp, List.append_assoc, List.take_append, carried_length h.offset_le,
      Nat.add_sub_cancel_left, List.take_of_length_le (by rw [carried_length h.offset_le]; omega),
      List.take_append_of_le_length hle]
  rw [Bool.eq_iff_iff, h.matching_iff, near_iff, htake]
  constructor
  · intro hm
    exact ⟨by simp only [List.length_append, carried_length h.offset_le]; omega, hm⟩
  · exact And.right

/-- The search branch. -/
theorem findASM_spec (h : Tracks marker L allowed s seen) (hd : data ≠ [])
    (hg : s.goodUnit = none) (hok : s.PassOk seen data later) :
    ∃ s' sent advanceLen, s.findASM data = .ok (s', sent, advanceLen) ∧
      Pays marker L allowed s seen data later s' sent advanceLen := by
  have hs := comparison_sameSetup s data
  have hpos : 0 < data.length := List.length_pos_iff.2 hd
  have hcar := carried_length h.offset_le
  have hok := hok hg
  rw [h.allowed_eq, h.marker_eq, h.unit_eq] at hok
  rw [findASM_eq]
  by_cases hlt : data.length < s.partialMarkerLen
  · rw [if_pos hlt]
    have htake : data.take s.partialMarkerLen = data := List.take_of_length_le (by omega)
    by_cases hm : s.matching data = true
    · rw [if_pos hm]
      refine ⟨_, _, _, rfl, pays_partialHit h hd hg hlt
        ⟨hs.rebuildMarker, hs.markerBuf, hs.expectedUnitLength, hs.allowed, hs.goodUnit⟩ ?_ ?_⟩
      · exact congrArg (· + data.length) (markerMatch_offset _ _ _)
      · rw [comparison, markerMatch_errors s hm, bitDistance_take _ _ le_rfl, htake, h.errors_eq,
          bitDistance_append_left, hcar, h.marker_eq]
    · rw [if_neg hm]
      rw [if_neg hm] at hok
      have hs' : SameSetup s (s.comparison data).1.missedPartial :=
        ⟨hs.rebuildMarker, hs.markerBuf, hs.expectedUnitLength, hs.allowed, hs.goodUnit⟩
      refine ⟨_, _, _, rfl, pays_giveUp h hg (by simpa using hm) hs' rfl rfl hpos le_rfl ?_ ?_⟩
      · rw [h.matching_iff, htake] at hm
        refine near_take_false ?_ hm
        rw [partialMarkerLen, h.marker_eq] at hlt
        rw [List.length_append, hcar]; omega
      · rw [givenUp, if_pos hlt] at hok
        exact hok
  · rw [if_neg hlt]
    have hle : s.partialMarkerLen ≤ data.length := by omega
    by_cases hm : s.matching data = true
    · rw [if_pos hm]
      rw [if_pos hm] at hok
      exact foundASM_spec h hg hle (hok hle) (by rw [← h.matching_near hle, hm])
    · rw [if_neg hm]
      rw [if_neg hm, givenUp, if_neg hlt] at hok
      have hs' : SameSetup s (s.comparison data).1.missedASM :=
        ⟨hs.rebuildMarker, hs.markerBuf, hs.expectedUnitLength, hs.allowed, hs.goodUnit⟩
      refine ⟨_, _, _, rfl, pays_giveUp h hg (by simpa using hm) hs' rfl rfl
        Nat.one_pos hpos ?_ hok⟩
      rw [← h.matching_near hle]
      simpa using hm

/-- The branch that goes on with a unit. -/
theorem continueUnit_spec {g : Bytes} (h : Holds marker L allowed s g) (hne : marker ≠ [])
    (hd : data ≠ []) :
    ∃ s' sent advanceLen, s.continueUnit g data = .ok (s', sent, advanceLen) ∧
      Pays marker L allowed s seen data later s' sent advanceLen := by
  obtain rfl := h.unit_eq
  have hlt := h.lt
  have hgl := h.length_eq
  rw [continueUnit]
  by_cases hc : data.length ≥ s.expectedUnitLength - s.goodUnitLength
  · have hlen : (data.take (s.expectedUnitLength - s.goodUnitLength)).length =
        s.expectedUnitLength - s.goodUnitLength :=
      List.length_take_of_le hc
    have hu : overwrite g s.goodUnitLength (data.take (s.expectedUnitLength - s.goodUnitLength)) =
        g.take s.goodUnitLength ++ data.take (s.expectedUnitLength - s.goodUnitLength) := by
      rw [overwrite, hlen, List.drop_of_length_le (by omega), List.append_nil]
    rw [if_pos hc, copyUnit_ok (by omega), hu]
    exact ⟨_, _, _, rfl, pays_completed h hne rfl hc⟩
  · have hs : Holds marker s.expectedUnitLength allowed { s with
        goodUnit := some (overwrite g s.goodUnitLength data)
        goodUnitLength := s.goodUnitLength + data.length } (overwrite g s.goodUnitLength data) := by
      refine ⟨h.built, h.marker_eq, h.unit_eq, h.allowed_eq, rfl, ?_, ?_, h.offset_zero,
        h.errors_zero⟩
      · rw [overwrite_length (by omega), hgl]
      · show s.goodUnitLength + data.length < s.expectedUnitLength
        omega
    rw [if_neg hc, copyUnit_ok (by omega)]
    refine ⟨_, _, _, rfl, pays_extended h hne hd hs rfl ?_⟩
    · show (overwrite g s.goodUnitLength data).take (s.goodUnitLength + data.length) = _
      rw [overwrite]
      exact List.take_left' (by
        rw [List.length_append, List.length_take_of_le (by omega)])

/-- **One pass of the loop** pays what it sends out of what the search owes. -/
theorem pass_spec (h : Tracks marker L allowed s seen) (hd : data ≠ [])
    (hok : s.PassOk seen data later) :
    ∃ s' sent advanceLen, s.pass data = .ok (s', sent, advanceLen) ∧
      Pays marker L allowed s seen data later s' sent advanceLen := by
  have hne : marker ≠ [] := List.length_pos_iff.1 (lt_of_le_of_lt (Nat.zero_le _) h.offset_lt)
  rw [pass]
  cases hg : s.goodUnit with
  | none => exact findASM_spec h hd hg hok
  | some g => exact continueUnit_spec (h.holds hg) hne hd

end Remove

end ChannelEmulator.ASM
