import ChannelEmulator.Framing.Run
import ChannelEmulator.Proof.SymbolTables

/-!
# Interleaving

The symbols of a message are counted from its end, and so are the places of the rows: one offset after the
other, and of each offset the last row first.

* `ccsdsInterleave_ok`: **each place has the symbol of its number.**
* `ccsdsDeinterleave_ok`: the places in the order of their numbers are the message.
* `deinterleave_data`: data comes back behind its virtual fill.
-/

namespace ChannelEmulator.ReedSolomon

variable {rs : RSBase} {I n start q t : ℕ}

/-- The number of a place, from the end on; `start` is the last offset. -/
def slot (I start row offset : ℕ) : ℕ := (start - offset) * I + (I - 1 - row)

/-- Numbers of places are unique. -/
theorem slot_inj {a b c d : ℕ} (hb : b < I) (hd : d < I) (h : a * I + b = c * I + d) : a = c ∧ b = d := by
  have hdiv : ∀ a b, b < I → (a * I + b) / I = a := by
    intro a b hb
    rw [Nat.add_comm, Nat.add_mul_div_right _ _ (by omega), Nat.div_eq_of_lt hb, Nat.zero_add]
  have hac : a = c := by rw [← hdiv a b hb, h, hdiv c d hd]
  subst hac
  exact ⟨rfl, Nat.add_left_cancel h⟩

theorem slot_of_number {k : ℕ} (hI : 0 < I) (hk : k / I ≤ start) :
    slot I start (I - 1 - k % I) (start - k / I) = k := by
  have hmod := Nat.mod_lt k hI
  have hdiv := Nat.div_add_mod' k I
  unfold slot
  rw [Nat.sub_sub_self hk, Nat.sub_sub_self (Nat.le_sub_one_of_lt hmod), hdiv]

theorem number_div_mod (ht : t < I) : (q * I + t) / I = q ∧ (q * I + t) % I = t := by
  have hmod := Nat.mod_lt (q * I + t) (Nat.zero_lt_of_lt ht)
  exact slot_inj hmod ht (Nat.div_add_mod' _ _)

/-! ## Rows -/

/-- Symbols in a row. -/
def line (n : ℕ) (f : ℕ → Sym) : SymVec := (List.range n).map f

/-- Rows of symbols. -/
def grid (I n : ℕ) (f : ℕ → ℕ → Sym) : List SymVec := (List.range I).map fun row => line n (f row)

theorem line_getElem? {f : ℕ → Sym} {o : ℕ} (ho : o < n) : (line n f)[o]? = some (f o) := by
  unfold line
  rw [List.getElem?_map, List.getElem?_range ho]
  rfl

theorem rowAt_grid {f : ℕ → ℕ → Sym} {row : ℕ} (hrow : row < I) :
    RSBase.rowAt (grid I n f) row = .ok (line n (f row)) := by
  unfold RSBase.rowAt grid
  rw [List.getElem?_map, List.getElem?_range hrow]
  rfl

theorem map_range_set {α : Type} (f : ℕ → α) (k : ℕ) (a : α) :
    ((List.range n).map f).set k a = (List.range n).map (Function.update f k a) := by
  refine List.ext_getElem? fun i => ?_
  rw [List.getElem?_set, List.length_map, List.length_range, List.getElem?_map, List.getElem?_map]
  by_cases hi : i < n
  · rw [List.getElem?_range hi]
    by_cases hki : k = i
    · subst hki
      rw [if_pos rfl, if_pos hi, Option.map_some, Function.update_self]
    · rw [if_neg hki, Option.map_some, Option.map_some, Function.update_of_ne (Ne.symm hki)]
  · rw [List.getElem?_eq_none (by rw [List.length_range]; omega), Option.map_none, Option.map_none]
    by_cases hki : k = i
    · rw [if_pos hki, if_neg (hki ▸ hi)]
    · rw [if_neg hki]

theorem line_set (f : ℕ → Sym) (o : ℕ) (s : Sym) : (line n f).set o s = line n (Function.update f o s) :=
  map_range_set f o s

theorem grid_set (f : ℕ → ℕ → Sym) (row : ℕ) (u : ℕ → Sym) :
    (grid I n f).set row (line n u) = grid I n (Function.update f row u) := by
  unfold grid
  rw [map_range_set]
  refine List.map_congr_left fun r _ => ?_
  by_cases hr : r = row
  · subst hr
    rw [Function.update_self, Function.update_self]
  · rw [Function.update_of_ne hr, Function.update_of_ne hr]

/-- One place of the rows is stored. -/
def stored (f : ℕ → ℕ → Sym) (row offset : ℕ) (s : Sym) : ℕ → ℕ → Sym :=
  Function.update f row (Function.update (f row) offset s)

theorem stored_self (f : ℕ → ℕ → Sym) (row offset : ℕ) (s : Sym) :
    stored f row offset s row offset = s := by
  unfold stored
  rw [Function.update_self, Function.update_self]

theorem stored_of_ne {f : ℕ → ℕ → Sym} {row offset r o : ℕ} {s : Sym} (h : ¬ (r = row ∧ o = offset)) :
    stored f row offset s r o = f r o := by
  unfold stored
  by_cases hr : r = row
  · subst hr
    rw [Function.update_self, Function.update_of_ne (fun ho => h ⟨rfl, ho⟩)]
  · rw [Function.update_of_ne hr]

/-- The next number of a place is in the row before, or in the last row. -/
theorem next_row {row : ℕ} (ht : t < I) (hrow : row = I - 1 - t) :
    (row = 0 → q * I + t + 1 = (q + 1) * I + 0) ∧ (row ≠ 0 → t + 1 < I ∧ row - 1 = I - 1 - (t + 1)) := by
  refine ⟨fun h0 => ?_, fun h0 => by omega⟩
  rw [Nat.succ_mul]
  omega

theorem predSize_sub {rest : ℕ} (hlen : (q + 1) * I + rest ≤ (start + 1) * I) (hrest : 0 < rest) :
    RSBase.predSize (start - q) = start - (q + 1) ∧ q + 1 ≤ start := by
  have hlt : q + 1 < start + 1 := Nat.lt_of_mul_lt_mul_right (a := I) (by omega)
  obtain ⟨k, hk⟩ : ∃ k, start - q = k + 1 := ⟨start - (q + 1), by omega⟩
  refine ⟨?_, by omega⟩
  rw [hk]
  show k = _
  omega

/-! ## Interleaving -/

/-- The loop of `ccsdsInterleave`: the symbols get the places from the number `q * I + t` on. -/
theorem interleaveFrom_ok (hI : rs.interleaveDepth = I) (hstart : start < n) (rest : SymVec) {offset : ℕ}
    {f : ℕ → ℕ → Sym} (ht : t < I) (hoffset : 0 < rest.length → offset = start - q ∧ q ≤ start)
    (hlen : q * I + t + rest.length ≤ (start + 1) * I) :
    ∃ f', rs.interleaveFrom rest (I - 1 - t) offset (grid I n f) = .ok (grid I n f') ∧
      ∀ r < I, ∀ o < n, f' r o = if o ≤ start ∧ q * I + t ≤ slot I start r o then
        (rest[slot I start r o - (q * I + t)]?).getD (f r o) else f r o := by
  induction rest generalizing q t offset f with
  | nil =>
    refine ⟨f, rfl, fun r _ o _ => ?_⟩
    rw [List.getElem?_nil, Option.getD_none, ite_self]
  | cons s rest ih =>
    obtain ⟨rfl, hq⟩ := hoffset (Nat.succ_pos _)
    have hlen' : q * I + t + 1 + rest.length ≤ (start + 1) * I := by
      rw [List.length_cons] at hlen
      omega
    have hplace : ∀ r < I, ∀ o ≤ start,
        (slot I start r o = q * I + t ↔ r = I - 1 - t ∧ o = start - q) := by
      intro r hr o ho
      constructor
      · intro h
        obtain ⟨hdiv, hmod⟩ := slot_inj (show I - 1 - r < I by omega) ht h
        omega
      · rintro ⟨rfl, rfl⟩
        unfold slot
        rw [show start - (start - q) = q by omega, show I - 1 - (I - 1 - t) = t by omega]
    have hset : (grid I n f).set (I - 1 - t) ((line n (f (I - 1 - t))).set (start - q) s) =
        grid I n (stored f (I - 1 - t) (start - q) s) := by
      rw [line_set, grid_set]
      rfl
    -- the places from the next number on
    have hnext : ∃ f', (if I - 1 - t = 0 then rs.interleaveFrom rest (I - 1) (RSBase.predSize (start - q))
          (grid I n (stored f (I - 1 - t) (start - q) s))
        else rs.interleaveFrom rest (I - 1 - t - 1) (start - q)
          (grid I n (stored f (I - 1 - t) (start - q) s))) = .ok (grid I n f') ∧
        ∀ r < I, ∀ o < n, f' r o = if o ≤ start ∧ q * I + t + 1 ≤ slot I start r o then
          (rest[slot I start r o - (q * I + t + 1)]?).getD (stored f (I - 1 - t) (start - q) s r o)
          else stored f (I - 1 - t) (start - q) s r o := by
      obtain ⟨hwrap, hbefore⟩ := next_row (q := q) ht rfl
      by_cases h0 : I - 1 - t = 0
      · rw [hwrap h0] at hlen' ⊢
        rw [if_pos h0]
        exact ih (q := q + 1) (t := 0) (by omega) (fun hpos => predSize_sub hlen' hpos) hlen'
      · obtain ⟨hlt, hrow⟩ := hbefore h0
        rw [if_neg h0, hrow]
        exact ih (q := q) (t := t + 1) hlt (fun _ => ⟨rfl, hq⟩) hlen'
    obtain ⟨f', hrun, hf'⟩ := hnext
    refine ⟨f', ?_, fun r hr o ho => ?_⟩
    · unfold RSBase.interleaveFrom
      rw [rowAt_grid (show I - 1 - t < I by omega), Framing.ok_bind,
        setAt_ok (by rw [line, List.length_map, List.length_range]; omega), Framing.ok_bind, hI, hset]
      exact hrun
    · rw [hf' r hr o ho]
      by_cases hos : o ≤ start
      · rcases Nat.lt_trichotomy (slot I start r o) (q * I + t) with hlt | heq | hgt
        · rw [if_neg (by omega), if_neg (by omega), stored_of_ne (fun h => ?_)]
          rw [(hplace r hr o hos).2 h] at hlt
          exact Nat.lt_irrefl _ hlt
        · obtain ⟨rfl, rfl⟩ := (hplace r hr o hos).1 heq
          rw [if_neg (by omega), if_pos ⟨hos, heq.ge⟩, stored_self, heq, Nat.sub_self]
          rfl
        · rw [if_pos ⟨hos, hgt⟩, if_pos ⟨hos, hgt.le⟩, stored_of_ne (fun h => ?_),
            show slot I start r o - (q * I + t) = slot I start r o - (q * I + t + 1) + 1 by omega,
            List.getElem?_cons_succ]
          rw [(hplace r hr o hos).2 h] at hgt
          exact Nat.lt_irrefl _ hgt
      · rw [if_neg (fun h => hos h.1), if_neg (fun h => hos h.1), stored_of_ne (by omega)]

/-- The symbol of a number, or virtual fill. -/
def symbolAt (msg : SymVec) (k : ℕ) : Sym := (msg.reverse[k]?).getD 0

/-- **Each place has the symbol of its number.** -/
theorem ccsdsInterleave_ok (hI : 0 < rs.interleaveDepth) {msg : SymVec} {hasParity : Bool}
    (hstart : (if hasParity then rs.codeLength - 1 else rs.codeLength - rs.parityLength - 1) = start)
    (hlt : start < rs.codeLength) (hlen : msg.length ≤ (start + 1) * rs.interleaveDepth) :
    ∃ f, rs.ccsdsInterleave msg hasParity = .ok (grid rs.interleaveDepth rs.codeLength f) ∧
      ∀ r < rs.interleaveDepth, ∀ o < rs.codeLength, f r o =
        if o ≤ start then symbolAt msg (slot rs.interleaveDepth start r o) else 0 := by
  obtain ⟨f, hrun, hf⟩ := @interleaveFrom_ok rs _ _ start 0 0 rfl hlt msg.reverse start (fun _ _ => 0) hI
    (fun _ => ⟨rfl, Nat.zero_le _⟩) (by rw [List.length_reverse, Nat.zero_mul, Nat.zero_add]; omega)
  refine ⟨f, ?_, fun r hr o ho => ?_⟩
  · have hzero : List.replicate rs.interleaveDepth (List.replicate rs.codeLength (0 : Sym)) =
        grid rs.interleaveDepth rs.codeLength fun _ _ => 0 := by
      unfold grid line
      rw [List.map_const', List.map_const', List.length_range, List.length_range]
    unfold RSBase.ccsdsInterleave
    rw [hstart, hzero]
    exact hrun
  · rw [hf r hr o ho]
    by_cases hos : o ≤ start
    · rw [if_pos hos, if_pos ⟨hos, by omega⟩, Nat.zero_mul, Nat.zero_add, Nat.sub_zero]
      rfl
    · rw [if_neg hos, if_neg (fun h => hos h.1)]

/-! ## Deinterleaving -/

/-- The loop of `ccsdsDeinterleave`: the places from the number `q * I + t` on. -/
theorem deinterleaveFrom_ok (hI : rs.interleaveDepth = I) (hstart : start < n) (f : ℕ → ℕ → Sym)
    (turns : ℕ) {offset : ℕ} {msg : SymVec} (ht : t < I) (hoffset : 0 < turns → offset = start - q ∧ q ≤ start)
    (hlen : q * I + t + turns ≤ (start + 1) * I) :
    rs.deinterleaveFrom (grid I n f) turns (I - 1 - t) offset msg = .ok
      (((List.range' (q * I + t) turns).map fun k => f (I - 1 - k % I) (start - k / I)).reverse ++ msg) := by
  induction turns generalizing q t offset msg with
  | zero => rfl
  | succ turns ih =>
    obtain ⟨rfl, hq⟩ := hoffset (Nat.succ_pos _)
    obtain ⟨hdiv, hmod⟩ := number_div_mod (q := q) ht
    obtain ⟨hwrap, hbefore⟩ := next_row (q := q) ht rfl
    unfold RSBase.deinterleaveFrom
    rw [rowAt_grid (show I - 1 - t < I by omega), Framing.ok_bind,
      octetAt_some (line_getElem? (show start - q < n by omega)), Framing.ok_bind, hI]
    rw [List.range'_succ, List.map_cons, List.reverse_cons, List.append_assoc, List.singleton_append, hdiv, hmod]
    by_cases h0 : I - 1 - t = 0
    · have hlen' : q * I + t + 1 + turns ≤ (start + 1) * I := by omega
      rw [hwrap h0] at hlen'
      rw [if_pos h0, hwrap h0]
      exact ih (q := q + 1) (t := 0) (by omega) (fun hpos => predSize_sub hlen' hpos) hlen'
    · obtain ⟨hlt, hrow⟩ := hbefore h0
      rw [if_neg h0, hrow]
      exact ih (q := q) (t := t + 1) hlt (fun _ => ⟨rfl, hq⟩) (by omega)

/-- **The places in the order of their numbers are the message.** -/
theorem ccsdsDeinterleave_ok (hI : 0 < rs.interleaveDepth) (hparity : rs.parityLength < rs.codeLength)
    (f : ℕ → ℕ → Sym) : rs.ccsdsDeinterleave (grid rs.interleaveDepth rs.codeLength f) = .ok
      ((List.range ((rs.codeLength - rs.parityLength) * rs.interleaveDepth)).map fun k =>
        f (rs.interleaveDepth - 1 - k % rs.interleaveDepth)
          (rs.codeLength - rs.parityLength - 1 - k / rs.interleaveDepth)).reverse := by
  have h := @deinterleaveFrom_ok rs _ _ _ 0 0 rfl
    (show rs.codeLength - rs.parityLength - 1 < rs.codeLength by omega) f
    ((rs.codeLength - rs.parityLength) * rs.interleaveDepth) (rs.codeLength - rs.parityLength - 1) [] hI
    (fun _ => ⟨rfl, Nat.zero_le _⟩)
    (by rw [show rs.codeLength - rs.parityLength - 1 + 1 = rs.codeLength - rs.parityLength by omega]; omega)
  rw [List.append_nil, Nat.zero_mul, Nat.add_zero, ← List.range_eq_range'] at h
  exact h

/-- **Data comes back behind its virtual fill.** -/
theorem deinterleave_data (hI : 0 < rs.interleaveDepth) (hparity : rs.parityLength < rs.codeLength) {data : SymVec}
    (hlen : data.length ≤ (rs.codeLength - rs.parityLength) * rs.interleaveDepth) {f : ℕ → ℕ → Sym}
    (hf : ∀ r < rs.interleaveDepth, ∀ o < rs.codeLength - rs.parityLength, f r o =
      symbolAt data (slot rs.interleaveDepth (rs.codeLength - rs.parityLength - 1) r o)) :
    rs.ccsdsDeinterleave (grid rs.interleaveDepth rs.codeLength f) = .ok
      (List.replicate ((rs.codeLength - rs.parityLength) * rs.interleaveDepth - data.length) 0 ++ data) := by
  rw [ccsdsDeinterleave_ok hI hparity]
  refine congrArg Except.ok (List.reverse_injective (List.ext_getElem? fun k => ?_))
  rw [List.reverse_reverse, List.reverse_append, List.reverse_replicate, List.getElem?_map]
  by_cases hk : k < (rs.codeLength - rs.parityLength) * rs.interleaveDepth
  · have hdiv : k / rs.interleaveDepth < rs.codeLength - rs.parityLength := Nat.div_lt_of_lt_mul (by
      rwa [Nat.mul_comm])
    have hrow : ∀ x, rs.interleaveDepth - 1 - x < rs.interleaveDepth := fun x => by omega
    have hoffset : ∀ x, rs.codeLength - rs.parityLength - 1 - x < rs.codeLength - rs.parityLength :=
      fun x => by omega
    rw [List.getElem?_range hk, Option.map_some, hf _ (hrow _) _ (hoffset _),
      slot_of_number hI (Nat.le_sub_one_of_lt hdiv)]
    unfold symbolAt
    by_cases hin : k < data.length
    · rw [List.getElem?_append_left (by rwa [List.length_reverse]),
        List.getElem?_eq_getElem (by rwa [List.length_reverse]), Option.getD_some]
    · rw [List.getElem?_append_right (by rw [List.length_reverse]; omega), List.length_reverse,
        List.getElem?_replicate_of_lt (by omega), List.getElem?_eq_none (by rw [List.length_reverse]; omega),
        Option.getD_none]
  · rw [List.getElem?_eq_none (by rw [List.length_range]; omega), Option.map_none, List.getElem?_eq_none]
    rw [List.length_append, List.length_reverse, List.length_replicate]
    omega

end ChannelEmulator.ReedSolomon
