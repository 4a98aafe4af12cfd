import ChannelEmulator.Spec.ControlWord
import Mathlib.Data.List.Induction

/-!
# The communications link control word

* `set_ok`: a setter replaces the octet of its field, whose other fields become zero.
* `setAll_ok`: **after any setters an octet holds the field that was set last there**.
* `setters_independent_iff`: **when the getters return what was set**.
-/

namespace ChannelEmulator.ControlWord

namespace Field

theorem mem_all (f : Field) : f ∈ all := by
  cases f <;> decide

/-- The bits behind a field in its octet. -/
def shift (f : Field) : ℕ := 7 - (f.msb + f.bits - 1)

/-- A field of an octet. -/
def read (f : Field) (o : Octet) : ℕ := (o.toNat &&& ((0xFF >>> (8 - f.bits)) <<< f.shift)) >>> f.shift

/-- The octet with a field and nothing else. -/
def placed (f : Field) (v : ℕ) : Octet := .ofNat (v <<< f.shift)

theorem octet_lt (f : Field) : f.octet < 4 := by
  cases f <;> decide

theorem bits_le (f : Field) : f.bits + f.shift ≤ 8 := by
  cases f <;> decide

theorem testBit_read (f : Field) (o : Octet) (j : ℕ) :
    (f.read o).testBit j = (decide (j < f.bits) && o.toNat.testBit (f.shift + j)) := by
  have hle := f.bits_le
  have hmask : (0xFF : ℕ).testBit (8 - f.bits + j) = decide (j < f.bits) := by
    rw [show 0xFF = 2 ^ 8 - 1 from rfl, Nat.testBit_two_pow_sub_one]
    exact decide_eq_decide.2 (by omega)
  unfold read
  rw [Nat.testBit_shiftRight, Nat.testBit_and, Nat.testBit_shiftLeft, Nat.add_sub_cancel_left,
    Nat.testBit_shiftRight, hmask, decide_eq_true (Nat.le_add_right f.shift j), Bool.true_and, Bool.and_comm]

theorem testBit_placed (f : Field) (v i : ℕ) :
    (f.placed v).toNat.testBit i = (decide (i < 8) && (decide (f.shift ≤ i) && v.testBit (i - f.shift))) := by
  unfold placed
  rw [UInt8.toNat_ofNat', Nat.testBit_mod_two_pow, Nat.testBit_shiftLeft]

theorem read_placed (f : Field) {v : ℕ} (hv : v < 2 ^ f.bits) : f.read (f.placed v) = v := by
  refine Nat.eq_of_testBit_eq fun j => ?_
  have hle := f.bits_le
  rw [testBit_read, testBit_placed, Nat.add_sub_cancel_left, decide_eq_true (Nat.le_add_right f.shift j), Bool.true_and]
  by_cases hj : j < f.bits
  · rw [decide_eq_true hj, decide_eq_true (show f.shift + j < 8 by omega), Bool.true_and, Bool.true_and]
  · rw [decide_eq_false hj, Bool.false_and,
      Nat.testBit_lt_two_pow (hv.trans_le (Nat.pow_le_pow_right (by decide) (Nat.le_of_not_lt hj)))]

/-- Fields of one octet have no bit in common. -/
theorem apart {f g : Field} (hoctet : g.octet = f.octet) (hne : g ≠ f) :
    g.shift + g.bits ≤ f.shift ∨ f.shift + f.bits ≤ g.shift := by
  revert hoctet hne
  cases f <;> cases g <;> decide

/-- The other fields of the octet are zero. -/
theorem read_placed_other {f g : Field} (hoctet : g.octet = f.octet) (hne : g ≠ f) {v : ℕ}
    (hv : v < 2 ^ f.bits) : g.read (f.placed v) = 0 := by
  refine Nat.eq_of_testBit_eq fun j => ?_
  rw [testBit_read, testBit_placed, Nat.zero_testBit]
  by_cases hj : j < g.bits
  · rcases apart hoctet hne with h | h
    · rw [decide_eq_false (show ¬f.shift ≤ g.shift + j by omega), Bool.false_and, Bool.and_false, Bool.and_false]
    · rw [Nat.testBit_lt_two_pow (hv.trans_le (Nat.pow_le_pow_right (by decide) (by omega))), Bool.and_false,
        Bool.and_false, Bool.and_false]
  · rw [decide_eq_false hj, Bool.false_and]

variable {u : Bytes}

theorem getOctet_ok (hu : u.length = 4) (f : Field) :
    getOctet u f.octet = .ok (u.getD f.octet 0) := by
  have hlt := f.octet_lt
  unfold getOctet ptrOctet
  rw [if_neg (by omega)]
  refine octetAt_of_getElem? ?_
  rw [List.getD_eq_getElem?_getD, List.getElem?_eq_getElem (by omega)]
  rfl

theorem setOctet_ok (hu : u.length = 4) {i : ℕ} (hi : i < 4) (o : Octet) :
    setOctet u i o = .ok (u.set i o) := by
  unfold setOctet ptrOctet
  rw [if_neg (by omega)]
  show storeAt u i [o] = _
  unfold storeAt
  rw [if_neg (by rw [List.length_singleton]; omega)]
  refine congrArg Except.ok ?_
  rw [overwrite, List.length_singleton, List.set_eq_take_append_cons_drop, if_pos (by omega),
    List.append_assoc]
  rfl

/-- **A getter reads its field.** -/
theorem get_ok (hu : u.length = 4) (f : Field) :
    f.get u = .ok (f.read (u.getD f.octet 0)) := by
  have hget := getOctet_ok hu f
  have hbits : ∀ msb bits, f.octet ≠ 3 → f.msb = msb → f.bits = bits →
      getOctetBits u f.octet msb bits = .ok (f.read (u.getD f.octet 0)) := by
    rintro msb bits - rfl rfl
    unfold getOctetBits
    rw [hget]
    rfl
  cases f
  case reportValue =>
    show (getOctet u 3 >>= _) = _
    rw [show getOctet u 3 = _ from hget]
    refine congrArg Except.ok ?_
    exact (Nat.and_two_pow_sub_one_of_lt_two_pow (n := 8) (UInt8.toNat_lt _)).symm
  all_goals exact hbits _ _ (by decide) rfl rfl

/-- **A setter replaces the octet of its field.** -/
theorem set_ok (hu : u.length = 4) (f : Field) {v : ℕ} (hv : v < 2 ^ f.bits) :
    f.set u v = .ok (u.set f.octet (f.placed v)) := by
  have hbits : f ≠ reportValue →
      setOctetBits u f.octet f.msb f.bits v = .ok (u.set f.octet (f.placed v)) := by
    intro hne
    have hmask : ∀ f ∈ all, f ≠ reportValue →
        0xFF >>> (8 - f.bits) = 2 ^ f.bits - 1 ∧ (0xFF >>> (8 - f.bits)) <<< f.shift ≠ 0 := by decide
    obtain ⟨hmax, hzero⟩ := hmask f f.mem_all hne
    unfold setOctetBits
    show (if _ then _ else _) = _
    rw [if_neg (by omega)]
    show (getOctet u f.octet >>= _) = _
    rw [getOctet_ok hu]
    -- the mask is zero, so nothing is kept
    show setOctet u f.octet (.ofNat ((_ &&& (if (0xFF >>> (8 - f.bits)) <<< f.shift = 0 then 1 else 0)) ||| _)) = _
    rw [if_neg hzero, Nat.and_zero, Nat.zero_or, setOctet_ok hu f.octet_lt]
    rfl
  cases f
  case reportValue => exact setOctet_ok hu (by decide) _
  all_goals exact hbits (by decide)

end Field

/-! ## Runs of setters -/

/-- The setter that was called last for an octet. -/
def lastOn (sets : List (Field × ℕ)) (i : ℕ) : Option (Field × ℕ) :=
  sets.reverse.find? fun s => s.1.octet = i

/-- What a getter is due to return: the value that was set last, or the one there was. -/
def due (u : Bytes) (sets : List (Field × ℕ)) (f : Field) : Except Fault ℕ :=
  match sets.reverse.find? fun s => s.1 = f with
  | some s => .ok s.2
  | none => f.get u

/-- The octet behind some setters. -/
def octetAfter (u : Bytes) (sets : List (Field × ℕ)) (i : ℕ) : Octet :=
  match lastOn sets i with
  | some s => s.1.placed s.2
  | none => u.getD i 0

theorem setAll_append (u : Bytes) (sets sets' : List (Field × ℕ)) :
    setAll u (sets ++ sets') = setAll u sets >>= fun u => setAll u sets' := by
  induction sets generalizing u with
  | nil => rfl
  | cons s sets ih =>
    obtain ⟨f, v⟩ := s
    show (f.set u v >>= fun u => setAll u (sets ++ sets')) =
      (f.set u v >>= fun u => setAll u sets) >>= fun u => setAll u sets'
    cases f.set u v with
    | error e => rfl
    | ok u' => exact ih u'

/-- **An octet holds the field that was set last there.** -/
theorem setAll_ok {u : Bytes} (hu : u.length = 4) {sets : List (Field × ℕ)}
    (hsets : ∀ s ∈ sets, s.2 < 2 ^ s.1.bits) :
    ∃ u', setAll u sets = .ok u' ∧ u'.length = 4 ∧ ∀ i < 4, u'.getD i 0 = octetAfter u sets i := by
  induction sets using List.reverseRecOn with
  | nil => exact ⟨u, rfl, hu, fun _ _ => rfl⟩
  | append_singleton sets s ih =>
    obtain ⟨f, v⟩ := s
    obtain ⟨u', hrun, hu', hoctets⟩ := ih fun s hs => hsets s (List.mem_append_left _ hs)
    have hv : v < 2 ^ f.bits := hsets (f, v) (List.mem_append_right _ (List.mem_singleton.2 rfl))
    refine ⟨u'.set f.octet (f.placed v), ?_, by rw [List.length_set, hu'], fun i hi => ?_⟩
    · rw [setAll_append, hrun]
      show (f.set u' v >>= _) = _
      rw [Field.set_ok hu' f hv]
      rfl
    · unfold octetAfter lastOn
      rw [List.reverse_append, List.reverse_singleton, List.singleton_append, List.find?_cons]
      by_cases hfi : f.octet = i
      · rw [decide_eq_true hfi, hfi, List.getD_eq_getElem?_getD, List.getElem?_set_self (hu' ▸ hi)]
        rfl
      · rw [decide_eq_false hfi, List.getD_eq_getElem?_getD, List.getElem?_set_ne hfi,
          ← List.getD_eq_getElem?_getD]
        exact hoctets i hi

theorem lastOn_mem {sets : List (Field × ℕ)} {i : ℕ} {s : Field × ℕ} (h : lastOn sets i = some s) :
    s ∈ sets ∧ s.1.octet = i := by
  unfold lastOn at h
  exact ⟨List.mem_reverse.1 (List.mem_of_find?_eq_some h), of_decide_eq_true (List.find?_some h :)⟩

/-- The field that was set last in its octet is due what it was set to. -/
theorem due_of_lastOn {u : Bytes} {sets : List (Field × ℕ)} {f : Field} {v : ℕ}
    (h : lastOn sets f.octet = some (f, v)) : due u sets f = .ok v := by
  obtain ⟨-, as, bs, heq, hnone⟩ := List.find?_eq_some_iff_append.1 h
  unfold due
  rw [heq, List.find?_append, List.find?_eq_none.2 fun s hs hsf => ?_, Option.none_or, List.find?_cons,
    decide_eq_true rfl]
  -- a setter of the field is one for its octet
  have hne := hnone s hs
  rw [decide_eq_true (congrArg Field.octet (of_decide_eq_true hsf))] at hne
  cases hne

/-- A field in an octet without setters is due what there was. -/
theorem due_of_not_lastOn {u : Bytes} {sets : List (Field × ℕ)} {f : Field}
    (h : lastOn sets f.octet = none) : due u sets f = f.get u := by
  unfold due
  rw [List.find?_eq_none.2 fun s hs hsf => ?_]
  have hne := List.find?_eq_none.1 h s hs
  exact hne (decide_eq_true (congrArg Field.octet (of_decide_eq_true hsf)))

/-- **When the getters return what was set**: in an octet with setters, the other fields than the one
that was set last are due to be zero. -/
theorem setters_independent_iff {u : Bytes} (hu : u.length = 4) {sets : List (Field × ℕ)}
    (hsets : ∀ s ∈ sets, s.2 < 2 ^ s.1.bits) :
    (∃ u', setAll u sets = .ok u' ∧ ∀ f : Field, f.get u' = due u sets f) ↔
      ∀ f v g, lastOn sets f.octet = some (f, v) → Field.octet g = f.octet → g ≠ f →
        due u sets g = .ok 0 := by
  obtain ⟨u', hrun, hu', hoctets⟩ := setAll_ok hu hsets
  have hget : ∀ f : Field, f.get u' = .ok (f.read (octetAfter u sets f.octet)) := by
    intro f
    rw [Field.get_ok hu', hoctets _ f.octet_lt]
  constructor
  · rintro ⟨u'', hrun', hdue⟩ f v g hlast hoctet hne
    obtain rfl := Except.ok.inj (hrun.symm.trans hrun')
    have hv := hsets _ (lastOn_mem hlast).1
    rw [← hdue, hget, hoctet]
    unfold octetAfter
    rw [hlast]
    exact congrArg Except.ok (Field.read_placed_other hoctet hne hv)
  · intro hzero
    refine ⟨u', hrun, fun g => ?_⟩
    rw [hget]
    unfold octetAfter
    cases hlast : lastOn sets g.octet with
    | none =>
      rw [due_of_not_lastOn hlast]
      exact (Field.get_ok hu g).symm
    | some s =>
      obtain ⟨f, v⟩ := s
      obtain ⟨hmem, hoctet⟩ := lastOn_mem hlast
      have hv := hsets _ hmem
      by_cases hne : g = f
      · subst hne
        rw [due_of_lastOn hlast]
        exact congrArg Except.ok (Field.read_placed g hv)
      · rw [hzero f v g (hoctet ▸ hlast) hoctet.symm hne]
        exact congrArg Except.ok (Field.read_placed_other hoctet.symm hne hv)

/-- Two flags of one octet that are set one after the other. -/
theorem setters_independent_flags :
    (∃ u', setAll [0, 0, 0, 0] [(.statusField, 5), (.waitFlag, 1), (.reportValue, 7)] = .ok u' ∧
      ∀ f : Field, f.get u' =
        due [0, 0, 0, 0] [(.statusField, 5), (.waitFlag, 1), (.reportValue, 7)] f) :=
  (setters_independent_iff rfl (by decide)).2 fun f v g hlast hoctet hne => by
    have hall : ∀ f ∈ Field.all, ∀ g ∈ Field.all,
        (lastOn [(.statusField, 5), (.waitFlag, 1), (.reportValue, 7)] f.octet).map Prod.fst = some f →
        g.octet = f.octet → g ≠ f →
        due [0, 0, 0, 0] [(.statusField, 5), (.waitFlag, 1), (.reportValue, 7)] g = .ok 0 := by
      decide +kernel
    exact hall f f.mem_all g g.mem_all (by rw [hlast]; rfl) hoctet hne

/-- The wait flag is lost when the retransmit flag is set. -/
theorem wait_flag_lost : ¬ ∀ u : Bytes, u.length = 4 → ∀ sets : List (Field × ℕ),
    (∀ s ∈ sets, s.2 < 2 ^ s.1.bits) →
      ∃ u', setAll u sets = .ok u' ∧ ∀ f : Field, f.get u' = due u sets f := by
  intro hall
  obtain ⟨u', hrun, hget⟩ := hall [0, 0, 0, 0] rfl [(.waitFlag, 1), (.retransmitFlag, 1)] (by decide)
  have hwait := hget .waitFlag
  rw [← Except.ok.inj (show Except.ok [0, 0, 8, 0] = Except.ok u' from hrun)] at hwait
  cases hwait

end ChannelEmulator.ControlWord
