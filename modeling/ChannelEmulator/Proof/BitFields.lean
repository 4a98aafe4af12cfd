import ChannelEmulator.Coding.BitString
import ChannelEmulator.Framing.Run
import ChannelEmulator.Spec.BitFields
import Mathlib.Tactic.SplitIfs

/-!
# Bit fields

* `Span`: a field that reaches behind its first octet, in numbers of octets and bits.
* `uint2bits_ok`, `bits2uint_ok`: the octets that are stored and that are gathered.
* `field_consistent_iff`: **what is stored stands in the field, leaves the other bits alone and is read
  back**, exactly for the fields that the source has places for and the values that read the same in both
  orders of their middle octets and have no bits above the field that would be added.
-/

namespace ChannelEmulator.BitFields

open Coding

/-! ## Octets -/

/-- The octet that is stored beside the bits of an old one. -/
theorem testBit_stored (old mask new : Octet) {j : ℕ} (hj : j < 8) :
    ((old &&& ~~~mask) ||| new).toNat.testBit j =
      ((old.toNat.testBit j && !mask.toNat.testBit j) || new.toNat.testBit j) := by
  have hnot : (~~~mask).toNat = 2 ^ 8 - (mask.toNat + 1) := by
    rw [UInt8.toNat_not]
    have hsize : UInt8.size = 256 := rfl
    omega
  rw [UInt8.toNat_or, UInt8.toNat_and, Nat.testBit_or, Nat.testBit_and, hnot,
    Nat.testBit_two_pow_sub_succ mask.toNat_lt, decide_eq_true hj, Bool.true_and]

theorem testBit_firstAnd {o j : ℕ} (ho : o < 8) (hj : j < 8) :
    (UInt8.ofNat (0xFF >>> (8 - (8 - o)))).toNat.testBit j = decide (j < 8 - o) := by
  have hall : ∀ o < 8, ∀ j < 8, (UInt8.ofNat (0xFF >>> (8 - (8 - o)))).toNat.testBit j = decide (j < 8 - o) := by
    decide
  exact hall o ho j hj

theorem testBit_lastAnd {l j : ℕ} (hl : l < 8) (hj : j < 8) :
    (UInt8.ofNat (0xFF <<< (8 - l))).toNat.testBit j = decide (8 - l ≤ j) := by
  have hall : ∀ l < 8, ∀ j < 8, (UInt8.ofNat (0xFF <<< (8 - l))).toNat.testBit j = decide (8 - l ≤ j) := by decide
  exact hall l hl j hj

theorem octetsOf_get (v : ℕ) {k : ℕ} (hk : k < 8) : (octetsOf v)[k]? = some (.ofNat (v >>> (8 * k))) := by
  unfold octetsOf
  rw [List.getElem?_map, List.getElem?_range hk]
  rfl

theorem testBit_valueOf (u : Bytes) (i : ℕ) :
    (valueOf u).testBit i = (u.getD (i / 8) 0).toNat.testBit (i % 8) := by
  induction u generalizing i with
  | nil =>
    rw [List.getD_nil]
    exact (Nat.zero_testBit i).trans (Nat.zero_testBit _).symm
  | cons b u ih =>
    have hval : valueOf (b :: u) = 2 ^ 8 * valueOf u + b.toNat := Nat.add_comm _ _
    rw [hval, Nat.testBit_two_pow_mul_add _ b.toNat_lt]
    by_cases hi : i < 8
    · rw [if_pos hi, Nat.div_eq_of_lt hi, Nat.mod_eq_of_lt hi]
      rfl
    · rw [if_neg hi, ih, show i / 8 = (i - 8) / 8 + 1 by omega, show i % 8 = (i - 8) % 8 by omega]
      rfl

/-! ## Spans -/

/-- A field from bit `o` of octet `f` on, which reaches over `m` whole octets and into `l` bits of one
more, all of a number of 64 bits. -/
structure Span (bitOffset bitLength f o m l : ℕ) : Prop where
  offset_eq : bitOffset = 8 * f + o
  length_eq : bitLength = 8 - o + 8 * m + l
  o_lt : o < 8
  l_lt : l < 8
  m_le : m ≤ 6

variable {off len f o m l : ℕ}

theorem Span.bitsBehind (h : Span off len f o m l) : bitsBehind off len = 8 * m + l := by
  have h1 := h.offset_eq
  have h2 := h.length_eq
  have h3 := h.o_lt
  have h4 := h.l_lt
  have h5 := h.m_le
  have hmod : off % 8 = o := by omega
  unfold BitFields.bitsBehind
  rw [hmod]
  omega

theorem Span.places (h : Span off len f o m l) :
    places off len = ⟨f, .ofNat (0xFF >>> (8 - (8 - o))), f + 1, m, f + 1 + m, l, .ofNat (0xFF <<< (8 - l))⟩ := by
  have h1 := h.offset_eq
  have h3 := h.o_lt
  have h4 := h.l_lt
  have h5 := h.m_le
  have hmod : off % 8 = o := by omega
  have hdiv : off / 8 = f := by omega
  have hmiddle : (8 * m + l) / 8 % 2 ^ 8 = m := by omega
  have hlast : (8 * m + l) % 8 = l := by omega
  unfold BitFields.places
  rw [h.bitsBehind, hmod, hdiv, hmiddle, hlast]

/-- The octet `k` of a value that is shifted to the bits behind. -/
def shifted (val l k : ℕ) : Octet := .ofNat (((val <<< (8 - l)) % 2 ^ 64) >>> (8 * k))

theorem testBit_shifted (val : ℕ) (hl : l < 8) {k j : ℕ} (hk : k < 8) (hj : j < 8) :
    (shifted val l k).toNat.testBit j = (decide (8 ≤ 8 * k + j + l) && val.testBit (8 * k + j + l - 8)) := by
  unfold shifted
  rw [testBit_octet _ hj, Nat.testBit_shiftRight, Nat.testBit_mod_two_pow, decide_eq_true (by omega),
    Bool.true_and, Nat.testBit_shiftLeft, show 8 * k + j - (8 - l) = 8 * k + j + l - 8 by omega]
  congr 1
  exact decide_eq_decide.2 (by omega)

/-! ## The loops over the middle octets -/

theorem position_true {k : ℕ} (hk : k < 8) : position true k = .ok k := if_neg (Nat.not_le.2 hk)

theorem scatterMiddle_ok {val : Bytes} (hval : val.length = 8) {f : ℕ} (octets : ℕ) {m : ℕ} {u : Bytes}
    (hm : m + octets ≤ 6) (hfit : f + m + octets ≤ u.length) :
    ∃ u', scatterMiddle true val f octets m u = .ok u' ∧ u'.length = u.length ∧
      ∀ x, u'[x]? = if f + m ≤ x ∧ x < f + m + octets then val[x - f + 1]? else u[x]? := by
  induction octets generalizing m u with
  | zero => exact ⟨u, rfl, rfl, fun x => (if_neg (by omega)).symm⟩
  | succ octets ih =>
    have hlt : f + m < u.length := by omega
    have hget : val[m + 1]? = some val[m + 1] := List.getElem?_eq_getElem (by omega)
    obtain ⟨u', hrun, hlen, hbuf⟩ := ih (m := m + 1) (u := u.set (f + m) val[m + 1]) (by omega)
      (by rw [List.length_set]; omega)
    refine ⟨u', ?_, hlen.trans List.length_set, fun x => ?_⟩
    · unfold scatterMiddle
      rw [position_true (by omega)]
      show (octetAt val (m + 1) >>= _) = _
      rw [octetAt_of_getElem? hget]
      show (storeAt u (f + m) [val[m + 1]] >>= _) = _
      rw [storeAt_one hlt]
      exact hrun
    · rw [hbuf x]
      by_cases hx : x = f + m
      · subst hx
        rw [if_neg (by omega), if_pos (by omega), List.getElem?_set_self hlt, Nat.add_sub_cancel_left, hget]
      · rw [List.getElem?_set_ne (Ne.symm hx)]
        by_cases hin : f + (m + 1) ≤ x ∧ x < f + (m + 1) + octets
        · rw [if_pos hin, if_pos (by omega)]
        · rw [if_neg hin, if_neg (by omega)]

theorem gatherMiddle_ok {u : Bytes} {f : ℕ} (octets : ℕ) {m : ℕ} {w : Bytes} (hval : w.length = 8)
    (hm : m + octets ≤ 6) (hfit : f + m + octets ≤ u.length) :
    ∃ w', gatherMiddle true u f (List.range' m octets) (m + 1) w = .ok (m + octets + 1, w') ∧
      w'.length = 8 ∧
      ∀ x, w'[x]? = if m + 1 ≤ x ∧ x < m + 1 + octets then u[f + x - 1]? else w[x]? := by
  induction octets generalizing m w with
  | zero => exact ⟨w, rfl, hval, fun x => (if_neg (by omega)).symm⟩
  | succ octets ih =>
    have hget : u[f + m]? = some u[f + m] := List.getElem?_eq_getElem (by omega)
    have hlt : m + 1 < w.length := by omega
    obtain ⟨w', hrun, hlen, hval'⟩ := ih (m := m + 1) (w := w.set (m + 1) u[f + m])
      (by rw [List.length_set]; exact hval) (by omega) (by omega)
    refine ⟨w', ?_, hlen, fun x => ?_⟩
    · rw [List.range'_succ]
      unfold gatherMiddle
      rw [octetAt_of_getElem? hget, position_true (by omega)]
      show (storeAt w (m + 1) [u[f + m]] >>= _) = _
      rw [storeAt_one hlt, show m + (octets + 1) + 1 = m + 1 + octets + 1 by omega]
      exact hrun
    · rw [hval' x]
      by_cases hx : x = m + 1
      · subst hx
        rw [if_neg (by omega), if_pos (by omega), List.getElem?_set_self hlt, ← hget]
        rfl
      · rw [List.getElem?_set_ne (Ne.symm hx)]
        by_cases hin : m + 1 + 1 ≤ x ∧ x < m + 1 + 1 + octets
        · rw [if_pos hin, if_pos (by omega)]
        · rw [if_neg hin, if_neg (by omega)]

/-! ## Storing and gathering -/

/-- The octet `x` of a buffer that a value has been stored in. -/
def storedOctet (val : ℕ) (buf : Bytes) (f o m l x : ℕ) : Octet :=
  if x = f then (buf.getD f 0 &&& ~~~.ofNat (0xFF >>> (8 - (8 - o)))) ||| shifted val l (m + 1)
  else if x = f + 1 + m then (buf.getD x 0 &&& ~~~.ofNat (0xFF <<< (8 - l))) ||| shifted val l 0
  else if f < x ∧ x < f + 1 + m then shifted val l (x - f)
  else buf.getD x 0

/-- **What `uint2bits` stores.** -/
theorem uint2bits_ok (h : Span off len f o m l) {buf : Bytes} (val : ℕ) (hfit : f + 1 + m < buf.length) :
    ∃ buf', uint2bits val buf off len true = .ok buf' ∧ buf'.length = buf.length ∧
      ∀ x, buf'.getD x 0 = storedOctet val buf f o m l x := by
  have hm := h.m_le
  have hoctet : ∀ k < 8, (octetsOf ((val <<< (8 - l)) % 2 ^ 64))[k]? = some (shifted val l k) :=
    fun k hk => octetsOf_get _ hk
  have hsize : (octetsOf ((val <<< (8 - l)) % 2 ^ 64)).length = 8 := by
    unfold octetsOf
    rw [List.length_map, List.length_range]
  unfold uint2bits
  rw [h.places]
  -- the last octet, the middle ones, the first one
  obtain ⟨mid, hmid, hlen, hget⟩ := scatterMiddle_ok hsize (f := f + 1) m (m := 0)
    (u := buf.set (f + 1 + m) ((buf.getD (f + 1 + m) 0 &&& ~~~.ofNat (0xFF <<< (8 - l))) ||| shifted val l 0))
    (by omega) (by rw [List.length_set]; omega)
  rw [List.length_set] at hlen
  have hfirst : mid[f]? = some (buf.getD f 0) := by
    rw [hget, if_neg (by omega), List.getElem?_set_ne (by omega), getElem?_of_lt (by omega)]
  refine ⟨mid.set f ((buf.getD f 0 &&& ~~~.ofNat (0xFF >>> (8 - (8 - o)))) ||| shifted val l (m + 1)),
    ?_, List.length_set.trans hlen, fun x => ?_⟩
  · show (octetAt buf (f + 1 + m) >>= _) = _
    rw [octetAt_of_getElem? (getElem?_of_lt hfit), Framing.ok_bind, position_true (by decide), Framing.ok_bind,
      octetAt_of_getElem? (hoctet 0 (by decide)), Framing.ok_bind, storeAt_one hfit, Framing.ok_bind, hmid,
      Framing.ok_bind, octetAt_of_getElem? hfirst, Framing.ok_bind,
      position_true (show m + 1 < 8 by omega), Framing.ok_bind,
      octetAt_of_getElem? (hoctet (m + 1) (by omega)), Framing.ok_bind]
    exact storeAt_one (show f < mid.length by omega) _
  · rw [List.getD_eq_getElem?_getD, storedOctet]
    by_cases hxf : x = f
    · subst hxf
      rw [if_pos rfl, List.getElem?_set_self (by omega), Option.getD_some]
    · rw [if_neg hxf, List.getElem?_set_ne (Ne.symm hxf), hget]
      by_cases hxl : x = f + 1 + m
      · subst hxl
        rw [if_pos rfl, if_neg (by omega), List.getElem?_set_self hfit, Option.getD_some]
      · rw [if_neg hxl]
        by_cases hin : f < x ∧ x < f + 1 + m
        · rw [if_pos hin, if_pos (by omega), hoctet _ (by omega), Option.getD_some]
          congr 1
          omega
        · rw [if_neg hin, if_neg (by omega), List.getElem?_set_ne (Ne.symm hxl), ← List.getD_eq_getElem?_getD]

/-- **What `bits2uint` gathers.** -/
theorem bits2uint_ok (h : Span off len f o m l) {buf : Bytes} (hfit : f + 1 + m < buf.length) :
    ∃ val, bits2uint buf off len true = .ok (valueOf val >>> (8 - l)) ∧
      ∀ k, val.getD k 0 =
        if k = 0 then buf.getD (f + 1 + m) 0 &&& .ofNat (0xFF <<< (8 - l))
        else if k = m + 1 then buf.getD f 0 &&& .ofNat (0xFF >>> (8 - (8 - o)))
        else if k ≤ m then buf.getD (f + k) 0
        else 0 := by
  have hm := h.m_le
  have ho := h.o_lt
  have hl := h.l_lt
  have hlen := h.length_eq
  obtain ⟨val, hval, hsize, hget⟩ := gatherMiddle_ok (u := buf) (f := f + 1) m (m := 0)
    (w := (newUnit 8).set 0 (buf.getD (f + 1 + m) 0 &&& .ofNat (0xFF <<< (8 - l)))) List.length_set
    (by omega) (by omega)
  rw [Nat.zero_add, Nat.zero_add] at hval
  refine ⟨val.set (m + 1) (buf.getD f 0 &&& .ofNat (0xFF >>> (8 - (8 - o)))), ?_, fun k => ?_⟩
  · unfold bits2uint
    rw [if_neg (by omega), h.places]
    show (octetAt buf (f + 1 + m) >>= _) = _
    rw [octetAt_of_getElem? (getElem?_of_lt hfit), Framing.ok_bind, position_true (by decide), Framing.ok_bind,
      storeAt_one (by decide), Framing.ok_bind, if_pos rfl, List.range_eq_range', hval, Framing.ok_bind]
    show (octetAt buf f >>= _) = _
    rw [octetAt_of_getElem? (getElem?_of_lt (by omega)), Framing.ok_bind]
    show (position true (m + 1) >>= _) = _
    rw [position_true (by omega), Framing.ok_bind, storeAt_one (by omega)]
    rfl
  · rw [List.getD_eq_getElem?_getD]
    by_cases hkm : k = m + 1
    · subst hkm
      rw [if_neg (by omega), if_pos rfl, List.getElem?_set_self (by omega), Option.getD_some]
    · rw [List.getElem?_set_ne (Ne.symm hkm), hget, if_neg hkm]
      by_cases hk0 : k = 0
      · subst hk0
        rw [if_pos rfl, if_neg (by omega), List.getElem?_set_self (by decide), Option.getD_some]
      · rw [if_neg hk0, List.getElem?_set_ne (Ne.symm hk0)]
        by_cases hin : k ≤ m
        · rw [if_pos hin, if_pos (by omega), List.getD_eq_getElem?_getD, show f + 1 + k - 1 = f + k by omega]
        · rw [if_neg hin, if_neg (by omega)]
          unfold newUnit
          rw [List.getElem?_replicate]
          split <;> rfl

/-! ## Bits -/

theorem bitAt_getD (u : Bytes) (p : ℕ) : bitAt u p = (u.getD (p / 8) 0).toNat.testBit (7 - p % 8) := by
  unfold bitAt
  rw [List.getD_eq_getElem?_getD]

/-- The bits that `uint2bits` leaves. -/
structure StoredBits (val : ℕ) (buf buf' : Bytes) (off len f o m l : ℕ) : Prop where
  first : ∀ r, o ≤ r → r < 8 → bitAt buf' (8 * f + r) = val.testBit (len - 1 - (r - o))
  front : ∀ j < o, bitAt buf' (off - 1 - j) = (bitAt buf (off - 1 - j) || val.testBit (len + j))
  middle : ∀ k < m, ∀ r < 8, bitAt buf' (8 * (f + 1 + k) + r) = val.testBit (l + 8 * k + 7 - r)
  last : ∀ r < l, bitAt buf' (8 * (f + 1 + m) + r) = val.testBit (l - 1 - r)
  outside : ∀ p, p < 8 * f ∨ off + len ≤ p → bitAt buf' p = bitAt buf p

theorem storedBits (h : Span off len f o m l) {buf buf' : Bytes} {val : ℕ}
    (hbuf' : ∀ x, buf'.getD x 0 = storedOctet val buf f o m l x) :
    StoredBits val buf buf' off len f o m l := by
  obtain ⟨hoff, hlen, ho, hl, hm⟩ := h
  have hdiv : ∀ x r, r < 8 → (8 * x + r) / 8 = x := fun x r hr => by omega
  have hmod : ∀ x r, r < 8 → (8 * x + r) % 8 = r := fun x r hr => by omega
  -- a bit of the first octet
  have hfirst : ∀ r < 8, bitAt buf' (8 * f + r) =
      ((bitAt buf (8 * f + r) && !decide (o ≤ r)) || val.testBit (8 * m + l + 7 - r)) := by
    intro r hr
    rw [bitAt_getD, bitAt_getD, hdiv f r hr, hmod f r hr, hbuf', storedOctet, if_pos rfl,
      testBit_stored _ _ _ (by omega), testBit_firstAnd ho (by omega),
      testBit_shifted val hl (by omega) (by omega),
      decide_eq_true (show 8 ≤ 8 * (m + 1) + (7 - r) + l by omega), Bool.true_and,
      decide_eq_decide.2 (show 7 - r < 8 - o ↔ o ≤ r by omega)]
    congr 2
    omega
  have hlast : ∀ r < 8, bitAt buf' (8 * (f + 1 + m) + r) =
      ((bitAt buf (8 * (f + 1 + m) + r) && !decide (r < l)) || (decide (r < l) && val.testBit (l - 1 - r))) := by
    intro r hr
    rw [bitAt_getD, bitAt_getD, hdiv _ r hr, hmod _ r hr, hbuf', storedOctet, if_neg (by omega), if_pos rfl,
      testBit_stored _ _ _ (by omega), testBit_lastAnd hl (by omega),
      testBit_shifted val hl (by decide) (by omega)]
    congr 2
    · rw [decide_eq_decide.2 (show 8 - l ≤ 7 - r ↔ r < l by omega)]
    · exact decide_eq_decide.2 (by omega)
    · exact congrArg val.testBit (by omega)
  constructor
  · intro r hor hr
    rw [hfirst r hr, decide_eq_true hor, Bool.not_true, Bool.and_false, Bool.false_or]
    congr 1
    omega
  · intro j hj
    have hpos : off - 1 - j = 8 * f + (o - 1 - j) := by omega
    rw [hpos, hfirst _ (by omega), decide_eq_false (by omega), Bool.not_false, Bool.and_true]
    congr 2
    omega
  · intro k hk r hr
    rw [bitAt_getD, hdiv _ r hr, hmod _ r hr, hbuf', storedOctet, if_neg (by omega), if_neg (by omega),
      if_pos (by omega), testBit_shifted val hl (by omega) (by omega), decide_eq_true (by omega), Bool.true_and]
    congr 1
    omega
  · intro r hr
    rw [hlast r (by omega), decide_eq_true hr, Bool.not_true, Bool.and_false, Bool.false_or, Bool.true_and]
  · intro p hp
    by_cases hpl : p / 8 = f + 1 + m
    · have hsplit : p = 8 * (f + 1 + m) + p % 8 := by omega
      rw [hsplit, hlast _ (by omega), decide_eq_false (by omega), Bool.not_false, Bool.and_true, Bool.false_and,
        Bool.or_false]
    · rw [bitAt_getD, bitAt_getD, hbuf', storedOctet, if_neg (by omega), if_neg hpl, if_neg (by omega)]

/-- **What was stored is gathered again**, in whatever order. -/
theorem bits2uint_stored (h : Span off len f o m l) {buf buf' : Bytes} {val : ℕ}
    (hbuf' : ∀ x, buf'.getD x 0 = storedOctet val buf f o m l x) (hfit : f + 1 + m < buf'.length) :
    bits2uint buf' off len true = .ok (val % 2 ^ len) := by
  obtain ⟨octets, hrun, hoctets⟩ := bits2uint_ok h hfit
  obtain ⟨hoff, hlen, ho, hl, hm⟩ := h
  refine hrun.trans (congrArg Except.ok (Nat.eq_of_testBit_eq fun i => ?_))
  rw [Nat.testBit_shiftRight, testBit_valueOf, Nat.testBit_mod_two_pow, hoctets]
  have hbit : (8 - l + i) % 8 < 8 := Nat.mod_lt _ (by decide)
  by_cases h0 : (8 - l + i) / 8 = 0
  · rw [if_pos h0, hbuf', storedOctet, if_neg (by omega), if_pos rfl, UInt8.toNat_and, Nat.testBit_and,
      testBit_stored _ _ _ hbit, testBit_lastAnd hl hbit, testBit_shifted val hl (by decide) hbit,
      decide_eq_true (show 8 - l ≤ (8 - l + i) % 8
      by omega), decide_eq_true (show i < len by omega), decide_eq_true (by omega), Bool.not_true, Bool.and_false,
      Bool.false_or, Bool.and_true, Bool.true_and, Bool.true_and]
    exact congrArg val.testBit (by omega)
  · rw [if_neg h0]
    by_cases hfirst : (8 - l + i) / 8 = m + 1
    · rw [if_pos hfirst, hbuf', storedOctet, if_pos rfl, UInt8.toNat_and, Nat.testBit_and,
        testBit_stored _ _ _ hbit, testBit_firstAnd ho hbit, testBit_shifted val hl (by omega) hbit,
        decide_eq_true (show 8 ≤ 8 * (m + 1) +
        (8 - l + i) % 8 + l by omega), show 8 * (m + 1) + (8 - l + i) % 8 + l - 8 = i by omega, Bool.true_and]
      by_cases hin : i < len
      · rw [decide_eq_true hin, decide_eq_true (show (8 - l + i) % 8 < 8 - o by omega), Bool.not_true,
          Bool.and_false, Bool.false_or, Bool.and_true, Bool.true_and]
      · rw [decide_eq_false hin, decide_eq_false (show ¬ (8 - l + i) % 8 < 8 - o by omega), Bool.and_false,
          Bool.false_and]
    · rw [if_neg hfirst]
      by_cases hmiddle : (8 - l + i) / 8 ≤ m
      · rw [if_pos hmiddle, hbuf', storedOctet, if_neg (by omega), if_neg (by omega), if_pos (by omega),
          testBit_shifted val hl (by omega) hbit, decide_eq_true (by omega), decide_eq_true (show i < len by omega)]
        congr 2
        omega
      · rw [if_neg hmiddle, decide_eq_false (by omega), Bool.false_and]
        exact Nat.zero_testBit _

/-! ## Consistency -/

/-- What is stored stands in the field, the other bits stay, and it is read back. -/
def Consistent (val : ℕ) (buf : Bytes) (off len : ℕ) : Prop :=
  ∃ buf', uint2bits val buf off len true = .ok buf' ∧ buf'.length = buf.length ∧ FieldAt buf' off len val ∧
    (∀ p, p < off ∨ off + len ≤ p → bitAt buf' p = bitAt buf p) ∧
    bits2uint buf' off len true = .ok (val % 2 ^ len)

/-- The bits of a field behind its first octet, of a field that reaches there. -/
def behind (off len : ℕ) : ℕ := len - (8 - off % 8)

/-- The whole octets of a value behind the first octet of the field, from the least significant one on. -/
def middleOctet (val off len k : ℕ) : ℕ := val / 2 ^ (behind off len % 8 + 8 * k) % 256

/-- The fields and values for which `uint2bits` and `bits2uint` do what they say. -/
structure Suitable (val : ℕ) (buf : Bytes) (off len : ℕ) : Prop where
  reaches : 8 - off % 8 ≤ len
  fits : behind off len < 56
  inside : off + len < 8 * buf.length
  clear : ∀ j < off % 8, val.testBit (len + j) = true → bitAt buf (off - 1 - j) = true
  mirrored : ∀ k < behind off len / 8,
    middleOctet val off len k = middleOctet val off len (behind off len / 8 - 1 - k)

theorem span_of (hreaches : 8 - off % 8 ≤ len) (hfits : behind off len < 56) :
    Span off len (off / 8) (off % 8) (behind off len / 8) (behind off len % 8) := by
  unfold behind at hfits ⊢
  constructor <;> omega

theorem Span.behind (h : Span off len f o m l) : behind off len = 8 * m + l := by
  obtain ⟨hoff, hlen, ho, hl, hm⟩ := h
  unfold BitFields.behind
  omega

theorem middleOctet_eq_iff {val k k' : ℕ} : middleOctet val off len k = middleOctet val off len k' ↔
    ∀ j < 8, val.testBit (BitFields.behind off len % 8 + 8 * k + j) =
      val.testBit (BitFields.behind off len % 8 + 8 * k' + j) := by
  have hbit : ∀ k j, (middleOctet val off len k).testBit j =
      (decide (j < 8) && val.testBit (BitFields.behind off len % 8 + 8 * k + j)) := by
    intro k j
    unfold middleOctet
    rw [show (256 : ℕ) = 2 ^ 8 from rfl, Nat.testBit_mod_two_pow, Nat.testBit_div_two_pow,
      Nat.add_comm j]
  constructor
  · intro h j hj
    have heq := congrArg (fun n => Nat.testBit n j) h
    simp only [hbit, decide_eq_true hj, Bool.true_and] at heq
    exact heq
  · intro h
    refine Nat.eq_of_testBit_eq fun j => ?_
    rw [hbit, hbit]
    by_cases hj : j < 8
    · rw [h j hj]
    · rw [decide_eq_false hj, Bool.false_and, Bool.false_and]

/-- The field holds the value if the middle octets may be mirrored. -/
theorem StoredBits.field_iff {val : ℕ} {buf buf' : Bytes} (hs : StoredBits val buf buf' off len f o m l)
    (h : Span off len f o m l) :
    FieldAt buf' off len val ↔ ∀ k < m, middleOctet val off len k = middleOctet val off len (m - 1 - k) := by
  have hbehind := h.behind
  obtain ⟨hoff, hlen, ho, hl, hm⟩ := h
  have hmod : (8 * m + l) % 8 = l := by omega
  constructor
  · intro hfield k hk
    rw [middleOctet_eq_iff, hbehind, hmod]
    intro j hj
    have hstored := hs.middle k hk (7 - j) (by omega)
    have hread := hfield (8 * (f + 1 + k) + (7 - j) - off) (by omega)
    rw [show off + (8 * (f + 1 + k) + (7 - j) - off) = 8 * (f + 1 + k) + (7 - j) by omega, hstored] at hread
    rwa [show l + 8 * k + 7 - (7 - j) = l + 8 * k + j by omega,
      show len - 1 - (8 * (f + 1 + k) + (7 - j) - off) = l + 8 * (m - 1 - k) + j by omega] at hread
  · intro hmirrored j hj
    by_cases hfirst : (off + j) / 8 = f
    · have hbit := hs.first (o + j) (by omega) (by omega)
      rw [show off + j = 8 * f + (o + j) by omega, hbit]
      exact congrArg val.testBit (by omega)
    · by_cases hlast : (off + j) / 8 = f + 1 + m
      · have hbit := hs.last ((off + j) % 8) (by omega)
        rw [show off + j = 8 * (f + 1 + m) + (off + j) % 8 by omega, hbit]
        exact congrArg val.testBit (by omega)
      · have hk : (off + j) / 8 - (f + 1) < m := by omega
        have hbit := hs.middle _ hk ((off + j) % 8) (Nat.mod_lt _ (by decide))
        have hmirror := middleOctet_eq_iff.1 (hmirrored _ hk) (7 - (off + j) % 8) (by omega)
        rw [hbehind, hmod] at hmirror
        rw [show off + j = 8 * (f + 1 + ((off + j) / 8 - (f + 1))) + (off + j) % 8 by omega, hbit,
          show l + 8 * ((off + j) / 8 - (f + 1)) + 7 - (off + j) % 8 =
            l + 8 * ((off + j) / 8 - (f + 1)) + (7 - (off + j) % 8) by omega, hmirror]
        exact congrArg val.testBit (by omega)

/-- The other bits stay if the bits of the value above the field are there already. -/
theorem StoredBits.outside_iff {val : ℕ} {buf buf' : Bytes} (hs : StoredBits val buf buf' off len f o m l)
    (h : Span off len f o m l) :
    (∀ p, p < off ∨ off + len ≤ p → bitAt buf' p = bitAt buf p) ↔
      ∀ j < o, val.testBit (len + j) = true → bitAt buf (off - 1 - j) = true := by
  obtain ⟨hoff, hlen, ho, hl, hm⟩ := h
  constructor
  · intro hsame j hj hbit
    have hfront := hs.front j hj
    rw [hsame _ (.inl (by omega)), hbit, Bool.or_true] at hfront
    exact hfront
  · intro hclear p hp
    by_cases hout : p < 8 * f ∨ off + len ≤ p
    · exact hs.outside p hout
    · have hpos : off - 1 - (off - 1 - p) = p := by omega
      have hfront := hs.front (off - 1 - p) (by omega)
      rw [hpos] at hfront
      rw [hfront]
      cases hbit : val.testBit (len + (off - 1 - p)) with
      | false => exact Bool.or_false _
      | true =>
        have hset := hclear (off - 1 - p) (by omega) hbit
        rw [hpos] at hset
        rw [hset, Bool.or_true]

/-- A store that does not fail has touched the octet behind the whole ones, and octets of a number of 64
bits only. -/
theorem uint2bits_places {val : ℕ} {buf buf' : Bytes} (h : uint2bits val buf off len true = .ok buf') :
    (places off len).lastOctet < buf.length ∧ (places off len).middleOctets < 7 := by
  unfold uint2bits at h
  obtain ⟨last, hlast, h1⟩ := Framing.bind_ok h
  obtain ⟨pos, _, h2⟩ := Framing.bind_ok h1
  obtain ⟨octet, _, h3⟩ := Framing.bind_ok h2
  obtain ⟨buf1, _, h4⟩ := Framing.bind_ok h3
  obtain ⟨buf2, _, h5⟩ := Framing.bind_ok h4
  obtain ⟨first, _, h6⟩ := Framing.bind_ok h5
  obtain ⟨pos2, hpos, _⟩ := Framing.bind_ok h6
  constructor
  · by_contra hge
    unfold octetAt at hlast
    rw [List.getElem?_eq_none (Nat.le_of_not_lt hge)] at hlast
    cases hlast
  · by_contra hge
    unfold position at hpos
    rw [if_pos (by omega)] at hpos
    cases hpos

/-- A field that ends in its first octet has 255 middle octets. -/
theorem places_reaches (hlen : len ≤ 64) (h : (places off len).middleOctets < 7) :
    8 - off % 8 ≤ len ∧ BitFields.behind off len < 56 := by
  have hmiddle : (places off len).middleOctets = BitFields.bitsBehind off len / 8 % 2 ^ 8 := rfl
  rw [hmiddle] at h
  unfold BitFields.bitsBehind at h
  unfold BitFields.behind
  have hmod : off % 8 < 8 := Nat.mod_lt _ (by decide)
  generalize off % 8 = o at h hmod ⊢
  omega

/-- **Bit-field access is consistent** exactly for suitable fields and values. -/
theorem field_consistent_iff (val : ℕ) (buf : Bytes) (off len : ℕ) :
    Consistent val buf off len ↔ Suitable val buf off len := by
  constructor
  · rintro ⟨buf', hstore, _, hfield, hsame, hread⟩
    have hlen : len ≤ 64 := by
      by_contra hlong
      unfold bits2uint at hread
      rw [if_pos (by omega)] at hread
      cases hread
    obtain ⟨hinside, hmiddle⟩ := uint2bits_places hstore
    obtain ⟨hreaches, hfits⟩ := places_reaches hlen hmiddle
    have hspan := span_of hreaches hfits
    rw [hspan.places] at hinside
    obtain ⟨stored, hrun, _, hget⟩ := uint2bits_ok hspan val hinside
    rw [hstore] at hrun
    obtain rfl := Except.ok.inj hrun
    have hbits := storedBits hspan hget
    have hend : off + len < 8 * buf.length := by
      have hlt : off / 8 + 1 + BitFields.behind off len / 8 < buf.length := hinside
      unfold BitFields.behind at hlt
      omega
    exact ⟨hreaches, hfits, hend, (hbits.outside_iff hspan).1 hsame, (hbits.field_iff hspan).1 hfield⟩
  · rintro ⟨hreaches, hfits, hinside, hclear, hmirrored⟩
    have hspan := span_of hreaches hfits
    have hfit : off / 8 + 1 + BitFields.behind off len / 8 < buf.length := by
      unfold BitFields.behind
      omega
    obtain ⟨buf', hrun, hlen, hget⟩ := uint2bits_ok hspan val hfit
    have hbits := storedBits hspan hget
    exact ⟨buf', hrun, hlen, (hbits.field_iff hspan).2 hmirrored, (hbits.outside_iff hspan).2 hclear,
      bits2uint_stored hspan hget (by rw [hlen]; exact hfit)⟩

/-- A field of four bits at the front of a buffer. -/
theorem short_field_faults :
    ¬ ∀ val off len (buf : Bytes), 1 ≤ len → len ≤ 64 → val < 2 ^ 64 → off + len ≤ 8 * buf.length →
      Consistent val buf off len := by
  intro h
  obtain ⟨buf', hstore, _⟩ := h 5 0 4 [0, 0, 0, 0] (by decide) (by decide) (by decide) (by decide)
  have hfault : uint2bits 5 [0, 0, 0, 0] 0 4 true = .error .outOfBounds := by decide
  rw [hfault] at hstore
  cases hstore

end ChannelEmulator.BitFields
