import ChannelEmulator.Proof.Encapsulation
import ChannelEmulator.Spec.ExtensionValues
import Mathlib.Data.List.Induction

/-!
# Values of the Internet Protocol Extension

* `spread`, `squeeze`: a number from base 128 to the upper bits of octets, and back.
* `convertToIPE_ok`, `unconvertIPE_ok`: the loops of the source compute them.
* `ipe_coding`: **the values below `2^56` are coded as the well-formed shims, one to one**, and a packet
  keeps its payload if the shim has the length that is allocated.
-/

namespace ChannelEmulator.Encap

/-! ## Base 128 -/

/-- The digits in base 128 as the upper seven bits of octets. -/
def spread : ℕ → ℕ → ℕ
  | 0, _ => 0
  | k + 1, v => 2 * (v % 128) + 256 * spread k (v / 128)

/-- The upper seven bits of octets as digits in base 128. -/
def squeeze : ℕ → ℕ → ℕ
  | 0, _ => 0
  | k + 1, x => x / 2 % 128 + 128 * squeeze k (x / 256)

theorem spread_succ (k v : ℕ) : spread (k + 1) v = 2 * (v % 128) + 256 * spread k (v / 128) := rfl

theorem squeeze_succ (k x : ℕ) : squeeze (k + 1) x = x / 2 % 128 + 128 * squeeze k (x / 256) := rfl

theorem spread_lt (k v : ℕ) : spread k v < 256 ^ k := by
  induction k generalizing v with
  | zero => exact Nat.one_pos
  | succ k ih =>
    have hrest := ih (v / 128)
    have hdigit := Nat.mod_lt v (show 0 < 128 by decide)
    unfold spread
    rw [Nat.pow_succ]
    omega

theorem spread_zero (k : ℕ) : spread k 0 = 0 := by
  induction k with
  | zero => rfl
  | succ k ih =>
    unfold spread
    rw [Nat.zero_mod, Nat.zero_div, ih]

theorem squeeze_lt (k x : ℕ) : squeeze k x < 128 ^ k := by
  induction k generalizing x with
  | zero => exact Nat.one_pos
  | succ k ih =>
    have hrest := ih (x / 256)
    have hdigit := Nat.mod_lt (x / 2) (show 0 < 128 by decide)
    unfold squeeze
    rw [Nat.pow_succ]
    omega

theorem squeeze_zero (k : ℕ) : squeeze k 0 = 0 := by
  induction k with
  | zero => rfl
  | succ k ih =>
    show 0 + 128 * squeeze k 0 = 0
    rw [ih]

/-- The lowest bit of all does not count. -/
theorem squeeze_spread {k v : ℕ} (hv : v < 128 ^ k) {e : ℕ} (he : e < 2) (hk : 0 < k ∨ e = 0) :
    squeeze k (spread k v + e) = v := by
  induction k generalizing v e with
  | zero => exact (Nat.lt_one_iff.1 hv).symm
  | succ k ih =>
    rw [Nat.pow_succ] at hv
    have hdigit := Nat.mod_lt v (show 0 < 128 by decide)
    have hrest := ih (show v / 128 < 128 ^ k by omega) (show 0 < 2 by decide) (.inr rfl)
    unfold spread squeeze
    rw [show (2 * (v % 128) + 256 * spread k (v / 128) + e) / 256 = spread k (v / 128) + 0 by omega, hrest]
    omega

/-- The number comes back where the low bits of its octets are clear. -/
theorem spread_squeeze {k x : ℕ} (hx : x < 256 ^ k) (heven : ∀ i < k, x / 256 ^ i % 2 = 0) :
    spread k (squeeze k x) = x := by
  induction k generalizing x with
  | zero => exact (Nat.lt_one_iff.1 hx).symm
  | succ k ih =>
    rw [Nat.pow_succ] at hx
    have hlow := heven 0 (Nat.succ_pos k)
    rw [Nat.pow_zero, Nat.div_one] at hlow
    have hrest := ih (show x / 256 < 256 ^ k by omega) fun i hi => by
      have hbit := heven (i + 1) (Nat.succ_lt_succ hi)
      rwa [Nat.pow_succ, Nat.mul_comm, ← Nat.div_div_eq_div_mul] at hbit
    have hdigit := Nat.mod_lt (x / 2) (show 0 < 128 by decide)
    unfold squeeze spread
    rw [Nat.add_mul_div_left _ _ (by decide), Nat.div_eq_of_lt hdigit, Nat.zero_add, hrest]
    omega

/-! ## The loops -/

/-- The low seven bits in the place of the upper ones, beside the lowest bit. -/
theorem octet_or {e : ℕ} (he : e < 2) (n : ℕ) : e ||| ((n &&& 0x7F) <<< 1) = 2 * (n % 128) + e := by
  have hand : n &&& 0x7F = n % 128 := Nat.and_two_pow_sub_one_eq_mod n 7
  rw [hand, Nat.shiftLeft_eq, Nat.or_comm, Nat.mul_comm]
  exact (Nat.two_pow_add_eq_or_of_lt (i := 1) he _).symm

theorem valueOf_concat (a b : Bytes) : valueOf (a ++ b) = valueOf a * 256 ^ b.length + valueOf b := by
  induction b using List.reverseRecOn with
  | nil => rw [List.append_nil, List.length_nil, Nat.pow_zero, Nat.mul_one]; rfl
  | append_singleton b x ih =>
    rw [← List.append_assoc, valueOf_append, ih, valueOf_append, List.length_append, List.length_singleton,
      Nat.pow_succ]
    ring

theorem valueOf_newUnit (n : ℕ) : valueOf (newUnit n) = 0 := by
  induction n with
  | zero => rfl
  | succ n ih =>
    have hsplit : newUnit (n + 1) = newUnit n ++ [0] := List.replicate_succ'
    rw [hsplit, valueOf_append, ih]
    rfl

/-- **The loop of `convertToIPE`** fills in the octets from the last one on. -/
theorem convertLoop_ok (k : ℕ) {e n : ℕ} (he : e < 2) (hn : n < 128 ^ (k + 1)) (t : Bytes) :
    ∃ buf, convertLoop (k + 1) e n (newUnit (k + 1) ++ t) = .ok buf ∧ buf.length = k + 1 + t.length ∧
      valueOf buf = (spread (k + 1) n + e) * 256 ^ t.length + valueOf t := by
  have hdigit := Nat.mod_lt n (show 0 < 128 by decide)
  have hstore : storeAt (newUnit (k + 1) ++ t) k [.ofNat (e ||| ((n &&& 0x7F) <<< 1))] =
      .ok (newUnit k ++ ([.ofNat (2 * (n % 128) + e)] ++ t)) := by
    have hsplit : newUnit (k + 1) = newUnit k ++ [0] := List.replicate_succ'
    have hput := storeAt_append (newUnit k) [0] [.ofNat (2 * (n % 128) + e)] t rfl
    rw [newUnit_length] at hput
    rw [octet_or he, hsplit, hput, List.append_assoc]
  have hoctet : valueOf [.ofNat (2 * (n % 128) + e)] = 2 * (n % 128) + e := by
    show 0 * 256 + (UInt8.ofNat _).toNat = _
    rw [UInt8.toNat_ofNat', Nat.mod_eq_of_lt (by omega), Nat.zero_mul, Nat.zero_add]
  have hshift : n >>> 7 = n / 128 := Nat.shiftRight_eq_div_pow n 7
  unfold convertLoop
  rw [hstore, hshift]
  show ∃ buf, (if n / 128 ≠ 0 then _ else _) = _ ∧ _
  by_cases hmore : n / 128 = 0
  · refine ⟨newUnit k ++ ([.ofNat (2 * (n % 128) + e)] ++ t), if_neg (not_not.2 hmore), ?_, ?_⟩
    · rw [List.length_append, newUnit_length, List.length_append, List.length_singleton, Nat.add_assoc]
    · rw [valueOf_concat, valueOf_newUnit, valueOf_concat, hoctet]
      unfold spread
      rw [hmore, spread_zero]
      ring
  · cases k with
    | zero => exact absurd (Nat.div_eq_of_lt hn) hmore
    | succ k =>
      rw [Nat.pow_succ] at hn
      obtain ⟨buf, hrun, hlen, hval⟩ := convertLoop_ok k (show 0 < 2 by decide)
        (show n / 128 < 128 ^ (k + 1) by omega) ([.ofNat (2 * (n % 128) + e)] ++ t)
      refine ⟨buf, (if_pos hmore).trans hrun, ?_, ?_⟩
      · rw [hlen, List.length_append, List.length_singleton]
        omega
      · rw [hval, valueOf_concat, hoctet, List.length_append, List.length_singleton, spread_succ (k + 1) n]
        ring

/-- **The loop of `unconvertIPE`.** -/
theorem unconvertLoop_ok (k : ℕ) {bits x normal : ℕ} (hx : x < 256 ^ (k + 1)) (hnormal : normal < 2 ^ bits) :
    unconvertLoop (k + 1) bits x normal = .ok (normal + 2 ^ bits * squeeze (k + 1) x) := by
  have hdigit := Nat.mod_lt (x / 2) (show 0 < 128 by decide)
  have hand : (x &&& 0xFE) >>> 1 = x / 2 % 128 := by
    rw [Nat.shiftRight_and_distrib, Nat.shiftRight_eq_div_pow]
    exact Nat.and_two_pow_sub_one_eq_mod (x / 2) 7
  have hor : normal ||| (((x &&& 0xFE) >>> 1) <<< bits) = normal + 2 ^ bits * (x / 2 % 128) := by
    rw [hand, Nat.shiftLeft_eq, Nat.or_comm, Nat.mul_comm, ← Nat.two_pow_add_eq_or_of_lt hnormal, Nat.add_comm]
  have hshift : x >>> 8 = x / 256 := Nat.shiftRight_eq_div_pow x 8
  unfold unconvertLoop
  rw [hor, hshift]
  by_cases hmore : x / 256 = 0
  · refine (if_neg (not_not.2 hmore)).trans (congrArg Except.ok ?_)
    unfold squeeze
    rw [hmore, squeeze_zero, Nat.mul_zero, Nat.add_zero]
  · cases k with
    | zero => exact absurd (Nat.div_eq_of_lt hx) hmore
    | succ k =>
      rw [Nat.pow_succ] at hx
      have hsmall : normal + 2 ^ bits * (x / 2 % 128) < 2 ^ (bits + 7) := by
        have hle : 2 ^ bits * (x / 2 % 128) ≤ 2 ^ bits * 127 := Nat.mul_le_mul_left _ (by omega)
        rw [Nat.pow_add]
        omega
      refine (if_pos hmore).trans ((unconvertLoop_ok k (by omega) hsmall).trans (congrArg Except.ok ?_))
      rw [squeeze_succ (k + 1) x, Nat.pow_add]
      ring

/-! ## Values -/

theorem properIPE_iff {x : ℕ} :
    properIPE x = true ↔ ∀ i < 8, x / 256 ^ i % 2 = if i = 0 then 1 else 0 := by
  refine ⟨fun h i hi => properIPE_bits h hi, fun h => decide_eq_true ?_⟩
  have hmask : ∀ j < 64, Nat.testBit 0x0101010101010101 j = decide (j % 8 = 0) := by decide
  refine Nat.eq_of_testBit_eq fun j => ?_
  rw [Nat.testBit_and]
  by_cases hj : j < 64
  · rw [hmask j hj]
    by_cases h8 : j % 8 = 0
    · have hbit := h (j / 8) (by omega)
      have hpow : 256 ^ (j / 8) = 2 ^ j := by
        rw [show (256 : ℕ) = 2 ^ 8 from rfl, ← Nat.pow_mul]
        congr 1
        omega
      rw [hpow] at hbit
      rw [decide_eq_true h8, Bool.and_true, Nat.testBit_eq_decide_div_mod_eq, hbit]
      by_cases h0 : j = 0
      · subst h0
        rfl
      · rw [if_neg (by omega), Nat.testBit_one_eq_true_iff_self_eq_zero.not.2 h0 |> Bool.eq_false_iff.2]
        rfl
    · rw [decide_eq_false h8, Bool.and_false]
      have h0 : j ≠ 0 := fun h => h8 (by rw [h])
      exact (Bool.eq_false_iff.2 (mt Nat.testBit_one_eq_true_iff_self_eq_zero.1 h0)).symm
  · have hpow : 2 ^ 64 ≤ 2 ^ j := Nat.pow_le_pow_right (by decide) (by omega)
    rw [Nat.testBit_lt_two_pow (show 0x0101010101010101 < 2 ^ j by omega), Bool.and_false,
      Nat.testBit_lt_two_pow (show 1 < 2 ^ j by omega)]

theorem toU64_of_length {buf : Bytes} (hbuf : buf.length = 8) : toU64 buf = .ok (valueOf buf) := by
  unfold toU64
  rw [if_neg (by omega), List.take_of_length_le (by omega)]
  rfl

/-- **The coding of a value.** -/
theorem convertToIPE_ok {v : ℕ} (hv : v < 2 ^ 56) : convertToIPE v = .ok (spread 8 v + 1) := by
  have hempty : valueOf [] = 0 := rfl
  obtain ⟨buf, hrun, hlen, hval⟩ := convertLoop_ok 7 (show 1 < 2 by decide) (show v < 128 ^ 8 by omega) []
  rw [List.append_nil] at hrun
  rw [List.length_nil, Nat.pow_zero, Nat.mul_one, hempty, Nat.add_zero] at hval
  have hmax : ¬ maxIntStorableInIPE < v := by
    unfold maxIntStorableInIPE
    omega
  unfold convertToIPE
  rw [if_neg hmax, hrun]
  exact (toU64_of_length hlen).trans (congrArg Except.ok hval)

theorem spread_even {k v i : ℕ} (hi : i < k) : spread k v / 256 ^ i % 2 = 0 := by
  induction k generalizing v i with
  | zero => omega
  | succ k ih =>
    have hdigit := Nat.mod_lt v (show 0 < 128 by decide)
    cases i with
    | zero =>
      rw [Nat.pow_zero, Nat.div_one, spread_succ]
      omega
    | succ i =>
      have hrest : (2 * (v % 128) + 256 * spread k (v / 128)) / 256 = spread k (v / 128) := by omega
      rw [Nat.pow_succ, Nat.mul_comm, ← Nat.div_div_eq_div_mul, spread_succ, hrest]
      exact ih (by omega)

/-- The coding is proper. -/
theorem properIPE_spread (v : ℕ) : properIPE (spread 8 v + 1) = true := by
  refine properIPE_iff.2 fun i hi => ?_
  cases i with
  | zero =>
    have hlow := spread_even (v := v) (show 0 < 8 by decide)
    rw [Nat.pow_zero, Nat.div_one] at hlow ⊢
    rw [if_pos rfl]
    omega
  | succ i =>
    have hbit := spread_even (v := v) hi
    rw [Nat.pow_succ, Nat.mul_comm, ← Nat.div_div_eq_div_mul] at hbit ⊢
    have hlow := spread_even (v := v) (show 0 < 8 by decide)
    rw [Nat.pow_zero, Nat.div_one] at hlow
    rw [if_neg (Nat.succ_ne_zero i), show (spread 8 v + 1) / 256 = spread 8 v / 256 by omega, hbit]

/-- **A proper value is the coding of the number it stands for.** -/
theorem spread_of_proper {x : ℕ} (hx : x < 2 ^ 64) (h : properIPE x = true) :
    x = spread 8 (squeeze 8 (x - 1)) + 1 := by
  have hbits := properIPE_iff.1 h
  have hlow := hbits 0 (by decide)
  rw [Nat.pow_zero, Nat.div_one, if_pos rfl] at hlow
  rw [spread_squeeze (by omega) fun i hi => ?_]
  · omega
  · cases i with
    | zero =>
      rw [Nat.pow_zero, Nat.div_one]
      omega
    | succ i =>
      have hbit := hbits (i + 1) hi
      rw [if_neg (Nat.succ_ne_zero i)] at hbit
      rw [Nat.pow_succ, Nat.mul_comm, ← Nat.div_div_eq_div_mul] at hbit ⊢
      rwa [show (x - 1) / 256 = x / 256 by omega]

theorem unconvertIPE_ok {v : ℕ} (hv : v < 2 ^ 56) : unconvertIPE (spread 8 v + 1) = .ok v := by
  have hlt := spread_lt 8 v
  have hlow := spread_even (v := v) (show 0 < 8 by decide)
  rw [Nat.pow_zero, Nat.div_one] at hlow
  unfold unconvertIPE
  rw [properIPE_spread]
  refine (unconvertLoop_ok 7 (by omega) (show 0 < 2 ^ 0 by decide)).trans (congrArg Except.ok ?_)
  rw [squeeze_spread (by omega) (by decide) (.inl (by decide)), Nat.pow_zero, Nat.one_mul, Nat.zero_add]

/-! ## Sequences of octets -/

/-- A sequence of eight octets at most, the low bit of each octet but the last being clear, and the
first octet not superfluous. -/
def WellFormedShim (o : Bytes) : Prop := Shim o ∧ o.length ≤ 8 ∧ o.head? ≠ some 0

theorem valueOf_cons (b : Octet) (o : Bytes) : valueOf (b :: o) = b.toNat * 256 ^ o.length + valueOf o := by
  have hone : valueOf [b] = b.toNat := by
    show 0 * 256 + b.toNat = b.toNat
    rw [Nat.zero_mul, Nat.zero_add]
  rw [← List.singleton_append, valueOf_concat, hone]

theorem valueOf_lt (o : Bytes) : valueOf o < 256 ^ o.length := by
  induction o with
  | nil => exact Nat.one_pos
  | cons b o ih =>
    have hb := b.toNat_lt
    rw [valueOf_cons, List.length_cons, Nat.pow_succ]
    have hle : b.toNat * 256 ^ o.length ≤ 255 * 256 ^ o.length := Nat.mul_le_mul_right _ (by omega)
    omega

theorem valueOf_pos {o : Bytes} (hne : o ≠ []) (hhead : o.head? ≠ some 0) : 0 < valueOf o := by
  cases o with
  | nil => exact absurd rfl hne
  | cons b o =>
    have hb : 0 < b.toNat := by
      refine Nat.pos_of_ne_zero fun h => hhead ?_
      rw [List.head?_cons, UInt8.toNat_inj.1 (h.trans UInt8.toNat_zero.symm)]
    have hpow : 0 < 256 ^ o.length := Nat.pow_pos (by decide)
    have hmul := Nat.mul_pos hb hpow
    rw [valueOf_cons]
    omega

/-- A sequence without a superfluous octet is stored from its value. -/
theorem ipeOctets_valueOf {k : ℕ} {o : Bytes} (hlen : o.length ≤ k) (hhead : o.head? ≠ some 0) :
    ipeOctets k (valueOf o) = o := by
  induction k generalizing o with
  | zero =>
    rw [List.length_eq_zero_iff.1 (Nat.le_zero.1 hlen)]
    rfl
  | succ k ih =>
    rcases List.eq_nil_or_concat o with rfl | ⟨init, b, hsplit⟩
    · exact if_pos rfl
    · rw [List.concat_eq_append] at hsplit
      subst hsplit
      have hpos := valueOf_pos (List.concat_ne_nil b init) hhead
      rw [List.length_append, List.length_singleton] at hlen
      have hinit : init.head? ≠ some 0 := by
        cases init with
        | nil => exact fun h => nomatch h
        | cons x init => exact hhead
      have hb := b.toNat_lt
      unfold ipeOctets
      rw [if_neg (by omega), valueOf_append,
        show (valueOf init * 256 + b.toNat) / 256 = valueOf init by omega, ih (by omega) hinit]
      congr 2
      refine UInt8.toNat_inj.1 ?_
      rw [UInt8.toNat_ofNat']
      omega

/-- No superfluous octet is stored. -/
theorem ipeOctets_head {k n : ℕ} (hn : n < 256 ^ k) : (ipeOctets k n).head? ≠ some 0 := by
  induction k generalizing n with
  | zero =>
    intro h
    cases h
  | succ k ih =>
    rw [Nat.pow_succ] at hn
    have hrest : n / 256 < 256 ^ k := by omega
    unfold ipeOctets
    split
    · intro h
      cases h
    · rename_i h0
      rw [List.head?_append]
      cases hfirst : (ipeOctets k (n / 256)).head? with
      | some b =>
        have hb := ih hrest
        rw [hfirst] at hb
        exact hb
      | none =>
        -- the octet is the only one
        have hval := ipeOctets_value k _ hrest
        rw [List.head?_eq_none_iff.1 hfirst] at hval
        have hsmall : 0 = n / 256 := hval
        intro h
        have hzero := congrArg UInt8.toNat (Option.some.inj h)
        rw [UInt8.toNat_ofNat', UInt8.toNat_zero] at hzero
        omega

/-- A shim has the value of a proper IPE. -/
theorem properIPE_shim {o : Bytes} (h : Shim o) : properIPE (valueOf o) = true := by
  obtain ⟨init, last, rfl, heven, hodd⟩ := h
  have hinit : ∀ i, valueOf init / 256 ^ i % 2 = 0 := by
    induction init using List.reverseRecOn with
    | nil =>
      intro i
      have hempty : valueOf [] = 0 := rfl
      rw [hempty, Nat.zero_div]
    | append_singleton init b ih =>
      have hb := heven b (List.mem_append_right _ (List.mem_singleton.2 rfl))
      intro i
      rw [valueOf_append]
      cases i with
      | zero =>
        rw [Nat.pow_zero, Nat.div_one]
        omega
      | succ i =>
        have hlt := b.toNat_lt
        rw [Nat.pow_succ, Nat.mul_comm (256 ^ i), ← Nat.div_div_eq_div_mul,
          show (valueOf init * 256 + b.toNat) / 256 = valueOf init by omega]
        exact ih (fun x hx => heven x (List.mem_append_left _ hx)) i
  refine properIPE_iff.2 fun i _ => ?_
  rw [valueOf_append]
  cases i with
  | zero =>
    rw [Nat.pow_zero, Nat.div_one, if_pos rfl]
    omega
  | succ i =>
    have hlt := last.toNat_lt
    rw [Nat.pow_succ, Nat.mul_comm (256 ^ i), ← Nat.div_div_eq_div_mul,
      show (valueOf init * 256 + last.toNat) / 256 = valueOf init by omega, hinit i,
      if_neg (Nat.succ_ne_zero i)]

theorem spread_succ_lt (v : ℕ) : spread 8 v + 1 < 256 ^ 8 := by
  have hlt := spread_lt 8 v
  have hlow := spread_even (v := v) (show 0 < 8 by decide)
  rw [Nat.pow_zero, Nat.div_one] at hlow
  omega

/-- **The well-formed shims are the codings of the values below `2^56`.** -/
theorem coded_iff {o : Bytes} :
    (∃ v < 2 ^ 56, ∃ x, convertToIPE v = .ok x ∧ ipeOctets 8 x = o) ↔ WellFormedShim o := by
  constructor
  · rintro ⟨v, hv, x, hx, rfl⟩
    rw [convertToIPE_ok hv] at hx
    obtain rfl := Except.ok.inj hx
    exact ⟨ipeOctets_shim (properIPE_spread v), ipeOctets_length_le 8 _, ipeOctets_head (spread_succ_lt v)⟩
  · rintro ⟨hshim, hlen, hhead⟩
    have hlt : valueOf o < 256 ^ 8 := Nat.lt_of_lt_of_le (valueOf_lt o) (Nat.pow_le_pow_right (by decide) hlen)
    have hcode := spread_of_proper (by omega) (properIPE_shim hshim)
    have hv := squeeze_lt 8 (valueOf o - 1)
    refine ⟨squeeze 8 (valueOf o - 1), by omega, valueOf o, ?_, ipeOctets_valueOf hlen hhead⟩
    rw [convertToIPE_ok (by omega), ← hcode]

/-! ## The packet -/

/-- The octets of a packet behind its shim. -/
def payload (k : PacketClass) (u : Bytes) : Except Fault Bytes := do
  let first ← octetAt u 0
  let ipe ← countIPEOctets k u
  return u.drop (getHeaderOctets first + ipe)

theorem getHeaderOctets_pos (first : Octet) : 0 < getHeaderOctets first := by
  unfold getHeaderOctets
  split <;> decide

/-- A packet with an IPE, of which the octets from the end of the header on are replaced. -/
theorem replaced_ipe {u : Bytes} {first : Octet} (hfirst : octetAt u 0 = .ok first)
    (hipe : hasIPE .withIPE u = .ok true) {o : Bytes} (ho : Shim o)
    (ho8 : o.length ≤ 8) (hfits : getHeaderOctets first + o.length ≤ u.length) (hlt : valueOf o < 2 ^ 64) :
    octetAt (overwrite u (getHeaderOctets first) o) 0 = .ok first ∧
      getIPE (overwrite u (getHeaderOctets first) o) = .ok (valueOf o) ∧
      countIPEOctets .withIPE (overwrite u (getHeaderOctets first) o) = .ok o.length := by
  have hpos := getHeaderOctets_pos first
  have hlen := overwrite_length hfits
  have hfront : octetAt (overwrite u (getHeaderOctets first) o) 0 = .ok first := by
    cases u with
    | nil => cases hfirst
    | cons b u =>
      obtain ⟨m, hm⟩ := Nat.exists_eq_succ_of_ne_zero (Nat.ne_of_gt hpos)
      unfold overwrite
      rw [hm, List.take_succ_cons]
      exact hfirst
  have hdrop : (overwrite u (getHeaderOctets first) o).drop (getHeaderOctets first) =
      o ++ u.drop (getHeaderOctets first + o.length) := by
    have htake : (u.take (getHeaderOctets first)).length = getHeaderOctets first :=
      List.length_take_of_le (by omega)
    unfold overwrite
    rw [List.append_assoc, List.drop_append_of_le_length (by omega), List.drop_of_length_le (by omega),
      List.nil_append]
  have hproto : hasIPE .withIPE (overwrite u (getHeaderOctets first) o) = hasIPE .withIPE u := by
    unfold hasIPE getProtocolID
    rw [hfront, hfirst]
  refine ⟨hfront, ?_, ?_⟩
  · unfold getIPE
    rw [hfront]
    show ipeLoop _ _ 0 0 _ = _
    rw [hdrop, ipeLoop_shim ho _ _ _ _ _ (by omega) (by omega) (by rw [Nat.zero_mul]; omega), Nat.zero_mul, Nat.zero_add]
  · unfold countIPEOctets
    rw [hproto, hipe, hfront]
    show countLoop _ _ 0 _ = _
    rw [hdrop, countLoop_shim ho _ _ _ _ (by omega) (by omega), Nat.zero_add]

theorem calcIPEOctets_eq {x : ℕ} (h0 : 0 < x) (hx : x < 256 ^ 8) : (ipeOctets 8 x).length = calcIPEOctets x :=
  ipeOctets_length 7 x h0 hx

/-- What is stored in a packet with an IPE, which has `u.length` octets. -/
theorem setIPE_coded {v : ℕ} {u : Bytes} {first : Octet} (hfirst : octetAt u 0 = .ok first)
    (hipe : hasIPE .withIPE u = .ok true)
    (hfits : getHeaderOctets first + calcIPEOctets (spread 8 v + 1) ≤ u.length) :
    ∃ u', setIPE u (spread 8 v + 1) = .ok u' ∧ u'.length = u.length ∧ getIPE u' = .ok (spread 8 v + 1) ∧
      countIPEOctets .withIPE u' = .ok (calcIPEOctets (spread 8 v + 1)) ∧
      u'.take (getHeaderOctets first) = u.take (getHeaderOctets first) ∧
      (countIPEOctets .withIPE u = .ok (calcIPEOctets (spread 8 v + 1)) →
        payload .withIPE u' = payload .withIPE u) := by
  have hlt := spread_succ_lt v
  have hoctets := calcIPEOctets_eq (Nat.succ_pos (spread 8 v)) hlt
  have hvalue := ipeOctets_value 8 _ hlt
  rw [← hoctets] at hfits ⊢
  obtain ⟨hfront, hget, hcount⟩ :=
    replaced_ipe hfirst hipe (ipeOctets_shim (properIPE_spread v)) (ipeOctets_length_le 8 _) hfits
    (by rw [hvalue]; omega)
  rw [hvalue] at hget
  refine ⟨_, ?_, overwrite_length hfits, hget, hcount, ?_, fun hold => ?_⟩
  · unfold setIPE
    rw [properIPE_spread, hfirst]
    exact copyUnit_ok hfits
  · unfold overwrite
    rw [List.append_assoc, List.take_append_of_le_length (by rw [List.length_take_of_le (by omega)]),
      List.take_take, Nat.min_self]
  · unfold payload
    rw [hfront, hcount, hfirst, hold]
    refine congrArg Except.ok ?_
    unfold overwrite
    rw [List.append_assoc, ← List.drop_drop, List.drop_left' (List.length_take_of_le (by omega)),
      List.drop_left]

/-- **IPE values are coded one to one.** A value below `2^56` comes back from its coding, the codings
are the well-formed shims, and a packet with an IPE and with space for the coding returns it; what is
behind the shim stays, if the shim that is replaced has the same length. -/
theorem ipe_coding :
    (∀ v < 2 ^ 56, ∃ x, convertToIPE v = .ok x ∧ unconvertIPE x = .ok v ∧
      ∀ (u : Bytes) (first : Octet), octetAt u 0 = .ok first → hasIPE .withIPE u = .ok true →
        getHeaderOctets first + calcIPEOctets x ≤ u.length →
        ∃ u', setIPE u x = .ok u' ∧ u'.length = u.length ∧ getIPE u' = .ok x ∧
          countIPEOctets .withIPE u' = .ok (calcIPEOctets x) ∧
          u'.take (getHeaderOctets first) = u.take (getHeaderOctets first) ∧
          (countIPEOctets .withIPE u = .ok (calcIPEOctets x) → payload .withIPE u' = payload .withIPE u)) ∧
    ∀ o : Bytes, (∃ v < 2 ^ 56, ∃ x, convertToIPE v = .ok x ∧ ipeOctets 8 x = o) ↔ WellFormedShim o := by
  refine ⟨fun v hv => ?_, fun o => coded_iff⟩
  refine ⟨_, convertToIPE_ok hv, unconvertIPE_ok hv, fun u first hfirst hipe hfits => ?_⟩
  exact setIPE_coded hfirst hipe hfits

/-- A longer shim takes the first octet of the payload. -/
theorem longer_shim_overwrites :
    ¬ ∀ v < 2 ^ 56, ∃ x, convertToIPE v = .ok x ∧
      ∀ (u d : Bytes), hasIPE .withIPE u = .ok true → payload .withIPE u = .ok d →
        ∃ u', setIPE u x = .ok u' ∧ getIPE u' = .ok x ∧ payload .withIPE u' = .ok d := by
  intro h
  obtain ⟨x, hx, hset⟩ := h 128 (by decide)
  have hcode : convertToIPE 128 = .ok 0x0201 := by decide
  rw [hcode] at hx
  obtain rfl := Except.ok.inj hx
  obtain ⟨u', hrun, _, hpay⟩ := hset [0xE9, 5, 0x43, 7, 9] [7, 9] (by decide) (by decide)
  have hstored : setIPE [0xE9, 5, 0x43, 7, 9] 0x0201 = .ok [0xE9, 5, 2, 1, 9] := by decide
  rw [hstored] at hrun
  obtain rfl := Except.ok.inj hrun
  exact absurd hpay (by decide)

end ChannelEmulator.Encap
