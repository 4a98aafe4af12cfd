import ChannelEmulator.Coding.BitString
import ChannelEmulator.Framing.Run
import ChannelEmulator.Spec.BitPattern
import Mathlib.Tactic.SplitIfs

/-!
# Buffers that are filled with a pattern

* `getBit_ok`, `setBit_ok`, `bitCopy_ok`: the bit access of the source counts the bits of an octet from
  the least significant one on.
* `fillBuffer_ok`: which bit of the pattern is copied to a bit of a buffer.
* `continuous_iff`: **the buffers continue the pattern exactly if, for every request, the bits that are
  copied are those at the phase that all requests before have left.**
-/

namespace ChannelEmulator

open Coding

/-! ## Bits of octets from the other end -/

/-- The place of a bit when the bits of each octet are counted from the other end. -/
def mirror (j : ℕ) : ℕ := 8 * (j / 8) + (7 - j % 8)

theorem mirror_div (j : ℕ) : mirror j / 8 = j / 8 := by
  unfold mirror
  omega

theorem mirror_mod (j : ℕ) : mirror j % 8 = 7 - j % 8 := by
  unfold mirror
  omega

theorem mirror_mirror (j : ℕ) : mirror (mirror j) = j := by
  have hdiv := mirror_div j
  have hmod := mirror_mod j
  rw [mirror, hdiv, hmod]
  omega

theorem mirror_lt {j n : ℕ} : mirror j < 8 * n ↔ j < 8 * n := by
  unfold mirror
  omega

theorem bitAt_mirror (u : Bytes) (j : ℕ) : bitAt u (mirror j) = (u[j / 8]?.getD 0).toNat.testBit (j % 8) := by
  unfold bitAt
  rw [mirror_div, mirror_mod, show 7 - (7 - j % 8) = j % 8 by omega]

variable {u : Bytes} {j : ℕ}

theorem getBit_ok (hj : j < 8 * u.length) : getBit u j = .ok (bitAt u (mirror j)) := by
  have hget : u[j / 8]? = some (u[j / 8]?.getD 0) := by
    rw [List.getElem?_eq_getElem (by omega), Option.getD_some]
  unfold getBit
  rw [octetAt_of_getElem? hget, Framing.ok_bind, bitAt_mirror, Nat.one_shiftLeft, Nat.and_two_pow]
  refine congrArg Except.ok ?_
  cases Nat.testBit (u[j / 8]?.getD 0).toNat (j % 8) with
  | false => exact decide_eq_false (fun h => h (Nat.zero_mul _))
  | true => exact decide_eq_true (by rw [Bool.toNat_true, Nat.one_mul]; exact Nat.ne_of_gt (Nat.two_pow_pos _))

/-- One bit of an octet is set. -/
theorem testBit_set_bit (x : ℕ) (val : Bool) {k m : ℕ} (hk : k < 8) (hm : m < 8) :
    (UInt8.ofNat ((x &&& (0xff - (1 <<< k))) ||| (val.toNat <<< k))).toNat.testBit m =
      if m = k then val else x.testBit m := by
  have hmask : ∀ k < 8, ∀ m < 8, Nat.testBit (0xff - (1 <<< k)) m = decide (m ≠ k) := by decide
  have hnew : ∀ v : Bool, ∀ k < 8, ∀ m < 8, Nat.testBit (v.toNat <<< k) m = (decide (m = k) && v) := by decide
  rw [testBit_octet _ hm, Nat.testBit_or, Nat.testBit_and, hmask k hk m hm, hnew val k hk m hm]
  by_cases hmk : m = k
  · rw [if_pos hmk, decide_eq_true hmk, decide_eq_false (not_not.2 hmk), Bool.and_false, Bool.false_or,
      Bool.true_and]
  · rw [if_neg hmk, decide_eq_false hmk, decide_eq_true hmk, Bool.and_true, Bool.false_and, Bool.or_false]

theorem setBit_ok (hj : j < 8 * u.length) (val : Bool) :
    ∃ u', setBit u j val = .ok u' ∧ u'.length = u.length ∧
      ∀ i, bitAt u' (mirror i) = if i = j then val else bitAt u (mirror i) := by
  have hlt : j / 8 < u.length := by omega
  refine ⟨u.set (j / 8) (.ofNat ((u[j / 8].toNat &&& (0xff - (1 <<< (j % 8)))) ||| (val.toNat <<< (j % 8)))),
    ?_, List.length_set, fun i => ?_⟩
  · unfold setBit
    rw [octetAt_of_getElem? (List.getElem?_eq_getElem hlt), Framing.ok_bind]
    exact storeAt_one hlt _
  · rw [bitAt_set hlt, mirror_div, mirror_mod, show 7 - (7 - i % 8) = i % 8 by omega,
      testBit_set_bit _ _ (by omega) (by omega), bitAt_mirror]
    by_cases hdiv : i / 8 = j / 8
    · rw [if_pos hdiv, hdiv, List.getElem?_eq_getElem hlt, Option.getD_some]
      by_cases hij : i = j
      · rw [if_pos hij, if_pos (by rw [hij])]
      · rw [if_neg hij, if_neg (by omega)]
    · rw [if_neg hdiv, if_neg (fun h => hdiv (by rw [h]))]

/-- **The copy of bits.** -/
theorem bitCopyFrom_ok {srcBitOffset dstBitOffset : ℕ} {src : Bytes} (bitLen : ℕ) {b : ℕ} {dst : Bytes}
    (hsrc : srcBitOffset + b + bitLen ≤ 8 * src.length) (hdst : dstBitOffset + b + bitLen ≤ 8 * dst.length) :
    ∃ dst', bitCopyFrom srcBitOffset dstBitOffset src bitLen b dst = .ok dst' ∧ dst'.length = dst.length ∧
      ∀ i, bitAt dst' (mirror i) = if dstBitOffset + b ≤ i ∧ i < dstBitOffset + b + bitLen then
        bitAt src (mirror (srcBitOffset + (i - dstBitOffset))) else bitAt dst (mirror i) := by
  induction bitLen generalizing b dst with
  | zero => exact ⟨dst, rfl, rfl, fun i => (if_neg (by omega)).symm⟩
  | succ bitLen ih =>
    obtain ⟨mid, hset, hlen, hmid⟩ := setBit_ok (u := dst) (j := dstBitOffset + b) (by omega)
      (bitAt src (mirror (srcBitOffset + b)))
    obtain ⟨dst', hrun, hlen', hdst'⟩ := ih (b := b + 1) (by omega)
      (show dstBitOffset + (b + 1) + bitLen ≤ 8 * mid.length by omega)
    refine ⟨dst', ?_, hlen'.trans hlen, fun i => ?_⟩
    · unfold bitCopyFrom
      rw [getBit_ok (by omega), Framing.ok_bind, hset]
      exact hrun
    · rw [hdst', hmid]
      by_cases hi : i = dstBitOffset + b
      · rw [if_neg (by omega), if_pos hi, if_pos (by omega), hi, Nat.add_sub_cancel_left]
      · rw [if_neg hi]
        by_cases hin : dstBitOffset + (b + 1) ≤ i ∧ i < dstBitOffset + (b + 1) + bitLen
        · rw [if_pos hin, if_pos (by omega)]
        · rw [if_neg hin, if_neg (by omega)]

theorem bitCopy_ok {dstBitOffset bitLen : ℕ} {src dst : Bytes} (hsrc : bitLen ≤ 8 * src.length)
    (hdst : dstBitOffset + bitLen ≤ 8 * dst.length) :
    ∃ dst', bitCopy 0 dstBitOffset bitLen src dst = .ok dst' ∧ dst'.length = dst.length ∧
      ∀ i, bitAt dst' (mirror i) = if dstBitOffset ≤ i ∧ i < dstBitOffset + bitLen then
        bitAt src (mirror (i - dstBitOffset)) else bitAt dst (mirror i) := by
  have hsrc' : 0 + 0 + bitLen ≤ 8 * src.length := by omega
  obtain ⟨dst', hrun, hlen, hbits⟩ := bitCopyFrom_ok bitLen hsrc' (show dstBitOffset + 0 + bitLen ≤ _ from hdst)
  refine ⟨dst', hrun, hlen, fun i => ?_⟩
  rw [hbits, Nat.add_zero, Nat.zero_add]

namespace BitPattern

/-! ## One buffer -/

variable {p : BitPattern}

/-- The bit of the pattern that is copied to bit `k` of a buffer, of a pattern of `L` bits and behind a request
of `prev` octets. -/
def sourceBit (L prev k : ℕ) : ℕ :=
  if L % 8 = 0 then (8 * prev + k) % L else mirror (mirror k % L)

theorem alignedFrom_ok {pattern : Bytes} (hpos : 0 < pattern.length) (q octets x : ℕ) :
    ∃ buf, alignedFrom pattern (8 * q) octets x = .ok buf ∧ buf.length = octets ∧
      ∀ y < octets, buf[y]? = pattern[(x + y + q) % pattern.length]? := by
  induction octets generalizing x with
  | zero => exact ⟨[], rfl, rfl, fun y hy => absurd hy (Nat.not_lt_zero y)⟩
  | succ octets ih =>
    obtain ⟨rest, hrun, hlen, hrest⟩ := ih (x + 1)
    have hget := getElem?_of_lt (Nat.mod_lt (x + q) hpos)
    have hdiv : 8 * q / 8 = q := by omega
    have hand : ∀ o : Octet, o &&& 0xff = o := by
      intro o
      refine UInt8.toNat_inj.1 ?_
      rw [UInt8.toNat_and]
      exact (Nat.and_two_pow_sub_one_eq_mod o.toNat 8).trans (Nat.mod_eq_of_lt o.toNat_lt)
    refine ⟨pattern.getD ((x + q) % pattern.length) 0 :: rest, ?_, by rw [List.length_cons, hlen], fun y hy => ?_⟩
    · unfold alignedFrom
      rw [hdiv, octetAt_of_getElem? hget, Framing.ok_bind, hrun, Framing.ok_bind, hand]
      rfl
    · cases y with
      | zero => exact hget.symm
      | succ y =>
        rw [List.getElem?_cons_succ, hrest y (by omega), show x + 1 + y + q = x + (y + 1) + q by omega]

theorem mod_of_start {L b j : ℕ} (hstart : b % L = 0) (hge : b ≤ j) (hlt : j < b + L) : j % L = j - b := by
  obtain ⟨q, rfl⟩ := Nat.dvd_of_mod_eq_zero hstart
  have hsplit : j = j - L * q + L * q := by omega
  conv_lhs => rw [hsplit]
  rw [Nat.add_mul_mod_self_left, Nat.mod_eq_of_lt (by omega)]

/-- **The loop over a pattern that is not aligned** copies the pattern from its start to the start of the
buffer, with the bits of each octet from the other end. -/
theorem unalignedFrom_ok {pattern : Bytes} {L : ℕ} (hL : 0 < L) (hsize : L ≤ 8 * pattern.length) (fuel : ℕ)
    {n b k : ℕ} {buf : Bytes} (hlen : buf.length = n) (hb : b ≤ n * 8) (hfuel : n * 8 - b < fuel)
    (hphase : b % L = 0 ∨ b = n * 8) (hbits : ∀ j < b, bitAt buf (mirror j) = bitAt pattern (mirror (j % L))) :
    ∃ buf' next, unalignedFrom pattern L (n * 8) fuel b k buf = .ok (buf', next) ∧ buf'.length = n ∧
      ∀ j < n * 8, bitAt buf' (mirror j) = bitAt pattern (mirror (j % L)) := by
  induction fuel generalizing b k buf with
  | zero => omega
  | succ fuel ih =>
    by_cases hmore : b < n * 8
    · have hstart : b % L = 0 := by omega
      have hcopy : ∃ c, (if n * 8 < L + b then n * 8 - b else L) = c ∧ 0 < c ∧ c ≤ L ∧ b + c ≤ n * 8 ∧
          (c = L ∨ b + c = n * 8) := by
        split_ifs with hend
        · exact ⟨_, rfl, by omega, by omega, by omega, by omega⟩
        · exact ⟨_, rfl, hL, Nat.le_refl L, by omega, .inl rfl⟩
      obtain ⟨c, hc, hc0, hcL, hcn, hlast⟩ := hcopy
      obtain ⟨mid, hrun, hmidlen, hmid⟩ := bitCopy_ok (show c ≤ 8 * pattern.length by omega)
        (show b + c ≤ 8 * buf.length by omega)
      obtain ⟨buf', next, hrest, hlen', hbits'⟩ := ih (b := b + c) (k := c)
        (show mid.length = n from hmidlen.trans hlen) hcn (by omega)
        (by
          rcases hlast with rfl | hlast
          · rw [Nat.add_mod_right]
            exact .inl hstart
          · exact .inr hlast)
        fun j hj => by
          rw [hmid]
          by_cases hin : b ≤ j
          · rw [if_pos ⟨hin, hj⟩, mod_of_start hstart hin (by omega)]
          · rw [if_neg (by omega)]
            exact hbits j (by omega)
      refine ⟨buf', next, ?_, hlen', hbits'⟩
      unfold unalignedFrom
      rw [if_pos hmore, hc]
      show (bitCopy 0 b c pattern buf >>= _) = _
      rw [hrun]
      exact hrest
    · refine ⟨buf, k, if_neg hmore, hlen, fun j hj => hbits j (by omega)⟩

/-- A pattern whose octets have room for its bits. -/
structure Sized (p : BitPattern) : Prop where
  length_eq : p.pattern.length = byteLen p.patternBitLen

theorem byteLen_aligned {L : ℕ} (h : L % 8 = 0) : L = 8 * byteLen L := by
  unfold byteLen
  rw [if_neg (by omega)]
  omega

theorem le_byteLen (L : ℕ) : L ≤ 8 * byteLen L := by
  unfold byteLen
  split <;> omega

/-- What is carried over of a request of `prev` octets. -/
def Phase (p : BitPattern) (prev : ℕ) : Prop :=
  p.patternBitLen % 8 = 0 → p.nextBitToCopy = 8 * (prev % p.pattern.length)

/-- **What a buffer is filled with.** -/
theorem fillBuffer_ok (hsize : p.Sized) (hL : 0 < p.patternBitLen) {prev : ℕ} (hphase : p.Phase prev) (n : ℕ) :
    ∃ buf next, p.fillBuffer n = .ok (buf, next) ∧ buf.length = n ∧
      (p.patternBitLen % 8 = 0 → next = 8 * (n % p.pattern.length)) ∧
      ∀ k < 8 * n, bitAt buf k = bitAt p.pattern (sourceBit p.patternBitLen prev k) := by
  have hbytes := hsize.length_eq
  unfold fillBuffer sourceBit
  by_cases haligned : p.patternBitLen % 8 = 0
  · have hL8 := byteLen_aligned haligned
    rw [← hbytes] at hL8
    obtain ⟨buf, hrun, hlen, hbuf⟩ := alignedFrom_ok (show 0 < p.pattern.length by omega)
      (prev % p.pattern.length) n 0
    refine ⟨buf, n % p.pattern.length * 8, ?_, hlen, fun _ => Nat.mul_comm _ _, fun k hk => ?_⟩
    · rw [if_pos haligned, if_neg (by omega), hphase haligned, hrun]
      rfl
    · have hoctet := hbuf (k / 8) (by omega)
      have hsplit : (8 * prev + k) % (8 * p.pattern.length) =
          8 * ((k / 8 + prev % p.pattern.length) % p.pattern.length) + k % 8 := by
        rw [Nat.mod_mul, Nat.add_mod_mod, show (8 * prev + k) / 8 = k / 8 + prev by omega,
          show (8 * prev + k) % 8 = k % 8 by omega, Nat.add_comm]
      rw [if_pos haligned, hL8, hsplit]
      unfold bitAt
      rw [hoctet, Nat.zero_add, show (8 * ((k / 8 + prev % p.pattern.length) % p.pattern.length) + k % 8) / 8 =
        (k / 8 + prev % p.pattern.length) % p.pattern.length by omega,
        show (8 * ((k / 8 + prev % p.pattern.length) % p.pattern.length) + k % 8) % 8 = k % 8 by omega]
  · have hroom := le_byteLen p.patternBitLen
    rw [← hbytes] at hroom
    obtain ⟨buf, next, hrun, hlen, hbuf⟩ := unalignedFrom_ok hL hroom (n * 8 + 1) (n := n) (b := 0) (k := 0)
      (newUnit_length n) (Nat.zero_le _) (by omega) (.inl (Nat.zero_mod _))
      fun j hj => absurd hj (Nat.not_lt_zero j)
    refine ⟨buf, next, (if_neg haligned).trans hrun, hlen, fun h => absurd h haligned, fun k hk => ?_⟩
    have hbit := hbuf (mirror k) (by rw [Nat.mul_comm, mirror_lt]; exact hk)
    rw [mirror_mirror] at hbit
    rw [if_neg haligned, hbit]

theorem makeNewPatternBuffer_ok (hsize : p.Sized) (hL : 0 < p.patternBitLen) {prev : ℕ} (hphase : p.Phase prev)
    (n : ℕ) :
    ∃ p' buf, p.makeNewPatternBuffer n false = .ok (p', buf) ∧ buf.length = n ∧ p'.pattern = p.pattern ∧
      p'.patternBitLen = p.patternBitLen ∧ p'.Phase n ∧
      ∀ k < 8 * n, bitAt buf k = bitAt p.pattern (sourceBit p.patternBitLen prev k) := by
  obtain ⟨buf, next, hrun, hlen, hnext, hbits⟩ := fillBuffer_ok hsize hL hphase n
  refine ⟨{ p with nextBitToCopy := if p.patternBitLen ≤ next then 0 else next }, buf, ?_, hlen, rfl, rfl, ?_,
    hbits⟩
  · unfold makeNewPatternBuffer
    show (p.fillBuffer n >>= _) = _
    rw [hrun]
    rfl
  · intro hbits
    have haligned : p.patternBitLen % 8 = 0 := hbits
    have hL8 := byteLen_aligned haligned
    rw [← hsize.length_eq] at hL8
    have hlt := Nat.mod_lt n (show 0 < p.pattern.length by omega)
    have hkept := hnext haligned
    show (if p.patternBitLen ≤ next then 0 else next) = _
    rw [if_neg (by omega), hkept]

/-! ## All buffers -/

/-- A request, as a step that sends the buffer. -/
def serve (p : BitPattern) (bufLen : ℕ) : Except Fault (BitPattern × List Bytes) := do
  let (p, buf) ← p.makeNewPatternBuffer bufLen false
  return (p, [buf])

/-- For every request behind one of `prev` octets and `total` octets in all, the bits that are copied are those
at the phase that is left. -/
def PhasesAgree (pattern : Bytes) (L : ℕ) : ℕ → ℕ → List ℕ → Prop
  | _, _, [] => True
  | prev, total, n :: lens =>
    (∀ k < 8 * n, bitAt pattern (sourceBit L prev k) = bitAt pattern ((8 * total + k) % L)) ∧
      PhasesAgree pattern L n (total + n) lens

/-- **The requests one after the other.** -/
theorem serve_all (lens : List ℕ) {p : BitPattern} (hsize : p.Sized) (hL : 0 < p.patternBitLen) {prev : ℕ}
    (hphase : p.Phase prev) (total : ℕ) :
    ∃ p' bufs, Framing.runAll serve p lens = .ok (p', bufs) ∧ bufs.map List.length = lens ∧
      ((∀ t < 8 * bufs.flatten.length,
          bitAt bufs.flatten t = bitAt p.pattern ((8 * total + t) % p.patternBitLen)) ↔
        PhasesAgree p.pattern p.patternBitLen prev total lens) := by
  induction lens generalizing p prev total with
  | nil => exact ⟨p, [], rfl, rfl, fun _ => trivial, fun _ t ht => absurd ht (Nat.not_lt_zero t)⟩
  | cons n lens ih =>
    obtain ⟨mid, buf, hmake, hlen, hpattern, hbitLen, hmid, hbits⟩ := makeNewPatternBuffer_ok hsize hL hphase n
    obtain ⟨p', bufs, hrun, hlens, hiff⟩ := ih (p := mid) ⟨by rw [hpattern, hbitLen]; exact hsize.length_eq⟩
      (by rw [hbitLen]; exact hL) hmid (total + n)
    rw [hpattern, hbitLen] at hiff
    have hserve : serve p n = .ok (mid, [buf]) := by
      unfold serve
      rw [hmake]
      rfl
    refine ⟨p', buf :: bufs, Framing.runAll_cons hserve hrun, by rw [List.map_cons, hlen, hlens], ?_⟩
    unfold PhasesAgree
    rw [← hiff, List.flatten_cons, List.length_append, hlen]
    constructor
    · intro hall
      refine ⟨fun k hk => ?_, fun t ht => ?_⟩
      · have hbit := hall k (by omega)
        rw [bitAt_append, if_pos (by omega)] at hbit
        rw [← hbits k hk, hbit]
      · have hbit := hall (8 * n + t) (by omega)
        rw [bitAt_append, if_neg (by omega), hlen, Nat.add_sub_cancel_left] at hbit
        rw [hbit, Nat.mul_add, Nat.add_assoc]
    · rintro ⟨hfirst, hrest⟩ t ht
      rw [bitAt_append, hlen]
      by_cases hin : t < 8 * n
      · rw [if_pos hin, hbits t hin, hfirst t hin]
      · rw [if_neg hin, hrest (t - 8 * n) (by omega)]
        congr 2
        omega

/-- The buffers have the lengths that are requested, and in a row they are the pattern, repeated from its start. -/
def Continuous (p : BitPattern) (lens : List ℕ) : Prop :=
  ∃ p' bufs, Framing.runAll serve p lens = .ok (p', bufs) ∧ bufs.map List.length = lens ∧
    ∀ t < 8 * bufs.flatten.length, bitAt bufs.flatten t = bitAt p.pattern (t % p.patternBitLen)

/-- **The repeating pattern is continuous across buffers** exactly if, for every request, the bits that are copied
are those at the phase that all requests before have left. -/
theorem continuous_iff (p : BitPattern) (hsize : p.Sized) (hnew : p.nextBitToCopy = 0) (lens : List ℕ) :
    Continuous p lens ↔ lens = [] ∨ 0 < p.patternBitLen ∧ PhasesAgree p.pattern p.patternBitLen 0 0 lens := by
  rcases Nat.eq_zero_or_pos p.patternBitLen with hzero | hL
  · -- a pattern without bits serves no request
    cases lens with
    | nil => exact ⟨fun _ => .inl rfl, fun _ => ⟨p, [], rfl, rfl, fun t ht => absurd ht (Nat.not_lt_zero t)⟩⟩
    | cons n lens =>
      have hempty : p.pattern.length = 0 := by
        rw [hsize.length_eq, hzero]
        rfl
      have hfill : p.fillBuffer n = .error .outOfBounds := by
        unfold fillBuffer
        rw [if_pos (by rw [hzero]), if_pos hempty]
      have hserve : serve p n = .error .outOfBounds := by
        have hmake : p.makeNewPatternBuffer n false = .error .outOfBounds := by
          unfold makeNewPatternBuffer
          show (p.fillBuffer n >>= _) = _
          rw [hfill]
          rfl
        unfold serve
        rw [hmake]
        rfl
      constructor
      · rintro ⟨p', bufs, hrun, _⟩
        rw [Framing.runAll_error hserve] at hrun
        cases hrun
      · rintro (hnil | ⟨hpos, _⟩)
        · cases hnil
        · omega
  · have hphase : p.Phase 0 := fun _ => by rw [hnew, Nat.zero_mod]
    obtain ⟨p', bufs, hrun, hlens, hiff⟩ := serve_all lens hsize hL hphase 0
    simp only [Nat.mul_zero, Nat.zero_add] at hiff
    constructor
    · rintro ⟨q, bufs', hrun', _, hbits⟩
      rw [hrun] at hrun'
      obtain ⟨_, rfl⟩ := Prod.mk.inj (Except.ok.inj hrun')
      exact .inr ⟨hL, hiff.1 hbits⟩
    · rintro (rfl | ⟨_, hagree⟩)
      · exact ⟨p, [], rfl, rfl, fun t ht => absurd ht (Nat.not_lt_zero t)⟩
      · exact ⟨p', bufs, hrun, hlens, hiff.2 hagree⟩

/-- Two requests of one octet for a pattern of two. -/
theorem continuous_two : Continuous ⟨8, [1, 2], 16, 0⟩ [1, 1] :=
  (continuous_iff _ ⟨by decide⟩ (by decide) _).2 (.inr ⟨by decide, by decide, by decide, trivial⟩)

/-- The third request of one octet gets the second octet of the pattern again. -/
theorem third_buffer_repeats :
    ¬ ∀ (p : BitPattern) (lens : List ℕ), p.Sized → p.nextBitToCopy = 0 → 0 < p.patternBitLen →
      Continuous p lens := by
  intro h
  obtain ⟨p', bufs, hrun, _, hbits⟩ := h ⟨8, [1, 2], 16, 0⟩ [1, 1, 1] ⟨by decide⟩ (by decide) (by decide)
  have hserved : Framing.runAll serve ⟨8, [1, 2], 16, 0⟩ [1, 1, 1] =
      .ok (⟨8, [1, 2], 16, 8⟩, [[1], [2], [2]]) := by decide
  rw [hserved] at hrun
  obtain ⟨_, rfl⟩ := Prod.mk.inj (Except.ok.inj hrun)
  exact absurd (hbits 22 (by decide)) (by decide)

end BitPattern

end ChannelEmulator
