import ChannelEmulator.Coding.OnesComplement
import ChannelEmulator.Proof.IPv4Header
import ChannelEmulator.Spec.UdpDatagram

/-!
# The checksum of UDP datagrams

* `computeUDPChecksum_ok`: the checksum is the complement of the sum of the words modulo `2^16 - 1`.
* `changed_word`: how the sum depends on one word.
* `checksum_agrees_iff`: **the checksum that is stored is in use, is valid, and detects every change of
  a word, if the sum is not a multiple of `2^16 - 1`** and the field was a zero before.
-/

namespace ChannelEmulator.IPv4

open Coding

/-! ## The carries -/

theorem addCarries_mod (k n : ℕ) : addCarries k n % 65535 = n % 65535 := by
  induction k generalizing n with
  | zero => rfl
  | succ k ih =>
    have hand : n &&& 0xFFFF = n % 2 ^ 16 := Nat.and_two_pow_sub_one_eq_mod n 16
    have hshift : n >>> 16 = n / 2 ^ 16 := Nat.shiftRight_eq_div_pow n 16
    unfold addCarries
    rw [hand, hshift]
    split
    · rfl
    · rw [ih]
      omega

theorem addCarries_pos {n : ℕ} (hn : 0 < n) (k : ℕ) : 0 < addCarries k n := by
  induction k generalizing n with
  | zero => exact hn
  | succ k ih =>
    have hand : n &&& 0xFFFF = n % 2 ^ 16 := Nat.and_two_pow_sub_one_eq_mod n 16
    have hshift : n >>> 16 = n / 2 ^ 16 := Nat.shiftRight_eq_div_pow n 16
    unfold addCarries
    rw [hand, hshift]
    split
    · exact hn
    · exact ih (by omega)

/-- The complement of a sum that is not empty; it is a zero for the sums that are congruent to zero. -/
theorem complementSum_addCarries {n : ℕ} (hpos : 0 < n) (hn : n < 2 ^ 32) :
    complementSum (addCarries 3 n) = (65535 - n % 65535) % 65535 := by
  have hlt := addCarries_lt hn
  have hge := addCarries_pos hpos 3
  have hmod := addCarries_mod 3 n
  generalize addCarries 3 n = s at hlt hge hmod
  have hlong : 2 ^ 32 - 1 - s ≠ 0 := by omega
  show (if 2 ^ 32 - 1 - s = 0 then 0xFFFF else 2 ^ 32 - 1 - s) % 2 ^ 16 = _
  rw [if_neg hlong]
  omega

/-! ## The sum -/

/-- A datagram whose lengths are right: the IPv4 header has five words at least, the UDP header is
there, and the UDP length is that of the unit behind the IPv4 header. -/
structure Datagram (u : Bytes) : Prop where
  header_ge : 20 ≤ headerLength u
  header_le : headerLength u + 8 ≤ u.length
  length_eq : wordAt u (headerLength u + 4) = u.length - headerLength u

/-- The words of the pseudo-header and of the datagram, as they are stored. -/
def totalSum (u : Bytes) : ℕ :=
  wordSum ((u.drop 12).take 8) + (protocolUDP + wordAt u (headerLength u + 4)) +
    wordSum (u.drop (headerLength u))

/-- The UDP checksum field. -/
def storedSum (u : Bytes) : ℕ := wordAt u (headerLength u + 6)

theorem toU16_drop {u : Bytes} {k : ℕ} (hk : k + 2 ≤ u.length) : toU16 (u.drop k) = .ok (wordAt u k) := by
  have hhigh : u.getD k 0 = u[k] := by
    rw [List.getD_eq_getElem?_getD, List.getElem?_eq_getElem (by omega), Option.getD_some]
  have hlow : u.getD (k + 1) 0 = u[k + 1] := by
    rw [List.getD_eq_getElem?_getD, List.getElem?_eq_getElem (by omega), Option.getD_some]
  unfold wordAt
  rw [List.drop_eq_getElem_cons (by omega), List.drop_eq_getElem_cons (show k + 1 < u.length by omega),
    hhigh, hlow]
  rfl

variable {u v : Bytes}

theorem Datagram.getHeaderLength (h : Datagram u) : getHeaderLength u = .ok (headerLength u) := by
  cases u with
  | nil => exact absurd h.header_le (by simp)
  | cons b u => rfl

theorem Datagram.getUDPLength (h : Datagram u) : getUDPLength u = .ok (u.length - headerLength u) := by
  have hle := h.header_le
  unfold IPv4.getUDPLength ptrSrcPort
  rw [h.getHeaderLength]
  exact (toU16_drop (by omega)).trans (congrArg Except.ok h.length_eq)

theorem Datagram.getUDPChecksum (h : Datagram u) : getUDPChecksum u = .ok (storedSum u) := by
  have hle := h.header_le
  unfold IPv4.getUDPChecksum ptrSrcPort
  rw [h.getHeaderLength]
  exact toU16_drop (by omega)

theorem Datagram.length_lt (h : Datagram u) : u.length - headerLength u < 2 ^ 16 := by
  rw [← h.length_eq]
  exact wordAt_lt u _

theorem addWords_done {bound idx : ℕ} (h : ¬ idx < bound) (sum : ℕ) (rest : Bytes) :
    addWords bound idx sum rest = .ok (sum, rest) := by
  rcases rest with _ | ⟨a, _ | ⟨b, rest⟩⟩
  · rw [addWords, if_neg h]
    exact fun _ _ _ hnil => nomatch hnil
  · rw [addWords, if_neg h]
    exact fun _ _ _ hone => nomatch hone
  · rw [addWords, if_neg h]

theorem addWords_more {bound idx sum : ℕ} {a b : Octet} (h : idx < bound)
    (hsum : sum + (a.toNat * 256 + b.toNat) < 2 ^ 32) (rest : Bytes) :
    addWords bound idx sum (a :: b :: rest) = addWords bound (idx + 2) (sum + (a.toNat * 256 + b.toNat)) rest := by
  rw [addWords, if_pos h, Nat.mod_eq_of_lt hsum]

/-- **The loops** add up an even number of octets. -/
theorem addWords_ok {bound : ℕ} (front rest : Bytes) {idx sum : ℕ} (heven : front.length % 2 = 0)
    (hbound : idx + front.length = bound) (hsum : sum + wordSum front < 2 ^ 32) :
    addWords bound idx sum (front ++ rest) = .ok (sum + wordSum front, rest) := by
  induction front using wordSum.induct generalizing idx sum with
  | case1 a b front ih =>
    rw [List.length_cons, List.length_cons] at heven hbound
    rw [wordSum_cons] at hsum ⊢
    have hsmall : sum + (a.toNat * 256 + b.toNat) < 2 ^ 32 := Nat.lt_of_le_of_lt (by omega) hsum
    have hrest : sum + (a.toNat * 256 + b.toNat) + wordSum front < 2 ^ 32 :=
      Nat.lt_of_le_of_lt (by omega) hsum
    rw [List.cons_append, List.cons_append, addWords_more (by omega) hsmall,
      ih (by omega) (by omega) hrest, Nat.add_assoc]
  | case2 a => exact absurd heven (by simp)
  | case3 =>
    have hdone : ¬ idx < bound := by
      rw [← hbound]
      exact Nat.lt_irrefl _
    rw [List.nil_append, wordSum_nil, Nat.add_zero]
    exact addWords_done hdone sum rest

theorem addDatagram_even (h : Datagram u) (heven : u.length % 2 ≠ 1) (sum : ℕ) :
    addDatagram u sum =
      (addWords (u.length - headerLength u) 0 sum (u.drop (headerLength u)) >>= fun r => .ok r.1) := by
  unfold addDatagram
  rw [h.getUDPLength]
  unfold ptrSrcPort
  rw [h.getHeaderLength]
  exact if_neg heven

theorem addDatagram_odd (h : Datagram u) (hodd : u.length % 2 = 1) (sum : ℕ) :
    addDatagram u sum =
      (addWords ((u.length - headerLength u + 2 ^ 32 - 1) % 2 ^ 32) 0 sum (u.drop (headerLength u)) >>= fun r =>
        octetAt r.2 0 >>= fun last => .ok ((r.1 + last.toNat * 256) % 2 ^ 32)) := by
  unfold addDatagram
  rw [h.getUDPLength]
  unfold ptrSrcPort
  rw [h.getHeaderLength]
  exact if_pos hodd

/-- Both ways of counting: an odd octet is added with a zero behind it. -/
theorem addDatagram_ok (h : Datagram u) {sum : ℕ} (hsum : sum + wordSum (u.drop (headerLength u)) < 2 ^ 32) :
    addDatagram u sum = .ok (sum + wordSum (u.drop (headerLength u))) := by
  have hle := h.header_le
  have hlt := h.length_lt
  have hwords : headerLength u % 4 = 0 := Nat.mul_mod_left _ 4
  have hlen : (u.drop (headerLength u)).length = u.length - headerLength u := List.length_drop
  by_cases hodd : u.length % 2 = 1
  · rcases List.eq_nil_or_concat (u.drop (headerLength u)) with hnil | ⟨front, last, hsplit⟩
    · rw [hnil, List.length_nil] at hlen
      omega
    · rw [List.concat_eq_append] at hsplit
      rw [hsplit, List.length_append, List.length_singleton] at hlen
      rw [hsplit, wordSum_append (by omega), wordSum_one] at hsum ⊢
      have hbound : 0 + front.length = (u.length - headerLength u + 2 ^ 32 - 1) % 2 ^ 32 := by omega
      have hrun := addWords_ok front [last] (by omega) hbound (show sum + wordSum front < 2 ^ 32 by omega)
      have hmod : (sum + wordSum front + last.toNat * 256) % 2 ^ 32 = sum + (wordSum front + last.toNat * 256) := by
        omega
      rw [addDatagram_odd h hodd, hsplit, hrun]
      exact congrArg Except.ok hmod
  · have hrun := addWords_ok (u.drop (headerLength u)) [] (by omega) (Nat.zero_add _) hsum
    rw [List.append_nil, hlen] at hrun
    rw [addDatagram_even h hodd, hrun]
    rfl

theorem addresses_sum (hu : 20 ≤ u.length) :
    wordSum ((u.drop 12).take 8) = wordAt u 12 + wordAt u 14 + wordAt u 16 + wordAt u 18 := by
  rw [wordSum_slice_succ (show 12 + 2 ≤ u.length by omega) 6,
    wordSum_slice_succ (show 14 + 2 ≤ u.length by omega) 4,
    wordSum_slice_succ (show 16 + 2 ≤ u.length by omega) 2,
    wordSum_slice_succ (show 18 + 2 ≤ u.length by omega) 0, List.take_zero, wordSum_nil]
  omega

/-- **The checksum** is the complement of the sum modulo `2^16 - 1`. -/
theorem computeUDPChecksum_ok (h : Datagram u) :
    computeUDPChecksum u protocolUDP = .ok ((65535 - totalSum u % 65535) % 65535) := by
  have hge := h.header_ge
  have hle := h.header_le
  have hlt := h.length_lt
  have hlen : (u.drop (headerLength u)).length = u.length - headerLength u := List.length_drop
  have hdatagram := wordSum_le (u.drop (headerLength u))
  have haddresses := wordSum_le ((u.drop 12).take 8)
  rw [List.length_take] at haddresses
  have hudp : protocolUDP = 17 := rfl
  have htotal : totalSum u = wordAt u 12 + wordAt u 14 + wordAt u 16 + wordAt u 18 +
      (protocolUDP + (u.length - headerLength u)) + wordSum (u.drop (headerLength u)) := by
    unfold totalSum
    rw [addresses_sum (by omega), h.length_eq]
  have hsmall : totalSum u < 2 ^ 32 := by
    unfold totalSum
    rw [h.length_eq]
    omega
  have hpos : 0 < totalSum u := by omega
  unfold computeUDPChecksum
  rw [toU16_drop (show 12 + 2 ≤ u.length by omega), toU16_drop (show 14 + 2 ≤ u.length by omega),
    toU16_drop (show 16 + 2 ≤ u.length by omega), toU16_drop (show 18 + 2 ≤ u.length by omega), h.getUDPLength]
  show (addDatagram u (wordAt u 12 + wordAt u 14 + wordAt u 16 + wordAt u 18 +
    (protocolUDP + (u.length - headerLength u))) >>= _) = _
  rw [addDatagram_ok h (by rw [← htotal]; exact hsmall), ← htotal]
  exact congrArg Except.ok (complementSum_addCarries hpos hsmall)

/-! ## One word -/

/-- The words of the addresses, and of the datagram but for its length. -/
def Summed (u : Bytes) (k : ℕ) : Prop :=
  k % 2 = 0 ∧ (12 ≤ k ∧ k < 20 ∨ headerLength u ≤ k ∧ k ≠ headerLength u + 4)

theorem headerLength_agree {k : ℕ} (h : AgreeBut k u v) (hk : 0 < k) : headerLength u = headerLength v := by
  unfold headerLength
  rw [List.headD_eq_head?_getD, List.headD_eq_head?_getD, List.head?_eq_getElem?, List.head?_eq_getElem?,
    h.2 0 (by omega) (by omega)]

theorem Summed.datagram {k : ℕ} (hk : Summed u k) (h : AgreeBut k u v) (hu : Datagram u) : Datagram v := by
  obtain ⟨heven, hplace⟩ := hk
  have hge := hu.header_ge
  have hwords : headerLength u % 4 = 0 := Nat.mul_mod_left _ 4
  have hsame := headerLength_agree h (by omega)
  have hlength := h.wordAt_eq (m := headerLength u + 4) (by omega)
  refine ⟨hsame ▸ hge, ?_, ?_⟩
  · rw [← hsame, ← h.1]
    exact hu.header_le
  · rw [← hsame, ← h.1, ← hlength]
    exact hu.length_eq

/-- **The sum depends on each word alike.** -/
theorem changed_word {k : ℕ} (hk : Summed u k) (h : AgreeBut k u v) (hu : Datagram u) :
    totalSum u + wordAt v k = totalSum v + wordAt u k := by
  obtain ⟨heven, hplace⟩ := hk
  have hge := hu.header_ge
  have hwords : headerLength u % 4 = 0 := Nat.mul_mod_left _ 4
  have hsame := headerLength_agree h (by omega)
  have hlength := h.wordAt_eq (m := headerLength u + 4) (by omega)
  unfold totalSum
  rw [← hsame, ← hlength]
  rcases hplace with ⟨hlow, hhigh⟩ | ⟨hbehind, _⟩
  · -- a word of the addresses
    have hslice := wordSum_slice h hlow (show k + 1 < 12 + 8 by omega) (by omega)
    rw [← h.drop_eq (m := headerLength u) (by omega)]
    omega
  · have hslice := wordSum_drop h hbehind (by omega)
    rw [← h.slice_eq (m := 12) (n := 8) (.inr (by omega))]
    omega

/-- What `setUDPChecksum` makes of a datagram. -/
theorem setUDPChecksum_ok (h : Datagram u) {c : ℕ} (hc : c < 2 ^ 16) :
    ∃ u', setUDPChecksum u c = .ok u' ∧ AgreeBut (headerLength u + 6) u u' ∧
      wordAt u' (headerLength u + 6) = c := by
  have hle := h.header_le
  have hfit : headerLength u + 6 + (fromU16 c).length ≤ u.length := hle
  refine ⟨overwrite u (headerLength u + 6) (fromU16 c), ?_, ?_, ?_⟩
  · unfold setUDPChecksum ptrSrcPort
    rw [h.getHeaderLength]
    exact if_neg (Nat.not_lt.2 hfit)
  · refine ⟨(overwrite_length hfit).symm, fun i hi hi1 => (getElem?_overwrite hfit ?_).symm⟩
    have hlen : (fromU16 c).length = 2 := rfl
    omega
  · have hdrop : (overwrite u (headerLength u + 6) (fromU16 c)).drop (headerLength u + 6) =
        fromU16 c ++ u.drop (headerLength u + 6 + (fromU16 c).length) := by
      unfold overwrite
      rw [List.append_assoc, List.drop_left' (List.length_take_of_le (by omega))]
    have hread : toU16 ((overwrite u (headerLength u + 6) (fromU16 c)).drop (headerLength u + 6)) =
        .ok (wordAt (overwrite u (headerLength u + 6) (fromU16 c)) (headerLength u + 6)) :=
      toU16_drop (by rw [overwrite_length hfit]; exact hfit)
    rw [hdrop, toU16_fromU16 _ hc] at hread
    exact (Except.ok.inj hread).symm

theorem hasUDPChecksum_ok (h : Datagram u) : hasUDPChecksum u = .ok (decide (0 < storedSum u)) := by
  unfold hasUDPChecksum
  rw [h.getUDPChecksum]
  rfl

theorem hasValidUDPChecksum_ok (h : Datagram u) :
    hasValidUDPChecksum u = .ok (decide (storedSum u = 0 ∨ totalSum u % 65535 = 0)) := by
  unfold hasValidUDPChecksum
  rw [h.getUDPChecksum, computeUDPChecksum_ok h]
  by_cases hzero : storedSum u = 0
  · rw [decide_eq_true (.inl hzero)]
    exact if_pos hzero
  · refine (if_neg hzero).trans (congrArg Except.ok (decide_eq_decide.2 ?_))
    omega

/-! ## Generation and verification -/

/-- One word of the addresses, the ports or the data is replaced by one that is not congruent to it. -/
structure WordReplaced (k : ℕ) (u v : Bytes) : Prop where
  agree : AgreeBut k u v
  even : k % 2 = 0
  place : 12 ≤ k ∧ k < 20 ∨
    headerLength u ≤ k ∧ k < u.length ∧ k ≠ headerLength u + 4 ∧ k ≠ headerLength u + 6
  differs : wordAt u k % 65535 ≠ wordAt v k % 65535

/-- The checksum that is computed and stored is in use, is valid, and detects the change of a word. -/
def ChecksumAgrees (u : Bytes) : Prop :=
  ∃ c u', computeUDPChecksum u protocolUDP = .ok c ∧ setUDPChecksum u c = .ok u' ∧
    hasUDPChecksum u' = .ok true ∧ hasValidUDPChecksum u' = .ok true ∧
    ∀ k v, WordReplaced k u' v → hasValidUDPChecksum v = .ok false

/-- A datagram with a checksum that is in use and is valid, and another one of which one word differs. -/
theorem replaced_invalid {k : ℕ} (hu : Datagram u) (hused : storedSum u ≠ 0) (hvalid : totalSum u % 65535 = 0)
    (h : WordReplaced k u v) : hasValidUDPChecksum v = .ok false := by
  have hk : Summed u k := by
    refine ⟨h.even, ?_⟩
    rcases h.place with hplace | ⟨hge, _, hne, _⟩
    · exact .inl hplace
    · exact .inr ⟨hge, hne⟩
  have hge := hu.header_ge
  have hwords : headerLength u % 4 = 0 := Nat.mul_mod_left _ 4
  have heven := h.even
  have hplace := h.place
  have hv := hk.datagram h.agree hu
  have hsum := changed_word hk h.agree hu
  have hdiffers := h.differs
  have hstored : storedSum v = storedSum u := by
    unfold storedSum
    rw [← headerLength_agree h.agree (by omega)]
    exact (h.agree.wordAt_eq (by omega)).symm
  rw [hasValidUDPChecksum_ok hv, hstored]
  refine congrArg Except.ok (decide_eq_false ?_)
  omega

/-- **UDP checksum generation and verification agree** for the datagrams whose checksum field is a zero
and whose words do not sum up to a zero, both modulo `2^16 - 1`: the complement that is a zero is stored
as no checksum. -/
theorem checksum_agrees_iff (u : Bytes) (hu : Datagram u) :
    ChecksumAgrees u ↔ storedSum u % 65535 = 0 ∧ totalSum u % 65535 ≠ 0 := by
  have hwords : headerLength u % 4 = 0 := Nat.mul_mod_left _ 4
  have hc : (65535 - totalSum u % 65535) % 65535 < 2 ^ 16 := by omega
  obtain ⟨u', hset, hagree, hword⟩ := setUDPChecksum_ok hu hc
  have hk : Summed u (headerLength u + 6) := ⟨by omega, .inr (by omega)⟩
  have hu' := hk.datagram hagree hu
  have hsum := changed_word hk hagree hu
  have hold : wordAt u (headerLength u + 6) = storedSum u := rfl
  have hnew : storedSum u' = (65535 - totalSum u % 65535) % 65535 := by
    unfold storedSum
    rw [← headerLength_agree hagree (by omega)]
    exact hword
  rw [hword, hold] at hsum
  constructor
  · rintro ⟨c, w, hcompute, hstore, hhas, hvalid, _⟩
    rw [computeUDPChecksum_ok hu] at hcompute
    obtain rfl := Except.ok.inj hcompute
    rw [hset] at hstore
    obtain rfl := Except.ok.inj hstore
    rw [hasUDPChecksum_ok hu'] at hhas
    rw [hasValidUDPChecksum_ok hu'] at hvalid
    have hused := of_decide_eq_true (Except.ok.inj hhas)
    have hcheck := of_decide_eq_true (Except.ok.inj hvalid)
    omega
  · rintro ⟨hfield, htotal⟩
    have hused : storedSum u' ≠ 0 := by omega
    have hcheck : totalSum u' % 65535 = 0 := by omega
    refine ⟨_, u', computeUDPChecksum_ok hu, hset, ?_, ?_, fun k v => replaced_invalid hu' hused hcheck⟩
    · rw [hasUDPChecksum_ok hu', decide_eq_true (Nat.pos_of_ne_zero hused)]
    · rw [hasValidUDPChecksum_ok hu', decide_eq_true (.inr hcheck)]

/-- A datagram with a port less in its sum. -/
theorem checksum_agrees_query : ChecksumAgrees
    [0x45, 0, 0, 28, 0, 0, 0x40, 0, 63, 17, 0x27, 0xCF, 10, 0, 0, 1, 10, 0, 0, 2, 0xEB, 0xA5, 0, 53, 0, 8, 0, 0] :=
  (checksum_agrees_iff _ ⟨by decide, by decide, by decide⟩).2 ⟨by decide, by decide⟩

/-- A valid datagram whose sum is `0xFFFF`: the complement is stored as a zero, and the checksum is not
in use. -/
theorem zero_checksum_stored :
    ¬ ∀ u, Datagram u → hasValidChecksum u = .ok true → hasValidUDPChecksum u = .ok true → ChecksumAgrees u := by
  intro h
  obtain ⟨c, u', hcompute, hset, hhas, _⟩ := h
    [0x45, 0, 0, 28, 0, 0, 0x40, 0, 63, 17, 0x27, 0xCF, 10, 0, 0, 1, 10, 0, 0, 2, 0xEB, 0xA6, 0, 53, 0, 8, 0, 0]
    ⟨by decide, by decide, by decide⟩ (by decide) (by decide)
  have hzero : computeUDPChecksum
      [0x45, 0, 0, 28, 0, 0, 0x40, 0, 63, 17, 0x27, 0xCF, 10, 0, 0, 1, 10, 0, 0, 2, 0xEB, 0xA6, 0, 53, 0, 8, 0, 0]
      protocolUDP = .ok 0 := by decide
  rw [hzero] at hcompute
  obtain rfl := Except.ok.inj hcompute
  have hstored : setUDPChecksum
      [0x45, 0, 0, 28, 0, 0, 0x40, 0, 63, 17, 0x27, 0xCF, 10, 0, 0, 1, 10, 0, 0, 2, 0xEB, 0xA6, 0, 53, 0, 8, 0, 0]
      0 = .ok [0x45, 0, 0, 28, 0, 0, 0x40, 0, 63, 17, 0x27, 0xCF, 10, 0, 0, 1, 10, 0, 0, 2, 0xEB, 0xA6, 0, 53,
        0, 8, 0, 0] := by decide
  rw [hstored] at hset
  obtain rfl := Except.ok.inj hset
  exact absurd hhas (by decide)

end ChannelEmulator.IPv4
