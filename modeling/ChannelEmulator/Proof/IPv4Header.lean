import ChannelEmulator.Spec.IPv4Packet

/-!
# The header of an IPv4 packet

* `Header`: the fields of the first twelve octets, and the octets behind them; its setters and
  getters.
* `computeChecksum_octets`: **the checksum does not depend on the one that is stored**, so that a
  packet that stores it is valid.
-/

namespace ChannelEmulator.IPv4

/-- The first twelve octets of a packet by their fields, and the octets behind them. -/
structure Header where
  first : Octet
  tos : Octet
  totalLength : ℕ
  ident : ℕ
  flags : ℕ
  ttl : Octet
  protocol : Octet
  checksum : ℕ
  rest : Bytes

namespace Header

/-- The octets of a packet. -/
def octets (h : Header) : Bytes :=
  h.first :: h.tos :: (fromU16 h.totalLength ++ (fromU16 h.ident ++ (fromU16 h.flags ++
    h.ttl :: h.protocol :: (fromU16 h.checksum ++ h.rest))))

/-- The header length that the first octet says. -/
def words (h : Header) : ℕ := (h.first.toNat &&& 0xF) * 4

/-- The fields fit their sixteen bits. -/
structure Fits (h : Header) : Prop where
  totalLength_lt : h.totalLength < 2 ^ 16
  ident_lt : h.ident < 2 ^ 16
  flags_lt : h.flags < 2 ^ 16
  checksum_lt : h.checksum < 2 ^ 16

variable (h : Header)

theorem words_le : h.words ≤ 60 :=
  Nat.mul_le_mul_right 4 (Nat.and_le_right (n := h.first.toNat))

@[simp] theorem octets_length : h.octets.length = 12 + h.rest.length := by
  simp [octets, fromU16]
  omega

@[simp] theorem headerLength_octets : headerLength h.octets = h.words := rfl

@[simp] theorem getHeaderLength_octets : getHeaderLength h.octets = .ok h.words := rfl

theorem getFlags_octets (hf : h.flags < 2 ^ 16) : getFlags h.octets = .ok h.flags :=
  toU16_fromU16 _ hf

theorem getTotalLength_octets (hl : h.totalLength < 2 ^ 16) :
    getTotalLength h.octets = .ok h.totalLength :=
  toU16_fromU16 _ hl

theorem getChecksum_octets (hc : h.checksum < 2 ^ 16) : getChecksum h.octets = .ok h.checksum :=
  toU16_fromU16 _ hc

theorem setTotalLength_octets (v : ℕ) :
    setTotalLength h.octets v = .ok ({ h with totalLength := v } : Header).octets :=
  storeAt_append [h.first, h.tos] (fromU16 h.totalLength) (fromU16 v) _ rfl

theorem setIdent_octets (v : ℕ) : setIdent h.octets v = .ok ({ h with ident := v } : Header).octets :=
  storeAt_append (h.first :: h.tos :: fromU16 h.totalLength) (fromU16 h.ident) (fromU16 v) _ rfl

theorem setFlags_octets (v : ℕ) : setFlags h.octets v = .ok ({ h with flags := v } : Header).octets :=
  storeAt_append (h.first :: h.tos :: (fromU16 h.totalLength ++ fromU16 h.ident)) (fromU16 h.flags)
    (fromU16 v) _ rfl

theorem setChecksum_octets (v : ℕ) :
    setChecksum h.octets v = .ok ({ h with checksum := v } : Header).octets :=
  storeAt_append (h.first :: h.tos :: (fromU16 h.totalLength ++ (fromU16 h.ident ++
    (fromU16 h.flags ++ [h.ttl, h.protocol])))) (fromU16 h.checksum) (fromU16 v) _ rfl

/-! ## What is behind the header -/

/-- The fields of a packet, with other octets behind them. -/
def carry (rest : Bytes) : Header := { h with rest := rest }

theorem carry_append (opts data : Bytes) :
    (h.carry opts).octets ++ data = (h.carry (opts ++ data)).octets := by
  simp [carry, octets]

variable {h}

theorem octets_split (opts : Bytes) {data : Bytes} (hrest : h.rest = opts ++ data) :
    h.octets = (h.carry opts).octets ++ data := by
  rw [carry_append, ← hrest]
  rfl

theorem carry_octets_length {opts : Bytes} (hwords : h.words = 12 + opts.length) :
    (h.carry opts).octets.length = h.words := by
  rw [octets_length, hwords]
  rfl

theorem payload_octets (opts : Bytes) {data : Bytes} (hrest : h.rest = opts ++ data)
    (hwords : h.words = 12 + opts.length) : payload h.octets = data := by
  rw [payload, headerLength_octets, octets_split opts hrest,
    List.drop_left' (carry_octets_length hwords)]

theorem getDataLength_octets (opts : Bytes) {data : Bytes} (hrest : h.rest = opts ++ data)
    (hwords : h.words = 12 + opts.length) (hlt : data.length < 2 ^ 64) :
    getDataLength h.octets = .ok data.length := by
  have hlen : h.octets.length = h.words + data.length := by
    rw [octets_split opts hrest, List.length_append, carry_octets_length hwords]
  unfold getDataLength
  rw [getHeaderLength_octets, hlen]
  simp only [bind, Except.bind, pure, Except.pure]
  rw [Nat.add_assoc, Nat.add_sub_cancel_left, Nat.add_mod_right, Nat.mod_eq_of_lt hlt]

/-- Octets stored where the data is. -/
theorem storeAt_octets (opts : Bytes) {old data : Bytes} (hrest : h.rest = opts ++ old)
    (hwords : h.words = 12 + opts.length) (hlen : old.length = data.length) :
    storeAt h.octets h.words data = .ok (h.carry (opts ++ data)).octets := by
  have hstore := storeAt_append (h.carry opts).octets old data [] hlen
  rwa [List.append_nil, List.append_nil, ← octets_split opts hrest, carry_octets_length hwords,
    carry_append] at hstore

variable (h)

/-! ## The checksum -/

/-- The checksum of the header. -/
def sum : ℕ := 0xFFFF - addCarries 3 (sumWords 0 (({ h with checksum := 0 } : Header).octets.take h.words))

theorem sum_lt : h.sum < 2 ^ 16 := by
  unfold sum
  omega

/-- **The checksum does not depend on the stored one.** -/
theorem computeChecksum_octets (h12 : 12 ≤ h.words) (hle : h.words ≤ 12 + h.rest.length) :
    computeChecksum h.octets = .ok h.sum := by
  obtain ⟨k, hk⟩ := Nat.exists_eq_add_of_le' h12
  have hsum : sumWords 0 (h.octets.take h.words) =
      sumWords 0 (({ h with checksum := 0 } : Header).octets.take h.words) := by
    rw [hk]
    simp [octets, fromU16, sumWords]
  unfold computeChecksum
  rw [getHeaderLength_octets]
  simp only [bind, Except.bind]
  rw [if_neg (by rw [octets_length]; omega), hsum]
  rfl

/-- The packet with its checksum stored. -/
def closed : Header := { h with checksum := h.sum }

/-- The checksum that is stored last. -/
theorem close_octets (h12 : 12 ≤ h.words) (hle : h.words ≤ 12 + h.rest.length) :
    (computeChecksum h.octets).bind (setChecksum h.octets) = .ok h.closed.octets := by
  rw [h.computeChecksum_octets h12 hle]
  exact h.setChecksum_octets _

theorem hasValidChecksum_closed (h12 : 12 ≤ h.words) (hle : h.words ≤ 12 + h.rest.length) :
    hasValidChecksum h.closed.octets = .ok true := by
  have hget : getChecksum h.closed.octets = .ok h.sum := h.closed.getChecksum_octets h.sum_lt
  have hcompute : computeChecksum h.closed.octets = .ok h.sum :=
    h.closed.computeChecksum_octets h12 hle
  unfold hasValidChecksum
  rw [hget, hcompute]
  simp [bind, Except.bind, pure, Except.pure]

end Header

/-- The sum of a header needs no more turns of the carry loop than the model allows. -/
theorem addCarries_lt {n : ℕ} (hn : n < 2 ^ 32) : addCarries 3 n < 2 ^ 16 := by
  have hturn : ∀ m : ℕ, (m &&& 0xFFFF) + (m >>> 16) = m % 2 ^ 16 + m / 2 ^ 16 := by
    intro m
    rw [Nat.shiftRight_eq_div_pow, show (0xFFFF : ℕ) = 2 ^ 16 - 1 from rfl,
      Nat.and_two_pow_sub_one_eq_mod]
  have hdone : ∀ m : ℕ, m >>> 16 = 0 ↔ m < 2 ^ 16 := by
    intro m
    rw [Nat.shiftRight_eq_div_pow]
    omega
  simp only [addCarries, hturn, hdone]
  split_ifs <;> omega

theorem two_octets_eq (a b : Octet) : fromU16 (a.toNat * 256 + b.toNat) = [a, b] := by
  have ha : UInt8.ofNat ((a.toNat * 256 + b.toNat) / 256) = a := by
    rw [← UInt8.toNat_inj, UInt8.toNat_ofNat']
    have := a.toNat_lt
    have := b.toNat_lt
    omega
  have hb : UInt8.ofNat (a.toNat * 256 + b.toNat) = b := by
    rw [← UInt8.toNat_inj, UInt8.toNat_ofNat']
    have := b.toNat_lt
    omega
  rw [fromU16, ha, hb]

theorem exists_cons {u : Bytes} {n : ℕ} (hu : n + 1 ≤ u.length) :
    ∃ a t, u = a :: t ∧ n ≤ t.length := by
  cases u with
  | nil => exact absurd hu (by simp)
  | cons a t => exact ⟨a, t, rfl, by simpa using hu⟩

/-- Twelve octets and more are the fields of a header. -/
theorem exists_header {u : Bytes} (hu : 12 ≤ u.length) : ∃ h : Header, h.Fits ∧ u = h.octets := by
  have hlt : ∀ a b : Octet, a.toNat * 256 + b.toNat < 2 ^ 16 := by
    intro a b
    have := a.toNat_lt
    have := b.toNat_lt
    omega
  obtain ⟨a, t₁, rfl, h₁⟩ := exists_cons hu
  obtain ⟨b, t₂, rfl, h₂⟩ := exists_cons h₁
  obtain ⟨c, t₃, rfl, h₃⟩ := exists_cons h₂
  obtain ⟨d, t₄, rfl, h₄⟩ := exists_cons h₃
  obtain ⟨e, t₅, rfl, h₅⟩ := exists_cons h₄
  obtain ⟨f, t₆, rfl, h₆⟩ := exists_cons h₅
  obtain ⟨g, t₇, rfl, h₇⟩ := exists_cons h₆
  obtain ⟨i, t₈, rfl, h₈⟩ := exists_cons h₇
  obtain ⟨j, t₉, rfl, h₉⟩ := exists_cons h₈
  obtain ⟨k, t₁₀, rfl, h₁₀⟩ := exists_cons h₉
  obtain ⟨l, t₁₁, rfl, h₁₁⟩ := exists_cons h₁₀
  obtain ⟨m, rest, rfl, -⟩ := exists_cons h₁₁
  refine ⟨⟨a, b, c.toNat * 256 + d.toNat, e.toNat * 256 + f.toNat, g.toNat * 256 + i.toNat, j, k,
    l.toNat * 256 + m.toNat, rest⟩, ⟨hlt _ _, hlt _ _, hlt _ _, hlt _ _⟩, ?_⟩
  simp only [Header.octets, two_octets_eq]
  rfl

end ChannelEmulator.IPv4
