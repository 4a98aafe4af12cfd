import ChannelEmulator.Spec.EncapsulationPacket
import ChannelEmulator.Framing.Run

/-!
# The length of an encapsulation packet

* `expectedLength_take`: **the length is read from the header** alone.
* `hasAllParts_taken`: what the receivers make of the octets a packet starts with, whatever
  they are (`taken`: those they take for the packet).
-/

namespace ChannelEmulator.Encap

theorem headerOctets_pos (b : Octet) : 0 < minBytesToDetermineLength b := by
  unfold minBytesToDetermineLength getHeaderOctets
  split <;> decide

theorem headerOctets_ge {first : Octet} (h : 2 ≤ first.toNat % 4) :
    4 ≤ minBytesToDetermineLength first := by
  rw [minBytesToDetermineLength, getHeaderOctets]
  split <;> omega

theorem headerOctets_le (first : Octet) : minBytesToDetermineLength first ≤ 8 := by
  rw [minBytesToDetermineLength, getHeaderOctets]
  split <;> omega

theorem toU16_take {u : Bytes} {n : ℕ} (h : 2 ≤ n) : toU16 (u.take n) = toU16 u := by
  match u, n, h with
  | [], n, _ => simp
  | [a], n + 2, _ => rfl
  | a :: b :: t, n + 2, _ => rfl

theorem toU32_take {u : Bytes} {n : ℕ} (h : 4 ≤ n) : toU32 (u.take n) = toU32 u := by
  match u, n, h with
  | [], n, _ => simp
  | [a], n + 4, _ => rfl
  | [a, b], n + 4, _ => rfl
  | [a, b, c], n + 4, _ => rfl
  | a :: b :: c :: d :: t, n + 4, _ => rfl

theorem toU16_bounds {u : Bytes} {v : ℕ} (h : toU16 u = .ok v) : v < 2 ^ 16 ∧ 2 ≤ u.length := by
  rcases u with - | ⟨a, - | ⟨b, t⟩⟩
  · cases h
  · cases h
  · have ha := a.toNat_lt
    have hb := b.toNat_lt
    have := Except.ok.inj h
    rw [List.length_cons, List.length_cons]
    omega

theorem toU32_bounds {u : Bytes} {v : ℕ} (h : toU32 u = .ok v) : v < 2 ^ 32 ∧ 4 ≤ u.length := by
  rcases u with - | ⟨a, - | ⟨b, - | ⟨c, - | ⟨d, t⟩⟩⟩⟩
  · cases h
  · cases h
  · cases h
  · cases h
  · have ha := a.toNat_lt
    have hb := b.toNat_lt
    have hc := c.toNat_lt
    have hd := d.toNat_lt
    have := Except.ok.inj h
    simp only [List.length_cons]
    omega

theorem expectedLength_cons (first : Octet) (rest : Bytes) :
    expectedLength (first :: rest) =
      match first.toNat % 4 with
      | 0 => .error (.missingField (missingFieldMsg "Encapsulation Packet" "Packet Length"))
      | 1 => do
        let b ← octetAt (first :: rest) 1
        return b.toNat
      | 2 => toU16 ((first :: rest).drop 2)
      | _ => toU32 ((first :: rest).drop 4) := rfl

/-- A length of length of zero leaves no length to be read. -/
theorem expectedLength_zero {first : Octet} (h : first.toNat % 4 = 0) (rest : Bytes) (e : ℕ) :
    expectedLength (first :: rest) ≠ .ok e := by
  rw [expectedLength_cons, h]
  simp

theorem lol_cases {first : Octet} (h : first.toNat % 4 ≠ 0) :
    first.toNat % 4 = 1 ∨ first.toNat % 4 = 2 ∨ first.toNat % 4 = 3 := by
  omega

/-- **The length is read from the header.** -/
theorem expectedLength_take {u : Bytes} {first : Octet} (hf : u.head? = some first)
    (hlol : first.toNat % 4 ≠ 0) {n : ℕ} (hn : minBytesToDetermineLength first ≤ n) :
    expectedLength (u.take n) = expectedLength u := by
  obtain ⟨rest, rfl⟩ := List.head?_eq_some_iff.1 hf
  have hpos := headerOctets_pos first
  obtain ⟨m, rfl⟩ : ∃ m, n = m + 1 := ⟨n - 1, by omega⟩
  rw [List.take_succ_cons, expectedLength_cons, expectedLength_cons]
  unfold minBytesToDetermineLength getHeaderOctets at hn
  rcases lol_cases hlol with h | h | h
  · rw [h] at hn ⊢
    obtain ⟨k, rfl⟩ : ∃ k, m = k + 1 := ⟨m - 1, by simp at hn; omega⟩
    cases rest <;> rfl
  · rw [h] at hn ⊢
    have hn : 4 ≤ m + 1 := hn
    show toU16 ((first :: rest.take m).drop 2) = toU16 ((first :: rest).drop 2)
    rw [← List.take_succ_cons, List.drop_take]
    exact toU16_take (by omega)
  · rw [h] at hn ⊢
    have hn : 8 ≤ m + 1 := hn
    show toU32 ((first :: rest.take m).drop 4) = toU32 ((first :: rest).drop 4)
    rw [← List.take_succ_cons, List.drop_take]
    exact toU32_take (by omega)

/-- Octets that hold a header hold a length. -/
theorem expectedLength_ok {u : Bytes} {first : Octet} (hf : u.head? = some first)
    (hlol : first.toNat % 4 ≠ 0) (hn : minBytesToDetermineLength first ≤ u.length) :
    ∃ e, expectedLength u = .ok e := by
  obtain ⟨rest, rfl⟩ := List.head?_eq_some_iff.1 hf
  unfold minBytesToDetermineLength getHeaderOctets at hn
  rw [expectedLength_cons]
  rcases lol_cases hlol with h | h | h
  · rw [h] at hn ⊢
    rcases rest with - | ⟨b, t⟩
    · simp at hn
    · exact ⟨_, rfl⟩
  · rw [h] at hn ⊢
    rcases rest with - | ⟨b, - | ⟨c, - | ⟨d, t⟩⟩⟩
    all_goals first | (simp at hn; done) | exact ⟨_, rfl⟩
  · rw [h] at hn ⊢
    rcases rest with - | ⟨b, - | ⟨c, - | ⟨d, - | ⟨e, - | ⟨x, - | ⟨y, - | ⟨z, t⟩⟩⟩⟩⟩⟩⟩
    all_goals first | (simp at hn; done) | exact ⟨_, rfl⟩

/-- Octets that hold a length hold a header, and its length of length is not zero. -/
theorem header_of_expectedLength {first : Octet} {rest : Bytes} {e : ℕ}
    (h : expectedLength (first :: rest) = .ok e) : first.toNat % 4 ≠ 0 ∧
      minBytesToDetermineLength first ≤ (first :: rest).length := by
  have hlol : first.toNat % 4 ≠ 0 := fun h0 => expectedLength_zero h0 rest e h
  refine ⟨hlol, ?_⟩
  rw [expectedLength_cons] at h
  unfold minBytesToDetermineLength getHeaderOctets
  rcases lol_cases hlol with h' | h' | h'
  · rw [h'] at h ⊢
    rcases rest with - | ⟨b, t⟩
    · cases h
    · simp
  · rw [h'] at h ⊢
    have := (toU16_bounds h).2
    rw [List.length_drop] at this
    show 4 ≤ _
    omega
  · rw [h'] at h ⊢
    have := (toU32_bounds h).2
    rw [List.length_drop] at this
    show 8 ≤ _
    omega

theorem expectedLength_lt {u : Bytes} {e : ℕ} (h : expectedLength u = .ok e) : e < 2 ^ 32 := by
  obtain ⟨first, h₁, h⟩ := Framing.bind_ok h
  split at h
  · cases h
  · obtain ⟨b, -, h⟩ := Framing.bind_ok h
    have hb := b.toNat_lt
    have := Except.ok.inj h
    omega
  · exact (toU16_bounds h).1.trans (by omega)
  · exact (toU32_bounds h).1

/-! ## The start of a packet, whatever its octets -/

/-- The octets that are taken for a packet that declares the length `e` in a header of `m`
octets: where the packet is shorter than its header the difference of the two wraps. -/
def taken (m e : ℕ) : ℕ := m + (e + 2 ^ 64 - m) % 2 ^ 64

theorem taken_eq {m e : ℕ} (hm : m ≤ e) (he : e < 2 ^ 32) : taken m e = e := by
  have h : (e + 2 ^ 64 - m) % 2 ^ 64 = e - m := by
    rw [show e + 2 ^ 64 - m = (e - m) + 2 ^ 64 by omega, Nat.add_mod_right]
    exact Nat.mod_eq_of_lt (by omega)
  unfold taken
  omega

theorem le_taken (m e : ℕ) : m ≤ taken m e := by
  unfold taken
  omega

/-- The head and what is appended to it are the octets taken, as far as they go. -/
theorem append_taken (rest : Bytes) {m x : ℕ} :
    (⟨rest.take m, []⟩ : Chain).append
      ((rest.drop m).take (if x ≥ rest.length - m then rest.length - m else x)) =
      ⟨rest.take (m + x), []⟩ := by
  rw [Chain.append, List.take_add]
  congr 2
  split
  · rw [← List.length_drop, List.take_length, List.take_of_length_le]
    rw [List.length_drop]
    assumption
  · rfl

/-- **What is made of the octets taken**: fewer than four of them are a fault; else they are a
packet when they go as far as it declares. -/
theorem hasAllParts_taken {first : Octet} {rest : Bytes} {e k : ℕ}
    (he : expectedLength (first :: rest) = .ok e)
    (hk : taken (minBytesToDetermineLength first) e = k) :
    (⟨(first :: rest).take k, []⟩ : Chain).hasAllParts expectedLength =
      if min k (first :: rest).length < 4 then
        .error (.logicError "hasAllParts(): Not enough data in head to determine expected size.")
      else .ok (decide (minBytesToDetermineLength first ≤ e ∧ e ≤ (first :: rest).length)) := by
  obtain ⟨hlol, hlen⟩ := header_of_expectedLength he
  have hcases : (minBytesToDetermineLength first ≤ e ∧ k = e) ∨
      (e < minBytesToDetermineLength first ∧ e < k) := by
    rw [← hk]
    rcases Nat.lt_or_ge e (minBytesToDetermineLength first) with h | h
    · exact .inr ⟨h, h.trans_le (le_taken _ _)⟩
    · exact .inl ⟨h, taken_eq h (expectedLength_lt he)⟩
  have hm : minBytesToDetermineLength first ≤ k := hk ▸ le_taken _ e
  have hhead : expectedLength ((first :: rest).take k) = .ok e := by
    rw [expectedLength_take rfl hlol hm, he]
  rw [Chain.hasAllParts, List.length_take]
  by_cases hfour : min k (first :: rest).length < 4
  · rw [if_pos hfour, if_pos hfour]
  · rw [if_neg hfour, if_neg hfour, hhead]
    have htotal : (⟨(first :: rest).take k, []⟩ : Chain).totalLength =
        min k (first :: rest).length := by
      simp [Chain.totalLength]
    simp only [bind, Except.bind, pure, Except.pure, htotal]
    apply congrArg Except.ok
    rw [Bool.eq_iff_iff, beq_iff_eq, decide_eq_true_iff]
    omega

end ChannelEmulator.Encap
