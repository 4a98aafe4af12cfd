import ChannelEmulator.Proof.IPv4Header

/-!
# IPv4 fragmentation

A fragment is made of the header of the packet and of octets from the virtual `ptrData` on, which in a
datagram is behind the header of UDP.
-/

namespace ChannelEmulator.IPv4

namespace Packet

variable (p : Packet)

/-- Where the octets of the fragments are copied from. -/
def src : ℕ :=
  match p.kind with
  | .packet => headerLength p.unit
  | .udpDatagram => headerLength p.unit + 8

/-- The octets of the buffer from there on. -/
def source : Bytes := (p.unit ++ p.behind).drop p.src

/-- The length of the IP payload. -/
def dataLength : ℕ := p.unit.length - headerLength p.unit

theorem payload_length : (payload p.unit).length = p.dataLength := by
  rw [payload, List.length_drop, dataLength]

/-- The header of a packet, of twelve octets and more. -/
theorem exists_octets : ∃ h : Header, h.Fits ∧ p.unit = h.octets ∧ 20 ≤ h.words ∧
    h.words = headerLength p.unit ∧ h.words ≤ 12 + h.rest.length := by
  have hge := p.header_ge
  have hle := p.header_le
  obtain ⟨h, hf, hu⟩ := exists_header (u := p.unit) (by omega)
  rw [hu, h.headerLength_octets] at hge hle
  rw [h.octets_length] at hle
  exact ⟨h, hf, hu, hge, by rw [hu, h.headerLength_octets], hle⟩

theorem ptrData_eq : p.ptrData = .ok p.src := by
  obtain ⟨h, -, hu, -, hw, -⟩ := p.exists_octets
  unfold ptrData src
  rw [← hw, hu, h.getHeaderLength_octets]
  cases p.kind <;> rfl

end Packet

/-! ## One fragment -/

/-- The flags of a fragment. -/
def fragmentFlags (flags offset : ℕ) (isLast : Bool) : ℕ :=
  if isLast then (flags ||| (offset / 8)) &&& (0xFFFF - ipMF) else flags ||| ipMF ||| (offset / 8)

namespace Header

variable (h : Header)

/-- The options of a packet: what its header has behind the fields. -/
def options : Bytes := h.rest.take (h.words - 12)

theorem options_length (h12 : 12 ≤ h.words) (hle : h.words ≤ 12 + h.rest.length) :
    h.words = 12 + h.options.length := by
  rw [options, List.length_take]
  omega

/-- The octets of the header of a packet. -/
theorem octets_take (h12 : 12 ≤ h.words) : h.octets.take h.words = (h.carry h.options).octets := by
  obtain ⟨k, hk⟩ := Nat.exists_eq_add_of_le' h12
  rw [options, hk]
  simp [carry, octets, fromU16]

/-- A fragment at an offset, with the header of the packet, before its checksum is set. -/
def part (offset id : ℕ) (isLast : Bool) (data : Bytes) : Header :=
  { h with
    totalLength := h.words + data.length
    ident := id
    flags := fragmentFlags h.flags offset isLast
    rest := h.options ++ data }

/-- A fragment at an offset. -/
def fragment (offset id : ℕ) (isLast : Bool) (data : Bytes) : Header :=
  (h.part offset id isLast data).closed

variable {h}

theorem part_rest_ge (offset id : ℕ) (isLast : Bool) (data : Bytes)
    (hle : h.words ≤ 12 + h.rest.length) :
    h.words ≤ 12 + (h.part offset id isLast data).rest.length := by
  show h.words ≤ 12 + (h.rest.take (h.words - 12) ++ data).length
  rw [List.length_append, List.length_take]
  omega

theorem fragment_length (offset id : ℕ) (isLast : Bool) (data : Bytes) (h12 : 12 ≤ h.words)
    (hle : h.words ≤ 12 + h.rest.length) :
    (h.fragment offset id isLast data).octets.length = h.words + data.length := by
  rw [octets_length]
  show 12 + (h.options ++ data).length = h.words + data.length
  rw [List.length_append, h.options_length h12 hle, Nat.add_assoc]

theorem payload_fragment (offset id : ℕ) (isLast : Bool) (data : Bytes) (h12 : 12 ≤ h.words)
    (hle : h.words ≤ 12 + h.rest.length) :
    payload (h.fragment offset id isLast data).octets = data :=
  payload_octets h.options rfl (h.options_length h12 hle)

end Header

section Make

variable {p : Packet} {h : Header} {offset n id : ℕ} {isLast : Bool}

theorem copyFrom_eq (u old t buffer : Bytes) (src : ℕ) {d m : ℕ} (hd : d = u.length)
    (hold : old.length = m) (hread : m = 0 ∨ src + m ≤ buffer.length) :
    copyFrom (u ++ old ++ t) d buffer src m = .ok (u ++ (buffer.drop src).take m ++ t) := by
  have hlen : ((buffer.drop src).take m).length = m := by
    rw [List.length_take, List.length_drop]
    omega
  have hstore := storeAt_append u old ((buffer.drop src).take m) t (hold.trans hlen.symm)
  rw [storeAt, if_neg (by simp only [List.length_append]; omega)] at hstore
  unfold copyFrom
  rw [if_neg (by simp only [List.length_append]; omega), if_neg (by omega), hd]
  exact hstore

theorem copyFrom_header (hp : p.unit = h.octets) (h20 : 20 ≤ h.words)
    (hlen : h.words ≤ p.unit.length) :
    copyFrom (newUnit (h.words + n)) 0 (p.unit ++ p.behind) 0 h.words =
      .ok (h.carry (h.options ++ newUnit n)).octets := by
  have hcopy := copyFrom_eq [] (newUnit h.words) (newUnit n) (p.unit ++ p.behind) 0 (d := 0) rfl
    (newUnit_length _) (.inr (by rw [List.length_append]; omega))
  have hunit : newUnit (h.words + n) = [] ++ newUnit h.words ++ newUnit n := by
    simp [newUnit]
  rw [hunit, hcopy, List.drop_zero, List.take_append_of_le_length hlen, hp, h.octets_take (by omega),
    List.nil_append, h.carry_append]

/-- **A fragment within sixteen bits**, of octets that the buffer has. -/
theorem makeOneFragment_ok (hp : p.unit = h.octets) (hf : h.Fits) (h20 : 20 ≤ h.words)
    (hle : h.words ≤ 12 + h.rest.length) (hsum : h.words + n < 2 ^ 16)
    (hread : n = 0 ∨ offset + n ≤ p.source.length) :
    makeOneFragment p offset n id isLast =
      .ok (h.fragment offset id isLast ((p.source.drop offset).take n)).octets := by
  have hlen : h.words ≤ p.unit.length := by
    rw [hp, h.octets_length]
    exact hle
  have hdata : ((p.source.drop offset).take n).length = n := by
    rw [List.length_take, List.length_drop]
    omega
  -- the octets of the header, then the data behind them
  have hfirst := copyFrom_header (n := n) hp h20 hlen
  have hsecond : copyFrom (h.carry (h.options ++ newUnit n)).octets h.words (p.unit ++ p.behind)
      (p.src + offset) n = .ok (h.carry (h.options ++ (p.source.drop offset).take n)).octets := by
    have hwords := Header.carry_octets_length (h.options_length (by omega) hle)
    have hwithin : n = 0 ∨ p.src + offset + n ≤ (p.unit ++ p.behind).length := by
      rw [Packet.source, List.length_drop] at hread
      omega
    have hcopy := copyFrom_eq (h.carry h.options).octets (newUnit n) [] (p.unit ++ p.behind)
      (p.src + offset) hwords.symm (newUnit_length n) hwithin
    rw [List.append_nil, List.append_nil, h.carry_append, h.carry_append, ← List.drop_drop] at hcopy
    exact hcopy
  unfold makeOneFragment
  rw [hp, h.getHeaderLength_octets]
  simp only [bind, Except.bind, Nat.mod_eq_of_lt hsum, p.ptrData_eq, h.getFlags_octets hf.flags_lt]
  rw [← hp, hfirst]
  simp only [Header.getHeaderLength_octets]
  rw [show (h.carry (h.options ++ newUnit n)).words = h.words from rfl, hsecond]
  simp only [Header.setIdent_octets, Header.setFlags_octets, Header.setTotalLength_octets]
  -- the checksum is the last field that is set
  have hclose := (h.part offset id isLast ((p.source.drop offset).take n)).close_octets
    (show 12 ≤ h.words by omega) (Header.part_rest_ge _ _ _ _ hle)
  rw [Header.fragment, ← hclose, Header.part, hdata]
  rfl

/-- Behind the buffer there is nothing to copy. -/
theorem makeOneFragment_outside (hp : p.unit = h.octets) (h20 : 20 ≤ h.words)
    (hle : h.words ≤ 12 + h.rest.length) (hsum : h.words + n < 2 ^ 16) (hn : n ≠ 0)
    (hread : p.source.length < offset + n) :
    makeOneFragment p offset n id isLast = .error .outOfBounds := by
  have hlen : h.words ≤ p.unit.length := by
    rw [hp, h.octets_length]
    exact hle
  have hbuffer : (p.unit ++ p.behind).length < p.src + offset + n := by
    rw [Packet.source, List.length_drop] at hread
    omega
  unfold makeOneFragment
  rw [hp, h.getHeaderLength_octets]
  simp only [bind, Except.bind, Nat.mod_eq_of_lt hsum, p.ptrData_eq]
  rw [← hp, copyFrom_header hp h20 hlen]
  simp only [Header.getHeaderLength_octets]
  unfold copyFrom
  have hroom : (h.carry (h.options ++ newUnit n)).octets.length =
      (h.carry (h.options ++ newUnit n)).words + n := by
    show _ = h.words + n
    rw [← h.carry_append, List.length_append, newUnit_length,
      Header.carry_octets_length (h.options_length (by omega) hle)]
  rw [hroom, if_neg (lt_irrefl _), if_pos ⟨hn, hbuffer⟩]

/-- A total length that does not fit sixteen bits has no room for the header. -/
theorem makeOneFragment_long (offset id : ℕ) (isLast : Bool) (hp : p.unit = h.octets)
    (h20 : 20 ≤ h.words) (hn : n < 2 ^ 16) (hsum : 2 ^ 16 ≤ h.words + n) : ∃ msg,
    makeOneFragment p offset n id isLast = .error (.bufferOverflow msg) := by
  have h60 := h.words_le
  have hshort : (h.words + n) % 2 ^ 16 < h.words := by
    rw [Nat.mod_eq_sub_mod hsum, Nat.mod_eq_of_lt (by omega)]
    omega
  refine ⟨"Data copy failed, supplied buffer length exceeds available capacity in unit.", ?_⟩
  unfold makeOneFragment
  rw [hp, h.getHeaderLength_octets]
  simp only [bind, Except.bind]
  rw [copyFrom, if_pos (by rw [newUnit_length, Nat.zero_add]; exact hshort)]

end Make

/-! ## The loop -/

section Loop

variable {p : Packet} {h : Header} {m id : ℕ}

/-- A fragment other than the last, of `m` octets of data. -/
def whole (p : Packet) (h : Header) (m id idx : ℕ) : Bytes :=
  (h.fragment idx id false ((p.source.drop idx).take m)).octets

theorem payload_whole (h20 : 20 ≤ h.words) (hle : h.words ≤ 12 + h.rest.length) :
    payload ∘ whole p h m id = fun idx => (p.source.drop idx).take m := by
  funext idx
  exact Header.payload_fragment _ _ _ _ (by omega) hle

theorem take_windows (src : Bytes) (m n idx : ℕ) :
    ((List.range' idx n m).map fun i => (src.drop i).take m).flatten = (src.drop idx).take (n * m) := by
  induction n generalizing idx with
  | zero => simp
  | succ n ih =>
    rw [List.range'_succ, List.map_cons, List.flatten_cons, ih, Nat.succ_mul, Nat.add_comm (n * m) m,
      List.take_add, List.drop_drop]

theorem fragmentPass_ok (id s : ℕ) {idx : ℕ} (hp : p.unit = h.octets) (hf : h.Fits)
    (h20 : 20 ≤ h.words) (hle : h.words ≤ 12 + h.rest.length) (hsum : h.words + m < 2 ^ 16)
    (hread : m = 0 ∨ idx + m ≤ p.source.length) :
    fragmentPass p m id s idx =
      .ok ((idx + m) % 2 ^ 16, [whole p h m id idx], some ((idx + m) % 2 ^ 16)) := by
  unfold fragmentPass
  rw [makeOneFragment_ok hp hf h20 hle hsum hread]
  rfl

/-- **The turns of the loop**, where their indices fit sixteen bits and the buffer has the octets. -/
theorem loop_whole (hp : p.unit = h.octets) (hf : h.Fits) (h20 : 20 ≤ h.words)
    (hle : h.words ≤ 12 + h.rest.length) {len : ℕ} (hsum : 0 < len → h.words + m < 2 ^ 16)
    (hsource : 0 < len → len + m ≤ p.source.length) (n k : ℕ) {idx : ℕ} (hidx : idx + n * m < 2 ^ 16)
    (htaken : n = 0 ∨ idx + (n - 1) * m < len) (hend : len ≤ idx + n * m) :
    Framing.Loop.loop (fragmentPass p m id) len .diverges (n + k) idx idx =
      .ok (idx + n * m, (List.range' idx n m).map (whole p h m id)) := by
  induction n generalizing idx with
  | zero =>
    rw [Nat.zero_mul, Nat.add_zero] at hend ⊢
    rw [Framing.Loop.loop_done (by omega)]
    rfl
  | succ n ih =>
    have hmul : (n + 1) * m = m + n * m := by rw [Nat.succ_mul, Nat.add_comm]
    rw [hmul] at hidx hend
    rw [Nat.add_sub_cancel] at htaken
    have hlt : idx < len := by
      rcases htaken with h0 | hlt
      · omega
      · exact lt_of_le_of_lt (Nat.le_add_right _ _) hlt
    have hrest : n = 0 ∨ idx + m + (n - 1) * m < len := by
      cases n with
      | zero => exact .inl rfl
      | succ n =>
        right
        rw [Nat.succ_mul] at htaken
        rw [Nat.add_sub_cancel]
        omega
    have hnext := ih (by omega) hrest (by omega)
    rw [show n + 1 + k = n + k + 1 by omega, Framing.Loop.loop, if_pos hlt,
      fragmentPass_ok id idx hp hf h20 hle (hsum (by omega)) (.inr (by have := hsource (by omega); omega)),
      Nat.mod_eq_of_lt (show idx + m < 2 ^ 16 by omega)]
    simp only [bind, Except.bind]
    rw [hnext, hmul, List.range'_succ]
    simp only [pure, Except.pure, List.map_cons, List.singleton_append, Nat.add_assoc]

/-- **What the loop makes**: it fails for want of octets or of turns, or its fragments have the octets
from the first index on, unless an index has exceeded sixteen bits. -/
theorem loop_made (id fuel idx : ℕ) {dataLen : ℕ} (hp : p.unit = h.octets) (hf : h.Fits)
    (h20 : 20 ≤ h.words) (hle : h.words ≤ 12 + h.rest.length)
    (hsum : m < dataLen → h.words + m < 2 ^ 16) (hidx : idx < 2 ^ 16) (hdata : idx ≤ dataLen) :
    (∃ e, Framing.Loop.loop (fragmentPass p m id) (dataLen - m) .diverges fuel idx idx = .error e ∧
      e.isThrown = false) ∨
    ∃ q frags n w,
      Framing.Loop.loop (fragmentPass p m id) (dataLen - m) .diverges fuel idx idx = .ok (q, frags) ∧
      idx + n * m = q + 2 ^ 16 * w ∧ q < 2 ^ 16 ∧ q ≤ dataLen ∧ dataLen ≤ q + m ∧
      (frags.map payload).flatten.length = n * m ∧
      (w = 0 → (frags.map payload).flatten = (p.source.drop idx).take (n * m)) := by
  have hdone : ∀ {idx : ℕ}, idx < 2 ^ 16 → idx ≤ dataLen → ¬idx < dataLen - m → ∃ n w,
      idx + n * m = idx + 2 ^ 16 * w ∧ idx < 2 ^ 16 ∧ idx ≤ dataLen ∧ dataLen ≤ idx + m ∧
      (([] : List Bytes).map payload).flatten.length = n * m ∧
      (w = 0 → (([] : List Bytes).map payload).flatten = (p.source.drop idx).take (n * m)) := by
    intro idx hidx hdata hlt
    exact ⟨0, 0, by simp, hidx, hdata, by omega, by simp, by simp⟩
  induction fuel generalizing idx with
  | zero =>
    by_cases hlt : idx < dataLen - m
    · exact .inl ⟨.diverges, by rw [Framing.Loop.loop, if_pos hlt], rfl⟩
    · obtain ⟨n, w, hw⟩ := hdone hidx hdata hlt
      exact .inr ⟨idx, [], n, w, Framing.Loop.loop_done hlt _ _, hw⟩
  | succ fuel ih =>
    by_cases hlt : idx < dataLen - m
    · have hsum := hsum (by omega)
      rw [Framing.Loop.loop, if_pos hlt]
      by_cases hread : m = 0 ∨ idx + m ≤ p.source.length
      · rw [fragmentPass_ok id idx hp hf h20 hle hsum hread]
        have hnext : (idx + m) % 2 ^ 16 ≤ dataLen := le_trans (Nat.mod_le _ _) (by omega)
        have hpay : payload (whole p h m id idx) = (p.source.drop idx).take m :=
          congrFun (payload_whole h20 hle) idx
        have hlen : ((p.source.drop idx).take m).length = m := by
          rw [List.length_take, List.length_drop]
          omega
        simp only [bind, Except.bind]
        rcases ih _ (Nat.mod_lt _ (by decide)) hnext with ⟨e, he, hthrown⟩ |
          ⟨q, frags, n, w, hloop, hq, hq16, hqd, hdq, hlength, hmade⟩
        · exact .inl ⟨e, by rw [he], hthrown⟩
        · right
          have hmul : (n + 1) * m = m + n * m := by rw [Nat.succ_mul, Nat.add_comm]
          have hdiv := Nat.div_add_mod (idx + m) (2 ^ 16)
          refine ⟨q, whole p h m id idx :: frags, n + 1, w + (idx + m) / 2 ^ 16, by rw [hloop]; rfl, ?_,
            hq16, hqd, hdq, ?_, ?_⟩
          · rw [hmul]
            omega
          · rw [List.map_cons, List.flatten_cons, List.length_append, hpay, hlen, hlength, hmul]
          · -- no index exceeds sixteen bits in the turns behind this one, nor in this one
            intro hw
            have hsmall : (idx + m) % 2 ^ 16 = idx + m := by omega
            rw [List.map_cons, List.flatten_cons, hpay, hmade (by omega), hsmall, hmul, List.take_add,
              List.drop_drop]
      · left
        refine ⟨.outOfBounds, ?_, rfl⟩
        unfold fragmentPass
        rw [makeOneFragment_outside hp h20 hle hsum (by omega) (by omega)]
        rfl
    · obtain ⟨n, w, hw⟩ := hdone hidx hdata hlt
      exact .inr ⟨idx, [], n, w, Framing.Loop.loop_done hlt _ _, hw⟩

end Loop

/-! ## What the fragments carry -/

/-- `fragment` throws, or it comes to an end with fragments that have the IP payload. -/
def Carries (p : Packet) (maxLen id : ℕ) : Prop :=
  ∃ fuel, (∃ e, fragment fuel p maxLen id = .error e ∧ e.isThrown = true) ∨
    ∃ frags, fragment fuel p maxLen id = .ok frags ∧ (frags.map payload).flatten = payload p.unit

theorem getDataLength_unit (p : Packet) : getDataLength p.unit = .ok p.dataLength := by
  have hle := p.header_le
  have hlt := p.length_lt
  obtain ⟨h, -, hu, -, hw, -⟩ := p.exists_octets
  unfold getDataLength
  rw [hu, h.getHeaderLength_octets, ← hu, hw]
  simp only [bind, Except.bind, pure, Except.pure]
  rw [Nat.sub_add_comm hle, Nat.add_mod_right, Nat.mod_eq_of_lt (lt_of_le_of_lt (Nat.sub_le _ _) hlt)]
  rfl

theorem fragment_eq (fuel : ℕ) (p : Packet) (maxLen id : ℕ) {m : ℕ}
    (hm : m = maxData (headerLength p.unit) maxLen) :
    fragment fuel p maxLen id =
      (Framing.Loop.loop (fragmentPass p m id) (p.dataLength - m) .diverges fuel 0 0).bind fun r =>
        (makeOneFragment p r.1 ((p.dataLength - r.1) % 2 ^ 16) id true).bind fun last =>
          .ok (r.2 ++ [last]) := by
  obtain ⟨h, -, hu, -, hw, -⟩ := p.exists_octets
  have hlen : getHeaderLength p.unit = .ok (headerLength p.unit) := by
    rw [← hw, hu, h.getHeaderLength_octets]
  unfold fragment
  rw [hlen, getDataLength_unit, hm]
  rfl

section Carries

variable {p : Packet} {h : Header} {maxLen id m : ℕ}

/-- The last fragment. -/
def rest (p : Packet) (h : Header) (q id : ℕ) : Bytes :=
  (h.fragment q id true ((p.source.drop q).take (p.dataLength - q))).octets

theorem payload_rest (h20 : 20 ≤ h.words) (hle : h.words ≤ 12 + h.rest.length) (q : ℕ) :
    payload (rest p h q id) = (p.source.drop q).take (p.dataLength - q) :=
  Header.payload_fragment _ _ _ _ (by omega) hle

theorem makeOneFragment_rest (hp : p.unit = h.octets) (hf : h.Fits) (h20 : 20 ≤ h.words)
    (hle : h.words ≤ 12 + h.rest.length) (hm16 : m < 2 ^ 16)
    (hsum : h.words + min m p.dataLength < 2 ^ 16) {q : ℕ} (hq : q ≤ p.dataLength)
    (hqm : p.dataLength ≤ q + m)
    (hread : p.dataLength - q = 0 ∨ q + (p.dataLength - q) ≤ p.source.length) :
    makeOneFragment p q ((p.dataLength - q) % 2 ^ 16) id true = .ok (rest p h q id) := by
  rw [Nat.mod_eq_of_lt (by omega)]
  exact makeOneFragment_ok hp hf h20 hle (by omega) hread

/-- **The fragments**, where their offsets fit sixteen bits and the buffer has the octets. -/
theorem fragment_ok (id : ℕ) (hp : p.unit = h.octets) (hf : h.Fits) (h20 : 20 ≤ h.words)
    (hle : h.words ≤ 12 + h.rest.length) (hm : m = maxData (headerLength p.unit) maxLen)
    (hm16 : m < 2 ^ 16) (hroom : m = 0 → p.dataLength = 0)
    (hsum : h.words + min m p.dataLength < 2 ^ 16) (hsource : p.dataLength ≤ p.source.length) {n : ℕ}
    (hn : n = (p.dataLength - 1) / m) (h16 : n * m < 2 ^ 16) (k : ℕ) :
    n * m ≤ p.dataLength ∧ p.dataLength ≤ n * m + m ∧ fragment (n + k) p maxLen id =
      .ok ((List.range' 0 n m).map (whole p h m id) ++ [rest p h (n * m) id]) := by
  have hnm : n * m ≤ p.dataLength - 1 := hn ▸ Nat.div_mul_le_self _ _
  have hlast : p.dataLength ≤ n * m + m := by
    rcases Nat.eq_zero_or_pos m with h0 | hpos
    · rw [hroom h0]
      exact Nat.zero_le _
    · have hlt := Nat.lt_mul_div_succ (p.dataLength - 1) hpos
      rw [← hn, Nat.mul_succ, Nat.mul_comm] at hlt
      omega
  have htaken : n = 0 ∨ 0 + (n - 1) * m < p.dataLength - m := by
    cases n with
    | zero => exact .inl rfl
    | succ n =>
      right
      rw [Nat.succ_mul] at hnm
      rw [Nat.add_sub_cancel]
      rcases Nat.eq_zero_or_pos m with h0 | hpos
      · rw [h0, Nat.div_zero] at hn
        omega
      · omega
  have hloop : Framing.Loop.loop (fragmentPass p m id) (p.dataLength - m) .diverges (n + k) 0 0 =
      .ok (0 + n * m, (List.range' 0 n m).map (whole p h m id)) :=
    loop_whole hp hf h20 hle (by omega) (by omega) n k (by omega) htaken (by omega)
  refine ⟨by omega, hlast, ?_⟩
  rw [fragment_eq (n + k) p maxLen id hm, hloop, Nat.zero_add]
  simp only [Except.bind]
  rw [makeOneFragment_rest hp hf h20 hle hm16 hsum (by omega) hlast (by omega)]

/-- **The fragments have the octets of the source** between them. -/
theorem payloads_eq (h20 : 20 ≤ h.words) (hle : h.words ≤ 12 + h.rest.length) {n : ℕ}
    (hn : n * m ≤ p.dataLength) :
    (((List.range' 0 n m).map (whole p h m id) ++ [rest p h (n * m) id]).map payload).flatten =
      p.source.take p.dataLength := by
  rw [List.map_append, List.flatten_append, List.map_map, payload_whole h20 hle, take_windows,
    List.map_singleton, List.flatten_singleton, payload_rest h20 hle, List.drop_zero, ← List.take_add,
    Nat.add_sub_cancel' hn]

/-- A fragment that would be longer than sixteen bits can say throws. -/
theorem carries_long (hp : p.unit = h.octets) (h20 : 20 ≤ h.words)
    (hm : m = maxData (headerLength p.unit) maxLen) (hm16 : m < 2 ^ 16)
    (hlong : 2 ^ 16 ≤ h.words + min m p.dataLength) : Carries p maxLen id := by
  by_cases hlt : m < p.dataLength
  · -- the first turn of the loop throws
    obtain ⟨msg, hmsg⟩ := makeOneFragment_long 0 id false hp h20 hm16 (by omega)
    refine ⟨1, .inl ⟨.bufferOverflow msg, ?_, rfl⟩⟩
    rw [fragment_eq 1 p maxLen id hm, Framing.Loop.loop, if_pos (by omega)]
    unfold fragmentPass
    rw [hmsg]
    rfl
  · obtain ⟨msg, hmsg⟩ := makeOneFragment_long (n := p.dataLength) 0 id true hp h20 (by omega)
      (by omega)
    refine ⟨0, .inl ⟨.bufferOverflow msg, ?_, rfl⟩⟩
    rw [fragment_eq 0 p maxLen id hm, Framing.Loop.loop_done (by omega)]
    simp only [Except.bind]
    rw [Nat.sub_zero, Nat.mod_eq_of_lt (by omega), hmsg]

/-- Without room for eight octets, the loop never gets further. -/
theorem not_carries_stuck (hp : p.unit = h.octets) (hf : h.Fits) (h20 : 20 ≤ h.words)
    (hle : h.words ≤ 12 + h.rest.length) (hm : 0 = maxData (headerLength p.unit) maxLen)
    (hpos : 0 < p.dataLength) : ¬Carries p maxLen id := by
  have h60 := h.words_le
  have hpass : fragmentPass p 0 id 0 0 = .ok (0, [whole p h 0 id 0], some 0) :=
    fragmentPass_ok id 0 hp hf h20 hle (by omega) (.inl rfl)
  rintro ⟨fuel, hfuel⟩
  rw [fragment_eq fuel p maxLen id hm, Framing.Loop.loop_of_same (by omega) hpass] at hfuel
  rcases hfuel with ⟨e, he, hthrown⟩ | ⟨frags, hfrags, -⟩
  · obtain rfl := Except.error.inj he
    exact absurd hthrown (by decide)
  · cases hfrags

theorem carries_within (hp : p.unit = h.octets) (hf : h.Fits) (h20 : 20 ≤ h.words)
    (hle : h.words ≤ 12 + h.rest.length) (hm : m = maxData (headerLength p.unit) maxLen)
    (hm16 : m < 2 ^ 16) (hroom : m = 0 → p.dataLength = 0)
    (hsum : h.words + min m p.dataLength < 2 ^ 16) :
    Carries p maxLen id ↔
      (p.dataLength - 1) / m * m < 2 ^ 16 ∧ p.source.take p.dataLength = payload p.unit := by
  constructor
  · rintro ⟨fuel, hfuel⟩
    rw [fragment_eq fuel p maxLen id hm] at hfuel
    have hsum' : m < p.dataLength → h.words + m < 2 ^ 16 := by omega
    rcases loop_made id fuel 0 hp hf h20 hle hsum' (by decide) (Nat.zero_le _) with ⟨e, he, hthrown⟩ |
      ⟨q, frags, n, w, hloop, hq, hq16, hqd, hdq, hlength, hmade⟩
    · rw [he] at hfuel
      rcases hfuel with ⟨e', he', hthrown'⟩ | ⟨frags, hfrags, -⟩
      · obtain rfl := Except.error.inj he'
        rw [hthrown] at hthrown'
        cases hthrown'
      · cases hfrags
    · rw [hloop] at hfuel
      simp only [Except.bind] at hfuel
      by_cases hread : p.dataLength - q = 0 ∨ q + (p.dataLength - q) ≤ p.source.length
      · rw [makeOneFragment_rest hp hf h20 hle hm16 hsum hqd hdq hread] at hfuel
        rcases hfuel with ⟨e, he, -⟩ | ⟨all, hall, hcarried⟩
        · cases he
        · obtain rfl := Except.ok.inj hall
          rw [List.map_append, List.flatten_append, List.map_singleton, List.flatten_singleton,
            payload_rest h20 hle] at hcarried
          -- the lengths tell that no index has exceeded sixteen bits
          have hlen := congrArg List.length hcarried
          rw [List.length_append, hlength, List.length_take, List.length_drop, p.payload_length] at hlen
          have hw : w = 0 := by omega
          have hqn : n * m = q := by omega
          rw [hmade hw, List.drop_zero, hqn, ← List.take_add, Nat.add_sub_cancel' hqd] at hcarried
          refine ⟨?_, hcarried⟩
          have hdiv : (p.dataLength - 1) / m ≤ n := by
            rcases Nat.eq_zero_or_pos m with h0 | hpos
            · rw [h0, Nat.div_zero]
              exact Nat.zero_le n
            · refine Nat.le_of_lt_succ ((Nat.div_lt_iff_lt_mul hpos).2 ?_)
              rw [Nat.succ_mul]
              omega
          exact lt_of_le_of_lt (Nat.mul_le_mul_right m hdiv) (hqn ▸ hq16)
      · rw [makeOneFragment_outside hp h20 hle (by omega) (by omega) (by omega)] at hfuel
        rcases hfuel with ⟨e, he, hthrown⟩ | ⟨all, hall, -⟩
        · obtain rfl := Except.error.inj he
          exact absurd hthrown (by decide)
        · cases hall
  · rintro ⟨h16, hsame⟩
    have hlen := congrArg List.length hsame
    rw [List.length_take, p.payload_length] at hlen
    obtain ⟨hle', -, hok⟩ := fragment_ok id hp hf h20 hle hm hm16 hroom hsum (by omega) rfl h16 0
    exact ⟨_, .inr ⟨_, hok, (payloads_eq h20 hle hle').trans hsame⟩⟩

end Carries

/-- **The IP payload is carried** just when a fragment is too long to be made, or when there is room
for eight octets, the offsets fit sixteen bits, and the octets from `ptrData` on are the payload. -/
theorem fragment_carries_iff (p : Packet) (maxLen id : ℕ) :
    Carries p maxLen id ↔
      2 ^ 16 ≤ headerLength p.unit + min (maxData (headerLength p.unit) maxLen) p.dataLength ∨
      ((maxData (headerLength p.unit) maxLen = 0 → p.dataLength = 0) ∧
        (p.dataLength - 1) / maxData (headerLength p.unit) maxLen *
          maxData (headerLength p.unit) maxLen < 2 ^ 16 ∧
        p.source.take p.dataLength = payload p.unit) := by
  obtain ⟨h, hf, hu, h20, hw, hle⟩ := p.exists_octets
  have hm16 : maxData (headerLength p.unit) maxLen < 2 ^ 16 := Nat.mod_lt _ (by decide)
  by_cases hlong : 2 ^ 16 ≤ headerLength p.unit +
      min (maxData (headerLength p.unit) maxLen) p.dataLength
  · exact iff_of_true (carries_long hu h20 rfl hm16 (hw ▸ hlong)) (.inl hlong)
  · rw [or_iff_right hlong]
    by_cases hroom : maxData (headerLength p.unit) maxLen = 0 → p.dataLength = 0
    · rw [carries_within hu hf h20 hle rfl hm16 hroom (by omega)]
      exact (and_iff_right hroom).symm
    · obtain ⟨h0, hpos⟩ := Classical.not_imp.1 hroom
      exact iff_of_false (not_carries_stuck hu hf h20 hle h0.symm (by omega)) (fun hc => hroom hc.1)

/-- A datagram of four octets, in a buffer with eight octets to spare. -/
def shortDatagram : Packet where
  kind := .udpDatagram
  unit := [0x45, 0, 0, 32, 0, 0, 0, 0, 64, 17, 0, 0, 10, 0, 0, 1, 10, 0, 0, 2, 0, 53, 0, 53, 0, 12, 0, 0,
    1, 2, 3, 4]
  behind := newUnit 8
  header_ge := by decide
  header_le := by decide
  length_lt := by decide

/-- Its one fragment has the data of the datagram for its UDP header. -/
theorem short_datagram_lost : ¬∀ (p : Packet) (maxLen id : ℕ), maxLen < 2 ^ 16 → Carries p maxLen id := by
  intro hall
  obtain ⟨h, hf, hu, h20, hw, hle⟩ := shortDatagram.exists_octets
  have hwords : headerLength shortDatagram.unit = 20 := by decide
  have hmost : maxData (headerLength shortDatagram.unit) 1500 = 1480 := by decide
  have hlen : shortDatagram.dataLength = 12 := by decide
  have hcarries := (carries_within hu hf h20 hle hmost.symm (by decide) (by decide)
    (by rw [hw, hwords, hlen]; decide)).1 (hall shortDatagram 1500 7 (by decide))
  exact absurd hcarries.2 (by decide)

/-- What `ptrData` of a packet is at is its payload. -/
theorem Packet.source_packet {p : Packet} (hk : p.kind = .packet) :
    p.source.take p.dataLength = payload p.unit := by
  have hsrc : p.src = headerLength p.unit := by
    unfold Packet.src
    rw [hk]
  rw [Packet.source, hsrc, List.drop_append_of_le_length p.header_le, ← p.payload_length, payload,
    List.take_left']
  rfl

end ChannelEmulator.IPv4
