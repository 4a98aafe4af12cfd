import ChannelEmulator.Proof.IPv4Fragments

/-!
# IPv4 reassembly

* `fragment_pieces`: the fragments of a packet follow each other, and all but the last say so.
* `fragment_reversible`: **what is fragmented is put together again** from the last fragment and the
  data of all.
-/

namespace ChannelEmulator.IPv4

/-! ## The flags of a fragment -/

theorem fragmentFlags_lt {f o : ℕ} (hf : f < 2 ^ 16) (ho : o < 2 ^ 16) (isLast : Bool) :
    fragmentFlags f o isLast < 2 ^ 16 := by
  have hdiv : o / 8 < 2 ^ 16 := lt_of_le_of_lt (Nat.div_le_self _ _) ho
  unfold fragmentFlags
  split
  · exact Nat.and_lt_two_pow _ (by decide)
  · exact Nat.or_lt_two_pow (Nat.or_lt_two_pow hf (by decide)) hdiv

/-- A flag that no fragment has is not in an offset. -/
theorem fragmentFlags_offset {f o : ℕ} (hf : f &&& (ipMF ||| ipOffMask) = 0) (ho : o < 2 ^ 16)
    (isLast : Bool) : fragmentFlags f o isLast &&& ipOffMask = o / 8 := by
  rw [Nat.and_or_distrib_left, Nat.or_eq_zero_iff] at hf
  have hdiv : o / 8 &&& ipOffMask = o / 8 := by
    rw [ipOffMask, show (0x1FFF : ℕ) = 2 ^ 13 - 1 from rfl, Nat.and_two_pow_sub_one_eq_mod]
    exact Nat.mod_eq_of_lt (by omega)
  unfold fragmentFlags
  split
  · rw [Nat.and_assoc, show (0xFFFF - ipMF) &&& ipOffMask = ipOffMask by decide,
      Nat.and_or_distrib_right, hf.2, hdiv, Nat.zero_or]
  · rw [Nat.and_or_distrib_right, Nat.and_or_distrib_right, hf.2, hdiv,
      show ipMF &&& ipOffMask = 0 by decide, Nat.zero_or, Nat.zero_or]

theorem fragmentFlags_more (f o : ℕ) (isLast : Bool) :
    fragmentFlags f o isLast &&& ipMF ≠ 0 ↔ isLast = false := by
  unfold fragmentFlags
  cases isLast with
  | true =>
    rw [if_pos rfl, Nat.and_assoc, show (0xFFFF - ipMF) &&& ipMF = 0 by decide, Nat.and_zero]
    decide
  | false =>
    rw [if_neg (by decide), Nat.and_or_distrib_right, Nat.and_or_distrib_right, ne_eq,
      Nat.or_eq_zero_iff, Nat.or_eq_zero_iff, Nat.and_self]
    refine iff_of_true (fun h0 => absurd h0.1.2 (by decide)) rfl

/-! ## One fragment of a series -/

/-- A fragment in its place: not too long, valid, at the offset where the data of those before it
ends, and with the flag for more just when others follow. -/
structure IsPiece (maxLen : ℕ) (frags : List Bytes) (i : ℕ) (frag : Bytes) : Prop where
  length_le : frag.length ≤ maxLen
  checksum : hasValidChecksum frag = .ok true
  offset : ∃ o, getOffset frag = .ok o ∧ o * 8 = ((frags.take i).map payload).flatten.length
  more : ∃ f, getFlags frag = .ok f ∧ (f &&& ipMF ≠ 0 ↔ i + 1 < frags.length)

namespace Header

variable {h : Header} {id : ℕ}

theorem getFlags_fragment (hf : h.Fits) {o : ℕ} (ho : o < 2 ^ 16) (isLast : Bool) (data : Bytes) :
    getFlags (h.fragment o id isLast data).octets = .ok (fragmentFlags h.flags o isLast) :=
  getFlags_octets _ (fragmentFlags_lt hf.flags_lt ho isLast)

theorem fragment_piece (hf : h.Fits) (h20 : 20 ≤ h.words) (hle : h.words ≤ 12 + h.rest.length)
    (hwhole : h.flags &&& (ipMF ||| ipOffMask) = 0) {maxLen i o : ℕ} {frags : List Bytes}
    {isLast : Bool} {data : Bytes} (ho : o < 2 ^ 16) (h8 : 8 ∣ o) (hlen : h.words + data.length ≤ maxLen)
    (hbefore : ((frags.take i).map payload).flatten.length = o)
    (hmore : isLast = false ↔ i + 1 < frags.length) :
    IsPiece maxLen frags i (h.fragment o id isLast data).octets where
  length_le := by rwa [fragment_length _ _ _ _ (by omega) hle]
  checksum := hasValidChecksum_closed _ (show 12 ≤ h.words by omega) (part_rest_ge _ _ _ _ hle)
  offset := by
    refine ⟨o / 8, ?_, by rw [Nat.div_mul_cancel h8, hbefore]⟩
    unfold getOffset
    rw [getFlags_fragment hf ho, ← fragmentFlags_offset hwhole ho isLast]
    rfl
  more := ⟨_, getFlags_fragment hf ho isLast data, (fragmentFlags_more _ _ _).trans hmore⟩

end Header

/-! ## The series -/

section Series

variable {p : Packet} {h : Header} {maxLen id m : ℕ}

/-- The room for data that a fragment has, rounded down to eight octets. -/
theorem maxData_eq {H : ℕ} (hH : H ≤ maxLen) (hmax : maxLen < 2 ^ 16) :
    maxData H maxLen = (maxLen - H) / 8 * 8 := by
  have hlt : (maxLen - H) / 8 * 8 < 2 ^ 16 :=
    lt_of_le_of_lt (Nat.div_mul_le_self _ _) (lt_of_le_of_lt (Nat.sub_le _ _) hmax)
  have h64 : maxLen - H < 2 ^ 64 := lt_of_le_of_lt (Nat.sub_le _ _) (lt_trans hmax (by decide))
  rw [maxData, Nat.sub_add_comm hH, Nat.add_mod_right, Nat.mod_eq_of_lt h64, Nat.mod_eq_of_lt hlt]

/-- The fragments of a packet. -/
def series (p : Packet) (h : Header) (m n id : ℕ) : List Bytes :=
  (List.range' 0 n m).map (whole p h m id) ++ [rest p h (n * m) id]

theorem series_length (n : ℕ) : (series p h m n id).length = n + 1 := by
  rw [series, List.length_append, List.length_map, List.length_range', List.length_singleton]

theorem series_before (p : Packet) (h : Header) (m id : ℕ) (h20 : 20 ≤ h.words)
    (hle : h.words ≤ 12 + h.rest.length) {n i : ℕ} (hi : i ≤ n) (hsource : i * m ≤ p.source.length) :
    (((series p h m n id).take i).map payload).flatten.length = i * m := by
  rw [series, List.take_append_of_le_length (by rwa [List.length_map, List.length_range']),
    ← List.map_take, List.take_range'_of_length_ge hi, List.map_map, payload_whole h20 hle, take_windows,
    List.length_take, List.drop_zero]
  exact Nat.min_eq_left hsource

/-- **The fragments in their places.** -/
theorem series_piece (hf : h.Fits) (h20 : 20 ≤ h.words) (hle : h.words ≤ 12 + h.rest.length)
    (hwhole : h.flags &&& (ipMF ||| ipOffMask) = 0) (h8 : 8 ∣ m) (hroom : h.words + m ≤ maxLen) {n : ℕ}
    (hn : n * m ≤ p.dataLength) (hlast : p.dataLength ≤ n * m + m) (h16 : n * m < 2 ^ 16)
    (hsource : p.dataLength ≤ p.source.length) {i : ℕ} (hi : i < (series p h m n id).length) :
    IsPiece maxLen (series p h m n id) i (series p h m n id)[i] := by
  rw [series_length] at hi
  have him : i * m ≤ n * m := Nat.mul_le_mul_right m (by omega)
  have hbefore := series_before p h m id h20 hle (show i ≤ n by omega) (by omega)
  have hdvd : 8 ∣ i * m := h8.mul_left i
  rcases Nat.lt_or_ge i n with hlt | hge
  · have hget : (series p h m n id)[i] = whole p h m id (i * m) := by
      simp only [series]
      rw [List.getElem_append_left (by rwa [List.length_map, List.length_range']), List.getElem_map,
        List.getElem_range', Nat.zero_add, Nat.mul_comm]
    rw [hget]
    refine Header.fragment_piece hf h20 hle hwhole (by omega) hdvd ?_ hbefore ?_
    · rw [List.length_take]
      omega
    · rw [series_length]
      exact iff_of_true rfl (by omega)
  · obtain rfl : i = n := by omega
    have hget : (series p h m i id)[i] = rest p h (i * m) id := by
      simp only [series]
      rw [List.getElem_append_right (by rw [List.length_map, List.length_range'])]
      simp
    rw [hget]
    refine Header.fragment_piece hf h20 hle hwhole (by omega) hdvd ?_ hbefore ?_
    · rw [List.length_take]
      omega
    · rw [series_length]
      exact iff_of_false (by decide) (by omega)

end Series

/-! ## Reassembly -/

namespace Header

variable {h : Header} {id : ℕ}

/-- **A last fragment with the data of all** is a whole packet again. -/
theorem defragment_fragment (id : ℕ) (data buffer : Bytes) (hf : h.Fits) (h20 : 20 ≤ h.words)
    (hle : h.words ≤ 12 + h.rest.length) (hwhole : h.flags &&& (ipMF ||| ipOffMask) = 0) {o : ℕ}
    (ho : o < 2 ^ 16) (h8 : 8 ∣ o) (hlen : buffer.length = o + data.length) (hsum : h.words + buffer.length < 2 ^ 16) :
    ∃ u, defragment (h.fragment o id true data).octets buffer = .ok u ∧ payload u = buffer ∧
      getTotalLength u = .ok (h.words + buffer.length) ∧ hasValidChecksum u = .ok true := by
  have hopts : h.words = 12 + h.options.length := h.options_length (by omega) hle
  -- the packet, as it is before its checksum is stored
  obtain ⟨k, hk⟩ : ∃ k : Header, k = { h.fragment o id true data with
    totalLength := h.words + buffer.length
    ident := 0
    flags := fragmentFlags h.flags o true &&& (0xFFFF - (ipOffMask ||| ipMF))
    rest := h.options ++ buffer } := ⟨_, rfl⟩
  have hkw : k.words = h.words := by rw [hk]; rfl
  have hkr : k.rest = h.options ++ buffer := by rw [hk]
  have hkl : k.words ≤ 12 + k.rest.length := by
    rw [hkw, hkr, List.length_append]
    omega
  refine ⟨k.closed.octets, ?_, Header.payload_octets h.options hkr (by rw [← hopts]; exact hkw),
    ?_, k.hasValidChecksum_closed (by omega) hkl⟩
  · have hoffset : getOffset (h.fragment o id true data).octets = .ok (o / 8) := by
      unfold getOffset
      rw [getFlags_fragment hf ho, ← fragmentFlags_offset hwhole ho true]
      rfl
    have hlength : getDataLength (h.fragment o id true data).octets = .ok data.length :=
      getDataLength_octets h.options rfl hopts (lt_trans (show data.length < 2 ^ 16 by omega) (by decide))
    have hresize : ((h.fragment o id true data).octets ++ newUnit (h.words + buffer.length -
        (h.fragment o id true data).octets.length)).take (h.words + buffer.length) =
        ((h.fragment o id true data).carry (h.options ++ (data ++ newUnit o))).octets := by
      rw [fragment_length _ _ _ _ (by omega) hle, hlen,
        show h.words + (o + data.length) - (h.words + data.length) = o by omega, List.take_of_length_le]
      · rw [octets_split h.options (h := h.fragment o id true data) rfl, List.append_assoc, carry_append]
      · rw [List.length_append, fragment_length _ _ _ _ (by omega) hle, newUnit_length]
        omega
    have hstore : ∀ g : Header, g.words = h.words → g.rest = h.options ++ (data ++ newUnit o) →
        storeAt g.octets g.words buffer = .ok (g.carry (h.options ++ buffer)).octets := by
      intro g hgw hgr
      refine storeAt_octets h.options hgr (by rw [hgw, hopts]) ?_
      rw [List.length_append, newUnit_length]
      omega
    have htotal : ∀ g : Header, (g.carry (h.options ++ buffer)).octets.length % 2 ^ 16 =
        h.words + buffer.length := by
      intro g
      rw [octets_length]
      show (12 + (h.options ++ buffer).length) % 2 ^ 16 = _
      rw [List.length_append, ← Nat.add_assoc, ← hopts, Nat.mod_eq_of_lt hsum]
    have hflags : getFlags ((h.fragment o id true data).carry (h.options ++ (data ++ newUnit o))).octets =
        .ok (fragmentFlags h.flags o true) :=
      getFlags_octets _ (fragmentFlags_lt hf.flags_lt ho true)
    rw [← k.close_octets (by omega) hkl]
    unfold defragment
    rw [hoffset, hlength, getHeaderLength_octets]
    simp only [bind, Except.bind]
    rw [Nat.div_mul_cancel h8, ← hlen]
    rw [show (h.fragment o id true data).words = h.words from rfl, hresize, hflags]
    simp only [setFlags_octets, getHeaderLength_octets]
    rw [if_neg (lt_irrefl _), List.take_length]
    -- the data of all in the place of the last, then the other fields
    rw [hstore { (h.fragment o id true data).carry (h.options ++ (data ++ newUnit o)) with
      flags := fragmentFlags h.flags o true &&& (0xFFFF - (ipOffMask ||| ipMF)) } rfl rfl]
    simp only [setTotalLength_octets, htotal, setIdent_octets]
    rw [hk]
    rfl
  · have hget := k.closed.getTotalLength_octets
    rw [closed, hk] at hget
    rw [closed, hk]
    exact hget hsum

end Header

/-- `throwIfInvalid` of an IPv4 packet does not throw. -/
def IsValid (u : Bytes) : Prop :=
  headerLength u ≤ u.length ∧ hasValidChecksum u = .ok true ∧ getTotalLength u = .ok u.length

/-- No fragment: it has neither an offset nor the flag for more. -/
def IsWhole (u : Bytes) : Prop :=
  ∃ f, getFlags u = .ok f ∧ f &&& (ipMF ||| ipOffMask) = 0

/-- **A valid packet is put together again** from the fragments it is taken apart into. -/
theorem fragment_reversible (p : Packet) (maxLen id : ℕ) (hk : p.kind = .packet)
    (hvalid : IsValid p.unit) (hwhole : IsWhole p.unit) (hroom : headerLength p.unit + 8 ≤ maxLen)
    (hmax : maxLen < 2 ^ 16) :
    ∃ turns frags, (∀ fuel, turns ≤ fuel → fragment fuel p maxLen id = .ok frags) ∧
      (∀ i (hi : i < frags.length), IsPiece maxLen frags i frags[i]) ∧
      (frags.map payload).flatten = payload p.unit ∧
      ∃ last u, frags.getLast? = some last ∧ defragment last (frags.map payload).flatten = .ok u ∧
        payload u = payload p.unit ∧ getTotalLength u = getTotalLength p.unit ∧
        hasValidChecksum u = .ok true := by
  obtain ⟨h, hf, hu, h20, hw, hle⟩ := p.exists_octets
  have hlen : p.unit.length = h.words + p.dataLength := by
    rw [Packet.dataLength, hw, Nat.add_sub_cancel' p.header_le]
  have hshort : h.words + p.dataLength < 2 ^ 16 := by
    have htotal := hvalid.2.2
    rw [hu, h.getTotalLength_octets hf.totalLength_lt, ← hu] at htotal
    have htl := hf.totalLength_lt
    rw [Except.ok.inj htotal, hlen] at htl
    exact htl
  have hflags : h.flags &&& (ipMF ||| ipOffMask) = 0 := by
    obtain ⟨f, hget, hzero⟩ := hwhole
    rw [hu, h.getFlags_octets hf.flags_lt] at hget
    rwa [Except.ok.inj hget]
  obtain ⟨m, hm⟩ : ∃ m, m = maxData (headerLength p.unit) maxLen := ⟨_, rfl⟩
  have hmeq : m = (maxLen - headerLength p.unit) / 8 * 8 := by rw [hm, maxData_eq (by omega) hmax]
  have h8 : 8 ∣ m := hmeq ▸ Nat.dvd_mul_left 8 _
  have hmle : h.words + m ≤ maxLen := by omega
  have hpos : 0 < m := by omega
  have hsource : p.dataLength ≤ p.source.length := by
    have hsame := congrArg List.length (Packet.source_packet hk)
    rw [List.length_take, p.payload_length] at hsame
    omega
  obtain ⟨n, hn⟩ : ∃ n, n = (p.dataLength - 1) / m := ⟨_, rfl⟩
  have h16 : n * m < 2 ^ 16 :=
    lt_of_le_of_lt (hn ▸ Nat.div_mul_le_self (p.dataLength - 1) m) (by omega)
  have hfrag := fragment_ok id hu hf h20 hle hm (by omega) (by omega) (by omega) hsource hn h16
  obtain ⟨hnm, hlast, -⟩ := hfrag 0
  have hdata : ((series p h m n id).map payload).flatten = payload p.unit :=
    (payloads_eq h20 hle hnm).trans (Packet.source_packet hk)
  refine ⟨n, series p h m n id, ?_, ?_, hdata, ?_⟩
  · intro fuel hfuel
    obtain ⟨-, -, hok⟩ := hfrag (fuel - n)
    rwa [Nat.add_sub_cancel' hfuel] at hok
  · intro i hi
    exact series_piece hf h20 hle hflags h8 hmle hnm hlast h16 hsource hi
  · -- the last fragment has the octets from its offset on
    have hpayload := p.payload_length
    obtain ⟨u, hdefrag, hpay, htotal, hcheck⟩ := Header.defragment_fragment id
      ((p.source.drop (n * m)).take (p.dataLength - n * m)) (payload p.unit) hf h20 hle
      hflags h16 (h8.mul_left n) (by rw [hpayload, List.length_take, List.length_drop]; omega)
      (by rw [hpayload]; exact hshort)
    refine ⟨rest p h (n * m) id, u, ?_, ?_, hpay, ?_, hcheck⟩
    · rw [series, List.getLast?_concat]
    · rw [hdata]
      exact hdefrag
    · rw [htotal, hpayload, ← hlen]
      exact hvalid.2.2.symm

/-- A packet of twenty octets of data. -/
def smallPacket : Packet where
  kind := .packet
  unit := [0x45, 0, 0, 40, 0, 0, 0, 0, 64, 1, 102, 211, 10, 0, 0, 1, 10, 0, 0, 2,
    1, 2, 3, 4, 5, 6, 7, 8, 9, 10, 11, 12, 13, 14, 15, 16, 17, 18, 19, 20]
  behind := []
  header_ge := by decide
  header_le := by decide
  length_lt := by decide

/-- It takes three fragments of at most eight octets of data. -/
theorem fragment_reversible_small : ∃ turns frags,
    (∀ fuel, turns ≤ fuel → fragment fuel smallPacket 28 7 = .ok frags) ∧
    (∀ i (hi : i < frags.length), IsPiece 28 frags i frags[i]) ∧
    (frags.map payload).flatten = payload smallPacket.unit ∧
    ∃ last u, frags.getLast? = some last ∧ defragment last (frags.map payload).flatten = .ok u ∧
      payload u = payload smallPacket.unit ∧ getTotalLength u = getTotalLength smallPacket.unit ∧
      hasValidChecksum u = .ok true :=
  fragment_reversible smallPacket 28 7 rfl
    ⟨smallPacket.header_le, by decide, by decide⟩ ⟨0, by decide, by decide⟩ (by decide) (by decide)

end ChannelEmulator.IPv4
