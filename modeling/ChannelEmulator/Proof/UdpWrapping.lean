import ChannelEmulator.Framing.Loop
import ChannelEmulator.Proof.UdpChecksum
import ChannelEmulator.Spec.UdpWrapping

/-!
# Wrapped and unwrapped again

* `updateTemplate_ok`, `setDatagramData_ok`: the octets of the template, and of a datagram with data.
* `storeUDPChecksum_ok`: a datagram whose UDP checksum is stored is valid, and differs in that word only.
* `wrapping_reversible`: **what `modUDP_Add` sends has its lengths and checksums right, and
  `modUDP_Remove` takes the payload out of it.**
-/

namespace ChannelEmulator.IPv4

open Coding

/-! ## The template -/

/-- The addresses and ports of the datagrams of a module. -/
def UdpAdd.ends (s : UdpAdd) : Bytes :=
  s.srcIPAddr.octets ++ s.dstIPAddr.octets ++ fromU16 (portOf s.srcPort) ++ fromU16 (portOf s.dstPort)

/-- A header of the module, before its checksum is stored. -/
def UdpAdd.header (s : UdpAdd) (totalLength : ℕ) (rest : Bytes) : Header :=
  ⟨0x45, 0, totalLength, 0, 0x4000, 63, 17, 0, s.ends ++ rest⟩

variable (s : UdpAdd) (totalLength : ℕ) (rest : Bytes)

theorem words_header : (s.header totalLength rest).words = 20 := by
  show ((0x45 : UInt8).toNat &&& 0xF) * 4 = 20
  decide

theorem octets_header :
    (s.header 0 rest).octets = [0x45, 0, 0, 0, 0, 0, 0x40, 0, 63, 17, 0, 0] ++ s.ends ++ rest := by
  have hflags : fromU16 0x4000 = [0x40, 0] := by decide
  have hzero : fromU16 0 = [0, 0] := by decide
  unfold Header.octets UdpAdd.header
  rw [hflags, hzero]
  simp

theorem length_header : (s.header totalLength rest).octets.length = 24 + rest.length := by
  rw [Header.octets_length]
  show 12 + (s.ends ++ rest).length = _
  rw [List.length_append]
  show 12 + (12 + rest.length) = _
  omega

theorem length_data {front : Bytes} (h4 : front.length = 4) (data : Bytes) :
    (s.header totalLength (front ++ data)).octets.length = 28 + data.length := by
  rw [length_header, List.length_append, h4]
  omega

theorem header_append (data : Bytes) :
    (s.header totalLength rest).octets ++ data = (s.header totalLength (rest ++ data)).octets := by
  unfold UdpAdd.header Header.octets
  simp only [List.append_assoc, List.cons_append]

theorem ptrSrcPort_header : ptrSrcPort (s.header totalLength rest).octets = .ok 20 := by
  unfold ptrSrcPort
  rw [Header.getHeaderLength_octets, words_header]

theorem getDatagramHeaderLength_header :
    getDatagramHeaderLength (s.header totalLength rest).octets = .ok 28 := by
  unfold getDatagramHeaderLength
  rw [Header.getHeaderLength_octets, words_header]
  rfl

theorem ptrDatagramData_header : ptrDatagramData (s.header totalLength rest).octets = .ok 28 := by
  unfold ptrDatagramData
  rw [ptrSrcPort_header]
  rfl

theorem updateTemplate_ok (behind : ℕ → Octet) :
    s.updateTemplate behind = .ok (s.header 0 [0, 0, 0, 0]).octets := by
  rw [octets_header]
  rfl

/-- A datagram with data, before its checksums are stored. -/
def UdpAdd.datagram (data : Bytes) : Header :=
  s.header (28 + data.length) (fromU16 (8 + data.length) ++ [0, 0] ++ data)

theorem datagram_length (data : Bytes) : (s.datagram data).octets.length = 28 + data.length :=
  length_data s _ rfl data

theorem copyUnit_append (pre old src : Bytes) (h : old.length = src.length) :
    copyUnit (pre ++ old) pre.length src = .ok (pre ++ src) := by
  rw [copyUnit_ok (by rw [List.length_append]; omega), overwrite, ← h, List.take_left,
    List.drop_of_length_le (by rw [List.length_append]), List.append_nil]

/-- The unit has the length for the data. -/
theorem resized (behind : ℕ → Octet) (u data : Bytes) (hu : u.length = 28) :
    ∃ old : Bytes, old.length = data.length ∧
      (if u.length ≠ data.length + 28 then setUnitLength behind u (28 + data.length) else u) = u ++ old := by
  by_cases hlen : u.length ≠ data.length + 28
  · rw [if_pos hlen]
    unfold setUnitLength
    rw [List.take_of_length_le (by omega)]
    exact ⟨_, by rw [List.length_map, List.length_range']; omega, rfl⟩
  · rw [if_neg hlen]
    exact ⟨[], by rw [List.length_nil]; omega, (List.append_nil u).symm⟩

theorem setDatagramData_ok (behind : ℕ → Octet) (data : Bytes) :
    setDatagramData behind (s.header 0 [0, 0, 0, 0]).octets data = .ok (s.datagram data).octets := by
  have hu : (s.header 0 [0, 0, 0, 0]).octets.length = 28 := length_header s 0 [0, 0, 0, 0]
  obtain ⟨old, hold, hresized⟩ := resized behind _ data hu
  have hdata : getDatagramDataLength (s.header 0 ([0, 0, 0, 0] ++ old)).octets = .ok data.length := by
    unfold getDatagramDataLength
    rw [getDatagramHeaderLength_header, Framing.ok_bind, length_data s 0 rfl, hold]
    unfold sizeDiff
    rw [if_pos (Nat.le_add_right 28 _), Nat.add_sub_cancel_left]
    rfl
  have hcopy := copyUnit_append (s.header 0 [0, 0, 0, 0]).octets old data hold
  rw [hu, header_append, header_append] at hcopy
  have htotal : setTotalLength (s.header 0 ([0, 0, 0, 0] ++ data)).octets (28 + data.length) =
      .ok (s.header (28 + data.length) ([0, 0, 0, 0] ++ data)).octets :=
    (s.header 0 ([0, 0, 0, 0] ++ data)).setTotalLength_octets (28 + data.length)
  have hlength := storeAt_append (s.header (28 + data.length) []).octets [0, 0] (fromU16 (8 + data.length))
    ([0, 0] ++ data) rfl
  rw [header_append, header_append, header_append, length_header] at hlength
  have hudp : setUDPLength (s.header (28 + data.length) ([0, 0, 0, 0] ++ data)).octets (8 + data.length) =
      .ok (s.datagram data).octets := by
    unfold setUDPLength
    rw [ptrSrcPort_header, Framing.ok_bind]
    exact hlength
  have hdiff : sizeDiff (28 + data.length) 20 = 8 + data.length := by
    unfold sizeDiff
    rw [if_pos (by omega)]
    omega
  unfold setDatagramData
  rw [getDatagramHeaderLength_header, Framing.ok_bind]
  simp only [hresized]
  rw [header_append, hdata, Framing.ok_bind, ptrDatagramData_header, Framing.ok_bind, if_pos le_rfl, hcopy,
    Framing.ok_bind, length_data s 0 rfl, htotal, Framing.ok_bind, Header.getHeaderLength_octets, words_header,
    Framing.ok_bind, length_data s _ rfl, hdiff, hudp]

/-! ## The checksums -/

theorem datagram_words (data : Bytes) : (s.datagram data).words = 20 := words_header s _ _

theorem wordAt_of_drop {u : Bytes} {k n : ℕ} (hk : k + 2 ≤ u.length) (h : toU16 (u.drop k) = .ok n) :
    wordAt u k = n := by
  rw [toU16_drop hk] at h
  exact Except.ok.inj h

/-- The datagram with the checksum of its header stored. -/
theorem closed_datagram {data : Bytes} (hdata : data.length ≤ 65507) :
    Datagram (s.datagram data).closed.octets ∧ storedSum (s.datagram data).closed.octets = 0 := by
  have hlen : (s.datagram data).closed.octets.length = 28 + data.length := datagram_length s data
  have hwords : headerLength (s.datagram data).closed.octets = 20 := datagram_words s data
  have hat : wordAt (s.datagram data).closed.octets 24 = 8 + data.length := by
    have hfield : (s.datagram data).closed.octets.drop 24 = fromU16 (8 + data.length) ++ ([0, 0] ++ data) := rfl
    exact wordAt_of_drop (by omega) (by rw [hfield, toU16_fromU16 _ (by omega)])
  refine ⟨⟨hwords.ge, by omega, ?_⟩, ?_⟩
  · rw [hwords, hat, hlen]
    omega
  · have hfield : (s.datagram data).closed.octets.drop 26 = [0, 0] ++ data := rfl
    unfold storedSum
    rw [hwords]
    exact wordAt_of_drop (by omega) (by rw [hfield]; rfl)

variable {u v : Bytes}

/-- **A checksum that is computed and stored is valid**; it may be a zero, that is not in use. -/
theorem storeUDPChecksum_ok (h : Datagram u) (hzero : storedSum u = 0) :
    ∃ c u', computeUDPChecksum u protocolUDP = .ok c ∧ setUDPChecksum u c = .ok u' ∧ Datagram u' ∧
      AgreeBut (headerLength u + 6) u u' ∧ hasValidUDPChecksum u' = .ok true := by
  have hwords : headerLength u % 4 = 0 := Nat.mul_mod_left _ 4
  have hc : (65535 - totalSum u % 65535) % 65535 < 2 ^ 16 := by omega
  obtain ⟨u', hset, hagree, hword⟩ := setUDPChecksum_ok h hc
  have hk : Summed u (headerLength u + 6) := ⟨by omega, .inr (by omega)⟩
  have hu' := hk.datagram hagree h
  have hsum := changed_word hk hagree h
  have hold : wordAt u (headerLength u + 6) = 0 := hzero
  have hnew : storedSum u' = (65535 - totalSum u % 65535) % 65535 := by
    unfold storedSum
    rw [← headerLength_agree hagree (by omega)]
    exact hword
  rw [hword, hold] at hsum
  refine ⟨_, u', computeUDPChecksum_ok h, hset, hu', hagree, ?_⟩
  rw [hasValidUDPChecksum_ok hu', decide_eq_true (by omega)]

/-- What is read of the header of the packet. -/
theorem hasValidChecksum_agree {k : ℕ} (h : AgreeBut k u v) (hu : Datagram u) (hk : headerLength u ≤ k) :
    hasValidChecksum v = hasValidChecksum u ∧ getTotalLength v = getTotalLength u := by
  have hge := hu.header_ge
  have hle := hu.header_le
  have hlen := h.1
  have hsame := headerLength_agree h (by omega)
  have hhead : getHeaderLength v = .ok (headerLength u) := by
    rw [hsame]
    cases v with
    | nil =>
      rw [List.length_nil] at hlen
      omega
    | cons b v => rfl
  have hslice := h.slice_eq (m := 0) (n := headerLength u) (.inr (by omega))
  have hcompute : computeChecksum v = computeChecksum u := by
    unfold computeChecksum
    rw [hhead, hu.getHeaderLength, Framing.ok_bind, Framing.ok_bind, ← hlen]
    rw [List.drop_zero, List.drop_zero] at hslice
    rw [hslice]
  have hstored : getChecksum v = getChecksum u := by
    unfold getChecksum
    rw [toU16_drop (by omega), toU16_drop (by omega), h.wordAt_eq (by omega)]
  refine ⟨?_, ?_⟩
  · unfold hasValidChecksum
    rw [hstored, hcompute]
  · unfold getTotalLength
    rw [toU16_drop (by omega), toU16_drop (by omega), h.wordAt_eq (by omega)]

/-! ## Both modules -/

/-- **The data of a datagram** is taken out. -/
theorem wrapInnerPDU_ok (h : Datagram u) : wrapInnerPDU u = .ok (u.drop (headerLength u + 8)) := by
  have hle := h.header_le
  have hlen : getDatagramDataLength u = .ok (u.length - (headerLength u + 8)) := by
    unfold getDatagramDataLength getDatagramHeaderLength
    rw [h.getHeaderLength, Framing.ok_bind]
    show Except.ok (sizeDiff u.length (headerLength u + 8)) = _
    rw [sizeDiff, if_pos hle]
  have hptr : ptrDatagramData u = .ok (headerLength u + 8) := by
    unfold ptrDatagramData ptrSrcPort
    rw [h.getHeaderLength]
    rfl
  unfold wrapInnerPDU
  rw [hlen, Framing.ok_bind, hptr, Framing.ok_bind, if_neg (by omega), List.take_of_length_le]
  · rfl
  · rw [List.length_drop]

/-- What is said of a datagram that is sent: its lengths, its checksums and what it carries. -/
structure Wraps (payload u : Bytes) : Prop where
  length_eq : u.length = 28 + payload.length
  totalLength_eq : getTotalLength u = .ok u.length
  udpLength_eq : getUDPLength u = .ok (8 + payload.length)
  checksum_valid : hasValidChecksum u = .ok true
  accepted : ∀ r : UdpRemove, r.goodCRC u = .ok (r, true)
  removed : ∀ r : UdpRemove, r.svc true (.udpDatagram u) = .ok (r, [payload])

/-- A datagram with valid checksums, and what is behind its headers. -/
theorem wraps_of_valid {payload : Bytes} (hu : Datagram u) (hwords : headerLength u = 20)
    (hlen : u.length = 28 + payload.length) (htotal : getTotalLength u = .ok u.length)
    (hvalid : hasValidChecksum u = .ok true) (hudp : hasValidUDPChecksum u = .ok true)
    (hdrop : u.drop 28 = payload) : Wraps payload u := by
  have hgood : ∀ r : UdpRemove, r.goodCRC u = .ok (r, true) := fun r => by
    unfold UdpRemove.goodCRC
    rw [hvalid, hudp]
    cases r.checkCRC <;> rfl
  have hremoved := wrapInnerPDU_ok hu
  rw [hwords, hdrop] at hremoved
  refine ⟨hlen, htotal, ?_, hvalid, hgood, fun r => ?_⟩
  · rw [hu.getUDPLength, hwords, hlen]
    exact congrArg Except.ok (by omega)
  · show (r.goodCRC u >>= _) = _
    rw [hgood, Framing.ok_bind]
    show (wrapInnerPDU u >>= fun data => pure (r, [data])) = _
    rw [hremoved]
    rfl

theorem wraps_closed {data : Bytes} (hdata : data.length ≤ 65507) :
    hasValidChecksum (s.datagram data).closed.octets = .ok true ∧
      getTotalLength (s.datagram data).closed.octets = .ok (28 + data.length) := by
  refine ⟨Header.hasValidChecksum_closed _ ?_ ?_, Header.getTotalLength_octets _ ?_⟩
  · rw [datagram_words]
    omega
  · rw [← Header.octets_length, datagram_length, datagram_words]
    omega
  · show 28 + data.length < 2 ^ 16
    omega

/-- One unit through `modUDP_Add`. -/
theorem svc_wraps (behind : ℕ → Octet) {payload : Bytes} (h : payload.length ≤ 65507) :
    ∃ u, s.svc behind (s.header 0 [0, 0, 0, 0]).octets true payload = .ok [u] ∧ Wraps payload u := by
  obtain ⟨hdatagram, hzero⟩ := closed_datagram s h
  obtain ⟨hvalid, htotal⟩ := wraps_closed s h
  have hlen : (s.datagram payload).closed.octets.length = 28 + payload.length := datagram_length s payload
  have hwords : headerLength (s.datagram payload).closed.octets = 20 := datagram_words s payload
  have hdrop : (s.datagram payload).closed.octets.drop 28 = payload := rfl
  have hcompute := (s.datagram payload).computeChecksum_octets (by rw [datagram_words]; omega)
    (by rw [← Header.octets_length, datagram_length, datagram_words]; omega)
  have hset : setChecksum (s.datagram payload).octets (s.datagram payload).sum =
      .ok (s.datagram payload).closed.octets := Header.setChecksum_octets _ _
  unfold UdpAdd.svc
  rw [if_pos rfl, setDatagramData_ok, Framing.ok_bind, hcompute, Framing.ok_bind, hset, Framing.ok_bind]
  cases hcrc : s.computeCRC with
  | false =>
    refine ⟨_, rfl, wraps_of_valid hdatagram hwords hlen (by rw [hlen, htotal]) hvalid ?_ hdrop⟩
    rw [hasValidUDPChecksum_ok hdatagram, hzero, decide_eq_true (.inl rfl)]
  | true =>
    obtain ⟨c, u, hudpCompute, hstore, hu, hagree, hudp⟩ := storeUDPChecksum_ok hdatagram hzero
    obtain ⟨hsum, hsame⟩ := hasValidChecksum_agree hagree hdatagram (Nat.le_add_right _ 6)
    have hlen' : u.length = 28 + payload.length := by rw [← hagree.1, hlen]
    have hwords' : headerLength u = 20 := by rw [← headerLength_agree hagree (Nat.succ_pos _), hwords]
    rw [hwords] at hagree
    have hdrop' : u.drop 28 = payload := by rw [← hagree.drop_eq (m := 28) (by omega), hdrop]
    refine ⟨u, ?_, wraps_of_valid hu hwords' hlen' (by rw [hsame, hlen', htotal]) (by rw [hsum, hvalid]) hudp hdrop'⟩
    rw [if_pos rfl, hudpCompute, Framing.ok_bind, hstore]
    rfl

/-- **UDP/IP wrapping is valid and reversible.** -/
theorem wrapping_reversible (s : UdpAdd) (behind behind' : ℕ → Octet) (payload : Bytes)
    (h : payload.length ≤ 65507) :
    ∃ dgmHeader u, s.updateTemplate behind = .ok dgmHeader ∧
      s.svc behind' dgmHeader true payload = .ok [u] ∧ Wraps payload u := by
  obtain ⟨u, hsvc, hu⟩ := svc_wraps s behind' h
  exact ⟨_, u, updateTemplate_ok s behind, hsvc, hu⟩

/-- Three octets with a checksum. -/
theorem wrapping_reversible_odd : ∃ dgmHeader u,
    (⟨⟨10, 0, 0, 1⟩, 4000, ⟨10, 0, 0, 2⟩, 53, true⟩ : UdpAdd).updateTemplate (fun _ => 0) = .ok dgmHeader ∧
      (⟨⟨10, 0, 0, 1⟩, 4000, ⟨10, 0, 0, 2⟩, 53, true⟩ : UdpAdd).svc (fun _ => 0) dgmHeader true [1, 2, 3] =
        .ok [u] ∧ Wraps [1, 2, 3] u :=
  wrapping_reversible ⟨⟨10, 0, 0, 1⟩, 4000, ⟨10, 0, 0, 2⟩, 53, true⟩ _ _ [1, 2, 3] (by decide)

end ChannelEmulator.IPv4
