import ChannelEmulator.Proof.Dot1qFrame
import ChannelEmulator.Spec.EthernetFraming

/-!
# Framing after reconfiguration

* `str2addr_addr2str`: an address that is kept as text is the same address.
* `template_eq`: the octets of a template.
* `Follows`: a module is as it was configured; `step_follows`, `run_follows`: it stays so.
* `frames_iff`: **a module frames a payload in a way that can be undone exactly where the template is of the frame
  type, the lengths agree and a tap does not have to recognise it.**
-/

namespace ChannelEmulator.Ethernet

open Framing

/-! ## Addresses as text -/

namespace MacAddress

theorem octetOf_digits : ∀ n < 256,
    octetOf (hexDigits.getD (n / 16) '0') (hexDigits.getD (n % 16) '0') = some (UInt8.ofNat n) := by
  decide +kernel

theorem octetOf_hexPair (o : Octet) : ∃ a b, hexPair o = [a, b] ∧ octetOf a b = some o := by
  refine ⟨_, _, rfl, ?_⟩
  rw [octetOf_digits o.toNat o.toNat_lt, UInt8.ofNat_toNat]

/-- Octets written as text are read again. -/
theorem octetsOf_intercalate (o : Octet) (os : Bytes) :
    octetsOf ([':'].intercalate ((o :: os).map hexPair)) = some (o :: os) := by
  induction os generalizing o with
  | nil =>
    obtain ⟨a, b, hpair, hoctet⟩ := octetOf_hexPair o
    have htext : [':'].intercalate ([o].map hexPair) = [a, b] := by
      rw [← hpair]
      exact List.append_nil _
    rw [htext, octetsOf, hoctet]
    rfl
  | cons o' os ih =>
    obtain ⟨a, b, hpair, hoctet⟩ := octetOf_hexPair o
    have htext : [':'].intercalate ((o :: o' :: os).map hexPair) =
        a :: b :: ':' :: [':'].intercalate ((o' :: os).map hexPair) := by
      have hcons : [':'].intercalate ((o :: o' :: os).map hexPair) =
          hexPair o ++ ([':'] ++ [':'].intercalate ((o' :: os).map hexPair)) := rfl
      rw [hcons, hpair]
      rfl
    rw [htext, octetsOf, if_pos rfl, hoctet, ih o']
    rfl

/-- **An address that is kept as text is the same address.** -/
theorem str2addr_addr2str (m : MacAddress) : str2addr m.addr2str = .ok m := by
  obtain ⟨address, hlen⟩ := m
  cases address with
  | nil => cases hlen
  | cons o os =>
    unfold str2addr addr2str
    rw [octetsOf_intercalate o os]
    exact dif_pos hlen

end MacAddress

theorem str2FrameType_frameType2Str (t : FrameType) : str2FrameType (frameType2Str t) = t := by
  cases t <;> decide +kernel

/-! ## The parts of a frame -/

/-- A frame whose type field is of two octets. -/
def plain (t : FrameType) (u : Bytes) : Frame := ⟨t, typeNormalLen, true, u⟩

/-- The length of its header. -/
def plainHeader (t : FrameType) : ℕ := t.preambleLength + 14

/-- A preamble, the addresses, a type and a payload. -/
def framed (t : FrameType) (pre : Bytes) (dst src : MacAddress) (type : ℕ) (payload : Bytes) : Frame :=
  plain t (pre ++ (dst.address ++ (src.address ++ (fromU16 type ++ payload))))

variable {t : FrameType} {pre old new v w : Bytes} {dst src : MacAddress} {type i : ℕ} {p : Payload}

theorem drop_part {a b : Bytes} {k : ℕ} (ha : a.length = k) (n : ℕ) : (a ++ b).drop (k + n) = b.drop n := by
  rw [← List.drop_drop, ← ha, List.drop_left]

section Framed

variable (hpre : pre.length = t.preambleLength)

include hpre

/-- What is behind the addresses of a frame. -/
theorem framed_drop (n : ℕ) : (framed t pre dst src type v).unit.drop (t.preambleLength + (6 + (6 + n))) =
    (fromU16 type ++ v).drop n := by
  unfold framed plain
  simp only
  rw [drop_part hpre, drop_part (k := 6) dst.length_eq, drop_part (k := 6) src.length_eq]

theorem framed_getEtherType (htype : type < 65536) : (framed t pre dst src type v).getEtherType = .ok type :=
  (congrArg toU16 (framed_drop hpre 0)).trans (toU16_fromU16 v htype)

theorem framed_payload : (framed t pre dst src type v).unit.drop (framed t pre dst src type v).ptrPayload = v :=
  framed_drop hpre 2

theorem framed_length : (framed t pre dst src type v).unit.length = plainHeader t + v.length := by
  have hdst : dst.address.length = 6 := dst.length_eq
  have hsrc : src.address.length = 6 := src.length_eq
  unfold framed plain plainHeader fromU16
  simp only [List.length_append, hpre, hdst, hsrc, List.length_cons, List.length_nil]
  omega

theorem framed_dst :
    ((framed t pre dst src type v).unit.drop (framed t pre dst src type v).ptrDstAddr).take ethAddrLen =
      dst.address :=
  (congrArg (List.take ethAddrLen) (drop_part hpre 0)).trans (List.take_left' dst.length_eq)

theorem framed_src :
    ((framed t pre dst src type v).unit.drop (framed t pre dst src type v).ptrSrcAddr).take ethAddrLen =
      src.address :=
  (congrArg (List.take ethAddrLen) ((drop_part hpre (ethAddrLen + 0)).trans (drop_part dst.length_eq 0))).trans
    (List.take_left' src.length_eq)

theorem framed_setEtherType (hlen : old.length = 2) :
    (plain t (pre ++ (dst.address ++ (src.address ++ (old ++ v))))).setEtherType type =
      .ok (framed t pre dst src type v) := by
  have hstore : (plain t (pre ++ dst.address ++ src.address ++ (old ++ v))).store (t.preambleLength + 6 + 6)
      (fromU16 type) = .ok (plain t (pre ++ dst.address ++ src.address ++ (fromU16 type ++ v))) := by
    refine store_part ?_ hlen
    simp only [List.length_append, hpre, dst.length_eq, src.length_eq]
    rfl
  simp only [List.append_assoc] at hstore
  exact hstore

end Framed

theorem plain_calculatePayloadLength (u : Bytes) :
    (plain t u).calculatePayloadLength = sizeDiff u.length (plainHeader t) % 4294967296 := rfl

theorem framed_calculatePayloadLength (hpre : pre.length = t.preambleLength) (hlt : v.length < 4294967296) :
    (framed t pre dst src type v).calculatePayloadLength = v.length := by
  refine (plain_calculatePayloadLength _).trans ?_
  rw [show (pre ++ (dst.address ++ (src.address ++ (fromU16 type ++ v)))).length = plainHeader t + v.length from
    framed_length hpre]
  unfold sizeDiff
  rw [if_pos (Nat.le_add_right _ _), Nat.add_sub_cancel_left, Nat.mod_eq_of_lt hlt]

/-! ## The template -/

/-- A template of a frame type, with its addresses. The type in the preamble of a tap is the one that `build` is
given, and no payload ever changes it. -/
def IsTemplate (t : FrameType) (dst src : MacAddress) (f : Frame) : Prop :=
  ∃ pre : Bytes, pre.length = t.preambleLength ∧ (t = .linuxTap → pre.drop 2 = fromU16 ethMaxType) ∧
    f = framed t pre dst src ethMaxType []

theorem plain_markPreamble (type : ℕ) (hpre : pre.length = t.preambleLength) : ∃ pre' : Bytes,
    pre'.length = t.preambleLength ∧
    (t = .linuxTap → pre'.drop 2 = fromU16 type) ∧
      (plain t (pre ++ w)).markPreamble type = .ok (plain t (pre' ++ w)) := by
  by_cases ht : t = .linuxTap
  · obtain ⟨a, a', rfl, ha, ha'⟩ := exists_parts pre (l := 2) (n := 2) (by rw [hpre, ht]; rfl)
    refine ⟨a ++ fromU16 type, ?_, fun _ => List.drop_left' ha, ?_⟩
    · rw [List.length_append, ha, ht]
      rfl
    · unfold Frame.markPreamble Frame.setPreambleType Frame.ptrPreambleType
      have hftype : ∀ u, (plain t u).frameType = .linuxTap := fun u => ht
      rw [if_pos (hftype _), if_pos (hftype _), ok_bind, List.append_assoc, List.append_assoc]
      exact store_part ha.symm ha'
  · refine ⟨pre, hpre, fun h => absurd h ht, ?_⟩
    unfold Frame.markPreamble
    exact if_neg ht

/-- **The octets of a template.** -/
theorem template_eq (t : FrameType) (behind : ℕ → Octet) (dst src : MacAddress) :
    ∃ f, EthernetFrame.build (EthernetFrame.new t) behind dst src none ethMaxType = .ok f ∧
      IsTemplate t dst src f := by
  have hlen : (setUnitLength behind [] (estimateLength 0 t.preambleLength typeNormalLen)).length =
      t.preambleLength + (6 + (6 + 2)) := by
    rw [setUnitLength_length]
    cases t <;> rfl
  have hbuild : EthernetFrame.build (EthernetFrame.new t) behind dst src none ethMaxType = (do
      let f ← (plain t (setUnitLength behind [] (estimateLength 0 t.preambleLength typeNormalLen))).markPreamble
        ethMaxType
      let f ← f.setDstAddr dst
      let f ← f.setSrcAddr src
      let f ← f.setEtherType ethMaxType
      EthernetFrame.setPayloadIf f none) := rfl
  -- the octets given, in the parts that the setters write
  obtain ⟨pre₀, u, hu, hpre₀, hlen⟩ := exists_parts _ hlen
  obtain ⟨d, u, rfl, hd, hlen⟩ := exists_parts u hlen
  obtain ⟨s, y, rfl, hs, hy⟩ := exists_parts u hlen
  obtain ⟨pre, hpre, htap, hmark⟩ := plain_markPreamble ethMaxType (w := d ++ (s ++ y)) hpre₀
  have hdst : (plain t (pre ++ (d ++ (s ++ y)))).setDstAddr dst =
      .ok (plain t (pre ++ (dst.address ++ (s ++ y)))) :=
    copy_part hpre.symm (hd.trans dst.length_eq.symm)
  have hsrc : (plain t (pre ++ (dst.address ++ (s ++ y)))).setSrcAddr src =
      .ok (plain t (pre ++ (dst.address ++ (src.address ++ y)))) := by
    rw [← List.append_assoc pre, ← List.append_assoc pre]
    refine copy_part ?_ (hs.trans src.length_eq.symm)
    rw [List.length_append, hpre, dst.length_eq]
    rfl
  have htype : (plain t (pre ++ (dst.address ++ (src.address ++ (y ++ []))))).setEtherType ethMaxType =
      .ok (framed t pre dst src ethMaxType []) := framed_setEtherType hpre hy
  rw [List.append_nil] at htype
  refine ⟨_, ?_, pre, hpre, htap, rfl⟩
  rw [hbuild, hu, hmark, ok_bind, hdst, ok_bind, hsrc, ok_bind, htype]
  rfl

/-! ## Reconfiguration -/

/-- A module is as it was configured. -/
structure Follows (c : Configured) (s : EthFrameAdd) : Prop where
  frameType : s.getFrameType = c.frameType
  dst : s.getDstMAC = .ok c.dst
  src : s.getSrcMAC = .ok c.src
  defaultPayloadType : s.getDefaultPayloadType = c.defaultPayloadType
  template : IsTemplate c.builtFor c.dst c.src s.frameHeader

theorem updateTemplate_ok {s : EthFrameAdd} (behind : ℕ → Octet) (hdst : s.getDstMAC = .ok dst)
    (hsrc : s.getSrcMAC = .ok src) :
    ∃ f, s.updateTemplate behind = .ok { s with frameHeader := f } ∧ IsTemplate s.getFrameType dst src f := by
  obtain ⟨f, hbuild, htemplate⟩ := template_eq s.getFrameType behind dst src
  refine ⟨f, ?_, htemplate⟩
  unfold EthFrameAdd.updateTemplate
  rw [show MacAddress.str2addr s.dstMAC = .ok dst from hdst, ok_bind,
    show MacAddress.str2addr s.srcMAC = .ok src from hsrc, ok_bind, hbuild]
  rfl

/-- A call leaves the module as it is then configured. -/
theorem step_follows {c : Configured} {s : EthFrameAdd} (h : Follows c s) (behind : ℕ → Octet)
    (call : Reconfiguration) : ∃ s', s.step behind call = .ok s' ∧ Follows (c.after call) s' := by
  cases call with
  | setFrameType newVal =>
    exact ⟨_, rfl, str2FrameType_frameType2Str newVal, h.dst, h.src, h.defaultPayloadType, h.template⟩
  | setDstMAC newVal =>
    obtain ⟨f, hupdate, htemplate⟩ := updateTemplate_ok (s := { s with dstMAC := newVal.addr2str }) behind
      newVal.str2addr_addr2str h.src
    refine ⟨_, hupdate, h.frameType, newVal.str2addr_addr2str, h.src, h.defaultPayloadType, ?_⟩
    have hbuilt : (c.after (.setDstMAC newVal)).builtFor = s.getFrameType := h.frameType.symm
    rw [hbuilt]
    exact htemplate
  | setSrcMAC newVal =>
    obtain ⟨f, hupdate, htemplate⟩ := updateTemplate_ok (s := { s with srcMAC := newVal.addr2str }) behind
      h.dst newVal.str2addr_addr2str
    refine ⟨_, hupdate, h.frameType, h.dst, newVal.str2addr_addr2str, h.defaultPayloadType, ?_⟩
    have hbuilt : (c.after (.setSrcMAC newVal)).builtFor = s.getFrameType := h.frameType.symm
    rw [hbuilt]
    exact htemplate
  | setDefaultPayloadType newVal =>
    refine ⟨_, rfl, h.frameType, h.dst, h.src, ?_, h.template⟩
    have hlt := newVal.toNat_lt
    unfold EthFrameAdd.getDefaultPayloadType Configured.after
    simp only
    omega

/-- Any calls leave the module as it is then configured. -/
theorem run_follows {c : Configured} {s : EthFrameAdd} (h : Follows c s)
    (calls : List ((ℕ → Octet) × Reconfiguration)) :
    ∃ s', s.run calls = .ok s' ∧ Follows (c.afterAll calls) s' := by
  induction calls generalizing c s with
  | nil => exact ⟨s, rfl, h⟩
  | cons call calls ih =>
    obtain ⟨s₁, hstep, h₁⟩ := step_follows h call.1 call.2
    obtain ⟨s', hrun, h'⟩ := ih h₁
    refine ⟨s', ?_, h'⟩
    unfold EthFrameAdd.run
    rw [hstep, ok_bind, hrun]

/-- A module that is constructed has the addresses of its settings. -/
theorem new_follows {behind drawnDst drawnSrc : ℕ → Octet} {cfg : AddConfig} {s : EthFrameAdd}
    (hnew : EthFrameAdd.new behind drawnDst drawnSrc cfg = .ok s) : ∃ dst src,
      Follows (Configured.initially s dst src) s := by
  obtain ⟨dst, hdst, hrest⟩ := bind_ok hnew
  obtain ⟨src, hsrc, hrest⟩ := bind_ok hrest
  obtain ⟨f, hbuild, hs⟩ := bind_ok hrest
  obtain ⟨f', hbuild', htemplate⟩ := template_eq _ behind dst src
  obtain rfl := Except.ok.inj (hbuild'.symm.trans hbuild)
  obtain rfl := Except.ok.inj hs
  exact ⟨dst, src, rfl, hdst, hsrc, rfl, htemplate⟩

/-! ## What is sent -/

section Sent

variable {b : FrameType} {h : Bytes} {s : EthFrameAdd} {c : Configured} {frame : Frame}

theorem plain_copyHeader (t : FrameType) (h : Bytes) (n : ℕ) :
    (EthernetFrame.ofSize (h.length + n) t).copy 0 h = .ok (plain t (h ++ newUnit n)) := by
  have hunit : newUnit (h.length + n) = [] ++ (newUnit h.length ++ newUnit n) := newUnit_add ..
  unfold EthernetFrame.ofSize
  rw [hunit]
  exact copy_part rfl (newUnit_length _)

/-- What is left to do when the header is copied. -/
theorem svc_eq (hs : Follows c s) (hmin : ethMinPayload ≤ p.unit.length) : s.svc true p = (do
    let frame ← (plain c.frameType (s.frameHeader.unit ++ newUnit p.unit.length)).setPayload p
    let frame ← s.useDefaultType frame
    return some frame) := by
  unfold EthFrameAdd.svc
  rw [if_pos ⟨rfl, hmin⟩, hs.frameType]
  simp only
  rw [plain_copyHeader, ok_bind]

theorem enetType_lt (p : Payload) : p.enetType < 65536 := by
  unfold Payload.enetType
  split
  · decide
  · decide
  · decide
  · split <;> omega

/-- A payload of 32 bits is put behind a header of its own type. -/
theorem setPayload_framed (hpre : pre.length = t.preambleLength) (hmin : ethMinPayload ≤ p.unit.length)
    (hlt : p.unit.length < 4294967296) :
    (framed t pre dst src type (newUnit p.unit.length)).setPayload p =
      .ok (framed t pre dst src p.enetType p.unit) := by
  have hroom : (framed t pre dst src type (newUnit p.unit.length)).calculatePayloadLength = p.unit.length := by
    rw [framed_calculatePayloadLength hpre (by rw [newUnit_length]; exact hlt), newUnit_length]
  have hcopy : (framed t pre dst src type (newUnit p.unit.length)).copy (t.preambleLength + 6 + 6 + 2) p.unit =
      .ok (framed t pre dst src type p.unit) := by
    have hcopy' : (plain t (pre ++ dst.address ++ src.address ++ fromU16 type ++ (newUnit p.unit.length ++ []))).copy
        (pre ++ dst.address ++ src.address ++ fromU16 type).length p.unit =
          .ok (plain t (pre ++ dst.address ++ src.address ++ fromU16 type ++ (p.unit ++ []))) :=
      copy_part rfl (newUnit_length _)
    simp only [List.length_append, hpre, dst.length_eq, src.length_eq, List.append_assoc, List.append_nil] at hcopy'
    exact hcopy'
  unfold Frame.setPayload Frame.setData
  rw [if_neg (by omega), hroom, if_pos (Nat.le_refl _)]
  refine (congrArg (fun r : Except Fault Frame => r >>= fun f => f.setEtherType p.enetType) hcopy).trans ?_
  exact framed_setEtherType hpre rfl

theorem typeField_lt (hs : Follows c s) : c.typeField p < 65536 := by
  have henet := enetType_lt p
  have hdefault : c.defaultPayloadType < 65536 := by
    rw [← hs.defaultPayloadType]
    unfold EthFrameAdd.getDefaultPayloadType
    omega
  unfold Configured.typeField
  split
  · exact hdefault
  · exact henet

theorem useDefaultType_framed (hs : Follows c s) (hpre : pre.length = t.preambleLength) :
    s.useDefaultType (framed t pre dst src p.enetType p.unit) =
      .ok (framed t pre dst src (c.typeField p) p.unit) := by
  unfold EthFrameAdd.useDefaultType Configured.typeField
  rw [framed_getEtherType hpre (enetType_lt p), ok_bind, hs.defaultPayloadType]
  split
  · exact framed_setEtherType hpre rfl
  · rfl

/-- **A template of the frame type**: the frame has the header of the template, with the type of the payload. -/
theorem svc_fresh (hs : Follows c s) (hfresh : c.builtFor = c.frameType) (hmin : ethMinPayload ≤ p.unit.length)
    (hlt : p.unit.length < 4294967296) : ∃ pre : Bytes, pre.length = c.frameType.preambleLength ∧
      (c.frameType = .linuxTap → pre.drop 2 = fromU16 ethMaxType) ∧
      s.svc true p = .ok (some (framed c.frameType pre c.dst c.src (c.typeField p) p.unit)) := by
  obtain ⟨pre, hpre, htap, hheader⟩ := hs.template
  rw [hfresh] at hpre htap hheader
  refine ⟨pre, hpre, htap, ?_⟩
  have hplain : plain c.frameType (s.frameHeader.unit ++ newUnit p.unit.length) =
      framed c.frameType pre c.dst c.src ethMaxType (newUnit p.unit.length) := by
    rw [hheader]
    unfold framed plain
    simp only [List.append_assoc, List.append_nil]
  rw [svc_eq hs hmin, hplain, setPayload_framed hpre hmin hlt, ok_bind, useDefaultType_framed hs hpre]
  rfl

/-- What a payload that is taken is like, and the frame that it is taken into. -/
theorem svc_inv (hs : Follows c s) (hmin : ethMinPayload ≤ p.unit.length) (hsvc : s.svc true p = .ok (some frame)) :
    p.unit.length ≤ sizeDiff (plainHeader c.builtFor + p.unit.length) (plainHeader c.frameType) % 4294967296 ∧
      frame.unit.length = plainHeader c.builtFor + p.unit.length ∧ frame.frameType = c.frameType ∧
      frame.typeLen = typeNormalLen := by
  obtain ⟨pre, hpre, -, hheader⟩ := hs.template
  have hlength : (s.frameHeader.unit ++ newUnit p.unit.length).length =
      plainHeader c.builtFor + p.unit.length := by
    rw [List.length_append, hheader, framed_length hpre, newUnit_length]
    rfl
  rw [svc_eq hs hmin] at hsvc
  obtain ⟨f, hpayload, hsvc⟩ := bind_ok hsvc
  obtain ⟨g, hdefault, hg⟩ := bind_ok hsvc
  obtain rfl := Option.some.inj (Except.ok.inj hg)
  unfold Frame.setPayload at hpayload
  rw [if_neg (by omega)] at hpayload
  obtain ⟨d, hdata, htype⟩ := bind_ok hpayload
  unfold Frame.setData at hdata
  split at hdata
  · next hfits =>
    rw [plain_calculatePayloadLength, hlength] at hfits
    have hsame : (plain c.frameType (s.frameHeader.unit ++ newUnit p.unit.length)).Same f :=
      (Frame.copy_fits hdata).2.trans (Frame.store_same htype)
    have hsame' : f.Same g := by
      obtain ⟨etherType, -, hset⟩ := bind_ok hdefault
      split at hset
      · exact Frame.store_same hset
      · obtain rfl := Except.ok.inj hset
        exact ⟨rfl, rfl, rfl⟩
    obtain ⟨hlen, hframeType, htypeLen⟩ := hsame.trans hsame'
    exact ⟨hfits, hlen.trans hlength, hframeType, htypeLen⟩
  · cases hdata

end Sent

/-! ## What comes out again -/

section Removed

variable {frame : Frame} {u : Bytes}

/-- What is sent on is the payload as the frame has it. -/
theorem removed_eq {wrapper : Wrapper} (h : EthFrameRemove.svc true frame = .ok (some (wrapper, u))) :
    u = EthernetFrame.wrapInnerPDU frame := by
  unfold EthFrameRemove.svc at h
  rw [if_pos rfl] at h
  obtain ⟨⟨w, u'⟩, hunwrap, hsome⟩ := bind_ok h
  obtain ⟨rfl, rfl⟩ := Prod.mk.inj (Option.some.inj (Except.ok.inj hsome))
  obtain ⟨etherType, -, hunwrap⟩ := bind_ok hunwrap
  simp only at hunwrap
  split at hunwrap
  · obtain ⟨protocol, -, hpair⟩ := bind_ok hunwrap
    exact (Prod.mk.inj (Except.ok.inj hpair)).2.symm
  · split at hunwrap
    · exact (Prod.mk.inj (Except.ok.inj hunwrap)).2.symm
    · split at hunwrap
      · exact (Prod.mk.inj (Except.ok.inj hunwrap)).2.symm
      · exact (Prod.mk.inj (Except.ok.inj hunwrap)).2.symm

theorem framed_wrapInnerPDU (hpre : pre.length = t.preambleLength) (hlt : v.length < 4294967296) :
    EthernetFrame.wrapInnerPDU (framed t pre dst src type v) = v := by
  unfold EthernetFrame.wrapInnerPDU
  rw [framed_payload hpre, framed_calculatePayloadLength hpre hlt, List.take_length]

theorem framed_removed (hpre : pre.length = t.preambleLength) (htype : type < 65536)
    (hmin : ethMinPayload ≤ v.length) (hlt : v.length < 4294967296) :
    ∃ wrapper, EthFrameRemove.svc true (framed t pre dst src type v) = .ok (some (wrapper, v)) := by
  have hprotocol : ∃ protocol, octetAt v 9 = .ok protocol := by
    unfold octetAt
    rw [List.getElem?_eq_getElem (by unfold ethMinPayload at hmin; omega)]
    exact ⟨_, rfl⟩
  obtain ⟨protocol, hprotocol⟩ := hprotocol
  unfold EthFrameRemove.svc EthFrameRemove.unwrap
  rw [if_pos rfl, framed_getEtherType hpre htype, ok_bind, framed_wrapInnerPDU hpre hlt]
  simp only
  split
  · rw [hprotocol, ok_bind]
    exact ⟨_, rfl⟩
  · split
    · exact ⟨_, rfl⟩
    · split
      · exact ⟨_, rfl⟩
      · exact ⟨_, rfl⟩

end Removed

/-! ## What a frame says of itself -/

section Says

variable (hpre : pre.length = t.preambleLength)

include hpre

theorem framed_lengthField (htype : type ≤ 1500) :
    EthernetFrame.getExpectedLength (framed t pre dst src type v) = .ok (plainHeader t + type) := by
  unfold EthernetFrame.getExpectedLength EthernetFrame.extractPayloadLength
  rw [framed_getEtherType hpre (by omega), ok_bind, if_pos htype]
  rfl

theorem framed_totalLength : EthernetFrame.getExpectedLength (framed t pre dst src ethIPv4 v) = (do
    let len ← toU16 (v.drop 2)
    return plainHeader t + len) := by
  have hbehind : (framed t pre dst src ethIPv4 v).unit.drop ((framed t pre dst src ethIPv4 v).ptrPayload + 2) =
      v.drop 2 := by
    rw [← List.drop_drop, framed_payload hpre]
  unfold EthernetFrame.getExpectedLength EthernetFrame.extractPayloadLength
  rw [framed_getEtherType hpre (by decide), ok_bind, if_neg (by decide), if_pos rfl, hbehind]
  rfl

/-- When a frame tells its length. -/
theorem framed_expectedLength_iff (htype : type < 65536) :
    (∀ etherType, (framed t pre dst src type v).getEtherType = .ok etherType →
      etherType ≤ 1500 ∨ etherType = ethIPv4 →
        EthernetFrame.getExpectedLength (framed t pre dst src type v) =
          .ok (framed t pre dst src type v).unit.length) ↔
    (type ≤ 1500 → type = v.length) ∧ (type = ethIPv4 → toU16 (v.drop 2) = .ok v.length) := by
  have hlength : (framed t pre dst src type v).unit.length = plainHeader t + v.length := framed_length hpre
  constructor
  · intro h
    have h := h type (framed_getEtherType hpre htype)
    rw [hlength] at h
    refine ⟨fun hle => ?_, ?_⟩
    · have hexpected := h (.inl hle)
      rw [framed_lengthField hpre hle] at hexpected
      exact Nat.add_left_cancel (Except.ok.inj hexpected)
    · rintro rfl
      have hexpected := h (.inr rfl)
      rw [framed_totalLength hpre] at hexpected
      obtain ⟨len, hlen, hsum⟩ := bind_ok hexpected
      rw [hlen, Nat.add_left_cancel (Except.ok.inj hsum)]
  · rintro ⟨hfield, htotal⟩ etherType hetherType hcases
    obtain rfl := Except.ok.inj ((framed_getEtherType hpre htype).symm.trans hetherType)
    rw [hlength]
    obtain hle | rfl := hcases
    · rw [framed_lengthField hpre hle, hfield hle]
    · rw [framed_totalLength hpre, htotal rfl]
      rfl

/-- A tap frame with a type of its own does not repeat it in its preamble. -/
theorem framed_tap (ht : t = .linuxTap) (htap : pre.drop 2 = fromU16 ethMaxType) (htype : type < ethMaxType) :
    EthernetFrame.isExpectedType (framed t pre dst src type v) ≠ .ok true := by
  intro htrue
  unfold EthernetFrame.isExpectedType at htrue
  split at htrue
  · cases htrue
  · rw [if_pos (show (framed t pre dst src type v).frameType = .linuxTap from ht)] at htrue
    obtain ⟨preamble, -, htrue⟩ := bind_ok htrue
    split at htrue
    · obtain ⟨preambleType, hpreambleType, htrue⟩ := bind_ok htrue
      obtain ⟨etherType, hetherType, hagrees⟩ := bind_ok htrue
      obtain rfl := Except.ok.inj ((framed_getEtherType hpre (by unfold ethMaxType at htype; omega)).symm.trans
        hetherType)
      have hrepeated : (framed t pre dst src type v).unit.drop 2 =
          fromU16 ethMaxType ++ (dst.address ++ (src.address ++ (fromU16 type ++ v))) := by
        unfold framed plain
        simp only
        rw [List.drop_append_of_le_length (by rw [hpre, ht]; decide), htap]
      rw [hrepeated, toU16_fromU16 _ (by decide)] at hpreambleType
      obtain rfl := Except.ok.inj hpreambleType
      have heq := eq_of_beq (Except.ok.inj hagrees)
      omega
    · cases htrue

/-- Other frames are recognised by their type. -/
theorem framed_recognised (ht : t ≠ .linuxTap) (htype : type = ethIPv4 ∨ type = ethARP)
    (hmin : ethMinPayload ≤ v.length) : EthernetFrame.isExpectedType (framed t pre dst src type v) = .ok true := by
  have hlt : type < 65536 := by
    obtain rfl | rfl := htype
    · decide
    · decide
  have hlong : ¬ (framed t pre dst src type v).unit.length < ethMinLen := by
    rw [framed_length hpre]
    unfold plainHeader ethMinLen
    unfold ethMinPayload at hmin
    omega
  unfold EthernetFrame.isExpectedType
  rw [if_neg hlong, if_neg (show ¬ (framed t pre dst src type v).frameType = .linuxTap from ht),
    framed_getEtherType hpre hlt, ok_bind]
  obtain rfl | rfl := htype
  · rfl
  · rfl

end Says

/-! ## Main result -/

/-- The type of a packet that has to be recognised is its own. -/
theorem typeField_recognised (c : Configured) (hcls : p.cls = .ipv4 ∨ p.cls = .arp) :
    c.typeField p = ethIPv4 ∨ c.typeField p = ethARP := by
  unfold Configured.typeField Payload.enetType
  obtain hcls | hcls := hcls
  · rw [hcls]
    exact .inl rfl
  · rw [hcls]
    exact .inr rfl

section Main

variable {c : Configured} {s : EthFrameAdd}

theorem plainHeader_bounds (t : FrameType) : 14 ≤ plainHeader t ∧ plainHeader t ≤ 22 := by
  cases t <;> decide

theorem plainHeader_inj {t t' : FrameType} (h : plainHeader t = plainHeader t') : t = t' := by
  cases t <;> cases t' <;> first | rfl | cases h

/-- With a template of another frame type no payload comes out as it went in. -/
theorem fresh_of_frames (hs : Follows c s) (hmin : ethMinPayload ≤ p.unit.length) (h : Frames s c p) :
    c.builtFor = c.frameType ∧ p.unit.length < 4294967296 := by
  obtain ⟨frame, hsvc, hframe⟩ := h
  obtain ⟨hfits, hlength, hframeType, htypeLen⟩ := svc_inv hs hmin hsvc
  obtain ⟨wrapper, hremoved⟩ := hframe.removed
  have hwrapped := congrArg List.length (removed_eq hremoved)
  have hptr : frame.ptrPayload = plainHeader c.frameType := by
    unfold Frame.ptrPayload Frame.ptrEtherType Frame.ptrSrcAddr Frame.ptrDstAddr plainHeader
    rw [hframeType, htypeLen]
    rfl
  have hroom : frame.calculatePayloadLength =
      sizeDiff (plainHeader c.builtFor + p.unit.length) (plainHeader c.frameType) % 4294967296 := by
    unfold Frame.calculatePayloadLength Frame.calculateHeaderLength
    rw [hframeType, htypeLen, hlength]
    rfl
  unfold EthernetFrame.wrapInnerPDU at hwrapped
  rw [List.length_take, List.length_drop, hlength, hptr, hroom] at hwrapped
  have hb := plainHeader_bounds c.builtFor
  have ht := plainHeader_bounds c.frameType
  unfold ethMinPayload at hmin
  unfold sizeDiff at hfits hwrapped
  rw [if_pos (by omega)] at hfits hwrapped
  rw [Nat.min_eq_left (Nat.mod_le _ _)] at hwrapped
  -- a shorter header leaves room for more octets than there are, and a longer one for fewer
  have hheader : plainHeader c.builtFor = plainHeader c.frameType := by omega
  refine ⟨plainHeader_inj hheader, ?_⟩
  rw [hheader] at hfits
  omega

/-- **A payload is framed in a way that can be undone, exactly where the template is of the frame type, the lengths
agree and a tap does not have to recognise it.** -/
theorem frames_iff (hs : Follows c s) (hmin : ethMinPayload ≤ p.unit.length) : Frames s c p ↔ Framable c p := by
  constructor
  · intro h
    obtain ⟨hfresh, hlt⟩ := fresh_of_frames hs hmin h
    obtain ⟨pre, hpre, htap, hsvc⟩ := svc_fresh hs hfresh hmin hlt
    obtain ⟨frame, hsvc', hframe⟩ := h
    obtain rfl := Option.some.inj (Except.ok.inj (hsvc.symm.trans hsvc'))
    obtain ⟨hfield, htotal⟩ := (framed_expectedLength_iff hpre (typeField_lt hs)).1 hframe.expectedLength
    refine ⟨hfresh, hlt, fun hcls ht => ?_, hfield, htotal⟩
    refine framed_tap hpre ht (htap ht) ?_ (hframe.expectedType hcls)
    obtain htype | htype := typeField_recognised c hcls
    · rw [htype]
      decide
    · rw [htype]
      decide
  · intro h
    obtain ⟨pre, hpre, -, hsvc⟩ := svc_fresh hs h.fresh hmin h.length_lt
    refine ⟨_, hsvc, framed_dst hpre, framed_src hpre, ?_, ?_, ?_⟩
    · exact (framed_expectedLength_iff hpre (typeField_lt hs)).2 ⟨h.lengthField, h.totalLength⟩
    · exact fun hcls => framed_recognised hpre (h.notTap hcls) (typeField_recognised c hcls) hmin
    · exact framed_removed hpre (typeField_lt hs) hmin h.length_lt

/-- **Framing after any reconfiguration.** Every call of a setter returns, and then a payload that is not too short is
framed with the addresses, tells its length and its type, and is taken out again as it was, exactly where it is
`Framable`. -/
theorem framing_iff {behind drawnDst drawnSrc : ℕ → Octet} {cfg : AddConfig} {s₀ : EthFrameAdd}
    (hnew : EthFrameAdd.new behind drawnDst drawnSrc cfg = .ok s₀) : ∃ dst src,
      s₀.getDstMAC = .ok dst ∧ s₀.getSrcMAC = .ok src ∧
      ∀ calls, ∃ s, s₀.run calls = .ok s ∧ ∀ p : Payload, ethMinPayload ≤ p.unit.length →
        (Frames s ((Configured.initially s₀ dst src).afterAll calls) p ↔
          Framable ((Configured.initially s₀ dst src).afterAll calls) p) := by
  obtain ⟨dst, src, hfollows⟩ := new_follows hnew
  refine ⟨dst, src, hfollows.dst, hfollows.src, fun calls => ?_⟩
  obtain ⟨s, hrun, hs⟩ := run_follows hfollows calls
  exact ⟨s, hrun, fun p hmin => frames_iff hs hmin⟩

/-- An address that is set behind the frame type brings the template up to it. -/
theorem framing_iff_ieee : ∃ s₀ s dst src, EthFrameAdd.new (fun _ => 0) (fun _ => 1) (fun _ => 2) {} = .ok s₀ ∧
    s₀.run [(fun _ => 0, .setFrameType .ieee), (fun _ => 0, .setSrcMAC ⟨[7, 8, 9, 10, 11, 12], rfl⟩)] = .ok s ∧
    Frames s ((Configured.initially s₀ dst src).afterAll
      [(fun _ => 0, .setFrameType .ieee), (fun _ => 0, .setSrcMAC ⟨[7, 8, 9, 10, 11, 12], rfl⟩)])
      ⟨.other, newUnit 46⟩ := by
  obtain ⟨s₀, hnew⟩ : ∃ s₀, EthFrameAdd.new (fun _ => 0) (fun _ => 1) (fun _ => 2) {} = .ok s₀ := ⟨_, rfl⟩
  obtain ⟨dst, src, -, -, h⟩ := framing_iff hnew
  obtain ⟨s, hrun, hframes⟩ := h
    [(fun _ => 0, .setFrameType .ieee), (fun _ => 0, .setSrcMAC ⟨[7, 8, 9, 10, 11, 12], rfl⟩)]
  have hdefault : s₀.getDefaultPayloadType = 0 := by
    obtain rfl := Except.ok.inj hnew
    rfl
  have htype : ((Configured.initially s₀ dst src).afterAll [(fun _ => 0, .setFrameType .ieee),
      (fun _ => 0, .setSrcMAC ⟨[7, 8, 9, 10, 11, 12], rfl⟩)]).typeField ⟨.other, newUnit 46⟩ = 46 :=
    if_neg fun h => h.2 hdefault
  refine ⟨s₀, s, dst, src, hnew, hrun, (hframes ⟨.other, newUnit 46⟩ (by decide)).2 ?_⟩
  exact {
    fresh := rfl
    length_lt := by decide
    notTap := fun h => by cases h <;> contradiction
    lengthField := fun _ => htype
    totalLength := fun h => by
      rw [htype] at h
      cases h }

/-- The frame type alone is set: the template keeps the header of the old one, and a payload of 46 octets does not fit
behind the new one. -/
theorem setFrameType_stale : ∃ s₀ s, EthFrameAdd.new (fun _ => 0) (fun _ => 1) (fun _ => 2) {} = .ok s₀ ∧
    s₀.run [(fun _ => 0, .setFrameType .linuxTap)] = .ok s ∧
    s.svc true ⟨.ipv4, newUnit 46⟩ = .error (.bufferOverflow (bufferOverflowMsg "Data Field" 46 42)) :=
  ⟨_, _, rfl, rfl, by decide +kernel⟩

end Main

end ChannelEmulator.Ethernet
