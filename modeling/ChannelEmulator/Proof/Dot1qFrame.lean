import ChannelEmulator.Framing.Run
import ChannelEmulator.Proof.UnitData
import ChannelEmulator.Spec.Dot1qFrame

/-!
# What an 802.1q frame is built of

* `build_eq`: the octets of a frame.
* `build_holds_iff`: **a frame is built of every payload that is not too short, and holds what it is built
  of**: the addresses, the tag, the payload type and the payload, each at its place, and nothing behind them.
-/

namespace ChannelEmulator.Ethernet

open Framing

namespace Frame

/-! ## What no step changes -/

/-- A step that keeps the type of a frame and its length. -/
def Same (f g : Frame) : Prop :=
  g.unit.length = f.unit.length ∧ g.frameType = f.frameType ∧ g.typeLen = f.typeLen

variable {f g h : Frame}

theorem Same.trans (h₁ : Same f g) (h₂ : Same g h) : Same f h :=
  ⟨h₂.1.trans h₁.1, h₂.2.1.trans h₁.2.1, h₂.2.2.trans h₁.2.2⟩

theorem store_same {i : ℕ} {octets : Bytes} (hok : f.store i octets = .ok g) : Same f g := by
  obtain ⟨unit, hunit, hg⟩ := bind_ok hok
  obtain rfl := Except.ok.inj hg
  unfold storeAt at hunit
  split at hunit
  · cases hunit
  · next hlen =>
    obtain rfl := Except.ok.inj hunit
    exact ⟨overwrite_length (by omega), rfl, rfl⟩

theorem copy_fits {i : ℕ} {octets : Bytes} (hok : f.copy i octets = .ok g) :
    i + octets.length ≤ f.unit.length ∧ Same f g := by
  obtain ⟨unit, hunit, hg⟩ := bind_ok hok
  obtain rfl := Except.ok.inj hg
  unfold copyUnit at hunit
  split at hunit
  · cases hunit
  · next hlen =>
    obtain rfl := Except.ok.inj hunit
    exact ⟨by omega, overwrite_length (by omega), rfl, rfl⟩

theorem markPreamble_same {n : ℕ} (hok : f.markPreamble n = .ok g) : Same f g := by
  unfold markPreamble at hok
  split at hok
  · obtain ⟨ptr, -, hstore⟩ := bind_ok hok
    exact store_same hstore
  · obtain rfl := Except.ok.inj hok
    exact ⟨rfl, rfl, rfl⟩

theorem setTag_same {n : ℕ} (hok : f.setTag n = .ok g) : Same f g := by
  obtain ⟨ptr, -, hstore⟩ := bind_ok hok
  exact store_same hstore

theorem setEther8021qType_same {n : ℕ} (hok : f.setEther8021qType n = .ok g) : Same f g := by
  obtain ⟨ptr, -, hstore⟩ := bind_ok hok
  exact store_same hstore

/-- The payload of a frame is not too short, and fits behind the header. -/
theorem setPayload_fits {p : Payload} (hok : f.setPayload p = .ok g) :
    ethMinPayload ≤ p.unit.length ∧ f.ptrPayload + p.unit.length ≤ f.unit.length := by
  unfold setPayload at hok
  split at hok
  · cases hok
  · next hmin =>
    obtain ⟨f', hdata, -⟩ := bind_ok hok
    unfold setData at hdata
    split at hdata
    · exact ⟨by omega, (copy_fits hdata).1⟩
    · cases hdata

end Frame

/-- The length of the header of a tagged frame. -/
def FrameType.headerLength (t : FrameType) : ℕ := t.preambleLength + ethAddrLen * 2 + type8021qLen

variable {t : FrameType} {behind : ℕ → Octet} {dst src : MacAddress} {p : Payload} {type tag : UInt16}

/-- The frame that `build` starts from. -/
def start (t : FrameType) (u : Bytes) : Frame := ⟨t, type8021qLen, true, u⟩

/-- The octets that a frame is given. -/
def given (t : FrameType) (behind : ℕ → Octet) (p : Payload) : Bytes :=
  setUnitLength behind [] (estimateLength p.unit.length t.preambleLength type8021qLen)

theorem build_steps : (Frame.new t).build behind dst src p type tag = (do
    let f ← (start t (given t behind p)).markPreamble type.toNat
    let f ← f.setDstAddr dst
    let f ← f.setSrcAddr src
    let f ← f.setEtherType eth8021q
    let f ← f.setTag tag.toNat
    let f ← f.setEther8021qType type.toNat
    f.setPayload p) := rfl

theorem given_length :
    (given t behind p).length = (p.unit.length + t.preambleLength + type8021qLen + ethAddrLen * 2) % 4294967296 :=
  setUnitLength_length ..

/-- What a payload of a frame is like. -/
theorem payload_of_build {g : Frame} (hok : (Frame.new t).build behind dst src p type tag = .ok g) :
    ethMinPayload ≤ p.unit.length ∧ t.headerLength + p.unit.length < 4294967296 := by
  rw [build_steps] at hok
  obtain ⟨f₁, h₁, hok⟩ := bind_ok hok
  obtain ⟨f₂, h₂, hok⟩ := bind_ok hok
  obtain ⟨f₃, h₃, hok⟩ := bind_ok hok
  obtain ⟨f₄, h₄, hok⟩ := bind_ok hok
  obtain ⟨f₅, h₅, hok⟩ := bind_ok hok
  obtain ⟨f₆, h₆, hok⟩ := bind_ok hok
  have hsame : (start t (given t behind p)).Same f₆ :=
    ((((((Frame.markPreamble_same h₁).trans (Frame.copy_fits h₂).2).trans (Frame.copy_fits h₃).2).trans
      (Frame.store_same h₄)).trans (Frame.setTag_same h₅)).trans (Frame.setEther8021qType_same h₆))
  obtain ⟨hlen, htype, htypeLen⟩ := hsame
  obtain ⟨hmin, hfit⟩ := Frame.setPayload_fits hok
  have hptr : f₆.ptrPayload = t.headerLength := by
    unfold Frame.ptrPayload Frame.ptrEtherType Frame.ptrSrcAddr Frame.ptrDstAddr FrameType.headerLength
    rw [htype, htypeLen]
    unfold start
    simp only
    omega
  refine ⟨hmin, ?_⟩
  -- the length that the frame is given is the estimate, of 32 bits
  rw [hlen, show (start t (given t behind p)).unit = given t behind p from rfl, given_length, hptr] at hfit
  unfold FrameType.headerLength at hfit ⊢
  omega

/-! ## The octets of a frame -/

section Part

variable {l : ℕ} {k : Bool} {pre old src v : Bytes} {i : ℕ}

/-- A write to one part of a unit. -/
theorem store_part (hi : i = pre.length) (h : old.length = src.length) :
    (Frame.mk t l k (pre ++ (old ++ v))).store i src = .ok ⟨t, l, k, pre ++ (src ++ v)⟩ := by
  unfold Frame.store
  simp only
  rw [hi, ← List.append_assoc, storeAt_append pre old src v h, List.append_assoc]
  rfl

theorem copy_part (hi : i = pre.length) (h : old.length = src.length) :
    (Frame.mk t l k (pre ++ (old ++ v))).copy i src = .ok ⟨t, l, k, pre ++ (src ++ v)⟩ := by
  unfold Frame.copy
  simp only
  rw [hi, ← List.append_assoc, copyUnit_ok (by simp only [List.length_append]; omega),
    overwrite_append pre old src v h, List.append_assoc]
  rfl

end Part

/-- The parts of a unit that is long enough. -/
theorem exists_parts (u : Bytes) {l n : ℕ} (h : u.length = l + n) :
    ∃ a b, u = a ++ b ∧ a.length = l ∧ b.length = n := by
  refine ⟨u.take l, u.drop l, (List.take_append_drop l u).symm, ?_, ?_⟩
  · rw [List.length_take]
    omega
  · rw [List.length_drop]
    omega

variable {pre d s y g z b w : Bytes}

/-- The type field behind the preamble and the addresses. -/
theorem getEtherType_part (hpre : pre.length = t.preambleLength) (hd : d.length = ethAddrLen)
    (hs : s.length = ethAddrLen) {n : ℕ} (hn : n < 65536) :
    (start t (pre ++ (d ++ (s ++ (fromU16 n ++ w))))).getEtherType = .ok n := by
  have hlen : (pre ++ d ++ s).length = (start t (pre ++ (d ++ (s ++ (fromU16 n ++ w))))).ptrEtherType := by
    simp only [List.length_append, hpre, hd, hs]
    rfl
  have hdrop : (pre ++ (d ++ (s ++ (fromU16 n ++ w)))).drop
      (start t (pre ++ (d ++ (s ++ (fromU16 n ++ w))))).ptrEtherType = fromU16 n ++ w := by
    rw [← hlen, ← List.append_assoc, ← List.append_assoc, List.drop_left]
  unfold Frame.getEtherType
  exact (congrArg toU16 hdrop).trans (toU16_fromU16 w hn)

/-- The tag of a frame of the tagged type. -/
theorem ptrTag_part (hpre : pre.length = t.preambleLength) (hd : d.length = ethAddrLen)
    (hs : s.length = ethAddrLen) :
    (start t (pre ++ (d ++ (s ++ (fromU16 eth8021q ++ w))))).ptrTag = .ok (t.preambleLength + 14) := by
  unfold Frame.ptrTag Frame.isValid8021q Frame.is8021q
  rw [getEtherType_part hpre hd hs (by decide)]
  rfl

/-- A tap preamble ends with the payload type. -/
theorem markPreamble_part (type : UInt16) (hpre : pre.length = t.preambleLength) :
    ∃ pre' : Bytes, pre'.length = t.preambleLength ∧
      (start t (pre ++ w)).markPreamble type.toNat = .ok (start t (pre' ++ w)) := by
  by_cases ht : t = .linuxTap
  · obtain ⟨a, a', rfl, ha, ha'⟩ := exists_parts pre (l := 2) (n := 2) (by rw [hpre, ht]; rfl)
    refine ⟨a ++ fromU16 type.toNat, ?_, ?_⟩
    · rw [List.length_append, ha, ht]
      rfl
    · unfold Frame.markPreamble Frame.setPreambleType Frame.ptrPreambleType
      have hftype : ∀ u, (start t u).frameType = .linuxTap := fun u => ht
      rw [if_pos (hftype _), if_pos (hftype _), ok_bind, List.append_assoc, List.append_assoc]
      exact store_part ha.symm ha'
  · refine ⟨pre, hpre, ?_⟩
    unfold Frame.markPreamble
    exact if_neg ht

/-- **The octets of a frame**: the preamble, the addresses, the type of the payload, the tag, the payload type
and the payload. -/
theorem build_eq (hmin : ethMinPayload ≤ p.unit.length) (hmax : t.headerLength + p.unit.length < 4294967296) :
    ∃ pre : Bytes, pre.length = t.preambleLength ∧ (Frame.new t).build behind dst src p type tag =
      .ok (start t (pre ++ (dst.address ++ (src.address ++ (fromU16 p.enetType ++ (fromU16 tag.toNat ++
        (fromU16 type.toNat ++ p.unit))))))) := by
  have hlen : (given t behind p).length =
      t.preambleLength + (ethAddrLen + (ethAddrLen + (2 + (2 + (2 + p.unit.length))))) := by
    rw [given_length]
    unfold FrameType.headerLength type8021qLen ethAddrLen at hmax
    unfold type8021qLen ethAddrLen
    omega
  -- the octets given, in the parts that the setters write
  obtain ⟨pre₀, u, hu, hpre₀, hlen⟩ := exists_parts _ hlen
  obtain ⟨d, u, rfl, hd, hlen⟩ := exists_parts u hlen
  obtain ⟨s, u, rfl, hs, hlen⟩ := exists_parts u hlen
  obtain ⟨y, u, rfl, hy, hlen⟩ := exists_parts u hlen
  obtain ⟨g, u, rfl, hg, hlen⟩ := exists_parts u hlen
  obtain ⟨z, b, rfl, hz, hb⟩ := exists_parts u hlen
  obtain ⟨pre, hpre, hmark⟩ := markPreamble_part type (w := d ++ (s ++ (y ++ (g ++ (z ++ b))))) hpre₀
  refine ⟨pre, hpre, ?_⟩
  have hdst : dst.address.length = ethAddrLen := dst.length_eq
  have hsrc : src.address.length = ethAddrLen := src.length_eq
  have h₂ : (start t (pre ++ (d ++ (s ++ (y ++ (g ++ (z ++ b))))))).setDstAddr dst =
      .ok (start t (pre ++ (dst.address ++ (s ++ (y ++ (g ++ (z ++ b))))))) :=
    copy_part hpre.symm (hd.trans hdst.symm)
  have h₃ : (start t (pre ++ (dst.address ++ (s ++ (y ++ (g ++ (z ++ b))))))).setSrcAddr src =
      .ok (start t (pre ++ (dst.address ++ (src.address ++ (y ++ (g ++ (z ++ b))))))) := by
    rw [← List.append_assoc pre, ← List.append_assoc pre]
    refine copy_part ?_ (hs.trans hsrc.symm)
    rw [List.length_append, hpre, hdst]
    rfl
  -- the type is written twice, the second time by `setPayload`
  have htype : ∀ old new v : Bytes, old.length = new.length →
      (start t (pre ++ (dst.address ++ (src.address ++ (old ++ v))))).store (t.preambleLength + 12) new =
        .ok (start t (pre ++ (dst.address ++ (src.address ++ (new ++ v))))) := by
    intro old new v hold
    simp only [← List.append_assoc]
    rw [List.append_assoc _ old, List.append_assoc _ new]
    refine store_part ?_ hold
    simp only [List.length_append, hpre, hdst, hsrc]
    rfl
  have h₅ : (start t (pre ++ (dst.address ++ (src.address ++ (fromU16 eth8021q ++ (g ++ (z ++ b))))))).setTag
      tag.toNat = .ok (start t (pre ++ (dst.address ++ (src.address ++ (fromU16 eth8021q ++
        (fromU16 tag.toNat ++ (z ++ b))))))) := by
    unfold Frame.setTag
    rw [ptrTag_part hpre hdst hsrc, ok_bind]
    simp only [← List.append_assoc]
    rw [List.append_assoc _ z, List.append_assoc _ g, List.append_assoc _ z, List.append_assoc _ (fromU16 tag.toNat)]
    refine store_part ?_ hg
    simp only [List.length_append, hpre, hdst, hsrc]
    rfl
  have h₆ : (start t (pre ++ (dst.address ++ (src.address ++ (fromU16 eth8021q ++
      (fromU16 tag.toNat ++ (z ++ b))))))).setEther8021qType type.toNat = .ok (start t (pre ++ (dst.address ++
        (src.address ++ (fromU16 eth8021q ++ (fromU16 tag.toNat ++ (fromU16 type.toNat ++ b))))))) := by
    unfold Frame.setEther8021qType Frame.ptrEther8021qType
    rw [ptrTag_part hpre hdst hsrc, ok_bind]
    simp only [← List.append_assoc]
    rw [List.append_assoc _ z, List.append_assoc _ (fromU16 type.toNat)]
    refine store_part ?_ hz
    simp only [List.length_append, hpre, hdst, hsrc]
    rfl
  have h₇ : (start t (pre ++ (dst.address ++ (src.address ++ (fromU16 eth8021q ++ (fromU16 tag.toNat ++
      (fromU16 type.toNat ++ b))))))).setPayload p = .ok (start t (pre ++ (dst.address ++ (src.address ++
        (fromU16 p.enetType ++ (fromU16 tag.toNat ++ (fromU16 type.toNat ++ p.unit))))))) := by
    have hroom : (start t (pre ++ (dst.address ++ (src.address ++ (fromU16 eth8021q ++ (fromU16 tag.toNat ++
        (fromU16 type.toNat ++ b))))))).calculatePayloadLength = p.unit.length := by
      have hheader : t.headerLength = t.preambleLength + 18 := rfl
      unfold Frame.calculatePayloadLength Frame.calculateHeaderLength sizeDiff start
      simp only [List.length_append, hpre, hdst, hsrc, hb, fromU16, List.length_cons, List.length_nil]
      unfold type8021qLen ethAddrLen
      rw [if_pos (by omega)]
      omega
    unfold Frame.setPayload Frame.setData
    rw [if_neg (by omega), hroom, if_pos (Nat.le_refl _)]
    have hcopy : (start t (pre ++ (dst.address ++ (src.address ++ (fromU16 eth8021q ++ (fromU16 tag.toNat ++
        (fromU16 type.toNat ++ b))))))).copy (t.preambleLength + 18) p.unit = .ok (start t (pre ++ (dst.address ++
        (src.address ++ (fromU16 eth8021q ++ (fromU16 tag.toNat ++ (fromU16 type.toNat ++ p.unit))))))) := by
      have hahead : t.preambleLength + 18 = (pre ++ dst.address ++ src.address ++ fromU16 eth8021q ++
          fromU16 tag.toNat ++ fromU16 type.toNat).length := by
        simp only [List.length_append, hpre, hdst, hsrc]
        rfl
      have hcopy' := copy_part (t := t) (l := type8021qLen) (k := true) (v := []) hahead hb
      simp only [List.append_nil, List.append_assoc] at hcopy'
      exact hcopy'
    refine (congrArg (fun r : Except Fault Frame => r >>= fun f => Frame.setEtherType f p.enetType) hcopy).trans ?_
    exact htype _ _ _ rfl
  rw [build_steps, hu, hmark, ok_bind, h₂, ok_bind, h₃, ok_bind]
  rw [show (start t (pre ++ (dst.address ++ (src.address ++ (y ++ (g ++ (z ++ b))))))).setEtherType eth8021q =
    .ok (start t (pre ++ (dst.address ++ (src.address ++ (fromU16 eth8021q ++ (g ++ (z ++ b))))))) from
      htype _ _ _ hy, ok_bind, h₅, ok_bind, h₆, ok_bind, h₇]

/-! ## What a frame holds -/

/-- A frame holds what it is built of, with nothing behind the payload. -/
structure Holds (dst src : MacAddress) (p : Payload) (type tag : UInt16) (f : Frame) : Prop where
  dstAddr : (f.unit.drop f.ptrDstAddr).take ethAddrLen = dst.address
  srcAddr : (f.unit.drop f.ptrSrcAddr).take ethAddrLen = src.address
  tag : toU16 (f.unit.drop (f.ptrEtherType + 2)) = .ok tag.toNat
  payloadType : toU16 (f.unit.drop (f.ptrEtherType + 4)) = .ok type.toNat
  payload : f.unit.drop f.ptrPayload = p.unit
  length_eq : f.unit.length = f.calculateHeaderLength + p.unit.length

theorem holds_start (hpre : pre.length = t.preambleLength) {n : ℕ} :
    Holds dst src p type tag (start t (pre ++ (dst.address ++ (src.address ++ (fromU16 n ++ (fromU16 tag.toNat ++
      (fromU16 type.toNat ++ p.unit))))))) := by
  have hdst : dst.address.length = ethAddrLen := dst.length_eq
  have hsrc : src.address.length = ethAddrLen := src.length_eq
  have hdrop : ∀ (k : ℕ) (a v : Bytes), a.length = k → ∀ i, (a ++ v).drop (k + i) = v.drop i := by
    intro k a v ha i
    rw [← List.drop_drop, ← ha, List.drop_left]
  -- what is behind the preamble and the addresses
  have hbehind : ∀ i, (pre ++ (dst.address ++ (src.address ++ (fromU16 n ++ (fromU16 tag.toNat ++
      (fromU16 type.toNat ++ p.unit)))))).drop (t.preambleLength + (ethAddrLen + (ethAddrLen + i))) =
      (fromU16 n ++ (fromU16 tag.toNat ++ (fromU16 type.toNat ++ p.unit))).drop i := by
    intro i
    rw [hdrop _ _ _ hpre, hdrop _ _ _ hdst, hdrop _ _ _ hsrc]
  refine ⟨?_, ?_, ?_, ?_, ?_, ?_⟩
  · exact (congrArg (List.take ethAddrLen) (hdrop _ _ _ hpre 0)).trans (List.take_left' hdst)
  · exact (congrArg (List.take ethAddrLen) ((hdrop _ _ _ hpre (ethAddrLen + 0)).trans (hdrop _ _ _ hdst 0))).trans
      (List.take_left' hsrc)
  · exact (congrArg toU16 (hbehind 2)).trans (toU16_fromU16 _ tag.toNat_lt)
  · exact (congrArg toU16 (hbehind 4)).trans (toU16_fromU16 _ type.toNat_lt)
  · exact hbehind 6
  · unfold Frame.calculateHeaderLength start type8021qLen
    simp only [List.length_append, hpre, hdst, hsrc, fromU16, List.length_cons, List.length_nil]
    unfold ethAddrLen
    omega

/-- **A frame is built of every payload that is not too short and whose frame has a length of 32 bits, and it
holds what it is built of.** -/
theorem build_holds_iff (t : FrameType) (behind : ℕ → Octet) (dst src : MacAddress) (p : Payload)
    (type tag : UInt16) :
    ((∃ f, (Frame.new t).build behind dst src p type tag = .ok f) ↔
      ethMinPayload ≤ p.unit.length ∧ t.headerLength + p.unit.length < 4294967296) ∧
    ∀ f, (Frame.new t).build behind dst src p type tag = .ok f → Holds dst src p type tag f := by
  refine ⟨⟨fun ⟨f, hf⟩ => payload_of_build hf, fun ⟨hmin, hmax⟩ => ?_⟩, fun f hf => ?_⟩
  · obtain ⟨pre, -, hbuild⟩ := build_eq hmin hmax
    exact ⟨_, hbuild⟩
  · obtain ⟨hmin, hmax⟩ := payload_of_build hf
    obtain ⟨pre, hpre, hbuild⟩ := build_eq hmin hmax
    obtain rfl := Except.ok.inj (hbuild.symm.trans hf)
    exact holds_start hpre

/-- A frame with a payload of 46 octets has no octet behind it, and is not told to be of the tagged type. -/
theorem not_tagged :
    ∃ f, (Frame.new .pcap).build (fun _ => 0) ⟨[1, 2, 3, 4, 5, 6], rfl⟩ ⟨[7, 8, 9, 10, 11, 12], rfl⟩
        ⟨.other, newUnit 46⟩ 0x0800 5 = .ok f ∧
      f.unit.drop f.ptrPayload = newUnit 46 ∧ f.is8021q = .ok false ∧
      f.getTag = .error (.runtimeError "Attempted 802.1q operation on non-802.1q frame.") :=
  ⟨_, rfl, by decide +kernel, by decide +kernel, by decide +kernel⟩

end ChannelEmulator.Ethernet
