import ChannelEmulator.Proof.FrameCRC
import ChannelEmulator.Proof.FrameHeader
import ChannelEmulator.Spec.AccessChain
import Mathlib.Data.List.Forall2

/-!
# The TM chain carries access units where its frames have no optional zone in the header

The reception of all frames takes octets to have neither operational control field nor frame
secondary header, and refuses those whose flags say otherwise.

* `transparent_iff`: **when the chain delivers its units**, and accepts every frame: where neither
  is used, or nothing is sent.
-/

namespace ChannelEmulator.TM

open Framing

/-! ## The frames of the sender -/

/-- A frame of the access service: the synchronization flag is set. -/
def accessFrame (c : Channel) (mc vc : Octet) (data trailer : Bytes) : Bytes :=
  unit c mc vc (status c + 8) 0 (data ++ trailer)

theorem status_access (c : Channel) : Status c (status c + 8) := by
  by_cases h : 0 < c.fshSize
  · rw [status, if_pos h]
    exact ⟨by decide, by simp [h]; decide, by decide, by decide⟩
  · rw [status, if_neg h]
    exact ⟨by decide, by simp [h]; decide, by decide, by decide⟩

theorem status_synchronization (c : Channel) : (status c + 8).testBit 3 = true := by
  unfold status
  split <;> decide

variable {c : Channel} {mc vc : Octet} {data trailer : Bytes} {v : Service}

/-- The span behind the data field. -/
def trailerLength (c : Channel) : ℕ := c.nonDataLength - c.ptrData

theorem accessFrame_length (h : trailer.length = trailerLength c) :
    (accessFrame c mc vc data trailer).length = c.nonDataLength + data.length := by
  have := ptrData_le c
  rw [accessFrame, unit_length, List.length_append, h, trailerLength]
  omega

theorem setSynchronizationFlag_frame (count : ℕ) :
    setSynchronizationFlag (frame c count 0 data) true =
      .ok (accessFrame c 0 (UInt8.ofNat count) data (newUnit (trailerLength c))) := by
  rw [frame_eq_unit, accessFrame]
  unfold status
  split
  · exact congrArg Except.ok rfl
  · exact congrArg Except.ok rfl

/-- What `modTM_VC_Gen_Access` makes of a unit. -/
theorem buildAccess_eq (v : Service) (count : Octet) (data : Bytes) :
    v.buildAccess count data =
      .ok (accessFrame v.channel 0 count data (newUnit (trailerLength v.channel))) := by
  have hlen : v.channel.dataLength (frame v.channel count.toNat 0 (newUnit data.length)) =
      data.length := by
    unfold Channel.dataLength
    rw [frame_length, newUnit_length]
    omega
  have hfill : overwrite (newUnit data.length) 0 data = data := by
    have := overwrite_zeros [] data (n := data.length)
    rwa [List.nil_append, List.nil_append, Nat.sub_self, show newUnit 0 = [] by rfl,
      List.append_nil] at this
  have hdata : v.channel.setData (frame v.channel count.toNat 0 (newUnit data.length)) data =
      .ok (frame v.channel count.toNat 0 data) := by
    have hcopy : copyUnit (frame v.channel count.toNat 0 (newUnit data.length))
        (v.channel.ptrData + 0) data =
          .ok (frame v.channel count.toNat 0 (overwrite (newUnit data.length) 0 data)) :=
      copyUnit_frame (by rw [newUnit_length]; omega)
    rw [hfill, Nat.add_zero] at hcopy
    rw [Channel.setData, if_pos (by rw [hlen]), hcopy]
  unfold Service.buildAccess
  rw [initializeFrame_eq]
  simp only [bind, Except.bind]
  rw [hdata]
  simp only
  rw [setFirstHeaderPointer_frame (Nat.zero_le _) (Nat.zero_le _)]
  simp only
  rw [setSynchronizationFlag_frame, UInt8.ofNat_toNat]

theorem setMCFrameCount_access (x : Octet) :
    setMCFrameCount (accessFrame c mc vc data trailer) x = .ok (accessFrame c x vc data trailer) :=
  rfl

theorem getSpacecraftID_access :
    getSpacecraftID (accessFrame c mc vc data trailer) = .ok c.scid := by
  have h : c.scid &&& 0x3ff = c.scid := by
    have := c.scid_le
    unfold maxSpacecraftID at this
    rw [show 0x3ff = 2 ^ 10 - 1 by rfl, Nat.and_two_pow_sub_one_eq_mod]
    omega
  unfold getSpacecraftID accessFrame
  rw [getMCID_unit]
  exact congrArg Except.ok h

theorem getFirstHeaderPointer_access :
    getFirstHeaderPointer (accessFrame c mc vc data trailer) = .ok 0 :=
  getFirstHeaderPointer_unit (status_access c).lt (by decide)

theorem validFrame_access (hfsh : v.channel.fshSize ≤ 64)
    (htrailer : trailer.length = trailerLength v.channel)
    (hlen : v.channel.nonDataLength + data.length = v.frameSize) :
    ValidFrame v (accessFrame v.channel mc vc data trailer) :=
  validFrame_unit (status_access _) hfsh (by decide)
    (by rw [← hlen]; exact accessFrame_length htrailer) (.inr (.inr (Nat.zero_le _)))

theorem data_access (h : trailer.length = trailerLength c) :
    c.data (accessFrame c mc vc data trailer) = data := by
  have hlen : c.dataLength (accessFrame c mc vc data trailer) = data.length := by
    rw [Channel.dataLength, accessFrame_length h]
    omega
  have hfront : (fromU16 (ids c) ++ [mc, vc] ++ fromU16 (2 ^ 11 * (status c + 8) + 0) ++
      fsh c).length = c.ptrData := by
    simp only [fromU16, List.length_append, List.length_cons, List.length_nil, fsh_length]
    unfold Channel.ptrData spanPrimaryHeader
    omega
  unfold Channel.data
  rw [hlen, accessFrame, unit, List.drop_left' hfront, List.take_left]

/-! ## The sender's stages -/

/-- What all modules of a chain are set to leaves room for data. -/
structure Sized (v : Service) : Prop where
  header_le : v.channel.fshSize ≤ maxFSHLen
  room : v.channel.nonDataLength < v.frameSize

/-- A frame that carries a unit of the data field's length. -/
def Bears (v : Service) (data u : Bytes) : Prop :=
  data.length = v.getMRU ∧ ∃ mc vc trailer, trailer.length = trailerLength v.channel ∧
    u = accessFrame v.channel mc vc data trailer

/-- A frame that carries a unit, with its checksum where it has the field. -/
def BearsChecked (v : Service) (data u : Bytes) : Prop :=
  Bears v data u ∧ (v.channel.useFrameErrorControl = true → hasValidCRC u = true)

theorem Sized.total (h : Sized v) (hd : data.length = v.getMRU) :
    v.channel.nonDataLength + data.length = v.frameSize := by
  have := h.room
  rw [hd, Service.getMRU]
  omega

theorem Bears.length_eq {u : Bytes} (hv : Sized v) (h : Bears v data u) :
    u.length = v.frameSize := by
  obtain ⟨hd, mc, vc, trailer, ht, rfl⟩ := h
  rw [accessFrame_length ht, hv.total hd]

theorem Bears.valid {u : Bytes} (hv : Sized v) (h : Bears v data u) : ValidFrame v u := by
  obtain ⟨hd, mc, vc, trailer, ht, rfl⟩ := h
  exact validFrame_access hv.header_le ht (hv.total hd)

theorem Bears.pointer {u : Bytes} (h : Bears v data u) : getFirstHeaderPointer u = .ok 0 := by
  obtain ⟨-, mc, vc, trailer, -, rfl⟩ := h
  exact getFirstHeaderPointer_access

/-- A frame counted and passed on. -/
def counted (k : Tallies) : Tallies :=
  { k with validFrameCount := k.validFrameCount + 1
           currentFrameNumber := incCurrentFrameNumber k.currentFrameNumber }

theorem accessGen_step (k : Tallies) (hd : data.length = v.getMRU) :
    ∃ k' u, v.accessGen k data = .ok (k', [u]) ∧ Bears v data u ∧
      k'.validFrameCount = k.validFrameCount + 1 := by
  have h : v.accessGen k data = .ok (counted k, [accessFrame v.channel 0 k.currentFrameNumber data
      (newUnit (trailerLength v.channel))]) := by
    simp only [Service.accessGen, hd, Service.failed, decide_true, Bool.not_true, Bool.false_and,
      Bool.false_eq_true, if_false, buildAccess_eq, bind, Except.bind, if_true]
    rfl
  exact ⟨_, _, h, ⟨hd, 0, k.currentFrameNumber, _, newUnit_length _, rfl⟩, rfl⟩

theorem mcGen_step (hv : Sized v) (k : Tallies) {u : Bytes} (hu : Bears v data u) :
    ∃ k' u', v.mcGen k u = .ok (k', [u']) ∧ Bears v data u' ∧
      k'.validFrameCount = k.validFrameCount + 1 := by
  have hlen := hu.length_eq hv
  obtain ⟨hd, mc, vc, trailer, ht, rfl⟩ := hu
  have h : v.mcGen k (accessFrame v.channel mc vc data trailer) =
      .ok (counted k, [accessFrame v.channel k.currentFrameNumber vc data trailer]) := by
    simp only [Service.mcGen, hlen, getSpacecraftID_access, setMCFrameCount_access, Service.failed,
      decide_true, Bool.not_true, Bool.false_and, Bool.false_eq_true, if_false, bind, Except.bind,
      if_true, Bool.and_self]
    rfl
  exact ⟨_, _, h, ⟨hd, _, vc, trailer, ht, rfl⟩, rfl⟩

/-- The frame error control field is the last of the frame. -/
theorem errorControl_at {u : Bytes} (hfec : c.useFrameErrorControl = true)
    (hlen : c.nonDataLength ≤ u.length) :
    (if c.useOperationalControl then spanOperationalControlField else 0) + c.ptrData +
      c.dataLength u = u.length - 2 ∧ c.ptrData + 2 ≤ c.nonDataLength := by
  revert hlen
  unfold Channel.dataLength Channel.ptrData Channel.nonDataLength spanFrameErrorControlField
    spanPrimaryHeader
  rw [hfec, if_pos rfl]
  omega

theorem take_ahead (pre t : Bytes) {k : ℕ} (h : k ≤ t.length) :
    (pre ++ t).take ((pre ++ t).length - k) = pre ++ t.take (t.length - k) := by
  rw [List.take_append, List.length_append, List.take_of_length_le (by omega),
    show pre.length + t.length - k - pre.length = t.length - k by omega]

/-- The checksum takes the place of the last two octets behind the data field. -/
theorem addErrorControl_bears (hv : Sized v) {u : Bytes} (hu : Bears v data u) :
    ∃ u', v.addErrorControlIfPossible u = .ok u' ∧ BearsChecked v data u' := by
  by_cases hfec : v.channel.useFrameErrorControl = true
  · have hlen := hu.length_eq hv
    have hroom := hv.room
    obtain ⟨hat, hspan⟩ := errorControl_at hfec (u := u) (by omega)
    obtain ⟨hstore, hcrc⟩ := AOS.store_crc (u := u) (by omega)
    have h : v.addErrorControlIfPossible u =
        .ok (u.take (u.length - 2) ++ fromU16 (getFrameCRC16 u).toNat) := by
      unfold Service.addErrorControlIfPossible Channel.setFrameErrorControl
      rw [if_pos hfec, hfec, hat]
      exact hstore
    refine ⟨_, h, ?_, fun _ => hcrc⟩
    obtain ⟨hd, mc, vc, trailer, ht, rfl⟩ := hu
    have htl : 2 ≤ trailer.length := by rw [ht, trailerLength]; omega
    refine ⟨hd, mc, vc, trailer.take (trailer.length - 2) ++
      fromU16 (getFrameCRC16 (accessFrame v.channel mc vc data trailer)).toNat, ?_, ?_⟩
    · rw [List.length_append, List.length_take, ← ht]
      simp only [fromU16, List.length_cons, List.length_nil]
      omega
    · have hsplit : ∀ t, accessFrame v.channel mc vc data t =
          accessFrame v.channel mc vc data [] ++ t := by
        intro t
        simp only [accessFrame, unit, List.append_assoc, List.append_nil]
      rw [hsplit (_ ++ _), ← List.append_assoc, ← take_ahead _ _ htl, ← hsplit]
  · refine ⟨u, ?_, hu, fun h => absurd h hfec⟩
    unfold Service.addErrorControlIfPossible
    rw [if_neg hfec]

theorem afGen_step (hv : Sized v) (k : Tallies) {u : Bytes} (hu : Bears v data u) :
    ∃ k' u', v.afGen k u = .ok (k', [u']) ∧ BearsChecked v data u' ∧
      k'.validFrameCount = k.validFrameCount + 1 := by
  obtain ⟨u', h, hu'⟩ := addErrorControl_bears hv hu
  have hstep : v.afGen k u = .ok ({ k with validFrameCount := k.validFrameCount + 1 }, [u']) := by
    simp only [Service.afGen, hu.length_eq hv, Service.failed, decide_true, Bool.not_true,
      Bool.false_and, Bool.false_eq_true, if_false, bind, Except.bind, if_true, h]
    rfl
  exact ⟨_, _, hstep, hu', rfl⟩

/-- **The sender makes one frame of each unit**, in order. -/
theorem emit_ok (hv : Sized v) {units : List Bytes} (hu : ∀ d ∈ units, d.length = v.getMRU) :
    ∃ octets, v.emit units = .ok octets ∧ List.Forall₂ (BearsChecked v) units octets := by
  have h₀ : List.Forall₂ (fun d a => a = d ∧ d.length = v.getMRU) units units :=
    List.forall₂_same.2 fun d hd => ⟨rfl, hu d hd⟩
  obtain ⟨_, frames₁, hrun₁, h₁, -⟩ := runAll_forall₂ (f := v.accessGen)
    (fun k d a h => by obtain ⟨rfl, hd⟩ := h; exact accessGen_step k hd) h₀ {}
  obtain ⟨_, frames₂, hrun₂, h₂, -⟩ := runAll_forall₂
    (fun k d u (h : Bears v d u) => mcGen_step hv k h) h₁ {}
  obtain ⟨_, octets, hrun₃, h₃, -⟩ := runAll_forall₂
    (fun k d u (h : Bears v d u) => afGen_step hv k h) h₂ {}
  refine ⟨octets, ?_, h₃⟩
  unfold Service.emit
  rw [hrun₁]
  simp only [bind, Except.bind]
  rw [hrun₂]
  simp only
  rw [hrun₃]
  rfl

/-! ## The receiver's stages -/

/-- The frames have no field that depends on the virtual channel. -/
def Plain (c : Channel) : Prop := c.useOperationalControl = false ∧ c.fshSize = 0

theorem template_eq (h : Plain v.channel) : v.template = v.channel := by
  obtain ⟨⟨scid, vcid, ocf, fec, fsh, hs, hc⟩, size, drop⟩ := v
  obtain ⟨rfl, rfl⟩ := h
  rfl

theorem validateFrame_valid {u : Bytes} (hlen : u.length = v.frameSize)
    (hvalid : isValid v.channel u = .ok 1) (k : Tallies) : v.validateFrame k u = .ok (k, true) := by
  unfold Service.validateFrame
  rw [if_neg (by simpa using hlen), hvalid]
  rfl

theorem afRcv_step (hv : Sized v) (hplain : Plain v.channel) (k : Service.AllFrames) {u : Bytes}
    (hu : BearsChecked v data u) : ∃ k' u', v.afRcv k u = .ok (k', [u']) ∧ Bears v data u' ∧
      k'.tallies.validFrameCount = k.tallies.validFrameCount + 1 := by
  obtain ⟨hbears, hcrc⟩ := hu
  have hvalid := hbears.valid hv
  have hframe : Service.validateFrame { v with channel := v.template } k.tallies u =
      .ok (k.tallies, true) := by
    rw [template_eq hplain]
    exact validateFrame_valid hvalid.length_eq hvalid.valid k.tallies
  have hchecked : (v.channel.useFrameErrorControl && !hasValidCRC u) = false := by
    cases hfec : v.channel.useFrameErrorControl
    · rfl
    · rw [hcrc hfec]
      rfl
  have h : v.afRcv k u = .ok ({ k with tallies :=
      { k.tallies with validFrameCount := k.tallies.validFrameCount + 1 } }, [u]) := by
    simp only [Service.afRcv, Service.checkAllFrames, hframe, hchecked, Service.failed, hbears.pointer,
      bind, Except.bind, pure, Except.pure, Bool.not_true, Bool.false_and, Bool.false_eq_true, if_false]
    rfl
  exact ⟨_, _, h, hbears, rfl⟩

/-- The operational control flag or the secondary header flag is set where the octets are taken to
have no such field. -/
theorem isValid_template (hplain : ¬Plain v.channel) {u : Bytes} (hu : Bears v data u) :
    ∃ n, isValid v.template u = .ok n ∧ ¬0 < n := by
  obtain ⟨-, mc, vc, trailer, -, rfl⟩ := hu
  have hst := status_access v.channel
  unfold isValid accessFrame
  simp only [getTFVN_unit, getOCFF_unit, getSecondaryHeaderFlag_unit hst.lt (show 0 < 2 ^ 11 by decide),
    getSynchronizationFlag_unit hst.lt (show 0 < 2 ^ 11 by decide),
    getPacketOrderFlag_unit hst.lt (show 0 < 2 ^ 11 by decide),
    getSegmentLengthID_unit hst.lt (show 0 < 2 ^ 11 by decide), hst.header, bind, Except.bind, pure,
    Except.pure, Service.template]
  rw [if_neg (by simp), if_neg (by simp)]
  by_cases hocf : v.channel.useOperationalControl = true
  · rw [if_pos (by simp [hocf])]
    exact ⟨-3, rfl, by decide⟩
  · have hfsh : 0 < v.channel.fshSize := by
      apply Nat.pos_of_ne_zero
      intro h
      exact hplain ⟨by simpa using hocf, h⟩
    rw [if_neg (by simp [hocf]), if_neg (by simp), if_pos (by simp [hfsh])]
    exact ⟨-5, rfl, by decide⟩

theorem afRcv_refuses (hplain : ¬Plain v.channel) {k k' : Service.AllFrames} {u : Bytes}
    {out : List Bytes} (hu : Bears v data u) (h : v.afRcv k u = .ok (k', out)) :
    k'.tallies.validFrameCount = k.tallies.validFrameCount := by
  obtain ⟨n, hn, hbad⟩ := isValid_template hplain hu
  have hframe : ∃ t, Service.validateFrame { v with channel := v.template } k.tallies u =
      .ok (t, false) ∧ t.validFrameCount = k.tallies.validFrameCount := by
    unfold Service.validateFrame
    by_cases hlen : u.length = v.frameSize
    · rw [if_neg (by simpa using hlen), hn]
      simp only [bind, Except.bind, if_neg hbad]
      exact ⟨_, rfl, rfl⟩
    · rw [if_pos (by simpa using hlen)]
      exact ⟨_, rfl, rfl⟩
  obtain ⟨t, ht, hcount⟩ := hframe
  simp only [Service.afRcv, Service.checkAllFrames, ht, hu.pointer, bind, Except.bind, pure, Except.pure,
    Bool.not_false, if_true] at h
  -- the frame is dropped, or goes on as one that is not valid
  split_ifs at h
  all_goals
    obtain ⟨rfl, -⟩ := Prod.mk.inj (Except.ok.inj h)
    exact hcount

theorem mcRcv_step (hv : Sized v) (k : Tallies) {u : Bytes} (hu : Bears v data u) :
    ∃ k' u', v.mcRcv k u = .ok (k', [u']) ∧ Bears v data u' ∧
      k'.validFrameCount = k.validFrameCount + 1 := by
  have hvalid := hu.valid hv
  obtain ⟨mc, hmc⟩ : ∃ mc, getMCFrameCount u = .ok mc := by
    obtain ⟨-, mc, vc, trailer, -, rfl⟩ := hu
    exact ⟨mc, rfl⟩
  have h : v.mcRcv k u = .ok (Service.countMasterFrame k mc true, [u]) := by
    simp only [Service.mcRcv, hvalid.length_eq, validateFrame_valid hvalid.length_eq hvalid.valid,
      hvalid.mcid, hu.pointer, hmc, Service.failed, decide_true, Bool.not_true, Bool.false_and,
      Bool.false_eq_true, if_false, if_true, bind, Except.bind, pure, Except.pure, Bool.and_self]
    rfl
  refine ⟨_, _, h, hu, ?_⟩
  unfold Service.countMasterFrame
  split <;> rfl

theorem accessSvc_step (hv : Sized v) (k : Tallies) {u : Bytes} (hu : Bears v data u) :
    ∃ k' d, accessSvc v k u = .ok (k', [d]) ∧ data = d ∧
      k'.validFrameCount = k.validFrameCount + 1 := by
  have hvalid := hu.valid hv
  obtain ⟨hd, mc, vc, trailer, ht, rfl⟩ := hu
  have hsync : getSynchronizationFlag (accessFrame v.channel mc vc data trailer) = .ok true := by
    rw [accessFrame, getSynchronizationFlag_unit (status_access _).lt (by decide),
      status_synchronization]
  have hcount : getVCFrameCount (accessFrame v.channel mc vc data trailer) = .ok vc := rfl
  have h : accessSvc v k (accessFrame v.channel mc vc data trailer) =
      .ok (k.countFrame vc true, [data]) := by
    simp only [accessSvc, identify_valid hvalid, hsync, getFirstHeaderPointer_access, hcount,
      data_access ht, Service.failed, bind, Except.bind, pure, Except.pure, Bool.not_true,
      Bool.false_and, Bool.false_eq_true, if_false, Bool.and_self]
    rfl
  refine ⟨_, _, h, rfl, ?_⟩
  unfold Tallies.countFrame
  split <;> rfl

/-! ## Both ends -/

/-- The chain delivers its units unchanged, in order, each once, and every module of the receiver
accepts every frame. -/
def Transparent (v : Service) (units : List Bytes) : Prop :=
  ∃ r, v.chain units = .ok r ∧ r.units = units ∧
    r.allFrames.tallies.validFrameCount = units.length ∧
    r.masterChannel.validFrameCount = units.length ∧
    r.virtualChannel.validFrameCount = units.length

theorem transparent_of_plain (hv : Sized v) (hplain : Plain v.channel) {units octets : List Bytes}
    (hemit : v.emit units = .ok octets) (h : List.Forall₂ (BearsChecked v) units octets) :
    Transparent v units := by
  obtain ⟨a, frames₁, hrun₁, h₁, ha⟩ := runAll_forall₂
    (fun k d u (h : BearsChecked v d u) => afRcv_step hv hplain k h) h {}
  obtain ⟨m, frames₂, hrun₂, h₂, hm⟩ := runAll_forall₂
    (fun k d u (h : Bears v d u) => mcRcv_step hv k h) h₁ {}
  obtain ⟨k, out, hrun₃, h₃, hk⟩ := runAll_forall₂
    (fun k d u (h : Bears v d u) => accessSvc_step hv k h) h₂ {}
  rw [List.forall₂_eq_eq_eq] at h₃
  refine ⟨⟨a, m, k, out⟩, ?_, h₃.symm, ha.trans (Nat.zero_add _), hm.trans (Nat.zero_add _),
    hk.trans (Nat.zero_add _)⟩
  unfold Service.chain
  rw [hemit]
  simp only [bind, Except.bind]
  unfold Service.receive
  rw [hrun₁]
  simp only [bind, Except.bind]
  rw [hrun₂]
  simp only
  rw [hrun₃]
  rfl

/-- No frame is valid for a receiver that takes it to lack a field it has. -/
theorem refused_of_not_plain (hplain : ¬Plain v.channel) {units octets : List Bytes}
    (hemit : v.emit units = .ok octets) (h : List.Forall₂ (BearsChecked v) units octets)
    (ht : Transparent v units) : units = [] := by
  obtain ⟨r, hchain, -, hcount, -, -⟩ := ht
  rw [Service.chain, hemit] at hchain
  obtain ⟨_, ho, hchain⟩ := bind_ok hchain
  obtain rfl := Except.ok.inj ho
  obtain ⟨⟨a, frames₁⟩, hrun₁, hchain⟩ := bind_ok hchain
  obtain ⟨⟨m, frames₂⟩, -, hchain⟩ := bind_ok hchain
  obtain ⟨⟨k, out⟩, -, hchain⟩ := bind_ok hchain
  obtain rfl := Except.ok.inj hchain
  have hkept : a.tallies.validFrameCount = 0 :=
    runAll_keeps (fun k : Service.AllFrames => k.tallies.validFrameCount)
      (fun s u s' o hu hs => by
        obtain ⟨i, hi, rfl⟩ := List.getElem_of_mem hu
        exact afRcv_refuses hplain (h.get (by rw [h.length_eq]; exact hi) hi).1 hs) hrun₁
  exact List.eq_nil_of_length_eq_zero (hcount.symm.trans hkept)

theorem configure_ok {s : Settings} (h : s.configure = .ok v) :
    v.frameSize = s.frameSize ∧ v.channel.useOperationalControl = s.useOperationalControl ∧
      v.channel.fshSize = s.fshSize ∧ s.fshSize ≤ maxFSHLen := by
  obtain ⟨scid, -, h⟩ := bind_ok h
  obtain ⟨vcid, -, h⟩ := bind_ok h
  obtain ⟨fsh, hfsh, h⟩ := bind_ok h
  obtain rfl := Except.ok.inj h
  unfold setFSHSize at hfsh
  split at hfsh
  · cases hfsh
  · obtain rfl := Except.ok.inj hfsh
    exact ⟨rfl, rfl, rfl, by omega⟩

/-- **When the chain is transparent.** For every configuration the setters accept that leaves room
for data, and all units of the length of the data field: the units come out unchanged, in order,
each once, with every frame accepted, just where the frames have neither operational control field
nor frame secondary header, or there are none. -/
theorem transparent_iff (s : Settings) (v : Service) (units : List Bytes)
    (hs : s.configure = .ok v) (hsize : v.channel.nonDataLength < s.frameSize)
    (hu : ∀ d ∈ units, d.length = v.getMRU) :
    Transparent v units ↔
      units = [] ∨ (s.useOperationalControl = false ∧ s.fshSize = 0) := by
  obtain ⟨hframe, hocf, hfsh, hmax⟩ := configure_ok hs
  have hv : Sized v := ⟨by omega, by omega⟩
  obtain ⟨octets, hemit, h⟩ := emit_ok hv hu
  rw [← hocf, ← hfsh]
  constructor
  · intro ht
    by_cases hplain : Plain v.channel
    · exact .inr hplain
    · exact .inl (refused_of_not_plain hplain hemit h ht)
  · rintro (rfl | hplain)
    · exact ⟨_, rfl, rfl, rfl, rfl, rfl⟩
    · exact transparent_of_plain hv hplain hemit h

/-- Frames of three octets of data and a checksum. -/
def checkedSettings : Settings :=
  { scid := 0x23, vcid := 5, useFrameErrorControl := true, frameSize := 11 }

/-- Frames of one octet of data and an operational control field. -/
def reportSettings : Settings :=
  { scid := 0, vcid := 0, useOperationalControl := true, frameSize := 11 }

theorem transparent_iff_checked :
    ∃ v, checkedSettings.configure = .ok v ∧ Transparent v [[1, 2, 3], [4, 5, 6]] := by
  refine ⟨_, rfl, (transparent_iff checkedSettings _ [[1, 2, 3], [4, 5, 6]] rfl (by decide) ?_).2
    (.inr ⟨rfl, rfl⟩)⟩
  intro d hd
  simp only [List.mem_cons, List.not_mem_nil, or_false] at hd
  rcases hd with rfl | rfl
  · rfl
  · rfl

/-- A unit in a frame with an operational control field is not delivered: the frame is refused as
one whose flag must not be set. -/
theorem reported_frame_refused :
    ∃ v, reportSettings.configure = .ok v ∧ v.channel.nonDataLength < reportSettings.frameSize ∧
      ([7] : Bytes).length = v.getMRU ∧
      ((v.chain [[7]]).toOption.map fun r =>
        (r.units, r.allFrames.tallies.badHeaderCount)) = some ([], 1) ∧
      ¬Transparent v [[7]] := by
  have hrun : ∀ v, reportSettings.configure = .ok v →
      ((v.chain [[7]]).toOption.map fun r =>
        (r.units, r.allFrames.tallies.badHeaderCount)) = some ([], 1) := by
    intro v hv
    obtain rfl := Except.ok.inj hv
    decide +kernel
  refine ⟨_, rfl, by decide, rfl, hrun _ rfl, ?_⟩
  rintro ⟨r, hr, hunits, -⟩
  have h := hrun _ rfl
  rw [hr] at h
  have hnone : r.units = [] := congrArg Prod.fst (Option.some.inj h)
  rw [hunits] at hnone
  cases hnone

end ChannelEmulator.TM
