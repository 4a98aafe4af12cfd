import ChannelEmulator.Proof.AosBuild
import ChannelEmulator.Proof.FrameZones
import ChannelEmulator.Proof.MessageCoding
import ChannelEmulator.Spec.AosAllFrames

/-!
# The header error control of an AOS frame

* `encode_header`: the code of the header restores six symbols behind at most two errors.
* `validate_corrupted`: what the receiver makes of a frame whose header was corrupted. The corrected header is
  packed of the data symbols only, so its check symbols are zeros.
* `validate_restores_iff`: **when a corrupted frame is accepted as it was sent**.
-/

namespace ChannelEmulator.AOS

open Framing ReedSolomon

/-! ## The symbols of the header -/

/-- The two symbols of an octet. -/
def nibbles (a : Octet) : SymVec := [UInt8.ofNat (a.toNat >>> 4 &&& 0xf), UInt8.ofNat (a.toNat &&& 0xf)]

/-- The octet of two symbols. -/
def joined (h l : Sym) : Octet :=
  ((0 : Octet) ||| UInt8.ofNat ((h.toNat &&& 0xf) <<< 4)) ||| UInt8.ofNat ((l.toNat &&& 0xf) <<< 0)

theorem nibbles_lt (a : Octet) : ∀ s ∈ nibbles a, s.toNat < 2 ^ 4 := by
  have hlt : ∀ x : ℕ, (UInt8.ofNat (x &&& 0xf)).toNat < 2 ^ 4 := by
    intro x
    rw [show 0xf = 2 ^ 4 - 1 from rfl, Nat.and_two_pow_sub_one_eq_mod, UInt8.toNat_ofNat']
    omega
  intro s hs
  rcases List.mem_pair.1 hs with rfl | rfl
  · exact hlt _
  · exact hlt _

theorem joined_nibbles (a : Octet) :
    joined (UInt8.ofNat (a.toNat >>> 4 &&& 0xf)) (UInt8.ofNat (a.toNat &&& 0xf)) = a := by
  revert a
  exact forall_octet (by decide +kernel)

theorem nibbles_inj {a b : Octet} (h : nibbles a = nibbles b) : a = b := by
  obtain ⟨h₁, h₂⟩ := List.cons_eq_cons.1 h
  rw [← joined_nibbles a, ← joined_nibbles b, h₁, (List.cons_eq_cons.1 h₂).1]

theorem nibbles_joined {p q : Sym} (hp : p.toNat < 2 ^ 4) (hq : q.toNat < 2 ^ 4) : nibbles (joined p q) = [p, q] := by
  have hall : ∀ p q : Fin 16, nibbles (joined (UInt8.ofNat p) (UInt8.ofNat q)) = [UInt8.ofNat p, UInt8.ofNat q] := by
    decide +kernel
  have h := hall ⟨p.toNat, hp⟩ ⟨q.toNat, hq⟩
  rwa [UInt8.ofNat_toNat, UInt8.ofNat_toNat] at h

section Octets

variable (a b n₂ n₁ n₀ g c d : Octet) (t : Bytes)

theorem headerDataUnpacked_eq :
    headerDataUnpacked (a :: b :: n₂ :: n₁ :: n₀ :: g :: t) = .ok (nibbles a ++ nibbles b ++ nibbles g) := by
  have hcount : min 6 (room 4 3 0) = 6 := by decide
  have hunpack : unpack 4 [a, b, g] 6 0 = .ok (nibbles a ++ nibbles b ++ nibbles g) := by
    unfold unpack
    rw [show [a, b, g].length = 3 from rfl, hcount]
    rfl
  unfold headerDataUnpacked octetsAt
  rw [if_neg (by simp only [List.length_cons]; omega), ok_bind]
  exact hunpack

/-- The codeword of a header: the data symbols and the check symbols. -/
def codewordOf : SymVec := nibbles a ++ nibbles b ++ nibbles g ++ (nibbles c ++ nibbles d)

theorem codewordUnpacked_eq : codewordUnpacked (a :: b :: n₂ :: n₁ :: n₀ :: g :: c :: d :: t) =
    .ok (codewordOf a b g c d) := by
  have hcount : min 10 (room 4 5 0) = 10 := by decide
  have hunpack : unpack 4 [a, b, g, c, d] 10 0 = .ok (codewordOf a b g c d) := by
    unfold unpack
    rw [show [a, b, g, c, d].length = 5 from rfl, hcount]
    rfl
  have hptr : ptrSignalingField = 5 := rfl
  unfold codewordUnpacked octetsAt
  rw [if_neg (by simp only [List.length_cons]; omega), ok_bind,
    if_neg (by rw [hptr]; simp only [List.length_cons]; omega), ok_bind]
  exact hunpack

theorem codewordOf_lt : ∀ s ∈ codewordOf a b g c d, s.toNat < 2 ^ 4 := by
  intro s hs
  unfold codewordOf at hs
  simp only [List.mem_append] at hs
  rcases hs with ((hs | hs) | hs) | (hs | hs) <;> exact nibbles_lt _ s hs

theorem pack_parity (p q r s : Sym) : pack 4 [p, q, r, s] 4 2 0 = .ok [joined p q, joined r s] := rfl

/-- Only the data symbols are packed into a corrected header. -/
theorem pack_data : pack 4 (nibbles a ++ nibbles b ++ nibbles g) 10 5 0 = .ok [a, b, g, 0, 0] := by
  have hpack : pack 4 (nibbles a ++ nibbles b ++ nibbles g) 10 5 0 =
      .ok [joined (UInt8.ofNat (a.toNat >>> 4 &&& 0xf)) (UInt8.ofNat (a.toNat &&& 0xf)),
        joined (UInt8.ofNat (b.toNat >>> 4 &&& 0xf)) (UInt8.ofNat (b.toNat &&& 0xf)),
        joined (UInt8.ofNat (g.toNat >>> 4 &&& 0xf)) (UInt8.ofNat (g.toNat &&& 0xf)), 0, 0] := rfl
  rw [hpack, joined_nibbles, joined_nibbles, joined_nibbles]

end Octets

/-- The symbols of the data are symbols of the code. -/
theorem data_lt (a b g : Octet) : ∀ x ∈ nibbles a ++ nibbles b ++ nibbles g, x.toNat < 2 ^ 4 := by
  intro x hx
  simp only [List.mem_append] at hx
  rcases hx with (hx | hx) | hx <;> exact nibbles_lt _ x hx

theorem codewordOf_joined {a b g : Octet} {p q r s : Sym} (hlt : ∀ x ∈ [p, q, r, s], x.toNat < 2 ^ 4) :
    codewordOf a b g (joined p q) (joined r s) = nibbles a ++ nibbles b ++ nibbles g ++ [p, q, r, s] := by
  unfold codewordOf
  rw [nibbles_joined (hlt p (by simp)) (hlt q (by simp)), nibbles_joined (hlt r (by simp)) (hlt s (by simp))]
  rfl

theorem codewordOf_inj {a b g c d a' b' g' c' d' : Octet} (h : codewordOf a b g c d = codewordOf a' b' g' c' d') :
    a = a' ∧ b = b' ∧ g = g' ∧ c = c' ∧ d = d' := by
  unfold codewordOf at h
  obtain ⟨h, hcd⟩ := List.append_inj h rfl
  obtain ⟨h, hg⟩ := List.append_inj h rfl
  obtain ⟨ha, hb⟩ := List.append_inj h rfl
  obtain ⟨hc, hd⟩ := List.append_inj hcd rfl
  exact ⟨nibbles_inj ha, nibbles_inj hb, nibbles_inj hg, nibbles_inj hc, nibbles_inj hd⟩

theorem eq_of_changes {v w : SymVec} (hlen : v.length = w.length) (h : changes v w = 0) : v = w := by
  unfold changes at h
  rw [List.countP_eq_zero] at h
  refine List.ext_getElem? fun i => ?_
  by_cases hi : i < v.length
  · have hmem : (v[i], w[i]) ∈ v.zip w := by
      refine List.mem_iff_getElem?.2 ⟨i, List.getElem?_zip_eq_some.2 ⟨?_, ?_⟩⟩
      · exact List.getElem?_eq_getElem hi
      · exact List.getElem?_eq_getElem (by omega)
    have heq := h _ hmem
    rw [List.getElem?_eq_getElem hi, List.getElem?_eq_getElem (by omega : i < w.length)]
    simpa using heq
  · rw [List.getElem?_eq_none (by omega), List.getElem?_eq_none (by omega)]

/-! ## The code -/

/-- The field of the header's symbols. -/
theorem primitive_four : Primitive 4 0x13 := by
  refine ⟨by decide, by decide, by decide, fun k hpos hlt => ?_⟩
  have hall : ∀ k < 15, 0 < k → (timesX 4 0x13)^[k] 1 ≠ 1 := by decide
  exact hall k hlt hpos

theorem headerCode_admissible : headerCode.Admissible :=
  ⟨by decide, by decide, primitive_four, ⟨2, rfl⟩, by decide, by decide, by decide, by decide⟩

/-- **The code of the header** restores six symbols behind at most two errors in the word. -/
theorem encode_header {rs : RSBase} (hrs : RSBase.new headerCode = .ok rs) (msg : SymVec) (hlen : msg.length = 6)
    (hmsg : ∀ s ∈ msg, s.toNat < 2 ^ 4) :
    ∃ p q r s : Sym, rs.encode msg = .ok [p, q, r, s] ∧ (∀ x ∈ [p, q, r, s], x.toNat < 2 ^ 4) ∧
      ∀ received : SymVec, received.length = 10 → (∀ x ∈ received, x.toNat < 2 ^ 4) →
        changes (msg ++ [p, q, r, s]) received ≤ 2 →
        rs.correct received = .ok (msg, changes (msg ++ [p, q, r, s]) received) := by
  obtain ⟨hp, h⟩ := tabled_of_new headerCode_admissible hrs
  have hcode : rs.codeLength = 10 := congrArg RSParams.codeLength hp
  have hparity : rs.parityLength = 4 := congrArg RSParams.parityLength hp
  have hdepth : rs.interleaveDepth = 1 := congrArg RSParams.interleaveDepth hp
  have hroot : rs.primitiveRootIdx = 1 := congrArg RSParams.primitiveRootIdx hp
  have hfirst : rs.firstConsecutiveRoot = 6 := congrArg RSParams.firstConsecutiveRoot hp
  have hbasis : rs.doBasisTransform = false := congrArg RSParams.doBasisTransform hp
  have hperiod : headerCode_admissible.cycle.period = 15 := h.period_eq
  have hcop : Nat.Coprime rs.primitiveRootIdx.toNat headerCode_admissible.cycle.period := by
    rw [hroot, hperiod]
    decide
  -- six times the length of the code is a multiple of the period
  have hsurplus : surplus headerCode_admissible.cycle rs rs.codeLength = 1 := by
    rw [surplus_eq_one_iff hcop, hperiod, hfirst, hcode]
    decide
  obtain ⟨f, g, hfg⟩ := exists_bases (m := 4) headerCode_admissible hrs (by rw [hbasis]; decide)
  obtain ⟨parity, hencode, hcount, hrange, hcorrect⟩ := correct_restores h hcop (by rw [hcode, hperiod]; decide) hsurplus
    (by rw [hdepth]; decide) (by rw [hparity, hcode]; decide) (by rw [hparity]; decide) hfg hmsg
    (by rw [hlen, hcode, hparity, hdepth])
  -- there is no change of basis
  have hg : ∀ s, g s = s := by
    intro s
    have hbehind := hfg.behind [s]
    rw [if_neg (by rw [hbasis]; decide)] at hbehind
    exact (List.cons_eq_cons.1 (Except.ok.inj hbehind)).1.symm
  have hmap : parity.map g = parity := by
    rw [funext hg]
    exact List.map_id' _
  rw [hmap] at hencode hcorrect
  rw [hparity, hdepth] at hcount
  obtain ⟨p, q, r, s, rfl⟩ : ∃ p q r s, parity = [p, q, r, s] := by
    rcases parity with - | ⟨p, - | ⟨q, - | ⟨r, - | ⟨s, - | ⟨x, v⟩⟩⟩⟩⟩
    all_goals first | (simp only [List.length_cons, List.length_nil] at hcount; omega) | skip
    exact ⟨p, q, r, s, rfl⟩
  refine ⟨p, q, r, s, hencode, hrange, fun received hlength hin hfew => ?_⟩
  have hreceived : received.length = (msg ++ [p, q, r, s]).length := by
    rw [List.length_append, hlen, hlength]
    rfl
  have hrow := hcorrect received hreceived hin fun row hrow => by
    have hsum := sum_rowErrors (I := 1) (by decide) hreceived
    obtain rfl : row = 0 := by omega
    rw [hdepth, hparity]
    simp only [List.range_one, List.map_cons, List.map_nil, List.sum_cons, List.sum_nil] at hsum
    omega
  have hback : (msg.map f).map g = msg := by
    rw [List.map_map, show g ∘ f = id from funext hfg.back, List.map_id]
  rw [hrow, hcode, hparity, hdepth, hlen]
  simp only [Nat.mul_one, Nat.sub_self, List.replicate_zero, List.nil_append, hback]

/-! ## The sender -/

/-- The octets of a frame whose header has a header error control field. -/
def headed (a b n₂ n₁ n₀ g c d : Octet) (t : Bytes) : Bytes := a :: b :: n₂ :: n₁ :: n₀ :: g :: c :: d :: t

theorem exists_headed {u : Bytes} (hu : 8 ≤ u.length) : ∃ a b n₂ n₁ n₀ g c d t, u = headed a b n₂ n₁ n₀ g c d t := by
  obtain ⟨a, b, n₂, n₁, n₀, g, t, rfl⟩ := exists_header (show 6 ≤ u.length by omega)
  rcases t with - | ⟨c, - | ⟨d, t⟩⟩
  all_goals first | (simp only [List.length_cons, List.length_nil] at hu; omega) | skip
  exact ⟨a, b, n₂, n₁, n₀, g, c, d, t, rfl⟩

section Sender

variable {rs : RSBase} {l : Layout} {a b n₂ n₁ n₀ g c d : Octet} {t : Bytes}

/-- The check symbols take the place of the header error control field. -/
theorem addHeaderErrorControl_eq (hl : l.hasHeaderErrorControl = true) {p q r s : Sym}
    (hencode : rs.encode (nibbles a ++ nibbles b ++ nibbles g) = .ok [p, q, r, s]) :
    addHeaderErrorControl rs l (headed a b n₂ n₁ n₀ g c d t) =
      .ok (headed a b n₂ n₁ n₀ g (joined p q) (joined r s) t) := by
  have hstore : storeAt (headed a b n₂ n₁ n₀ g c d t) (ptrSignalingField + spanSignalingField)
      [joined p q, joined r s] = .ok (headed a b n₂ n₁ n₀ g (joined p q) (joined r s) t) :=
    storeAt_append [a, b, n₂, n₁, n₀, g] [c, d] [joined p q, joined r s] t rfl
  unfold addHeaderErrorControl Layout.ptrHeaderErrorControl
  rw [show headed a b n₂ n₁ n₀ g c d t = a :: b :: n₂ :: n₁ :: n₀ :: g :: (c :: d :: t) from rfl,
    headerDataUnpacked_eq, ok_bind, hencode, ok_bind, if_pos hl, ok_bind, pack_parity, ok_bind]
  exact hstore

/-- The place of the frame error control field. -/
theorem initializeCRC_eq {u : Bytes} (hl : l.hasFrameErrorControl = true)
    (hu : l.nonDataLength + l.inSduLen ≤ u.length) :
    l.initializeCRC u = .ok (u.take (u.length - 2) ++ fromU16 (getFrameCRC16 u).toNat) ∧
      hasValidCRC (u.take (u.length - 2) ++ fromU16 (getFrameCRC16 u).toNat) = true := by
  have hnon := nonDataLength_eq l
  have hptr := ptrData_eq l
  rw [if_pos hl] at hnon
  have hplace : (if l.hasOperationalControl then spanOperationalControlField else 0) + l.ptrData + l.dataLength u =
      u.length - 2 := by
    unfold Layout.dataLength spanOperationalControlField
    omega
  obtain ⟨hstore, hvalid⟩ := store_crc (u := u) (by omega)
  refine ⟨?_, hvalid⟩
  unfold Layout.initializeCRC Layout.setFrameErrorControl
  rw [hl, hplace]
  exact hstore

/-- **What the sender leaves of a frame**: the check symbols in the header, and a checksum that is right where
there is one. The rest of the header stays. -/
theorem addErrorControl_eq {v : PhysicalChannel} (hv : v.useHeaderErrorControl = true)
    (hl : l.hasHeaderErrorControl = true) (hfec : v.useFrameErrorControl = l.hasFrameErrorControl)
    (hu : l.nonDataLength + l.inSduLen ≤ (headed a b n₂ n₁ n₀ g c d t).length) {p q r s : Sym}
    (hencode : rs.encode (nibbles a ++ nibbles b ++ nibbles g) = .ok [p, q, r, s]) :
    ∃ t', t'.length = t.length ∧ addErrorControlIfPossible v rs l (headed a b n₂ n₁ n₀ g c d t) =
        .ok (headed a b n₂ n₁ n₀ g (joined p q) (joined r s) t') ∧
      (v.useFrameErrorControl = true → hasValidCRC (headed a b n₂ n₁ n₀ g (joined p q) (joined r s) t') = true) := by
  have hheader : addHeaderErrorControl rs l (headed a b n₂ n₁ n₀ g c d t) =
      .ok (headed a b n₂ n₁ n₀ g (joined p q) (joined r s) t) := addHeaderErrorControl_eq hl hencode
  unfold addErrorControlIfPossible addHeaderIfPossible
  rw [if_pos (by rw [hv, hl]; rfl), hheader, ok_bind]
  by_cases hf : v.useFrameErrorControl = true
  · have hlf := hfec.symm.trans hf
    have hlen : (headed a b n₂ n₁ n₀ g (joined p q) (joined r s) t).length = t.length + 8 := rfl
    have hnon := nonDataLength_eq l
    have htwo : 2 ≤ t.length := by
      have hgap : 2 ≤ l.gap := by
        unfold Layout.gap
        rw [if_pos hl]
        exact Nat.le_add_left ..
      have hlen' : (headed a b n₂ n₁ n₀ g c d t).length = t.length + 8 := rfl
      rw [if_pos hlf] at hnon
      omega
    obtain ⟨hcrc, hvalid⟩ := initializeCRC_eq (u := headed a b n₂ n₁ n₀ g (joined p q) (joined r s) t) hlf hu
    generalize getFrameCRC16 (headed a b n₂ n₁ n₀ g (joined p q) (joined r s) t) = crc at hcrc hvalid
    have htake : (headed a b n₂ n₁ n₀ g (joined p q) (joined r s) t).take
        ((headed a b n₂ n₁ n₀ g (joined p q) (joined r s) t).length - 2) ++ fromU16 crc.toNat =
        headed a b n₂ n₁ n₀ g (joined p q) (joined r s) (t.take (t.length - 2) ++ fromU16 crc.toNat) := by
      rw [hlen, show t.length + 8 - 2 = t.length - 2 + 8 by omega]
      rfl
    rw [htake] at hcrc hvalid
    refine ⟨_, ?_, ?_, fun _ => hvalid⟩
    · rw [List.length_append, List.length_take]
      unfold fromU16
      simp only [List.length_cons, List.length_nil]
      omega
    · rw [if_pos (by rw [hf, hlf]; rfl)]
      exact hcrc
  · refine ⟨t, rfl, ?_, fun h => absurd h hf⟩
    rw [if_neg (by simp [hf])]

/-- The header of a frame that is sent has no error. -/
theorem encode_errorless (hrs : RSBase.new headerCode = .ok rs) (a b g : Octet) :
    ∃ p q r s, rs.encode (nibbles a ++ nibbles b ++ nibbles g) = .ok [p, q, r, s] ∧
      rs.correct (codewordOf a b g (joined p q) (joined r s)) = .ok (nibbles a ++ nibbles b ++ nibbles g, 0) := by
  obtain ⟨p, q, r, s, hencode, hparity, hcorrect⟩ := encode_header hrs (nibbles a ++ nibbles b ++ nibbles g) rfl
    (data_lt a b g)
  have hword := codewordOf_joined (a := a) (b := b) (g := g) hparity
  have hsame : changes (nibbles a ++ nibbles b ++ nibbles g ++ [p, q, r, s])
      (codewordOf a b g (joined p q) (joined r s)) = 0 := by
    rw [hword, changes_self]
  have h := hcorrect _ rfl (codewordOf_lt a b g (joined p q) (joined r s)) (by omega)
  rw [hsame] at h
  exact ⟨p, q, r, s, hencode, h⟩

end Sender

/-! ## The receiver -/

/-- A frame that is received instead of `sent`: at most two symbols of the codeword in its header have changed,
and no other octet. -/
structure Corrupted (sent received : Bytes) : Prop where
  length_eq : received.length = sent.length
  others : ∀ i, i ∉ [0, 1, 5, 6, 7] → received[i]? = sent[i]?
  header : ∃ v w, codewordUnpacked sent = .ok v ∧ codewordUnpacked received = .ok w ∧ changes v w ≤ 2

section Receiver

variable {rs : RSBase} {l : Layout} {v : PhysicalChannel} {a b n₂ n₁ n₀ g c d : Octet} {t : Bytes}

theorem Corrupted.exists_headed {received : Bytes} (h : Corrupted (headed a b n₂ n₁ n₀ g c d t) received) :
    ∃ a' b' g' c' d', received = headed a' b' n₂ n₁ n₀ g' c' d' t ∧
      changes (codewordOf a b g c d) (codewordOf a' b' g' c' d') ≤ 2 := by
  have hlen := h.length_eq
  have hsent : (headed a b n₂ n₁ n₀ g c d t).length = t.length + 8 := rfl
  obtain ⟨a', b', m₂, m₁, m₀, g', c', d', t', rfl⟩ := AOS.exists_headed (u := received) (by omega)
  have ht : t' = t := by
    refine List.ext_getElem? fun i => ?_
    exact h.others (i + 8) (by simp)
  have h₂ : m₂ = n₂ := Option.some.inj (h.others 2 (by decide))
  have h₁ : m₁ = n₁ := Option.some.inj (h.others 3 (by decide))
  have h₀ : m₀ = n₀ := Option.some.inj (h.others 4 (by decide))
  obtain ⟨v, w, hv, hw, hfew⟩ := h.header
  obtain rfl := Except.ok.inj ((codewordUnpacked_eq ..).symm.trans hv)
  obtain rfl := Except.ok.inj ((codewordUnpacked_eq ..).symm.trans hw)
  exact ⟨a', b', g', c', d', by rw [ht, h₂, h₁, h₀], hfew⟩

/-- **A corrected header** has the data symbols that were sent, and no check symbols. -/
theorem correctHeader_eq (n₂ n₁ n₀ : Octet) (t : Bytes) (k : RcvTallies) {a' b' g' : Octet} {errs : ℕ}
    (hcorrect : rs.correct (codewordOf a b g c d) = .ok (nibbles a' ++ nibbles b' ++ nibbles g', errs)) :
    ∃ k', correctHeader rs k (headed a b n₂ n₁ n₀ g c d t) =
      .ok (k', some (if 0 < errs then headed a' b' n₂ n₁ n₀ g' 0 0 t else headed a b n₂ n₁ n₀ g c d t)) := by
  unfold correctHeader
  rw [show headed a b n₂ n₁ n₀ g c d t = a :: b :: n₂ :: n₁ :: n₀ :: g :: c :: d :: t from rfl, codewordUnpacked_eq,
    ok_bind, hcorrect]
  simp only
  rw [pack_data, ok_bind]
  by_cases herrs : 0 < errs
  · rw [if_pos herrs, if_pos herrs]
    have hcopy₁ : copyUnit (a :: b :: n₂ :: n₁ :: n₀ :: g :: c :: d :: t) 0 ([a', b', g', 0, 0].take 2) =
        .ok (a' :: b' :: n₂ :: n₁ :: n₀ :: g :: c :: d :: t) :=
      copyUnit_ok (by simp only [List.take_succ_cons, List.length_cons]; simp)
    have hcopy₂ : copyUnit (a' :: b' :: n₂ :: n₁ :: n₀ :: g :: c :: d :: t) ptrSignalingField
        ([a', b', g', 0, 0].drop 2) = .ok (a' :: b' :: n₂ :: n₁ :: n₀ :: g' :: 0 :: 0 :: t) :=
      copyUnit_ok (by
        rw [show ptrSignalingField = 5 from rfl]
        simp only [List.drop_succ_cons, List.drop_zero, List.length_cons, List.length_nil]
        omega)
    rw [hcopy₁, ok_bind, hcopy₂, ok_bind]
    exact ⟨_, rfl⟩
  · rw [if_neg herrs, if_neg herrs]
    exact ⟨_, rfl⟩

/-- A header without errors stays as it is, and only the unit without errors is counted. -/
theorem correctHeader_errorless (k : RcvTallies) (t : Bytes)
    (hcorrect : rs.correct (codewordOf a b g c d) = .ok (nibbles a ++ nibbles b ++ nibbles g, 0)) :
    correctHeader rs k (headed a b n₂ n₁ n₀ g c d t) =
      .ok ({ k with errorlessHeaderUnitCount := k.errorlessHeaderUnitCount + 1 },
        some (headed a b n₂ n₁ n₀ g c d t)) := by
  unfold correctHeader
  rw [show headed a b n₂ n₁ n₀ g c d t = a :: b :: n₂ :: n₁ :: n₀ :: g :: c :: d :: t from rfl, codewordUnpacked_eq,
    ok_bind, hcorrect]
  simp only
  rw [pack_data, ok_bind, if_neg (Nat.lt_irrefl 0)]
  rfl

/-- A frame whose header is corrected, and of version 1, is accepted by its checksum. -/
theorem validate_of_corrected (hv : v.useHeaderErrorControl = true) (hl : l.hasHeaderErrorControl = true)
    {del : Bool} {k k' : RcvTallies} {u w : Bytes} (hsize : u.length = v.frameSize)
    (hcorrect : correctHeader rs k u = .ok (k', some w)) (hversion : getTFVN w = .ok 1) :
    validateAllFrames v rs l del k u = .ok (if v.useFrameErrorControl && !hasValidCRC w then
      ({ k' with badFrameChecksumCount := k'.badFrameChecksumCount + 1 }, kept del w, false)
      else (k', some w, true)) := by
  unfold validateAllFrames correctIfUsed
  rw [if_neg (not_not.2 hsize), if_pos (by rw [hv, hl]; rfl), hcorrect, ok_bind]
  simp only
  rw [hversion, ok_bind, if_neg (by decide)]
  split <;> rfl

end Receiver

/-! ## The frame at the receiver -/

/-- A frame of version 1 with a header error control field, as long as the frames of its physical channel, which
has a frame error control field where the channel uses one. -/
structure Sendable (v : PhysicalChannel) (l : Layout) (u : Bytes) : Prop where
  useHeader : v.useHeaderErrorControl = true
  hasHeader : l.hasHeaderErrorControl = true
  check : v.useFrameErrorControl = l.hasFrameErrorControl
  room : l.nonDataLength + l.inSduLen ≤ u.length
  size : u.length = v.frameSize
  version : getTFVN u = .ok 1

/-- The six symbols of the header of a frame have no parity. -/
def NoParity (rs : RSBase) (u : Bytes) : Prop :=
  ∃ headerData, headerDataUnpacked u = .ok headerData ∧ rs.encode headerData = .ok [0, 0, 0, 0]

theorem joined_eq_zero {p q : Sym} (hp : p.toNat < 2 ^ 4) (hq : q.toNat < 2 ^ 4) (h : joined p q = 0) :
    p = 0 ∧ q = 0 := by
  have hnibbles := nibbles_joined hp hq
  rw [h] at hnibbles
  obtain ⟨h₁, h₂⟩ := List.cons_eq_cons.1 hnibbles
  exact ⟨h₁.symm, (List.cons_eq_cons.1 h₂).1.symm⟩

/-- **What the receiver makes of a frame** that is sent and corrupted: the frame, or that frame without its check
symbols where a symbol has changed. -/
theorem validate_corrupted {rs : RSBase} (hrs : RSBase.new headerCode = .ok rs) {v : PhysicalChannel} {l : Layout}
    {u : Bytes} (hu : Sendable v l u) :
    ∃ a b n₂ n₁ n₀ g c d t, addErrorControlIfPossible v rs l u = .ok (headed a b n₂ n₁ n₀ g c d t) ∧
      (NoParity rs u ↔ c = 0 ∧ d = 0) ∧
      (v.useFrameErrorControl = true → hasValidCRC (headed a b n₂ n₁ n₀ g c d t) = true) ∧
      ∀ received, Corrupted (headed a b n₂ n₁ n₀ g c d t) received → ∀ del k,
        ∃ k' w, (w = if received = headed a b n₂ n₁ n₀ g c d t then received
            else headed a b n₂ n₁ n₀ g 0 0 t) ∧
          validateAllFrames v rs l del k received = .ok (if v.useFrameErrorControl && !hasValidCRC w then
            ({ k' with badFrameChecksumCount := k'.badFrameChecksumCount + 1 }, kept del w, false)
            else (k', some w, true)) := by
  have hlen : 8 ≤ u.length := by
    have hroom := hu.room
    have hgap : 2 ≤ l.gap := by
      unfold Layout.gap
      rw [if_pos hu.hasHeader]
      exact Nat.le_add_left ..
    rw [nonDataLength_eq] at hroom
    omega
  obtain ⟨a, b, n₂, n₁, n₀, g, c, d, t, rfl⟩ := exists_headed hlen
  obtain ⟨p, q, r, s, hencode, hparity, hcorrect⟩ := encode_header hrs (nibbles a ++ nibbles b ++ nibbles g) rfl
    (data_lt a b g)
  obtain ⟨t', ht', hsent, hvalid⟩ := addErrorControl_eq hu.useHeader hu.hasHeader hu.check hu.room hencode
  have hp := hparity p (by simp)
  have hq := hparity q (by simp)
  have hr := hparity r (by simp)
  have hs := hparity s (by simp)
  refine ⟨a, b, n₂, n₁, n₀, g, joined p q, joined r s, t', hsent, ?_, hvalid, fun received hc del k => ?_⟩
  · constructor
    · rintro ⟨data, hdata, hzero⟩
      obtain rfl := Except.ok.inj ((headerDataUnpacked_eq a b n₂ n₁ n₀ g (c :: d :: t)).symm.trans hdata)
      have hnone := Except.ok.inj (hencode.symm.trans hzero)
      simp only [List.cons.injEq, and_true] at hnone
      obtain ⟨hp₀, hq₀, hr₀, hs₀⟩ := hnone
      rw [hp₀, hq₀, hr₀, hs₀]
      exact ⟨rfl, rfl⟩
    · rintro ⟨hc₀, hd₀⟩
      obtain ⟨rfl, rfl⟩ := joined_eq_zero hp hq hc₀
      obtain ⟨rfl, rfl⟩ := joined_eq_zero hr hs hd₀
      exact ⟨_, headerDataUnpacked_eq a b n₂ n₁ n₀ g (c :: d :: t), hencode⟩
  · obtain ⟨a', b', g', c', d', rfl, hfew⟩ := hc.exists_headed
    rw [codewordOf_joined hparity] at hfew
    have hword := hcorrect (codewordOf a' b' g' c' d') rfl (codewordOf_lt a' b' g' c' d') hfew
    have hsize : (headed a' b' n₂ n₁ n₀ g' c' d' t').length = v.frameSize := by
      rw [← hu.size]
      show t'.length + 8 = t.length + 8
      rw [ht']
    -- the header is written back only where an error was corrected
    obtain ⟨k', hk'⟩ := correctHeader_eq n₂ n₁ n₀ t' k hword
    generalize hw : (if 0 < changes (nibbles a ++ nibbles b ++ nibbles g ++ [p, q, r, s])
      (codewordOf a' b' g' c' d') then headed a b n₂ n₁ n₀ g 0 0 t' else headed a' b' n₂ n₁ n₀ g' c' d' t') = w at hk'
    have hsame : headed a' b' n₂ n₁ n₀ g' c' d' t' = headed a b n₂ n₁ n₀ g (joined p q) (joined r s) t' ↔
        changes (nibbles a ++ nibbles b ++ nibbles g ++ [p, q, r, s]) (codewordOf a' b' g' c' d') = 0 := by
      rw [← codewordOf_joined hparity]
      constructor
      · intro h
        unfold headed at h
        simp only [List.cons.injEq] at h
        obtain ⟨rfl, rfl, -, -, -, rfl, rfl, rfl, -⟩ := h
        exact changes_self _
      · intro h
        have hword : codewordOf a b g (joined p q) (joined r s) = codewordOf a' b' g' c' d' := eq_of_changes rfl h
        obtain ⟨ha, hb, hg, hc', hd⟩ := codewordOf_inj hword
        rw [ha, hb, hg, hc', hd]
    have hw' : w = if headed a' b' n₂ n₁ n₀ g' c' d' t' = headed a b n₂ n₁ n₀ g (joined p q) (joined r s) t' then
        headed a' b' n₂ n₁ n₀ g' c' d' t' else headed a b n₂ n₁ n₀ g 0 0 t' := by
      rw [← hw]
      by_cases hzero : changes (nibbles a ++ nibbles b ++ nibbles g ++ [p, q, r, s]) (codewordOf a' b' g' c' d') = 0
      · rw [if_neg (by omega), if_pos (hsame.2 hzero)]
      · rw [if_pos (by omega), if_neg (fun h => hzero (hsame.1 h))]
    have hversion : getTFVN w = .ok 1 := by
      rw [hw', ← hu.version]
      split
      · next h =>
        rw [h]
        rfl
      · rfl
    exact ⟨k', w, hw', validate_of_corrected hu.useHeader hu.hasHeader hsize hk' hversion⟩

/-- **When a corrupted frame is accepted as it was sent**: no symbol has changed, or the symbols that it was sent
with have no parity. Otherwise the check symbols are zeros behind the correction. -/
theorem validate_restores_iff {rs : RSBase} (hrs : RSBase.new headerCode = .ok rs) {v : PhysicalChannel} {l : Layout}
    {u : Bytes} (hu : Sendable v l u) :
    ∃ sent, addErrorControlIfPossible v rs l u = .ok sent ∧ ∀ received, Corrupted sent received → ∀ del k,
      ((∃ k', validateAllFrames v rs l del k received = .ok (k', some sent, true)) ↔
        received = sent ∨ NoParity rs u) := by
  obtain ⟨a, b, n₂, n₁, n₀, g, c, d, t, hsent, hparity, hvalid, hreceive⟩ := validate_corrupted hrs hu
  refine ⟨_, hsent, fun received hc del k => ?_⟩
  obtain ⟨k', w, hw, hrun⟩ := hreceive received hc del k
  have hiff : w = headed a b n₂ n₁ n₀ g c d t ↔ received = headed a b n₂ n₁ n₀ g c d t ∨ NoParity rs u := by
    rw [hparity, hw]
    by_cases hsame : received = headed a b n₂ n₁ n₀ g c d t
    · rw [if_pos hsame]
      exact iff_of_true hsame (.inl hsame)
    · rw [if_neg hsame, or_iff_right hsame]
      unfold headed
      simp only [List.cons.injEq, true_and, and_true]
      exact and_congr eq_comm eq_comm
  rw [← hiff, hrun]
  constructor
  · rintro ⟨k'', h⟩
    have hpair := Except.ok.inj h
    split at hpair
    · have hkept := (Prod.mk.inj (Prod.mk.inj hpair).2).2
      cases hkept
    · exact Option.some.inj (Prod.mk.inj (Prod.mk.inj hpair).2).1
  · intro h
    rw [h, if_neg]
    · exact ⟨k', rfl⟩
    · intro hbad
      obtain ⟨hf, hcrc⟩ := Bool.and_eq_true_iff.1 hbad
      rw [hvalid hf] at hcrc
      cases hcrc

/-- A frame of a channel without frame error control. -/
theorem validate_restores_bare : ∃ rs sent, RSBase.new headerCode = .ok rs ∧
    addErrorControlIfPossible ⟨9, true, false, 0, true⟩ rs ⟨true, 0, false, false⟩ [0x40, 0, 0, 0, 0, 0, 0, 0, 7] =
      .ok sent ∧ ∀ received, Corrupted sent received → ∀ del k,
      ((∃ k', validateAllFrames ⟨9, true, false, 0, true⟩ rs ⟨true, 0, false, false⟩ del k received =
          .ok (k', some sent, true)) ↔
        received = sent ∨ NoParity rs [0x40, 0, 0, 0, 0, 0, 0, 0, 7]) := by
  obtain ⟨rs, hrs, -⟩ := new_ok headerCode_admissible
  obtain ⟨sent, hsent, hreceive⟩ := validate_restores_iff hrs (v := ⟨9, true, false, 0, true⟩)
    (l := ⟨true, 0, false, false⟩) (u := [0x40, 0, 0, 0, 0, 0, 0, 0, 7])
    ⟨rfl, rfl, rfl, by decide, rfl, by decide⟩
  exact ⟨rs, sent, hrs, hsent, hreceive⟩

set_option maxRecDepth 4000 in
/-- A frame with a single error in its header is dropped: its checksum does not match the zeros in the header error
control field. -/
theorem corrected_header_dropped : ∃ rs sent k, RSBase.new headerCode = .ok rs ∧
    addErrorControlIfPossible ⟨10, true, true, 0, true⟩ rs ⟨true, 0, false, true⟩
      [0x40, 0, 0, 0, 0, 0, 0, 0, 0, 0] = .ok sent ∧ Corrupted sent (sent.set 5 1) ∧
    validateAllFrames ⟨10, true, true, 0, true⟩ rs ⟨true, 0, false, true⟩ true {} (sent.set 5 1) =
      .ok (k, none, false) := by
  refine ⟨⟨headerCode, [1, 2, 4, 8, 3, 6, 12, 11, 5, 10, 7, 14, 15, 13, 9, 1, 2, 4, 8, 3, 6, 12, 11, 5, 10, 7, 14,
    15, 13, 9, 1, 2], [15, 0, 1, 4, 2, 8, 5, 10, 3, 14, 9, 7, 6, 13, 11, 12], loadTal, loadTalInv⟩,
    [64, 0, 0, 0, 0, 0, 28, 193, 72, 157],
    { badFrameChecksumCount := 1, correctedHeaderErrorCount := 1, correctedHeaderUnitCount := 1 },
    rfl, by decide +kernel, ⟨rfl, fun i hi => ?_, ?_⟩, by decide +kernel⟩
  · rw [List.getElem?_set_ne (by rintro rfl; exact hi (by decide))]
  · exact ⟨_, _, codewordUnpacked_eq .., codewordUnpacked_eq .., by decide⟩

end ChannelEmulator.AOS
