import ChannelEmulator.Spec.Bitstream
import Mathlib.Data.List.Range

/-!
# The bitstream service preserves the stream

* `extract_pdu`, `extract_closed`: what the remover takes out of a B_PDU.
* `fillLoop_spec`: **the sender's loop** puts all it takes in into full B_PDUs and the one
  at hand.
* `svc_delivers`, `run_delivers`: one turn, and a run, that leave nothing linked.
* `remove_run_linked`: a message linked behind an earlier one is gone when it is read.
* `streamPreserved_iff`: **when the stream is preserved**.
-/

namespace ChannelEmulator.Bitstream

open Framing

/-! ## The header -/

/-- A B_PDU with a given data pointer and data zone. -/
def pdu (dataEnd : ℕ) (zone : Bytes) : Bytes := fromU16 dataEnd ++ zone

theorem pdu_length (e : ℕ) (zone : Bytes) : (pdu e zone).length = zone.length + 2 := by
  simp [pdu, fromU16]

@[simp] theorem getBitstreamDataEnd_pdu {e : ℕ} (he : e ≤ allOnes) (zone : Bytes) :
    getBitstreamDataEnd (pdu e zone) = .ok e := by
  have h : e &&& allOnes = e := by
    rw [show allOnes = 2 ^ 14 - 1 by rfl, Nat.and_two_pow_sub_one_eq_mod]
    exact Nat.mod_eq_of_lt (by rw [allOnes] at he; omega)
  have he' : e < 2 ^ 16 := by rw [allOnes] at he; omega
  rw [getBitstreamDataEnd, pdu, toU16_fromU16 zone he']
  simp only [bind, Except.bind, pure, Except.pure, h]

/-- The data pointer of a B_PDU whose spare bits are not set. -/
theorem setBitstreamDataEnd_pdu {e e' : ℕ} (he : e ≤ allOnes) (he' : e' ≤ allOnes) (zone : Bytes) :
    setBitstreamDataEnd (pdu e zone) e' = .ok (pdu e' zone) := by
  have hm : e' &&& allOnes = e' := by
    rw [show allOnes = 2 ^ 14 - 1 by rfl, Nat.and_two_pow_sub_one_eq_mod]
    exact Nat.mod_eq_of_lt (by rw [allOnes] at he'; omega)
  have hs : getRsvdSpare (pdu e zone) = .ok 0 := by
    have hb : (UInt8.ofNat (e / 256)).toNat = e / 256 := by
      rw [UInt8.toNat_ofNat', Nat.mod_eq_of_lt (by rw [allOnes] at he; omega)]
    have hz : (e / 256 &&& 0xC0) >>> 6 = 0 := by
      have hlt : e / 256 < 2 ^ 6 := by rw [allOnes] at he; omega
      rw [Nat.shiftRight_and_distrib, Nat.shiftRight_eq_div_pow, Nat.div_eq_of_lt hlt, Nat.zero_and]
    rw [getRsvdSpare, octetAt]
    simp only [pdu, fromU16, List.cons_append, List.getElem?_cons_zero, bind, Except.bind, hb, hz,
      pure, Except.pure]
  rw [setBitstreamDataEnd, hs]
  simp only [bind, Except.bind, pdu_length, spanHeader,
    if_neg (show ¬ zone.length + 2 < 2 by omega), Nat.zero_shiftLeft, Nat.zero_or, hm, pure,
    Except.pure]
  rfl

/-! ## The remover -/

/-- **What the remover takes out of a B_PDU**: nothing where it is idle, the whole zone
where it is full, and the octets up to the data pointer otherwise. -/
theorem extract_pdu {e : ℕ} (he : e ≤ allOnes) (zone : Bytes) (hz : zone ≠ []) :
    extract (pdu e zone) = .ok
      (if e = allOnesMinusOne then []
        else if e = allOnes then [zone]
        else if e + 1 ≤ zone.length then [zone.take (e + 1)] else []) := by
  have hpos : 0 < zone.length := List.length_pos_iff.2 hz
  have hzl : getDataZoneLength (pdu e zone) = zone.length := by
    rw [getDataZoneLength, pdu_length]; rfl
  have hd : (pdu e zone).drop spanHeader = zone := rfl
  rw [extract, getBitstreamDataEnd_pdu he]
  simp only [bind, Except.bind, hzl, hd]
  by_cases h₁ : e = allOnesMinusOne
  · simp [h₁, pure, Except.pure]
  by_cases h₂ : e = allOnes
  · have h₃ : ¬ zone.length < zone.length := by omega
    simp only [h₂, if_true, if_false, gt_iff_lt, h₃, if_neg (by omega : ¬ zone.length = 0)]
    rw [if_neg (by decide), List.take_length, if_neg (by decide)]; rfl
  · simp only [h₁, h₂, if_false]
    by_cases h₃ : e + 1 ≤ zone.length
    · simp [h₃, pure, Except.pure, show ¬ zone.length < e + 1 by omega]
    · simp [h₃, pure, Except.pure, show zone.length < e + 1 by omega]

/-- The payload of a message: what the remover takes out of its B_PDU. -/
def Carries (m : Message) (sent : List Bytes) : Prop := extract m.block.unit = .ok sent

/-- Messages with nothing linked behind them and blocks of their own come through. -/
theorem remove_run : ∀ (ms : List Message) (outs : List (List Bytes)) (k : ℕ) (s : Remove),
    List.Forall₂ Carries ms outs → (∀ m ∈ ms, m.cont = []) →
    ms.map (fun m => m.block.id) = List.range' k ms.length → (∀ i ∈ s.released, i < k) →
      ∃ s', runAll Remove.svc s ms = .ok (s', outs.flatten) := by
  intro ms
  induction ms with
  | nil => intro outs k s h _ _ _; cases h; exact ⟨s, rfl⟩
  | cons m ms ih =>
    intro outs k s h hc hid hrel
    cases h with
    | cons hm hms =>
      rename_i out outs
      rw [List.map_cons, List.length_cons, List.range'_succ, List.cons.injEq] at hid
      obtain ⟨hk, hid⟩ := hid
      have hnot : m.block.id ∉ s.released := fun hmem => by
        have := hrel _ hmem; omega
      have hstep : s.svc m =
          .ok ({ released := m.block.id :: m.cont ++ s.released }, out) := by
        rw [Remove.svc, if_neg hnot, show extract m.block.unit = .ok out from hm]; rfl
      have hrel' : ∀ i ∈ m.block.id :: m.cont ++ s.released, i < k + 1 := by
        intro i hi
        rw [hc m (by simp), hk] at hi
        rcases List.mem_cons.1 hi with rfl | hi'
        · omega
        · have := hrel i (by simpa using hi'); omega
      obtain ⟨s', hrun⟩ := ih outs (k + 1) { released := m.block.id :: m.cont ++ s.released } hms
        (fun m' hm' => hc m' (by simp [hm'])) hid hrel'
      exact ⟨s', by rw [List.flatten_cons]; exact runAll_cons hstep hrun⟩

/-- **A message linked behind an earlier one is gone when it is read.** -/
theorem remove_run_linked (pre ms : List Message) (m₁ m₂ : Message)
    (hlink : m₂.block.id ∈ m₁.cont) (s s' : Remove) (out : List Bytes) :
    runAll Remove.svc s (pre ++ m₁ :: m₂ :: ms) ≠ .ok (s', out) := by
  induction pre generalizing s out with
  | nil =>
    intro h
    obtain ⟨s₁, o₁, o₂, h₁, h₂, -⟩ := runAll_cons_inv h
    obtain ⟨s₂, o₃, o₄, h₃, -, -⟩ := runAll_cons_inv h₂
    have hrel : m₂.block.id ∈ s₁.released := by
      rw [Remove.svc] at h₁
      split at h₁
      · exact absurd h₁ (by simp)
      · cases he : extract m₁.block.unit with
        | error e => simp [he, bind, Except.bind] at h₁
        | ok o =>
          simp only [he, bind, Except.bind, pure, Except.pure, Except.ok.injEq, Prod.mk.injEq] at h₁
          rw [← h₁.1]
          simp [hlink]
    rw [Remove.svc, if_pos hrel] at h₃
    exact absurd h₃ (by simp)
  | cons m pre ih =>
    intro h
    obtain ⟨s₁, o₁, o₂, h₁, h₂, -⟩ := runAll_cons_inv h
    exact ih _ _ h₂

/-! ## The sender's loop -/

namespace Add

/-- A B_PDU with `d` at the head of a zone of `Z` octets and nothing else written. -/
def partly (Z : ℕ) (d : Bytes) : Bytes := pdu 0 (d ++ newUnit (Z - d.length))

variable {s : Add} {Z : ℕ}

theorem newUnit_partly (hs : s.bpduLength = Z + 2) : newUnit s.bpduLength = partly Z [] := by
  rw [hs, partly, pdu, newUnit, newUnit]
  rfl

/-- Octets copied behind those of an unfilled B_PDU. -/
theorem copyUnit_partly {d c : Bytes} (h : d.length + c.length ≤ Z) :
    copyUnit (partly Z d) (spanHeader + d.length) c = .ok (partly Z (d ++ c)) := by
  have hlen : (partly Z d).length = Z + 2 := by
    rw [partly, pdu_length, List.length_append, newUnit_length]; omega
  rw [copyUnit_ok (by rw [hlen, spanHeader]; omega)]
  have hpre : (fromU16 0 ++ d).length = spanHeader + d.length := by
    simp [fromU16, spanHeader]; omega
  have ho := overwrite_zeros (fromU16 0 ++ d) c (n := Z - d.length)
  rw [hpre] at ho
  simp only [partly, pdu, List.append_assoc, List.length_append] at ho ⊢
  rw [ho, show Z - d.length - c.length = Z - (d.length + c.length) by omega]

theorem setAllData_partly {d : Bytes} (h : d.length = Z) :
    setAllData (partly Z d) = .ok (pdu allOnes d) := by
  rw [setAllData, partly, setBitstreamDataEnd_pdu (by decide) (by decide), h, Nat.sub_self]
  simp [newUnit]

/-- The block the loop goes on with, or the next one to be allocated. -/
def frontier (l : Locals) : ℕ :=
  match l.bpdu with
  | some b => b.id
  | none => l.nextId

/-- The B_PDU at hand holds the octets `d` and is not full. -/
structure Working (Z : ℕ) (l : Locals) (d : Bytes) : Prop where
  empty : l.bpdu = none → d = []
  unit_eq : ∀ b, l.bpdu = some b → b.unit = partly Z d
  idx_eq : ∀ b, l.bpdu = some b → l.bpduIdx = d.length
  lt : d.length < Z
  counted : ∀ b, l.bpdu = some b → 0 < l.bpduCount
  next_eq : ∀ b, l.bpdu = some b → l.nextId = b.id + 1

/-- What every pass works on. -/
theorem currentBpdu_spec (hs : s.bpduLength = Z + 2) {l : Locals} {d : Bytes}
    (h : Working Z l d) :
    ∃ l', s.currentBpdu l = (⟨frontier l, partly Z d⟩, l') ∧ l'.bpduIdx = d.length ∧
      l'.nextId = frontier l + 1 ∧ 0 < l'.bpduCount ∧ l'.sent = l.sent ∧
      l'.bpduList = l.bpduList := by
  unfold currentBpdu frontier
  cases hb : l.bpdu with
  | none =>
    obtain rfl := h.empty hb
    refine ⟨{ l with bpduIdx := 0, bpduCount := l.bpduCount + 1, nextId := l.nextId + 1 }, ?_,
      rfl, rfl, Nat.succ_pos _, rfl, rfl⟩
    rw [newUnit_partly hs, hb]
  | some b =>
    refine ⟨l, ?_, h.idx_eq b hb, h.next_eq b hb, h.counted b hb, rfl, rfl⟩
    rw [← h.unit_eq b hb]

/-- Where the loop ends: the full B_PDUs it made and the octets left in the last one. -/
structure Ends (Z : ℕ) (s : Add) (l l' : Locals) (fulls : List Block) (d : Bytes) : Prop where
  sent_eq : l'.sent = l.sent ++ if s.sendImmediately then fulls.map (⟨·, []⟩) else []
  list_eq : l'.bpduList = l.bpduList ++
    if s.sendImmediately then [] else fulls ++ l'.bpdu.toList
  working : Working Z l' d
  idx_eq : l'.bpdu = none → l'.bpduIdx = Z
  counted : 0 < l'.bpduCount
  ids : fulls.map Block.id = List.range' (frontier l) fulls.length
  frontier_eq : frontier l' = frontier l + fulls.length
  some_made : fulls ≠ [] ∨ l'.bpdu ≠ none

theorem Ends.trans {l l₁ l₂ : Locals} {f₁ f₂ : List Block} {d₁ d₂ : Bytes}
    (h₁ : Ends Z s l l₁ f₁ d₁) (hn : l₁.bpdu = none) (h₂ : Ends Z s l₁ l₂ f₂ d₂) :
    Ends Z s l l₂ (f₁ ++ f₂) d₂ := by
  refine ⟨?_, ?_, h₂.working, h₂.idx_eq, h₂.counted, ?_, ?_, ?_⟩
  · rw [h₂.sent_eq, h₁.sent_eq]
    cases s.sendImmediately <;> simp
  · rw [h₂.list_eq, h₁.list_eq, hn]
    cases s.sendImmediately <;> simp
  · rw [List.map_append, h₁.ids, h₂.ids, h₁.frontier_eq, List.length_append,
      List.range'_append_1]
  · rw [h₂.frontier_eq, h₁.frontier_eq, List.length_append, Nat.add_assoc]
  · rcases h₁.some_made with h | h
    · exact Or.inl (by simp [h])
    · exact absurd hn h

/-- The locals after a B_PDU was filled. -/
def filled (s : Add) (Z : ℕ) (l : Locals) (full : Block) : Locals :=
  if s.sendImmediately then
    { l with bpdu := none, bpduIdx := Z, sent := l.sent ++ [⟨full, []⟩] }
  else { l with bpdu := none, bpduIdx := Z, bpduList := l.bpduList ++ [full] }

theorem filled_bpdu (l : Locals) (b : Block) : (filled s Z l b).bpdu = none := by
  rw [filled]; split <;> rfl

theorem filled_frontier (l : Locals) (b : Block) : frontier (filled s Z l b) = l.nextId := by
  unfold filled
  cases s.sendImmediately <;> rfl

/-- A pass that fills the B_PDU. -/
theorem fillLoop_full (hs : s.bpduLength = Z + 2) {l : Locals} {d c : Bytes}
    (h : Working Z l d) (hc : d.length + c.length = Z) (fuel : ℕ) (rest : Bytes) :
    ∃ l₁, Ends Z s l l₁ [⟨frontier l, pdu allOnes (d ++ c)⟩] [] ∧ l₁.bpdu = none ∧
      fillLoop s (fuel + 1) l (c ++ rest) =
        if rest.length = 0 then .ok l₁ else fillLoop s fuel l₁ rest := by
  obtain ⟨l₀, hcur, hidx, hnext, hcount, hsent, hlist⟩ := currentBpdu_spec hs h
  have hz : s.dataZoneLength = Z := by rw [dataZoneLength, hs]; rfl
  have hlt := h.lt
  have hlen : (if (c ++ rest).length ≤ Z - d.length then (c ++ rest).length
      else Z - d.length) = c.length := by
    rw [List.length_append]
    split <;> omega
  refine ⟨filled s Z l₀ ⟨frontier l, pdu allOnes (d ++ c)⟩, ?_, filled_bpdu _ _, ?_⟩
  · refine ⟨?_, ?_, ⟨fun _ => rfl, ?_, ?_, by simp; omega, ?_, ?_⟩, ?_, ?_, ?_, ?_, by simp⟩
    · rw [filled, ← hsent]; cases s.sendImmediately <;> simp
    · rw [filled_bpdu, filled, ← hlist]; cases s.sendImmediately <;> simp
    · intro b hb; rw [filled_bpdu] at hb; exact absurd hb (by simp)
    · intro b hb; rw [filled_bpdu] at hb; exact absurd hb (by simp)
    · intro b hb; rw [filled_bpdu] at hb; exact absurd hb (by simp)
    · intro b hb; rw [filled_bpdu] at hb; exact absurd hb (by simp)
    · intro _; rw [filled]; split <;> rfl
    · rw [filled]; split <;> exact hcount
    · simp [List.range'_one]
    · rw [filled_frontier, hnext]; rfl
  · rw [fillLoop, hcur]
    simp only [hidx, hz, hlen, List.take_left, List.drop_left]
    rw [copyUnit_partly (by omega)]
    simp only [hc, if_true]
    rw [setAllData_partly (by rw [List.length_append, hc])]
    cases hi : s.sendImmediately <;> simp [filled, hi, bind, Except.bind, pure, Except.pure]

/-- The last pass, with room left in the B_PDU. -/
theorem fillLoop_partly (hs : s.bpduLength = Z + 2) {l : Locals} {d c : Bytes}
    (h : Working Z l d) (hc : d.length + c.length < Z) (fuel : ℕ) :
    ∃ l₁, Ends Z s l l₁ [] (d ++ c) ∧ fillLoop s (fuel + 1) l c = .ok l₁ := by
  obtain ⟨l₀, hcur, hidx, hnext, hcount, hsent, hlist⟩ := currentBpdu_spec hs h
  have hz : s.dataZoneLength = Z := by rw [dataZoneLength, hs]; rfl
  have hlt := h.lt
  set b : Block := ⟨frontier l, partly Z (d ++ c)⟩ with hb
  refine ⟨{ l₀ with
    bpdu := some b
    bpduIdx := d.length + c.length
    bpduList := l₀.bpduList ++ if s.sendImmediately then [] else [b] }, ?_, ?_⟩
  · refine ⟨?_, ?_, ⟨by simp, ?_, ?_, by rw [List.length_append]; exact hc, ?_, ?_⟩, by simp,
      hcount, by simp, rfl, by simp⟩
    · rw [← hsent]; cases s.sendImmediately <;> simp
    · rw [← hlist]; cases s.sendImmediately <;> simp
    · intro b' hb'; obtain rfl : b = b' := Option.some.inj hb'; rfl
    · intro b' _; rw [List.length_append]
    · intro b' _; exact hcount
    · intro b' hb'; obtain rfl : b = b' := Option.some.inj hb'; exact hnext
  · rw [fillLoop, hcur]
    simp only [hidx, hz, if_pos (by omega : c.length ≤ Z - d.length), List.take_length,
      List.drop_length]
    rw [copyUnit_partly (by omega)]
    simp only [if_neg (by omega : ¬ d.length + c.length = Z),
      if_neg (by omega : ¬ d.length + c.length > Z)]
    cases s.sendImmediately <;> simp [bind, Except.bind, pure, Except.pure, hb]

/-- The full B_PDUs of a list of blocks, with the octets they hold. -/
def Filled (Z : ℕ) (bs : List Block) (zones : List Bytes) : Prop :=
  List.Forall₂ (fun b zone => b.unit = pdu allOnes zone ∧ zone.length = Z) bs zones

/-- **The loop**: what it takes in is in the full B_PDUs and the one at hand. -/
theorem fillLoop_spec (hs : s.bpduLength = Z + 2) :
    ∀ (fuel : ℕ) (l : Locals) (d rest : Bytes), Working Z l d → rest.length < fuel →
      ∃ l' fulls zones d', fillLoop s fuel l rest = .ok l' ∧ Filled Z fulls zones ∧
        zones.flatten ++ d' = d ++ rest ∧ Ends Z s l l' fulls d' := by
  intro fuel
  induction fuel with
  | zero => intro l d rest _ h; omega
  | succ fuel ih =>
    intro l d rest h hf
    have hlt := h.lt
    by_cases hc : d.length + rest.length < Z
    · obtain ⟨l₁, hends, hloop⟩ := fillLoop_partly hs h hc fuel
      exact ⟨l₁, [], [], d ++ rest, hloop, List.Forall₂.nil, rfl, hends⟩
    · have hlen : d.length + (rest.take (Z - d.length)).length = Z := by
        rw [List.length_take]; omega
      obtain ⟨l₁, hends, hn, hloop⟩ := fillLoop_full hs h hlen fuel
        (rest.drop (Z - d.length))
      rw [List.take_append_drop] at hloop
      set b : Block := ⟨frontier l, pdu allOnes (d ++ rest.take (Z - d.length))⟩
      have hb : b.unit = pdu allOnes (d ++ rest.take (Z - d.length)) ∧
          (d ++ rest.take (Z - d.length)).length = Z := ⟨rfl, by rw [List.length_append, hlen]⟩
      by_cases he : (rest.drop (Z - d.length)).length = 0
      · rw [if_pos he] at hloop
        refine ⟨l₁, [b], [d ++ rest.take (Z - d.length)], [], hloop,
          List.Forall₂.cons hb List.Forall₂.nil, ?_, hends⟩
        have htake : rest.take (Z - d.length) = rest :=
          List.take_of_length_le (by rw [List.length_drop] at he; omega)
        simp [htake]
      · rw [if_neg he] at hloop
        obtain ⟨l₂, fulls, zones, d', hloop₂, hfl, hdata, hends₂⟩ := ih l₁ []
          (rest.drop (Z - d.length)) hends.working (by rw [List.length_drop]; omega)
        refine ⟨l₂, b :: fulls, (d ++ rest.take (Z - d.length)) :: zones, d',
          hloop.trans hloop₂, List.Forall₂.cons hb hfl, ?_, hends.trans hn hends₂⟩
        rw [List.flatten_cons, List.append_assoc, hdata, List.nil_append, List.append_assoc,
          List.take_append_drop]

/-! ## The last B_PDU -/

/-- A B_PDU closed behind the octets `d`, which do not fill it. -/
def closed (Z : ℕ) (d : Bytes) : Bytes :=
  pdu (if d.length = 0 then allOnesMinusOne else d.length - 1)
    (d ++ List.replicate (Z - d.length) 0xE0)

/-- **The remover cuts a closed B_PDU behind the octets it was closed behind.** -/
theorem extract_closed {d : Bytes} (hd : d.length < Z) (hZ : Z ≤ 16382) :
    extract (closed Z d) = .ok (if d.length = 0 then [] else [d]) := by
  have hne : d ++ List.replicate (Z - d.length) (0xE0 : Octet) ≠ [] := by
    rw [← List.length_pos_iff]; simp; omega
  by_cases h0 : d.length = 0
  · rw [closed, if_pos h0, extract_pdu (by decide) _ hne, if_pos rfl, if_pos h0]
  · rw [closed, if_neg h0, extract_pdu (by rw [allOnes]; omega) _ hne,
      if_neg (by rw [allOnesMinusOne]; omega), if_neg (by rw [allOnes]; omega),
      if_pos (by rw [List.length_append]; omega), if_neg h0, Nat.sub_add_cancel (by omega),
      List.take_left]

theorem padLast_partly (hs : s.bpduLength = Z + 2) (hZ : Z ≤ 16382) {l : Locals} {b : Block}
    {d : Bytes} (hb : b.unit = partly Z d) (hi : l.bpduIdx = d.length) (hd : d.length < Z) :
    s.padLast l (some b) = .ok (some ⟨b.id, closed Z d⟩) := by
  have hz : s.dataZoneLength = Z := by rw [dataZoneLength, hs]; rfl
  have hfill : addFill (partly Z d) d.length 0xE0 =
      pdu 0 (d ++ List.replicate (Z - d.length) 0xE0) := by
    have hzl : getDataZoneLength (partly Z d) = Z := by
      rw [getDataZoneLength, partly, pdu_length, List.length_append, newUnit_length, spanHeader]
      omega
    have hpre : (fromU16 0 ++ d).length = spanHeader + d.length := by
      simp [fromU16, spanHeader]; omega
    have ho := overwrite_zeros (fromU16 0 ++ d) (List.replicate (Z - d.length) (0xE0 : Octet))
      (n := Z - d.length)
    rw [hpre, List.length_replicate, Nat.sub_self] at ho
    rw [addFill, hzl, partly, pdu, pdu, ← List.append_assoc, ho]
    simp [newUnit]
  rw [padLast]
  simp only [hz, hi, if_pos hd, hb, hfill]
  by_cases h0 : d.length = 0
  · simp only [h0, Nat.lt_irrefl, if_false, bind, Except.bind, pure, Except.pure, if_true,
      setAllIdle, setBitstreamDataEnd_pdu (show (0 : ℕ) ≤ allOnes by decide)
        (show allOnesMinusOne ≤ allOnes by decide), closed]
  · simp only [if_pos (Nat.pos_of_ne_zero h0), if_neg h0, bind, Except.bind, pure, Except.pure,
      setBitstreamDataEnd_pdu (show (0 : ℕ) ≤ allOnes by decide)
        (show d.length - 1 ≤ allOnes by rw [allOnes]; omega), closed]

/-! ## One unit -/

/-- Between units: the octets `d` wait in the unfilled B_PDU. -/
structure Waiting (Z : ℕ) (s : Add) (d : Bytes) : Prop where
  length_eq : s.bpduLength = Z + 2
  empty : s.unfilledBpdu = none → d = []
  unit_eq : ∀ b, s.unfilledBpdu = some b → b.unit = partly Z d
  idx_eq : ∀ b, s.unfilledBpdu = some b → s.unfilledBpduIdx = d.length
  next_eq : ∀ b, s.unfilledBpdu = some b → s.nextId = b.id + 1
  lt : d.length < Z

/-- The block the next message is sent in. -/
def nextBlock (s : Add) : ℕ :=
  match s.unfilledBpdu with
  | some b => b.id
  | none => s.nextId

/-- The locals `_process_data` starts with. -/
def initLocals (s : Add) : Locals :=
  { bpdu := s.unfilledBpdu
    bpduIdx := s.unfilledBpduIdx
    bpduCount := if s.unfilledBpdu.isSome then 1 else 0
    nextId := s.nextId }

theorem Waiting.working {d : Bytes} (h : Waiting Z s d) : Working Z s.initLocals d := by
  refine ⟨h.empty, h.unit_eq, h.idx_eq, h.lt, ?_, h.next_eq⟩
  intro b hb
  have : s.unfilledBpdu.isSome = true := by
    rw [show s.unfilledBpdu = some b from hb]; rfl
  simp [initLocals, this]

/-- What a step must do for the stream: its messages can be read one by one, and carry
the octets that came in, but for those that wait. -/
structure Delivers (Z : ℕ) (s s' : Add) (d u d' : Bytes) (ms : List Message)
    (outs : List (List Bytes)) : Prop where
  carries : List.Forall₂ Carries ms outs
  data : outs.flatten.flatten ++ d' = d ++ u
  unlinked : ∀ m ∈ ms, m.cont = []
  ids : ms.map (fun m => m.block.id) = List.range' s.nextBlock ms.length
  next : s'.nextBlock = s.nextBlock + ms.length
  mode : s'.sendImmediately = s.sendImmediately
  waiting : Waiting Z s' d'

theorem Filled.carries {bs : List Block} {zones : List Bytes} (hZ : 1 ≤ Z)
    (h : Filled Z bs zones) :
    List.Forall₂ Carries (bs.map (⟨·, []⟩)) (zones.map ([·])) := by
  induction h with
  | nil => exact List.Forall₂.nil
  | cons hb _ ih =>
    refine List.Forall₂.cons ?_ ih
    have hne := List.length_pos_iff.1 (by rw [hb.2]; exact hZ)
    rw [Carries, hb.1, extract_pdu le_rfl _ hne, if_neg (by decide), if_pos rfl]

/-- The end of a unit with send-immediately on. -/
theorem svc_immediately (hZ : 1 ≤ Z) (hZ' : Z ≤ 16382) {d : Bytes} (h : Waiting Z s d)
    (hi : s.sendImmediately = true) (u : Bytes) (q : Bool) :
    ∃ s' ms outs d', s.svc (u, q) = .ok (s', ms) ∧ Delivers Z s s' d u d' ms outs ∧
      (q = true → d' = []) := by
  obtain ⟨l, fulls, zones, d', hloop, hfl, hdata, hends⟩ :=
    fillLoop_spec (s := s) h.length_eq (u.length + 1) s.initLocals d u h.working (Nat.lt_succ_self _)
  have hsent : l.sent = fulls.map (⟨·, []⟩) := by rw [hends.sent_eq, hi]; rfl
  have hlist : l.bpduList = [] := by rw [hends.list_eq, hi]; rfl
  have hfront : frontier s.initLocals = s.nextBlock := rfl
  have hlt := hends.working.lt
  have hids := hends.ids
  have hfe := hends.frontier_eq
  rw [hfront] at hids hfe
  have hcar := hfl.carries hZ
  have hflat : (zones.map ([·])).flatten.flatten = zones.flatten := by
    rw [List.flatten_flatten, List.map_map]; congr 1; simp [Function.comp_def]
  have hproc : s.processData u q =
      finish { s with unfilledBpdu := none, unfilledBpduIdx := 0 } l q := by
    show (fillLoop s (u.length + 1) s.initLocals u >>= _) = _
    rw [hloop]; rfl
  cases hb : l.bpdu with
  | none =>
    -- the unit ends with the last zone
    obtain rfl := hends.working.empty hb
    refine ⟨{ s with unfilledBpdu := none, unfilledBpduIdx := 0, nextId := l.nextId },
      fulls.map (⟨·, []⟩), zones.map ([·]), [], ?_, ⟨hcar, ?_, by simp, ?_, ?_, rfl, ?_⟩,
      fun _ => rfl⟩
    · rw [svc, hproc, finish]
      simp [hb, hlist, hi, hsent, bind, Except.bind, pure, Except.pure]
    · rw [hflat, hdata]
    · simpa [Function.comp_def] using hids
    · rw [frontier, hb] at hfe
      rw [List.length_map]; exact hfe
    · exact ⟨h.length_eq, fun _ => rfl, by simp, by simp, by simp, hZ⟩
  | some b =>
    have hbid : b.id = s.nextBlock + fulls.length := by rw [frontier, hb] at hfe; exact hfe
    cases q with
    | true =>
      have hpad := padLast_partly (s := { s with
          unfilledBpdu := none, unfilledBpduIdx := 0, nextId := l.nextId }) h.length_eq hZ'
        (hends.working.unit_eq b hb) (hends.working.idx_eq b hb) hlt
      simp only [hi] at hpad
      refine ⟨{ s with unfilledBpdu := none, unfilledBpduIdx := 0, nextId := l.nextId },
        fulls.map (⟨·, []⟩) ++ [⟨⟨b.id, closed Z d'⟩, []⟩],
        zones.map ([·]) ++ [if d'.length = 0 then [] else [d']], [], ?_,
        ⟨?_, ?_, ?_, ?_, ?_, rfl, ?_⟩, fun _ => rfl⟩
      · rw [svc, hproc, finish]
        simp only [hb, hi, Option.isSome_some, Bool.true_or, Bool.true_and, hends.counted,
          decide_true, if_true, hpad, bind, Except.bind, pure, Except.pure, Option.map_some,
          Option.toList_some, hsent]
      · exact List.rel_append hcar (List.Forall₂.cons (extract_closed hlt hZ') List.Forall₂.nil)
      · rw [List.flatten_append, List.flatten_append, hflat, List.append_nil, ← hdata]
        congr 1
        by_cases h0 : d'.length = 0
        · simp [List.length_eq_zero_iff.1 h0]
        · simp [h0]
      · intro m hm
        rcases List.mem_append.1 hm with hm | hm
        · obtain ⟨b', -, rfl⟩ := List.mem_map.1 hm; rfl
        · obtain rfl := List.mem_singleton.1 hm; rfl
      · rw [List.map_append, List.length_append, List.length_map, List.length_singleton,
          List.range'_concat, List.map_map]
        simpa [Function.comp_def, hbid] using hids
      · show l.nextId = _
        rw [hends.working.next_eq b hb, hbid, List.length_append, List.length_map]; rfl
      · exact ⟨h.length_eq, fun _ => rfl, by simp, by simp, by simp, hZ⟩
    | false =>
      refine ⟨{ s with unfilledBpdu := some b, unfilledBpduIdx := l.bpduIdx, nextId := l.nextId },
        fulls.map (⟨·, []⟩), zones.map ([·]), d', ?_, ⟨hcar, ?_, by simp, ?_, ?_, rfl, ?_⟩,
        fun hc => absurd hc (by simp)⟩
      · rw [svc, hproc, finish]
        simp only [hb, hi, Option.isSome_some, Bool.true_or, Bool.true_and, hends.counted,
          decide_true, if_true, Bool.not_true, Bool.or_self, Bool.false_eq_true, if_false, bind,
          Except.bind, pure, Except.pure, hsent]
      · rw [hflat, hdata]
      · simpa [Function.comp_def] using hids
      · rw [List.length_map]; exact hbid
      · refine ⟨h.length_eq, by simp, ?_, ?_, ?_, hlt⟩
        · intro b' hb'
          obtain rfl : b = b' := Option.some.inj hb'
          exact hends.working.unit_eq b hb
        · intro b' _; exact hends.working.idx_eq b hb
        · intro b' hb'
          obtain rfl : b = b' := Option.some.inj hb'
          exact hends.working.next_eq b hb

/-- Between units with send-immediately off nothing waits. -/
structure Idle (Z : ℕ) (s : Add) : Prop where
  length_eq : s.bpduLength = Z + 2
  mode : s.sendImmediately = false
  empty : s.unfilledBpdu = none

theorem Idle.waiting (h : Idle Z s) (hZ : 1 ≤ Z) : Waiting Z s [] :=
  ⟨h.length_eq, fun _ => rfl, by simp [h.empty], by simp [h.empty], by simp [h.empty], hZ⟩

/-- The end of a unit with send-immediately off: the list of its B_PDUs is sent, the last
one closed. -/
theorem finish_list (hZ' : Z ≤ 16382) (h : Idle Z s) {l : Locals} {fulls : List Block} {d : Bytes}
    (hends : Ends Z s s.initLocals l fulls d) (q : Bool) :
    finish { s with unfilledBpdu := none, unfilledBpduIdx := 0 } l q =
      .ok ({ s with unfilledBpdu := none, unfilledBpduIdx := 0, nextId := l.nextId },
        { l with bpduList := fulls ++ (l.bpdu.map fun b => ⟨b.id, closed Z d⟩).toList }) := by
  have hm := h.mode
  have hlist : l.bpduList = fulls ++ l.bpdu.toList := by
    rw [hends.list_eq, hm]; rfl
  have hlt := hends.working.lt
  cases hb : l.bpdu with
  | none =>
    have hne : fulls ≠ [] := hends.some_made.resolve_right (fun hc => hc hb)
    have hidx := hends.idx_eq hb
    have hpad : ∀ b, padLast { s with
        unfilledBpdu := none, unfilledBpduIdx := 0, nextId := l.nextId } l (some b) =
          .ok (some b) := by
      intro b
      have hz : ¬ Z < dataZoneLength { s with
          unfilledBpdu := none, unfilledBpduIdx := 0, nextId := l.nextId } := by
        rw [dataZoneLength, h.length_eq, spanHeader]; omega
      rw [padLast]
      simp only [hidx, if_neg hz, bind, Except.bind, pure, Except.pure,
        if_neg (by omega : ¬ Z = 0)]
    have hlast : fulls.getLast? = some (fulls.getLast hne) := List.getLast?_eq_getLast_of_ne_nil hne
    simp only [hm] at hpad
    rw [hb, Option.toList_none, List.append_nil] at hlist
    rw [finish]
    simp only [hb, hlist, hm, hne, hends.counted, hlast, hpad, Option.isSome_none, Bool.not_false,
      Bool.or_true, Bool.and_self, decide_true, if_true, ne_eq, not_false_eq_true,
      Bool.false_eq_true, if_false, bind, Except.bind, pure, Except.pure, Option.toList_some,
      List.dropLast_append_getLast, Option.map_none, Option.toList_none, List.append_nil]
  | some b =>
    have hpad := padLast_partly (s := { s with
        unfilledBpdu := none, unfilledBpduIdx := 0, nextId := l.nextId }) h.length_eq hZ'
      (hends.working.unit_eq b hb) (hends.working.idx_eq b hb) hlt
    simp only [hm] at hpad
    rw [hb, Option.toList_some] at hlist
    rw [finish]
    simp only [hb, hlist, hm, hends.counted, hpad, Option.isSome_some, Bool.true_or,
      Bool.not_false, Bool.or_true, Bool.and_self, decide_true, if_true, Bool.false_eq_true,
      if_false, bind, Except.bind, pure, Except.pure, Option.toList_some, List.getLast?_concat,
      List.dropLast_concat, Option.map_some]

/-- One turn with send-immediately off. -/
theorem svc_list (hZ' : Z ≤ 16382) (h : Idle Z s) (u : Bytes) (q : Bool)
    {l : Locals} {fulls : List Block} {d : Bytes}
    (hloop : fillLoop s (u.length + 1) s.initLocals u = .ok l)
    (hends : Ends Z s s.initLocals l fulls d) :
    s.svc (u, q) =
      .ok ({ s with unfilledBpdu := none, unfilledBpduIdx := 0, nextId := l.nextId },
        sendList (fulls ++ (l.bpdu.map fun b => ⟨b.id, closed Z d⟩).toList)) := by
  have hsent : l.sent = [] := by rw [hends.sent_eq, h.mode]; rfl
  have hproc : s.processData u q =
      finish { s with unfilledBpdu := none, unfilledBpduIdx := 0 } l q := by
    show (fillLoop s (u.length + 1) s.initLocals u >>= _) = _
    rw [hloop]; rfl
  rw [svc, hproc, finish_list hZ' h hends]
  simp only [h.mode, hsent, bind, Except.bind, pure, Except.pure, Bool.false_eq_true, if_false,
    List.nil_append]

/-- A unit that fits one B_PDU goes out in one, with nothing linked behind it. -/
theorem svc_short (hZ : 1 ≤ Z) (hZ' : Z ≤ 16382) (h : Idle Z s) {u : Bytes} (hu : u.length ≤ Z)
    (q : Bool) :
    ∃ s' ms outs, s.svc (u, q) = .ok (s', ms) ∧ Delivers Z s s' [] u [] ms outs := by
  have hw : Working Z s.initLocals [] := (h.waiting hZ).working
  have hfront : frontier s.initLocals = s.nextBlock := rfl
  by_cases hfull : u.length = Z
  · obtain ⟨l, hends, hn, hloop⟩ := fillLoop_full (s := s) h.length_eq hw
      (by simpa using hfull) u.length [] (c := u)
    rw [List.append_nil] at hloop
    have hsvc := svc_list hZ' h u q hloop hends
    rw [hn] at hsvc
    have hfe := hends.frontier_eq
    rw [frontier, hn] at hfe
    have hne := List.length_pos_iff.1 (by omega : 0 < u.length)
    refine ⟨_, _, [[u]], hsvc, ⟨?_, by simp, by simp [sendList], by simp [sendList, hfront],
      hfe, rfl, ?_⟩⟩
    · refine List.Forall₂.cons ?_ List.Forall₂.nil
      rw [Carries]
      exact (extract_pdu le_rfl u hne).trans (by rw [if_neg (by decide), if_pos rfl])
    · exact ⟨h.length_eq, fun _ => rfl, by simp, by simp, by simp, hZ⟩
  · obtain ⟨l, hends, hloop⟩ := fillLoop_partly (s := s) h.length_eq hw (c := u)
      (by simp; omega) u.length
    rw [List.nil_append] at hends
    have hsvc := svc_list hZ' h u q hloop hends
    obtain ⟨b, hb⟩ := Option.ne_none_iff_exists'.1 (hends.some_made.resolve_left (by simp))
    have hbid : b.id = s.nextBlock := by
      have hfe := hends.frontier_eq
      rw [frontier, hb] at hfe; exact hfe
    rw [hb] at hsvc
    refine ⟨_, _, [if u.length = 0 then [] else [u]], hsvc, ⟨?_, ?_, by simp [sendList],
      by simp [sendList, hbid], ?_, rfl, ?_⟩⟩
    · exact List.Forall₂.cons (extract_closed (by omega) hZ') List.Forall₂.nil
    · by_cases h0 : u.length = 0
      · simp [List.length_eq_zero_iff.1 h0]
      · simp [h0]
    · show l.nextId = _
      rw [hends.working.next_eq b hb, hbid]; rfl
    · exact ⟨h.length_eq, fun _ => rfl, by simp, by simp, by simp, hZ⟩

/-- **A unit that does not fit one B_PDU goes out with the second linked behind the first.** -/
theorem svc_long (hZ : 1 ≤ Z) (hZ' : Z ≤ 16382) (h : Idle Z s) (u : Bytes) (q : Bool) :
    ∃ s' ms, s.svc (u, q) = .ok (s', ms) ∧ Idle Z s' ∧
      (Z < u.length → ∃ m₁ m₂ ms', ms = m₁ :: m₂ :: ms' ∧ m₂.block.id ∈ m₁.cont) := by
  obtain ⟨l, fulls, zones, d, hloop, hfl, hdata, hends⟩ :=
    fillLoop_spec (s := s) h.length_eq (u.length + 1) s.initLocals [] u (h.waiting hZ).working
      (Nat.lt_succ_self _)
  refine ⟨_, _, svc_list hZ' h u q hloop hends, ⟨h.length_eq, h.mode, rfl⟩, fun hu => ?_⟩
  have hlen : zones.flatten.length = fulls.length * Z := by
    clear hdata hends
    induction hfl with
    | nil => simp
    | cons hb _ ih =>
      rw [List.flatten_cons, List.length_append, hb.2, ih, List.length_cons, Nat.succ_mul,
        Nat.add_comm]
  have hd := hends.working.lt
  have hsum : fulls.length * Z + d.length = u.length := by
    rw [← hlen, ← List.length_append, hdata, List.nil_append]
  set bs := fulls ++ (l.bpdu.map fun b => (⟨b.id, closed Z d⟩ : Block)).toList with hbs
  have htwo : 2 ≤ bs.length := by
    cases hb : l.bpdu with
    | none =>
      obtain rfl := hends.working.empty hb
      have : 1 < fulls.length := by
        by_contra hc
        have : fulls.length * Z ≤ 1 * Z := Nat.mul_le_mul_right Z (by omega)
        simp only [List.length_nil] at hsum; omega
      simp [hbs]; omega
    | some b =>
      have : 0 < fulls.length := by
        by_contra hc
        rw [Nat.eq_zero_of_not_pos hc, Nat.zero_mul] at hsum; omega
      simp [hbs, hb]; omega
  match bs, htwo with
  | b₁ :: b₂ :: bs', _ => exact ⟨_, _, _, rfl, by simp⟩

end Add

/-! ## Runs -/

namespace Add

variable {s : Add} {Z : ℕ}

/-- A unit that leaves nothing linked: any with send-immediately on, and one that fits a
B_PDU with it off. -/
def Fits (Z : ℕ) (s : Add) (u : Bytes) : Prop :=
  s.sendImmediately = true ∨ (s.unfilledBpdu = none ∧ u.length ≤ Z)

/-- One turn of either kind. -/
theorem svc_delivers (hZ : 1 ≤ Z) (hZ' : Z ≤ 16382) {d : Bytes} (h : Waiting Z s d) {u : Bytes}
    (q : Bool) (hfit : Fits Z s u) :
    ∃ s' ms outs d', s.svc (u, q) = .ok (s', ms) ∧ Delivers Z s s' d u d' ms outs ∧
      (q = true → d' = []) ∧ (s.sendImmediately = false → s'.unfilledBpdu = none) := by
  by_cases hi : s.sendImmediately = true
  · obtain ⟨s', ms, outs, d', hsvc, hdel, hq⟩ := svc_immediately hZ hZ' h hi u q
    exact ⟨s', ms, outs, d', hsvc, hdel, hq, fun hf => absurd hf (by simp [hi])⟩
  · obtain ⟨hn, hu⟩ := hfit.resolve_left hi
    have hidle : Idle Z s := ⟨h.length_eq, by simpa using hi, hn⟩
    obtain rfl := h.empty hn
    obtain ⟨s', ms, outs, hsvc, hdel⟩ := svc_short hZ hZ' hidle hu q
    obtain ⟨s'', ms', hsvc', hidle', -⟩ := svc_long hZ hZ' hidle u q
    obtain ⟨rfl, -⟩ : s' = s'' ∧ ms = ms' := by simpa using hsvc.symm.trans hsvc'
    exact ⟨s', ms, outs, [], hsvc, hdel, fun _ => rfl, fun _ => hidle'.empty⟩

/-- **A run of units that fit delivers what came in**, but for the octets that wait. -/
theorem run_delivers (hZ : 1 ≤ Z) (hZ' : Z ≤ 16382) :
    ∀ (inputs : List (Bytes × Bool)) {s : Add} {d : Bytes}, Waiting Z s d →
      (s.sendImmediately = true ∨ (s.unfilledBpdu = none ∧ ∀ a ∈ inputs, a.1.length ≤ Z)) →
      (inputs = [] → d = []) → (∀ a ∈ inputs.getLast?, a.2 = true) →
      ∃ s' ms outs, runAll Add.svc s inputs = .ok (s', ms) ∧ List.Forall₂ Carries ms outs ∧
        outs.flatten.flatten = d ++ (inputs.map Prod.fst).flatten ∧ (∀ m ∈ ms, m.cont = []) ∧
        ms.map (fun m => m.block.id) = List.range' s.nextBlock ms.length := by
  intro inputs
  induction inputs with
  | nil =>
    intro s d _ _ hd _
    exact ⟨s, [], [], rfl, List.Forall₂.nil, by simp [hd rfl], by simp, rfl⟩
  | cons a inputs ih =>
    intro s d h hfit _ hlast
    obtain ⟨u, q⟩ := a
    have hf : Fits Z s u := hfit.imp_right fun hf => ⟨hf.1, hf.2 (u, q) (by simp)⟩
    obtain ⟨s₁, ms₁, outs₁, d₁, hsvc, hdel, hq, hun⟩ := svc_delivers hZ hZ' h q hf
    have hmode := hdel.mode
    obtain ⟨s₂, ms₂, outs₂, hrun, hcar, hdata, hcont, hids⟩ := ih hdel.waiting
      (by
        rcases hfit with hi | ⟨hn, hu⟩
        · exact Or.inl (hmode.trans hi)
        · by_cases hi : s.sendImmediately = true
          · exact Or.inl (hmode.trans hi)
          · exact Or.inr ⟨hun (by simpa using hi), fun a ha => hu a (by simp [ha])⟩)
      (by
        rintro rfl
        exact hq (hlast (u, q) (by simp)))
      (by
        intro a ha
        refine hlast a ?_
        cases inputs with
        | nil => simp at ha
        | cons b bs => simpa [List.getLast?_cons_cons] using ha)
    refine ⟨s₂, ms₁ ++ ms₂, outs₁ ++ outs₂, runAll_cons hsvc hrun,
      List.rel_append hdel.carries hcar, ?_, ?_, ?_⟩
    · rw [List.flatten_append, List.flatten_append, hdata, ← List.append_assoc, hdel.data,
        List.map_cons, List.flatten_cons, List.append_assoc]
    · intro m hm
      rcases List.mem_append.1 hm with hm | hm
      · exact hdel.unlinked m hm
      · exact hcont m hm
    · rw [List.map_append, hdel.ids, hids, hdel.next, List.length_append, List.range'_append_1]

/-- A run with a unit that does not fit, send-immediately off, sends linked messages. -/
theorem run_linked (hZ : 1 ≤ Z) (hZ' : Z ≤ 16382) :
    ∀ (inputs : List (Bytes × Bool)) {s : Add}, Idle Z s →
      ∃ s' ms, runAll Add.svc s inputs = .ok (s', ms) ∧
        ((∃ a ∈ inputs, Z < a.1.length) →
          ∃ pre m₁ m₂ post, ms = pre ++ m₁ :: m₂ :: post ∧ m₂.block.id ∈ m₁.cont) := by
  intro inputs
  induction inputs with
  | nil => intro s _; exact ⟨s, [], rfl, by simp⟩
  | cons a inputs ih =>
    intro s h
    obtain ⟨u, q⟩ := a
    obtain ⟨s₁, ms₁, hsvc, hidle, hlong⟩ := svc_long hZ hZ' h u q
    obtain ⟨s₂, ms₂, hrun, hrest⟩ := ih hidle
    refine ⟨s₂, ms₁ ++ ms₂, runAll_cons hsvc hrun, ?_⟩
    rintro ⟨a, ha, hlt⟩
    rcases List.mem_cons.1 ha with rfl | ha
    · obtain ⟨m₁, m₂, ms', rfl, hlink⟩ := hlong hlt
      exact ⟨[], m₁, m₂, ms' ++ ms₂, by simp, hlink⟩
    · obtain ⟨pre, m₁, m₂, post, rfl, hlink⟩ := hrest ⟨a, ha, hlt⟩
      exact ⟨ms₁ ++ pre, m₁, m₂, post, by simp, hlink⟩

/-- The sender when its `svc` starts, for a data zone of `Z` octets. -/
def start (sendImmediately : Bool) (Z : ℕ) : Add :=
  { sendImmediately, bpduLength := Z + spanHeader }

end Add

/-- What comes out is what went in: `inputs` are the units and, for each, whether the
queue is empty behind it. -/
def StreamPreserved (Z : ℕ) (sendImmediately : Bool) (inputs : List (Bytes × Bool)) : Prop :=
  ∃ a sent r received, runAll Add.svc (Add.start sendImmediately Z) inputs = .ok (a, sent) ∧
    runAll Remove.svc {} sent = .ok (r, received) ∧
    received.flatten = (inputs.map Prod.fst).flatten

/-- A unit of two octets over a zone of one, send-immediately off: the second B_PDU is
released with the first. -/
theorem linked_list_lost : ¬ ∀ (Z : ℕ) (sendImmediately : Bool) (inputs : List (Bytes × Bool)),
    1 ≤ Z → Z ≤ 16382 → (∀ a ∈ inputs.getLast?, a.2 = true) →
      StreamPreserved Z sendImmediately inputs := by
  intro h
  obtain ⟨a, sent, r, received, hadd, hrem, -⟩ :=
    h 1 false [([1, 2], true)] (by decide) (by decide) (by simp)
  have hsent : runAll Add.svc (Add.start false 1) [([1, 2], true)] =
      .ok ({ sendImmediately := false, bpduLength := 3, nextId := 2 },
        [⟨⟨0, [0x3F, 0xFF, 1]⟩, [1]⟩, ⟨⟨1, [0x3F, 0xFF, 2]⟩, []⟩]) := by decide
  rw [hsent] at hadd
  obtain ⟨-, rfl⟩ := Prod.mk.inj (Except.ok.inj hadd)
  revert hrem
  have hfault : runAll Remove.svc {} [⟨⟨0, [0x3F, 0xFF, 1]⟩, [1]⟩, ⟨⟨1, [0x3F, 0xFF, 2]⟩, []⟩] =
      .error .useAfterFree := by decide
  rw [hfault]
  exact fun hc => absurd hc (by simp)

/-- **The bitstream service preserves the stream exactly when no list of linked B_PDUs is
sent**: with send-immediately on, or where every unit fits one B_PDU. -/
theorem streamPreserved_iff (Z : ℕ) (sendImmediately : Bool) (inputs : List (Bytes × Bool))
    (hZ : 1 ≤ Z) (hZ' : Z ≤ 16382) (hlast : ∀ a ∈ inputs.getLast?, a.2 = true) :
    StreamPreserved Z sendImmediately inputs ↔
      sendImmediately = true ∨ ∀ a ∈ inputs, a.1.length ≤ Z := by
  constructor
  · rintro ⟨a, sent, r, received, hadd, hrem, -⟩
    by_contra hc
    push Not at hc
    obtain ⟨hi, b, hb, hlt⟩ := hc
    have hidle : Add.Idle Z (Add.start sendImmediately Z) := ⟨rfl, Bool.eq_false_iff.2 hi, rfl⟩
    obtain ⟨s', ms, hrun, hlink⟩ := Add.run_linked hZ hZ' inputs hidle
    obtain ⟨pre, m₁, m₂, post, rfl, hmem⟩ := hlink ⟨b, hb, hlt⟩
    obtain ⟨-, rfl⟩ := Prod.mk.inj (Except.ok.inj (hrun.symm.trans hadd))
    exact remove_run_linked pre post m₁ m₂ hmem _ _ _ hrem
  · intro h
    have hw : Add.Waiting Z (Add.start sendImmediately Z) [] :=
      ⟨rfl, fun _ => rfl, by simp [Add.start], by simp [Add.start], by simp [Add.start], hZ⟩
    obtain ⟨s', ms, outs, hrun, hcar, hdata, hcont, hids⟩ :=
      Add.run_delivers hZ hZ' inputs hw (h.imp_right fun h => ⟨rfl, h⟩) (fun _ => rfl) hlast
    obtain ⟨r, hrem⟩ := remove_run ms outs _ {} hcar hcont hids (by simp)
    exact ⟨s', ms, r, _, hrun, hrem, by rw [hdata, List.nil_append]⟩

/-- Units of any length over a zone of three octets, send-immediately on. -/
theorem streamPreserved_three :
    StreamPreserved 3 true [([1, 2], false), ([], false), ([3, 4, 5, 6, 7], true), ([8], true)] :=
  (streamPreserved_iff 3 true _ (by decide) (by decide) (by simp)).2 (Or.inl rfl)

end ChannelEmulator.Bitstream
