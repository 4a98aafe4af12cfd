import ChannelEmulator.Proof.EncapsulationPacket
import ChannelEmulator.Proof.MpduSender

/-!
# The multiplexing receiver

* `expectedLength_prefix`: the length of a packet is known from the octets of its header.
* `items_run`: **from the start of a packet** the loop sends the packets that lie in the
  rest of the zone and stashes the start of the one that goes on.
* `zone_first`, `zone_mid`, `zone_last`: one zone, received with the start of its first
  packet stashed.
* `run_lossless`: all zones, received in order.
-/

namespace ChannelEmulator.Multiplexing

open Framing

/-! ## Lengths -/

theorem wellFormed_first {p : Bytes} (hp : Encap.WellFormed p) {first : Octet}
    (hf : p.head? = some first) : 2 ≤ first.toNat % 4 ∧
      Encap.minBytesToDetermineLength first ≤ p.length ∧ Encap.expectedLength p = .ok p.length := by
  obtain ⟨f, rest, rfl, h⟩ := hp
  obtain rfl : f = first := Option.some.inj hf
  exact h

/-- The length of a packet is read from its header. -/
theorem expectedLength_prefix {p : Bytes} (hp : Encap.WellFormed p) {first : Octet}
    (hf : p.head? = some first) {n : ℕ} (hn : Encap.minBytesToDetermineLength first ≤ n) :
    Encap.expectedLength (p.take n) = .ok p.length := by
  obtain ⟨hlol, -, hlen⟩ := wellFormed_first hp hf
  rw [Encap.expectedLength_take hf (by omega) hn, hlen]

theorem wellFormed_length_lt {p : Bytes} (hp : Encap.WellFormed p) : p.length < 2 ^ 32 := by
  obtain ⟨f, rest, rfl, -, -, hlen⟩ := hp
  exact Encap.expectedLength_lt hlen

theorem sizeSub_eq {a b : ℕ} (h : b ≤ a) (ha : a < 2 ^ 32) : Remove.sizeSub a b = a - b := by
  rw [Remove.sizeSub, show a + 2 ^ 64 - b = (a - b) + 2 ^ 64 by omega, Nat.add_mod_right]
  exact Nat.mod_eq_of_lt (by omega)

namespace Remove

/-- The chain holds the octets `a` of a packet of which they are the start; parts hang on
it only when the head holds the packet's header. -/
structure Holds (c : Chain) (a : Bytes) : Prop where
  flatten_eq : c.flatten = a
  head_ne : c.head ≠ []
  parts_eq : ∀ first, a.head? = some first →
    c.head.length < Encap.minBytesToDetermineLength first → c.parts = []

/-- What is stashed between M_PDUs. -/
def Stash (s : Remove) (a : Bytes) : Prop :=
  match s.encap with
  | none => a = []
  | some c => Holds c a

/-- A chain that holds the start of a packet, its header included, has all parts when it
holds the packet. -/
theorem hasAllParts_prefix {p : Bytes} (hp : Encap.WellFormed p) {c : Chain} {n : ℕ}
    (hc : c.flatten = p.take n) {first : Octet} (hf : p.head? = some first)
    (hh : Encap.minBytesToDetermineLength first ≤ c.head.length) :
    c.hasAllParts Encap.expectedLength = .ok ((p.take n).length == p.length) := by
  have hlol : 4 ≤ Encap.minBytesToDetermineLength first := by
    obtain ⟨f, rest, rfl, hlol, -⟩ := hp
    obtain rfl : f = first := by simpa using hf
    exact Encap.headerOctets_ge hlol
  have hhead : c.head = p.take c.head.length := by
    have h₁ : c.head = c.flatten.take c.head.length := by simp [Chain.flatten]
    have h₂ : c.head.length ≤ (p.take n).length := by
      rw [← hc]; simp [Chain.flatten]
    rw [hc, List.take_take] at h₁
    rw [List.length_take] at h₂
    rw [min_eq_left (by omega)] at h₁
    exact h₁
  have hexp : Encap.expectedLength c.head = .ok p.length := by
    rw [hhead]; exact expectedLength_prefix hp hf hh
  rw [Chain.hasAllParts, if_neg (by omega), hexp, Chain.totalLength_eq, hc]
  rfl

/-! ## The loop -/

theorem loop_done {s : Remove} {zone : Bytes} {index idx : ℕ} (h : zone.length ≤ idx) (fuel : ℕ) :
    loop fuel s zone index idx = .ok (s, []) := by
  cases fuel with
  | zero => rw [loop, if_neg (by omega)]
  | succ fuel => rw [loop, if_neg (by omega)]

theorem loop_break {s s' : Remove} {zone : Bytes} {index idx fuel : ℕ} {sent : List Bytes}
    (h : idx < zone.length) (hs : s.pass zone index idx = .ok (s', sent, none)) :
    loop (fuel + 1) s zone index idx = .ok (s', sent) := by
  rw [loop, if_pos h]
  show (s.pass zone index idx >>= _) = _
  rw [hs]
  rfl

theorem loop_next {s s₁ s₂ : Remove} {zone : Bytes} {index idx idx' fuel : ℕ}
    {sent sent' : List Bytes} (h : idx < zone.length)
    (hs : s.pass zone index idx = .ok (s₁, sent, some idx'))
    (hl : loop fuel s₁ zone index idx' = .ok (s₂, sent')) :
    loop (fuel + 1) s zone index idx = .ok (s₂, sent ++ sent') := by
  rw [loop, if_pos h]
  show (s.pass zone index idx >>= _) = _
  rw [hs]
  show (loop fuel s₁ zone index idx' >>= _) = _
  rw [hl]
  rfl

/-! ## From the start of a packet -/

variable {s : Remove} {zone : Bytes} {index idx : ℕ}

/-- A fill packet. -/
theorem startPacket_fill {t : Bytes} (hn : s.encap = none)
    (hi : (idx = 0 && hasContinuedData index) = false) (hd : zone.drop idx = 0xE0 :: t) :
    s.pass zone index idx = .ok (s, [],
      if s.allowPacketsAfterFill && s.multiPacketZone then some (idx + 1) else none) := by
  rw [pass, hn]
  show s.startPacket zone index idx = _
  rw [startPacket, hi, octetAt_of_drop hd]
  have h1 : Encap.minBytesToDetermineLength (0xE0 : Octet) = 1 := by decide
  have h2 : Encap.isFill (0xE0 : Octet) = true := by decide
  simp only [Bool.false_eq_true, if_false, bind, Except.bind, h1, h2, decide_true, Bool.and_self,
    if_true, pure, Except.pure]
  cases s.allowPacketsAfterFill <;> cases s.multiPacketZone <;> rfl

/-- A whole packet. -/
theorem startPacket_whole {p t : Bytes} (hp : Encap.WellFormed p) (hn : s.encap = none)
    (hi : (idx = 0 && hasContinuedData index) = false) (hd : zone.drop idx = p ++ t) :
    s.pass zone index idx = .ok (s, [p],
      if s.multiPacketZone then some (idx + p.length) else none) := by
  have hlt := wellFormed_length_lt hp
  have hp' := hp
  obtain ⟨f, rest, hpf, hlol, hmin, -⟩ := hp'
  have hf : p.head? = some f := by rw [hpf]; rfl
  have h4 := Encap.headerOctets_ge hlol
  generalize hm : Encap.minBytesToDetermineLength f = m at *
  have hrem : zone.length - idx = p.length + t.length := by
    rw [← List.length_drop, hd, List.length_append]
  have hhead : (zone.drop idx).take m = p.take m := by
    rw [hd, List.take_append_of_le_length hmin]
  have hexp : Encap.expectedLength (p.take m) = .ok p.length :=
    expectedLength_prefix hp hf (by omega)
  have hlen : (if sizeSub p.length m ≥ p.length + t.length - m then p.length + t.length - m
      else sizeSub p.length m) = p.length - m := by
    rw [sizeSub_eq hmin hlt]
    split <;> omega
  have htail : (zone.drop (idx + m)).take (p.length - m) = p.drop m := by
    rw [← List.drop_drop, hd, List.drop_append_of_le_length hmin,
      List.take_left' (by rw [List.length_drop])]
  have hchain : (⟨p.take m, []⟩ : Chain).append (p.drop m) = ⟨p, []⟩ := by
    rw [Chain.append, List.take_append_drop]
  have hall := hasAllParts_prefix hp (c := ⟨p, []⟩) (n := p.length) (by simp [Chain.flatten]) hf
    (by rw [hm]; exact hmin)
  rw [List.take_length, beq_self_eq_true] at hall
  rw [pass, hn]
  show s.startPacket zone index idx = _
  rw [startPacket, hi, octetAt_of_drop (b := f) (t := rest ++ t) (by rw [hd, hpf]; rfl)]
  simp only [Bool.false_eq_true, if_false, bind, Except.bind, hm,
    show decide (m = 1) = false by simp; omega, Bool.false_and, hrem,
    if_neg (by omega : ¬ p.length + t.length < m), hhead, hexp, hlen, htail, hchain, hall, if_true,
    pure, Except.pure, sendEncap, Chain.flatten, List.flatten_nil, List.append_nil,
    show idx + m + (p.length - m) = idx + p.length by omega]
  rw [← hn]

/-- The start of a packet that goes on in the next zone. -/
theorem startPacket_trail {p t : Bytes} (hp : Encap.WellFormed p) {n : ℕ} (ht : t = p.take n)
    (hlt : t.length < p.length) (hne : t ≠ []) (hn : s.encap = none)
    (hi : (idx = 0 && hasContinuedData index) = false) (hd : zone.drop idx = t) :
    ∃ c next, s.pass zone index idx = .ok ({ s with encap := some c }, [], next) ∧ Holds c t ∧
      (next = none ∨ next = some zone.length) := by
  have hlt' := wellFormed_length_lt hp
  have hp' := hp
  obtain ⟨f, rest, hpf, hlol, hmin, -⟩ := hp'
  have hf : p.head? = some f := by rw [hpf]; rfl
  have h4 := Encap.headerOctets_ge hlol
  have hdl : zone.length - idx = t.length := by rw [← List.length_drop, hd]
  have htpos : 0 < t.length := List.length_pos_iff.2 hne
  have hpos : 0 < n := by
    rcases Nat.eq_zero_or_pos n with rfl | h
    · rw [List.take_zero] at ht; exact absurd ht hne
    · exact h
  have htf : t.head? = some f := by
    rw [ht, List.head?_take, if_neg (by omega), hf]
  obtain ⟨t', htf'⟩ : ∃ t', t = f :: t' := by
    cases t with
    | nil => exact absurd rfl hne
    | cons b t' => exact ⟨t', by rw [Option.some.inj htf]⟩
  rw [pass, hn]
  show ∃ c next, s.startPacket zone index idx = _ ∧ _
  generalize hm : Encap.minBytesToDetermineLength f = m at *
  rw [startPacket, hi, octetAt_of_drop (b := f) (t := t') (by rw [hd, htf'])]
  simp only [Bool.false_eq_true, if_false, bind, Except.bind, hm,
    show decide (m = 1) = false by simp; omega, Bool.false_and, hdl, hd]
  by_cases hsh : t.length < m
  · -- not even the header is here
    rw [if_pos hsh, List.take_length]
    exact ⟨_, _, rfl, ⟨by simp [Chain.flatten], hne, fun _ _ _ => rfl⟩, Or.inl rfl⟩
  · have hhead : t.take m = p.take m := by
      have hnm : m ≤ n := by
        have : t.length ≤ n := by rw [ht]; exact List.length_take_le n p
        omega
      rw [ht, List.take_take, min_eq_left hnm]
    have hexp : Encap.expectedLength (p.take m) = .ok p.length :=
      expectedLength_prefix hp hf (by omega)
    have hlen : (if sizeSub p.length m ≥ t.length - m then t.length - m
        else sizeSub p.length m) = t.length - m := by
      rw [sizeSub_eq hmin hlt', if_pos (by omega)]
    have htail : (zone.drop (idx + m)).take (t.length - m) = t.drop m := by
      rw [← List.drop_drop, hd, List.take_of_length_le (by rw [List.length_drop])]
    have hchain : (⟨p.take m, []⟩ : Chain).append (t.drop m) = ⟨t, []⟩ := by
      rw [Chain.append, ← hhead, List.take_append_drop]
    have hall := hasAllParts_prefix hp (c := ⟨t, []⟩) (n := n)
      (by simp [Chain.flatten, ht]) hf (by rw [hm]; show m ≤ t.length; omega)
    rw [← ht, show (t.length == p.length) = false by simp; omega] at hall
    rw [if_neg hsh, hhead]
    simp only [hexp, hlen, htail, hchain, hall, Bool.false_eq_true, if_false, pure, Except.pure]
    refine ⟨_, _, rfl, ⟨by simp [Chain.flatten], hne, fun _ _ _ => rfl⟩, Or.inr ?_⟩
    rw [show idx + m + (t.length - m) = zone.length by omega]

/-- Only what is stashed differs. -/
def SameSetup (s s' : Remove) : Prop := s' = { s with encap := s'.encap }

theorem SameSetup.trans {s s₁ s₂ : Remove} (h₁ : SameSetup s s₁) (h₂ : SameSetup s₁ s₂) :
    SameSetup s s₂ := by
  rw [SameSetup] at *
  rw [h₂, h₁]

/-- The start of a packet that is not finished, or nothing. -/
def Unfinished (t : Bytes) : Prop :=
  t = [] ∨ ∃ p n, Encap.WellFormed p ∧ t = p.take n ∧ t.length < p.length

theorem guard_false (h : hasContinuedData index = false ∨ 0 < idx) :
    (idx = 0 && hasContinuedData index) = false := by
  rcases h with h | h
  · rw [h, Bool.and_false]
  · rw [show decide (idx = 0) = false by simp; omega, Bool.false_and]

/-- A rest of fill is passed over. -/
theorem fills_run : ∀ (k fuel idx : ℕ), s.encap = none →
    (hasContinuedData index = false ∨ 0 < idx) → zone.drop idx = List.replicate k 0xE0 →
      zone.length - idx ≤ fuel → loop fuel s zone index idx = .ok (s, []) := by
  intro k
  induction k with
  | zero =>
    intro fuel idx _ _ hd _
    have := congrArg List.length hd
    rw [List.length_drop] at this
    exact loop_done (by simp at this; omega) fuel
  | succ k ih =>
    intro fuel idx hn hg hd hf
    have hlen := congrArg List.length hd
    rw [List.length_drop, List.length_replicate] at hlen
    obtain ⟨fuel, rfl⟩ : ∃ f, fuel = f + 1 := ⟨fuel - 1, by omega⟩
    rw [List.replicate_succ] at hd
    have hstep := startPacket_fill hn (guard_false hg) hd
    by_cases hb : (s.allowPacketsAfterFill && s.multiPacketZone) = true
    · rw [if_pos hb] at hstep
      have hd' : zone.drop (idx + 1) = List.replicate k 0xE0 := by
        rw [← List.drop_drop, hd]; rfl
      exact loop_next (by omega) hstep
        (ih fuel (idx + 1) hn (Or.inr (Nat.succ_pos _)) hd' (by omega))
    · rw [if_neg hb] at hstep
      exact loop_break (by omega) hstep

/-- **From the start of a packet**: the packets in the rest of the zone are sent, and the
start of the one that goes on is stashed. -/
theorem items_run : ∀ (ps : List Bytes) {k fuel idx : ℕ} {trail : Bytes} {s : Remove},
    (∀ p ∈ ps, Encap.WellFormed p) → Unfinished trail → (0 < k → trail = []) →
    (s.multiPacketZone = false → ps.length + share trail ≤ 1) → s.encap = none →
    (hasContinuedData index = false ∨ 0 < idx) →
    zone.drop idx = ps.flatten ++ (List.replicate k 0xE0 ++ trail) → zone.length - idx ≤ fuel →
      ∃ s', loop fuel s zone index idx = .ok (s', ps) ∧ Stash s' trail ∧ SameSetup s s' := by
  intro ps
  induction ps with
  | nil =>
    intro k fuel idx trail s _ ht hk _ hn hg hd hf
    by_cases hk0 : 0 < k
    · obtain rfl := hk hk0
      rw [List.flatten_nil, List.nil_append, List.append_nil] at hd
      exact ⟨s, fills_run k fuel idx hn hg hd hf, by rw [Stash, hn], rfl⟩
    · obtain rfl : k = 0 := by omega
      rw [List.flatten_nil, List.nil_append, List.replicate_zero, List.nil_append] at hd
      by_cases he : trail = []
      · subst he
        exact ⟨s, fills_run 0 fuel idx hn hg (by rw [hd]; rfl) hf, by rw [Stash, hn], rfl⟩
      obtain ⟨p, n, hp, htake, hlt⟩ := ht.resolve_left he
      obtain ⟨c, next, hstep, hc, hnext⟩ :=
        startPacket_trail hp htake hlt he hn (guard_false hg) hd
      have hlen : zone.length - idx = trail.length := by rw [← List.length_drop, hd]
      have hpos := List.length_pos_iff.2 he
      obtain ⟨fuel, rfl⟩ : ∃ f, fuel = f + 1 := ⟨fuel - 1, by omega⟩
      refine ⟨{ s with encap := some c }, ?_, hc, rfl⟩
      rcases hnext with rfl | rfl
      · exact loop_break (by omega) hstep
      · exact loop_next (by omega) hstep (loop_done le_rfl fuel)
  | cons p ps ih =>
    intro k fuel idx trail s hps ht hk hm hn hg hd hf
    have hp := hps p (by simp)
    rw [List.flatten_cons, List.append_assoc] at hd
    have hlen : zone.length - idx = p.length + (ps.flatten ++ (List.replicate k 0xE0 ++ trail)).length := by
      rw [← List.length_drop, hd, List.length_append]
    have hpos : 0 < p.length := by
      obtain ⟨f, rest, rfl, -⟩ := hp; simp
    obtain ⟨fuel, rfl⟩ : ∃ f, fuel = f + 1 := ⟨fuel - 1, by omega⟩
    have hstep := startPacket_whole hp hn (guard_false hg) hd
    by_cases hmulti : s.multiPacketZone = true
    · rw [if_pos hmulti] at hstep
      have hd' : zone.drop (idx + p.length) = ps.flatten ++ (List.replicate k 0xE0 ++ trail) := by
        rw [← List.drop_drop, hd, List.drop_left]
      obtain ⟨s', hloop, hst, hsame⟩ := ih (fun q hq => hps q (by simp [hq])) ht hk
        (fun h => absurd h (by simp [hmulti])) hn (Or.inr (by omega)) hd'
        (by omega : zone.length - (idx + p.length) ≤ fuel)
      exact ⟨s', loop_next (by omega) hstep hloop, hst, hsame⟩
    · -- only one packet has octets in the zone
      rw [if_neg hmulti] at hstep
      have hone := hm (by simpa using hmulti)
      rw [List.length_cons] at hone
      obtain rfl : ps = [] := List.length_eq_zero_iff.1 (by omega)
      have htr : trail = [] := by
        have : share trail = 0 := by simp at hone; omega
        rw [share] at this
        exact List.length_eq_zero_iff.1 (by by_contra hc; simp [hc] at this)
      exact ⟨s, loop_break (by omega) hstep, by rw [Stash, hn]; exact htr, rfl⟩

/-! ## The rest of a packet begun earlier -/

/-- The chain with the front part of the zone behind it. -/
def extend (c : Chain) (first : Octet) (part : Bytes) : Chain :=
  if c.head.length ≥ Encap.minBytesToDetermineLength first then c.addPart part else c.append part

/-- What the chain is after its packet goes on. -/
theorem Holds.extend {c : Chain} {a : Bytes} (h : Holds c a) {first : Octet}
    (hf : a.head? = some first) (part : Bytes) :
    Holds (extend c first part) (a ++ part) ∧
      (Encap.minBytesToDetermineLength first ≤ (a ++ part).length →
        Encap.minBytesToDetermineLength first ≤ (Remove.extend c first part).head.length) := by
  obtain ⟨hfl, hne, hparts⟩ := h
  have hf' : (a ++ part).head? = some first := by
    cases a with
    | nil => simp at hf
    | cons b t => simpa using hf
  rw [Remove.extend]
  by_cases hc : c.head.length ≥ Encap.minBytesToDetermineLength first
  · rw [if_pos hc]
    refine ⟨⟨by rw [Chain.flatten_addPart, hfl], hne, fun g hg hlt => ?_⟩, fun _ => hc⟩
    obtain rfl : first = g := Option.some.inj (hf'.symm.trans hg)
    exact absurd hlt (by show ¬ c.head.length < _; omega)
  · have hp := hparts first hf (by omega)
    have hhead : c.head = a := by rw [← hfl, Chain.flatten, hp]; simp
    rw [if_neg hc]
    refine ⟨⟨by rw [Chain.flatten_append _ _ hp, hfl], by simp [Chain.append, hne], fun _ _ _ => hp⟩,
      fun hle => ?_⟩
    rw [Chain.append, hhead]
    exact hle

/-- **The first pass over a zone that goes on with a packet**, where the length of what
is put together can be read. -/
theorem pass_continued {c : Chain} {a part : Bytes} {first : Octet} {L : ℕ} (hs : s.encap = some c)
    (hc : Holds c a) (hf : a.head? = some first) (hi : hasContinuedData index = true)
    (hle : (if hasHeaderlessData index then zone.length else index) = part.length)
    (hpart : zone.take part.length = part) (h4 : 4 ≤ (extend c first part).head.length)
    (hmin : Encap.minBytesToDetermineLength first ≤ (extend c first part).head.length)
    (hexp : Encap.expectedLength (extend c first part).head = .ok L) :
    s.pass zone index 0 =
      if (a ++ part).length = L then
        .ok ({ s with encap := none }, [a ++ part],
          if s.multiPacketZone then some part.length else none)
      else if hasHeaderlessData index = true ∧ (a ++ part).length < L then
        .ok ({ s with encap := some (extend c first part) }, [], some part.length)
      else .ok (s.dropEncap, [], some part.length) := by
  have hext := (hc.extend hf part).1
  have htot : (extend c first part).totalLength = (a ++ part).length := by
    rw [Chain.totalLength_eq, hext.flatten_eq]
  have hall : (extend c first part).hasAllParts Encap.expectedLength =
      .ok ((a ++ part).length == L) := by
    rw [Chain.hasAllParts, if_neg (by omega), hexp, htot]; rfl
  have hoct : octetAt c.head 0 = .ok first := by
    obtain ⟨b, t, hb⟩ : ∃ b t, c.head = b :: t := by
      cases hh : c.head with
      | nil => exact absurd hh hc.head_ne
      | cons b t => exact ⟨b, t, rfl⟩
    have hab : a.head? = some b := by rw [← hc.flatten_eq, Chain.flatten, hb]; rfl
    rw [hb, Option.some.inj (hf.symm.trans hab)]; rfl
  have hE : (if c.head.length ≥ Encap.minBytesToDetermineLength first then c.addPart part
      else c.append part) = extend c first part := rfl
  have hzl : part.length ≤ zone.length := by
    have := congrArg List.length hpart
    rw [List.length_take] at this
    omega
  rw [pass, hs]
  show s.continuePacket c zone index 0 = _
  rw [continuePacket, hoct]
  simp only [bind, Except.bind, hi, hle, hpart, hE, if_neg (by omega : ¬ zone.length < part.length),
    decide_true, Bool.and_self, if_true, hall, hexp, htot, if_pos hmin, Nat.zero_add, pure,
    Except.pure, sendEncap, hext.flatten_eq, beq_iff_eq, ge_iff_le]
  by_cases h₁ : (a ++ part).length = L
  · simp only [h₁, if_true]
  · simp only [h₁, if_false]
    cases hh : hasHeaderlessData index with
    | false => simp
    | true =>
      by_cases h₂ : (a ++ part).length < L
      · simp only [Bool.not_true, Bool.false_eq_true, if_false, h₂, true_and, if_true,
          if_neg (by omega : ¬ L < (a ++ part).length)]
      · simp only [Bool.not_true, Bool.false_eq_true, if_false, h₂, and_false,
          if_pos (by omega : L < (a ++ part).length)]

/-- Where the octets put together hold a header, the length read is theirs. -/
theorem expectedLength_extend {c : Chain} {a part : Bytes} {first : Octet} (hc : Holds c a)
    (hf : a.head? = some first) (hlol : 2 ≤ first.toNat % 4)
    (hmin : Encap.minBytesToDetermineLength first ≤ (a ++ part).length) :
    Encap.minBytesToDetermineLength first ≤ (extend c first part).head.length ∧
      Encap.expectedLength (extend c first part).head = Encap.expectedLength (a ++ part) := by
  obtain ⟨hext, hhead⟩ := hc.extend hf part
  refine ⟨hhead hmin, ?_⟩
  have h₁ : (extend c first part).head =
      (extend c first part).flatten.take (extend c first part).head.length := by
    simp [Chain.flatten]
  have hf' : (a ++ part).head? = some first := by
    cases a with
    | nil => simp at hf
    | cons b t => simpa using hf
  rw [hext.flatten_eq] at h₁
  rw [h₁]
  exact Encap.expectedLength_take hf' (by omega) (hhead hmin)

/-! ## One zone -/

/-- The index an M_PDU's header holds. -/
def indexOf (z : Zone Octet) : ℕ := z.header.getD hasHeaderlessVal

theorem tidy_header_lt {multi : Bool} {z : Zone Octet} (ht : Tidy multi z) {i : ℕ}
    (h : z.header = some i) : i = z.lead.length ∧ i < z.flat.length := by
  obtain ⟨rfl, -⟩ := z.header_le h
  refine ⟨rfl, ?_⟩
  rw [Zone.header] at h
  obtain ⟨ps, k, hw, hps, -, -⟩ := ht
  by_cases hwh : z.whole = []
  · have htr : z.trail ≠ [] := fun htr => by rw [if_pos ⟨hwh, htr⟩] at h; exact absurd h (by simp)
    have := List.length_pos_iff.2 htr
    simp only [Zone.flat, List.length_append]
    omega
  · have : 0 < z.whole.flatten.length := by
      rw [hw]
      rcases ps with _ | ⟨p, ps⟩
      · rw [List.nil_append, Add.replicate_fillPacket_flatten, List.length_replicate]
        rcases Nat.eq_zero_or_pos k with rfl | hk
        · exact absurd hw hwh
        · exact hk
      · obtain ⟨f, rest, rfl, -⟩ := hps p (by simp)
        simp
    simp only [Zone.flat, List.length_append]
    omega

theorem indexOf_le {multi : Bool} {z : Zone Octet} (ht : Tidy multi z)
    (hZ : z.flat.length ≤ 2046) : indexOf z ≤ hasHeaderlessVal ∧ indexOf z ≠ hasIdleVal := by
  rw [indexOf]
  cases h : z.header with
  | none => exact ⟨le_rfl, by decide⟩
  | some i =>
    have := (tidy_header_lt ht h).2
    rw [Option.getD_some, hasHeaderlessVal, hasIdleVal]
    omega

theorem assembleEncap_encode {multi : Bool} {z : Zone Octet} (ht : Tidy multi z)
    (hZ : z.flat.length ≤ 2046) (s : Remove) :
    s.assembleEncap (encode z) = loop (2 * z.flat.length + 1) s z.flat (indexOf z) 0 := by
  obtain ⟨hle, hne⟩ := indexOf_le ht hZ
  have hget : getFirstHeaderIndex (encode z) = .ok (indexOf z) := getFirstHeaderIndex_mpdu hle _
  have hidle : isIdle (indexOf z) = false := decide_eq_false hne
  unfold assembleEncap
  rw [hget]
  simp only [bind, Except.bind, hidle, Bool.false_eq_true, if_false]
  rfl

/-- The items of a zone, from where the first of them starts. -/
theorem zone_items {z : Zone Octet} (ht : Tidy s.multiPacketZone z) (hu : Unfinished z.trail)
    (hn : s.encap = none) (hg : hasContinuedData (indexOf z) = false ∨ 0 < z.lead.length) {fuel : ℕ}
    (hf : z.flat.length ≤ fuel) :
    ∃ s', loop fuel s z.flat (indexOf z) z.lead.length = .ok (s', Add.unfilled z.whole) ∧
      Stash s' z.trail ∧ SameSetup s s' := by
  obtain ⟨ps, k, hw, hps, hk, hone⟩ := ht
  have hun : Add.unfilled z.whole = ps := by
    rw [hw, Add.unfilled_append, Add.unfilled_replicate, List.append_nil,
      Add.unfilled_of_wellFormed hps]
  rw [hun]
  refine items_run ps hps hu hk (fun h => ?_) hn hg ?_ (by omega)
  · have := hone h; omega
  · rw [Zone.flat, List.drop_left, hw, List.flatten_append, Add.replicate_fillPacket_flatten,
      List.append_assoc]

/-- A zone that starts with a packet. -/
theorem zone_first {z : Zone Octet} (ht : Tidy s.multiPacketZone z) (hZ : z.flat.length ≤ 2046)
    (hpos : 0 < z.flat.length) (hu : Unfinished z.trail) (hl : z.lead = []) (hs : Stash s []) :
    ∃ s', s.assembleEncap (encode z) = .ok (s', Add.unfilled z.whole) ∧ Stash s' z.trail ∧
      SameSetup s s' := by
  have hn : s.encap = none := by
    cases he : s.encap with
    | none => rfl
    | some c =>
      rw [Stash, he] at hs
      have := hs.flatten_eq
      rw [Chain.flatten] at this
      exact absurd (List.append_eq_nil_iff.1 this).1 hs.head_ne
  have hi : indexOf z = 0 := by
    rw [indexOf, Zone.header, if_neg, hl]
    · rfl
    · rintro ⟨hw, htr⟩
      rw [Zone.flat, hl, hw, htr] at hpos
      exact absurd hpos (by simp)
  rw [assembleEncap_encode ht hZ]
  have := zone_items ht hu hn (Or.inl (by rw [hi]; decide))
    (by omega : z.flat.length ≤ 2 * z.flat.length + 1)
  rwa [hl] at this

/-- The index of a zone that starts with the rest of a packet. -/
theorem continued_index {multi : Bool} {z : Zone Octet} (ht : Tidy multi z)
    (hZ : z.flat.length ≤ 2046) (hl : z.lead ≠ []) :
    hasContinuedData (indexOf z) = true ∧
      (if hasHeaderlessData (indexOf z) then z.flat.length else indexOf z) = z.lead.length ∧
      (hasHeaderlessData (indexOf z) = true ↔ z.whole = [] ∧ z.trail = []) := by
  have hlpos := List.length_pos_iff.2 hl
  rw [indexOf]
  cases h : z.header with
  | none =>
    have hw : z.whole = [] ∧ z.trail = [] := by
      rw [Zone.header] at h
      by_contra hc
      rw [if_neg hc] at h
      exact absurd h (by simp)
    refine ⟨by decide, ?_, fun _ => hw, fun _ => by decide⟩
    simp [hasHeaderlessData, Zone.flat, hw.1, hw.2]
  | some i =>
    obtain ⟨rfl, hlt⟩ := tidy_header_lt ht h
    have h₁ : hasHeaderlessData z.lead.length = false :=
      decide_eq_false (by rw [hasHeaderlessVal]; omega)
    have h₂ : hasHeader z.lead.length = true := decide_eq_true (by rw [hasIdleVal]; omega)
    rw [Option.getD_some]
    refine ⟨by simp [hasContinuedData, h₁, h₂, hlpos], by rw [h₁]; rfl, ?_⟩
    rw [h₁]
    refine ⟨fun hc => absurd hc (by simp), fun hw => ?_⟩
    rw [Zone.header, if_pos hw] at h
    exact absurd h (by simp)

/-- A packet of a prefix that is stashed. -/
theorem stash_some {a : Bytes} (hs : Stash s a) (ha : a ≠ []) :
    ∃ c, s.encap = some c ∧ Holds c a := by
  rw [Stash] at hs
  cases he : s.encap with
  | none => rw [he] at hs; exact absurd hs ha
  | some c => rw [he] at hs; exact ⟨c, rfl, hs⟩

/-- A zone that starts with the rest of a packet meets the octets `g` of a packet that are
stashed; put together they hold a header, which tells the length `L`. -/
structure Meets (s : Remove) (g : Bytes) (z : Zone Octet) (L : ℕ) : Prop where
  stash : Stash s g
  stash_ne : g ≠ []
  lead_ne : z.lead ≠ []
  le : z.flat.length ≤ 2046
  tidy : Tidy s.multiPacketZone z
  unfinished : Unfinished z.trail
  header : ∀ first, g.head? = some first → 2 ≤ first.toNat % 4 ∧
    Encap.minBytesToDetermineLength first ≤ (g ++ z.lead).length
  expected : Encap.expectedLength (g ++ z.lead) = .ok L

namespace Meets

variable {g : Bytes} {z : Zone Octet} {L : ℕ}

/-- The first pass puts the octets together. -/
theorem pass_eq (h : Meets s g z L) : ∃ c, Holds c (g ++ z.lead) ∧
    s.pass z.flat (indexOf z) 0 =
      if (g ++ z.lead).length = L then
        .ok ({ s with encap := none }, [g ++ z.lead],
          if s.multiPacketZone then some z.lead.length else none)
      else if (z.whole = [] ∧ z.trail = []) ∧ (g ++ z.lead).length < L then
        .ok ({ s with encap := some c }, [], some z.lead.length)
      else .ok (s.dropEncap, [], some z.lead.length) := by
  obtain ⟨c, hc, hh⟩ := stash_some h.stash h.stash_ne
  obtain ⟨first, hf⟩ : ∃ first, g.head? = some first := by
    cases g with
    | nil => exact absurd rfl h.stash_ne
    | cons b t => exact ⟨b, rfl⟩
  obtain ⟨hlol, hmin⟩ := h.header first hf
  obtain ⟨hci, hle, hhl⟩ := continued_index h.tidy h.le h.lead_ne
  obtain ⟨hhead, hexp⟩ := expectedLength_extend hh hf hlol hmin
  have hpart : z.flat.take z.lead.length = z.lead := by rw [Zone.flat, List.take_left]
  have h4 := Encap.headerOctets_ge hlol
  have hpass := pass_continued hc hh hf hci hle hpart (by omega) hhead (hexp.trans h.expected)
  refine ⟨extend c first z.lead, (hh.extend hf z.lead).1, ?_⟩
  rw [hpass]
  simp only [hhl]

theorem lead_lt (h : Meets s g z L) : 0 < z.lead.length ∧ z.lead.length ≤ z.flat.length :=
  ⟨List.length_pos_iff.2 h.lead_ne, by simp [Zone.flat]⟩

/-- What is put together has its length. -/
theorem completed (h : Meets s g z L) (hL : (g ++ z.lead).length = L) :
    ∃ s', s.assembleEncap (encode z) = .ok (s', (g ++ z.lead) :: Add.unfilled z.whole) ∧
      Stash s' z.trail ∧ SameSetup s s' := by
  obtain ⟨c, -, hpass⟩ := h.pass_eq
  obtain ⟨hlt, hle⟩ := h.lead_lt
  rw [if_pos hL] at hpass
  rw [assembleEncap_encode h.tidy h.le]
  by_cases hm : s.multiPacketZone = true
  · rw [if_pos hm] at hpass
    obtain ⟨s', hloop, hst, hsame⟩ := zone_items (s := { s with encap := none }) h.tidy h.unfinished
      rfl (Or.inr hlt) (by omega : z.flat.length ≤ 2 * z.flat.length)
    exact ⟨s', loop_next (by omega) hpass hloop, hst, hsame⟩
  · -- only this packet has octets in the zone
    rw [if_neg hm] at hpass
    obtain ⟨ps, k, hw, hps, -, hone⟩ := h.tidy
    have hone := hone (by simpa using hm)
    have hsl : share z.lead = 1 := by rw [share, if_neg (by omega)]
    obtain rfl : ps = [] := List.length_eq_zero_iff.1 (by omega)
    have htr : z.trail = [] := by
      have : share z.trail = 0 := by omega
      rw [share] at this
      exact List.length_eq_zero_iff.1 (by by_contra hc; simp [hc] at this)
    have hun : Add.unfilled z.whole = [] := by rw [hw, List.nil_append, Add.unfilled_replicate]
    rw [hun]
    exact ⟨{ s with encap := none }, loop_break (by omega) hpass, htr, rfl⟩

/-- What is put together waits for more. -/
theorem waits (h : Meets s g z L) (hw : z.whole = []) (ht : z.trail = [])
    (hL : (g ++ z.lead).length < L) :
    ∃ s', s.assembleEncap (encode z) = .ok (s', []) ∧ Stash s' (g ++ z.lead) ∧ SameSetup s s' := by
  obtain ⟨c, hh, hpass⟩ := h.pass_eq
  obtain ⟨hlt, -⟩ := h.lead_lt
  have hflat : z.flat.length = z.lead.length := by simp [Zone.flat, hw, ht]
  rw [if_neg (by omega), if_pos ⟨⟨hw, ht⟩, hL⟩] at hpass
  rw [assembleEncap_encode h.tidy h.le]
  exact ⟨_, loop_next (by omega) hpass (loop_done (by omega) _), hh, rfl⟩

/-- What is put together is dropped; the packets behind it are received. -/
theorem dropped (h : Meets s g z L) (hL : (g ++ z.lead).length ≠ L)
    (hw : (z.whole = [] ∧ z.trail = []) → L ≤ (g ++ z.lead).length) :
    ∃ s', s.assembleEncap (encode z) = .ok (s', Add.unfilled z.whole) ∧ Stash s' z.trail ∧
      SameSetup s.dropEncap s' := by
  obtain ⟨c, -, hpass⟩ := h.pass_eq
  obtain ⟨hlt, hle⟩ := h.lead_lt
  rw [if_neg hL, if_neg (fun hc => absurd (hw hc.1) (by omega))] at hpass
  rw [assembleEncap_encode h.tidy h.le]
  obtain ⟨s', hloop, hst, hsame⟩ := zone_items (s := s.dropEncap) h.tidy h.unfinished rfl
    (Or.inr hlt) (by omega : z.flat.length ≤ 2 * z.flat.length)
  exact ⟨s', loop_next (by omega) hpass hloop, hst, hsame⟩

/-- The start of a packet that lies ahead of its rest. -/
theorem of_packet {a r p : Bytes} (hs : Stash s a) (ha : a ≠ []) (hl : z.lead ≠ [])
    (hZ : z.flat.length ≤ 2046) (ht : Tidy s.multiPacketZone z) (hu : Unfinished z.trail)
    (hp : Encap.WellFormed p) (hpe : p = a ++ z.lead ++ r)
    (hmin : ∀ first, p.head? = some first →
      Encap.minBytesToDetermineLength first ≤ (a ++ z.lead).length) :
    Meets s a z p.length := by
  obtain ⟨first, haf, hpf⟩ : ∃ first, a.head? = some first ∧ p.head? = some first := by
    cases a with
    | nil => exact absurd rfl ha
    | cons b t => exact ⟨b, rfl, by rw [hpe]; rfl⟩
  refine ⟨hs, ha, hl, hZ, ht, hu, fun f hf => ?_, ?_⟩
  · obtain rfl : first = f := Option.some.inj (haf.symm.trans hf)
    exact ⟨(wellFormed_first hp hpf).1, hmin first hpf⟩
  · have := expectedLength_prefix hp hpf (hmin first hpf)
    rwa [hpe, List.take_left, ← hpe] at this

end Meets

/-- A zone full of a packet that goes on. -/
theorem zone_mid {a lead p r : Bytes} (hp : Encap.WellFormed p) (ha : a ≠ [])
    (hpe : p = a ++ lead ++ r) (hr : r ≠ []) (h8 : 8 ≤ lead.length) (hZ : lead.length ≤ 2046)
    (ht : Tidy s.multiPacketZone ⟨lead, [], []⟩) (hs : Stash s a) :
    ∃ s', s.assembleEncap (encode ⟨lead, [], []⟩) = .ok (s', []) ∧ Stash s' (a ++ lead) ∧
      SameSetup s s' := by
  have hm : Meets s a ⟨lead, [], []⟩ p.length :=
    .of_packet hs ha (List.length_pos_iff.1 (show 0 < lead.length by omega)) (by simpa [Zone.flat] using hZ) ht
      (Or.inl rfl) hp hpe fun first _ => by
        have := Encap.headerOctets_le first
        simp only [List.length_append]; omega
  refine hm.waits rfl rfl ?_
  have := List.length_pos_iff.2 hr
  simp only [hpe, List.length_append]
  omega

/-- A zone that ends a packet and goes on with others. -/
theorem zone_last {a : Bytes} {z : Zone Octet} (hp : Encap.WellFormed (a ++ z.lead)) (ha : a ≠ [])
    (hl : z.lead ≠ []) (hZ : z.flat.length ≤ 2046) (ht : Tidy s.multiPacketZone z)
    (hu : Unfinished z.trail) (hs : Stash s a) :
    ∃ s', s.assembleEncap (encode z) = .ok (s', (a ++ z.lead) :: Add.unfilled z.whole) ∧
      Stash s' z.trail ∧ SameSetup s s' := by
  have hm : Meets s a z (a ++ z.lead).length :=
    .of_packet hs ha hl hZ ht hu hp (List.append_nil _).symm fun first hf =>
      (wellFormed_first hp hf).2.1
  exact hm.completed rfl

/-! ## All zones in order -/

theorem wellFormed_of_length {x : Bytes} (h : Encap.WellFormed x ∨ x = fillPacket)
    (hl : 2 ≤ x.length) : Encap.WellFormed x := by
  rcases h with h | rfl
  · exact h
  · exact absurd hl (by decide)

/-- The start of a packet carried to its end is unfinished. -/
theorem unfinished_of_carries {t : Bytes} {zs : List (Zone Octet)} {items : List Bytes}
    (h : Carries t zs items []) (hi : ∀ x ∈ items, Encap.WellFormed x ∨ x = fillPacket) :
    Unfinished t := by
  by_cases ht : t = []
  · exact Or.inl ht
  obtain ⟨r, rest, hr, rfl⟩ := h.exists_rest ht rfl
  have h₁ := List.length_pos_iff.2 ht
  have h₂ := List.length_pos_iff.2 hr
  refine Or.inr ⟨t ++ r, t.length, ?_, by rw [List.take_left], by rw [List.length_append]; omega⟩
  exact wellFormed_of_length (hi _ (by simp)) (by rw [List.length_append]; omega)

/-- **All zones in order deliver all packets** they carry to their end; `ws` and `its` are
what is to come. -/
theorem run_lossless {Z : ℕ} (h8 : 8 ≤ Z) (hZ : Z ≤ 2046) {a b : Bytes} {zs ws : List (Zone Octet)}
    {items its : List Bytes} (h : Carries a zs items b) :
    ∀ {s : Remove}, Carries b ws its [] → Stash s a → (∀ z ∈ zs, z.flat.length = Z) →
      (∀ z ∈ zs, Tidy s.multiPacketZone z) →
      (∀ x ∈ items ++ its, Encap.WellFormed x ∨ x = fillPacket) →
        ∃ s', runAll assembleEncap s (zs.map encode) = .ok (s', Add.unfilled items) ∧ Stash s' b ∧
          SameSetup s s' := by
  induction h with
  | nil a => intro s _ hs _ _ _; exact ⟨s, rfl, hs, rfl⟩
  | @mid a lead zs items b ha hl h ih =>
    intro s hb hs hfull htidy hi
    obtain ⟨r, rest, hr, hitems⟩ := (h.append hb).exists_rest (by simp [ha]) rfl
    have hlen : lead.length = Z := by
      have := hfull ⟨lead, [], []⟩ (by simp)
      simpa [Zone.flat] using this
    have hp : Encap.WellFormed (a ++ lead ++ r) :=
      wellFormed_of_length (hi _ (by rw [hitems]; simp)) (by
        have := List.length_pos_iff.2 ha
        simp only [List.length_append]; omega)
    obtain ⟨s₁, hz, hst, hsame⟩ := zone_mid hp ha rfl hr (by omega) (by omega)
      (htidy _ (by simp)) hs
    obtain ⟨s₂, hrun, hst₂, hsame₂⟩ := ih hb hst (fun z hz => hfull z (by simp [hz]))
      (fun z hz => by rw [hsame]; exact htidy z (by simp [hz])) hi
    exact ⟨s₂, runAll_cons hz hrun, hst₂, hsame.trans hsame₂⟩
  | @last a lead whole trail zs items b ha hl h ih =>
    intro s hb hs hfull htidy hi
    rw [List.cons_append, List.append_assoc] at hi
    have hlen : (⟨lead, whole, trail⟩ : Zone Octet).flat.length = Z := hfull _ (by simp)
    have hp : Encap.WellFormed (a ++ lead) :=
      wellFormed_of_length (hi _ (by simp)) (by
        have := List.length_pos_iff.2 ha
        have := List.length_pos_iff.2 hl
        simp only [List.length_append]; omega)
    have hrest : ∀ x ∈ items ++ its, Encap.WellFormed x ∨ x = fillPacket := fun x hx =>
      hi x (List.mem_cons_of_mem _ (List.mem_append_right _ hx))
    obtain ⟨s₁, hz, hst, hsame⟩ := zone_last (z := ⟨lead, whole, trail⟩) hp ha hl (by omega)
      (htidy _ (by simp)) (unfinished_of_carries (h.append hb) hrest) hs
    obtain ⟨s₂, hrun, hst₂, hsame₂⟩ := ih hb hst (fun z hz => hfull z (by simp [hz]))
      (fun z hz => by rw [hsame]; exact htidy z (by simp [hz])) hrest
    refine ⟨s₂, ?_, hst₂, hsame.trans hsame₂⟩
    rw [show (a ++ lead) :: (whole ++ items) = [a ++ lead] ++ (whole ++ items) from rfl,
      Add.unfilled_append, Add.unfilled_append, Add.unfilled_of_wellFormed (by
        intro x hx; obtain rfl := List.mem_singleton.1 hx; exact hp), ← List.append_assoc]
    exact runAll_cons hz hrun
  | @first whole trail zs items b h ih =>
    intro s hb hs hfull htidy hi
    rw [List.append_assoc] at hi
    have hlen : (⟨[], whole, trail⟩ : Zone Octet).flat.length = Z := hfull _ (by simp)
    have hrest : ∀ x ∈ items ++ its, Encap.WellFormed x ∨ x = fillPacket := fun x hx =>
      hi x (List.mem_append_right _ hx)
    obtain ⟨s₁, hz, hst, hsame⟩ := zone_first (z := ⟨[], whole, trail⟩) (htidy _ (by simp))
      (by omega) (by omega) (unfinished_of_carries (h.append hb) hrest) rfl hs
    obtain ⟨s₂, hrun, hst₂, hsame₂⟩ := ih hb hst (fun z hz => hfull z (by simp [hz]))
      (fun z hz => by rw [hsame]; exact htidy z (by simp [hz])) hrest
    refine ⟨s₂, ?_, hst₂, hsame.trans hsame₂⟩
    rw [Add.unfilled_append]
    exact runAll_cons hz hrun

end Remove

end ChannelEmulator.Multiplexing
