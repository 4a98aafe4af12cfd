import ChannelEmulator.Proof.Encapsulation

/-!
# Parsing of the Internet Protocol Extension

* `countLoop_shim`, `ipeLoop_returns`: an IPE that ends inside the unit is counted and read.
* `ipeLoop_overrun`: one that does not is read past the end of the unit.
* `parsesInside_iff`: **when the parsing stays inside the packet**.
-/

namespace ChannelEmulator.Encap

/-! ## The loops -/

/-- The octets up to the first odd one. -/
theorem exists_shim {n : ℕ} {v : Bytes} (h : ∃ b ∈ v.take n, b.toNat % 2 = 1) :
    ∃ o t, v = o ++ t ∧ Shim o ∧ o.length ≤ n := by
  induction v generalizing n with
  | nil =>
    obtain ⟨b, hb, -⟩ := h
    rw [List.take_nil] at hb
    cases hb
  | cons b v ih =>
    cases n with
    | zero =>
      obtain ⟨b', hb', -⟩ := h
      cases hb'
    | succ n =>
      rw [List.take_succ_cons] at h
      by_cases hodd : b.toNat % 2 = 1
      · exact ⟨[b], v, rfl, ⟨[], b, rfl, fun _ hx => absurd hx List.not_mem_nil, hodd⟩,
          Nat.succ_le_succ (Nat.zero_le n)⟩
      · obtain ⟨b', hb', hodd'⟩ := h
        have hrest : b' ∈ v.take n := by
          rcases List.mem_cons.1 hb' with rfl | hmem
          · exact absurd hodd' hodd
          · exact hmem
        obtain ⟨o, t, rfl, ⟨init, last, rfl, heven, hlast⟩, hlen⟩ := ih ⟨b', hrest, hodd'⟩
        refine ⟨b :: (init ++ [last]), t, rfl, ⟨b :: init, last, rfl, fun x hx => ?_, hlast⟩,
          Nat.succ_le_succ hlen⟩
        rcases List.mem_cons.1 hx with rfl | hmem
        · omega
        · exact heven x hmem

/-- A shim inside the unit is read, as far as the index goes. -/
theorem ipeLoop_returns {o : Bytes} (h : Shim o) (v : Bytes) (m n : ℕ) : ∀ idx agg : ℕ,
    m + idx + o.length ≤ n → idx + o.length ≤ 32768 → ∃ x, ipeLoop m n idx agg (o ++ v) = .ok x := by
  obtain ⟨init, last, rfl, heven, hodd⟩ := h
  induction init with
  | nil =>
    intro idx agg _ _
    exact ⟨_, if_pos hodd⟩
  | cons b init ih =>
    intro idx agg hn hshort
    have hb := heven b List.mem_cons_self
    simp only [List.cons_append, List.length_cons, List.length_append, List.length_nil] at hn hshort ih ⊢
    rw [ipeLoop, if_neg (by omega), if_neg (by omega), if_neg (by omega)]
    exact ih (fun x hx => heven x (List.mem_cons_of_mem b hx)) (idx + 1) _ (by omega) (by omega)

/-- With no odd octet in reach of the index, what is behind the unit or in front of it is read. -/
theorem ipeLoop_overrun {m n : ℕ} (v : Bytes) : ∀ idx agg : ℕ, idx ≤ 32767 → m + idx + v.length ≤ n →
    (∀ b ∈ v.take (32768 - idx), ¬ b.toNat % 2 = 1) → ipeLoop m n idx agg v = .error .outOfBounds := by
  induction v with
  | nil => exact fun _ _ _ _ _ => rfl
  | cons b v ih =>
    intro idx agg hidx hn heven
    obtain ⟨k, hk⟩ := Nat.exists_eq_add_of_le hidx
    rw [show 32768 - idx = k + 1 by omega, List.take_succ_cons] at heven
    rw [List.length_cons] at hn
    rw [ipeLoop, if_neg (heven b List.mem_cons_self), if_neg (by omega)]
    by_cases hlast : idx = 32767
    · exact if_pos hlast
    · rw [if_neg hlast]
      refine ih (idx + 1) _ (by omega) (by omega) fun x hx => heven x (List.mem_cons_of_mem b ?_)
      rwa [show 32768 - (idx + 1) = k by omega] at hx

/-! ## The packet -/

variable {k : PacketClass} {u : Bytes} {first : Octet}

/-- A function that reads the IPE throws, or it returns and the header with the IPE octets counted is
inside the unit. -/
def Inside (k : PacketClass) (u : Bytes) : Except Fault ℕ → Prop
  | .error e => e.isThrown = true
  | .ok _ => ∃ first m, octetAt u 0 = .ok first ∧ countIPEOctets k u = .ok m ∧
      getHeaderOctets first + m ≤ u.length

/-- All of the functions do so; `getIPE` is one of the class that supports the IPE only. -/
def ParsesInside (k : PacketClass) (u : Bytes) : Prop :=
  Inside k u (countIPEOctets k u) ∧ Inside k u (getDataLength k u) ∧ (k = .withIPE → Inside k u (getIPEIfAny u))

/-- The unit has its header, and its IPE, if it has one, ends in one of the first 32768 octets behind it. -/
def Closed (k : PacketClass) (u : Bytes) : Prop :=
  ∃ first, octetAt u 0 = .ok first ∧ getHeaderOctets first ≤ u.length ∧
    (hasIPE k u = .ok true →
      ∃ b ∈ (u.drop (getHeaderOctets first)).take 32768, b.toNat % 2 = 1)

theorem hasIPE_of_first (hfirst : octetAt u 0 = .ok first) : ∃ has, hasIPE k u = .ok has := by
  cases k with
  | preIPE => exact ⟨false, rfl⟩
  | withIPE =>
    refine ⟨decide (first.toNat / 4 % 8 = internetProtocolExtension), ?_⟩
    unfold hasIPE getProtocolID
    rw [hfirst]
    rfl

/-- Of an empty unit, the first octet is not there. -/
theorem not_inside_of_empty {e : Fault} (hfirst : octetAt u 0 = .error e) : ¬ Inside k u (getDataLength k u) := by
  have hempty : u[0]? = none := by
    cases hget : u[0]? with
    | none => rfl
    | some b =>
      rw [octetAt_of_getElem? hget] at hfirst
      cases hfirst
  have hbounds : octetAt u 0 = .error .outOfBounds := by rw [octetAt, hempty]
  unfold getDataLength
  rw [hbounds]
  intro h
  cases h

theorem getDataLength_of_count {m : ℕ} (hfirst : octetAt u 0 = .ok first)
    (hcount : countIPEOctets k u = .ok m) :
    getDataLength k u = .ok ((u.length + 2 ^ 64 - getHeaderOctets first - m) % 2 ^ 64) := by
  unfold getDataLength
  rw [hfirst, Framing.ok_bind, hcount]
  rfl

/-- What is left to show, of a unit with a first octet. -/
theorem closed_iff (hfirst : octetAt u 0 = .ok first) : Closed k u ↔ getHeaderOctets first ≤ u.length ∧
    (hasIPE k u = .ok true → ∃ b ∈ (u.drop (getHeaderOctets first)).take 32768, b.toNat % 2 = 1) := by
  refine ⟨fun ⟨first', h, hrest⟩ => ?_, fun h => ⟨first, hfirst, h⟩⟩
  obtain rfl := Except.ok.inj (hfirst.symm.trans h)
  exact hrest

/-- Without an IPE, nothing is counted. -/
theorem parsesInside_plain (hfirst : octetAt u 0 = .ok first) (hhas : hasIPE k u = .ok false) :
    ParsesInside k u ↔ getHeaderOctets first ≤ u.length := by
  have hcount : countIPEOctets k u = .ok 0 := by
    unfold countIPEOctets
    rw [hhas]
    rfl
  have hinside : ∀ x, Inside k u (.ok x) ↔ getHeaderOctets first ≤ u.length := by
    refine fun x => ⟨?_, fun h => ⟨first, 0, hfirst, hcount, h⟩⟩
    rintro ⟨first', m, h, hm, hle⟩
    obtain rfl := Except.ok.inj (hfirst.symm.trans h)
    exact Nat.le_trans (Nat.le_add_right _ m) hle
  -- the field is missing
  have hget : k = .withIPE → Inside k u (getIPEIfAny u) := by
    rintro rfl
    unfold getIPEIfAny
    rw [hhas]
    rfl
  unfold ParsesInside
  rw [hcount, getDataLength_of_count hfirst hcount, hinside, hinside]
  exact ⟨fun h => h.1, fun h => ⟨h, h, hget⟩⟩

/-- With an IPE, the loops run over what is behind the header. -/
theorem loops_of_ipe (hfirst : octetAt u 0 = .ok first) (hhas : hasIPE .withIPE u = .ok true) :
    countIPEOctets .withIPE u =
        countLoop (getHeaderOctets first) u.length 0 (u.drop (getHeaderOctets first)) ∧
      getIPEIfAny u = ipeLoop (getHeaderOctets first) u.length 0 0 (u.drop (getHeaderOctets first)) := by
  constructor
  · unfold countIPEOctets
    rw [hhas, Framing.ok_bind, if_pos rfl, hfirst, Framing.ok_bind]
  · unfold getIPEIfAny getIPE
    rw [hhas, Framing.ok_bind, if_pos rfl, hfirst, Framing.ok_bind]

theorem parsesInside_of_ends (hfirst : octetAt u 0 = .ok first) (hhas : hasIPE .withIPE u = .ok true)
    (hends : ∃ b ∈ (u.drop (getHeaderOctets first)).take 32768, b.toNat % 2 = 1) :
    ParsesInside .withIPE u ∧ getHeaderOctets first ≤ u.length := by
  obtain ⟨hcountEq, hgetEq⟩ := loops_of_ipe hfirst hhas
  obtain ⟨o, t, hdrop, ho, hlen⟩ := exists_shim hends
  have hroom : getHeaderOctets first + o.length ≤ u.length := by
    have hlength := congrArg List.length hdrop
    obtain ⟨init, last, rfl, -, -⟩ := ho
    rw [List.length_drop, List.length_append, List.length_append, List.length_singleton] at hlength
    rw [List.length_append, List.length_singleton]
    omega
  have hcount : countIPEOctets .withIPE u = .ok o.length := by
    rw [hcountEq, hdrop, countLoop_shim ho t _ _ 0 (by omega) (by omega), Nat.zero_add]
  obtain ⟨x, hx⟩ := ipeLoop_returns ho t (getHeaderOctets first) u.length 0 0 (by omega) (by omega)
  have hinside : ∀ y, Inside .withIPE u (.ok y) := fun y => ⟨first, o.length, hfirst, hcount, hroom⟩
  refine ⟨⟨?_, ?_, fun _ => ?_⟩, by omega⟩
  · rw [hcount]
    exact hinside _
  · rw [getDataLength_of_count hfirst hcount]
    exact hinside _
  · rw [hgetEq, hdrop, hx]
    exact hinside _

theorem not_parsesInside_of_open (hfirst : octetAt u 0 = .ok first) (hhas : hasIPE .withIPE u = .ok true)
    (hopen : ¬ ∃ b ∈ (u.drop (getHeaderOctets first)).take 32768, b.toNat % 2 = 1) :
    ¬ ParsesInside .withIPE u := by
  intro h
  have hget := h.2.2 rfl
  rw [(loops_of_ipe hfirst hhas).2] at hget
  by_cases hheader : getHeaderOctets first ≤ u.length
  · rw [ipeLoop_overrun _ 0 0 (by omega) (by rw [List.length_drop]; omega)
      fun b hb hodd => hopen ⟨b, hb, hodd⟩] at hget
    cases hget
  · rw [List.drop_eq_nil_of_le (by omega)] at hget
    cases hget

/-- **The parsing of the IPE stays inside the packet if and only if** the header is inside, and the IPE
ends where the index of its reader still gets. -/
theorem parsesInside_iff (k : PacketClass) (u : Bytes) : ParsesInside k u ↔ Closed k u := by
  cases hfirst : octetAt u 0 with
  | error e =>
    refine iff_of_false (fun h => not_inside_of_empty hfirst h.2.1) ?_
    rintro ⟨first, h, -⟩
    rw [hfirst] at h
    cases h
  | ok first =>
    rw [closed_iff hfirst]
    obtain ⟨has, hhas⟩ := hasIPE_of_first (k := k) hfirst
    cases has with
    | false =>
      rw [parsesInside_plain hfirst hhas]
      refine ⟨fun h => ⟨h, fun htrue => ?_⟩, fun h => h.1⟩
      rw [hhas] at htrue
      cases htrue
    | true =>
      have hk : k = .withIPE := by
        cases k with
        | withIPE => rfl
        | preIPE => cases hhas
      subst hk
      by_cases hends : ∃ b ∈ (u.drop (getHeaderOctets first)).take 32768, b.toNat % 2 = 1
      · obtain ⟨hinside, hheader⟩ := parsesInside_of_ends hfirst hhas hends
        exact iff_of_true hinside ⟨hheader, fun _ => hends⟩
      · exact iff_of_false (not_parsesInside_of_open hfirst hhas hends) fun h => hends (h.2 hhas)

/-- The last octet of the packet does not end the IPE. -/
theorem parsesInside_overrun : ¬ ParsesInside .withIPE [0xE9, 3, 0] := by
  rintro ⟨h, -⟩
  cases h

end ChannelEmulator.Encap
