import ChannelEmulator.Spec.PhaseAmbiguity

/-!
# Phase ambiguity, emulated and resolved

The emulator starts anew, with zero bits in place of a carry, at its first block and behind every
carry it sends alone; the resolver leaves out the octet at which it starts anew.

* `restores_iff`: **the pair restores every stream** just when nothing is shifted or the resolver
  starts anew where the emulator does.
-/

namespace ChannelEmulator.PhaseAmbiguity

/-! ## Octets -/

section Octets

variable {s : ℕ} {b x y : Octet}

theorem getLsbD_shl (b : Octet) {k i : ℕ} (hk : k < 8) :
    (shl b k).toBitVec.getLsbD i = (decide (i < 8) && !decide (i < k) && b.toBitVec.getLsbD (i - k)) := by
  have hmod : k % 256 % 8 = k := by omega
  simp [shl, hmod]

theorem getLsbD_shr (b : Octet) {k : ℕ} (hk : k < 8) (i : ℕ) :
    (shr b k).toBitVec.getLsbD i = b.toBitVec.getLsbD (k + i) := by
  have hmod : k % 256 % 8 = k := by omega
  simp [shr, hmod]

/-- What is joined of two octets inverted is the inverse of what is joined of the two. -/
theorem join_not (h0 : 0 < s) (h7 : s ≤ 7) (x y : Octet) :
    ~~~(shl (~~~x) (8 - s) ||| shr (~~~y) s) = shl x (8 - s) ||| shr y s := by
  apply UInt8.toBitVec_inj.1
  apply BitVec.eq_of_getLsbD_eq
  intro i hi
  simp only [UInt8.toBitVec_not, UInt8.toBitVec_or, BitVec.getLsbD_not, BitVec.getLsbD_or,
    getLsbD_shl _ (show 8 - s < 8 by omega), getLsbD_shr _ (show s < 8 by omega), hi, decide_true,
    Bool.true_and]
  by_cases hlow : i < 8 - s
  · simp [hlow, show s + i < 8 by omega]
  · have hge : y.toBitVec.getLsbD (s + i) = false := BitVec.getLsbD_of_ge _ _ (by omega)
    simp [hlow, hge, show i - (8 - s) < 8 by omega, show ¬s + i < 8 by omega]

theorem shl_or (x y : Octet) (k : ℕ) : shl (x ||| y) k = shl x k ||| shl y k := UInt8.shiftLeft_or

theorem shr_or (x y : Octet) (k : ℕ) : shr (x ||| y) k = shr x k ||| shr y k := UInt8.shiftRight_or

@[simp] theorem shl_zero (k : ℕ) : shl 0 k = 0 := UInt8.zero_shiftLeft

/-- The two parts of an octet, each shifted back to its place. -/
theorem parts_joined (h0 : 0 < s) (h7 : s ≤ 7) (b : Octet) :
    shl (shr b (8 - s)) (8 - s) ||| shr (shl b s) s = b := by
  apply UInt8.toBitVec_inj.1
  apply BitVec.eq_of_getLsbD_eq
  intro i hi
  simp only [UInt8.toBitVec_or, BitVec.getLsbD_or, getLsbD_shl _ (show 8 - s < 8 by omega),
    getLsbD_shr _ (show 8 - s < 8 by omega), getLsbD_shl _ (show s < 8 by omega), getLsbD_shr _ (show s < 8 by omega)]
  by_cases hlow : i < 8 - s
  · simp [hlow, show s + i < 8 by omega]
  · simp [hi, hlow, show ¬s + i < 8 by omega, show 8 - s + (i - (8 - s)) = i by omega]

/-- The bits that one module adds, the other shifts out. -/
theorem bits_shifted_out (h0 : 0 < s) (h7 : s ≤ 7) (b : Octet) :
    shl (shl b s) (8 - s) = 0 ∧ shr (shr b (8 - s)) s = 0 := by
  refine ⟨?_, ?_⟩
  · apply UInt8.toBitVec_inj.1
    apply BitVec.eq_of_getLsbD_eq
    intro i hi
    rw [getLsbD_shl _ (show 8 - s < 8 by omega), getLsbD_shl _ (show s < 8 by omega)]
    by_cases hlow : i < 8 - s
    · simp [hlow]
    · simp [show i - (8 - s) < s by omega]
  · apply UInt8.toBitVec_inj.1
    apply BitVec.eq_of_getLsbD_eq
    intro i _
    rw [getLsbD_shr _ (show s < 8 by omega), getLsbD_shr _ (show 8 - s < 8 by omega)]
    exact (BitVec.getLsbD_of_ge _ _ (by omega)).trans (BitVec.getLsbD_zero).symm

end Octets

/-! ## The octets joined of a stream -/

section Joined

variable (c : Setting)

/-- Every octet of a stream joined to the one before it, the first to `a`. -/
def joined : Octet → Bytes → Bytes
  | _, [] => []
  | a, b :: rest =>
    c.flip (shl a (8 - c.leftShiftBits) ||| shr b c.leftShiftBits) :: joined b rest

@[simp] theorem joined_cons (a b : Octet) (rest : Bytes) : joined c a (b :: rest) =
    c.flip (shl a (8 - c.leftShiftBits) ||| shr b c.leftShiftBits) :: joined c b rest := rfl

/-- What is joined of octets that the emulator has inverted or not. -/
theorem flip_joined (h0 : 0 < c.leftShiftBits) (x y : Octet) :
    c.flip (shl (c.flip x) (8 - c.leftShiftBits) ||| shr (c.flip y) c.leftShiftBits) =
      shl x (8 - c.leftShiftBits) ||| shr y c.leftShiftBits := by
  unfold Setting.flip
  split
  · exact join_not h0 c.le_seven x y
  · rfl

theorem joined_length (u : Bytes) : ∀ a : Octet, (joined c a u).length = u.length := by
  induction u with
  | nil => intro a; rfl
  | cons b u ih => intro a; rw [joined_cons, List.length_cons, List.length_cons, ih]

theorem joined_append (init : Bytes) (l : Octet) (v : Bytes) :
    ∀ a : Octet, joined c a (init ++ l :: v) = joined c a (init ++ [l]) ++ joined c l v := by
  induction init with
  | nil => intro a; rfl
  | cons b init ih => intro a; rw [List.cons_append, joined_cons, ih]; rfl

end Joined

/-! ## Schedules -/

/-- The lengths of the blocks, with the answers behind them. -/
abbrev Schedule := List (ℕ × Bool)

namespace Schedule

def total : Schedule → ℕ
  | [] => 0
  | (n, _) :: sch => n + total sch

/-- A stream cut into the blocks of a schedule. -/
def blocks : Schedule → Bytes → List (Bytes × Bool)
  | [], _ => []
  | (n, queueEmpty) :: sch, d => (d.take n, queueEmpty) :: blocks sch (d.drop n)

end Schedule

/-- For every octet that the emulator sends, whether it starts anew there. -/
def Emulate.starts : Bool → Schedule → List Bool
  | _, [] => []
  | fresh, (0, _) :: sch => Emulate.starts fresh sch
  | fresh, (n + 1, queueEmpty) :: sch =>
    fresh :: List.replicate n false ++ (if queueEmpty then [false] else []) ++
      Emulate.starts queueEmpty sch

/-- Whether the emulator is left with bits that it has not sent. -/
def Emulate.holds : Bool → Schedule → Bool
  | fresh, [] => !fresh
  | fresh, (0, _) :: sch => Emulate.holds fresh sch
  | _, (_ + 1, queueEmpty) :: sch => Emulate.holds queueEmpty sch

/-- For every octet that the resolver receives, whether it starts anew there. -/
def Resolve.starts : Bool → Schedule → List Bool
  | _, [] => []
  | fresh, (0, _) :: sch => Resolve.starts fresh sch
  | fresh, (n + 1, queueEmpty) :: sch =>
    fresh :: List.replicate n false ++ Resolve.starts queueEmpty sch

/-- The octets of a stream with a zero octet for every start. -/
def mixed : List Bool → Bytes → Bytes
  | [], _ => []
  | true :: starts, d => 0 :: mixed starts d
  | false :: starts, d => d.headD 0 :: mixed starts d.tail

/-- The octets without those at a start. -/
def keep : List Bool → Bytes → Bytes
  | true :: starts, _ :: d => keep starts d
  | false :: starts, b :: d => b :: keep starts d
  | _, _ => []

section Starts

@[simp] theorem mixed_true (es : List Bool) (d : Bytes) : mixed (true :: es) d = 0 :: mixed es d := rfl

@[simp] theorem mixed_false (es : List Bool) (d : Bytes) : mixed (false :: es) d = d.headD 0 :: mixed es d.tail := rfl

@[simp] theorem keep_true (rs : List Bool) (b : Octet) (d : Bytes) : keep (true :: rs) (b :: d) = keep rs d := rfl

@[simp] theorem keep_false (rs : List Bool) (b : Octet) (d : Bytes) :
    keep (false :: rs) (b :: d) = b :: keep rs d := rfl

theorem mixed_length (es : List Bool) : ∀ d : Bytes, (mixed es d).length = es.length := by
  induction es with
  | nil => intro d; rfl
  | cons e es ih =>
    intro d
    cases e with
    | true => rw [mixed_true, List.length_cons, List.length_cons, ih]
    | false => rw [mixed_false, List.length_cons, List.length_cons, ih]

theorem mixed_replicate (es : List Bool) (init d : Bytes) :
    mixed (List.replicate init.length false ++ es) (init ++ d) = init ++ mixed es d := by
  induction init with
  | nil => rfl
  | cons b init ih =>
    rw [List.length_cons, List.replicate_succ, List.cons_append, List.cons_append, mixed_false]
    simp only [List.headD_cons, List.tail_cons, ih, List.cons_append]

theorem keep_append {rs : List Bool} : ∀ {u : Bytes} (rs' : List Bool) (v : Bytes),
    rs.length = u.length → keep (rs ++ rs') (u ++ v) = keep rs u ++ keep rs' v := by
  induction rs with
  | nil =>
    intro u rs' v h
    obtain rfl := List.eq_nil_of_length_eq_zero h.symm
    rfl
  | cons r rs ih =>
    intro u rs' v h
    obtain ⟨b, u, rfl⟩ := List.exists_cons_of_length_eq_add_one h.symm
    have hlen : rs.length = u.length := by simpa using h
    cases r with
    | true => exact ih rs' v hlen
    | false => simp only [List.cons_append, keep_false, ih rs' v hlen]

theorem keep_replicate (u : Bytes) : keep (List.replicate u.length false) u = u := by
  induction u with
  | nil => rfl
  | cons b u ih => rw [List.length_cons, List.replicate_succ, keep_false, ih]

/-- Left out at the starts, the octets are as they were. -/
theorem keep_mixed (es : List Bool) : ∀ d : Bytes, es.count false ≤ d.length →
    keep es (mixed es d) = d.take (es.count false) := by
  induction es with
  | nil => intro d _; rfl
  | cons e es ih =>
    intro d h
    cases e with
    | true =>
      rw [List.count_cons_of_ne (by decide)] at h ⊢
      exact ih d h
    | false =>
      rw [List.count_cons_self] at h ⊢
      obtain ⟨b, d, rfl⟩ : ∃ b t, d = b :: t := List.exists_cons_of_length_pos (by omega)
      rw [List.length_cons] at h
      rw [mixed_false, keep_false, List.take_succ_cons, List.headD_cons, List.tail_cons, ih d (by omega)]

/-- What is kept holds no zero octet only where it is a part of the octets. -/
theorem keep_sublist : ∀ (es rs : List Bool) (d : Bytes), es.count false ≤ d.length →
    (∀ b ∈ keep rs (mixed es d), b ≠ 0) → (keep rs (mixed es d)).Sublist (d.take (es.count false)) := by
  intro es
  induction es with
  | nil =>
    intro rs d _ _
    show (keep rs []).Sublist _
    cases rs with
    | nil => exact List.nil_sublist _
    | cons r rs => cases r <;> exact List.nil_sublist _
  | cons e es ih =>
    intro rs d hd hz
    cases rs with
    | nil => exact List.nil_sublist _
    | cons r rs =>
      cases e with
      | true =>
        rw [List.count_cons_of_ne (by decide)] at hd ⊢
        cases r with
        | true => exact ih rs d hd hz
        | false => exact absurd rfl (hz 0 (by rw [mixed_true, keep_false]; exact List.mem_cons_self))
      | false =>
        rw [List.count_cons_self] at hd ⊢
        obtain ⟨b, d, rfl⟩ : ∃ b t, d = b :: t := List.exists_cons_of_length_pos (by omega)
        rw [List.length_cons] at hd
        rw [List.take_succ_cons]
        cases r with
        | true => exact (ih rs d (by omega) hz).cons b
        | false =>
          rw [mixed_false, keep_false, List.headD_cons, List.tail_cons] at hz ⊢
          exact (ih rs d (by omega) fun x hx => hz x (List.mem_cons_of_mem b hx)).cons_cons b

/-- **Octets without a zero octet show every start** that is missed, and every other one. -/
theorem starts_eq_of_keep : ∀ (es rs : List Bool) (d : Bytes), rs.length = es.length →
    es.count false ≤ d.length → (∀ b ∈ d, b ≠ 0) →
    keep rs (mixed es d) = d.take (es.count false) → rs = es := by
  intro es
  induction es with
  | nil =>
    intro rs d hlen _ _ _
    exact List.eq_nil_of_length_eq_zero hlen
  | cons e es ih =>
    intro rs d hlen hd hz heq
    obtain ⟨r, rs, rfl⟩ := List.exists_cons_of_length_eq_add_one hlen
    have hlen' : rs.length = es.length := by simpa using hlen
    cases e with
    | true =>
      rw [List.count_cons_of_ne (by decide)] at hd heq
      cases r with
      | true => rw [ih rs d hlen' hd hz heq]
      | false =>
        -- the zero octet of a missed start
        rw [mixed_true, keep_false] at heq
        have hmem : (0 : Octet) ∈ d.take (es.count false) := by rw [← heq]; exact List.mem_cons_self
        exact absurd rfl (hz 0 (List.mem_of_mem_take hmem))
    | false =>
      rw [List.count_cons_self] at hd heq
      obtain ⟨b, d, rfl⟩ : ∃ b t, d = b :: t := List.exists_cons_of_length_pos (by omega)
      rw [List.length_cons] at hd
      rw [mixed_false, List.headD_cons, List.tail_cons, List.take_succ_cons] at heq
      cases r with
      | false =>
        rw [keep_false] at heq
        rw [ih rs d hlen' (by omega) (fun x hx => hz x (List.mem_cons_of_mem b hx))
          (List.cons.inj heq).2]
      | true =>
        -- one octet is too few, and none can take its place
        rw [keep_true] at heq
        have hsub := keep_sublist es rs d (by omega) (by
          rw [heq]
          intro x hx
          rcases List.mem_cons.1 hx with rfl | hx
          · exact hz x List.mem_cons_self
          · exact hz x (List.mem_cons_of_mem b (List.mem_of_mem_take hx)))
        have hle := hsub.length_le
        rw [heq, List.length_cons] at hle
        omega

end Starts

/-! ## The emulator -/

section Emulator

variable {c : Setting}

/-- The octets of a block behind its first, whose bits are in `a` and in the octet `x` sent. What
is joined of them is `a` and the octets but the last, whose bits are left the same way. -/
theorem joined_shiftOctets (h0 : 0 < c.leftShiftBits) (carry : Octet) : ∀ (data : Bytes) (a x : Octet),
    shl x (8 - c.leftShiftBits) = shl (shr a (8 - c.leftShiftBits)) (8 - c.leftShiftBits) →
    ∃ init last y, a :: data = init ++ [last] ∧
      shl y (8 - c.leftShiftBits) = shl (shr last (8 - c.leftShiftBits)) (8 - c.leftShiftBits) ∧
      ∀ v, joined c (c.flip x) (Emulate.shiftOctets c carry (some a) data ++ v) =
        init ++ joined c (c.flip y) v := by
  intro data
  induction data with
  | nil => intro a x hx; exact ⟨[], a, x, rfl, hx, fun v => rfl⟩
  | cons b data ih =>
    intro a x hx
    set y := shl a c.leftShiftBits ||| shr b (8 - c.leftShiftBits) with hy
    obtain ⟨hout, hin⟩ := bits_shifted_out h0 c.le_seven a
    have hb := (bits_shifted_out h0 c.le_seven b).2
    -- the bits of `a` are in the two octets sent
    have hjoin : c.flip (shl (c.flip x) (8 - c.leftShiftBits) ||| shr (c.flip y) c.leftShiftBits) = a := by
      rw [flip_joined c h0, hx, hy, shr_or, hb, UInt8.or_zero]
      exact parts_joined h0 c.le_seven a
    have hy' : shl y (8 - c.leftShiftBits) =
        shl (shr b (8 - c.leftShiftBits)) (8 - c.leftShiftBits) := by
      rw [hy, shl_or, hout, UInt8.zero_or]
    obtain ⟨init, last, z, heq, hz, hv⟩ := ih b y hy'
    refine ⟨a :: init, last, z, by rw [heq, List.cons_append], hz, fun v => ?_⟩
    rw [Emulate.shiftOctets]
    simp only [if_pos h0, ← hy, List.cons_append, joined, hjoin, hv]

/-- **What is joined of the stream of the emulator** are the octets, with a zero octet at every
start. Where it does not start anew, `p` is the octet at whose bits it is. -/
theorem joined_svc (h0 : 0 < c.leftShiftBits) : ∀ (sch : Schedule) (d : Bytes) (fresh : Bool)
    (p x : Octet), d.length = sch.total →
    shl x (8 - c.leftShiftBits) =
      (if fresh then 0 else shl (shr p (8 - c.leftShiftBits)) (8 - c.leftShiftBits)) →
    joined c (c.flip x) (Emulate.svc c (if fresh then 0 else shl p c.leftShiftBits)
      (sch.blocks d)).flatten =
      mixed (Emulate.starts fresh sch) ((if fresh then [] else [p]) ++ d) := by
  intro sch
  induction sch with
  | nil => intro d fresh p x _ _; rfl
  | cons block sch ih =>
    intro d fresh p x hd hx
    obtain ⟨n, queueEmpty⟩ := block
    rw [Schedule.total] at hd
    rw [Schedule.blocks]
    cases n with
    | zero =>
      rw [List.take_zero, List.drop_zero, Emulate.svc, Emulate.starts]
      exact ih d fresh p x (by omega) hx
    | succ n =>
      obtain ⟨b, d, rfl⟩ : ∃ b t, d = b :: t := List.exists_cons_of_length_pos (by omega)
      rw [List.length_cons] at hd
      set carry := if fresh then 0 else shl p c.leftShiftBits with hcarry
      set y := shr b (8 - c.leftShiftBits) ||| carry with hy
      have hrest : (d.drop n).length = Schedule.total sch := by rw [List.length_drop]; omega
      have htake : (d.take n).length = n := List.length_take_of_le (by omega)
      -- the first octet of the block holds what is left from before
      have hfirst : c.flip (shl (c.flip x) (8 - c.leftShiftBits) ||| shr (c.flip y) c.leftShiftBits) =
          if fresh then 0 else p := by
        rw [flip_joined c h0, hx, hy, hcarry, shr_or, (bits_shifted_out h0 c.le_seven b).2,
          UInt8.zero_or]
        cases fresh with
        | true => simp [shr]
        | false => exact parts_joined h0 c.le_seven p
      have hy' : shl y (8 - c.leftShiftBits) =
          shl (shr b (8 - c.leftShiftBits)) (8 - c.leftShiftBits) := by
        rw [hy, hcarry, shl_or]
        cases fresh with
        | true => simp
        | false =>
          rw [if_neg (by decide), (bits_shifted_out h0 c.le_seven p).1, UInt8.or_zero]
      obtain ⟨init, last, z, heq, hz, hv⟩ := joined_shiftOctets h0 carry (d.take n) b y hy'
      have hinit : init.length = n := by
        have h := congrArg List.length heq
        rw [List.length_cons, List.length_append, List.length_singleton, htake] at h
        omega
      have hlast : (b :: d.take n).getLast? = some last := by rw [heq, List.getLast?_concat]
      have hsplit : b :: d = init ++ last :: d.drop n := by
        rw [← List.take_append_drop n d, ← List.cons_append, heq, List.append_assoc,
          List.take_append_drop]
        rfl
      have hmixed : ∀ es, mixed (fresh :: (List.replicate n false ++ es))
          ((if fresh then [] else [p]) ++ b :: d) =
          (if fresh then 0 else p) :: init ++ mixed es (last :: d.drop n) := by
        intro es
        rw [hsplit, ← hinit]
        cases fresh with
        | true => rw [if_pos rfl, if_pos rfl, List.nil_append, mixed, mixed_replicate]; rfl
        | false =>
          rw [if_neg (by decide), if_neg (by decide), List.singleton_append, mixed, List.headD_cons,
            List.tail_cons, mixed_replicate]
          rfl
      rw [List.take_succ_cons, List.drop_succ_cons, Emulate.svc, hlast, Emulate.starts]
      simp only [if_pos h0, Emulate.shiftOctets, ← hy, List.cons_append, List.append_assoc, hmixed]
      cases queueEmpty with
      | false =>
        have h := ih (d.drop n) false last z hrest (by rw [if_neg (by decide), hz])
        rw [if_neg (by decide)] at h
        simp only [Bool.false_eq_true, if_false, List.flatten_cons, List.cons_append, joined, hfirst,
          hv, h, List.nil_append]
      | true =>
        -- the carry goes out alone: it completes the last octet, and leaves no bits
        have hjoin : c.flip (shl (c.flip z) (8 - c.leftShiftBits) |||
            shr (c.flip (shl last c.leftShiftBits)) c.leftShiftBits) = last := by
          rw [flip_joined c h0, hz]
          exact parts_joined h0 c.le_seven last
        have h := ih (d.drop n) true 0 (shl last c.leftShiftBits) hrest (by
          rw [if_pos rfl, (bits_shifted_out h0 c.le_seven last).1])
        rw [if_pos rfl, if_pos rfl, List.nil_append] at h
        simp only [if_true, List.flatten_cons, List.cons_append, List.append_assoc, joined, hfirst,
          hv, List.nil_append, hjoin, h, mixed, List.headD_cons, List.tail_cons]

/-- The octets of which the emulator has sent all bits. -/
theorem count_starts : ∀ (sch : Schedule) (fresh : Bool),
    (Emulate.starts fresh sch).count false + (if Emulate.holds fresh sch then 1 else 0) =
      Schedule.total sch + if fresh then 0 else 1 := by
  intro sch
  induction sch with
  | nil => intro fresh; cases fresh <;> rfl
  | cons block sch ih =>
    intro fresh
    obtain ⟨n, queueEmpty⟩ := block
    cases n with
    | zero =>
      rw [Emulate.starts, Emulate.holds, Schedule.total, ih fresh]
      omega
    | succ n =>
      have h := ih queueEmpty
      rw [Emulate.starts, Emulate.holds, Schedule.total, List.count_append, List.count_append,
        List.count_cons, List.count_replicate_self]
      cases fresh <;> cases queueEmpty <;> simp at h ⊢ <;> omega

end Emulator

/-! ## The resolver -/

section Resolver

variable {c : Setting}

theorem shiftOctets_joined (h0 : 0 < c.leftShiftBits) (carry : Option Octet) (data : Bytes) :
    ∀ a : Octet, Resolve.shiftOctets c carry (some a) data = joined c a data := by
  induction data with
  | nil => intro a; rfl
  | cons b data ih =>
    intro a
    rw [Resolve.shiftOctets, joined, ih b]
    simp only [if_pos h0, List.map_cons, List.map_nil, List.singleton_append]

/-- **What the resolver sends** is joined of its stream, but for the octets at which it starts
anew. Where it does not, `a` is the octet before. -/
theorem resolve_svc (h0 : 0 < c.leftShiftBits) : ∀ (sch : Schedule) (u : Bytes) (fresh : Bool)
    (a : Octet), u.length = Schedule.total sch →
    (Resolve.svc c (if fresh then none else some (shl a (8 - c.leftShiftBits)))
      (Schedule.blocks sch u)).flatten = keep (Resolve.starts fresh sch) (joined c a u) := by
  intro sch
  induction sch with
  | nil => intro u fresh a _; rfl
  | cons block sch ih =>
    intro u fresh a hu
    obtain ⟨n, queueEmpty⟩ := block
    rw [Schedule.total] at hu
    rw [Schedule.blocks]
    cases n with
    | zero =>
      rw [List.take_zero, List.drop_zero, Resolve.svc, Resolve.starts]
      exact ih u fresh a (by omega)
    | succ n =>
      obtain ⟨b, u, rfl⟩ : ∃ b t, u = b :: t := List.exists_cons_of_length_pos (by omega)
      rw [List.length_cons] at hu
      have htake : (u.take n).length = n := List.length_take_of_le (by omega)
      obtain ⟨init, last, heq⟩ : ∃ init last, b :: u.take n = init ++ [last] :=
        ⟨_, _, (List.dropLast_append_getLast (List.cons_ne_nil b (u.take n))).symm⟩
      have hlast : (b :: u.take n).getLast? = some last := by rw [heq, List.getLast?_concat]
      have hrest := ih (u.drop n) queueEmpty last (by rw [List.length_drop]; omega)
      -- the stream is cut behind the last octet of the block
      have hcut : joined c a (b :: u) = joined c a (b :: u.take n) ++ joined c last (u.drop n) := by
        conv_lhs => rw [← List.take_append_drop n u, ← List.cons_append, heq, List.append_assoc]
        rw [List.singleton_append, joined_append, ← heq]
      have hkeep : keep (fresh :: List.replicate n false) (joined c a (b :: u.take n)) =
          Resolve.shiftOctets c (if fresh then none else some (shl a (8 - c.leftShiftBits))) none
            (b :: u.take n) := by
        have hall : keep (List.replicate n false) (joined c b (u.take n)) = joined c b (u.take n) := by
          have h := keep_replicate (joined c b (u.take n))
          rwa [joined_length, htake] at h
        cases fresh with
        | true =>
          simp only [joined, Resolve.shiftOctets, shiftOctets_joined h0, keep, hall, if_pos h0,
            if_true, List.map_nil, List.nil_append]
        | false =>
          simp only [joined, Resolve.shiftOctets, shiftOctets_joined h0, keep, hall, if_pos h0,
            Bool.false_eq_true, if_false, List.map_cons, List.map_nil, List.singleton_append]
      rw [List.take_succ_cons, List.drop_succ_cons, Resolve.svc, hlast, Resolve.starts, hcut,
        keep_append _ _ (by
          rw [joined_length, List.length_cons, List.length_cons, List.length_replicate, htake]),
        hkeep, ← hrest]
      simp only [if_pos h0]
      rfl

theorem resolve_starts_length (sch : Schedule) : ∀ fresh : Bool,
    (Resolve.starts fresh sch).length = Schedule.total sch := by
  induction sch with
  | nil => intro fresh; rfl
  | cons block sch ih =>
    intro fresh
    obtain ⟨n, queueEmpty⟩ := block
    cases n with
    | zero => rw [Resolve.starts, Schedule.total, ih fresh]; omega
    | succ n =>
      rw [Resolve.starts, Schedule.total, List.length_append, List.length_cons,
        List.length_replicate, ih queueEmpty]

end Resolver

/-! ## Without a shift -/

section Unshifted

variable {c : Setting}

theorem blocks_flatten (sch : Schedule) : ∀ d : Bytes, d.length = Schedule.total sch →
    ((Schedule.blocks sch d).map Prod.fst).flatten = d := by
  induction sch with
  | nil => intro d hd; exact (List.eq_nil_of_length_eq_zero hd).symm
  | cons block sch ih =>
    intro d hd
    obtain ⟨n, queueEmpty⟩ := block
    rw [Schedule.total] at hd
    rw [Schedule.blocks, List.map_cons, List.flatten_cons, ih (d.drop n) (by
      rw [List.length_drop]; omega), List.take_append_drop]

theorem flip_flip (b : Octet) : c.flip (c.flip b) = b := by
  unfold Setting.flip
  split
  · exact UInt8.not_not
  · rfl

theorem emulate_unshifted (h0 : ¬0 < c.leftShiftBits) (carry : Octet) (blocks : List (Bytes × Bool)) :
    (Emulate.svc c carry blocks).flatten = ((blocks.map Prod.fst).flatten).map c.flip := by
  have hloop : ∀ (data : Bytes) (prev : Option Octet),
      Emulate.shiftOctets c carry prev data = data.map c.flip := by
    intro data
    induction data with
    | nil => intro prev; rfl
    | cons b data ih =>
      intro prev
      cases prev <;> simp only [Emulate.shiftOctets, ih, if_neg h0, List.map_cons]
  induction blocks with
  | nil => rfl
  | cons block blocks ih =>
    obtain ⟨data, queueEmpty⟩ := block
    rw [Emulate.svc, List.map_cons, List.flatten_cons, List.map_append, ← ih]
    rcases hlast : data.getLast? with - | last
    · rw [List.getLast?_eq_none_iff.1 hlast]
      rfl
    · simp only [if_neg h0, hloop, List.flatten_cons]

theorem resolve_unshifted (h0 : ¬0 < c.leftShiftBits) (carry : Option Octet)
    (blocks : List (Bytes × Bool)) :
    (Resolve.svc c carry blocks).flatten = ((blocks.map Prod.fst).flatten).map c.flip := by
  have hloop : ∀ (data : Bytes) (prev : Option Octet),
      Resolve.shiftOctets c carry prev data = data.map c.flip := by
    intro data
    induction data with
    | nil => intro prev; rfl
    | cons b data ih =>
      intro prev
      cases prev <;> cases carry <;>
        simp only [Resolve.shiftOctets, ih, if_neg h0, List.map_cons, List.map_nil,
          List.singleton_append]
  induction blocks with
  | nil => rfl
  | cons block blocks ih =>
    obtain ⟨data, queueEmpty⟩ := block
    rw [Resolve.svc, List.map_cons, List.flatten_cons, List.map_append, ← ih]
    rcases hlast : data.getLast? with - | last
    · rw [List.getLast?_eq_none_iff.1 hlast]
      rfl
    · simp only [if_neg h0, hloop, List.flatten_cons]

end Unshifted

/-! ## The pair -/

/-- The octets that the emulator sends of a schedule's blocks. -/
def Emulate.octets (c : Setting) (sent : Schedule) : ℕ :=
  if 0 < c.leftShiftBits then (Emulate.starts true sent).length else sent.total

/-- The octet whose last bits the emulator is left with. -/
def partialOctet (c : Setting) (sent : Schedule) (d : Bytes) : Bytes :=
  if 0 < c.leftShiftBits && Emulate.holds true sent then d.drop (d.length - 1) else []

/-- The pair gives back a stream, but for the octet of which the emulator has sent a part. -/
def Restores (c : Setting) (sent received : Schedule) (d : Bytes) : Prop :=
  (Resolve.svc c none (received.blocks (Emulate.svc c 0 (sent.blocks d)).flatten)).flatten ++
    partialOctet c sent d = d

section Pair

variable {c : Setting} {sent received : Schedule} {d : Bytes}

theorem emulated_length (hd : d.length = sent.total) :
    (Emulate.svc c 0 (sent.blocks d)).flatten.length = Emulate.octets c sent := by
  unfold Emulate.octets
  split
  · rename_i h0
    have h := congrArg List.length (joined_svc h0 sent d true 0 0 hd (by simp))
    rwa [joined_length, mixed_length] at h
  · rename_i h0
    rw [emulate_unshifted h0, List.length_map, blocks_flatten sent d hd, hd]

/-- What is left of a stream behind the octets that have been sent. -/
theorem take_partialOctet (h0 : 0 < c.leftShiftBits) (hd : d.length = sent.total) :
    d.take ((Emulate.starts true sent).count false) ++ partialOctet c sent d = d := by
  have hcount := count_starts sent true
  unfold partialOctet
  cases hh : Emulate.holds true sent with
  | true =>
    rw [hh, if_pos rfl, if_pos rfl] at hcount
    rw [if_pos (by simp [h0]), show (Emulate.starts true sent).count false = d.length - 1 by omega,
      List.take_append_drop]
  | false =>
    rw [hh, if_neg (by decide), if_pos rfl] at hcount
    rw [if_neg (by simp), List.append_nil, List.take_of_length_le (by omega)]

/-- A stream that is shifted is restored just when leaving out the resolver's starts undoes the
emulator's. -/
theorem restores_iff_keep (h0 : 0 < c.leftShiftBits) (hd : d.length = sent.total)
    (hr : received.total = Emulate.octets c sent) :
    Restores c sent received d ↔
      keep (Resolve.starts true received) (mixed (Emulate.starts true sent) d) =
        d.take ((Emulate.starts true sent).count false) := by
  unfold Restores
  set stream := (Emulate.svc c 0 (sent.blocks d)).flatten with hstream
  have hlen : stream.length = received.total := by rw [hstream, emulated_length hd, hr]
  have hj : joined c (c.flip 0) stream = mixed (Emulate.starts true sent) d :=
    joined_svc h0 sent d true 0 0 hd (by simp)
  have hres := resolve_svc h0 received stream true (c.flip 0) hlen
  rw [if_pos rfl, hj] at hres
  rw [hres]
  constructor
  · intro h
    rw [← List.append_cancel_right_eq _ (partialOctet c sent d) _, h, take_partialOctet h0 hd]
  · intro h
    rw [h, take_partialOctet h0 hd]

/-- Where the resolver starts anew with the emulator, every stream is restored. -/
theorem restores_of_starts (hd : d.length = sent.total) (hr : received.total = Emulate.octets c sent)
    (h : c.leftShiftBits = 0 ∨ Resolve.starts true received = Emulate.starts true sent) :
    Restores c sent received d := by
  by_cases h0 : 0 < c.leftShiftBits
  · rcases h with h | h
    · omega
    have hcount := count_starts sent true
    rw [if_pos rfl] at hcount
    rw [restores_iff_keep h0 hd hr, h]
    exact keep_mixed _ d (by omega)
  · have hlen : ((d.map c.flip)).length = received.total := by
      rw [List.length_map, hd, hr, Emulate.octets, if_neg h0]
    unfold Restores partialOctet
    rw [emulate_unshifted h0, blocks_flatten sent d hd, resolve_unshifted h0,
      blocks_flatten received _ hlen, List.map_map, if_neg (by simp [h0]), List.append_nil]
    exact List.map_id'' flip_flip d

/-- Elsewhere no stream without a zero octet is. -/
theorem starts_of_restores (h0 : 0 < c.leftShiftBits) (hd : d.length = sent.total)
    (hr : received.total = Emulate.octets c sent) (hz : ∀ b ∈ d, b ≠ 0)
    (h : Restores c sent received d) :
    Resolve.starts true received = Emulate.starts true sent := by
  have hcount := count_starts sent true
  rw [if_pos rfl] at hcount
  refine starts_eq_of_keep _ _ d ?_ (by omega) hz ((restores_iff_keep h0 hd hr).1 h)
  rw [resolve_starts_length, hr, Emulate.octets, if_pos h0]

/-- **The schedules for which the pair restores every stream**: nothing is shifted, or the resolver
starts anew just where the emulator does. -/
theorem restores_iff (c : Setting) (sent received : Schedule)
    (hr : received.total = Emulate.octets c sent) :
    (∀ d : Bytes, d.length = sent.total → Restores c sent received d) ↔
      c.leftShiftBits = 0 ∨ Resolve.starts true received = Emulate.starts true sent := by
  constructor
  · intro h
    by_cases h0 : 0 < c.leftShiftBits
    · have hlen : (List.replicate sent.total (1 : Octet)).length = sent.total := List.length_replicate
      refine .inr (starts_of_restores h0 hlen hr ?_ (h _ hlen))
      intro b hb
      rw [List.eq_of_mem_replicate hb]
      decide
    · exact .inl (by omega)
  · intro h d hd
    exact restores_of_starts hd hr h

/-- Two blocks, between which both find their queue empty. -/
theorem restores_iff_paused :
    (∀ d : Bytes, d.length = 3 →
      Restores ⟨3, true, by decide⟩ [(2, true), (1, false)] [(3, true), (1, true)] d) ↔
      3 = 0 ∨ Resolve.starts true [(3, true), (1, true)] =
        Emulate.starts true [(2, true), (1, false)] :=
  restores_iff ⟨3, true, by decide⟩ [(2, true), (1, false)] [(3, true), (1, true)] rfl

/-- The resolver finds its queue empty where the emulator did not: the first octet is lost. -/
theorem octet_lost :
    (Resolve.svc ⟨1, false, by decide⟩ none (Schedule.blocks [(1, true), (2, true)]
      (Emulate.svc ⟨1, false, by decide⟩ 0
        (Schedule.blocks [(1, false), (1, true)] [0xAB, 0xCD])).flatten)).flatten = [0xCD] ∧
    ¬Restores ⟨1, false, by decide⟩ [(1, false), (1, true)] [(1, true), (2, true)] [0xAB, 0xCD] := by
  unfold Restores
  decide +kernel

end Pair

end ChannelEmulator.PhaseAmbiguity
