import ChannelEmulator.Framing.Zones

/-!
# Zones that are lost

Some of the zones that carry items are lost on the way. An item survives when all zones
that hold elements of it are received.

* `kept`: what is received.
* `survivors Z keep p items`: the items, laid out from position `p` on over zones of `Z`
  elements, that survive.
* `survivors_first`, `survivors_last`: the survivors zone by zone.
-/

namespace Framing

variable {α β : Type*}

/-- The members whose flag is set. -/
def kept : List Bool → List β → List β
  | true :: ks, x :: xs => x :: kept ks xs
  | false :: ks, _ :: xs => kept ks xs
  | _, _ => []

/-- The zones from `lo` on, up to `hi`, are received. -/
def received (keep : List Bool) (lo hi : ℕ) : Bool :=
  (List.range' lo (hi - lo)).all fun j => keep.getD j false

/-- The items all of whose elements lie in zones that are received. -/
def survivors (Z : ℕ) (keep : List Bool) : ℕ → List (List α) → List (List α)
  | _, [] => []
  | p, x :: xs =>
    if received keep (p / Z) ((p + x.length - 1) / Z + 1) then
      x :: survivors Z keep (p + x.length) xs
    else survivors Z keep (p + x.length) xs

variable {Z n : ℕ} {keep : List Bool}

theorem kept_nil (ks : List Bool) : kept ks ([] : List β) = [] := by
  cases ks with
  | nil => rfl
  | cons k ks => cases k <;> rfl

theorem received_iff {lo hi : ℕ} :
    received keep lo hi = true ↔ ∀ j, lo ≤ j → j < hi → keep.getD j false = true := by
  rw [received, List.all_eq_true]
  constructor
  · intro h j h₁ h₂
    exact h j (List.mem_range'_1.2 ⟨h₁, by omega⟩)
  · intro h j hj
    obtain ⟨h₁, h₂⟩ := List.mem_range'_1.1 hj
    exact h j h₁ (by omega)

theorem received_succ {lo : ℕ} (h : lo ≤ n) : received keep lo (n + 1) = true ↔
    received keep lo n = true ∧ keep.getD n false = true := by
  rw [received_iff, received_iff]
  constructor
  · intro hr
    exact ⟨fun j h₁ h₂ => hr j h₁ (by omega), hr n h (by omega)⟩
  · rintro ⟨hr, hn⟩ j h₁ h₂
    rcases Nat.lt_succ_iff_lt_or_eq.1 h₂ with h₂ | rfl
    · exact hr j h₁ h₂
    · exact hn

theorem survivors_append : ∀ (xs ys : List (List α)) (p : ℕ), survivors Z keep p (xs ++ ys) =
    survivors Z keep p xs ++ survivors Z keep (p + xs.flatten.length) ys := by
  intro xs ys
  induction xs with
  | nil => intro p; simp [survivors]
  | cons x xs ih =>
    intro p
    rw [List.cons_append, survivors, survivors, ih, List.flatten_cons, List.length_append,
      ← Nat.add_assoc]
    split <;> rfl

/-- Where an element of zone `n` lies. -/
theorem zone_of {i : ℕ} (h : i < Z) : (n * Z + i) / Z = n := by
  rw [Nat.add_comm, Nat.add_mul_div_right i n (by omega), Nat.div_eq_of_lt h, Nat.zero_add]

/-- Items that lie in one zone survive with it. -/
theorem survivors_inside : ∀ (xs : List (List α)) (i : ℕ), (∀ x ∈ xs, x ≠ []) →
    i + xs.flatten.length ≤ Z →
      survivors Z keep (n * Z + i) xs = if keep.getD n false then xs else [] := by
  intro xs
  induction xs with
  | nil => intro i _ _; simp [survivors]
  | cons x xs ih =>
    intro i hne hle
    have hx := List.length_pos_iff.2 (hne x (by simp))
    rw [List.flatten_cons, List.length_append] at hle
    have hrec : received keep n (n + 1) = keep.getD n false := by
      rw [received, Nat.add_sub_cancel_left]
      simp
    rw [survivors, zone_of (by omega),
      show n * Z + i + x.length - 1 = n * Z + (i + x.length - 1) by omega, zone_of (by omega), hrec,
      Nat.add_assoc, ih (i + x.length) (fun y hy => hne y (by simp [hy])) (by omega)]
    split <;> rfl

/-- The position of an open item stays. -/
theorem position_mid {a lead : List α} (hl : lead.length = Z) (ha : a.length ≤ n * Z) :
    (n + 1) * Z - (a ++ lead).length = n * Z - a.length := by
  rw [List.length_append, Nat.succ_mul]
  omega

theorem position_lt {a : List α} (ha : a ≠ []) (hle : a.length ≤ n * Z) :
    (n * Z - a.length) / Z < n := by
  have h := List.length_pos_iff.2 ha
  have hc : n * Z = Z * n := Nat.mul_comm n Z
  exact Nat.div_lt_of_lt_mul (by omega)

/-- What a full zone leaves open is not longer than the zones so far. -/
theorem trail_le {z : Zone α} (hz : z.flat.length = Z) : z.trail.length ≤ (n + 1) * Z := by
  have hle : z.trail.length ≤ Z := by
    rw [← hz, Zone.flat]
    simp only [List.length_append]
    omega
  rw [Nat.succ_mul]
  omega

theorem drop_flag (hn : n < keep.length) : keep.drop n = keep.getD n false :: keep.drop (n + 1) := by
  rw [List.drop_eq_getElem_cons hn, List.getD_eq_getElem?_getD, List.getElem?_eq_getElem hn]
  rfl

/-- A zone that starts between items. -/
theorem survivors_first {w : List (List α)} {trail : List α} {items : List (List α)}
    (hfull : (⟨[], w, trail⟩ : Zone α).flat.length = Z) (hw : ∀ x ∈ w, x ≠ []) :
    survivors Z keep (n * Z) (w ++ items) = (if keep.getD n false then w else []) ++
      survivors Z keep ((n + 1) * Z - trail.length) items := by
  simp only [Zone.flat, List.nil_append, List.length_append] at hfull
  have h : survivors Z keep (n * Z + 0) w = if keep.getD n false then w else [] :=
    survivors_inside w 0 hw (by omega)
  rw [Nat.add_zero] at h
  rw [survivors_append, h, Nat.succ_mul,
    show n * Z + w.flatten.length = n * Z + Z - trail.length by omega]

/-- A zone that starts with the rest of an item. -/
theorem survivors_last {a lead : List α} {w : List (List α)} {trail : List α}
    {items : List (List α)} (hl : lead ≠ []) (hle : a.length ≤ n * Z)
    (hfull : (⟨lead, w, trail⟩ : Zone α).flat.length = Z) (hw : ∀ x ∈ w, x ≠ []) :
    survivors Z keep (n * Z - a.length) ((a ++ lead) :: (w ++ items)) =
      (if received keep ((n * Z - a.length) / Z) (n + 1) then [a ++ lead] else []) ++
        ((if keep.getD n false then w else []) ++
          survivors Z keep ((n + 1) * Z - trail.length) items) := by
  have hpos := List.length_pos_iff.2 hl
  simp only [Zone.flat, List.length_append] at hfull
  have h : survivors Z keep (n * Z + lead.length) w = if keep.getD n false then w else [] :=
    survivors_inside w lead.length hw (by omega)
  have hend : n * Z - a.length + (a ++ lead).length = n * Z + lead.length := by
    rw [List.length_append]; omega
  rw [survivors, hend, show n * Z + lead.length - 1 = n * Z + (lead.length - 1) by omega,
    zone_of (by omega), survivors_append, h, Nat.succ_mul,
    show n * Z + lead.length + w.flatten.length = n * Z + Z - trail.length by omega]
  split <;> rfl

/-- An item with elements behind the zones sent does not survive. -/
theorem received_behind {p l N : ℕ} (hZ : 0 < Z) (hk : keep.length = N) (hl : 0 < l)
    (hp : N * Z < p + l) : received keep (p / Z) ((p + l - 1) / Z + 1) = false := by
  rw [Bool.eq_false_iff]
  intro h
  have hN : N ≤ (p + l - 1) / Z := (Nat.le_div_iff_mul_le hZ).2 (by omega)
  have hj := received_iff.1 h ((p + l - 1) / Z) (Nat.div_le_div_right (by omega)) (Nat.lt_succ_self _)
  rw [List.getD_eq_getElem?_getD, List.getElem?_eq_none (by omega)] at hj
  exact Bool.false_ne_true hj

/-- Items that go on behind the zones sent, or start there, do not survive. -/
theorem survivors_pending {N : ℕ} (hZ : 0 < Z) (hk : keep.length = N) :
    ∀ (items : List (List α)) (p : ℕ), (∀ x ∈ items, x ≠ []) →
      (∀ x ∈ items.head?, N * Z < p + x.length) → survivors Z keep p items = [] := by
  intro items
  induction items with
  | nil => intro p _ _; rfl
  | cons x xs ih =>
    intro p hne hp
    have hx := hp x rfl
    rw [survivors, received_behind hZ hk (List.length_pos_iff.2 (hne x (by simp))) hx,
      if_neg Bool.false_ne_true]
    refine ih _ (fun y hy => hne y (by simp [hy])) fun y hy => ?_
    have := List.length_pos_iff.2 (hne y (List.mem_cons_of_mem _ (List.mem_of_mem_head? hy)))
    omega

theorem length_full {zs : List (Zone α)} (hfull : ∀ w ∈ zs, w.flat.length = Z) :
    (zs.flatMap Zone.flat).length = zs.length * Z := by
  induction zs with
  | nil => simp
  | cons z zs ih =>
    rw [List.flatMap_cons, List.length_append, ih fun w hw => hfull w (by simp [hw]),
      hfull z (by simp), List.length_cons, Nat.succ_mul, Nat.add_comm]

/-- What a last zone carries that is not sent does not survive. -/
theorem survivors_unsent {b : List α} {zs : List (Zone α)} {z : Zone α}
    {items its : List (List α)} (hZ : 0 < Z) (hc : Carries [] zs items b)
    (hc' : Carries b [z] its []) (hfull : ∀ w ∈ zs, w.flat.length = Z)
    (hk : keep.length = zs.length) (hne : ∀ x ∈ its, x ≠ []) :
    survivors Z keep 0 (items ++ its) = survivors Z keep 0 items := by
  have hlen : items.flatten.length + b.length = zs.length * Z := by
    rw [← List.length_append, ← hc.flatten_eq, List.nil_append, length_full hfull]
  rw [survivors_append, survivors_pending hZ hk its _ hne ?_, List.append_nil]
  intro x hx
  have hpos := List.length_pos_iff.2 (hne x (List.mem_of_mem_head? hx))
  by_cases hb : b = []
  · rw [hb, List.length_nil] at hlen
    omega
  · obtain ⟨r, rest, hr, rfl⟩ := hc'.exists_rest hb rfl
    obtain rfl : b ++ r = x := Option.some.inj hx
    have := List.length_pos_iff.2 hr
    rw [List.length_append]
    omega

end Framing
