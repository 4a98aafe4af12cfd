import ChannelEmulator.Framing.Run

/-!
# Loops over a data field

A loop takes passes at an index below the length of its data field. A pass may fail, break
the loop, or name the next index; it emits a list of outputs.

* `ends_of_loop`: a loop that some number of passes brings to its end **ends**.
* `Ends.loop_ok`: where every pass but one that changes nothing lowers a measure, **the measure
  bounds the passes** of a loop that ends.
-/

namespace Framing.Loop

variable {ε σ β : Type*} (pass : σ → ℕ → Except ε (σ × List β × Option ℕ)) (len : ℕ)

/-- The loop, for a number of passes at most; `e` tells that they do not suffice. -/
def loop (e : ε) : ℕ → σ → ℕ → Except ε (σ × List β)
  | 0, s, idx => if idx < len then .error e else .ok (s, [])
  | fuel + 1, s, idx =>
    if idx < len then do
      let (s, sent, next) ← pass s idx
      match next with
      | none => return (s, sent)
      | some idx => do
        let (s, sent') ← loop e fuel s idx
        return (s, sent ++ sent')
    else .ok (s, [])

/-- The loop comes to an end, and no pass of it fails. -/
inductive Ends : σ → ℕ → Prop
  | done {s : σ} {idx : ℕ} (h : len ≤ idx) : Ends s idx
  | stop {s s' : σ} {idx : ℕ} {sent : List β} (h : idx < len)
      (hp : pass s idx = .ok (s', sent, none)) : Ends s idx
  | next {s s' : σ} {idx idx' : ℕ} {sent : List β} (h : idx < len)
      (hp : pass s idx = .ok (s', sent, some idx')) (he : Ends s' idx') : Ends s idx

variable {pass len}

theorem loop_done {s : σ} {idx : ℕ} (h : ¬idx < len) (e : ε) (n : ℕ) :
    loop pass len e n s idx = .ok (s, []) := by
  cases n with
  | zero => rw [loop, if_neg h]
  | succ n => rw [loop, if_neg h]

theorem not_ends_of_error {s : σ} {idx : ℕ} {e : ε} (h : idx < len) (hp : pass s idx = .error e) :
    ¬Ends pass len s idx := by
  intro he
  cases he with
  | done hd => omega
  | stop _ hp' => rw [hp] at hp'; cases hp'
  | next _ hp' _ => rw [hp] at hp'; cases hp'

/-- A pass that changes nothing is taken for ever. -/
theorem not_ends_of_same {s : σ} {idx : ℕ} {sent : List β} (h : idx < len)
    (hp : pass s idx = .ok (s, sent, some idx)) : ¬Ends pass len s idx := by
  intro he
  induction he with
  | done hd => omega
  | stop _ hp' => rw [hp] at hp'; cases hp'
  | next _ hp' _ ih =>
    rw [hp] at hp'
    obtain ⟨rfl, h'⟩ := Prod.mk.inj (Except.ok.inj hp')
    obtain ⟨-, h'⟩ := Prod.mk.inj h'
    obtain rfl := Option.some.inj h'
    exact ih h hp

theorem loop_of_same {s : σ} {idx : ℕ} {sent : List β} (h : idx < len)
    (hp : pass s idx = .ok (s, sent, some idx)) (e : ε) (n : ℕ) :
    loop pass len e n s idx = .error e := by
  induction n with
  | zero => rw [loop, if_pos h]
  | succ n ih =>
    rw [loop, if_pos h, hp]
    simp only [bind, Except.bind, ih]

theorem ends_of_stop {s s' : σ} {idx : ℕ} {sent : List β}
    (hp : pass s idx = .ok (s', sent, none)) : Ends pass len s idx := by
  by_cases h : idx < len
  · exact .stop h hp
  · exact .done (by omega)

/-- A loop ends just when it does from behind its next pass. -/
theorem ends_iff_next {s s' : σ} {idx idx' : ℕ} {sent : List β} (h : idx < len)
    (hp : pass s idx = .ok (s', sent, some idx')) :
    Ends pass len s idx ↔ Ends pass len s' idx' := by
  constructor
  · intro he
    cases he with
    | done hd => omega
    | stop _ hp' => rw [hp] at hp'; cases hp'
    | next _ hp' he =>
      rw [hp] at hp'
      obtain ⟨rfl, h'⟩ := Prod.mk.inj (Except.ok.inj hp')
      obtain ⟨-, h'⟩ := Prod.mk.inj h'
      obtain rfl := Option.some.inj h'
      exact he
  · exact .next h hp

/-- **A loop that ends does so within its measure**, which every pass lowers that changes
anything. -/
theorem Ends.loop_ok (e : ε) (μ : σ → ℕ → ℕ) (hpos : ∀ s idx, idx < len → 0 < μ s idx)
    (hμ : ∀ s idx s' sent idx', idx < len → pass s idx = .ok (s', sent, some idx') →
      (s' = s ∧ idx' = idx) ∨ μ s' idx' < μ s idx) {s : σ} {idx : ℕ} (h : Ends pass len s idx)
    {n : ℕ} (hn : μ s idx ≤ n) : ∃ r, loop pass len e n s idx = .ok r := by
  induction h generalizing n with
  | done hd => exact ⟨_, loop_done (by omega) e n⟩
  | @stop s s' idx sent h hp =>
    have h0 := hpos s idx h
    cases n with
    | zero => omega
    | succ n =>
      refine ⟨(s', sent), ?_⟩
      rw [loop, if_pos h, hp]
      rfl
  | @next s s' idx idx' sent h hp he ih =>
    rcases hμ s idx s' sent idx' h hp with ⟨rfl, rfl⟩ | hlt
    · exact absurd he (not_ends_of_same h hp)
    · have h0 := hpos s idx h
      cases n with
      | zero => omega
      | succ n =>
        obtain ⟨r, hr⟩ := ih (n := n) (by omega)
        refine ⟨(r.1, sent ++ r.2), ?_⟩
        rw [loop, if_pos h, hp]
        simp only [bind, Except.bind, hr]
        rfl

/-- A loop that is brought to its end by some number of passes ends. -/
theorem ends_of_loop {e : ε} {n : ℕ} {s : σ} {idx : ℕ} {r : σ × List β}
    (h : loop pass len e n s idx = .ok r) : Ends pass len s idx := by
  induction n generalizing s idx r with
  | zero =>
    rw [loop] at h
    split at h
    · cases h
    · exact .done (by omega)
  | succ n ih =>
    rw [loop] at h
    split at h
    · rename_i hlt
      obtain ⟨⟨s', sent, next⟩, hp, h⟩ := bind_ok h
      cases next with
      | none => exact .stop hlt hp
      | some idx' =>
        obtain ⟨r', hr', -⟩ := bind_ok h
        exact .next hlt hp (ih hr')
    · exact .done (by omega)

end Framing.Loop
