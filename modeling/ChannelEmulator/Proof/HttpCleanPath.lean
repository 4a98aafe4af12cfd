import ChannelEmulator.Spec.HttpServer

/-!
# Cleaned paths

* `replaceAll_shorter`: a pass over a path that has something to delete leaves a shorter one.
* `cleanPath_ok`: **the passes come to an end**, and no segment behind a slash is of dots then.
-/

namespace ChannelEmulator.Http

/-! ## One pass -/

theorem deleteAt_bounds {before : Option Octet} {u : Bytes} {n : ℕ} (h : deleteAt before u = some n) :
    2 ≤ n ∧ n ≤ u.length := by
  unfold deleteAt at h
  split at h <;> try split at h
  -- what is deleted is spelled out in each match
  all_goals cases h
  all_goals simp

theorem replaceAll_length_le (n : ℕ) (before : Option Octet) (u : Bytes) :
    (replaceAll n before u).length ≤ u.length - n := by
  induction u generalizing n before with
  | nil => simp [replaceAll]
  | cons b u ih =>
    cases n with
    | succ n =>
      have h := ih n (some b)
      rw [replaceAll, List.length_cons]
      omega
    | zero =>
      rw [replaceAll]
      split
      · rename_i n hn
        have hb := deleteAt_bounds hn
        have h := ih (n - 1) (some b)
        rw [List.length_cons] at hb ⊢
        rw [List.length_cons]
        omega
      · have h := ih 0 (some b)
        rw [List.length_cons, List.length_cons]
        omega

/-- What has a match deleted at its start is shorter. -/
theorem replaceAll_of_match {before : Option Octet} {b : Octet} {u : Bytes} {n : ℕ}
    (h : deleteAt before (b :: u) = some n) :
    (replaceAll 0 before (b :: u)).length < (b :: u).length := by
  have hb := deleteAt_bounds h
  have hle := replaceAll_length_le (n - 1) (some b) u
  rw [replaceAll, h]
  rw [List.length_cons] at hb ⊢
  simp only [List.length_cons]
  omega

/-- Dots behind a slash are a match there. -/
theorem deleteAt_slash (before : Option Octet) {u : Bytes} (h : dots u = true) :
    ∃ n, deleteAt before (slash :: u) = some n := by
  unfold dots at h
  split at h
  · exact ⟨2, rfl⟩
  · exact ⟨3, rfl⟩
  · exact ⟨3, rfl⟩
  · exact ⟨4, rfl⟩
  · cases h

theorem replaceAll_shorter {before : Option Octet} {u : Bytes} (h : slashDots u = true) :
    (replaceAll 0 before u).length < u.length := by
  induction u generalizing before with
  | nil => cases h
  | cons b u ih =>
    cases hd : deleteAt before (b :: u) with
    | some n => exact replaceAll_of_match hd
    | none =>
      -- nothing to delete here, so the dots are further on
      have hrest : slashDots u = true := by
        rw [slashDots, Bool.or_eq_true, Bool.and_eq_true, beq_iff_eq] at h
        rcases h with ⟨rfl, hu⟩ | h
        · obtain ⟨n, hn⟩ := deleteAt_slash before hu
          rw [hd] at hn
          cases hn
        · exact h
      rw [replaceAll, hd]
      exact Nat.succ_lt_succ (ih hrest)

/-- **A pass over a path that matches leaves a shorter one.** -/
theorem replaceAll_of_matchE {u : Bytes} (h : matchE u = true) :
    (replaceAll 0 none u).length < u.length := by
  unfold matchE at h
  split at h
  · exact replaceAll_of_match (n := 2) rfl
  · exact replaceAll_of_match (n := 3) rfl
  · exact replaceAll_shorter h

theorem slashDots_of_matchE {u : Bytes} (h : matchE u = false) : slashDots u = false := by
  unfold matchE at h
  split at h
  · cases h
  · cases h
  · exact h

/-! ## The passes -/

/-- **There are no more passes than the path has octets.** -/
theorem cleanPasses_ok {passes : ℕ} {u : Bytes} (h : u.length ≤ passes) :
    ∃ v, cleanPasses passes u = .ok v ∧ matchE v = false := by
  induction passes generalizing u with
  | zero =>
    obtain rfl := List.eq_nil_of_length_eq_zero (Nat.le_zero.1 h)
    exact ⟨[], rfl, rfl⟩
  | succ passes ih =>
    rw [cleanPasses]
    by_cases hm : matchE u = true
    · have hshort := replaceAll_of_matchE hm
      rw [if_pos hm]
      exact ih (by omega)
    · rw [if_neg hm]
      exact ⟨u, rfl, by simpa using hm⟩

/-! ## Spaces -/

/-- An octet other than a space is as it was. -/
theorem replaceSpaces_cons {u v : Bytes} {b : Octet} (hb : b ≠ 32) (h : replaceSpaces u = b :: v) :
    ∃ t, u = b :: t ∧ replaceSpaces t = v := by
  unfold replaceSpaces at h
  split at h
  · obtain ⟨rfl, -⟩ := List.cons.inj h
    exact absurd rfl hb
  · obtain ⟨rfl, rfl⟩ := List.cons.inj h
    exact ⟨_, rfl, rfl⟩
  · cases h

theorem replaceSpaces_nil {u : Bytes} (h : replaceSpaces u = []) : u = [] := by
  unfold replaceSpaces at h
  split at h
  · cases h
  · cases h
  · rfl

theorem dots_of_replaceSpaces {u : Bytes} (h : dots (replaceSpaces u) = true) : dots u = true := by
  unfold dots at h
  split at h
  · rename_i hu
    obtain ⟨t, rfl, ht⟩ := replaceSpaces_cons (by decide) hu
    rw [replaceSpaces_nil ht]
    rfl
  · rename_i hu
    obtain ⟨t, rfl, ht⟩ := replaceSpaces_cons (by decide) hu
    obtain ⟨t', rfl, ht'⟩ := replaceSpaces_cons (by decide) ht
    rw [replaceSpaces_nil ht']
    rfl
  · rename_i hu
    obtain ⟨t, rfl, ht⟩ := replaceSpaces_cons (by decide) hu
    obtain ⟨t', rfl, -⟩ := replaceSpaces_cons (by decide) ht
    rfl
  · rename_i hu
    obtain ⟨t, rfl, ht⟩ := replaceSpaces_cons (by decide) hu
    obtain ⟨t', rfl, ht'⟩ := replaceSpaces_cons (by decide) ht
    obtain ⟨t'', rfl, -⟩ := replaceSpaces_cons (by decide) ht'
    rfl
  · cases h

/-- The spaces that are put in make no segment of dots. -/
theorem slashDots_of_replaceSpaces {u : Bytes} (h : slashDots (replaceSpaces u) = true) :
    slashDots u = true := by
  fun_induction replaceSpaces u with
  | case1 u ih =>
    have hrest := ih (by simpa [slashDots, slash] using h)
    simp [slashDots, hrest]
  | case2 b u hb ih =>
    rw [slashDots, Bool.or_eq_true, Bool.and_eq_true] at h ⊢
    rcases h with ⟨hs, hd⟩ | h
    · exact .inl ⟨hs, dots_of_replaceSpaces hd⟩
    · exact .inr (ih h)
  | case3 => exact h

/-- **`cleanPath` returns**, a path without a segment of dots behind a slash. -/
theorem cleanPath_ok (path : Bytes) : ∃ ret, cleanPath path = .ok ret ∧ slashDots ret = false := by
  obtain ⟨v, hv, hm⟩ := cleanPasses_ok (le_refl path.length)
  refine ⟨replaceSpaces v, ?_, ?_⟩
  · rw [cleanPath, hv]
    rfl
  · by_contra hd
    have hdots := slashDots_of_replaceSpaces (by simpa using hd)
    rw [slashDots_of_matchE hm] at hdots
    cases hdots

end ChannelEmulator.Http
