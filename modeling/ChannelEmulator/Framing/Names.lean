import Mathlib.Data.List.Nodup
import Mathlib.Data.List.Perm.Subperm

/-!
# Names of their own

* `find_key_eq`: what has a name of its own is found under it.
* `firstFree`: the first of numbered names that is not taken.
* `ownName_some`: **a free name is found** when there are more turns than names that are taken.
-/

namespace Framing

/-! ## Finding by name -/

section Find

variable {α : Type} {key : α → String} {l : List α} {a b : α} {name : String}

theorem find_key_some (h : (l.find? fun a => key a == name) = some a) : a ∈ l ∧ key a = name := by
  have hname := List.find?_some h
  exact ⟨List.mem_of_find?_eq_some h, eq_of_beq hname⟩

theorem find_key_none_iff : (l.find? fun a => key a == name) = none ↔ ∀ a ∈ l, key a ≠ name := by
  rw [List.find?_eq_none]
  simp only [beq_iff_eq]

/-- What has a name of its own is found under it. -/
theorem find_key_eq (hnames : (l.map key).Nodup) (ha : a ∈ l) : (l.find? fun b => key b == key a) = some a := by
  cases hfind : l.find? fun b => key b == key a with
  | none => exact absurd rfl (find_key_none_iff.1 hfind a ha)
  | some b =>
    obtain ⟨hb, hname⟩ := find_key_some hfind
    rw [List.inj_on_of_nodup_map hnames hb ha hname]

theorem find_key_append : ((l ++ [a]).find? fun a => key a == name) =
    (l.find? fun a => key a == name).or (if key a = name then some a else none) := by
  rw [List.find?_append, List.find?_singleton]
  simp only [beq_iff_eq]

theorem nodup_key_append (hnames : (l.map key).Nodup) (hfree : (l.find? fun b => key b == key a) = none) :
    ((l ++ [a]).map key).Nodup := by
  rw [List.map_append]
  refine List.nodup_append.2 ⟨hnames, List.nodup_singleton _, fun n hn m hm => ?_⟩
  obtain ⟨t, ht, rfl⟩ := List.mem_map.1 hn
  obtain rfl := List.mem_singleton.1 hm
  exact find_key_none_iff.1 hfree t ht

end Find

/-! ## Numbered names -/

theorem repr_inj {i j : ℕ} (h : Nat.repr i = Nat.repr j) : i = j := by
  have hdigits : ∀ n : ℕ, (Nat.repr n).toList = Nat.toDigits 10 n := by
    intro n
    simp only [Nat.repr, String.toList_ofList]
  have heq := congrArg (fun s : String => Nat.ofDigitChars 10 s.toList 0) h
  simp only [hdigits, Nat.ofDigitChars_ten_toDigits] at heq
  exact heq

/-- The first name with a number from `x` on that is not taken, in a number of turns at most. -/
def firstFree (taken : String → Bool) (base : String) : ℕ → ℕ → Option String
  | 0, _ => none
  | turns + 1, x =>
    if taken (base ++ ("_" ++ Nat.repr x)) then firstFree taken base turns (x + 1)
    else some (base ++ ("_" ++ Nat.repr x))

variable {taken : String → Bool} {base name : String} {turns x : ℕ}

theorem firstFree_free (h : firstFree taken base turns x = some name) : taken name = false := by
  induction turns generalizing x with
  | zero => cases h
  | succ turns ih =>
    unfold firstFree at h
    by_cases htaken : taken (base ++ ("_" ++ Nat.repr x)) = true
    · rw [if_pos htaken] at h
      exact ih h
    · rw [if_neg htaken] at h
      rw [← Option.some.inj h]
      exact Bool.eq_false_iff.2 htaken

theorem firstFree_exists (hfree : ∃ i < turns, taken (base ++ ("_" ++ Nat.repr (x + i))) = false) :
    ∃ i, firstFree taken base turns x = some (base ++ ("_" ++ Nat.repr i)) := by
  induction turns generalizing x with
  | zero =>
    obtain ⟨i, hi, -⟩ := hfree
    cases hi
  | succ turns ih =>
    unfold firstFree
    by_cases htaken : taken (base ++ ("_" ++ Nat.repr x)) = true
    · rw [if_pos htaken]
      obtain ⟨i, hi, hnot⟩ := hfree
      refine ih ?_
      cases i with
      | zero =>
        rw [Nat.add_zero, htaken] at hnot
        cases hnot
      | succ i => exact ⟨i, by omega, by rwa [Nat.add_right_comm x 1 i]⟩
    · rw [if_neg htaken]
      exact ⟨x, rfl⟩

/-- More names than there are others are not all taken. -/
theorem exists_free {names : List String} (htaken : ∀ n, taken n = true → n ∈ names) (base : String) :
    ∃ i < names.length + 1, taken (base ++ ("_" ++ Nat.repr (0 + i))) = false := by
  by_contra hall
  have hinj : ∀ i j : ℕ, base ++ ("_" ++ Nat.repr (0 + i)) = base ++ ("_" ++ Nat.repr (0 + j)) → i = j := by
    intro i j h
    have h' := repr_inj ((String.append_right_inj _).1 ((String.append_right_inj _).1 h))
    omega
  have hnodup : ((List.range (names.length + 1)).map fun i => base ++ ("_" ++ Nat.repr (0 + i))).Nodup :=
    List.nodup_range.map hinj
  have hsub : ((List.range (names.length + 1)).map fun i => base ++ ("_" ++ Nat.repr (0 + i))) ⊆ names := by
    intro n hn
    obtain ⟨i, hi, rfl⟩ := List.mem_map.1 hn
    refine htaken _ ?_
    by_contra hnot
    exact hall ⟨i, List.mem_range.1 hi, Bool.eq_false_iff.2 hnot⟩
  have hlen := (hnodup.subperm hsub).length_le
  simp only [List.length_map, List.length_range] at hlen
  omega

/-- A name, or with a number behind it if it is taken: of `n` others at most. -/
def ownName (taken : String → Bool) (n : ℕ) (base : String) : Option String :=
  if taken base then firstFree taken base (n + 1) 0 else some base

theorem ownName_free {n : ℕ} (h : ownName taken n base = some name) : taken name = false := by
  unfold ownName at h
  by_cases htaken : taken base = true
  · rw [if_pos htaken] at h
    exact firstFree_free h
  · rw [if_neg htaken] at h
    rw [← Option.some.inj h]
    exact Bool.eq_false_iff.2 htaken

/-- **A free name is found.** -/
theorem ownName_some {names : List String} (htaken : ∀ n, taken n = true → n ∈ names) (hbase : base ≠ "") :
    ∃ name, ownName taken names.length base = some name ∧ taken name = false ∧ name ≠ "" := by
  have hsome : ∃ name, ownName taken names.length base = some name ∧ name ≠ "" := by
    unfold ownName
    by_cases hin : taken base = true
    · obtain ⟨i, hi⟩ := firstFree_exists (exists_free htaken base)
      rw [if_pos hin]
      exact ⟨_, hi, fun h => hbase (String.append_eq_empty_iff.1 h).1⟩
    · rw [if_neg hin]
      exact ⟨base, rfl, hbase⟩
  obtain ⟨name, hname, hne⟩ := hsome
  exact ⟨name, hname, ownName_free hname, hne⟩

end Framing
