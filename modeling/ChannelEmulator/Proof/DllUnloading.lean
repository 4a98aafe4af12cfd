import ChannelEmulator.Proof.DllRegistry

/-!
# Unloading all modules

* `unload_cases`: what a call of `unloadIfLoaded` can do.
* `unload_keeps`, `unload_frees`: a module with objects stays; where no module has objects the call unloads its
  own.
* `unloadAll_iff`: **unloading all modules returns just if no loaded module has objects.**
-/

namespace ChannelEmulator

namespace DllRegistry

variable {d : Directory} {objects : Name → ℕ} {s s' : State} {n m : Name} {unloading : Name} {b : Bool} {k : ℕ}

/-- The loop over what depends on a module. -/
def unloadReverse (objects : Name → ℕ) (k : ℕ) (n unloading : Name) (s : State) : Option (Bool × State) :=
  inTurn (fun rpos s => unloadIfLoaded objects k rpos (unloading ++ n) s) (s.entry n).reverseDependencies
    (s.touch n)

/-- **What a call can do**: it is cut short, it is refused, or it unloads what depends on the module first. -/
theorem unload_cases (hrun : unloadIfLoaded objects (k + 1) n unloading s = some (b, s')) :
    (b = true ∧ s' = s ∧ (n <:+: unloading ∨ n ∉ s.register)) ∨
    (b = false ∧ s' = s ∧ n ∈ s.register ∧ objects n > 0) ∨
    (n ∈ s.register ∧ objects n = 0 ∧ ∃ t, unloadReverse objects k n unloading s = some (b, t) ∧
      s' = if b then { t with register := t.register.filter (· ≠ n) } else t) := by
  rw [unloadIfLoaded] at hrun
  by_cases hinfix : n <:+: unloading
  · rw [if_pos hinfix] at hrun
    obtain ⟨rfl, rfl⟩ := Prod.mk.inj (Option.some.inj hrun)
    exact .inl ⟨rfl, rfl, .inl hinfix⟩
  rw [if_neg hinfix] at hrun
  by_cases hreg : n ∉ s.register
  · rw [if_pos hreg] at hrun
    obtain ⟨rfl, rfl⟩ := Prod.mk.inj (Option.some.inj hrun)
    exact .inl ⟨rfl, rfl, .inr hreg⟩
  rw [if_neg hreg] at hrun
  rw [not_not] at hreg
  by_cases hobjects : objects n > 0
  · rw [if_pos hobjects] at hrun
    obtain ⟨rfl, rfl⟩ := Prod.mk.inj (Option.some.inj hrun)
    exact .inr (.inl ⟨rfl, rfl, hreg, hobjects⟩)
  rw [if_neg hobjects] at hrun
  refine .inr (.inr ⟨hreg, Nat.eq_zero_of_not_pos hobjects, ?_⟩)
  cases hloop : unloadReverse objects k n unloading s with
  | none =>
    unfold unloadReverse at hloop
    simp only [hloop] at hrun
    cases hrun
  | some r =>
    obtain ⟨b₁, t⟩ := r
    unfold unloadReverse at hloop
    simp only [hloop] at hrun
    cases b₁ with
    | false =>
      obtain ⟨rfl, rfl⟩ := Prod.mk.inj (Option.some.inj hrun)
      exact ⟨t, rfl, rfl⟩
    | true =>
      obtain ⟨rfl, rfl⟩ := Prod.mk.inj (Option.some.inj hrun)
      exact ⟨t, rfl, rfl⟩

/-- An unload removes modules, and changes nothing else of the register. -/
theorem unload_sublist (hrun : unloadIfLoaded objects k n unloading s = some (b, s')) :
    s'.register.Sublist s.register := by
  induction k generalizing n unloading s s' b with
  | zero => cases hrun
  | succ k ih =>
    rcases unload_cases hrun with ⟨-, rfl, -⟩ | ⟨-, rfl, -⟩ | ⟨-, -, t, hloop, rfl⟩
    · exact List.Sublist.refl _
    · exact List.Sublist.refl _
    · have ht : t.register.Sublist s.register := (inTurn_rule (I := fun u => u.register.Sublist s.register)
        (Q := fun _ => True) trivial (fun m _ u b₁ u' hu hu' => ⟨(ih hu').trans hu, trivial⟩)
        (List.Sublist.refl _) hloop).1
      cases b with
      | false => exact ht
      | true => exact List.filter_sublist.trans ht

/-- **A module with objects stays.** -/
theorem unload_keeps (hrun : unloadIfLoaded objects k n unloading s = some (b, s')) (hm : m ∈ s.register)
    (hobjects : objects m > 0) : m ∈ s'.register := by
  induction k generalizing n unloading s s' b with
  | zero => cases hrun
  | succ k ih =>
    rcases unload_cases hrun with ⟨-, rfl, -⟩ | ⟨-, rfl, -⟩ | ⟨-, hzero, t, hloop, rfl⟩
    · exact hm
    · exact hm
    · have ht : m ∈ t.register := (inTurn_rule (I := fun u => m ∈ u.register) (Q := fun _ => True) trivial
        (fun x _ u b₁ u' hu hu' => ⟨ih hu' hu, trivial⟩) hm hloop).1
      cases b with
      | false => exact ht
      | true =>
        refine List.mem_filter.2 ⟨ht, decide_eq_true ?_⟩
        rintro rfl
        omega

/-- **Where no module has objects**, the call answers yes and unloads its module. -/
theorem unload_frees (hrun : unloadIfLoaded objects k n unloading s = some (b, s'))
    (hzero : ∀ m ∈ s.register, objects m = 0) :
    b = true ∧ (¬ n <:+: unloading → n ∉ s'.register) := by
  induction k generalizing n unloading s s' b with
  | zero => cases hrun
  | succ k ih =>
    rcases unload_cases hrun with ⟨rfl, rfl, hcut⟩ | ⟨-, rfl, hn, hobjects⟩ | ⟨-, -, t, hloop, rfl⟩
    · exact ⟨rfl, fun hinfix => hcut.resolve_left hinfix⟩
    · have hn0 := hzero n hn
      omega
    · have ht := inTurn_rule (I := fun u => ∀ m ∈ u.register, objects m = 0) (Q := fun b₁ => b₁ = true) rfl
        (fun x _ u b₁ u' hu hu' => ⟨fun m hm => hu m ((unload_sublist hu').subset hm), (ih hu' hu).1⟩)
        hzero hloop
      obtain rfl := ht.2
      exact ⟨rfl, fun _ hmem => of_decide_eq_true (List.mem_filter.1 hmem).2 rfl⟩

/-! ## The loop -/

theorem unload_more {k' : ℕ} {r : Bool × State} (hle : k ≤ k')
    (hrun : unloadIfLoaded objects k n [] s = some r) : unloadIfLoaded objects k' n [] s = some r := by
  induction hle with
  | refl => exact hrun
  | step _ ih =>
    have hvisit := (unload_eq_visit objects _ [] n s).symm.trans ih
    exact (unload_eq_visit objects _ [] n s).trans (Walk.visit_succ hvisit)

theorem unloadAll_more {k' : ℕ} (hle : k ≤ k') (hrun : unloadAll objects k s = some s') :
    unloadAll objects k' s = some s' := by
  induction k generalizing k' s with
  | zero => cases hrun
  | succ k ih =>
    obtain ⟨k', rfl⟩ : ∃ j, k' = j + 1 := ⟨k' - 1, by omega⟩
    unfold unloadAll at hrun ⊢
    cases hreg : s.register with
    | nil =>
      rw [hreg] at hrun
      exact hrun
    | cons n rest =>
      simp only [hreg] at hrun ⊢
      obtain ⟨r, hunload, hrest⟩ := Option.bind_eq_some_iff.1 hrun
      rw [unload_more (by omega) hunload]
      exact ih (by omega) hrest

/-- One turn of the loop. -/
theorem unloadAll_turn {rest : List Name} {t : State} (hreg : s.register = n :: rest)
    (hunload : (Call.unload n objects).Returns d s (b, s')) (hrest : ∃ k, unloadAll objects k s' = some t) :
    ∃ k, unloadAll objects k s = some t := by
  obtain ⟨k₁, h₁⟩ := hunload
  obtain ⟨k₂, h₂⟩ := hrest
  refine ⟨max k₁ k₂ + 1, ?_⟩
  unfold unloadAll
  simp only [hreg]
  rw [unload_more (Nat.le_max_left k₁ k₂) h₁]
  exact unloadAll_more (Nat.le_max_right k₁ k₂) h₂

/-- The loop ends with no module loaded, and never while one has objects. -/
theorem unloadAll_returned (hrun : unloadAll objects k s = some s') :
    s'.register = [] ∧ ∀ m ∈ s.register, objects m = 0 := by
  induction k generalizing s with
  | zero => cases hrun
  | succ k ih =>
    unfold unloadAll at hrun
    cases hreg : s.register with
    | nil =>
      simp only [hreg] at hrun
      obtain rfl := Option.some.inj hrun
      exact ⟨hreg, fun m hm => absurd hm List.not_mem_nil⟩
    | cons n rest =>
      simp only [hreg] at hrun
      obtain ⟨⟨b, t⟩, hunload, hrest⟩ := Option.bind_eq_some_iff.1 hrun
      obtain ⟨hnil, hzero⟩ := ih hrest
      refine ⟨hnil, fun m hm => ?_⟩
      by_contra hne
      have hpos := Nat.pos_of_ne_zero hne
      exact hne (hzero m (unload_keeps hunload (hreg ▸ hm) hpos))

/-! ## Reachable states -/

/-- A load never loads the module of the empty name. -/
theorem load_named {opens : Name → Bytes → Bool} {loading : Name}
    (hrun : loadIfNotLoaded opens k n loading s = some (b, s')) (hs : [] ∉ s.register) :
    [] ∉ s'.register := by
  induction k generalizing n loading s s' b with
  | zero => cases hrun
  | succ k ih =>
    have hdep : ∀ pos u b₁ u', [] ∉ u.register → loadDependency
        (fun pos s => loadIfNotLoaded opens k pos (loading ++ n) s) n pos u = some (b₁, u') →
        [] ∉ u'.register := by
      intro pos u b₁ u' hu hu'
      unfold loadDependency at hu'
      cases hl : loadIfNotLoaded opens k pos (loading ++ n) u with
      | none =>
        simp only [hl] at hu'
        cases hu'
      | some r =>
        obtain ⟨b₂, u₂⟩ := r
        have hu₂ := ih hl hu
        cases b₂ with
        | false =>
          simp only [hl] at hu'
          obtain ⟨rfl, rfl⟩ := Prod.mk.inj (Option.some.inj hu')
          exact hu₂
        | true =>
          simp only [hl] at hu'
          obtain ⟨rfl, rfl⟩ := Prod.mk.inj (Option.some.inj hu')
          exact hu₂
    rw [loadIfNotLoaded] at hrun
    by_cases hinfix : n <:+: loading
    · rw [if_pos hinfix] at hrun
      obtain ⟨rfl, rfl⟩ := Prod.mk.inj (Option.some.inj hrun)
      exact hs
    rw [if_neg hinfix] at hrun
    split_ifs at hrun with hreg hnone
    · obtain ⟨rfl, rfl⟩ := Prod.mk.inj (Option.some.inj hrun)
      exact hs
    · obtain ⟨rfl, rfl⟩ := Prod.mk.inj (Option.some.inj hrun)
      exact hs
    cases hloop : inTurn (loadDependency (fun pos s => loadIfNotLoaded opens k pos (loading ++ n) s) n)
      (s.entry n).dependencies s with
    | none =>
      simp only [hloop] at hrun
      cases hrun
    | some r =>
      obtain ⟨b₁, t⟩ := r
      have ht := (inTurn_rule (I := fun u => [] ∉ u.register) (Q := fun _ => True) trivial
        (fun x _ u b₁ u' hu hu' => ⟨hdep x u b₁ u' hu hu', trivial⟩) hs hloop).1
      simp only [hloop] at hrun
      cases b₁ with
      | false =>
        obtain ⟨rfl, rfl⟩ := Prod.mk.inj (Option.some.inj hrun)
        exact ht
      | true =>
        simp only at hrun
        split_ifs at hrun with hopen
        · obtain ⟨rfl, rfl⟩ := Prod.mk.inj (Option.some.inj hrun)
          intro hmem
          rcases mem_setInsert.1 hmem with rfl | hmem
          · -- the empty name is contained in every other
            exact hinfix (List.nil_infix)
          · exact ht hmem
        · obtain ⟨rfl, rfl⟩ := Prod.mk.inj (Option.some.inj hrun)
          exact ht

theorem run_named {allowed : State → Call → Prop} (h : Run d allowed s) : [] ∉ s.register := by
  induction h with
  | start readable =>
    cases readable with
    | true => exact List.not_mem_nil
    | false => exact List.not_mem_nil
  | @call s s' c b _ _ hret ih =>
    cases c with
    | load n opens =>
      obtain ⟨k, hk⟩ := hret
      exact load_named hk ih
    | unload n objects =>
      obtain ⟨k, hk⟩ := hret
      exact fun hmem => ih ((unload_sublist hk).subset hmem)
    | refresh readable =>
      obtain ⟨-, rfl⟩ := Prod.mk.inj hret
      cases readable with
      | true => exact ih
      | false => exact ih

/-- **Where no module has objects, all are unloaded.** -/
theorem unloadAll_returns (h : Run d (fun _ _ => True) s) (hzero : ∀ m ∈ s.register, objects m = 0) :
    ∃ k s', unloadAll objects k s = some s' := by
  -- by induction on the number of modules that are loaded
  induction hlen : s.register.length using Nat.strongRecOn generalizing s with
  | _ len ih =>
    cases hreg : s.register with
    | nil =>
      refine ⟨1, s, ?_⟩
      unfold unloadAll
      rw [hreg]
    | cons n rest =>
      obtain ⟨⟨b, s'⟩, hret, -⟩ := call_returns (run_inv h) (.unload n objects)
      obtain ⟨k, hk⟩ := hret
      have hn : n ∈ s.register := hreg ▸ List.mem_cons_self ..
      have hsub := unload_sublist hk
      have hinfix : ¬ n <:+: [] := by
        rw [List.infix_nil]
        rintro rfl
        exact run_named h hn
      have hgone := (unload_frees hk hzero).2 hinfix
      have hlt : s'.register.length < len := by
        rw [← hlen]
        refine lt_of_le_of_ne hsub.length_le fun heq => ?_
        rw [hsub.eq_of_length heq] at hgone
        exact hgone hn
      have hret : (Call.unload n objects).Returns d s (b, s') := ⟨k, hk⟩
      have hrun : Run d (fun _ _ => True) s' := Run.call h trivial hret
      obtain ⟨k', t, ht⟩ := ih _ hlt hrun (fun m hm => hzero m (hsub.subset hm)) rfl
      obtain ⟨k'', hall⟩ := unloadAll_turn (d := d) hreg ⟨k, hk⟩ ⟨k', ht⟩
      exact ⟨k'', t, hall⟩

/-- **Unloading all modules returns**, and the modules without references are gone, just if no loaded module has
objects. -/
theorem unloadAll_iff (objects : Name → ℕ) (hrun : Run d (fun _ _ => True) s) :
    UnloadsAll objects s ↔ ∀ m ∈ s.register, objects m = 0 := by
  constructor
  · rintro ⟨k, s', hall, -⟩
    exact (unloadAll_returned hall).2
  · intro hzero
    obtain ⟨k, s', hall⟩ := unloadAll_returns hrun hzero
    refine ⟨k, s', hall, fun m _ _ hm => ?_⟩
    rw [(unloadAll_returned hall).1] at hm
    exact absurd hm List.not_mem_nil

theorem unloadAll_iff_modB : ∃ s : State, s.register = [modB] ∧ UnloadsAll (fun _ => 0) s := by
  obtain ⟨s, hret, hreg⟩ := exists_load modB 2 [modB] (by decide)
  have hrun : Run twoModules (fun _ _ => True) s := Run.call (Run.start true) trivial hret
  exact ⟨s, hreg, (unloadAll_iff (fun _ => 0) hrun).2 fun _ _ => rfl⟩

/-- A module with an object: the loop asks for it again and again. -/
theorem unloadAll_repeats : ¬ ∀ (d : Directory) (objects : Name → ℕ) (s : State),
    Run d (fun _ _ => True) s → UnloadsAll objects s := by
  intro h
  obtain ⟨s, hret, hreg⟩ := exists_load modB 2 [modB] (by decide)
  have hrun : Run twoModules (fun _ _ => True) s := Run.call (Run.start true) trivial hret
  obtain ⟨k, s', hall, -⟩ := h twoModules (fun _ => 1) s hrun
  have hzero := (unloadAll_returned hall).2 modB (hreg ▸ List.mem_singleton_self modB)
  cases hzero

end DllRegistry

end ChannelEmulator
