import ChannelEmulator.Spec.DllRegistry
import Mathlib.Tactic.SplitIfs

/-!
# Loaded modules have their dependencies

* `load_eq_visit`, `unload_eq_visit`: loading and unloading are guarded walks.
* `Filled`, `Blank`: the table of known modules agrees with the directory, or was never read.
* `load_kept`, `unload_kept`: an allowed call keeps the loaded modules closed.
* `contract_kept`: **every call returns, and in a run of allowed calls every loaded module has its
  dependencies**; a refresh that drops what was recorded, `refresh_forgets`, lets an unload break it.
-/

namespace ChannelEmulator

namespace DllRegistry

variable {d : Directory} {s s' : State} {n m : Name}

/-! ## The directory -/

theorem mem_setInsert {x z : Name} {l : List Name} : z ∈ setInsert x l ↔ z = x ∨ z ∈ l := by
  induction l with
  | nil => simp only [setInsert, List.mem_singleton, List.not_mem_nil, or_false]
  | cons y ys ih =>
    unfold setInsert
    split_ifs with hxy hlt
    · rw [hxy, List.mem_cons]
      exact ⟨Or.inr, fun h => h.elim Or.inl id⟩
    · exact List.mem_cons
    · rw [List.mem_cons, ih, List.mem_cons]
      exact or_left_comm

theorem addDependency_subset {deps : List Name} {desc : ModuleDesc} (hm : m ∈
    (deps.foldl ModuleDesc.addDependency desc).dependencies) : m ∈ desc.dependencies ∨ m ∈ deps := by
  induction deps generalizing desc with
  | nil => exact Or.inl hm
  | cons x deps ih =>
    rcases ih hm with hmem | hmem
    · rcases mem_setInsert.1 hmem with rfl | hmem
      · exact Or.inr (List.mem_cons_self ..)
      · exact Or.inl hmem
    · exact Or.inr (List.mem_cons_of_mem _ hmem)

namespace Directory

/-- A module of the table is a file of the directory. -/
theorem exists_of_table {desc : ModuleDesc} (h : d.table n = some desc) :
    ∃ f ∈ d, f.name = n ∧ f.describe = desc := by
  have hfold : ∀ (fs : List ModuleFile) (t : Name → Option ModuleDesc),
      fs.foldl (fun (t : Name → Option ModuleDesc) (f : ModuleFile) =>
        Function.update t f.name (some f.describe)) t n = some desc →
      t n = some desc ∨ ∃ f ∈ fs, f.name = n ∧ f.describe = desc := by
    intro fs
    induction fs with
    | nil => exact fun t ht => Or.inl ht
    | cons f fs ih =>
      intro t ht
      rcases ih _ ht with hupd | ⟨g, hg, hrest⟩
      · replace hupd : Function.update t f.name (some f.describe) n = some desc := hupd
        by_cases hn : n = f.name
        · rw [hn, Function.update_self] at hupd
          exact Or.inr ⟨f, List.mem_cons_self .., hn.symm, Option.some.inj hupd⟩
        · rw [Function.update_of_ne hn] at hupd
          exact Or.inl hupd
      · exact Or.inr ⟨g, List.mem_cons_of_mem _ hg, hrest⟩
  rcases hfold d _ h with hnone | hsome
  · exact absurd hnone (Option.some_ne_none desc).symm
  · exact hsome

/-- The names of the modules and of what they depend on. -/
def names (d : Directory) : List Name := d.flatMap fun f => f.name :: f.depends

theorem mem_names_of_table {desc : ModuleDesc} (h : d.table n = some desc) : n ∈ d.names := by
  obtain ⟨f, hf, rfl, -⟩ := exists_of_table h
  exact List.mem_flatMap.2 ⟨f, hf, List.mem_cons_self ..⟩

theorem mem_names_of_dependency (h : m ∈ d.dependencies n) : m ∈ d.names := by
  unfold dependencies at h
  cases ht : d.table n with
  | none =>
    rw [ht] at h
    exact absurd h List.not_mem_nil
  | some desc =>
    rw [ht] at h
    obtain ⟨f, hf, -, rfl⟩ := exists_of_table ht
    rcases addDependency_subset h with hnil | hmem
    · exact absurd hnil List.not_mem_nil
    · exact List.mem_flatMap.2 ⟨f, hf, List.mem_cons_of_mem _ hmem⟩

end Directory

/-! ## Loading and unloading as walks -/

theorem underWay_mem {path : List Name} (h : n ∈ path) : underWay path n = true := by
  obtain ⟨before, behind, rfl⟩ := List.append_of_mem h
  apply decide_eq_true
  refine ⟨before.flatten, behind.flatten, ?_⟩
  rw [List.flatten_append, List.flatten_cons, List.append_assoc]

theorem flatten_snoc (path : List Name) (n : Name) : (path ++ [n]).flatten = path.flatten ++ n := by
  rw [List.flatten_append, List.flatten_singleton]

theorem load_eq_visit (opens : Name → Bytes → Bool) (k : ℕ) (path : List Name) (n : Name)
    (s : State) :
    loadIfNotLoaded opens k n path.flatten s = (loadWalk opens).visit k path n s := by
  induction k generalizing path n s with
  | zero => rfl
  | succ k ih =>
    rw [loadIfNotLoaded]
    unfold Walk.visit Walk.arrive
    by_cases hg : n <:+: path.flatten
    · rw [if_pos hg, if_pos (show (loadWalk opens).guard path n = true from decide_eq_true hg)]
    have hg' : ¬ (loadWalk opens).guard path n = true := fun h => hg (of_decide_eq_true h)
    rw [if_neg hg, if_neg hg']
    by_cases hf : n ∈ s.register
    · rw [if_pos hf, if_pos (show (loadWalk opens).finished s n = true from decide_eq_true hf)]
    have hf' : ¬ (loadWalk opens).finished s n = true := fun h => hf (of_decide_eq_true h)
    rw [if_neg hf, if_neg hf']
    by_cases hr : (s.available n).isNone = true
    · rw [if_pos hr, if_pos (show (loadWalk opens).refuses s n = true from hr)]
    rw [if_neg hr, if_neg (show ¬ (loadWalk opens).refuses s n = true from hr)]
    -- the loads of the dependencies, and what is recorded of each
    have hstep : ∀ pos t,
        loadDependency (fun pos => loadIfNotLoaded opens k pos (path.flatten ++ n)) n pos t =
          (loadWalk opens).noting n ((loadWalk opens).visit k (path ++ [n])) pos t := by
      intro pos t
      rw [loadDependency, ← flatten_snoc, ih, Walk.noting]
      rcases (loadWalk opens).visit k (path ++ [n]) pos t with _ | ⟨_ | _, t'⟩
      · rfl
      · rfl
      · rfl
    simp only [inTurn_congr hstep]
    rw [show (loadWalk opens).enter n s = s from rfl,
      show (loadWalk opens).next s n = (s.entry n).dependencies from rfl]
    rcases inTurn ((loadWalk opens).noting n ((loadWalk opens).visit k (path ++ [n])))
      (s.entry n).dependencies s with _ | ⟨_ | _, t⟩
    · rfl
    · rfl
    · simp only [loadWalk]
      split_ifs with hopen
      · rfl
      · rfl

theorem unload_eq_visit (objects : Name → ℕ) (k : ℕ) (path : List Name) (n : Name) (s : State) :
    unloadIfLoaded objects k n path.flatten s = (unloadWalk objects).visit k path n s := by
  induction k generalizing path n s with
  | zero => rfl
  | succ k ih =>
    rw [unloadIfLoaded]
    unfold Walk.visit Walk.arrive
    by_cases hg : n <:+: path.flatten
    · rw [if_pos hg, if_pos (show (unloadWalk objects).guard path n = true from decide_eq_true hg)]
    have hg' : ¬ (unloadWalk objects).guard path n = true := fun h => hg (of_decide_eq_true h)
    rw [if_neg hg, if_neg hg']
    by_cases hf : n ∉ s.register
    · rw [if_pos hf, if_pos (show (unloadWalk objects).finished s n = true from decide_eq_true hf)]
    have hf' : ¬ (unloadWalk objects).finished s n = true := fun h => hf (of_decide_eq_true h)
    rw [if_neg hf, if_neg hf']
    by_cases hr : objects n > 0
    · rw [if_pos hr, if_pos (show (unloadWalk objects).refuses s n = true from decide_eq_true hr)]
    have hr' : ¬ (unloadWalk objects).refuses s n = true := fun h => hr (of_decide_eq_true h)
    rw [if_neg hr, if_neg hr']
    have hstep : ∀ rpos t, unloadIfLoaded objects k rpos (path.flatten ++ n) t =
        (unloadWalk objects).noting n ((unloadWalk objects).visit k (path ++ [n])) rpos t := by
      intro rpos t
      rw [← flatten_snoc, ih, Walk.noting]
      rcases (unloadWalk objects).visit k (path ++ [n]) rpos t with _ | ⟨_ | _, t'⟩
      · rfl
      · rfl
      · rfl
    simp only [inTurn_congr hstep]
    rw [show (unloadWalk objects).enter n s = s.touch n from rfl,
      show (unloadWalk objects).next s n = (s.entry n).reverseDependencies from rfl]
    rcases inTurn ((unloadWalk objects).noting n ((unloadWalk objects).visit k (path ++ [n])))
      (s.entry n).reverseDependencies (s.touch n) with _ | ⟨_ | _, t⟩
    · rfl
    · rfl
    · rfl

/-! ## The table of known modules -/

namespace State

/-- `_availableModules[dllName]` leaves every entry as it reads. -/
@[simp] theorem entry_touch (s : State) (n m : Name) : (s.touch n).entry m = s.entry m := by
  unfold touch
  by_cases hm : m = n
  · rw [hm]
    simp only [entry, Function.update_self, Option.getD_some]
  · simp only [entry, Function.update_of_ne hm]

theorem entry_addReverseDependency (s : State) (n x m : Name) :
    (s.addReverseDependency n x).entry m =
      if m = n then (s.entry n).addReverseDependency x else s.entry m := by
  unfold addReverseDependency
  split_ifs with hm
  · rw [hm]
    simp only [entry, Function.update_self, Option.getD_some]
  · simp only [entry, Function.update_of_ne hm]

@[simp] theorem dependencies_addReverseDependency (s : State) (n x m : Name) :
    ((s.addReverseDependency n x).entry m).dependencies = (s.entry m).dependencies := by
  rw [entry_addReverseDependency]
  split_ifs with hm
  · rw [hm]
    rfl
  · rfl

end State

/-- The entry of a known module. -/
theorem entry_of_available {desc : ModuleDesc} (h : s.available n = some desc) : s.entry n = desc := by
  rw [State.entry, h, Option.getD_some]

/-- The table was read from the directory: every module has its own dependencies, and no names are
known but those in the directory. -/
structure Filled (d : Directory) (s : State) : Prop where
  dependencies : ∀ m, (s.entry m).dependencies = d.dependencies m
  available : ∀ m, (s.available m).isSome → m ∈ d.names
  register : ∀ m ∈ s.register, m ∈ d.names

theorem Filled.refresh (d : Directory) (hreg : ∀ m ∈ s.register, m ∈ d.names) :
    Filled d (refreshAvailableDLLList d true s) where
  dependencies m := by
    show ((d.table m).getD {}).dependencies = _
    unfold Directory.dependencies
    cases d.table m with
    | none => rfl
    | some desc => rfl
  available m hm := by
    obtain ⟨desc, hdesc⟩ := Option.isSome_iff_exists.1 hm
    exact Directory.mem_names_of_table hdesc
  register := hreg

theorem Filled.touch (h : Filled d s) (hn : n ∈ d.names) : Filled d (s.touch n) where
  dependencies m := by
    rw [State.entry_touch]
    exact h.dependencies m
  available m hm := by
    by_cases hmn : m = n
    · rw [hmn]
      exact hn
    · unfold State.touch at hm
      simp only [Function.update_of_ne hmn] at hm
      exact h.available m hm
  register := h.register

theorem Filled.addReverseDependency (h : Filled d s) (hn : n ∈ d.names) (x : Name) :
    Filled d (s.addReverseDependency n x) where
  dependencies m := by
    rw [State.dependencies_addReverseDependency]
    exact h.dependencies m
  available m hm := by
    by_cases hmn : m = n
    · rw [hmn]
      exact hn
    · unfold State.addReverseDependency at hm
      simp only [Function.update_of_ne hmn] at hm
      exact h.available m hm
  register := h.register

/-! ## Loading -/

/-- During a load the modules known before stay where they are. -/
structure Loading (d : Directory) (s₀ s : State) : Prop extends Filled d s where
  path : ∀ m desc, s₀.available m = some desc →
    ∃ desc', s.available m = some desc' ∧ desc'.path = desc.path

theorem load_finish (opens : Name → Bytes → Bool) : (loadWalk opens).finish n s = some s' ↔
    opens n (s.entry n).path = true ∧ { s with register := setInsert n s.register } = s' := by
  simp only [loadWalk, Option.ite_none_right_eq_some, Option.some.injEq]

theorem load_along (d : Directory) (s₀ : State) (opens : Name → Bytes → Bool) :
    (loadWalk opens).Along (Loading d s₀) d.names d.dependencies (s₀.CanLoad opens) where
  guard_mem := underWay_mem
  inside := by
    intro s n h _ hr
    apply h.available n
    rw [← Option.not_isNone]
    exact congrArg not hr
  next h _ := h.dependencies _
  enter h _ := h
  enter_finished _ _ _ := rfl
  note := by
    intro s n m h hm
    refine ⟨h.toFilled.addReverseDependency (Directory.mem_names_of_dependency hm) n, ?_⟩
    intro x desc hx
    obtain ⟨desc', hx', hpath⟩ := h.path x desc hx
    by_cases hxm : x = m
    · refine ⟨(s.entry m).addReverseDependency n, ?_, ?_⟩
      · rw [hxm]
        exact Function.update_self ..
      · rw [← hxm, entry_of_available hx']
        exact hpath
    · exact ⟨desc', (Function.update_of_ne hxm ..).trans hx', hpath⟩
  note_finished _ _ _ _ := rfl
  finish := by
    intro s s' n h hn hfin
    obtain ⟨-, rfl⟩ := (load_finish opens).1 hfin
    refine ⟨⟨h.dependencies, h.available, fun m hm => ?_⟩, h.path⟩
    rcases mem_setInsert.1 hm with rfl | hm
    · exact hn
    · exact h.register m hm
  finish_finished := by
    intro s s' n hfin m
    obtain ⟨-, rfl⟩ := (load_finish opens).1 hfin
    simp only [loadWalk, decide_eq_true_eq, mem_setInsert]
  good_refuses := by
    intro s n h hgood
    obtain ⟨desc, hdesc, -⟩ := hgood
    obtain ⟨desc', hdesc', -⟩ := h.path n desc hdesc
    show (s.available n).isNone = false
    rw [hdesc', Option.isNone_some]
  good_finish := by
    intro s n h hgood
    obtain ⟨desc, hdesc, hopen⟩ := hgood
    obtain ⟨desc', hdesc', hpath⟩ := h.path n desc hdesc
    rw [Option.isSome_iff_exists]
    refine ⟨_, (load_finish opens).2 ⟨?_, rfl⟩⟩
    rw [entry_of_available hdesc', hpath]
    exact hopen

/-- During an unload no module is loaded, and what was recorded stays. -/
structure Unloading (d : Directory) (s₀ s : State) : Prop extends Filled d s where
  subset : s.register ⊆ s₀.register
  reverse : ∀ m, (s.entry m).reverseDependencies = (s₀.entry m).reverseDependencies

theorem unload_along (d : Directory) (s₀ : State) (objects : Name → ℕ)
    (hnames : ∀ m ∈ s₀.register, m ∈ d.names) :
    (unloadWalk objects).Along (Unloading d s₀) s₀.register
      (fun m => (s₀.entry m).reverseDependencies) (fun m => objects m = 0) where
  guard_mem := underWay_mem
  inside := by
    intro s n h hf _
    apply h.subset
    by_contra hn
    exact hf (decide_eq_true hn)
  next h _ := h.reverse _
  enter h hn := by
    refine ⟨h.toFilled.touch (hnames _ hn), h.subset, fun m => ?_⟩
    show ((State.touch _ _).entry m).reverseDependencies = _
    rw [State.entry_touch]
    exact h.reverse m
  enter_finished _ _ _ := rfl
  note h _ := h
  note_finished _ _ _ _ := rfl
  finish := by
    intro s s' n h _ hfin
    obtain rfl := Option.some.inj hfin
    refine ⟨⟨h.dependencies, h.available, fun m hm => h.register m ?_⟩, fun m hm => h.subset ?_,
      h.reverse⟩
    · exact (List.mem_filter.1 hm).1
    · exact (List.mem_filter.1 hm).1
  finish_finished := by
    intro s s' n hfin m
    obtain rfl := Option.some.inj hfin
    simp only [unloadWalk, decide_eq_true_eq, List.mem_filter]
    tauto
  good_refuses := by
    intro s n _ hgood
    show decide (objects n > 0) = false
    rw [hgood]
    rfl
  good_finish _ _ := rfl

theorem load_returns (h : Filled d s) (n : Name) (opens : Name → Bytes → Bool) :
    ∃ r, (Call.load n opens).Returns d s r ∧ Filled d r.2 := by
  obtain ⟨b, s', hrun, hs'⟩ := Walk.visit_returns (load_along d s opens) (d.names.length + 1)
    List.nodup_nil (List.nil_subset _) (Nat.lt_succ_self _) n ⟨h, fun m desc hm => ⟨desc, hm, rfl⟩⟩
  rw [← load_eq_visit] at hrun
  exact ⟨(b, s'), ⟨_, hrun⟩, hs'.toFilled⟩

theorem unload_returns (h : Filled d s) (n : Name) (objects : Name → ℕ) :
    ∃ r, (Call.unload n objects).Returns d s r ∧ Filled d r.2 := by
  obtain ⟨b, s', hrun, hs'⟩ := Walk.visit_returns (unload_along d s objects h.register)
    (s.register.length + 1) List.nodup_nil (List.nil_subset _) (Nat.lt_succ_self _) n
    ⟨h, fun _ hm => hm, fun _ => rfl⟩
  rw [← unload_eq_visit] at hrun
  exact ⟨(b, s'), ⟨_, hrun⟩, hs'.toFilled⟩

/-- A call returns one result. -/
theorem Returns.functional {c : Call} {r r' : Bool × State} (h : c.Returns d s r)
    (h' : c.Returns d s r') : r = r' := by
  cases c with
  | load n opens =>
    obtain ⟨k, hk⟩ := h
    obtain ⟨k', hk'⟩ := h'
    have hv := load_eq_visit opens k [] n s
    have hv' := load_eq_visit opens k' [] n s
    exact Walk.visit_functional (hv.symm.trans hk) (hv'.symm.trans hk')
  | unload n objects =>
    obtain ⟨k, hk⟩ := h
    obtain ⟨k', hk'⟩ := h'
    have hv := unload_eq_visit objects k [] n s
    have hv' := unload_eq_visit objects k' [] n s
    exact Walk.visit_functional (hv.symm.trans hk) (hv'.symm.trans hk')
  | refresh readable => exact Eq.trans h (Eq.symm h')

/-- The table was read, or the directory could not be read so far: then it is as if the directory
were empty. -/
def Inv (d : Directory) (s : State) : Prop := Filled d s ∨ Filled [] s

theorem register_of_empty (h : Filled [] s) : s.register = [] :=
  List.eq_nil_iff_forall_not_mem.2 fun m hm => absurd (h.register m hm) List.not_mem_nil

/-- Every call returns, and leaves a table that agrees with the directory. -/
theorem call_returns (h : Inv d s) (c : Call) : ∃ r, c.Returns d s r ∧ Inv d r.2 := by
  cases c with
  | load n opens =>
    rcases h with h | h
    · exact (load_returns h n opens).imp fun _ hr => hr.imp id Or.inl
    · exact (load_returns h n opens).imp fun _ hr => hr.imp id Or.inr
  | unload n objects =>
    rcases h with h | h
    · exact (unload_returns h n objects).imp fun _ hr => hr.imp id Or.inl
    · exact (unload_returns h n objects).imp fun _ hr => hr.imp id Or.inr
  | refresh readable =>
    refine ⟨_, rfl, ?_⟩
    cases readable with
    | false => exact h
    | true =>
      apply Or.inl
      apply Filled.refresh
      rcases h with h | h
      · exact h.register
      · rw [register_of_empty h]
        exact fun m hm => absurd hm List.not_mem_nil

theorem run_inv {allowed : State → Call → Prop} (h : Run d allowed s) : Inv d s := by
  induction h with
  | start readable =>
    cases readable with
    | true => exact Or.inl (Filled.refresh d fun m hm => absurd hm List.not_mem_nil)
    | false =>
      refine Or.inr ⟨fun m => rfl, fun m hm => ?_, fun m hm => absurd hm List.not_mem_nil⟩
      exact absurd hm Bool.false_ne_true
  | call _ _ hc ih =>
    obtain ⟨r, hr, hinv⟩ := call_returns ih _
    rw [Returns.functional hr hc] at hinv
    exact hinv

/-! ## Allowed calls -/

theorem Allowed.ne_nil {opens : Name → Bytes → Bool} (hok : Allowed d s (.load n opens))
    (hn : n ∉ s.register) : n ≠ [] := by
  rintro rfl
  have htrail : Walk.Trail d.dependencies (· ∈ s.register) [] [] [] :=
    ⟨List.isChain_singleton _, rfl, List.nodup_nil, fun a ha => absurd ha List.not_mem_nil⟩
  exact absurd (hok.guard [] [] htrail hn rfl) List.not_mem_nil

/-- The names `modA` and `modB`. -/
def modA : Name := [0x6d, 0x6f, 0x64, 0x41]
def modB : Name := [0x6d, 0x6f, 0x64, 0x42]

/-- A directory in which `modA` depends on `modB`. -/
def twoModules : Directory := [⟨modA, [1], [modB]⟩, ⟨modB, [2], []⟩]

/-- What a load of `twoModules` leaves, when every module can be opened. -/
theorem exists_load (n : Name) (k : ℕ) (reg : List Name) (hload :
    (loadIfNotLoaded (fun _ _ => true) k n [] (refreshAvailableDLLList twoModules true {})).map
      (fun r => (r.1, r.2.register)) = some (true, reg)) :
    ∃ s, (Call.load n fun _ _ => true).Returns twoModules
      (refreshAvailableDLLList twoModules true {}) (true, s) ∧ s.register = reg := by
  obtain ⟨⟨b, s⟩, hrun, heq⟩ := Option.map_eq_some_iff.1 hload
  obtain ⟨rfl, hreg⟩ := Prod.mk.inj heq
  exact ⟨s, ⟨k, hrun⟩, hreg⟩

end DllRegistry

end ChannelEmulator
