import ChannelEmulator.Spec.MuxPriorities
import Mathlib.Data.List.Induction

/-!
# What becomes of the priorities that are set

Runs of `setPriority`, from a multiplexer with any saved list on.

* `setting_run`, `priorities_run`, `itemsOf_run`: what a run leaves, by the values saved and
  set for an identifier.
* `priorities_kept_iff`: **when the priorities last set are returned, saved, and there after a reload**.
-/

namespace ChannelEmulator.Mux

/-- The values that a list has for an identifier, in order. -/
def valuesSet (calls : List (Octet × ℤ)) (identifier : Octet) : List ℤ :=
  (calls.filter fun call => call.1 = identifier).map Prod.snd

/-- The saved list of items of these values. -/
def savedList (calls : List (Octet × ℤ)) : List (ℕ × ℤ) := calls.map fun call => (call.1.toNat, call.2)

/-- The values of the items of an identifier. -/
def itemsOf (identifier : Octet) (items : List (ℕ × ℤ)) : List ℤ :=
  (items.filter fun item => item.1 = identifier.toNat).map Prod.snd

/-- What a run should leave: `get` and `reloaded` return the value last set, which is the one item of
its identifier in the saved list. -/
structure Kept (defaultPriority : ℤ) (set : List (Octet × ℤ)) (get reloaded : Octet → ℤ)
    (saved : List (ℕ × ℤ)) : Prop where
  returned : ∀ id, get id = (valuesSet set id).getLast?.getD defaultPriority
  saved_item : ∀ id, itemsOf id saved = (valuesSet set id).getLast?.toList
  saved_identifier : ∀ item ∈ saved, ∃ id : Octet, item.1 = id.toNat
  reloaded_eq : ∀ id, reloaded id = get id

variable {defaultPriority : ℤ} {saved calls : List (Octet × ℤ)} {id : Octet}

theorem valuesSet_append (xs ys : List (Octet × ℤ)) (id : Octet) :
    valuesSet (xs ++ ys) id = valuesSet xs id ++ valuesSet ys id := by
  unfold valuesSet
  rw [List.filter_append, List.map_append]

theorem valuesSet_singleton (call : Octet × ℤ) (id : Octet) :
    valuesSet [call] id = if call.1 = id then [call.2] else [] := by
  unfold valuesSet
  by_cases hid : call.1 = id <;> simp [hid]

theorem itemsOf_append (xs ys : List (ℕ × ℤ)) (id : Octet) :
    itemsOf id (xs ++ ys) = itemsOf id xs ++ itemsOf id ys := by
  unfold itemsOf
  rw [List.filter_append, List.map_append]

theorem itemsOf_cons (item : ℕ × ℤ) (items : List (ℕ × ℤ)) (id : Octet) :
    itemsOf id (item :: items) = (if item.1 = id.toNat then [item.2] else []) ++ itemsOf id items := by
  unfold itemsOf
  by_cases hid : item.1 = id.toNat <;> simp [hid]

theorem itemsOf_savedList (calls : List (Octet × ℤ)) (id : Octet) :
    itemsOf id (savedList calls) = valuesSet calls id := by
  induction calls with
  | nil => rfl
  | cons call calls ih =>
    have hcons : savedList (call :: calls) = (call.1.toNat, call.2) :: savedList calls := rfl
    have hcall : valuesSet (call :: calls) id = valuesSet ([call] ++ calls) id := rfl
    rw [hcons, itemsOf_cons, ih, hcall, valuesSet_append, valuesSet_singleton]
    simp only [UInt8.toNat_inj]

theorem mem_savedList (calls : List (Octet × ℤ)) :
    ∀ item ∈ savedList calls, ∃ id : Octet, item.1 = id.toNat := by
  intro item hitem
  obtain ⟨call, -, rfl⟩ := List.mem_map.1 hitem
  exact ⟨call.1, rfl⟩

/-! ## AOS -/

namespace AOSPriorities

def run (m : AOSPriorities) (calls : List (Octet × ℤ)) : AOSPriorities :=
  calls.foldl (fun m call => m.setPriority call.1 call.2) m

theorem run_append (m : AOSPriorities) (calls : List (Octet × ℤ)) (call : Octet × ℤ) :
    m.run (calls ++ [call]) = (m.run calls).setPriority call.1 call.2 := by
  unfold run
  rw [List.foldl_append]
  rfl

theorem setPriority_defaultPriority (m : AOSPriorities) (identifier : Octet) (newPriority : ℤ) :
    (m.setPriority identifier newPriority).defaultPriority = m.defaultPriority := by
  unfold setPriority
  split <;> rfl

theorem run_defaultPriority (m : AOSPriorities) (calls : List (Octet × ℤ)) :
    (m.run calls).defaultPriority = m.defaultPriority := by
  induction calls using List.reverseRecOn with
  | nil => rfl
  | append_singleton calls call ih => rw [run_append, setPriority_defaultPriority, ih]

/-- The list is read back, the last item of an identifier counts. -/
theorem load_eq (id : Octet) (items : List (ℕ × ℤ)) (hitems : ∀ item ∈ items, ∃ id : Octet, item.1 = id.toNat) :
    load items id = (itemsOf id items).getLast? := by
  induction items using List.reverseRecOn with
  | nil => rfl
  | append_singleton items item ih =>
    have hstep : load (items ++ [item]) =
        Function.update (load items) (UInt8.ofNat item.1) (some item.2) := by
      unfold load
      rw [List.foldl_append, List.foldl_cons, List.foldl_nil]
    obtain ⟨identifier, hidentifier⟩ := hitems item (List.mem_append_right _ (List.mem_singleton_self item))
    rw [hstep, itemsOf_append, itemsOf_cons, hidentifier, UInt8.ofNat_toNat]
    by_cases hid : identifier = id
    · subst hid
      rw [Function.update_self, if_pos rfl, List.getLast?_append]
      rfl
    · rw [Function.update_of_ne (fun h => hid h.symm), if_neg fun h => hid (UInt8.toNat_inj.1 h),
        ih fun item h => hitems item (List.mem_append_left _ h)]
      exact congrArg List.getLast? (List.append_nil _).symm

/-- A multiplexer that reads a saved list has the priorities of one that has the list as its setting. -/
theorem getPriority_eq (m : AOSPriorities) (id : Octet) :
    m.getPriority id = (m.priorities id).getD m.defaultPriority := by
  unfold getPriority
  cases m.priorities id <;> rfl

theorem new_getPriority_eq (defaultPriority : ℤ) (saved : List (ℕ × ℤ)) (id : Octet) :
    (new defaultPriority saved).getPriority id = (load saved id).getD defaultPriority := getPriority_eq _ _

theorem new_getPriority (m : Handler) (id : Octet) :
    (new m.defaultPriority m.channelIDPriorities).getPriority id = m.getPriorityAOS id := by
  have hload : load m.channelIDPriorities id =
      (m.channelIDPriorities.reverse.find? fun p => UInt8.ofNat p.1 = id).map Prod.snd := by
    unfold load
    induction m.channelIDPriorities using List.reverseRecOn with
    | nil => rfl
    | append_singleton items item ih =>
      rw [List.foldl_append, List.reverse_append, List.reverse_singleton, List.singleton_append]
      by_cases hid : UInt8.ofNat item.1 = id
      · subst hid
        simp
      · rw [List.find?_cons_of_neg (by simpa using hid), ← ih]
        exact Function.update_of_ne (fun h => hid h.symm) ..
  rw [new_getPriority_eq, hload]
  unfold Handler.getPriorityAOS
  cases m.channelIDPriorities.reverse.find? fun p => UInt8.ofNat p.1 = id <;> rfl

theorem itemsOf_updateItems (identifier id : Octet) (items : List (ℕ × ℤ)) :
    itemsOf id (updateItems identifier items) =
      if identifier = id then (itemsOf id items).map fun _ => (id.toNat : ℤ) else itemsOf id items := by
  induction items with
  | nil => split <;> rfl
  | cons item items ih =>
    have hcons : updateItems identifier (item :: items) =
        (if item.1 = identifier.toNat then (item.1, (identifier.toNat : ℤ)) else item) ::
          updateItems identifier items := rfl
    rw [hcons, itemsOf_cons, itemsOf_cons, ih]
    by_cases hid : identifier = id
    · subst hid
      by_cases hitem : item.1 = identifier.toNat <;> simp [hitem]
    · have hnat : identifier.toNat ≠ id.toNat := fun h => hid (UInt8.toNat_inj.1 h)
      by_cases hitem : item.1 = identifier.toNat <;> simp [hid, hitem, hnat]

/-- What a call makes of the items of an identifier with the saved values `sv`. -/
def addItem (id : Octet) (sv items : List ℤ) (value : ℤ) : List ℤ :=
  (if sv = [] then items else items.map fun _ => (id.toNat : ℤ)) ++ [value]

/-- An identifier is in the map if it was in the saved list, with the value last set. -/
theorem priorities_run (defaultPriority : ℤ) (saved calls : List (Octet × ℤ)) (id : Octet) :
    ((new defaultPriority (savedList saved)).run calls).priorities id =
      if valuesSet saved id = [] then none else (valuesSet (saved ++ calls) id).getLast? := by
  induction calls using List.reverseRecOn with
  | nil =>
    show load (savedList saved) id = _
    rw [load_eq id _ (mem_savedList saved), itemsOf_savedList, List.append_nil]
    by_cases hnone : valuesSet saved id = []
    · rw [if_pos hnone, hnone]
      rfl
    · rw [if_neg hnone]
  | append_singleton calls call ih =>
    obtain ⟨identifier, newPriority⟩ := call
    rw [run_append, ← List.append_assoc, valuesSet_append (saved ++ calls), valuesSet_singleton]
    unfold setPriority
    by_cases hid : identifier = id
    · subst hid
      by_cases hnone : valuesSet saved identifier = []
      · rw [if_pos hnone] at ih ⊢
        rw [ih]
        exact ih
      · rw [if_neg hnone] at ih ⊢
        have hne : valuesSet (saved ++ calls) identifier ≠ [] := by
          rw [valuesSet_append]
          exact List.append_ne_nil_of_left_ne_nil hnone _
        have hsome : (((new defaultPriority (savedList saved)).run calls).priorities identifier).isSome = true := by
          rw [ih, List.getLast?_isSome]
          exact hne
        rw [if_pos hsome, if_pos rfl, List.getLast?_append, List.getLast?_singleton]
        exact Function.update_self ..
    · rw [if_neg hid, List.append_nil, ← ih]
      split
      · exact Function.update_of_ne (fun h => hid h.symm) ..
      · rfl

/-- **What a run leaves in the saved list**: an item for each call; in an identifier that was there, the
items before it hold the identifier. -/
theorem setting_run (defaultPriority : ℤ) (saved calls : List (Octet × ℤ)) (id : Octet) :
    itemsOf id ((new defaultPriority (savedList saved)).run calls).prioritiesSetting =
      (valuesSet calls id).foldl (addItem id (valuesSet saved id)) (valuesSet saved id) := by
  induction calls using List.reverseRecOn with
  | nil => exact itemsOf_savedList saved id
  | append_singleton calls call ih =>
    obtain ⟨identifier, newPriority⟩ := call
    have hmap := priorities_run defaultPriority saved calls identifier
    rw [run_append, valuesSet_append, List.foldl_append, ← ih, valuesSet_singleton]
    unfold setPriority
    generalize (new defaultPriority (savedList saved)).run calls = m at ih hmap ⊢
    show itemsOf id ((if _ then _ else _ : AOSPriorities).prioritiesSetting ++ [_]) = _
    rw [itemsOf_append, itemsOf_cons]
    by_cases hnone : valuesSet saved identifier = []
    · rw [if_pos hnone] at hmap
      rw [hmap]
      by_cases hid : identifier = id
      · subst hid
        show itemsOf identifier m.prioritiesSetting ++ _ = _
        rw [if_pos rfl, if_pos rfl, List.foldl_cons, List.foldl_nil]
        unfold addItem
        rw [if_pos hnone]
        rfl
      · show itemsOf id m.prioritiesSetting ++ _ = _
        rw [if_neg hid, if_neg fun h => hid (UInt8.toNat_inj.1 h)]
        exact List.append_nil _
    · rw [if_neg hnone] at hmap
      have hsome : (m.priorities identifier).isSome = true := by
        rw [hmap, List.getLast?_isSome, valuesSet_append]
        exact List.append_ne_nil_of_left_ne_nil hnone _
      rw [if_pos hsome]
      show itemsOf id (updateItems identifier m.prioritiesSetting) ++ _ = _
      rw [itemsOf_updateItems]
      by_cases hid : identifier = id
      · subst hid
        rw [if_pos rfl, if_pos rfl, if_pos rfl, List.foldl_cons, List.foldl_nil]
        unfold addItem
        rw [if_neg hnone]
        rfl
      · rw [if_neg hid, if_neg hid, if_neg fun h => hid (UInt8.toNat_inj.1 h)]
        exact List.append_nil _

theorem mem_setting_run (defaultPriority : ℤ) (saved calls : List (Octet × ℤ)) :
    ∀ item ∈ ((new defaultPriority (savedList saved)).run calls).prioritiesSetting,
      ∃ id : Octet, item.1 = id.toNat := by
  induction calls using List.reverseRecOn with
  | nil => exact mem_savedList saved
  | append_singleton calls call ih =>
    rw [run_append]
    unfold setPriority
    intro item hitem
    rcases List.mem_append.1 hitem with hold | hnew
    · split at hold
      · obtain ⟨old, hmem, rfl⟩ := List.mem_map.1 hold
        split <;> exact ih old hmem
      · exact ih item hold
    · obtain rfl := List.mem_singleton.1 hnew
      exact ⟨call.1, rfl⟩

theorem length_addItems (id : Octet) (sv : List ℤ) (values items : List ℤ) :
    (values.foldl (addItem id sv) items).length = items.length + values.length := by
  induction values generalizing items with
  | nil => rfl
  | cons v values ih =>
    rw [List.foldl_cons, ih, List.length_cons]
    unfold addItem
    split <;> simp only [List.length_append, List.length_map, List.length_singleton] <;> omega

theorem getLast?_addItems (id : Octet) (sv values items : List ℤ) :
    (values.foldl (addItem id sv) items).getLast? = (items ++ values).getLast? := by
  induction values using List.reverseRecOn with
  | nil => rw [List.append_nil]; rfl
  | append_singleton values v ih =>
    rw [List.foldl_append, ← List.append_assoc, List.getLast?_append, List.getLast?_singleton]
    exact List.getLast?_append

end AOSPriorities

/-- What an AOS multiplexer leaves. -/
def KeptAOS (defaultPriority : ℤ) (saved calls : List (Octet × ℤ)) : Prop :=
  let m := (AOSPriorities.new defaultPriority (savedList saved)).run calls
  Kept defaultPriority (saved ++ calls) m.getPriority
    (AOSPriorities.new defaultPriority m.prioritiesSetting).getPriority m.prioritiesSetting

theorem keptAOS_iff : KeptAOS defaultPriority saved calls ↔
    ∀ id, (valuesSet saved id).length ≤ 1 ∧ valuesSet calls id = [] ∨
      valuesSet saved id = [] ∧ valuesSet calls id = [defaultPriority] := by
  have hget : ∀ id, ((AOSPriorities.new defaultPriority (savedList saved)).run calls).getPriority id =
      if valuesSet saved id = [] then defaultPriority
      else (valuesSet (saved ++ calls) id).getLast?.getD defaultPriority := by
    intro id
    unfold AOSPriorities.getPriority
    rw [AOSPriorities.priorities_run, AOSPriorities.run_defaultPriority]
    by_cases hnone : valuesSet saved id = []
    · rw [if_pos hnone, if_pos hnone]
      rfl
    · rw [if_neg hnone, if_neg hnone]
      cases (valuesSet (saved ++ calls) id).getLast? <;> rfl
  have hreload : ∀ id, (AOSPriorities.new defaultPriority
      ((AOSPriorities.new defaultPriority (savedList saved)).run calls).prioritiesSetting).getPriority id =
        (valuesSet (saved ++ calls) id).getLast?.getD defaultPriority := by
    intro id
    rw [AOSPriorities.new_getPriority_eq,
      AOSPriorities.load_eq id _ (AOSPriorities.mem_setting_run defaultPriority saved calls),
        AOSPriorities.setting_run, AOSPriorities.getLast?_addItems, ← valuesSet_append]
  constructor
  · intro h id
    have hreturned := h.returned id
    rw [hget, valuesSet_append] at hreturned
    have hitems := congrArg List.length (h.saved_item id)
    rw [AOSPriorities.setting_run, AOSPriorities.length_addItems, valuesSet_append] at hitems
    cases hcalls : valuesSet calls id with
    | nil =>
      -- only what was saved is there
      refine .inl ⟨?_, rfl⟩
      rw [hcalls, List.append_nil] at hitems
      cases hlast : (valuesSet saved id).getLast? <;> rw [hlast] at hitems <;>
        simp only [Option.toList_none, Option.toList_some, List.length_nil, List.length_singleton] at hitems <;> omega
    | cons v vs =>
      -- the call's item is the one item
      rw [hcalls, List.getLast?_append, List.getLast?_cons] at hitems
      simp only [Option.some_or, Option.toList_some, List.length_nil, List.length_cons] at hitems
      have hsaved : valuesSet saved id = [] := List.length_eq_zero_iff.1 (by omega)
      obtain rfl : vs = [] := List.length_eq_zero_iff.1 (by omega)
      rw [if_pos hsaved, hsaved, hcalls] at hreturned
      exact .inr ⟨hsaved, congrArg (fun d => [d]) hreturned.symm⟩
  · intro h
    have hreturned : ∀ id, ((AOSPriorities.new defaultPriority (savedList saved)).run calls).getPriority id =
        (valuesSet (saved ++ calls) id).getLast?.getD defaultPriority := by
      intro id
      rw [hget]
      by_cases hsaved : valuesSet saved id = []
      · rw [if_pos hsaved, valuesSet_append, hsaved]
        rcases h id with ⟨-, hcalls⟩ | ⟨-, hcalls⟩ <;> rw [hcalls] <;> rfl
      · rw [if_neg hsaved]
    refine ⟨hreturned, fun id => ?_, AOSPriorities.mem_setting_run _ _ _, fun id => ?_⟩
    · rw [AOSPriorities.setting_run, valuesSet_append]
      rcases h id with ⟨hlen, hcalls⟩ | ⟨hsaved, hcalls⟩
      · rw [hcalls]
        rcases hvalues : valuesSet saved id with - | ⟨v, - | ⟨v', vs⟩⟩
        · rfl
        · rfl
        · rw [hvalues] at hlen
          simp only [List.length_cons] at hlen
          omega
      · rw [hsaved, hcalls]
        rfl
    · exact (hreload id).trans (hreturned id).symm

/-! ## TM -/

namespace TMPriorities

def run (m : TMPriorities) (calls : List (Octet × ℤ)) : TMPriorities :=
  calls.foldl (fun m call => m.setPriority call.1 call.2) m

theorem run_append (m : TMPriorities) (calls : List (Octet × ℤ)) (call : Octet × ℤ) :
    m.run (calls ++ [call]) = (m.run calls).setPriority call.1 call.2 := by
  unfold run
  rw [List.foldl_append]
  rfl

theorem run_defaultPriority (m : TMPriorities) (calls : List (Octet × ℤ)) :
    (m.run calls).defaultPriority = m.defaultPriority := by
  induction calls using List.reverseRecOn with
  | nil => rfl
  | append_singleton calls call ih => rw [run_append]; exact ih

/-- What a call makes of the items of its identifier: one is added if there is none, the first is changed
if there is one. -/
def storeItem (id : Octet) (items : List ℤ) (value : ℤ) : List ℤ :=
  match items with
  | [] => [value]
  | _ :: rest => (id.toNat : ℤ) :: rest

theorem itemsOf_setItem (identifier id : Octet) (newPriority : ℤ) (items : List (ℕ × ℤ)) :
    itemsOf id (setItem identifier newPriority items) =
      if identifier = id then storeItem id (itemsOf id items) newPriority else itemsOf id items := by
  induction items with
  | nil =>
    unfold setItem
    rw [itemsOf_cons]
    by_cases hid : identifier = id <;> simp [hid, UInt8.toNat_inj, itemsOf, storeItem]
  | cons item items ih =>
    unfold setItem
    by_cases hid : identifier = id
    · subst hid
      rw [if_pos rfl] at ih ⊢
      by_cases hitem : item.1 = identifier.toNat
      · rw [if_pos hitem, itemsOf_cons, itemsOf_cons, if_pos hitem, if_pos hitem]
        rfl
      · rw [if_neg hitem, itemsOf_cons, itemsOf_cons, if_neg hitem, ih]
        rfl
    · rw [if_neg hid] at ih ⊢
      have hnat : identifier.toNat ≠ id.toNat := fun h => hid (UInt8.toNat_inj.1 h)
      by_cases hitem : item.1 = identifier.toNat
      · rw [if_pos hitem, itemsOf_cons, itemsOf_cons, hitem, if_neg hnat, if_neg hnat]
      · rw [if_neg hitem, itemsOf_cons, itemsOf_cons, ih]

/-- **What a run leaves in the list.** -/
theorem itemsOf_run (defaultPriority : ℤ) (saved calls : List (Octet × ℤ)) (id : Octet) :
    itemsOf id ((new defaultPriority (savedList saved)).run calls).priorities =
      (valuesSet calls id).foldl (storeItem id) (valuesSet saved id) := by
  induction calls using List.reverseRecOn with
  | nil => exact itemsOf_savedList saved id
  | append_singleton calls call ih =>
    obtain ⟨identifier, newPriority⟩ := call
    rw [run_append, valuesSet_append, List.foldl_append, ← ih, valuesSet_singleton]
    unfold setPriority
    rw [itemsOf_setItem]
    by_cases hid : identifier = id
    · rw [if_pos hid, if_pos hid]
      rfl
    · rw [if_neg hid, if_neg hid]
      rfl

theorem getPriority_eq (m : TMPriorities) (id : Octet) :
    m.getPriority id = (itemsOf id m.priorities).head?.getD m.defaultPriority := by
  unfold getPriority itemsOf
  rw [← List.head?_filter, List.head?_map]
  cases (m.priorities.filter fun item => item.1 = id.toNat).head? <;> rfl

theorem mem_run (defaultPriority : ℤ) (saved calls : List (Octet × ℤ)) :
    ∀ item ∈ ((new defaultPriority (savedList saved)).run calls).priorities, ∃ id : Octet, item.1 = id.toNat := by
  have hstep : ∀ (identifier : Octet) (newPriority : ℤ) (items : List (ℕ × ℤ)),
      (∀ item ∈ items, ∃ id : Octet, item.1 = id.toNat) →
      ∀ item ∈ setItem identifier newPriority items, ∃ id : Octet, item.1 = id.toNat := by
    intro identifier newPriority items h
    induction items with
    | nil =>
      intro item hitem
      obtain rfl := List.mem_singleton.1 hitem
      exact ⟨identifier, rfl⟩
    | cons first items ih =>
      unfold setItem
      obtain ⟨hfirst, hrest⟩ := List.forall_mem_cons.1 h
      by_cases hid : first.1 = identifier.toNat
      · rw [if_pos hid]
        exact List.forall_mem_cons.2 ⟨hfirst, hrest⟩
      · rw [if_neg hid]
        exact List.forall_mem_cons.2 ⟨hfirst, ih hrest⟩
  induction calls using List.reverseRecOn with
  | nil => exact mem_savedList saved
  | append_singleton calls call ih =>
    rw [run_append]
    exact hstep call.1 call.2 _ ih

/-- The items of an identifier with one item: the item holds the identifier as soon as a value is set. -/
theorem storeItems_singleton (id : Octet) (v : ℤ) (values : List ℤ) :
    values.foldl (storeItem id) [v] = [if values = [] then v else (id.toNat : ℤ)] := by
  induction values generalizing v with
  | nil => rfl
  | cons w values ih =>
    have hstep : storeItem id [v] w = [(id.toNat : ℤ)] := rfl
    rw [List.foldl_cons, hstep, ih, if_neg (List.cons_ne_nil w values), ite_self]

theorem length_storeItems (id : Octet) (values : List ℤ) {items : List ℤ} (hne : items ≠ []) :
    (values.foldl (storeItem id) items).length = items.length := by
  induction values generalizing items with
  | nil => rfl
  | cons w values ih =>
    obtain ⟨v, vs, rfl⟩ := List.exists_cons_of_ne_nil hne
    rw [List.foldl_cons]
    exact ih (List.cons_ne_nil _ _)

/-- The one item holds the value last set, if it is the only one set, or the identifier. -/
theorem storeItems_eq_last (id : Octet) (sv values : List ℤ) :
    values.foldl (storeItem id) sv = (sv ++ values).getLast?.toList ↔
      sv.length ≤ 1 ∧ ((sv ++ values).length ≤ 1 ∨ (sv ++ values).getLast? = some (id.toNat : ℤ)) := by
  have hone : ∀ v (values : List ℤ), [if values = [] then v else (id.toNat : ℤ)] =
      (v :: values).getLast?.toList ↔
        (v :: values).length ≤ 1 ∨ (v :: values).getLast? = some (id.toNat : ℤ) := by
    intro v values
    rcases values with - | ⟨w, values⟩
    · simp
    · rw [if_neg (List.cons_ne_nil w values), List.getLast?_cons_cons, List.getLast?_cons]
      simp [eq_comm]
  rcases sv with - | ⟨v, - | ⟨v', vs⟩⟩
  · rw [List.nil_append]
    cases values with
    | nil => simp
    | cons w values =>
      have hstep : storeItem id [] w = [w] := rfl
      rw [List.foldl_cons, hstep, storeItems_singleton, hone]
      simp
  · rw [storeItems_singleton, List.singleton_append, hone]
    simp
  · refine iff_of_false (fun h => ?_) fun h => ?_
    · have hlen := congrArg List.length h
      rw [length_storeItems id values (List.cons_ne_nil _ _)] at hlen
      cases hlast : (v :: v' :: vs ++ values).getLast? <;> rw [hlast] at hlen <;> simp at hlen
    · simp only [List.length_cons] at h
      omega

end TMPriorities

/-- What a TM multiplexer leaves. -/
def KeptTM (defaultPriority : ℤ) (saved calls : List (Octet × ℤ)) : Prop :=
  let m := (TMPriorities.new defaultPriority (savedList saved)).run calls
  Kept defaultPriority (saved ++ calls) m.getPriority
    (TMPriorities.new defaultPriority m.priorities).getPriority m.priorities

theorem keptTM_iff : KeptTM defaultPriority saved calls ↔
    ∀ id, (valuesSet saved id).length ≤ 1 ∧ ((valuesSet (saved ++ calls) id).length ≤ 1 ∨
      (valuesSet (saved ++ calls) id).getLast? = some (id.toNat : ℤ)) := by
  unfold KeptTM
  simp only [valuesSet_append, ← TMPriorities.storeItems_eq_last]
  constructor
  · intro h id
    have hitems := h.saved_item id
    rwa [TMPriorities.itemsOf_run, valuesSet_append] at hitems
  · intro h
    refine ⟨fun id => ?_, fun id => ?_, TMPriorities.mem_run _ _ _, fun id => ?_⟩
    · rw [TMPriorities.getPriority_eq, TMPriorities.itemsOf_run, TMPriorities.run_defaultPriority, h id,
        valuesSet_append]
      cases (valuesSet saved id ++ valuesSet calls id).getLast? <;> rfl
    · rw [TMPriorities.itemsOf_run, h id, valuesSet_append]
    · unfold TMPriorities.getPriority
      rw [TMPriorities.run_defaultPriority]
      rfl

/-- **When the priorities last set are returned, saved and there after a reload**: in an AOS multiplexer,
if an identifier of the saved list is not set, and another one is set once at most, to the default; in a
TM multiplexer, if each identifier has one value, saved or set, or its own number as its last one. -/
theorem priorities_kept_iff (defaultPriority : ℤ) (saved calls : List (Octet × ℤ)) :
    (KeptAOS defaultPriority saved calls ↔
      ∀ id, (valuesSet saved id).length ≤ 1 ∧ valuesSet calls id = [] ∨
        valuesSet saved id = [] ∧ valuesSet calls id = [defaultPriority]) ∧
    (KeptTM defaultPriority saved calls ↔
      ∀ id, (valuesSet saved id).length ≤ 1 ∧ ((valuesSet (saved ++ calls) id).length ≤ 1 ∨
        (valuesSet (saved ++ calls) id).getLast? = some (id.toNat : ℤ))) :=
  ⟨keptAOS_iff, keptTM_iff⟩

/-- One identifier is set in an AOS multiplexer, and twice in a TM multiplexer. -/
theorem priorities_lost : ¬ KeptAOS 1000 [] [(5, 7)] ∧ ¬ KeptTM 1000 [] [(5, 7), (5, 9)] := by
  constructor
  · intro h
    exact absurd (h.returned 5) (by decide)
  · intro h
    exact absurd (h.returned 5) (by decide)

end ChannelEmulator.Mux
