import ChannelEmulator.Spec.Settings

/-!
# The creation of settings

* `parent_cases`: a path is the one of its parent, a dot and a name without one.
* `Missing`: what `getOrAdd` does for a setting that is not there; `getOrAdd_missing`: it does it.
* `getOrAdd_created`: **on return the setting is there with the groups above it; an exception leaves the groups that
  could be created.**
-/

namespace ChannelEmulator

namespace Settings

/-! ## Paths -/

theorem not_mem_of_rfindDot {path : Bytes} (h : rfindDot path = none) : dot ∉ path := by
  induction path with
  | nil => exact List.not_mem_nil
  | cons b path ih =>
    unfold rfindDot at h
    cases hr : rfindDot path with
    | some idx =>
      rw [hr] at h
      cases h
    | none =>
      simp only [hr, ite_eq_right_iff, reduceCtorEq, imp_false] at h
      rw [List.mem_cons, not_or]
      exact ⟨Ne.symm h, ih hr⟩

theorem split_of_rfindDot {path : Bytes} {idx : ℕ} (h : rfindDot path = some idx) :
    path = path.take idx ++ dot :: path.drop (idx + 1) ∧ dot ∉ path.drop (idx + 1) := by
  induction path generalizing idx with
  | nil => cases h
  | cons b path ih =>
    unfold rfindDot at h
    cases hr : rfindDot path with
    | some i =>
      rw [hr] at h
      obtain rfl := Option.some.inj h
      obtain ⟨heq, hnot⟩ := ih hr
      refine ⟨?_, hnot⟩
      rw [List.take_succ_cons, List.drop_succ_cons, List.cons_append, ← heq]
    | none =>
      simp only [hr, Option.ite_none_right_eq_some, Option.some.injEq] at h
      obtain ⟨rfl, rfl⟩ := h
      exact ⟨rfl, not_mem_of_rfindDot hr⟩

/-- **A path is the one of its parent, a dot and a name**, or the name alone. -/
theorem parent_cases (path : Bytes) : dot ∉ getChildName path ∧
    (path = getParentPath path ++ dot :: getChildName path ∨
      getParentPath path = [] ∧ path = getChildName path) := by
  unfold getParentPath getChildName
  cases hr : rfindDot path with
  | none => exact ⟨not_mem_of_rfindDot hr, .inr ⟨rfl, rfl⟩⟩
  | some idx =>
    obtain ⟨heq, hnot⟩ := split_of_rfindDot hr
    exact ⟨hnot, .inl heq⟩

theorem parent_ancestor {path : Bytes} (h : getParentPath path ≠ []) : Ancestor (getParentPath path) path := by
  rcases (parent_cases path).2 with heq | ⟨hnil, -⟩
  · exact ⟨h, _, heq⟩
  · exact absurd hnil h

/-- What is above a path is its parent, or above that. -/
theorem Ancestor.cases {above path : Bytes} (h : Ancestor above path) :
    above = getParentPath path ∨ Ancestor above (getParentPath path) := by
  obtain ⟨hne, rest, heq⟩ := h
  obtain ⟨hnot, hsplit | ⟨-, hname⟩⟩ := parent_cases path
  · rcases List.append_eq_append_iff.1 (heq.symm.trans hsplit) with ⟨mid, hparent, hrest⟩ | ⟨mid, habove, hchild⟩
    · cases mid with
      | nil =>
        rw [List.append_nil] at hparent
        exact .inl hparent.symm
      | cons b mid =>
        obtain ⟨rfl, -⟩ := List.cons.inj hrest
        exact .inr ⟨hne, mid, hparent⟩
    · cases mid with
      | nil =>
        rw [List.append_nil] at habove
        exact .inl habove
      | cons b mid =>
        -- then the name had a dot
        obtain ⟨-, hmid⟩ := List.cons.inj hchild
        refine absurd ?_ hnot
        rw [hmid]
        exact List.mem_append_right _ (List.mem_cons_self ..)
  · refine absurd ?_ hnot
    rw [← hname, heq]
    exact List.mem_append_right _ (List.mem_cons_self ..)

theorem Ancestor.of_parent {above path : Bytes} (h : Ancestor above (getParentPath path)) :
    Ancestor above path := by
  obtain ⟨hne, rest, heq⟩ := h
  rcases (parent_cases path).2 with hsplit | ⟨hnil, -⟩
  · refine ⟨hne, rest ++ dot :: getChildName path, ?_⟩
    rw [heq, List.append_assoc, List.cons_append] at hsplit
    exact hsplit
  · rw [hnil] at heq
    exact absurd heq.symm (List.append_ne_nil_of_right_ne_nil _ (List.cons_ne_nil _ _))

/-! ## One setting -/

variable {Tree Value : Type} {C : LibConfig Tree Value} {t t' : Tree} {path : Bytes} {settingType : SettingType}
  {w : Bool}

theorem LibConfig.Keeps.refl (t : Tree) : C.Keeps t t := fun _ _ h => h

theorem LibConfig.Keeps.trans {t₁ t₂ t₃ : Tree} (h : C.Keeps t₁ t₂) (h' : C.Keeps t₂ t₃) : C.Keeps t₁ t₃ :=
  fun path s hs => h' path s (h path s hs)

theorem LibConfig.Keeps.has (h : C.Keeps t t') (hs : C.Has t path settingType) : C.Has t' path settingType := by
  obtain ⟨s, hs, htype⟩ := hs
  exact ⟨s, h path s hs, htype⟩

/-- The library finds a setting by the path of its parent and its name. -/
theorem lookup_join (h : C.Documented) (t : Tree) (path : Bytes) :
    C.lookup t (LibConfig.join (getParentPath path) (getChildName path)) = C.lookup t path := by
  unfold LibConfig.join
  rcases (parent_cases path).2 with hsplit | ⟨hnil, hname⟩
  · by_cases hnil : getParentPath path = []
    · rw [if_pos hnil, ← h.leading]
      rw [hnil, List.nil_append] at hsplit
      rw [← hsplit]
    · rw [if_neg hnil, ← hsplit]
  · rw [if_pos hnil, ← hname]

theorem lookup_join_below (h : C.Documented) (t : Tree) (path rest : Bytes) :
    C.lookup t (LibConfig.join (getParentPath path) (getChildName path) ++ dot :: rest) =
      C.lookup t (path ++ dot :: rest) := by
  unfold LibConfig.join
  rcases (parent_cases path).2 with hsplit | ⟨hnil, hname⟩
  · by_cases hnil : getParentPath path = []
    · rw [if_pos hnil, ← h.leading, ← List.cons_append]
      rw [hnil, List.nil_append] at hsplit
      rw [← hsplit]
    · rw [if_neg hnil, ← hsplit]
  · rw [if_pos hnil, ← hname]

/-- What is above a setting that is there is there. -/
theorem lookup_above (h : C.Documented) {above : Bytes} (ha : Ancestor above path)
    (hs : C.lookup t path ≠ none) : C.lookup t above ≠ none := by
  obtain ⟨hne, rest, rfl⟩ := ha
  exact fun hnone => hs (h.above t above rest hne hnone)

theorem getOrAdd_found {s : Setting Value} (hne : path ≠ []) (hs : C.lookup t path = some s) :
    getOrAdd C path settingType w t = if s.type = settingType then (.ok false, t)
      else (.error (.exception (typeError path settingType s)), t) := by
  rw [getOrAdd, dif_neg hne, hs]

theorem getOrAdd_parent_ok {b : Bool} (hne : path ≠ []) (hnone : C.lookup t path = none)
    (hparent : getOrAdd C (getParentPath path) .group false t = (.ok b, t')) :
    getOrAdd C path settingType w t =
      match C.add t' (getParentPath path) (getChildName path) settingType with
      | .error e => (.error e, t')
      | .ok t => (.ok true, t) := by
  rw [getOrAdd, dif_neg hne, hnone]
  cases hadd : C.add t' (getParentPath path) (getChildName path) settingType with
  | error e => simp only [hparent, hadd]
  | ok t => simp only [hparent, hadd]

theorem getOrAdd_parent_error {e : SettingError} (hne : path ≠ []) (hnone : C.lookup t path = none)
    (hparent : getOrAdd C (getParentPath path) .group false t = (.error e, t')) :
    getOrAdd C path settingType w t = (.error e, t') := by
  rw [getOrAdd, dif_neg hne, hnone]
  simp only [hparent]

/-! ## A setting that is not there -/

theorem Addable.none (h : Addable C t path) : C.lookup t path = none := by
  cases h with
  | inGroup _ hnone => exact hnone
  | inAddable _ hnone => exact hnone

theorem Addable.valid (h : Addable C t path) : validName (getChildName path) = true := by
  cases h with
  | inGroup _ _ hvalid => exact hvalid
  | inAddable _ _ hvalid => exact hvalid

/-- What can be created is in a group, or in what can be created. -/
theorem Addable.parent (h : Addable C t path) :
    C.IsGroup t (getParentPath path) ∨ Addable C t (getParentPath path) := by
  cases h with
  | inGroup _ _ _ hgroup => exact .inl hgroup
  | inAddable _ _ _ hparent => exact .inr hparent

/-- What an exception leaves: the groups above the path that could be created. -/
structure Left (C : LibConfig Tree Value) (t : Tree) (path : Bytes) (t' : Tree) : Prop where
  keeps : C.Keeps t t'
  groups : ∀ above, Ancestor above path → Addable C t above → C.Has t' above .group
  same : (∀ above, Ancestor above path → ¬Addable C t above) → t' = t

theorem Left.refl (h : C.Documented) (hparent : getParentPath path = [] ∨ C.lookup t (getParentPath path) ≠ none) :
    Left C t path t where
  keeps := LibConfig.Keeps.refl t
  groups above ha hadd := by
    have hnone := hadd.none
    rcases ha.cases with rfl | ha'
    · rcases hparent with hnil | hfound
      · exact absurd hnil ha.1
      · exact absurd hnone hfound
    · rcases hparent with hnil | hfound
      · obtain ⟨-, rest, heq⟩ := ha'
        rw [hnil] at heq
        exact absurd heq.symm (List.append_ne_nil_of_right_ne_nil _ (List.cons_ne_nil _ _))
      · exact absurd hnone (lookup_above h ha' hfound)
  same _ := rfl

/-- **What `getOrAdd` does** for a setting that is not there. -/
structure Missing (C : LibConfig Tree Value) (t : Tree) (path : Bytes) (settingType : SettingType)
    (r : Except SettingError Bool × Tree) : Prop where
  created : Addable C t path → r.1 = .ok true ∧ Created C t path settingType true r.2 ∧
    ∀ rest, validName rest = true → C.lookup r.2 (path ++ dot :: rest) = none
  left : ¬Addable C t path → (∃ e, r.1 = .error e) ∧ Left C t path r.2

/-- The last step: the member is added to a group that is there, or was just created. -/
theorem add_member (h : C.Documented) (settingType : SettingType) (hnone : C.lookup t path = none)
    (hkeeps : C.Keeps t t')
    (hgroup : C.IsGroup t' (getParentPath path))
    (hnone' : validName (getChildName path) = true → C.lookup t' path = none)
    (hgroups : ∀ above, Ancestor above path → C.lookup t above = none → C.Has t' above .group)
    (hvalid : validName (getChildName path) = true) :
    ∃ t'', C.add t' (getParentPath path) (getChildName path) settingType = .ok t'' ∧
      Created C t path settingType true t'' ∧
      ∀ rest, validName rest = true → C.lookup t'' (path ++ dot :: rest) = none := by
  obtain ⟨t'', hadd, hkeeps', hhas, hfresh⟩ := h.add_valid t' (getParentPath path) (getChildName path) settingType
    hgroup hvalid (by rw [lookup_join h]; exact hnone' hvalid)
  refine ⟨t'', hadd, ⟨?_, ?_, hkeeps.trans hkeeps', ?_⟩, ?_⟩
  · obtain ⟨s, hs, htype⟩ := hhas
    rw [lookup_join h] at hs
    exact ⟨s, hs, htype⟩
  · exact fun above ha habove => hkeeps'.has (hgroups above ha habove)
  · exact ⟨fun _ => hnone, fun _ => rfl⟩
  · intro rest hrest
    rw [← lookup_join_below h]
    exact hfresh rest hrest

/-- The group at the parent is there, or is the root. -/
theorem getOrAdd_in_group (h : C.Documented) (hne : path ≠ []) (hnone : C.lookup t path = none)
    (hgroup : C.IsGroup t (getParentPath path)) {b : Bool}
    (hparent : getOrAdd C (getParentPath path) .group false t = (.ok b, t)) :
    Missing C t path settingType (getOrAdd C path settingType w t) := by
  have hthere : getParentPath path = [] ∨ C.lookup t (getParentPath path) ≠ none := by
    rcases hgroup with hnil | ⟨s, hs, -⟩
    · exact .inl hnil
    · exact .inr (by rw [hs]; exact Option.some_ne_none s)
  rw [getOrAdd_parent_ok hne hnone hparent]
  cases hvalid : validName (getChildName path) with
  | true =>
    have hgroups : ∀ above, Ancestor above path → C.lookup t above = none → C.Has t above .group := by
      -- nothing above the path is missing
      intro above ha habove
      rcases hthere with hnil | hfound
      · rcases ha.cases with rfl | ⟨-, rest, heq⟩
        · exact absurd hnil ha.1
        · rw [hnil] at heq
          exact absurd heq.symm (List.append_ne_nil_of_right_ne_nil _ (List.cons_ne_nil _ _))
      · rcases ha.cases with rfl | ha'
        · exact absurd habove hfound
        · exact absurd habove (lookup_above h ha' hfound)
    obtain ⟨t'', hadd, hcreated, hfresh⟩ := add_member h settingType hnone
      (LibConfig.Keeps.refl t) hgroup (fun _ => hnone) hgroups hvalid
    rw [hadd]
    refine ⟨fun _ => ⟨rfl, hcreated, hfresh⟩, fun hnot => absurd ?_ hnot⟩
    exact .inGroup hne hnone hvalid hgroup
  | false =>
    rw [h.add_invalid t _ _ settingType hgroup hvalid]
    refine ⟨fun hadd => absurd (hvalid.symm.trans hadd.valid) Bool.false_ne_true, fun _ => ⟨⟨_, rfl⟩, ?_⟩⟩
    exact Left.refl h hthere

/-- The group at the parent is not there: the call for it comes first. -/
theorem getOrAdd_in_missing (h : C.Documented) (hne : path ≠ []) (hnone : C.lookup t path = none)
    (hparent : getParentPath path ≠ []) (hmissing : C.lookup t (getParentPath path) = none)
    (ih : Missing C t (getParentPath path) .group (getOrAdd C (getParentPath path) .group false t)) :
    Missing C t path settingType (getOrAdd C path settingType w t) := by
  cases hr : getOrAdd C (getParentPath path) .group false t with
  | mk answer t' =>
    rw [hr] at ih
    by_cases hadd : Addable C t (getParentPath path)
    · obtain ⟨rfl, hcreated, hfresh⟩ := ih.created hadd
      rw [getOrAdd_parent_ok hne hnone hr]
      have hgroup : C.IsGroup t' (getParentPath path) := .inr hcreated.has
      have hgroups : ∀ above, Ancestor above path → C.lookup t above = none → C.Has t' above .group := by
        intro above ha habove
        rcases ha.cases with rfl | ha'
        · exact hcreated.has
        · exact hcreated.groups above ha' habove
      cases hvalid : validName (getChildName path) with
      | true =>
        have hnone' : C.lookup t' path = none := by
          obtain ⟨_, hsplit | ⟨hnil, -⟩⟩ := parent_cases path
          · rw [hsplit]
            exact hfresh _ hvalid
          · exact absurd hnil hparent
        obtain ⟨t'', hadd', hcreated', hfresh'⟩ := add_member h settingType hnone
          hcreated.keeps hgroup (fun _ => hnone') hgroups hvalid
        rw [hadd']
        refine ⟨fun _ => ⟨rfl, hcreated', hfresh'⟩, fun hnot => absurd ?_ hnot⟩
        exact .inAddable hne hnone hvalid hadd
      | false =>
        -- the groups above stay behind
        rw [h.add_invalid t' _ _ settingType hgroup hvalid]
        refine ⟨fun hadd' => absurd (hvalid.symm.trans hadd'.valid) Bool.false_ne_true, fun _ => ⟨⟨_, rfl⟩, ?_⟩⟩
        exact ⟨hcreated.keeps, fun above ha habove => hgroups above ha habove.none,
          fun hnot => absurd hadd (hnot _ (parent_ancestor hparent))⟩
    · obtain ⟨⟨e, rfl⟩, hleft⟩ := ih.left hadd
      rw [getOrAdd_parent_error hne hnone hr]
      refine ⟨fun hadd' => ?_, fun _ => ⟨⟨e, rfl⟩, hleft.keeps, ?_, ?_⟩⟩
      · rcases hadd'.parent with (hnil | ⟨s, hs, -⟩) | hadd''
        · exact absurd hnil hparent
        · rw [hs] at hmissing
          cases hmissing
        · exact absurd hadd'' hadd
      · intro above ha habove
        rcases ha.cases with rfl | ha'
        · exact absurd habove hadd
        · exact hleft.groups above ha' habove
      · exact fun hnot => hleft.same fun above ha => hnot above ha.of_parent

theorem getOrAdd_missing (h : C.Documented) (hne : path ≠ []) (hnone : C.lookup t path = none) :
    Missing C t path settingType (getOrAdd C path settingType w t) := by
  -- by induction on the length of the path
  induction hlen : path.length using Nat.strongRecOn generalizing path settingType w with
  | _ len ih =>
    by_cases hparent : getParentPath path = []
    · refine getOrAdd_in_group h hne hnone (.inl hparent) (b := false) ?_
      rw [getOrAdd, dif_pos hparent]
    cases hs : C.lookup t (getParentPath path) with
    | none =>
      refine getOrAdd_in_missing h hne hnone hparent hs ?_
      exact ih _ (hlen ▸ getParentPath_length hne) hparent hs rfl
    | some s =>
      have hfound : getOrAdd C (getParentPath path) .group false t = _ := getOrAdd_found hparent hs
      by_cases htype : s.type = .group
      · rw [if_pos htype] at hfound
        exact getOrAdd_in_group h hne hnone (.inr ⟨s, hs, htype⟩) hfound
      · -- a setting of another type is in the way
        rw [if_neg htype] at hfound
        rw [getOrAdd_parent_error hne hnone hfound]
        refine ⟨fun hadd => ?_, fun _ => ⟨⟨_, rfl⟩, Left.refl h (.inr ?_)⟩⟩
        · rcases hadd.parent with (hnil | ⟨s', hs', htype'⟩) | hadd'
          · exact absurd hnil hparent
          · obtain rfl := Option.some.inj (hs.symm.trans hs')
            exact absurd htype' htype
          · have hnone' := hadd'.none
            rw [hs] at hnone'
            cases hnone'
        · rw [hs]
          exact Option.some_ne_none s

/-- **Creation is exact**: on return the setting is there with the groups above it, nothing that was there has
changed, and the answer is whether it was created. An exception leaves the tree as it was, but for the groups above
the path that could be created. -/
theorem getOrAdd_created (h : C.Documented) (hne : path ≠ []) (settingType : SettingType) (w : Bool) (t : Tree) :
    (∀ b t', getOrAdd C path settingType w t = (.ok b, t') → Created C t path settingType b t') ∧
    ∀ e t', getOrAdd C path settingType w t = (.error e, t') →
      C.Keeps t t' ∧ (∀ above, Ancestor above path → Addable C t above → C.Has t' above .group) ∧
        ((∀ above, Ancestor above path → ¬Addable C t above) → t' = t) := by
  cases hs : C.lookup t path with
  | some s =>
    have hthere : C.lookup t path ≠ none := by rw [hs]; exact Option.some_ne_none s
    have hcreated : s.type = settingType → Created C t path settingType false t := by
      intro htype
      refine ⟨⟨s, hs, htype⟩, fun above ha habove => ?_, LibConfig.Keeps.refl t, ?_⟩
      · exact absurd habove (lookup_above h ha hthere)
      · exact ⟨fun hfalse => absurd hfalse Bool.false_ne_true, fun hnone => absurd hnone hthere⟩
    rw [getOrAdd_found hne hs]
    by_cases htype : s.type = settingType
    · rw [if_pos htype]
      refine ⟨fun b t' heq => ?_, fun e t' heq => by cases heq⟩
      obtain ⟨hb, rfl⟩ := Prod.mk.inj heq
      obtain rfl := Except.ok.inj hb
      exact hcreated htype
    · rw [if_neg htype]
      refine ⟨fun b t' heq => (by cases heq), fun e t' heq => ?_⟩
      obtain ⟨-, rfl⟩ := Prod.mk.inj heq
      refine ⟨LibConfig.Keeps.refl t, fun above ha hadd => ?_, fun _ => rfl⟩
      exact absurd hadd.none (lookup_above h ha hthere)
  | none =>
    have hm : Missing C t path settingType (getOrAdd C path settingType w t) := getOrAdd_missing h hne hs
    refine ⟨fun b t' heq => ?_, fun e t' heq => ?_⟩
    · rw [heq] at hm
      by_cases hadd : Addable C t path
      · obtain ⟨hb, hcreated, -⟩ := hm.created hadd
        obtain rfl := Except.ok.inj hb
        exact hcreated
      · obtain ⟨⟨e, he⟩, -⟩ := hm.left hadd
        cases he
    · rw [heq] at hm
      by_cases hadd : Addable C t path
      · obtain ⟨hb, -⟩ := hm.created hadd
        cases hb
      · obtain ⟨-, hleft⟩ := hm.left hadd
        exact ⟨hleft.keeps, hleft.groups, hleft.same⟩

/-! ## A configuration in memory -/

/-- The names of a path, without those that are empty. -/
def names : Bytes → Bytes → List Bytes
  | token, [] => if token = [] then [] else [token]
  | token, b :: path =>
    if b = dot then (if token = [] then [] else [token]) ++ names [] path else names (token ++ [b]) path

theorem names_append (token p rest : Bytes) : names token (p ++ dot :: rest) = names token p ++ names [] rest := by
  induction p generalizing token with
  | nil =>
    show (if dot = dot then _ else _) = _
    rw [if_pos rfl]
    rfl
  | cons b p ih =>
    rw [List.cons_append, names, names]
    by_cases hb : b = dot
    · rw [if_pos hb, if_pos hb, ih, List.append_assoc]
    · rw [if_neg hb, if_neg hb, ih]

theorem names_of_not_mem {token name : Bytes} (hdot : dot ∉ name) (hne : token ++ name ≠ []) :
    names token name = [token ++ name] := by
  induction name generalizing token with
  | nil =>
    rw [List.append_nil] at hne ⊢
    rw [names, if_neg hne]
  | cons b name ih =>
    rw [List.mem_cons, not_or] at hdot
    rw [names, if_neg (Ne.symm hdot.1), ih hdot.2 (by rw [List.append_assoc]; exact hne), List.append_assoc]
    rfl

theorem validName_spec {name : Bytes} (h : validName name = true) : dot ∉ name ∧ name ≠ [] := by
  cases name with
  | nil => cases h
  | cons b name =>
    refine ⟨fun hmem => ?_, List.cons_ne_nil _ _⟩
    unfold validName at h
    rw [Bool.and_eq_true] at h
    rcases List.mem_cons.1 hmem with rfl | hmem
    · exact absurd h.1 (by decide)
    · exact absurd (List.all_eq_true.1 h.2 dot hmem) (by decide)

theorem names_of_valid {name : Bytes} (h : validName name = true) : names [] name = [name] :=
  names_of_not_mem (validName_spec h).1 (validName_spec h).2

/-- The types of the settings, by their names from the root on. -/
structure SettingTree where
  found : List Bytes → Option SettingType
  root : found [] = some .group
  above : ∀ parent name, found parent = none → found (parent ++ [name]) = none

/-- No settings but the root. -/
def SettingTree.empty : SettingTree where
  found path := if path = [] then some .group else none
  root := if_pos rfl
  above _ _ _ := if_neg (List.append_ne_nil_of_right_ne_nil _ (List.cons_ne_nil _ _))

def SettingTree.insert (t : SettingTree) (parent : List Bytes) (name : Bytes) (settingType : SettingType)
    (h : t.found parent = some .group) : SettingTree where
  found path := if path = parent ++ [name] then some settingType else t.found path
  root := by
    rw [if_neg (List.append_ne_nil_of_right_ne_nil _ (List.cons_ne_nil _ _)).symm]
    exact t.root
  above path n hnone := by
    by_cases hpath : path = parent ++ [name]
    · rw [if_pos hpath] at hnone
      cases hnone
    · rw [if_neg hpath] at hnone
      rw [if_neg fun heq => ?_]
      · exact t.above path n hnone
      · rw [(List.append_inj' heq rfl).1, h] at hnone
        cases hnone

/-- A library that keeps such a tree. -/
def memory : LibConfig SettingTree Unit where
  lookup t path := (t.found (names [] path)).map fun settingType => ⟨settingType, 0, ()⟩
  add t path name settingType :=
    if h : t.found (names [] path) = some .group then
      if validName name = true ∧ t.found (names [] path ++ [name]) = none then
        .ok (t.insert (names [] path) name settingType h)
      else .error .settingName
    else .error .settingType

theorem memory_lookup_eq_none {t : SettingTree} {path : Bytes} :
    memory.lookup t path = none ↔ t.found (names [] path) = none := Option.map_eq_none_iff

theorem memory_isGroup {t : SettingTree} {path : Bytes} (h : memory.IsGroup t path) :
    t.found (names [] path) = some .group := by
  rcases h with rfl | ⟨s, hs, htype⟩
  · exact t.root
  · obtain ⟨settingType, hfound, rfl⟩ := Option.map_eq_some_iff.1 hs
    rw [hfound]
    exact congrArg some htype

theorem names_join {parent name : Bytes} (h : validName name = true) :
    names [] (LibConfig.join parent name) = names [] parent ++ [name] := by
  unfold LibConfig.join
  by_cases hnil : parent = []
  · rw [if_pos hnil, hnil, names_of_valid h]
    rfl
  · rw [if_neg hnil, names_append, names_of_valid h]

theorem SettingTree.found_append {t : SettingTree} {parent : List Bytes} (h : t.found parent = none)
    (rest : List Bytes) : t.found (parent ++ rest) = none := by
  induction rest generalizing parent with
  | nil => rw [List.append_nil]; exact h
  | cons name rest ih =>
    have hstep := ih (t.above parent name h)
    rw [List.append_assoc] at hstep
    exact hstep

/-- It does what the library promises. -/
theorem memory_documented : memory.Documented where
  leading t path := rfl
  above t parent rest _ hnone := by
    rw [memory_lookup_eq_none] at hnone ⊢
    rw [names_append]
    exact SettingTree.found_append hnone _
  add_valid t parent name settingType hgroup hvalid hnone := by
    have hfound := memory_isGroup hgroup
    rw [memory_lookup_eq_none, names_join hvalid] at hnone
    refine ⟨t.insert (names [] parent) name settingType hfound, ?_, ?_, ?_, ?_⟩
    · show (if h : _ then _ else _) = _
      rw [dif_pos hfound, if_pos ⟨hvalid, hnone⟩]
    · intro path s hs
      obtain ⟨type, htype, rfl⟩ := Option.map_eq_some_iff.1 hs
      refine Option.map_eq_some_iff.2 ⟨type, ?_, rfl⟩
      show (if _ then _ else _) = _
      rw [if_neg fun heq => ?_, htype]
      rw [heq, hnone] at htype
      cases htype
    · refine ⟨_, Option.map_eq_some_iff.2 ⟨settingType, ?_, rfl⟩, rfl⟩
      show (if _ then _ else _) = _
      rw [if_pos (names_join hvalid)]
    · intro rest hrest
      rw [memory_lookup_eq_none, names_append, names_join hvalid, names_of_valid hrest]
      show (if _ then _ else _) = _
      rw [if_neg fun heq => ?_]
      · exact t.above _ rest hnone
      · exact absurd (congrArg List.length heq) (by simp)
  add_invalid t parent name settingType hgroup hvalid := by
    show (if h : _ then _ else _) = _
    rw [dif_pos (memory_isGroup hgroup), if_neg fun h => ?_]
    rw [h.1] at hvalid
    cases hvalid

/-- `a.b` in an empty configuration. -/
theorem getOrAdd_created_memory : ∃ t', getOrAdd memory [97, 46, 98] .int false .empty = (.ok true, t') ∧
    Created memory .empty [97, 46, 98] .int true t' := by
  have hparent : Addable memory .empty [97] := .inGroup (by decide) (by decide) (by decide) (.inl rfl)
  have hadd : Addable memory .empty [97, 46, 98] := .inAddable (by decide) (by decide) (by decide) hparent
  have hm : Missing memory .empty [97, 46, 98] .int (getOrAdd memory [97, 46, 98] .int false .empty) :=
    getOrAdd_missing memory_documented (by decide) hadd.none
  obtain ⟨hb, -, -⟩ := hm.created hadd
  refine ⟨_, Prod.ext hb rfl, ?_⟩
  exact (getOrAdd_created memory_documented (by decide) .int false .empty).1 true _ (Prod.ext hb rfl)

/-- `a.1` in an empty configuration: the name `1` is refused when the group `a` is there. -/
theorem getOrAdd_left_behind : ¬ ∀ (Tree Value : Type) (C : LibConfig Tree Value), C.Documented →
    ∀ (path : Bytes) (settingType : SettingType) (w : Bool) (t : Tree), path ≠ [] →
      (∀ b t', getOrAdd C path settingType w t = (.ok b, t') → Created C t path settingType b t') ∧
        ∀ e t', getOrAdd C path settingType w t = (.error e, t') → t' = t := by
  intro hall
  have hclaim := (hall SettingTree Unit memory memory_documented [97, 46, 49] .int false .empty (by decide)).2
  have hparent : Addable memory .empty [97] := .inGroup (by decide) (by decide) (by decide) (.inl rfl)
  have hnot : ¬Addable memory .empty [97, 46, 49] := fun h => absurd h.valid (by decide)
  have hm : Missing memory .empty [97, 46, 49] .int (getOrAdd memory [97, 46, 49] .int false .empty) :=
    getOrAdd_missing memory_documented (by decide) (by decide)
  obtain ⟨⟨e, he⟩, hleft⟩ := hm.left hnot
  obtain ⟨s, hs, -⟩ := hleft.groups [97] ⟨by decide, [49], rfl⟩ hparent
  have hsame : (getOrAdd memory [97, 46, 49] .int false .empty).2 = .empty := hclaim e _ (Prod.ext he rfl)
  rw [hsame, hparent.none] at hs
  cases hs

end Settings

end ChannelEmulator
