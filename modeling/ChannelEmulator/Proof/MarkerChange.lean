import ChannelEmulator.Proof.SyncMarker

/-!
# Changing the sync marker of a running link

`setMarker` of `modASM_Add` asks for a new buffer, that of `modASM_Remove` does not: from the
first unit on the receiving end looks for the marker that was in use then.

* `Remove.loop_found`: a marker that is found at its end only gives way to its unit.
* `Remove.loop_sent`: what a pass over a unit sends first.
* `changes_lossless_iff`: **a sequence of marker changes keeps the link lossless exactly when every later
  marker ends in the first one**, within the bit errors allowed, and holds it nowhere earlier.
-/

namespace ChannelEmulator.ASM

open Framing

/-- A search for the marker `b` in the marker `m` finds it at the end of `m` and not before. -/
def FoundAtEnd (allowed : ℤ) (b m : Bytes) : Prop :=
  b.length ≤ m.length ∧ near allowed b (m.drop (m.length - b.length)) = true ∧
    ∀ i < m.length - b.length, near allowed b (m.drop i) = false

/-- What follows a marker's length does not matter. -/
theorem near_append {allowed : ℤ} {b m : Bytes} (hle : b.length ≤ m.length) (t : Bytes) :
    near allowed b (m ++ t) = near allowed b m := by
  rw [Bool.eq_iff_iff, near_iff, near_iff, List.take_append_of_le_length hle, List.length_append]
  constructor
  · exact fun h => ⟨hle, h.2⟩
  · exact fun h => ⟨by omega, h.2⟩

theorem near_drop_append {allowed : ℤ} {b m : Bytes} {i : ℕ} (hi : i + b.length ≤ m.length)
    (t : Bytes) : near allowed b ((m ++ t).drop i) = near allowed b (m.drop i) := by
  rw [List.drop_append_of_le_length (by omega)]
  exact near_append (by rw [List.length_drop]; omega) t

namespace Remove

variable {b : Bytes} {L : ℕ} {allowed : ℤ} {s : Remove} {data : Bytes}

/-- Between two units: no unit and no marker has been begun. -/
structure Ready (b : Bytes) (L : ℕ) (allowed : ℤ) (s : Remove) : Prop where
  tracks : Tracks b L allowed s []
  none : s.goodUnit = none

theorem Ready.offset (h : Ready b L allowed s) : s.markerOffset = 0 := by
  have := h.tracks.offset_le
  rw [List.length_nil] at this
  omega

theorem Ready.partialMarkerLen (h : Ready b L allowed s) : s.partialMarkerLen = b.length := by
  rw [Remove.partialMarkerLen, h.offset, h.tracks.marker_eq, Nat.sub_zero]

theorem Ready.matching (h : Ready b L allowed s) (hle : b.length ≤ data.length) :
    s.matching data = near allowed b data := by
  have hnear : s.matching data = near allowed b (s.carried [] ++ data ++ []) := by
    apply h.tracks.matching_near
    rw [h.partialMarkerLen]
    exact hle
  rw [hnear, carried_zero h.offset, List.append_nil, List.nil_append]

/-- The same setup between two units. -/
theorem Ready.of_same (h : Ready b L allowed s) {s' : Remove} (hs : SameSetup s s')
    (ho : s'.markerOffset = 0) (he : s'.currentBitErrors = 0) : Ready b L allowed s' :=
  ⟨h.tracks.afresh hs h.none ho he [], hs.goodUnit.trans h.none⟩

/-! ## The passes over a unit -/

theorem Ready.pass_eq (h : Ready b L allowed s) (data : Bytes) : s.pass data = s.findASM data := by
  rw [pass, h.none]

/-- No marker at the head of the data. -/
theorem Ready.pass_missed (h : Ready b L allowed s) (hle : b.length ≤ data.length)
    (hn : near allowed b data = false) :
    ∃ s', s.pass data = .ok (s', [], 1) ∧ Ready b L allowed s' := by
  rw [h.pass_eq, findASM_eq, h.partialMarkerLen, if_neg (by omega), h.matching hle, hn]
  refine ⟨_, rfl, h.of_same ?_ rfl rfl⟩
  have hs := comparison_sameSetup s data
  exact ⟨hs.rebuildMarker, hs.markerBuf, hs.expectedUnitLength, hs.allowed, hs.goodUnit⟩

/-- A marker at the head of the data, with a whole unit behind it. -/
theorem Ready.pass_found (h : Ready b L allowed s) (hL : L ≠ 0) (hle : b.length + L ≤ data.length)
    (hn : near allowed b data = true) :
    ∃ s', s.pass data = .ok (s', [(data.drop b.length).take L], b.length + L) ∧
      Ready b L allowed s' := by
  have hs := comparison_sameSetup s data
  have hu : (s.comparison data).1.expectedUnitLength = L :=
    hs.expectedUnitLength.trans h.tracks.unit_eq
  have hw : wrapInnerPDU data L b.length = .ok ((data.drop b.length).take L) := by
    unfold wrapInnerPDU
    simp only [if_neg hL]
    rw [if_pos hle]
  rw [h.pass_eq, findASM_eq, h.partialMarkerLen, if_neg (by omega), h.matching (by omega), hn,
    if_pos rfl, foundASM]
  simp only [hu]
  rw [if_pos (by omega), hw]
  refine ⟨_, rfl, h.of_same ?_ rfl rfl⟩
  exact ⟨hs.rebuildMarker, hs.markerBuf, h.tracks.unit_eq.symm, hs.allowed, hs.goodUnit⟩

/-- A pass that uses up the data sends nothing. -/
theorem Ready.pass_sent (h : Ready b L allowed s) {s' : Remove} {sent : List Bytes} {adv : ℕ}
    (hshort : data.length < b.length ∨ (near allowed b data = true ∧ data.length < b.length + L))
    (hpass : s.pass data = .ok (s', sent, adv)) : sent = [] ∧ data.length ≤ adv := by
  rw [h.pass_eq, findASM_eq, h.partialMarkerLen] at hpass
  by_cases hlt : data.length < b.length
  · rw [if_pos hlt] at hpass
    split at hpass
    · obtain ⟨-, hr⟩ := Prod.mk.inj (Except.ok.inj hpass)
      obtain ⟨rfl, rfl⟩ := Prod.mk.inj hr
      exact ⟨rfl, le_rfl⟩
    · obtain ⟨-, hr⟩ := Prod.mk.inj (Except.ok.inj hpass)
      obtain ⟨rfl, rfl⟩ := Prod.mk.inj hr
      exact ⟨rfl, le_rfl⟩
  · obtain ⟨hn, hlen⟩ := hshort.resolve_left hlt
    have hu : (s.comparison data).1.expectedUnitLength = L :=
      (comparison_sameSetup s data).expectedUnitLength.trans h.tracks.unit_eq
    have hfit : 0 + (data.drop b.length).length ≤ (newUnit L).length := by
      rw [newUnit_length, List.length_drop]; omega
    rw [if_neg hlt, h.matching (by omega), hn, if_pos rfl, foundASM] at hpass
    simp only [hu] at hpass
    rw [if_neg (by omega), copyUnit_ok hfit] at hpass
    obtain ⟨-, hr⟩ := Prod.mk.inj (Except.ok.inj hpass)
    obtain ⟨rfl, rfl⟩ := Prod.mk.inj hr
    exact ⟨rfl, by omega⟩

/-! ## The loop over a unit -/

/-- A loop over no data. -/
theorem loop_nil (fuel : ℕ) (s : Remove) : s.loop fuel [] = .ok (s, []) := by
  cases fuel <;> rfl

theorem loop_cons {fuel : ℕ} {s₁ s₂ : Remove} {sent₁ sent₂ : List Bytes} {adv : ℕ}
    (hd : data ≠ []) (h₁ : s.pass data = .ok (s₁, sent₁, adv))
    (h₂ : s₁.loop fuel (data.drop adv) = .ok (s₂, sent₂)) :
    s.loop (fuel + 1) data = .ok (s₂, sent₁ ++ sent₂) := by
  rw [loop, if_neg hd]
  simp only [h₁, bind, Except.bind, h₂, pure, Except.pure]

theorem loop_cons_inv {fuel : ℕ} {s₂ : Remove} {sent : List Bytes} (hd : data ≠ [])
    (h : s.loop (fuel + 1) data = .ok (s₂, sent)) :
    ∃ s₁ sent₁ adv sent₂, s.pass data = .ok (s₁, sent₁, adv) ∧
      s₁.loop fuel (data.drop adv) = .ok (s₂, sent₂) ∧ sent = sent₁ ++ sent₂ := by
  rw [loop, if_neg hd] at h
  obtain ⟨⟨s₁, sent₁, adv⟩, h₁, h⟩ := bind_ok h
  obtain ⟨⟨s₃, sent₂⟩, h₂, h⟩ := bind_ok h
  obtain ⟨rfl, rfl⟩ := Prod.mk.inj (Except.ok.inj h)
  exact ⟨s₁, sent₁, adv, sent₂, h₁, h₂, rfl⟩

/-- A marker that is found at its end only gives way to its unit. -/
theorem loop_found (hb : b ≠ []) (hL : L ≠ 0) : ∀ (m : Bytes) {u : Bytes} {s : Remove} (fuel : ℕ),
    Ready b L allowed s → FoundAtEnd allowed b m → u.length = L → (m ++ u).length ≤ fuel →
      ∃ s', s.loop fuel (m ++ u) = .ok (s', [u]) ∧ Ready b L allowed s' := by
  intro m
  induction m with
  | nil =>
    intro u s fuel _ hm
    exact absurd (List.length_eq_zero_iff.1 (Nat.le_zero.1 hm.1)) hb
  | cons a m ih =>
    intro u s fuel hs hm hu hfuel
    obtain ⟨hle, hend, hbefore⟩ := hm
    obtain ⟨fuel, rfl⟩ : ∃ n, fuel = n + 1 := ⟨fuel - 1, by simp at hfuel; omega⟩
    have hd : a :: m ++ u ≠ [] := by simp
    by_cases heq : b.length = (a :: m).length
    · -- the marker starts here
      rw [heq, Nat.sub_self, List.drop_zero] at hend
      have hn : near allowed b (a :: m ++ u) = true := by rw [near_append hle, hend]
      obtain ⟨s', hpass, hs'⟩ := hs.pass_found hL (by rw [List.length_append]; omega) hn
      have hdrop : (a :: m ++ u).drop b.length = u := List.drop_left' heq.symm
      rw [hdrop, List.take_of_length_le hu.le] at hpass
      refine ⟨s', ?_, hs'⟩
      have hrest : (a :: m ++ u).drop (b.length + L) = [] := by
        rw [← List.drop_drop, hdrop, List.drop_of_length_le hu.le]
      have hloop : s'.loop fuel ((a :: m ++ u).drop (b.length + L)) = .ok (s', []) := by
        rw [hrest, loop_nil]
      exact loop_cons hd hpass hloop
    · have hlt : b.length ≤ m.length := by simp only [List.length_cons] at hle heq; omega
      have hsub : (a :: m).length - b.length = m.length - b.length + 1 := by
        rw [List.length_cons]; omega
      have hn : near allowed b (a :: m ++ u) = false := by
        rw [near_append hle]
        exact hbefore 0 (by omega)
      obtain ⟨s₁, hpass, hs₁⟩ := hs.pass_missed
        (by rw [List.length_append, List.length_cons]; omega) hn
      have hm' : FoundAtEnd allowed b m := by
        refine ⟨hlt, ?_, fun i hi => ?_⟩
        · rw [hsub, List.drop_succ_cons] at hend
          exact hend
        · have := hbefore (i + 1) (by omega)
          rwa [List.drop_succ_cons] at this
      obtain ⟨s', hloop, hs'⟩ := ih fuel hs₁ hm' hu (by
        simp only [List.cons_append, List.length_cons] at hfuel; omega)
      exact ⟨s', loop_cons hd hpass hloop, hs'⟩

/-- What is sent first is a whole unit behind the first place where the marker is found. -/
theorem loop_sent (hL : L ≠ 0) : ∀ (fuel : ℕ) {s s' : Remove} {data first : Bytes}
    {sent : List Bytes}, Ready b L allowed s → s.loop fuel data = .ok (s', first :: sent) →
      ∃ i, i + b.length + L ≤ data.length ∧ near allowed b (data.drop i) = true ∧
        (∀ j < i, near allowed b (data.drop j) = false) ∧
        first = (data.drop (i + b.length)).take L := by
  intro fuel
  induction fuel with
  | zero =>
    intro s s' data first sent hs h
    rw [loop] at h
    split at h <;> simp at h
  | succ fuel ih =>
    intro s s' data first sent hs h
    by_cases hd : data = []
    · subst hd
      rw [loop_nil] at h
      simp at h
    obtain ⟨s₁, sent₁, adv, sent₂, hpass, hloop, hsent⟩ := loop_cons_inv hd h
    by_cases hshort : data.length < b.length ∨
        (near allowed b data = true ∧ data.length < b.length + L)
    · obtain ⟨rfl, hadv⟩ := hs.pass_sent hshort hpass
      rw [List.drop_of_length_le hadv, loop_nil] at hloop
      obtain ⟨-, rfl⟩ := Prod.mk.inj (Except.ok.inj hloop)
      simp at hsent
    rw [not_or, not_and] at hshort
    obtain ⟨hle, hlen⟩ := hshort
    cases hn : near allowed b data with
    | true =>
      have hlen := hlen hn
      obtain ⟨s₁', hpass', -⟩ := hs.pass_found hL (by omega) hn
      obtain ⟨-, hr⟩ := Prod.mk.inj (Except.ok.inj (hpass.symm.trans hpass'))
      obtain ⟨rfl, -⟩ := Prod.mk.inj hr
      refine ⟨0, by omega, by rwa [List.drop_zero], fun j hj => by omega, ?_⟩
      rw [Nat.zero_add]
      exact (List.cons.inj hsent).1
    | false =>
      obtain ⟨s₁', hpass', hs₁⟩ := hs.pass_missed (by omega) hn
      obtain ⟨rfl, hr⟩ := Prod.mk.inj (Except.ok.inj (hpass.symm.trans hpass'))
      obtain ⟨rfl, rfl⟩ := Prod.mk.inj hr
      rw [List.nil_append] at hsent
      subst hsent
      obtain ⟨i, hi, hni, hbefore, hfirst⟩ := ih hs₁ hloop
      rw [List.length_drop] at hi
      simp only [List.drop_drop] at hni hbefore hfirst
      refine ⟨i + 1, by omega, by rwa [Nat.add_comm], fun j hj => ?_, ?_⟩
      · rcases j with _ | j
        · rwa [List.drop_zero]
        · rw [Nat.add_comm]
          exact hbefore j (by omega)
      · rw [hfirst]
        congr 2
        omega

end Remove

/-! ## Both ends -/

namespace Ends

variable {b m : Bytes} {L : ℕ} {allowed : ℤ} {e : Ends}

/-- The sending end uses the marker `m`, and the receiving end, between two units, looks for the
marker `b`. -/
structure Linked (b m : Bytes) (L : ℕ) (allowed : ℤ) (e : Ends) : Prop where
  marker : e.add.marker = m
  buffer : e.add.updateMarker.markerBuf = m
  ready : e.remove.updateMarker.Ready b L allowed

theorem start_linked (hm : m ≠ []) (L : ℕ) (allowed : ℤ) :
    Linked m m L allowed (start m L allowed) :=
  ⟨rfl, rfl, Remove.start_tracks hm L allowed, rfl⟩

/-- Before the first unit the marker is changed on both ends. -/
theorem start_changes (L : ℕ) (allowed : ℤ) : ∀ (changes : List Bytes) (m : Bytes),
    changes.foldl setMarker (start m L allowed) = start (changes.getLastD m) L allowed := by
  intro changes
  induction changes with
  | nil => intro m; rfl
  | cons m' changes ih =>
    intro m
    rw [List.foldl_cons, List.getLastD_cons, ← ih]
    rfl

/-- After it only that of the sending end changes. -/
theorem Linked.changes (hb : e.remove.rebuildMarker = false) (h : Linked b m L allowed e) :
    ∀ changes : List Bytes,
      Linked b (changes.getLastD m) L allowed (changes.foldl setMarker e) := by
  intro changes
  induction changes generalizing m e with
  | nil => exact h
  | cons m' changes ih =>
    rw [List.foldl_cons, List.getLastD_cons]
    have hready := h.ready
    rw [Remove.updateMarker_of_built hb] at hready
    apply ih (e := e.setMarker m') hb
    have hkeep : (e.setMarker m').remove.updateMarker = (e.setMarker m').remove :=
      Remove.updateMarker_of_built hb
    refine ⟨rfl, rfl, ?_⟩
    rw [hkeep]
    exact ⟨⟨hready.tracks.built, hready.tracks.marker_eq, hready.tracks.unit_eq,
      hready.tracks.allowed_eq, hready.tracks.offset_lt, hready.tracks.offset_le,
      hready.tracks.errors_eq, hready.tracks.unit_ok⟩, hready.none⟩

theorem pass_eq {changes : List Bytes} {u : Bytes} (hm : m ≠ []) (hu : u ≠ [])
    (h : Linked b m L allowed (changes.foldl setMarker e)) :
    ∃ add, add.marker = m ∧ add.updateMarker.markerBuf = m ∧ e.pass (changes, u) = do
      let (remove, out) ←
        (changes.foldl setMarker e).remove.updateMarker.loop (m ++ u).length (m ++ u)
      return (⟨add, remove⟩, out) := by
  have hsvc := Add.svc_spec h.buffer hm hu
  have hkeep : (changes.foldl setMarker e).add.updateMarker.marker = m := by
    rw [Add.updateMarker]
    split
    · exact h.marker
    · exact h.marker
  refine ⟨{ (changes.foldl setMarker e).add.updateMarker with
    asmCount := (changes.foldl setMarker e).add.updateMarker.asmCount + 1 }, hkeep, ?_, ?_⟩
  · rw [Add.updateMarker_of_built]
    · exact h.buffer
    · exact Add.updateMarker_built _
  · simp only [pass, hsvc, bind, Except.bind, runAll, Remove.svc]
    cases (changes.foldl setMarker e).remove.updateMarker.loop (m ++ u).length (m ++ u) with
    | error f => rfl
    | ok r => simp only [pure, Except.pure, List.append_nil]

/-- A unit comes out whole where its marker is found at its end only. -/
theorem pass_found {changes : List Bytes} {u : Bytes} (hm : m ≠ []) (hb : b ≠ []) (hL : L ≠ 0)
    (h : Linked b m L allowed (changes.foldl setMarker e)) (hfound : FoundAtEnd allowed b m)
    (hu : u.length = L) :
    ∃ e', e.pass (changes, u) = .ok (e', [u]) ∧ Linked b m L allowed e' ∧
      e'.remove.rebuildMarker = false := by
  have hu' : u ≠ [] := fun hn => hL (by rw [← hu, hn, List.length_nil])
  obtain ⟨add, hmarker, hbuffer, hpass⟩ := pass_eq hm hu' h
  obtain ⟨r, hloop, hr⟩ := Remove.loop_found hb hL m _ h.ready hfound hu le_rfl
  refine ⟨⟨add, r⟩, ?_, ⟨hmarker, hbuffer, ?_⟩, hr.tracks.built⟩
  · rw [hpass, hloop]
    rfl
  · rw [Remove.updateMarker_of_built hr.tracks.built]
    exact hr

/-- A marker after which every unit comes out whole is found at its end only. -/
theorem found_of_pass {changes : List Bytes} (hm : m ≠ []) (hL : L ≠ 0)
    (h : Linked b m L allowed (changes.foldl setMarker e))
    (hpass : ∀ u, u.length = L → ∃ e', e.pass (changes, u) = .ok (e', [u])) :
    FoundAtEnd allowed b m := by
  -- where the receiving end finds the marker does not depend on the unit
  have hfind : ∀ u : Bytes, u.length = L → ∃ i, i + b.length ≤ m.length ∧
      near allowed b (m.drop i) = true ∧ (∀ j < i, near allowed b (m.drop j) = false) ∧
      u = ((m ++ u).drop (i + b.length)).take L := by
    intro u hu
    have hu' : u ≠ [] := fun hn => hL (by rw [← hu, hn, List.length_nil])
    obtain ⟨e', he'⟩ := hpass u hu
    obtain ⟨add, -, -, heq⟩ := pass_eq hm hu' h
    rw [heq] at he'
    obtain ⟨⟨r, out⟩, hloop, hr⟩ := bind_ok he'
    obtain ⟨-, rfl⟩ := Prod.mk.inj (Except.ok.inj hr)
    obtain ⟨i, hi, hn, hbefore, hfirst⟩ := Remove.loop_sent hL _ h.ready hloop
    rw [List.length_append, hu] at hi
    have hi : i + b.length ≤ m.length := by omega
    rw [near_drop_append hi] at hn
    refine ⟨i, hi, hn, fun j hj => ?_, hfirst⟩
    rw [← near_drop_append (by omega : j + b.length ≤ m.length) u]
    exact hbefore j hj
  obtain ⟨i, hi, hn, hbefore, hzero⟩ := hfind (List.replicate L 0) List.length_replicate
  obtain ⟨i', hi', hn', hbefore', hone⟩ := hfind (List.replicate L 1) List.length_replicate
  obtain rfl : i = i' := by
    rcases lt_trichotomy i i' with hlt | heq | hlt
    · rw [hbefore' i hlt] at hn
      exact absurd hn (by simp)
    · exact heq
    · rw [hbefore i' hlt] at hn'
      exact absurd hn' (by simp)
  have hend : i + b.length = m.length := by
    by_contra hne
    -- then a unit would begin with an octet of the marker
    have hlt : i + b.length < m.length := by omega
    have hhead : ∀ u : Bytes, u = ((m ++ u).drop (i + b.length)).take L →
        u[0]? = some m[i + b.length] := by
      intro u hu
      rw [hu, List.getElem?_take_of_lt (Nat.pos_of_ne_zero hL), List.getElem?_drop, Nat.add_zero,
        List.getElem?_append_left hlt, List.getElem?_eq_getElem hlt]
    have h₀ := hhead _ hzero
    have h₁ := hhead _ hone
    rw [List.getElem?_replicate_of_lt (Nat.pos_of_ne_zero hL)] at h₀ h₁
    exact absurd (h₀.trans h₁.symm) (by decide)
  refine ⟨by omega, ?_, fun j hj => hbefore j (by omega)⟩
  rwa [show m.length - b.length = i by omega]

/-! ## Runs -/

/-- The marker in use at each unit. -/
def inUse (m : Bytes) : List (List Bytes) → List Bytes
  | [] => []
  | changes :: schedule => changes.getLastD m :: inUse (changes.getLastD m) schedule

/-- Whatever the units are, at any time those that came out are those that went in. -/
def Lossless (L : ℕ) (e : Ends) (schedule : List (List Bytes)) : Prop :=
  ∀ steps : List (List Bytes × Bytes), steps.map Prod.fst = schedule →
    (∀ p ∈ steps, p.2.length = L) →
      ∀ pre, pre <+: steps → ∃ e', runAll pass e pre = .ok (e', pre.map Prod.snd)

theorem lossless_nil : Lossless L e [] := by
  intro steps hs _ pre hpre
  obtain rfl := List.map_eq_nil_iff.1 hs
  obtain rfl := List.prefix_nil.1 hpre
  exact ⟨e, rfl⟩

/-- The steps of a schedule can be taken. -/
theorem exists_steps (L : ℕ) (schedule : List (List Bytes)) :
    ∃ steps : List (List Bytes × Bytes), steps.map Prod.fst = schedule ∧
      ∀ p ∈ steps, p.2.length = L := by
  refine ⟨schedule.map fun changes => (changes, newUnit L), ?_, ?_⟩
  · rw [List.map_map]
    exact List.map_id _
  · intro p hp
    obtain ⟨changes, -, rfl⟩ := List.mem_map.1 hp
    exact newUnit_length L

theorem lossless_cons {changes : List Bytes} {schedule : List (List Bytes)} :
    Lossless L e (changes :: schedule) ↔
      ∀ u, u.length = L → ∃ e', e.pass (changes, u) = .ok (e', [u]) ∧ Lossless L e' schedule := by
  constructor
  · intro h u hu
    have hstep : ∀ steps : List (List Bytes × Bytes), steps.map Prod.fst = schedule →
        (∀ p ∈ steps, p.2.length = L) → ∀ pre, pre <+: steps →
          ∃ e', runAll pass e ((changes, u) :: pre) = .ok (e', u :: pre.map Prod.snd) := by
      intro steps hs hlen pre hpre
      apply h ((changes, u) :: steps) (by rw [List.map_cons, hs])
      · intro p hp
        rcases List.mem_cons.1 hp with rfl | hp
        · exact hu
        · exact hlen p hp
      · exact (List.prefix_cons_inj _).2 hpre
    obtain ⟨steps, hs, hlen⟩ := exists_steps L schedule
    obtain ⟨e₁, h₁⟩ := hstep steps hs hlen [] List.nil_prefix
    obtain ⟨e', o₁, o₂, hpass, hnil, ho⟩ := runAll_cons_inv h₁
    obtain ⟨rfl, rfl⟩ := Prod.mk.inj (Except.ok.inj hnil)
    obtain rfl : [u] = o₁ := by simpa using ho
    refine ⟨e', hpass, fun steps hs hlen pre hpre => ?_⟩
    obtain ⟨e₂, h₂⟩ := hstep steps hs hlen pre hpre
    obtain ⟨e'', o₁, o₂, hpass', hrest, ho⟩ := runAll_cons_inv h₂
    obtain ⟨rfl, rfl⟩ := Prod.mk.inj (Except.ok.inj (hpass.symm.trans hpass'))
    obtain rfl : pre.map Prod.snd = o₂ := by simpa using ho
    exact ⟨e₂, hrest⟩
  · intro h steps hs hlen pre hpre
    obtain ⟨⟨changes', u⟩, steps, rfl⟩ : ∃ p rest, steps = p :: rest := by
      cases steps with
      | nil => exact absurd hs (by simp)
      | cons p rest => exact ⟨p, rest, rfl⟩
    rw [List.map_cons] at hs
    obtain ⟨rfl, hs'⟩ := List.cons.inj hs
    cases pre with
    | nil => exact ⟨e, rfl⟩
    | cons p pre =>
      obtain ⟨rfl, hpre'⟩ := List.cons_prefix_cons.1 hpre
      obtain ⟨e₁, hpass, hrest⟩ := h u (hlen _ List.mem_cons_self)
      obtain ⟨e', he'⟩ := hrest steps hs' (fun p hp => hlen p (List.mem_cons_of_mem _ hp)) pre hpre'
      exact ⟨e', runAll_cons hpass he'⟩

/-- One more unit: it comes out whole if and only if its marker is found at its end only, and
then the rest of the schedule decides. -/
theorem lossless_step {changes : List Bytes} {schedule : List (List Bytes)} (hm : m ≠ [])
    (hb : b ≠ []) (hL : L ≠ 0) (h : Linked b m L allowed (changes.foldl setMarker e))
    {P : Prop} (hrest : ∀ e', Linked b m L allowed e' → e'.remove.rebuildMarker = false →
      (Lossless L e' schedule ↔ P)) :
    Lossless L e (changes :: schedule) ↔ FoundAtEnd allowed b m ∧ P := by
  rw [lossless_cons]
  constructor
  · intro hall
    have hfound : FoundAtEnd allowed b m := by
      apply found_of_pass hm hL h
      intro u hu
      obtain ⟨e', hpass, -⟩ := hall u hu
      exact ⟨e', hpass⟩
    obtain ⟨e', hpass, hlossless⟩ := hall (newUnit L) (newUnit_length L)
    obtain ⟨e₁, hpass', hlinked, hbuilt⟩ := pass_found hm hb hL h hfound (newUnit_length L)
    obtain rfl : e' = e₁ := (Prod.mk.inj (Except.ok.inj (hpass.symm.trans hpass'))).1
    exact ⟨hfound, (hrest e' hlinked hbuilt).1 hlossless⟩
  · rintro ⟨hfound, hP⟩ u hu
    obtain ⟨e', hpass, hlinked, hbuilt⟩ := pass_found hm hb hL h hfound hu
    exact ⟨e', hpass, (hrest e' hlinked hbuilt).2 hP⟩

theorem getLastD_ne_nil {changes : List Bytes} (hm : m ≠ []) (hc : ∀ m' ∈ changes, m' ≠ []) :
    changes.getLastD m ≠ [] := by
  cases changes with
  | nil => exact hm
  | cons a changes =>
    rw [List.getLastD_cons, List.getLastD_eq_getLast?]
    cases hl : changes.getLast? with
    | none => exact hc a List.mem_cons_self
    | some m' => exact hc m' (List.mem_cons_of_mem _ (List.mem_of_getLast? hl))

/-- Once units have passed, the marker of the first one decides. -/
theorem Linked.losslessFrom_iff (hb : b ≠ []) (hL : L ≠ 0) : ∀ (schedule : List (List Bytes))
    {m : Bytes} {e : Ends}, m ≠ [] → (∀ changes ∈ schedule, ∀ m' ∈ changes, m' ≠ []) →
      Linked b m L allowed e → e.remove.rebuildMarker = false →
        (Lossless L e schedule ↔ ∀ m' ∈ inUse m schedule, FoundAtEnd allowed b m') := by
  intro schedule
  induction schedule with
  | nil => exact fun _ _ _ _ => iff_of_true lossless_nil (by simp [inUse])
  | cons changes schedule ih =>
    intro m e hm hne h hbuilt
    have hm' := getLastD_ne_nil hm (hne changes List.mem_cons_self)
    rw [inUse, List.forall_mem_cons]
    apply lossless_step hm' hb hL (h.changes hbuilt changes)
    intro e' hlinked hbuilt'
    exact ih hm' (fun c hc => hne c (List.mem_cons_of_mem _ hc)) hlinked hbuilt'

end Ends

/-- **Marker changes keep the link lossless** exactly when every marker in use at a unit is one
in which a search for the marker of the first unit finds it at the end only. -/
theorem changes_lossless_iff (m : Bytes) (L : ℕ) (allowed : ℤ) (schedule : List (List Bytes)) (hm : m ≠ [])
    (hL : 1 ≤ L) (hne : ∀ changes ∈ schedule, ∀ m' ∈ changes, m' ≠ []) :
    Ends.Lossless L (Ends.start m L allowed) schedule ↔
      ∀ b ∈ (Ends.inUse m schedule).head?, ∀ m' ∈ Ends.inUse m schedule,
        FoundAtEnd allowed b m' := by
  cases schedule with
  | nil => exact iff_of_true Ends.lossless_nil (by simp [Ends.inUse])
  | cons changes schedule =>
    have hm' := Ends.getLastD_ne_nil hm (hne changes List.mem_cons_self)
    have hstart : Ends.Linked (changes.getLastD m) (changes.getLastD m) L allowed
        (changes.foldl Ends.setMarker (Ends.start m L allowed)) := by
      rw [Ends.start_changes]
      exact Ends.start_linked hm' L allowed
    rw [Ends.inUse, List.head?_cons]
    simp only [Option.mem_some_iff, forall_eq', List.forall_mem_cons]
    apply Ends.lossless_step hm' hm' (by omega) hstart
    intro e' hlinked hbuilt
    exact Ends.Linked.losslessFrom_iff hm' (by omega) schedule hm'
      (fun c hc => hne c (List.mem_cons_of_mem _ hc)) hlinked hbuilt

/-- The marker `2 1` after the marker `1`, which it ends in. -/
theorem changes_lossless_iff_extended : Ends.Lossless 3 (Ends.start [1] 3 0) [[], [[2, 1]]] ↔
    ∀ b ∈ (Ends.inUse [1] [[], [[2, 1]]]).head?, ∀ m' ∈ Ends.inUse [1] [[], [[2, 1]]],
      FoundAtEnd 0 b m' :=
  changes_lossless_iff [1] 3 0 [[], [[2, 1]]] (by decide) (by decide) (by decide)

/-- After the marker `2` in place of the marker `1` no unit comes out. -/
theorem changed_marker_loses : ¬ Ends.Lossless 1 (Ends.start [1] 1 0) [[], [[2]]] := by
  intro h
  obtain ⟨e, he⟩ := h [([], [7]), ([[2]], [8])] rfl (by decide) _ (List.prefix_refl _)
  have hsent : (runAll Ends.pass (Ends.start [1] 1 0) [([], [7]), ([[2]], [8])]).toOption.map
      Prod.snd = some [[7]] := by decide
  rw [he] at hsent
  exact absurd hsent (by simp [Except.toOption])

end ChannelEmulator.ASM
