import ChannelEmulator.Proof.MarkerPass

/-!
# Sync markers on a chunked stream

* `run_clean`: a run in which no failed comparison gives up the start of a marker sends
  the units the position-by-position search finds.
* `run_inSync`: a stream of marked units is such a run, however it is cut.
* `units_survive`: **marked units come out whole**, in order, each once.
* `clean_runs_agree`: **two such runs over one stream send the same units**.
-/

namespace ChannelEmulator.ASM

open Framing

namespace Remove

variable {marker : Bytes} {L : ℕ} {allowed : ℤ} {s : Remove} {seen data later : Bytes}

/-! ## Runs -/

/-- Every pass over `data` meets its condition. -/
def LoopOk : ℕ → Remove → Bytes → Bytes → Bytes → Prop
  | 0, _, _, _, _ => True
  | fuel + 1, s, seen, data, later =>
    data ≠ [] → s.PassOk seen data later ∧
      match s.pass data with
      | .ok (s', _, advanceLen) =>
        LoopOk fuel s' (seen ++ data.take advanceLen) (data.drop advanceLen) later
      | .error _ => True

/-- Every pass over every chunk meets its condition. -/
def RunOk : Remove → Bytes → List Bytes → Prop
  | _, _, [] => True
  | s, seen, data :: chunks =>
    LoopOk data.length s.updateMarker seen data chunks.flatten ∧
      match s.svc data with
      | .ok (s', _) => RunOk s' (seen ++ data) chunks
      | .error _ => True

instance decLoopOk : ∀ (fuel : ℕ) (s : Remove) (seen data later : Bytes),
    Decidable (LoopOk fuel s seen data later)
  | 0, _, _, _, _ => isTrue trivial
  | fuel + 1, s, seen, data, later =>
    have : Decidable (match s.pass data with
        | .ok (s', _, advanceLen) =>
          LoopOk fuel s' (seen ++ data.take advanceLen) (data.drop advanceLen) later
        | .error _ => True) :=
      match s.pass data with
      | .ok (s', _, advanceLen) =>
        decLoopOk fuel s' (seen ++ data.take advanceLen) (data.drop advanceLen) later
      | .error _ => isTrue trivial
    inferInstanceAs (Decidable (_ → _ ∧ _))

instance decRunOk : ∀ (s : Remove) (seen : Bytes) (chunks : List Bytes),
    Decidable (RunOk s seen chunks)
  | _, _, [] => isTrue trivial
  | s, seen, data :: chunks =>
    have : Decidable (match s.svc data with
        | .ok (s', _) => RunOk s' (seen ++ data) chunks
        | .error _ => True) :=
      match s.svc data with
      | .ok (s', _) => decRunOk s' (seen ++ data) chunks
      | .error _ => isTrue trivial
    inferInstanceAs (Decidable (_ ∧ _))

theorem loop_spec : ∀ (fuel : ℕ) {s : Remove} {seen data : Bytes},
    Tracks marker L allowed s seen → data.length ≤ fuel → LoopOk fuel s seen data later →
      ∃ s' sent, s.loop fuel data = .ok (s', sent) ∧
        Tracks marker L allowed s' (seen ++ data) ∧
        owed marker L allowed s seen (data ++ later) =
          sent ++ owed marker L allowed s' (seen ++ data) later := by
  intro fuel
  induction fuel with
  | zero =>
    intro s seen data h hf _
    obtain rfl : data = [] := List.length_eq_zero_iff.1 (by omega)
    exact ⟨s, [], by simp [loop], by simpa using h, by simp⟩
  | succ fuel ih =>
    intro s seen data h hf hok
    by_cases hd : data = []
    · subst hd
      exact ⟨s, [], by simp [loop], by simpa using h, by simp⟩
    obtain ⟨hp, hrest⟩ := hok hd
    obtain ⟨s₁, sent₁, adv, hpass, hpays⟩ := pass_spec h hd hp
    rw [hpass] at hrest
    have hpos := hpays.pos
    obtain ⟨s₂, sent₂, hloop, htr, how⟩ := ih hpays.tracks (by rw [List.length_drop]; omega) hrest
    rw [List.append_assoc, List.take_append_drop] at htr how
    refine ⟨s₂, sent₁ ++ sent₂, ?_, htr, ?_⟩
    · rw [loop, if_neg hd]
      simp only [hpass, bind, Except.bind, hloop, pure, Except.pure]
    · rw [hpays.pays, how, List.append_assoc]

theorem updateMarker_of_built (h : s.rebuildMarker = false) : s.updateMarker = s := by
  rw [updateMarker, h]; rfl

/-- **A clean run sends what the search finds**, from any state the run can be in. -/
theorem run_spec : ∀ (chunks : List Bytes) {s : Remove} {seen : Bytes},
    Tracks marker L allowed s.updateMarker seen → RunOk s seen chunks →
      ∃ s' sent, runAll svc s chunks = .ok (s', sent) ∧
        owed marker L allowed s.updateMarker seen chunks.flatten =
          sent ++ owed marker L allowed s'.updateMarker (seen ++ chunks.flatten) [] ∧
        Tracks marker L allowed s'.updateMarker (seen ++ chunks.flatten) := by
  intro chunks
  induction chunks with
  | nil => intro s seen h _; exact ⟨s, [], rfl, by simp, by simpa using h⟩
  | cons data chunks ih =>
    intro s seen h hok
    obtain ⟨hl, hrest⟩ := hok
    obtain ⟨s₁, sent₁, hsvc, htr, how⟩ := loop_spec data.length h le_rfl hl
    have hb := updateMarker_of_built htr.built
    rw [svc, hsvc] at hrest
    obtain ⟨s₂, sent₂, hrun, how₂, htr₂⟩ := ih (by rw [hb]; exact htr) hrest
    refine ⟨s₂, sent₁ ++ sent₂, runAll_cons hsvc hrun, ?_, ?_⟩
    · rw [List.flatten_cons, how, List.append_assoc, ← List.append_assoc seen, ← how₂, hb]
    · rw [List.flatten_cons, ← List.append_assoc]; exact htr₂

/-- Nothing is owed for a stream that has ended. -/
theorem owed_end (h : Tracks marker L allowed s seen) : owed marker L allowed s seen [] = [] := by
  cases hg : s.goodUnit with
  | none =>
    rw [owed_none hg, List.append_nil]
    refine scan_of_length_lt (fun t ht => (near_iff.1 ht).1) _ ?_
    rw [carried_length h.offset_le]
    exact h.offset_lt
  | some g =>
    have hlt := (h.holds hg).lt
    rw [(h.holds hg).owed_eq, if_pos (by simpa using hlt)]

theorem start_tracks (hm : marker ≠ []) (L : ℕ) (allowed : ℤ) :
    Tracks marker L allowed (start marker L allowed).updateMarker [] := by
  refine ⟨rfl, rfl, rfl, rfl, List.length_pos_iff.2 hm, le_rfl, ?_, ?_⟩
  · rw [carried_zero rfl, bitDistance_nil]; rfl
  · intro g hg; exact absurd hg (by simp [start, updateMarker])

/-- **A clean run sends the units the position-by-position search finds** in the whole
stream. -/
theorem run_clean (hm : marker ≠ []) {chunks : List Bytes}
    (hok : RunOk (start marker L allowed) [] chunks) :
    ∃ s', runAll svc (start marker L allowed) chunks =
      .ok (s', scan (near allowed marker) marker.length L chunks.flatten) := by
  obtain ⟨s', sent, hrun, how, htr⟩ := run_spec chunks (start_tracks hm L allowed) hok
  rw [owed_end htr, List.append_nil, owed_none rfl, carried_zero rfl, List.nil_append] at how
  exact ⟨s', by rw [how]; exact hrun⟩

/-! ## A stream of marked units -/

/-- A whole marker ahead makes every comparison with its head succeed. -/
theorem Tracks.matching_of_near (h : Tracks marker L allowed s seen)
    (hn : near allowed marker (s.carried seen ++ data ++ later) = true) :
    s.matching data = true := by
  by_cases hle : s.partialMarkerLen ≤ data.length
  · rw [h.matching_near hle, hn]
  · rw [h.matching_iff, List.take_of_length_le (by omega)]
    by_contra hc
    have hlen : (s.carried seen ++ data).length ≤ marker.length := by
      have hoff := h.offset_lt
      rw [partialMarkerLen, h.marker_eq] at hle
      rw [List.length_append, carried_length h.offset_le]; omega
    rw [near_take_false hlen hc] at hn
    exact Bool.false_ne_true hn

/-- In a stream of marked units a search is never off the start of a marker. -/
theorem Tracks.matching_of_anchored (h : Tracks marker L allowed s seen) (ha : 0 ≤ allowed)
    (hg : s.goodUnit = none) {q : ℕ} (hq : Anchored marker L s seen q) {us : List Bytes}
    (hu : ∀ u ∈ us, u.length = L) (hW : seen ++ (data ++ later) = framed marker us)
    (hd : data ≠ []) : s.matching data = true := by
  rw [anchored_none hg] at hq
  have hdrop : (framed marker us).drop (q * (marker.length + L)) =
      s.carried seen ++ data ++ later := by
    rw [← hW, List.drop_append_of_le_length (by omega), List.append_assoc, carried,
      show seen.length - s.markerOffset = q * (marker.length + L) by omega]
  obtain ⟨t, ht⟩ := exists_framed_drop hu (m := marker) (L := L) (q := q) (by rw [hdrop]; simp [hd])
  apply h.matching_of_near
  rw [← hdrop, ht, near_iff, List.take_left, bitDistance_self]
  exact ⟨by simp, by simpa using ha⟩

theorem loop_inSync (ha : 0 ≤ allowed) (hL : L ≠ 0) {us : List Bytes}
    (hu : ∀ u ∈ us, u.length = L) : ∀ (fuel : ℕ) {s : Remove} {seen data : Bytes} {q : ℕ},
      Tracks marker L allowed s seen → Anchored marker L s seen q → data.length ≤ fuel →
      seen ++ (data ++ later) = framed marker us →
        LoopOk fuel s seen data later ∧ ∀ s' sent, s.loop fuel data = .ok (s', sent) →
          ∃ q', Anchored marker L s' (seen ++ data) q' := by
  intro fuel
  induction fuel with
  | zero =>
    intro s seen data q _ hq hf _
    obtain rfl : data = [] := List.length_eq_zero_iff.1 (by omega)
    refine ⟨trivial, fun s' sent hl => ⟨q, ?_⟩⟩
    obtain ⟨rfl, -⟩ : s = s' ∧ [] = sent := by simpa [loop] using hl
    simpa using hq
  | succ fuel ih =>
    intro s seen data q h hq hf hW
    by_cases hd : data = []
    · subst hd
      refine ⟨fun hc => absurd rfl hc, fun s' sent hl => ⟨q, ?_⟩⟩
      obtain ⟨rfl, -⟩ : s = s' ∧ [] = sent := by simpa [loop] using hl
      simpa using hq
    have hmatch : s.goodUnit = none → s.matching data = true := fun hg =>
      h.matching_of_anchored ha hg hq hu hW hd
    have hp : s.PassOk seen data later := by
      intro hg
      rw [if_pos (hmatch hg)]
      exact fun _ => by rw [h.unit_eq]; exact hL
    obtain ⟨s₁, sent₁, adv, hpass, hpays⟩ := pass_spec h hd hp
    have hpos := hpays.pos
    obtain ⟨q₁, hq₁⟩ : ∃ q', Anchored marker L s₁ (seen ++ data.take adv) q' := by
      rcases hpays.anchored q hq with ⟨hg, hm⟩ | hq'
      · rw [hmatch hg] at hm; exact absurd hm (by simp)
      · exact hq'
    have hih := ih hpays.tracks hq₁
      (by rw [List.length_drop]; omega : (data.drop adv).length ≤ fuel)
      (by rw [List.append_assoc, ← List.append_assoc (data.take adv), List.take_append_drop, hW])
    rw [List.append_assoc, List.take_append_drop] at hih
    refine ⟨fun _ => ⟨hp, ?_⟩, ?_⟩
    · rw [hpass]
      exact hih.1
    · intro s' sent hl
      rw [loop, if_neg hd] at hl
      simp only [hpass, bind, Except.bind] at hl
      cases hr : s₁.loop fuel (data.drop adv) with
      | error e => simp [hr] at hl
      | ok r =>
        obtain ⟨s₂, sent₂⟩ := r
        obtain ⟨rfl, -⟩ : s₂ = s' ∧ sent₁ ++ sent₂ = sent := by
          simpa [hr, pure, Except.pure] using hl
        exact hih.2 _ _ hr

/-- A stream of marked units is clean however it is cut. -/
theorem run_inSync (ha : 0 ≤ allowed) (hL : L ≠ 0) {us : List Bytes}
    (hu : ∀ u ∈ us, u.length = L) : ∀ (chunks : List Bytes) {s : Remove} {seen : Bytes} {q : ℕ},
      Tracks marker L allowed s.updateMarker seen → Anchored marker L s.updateMarker seen q →
      seen ++ chunks.flatten = framed marker us → RunOk s seen chunks := by
  intro chunks
  induction chunks with
  | nil => intro s seen q _ _ _; trivial
  | cons data chunks ih =>
    intro s seen q h hq hW
    obtain ⟨hl, hanch⟩ := loop_inSync ha hL hu data.length h hq le_rfl
      (by rw [← hW, List.flatten_cons])
    obtain ⟨s₁, sent₁, hloop, htr, -⟩ := loop_spec data.length h le_rfl hl
    refine ⟨hl, ?_⟩
    rw [svc, hloop]
    have hb := updateMarker_of_built htr.built
    obtain ⟨q', hq'⟩ := hanch _ _ hloop
    exact ih (by rw [hb]; exact htr) (by rw [hb]; exact hq')
      (by rw [List.append_assoc, ← hW, List.flatten_cons])

end Remove

namespace Add

theorem updateMarker_built (s : Add) : s.updateMarker.rebuildMarker = false := by
  rw [updateMarker]
  split
  · rfl
  · simpa using ‹¬ s.rebuildMarker = true›

theorem updateMarker_of_built {s : Add} (h : s.rebuildMarker = false) : s.updateMarker = s := by
  rw [updateMarker, h]; rfl

theorem svc_spec {s : Add} {marker data : Bytes} (hs : s.updateMarker.markerBuf = marker)
    (hm : marker ≠ []) (hd : data ≠ []) :
    s.svc data = .ok ({ s.updateMarker with asmCount := s.updateMarker.asmCount + 1 },
      [marker ++ data]) := by
  have hd' : data.length ≠ 0 := fun h => hd (List.length_eq_zero_iff.1 h)
  have hm' : marker.length ≠ 0 := fun h => hm (List.length_eq_zero_iff.1 h)
  have h₁ : overwrite (newUnit (data.length + marker.length)) 0 marker =
      marker ++ newUnit data.length := by
    simpa using overwrite_zeros [] marker (n := data.length + marker.length)
  have h₂ : overwrite (marker ++ newUnit data.length) marker.length data = marker ++ data := by
    simpa [newUnit] using overwrite_zeros marker data (n := data.length)
  rw [svc, if_neg hd']
  simp only [hs, if_neg hm']
  rw [copyUnit_ok (by rw [newUnit_length]; omega), h₁]
  simp only [bind, Except.bind]
  rw [copyUnit_ok (by rw [List.length_append, newUnit_length]), h₂]
  rfl

/-- **Every non-empty unit leaves with the marker before it.** -/
theorem run_framed {marker : Bytes} (hm : marker ≠ []) : ∀ (us : List Bytes) {s : Add},
    s.updateMarker.markerBuf = marker → (∀ u ∈ us, u ≠ []) →
      ∃ s', runAll svc s us = .ok (s', us.map (marker ++ ·)) := by
  intro us
  induction us with
  | nil => intro s _ _; exact ⟨s, rfl⟩
  | cons u us ih =>
    intro s hs hu
    have hstep := svc_spec hs hm (hu u (by simp))
    obtain ⟨s', hrun⟩ := ih (s := { s.updateMarker with asmCount := s.updateMarker.asmCount + 1 })
      (by rw [updateMarker_of_built]; exacts [hs, s.updateMarker_built])
      fun v hv => hu v (by simp [hv])
    exact ⟨s', runAll_cons hstep hrun⟩

end Add

/-- **Sync markers survive any re-chunking.** Whatever the units of the expected length
hold, and wherever the marked stream is cut, the units come out whole. -/
theorem units_survive (marker : Bytes) (L : ℕ) (allowed : ℤ) (us : List Bytes) (hm : marker ≠ [])
    (hL : 1 ≤ L) (ha : 0 ≤ allowed) (hu : ∀ u ∈ us, u.length = L) :
    ∃ a sent, runAll Add.svc (Add.start marker) us = .ok (a, sent) ∧
      ∀ chunks : List Bytes, chunks.flatten = sent.flatten →
        ∃ r, runAll Remove.svc (Remove.start marker L allowed) chunks = .ok (r, us) := by
  obtain ⟨a, hadd⟩ := Add.run_framed hm us (s := Add.start marker) rfl fun u hu' h => by
    have := hu u hu'
    rw [h] at this
    simp at this
    omega
  refine ⟨a, _, hadd, fun chunks hc => ?_⟩
  have hok : Remove.RunOk (Remove.start marker L allowed) [] chunks :=
    Remove.run_inSync ha (by omega) hu chunks (Remove.start_tracks hm L allowed)
      (q := 0) (by rw [Remove.anchored_none rfl]; simp [Remove.start, Remove.updateMarker]) hc
  obtain ⟨r, hrun⟩ := Remove.run_clean hm hok
  have hscan : scan (near allowed marker) marker.length L (framed marker us) = us := by
    refine scan_framed (fun t => ?_) hm us hu
    rw [near_iff, List.take_left, bitDistance_self]
    exact ⟨by simp, by simpa using ha⟩
  rw [hc] at hrun
  exact ⟨r, by rw [hrun]; exact congrArg (fun x => Except.ok (r, x)) hscan⟩

/-- Two units after the marker `1A CF`, the first of them holding a marker itself. -/
theorem units_survive_two : ∃ r, runAll Remove.svc (Remove.start [0x1A, 0xCF] 3 0)
    [[0x1A], [0xCF, 0x1A, 0xCF], [7, 0x1A, 0xCF, 1, 2], [3]] =
      .ok (r, [[0x1A, 0xCF, 7], [1, 2, 3]]) := by
  obtain ⟨a, sent, hadd, h⟩ := units_survive [0x1A, 0xCF] 3 0 [[0x1A, 0xCF, 7], [1, 2, 3]]
    (by decide) (by decide) (by decide) (by decide)
  refine h _ ?_
  have : sent = [[0x1A, 0xCF, 0x1A, 0xCF, 7], [0x1A, 0xCF, 1, 2, 3]] := by
    have hs : runAll Add.svc (Add.start [0x1A, 0xCF]) [[0x1A, 0xCF, 7], [1, 2, 3]] =
      .ok ({ marker := [0x1A, 0xCF], rebuildMarker := false, asmCount := 2,
             markerBuf := [0x1A, 0xCF] },
        [[0x1A, 0xCF, 0x1A, 0xCF, 7], [0x1A, 0xCF, 1, 2, 3]]) := by decide
    rw [hs] at hadd
    exact (by simpa using hadd.symm : a = _ ∧ sent = _).2
  rw [this]; rfl

/-- What the remover sends for a list of chunks. -/
def sentUnits (marker : Bytes) (L : ℕ) (allowed : ℤ) (chunks : List Bytes) :
    Except Fault (List Bytes) :=
  (runAll Remove.svc (Remove.start marker L allowed) chunks).map Prod.snd

/-- A false start of the marker at the end of a chunk swallows the true start after it. -/
theorem chunking_matters : ¬ ∀ (marker : Bytes) (L : ℕ) (allowed : ℤ) (c₁ c₂ : List Bytes),
    marker ≠ [] → c₁.flatten = c₂.flatten →
      sentUnits marker L allowed c₁ = sentUnits marker L allowed c₂ := by
  intro h
  have := h [1, 2] 1 0 [[1, 1, 2, 7]] [[1], [1, 2, 7]] (by decide) (by decide)
  revert this
  decide

/-- **Two clean runs over one stream send the same units.** A run is clean when no failed
comparison gives up an octet at which a marker starts, the first of the candidate apart,
and no marker is found while the unit length is zero. -/
theorem clean_runs_agree (marker : Bytes) (L : ℕ) (allowed : ℤ) (c₁ c₂ : List Bytes)
    (hm : marker ≠ []) (hc : c₁.flatten = c₂.flatten)
    (h₁ : Remove.RunOk (Remove.start marker L allowed) [] c₁)
    (h₂ : Remove.RunOk (Remove.start marker L allowed) [] c₂) :
    ∃ units, sentUnits marker L allowed c₁ = .ok units ∧
      sentUnits marker L allowed c₂ = .ok units := by
  obtain ⟨r₁, hr₁⟩ := Remove.run_clean hm h₁
  obtain ⟨r₂, hr₂⟩ := Remove.run_clean hm h₂
  refine ⟨_, by rw [sentUnits, hr₁]; rfl, ?_⟩
  rw [sentUnits, hr₂, hc]; rfl

/-- Garbage and a marker cut in two, against the same octets in one chunk. -/
theorem clean_runs_agree_cut : ∃ units, sentUnits [1, 2] 1 0 [[9, 1, 2, 7, 1, 2, 8]] = .ok units ∧
    sentUnits [1, 2] 1 0 [[9, 1], [2], [7, 1, 2], [8]] = .ok units :=
  clean_runs_agree [1, 2] 1 0 _ _ (by decide) (by decide) (by decide) (by decide)

end ChannelEmulator.ASM
