import ChannelEmulator.Spec.TimeLine
import ChannelEmulator.Steps.StepFunction
import Mathlib.Data.Prod.Lex
import Mathlib.Order.Fin.Basic

/-!
# Time lines are step functions

* `append_cases`: an append adds a period behind all others, or throws and leaves the time line as it is.
* `find_tiles`: the period of a time is found, and has the value of the last change before it.
* `time_line_steps`: **after any appends, a time line is the step function of those that were accepted.**
-/

namespace ChannelEmulator.TimeLine

open Steps

variable {T V : Type} [LinearOrder T] {ace : TimeValues T} {d v : V} {s t : T} {cs accepted : List (T × V)}
  {tl : TimeLine T V}

/-! ## The periods of changes -/

/-- The periods of changes, from one at the time `s` on. -/
def tiles (ace : TimeValues T) (s : T) (v : V) : List (T × V) → List (TimePeriod T × V)
  | [] => [(⟨s, ace.maxTime⟩, v)]
  | c :: cs => (⟨s, ace.decrement c.1⟩, v) :: tiles ace c.1 c.2 cs

/-- The last period is closed where another one is added. -/
theorem tiles_last (ace : TimeValues T) (s : T) (v : V) (cs : List (T × V)) :
    ∃ (front : List (TimePeriod T × V)) (b : T × V), b ∈ (s, v) :: cs ∧
      tiles ace s v cs = front ++ [(⟨b.1, ace.maxTime⟩, b.2)] ∧
      (Chronological ((s, v) :: cs) → ∀ a ∈ (s, v) :: cs, a.1 ≤ b.1) ∧
      ∀ c : T × V, tiles ace s v (cs ++ [c]) =
        front ++ [(⟨b.1, ace.decrement c.1⟩, b.2), (⟨c.1, ace.maxTime⟩, c.2)] := by
  induction cs generalizing s v with
  | nil =>
    refine ⟨[], (s, v), List.mem_cons_self, rfl, fun _ a ha => ?_, fun _ => rfl⟩
    rw [List.mem_singleton.1 ha]
  | cons c cs ih =>
    obtain ⟨front, b, hb, hlast, hmax, hadd⟩ := ih c.1 c.2
    refine ⟨(⟨s, ace.decrement c.1⟩, v) :: front, b, List.mem_cons_of_mem _ hb, ?_, fun hcs a ha => ?_,
      fun e => ?_⟩
    · exact congrArg (_ :: ·) hlast
    · rcases List.mem_cons.1 ha with rfl | ha
      · exact (hcs.head_lt List.mem_cons_self).le.trans (hmax hcs.tail c List.mem_cons_self)
      · exact hmax hcs.tail a ha
    · exact congrArg (_ :: ·) (hadd e)

omit [LinearOrder T] in
theorem tiles_map_start (ace : TimeValues T) (s : T) (v : V) (cs : List (T × V)) :
    (tiles ace s v cs).map (fun p => (p.1.startTime, p.2)) = (s, v) :: cs := by
  induction cs generalizing s v with
  | nil => rfl
  | cons c cs ih => exact congrArg ((s, v) :: ·) (ih c.1 c.2)

theorem le_start_of_mem (hcs : Chronological ((s, v) :: cs)) {p : TimePeriod T × V} (hp : p ∈ tiles ace s v cs) :
    s ≤ p.1.startTime := by
  have hmem : (p.1.startTime, p.2) ∈ (s, v) :: cs := by
    rw [← tiles_map_start ace s v cs]
    exact List.mem_map_of_mem hp
  rcases List.mem_cons.1 hmem with heq | hin
  · exact (congrArg Prod.fst heq).ge
  · exact (hcs.head_lt hin).le

/-- **The period of a time** is found, and has the value at that time. -/
theorem find_tiles (hace : ace.Lawful) (h0 : ace.zero ≤ s) (hcs : Chronological ((s, v) :: cs)) (hst : s ≤ t) :
    ∃ it, it.2 = stepAt v cs t ∧
      (tiles ace s v cs).find? (fun it => decide (it.1.startTime ≤ t) && decide (t ≤ it.1.stopTime)) = some it := by
  induction cs generalizing s v with
  | nil =>
    refine ⟨_, rfl, List.find?_cons_of_pos ?_⟩
    rw [decide_eq_true hst, decide_eq_true (hace.le_maxTime t), Bool.true_and]
  | cons c cs ih =>
    have hsc : s < c.1 := hcs.head_lt List.mem_cons_self
    have hstop : t ≤ ace.decrement c.1 ↔ t < c.1 := hace.le_decrement_iff t c.1 (h0.trans_lt hsc)
    unfold tiles stepAt
    by_cases hct : c.1 ≤ t
    · obtain ⟨it, hval, hit⟩ := ih (h0.trans hsc.le) hcs.tail hct
      refine ⟨it, by rw [if_pos hct, hval], ?_⟩
      rw [List.find?_cons_of_neg, hit]
      rw [decide_eq_false (fun h => not_lt.2 hct (hstop.1 h)), Bool.and_false]
      exact Bool.false_ne_true
    · refine ⟨_, (if_neg hct).symm, List.find?_cons_of_pos ?_⟩
      rw [decide_eq_true hst, decide_eq_true (hstop.2 (not_le.1 hct)), Bool.true_and]

theorem tiles_cover (hace : ace.Lawful) (h0 : ace.zero ≤ s) (hcs : Chronological ((s, v) :: cs)) (hst : s ≤ t) :
    ∃ p ∈ tiles ace s v cs, p.1.isDuring t := by
  obtain ⟨it, -, hit⟩ := find_tiles hace h0 hcs hst
  have hduring := List.find?_some hit
  rw [Bool.and_eq_true, decide_eq_true_iff, decide_eq_true_iff] at hduring
  exact ⟨it, List.mem_of_find?_eq_some hit, hduring⟩

theorem tiles_disjoint (hace : ace.Lawful) (h0 : ace.zero ≤ s) (hcs : Chronological ((s, v) :: cs)) :
    (tiles ace s v cs).Pairwise fun p q => ∀ t, p.1.isDuring t → ¬ q.1.isDuring t := by
  induction cs generalizing s v with
  | nil => exact List.pairwise_singleton _ _
  | cons c cs ih =>
    have hsc : s < c.1 := hcs.head_lt List.mem_cons_self
    refine List.pairwise_cons.2 ⟨fun q hq t hp hin => ?_, ih (h0.trans hsc.le) hcs.tail⟩
    have hbefore : t < c.1 := (hace.le_decrement_iff t c.1 (h0.trans_lt hsc)).1 hp.2
    exact absurd ((le_start_of_mem hcs.tail hq).trans hin.1) (not_le.2 hbefore)

/-! ## Appends -/

/-- The periods are those of the accepted changes. -/
structure Tiled (ace : TimeValues T) (d : V) (accepted : List (T × V)) (tl : TimeLine T V) : Prop where
  defaultVal_eq : tl.defaultVal = d
  timeLine_eq : tl.timeLine = tiles ace ace.zero d accepted
  chronological : Chronological ((ace.zero, d) :: accepted)

theorem tiled_reset (ace : TimeValues T) (d : V) : Tiled ace d [] (reset ace d) :=
  ⟨rfl, rfl, List.pairwise_singleton _ _⟩

/-- The starts that are accepted. -/
def Later (ace : TimeValues T) (accepted : List (T × V)) (s : T) : Prop := ace.zero < s ∧ ∀ a ∈ accepted, a.1 < s

/-- **What an append does.** -/
theorem append_cases (h : Tiled ace d accepted tl) (s : T) (v : V) :
    (Later ace accepted s ∧ (tl.append ace s v).2 = none ∧
      Tiled ace d (accepted ++ [(s, v)]) (tl.append ace s v).1) ∨
    (¬ Later ace accepted s ∧ ∃ e, tl.append ace s v = (tl, some e)) := by
  obtain ⟨hd, htl, hcs⟩ := h
  obtain ⟨front, b, hb, hlast, hmax, hadd⟩ := tiles_last ace ace.zero d accepted
  have hperiods : tl.timeLine = front ++ [(⟨b.1, ace.maxTime⟩, b.2)] := htl.trans hlast
  have hback : tl.timeLine.getLast tl.timeLine_ne = (⟨b.1, ace.maxTime⟩, b.2) := by
    simp only [hperiods, List.getLast_concat]
  have hlater : b.1 < s ↔ Later ace accepted s := by
    refine ⟨fun hbs => ⟨?_, fun a ha => ?_⟩, fun hs => ?_⟩
    · exact (hmax hcs (ace.zero, d) List.mem_cons_self).trans_lt hbs
    · exact (hmax hcs a (List.mem_cons_of_mem _ ha)).trans_lt hbs
    · rcases List.mem_cons.1 hb with rfl | hin
      · exact hs.1
      · exact hs.2 b hin
  unfold append
  simp only [hback]
  by_cases hbs : b.1 < s
  · refine Or.inl ⟨hlater.1 hbs, by rw [if_pos hbs], ?_⟩
    have hzero : s ≠ ace.zero := (hlater.1 hbs).1.ne'
    rw [if_pos hbs]
    refine ⟨hd, ?_, hcs.concat fun a ha => (hmax hcs a ha).trans_lt hbs⟩
    show tl.timeLine.dropLast ++ [(⟨b.1, TimePeriod.getTimeBeforeStart ace ⟨s, ace.maxTime⟩⟩, b.2),
      (⟨s, ace.maxTime⟩, v)] = tiles ace ace.zero d (accepted ++ [(s, v)])
    rw [hadd, hperiods, List.dropLast_concat]
    unfold TimePeriod.getTimeBeforeStart
    rw [if_pos hzero]
  · exact Or.inr ⟨fun h => hbs (hlater.2 h), _, if_neg hbs⟩

/-- **What is read from the periods of changes.** -/
theorem get_tiled (hace : ace.Lawful) (h : Tiled ace d accepted tl) {modulus : ℚ} (hm : modulus ≤ 0) (t : T) :
    tl.get ace t modulus = stepAt d accepted t := by
  obtain ⟨hd, htl, hcs⟩ := h
  unfold get
  simp only [if_neg (not_lt.2 hm), htl]
  by_cases h0 : ace.zero ≤ t
  · obtain ⟨it, hval, hit⟩ := find_tiles hace le_rfl hcs h0
    rw [hit]
    exact hval
  · have hnone : (tiles ace ace.zero d accepted).find?
        (fun it => decide (it.1.startTime ≤ t) && decide (t ≤ it.1.stopTime)) = none := by
      refine List.find?_eq_none.2 fun p hp hin => h0 ?_
      rw [Bool.and_eq_true, decide_eq_true_iff] at hin
      exact (le_start_of_mem hcs hp).trans hin.1
    rw [hnone, stepAt_of_lt fun a ha => (not_le.1 h0).trans (hcs.head_lt ha)]
    exact hd

/-- Appends one after the other: the time line after them, and those that were accepted. -/
def appendAll (ace : TimeValues T) (tl : TimeLine T V) : List (T × V) → TimeLine T V × List (T × V)
  | [] => (tl, [])
  | (startTime, newVal) :: rest =>
    let (tl, thrown) := tl.append ace startTime newVal
    let (tl, accepted) := appendAll ace tl rest
    (tl, if thrown.isNone then (startTime, newVal) :: accepted else accepted)

theorem appendAll_tiled (appends : List (T × V)) (h : Tiled ace d accepted tl) :
    Tiled ace d (accepted ++ (appendAll ace tl appends).2) (appendAll ace tl appends).1 := by
  induction appends generalizing tl accepted with
  | nil =>
    rw [show (appendAll ace tl []).2 = [] from rfl, List.append_nil]
    exact h
  | cons c rest ih =>
    unfold appendAll
    rcases append_cases h c.1 c.2 with ⟨-, hnone, hnext⟩ | ⟨-, e, hsame⟩
    · have hrest := ih hnext
      rw [List.append_assoc] at hrest
      simp only [hnone]
      exact hrest
    · simp only [hsame]
      exact ih h

/-! ## Step functions -/

/-- A time line is the step function of changes: before the first of them it has the default value, from then
on the value of the last one at or before a time. It has a period from each of them on, of which no two have
a time in common, and takes one more change if it is later than they are. -/
structure IsStepFunction (ace : TimeValues T) (modulus : ℚ) (d : V) (accepted : List (T × V)) (tl : TimeLine T V) :
    Prop where
  get_before : ∀ t, (∀ a ∈ accepted, t < a.1) → tl.get ace t modulus = d
  get_greatest : ∀ t, ∀ a ∈ accepted, a.1 ≤ t → (∀ b ∈ accepted, b.1 ≤ t → b.1 ≤ a.1) → tl.get ace t modulus = a.2
  get_const : ∀ t t', t ≤ t' → (∀ a ∈ accepted, a.1 ≤ t' → a.1 ≤ t) → tl.get ace t modulus = tl.get ace t' modulus
  starts : tl.timeLine.tail.map (fun p => (p.1.startTime, p.2)) = accepted
  disjoint : tl.timeLine.tail.Pairwise fun p q => ∀ t, p.1.isDuring t → ¬ q.1.isDuring t
  cover : ∀ a ∈ accepted, ∀ t, a.1 ≤ t → ∃ p ∈ tl.timeLine.tail, p.1.isDuring t
  accepts_iff : ∀ s v, (tl.append ace s v).2 = none ↔ ace.zero < s ∧ ∀ a ∈ accepted, a.1 < s
  rejected : ∀ s v, (tl.append ace s v).2 ≠ none →
    ∀ t, (tl.append ace s v).1.get ace t modulus = tl.get ace t modulus

theorem Tiled.isStepFunction (hace : ace.Lawful) {modulus : ℚ} (hm : modulus ≤ 0) (h : Tiled ace d accepted tl) :
    IsStepFunction ace modulus d accepted tl where
  get_before t ht := by rw [get_tiled hace h hm, stepAt_of_lt ht]
  get_greatest t a ha hat hmax := by rw [get_tiled hace h hm, stepAt_of_greatest h.chronological.tail ha hat hmax]
  get_const t t' ht hsame := by rw [get_tiled hace h hm, get_tiled hace h hm, stepAt_const ht hsame]
  starts := by rw [h.timeLine_eq, List.map_tail, tiles_map_start, List.tail_cons]
  disjoint := by
    rw [h.timeLine_eq]
    exact (tiles_disjoint hace le_rfl h.chronological).tail
  cover a ha t hat := by
    have hcs := h.chronological
    rw [h.timeLine_eq]
    cases accepted with
    | nil => cases ha
    | cons c cs =>
      have h0 : ace.zero < c.1 := hcs.head_lt List.mem_cons_self
      have hct : c.1 ≤ t := by
        rcases List.mem_cons.1 ha with rfl | ha
        · exact hat
        · exact (hcs.tail.head_lt ha).le.trans hat
      exact tiles_cover hace h0.le hcs.tail hct
  accepts_iff s v := by
    rcases append_cases h s v with ⟨hlater, hnone, -⟩ | ⟨hlater, e, hsame⟩
    · exact iff_of_true hnone hlater
    · refine iff_of_false ?_ hlater
      rw [hsame]
      exact Option.some_ne_none e
  rejected s v hne t := by
    rcases append_cases h s v with ⟨-, hnone, -⟩ | ⟨-, e, hsame⟩
    · exact absurd hnone hne
    · rw [hsame]

/-! ## Seconds and microseconds -/

/-- Times of seconds and microseconds. -/
abbrev SecUsec : Type := { sec : ℤ // -2 ^ 63 ≤ sec ∧ sec < 2 ^ 63 } ×ₗ Fin 1000000

/-- A time from its seconds and microseconds. -/
def secUsec (sec : ℤ) (usec : Fin 1000000) (h : -2 ^ 63 ≤ sec ∧ sec < 2 ^ 63) : SecUsec := toLex (⟨sec, h⟩, usec)

/-- One microsecond is taken from the seconds where there is none. -/
def decrementUsec (t : SecUsec) : SecUsec :=
  if 0 < (ofLex t).2 then toLex ((ofLex t).1, (ofLex t).2 - 1)
  else if h : -2 ^ 63 < (ofLex t).1.1 then
    secUsec ((ofLex t).1.1 - 1) 999999 ⟨by omega, by have := (ofLex t).1.2.2; omega⟩
  else t

/-- Times of seconds and microseconds, without cycles. -/
def secUsecValues : TimeValues SecUsec where
  zero := secUsec 0 0 (by decide)
  maxTime := secUsec (2 ^ 63 - 1) 999999 (by decide)
  decrement := decrementUsec
  inCycle := fun _ t => t
  seconds := fun t => toString (ofLex t).1.1 ++ "." ++ ((toString (1000000 + (ofLex t).2.1)).drop 1).toString

theorem secUsec_lt_iff {s t : SecUsec} : s < t ↔ (ofLex s).1.1 < (ofLex t).1.1 ∨
    (ofLex s).1.1 = (ofLex t).1.1 ∧ (ofLex s).2.1 < (ofLex t).2.1 := by
  rw [Prod.Lex.lt_iff, Subtype.ext_iff]
  exact Iff.rfl

theorem secUsec_le_iff {s t : SecUsec} : s ≤ t ↔ (ofLex s).1.1 < (ofLex t).1.1 ∨
    (ofLex s).1.1 = (ofLex t).1.1 ∧ (ofLex s).2.1 ≤ (ofLex t).2.1 := by
  rw [Prod.Lex.le_iff, Subtype.ext_iff]
  exact Iff.rfl

theorem secUsecValues_lawful : secUsecValues.Lawful where
  le_maxTime t := by
    have hsec : (ofLex t).1.1 < 2 ^ 63 := (ofLex t).1.2.2
    have husec : (ofLex t).2.1 < 1000000 := (ofLex t).2.2
    rw [secUsec_le_iff]
    show _ < (2 : ℤ) ^ 63 - 1 ∨ _ = (2 : ℤ) ^ 63 - 1 ∧ _ ≤ 999999
    omega
  le_decrement_iff s t ht := by
    have hsec : 0 < (ofLex t).1.1 ∨ 0 = (ofLex t).1.1 ∧ 0 < (ofLex t).2.1 := secUsec_lt_iff.1 ht
    have husec : (ofLex s).2.1 < 1000000 := (ofLex s).2.2
    rw [secUsec_lt_iff]
    show s ≤ decrementUsec t ↔ _
    rw [secUsec_le_iff]
    unfold decrementUsec
    by_cases hpos : 0 < (ofLex t).2
    · have hval : ((ofLex t).2 - 1).1 = (ofLex t).2.1 - 1 := Fin.sub_val_of_le (Fin.le_def.2 hpos)
      rw [if_pos hpos]
      show _ ∨ _ ∧ _ ≤ ((ofLex t).2 - 1).1 ↔ _
      rw [hval]
      have hpos' : 0 < (ofLex t).2.1 := hpos
      show _ < (ofLex t).1.1 ∨ _ = (ofLex t).1.1 ∧ _ ↔ _
      omega
    · have hzero : (ofLex t).2.1 = 0 := Nat.eq_zero_of_not_pos hpos
      rw [if_neg hpos, dif_pos (by omega)]
      show _ < (ofLex t).1.1 - 1 ∨ _ = (ofLex t).1.1 - 1 ∧ _ ≤ 999999 ↔ _
      omega

/-! ## Runs -/

/-- **After any appends**, a time line without a cycle is the step function of those that were accepted. -/
theorem time_line_steps (hace : ace.Lawful) {modulus : ℚ} (hm : modulus ≤ 0) (d : V) (appends : List (T × V)) :
    IsStepFunction ace modulus d (appendAll ace (reset ace d) appends).2
      (appendAll ace (reset ace d) appends).1 :=
  (appendAll_tiled appends (tiled_reset ace d)).isStepFunction hace hm

/-- Values from 10 s on and from 11 s on, with one in between that is rejected. -/
def twoChanges : List (SecUsec × ℕ) :=
  [(secUsec 10 0 (by decide), 1), (secUsec 5 0 (by decide), 2), (secUsec 11 0 (by decide), 3)]

theorem time_line_steps_two :
    (appendAll secUsecValues (reset secUsecValues 0) twoChanges).1.get secUsecValues
      (secUsec 10 999999 (by decide)) 0 = 1 :=
  (time_line_steps secUsecValues_lawful le_rfl 0 twoChanges).get_greatest _ (secUsec 10 0 (by decide), 1)
    (by decide) (by decide) (by decide)

end ChannelEmulator.TimeLine
