import ChannelEmulator.Proof.TimeLine
import ChannelEmulator.Spec.EmulateRate
import Mathlib.Data.List.Induction

/-!
# The saved rate limits

* `Saved`: the settings of a module are its limit, its cycle and the appends of its time line;
  `saved_calls`: they are that after any calls.
* `restored_iff_default`: the module that is made from the settings has the same rates if the default of the
  time line is the limit.
* `restored_iff`: **the rates are the same if and only if the limit is the one that the time line was created
  with.**
-/

namespace ChannelEmulator.EmulateRate

open TimeLine

variable {T : Type} [LinearOrder T] {ace : TimeValues T} {m : EmulateRate T} {d : ℤ}

/-! ## The time line -/

theorem defaultVal_append (ace : TimeValues T) (tl : TimeLine T ℤ) (s : T) (v : ℤ) :
    (tl.append ace s v).1.defaultVal = tl.defaultVal := by
  unfold TimeLine.append
  simp only []
  split <;> rfl

theorem defaultVal_load (d : ℤ) (saved : List (T × ℤ)) : (loadTimeLine ace d saved).defaultVal = d := by
  unfold loadTimeLine
  induction saved using List.reverseRecOn with
  | nil => rfl
  | append_singleton saved item ih => rw [List.foldl_append, List.foldl_cons, List.foldl_nil, defaultVal_append ace, ih]

theorem load_append (d : ℤ) (saved : List (T × ℤ)) (s : T) (v : ℤ) :
    loadTimeLine ace d (saved ++ [(s, v)]) = ((loadTimeLine ace d saved).append ace s v).1 := by
  unfold loadTimeLine
  rw [List.foldl_append, List.foldl_cons, List.foldl_nil]

theorem load_tiled (ace : TimeValues T) (d : ℤ) (saved : List (T × ℤ)) :
    ∃ accepted, Tiled ace d accepted (loadTimeLine ace d saved) := by
  induction saved using List.reverseRecOn with
  | nil => exact ⟨[], tiled_reset ace d⟩
  | append_singleton saved item ih =>
    obtain ⟨accepted, h⟩ := ih
    rw [load_append]
    rcases append_cases h item.1 item.2 with ⟨-, -, hnext⟩ | ⟨-, e, hsame⟩
    · exact ⟨_, hnext⟩
    · rw [hsame]
      exact ⟨accepted, h⟩

/-- At the time zero, which begins every cycle, a time line has its default value. -/
theorem get_zero (hace : ace.Lawful) (hcycle : ∀ c, 0 < c → ace.inCycle c ace.zero = ace.zero) (d : ℤ)
    (saved : List (T × ℤ)) (modulus : ℚ) : (loadTimeLine ace d saved).get ace ace.zero modulus = d := by
  obtain ⟨accepted, h⟩ := load_tiled ace d saved
  have hget : (loadTimeLine ace d saved).get ace ace.zero modulus = (loadTimeLine ace d saved).get ace ace.zero 0 := by
    unfold TimeLine.get
    by_cases hm : 0 < modulus
    · simp only [if_pos hm, hcycle modulus hm, lt_irrefl, if_false]
    · simp only [if_neg hm, lt_irrefl, if_false]
  rw [hget, get_tiled hace h le_rfl, Steps.stepAt_of_lt]
  exact fun a ha => h.chronological.head_lt ha

/-! ## What is saved -/

/-- The settings are those of the module. -/
structure Saved (ace : TimeValues T) (m : EmulateRate T) : Prop where
  rateLimit_eq : m.settings.rateLimit = m.rateLimit
  rateLimit_nonneg : 0 ≤ m.rateLimit
  cycle_eq : m.settings.timeLineCycleSecs = m.timeLineCycleSecs
  cycle_nonneg : 0 ≤ m.timeLineCycleSecs
  none_iff : m.rateTimeLine = none ↔ m.settings.timeLine = none
  load_eq : ∀ tl saved, m.rateTimeLine = some tl → m.settings.timeLine = some saved →
    tl = loadTimeLine ace tl.defaultVal saved

theorem saved_new (settings : RateSettings T) : Saved ace (new ace settings) where
  rateLimit_eq := rfl
  rateLimit_nonneg := by
    show 0 ≤ if settings.rateLimit < 0 then 0 else settings.rateLimit
    split <;> omega
  cycle_eq := rfl
  cycle_nonneg := by
    show 0 ≤ if settings.timeLineCycleSecs < 0 then 0 else settings.timeLineCycleSecs
    split
    · exact le_rfl
    · exact not_lt.1 ‹_›
  none_iff := Option.map_eq_none_iff
  load_eq tl saved htl hsaved := by
    have hload : settings.timeLine.map (loadTimeLine ace (new ace settings).rateLimit) = some tl := htl
    rw [show settings.timeLine = some saved from hsaved, Option.map_some] at hload
    rw [← Option.some.inj hload, defaultVal_load]

/-- A time line is stored, and what it is loaded from is saved. -/
theorem Saved.store (h : Saved ace m) {tl : TimeLine T ℤ} {saved : List (T × ℤ)}
    (hload : tl = loadTimeLine ace tl.defaultVal saved) :
    Saved ace { m with rateTimeLine := some tl, settings := { m.settings with timeLine := some saved } } where
  rateLimit_eq := h.rateLimit_eq
  rateLimit_nonneg := h.rateLimit_nonneg
  cycle_eq := h.cycle_eq
  cycle_nonneg := h.cycle_nonneg
  none_iff := iff_of_false (Option.some_ne_none tl) (Option.some_ne_none saved)
  load_eq tl' saved' htl hsaved := by
    rw [← Option.some.inj htl, ← Option.some.inj hsaved]
    exact hload

/-- The time line that an append goes to, and the list that is saved of it. -/
theorem Saved.current (h : Saved ace m) : m.rateTimeLine.getD (TimeLine.reset ace m.rateLimit) = loadTimeLine ace
    (m.rateTimeLine.getD (TimeLine.reset ace m.rateLimit)).defaultVal (m.settings.timeLine.getD []) := by
  cases htl : m.rateTimeLine with
  | none =>
    rw [h.none_iff.1 htl]
    rfl
  | some tl =>
    obtain ⟨saved, hsaved⟩ := Option.ne_none_iff_exists'.1 fun hnone => by
      rw [h.none_iff.2 hnone] at htl
      cases htl
    rw [hsaved]
    exact h.load_eq tl saved htl hsaved

theorem append_or_same (ace : TimeValues T) (tl : TimeLine T ℤ) (s : T) (v : ℤ) :
    (∃ tl', tl.append ace s v = (tl', none)) ∨ ∃ e, tl.append ace s v = (tl, some e) := by
  unfold TimeLine.append
  simp only []
  split
  · exact .inl ⟨_, rfl⟩
  · exact .inr ⟨_, rfl⟩

/-- **What an append stores**: a time line with the same default, and what it is loaded from. -/
theorem appendRate_eq (ace : TimeValues T) (m : EmulateRate T) (v : ℤ) (s : T) : ∃ tl saved,
    (m.appendRate ace v s).1 =
      { m with rateTimeLine := some tl, settings := { m.settings with timeLine := some saved } } ∧
    tl.defaultVal = (m.rateTimeLine.getD (TimeLine.reset ace m.rateLimit)).defaultVal ∧
    (m.rateTimeLine.getD (TimeLine.reset ace m.rateLimit) = loadTimeLine ace tl.defaultVal
      (m.settings.timeLine.getD []) → tl = loadTimeLine ace tl.defaultVal saved) := by
  unfold appendRate
  generalize m.rateTimeLine.getD (TimeLine.reset ace m.rateLimit) = tl
  have hdefault := defaultVal_append ace tl s v
  rcases append_or_same ace tl s v with ⟨tl', happend⟩ | ⟨e, happend⟩
  · rw [happend] at hdefault
    refine ⟨tl', m.settings.timeLine.getD [] ++ [(s, v)], by simp only [happend], hdefault, fun hload => ?_⟩
    rw [load_append, ← hload, happend]
  · exact ⟨tl, m.settings.timeLine.getD [], by simp only [happend], rfl, id⟩

theorem saved_appendRate (h : Saved ace m) (v : ℤ) (s : T) : Saved ace (m.appendRate ace v s).1 := by
  obtain ⟨tl, saved, heq, hdefault, hload⟩ := appendRate_eq ace m v s
  rw [heq]
  refine h.store (hload ?_)
  rw [hdefault]
  exact h.current

theorem saved_call (h : Saved ace m) (c : Call T) : Saved ace (m.call ace c) := by
  cases c with
  | setRateLimit newVal startTime =>
    show Saved ace (m.setRateLimit ace newVal startTime).1
    unfold setRateLimit
    by_cases hneg : newVal < 0
    · rw [if_pos hneg]
      exact h
    · rw [if_neg hneg]
      cases startTime.filter (fun t => ace.zero < t) with
      | some t => exact saved_appendRate h newVal t
      | none => exact ⟨rfl, not_lt.1 hneg, h.cycle_eq, h.cycle_nonneg, h.none_iff, h.load_eq⟩
  | clearTimeLine =>
    show Saved ace m.clearTimeLine
    unfold clearTimeLine
    cases m.rateTimeLine with
    | none => exact h
    | some tl =>
      exact ⟨h.rateLimit_eq, h.rateLimit_nonneg, h.cycle_eq, h.cycle_nonneg, iff_of_true rfl rfl, fun _ _ hnone => by
        cases hnone⟩

theorem saved_calls (h : Saved ace m) (cs : List (Call T)) : Saved ace (m.calls ace cs) := by
  unfold calls
  induction cs generalizing m with
  | nil => exact h
  | cons c cs ih => exact ih (saved_call h c)

/-! ## The module that is made from them -/

/-- The same rates at all times. -/
def Restored (ace : TimeValues T) (m : EmulateRate T) : Prop :=
  ∀ t, (new ace m.settings).getRateLimitAtTime ace t = m.getRateLimitAtTime ace t

/-- **The rates are the same if the default of the time line is the limit.** -/
theorem restored_iff_default (hace : ace.Lawful) (hcycle : ∀ c, 0 < c → ace.inCycle c ace.zero = ace.zero)
    (h : Saved ace m) : Restored ace m ↔ ∀ tl, m.rateTimeLine = some tl → tl.defaultVal = m.rateLimit := by
  have hlimit : (new ace m.settings).rateLimit = m.rateLimit := by
    show (if m.settings.rateLimit < 0 then 0 else m.settings.rateLimit) = m.rateLimit
    rw [h.rateLimit_eq, if_neg (not_lt.2 h.rateLimit_nonneg)]
  have hcycles : (new ace m.settings).timeLineCycleSecs = m.timeLineCycleSecs := by
    show (if m.settings.timeLineCycleSecs < 0 then 0 else m.settings.timeLineCycleSecs) = m.timeLineCycleSecs
    rw [h.cycle_eq, if_neg (not_lt.2 h.cycle_nonneg)]
  have hline : (new ace m.settings).rateTimeLine =
      m.settings.timeLine.map (loadTimeLine ace (new ace m.settings).rateLimit) := rfl
  rw [hlimit] at hline
  unfold Restored getRateLimitAtTime
  rw [hline, hlimit, hcycles]
  cases htl : m.rateTimeLine with
  | none =>
    rw [h.none_iff.1 htl]
    exact iff_of_true (fun _ => rfl) fun _ hnone => by cases hnone
  | some tl =>
    obtain ⟨saved, hsaved⟩ := Option.ne_none_iff_exists'.1 fun hnone => by
      rw [h.none_iff.2 hnone] at htl
      cases htl
    have hload := h.load_eq tl saved htl hsaved
    rw [hsaved, Option.map_some]
    constructor
    · intro hall tl' heq
      obtain rfl := Option.some.inj heq
      have hzero := hall ace.zero
      rw [hload] at hzero
      simp only [get_zero hace hcycle] at hzero
      exact hzero.symm
    · intro hdefault t
      rw [hload, hdefault tl rfl]

/-! ## The calls -/

/-- What a call does: nothing where the limit is too small. -/
inductive Effect
  | rejected
  | plain (newVal : ℤ)
  | timed
  | cleared
deriving DecidableEq

/-- The effect of a call, by its arguments. -/
def effect (ace : TimeValues T) : Call T → Effect
  | .setRateLimit newVal startTime =>
    if newVal < 0 then .rejected
    else match startTime.filter (fun t => ace.zero < t) with
      | some _ => .timed
      | none => .plain newVal
  | .clearTimeLine => .cleared

/-- The limit after an effect. -/
def Effect.limit (limit : ℤ) : Effect → ℤ
  | .plain newVal => newVal
  | _ => limit

/-- The default of the time line after an effect: a new one is created with the limit. -/
def Effect.line (limit : ℤ) (line : Option ℤ) : Effect → Option ℤ
  | .timed => some (line.getD limit)
  | .cleared => none
  | _ => line

/-- The default of the time line of a module. -/
def default? (m : EmulateRate T) : Option ℤ := m.rateTimeLine.map TimeLine.defaultVal

theorem appendRate_spec (m : EmulateRate T) (v : ℤ) (s : T) :
    (m.appendRate ace v s).1.rateLimit = m.rateLimit ∧
      (m.appendRate ace v s).1.default? = some (m.default?.getD m.rateLimit) := by
  obtain ⟨tl, saved, heq, hdefault, -⟩ := appendRate_eq ace m v s
  have hcurrent : (m.rateTimeLine.getD (TimeLine.reset ace m.rateLimit)).defaultVal =
      m.default?.getD m.rateLimit := by
    unfold default?
    cases m.rateTimeLine <;> rfl
  rw [heq]
  exact ⟨rfl, congrArg some (hdefault.trans hcurrent)⟩

/-- **A call by its effect.** -/
theorem call_spec (m : EmulateRate T) (c : Call T) :
    (m.call ace c).rateLimit = (effect ace c).limit m.rateLimit ∧
      (m.call ace c).default? = (effect ace c).line m.rateLimit m.default? := by
  cases c with
  | clearTimeLine =>
    show m.clearTimeLine.rateLimit = m.rateLimit ∧ m.clearTimeLine.default? = none
    unfold clearTimeLine default?
    cases htl : m.rateTimeLine with
    | none => exact ⟨rfl, by rw [htl]; rfl⟩
    | some tl => exact ⟨rfl, rfl⟩
  | setRateLimit newVal startTime =>
    show (m.setRateLimit ace newVal startTime).1.rateLimit = _ ∧ (m.setRateLimit ace newVal startTime).1.default? = _
    have heffect : effect ace (.setRateLimit newVal startTime) = if newVal < 0 then Effect.rejected
      else match startTime.filter (fun t => ace.zero < t) with
        | some _ => .timed
        | none => .plain newVal := rfl
    unfold setRateLimit
    rw [heffect]
    by_cases hneg : newVal < 0
    · rw [if_pos hneg, if_pos hneg]
      exact ⟨rfl, rfl⟩
    · rw [if_neg hneg, if_neg hneg]
      cases startTime.filter (fun t => ace.zero < t) with
      | some t => exact appendRate_spec m newVal t
      | none => exact ⟨rfl, rfl⟩

/-- Whether there is a time line after an effect. -/
def Effect.hasLine (line : Bool) : Effect → Bool
  | .timed => true
  | .cleared => false
  | _ => line

/-- The limit after calls. -/
def limitAfter (ace : TimeValues T) (limit : ℤ) (cs : List (Call T)) : ℤ :=
  cs.foldl (fun limit c => (effect ace c).limit limit) limit

/-- Whether there is a time line after calls. -/
def lineAfter (ace : TimeValues T) (line : Bool) (cs : List (Call T)) : Bool :=
  cs.foldl (fun line c => (effect ace c).hasLine line) line

theorem limit_calls (m : EmulateRate T) (cs : List (Call T)) :
    (m.calls ace cs).rateLimit = limitAfter ace m.rateLimit cs := by
  unfold calls limitAfter
  induction cs generalizing m with
  | nil => rfl
  | cons c cs ih => rw [List.foldl_cons, List.foldl_cons, ih, (call_spec m c).1]

theorem line_calls (m : EmulateRate T) (cs : List (Call T)) :
    (m.calls ace cs).default?.isSome = lineAfter ace m.default?.isSome cs := by
  unfold calls lineAfter
  induction cs generalizing m with
  | nil => rfl
  | cons c cs ih =>
    have hstep : ((effect ace c).line m.rateLimit m.default?).isSome = (effect ace c).hasLine m.default?.isSome := by
      cases effect ace c <;> rfl
    rw [List.foldl_cons, List.foldl_cons, ih, (call_spec m c).2, hstep]

theorem calls_append (m : EmulateRate T) (before after : List (Call T)) :
    m.calls ace (before ++ after) = (m.calls ace before).calls ace after := by
  unfold calls
  rw [List.foldl_append]

theorem calls_concat (m : EmulateRate T) (before : List (Call T)) (c : Call T) :
    m.calls ace (before ++ [c]) = (m.calls ace before).call ace c := calls_append m before [c]

/-- A time line stays until it is cleared. -/
theorem default_calls (hd : m.default? = some d) {after : List (Call T)}
    (h : ∀ c ∈ after, effect ace c ≠ .cleared) : (m.calls ace after).default? = some d := by
  unfold calls
  induction after generalizing m with
  | nil => exact hd
  | cons c after ih =>
    refine ih ?_ fun c' hc' => h c' (List.mem_cons_of_mem c hc')
    rw [(call_spec m c).2, hd]
    have hc := h c List.mem_cons_self
    cases heffect : effect ace c with
    | cleared => exact absurd heffect hc
    | rejected => rfl
    | plain newVal => rfl
    | timed => rfl

/-! ## The limit that a time line was created with -/

/-- The last call creates a time line, or there are no calls yet and the constructor has loaded one. -/
def Creates (ace : TimeValues T) (line : Bool) (cs : List (Call T)) : Prop :=
  cs = [] ∧ line = true ∨
    ∃ before c, cs = before ++ [c] ∧ effect ace c = .timed ∧ lineAfter ace line before = false

/-- The limit after the calls is the one that the time line that is in force was created with. -/
def KeepsLimit (ace : TimeValues T) (settings : RateSettings T) (cs : List (Call T)) : Prop :=
  ∀ before after, cs = before ++ after → Creates ace settings.timeLine.isSome before →
    (∀ c ∈ after, effect ace c ≠ .cleared) →
    limitAfter ace (max settings.rateLimit 0) cs = limitAfter ace (max settings.rateLimit 0) before

variable {settings : RateSettings T}

theorem rateLimit_new (ace : TimeValues T) : (new ace settings).rateLimit = max settings.rateLimit 0 := by
  show (if settings.rateLimit < 0 then 0 else settings.rateLimit) = _
  split
  · rw [max_eq_right (by omega)]
  · rw [max_eq_left (by omega)]

theorem default_new (ace : TimeValues T) :
    (new ace settings).default? = settings.timeLine.map fun _ => max settings.rateLimit 0 := by
  have hline : (new ace settings).rateTimeLine =
      settings.timeLine.map (loadTimeLine ace (new ace settings).rateLimit) := rfl
  unfold default?
  rw [hline, Option.map_map, ← rateLimit_new ace]
  cases settings.timeLine with
  | none => rfl
  | some saved => exact congrArg some (defaultVal_load _ saved)

theorem isSome_default_new (ace : TimeValues T) : (new ace settings).default?.isSome = settings.timeLine.isSome := by
  rw [default_new ace, Option.isSome_map]

theorem default_created {before : List (Call T)} (h : Creates ace settings.timeLine.isSome before) :
    ((new ace settings).calls ace before).default? = some (limitAfter ace (max settings.rateLimit 0) before) := by
  rcases h with ⟨rfl, hline⟩ | ⟨earlier, c, rfl, htimed, hnone⟩
  · obtain ⟨saved, hsaved⟩ := Option.isSome_iff_exists.1 hline
    show (new ace settings).default? = some (max settings.rateLimit 0)
    rw [default_new ace, hsaved]
    rfl
  · rw [← isSome_default_new ace, ← line_calls] at hnone
    have hdefault : ((new ace settings).calls ace earlier).default? = none :=
      Option.not_isSome_iff_eq_none.1 (by rw [hnone]; exact Bool.false_ne_true)
    rw [calls_concat, (call_spec _ c).2, htimed, ← rateLimit_new ace, ← limit_calls, calls_concat,
      (call_spec _ c).1, htimed, hdefault]
    rfl

/-- The time line that is in force was created. -/
theorem exists_created (cs : List (Call T)) (h : ((new ace settings).calls ace cs).default? = some d) :
    ∃ before after, cs = before ++ after ∧ Creates ace settings.timeLine.isSome before ∧
      ∀ c ∈ after, effect ace c ≠ .cleared := by
  induction cs using List.reverseRecOn generalizing d with
  | nil =>
    refine ⟨[], [], rfl, .inl ⟨rfl, ?_⟩, fun _ hnone => by cases hnone⟩
    rw [← isSome_default_new ace, show (new ace settings).default? = some d from h]
    rfl
  | append_singleton cs c ih =>
    have hcall := h
    rw [calls_concat, (call_spec _ c).2] at hcall
    have hc : effect ace c ≠ .cleared := fun hcleared => by
      rw [hcleared] at hcall
      cases hcall
    cases hbefore : ((new ace settings).calls ace cs).default? with
    | some d' =>
      obtain ⟨before, after, hcs, hcreates, hafter⟩ := ih hbefore
      refine ⟨before, after ++ [c], by rw [hcs, List.append_assoc], hcreates, fun c' hc' => ?_⟩
      rcases List.mem_append.1 hc' with hmem | hmem
      · exact hafter c' hmem
      · rw [List.mem_singleton.1 hmem]
        exact hc
    | none =>
      -- the call has created it
      refine ⟨cs ++ [c], [], (List.append_nil _).symm, .inr ⟨cs, c, rfl, ?_, ?_⟩, fun _ hnone => by cases hnone⟩
      · rw [hbefore] at hcall
        cases heffect : effect ace c with
        | timed => rfl
        | cleared => exact absurd heffect hc
        | rejected => rw [heffect] at hcall; cases hcall
        | plain newVal => rw [heffect] at hcall; cases hcall
      · rw [← isSome_default_new ace, ← line_calls, hbefore]
        rfl

/-- **The persisted rate timeline reproduces the live one** after calls if and only if the limit is the one
that the time line in force was created with. -/
theorem restored_iff (hace : ace.Lawful) (hcycle : ∀ c, 0 < c → ace.inCycle c ace.zero = ace.zero)
    (settings : RateSettings T) (cs : List (Call T)) :
    Restored ace ((new ace settings).calls ace cs) ↔ KeepsLimit ace settings cs := by
  rw [restored_iff_default hace hcycle (saved_calls (saved_new settings) cs), limit_calls, rateLimit_new ace]
  constructor
  · rintro h before after rfl hcreates hafter
    have hdefault := default_calls (default_created hcreates) hafter
    rw [← calls_append] at hdefault
    obtain ⟨tl, htl, hval⟩ := Option.map_eq_some_iff.1 hdefault
    rw [← h tl htl, hval]
  · intro h tl htl
    have hdefault : ((new ace settings).calls ace cs).default? = some tl.defaultVal := by
      unfold default?
      rw [htl]
      rfl
    obtain ⟨before, after, rfl, hcreates, hafter⟩ := exists_created cs hdefault
    have hkept := default_calls (default_created hcreates) hafter
    rw [← calls_append, hdefault] at hkept
    rw [Option.some.inj hkept, h before after rfl hcreates hafter]

/-- A limit, and one from 10 s on. -/
theorem restored_two : Restored secUsecValues ((new secUsecValues ⟨0, 0, none⟩).calls secUsecValues
    [.setRateLimit 5 none, .setRateLimit 7 (some (secUsec 10 0 (by decide)))]) := by
  refine (restored_iff secUsecValues_lawful (fun _ _ => rfl) ⟨0, 0, none⟩ _).2 ?_
  intro before after hcs hcreates hafter
  rcases hcreates with ⟨rfl, hline⟩ | ⟨earlier, c, rfl, htimed, hnone⟩
  · cases hline
  · cases after with
    | nil => rw [hcs, List.append_nil]
    | cons c' after =>
      have hlen := congrArg List.length hcs
      rw [List.length_append, List.length_append] at hlen
      obtain rfl : earlier = [] := List.eq_nil_of_length_eq_zero (by
        simp only [List.length_cons, List.length_nil] at hlen
        omega)
      obtain rfl := List.head_eq_of_cons_eq hcs
      exact absurd htimed (by decide)

/-- A limit from 10 s on, and then another one before it: the time line has the limit of its creation. -/
theorem default_limit_lost : ¬ ∀ cs : List (Call SecUsec),
    Restored secUsecValues ((new secUsecValues ⟨0, 0, none⟩).calls secUsecValues cs) := by
  intro h
  exact absurd (h [.setRateLimit 7 (some (secUsec 10 0 (by decide))), .setRateLimit 5 none] secUsecValues.zero)
    (by decide)

end ChannelEmulator.EmulateRate
