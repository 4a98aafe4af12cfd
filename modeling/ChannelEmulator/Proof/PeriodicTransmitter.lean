import ChannelEmulator.Spec.PeriodicTransmitter
import Mathlib.Tactic.SplitIfs
import Mathlib.Tactic.Linarith

/-!
# The law of the periodic transmitter

* `Moves`, `moves_of_step`: what one step does.
* `Once`, `Idles`, `Forced`, `Paced`: what every step keeps; `Transmitter.due`: the time that no unit is forwarded
  before.
* `law_kept`: **in a run of allowed steps every unit is forwarded once and in order, idle units only when none is
  waiting, and no more than the interval allows**; `seconds_lost`, `late_burst`: where it is broken.
-/

namespace ChannelEmulator

namespace Periodic

variable {U : Type} {s s' : State U} {a : Act U}

/-! ## Steps -/

/-- **What one step does.** -/
inductive Moves (s : State U) : Act U → State U → Prop
  | put (u : U) : Moves s (.put u) (s.put u)
  | tick {clock : ℤ} : s.clock ≤ clock → Moves s (.tick clock) { s with clock := clock }
  | setInterval (c : SetInterval) : Moves s (.setInterval c) (s.setInterval c)
  | wake {isPeriodic : Bool} : s.tx.phase = .waiting isPeriodic →
    Moves s .pulse { s.fail isPeriodic with pulsing := false }
  | pulse : (∀ isPeriodic, s.tx.phase ≠ .waiting isPeriodic) → Moves s .pulse { s with pulsing := false }
  | start : s.tx.phase = .stopped →
    Moves s .start { s with tx := { s.tx with sendTime := s.clock, phase := .head } }
  | beginPeriodic : s.tx.phase = .head → s.tx.interval.positive = true → Moves s .begin
      { s with tx := { s.tx with sendTime := s.tx.sendTime + s.tx.interval.total, phase := .waiting true } }
  | beginBlocking : s.tx.phase = .head → s.tx.interval.positive = false →
    Moves s .begin { s with tx := { s.tx with phase := .waiting false } }
  | read {isPeriodic : Bool} {u : U} {queue : List U} : s.tx.phase = .waiting isPeriodic →
    s.tx.msgQueue = u :: queue →
    Moves s .read { s with tx := { s.tx with msgQueue := queue, phase := .chosen (some (.unit u)) } }
  | timeOut : s.tx.phase = .waiting true → s.tx.msgQueue = [] → s.tx.sendTime ≤ s.clock →
    Moves s .timeOut (s.fail true)
  | skip {hasIdle : Bool} : s.tx.phase = .failed true → s.tx.intervalUpdated = true →
    Moves s (.choose hasIdle) { s with tx := { s.tx with intervalUpdated := false, phase := .head } }
  | idle : s.tx.phase = .failed true → s.tx.intervalUpdated = false → Moves s (.choose true)
      { s with tx := { s.tx with phase := .chosen (some .idle) }, idleCount := s.idleCount + 1 }
  | noIdle : s.tx.phase = .failed true → s.tx.intervalUpdated = false →
    Moves s (.choose false) { s with tx := { s.tx with phase := .head } }
  | nothing {hasIdle : Bool} : s.tx.phase = .failed false →
    Moves s (.choose hasIdle) { s with tx := { s.tx with phase := .chosen none } }
  | sleep {data : Option (Item U)} : s.tx.phase = .chosen data →
    Moves s .sleep { s with tx := { s.tx with phase := .ready data }, clock := max s.clock s.tx.sendTime }
  | send {data : Item U} : s.tx.phase = .ready (some data) → Moves s .send (s.send data)
  | noData : s.tx.phase = .ready none → Moves s .send { s with tx := { s.tx with phase := .head } }

theorem moves_of_choose {isPeriodic hasIdle : Bool} (hphase : s.tx.phase = .failed isPeriodic) :
    Moves s (.choose hasIdle) (s.choose isPeriodic hasIdle) := by
  unfold State.choose
  cases isPeriodic with
  | false => exact .nothing hphase
  | true =>
    rw [if_pos rfl]
    cases hflag : s.tx.intervalUpdated with
    | true => exact .skip hphase hflag
    | false =>
      rw [if_neg Bool.false_ne_true]
      cases hasIdle with
      | true => exact .idle hphase hflag
      | false => exact .noIdle hphase hflag

theorem moves_of_begin (hphase : s.tx.phase = .head) : Moves s .begin s.begin := by
  unfold State.begin
  cases hpositive : s.tx.interval.positive with
  | true => exact .beginPeriodic hphase hpositive
  | false => exact .beginBlocking hphase hpositive

theorem moves_of_pulse : Moves s .pulse s.pulse := by
  unfold State.pulse
  cases hphase : s.tx.phase with
  | waiting isPeriodic => exact .wake hphase
  | stopped => exact .pulse fun _ h => by rw [hphase] at h; cases h
  | head => exact .pulse fun _ h => by rw [hphase] at h; cases h
  | failed _ => exact .pulse fun _ h => by rw [hphase] at h; cases h
  | chosen _ => exact .pulse fun _ h => by rw [hphase] at h; cases h
  | ready _ => exact .pulse fun _ h => by rw [hphase] at h; cases h

theorem moves_of_step (h : step s a = some s') : Moves s a s' := by
  cases a with
  | put u =>
    obtain rfl := Option.some.inj h
    exact .put u
  | tick clock =>
    obtain ⟨hle, heq⟩ := Option.ite_none_right_eq_some.1 h
    obtain rfl := Option.some.inj heq
    exact .tick hle
  | setInterval c =>
    obtain ⟨-, heq⟩ := Option.ite_none_left_eq_some.1 h
    obtain rfl := Option.some.inj heq
    exact .setInterval c
  | pulse =>
    obtain ⟨-, heq⟩ := Option.ite_none_right_eq_some.1 h
    obtain rfl := Option.some.inj heq
    exact moves_of_pulse
  | start =>
    simp only [step] at h
    split at h
    · next hphase =>
      obtain rfl := Option.some.inj h
      exact .start hphase
    · cases h
  | begin =>
    simp only [step] at h
    split at h
    · next hphase =>
      obtain rfl := Option.some.inj h
      exact moves_of_begin hphase
    · cases h
  | read =>
    simp only [step] at h
    split at h
    · next isPeriodic u queue hphase hqueue =>
      obtain rfl := Option.some.inj h
      exact .read hphase hqueue
    · cases h
  | timeOut =>
    simp only [step] at h
    split at h
    · next hphase hqueue =>
      obtain ⟨hle, heq⟩ := Option.ite_none_right_eq_some.1 h
      obtain rfl := Option.some.inj heq
      exact .timeOut hphase hqueue hle
    · cases h
  | choose hasIdle =>
    simp only [step] at h
    split at h
    · next isPeriodic hphase =>
      obtain rfl := Option.some.inj h
      exact moves_of_choose hphase
    · cases h
  | sleep =>
    simp only [step] at h
    split at h
    · next data hphase =>
      obtain rfl := Option.some.inj h
      exact .sleep hphase
    · cases h
  | send =>
    simp only [step] at h
    split at h
    · next data hphase =>
      obtain rfl := Option.some.inj h
      exact .send hphase
    · next hphase =>
      obtain rfl := Option.some.inj h
      exact .noData hphase
    · cases h

/-! ## Once and in order -/

/-- What was put in is forwarded, in hand, or in the queue. -/
def Once (s : State U) : Prop :=
  units s.log.forwarded ++ s.tx.phase.inHand ++ s.tx.msgQueue = s.log.accepted

theorem units_append (items items' : List (Item U)) : units (items ++ items') = units items ++ units items' := by
  induction items with
  | nil => rfl
  | cons item items ih =>
    cases item with
    | unit u => exact congrArg (u :: ·) ih
    | idle => exact ih

theorem once_step (h : Once s) (hm : Moves s a s') : Once s' := by
  unfold Once at h ⊢
  cases hm with
  | put u =>
    show units s.log.forwarded ++ s.tx.phase.inHand ++ (s.tx.msgQueue ++ [u]) = s.log.accepted ++ [u]
    rw [← List.append_assoc, h]
  | tick _ => exact h
  | setInterval c => exact h
  | wake hphase => rw [hphase] at h; exact h
  | pulse _ => exact h
  | start hphase => rw [hphase] at h; exact h
  | beginPeriodic hphase _ => rw [hphase] at h; exact h
  | beginBlocking hphase _ => rw [hphase] at h; exact h
  | @read _ u queue hphase hqueue =>
    rw [hphase, hqueue] at h
    show units s.log.forwarded ++ [u] ++ queue = _
    rw [← h, List.append_assoc, List.append_assoc]
    rfl
  | timeOut hphase _ _ => rw [hphase] at h; exact h
  | skip hphase _ => rw [hphase] at h; exact h
  | idle hphase _ => rw [hphase] at h; exact h
  | noIdle hphase _ => rw [hphase] at h; exact h
  | nothing hphase => rw [hphase] at h; exact h
  | @sleep data hphase =>
    rw [hphase] at h
    rcases data with _ | _ | _
    · exact h
    · exact h
    · exact h
  | @send data hphase =>
    rw [hphase] at h
    show units (s.log.forwarded ++ [data]) ++ [] ++ s.tx.msgQueue = s.log.accepted
    rw [units_append, List.append_nil, ← h]
    cases data with
    | unit u => rfl
    | idle => rfl
  | noData hphase => rw [hphase] at h; exact h

/-! ## Idle units -/

/-- An idle unit is in hand, or will be asked for. -/
def Phase.Idling : Phase U → Bool → Prop
  | .failed true, intervalUpdated => intervalUpdated = false
  | .chosen (some .idle), _ => True
  | .ready (some .idle), _ => True
  | _, _ => False

/-- After a call that sets the interval the next slot is skipped. -/
theorem Phase.Idling.of_updated {phase : Phase U} (h : phase.Idling true) (intervalUpdated : Bool) :
    phase.Idling intervalUpdated := by
  cases phase with
  | failed isPeriodic =>
    cases isPeriodic with
    | true => exact absurd h.symm Bool.false_ne_true
    | false => exact h
  | chosen data => rcases data with _ | _ | _ <;> exact h
  | ready data => rcases data with _ | _ | _ <;> exact h
  | stopped => exact h
  | head => exact h
  | waiting _ => exact h

/-- The reads that idle units stand for failed at send times, when no unit was waiting. -/
structure Idles (s : State U) : Prop where
  forwarded : ∀ o ∈ s.log.idles, o.NoUnit
  seen : s.tx.phase.Idling s.tx.intervalUpdated → s.log.seen.NoUnit

theorem idles_step (h : Idles s) (hallowed : Allowed s a) (hm : Moves s a s') : Idles s' := by
  cases hm with
  | put u => exact ⟨h.forwarded, h.seen⟩
  | tick _ => exact ⟨h.forwarded, h.seen⟩
  | setInterval c =>
    refine ⟨h.forwarded, fun hidling => h.seen ?_⟩
    exact Phase.Idling.of_updated hidling _
  | @wake isPeriodic hphase =>
    refine ⟨h.forwarded, fun hidling => ?_⟩
    cases isPeriodic with
    | true =>
      have hflag : s.tx.intervalUpdated = true := hallowed hphase
      exact absurd (hidling.symm.trans hflag) Bool.false_ne_true
    | false => exact hidling.elim
  | pulse _ => exact ⟨h.forwarded, h.seen⟩
  | start _ => exact ⟨h.forwarded, fun hidling => hidling.elim⟩
  | beginPeriodic _ _ => exact ⟨h.forwarded, fun hidling => hidling.elim⟩
  | beginBlocking _ _ => exact ⟨h.forwarded, fun hidling => hidling.elim⟩
  | read _ _ => exact ⟨h.forwarded, fun hidling => hidling.elim⟩
  | timeOut _ hqueue hle =>
    refine ⟨h.forwarded, fun _ => ⟨?_, hle⟩⟩
    exact congrArg List.length hqueue
  | skip _ _ => exact ⟨h.forwarded, fun hidling => hidling.elim⟩
  | idle hphase hflag =>
    refine ⟨h.forwarded, fun _ => h.seen ?_⟩
    rw [hphase]
    exact hflag
  | noIdle _ _ => exact ⟨h.forwarded, fun hidling => hidling.elim⟩
  | nothing _ => exact ⟨h.forwarded, fun hidling => hidling.elim⟩
  | @sleep data hphase =>
    refine ⟨h.forwarded, fun hidling => h.seen ?_⟩
    rw [hphase]
    rcases data with _ | _ | _
    · exact hidling
    · exact hidling
    · exact hidling
  | @send data hphase =>
    refine ⟨fun o ho => ?_, fun hidling => hidling.elim⟩
    cases data with
    | unit u => exact h.forwarded o ho
    | idle =>
      rcases List.mem_append.1 ho with hold | hnew
      · exact h.forwarded o hold
      · obtain rfl := List.mem_singleton.1 hnew
        refine h.seen ?_
        rw [hphase]
        trivial
  | noData _ => exact ⟨h.forwarded, fun hidling => hidling.elim⟩

/-! ## The interval in force -/

/-- The interval is the one that was asked for. -/
structure Forced (s : State U) : Prop where
  sec : s.tx.interval.sec = 0
  usec : s.tx.interval.usec = s.log.requested

theorem Forced.total (h : Forced s) : s.tx.interval.total = s.log.requested := by
  unfold TimeValue.total
  rw [h.sec, h.usec]
  omega

theorem Forced.positive (h : Forced s) : s.tx.interval.positive = decide (0 < s.log.requested) := by
  unfold TimeValue.positive
  rw [h.sec, h.usec]
  refine decide_eq_decide.2 ⟨fun hpos => ?_, fun hpos => .inr ⟨rfl, hpos⟩⟩
  rcases hpos with hpos | ⟨-, hpos⟩
  · exact absurd hpos (by decide)
  · exact hpos

theorem toInt_toInt (n : ℤ) : toInt (toInt n) = toInt n := Int.bmod_bmod

theorem toInt_stored (c : SetInterval) : toInt c.stored = c.stored := by
  cases c with
  | microseconds newVal => exact toInt_toInt newVal
  | timeValue newVal => exact toInt_toInt newVal.usec

theorem forced_step (h : Forced s) (hallowed : Allowed s a) (hm : Moves s a s') : Forced s' := by
  cases hm with
  | setInterval c => exact ⟨h.sec, (toInt_stored c).trans hallowed.1⟩
  | _ => exact ⟨h.sec, h.usec⟩

/-! ## The pace -/

/-- No unit is forwarded before this time, when the interval is `interval`. -/
def Phase.due : Phase U → Bool → ℤ → ℤ → ℤ
  | .waiting _, _, sendTime, _ => sendTime
  | .chosen (some _), _, sendTime, _ => sendTime
  | .ready (some _), _, sendTime, _ => sendTime
  | .failed true, intervalUpdated, sendTime, interval =>
    if intervalUpdated then sendTime + interval else sendTime
  | _, _, sendTime, interval => sendTime + interval

def State.due (s : State U) : ℤ := s.tx.phase.due s.tx.intervalUpdated s.tx.sendTime s.log.requested

/-- What a mark promises when no unit is forwarded before a time. -/
def Mark.Holds (m : Mark) (interval due clock : ℤ) : Prop :=
  m.time + m.forwarded * interval ≤ due ∧ m.forwarded * interval ≤ clock - m.time + interval

/-- The units that were forwarded since a mark came an interval after each other. -/
structure Paced (s : State U) : Prop where
  asleep : ∀ data, s.tx.phase = .ready data → s.tx.sendTime ≤ s.clock
  past : ∀ m ∈ s.log.marks, m.time ≤ s.clock
  fresh : s.tx.phase = .stopped → ∀ m ∈ s.log.marks, m.forwarded = 0
  holds : 0 < s.log.requested → s.tx.phase ≠ .stopped →
    ∀ m ∈ s.log.marks, m.Holds s.log.requested s.due s.clock

theorem Mark.Holds.later {m : Mark} {interval due due' clock clock' : ℤ} (h : m.Holds interval due clock)
    (hdue : due ≤ due') (hclock : clock ≤ clock') : m.Holds interval due' clock' :=
  ⟨h.1.trans hdue, by have := h.2; omega⟩

/-- `svc` was started. -/
def Phase.running : Phase U → Bool
  | .stopped => false
  | _ => true

/-- The sleep is over. -/
def Phase.slept : Phase U → Bool
  | .ready _ => true
  | _ => false

/-- A step that forwards nothing, and makes no unit due earlier. -/
theorem Paced.later (h : Paced s) {phase : Phase U} (hphase : s.tx.phase = phase) (hrunning : phase.running = true)
    (hrunning' : s'.tx.phase.running = true) (hslept : s'.tx.phase.slept = true → s'.tx.sendTime ≤ s'.clock)
    (hrequested : s'.log.requested = s.log.requested) (hmarks : s'.log.marks = s.log.marks)
    (hclock : s.clock ≤ s'.clock) (hdue : 0 < s.log.requested →
      phase.due s.tx.intervalUpdated s.tx.sendTime s.log.requested ≤ s'.due) : Paced s' where
  asleep data hready := hslept (by rw [hready]; rfl)
  past m hm := (h.past m (hmarks ▸ hm)).trans hclock
  fresh hs := by
    rw [hs] at hrunning'
    cases hrunning'
  holds hpos _ m hm := by
    subst hphase
    have hne : s.tx.phase ≠ .stopped := by
      intro hs
      rw [hs] at hrunning
      cases hrunning
    rw [hrequested] at hpos ⊢
    exact (h.holds hpos hne m (hmarks ▸ hm)).later (hdue hpos) hclock

/-- When the next slot is skipped no unit is due earlier. -/
theorem Phase.due_le_updated (phase : Phase U) (intervalUpdated : Bool) (sendTime : ℤ) {interval : ℤ}
    (hpos : 0 < interval) : phase.due intervalUpdated sendTime interval ≤ phase.due true sendTime interval := by
  cases phase with
  | failed isPeriodic =>
    cases isPeriodic with
    | false => exact le_refl _
    | true =>
      show (if intervalUpdated then sendTime + interval else sendTime) ≤ sendTime + interval
      split_ifs
      · exact le_refl _
      · omega
  | chosen data => cases data <;> exact le_refl _
  | ready data => cases data <;> exact le_refl _
  | _ => exact le_refl _

/-- What an allowed call relies on. -/
theorem OnTime.due {interval : ℤ} (h : OnTime s interval) (hne : s.tx.phase ≠ .stopped) :
    s.clock ≤ s.tx.phase.due true s.tx.sendTime interval := by
  unfold OnTime at h
  cases hphase : s.tx.phase with
  | stopped => exact absurd hphase hne
  | head => rw [hphase] at h; exact h
  | waiting _ => rw [hphase] at h; exact h
  | failed isPeriodic => rw [hphase] at h; cases isPeriodic <;> exact h
  | chosen data => rw [hphase] at h; cases data <;> exact h
  | ready data => rw [hphase] at h; cases data <;> exact h

theorem paced_setInterval (h : Paced s) {c : SetInterval} (hontime : 0 < c.asked → OnTime s c.asked) :
    Paced (s.setInterval c) := by
  have hmem : ∀ m ∈ (s.setInterval c).log.marks,
      (c.asked = s.log.requested ∧ m ∈ s.log.marks) ∨ m = ⟨s.clock, 0⟩ := by
    intro m hm
    rcases List.mem_append.1 hm with hold | hnew
    · by_cases hsame : c.asked = s.log.requested
      · rw [if_pos hsame] at hold
        exact .inl ⟨hsame, hold⟩
      · rw [if_neg hsame] at hold
        exact absurd hold List.not_mem_nil
    · exact .inr (List.mem_singleton.1 hnew)
  refine ⟨h.asleep, fun m hm => ?_, fun hs m hm => ?_, fun hpos hne m hm => ?_⟩
  · rcases hmem m hm with ⟨-, hold⟩ | rfl
    · exact h.past m hold
    · exact le_refl _
  · rcases hmem m hm with ⟨-, hold⟩ | rfl
    · exact h.fresh hs m hold
    · rfl
  · have hpos' : 0 < c.asked := hpos
    show m.Holds c.asked (s.tx.phase.due true s.tx.sendTime c.asked) s.clock
    rcases hmem m hm with ⟨hsame, hold⟩ | rfl
    · rw [hsame] at hpos' ⊢
      exact (h.holds hpos' hne m hold).later (Phase.due_le_updated _ _ _ hpos') (le_refl _)
    · have hdue := (hontime hpos').due hne
      refine ⟨?_, ?_⟩
      · show s.clock + ((0 : ℕ) : ℤ) * c.asked ≤ _
        rw [Nat.cast_zero, zero_mul, add_zero]
        exact hdue
      · show ((0 : ℕ) : ℤ) * c.asked ≤ s.clock - s.clock + c.asked
        rw [Nat.cast_zero, zero_mul]
        omega

/-- A unit that is forwarded at its time counts for every mark. -/
theorem paced_send (h : Paced s) {data : Item U} (hphase : s.tx.phase = .ready (some data)) :
    Paced (s.send data) := by
  have hclock := h.asleep (some data) hphase
  have hne : s.tx.phase ≠ .stopped := by rw [hphase]; exact fun heq => by cases heq
  refine ⟨fun _ hready => (by cases hready), fun m hm => ?_, fun hs => (by cases hs), fun hpos _ m hm => ?_⟩
  · obtain ⟨m, hold, rfl⟩ := List.mem_map.1 hm
    exact h.past m hold
  · obtain ⟨m, hold, rfl⟩ := List.mem_map.1 hm
    have hdue : s.due = s.tx.sendTime := by unfold State.due; rw [hphase]; rfl
    have hm := h.holds hpos hne m hold
    rw [hdue] at hm
    have hcount : ((m.forwarded + 1 : ℕ) : ℤ) * s.log.requested =
        m.forwarded * s.log.requested + s.log.requested := by
      rw [Nat.cast_add, Nat.cast_one, add_mul, one_mul]
    have hmark := hm.1
    refine ⟨?_, ?_⟩
    · show m.time + ((m.forwarded + 1 : ℕ) : ℤ) * s.log.requested ≤ s.tx.sendTime + s.log.requested
      rw [hcount]
      omega
    · show ((m.forwarded + 1 : ℕ) : ℤ) * s.log.requested ≤ s.clock - m.time + s.log.requested
      rw [hcount]
      omega

theorem paced_start (h : Paced s) (hphase : s.tx.phase = .stopped) :
    Paced { s with tx := { s.tx with sendTime := s.clock, phase := .head } } := by
  refine ⟨fun _ hready => (by cases hready), h.past, fun hs => (by cases hs), fun hpos _ m hm => ?_⟩
  have hzero := h.fresh hphase m hm
  have hpast := h.past m hm
  have hpos' : 0 < s.log.requested := hpos
  refine ⟨?_, ?_⟩
  · show m.time + (m.forwarded : ℤ) * s.log.requested ≤ s.clock + s.log.requested
    rw [hzero, Nat.cast_zero, zero_mul]
    omega
  · show (m.forwarded : ℤ) * s.log.requested ≤ s.clock - m.time + s.log.requested
    rw [hzero, Nat.cast_zero, zero_mul]
    omega

theorem paced_step (h : Paced s) (hforced : Forced s) (hallowed : Allowed s a) (hm : Moves s a s') : Paced s' := by
  have hawake : ∀ {p : Prop}, false = true → p := fun hfalse => absurd hfalse Bool.false_ne_true
  cases hm with
  | put u => exact ⟨h.asleep, h.past, h.fresh, h.holds⟩
  | tick hle =>
    refine ⟨fun data hready => (h.asleep data hready).trans hle, fun m hm => (h.past m hm).trans hle, h.fresh, ?_⟩
    exact fun hpos hne m hm => (h.holds hpos hne m hm).later (le_refl _) hle
  | setInterval c => exact paced_setInterval h hallowed.2
  | @wake isPeriodic hphase =>
    refine h.later hphase rfl rfl hawake rfl rfl (le_refl _) fun hpos => ?_
    cases isPeriodic with
    | true =>
      show s.tx.sendTime ≤ if s.tx.intervalUpdated then s.tx.sendTime + s.log.requested else s.tx.sendTime
      split_ifs <;> omega
    | false =>
      show s.tx.sendTime ≤ s.tx.sendTime + s.log.requested
      omega
  | pulse _ => exact ⟨h.asleep, h.past, h.fresh, h.holds⟩
  | start hphase => exact paced_start h hphase
  | beginPeriodic hphase _ =>
    refine h.later hphase rfl rfl hawake rfl rfl (le_refl _) fun _ => ?_
    show s.tx.sendTime + s.log.requested ≤ s.tx.sendTime + s.tx.interval.total
    rw [hforced.total]
  | beginBlocking hphase hpositive =>
    refine h.later hphase rfl rfl hawake rfl rfl (le_refl _) fun hpos => ?_
    rw [hforced.positive, decide_eq_false_iff_not] at hpositive
    exact absurd hpos hpositive
  | read hphase _ => exact h.later hphase rfl rfl hawake rfl rfl (le_refl _) fun _ => le_refl _
  | timeOut hphase _ _ =>
    refine h.later hphase rfl rfl hawake rfl rfl (le_refl _) fun hpos => ?_
    show s.tx.sendTime ≤ if s.tx.intervalUpdated then s.tx.sendTime + s.log.requested else s.tx.sendTime
    split_ifs <;> omega
  | skip hphase hflag =>
    refine h.later hphase rfl rfl hawake rfl rfl (le_refl _) fun _ => ?_
    rw [hflag]
    exact le_refl _
  | idle hphase hflag =>
    refine h.later hphase rfl rfl hawake rfl rfl (le_refl _) fun _ => ?_
    rw [hflag]
    exact le_refl _
  | noIdle hphase hflag =>
    refine h.later hphase rfl rfl hawake rfl rfl (le_refl _) fun hpos => ?_
    rw [hflag]
    show s.tx.sendTime ≤ s.tx.sendTime + s.log.requested
    omega
  | nothing hphase => exact h.later hphase rfl rfl hawake rfl rfl (le_refl _) fun _ => le_refl _
  | @sleep data hphase =>
    refine h.later hphase rfl rfl (fun _ => le_max_right _ _) rfl rfl (le_max_left _ _) fun _ => ?_
    cases data <;> exact le_refl _
  | send hphase => exact paced_send h hphase
  | noData hphase => exact h.later hphase rfl rfl hawake rfl rfl (le_refl _) fun _ => le_refl _

/-! ## Runs -/

/-- What every allowed step keeps. -/
structure Inv (s : State U) : Prop where
  once : Once s
  idles : Idles s
  forced : Forced s
  paced : Paced s

theorem inv_initial (intervalUsec clock : ℤ) : Inv (initial intervalUsec clock : State U) where
  once := rfl
  idles := ⟨fun o ho => absurd ho List.not_mem_nil, fun hidling => hidling.elim⟩
  forced := ⟨rfl, rfl⟩
  paced := by
    refine ⟨fun _ hready => (by cases hready), fun m hm => ?_, fun _ m hm => ?_, fun _ hne => absurd rfl hne⟩
    · obtain rfl := List.mem_singleton.1 hm
      exact le_refl _
    · obtain rfl := List.mem_singleton.1 hm
      rfl

theorem inv_run {allowed : State U → Act U → Prop} (hsub : ∀ s a, allowed s a → Allowed s a) {s₀ : State U}
    (h₀ : Inv s₀) (hrun : Run allowed s₀ s) : Inv s := by
  induction hrun with
  | start => exact h₀
  | step _ hok hstep ih =>
    have hm := moves_of_step hstep
    have hok' := hsub _ _ hok
    exact ⟨once_step ih.once hm, idles_step ih.idles hok' hm, forced_step ih.forced hok' hm,
      paced_step ih.paced ih.forced hok' hm⟩

theorem Inv.kept (h : Inv s) : Kept s where
  once := h.once
  idle := h.idles.forwarded
  inForce := h.forced.total
  pace := by
    rw [h.forced.total]
    intro hpos m hm
    by_cases hs : s.tx.phase = .stopped
    · have hpast := h.paced.past m hm
      rw [h.paced.fresh hs m hm, Nat.cast_zero, zero_mul]
      omega
    · exact (h.paced.holds hpos hs m hm).2

/-- **The law of the transmitter is kept in every run of allowed steps.** -/
theorem law_kept (intervalUsec clock : ℤ) {s : State U} (hrun : Run Allowed (initial intervalUsec clock) s) :
    Kept s :=
  (inv_run (fun _ _ h => h) (inv_initial intervalUsec clock) hrun).kept

/-- The interval is set before the transmitter reads its queue, and a unit is put in. -/
theorem law_kept_unit : ∃ s : State ℕ, Run Allowed (initial 0 0) s ∧ s.log.forwarded = [.unit 7] ∧ Kept s := by
  have hset : Allowed (initial 0 0 : State ℕ) (.setInterval (.microseconds 5)) := ⟨by decide, fun _ => trivial⟩
  have hpulse : Allowed ((initial 0 0 : State ℕ).setInterval (.microseconds 5)) .pulse := fun h => by cases h
  have h₁ : Run Allowed (initial 0 0 : State ℕ) _ := .step (.step .start hset rfl) hpulse rfl
  have h₂ : Run Allowed (initial 0 0 : State ℕ) _ :=
    .step (a := .begin) (.step (a := .start) (.step (a := .put 7) h₁ trivial rfl) trivial rfl) trivial rfl
  have h₃ : Run Allowed (initial 0 0 : State ℕ) _ :=
    .step (a := .send) (.step (a := .sleep) (.step (a := .read) h₂ trivial rfl) trivial rfl) trivial rfl
  exact ⟨_, h₃, rfl, law_kept 0 0 h₃⟩

/-- Two seconds, as a time value: its microseconds are none. -/
theorem seconds_lost : ¬ ∀ (intervalUsec clock : ℤ) (s : State Unit),
    Run (fun _ _ => True) (initial intervalUsec clock) s → Kept s := by
  intro h
  have hrun : Run (fun _ _ => True) (initial 0 0 : State Unit) _ :=
    .step .start trivial (rfl : step _ (.setInterval (.timeValue ⟨2, 0⟩)) = _)
  exact absurd (h 0 0 _ hrun).inForce (by decide)

/-- An interval of a second that is set ten seconds after the start: three idle units follow at once. -/
example : ((([.start, .begin, .tick 10000000, .setInterval (.microseconds 1000000), .pulse, .choose false, .sleep,
    .send, .begin, .timeOut, .choose true, .begin, .timeOut, .choose true, .sleep, .send, .begin, .timeOut,
    .choose true, .sleep, .send, .begin, .timeOut, .choose true, .sleep, .send] : List (Act Unit)).foldlM step
      (initial 0 0)).map fun s => (s.log.forwarded, s.clock)) = some ([.idle, .idle, .idle], 10000000) := by
  decide

end Periodic

end ChannelEmulator
