import ChannelEmulator.Spec.ScenarioTime
import Mathlib.Data.Int.Basic
import Mathlib.Tactic.SplitIfs

/-!
# When alarms fire

* `instant`: the instant that a time of the user denotes.
* `fires_difference_iff`: a difference fires unless it is within the second before now.
* `fires_iff`: **when the alarm is at the instant that the user named.**
-/

namespace ChannelEmulator.ScenarioTime

variable {T : Type} {ace : AceTimeValue T} {s : ScenarioTime T} {now : T}

/-- The instant that a time denotes, in microseconds: a time of the scenario is as far from the zero time as it
is from the simulated time there. -/
def instant (ace : AceTimeValue T) (s : ScenarioTime T) (now : T) (mark : Mark) (usecs : ℤ) : ℤ :=
  match mark with
  | .atSign => ace.usecs s.zeroTime + (usecs - ace.usecs s.scenarioWallclockAtZeroTime)
  | .equalsSign => usecs
  | .letterT => ace.usecs s.zeroTime + usecs
  | .plusSign => ace.usecs now + usecs

/-- A delay of an alarm: it is as long as it takes to the instant, and there is none for an instant that is
past. -/
def Fires (ace : AceTimeValue T) (now : T) (instant : ℤ) (delay : Except Fault T) : Prop :=
  (ace.usecs now ≤ instant → ∃ d, delay = .ok d ∧ ace.usecs now + ace.usecs d = instant) ∧
    (instant < ace.usecs now → ∃ e, delay = .error e)

/-- The condition for the alarm to be at the instant. -/
def InTime (ace : AceTimeValue T) (s : ScenarioTime T) (now : T) (mark : Mark) (sec usec : ℤ) : Prop :=
  let usecs := sec * 1000000 + usec
  let instant := instant ace s now mark usecs
  match mark with
  | .atSign | .equalsSign => ace.usecs now ≤ instant ∨ instant ≤ ace.usecs now - 1000000
  | .letterT =>
    ace.usecs now ≤ instant ∧ ace.usecs now = ace.usecs s.zeroTime + ace.usecs s.scenarioWallclockAtZeroTime ∨
      instant < ace.usecs now ∧ usecs ≤ ace.usecs s.scenarioWallclockAtZeroTime - 1000000
  | .plusSign => 0 ≤ sec ↔ 0 ≤ usecs

/-- The seconds of a difference are negative from a whole second on. -/
theorem tdiv_neg_iff (n : ℤ) : n.tdiv 1000000 < 0 ↔ n ≤ -1000000 := by
  rcases Int.le_total 0 n with hn | hn
  · have hnonneg := Int.tdiv_nonneg hn (show (0 : ℤ) ≤ 1000000 by omega)
    omega
  · obtain ⟨k, rfl⟩ := Int.exists_eq_neg_ofNat hn
    rw [Int.neg_tdiv, Int.tdiv_eq_ediv_of_nonneg (Int.natCast_nonneg k)]
    omega

/-- What `calculateAlarmTime` does with a time. -/
def checked (ace : AceTimeValue T) (actual : T) : Except Fault T :=
  if ace.sec actual < 0 then .error (.runtimeError "Execution time in the past, not scheduling alarm.")
  else .ok actual

theorem fires_checked_iff (actual : T) (i : ℤ) : Fires ace now i (checked ace actual) ↔
    ace.usecs now ≤ i ∧ 0 ≤ ace.sec actual ∧ ace.usecs now + ace.usecs actual = i ∨
      i < ace.usecs now ∧ ace.sec actual < 0 := by
  unfold Fires checked
  split_ifs with hneg
  · constructor
    · rintro ⟨hreturns, -⟩
      refine .inr ⟨Int.not_le.1 fun hle => ?_, hneg⟩
      obtain ⟨d, hd, -⟩ := hreturns hle
      cases hd
    · rintro (⟨-, hsec, -⟩ | ⟨hlt, -⟩)
      · omega
      · exact ⟨fun hle => absurd hle (Int.not_le.2 hlt), fun _ => ⟨_, rfl⟩⟩
  · constructor
    · rintro ⟨hreturns, hthrows⟩
      have hle : ace.usecs now ≤ i := Int.not_lt.1 fun hlt => by
        obtain ⟨e, he⟩ := hthrows hlt
        cases he
      obtain ⟨d, hd, hsum⟩ := hreturns hle
      obtain rfl := Except.ok.inj hd
      exact .inl ⟨hle, Int.not_lt.1 hneg, hsum⟩
    · rintro (⟨hle, -, hsum⟩ | ⟨-, hsec⟩)
      · exact ⟨fun _ => ⟨actual, rfl, hsum⟩, fun hlt => absurd hle (Int.not_le.2 hlt)⟩
      · exact absurd hsec hneg

/-- **A difference that stands for the time to the instant.** -/
theorem fires_difference_iff (hace : ace.Lawful) {a b : T} {i : ℤ}
    (hdiff : ace.usecs a - ace.usecs b = i - ace.usecs now) :
    Fires ace now i (checked ace (ace.sub a b)) ↔ ace.usecs now ≤ i ∨ i ≤ ace.usecs now - 1000000 := by
  have hsec := tdiv_neg_iff (i - ace.usecs now)
  rw [fires_checked_iff, hace.sec_sub, hace.usecs_sub, hdiff]
  omega

/-- **Alarms fire at the instant the user named** under the condition. -/
theorem fires_iff (hace : ace.Lawful) (s : ScenarioTime T) (now : T) (mark : Mark) (sec usec : ℤ) :
    Fires ace now (instant ace s now mark (sec * 1000000 + usec))
      (s.calculateAlarmTime ace now (parsed ace mark sec usec).1 (parsed ace mark sec usec).2) ↔
      InTime ace s now mark sec usec := by
  have hparts := hace.usecs_ofParts sec usec
  cases mark with
  | atSign =>
    refine fires_difference_iff hace ?_
    show ace.usecs (ace.ofParts sec usec) - ace.usecs (ace.add s.scenarioWallclockAtZeroTime
      (ace.sub now s.zeroTime)) = ace.usecs s.zeroTime + (sec * 1000000 + usec -
        ace.usecs s.scenarioWallclockAtZeroTime) - ace.usecs now
    rw [hace.usecs_add, hace.usecs_sub, hparts]
    omega
  | equalsSign =>
    refine fires_difference_iff hace ?_
    rw [show (parsed ace .equalsSign sec usec).2 = ace.ofParts sec usec from rfl, hparts]
    rfl
  | letterT =>
    -- the simulated time is subtracted in the place of the time that has elapsed
    have hsec := tdiv_neg_iff (sec * 1000000 + usec - ace.usecs s.scenarioWallclockAtZeroTime)
    show Fires ace now (ace.usecs s.zeroTime + (sec * 1000000 + usec))
      (checked ace (ace.sub (ace.ofParts sec usec) s.scenarioWallclockAtZeroTime)) ↔ _
    rw [fires_checked_iff, hace.sec_sub, hace.usecs_sub, hparts]
    unfold InTime instant
    simp only []
    omega
  | plusSign =>
    show Fires ace now (ace.usecs now + (sec * 1000000 + usec)) (checked ace (ace.ofParts sec usec)) ↔
      (0 ≤ sec ↔ 0 ≤ sec * 1000000 + usec)
    rw [fires_checked_iff, hace.sec_ofParts, hparts]
    omega

/-! ## Pairs of seconds and microseconds -/

/-- The seconds and microseconds of a number of microseconds. -/
def normalized (n : ℤ) : ℤ × ℤ := (n.tdiv 1000000, n.tmod 1000000)

/-- Pairs that are normalised where they are added or subtracted. -/
def secUsecPairs : AceTimeValue (ℤ × ℤ) where
  ofParts sec usec := (sec, usec)
  sec t := t.1
  add a b := normalized (a.1 * 1000000 + a.2 + (b.1 * 1000000 + b.2))
  sub a b := normalized (a.1 * 1000000 + a.2 - (b.1 * 1000000 + b.2))
  usecs t := t.1 * 1000000 + t.2

theorem usecs_normalized (n : ℤ) : secUsecPairs.usecs (normalized n) = n := by
  show n.tdiv 1000000 * 1000000 + n.tmod 1000000 = n
  rw [Int.mul_comm]
  exact Int.mul_tdiv_add_tmod n 1000000

theorem secUsecPairs_lawful : secUsecPairs.Lawful where
  usecs_ofParts _ _ := rfl
  sec_ofParts _ _ := rfl
  usecs_add _ _ := usecs_normalized _
  usecs_sub _ _ := usecs_normalized _
  sec_sub _ _ := congrArg (Int.tdiv · 1000000) (usecs_normalized _).symm

/-- Five seconds from now. -/
theorem fires_plus : Fires secUsecPairs (1000, 0) (1005 * 1000000)
    (calculateAlarmTime secUsecPairs ⟨(1000, 0), (1000, 0)⟩ (1000, 0) .wallOffset (5, 0)) :=
  (fires_iff secUsecPairs_lawful ⟨(1000, 0), (1000, 0)⟩ (1000, 0) .plusSign 5 0).2 (iff_of_true (by decide) (by decide))

/-- Five seconds from the start of the scenario, at the start: the alarm is refused. -/
theorem offset_refused : ¬ ∀ (s : ScenarioTime (ℤ × ℤ)) (now : ℤ × ℤ) (mark : Mark) (sec usec : ℤ),
    secUsecPairs.usecs s.zeroTime ≤ secUsecPairs.usecs now →
    Fires secUsecPairs now (instant secUsecPairs s now mark (sec * 1000000 + usec))
      (s.calculateAlarmTime secUsecPairs now (parsed secUsecPairs mark sec usec).1
        (parsed secUsecPairs mark sec usec).2) := by
  intro h
  obtain ⟨d, hd, -⟩ := (h ⟨(1000, 0), (1000, 0)⟩ (1000, 0) .letterT 5 0 (Int.le_refl _)).1 (by decide)
  have hrefused : calculateAlarmTime secUsecPairs ⟨(1000, 0), (1000, 0)⟩ (1000, 0) .scenarioOffset (5, 0) =
      .error (.runtimeError "Execution time in the past, not scheduling alarm.") := by decide
  cases hrefused.symm.trans hd

end ChannelEmulator.ScenarioTime
