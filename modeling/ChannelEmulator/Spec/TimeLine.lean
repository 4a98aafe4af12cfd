import ChannelEmulator.Spec.NetworkData
import Mathlib.Algebra.Order.Ring.Unbundled.Rat

/-!
# Time lines

`modules/lib/TimeLine.hpp` and `modules/lib/TimePeriod.hpp`: the values that the emulation modules use from
given times on.
-/

namespace ChannelEmulator

/-- What a time line uses of `ACE_Time_Value`: the constants, the decrement by a microsecond, a time point
within a cycle of seconds, and how a time is written in seconds. -/
structure TimeValues (T : Type) where
  zero : T
  maxTime : T
  decrement : T → T
  inCycle : ℚ → T → T
  seconds : T → String

/-- The decrement is by the least step there is. -/
structure TimeValues.Lawful {T : Type} [LinearOrder T] (ace : TimeValues T) : Prop where
  le_maxTime : ∀ t, t ≤ ace.maxTime
  le_decrement_iff : ∀ s t, ace.zero < t → (s ≤ ace.decrement t ↔ s < t)

/-- `TimePeriod`. -/
structure TimePeriod (T : Type) where
  startTime : T
  stopTime : T

namespace TimePeriod

variable {T : Type} [LinearOrder T]

/-- `isDuring`. -/
def isDuring (p : TimePeriod T) (testTime : T) : Prop := p.startTime ≤ testTime ∧ testTime ≤ p.stopTime

instance (p : TimePeriod T) (testTime : T) : Decidable (p.isDuring testTime) :=
  inferInstanceAs (Decidable (_ ∧ _))

/-- `getTimeBeforeStart`. -/
def getTimeBeforeStart (ace : TimeValues T) (p : TimePeriod T) : T :=
  if p.startTime ≠ ace.zero then ace.decrement p.startTime else ace.zero

end TimePeriod

/-- `TimeLine`. There is a period at all times. -/
structure TimeLine (T V : Type) where
  defaultVal : V
  timeLine : List (TimePeriod T × V)
  timeLine_ne : timeLine ≠ []

namespace TimeLine

variable {T V : Type} [LinearOrder T] (ace : TimeValues T)

/-- `AppendFailed::msg`. -/
def appendFailedMsg (existingTime attemptedTime : T) : String :=
  "Timeline append failed: existing period starting at " ++ ace.seconds existingTime ++
    " is later than new period starting at " ++ ace.seconds attemptedTime ++ "."

/-- `reset`. -/
def reset (defaultVal : V) : TimeLine T V where
  defaultVal := defaultVal
  timeLine := [(⟨ace.zero, ace.maxTime⟩, defaultVal)]
  timeLine_ne := List.cons_ne_nil _ _

/-- `append`: the time line after it, and what is thrown. -/
def append (tl : TimeLine T V) (startTime : T) (newVal : V) : TimeLine T V × Option Fault :=
  let newPeriod : TimePeriod T := ⟨startTime, ace.maxTime⟩
  let last := tl.timeLine.getLast tl.timeLine_ne
  if last.1.startTime < newPeriod.startTime then
    let newStopTime := newPeriod.getTimeBeforeStart ace
    ({ tl with
        timeLine := tl.timeLine.dropLast ++
          [({ last.1 with stopTime := newStopTime }, last.2), (newPeriod, newVal)]
        timeLine_ne := List.append_ne_nil_of_right_ne_nil _ (List.cons_ne_nil _ _) }, none)
  else (tl, some (.ndError (appendFailedMsg ace last.1.startTime startTime)))

/-- `get`. -/
def get (tl : TimeLine T V) (timePoint : T) (modulus : ℚ) : V :=
  let workingTimePoint := if 0 < modulus then ace.inCycle modulus timePoint else timePoint
  match tl.timeLine.find? fun it =>
    decide (it.1.startTime ≤ workingTimePoint) && decide (workingTimePoint ≤ it.1.stopTime) with
  | some it => it.2
  | none => tl.defaultVal

end TimeLine

end ChannelEmulator
