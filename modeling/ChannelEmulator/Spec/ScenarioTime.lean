import ChannelEmulator.Spec.NetworkData

/-!
# Alarm times

`ScenarioTime` of `server/Time_Handler.cpp` and `.hpp`: the time from now to the one that the user gives.
-/

namespace ChannelEmulator

/-- What is used of `ACE_Time_Value`: a value of seconds and microseconds as they are set, its seconds, sum and
difference, and how many microseconds it stands for. -/
structure AceTimeValue (T : Type) where
  ofParts : ℤ → ℤ → T
  sec : T → ℤ
  add : T → T → T
  sub : T → T → T
  usecs : T → ℤ

/-- Sums and differences are normalised: their microseconds are fewer than a second, and of its sign. -/
structure AceTimeValue.Lawful {T : Type} (ace : AceTimeValue T) : Prop where
  usecs_ofParts : ∀ s u, ace.usecs (ace.ofParts s u) = s * 1000000 + u
  sec_ofParts : ∀ s u, ace.sec (ace.ofParts s u) = s
  usecs_add : ∀ a b, ace.usecs (ace.add a b) = ace.usecs a + ace.usecs b
  usecs_sub : ∀ a b, ace.usecs (ace.sub a b) = ace.usecs a - ace.usecs b
  sec_sub : ∀ a b, ace.sec (ace.sub a b) = (ace.usecs (ace.sub a b)).tdiv 1000000

/-- `ScenarioTime::TimeType`. -/
inductive TimeType
  | scenario
  | wall
  | scenarioOffset
  | wallOffset
  | generic
  | error
deriving DecidableEq, Repr

/-- `ScenarioTime`. -/
structure ScenarioTime (T : Type) where
  zeroTime : T
  scenarioWallclockAtZeroTime : T

namespace ScenarioTime

variable {T : Type} (ace : AceTimeValue T) (s : ScenarioTime T) (now : T)

/-- `elapsed`. -/
def elapsed : T := ace.sub now s.zeroTime

/-- `scenarioNow`. -/
def scenarioNow : T := ace.add s.scenarioWallclockAtZeroTime (s.elapsed ace now)

/-- The mark in front of a time: `@`, `=`, `T` or `+`. -/
inductive Mark
  | atSign
  | equalsSign
  | letterT
  | plusSign
deriving DecidableEq, Repr

/-- `parseTime`: what it makes of a time that matches, by its mark and the seconds and microseconds it sets. -/
def parsed (mark : Mark) (sec usec : ℤ) : TimeType × T :=
  (match mark with
    | .atSign => .scenario
    | .equalsSign => .wall
    | .letterT => .scenarioOffset
    | .plusSign => .wallOffset,
  ace.ofParts sec usec)

/-- `calculateAlarmTime`. -/
def calculateAlarmTime (timeType : TimeType) (relative : T) : Except Fault T :=
  let actual := match timeType with
    | .scenario => ace.sub relative (s.scenarioNow ace now)
    | .scenarioOffset => ace.sub relative s.scenarioWallclockAtZeroTime
    | .wall => ace.sub relative now
    | .wallOffset | .generic => relative
    | .error => ace.ofParts 0 0
  if ace.sec actual < 0 then .error (.runtimeError "Execution time in the past, not scheduling alarm.")
  else .ok actual

end ScenarioTime

end ChannelEmulator
