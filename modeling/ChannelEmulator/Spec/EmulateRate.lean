import ChannelEmulator.Spec.TimeLine

/-!
# The rate limit and its time line

`modules/Emulation/modEmulateRate.cpp` and `.hpp`: the limit, the time line of limits, and the settings that
both are saved in. Times are exact: a start time is one of the times of the time line.
-/

namespace ChannelEmulator

/-- `ValueTooSmall::msg`. The value is of type `ACE_UINT64`. -/
def valueTooSmallMsg (field : String) (given : ℤ) (limit : ℕ) : String :=
  field ++ " specified as " ++ toString (given % 18446744073709551616) ++ "; minimum is " ++ toString limit ++ "."

/-- The settings `rateLimit`, `timeLineCycleSecs` and `timeLine`; the latter may be missing. -/
structure RateSettings (T : Type) where
  rateLimit : ℤ
  timeLineCycleSecs : ℚ
  timeLine : Option (List (T × ℤ))

/-- `modEmulateRate`, with its settings. -/
structure EmulateRate (T : Type) where
  rateLimit : ℤ
  rateTimeLine : Option (TimeLine T ℤ)
  timeLineCycleSecs : ℚ
  settings : RateSettings T

namespace EmulateRate

variable {T : Type} [LinearOrder T] (ace : TimeValues T)

/-- The constructor's loop over the saved time line. -/
def loadTimeLine (rateLimit : ℤ) (saved : List (T × ℤ)) : TimeLine T ℤ :=
  saved.foldl (fun tl item => (tl.append ace item.1 item.2).1) (TimeLine.reset ace rateLimit)

/-- The constructor. A value that is too small is replaced by the one before. -/
def new (settings : RateSettings T) : EmulateRate T :=
  let rateLimit := if settings.rateLimit < 0 then 0 else settings.rateLimit
  let timeLineCycleSecs := if settings.timeLineCycleSecs < 0 then 0 else settings.timeLineCycleSecs
  { rateLimit, timeLineCycleSecs
    rateTimeLine := settings.timeLine.map (loadTimeLine ace rateLimit)
    settings := { settings with rateLimit, timeLineCycleSecs } }

/-- `getRateLimitAtTime`, and `getRateLimit` at the time that has elapsed. -/
def getRateLimitAtTime (m : EmulateRate T) (atTime : T) : ℤ :=
  match m.rateTimeLine with
  | some tl => tl.get ace atTime m.timeLineCycleSecs
  | none => m.rateLimit

/-- `setRateLimit` with a start time, for a limit that is not too small. The time line is created and the
setting is added ahead of the append, which may throw. -/
def appendRate (m : EmulateRate T) (newVal : ℤ) (startTime : T) : EmulateRate T × Option Fault :=
  let saved := m.settings.timeLine.getD []
  let tl := m.rateTimeLine.getD (TimeLine.reset ace m.rateLimit)
  match tl.append ace startTime newVal with
  | (tl, none) =>
    ({ m with
        rateTimeLine := some tl
        settings := { m.settings with timeLine := some (saved ++ [(startTime, newVal)]) } }, none)
  | (tl, some e) =>
    ({ m with rateTimeLine := some tl, settings := { m.settings with timeLine := some saved } }, some e)

/-- `setRateLimit`: the module after it, and what is thrown. The start time may be left out. -/
def setRateLimit (m : EmulateRate T) (newVal : ℤ) (startTime : Option T) : EmulateRate T × Option Fault :=
  if newVal < 0 then (m, some (.valueTooSmall (valueTooSmallMsg "Rate Limit" newVal 0)))
  else match startTime.filter (fun t => ace.zero < t) with
    | some t => m.appendRate ace newVal t
    | none => ({ m with rateLimit := newVal, settings := { m.settings with rateLimit := newVal } }, none)

/-- `clearTimeLine`. -/
def clearTimeLine (m : EmulateRate T) : EmulateRate T :=
  match m.rateTimeLine with
  | none => m
  | some _ => { m with rateTimeLine := none, settings := { m.settings with timeLine := none } }

/-- The calls that change the rate. -/
inductive Call (T : Type)
  | setRateLimit (newVal : ℤ) (startTime : Option T)
  | clearTimeLine
deriving DecidableEq

/-- One call; an exception goes to the caller. -/
def call (m : EmulateRate T) : Call T → EmulateRate T
  | .setRateLimit newVal startTime => (m.setRateLimit ace newVal startTime).1
  | .clearTimeLine => m.clearTimeLine

/-- Calls one after the other. -/
def calls (m : EmulateRate T) (cs : List (Call T)) : EmulateRate T := cs.foldl (call ace) m

end EmulateRate

end ChannelEmulator
