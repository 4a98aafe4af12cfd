import Mathlib.Data.Int.Init
import Mathlib.Data.List.Basic

/-!
# The periodic transmitter

`PeriodicTransmitter` with the intervals that a `PeriodicTrafficHandler` sets and `PeriodicLink::send`
(`modules/lib`), while the service continues.

* `Transmitter`: the transmitter with its message queue, and how far `svc` is in its loop.
* `step`: what `svc`, a sender, a caller of `setInterval` and the clock do, one at a time. What the clock shows,
  what arrives, when a timed read of the queue gives up and whether there is an idle unit are arguments.
* `Log`: what can be said of a run afterwards.

Times are in microseconds. A pulse of the queue wakes whoever waits for it, and the read then fails. The two links
of a handler are treated alike, so there is one here; its `_outputLink` is the link itself.
-/

namespace ChannelEmulator

namespace Periodic

/-- `ACE_Time_Value`. -/
structure TimeValue where
  sec : ℤ := 0
  usec : ℤ := 0
deriving DecidableEq, Repr

namespace TimeValue

/-- The microseconds that it stands for. -/
def total (v : TimeValue) : ℤ := v.sec * 1000000 + v.usec

/-- `v.usec(usec)`, which leaves the seconds. -/
def setUsec (v : TimeValue) (usec : ℤ) : TimeValue := { v with usec := usec }

/-- `v > ACE_Time_Value::zero`. -/
def positive (v : TimeValue) : Bool := decide (0 < v.sec ∨ v.sec = 0 ∧ 0 < v.usec)

end TimeValue

/-- `static_cast<int>`. -/
def toInt (n : ℤ) : ℤ := Int.bmod n 4294967296

/-- What is forwarded. -/
inductive Item (U : Type)
  | unit (u : U)
  | idle
deriving DecidableEq, Repr

/-- Where `svc` is in its loop. -/
inductive Phase (U : Type)
  | stopped
  | head
  | waiting (isPeriodic : Bool)
  | failed (isPeriodic : Bool)
  | chosen (data : Option (Item U))
  | ready (data : Option (Item U))
deriving DecidableEq, Repr

structure Transmitter (U : Type) where
  interval : TimeValue := {}
  intervalUpdated : Bool := false
  sendTime : ℤ := 0
  msgQueue : List U := []
  phase : Phase U := .stopped

/-- What a read of the queue that failed saw. -/
structure Seen where
  waiting : ℕ := 0
  sendTime : ℤ := 0
  clock : ℤ := 0
deriving DecidableEq, Repr

/-- A call of `setInterval` since which the interval asked for is the same, with what was forwarded since. -/
structure Mark where
  time : ℤ
  forwarded : ℕ
deriving DecidableEq, Repr

/-- What was put in, forwarded and asked for, and what the reads saw for which idle units were forwarded. -/
structure Log (U : Type) where
  accepted : List U := []
  forwarded : List (Item U) := []
  requested : ℤ
  marks : List Mark
  seen : Seen := {}
  idles : List Seen := []

/-- The traffic handler with its setting and its link's transmitter. `pulsing`: a call of `setInterval` has yet to
pulse the queue. -/
structure State (U : Type) where
  intervalUsec : ℤ
  idleCount : ℕ := 0
  tx : Transmitter U
  pulsing : Bool := false
  clock : ℤ
  log : Log U

variable {U : Type}

/-! ## Setting the interval -/

/-- `PeriodicTransmitter::setInterval(suseconds_t)`, but for the pulse. -/
def Transmitter.setInterval (tx : Transmitter U) (usec : ℤ) : Transmitter U :=
  { tx with interval := tx.interval.setUsec usec, intervalUpdated := true }

/-- The two `PeriodicTrafficHandler::setInterval`. -/
inductive SetInterval
  | microseconds (newVal : ℤ)
  | timeValue (newVal : TimeValue)
deriving DecidableEq, Repr

namespace SetInterval

/-- What is stored in the setting. -/
def stored : SetInterval → ℤ
  | microseconds newVal => toInt newVal
  | timeValue newVal => toInt newVal.usec

/-- The interval that is asked for. -/
def asked : SetInterval → ℤ
  | microseconds newVal => newVal
  | timeValue newVal => newVal.total

end SetInterval

/-- `updateIntervals_`, with `getInterval`. -/
def State.updateIntervals (s : State U) : State U :=
  { s with tx := s.tx.setInterval (toInt s.intervalUsec), pulsing := true }

/-- `PeriodicTrafficHandler::setInterval`. -/
def State.setInterval (s : State U) (c : SetInterval) : State U :=
  let marks := (if c.asked = s.log.requested then s.log.marks else []) ++ [⟨s.clock, 0⟩]
  State.updateIntervals { s with
    intervalUsec := c.stored, log := { s.log with requested := c.asked, marks := marks } }

/-! ## The loop -/

/-- A read of the queue fails. -/
def State.fail (s : State U) (isPeriodic : Bool) : State U :=
  { s with
    tx := { s.tx with phase := .failed isPeriodic }
    log := { s.log with seen := ⟨s.tx.msgQueue.length, s.tx.sendTime, s.clock⟩ } }

/-- `msg_queue()->pulse()`. -/
def State.pulse (s : State U) : State U :=
  match s.tx.phase with
  | .waiting isPeriodic => { s.fail isPeriodic with pulsing := false }
  | _ => { s with pulsing := false }

/-- `PeriodicLink::send`. -/
def State.put (s : State U) (u : U) : State U :=
  { s with
    tx := { s.tx with msgQueue := s.tx.msgQueue ++ [u] }
    log := { s.log with accepted := s.log.accepted ++ [u] } }

/-- The head of the loop, up to the read of the queue. -/
def State.begin (s : State U) : State U :=
  if s.tx.interval.positive then
    { s with tx := { s.tx with sendTime := s.tx.sendTime + s.tx.interval.total, phase := .waiting true } }
  else { s with tx := { s.tx with phase := .waiting false } }

/-- What follows a read that failed. -/
def State.choose (s : State U) (isPeriodic hasIdle : Bool) : State U :=
  if isPeriodic then
    if s.tx.intervalUpdated then
      { s with tx := { s.tx with intervalUpdated := false, phase := .head } }
    else if hasIdle then
      { s with tx := { s.tx with phase := .chosen (some .idle) }, idleCount := s.idleCount + 1 }
    else { s with tx := { s.tx with phase := .head } }
  else { s with tx := { s.tx with phase := .chosen none } }

/-- `HandlerLink::send`. -/
def State.send (s : State U) (data : Item U) : State U :=
  { s with
    tx := { s.tx with phase := .head }
    log := { s.log with
      forwarded := s.log.forwarded ++ [data]
      marks := s.log.marks.map fun m => { m with forwarded := m.forwarded + 1 }
      idles := match data with
        | .idle => s.log.idles ++ [s.log.seen]
        | .unit _ => s.log.idles } }

inductive Act (U : Type)
  | put (u : U)
  | tick (clock : ℤ)
  | setInterval (c : SetInterval)
  | pulse
  | start
  | begin
  | read
  | timeOut
  | choose (hasIdle : Bool)
  | sleep
  | send
deriving DecidableEq, Repr

/-- One step, where it can be made. -/
def step (s : State U) : Act U → Option (State U)
  | .put u => some (s.put u)
  | .tick clock => if s.clock ≤ clock then some { s with clock := clock } else none
  | .setInterval c => if s.pulsing then none else some (s.setInterval c)
  | .pulse => if s.pulsing then some s.pulse else none
  | .start =>
    match s.tx.phase with
    | .stopped => some { s with tx := { s.tx with sendTime := s.clock, phase := .head } }
    | _ => none
  | .begin =>
    match s.tx.phase with
    | .head => some s.begin
    | _ => none
  | .read =>
    match s.tx.phase, s.tx.msgQueue with
    | .waiting _, u :: queue =>
      some { s with tx := { s.tx with msgQueue := queue, phase := .chosen (some (.unit u)) } }
    | _, _ => none
  | .timeOut =>
    match s.tx.phase, s.tx.msgQueue with
    | .waiting true, [] => if s.tx.sendTime ≤ s.clock then some (s.fail true) else none
    | _, _ => none
  | .choose hasIdle =>
    match s.tx.phase with
    | .failed isPeriodic => some (s.choose isPeriodic hasIdle)
    | _ => none
  | .sleep =>
    match s.tx.phase with
    | .chosen data => some { s with tx := { s.tx with phase := .ready data }, clock := max s.clock s.tx.sendTime }
    | _ => none
  | .send =>
    match s.tx.phase with
    | .ready (some data) => some (s.send data)
    -- "No data to send!"
    | .ready none => some { s with tx := { s.tx with phase := .head } }
    | _ => none

/-- The link of a handler that was configured with an interval, before `svc` starts. -/
def initial (intervalUsec clock : ℤ) : State U where
  intervalUsec := toInt intervalUsec
  tx := { interval := TimeValue.setUsec {} (toInt intervalUsec) }
  clock := clock
  log := { requested := toInt intervalUsec, marks := [⟨clock, 0⟩] }

/-- The states that steps lead to which are `allowed` when they are made. -/
inductive Run (allowed : State U → Act U → Prop) (s₀ : State U) : State U → Prop
  | start : Run allowed s₀ s₀
  | step {s s' : State U} {a : Act U} : Run allowed s₀ s → allowed s a → step s a = some s' → Run allowed s₀ s'

/-! ## What the transmitter is for -/

/-- The units among what is forwarded. -/
def units : List (Item U) → List U
  | [] => []
  | .unit u :: items => u :: units items
  | .idle :: items => units items

/-- The unit that `svc` has read and not forwarded yet. -/
def Phase.inHand : Phase U → List U
  | .chosen (some (.unit u)) => [u]
  | .ready (some (.unit u)) => [u]
  | _ => []

/-- A read that failed at a send time, when no unit was waiting. -/
def Seen.NoUnit (o : Seen) : Prop := o.waiting = 0 ∧ o.sendTime ≤ o.clock

/-- **The law of the transmitter.** -/
structure Kept (s : State U) : Prop where
  once : units s.log.forwarded ++ s.tx.phase.inHand ++ s.tx.msgQueue = s.log.accepted
  idle : ∀ o ∈ s.log.idles, o.NoUnit
  inForce : s.tx.interval.total = s.log.requested
  pace : 0 < s.tx.interval.total → ∀ m ∈ s.log.marks,
    m.forwarded * s.tx.interval.total ≤ (s.clock - m.time) + s.tx.interval.total

/-- The next send time is not behind the clock, when the interval becomes `interval`. -/
def OnTime (s : State U) (interval : ℤ) : Prop :=
  match s.tx.phase with
  | .stopped => True
  | .waiting _ | .chosen (some _) | .ready (some _) => s.clock ≤ s.tx.sendTime
  | _ => s.clock ≤ s.tx.sendTime + interval

/-- **When the law is kept**: the interval asked for is the one stored, a positive one is set while the next send
time is not in the past, and no time-out comes between the call and its pulse. -/
def Allowed (s : State U) : Act U → Prop
  | .setInterval c => c.stored = c.asked ∧ (0 < c.asked → OnTime s c.asked)
  | .pulse => s.tx.phase = .waiting true → s.tx.intervalUpdated = true
  | _ => True

end Periodic

end ChannelEmulator
