import ChannelEmulator.Spec.NetworkData

/-!
# Emulated delay

`modules/Emulation/modEmulateDelay.cpp`: `putData` gives a unit its deadline and puts it into the queue, `getData_`
takes a unit and sleeps until its deadline, and `svc` sends it. Times are in microseconds.

* `step`: what a sender, the thread of `svc`, a caller of the setters and the clock do, one at a time.
-/

namespace ChannelEmulator.EmulateDelay

/-- A unit with its deadline. The other fields tell what it met: when it came into the queue, and until when the thread
was asleep then. -/
structure Delayed where
  data : Bytes
  deadline : ℕ
  arrival : ℕ
  asleepUntil : ℕ
deriving DecidableEq, Repr

/-- The module with its queue, and what it was given and has sent, each with the time. -/
structure Delay where
  allowJitterReorder : Bool := false
  useTimeStamp : Bool := false
  clock : ℕ := 0
  queue : List Delayed := []
  /-- What `getData_` has taken off the queue, while it sleeps. -/
  taken : Option Delayed := none
  put : List Delayed := []
  sent : List (Delayed × ℕ) := []
deriving DecidableEq, Repr

namespace Delay

/-- A call of `putData`: the time when it looked at the clock, which is past where the queue was full, and the delay
with the jitter that it drew. `enqueue_deadline` decides on the place. -/
structure Call where
  data : Bytes
  timeStamp : ℕ
  time : ℕ
  delaySecs : ℕ
  place : ℕ
deriving DecidableEq, Repr

/-- The deadline of a unit. -/
def sendTime (s : Delay) (c : Call) : ℕ := (if s.useTimeStamp then c.timeStamp else c.time) + c.delaySecs

/-- `putData`, where there is room. -/
def putData (s : Delay) (c : Call) : Delay :=
  let unit : Delayed :=
    { data := c.data
      deadline := s.sendTime c
      arrival := s.clock
      asleepUntil := (s.taken.map Delayed.deadline).getD 0 }
  { s with
    queue := if s.allowJitterReorder then s.queue.insertIdx (min c.place s.queue.length) unit else s.queue ++ [unit]
    put := s.put ++ [unit] }

/-- Whether `dequeue_deadline` may take a unit: there is none with an earlier deadline. -/
def IsNext (s : Delay) (unit : Delayed) : Prop := ∀ u ∈ s.queue, unit.deadline ≤ u.deadline

instance (s : Delay) (unit : Delayed) : Decidable (s.IsNext unit) := by
  unfold IsNext
  infer_instance

/-- `getData_`, up to its sleep. -/
def getData (s : Delay) (place : ℕ) : Option Delay :=
  let place := if s.allowJitterReorder then place else 0
  match s.taken, s.queue[place]? with
  | none, some unit =>
    if s.allowJitterReorder = true → s.IsNext unit then
      some { s with queue := s.queue.eraseIdx place, taken := some unit }
    else none
  | _, _ => none

/-- The end of the sleep, and what `svc` does then. -/
def send (s : Delay) : Option Delay :=
  match s.taken with
  | some unit =>
    if unit.deadline ≤ s.clock then some { s with taken := none, sent := s.sent ++ [(unit, s.clock)] } else none
  | none => none

/-- What happens. -/
inductive Event
  | tick
  | putData (c : Call)
  | getData (place : ℕ)
  | send
  | setAllowJitterReorder (newVal : Bool)
  | setUseTimeStamp (newVal : Bool)
deriving DecidableEq, Repr

/-- One step, if it can be made. -/
def step (s : Delay) : Event → Option Delay
  | .tick => some { s with clock := s.clock + 1 }
  | .putData c => if c.time ≤ s.clock then some (s.putData c) else none
  | .getData place => s.getData place
  | .send => s.send
  | .setAllowJitterReorder newVal => some { s with allowJitterReorder := newVal }
  | .setUseTimeStamp newVal => some { s with useTimeStamp := newVal }

/-- The thread has nothing to do at this time. -/
def Resting (s : Delay) : Prop :=
  match s.taken with
  | some unit => s.clock < unit.deadline
  | none => s.queue = []

end Delay

/-- The states of runs whose steps all meet a condition. -/
inductive Reached (allowJitterReorder : Bool) (ok : Delay → Delay.Event → Prop) : Delay → Prop where
  | start : Reached allowJitterReorder ok { allowJitterReorder }
  | step {s s' : Delay} {e : Delay.Event} (h : Reached allowJitterReorder ok s) (hok : ok s e)
      (hstep : s.step e = some s') : Reached allowJitterReorder ok s'

/-- The thread does at once what it can do, and the setting for the order stays. -/
structure Prompt (s : Delay) (e : Delay.Event) : Prop where
  rests : e = .tick → s.Resting
  stays : ∀ newVal, e = .setAllowJitterReorder newVal → newVal = s.allowJitterReorder

/-- When units leave that are sent in their order: none before its deadline, nor before it is there or the one before
it has left. -/
def departures : ℕ → List Delayed → List (Delayed × ℕ)
  | _, [] => []
  | time, u :: units =>
    let time := max time (max u.arrival u.deadline)
    (u, time) :: departures time units

end ChannelEmulator.EmulateDelay
