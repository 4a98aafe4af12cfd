import ChannelEmulator.Network.Pipeline
import ChannelEmulator.Spec.NetworkData

/-!
# Modules and their threads

`modules/lib/BaseTrafficHandler.cpp`: a module takes the units off the queue before it and counts them. What its `svc`
does with a unit goes to the queue of the module that its primary output is linked to, by `HandlerLink::send` and
`putData`.
-/

namespace ChannelEmulator.Traffic

open Network

/-- The loop of the `svc` of a module: what it keeps, and what it does with a unit. A turn may depend on more than the
unit, as it does where a module looks whether its queue is empty; a unit that comes in the turn, before it looks, is
taken to come before the turn. -/
structure Service where
  Memory : Type
  Choice : Type
  svc : Memory → Bytes × Choice → Except Fault (Memory × List Bytes)
  may : List Bytes → Choice → Prop
  may_append : ∀ {queue c} (more : List Bytes), may queue c → may (queue ++ more) c
  exists_may : ∀ queue, ∃ c, may queue c
  /-- What is kept when the loop starts. -/
  start : Memory

/-- A loop that depends on the units alone. -/
def Service.plain {σ : Type} (svc : σ → Bytes → Except Fault (σ × List Bytes)) (start : σ) : Service where
  Memory := σ
  Choice := Unit
  svc s p := svc s p.1
  may _ _ := True
  may_append _ _ := trivial
  exists_may _ := ⟨(), trivial⟩
  start := start

/-- The attributes of a `BaseTrafficHandler` that its thread changes, of the primary input. -/
structure Handler (σ : Type) where
  memory : σ
  receivedUnitCount : ℕ := 0
  receivedOctetCount : ℕ := 0
deriving DecidableEq, Repr

/-- An addition of a step of 32 bits to a count of 64. -/
def addCount (count step : ℕ) : ℕ := (count + step % 2 ^ 32) % 2 ^ 64

/-- `getData_`: the unit is counted. -/
def Handler.getData {σ : Type} (h : Handler σ) (data : Bytes) : Handler σ :=
  { h with
    receivedUnitCount := addCount h.receivedUnitCount 1
    receivedOctetCount := addCount h.receivedOctetCount data.length }

namespace Service

variable (s : Service)

/-- A turn of the loop. -/
def turn (h : Handler s.Memory) (p : Bytes × s.Choice) : Except Fault (Handler s.Memory × List Bytes) := do
  let h := h.getData p.1
  let (memory, sent) ← s.svc h.memory p
  return ({ h with memory }, sent)

/-- The thread of a module, with the queue before it and what is still to be sent of a turn. -/
def thread (h : Handler s.Memory) (queue out : List Bytes) : Node Fault Bytes where
  Memory := Handler s.Memory
  Choice := s.Choice
  turn := s.turn
  may := s.may
  may_append := s.may_append
  exists_may := s.exists_may
  memory := h
  queue := queue
  out := out

end Service

/-- Modules whose outputs are linked to the next one when their threads start, with the units for the first. -/
def started (services : List Service) (units : List Bytes) : World Fault Bytes :=
  ⟨units, services.map fun s => s.thread { memory := s.start } [] [], []⟩

/-! ## One after the other -/

/-- The thread of a module behind all of the units that it got, with its counts of them. -/
def Service.ended (s : Service) (memory : s.Memory) (units : List Bytes) : Node Fault Bytes :=
  s.thread
    { memory := memory
      receivedUnitCount := units.length % 2 ^ 64
      receivedOctetCount := (units.map fun u => u.length % 2 ^ 32).sum % 2 ^ 64 } [] []

/-- The modules get all of their units one after the other: their threads behind that, and what comes out. -/
inductive Passes : List Service → List Bytes → List (Node Fault Bytes) → List Bytes → Prop where
  | nil (units : List Bytes) : Passes [] units [] units
  | cons {s : Service} {services : List Service} {units sent out : List Bytes} {ns : List (Node Fault Bytes)}
      {cs : List s.Choice} {memory : s.Memory} (hmet : Met s.may units cs)
      (hrun : Framing.runAll s.svc s.start (units.zip cs) = .ok (memory, sent))
      (hrest : Passes services sent ns out) : Passes (s :: services) units (s.ended memory units :: ns) out

/-- None of the modules fails for units that they get one after the other. -/
def NeverFails : List Service → List Bytes → Prop
  | [], _ => True
  | s :: services, units => ∀ cs, Met s.may units cs →
      ∃ memory sent, Framing.runAll s.svc s.start (units.zip cs) = .ok (memory, sent) ∧ NeverFails services sent

end ChannelEmulator.Traffic
