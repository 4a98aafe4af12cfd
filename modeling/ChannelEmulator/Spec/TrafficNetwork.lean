import ChannelEmulator.Network.Graph
import ChannelEmulator.Spec.TrafficHandler

/-!
# Modules that are linked to each other

`modules/lib/BaseTrafficHandler.cpp` and `modules/lib/HandlerLink.cpp`: the modules of a channel, where a module may
send to several others, as a demultiplexer does, and several may send to one, as they do to a multiplexer.
-/

namespace ChannelEmulator.Traffic

open Network

variable {ι : Type}

/-- A module with its links: its `svc` says for each unit that it sends to which module the link leads. -/
structure Segment (ι : Type) where
  Memory : Type
  Choice : Type
  svc : Memory → Bytes × Choice → Except Fault (Memory × List (ι × Bytes))
  may : List Bytes → Choice → Prop
  may_append : ∀ {queue c} (more : List Bytes), may queue c → may (queue ++ more) c
  exists_may : ∀ queue, ∃ c, may queue c
  start : Memory

/-- A module whose primary output is linked to another one. -/
def Service.linked (s : Service) (target : ι) : Segment ι where
  Memory := s.Memory
  Choice := s.Choice
  svc memory p := (s.svc memory p).map fun r => (r.1, r.2.map (target, ·))
  may := s.may
  may_append := s.may_append
  exists_may := s.exists_may
  start := s.start

/-- A loop that depends on the units alone, and says for each that it sends where it goes. -/
def Segment.plain {σ : Type} (svc : σ → Bytes → Except Fault (σ × List (ι × Bytes))) (start : σ) : Segment ι where
  Memory := σ
  Choice := Unit
  svc memory p := svc memory p.1
  may _ c := c = ()
  may_append _ h := h
  exists_may _ := ⟨(), rfl⟩
  start := start

/-- What is behind the modules of a channel: it keeps what it gets. -/
def Segment.sink (ι : Type) : Segment ι := .plain (fun units u => .ok (units ++ [u], [])) ([] : List Bytes)

/-- A turn of the loop. -/
def Segment.turn (s : Segment ι) (h : Handler s.Memory) (p : Bytes × s.Choice) :
    Except Fault (Handler s.Memory × List (ι × Bytes)) := do
  let h := h.getData p.1
  let (memory, sent) ← s.svc h.memory p
  return ({ h with memory }, sent)

/-- The threads of modules, and what comes from outside of them for each: `supply` has it in the order in which it is
put. -/
def network (segments : ι → Segment ι) (supply : ι → List (ι × Bytes)) : Net ι Fault Bytes where
  Memory i := Handler (segments i).Memory
  Choice i := (segments i).Choice
  turn i := (segments i).turn
  may i := (segments i).may
  may_append more := (segments _).may_append more
  exists_may i := (segments i).exists_may
  start i := { memory := (segments i).start }
  supply := supply

end ChannelEmulator.Traffic
