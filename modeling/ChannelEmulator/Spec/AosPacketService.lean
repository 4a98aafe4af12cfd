import ChannelEmulator.Spec.AosAccessService
import ChannelEmulator.Spec.Multiplexing
import ChannelEmulator.Spec.TrafficHandler

/-!
# The AOS packet service

The modules that the packets of a channel go through: `modAOS_M_PDU_Add`, the modules of the access service, and
`modAOS_M_PDU_Remove`, each with its thread.
-/

namespace ChannelEmulator.AOS

open Network Traffic ReedSolomon

/-- `modAOS_M_PDU_Add`: where a turn finds that the queue is not empty, there is a unit behind the one that it has
taken. It may find it empty at any time, as it does not wait for a unit that is late. -/
def mpduAdd (start : Multiplexing.Add) : Traffic.Service where
  Memory := Multiplexing.Add
  Choice := Bool
  svc := Multiplexing.Add.processData
  may queue queueEmpty := queueEmpty = false → queue ≠ []
  may_append _ h hempty hnil := h hempty (List.append_eq_nil_iff.1 hnil).1
  exists_may _ := ⟨true, fun h => absurd h (by decide)⟩
  start := start

/-- What is the same in the two modules of the packets. -/
structure PacketZones where
  multiPacketZone : Bool := true
  allowPacketsAfterFill : Bool := true

/-- `modAOS_M_PDU_Add` asks its output for the length of an M_PDU. -/
def PacketZones.add (z : PacketZones) (mru : ℕ) : Multiplexing.Add :=
  { mpduLength := mru, multiPacketZone := z.multiPacketZone }

def PacketZones.remove (z : PacketZones) : Multiplexing.Remove :=
  { multiPacketZone := z.multiPacketZone, allowPacketsAfterFill := z.allowPacketsAfterFill }

variable (c : Channel) (v : PhysicalChannel) (rs : RSBase) (dropBadFrames : Bool) (z : PacketZones)

end ChannelEmulator.AOS
