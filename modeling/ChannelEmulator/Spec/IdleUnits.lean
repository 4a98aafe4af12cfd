import ChannelEmulator.Spec.AosVirtualChannel
import ChannelEmulator.Spec.Bitstream
import ChannelEmulator.Spec.UnitData

/-!
# Idle units

The idle unit templates of `modules/AOS/modAOS_VC_Gen.cpp` and `modAOS_B_PDU_Add.cpp`, with the settings of
`AOS_PhysicalChannel_Service.cpp` that they are built from. These are settings of the channel, which all its
modules refer to: what another module stores in them is a step here. A template is a pointer to a unit in memory.
`processData` of the bitstream service does not touch the template and is left out.
-/

namespace ChannelEmulator.AOS.Idle

/-! ## Memory -/

/-- The units that were allocated, without those that were released. -/
abbrev Memory := List (Option Bytes)

/-- `new`. -/
def Memory.alloc (m : Memory) (u : Bytes) : Memory × ℕ := (m ++ [some u], m.length)

/-- `ndSafeRelease`, which leaves the null pointer. -/
def Memory.release (m : Memory) : Option ℕ → Except Fault Memory
  | none => .ok m
  | some p =>
    match m[p]? with
    | some (some _) => .ok (m.set p none)
    | _ => .error .doubleFree

/-- What is read through a pointer. -/
def Memory.read (m : Memory) (p : ℕ) : Except Fault Bytes :=
  match m[p]? with
  | some (some u) => .ok u
  | _ => .error .useAfterFree

/-! ## The settings of the channel -/

structure Settings where
  frameSize : ℤ := 256
  useHeaderErrorControl : Bool := false
  useFrameErrorControl : Bool := false
  insertZoneSize : ℤ := 0
  idlePattern : List ℤ := []
deriving DecidableEq, Repr

/-- A number that is stored in an `int`. -/
def toInt (n : ℤ) : ℤ := Int.bmod n 4294967296

/-- The octets of the setting, as `getIdlePattern` returns them. -/
def Settings.getIdlePattern (c : Settings) : Bytes := c.idlePattern.map fun v => UInt8.ofNat (v % 256).toNat

/-- The loop of `setIdlePattern`, from `i` on. -/
def storeIdle : Bytes → ℕ → List ℤ → List ℤ
  | [], _, setting => setting
  | b :: idlePattern, i, setting =>
    -- add slots when needed
    let setting := if setting.length < i + 1 then setting ++ [(b.toNat : ℤ)] else setting.set i b.toNat
    storeIdle idlePattern (i + 1) setting

/-- What `setIdlePattern` stores; the extra slots are eliminated. -/
def Settings.storeIdlePattern (c : Settings) (idlePattern : Bytes) : Settings :=
  { c with idlePattern := (storeIdle idlePattern 0 c.idlePattern).take idlePattern.length }

/-- The constructor of `AOS_PhysicalChannel_Service`. -/
def Settings.new (saved : Settings) : Settings :=
  if saved.idlePattern = [] then saved.storeIdlePattern [0xAA, 0xBB, 0xCC] else saved

/-! ## `modAOS_VC_Gen` -/

structure VCGen where
  scid : ℕ := 0
  vcid : ℕ := 0
  useOperationalControl : Bool := false
  useVCFrameCycle : Bool := false
  counter : Counter := {}
  idleUnitTemplate : Option ℕ := none
  /-- The lock `idleUnitTemplateCreation_`. -/
  locked : Bool := false
deriving DecidableEq, Repr

/-- The channel of the frames that carry data. -/
def VCGen.channel (g : VCGen) (c : Settings) : Channel :=
  { scid := g.scid
    vcid := g.vcid
    useVCFrameCycle := g.useVCFrameCycle
    layout :=
      { hasHeaderErrorControl := c.useHeaderErrorControl
        inSduLen := c.insertZoneSize.toNat
        hasOperationalControl := g.useOperationalControl
        hasFrameErrorControl := c.useFrameErrorControl } }

/-- `getMRU`, a `size_t`. -/
def VCGen.getMRU (g : VCGen) (c : Settings) : ℕ :=
  ((c.frameSize - (g.channel c).layout.nonDataLength - c.insertZoneSize) % 18446744073709551616).toNat

/-! ## `modAOS_B_PDU_Add` -/

structure BPDUAdd where
  bpduLength : ℕ := 0
  mtu : ℕ := 0
  mtuIsManual : Bool := false
  receivedUnitCount : ℕ := 0
  idleUnitTemplate : Option ℕ := none
deriving DecidableEq, Repr

/-- The modules, and the memory. -/
structure State where
  settings : Settings
  memory : Memory := []
  vcGen : VCGen := {}
  bpduAdd : BPDUAdd := {}
deriving DecidableEq, Repr

/-- What `getIdleUnit` throws where there is no template, or what is wrong. -/
inductive IdleFault
  | noIdleUnit (msg : String)
  | fault (e : Fault)
deriving DecidableEq, Repr

namespace State

/-- The frame that `rebuildIdleUnitTemplate_` of `modAOS_VC_Gen` makes. Its header has no optional fields. -/
def idleFrame (s : State) : Except Fault Bytes :=
  if s.settings.frameSize < 0 then .error .nullPointer
  else do
    let u := newUnit s.settings.frameSize.toNat
    let u ← setTFVN u 1
    let u ← setSpacecraftID u (s.vcGen.channel s.settings).getSCID
    let u ← setVirtualChannelID u idleVirtualChannelID
    let fillCount := sizeDiff u.length spanRequiredHeader
    fillLoop copyUnit s.settings.getIdlePattern spanRequiredHeader fillCount fillCount 0 u

/-- `rebuildIdleUnitTemplate_` of `modAOS_VC_Gen`, with the state that a fault leaves. -/
def rebuildFrame (s : State) : Except (Fault × State) State :=
  if s.vcGen.locked then .error (.diverges, s)
  else
    let acquired := { s with vcGen := { s.vcGen with locked := true } }
    match s.idleFrame with
    | .error e => .error (e, acquired)
    | .ok newFrame =>
      let (memory, p) := s.memory.alloc newFrame
      match memory.release s.vcGen.idleUnitTemplate with
      | .error e => .error (e, acquired)
      | .ok memory => .ok { s with memory, vcGen := { s.vcGen with idleUnitTemplate := some p } }

/-- `getIdleUnit` of `modAOS_VC_Gen`. -/
def getIdleFrame (s : State) : Except IdleFault Bytes :=
  match s.vcGen.idleUnitTemplate with
  | none => .error (.noIdleUnit "The AOS transfer frame idle template has not been constructed yet.")
  | some p =>
    if s.vcGen.locked then .error (.fault .diverges)
    else (s.memory.read p).mapError .fault

/-- The B_PDU that `rebuildIdleUnitTemplate_` of `modAOS_B_PDU_Add` makes. -/
def idleBPDU (s : State) : Except Fault Bytes := do
  let u ← Bitstream.setAllIdle (newUnit s.bpduAdd.bpduLength)
  return Bitstream.addFill u 0 0xE0

/-- `rebuildIdleUnitTemplate_` of `modAOS_B_PDU_Add`. The new B_PDU is stored nowhere. -/
def rebuildBPDU (s : State) : Except (Fault × State) State :=
  if s.bpduAdd.bpduLength = 0 then .ok s
  else
    match s.idleBPDU with
    | .error e => .error (e, s)
    | .ok newBPDU =>
      let (memory, _) := s.memory.alloc newBPDU
      match memory.release s.bpduAdd.idleUnitTemplate with
      | .error e => .error (e, s)
      | .ok memory => .ok { s with memory, bpduAdd := { s.bpduAdd with idleUnitTemplate := none } }

/-- `getIdleUnit` of `modAOS_B_PDU_Add`. -/
def getIdleBPDU (s : State) : Except IdleFault Bytes :=
  match s.bpduAdd.idleUnitTemplate with
  | none => .error (.noIdleUnit "The bitstream PDU idle template has not been constructed yet.")
  | some p => (s.memory.read p).mapError .fault

/-! ## Steps -/

/-- A fault that is an exception is left to the caller; after any other nothing goes on. -/
def caught : Except (Fault × State) State → Except Fault State
  | .ok s => .ok s
  | .error (e, s) => if e.isThrown then .ok s else .error e

def setFrameSize (s : State) (newVal : ℤ) : Except (Fault × State) State :=
  rebuildFrame { s with settings := { s.settings with frameSize := newVal } }

/-- `set_B_PDU_Length`. -/
def setBPDULength (s : State) (newLength : ℕ) : Except (Fault × State) State :=
  rebuildBPDU { s with bpduAdd := { s.bpduAdd with bpduLength := newLength, mtu := newLength } }

/-- `svc` of `modAOS_B_PDU_Add`, ahead of its loop. -/
def startBPDU (s : State) (targetMRU : Option ℕ) : Except (Fault × State) State :=
  let b := s.bpduAdd
  let b :=
    if b.bpduLength = 0 then
      if 0 < b.mtu then { b with bpduLength := b.mtu, mtuIsManual := true }
      else
        match targetMRU with
        | some mru => { b with bpduLength := mru, mtuIsManual := false }
        | none => b
    else b
  rebuildBPDU { s with bpduAdd := b }

/-- One pass of the loop: every 11th unit it asks for a new MTU. -/
def passBPDU (s : State) (targetMRU : Option ℕ) : State :=
  let b := { s.bpduAdd with receivedUnitCount := s.bpduAdd.receivedUnitCount + 1 }
  match targetMRU with
  | some mru =>
    if b.mtuIsManual = false ∧ b.receivedUnitCount % 11 = 0 then { s with bpduAdd := { b with bpduLength := mru } }
    else { s with bpduAdd := b }
  | none => { s with bpduAdd := b }

/-- `connectOutput` of `modAOS_B_PDU_Add`. -/
def connectBPDU (s : State) (targetMRU : ℕ) : Except (Fault × State) State :=
  if s.bpduAdd.bpduLength = 0 then s.setBPDULength targetMRU else .ok s

/-- One pass of the loop of `svc` of `modAOS_VC_Gen`. -/
def passFrame (s : State) (data : Bytes) : Except (Fault × State) State :=
  match gen (s.vcGen.channel s.settings) (s.vcGen.getMRU s.settings) s.vcGen.counter data with
  | .error e => .error (e, s)
  | .ok (counter, _) => .ok { s with vcGen := { s.vcGen with counter } }

end State

/-- What is called on the modules. For `modAOS_B_PDU_Add` it comes with the MRU of its target, where it has one. -/
inductive Call
  | setFrameSize (newVal : ℤ)
  | setMTU (newVal : ℕ)
  | setMRU (newVal : ℕ)
  | setUseHeaderErrorControl (newVal : Bool)
  | setUseFrameErrorControl (newVal : Bool)
  | setInsertZoneSize (newVal : ℤ)
  | setIdlePattern (idlePattern : Bytes)
  | setSCID (newVal : ℕ)
  | setUseOperationalControl (newVal : Bool)
  | frameData (data : Bytes)
  /-- Another module of the channel stores the settings. -/
  | elsewhere (settings : Settings)
  | setBPDULength (newLength : ℕ)
  | setBPDUMTU (newVal : ℕ)
  | connectBPDU (targetMRU : ℕ)
  | startBPDU (targetMRU : Option ℕ)
  | bitstreamData (targetMRU : Option ℕ)
deriving DecidableEq, Repr

/-- One call. -/
def State.call (s : State) : Call → Except Fault State
  | .setFrameSize newVal => caught (s.setFrameSize newVal)
  | .setMTU newVal => caught (s.setFrameSize (toInt newVal))
  | .setMRU newVal => caught (s.setFrameSize
      (toInt (newVal + (s.vcGen.channel s.settings).layout.nonDataLength + s.settings.insertZoneSize)))
  | .setUseHeaderErrorControl newVal =>
    caught (rebuildFrame { s with settings := { s.settings with useHeaderErrorControl := newVal } })
  | .setUseFrameErrorControl newVal =>
    caught (rebuildFrame { s with settings := { s.settings with useFrameErrorControl := newVal } })
  | .setInsertZoneSize newVal => .ok { s with settings := { s.settings with insertZoneSize := newVal } }
  | .setIdlePattern idlePattern =>
    caught (rebuildFrame { s with settings := s.settings.storeIdlePattern idlePattern })
  | .setSCID newVal => .ok { s with vcGen := { s.vcGen with scid := newVal } }
  | .setUseOperationalControl newVal => .ok { s with vcGen := { s.vcGen with useOperationalControl := newVal } }
  | .frameData data => caught (s.passFrame data)
  | .elsewhere settings => .ok { s with settings }
  | .setBPDULength newLength => caught (s.setBPDULength newLength)
  | .setBPDUMTU newVal => .ok { s with bpduAdd := { s.bpduAdd with mtu := newVal } }
  | .connectBPDU targetMRU => caught (s.connectBPDU targetMRU)
  | .startBPDU targetMRU => caught (s.startBPDU targetMRU)
  | .bitstreamData targetMRU => .ok (s.passBPDU targetMRU)

/-- The constructors of both modules. -/
def State.new (saved : Settings) (vcGen : VCGen) (mtu : ℕ) : Except Fault State :=
  caught (rebuildFrame { settings := saved.new, vcGen := { vcGen with idleUnitTemplate := none, locked := false },
                         bpduAdd := { mtu } })

end ChannelEmulator.AOS.Idle
