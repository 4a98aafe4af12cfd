import ChannelEmulator.Framing.Run
import ChannelEmulator.Spec.NetworkData

/-!
# The AOS bitstream service

`lib/AOS_Bitstream_PDU.cpp`, `modules/AOS/modAOS_B_PDU_Add.cpp` and
`modAOS_B_PDU_Remove.cpp`, with the outputs connected. B_PDUs are message blocks: a
message that is sent is a pointer to one, so a message keeps the identity of its block and
of the blocks on its continuation field.
-/

namespace ChannelEmulator.Bitstream

/-! ## `AOS_Bitstream_PDU` -/

def allOnes : ℕ := 0x3FFF
def allOnesMinusOne : ℕ := 0x3FFE
def spanHeader : ℕ := 2

/-- `getRsvdSpare`. -/
def getRsvdSpare (u : Bytes) : Except Fault ℕ := do
  let h ← octetAt u 0
  return (h.toNat &&& 0xC0) >>> 6

/-- `getBitstreamDataEnd`. -/
def getBitstreamDataEnd (u : Bytes) : Except Fault ℕ := do
  let h ← toU16 u
  return h &&& allOnes

/-- `setBitstreamDataEnd`. -/
def setBitstreamDataEnd (u : Bytes) (newVal : ℕ) : Except Fault Bytes := do
  let spare ← getRsvdSpare u
  if u.length < spanHeader then .error .outOfBounds
  else return overwrite u 0 (fromU16 ((spare <<< 14) ||| (newVal &&& allOnes)))

/-- `setAllData`. -/
def setAllData (u : Bytes) : Except Fault Bytes := setBitstreamDataEnd u allOnes

/-- `setAllIdle`. -/
def setAllIdle (u : Bytes) : Except Fault Bytes := setBitstreamDataEnd u allOnesMinusOne

/-- `getDataZoneLength`, and `getDataLength`. -/
def getDataZoneLength (u : Bytes) : ℕ := u.length - spanHeader

/-- `addFill`. -/
def addFill (u : Bytes) (fillIdx : ℕ) (fillVal : Octet) : Bytes :=
  overwrite u (spanHeader + fillIdx) (List.replicate (getDataZoneLength u - fillIdx) fillVal)

/-- A block of memory that holds a B_PDU. -/
structure Block where
  id : ℕ
  unit : Bytes
deriving DecidableEq, Repr

/-- What is sent over a link: the block, and the blocks linked behind it. -/
structure Message where
  block : Block
  cont : List ℕ
deriving DecidableEq, Repr

/-! ## `modAOS_B_PDU_Add` -/

structure Add where
  sendImmediately : Bool
  bpduLength : ℕ
  unfilledBpdu : Option Block := none
  unfilledBpduIdx : ℕ := 0
  /-- The next block to be allocated. -/
  nextId : ℕ := 0
deriving DecidableEq, Repr

/-- The locals of `_process_data`, with what it has sent. -/
structure Locals where
  bpduList : List Block := []
  bpdu : Option Block := none
  bpduIdx : ℕ := 0
  bpduCount : ℕ := 0
  sent : List Message := []
  nextId : ℕ
deriving DecidableEq, Repr

namespace Add

/-- `_getDataZoneLength`. -/
def dataZoneLength (s : Add) : ℕ := s.bpduLength - spanHeader

/-- The B_PDU a pass of the loop works on: a new one where there is none. -/
def currentBpdu (s : Add) (l : Locals) : Block × Locals :=
  match l.bpdu with
  | some b => (b, l)
  | none => (⟨l.nextId, newUnit s.bpduLength⟩,
      { l with bpduIdx := 0, bpduCount := l.bpduCount + 1, nextId := l.nextId + 1 })

/-- `while (netdata)`, for one unit without further parts; `rest` is the unit from
`netdata_idx` on. -/
def fillLoop (s : Add) : ℕ → Locals → Bytes → Except Fault Locals
  | 0, _, _ => .error .diverges
  | fuel + 1, l, rest =>
    let (bpdu, l) := s.currentBpdu l
    let room := s.dataZoneLength - l.bpduIdx
    let dataLen := if rest.length ≤ room then rest.length else room
    match copyUnit bpdu.unit (spanHeader + l.bpduIdx) (rest.take dataLen) with
    | .error _ => .ok { l with bpdu := some bpdu }
    | .ok unit => do
      let bpduIdx := l.bpduIdx + dataLen
      let rest := rest.drop dataLen
      let l ←
        if bpduIdx = s.dataZoneLength then do
          let full : Block := { bpdu with unit := ← setAllData unit }
          if s.sendImmediately then
            pure { l with bpdu := none, bpduIdx := bpduIdx, sent := l.sent ++ [⟨full, []⟩] }
          else pure { l with bpdu := none, bpduIdx := bpduIdx, bpduList := l.bpduList ++ [full] }
        else if bpduIdx > s.dataZoneLength then
          .error (.logicError "bpdu_idx > data_zone_len")
        else pure { l with bpdu := some { bpdu with unit := unit }, bpduIdx := bpduIdx }
      if rest.length = 0 then
        -- add this last B_PDU to the list
        match l.bpdu with
        | some b =>
          if s.sendImmediately then return l else return { l with bpduList := l.bpduList ++ [b] }
        | none => return l
      else fillLoop s fuel l rest

/-- The final B_PDU, if not filled, padded with Fill. -/
def padLast (s : Add) (l : Locals) (last : Option Block) : Except Fault (Option Block) := do
  let last ←
    if l.bpduIdx < s.dataZoneLength then
      match last with
      | none => .error (.ndError "Got a null packet for the final B_PDU!\n")
      | some b => do
        let unit := addFill b.unit l.bpduIdx 0xE0
        if l.bpduIdx > 0 then
          let unit ← setBitstreamDataEnd unit (l.bpduIdx - 1)
          pure (some { b with unit := unit })
        else pure (some { b with unit := unit })
    else pure last
  match last with
  | some b =>
    if l.bpduIdx = 0 then
      let unit ← setAllIdle b.unit
      return some { b with unit := unit }
    else return some b
  | none => return none

/-- The part of `_process_data` after its loop. -/
def finish (s : Add) (l : Locals) (queueEmpty : Bool) : Except Fault (Add × Locals) :=
  let s := { s with nextId := l.nextId }
  if (l.bpdu.isSome || l.bpduList ≠ []) && 0 < l.bpduCount then
    let last := if s.sendImmediately then l.bpdu else l.bpduList.getLast?
    if queueEmpty || !s.sendImmediately then do
      let last ← s.padLast l last
      if s.sendImmediately then
        return (s, { l with sent := l.sent ++ (last.map fun b => ⟨b, []⟩).toList })
      else return (s, { l with bpduList := l.bpduList.dropLast ++ last.toList })
    else .ok ({ s with unfilledBpdu := last, unfilledBpduIdx := l.bpduIdx }, l)
  else .ok (s, l)

/-- `_process_data`. Each pass but the last takes at least one octet, where the zone is
not empty. -/
def processData (s : Add) (netdata : Bytes) (queueEmpty : Bool) : Except Fault (Add × Locals) := do
  let l : Locals :=
    { bpdu := s.unfilledBpdu
      bpduIdx := s.unfilledBpduIdx
      bpduCount := if s.unfilledBpdu.isSome then 1 else 0
      nextId := s.nextId }
  let l ← fillLoop s (netdata.length + 1) l netdata
  finish { s with unfilledBpdu := none, unfilledBpduIdx := 0 } l queueEmpty

/-- The B_PDUs of a list sent one after the other, each still linked to the next. -/
def sendList : List Block → List Message
  | [] => []
  | b :: bs => ⟨b, bs.map Block.id⟩ :: sendList bs

/-- One turn of `svc`: a unit, and whether the queue is empty behind it. -/
def svc (s : Add) (input : Bytes × Bool) : Except Fault (Add × List Message) := do
  let (s, l) ← s.processData input.1 input.2
  if s.sendImmediately then return (s, l.sent) else return (s, l.sent ++ sendList l.bpduList)

end Add

/-! ## `modAOS_B_PDU_Remove` -/

/-- What the remover takes out of one B_PDU. -/
def extract (u : Bytes) : Except Fault (List Bytes) := do
  let dataEnd ← getBitstreamDataEnd u
  if dataEnd = allOnesMinusOne then return []
  else
    let dataLen := if dataEnd = allOnes then getDataZoneLength u else dataEnd + 1
    if dataLen > getDataZoneLength u then return []
    else if dataLen = 0 then return []
    else return [(u.drop spanHeader).take dataLen]

/-- The remover's view of memory: the blocks released so far. -/
structure Remove where
  released : List ℕ := []
deriving DecidableEq, Repr

/-- One turn of `svc`. `ndSafeRelease` releases the entire continuation chain. -/
def Remove.svc (s : Remove) (m : Message) : Except Fault (Remove × List Bytes) :=
  if m.block.id ∈ s.released then .error .useAfterFree
  else do
    let sent ← extract m.block.unit
    return ({ released := m.block.id :: m.cont ++ s.released }, sent)

end ChannelEmulator.Bitstream
