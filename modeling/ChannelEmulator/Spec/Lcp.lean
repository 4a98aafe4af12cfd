import ChannelEmulator.Spec.NetworkData

/-!
# The link control protocol

`lib/PppConfPacket.cpp`, and of `lib/LcpFsm.cpp` the function `receive_request` with the events
it feeds to the state machine of `lib/fsm.hpp`. A packet is the octets of its unit.
-/

namespace ChannelEmulator.Lcp

/-! ## `PppConfPacket` -/

def configureRequest : Octet := 1
def configureAck : Octet := 2
def configureNak : Octet := 3
def terminateAck : Octet := 6
def headerByteLen : ℕ := 4

structure PppConfOption where
  optType : Octet
  optBuf : Bytes
deriving DecidableEq, Repr

/-- `codeVal`. -/
def codeVal (u : Bytes) : Except Fault Octet := octetAt u 0

/-- `setCodeVal`. -/
def setCodeVal (u : Bytes) (newCode : Octet) : Except Fault Bytes := storeAt u 0 [newCode]

/-- `lengthVal`. -/
def lengthVal (u : Bytes) : Except Fault ℕ := toU16 (u.drop 2)

/-- `dataLength`, of type `ACE_UINT8`. -/
def dataLength (u : Bytes) : Except Fault ℕ := do
  let n ← lengthVal u
  return (n + 2 ^ 32 - 4) % 2 ^ 8

/-- The octets from `dataPtr` on. -/
def data (u : Bytes) : Bytes := u.drop headerByteLen

/-- The data length of the option at a position: its length field less two, of type
`ACE_UINT8`. -/
def bufLenAt (data : Bytes) (optPos : ℕ) : Except Fault ℕ := do
  let length ← octetAt data (optPos + 1)
  return (length - 2).toNat

/-- Copying the option at a position. -/
def readOption (data : Bytes) (optPos : ℕ) : Except Fault PppConfOption := do
  let optType ← octetAt data optPos
  let bufLen ← bufLenAt data optPos
  if data.length < optPos + 2 + bufLen then .error .outOfBounds
  else return ⟨optType, (data.drop (optPos + 2)).take bufLen⟩

/-- The loop of `optionAt`: the number it ends with, and the position of the last option it
read. Every turn advances by two octets or more. -/
def optionLoop (data : Bytes) (dataLength : ℕ) (optIdx : ℤ) :
    ℕ → ℕ → ℕ → Except Fault (ℕ × ℕ)
  | 0, _, _ => .error .diverges
  | fuel + 1, optNum, optPos => do
    let _ ← octetAt data optPos
    let bufLen ← bufLenAt data optPos
    let next := optPos + (bufLen + 2)
    if next < dataLength then
      if (optNum : ℤ) ≤ optIdx then optionLoop data dataLength optIdx fuel (optNum + 1) next
      else return (optNum + 1, optPos)
    else return (optNum, optPos)

/-- `optionAt`. The inner error is the text of a `std::runtime_error`. -/
def optionAt (u : Bytes) (optIdx : ℤ) : Except Fault (Except String PppConfOption) := do
  let code ← codeVal u
  if code ≠ configureRequest ∧ code ≠ configureAck ∧ code ≠ configureNak then
    return .error "No options in this type of packet."
  else do
    let len ← dataLength u
    let (optNum, optPos) ← optionLoop (data u) len optIdx (len + 1) 0 0
    if (optNum : ℤ) ≠ optIdx then return .error "Could not reach specified option index."
    else do
      let opt ← readOption (data u) optPos
      return .ok opt

/-- The loop of `countOpts`. -/
def countLoop (data : Bytes) (dataLength : ℕ) : ℕ → ℕ → ℕ → Except Fault ℕ
  | 0, _, _ => .error .diverges
  | fuel + 1, optNum, optPos =>
    if optPos < dataLength then do
      let bufLen ← bufLenAt data optPos
      countLoop data dataLength fuel (optNum + 1) (optPos + (bufLen + 2))
    else .ok optNum

/-- `countOpts`. -/
def countOpts (u : Bytes) : Except Fault ℕ := do
  let len ← dataLength u
  countLoop (data u) len (len + 1) 0 0

/-- `appendOption`. -/
def appendOption (u : Bytes) (opt : PppConfOption) : Bytes :=
  let newLen := u.length + opt.optBuf.length + 2
  overwrite u 2 (fromU16 newLen) ++
    [opt.optType, UInt8.ofNat (opt.optBuf.length + 2)] ++ opt.optBuf

/-- `build`. -/
def build (code identifier : Octet) (options : List PppConfOption) : Bytes :=
  options.foldl appendOption ([code, identifier] ++ fromU16 headerByteLen)

/-! ## `PppOptions` -/

def escSeq : ℕ := 0x7D
def flagSeq : ℕ := 0x7E

/-- `sending_accm`. -/
abbrev CharacterMap := BitVec 256

/-- `sending_accm[i] = true`. -/
def CharacterMap.set (accm : CharacterMap) (i : ℕ) : CharacterMap := accm ||| BitVec.twoPow 256 i

/-- The default of `sending_accm`. -/
def defaultMap : CharacterMap :=
  CharacterMap.set (CharacterMap.set (BitVec.ofNat 256 0xFFFFFFFF) escSeq) flagSeq

/-! ## The state machine -/

inductive LcpState
  | Initial
  | Starting
  | Closed
  | Stopped
  | Closing
  | Stopping
  | ReqSent
  | AckRcvd
  | AckSent
  | Opened
deriving DecidableEq, Repr

/-- The events `receive_request` feeds to the state machine. -/
inductive Event
  | Up
  | Down
  | Open
  | Close
  | RcvConfReqOk
  | RcvConfReqBad
  | RcvTermReq
deriving DecidableEq, Repr

/-- What a transition does; the others of its functions only log. -/
inductive Action
  | scr
  | sca
  | sta
deriving DecidableEq, Repr

open LcpState Event Action in
/-- The rows of the transition table. No entry stands for `EXCEPTION`. -/
def transition : Event → LcpState → Option (LcpState × List Action)
  | Up, Initial => some (Closed, [])
  | Up, Starting => some (ReqSent, [scr])
  | Up, _ => none
  | Down, Initial | Down, Starting => none
  | Down, Closed | Down, Closing => some (Initial, [])
  | Down, _ => some (Starting, [])
  | Open, Initial | Open, Starting => some (Starting, [])
  | Open, Closed => some (ReqSent, [scr])
  | Open, Closing => some (Stopping, [])
  | Open, s => some (s, [])
  | Close, Initial | Close, Starting => some (Initial, [])
  | Close, Closed | Close, Stopped => some (Closed, [])
  | Close, _ => some (Closing, [])
  | _, Initial | _, Starting => none
  | RcvConfReqOk, Closed => some (Closed, [sta])
  | RcvConfReqOk, Stopped => some (AckSent, [scr, sca])
  | RcvConfReqOk, Closing => some (Closing, [])
  | RcvConfReqOk, Stopping => some (Stopping, [])
  | RcvConfReqOk, ReqSent => some (AckSent, [sca])
  | RcvConfReqOk, AckRcvd => some (Opened, [sca])
  | RcvConfReqOk, AckSent => some (AckSent, [sca])
  | RcvConfReqOk, Opened => some (AckSent, [scr, sca])
  | RcvConfReqBad, Closed => some (Closed, [sta])
  | RcvConfReqBad, Stopped => some (ReqSent, [scr])
  | RcvConfReqBad, Closing => some (Closing, [])
  | RcvConfReqBad, Stopping => some (Stopping, [])
  | RcvConfReqBad, ReqSent => some (ReqSent, [])
  | RcvConfReqBad, AckRcvd => some (AckRcvd, [])
  | RcvConfReqBad, AckSent => some (ReqSent, [])
  | RcvConfReqBad, Opened => some (ReqSent, [scr])
  | RcvTermReq, Closed => some (Closed, [sta])
  | RcvTermReq, Stopped => some (Stopped, [sta])
  | RcvTermReq, Closing => some (Closing, [sta])
  | RcvTermReq, Stopping => some (Stopping, [sta])
  | RcvTermReq, Opened => some (Stopping, [sta])
  | RcvTermReq, _ => some (ReqSent, [sta])

/-- A call of `sendLcpPacket`: the packet, and the map its frame is escaped with. -/
structure Sent where
  packet : Bytes
  accm : CharacterMap
deriving DecidableEq, Repr

/-- `LcpFsm`: its state, and what it has sent. -/
structure LcpFsm where
  state : LcpState := .Initial
  sent : List Sent := []
deriving DecidableEq, Repr

/-- The packet of `scr`. -/
def scrPacket : Bytes := [configureRequest, 1, 0, 0xA, 2, 6, 0, 0, 0, 1]

/-- One of the functions of a transition. The event has a packet and a map of its own. -/
def perform (packet : Bytes) (accm : CharacterMap) : Action → Except Fault Sent
  | .scr => .ok ⟨scrPacket, defaultMap⟩
  | .sca => do
    let u ← setCodeVal packet configureAck
    return ⟨u, accm⟩
  | .sta => do
    let u ← setCodeVal packet terminateAck
    return ⟨u, accm⟩

/-- The functions of a transition, one after the other. -/
def performAll (packet : Bytes) (accm : CharacterMap) : List Action → Except Fault (List Sent)
  | [] => .ok []
  | a :: actions => do
    let first ← perform packet accm a
    let rest ← performAll packet accm actions
    return first :: rest

/-- `_machine << e`. The inner error is the text of the exception: the machine is reset. -/
def LcpFsm.feed (m : LcpFsm) (packet : Bytes) (accm : CharacterMap) (e : Event) :
    Except Fault (LcpFsm × Option String) :=
  match transition e m.state with
  | none => .ok ({ m with state := .Initial }, some "Transition is forbidden. Machine is reset.")
  | some (state, actions) => do
    let sent ← performAll packet accm actions
    return ({ state := state, sent := m.sent ++ sent }, none)

/-- `start`: an exception ends it. -/
def LcpFsm.start (m : LcpFsm) : Except Fault LcpFsm := do
  let (m, thrown) ← m.feed [] defaultMap .Open
  if thrown.isSome then return m
  else do
    let (m, _) ← m.feed [] defaultMap .Up
    return m

/-! ## `_handleOptions` -/

/-- The type of the option with the Async-Control-Character-Map. -/
def asyncMap : Octet := 2

/-- The map of a value: the octets 0x7D and 0x7E are always escaped. -/
def escapedMap (newMap : ℕ) : CharacterMap :=
  CharacterMap.set (CharacterMap.set (BitVec.ofNat 256 newMap) escSeq) flagSeq

/-- What is done with an option. -/
def handleOption (accm : CharacterMap) (opt : PppConfOption) : Except Fault CharacterMap :=
  if opt.optType = asyncMap then do
    let newMap ← toU32 opt.optBuf
    return escapedMap newMap
  else .ok accm

/-- `while (optIdx++)`: an exception ends it. -/
def handleLoop (u : Bytes) : ℕ → ℤ → CharacterMap → Except Fault CharacterMap
  | 0, _, _ => .error .diverges
  | fuel + 1, optIdx, accm =>
    if optIdx = 0 then .ok accm
    else do
      let opt ← optionAt u (optIdx + 1)
      match opt with
      | .error _ => return accm
      | .ok opt => do
        let accm ← handleOption accm opt
        handleLoop u fuel (optIdx + 1) accm

/-- `_handleOptions`: every request is found good. -/
def handleOptions (u : Bytes) (accm : CharacterMap) : Except Fault (CharacterMap × Bool) := do
  let accm ← handleLoop u (u.length + 1) 0 accm
  return (accm, true)

/-! ## `receive_request` -/

/-- A Configure-Request: the machine, the map in use for sending, and what is thrown. -/
def configure (m : LcpFsm) (req : Bytes) (accm : CharacterMap) :
    Except Fault (LcpFsm × CharacterMap × Option String) := do
  let (accm, good) ← handleOptions req accm
  if good then do
    let (m, _) ← m.feed req accm .RcvConfReqOk
    return (m, accm, none)
  else do
    let (m, thrown) ← m.feed req accm .RcvConfReqBad
    return (m, accm, thrown)

end ChannelEmulator.Lcp
