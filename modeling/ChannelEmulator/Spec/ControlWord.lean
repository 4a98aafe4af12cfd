import ChannelEmulator.Spec.NetworkData

/-!
# The communications link control word

`lib/TC_Comm_Link_Control_Word.hpp`.
-/

namespace ChannelEmulator.ControlWord

/-! ## Octets -/

/-- `_ptrOctet`. -/
def ptrOctet (octetNum : ℕ) : Except Fault ℕ :=
  if 3 < octetNum then .error (.valueTooLarge (valueTooLargeMsg "Octet number" octetNum 3))
  else .ok octetNum

/-- `_getOctet`. -/
def getOctet (u : Bytes) (octetNum : ℕ) : Except Fault Octet := do
  let ptr ← ptrOctet octetNum
  octetAt u ptr

/-- `_setOctet`. -/
def setOctet (u : Bytes) (octetNum : ℕ) (newVal : Octet) : Except Fault Bytes := do
  let ptr ← ptrOctet octetNum
  storeAt u ptr [newVal]

/-- `_getOctetBits`. -/
def getOctetBits (u : Bytes) (octetNum msb bits : ℕ) : Except Fault ℕ := do
  let lsb := msb + bits - 1
  let andVal := (0xFF >>> (8 - bits)) <<< (7 - lsb)
  let octet ← getOctet u octetNum
  return (octet.toNat &&& andVal) >>> (7 - lsb)

/-- `_setOctetBits`. The mask is negated with `!`, which makes a truth value of it. -/
def setOctetBits (u : Bytes) (octetNum msb bits val : ℕ) : Except Fault Bytes :=
  let maxVal := 0xFF >>> (8 - bits)
  if maxVal < val then .error (.valueTooLarge "octet_num is greater than 3")
  else do
    let lsb := msb + bits - 1
    let andVal := if maxVal <<< (7 - lsb) = 0 then 1 else 0
    let octet ← getOctet u octetNum
    setOctet u octetNum (.ofNat ((octet.toNat &&& andVal) ||| (val <<< (7 - lsb))))

/-! ## Fields -/

def getControlWordType (u : Bytes) : Except Fault ℕ := getOctetBits u 0 0 1
def setControlWordType (u : Bytes) (newVal : ℕ) : Except Fault Bytes := setOctetBits u 0 0 1 newVal

def getCLCWVersionNumber (u : Bytes) : Except Fault ℕ := getOctetBits u 0 1 2
def setCLCWVersionNumber (u : Bytes) (newVal : ℕ) : Except Fault Bytes := setOctetBits u 0 1 2 newVal

def getStatusField (u : Bytes) : Except Fault ℕ := getOctetBits u 0 3 3
def setStatusField (u : Bytes) (newVal : ℕ) : Except Fault Bytes := setOctetBits u 0 3 3 newVal

def getCOPInEffect (u : Bytes) : Except Fault ℕ := getOctetBits u 0 6 2
def setCOPInEffect (u : Bytes) (newVal : ℕ) : Except Fault Bytes := setOctetBits u 0 6 2 newVal

def getVirtualChannelIdentifier (u : Bytes) : Except Fault ℕ := getOctetBits u 1 0 6
def setVirtualChannelIdentifier (u : Bytes) (newVal : ℕ) : Except Fault Bytes :=
  setOctetBits u 1 0 6 newVal

def getNoRFAvailFlag (u : Bytes) : Except Fault ℕ := getOctetBits u 2 0 1
def setNoRFAvailFlag (u : Bytes) (newVal : ℕ) : Except Fault Bytes := setOctetBits u 2 0 1 newVal

def getNoBitLockFlag (u : Bytes) : Except Fault ℕ := getOctetBits u 2 1 1
def setNoBitLockFlag (u : Bytes) (newVal : ℕ) : Except Fault Bytes := setOctetBits u 2 1 1 newVal

def getLockoutFlag (u : Bytes) : Except Fault ℕ := getOctetBits u 2 2 1
def setLockoutFlag (u : Bytes) (newVal : ℕ) : Except Fault Bytes := setOctetBits u 2 2 1 newVal

def getWaitFlag (u : Bytes) : Except Fault ℕ := getOctetBits u 2 3 1
def setWaitFlag (u : Bytes) (newVal : ℕ) : Except Fault Bytes := setOctetBits u 2 3 1 newVal

def getRetransmitFlag (u : Bytes) : Except Fault ℕ := getOctetBits u 2 4 1
def setRetransmitFlag (u : Bytes) (newVal : ℕ) : Except Fault Bytes := setOctetBits u 2 4 1 newVal

def getFARMBCounter (u : Bytes) : Except Fault ℕ := getOctetBits u 2 5 2
def setFARMBCounter (u : Bytes) (newVal : ℕ) : Except Fault Bytes := setOctetBits u 2 5 2 newVal

def getReportValue (u : Bytes) : Except Fault ℕ := do
  let octet ← getOctet u 3
  return octet.toNat

def setReportValue (u : Bytes) (newVal : ℕ) : Except Fault Bytes := setOctet u 3 (.ofNat newVal)

/-! ## Runs of setters -/

inductive Field
  | controlWordType
  | clcwVersionNumber
  | statusField
  | copInEffect
  | virtualChannelIdentifier
  | noRFAvailFlag
  | noBitLockFlag
  | lockoutFlag
  | waitFlag
  | retransmitFlag
  | farmBCounter
  | reportValue
deriving DecidableEq, Repr

namespace Field

def all : List Field :=
  [controlWordType, clcwVersionNumber, statusField, copInEffect, virtualChannelIdentifier, noRFAvailFlag,
    noBitLockFlag, lockoutFlag, waitFlag, retransmitFlag, farmBCounter, reportValue]

def get : Field → Bytes → Except Fault ℕ
  | controlWordType => getControlWordType
  | clcwVersionNumber => getCLCWVersionNumber
  | statusField => getStatusField
  | copInEffect => getCOPInEffect
  | virtualChannelIdentifier => getVirtualChannelIdentifier
  | noRFAvailFlag => getNoRFAvailFlag
  | noBitLockFlag => getNoBitLockFlag
  | lockoutFlag => getLockoutFlag
  | waitFlag => getWaitFlag
  | retransmitFlag => getRetransmitFlag
  | farmBCounter => getFARMBCounter
  | reportValue => getReportValue

def set : Field → Bytes → ℕ → Except Fault Bytes
  | controlWordType => setControlWordType
  | clcwVersionNumber => setCLCWVersionNumber
  | statusField => setStatusField
  | copInEffect => setCOPInEffect
  | virtualChannelIdentifier => setVirtualChannelIdentifier
  | noRFAvailFlag => setNoRFAvailFlag
  | noBitLockFlag => setNoBitLockFlag
  | lockoutFlag => setLockoutFlag
  | waitFlag => setWaitFlag
  | retransmitFlag => setRetransmitFlag
  | farmBCounter => setFARMBCounter
  | reportValue => setReportValue

/-- The octet of a field. -/
def octet : Field → ℕ
  | controlWordType | clcwVersionNumber | statusField | copInEffect => 0
  | virtualChannelIdentifier => 1
  | noRFAvailFlag | noBitLockFlag | lockoutFlag | waitFlag | retransmitFlag | farmBCounter => 2
  | reportValue => 3

/-- The first bit of a field in its octet, the most significant being 0. -/
def msb : Field → ℕ
  | controlWordType => 0
  | clcwVersionNumber => 1
  | statusField => 3
  | copInEffect => 6
  | virtualChannelIdentifier => 0
  | noRFAvailFlag => 0
  | noBitLockFlag => 1
  | lockoutFlag => 2
  | waitFlag => 3
  | retransmitFlag => 4
  | farmBCounter => 5
  | reportValue => 0

/-- The size of a field in bits. -/
def bits : Field → ℕ
  | controlWordType | noRFAvailFlag | noBitLockFlag | lockoutFlag | waitFlag | retransmitFlag => 1
  | clcwVersionNumber | copInEffect | farmBCounter => 2
  | statusField => 3
  | virtualChannelIdentifier => 6
  | reportValue => 8

end Field

/-- Setters called one after the other. -/
def setAll : Bytes → List (Field × ℕ) → Except Fault Bytes
  | u, [] => .ok u
  | u, (f, v) :: sets => do
    let u ← f.set u v
    setAll u sets

end ChannelEmulator.ControlWord
