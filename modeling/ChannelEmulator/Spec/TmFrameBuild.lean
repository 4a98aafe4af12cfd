import ChannelEmulator.Spec.AccessChain

/-!
# Building a TM transfer frame

`build` of `lib/TM_Transfer_Frame.cpp`, with its optional units.
-/

namespace ChannelEmulator.TM

/-- The arguments of `build`, besides the identifiers, which are those of the channel. A unit that is not
given is a null pointer. -/
structure BuildArgs where
  mcFrameCount : Octet
  vcFrameCount : Octet
  data : Option Bytes := none
  doCRC : Bool := false
  firstHeaderPointer : ℕ := 0
  fshData : Option Bytes := none
  clcw : Option Bytes := none
  ocfData : Option Bytes := none
deriving DecidableEq, Repr

namespace Channel

variable (c : Channel)

/-- The data field of a frame, where data is given. -/
def storeData (u : Bytes) : Option Bytes → Except Fault Bytes
  | none => .ok u
  | some data => c.setData u data

/-- The secondary header of a frame that has one, where data is given for it. -/
def storeSecondaryHeader (u : Bytes) : Option Bytes → Except Fault Bytes
  | none => .ok u
  | some fshData => if 0 < c.fshSize then c.setSecondaryHeaderData u fshData else .ok u

/-- The operational control field of a frame that has one: a link control word goes ahead of other data. -/
def storeReport (u : Bytes) (clcw ocfData : Option Bytes) : Except Fault Bytes :=
  if c.useOperationalControl then
    match clcw, ocfData with
    | some clcw, _ => c.setCLCW u clcw
    | none, some ocfData => do
      let (u, thrown) ← c.setType2ReportData u ocfData
      match thrown with
      | none => return u
      | some msg => .error (.malformedPayload msg)
    | none, none => .ok u
  else .ok u

/-- `build`. -/
def build (a : BuildArgs) : Except Fault Bytes := do
  let u ← initializeFrame c (a.data.getD []).length a.mcFrameCount.toNat a.vcFrameCount.toNat
  let u ← c.storeData u a.data
  let u ← setFirstHeaderPointer u a.firstHeaderPointer
  let u ← c.storeSecondaryHeader u a.fshData
  let u ← c.storeReport u a.clcw a.ocfData
  if a.doCRC && c.useFrameErrorControl then c.initializeCRC u else .ok u

end Channel

end ChannelEmulator.TM
