import ChannelEmulator.Framing.Run
import ChannelEmulator.Spec.AosFrame

/-!
# The AOS virtual channel generation and reception

`modules/AOS/modAOS_VC_Gen.cpp`, `modAOS_VC_Rcv.cpp` and the counters of
`AOS_VirtualChannel_Service.cpp`, with the output link connected.
-/

namespace ChannelEmulator.AOS

/-- The settings of a virtual channel. -/
structure Channel where
  scid : ℕ := 0
  vcid : ℕ := 0
  useVCFrameCycle : Bool := false
  layout : Layout := {}
deriving DecidableEq, Repr

namespace Channel

/-- `getSCID`. -/
def getSCID (c : Channel) : ℕ := c.scid &&& 0xFF

/-- `getVCID`. -/
def getVCID (c : Channel) : ℕ := c.vcid &&& 0x3F

/-- `getMCID`. -/
def getMCID (c : Channel) : ℕ := ((1 <<< 8) ||| c.getSCID) &&& 0x3FF

end Channel

/-! ## The counters -/

/-- `_vcFrameCount`, of type `uint64_t`, and `_vcFrameCountCycle`, of type `uint8_t`. -/
structure Counter where
  frameCount : ℕ := 0
  frameCountCycle : ℕ := 0
deriving DecidableEq, Repr

/-- `if (incFrameCount() > maxVCFrameCount)` and what follows, as both services have it. -/
def Counter.inc (useVCFrameCycle : Bool) (s : Counter) : Counter :=
  let s := { s with frameCount := (s.frameCount + 1) % 2 ^ 64 }
  if s.frameCount > maxVCFrameCount then
    { frameCount := 0
      frameCountCycle :=
        if useVCFrameCycle then (s.frameCountCycle + 1) % 2 ^ 8 else s.frameCountCycle }
  else s

/-! ## `modAOS_VC_Gen` -/

/-- The type of a Type-2-Report. -/
def reportType : ℕ := 2

/-- One pass of the loop of `svc` over a unit, where exactly `mru` octets are required. -/
def gen (c : Channel) (mru : ℕ) (s : Counter) (data : Bytes) : Except Fault (Counter × List Bytes) :=
  if data.length ≠ mru then .ok (s, [])
  else do
    let aos ← c.layout.build c.getSCID c.getVCID s.frameCount false c.useVCFrameCycle
      s.frameCountCycle reportType data
    return (s.inc c.useVCFrameCycle, [aos])

/-! ## `modAOS_VC_Rcv` -/

structure Rcv where
  counter : Counter := {}
  frameCountMisses : ℕ := 0
  validFrameCount : ℕ := 0
  badLengthCount : ℕ := 0
  badTFVNCount : ℕ := 0
  badMCIDCount : ℕ := 0
  badGVCIDCount : ℕ := 0
deriving DecidableEq, Repr

/-- `validateFrame` of `AOS_PhysicalChannel_Service`. -/
def validateFrame (s : Rcv) (aos : Bytes) (frameSize : ℕ) : Except Fault (Rcv × Bool) :=
  if aos.length ≠ frameSize then .ok ({ s with badLengthCount := s.badLengthCount + 1 }, false)
  else do
    let tfvn ← getTFVN aos
    if tfvn ≠ 1 then return ({ s with badTFVNCount := s.badTFVNCount + 1 }, false)
    else return (s, true)

/-- The tests ahead of the frame count: the state, whether the frame goes on, and whether it
is valid. With `dropBadFrames` off a bad frame goes on. -/
def check (c : Channel) (frameSize : ℕ) (dropBadFrames : Bool) (s : Rcv) (aos : Bytes) :
    Except Fault (Rcv × Bool × Bool) :=
  if aos.length ≠ frameSize then
    .ok ({ s with badLengthCount := s.badLengthCount + 1 }, false, false)
  else do
    let (s, valid) ← validateFrame s aos frameSize
    if !valid && dropBadFrames then return (s, false, valid)
    else do
      let mcid ← getMCID aos
      let bad := mcid ≠ c.getMCID
      let s := if bad then { s with badMCIDCount := s.badMCIDCount + 1 } else s
      let valid := valid && !decide bad
      if bad && dropBadFrames then return (s, false, valid)
      else do
        let vcid ← getVirtualChannelID aos
        let bad := vcid ≠ c.getVCID
        let s := if bad then { s with badGVCIDCount := s.badGVCIDCount + 1 } else s
        let valid := valid && !decide bad
        if bad && dropBadFrames then return (s, false, valid)
        else do
          let idle ← isIdle aos
          return (s, !idle, valid)

/-- What is done with the frame count of a frame. -/
def countFrame (useVCFrameCycle : Bool) (s : Rcv) (count : ℕ) : Rcv :=
  let s := if count ≠ s.counter.frameCount then
      { s with
        frameCountMisses := s.frameCountMisses + 1
        counter := { s.counter with frameCount := count } }
    else s
  { s with counter := s.counter.inc useVCFrameCycle }

/-- One pass of the loop of `svc` over a frame: the usage flag is set before the tests, and
the data field is sent. -/
def rcv (c : Channel) (frameSize : ℕ) (dropBadFrames : Bool) (s : Rcv) (aos : Bytes) :
    Except Fault (Rcv × List Bytes) := do
  let aos ← setVCFrameCountCycleUsageFlag aos c.useVCFrameCycle
  let (s, goesOn, valid) ← check c frameSize dropBadFrames s aos
  if !goesOn then return (s, [])
  else do
    let s := if valid then { s with validFrameCount := s.validFrameCount + 1 } else s
    let count ← getVCFrameCount aos
    return (countFrame c.useVCFrameCycle s count,
      [(aos.drop c.layout.ptrData).take (c.layout.dataLength aos)])

end ChannelEmulator.AOS
