import FlameSdd.Json
import FlameSdd.SysLib.Bytes
import FlameSdd.SysLib.Program
import Mathlib.Logic.Function.Basic
/-!
# A lens

`controlImpl` drives a lens over a HID-to-SMBus bridge. Its functions are
programs that call the bridge and read and assign the members. All registers
are read through one buffer, `receivedData`, which keeps what it holds when a
read fails.
-/
open SysLib

namespace FlameSdd.LensControl

/-! ## The bridge -/

/-- The calls of the HID-to-SMBus library. -/
inductive Hid where
  | open
  | setSmbusConfig
  | setGpioConfig
  | setTimeouts
  | writeRequest (sendData : List UInt8)
  | readRequest (receiveSize : Nat)
  | forceReadResponse (receiveSize : Nat)
  | getReadResponse
  deriving DecidableEq

/-- The status that a call returns, and the bytes that it reads, if it does. -/
structure Answer where
  retval : Int
  bytes : List UInt8
  deriving DecidableEq

/-- `HID_SMBUS_SUCCESS`. -/
def success : Int := 0

def readTimedOut : Int := 0x12

/-- The size of the buffer given to `HidSmbus_GetReadResponse`. -/
def bufferSize : Nat := 62

/-! ## The members of `controlImpl` -/

/-- The focus and the iris, which have registers and members of the same kind. -/
inductive Axis where
  | focus
  | iris
  deriving DecidableEq

structure AxisMembers where
  minAddr : UInt16
  maxAddr : UInt16
  currentAddr : UInt16
  speedPPS : UInt16

/-- None of the members has a value before it is first assigned, so anything
may stand here when the lens is opened. -/
structure Lens where
  receivedData : Nat → UInt8
  axis : Axis → AxisMembers
  status2 : UInt16

def twoBytes (b0 b1 : UInt8) : UInt16 := b0.toUInt16 <<< 8 ||| b1.toUInt16

/-- `UsbRead2Bytes`. -/
def Lens.read2Bytes (lens : Lens) : UInt16 := twoBytes (lens.receivedData 0) (lens.receivedData 1)

/-- The loop at the end of `UsbRead`. -/
def Lens.copy (lens : Lens) (receiveData : List UInt8) : Lens :=
  { lens with receivedData := fun i => receiveData.getD i (lens.receivedData i) }

def Lens.setAxis (lens : Lens) (a : Axis) (f : AxisMembers → AxisMembers) : Lens :=
  { lens with axis := Function.update lens.axis a (f (lens.axis a)) }

/-! ## Programs -/

/-- What the functions of `controlImpl` do besides computing. -/
inductive Request where
  | hid (call : Hid)
  | copy (receiveData : List UInt8)
  | read2Bytes
  | look
  | assign (f : Lens → Lens)

@[reducible] def Request.Reply : Request → Type
  | .hid _ => Answer
  | .copy _ => Unit
  | .read2Bytes => UInt16
  | .look => Lens
  | .assign _ => Unit

/-- What ends the process in the middle of a function. -/
inductive Stop where
  | divisionByZero
  | exception (e : Exn)
  deriving DecidableEq

abbrev LensM := Program Request Request.Reply Stop

def hid (call : Hid) : LensM Answer := Program.request (Request.hid call)

def copy (receiveData : List UInt8) : LensM Unit := Program.request (Request.copy receiveData)

def usbRead2Bytes : LensM UInt16 := Program.request Request.read2Bytes

def look : LensM Lens := Program.request Request.look

def assign (f : Lens → Lens) : LensM Unit := Program.request (Request.assign f)

/-- A call of which only the status is read. -/
def call (q : Hid) : LensM Int := do
  let a ← hid q
  pure a.retval

/-- `if (retval != HID_SMBUS_SUCCESS) return retval;` and the rest. -/
def ifSuccess (x rest : LensM Int) : LensM Int := do
  let retval ← x
  if retval ≠ success then pure retval else rest

/-! ## USB -/

def sendOffset (segmentOffset : UInt16) : List UInt8 := [(segmentOffset >>> 8).toUInt8, segmentOffset.toUInt8]

/-- The `do` loop of `UsbRead`, with what was read so far. It may go around
`rounds` more times before the bridge says that it timed out. -/
def readResponses (receiveSize : Nat) : Nat → List UInt8 → LensM (Except Int (List UInt8))
  | 0, _ => pure (.error readTimedOut)
  | rounds + 1, receiveData => do
    let a ← hid .getReadResponse
    if a.retval ≠ success then pure (.error a.retval)
    else if (receiveData ++ a.bytes.take bufferSize).length < receiveSize then
      readResponses receiveSize rounds (receiveData ++ a.bytes.take bufferSize)
    else pure (.ok (receiveData ++ a.bytes.take bufferSize))

def usbRead (rounds : Nat) (segmentOffset : UInt16) (receiveSize : Nat) : LensM Int :=
  ifSuccess (call (.writeRequest (sendOffset segmentOffset))) <|
  ifSuccess (call (.readRequest receiveSize)) <|
  ifSuccess (call (.forceReadResponse receiveSize)) do
    match ← readResponses receiveSize rounds [] with
    | .error retval => pure retval
    | .ok receiveData =>
      copy receiveData
      pure success

def usbWrite (segmentOffset writeData : UInt16) : LensM Int :=
  call (.writeRequest (sendOffset segmentOffset ++ sendOffset writeData))

def usbOpen : LensM Int := call .open

def usbSetConfig : LensM Int := do
  let retval ← call .setSmbusConfig
  if retval = success then pure retval else
    let retval ← call .setGpioConfig
    if retval = success then pure retval else
      let retval ← call .setTimeouts
      if retval = success then pure retval else pure retval

/-! ## Registers -/

/-- `DATA_LENGTH`. -/
def dataLength : Nat := 2

def capabilitiesReg : UInt16 := 0x0040
def status1 : UInt16 := 0x0042
def status2Reg : UInt16 := 0x0044

/-- `FOCUS_MASK` and `IRIS_MASK`. -/
def Axis.mask : Axis → UInt16
  | .focus => 0x0004
  | .iris => 0x0008

/-- `FOCUS_POSITION_VAL` and `IRIS_POSITION_VAL`. -/
def Axis.positionVal : Axis → UInt16
  | .focus => 0x2000
  | .iris => 0x3000

def Axis.initialize : Axis → UInt16
  | .focus => 0x2008
  | .iris => 0x3008

def Axis.mechStepMin : Axis → UInt16
  | .focus => 0x2012
  | .iris => 0x3012

def Axis.mechStepMax : Axis → UInt16
  | .focus => 0x2014
  | .iris => 0x3014

def Axis.speedVal : Axis → UInt16
  | .focus => 0x201A
  | .iris => 0x301A

def initRunBit : UInt16 := 0x0001

def initCompleted : UInt16 := 0

/-- The retval of the call, and the capabilities. -/
def capabilitiesRead (rounds : Nat) : LensM (Int × UInt16) := do
  let retval ← usbRead rounds capabilitiesReg dataLength
  let capabilities ← usbRead2Bytes
  pure (retval, capabilities)

def status2ReadSet (rounds : Nat) : LensM Int :=
  ifSuccess (usbRead rounds status2Reg dataLength) do
    let status2 ← usbRead2Bytes
    assign fun lens => { lens with status2 := status2 }
    pure success

def parameterReadSet (rounds : Nat) (a : Axis) : LensM Int :=
  ifSuccess (usbRead rounds a.mechStepMin dataLength) do
    let minAddr ← usbRead2Bytes
    assign fun lens => lens.setAxis a fun m => { m with minAddr := minAddr }
    ifSuccess (usbRead rounds a.mechStepMax dataLength) do
      let maxAddr ← usbRead2Bytes
      assign fun lens => lens.setAxis a fun m => { m with maxAddr := maxAddr }
      ifSuccess (usbRead rounds a.speedVal dataLength) do
        let speedPPS ← usbRead2Bytes
        assign fun lens => lens.setAxis a fun m => { m with speedPPS := speedPPS }
        pure success

def focusParameterReadSet (rounds : Nat) : LensM Int := parameterReadSet rounds .focus
def irisParameterReadSet (rounds : Nat) : LensM Int := parameterReadSet rounds .iris

/-- It assigns what the buffer holds, read or not. -/
def currentAddrReadSet (rounds : Nat) (a : Axis) : LensM Int := do
  let retval ← usbRead rounds a.positionVal dataLength
  let currentAddr ← usbRead2Bytes
  assign fun lens => lens.setAxis a fun m => { m with currentAddr := currentAddr }
  pure retval

def focusCurrentAddrReadSet (rounds : Nat) : LensM Int := currentAddrReadSet rounds .focus
def irisCurrentAddrReadSet (rounds : Nat) : LensM Int := currentAddrReadSet rounds .iris

/-! ## Waiting -/

/-- `LOWHI_ERROR` and `HILOW_ERROR`. -/
def lowHiError : Int := 0x50
def hiLowError : Int := 0x51

/-- `LOW_HIGH_WAIT`. -/
def lowHighWait : Nat := 20

/-- A loop of `StatusWait`, which reads the status at most as many times as are
left, and goes on as long as `again` says so. -/
def statusLoop (rounds : Nat) (segmentOffset : UInt16) (again : UInt16 → Bool) (error : Int) : Nat → LensM Int
  | 0 => pure error
  | left + 1 =>
    ifSuccess (usbRead rounds segmentOffset dataLength) do
      let readStatus ← usbRead2Bytes
      if left = 0 then pure error
      else if again readStatus then statusLoop rounds segmentOffset again error left
      else pure success

def statusWait (rounds : Nat) (segmentOffset statusMask : UInt16) (waitTime : Nat) : LensM Int :=
  ifSuccess (statusLoop rounds segmentOffset (fun readStatus => readStatus &&& statusMask ≠ statusMask) lowHiError
    lowHighWait) <|
  statusLoop rounds segmentOffset (fun readStatus => readStatus &&& statusMask ≠ 0) hiLowError waitTime

/-- `WAIT_MAG` and `MINIMUM_WAIT`. -/
def waitMag : Nat := 1100
def minimumWait : Nat := 2000

def waitCalc (moveValue speedPPS : UInt16) : LensM Nat :=
  if speedPPS = 0 then .stop .divisionByZero
  else pure (max minimumWait (waitMag * moveValue.toNat / speedPPS.toNat))

/-! ## Operations on the device -/

def axisInit (rounds : Nat) (a : Axis) : LensM Int := do
  let lens ← look
  let waitTime ← waitCalc ((lens.axis a).maxAddr - (lens.axis a).minAddr) (lens.axis a).speedPPS
  ifSuccess (usbWrite a.initialize initRunBit) <|
    ifSuccess (statusWait rounds status1 a.mask waitTime) <|
    ifSuccess (usbRead rounds a.positionVal dataLength) do
      let currentAddr ← usbRead2Bytes
      assign fun lens => lens.setAxis a fun m => { m with currentAddr := currentAddr }
      let _ ← status2ReadSet rounds
      pure success

def focusInit (rounds : Nat) : LensM Int := axisInit rounds .focus
def irisInit (rounds : Nat) : LensM Int := axisInit rounds .iris

/-- The retval, and `addrData` as the call leaves it. -/
def deviceMove (rounds : Nat) (segmentOffset addrData mask : UInt16) (waitTime : Nat) : LensM (Int × UInt16) := do
  let retval ← usbWrite segmentOffset addrData
  if retval = success then
    let retval ← statusWait rounds status1 mask waitTime
    if retval = success then
      let retval ← usbRead rounds segmentOffset dataLength
      if retval ≠ success then pure (retval, addrData)
      else
        let addrData ← usbRead2Bytes
        pure (retval, addrData)
    else pure (retval, addrData)
  else pure (retval, addrData)

/-- `abs(x - y)`, as an `unsigned short`. -/
def distance (x y : UInt16) : UInt16 := UInt16.ofNat (Int.natAbs (x.toNat - y.toNat))

def axisMove (rounds : Nat) (a : Axis) (addrData : UInt16) : LensM Int := do
  let lens ← look
  let waitTime ← waitCalc (distance addrData (lens.axis a).currentAddr) (lens.axis a).speedPPS
  let (retval, addrData) ← deviceMove rounds a.positionVal addrData a.mask waitTime
  if retval = success then
    assign fun lens => lens.setAxis a fun m => { m with currentAddr := addrData }
    pure retval
  else pure retval

def focusMove (rounds : Nat) (addrData : UInt16) : LensM Int := axisMove rounds .focus addrData
def irisMove (rounds : Nat) (addrData : UInt16) : LensM Int := axisMove rounds .iris addrData

/-- The part of `open` for one axis. -/
def setUpAxis (rounds : Nat) (a : Axis) (capabilities : UInt16) : LensM Unit :=
  if capabilities &&& a.mask ≠ 0 then do
    let _ ← parameterReadSet rounds a
    let lens ← look
    if lens.status2 &&& a.mask = initCompleted then
      let _ ← currentAddrReadSet rounds a
      pure ()
    else pure ()
  else pure ()

/-- `controlImpl::open`. -/
def openLens (rounds : Nat) : LensM Bool := do
  let retval ← usbOpen
  if retval ≠ success then pure false else
    let retval ← usbSetConfig
    if retval ≠ success then pure false else
      let (_, capabilities) ← capabilitiesRead rounds
      let _ ← status2ReadSet rounds
      setUpAxis rounds .focus capabilities
      setUpAxis rounds .iris capabilities
      pure true

def readFocusPosition (rounds : Nat) : LensM Int := focusCurrentAddrReadSet rounds

/-! ## Commands -/

/-- A cast to `unsigned short`. -/
def toUShort (value : Int) : UInt16 := UInt16.ofNat (value % 2 ^ 16).toNat

/-- `std::isnan` of an `int`, which it takes for a `double`. -/
def isnan (_ : Int) : Bool := false

/-- `controlImpl::focus_move`. -/
def Command.focusMove (rounds : Nat) (value : Int) : LensM Bool :=
  if isnan value && decide (value ≥ 2 ^ 16 - 1) then pure false else do
    let retval ← LensControl.focusMove rounds (toUShort value)
    if retval = success then pure true else pure false

/-- `SATURATE`. -/
def saturate (x lo hi : Int) : Int := if x < lo then lo else if x > hi then hi else x

/-- `function_code`. -/
def functionCode : List (Bytes × Nat) :=
  [(ascii "focus_initialize", 1), (ascii "iris_initialize", 2), (ascii "move_focus", 3), (ascii "iris_move", 4)]

/-- A value that `get` may refuse, which ends the process on this thread. -/
def orStop {α : Type} (x : Except Exn α) (f : α → LensM Unit) : LensM Unit :=
  match x with
  | .ok a => f a
  | .error e => .stop (.exception e)

/-- `controlImpl::execute`. A member that is missing is read as null. -/
def execute (rounds : Nat) (api : Json) : LensM Unit :=
  if api.contains "function" then
    orStop (api.index "function" >>= Json.getString) fun functionName =>
      match functionCode.lookup functionName with
      | some 1 => do
        let _ ← focusInit rounds
        pure ()
      | some 2 => do
        let _ ← irisInit rounds
        pure ()
      | some 3 =>
        orStop (api.index "value" >>= Json.getInt) fun value => do
          let _ ← focusMove rounds (toUShort (saturate value 0 9091))
          pure ()
      | some 4 =>
        orStop (api.index "value" >>= Json.getInt) fun value => do
          let _ ← irisMove rounds (toUShort (saturate value 0 12636))
          pure ()
      | _ => pure ()
  else pure ()

end FlameSdd.LensControl
