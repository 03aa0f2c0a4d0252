import Mathlib

/-! # The thermostat's data

The words of `calictl.thermostat`: heater states, reason codes, settings, inputs, the session
state and the output of a step. A Python `None` is `none`; temperatures are centi-degrees,
demands milli-levels, times milliseconds. -/

namespace OpenCalifornia.Thermostat

inductive HeaterState
  | off | running | continuous | timerArmed | fault | locked | blocked | unknown
  deriving DecidableEq, Repr

/-- `_FAULTS`. -/
def HeaterState.faulty : HeaterState → Bool
  | .fault | .locked | .blocked => true
  | _ => false

def HeaterState.heating : HeaterState → Bool
  | .running | .continuous => true
  | _ => false

inductive Mode
  | off | auto | degraded | stopping | waiting
  deriving DecidableEq, Repr

/-- The modes in which the thermostat regulates. -/
def Mode.on : Mode → Bool
  | .auto | .degraded => true
  | _ => false

inductive Request
  | auto | off
  deriving DecidableEq, Repr

/-- Why a start is refused (`AUTO_REFUSED_<WHY>`) or blocked. -/
inductive Refusal
  | disabled | notInstalled | fault | noLink | noCamping | ignition | noReference | timerArmed
  | staleHeater | warm
  deriving DecidableEq, Repr

inductive Reason
  | autoOn | autoRefused (why : Refusal) | start | adoptRun | adoptContinuous
  | levelUp | levelDown | hold | targetExceededAtMinLevel | overheat
  | backupSelected | referenceSelected | referenceLost | outsideInactive
  | fault (code : ℤ) | locked | foreignChange | notApplied | startNotConfirmed
  | runEnded | continuousEnded | batteryLow | heaterUnknown | userOff | disabled
  | stopping | stopDropped | waitingForContinuous | nightWaitEnded | holdAtMinLevel
  deriving DecidableEq, Repr

inductive What
  | runtime | level | power | permanent
  deriving DecidableEq, Repr

/-- The value of a command: a number, a switch position, or Python's `None`. -/
inductive Value
  | num (n : ℤ) | on | off | null
  deriving DecidableEq, Repr

def Value.ofLevel : Option ℤ → Value
  | some n => .num n
  | none => .null

structure Cmd where
  what : What
  value : Value
  deriving DecidableEq, Repr

def Cmd.powerOn : Cmd := ⟨.power, .on⟩

/-- `power off` or `permanent off`. -/
def Cmd.isStop (c : Cmd) : Bool :=
  (c.what = .power ∨ c.what = .permanent) ∧ c.value = .off

inductive Result
  | ok | refused | busy | notReady | other (text : String)
  deriving DecidableEq, Repr

/-- The last command of the previous batch the runner attempted, and its result. -/
structure Attempt where
  what : What
  result : Result
  deriving DecidableEq, Repr

structure Cfg where
  periodMs : ℤ
  kp : ℤ
  ki : ℤ
  ka : ℤ
  uOutMax : ℤ
  hyst : ℤ
  minDwellMs : ℤ
  bandHi : ℤ
  hotHoldMs : ℤ
  overheat : ℤ
  minLevel : ℤ
  staleAfterMs : ℤ
  heaterStaleMs : ℤ
  battMinDv : ℤ
  battHoldMs : ℤ
  verifyMs : ℤ
  nightWaitMs : ℤ
  nightConfirmMs : ℤ
  deriving DecidableEq, Repr

def thermoDefaults : Cfg where
  periodMs := 60000
  kp := 1500
  ki := 50
  ka := 100
  uOutMax := 3000
  hyst := 500
  minDwellMs := 300000
  bandHi := 200
  hotHoldMs := 900000
  overheat := 400
  minLevel := 1
  staleAfterMs := 600000
  heaterStaleMs := 180000
  battMinDv := 119
  battHoldMs := 300000
  verifyMs := 10000
  nightWaitMs := 300000
  nightConfirmMs := 30000

/-- The fields of the raw 1702 dict that are read; a missing key is `none`. -/
structure Heater where
  installed : Option ℤ
  heatingLevel : Option ℤ
  errorCode : Option ℤ
  faultTriggerBit : Option ℤ
  permanentOperation : Option ℤ
  normalOperation : Option ℤ
  operationMode : Option ℤ
  deriving DecidableEq, Repr

structure Sensor where
  alias_ : String
  value : Option ℤ
  ageMs : Option ℤ
  deriving DecidableEq, Repr

/-- What the last-known frames say, for `blocked`. -/
structure Known where
  campingOn : Bool
  shoreOn : Bool
  ignitionOn : Option Bool
  deriving DecidableEq, Repr

/-- The inputs of one step. An empty heater dict reads as no heater, hence `none`. -/
structure Input where
  nowMs : ℤ
  enabled : Bool
  request : Option Request
  target : ℤ
  runtimeMin : ℤ
  ref : Option Sensor
  backup : Option Sensor
  out : Option Sensor
  outsideOn : Bool
  heater : Option Heater
  heaterAgeMs : Option ℤ
  linkReady : Bool
  campingOn : Bool
  shoreOn : Bool
  ignitionOn : Option Bool
  batt2Dv : Option ℤ
  cmd : Option Attempt
  night : Bool
  known : Known
  deriving DecidableEq, Repr

inductive Active
  | ref | backup
  deriving DecidableEq, Repr

/-- The controller state. -/
structure Ctl where
  i : ℤ
  lastChangeMs : ℤ
  hotSinceMs : Option ℤ
  u : ℤ
  uOut : Option ℤ
  deriving DecidableEq, Repr

/-- What the heater does, or should do. -/
structure Snap where
  normal : Bool
  permanent : Bool
  level : Option ℤ
  deriving DecidableEq, Repr

def Snap.heating (s : Snap) : Bool := s.normal || s.permanent

/-- `stop_snapshot`: what to stop when the link is back, and why. -/
structure StopSnapshot extends Snap where
  why : Reason
  deriving DecidableEq, Repr

structure Pending where
  what : What
  value : Value
  sinceMs : ℤ
  tries : ℤ
  firstMs : ℤ
  before : Option ℤ
  why : Option Reason
  deriving DecidableEq, Repr

/-- A pending `power on`. -/
def Pending.isStart (p : Pending) : Bool := p.what = .power ∧ p.value = .on

structure State where
  mode : Mode
  active : Active
  ctl : Ctl
  pending : Option Pending
  expect : Option Snap
  battLowSinceMs : Option ℤ
  stopSnapshot : Option StopSnapshot
  lastCtlMs : Option ℤ
  night : Bool
  waitUntilMs : Option ℤ
  contSinceMs : Option ℤ
  deriving DecidableEq, Repr

def initialState : State where
  mode := .off
  active := .ref
  ctl := ⟨0, 0, none, 0, none⟩
  pending := none
  expect := none
  battLowSinceMs := none
  stopSnapshot := none
  lastCtlMs := none
  night := false
  waitUntilMs := none
  contSinceMs := none

inductive End
  | run | none
  deriving DecidableEq, Repr

structure Status where
  heater : HeaterState
  tRef : Option ℤ
  tOut : Option ℤ
  target : ℤ
  level : Option ℤ
  activeAlias : Option String
  outsideActive : Bool
  end_ : End
  blocked : Option Refusal
  waitLeftS : Option ℤ
  night : Bool
  deriving DecidableEq, Repr

structure Out where
  cmds : List Cmd
  reason : Option Reason
  mode : Mode
  status : Status
  deriving DecidableEq, Repr

end OpenCalifornia.Thermostat
