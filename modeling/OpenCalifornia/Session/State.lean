import OpenCalifornia.Control.Codec

/-! # The satellite's bonded session: its data

The variables of `session.c` that decide about the link, the reads and the heartbeat, and the
frames that they look at. What is stored of the water and the lighting function is decided by
guards of their own and read by none of this. -/

namespace OpenCalifornia.Session
open Lib Lib.Bits Control Control.Firmware

inductive Link
  | down | connecting | connected | up
  deriving DecidableEq, Repr

inductive Mode
  | hold | quiet | off
  deriving DecidableEq, Repr

def backoffMinMs : ℕ := 1000
def backoffMaxMs : ℕ := 60000
def stableMs : ℕ := 60000
def unitCooldownMs : ℕ := 7000
def encTimeoutMs : ℕ := 15000
def connectTimeoutMs : ℕ := 20000
def waterRereadMs : ℕ := 30000
def heaterRereadMs : ℕ := 60000
def heaterRetryMs : ℕ := 5000
def viewerMs : ℕ := 10000
def inputIdleMs : ℕ := 600000
def restPollDefaultMin : ℕ := 30
def restPollMaxMin : ℕ := 240
def heartbeatStart : ℕ := 0x00100000
def heartbeatPeriodMs : ℕ := 600
def armDelayMs : ℕ := 3000

def waterChar : ℕ := 0x1302
def heaterChar : ℕ := 0x1702
def vehicleChar : ℕ := 0x1004

def codecChars : List (String × ℕ) :=
  [("airheater", 0x1702), ("campingmode", 0x1202), ("cooler", 0x1102), ("energy", 0x1602),
    ("general", 0x1001), ("generalpurposesignals", 0xf001), ("lighting", 0x1502),
    ("livingroomheater", 0x2102), ("roof", 0x1402), ("roofaircondition", 0x2002),
    ("satelliteantenna", 0x1902), ("stairs", 0x1802), ("vehicle", 0x1004), ("water", 0x1302)]

def readFirst : List String :=
  ["energy", "water", "cooler", "campingmode", "vehicle", "lighting", "airheater", "general"]

/-- `build_order`: the home screen's functions, then the rest. -/
def readOrder : List (String × ℕ) :=
  let first := readFirst.flatMap fun f => codecChars.filter fun c => c.1 = f
  first ++ codecChars.filter fun c => c ∉ first

def variantGate : List (String × ℕ) :=
  [("roof", 1), ("satelliteantenna", 2), ("stairs", 2), ("livingroomheater", 2),
    ("roofaircondition", 2), ("energy", 3), ("water", 3), ("airheater", 3), ("cooler", 3)]

def variantHas (function : String) (carVariant : ℤ) : Bool :=
  if carVariant < 0 then true
  else
    let v := if carVariant > 2 then 0 else carVariant.toNat
    match variantGate.find? (·.1 = function) with
    | some (_, mask) => mask >>> v &&& 1 ≠ 0
    | none => true

/-- Who asked for a read. -/
inductive Asker
  | variant
  | pass (idx : ℕ)
  | water
  | heater
  deriving DecidableEq, Repr

/-- What passes between the session and its platform, with what the session knows at that moment: a
connect carries the clock, whether the session rests or is switched off, and whether a probe runs.
`complete` is the platform's end of a read and `notified` a notification, `credit` is what the
session takes a completed read for, and `forget` drops the frames of another unit. -/
inductive Act
  | connect (now : ℕ) (resting : Bool) (probing : Bool)
  | disconnect
  | linkUp
  | linkDown (now : ℕ)
  | discover
  | discovered
  | subscribe (char : ℕ)
  | heartbeat (counter : ℕ)
  | read (asker : Asker) (accepted : Bool)
  | complete (asker : Asker) (status : ℤ) (data : List Byte)
  | notified (char : ℕ) (data : List Byte)
  | credit (asker : Asker) (ok : Bool)
  | passStart (variant : ℤ)
  | passDone
  | forget
  deriving DecidableEq, Repr

/-- One stored frame, and whether it is of the current link. -/
structure Slot where
  frame : Option (List Byte) := none
  live : Bool := false
  deriving DecidableEq

structure State where
  active : Bool := false
  link : Link := .down
  now : ℕ := 0
  connectStarted : ℕ := 0
  connectedAt : ℕ := 0
  upAt : ℕ := 0
  hbOn : Bool := false
  hbCtr : ℕ := 0
  hbNext : ℕ := 0
  hbSince : ℕ := 0
  reconnectPending : Bool := false
  reconnectAt : ℕ := 0
  backoff : ℕ := backoffMinMs
  warming : Bool := false
  warmUntil : ℕ := 0
  reading : Bool := false
  readIdx : ℕ := 0
  warmMs : ℕ := 0
  snapped : Bool := false
  rereading : Bool := false
  variantPending : Bool := false
  vehiclePre : Bool := false
  linkVariant : ℤ := -1
  waterNext : ℕ := 0
  mode : Mode := .hold
  probe : Bool := false
  rest : Bool := false
  restNext : ℕ := 0
  restPollMs : ℕ := restPollDefaultMin * 60000
  viewerAt : ℕ := 0
  inputAt : ℕ := 0
  redial : Bool := false
  restLeft : Bool := false
  hold : Bool := false
  heaterReading : Bool := false
  heaterNext : ℕ := 0
  heaterMs : ℕ := heaterRereadMs
  wasUp : Bool := false
  downAt : ℕ := 0
  slots : ℕ → Slot := fun _ => {}
  unit : String := ""
  /-- What was done since the step began, newest first. -/
  log : List Act := []

/-- An answer of the transport: the code the call returns, and the completion that it already
delivers inside the call. -/
structure Answer (α : Type) where
  rc : ℤ
  inside : Option α := none

/-- What the world answers during one step. -/
structure Env where
  hasBond : Bool
  identity : String
  ctlBusy : Bool
  acOwed : Bool
  connect : ℤ
  discover : Answer ℤ
  heartbeat : Answer ℤ
  variant : Answer (ℤ × List Byte)
  pass : ℕ → Answer (ℤ × List Byte)
  water : Answer (ℤ × List Byte)
  heater : Answer (ℤ × List Byte)

/-- A platform with a bond that takes connects, discoveries and heartbeats and refuses reads. -/
def Env.refusing : Env where
  hasBond := true
  identity := ""
  ctlBusy := false
  acOwed := false
  connect := 0
  discover := ⟨0, none⟩
  heartbeat := ⟨0, none⟩
  variant := ⟨1, none⟩
  pass _ := ⟨1, none⟩
  water := ⟨1, none⟩
  heater := ⟨1, none⟩

def State.act (s : State) (a : Act) : State := { s with log := a :: s.log }

section Stored

variable (s : State)

/-- The value of a field of a frame, -1 without one. -/
def fieldOf (frame : Option (List Byte)) (fn field : String) : ℤ :=
  match frame, codecFuncByName fn with
  | some raw, some f => ((codecDecode f raw).get field).elim (-1) (↑)
  | _, _ => -1

def State.storedField (char : ℕ) (fn field : String) : ℤ :=
  fieldOf (s.slots char).frame fn field

/-- A field of a frame of this link. -/
def State.liveField (char : ℕ) (fn field : String) : ℤ :=
  if (s.slots char).live then s.storedField char fn field else -1

def State.acIgnition : ℤ :=
  let t15 := s.liveField 0x1004 "vehicle" "TerminalOneFive"
  let en := s.liveField 0x1202 "campingmode" "Enable"
  if t15 < 0 ∧ en < 0 then -1 else if t15 > 0 ∨ en > 0 then 1 else 0

def State.restConditions (e : Env) : Bool :=
  let camping := s.storedField 0x1202 "campingmode" "State"
  let shore := s.storedField 0x1602 "energy" "StateLandAfs"
  camping = 0 ∧ shore ≥ 0 ∧ shore ≠ 1 ∧ shore ≠ 2 ∧ s.acIgnition = 0 ∧ ¬ e.acOwed ∧ ¬ s.hold

def State.liveUnitAwake : Bool :=
  let camping := s.liveField 0x1202 "campingmode" "State"
  let shore := s.liveField 0x1602 "energy" "StateLandAfs"
  camping = 1 ∨ shore = 1 ∨ shore = 2

def State.storedVariant : ℤ := s.storedField vehicleChar "vehicle" "CarVariant"

/-- `store`. The guards of the water and the lighting function are left out: the slots of these two
have the last frame that their guard was given. -/
def State.store (char : ℕ) (data : List Byte) : State :=
  { s with slots := Function.update s.slots char ⟨some (data.take frameMax), true⟩ }

/-- `unit_check`: another unit's frames are dropped. -/
def State.unitCheck (e : Env) : State :=
  if e.identity = s.unit then s
  else { s.act .forget with unit := e.identity, slots := fun _ => {} }

end Stored

end OpenCalifornia.Session
