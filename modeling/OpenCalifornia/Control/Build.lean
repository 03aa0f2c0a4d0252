import Mathlib
import OpenCalifornia.Control.Semantics

/-! # Control frames and preconditions

`control.py` for the five functions the satellite may write: the builders, the refusals of
`command_precondition`, and the writes of one command in the order of `device.actuate`. -/

namespace OpenCalifornia.Control
open Lib Lib.Bits Lib.Text

def sentinel : ℤ := 3

def lightUnchanged : ℤ := 14

def lightMaxSet : ℤ := 11

def lightProfileDoorContact : ℤ := 8

def lightCommit : List Byte :=
  [0x0e, 0, 0, 0, 0, 0, 0, 0, 0xee, 0xee, 0xee, 0xee, 0xee, 0xee, 0xee, 0xee]

/-- A naive local time: the day since 1970, the second of the day and the microsecond. -/
structure DateTime where
  day : ℤ
  second : ℕ
  micro : ℕ
  second_lt : second < 86400
  micro_lt : micro < 1000000

/-- The day of `datetime.max`. -/
def maxDay : ℤ := 2932896

/-- `calendar.timegm`. -/
def DateTime.epoch (t : DateTime) : ℤ := t.day * 86400 + t.second

/-- The time has passed today, or it is exactly that time. -/
def DateTime.past (now : DateTime) (hour minute : ℕ) : Bool :=
  hour * 3600 + minute * 60 < now.second ∨ hour * 3600 + minute * 60 = now.second ∧ 0 ≤ now.micro

def nextWakeupEpoch (hour minute : ℕ) (now : DateTime) : Py ℤ :=
  if now.past hour minute then
    if now.day + 1 ≤ maxDay then .ok ((now.day + 1) * 86400 + hour * 3600 + minute * 60)
    else .error .overflowError
  else .ok (now.day * 86400 + hour * 3600 + minute * 60)

def wakeupDefault : Wakeup where
  hour := 0
  minute := 0
  colour := 1
  areas := [1]
  brightness := 0
  ramp := 0
  enabled := false

def wakeupLightValue (c : Wakeup) : ℕ :=
  c.colour <<< 12 ||| (c.areas.map fun a => 1 <<< (a - 1)).sum <<< 8 ||| c.brightness <<< 4 |||
    (c.ramp / 10) <<< 1 ||| c.enabled.toNat

/-- What the words of a wake-up request have set so far. -/
structure Words where
  hour : ℕ
  minute : ℕ
  enabled : Bool
  timed : Bool
  pos : List Text

def wakeupWord (w : Words) (tok : Text) : Py Words :=
  if lower tok ∈ ["on".toList, "off".toList] then
    .ok { w with enabled := lower tok = "on".toList }
  else if ':' ∈ tok then do
    let hm ← hhmm tok
    .ok { w with hour := hm.1, minute := hm.2, timed := true }
  else .ok { w with pos := w.pos ++ [tok] }

/-- `sorted` of a set. -/
def sortedSet (l : List ℤ) : List ℤ := List.insertionSort (· ≤ ·) l.dedup

def wakeupAreas (word : Text) : Py (List ℕ) := do
  let areas ← (word.splitOn ',').mapM fun a => intRange a 1 4 "wake-up area"
  .ok ((sortedSet areas).map Int.toNat)

def wakeupRamp (word : Text) : Py ℕ := do
  let ramp ← int word
  if ramp ∈ [0, 10, 20, 30] then .ok ramp.toNat else .error (.valueError (.wakeupRamp word))

/-- The positionals: areas, brightness and ramp. -/
def wakeupPositionals (c : Wakeup) (pos : List Text) : Py Wakeup :=
  match pos with
  | [] => .ok c
  | a :: pos => do
    let areas ← wakeupAreas a
    match pos with
    | [] => .ok { c with areas }
    | b :: pos => do
      let brightness ← intRange b 0 10 "wake-up brightness"
      match pos with
      | [] => .ok { c with areas, brightness := brightness.toNat }
      | r :: _ => do
        let ramp ← wakeupRamp r
        .ok { c with areas, brightness := brightness.toNat, ramp }

def wakeupRequest (value : Text) (last : Dict ℕ) : Py Wakeup :=
  let cur := wakeupConfig (lightingConfig last)
  let tokens := split value
  let c := cur.getD wakeupDefault
  if tokens = [] then .error (.valueError .wakeupNeeds)
  else do
    let w ← tokens.foldlM wakeupWord ⟨c.hour, c.minute, cur.any (·.enabled), false, []⟩
    if cur = none ∧ ¬ w.timed then .error (.valueError .wakeupTimeUnknown)
    else if 3 < w.pos.length then .error (.valueError (.wakeupTakes value))
    else
      wakeupPositionals { c with hour := w.hour, minute := w.minute, enabled := w.enabled } w.pos

abbrev Builder := String → Text → Dict ℕ → Py (Option (List Byte))

/-- `protocol.encode` at the pinned length of the function. -/
def encodeFor (func : Function) (values : Dict ℤ) : Py (Option (List Byte)) := do
  let frame ← encode func values ((controlFrameBytes.get func.name).getD 0)
  .ok (some frame)

def campingValues (changes : Dict ℤ) : Dict ℤ :=
  Dict.update [("State", sentinel), ("UsbCharger", sentinel), ("InteriorLight", sentinel),
    ("OutsideLight", sentinel)] changes

/-- `_camping`. The lights are inverted. -/
def buildCamping : Builder := fun what value _ => do
  let on ← truthy value
  if what = "lights" then
    encodeFor campingmode (campingValues
      [("InteriorLight", if on then 0 else 1), ("OutsideLight", if on then 0 else 1)])
  else if what = "usb" then
    encodeFor campingmode (campingValues [("UsbCharger", if on then 1 else 0)])
  else if what = "master" then
    encodeFor campingmode (campingValues [("State", if on then 1 else 0)])
  else .ok none

def energyModes : List (Text × ℤ) :=
  [("normal".toList, 0), ("max_charge".toList, 1), ("eco".toList, 2)]

/-- `_energy`. -/
def buildEnergy : Builder := fun what value _ =>
  if what ≠ "mode" then .ok none
  else
    match energyModes.lookup (key value) with
    | none => .ok none
    | some m => encodeFor energy [("EnergyModeSet", m), ("DisplayRefresh", 0)]

/-- `_cooler_neutral`: every field at its dictionary default, which the unit leaves unchanged. -/
def coolerNeutral : Dict ℤ :=
  cooler.controlFields.filterMap fun f => f.default.map fun v => (f.name, v)

/-- `_cooler_values`: the current state and schedule carried over. -/
def coolerValues (state : Dict ℕ) (changes : Dict ℤ) : Dict ℤ :=
  let st (k : String) (d : ℕ) : ℤ := (state.get k).getD d
  Dict.update [("State", st "State" 1), ("Mode", st "Mode" 4), ("Level", st "Level" 3),
    ("TimerStart", 3), ("TimerCancel", 3), ("NightTimerSet", st "NightTimerSet" 0),
    ("NightTimerHourOn", st "NightTimerHourOn" 0),
    ("NightTimerHourOff", st "NightTimerHourOff" 0), ("TimerHour", st "TimerHourSet" 0),
    ("TimerMin", st "TimerMinSet" 0)] changes

def coolerModes : List (Text × ℤ) :=
  [("normal".toList, 0), ("quiet".toList, 2), ("timer_quiet".toList, 4)]

def coolerNight (what : String) : String :=
  if what = "night_on" then "NightTimerHourOn" else "NightTimerHourOff"

def encodeCooler (changes : Dict ℤ) : Py (Option (List Byte)) :=
  encodeFor cooler (Dict.update coolerNeutral changes)

/-- `_cooler`. -/
def buildCooler : Builder := fun what value last =>
  if what = "power" then do
    let on ← truthy value
    encodeCooler [("State", if on then 1 else 0)]
  else if what = "level" then do
    let lvl ← intRange value 1 5 "cooler level"
    encodeCooler [("Level", lvl)]
  else if what = "mode" then
    match coolerModes.lookup (key value) with
    | none => .ok none
    | some m => encodeCooler [("Mode", m)]
  else if what = "timer_set" then do
    let hm ← hhmm value
    encodeCooler [("TimerHour", hm.1), ("TimerMin", hm.2)]
  else if what = "timer_start" then encodeCooler [("TimerStart", 1)]
  else if what = "timer_cancel" then encodeCooler [("TimerCancel", 1)]
  else if what = "night_on" ∨ what = "night_off" then do
    let hr ← intRange value 0 23 "night timer hour"
    if last = [] then .error (.commandError .coolerUnknown)
    else encodeFor cooler (coolerValues last [(coolerNight what, hr)])
  else .ok none

/-- `_airheater_values`: nothing is carried from the state. -/
def airheaterValues (changes : Dict ℤ) : Dict ℤ :=
  Dict.update [("NormalOperationRequest", sentinel), ("PermanentOperationRequest", sentinel),
    ("PermanentOperationConfirmation", sentinel), ("AirDistribution", 0),
    ("OperationModeAirHeater", 7), ("HeatingLevel", 11), ("OperationModeCombined", 0),
    ("RunningTime", 127), ("TimerHour", 31), ("TimerMin", 63)] changes

/-- `_airheater`. -/
def buildAirheater : Builder := fun what value _ =>
  if what = "power" then do
    let on ← truthy value
    encodeFor airheater (airheaterValues [("NormalOperationRequest", if on then 1 else 0)])
  else if what = "level" then do
    let lvl ← intRange value 1 10 "airheater HeatingLevel (10=HI)"
    encodeFor airheater (airheaterValues [("HeatingLevel", lvl)])
  else if what = "runtime" then do
    let rt ← intRange value 10 120 "airheater runtime (minutes)"
    encodeFor airheater (airheaterValues [("RunningTime", rt)])
  else if what = "timer" then do
    let hm ← hhmm value
    encodeFor airheater (airheaterValues [("TimerHour", hm.1), ("TimerMin", hm.2)])
  else if what = "timer_start" then
    encodeFor airheater (airheaterValues
      [("OperationModeAirHeater", 3), ("OperationModeCombined", 1)])
  else if what = "timer_cancel" then
    encodeFor airheater (airheaterValues [("OperationModeAirHeater", 0)])
  else if what = "permanent" then
    if key value ∉ offWords then .error (.valueError .permanentOff)
    else encodeFor airheater (airheaterValues [("PermanentOperationRequest", 0)])
  else .ok none

def lzones : List (String × ℕ) :=
  [("One", 1), ("Two", 2), ("Three", 3), ("Four", 4), ("Five", 5), ("Six", 6), ("Seven", 7),
    ("Eight", 8), ("Nine", 9), ("OneZero", 10), ("OneOne", 11), ("OneTwo", 12),
    ("OneThree", 13), ("OneFour", 14), ("OneFive", 15), ("OneSix", 16)]

def realLightZones : List ℕ := [1, 2, 3, 4, 5, 6, 7, 8, 9, 12]

def realZones : List String :=
  (lzones.filter fun z => z.2 ∈ realLightZones).map fun z => "BrightnessL" ++ z.1

def zoneFields : List String :=
  (lighting.controlFields.map (·.name)).filter fun z =>
    "BrightnessL".toList.isPrefixOf z.toList

def allZones (b : ℤ) : Dict ℤ := zoneFields.map fun z => (z, b)

def allRealZones (b : ℤ) : Dict ℤ :=
  zoneFields.map fun z => (z, if z ∈ realZones then b else lightUnchanged)

/-- `_saved_zones`. -/
def savedZone (last : Dict ℕ) (z : String) : ℤ :=
  match last.get z with
  | some x => if z ∈ realZones ∧ (x : ℤ) ≤ lightMaxSet then x else lightUnchanged
  | none => lightUnchanged

def savedZones (last : Dict ℕ) : Dict ℤ := zoneFields.map fun z => (z, savedZone last z)

def lightColors : List (Text × ℤ) :=
  [("warm-white".toList, 1), ("blood-orange".toList, 2), ("amber".toList, 3),
    ("pistachio".toList, 4), ("peppermint".toList, 5), ("mint".toList, 6), ("azure".toList, 7),
    ("dark-blue".toList, 8), ("red".toList, 9), ("salmon".toList, 10)]

def lightZones : Dict String :=
  [("reading-1", "BrightnessLTwo"), ("reading-2", "BrightnessLOne"),
    ("reading-3", "BrightnessLFour"), ("kitchen", "BrightnessLSeven"),
    ("roof-ambient", "BrightnessLEight"), ("outside-rear", "BrightnessLThree"),
    ("kitchen-ambient", "BrightnessLFive"), ("kitchen-cabinet", "BrightnessLSix"),
    ("roof-reading", "BrightnessLNine"), ("entrance", "BrightnessLOneTwo")]

/-- `.replace("_", "-")`. -/
def dashed (s : Text) : Text := s.map fun c => if c = '_' then '-' else c

def saveProfileArgs (value : Text) : Py (ℤ × Option ℤ) :=
  match split value with
  | [t] => do
    let n ← intRange t 1 7 "save_profile favorite"
    .ok (n, none)
  | [t, colour] => do
    let n ← intRange t 1 7 "save_profile favorite"
    match lightColors.lookup (dashed (lower colour)) with
    | none => .error (.valueError (.unknownColour colour))
    | some idx => .ok (n, some idx)
  | _ => .error (.valueError (.saveProfile value))

def lightFrame (pn mode timestamp lightValue : ℤ) (zones : Dict ℤ) : Py (Option (List Byte)) :=
  encodeFor lighting (Dict.update [("ProfileNumber", pn), ("Mode", mode),
    ("Timestamp", timestamp), ("LightValue", lightValue)] zones)

/-- The settable brightness `_b`. -/
def brightness (value : Text) : Py ℤ := do
  let b ← int value
  if 0 ≤ b ∧ b ≤ lightMaxSet then .ok b else .error (.valueError (.brightness value))

/-- `_lighting`. -/
def buildLighting (now : DateTime) : Builder := fun what value last =>
  if what = "profile" then do
    let n ← intRange value 0 13 "lighting profile"
    if n = lightProfileDoorContact then .error (.valueError .profileEight)
    else lightFrame n 16 0 0 (allZones lightUnchanged)
  else if what = "save_profile" then do
    let args ← saveProfileArgs value
    lightFrame args.1 4 0 0 (savedZones last)
  else if what = "door_contact" then do
    let on ← truthy value
    lightFrame lightProfileDoorContact 16 0 (if on then 1 else 0) (allZones lightUnchanged)
  else if what = "wakeup" then do
    let c ← wakeupRequest value last
    let ts ← nextWakeupEpoch c.hour c.minute now
    lightFrame lightUnchanged 20 ts (wakeupLightValue c) (allZones lightUnchanged)
  else if what = "power" then do
    let on ← truthy value
    lightFrame (if on then 12 else 0) 16 0 0 (allZones lightUnchanged)
  else if what = "all" ∨ what = "brightness" then do
    let b ← brightness value
    lightFrame 9 4 0 0 (allRealZones b)
  else if what = "color" then .error (.valueError .colorRetired)
  else
    let field := (lightZones.get what).getD what
    if field ∉ zoneFields then .error (.valueError (.unknownControl what))
    else do
      let b ← brightness value
      lightFrame 9 4 0 0 (Dict.update (allZones lightUnchanged) [(field, b)])

/-- Every `ValueError` of a builder is the operator's input error. -/
def asCommandError {α : Type} (m : Py α) : Py α :=
  match m with
  | .error (.valueError why) => .error (.commandError why)
  | m => m

def builder (now : DateTime) (fn : String) : Option Builder :=
  if fn = "campingmode" then some buildCamping
  else if fn = "cooler" then some buildCooler
  else if fn = "lighting" then some (buildLighting now)
  else if fn = "airheater" then some buildAirheater
  else if fn = "energy" then some buildEnergy
  else none

def build (now : DateTime) (fn what : String) (value : Text) (last : Dict ℕ) :
    Py (Option (List Byte)) :=
  match builder now fn with
  | none => .ok none
  | some b => asCommandError (b what value last)

def commitFor (fn : String) : Option (List Byte) :=
  if fn = "lighting" then some lightCommit else none

def prefaceFor (fn what : String) (value : Text) (last : Dict ℕ) : Py (Option (List Byte)) :=
  if fn ≠ "lighting" ∨ what ≠ "save_profile" then .ok none
  else do
    let args ← saveProfileArgs value
    match args.2 with
    | none => .ok none
    | some idx => lightFrame args.1 6 0 idx (savedZones last)

end OpenCalifornia.Control
