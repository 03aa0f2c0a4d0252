import OpenCalifornia.Lib.Bits
import OpenCalifornia.Lib.Dict
import OpenCalifornia.Control.Text

/-! # The frames of the Camper Unit

`protocol.py`, with the field tables of `dictionary.yaml` as `overrides.apply` leaves them: every
field is placed, and some have a set of allowed values. -/

namespace OpenCalifornia.Control
open Lib Lib.Bits

inductive Valid
  | range (lo hi : ℤ)
  | oneOf (values : List ℤ)
  deriving DecidableEq, Repr

def Valid.holds (valid : Valid) (v : ℤ) : Bool :=
  match valid with
  | range lo hi => lo ≤ v ∧ v ≤ hi
  | oneOf values => v ∈ values

structure Field where
  name : String
  offset : ℕ
  width : ℕ
  default : Option ℤ := none
  valid : Option Valid := none
  deriving DecidableEq, Repr

structure Function where
  name : String
  controlChar : Option ℕ
  stateFields : List Field
  controlFields : List Field
  deriving DecidableEq, Repr

def getField (bits : List Bool) (offset width : ℕ) : ℕ := ofBits ((bits.drop offset).take width)

/-- `_bits_of`, most significant bit first. -/
def bitsOf (value width : ℕ) : List Bool :=
  ((List.range width).map fun k => value.testBit k).reverse

def checkValue (name : String) (width : ℕ) (v : ℤ) (valid : Option Valid) : Py Unit :=
  if ¬ (0 ≤ v ∧ v ≤ 2 ^ width - 1) then .error (.valueError (.outOfWidth name v))
  else if valid.all (·.holds v) then .ok ()
  else .error (.valueError (.notAllowed name v))

/-- `pack`: bit `i` of the string goes to its place in byte `i / 8`. -/
def pack (bits : List Bool) : List Byte :=
  setWhere (·.1) (·.2) bits.zipIdx (blank ((bits.length + 7) / 8))

def decode (func : Function) (raw : List Byte) : Dict ℕ :=
  (func.stateFields.filter fun f => f.offset + f.width ≤ (toBits raw).length).map fun f =>
    (f.name, getField (toBits raw) f.offset f.width)

/-- One turn of the loop of `encode`. The bits are those of a value that fits its width. -/
def placeField (values : Dict ℤ) (total : ℕ) (frame : List Bool) (f : Field) : Py (List Bool) :=
  if f.offset + f.width > total then .error (.valueError (.outsideFrame f.name))
  else
    match (values.get f.name).or f.default with
    | none => .error (.valueError (.noValue f.name))
    | some v => do
      checkValue f.name f.width v f.valid
      .ok (frame.take f.offset ++ bitsOf v.toNat f.width ++ frame.drop (f.offset + f.width))

def encode (func : Function) (values : Dict ℤ) (frameBytes : ℕ) : Py (List Byte) := do
  let frame ← func.controlFields.foldlM (placeField values (frameBytes * 8))
    (List.replicate (frameBytes * 8) false)
  .ok (pack frame)

/-- A field as `load` reads it: its offset may be MERGED_AMBIGUOUS, its width or default UNKNOWN. -/
structure Entry where
  name : String
  offset : Option ℕ
  width : Option ℕ
  default : Option ℤ
  valid : Option Valid := none
  deriving DecidableEq, Repr

/-- The field, where it is `placed`. -/
def Entry.field (e : Entry) : Option Field :=
  match e.offset, e.width with
  | some offset, some width => some ⟨e.name, offset, width, e.default, e.valid⟩
  | _, _ => none

def placed (table : List Entry) : List Field := table.filterMap Entry.field

def missing (table : List Entry) (values : Dict ℤ) : List String :=
  (table.filter fun e => e.field = none ∧ values.get e.name = none).map (·.name)

/-- The bits of the frame: `frame_bytes`, or up to the end of the last field. -/
def frameBits (fields : List Field) (frameBytes : Option ℕ) : ℕ :=
  if frameBytes.getD 0 ≠ 0 then frameBytes.getD 0 * 8
  else (fields.map fun f => f.offset + f.width).foldl max 0

/-- `encode` of a table whose fields may be unplaced. -/
def encodeTable (table : List Entry) (values : Dict ℤ) (frameBytes : Option ℕ) :
    Py (List Byte) :=
  if missing table values ≠ [] then .error (.valueError (.unresolved (missing table values)))
  else do
    let frame ← (placed table).foldlM (placeField values (frameBits (placed table) frameBytes))
      (List.replicate (frameBits (placed table) frameBytes) false)
    .ok (pack frame)

/-- `decode_control`: the control fields of a frame, by name. -/
def decodeControl (table : List Entry) (raw : List Byte) : Dict ℕ :=
  Dict.update [] <|
    ((placed table).filter fun f => f.offset + f.width ≤ (toBits raw).length).map fun f =>
      (f.name, getField (toBits raw) f.offset f.width)

/-- The entry of a placed field. -/
def Field.entry (f : Field) : Entry := ⟨f.name, some f.offset, some f.width, f.default, f.valid⟩

/-- The control table of a function. -/
def Function.table (func : Function) : List Entry := func.controlFields.map Field.entry

def airheater : Function where
  name := "airheater"
  controlChar := some 0x1701
  stateFields := [
    ⟨"AirDistribution", 0, 2, none, none⟩, ⟨"Installed", 3, 1, none, none⟩,
    ⟨"FaultTriggerBit", 4, 1, none, none⟩, ⟨"PermanentOperation", 5, 1, none, none⟩,
    ⟨"NormalOperation", 6, 1, none, none⟩,
    ⟨"PermanentOperationRequestConfirmation", 7, 1, none, none⟩,
    ⟨"HeatingLevel", 8, 4, none, none⟩, ⟨"ErrorCode", 12, 4, none, none⟩,
    ⟨"OperationModeCombined", 16, 4, none, none⟩, ⟨"OperationModeAirHeater", 20, 4, none, none⟩,
    ⟨"RunningTime", 24, 8, none, none⟩, ⟨"TimerHour", 32, 8, none, none⟩,
    ⟨"TimerMin", 40, 8, none, none⟩, ⟨"RunningTimeinAction", 48, 8, none, none⟩]
  controlFields := [
    ⟨"NormalOperationRequest", 6, 2, some 3, none⟩,
    ⟨"PermanentOperationConfirmation", 4, 2, some 3, none⟩,
    ⟨"PermanentOperationRequest", 2, 2, some 3, none⟩, ⟨"AirDistribution", 0, 2, some 0, none⟩,
    ⟨"HeatingLevel", 12, 4, some 11, some (.oneOf [1, 2, 3, 4, 5, 6, 7, 8, 9, 10, 11])⟩,
    ⟨"OperationModeAirHeater", 8, 4, some 7, none⟩,
    ⟨"OperationModeCombined", 20, 4, some 0, none⟩, ⟨"RunningTime", 24, 8, some 127, none⟩,
    ⟨"TimerHour", 32, 8, some 31, none⟩, ⟨"TimerMin", 40, 8, some 63, none⟩]

def campingmode : Function where
  name := "campingmode"
  controlChar := some 0x1201
  stateFields := [
    ⟨"Installed", 2, 1, none, none⟩, ⟨"Enable", 3, 1, none, none⟩,
    ⟨"InteriorLight", 4, 1, none, none⟩, ⟨"OutsideLight", 5, 1, none, none⟩,
    ⟨"UsbCharger", 6, 1, none, none⟩, ⟨"State", 7, 1, none, none⟩]
  controlFields := [
    ⟨"State", 6, 2, some 3, none⟩, ⟨"UsbCharger", 4, 2, some 3, none⟩,
    ⟨"OutsideLight", 2, 2, some 3, none⟩, ⟨"InteriorLight", 0, 2, some 3, none⟩]

def cooler : Function where
  name := "cooler"
  controlChar := some 0x1101
  stateFields := [
    ⟨"Error", 0, 2, none, none⟩, ⟨"NightTimerSet", 3, 1, none, none⟩,
    ⟨"Installed", 4, 1, none, none⟩, ⟨"TimerElapsed", 5, 1, none, none⟩,
    ⟨"TimerState", 6, 1, none, none⟩, ⟨"State", 7, 1, none, none⟩, ⟨"Mode", 8, 4, none, none⟩,
    ⟨"Level", 12, 4, none, none⟩, ⟨"TimerHourSet", 16, 8, none, none⟩,
    ⟨"TimerMinSet", 24, 8, none, none⟩, ⟨"TimerCounterHour", 32, 8, none, none⟩,
    ⟨"TimerCounterMin", 40, 8, none, none⟩, ⟨"NightTimerHourOn", 48, 8, none, none⟩,
    ⟨"NightTimerHourOff", 56, 8, none, none⟩]
  controlFields := [
    ⟨"State", 6, 2, some 3, some (.oneOf [0, 1, 3])⟩, ⟨"TimerStart", 4, 2, some 3, none⟩,
    ⟨"TimerCancel", 2, 2, some 3, none⟩, ⟨"NightTimerSet", 0, 2, some 3, none⟩,
    ⟨"Level", 12, 4, some 7, none⟩, ⟨"Mode", 8, 4, some 7, none⟩,
    ⟨"TimerHour", 16, 8, some 30, none⟩, ⟨"TimerMin", 24, 8, some 62, none⟩,
    ⟨"NightTimerHourOn", 32, 8, some 31, none⟩, ⟨"NightTimerHourOff", 40, 8, some 31, none⟩]

def energy : Function where
  name := "energy"
  controlChar := some 0x1601
  stateFields := [
    ⟨"LandNotAvailable", 0, 1, none, none⟩, ⟨"LandDefect", 1, 1, none, none⟩,
    ⟨"EnergyModeNotSelectable", 2, 1, none, none⟩, ⟨"DcdcDefect", 3, 1, none, none⟩,
    ⟨"WarningLevelActive", 4, 1, none, none⟩, ⟨"TwoBattSwitchAtWorkshop", 5, 1, none, none⟩,
    ⟨"TwoBattSwitchAtCharging", 6, 1, none, none⟩, ⟨"TwoBattNotCharged", 7, 1, none, none⟩,
    ⟨"DcdcInstalled", 8, 1, none, none⟩, ⟨"LadInstalled", 9, 1, none, none⟩,
    ⟨"PvInstalled", 10, 1, none, none⟩, ⟨"EmpInstalled", 11, 1, none, none⟩,
    ⟨"SystemError", 12, 1, none, none⟩, ⟨"CurrentDeratingTemperature", 13, 1, none, none⟩,
    ⟨"SleepWarning", 14, 1, none, none⟩, ⟨"PvDefect", 15, 1, none, none⟩,
    ⟨"SocOneBattAfs", 16, 4, none, none⟩, ⟨"EnergyMode", 20, 2, none, none⟩,
    ⟨"WarningLevelTwo", 22, 2, none, none⟩, ⟨"StateDcdcAfs", 24, 4, none, none⟩,
    ⟨"SocTwoBattAfs", 28, 4, none, none⟩, ⟨"StatePvAfs", 32, 4, none, none⟩,
    ⟨"StateLandAfs", 36, 4, none, none⟩, ⟨"AgeOneBattValuesMinutes", 40, 8, none, none⟩,
    ⟨"IOneBattBemAfs", 48, 8, none, none⟩, ⟨"PDcdcAfs", 56, 8, none, none⟩,
    ⟨"PLandAfs", 64, 8, none, none⟩, ⟨"PPvAfs", 72, 8, none, none⟩,
    ⟨"tTwoBattRemainingh", 80, 8, none, none⟩, ⟨"tTwoBattRemainingmin", 88, 8, none, none⟩,
    ⟨"UOneBattBemAfs", 96, 8, none, none⟩, ⟨"UTwoBattBemAfs", 104, 8, none, none⟩,
    ⟨"ITwoBattBemAfs", 112, 16, none, none⟩, ⟨"IDcdcAfs", 128, 16, none, none⟩,
    ⟨"ILandAfs", 144, 16, none, none⟩, ⟨"IPvAfs", 160, 16, none, none⟩]
  controlFields := [
    ⟨"EnergyModeSet", 2, 2, some 3, none⟩, ⟨"DisplayRefresh", 7, 1, some 0, none⟩]

def general : Function where
  name := "general"
  controlChar := none
  stateFields := [
    ⟨"AmbSwVersion", 0, 32, none, none⟩, ⟨"CmSwVersion", 32, 32, none, none⟩,
    ⟨"CommunicationVersion", 64, 8, none, none⟩]
  controlFields := []

def vehicle : Function where
  name := "vehicle"
  controlChar := none
  stateFields := [
    ⟨"CarVariant", 0, 4, none, none⟩, ⟨"CarLevelPopUp", 4, 2, none, none⟩,
    ⟨"TerminalOneFive", 7, 1, none, none⟩, ⟨"CarTimeYear", 8, 8, none, none⟩,
    ⟨"CarTimeMonth", 16, 8, none, none⟩, ⟨"CarTimeDay", 24, 8, none, none⟩,
    ⟨"CarTimeHour", 32, 8, none, none⟩, ⟨"CarTimeMinute", 40, 8, none, none⟩,
    ⟨"CarTimeSecond", 48, 8, none, none⟩, ⟨"CarLevelRoll", 56, 16, none, none⟩,
    ⟨"CarLevelPitch", 72, 16, none, none⟩]
  controlFields := []

def generalpurposesignals : Function where
  name := "generalpurposesignals"
  controlChar := none
  stateFields := [
    ⟨"BitZeroEight", 0, 1, none, none⟩, ⟨"BitZeroSeven", 1, 1, none, none⟩,
    ⟨"BitZeroSix", 2, 1, none, none⟩, ⟨"BitZeroFive", 3, 1, none, none⟩,
    ⟨"BitZeroFour", 4, 1, none, none⟩, ⟨"BitZeroThree", 5, 1, none, none⟩,
    ⟨"BitZeroTwo", 6, 1, none, none⟩, ⟨"BitZeroOne", 7, 1, none, none⟩,
    ⟨"ByteZeroOne", 8, 8, none, none⟩, ⟨"ByteZeroTwo", 16, 8, none, none⟩,
    ⟨"ByteZeroThree", 24, 8, none, none⟩, ⟨"ByteZeroFour", 32, 8, none, none⟩,
    ⟨"ByteZeroFive", 40, 8, none, none⟩, ⟨"ByteZeroSix", 48, 8, none, none⟩,
    ⟨"ByteZeroSeven", 56, 8, none, none⟩, ⟨"ByteZeroEight", 64, 8, none, none⟩,
    ⟨"WordZeroOne", 72, 16, none, none⟩, ⟨"WordZeroTwo", 88, 16, none, none⟩,
    ⟨"WordZeroThree", 104, 16, none, none⟩, ⟨"WordZeroFour", 120, 16, none, none⟩,
    ⟨"DwordZeroOne", 136, 32, none, none⟩]
  controlFields := []

def lighting : Function where
  name := "lighting"
  controlChar := some 0x1501
  stateFields := [
    ⟨"ProfileNumber", 4, 4, none, none⟩, ⟨"Mode", 8, 8, none, none⟩,
    ⟨"Timestamp", 16, 32, none, none⟩, ⟨"LightValue", 48, 16, none, none⟩,
    ⟨"BrightnessLTwo", 64, 4, none, none⟩, ⟨"BrightnessLOne", 68, 4, none, none⟩,
    ⟨"BrightnessLFour", 72, 4, none, none⟩, ⟨"BrightnessLThree", 76, 4, none, none⟩,
    ⟨"BrightnessLSix", 80, 4, none, none⟩, ⟨"BrightnessLFive", 84, 4, none, none⟩,
    ⟨"BrightnessLEight", 88, 4, none, none⟩, ⟨"BrightnessLSeven", 92, 4, none, none⟩,
    ⟨"BrightnessLOneZero", 96, 4, none, none⟩, ⟨"BrightnessLNine", 100, 4, none, none⟩,
    ⟨"BrightnessLOneTwo", 104, 4, none, none⟩, ⟨"BrightnessLOneOne", 108, 4, none, none⟩,
    ⟨"BrightnessLOneFour", 112, 4, none, none⟩, ⟨"BrightnessLOneThree", 116, 4, none, none⟩,
    ⟨"BrightnessLOneSix", 120, 4, none, none⟩, ⟨"BrightnessLOneFive", 124, 4, none, none⟩]
  controlFields := [
    ⟨"ProfileNumber", 4, 4, some 14, none⟩,
    ⟨"Mode", 8, 8, some 0, some (.oneOf [0, 4, 6, 8, 12, 16, 20, 24, 28])⟩,
    ⟨"Timestamp", 16, 32, some 0, none⟩, ⟨"LightValue", 48, 16, some 0, none⟩,
    ⟨"BrightnessLOne", 68, 4, some 14, none⟩, ⟨"BrightnessLTwo", 64, 4, some 14, none⟩,
    ⟨"BrightnessLThree", 76, 4, some 14, none⟩, ⟨"BrightnessLFour", 72, 4, some 14, none⟩,
    ⟨"BrightnessLFive", 84, 4, some 14, none⟩, ⟨"BrightnessLSix", 80, 4, some 14, none⟩,
    ⟨"BrightnessLSeven", 92, 4, some 14, none⟩, ⟨"BrightnessLEight", 88, 4, some 14, none⟩,
    ⟨"BrightnessLNine", 100, 4, some 14, none⟩, ⟨"BrightnessLOneZero", 96, 4, some 14, none⟩,
    ⟨"BrightnessLOneOne", 108, 4, some 14, none⟩, ⟨"BrightnessLOneTwo", 104, 4, some 14, none⟩,
    ⟨"BrightnessLOneThree", 116, 4, some 14, none⟩,
    ⟨"BrightnessLOneFour", 112, 4, some 14, none⟩,
    ⟨"BrightnessLOneFive", 124, 4, some 14, none⟩, ⟨"BrightnessLOneSix", 120, 4, some 14, none⟩]

def livingroomheater : Function where
  name := "livingroomheater"
  controlChar := some 0x2101
  stateFields := [
    ⟨"Variant", 0, 2, none, none⟩, ⟨"Installed", 4, 1, none, none⟩,
    ⟨"TemperatureWater", 5, 1, none, none⟩, ⟨"StateWater", 6, 1, none, none⟩,
    ⟨"StateAir", 7, 1, none, none⟩, ⟨"Error", 8, 4, none, none⟩, ⟨"Mode", 12, 4, none, none⟩,
    ⟨"TemperatureAir", 16, 8, none, none⟩]
  controlFields := [
    ⟨"StateAir", 6, 2, some 3, none⟩, ⟨"StateWater", 4, 2, some 3, none⟩,
    ⟨"TemperatureWater", 2, 2, some 3, none⟩, ⟨"Mode", 12, 4, some 5, none⟩,
    ⟨"TemperatureAir", 16, 8, some 0, none⟩]

def roof : Function where
  name := "roof"
  controlChar := some 0x1401
  stateFields := [
    ⟨"Position", 0, 4, none, none⟩, ⟨"Installed", 6, 1, none, none⟩,
    ⟨"SafetyCounterValid", 7, 1, none, none⟩, ⟨"InfoPopUp", 12, 4, none, none⟩]
  controlFields := [
    ⟨"Up", 6, 2, some 3, none⟩, ⟨"Down", 4, 2, some 3, none⟩,
      ⟨"SafetyCounter", 8, 32, some 0, none⟩]

def roofaircondition : Function where
  name := "roofaircondition"
  controlChar := some 0x2001
  stateFields := [
    ⟨"Error", 0, 2, none, none⟩, ⟨"Mode", 2, 2, none, none⟩, ⟨"Installed", 6, 1, none, none⟩,
    ⟨"State", 7, 1, none, none⟩, ⟨"Fanspeed", 12, 4, none, none⟩,
    ⟨"Temperature", 16, 8, none, none⟩]
  controlFields := [
    ⟨"State", 6, 2, some 3, none⟩, ⟨"FanSpeed", 12, 4, some 7, none⟩, ⟨"Mode", 8, 4, some 7, none⟩,
    ⟨"Temperature", 16, 8, some 0, none⟩]

def satelliteantenna : Function where
  name := "satelliteantenna"
  controlChar := some 0x1901
  stateFields := [
    ⟨"Error", 0, 4, none, none⟩, ⟨"System", 4, 2, none, none⟩, ⟨"Installed", 7, 1, none, none⟩,
    ⟨"SatelliteSelection", 8, 4, none, none⟩, ⟨"Dish", 12, 4, none, none⟩,
    ⟨"SignalLevel", 16, 8, none, none⟩]
  controlFields := [
    ⟨"DishStop", 7, 1, none, none⟩, ⟨"Wlan", 6, 1, none, none⟩, ⟨"System", 2, 2, some 3, none⟩,
    ⟨"Dish", 0, 2, some 0, none⟩, ⟨"SatelliteSelection", 12, 4, some 0, none⟩]

def stairs : Function where
  name := "stairs"
  controlChar := some 0x1801
  stateFields := [
    ⟨"InfoPopUp", 2, 2, none, none⟩, ⟨"Sensor", 4, 1, none, none⟩, ⟨"State", 5, 1, none, none⟩,
    ⟨"OperationMode", 6, 1, none, none⟩, ⟨"Installed", 7, 1, none, none⟩]
  controlFields := [
    ⟨"OperationMode", 6, 2, some 3, none⟩, ⟨"Movement", 4, 2, some 0, none⟩]

def water : Function where
  name := "water"
  controlChar := none
  stateFields := [
    ⟨"FreshWaterInfoPopUp", 0, 4, none, none⟩, ⟨"Installed", 6, 1, none, none⟩,
    ⟨"FreshWaterUnit", 7, 1, none, none⟩, ⟨"FreshWaterLevel", 8, 8, none, none⟩,
    ⟨"FreshWaterVolume", 16, 8, none, none⟩, ⟨"WasteWaterInfoPopUp", 26, 2, none, none⟩,
    ⟨"WasteWaterUnit", 31, 1, none, none⟩, ⟨"WasteWaterLevel", 32, 8, none, none⟩,
    ⟨"WasteWaterVolume", 40, 8, none, none⟩]
  controlFields := []

def funcs : List Function :=
  [airheater, campingmode, cooler, energy, general, vehicle, generalpurposesignals, lighting,
  livingroomheater, roof, roofaircondition, satelliteantenna, stairs, water]

def controlFrameBytes : Dict ℕ :=
  [("cooler", 6), ("airheater", 6), ("campingmode", 1), ("lighting", 16), ("roof", 5),
  ("roofaircondition", 3), ("stairs", 1), ("livingroomheater", 3), ("satelliteantenna", 2),
  ("energy", 1)]

end OpenCalifornia.Control
