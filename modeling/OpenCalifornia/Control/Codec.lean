import OpenCalifornia.Control.Semantics

/-! # The firmware's codec

`codec.c` and the tables of `codec_dict.h`. Values are numbers below `2 ^ 32`. -/

namespace OpenCalifornia.Control.Firmware
open Lib Lib.Bits

/-- `struct codec_field`, the two flags apart. -/
structure CodecField where
  name : String
  offset : ℕ
  width : ℕ
  hasDefault : Bool
  hasValid : Bool
  default : ℕ
  validMask : ℕ
  deriving DecidableEq, Repr

structure CodecFunc where
  name : String
  frameBytes : ℕ
  stateFields : List CodecField
  ctrlFields : List CodecField
  deriving DecidableEq, Repr

inductive CodecErr
  | noFunc
  | width
  | range
  | noDefault
  | frame
  deriving DecidableEq, Repr

def frameMax : ℕ := 32

def getBits (raw : List Byte) (offset width : ℕ) : ℕ :=
  ofBits ((List.range width).map fun k => bitAt raw (offset + k))

def putBits (buf : List Byte) (offset width value : ℕ) : List Byte :=
  setWhere (fun k => value.testBit (width - 1 - k)) (fun k => offset + k) (List.range width) buf

/-- `codec_decode`: fields past the end of the frame are skipped. -/
def codecDecode (f : CodecFunc) (raw : List Byte) : Dict ℕ :=
  (f.stateFields.filter fun fl => fl.offset + fl.width ≤ raw.length * 8).map fun fl =>
    (fl.name, getBits raw fl.offset fl.width)

/-- The value a field is written with. -/
def CodecField.value (fl : CodecField) (vals : Dict ℕ) : Option ℕ :=
  match vals.get fl.name with
  | some v => some v
  | none => if fl.hasDefault then some fl.default else none

/-- One turn of the loop of `codec_encode`. -/
def encodeField (vals : Dict ℕ) (totalBits : ℕ) (out : List Byte) (fl : CodecField) :
    Except CodecErr (List Byte) :=
  if fl.offset + fl.width > totalBits then .error .frame
  else
    match fl.value vals with
    | none => .error .noDefault
    | some v =>
      if fl.width < 32 ∧ v > 1 <<< fl.width - 1 then .error .width
      else if fl.hasValid ∧ (v ≥ 32 ∨ fl.validMask >>> v &&& 1 = 0) then .error .range
      else .ok (putBits out fl.offset fl.width v)

def codecEncode (f : CodecFunc) (vals : Dict ℕ) (frameBytes : ℕ) :
    Except CodecErr (List Byte) :=
  if f.ctrlFields = [] then .error .noFunc
  else if frameBytes = 0 ∨ frameBytes > frameMax then .error .frame
  else f.ctrlFields.foldlM (encodeField vals (frameBytes * 8)) (blank frameBytes)

def airheaterFunc : CodecFunc where
  name := "airheater"
  frameBytes := 6
  stateFields := [
    ⟨"AirDistribution", 0, 2, false, false, 0, 0⟩, ⟨"Installed", 3, 1, false, false, 0, 0⟩,
    ⟨"FaultTriggerBit", 4, 1, false, false, 0, 0⟩, ⟨"PermanentOperation", 5, 1, false, false, 0, 0⟩,
    ⟨"NormalOperation", 6, 1, false, false, 0, 0⟩,
    ⟨"PermanentOperationRequestConfirmation", 7, 1, false, false, 0, 0⟩,
    ⟨"HeatingLevel", 8, 4, false, false, 0, 0⟩, ⟨"ErrorCode", 12, 4, false, false, 0, 0⟩,
    ⟨"OperationModeCombined", 16, 4, false, false, 0, 0⟩,
    ⟨"OperationModeAirHeater", 20, 4, false, false, 0, 0⟩,
    ⟨"RunningTime", 24, 8, false, false, 0, 0⟩, ⟨"TimerHour", 32, 8, false, false, 0, 0⟩,
    ⟨"TimerMin", 40, 8, false, false, 0, 0⟩, ⟨"RunningTimeinAction", 48, 8, false, false, 0, 0⟩]
  ctrlFields := [
    ⟨"NormalOperationRequest", 6, 2, true, false, 3, 0⟩,
    ⟨"PermanentOperationConfirmation", 4, 2, true, false, 3, 0⟩,
    ⟨"PermanentOperationRequest", 2, 2, true, false, 3, 0⟩,
    ⟨"AirDistribution", 0, 2, true, false, 0, 0⟩, ⟨"HeatingLevel", 12, 4, true, true, 11, 0xffe⟩,
    ⟨"OperationModeAirHeater", 8, 4, true, false, 7, 0⟩,
    ⟨"OperationModeCombined", 20, 4, true, false, 0, 0⟩,
    ⟨"RunningTime", 24, 8, true, false, 127, 0⟩, ⟨"TimerHour", 32, 8, true, false, 31, 0⟩,
    ⟨"TimerMin", 40, 8, true, false, 63, 0⟩]

def campingmodeFunc : CodecFunc where
  name := "campingmode"
  frameBytes := 1
  stateFields := [
    ⟨"Installed", 2, 1, false, false, 0, 0⟩, ⟨"Enable", 3, 1, false, false, 0, 0⟩,
    ⟨"InteriorLight", 4, 1, false, false, 0, 0⟩, ⟨"OutsideLight", 5, 1, false, false, 0, 0⟩,
    ⟨"UsbCharger", 6, 1, false, false, 0, 0⟩, ⟨"State", 7, 1, false, false, 0, 0⟩]
  ctrlFields := [
    ⟨"State", 6, 2, true, false, 3, 0⟩, ⟨"UsbCharger", 4, 2, true, false, 3, 0⟩,
    ⟨"OutsideLight", 2, 2, true, false, 3, 0⟩, ⟨"InteriorLight", 0, 2, true, false, 3, 0⟩]

def coolerFunc : CodecFunc where
  name := "cooler"
  frameBytes := 6
  stateFields := [
    ⟨"Error", 0, 2, false, false, 0, 0⟩, ⟨"NightTimerSet", 3, 1, false, false, 0, 0⟩,
    ⟨"Installed", 4, 1, false, false, 0, 0⟩, ⟨"TimerElapsed", 5, 1, false, false, 0, 0⟩,
    ⟨"TimerState", 6, 1, false, false, 0, 0⟩, ⟨"State", 7, 1, false, false, 0, 0⟩,
    ⟨"Mode", 8, 4, false, false, 0, 0⟩, ⟨"Level", 12, 4, false, false, 0, 0⟩,
    ⟨"TimerHourSet", 16, 8, false, false, 0, 0⟩, ⟨"TimerMinSet", 24, 8, false, false, 0, 0⟩,
    ⟨"TimerCounterHour", 32, 8, false, false, 0, 0⟩, ⟨"TimerCounterMin", 40, 8, false, false, 0, 0⟩,
    ⟨"NightTimerHourOn", 48, 8, false, false, 0, 0⟩,
    ⟨"NightTimerHourOff", 56, 8, false, false, 0, 0⟩]
  ctrlFields := [
    ⟨"State", 6, 2, true, true, 3, 0xb⟩, ⟨"TimerStart", 4, 2, true, false, 3, 0⟩,
    ⟨"TimerCancel", 2, 2, true, false, 3, 0⟩, ⟨"NightTimerSet", 0, 2, true, false, 3, 0⟩,
    ⟨"Level", 12, 4, true, false, 7, 0⟩, ⟨"Mode", 8, 4, true, false, 7, 0⟩,
    ⟨"TimerHour", 16, 8, true, false, 30, 0⟩, ⟨"TimerMin", 24, 8, true, false, 62, 0⟩,
    ⟨"NightTimerHourOn", 32, 8, true, false, 31, 0⟩,
    ⟨"NightTimerHourOff", 40, 8, true, false, 31, 0⟩]

def energyFunc : CodecFunc where
  name := "energy"
  frameBytes := 1
  stateFields := [
    ⟨"LandNotAvailable", 0, 1, false, false, 0, 0⟩, ⟨"LandDefect", 1, 1, false, false, 0, 0⟩,
    ⟨"EnergyModeNotSelectable", 2, 1, false, false, 0, 0⟩, ⟨"DcdcDefect", 3, 1, false, false, 0, 0⟩,
    ⟨"WarningLevelActive", 4, 1, false, false, 0, 0⟩,
    ⟨"TwoBattSwitchAtWorkshop", 5, 1, false, false, 0, 0⟩,
    ⟨"TwoBattSwitchAtCharging", 6, 1, false, false, 0, 0⟩,
    ⟨"TwoBattNotCharged", 7, 1, false, false, 0, 0⟩, ⟨"DcdcInstalled", 8, 1, false, false, 0, 0⟩,
    ⟨"LadInstalled", 9, 1, false, false, 0, 0⟩, ⟨"PvInstalled", 10, 1, false, false, 0, 0⟩,
    ⟨"EmpInstalled", 11, 1, false, false, 0, 0⟩, ⟨"SystemError", 12, 1, false, false, 0, 0⟩,
    ⟨"CurrentDeratingTemperature", 13, 1, false, false, 0, 0⟩,
    ⟨"SleepWarning", 14, 1, false, false, 0, 0⟩, ⟨"PvDefect", 15, 1, false, false, 0, 0⟩,
    ⟨"SocOneBattAfs", 16, 4, false, false, 0, 0⟩, ⟨"EnergyMode", 20, 2, false, false, 0, 0⟩,
    ⟨"WarningLevelTwo", 22, 2, false, false, 0, 0⟩, ⟨"StateDcdcAfs", 24, 4, false, false, 0, 0⟩,
    ⟨"SocTwoBattAfs", 28, 4, false, false, 0, 0⟩, ⟨"StatePvAfs", 32, 4, false, false, 0, 0⟩,
    ⟨"StateLandAfs", 36, 4, false, false, 0, 0⟩,
    ⟨"AgeOneBattValuesMinutes", 40, 8, false, false, 0, 0⟩,
    ⟨"IOneBattBemAfs", 48, 8, false, false, 0, 0⟩, ⟨"PDcdcAfs", 56, 8, false, false, 0, 0⟩,
    ⟨"PLandAfs", 64, 8, false, false, 0, 0⟩, ⟨"PPvAfs", 72, 8, false, false, 0, 0⟩,
    ⟨"tTwoBattRemainingh", 80, 8, false, false, 0, 0⟩,
    ⟨"tTwoBattRemainingmin", 88, 8, false, false, 0, 0⟩,
    ⟨"UOneBattBemAfs", 96, 8, false, false, 0, 0⟩, ⟨"UTwoBattBemAfs", 104, 8, false, false, 0, 0⟩,
    ⟨"ITwoBattBemAfs", 112, 16, false, false, 0, 0⟩, ⟨"IDcdcAfs", 128, 16, false, false, 0, 0⟩,
    ⟨"ILandAfs", 144, 16, false, false, 0, 0⟩, ⟨"IPvAfs", 160, 16, false, false, 0, 0⟩]
  ctrlFields := [
    ⟨"EnergyModeSet", 2, 2, true, false, 3, 0⟩, ⟨"DisplayRefresh", 7, 1, true, false, 0, 0⟩]

def generalFunc : CodecFunc where
  name := "general"
  frameBytes := 0
  stateFields := [
    ⟨"AmbSwVersion", 0, 32, false, false, 0, 0⟩, ⟨"CmSwVersion", 32, 32, false, false, 0, 0⟩,
    ⟨"CommunicationVersion", 64, 8, false, false, 0, 0⟩]
  ctrlFields := []

def generalpurposesignalsFunc : CodecFunc where
  name := "generalpurposesignals"
  frameBytes := 0
  stateFields := [
    ⟨"BitZeroEight", 0, 1, false, false, 0, 0⟩, ⟨"BitZeroSeven", 1, 1, false, false, 0, 0⟩,
    ⟨"BitZeroSix", 2, 1, false, false, 0, 0⟩, ⟨"BitZeroFive", 3, 1, false, false, 0, 0⟩,
    ⟨"BitZeroFour", 4, 1, false, false, 0, 0⟩, ⟨"BitZeroThree", 5, 1, false, false, 0, 0⟩,
    ⟨"BitZeroTwo", 6, 1, false, false, 0, 0⟩, ⟨"BitZeroOne", 7, 1, false, false, 0, 0⟩,
    ⟨"ByteZeroOne", 8, 8, false, false, 0, 0⟩, ⟨"ByteZeroTwo", 16, 8, false, false, 0, 0⟩,
    ⟨"ByteZeroThree", 24, 8, false, false, 0, 0⟩, ⟨"ByteZeroFour", 32, 8, false, false, 0, 0⟩,
    ⟨"ByteZeroFive", 40, 8, false, false, 0, 0⟩, ⟨"ByteZeroSix", 48, 8, false, false, 0, 0⟩,
    ⟨"ByteZeroSeven", 56, 8, false, false, 0, 0⟩, ⟨"ByteZeroEight", 64, 8, false, false, 0, 0⟩,
    ⟨"WordZeroOne", 72, 16, false, false, 0, 0⟩, ⟨"WordZeroTwo", 88, 16, false, false, 0, 0⟩,
    ⟨"WordZeroThree", 104, 16, false, false, 0, 0⟩, ⟨"WordZeroFour", 120, 16, false, false, 0, 0⟩,
    ⟨"DwordZeroOne", 136, 32, false, false, 0, 0⟩]
  ctrlFields := []

def lightingFunc : CodecFunc where
  name := "lighting"
  frameBytes := 16
  stateFields := [
    ⟨"ProfileNumber", 4, 4, false, false, 0, 0⟩, ⟨"Mode", 8, 8, false, false, 0, 0⟩,
    ⟨"Timestamp", 16, 32, false, false, 0, 0⟩, ⟨"LightValue", 48, 16, false, false, 0, 0⟩,
    ⟨"BrightnessLTwo", 64, 4, false, false, 0, 0⟩, ⟨"BrightnessLOne", 68, 4, false, false, 0, 0⟩,
    ⟨"BrightnessLFour", 72, 4, false, false, 0, 0⟩, ⟨"BrightnessLThree", 76, 4, false, false, 0, 0⟩,
    ⟨"BrightnessLSix", 80, 4, false, false, 0, 0⟩, ⟨"BrightnessLFive", 84, 4, false, false, 0, 0⟩,
    ⟨"BrightnessLEight", 88, 4, false, false, 0, 0⟩,
    ⟨"BrightnessLSeven", 92, 4, false, false, 0, 0⟩,
    ⟨"BrightnessLOneZero", 96, 4, false, false, 0, 0⟩,
    ⟨"BrightnessLNine", 100, 4, false, false, 0, 0⟩,
    ⟨"BrightnessLOneTwo", 104, 4, false, false, 0, 0⟩,
    ⟨"BrightnessLOneOne", 108, 4, false, false, 0, 0⟩,
    ⟨"BrightnessLOneFour", 112, 4, false, false, 0, 0⟩,
    ⟨"BrightnessLOneThree", 116, 4, false, false, 0, 0⟩,
    ⟨"BrightnessLOneSix", 120, 4, false, false, 0, 0⟩,
    ⟨"BrightnessLOneFive", 124, 4, false, false, 0, 0⟩]
  ctrlFields := [
    ⟨"ProfileNumber", 4, 4, true, false, 14, 0⟩, ⟨"Mode", 8, 8, true, true, 0, 0x11111151⟩,
    ⟨"Timestamp", 16, 32, true, false, 0, 0⟩, ⟨"LightValue", 48, 16, true, false, 0, 0⟩,
    ⟨"BrightnessLOne", 68, 4, true, false, 14, 0⟩, ⟨"BrightnessLTwo", 64, 4, true, false, 14, 0⟩,
    ⟨"BrightnessLThree", 76, 4, true, false, 14, 0⟩, ⟨"BrightnessLFour", 72, 4, true, false, 14, 0⟩,
    ⟨"BrightnessLFive", 84, 4, true, false, 14, 0⟩, ⟨"BrightnessLSix", 80, 4, true, false, 14, 0⟩,
    ⟨"BrightnessLSeven", 92, 4, true, false, 14, 0⟩,
    ⟨"BrightnessLEight", 88, 4, true, false, 14, 0⟩,
    ⟨"BrightnessLNine", 100, 4, true, false, 14, 0⟩,
    ⟨"BrightnessLOneZero", 96, 4, true, false, 14, 0⟩,
    ⟨"BrightnessLOneOne", 108, 4, true, false, 14, 0⟩,
    ⟨"BrightnessLOneTwo", 104, 4, true, false, 14, 0⟩,
    ⟨"BrightnessLOneThree", 116, 4, true, false, 14, 0⟩,
    ⟨"BrightnessLOneFour", 112, 4, true, false, 14, 0⟩,
    ⟨"BrightnessLOneFive", 124, 4, true, false, 14, 0⟩,
    ⟨"BrightnessLOneSix", 120, 4, true, false, 14, 0⟩]

def livingroomheaterFunc : CodecFunc where
  name := "livingroomheater"
  frameBytes := 3
  stateFields := [
    ⟨"Variant", 0, 2, false, false, 0, 0⟩, ⟨"Installed", 4, 1, false, false, 0, 0⟩,
    ⟨"TemperatureWater", 5, 1, false, false, 0, 0⟩, ⟨"StateWater", 6, 1, false, false, 0, 0⟩,
    ⟨"StateAir", 7, 1, false, false, 0, 0⟩, ⟨"Error", 8, 4, false, false, 0, 0⟩,
    ⟨"Mode", 12, 4, false, false, 0, 0⟩, ⟨"TemperatureAir", 16, 8, false, false, 0, 0⟩]
  ctrlFields := [
    ⟨"StateAir", 6, 2, true, false, 3, 0⟩, ⟨"StateWater", 4, 2, true, false, 3, 0⟩,
    ⟨"TemperatureWater", 2, 2, true, false, 3, 0⟩, ⟨"Mode", 12, 4, true, false, 5, 0⟩,
    ⟨"TemperatureAir", 16, 8, true, false, 0, 0⟩]

def roofFunc : CodecFunc where
  name := "roof"
  frameBytes := 5
  stateFields := [
    ⟨"Position", 0, 4, false, false, 0, 0⟩, ⟨"Installed", 6, 1, false, false, 0, 0⟩,
    ⟨"SafetyCounterValid", 7, 1, false, false, 0, 0⟩, ⟨"InfoPopUp", 12, 4, false, false, 0, 0⟩]
  ctrlFields := [
    ⟨"Up", 6, 2, true, false, 3, 0⟩, ⟨"Down", 4, 2, true, false, 3, 0⟩,
    ⟨"SafetyCounter", 8, 32, true, false, 0, 0⟩]

def roofairconditionFunc : CodecFunc where
  name := "roofaircondition"
  frameBytes := 3
  stateFields := [
    ⟨"Error", 0, 2, false, false, 0, 0⟩, ⟨"Mode", 2, 2, false, false, 0, 0⟩,
    ⟨"Installed", 6, 1, false, false, 0, 0⟩, ⟨"State", 7, 1, false, false, 0, 0⟩,
    ⟨"Fanspeed", 12, 4, false, false, 0, 0⟩, ⟨"Temperature", 16, 8, false, false, 0, 0⟩]
  ctrlFields := [
    ⟨"State", 6, 2, true, false, 3, 0⟩, ⟨"FanSpeed", 12, 4, true, false, 7, 0⟩,
    ⟨"Mode", 8, 4, true, false, 7, 0⟩, ⟨"Temperature", 16, 8, true, false, 0, 0⟩]

def satelliteantennaFunc : CodecFunc where
  name := "satelliteantenna"
  frameBytes := 2
  stateFields := [
    ⟨"Error", 0, 4, false, false, 0, 0⟩, ⟨"System", 4, 2, false, false, 0, 0⟩,
    ⟨"Installed", 7, 1, false, false, 0, 0⟩, ⟨"SatelliteSelection", 8, 4, false, false, 0, 0⟩,
    ⟨"Dish", 12, 4, false, false, 0, 0⟩, ⟨"SignalLevel", 16, 8, false, false, 0, 0⟩]
  ctrlFields := [
    ⟨"DishStop", 7, 1, false, false, 0, 0⟩, ⟨"Wlan", 6, 1, false, false, 0, 0⟩,
    ⟨"System", 2, 2, true, false, 3, 0⟩, ⟨"Dish", 0, 2, true, false, 0, 0⟩,
    ⟨"SatelliteSelection", 12, 4, true, false, 0, 0⟩]

def stairsFunc : CodecFunc where
  name := "stairs"
  frameBytes := 1
  stateFields := [
    ⟨"InfoPopUp", 2, 2, false, false, 0, 0⟩, ⟨"Sensor", 4, 1, false, false, 0, 0⟩,
    ⟨"State", 5, 1, false, false, 0, 0⟩, ⟨"OperationMode", 6, 1, false, false, 0, 0⟩,
    ⟨"Installed", 7, 1, false, false, 0, 0⟩]
  ctrlFields := [
    ⟨"OperationMode", 6, 2, true, false, 3, 0⟩, ⟨"Movement", 4, 2, true, false, 0, 0⟩]

def vehicleFunc : CodecFunc where
  name := "vehicle"
  frameBytes := 0
  stateFields := [
    ⟨"CarVariant", 0, 4, false, false, 0, 0⟩, ⟨"CarLevelPopUp", 4, 2, false, false, 0, 0⟩,
    ⟨"TerminalOneFive", 7, 1, false, false, 0, 0⟩, ⟨"CarTimeYear", 8, 8, false, false, 0, 0⟩,
    ⟨"CarTimeMonth", 16, 8, false, false, 0, 0⟩, ⟨"CarTimeDay", 24, 8, false, false, 0, 0⟩,
    ⟨"CarTimeHour", 32, 8, false, false, 0, 0⟩, ⟨"CarTimeMinute", 40, 8, false, false, 0, 0⟩,
    ⟨"CarTimeSecond", 48, 8, false, false, 0, 0⟩, ⟨"CarLevelRoll", 56, 16, false, false, 0, 0⟩,
    ⟨"CarLevelPitch", 72, 16, false, false, 0, 0⟩]
  ctrlFields := []

def waterFunc : CodecFunc where
  name := "water"
  frameBytes := 0
  stateFields := [
    ⟨"FreshWaterInfoPopUp", 0, 4, false, false, 0, 0⟩, ⟨"Installed", 6, 1, false, false, 0, 0⟩,
    ⟨"FreshWaterUnit", 7, 1, false, false, 0, 0⟩, ⟨"FreshWaterLevel", 8, 8, false, false, 0, 0⟩,
    ⟨"FreshWaterVolume", 16, 8, false, false, 0, 0⟩,
    ⟨"WasteWaterInfoPopUp", 26, 2, false, false, 0, 0⟩,
    ⟨"WasteWaterUnit", 31, 1, false, false, 0, 0⟩, ⟨"WasteWaterLevel", 32, 8, false, false, 0, 0⟩,
    ⟨"WasteWaterVolume", 40, 8, false, false, 0, 0⟩]
  ctrlFields := []

def codecFuncs : List CodecFunc :=
  [airheaterFunc, campingmodeFunc, coolerFunc, energyFunc, generalFunc, generalpurposesignalsFunc,
  lightingFunc, livingroomheaterFunc, roofFunc, roofairconditionFunc, satelliteantennaFunc,
  stairsFunc, vehicleFunc, waterFunc]

def codecFuncByName (name : String) : Option CodecFunc := codecFuncs.find? (·.name = name)

/-- The reader behind a plan: the latched lighting configuration, else the function's frame. -/
def get (r : Reading) (fn field : String) : Option ℕ :=
  match r.frame fn, codecFuncByName fn with
  | some raw, some f =>
    if fn = "lighting" then (r.latch.keys.get field).or ((codecDecode f raw).get field)
    else (codecDecode f raw).get field
  | _, _ => none

end OpenCalifornia.Control.Firmware
