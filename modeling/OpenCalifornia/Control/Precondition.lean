import OpenCalifornia.Control.Build

/-! # Refusals, and the writes of one command -/

namespace OpenCalifornia.Control
open Lib Lib.Bits Lib.Text

def reasonNotOnoff : String :=
  "the value must be on or off (or true/false, 1/0) — anything else is refused, never read as off"

def reasonCoolerStateUnknown : String :=
  "the cooler's current schedule is not known yet (no cooler state read) — refusing to overwrite it"

def reasonRoofReading : String :=
  "the pop-top roof reading light needs the roof raised (roof is closed)"

def reasonCoolerTimerNeedsFridgeOff : String :=
  "the cooling timer can only be set while the fridge is off (turn the cooler off first)"

def reasonQuietNeedsFridgeOn : String :=
  "quiet mode can only be set while the fridge is on (switch the cooler on first)"

def reasonCampingNeedsMaster : String :=
  "camping lights and USB need camping mode on (turn the camping master on first)"

def reasonEnergyLocked : String := "the unit currently does not allow changing the energy mode"

def reasonEnergyEcoNeedsSolar : String :=
  "ECO needs a solar panel fitted — the unit reports none (or has not reported it yet), so the " ++
  "app would not offer ECO"

def reasonFavouriteEmpty : String := "this favourite is empty on the unit — save it first"

def reasonWakeupNoArea : String := "the wake-up light needs at least one vehicle area"

def reasonAirheaterNotPossible : String :=
  "the auxiliary air heater cannot be activated when the engine is running or when the " ++
  "auxiliary water heater is activated"

def reasonAirheaterRuntimePermanent : String :=
  "the run time cannot be changed while continuous heating is on"

def reasonAirheaterTimerArmed : String :=
  "the start time cannot be changed while the timer is on (stop the timer first)"

def wakeupUnknown : String :=
  "wake-up config not known yet (the unit has not reported it): give on|off with the edit"

/-- `ONOFF_COMMANDS` of the five functions. -/
def onoffCommands : List (String × String) :=
  [("cooler", "power"), ("campingmode", "master"), ("campingmode", "lights"),
    ("campingmode", "usb"), ("airheater", "power"), ("lighting", "power"),
    ("lighting", "door_contact")]

/-- One `if` of a gate: its text where the condition holds. -/
def refuse (c : Prop) [Decidable c] (why : String) : Option String := if c then some why else none

section Gates

variable (r : Reading) (fn what : String) (value : Text)

def roofReadingRefusal : Option String :=
  refuse (fn = "lighting" ∧ what = "roof-reading" ∧ (int? value).any (0 < ·) ∧
    ((r.last "roof").get "Position").any (· ∈ [0, 14])) reasonRoofReading

def coolerRefusal : Option String :=
  (refuse (fn = "cooler" ∧ what ∈ ["timer_set", "timer_start"] ∧
    (r.last "cooler").get "State" = some 1) reasonCoolerTimerNeedsFridgeOff).or <|
  (refuse (fn = "cooler" ∧ what ∈ ["mode", "night_on", "night_off"] ∧
    (r.last "cooler").get "State" = some 0) reasonQuietNeedsFridgeOn).or <|
  refuse (fn = "cooler" ∧ what ∈ ["night_on", "night_off"] ∧ r.last "cooler" = [])
    reasonCoolerStateUnknown

def campingRefusal : Option String :=
  refuse (fn = "campingmode" ∧ what ∈ ["lights", "usb"] ∧
    (r.last "campingmode").get "State" = some 0) reasonCampingNeedsMaster

def airheaterRefusal : Option String :=
  (refuse (fn = "airheater" ∧ what = "power" ∧ truthy value = .ok true ∧
    (r.last "airheater").get "ErrorCode" = some 5) reasonAirheaterNotPossible).or <|
  (refuse (fn = "airheater" ∧ what = "runtime" ∧
    (r.last "airheater").get "PermanentOperation" = some 1) reasonAirheaterRuntimePermanent).or <|
  refuse (fn = "airheater" ∧ what = "timer" ∧
    (r.last "airheater").get "OperationModeAirHeater" = some 3) reasonAirheaterTimerArmed

def energyRefusal : Option String :=
  (refuse (fn = "energy" ∧ what = "mode" ∧
    (r.last "energy").get "EnergyModeNotSelectable" = some 1) reasonEnergyLocked).or <|
  refuse (fn = "energy" ∧ what = "mode" ∧ key value = "eco".toList ∧
    (r.last "energy").get "PvInstalled" ≠ some 1) reasonEnergyEcoNeedsSolar

/-- Favourite `n` is positively reported empty. -/
def favouriteEmpty (stored : Option ℕ) (n : ℤ) : Bool :=
  (1 ≤ n ∧ n ≤ 7) ∧ stored.any fun bits => bits >>> (n - 1).toNat &&& 1 = 0

def favouriteRefusal : Option String :=
  refuse (fn = "lighting" ∧ what = "profile" ∧ (int? value).any
    (favouriteEmpty (lightingConfig (r.last "lighting")).favouritesStored)) reasonFavouriteEmpty

/-- The wake-up gates. A malformed request is left to the builder. -/
def wakeupRefusal : Option String :=
  if fn = "lighting" ∧ what = "wakeup" then
    match wakeupRequest value (r.last "lighting") with
    | .error _ => none
    | .ok c =>
      (refuse (c.enabled ∧ c.areas = []) reasonWakeupNoArea).or <|
      refuse ("on".toList ∉ split (lower value) ∧ "off".toList ∉ split (lower value) ∧
        wakeupConfig (lightingConfig (r.last "lighting")) = none) wakeupUnknown
  else none

def commandPrecondition : Option String :=
  (refuse ((fn, what) ∈ onoffCommands ∧ ¬ isOnoff value) reasonNotOnoff).or <|
  (roofReadingRefusal r fn what value).or <|
  (coolerRefusal r fn what).or <|
  (campingRefusal r fn what).or <|
  (airheaterRefusal r fn what value).or <|
  (energyRefusal r fn what value).or <|
  (favouriteRefusal r fn what value).or <|
  wakeupRefusal r fn what value

end Gates

/-- One write: the characteristic, the wait before it in ms, and the frame. -/
structure Write where
  chr : Option ℕ
  delayMs : ℕ
  data : List Byte
  deriving DecidableEq, Repr

/-- `FOLLOW_DELAY_S`, in ms. -/
def followDelayMs : ℕ := 300

/-- The writes of `device.actuate`: the preface and the frame, each with the commit after it. -/
def actuate (func : Function) (frame : List Byte) (follow preface : Option (List Byte)) :
    List Write :=
  (preface.toList ++ [frame]).flatMap fun data =>
    ⟨func.controlChar, 0, data⟩ ::
      (follow.map fun commit => ⟨func.controlChar, followDelayMs, commit⟩).toList

/-- What becomes of a command. -/
inductive Outcome
  | refused (why : String)
  | raised
  | unknown
  | write (writes : List Write)
  deriving DecidableEq, Repr

/-- The precondition, then `build`, `preface_for` and `commit_for` over the same state. -/
def command (r : Reading) (now : DateTime) (fn what : String) (value : Text) : Outcome :=
  match commandPrecondition r fn what value with
  | some why => .refused why
  | none =>
    match build now fn what value (r.last fn), prefaceFor fn what value (r.last fn),
      funcs.find? (·.name = fn) with
    | .error _, _, _ => .raised
    | .ok none, _, _ => .unknown
    | .ok (some _), .error _, _ => .raised
    | .ok (some _), .ok _, none => .unknown
    | .ok (some frame), .ok preface, some func =>
      .write (actuate func frame (commitFor fn) preface)

end OpenCalifornia.Control
