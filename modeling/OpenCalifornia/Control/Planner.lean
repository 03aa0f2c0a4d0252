import OpenCalifornia.Control.Codec
import OpenCalifornia.Control.Precondition

/-! # The firmware's planner

`control.c`: the value coercions, the builders, the gate and `cali_ctl_plan`. A text is read up
to its terminator; where a function copies it into a buffer of `n` bytes the copy keeps `n - 1`
of them. A `long` has 32 bits, an `int64_t` is a mathematical integer. A builder answers the
writes of an OK plan or the code it returns, and the scratch `vals_t` is its local value. -/

namespace OpenCalifornia.Control.Firmware
open Lib Lib.Bits Lib.Text

/-- `cali_ctl_rc_e`, the codes of a plan. -/
inductive Rc
  | ok
  | refused
  | elsewhere
  | badValue
  | none
  deriving DecidableEq, Repr

/-- `cali_ctl_plan_t`, a write being `cali_ctl_frame_t` with its length. -/
structure Plan where
  rc : Rc
  reason : Option String := Option.none
  pull : Bool := false
  f : List Write := []
  deriving DecidableEq, Repr

def maxFrames : ℕ := 4

def valueMax : ℕ := 64

def kvMax : ℕ := 64

/-- `LONG_MAX` and `LONG_MIN` of the ESP. -/
def longMax : ℤ := 2147483647

def longMin : ℤ := -2147483648

def uint32Max : ℤ := 4294967295

/-- `WS`. -/
def isWs (c : Char) : Bool := (9 ≤ c.toNat ∧ c.toNat ≤ 13) ∨ c.toNat = 32

def lower (c : Char) : Char :=
  if 'A' ≤ c ∧ c ≤ 'Z' then Char.ofNat (c.toNat - 'A'.toNat + 'a'.toNat) else c

/-- `snprintf` into a buffer of `cap` bytes. -/
def copy (cap : ℕ) (v : Text) : Text := v.take (cap - 1)

def norm (v : Text) (cap : ℕ) : Text := copy cap ((strip isWs v).map lower)

def onTokens : List Text := ["on".toList, "true".toList, "1".toList]

def offTokens : List Text := ["off".toList, "false".toList, "0".toList]

/-- `onoff`, where -1 is `none`. -/
def onoff (v : Text) : Option Bool :=
  let s := norm v valueMax
  if s ∈ onTokens then some true else if s ∈ offTokens then some false else Option.none

/-- The digit loop of `py_int`. -/
def digits (s : Text) (v : ℤ) (sat : Bool) (n : ℕ) : ℤ × Bool × ℕ × Text :=
  match s with
  | [] => (v, sat, n, [])
  | c :: s =>
    if c.isDigit then
      let d : ℤ := c.toNat - '0'.toNat
      if v > (longMax - d) / 10 then digits s v true (n + 1) else digits s (v * 10 + d) sat (n + 1)
    else if c = '_' ∧ n ≠ 0 ∧ s.head?.any Char.isDigit then digits s v sat n
    else (v, sat, n, c :: s)

/-- `py_int` after the sign. -/
def pyIntBody (neg : Bool) (s : Text) : Option ℤ :=
  match digits s 0 false 0 with
  | (v, sat, n, rest) =>
    if n = 0 ∨ rest.dropWhile isWs ≠ [] then Option.none
    else if sat then some (if neg then longMin else longMax)
    else some (if neg then -v else v)

def pyInt (s : Text) : Option ℤ :=
  match s.dropWhile isWs with
  | '+' :: s => pyIntBody false s
  | '-' :: s => pyIntBody true s
  | s => pyIntBody false s

def intRange (v : Text) (lo hi : ℤ) : Option ℤ := (pyInt v).filter fun n => lo ≤ n ∧ n ≤ hi

def hhmm (v : Text) : Option (ℤ × ℤ) := do
  let (a, b) ← cut ':' (copy valueMax v)
  if ':' ∈ b then Option.none
  else do
    let h ← intRange a 0 23
    let m ← intRange b 0 59
    some (h, m)

structure Vals where
  kv : Dict ℕ := []
  overflow : Bool := false
  deriving DecidableEq, Repr

def Vals.put (v : Vals) (name : String) (value : ℕ) : Vals :=
  if (v.kv.get name).isNone ∧ v.kv.length = kvMax then { v with overflow := true }
  else { v with kv := v.kv.set name value }

/-- One `put` after the other. -/
def Vals.puts (v : Vals) (entries : Dict ℕ) : Vals :=
  entries.foldl (fun v e => v.put e.1 e.2) v

def reset : Vals := {}

abbrev Get := String → String → Option ℕ

def Get.st (get : Get) (fn field : String) (dflt : ℕ) : ℕ := (get fn field).getD dflt

/-- `struct cali_ctl_char`. -/
structure CtlChar where
  function : String
  controlShort : ℕ
  frameBytes : ℕ
  deriving DecidableEq, Repr

def ctlChars : List CtlChar :=
  [⟨"airheater", 0x1701, 6⟩, ⟨"campingmode", 0x1201, 1⟩, ⟨"cooler", 0x1101, 6⟩,
    ⟨"energy", 0x1601, 1⟩, ⟨"lighting", 0x1501, 16⟩]

def ctlChar (fn : String) : Option CtlChar := ctlChars.find? (·.function = fn)

def writeOk (chr len : ℕ) : Bool :=
  match ctlChars.find? (·.controlShort = chr) with
  | some c => len = c.frameBytes
  | Option.none => false

abbrev Built := Except Rc (List Write)

/-- `add`; a failure makes every builder answer BAD_VALUE. -/
def add (p : List Write) (fn : String) (v : Vals) (delay : ℕ) : Built :=
  match ctlChar fn, codecFuncByName fn with
  | some c, some f =>
    if p.length = maxFrames ∨ v.overflow then .error .badValue
    else
      match codecEncode f v.kv c.frameBytes with
      | .error _ => .error .badValue
      | .ok data => .ok (p ++ [⟨c.controlShort, delay, data⟩])
  | _, _ => .error .badValue

def lightCommit : List Byte :=
  [0x0e, 0, 0, 0, 0, 0, 0, 0, 0xee, 0xee, 0xee, 0xee, 0xee, 0xee, 0xee, 0xee]

def lightRequestConfig : List Byte :=
  [0x0d, 0x0c, 0, 0, 0, 0, 0, 0, 0xee, 0xee, 0xee, 0xee, 0xee, 0xee, 0xee, 0xee]

/-- `CODEC_FOLLOW_DELAY_MS`. -/
def followDelay : ℕ := 300

def lightingShort : ℕ := 0x1501

def addCommit (p : List Write) : Built :=
  if p.length = maxFrames then .error .badValue
  else .ok (p ++ [⟨lightingShort, followDelay, lightCommit⟩])

def lightOn : ℕ := 0

def lightOff : ℕ := 1

def caliSentinel : ℕ := 3

/-- A value that a check has to accept. -/
def orBad {α : Type} (v : Option α) : Except Rc α :=
  match v with
  | some a => .ok a
  | Option.none => .error .badValue

def orNone {α : Type} (v : Option α) : Except Rc α :=
  match v with
  | some a => .ok a
  | Option.none => .error .none

def caliCoolerModes : List (Text × ℕ) :=
  [("normal".toList, 0), ("quiet".toList, 2), ("timer_quiet".toList, 4)]

def caliEnergyModes : List (Text × ℕ) :=
  [("normal".toList, 0), ("max_charge".toList, 1), ("eco".toList, 2)]

def addCooler (v : Vals) : Built := add [] "cooler" v 0

/-- `_cooler_values`: the current state, with one night hour replaced. -/
def coolerNightValues (get : Get) (what : String) (a : ℤ) : Vals :=
  reset.puts [("State", get.st "cooler" "State" 1), ("Mode", get.st "cooler" "Mode" 4),
    ("Level", get.st "cooler" "Level" 3), ("TimerStart", caliSentinel),
    ("TimerCancel", caliSentinel), ("NightTimerSet", get.st "cooler" "NightTimerSet" 0),
    ("NightTimerHourOn", get.st "cooler" "NightTimerHourOn" 0),
    ("NightTimerHourOff", get.st "cooler" "NightTimerHourOff" 0),
    ("TimerHour", get.st "cooler" "TimerHourSet" 0),
    ("TimerMin", get.st "cooler" "TimerMinSet" 0),
    (if what = "night_on" then "NightTimerHourOn" else "NightTimerHourOff", a.toNat)]

def bCooler (what : String) (value : Text) (get : Get) : Built :=
  if what = "power" then do
    let on ← orBad (onoff value)
    addCooler (reset.puts [("State", on.toNat)])
  else if what = "level" then do
    let a ← orBad (intRange value 1 5)
    addCooler (reset.puts [("Level", a.toNat)])
  else if what = "mode" then do
    let a ← orNone (caliCoolerModes.lookup (norm value valueMax))
    addCooler (reset.puts [("Mode", a)])
  else if what = "timer_set" then do
    let (a, b) ← orBad (hhmm value)
    addCooler (reset.puts [("TimerHour", a.toNat), ("TimerMin", b.toNat)])
  else if what = "timer_start" then addCooler (reset.puts [("TimerStart", 1)])
  else if what = "timer_cancel" then addCooler (reset.puts [("TimerCancel", 1)])
  else if what = "night_on" ∨ what = "night_off" then do
    let a ← orBad (intRange value 0 23)
    let _ ← orBad (get "cooler" "State")
    addCooler (coolerNightValues get what a)
  else .error .none

def campingVals : Vals :=
  reset.puts [("State", caliSentinel), ("UsbCharger", caliSentinel),
    ("InteriorLight", caliSentinel), ("OutsideLight", caliSentinel)]

def bCamping (what : String) (value : Text) : Built := do
  let on ← orBad (onoff value)
  if what = "lights" then
    add [] "campingmode" (campingVals.puts [("InteriorLight", if on then lightOn else lightOff),
      ("OutsideLight", if on then lightOn else lightOff)]) 0
  else if what = "usb" then add [] "campingmode" (campingVals.puts [("UsbCharger", on.toNat)]) 0
  else if what = "master" then add [] "campingmode" (campingVals.puts [("State", on.toNat)]) 0
  else .error .none

def bEnergy (what : String) (value : Text) : Built :=
  if what ≠ "mode" then .error .none
  else do
    let m ← orNone (caliEnergyModes.lookup (norm value valueMax))
    add [] "energy" (reset.puts [("EnergyModeSet", m), ("DisplayRefresh", 0)]) 0

/-- `_airheater_values`. -/
def airheaterVals : Vals :=
  reset.puts [("NormalOperationRequest", caliSentinel),
    ("PermanentOperationRequest", caliSentinel),
    ("PermanentOperationConfirmation", caliSentinel), ("AirDistribution", 0),
    ("OperationModeAirHeater", 7), ("HeatingLevel", 11), ("OperationModeCombined", 0),
    ("RunningTime", 127), ("TimerHour", 31), ("TimerMin", 63)]

def addAirheater (entries : Dict ℕ) : Built := add [] "airheater" (airheaterVals.puts entries) 0

def bAirheater (what : String) (value : Text) : Built :=
  if what = "power" then do
    let on ← orBad (onoff value)
    addAirheater [("NormalOperationRequest", on.toNat)]
  else if what = "level" then do
    let a ← orBad (intRange value 1 10)
    addAirheater [("HeatingLevel", a.toNat)]
  else if what = "runtime" then do
    let a ← orBad (intRange value 10 120)
    addAirheater [("RunningTime", a.toNat)]
  else if what = "timer" then do
    let (a, b) ← orBad (hhmm value)
    addAirheater [("TimerHour", a.toNat), ("TimerMin", b.toNat)]
  else if what = "timer_start" then
    addAirheater [("OperationModeAirHeater", 3), ("OperationModeCombined", 1)]
  else if what = "timer_cancel" then addAirheater [("OperationModeAirHeater", 0)]
  else if what = "permanent" then
    if norm value valueMax ∉ offTokens then .error .badValue
    else addAirheater [("PermanentOperationRequest", 0)]
  else .error .none

def caliUnchanged : ℕ := 14

def caliMaxSet : ℕ := 11

def caliDoorContact : ℕ := 8

/-- `CALI_LIGHT_ZONE_FIELDS`. -/
def caliZoneFields : List String :=
  ["BrightnessLOne", "BrightnessLTwo", "BrightnessLThree", "BrightnessLFour", "BrightnessLFive",
    "BrightnessLSix", "BrightnessLSeven", "BrightnessLEight", "BrightnessLNine",
    "BrightnessLOneZero", "BrightnessLOneOne", "BrightnessLOneTwo", "BrightnessLOneThree",
    "BrightnessLOneFour", "BrightnessLOneFive", "BrightnessLOneSix"]

/-- `CALI_LIGHT_REAL_ZONE_FIELDS`. -/
def caliRealZoneFields : List String :=
  ["BrightnessLOne", "BrightnessLTwo", "BrightnessLThree", "BrightnessLFour", "BrightnessLFive",
    "BrightnessLSix", "BrightnessLSeven", "BrightnessLEight", "BrightnessLNine",
    "BrightnessLOneTwo"]

def zonesAll (b : ℕ) : Dict ℕ := caliZoneFields.map fun z => (z, b)

def zonesReal (b : ℕ) : Dict ℕ :=
  caliZoneFields.map fun z => (z, if z ∈ caliRealZoneFields then b else caliUnchanged)

def zoneSaved (get : Get) (z : String) : ℕ :=
  match get "lighting" z with
  | some x => if z ∈ caliRealZoneFields ∧ x ≤ caliMaxSet then x else caliUnchanged
  | Option.none => caliUnchanged

def zonesSaved (get : Get) : Dict ℕ := caliZoneFields.map fun z => (z, zoneSaved get z)

def caliLightColors : List (Text × ℕ) :=
  [("warm-white".toList, 1), ("blood-orange".toList, 2), ("amber".toList, 3),
    ("pistachio".toList, 4), ("peppermint".toList, 5), ("mint".toList, 6), ("azure".toList, 7),
    ("dark-blue".toList, 8), ("red".toList, 9), ("salmon".toList, 10)]

/-- `save_args`; the colour -1 is `none`. -/
def saveArgs (value : Text) : Option (ℤ × Option ℕ) :=
  match nextToken isWs (copy valueMax value) with
  | Option.none => Option.none
  | some (t0, rest) =>
    match nextToken isWs rest with
    | Option.none => (intRange t0 1 7).map fun n => (n, Option.none)
    | some (t1, rest) =>
      if (nextToken isWs rest).isSome then Option.none
      else do
        let n ← intRange t0 1 7
        let colour ← caliLightColors.lookup (t1.map fun c => if c = '_' then '-' else lower c)
        some (n, some colour)

def caliLightZones : Dict String :=
  [("reading-1", "BrightnessLTwo"), ("reading-2", "BrightnessLOne"),
    ("reading-3", "BrightnessLFour"), ("kitchen", "BrightnessLSeven"),
    ("roof-ambient", "BrightnessLEight"), ("outside-rear", "BrightnessLThree"),
    ("kitchen-ambient", "BrightnessLFive"), ("kitchen-cabinet", "BrightnessLSix"),
    ("roof-reading", "BrightnessLNine"), ("entrance", "BrightnessLOneTwo")]

def zoneField (what : String) : String := (caliLightZones.get what).getD what

def lightCfg (get : Get) : LightConfig :=
  let out : LightConfig := ⟨get "lighting" "WakeupTimestamp", get "lighting" "WakeupLightValue",
    get "lighting" "DoorContact", get "lighting" "FavouritesStored"⟩
  match get "lighting" "Mode" with
  | Option.none => out
  | some mode =>
    let pn := get "lighting" "ProfileNumber"
    let lv := get "lighting" "LightValue"
    let ts := get "lighting" "Timestamp"
    if mode = 20 ∧ lv.isSome ∧ ts.isSome then
      { out with wakeupTimestamp := ts, wakeupLightValue := lv }
    else if mode = 16 ∧ pn = some caliDoorContact ∧ lv.isSome then { out with doorContact := lv }
    else if mode = 12 ∧ lv.isSome ∧ ¬ pn = some 13 then
      { out with favouritesStored := lv.map (· &&& 0x7f) }
    else if mode = 4 ∧ pn.any (fun n => 1 ≤ n ∧ n ≤ 7) ∧ out.favouritesStored.isSome then
      { out with favouritesStored := out.favouritesStored.map (· ||| 1 <<< (pn.getD 0 - 1)) }
    else out

def lightVals (pn mode timestamp lightValue : ℕ) (zones : Dict ℕ) : Vals :=
  (reset.puts [("ProfileNumber", pn), ("Mode", mode), ("Timestamp", timestamp),
    ("LightValue", lightValue)]).puts zones

/-- One lighting frame and the commit after it. -/
def addLight (p : List Write) (v : Vals) : Built := do
  let p ← add p "lighting" v 0
  addCommit p

/-- The SET_COLOR preface of a save with a colour. -/
def addPreface (n : ℤ) (colour : Option ℕ) (get : Get) : Built :=
  match colour with
  | some colour => addLight [] (lightVals n.toNat 6 0 colour (zonesSaved get))
  | Option.none => .ok []

def bLighting (what : String) (value : Text) (get : Get) : Built :=
  if what = "profile" then do
    let n ← orBad ((intRange value 0 13).filter fun n => n ≠ (caliDoorContact : ℤ))
    addLight [] (lightVals n.toNat 16 0 0 (zonesAll caliUnchanged))
  else if what = "save_profile" then do
    let (n, colour) ← orBad (saveArgs value)
    let p ← addPreface n colour get
    addLight p (lightVals n.toNat 4 0 0 (zonesSaved get))
  else if what = "door_contact" then do
    let on ← orBad (onoff value)
    addLight [] (lightVals caliDoorContact 16 0 on.toNat (zonesAll caliUnchanged))
  else if what = "power" then do
    let on ← orBad (onoff value)
    addLight [] (lightVals (if on then 12 else 0) 16 0 0 (zonesAll caliUnchanged))
  else if what = "all" then do
    let n ← orBad (intRange value 0 caliMaxSet)
    addLight [] (lightVals 9 4 0 0 (zonesReal n.toNat))
  else if what = "color" ∨ zoneField what ∉ caliZoneFields then .error .badValue
  else do
    let n ← orBad (intRange value 0 caliMaxSet)
    addLight [] ((lightVals 9 4 0 0 (zonesAll caliUnchanged)).puts [(zoneField what, n.toNat)])

/-- `wake_t`; bit `a - 1` of `areas` is area `a`. -/
structure Wake where
  hour : ℤ
  minute : ℤ
  colour : ℕ
  areas : ℕ
  brightness : ℕ
  ramp : ℕ
  enabled : Bool
  deriving DecidableEq, Repr

def wakeKnown (c : LightConfig) : Bool := c.wakeupTimestamp.isSome ∧ c.wakeupLightValue.isSome

/-- The loop of `wake_areas`. -/
def wakeAreas (s : Text) (areas : ℕ) : Option ℕ :=
  match h : cut ',' s with
  | Option.none => (intRange s 1 4).map fun a => areas ||| 1 <<< (a.toNat - 1)
  | some (piece, rest) =>
    have := length_cut h
    match intRange piece 1 4 with
    | Option.none => Option.none
    | some a => wakeAreas rest (areas ||| 1 <<< (a.toNat - 1))
termination_by s.length

/-- The config the request starts from. -/
def wakeStart (cfg : LightConfig) : Wake :=
  match cfg.wakeupTimestamp, cfg.wakeupLightValue with
  | some ts, some lv => {
      hour := ts / 3600 % 24
      minute := ts / 60 % 60
      colour := lv >>> 12 &&& 0xf
      areas := lv >>> 8 &&& 0xf
      brightness := lv >>> 4 &&& 0xf
      ramp := (lv &&& 0xf) >>> 1 * 10
      enabled := lv &&& 1 ≠ 0 }
  | _, _ => ⟨0, 0, 1, 1, 0, 0, false⟩

/-- The locals of `wake_request` during its loop over the words. -/
structure WakeLoop where
  w : Wake
  switched : Bool
  timed : Bool
  pos : List Text
  npos : ℕ

def wakeWord (l : WakeLoop) (tok : Text) : Option WakeLoop :=
  let k := norm tok 8
  if k = "on".toList ∨ k = "off".toList then
    some { l with w := { l.w with enabled := k = "on".toList }, switched := true }
  else if ':' ∈ tok then do
    let (h, m) ← hhmm tok
    some { l with w := { l.w with hour := h, minute := m }, timed := true }
  else some { l with pos := if l.npos < 3 then l.pos ++ [tok] else l.pos, npos := l.npos + 1 }

def wakeRampOf (s : Text) : Option ℕ := do
  let b ← pyInt s
  if b ∈ [0, 10, 20, 30] then some b.toNat else Option.none

def wakePos (w : Wake) (pos : List Text) : Option Wake :=
  match pos with
  | [] => some w
  | a :: pos => do
    let areas ← wakeAreas a 0
    match pos with
    | [] => some { w with areas }
    | b :: pos => do
      let brightness ← intRange b 0 10
      match pos with
      | [] => some { w with areas, brightness := brightness.toNat }
      | r :: _ => do
        let ramp ← wakeRampOf r
        some { w with areas, brightness := brightness.toNat, ramp }

/-- `wake_request`: the config asked for, and whether an on/off word was given. -/
def wakeRequest (value : Text) (cfg : LightConfig) : Option (Wake × Bool) := do
  let toks := tokens isWs (copy valueMax value)
  let l ← toks.foldlM wakeWord ⟨wakeStart cfg, false, false, [], 0⟩
  if toks = [] ∨ ¬ wakeKnown cfg ∧ ¬ l.timed ∨ 3 < l.npos then Option.none
  else do
    let w ← wakePos l.w l.pos
    some (w, l.switched)

def nextWakeup (h m now : ℤ) : ℤ :=
  let t := now - now.tmod 86400 + h * 3600 + m * 60
  if t ≤ now then t + 86400 else t

def caliReasonWakeupNoArea : String := "the wake-up light needs at least one vehicle area"

def caliWakeupUnknown : String :=
  "wake-up config not known yet (the unit has not reported it): give on|off with the edit"

def wakeLightValue (w : Wake) : ℕ :=
  w.colour <<< 12 ||| w.areas <<< 8 ||| w.brightness <<< 4 ||| (w.ramp / 10) <<< 1 |||
    w.enabled.toNat

def Plan.of (b : Built) : Plan :=
  match b with
  | .ok f => { rc := .ok, f := f }
  | .error rc => { rc := rc }

def pWakeup (value : Text) (now : ℤ) (get : Get) : Plan :=
  if valueMax ≤ value.length then { rc := .badValue }
  else
    match wakeRequest value (lightCfg get) with
    | Option.none => { rc := .badValue }
    | some (w, switched) =>
      if w.enabled ∧ w.areas = 0 then { rc := .refused, reason := some caliReasonWakeupNoArea }
      else if ¬ switched ∧ ¬ wakeKnown (lightCfg get) then
        { rc := .refused, reason := some caliWakeupUnknown, pull := true }
      else if now > uint32Max then { rc := .badValue }
      else if nextWakeup w.hour w.minute now > uint32Max then { rc := .badValue }
      else
        Plan.of (addLight [] (lightVals caliUnchanged 20 (nextWakeup w.hour w.minute now).toNat
          (wakeLightValue w) (zonesAll caliUnchanged)))

def pullPlan : Plan :=
  Plan.of (addCommit [⟨lightingShort, 0, lightRequestConfig⟩])

def caliReasonNotOnoff : String :=
  "the value must be on or off (or true/false, 1/0) — anything else is refused, never read as off"

def caliReasonRoofReading : String :=
  "the pop-top roof reading light needs the roof raised (roof is closed)"

def caliReasonCoolerTimerNeedsFridgeOff : String :=
  "the cooling timer can only be set while the fridge is off (turn the cooler off first)"

def caliReasonQuietNeedsFridgeOn : String :=
  "quiet mode can only be set while the fridge is on (switch the cooler on first)"

def caliReasonCoolerStateUnknown : String :=
  "the cooler's current schedule is not known yet (no cooler state read) — refusing to overwrite it"

def caliReasonCampingNeedsMaster : String :=
  "camping lights and USB need camping mode on (turn the camping master on first)"

def caliReasonAirheaterNotPossible : String :=
  "the auxiliary air heater cannot be activated when the engine is running or when the " ++
  "auxiliary water heater is activated"

def caliReasonAirheaterRuntimePermanent : String :=
  "the run time cannot be changed while continuous heating is on"

def caliReasonAirheaterTimerArmed : String :=
  "the start time cannot be changed while the timer is on (stop the timer first)"

def caliReasonEnergyLocked : String := "the unit currently does not allow changing the energy mode"

def caliReasonEnergyEcoNeedsSolar : String :=
  "ECO needs a solar panel fitted — the unit reports none (or has not reported it yet), so the " ++
  "app would not offer ECO"

def caliReasonFavouriteEmpty : String := "this favourite is empty on the unit — save it first"

def caliReasonElsewhere : String := "Only via buspi or the app"

def caliReasonWakeupClock : String :=
  "the wake-up light needs the time from the web page — set it there"

def isOnoffCommand (fn what : String) : Bool :=
  if fn = "cooler" ∨ fn = "airheater" then what = "power"
  else if fn = "campingmode" then what ∈ ["master", "lights", "usb"]
  else if fn = "lighting" then what ∈ ["power", "door_contact"]
  else false

section Gate

variable (fn what : String) (value : Text) (get : Get)

def gateCooler : Option String :=
  (refuse (fn = "cooler" ∧ (what = "timer_set" ∨ what = "timer_start") ∧
    get "cooler" "State" = some 1) caliReasonCoolerTimerNeedsFridgeOff).or <|
  (refuse (fn = "cooler" ∧ (what = "mode" ∨ what = "night_on" ∨ what = "night_off") ∧
    get "cooler" "State" = some 0) caliReasonQuietNeedsFridgeOn).or <|
  refuse (fn = "cooler" ∧ (what = "night_on" ∨ what = "night_off") ∧
    get "cooler" "State" = Option.none) caliReasonCoolerStateUnknown

def gateAirheater : Option String :=
  (refuse (fn = "airheater" ∧ what = "power" ∧ onoff value = some true ∧
    get "airheater" "ErrorCode" = some 5) caliReasonAirheaterNotPossible).or <|
  (refuse (fn = "airheater" ∧ what = "runtime" ∧
    get "airheater" "PermanentOperation" = some 1) caliReasonAirheaterRuntimePermanent).or <|
  refuse (fn = "airheater" ∧ what = "timer" ∧
    get "airheater" "OperationModeAirHeater" = some 3) caliReasonAirheaterTimerArmed

def gateEnergy : Option String :=
  (refuse (fn = "energy" ∧ what = "mode" ∧ get "energy" "EnergyModeNotSelectable" = some 1)
    caliReasonEnergyLocked).or <|
  refuse (fn = "energy" ∧ what = "mode" ∧ norm value valueMax = "eco".toList ∧
    ¬ get "energy" "PvInstalled" = some 1) caliReasonEnergyEcoNeedsSolar

/-- The slot is known to be empty. -/
def slotEmpty (favs : Option ℕ) (n : ℤ) : Bool :=
  (n ≥ 1 ∧ n ≤ 7) ∧ favs.any fun bits => bits >>> (n - 1).toNat &&& 1 = 0

def gate : Option String :=
  (refuse (isOnoffCommand fn what ∧ onoff value = Option.none) caliReasonNotOnoff).or <|
  (refuse (fn = "lighting" ∧ what = "roof-reading" ∧ (pyInt value).any (0 < ·) ∧
    (get "roof" "Position").any (· ∈ [0, 14])) caliReasonRoofReading).or <|
  (gateCooler fn what get).or <|
  (refuse (fn = "campingmode" ∧ (what = "lights" ∨ what = "usb") ∧
    get "campingmode" "State" = some 0) caliReasonCampingNeedsMaster).or <|
  (gateAirheater fn what value get).or <|
  (gateEnergy fn what value get).or <|
  refuse (fn = "lighting" ∧ what = "profile" ∧ (pyInt value).any
    (slotEmpty (lightCfg get).favouritesStored)) caliReasonFavouriteEmpty

end Gate

def builders (fn what : String) (value : Text) (get : Get) : Built :=
  if fn = "cooler" then bCooler what value get
  else if fn = "campingmode" then bCamping what value
  else if fn = "energy" then bEnergy what value
  else if fn = "airheater" then bAirheater what value
  else bLighting what value get

def plan (fn what : String) (value : Text) (localNow : ℤ) (get : Get) : Plan :=
  if ctlChar fn = Option.none then { rc := .elsewhere, reason := some caliReasonElsewhere }
  else if fn = "lighting" ∧ what = "wakeup" then
    if localNow < 0 then { rc := .elsewhere, reason := some caliReasonWakeupClock }
    else pWakeup value localNow get
  else
    match gate fn what value get with
    | some why => { rc := .refused, reason := some why }
    | Option.none =>
      if valueMax ≤ value.length then { rc := .badValue }
      else Plan.of (builders fn what value get)

end OpenCalifornia.Control.Firmware
