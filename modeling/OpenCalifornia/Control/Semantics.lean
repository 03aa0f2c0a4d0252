import OpenCalifornia.Control.Protocol

/-! # The vehicle state behind a command

The last state frame of every function, decoded on demand, and the lighting configuration the
unit reports in some of its frames. The served lighting state carries the configuration of
earlier frames as four more keys. -/

namespace OpenCalifornia.Control
open Lib Lib.Bits

/-- The latch keys (`LIGHT_CONFIG_KEYS`) that are known. -/
structure LightConfig where
  wakeupTimestamp : Option ℕ := none
  wakeupLightValue : Option ℕ := none
  doorContact : Option ℕ := none
  favouritesStored : Option ℕ := none
  deriving DecidableEq, Repr

/-- What a session has read from the unit. -/
structure Reading where
  frame : String → Option (List Byte)
  latch : LightConfig

def entry (k : String) (v : Option ℕ) : Dict ℕ := (v.map fun x => (k, x)).toList

def LightConfig.keys (c : LightConfig) : Dict ℕ :=
  entry "WakeupTimestamp" c.wakeupTimestamp ++ entry "WakeupLightValue" c.wakeupLightValue ++
    entry "DoorContact" c.doorContact ++ entry "FavouritesStored" c.favouritesStored

/-- The decoded state of a function, `None` before its first frame. -/
def Reading.state (r : Reading) (fn : String) : Option (Dict ℕ) :=
  match funcs.find? (·.name = fn) with
  | none => none
  | some func =>
    (r.frame fn).map fun raw =>
      if fn = "lighting" then decode func raw ++ r.latch.keys else decode func raw

/-- `states.get(fn) or {}`. -/
def Reading.last (r : Reading) (fn : String) : Dict ℕ := (r.state fn).getD []

/-- The keys of a decoded state that carry the configuration of earlier frames. -/
def latched (frame : Dict ℕ) : LightConfig where
  wakeupTimestamp := frame.get "WakeupTimestamp"
  wakeupLightValue := frame.get "WakeupLightValue"
  doorContact := frame.get "DoorContact"
  favouritesStored := frame.get "FavouritesStored"

/-- `lighting_config(None, frame)`. -/
def lightingConfig (frame : Dict ℕ) : LightConfig :=
  let out := latched frame
  let mode := frame.get "Mode"
  let pn := frame.get "ProfileNumber"
  let lv := frame.get "LightValue"
  let ts := frame.get "Timestamp"
  if mode = some 20 ∧ lv.isSome ∧ ts.isSome then
    { out with wakeupTimestamp := ts, wakeupLightValue := lv }
  else if mode = some 16 ∧ pn = some 8 ∧ lv.isSome then { out with doorContact := lv }
  else if mode = some 12 ∧ lv.isSome ∧ pn ≠ some 13 then
    { out with favouritesStored := lv.map (· &&& 0x7f) }
  else if mode = some 4 ∧ pn.any (fun n => 1 ≤ n ∧ n ≤ 7) ∧ out.favouritesStored.isSome then
    { out with favouritesStored := out.favouritesStored.map (· ||| 1 <<< (pn.getD 0 - 1)) }
  else out

structure Wakeup where
  hour : ℕ
  minute : ℕ
  colour : ℕ
  areas : List ℕ
  brightness : ℕ
  ramp : ℕ
  enabled : Bool
  deriving DecidableEq, Repr

def wakeupConfig (cfg : LightConfig) : Option Wakeup :=
  match cfg.wakeupTimestamp, cfg.wakeupLightValue with
  | some ts, some lv => some {
      hour := ts / 3600 % 24
      minute := ts / 60 % 60
      enabled := lv &&& 1 ≠ 0
      ramp := (lv &&& 0xf) >>> 1 * 10
      brightness := lv >>> 4 &&& 0xf
      areas := [1, 2, 3, 4].filter fun a => lv >>> (7 + a) &&& 1 ≠ 0
      colour := lv >>> 12 &&& 0xf }
  | _, _ => none

end OpenCalifornia.Control
