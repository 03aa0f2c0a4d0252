import Mathlib
import OpenCalifornia.Lib.Machine

/-! # Auto camper: restore camping after a drive

`auto_camper_restore_decide` of `automation.py`, one poll at a time. The four parts of the rule run
in the order of the source; a poll without ignition or master freezes the state. The clock is any
ordered type with an addition. -/

namespace OpenCalifornia.AutoCamper

/-- `AUTO_CAMPER_MIN_SOC`, `AUTO_CAMPER_MAX_FAILS` and the window, by default. -/
structure Cfg (τ : Type) where
  minSoc : ℤ := 20
  maxFails : ℤ := 3
  windowS : τ

structure Poll (τ : Type) where
  ignitionOn : Option Bool
  masterOn : Option Bool
  usbOn : Option Bool
  lightsOn : Option Bool
  soc : Option ℤ
  warning : Bool
  now : τ

/-- What is restored: `{"master", "usb", "lights"}`. -/
structure Config where
  master : Bool
  usb : Bool
  lights : Bool
  deriving DecidableEq, Repr

structure State (τ : Type) where
  oweRestore : Bool := false
  preDrive : Option Config := none
  restoreUntil : Option τ := none
  fails : ℤ := 0
  prevIgnition : Option Bool := none
  prevMaster : Option Bool := none
  prevUsb : Option Bool := none
  prevLights : Option Bool := none
  deriving DecidableEq, Repr

inductive Notice
  | windowElapsed
  | restored
  | stoodDown (soc : Option ℤ)
  | refused
  deriving DecidableEq, Repr

def Notice.text : Notice → String
  | .windowElapsed =>
    "Auto camper gave up: camping did not come back within the window after park."
  | .restored => "Auto camper: camping restored after park."
  | .stoodDown soc =>
    "Auto camper stood down: battery low / warning"
      ++ (match soc with
          | some v => " (SoC " ++ toString v ++ "%)"
          | none => "")
      ++ " — not restoring."
  | .refused => "Auto camper gave up: camping would not re-enable after park."

structure Decision where
  actuate : Bool := false
  restoreConfig : Option Config := none
  notice : Option Notice := none
  restored : Bool := false
  deriving DecidableEq, Repr

/-- `bool` of a value that may be `None`. -/
def truth (b : Option Bool) : Bool := b.getD false

section Rules

variable {τ : Type} (cfg : Cfg τ) (ign m : Bool) (now : τ)

/-- ARM: the engine starts with camping on before. -/
def arm (s : State τ) : State τ :=
  if ign ∧ ¬ truth s.prevIgnition ∧ truth s.prevMaster ∧ ¬ s.oweRestore then
    { s with
      oweRestore := true
      preDrive := some ⟨true, truth s.prevUsb, truth s.prevLights⟩
      restoreUntil := none
      fails := 0 }
  else s

/-- MANUAL CANCEL: camping turned off while the ignition is steady off. -/
def cancel (s : State τ) : State τ :=
  if ¬ ign ∧ ¬ truth s.prevIgnition ∧ truth s.prevMaster ∧ ¬ m then
    { s with oweRestore := false, restoreUntil := none, fails := 0 }
  else s

/-- PARK: the ignition falls with a debt owed. -/
def park [Add τ] (s : State τ) : State τ :=
  if ¬ ign ∧ truth s.prevIgnition ∧ s.oweRestore then
    { s with restoreUntil := some (now + cfg.windowS), fails := 0 }
  else s

/-- The debt and its window are dropped. -/
def State.disarm (s : State τ) : State τ := { s with oweRestore := false, restoreUntil := none }

variable [Add τ] [LT τ] [DecidableLT τ]

/-- RESTORING: parked, within the window, still owed. -/
def restoring (p : Poll τ) (s : State τ) : Decision × State τ :=
  match s.restoreUntil with
  | none => ({}, s)
  | some u =>
    if ¬ s.oweRestore ∨ ign then ({}, s)
    else if u < p.now then ({ notice := some .windowElapsed }, s.disarm)
    else if m then
      ({ notice := some .restored, restored := true }, { s.disarm with fails := 0 })
    else if p.soc.any (· < cfg.minSoc) ∨ p.warning then
      ({ notice := some (.stoodDown p.soc) }, s.disarm)
    else if s.fails ≥ cfg.maxFails then ({ notice := some .refused }, s.disarm)
    else ({ actuate := true, restoreConfig := s.preDrive }, { s with fails := s.fails + 1 })

/-- The readings of this poll become the previous ones. -/
def State.roll (s : State τ) (p : Poll τ) : State τ :=
  { s with
    prevIgnition := some ign
    prevMaster := some m
    prevUsb := some (truth p.usbOn)
    prevLights := some (truth p.lightsOn) }

/-- `auto_camper_restore_decide`. -/
def restoreDecide (s : State τ) (p : Poll τ) : Decision × State τ :=
  match p.ignitionOn, p.masterOn with
  | some ign, some m =>
    let r := restoring cfg ign m p (park cfg ign p.now (cancel ign m (arm ign s)))
    (r.1, r.2.roll ign m p)
  | _, _ => ({}, s)

/-- The rule as a machine: polls in, decisions out. -/
def step (p : Poll τ) (s : State τ) : Option (Decision × State τ) := some (restoreDecide cfg s p)

end Rules

end OpenCalifornia.AutoCamper
