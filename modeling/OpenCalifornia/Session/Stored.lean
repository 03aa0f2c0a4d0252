import OpenCalifornia.Freshness.Firmware
import OpenCalifornia.Lighting.Firmware
import OpenCalifornia.Session.Step

/-! # The frames that the session serves

`store`, `unit_check` and the boot of `session.c` with the guards of the water and the lighting
function: the frame of each function, the water baseline in memory and the one in the store. When
each frame came is for the status page only and left out. -/

namespace OpenCalifornia.Session.Stored
open Lib Lib.Bits Lib.Machine Control Control.Firmware Freshness.Firmware Lighting.Firmware

def lightChar : ℕ := 0x1502

structure State where
  slots : ℕ → Slot := fun _ => {}
  /-- The latches of the lighting configuration, across links and of this link. -/
  shown : LightConfig := {}
  gated : LightConfig := {}
  gate : Gate := ⟨none, ⟨0, 0, false, false, 0⟩, false⟩
  /-- When the baseline was adopted on this boot, 0 for never. -/
  wgAt : ℕ := 0
  unit : String := ""
  up : Bool := false
  now : ℕ := 0
  /-- What the store has under `water_good`. -/
  nvs : Option (List Byte) := none

/-- What the store is asked to hold, and whether it then does. -/
structure Write where
  value : Option (List Byte)
  ok : Bool
deriving DecidableEq

def State.write (s : State) (w : Write) : State := if w.ok then { s with nvs := w.value } else s

def State.put (s : State) (char : ℕ) (slot : Slot) : State :=
  { s with slots := Function.update s.slots char slot }

/-- `seed_water_frame` -/
def State.seed (s : State) : State :=
  match s.gate.wg with
  | some wg => s.put waterChar ⟨some wg, false⟩
  | none => s

/-- `store` of a water frame. -/
def State.storeWater (s : State) (data : List Byte) (saved : Bool) : State × Option Write :=
  let (adopted, gate, served) := Freshness.Firmware.storeWater s.gate data s.now
  if adopted then
    let w := ⟨some (data.take frameMax), saved⟩
    (({ s with gate, wgAt := stamp s.now }.write w).put waterChar ⟨served, true⟩, some w)
  else
    match served with
    | some wg => ({ s with gate }.put waterChar ⟨some wg, true⟩, none)
    | none => ({ s with gate }, none)

/-- `store` of a lighting frame. -/
def State.storeLight (s : State) (data : List Byte) : State :=
  let l := storeLighting data ⟨(s.slots lightChar).frame, (s.slots lightChar).live,
      s.shown, s.gated⟩
  { s with shown := l.shown, gated := l.gated }.put lightChar ⟨l.frame, l.live⟩

/-- `store` -/
def State.store (s : State) (char : ℕ) (data : List Byte) (saved : Bool) : State × Option Write :=
  if char = waterChar then s.storeWater data saved
  else if char = lightChar then (s.storeLight data, none)
  else (s.put char ⟨some (data.take frameMax), true⟩, none)

/-- `unit_check` -/
def State.unitCheck (s : State) (identity : String) (erased : Bool) : State × Option Write :=
  if identity = s.unit then (s, none)
  else
    let had := s.unit ≠ ""
    let s := { s with unit := identity, slots := fun _ => {}, shown := {}, gated := {} }
    if had then
      let w := ⟨none, erased⟩
      (({ s with gate := ⟨none, ⟨0, 0, false, false, 0⟩, false⟩, wgAt := 0 }.write w).seed, some w)
    else (s.seed, none)

/-- `link_up`, as far as the frames go. -/
def State.linkUp (s : State) (identity : String) (erased : Bool) : State × Option Write :=
  let (s, w) := s.unitCheck identity erased
  ({ s with up := true, slots := fun c => { s.slots c with live := false }, gated := {} }, w)

/-- What the boot finds in the store: a value that does not fit the buffer is none. -/
def readStore (nvs : Option (List Byte)) : Option (List Byte) := nvs.filter (·.length ≤ frameMax)

/-- `cali_session_init` after a boot. -/
def boot (nvs : Option (List Byte)) (now : ℕ) : State :=
  State.seed { gate := ⟨readStore nvs, ⟨0, 0, false, false, 0⟩, false⟩, now, nvs }

inductive Op
  | tick (now : ℕ)
  | linkUp (identity : String) (erased : Bool)
  | linkDown
  /-- A read or a notification; the session takes it on an up link only. -/
  | frame (char : ℕ) (data : List Byte) (saved : Bool)
  /-- `cali_session_stop` -/
  | stop (identity : String) (erased : Bool)
  | restart (now : ℕ)

def State.apply (s : State) : Op → State × Option Write
  | .tick now => ({ s with now }, none)
  | .linkUp identity erased => s.linkUp identity erased
  | .linkDown => ({ s with up := false }, none)
  | .frame char data saved =>
    if s.up ∧ char ∈ codecChars.map Prod.snd then s.store char data saved else (s, none)
  | .stop identity erased => { s with up := false }.unitCheck identity erased
  | .restart now => (boot s.nvs now, none)

def step (op : Op) (s : State) : Option (Option Write × State) :=
  some ((s.apply op).2, (s.apply op).1)

abbrev Rec := Record Op (Option Write) State

end OpenCalifornia.Session.Stored
