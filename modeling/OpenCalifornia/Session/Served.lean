import OpenCalifornia.Session.Stored

/-! # What the session serves along a run -/

namespace OpenCalifornia.Session.Stored
open Lib Lib.Bits Lib.Machine Control Control.Firmware Freshness.Firmware Lighting.Firmware

variable {s s' : State} {c char : ℕ} {data : List Byte} {saved : Bool} {tr : List Rec} {op : Op}

/-- The served water frame is the baseline. -/
def Served (s : State) : Prop := (s.slots waterChar).frame = s.gate.wg

/-- What is written to the store is the baseline. -/
structure Written (s : State) (r : State × Option Write) : Prop where
  failed : (∀ w, r.2 = some w → w.ok = false) → r.1.nvs = s.nvs
  saved : ∀ w, r.2 = some w → w.ok = true → readStore r.1.nvs = r.1.gate.wg
  kept : r.2 = none → r.1.gate.wg = s.gate.wg

/-- The call is of the unit whose frames are stored, and no boot. -/
def Op.keeps (s : State) : Op → Prop
  | .linkUp identity _ | .stop identity _ => identity = s.unit
  | .restart _ => False
  | _ => True

/-- The session took a frame of this function. -/
def Takes (c : ℕ) (r : Rec) (raw : List Byte) : Prop :=
  (∃ saved, r.inp = .frame c raw saved) ∧ r.pre.up = true ∧ c ∈ codecChars.map Prod.snd

def IsLinkUp (r : Rec) : Prop := ∃ identity erased, r.inp = .linkUp identity erased

/-- What is served of a function after `raw` came: the frame itself, the baseline that the guard
holds on to, or the lamp state that a configuration frame does not replace. -/
def Shows (s : State) (c : ℕ) (raw : List Byte) : Prop :=
  (s.slots c).frame = some (raw.take frameMax) ∨
    (c = waterChar ∧ s.gate.waterHeld = true ∧ ∃ wg, s.gate.wg = some wg ∧
      (s.slots c).frame = some wg) ∨
    (c = lightChar ∧ reportsState (raw.take frameMax) = false ∧
      ∃ f, (s.slots c).frame = some f ∧ reportsState f = true)

/-- A live frame is what the last frame of its function on this link, or on the last one, shows. -/
def LiveHere (tr : List Rec) (s : State) : Prop :=
  ∀ c, (s.slots c).live = true → ∃ newer r older raw, tr = newer ++ r :: older ∧ Takes c r raw ∧
    (∀ x ∈ newer, ¬ IsLinkUp x ∧ ∀ raw, ¬ Takes c x raw) ∧ Shows s c raw

/-- The record of a call. -/
def record (op : Op) (s : State) : Rec := ⟨op, s, (s.apply op).2, (s.apply op).1⟩

/-- What the session serves, in a run from a boot with `nvs` stored. -/
structure Proper (nvs : Option (List Byte)) (now : ℕ) (tr : List Rec) (s : State) : Prop where
  served : (s.slots waterChar).frame = s.gate.wg
  /-- The store holds the baseline of some moment, and every write since then failed. -/
  ahead : ∃ newer older s', tr = newer ++ older ∧ Run step (boot nvs now) older s' ∧
    readStore s.nvs = s'.gate.wg ∧ ∀ r ∈ newer, ∀ w, r.out = some w → w.ok = false
  lamps : ∀ newer older s' f, tr = newer ++ older → Run step (boot nvs now) older s' →
    (s'.slots lightChar).frame = some f → reportsState f = true →
    (∀ r ∈ newer, r.inp.keeps r.pre) →
    ∃ f', (s.slots lightChar).frame = some f' ∧ reportsState f' = true
  live : LiveHere tr s
  restarts : (∀ r ∈ tr, ∀ w, r.out = some w → w.ok = true) → ∀ now',
    ((s.apply (.restart now')).1.slots waterChar).frame = (s.slots waterChar).frame

variable {nvs : Option (List Byte)} {now : ℕ}

end OpenCalifornia.Session.Stored
