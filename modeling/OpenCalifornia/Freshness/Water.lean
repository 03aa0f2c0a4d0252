import OpenCalifornia.Control.Protocol

/-! # The water guard of the daemon

`semantics.water`, `freshness.py` and `guard_water` of `serve.py`. While it does not measure the
unit reports one litre, and it ramps up to the real level when it starts; a new level is adopted
once it has settled. The clock is any ordered type with a difference. -/

namespace OpenCalifornia.Freshness
open Lib

inductive Alert
  | pumpProtection
  | sensorError
  | error
  | pumpError
  | empty
  | full
  deriving DecidableEq, Repr

structure Tank where
  liters : Option ℤ
  capacityL : Option ℕ
  percent : Option ℕ
  deriving DecidableEq, Repr

structure Water where
  installed : Bool
  fresh : Tank
  waste : Tank
  freshAlert : Option Alert
  wasteAlert : Option Alert
  deriving DecidableEq, Repr

def pct (cur cap : ℕ) : Option ℕ := if cap = 0 then none else some (cur * 100 / cap)

/-- Unit 1 is absolute (the level is litres), anything else a percentage of the volume. -/
def tank (unit level volume : Option ℕ) : Tank :=
  match level, volume with
  | some level, some volume =>
    if unit.getD 0 ≠ 0 then ⟨some level, some volume, pct level volume⟩
    else ⟨some ↑(volume * level / 100), some volume, some level⟩
  | _, _ => ⟨none, volume, none⟩

def freshWaterAlert : ℕ → Option Alert
  | 1 => some .pumpProtection
  | 2 => some .sensorError
  | 3 => some .error
  | 7 => some .error
  | 4 => some .pumpError
  | 5 => some .empty
  | _ => none

def wasteWaterAlert : ℕ → Option Alert
  | 1 => some .full
  | 2 => some .sensorError
  | 3 => some .error
  | _ => none

def water (d : Dict ℕ) : Water where
  installed := (d.get "Installed").getD 0 ≠ 0
  fresh := tank (d.get "FreshWaterUnit") (d.get "FreshWaterLevel") (d.get "FreshWaterVolume")
  waste := tank (d.get "WasteWaterUnit") (d.get "WasteWaterLevel") (d.get "WasteWaterVolume")
  freshAlert := (d.get "FreshWaterInfoPopUp").bind freshWaterAlert
  wasteAlert := (d.get "WasteWaterInfoPopUp").bind wasteWaterAlert

def waterLatchMaxL : ℤ := 1

def measuredEmpty (w : Water) : Bool := w.freshAlert = some .empty

def implausibleWaterDrop (new prev : Water) : Bool :=
  match new.fresh.liters, prev.fresh.liters with
  | some nf, some pf =>
    if measuredEmpty new then false
    else if nf = pf ∨ nf > waterLatchMaxL then false
    else
      match new.waste.liters, prev.waste.liters with
      | some ng, some pg => ng = pg
      | _, _ => true
  | _, _ => false

abbrev Key := Option ℤ × Option ℤ

def key (w : Water) : Key := (w.fresh.liters, w.waste.liters)

section Clock

variable {τ : Type} [Sub τ] [LE τ] [DecidableLE τ]

/-- The candidate of the next call: the pending one where it is the same pair, else this one. -/
def candidate (k : Key) (pending : Option (Key × τ)) (now : τ) : Key × τ :=
  match pending with
  | some p => if p.1 = k then p else (k, now)
  | none => (k, now)

/-- The end of `settle_water`, for a level that is neither held nor the baseline. -/
def debounce (new : Water) (pending : Option (Key × τ)) (now settle : τ) :
    Bool × Option (Key × τ) :=
  if measuredEmpty new then (true, none)
  else if settle ≤ now - (candidate (key new) pending now).2 then (true, none)
  else (false, some (candidate (key new) pending now))

def settleWater (new : Water) (good : Option Water) (pending : Option (Key × τ))
    (now settle : τ) : Bool × Option (Key × τ) :=
  match new.fresh.liters with
  | none => (true, none)
  | some nf =>
    match good.filter (·.fresh.liters.isSome) with
    | none =>
      if nf ≤ waterLatchMaxL ∧ ¬ measuredEmpty new then (false, none)
      else debounce new pending now settle
    | some good =>
      if implausibleWaterDrop new good then (false, none)
      else if key new = key good then (true, none)
      else debounce new pending now settle

end Clock

end OpenCalifornia.Freshness
