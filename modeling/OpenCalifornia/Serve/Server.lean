import Mathlib
import OpenCalifornia.Freshness.Water
import OpenCalifornia.Lib.Machine
import OpenCalifornia.Lighting.Merge

/-! # The water that the daemon serves

`interpret_frames`, `guard_water`, the polls of `Server` with its state file, and the water that
`ServeBackend.state` interprets anew from the cache at every request. -/

namespace OpenCalifornia.Serve
open Lib Lib.Bits Lib.Machine Control Freshness Lighting

/-- A reading of `time.time()`. It is after 1970, so that it counts as true. -/
abbrev Epoch := ℕ+

/-- What `_save_last` writes. -/
structure Blob where
  ts : Option Epoch
  last : Dict (Dict ℕ)
  waterGood : Option Water
  waterStaleSince : Option Epoch
  waterMeasuredAt : Option Epoch
  deriving DecidableEq

/-- The server, and the state file at `_state_cache`. -/
structure Server (τ : Type) where
  addr : String
  last : Dict (Dict ℕ) := []
  lastOkTs : Option Epoch := none
  waterGood : Option Water := none
  waterStaleSince : Option Epoch := none
  waterMeasuredAt : Option Epoch := none
  waterPending : Option (Key × τ) := none
  stateCache : Option Blob := none
  deriving DecidableEq

/-- The states of one read; those of the other functions stay as they were decoded. -/
structure States where
  water : Option Water := none
  others : Dict (Dict ℕ) := []

def States.set (states : States) (fn : String) (decoded : Dict ℕ) : States :=
  if fn = "water" then { states with water := some (Freshness.water decoded) }
  else { states with others := states.others.set fn decoded }

def States.isEmpty (states : States) : Bool := states.water.isNone ∧ states.others = []

/-- The decode of one frame of `interpret_frames`. A name that is not in the table has no fields. -/
def decodeFrame (last : Dict (Dict ℕ)) (fn : String) (data : List Byte) : Dict ℕ :=
  if fn = "lighting" then lightingMerge (last.get "lighting") (decode lighting data)
  else ((funcs.find? (·.name = fn)).map (decode · data)).getD []

def interpretFrames (raw : Dict (List Byte)) (last : Dict (Dict ℕ)) : States × Dict (Dict ℕ) :=
  raw.foldl
    (fun r kv =>
      let decoded := decodeFrame last kv.1 kv.2
      (r.1.set kv.1 decoded, r.2.set kv.1 decoded))
    ({}, last)

section

variable {τ : Type} [Sub τ] [LE τ] [DecidableLE τ]

def guardWater (s : Server τ) (states : States) (now : τ) (wall : Epoch) (settle : τ)
    (staleFrom : Option Epoch) : Option Bool × Server τ × States :=
  match states.water.filter (·.fresh.liters.isSome) with
  | none => (none, s, states)
  | some new =>
    let base := s.waterGood
    let (adopt, pending) := settleWater new base s.waterPending now settle
    let s := { s with waterPending := pending }
    if adopt then
      (some true,
        { s with waterGood := some new, waterMeasuredAt := some wall, waterStaleSince := none },
        states)
    else
      (some false,
        { s with waterStaleSince := some ((s.waterStaleSince.or staleFrom).getD wall) },
        { states with water := base })

end

variable {τ : Type}

/-- `_save_last`; a write that fails is passed over. -/
def Server.saveLast (s : Server τ) (written : Bool) : Server τ :=
  if written then
    { s with
      stateCache :=
        some ⟨s.lastOkTs, s.last, s.waterGood, s.waterStaleSince, s.waterMeasuredAt⟩ }
  else s

/-- `_load_last` on the defaults; a file that cannot be read leaves them. -/
def loadLast (addr : String) (stateCache : Option Blob) (readable : Bool) : Server τ :=
  match stateCache.filter fun _ => readable with
  | none => { addr, stateCache }
  | some blob =>
    { addr
      last := blob.last.filter fun kv => (funcs.find? (·.name = kv.1)).isSome
      lastOkTs := blob.ts
      waterGood := blob.waterGood
      waterStaleSince := blob.waterStaleSince
      waterMeasuredAt := blob.waterMeasuredAt
      stateCache }

/-- `_forget_unit_state` -/
def Server.forgetUnitState (s : Server τ) (written : Bool) : Server τ :=
  { s with
    last := []
    lastOkTs := none
    waterGood := none
    waterStaleSince := none
    waterMeasuredAt := none
    waterPending := none }.saveLast written

/-- The water as it goes out: `stale` on either tank, and what the web API adds. -/
structure Shown where
  water : Water
  freshStale : Bool := false
  wasteStale : Bool := false
  staleSince : Option Epoch := none
  measuredAt : Option Epoch := none
  deriving DecidableEq

/-- The water in `ServeBackend.state`. -/
def Server.state (s : Server τ) : Option Shown :=
  match s.last.get "water" with
  | none => none
  | some decoded =>
    match s.waterStaleSince, s.waterGood with
    | some _, none => none
    | some staleSince, some good =>
      some {
        water := good
        freshStale := true
        wasteStale := true
        staleSince
        measuredAt := s.waterMeasuredAt }
    | none, _ => some { water := Freshness.water decoded }

/-- A poll that reads the unit. -/
structure Poll (τ : Type) where
  raw : Dict (List Byte)
  now : τ
  wall : Epoch
  okTs : Epoch
  written : Bool

/-- What a poll gives to MQTT and InfluxDB: the water, if it is installed. -/
def fanOut (states : States) : Option Shown :=
  (states.water.filter (·.installed)).map fun w => { water := w }

/-- What happens to the daemon: polls, `set_auto_camper`, the pairing of the unit, a restart. -/
inductive Op (τ : Type)
  | poll (p : Poll τ)
  | autoCamper (written : Bool)
  | bonded (address : String) (written : Bool)
  | reset (written : Bool)
  | restart (readable : Bool)

/-- What was fanned out, and whether the state file was written. -/
structure Out where
  fanned : Option Shown := none
  saved : Bool := false

/-- The end of `poll`. A read that left no state is not kept. -/
def Server.publish (s : Server τ) (states : States) (newLast : Dict (Dict ℕ)) (p : Poll τ) :
    Out × Server τ :=
  if states.isEmpty then ({ fanned := fanOut states }, s)
  else
    ({ fanned := fanOut states, saved := p.written },
      { s with last := newLast, lastOkTs := some p.okTs }.saveLast p.written)

variable [Sub τ] [LE τ] [DecidableLE τ] (settle : τ)

def Server.poll (s : Server τ) (p : Poll τ) : Out × Server τ :=
  let (states, newLast) := interpretFrames p.raw s.last
  let (_, s, states) := guardWater s states p.now p.wall settle s.lastOkTs
  s.publish states newLast p

def step : Op τ → Server τ → Option (Out × Server τ)
  | .poll p, s => some (s.poll settle p)
  | .autoCamper written, s => some ({ saved := written }, s.saveLast written)
  | .bonded address written, s =>
    if address ≠ s.addr then
      some ({ saved := written }, { s.forgetUnitState written with addr := address })
    else some ({}, s)
  | .reset written, s => some ({ saved := written }, s.forgetUnitState written)
  | .restart readable, s => some ({}, loadLast s.addr s.stateCache readable)

/-- The first start, with no state file. -/
def boot (addr : String) : Server τ := loadLast addr none true

/-- The reading of a poll, if it has a fresh level. -/
def reading (s : Server τ) (p : Poll τ) : Option Water :=
  (interpretFrames p.raw s.last).1.water.filter (·.fresh.liters.isSome)

def adopts (s : Server τ) (p : Poll τ) (w : Water) : Bool :=
  (settleWater w s.waterGood s.waterPending p.now settle).1

/-- The readings adopted since the last cold start or change of unit, the newest first, and whether
the last reading was held. -/
structure Past where
  adopted : List Water := []
  held : Bool := false

def Past.poll (past : Past) (s : Server τ) (p : Poll τ) : Past :=
  match reading s p with
  | none => past
  | some w =>
    if adopts settle s p w then { adopted := w :: past.adopted } else { past with held := true }

/-- The past after one step; a restart takes that of the file. -/
def Past.next (past file : Past) (s : Server τ) : Op τ → Past
  | .poll p => past.poll settle s p
  | .autoCamper _ => past
  | .bonded address _ => if address ≠ s.addr then {} else past
  | .reset _ => {}
  | .restart readable => if readable then file else {}

/-- The past of the daemon, and the past that the state file was written with. -/
def pasts : List (Record (Op τ) Out (Server τ)) → Past × Past
  | [] => ({}, {})
  | r :: older =>
    let (past, file) := pasts older
    let past := past.next settle file r.pre r.inp
    (past, if r.out.saved then past else file)

def NoLevel (t : Tank) : Prop := t.liters = none ∧ t.percent = none

structure ServedWater (past : Past) (shown : Option Shown) : Prop where
  level : ∀ x, shown = some x → x.water.fresh.liters ≠ none → past.adopted.head? = some x.water
  held : past.held = true → shown.map Shown.water = past.adopted.head? ∧
    ∀ x, shown = some x → x.freshStale = true ∧ x.wasteStale = true
  live : past.held = false → ∀ x, shown = some x → x.freshStale = false ∧ x.wasteStale = false
  cold : past.adopted = [] → ∀ x, shown = some x → NoLevel x.water.fresh ∧ NoLevel x.water.waste

structure FannedWater (past : Past) (shown : Option Shown) : Prop where
  level : ∀ x, shown = some x → x.water.fresh.liters ≠ none → past.adopted.head? = some x.water
  plain : ∀ x, shown = some x → x.freshStale = false ∧ x.wasteStale = false
  cold : past.adopted = [] → ∀ x, shown = some x → NoLevel x.water.fresh ∧ NoLevel x.water.waste

end OpenCalifornia.Serve
