import Mathlib
import OpenCalifornia.Session.State

/-! # The BLE power experiment and the idle policy

`ble_exp.c` and the owner's side of it, `ble_exp_run.c`. Both set the mode of the session. An uptime
is a natural number; a difference of two is taken as on 64 bits. -/

namespace OpenCalifornia.BleExp
open Lib Lib.Bits
open Session (Mode)

def idleMs : ℕ := 600000
def goneMs : ℕ := 185000
def idleMaxMin : ℕ := 60

/-- `now - then` of two `uint64_t` -/
def since (now then' : ℕ) : ℕ := (now + 2 ^ 64 - then') % 2 ^ 64

/-- The unit's advert, and a change of it. -/
inductive Adv
  | unknown | seen | gone
deriving DecidableEq

/-- `ORDER` -/
def order : Fin 3 → Mode := ![.hold, .quiet, .off]

/-- `cali_bx_t` as it is at boot: `want` is zeroed, which is a mode. -/
structure Exp where
  on : Bool := false
  fromH : ℤ := 0
  toH : ℤ := 0
  phaseMs : ℕ := 0
  phaseEnd : ℕ := 0
  idleUntil : ℕ := 0
  phase : Fin 3 := 0
  want : Option Mode := some .hold
  probing : Bool := false
  touched : Bool := false
  adv : Adv := .unknown
  advClock : Bool := false
  advMs : ℕ := 0

/-- `cali_bx_out_t` -/
structure Out where
  setMode : Option Mode := none
  probe : Bool := false
  doneMode : Option Mode := none
  aborted : Bool := false
  started : Option Mode := none

/-- `cali_bx_in_window` -/
def inWindow (hour fromH toH : ℤ) : Bool :=
  if hour < 0 then false
  else if fromH = toH then true
  else if fromH < toH then fromH ≤ hour ∧ hour < toH
  else fromH ≤ hour ∨ hour < toH

/-- `cali_bx_start` -/
def Exp.start (phaseMin : ℕ) (fromH toH : ℤ) : Exp where
  on := true
  want := none
  fromH := fromH
  toH := toH
  phaseMs := phaseMin * 60000

/-- `cali_bx_stop` -/
def Exp.stop (x : Exp) : Exp := { x with on := false, want := none, probing := false }

/-- `cali_bx_activity` -/
def Exp.activity (x : Exp) (now : ℕ) : Exp :=
  if x.on then { x with idleUntil := now + idleMs, touched := true } else x

/-- The mode to set, none where it is the one in force. -/
def change (cur mode : Mode) : Option Mode := if cur ≠ mode then some mode else none

/-- `cali_bx_step` -/
def Exp.step (x : Exp) (now : ℕ) (hour : ℤ) (cur : Mode) (busy : Bool) : Exp × Out :=
  if ¬ x.on then (x, {})
  else
    let win := inWindow hour x.fromH x.toH
    let touched := x.touched
    let x := { x with touched := false }
    match x.want with
    | some want =>
      if touched ∨ ¬ win ∨ cur ≠ want ∧ ¬ x.probing then -- the phase is cut short
        ({ x with
          idleUntil := if ¬ touched ∧ win then now + idleMs else x.idleUntil
          want := none
          probing := false
          phase := x.phase + 1 },
          { doneMode := some want, aborted := true, setMode := change cur .hold })
      else if ¬ x.probing ∧ x.phaseEnd ≤ now then ({ x with probing := true }, { probe := true })
      else if x.probing ∧ ¬ busy then
        let aborted := cur ≠ want
        ({ x with
          idleUntil := if aborted then now + idleMs else x.idleUntil
          want := none
          probing := false
          phase := x.phase + 1 },
          { doneMode := some want, aborted, setMode := if aborted then change cur .hold else none })
      else (x, {})
    | none =>
      if ¬ win ∨ now < x.idleUntil then (x, { setMode := change cur .hold })
      else
        let want := order x.phase
        ({ x with want := some want, phaseEnd := now + x.phaseMs },
          { started := some want, setMode := change cur want })

/-- `cali_bx_seen` -/
def Exp.seen (x : Exp) (now : ℕ) (seenNow : Bool) : Exp × Adv :=
  if ¬ x.on then (x, .unknown)
  else if seenNow then
    ({ x with adv := .seen, advMs := now, advClock := true }, if x.adv ≠ .seen then .seen
      else .unknown)
  else if ¬ x.advClock then ({ x with advClock := true, advMs := now }, .unknown)
  else if x.adv ≠ .gone ∧ goneMs ≤ since now x.advMs then ({ x with adv := .gone }, .gone)
  else (x, .unknown)

/-- `cali_bi_t` -/
structure Idle where
  probeMin : ℕ
  idleUntil : ℕ
  nextProbe : ℕ := 0
  want : Option Mode := none
  touched : Bool := false

/-- `cali_bi_out_t` -/
structure IdleOut where
  setMode : Option Mode := none
  probe : Bool := false

/-- `cali_bi_set` -/
def Idle.set (probeMin now : ℕ) : Idle where
  probeMin := probeMin
  idleUntil := now + idleMs

/-- `cali_bi_activity` -/
def Idle.activity (x : Idle) : Idle := { x with touched := true }

/-- The session has a mode that the policy did not set. -/
def Idle.outside (x : Idle) (cur : Mode) (busy : Bool) : Bool :=
  x.want.any (cur ≠ ·) ∧ ¬ busy

/-- `cali_bi_step` -/
def Idle.step (x : Idle) (now : ℕ) (cur : Mode) (busy expOn : Bool) : Idle × IdleOut :=
  let touched := x.touched
  let x := { x with touched := false }
  if x.probeMin = 0 then (x, {})
  else
    let x := if expOn ∨ touched ∨ x.outside cur busy then { x with idleUntil := now + idleMs }
        else x
    if expOn then ({ x with want := none }, {})
    else
      let want : Mode := if now < x.idleUntil then .hold else .off
      let x := if want = .off ∧ x.want ≠ some .off
        then { x with nextProbe := now + x.probeMin * 60000 } else x
      let x := { x with want := some want }
      if busy then (x, {})
      else if cur ≠ want then (x, { setMode := some want })
      else if want = .off ∧ x.nextProbe ≤ now then
        ({ x with nextProbe := now + x.probeMin * 60000 }, { probe := true })
      else (x, {})

/-- The reasons that the session is given with a mode. -/
inductive Why
  | exp | expAbort | expOff | thermostat | idle
deriving DecidableEq

/-- What the owner does: the log's `ble_exp` and `ble_phase`, and the calls of the session. -/
inductive Ev
  | exp (on : Bool)
  | started (mode : Mode)
  | phase (mode : Mode) (aborted : Bool) (durMs : ℕ) (cause : Option Why)
  | set (mode : Mode) (why : Why)
  | probe
  /-- The unit's advert is back after it was gone. -/
  | wake
deriving DecidableEq

/-- What the session answers at one moment. -/
structure View where
  mode : Mode
  probing : Bool
  rest : Bool
  active : Bool

structure Tick where
  now : ℕ
  linkUp : Bool
  /-- `cali_ac_ignition` is 1. -/
  ignition : Bool
  held : Bool
  /-- Berlin local hour, -1 without a wall clock. -/
  hour : ℤ
  /-- The session before the experiment acts, and before the policy does. -/
  before : View
  after : View

def Tick.ign (t : Tick) : Bool := t.linkUp && t.ignition

structure Owner where
  exp : Exp := {}
  idle : Idle
  phaseAt : ℕ := 0
  tickAt : ℕ := 0
  advMode : Option Mode := none
  advArmed : Bool := false

/-- `cali_ble_exp_init` -/
def init (stored : Option (List Byte)) (up : ℕ) : Owner where
  idle := .set (match stored with
    | some [b] => if b.toNat ≤ idleMaxMin then b.toNat else 0
    | _ => 0) up

/-- `end_running_phase` -/
def Owner.endRunningPhase (s : Owner) : List Ev :=
  if s.exp.on then (s.exp.want.map (Ev.phase · true (since s.tickAt s.phaseAt) none)).toList else []

/-- `cali_ble_exp_start`; `clock` is whether there is a wall clock. -/
def Owner.start (s : Owner) (phaseMin : ℕ) (fromH toH : ℤ) (clock : Bool) : Owner × List Ev :=
  if phaseMin < 1 ∨ 720 < phaseMin ∨ fromH < 0 ∨ 23 < fromH ∨ toH < 0 ∨ 23 < toH ∨ ¬ clock
  then (s, [])
  else ({ s with exp := .start phaseMin fromH toH, advMode := none, advArmed := false },
    s.endRunningPhase ++ [.exp true])

/-- `cali_ble_exp_stop` -/
def Owner.stop (s : Owner) : Owner × List Ev :=
  if ¬ s.exp.on then (s, [])
  else ({ s with exp := s.exp.stop }, s.endRunningPhase ++ [.set .hold .expOff, .exp false])

/-- `cali_ble_exp_activity` -/
def Owner.activity (s : Owner) (now : ℕ) : Owner :=
  { s with exp := s.exp.activity now, idle := s.idle.activity }

/-- `cali_ble_idle_set`; `saved` is what the store answers. -/
def Owner.idleSet (s : Owner) (min : ℕ) (saved : Bool) (now : ℕ) (mode : Mode) : Owner × List Ev :=
  if idleMaxMin < min ∨ ¬ saved then (s, [])
  else ({ s with idle := .set min now },
    if min = 0 ∧ ¬ s.exp.on ∧ mode ≠ .hold then [.set .hold .idle] else [])

/-- `adv_transition` -/
def Owner.advTransition (s : Owner) (turn : Adv) (now : ℕ) (mode : Mode) (linkUp : Bool) :
    Owner × List Ev :=
  let s := if s.advMode ≠ some mode then { s with advMode := some mode, advArmed := false } else s
  match turn with
  | .gone => ({ s with advArmed := !linkUp }, [])
  | .seen =>
    if s.advArmed ∧ (mode = .quiet ∨ mode = .off) then
      ({ s with exp := s.exp.activity now, advArmed := false }, [.wake])
    else ({ s with advArmed := false }, [])
  | .unknown => (s, [])

/-- `on_unit_adv` -/
def Owner.onUnitAdv (s : Owner) (now : ℕ) (mode : Mode) (linkUp : Bool) : Owner × List Ev :=
  let (exp, turn) := s.exp.seen now true
  { s with exp }.advTransition turn now mode linkUp

/-- What `exp_tick` does with the answer of the schedule. -/
def Tick.act (t : Tick) (o : Out) (phaseAt : ℕ) : List Ev :=
  let cause := if o.aborted ∧ t.held ∧ ¬ t.ign then some Why.thermostat else none
  (o.doneMode.map (Ev.phase · o.aborted (since t.now phaseAt) cause)).toList ++
    (o.started.map Ev.started).toList ++
    (o.setMode.map (Ev.set · (cause.getD (if o.aborted then .expAbort else .exp)))).toList ++
    if o.probe ∧ ¬ t.before.rest then [.probe] else []

/-- `exp_tick` -/
def Owner.expTick (s : Owner) (t : Tick) : Owner × List Ev :=
  let exp := if t.ign ∨ t.held then s.exp.activity t.now else s.exp
  let (exp, turn) := exp.seen t.now false
  let (s, evs) := { s with exp }.advTransition turn t.now t.before.mode t.linkUp
  let (exp, o) := s.exp.step t.now t.hour t.before.mode t.before.probing
  ({ s with exp, phaseAt := if o.started.isSome then t.now else s.phaseAt },
    evs ++ t.act o s.phaseAt)

/-- `cali_ble_exp_tick` -/
def Owner.tick (s : Owner) (t : Tick) : Owner × List Ev :=
  let idle := if t.ign ∨ t.held then s.idle.activity else s.idle
  let s := { s with tickAt := t.now, idle }
  let (s, evs) := if s.exp.on then s.expTick t else (s, [])
  let (idle, o) := s.idle.step t.now t.after.mode t.after.probing s.exp.on
  ({ s with idle }, evs ++ (o.setMode.map (Ev.set · .idle)).toList ++
    if o.probe ∧ t.after.active ∧ ¬ t.after.rest then [.probe] else [])

inductive Op
  | start (phaseMin : ℕ) (fromH toH : ℤ) (clock : Bool)
  | stop
  /-- A viewer. -/
  | activity (now : ℕ)
  | unitAdv (now : ℕ) (mode : Mode) (linkUp : Bool)
  | idleSet (min : ℕ) (saved : Bool) (now : ℕ) (mode : Mode)
  | tick (t : Tick)

def Owner.apply (s : Owner) : Op → Owner × List Ev
  | .start phaseMin fromH toH clock => s.start phaseMin fromH toH clock
  | .stop => s.stop
  | .activity now => (s.activity now, [])
  | .unitAdv now mode linkUp => s.onUnitAdv now mode linkUp
  | .idleSet min saved now mode => s.idleSet min saved now mode
  | .tick t => s.tick t

end OpenCalifornia.BleExp
