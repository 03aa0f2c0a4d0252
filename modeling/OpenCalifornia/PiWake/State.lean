import Mathlib
import OpenCalifornia.Lib.Bits
import OpenCalifornia.Lib.Machine

/-! # The wires to the Raspberry Pi

`pi_wake.c`: one line wakes the halted Pi on the ignition edge, the other halts it after parking.
When each line was last pulled low and why is for the status page only and left out. -/

namespace OpenCalifornia.PiWake
open Lib Lib.Bits Lib.Machine

/-- `cali_uptime_ms` -/
abbrev Time := BitVec 64

def pulseMs : BitVec 32 := 200
def holdMaxMs : BitVec 32 := 5000
def minGapMs : Time := 60000
def haltPulseMs : BitVec 32 := 500
def guardMin : ℕ := 10
def minuteMs : ℕ := 60000
def minMax : ℕ := 1440

/-- What `cali_ac_ignition` reads: -1, 0 or 1. -/
inductive Ign
  | unknown | off | on
deriving DecidableEq

inductive WakeReason
  | ignition | manual
deriving DecidableEq

inductive HaltReason
  | timer | battery | manual
deriving DecidableEq

/-- The calls of `cali_pi_wake_line` and `cali_pi_halt_line`. -/
inductive Ev
  | wake (reason : WakeReason) | wakeFree
  | halt (reason : HaltReason) | haltFree
deriving DecidableEq

/-- The fields of the energy frame that the guard reads, -1 where it has none. -/
structure Energy where
  sleepWarning : ℤ := -1
  warnTwo : ℤ := -1
  socLevel : ℤ := -1

structure State where
  on : Bool := true
  prev : Ign := .unknown
  low : Bool := false
  autoEver : Bool := false
  releaseAt : Time := 0
  autoAt : Time := 0
  phMin : ℕ := 30
  phSoc : ℕ := 30
  driving : Bool := false
  halted : Bool := false
  hlow : Bool := false
  batt : Bool := false
  parkedAt : Time := 0
  hreleaseAt : Time := 0

/-- `cali_pw_init`, from what the store has for the three keys. -/
def init (pwIgn phMin phSoc : Option (List Byte)) (up : Time) : State where
  on := match pwIgn with
    | some [b] => b ≠ 0
    | _ => true
  phMin := match phMin with
    | some [b, c] => if b.toNat + 256 * c.toNat ≤ minMax then b.toNat + 256 * c.toNat else 30
    | _ => 30
  phSoc := match phSoc with
    | some [b] => if b.toNat ≤ 100 then b.toNat else 30
    | _ => 30
  parkedAt := up

/-- `cali_pw_set_enabled`; `saved` is what the store answers. -/
def State.setEnabled (s : State) (on saved : Bool) : State := if saved then { s with on } else s

/-- `cali_ph_set_min` -/
def State.setMin (s : State) (min : ℕ) (saved : Bool) : State :=
  if minMax < min ∨ ¬ saved then s else { s with phMin := min }

/-- `cali_ph_set_soc` -/
def State.setSoc (s : State) (pct : ℕ) (saved : Bool) : State :=
  if 100 < pct ∨ ¬ saved then s else { s with phSoc := pct }

/-- `cali_pw_pulse` -/
def State.wakePulse (s : State) (ms : BitVec 32) (up : Time) : Option State :=
  if s.low ∨ s.hlow ∨ ms < 1 ∨ holdMaxMs < ms then none
  else some { s with
    low := true
    releaseAt := up + ms.zeroExtend 64
    parkedAt := up
    halted := false }

/-- `cali_ph_pulse` -/
def State.haltPulse (s : State) (ms : BitVec 32) (up : Time) : Option State :=
  if s.low ∨ s.hlow ∨ ms < 1 ∨ holdMaxMs < ms then none
  else some { s with
    hlow := true
    hreleaseAt := up + ms.zeroExtend 64
    halted := true }

/-- `cali_pw_batt_low` -/
def battLow (e : Energy) (socPct : ℕ) : Bool :=
  e.sleepWarning = 1 ∨ 1 ≤ e.warnTwo ∨ (1 ≤ e.socLevel ∧ e.socLevel ≤ 10 ∧ e.socLevel * 10 ≤ socPct)

/-- `limit_min` -/
def State.limitMin (s : State) : ℕ :=
  if s.batt ∧ s.phSoc ≠ 0 ∧ (s.phMin = 0 ∨ guardMin < s.phMin) then guardMin else s.phMin

/-- What a reading and the energy frame say. -/
def State.look (s : State) (ign : Ign) (e : Energy) (now : Time) : State :=
  let s := match ign with
    | .on => { s with driving := true, halted := false, prev := .on }
    | .off =>
      if s.prev ≠ Ign.off then { s with driving := false, parkedAt := now, prev := .off } else s
    | .unknown => s
  { s with batt := battLow e s.phSoc }

/-- The ignition edge while the setting is on; `up` is the time that the pulse reads. -/
def State.onEdge (s : State) (now up : Time) : State × List Ev :=
  if s.autoEver ∧ now - s.autoAt < minGapMs then (s, [])
  else
    match s.wakePulse pulseMs up with
    | some s => ({ s with autoEver := true, autoAt := now }, [.wake .ignition])
    | none => (s, [])

/-- The parking timer. -/
def State.park (s : State) (now up : Time) : State × List Ev :=
  let lim := s.limitMin
  if ¬ s.driving ∧ ¬ s.halted ∧ lim ≠ 0 ∧
      BitVec.ofNat 64 (lim * minuteMs) ≤ now - s.parkedAt then
    match s.haltPulse haltPulseMs up with
    | some s => (s, [.halt (if lim ≠ s.phMin then .battery else .timer)])
    | none => (s, [])
  else (s, [])

/-- `cali_pw_step` -/
def State.step (s : State) (ign : Ign) (e : Energy) (now up : Time) : State × List Ev :=
  let edge := ign = Ign.on ∧ s.prev ≠ .on
  let s := s.look ign e now
  let (s, woke) := if edge ∧ s.on then s.onEdge now up else (s, [])
  let (s, halted) := s.park now up
  (s, woke ++ halted)

/-- The lines that are due are released. -/
def State.release (s : State) (now : Time) : State × List Ev :=
  let (s, freed) := if s.low ∧ s.releaseAt ≤ now then ({ s with low := false }, [.wakeFree])
    else (s, [])
  if s.hlow ∧ s.hreleaseAt ≤ now then ({ s with hlow := false }, freed ++ [.haltFree])
  else (s, freed)

/-- `cali_pw_tick` -/
def State.tick (s : State) (ready : Bool) (ign : Ign) (e : Energy) (now up : Time) :
    State × List Ev :=
  let (s, freed) := s.release now
  let (s, evs) := s.step (if ready then ign else .unknown) e now up
  (s, freed ++ evs)

inductive Op
  /-- The owner's tick: whether the session is ready, the ignition and the energy frame it holds. -/
  | tick (ready : Bool) (ign : Ign) (e : Energy) (now up : Time)
  | wake (ms : BitVec 32) (up : Time)
  | halt (ms : BitVec 32) (up : Time)
  | setEnabled (on saved : Bool)
  | setMin (min : ℕ) (saved : Bool)
  | setSoc (pct : ℕ) (saved : Bool)

def State.apply (s : State) : Op → State × List Ev
  | .tick ready ign e now up => s.tick ready ign e now up
  | .wake ms up =>
    match s.wakePulse ms up with
    | some s => (s, [.wake .manual])
    | none => (s, [])
  | .halt ms up =>
    match s.haltPulse ms up with
    | some s => (s, [.halt .manual])
    | none => (s, [])
  | .setEnabled on saved => (s.setEnabled on saved, [])
  | .setMin min saved => (s.setMin min saved, [])
  | .setSoc pct saved => (s.setSoc pct saved, [])

end OpenCalifornia.PiWake
