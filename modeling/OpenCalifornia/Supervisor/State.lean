import Mathlib
import OpenCalifornia.Lib.Machine

/-! # The session supervisor

The task of `session.py` that holds one session while the web UI is in use, and what happens to it
while it waits. Between two waits it runs at once. -/

namespace OpenCalifornia.Supervisor
open Lib.Machine

def sessionBackoff : List ℕ := [5, 10, 30, 60]
def asleepAfter : ℕ := 4

structure Config where
  interval : ℕ
  uiIdleS : ℤ
  persistent : Bool

/-- The heartbeat task of a session. -/
inductive Beat
  | none | running | done
  deriving DecidableEq

/-- A `PersistentSession`: whether its link was opened and not closed since, whether `_client` is
set, `is_connected`, the heartbeat and the event that ends it. `held` says that the supervisor has
had it. -/
structure Sess where
  connected : Bool := true
  client : Bool := false
  isConnected : Bool := true
  beat : Beat := .none
  stop : Bool := false
  held : Bool := false
  deriving DecidableEq

def Sess.isUp (x : Sess) : Bool := x.client ∧ x.isConnected ∧ x.beat = .running

inductive SessionState
  | off | connecting | up | degraded | asleep
  deriving DecidableEq

/-- The awaits of `aclose`. -/
inductive Stage
  | roof | beat | link
  deriving DecidableEq

/-- Where the supervisor waits. A session is closed to be released or to be replaced. -/
inductive Pc
  | releaseLock
  | close (stage : Stage) (replace : Bool)
  | idle (deadline : ℕ)
  | sleep (deadline : ℕ)
  | connectLock
  | connect
  | subscribe (i : ℕ)
  | warm (i : ℕ)
  | backoff (deadline : ℕ)
  deriving DecidableEq

/-- The shared lock `_ble`. -/
inductive Lock
  | free | supervisor | other
  deriving DecidableEq

/-- The supervisor with every session there ever was. `due` says that the wake was set since the
last look at what there is to do. -/
structure State where
  pc : Pc
  now : ℕ := 0
  wall : ℤ
  sessions : List Sess := []
  session : Option ℕ := none
  sessionState : SessionState := .off
  backoffFails : ℕ := 0
  release : Bool := false
  lastUiActivity : Option ℤ := none
  lock : Lock := .free
  wake : Bool := false
  due : Bool := false
  deriving DecidableEq

variable (c : Config)

/-- `_ui_active` -/
def State.uiActive (s : State) : Bool :=
  if s.release then false else s.lastUiActivity.any fun a => s.wall - a < c.uiIdleS

/-- The session that the supervisor holds is up. -/
def State.isUp (s : State) : Bool := (s.session.bind (s.sessions[·]?)).any Sess.isUp

/-- `live_session() is not None` -/
def State.live (s : State) : Bool := c.persistent ∧ s.isUp

def State.update (s : State) (i : ℕ) (f : Sess → Sess) : State :=
  { s with sessions := s.sessions.modify i f }

def State.toIdle (s : State) : State :=
  { s with sessionState := .off, pc := .idle (s.now + c.interval) }

/-- From the top of the loop to the next wait. -/
def State.evaluate (s : State) : State :=
  let s := { s with due := false }
  if s.uiActive c = false then
    if s.session.isSome then { s with pc := .releaseLock } else s.toIdle c
  else if s.isUp then { s with pc := .sleep (s.now + c.interval) }
  else { s with pc := .connectLock }

/-- A connect that failed. -/
def State.failed (s : State) : State :=
  let fails := s.backoffFails + 1
  { s with
    backoffFails := fails
    session := none
    sessionState := if fails ≥ asleepAfter then .asleep else .degraded
    lock := .free
    pc := .backoff (s.now + sessionBackoff.getD (min fails sessionBackoff.length - 1) 0) }

/-- The supervisor goes on to its next wait, if it can; `ok` is how an await of `start` ends. -/
def State.resume (s : State) (ok : Bool) : Option State :=
  match s.pc with
  | .releaseLock =>
    if s.lock = .free then some { s with lock := .supervisor, pc := .close .roof false } else none
  | .close .roof replace =>
    s.session.map fun i =>
      { s.update i (fun x => { x with stop := true }) with pc := .close .beat replace }
  | .close .beat replace =>
    if (s.session.bind (s.sessions[·]?)).any fun x => x.beat = .running then none
    else some { s with pc := .close .link replace }
  | .close .link replace =>
    s.session.map fun i =>
      let s := { s.update i (fun x => { x with connected := false, client := false }) with
        session := none }
      if replace then { s with pc := .connect } else { s with lock := .free }.toIdle c
  | .idle deadline =>
    if s.wake ∨ deadline ≤ s.now then some ({ s with wake := false }.evaluate c) else none
  | .sleep deadline => if deadline ≤ s.now then some (s.evaluate c) else none
  | .connectLock =>
    if s.lock = .free then
      some { s with
        lock := .supervisor
        sessionState := .connecting
        pc := if s.session.isSome then .close .roof true else .connect }
    else none
  | .connect =>
    if ok then some { s with sessions := s.sessions ++ [{}], pc := .subscribe s.sessions.length }
    else some s.failed
  | .subscribe i =>
    if ok then some { s.update i (fun x => { x with beat := .running }) with pc := .warm i }
    else some s.failed
  | .warm i =>
    some ({ s.update i (fun x => { x with client := true, held := true }) with
      session := some i
      sessionState := .up
      backoffFails := 0
      lock := .free }.evaluate c)
  | .backoff deadline =>
    if s.wake ∨ deadline ≤ s.now then some ({ s with wake := false }.evaluate c) else none

/-- `supervise` is started. -/
def boot (wall : ℤ) : State := State.evaluate c { pc := .connectLock, wall := wall }

inductive Op
  | resume (ok : Bool)
  | clock (now : ℕ) (wall : ℤ)
  | activity
  | nudge
  | connect
  | disconnect
  | claimIntent
  /-- A link drops. -/
  | drop (i : ℕ)
  /-- A heartbeat that was told to stop ends. -/
  | beatEnds (i : ℕ)
  /-- The lock is taken by another task, and given back. -/
  | lock
  | unlock

def State.setWake (s : State) : State := { s with wake := true, due := true }

def State.claimIntent (s : State) : State :=
  { s with release := false, lastUiActivity := some s.wall }

def State.nudge (s : State) : State :=
  if c.persistent ∧ s.live c = false then { s with backoffFails := 0 }.setWake else s

def step : Op → State → Option (Unit × State)
  | .resume ok, s => (s.resume c ok).map fun s => ((), s)
  | .clock now wall, s =>
    if s.now ≤ now then some ((), { s with now := now, wall := wall }) else none
  | .activity, s => some ((), { s with lastUiActivity := some s.wall })
  | .nudge, s => some ((), s.nudge c)
  | .connect, s => some ((), s.claimIntent.nudge c)
  | .disconnect, s => some ((), { s with release := true }.setWake)
  | .claimIntent, s => some ((), s.claimIntent)
  | .drop i, s => some ((), s.update i fun x => { x with isConnected := false })
  | .beatEnds i, s =>
    some ((), s.update i fun x =>
      if x.stop ∧ x.beat = .running then { x with beat := .done } else x)
  | .lock, s => if s.lock = .free then some ((), { s with lock := .other }) else none
  | .unlock, s => if s.lock = .other then some ((), { s with lock := .free }) else none

/-- The supervisor waits for time to pass. -/
def State.Asleep (s : State) : Prop :=
  match s.pc with
  | .idle deadline => s.wake = false ∧ s.now < deadline
  | .backoff deadline => s.wake = false ∧ s.now < deadline
  | .sleep deadline => s.now < deadline
  | _ => False

/-- It does not wait for time with a wake that it has not looked into. -/
def State.Served (s : State) : Prop := s.Asleep → s.due = false

/-- Of a session that it no longer has the link is closed and the heartbeat has ended. -/
def State.Closed (s : State) : Prop :=
  ∀ i x, s.sessions[i]? = some x → x.held = true → s.session ≠ some i →
    x.connected = false ∧ x.beat ≠ .running

/-- A request that sets the wake. -/
def Op.wakes (s : State) : Op → Bool
  | .nudge => c.persistent ∧ s.live c = false
  | .connect => c.persistent ∧ s.live c = false
  | .disconnect => true
  | _ => false

/-- The request comes while the supervisor sleeps beside a session that was up. -/
def Op.Missed (s : State) (op : Op) : Prop :=
  op.wakes c s = true ∧ ∃ deadline, s.pc = .sleep deadline ∧ s.now < deadline

end OpenCalifornia.Supervisor
