import OpenCalifornia.Lib.Machine
import OpenCalifornia.Thermostat.Firmware

/-! # The runner of the firmware's thermostat

`thermostat_run.c`: when a step runs and what it is given, and how its commands go out one at a time
through the control sequencer. What the session, the sensors and the sequencer answer comes from
outside. `log` keeps what happened, the newest first. -/

namespace OpenCalifornia.Thermostat.Runner
open Lib.Machine

/-- `CALI_CTL_*`, the results of a command -/
inductive Rc
  | ok | refused | elsewhere | badValue | none | busy | notReady | failed | timeout | unconfirmed
  deriving DecidableEq, Repr

/-- `result_name` -/
def Rc.name : Rc → Result
  | .ok => .ok
  | .busy => .busy
  | .notReady => .notReady
  | .failed => .other "FAILED"
  | .timeout => .other "TIMEOUT"
  | .unconfirmed => .other "UNCONFIRMED"
  | .refused | .elsewhere | .badValue | .none => .refused

inductive Act
  | request (r : Request)
  | switch (on : Bool)
  | step (request : Option Request) (cmd : Option Attempt) (cmds : List Firmware.Cmd)
  | submit (c : Firmware.Cmd)
  | result (c : Firmware.Cmd) (rc : Rc)
  | hold (on : Bool)
  | connectNow
  deriving DecidableEq, Repr

structure State where
  on : Bool
  req : Option Request := none
  due : Bool := false
  next : ℕ := 0
  linkWait : ℕ := 0
  heaterSeen : ℕ := 0
  heaterFault : ℤ := 0
  st : Firmware.State := Firmware.init
  /-- `s_cmds` from `s_i` to `s_n`. -/
  rest : List Firmware.Cmd := []
  wait : Bool := false
  batchOn : Bool := false
  /-- `s_cmd_what`, `s_cmd_res` -/
  cmd : Option Attempt := none
  /-- The sequencer has a command that it has not answered. -/
  pending : Bool := false
  log : List Act := []

/-- `airheater`'s frame of this link: the fields that the tick looks at. -/
structure Live where
  errorCode : ℤ
  faultTrigger : ℤ
  normal : ℤ
  permanent : ℤ

structure Env where
  cfg : Cfg
  input : Firmware.Input
  frameMs : ℕ
  live : Live
  ready : Bool
  /-- The answer to a submission that leaves so many commands: none for `CALI_CTL_PENDING`. -/
  answer : ℕ → Option Rc

def State.act (w : State) (a : Act) : State := { w with log := a :: w.log }

/-- The rest of the batch is still wanted. -/
def State.wanted (w : State) : Prop := ¬ (w.batchOn = true ∧ w.on = false) ∧ w.req ≠ some .off

instance (w : State) : Decidable w.wanted := by unfold State.wanted; infer_instance

/-- `cmd_done`, the record of the result. -/
def State.ended (w : State) (c : Firmware.Cmd) (rc : Rc) : State :=
  { w.act (.result c rc) with wait := false, pending := false, cmd := some ⟨c.what, rc.name⟩ }

/-- `cmd_done`, the end of the batch. -/
def State.stopBatch (w : State) (rc : Rc) : State :=
  { w with rest := [], due := w.due || (rc ≠ .busy ∧ rc ≠ .notReady) }

/-- `submit_next`, for the commands from the next one on. -/
def State.submitNext (e : Env) : List Firmware.Cmd → State → State
  | [], w => w
  | c :: rest, w =>
    let w := { w.act (.submit c) with wait := true, rest := c :: rest }
    match e.answer rest.length with
    | none => { w with pending := true }
    | some rc =>
      let w := w.ended c rc
      if rc = .ok ∧ rest ≠ [] ∧ w.wanted then submitNext e rest w else w.stopBatch rc

/-- `cmd_done` -/
def State.cmdDone (w : State) (e : Env) (rc : Rc) : State :=
  match w.rest with
  | [] => w
  | c :: rest =>
    let w := w.ended c rc
    if rc = .ok ∧ rest ≠ [] ∧ w.wanted then w.submitNext e rest else w.stopBatch rc

def linkWaitMs : ℕ := 30000

def waitStepMs : ℤ := 5000

/-- A cast to `uint64_t`. -/
def u64 (z : ℤ) : ℕ := (z % 2 ^ 64).toNat

/-- The request and the result are handed to the step, once. -/
def State.step (w : State) (e : Env) (now : ℕ) : Option State :=
  let inp := { e.input with
    nowMs := now
    enabled := w.on
    request := w.req
    cmdWhat := w.cmd.map Attempt.what
    cmdResult := w.cmd.map Attempt.result }
  (Firmware.step e.cfg inp w.st).map fun (out, st) =>
    let w := w.act (.step w.req w.cmd out.cmds)
    let w := w.act (.hold (st.mode ≠ .off ∨ st.hasPending))
    { w with req := none, cmd := none, st, rest := out.cmds, batchOn := w.on }

/-- A new 1702 frame with a fault steps at once. -/
def State.lookHeater (w : State) (e : Env) : State :=
  if e.frameMs = w.heaterSeen then w
  else { w with
    heaterSeen := e.frameMs
    due := w.due || (e.live.faultTrigger > 0 ∨ e.live.errorCode > 0)
    heaterFault :=
      if e.live.errorCode > 0 then e.live.errorCode
      else if e.live.normal > 0 ∨ e.live.permanent > 0 then 0
      else w.heaterFault }

/-- An AUTO tap from OFF waits for the link and the heater's frame. -/
def State.awaits (w : State) (e : Env) (now : ℕ) : Prop :=
  w.req = some .auto ∧ w.on = true ∧ w.st.mode = .off ∧
    (e.ready = false ∨ e.frameMs = 0 ∨ u64 (now - e.frameMs) > u64 e.cfg.heaterStaleMs)

instance (w : State) (e : Env) (now : ℕ) : Decidable (w.awaits e now) := by
  unfold State.awaits; infer_instance

def State.awaitLink (w : State) (now : ℕ) : State :=
  { w.act (.hold true) with linkWait := if w.linkWait = 0 then now + linkWaitMs else w.linkWait }

def nextStep (e : Env) (w : State) (now : ℕ) : ℕ :=
  now + u64 (if w.st.mode = .waiting ∧ e.cfg.periodMs > waitStepMs then waitStepMs
    else e.cfg.periodMs)

/-- The step that is due, and its first command. -/
def State.tickStep (w : State) (e : Env) (now : ℕ) : Option State :=
  let w := { w with linkWait := 0 }
  if w.due = false ∧ now < w.next then some w
  else
    ({ w with due := false } : State).step e now |>.map fun w =>
      ({ w with next := nextStep e w now } : State).submitNext e w.rest

/-- `cali_thermo_run_tick` -/
def State.tick (w : State) (e : Env) (now : ℕ) : Option State :=
  let w := w.lookHeater e
  if w.wait = true ∨ w.rest ≠ [] then some w
  else if w.awaits e now then
    let w := w.awaitLink now
    if now < w.linkWait then some w else w.tickStep e now
  else w.tickStep e now

/-- `cali_thermo_request` -/
def State.request (w : State) (r : Request) : State :=
  let w := w.act (.request r)
  let w := if r = .auto ∧ w.on then w.act .connectNow else w
  { w with req := some r, linkWait := 0, due := true }

/-- `cali_thermo_set_enabled` -/
def State.setEnabled (w : State) (on : Bool) : State :=
  { w.act (.switch on) with on, due := true }

inductive Op
  | tick (now : ℕ)
  | done (rc : Rc)
  | request (r : Request)
  | setEnabled (on : Bool)

/-- The sequencer answers the command that it has. -/
def Op.apply (op : Op) (e : Env) (w : State) : Option State :=
  match op with
  | .tick now => w.tick e now
  | .done rc => if w.pending then some (w.cmdDone e rc) else none
  | .request r => some (w.request r)
  | .setEnabled on => some (w.setEnabled on)

def step (i : Op × Env) (w : State) : Option (Unit × State) :=
  (i.1.apply i.2 w).map fun w => ((), w)

/-- `cali_thermo_run_init` -/
def init (on : Bool) : State := { on }

end OpenCalifornia.Thermostat.Runner
