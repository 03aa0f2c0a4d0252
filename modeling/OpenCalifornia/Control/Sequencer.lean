import OpenCalifornia.Control.Planner
import OpenCalifornia.Lib.Machine

/-! # The command sequencer

`control_run.c`: one command at a time, its frames one write at a time, on the tick of the session.
The done callback runs inside the sequencer and may submit the next command. -/

namespace OpenCalifornia.Control.Sequencer
open Lib Lib.Text Lib.Machine Firmware

def deadlineMs : ℕ := 4000

def tickMs : ℕ := 100

/-- `CODEC_CONFIG_PULL_MS` -/
def configPullMs : ℕ := 2000

/-- `cali_ctl_rc_e`: the codes of a plan, and those of a run. -/
inductive Result
  | plan (rc : Rc)
  | busy
  | notReady
  | failed
  | timeout
  | unconfirmed
  deriving DecidableEq

/-- The config pull: none, going out, waiting for the unit's reply. -/
inductive Pull
  | none
  | out
  | wait
  deriving DecidableEq

/-- A command as it is submitted. -/
structure Cmd where
  fn : String
  what : String
  value : Text
  localNow : ℤ

/-- The buffers that keep a command. -/
def Cmd.kept (c : Cmd) : Cmd where
  fn := String.ofList (copy 24 c.fn.toList)
  what := String.ofList (copy 32 c.what.toList)
  value := copy valueMax c.value
  localNow := c.localNow

/-- `O` -/
structure Ctl where
  active : Bool := false
  inflight : Bool := false
  i : ℕ := 0
  nextAt : ℕ := 0
  deadline : ℕ := 0
  plan : Plan := { rc := .ok }
  pull : Pull := .none
  pullUntil : ℕ := 0
  cmd : Cmd := ⟨"", "", [], 0⟩
  submittedAt : ℕ := 0

/-- The sequencer with `s_now`, the session's link, and whether the transport holds a write. -/
structure State where
  ctl : Ctl := {}
  now : ℕ := 0
  link : Bool := false
  held : Bool := false

/-- What comes out of the sequencer, goes out on the link and comes back. -/
inductive Event
  | answered (r : Result) (reason : Option String)
  | pending (c : Cmd) (deadline : ℕ)
  | planned (pull : Bool) (f : List Write)
  | write (pull : Bool) (w : Write) (now : ℕ)
  | written (ok : Bool) (now : ℕ)
  | done (r : Result) (reason : Option String)
  | tick (now : ℕ)
  | drop
  | up

/-- A submit, with what the session answers in it: the fields of its frames, whether it is armed
while its link is up, and whether it has the function's frame. -/
structure Submit where
  cmd : Cmd
  get : Get
  ready : Bool
  frame : Bool

-- Each function answers with its events, the newest first.

def Cmd.plan (c : Cmd) (localNow : ℤ) (get : Get) : Plan :=
  Firmware.plan c.fn c.what c.value localNow get

/-- `cali_ctl_busy` -/
def Ctl.busy (o : Ctl) : Bool := o.active ∨ o.inflight

/-- The end of `submit`, for a plan that is accepted. -/
def State.accept (s : State) (c : Cmd) (plan : Plan) (pulling : Bool) : List Event × State :=
  let deadline := s.now + deadlineMs + if pulling then configPullMs else 0
  ([.planned pulling plan.f, .pending c deadline],
    { s with
      ctl := { s.ctl with
        active := true
        i := 0
        nextAt := s.now
        deadline
        plan
        pull := if pulling then .out else .none
        cmd := c.kept
        submittedAt := s.now } })

def State.submit (s : State) (x : Submit) : List Event × State :=
  if s.ctl.busy then ([.answered .busy none], s)
  else
    let plan := x.cmd.plan x.cmd.localNow x.get
    if (plan.rc = .ok ∨ plan.rc = .refused) ∧ ¬ (s.link ∧ x.ready ∧ x.frame) then
      ([.answered .notReady none], s)
    else if plan.rc = .ok then s.accept x.cmd plan false
    else if plan.rc = .refused ∧ plan.pull then s.accept x.cmd pullPlan true
    else ([.answered (.plan plan.rc) plan.reason], s)

/-- What a done callback submits. -/
def State.submits (s : State) : List Submit → List Event × State
  | [] => ([], s)
  | x :: xs =>
    let (e, s) := s.submit x
    let (es, s) := s.submits xs
    (es ++ e, s)

def State.finish (s : State) (r : Result) (reason : Option String) (inside : List Submit) :
    List Event × State :=
  let (es, s) := { s with ctl := { s.ctl with active := false, pull := .none } }.submits inside
  (es ++ [.done r reason], s)

/-- `cali_ctl_on_written` -/
def State.onWritten (s : State) (ok : Bool) (inside : List Submit) : List Event × State :=
  if s.ctl.inflight = false then ([], s)
  else
    let s := { s with ctl := { s.ctl with inflight := false } }
    if s.ctl.active = false then ([], s)
    else if ok = false then s.finish .failed none inside
    else
      let s := { s with ctl := { s.ctl with i := s.ctl.i + 1 } }
      if s.ctl.i = s.ctl.plan.f.length then
        if s.ctl.pull = .out then
          ([], { s with ctl := { s.ctl with pull := .wait, pullUntil := s.now + configPullMs } })
        else s.finish (.plan .ok) none inside
      else
        let delay := (s.ctl.plan.f[s.ctl.i]?.map Write.delayMs).getD 0
        let nextAt := if delay ≠ 0 then s.now + delay + tickMs else s.now
        ([], { s with ctl := { s.ctl with nextAt } })

/-- How the transport takes a write: it answers nonzero, it takes it, or the write has completed
when the call returns. -/
inductive Reply
  | refused
  | taken
  | completed (ok : Bool)

/-- `cali_ctl_write_ok` of a frame; past the plan there is a zeroed one. -/
def Ctl.frame (o : Ctl) : Option Write :=
  o.plan.f[o.i]?.filter fun w => w.chr.any fun chr => writeOk chr w.data.length

/-- The end of `cali_ctl_tick`. -/
def State.send (s : State) (reply : Reply) (inside : List Submit) : List Event × State :=
  if s.ctl.inflight ∨ s.now < s.ctl.nextAt then ([], s)
  else
    match s.ctl.frame with
    | none => s.finish .failed none inside
    | some w =>
      let out := Event.write (s.ctl.pull ≠ .none) w s.now
      let s := { s with ctl := { s.ctl with inflight := true }, held := true }
      match reply with
      | .refused =>
        { s with ctl := { s.ctl with inflight := false }, held := false }.finish .failed none inside
      | .taken => ([out], s)
      | .completed ok =>
        let (es, back) := { s with held := false }.onWritten ok inside
        (es ++ [.written ok s.now, out], back)

/-- `cali_ctl_tick` -/
def State.tick (s : State) (now : ℕ) (get : Get) (reply : Reply) (inside : List Submit) :
    List Event × State :=
  let s := { s with now }
  if s.link = false then
    let sent := s.ctl.pull = .none ∧ (s.ctl.inflight ∨ 0 < s.ctl.i)
    let s := { s with ctl := { s.ctl with inflight := false } }
    if s.ctl.active then s.finish (if sent then .unconfirmed else .failed) none inside else ([], s)
  else if s.ctl.active = false then ([], s)
  else if s.ctl.deadline ≤ now then s.finish .timeout none inside
  else if s.ctl.pull = .wait then
    let plan := s.ctl.cmd.plan (s.ctl.cmd.localNow + ↑((now - s.ctl.submittedAt) / 1000)) get
    if plan.pull ∧ now < s.ctl.pullUntil then ([], s)
    else
      let s := { s with ctl := { s.ctl with pull := .none } }
      if plan.rc ≠ .ok then s.finish (.plan plan.rc) plan.reason inside
      else
        let (es, s) := { s with ctl := { s.ctl with plan, i := 0, nextAt := now } }.send
            reply inside
        (es ++ [.planned false plan.f], s)
  else s.send reply inside

/-- A result is delivered while the transport holds the write. A link that is lost takes the
transport's queue with it. -/
inductive Op
  | submit (x : Submit)
  | written (ok : Bool) (now : ℕ) (inside : List Submit)
  | tick (now : ℕ) (get : Get) (reply : Reply) (inside : List Submit)
  | drop
  | up

def step : Op → State → Option (List Event × State)
  | .submit x, s => some (s.submit x)
  | .written ok now inside, s =>
    if s.held ∧ s.now ≤ now then
      let (es, s) := { s with held := false }.onWritten ok inside
      some (es ++ [.written ok now], s)
    else none
  | .tick now g reply inside, s =>
    if s.now ≤ now then
      let (es, s) := s.tick now g reply inside
      some (.tick now :: es, s)
    else none
  | .drop, s => if s.link then some ([.drop], { s with link := false, held := false }) else none
  | .up, s => if s.link = false then some ([.up], { s with link := true }) else none

/-- What a reader of the events knows of the last command: the frames of its plan, how many of them
went out and were acknowledged with status 0, and when the last was; whether a frame of its own went
out, and whether the link was lost after that. With the last acknowledgement stands the time of the
tick before it. -/
structure Book where
  unfinished : Bool := false
  held : Bool := false
  cmd : Cmd := ⟨"", "", [], 0⟩
  due : ℕ := 0
  pull : Bool := false
  f : List Write := []
  sent : ℕ := 0
  acked : ℕ := 0
  ackAt : Option (ℕ × ℕ) := none
  own : Bool := false
  lost : Bool := false
  tickAt : ℕ := 0

def Book.add (b : Book) : Event → Book
  | .answered .. => b
  | .pending cmd due => { unfinished := true, held := b.held, cmd, due, tickAt := b.tickAt }
  | .planned pull f => { b with pull, f, sent := 0, acked := 0, ackAt := none }
  | .write pull _ now =>
    { b with held := true, sent := b.sent + 1, own := b.own || !pull, tickAt := now }
  | .written ok now =>
    if ok then { b with held := false, acked := b.acked + 1, ackAt := some (now, b.tickAt) }
    else { b with held := false }
  | .done .. => { b with unfinished := false }
  | .tick now => { b with tickAt := now }
  | .drop => { b with held := false, lost := b.lost || b.own }
  | .up => b

/-- Of events with the newest first. -/
def book (es : List Event) : Book := es.foldr (fun e b => b.add e) {}

/-- What may come next, whatever happens on the link. -/
def Legal (b : Book) : Event → Prop
  | .answered .. => True
  | .pending .. => b.unfinished = false ∧ b.held = false
  | .planned pull f => b.unfinished = true ∧ (∃ w rest, f = w :: rest ∧ w.delayMs = 0) ∧
      if pull then f = pullPlan.f
      else ∃ localNow get, (b.cmd.plan localNow get).rc = .ok ∧ f = (b.cmd.plan localNow get).f
  | .write pull w now => b.unfinished = true ∧ b.held = false ∧ pull = b.pull ∧
      b.f[b.sent]? = some w ∧ b.acked = b.sent ∧
      (∃ chr, w.chr = some chr ∧ writeOk chr w.data.length = true) ∧
      ∀ t last, b.ackAt = some (t, last) → w.delayMs ≠ 0 →
        last + w.delayMs + tickMs ≤ now ∧ (t ≤ last + tickMs → t + w.delayMs ≤ now)
  | .written .. => b.held = true
  | .done r _ => b.unfinished = true ∧
      (r = .plan .ok ↔ b.pull = false ∧ b.acked = b.f.length)
  | .tick now => b.unfinished = true → now < b.due
  | .drop => True
  | .up => True

/-- What may come next while every loss of the link is noticed. -/
def Confirms (b : Book) : Event → Prop
  | .answered r _ => r = .busy → b.unfinished = true ∨ b.held = true
  | .done r _ => r = .unconfirmed ↔ b.lost = true
  | _ => True

/-- The events of a run, the newest first. -/
def events (tr : List (Record Op (List Event) State)) : List Event := tr.flatMap Record.out

/-- The link returns before a tick has seen its loss, while a write is counted as out or frames of
the command are acknowledged; or a submit comes before that tick, after a command that ended with
its write out. -/
def Op.Unnoticed (s : State) : Op → Prop
  | .up => s.ctl.inflight = true ∨ s.ctl.active = true ∧ s.ctl.pull = .none ∧ 0 < s.ctl.i
  | .submit _ => s.link = false ∧ s.ctl.active = false ∧ s.ctl.inflight = true
  | _ => False

end OpenCalifornia.Control.Sequencer
