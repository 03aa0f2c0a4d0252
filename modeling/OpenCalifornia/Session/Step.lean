import OpenCalifornia.Lib.Machine
import OpenCalifornia.Session.State

/-! # The satellite's bonded session: its steps

The functions of `session.c`, each from a state to a state. A completion that the transport
delivers inside a call is handled there, before the caller goes on. -/

namespace OpenCalifornia.Session
open Lib Lib.Bits

def State.linkClear (s : State) : State :=
  let s :=
    if s.link = .up then
      { s.act (.linkDown s.now) with
        backoff := if s.now - s.upAt ≥ stableMs then backoffMinMs else s.backoff
        wasUp := true
        downAt := s.now }
    else s
  { s with
    link := .down
    hbOn := false
    warming := false
    reading := false
    snapped := false
    rereading := false
    heaterReading := false
    variantPending := false
    vehiclePre := false }

def State.restSet (s : State) (on : Bool) : State :=
  let s := if on then { s with redial := false } else s
  let s := { s with restLeft := s.rest ∧ ¬ on ∧ s.link ≠ .up }
  if s.rest = on then s else { s with rest := on, restNext := s.now + s.restPollMs }

def State.probeEnd (s : State) (e : Env) (ok : Bool) : State :=
  let s := { s with probe := false }
  let s :=
    if s.rest then
      let s := { s with restNext := s.now + s.restPollMs }
      if ok ∧ ¬ s.restConditions e then s.restSet false else s
    else s
  if ok ∧ (s.rest ∨ s.mode = .off) ∧ s.link ≠ .down then (s.act .disconnect).linkClear else s

def State.scheduleReconnect (s : State) (e : Env) : State :=
  if ¬ s.active ∨ s.mode = .off ∨ s.rest then s
  else if ¬ e.hasBond then { s with active := false }
  else
    let at' := s.now + s.backoff
    { s with
      reconnectPending := true
      reconnectAt :=
        if s.wasUp ∧ at' < s.downAt + unitCooldownMs then s.downAt + unitCooldownMs else at'
      backoff := if s.backoff * 2 > backoffMaxMs then backoffMaxMs else s.backoff * 2 }

/-- `within` -/
def isWithin (now at' ms : ℕ) : Bool := at' ≠ 0 ∧ (now < at' ∨ now - at' ≤ ms)

def State.viewerActive (s : State) (now : ℕ) : Bool :=
  isWithin now s.viewerAt viewerMs ∧ isWithin now s.inputAt inputIdleMs

/-- `rest_again`, and whether the session rests again. -/
def State.restAgain (s : State) (e : Env) : Bool × State :=
  if ¬ s.restLeft ∨ ¬ s.active ∨ s.mode = .off ∨ e.ctlBusy ∨ ¬ s.restConditions e ∨
      s.viewerActive s.now then (false, s)
  else (true, s.restSet true)

def peerHangup (status : ℤ) : Bool := status = 0x13 ∨ status = 0x213

def State.linkLost (s : State) (e : Env) (why : String) (status : ℤ) : State :=
  let was := s.link
  let s := { s with redial := false }
  let s := if s.probe then s.probeEnd e false else s
  let s := if s.rest ∧ s.liveUnitAwake then s.restSet false else s
  let s := s.linkClear
  let s := if was ≠ .down then s.act .disconnect else s
  let r := s.restAgain e
  let s := r.2
  let s :=
    if ¬ r.1 ∧ s.active ∧ s.mode ≠ .off ∧ why = "disconnected" ∧ peerHangup status ∧
        ¬ e.ctlBusy ∧ s.restConditions e then
      if s.viewerActive s.now then { s with redial := true, backoff := backoffMinMs }
      else s.restSet true
    else s
  s.scheduleReconnect e

def State.passReads (s : State) (c : String × ℕ) : Bool :=
  if s.vehiclePre ∧ c.2 = vehicleChar then false else variantHas c.1 s.linkVariant

def State.subscribeAndWarm (s : State) : State :=
  let s := { s with linkVariant := s.storedVariant }
  let chars := codecChars.filter fun c =>
    variantHas c.1 s.linkVariant ∧ c.1 ≠ "general" ∧ c.1 ≠ "generalpurposesignals"
  let s := chars.foldl (fun s c => s.act (.subscribe c.2)) s
  { s with warming := true, warmUntil := s.now + s.warmMs }

/-- The end of `read_next`: the pass is complete. -/
def State.passEnd (s : State) (e : Env) : State :=
  let s := { s.act .passDone with
    reading := false
    vehiclePre := false
    snapped := true
    waterNext := s.now + waterRereadMs }
  if s.probe then s.probeEnd e true else s

/-- `on_read`, with the `read_next` that ends it. -/
def State.onReadWith (next : State → State) (s : State) (char : ℕ) (status : ℤ)
    (data : List Byte) : State :=
  if s.variantPending ∧ char = vehicleChar then
    let s := { s.act (.credit .variant (status = 0)) with variantPending := false }
    let s := if status = 0 then { s.store vehicleChar data with vehiclePre := true } else s
    s.subscribeAndWarm
  else if s.heaterReading ∧ char = heaterChar then
    let s := { s.act (.credit .heater (status = 0)) with heaterReading := false }
    if status = 0 then s.store heaterChar data
    else { s with heaterNext := s.now + heaterRetryMs }
  else if s.rereading ∧ char = waterChar then
    let s := { s.act (.credit .water (status = 0)) with rereading := false }
    if status = 0 then s.store waterChar data else s
  else
    match readOrder[s.readIdx]? with
    | some c =>
      if ¬ s.reading ∨ char ≠ c.2 then s
      else
        let s := s.act (.credit (.pass s.readIdx) (status = 0))
        let s := if status = 0 then s.store c.2 data else s
        next { s with readIdx := s.readIdx + 1 }
    | none => s

/-- A read event reaches `on_read` on an up link of an active session. -/
def State.readEvent (next : State → State) (s : State) (char : ℕ) (status : ℤ)
    (data : List Byte) : State :=
  if s.active ∧ s.link = .up then s.onReadWith next char status data else s

/-- The completion that a read call delivers before it returns. -/
def State.readInside (next : State → State) (s : State) (asker : Asker) (char : ℕ)
    (answer : Answer (ℤ × List Byte)) : State :=
  match answer.inside with
  | some (status, data) =>
    if answer.rc = 0 then (s.act (.complete asker status data)).readEvent next char status data
    else s
  | none => s

/-- `read_next`. Every turn moves the index on, so one turn more than there are characteristics
reaches the end. -/
def State.readNext (e : Env) : ℕ → State → State
  | 0, s => s
  | n + 1, s =>
    match readOrder[s.readIdx]? with
    | none => s.passEnd e
    | some c =>
      if ¬ s.passReads c then State.readNext e n { s with readIdx := s.readIdx + 1 }
      else
        let answer := e.pass s.readIdx
        let s := s.act (.read (.pass s.readIdx) (answer.rc = 0))
        if answer.rc = 0 then s.readInside (State.readNext e n) (.pass s.readIdx) c.2 answer
        else State.readNext e n { s with readIdx := s.readIdx + 1 }

def turns : ℕ := readOrder.length + 1

def State.onRead (s : State) (e : Env) (char : ℕ) (status : ℤ) (data : List Byte) : State :=
  s.onReadWith (State.readNext e turns) char status data

/-- A call of `read`, with what is delivered inside it. -/
def State.callRead (s : State) (e : Env) (asker : Asker) (char : ℕ)
    (answer : Answer (ℤ × List Byte)) : State :=
  (s.act (.read asker (answer.rc = 0))).readInside (State.readNext e turns) asker char answer

def State.onDiscovered (s : State) (e : Env) (status : ℤ) : State :=
  if status ≠ 0 then s.linkLost e "discover" status
  else if s.storedVariant ≥ 0 then s.subscribeAndWarm
  else
    let s := s.callRead e .variant vehicleChar e.variant
    if e.variant.rc = 0 then { s with variantPending := true } else s.subscribeAndWarm

def State.startReads (s : State) (e : Env) : State :=
  State.readNext e turns
    { s.act (.passStart s.linkVariant) with warming := false, reading := true, readIdx := 0 }

def State.discoveredEvent (s : State) (e : Env) (status : ℤ) : State :=
  if s.active ∧ s.link = .up then s.onDiscovered e status else s

/-- The link's variables when it comes up. -/
def State.linkFresh (s : State) : State :=
  { s.act .linkUp with
    restLeft := false
    link := .up
    upAt := s.now
    reconnectPending := false
    hbOn := true
    hbCtr := heartbeatStart
    hbNext := s.now
    hbSince := s.now
    warming := false
    reading := false
    snapped := false
    rereading := false
    heaterReading := false
    heaterNext := s.now + s.heaterMs
    variantPending := false
    vehiclePre := false }

def State.linkUp (s : State) (e : Env) : State :=
  let s := s.linkFresh.unitCheck e
  let s := { s with slots := fun c => { s.slots c with live := false } }
  let s := s.act .discover
  let s :=
    match e.discover.inside with
    | some status =>
      if e.discover.rc = 0 then (s.act .discovered).discoveredEvent e status else s
    | none => s
  if e.discover.rc ≠ 0 then s.linkLost e "discover" e.discover.rc else s

def State.connectNow (s : State) (e : Env) : State :=
  let s := s.act (.connect s.now (s.rest ∨ s.mode = .off) s.probe)
  if e.connect = 0 then { s with link := .connecting, connectStarted := s.now }
  else
    let s := { s with redial := false }
    let s := if s.probe then s.probeEnd e false else s
    let s := (s.restAgain e).2
    s.scheduleReconnect e

def State.boot (s : State) (e : Env) : State :=
  if ¬ e.hasBond then s
  else
    let s := { s with active := true }
    if s.mode ≠ .off then s.connectNow e else s

def State.setMode (s : State) (e : Env) (mode : Mode) : State :=
  if mode = s.mode then s
  else
    let s := { s with mode := mode }
    if ¬ s.active then s
    else
      let s := if mode = .hold then { s with hbSince := s.now } else s
      if mode = .off then
        let s := { s with reconnectPending := false, redial := false }
        if s.link ≠ .down ∧ ¬ s.probe then (s.act .disconnect).linkClear else s
      else if s.link = .down ∧ ¬ s.reconnectPending ∧ ¬ s.rest then
        { s with backoff := backoffMinMs }.connectNow e
      else s

def State.onBonded (s : State) (e : Env) : State :=
  let s := (s.setMode e .hold).restSet false
  { s with active := true }.linkUp e

def State.stop (s : State) (e : Env) : State :=
  let s := { s.restSet false with redial := false }
  let s := if s.probe then s.probeEnd e false else s
  let s := { s with active := false, reconnectPending := false, backoff := backoffMinMs }
  let s := if s.link ≠ .down then s.act .disconnect else s
  s.linkClear.unitCheck e

/-- `cali_session_probe` -/
def State.startProbe (s : State) (e : Env) : State :=
  if ¬ s.active ∨ s.probe then s
  else
    let s := { s with probe := true }
    if s.link = .down then { s with reconnectPending := false }.connectNow e
    else if s.link = .up ∧ s.snapped ∧ ¬ s.reading ∧ ¬ s.warming then
      { s with warming := true, warmUntil := s.now + s.warmMs }
    else s

def State.reconnectSoon (s : State) (e : Env) : State :=
  let s :=
    if s.rest then
      let s := s.restSet false
      if s.active ∧ s.link = .down ∧ ¬ s.reconnectPending ∧ ¬ s.probe then
        { s with backoff := backoffMinMs }.scheduleReconnect e
      else s
    else s
  if s.active ∧ s.link = .down ∧ s.reconnectPending then
    { s with
      reconnectAt :=
        if s.wasUp ∧ s.now < s.downAt + unitCooldownMs then s.downAt + unitCooldownMs
        else s.now }
  else s

/-- A clock value that is never 0, the mark of "never". -/
def stamp (now : ℕ) : ℕ := if now = 0 then 1 else now

def State.wake (s : State) (e : Env) : State :=
  let s := { s with inputAt := stamp s.now }
  let s := if s.mode ≠ .hold then s.setMode e .hold else s
  s.reconnectSoon e

/-- `cali_session_connect` -/
def State.connectButton (s : State) (e : Env) : State := if ¬ e.hasBond then s else s.wake e

/-- `cali_session_hold` -/
def State.setHold (s : State) (e : Env) (on : Bool) : State :=
  if on = s.hold then s
  else
    let s := { s with hold := on }
    if ¬ on then s
    else
      let s := { s with heaterNext := s.now }
      let s := if s.mode ≠ .hold then s.setMode e .hold else s
      s.reconnectSoon e

def State.viewer (s : State) (e : Env) (now : ℕ) : State :=
  let s := { s with viewerAt := stamp now }
  if s.rest ∧ s.active ∧ s.mode ≠ .off ∧ s.viewerActive now then
    let s := s.reconnectSoon e
    { s with redial := s.link = .down ∧ s.reconnectPending }
  else s

def State.input (s : State) (e : Env) (now : ℕ) : State :=
  { s with inputAt := stamp now }.viewer e now

def State.setRestPoll (s : State) (min : ℕ) : State :=
  { s with restPollMs := min * 60000, restNext := s.now + min * 60000 }

def State.ready (s : State) : Bool :=
  s.link = .up ∧ s.snapped ∧ s.mode = .hold ∧ s.now - s.hbSince ≥ armDelayMs

/-- The transport events that the session takes. -/
inductive Event
  | connected
  | encOk
  | connectFail (status : ℤ)
  | encFail (status : ℤ)
  | disconnected (status : ℤ)
  | discovered (status : ℤ)
  | read (char : ℕ) (status : ℤ) (data : List Byte)
  | notify (char : ℕ) (data : List Byte)
  | heartbeat (status : ℤ)

/-- A heartbeat's completion, which may arrive inside its write. -/
def State.heartbeatEvent (s : State) (e : Env) (status : ℤ) : State :=
  if s.active ∧ s.link = .up ∧ status ≠ 0 then s.linkLost e "heartbeat" status else s

/-- `on_event`, the loss of a link. A dropped link is cleared before the loss is handled. -/
def State.lostEvent (s : State) (e : Env) (why : String) (status : ℤ) : State :=
  if s.link = .down then s
  else
    let s := if why = "enc_fail" then s else s.linkClear
    s.linkLost e why status

def State.onEvent (s : State) (e : Env) (ev : Event) : State :=
  if ¬ s.active then s
  else
    match ev with
    | .connected =>
      if s.link = .connecting then { s with link := .connected, connectedAt := s.now } else s
    | .encOk => if s.link = .connected then s.linkUp e else s
    | .connectFail status => s.lostEvent e "connect_fail" status
    | .encFail status => s.lostEvent e "enc_fail" status
    | .disconnected status => s.lostEvent e "disconnected" status
    | .discovered status => if s.link = .up then s.onDiscovered e status else s
    | .read char status data => if s.link = .up then s.onRead e char status data else s
    | .notify char data =>
      if s.link = .up ∧ char ∈ codecChars.map Prod.snd then s.store char data else s
    | .heartbeat status => s.heartbeatEvent e status

def State.hbWanted (s : State) (e : Env) : Bool :=
  s.mode = .hold ∨ s.variantPending ∨ s.warming ∨ s.reading ∨ s.probe ∨ e.ctlBusy

/-- The heartbeat of a tick, and whether the tick goes on after it. -/
def State.tickHeartbeat (s : State) (e : Env) : Bool × State :=
  if s.link = .up ∧ s.hbOn ∧ s.hbWanted e ∧ s.now ≥ s.hbNext then
    let s := { s.act (.heartbeat s.hbCtr) with
      hbCtr := (s.hbCtr + 1) % 2 ^ 32
      hbNext :=
        if s.now - s.hbNext ≥ heartbeatPeriodMs then s.now + heartbeatPeriodMs
        else s.hbNext + heartbeatPeriodMs }
    let s :=
      match e.heartbeat.inside with
      | some status => if e.heartbeat.rc = 0 then s.heartbeatEvent e status else s
      | none => s
    if e.heartbeat.rc ≠ 0 then (false, s.linkLost e "heartbeat" e.heartbeat.rc) else (true, s)
  else (true, s)

def State.tickWarm (s : State) (e : Env) : State :=
  if s.link = .up ∧ s.warming ∧ ¬ s.rereading ∧ ¬ s.heaterReading ∧ s.now ≥ s.warmUntil then
    s.startReads e
  else s

def State.tickRedial (s : State) : State :=
  if s.redial ∧ s.link = .up ∧ s.snapped ∧ (s.mode ≠ .hold ∨ s.ready) then
    { s with redial := false }
  else s

/-- No read runs and none is about to start. -/
def State.idleLink (s : State) : Bool :=
  s.link = .up ∧ s.snapped ∧ ¬ s.reading ∧ ¬ s.warming ∧ ¬ s.rereading ∧ ¬ s.heaterReading

def State.tickWater (s : State) (e : Env) : State :=
  if s.idleLink ∧ s.now ≥ s.waterNext then
    let s := { s with waterNext := s.now + waterRereadMs }
    let s := s.callRead e .water waterChar e.water
    if e.water.rc = 0 then { s with rereading := true } else s
  else s

def State.tickHeater (s : State) (e : Env) : State :=
  if s.hold ∧ s.idleLink ∧ s.now ≥ s.heaterNext then
    let s := { s with heaterNext := s.now + s.heaterMs }
    let s := s.callRead e .heater heaterChar e.heater
    if e.heater.rc = 0 then { s with heaterReading := true }
    else { s with heaterNext := s.now + heaterRetryMs }
  else s

/-- The watchdogs and the connects of a tick. -/
def State.tickLink (s : State) (e : Env) : State :=
  if s.link = .connecting ∧ s.now - s.connectStarted ≥ connectTimeoutMs then
    s.linkLost e "connect_timeout" 0
  else if s.link = .connected ∧ s.now - s.connectedAt ≥ encTimeoutMs then
    s.linkLost e "enc_timeout" 0
  else if s.rest ∧ s.restPollMs ≠ 0 ∧ s.mode ≠ .off ∧ s.link = .down ∧ ¬ s.probe ∧
      s.now ≥ s.restNext then
    s.startProbe e
  else if s.link = .down ∧ s.reconnectPending ∧ s.now ≥ s.reconnectAt then
    let s := { s with reconnectPending := false }
    if ¬ e.hasBond then { s with active := false, redial := false } else s.connectNow e
  else s

/-- `cali_session_tick`, after the clock is set and the control sequencer has run. -/
def State.tick (s : State) (e : Env) : State :=
  if ¬ s.active then s
  else
    let r := s.tickHeartbeat e
    if ¬ r.1 then r.2
    else (((r.2.tickWarm e).tickRedial.tickWater e).tickHeater e).tickLink e

/-- What can happen to the session. The tick comes as two operations, because the sequencer's
callbacks may call the session in between. -/
inductive Op
  | boot
  | bonded
  | stop
  | clock (now : ℕ)
  | tick
  | event (ev : Event)
  | setMode (mode : Mode)
  | probe
  | command
  | connect
  | hold (on : Bool)
  | viewer (now : ℕ)
  | input (now : ℕ)
  | restPoll (min : Fin (restPollMaxMin + 1))
  | warm (ms : ℕ)
  | heaterMs (ms : ℕ)

/-- What the callers keep to: the clock does not run back, and a boot and a new bond find the
session stopped. -/
def Op.legal (s : State) : Op → Bool
  | .clock now => s.now ≤ now
  | .boot | .bonded => ¬ s.active
  | _ => true

def Op.apply (e : Env) (s : State) : Op → State
  | .boot => s.boot e
  | .bonded => s.onBonded e
  | .stop => s.stop e
  | .clock now => { s with now := now }
  | .tick => s.tick e
  | .event ev => s.onEvent e ev
  | .setMode mode => s.setMode e mode
  | .probe => s.startProbe e
  | .command => s.wake e
  | .connect => s.connectButton e
  | .hold on => s.setHold e on
  | .viewer now => s.viewer e now
  | .input now => s.input e now
  | .restPoll min => s.setRestPoll min
  | .warm ms => { s with warmMs := ms }
  | .heaterMs ms => { s with heaterMs := ms }

/-- One operation, with what it did. -/
def step (i : Op × Env) (s : State) : Option (List Act × State) :=
  if i.1.legal s then
    let s' := i.1.apply i.2 { s with log := [] }
    some (s'.log, s')
  else none

end OpenCalifornia.Session
