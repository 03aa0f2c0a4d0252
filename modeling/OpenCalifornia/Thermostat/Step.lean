import OpenCalifornia.Lib.Flow
import OpenCalifornia.Lib.Machine
import OpenCalifornia.Thermostat.Control

/-! # The session step

`calictl.thermostat.step` as the cascade of its rules, in the evaluation order of the source.
A rule returns with `out(why)`, raises where Python would, or goes on to the next rule with
the session state, the commands and the reason so far. -/

namespace OpenCalifornia.Thermostat
open Lib (Flow)

/-- The local variables a step carries from rule to rule. -/
structure Work where
  st : State
  cmds : List Cmd
  reason : Option Reason

/-- The arguments of `out(why)`: what the rules leave to it. -/
structure Exit where
  st : State
  cmds : List Cmd
  why : Option Reason

abbrev Rule := Work → Flow Exit Work

def Work.put (w : Work) (st : State) : Work := { w with st }

def Work.ret {α : Type} (w : Work) (why : Reason) : Flow Exit α := .done ⟨w.st, w.cmds, why⟩

def pend (what : What) (value : Value) (now : ℤ) (before : Option ℤ) (why : Option Reason) :
    Pending :=
  ⟨what, value, now, 1, now, before, why⟩

/-- `_end`. -/
def State.finish (st : State) : State := { st with mode := .off, pending := none }

def State.stopTarget (st : State) : Option What :=
  let e := st.expect.getD ⟨false, false, none⟩
  if e.permanent then some .permanent else if e.normal then some .power else none

/-- `_stop`: end the run with a stop of what the thermostat left running. -/
def stop (st : State) (canSend : Bool) (now : ℤ) (why : Reason) : List Cmd × State :=
  match st.stopTarget with
  | none => ([], st.finish)
  | some what =>
    if canSend then
      ([⟨what, .off⟩], { st with mode := .off, pending := some (pend what .off now none why) })
    else
      ([], { st with
        mode := .stopping
        pending := none
        stopSnapshot := some ⟨st.expect.getD ⟨false, false, none⟩, why⟩ })

def Work.finish (w : Work) : Work := { w with st := w.st.finish, cmds := [] }

def Work.stop (w : Work) (canSend : Bool) (now : ℤ) (why : Reason) : Work :=
  let (cmds, st) := Thermostat.stop w.st canSend now why
  { w with st, cmds }

/-- Send one level and expect it. -/
def Work.sendLevel (w : Work) (e : Snap) (level now : ℤ) (before : Option ℤ) : Work where
  st := { w.st with
    pending := some (pend .level (.num level) now before none)
    expect := some { e with level := some level }
    ctl := { w.st.ctl with lastChangeMs := now } }
  cmds := [⟨.level, .num level⟩]
  reason := w.reason

def applied (p : Pending) (snap : Snap) : Bool :=
  match p.what with
  | .level => Value.ofLevel snap.level = p.value
  | .permanent => snap.permanent = false
  | _ => snap.normal = decide (p.value = .on)

section Rules

variable (cfg : Cfg) (inp : Input) (v : View)

def startRetryOk (p : Pending) : Bool :=
  inp.nowMs - p.firstMs ≤ cfg.heaterStaleMs ∧ inp.enabled ∧ (inp.campingOn ∨ inp.shoreOn) ∧
    inp.ignitionOn = some false ∧ valid cfg inp.ref

/-- `_resend`: the whole start, or the pending command alone. -/
def resend (p : Pending) (expect : Option Snap) (full : Bool) : Flow Exit (List Cmd) :=
  if full ∧ p.isStart then do
    let e ← Flow.need expect
    pure [⟨.runtime, .num inp.runtimeMin⟩, ⟨.level, .ofLevel e.level⟩, .powerOn]
  else pure [⟨p.what, p.value⟩]

def resent (w : Work) (p : Pending) (cmds : List Cmd) : Work where
  st := { w.st with pending := some p }
  cmds := cmds
  reason := some (if p.value = .off then .stopping else .autoOn)

/-- The heater frame was read at `since` or later. The snapshot needs a known age, so the
last case never decides. -/
def readSince (since : ℤ) : Bool :=
  match inp.heaterAgeMs with
  | some age => inp.nowMs - age ≥ since
  | none => false

/-- The snapshot read after the last send. -/
def post (p : Pending) : Option Snap := v.snap.filter fun _ => readSince inp p.sinceMs

/-- The feature disabled while on counts as the owner's OFF. -/
def ownerOff (mode : Mode) : Bool := mode.on ∧ (inp.request = some .off ∨ ¬ inp.enabled)

/-- Someone else moved the heater during our level command. -/
def moved (p : Pending) (expect : Option Snap) : Flow Exit Bool :=
  match post inp v p with
  | none => pure false
  | some snap =>
    if p.what ≠ .level ∨ v.hs.faulty then pure false
    else if v.level ≠ none ∧ .ofLevel v.level ≠ p.value ∧ v.level ≠ p.before then pure true
    else do
      let e ← Flow.need expect
      pure (snap.normal ≠ e.normal ∨ snap.permanent ≠ e.permanent)

def endedReason (permanent : Bool) : Reason := if permanent then .continuousEnded else .runEnded

def movedExit (w : Work) : Flow Exit Work :=
  if v.snap.any fun s => !s.heating then do
    let e ← Flow.need w.st.expect
    (w.put w.st.finish).ret (endedReason e.permanent)
  else (w.put w.st.finish).ret .foreignChange

def failReason (p : Pending) : Reason := if p.isStart then .startNotConfirmed else .notApplied

/-- The pending command goes; unless it is a stop, so does the run. -/
def dropPending (p : Pending) (st : State) : State :=
  if p.value = .off then { st with pending := none } else st.finish

/-- The heater changed before the stop took effect. -/
def overtaken (p : Pending) (snap : Snap) (expect : Option Snap) : Flow Exit Bool :=
  if p.value = .off then do
    let e ← Flow.need expect
    pure (!same snap e)
  else pure false

/-- The verify window passed without the readback. -/
def unconfirmed (p : Pending) (snap : Snap) (w : Work) : Flow Exit Work := do
  let dropped ← overtaken p snap w.st.expect
  if dropped then (w.put { w.st with pending := none }).ret .stopDropped
  else if p.tries ≥ 2 ∨ (p.isStart ∧ ¬ startRetryOk cfg inp p) then
    if p.what = .level ∧ ownerOff inp w.st.mode then pure w
    else (w.put (dropPending p w.st)).ret (failReason p)
  else do
    let cmds ← resend inp p w.st.expect false
    pure (resent w { p with sinceMs := inp.nowMs, tries := 2 } cmds)

def verify (p : Pending) (w : Work) : Flow Exit Work :=
  match post inp v p with
  | some snap =>
    if inp.linkReady ∧ inp.nowMs - p.sinceMs ≥ cfg.verifyMs then unconfirmed cfg inp p snap w
    else pure w
  | none => pure w

/-- The answer to a pending command: readback, result, verify window. -/
def answer (p : Pending) (w : Work) : Flow Exit Work :=
  let res := inp.cmd.map Attempt.result
  if (post inp v p).any (applied p) then
    pure (w.put { w.st with pending := none, expect := v.snap })
  else if v.hs.faulty then pure w
  else if p.what = .level ∧ res = some .refused ∧ ownerOff inp w.st.mode then pure w
  else if res = some .refused then
    (w.put (dropPending p w.st)).ret (failReason p)
  else if (res = some .busy ∨ res = some .notReady) ∧ inp.linkReady then
    if p.isStart ∧ ¬ startRetryOk cfg inp p then
      (w.put w.st.finish).ret (failReason p)
    else do
      let cmds ← resend inp p w.st.expect (inp.cmd.map Attempt.what ≠ some .power)
      pure (resent w { p with sinceMs := inp.nowMs } cmds)
  else verify cfg inp v p w

/-- The night pre-set is never retried and never ends the wait. -/
def presetDone (p : Pending) : Bool :=
  (post inp v p).any (applied p) ∨
    (inp.cmd.map Attempt.result).any (· ≠ .ok) ∨ inp.nowMs - p.sinceMs ≥ cfg.verifyMs

/-- (1) Pending command. -/
def pendingRule : Rule := fun w =>
  match w.st.pending with
  | none => pure w
  | some p =>
    if w.st.mode = .waiting then
      pure (if presetDone cfg inp v p then w.put { w.st with pending := none } else w)
    else do
      let m ← moved inp v p w.st.expect
      if m then movedExit v w else answer cfg inp v p w

/-- `_takeover`: start the controller from its demand, and send that level if it differs. -/
def takeover (tRef : Option ℤ) (w : Work) : Flow Exit Work := do
  let snap ← Flow.need v.snap
  let now := inp.nowMs
  let ctl₀ : Ctl := ⟨0, w.st.ctl.lastChangeMs, none, 0, some 0⟩
  let st := { w.st with
    pending := none, expect := some snap, lastCtlMs := some now, ctl := ctl₀ }
  match tRef with
  | none => pure { w with st, cmds := [] }
  | some t =>
    let (lvl, ctl, _) := control cfg t v.tOut inp.target 0 ctl₀ none now
    let lvl := (lvl.filter (· ≠ 0)).getD cfg.minLevel
    let w := { w with st := { st with ctl }, cmds := [] }
    if some lvl = v.level ∨ ¬ inp.linkReady then pure w
    else pure (w.sendLevel snap lvl now v.level)

/-- Since when continuous operation is seen in the wait; first seen after the wait it ends it. -/
def contSince (w : Work) : Flow Exit ℤ :=
  match w.st.contSinceMs with
  | some since => pure since
  | none => do
    let until_ ← Flow.need w.st.waitUntilMs
    if inp.nowMs ≥ until_ then (w.put w.st.finish).ret .nightWaitEnded
    else pure inp.nowMs

def offWhy : Reason := if inp.enabled then .userOff else .disabled

/-- The last fresh heater is what an owner OFF stops. -/
def seen (w : Work) : Work := if v.snap.isSome then w.put { w.st with expect := v.snap } else w

/-- Continuous operation seen since `since`: taken over once a frame confirms it. -/
def confirmSince (since : ℤ) (w : Work) : Flow Exit Work := do
  let w := w.put { w.st with contSinceMs := some since }
  let age ← Flow.need inp.heaterAgeMs
  if inp.nowMs - age - since < cfg.nightConfirmMs then w.ret .waitingForContinuous
  else do
    let w := w.put { w.st with mode := .auto }
    let tRef := if valid cfg inp.ref then inp.ref.bind Sensor.value else none
    let w ← takeover cfg inp v tRef w
    w.ret .adoptContinuous

/-- Continuous operation in the wait. -/
def confirm (w : Work) : Flow Exit Work := do
  let since ← contSince inp w
  confirmSince cfg inp v since w

/-- No continuous operation: wait on until the time is up. -/
def waitOn (w : Work) : Flow Exit Work := do
  let w := w.put { w.st with contSinceMs := none }
  let until_ ← Flow.need w.st.waitUntilMs
  if inp.nowMs ≥ until_ then (w.put w.st.finish).ret .nightWaitEnded
  else w.ret .waitingForContinuous

def waiting (w : Work) : Flow Exit Work :=
  if inp.request = some .off ∨ ¬ inp.enabled then
    let w := w.stop (inp.linkReady && v.snap.isSome) inp.nowMs (offWhy inp)
    w.ret (if w.st.mode = .stopping then .stopping else offWhy inp)
  else if v.hs.faulty then
    (w.put w.st.finish).ret (if v.code = 1 then .batteryLow else faultReason v.code)
  else if v.hs ≠ .continuous then waitOn inp w
  else confirm cfg inp v w

/-- (W) Night wait: nothing but a stop, or the takeover of continuous operation. -/
def waitingRule : Rule := fun w =>
  if w.st.mode ≠ .waiting then pure w else waiting cfg inp v (seen v w)

/-- What an AUTO request may not override: the cause of a stop pending or waiting. -/
def held (st : State) : Flow Exit (Option Reason) :=
  match st.pending with
  | some p => pure p.why
  | none =>
    if st.mode = .stopping then do
      let snap₀ ← Flow.need st.stopSnapshot
      pure (some snap₀.why)
    else pure none

/-- The last owner request wins: a stop of the owner's is dropped. -/
def entered (w : Work) : Work where
  st := { w.st with
    mode := .auto
    active := .ref
    pending := none
    battLowSinceMs := none
    stopSnapshot := none
    lastCtlMs := some inp.nowMs
    night := inp.night }
  cmds := if w.st.pending.isSome then [] else w.cmds
  reason := w.reason

/-- With the heater off the demand is pre-set: the panel starts at the stored level. -/
def preset (t : ℤ) (w : Work) : Flow Exit Work :=
  if v.hs = .off then takeover cfg inp v (some t) w else pure w

def nightWait (t : ℤ) (w : Work) : Flow Exit Work := do
  let snap ← Flow.need v.snap
  let w := w.put { w.st with
    mode := .waiting
    waitUntilMs := some (inp.nowMs + cfg.nightWaitMs)
    contSinceMs := none
    expect := some snap }
  let w ← preset cfg inp v t w
  w.ret .waitingForContinuous

/-- Start the heater: run time, level, power on. -/
def startHeater (t : ℤ) (w : Work) : Work :=
  let now := inp.nowMs
  let ctl₀ : Ctl := ⟨0, now, none, 0, some 0⟩
  let (lvl, ctl, _) := control cfg t v.tOut inp.target 0 ctl₀ none now
  let lvl := (lvl.filter (· ≠ 0)).getD cfg.minLevel
  { st := { w.st with
      ctl
      pending := some (pend .power .on now none none)
      expect := some ⟨true, false, some lvl⟩ }
    cmds := [⟨.runtime, .num inp.runtimeMin⟩, ⟨.level, .num lvl⟩, .powerOn]
    reason := w.reason }

/-- The entry into AUTO or the night wait. -/
def enter (w : Work) : Flow Exit Work := do
  let t ← Flow.need (inp.ref.bind Sensor.value)
  let w := entered inp w
  if inp.night ∧ v.hs ≠ .continuous then nightWait cfg inp v t w
  else if v.hs = .off then (startHeater cfg inp v t w).ret .start
  else do
    let w ← takeover cfg inp v (some t) w
    w.ret (if v.hs = .continuous then .adoptContinuous else .adoptRun)

/-- An AUTO request while on: back to the reference thermometer. -/
def backToRef (w : Work) : Flow Exit Work :=
  if inp.request = some .auto ∧ w.st.mode.on ∧ w.st.active = .backup ∧ valid cfg inp.ref then
    match v.level with
    | none => pure (w.put { w.st with active := .ref })
    | some level => do
      let t ← Flow.need (inp.ref.bind Sensor.value)
      pure { w with st := { w.st with
        active := .ref, ctl := track cfg w.st.ctl level t inp.target } }
  else pure w

/-- (2) Owner request; the feature disabled while on is an owner OFF. -/
def requestRule : Rule := fun w =>
  if w.st.mode.on ∧ (inp.request = some .off ∨ ¬ inp.enabled) then
    let w := w.stop (inp.linkReady && v.snap.isSome) inp.nowMs (offWhy inp)
    w.ret (if w.st.mode = .stopping then .stopping else .userOff)
  else do
    let h ← held w.st
    if inp.request = some .auto ∧ ¬ w.st.mode.on then
      if h.any (· ≠ .userOff) then pure { w with reason := some .stopping }
      else match refusal cfg inp v.hs v.code with
        | some why => w.ret (.autoRefused why)
        | none => enter cfg inp v w
    else backToRef cfg inp v w

/-- STOPPING: wait for the link, then stop only what was left running. -/
def stoppingRule : Rule := fun w =>
  if w.st.mode = .stopping then
    match v.snap with
    | none => w.ret .stopping
    | some snap =>
      if ¬ inp.linkReady then w.ret .stopping
      else do
        let snap₀ ← Flow.need w.st.stopSnapshot
        let w := w.put { w.st with mode := .off, stopSnapshot := none }
        if ¬ v.hs.heating then w.ret (endedReason snap₀.permanent)
        else if ¬ same snap snap₀.toSnap then w.ret .stopDropped
        else
          let w := w.put { w.st with expect := some snap₀.toSnap }
          (w.stop true inp.nowMs snap₀.why).ret .stopping
  else if ¬ w.st.mode.on then .done ⟨w.st, w.cmds, w.reason⟩
  else pure w

/-- (3) Faults, and no writes while the heater is unknown. -/
def faultRule : Rule := fun w =>
  if v.hs.faulty ∧ v.code = 1 then
    (w.stop inp.linkReady inp.nowMs .batteryLow).ret .batteryLow
  else if v.hs.faulty then w.finish.ret (faultReason v.code)
  else if v.snap = none then Work.ret { w with cmds := [] } .heaterUnknown
  else pure w

/-- (4) Foreign change, only while no own command is pending. -/
def foreignRule : Rule := fun w =>
  if w.st.pending = none ∧ v.hs.heating then do
    let snap ← Flow.need v.snap
    let e ← Flow.need w.st.expect
    if ¬ same snap e then w.finish.ret .foreignChange
    else if e.level = none then
      pure { w with st := { w.st with expect := some { e with level := v.level } } }
    else pure w
  else pure w

/-- (5) Second battery low for `batt_hold_ms`. -/
def batteryRule : Rule := fun w =>
  if inp.batt2Dv.any (· < cfg.battMinDv) then
    let since := w.st.battLowSinceMs.getD inp.nowMs
    let w := w.put { w.st with battLowSinceMs := some since }
    if inp.nowMs - since ≥ cfg.battHoldMs then
      (w.stop inp.linkReady inp.nowMs .batteryLow).ret .batteryLow
    else pure w
  else pure (w.put { w.st with battLowSinceMs := none })

/-- (6) The heater ended by itself. -/
def endedRule : Rule := fun w =>
  if w.st.pending = none ∧ ¬ v.hs.heating then do
    let e ← Flow.need w.st.expect
    w.finish.ret (endedReason e.permanent)
  else pure w

def sensor (active : Active) : Option Sensor :=
  match active with
  | .ref => inp.ref
  | .backup => inp.backup

/-- Regulate on a valid thermometer: the integrator follows a known level. -/
def select (active : Active) (w : Work) : Flow Exit Work := do
  let st := { w.st with active, mode := .auto, lastCtlMs := some inp.nowMs }
  match v.level with
  | none => pure { w with st }
  | some level => do
    let t ← Flow.need ((sensor inp active).bind Sensor.value)
    pure { w with st := { st with ctl := track cfg st.ctl level t inp.target } }

/-- No valid thermometer: the level goes to `min_level`. -/
def degrade (w : Work) : Flow Exit Work := do
  let w := w.put { w.st with mode := .degraded }
  if v.level ≠ some cfg.minLevel ∧ w.st.pending = none ∧ inp.linkReady then do
    let e ← Flow.need w.st.expect
    (w.sendLevel e cfg.minLevel inp.nowMs v.level).ret .referenceLost
  else w.ret .referenceLost

/-- (7) Reference validity: the other valid thermometer, else `min_level`. -/
def referenceRule : Rule := fun w =>
  if ¬ valid cfg (sensor inp w.st.active) then
    if w.st.active = .ref ∧ valid cfg inp.backup then do
      let w ← select cfg inp v .backup w
      w.ret .backupSelected
    else if w.st.active = .backup ∧ valid cfg inp.ref then do
      let w ← select cfg inp v .ref w
      w.ret .referenceSelected
    else degrade cfg inp v w
  else if w.st.mode = .degraded then do
    let w ← select cfg inp v w.st.active w
    w.ret .autoOn
  else pure w

/-- Nothing sent: the dwell does not restart. -/
def keepLevel (w : Work) (oldChange : ℤ) : Flow Exit Work :=
  (w.put { w.st with ctl := { w.st.ctl with lastChangeMs := oldChange } }).ret
    (if inp.outsideOn ∧ v.tOut = none then .outsideInactive else .hold)

/-- Act on the control law's answer. -/
def regulate (w : Work) (lvl : Option ℤ) (ctl : Ctl) (why : Reason) : Flow Exit Work := do
  let oldChange := w.st.ctl.lastChangeMs
  let w := w.put { w.st with ctl, lastCtlMs := some inp.nowMs }
  let hot := why = .overheat ∨ why = .targetExceededAtMinLevel
  if hot ∧ v.hs = .continuous then
    if v.level ≠ some cfg.minLevel ∧ inp.linkReady then do
      let e ← Flow.need w.st.expect
      (w.sendLevel e cfg.minLevel inp.nowMs v.level).ret .holdAtMinLevel
    else w.ret .holdAtMinLevel
  else if hot then (w.stop inp.linkReady inp.nowMs why).ret why
  else match lvl with
    | some l =>
      if some l ≠ v.level ∧ inp.linkReady then do
        let e ← Flow.need w.st.expect
        (w.sendLevel e l inp.nowMs v.level).ret why
      else keepLevel inp v w oldChange
    | none => keepLevel inp v w oldChange

/-- (8) Control: once per period, frozen while a command is pending. -/
def controlRule : Rule := fun w =>
  if w.st.pending ≠ none then w.ret (w.reason.getD .autoOn)
  else do
    let last ← Flow.need w.st.lastCtlMs
    if inp.nowMs - last < cfg.periodMs then w.ret (w.reason.getD .autoOn)
    else do
      let t ← Flow.need ((sensor inp w.st.active).bind Sensor.value)
      let (lvl, ctl, why) :=
        control cfg t v.tOut inp.target (inp.nowMs - last) w.st.ctl v.level inp.nowMs
      regulate cfg inp v w lvl ctl why

/-- The rules that only run while on. -/
def onRules : Rule := fun w => do
  let w ← faultRule inp v w
  let w ← foreignRule v w
  let w ← batteryRule cfg inp w
  let w ← endedRule v w
  let w ← referenceRule cfg inp v w
  controlRule cfg inp v w

/-- The rules outside the night wait. -/
def sessionRules : Rule := fun w => do
  let w ← requestRule cfg inp v w
  let w ← stoppingRule inp v w
  onRules cfg inp v w

def rules : Rule := fun w => do
  let w ← pendingRule cfg inp v w
  let w ← waitingRule cfg inp v w
  sessionRules cfg inp v w

/-- What `out(why)` clears in the state it returns. -/
def State.settle (st : State) : State :=
  { st with
    night := st.night && st.mode ≠ .off
    waitUntilMs := if st.mode = .waiting then st.waitUntilMs else none
    contSinceMs := if st.mode = .waiting then st.contSinceMs else none }

def status (st : State) : Status :=
  let r := sensor inp st.active
  { heater := v.hs
    tRef := if valid cfg r then r.bind Sensor.value else none
    tOut := v.tOut
    target := inp.target
    level := v.level
    activeAlias := r.map Sensor.alias_
    outsideActive := v.tOut.isSome
    end_ := if v.hs = .running then .run else .none
    blocked := blocked cfg inp
    waitLeftS := st.waitUntilMs.map fun u => max 0 (-(Int.fdiv (inp.nowMs - u) 1000))
    night := if st.mode ≠ .off then st.night else inp.night }

def out (x : Exit) : Out × State :=
  let st := x.st.settle
  (⟨x.cmds, x.why, st.mode, status cfg inp v st⟩, st)

end Rules

/-- One decision of the thermostat session; `none` is a Python exception. -/
def step (cfg : Cfg) (inp : Input) (st : State) : Option (Out × State) :=
  let v := view cfg inp
  let r := rules cfg inp v ⟨st, [], none⟩
  (r >>= fun w => (.done ⟨w.st, w.cmds, w.reason⟩ : Flow Exit Exit)).result.map (out cfg inp v)

end OpenCalifornia.Thermostat
