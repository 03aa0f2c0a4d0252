import OpenCalifornia.Lib.Flow
import OpenCalifornia.Thermostat.Basic

/-! # The firmware's thermostat

`thermostat.c`. Integers are mathematical; a missing number is the sentinel `CALI_THERMO_NONE`
or `CALI_THERMO_NONE_MS`, a missing record a flag beside it, a missing text a null pointer.
The enumerations and the settings (`cali_thermo_cfg_t`, of which a step reads all but the run
time) are those of `Basic`; text constants are read as the words they spell. -/

namespace OpenCalifornia.Thermostat.Firmware
open Lib (Flow)

def thermoNone : ℤ := -2147483648

def thermoNoneMs : ℤ := -9223372036854775808

structure Heater where
  installed : ℤ
  level : ℤ
  errorCode : ℤ
  faultTrigger : ℤ
  permanent : ℤ
  normal : ℤ
  opMode : ℤ
  deriving DecidableEq, Repr

structure Sensor where
  present : Bool
  alias_ : String
  value : ℤ
  ageMs : ℤ
  deriving DecidableEq, Repr

structure Input where
  nowMs : ℤ
  enabled : Bool
  request : Option Request
  target : ℤ
  runtimeMin : ℤ
  ref : Sensor
  backup : Sensor
  out : Sensor
  outsideOn : Bool
  heater : Option Heater
  heaterAgeMs : ℤ
  linkReady : Bool
  campingOn : Bool
  shoreOn : Bool
  ignitionOn : ℤ
  batt2Dv : ℤ
  cmdWhat : Option What
  cmdResult : Option Result
  night : Bool
  knownCampingOn : ℤ
  knownShoreOn : ℤ
  knownIgnitionOn : ℤ
  deriving DecidableEq, Repr

structure Ctl where
  i : ℤ
  lastChangeMs : ℤ
  hotSinceMs : ℤ
  u : ℤ
  uOut : ℤ
  deriving DecidableEq, Repr

structure Snap where
  normal : Bool
  permanent : Bool
  level : ℤ
  deriving DecidableEq, Repr

structure Pending where
  what : What
  value : ℤ
  sinceMs : ℤ
  tries : ℤ
  firstMs : ℤ
  before : ℤ
  why : Option Reason
  deriving DecidableEq, Repr

structure State where
  mode : Mode
  active : Active
  ctl : Ctl
  hasPending : Bool
  pending : Pending
  hasExpect : Bool
  expect : Snap
  battLowSinceMs : ℤ
  hasStopSnapshot : Bool
  stopSnapshot : Snap
  stopWhy : Option Reason
  lastCtlMs : ℤ
  night : Bool
  waitUntilMs : ℤ
  contSinceMs : ℤ
  deriving DecidableEq, Repr

/-- A level, a run time, or 1 = on, 0 = off. -/
structure Cmd where
  what : What
  value : ℤ
  deriving DecidableEq, Repr

structure Status where
  heater : HeaterState
  tRef : ℤ
  tOut : ℤ
  target : ℤ
  level : ℤ
  activeAlias : String
  outsideActive : Bool
  end_ : End
  blocked : Option Refusal
  waitLeftS : ℤ
  night : Bool
  deriving DecidableEq, Repr

structure Out where
  cmds : List Cmd
  reason : Option Reason
  mode : Mode
  status : Status
  deriving DecidableEq, Repr

/-- `cali_thermo_init`, after its `memset`. -/
def init : State where
  mode := .off
  active := .ref
  ctl := ⟨0, 0, thermoNoneMs, 0, thermoNone⟩
  hasPending := false
  pending := ⟨.power, 0, 0, 0, 0, 0, none⟩
  hasExpect := false
  expect := ⟨false, false, 0⟩
  battLowSinceMs := thermoNoneMs
  hasStopSnapshot := false
  stopSnapshot := ⟨false, false, 0⟩
  stopWhy := none
  lastCtlMs := thermoNoneMs
  night := false
  waitUntilMs := thermoNoneMs
  contSinceMs := thermoNoneMs

def rdiv (a b : ℤ) : ℤ :=
  let aa := if a < 0 then -a else a
  let bb := if b < 0 then -b else b
  let q := Int.tdiv aa bb
  let r := Int.tmod aa bb
  let q := if 2 * r ≥ bb then q + 1 else q
  if decide (a < 0) = decide (b < 0) then q else -q

def mn (a b : ℤ) : ℤ := if a < b then a else b

def mx (a b : ℤ) : ℤ := if a > b then a else b

def truthy (v : ℤ) : Bool := v ≠ 0 ∧ v ≠ thermoNone

/-- `cali_thermo_heater_state`: the state, `*level`, `*code`. -/
def heaterState (cfg : Cfg) (h : Option Heater) (ageMs : ℤ) : HeaterState × ℤ × ℤ :=
  match h with
  | none => (.unknown, thermoNone, 0)
  | some h =>
    if ageMs = thermoNoneMs ∨ ageMs > cfg.heaterStaleMs then (.unknown, thermoNone, 0)
    else if h.installed = 0 then (.fault, thermoNone, -1)
    else
      let level :=
        if h.level ≠ thermoNone ∧ h.level ≥ 1 ∧ h.level ≤ 10 then h.level else thermoNone
      let err := if h.errorCode = thermoNone then 0 else h.errorCode
      let state :=
        if err = 4 then .locked
        else if err = 5 then .blocked
        else if err ≠ 0 ∨ truthy h.faultTrigger then .fault
        else if truthy h.permanent then .continuous
        else if truthy h.normal then .running
        else if h.opMode = 3 then .timerArmed
        else .off
      (state, level, err)

/-- `control`: the returned level, the new `*ctl`, `*why`. -/
def control (cfg : Cfg) (tRef tOut target dtMs : ℤ) (ctl : Ctl) (curLevel now : ℤ) :
    ℤ × Ctl × Reason :=
  let e := target - tRef
  let p := rdiv (cfg.kp * e) 100
  let uOut :=
    if tOut = thermoNone then thermoNone
    else mn (mx (rdiv (cfg.ka * mx 0 (target - tOut)) 100) 0) cfg.uOutMax
  let prev := ctl.uOut
  let ff := if uOut = thermoNone then 0 else uOut
  let i :=
    if curLevel ≠ thermoNone ∧ decide (prev = thermoNone) ≠ decide (uOut = thermoNone) then
      ctl.i + ((if prev = thermoNone then 0 else prev) - ff)
    else ctl.i
  let uOld := p + i + ff
  let frozen := dtMs > 3 * cfg.periodMs ∨ (uOld < cfg.minLevel * 1000 ∧ e < 0) ∨
    (uOld > 10000 ∧ e > 0)
  let i := if ¬ frozen then i + rdiv (cfg.ki * e * dtMs) (100 * 60000) else i
  let u := p + i + ff
  let hot := curLevel = cfg.minLevel ∧ tRef > target + cfg.bandHi
  let hotSince :=
    if hot then (if ctl.hotSinceMs ≠ thermoNoneMs then ctl.hotSinceMs else now) else thermoNoneMs
  let new := { ctl with i, u, uOut, hotSinceMs := hotSince }
  if tRef > target + cfg.overheat then (thermoNone, new, .overheat)
  else if hotSince ≠ thermoNoneMs ∧ now - hotSince ≥ cfg.hotHoldMs then
    (thermoNone, new, .targetExceededAtMinLevel)
  else
    let level := mn (mx (rdiv u 1000) cfg.minLevel) 10
    if curLevel = thermoNone then (level, new, .levelUp)
    else
      let dist := u - curLevel * 1000
      let dist := if dist < 0 then -dist else dist
      if level = curLevel ∨ dist < 500 + cfg.hyst ∨ now - ctl.lastChangeMs < cfg.minDwellMs then
        (thermoNone, new, .hold)
      else (level, { new with lastChangeMs := now },
        if level > curLevel then .levelUp else .levelDown)

def track (cfg : Cfg) (ctl : Ctl) (curLevel tRef target : ℤ) : Ctl :=
  let p := rdiv (cfg.kp * (target - tRef)) 100
  { ctl with i := curLevel * 1000 - p - (if ctl.uOut = thermoNone then 0 else ctl.uOut) }

def valid (cfg : Cfg) (r : Sensor) : Bool :=
  r.present ∧ r.value ≠ thermoNone ∧ r.ageMs ≠ thermoNoneMs ∧ r.ageMs ≤ cfg.staleAfterMs

def same (a b : Snap) : Bool :=
  a.normal = b.normal ∧ a.permanent = b.permanent ∧
    (a.level = thermoNone ∨ b.level = thermoNone ∨ a.level = b.level)

def Pending.isOff (p : Pending) : Bool := p.what ≠ .level ∧ p.value = 0

/-- `start` in the step: a pending `power on`. -/
def Pending.isStart (p : Pending) : Bool := p.what = .power ∧ p.value = 1

def applied (p : Pending) (s : Snap) : Bool :=
  match p.what with
  | .level => s.level = p.value
  | .permanent => s.permanent = false
  | _ => s.normal = decide (p.value = 1)

def blocked (cfg : Cfg) (inp : Input) : Option Refusal :=
  let (hs, _, code) := heaterState cfg inp.heater 0
  if inp.heater.isSome ∧ code = -1 then some .notInstalled
  else if inp.heater.isSome ∧ hs.faulty then some .fault
  else if inp.heater.isSome ∧ hs = .timerArmed then some .timerArmed
  else if ¬ (inp.knownCampingOn > 0 ∨ inp.knownShoreOn > 0) then some .noCamping
  else if inp.knownIgnitionOn ≠ 0 then some .ignition
  else if ¬ valid cfg inp.ref then some .noReference
  else none

def refusal (cfg : Cfg) (inp : Input) (hs : HeaterState) (code : ℤ) : Option Refusal :=
  if ¬ inp.enabled then some .disabled
  else if ¬ inp.linkReady then some .noLink
  else if hs = .unknown then some .staleHeater
  else if code = -1 then some .notInstalled
  else if hs.faulty then some .fault
  else if hs = .timerArmed then some .timerArmed
  else if ¬ (inp.campingOn ∨ inp.shoreOn) then some .noCamping
  else if inp.ignitionOn ≠ 0 then some .ignition
  else if ¬ valid cfg inp.ref then some .noReference
  else if ¬ inp.night ∧ hs = .off ∧ inp.ref.value > inp.target + cfg.bandHi then some .warm
  else none

def faultReason (code : ℤ) : Reason :=
  if code = 4 then .locked else if 1 ≤ code ∧ code ≤ 15 then .fault code else .heaterUnknown

/-- The local variables computed before the first rule. -/
structure View where
  hs : HeaterState
  level : ℤ
  code : ℤ
  hasSnap : Bool
  snap : Snap
  tOut : ℤ

def view (cfg : Cfg) (inp : Input) : View :=
  let (hs, level, code) := heaterState cfg inp.heater inp.heaterAgeMs
  { hs, level, code
    hasSnap := hs ≠ .unknown
    snap := match inp.heater with
      | some h =>
        if hs ≠ .unknown then ⟨truthy h.normal, truthy h.permanent, level⟩
        else ⟨false, false, thermoNone⟩
      | none => ⟨false, false, thermoNone⟩
    tOut := if inp.outsideOn ∧ valid cfg inp.out then inp.out.value else thermoNone }

structure Work where
  st : State
  cmds : List Cmd
  reason : Option Reason

/-- What `RET` leaves to `finish`. -/
structure Exit where
  st : State
  cmds : List Cmd
  why : Option Reason

abbrev Rule := Work → Flow Exit Work

def Work.put (w : Work) (st : State) : Work := { w with st }

def Work.ret {α : Type} (w : Work) (why : Option Reason) : Flow Exit α :=
  .done ⟨w.st, w.cmds, why⟩

def State.pend (st : State) (what : What) (value now before : ℤ) (why : Option Reason) : State :=
  { st with hasPending := true, pending := ⟨what, value, now, 1, now, before, why⟩ }

/-- `end` on the state. -/
def State.finish (st : State) : State := { st with mode := .off, hasPending := false }

/-- `end`. -/
def Work.finish (w : Work) : Work := { w with st := w.st.finish, cmds := [] }

def State.stopTarget (st : State) : Option What :=
  let e := if st.hasExpect then st.expect else ⟨false, false, thermoNone⟩
  if e.permanent then some .permanent else if e.normal then some .power else none

def Work.stop (w : Work) (canSend : Bool) (now : ℤ) (why : Option Reason) : Work :=
  let st := w.st.finish
  match w.st.stopTarget with
  | none => { w with st, cmds := [] }
  | some what =>
    if canSend then
      { w with st := st.pend what 0 now thermoNone why, cmds := [⟨what, 0⟩] }
    else
      { w with
        st := { st with
          mode := .stopping
          hasStopSnapshot := true
          stopSnapshot := if st.hasExpect then st.expect else ⟨false, false, thermoNone⟩
          stopWhy := why }
        cmds := [] }

/-- `add` of one level, its `pend`, and what the state expects of it. -/
def Work.sendLevel (w : Work) (level now before : ℤ) : Work :=
  let st := w.st.pend .level level now before none
  { st := { st with
      expect := { st.expect with level := level }
      ctl := { st.ctl with lastChangeMs := now } }
    cmds := [⟨.level, level⟩]
    reason := w.reason }

section Rules

variable (cfg : Cfg) (inp : Input) (v : View)

def startRetryOk (p : Pending) : Bool :=
  inp.nowMs - p.firstMs ≤ cfg.heaterStaleMs ∧ inp.enabled ∧ (inp.campingOn ∨ inp.shoreOn) ∧
    inp.ignitionOn = 0 ∧ valid cfg inp.ref

def resend (p : Pending) (st : State) (full : Bool) : List Cmd :=
  if full ∧ p.isStart then
    [⟨.runtime, inp.runtimeMin⟩, ⟨.level, st.expect.level⟩, ⟨.power, 1⟩]
  else [⟨p.what, p.value⟩]

/-- The pending command sent again; `out->n` is then not 0. -/
def resent (w : Work) (p : Pending) (cmds : List Cmd) : Work where
  st := { w.st with pending := p }
  cmds := cmds
  reason := some (if p.isOff then .stopping else .autoOn)

/-- `post`: a heater frame read at the last send or later. -/
def post (p : Pending) : Bool := v.hasSnap ∧ inp.nowMs - inp.heaterAgeMs ≥ p.sinceMs

def ownerOff (mode : Mode) : Bool :=
  (mode = .auto ∨ mode = .degraded) ∧ (inp.request = some .off ∨ ¬ inp.enabled)

def moved (p : Pending) (e : Snap) : Bool :=
  p.what = .level ∧ v.hasSnap ∧ post inp v p ∧ ¬ v.hs.faulty ∧
    ((v.level ≠ thermoNone ∧ v.level ≠ p.value ∧ v.level ≠ p.before) ∨
      v.snap.normal ≠ e.normal ∨ v.snap.permanent ≠ e.permanent)

def endedReason (permanent : Bool) : Option Reason :=
  some (if permanent then .continuousEnded else .runEnded)

def movedExit (w : Work) : Flow Exit Work :=
  if ¬ v.snap.normal ∧ ¬ v.snap.permanent then w.finish.ret (endedReason w.st.expect.permanent)
  else w.finish.ret (some .foreignChange)

def failReason (p : Pending) : Option Reason :=
  some (if p.isStart then .startNotConfirmed else .notApplied)

/-- `if (!is_off(p)) end(st, out)`, and the pending command goes. -/
def dropPending (p : Pending) (w : Work) : Work :=
  if p.isOff then w.put { w.st with hasPending := false } else w.finish

def unconfirmed (p : Pending) (w : Work) : Flow Exit Work :=
  if p.isOff ∧ ¬ same v.snap w.st.expect then
    (w.put { w.st with hasPending := false }).ret (some .stopDropped)
  else if p.tries ≥ 2 ∨ (p.isStart ∧ ¬ startRetryOk cfg inp p) then
    if ¬ (p.what = .level ∧ ownerOff inp w.st.mode) then (dropPending p w).ret (failReason p)
    else pure w
  else
    pure (resent w { p with sinceMs := inp.nowMs, tries := 2 } (resend inp p w.st false))

def answer (p : Pending) (w : Work) : Flow Exit Work :=
  let res := inp.cmdResult
  if v.hasSnap ∧ post inp v p ∧ applied p v.snap then
    pure (w.put { w.st with hasPending := false, hasExpect := true, expect := v.snap })
  else if v.hs.faulty then pure w
  else if p.what = .level ∧ res = some .refused ∧ ownerOff inp w.st.mode then pure w
  else if res = some .refused then (dropPending p w).ret (failReason p)
  else if (res = some .busy ∨ res = some .notReady) ∧ inp.linkReady then
    if p.isStart ∧ ¬ startRetryOk cfg inp p then w.finish.ret (failReason p)
    else
      pure (resent w { p with sinceMs := inp.nowMs }
        (resend inp p w.st (inp.cmdWhat ≠ some .power)))
  else if v.hasSnap ∧ post inp v p ∧ inp.linkReady ∧ inp.nowMs - p.sinceMs ≥ cfg.verifyMs then
    unconfirmed cfg inp v p w
  else pure w

def presetDone (p : Pending) : Bool :=
  (post inp v p ∧ applied p v.snap) ∨ (inp.cmdResult ≠ none ∧ inp.cmdResult ≠ some .ok) ∨
    inp.nowMs - p.sinceMs ≥ cfg.verifyMs

/-- (1) Pending command. -/
def pendingRule : Rule := fun w =>
  if w.st.hasPending ∧ w.st.mode = .waiting then
    pure (if presetDone cfg inp v w.st.pending then w.put { w.st with hasPending := false } else w)
  else if w.st.hasPending then
    if moved inp v w.st.pending w.st.expect then movedExit v w
    else answer cfg inp v w.st.pending w
  else pure w

def takeover (tRef : ℤ) (w : Work) : Work :=
  let now := inp.nowMs
  let ctl₀ : Ctl := ⟨0, w.st.ctl.lastChangeMs, thermoNoneMs, 0, 0⟩
  let st := { w.st with
    hasPending := false, hasExpect := true, expect := v.snap, lastCtlMs := now, ctl := ctl₀ }
  let w := { w with st, cmds := [] }
  if tRef = thermoNone then w
  else
    let (lvl, ctl, _) := control cfg tRef v.tOut inp.target 0 ctl₀ thermoNone now
    let w := w.put { st with ctl }
    let lvl := if lvl = thermoNone ∨ lvl = 0 then cfg.minLevel else lvl
    if lvl = v.level ∨ ¬ inp.linkReady then w
    else w.sendLevel lvl now v.level

def offWhy : Option Reason := some (if inp.enabled then .userOff else .disabled)

def seen (w : Work) : Work :=
  if v.hasSnap then w.put { w.st with hasExpect := true, expect := v.snap } else w

/-- Continuous operation seen since `cont_since_ms`. -/
def confirmSince (since : ℤ) (w : Work) : Flow Exit Work :=
  let w := w.put { w.st with contSinceMs := since }
  if inp.nowMs - inp.heaterAgeMs - since < cfg.nightConfirmMs then
    w.ret (some .waitingForContinuous)
  else
    let w := w.put { w.st with mode := .auto }
    let tRef := if valid cfg inp.ref then inp.ref.value else thermoNone
    (takeover cfg inp v tRef w).ret (some .adoptContinuous)

def confirm (w : Work) : Flow Exit Work :=
  if w.st.contSinceMs = thermoNoneMs then
    if inp.nowMs ≥ w.st.waitUntilMs then w.finish.ret (some .nightWaitEnded)
    else confirmSince cfg inp v inp.nowMs w
  else confirmSince cfg inp v w.st.contSinceMs w

def waitOn (w : Work) : Flow Exit Work :=
  let w := w.put { w.st with contSinceMs := thermoNoneMs }
  if inp.nowMs ≥ w.st.waitUntilMs then w.finish.ret (some .nightWaitEnded)
  else w.ret (some .waitingForContinuous)

def waiting (w : Work) : Flow Exit Work :=
  if inp.request = some .off ∨ ¬ inp.enabled then
    let w := w.stop (inp.linkReady && v.hasSnap) inp.nowMs (offWhy inp)
    w.ret (if w.st.mode = .stopping then some .stopping else offWhy inp)
  else if v.hs.faulty then
    w.finish.ret (some (if v.code = 1 then .batteryLow else faultReason v.code))
  else if v.hs ≠ .continuous then waitOn inp w
  else confirm cfg inp v w

/-- (W) Night wait. -/
def waitingRule : Rule := fun w =>
  if w.st.mode = .waiting then waiting cfg inp v (seen v w) else pure w

def held (st : State) : Option Reason :=
  if st.hasPending then st.pending.why else if st.mode = .stopping then st.stopWhy else none

/-- The entry: the owner's stop is dropped with its command. -/
def entered (w : Work) : Work where
  st := { w.st with
    mode := .auto
    active := .ref
    hasPending := false
    battLowSinceMs := thermoNoneMs
    hasStopSnapshot := false
    lastCtlMs := inp.nowMs
    night := inp.night }
  cmds := if w.st.hasPending then [] else w.cmds
  reason := w.reason

def nightWait (tRef : ℤ) (w : Work) : Flow Exit Work :=
  let w := w.put { w.st with
    mode := .waiting
    waitUntilMs := inp.nowMs + cfg.nightWaitMs
    contSinceMs := thermoNoneMs
    hasExpect := true
    expect := v.snap }
  (if v.hs = .off then takeover cfg inp v tRef w else w).ret (some .waitingForContinuous)

def startHeater (tRef : ℤ) (w : Work) : Work :=
  let now := inp.nowMs
  let ctl₀ : Ctl := ⟨0, now, thermoNoneMs, 0, 0⟩
  let (lvl, ctl, _) := control cfg tRef v.tOut inp.target 0 ctl₀ thermoNone now
  let lvl := if lvl = thermoNone ∨ lvl = 0 then cfg.minLevel else lvl
  let st := { w.st with ctl }.pend .power 1 now thermoNone none
  { st := { st with hasExpect := true, expect := ⟨true, false, lvl⟩ }
    cmds := [⟨.runtime, inp.runtimeMin⟩, ⟨.level, lvl⟩, ⟨.power, 1⟩]
    reason := w.reason }

def enter (w : Work) : Flow Exit Work :=
  let t := inp.ref.value
  let w := entered inp w
  if inp.night ∧ v.hs ≠ .continuous then nightWait cfg inp v t w
  else if v.hs = .off then (startHeater cfg inp v t w).ret (some .start)
  else
    (takeover cfg inp v t w).ret
      (some (if v.hs = .continuous then .adoptContinuous else .adoptRun))

/-- The integrator follows a known level. -/
def followed (tRef : ℤ) (ctl : Ctl) : Ctl :=
  if v.level ≠ thermoNone then track cfg ctl v.level tRef inp.target else ctl

def backToRef (w : Work) : Work :=
  if inp.request = some .auto ∧ w.st.mode.on ∧ w.st.active = .backup ∧ valid cfg inp.ref then
    w.put { w.st with active := .ref, ctl := followed cfg inp v inp.ref.value w.st.ctl }
  else w

/-- (2) Owner request. -/
def requestRule : Rule := fun w =>
  let on := w.st.mode = .auto ∨ w.st.mode = .degraded
  let req := if on ∧ ¬ inp.enabled then some .off else inp.request
  if req = some .off ∧ on then
    let w := w.stop (inp.linkReady && v.hasSnap) inp.nowMs (offWhy inp)
    w.ret (if w.st.mode = .stopping then some .stopping else some .userOff)
  else if req = some .auto ∧ ¬ on then
    if held w.st ≠ none ∧ held w.st ≠ some .userOff then pure { w with reason := some .stopping }
    else match refusal cfg inp v.hs v.code with
      | some why => w.ret (some (.autoRefused why))
      | none => enter cfg inp v w
  else pure (backToRef cfg inp v w)

/-- STOPPING. -/
def stoppingRule : Rule := fun w =>
  if w.st.mode = .stopping then
    let snap₀ := w.st.stopSnapshot
    if ¬ inp.linkReady ∨ ¬ v.hasSnap then w.ret (some .stopping)
    else
      let w := w.put { w.st with mode := .off, hasStopSnapshot := false }
      if ¬ v.hs.heating then w.ret (endedReason snap₀.permanent)
      else if ¬ same v.snap snap₀ then w.ret (some .stopDropped)
      else
        let w := w.put { w.st with hasExpect := true, expect := snap₀ }
        (w.stop true inp.nowMs w.st.stopWhy).ret (some .stopping)
  else if ¬ w.st.mode.on then w.ret w.reason
  else pure w

/-- (3) Faults. -/
def faultRule : Rule := fun w =>
  if v.hs.faulty ∧ v.code = 1 then
    (w.stop inp.linkReady inp.nowMs (some .batteryLow)).ret (some .batteryLow)
  else if v.hs.faulty then w.finish.ret (some (faultReason v.code))
  else if ¬ v.hasSnap then Work.ret { w with cmds := [] } (some .heaterUnknown)
  else pure w

/-- (4) Foreign change. -/
def foreignRule : Rule := fun w =>
  if ¬ w.st.hasPending ∧ v.hs.heating then
    if ¬ same v.snap w.st.expect then w.finish.ret (some .foreignChange)
    else if w.st.expect.level = thermoNone then
      pure (w.put { w.st with expect := { w.st.expect with level := v.level } })
    else pure w
  else pure w

/-- (5) Second battery low. -/
def batteryRule : Rule := fun w =>
  if inp.batt2Dv ≠ thermoNone ∧ inp.batt2Dv < cfg.battMinDv then
    let since := if w.st.battLowSinceMs = thermoNoneMs then inp.nowMs else w.st.battLowSinceMs
    let w := w.put { w.st with battLowSinceMs := since }
    if inp.nowMs - since ≥ cfg.battHoldMs then
      (w.stop inp.linkReady inp.nowMs (some .batteryLow)).ret (some .batteryLow)
    else pure w
  else pure (w.put { w.st with battLowSinceMs := thermoNoneMs })

/-- (6) The heater ended by itself. -/
def endedRule : Rule := fun w =>
  if ¬ w.st.hasPending ∧ ¬ v.hs.heating then
    w.finish.ret (endedReason w.st.expect.permanent)
  else pure w

def sensor (active : Active) : Sensor :=
  match active with
  | .ref => inp.ref
  | .backup => inp.backup

def select (active : Active) (w : Work) : Work :=
  w.put { w.st with
    active
    mode := .auto
    lastCtlMs := inp.nowMs
    ctl := followed cfg inp v (sensor inp active).value w.st.ctl }

def degrade (w : Work) : Flow Exit Work :=
  let w := w.put { w.st with mode := .degraded }
  if v.level ≠ cfg.minLevel ∧ ¬ w.st.hasPending ∧ inp.linkReady then
    (w.sendLevel cfg.minLevel inp.nowMs v.level).ret (some .referenceLost)
  else w.ret (some .referenceLost)

/-- (7) Reference validity. -/
def referenceRule : Rule := fun w =>
  if ¬ valid cfg (sensor inp w.st.active) then
    if w.st.active = .ref ∧ valid cfg inp.backup then
      (select cfg inp v .backup w).ret (some .backupSelected)
    else if w.st.active = .backup ∧ valid cfg inp.ref then
      (select cfg inp v .ref w).ret (some .referenceSelected)
    else degrade cfg inp v w
  else if w.st.mode = .degraded then
    (select cfg inp v w.st.active w).ret (some .autoOn)
  else pure w

def keepLevel (w : Work) (oldChange : ℤ) : Flow Exit Work :=
  (w.put { w.st with ctl := { w.st.ctl with lastChangeMs := oldChange } }).ret
    (some (if inp.outsideOn ∧ v.tOut = thermoNone then .outsideInactive else .hold))

def regulate (w : Work) (lvl : ℤ) (ctl : Ctl) (why : Reason) : Flow Exit Work :=
  let oldChange := w.st.ctl.lastChangeMs
  let w := w.put { w.st with ctl, lastCtlMs := inp.nowMs }
  let hot := why = .overheat ∨ why = .targetExceededAtMinLevel
  if hot ∧ v.hs = .continuous then
    if v.level ≠ cfg.minLevel ∧ inp.linkReady then
      (w.sendLevel cfg.minLevel inp.nowMs v.level).ret (some .holdAtMinLevel)
    else w.ret (some .holdAtMinLevel)
  else if hot then (w.stop inp.linkReady inp.nowMs (some why)).ret (some why)
  else if lvl ≠ thermoNone ∧ lvl ≠ v.level ∧ inp.linkReady then
    (w.sendLevel lvl inp.nowMs v.level).ret (some why)
  else keepLevel inp v w oldChange

/-- (8) Control. -/
def controlRule : Rule := fun w =>
  if w.st.hasPending ∨ inp.nowMs - w.st.lastCtlMs < cfg.periodMs then
    w.ret (some (w.reason.getD .autoOn))
  else
    let (lvl, ctl, why) :=
      control cfg (sensor inp w.st.active).value v.tOut inp.target (inp.nowMs - w.st.lastCtlMs)
        w.st.ctl v.level inp.nowMs
    regulate cfg inp v w lvl ctl why

def onRules : Rule := fun w => do
  let w ← faultRule inp v w
  let w ← foreignRule v w
  let w ← batteryRule cfg inp w
  let w ← endedRule v w
  let w ← referenceRule cfg inp v w
  controlRule cfg inp v w

def sessionRules : Rule := fun w => do
  let w ← requestRule cfg inp v w
  let w ← stoppingRule inp v w
  onRules cfg inp v w

def rules : Rule := fun w => do
  let w ← pendingRule cfg inp v w
  let w ← waitingRule cfg inp v w
  sessionRules cfg inp v w

/-- What `finish` clears in the state. -/
def State.settle (st : State) : State :=
  { st with
    night := st.night && st.mode ≠ .off
    waitUntilMs := if st.mode = .waiting then st.waitUntilMs else thermoNoneMs
    contSinceMs := if st.mode = .waiting then st.contSinceMs else thermoNoneMs }

/-- The seconds up to a time, rounded up by hand. -/
def waitLeft (waitUntilMs now : ℤ) : ℤ :=
  let left := waitUntilMs - now
  if left ≤ 0 then 0 else Int.tdiv (left + 999) 1000

/-- The status part of `finish`; an alias is cut to its buffer. -/
def status (st : State) : Status :=
  let r := sensor inp st.active
  { heater := v.hs
    tRef := if valid cfg r then r.value else thermoNone
    tOut := v.tOut
    target := inp.target
    level := v.level
    activeAlias := if r.present then String.ofList (r.alias_.toList.take 16) else ""
    outsideActive := v.tOut ≠ thermoNone
    end_ := if v.hs = .running then .run else .none
    blocked := blocked cfg inp
    waitLeftS :=
      if st.waitUntilMs = thermoNoneMs then thermoNone else waitLeft st.waitUntilMs inp.nowMs
    night := if st.mode ≠ .off then st.night else inp.night }

def finish (x : Exit) : Out × State :=
  let st := x.st.settle
  (⟨x.cmds, x.why, st.mode, status cfg inp v st⟩, st)

end Rules

/-- `cali_thermo_step`; a step always returns. -/
def step (cfg : Cfg) (inp : Input) (st : State) : Option (Out × State) :=
  let v := view cfg inp
  let r := rules cfg inp v ⟨st, [], none⟩
  (r >>= fun w => (.done ⟨w.st, w.cmds, w.reason⟩ : Flow Exit Exit)).result.map (finish cfg inp v)

end OpenCalifornia.Thermostat.Firmware
