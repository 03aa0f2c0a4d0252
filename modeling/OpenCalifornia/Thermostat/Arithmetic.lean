import OpenCalifornia.Lib.CInt
import OpenCalifornia.Thermostat.Settings

/-! # The arithmetic of a step

What `thermostat.c` computes in a step: the exact values of its subexpressions with their C types,
in the branches that it takes. Comparisons and assignments of a value that a type already holds
are left out; a cast is a value of the type it goes to. -/

namespace OpenCalifornia.Thermostat.Firmware
open Lib (Flow)
open Lib.CInt

/-- `rdiv` -/
def rdivVals (a b : ℤ) : List Val :=
  let aa := if a < 0 then -a else a
  let bb := if b < 0 then -b else b
  let q := Int.tdiv aa bb
  let r := Int.tmod aa bb
  [i64 aa, i64 bb, i64 q, i64 r, i64 (2 * r), i64 (if 2 * r ≥ bb then q + 1 else q), i64 (rdiv a b)]

/-- `u_out` -/
def outShare (cfg : Cfg) (tOut target : ℤ) : ℤ :=
  if tOut = thermoNone then thermoNone
  else mn (mx (rdiv (cfg.ka * mx 0 (target - tOut)) 100) 0) cfg.uOutMax

/-- A demand without its sentinel. -/
def shareOf (uOut : ℤ) : ℤ := if uOut = thermoNone then 0 else uOut

/-- The outside share came or went while the heater's level is known. -/
def transfers (ctl : Ctl) (uOut curLevel : ℤ) : Prop :=
  curLevel ≠ thermoNone ∧ decide (ctl.uOut = thermoNone) ≠ decide (uOut = thermoNone)

instance (ctl : Ctl) (uOut curLevel : ℤ) : Decidable (transfers ctl uOut curLevel) :=
  inferInstanceAs (Decidable (_ ∧ _))

/-- `i` after the bumpless transfer. -/
def shifted (ctl : Ctl) (uOut curLevel : ℤ) : ℤ :=
  if transfers ctl uOut curLevel then ctl.i + (shareOf ctl.uOut - shareOf uOut) else ctl.i

/-- `frozen` -/
def frozen (cfg : Cfg) (dtMs uOld e : ℤ) : Prop :=
  dtMs > 3 * cfg.periodMs ∨ (uOld < cfg.minLevel * 1000 ∧ e < 0) ∨ (uOld > 10000 ∧ e > 0)

instance (cfg : Cfg) (dtMs uOld e : ℤ) : Decidable (frozen cfg dtMs uOld e) :=
  inferInstanceAs (Decidable (_ ∨ _))

/-- `i` after its growth. -/
def grown (cfg : Cfg) (dtMs uOld e i : ℤ) : ℤ :=
  if ¬ frozen cfg dtMs uOld e then i + rdiv (cfg.ki * e * dtMs) (100 * 60000) else i

/-- `hot_since_ms` -/
def hotSince (cfg : Cfg) (tRef target curLevel now : ℤ) (ctl : Ctl) : ℤ :=
  if curLevel = cfg.minLevel ∧ tRef > target + cfg.bandHi then
    (if ctl.hotSinceMs ≠ thermoNoneMs then ctl.hotSinceMs else now)
  else thermoNoneMs

/-- The part of `control` that chooses the level. -/
def levelVals (cfg : Cfg) (u curLevel now lastChange : ℤ) : List Val :=
  let level := mn (mx (rdiv u 1000) cfg.minLevel) 10
  let dist := u - curLevel * 1000
  let far := if dist < 0 then -dist else dist
  rdivVals u 1000 ++ i32 level ::
    if curLevel = thermoNone then []
    else [i64 (curLevel * 1000), i64 dist, i64 far] ++
      if level = curLevel then []
      else i32 (500 + cfg.hyst) ::
        if far < 500 + cfg.hyst then [] else [i64 (now - lastChange)]

def shareVals (cfg : Cfg) (tOut target : ℤ) : List Val :=
  if tOut = thermoNone then []
  else [i64 (target - tOut), i64 (cfg.ka * mx 0 (target - tOut))] ++
    rdivVals (cfg.ka * mx 0 (target - tOut)) 100

def transferVals (ctl : Ctl) (uOut curLevel : ℤ) : List Val :=
  if transfers ctl uOut curLevel then
    [i64 (shareOf ctl.uOut - shareOf uOut), i64 (shifted ctl uOut curLevel)]
  else []

def growthVals (cfg : Cfg) (dtMs uOld e i : ℤ) : List Val :=
  if ¬ frozen cfg dtMs uOld e then
    [i64 (cfg.ki * e), i64 (cfg.ki * e * dtMs)] ++ rdivVals (cfg.ki * e * dtMs) (100 * 60000) ++
      [i64 (grown cfg dtMs uOld e i)]
  else []

/-- `control` from its answers on. -/
def answerVals (cfg : Cfg) (tRef target u curLevel now since lastChange : ℤ) : List Val :=
  if tRef > target + cfg.overheat then []
  else (if since ≠ thermoNoneMs then [i64 (now - since)] else []) ++
    if since ≠ thermoNoneMs ∧ now - since ≥ cfg.hotHoldMs then []
    else levelVals cfg u curLevel now lastChange

/-- `control` -/
def controlVals (cfg : Cfg) (tRef tOut target dtMs : ℤ) (ctl : Ctl) (curLevel now : ℤ) : List Val :=
  let e := target - tRef
  let p := rdiv (cfg.kp * e) 100
  let uOut := outShare cfg tOut target
  let ff := shareOf uOut
  let i := shifted ctl uOut curLevel
  let uOld := p + i + ff
  let i' := grown cfg dtMs uOld e i
  let u := p + i' + ff
  [[i64 e, i64 (cfg.kp * e)],
    rdivVals (cfg.kp * e) 100,
    shareVals cfg tOut target,
    transferVals ctl uOut curLevel,
    [i64 (p + i), i64 uOld, i64 (3 * cfg.periodMs), i64 (cfg.minLevel * 1000)],
    growthVals cfg dtMs uOld e i,
    [i64 (p + i'), i64 u, i64 (target + cfg.bandHi), i32 i', i32 u, i32 uOut,
      i64 (target + cfg.overheat)],
    answerVals cfg tRef target u curLevel now (hotSince cfg tRef target curLevel now ctl)
      ctl.lastChangeMs].flatten

/-- `track` -/
def trackVals (cfg : Cfg) (ctl : Ctl) (curLevel tRef target : ℤ) : List Val :=
  let e := target - tRef
  let p := rdiv (cfg.kp * e) 100
  [i64 e, i64 (cfg.kp * e)] ++ rdivVals (cfg.kp * e) 100 ++
    [i64 (curLevel * 1000), i64 (curLevel * 1000 - p), i64 (track cfg ctl curLevel tRef target).i,
      i32 (track cfg ctl curLevel tRef target).i]

section Rules

variable (cfg : Cfg) (inp : Input) (v : View)

/-- (1), whichever of its tests it gets to. -/
def pendingVals (w : Work) : List Val :=
  if w.st.hasPending then
    (if v.hasSnap then [i64 (inp.nowMs - inp.heaterAgeMs)] else []) ++
      [i64 (inp.nowMs - w.st.pending.sinceMs), i64 (inp.nowMs - w.st.pending.firstMs)]
  else []

def takeoverVals (tRef : ℤ) (w : Work) : List Val :=
  if tRef = thermoNone then []
  else controlVals cfg tRef v.tOut inp.target 0 ⟨0, w.st.ctl.lastChangeMs, thermoNoneMs, 0, 0⟩
    thermoNone inp.nowMs

def confirmSinceVals (since : ℤ) (w : Work) : List Val :=
  [i64 (inp.nowMs - inp.heaterAgeMs), i64 (inp.nowMs - inp.heaterAgeMs - since)] ++
    if inp.nowMs - inp.heaterAgeMs - since < cfg.nightConfirmMs then []
    else takeoverVals cfg inp v (if valid cfg inp.ref then inp.ref.value else thermoNone) w

def confirmVals (w : Work) : List Val :=
  if w.st.contSinceMs = thermoNoneMs then
    if inp.nowMs ≥ w.st.waitUntilMs then [] else confirmSinceVals cfg inp v inp.nowMs w
  else confirmSinceVals cfg inp v w.st.contSinceMs w

/-- (W) -/
def waitingVals (w : Work) : List Val :=
  if w.st.mode = .waiting then
    if inp.request = some .off ∨ ¬ inp.enabled then []
    else if v.hs.faulty then []
    else if v.hs ≠ .continuous then []
    else confirmVals cfg inp v w
  else []

def enterVals (w : Work) : List Val :=
  if inp.night ∧ v.hs ≠ .continuous then
    i64 (inp.nowMs + cfg.nightWaitMs) ::
      if v.hs = .off then takeoverVals cfg inp v inp.ref.value w else []
  else if v.hs = .off then
    controlVals cfg inp.ref.value v.tOut inp.target 0 ⟨0, inp.nowMs, thermoNoneMs, 0, 0⟩ thermoNone
      inp.nowMs
  else takeoverVals cfg inp v inp.ref.value w

def followedVals (tRef : ℤ) (ctl : Ctl) : List Val :=
  if v.level ≠ thermoNone then trackVals cfg ctl v.level tRef inp.target else []

/-- (2) -/
def requestVals (w : Work) : List Val :=
  let on := w.st.mode = .auto ∨ w.st.mode = .degraded
  let req := if on ∧ ¬ inp.enabled then some .off else inp.request
  if req = some .off ∧ on then []
  else if req = some .auto ∧ ¬ on then
    if held w.st ≠ none ∧ held w.st ≠ some .userOff then []
    else i64 (inp.target + cfg.bandHi) ::
      if refusal cfg inp v.hs v.code = none then enterVals cfg inp v (entered inp w) else []
  else if inp.request = some .auto ∧ w.st.mode.on ∧ w.st.active = .backup ∧ valid cfg inp.ref then
    followedVals cfg inp v inp.ref.value w.st.ctl
  else []

/-- (5) -/
def batteryVals (w : Work) : List Val :=
  if inp.batt2Dv ≠ thermoNone ∧ inp.batt2Dv < cfg.battMinDv then
    [i64 (inp.nowMs -
      (if w.st.battLowSinceMs = thermoNoneMs then inp.nowMs else w.st.battLowSinceMs))]
  else []

/-- (7) -/
def referenceVals (w : Work) : List Val :=
  if ¬ valid cfg (sensor inp w.st.active) then
    if w.st.active = .ref ∧ valid cfg inp.backup then
      followedVals cfg inp v inp.backup.value w.st.ctl
    else if w.st.active = .backup ∧ valid cfg inp.ref then
      followedVals cfg inp v inp.ref.value w.st.ctl
    else []
  else if w.st.mode = .degraded then
    followedVals cfg inp v (sensor inp w.st.active).value w.st.ctl
  else []

/-- (8) -/
def lawVals (w : Work) : List Val :=
  if w.st.hasPending then []
  else i64 (inp.nowMs - w.st.lastCtlMs) ::
    if inp.nowMs - w.st.lastCtlMs < cfg.periodMs then []
    else controlVals cfg (sensor inp w.st.active).value v.tOut inp.target
      (inp.nowMs - w.st.lastCtlMs) w.st.ctl v.level inp.nowMs

/-- `finish` -/
def statusVals (st : State) : List Val :=
  if st.waitUntilMs = thermoNoneMs then []
  else i64 (st.waitUntilMs - inp.nowMs) ::
    if st.waitUntilMs - inp.nowMs ≤ 0 then []
    else [i64 (st.waitUntilMs - inp.nowMs + 999), i32 (waitLeft st.waitUntilMs inp.nowMs)]

/-- The values of a rule, and those of what follows where it goes on. -/
def thenVals (here : List Val) (m : Flow Exit Work) (next : Work → List Val) : List Val :=
  here ++ match m with
    | .next w => next w
    | .done _ | .raise => []

def ruleVals (w : Work) : List Val :=
  thenVals (pendingVals inp v w) (pendingRule cfg inp v w) fun w =>
  thenVals (waitingVals cfg inp v w) (waitingRule cfg inp v w) fun w =>
  thenVals (requestVals cfg inp v w) (requestRule cfg inp v w) fun w =>
  thenVals [] (stoppingRule inp v w) fun w =>
  thenVals [] (faultRule inp v w) fun w =>
  thenVals [] (foreignRule v w) fun w =>
  thenVals (batteryVals cfg inp w) (batteryRule cfg inp w) fun w =>
  thenVals [] (endedRule v w) fun w =>
  thenVals (referenceVals cfg inp v w) (referenceRule cfg inp v w) fun w => lawVals cfg inp v w

end Rules

/-- `cali_thermo_step` -/
def stepVals (cfg : Cfg) (inp : Input) (st : State) : List Val :=
  ruleVals cfg inp (view cfg inp) ⟨st, [], none⟩ ++
    ((step cfg inp st).map fun x => statusVals inp x.2).getD []

end OpenCalifornia.Thermostat.Firmware
