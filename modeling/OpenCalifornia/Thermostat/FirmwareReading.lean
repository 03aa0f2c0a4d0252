import OpenCalifornia.Thermostat.Firmware
import OpenCalifornia.Thermostat.Step

/-! # The firmware's data read as Python's

A sentinel or a cleared flag is `None`, a switch value 1 or 0 is `"on"` or `"off"`. The reading
of a sensor, of the heater and of the control law commutes with the functions on them. -/

namespace OpenCalifornia.Thermostat
open Lib (Flow)

namespace Firmware

/-- A number with a sentinel for the missing one. -/
def readNum (missing x : ℤ) : Option ℤ := if x = missing then none else some x

/-- A record with a flag beside it. -/
def whenSet {α : Type} (has : Bool) (a : α) : Option α := if has then some a else none

/-- 1 on, 0 off, -1 unknown. -/
def readFlag (x : ℤ) : Option Bool := if x < 0 then none else some (x ≠ 0)

def readValue (what : What) (x : ℤ) : Value :=
  match what with
  | .runtime => .num x
  | .level => .ofLevel (readNum thermoNone x)
  | _ => if x = 0 then .off else .on

def readAlias (s : String) : Option String := if s = "" then none else some s

def Heater.read (h : Heater) : Thermostat.Heater where
  installed := readNum thermoNone h.installed
  heatingLevel := readNum thermoNone h.level
  errorCode := readNum thermoNone h.errorCode
  faultTriggerBit := readNum thermoNone h.faultTrigger
  permanentOperation := readNum thermoNone h.permanent
  normalOperation := readNum thermoNone h.normal
  operationMode := readNum thermoNone h.opMode

def Sensor.read (s : Sensor) : Option Thermostat.Sensor :=
  if s.present then some ⟨s.alias_, readNum thermoNone s.value, readNum thermoNoneMs s.ageMs⟩
    else none

/-- The command text and its result are set together. -/
def readAttempt (what : Option What) (result : Option Result) : Option Attempt :=
  what.bind fun w => result.map fun r => ⟨w, r⟩

def Input.read (i : Input) : Thermostat.Input where
  nowMs := i.nowMs
  enabled := i.enabled
  request := i.request
  target := i.target
  runtimeMin := i.runtimeMin
  ref := i.ref.read
  backup := i.backup.read
  out := i.out.read
  outsideOn := i.outsideOn
  heater := i.heater.map Heater.read
  heaterAgeMs := readNum thermoNoneMs i.heaterAgeMs
  linkReady := i.linkReady
  campingOn := i.campingOn
  shoreOn := i.shoreOn
  ignitionOn := readFlag i.ignitionOn
  batt2Dv := readNum thermoNone i.batt2Dv
  cmd := readAttempt i.cmdWhat i.cmdResult
  night := i.night
  known := ⟨i.knownCampingOn > 0, i.knownShoreOn > 0, readFlag i.knownIgnitionOn⟩

def Ctl.read (c : Ctl) : Thermostat.Ctl :=
  ⟨c.i, c.lastChangeMs, readNum thermoNoneMs c.hotSinceMs, c.u, readNum thermoNone c.uOut⟩

def Snap.read (s : Snap) : Thermostat.Snap := ⟨s.normal, s.permanent, readNum thermoNone s.level⟩

def Pending.read (p : Pending) : Thermostat.Pending :=
  ⟨p.what, readValue p.what p.value, p.sinceMs, p.tries, p.firstMs,
    readNum thermoNone p.before, p.why⟩

def State.read (st : State) : Thermostat.State where
  mode := st.mode
  active := st.active
  ctl := st.ctl.read
  pending := whenSet st.hasPending st.pending.read
  expect := whenSet st.hasExpect st.expect.read
  battLowSinceMs := readNum thermoNoneMs st.battLowSinceMs
  stopSnapshot :=
    (whenSet st.hasStopSnapshot st.stopWhy).join.map fun why => ⟨st.stopSnapshot.read, why⟩
  lastCtlMs := readNum thermoNoneMs st.lastCtlMs
  night := st.night
  waitUntilMs := readNum thermoNoneMs st.waitUntilMs
  contSinceMs := readNum thermoNoneMs st.contSinceMs

def Cmd.read (c : Cmd) : Thermostat.Cmd := ⟨c.what, readValue c.what c.value⟩

def Status.read (s : Status) : Thermostat.Status where
  heater := s.heater
  tRef := readNum thermoNone s.tRef
  tOut := readNum thermoNone s.tOut
  target := s.target
  level := readNum thermoNone s.level
  activeAlias := readAlias s.activeAlias
  outsideActive := s.outsideActive
  end_ := s.end_
  blocked := s.blocked
  waitLeftS := readNum thermoNone s.waitLeftS
  night := s.night

def Out.read (o : Out) : Thermostat.Out :=
  ⟨o.cmds.map Cmd.read, o.reason, o.mode, o.status.read⟩

def Work.read (w : Work) : Thermostat.Work := ⟨w.st.read, w.cmds.map Cmd.read, w.reason⟩

def Exit.read (x : Exit) : Thermostat.Exit := ⟨x.st.read, x.cmds.map Cmd.read, x.why⟩

end Firmware

open Firmware (readNum readFlag whenSet thermoNone thermoNoneMs)

@[simp] theorem whenSet_true {α : Type} (a : α) : whenSet true a = some a := rfl

@[simp] theorem whenSet_false {α : Type} (a : α) : whenSet false a = none := rfl

@[simp] theorem whenSet_eq_some {α : Type} {has : Bool} {a b : α} :
    whenSet has a = some b ↔ has = true ∧ a = b := by
  cases has <;> simp

@[simp] theorem whenSet_eq_none {α : Type} {has : Bool} {a : α} :
    whenSet has a = none ↔ has = false := by
  cases has <;> simp

section Numbers

variable {missing x y : ℤ}

@[simp] theorem readNum_eq_none : readNum missing x = none ↔ x = missing := by
  simp [readNum]

theorem readNum_of_ne (h : x ≠ missing) : readNum missing x = some x := if_neg h

@[simp] theorem readNum_eq_some : readNum missing x = some y ↔ x = y ∧ y ≠ missing := by
  by_cases h : x = missing
  · rw [h, readNum, if_pos rfl]
    simp only [reduceCtorEq, false_iff, not_and, not_not]
    exact Eq.symm
  · rw [readNum_of_ne h, Option.some.injEq]
    exact ⟨fun hxy => ⟨hxy, hxy ▸ h⟩, And.left⟩

@[simp] theorem readNum_missing : readNum missing missing = none := if_pos rfl

@[simp] theorem readNum_inj : readNum missing x = readNum missing y ↔ x = y := by
  constructor
  · intro h
    by_cases hy : y = missing
    · rw [hy, readNum_missing, readNum_eq_none] at h
      rw [h, hy]
    · rw [readNum_of_ne hy, readNum_eq_some] at h
      exact h.1
  · intro h
    rw [h]

@[simp] theorem readNum_isNone : (readNum missing x).isNone = decide (x = missing) := by
  by_cases h : x = missing <;> simp [readNum, h]

@[simp] theorem readNum_isSome : (readNum missing x).isSome = decide (x ≠ missing) := by
  by_cases h : x = missing <;> simp [readNum, h]

@[simp] theorem readNum_any (f : ℤ → Bool) :
    (readNum missing x).any f = true ↔ x ≠ missing ∧ f x = true := by
  by_cases h : x = missing <;> simp [readNum, h]

theorem readNum_getD (d : ℤ) : (readNum missing x).getD d = if x = missing then d else x := by
  by_cases h : x = missing <;> simp [readNum, h]

@[simp] theorem ofLevel_inj {a b : Option ℤ} : Value.ofLevel a = .ofLevel b ↔ a = b := by
  cases a <;> cases b <;> simp [Value.ofLevel]

end Numbers

theorem neg_ite (x : ℤ) : (if x < 0 then -x else x) = x.natAbs := by
  split_ifs <;> omega

theorem rdiv_read (a b : ℤ) : Firmware.rdiv a b = rdiv a b := by
  have hdiv : Int.tdiv a.natAbs b.natAbs = Int.fdiv a.natAbs b.natAbs := by
    rw [Int.tdiv_eq_ediv_of_nonneg (by omega), Int.fdiv_eq_ediv_of_nonneg _ (by omega)]
  have hmod : Int.tmod a.natAbs b.natAbs = Int.fmod a.natAbs b.natAbs := by
    rw [Int.tmod_eq_emod_of_nonneg (by omega), Int.fmod_eq_emod_of_nonneg _ (by omega)]
  simp only [Firmware.rdiv, rdiv, neg_ite, hdiv, hmod]

theorem mn_eq (a b : ℤ) : Firmware.mn a b = min a b := by
  simp only [Firmware.mn]
  split_ifs <;> omega

theorem mx_eq (a b : ℤ) : Firmware.mx a b = max a b := by
  simp only [Firmware.mx]
  split_ifs <;> omega

theorem truthy_read (x : ℤ) : truthy (readNum thermoNone x) = Firmware.truthy x := by
  simp only [truthy, Firmware.truthy, readNum_getD]
  by_cases h : x = thermoNone <;> simp [h]

theorem valid_read (cfg : Cfg) (s : Firmware.Sensor) :
    valid cfg s.read = Firmware.valid cfg s := by
  simp only [Firmware.Sensor.read, Firmware.valid]
  by_cases hp : s.present = true
  · by_cases hv : s.value = thermoNone
    · simp [hp, hv, valid]
    · by_cases ha : s.ageMs = thermoNoneMs
      · simp [hp, hv, ha, valid]
      · simp [hp, hv, ha, valid, readNum_of_ne hv, readNum_of_ne ha]
  · simp [hp, valid]

theorem value_read (cfg : Cfg) {s : Firmware.Sensor} (h : valid cfg s.read) :
    s.read.bind Sensor.value = some s.value ∧ s.value ≠ thermoNone := by
  rw [valid_read] at h
  simp only [Firmware.valid, decide_eq_true_eq] at h
  simp [Firmware.Sensor.read, h.1, h.2.1]

theorem value_of_read {s : Firmware.Sensor} {t : ℤ} (h : s.read.bind Sensor.value = some t) :
    s.value = t ∧ t ≠ thermoNone := by
  by_cases hp : s.present = true
  · simp only [Firmware.Sensor.read, if_pos hp, Option.bind_some] at h
    exact readNum_eq_some.mp h
  · simp [Firmware.Sensor.read, hp] at h

theorem same_read (a b : Firmware.Snap) : same a.read b.read = Firmware.same a b := by
  simp [same, Firmware.same, Firmware.Snap.read]

theorem level_read (x : ℤ) :
    (readNum thermoNone x).filter (fun l => 1 ≤ l ∧ l ≤ 10) =
      readNum thermoNone (if x ≠ thermoNone ∧ x ≥ 1 ∧ x ≤ 10 then x else thermoNone) := by
  by_cases h : x = thermoNone
  · simp [h]
  · by_cases hx : 1 ≤ x ∧ x ≤ 10
    · simp [readNum_of_ne h, h, hx]
    · have hx' : ¬ (x ≠ thermoNone ∧ x ≥ 1 ∧ x ≤ 10) := fun h => hx h.2
      rw [readNum_of_ne h, if_neg hx', readNum_missing]
      simpa using hx

theorem heaterState_read (cfg : Cfg) (h : Option Firmware.Heater) (age : ℤ) :
    heaterState cfg (h.map Firmware.Heater.read) (readNum thermoNoneMs age) =
      ((Firmware.heaterState cfg h age).1, readNum thermoNone (Firmware.heaterState cfg h age).2.1,
        (Firmware.heaterState cfg h age).2.2) := by
  rcases h with _ | h
  · simp [heaterState, Firmware.heaterState]
  · by_cases ha : age = thermoNoneMs
    · simp [heaterState, Firmware.heaterState, ha]
    · have h0 : readNum thermoNone h.installed = some 0 ↔ h.installed = 0 := by simp [thermoNone]
      have h3 : readNum thermoNone h.opMode = some 3 ↔ h.opMode = 3 := by simp [thermoNone]
      simp only [Option.map_some, readNum_of_ne ha, heaterState, Firmware.heaterState, ha, false_or,
        Firmware.Heater.read, truthy_read, readNum_getD, level_read, h0, h3]
      by_cases hs : age > cfg.heaterStaleMs
      · simp [hs]
      · by_cases hi : h.installed = 0
        · simp [hs, hi]
        · simp [hs, hi]

/-- The settings are numbers, not the sentinel. -/
structure Cfg.Fits (cfg : Cfg) : Prop where
  minLevel : thermoNone < cfg.minLevel
  uOutMax : cfg.uOutMax ≠ thermoNone

theorem uOut_read {cfg : Cfg} (hc : cfg.uOutMax ≠ thermoNone) (tOut target : ℤ) :
    ((readNum thermoNone tOut).map fun t =>
      min (max (rdiv (cfg.ka * max 0 (target - t)) 100) 0) cfg.uOutMax) =
      readNum thermoNone (if tOut = thermoNone then thermoNone
        else min (max (rdiv (cfg.ka * max 0 (target - tOut)) 100) 0) cfg.uOutMax) := by
  by_cases h : tOut = thermoNone
  · simp [h]
  · rw [if_neg h, readNum_of_ne h, Option.map_some, eq_comm, readNum_eq_some]
    refine ⟨rfl, ?_⟩
    simp only [thermoNone] at hc ⊢
    omega

theorem hotSince_read (hot : Prop) [Decidable hot] {since now : ℤ} (hn : now ≠ thermoNoneMs) :
    (if hot then some (if since = thermoNoneMs then now else since) else none) =
      readNum thermoNoneMs
        (if hot then (if since = thermoNoneMs then now else since) else thermoNoneMs) := by
  by_cases hh : hot
  · by_cases hs : since = thermoNoneMs
    · simp [hh, hs, readNum_of_ne hn]
    · simp [hh, hs, readNum_of_ne hs]
  · simp [hh]

/-- The answer of the control law. -/
def readDemand (x : ℤ × Firmware.Ctl × Reason) : Option ℤ × Ctl × Reason :=
  (readNum thermoNone x.1, x.2.1.read, x.2.2)

theorem control_read {cfg : Cfg} (hc : cfg.Fits) {tRef tOut target dt cur now : ℤ}
    {ctl : Firmware.Ctl} (hn : now ≠ thermoNoneMs) :
    control cfg tRef (readNum thermoNone tOut) target dt ctl.read (readNum thermoNone cur) now =
      readDemand (Firmware.control cfg tRef tOut target dt ctl cur now) := by
  have hmin := hc.minLevel
  have hcur : readNum thermoNone cur = some cfg.minLevel ↔ cur = cfg.minLevel := by
    rw [readNum_eq_some]
    exact and_iff_left (by omega)
  simp only [control, Firmware.control, rdiv_read, mn_eq, mx_eq, uOut_read hc.uOutMax,
    Firmware.Ctl.read, readNum_getD, readNum_isNone, ne_eq, readNum_eq_none, ite_not, hcur,
    hotSince_read _ hn]
  -- the integrator and the demand are now the same terms on both sides
  generalize (if tOut = thermoNone then thermoNone
    else min (max (rdiv (cfg.ka * max 0 (target - tOut)) 100) 0) cfg.uOutMax) = uOut
  generalize (if uOut = thermoNone then 0 else uOut) = ff
  generalize (if ¬cur = thermoNone ∧ ¬decide (ctl.uOut = thermoNone) = decide (uOut = thermoNone)
    then ctl.i + ((if ctl.uOut = thermoNone then 0 else ctl.uOut) - ff) else ctl.i) = i₀
  generalize (if dt > 3 * cfg.periodMs ∨
      rdiv (cfg.kp * (target - tRef)) 100 + i₀ + ff < cfg.minLevel * 1000 ∧ target - tRef < 0 ∨
      rdiv (cfg.kp * (target - tRef)) 100 + i₀ + ff > 10000 ∧ target - tRef > 0
    then i₀ else i₀ + rdiv (cfg.ki * (target - tRef) * dt) (100 * 60000)) = i
  generalize rdiv (cfg.kp * (target - tRef)) 100 + i + ff = u
  generalize (if cur = cfg.minLevel ∧ tRef > target + cfg.bandHi
    then (if ctl.hotSinceMs = thermoNoneMs then now else ctl.hotSinceMs) else thermoNoneMs) = since
  have hlevel : min (max (rdiv u 1000) cfg.minLevel) 10 ≠ thermoNone := by
    simp only [thermoNone] at hmin ⊢
    omega
  generalize min (max (rdiv u 1000) cfg.minLevel) 10 = level at hlevel
  by_cases ho : tRef > target + cfg.overheat
  · simp [ho, readDemand, Firmware.Ctl.read]
  · by_cases hs : ¬ since = thermoNoneMs ∧ now - since ≥ cfg.hotHoldMs
    · simp [ho, hs, readDemand, Firmware.Ctl.read]
    · have hs' : ¬ ((readNum thermoNoneMs since).any fun h => now - h ≥ cfg.hotHoldMs) = true := by
        simpa using hs
      simp only [if_neg ho, if_neg hs, if_neg hs', neg_ite]
      by_cases hcn : cur = thermoNone
      · simp [hcn, readDemand, Firmware.Ctl.read, readNum_of_ne hlevel]
      · simp only [readNum_of_ne hcn, if_neg hcn]
        by_cases hh : level = cur ∨ ↑(u - cur * 1000).natAbs < 500 + cfg.hyst ∨
            now - ctl.lastChangeMs < cfg.minDwellMs
        · rw [if_pos hh, if_pos hh, readDemand, readNum_missing]
          rfl
        · rw [if_neg hh, if_neg hh, readDemand, readNum_of_ne hlevel]
          rfl

theorem track_read (cfg : Cfg) (ctl : Firmware.Ctl) (cur tRef target : ℤ) :
    track cfg ctl.read cur tRef target = (Firmware.track cfg ctl cur tRef target).read := by
  simp only [track, Firmware.track, Firmware.Ctl.read, rdiv_read, readNum_getD]

theorem readFlag_off {x : ℤ} : readFlag x = some false ↔ x = 0 := by
  by_cases h : x < 0
  · simp only [readFlag, if_pos h, reduceCtorEq, false_iff]
    omega
  · simp [readFlag, h]

theorem heater_isSome (inp : Firmware.Input) : inp.read.heater.isSome = inp.heater.isSome :=
  Option.isSome_map

theorem blocked_read (cfg : Cfg) (inp : Firmware.Input) :
    blocked cfg inp.read = Firmware.blocked cfg inp := by
  have hs : heaterState cfg inp.read.heater (some 0) = _ := heaterState_read cfg inp.heater 0
  have hv : valid cfg inp.read.ref = _ := valid_read cfg inp.ref
  have hi : inp.read.known.ignitionOn = some false ↔ _ := readFlag_off
  simp only [blocked, Firmware.blocked, hs, hv, ne_eq, hi, heater_isSome]
  simp [Firmware.Input.read]

theorem refusal_read (cfg : Cfg) (inp : Firmware.Input) (hs : HeaterState) (code : ℤ) :
    refusal cfg inp.read hs code = Firmware.refusal cfg inp hs code := by
  have hv : valid cfg inp.read.ref = _ := valid_read cfg inp.ref
  have hi : inp.read.ignitionOn = some false ↔ _ := readFlag_off
  simp only [refusal, Firmware.refusal, hv, ne_eq, hi]
  by_cases h : Firmware.valid cfg inp.ref = true
  · have ht : inp.read.ref.bind Sensor.value = some inp.ref.value :=
      (value_read cfg (by rwa [valid_read])).1
    simp only [ht, Option.any_some, decide_eq_true_eq]
    rfl
  · simp only [h]
    rfl

/-- The values a step computes first. -/
structure SameView (inp : Firmware.Input) (cv : Firmware.View) (v : View) : Prop where
  hs : v.hs = cv.hs
  level : v.level = readNum thermoNone cv.level
  code : v.code = cv.code
  snap : v.snap = whenSet cv.hasSnap cv.snap.read
  tOut : v.tOut = readNum thermoNone cv.tOut
  age : cv.hasSnap = true → inp.heaterAgeMs ≠ thermoNoneMs

theorem snapOf_read (h : Firmware.Heater) (level : ℤ) :
    snapOf h.read (readNum thermoNone level) =
      (⟨Firmware.truthy h.normal, Firmware.truthy h.permanent, level⟩ : Firmware.Snap).read := by
  simp only [snapOf, Firmware.Heater.read, truthy_read, Firmware.Snap.read]

theorem view_sameView (cfg : Cfg) (inp : Firmware.Input) :
    SameView inp (Firmware.view cfg inp) (view cfg inp.read) := by
  have hs : heaterState cfg inp.read.heater inp.read.heaterAgeMs = _ :=
    heaterState_read cfg inp.heater inp.heaterAgeMs
  have hv : valid cfg inp.read.out = _ := valid_read cfg inp.out
  refine ⟨?_, ?_, ?_, ?_, ?_, ?_⟩
  · simp only [view, hs, Firmware.view]
  · simp only [view, hs, Firmware.view]
  · simp only [view, hs, Firmware.view]
  · by_cases hu : (Firmware.heaterState cfg inp.heater inp.heaterAgeMs).1 = .unknown
    · simp [view, snapView, hs, Firmware.view, hu]
    · rcases hh : inp.heater with _ | h
      · exact absurd (by simp [Firmware.heaterState, hh]) hu
      · have hr : inp.read.heater = some h.read := by simp [Firmware.Input.read, hh]
        rw [hr, hh] at hs
        rw [hh] at hu
        simp only [view, snapView, hs, Firmware.view, hh, hr, Option.map_some, snapOf_read, ne_eq,
          hu, not_false_eq_true, if_true, decide_true, whenSet_true]
  · by_cases ho : inp.outsideOn = true ∧ Firmware.valid cfg inp.out = true
    · have hval := value_read cfg (s := inp.out) (by rw [valid_read]; exact ho.2)
      have ho' : inp.read.outsideOn = true ∧ valid cfg inp.read.out = true := by
        rw [hv]
        exact ho
      have ht : inp.read.out.bind Sensor.value = some inp.out.value := hval.1
      simp only [view, Firmware.view, if_pos ho, if_pos ho', ht, readNum_of_ne hval.2]
    · have ho' : ¬ (inp.read.outsideOn = true ∧ valid cfg inp.read.out = true) := by
        rw [hv]
        exact ho
      simp only [view, Firmware.view, if_neg ho, if_neg ho', readNum_missing]
  · intro h hage
    rcases hh : inp.heater with _ | f <;>
      simp [Firmware.view, Firmware.heaterState, hh, hage] at h

end OpenCalifornia.Thermostat
