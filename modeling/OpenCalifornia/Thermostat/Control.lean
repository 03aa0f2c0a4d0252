import OpenCalifornia.Thermostat.Basic

/-! # What a step reads and the control law

`heater_state`, `_valid`, `_snap`, `_same`, `control`, `track`, `blocked` and `_refusal`, and
`view`: the values a step computes from its inputs before the first rule. -/

namespace OpenCalifornia.Thermostat

/-- Integer division rounding half away from zero. -/
def rdiv (a b : ℤ) : ℤ :=
  let q := Int.fdiv a.natAbs b.natAbs
  let r := Int.fmod a.natAbs b.natAbs
  let q := if 2 * r ≥ b.natAbs then q + 1 else q
  if decide (a < 0) = decide (b < 0) then q else -q

/-- Python truthiness of `d.get(key)`. -/
def truthy (v : Option ℤ) : Bool := v.getD 0 ≠ 0

def heaterState (cfg : Cfg) (d : Option Heater) (ageMs : Option ℤ) :
    HeaterState × Option ℤ × ℤ :=
  match d, ageMs with
  | some d, some age =>
    if age > cfg.heaterStaleMs then (.unknown, none, 0)
    else if d.installed = some 0 then (.fault, none, -1)
    else
      let level := d.heatingLevel.filter fun l => 1 ≤ l ∧ l ≤ 10
      let err := d.errorCode.getD 0
      let state :=
        if err = 4 then .locked
        else if err = 5 then .blocked
        else if err ≠ 0 ∨ truthy d.faultTriggerBit then .fault
        else if truthy d.permanentOperation then .continuous
        else if truthy d.normalOperation then .running
        else if d.operationMode = some 3 then .timerArmed
        else .off
      (state, level, err)
  | _, _ => (.unknown, none, 0)

def valid (cfg : Cfg) (r : Option Sensor) : Bool :=
  match r with
  | some ⟨_, some _, some age⟩ => age ≤ cfg.staleAfterMs
  | _ => false

def snapOf (d : Heater) (level : Option ℤ) : Snap :=
  ⟨truthy d.normalOperation, truthy d.permanentOperation, level⟩

/-- An unknown level on either side is no difference. -/
def same (a b : Snap) : Bool :=
  a.normal = b.normal ∧ a.permanent = b.permanent ∧
    (a.level = none ∨ b.level = none ∨ a.level = b.level)

/-- One step of the integer PI law with outside feed-forward. -/
def control (cfg : Cfg) (tRef : ℤ) (tOut : Option ℤ) (target dtMs : ℤ) (ctl : Ctl)
    (curLevel : Option ℤ) (nowMs : ℤ) : Option ℤ × Ctl × Reason :=
  let e := target - tRef
  let p := rdiv (cfg.kp * e) 100
  let uOut := tOut.map fun t => min (max (rdiv (cfg.ka * max 0 (target - t)) 100) 0) cfg.uOutMax
  let ff := uOut.getD 0
  let i :=
    if curLevel ≠ none ∧ ctl.uOut.isNone ≠ uOut.isNone then ctl.i + (ctl.uOut.getD 0 - ff)
    else ctl.i
  let uOld := p + i + ff
  let lo := cfg.minLevel * 1000
  let frozen := dtMs > 3 * cfg.periodMs ∨ (uOld < lo ∧ e < 0) ∨ (uOld > 10000 ∧ e > 0)
  let i := if frozen then i else i + rdiv (cfg.ki * e * dtMs) (100 * 60000)
  let u := p + i + ff
  let hot := curLevel = some cfg.minLevel ∧ tRef > target + cfg.bandHi
  let hotSince := if hot then some (ctl.hotSinceMs.getD nowMs) else none
  let new := { ctl with i, u, uOut, hotSinceMs := hotSince }
  if tRef > target + cfg.overheat then (none, new, .overheat)
  else if hotSince.any fun h => nowMs - h ≥ cfg.hotHoldMs then
    (none, new, .targetExceededAtMinLevel)
  else
    let level := min (max (rdiv u 1000) cfg.minLevel) 10
    match curLevel with
    | none => (some level, new, .levelUp)
    | some cur =>
      if level = cur ∨ (u - cur * 1000).natAbs < 500 + cfg.hyst ∨
          nowMs - ctl.lastChangeMs < cfg.minDwellMs then (none, new, .hold)
      else (some level, { new with lastChangeMs := nowMs },
        if level > cur then .levelUp else .levelDown)

/-- Make the next demand equal the current level. -/
def track (cfg : Cfg) (ctl : Ctl) (curLevel tRef target : ℤ) : Ctl :=
  let p := rdiv (cfg.kp * (target - tRef)) 100
  { ctl with i := curLevel * 1000 - p - ctl.uOut.getD 0 }

/-- Why a request could not start right now, from the last frames whatever their age. -/
def blocked (cfg : Cfg) (inp : Input) : Option Refusal :=
  let (hs, _, code) := heaterState cfg inp.heater (some 0)
  if inp.heater.isSome ∧ code = -1 then some .notInstalled
  else if inp.heater.isSome ∧ hs.faulty then some .fault
  else if inp.heater.isSome ∧ hs = .timerArmed then some .timerArmed
  else if ¬ (inp.known.campingOn ∨ inp.known.shoreOn) then some .noCamping
  else if inp.known.ignitionOn ≠ some false then some .ignition
  else if ¬ valid cfg inp.ref then some .noReference
  else none

def refusal (cfg : Cfg) (inp : Input) (hs : HeaterState) (code : ℤ) : Option Refusal :=
  if ¬ inp.enabled then some .disabled
  else if ¬ inp.linkReady then some .noLink
  else if hs = .unknown then some .staleHeater
  else if code = -1 then some .notInstalled
  else if hs.faulty then some .fault
  else if hs = .timerArmed then some .timerArmed
  else if ¬ (inp.campingOn ∨ inp.shoreOn) then some .noCamping
  else if inp.ignitionOn ≠ some false then some .ignition
  else if ¬ valid cfg inp.ref then some .noReference
  else if ¬ inp.night ∧ hs = .off ∧
      (inp.ref.bind Sensor.value).any (fun t => t > inp.target + cfg.bandHi) then some .warm
  else none

def faultReason (code : ℤ) : Reason :=
  if code = 4 then .locked else if 1 ≤ code ∧ code ≤ 15 then .fault code else .heaterUnknown

section HeaterState

variable {cfg : Cfg} {d : Option Heater} {age : Option ℤ}

theorem heaterState_known (h : (heaterState cfg d age).1 ≠ .unknown) :
    ∃ f a, d = some f ∧ age = some a ∧ a ≤ cfg.heaterStaleMs := by
  rcases d with _ | f <;> rcases age with _ | a <;> simp only [heaterState] at h
  · exact absurd rfl h
  · exact absurd rfl h
  · exact absurd rfl h
  · split_ifs at h with ha
    · exact absurd rfl h
    all_goals exact ⟨f, a, rfl, rfl, by omega⟩

theorem heaterState_running {f : Heater} (h : (heaterState cfg (some f) age).1 = .running) :
    truthy f.normalOperation = true ∧ truthy f.permanentOperation = false := by
  rcases age with _ | a <;> simp only [heaterState] at h
  · cases h
  · split_ifs at h
    simp_all

theorem heaterState_continuous {f : Heater}
    (h : (heaterState cfg (some f) age).1 = .continuous) :
    truthy f.permanentOperation = true := by
  rcases age with _ | a <;> simp only [heaterState] at h
  · cases h
  · split_ifs at h
    simp_all

theorem heaterState_idle {f : Heater}
    (h : (heaterState cfg (some f) age).1 = .off ∨
      (heaterState cfg (some f) age).1 = .timerArmed) :
    truthy f.normalOperation = false ∧ truthy f.permanentOperation = false := by
  rcases age with _ | a <;> simp only [heaterState] at h
  · rcases h with h | h <;> cases h
  · split_ifs at h <;> simp_all

end HeaterState

/-- What a step computes from its inputs before the first rule. The last fields say how the
snapshot belongs to the heater state. -/
structure View where
  hs : HeaterState
  level : Option ℤ
  code : ℤ
  snap : Option Snap
  tOut : Option ℤ
  snap_isSome : snap.isSome = decide (hs ≠ .unknown)
  snap_level : ∀ s ∈ snap, s.level = level
  snap_running : hs = .running → ∀ s ∈ snap, s.normal = true ∧ s.permanent = false
  snap_continuous : hs = .continuous → ∀ s ∈ snap, s.permanent = true
  snap_idle : hs = .off ∨ hs = .timerArmed → ∀ s ∈ snap, s.heating = false

/-- The snapshot of a frame whose state is known. -/
def snapView (cfg : Cfg) (d : Option Heater) (age : Option ℤ) : Option Snap :=
  let (hs, level, _) := heaterState cfg d age
  if hs ≠ .unknown then d.map (snapOf · level) else none

theorem mem_snapView {cfg : Cfg} {d : Option Heater} {age : Option ℤ} {s : Snap}
    (h : s ∈ snapView cfg d age) :
    ∃ f, d = some f ∧ s = snapOf f (heaterState cfg d age).2.1 := by
  simp only [snapView] at h
  split_ifs at h
  · obtain ⟨f, hf, rfl⟩ := Option.map_eq_some_iff.mp h
    exact ⟨f, hf, rfl⟩
  · cases h

def view (cfg : Cfg) (inp : Input) : View where
  hs := (heaterState cfg inp.heater inp.heaterAgeMs).1
  level := (heaterState cfg inp.heater inp.heaterAgeMs).2.1
  code := (heaterState cfg inp.heater inp.heaterAgeMs).2.2
  snap := snapView cfg inp.heater inp.heaterAgeMs
  tOut := if inp.outsideOn ∧ valid cfg inp.out then inp.out.bind Sensor.value else none
  snap_isSome := by
    simp only [snapView]
    split_ifs with h
    · obtain ⟨f, _, hf, _⟩ := heaterState_known h
      simp [hf] at h ⊢
      exact h
    · simpa using h
  snap_level := by
    intro s hs
    obtain ⟨f, _, rfl⟩ := mem_snapView hs
    rfl
  snap_running := by
    intro h s hs
    obtain ⟨f, hf, rfl⟩ := mem_snapView hs
    rw [hf] at h
    exact heaterState_running h
  snap_continuous := by
    intro h s hs
    obtain ⟨f, hf, rfl⟩ := mem_snapView hs
    rw [hf] at h
    exact heaterState_continuous h
  snap_idle := by
    intro h s hs
    obtain ⟨f, hf, rfl⟩ := mem_snapView hs
    rw [hf] at h
    have hi := heaterState_idle h
    simp [Snap.heating, snapOf, hi.1, hi.2]

end OpenCalifornia.Thermostat
