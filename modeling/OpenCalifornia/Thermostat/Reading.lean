import OpenCalifornia.Thermostat.Invariant

/-! # Readings of the heater

The claims about a session speak of what a fresh frame shows, not of the reduced heater state.
This module takes the one back to the other. -/

namespace OpenCalifornia.Thermostat

variable {cfg : Cfg} {inp : Input}

/-- A frame of the heater of the given age, no older than `heater_stale_ms`, installed and
without a fault. -/
structure Reads (cfg : Cfg) (inp : Input) (d : Heater) (age : ℤ) : Prop where
  heater : inp.heater = some d
  taken : inp.heaterAgeMs = some age
  fresh : age ≤ cfg.heaterStaleMs
  installed : d.installed ≠ some 0
  code : d.errorCode.getD 0 = 0
  fault : truthy d.faultTriggerBit = false

/-- The clock time at which the frame was read. -/
def Input.readAt (inp : Input) (age : ℤ) : ℤ := inp.nowMs - age

def Heater.normal (d : Heater) : Bool := truthy d.normalOperation

def Heater.permanent (d : Heater) : Bool := truthy d.permanentOperation

theorem view_reads (hu : (view cfg inp).hs ≠ .unknown) (hf : (view cfg inp).hs.faulty = false) :
    ∃ d age, Reads cfg inp d age := by
  obtain ⟨d, age, hd, ha, hfresh⟩ := heaterState_known hu
  have hst : (heaterState cfg (some d) (some age)).1.faulty = false := by
    rw [← hd, ← ha]
    exact hf
  refine ⟨d, age, ⟨hd, ha, hfresh, ?_, ?_, ?_⟩⟩ <;>
    simp only [heaterState, if_neg (show ¬ age > cfg.heaterStaleMs by omega)] at hst
  all_goals split_ifs at hst <;> simp_all [HeaterState.faulty]

theorem Reads.snap {d : Heater} {age : ℤ} {s : Snap} (h : Reads cfg inp d age)
    (hs : (view cfg inp).snap = some s) : s.normal = d.normal ∧ s.permanent = d.permanent := by
  obtain ⟨f, hf, rfl⟩ := mem_snapView hs
  obtain rfl : d = f := Option.some.inj (h.heater.symm.trans hf)
  exact ⟨rfl, rfl⟩

theorem Reads.hs {d : Heater} {age : ℤ} (h : Reads cfg inp d age) :
    (view cfg inp).hs = if d.permanent then .continuous else if d.normal then .running
      else if d.operationMode = some 3 then .timerArmed else .off := by
  have hfresh : ¬ age > cfg.heaterStaleMs := by
    have := h.fresh
    omega
  simp only [view, h.heater, h.taken, heaterState, if_neg hfresh, if_neg h.installed]
  simp only [h.code, h.fault]
  rfl

theorem Reads.level {d : Heater} {age : ℤ} (h : Reads cfg inp d age) :
    (view cfg inp).level = d.heatingLevel.filter fun l => 1 ≤ l ∧ l ≤ 10 := by
  have hfresh : ¬ age > cfg.heaterStaleMs := by
    have := h.fresh
    omega
  simp only [view, h.heater, h.taken, heaterState, if_neg hfresh, if_neg h.installed]

theorem snap_reads {s : Snap} (hs : (view cfg inp).snap = some s)
    (hf : (view cfg inp).hs.faulty = false) : ∃ d age, Reads cfg inp d age := by
  refine view_reads (fun hu => ?_) hf
  have hsome := (view cfg inp).snap_isSome
  simp [hs, hu] at hsome

theorem Reads.snap_isSome {d : Heater} {age : ℤ} (h : Reads cfg inp d age) :
    (view cfg inp).snap.isSome := by
  rw [View.snap_isSome, decide_eq_true_eq, h.hs]
  split_ifs <;> simp

theorem Reads.faulty {d : Heater} {age : ℤ} (h : Reads cfg inp d age) :
    (view cfg inp).hs.faulty = false := by
  rw [h.hs]
  split_ifs <;> rfl

theorem Reads.readSince {d : Heater} {age since : ℤ} (h : Reads cfg inp d age) :
    readSince inp since = true ↔ since ≤ inp.readAt age := by
  simp [Thermostat.readSince, h.taken, Input.readAt]

end OpenCalifornia.Thermostat
