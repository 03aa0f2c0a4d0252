import OpenCalifornia.Lib.Machine
import OpenCalifornia.Thermostat.Control
import OpenCalifornia.Thermostat.Ranges

/-! # The demand does not jump

The demand is the proportional share and what the controller carries beside it: the integrator and
the outside share. `track` sets what is carried; a step that sees the outside reading come or go
moves the share into the integrator, so that only its own increment is added to what is carried.
`track` takes the outside share that the last `control` recorded, not the one at its own target. -/

namespace OpenCalifornia.Thermostat
open Lib.Machine (Run Record)

/-- The arguments of a `control` beside the controller. -/
structure ControlCall where
  cfg : Cfg
  tRef : ℤ
  tOut : Option ℤ
  target : ℤ
  dtMs : ℤ
  curLevel : Option ℤ
  nowMs : ℤ

namespace ControlCall

variable (c : ControlCall) (ctl : Ctl)

def run : Option ℤ × Ctl × Reason :=
  control c.cfg c.tRef c.tOut c.target c.dtMs ctl c.curLevel c.nowMs

def prop : ℤ := rdiv (c.cfg.kp * (c.target - c.tRef)) 100

/-- `u_out` -/
def uOut : Option ℤ :=
  c.tOut.map fun t => min (max (rdiv (c.cfg.ka * max 0 (c.target - t)) 100) 0) c.cfg.uOutMax

/-- `i` after the bumpless transfer. -/
def shifted : ℤ :=
  if c.curLevel ≠ none ∧ ctl.uOut.isNone ≠ c.uOut.isNone then
    ctl.i + (ctl.uOut.getD 0 - c.uOut.getD 0)
  else ctl.i

/-- The increment of the integrator, none where it is frozen. -/
def increment : ℤ :=
  let e := c.target - c.tRef
  let uOld := c.prop + c.shifted ctl + c.uOut.getD 0
  if c.dtMs > 3 * c.cfg.periodMs ∨ (uOld < c.cfg.minLevel * 1000 ∧ e < 0) ∨ (uOld > 10000 ∧ e > 0)
  then 0
  else rdiv (c.cfg.ki * e * c.dtMs) (100 * 60000)

def demandStep : Option (ℤ × Ctl) := some ((c.run ctl).2.1.u, (c.run ctl).2.1)

/-- The outside reading comes or goes, or its share at the target is the recorded one. -/
def ShareKept : Prop := c.tOut.isNone ≠ ctl.uOut.isNone ∨ c.uOut.getD 0 = ctl.uOut.getD 0

end ControlCall

/-- The part of the demand beside the proportional share. -/
def Ctl.carried (ctl : Ctl) : ℤ := ctl.i + ctl.uOut.getD 0

variable {c : ControlCall} {ctl : Ctl} {level : ℤ}

theorem add_ite (p : Prop) [Decidable p] (i d : ℤ) :
    (if p then i else i + d) = i + if p then 0 else d := by
  split_ifs
  · rw [add_zero]
  · rfl

theorem answered {p q : Prop} [Decidable p] [Decidable q] {r : ℤ → Prop} [DecidablePred r]
    (cur : Option ℤ) (l l' : Option ℤ) (y₁ y₂ y₃ y₄ : Reason) (y₅ : ℤ → Reason) (new : Ctl)
    (now : ℤ) :
    ∃ last, (if p then (none, new, y₁) else if q then (none, new, y₂)
      else match cur with
        | none => (l, new, y₃)
        | some cur => if r cur then (none, new, y₄)
          else (l', { new with lastChangeMs := now }, y₅ cur)).2.1 =
      { new with lastChangeMs := last } := by
  rcases cur with _ | cur
  · split_ifs <;> exact ⟨new.lastChangeMs, rfl⟩
  · dsimp only
    split_ifs
    · exact ⟨new.lastChangeMs, rfl⟩
    · exact ⟨new.lastChangeMs, rfl⟩
    · exact ⟨new.lastChangeMs, rfl⟩
    · exact ⟨now, rfl⟩

theorem run_ctl (c : ControlCall) (ctl : Ctl) :
    ∃ hot last, (c.run ctl).2.1 =
      ⟨c.shifted ctl + c.increment ctl, last, hot,
        c.prop + (c.shifted ctl + c.increment ctl) + c.uOut.getD 0, c.uOut⟩ := by
  simp only [ControlCall.increment, ← add_ite]
  exact ⟨_, answered c.curLevel _ _ _ _ _ _ _ _ _⟩

theorem run_u (c : ControlCall) (ctl : Ctl) :
    (c.run ctl).2.1.u = c.prop + (c.run ctl).2.1.carried := by
  obtain ⟨hot, last, h⟩ := run_ctl c ctl
  rw [h]
  exact Int.add_assoc _ _ _

theorem track_carried (cfg : Cfg) (ctl : Ctl) (level tRef target : ℤ) :
    (track cfg ctl level tRef target).carried =
      level * 1000 - rdiv (cfg.kp * (target - tRef)) 100 := by
  simp only [track, Ctl.carried]
  omega

theorem shifted_carried (hl : c.curLevel ≠ none) :
    c.shifted ctl + c.uOut.getD 0 = ctl.carried ↔ c.ShareKept ctl := by
  have hsome : ctl.uOut.isNone ≠ c.uOut.isNone ↔ c.tOut.isNone ≠ ctl.uOut.isNone := by
    rw [ControlCall.uOut, Option.isNone_map]
    exact ne_comm
  simp only [ControlCall.shifted, Ctl.carried, ControlCall.ShareKept]
  by_cases hn : c.tOut.isNone ≠ ctl.uOut.isNone
  · rw [if_pos ⟨hl, hsome.mpr hn⟩]
    exact iff_of_true (by omega) (.inl hn)
  · rw [if_neg fun h => hn (hsome.mp h.2)]
    constructor
    · exact fun h => .inr (by omega)
    · exact fun h => by
        have hs := h.resolve_left hn
        omega

theorem run_carried (hl : c.curLevel ≠ none) :
    (c.run ctl).2.1.carried = ctl.carried + c.increment ctl ↔ c.ShareKept ctl := by
  obtain ⟨hot, last, h⟩ := run_ctl c ctl
  rw [h, ← shifted_carried hl]
  simp only [Ctl.carried]
  omega

theorem track_control (hl : c.curLevel = some level) :
    (c.run (track c.cfg ctl level c.tRef c.target)).2.1.u =
        level * 1000 + c.increment (track c.cfg ctl level c.tRef c.target) ↔ c.ShareKept ctl := by
  have hl' : c.curLevel ≠ none := by simp [hl]
  have ht := track_carried c.cfg ctl level c.tRef c.target
  have hk : c.ShareKept (track c.cfg ctl level c.tRef c.target) ↔ c.ShareKept ctl := Iff.rfl
  rw [← hk, ← run_carried hl', run_u, ht, ControlCall.prop]
  omega

/-- A step after another one that had the outside reading where this one has not, or the other way,
changes the demand by the proportional share and its own increment. -/
def Jumpless (r' r : Record ControlCall ℤ Ctl) : Prop :=
  r'.inp.curLevel ≠ none → r'.inp.tOut.isNone ≠ r.inp.tOut.isNone →
    r'.out = r.out + (r'.inp.prop - r.inp.prop) + r'.inp.increment r'.pre

theorem run_uOut (c : ControlCall) (ctl : Ctl) : (c.run ctl).2.1.uOut = c.uOut := by
  obtain ⟨hot, last, h⟩ := run_ctl c ctl
  rw [h]

theorem jumpless {c' c : ControlCall} {ctl : Ctl} :
    Jumpless ⟨c', (c.run ctl).2.1, (c'.run (c.run ctl).2.1).2.1.u, (c'.run (c.run ctl).2.1).2.1⟩
      ⟨c, ctl, (c.run ctl).2.1.u, (c.run ctl).2.1⟩ := by
  intro hl hn
  have hk : c'.ShareKept (c.run ctl).2.1 := by
    refine .inl ?_
    rw [run_uOut, ControlCall.uOut, Option.isNone_map]
    exact hn
  simp only [run_u c', (run_carried hl).mpr hk, run_u c]
  omega

theorem run_jumpless {ctl₀ : Ctl} {tr : List (Record ControlCall ℤ Ctl)}
    (h : Run ControlCall.demandStep ctl₀ tr ctl) : tr.IsChain Jumpless := by
  induction h with
  | nil => exact .nil
  | cons hr hs ih =>
    obtain ⟨rfl, rfl⟩ := Prod.mk.inj (Option.some.inj hs)
    cases hr with
    | nil => exact .singleton _
    | cons hr' hs' =>
      obtain ⟨rfl, rfl⟩ := Prod.mk.inj (Option.some.inj hs')
      exact .cons_cons jumpless ih

-- `thermostat.c` computes in 64 bits and keeps the integrator, the demand and the share in 32.

namespace Firmware
open Lib.CInt

/-- The arguments of a `control` beside the controller; the settings are 32-bit numbers. -/
structure ControlCall where
  cfg : Cfg
  tRef : ℤ
  tOut : ℤ
  target : ℤ
  dtMs : ℤ
  curLevel : ℤ
  nowMs : ℤ
  uOutMax_fits : (i32 cfg.uOutMax).fits

/-- `(int32_t)` of the values that a step stores. -/
def Ctl.narrowed (ctl : Ctl) : Ctl :=
  { ctl with i := (i32 ctl.i).stored, u := (i32 ctl.u).stored, uOut := (i32 ctl.uOut).stored }

/-- `track`, as it stores the integrator. -/
def trackStored (cfg : Cfg) (ctl : Ctl) (curLevel tRef target : ℤ) : Ctl :=
  { ctl with i := (i32 (track cfg ctl curLevel tRef target).i).stored }

namespace ControlCall

variable (c : ControlCall) (ctl : Ctl)

def run : ℤ × Ctl × Reason :=
  control c.cfg c.tRef c.tOut c.target c.dtMs ctl c.curLevel c.nowMs

def prop : ℤ := rdiv (c.cfg.kp * (c.target - c.tRef)) 100

def uOut : ℤ := outShare c.cfg c.tOut c.target

/-- The increment of the integrator, none where it is frozen. -/
def increment : ℤ :=
  grown c.cfg c.dtMs (c.prop + shifted ctl c.uOut c.curLevel + shareOf c.uOut) (c.target - c.tRef) 0

/-- The demand in 64 bits, and the controller as it is stored. -/
def demandStep : Option (ℤ × Ctl) := some ((c.run ctl).2.1.u, (c.run ctl).2.1.narrowed)

/-- The outside share comes or goes, or at the target it is the recorded one. -/
def ShareKept : Prop :=
  decide (ctl.uOut = thermoNone) ≠ decide (c.uOut = thermoNone) ∨ shareOf c.uOut = shareOf ctl.uOut

/-- The integrator that the step leaves is a 32-bit number. -/
def IntegratorFits : Prop := (i32 (shifted ctl c.uOut c.curLevel + c.increment ctl)).fits

/-- No operation in 64 bits overflows. -/
def Defined : Prop :=
  ∀ x ∈ controlVals c.cfg c.tRef c.tOut c.target c.dtMs ctl c.curLevel c.nowMs,
    x.ty = .i64 → x.fits

end ControlCall

def Ctl.carried (ctl : Ctl) : ℤ := ctl.i + shareOf ctl.uOut

variable {c : ControlCall} {ctl : Ctl} {level : ℤ}

theorem grown_eq (cfg : Cfg) (dtMs uOld e i : ℤ) :
    grown cfg dtMs uOld e i = i + grown cfg dtMs uOld e 0 := by
  simp only [grown]
  split_ifs <;> omega

theorem run_ctl (c : ControlCall) (ctl : Ctl) :
    ∃ hot last, (c.run ctl).2.1 =
      ⟨shifted ctl c.uOut c.curLevel + c.increment ctl, last, hot,
        c.prop + (shifted ctl c.uOut c.curLevel + c.increment ctl) + shareOf c.uOut, c.uOut⟩ := by
  simp only [ControlCall.increment, ← grown_eq]
  have h : ∃ last, (last = ctl.lastChangeMs ∨ last = c.nowMs) ∧ (c.run ctl).2.1 =
      ⟨grown c.cfg c.dtMs (c.prop + shifted ctl c.uOut c.curLevel + shareOf c.uOut)
          (c.target - c.tRef) (shifted ctl c.uOut c.curLevel), last, _, _, c.uOut⟩ :=
    answer_ctl _ _ _ _ _ _ _ ⟨_, ctl.lastChangeMs, _, _, _⟩ ctl.lastChangeMs c.nowMs rfl
  obtain ⟨last, -, h⟩ := h
  exact ⟨_, last, h⟩

theorem run_u (c : ControlCall) (ctl : Ctl) :
    (c.run ctl).2.1.u = c.prop + (c.run ctl).2.1.carried := by
  obtain ⟨hot, last, h⟩ := run_ctl c ctl
  rw [h]
  exact Int.add_assoc _ _ _

theorem uOut_fits (c : ControlCall) : (i32 c.uOut).fits := by
  have h := c.uOutMax_fits
  rw [fits_i32] at *
  simp only [ControlCall.uOut, outShare, mn, mx, thermoNone]
  split_ifs <;> omega

theorem shifted_carried (hl : c.curLevel ≠ thermoNone) (ctl : Ctl) :
    shifted ctl c.uOut c.curLevel + shareOf c.uOut =
      ctl.i + if decide (ctl.uOut = thermoNone) ≠ decide (c.uOut = thermoNone) then shareOf ctl.uOut
        else shareOf c.uOut := by
  have ht : transfers ctl c.uOut c.curLevel ↔
      decide (ctl.uOut = thermoNone) ≠ decide (c.uOut = thermoNone) := and_iff_right hl
  simp only [shifted]
  by_cases h : decide (ctl.uOut = thermoNone) ≠ decide (c.uOut = thermoNone)
  · rw [if_pos (ht.mpr h), if_pos h]
    omega
  · rw [if_neg fun h' => h (ht.mp h'), if_neg h]

theorem run_carried (hl : c.curLevel ≠ thermoNone) (hk : c.ShareKept ctl) :
    (c.run ctl).2.1.carried = ctl.carried + c.increment ctl := by
  obtain ⟨hot, last, h⟩ := run_ctl c ctl
  have hs := shifted_carried hl ctl
  rw [h]
  simp only [Ctl.carried]
  by_cases ht : decide (ctl.uOut = thermoNone) ≠ decide (c.uOut = thermoNone)
  · rw [if_pos ht] at hs
    omega
  · rw [if_neg ht] at hs
    have heq := hk.resolve_left ht
    omega

theorem shareOf_lt {x : ℤ} (h : (i32 x).fits) : -2 ^ 31 ≤ shareOf x ∧ shareOf x < 2 ^ 31 := by
  rw [fits_i32] at h
  unfold shareOf
  split_ifs <;> omega

/-- The demand after a `track` is that of the level where the share is kept and the integrator that
`track` sets is a 32-bit number. -/
theorem trackStored_control (hl : c.curLevel ≠ thermoNone) (hu : (i32 ctl.uOut).fits) :
    (c.run (trackStored c.cfg ctl c.curLevel c.tRef c.target)).2.1.u =
        c.curLevel * 1000 + c.increment (trackStored c.cfg ctl c.curLevel c.tRef c.target) ↔
      c.ShareKept ctl ∧ (i32 (c.curLevel * 1000 - c.prop - shareOf ctl.uOut)).fits := by
  set ctl' := trackStored c.cfg ctl c.curLevel c.tRef c.target with hctl
  set x := c.curLevel * 1000 - c.prop - shareOf ctl.uOut with hx
  obtain ⟨hot, last, h⟩ := run_ctl c ctl'
  have hs := shifted_carried hl ctl'
  have hi : ctl'.i = (i32 x).stored := rfl
  have hout : ctl'.uOut = ctl.uOut := rfl
  obtain ⟨k, hk⟩ : (2 ^ 32 : ℤ) ∣ (i32 x).stored - x := Int.dvd_bmod_sub_self
  have hold := shareOf_lt hu
  have hnew := shareOf_lt (uOut_fits c)
  rw [h, ← Val.stored_eq_iff]
  change _ ↔ _ ∧ (i32 x).stored = x
  rw [hi, hout] at hs
  dsimp only
  by_cases ht : decide (ctl.uOut = thermoNone) ≠ decide (c.uOut = thermoNone)
  · rw [if_pos ht] at hs
    refine Iff.trans ?_ (and_iff_right (.inl ht)).symm
    omega
  · rw [if_neg ht] at hs
    -- the integrator is off by a multiple of 2 ^ 32, the share by less
    have hkept : c.ShareKept ctl ↔ shareOf c.uOut = shareOf ctl.uOut := or_iff_right ht
    rw [hkept]
    omega

def Jumpless (r' r : Record ControlCall ℤ Ctl) : Prop :=
  r'.inp.curLevel ≠ thermoNone →
    decide (r'.inp.tOut = thermoNone) ≠ decide (r.inp.tOut = thermoNone) →
    r'.out = r.out + (r'.inp.prop - r.inp.prop) + r'.inp.increment r'.pre

theorem narrowed_carried (h : c.IntegratorFits ctl) :
    (c.run ctl).2.1.narrowed.carried = (c.run ctl).2.1.carried ∧
      (c.run ctl).2.1.narrowed.uOut = c.uOut := by
  obtain ⟨hot, last, he⟩ := run_ctl c ctl
  have hi : (i32 (shifted ctl c.uOut c.curLevel + c.increment ctl)).stored = _ := h.stored_eq
  have hu : (i32 c.uOut).stored = _ := (uOut_fits c).stored_eq
  rw [he]
  simp only [Ctl.narrowed, Ctl.carried, hi, hu]
  exact ⟨rfl, rfl⟩

/-- A step that finds the outside reading come or gone moves the share, or there is none. -/
theorem shareKept_of_next {c' : ControlCall} (hu : ctl.uOut = c.uOut)
    (hn : decide (c'.tOut = thermoNone) ≠ decide (c.tOut = thermoNone)) : c'.ShareKept ctl := by
  have hc : c.tOut = thermoNone → c.uOut = thermoNone := fun h => if_pos h
  have hc' : c'.tOut = thermoNone → c'.uOut = thermoNone := fun h => if_pos h
  refine or_iff_not_imp_left.mpr fun hsame => ?_
  have hboth : ctl.uOut = thermoNone ↔ c'.uOut = thermoNone :=
    decide_eq_decide.mp (not_not.mp hsame)
  by_cases ht : c.tOut = thermoNone
  · have hnone : ctl.uOut = thermoNone := hu.trans (hc ht)
    rw [hnone, hboth.mp hnone]
  · have ht' : c'.tOut = thermoNone := by simpa [ht] using hn
    rw [hc' ht', hboth.mpr (hc' ht')]

theorem jumpless {c' c : ControlCall} {ctl : Ctl} (h : c.IntegratorFits ctl) :
    Jumpless ⟨c', (c.run ctl).2.1.narrowed, (c'.run (c.run ctl).2.1.narrowed).2.1.u,
        (c'.run (c.run ctl).2.1.narrowed).2.1.narrowed⟩
      ⟨c, ctl, (c.run ctl).2.1.u, (c.run ctl).2.1.narrowed⟩ := by
  intro hl hn
  obtain ⟨hc, hu⟩ := narrowed_carried h
  have hk : c'.ShareKept (c.run ctl).2.1.narrowed := shareKept_of_next hu hn
  simp only [run_u c', run_carried hl hk, hc, run_u c]
  omega

theorem run_jumpless {ctl₀ : Ctl} {tr : List (Record ControlCall ℤ Ctl)}
    (h : Run ControlCall.demandStep ctl₀ tr ctl)
    (hf : ∀ r ∈ tr, r.inp.IntegratorFits r.pre) : tr.IsChain Jumpless := by
  induction h with
  | nil => exact .nil
  | cons hr hs ih =>
    obtain ⟨rfl, rfl⟩ := Prod.mk.inj (Option.some.inj hs)
    have hf' := fun r hr => hf r (List.mem_cons_of_mem _ hr)
    cases hr with
    | nil => exact .singleton _
    | cons hr' hs' =>
      obtain ⟨rfl, rfl⟩ := Prod.mk.inj (Option.some.inj hs')
      exact .cons_cons (jumpless (hf' _ List.mem_cons_self)) (ih hf')

end Firmware

/-- The first `control` after `track` starts from the heater's level where the outside share comes
or goes or is the recorded one, and a run does not jump where the outside reading comes or goes; in
`thermostat.c` where the integrator fits the 32 bits it is kept in, too. -/
theorem control_bumpless (cf : Firmware.ControlCall) (ctlf : Firmware.Ctl) :
    (∀ (c : ControlCall) (ctl : Ctl) (level : ℤ), c.curLevel = some level →
      ((c.run (track c.cfg ctl level c.tRef c.target)).2.1.u =
          level * 1000 + c.increment (track c.cfg ctl level c.tRef c.target) ↔ c.ShareKept ctl)) ∧
    (∀ ctl₀ tr ctl, Run ControlCall.demandStep ctl₀ tr ctl → tr.IsChain Jumpless) ∧
    (cf.curLevel ≠ Firmware.thermoNone → (Lib.CInt.i32 ctlf.uOut).fits →
      let ctl' := Firmware.trackStored cf.cfg ctlf cf.curLevel cf.tRef cf.target
      cf.Defined ctl' →
      ((cf.run ctl').2.1.u = cf.curLevel * 1000 + cf.increment ctl' ↔ cf.ShareKept ctlf ∧
        (Lib.CInt.i32 (cf.curLevel * 1000 - cf.prop - Firmware.shareOf ctlf.uOut)).fits)) ∧
    (∀ ctl₀ tr ctl, Run Firmware.ControlCall.demandStep ctl₀ tr ctl →
      (∀ r ∈ tr, r.inp.Defined r.pre ∧ r.inp.IntegratorFits r.pre) →
      tr.IsChain Firmware.Jumpless) :=
  ⟨fun _ _ _ hl => track_control hl,
    fun _ _ _ h => run_jumpless h,
    fun hl hu _ => Firmware.trackStored_control hl hu,
    fun _ _ _ h hf => Firmware.run_jumpless h fun r hr => (hf r hr).2⟩

/-- The outside reading and the target stay: the demand is the level's and the increment of 500. -/
theorem control_bumpless_tracked :
    let c : ControlCall := ⟨thermoDefaults, 1200, some 1000, 2200, 60000, some 6, 60000⟩
    let cf : Firmware.ControlCall := ⟨thermoDefaults, 1200, 1000, 2200, 60000, 6, 60000, by decide⟩
    let ctl := (c.run ⟨0, 0, none, 0, none⟩).2.1
    let ctlf := (cf.run ⟨0, 0, Firmware.thermoNoneMs, 0, Firmware.thermoNone⟩).2.1.narrowed
    (c.run (track c.cfg ctl 6 c.tRef c.target)).2.1.u = 6000 + 500 ∧
      (cf.run (Firmware.trackStored cf.cfg ctlf cf.curLevel cf.tRef cf.target)).2.1.u =
        6000 + 500 := by
  intro c cf ctl ctlf
  obtain ⟨hpy, -, hfw, -⟩ := control_bumpless cf ctlf
  have hfits : (Lib.CInt.i32 ctlf.uOut).fits := by decide
  have hdefined : cf.Defined (Firmware.trackStored cf.cfg ctlf cf.curLevel cf.tRef cf.target) := by
    unfold Firmware.ControlCall.Defined
    decide
  have hkept : cf.ShareKept ctlf := .inr (by decide)
  have hsmall : (Lib.CInt.i32 (cf.curLevel * 1000 - cf.prop - Firmware.shareOf
      ctlf.uOut)).fits := by
    decide
  have hinc : cf.increment (Firmware.trackStored cf.cfg ctlf cf.curLevel cf.tRef cf.target) =
      500 := by
    decide
  refine ⟨((hpy c ctl 6 rfl).mpr (.inr (by decide))).trans (by decide), ?_⟩
  have hlevel : cf.curLevel ≠ Firmware.thermoNone := by decide
  have hu := (hfw hlevel hfits hdefined).mpr ⟨hkept, hsmall⟩
  have hsum : cf.curLevel * 1000 + 500 = 6000 + 500 := by decide
  exact hu.trans ((congrArg (cf.curLevel * 1000 + ·) hinc).trans hsum)

/-- The outside reading stays at 10 degrees, the target goes from 15 to 22: the recorded share is
500 and the one at the new target 1200. At level 6 the demand is 7200 after an increment of 500.
With the largest `kp` of the settings, 5 degrees below the target at level 5, the demand of
`thermostat.c` is 8 589 939 levels. -/
theorem control_jumps :
    (∃ (c₀ c : ControlCall) (ctl₀ : Ctl), c₀.cfg = thermoDefaults ∧ c.cfg = thermoDefaults ∧
      c.tOut = c₀.tOut ∧ c.curLevel = some 6 ∧
      let ctl' := track c.cfg (c₀.run ctl₀).2.1 6 c.tRef c.target
      c.increment ctl' = 500 ∧ (c.run ctl').2.1.u = 7200) ∧
    (∃ (c₀ c : Firmware.ControlCall) (ctl₀ : Firmware.Ctl), c₀.cfg = thermoDefaults ∧
      c.cfg = thermoDefaults ∧ c.tOut = c₀.tOut ∧ c.curLevel = 6 ∧
      let ctl' := Firmware.trackStored c.cfg (c₀.run ctl₀).2.1.narrowed 6 c.tRef c.target
      c.increment ctl' = 500 ∧ (c.run ctl').2.1.u = 7200) ∧
    ∃ (c : Firmware.ControlCall) (ctl : Firmware.Ctl), c.curLevel = 5 ∧ c.ShareKept ctl ∧
      let ctl' := Firmware.trackStored c.cfg ctl c.curLevel c.tRef c.target
      (c.run ctl').2.1.u ≠ c.curLevel * 1000 + c.increment ctl' := by
  refine ⟨⟨⟨thermoDefaults, 1200, some 1000, 1500, 60000, some 6, 0⟩,
      ⟨thermoDefaults, 1200, some 1000, 2200, 60000, some 6, 60000⟩, ⟨0, 0, none, 0, none⟩,
      rfl, rfl, rfl, rfl, by decide, by decide⟩,
    ⟨⟨thermoDefaults, 1200, 1000, 1500, 60000, 6, 0, by decide⟩,
      ⟨thermoDefaults, 1200, 1000, 2200, 60000, 6, 60000, by decide⟩,
      ⟨0, 0, Firmware.thermoNoneMs, 0, Firmware.thermoNone⟩,
      rfl, rfl, rfl, rfl, by decide, by decide⟩,
    ⟨{ thermoDefaults with kp := 2147483647 }, 1500, Firmware.thermoNone, 2000, 60000, 5, 0,
      by decide⟩, ⟨0, 0, Firmware.thermoNoneMs, 0, Firmware.thermoNone⟩, rfl, .inr rfl, by decide⟩

end OpenCalifornia.Thermostat
