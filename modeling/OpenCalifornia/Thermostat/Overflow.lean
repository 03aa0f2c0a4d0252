import Mathlib
import OpenCalifornia.Thermostat.Fits

/-! # Runs under the settings table

A step runs under any configuration of the table, on any plausible readings, at any later time.
Each time the outside thermometer comes into use a step may take its share out of the integral,
and put another one back when it goes: what a run needs grows with that count. -/

namespace OpenCalifornia.Thermostat.Firmware
open Lib (Flow)
open Lib.CInt
open Lib.Machine (Run Record run_of_exec)
open Settings (RunCfg cfgOk targetOk)

/-- A step's configuration and its input. -/
abbrev Turn := RunCfg × Input

def turn (x : Turn) (st : State) : Option (Out × State) := step x.1.cfg x.2 st

abbrev TurnRec := Record Turn Out State

/-- What can come to a step: a configuration of the table, a target it admits, readings from
-40.00 to 60.00 degrees, and a clock of milliseconds from a timer of microseconds. -/
structure Plausible (x : Turn) : Prop where
  cfg : x.1.valid
  target : targetOk x.2.target
  ref : x.2.ref.value = thermoNone ∨ reading x.2.ref.value
  backup : x.2.backup.value = thermoNone ∨ reading x.2.backup.value
  out : x.2.out.value = thermoNone ∨ reading x.2.out.value
  now : 0 ≤ x.2.nowMs ∧ x.2.nowMs ≤ 9223372036854775
  age : x.2.heaterAgeMs = thermoNoneMs ∨ 0 ≤ x.2.heaterAgeMs ∧ x.2.heaterAgeMs ≤ x.2.nowMs

/-- The step's shares are in the budget, and its hysteresis leaves room for half a level. -/
structure Within (B : Budget) (x : Turn) : Prop where
  hyst : x.1.cfg.hyst ≤ 2147483147
  ref : valid x.1.cfg x.2.ref → ErrorWithin B x.1.cfg (x.2.target - x.2.ref.value)
  backup : valid x.1.cfg x.2.backup → ErrorWithin B x.1.cfg (x.2.target - x.2.backup.value)
  out : x.2.outsideOn → valid x.1.cfg x.2.out →
    outShare x.1.cfg x.2.out.value x.2.target ≤ B.share

/-- The outside thermometer in use. -/
def tOutOf (x : Turn) : ℤ := (view x.1.cfg x.2).tOut

def newest : List Turn → ℤ
  | [] => thermoNone
  | x :: _ => tOutOf x

/-- How often the outside thermometer came into use. -/
def comes : List Turn → ℕ
  | [] => 0
  | x :: older => comes older + if tOutOf x ≠ thermoNone ∧ newest older = thermoNone then 1 else 0

theorem comes_pos {xs : List Turn} (h : newest xs ≠ thermoNone) : 1 ≤ comes xs := by
  induction xs with
  | nil => exact absurd rfl h
  | cons x older ih =>
    have hx : tOutOf x ≠ thermoNone := h
    by_cases ho : newest older = thermoNone
    · rw [comes, if_pos ⟨hx, ho⟩]
      omega
    · have := ih ho
      rw [comes]
      omega

/-- The clock of the newest step. -/
def clock : List Turn → ℤ
  | [] => 0
  | x :: _ => x.2.nowMs

variable {B : Budget} {spent now : ℤ} {x : Turn} {st : State}

theorem tOutOf_cases (x : Turn) : tOutOf x = thermoNone ∨
    tOutOf x = x.2.out.value ∧ x.2.outsideOn ∧ valid x.1.cfg x.2.out := by
  simp only [tOutOf, view]
  split_ifs with h
  · exact .inr ⟨rfl, h⟩
  · exact .inl rfl

theorem heaterState_level (cfg : Cfg) (h : Option Heater) (age : ℤ) :
    (heaterState cfg h age).2.1 = thermoNone ∨
      1 ≤ (heaterState cfg h age).2.1 ∧ (heaterState cfg h age).2.1 ≤ 10 := by
  rcases h with _ | h
  · exact .inl rfl
  · by_cases ha : age = thermoNoneMs ∨ age > cfg.heaterStaleMs
    · simp [heaterState, if_pos ha]
    · by_cases hi : h.installed = 0
      · simp [heaterState, if_neg ha, if_pos hi]
      · simp only [heaterState, if_neg ha, if_neg hi]
        by_cases hl : h.level ≠ thermoNone ∧ h.level ≥ 1 ∧ h.level ≤ 10
        · rw [if_pos hl]
          exact .inr hl.2
        · rw [if_neg hl]
          exact .inl rfl

theorem heaterState_stale (cfg : Cfg) (h : Option Heater) :
    (heaterState cfg h thermoNoneMs).1 = .unknown := by
  rcases h with _ | h
  · rfl
  · simp [heaterState]

theorem Plausible.fair (hp : Plausible x) (hw : Within B x) (hs : 0 ≤ spent)
    (hshare : tOutOf x ≠ thermoNone → B.share ≤ spent)
    (hroom : 10000 + (B.prop : ℤ) + B.wind + spent ≤ 2147483647) :
    Fair B spent x.1.cfg x.2 (view x.1.cfg x.2) := by
  have hk (k : Settings.Key) : k.lim.1 ≤ x.1.s k ∧ x.1.s k ≤ k.lim.2 := hp.cfg.1 k
  refine
    { period := hk .periodMs, kp := hk .kp, ki := hk .ki, ka := hk .ka, uOutMax := hk .uOutMax
      hyst := ⟨(hk .hyst).1, hw.hyst⟩, bandHi := hk .bandHi, overheat := hk .overheat
      minLevel := hk .minLevel, nightWait := hk .nightWaitMs
      target := ⟨hp.target.1, hp.target.2.1⟩, now := hp.now, age := fun hsnap => ?_
      level := heaterState_level _ _ _, ref := fun hv => ⟨?_, hw.ref hv⟩
      backup := fun hv => ⟨?_, hw.backup hv⟩, out := fun hn => ?_, paid := hs, room := hroom }
  · refine hp.age.resolve_left fun hn => ?_
    simp only [view, hn, heaterState_stale] at hsnap
    exact absurd hsnap (by decide)
  · refine hp.ref.resolve_left fun hn => ?_
    simp [valid, hn] at hv
  · refine hp.backup.resolve_left fun hn => ?_
    simp [valid, hn] at hv
  · obtain ⟨he, hon, hv⟩ := (tOutOf_cases x).resolve_left hn
    have hr := hp.out.resolve_left fun hn => by simp [valid, hn] at hv
    simp only [tOutOf] at he
    rw [he]
    exact ⟨hr, hw.out hon hv, hshare hn⟩

/-- A later step finds the clocks in the past, and the room that its share needs. -/
theorem Sane.advance {tOut tOut' spent' now' : ℤ} (h : Sane B spent tOut now st)
    (hn : now ≤ now') (hs : spent' = spent + if tOut' ≠ thermoNone ∧ tOut = thermoNone then
      (B.share : ℤ) else 0) : Sane B spent' tOut' now' st := by
  have hpast {t : ℤ} (ht : Past now t) : Past now' t := ht.imp id fun h => ⟨h.1, h.2.trans hn⟩
  have hle : spent ≤ spent' ∧ B.taken spent tOut ≤ B.taken spent' tOut' := by
    simp only [Budget.taken]
    by_cases h₁ : tOut = thermoNone <;> by_cases h₂ : tOut' = thermoNone <;>
      simp only [h₁, h₂, ne_eq, not_true_eq_false, not_false_eq_true, and_true, and_false, and_self,
        if_true, if_false] at hs ⊢ <;> omega
  obtain ⟨hc, hm⟩ := h
  refine ⟨⟨⟨?_, hpast hc.ctl.hot, fun hu => ?_, fun hu => ?_⟩, hpast hc.batt, hpast hc.cont,
    hpast hc.last, ?_, ?_, ?_⟩, hm⟩
  · have := hc.ctl.change
    omega
  · have := hc.ctl.bare hu
    omega
  · have := hc.ctl.fed hu
    omega
  · have := hc.wait
    omega
  · have := hc.since
    omega
  · have := hc.first
    omega

theorem init_sane (B : Budget) : Sane B 0 thermoNone 0 init := by
  have hw : (0 : ℤ) ≤ B.wind := (Int.natCast_nonneg B.prop).trans (le_max_left _ _)
  refine ⟨⟨⟨by decide, .inl rfl, fun _ => ?_, fun hn => absurd rfl hn⟩, .inl rfl,
    .inl rfl, .inl rfl, .inl rfl, by decide, by decide⟩, .inl rfl⟩
  simp only [State.clocks, init, Budget.taken, if_true]
  omega

/-- The room that a run needs: a demand of 10000, the largest share of an error, what the error can
wind, and an outside share each time that the outside thermometer came into use. -/
def Budget.room (B : Budget) (xs : List Turn) : ℤ :=
  10000 + B.prop + B.wind + comes xs * B.share

theorem room_mono (B : Budget) (x : Turn) (older : List Turn) :
    B.room older ≤ B.room (x :: older) := by
  have h : comes older * B.share ≤ comes (x :: older) * B.share :=
    Nat.mul_le_mul_right _ (by rw [comes]; omega)
  have : (comes older : ℤ) * B.share ≤ comes (x :: older) * B.share := by exact_mod_cast h
  simp only [Budget.room]
  omega

theorem run_sane {tr : List TurnRec} (hr : Run turn init tr st)
    (hp : ∀ r ∈ tr, Plausible r.inp) (hw : ∀ r ∈ tr, Within B r.inp)
    (hclock : tr.Pairwise fun r r' => r'.inp.2.nowMs ≤ r.inp.2.nowMs)
    (hroom : B.room (tr.map Record.inp) ≤ 2147483647) :
    Sane B (comes (tr.map Record.inp) * B.share) (newest (tr.map Record.inp))
        (clock (tr.map Record.inp)) st ∧
      ∀ r ∈ tr, AllFit (stepVals r.inp.1.cfg r.inp.2 r.pre) := by
  induction hr with
  | nil => exact ⟨by simpa [comes, newest, clock] using init_sane B, by simp⟩
  | @cons tr s s' x o hr hs ih =>
    simp only [List.mem_cons, forall_eq_or_imp, List.map_cons, List.pairwise_cons] at *
    obtain ⟨ihs, ihv⟩ := ih hp.2 hw.2 hclock.2 ((room_mono B x _).trans hroom)
    have hn : clock (tr.map Record.inp) ≤ x.2.nowMs := by
      cases tr with
      | nil => exact hp.1.now.1
      | cons r older => exact hclock.1 r List.mem_cons_self
    have hspent : (comes (x :: tr.map Record.inp) * B.share : ℤ) =
        comes (tr.map Record.inp) * B.share +
          if tOutOf x ≠ thermoNone ∧ newest (tr.map Record.inp) = thermoNone then
            (B.share : ℤ) else 0 := by
      rw [comes]
      split_ifs <;> push_cast <;> ring
    have hshare : tOutOf x ≠ thermoNone →
        (B.share : ℤ) ≤ comes (x :: tr.map Record.inp) * B.share := by
      intro hx
      have h : B.share ≤ comes (x :: tr.map Record.inp) * B.share :=
        Nat.le_mul_of_pos_left _ (comes_pos hx)
      exact_mod_cast h
    have hf := hp.1.fair hw.1 (mul_nonneg (Int.natCast_nonneg _) (Int.natCast_nonneg _))
        hshare hroom
    have hc : (view x.1.cfg x.2).hs = .continuous → (view x.1.cfg x.2).hasSnap := by
      intro hs
      simp only [view] at hs ⊢
      simp [hs]
    obtain ⟨hv, hkeep⟩ := step_fit hf hc (ihs.advance hn hspent) hs
    exact ⟨hkeep, hv, ihv⟩

/-- In a run that leaves room for its shares no value of a step leaves the range of its type, so
that the machine's value is the exact one. -/
theorem run_fits (B : Budget) (tr : List TurnRec) (st : State) (hr : Run turn init tr st)
    (hp : ∀ r ∈ tr, Plausible r.inp)
    (hclock : tr.Pairwise fun r r' => r'.inp.2.nowMs ≤ r.inp.2.nowMs)
    (hw : ∀ r ∈ tr, Within B r.inp) (hroom : B.room (tr.map Record.inp) ≤ 2147483647) :
    ∀ r ∈ tr, ∀ x ∈ stepVals r.inp.1.cfg r.inp.2 r.pre, x.fits ∧ x.stored = x.exact := by
  intro r hr' x hx
  have hv := (run_sane hr hp hw hclock hroom).2 r hr' x hx
  exact ⟨hv, hv.stored_eq⟩

/-- What any plausible step under a configuration needs. -/
def budgetOf (c : RunCfg) : Budget where
  prop := (70 * c.s .kp).toNat
  gain := (rdiv (c.s .ki * 7000 * (3 * c.s .periodMs)) 6000000).toNat
  share := (c.s .uOutMax).toNat

theorem errorWithin_of_reading {c : RunCfg} (hk : ∀ k, cfgOk k (c.s k)) {target t : ℤ}
    (ht : targetOk target) (hr : reading t) : ErrorWithin (budgetOf c) c.cfg (target - t) := by
  have hkp : 0 ≤ c.s .kp := (hk .kp).1
  have hki : 0 ≤ c.s .ki := (hk .ki).1
  have hper : 1 ≤ c.s .periodMs := (hk .periodMs).1
  have he : -7000 ≤ target - t ∧ target - t ≤ 7000 := by
    simp only [reading, targetOk] at *
    omega
  have hmx : mx (target - t) (-(target - t)) ≤ 7000 := by
    simp only [mx]
    split_ifs <;> omega
  have hmx₀ : 0 ≤ mx (target - t) (-(target - t)) := by
    simp only [mx]
    split_ifs <;> omega
  constructor
  · have hp := mul_abs_le hkp le_rfl he.1 he.2
    have hb := rdiv_abs_le hp.1 hp.2 (b := 100) (by omega)
    have h70 := (rdiv_of_nonneg (a := c.s .kp * 7000) (b := 100) (by omega) (by omega)).1
    simp only [budgetOf, RunCfg.cfg] at *
    omega
  · have hle : c.s .ki * mx (target - t) (-(target - t)) * (3 * c.s .periodMs) ≤
        c.s .ki * 7000 * (3 * c.s .periodMs) :=
      mul_le_mul_of_nonneg_right (mul_le_mul_of_nonneg_left hmx hki) (by omega)
    have hmono := rdiv_mono (mul_nonneg (mul_nonneg hki hmx₀) (by omega)) hle (b := 6000000)
      (by omega)
    simp only [budgetOf, RunCfg.cfg] at *
    omega

theorem Plausible.within (hp : Plausible x) (hy : x.1.cfg.hyst ≤ 2147483147) :
    Within (budgetOf x.1) x := by
  have hk := hp.cfg.1
  refine ⟨hy, fun hv => ?_, fun hv => ?_, fun _ hv => ?_⟩
  · exact errorWithin_of_reading hk hp.target
      (hp.ref.resolve_left fun hn => by simp [valid, hn] at hv)
  · exact errorWithin_of_reading hk hp.target
      (hp.backup.resolve_left fun hn => by simp [valid, hn] at hv)
  · have hu : 0 ≤ x.1.s .uOutMax := (hk .uOutMax).1
    have hn : x.2.out.value ≠ thermoNone := fun hn => by simp [valid, hn] at hv
    simp only [outShare, if_neg hn, mn, budgetOf, RunCfg.cfg]
    split_ifs <;> omega

/-- The reference is cold, the heater off, and the owner asks for AUTO. -/
def coldInput : Input where
  nowMs := 0
  enabled := true
  request := some .auto
  target := 2000
  runtimeMin := 120
  ref := ⟨true, "cabin", 1500, 0⟩
  backup := ⟨false, "", thermoNone, thermoNoneMs⟩
  out := ⟨false, "", thermoNone, thermoNoneMs⟩
  outsideOn := false
  heater := some ⟨1, 0, thermoNone, thermoNone, thermoNone, thermoNone, thermoNone⟩
  heaterAgeMs := 0
  linkReady := true
  campingOn := true
  shoreOn := false
  ignitionOn := 0
  batt2Dv := 128
  cmdWhat := none
  cmdResult := none
  night := false
  knownCampingOn := 1
  knownShoreOn := 0
  knownIgnitionOn := 0

def heatingInput : Input :=
  { coldInput with
    nowMs := 10000
    request := none
    heater := some ⟨1, 8, thermoNone, thermoNone, thermoNone, 1, thermoNone⟩
    cmdWhat := some .power
    cmdResult := some .ok }

/-- Five minutes later the cabin is warm. -/
def cozyInput : Input :=
  { heatingInput with
    nowMs := 310000
    ref := ⟨true, "cabin", 2000, 0⟩
    cmdWhat := none
    cmdResult := none }

/-- The run, the newest input first. -/
def cozyRun : List Input := [cozyInput, heatingInput, coldInput]

theorem plausible_cozy {c : RunCfg} (hc : c.valid) {x : Turn} (hx : x ∈ cozyRun.map (c, ·)) :
    Plausible x ∧ x.1 = c := by
  have h : ∀ i ∈ cozyRun, targetOk i.target ∧ reading i.ref.value ∧ i.backup.value = thermoNone ∧
      i.out.value = thermoNone ∧ (0 ≤ i.nowMs ∧ i.nowMs ≤ 9223372036854775) ∧
      0 ≤ i.heaterAgeMs ∧ i.heaterAgeMs ≤ i.nowMs := by decide
  obtain ⟨i, hi, rfl⟩ := List.mem_map.1 hx
  obtain ⟨ht, hr, hb, ho, hn, ha⟩ := h i hi
  exact ⟨⟨hc, ht, .inr hr, .inl hb, .inl ho, hn, .inr ha⟩, rfl⟩

theorem cozy_clock {tr : List TurnRec} {c : RunCfg} (hi : tr.map Record.inp = cozyRun.map (c, ·)) :
    tr.Pairwise fun r r' => r'.inp.2.nowMs ≤ r.inp.2.nowMs := by
  have h : cozyRun.Pairwise fun i i' => i'.nowMs ≤ i.nowMs := by decide
  refine List.pairwise_map (f := Record.inp)
    (R := fun x x' : Turn => x'.2.nowMs ≤ x.2.nowMs) |>.1 ?_
  rw [hi, List.pairwise_map]
  exact h

theorem run_fits_defaults :
    ∃ tr st, Run turn init tr st ∧ tr.map Record.inp = cozyRun.map (RunCfg.default, ·) ∧
      ∀ r ∈ tr, ∀ x ∈ stepVals r.inp.1.cfg r.inp.2 r.pre, x.fits ∧ x.stored = x.exact := by
  obtain ⟨hr, hi⟩ := run_of_exec turn init (cozyRun.map (RunCfg.default, ·)) rfl
  refine ⟨_, _, hr, hi, ?_⟩
  refine run_fits (budgetOf .default) _ _ hr (fun r hr' => ?_) (cozy_clock hi) (fun r hr' => ?_) ?_
  · exact (plausible_cozy (by decide) (hi ▸ List.mem_map_of_mem hr')).1
  · obtain ⟨hp, hc⟩ := plausible_cozy (by decide) (hi ▸ List.mem_map_of_mem hr')
    exact hc ▸ hp.within (hc ▸ by decide)
  · rw [hi]
    decide

/-- The largest hysteresis that the table admits. -/
def wideCfg : RunCfg :=
  { RunCfg.default with s := fun k => if k = .hyst then 2147483647 else Settings.defaults k }

/-- Half a level and the hysteresis are added as 32-bit integers. -/
theorem hyst_overflows :
    wideCfg.valid ∧ ∃ tr st, Run turn init tr st ∧ (∀ r ∈ tr, Plausible r.inp) ∧
      (tr.Pairwise fun r r' => r'.inp.2.nowMs ≤ r.inp.2.nowMs) ∧
      ∃ r ∈ tr, ∃ x ∈ stepVals r.inp.1.cfg r.inp.2 r.pre, ¬ x.fits ∧ x.stored ≠ x.exact := by
  obtain ⟨hr, hi⟩ := run_of_exec turn init
    (cozyRun.map (wideCfg, ·)) rfl
  refine ⟨by decide, _, _, hr, fun r hr' => ?_, cozy_clock hi, _, List.mem_cons_self,
    i32 (500 + 2147483647), ?_, by decide, by decide⟩
  · exact (plausible_cozy (by decide) (hi ▸ List.mem_map_of_mem hr')).1
  · decide

end OpenCalifornia.Thermostat.Firmware
