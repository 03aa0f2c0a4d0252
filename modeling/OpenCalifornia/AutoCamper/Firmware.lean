import OpenCalifornia.AutoCamper.Restore

/-! # The satellite's restore

`cali_ac_decide` of `auto_camper.c`. A flag is an `int` that is negative while unknown, and so is
the deadline; the clock is an uptime. Under these readings it is the rule of the daemon, so its
actuations are justified the same way. -/

namespace OpenCalifornia.AutoCamper.Firmware

open OpenCalifornia.Lib.Machine

structure AcCfg where
  minSoc : ℤ
  maxFails : ℤ
  window : ℤ

structure AcIn where
  ign : ℤ
  master : ℤ
  usb : ℤ
  lights : ℤ
  soc : ℤ
  warning : ℤ
  now : ℤ

/-- `cali_ac_state_t`, as `auto_camper_run.c` starts it. -/
structure AcState where
  owe : ℤ := 0
  pre : ℤ := 0
  preUsb : ℤ := 0
  preLights : ℤ := 0
  restoreUntil : ℤ := -1
  fails : ℤ := 0
  prevIgn : ℤ := -1
  prevMaster : ℤ := -1
  prevUsb : ℤ := -1
  prevLights : ℤ := -1
  deriving DecidableEq, Repr

structure AcOut where
  actuate : ℤ := 0
  restored : ℤ := 0
  notice : Option String := none
  deriving DecidableEq, Repr

/-- A C truth value. -/
def bit (b : Bool) : ℤ := if b then 1 else 0

def acArm (ign pign pm : Bool) (st : AcState) : AcState :=
  if ign ∧ ¬ pign ∧ pm ∧ st.owe = 0 then
    { st with
      owe := 1
      pre := 1
      preUsb := bit (0 < st.prevUsb)
      preLights := bit (0 < st.prevLights)
      restoreUntil := -1
      fails := 0 }
  else st

def acCancel (ign pign m pm : Bool) (st : AcState) : AcState :=
  if ¬ ign ∧ ¬ pign ∧ pm ∧ ¬ m then { st with owe := 0, restoreUntil := -1, fails := 0 } else st

def acPark (cfg : AcCfg) (now : ℤ) (ign pign : Bool) (st : AcState) : AcState :=
  if ¬ ign ∧ pign ∧ st.owe ≠ 0 then { st with restoreUntil := now + cfg.window, fails := 0 } else st

/-- The notice with the level in it, where it is known. -/
def stoodDownText (soc : ℤ) : String :=
  if 0 ≤ soc then
    "Auto camper stood down: battery low / warning (SoC " ++ toString soc ++ "%) — not restoring."
  else "Auto camper stood down: battery low / warning — not restoring."

def acRestoring (cfg : AcCfg) (inp : AcIn) (ign m : Bool) (st : AcState) : AcOut × AcState :=
  if st.owe ≠ 0 ∧ 0 ≤ st.restoreUntil ∧ ¬ ign then
    if st.restoreUntil < inp.now then
      ({ notice :=
          "Auto camper gave up: camping did not come back within the window after park." },
        { st with owe := 0, restoreUntil := -1 })
    else if m then
      ({ restored := 1, notice := "Auto camper: camping restored after park." },
        { st with owe := 0, restoreUntil := -1, fails := 0 })
    else if (0 ≤ inp.soc ∧ inp.soc < cfg.minSoc) ∨ inp.warning ≠ 0 then
      ({ notice := stoodDownText inp.soc },
        { st with owe := 0, restoreUntil := -1 })
    else if cfg.maxFails ≤ st.fails then
      ({ notice := "Auto camper gave up: camping would not re-enable after park." },
        { st with owe := 0, restoreUntil := -1 })
    else ({ actuate := 1 }, { st with fails := st.fails + 1 })
  else ({}, st)

def acDecide (cfg : AcCfg) (st : AcState) (inp : AcIn) : AcOut × AcState :=
  if inp.ign < 0 ∨ inp.master < 0 then ({}, st)
  else
    let ign : Bool := 0 < inp.ign
    let pign : Bool := 0 < st.prevIgn
    let m : Bool := 0 < inp.master
    let pm : Bool := 0 < st.prevMaster
    let r := acRestoring cfg inp ign m
      (acPark cfg inp.now ign pign (acCancel ign pign m pm (acArm ign pign pm st)))
    (r.1, { r.2 with
      prevIgn := bit ign
      prevMaster := bit m
      prevUsb := bit (0 < inp.usb)
      prevLights := bit (0 < inp.lights) })

/-- The rule as a machine. -/
def acStep (cfg : AcCfg) (inp : AcIn) (st : AcState) : Option (AcOut × AcState) :=
  some (acDecide cfg st inp)

/-- A flag that is negative while unknown. -/
def flag (v : ℤ) : Option Bool := if v < 0 then none else some (0 < v)

/-- A quantity that is negative while unknown. -/
def quantity (v : ℤ) : Option ℤ := if v < 0 then none else some v

def AcCfg.cfg (c : AcCfg) : Cfg ℤ := ⟨c.minSoc, c.maxFails, c.window⟩

def AcIn.poll (inp : AcIn) : Poll ℤ where
  ignitionOn := flag inp.ign
  masterOn := flag inp.master
  usbOn := flag inp.usb
  lightsOn := flag inp.lights
  soc := quantity inp.soc
  warning := inp.warning ≠ 0
  now := inp.now

def AcState.preDrive (st : AcState) : Option Config :=
  if st.pre = 0 then none else some ⟨true, st.preUsb ≠ 0, st.preLights ≠ 0⟩

def AcState.state (st : AcState) : State ℤ where
  oweRestore := st.owe ≠ 0
  preDrive := st.preDrive
  restoreUntil := quantity st.restoreUntil
  fails := st.fails
  prevIgnition := flag st.prevIgn
  prevMaster := flag st.prevMaster
  prevUsb := flag st.prevUsb
  prevLights := flag st.prevLights

/-- The outputs agree. What an actuation restores is in the state. -/
structure Tells (o : AcOut) (d : Decision) : Prop where
  actuate : decide (o.actuate ≠ 0) = d.actuate
  restored : decide (o.restored ≠ 0) = d.restored
  notice : o.notice = d.notice.map Notice.text

theorem truth_flag (v : ℤ) : truth (flag v) = decide (0 < v) := by
  unfold flag truth
  split_ifs with h
  · exact (decide_eq_false (by omega)).symm
  · rfl

theorem flag_bit (b : Bool) : flag (bit b) = some b := by
  cases b <;> rfl

theorem bit_eq_zero (b : Bool) : decide (bit b = 0) = !b := by
  cases b <;> rfl

theorem init_state : ({} : AcState).state = {} := rfl

/-- The previous readings, as one step of the C code copies them into its locals. -/
structure Locals (st : AcState) (pign pm : Bool) : Prop where
  pign : truth st.state.prevIgnition = pign
  pm : truth st.state.prevMaster = pm

section Parts

variable {st : AcState} {pign pm : Bool}

theorem arm_state (h : Locals st pign pm) (ign : Bool) :
    (acArm ign pign pm st).state = arm ign st.state ∧ Locals (acArm ign pign pm st) pign pm := by
  unfold acArm arm
  rw [h.pign, h.pm]
  by_cases hc : ign = true ∧ ¬ pign = true ∧ pm = true ∧ st.owe = 0
  · rw [if_pos hc, if_pos (by simpa [AcState.state] using hc)]
    refine ⟨?_, h.pign, h.pm⟩
    simp [AcState.state, AcState.preDrive, bit_eq_zero, truth_flag, quantity]
  · rw [if_neg hc, if_neg (by simpa [AcState.state] using hc)]
    exact ⟨rfl, h⟩

theorem cancel_state (h : Locals st pign pm) (ign m : Bool) :
    (acCancel ign pign m pm st).state = cancel ign m st.state ∧
      Locals (acCancel ign pign m pm st) pign pm := by
  unfold acCancel cancel
  rw [h.pign, h.pm]
  split_ifs
  · exact ⟨rfl, h.pign, h.pm⟩
  · exact ⟨rfl, h⟩

theorem quantity_of_nonneg {v : ℤ} (h : 0 ≤ v) : quantity v = some v := if_neg (by omega)

theorem quantity_of_neg {v : ℤ} (h : v < 0) : quantity v = none := if_pos h

theorem park_state (h : Locals st pign pm) {cfg : AcCfg} {now : ℤ} (hw : 0 ≤ now + cfg.window)
    (ign : Bool) :
    (acPark cfg now ign pign st).state = park cfg.cfg ign now st.state ∧
      Locals (acPark cfg now ign pign st) pign pm := by
  unfold acPark park
  rw [h.pign]
  by_cases hc : ¬ ign = true ∧ pign = true ∧ st.owe ≠ 0
  · rw [if_pos hc, if_pos (by simpa [AcState.state] using hc)]
    refine ⟨?_, h.pign, h.pm⟩
    simp [AcState.state, AcState.preDrive, AcCfg.cfg, quantity_of_nonneg hw]
  · rw [if_neg hc, if_neg (by simpa [AcState.state] using hc)]
    exact ⟨rfl, h⟩

theorem low_iff (cfg : AcCfg) (inp : AcIn) :
    ((0 ≤ inp.soc ∧ inp.soc < cfg.minSoc) ∨ inp.warning ≠ 0) ↔
      (inp.poll.soc.any (· < cfg.cfg.minSoc) = true ∨ inp.poll.warning = true) := by
  have hwarn : inp.poll.warning = true ↔ inp.warning ≠ 0 := decide_eq_true_iff
  rw [hwarn]
  apply or_congr_left
  by_cases h : 0 ≤ inp.soc
  · have hs : inp.poll.soc = some inp.soc := quantity_of_nonneg h
    rw [hs, Option.any_some, decide_eq_true_iff]
    exact and_iff_right h
  · have hs : inp.poll.soc = none := quantity_of_neg (Int.not_le.mp h)
    simp [hs, h]

theorem append_regroup (a b t c d : String) :
    (a ++ b) ++ t ++ (c ++ d) = a ++ (b ++ t ++ c) ++ d := by
  simp only [String.append_assoc]

theorem stoodDown_text (soc : ℤ) :
    stoodDownText soc = (Notice.stoodDown (quantity soc)).text := by
  have hsoc : "Auto camper stood down: battery low / warning (SoC " =
      "Auto camper stood down: battery low / warning" ++ " (SoC " := by decide
  have hend : "%) — not restoring." = "%)" ++ " — not restoring." := by decide
  have hnone : "Auto camper stood down: battery low / warning — not restoring." =
      (Notice.stoodDown none).text := by decide
  unfold stoodDownText
  by_cases h : 0 ≤ soc
  · rw [if_pos h, quantity_of_nonneg h]
    exact (congrArg₂ (fun a b => a ++ toString soc ++ b) hsoc hend).trans
      (append_regroup _ _ _ _ _)
  · rw [if_neg h, quantity_of_neg (Int.not_le.mp h)]
    exact hnone

theorem restoring_state (cfg : AcCfg) (inp : AcIn) (ign m : Bool) (st : AcState) :
    (acRestoring cfg inp ign m st).2.state =
        (restoring cfg.cfg ign m inp.poll st.state).2 ∧
      Tells (acRestoring cfg inp ign m st).1 (restoring cfg.cfg ign m inp.poll st.state).1 := by
  have howe : st.state.oweRestore = true ↔ st.owe ≠ 0 := decide_eq_true_iff
  unfold acRestoring restoring
  by_cases hu : 0 ≤ st.restoreUntil
  · have hs : st.state.restoreUntil = some st.restoreUntil := quantity_of_nonneg hu
    rw [hs]
    dsimp only
    by_cases hc : st.owe ≠ 0 ∧ 0 ≤ st.restoreUntil ∧ ¬ ign = true
    · have hd : ¬ (¬ st.state.oweRestore = true ∨ ign = true) := by
        rintro (h | h)
        · exact h (howe.mpr hc.1)
        · exact hc.2.2 h
      rw [if_pos hc, if_neg hd]
      by_cases h₁ : st.restoreUntil < inp.now
      · rw [if_pos h₁, if_pos (show st.restoreUntil < inp.poll.now from h₁)]
        exact ⟨rfl, rfl, rfl, rfl⟩
      rw [if_neg h₁, if_neg (show ¬ st.restoreUntil < inp.poll.now from h₁)]
      by_cases h₂ : m = true
      · rw [if_pos h₂, if_pos h₂]
        exact ⟨rfl, rfl, rfl, rfl⟩
      rw [if_neg h₂, if_neg h₂]
      by_cases h₃ : (0 ≤ inp.soc ∧ inp.soc < cfg.minSoc) ∨ inp.warning ≠ 0
      · rw [if_pos h₃, if_pos ((low_iff cfg inp).mp h₃)]
        exact ⟨rfl, rfl, rfl, congrArg some (stoodDown_text inp.soc)⟩
      rw [if_neg h₃, if_neg (mt (low_iff cfg inp).mpr h₃)]
      by_cases h₄ : cfg.maxFails ≤ st.fails
      · rw [if_pos h₄, if_pos (show st.state.fails ≥ cfg.cfg.maxFails from h₄)]
        exact ⟨rfl, rfl, rfl, rfl⟩
      · rw [if_neg h₄, if_neg (show ¬ st.state.fails ≥ cfg.cfg.maxFails from h₄)]
        refine ⟨?_, rfl, rfl, rfl⟩
        rw [← hs]
        rfl
    · have hd : ¬ st.state.oweRestore = true ∨ ign = true := by
        by_cases h : ign = true
        · exact .inr h
        · exact .inl fun ho => hc ⟨howe.mp ho, hu, h⟩
      rw [if_neg hc, if_pos hd]
      exact ⟨rfl, rfl, rfl, rfl⟩
  · have hs : st.state.restoreUntil = none := quantity_of_neg (Int.not_le.mp hu)
    rw [hs, if_neg fun h => hu h.2.1]
    dsimp only
    exact ⟨rfl, rfl, rfl, rfl⟩

end Parts

theorem flag_of_nonneg {v : ℤ} (h : ¬ v < 0) : flag v = some (decide (0 < v)) := if_neg h

theorem poll_unknown {inp : AcIn} (h : inp.ign < 0 ∨ inp.master < 0) : ¬ inp.poll.known := by
  cases h with
  | inl h => simp [Poll.known, AcIn.poll, flag, h]
  | inr h => simp [Poll.known, AcIn.poll, flag, h]

theorem decide_state (cfg : AcCfg) (st : AcState) {inp : AcIn} (hw : 0 ≤ inp.now + cfg.window) :
    (acDecide cfg st inp).2.state = (restoreDecide cfg.cfg st.state inp.poll).2 ∧
      Tells (acDecide cfg st inp).1 (restoreDecide cfg.cfg st.state inp.poll).1 := by
  unfold acDecide
  by_cases hk : inp.ign < 0 ∨ inp.master < 0
  · rw [if_pos hk, restoreDecide_unknown (poll_unknown hk)]
    exact ⟨rfl, rfl, rfl, rfl⟩
  · rw [if_neg hk]
    obtain ⟨hi, hm⟩ := not_or.mp hk
    rw [restoreDecide_known (flag_of_nonneg hi) (flag_of_nonneg hm)]
    have h₀ : Locals st (decide (0 < st.prevIgn)) (decide (0 < st.prevMaster)) :=
      ⟨truth_flag _, truth_flag _⟩
    obtain ⟨e₁, h₁⟩ := arm_state h₀ (decide (0 < inp.ign))
    obtain ⟨e₂, h₂⟩ := cancel_state h₁ (decide (0 < inp.ign)) (decide (0 < inp.master))
    obtain ⟨e₃, -⟩ := park_state h₂ hw (decide (0 < inp.ign))
    obtain ⟨e₄, t⟩ := restoring_state cfg inp (decide (0 < inp.ign)) (decide (0 < inp.master))
      (acPark cfg inp.now (decide (0 < inp.ign)) (decide (0 < st.prevIgn))
        (acCancel (decide (0 < inp.ign)) (decide (0 < st.prevIgn)) (decide (0 < inp.master))
          (decide (0 < st.prevMaster))
          (acArm (decide (0 < inp.ign)) (decide (0 < st.prevIgn)) (decide (0 < st.prevMaster)) st)))
    rw [e₃, e₂, e₁] at e₄ t
    refine ⟨?_, t⟩
    have hb := congrArg
      (fun s : State ℤ => s.roll (decide (0 < inp.ign)) (decide (0 < inp.master)) inp.poll) e₄
    refine Eq.trans ?_ hb
    simp [AcState.state, State.roll, AcState.preDrive, flag_bit, AcIn.poll, truth_flag]

abbrev AcRec := Record AcIn AcOut AcState

/-- A call of the satellite and the poll of the rule that it is. -/
abbrev Same (r : AcRec) (r' : Rec ℤ) : Prop :=
  Alike (fun (i : AcIn) p => 0 ≤ i.now ∧ p = i.poll) Tells (fun (st : AcState) s => s = st.state)
    r r'

theorem run_same {cfg : AcCfg} (hw : 0 ≤ cfg.window) {tr : List AcRec} {st : AcState}
    (h : Run (acStep cfg) {} tr st) (hnow : ∀ r ∈ tr, 0 ≤ r.inp.now) :
    ∃ tr', Run (step cfg.cfg) {} tr' st.state ∧ List.Forall₂ Same tr tr' := by
  have hi : List.Forall₂ (fun (i : AcIn) p => 0 ≤ i.now ∧ p = i.poll) (tr.map Record.inp)
      (tr.map fun r => r.inp.poll) := by
    rw [List.forall₂_map_left_iff, List.forall₂_map_right_iff, List.forall₂_same]
    exact fun r hr => ⟨hnow r hr, rfl⟩
  have sim : ∃ tr' s', Run (step cfg.cfg) {} tr' s' ∧
      tr'.map Record.inp = (tr.map fun r => r.inp.poll) ∧ List.Forall₂ Same tr tr' ∧
      s' = st.state := by
    refine h.simulate init_state.symm hi ?_
    rintro i _ st _ o st' ⟨hn, rfl⟩ rfl hs
    have he : acDecide cfg st i = (o, st') := Option.some.inj hs
    obtain ⟨hst, ht⟩ := decide_state cfg st (show 0 ≤ i.now + cfg.window by omega)
    rw [he] at hst ht
    exact ⟨_, _, rfl, ht, hst.symm⟩
  obtain ⟨tr', s', hr, -, hall, rfl⟩ := sim
  exact ⟨tr', hr, hall⟩

/-- Every actuation, of the daemon and of the satellite, is justified by what was polled before:
a debt armed by an engine start with camping on, not cancelled by hand, with camping off at every
poll of the park so far, in the window of the last park, with the battery well. -/
theorem restore_justified :
    (∀ {τ : Type} [Add τ] [LT τ] [DecidableLT τ] (cfg : Cfg τ) (newer older : List (Rec τ))
      (e : Rec τ) (s : State τ), Run (step cfg) {} (newer ++ e :: older) s →
      e.out.actuate = true → Justified cfg (known (e :: older)) e) ∧
    (∀ (cfg : AcCfg) (newer older : List AcRec) (e : AcRec) (st : AcState), 0 ≤ cfg.window →
      Run (acStep cfg) {} (newer ++ e :: older) st → (∀ r ∈ e :: older, 0 ≤ r.inp.now) →
      e.out.actuate ≠ 0 →
      ∃ e' older', List.Forall₂ Same (e :: older) (e' :: older') ∧
        Justified cfg.cfg (known (e' :: older')) e' ∧ e'.out.restoreConfig = e.post.preDrive) := by
  refine ⟨fun cfg newer older e s h ha => run_justified newer h ha, ?_⟩
  intro cfg newer older e st hw h hnow ha
  obtain ⟨hrun, hs⟩ := h.split newer
  obtain ⟨tr', hr', hall⟩ := run_same hw (.cons hrun hs) hnow
  cases hall with
  | @cons _ e' _ older' he hall =>
    have ha' : e'.out.actuate = true := he.out.actuate ▸ decide_eq_true ha
    refine ⟨e', older', .cons he hall, run_justified [] hr' ha', ?_⟩
    obtain ⟨-, hstep⟩ := Run.split [] hr'
    rw [restoreConfig_eq (Option.some.inj hstep) ha', he.post]
    rfl

/-- Camping is on, the engine starts, a read fails, and the van is parked without camping: the
newest poll first. -/
def parkedPolls : List AcIn :=
  [⟨0, 0, -1, -1, 80, 0, 90⟩, ⟨-1, -1, -1, -1, -1, 0, 60⟩, ⟨1, 0, 0, 0, 80, 0, 30⟩,
    ⟨0, 1, 1, 0, 80, 0, 0⟩]

theorem restore_justified_parked : ∃ e older st,
    Run (acStep ⟨20, 3, 120⟩) {} (e :: older) st ∧ (e :: older).map Record.inp = parkedPolls ∧
    e.out.actuate = 1 ∧ ∃ e' older', List.Forall₂ Same (e :: older) (e' :: older') ∧
      Justified (AcCfg.cfg ⟨20, 3, 120⟩) (known (e' :: older')) e' ∧
      e'.out.restoreConfig = some ⟨true, true, false⟩ := by
  obtain ⟨hrun, hinp⟩ := run_of_exec (acStep ⟨20, 3, 120⟩) {} parkedPolls rfl
  obtain ⟨e', older', hsame, hjust, hconfig⟩ :=
    restore_justified.2 ⟨20, 3, 120⟩ [] _ _ _ (by decide) hrun (by decide) (by decide)
  exact ⟨_, _, _, hrun, hinp, rfl, e', older', hsame, hjust, hconfig⟩

/-- Both rules with the settings of each call. -/
def acCall (i : AcCfg × AcIn) (st : AcState) : Option (AcOut × AcState) :=
  some (acDecide i.1 st i.2)

def call (i : Cfg ℤ × Poll ℤ) (s : State ℤ) : Option (Decision × State ℤ) :=
  some (restoreDecide i.1 s i.2)

/-- The settings and the poll that a call of the satellite codes. -/
def coded (i : AcCfg × AcIn) : Cfg ℤ × Poll ℤ := (i.1.cfg, i.2.poll)

/-- The two calls take the same action in the same state, and leave the same state. -/
structure Agree (r : Record (AcCfg × AcIn) AcOut AcState)
    (r' : Record (Cfg ℤ × Poll ℤ) Decision (State ℤ)) : Prop where
  inp : r'.inp = coded r.inp
  pre : r'.pre = r.pre.state
  out : Tells r.out r'.out
  config : r'.out.restoreConfig = if r.out.actuate ≠ 0 then r.post.preDrive else none
  post : r'.post = r.post.state

theorem restoring_config {cfg : Cfg ℤ} {ign m : Bool} {p : Poll ℤ} {s : State ℤ}
    (h : (restoring cfg ign m p s).1.actuate = false) :
    (restoring cfg ign m p s).1.restoreConfig = none := by
  unfold restoring at h ⊢
  cases hu : s.restoreUntil with
  | none => rfl
  | some u =>
    simp only [hu] at h ⊢
    split_ifs at h ⊢ <;> rfl

theorem decide_config {cfg : Cfg ℤ} {p : Poll ℤ} {s : State ℤ}
    (h : (restoreDecide cfg s p).1.actuate = false) :
    (restoreDecide cfg s p).1.restoreConfig = none := by
  by_cases hk : p.known
  · obtain ⟨hi, hm⟩ := Bool.and_eq_true_iff.mp hk
    obtain ⟨ign, hi⟩ := Option.isSome_iff_exists.mp hi
    obtain ⟨m, hm⟩ := Option.isSome_iff_exists.mp hm
    rw [restoreDecide_known hi hm] at h ⊢
    exact restoring_config h
  · rw [restoreDecide_unknown hk]

theorem call_agree (i : AcCfg × AcIn) (st : AcState) (hw : 0 ≤ i.2.now + i.1.window) :
    Agree ⟨i, st, (acDecide i.1 st i.2).1, (acDecide i.1 st i.2).2⟩
      ⟨coded i, st.state, (restoreDecide i.1.cfg st.state i.2.poll).1,
        (restoreDecide i.1.cfg st.state i.2.poll).2⟩ := by
  obtain ⟨hstate, htells⟩ := decide_state i.1 st hw
  refine ⟨rfl, rfl, htells, ?_, hstate.symm⟩
  dsimp only
  have hact := htells.actuate
  split_ifs with hc
  · rw [decide_eq_true hc] at hact
    have hconfig : (restoreDecide i.1.cfg st.state i.2.poll).1.restoreConfig =
        (restoreDecide i.1.cfg st.state i.2.poll).2.preDrive := restoreConfig_eq rfl hact.symm
    rw [hconfig, ← hstate]
    rfl
  · rw [decide_eq_false hc] at hact
    exact decide_config hact.symm

/-- For every history of readings and settings the satellite and the daemon decide the same. A
deadline is coded as negative while there is none, so a clock must not put a real one there. -/
theorem runs_agree (st₀ : AcState) (inputs : List (AcCfg × AcIn))
    (hw : ∀ i ∈ inputs, 0 ≤ i.2.now + i.1.window) :
    ∃ tr st tr' s', Run acCall st₀ tr st ∧ Run call st₀.state tr' s' ∧
      tr.map Record.inp = inputs ∧ List.Forall₂ Agree tr tr' ∧ s' = st.state := by
  induction inputs with
  | nil => exact ⟨[], st₀, [], st₀.state, .nil, .nil, rfl, .nil, rfl⟩
  | cons i inputs ih =>
    obtain ⟨tr, st, tr', s', hrun, hrun', hinp, hall, rfl⟩ :=
      ih fun j hj => hw j (List.mem_cons_of_mem i hj)
    have hagree := call_agree i st (hw i List.mem_cons_self)
    exact ⟨_, _, _, _, .cons hrun rfl, .cons hrun' rfl, congrArg (i :: ·) hinp, .cons hagree hall,
      hagree.post⟩

/-- Parked with a debt, camping still off: both restore. -/
theorem runs_agree_parked :
    ∃ tr st tr' s', Run acCall ({ owe := 1, pre := 1, prevIgn := 1, prevMaster := 0 } : AcState)
    tr st ∧
      Run call ({ owe := 1, pre := 1, prevIgn := 1, prevMaster := 0 } : AcState).state tr' s' ∧
      tr.map Record.inp = [(⟨20, 3, 120000⟩, ⟨0, 0, 0, 0, 80, 0, 30000⟩)] ∧
      List.Forall₂ Agree tr tr' ∧ s' = st.state :=
  runs_agree _ _ (by decide)

end OpenCalifornia.AutoCamper.Firmware
