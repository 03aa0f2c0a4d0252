import OpenCalifornia.BleExp.Steps

/-! # What the experiment and the policy do along a run

The records of a run stand newest first. -/

namespace OpenCalifornia.BleExp
open Lib Lib.Bits Lib.Machine
open Session (Mode)

def step (op : Op) (s : Owner) : Option (List Ev × Owner) := some ((s.apply op).2, (s.apply op).1)

abbrev Rec := Record Op (List Ev) Owner

/-- What the owner did, the newest first. -/
def log (tr : List Rec) : List Ev := tr.flatMap fun r => r.out.reverse

/-- The uptime that a call reads. -/
def Op.now : Op → Option ℕ
  | .activity now | .unitAdv now _ _ | .idleSet _ _ now _ => some now
  | .tick t => some t.now
  | .start _ _ _ _ | .stop => none

/-- When someone is active: a viewer, the ignition or the thermostat. -/
def Op.viewer : Op → Option ℕ
  | .activity now => some now
  | .tick t => if t.ign ∨ t.held then some t.now else none
  | _ => none

/-- When there is activity for the experiment: the unit's wake counts too. -/
def active (op : Op) (evs : List Ev) : Option ℕ :=
  if .wake ∈ evs then op.now else op.viewer

/-- There was activity at `t`, nothing ended it, and no uptime read since then lies before it. -/
def Since (acts : Rec → Option ℕ) (ends : Rec → Prop) (t : ℕ) : List Rec → Prop
  | [] => False
  | r :: older => acts r = some t ∨
      Since acts ends t older ∧ ¬ ends r ∧ ∀ n, r.inp.now = some n → t ≤ n

/-- Activity since the experiment was started. -/
def ActiveAt (t : ℕ) (tr : List Rec) : Prop :=
  Since (fun r => active r.inp r.out) (fun r => .exp true ∈ r.out) t tr

def ViewedAt (t : ℕ) (tr : List Rec) : Prop := Since (fun r => r.inp.viewer) (fun _ => False) t tr

/-- Activity since the last tick and the start of the experiment. -/
def Noted : List Rec → Prop
  | [] => False
  | r :: older => match r.inp with
    | .tick _ => False
    | op => (active op r.out).isSome ∨ Noted older ∧ .exp true ∉ r.out

/-- The hours of the last start. -/
def hours : List Rec → ℤ × ℤ
  | [] => (0, 0)
  | r :: older => match r.inp with
    | .start _ fromH toH _ => if .exp true ∈ r.out then (fromH, toH) else hours older
    | _ => hours older

/-- The phase that runs. -/
def running (tr : List Rec) : Option Mode := (cycle.after {} (log tr)).running

/-- What the experiment and the policy are for. -/
structure Proper (tr : List Rec) : Prop where
  phases : cycle.Fits {} (log tr)
  window : ∀ newer r older mode why, tr = newer ++ r :: older → .set mode why ∈ r.out →
    mode ≠ .hold → why ≠ .idle → ∃ t, r.inp = .tick t ∧
      inWindow t.hour (hours older).1 (hours older).2 = true ∧
      ∀ t', ActiveAt t' (r :: older) → t' + idleMs ≤ t.now
  idle : ∀ newer r older mode, tr = newer ++ r :: older → .set mode .idle ∈ r.out →
    mode ≠ .hold → ∃ t, r.inp = .tick t ∧ ∀ t', ViewedAt t' (r :: older) → t' + idleMs ≤ t.now
  activity : ∀ newer r older t want, tr = newer ++ r :: older → r.inp = .tick t →
    running older = some want → (t.ign ∨ t.held ∨ Noted older) →
    (∃ durMs cause, .phase want true durMs cause ∈ r.out) ∧
      (t.before.mode ≠ .hold → ∃ why, .set .hold why ∈ r.out)

/-- What the state knows of the run. -/
structure Inv (tr : List Rec) (s : Owner) : Prop where
  fits : ∃ w, cycle.At {} (log tr) w ∧ s.exp.Follows w
  hours : hours tr = (s.exp.fromH, s.exp.toH)
  noted : s.exp.on = true → Noted tr → s.exp.touched = true
  active : s.exp.on = true → ∀ t, ActiveAt t tr → t + idleMs ≤ s.exp.idleUntil
  viewed : s.idle.probeMin ≠ 0 → ∀ t, ViewedAt t tr →
    s.idle.touched = true ∨ t + idleMs ≤ s.idle.idleUntil

variable {s : Owner} {tr : List Rec} {op : Op}

/-- What a call other than a start does to the clocks of the experiment. -/
structure Clocked (op : Op) (evs : List Ev) (x x' : Exp) : Prop where
  hours : x'.fromH = x.fromH ∧ x'.toH = x.toH
  on : x'.on = true → x.on = true
  active : x'.on = true → ∀ t, active op evs = some t → x'.idleUntil = t + idleMs
  idle : x'.idleUntil = x.idleUntil ∨ ∃ n, op.now = some n ∧ x'.idleUntil = n + idleMs
  noted : (∀ t, op ≠ .tick t) → x'.on = true → x.touched = true ∨ (BleExp.active op evs).isSome →
    x'.touched = true

theorem clocked_same {x x' : Exp} {evs : List Ev} (h : x'.fromH = x.fromH ∧ x'.toH = x.toH)
    (hon : x'.on = true → x.on = true) (hidle : x'.idleUntil = x.idleUntil)
    (htouched : x'.touched = x.touched) (hact : x'.on = true → active op evs = none) :
    Clocked op evs x x' := by
  refine ⟨h, hon, fun hx t ht => ?_, Or.inl hidle, fun _ hx hor => ?_⟩
  · rw [hact hx] at ht
    cases ht
  · rw [hact hx] at hor
    rw [htouched]
    exact hor.resolve_right Bool.false_ne_true

theorem clocked_activity {x : Exp} {evs : List Ev} {now : ℕ} (hnow : op.now = some now)
    (hact : active op evs = some now) : Clocked op evs x (x.activity now) := by
  rw [Exp.activity]
  split_ifs with hon
  · refine ⟨⟨rfl, rfl⟩, fun _ => hon, fun _ t ht => ?_, Or.inr ⟨now, hnow, rfl⟩, fun _ _ _ => rfl⟩
    rw [hact] at ht
    rw [Option.some.inj ht]
  · exact ⟨⟨rfl, rfl⟩, id, fun h => absurd h hon, Or.inl rfl, fun _ h => absurd h hon⟩

theorem act_quiet (t : Tick) (o : Out) (phaseAt : ℕ) : .wake ∉ t.act o phaseAt := by
  simp [Tick.act]

theorem stepped_clocks {x x' : Exp} {o : Out} {now : ℕ} {hour : ℤ} {cur : Mode}
    (h : x.Stepped now hour cur x' o) : (x'.fromH = x.fromH ∧ x'.toH = x.toH) ∧
      (x'.idleUntil = x.idleUntil ∨ x'.idleUntil = now + idleMs) := by
  cases h with
  | ended want idleUntil aborted setMode hwant huntil => exact ⟨⟨rfl, rfl⟩, huntil⟩
  | running | waiting | started => exact ⟨⟨rfl, rfl⟩, Or.inl rfl⟩

theorem noted_clocks (hon : s.exp.on = true) (t : Tick) :
    ((s.exp.noted t).fromH = s.exp.fromH ∧ (s.exp.noted t).toH = s.exp.toH) ∧
      ((t.ign ∨ t.held) ∧ (s.exp.noted t).idleUntil = t.now + idleMs ∧
          (s.exp.noted t).touched = true ∨
        ¬ (t.ign ∨ t.held) ∧ s.exp.noted t = s.exp) := by
  rw [Exp.noted, Exp.activity, if_pos hon]
  split_ifs with hact
  · exact ⟨⟨rfl, rfl⟩, Or.inl ⟨hact, rfl, rfl⟩⟩
  · exact ⟨⟨rfl, rfl⟩, Or.inr ⟨hact, rfl⟩⟩

theorem active_tick (hon : s.exp.on = true) {t : Tick} {t' : ℕ}
    (hact : active (.tick t) (s.tick t).2 = some t') : (t.ign ∨ t.held) ∧ t' = t.now := by
  obtain ⟨-, -, -, o, -, -, -, hevs⟩ := tick_on hon t
  rw [active, if_neg (by rw [hevs]; exact act_quiet t o _), Op.viewer] at hact
  split_ifs at hact with hseen
  exact ⟨hseen, (Option.some.inj hact).symm⟩

theorem tick_clocked (s : Owner) (t : Tick) :
    Clocked (.tick t) (s.tick t).2 s.exp (s.tick t).1.exp := by
  cases hon : s.exp.on with
  | false =>
    obtain ⟨io, probe, hexp, -, -⟩ := tick_off hon t
    have hoff : (s.tick t).1.exp.on ≠ true := by
      rw [hexp, hon]
      exact Bool.false_ne_true
    exact ⟨by rw [hexp]; exact ⟨rfl, rfl⟩, fun h => absurd h hoff, fun h => absurd h hoff,
      Or.inl (by rw [hexp]), fun _ h => absurd h hoff⟩
  | true =>
    obtain ⟨adv, advClock, advMs, o, io, hexp, -, hevs⟩ := tick_on hon t
    obtain ⟨hhours, huntil⟩ := stepped_clocks hexp
    obtain ⟨hnhours, hnoted⟩ := noted_clocks hon t
    refine ⟨⟨hhours.1.trans hnhours.1, hhours.2.trans hnhours.2⟩, fun _ => hon, fun _ t' ht' => ?_,
      ?_, fun h => absurd rfl (h t)⟩
    · obtain ⟨hact, rfl⟩ := active_tick hon ht'
      rcases hnoted with ⟨-, hidle, -⟩ | ⟨hno, -⟩
      · exact huntil.elim (fun h => h.trans hidle) id
      · exact absurd hact hno
    · rcases huntil with hsame | hlate
      · rcases hnoted with ⟨-, hidle, -⟩ | ⟨-, heq⟩
        · exact Or.inr ⟨t.now, rfl, hsame.trans hidle⟩
        · refine Or.inl (hsame.trans ?_)
          dsimp only
          rw [heq]
      · exact Or.inr ⟨t.now, rfl, hlate⟩

theorem apply_clocked (s : Owner) (op : Op) (hstart : .exp true ∉ (s.apply op).2) :
    Clocked op (s.apply op).2 s.exp (s.apply op).1.exp := by
  cases op with
  | start phaseMin fromH toH clock =>
    rw [Owner.apply, Owner.start] at hstart ⊢
    split_ifs at hstart ⊢
    · exact clocked_same ⟨rfl, rfl⟩ id rfl rfl fun _ => rfl
    · exact absurd (List.mem_append_right _ (List.mem_singleton_self _)) hstart
  | stop =>
    rw [Owner.apply, Owner.stop]
    split_ifs
    · exact clocked_same ⟨rfl, rfl⟩ (fun h => (by cases h)) rfl rfl fun h => by cases h
    · exact clocked_same ⟨rfl, rfl⟩ id rfl rfl fun _ => rfl
  | activity now => exact clocked_activity rfl rfl
  | unitAdv now mode linkUp =>
    obtain ⟨adv, advClock, advMs, -, ⟨hexp, hevs⟩ | ⟨hexp, hevs⟩⟩ :=
      onUnitAdv_cases s now mode linkUp
    · rw [Owner.apply, hexp, hevs]
      exact clocked_same ⟨rfl, rfl⟩ id rfl rfl fun _ => rfl
    · rw [Owner.apply, hexp, hevs]
      have hcl : Clocked (.unitAdv now mode linkUp) [.wake] { s.exp with adv, advClock, advMs }
          (Exp.activity { s.exp with adv, advClock, advMs } now) := clocked_activity rfl rfl
      exact ⟨hcl.hours, hcl.on, hcl.active, hcl.idle, hcl.noted⟩
  | idleSet min saved now mode =>
    rw [Owner.apply, Owner.idleSet]
    split_ifs
    · exact clocked_same ⟨rfl, rfl⟩ id rfl rfl fun _ => rfl
    · exact clocked_same ⟨rfl, rfl⟩ id rfl rfl fun _ => rfl
    · exact clocked_same ⟨rfl, rfl⟩ id rfl rfl fun _ => rfl
  | tick t => exact tick_clocked s t

theorem init_inv (stored : Option (List Byte)) (up : ℕ) : Inv [] (init stored up) :=
  ⟨⟨{}, .start, rfl, fun _ => rfl, fun h => (by cases h), fun h => (by cases h),
    fun h => (by cases h)⟩, rfl, fun _ h => h.elim, fun _ _ h => h.elim, fun _ _ h => h.elim⟩

/-- The record of a call. -/
def record (op : Op) (s : Owner) : Rec := ⟨op, s, (s.apply op).2, (s.apply op).1⟩

theorem start_of_mem (h : .exp true ∈ (s.apply op).2) :
    ∃ phaseMin fromH toH clock, op = .start phaseMin fromH toH clock ∧
      (s.apply op).1.exp = .start phaseMin fromH toH ∧ (s.apply op).1.idle = s.idle := by
  have hphase : .exp true ∉ s.endRunningPhase := by
    rw [Owner.endRunningPhase]
    split_ifs <;> simp
  cases op with
  | start phaseMin fromH toH clock =>
    refine ⟨phaseMin, fromH, toH, clock, rfl, ?_⟩
    rw [Owner.apply, Owner.start] at h ⊢
    split_ifs at h ⊢
    · cases h
    · exact ⟨rfl, rfl⟩
  | stop =>
    rw [Owner.apply, Owner.stop] at h
    split_ifs at h <;> simp [hphase] at h
  | activity now => cases h
  | unitAdv now mode linkUp =>
    obtain ⟨adv, advClock, advMs, -, ⟨-, hevs⟩ | ⟨-, hevs⟩⟩ := onUnitAdv_cases s now mode linkUp
    · rw [Owner.apply, hevs] at h
      cases h
    · rw [Owner.apply, hevs] at h
      simp at h
  | idleSet min saved now mode =>
    rw [Owner.apply, Owner.idleSet] at h
    split_ifs at h <;> simp at h
  | tick t =>
    rw [Owner.apply] at h
    cases hon : s.exp.on with
    | false =>
      obtain ⟨io, probe, -, -, hevs⟩ := tick_off hon t
      rw [hevs] at h
      cases probe <;> simp at h
    | true =>
      obtain ⟨adv, advClock, advMs, o, io, -, -, hevs⟩ := tick_on hon t
      rw [hevs] at h
      simp [Tick.act] at h

theorem tick_viewed (s : Owner) (t : Tick) {n : ℕ} (hmin : (s.tick t).1.idle.probeMin ≠ 0)
    (h : (t.ign ∨ t.held) ∧ n = t.now ∨
      n ≤ t.now ∧ (s.idle.probeMin ≠ 0 → s.idle.touched = true ∨ n + idleMs ≤ s.idle.idleUntil)) :
    n + idleMs ≤ (s.tick t).1.idle.idleUntil := by
  have hstep : ∃ expOn io, (s.idle.noted t).Stepped t.now expOn (s.tick t).1.idle io := by
    cases hon : s.exp.on with
    | false =>
      obtain ⟨io, -, -, hstep, -⟩ := tick_off hon t
      exact ⟨false, io, hstep⟩
    | true =>
      obtain ⟨-, -, -, -, io, -, hstep, -⟩ := tick_on hon t
      exact ⟨true, io, hstep⟩
  obtain ⟨expOn, io, hstep⟩ := hstep
  rw [hstep.probeMin] at hmin
  rcases hstep.idle hmin with hlate | ⟨htouched, hsame⟩
  · rw [hlate]
    refine Nat.add_le_add_right ?_ idleMs
    rcases h with ⟨-, rfl⟩ | ⟨hle, -⟩
    · exact Nat.le_refl _
    · exact hle
  · rw [Idle.noted] at hmin htouched hsame
    split_ifs at hmin htouched hsame with hact
    · cases htouched
    · rw [hsame]
      rcases h with ⟨hyes, -⟩ | ⟨-, hold⟩
      · exact absurd hyes hact
      · exact (hold hmin).resolve_left (by rw [htouched]; exact Bool.false_ne_true)

theorem Inv.viewed_step (h : Inv tr s) (op : Op) (hmin : (s.apply op).1.idle.probeMin ≠ 0) (t : ℕ)
    (hview : ViewedAt t (record op s :: tr)) :
    (s.apply op).1.idle.touched = true ∨ t + idleMs ≤ (s.apply op).1.idle.idleUntil := by
  have hsame : ∀ s' : Owner, s'.idle = s.idle → s'.idle.probeMin ≠ 0 → op.viewer = none →
      s'.idle.touched = true ∨ t + idleMs ≤ s'.idle.idleUntil := by
    intro s' heq hmin' hnone
    rw [heq] at hmin' ⊢
    rcases hview with hact | ⟨hsince, -⟩
    · exact absurd (hnone.symm.trans hact) (by rintro ⟨⟩)
    · exact h.viewed hmin' t hsince
  cases op with
  | start phaseMin fromH toH clock =>
    refine hsame _ ?_ hmin rfl
    rw [Owner.apply, Owner.start]
    split_ifs <;> rfl
  | stop =>
    refine hsame _ ?_ hmin rfl
    rw [Owner.apply, Owner.stop]
    split_ifs <;> rfl
  | activity now => exact Or.inl rfl
  | unitAdv now mode linkUp =>
    obtain ⟨-, -, -, hidle, -⟩ := onUnitAdv_cases s now mode linkUp
    exact hsame _ hidle hmin rfl
  | idleSet min saved now mode =>
    by_cases hbad : idleMaxMin < min ∨ ¬ saved = true
    · refine hsame _ ?_ hmin rfl
      rw [Owner.apply, Owner.idleSet, if_pos hbad]
    · rw [Owner.apply, Owner.idleSet, if_neg hbad]
      rcases hview with hact | ⟨-, -, hnow⟩
      · cases hact
      · exact Or.inr (Nat.add_le_add_right (hnow now rfl) idleMs)
  | tick t' =>
    refine Or.inr (tick_viewed s t' hmin ?_)
    rcases hview with hact | ⟨hsince, -, hnow⟩
    · refine Or.inl ?_
      simp only [record, Op.viewer] at hact
      split_ifs at hact with hseen
      exact ⟨hseen, (Option.some.inj hact).symm⟩
    · exact Or.inr ⟨hnow t'.now rfl, fun hmin' => h.viewed hmin' t hsince⟩

theorem start_quiet {phaseMin : ℕ} {fromH toH : ℤ} {clock : Bool} (evs : List Ev) :
    active (.start phaseMin fromH toH clock) evs = none := by
  rw [active]
  split_ifs <;> rfl

theorem hours_step (h : Inv tr s) (hstart : .exp true ∉ (s.apply op).2) :
    hours (record op s :: tr) = ((s.apply op).1.exp.fromH, (s.apply op).1.exp.toH) := by
  obtain ⟨hfrom, hto⟩ := (apply_clocked s op hstart).hours
  rw [hfrom, hto, ← h.hours]
  cases op with
  | start => exact if_neg hstart
  | stop | activity | unitAdv | idleSet | tick => rfl

theorem Inv.step (h : Inv tr s) (op : Op) : Inv (record op s :: tr) (s.apply op).1 := by
  obtain ⟨w, hat, hfollows⟩ := h.fits
  obtain ⟨w', hat', hfollows'⟩ := apply_leads s op w hfollows
  have hfits : ∃ w, cycle.At {} (log (record op s :: tr)) w ∧ (s.apply op).1.exp.Follows w :=
    ⟨w', hat.append hat', hfollows'⟩
  by_cases hstart : .exp true ∈ (s.apply op).2
  · obtain ⟨phaseMin, fromH, toH, clock, rfl, hexp, -⟩ := start_of_mem hstart
    refine ⟨hfits, ?_, fun _ hnoted => ?_, fun _ t hact => ?_, h.viewed_step _⟩
    · rw [hexp, BleExp.hours]
      exact if_pos hstart
    · rcases hnoted with hact | ⟨-, hno⟩
      · rw [record, start_quiet] at hact
        cases hact
      · exact absurd hstart hno
    · rcases hact with hact | ⟨-, hno, -⟩
      · exact absurd ((start_quiet _).symm.trans hact) (by rintro ⟨⟩)
      · exact absurd hstart hno
  · have hcl := apply_clocked s op hstart
    refine ⟨hfits, hours_step h hstart, ?_, ?_, h.viewed_step op⟩
    · intro hon hnoted
      have hold := h.noted (hcl.on hon)
      cases op with
      | tick t => exact hnoted.elim
      | start | stop | activity | unitAdv | idleSet =>
        refine hcl.noted (fun _ => (by rintro ⟨⟩)) hon ?_
        rcases hnoted with hact | ⟨hnoted, -⟩
        · exact Or.inr hact
        · exact Or.inl (hold hnoted)
    · rintro hon t (hact | ⟨hsince, -, hnow⟩)
      · exact (hcl.active hon t hact).ge
      · have hle := h.active (hcl.on hon) t hsince
        rcases hcl.idle with hsame | ⟨n, hn, hlate⟩
        · rw [hsame]
          exact hle
        · rw [hlate]
          exact Nat.add_le_add_right (hnow n hn) idleMs

theorem run_inv {stored : Option (List Byte)} {up : ℕ} (h : Run step (init stored up) tr s) :
    Inv tr s := by
  refine h.history (init_inv stored up) fun tr op s out s' _ hinv hstep => ?_
  obtain ⟨rfl, rfl⟩ := Prod.mk.inj (Option.some.inj hstep)
  exact hinv.step op

theorem mem_act {t : Tick} {o : Out} {phaseAt : ℕ} {mode : Mode} {why : Why}
    (h : .set mode why ∈ t.act o phaseAt) : o.setMode = some mode ∧ why ≠ .idle := by
  have hmem : o.setMode = some mode ∧ (if o.aborted = true ∧ t.held = true ∧ ¬ t.ign = true
      then some Why.thermostat else none).getD (if o.aborted = true then .expAbort else .exp) =
        why := by
    simpa [Tick.act] using h
  refine ⟨hmem.1, ?_⟩
  rw [← hmem.2]
  split_ifs <;> decide

theorem tick_of_set {mode : Mode} {why : Why} (h : .set mode why ∈ (s.apply op).2)
    (hmode : mode ≠ .hold) : ∃ t, op = .tick t := by
  have hphase : ∀ ev ∈ s.endRunningPhase, ev ≠ .set mode why := by
    intro ev hev
    rw [Owner.endRunningPhase] at hev
    split_ifs at hev
    · obtain ⟨want, -, rfl⟩ := Option.map_eq_some_iff.mp (Option.mem_toList.mp hev)
      rintro ⟨⟩
    · cases hev
  cases op with
  | start phaseMin fromH toH clock =>
    rw [Owner.apply, Owner.start] at h
    split_ifs at h
    · cases h
    · rcases List.mem_append.mp h with h | h
      · exact absurd rfl (hphase _ h)
      · exact absurd (List.mem_singleton.mp h) (by rintro ⟨⟩)
  | stop =>
    rw [Owner.apply, Owner.stop] at h
    split_ifs at h
    · rcases List.mem_append.mp h with h | h
      · exact absurd rfl (hphase _ h)
      · simp [hmode] at h
    · cases h
  | activity now => cases h
  | unitAdv now mode' linkUp =>
    obtain ⟨-, -, -, -, ⟨-, hevs⟩ | ⟨-, hevs⟩⟩ := onUnitAdv_cases s now mode' linkUp
    all_goals
      rw [Owner.apply, hevs] at h
      simp at h
  | idleSet min saved now mode' =>
    rw [Owner.apply, Owner.idleSet] at h
    split_ifs at h <;> simp [hmode] at h
  | tick t => exact ⟨t, rfl⟩

theorem change_hold {cur mode : Mode} (h : change cur .hold = some mode) : mode = .hold := by
  rw [change] at h
  split_ifs at h
  exact (Option.some.inj h).symm

theorem stepped_sets {x x' : Exp} {o : Out} {now : ℕ} {hour : ℤ} {cur mode : Mode}
    (h : x.Stepped now hour cur x' o) (hset : o.setMode = some mode) (hmode : mode ≠ .hold) :
    inWindow hour x.fromH x.toH = true ∧ x.idleUntil ≤ now := by
  cases h with
  | ended want idleUntil aborted setMode hwant huntil hhold =>
    rcases hhold with rfl | rfl
    · cases hset
    · exact absurd (change_hold hset) hmode
  | running => cases hset
  | waiting => exact absurd (change_hold hset) hmode
  | started phaseEnd hwant hwin hidle => exact ⟨hwin, hidle⟩

theorem stepped_cut {x x' : Exp} {o : Out} {now : ℕ} {hour : ℤ} {cur want : Mode}
    (h : x.Stepped now hour cur x' o) (htouched : x.touched = true) (hwant : x.want = some want) :
    o.doneMode = some want ∧ o.aborted = true ∧ o.setMode = change cur .hold := by
  cases h with
  | ended want' idleUntil aborted setMode hwant' huntil hhold hcut =>
    exact ⟨hwant'.symm.trans hwant, hcut htouched⟩
  | running want' probing probe hwant' hno => cases hno.symm.trans htouched
  | waiting hnone => cases hnone.symm.trans hwant
  | started phaseEnd hnone => cases hnone.symm.trans hwant

/-- The experiment sets quiet or off in its hours only, and long enough after the last activity. -/
theorem Inv.window (h : Inv tr s) {mode : Mode} {why : Why} (hset : .set mode why ∈ (s.apply op).2)
    (hmode : mode ≠ .hold) (hwhy : why ≠ .idle) : ∃ t, op = .tick t ∧
      inWindow t.hour (BleExp.hours tr).1 (BleExp.hours tr).2 = true ∧
      ∀ t', ActiveAt t' (record op s :: tr) → t' + idleMs ≤ t.now := by
  obtain ⟨t, rfl⟩ := tick_of_set hset hmode
  refine ⟨t, rfl, ?_⟩
  rw [Owner.apply] at hset
  cases hon : s.exp.on with
  | false =>
    obtain ⟨io, probe, -, -, hevs⟩ := tick_off hon t
    rw [hevs] at hset
    cases probe <;> simp [hwhy.symm] at hset
  | true =>
    obtain ⟨adv, advClock, advMs, o, io, hexp, -, hevs⟩ := tick_on hon t
    rw [hevs] at hset
    obtain ⟨hnhours, hnoted⟩ := noted_clocks hon t
    obtain ⟨hwin, hidle⟩ := stepped_sets hexp (mem_act hset).1 hmode
    dsimp only at hwin hidle
    rw [hnhours.1, hnhours.2] at hwin
    refine ⟨by rw [h.hours]; exact hwin, fun t' hact => ?_⟩
    rcases hnoted with ⟨-, hlate, -⟩ | ⟨hquiet, heq⟩
    · rw [hlate, idleMs] at hidle
      omega
    · rw [heq] at hidle
      rcases hact with hact | ⟨hsince, -, -⟩
      · exact absurd (active_tick hon hact).1 hquiet
      · exact (h.active hon t' hsince).trans hidle

theorem Inv.ends (h : Inv tr s) {t : Tick} {want : Mode} (hrun : running tr = some want)
    (hact : t.ign ∨ t.held ∨ Noted tr) :
    (∃ durMs cause, .phase want true durMs cause ∈ (s.tick t).2) ∧
      (t.before.mode ≠ .hold → ∃ why, .set .hold why ∈ (s.tick t).2) := by
  obtain ⟨w, hat, hfollows⟩ := h.fits
  rw [running, hat.now] at hrun
  cases hon : s.exp.on with
  | false => cases (hfollows.off hon).symm.trans hrun
  | true =>
    obtain ⟨adv, advClock, advMs, o, -, hexp, -, hevs⟩ := tick_on hon t
    have hwant : s.exp.want = some want := (hfollows.running hon).symm.trans hrun
    have htouched : (s.exp.noted t).touched = true ∧ (s.exp.noted t).want = some want := by
      rw [Exp.noted, Exp.activity, if_pos hon]
      split_ifs with hseen
      · exact ⟨rfl, hwant⟩
      · refine ⟨h.noted hon ?_, hwant⟩
        exact (hact.resolve_left fun hign => hseen (Or.inl hign)).resolve_left
          fun hheld => hseen (Or.inr hheld)
    obtain ⟨hdone, haborted, hset⟩ := stepped_cut hexp htouched.1 htouched.2
    rw [hevs, Tick.act, hdone, haborted, hset]
    refine ⟨⟨_, _, by simp; exact ⟨rfl, rfl⟩⟩, fun hne => ?_⟩
    rw [change, if_pos hne]
    exact ⟨_, by simp; rfl⟩

/-- A tick at eleven at night that finds the session in `mode`. -/
def nightTick (now : ℕ) (mode : Mode) : Op :=
  .tick ⟨now, false, false, false, 23, ⟨mode, false, false, true⟩, ⟨mode, false, false, true⟩⟩

/-- A viewer after the start holds the first phase back, another one cuts the second phase short.
The newest call is first. -/
def viewed : List Op :=
  [nightTick 5000000 .quiet, .activity 4900000, nightTick 4203000 .hold, nightTick 4202500 .hold,
    nightTick 4202000 .hold, nightTick 602000 .hold, nightTick 2000 .hold, .activity 1000,
    .start 60 22 6 true]

end OpenCalifornia.BleExp
