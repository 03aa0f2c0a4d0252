import OpenCalifornia.BleExp.State
import OpenCalifornia.Lib.Machine
import OpenCalifornia.Lib.Monitor

/-! # What one call of the owner does

Each is a step of the log of phases and of the clocks that activity sets. -/

namespace OpenCalifornia.BleExp
open Lib Lib.Bits Lib.Machine
open Session (Mode)

variable {x x' : Exp} {o : Out} {now : ℕ} {hour : ℤ} {cur : Mode} {busy : Bool}

/-- What a step does while the experiment is on. -/
inductive Exp.Stepped (x : Exp) (now : ℕ) (hour : ℤ) (cur : Mode) : Exp → Out → Prop
  | ended (want : Mode) (idleUntil : ℕ) (aborted : Bool) (setMode : Option Mode)
      (hwant : x.want = some want)
      (huntil : idleUntil = x.idleUntil ∨ idleUntil = now + idleMs)
      (hset : setMode = none ∨ setMode = change cur .hold)
      (htouched : x.touched = true → aborted = true ∧ setMode = change cur .hold) :
      Stepped x now hour cur
        { x with touched := false, idleUntil, want := none, probing := false, phase := x.phase + 1 }
        { doneMode := some want, aborted, setMode }
  | running (want : Mode) (probing probe : Bool) (hwant : x.want = some want)
      (htouched : x.touched = false) :
      Stepped x now hour cur { x with touched := false, want := some want, probing } { probe }
  | waiting (hwant : x.want = none) :
      Stepped x now hour cur { x with touched := false, want := none }
        { setMode := change cur .hold }
  | started (phaseEnd : ℕ) (hwant : x.want = none) (hwin : inWindow hour x.fromH x.toH = true)
      (hidle : x.idleUntil ≤ now) :
      Stepped x now hour cur
        { x with touched := false, want := some (order x.phase), phaseEnd }
        { started := some (order x.phase), setMode := change cur (order x.phase) }

theorem Exp.step_stepped (hon : x.on = true) (now : ℕ) (hour : ℤ) (cur : Mode) (busy : Bool) :
    x.Stepped now hour cur (x.step now hour cur busy).1 (x.step now hour cur busy).2 := by
  rw [Exp.step, if_neg (not_not.mpr hon)]
  dsimp only
  cases hwant : x.want with
  | none =>
    dsimp only
    split_ifs with hhold
    · exact .waiting hwant
    · rw [not_or, not_not, Nat.not_lt] at hhold
      exact .started _ hwant hhold.1 hhold.2
  | some want =>
    have hif : ∀ c : Prop, [Decidable c] → (if c then now + idleMs else x.idleUntil) = x.idleUntil ∨
        (if c then now + idleMs else x.idleUntil) = now + idleMs := by
      intro c _
      by_cases hc : c
      · exact Or.inr (if_pos hc)
      · exact Or.inl (if_neg hc)
    dsimp only
    by_cases hcut : x.touched = true ∨ ¬ inWindow hour x.fromH x.toH = true ∨
        cur ≠ want ∧ ¬ x.probing = true
    · rw [if_pos hcut]
      exact .ended want _ true _ hwant (hif _) (Or.inr rfl) fun _ => ⟨rfl, rfl⟩
    · have htouched : x.touched = false := by simpa using fun h => hcut (Or.inl h)
      rw [if_neg hcut]
      by_cases hprobe : ¬ x.probing = true ∧ x.phaseEnd ≤ now
      · rw [if_pos hprobe]
        exact .running want true true hwant htouched
      · rw [if_neg hprobe]
        by_cases hend : x.probing = true ∧ ¬ busy = true
        · rw [if_pos hend]
          refine .ended want _ _ _ hwant (hif _) ?_ fun h => ?_
          · split_ifs
            · exact Or.inr rfl
            · exact Or.inl rfl
          · rw [h] at htouched
            cases htouched
        · rw [if_neg hend]
          exact .running want x.probing false hwant htouched

/-- The experiment as the log shows it: the mode that is next and the phase that runs. -/
structure Cycle where
  on : Bool := false
  next : Mode := .hold
  running : Option Mode := none

def rotate : Mode → Mode
  | .hold => .quiet
  | .quiet => .off
  | .off => .hold

/-- A phase starts in the mode that is next and ends before another one starts; while the experiment
is on it alone sets the session's mode, and otherwise the policy alone. -/
def cycle : Monitor Cycle Ev where
  apply w
    | .exp on => { on }
    | .started mode => { w with running := some mode }
    | .phase mode _ _ _ => { w with next := rotate mode, running := none }
    | .set _ _ | .probe | .wake => w
  allows w
    | .exp _ => w.running = none
    | .started mode => w.on = true ∧ w.running = none ∧ mode = w.next
    | .phase mode _ _ _ => w.running = some mode
    | .set _ why => why = .idle ↔ w.on = false
    | .probe | .wake => True

variable {w : Cycle} {evs evs' : List Ev}

theorem order_succ (i : Fin 3) : order (i + 1) = rotate (order i) := by
  revert i
  decide

/-- The state of the experiment is what the log shows. -/
structure Exp.Follows (x : Exp) (w : Cycle) : Prop where
  on : w.on = x.on
  off : x.on = false → w.running = none
  running : x.on = true → w.running = x.want
  next : x.on = true → w.next = order x.phase
  want : x.on = true → ∀ mode, x.want = some mode → mode = order x.phase

/-- The calls of a step are allowed and lead to what the log shows afterwards. -/
def Leads (x x' : Exp) (evs : List Ev) : Prop :=
  ∀ w, x.Follows w → ∃ w', cycle.At w evs.reverse w' ∧ x'.Follows w'

theorem Leads.comp {x₁ x₂ : Exp} (h : Leads x x₁ evs) (h' : Leads x₁ x₂ evs') :
    Leads x x₂ (evs ++ evs') := by
  intro w hw
  obtain ⟨w₁, hat, hw₁⟩ := h w hw
  obtain ⟨w₂, hat', hw₂⟩ := h' w₁ hw₁
  rw [List.reverse_append]
  exact ⟨w₂, hat.append hat', hw₂⟩

theorem leads_nil (h : ∀ w, x.Follows w → x'.Follows w) : Leads x x' [] :=
  fun w hw => ⟨w, .start, h w hw⟩

theorem leads_one {ev : Ev}
    (h : ∀ w, x.Follows w → cycle.allows w ev ∧ x'.Follows (cycle.apply w ev)) : Leads x x' [ev] :=
  fun w hw => ⟨_, Monitor.At.start.cons (h w hw).1, (h w hw).2⟩

theorem leads_refl (x : Exp) : Leads x x [] := leads_nil fun _ hw => hw

theorem leads_set (mode : Mode) {why : Why} (h : why = .idle ↔ x.on = false) :
    Leads x x [.set mode why] :=
  leads_one fun w hw => ⟨by rw [← hw.on] at h; exact h, hw⟩

theorem leads_sets (mode : Option Mode) {why : Why} (h : why = .idle ↔ x.on = false) :
    Leads x x (mode.map (Ev.set · why)).toList := by
  cases mode with
  | none => exact leads_refl x
  | some mode => exact leads_set mode h

theorem leads_probe (x : Exp) (c : Prop) [Decidable c] :
    Leads x x (if c then [.probe] else []) := by
  split_ifs
  · exact leads_one fun w hw => ⟨trivial, hw⟩
  · exact leads_refl x

theorem leads_ended (hon : x.on = true) {want : Mode} (hwant : x.want = some want) (aborted : Bool)
    (durMs : ℕ) (cause : Option Why)
    (hx' : x'.on = true ∧ x'.want = none ∧ x'.phase = x.phase + 1) :
    Leads x x' [.phase want aborted durMs cause] := by
  refine leads_one fun w hw => ⟨(hw.running hon).trans hwant, ?_⟩
  have hnext : rotate want = order x'.phase := by
    rw [hx'.2.2, order_succ, hw.want hon want hwant]
  refine ⟨hw.on.trans (hon.trans hx'.1.symm), fun hoff => ?_, fun _ => hx'.2.1.symm, fun _ => hnext,
    fun _ mode hmode => ?_⟩
  · rfl
  · rw [hx'.2.1] at hmode
    cases hmode

theorem why_exp (c : Prop) [Decidable c] (aborted : Bool) (hon : x.on = true) :
    (if c then some Why.thermostat else none).getD (if aborted then .expAbort else .exp) = .idle ↔
      x.on = false := by
  rw [hon]
  cases aborted <;> split_ifs <;> simp

theorem act_leads (t : Tick) (phaseAt : ℕ) (hon : x.on = true) (h : x.Stepped now hour cur x' o) :
    Leads x x' (t.act o phaseAt) := by
  rw [Tick.act]
  cases h with
  | ended want idleUntil aborted setMode hwant =>
    have hend : Leads x { x with
        touched := false
        idleUntil
        want := none
        probing := false
        phase := x.phase + 1 } [.phase want aborted (since t.now phaseAt)
          (if aborted = true ∧ t.held = true ∧ ¬ t.ign = true then some Why.thermostat
            else none)] :=
      leads_ended hon hwant aborted _ _ ⟨hon, rfl, rfl⟩
    rw [List.append_assoc, List.append_assoc]
    refine hend.comp ((leads_refl _).comp ((leads_sets _ ?_).comp (leads_probe _ _)))
    exact why_exp _ _ hon
  | running want probing probe hwant =>
    have hkeep : ∀ w, x.Follows w → Exp.Follows
        { x with touched := false, want := some want, probing } w :=
      fun w hw => ⟨hw.on, hw.off, fun _ => (hw.running hon).trans hwant, hw.next,
        fun _ => hwant ▸ hw.want hon⟩
    exact (leads_nil hkeep).comp (leads_probe _ _)
  | waiting hwant =>
    have hkeep : ∀ w, x.Follows w → Exp.Follows { x with touched := false, want := none } w :=
      fun w hw => ⟨hw.on, hw.off, fun _ => (hw.running hon).trans hwant, hw.next,
        fun _ => hwant ▸ hw.want hon⟩
    refine (leads_nil hkeep).comp ((leads_sets _ ?_).comp (leads_probe _ _))
    exact why_exp _ _ hon
  | started phaseEnd hwant =>
    have hstart : Leads x { x with touched := false, want := some (order x.phase), phaseEnd }
        [.started (order x.phase)] := by
      refine leads_one fun w hw => ⟨⟨hw.on.trans hon, (hw.running hon).trans hwant,
        (hw.next hon).symm⟩, hw.on, fun hoff => ?_, fun _ => rfl, hw.next, fun _ mode hmode => ?_⟩
      · rw [hon] at hoff
        cases hoff
      · exact (Option.some.inj hmode).symm
    refine hstart.comp ((leads_sets _ ?_).comp (leads_probe _ _))
    exact why_exp _ _ hon

variable {s : Owner} {t : Tick}

theorem check_eq (x : Exp) (now : ℕ) : ∃ adv advClock advMs turn,
    x.seen now false = ({ x with adv, advClock, advMs }, turn) ∧ turn ≠ .seen := by
  simp only [Exp.seen, Bool.false_eq_true, if_false]
  split_ifs
  all_goals exact ⟨_, _, _, _, rfl, by decide⟩

theorem advTransition_eq (s : Owner) {turn : Adv} (hturn : turn ≠ .seen) (now : ℕ) (mode : Mode)
    (linkUp : Bool) : ∃ advMode advArmed,
    s.advTransition turn now mode linkUp = ({ s with advMode, advArmed }, []) := by
  cases turn with
  | seen => exact absurd rfl hturn
  | gone | unknown =>
    simp only [Owner.advTransition]
    split_ifs
    all_goals exact ⟨_, _, rfl⟩

/-- What the experiment takes as activity at a tick is noted before it steps. -/
def Exp.noted (x : Exp) (t : Tick) : Exp := if t.ign ∨ t.held then x.activity t.now else x

theorem noted_eq (x : Exp) (t : Tick) : ∃ idleUntil touched,
    x.noted t = { x with idleUntil, touched } := by
  rw [Exp.noted, Exp.activity]
  split_ifs
  all_goals exact ⟨_, _, rfl⟩

theorem noted_on (x : Exp) (t : Tick) : (x.noted t).on = x.on := by
  obtain ⟨_, _, hnoted⟩ := noted_eq x t
  rw [hnoted]

theorem expTick_eq (hon : s.exp.on = true) (t : Tick) :
    ∃ adv advClock advMs o,
      Exp.Stepped { s.exp.noted t with adv, advClock, advMs } t.now t.hour t.before.mode
        (s.expTick t).1.exp o ∧
      (s.expTick t).1.idle = s.idle ∧ (s.expTick t).2 = t.act o s.phaseAt := by
  obtain ⟨adv, advClock, advMs, turn, hseen, hturn⟩ := check_eq (s.exp.noted t) t.now
  obtain ⟨advMode, advArmed, hadv⟩ := advTransition_eq
    { s with exp := { s.exp.noted t with adv, advClock, advMs } } hturn t.now t.before.mode t.linkUp
  have hstep := Exp.step_stepped (x := { s.exp.noted t with adv, advClock, advMs })
    ((noted_on s.exp t).trans hon) t.now t.hour t.before.mode t.before.probing
  have htick : s.expTick t = (
      let r := Exp.step { s.exp.noted t with adv, advClock, advMs } t.now t.hour t.before.mode
        t.before.probing
      ({ s with
        exp := r.1
        phaseAt := if r.2.started.isSome then t.now else s.phaseAt
        advMode
        advArmed }, [] ++ t.act r.2 s.phaseAt)) := by
    rw [Owner.expTick]
    dsimp only
    rw [← Exp.noted, hseen]
    dsimp only
    rw [hadv]
  rw [htick]
  exact ⟨adv, advClock, advMs, _, hstep, rfl, rfl⟩

/-- What a step of the policy does. -/
structure Idle.Stepped (x : Idle) (now : ℕ) (expOn : Bool) (x' : Idle) (o : IdleOut) : Prop where
  on : expOn = true → o.setMode = none ∧ o.probe = false
  off : ∀ mode, o.setMode = some mode → mode ≠ .hold →
    x.probeMin ≠ 0 ∧ x.touched = false ∧ x.idleUntil ≤ now
  probeMin : x'.probeMin = x.probeMin
  idle : x.probeMin ≠ 0 → x'.idleUntil = now + idleMs ∨ x.touched = false ∧
    x'.idleUntil = x.idleUntil

theorem Idle.step_stepped (x : Idle) (now : ℕ) (cur : Mode) (busy expOn : Bool) :
    x.Stepped now expOn (x.step now cur busy expOn).1 (x.step now cur busy expOn).2 := by
  by_cases hmin : x.probeMin = 0
  · simp only [Idle.step, hmin, if_true]
    exact ⟨fun _ => ⟨rfl, rfl⟩, fun _ h => (by cases h), hmin.symm, fun h => absurd hmin h⟩
  · have hidle : ∀ c : Prop, [Decidable c] → ∃ idleUntil,
        (if expOn = true ∨ x.touched = true ∨ c then
          { x with touched := false, idleUntil := now + idleMs }
          else { x with touched := false }) = { x with touched := false, idleUntil } ∧
        (idleUntil = now + idleMs ∨ x.touched = false ∧ idleUntil = x.idleUntil) := by
      intro c _
      split_ifs with hc
      · exact ⟨_, rfl, Or.inl rfl⟩
      · exact ⟨_, rfl, Or.inr ⟨by simpa using fun h => hc (Or.inr (Or.inl h)), rfl⟩⟩
    obtain ⟨idleUntil, heq, huntil⟩ := hidle
        (Idle.outside { x with touched := false } cur busy = true)
    rw [Idle.step]
    dsimp only
    rw [if_neg hmin, heq]
    cases expOn with
    | true => exact ⟨fun _ => ⟨rfl, rfl⟩, fun _ h => (by cases h), rfl, fun _ => huntil⟩
    | false =>
      dsimp only
      rw [if_neg Bool.false_ne_true]
      by_cases hnow : now < idleUntil
      · simp only [if_pos hnow, reduceCtorEq, false_and, if_false]
        split_ifs
        · exact ⟨fun h => (by cases h), fun _ h => (by cases h), rfl, fun _ => huntil⟩
        · exact ⟨fun h => (by cases h), fun _ h hne => absurd (Option.some.inj h).symm hne, rfl,
            fun _ => huntil⟩
        · exact ⟨fun h => (by cases h), fun _ h => (by cases h), rfl, fun _ => huntil⟩
      · have hoff : x.touched = false ∧ x.idleUntil ≤ now := by
          rcases huntil with hlate | ⟨htouched, hsame⟩
          · rw [hlate, idleMs] at hnow
            omega
          · exact ⟨htouched, by omega⟩
        rw [if_neg hnow]
        split_ifs
        all_goals exact ⟨fun h => (by cases h), fun _ _ _ => ⟨hmin, hoff⟩, rfl, fun _ => huntil⟩

theorem Exp.Stepped.on (h : x.Stepped now hour cur x' o) : x'.on = x.on := by
  cases h <;> rfl

def Idle.noted (x : Idle) (t : Tick) : Idle := if t.ign ∨ t.held then x.activity else x

theorem tick_eq (s : Owner) (t : Tick) : s.tick t =
    let s := { s with tickAt := t.now, idle := s.idle.noted t }
    let r := if s.exp.on then s.expTick t else (s, [])
    let i := r.1.idle.step t.now t.after.mode t.after.probing r.1.exp.on
    ({ r.1 with idle := i.1 }, r.2 ++ (i.2.setMode.map (Ev.set · .idle)).toList ++
      if i.2.probe ∧ t.after.active ∧ ¬ t.after.rest then [.probe] else []) := rfl

theorem tick_on (hon : s.exp.on = true) (t : Tick) :
    ∃ adv advClock advMs o io,
      Exp.Stepped { s.exp.noted t with adv, advClock, advMs } t.now t.hour t.before.mode
        (s.tick t).1.exp o ∧
      (s.idle.noted t).Stepped t.now true (s.tick t).1.idle io ∧
      (s.tick t).2 = t.act o s.phaseAt := by
  obtain ⟨adv, advClock, advMs, o, hexp, hidle, hevs⟩ :=
    expTick_eq (s := { s with tickAt := t.now, idle := s.idle.noted t }) hon t
  have hon' := hexp.on.trans ((noted_on _ t).trans hon)
  have hstep := Idle.step_stepped (s.idle.noted t) t.now t.after.mode t.after.probing true
  refine ⟨adv, advClock, advMs, o,
    ((s.idle.noted t).step t.now t.after.mode t.after.probing true).2, ?_⟩
  rw [tick_eq]
  dsimp only
  rw [if_pos hon, hidle, hevs, hon', (hstep.on rfl).1, (hstep.on rfl).2]
  refine ⟨hexp, hstep, ?_⟩
  rw [if_neg fun h => Bool.false_ne_true h.1, Option.map_none, Option.toList_none, List.append_nil,
    List.append_nil]

theorem tick_off (hoff : s.exp.on = false) (t : Tick) :
    ∃ (io : IdleOut) (probe : Bool), (s.tick t).1.exp = s.exp ∧
      (s.idle.noted t).Stepped t.now false (s.tick t).1.idle io ∧
      (s.tick t).2 = (io.setMode.map (Ev.set · .idle)).toList ++ if probe then [.probe]
      else [] := by
  have hstep := Idle.step_stepped (s.idle.noted t) t.now t.after.mode t.after.probing false
  let io := ((s.idle.noted t).step t.now t.after.mode t.after.probing false).2
  refine ⟨io, io.probe ∧ t.after.active ∧ ¬ t.after.rest, ?_⟩
  rw [tick_eq]
  dsimp only
  rw [if_neg (by rw [hoff]; exact Bool.false_ne_true)]
  dsimp only
  rw [hoff]
  refine ⟨rfl, hstep, ?_⟩
  rw [List.nil_append]
  congr 1
  simp only [decide_eq_true_eq, io]

theorem exp_leads (x : Exp) (t : Tick) (adv : Adv) (advClock : Bool) (advMs : ℕ) :
    Leads x { x.noted t with adv, advClock, advMs } [] := by
  obtain ⟨_, _, hnoted⟩ := noted_eq x t
  rw [hnoted]
  exact leads_nil fun w hw => ⟨hw.on, hw.off, hw.running, hw.next, hw.want⟩

theorem tick_leads (s : Owner) (t : Tick) : Leads s.exp (s.tick t).1.exp (s.tick t).2 := by
  cases hon : s.exp.on with
  | true =>
    obtain ⟨adv, advClock, advMs, o, io, hexp, -, hevs⟩ := tick_on hon t
    rw [hevs]
    exact (exp_leads s.exp t adv advClock advMs).comp
      (act_leads t _ ((noted_on _ t).trans hon) hexp)
  | false =>
    obtain ⟨io, probe, hexp, -, hevs⟩ := tick_off hon t
    rw [hevs, hexp]
    exact (leads_sets _ ⟨fun _ => hon, fun _ => rfl⟩).comp (leads_probe _ _)

theorem endRunningPhase_ends (h : s.exp.Follows w) :
    ∃ w', cycle.At w s.endRunningPhase.reverse w' ∧ w'.on = s.exp.on ∧ w'.running = none := by
  rw [Owner.endRunningPhase]
  cases hon : s.exp.on with
  | false =>
    rw [if_neg Bool.false_ne_true]
    exact ⟨w, .start, h.on.trans hon, h.off hon⟩
  | true =>
    rw [if_pos rfl]
    cases hwant : s.exp.want with
    | none => exact ⟨w, .start, h.on.trans hon, (h.running hon).trans hwant⟩
    | some want =>
      exact ⟨_, Monitor.At.start.cons ((h.running hon).trans hwant), h.on.trans hon, rfl⟩

theorem start_leads (s : Owner) (phaseMin : ℕ) (fromH toH : ℤ) (clock : Bool) :
    Leads s.exp (s.start phaseMin fromH toH clock).1.exp (s.start phaseMin fromH toH clock).2 := by
  rw [Owner.start]
  split_ifs
  · exact leads_refl _
  · intro w hw
    obtain ⟨w', hat, -, hrunning⟩ := endRunningPhase_ends hw
    rw [List.reverse_append]
    refine ⟨_, hat.append (Monitor.At.start.cons hrunning), rfl, fun hoff => (by cases hoff),
      fun _ => rfl, fun _ => rfl, fun _ mode hmode => (by cases hmode)⟩

theorem stop_leads (s : Owner) : Leads s.exp s.stop.1.exp s.stop.2 := by
  rw [Owner.stop]
  split_ifs with hon
  · intro w hw
    obtain ⟨w', hat, hw', hrunning⟩ := endRunningPhase_ends hw
    have hset : cycle.allows w' (.set .hold .expOff) := by
      refine ⟨fun h => (by cases h), fun h => ?_⟩
      rw [hw', hon] at h
      cases h
    rw [List.reverse_append]
    exact ⟨_, hat.append ((Monitor.At.start.cons hset).cons hrunning), rfl, fun _ => rfl,
      fun hon => (by cases hon), fun hon => (by cases hon), fun hon => (by cases hon)⟩
  · exact leads_refl _

theorem activity_follows (h : x.Follows w) (now : ℕ) : (x.activity now).Follows w := by
  rw [Exp.activity]
  split_ifs
  · exact ⟨h.on, h.off, h.running, h.next, h.want⟩
  · exact h

theorem seen_eq (x : Exp) (now : ℕ) : ∃ adv advClock advMs turn,
    x.seen now true = ({ x with adv, advClock, advMs }, turn) := by
  simp only [Exp.seen, if_true]
  split_ifs
  all_goals exact ⟨_, _, _, _, rfl⟩

theorem onUnitAdv_cases (s : Owner) (now : ℕ) (mode : Mode) (linkUp : Bool) :
    ∃ adv advClock advMs, (s.onUnitAdv now mode linkUp).1.idle = s.idle ∧
      ((s.onUnitAdv now mode linkUp).1.exp = { s.exp with adv, advClock, advMs } ∧
          (s.onUnitAdv now mode linkUp).2 = [] ∨
        (s.onUnitAdv now mode linkUp).1.exp =
            Exp.activity { s.exp with adv, advClock, advMs } now ∧
          (s.onUnitAdv now mode linkUp).2 = [.wake]) := by
  obtain ⟨adv, advClock, advMs, turn, hseen⟩ := seen_eq s.exp now
  refine ⟨adv, advClock, advMs, ?_⟩
  rw [Owner.onUnitAdv, hseen]
  dsimp only
  cases turn with
  | seen =>
    simp only [Owner.advTransition]
    split_ifs
    · exact ⟨rfl, Or.inr ⟨rfl, rfl⟩⟩
    · exact ⟨rfl, Or.inl ⟨rfl, rfl⟩⟩
    · exact ⟨rfl, Or.inr ⟨rfl, rfl⟩⟩
    · exact ⟨rfl, Or.inl ⟨rfl, rfl⟩⟩
  | gone =>
    obtain ⟨advMode, advArmed, hadv⟩ := advTransition_eq
      { s with exp := { s.exp with adv, advClock, advMs } }
        (show Adv.gone ≠ .seen by decide) now mode
      linkUp
    rw [hadv]
    exact ⟨rfl, Or.inl ⟨rfl, rfl⟩⟩
  | unknown =>
    obtain ⟨advMode, advArmed, hadv⟩ := advTransition_eq
      { s with exp := { s.exp with adv, advClock, advMs } } (show Adv.unknown ≠ .seen by decide) now
      mode linkUp
    rw [hadv]
    exact ⟨rfl, Or.inl ⟨rfl, rfl⟩⟩

theorem apply_leads (s : Owner) (op : Op) : Leads s.exp (s.apply op).1.exp (s.apply op).2 := by
  cases op with
  | start phaseMin fromH toH clock => exact start_leads s phaseMin fromH toH clock
  | stop => exact stop_leads s
  | activity now => exact leads_nil fun w hw => activity_follows hw now
  | unitAdv now mode linkUp =>
    obtain ⟨adv, advClock, advMs, -, ⟨hexp, hevs⟩ | ⟨hexp, hevs⟩⟩ :=
      onUnitAdv_cases s now mode linkUp
    · rw [Owner.apply, hexp, hevs]
      exact leads_nil fun w hw => ⟨hw.on, hw.off, hw.running, hw.next, hw.want⟩
    · rw [Owner.apply, hexp, hevs]
      refine leads_one fun w hw => ⟨trivial, activity_follows ?_ now⟩
      exact ⟨hw.on, hw.off, hw.running, hw.next, hw.want⟩
  | idleSet min saved now mode =>
    rw [Owner.apply, Owner.idleSet]
    split_ifs with hbad hback
    · exact leads_refl _
    · have hoff : s.exp.on = false := by simpa using hback.2.1
      exact leads_set .hold ⟨fun _ => hoff, fun _ => rfl⟩
    · exact leads_refl _
  | tick t => exact tick_leads s t

end OpenCalifornia.BleExp
