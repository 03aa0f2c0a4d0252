import OpenCalifornia.Thermostat.Pending

/-! # The session invariant

One spec theorem for each rule: on a `Core` state it raises nothing, keeps `Core`, and sends
no `power on` of its own. The only start is the one `enter` sends. The state that `out`
returns is then `WellFormed`, and no run of `step` raises. -/

namespace OpenCalifornia.Thermostat
open Lib (Flow)
open Lib.Machine (Run Record Reachable)

variable {cfg : Cfg} {inp : Input} {v : View} {st : State} {w : Work}

/-- The session state between two steps. -/
structure WellFormed (st : State) : Prop where
  on_expect : st.mode.on → st.expect.isSome ∧ st.lastCtlMs.isSome
  on_pending : st.mode.on → ∀ p ∈ st.pending, p.isStart ∨ p.what = .level
  on_level : st.mode.on → ∀ p ∈ st.pending, p.what = .level →
    ∃ e ∈ st.expect, p.value = .ofLevel e.level
  waiting : st.mode = .waiting → st.expect.isSome ∧ st.waitUntilMs.isSome ∧
    ∀ p ∈ st.pending, p.what = .level
  not_waiting : st.mode ≠ .waiting → st.waitUntilMs = none ∧ st.contSinceMs = none
  stopping : st.mode = .stopping →
    st.pending = none ∧ ∃ s ∈ st.stopSnapshot, s.normal ∨ s.permanent
  off_pending : st.mode = .off →
    ∀ p ∈ st.pending, p.value = .off ∧ p.why.isSome ∧ st.expect.isSome
  off_night : st.mode = .off → st.night = false

theorem WellFormed.core (h : WellFormed st) : Core st := by
  have hon : st.mode.on → Regulated st := by
    intro hm
    obtain ⟨he, hl⟩ := h.on_expect hm
    obtain ⟨e, he⟩ := Option.isSome_iff_exists.mp he
    refine ⟨e, he, hl, fun p hp => ?_⟩
    rcases h.on_pending hm p hp with hs | hw
    · exact Or.inl hs
    · obtain ⟨e', he', hv⟩ := h.on_level hm p hp hw
      obtain rfl : e = e' := Option.some.inj (he.symm.trans he')
      exact Or.inr ⟨hw, hv⟩
  rcases hm : st.mode with _ | _ | _ | _ | _ <;> simp only [Core, hm]
  · exact h.off_pending hm
  · exact hon (by simp [hm, Mode.on])
  · exact hon (by simp [hm, Mode.on])
  · obtain ⟨hp, s, hs, hh⟩ := h.stopping hm
    exact ⟨hp, s, hs, by simpa [Snap.heating] using hh⟩
  · exact h.waiting hm

theorem Core.settle (h : Core st) : WellFormed st.settle := by
  have hon : st.mode.on → Regulated st := h.regulated
  have hl (hm : st.mode.on) (p) (hp : p ∈ st.pending) (hw : p.what = .level) :
      ∃ e ∈ st.expect, p.value = .ofLevel e.level := by
    obtain ⟨e, he, _, hq⟩ := hon hm
    refine ⟨e, he, (hq p hp).elim (fun hs => ?_) And.right⟩
    rw [(Pending.isStart_iff.mp hs).1] at hw
    cases hw
  constructor
  · intro hm
    obtain ⟨e, he, hc, _⟩ := hon hm
    exact ⟨by simp [State.settle, he], hc⟩
  · intro hm p hp
    obtain ⟨e, _, _, hq⟩ := hon hm
    exact (hq p hp).imp_right And.left
  · exact hl
  · intro hm
    simp only [State.settle] at hm ⊢
    simpa [Core, hm] using h
  · intro hm
    simp only [State.settle] at hm ⊢
    simp [hm]
  · intro hm
    simp only [State.settle] at hm ⊢
    simpa [Core, hm, Snap.heating] using h
  · intro hm
    simp only [State.settle] at hm ⊢
    simpa only [Core, hm] using h
  · intro hm
    simp only [State.settle] at hm ⊢
    simp [hm]

/-- No `power on` is sent, and none is left pending. -/
def Quiet (st : State) (cmds : List Cmd) : Prop :=
  .powerOn ∉ cmds ∧ ∀ p ∈ st.pending, p.isStart = false

/-- The rules after (1) send the commands they were given, or none without a fresh reading, or
nothing that starts. -/
def Follows (v : View) (w : Work) (x : Exit) : Prop :=
  ((x.cmds = w.cmds ∨ v.snap = none ∧ x.cmds = []) ∧ x.st.pending = w.st.pending) ∨
    Quiet x.st x.cmds

theorem State.finish_core (st : State) : Core st.finish := by
  simp [Core, State.finish]

@[simp] theorem State.finish_mode (st : State) : st.finish.mode = .off := rfl

@[simp] theorem State.finish_pending (st : State) : st.finish.pending = none := rfl

@[simp] theorem quiet_finish : Quiet st.finish [] := by simp [Quiet]

theorem dropPending_pending (p : Pending) : (dropPending p st).pending = none := by
  simp only [dropPending]
  split_ifs <;> rfl

theorem dropPending_core {p : Pending} (h : Core st) (hp : st.pending = some p)
    (hm : st.mode ≠ .waiting) : Core (dropPending p st) := by
  simp only [dropPending]
  split_ifs with hv
  · rcases h.off_of_pending hp hm with ⟨ho, _⟩ | ⟨_, hs | ⟨_, hn⟩⟩
    · simp [Core, ho]
    · simp [(Pending.isStart_iff.mp hs).2] at hv
    · exact absurd hv hn
  · exact st.finish_core

theorem stopTarget_cases (st : State) :
    st.stopTarget = none ∧ (∀ e ∈ st.expect, e.heating = false) ∨
      ∃ what e, st.stopTarget = some what ∧ (what = .power ∨ what = .permanent) ∧
        st.expect = some e ∧ e.heating := by
  rcases he : st.expect with _ | ⟨n, pm, l⟩
  · simp [State.stopTarget, he]
  · cases n <;> cases pm <;> simp [State.stopTarget, he, Snap.heating]

theorem stop_cases (st : State) (canSend : Bool) (now : ℤ) (why : Reason) :
    (stop st canSend now why = ([], st.finish) ∧ ∀ e ∈ st.expect, e.heating = false) ∨
    ∃ what e, (what = .power ∨ what = .permanent) ∧ st.expect = some e ∧ e.heating ∧
      ((canSend = true ∧ stop st canSend now why = ([⟨what, .off⟩],
        { st with mode := .off, pending := some (pend what .off now none why) })) ∨
      (canSend = false ∧ stop st canSend now why = ([],
        { st with mode := .stopping, pending := none, stopSnapshot := some ⟨e, why⟩ }))) := by
  rcases stopTarget_cases st with ⟨ht, hn⟩ | ⟨what, e, ht, hw, he, hh⟩
  · exact Or.inl ⟨by simp [stop, ht], hn⟩
  · refine Or.inr ⟨what, e, hw, he, hh, ?_⟩
    cases canSend <;> simp [stop, ht, he]

theorem stop_core (st : State) (canSend : Bool) (now : ℤ) (why : Reason) :
    Core (stop st canSend now why).2 := by
  rcases stop_cases st canSend now why with ⟨h, _⟩ | ⟨what, e, _, he, hh, ⟨_, h⟩ | ⟨_, h⟩⟩ <;>
    rw [h]
  · exact st.finish_core
  · simp [Core, pend, he]
  · simp [Core, hh]

theorem stop_quiet (st : State) (canSend : Bool) (now : ℤ) (why : Reason) :
    Quiet (stop st canSend now why).2 (stop st canSend now why).1 := by
  rcases stop_cases st canSend now why with ⟨h, _⟩ | ⟨what, e, _, _, _, ⟨_, h⟩ | ⟨_, h⟩⟩ <;>
    rw [h]
  · exact quiet_finish
  · simp [Quiet, Cmd.powerOn, pend, Pending.isStart]
  · simp [Quiet]

theorem meets_stop {P : Work → Prop} {canSend : Bool} {now : ℤ} {why : Reason}
    (w₀ : Work) (r : Reason) :
    ((w.stop canSend now why).ret r : Flow Exit Work).Meets
      (fun x => Core x.st ∧ Follows v w₀ x) P :=
  ⟨stop_core _ _ _ _, Or.inr (stop_quiet _ _ _ _)⟩

theorem sendLevel_regulated {e : Snap} {level now : ℤ} {before : Option ℤ}
    (h : w.st.lastCtlMs.isSome) : Regulated (w.sendLevel e level now before).st :=
  ⟨_, rfl, h, by simp [Work.sendLevel, pend, Value.ofLevel]⟩

theorem sendLevel_quiet {e : Snap} {level now : ℤ} {before : Option ℤ} :
    Quiet (w.sendLevel e level now before).st (w.sendLevel e level now before).cmds := by
  simp [Quiet, Work.sendLevel, pend, Pending.isStart, Cmd.powerOn]

theorem resent_core {p q : Pending} (h : Core st) (hp : st.pending = some p)
    (hm : st.mode ≠ .waiting) (hw : q.what = p.what) (hv : q.value = p.value)
    (hy : q.why = p.why) : Core { st with pending := some q } := by
  have hs : q.isStart = p.isStart := by simp [Pending.isStart, hw, hv]
  rcases hmode : st.mode with _ | _ | _ | _ | _ <;>
    simp only [Core, Regulated, hmode, hp, Option.mem_some_iff, forall_eq'] at h ⊢
  · exact ⟨hv ▸ h.1, hy ▸ h.2⟩
  · exact hs ▸ hw ▸ hv ▸ h
  · exact hs ▸ hw ▸ hv ▸ h
  · cases h.1
  · exact absurd hmode hm

theorem landed_core {p : Pending} {snap : Snap} (h : Core st) (hp : st.pending = some p)
    (hm : st.mode ≠ .waiting) : Core { st with pending := none, expect := some snap } := by
  rcases hmode : st.mode with _ | _ | _ | _ | _ <;>
    simp only [Core, Regulated, hmode, hp] at h ⊢
  · simp
  · exact ⟨snap, rfl, h.choose_spec.2.1, by simp⟩
  · exact ⟨snap, rfl, h.choose_spec.2.1, by simp⟩
  · cases h.1
  · exact absurd hmode hm

theorem pendingRule_spec (cfg : Cfg) (inp : Input) (v : View) (h : Core st) :
    (pendingRule cfg inp v ⟨st, [], none⟩).Meets
      (fun x => Core x.st ∧ x.cmds = [] ∧ x.st.pending = none)
      (fun w => Core w.st ∧ w.st.mode = st.mode ∧ w.st.stopSnapshot = st.stopSnapshot ∧
        (w.st.pending = none ∨ st.mode = .waiting → w.cmds = [])) := by
  have hc := pendingRule_cases cfg inp v h
  generalize pendingRule cfg inp v ⟨st, [], none⟩ = m at hc
  cases hc with
  | idle hp => exact ⟨h, rfl, rfl, fun _ => rfl⟩
  | preset hm q hq =>
    refine ⟨?_, rfl, rfl, fun _ => rfl⟩
    simp only [Core, hm] at h ⊢
    rcases hq with rfl | rfl
    · exact ⟨h.1, h.2.1, by simp⟩
    · exact h
  | moved hm hp he hb why hw => exact ⟨st.finish_core, rfl, rfl⟩
  | landed hm hp hs ha => exact ⟨landed_core h hp hm, rfl, rfl, fun _ => rfl⟩
  | keep hm hp he hn hk => exact ⟨h, rfl, rfl, fun _ => rfl⟩
  | failed hm hp ho hf => exact ⟨dropPending_core h hp hm, rfl, dropPending_pending _⟩
  | dropped hm hp hv =>
    refine ⟨?_, rfl, rfl⟩
    rcases h.off_of_pending hp hm with ⟨ho, _⟩ | ⟨_, hs | ⟨_, hn⟩⟩
    · simp [Core, ho]
    · simp [(Pending.isStart_iff.mp hs).2] at hv
    · exact absurd hv hn
  | busy hm hp he hb hl ho =>
    exact ⟨resent_core h hp hm rfl rfl rfl, rfl, rfl, by simp [resent, hm]⟩
  | retry hm hp he hs ha hf hr hb hl hv ht ho =>
    exact ⟨resent_core h hp hm rfl rfl rfl, rfl, rfl, by simp [resent, hm]⟩

theorem takeover_spec {R : Exit → Prop} (tRef : Option ℤ) (w : Work)
    (hs : v.snap.isSome) :
    (takeover cfg inp v tRef w).Meets R (fun w' => Regulated w'.st ∧
      w'.st.mode = w.st.mode ∧ w'.st.waitUntilMs = w.st.waitUntilMs ∧
      Quiet w'.st w'.cmds ∧ ∀ p ∈ w'.st.pending, p.what = .level) := by
  obtain ⟨snap, hs⟩ := Option.isSome_iff_exists.mp hs
  simp only [takeover, hs, Flow.need_some, Flow.next_bind]
  cases tRef with
  | none =>
    refine ⟨⟨snap, rfl, rfl, by simp⟩, rfl, rfl, ?_, by simp⟩
    simp [Quiet]
  | some t =>
    dsimp only
    split_ifs
    · refine ⟨⟨snap, rfl, rfl, by simp⟩, rfl, rfl, ?_, by simp⟩
      simp [Quiet]
    · refine ⟨sendLevel_regulated rfl, rfl, rfl, sendLevel_quiet, ?_⟩
      simp [Work.sendLevel, pend]

/-- Every way out of the wait: in order, nothing starts, and what it sends is a stop, or the
heater is taken over. -/
def WaitExit (x : Exit) : Prop :=
  Core x.st ∧ Quiet x.st x.cmds ∧ (x.st.mode = .auto ∨ ∀ c ∈ x.cmds, c.isStop)

theorem waitExit_finish (hcmds : w.cmds = []) (why : Option Reason) :
    WaitExit ⟨w.st.finish, w.cmds, why⟩ := by
  simp [WaitExit, hcmds, State.finish_core]

theorem waitExit_stop (canSend : Bool) (now : ℤ) (why : Reason) (r : Option Reason) :
    WaitExit ⟨(w.stop canSend now why).st, (w.stop canSend now why).cmds, r⟩ := by
  refine ⟨stop_core _ _ _ _, stop_quiet _ _ _ _, Or.inr ?_⟩
  simp only [Work.stop]
  rcases stop_cases w.st canSend now why with ⟨h, _⟩ | ⟨what, e, hw, _, _, ⟨_, h⟩ | ⟨_, h⟩⟩ <;>
    rw [h]
  · simp
  · simpa [Cmd.isStop] using hw
  · simp

theorem waitExit_wait (h : Core w.st) (hm : w.st.mode = .waiting) (hcmds : w.cmds = [])
    (q : Option ℤ) (r : Option Reason) : WaitExit ⟨{ w.st with contSinceMs := q }, w.cmds, r⟩ := by
  refine ⟨by simpa [Core, hm] using h, ⟨by simp [hcmds], ?_⟩, Or.inr (by simp [hcmds])⟩
  intro p hp
  simp only [Core, hm] at h
  simp [Pending.isStart, h.2.2 p hp]

theorem contSince_spec (h : Core w.st) (hm : w.st.mode = .waiting) (hcmds : w.cmds = []) :
    (contSince inp w).Meets WaitExit (fun _ => True) := by
  simp only [Core, hm] at h
  obtain ⟨u, hu⟩ := Option.isSome_iff_exists.mp h.2.1
  simp only [contSince, hu]
  split
  · trivial
  · refine .need rfl fun u _ => .ite (fun _ => ?_) fun _ => trivial
    exact waitExit_finish hcmds (some .nightWaitEnded)

theorem waitOn_spec (h : Core w.st) (hm : w.st.mode = .waiting) (hcmds : w.cmds = []) :
    (waitOn inp w).Meets WaitExit (fun _ => False) := by
  have hc := h
  simp only [Core, hm] at hc
  refine .need hc.2.1 fun u _ => .ite (fun _ => ?_) fun _ => ?_
  · exact waitExit_finish (w := w.put _) hcmds (some .nightWaitEnded)
  · exact waitExit_wait h hm hcmds none (some .waitingForContinuous)

theorem confirm_spec (hs : v.snap.isSome) (hage : inp.heaterAgeMs.isSome) (h : Core w.st)
    (hm : w.st.mode = .waiting) (hcmds : w.cmds = []) :
    (confirm cfg inp v w).Meets WaitExit (fun _ => False) := by
  refine (contSince_spec h hm hcmds).bind fun since _ => ?_
  refine .need hage fun age _ => .ite (fun _ => ?_) fun _ => ?_
  · exact waitExit_wait h hm hcmds (some since) (some .waitingForContinuous)
  · refine (takeover_spec _ _ hs).bind fun w' hw' => ?_
    obtain ⟨hr, hmode, _, hq, _⟩ := hw'
    have hm' : w'.st.mode = .auto := hmode
    exact ⟨hr.core (by simp [hm', Mode.on]), hq, Or.inl hm'⟩

theorem seen_core (h : Core w.st) (hm : w.st.mode = .waiting) :
    Core (seen v w).st ∧ (seen v w).st.mode = .waiting ∧ (seen v w).cmds = w.cmds := by
  simp only [seen]
  split_ifs with hs
  · refine ⟨?_, hm, rfl⟩
    simp only [Core, Work.put, hm] at h ⊢
    exact ⟨hs, h.2⟩
  · exact ⟨h, hm, rfl⟩

theorem View.snap_of (v : View) (h : v.hs ≠ .unknown) : v.snap.isSome := by
  simp [v.snap_isSome, h]

theorem waitingRule_spec (cfg : Cfg) (hage : v.snap.isSome → inp.heaterAgeMs.isSome)
    (h : Core w.st) (hm : w.st.mode = .waiting) (hcmds : w.cmds = []) :
    (waitingRule cfg inp v w).Meets WaitExit (fun _ => False) := by
  obtain ⟨hc, hm', hcmds'⟩ := seen_core (v := v) h hm
  rw [hcmds] at hcmds'
  simp only [waitingRule, hm, ne_eq, not_true_eq_false, if_false]
  refine .ite (fun _ => ?_) fun _ => .ite (fun _ => ?_) fun _ => .ite (fun _ => ?_) fun h₃ => ?_
  · exact waitExit_stop _ _ _ (some _)
  · exact waitExit_finish hcmds' (some _)
  · exact waitOn_spec hc hm' hcmds'
  · have hs : v.snap.isSome := v.snap_of (by simp_all)
    exact confirm_spec hs (hage hs) hc hm' hcmds'

theorem valid_value {r : Option Sensor} (h : valid cfg r) : (r.bind Sensor.value).isSome := by
  rcases r with _ | ⟨a, _ | t, age⟩ <;> simp [valid] at h ⊢

theorem some_else_eq_none {α : Type} {p : Prop} [Decidable p] {a : α} {o : Option α} :
    (if p then some a else o) = none ↔ ¬ p ∧ o = none := by
  split_ifs with hp <;> simp [hp]

theorem refusal_eq_none {hs : HeaterState} {code : ℤ} (h : refusal cfg inp hs code = none) :
    inp.enabled ∧ inp.linkReady ∧ hs ≠ .unknown ∧ code ≠ -1 ∧ hs.faulty = false ∧
      hs ≠ .timerArmed ∧ (inp.campingOn ∨ inp.shoreOn) ∧ inp.ignitionOn = some false ∧
      valid cfg inp.ref ∧ (inp.night = false → hs = .off →
        ∃ t, inp.ref.bind Sensor.value = some t ∧ t ≤ inp.target + cfg.bandHi) := by
  simp only [refusal, some_else_eq_none, not_not] at h
  obtain ⟨h₁, h₂, h₃, h₄, h₅, h₆, h₇, h₈, h₉, h₁₀, -⟩ := h
  refine ⟨h₁, h₂, h₃, h₄, by simpa using h₅, h₆, h₇, h₈, h₉, fun hn ho => ?_⟩
  obtain ⟨t, ht⟩ := Option.isSome_iff_exists.mp (valid_value h₉)
  refine ⟨t, ht, ?_⟩
  simpa [hn, ho, ht] using h₁₀

/-- The commands and the pending command of a start. -/
def Started (inp : Input) (x : Exit) : Prop :=
  ∃ lvl, x.cmds = [⟨.runtime, .num inp.runtimeMin⟩, ⟨.level, .num lvl⟩, .powerOn] ∧
    x.st.mode = .auto ∧ x.st.pending = some (pend .power .on inp.nowMs none none)

theorem startHeater_started (t : ℤ) (hm : w.st.mode = .auto) :
    Started inp ⟨(startHeater cfg inp v t w).st, (startHeater cfg inp v t w).cmds, some .start⟩ :=
  ⟨_, rfl, hm, rfl⟩

theorem startHeater_core (t : ℤ) (hm : w.st.mode = .auto) (hl : w.st.lastCtlMs.isSome) :
    Core (startHeater cfg inp v t w).st := by
  have hr : Regulated (startHeater cfg inp v t w).st :=
    ⟨_, rfl, hl, by simp [startHeater, pend, Pending.isStart]⟩
  exact hr.core (by simp [startHeater, hm, Mode.on])

theorem nightWait_spec (hs : v.snap.isSome) (t : ℤ) (hp : w.st.pending = none)
    (hcmds : w.cmds = []) :
    (nightWait cfg inp v t w).Meets (fun x => Core x.st ∧ Quiet x.st x.cmds)
      (fun _ => False) := by
  refine .need hs fun snap _ => ?_
  refine .bind (Q := fun w' : Work => Core w'.st ∧ Quiet w'.st w'.cmds) ?_ ?_
  · refine .ite (fun _ => ?_) fun _ => ?_
    · refine (takeover_spec _ _ hs).mono (fun _ hf => hf) fun w' hw' => ⟨?_, hw'.2.2.2.1⟩
      obtain ⟨⟨e, he, hl, _⟩, hm, hw, _, hp⟩ := hw'
      simp only [Work.put] at hm hw
      simp only [Core, hm]
      exact ⟨by simp [he], by simp [hw], hp⟩
    · exact ⟨by simp [Core, Work.put, hp], by simp [Quiet, Work.put, hp, hcmds]⟩
  · intro w' hw'
    exact hw'

theorem enter_spec (h : refusal cfg inp v.hs v.code = none)
    (hcmds : w.st.pending = none → w.cmds = []) :
    (enter cfg inp v w).Meets
      (fun x => Core x.st ∧ (Quiet x.st x.cmds ∨
        v.hs = .off ∧ inp.night = false ∧ Started inp x)) (fun _ => False) := by
  obtain ⟨_, _, hu, _, _, _, _, _, hv, _⟩ := refusal_eq_none h
  have hs : v.snap.isSome := v.snap_of hu
  have hc : (entered inp w).cmds = [] := by
    rcases hp : w.st.pending with _ | p <;> simp [entered, hp, hcmds]
  refine .need (valid_value hv) fun t _ => .ite (fun hn => ?_) fun hn => .ite (fun ho => ?_) ?_
  · exact (nightWait_spec hs t rfl hc).mono (fun x hx => ⟨hx.1, Or.inl hx.2⟩) fun _ hf => hf
  · refine ⟨startHeater_core t rfl rfl, Or.inr ⟨ho, ?_, startHeater_started t rfl⟩⟩
    simpa [ho] using hn
  · intro _
    refine (takeover_spec _ _ hs).bind fun w' hw' => ?_
    exact ⟨hw'.1.core (by simp [hw'.2.1, entered, Mode.on]), Or.inl hw'.2.2.2.1⟩

/-- A rule that goes on leaves alone what the later rules decide on. -/
structure Passed (w w' : Work) : Prop where
  mode : w'.st.mode = w.st.mode
  pending : w'.st.pending = w.st.pending
  expect : w'.st.expect = w.st.expect
  stopSnapshot : w'.st.stopSnapshot = w.st.stopSnapshot
  lastCtl : w'.st.lastCtlMs = w.st.lastCtlMs
  waitUntil : w'.st.waitUntilMs = w.st.waitUntilMs
  battLow : w'.st.battLowSinceMs = w.st.battLowSinceMs
  cmds : w'.cmds = w.cmds

theorem Passed.core {w' : Work} (h : Passed w w') (hc : Core w.st) : Core w'.st := by
  simpa only [Core, Regulated, h.mode, h.pending, h.expect, h.stopSnapshot, h.lastCtl,
    h.waitUntil] using hc

theorem Passed.follows {w' : Work} (h : Passed w w') {x : Exit} (hx : Follows v w' x) :
    Follows v w x := by
  simpa only [Follows, h.pending, h.cmds] using hx

theorem backToRef_spec {R : Exit → Prop} : (backToRef cfg inp v w).Meets R (Passed w) := by
  refine .ite (fun h => ?_) fun _ => ⟨rfl, rfl, rfl, rfl, rfl, rfl, rfl, rfl⟩
  rcases v.level with _ | level
  · exact ⟨rfl, rfl, rfl, rfl, rfl, rfl, rfl, rfl⟩
  · exact .need (valid_value h.2.2.2) fun t _ => ⟨rfl, rfl, rfl, rfl, rfl, rfl, rfl, rfl⟩

/-- The inputs and the state of a start of the heater. -/
def Enters (cfg : Cfg) (inp : Input) (v : View) (st : State) : Prop :=
  inp.request = some .auto ∧ st.mode.on = false ∧ refusal cfg inp v.hs v.code = none ∧
    v.hs = .off ∧ inp.night = false

theorem held_spec {R : Exit → Prop} (h : Core st) : (held st).Meets R fun _ => True := by
  rcases hp : st.pending with _ | p
  · simp only [held, hp]
    refine .ite (fun hm => ?_) fun _ => trivial
    simp only [Core, hm] at h
    obtain ⟨_, s, hs, _⟩ := h
    rw [Option.mem_def.mp hs]
    trivial
  · simp only [held, hp]
    trivial

theorem requestRule_spec (cfg : Cfg) (inp : Input) (v : View) (h : Core w.st)
    (hcmds : w.st.pending = none → w.cmds = []) :
    (requestRule cfg inp v w).Meets
      (fun x => Core x.st ∧ (Follows v w x ∨ Enters cfg inp v w.st ∧ Started inp x))
      (fun w' => Passed w w' ∧ ¬ (w.st.mode.on ∧ (inp.request = some .off ∨ ¬ inp.enabled))) := by
  refine .ite (fun _ => ?_) fun hoff => .bind (Q := fun _ => True) (held_spec h) fun _ _ =>
    .ite (fun hreq => .ite (fun _ => ?_) fun _ => ?_) fun _ => ?_
  · exact ⟨stop_core _ _ _ _, Or.inl (Or.inr (stop_quiet _ _ _ _))⟩
  · exact ⟨⟨rfl, rfl, rfl, rfl, rfl, rfl, rfl, rfl⟩, hoff⟩
  · rcases hr : refusal cfg inp v.hs v.code with _ | why
    · refine (enter_spec hr hcmds).mono (fun x hx => ⟨hx.1, ?_⟩) fun _ hf => hf.elim
      refine hx.2.imp Or.inr fun h => ⟨⟨hreq.1, ?_, hr, h.1, h.2.1⟩, h.2.2⟩
      simpa using hreq.2
    · exact ⟨h, Or.inl (Or.inl ⟨Or.inl rfl, rfl⟩)⟩
  · exact backToRef_spec.mono (fun _ hf => hf) fun w' hw' => ⟨hw', hoff⟩

theorem requestRule_on (hon : w.st.mode.on)
    (hoff : ¬ (inp.request = some .off ∨ ¬ inp.enabled)) :
    requestRule cfg inp v w = backToRef cfg inp v w := by
  rw [requestRule, if_neg (fun h => hoff h.2)]
  rcases hp : w.st.pending with _ | p
  · have hm : w.st.mode ≠ .stopping := by
      intro hm
      rw [hm] at hon
      cases hon
    simp [held, hp, hm, hon]
  · simp [held, hp, hon]

theorem Mode.on_ne_waiting {m : Mode} (h : m.on) : m ≠ .waiting := by
  rintro rfl
  cases h

theorem stoppingRule_on (hon : w.st.mode.on) : stoppingRule inp v w = .next w := by
  have hs : w.st.mode ≠ .stopping := by
    intro hm
    rw [hm] at hon
    cases hon
  rw [stoppingRule, if_neg hs, if_neg (fun h => h hon)]
  rfl

theorem stoppingRule_spec (inp : Input) (v : View) (h : Core w.st) :
    (stoppingRule inp v w).Meets (fun x => Core x.st ∧ Follows v w x)
      (fun w' => w' = w ∧ w.st.mode.on) := by
  refine .ite (fun hm => ?_) fun hm => .ite (fun hon => ?_) fun hon => ⟨rfl, by simpa using hon⟩
  · have hc := h
    simp only [Core, hm] at hc
    obtain ⟨hp, snap₀, hs₀, hh⟩ := hc
    rcases v.snap with _ | snap
    · exact ⟨h, Or.inl ⟨Or.inl rfl, rfl⟩⟩
    · refine .ite (fun _ => ⟨h, Or.inl ⟨Or.inl rfl, rfl⟩⟩) fun _ => ?_
      refine .need (Option.isSome_of_mem hs₀) fun s _ => ?_
      refine .ite (fun _ => ?_) fun _ => .ite (fun _ => ?_) fun _ => ?_
      · exact ⟨by simp [Core, Work.put, hp], Or.inl ⟨Or.inl rfl, rfl⟩⟩
      · exact ⟨by simp [Core, Work.put, hp], Or.inl ⟨Or.inl rfl, rfl⟩⟩
      · exact meets_stop w .stopping
  · exact ⟨h, Or.inl ⟨Or.inl rfl, rfl⟩⟩

theorem faultRule_spec (inp : Input) (v : View) (h : Core w.st) :
    (faultRule inp v w).Meets (fun x => Core x.st ∧ Follows v w x)
      (fun w' => w' = w ∧ v.snap.isSome ∧ v.hs.faulty = false) := by
  refine .ite (fun _ => meets_stop w .batteryLow) fun _ => .ite (fun _ => ?_) fun hf => ?_
  · exact ⟨w.st.finish_core, Or.inr quiet_finish⟩
  · refine .ite (fun hs => ⟨h, Or.inl ⟨Or.inr ⟨hs, rfl⟩, rfl⟩⟩) fun hs =>
      ⟨rfl, ?_, by simpa using hf⟩
    exact Option.isSome_iff_ne_none.mpr hs

/-- While on, a rule that goes on keeps what is sent, what is pending, and the regulation. -/
structure Regulates (w w' : Work) : Prop where
  mode : w'.st.mode.on
  regulated : Regulated w'.st
  pending : w'.st.pending = w.st.pending
  cmds : w'.cmds = w.cmds

theorem Regulates.follows {w' : Work} (h : Regulates w w') {x : Exit} (hx : Follows v w' x) :
    Follows v w x := by
  simpa only [Follows, h.pending, h.cmds] using hx

theorem Regulates.refl (hm : w.st.mode.on) (h : Regulated w.st) : Regulates w w :=
  ⟨hm, h, rfl, rfl⟩

theorem Regulates.ret {P : Work → Prop} {w' : Work} (h : Regulates w w') (why : Reason) :
    (w'.ret why : Flow Exit Work).Meets (fun x => Core x.st ∧ Follows v w x) P :=
  ⟨h.regulated.core h.mode, h.follows (Or.inl ⟨Or.inl rfl, rfl⟩)⟩

theorem Regulates.send {P : Work → Prop} {w' : Work} {e : Snap} {level now : ℤ}
    {before : Option ℤ} (h : Regulates w w') (why : Reason) :
    ((w'.sendLevel e level now before).ret why : Flow Exit Work).Meets
      (fun x => Core x.st ∧ Follows v w x) P :=
  ⟨(sendLevel_regulated h.regulated.choose_spec.2.1).core h.mode, Or.inr sendLevel_quiet⟩

theorem Regulated.expect (h : Regulated w.st) : w.st.expect.isSome := by
  obtain ⟨e, he, _⟩ := h
  simp [he]

theorem foreignRule_spec (v : View) (hs : v.snap.isSome) (hm : w.st.mode.on)
    (h : Regulated w.st) :
    (foreignRule v w).Meets (fun x => Core x.st ∧ Follows v w x) (Regulates w) := by
  refine .ite (fun hp => .need hs fun snap _ => .need h.expect fun e _ => ?_) fun _ => .refl hm h
  refine .ite (fun _ => ?_) fun _ => .ite (fun _ => ?_) fun _ => .refl hm h
  · exact ⟨w.st.finish_core, Or.inr quiet_finish⟩
  · refine ⟨hm, ⟨_, rfl, h.choose_spec.2.1, ?_⟩, rfl, rfl⟩
    simp [hp.1]

theorem batteryRule_spec (cfg : Cfg) (inp : Input) (hm : w.st.mode.on) (h : Regulated w.st) :
    (batteryRule cfg inp w).Meets (fun x => Core x.st ∧ Follows v w x) (Regulates w) := by
  refine .ite (fun _ => .ite (fun _ => meets_stop w .batteryLow) fun _ => ?_) fun _ => ?_
  · exact ⟨hm, h, rfl, rfl⟩
  · exact ⟨hm, h, rfl, rfl⟩

theorem endedRule_spec (v : View) (hm : w.st.mode.on) (h : Regulated w.st) :
    (endedRule v w).Meets (fun x => Core x.st ∧ Follows v w x) (Regulates w) := by
  refine .ite (fun _ => .need h.expect fun e _ => ?_) fun _ => .refl hm h
  exact ⟨w.st.finish_core, Or.inr quiet_finish⟩

theorem select_spec {R : Exit → Prop} {active : Active} (h : Regulated w.st)
    (hv : valid cfg (sensor inp active)) :
    (select cfg inp v active w).Meets R (Regulates w) := by
  obtain ⟨e, he, hl, hp⟩ := h
  simp only [select]
  rcases v.level with _ | level
  · exact ⟨rfl, ⟨e, he, rfl, hp⟩, rfl, rfl⟩
  · exact .need (valid_value hv) fun t _ => ⟨rfl, ⟨e, he, rfl, hp⟩, rfl, rfl⟩

theorem degrade_spec {P : Work → Prop} (h : Regulated w.st) :
    (degrade cfg inp v w).Meets (fun x => Core x.st ∧ Follows v w x) P := by
  have hr : Regulates w (w.put { w.st with mode := .degraded }) := ⟨rfl, h, rfl, rfl⟩
  exact .ite (fun _ => .need h.expect fun e _ => hr.send _) fun _ => hr.ret _

theorem referenceRule_spec (cfg : Cfg) (inp : Input) (v : View) (hm : w.st.mode.on)
    (h : Regulated w.st) :
    (referenceRule cfg inp v w).Meets (fun x => Core x.st ∧ Follows v w x)
      (fun w' => Regulates w w' ∧ valid cfg (sensor inp w'.st.active)) := by
  refine .ite (fun hv => .ite (fun hb => ?_) fun _ => .ite (fun hr => ?_) fun _ => ?_) fun hv =>
    .ite (fun hd => ?_) fun _ => ⟨.refl hm h, by simpa using hv⟩
  · exact (select_spec h hb.2).bind fun w' hw' => hw'.ret _
  · exact (select_spec h hr.2).bind fun w' hw' => hw'.ret _
  · exact degrade_spec h
  · exact (select_spec h (by simpa using hv)).bind fun w' hw' => hw'.ret _

theorem keepLevel_spec {P : Work → Prop} {w' : Work} (h : Regulates w w') (oldChange : ℤ) :
    (keepLevel inp v w' oldChange).Meets (fun x => Core x.st ∧ Follows v w x) P := by
  have hr : Regulates w (w'.put { w'.st with
      ctl := { w'.st.ctl with lastChangeMs := oldChange } }) :=
    ⟨h.mode, h.regulated, h.pending, h.cmds⟩
  exact hr.ret _

theorem regulate_spec {P : Work → Prop} (lvl : Option ℤ) (ctl : Ctl) (why : Reason)
    (hm : w.st.mode.on) (h : Regulated w.st) :
    (regulate cfg inp v w lvl ctl why).Meets (fun x => Core x.st ∧ Follows v w x) P := by
  have hr : Regulates w (w.put { w.st with ctl, lastCtlMs := some inp.nowMs }) := by
    obtain ⟨e, he, _, hp⟩ := h
    exact ⟨hm, ⟨e, he, rfl, hp⟩, rfl, rfl⟩
  refine .ite (fun _ => .ite (fun _ => .need h.expect fun e _ => ?_) fun _ => ?_) fun _ =>
    .ite (fun _ => ?_) fun _ => ?_
  · exact hr.send _
  · exact hr.ret _
  · exact meets_stop w why
  · rcases lvl with _ | l
    · exact keepLevel_spec hr _
    · exact .ite (fun _ => .need h.expect fun e _ => hr.send _) fun _ => keepLevel_spec hr _

theorem controlRule_spec {P : Work → Prop} (hm : w.st.mode.on) (h : Regulated w.st)
    (hv : valid cfg (sensor inp w.st.active)) :
    (controlRule cfg inp v w).Meets (fun x => Core x.st ∧ Follows v w x) P := by
  have hr := Regulates.refl hm h
  refine .ite (fun _ => hr.ret _) fun _ => .need h.choose_spec.2.1 fun last _ => ?_
  exact .ite (fun _ => hr.ret _) fun _ => .need (valid_value hv) fun t _ => regulate_spec _ _ _ hm h

theorem Regulates.trans {w₁ w₂ : Work} (h₁ : Regulates w w₁) (h₂ : Regulates w₁ w₂) :
    Regulates w w₂ :=
  ⟨h₂.mode, h₂.regulated, h₂.pending.trans h₁.pending, h₂.cmds.trans h₁.cmds⟩

theorem Regulates.meets {P : Work → Prop} {w₁ : Work} {m : Flow Exit Work}
    (h : Regulates w w₁) (hm : m.Meets (fun x => Core x.st ∧ Follows v w₁ x) P) :
    m.Meets (fun x => Core x.st ∧ Follows v w x) P :=
  hm.mono (fun _ hx => ⟨hx.1, h.follows hx.2⟩) fun _ hw => hw

theorem onRules_spec {P : Work → Prop} (cfg : Cfg) (inp : Input) (v : View)
    (hm : w.st.mode.on) (h : Regulated w.st) :
    (onRules cfg inp v w).Meets (fun x => Core x.st ∧ Follows v w x) P := by
  refine (faultRule_spec inp v (h.core hm)).bind fun w₀ h₀ => ?_
  obtain ⟨rfl, hs, _⟩ := h₀
  refine (foreignRule_spec v hs hm h).bind fun w₁ h₁ => ?_
  refine (h₁.meets (batteryRule_spec cfg inp h₁.mode h₁.regulated)).bind fun w₂ h₂ => ?_
  have h₂ := h₁.trans h₂
  refine (h₂.meets (endedRule_spec v h₂.mode h₂.regulated)).bind fun w₃ h₃ => ?_
  have h₃ := h₂.trans h₃
  refine (h₃.meets (referenceRule_spec cfg inp v h₃.mode h₃.regulated)).bind fun w₄ h₄ => ?_
  have h₄' := h₃.trans h₄.1
  exact h₄'.meets (controlRule_spec h₄'.mode h₄'.regulated h₄.2)

theorem sessionRules_spec {P : Work → Prop} (cfg : Cfg) (inp : Input) (v : View)
    (h : Core w.st) (hcmds : w.st.pending = none → w.cmds = []) :
    (sessionRules cfg inp v w).Meets
      (fun x => Core x.st ∧ (Follows v w x ∨ Enters cfg inp v w.st ∧ Started inp x)) P := by
  refine (requestRule_spec cfg inp v h hcmds).bind fun w₁ h₁ => ?_
  have hc := h₁.1.core h
  have hk {x : Exit} (hx : Core x.st ∧ Follows v w₁ x) :
      Core x.st ∧ (Follows v w x ∨ Enters cfg inp v w.st ∧ Started inp x) :=
    ⟨hx.1, Or.inl (h₁.1.follows hx.2)⟩
  refine ((stoppingRule_spec inp v hc).weaken fun x => hk).bind fun w₂ h₂ => ?_
  obtain ⟨rfl, hon⟩ := h₂
  exact (onRules_spec cfg inp v hon (hc.regulated hon)).weaken fun x => hk

/-- What a whole step does to a state of the session: it raises nothing, and only its entry
into AUTO, or rule (1) with a start still pending, can send `power on`. -/
structure Stepped (cfg : Cfg) (inp : Input) (v : View) (st : State) (x : Exit) : Prop where
  core : Core x.st
  start : Quiet x.st x.cmds ∨ (Enters cfg inp v st ∧ Started inp x) ∨
    ∃ w, pendingRule cfg inp v ⟨st, [], none⟩ = .next w ∧ st.mode ≠ .waiting ∧
      (x.cmds = w.cmds ∨ v.snap = none ∧ x.cmds = []) ∧ x.st.pending = w.st.pending

theorem rules_spec {P : Work → Prop} (cfg : Cfg) (inp : Input) (v : View)
    (hage : v.snap.isSome → inp.heaterAgeMs.isSome) (h : Core st) :
    (rules cfg inp v ⟨st, [], none⟩).Meets (Stepped cfg inp v st) P := by
  have hp := pendingRule_spec cfg inp v h
  simp only [rules]
  generalize he : pendingRule cfg inp v ⟨st, [], none⟩ = m at hp
  rcases m with w | x | _
  · obtain ⟨hc, hmode, _, hcmds⟩ := hp
    rw [Flow.next_bind]
    by_cases hw : st.mode = .waiting
    · have hx := waitingRule_spec cfg hage hc (hmode.trans hw) (hcmds (Or.inr hw))
      have hx' : (waitingRule cfg inp v w).Meets (Stepped cfg inp v st) (fun _ => False) :=
        hx.weaken fun _ hb => ⟨hb.1, Or.inl hb.2.1⟩
      exact hx'.bind fun _ hq => hq.elim
    · have hwait : waitingRule cfg inp v w = .next w := if_pos (hmode ▸ hw)
      rw [hwait, Flow.next_bind]
      refine (sessionRules_spec cfg inp v hc fun hn => hcmds (Or.inl hn)).weaken fun x hx => ?_
      obtain ⟨hcx, (hk | hq) | ⟨hen, hs⟩⟩ := hx
      · exact ⟨hcx, Or.inr (Or.inr ⟨w, he, hw, hk⟩)⟩
      · exact ⟨hcx, Or.inl hq⟩
      · exact ⟨hcx, Or.inr (Or.inl ⟨by simpa only [Enters, hmode] using hen, hs⟩)⟩
  · obtain ⟨hc, hcmds, hpend⟩ := hp
    exact ⟨hc, Or.inl (by simp [Quiet, hcmds, hpend])⟩
  · exact hp.elim

theorem view_age (h : (view cfg inp).snap.isSome) : inp.heaterAgeMs.isSome := by
  rw [(view cfg inp).snap_isSome, decide_eq_true_eq] at h
  obtain ⟨_, a, _, ha, _⟩ := heaterState_known h
  simp [ha]

theorem step_of_rules {R : Exit → Prop}
    (h : (rules cfg inp (view cfg inp) ⟨st, [], none⟩).Meets R (fun _ => False)) :
    ∃ x, step cfg inp st = some (out cfg inp (view cfg inp) x) ∧ R x := by
  simp only [step]
  generalize rules cfg inp (view cfg inp) ⟨st, [], none⟩ = m at h
  rcases m with w | x | _
  · exact h.elim
  · exact ⟨x, rfl, h⟩
  · exact h.elim

theorem step_of_sessionRules {R : Exit → Prop}
    (hp : pendingRule cfg inp (view cfg inp) ⟨st, [], none⟩ = .next w)
    (hm : w.st.mode ≠ .waiting)
    (h : (sessionRules cfg inp (view cfg inp) w).Meets R (fun _ => False)) :
    ∃ x, step cfg inp st = some (out cfg inp (view cfg inp) x) ∧ R x := by
  refine step_of_rules ?_
  have hwait : waitingRule cfg inp (view cfg inp) w = .next w := if_pos hm
  simpa only [rules, hp, hwait, Flow.next_bind] using h

theorem step_spec (cfg : Cfg) (inp : Input) (h : WellFormed st) :
    ∃ x, step cfg inp st = some (out cfg inp (view cfg inp) x) ∧
      Stepped cfg inp (view cfg inp) st x :=
  step_of_rules (rules_spec cfg inp (view cfg inp) view_age h.core)

theorem step_wellFormed {o : Out} {st' : State} (h : WellFormed st)
    (hs : step cfg inp st = some (o, st')) : WellFormed st' := by
  obtain ⟨x, hx, hx'⟩ := step_spec cfg inp h
  rw [hx, Option.some.injEq] at hs
  rw [show st' = x.st.settle from (congrArg Prod.snd hs).symm]
  exact hx'.core.settle

theorem step_total (cfg : Cfg) (inp : Input) (st : State) (h : WellFormed st) :
    ∃ o st', step cfg inp st = some (o, st') ∧ WellFormed st' := by
  obtain ⟨x, hx, _⟩ := step_spec cfg inp h
  exact ⟨_, _, hx, step_wellFormed h hx⟩

theorem initialState_wellFormed : WellFormed initialState := by
  constructor <;> simp [initialState, Mode.on]

theorem reachable_wellFormed (h : Reachable (step cfg) initialState st) :
    WellFormed st :=
  h.invariant initialState_wellFormed fun _ _ _ _ => step_wellFormed

/-- Every state after a step is in order, so no step raises, whatever its inputs: every list
of inputs is run to its end. -/
theorem session_inOrder (cfg : Cfg) :
    (∀ tr st, Run (step cfg) initialState tr st →
      WellFormed st ∧ ∀ inp, step cfg inp st ≠ none) ∧
    ∀ is, ∃ tr st, Run (step cfg) initialState tr st ∧ tr.map Record.inp = is := by
  refine ⟨fun tr st hr => ?_, fun is => ?_⟩
  · have hw := reachable_wellFormed hr.reachable
    refine ⟨hw, fun inp hn => ?_⟩
    obtain ⟨o, st', hx, _⟩ := step_total cfg inp st hw
    rw [hn] at hx
    cases hx
  · obtain ⟨tr, st, hr, hi, _⟩ := Run.total initialState_wellFormed (step_total cfg) is
    exact ⟨tr, st, hr, hi⟩

end OpenCalifornia.Thermostat
