import OpenCalifornia.Thermostat.Starts

/-! # Levels and their dwell

Every level a run sends lies between `min_level` and 10. `last_change_ms` is the clock of the
first send of the last level or start: whatever path sends one stamps it, and nothing else does,
so the control law's own test of it is the dwell between two commands. -/

namespace OpenCalifornia.Thermostat
open Lib (Flow)
open Lib.Machine (Run run_of_exec)

variable {cfg : Cfg} {inp : Input} {v : View} {st st₀ : State} {w : Work} {p : Pending}

/-- A level of the heater that the settings allow. -/
def LevelOk (cfg : Cfg) (x : Value) : Prop := ∃ n, x = .num n ∧ cfg.minLevel ≤ n ∧ n ≤ 10

def Pending.isLevelOrStart (p : Pending) : Prop := p.what = .level ∨ p.isStart

def Reason.byControl (r : Reason) : Prop := r = .levelUp ∨ r = .levelDown

/-- What holds of the levels between two steps. -/
structure Levels (cfg : Cfg) (st : State) : Prop where
  level : ∀ p ∈ st.pending, p.what = .level → LevelOk cfg p.value
  start : ∀ p ∈ st.pending, p.isStart → ∃ e ∈ st.expect, LevelOk cfg (.ofLevel e.level)
  stamp : ∀ p ∈ st.pending, p.isLevelOrStart → st.ctl.lastChangeMs = p.firstMs

/-- A level or a start goes out for the first time. -/
def FirstSent (inp : Input) (st : State) (cmds : List Cmd) : Prop :=
  (∃ c ∈ cmds, c.what = .level ∨ c = .powerOn) ∧
    ∃ p ∈ st.pending, p.isLevelOrStart ∧ p.firstMs = inp.nowMs

/-- What a step may have sent when it ends. -/
structure Acts (cfg : Cfg) (inp : Input) (st₀ st : State) (cmds : List Cmd) : Prop where
  levels : Levels cfg st
  range : ∀ c ∈ cmds, c.what = .level → LevelOk cfg c.value
  change : st.ctl.lastChangeMs = st₀.ctl.lastChangeMs ∨ FirstSent inp st cmds

/-- The end of a step: the control law waited for the dwell. -/
structure Ended (cfg : Cfg) (inp : Input) (v : View) (st₀ : State) (x : Exit) : Prop where
  acts : Acts cfg inp st₀ x.st x.cmds
  dwell : ∀ r ∈ x.why, r.byControl → v.level ≠ none →
    inp.nowMs - st₀.ctl.lastChangeMs ≥ cfg.minDwellMs

/-- Between two rules nothing was sent for the first time. -/
structure Ready (cfg : Cfg) (st₀ : State) (w : Work) : Prop where
  levels : Levels cfg w.st
  range : ∀ c ∈ w.cmds, c.what = .level → LevelOk cfg c.value
  same : w.st.ctl.lastChangeMs = st₀.ctl.lastChangeMs
  reason : ∀ r ∈ w.reason, ¬ r.byControl

theorem Ready.acts (h : Ready cfg st₀ w) : Acts cfg inp st₀ w.st w.cmds :=
  ⟨h.levels, h.range, .inl h.same⟩

theorem Acts.ret {P : Work → Prop} (h : Acts cfg inp st₀ w.st w.cmds) {why : Reason}
    (hw : ¬ why.byControl) : (w.ret why : Flow Exit Work).Ends (Ended cfg inp v st₀) P := by
  refine ⟨h, fun r hr hb => absurd hb ?_⟩
  obtain rfl : why = r := Option.some.inj hr
  exact hw

theorem Ready.ret {P : Work → Prop} (h : Ready cfg st₀ w) {why : Reason}
    (hw : ¬ why.byControl) : (w.ret why : Flow Exit Work).Ends (Ended cfg inp v st₀) P :=
  h.acts.ret hw

theorem levels_of_none (h : ∀ p ∈ st.pending, ¬ p.isLevelOrStart) : Levels cfg st :=
  ⟨fun p hp hl => absurd (.inl hl) (h p hp), fun p hp hs => absurd (.inr hs) (h p hp),
    fun p hp hl => absurd hl (h p hp)⟩

theorem Levels.congr {st' : State} (h : Levels cfg st) (hp : st'.pending = st.pending)
    (he : st'.expect = st.expect) (hc : st'.ctl.lastChangeMs = st.ctl.lastChangeMs) :
    Levels cfg st' :=
  ⟨by simpa only [hp] using h.level, by simpa only [hp, he] using h.start,
    by simpa only [hp, hc] using h.stamp⟩

theorem Ready.congr {w' : Work} (h : Ready cfg st₀ w) (hp : w'.st.pending = w.st.pending)
    (he : w'.st.expect = w.st.expect)
    (hc : w'.st.ctl.lastChangeMs = w.st.ctl.lastChangeMs) (hm : w'.cmds = w.cmds)
    (hr : w'.reason = w.reason) : Ready cfg st₀ w' :=
  ⟨h.levels.congr hp he hc, by simpa only [hm] using h.range, hc.trans h.same,
    by simpa only [hr] using h.reason⟩

theorem Ready.finish (h : Ready cfg st₀ w) : Acts cfg inp st₀ w.st.finish [] :=
  ⟨levels_of_none (by simp), by simp, .inl h.same⟩

theorem stop_acts (h : w.st.ctl.lastChangeMs = st₀.ctl.lastChangeMs) (canSend : Bool) (now : ℤ)
    (why : Reason) :
    Acts cfg inp st₀ (w.stop canSend now why).st (w.stop canSend now why).cmds := by
  simp only [Work.stop]
  rcases stop_cases w.st canSend now why with ⟨he, -⟩ | ⟨what, e, hw, -, -, ⟨-, he⟩ | ⟨-, he⟩⟩ <;>
    rw [he]
  · exact ⟨levels_of_none (by simp), by simp, .inl h⟩
  · refine ⟨levels_of_none ?_, ?_, .inl h⟩
    · rcases hw with rfl | rfl <;> simp [Pending.isLevelOrStart, Pending.isStart, pend]
    · rcases hw with rfl | rfl <;> simp
  · exact ⟨levels_of_none (by simp), by simp, .inl h⟩

theorem sendLevel_acts {e : Snap} {level : ℤ} {before : Option ℤ} (hl : cfg.minLevel ≤ level)
    (hu : level ≤ 10) :
    Acts cfg inp st₀ (w.sendLevel e level inp.nowMs before).st
      (w.sendLevel e level inp.nowMs before).cmds := by
  refine ⟨⟨?_, ?_, ?_⟩, ?_, .inr ⟨⟨_, List.mem_singleton_self _, .inl rfl⟩, _, rfl, .inl rfl, rfl⟩⟩
  · rintro p ⟨⟩ -
    exact ⟨level, rfl, hl, hu⟩
  · rintro p ⟨⟩ hs
    simp [pend, Pending.isStart] at hs
  · rintro p ⟨⟩ -
    rfl
  · simp only [Work.sendLevel, List.mem_singleton]
    rintro c rfl -
    exact ⟨level, rfl, hl, hu⟩

theorem law_answers (hm : cfg.minLevel ≤ 10) (hot held : Prop) [Decidable hot] [Decidable held]
    (new : Ctl) (u last now : ℤ) (cur : Option ℤ) (hn : new.lastChangeMs = last) :
    let r : Option ℤ × Ctl × Reason :=
      if hot then (none, new, .overheat)
      else if held then (none, new, .targetExceededAtMinLevel)
      else
        let level := min (max (rdiv u 1000) cfg.minLevel) 10
        match cur with
        | none => (some level, new, .levelUp)
        | some cur =>
          if level = cur ∨ (u - cur * 1000).natAbs < 500 + cfg.hyst ∨
            now - last < cfg.minDwellMs then
            (none, new, .hold)
          else (some level, { new with lastChangeMs := now },
            if level > cur then .levelUp else .levelDown)
    (r.1 = none ∧ r.2.1.lastChangeMs = last ∧ ¬ r.2.2.byControl) ∨
      ∃ l, r.1 = some l ∧ cfg.minLevel ≤ l ∧ l ≤ 10 ∧ r.2.2.byControl ∧
        (cur = none → r.2.1.lastChangeMs = last) ∧
        (cur ≠ none → now - last ≥ cfg.minDwellMs) := by
  intro r
  simp only [r]
  split_ifs with hover hheld
  · exact .inl ⟨rfl, hn, by simp [Reason.byControl]⟩
  · exact .inl ⟨rfl, hn, by simp [Reason.byControl]⟩
  · rcases cur with _ | cur
    · exact .inr ⟨_, rfl, by omega, by omega, .inl rfl, fun _ => hn, fun h => absurd rfl h⟩
    · dsimp only
      split_ifs with hold hup
      · exact .inl ⟨rfl, hn, by simp [Reason.byControl]⟩
      all_goals
        refine .inr ⟨_, rfl, by omega, by omega, by simp [Reason.byControl], by simp, fun _ => ?_⟩
        simp only [not_or] at hold
        exact Int.not_lt.1 hold.2.2

theorem control_answers (hm : cfg.minLevel ≤ 10) (t : ℤ) (tOut : Option ℤ) (target dt : ℤ)
    (ctl : Ctl) (cur : Option ℤ) (now : ℤ) :
    let r := control cfg t tOut target dt ctl cur now
    (r.1 = none ∧ r.2.1.lastChangeMs = ctl.lastChangeMs ∧ ¬ r.2.2.byControl) ∨
      ∃ l, r.1 = some l ∧ cfg.minLevel ≤ l ∧ l ≤ 10 ∧ r.2.2.byControl ∧
        (cur = none → r.2.1.lastChangeMs = ctl.lastChangeMs) ∧
        (cur ≠ none → now - ctl.lastChangeMs ≥ cfg.minDwellMs) := by
  rcases cur with _ | cur
  · exact law_answers hm _ _ _ _ ctl.lastChangeMs now none rfl
  · exact law_answers hm _ _ _ _ ctl.lastChangeMs now (some cur) rfl

theorem entryLevel (hm : cfg.minLevel ≤ 10) (t : ℤ) (tOut : Option ℤ) (target dt : ℤ) (ctl : Ctl)
    (now : ℤ) :
    let r := control cfg t tOut target dt ctl none now
    r.2.1.lastChangeMs = ctl.lastChangeMs ∧
      cfg.minLevel ≤ (r.1.filter (· ≠ 0)).getD cfg.minLevel ∧
      (r.1.filter (· ≠ 0)).getD cfg.minLevel ≤ 10 := by
  intro r
  rcases control_answers hm t tOut target dt ctl none now with ⟨hl, hc, -⟩ |
    ⟨l, hl, hlo, hhi, -, hc, -⟩
  · exact ⟨hc, by simp [r, hl], by simpa [r, hl] using hm⟩
  · refine ⟨hc rfl, ?_⟩
    by_cases h : l = 0
    · simpa [r, hl, h, Option.filter] using hm
    · simpa [r, hl, h, Option.filter] using ⟨hlo, hhi⟩

theorem resendCmds_range {e : Snap} {full : Bool} (h : Levels cfg st) (hp : st.pending = some p)
    (he : st.expect = some e) :
    ∀ c ∈ resendCmds inp p e full, c.what = .level → LevelOk cfg c.value := by
  simp only [resendCmds]
  split_ifs with hs
  · intro c hc hw
    simp only [List.mem_cons, List.not_mem_nil, or_false] at hc
    rcases hc with rfl | rfl | rfl
    · cases hw
    · obtain ⟨e', he', ho⟩ := h.start p hp hs.2
      obtain rfl : e = e' := Option.some.inj (he.symm.trans he')
      exact ho
    · cases hw
  · intro c hc hw
    obtain rfl := List.mem_singleton.1 hc
    exact h.level p hp hw

theorem resent_ready {q : Pending} {cmds : List Cmd} (h : Levels cfg st)
    (hp : st.pending = some p) (hw : q.what = p.what) (hv : q.value = p.value)
    (hf : q.firstMs = p.firstMs) (hr : ∀ c ∈ cmds, c.what = .level → LevelOk cfg c.value) :
    Ready cfg st (resent ⟨st, [], none⟩ q cmds) := by
  have hs : q.isStart = p.isStart := by simp [Pending.isStart, hw, hv]
  refine ⟨⟨?_, ?_, ?_⟩, hr, rfl, ?_⟩
  · rintro _ ⟨⟩ hl
    exact hv ▸ h.level p hp (hw ▸ hl)
  · rintro _ ⟨⟩ hq
    exact h.start p hp (hs ▸ hq)
  · rintro _ ⟨⟩ hq
    exact (h.stamp p hp (by simpa [Pending.isLevelOrStart, hw, hs] using hq)).trans hf.symm
  · simp only [resent]
    intro r hr
    split at hr <;> cases hr <;> simp [Reason.byControl]

theorem pendingRule_levels (cfg : Cfg) (inp : Input) (v : View) (hc : Core st)
    (h : Levels cfg st) :
    (pendingRule cfg inp v ⟨st, [], none⟩).Ends (Ended cfg inp v st) (Ready cfg st) := by
  have hr : Ready cfg st ⟨st, [], none⟩ := ⟨h, by simp, rfl, by simp⟩
  have hg {x : State} (hx : x.pending = none) (hs : x.ctl = st.ctl) :
      Ready cfg st ⟨x, [], none⟩ :=
    ⟨levels_of_none (by simp [hx]), by simp, by rw [hs], by simp⟩
  have hcases := pendingRule_cases cfg inp v hc
  generalize pendingRule cfg inp v ⟨st, [], none⟩ = m at hcases
  cases hcases with
  | idle hp => exact hr
  | preset hm q hq =>
    rcases hq with rfl | rfl
    · exact hg rfl rfl
    · exact hr
  | moved hm hp he hb why hw =>
    refine (hg (x := st.finish) rfl rfl).ret ?_
    rcases hw with rfl | rfl | rfl <;> simp [Reason.byControl]
  | landed hm hp hs ha => exact hg rfl rfl
  | keep hm hp he hn hk => exact hr
  | @failed p hm hp ho hf =>
    refine (hg (dropPending_pending p) ?_).ret ?_
    · simp only [dropPending]
      split_ifs <;> rfl
    · simp only [failReason]
      split_ifs <;> simp [Reason.byControl]
  | dropped hm hp hv =>
    exact (hg (x := { st with pending := none }) rfl rfl).ret (by simp [Reason.byControl])
  | busy hm hp he hb hl ho => exact resent_ready h hp rfl rfl rfl (resendCmds_range h hp he)
  | @retry p e snap hm hp he hs ha hf hr hb hl hv ht ho =>
    refine resent_ready h hp rfl rfl rfl fun c hc hw => ?_
    obtain rfl := List.mem_singleton.1 hc
    exact h.level p hp hw

section Entry

variable (hm : cfg.minLevel ≤ 10)
include hm

/-- A takeover sends a level for the first time or leaves the clock of the last one. -/
theorem takeover_acts {R : Exit → Prop} (tRef : Option ℤ)
    (h : w.st.ctl.lastChangeMs = st₀.ctl.lastChangeMs) :
    (takeover cfg inp v tRef w).Ends R (fun w' => Acts cfg inp st₀ w'.st w'.cmds) := by
  refine .need fun snap _ => ?_
  cases tRef with
  | none => exact ⟨levels_of_none (by simp), by simp, .inl h⟩
  | some t =>
    obtain ⟨hc, hlo, hhi⟩ := entryLevel hm t v.tOut inp.target 0
      ⟨0, w.st.ctl.lastChangeMs, none, 0, some 0⟩ inp.nowMs
    refine .ite (fun _ => ?_) fun _ => ?_
    · exact ⟨levels_of_none (by simp), by simp, .inl (hc.trans h)⟩
    · exact sendLevel_acts hlo hhi

theorem startHeater_acts (t : ℤ) :
    Acts cfg inp st₀ (startHeater cfg inp v t w).st (startHeater cfg inp v t w).cmds := by
  obtain ⟨hc, hlo, hhi⟩ := entryLevel hm t v.tOut inp.target 0 ⟨0, inp.nowMs, none, 0, some 0⟩
    inp.nowMs
  refine ⟨⟨?_, ?_, ?_⟩, ?_, .inr ⟨⟨.powerOn, by simp [startHeater], .inr rfl⟩, _, rfl,
    .inr rfl, rfl⟩⟩
  · rintro p ⟨⟩ hw
    cases hw
  · rintro p ⟨⟩ -
    exact ⟨_, rfl, _, rfl, hlo, hhi⟩
  · rintro p ⟨⟩ -
    exact hc
  · intro c hc hw
    simp only [startHeater, List.mem_cons, List.not_mem_nil, or_false] at hc
    rcases hc with rfl | rfl | rfl
    · cases hw
    · exact ⟨_, rfl, hlo, hhi⟩
    · cases hw

theorem confirm_levels {P : Work → Prop} (h : Ready cfg st₀ w) :
    (confirm cfg inp v w).Ends (Ended cfg inp v st₀) P := by
  have hs : (contSince inp w).Ends (Ended cfg inp v st₀) fun _ => True := by
    simp only [contSince]
    split
    · trivial
    · refine .need fun u _ => .ite (fun _ => ?_) fun _ => trivial
      exact Acts.ret (v := v) (P := fun _ => True) (w := w.put w.st.finish)
        ⟨levels_of_none (by simp [Work.put]), h.range, .inl h.same⟩ (by simp [Reason.byControl])
  refine hs.bind fun since _ => .need fun age _ => .ite (fun _ => ?_) fun _ => ?_
  · refine Ready.ret ?_ ?_
    · exact h.congr rfl rfl rfl rfl rfl
    · simp [Reason.byControl]
  · refine (takeover_acts hm _ ?_).bind fun w' hw' => hw'.ret ?_
    · exact h.same
    · simp [Reason.byControl]

/-- (W): the snapshot seen is no start's expected state, as nothing of a start is pending. -/
theorem waitingRule_levels (h : Ready cfg st₀ w)
    (hp : w.st.mode = .waiting → ∀ p ∈ w.st.pending, p.isStart = false) :
    (waitingRule cfg inp v w).Ends (Ended cfg inp v st₀) (Ready cfg st₀) := by
  refine .ite (fun _ => h) fun hwait => ?_
  have hp := hp (not_not.1 hwait)
  have hs : Ready cfg st₀ (seen v w) := by
    simp only [seen]
    split_ifs
    · refine ⟨⟨h.levels.level, fun p hq hst => ?_, h.levels.stamp⟩, h.range, h.same, h.reason⟩
      rw [hp p hq] at hst
      cases hst
    · exact h
  refine .ite (fun _ => ?_) fun _ => .ite (fun _ => ?_) fun _ => .ite (fun _ => ?_) fun _ => ?_
  · refine (stop_acts hs.same _ _ _).ret ?_
    simp only [offWhy]
    split_ifs <;> simp [Reason.byControl]
  · refine Acts.ret (w := (seen v w).put (seen v w).st.finish)
      ⟨levels_of_none (by simp [Work.put]), hs.range, .inl hs.same⟩ ?_
    simp only [faultReason]
    split_ifs <;> simp [Reason.byControl]
  · refine .need fun u _ => .ite (fun _ => ?_) fun _ => ?_
    · refine Acts.ret ?_ ?_
      · exact ⟨levels_of_none (by simp [Work.put]), hs.range, .inl hs.same⟩
      · simp [Reason.byControl]
    · refine Ready.ret ?_ ?_
      · exact hs.congr rfl rfl rfl rfl rfl
      · simp [Reason.byControl]
  · exact confirm_levels hm hs

theorem enter_levels {P : Work → Prop} (h : Ready cfg st₀ w) :
    (enter cfg inp v w).Ends (Ended cfg inp v st₀) P := by
  have he : Ready cfg st₀ (entered inp w) := by
    refine ⟨levels_of_none (by simp [entered]), ?_, h.same, h.reason⟩
    simp only [entered]
    split_ifs
    · simp
    · exact h.range
  refine .need fun t _ => .ite (fun _ => .need fun snap _ => ?_) fun _ =>
    .ite (fun _ => ?_) fun _ => ?_
  · refine Flow.Ends.bind (Q := fun w' => Acts cfg inp st₀ w'.st w'.cmds) ?_ fun w' hw' =>
      hw'.ret (by simp [Reason.byControl])
    refine .ite (fun _ => takeover_acts hm _ he.same) fun _ => ?_
    exact ⟨levels_of_none (by simp [entered, Work.put]), he.range, .inl he.same⟩
  · exact (startHeater_acts hm t).ret (by simp [Reason.byControl])
  · refine (takeover_acts hm _ he.same).bind fun w' hw' => hw'.ret ?_
    split_ifs <;> simp [Reason.byControl]

end Entry

section Session

variable (hm : cfg.minLevel ≤ 10)

theorem Ready.stop {P : Work → Prop} (h : Ready cfg st₀ w) (canSend : Bool) (now : ℤ)
    (why : Reason) {r : Reason} (hr : ¬ r.byControl) :
    ((w.stop canSend now why).ret r : Flow Exit Work).Ends (Ended cfg inp v st₀) P :=
  (stop_acts h.same canSend now why).ret hr

theorem Ready.ended {P : Work → Prop} (h : Ready cfg st₀ w) {r : Reason} (hr : ¬ r.byControl) :
    (w.finish.ret r : Flow Exit Work).Ends (Ended cfg inp v st₀) P :=
  Acts.ret (w := w.finish) h.finish hr

theorem endedReason_notControl (b : Bool) : ¬ (endedReason b).byControl := by
  cases b <;> simp [endedReason, Reason.byControl]

theorem backToRef_levels (h : Ready cfg st₀ w) :
    (backToRef cfg inp v w).Ends (Ended cfg inp v st₀) (Ready cfg st₀) := by
  refine .ite (fun _ => ?_) fun _ => h
  rcases v.level with _ | level
  · exact h.congr rfl rfl rfl rfl rfl
  · exact .need fun t _ => h.congr rfl rfl rfl rfl rfl

include hm in
theorem requestRule_levels (h : Ready cfg st₀ w) :
    (requestRule cfg inp v w).Ends (Ended cfg inp v st₀) (Ready cfg st₀) := by
  have hheld : (held w.st).Ends (Ended cfg inp v st₀) fun _ => True := by
    rcases hp : w.st.pending with _ | p
    · simp only [held, hp]
      exact .ite (fun _ => .need fun s _ => trivial) fun _ => trivial
    · simp only [held, hp]
      trivial
  refine .ite (fun _ => ?_) fun _ => hheld.bind fun r _ =>
    .ite (fun _ => .ite (fun _ => ?_) fun _ => ?_)
    fun _ => backToRef_levels h
  · refine h.stop _ _ _ ?_
    split_ifs <;> simp [Reason.byControl]
  · exact ⟨h.levels, h.range, h.same, by simp [Reason.byControl]⟩
  · rcases refusal cfg inp v.hs v.code with _ | why
    · exact enter_levels hm h
    · exact h.ret (by simp [Reason.byControl])

theorem stoppingRule_levels (h : Ready cfg st₀ w) :
    (stoppingRule inp v w).Ends (Ended cfg inp v st₀) (Ready cfg st₀) := by
  refine .ite (fun _ => ?_) fun _ => .ite (fun _ => ?_) fun _ => h
  · rcases v.snap with _ | snap
    · exact h.ret (by simp [Reason.byControl])
    · refine .ite (fun _ => h.ret (by simp [Reason.byControl])) fun _ => .need fun s₀ _ =>
        .ite (fun _ => ?_) fun _ => .ite (fun _ => ?_) fun _ => ?_
      · refine Ready.ret ?_ (endedReason_notControl _)
        exact h.congr rfl rfl rfl rfl rfl
      · refine Ready.ret ?_ ?_
        · exact h.congr rfl rfl rfl rfl rfl
        · simp [Reason.byControl]
      · refine Acts.ret (stop_acts ?_ _ _ _) ?_
        · exact h.same
        · simp [Reason.byControl]
  · exact ⟨h.acts, fun r hr hb => absurd hb (h.reason r hr)⟩

theorem faultReason_notControl (code : ℤ) : ¬ (faultReason code).byControl := by
  simp only [faultReason]
  split_ifs <;> simp [Reason.byControl]

theorem faultRule_levels (h : Ready cfg st₀ w) :
    (faultRule inp v w).Ends (Ended cfg inp v st₀) (Ready cfg st₀) := by
  refine .ite (fun _ => ?_) fun _ => .ite (fun _ => ?_) fun _ => .ite (fun _ => ?_) fun _ => h
  · exact h.stop _ _ _ (by simp [Reason.byControl])
  · exact h.ended (faultReason_notControl _)
  · refine Acts.ret ?_ ?_
    · exact ⟨h.levels, by simp, .inl h.same⟩
    · simp [Reason.byControl]

theorem foreignRule_levels (h : Ready cfg st₀ w) :
    (foreignRule v w).Ends (Ended cfg inp v st₀) (Ready cfg st₀) := by
  refine .ite (fun hp => .need fun snap _ => .need fun e _ => .ite (fun _ => ?_) fun _ =>
    .ite (fun _ => ?_) fun _ => h) fun _ => h
  · exact h.ended (by simp [Reason.byControl])
  · exact ⟨levels_of_none (by simp [hp.1]), h.range, h.same, h.reason⟩

theorem batteryRule_levels (h : Ready cfg st₀ w) :
    (batteryRule cfg inp w).Ends (Ended cfg inp v st₀) (Ready cfg st₀) := by
  refine .ite (fun _ => .ite (fun _ => ?_) fun _ => ?_) fun _ => ?_
  · refine Acts.ret (stop_acts ?_ _ _ _) ?_
    · exact h.same
    · simp [Reason.byControl]
  · exact h.congr rfl rfl rfl rfl rfl
  · exact h.congr rfl rfl rfl rfl rfl

theorem endedRule_levels (h : Ready cfg st₀ w) :
    (endedRule v w).Ends (Ended cfg inp v st₀) (Ready cfg st₀) :=
  .ite (fun _ => .need fun _ _ => h.ended (endedReason_notControl _)) fun _ => h

theorem select_levels {R : Exit → Prop} (h : Ready cfg st₀ w) (active : Active) :
    (select cfg inp v active w).Ends R (Ready cfg st₀) := by
  simp only [select]
  rcases v.level with _ | level
  · exact h.congr rfl rfl rfl rfl rfl
  · exact .need fun t _ => h.congr rfl rfl rfl rfl rfl

include hm in
theorem referenceRule_levels (h : Ready cfg st₀ w) :
    (referenceRule cfg inp v w).Ends (Ended cfg inp v st₀) (Ready cfg st₀) := by
  have hs (active : Active) {why : Reason} (hw : ¬ why.byControl) :
      (select cfg inp v active w >>= fun w' => w'.ret why).Ends (Ended cfg inp v st₀)
        (Ready cfg st₀) :=
    (select_levels h active).bind fun w' hw' => hw'.ret hw
  refine .ite (fun _ => .ite (fun _ => ?_) fun _ => .ite (fun _ => ?_) fun _ => .ite (fun _ => ?_)
    fun _ => ?_) fun _ => .ite (fun _ => ?_) fun _ => h
  · exact hs .backup (by simp [Reason.byControl])
  · exact hs .ref (by simp [Reason.byControl])
  · refine .need fun e _ => Acts.ret (sendLevel_acts (Int.le_refl _) hm) ?_
    simp [Reason.byControl]
  · refine Ready.ret ?_ ?_
    · exact h.congr rfl rfl rfl rfl rfl
    · simp [Reason.byControl]
  · exact hs _ (by simp [Reason.byControl])

theorem keepLevel_levels {P : Work → Prop} (h : Ready cfg st₀ w) (ctl : Ctl) (last : Option ℤ) :
    (keepLevel inp v (w.put { w.st with ctl, lastCtlMs := last }) w.st.ctl.lastChangeMs).Ends
      (Ended cfg inp v st₀) P := by
  refine Ready.ret ?_ ?_
  · exact h.congr rfl rfl rfl rfl rfl
  · split_ifs <;> simp [Reason.byControl]

include hm in
theorem regulate_levels {P : Work → Prop} (h : Ready cfg st₀ w) {lvl : Option ℤ} {ctl : Ctl}
    {why : Reason}
    (ha : (lvl = none ∧ ctl.lastChangeMs = w.st.ctl.lastChangeMs ∧ ¬ why.byControl) ∨
      ∃ l, lvl = some l ∧ cfg.minLevel ≤ l ∧ l ≤ 10 ∧ why.byControl ∧
        (v.level = none → ctl.lastChangeMs = w.st.ctl.lastChangeMs) ∧
        (v.level ≠ none → inp.nowMs - w.st.ctl.lastChangeMs ≥ cfg.minDwellMs)) :
    (regulate cfg inp v w lvl ctl why).Ends (Ended cfg inp v st₀) P := by
  rcases ha with ⟨rfl, hc, hw⟩ | ⟨l, rfl, hlo, hhi, hw, -, hd⟩
  · refine .ite (fun _ => .ite (fun _ => .need fun e _ => ?_) fun _ => ?_) fun _ =>
      .ite (fun _ => ?_) fun _ => keepLevel_levels h _ _
    · refine Acts.ret (sendLevel_acts (Int.le_refl _) hm) ?_
      simp [Reason.byControl]
    · refine Ready.ret ?_ ?_
      · exact h.congr rfl rfl hc rfl rfl
      · simp [Reason.byControl]
    · refine Acts.ret (stop_acts ?_ _ _ _) hw
      exact hc.trans h.same
  · have hcold : ¬ (why = .overheat ∨ why = .targetExceededAtMinLevel) := by
      rcases hw with rfl | rfl <;> simp
    refine .ite (fun hh => absurd hh.1 hcold) fun _ => .ite (fun hh => absurd hh hcold) fun _ =>
      .ite (fun _ => .need fun e _ => ?_) fun _ => keepLevel_levels h _ _
    exact ⟨sendLevel_acts hlo hhi, fun r _ _ hv => h.same ▸ hd hv⟩

include hm in
theorem controlRule_levels {P : Work → Prop} (h : Ready cfg st₀ w) :
    (controlRule cfg inp v w).Ends (Ended cfg inp v st₀) P := by
  have hreason : ¬ (w.reason.getD .autoOn).byControl := by
    rcases hr : w.reason with _ | r
    · simp [Reason.byControl]
    · exact h.reason r hr
  refine .ite (fun _ => h.ret hreason) fun _ => .need fun last _ => .ite (fun _ => h.ret hreason)
    fun _ => .need fun t _ => ?_
  exact regulate_levels hm h (control_answers hm t v.tOut inp.target _ w.st.ctl v.level inp.nowMs)

include hm in
theorem sessionRules_levels {P : Work → Prop} (h : Ready cfg st₀ w) :
    (sessionRules cfg inp v w).Ends (Ended cfg inp v st₀) P :=
  (requestRule_levels hm h).bind fun _ h₁ => (stoppingRule_levels h₁).bind fun _ h₂ =>
    (faultRule_levels h₂).bind fun _ h₃ => (foreignRule_levels h₃).bind fun _ h₄ =>
    (batteryRule_levels h₄).bind fun _ h₅ => (endedRule_levels h₅).bind fun _ h₆ =>
    (referenceRule_levels hm h₆).bind fun _ h₇ => controlRule_levels hm h₇

end Session

theorem Core.no_start (h : Core st) (hm : st.mode = .waiting) :
    ∀ p ∈ st.pending, p.isStart = false := by
  intro p hp
  simp only [Core, hm] at h
  simp [Pending.isStart, h.2.2 p hp]

theorem rules_levels {P : Work → Prop} (hm : cfg.minLevel ≤ 10) (hc : Core st)
    (h : Levels cfg st) :
    (rules cfg inp v ⟨st, [], none⟩).Ends (Ended cfg inp v st) P := by
  have hp := pendingRule_levels cfg inp v hc h
  have hcore := pendingRule_spec cfg inp v hc
  simp only [rules]
  generalize pendingRule cfg inp v ⟨st, [], none⟩ = m at hp hcore
  rcases m with w | x | _
  · have hw : w.st.mode = .waiting → ∀ p ∈ w.st.pending, p.isStart = false :=
      hcore.1.no_start
    exact (waitingRule_levels hm hp hw).bind fun _ h₁ => sessionRules_levels hm h₁
  · exact hp
  · trivial

theorem step_levels {o : Out} {st' : State} (hm : cfg.minLevel ≤ 10) (hw : WellFormed st)
    (h : Levels cfg st) (hs : step cfg inp st = some (o, st')) :
    Levels cfg st' ∧ (∀ c ∈ o.cmds, c.what = .level → LevelOk cfg c.value) ∧
      (st'.ctl.lastChangeMs = st.ctl.lastChangeMs ∨ FirstSent inp st' o.cmds) ∧
      ∀ r ∈ o.reason, r.byControl → (view cfg inp).level ≠ none →
        inp.nowMs - st.ctl.lastChangeMs ≥ cfg.minDwellMs := by
  obtain ⟨x, hx, hx'⟩ := Option.map_eq_some_iff.1 hs
  obtain ⟨rfl, rfl⟩ := Prod.mk.inj hx'
  have hl : (rules cfg inp (view cfg inp) ⟨st, [], none⟩).Ends (Ended cfg inp (view cfg inp) st)
      fun _ => False := rules_levels hm hw.core h
  have hr := hl.bind
    (f := fun w => (.done ⟨w.st, w.cmds, w.reason⟩ : Flow Exit Exit))
    (P := Ended cfg inp (view cfg inp) st) fun _ hf => hf.elim
  obtain ⟨ha, hd⟩ := hr.result hx
  exact ⟨ha.levels.congr rfl rfl rfl, ha.range, ha.change, hd⟩

/-- A record that sends a level or a start for the first time. -/
def Rec.firstSends (r : Rec) : Prop := FirstSent r.inp r.post r.out.cmds

/-- A record of a level that the control law sends to a heater whose level is known. -/
structure ControlSends (cfg : Cfg) (r : Rec) : Prop where
  reason : ∃ why ∈ r.out.reason, why.byControl
  level : ∃ c ∈ r.out.cmds, c.what = .level
  known : (view cfg r.inp).level ≠ none

/-- `last_change_ms` is the clock of the newest first send, whatever came after it. -/
def Stamped (tr : List Rec) (st : State) : Prop :=
  ∀ between f older, tr = between ++ f :: older → f.firstSends →
    (∀ x ∈ between, ¬ x.firstSends) → st.ctl.lastChangeMs = f.inp.nowMs

theorem firstSent_stamp (h : Levels cfg st) {cmds : List Cmd} (hf : FirstSent inp st cmds) :
    st.ctl.lastChangeMs = inp.nowMs := by
  obtain ⟨-, p, hp, hk, hn⟩ := hf
  rw [h.stamp p hp hk, hn]

theorem Stamped.cons {tr : List Rec} {r : Rec} (h : Stamped tr r.pre) (hl : Levels cfg r.post)
    (hc : r.post.ctl.lastChangeMs = r.pre.ctl.lastChangeMs ∨ r.firstSends) :
    Stamped (r :: tr) r.post := by
  intro between f older he hf hn
  cases between with
  | nil =>
    obtain ⟨rfl, rfl⟩ := List.cons.inj he
    exact firstSent_stamp hl hf
  | cons x between =>
    obtain ⟨rfl, rfl⟩ := List.cons.inj he
    have hkeep := hc.resolve_right (hn r List.mem_cons_self)
    exact hkeep.trans (h between f older rfl hf fun x hx => hn x (List.mem_cons_of_mem _ hx))

theorem run_stamped {tr : List Rec} (hm : cfg.minLevel ≤ 10)
    (hr : Run (step cfg) initialState tr st) : Levels cfg st ∧ Stamped tr st := by
  induction hr with
  | nil => exact ⟨levels_of_none (by simp [initialState]), by simp [Stamped]⟩
  | @cons tr s s' inp o hr hs ih =>
    obtain ⟨hl, -, hc, -⟩ := step_levels hm (reachable_wellFormed hr.reachable) ih.1 hs
    exact ⟨hl, ih.2.cons (r := ⟨inp, s, o, s'⟩) hl hc⟩

/-- Every level of a run is in range, and the control law sends none within the dwell after the
first send of the level or start before it. -/
theorem run_levels (cfg : Cfg) (hm : cfg.minLevel ≤ 10) (tr : List Rec) (st : State)
    (hr : Run (step cfg) initialState tr st) :
    (∀ r ∈ tr, ∀ c ∈ r.out.cmds, c.what = .level → LevelOk cfg c.value) ∧
      ∀ newer r between f older, tr = newer ++ r :: (between ++ f :: older) →
        ControlSends cfg r → f.firstSends → (∀ x ∈ between, ¬ x.firstSends) →
        r.inp.nowMs - f.inp.nowMs ≥ cfg.minDwellMs := by
  constructor
  · intro r hmem
    obtain ⟨newer, older, rfl⟩ := List.append_of_mem hmem
    obtain ⟨hold, hs⟩ := hr.split newer
    exact (step_levels hm (reachable_wellFormed hold.reachable) (run_stamped hm hold).1 hs).2.1
  · rintro newer r between f older rfl hc hf hn
    obtain ⟨hold, hs⟩ := hr.split newer
    obtain ⟨hl, hst⟩ := run_stamped hm hold
    obtain ⟨-, -, -, hd⟩ := step_levels hm (reachable_wellFormed hold.reachable) hl hs
    obtain ⟨why, hw, hb⟩ := hc.reason
    rw [← hst between f older rfl hf hn]
    exact hd why hw hb hc.known

/-- The start was taken: the heater runs at the level sent. -/
def startedInput : Input :=
  { startInput with
    nowMs := 10000
    request := none
    heater := some ⟨some 1, some 8, none, none, none, some 1, none⟩
    cmd := some ⟨.power, .ok⟩ }

/-- Five minutes later the cabin is warm. -/
def warmInput : Input :=
  { startedInput with
    nowMs := 310000
    ref := some ⟨"cabin", some 2000, some 0⟩
    cmd := none }

/-- The control law lowers the level of a start once the dwell has passed. -/
theorem run_levels_warm :
    ∃ (tr between : List Rec) (r f : Rec)
    (st : State), Run (step thermoDefaults) initialState tr st ∧
      tr = r :: (between ++ [f]) ∧ ControlSends thermoDefaults r ∧ f.firstSends ∧
      r.inp.nowMs - f.inp.nowMs ≥ thermoDefaults.minDwellMs := by
  have hr := (run_of_exec (step thermoDefaults) initialState [warmInput, startedInput, startInput]
    rfl).1
  refine ⟨_, [_], _, _, _, hr, rfl, ?_, ?_, ?_⟩
  · exact ⟨⟨.levelDown, rfl, .inr rfl⟩, ⟨⟨.level, .num 1⟩, by decide, rfl⟩, by decide⟩
  · exact ⟨⟨.powerOn, by decide, .inr rfl⟩, _, rfl, .inr rfl, rfl⟩
  · refine (run_levels thermoDefaults (by decide) _ _ hr).2 [] _ [_] _ [] rfl ?_ ?_ ?_
    · exact ⟨⟨.levelDown, rfl, .inr rfl⟩, ⟨⟨.level, .num 1⟩, by decide, rfl⟩, by decide⟩
    · exact ⟨⟨.powerOn, by decide, .inr rfl⟩, _, rfl, .inr rfl, rfl⟩
    · simp only [List.mem_singleton, forall_eq]
      rintro ⟨⟨c, hc, -⟩, -⟩
      cases hc

end OpenCalifornia.Thermostat
