import OpenCalifornia.Thermostat.Starts

/-! # The owner's OFF

An OFF request, or the feature disabled, reaches one step only. The proofs follow it through
rule (1), which may look at a pending command first, to the rule that stops the heater. The
one case in which rule (1) ends the run before is a heater that someone else moved while an
own level command was pending. -/

namespace OpenCalifornia.Thermostat
open Lib (Flow)
open Lib.Machine (Reachable exec run_of_exec)

variable {cfg : Cfg} {inp : Input} {v : View} {st : State} {w : Work}

/-- A heater frame no older than `heater_stale_ms`. -/
def FreshFrame (cfg : Cfg) (inp : Input) (d : Heater) : Prop :=
  inp.heater = some d ∧ ∃ age, inp.heaterAgeMs = some age ∧ age ≤ cfg.heaterStaleMs

/-- Someone else moved the heater while an own level command was pending: a reading taken
after the send shows a third level, or another operation than expected. -/
def MovedDuringLevel (cfg : Cfg) (inp : Input) (st : State) : Prop :=
  st.mode.on ∧ ∃ p e d age, st.pending = some p ∧ p.what = .level ∧ st.expect = some e ∧
    Reads cfg inp d age ∧ p.sinceMs ≤ inp.readAt age ∧
    ((∃ l, d.heatingLevel = some l ∧ 1 ≤ l ∧ l ≤ 10 ∧ .num l ≠ p.value ∧ some l ≠ p.before) ∨
      d.normal ≠ e.normal ∨ d.permanent ≠ e.permanent)

/-- The step stops the heater, or the stop is still to be sent. -/
def Stops (o : Out) (st : State) : Prop := st.mode = .stopping ∨ ∃ c ∈ o.cmds, c.isStop

theorem snap_freshFrame {s : Snap} (hs : (view cfg inp).snap = some s) :
    ∃ d, FreshFrame cfg inp d ∧ s.heating = (d.normal || d.permanent) := by
  have hu : (view cfg inp).hs ≠ .unknown := by
    have := (view cfg inp).snap_isSome
    simpa [hs] using this
  obtain ⟨d, age, hd, ha, hfresh⟩ := heaterState_known hu
  obtain ⟨f, hf, rfl⟩ := mem_snapView hs
  obtain rfl : d = f := Option.some.inj (hd.symm.trans hf)
  exact ⟨d, ⟨hd, age, ha, hfresh⟩, rfl⟩

theorem stop_heating {e : Snap} (he : st.expect = some e) (hh : e.heating) (canSend : Bool)
    (now : ℤ) (why : Reason) :
    (stop st canSend now why).2.mode = .stopping ∨
      ∃ c ∈ (stop st canSend now why).1, c.isStop := by
  rcases stop_cases st canSend now why with ⟨_, hn⟩ | ⟨what, e', hw, _, _, ⟨_, h⟩ | ⟨_, h⟩⟩
  · have hn' := hn e he
    rw [hh] at hn'
    cases hn'
  · rw [h]
    exact Or.inr ⟨_, List.mem_singleton_self _, by simpa [Cmd.isStop] using hw⟩
  · rw [h]
    exact Or.inl rfl

theorem sessionRules_off {P : Work → Prop} {e : Snap} (hon : w.st.mode.on)
    (hoff : inp.request = some .off ∨ ¬ inp.enabled) (he : w.st.expect = some e)
    (hh : e.heating) :
    (sessionRules cfg inp v w).Meets
      (fun x => x.st.mode = .stopping ∨ ∃ c ∈ x.cmds, c.isStop) P := by
  have hreq : requestRule cfg inp v w = _ := if_pos ⟨hon, hoff⟩
  rw [sessionRules, hreq]
  exact stop_heating he hh _ _ _

theorem waitingRule_off {e : Snap} (hm : w.st.mode = .waiting)
    (hoff : inp.request = some .off ∨ ¬ inp.enabled) (he : w.st.expect = some e)
    (hh : e.heating) (hs : ∀ s, v.snap = some s → s.heating) :
    (waitingRule cfg inp v w).Meets
      (fun x => x.st.mode = .stopping ∨ ∃ c ∈ x.cmds, c.isStop) (fun _ => False) := by
  have hseen : ∃ e', (seen v w).st.expect = some e' ∧ e'.heating := by
    rcases hsnap : v.snap with _ | s
    · exact ⟨e, by simpa [seen, hsnap] using he, hh⟩
    · exact ⟨s, by simp [seen, hsnap, Work.put], hs s hsnap⟩
  obtain ⟨e', he', hh'⟩ := hseen
  have hwait : waitingRule cfg inp v w = waiting cfg inp v (seen v w) := by
    simp [waitingRule, hm]
  have hstop : waiting cfg inp v (seen v w) = _ := if_pos hoff
  rw [hwait, hstop]
  exact stop_heating he' hh' _ _ _

theorem movedDuringLevel_of_movedBy {p : Pending} {e : Snap} (hon : st.mode.on)
    (hp : st.pending = some p) (he : st.expect = some e)
    (h : movedBy inp (view cfg inp) p e) : MovedDuringLevel cfg inp st := by
  simp only [movedBy, decide_eq_true_eq, Option.any_eq_true] at h
  obtain ⟨hl, hf, snap, hpost, hdiff⟩ := h
  obtain ⟨hsnap, hsince⟩ := post_eq_some hpost
  obtain ⟨d, age, hread⟩ := snap_reads hsnap (by simpa using hf)
  obtain ⟨hnorm, hperm⟩ := hread.snap hsnap
  refine ⟨hon, p, e, d, age, hp, hl, he, hread, hread.readSince.mp hsince, ?_⟩
  rcases hdiff with ⟨hk, hv, hb⟩ | hdiff
  · obtain ⟨l, hl⟩ := Option.ne_none_iff_exists'.mp hk
    rw [hl] at hv hb
    rw [hread.level] at hl
    obtain ⟨hd, hrange⟩ := Option.filter_eq_some_iff.mp hl
    simp only [decide_eq_true_eq] at hrange
    exact Or.inl ⟨l, hd, hrange.1, hrange.2, hv, hb⟩
  · rw [hnorm, hperm] at hdiff
    exact Or.inr hdiff

/-- While on, rule (1) hands an OFF on with a heating expectation, unless the heater moved. -/
theorem pendingRule_off {e : Snap} (hc : Core st) (hon : st.mode.on)
    (hoff : inp.request = some .off ∨ ¬ inp.enabled) (he : st.expect = some e) (hh : e.heating)
    (hstart : ∀ p, st.pending = some p → p.isStart = false)
    (hs : ∀ s, (view cfg inp).snap = some s → s.heating)
    (hn : ¬ MovedDuringLevel cfg inp st) :
    ∃ w e', pendingRule cfg inp (view cfg inp) ⟨st, [], none⟩ = .next w ∧
      w.st.mode = st.mode ∧ w.st.expect = some e' ∧ e'.heating := by
  have hlevel {p : Pending} (hp : st.pending = some p) (hm : st.mode ≠ .waiting) :
      p.what = .level ∧ p.value ≠ .off := by
    rcases hc.off_of_pending hp hm with ⟨ho, _⟩ | ⟨_, hs | hl⟩
    · rw [ho] at hon
      cases hon
    · rw [hstart p hp] at hs
      cases hs
    · exact hl
  have hcases := pendingRule_cases cfg inp (view cfg inp) hc
  generalize pendingRule cfg inp (view cfg inp) ⟨st, [], none⟩ = m at hcases ⊢
  cases hcases with
  | idle hp => exact ⟨_, e, rfl, rfl, he, hh⟩
  | preset hm =>
    rw [hm] at hon
    cases hon
  | moved hm hp he' hmv => exact absurd (movedDuringLevel_of_movedBy hon hp he' hmv) hn
  | @landed p snap hm hp hpost ha =>
    exact ⟨_, snap, rfl, rfl, rfl, hs snap (post_eq_some hpost).1⟩
  | keep => exact ⟨_, e, rfl, rfl, he, hh⟩
  | failed hm hp ho =>
    refine absurd ⟨(hlevel hp hm).1, ?_⟩ ho
    simpa [ownerOff, hon] using hoff
  | dropped hm hp hv => exact absurd hv (hlevel hp hm).2
  | busy => exact ⟨_, e, rfl, rfl, he, hh⟩
  | retry => exact ⟨_, e, rfl, rfl, he, hh⟩

theorem pendingRule_waiting (hm : st.mode = .waiting) :
    ∃ w, pendingRule cfg inp v ⟨st, [], none⟩ = .next w ∧ w.st.mode = .waiting ∧
      w.st.expect = st.expect := by
  rcases hp : st.pending with _ | p
  · exact ⟨⟨st, [], none⟩, by simp [pendingRule, hp], hm, rfl⟩
  · simp only [pendingRule, hp, if_pos hm]
    split_ifs
    · exact ⟨_, rfl, hm, rfl⟩
    · exact ⟨_, rfl, hm, rfl⟩

theorem step_off {e : Snap} (hw : WellFormed st) (hm : st.mode.on ∨ st.mode = .waiting)
    (hoff : inp.request = some .off ∨ ¬ inp.enabled) (he : st.expect = some e) (hh : e.heating)
    (hstart : ∀ p, st.pending = some p → p.isStart = false)
    (hs : ∀ s, (view cfg inp).snap = some s → s.heating)
    (hn : ¬ MovedDuringLevel cfg inp st) :
    ∃ x, step cfg inp st = some (out cfg inp (view cfg inp) x) ∧
      (x.st.mode = .stopping ∨ ∃ c ∈ x.cmds, c.isStop) := by
  rcases hm with hon | hm
  · obtain ⟨w, e', hp, hmode, he', hh'⟩ := pendingRule_off hw.core hon hoff he hh hstart hs hn
    have hon' : w.st.mode.on := by rwa [hmode]
    exact step_of_sessionRules hp (Mode.on_ne_waiting hon') (sessionRules_off hon' hoff he' hh')
  · obtain ⟨w, hp, hmode, he'⟩ := pendingRule_waiting hm
    refine step_of_rules ?_
    rw [rules, hp, Flow.next_bind]
    exact (waitingRule_off hmode hoff (he'.trans he) hh hs).bind fun _ hf => hf.elim

/-- Unless someone else moved the heater during an own level command, an OFF in a run that
heats stops the heater or leaves the stop to be sent. -/
theorem ownerOff_stops (cfg : Cfg) (inp : Input) (st st' : State) (o : Out) (e : Snap)
    (hr : Reachable (step cfg) initialState st)
    (hm : st.mode = .auto ∨ st.mode = .degraded ∨ st.mode = .waiting)
    (he : st.expect = some e) (hh : e.normal ∨ e.permanent)
    (hstart : ∀ p, st.pending = some p → ¬ (p.what = .power ∧ p.value = .on))
    (hoff : inp.request = some .off ∨ inp.enabled = false)
    (hfresh : ∀ d, FreshFrame cfg inp d → d.normal ∨ d.permanent)
    (hn : ¬ MovedDuringLevel cfg inp st) (hs : step cfg inp st = some (o, st')) :
    Stops o st' := by
  have hmode : st.mode.on ∨ st.mode = .waiting := by
    rcases hm with hm | hm | hm <;> simp [hm, Mode.on]
  have hpend (p) (hp : st.pending = some p) : p.isStart = false := by
    simpa [Pending.isStart] using hstart p hp
  have hsnap (s) (hs : (view cfg inp).snap = some s) : s.heating = true := by
    obtain ⟨d, hd, heq⟩ := snap_freshFrame hs
    simpa [heq] using hfresh d hd
  obtain ⟨x, hx, hstops⟩ := step_off (reachable_wellFormed hr) hmode
    (by simpa using hoff) he (by simpa [Snap.heating] using hh) hpend hsnap hn
  obtain ⟨rfl, rfl⟩ := Prod.mk.inj (Option.some.inj (hs.symm.trans hx))
  exact hstops

def runningHeater (level : ℤ) : Heater := ⟨some 1, some level, none, none, none, some 1, none⟩

/-- An AUTO request to a running heater: it is taken over with a level command. -/
def adoptInput : Input := { startInput with heater := some (runningHeater 5) }

/-- The owner's OFF ten seconds later, with the heater at a level. -/
def offInput (level : ℤ) : Input :=
  { startInput with
    nowMs := 10000, request := some .off, heater := some (runningHeater level)
    cmd := some ⟨.level, .ok⟩ }

theorem offInput_fresh {level : ℤ} {d : Heater} (h : FreshFrame thermoDefaults (offInput level) d) :
    d.normal := by
  obtain rfl : runningHeater level = d := Option.some.inj h.1
  rfl

theorem ownerOff_stops_applied :
    ∃ o st', step thermoDefaults (offInput 8)
      ((exec (step thermoDefaults) initialState [adoptInput]).get rfl).2 = some (o, st') ∧
      Stops o st' := by
  obtain ⟨hr, _⟩ := run_of_exec (step thermoDefaults) initialState [adoptInput] rfl
  refine ⟨_, _, rfl, ownerOff_stops thermoDefaults (offInput 8) _ _ _ _ hr.reachable
    (Or.inl rfl) rfl (Or.inl rfl) ?_ (Or.inl rfl) (fun d hd => Or.inl (offInput_fresh hd)) ?_ rfl⟩
  · intro p hp
    obtain rfl : pend .level (.num 8) 0 (some 5) none = p := Option.some.inj hp
    decide
  · rintro ⟨_, p, e, d, age, hp, _, he, hread, _, h⟩
    obtain rfl : pend .level (.num 8) 0 (some 5) none = p := Option.some.inj hp
    obtain rfl : (⟨true, false, some 8⟩ : Snap) = e := Option.some.inj he
    obtain rfl : runningHeater 8 = d := Option.some.inj hread.heater
    rcases h with ⟨l, hl, _, _, hne, _⟩ | h | h
    · obtain rfl : 8 = l := Option.some.inj hl
      exact hne rfl
    · exact h rfl
    · exact h rfl

/-- A third level seen during an own level command ends the run, and the OFF with it. -/
theorem ownerOff_lost :
    ∃ st o st' e, Reachable (step thermoDefaults) initialState st ∧ st.mode = .auto ∧
      st.expect = some e ∧ e.normal = true ∧
      (∀ p, st.pending = some p → ¬ (p.what = .power ∧ p.value = .on)) ∧
      (∀ d, FreshFrame thermoDefaults (offInput 3) d → d.normal = true) ∧
      step thermoDefaults (offInput 3) st = some (o, st') ∧ st'.mode = .off ∧ o.cmds = [] ∧
      ¬ Stops o st' := by
  obtain ⟨hr, _⟩ := run_of_exec (step thermoDefaults) initialState [adoptInput] rfl
  refine ⟨_, _, _, _, hr.reachable, rfl, rfl, rfl, ?_, fun d => offInput_fresh, rfl, rfl, rfl, ?_⟩
  · intro p hp
    obtain rfl : pend .level (.num 8) 0 (some 5) none = p := Option.some.inj hp
    decide
  · rintro (h | ⟨c, hc, _⟩)
    · cases h
    · cases hc

end OpenCalifornia.Thermostat
