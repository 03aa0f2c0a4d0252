import OpenCalifornia.Thermostat.Stopping

/-! # Somebody else's change

Three places where the thermostat could override a change made at the panel: a regulated run
whose expectation no longer holds, the night wait, and a stop that waited for the link. -/

namespace OpenCalifornia.Thermostat
open Lib (Flow)
open Lib.Machine (Run run_of_exec)

variable {cfg : Cfg} {inp : Input} {v : View} {st : State} {w : Work}

/-- The level a frame shows, if it is one. -/
def Heater.level (d : Heater) : Option ℤ := d.heatingLevel.filter fun l => 1 ≤ l ∧ l ≤ 10

/-- A frame shows the heater in another operation, or at another known level. -/
def Heater.differs (d : Heater) (e : Snap) : Prop :=
  d.normal ≠ e.normal ∨ d.permanent ≠ e.permanent ∨
    (d.level ≠ none ∧ e.level ≠ none ∧ d.level ≠ e.level)

theorem Reads.differs_iff {d : Heater} {age : ℤ} {s e : Snap} (h : Reads cfg inp d age)
    (hs : (view cfg inp).snap = some s) : d.differs e ↔ same s e = false := by
  obtain ⟨hn, hp⟩ := h.snap hs
  have hl : s.level = d.level := ((view cfg inp).snap_level s hs).trans h.level
  simp only [Heater.differs, same, hn, hp, hl]
  rw [decide_eq_false_iff_not]
  tauto

theorem Reads.heating_iff {d : Heater} {age : ℤ} (h : Reads cfg inp d age) :
    (view cfg inp).hs.heating = true ↔ d.normal ∨ d.permanent := by
  rw [h.hs]
  cases hp : d.permanent <;> cases hn : d.normal <;> by_cases ht : d.operationMode = some 3 <;>
    simp [ht, HeaterState.heating]

theorem sessionRules_foreign {P : Work → Prop} {s e : Snap} (hon : w.st.mode.on)
    (hoff : ¬ (inp.request = some .off ∨ ¬ inp.enabled)) (hp : w.st.pending = none)
    (he : w.st.expect = some e) (hs : v.snap = some s) (hf : v.hs.faulty = false)
    (hh : v.hs.heating) (hd : same s e = false) :
    (sessionRules cfg inp v w).Meets
      (fun x => x.cmds = [] ∧ x.st.mode = .off ∧ x.why = some .foreignChange) P := by
  rw [sessionRules, requestRule_on hon hoff]
  refine backToRef_spec.bind fun w₁ h₁ => ?_
  have hon₁ : w₁.st.mode.on := by rwa [h₁.mode]
  have hforeign : foreignRule v w₁ = w₁.finish.ret .foreignChange := by
    simp [foreignRule, h₁.pending, hp, hh, hs, h₁.expect, he, hd]
  rw [stoppingRule_on hon₁, Flow.next_bind, onRules, faultRule_fresh (by simp [hs]) hf,
    Flow.next_bind, hforeign]
  exact ⟨rfl, rfl, rfl⟩

theorem step_foreign {d : Heater} {age : ℤ} {e : Snap} (hon : st.mode.on) (hp : st.pending = none)
    (he : st.expect = some e)
    (hread : Reads cfg inp d age) (hh : d.normal ∨ d.permanent) (hd : d.differs e)
    (hoff : ¬ (inp.request = some .off ∨ ¬ inp.enabled)) :
    ∃ x, step cfg inp st = some (out cfg inp (view cfg inp) x) ∧
      x.cmds = [] ∧ x.st.mode = .off ∧ x.why = some .foreignChange := by
  obtain ⟨s, hs⟩ := Option.isSome_iff_exists.mp hread.snap_isSome
  have hidle : pendingRule cfg inp (view cfg inp) ⟨st, [], none⟩ = .next ⟨st, [], none⟩ := by
    simp [pendingRule, hp]
  exact step_of_sessionRules hidle (Mode.on_ne_waiting hon) (sessionRules_foreign hon hoff hp he
    hs hread.faulty (hread.heating_iff.mpr hh) ((hread.differs_iff hs).mp hd))

theorem step_waiting (hw : WellFormed st) (hm : st.mode = .waiting) :
    ∃ x, step cfg inp st = some (out cfg inp (view cfg inp) x) ∧ WaitExit x := by
  refine step_of_rules ?_
  rw [rules]
  have hp := pendingRule_spec cfg inp (view cfg inp) hw.core
  obtain ⟨w, he, hmode, _⟩ := pendingRule_waiting hm
  rw [he, Flow.meets_next] at hp
  rw [he, Flow.next_bind]
  exact (waitingRule_spec cfg view_age hp.1 hmode (hp.2.2.2 (Or.inr hm))).bind fun _ hf => hf.elim

theorem step_stopping_same {s₀ : StopSnapshot} (hw : WellFormed st) (hm : st.mode = .stopping)
    (hs₀ : st.stopSnapshot = some s₀) :
    ∃ x, step cfg inp st = some (out cfg inp (view cfg inp) x) ∧
      ((∃ c ∈ x.cmds, c.isStop) → inp.linkReady ∧
        ∃ d age, Reads cfg inp d age ∧ (d.normal ∨ d.permanent) ∧ ¬ d.differs s₀.toSnap) := by
  obtain ⟨x, hx, hexit⟩ := step_stopping hw hm hs₀
  refine ⟨x, hx, ?_⟩
  rintro ⟨c, hc, hstop⟩
  cases hexit with
  | entered ha hm' hn =>
    have hns := hn c hc
    rw [hstop] at hns
    cases hns
  | refused => cases hc
  | waits => cases hc
  | ended => cases hc
  | @sent s x ha hl hsnap hheat hsame hx' =>
    have hf : (view cfg inp).hs.faulty = false := by
      rcases hhs : (view cfg inp).hs <;> rw [hhs] at hheat <;> first | rfl | cases hheat
    obtain ⟨d, age, hread⟩ := snap_reads hsnap hf
    refine ⟨hl, d, age, hread, hread.heating_iff.mp hheat, fun hd => ?_⟩
    rw [hread.differs_iff hsnap, hsame] at hd
    cases hd

/-- A step that leaves somebody else's change alone. -/
structure Respects (cfg : Cfg) (r : Rec) : Prop where
  regulated : ∀ d age e, r.pre.mode = .auto ∨ r.pre.mode = .degraded → r.pre.pending = none →
    r.pre.expect = some e → Reads cfg r.inp d age → d.normal ∨ d.permanent → d.differs e →
    r.inp.request ≠ some .off → r.inp.enabled →
    r.out.cmds = [] ∧ r.post.mode = .off ∧ r.out.reason = some .foreignChange
  waiting : r.pre.mode = .waiting → r.post.mode = .auto ∨ ∀ c ∈ r.out.cmds, c.isStop
  stopping : r.pre.mode = .stopping → (∃ c ∈ r.out.cmds, c.isStop) →
    r.inp.linkReady ∧ ∃ s₀ d age, r.pre.stopSnapshot = some s₀ ∧ Reads cfg r.inp d age ∧
      (d.normal ∨ d.permanent) ∧ ¬ d.differs s₀.toSnap

theorem step_respects {o : Out} {st' : State} (hw : WellFormed st)
    (hs : step cfg inp st = some (o, st')) : Respects cfg ⟨inp, st, o, st'⟩ := by
  constructor
  · intro d age e hm hp he (hread : Reads cfg inp d age) hh hd hreq hen
    have hon : st.mode.on := Mode.on_iff.mpr hm
    obtain ⟨x, hx, hout⟩ := step_foreign hon hp he hread hh hd (by simpa using ⟨hreq, hen⟩)
    obtain ⟨rfl, rfl⟩ := Prod.mk.inj (Option.some.inj (hs.symm.trans hx))
    exact hout
  · intro hm
    obtain ⟨x, hx, hexit⟩ := step_waiting hw hm
    obtain ⟨rfl, rfl⟩ := Prod.mk.inj (Option.some.inj (hs.symm.trans hx))
    exact hexit.2.2
  · intro hm hstop
    obtain ⟨_, s₀, hs₀, _⟩ := hw.stopping hm
    obtain ⟨x, hx, hsame⟩ := step_stopping_same hw hm hs₀
    obtain ⟨rfl, rfl⟩ := Prod.mk.inj (Option.some.inj (hs.symm.trans hx))
    obtain ⟨hl, d, age, hrest⟩ := hsame hstop
    exact ⟨hl, s₀, d, age, hs₀, hrest⟩

/-- Every step of every run leaves somebody else's change alone. -/
theorem run_respects (cfg : Cfg) (tr : List Rec) (st : State)
    (hr : Run (step cfg) initialState tr st) (r : Rec) (hmem : r ∈ tr) : Respects cfg r := by
  obtain ⟨hreach, hs⟩ := hr.mem hmem
  exact step_respects (reachable_wellFormed hreach) hs

/-- The heater taken over at level 8 is set to level 3 at the panel. -/
def panelLevelInput : Input :=
  { startInput with nowMs := 10000, request := none, heater := some (runningHeater 3) }

theorem run_respects_panel :
    ∃ tr st, Run (step thermoDefaults) initialState tr st ∧
      tr.map Lib.Machine.Record.inp = [panelLevelInput, adoptLevelInput] ∧
      ∃ r ∈ tr, Respects thermoDefaults r ∧ r.out.reason = some .foreignChange := by
  obtain ⟨hr, hi⟩ := run_of_exec (step thermoDefaults) initialState
    [panelLevelInput, adoptLevelInput] rfl
  exact ⟨_, _, hr, hi, _, List.mem_cons_self,
    run_respects thermoDefaults _ _ hr _ List.mem_cons_self, rfl⟩

end OpenCalifornia.Thermostat
