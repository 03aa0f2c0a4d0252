import OpenCalifornia.Thermostat.OwnerOff

/-! # STOPPING and its news

A stop that could not be sent waits in STOPPING for the link and a fresh heater frame. A
frame counts as fresh by its age alone, so a frame cached from before the request can end the
wait. -/

namespace OpenCalifornia.Thermostat
open Lib (Flow)
open Lib.Machine (Run Record Reachable exec run_of_exec)

variable {cfg : Cfg} {inp : Input} {v : View} {st : State} {w : Work}

/-- The owner asks for AUTO while the owner's own stop waits: the request is answered. -/
def Reconsiders (inp : Input) (s₀ : StopSnapshot) : Prop :=
  inp.request = some .auto ∧ s₀.why = .userOff

/-- Every end of a step in STOPPING. -/
inductive StoppingExit (cfg : Cfg) (inp : Input) (v : View) (st : State) (s₀ : StopSnapshot) :
    Exit → Prop
  | entered {x : Exit} (ha : Reconsiders inp s₀) (hm : x.st.mode = .auto ∨ x.st.mode = .waiting)
      (hc : ∀ c ∈ x.cmds, c.isStop = false) : StoppingExit cfg inp v st s₀ x
  | refused (ha : Reconsiders inp s₀) (why : Refusal) :
      StoppingExit cfg inp v st s₀ ⟨st, [], some (.autoRefused why)⟩
  | waits (ha : ¬ Reconsiders inp s₀) (hn : ¬ (inp.linkReady ∧ v.snap.isSome)) :
      StoppingExit cfg inp v st s₀ ⟨st, [], some .stopping⟩
  | ended {s : Snap} (ha : ¬ Reconsiders inp s₀) (hl : inp.linkReady) (hs : v.snap = some s)
      (hh : v.hs.heating = false ∨ same s s₀.toSnap = false) (why : Reason) :
      StoppingExit cfg inp v st s₀ ⟨{ st with mode := .off, stopSnapshot := none }, [], some why⟩
  | sent {s : Snap} {x : Exit} (ha : ¬ Reconsiders inp s₀) (hl : inp.linkReady)
      (hs : v.snap = some s) (hh : v.hs.heating) (hsame : same s s₀.toSnap)
      (hx : ∃ c ∈ x.cmds, c.isStop) : StoppingExit cfg inp v st s₀ x

theorem takeover_noStop {R : Exit → Prop} (tRef : Option ℤ) (hs : v.snap.isSome) :
    (takeover cfg inp v tRef w).Meets R (fun w' => w'.st.mode = w.st.mode ∧
      ∀ c ∈ w'.cmds, c.isStop = false) := by
  refine .need hs fun snap _ => ?_
  rcases tRef with _ | t
  · exact ⟨rfl, by simp⟩
  · refine .ite (fun _ => ⟨rfl, by simp⟩) fun _ => ⟨rfl, ?_⟩
    simp [Work.sendLevel, Cmd.isStop]

theorem enter_noStop (hcmds : w.cmds = []) (h : refusal cfg inp v.hs v.code = none) :
    (enter cfg inp v w).Meets (fun x => (x.st.mode = .auto ∨ x.st.mode = .waiting) ∧
      ∀ c ∈ x.cmds, c.isStop = false) (fun _ => False) := by
  obtain ⟨_, _, hu, _, _, _, _, _, hv, _⟩ := refusal_eq_none h
  have hs : v.snap.isSome := v.snap_of hu
  have hc : (entered inp w).cmds = [] := by simp [entered, hcmds]
  refine .need (valid_value hv) fun t _ => .ite (fun _ => ?_) fun _ => .ite (fun _ => ?_)
    fun _ => ?_
  · refine .need hs fun snap _ => ?_
    refine .bind (Q := fun w' : Work => w'.st.mode = .waiting ∧
      ∀ c ∈ w'.cmds, c.isStop = false) ?_ fun w' hw' => ⟨Or.inr hw'.1, hw'.2⟩
    refine .ite (fun _ => takeover_noStop _ hs) fun _ => ⟨rfl, ?_⟩
    simp [Work.put, hc]
  · refine ⟨Or.inl rfl, ?_⟩
    simp [startHeater, Cmd.isStop, Cmd.powerOn]
  · exact (takeover_noStop _ hs).bind fun w' hw' => ⟨Or.inl hw'.1, hw'.2⟩

theorem held_stopping {s₀ : StopSnapshot} (hm : st.mode = .stopping) (hp : st.pending = none)
    (hs₀ : st.stopSnapshot = some s₀) : held st = .next (some s₀.why) := by
  simp [held, hm, hp, hs₀]

theorem stop_now {e : Snap} (he : st.expect = some e) (hh : e.heating) (now : ℤ) (why : Reason) :
    ∃ c ∈ (stop st true now why).1, c.isStop := by
  rcases stop_cases st true now why with ⟨_, hn⟩ | ⟨what, e', hw, _, _, ⟨_, h⟩ | ⟨hf, _⟩⟩
  · have hn' := hn e he
    rw [hh] at hn'
    cases hn'
  · rw [h]
    exact ⟨_, List.mem_singleton_self _, by simpa [Cmd.isStop] using hw⟩
  · cases hf

theorem stoppingRule_cases {s₀ : StopSnapshot} {r : Option Reason} (hm : st.mode = .stopping)
    (hs₀ : st.stopSnapshot = some s₀) (hh : s₀.heating) (ha : ¬ Reconsiders inp s₀) :
    (stoppingRule inp v ⟨st, [], r⟩).Meets (StoppingExit cfg inp v st s₀) (fun _ => False) := by
  rw [stoppingRule, if_pos hm]
  rcases hs : v.snap with _ | s
  · exact .waits ha (by simp [hs])
  · refine .ite (fun hl => .waits ha (by simp [hl])) fun hl => ?_
    have hl' : inp.linkReady := by simpa using hl
    rw [hs₀, Flow.need_some, Flow.next_bind]
    refine .ite (fun hn => ?_) fun hheat => .ite (fun hd => ?_) fun hsame => ?_
    · exact .ended ha hl' hs (Or.inl (by simpa using hn)) _
    · exact .ended ha hl' hs (Or.inr (by simpa using hd)) _
    · refine .sent ha hl' hs (by simpa using hheat) (by simpa using hsame) ?_
      exact stop_now (e := s₀.toSnap) rfl hh _ _

theorem step_stopping {s₀ : StopSnapshot} (hw : WellFormed st) (hm : st.mode = .stopping)
    (hs₀ : st.stopSnapshot = some s₀) :
    ∃ x, step cfg inp st = some (out cfg inp (view cfg inp) x) ∧
      StoppingExit cfg inp (view cfg inp) st s₀ x := by
  obtain ⟨hp, s, hs, hh⟩ := hw.stopping hm
  obtain rfl : s₀ = s := Option.some.inj (hs₀.symm.trans hs)
  have hheat : s₀.heating := by simpa [Snap.heating] using hh
  have hidle : pendingRule cfg inp (view cfg inp) ⟨st, [], none⟩ = .next ⟨st, [], none⟩ := by
    simp [pendingRule, hp]
  have hoff : ¬ st.mode.on := by simp [hm, Mode.on]
  refine step_of_sessionRules hidle (by simp [hm]) ?_
  have hreq : requestRule cfg inp (view cfg inp) ⟨st, [], none⟩ = _ := if_neg fun h => hoff h.1
  rw [sessionRules, hreq, held_stopping hm hp hs₀, Flow.next_bind]
  by_cases ha : inp.request = some .auto
  · rw [if_pos ⟨ha, hoff⟩]
    by_cases hu : s₀.why = .userOff
    · rw [if_neg (by simp [hu])]
      rcases hr : refusal cfg inp (view cfg inp).hs (view cfg inp).code with _ | why
      · have hen : (enter cfg inp (view cfg inp) ⟨st, [], none⟩).Meets
            (StoppingExit cfg inp (view cfg inp) st s₀) (fun _ => False) :=
          (enter_noStop rfl hr).weaken fun x hx => .entered ⟨ha, hu⟩ hx.1 hx.2
        exact hen.bind fun _ hf => hf.elim
      · exact .refused ⟨ha, hu⟩ why
    · rw [if_pos (by simpa using hu)]
      exact (stoppingRule_cases hm hs₀ hheat fun h => hu h.2).bind fun _ hf => hf.elim
  · rw [if_neg fun h => ha h.1]
    have hback : backToRef cfg inp (view cfg inp) ⟨st, [], none⟩ = .next ⟨st, [], none⟩ :=
      if_neg fun h => ha h.1
    rw [hback, Flow.next_bind]
    exact (stoppingRule_cases hm hs₀ hheat fun h => ha h.1).bind fun _ hf => hf.elim

/-- When the stop that waits was requested: the clock of the step that entered STOPPING. -/
def stopRequestedAt : List Rec → Option ℤ
  | [] => none
  | r :: tr => if r.pre.mode = .stopping then stopRequestedAt tr else some r.inp.nowMs

/-- The step ends STOPPING, and sends no stop. -/
def Rec.endsUnstopped (r : Rec) : Prop :=
  r.pre.mode = .stopping ∧ r.post.mode = .off ∧ ∀ c ∈ r.out.cmds, c.isStop = false

/-- The fresh frame of the step was read when the stop had been requested. -/
def News (cfg : Cfg) (older : List Rec) (inp : Input) : Prop :=
  ∃ d age t, FreshFrame cfg inp d ∧ inp.heaterAgeMs = some age ∧
    stopRequestedAt older = some t ∧ t ≤ inp.readAt age

/-- A step in STOPPING with the link ready and a fresh frame from before the request, on which
the heater no longer is as it was. -/
def OldNews (cfg : Cfg) (older : List Rec) (inp : Input) (st : State) : Prop :=
  ∃ s₀ d age t, st.mode = .stopping ∧ st.stopSnapshot = some s₀ ∧ ¬ Reconsiders inp s₀ ∧
    inp.linkReady ∧ FreshFrame cfg inp d ∧ inp.heaterAgeMs = some age ∧
    stopRequestedAt older = some t ∧ inp.readAt age < t ∧
    ((view cfg inp).hs.heating = false ∨
      ∃ s, (view cfg inp).snap = some s ∧ same s s₀.toSnap = false)

theorem stopRequestedAt_some {tr : List Rec} (hr : Run (step cfg) initialState tr st)
    (hm : st.mode = .stopping) : ∃ t, stopRequestedAt tr = some t := by
  induction hr with
  | nil => cases hm
  | @cons tr s s' i o hr hs ih =>
    by_cases hpre : s.mode = .stopping
    · obtain ⟨t, ht⟩ := ih hpre
      exact ⟨t, by simp [stopRequestedAt, hpre, ht]⟩
    · exact ⟨i.nowMs, by simp [stopRequestedAt, hpre]⟩

theorem FreshFrame.snap {d : Heater} (h : FreshFrame cfg inp d) :
    (view cfg inp).snap.isSome := by
  obtain ⟨hd, age, ha, hfresh⟩ := h
  refine View.snap_of _ ?_
  have hle : ¬ age > cfg.heaterStaleMs := by omega
  simp only [view, hd, ha, heaterState, if_neg hle]
  split_ifs <;> simp

theorem news_of_ended {tr : List Rec} {o : Out} {st' : State}
    (hr : Run (step cfg) initialState tr st) (hs : step cfg inp st = some (o, st'))
    (he : Rec.endsUnstopped ⟨inp, st, o, st'⟩) (hn : ¬ OldNews cfg tr inp st) :
    News cfg tr inp := by
  obtain ⟨hm, hoff, hcmds⟩ := he
  have hw := reachable_wellFormed hr.reachable
  obtain ⟨_, s₀, hs₀, _⟩ := hw.stopping hm
  obtain ⟨x, hx, hexit⟩ := step_stopping hw hm hs₀
  obtain ⟨rfl, rfl⟩ := Prod.mk.inj (Option.some.inj (hs.symm.trans hx))
  cases hexit with
  | entered ha hm' hc =>
    have hoff' : x.st.mode = .off := hoff
    rcases hm' with hm' | hm' <;> rw [hm'] at hoff' <;> cases hoff'
  | refused ha why =>
    have hoff' : st.mode = .off := hoff
    rw [hm] at hoff'
    cases hoff'
  | waits ha hl =>
    have hoff' : st.mode = .off := hoff
    rw [hm] at hoff'
    cases hoff'
  | @ended s ha hl hsnap hh why =>
    obtain ⟨d, hd, _⟩ := snap_freshFrame hsnap
    obtain ⟨age, hage, _⟩ := hd.2
    obtain ⟨t, ht⟩ := stopRequestedAt_some hr hm
    refine ⟨d, age, t, hd, hage, ht, ?_⟩
    by_contra hlt
    exact hn ⟨s₀, d, age, t, hm, hs₀, ha, hl, hd, hage, ht, by omega,
      hh.imp_right fun hsame => ⟨s, hsnap, hsame⟩⟩
  | sent ha hl hsnap hh hsame hstop =>
    obtain ⟨c, hc, hs⟩ := hstop
    have hns := hcmds c hc
    rw [hs] at hns
    cases hns

theorem ended_of_oldNews {tr : List Rec} {o : Out} {st' : State} (hw : WellFormed st)
    (hs : step cfg inp st = some (o, st')) (h : OldNews cfg tr inp st) :
    Rec.endsUnstopped ⟨inp, st, o, st'⟩ ∧ ¬ News cfg tr inp := by
  obtain ⟨s₀, d, age, t, hm, hs₀, ha, hl, hd, hage, ht, hlt, hh⟩ := h
  have hnews : ¬ News cfg tr inp := by
    rintro ⟨d', age', t', _, hage', ht', hle⟩
    obtain rfl : age = age' := Option.some.inj (hage.symm.trans hage')
    obtain rfl : t = t' := Option.some.inj (ht.symm.trans ht')
    omega
  refine ⟨?_, hnews⟩
  obtain ⟨x, hx, hexit⟩ := step_stopping hw hm hs₀
  obtain ⟨rfl, rfl⟩ := Prod.mk.inj (Option.some.inj (hs.symm.trans hx))
  cases hexit with
  | entered ha' => exact absurd ha' ha
  | refused ha' => exact absurd ha' ha
  | waits ha' hn => exact absurd ⟨hl, hd.snap⟩ hn
  | ended => exact ⟨hm, rfl, by simp⟩
  | @sent s x ha' hl' hsnap hheat hsame hx' =>
    rcases hh with hh | ⟨s', hs', hd'⟩
    · rw [hheat] at hh
      cases hh
    · obtain rfl : s = s' := Option.some.inj (hsnap.symm.trans hs')
      rw [hsame] at hd'
      cases hd'

/-- In a run STOPPING ends without a stop on news only, exactly as long as no step of it meets
`OldNews`. -/
theorem run_stopping_news (cfg : Cfg) (tr : List Rec) (st : State)
    (hr : Run (step cfg) initialState tr st) :
    (∀ newer r older, tr = newer ++ r :: older → r.endsUnstopped → News cfg older r.inp) ↔
      ∀ newer r older, tr = newer ++ r :: older → ¬ OldNews cfg older r.inp r.pre := by
  constructor
  · rintro h newer r older rfl hold
    obtain ⟨hr', hs⟩ := hr.split newer
    have hend := ended_of_oldNews (reachable_wellFormed hr'.reachable) hs hold
    exact hend.2 (h newer r older rfl hend.1)
  · rintro h newer r older rfl hend
    obtain ⟨hr', hs⟩ := hr.split newer
    exact news_of_ended hr' hs hend (h newer r older rfl)

/-- The owner's OFF with the link down, a frame of one second before already showing the
heater off; then the link is back, and the frame is still that one. -/
def linkDownInput : Input :=
  { startInput with
    nowMs := 10000, request := some .off, linkReady := false, heaterAgeMs := some 1000
    heater := some ⟨some 1, some 0, none, none, none, none, none⟩ }

def cachedInput : Input :=
  { linkDownInput with
    nowMs := 11000, request := none, linkReady := true, heaterAgeMs := some 2000 }

/-- A running heater at the level the controller wants: taken over without a command. -/
def adoptLevelInput : Input := { startInput with heater := some (runningHeater 8) }

theorem run_stopping_news_cached :
    ∃ tr st, Run (step thermoDefaults) initialState tr st ∧
      ((∀ newer r older, tr = newer ++ r :: older → r.endsUnstopped →
          News thermoDefaults older r.inp) ↔
        ∀ newer r older, tr = newer ++ r :: older →
        ¬ OldNews thermoDefaults older r.inp r.pre) := by
  obtain ⟨hr, _⟩ := run_of_exec (step thermoDefaults) initialState
    [cachedInput, linkDownInput, adoptLevelInput] rfl
  exact ⟨_, _, hr, run_stopping_news thermoDefaults _ _ hr⟩

/-- The frame cached from before the request ends STOPPING. -/
theorem cached_frame_ends_stopping :
    ∃ tr st, Run (step thermoDefaults) initialState tr st ∧
      tr.map Record.inp = [cachedInput, linkDownInput, adoptLevelInput] ∧
      ∃ newer r older, tr = newer ++ r :: older ∧ r.endsUnstopped ∧
        ¬ News thermoDefaults older r.inp := by
  obtain ⟨hr, hi⟩ := run_of_exec (step thermoDefaults) initialState
    [cachedInput, linkDownInput, adoptLevelInput] rfl
  refine ⟨_, _, hr, hi, [], _, _, rfl, ⟨rfl, rfl, by decide⟩, ?_⟩
  rintro ⟨d, age, t, _, hage, ht, hle⟩
  obtain rfl : 2000 = age := Option.some.inj hage
  obtain rfl : 10000 = t := Option.some.inj ht
  exact absurd hle (by decide)

end OpenCalifornia.Thermostat
