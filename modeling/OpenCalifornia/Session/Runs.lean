import OpenCalifornia.Session.Calls

/-! # Runs of the session

Every record of a run is a step from a state in order to a state in order, and what a step asks of
the platform is known from the operation and the state before it. -/

namespace OpenCalifornia.Session
open Lib Lib.Bits Lib.Machine

abbrev Step := Record (Op × Env) (List Act) State

variable {p : Past} {calls : List Act} {s s' : State} {e : Env} {i : Op × Env} {out : List Act}
  {tr : List Step}

/-- The operations that ask for a link at once, cooldown or not: a probe, the boot, and what takes
the session out of mode off. -/
def Op.atOnce (s : State) : Op → Prop
  | .probe | .boot => True
  | .setMode _ | .command | .connect | .hold _ => s.mode = .off
  | _ => False

/-- What an operation asks of the platform. -/
structure Made (op : Op) (e : Env) (s : State) (asks beats : List Act) (s' : State) : Prop where
  connects : Connects s.now asks
  cool : asks ≠ [] → op.atOnce s ∨ (s'.wasUp = true → s'.downAt + unitCooldownMs ≤ s.now)
  wanted : Beats s e beats
  ticks : beats ≠ [] → op = .tick
  due : op = .tick → s.beatDue e → beats ≠ []

theorem Made.nothing {op : Op} (hop : op ≠ .tick) (e : Env) (s s' : State) :
    Made op e s [] [] s' :=
  ⟨.nil _, fun h => absurd rfl h, (by rintro _ ⟨⟩), fun h => absurd rfl h,
    fun h => absurd h hop⟩

theorem Made.of_log {op : Op} {asks beats log : List Act}
    (h : Made op e { s with log := log } asks beats s') : Made op e s asks beats s' where
  connects := h.connects
  cool hne := (h.cool hne).imp_left fun ha => by cases op <;> exact ha
  wanted := h.wanted
  ticks := h.ticks
  due := h.due

theorem Made.ofOff {op : Op} {cs : List Act} (htick : op ≠ .tick)
    (hop : s.mode = .off → op.atOnce s) (hoff : s.mode ≠ .off → cs = []) (hcs : Connects s.now cs) :
    Made op e s cs [] s' where
  connects := hcs
  cool hne := .inl (hop (by by_contra hm; exact hne (hoff hm)))
  wanted := by rintro _ ⟨⟩
  ticks h := absurd rfl h
  due h := absurd h htick

theorem apply_ok (h : Ok p [] s.core) {op : Op} (hl : op.legal s) (hc : ∀ now, op ≠ .clock now)
    (e : Env) : ∃ asks beats, Ok p (asks ++ beats) (op.apply e s).core ∧
      Made op e s asks beats (op.apply e s) := by
  cases op with
  | boot =>
    obtain ⟨cs, hok, hcs⟩ := boot_ok h (by simpa [Op.legal] using hl) e
    exact ⟨cs, [], by rwa [List.append_nil], hcs, fun _ => .inl trivial, (by rintro _ ⟨⟩),
      fun h => absurd rfl h, (by rintro ⟨⟩)⟩
  | bonded =>
    exact ⟨[], [], onBonded_ok h (by simpa [Op.legal] using hl) e, .nothing (by rintro ⟨⟩) _ _ _⟩
  | stop => exact ⟨[], [], stop_ok h e, .nothing (by rintro ⟨⟩) _ _ _⟩
  | clock now => exact absurd rfl (hc now)
  | tick =>
    obtain ⟨asks, beats, hok, hbeats, hdue, hcool⟩ := tick_ok h e
    exact ⟨asks, beats, hok, hcool.connects, fun hne => .inr (hcool.cool hne), hbeats,
      fun _ => rfl, fun _ => hdue⟩
  | event ev => exact ⟨[], [], onEvent_ok h e ev, .nothing (by rintro ⟨⟩) _ _ _⟩
  | setMode mode =>
    obtain ⟨cs, hok, hoff, hcs⟩ := setMode_ok h e mode
    exact ⟨cs, [], by rwa [List.append_nil], .ofOff (by rintro ⟨⟩) id hoff hcs⟩
  | probe =>
    have hok := startProbe_ok h e
    split_ifs at hok
    · exact ⟨[_], [], hok, Connects.one _ fun _ => rfl, fun _ => .inl trivial, (by rintro _ ⟨⟩),
        fun h => absurd rfl h, (by rintro ⟨⟩)⟩
    · exact ⟨[], [], hok, .nothing (by rintro ⟨⟩) _ _ _⟩
  | command =>
    obtain ⟨cs, hok, hoff, hcs⟩ := wake_ok h e
    exact ⟨cs, [], by rwa [List.append_nil], .ofOff (by rintro ⟨⟩) id hoff hcs⟩
  | connect =>
    obtain ⟨cs, hok, hoff, hcs⟩ := connectButton_ok h e
    exact ⟨cs, [], by rwa [List.append_nil], .ofOff (by rintro ⟨⟩) id hoff hcs⟩
  | hold on =>
    obtain ⟨cs, hok, hoff, hcs⟩ := setHold_ok h e on
    exact ⟨cs, [], by rwa [List.append_nil], .ofOff (by rintro ⟨⟩) id hoff hcs⟩
  | viewer now => exact ⟨[], [], viewer_ok h e now, .nothing (by rintro ⟨⟩) _ _ _⟩
  | input now => exact ⟨[], [], input_ok h e now, .nothing (by rintro ⟨⟩) _ _ _⟩
  | restPoll min => exact ⟨[], [], setRestPoll_ok h min, .nothing (by rintro ⟨⟩) _ _ _⟩
  | warm ms => exact ⟨[], [], h, .nothing (by rintro ⟨⟩) _ _ _⟩
  | heaterMs ms => exact ⟨[], [], h, .nothing (by rintro ⟨⟩) _ _ _⟩

/-- What a step starting in `s` at the time `now` knows of the steps before it. -/
def Past.next (p : Past) (s : State) (now : ℕ) : Past where
  now := now
  losses := p.losses ++ s.core.changes.filterMap fun
    | .linkDown t => some t
    | _ => none
  snapped := s.snapped
  up := s.link = .up
  held := s.link = .up ∧ s.mode = .hold
  since := s.hbSince
  beatAt := s.hbNext

theorem Ok.next (h : Ok p calls s.core) {now : ℕ} (hn : s.now ≤ now) :
    Ok (p.next s now) [] ({ s with log := [], now := now } : State).core where
  quiet := h.quiet
  pending := h.pending
  probing := h.probing
  idle := h.idle
  backoff := h.backoff
  beating := h.beating
  clock := h.clock.trans hn
  poll := h.poll
  cool := h.cool
  losses t ht := by
    cases List.mem_append.mp ht with
    | inl ht => exact h.losses t ht
    | inr ht =>
      obtain ⟨a, ha, hat⟩ := List.mem_filterMap.mp ht
      cases a with
      | linkDown u => exact Option.some.inj hat ▸ h.lost u ha
      | _ => cases hat
  lost := by rintro _ ⟨⟩
  read hs := ⟨(h.read hs).1, .inl ⟨hs, rfl⟩⟩
  since := h.since.trans hn
  held hl hm := .inr ⟨decide_eq_true ⟨hl, hm⟩, rfl, rfl⟩
  nextBeat hl := .inr (.inr ⟨decide_eq_true hl, rfl, rfl⟩)
  calls := rfl
  time := rfl
  opened := h.opened
  linked := h.linked
  restCool := h.restCool
  waiting := h.waiting

/-- Every loss in the run is known. -/
def Known (tr : List Step) (p : Past) (s : State) : Prop :=
  ∀ r ∈ tr, ∀ u, Act.linkDown u ∈ r.out → u ∈ p.losses ∨ Act.linkDown u ∈ s.core.changes

/-- A state in order, with the losses of the run that leads to it. -/
def InOrder (tr : List Step) (s : State) : Prop :=
  ∃ p calls, Ok p calls s.core ∧ Known tr p s

theorem mem_changes {a : Act} (ha : a.isChange = true) : a ∈ s.core.changes ↔ a ∈ s.log :=
  List.mem_filter.trans (and_iff_left ha)

/-- What is known of the step that `r` records, the older records being `tr`. -/
structure Sound (tr : List Step) (r : Step) (p : Past) (asks beats : List Act) : Prop where
  ok : Ok p (asks ++ beats) r.post.core
  made : Made r.inp.1 r.inp.2 r.pre asks beats r.post
  log : r.post.log = r.out
  known : Known (r :: tr) p r.post
  snapped : p.snapped = r.pre.snapped
  up : p.up = true ↔ r.pre.link = .up
  held : p.held = true ↔ r.pre.link = .up ∧ r.pre.mode = .hold
  since : p.since = r.pre.hbSince
  beatAt : p.beatAt = r.pre.hbNext
  clock : r.pre.now ≤ r.post.now

theorem Known.next (h : Known tr p s) (now : ℕ) (hlog : s'.log = out) :
    Known (⟨i, s, out, s'⟩ :: tr) (p.next s now) s' := by
  intro r hr u hu
  cases List.mem_cons.mp hr with
  | inl he =>
    subst he
    exact .inr ((mem_changes rfl).mpr (hlog ▸ hu))
  | inr hr =>
    refine .inl (List.mem_append.mpr ?_)
    obtain hp | hc := h r hr u hu
    · exact .inl hp
    · exact .inr (List.mem_filterMap.mpr ⟨_, hc, rfl⟩)

theorem step_eq (h : step i s = some (out, s')) :
    i.1.legal s = true ∧ i.1.apply i.2 { s with log := [] } = s' ∧ s'.log = out := by
  unfold step at h
  split_ifs at h with hl
  obtain ⟨hout, hs'⟩ := Prod.mk.inj (Option.some.inj h)
  exact ⟨hl, hs', hs' ▸ hout⟩

theorem step_sound (hs : InOrder tr s) (h : step i s = some (out, s')) :
    ∃ p asks beats, Sound tr ⟨i, s, out, s'⟩ p asks beats := by
  obtain ⟨p, calls, hok, hknown⟩ := hs
  obtain ⟨hl, happly, hlog⟩ := step_eq h
  have hup : ∀ now, (p.next s now).up = true ↔ s.link = .up := fun now => decide_eq_true_iff
  have hheld : ∀ now, (p.next s now).held = true ↔ s.link = .up ∧ s.mode = .hold :=
    fun now => decide_eq_true_iff
  by_cases hc : ∃ now, i.1 = .clock now
  · obtain ⟨now, hc⟩ := hc
    rw [hc] at hl happly
    have hn : s.now ≤ now := of_decide_eq_true hl
    have hok' : Ok (p.next s now) [] s'.core := happly ▸ hok.next hn
    have hnow : s'.now = now := hok'.time
    exact ⟨p.next s now, [], [], hok', .nothing (by rw [hc]; rintro ⟨⟩) _ _ _, hlog,
      hknown.next now hlog, rfl, hup now, hheld now, rfl, rfl, hnow ▸ hn⟩
  · have hstart : Ok (p.next s s.now) [] ({ s with log := [] } : State).core := hok.next (le_refl _)
    obtain ⟨asks, beats, hdone, hmade⟩ :=
      apply_ok hstart hl (fun now hn => hc ⟨now, hn⟩) i.2
    rw [happly] at hdone hmade
    have hnow : s'.now = s.now := hdone.time
    exact ⟨p.next s s.now, asks, beats, hdone, hmade.of_log, hlog, hknown.next s.now hlog, rfl,
      hup s.now, hheld s.now, rfl, rfl, hnow.ge⟩

theorem inOrder_start : InOrder [] {} := by
  refine ⟨⟨0, [], false, false, false, 0, 0⟩, [], ?_, fun r hr => absurd hr List.not_mem_nil⟩
  exact {
    quiet := fun _ => rfl
    pending := by rintro ⟨⟩
    probing := by rintro ⟨⟩
    idle := fun _ => ⟨rfl, rfl⟩
    backoff := minBackoff
    beating := by rintro ⟨⟩
    clock := le_refl _
    poll := by decide
    cool := by rintro ⟨⟩
    losses := by rintro _ ⟨⟩
    lost := by rintro _ ⟨⟩
    read := by rintro ⟨⟩
    since := le_refl _
    held := by rintro ⟨⟩
    nextBeat := by rintro ⟨⟩
    calls := rfl
    time := rfl
    opened := fun _ h => absurd rfl h
    linked := by rintro ⟨⟩
    restCool := by rintro ⟨⟩
    waiting := (by rintro ⟨⟩) }

theorem run_inOrder (h : Run step {} tr s) : InOrder tr s := by
  apply @Run.history _ _ _ _ _ _ _ (fun tr s => InOrder tr s) h inOrder_start
  intro tr i s out s' _ hs hstep
  obtain ⟨p, asks, beats, hsound⟩ := step_sound hs hstep
  exact ⟨p, _, hsound.ok, hsound.known⟩

theorem run_sound {newer older : List Step} {r : Step}
    (h : Run step {} (newer ++ r :: older) s) : ∃ p asks beats, Sound older r p asks beats := by
  obtain ⟨hr, hstep⟩ := h.split newer
  exact step_sound (run_inOrder hr) hstep

theorem Sound.mem_calls {r : Step} {asks beats : List Act} (h : Sound tr r p asks beats) {a : Act}
    (ha : a.isCall = true) (hm : a ∈ r.out) : a ∈ asks ∨ a ∈ beats := by
  have hc : a ∈ r.post.core.calls := List.mem_filter.mpr ⟨h.log ▸ hm, ha⟩
  rw [h.ok.calls] at hc
  exact List.mem_append.mp hc

theorem Sound.connect {r : Step} {asks beats : List Act} (h : Sound tr r p asks beats) {t : ℕ}
    {resting probing : Bool} (hm : Act.connect t resting probing ∈ r.out) :
    t = r.pre.now ∧ (resting = true → probing = true) ∧ asks ≠ [] := by
  obtain ha | hb := h.mem_calls rfl hm
  · obtain ⟨resting', probing', heq, himp⟩ := h.made.connects _ ha
    cases heq
    exact ⟨rfl, himp, List.ne_nil_of_mem ha⟩
  · obtain ⟨n, heq, -⟩ := h.made.wanted _ hb
    cases heq

theorem Sound.heartbeat {r : Step} {asks beats : List Act} (h : Sound tr r p asks beats) {n : ℕ}
    (hm : Act.heartbeat n ∈ r.out) :
    r.inp.1 = .tick ∧ r.pre.link = .up ∧ r.pre.hbWanted r.inp.2 = true := by
  obtain ha | hb := h.mem_calls rfl hm
  · obtain ⟨resting, probing, heq, -⟩ := h.made.connects _ ha
    cases heq
  · obtain ⟨n', heq, hup, hw⟩ := h.made.wanted _ hb
    exact ⟨h.made.ticks (List.ne_nil_of_mem hb), hup, hw⟩

end OpenCalifornia.Session
