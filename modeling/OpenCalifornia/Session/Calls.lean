import OpenCalifornia.Session.Link

/-! # Every operation keeps the link in order

What an operation asks of the platform is part of each lemma: a connect at the present time, by a
probe only while the session rests or is off. -/

namespace OpenCalifornia.Session
open Lib Lib.Bits

variable {p : Past} {calls : List Act} {s : State} {e : Env}

/-- Connects of this moment, by a probe only where the session rests or is off. -/
def Connects (now : ℕ) (cs : List Act) : Prop :=
  ∀ a ∈ cs, ∃ resting probing, a = .connect now resting probing ∧
    (resting = true → probing = true)

theorem Connects.nil (now : ℕ) : Connects now [] := by rintro _ ⟨⟩

theorem Connects.one (now : ℕ) {resting probing : Bool} (h : resting = true → probing = true) :
    Connects now [.connect now resting probing] := by
  intro a ha
  cases List.mem_singleton.mp ha
  exact ⟨resting, probing, rfl, h⟩

theorem Ok.not_probing (h : Ok p calls s.core) (hl : s.link = .down) : s.probe = false := by
  cases hp : s.probe with
  | false => rfl
  | true => exact absurd hl (h.linked hp)

theorem setMode_on (h : Ok p [] s.core) (ha : s.active = true) {mode : Mode} (hm : mode ≠ .off)
    (hne : mode ≠ s.mode) : ∃ cs, Ok p cs (s.setMode e mode).core ∧
      (s.mode ≠ .off → cs = []) ∧ Connects s.now cs := by
  set s₁ : State := if mode = .hold then { s with mode := mode, hbSince := s.now }
    else { s with mode := mode } with hs₁
  have hend : s.setMode e mode =
      if s₁.link = .down ∧ ¬ s₁.reconnectPending ∧ ¬ s₁.rest then
        { s₁ with backoff := backoffMinMs }.connectNow e
      else s₁ := by
    unfold State.setMode
    rw [if_neg hne]
    dsimp only
    rw [if_neg (not_not_intro ha), if_neg hm]
  have hb : Base p [] s₁.core := by
    rw [hs₁]
    split_ifs with hh
    · exact { h with
        quiet := fun hq => h.quiet (.inl (hq.resolve_right hm))
        since := le_refl _
        held := fun _ _ => .inl rfl }
    · exact { h with
        quiet := fun hq => h.quiet (.inl (hq.resolve_right hm))
        held := fun _ hh' => absurd hh' hh }
  have hlink : s₁.link = s.link := by rw [hs₁]; split_ifs <;> rfl
  have hrest : s₁.rest = s.rest := by rw [hs₁]; split_ifs <;> rfl
  have hpend : s₁.reconnectPending = s.reconnectPending := by rw [hs₁]; split_ifs <;> rfl
  have hprobe : s₁.probe = s.probe := by rw [hs₁]; split_ifs <;> rfl
  have hact : s₁.active = s.active := by rw [hs₁]; split_ifs <;> rfl
  have hnow : s₁.now = s.now := by rw [hs₁]; split_ifs <;> rfl
  have hmode : s₁.mode = mode := by rw [hs₁]; split_ifs <;> rfl
  have hrestCool : s₁.core.rest = true → s₁.core.wasUp = true → s₁.core.link = .down →
      s₁.core.restPollMs ≠ 0 → s₁.core.downAt + unitCooldownMs ≤ s₁.core.restNext := by
    rw [hs₁]
    split_ifs <;> exact h.restCool
  have hoff : s.mode ≠ .off → s₁.link = .down → s₁.rest = false → s₁.reconnectPending = true := by
    rw [hlink, hrest, hpend]
    exact fun hm' hl hr => h.waiting ha hl hm' hr
  rw [hend]
  by_cases hc : s₁.link = .down ∧ ¬ s₁.reconnectPending ∧ ¬ s₁.rest
  · rw [if_pos hc]
    obtain ⟨hl, hp, hr⟩ := hc
    have hp' : s₁.reconnectPending = false := by simpa using hp
    have hr' : s₁.rest = false := by simpa using hr
    have hlose : Losing p [] ({ s₁ with backoff := backoffMinMs } : State).core :=
      { hb with
        backoff := minBackoff
        notPending := hp'
        resting := fun hr'' => absurd hr'' hr }
    have hgo := connectNow_ok (e := e) hlose (hact.trans ha) hl fun hm' =>
      absurd (hmode.symm.trans hm') hm
    refine ⟨_, hgo, fun hm' => absurd (hoff hm' hl hr') hp, ?_⟩
    rw [show ({ s₁ with backoff := backoffMinMs } : State).now = s.now from hnow]
    refine Connects.one _ fun hq => ?_
    rw [decide_eq_true_iff] at hq
    exact hq.elim (fun hq => absurd hq hr) fun hq => absurd (hmode.symm.trans hq) hm
  · rw [if_neg hc]
    refine ⟨[], { hb with
      opened := fun hq hl => ?_
      linked := fun hp => ?_
      restCool := hrestCool
      waiting := fun _ hl _ hr => ?_ }, fun _ => rfl, .nil _⟩
    · have hr : s₁.rest = true := hq.resolve_right fun hq => hm (hmode.symm.trans hq)
      exact hprobe.trans (h.opened (.inl (hrest.symm.trans hr)) fun hd => hl (hlink.trans hd))
    · exact fun hl => h.linked (hprobe.symm.trans hp) (hlink.symm.trans hl)
    · by_contra hp
      exact hc ⟨hl, hp, by rw [show s₁.rest = false from hr]; exact Bool.false_ne_true⟩

theorem setMode_off (h : Ok p calls s.core) (ha : s.active = true) (hne : .off ≠ s.mode) :
    Ok p calls (s.setMode e .off).core := by
  set s₁ : State := { s with mode := .off, reconnectPending := false, redial := false } with hs₁
  have hend : s.setMode e .off =
      if s₁.link ≠ .down ∧ ¬ s₁.probe then (s₁.act .disconnect).linkClear else s₁ := by
    unfold State.setMode
    rw [if_neg hne]
    dsimp only
    rw [if_neg (not_not_intro ha), if_pos rfl]
    rfl
  have hb : Base p calls s₁.core :=
    { h with
      quiet := fun _ => rfl
      pending := by rintro ⟨⟩
      cool := by rintro ⟨⟩
      held := fun _ => (by rintro ⟨⟩) }
  rw [hend]
  split_ifs with hc
  · have hend : Ending p calls (s₁.act .disconnect).core :=
      { hb with
        notPending := rfl
        probe := show s.probe = false by simpa using hc.2
        stamped := fun hr => absurd (h.opened (.inl hr) hc.1) hc.2 }
    refine hend.linkClear.ok (linkClear_link _) fun _ hm => ?_
    rw [linkClear_mode] at hm
    exact absurd rfl hm
  · exact { hb with
      opened := fun _ hl => by
        by_contra hp
        exact hc ⟨hl, hp⟩
      linked := h.linked
      restCool := h.restCool
      waiting := fun _ _ hm => absurd rfl hm }

theorem setMode_stopped (h : Ok p calls s.core) (ha : s.active = false) (mode : Mode) :
    (s.setMode e mode).core = { s.core with mode := mode } ∧
      Ok p calls (s.setMode e mode).core := by
  have hd := (h.idle ha).1
  have hend : (s.setMode e mode).core = { s.core with mode := mode } := by
    unfold State.setMode
    by_cases hm : mode = s.mode
    · rw [if_pos hm, hm]
      rfl
    · rw [if_neg hm]
      dsimp only
      rw [if_pos (by rw [ha]; exact Bool.false_ne_true)]
      rfl
  refine ⟨hend, ?_⟩
  rw [hend]
  exact { h with
    quiet := fun _ => by
      cases hp : s.reconnectPending with
      | false => exact hp
      | true => exact absurd ((h.pending hp).1.symm.trans ha) (by rintro ⟨⟩)
    held := fun hl => absurd (hd.symm.trans hl) (by rintro ⟨⟩)
    opened := fun _ hl => absurd hd hl
    waiting := fun ha' => absurd (ha.symm.trans ha') (by rintro ⟨⟩) }

theorem setMode_ok (h : Ok p [] s.core) (e : Env) (mode : Mode) :
    ∃ cs, Ok p cs (s.setMode e mode).core ∧ (s.mode ≠ .off → cs = []) ∧ Connects s.now cs := by
  by_cases hm : mode = s.mode
  · refine ⟨[], ?_, fun _ => rfl, .nil _⟩
    unfold State.setMode
    rw [if_pos hm]
    exact h
  cases ha : s.active with
  | false => exact ⟨[], (setMode_stopped h ha mode).2, fun _ => rfl, .nil _⟩
  | true =>
    by_cases hoff : mode = .off
    · subst hoff
      exact ⟨[], setMode_off h ha hm, fun _ => rfl, .nil _⟩
    · exact setMode_on h ha hoff hm

theorem Ok.due (h : Ok p calls s.core) : Ok p calls (if s.active ∧ s.link = .down ∧
    s.reconnectPending then
      { s with
        reconnectAt :=
          if s.wasUp ∧ s.now < s.downAt + unitCooldownMs then s.downAt + unitCooldownMs
          else s.now }
    else s).core := by
  by_cases hc : s.active ∧ s.link = .down ∧ s.reconnectPending
  · rw [if_pos hc]
    exact { h with
      cool := fun _ hw => by
        have hw' : s.wasUp = true := hw
        dsimp only [State.core]
        split_ifs with hcool
        · exact le_refl _
        · exact Nat.le_of_not_lt fun hlt => hcool ⟨hw', hlt⟩ }
  · rw [if_neg hc]
    exact h

theorem reconnectSoon_ok (h : Ok p calls s.core) (e : Env) :
    Ok p calls (s.reconnectSoon e).core := by
  unfold State.reconnectSoon
  refine Ok.due ?_
  by_cases hr : s.rest
  swap
  · rw [if_neg hr]
    exact h
  rw [if_pos hr]
  set s₁ := s.restSet false with hs₁
  have hcore : s₁.core = { s.core with rest := false, restNext := s.now + s.restPollMs } := by
    rw [hs₁, restSet_core, if_neg (by rw [hr]; rintro ⟨⟩)]
  have hb : Base p calls s₁.core := h.toBase.restSet_false
  have hlink : s₁.link = s.link := restSet_link s false
  have hrest : s₁.rest = false := restSet_false_rest s
  dsimp only
  by_cases hc : s₁.active ∧ s₁.link = .down ∧ ¬ s₁.reconnectPending ∧ ¬ s₁.probe
  · rw [if_pos hc]
    obtain ⟨-, hl, hp, hprobe⟩ := hc
    refine Ending.schedule ?_ hl
    exact { hb with
      backoff := minBackoff
      notPending := show s₁.reconnectPending = false by simpa using hp
      probe := show s₁.probe = false by simpa using hprobe
      stamped := fun hr => absurd (hrest.symm.trans hr) (by rintro ⟨⟩) }
  · rw [if_neg hc]
    have hprobe : s₁.probe = s.probe := congrArg Core.probe hcore
    exact { hb with
      opened := fun _ hl => hprobe.trans (h.opened (.inl hr) fun hd => hl (hlink.trans hd))
      linked := fun hp hd => h.linked (hprobe.symm.trans hp) (hlink.symm.trans hd)
      restCool := fun hr' => absurd (hrest.symm.trans hr') (by rintro ⟨⟩)
      waiting := fun ha hl _ _ => by
        by_contra hp
        refine hc ⟨ha, hl, hp, fun hpr => ?_⟩
        exact h.linked (hprobe.symm.trans hpr) (hlink.symm.trans hl) }

theorem intoHold_ok (h : Ok p [] s.core) (e : Env) : ∃ cs,
    Ok p cs ((if s.mode ≠ .hold then s.setMode e .hold else s).reconnectSoon e).core ∧
      (s.mode ≠ .off → cs = []) ∧ Connects s.now cs := by
  split_ifs
  · obtain ⟨cs, hok, hoff, hcs⟩ := setMode_ok h e .hold
    exact ⟨cs, reconnectSoon_ok hok e, hoff, hcs⟩
  · exact ⟨[], reconnectSoon_ok h e, fun _ => rfl, .nil _⟩

theorem wake_ok (h : Ok p [] s.core) (e : Env) :
    ∃ cs, Ok p cs (s.wake e).core ∧ (s.mode ≠ .off → cs = []) ∧ Connects s.now cs :=
  intoHold_ok (s := { s with inputAt := stamp s.now }) h e

theorem connectButton_ok (h : Ok p [] s.core) (e : Env) :
    ∃ cs, Ok p cs (s.connectButton e).core ∧ (s.mode ≠ .off → cs = []) ∧ Connects s.now cs := by
  unfold State.connectButton
  by_cases hb : ¬ e.hasBond
  · rw [if_pos hb]
    exact ⟨[], h, fun _ => rfl, .nil _⟩
  · rw [if_neg hb]
    exact wake_ok h e

theorem setHold_ok (h : Ok p [] s.core) (e : Env) (on : Bool) :
    ∃ cs, Ok p cs (s.setHold e on).core ∧ (s.mode ≠ .off → cs = []) ∧ Connects s.now cs := by
  unfold State.setHold
  by_cases hs : on = s.hold
  · rw [if_pos hs]
    exact ⟨[], h, fun _ => rfl, .nil _⟩
  rw [if_neg hs]
  dsimp only
  by_cases hon : ¬ on
  · rw [if_pos hon]
    exact ⟨[], h, fun _ => rfl, .nil _⟩
  · rw [if_neg hon]
    exact intoHold_ok (s := { s with hold := on, heaterNext := s.now }) h e

theorem viewer_ok (h : Ok p calls s.core) (e : Env) (now : ℕ) :
    Ok p calls (s.viewer e now).core := by
  unfold State.viewer
  dsimp only
  split_ifs
  · exact reconnectSoon_ok (s := { s with viewerAt := stamp now }) h e
  · exact h

theorem input_ok (h : Ok p calls s.core) (e : Env) (now : ℕ) :
    Ok p calls (s.input e now).core :=
  viewer_ok (s := { s with inputAt := stamp now }) h e now

theorem setRestPoll_ok (h : Ok p calls s.core) (min : ℕ) :
    Ok p calls (s.setRestPoll min).core := by
  have hpoll : min * 60000 = 0 ∨ 60000 ≤ min * 60000 := by omega
  exact { h with
    poll := hpoll
    restCool := fun _ _ _ hne => by
      have := hpoll.resolve_left hne
      have := h.clock
      dsimp only [State.core, State.setRestPoll, unitCooldownMs] at *
      omega }

theorem linkClear_active (s : State) (active : Bool) :
    ({ s with active := active } : State).linkClear.core =
      { s.linkClear.core with active := active } := by
  by_cases hl : s.link = .up
  · rw [linkClear_up hl, linkClear_up (s := { s with active := active }) hl]
    rfl
  · rw [linkClear_notUp hl, linkClear_notUp (s := { s with active := active }) hl]
    rfl

theorem stop_ok (h : Ok p calls s.core) (e : Env) : Ok p calls (s.stop e).core := by
  set s₁ : State := { s.restSet false with redial := false } with hs₁
  set s₂ : State := if s₁.probe then s₁.probeEnd e false else s₁ with hs₂
  set s₃ : State := { s₂ with reconnectPending := false, backoff := backoffMinMs } with hs₃
  set s₄ : State := if s₃.link ≠ .down then s₃.act .disconnect else s₃ with hs₄
  have hend : (s.stop e).core = { s₄.linkClear.core with active := false } := by
    have hu : s.stop e = ((if s₃.link ≠ .down then ({ s₃ with active := false } : State).act
      .disconnect else { s₃ with active := false }) : State).linkClear.unitCheck e := rfl
    rw [hu, unitCheck_core, ← linkClear_active, hs₄]
    split_ifs <;> rfl
  have hb₁ : Base p calls s₁.core := h.toBase.restSet_false
  have hrest₁ : s₁.rest = false := restSet_false_rest s
  have h₂ : Base p calls s₂.core ∧ s₂.rest = false ∧ s₂.probe = false := by
    rw [hs₂]
    by_cases hp : s₁.probe
    · rw [if_pos hp]
      have hcore := probeEnd_false s₁ e
      refine ⟨?_, (congrArg Core.rest hcore).trans hrest₁, congrArg Core.probe hcore⟩
      rw [hcore]
      exact { hb₁ with probing := (by rintro ⟨⟩) }
    · rw [if_neg hp]
      exact ⟨hb₁, hrest₁, by simpa using hp⟩
  have h₄ : Ending p calls s₄.core := by
    have h₃ : Ending p calls s₃.core :=
      { h₂.1 with
        quiet := fun _ => rfl
        pending := by rintro ⟨⟩
        backoff := minBackoff
        cool := by rintro ⟨⟩
        notPending := rfl
        probe := h₂.2.2
        stamped := fun hr => absurd (h₂.2.1.symm.trans hr) (by rintro ⟨⟩) }
    rw [hs₄]
    split_ifs
    · exact h₃
    · exact h₃
  have hl : s₄.linkClear.rest = false := by
    rw [linkClear_rest, hs₄]
    split_ifs <;> exact h₂.2.1
  rw [hend]
  have h₅ := h₄.linkClear
  exact { h₅ with
    pending := fun hp => absurd (h₅.notPending.symm.trans hp) (by rintro ⟨⟩)
    probing := fun hp => absurd (h₅.probe.symm.trans hp) (by rintro ⟨⟩)
    idle := fun _ => ⟨rfl, hl⟩
    opened := fun _ hd => absurd rfl hd
    linked := fun hp => absurd (h₅.probe.symm.trans hp) (by rintro ⟨⟩)
    restCool := fun hr => absurd (hl.symm.trans hr) (by rintro ⟨⟩)
    waiting := (by rintro ⟨⟩) }

theorem boot_ok (h : Ok p [] s.core) (ha : s.active = false) (e : Env) :
    ∃ cs, Ok p cs (s.boot e).core ∧ Connects s.now cs := by
  obtain ⟨hl, hr⟩ := h.idle ha
  have hnp : s.reconnectPending = false := by
    cases hp : s.reconnectPending with
    | false => rfl
    | true => exact absurd (ha.symm.trans (h.pending hp).1) (by rintro ⟨⟩)
  have hprobe : s.probe = false := h.not_probing hl
  unfold State.boot
  by_cases hb : ¬ e.hasBond
  · rw [if_pos hb]
    exact ⟨[], h, .nil _⟩
  rw [if_neg hb]
  have hbase : Base p [] ({ s with active := true } : State).core :=
    { h with
      pending := fun hp => absurd (hnp.symm.trans hp) (by rintro ⟨⟩)
      probing := fun _ => rfl
      idle := (by rintro ⟨⟩) }
  dsimp only
  by_cases hm : s.mode ≠ .off
  · rw [if_pos hm]
    have hlose : Losing p [] ({ s with active := true } : State).core :=
      { hbase with
        notPending := hnp
        resting := fun hr' => absurd (hr.symm.trans hr') (by rintro ⟨⟩) }
    refine ⟨_, connectNow_ok (e := e) hlose rfl hl fun hm' => absurd hm' hm, Connects.one _ ?_⟩
    intro hq
    rw [decide_eq_true_iff] at hq
    exact hq.elim (fun hr' => absurd (hr.symm.trans hr') (by rintro ⟨⟩)) fun hm' => absurd hm' hm
  · rw [if_neg hm]
    exact ⟨[], { hbase with
      opened := fun _ hd => absurd hl hd
      linked := fun hp => absurd (hprobe.symm.trans hp) (by rintro ⟨⟩)
      restCool := fun hr' => absurd (hr.symm.trans hr') (by rintro ⟨⟩)
      waiting := fun _ _ hm' => absurd hm' hm }, .nil _⟩

theorem onBonded_ok (h : Ok p [] s.core) (ha : s.active = false) (e : Env) :
    Ok p [] (s.onBonded e).core := by
  obtain ⟨hcore, hok⟩ := setMode_stopped (e := e) h ha .hold
  set s₁ := s.setMode e .hold with hs₁
  have hb : Base p [] (s₁.restSet false).core := hok.toBase.restSet_false
  have hrest : (s₁.restSet false).rest = false := restSet_false_rest s₁
  have hmode : (s₁.restSet false).mode = .hold := by
    have h₁ : (s₁.restSet false).mode = s₁.mode :=
      (congrArg Core.mode (restSet_core s₁ false)).trans (by split_ifs <;> rfl)
    exact h₁.trans (congrArg Core.mode hcore)
  have hb' : Base p [] ({ s₁.restSet false with active := true } : State).core :=
    { hb with
      pending := fun hp => ⟨rfl, (hb.pending hp).2⟩
      probing := fun _ => rfl
      idle := (by rintro ⟨⟩) }
  refine hb'.linkUp rfl (fun hq => ?_) e
  exact hq.elim (fun hr => absurd (hrest.symm.trans hr) (by rintro ⟨⟩)) fun hm =>
    absurd (hmode.symm.trans hm) (by rintro ⟨⟩)

theorem heartbeatEvent_ok (h : Ok p calls s.core) (e : Env) (status : ℤ) :
    Ok p calls (s.heartbeatEvent e status).core := by
  unfold State.heartbeatEvent
  split_ifs with hc
  · exact h.linkLost (by rw [hc.2.1]; rintro ⟨⟩) _ _
  · exact h

theorem onEvent_ok (h : Ok p calls s.core) (e : Env) (ev : Event) :
    Ok p calls (s.onEvent e ev).core := by
  unfold State.onEvent
  by_cases ha : ¬ s.active
  · rw [if_pos ha]
    exact h
  rw [if_neg ha]
  have hact : s.active = true := by simpa using ha
  cases ev with
  | connected =>
    dsimp only
    split_ifs with hl
    · have hne : s.link ≠ .down := by rw [hl]; rintro ⟨⟩
      exact { h with
        pending := fun hp => absurd (h.pending hp).2 hne
        idle := fun hi => absurd (hact.symm.trans hi) (by rintro ⟨⟩)
        beating := by rintro ⟨⟩
        read := fun hs => absurd (hl.symm.trans (h.read hs).1) (by rintro ⟨⟩)
        held := by rintro ⟨⟩
        nextBeat := by rintro ⟨⟩
        opened := fun hq _ => h.opened hq hne
        linked := fun _ => by rintro ⟨⟩
        restCool := fun _ _ => by rintro ⟨⟩
        waiting := fun _ => (by rintro ⟨⟩) }
    · exact h
  | encOk =>
    dsimp only
    split_ifs with hl
    · exact h.toBase.linkUp hact (fun hq => h.opened hq (show s.link ≠ .down by rw [hl]; rintro ⟨⟩))
        e
    · exact h
  | connectFail status => exact h.lostEvent _ _
  | encFail status => exact h.lostEvent _ _
  | disconnected status => exact h.lostEvent _ _
  | discovered status =>
    dsimp only
    split_ifs with hl
    · exact onDiscovered_ok h hl status
    · exact h
  | read char status data =>
    dsimp only
    split_ifs with hl
    · exact h.reads hl (onReadWith_reads (readNext_reads e turns) s char status data)
    · exact h
  | notify char data =>
    dsimp only
    split_ifs <;> exact h
  | heartbeat status => exact heartbeatEvent_ok h e status

/-- Heartbeats, on an encrypted link and where one is wanted. -/
def Beats (s : State) (e : Env) (cs : List Act) : Prop :=
  ∀ a ∈ cs, ∃ n, a = .heartbeat n ∧ s.link = .up ∧ s.hbWanted e = true

/-- On an encrypted link a heartbeat is wanted and its time has come. -/
def State.beatDue (s : State) (e : Env) : Prop :=
  s.link = .up ∧ s.hbOn ∧ s.hbWanted e ∧ s.now ≥ s.hbNext

theorem tickHeartbeat_ok (h : Ok p [] s.core) (e : Env) :
    ∃ cs, Ok p cs (s.tickHeartbeat e).2.core ∧ Beats s e cs ∧ (s.beatDue e → cs ≠ []) := by
  unfold State.tickHeartbeat
  by_cases hc : s.link = .up ∧ s.hbOn ∧ s.hbWanted e ∧ s.now ≥ s.hbNext
  swap
  · rw [if_neg hc]
    exact ⟨[], h, (by rintro _ ⟨⟩), fun hdue => absurd hdue hc⟩
  rw [if_pos hc]
  dsimp only
  set s₁ : State := { s.act (.heartbeat s.hbCtr) with
      hbCtr := (s.hbCtr + 1) % 2 ^ 32
      hbNext :=
        if s.now - s.hbNext ≥ heartbeatPeriodMs then s.now + heartbeatPeriodMs
        else s.hbNext + heartbeatPeriodMs } with hs₁
  have hnext : s₁.hbNext ≤ s₁.now + heartbeatPeriodMs := by
    rw [hs₁]
    dsimp only
    split_ifs
    · exact le_refl _
    · exact Nat.add_le_add_right hc.2.2.2 _
  have h₁ : Ok p [.heartbeat s.hbCtr] s₁.core :=
    { h with
      nextBeat := fun _ => .inr (.inl ⟨List.cons_ne_nil _ _, hnext⟩)
      calls := congrArg (_ :: ·) h.calls }
  have hne : s₁.link ≠ .down := by rw [show s₁.link = .up from hc.1]; rintro ⟨⟩
  have hbeat : Beats s e [.heartbeat s.hbCtr] := by
    intro a ha
    exact ⟨_, List.mem_singleton.mp ha, hc.1, hc.2.2.1⟩
  refine ⟨_, ?_, hbeat, fun _ => List.cons_ne_nil _ _⟩
  by_cases hrc : e.heartbeat.rc = 0
  · rw [if_neg (not_not_intro hrc)]
    cases e.heartbeat.inside with
    | none => exact h₁
    | some status =>
      dsimp only
      rw [if_pos hrc]
      exact heartbeatEvent_ok h₁ e status
  · rw [if_pos hrc]
    cases e.heartbeat.inside with
    | none => exact h₁.linkLost hne _ _
    | some status =>
      dsimp only
      rw [if_neg hrc]
      exact h₁.linkLost hne _ _

theorem tickWarm_ok (h : Ok p calls s.core) (e : Env) : Ok p calls (s.tickWarm e).core := by
  unfold State.tickWarm
  split_ifs with hc
  · exact h.reads hc.1 ((readNext_reads e turns _).of_core rfl)
  · exact h

theorem tickRedial_ok (h : Ok p calls s.core) : Ok p calls s.tickRedial.core := by
  unfold State.tickRedial
  split_ifs <;> exact h

theorem idleLink_up (h : s.idleLink = true) : s.link = .up := by
  unfold State.idleLink at h
  rw [decide_eq_true_iff] at h
  exact h.1

theorem tickWater_ok (h : Ok p calls s.core) (e : Env) : Ok p calls (s.tickWater e).core := by
  unfold State.tickWater
  by_cases hc : s.idleLink ∧ s.now ≥ s.waterNext
  swap
  · rw [if_neg hc]
    exact h
  rw [if_pos hc]
  dsimp only
  set s₁ : State := { s with waterNext := s.now + waterRereadMs } with hs₁
  have h₁ : Ok p calls s₁.core := h
  have hr := callRead_reads s₁ e .water waterChar e.water
  refine h₁.reads (e := e) (idleLink_up hc.1) ?_
  split_ifs
  · exact hr.core_eq rfl
  · exact hr

theorem tickHeater_ok (h : Ok p calls s.core) (e : Env) : Ok p calls (s.tickHeater e).core := by
  unfold State.tickHeater
  by_cases hc : s.hold ∧ s.idleLink ∧ s.now ≥ s.heaterNext
  swap
  · rw [if_neg hc]
    exact h
  rw [if_pos hc]
  dsimp only
  set s₁ : State := { s with heaterNext := s.now + s.heaterMs } with hs₁
  have h₁ : Ok p calls s₁.core := h
  have hr := callRead_reads s₁ e .heater heaterChar e.heater
  refine h₁.reads (e := e) (idleLink_up hc.2.1) ?_
  split_ifs
  · exact hr.core_eq rfl
  · exact hr.core_eq rfl

theorem connectNow_loss (s : State) (e : Env) :
    (s.connectNow e).wasUp = s.wasUp ∧ (s.connectNow e).downAt = s.downAt := by
  have hsched : ∀ s : State, (s.scheduleReconnect e).wasUp = s.wasUp ∧
      (s.scheduleReconnect e).downAt = s.downAt := by
    intro s
    unfold State.scheduleReconnect
    dsimp only
    split_ifs <;> exact ⟨rfl, rfl⟩
  have hrest : ∀ (s : State) (on : Bool), (s.restSet on).wasUp = s.wasUp ∧
      (s.restSet on).downAt = s.downAt := by
    intro s on
    have hw := congrArg Core.wasUp (restSet_core s on)
    have hd := congrArg Core.downAt (restSet_core s on)
    exact ⟨hw.trans (by split_ifs <;> rfl), hd.trans (by split_ifs <;> rfl)⟩
  have hagain : ∀ s : State, (s.restAgain e).2.wasUp = s.wasUp ∧
      (s.restAgain e).2.downAt = s.downAt := by
    intro s
    obtain hr | ⟨-, hr⟩ := restAgain_cases s e
    · rw [hr]
      exact ⟨rfl, rfl⟩
    · rw [hr]
      exact hrest s true
  have hend : ∀ s : State, (if s.probe then s.probeEnd e false else s).wasUp = s.wasUp ∧
      (if s.probe then s.probeEnd e false else s).downAt = s.downAt := by
    intro s
    split_ifs
    · exact ⟨congrArg Core.wasUp (probeEnd_false s e), congrArg Core.downAt (probeEnd_false s e)⟩
    · exact ⟨rfl, rfl⟩
  unfold State.connectNow
  dsimp only
  set s₁ : State := s.act (.connect s.now (s.rest ∨ s.mode = .off) s.probe) with hs₁
  by_cases hc : e.connect = 0
  · rw [if_pos hc]
    exact ⟨rfl, rfl⟩
  · rw [if_neg hc]
    set s₂ : State := { s₁ with redial := false } with hs₂
    exact ⟨(hsched _).1.trans ((hagain _).1.trans (hend s₂).1),
      (hsched _).2.trans ((hagain _).2.trans (hend s₂).2)⟩

/-- What the watchdogs ask for comes after the cooldown. -/
structure Cooled (s : State) (asks : List Act) (s' : State) : Prop where
  connects : Connects s.now asks
  cool : asks ≠ [] → s'.wasUp = true → s'.downAt + unitCooldownMs ≤ s.now

theorem Cooled.nil (s s' : State) : Cooled s [] s' := ⟨.nil _, fun h => absurd rfl h⟩

theorem tickLink_ok (h : Ok p calls s.core) (e : Env) :
    ∃ asks, Ok p (asks ++ calls) (s.tickLink e).core ∧ Cooled s asks (s.tickLink e) := by
  unfold State.tickLink
  by_cases hconn : s.link = .connecting ∧ s.now - s.connectStarted ≥ connectTimeoutMs
  · rw [if_pos hconn]
    exact ⟨[], h.linkLost (by rw [hconn.1]; rintro ⟨⟩) _ _, .nil _ _⟩
  rw [if_neg hconn]
  by_cases henc : s.link = .connected ∧ s.now - s.connectedAt ≥ encTimeoutMs
  · rw [if_pos henc]
    exact ⟨[], h.linkLost (by rw [henc.1]; rintro ⟨⟩) _ _, .nil _ _⟩
  rw [if_neg henc]
  by_cases hpoll : s.rest ∧ s.restPollMs ≠ 0 ∧ s.mode ≠ .off ∧ s.link = .down ∧ ¬ s.probe ∧
      s.now ≥ s.restNext
  · rw [if_pos hpoll]
    obtain ⟨hr, hp, -, hl, hprobe, hdue⟩ := hpoll
    have hok := startProbe_ok h e
    by_cases ha : s.active
    · rw [if_pos ⟨ha, hprobe, hl⟩] at hok
      refine ⟨[_], hok, Connects.one _ fun _ => rfl, fun _ hw => ?_⟩
      have hsame : (s.startProbe e).wasUp = s.wasUp ∧ (s.startProbe e).downAt = s.downAt := by
        unfold State.startProbe
        dsimp only
        rw [if_neg (by rintro (hc | hc); exacts [hc ha, hprobe hc]), if_pos hl]
        exact connectNow_loss _ e
      rw [hsame.2]
      exact (h.restCool hr (hsame.1.symm.trans hw) hl hp).trans hdue
    · rw [if_neg (fun hc => ha hc.1)] at hok
      exact ⟨[], hok, .nil _ _⟩
  rw [if_neg hpoll]
  by_cases hrec : s.link = .down ∧ s.reconnectPending ∧ s.now ≥ s.reconnectAt
  swap
  · rw [if_neg hrec]
    exact ⟨[], h, .nil _ _⟩
  rw [if_pos hrec]
  obtain ⟨hl, hp, hdue⟩ := hrec
  have hact : s.active = true := (h.pending hp).1
  have hquiet : ¬ (s.rest = true ∨ s.mode = .off) := fun hq =>
    absurd (hp.symm.trans (h.quiet hq)) (by rintro ⟨⟩)
  have hrest : s.rest = false := by
    cases hr : s.rest with
    | false => rfl
    | true => exact absurd (.inl hr) hquiet
  have hprobe : s.probe = false := h.not_probing hl
  set s₁ : State := { s with reconnectPending := false } with hs₁
  have hlose : Losing p calls s₁.core :=
    { h with
      quiet := fun _ => rfl
      pending := by rintro ⟨⟩
      cool := by rintro ⟨⟩
      notPending := rfl
      resting := fun hr => absurd (.inl hr) hquiet }
  dsimp only
  by_cases hb : ¬ e.hasBond
  · rw [if_pos hb]
    refine ⟨[], { hlose with
      pending := by rintro ⟨⟩
      probing := fun hpr => absurd (hprobe.symm.trans hpr) (by rintro ⟨⟩)
      idle := fun _ => ⟨hl, hrest⟩
      opened := fun hq => absurd hq hquiet
      linked := h.linked
      restCool := fun hr => absurd (.inl hr) hquiet
      waiting := (by rintro ⟨⟩) }, .nil _ _⟩
  · rw [if_neg hb]
    have hgo := connectNow_ok (e := e) hlose hact hl fun hm => absurd (.inr hm) hquiet
    refine ⟨[_], hgo, Connects.one _ fun hq => ?_, fun _ hw => ?_⟩
    · rw [decide_eq_true_iff] at hq
      exact absurd hq hquiet
    · have hsame := connectNow_loss s₁ e
      rw [hsame.2]
      exact (h.cool hp (hsame.1.symm.trans hw)).trans hdue

theorem tick_ok (h : Ok p [] s.core) (e : Env) : ∃ asks beats,
    Ok p (asks ++ beats) (s.tick e).core ∧ Beats s e beats ∧ (s.beatDue e → beats ≠ []) ∧
      Cooled s asks (s.tick e) := by
  unfold State.tick
  by_cases ha : ¬ s.active
  · rw [if_pos ha]
    refine ⟨[], [], h, (by rintro _ ⟨⟩), fun hdue => ?_, .nil _ _⟩
    have hdown := (h.idle (Bool.not_eq_true _ ▸ ha)).1
    exact absurd (hdue.1.symm.trans hdown) (by rintro ⟨⟩)
  rw [if_neg ha]
  obtain ⟨beats, hok, hbeats, hdue⟩ := tickHeartbeat_ok h e
  dsimp only
  by_cases hgo : ¬ (s.tickHeartbeat e).1
  · rw [if_pos hgo]
    exact ⟨[], beats, hok, hbeats, hdue, .nil _ _⟩
  rw [if_neg hgo]
  have hreads := tickHeater_ok (tickWater_ok (tickRedial_ok (tickWarm_ok hok e)) e) e
  set t := (((s.tickHeartbeat e).2.tickWarm e).tickRedial.tickWater e).tickHeater e with ht
  have hnow : t.now = s.now := hreads.time.trans h.time.symm
  obtain ⟨asks, hlast, hcool⟩ := tickLink_ok hreads e
  exact ⟨asks, beats, hlast, hbeats, hdue, hnow ▸ hcool.connects, hnow ▸ hcool.cool⟩

end OpenCalifornia.Session
