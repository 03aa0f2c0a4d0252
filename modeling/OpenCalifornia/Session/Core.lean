import OpenCalifornia.Session.Step

/-! # The link part of the session

Most of what the session does while it reads leaves the link alone. `Core` is the part of the
state that decides about the link, `Base` and `Ok` what holds of it. A step is described together
with what was there before it: the losses of a link so far, and whether the link was read and held
at the step's start. -/

namespace OpenCalifornia.Session

/-- A call that asks for a link or writes a heartbeat. -/
def Act.isCall : Act → Bool
  | .connect .. | .heartbeat _ => true
  | _ => false

/-- A link that comes or goes. -/
def Act.isChange : Act → Bool
  | .linkUp | .linkDown _ => true
  | _ => false

def Act.isPassDone : Act → Bool
  | .passDone => true
  | _ => false

def Act.isBeat : Act → Bool
  | .heartbeat _ => true
  | _ => false

structure Core where
  active : Bool
  link : Link
  now : ℕ
  hbOn : Bool
  hbNext : ℕ
  hbSince : ℕ
  pending : Bool
  reconnectAt : ℕ
  backoff : ℕ
  snapped : Bool
  mode : Mode
  probe : Bool
  rest : Bool
  restNext : ℕ
  restPollMs : ℕ
  wasUp : Bool
  downAt : ℕ
  calls : List Act
  changes : List Act
  /-- The passes completed since the last change. -/
  passes : List Act
  /-- The heartbeats written since the last change. -/
  beats : List Act

def State.core (s : State) : Core where
  active := s.active
  link := s.link
  now := s.now
  hbOn := s.hbOn
  hbNext := s.hbNext
  hbSince := s.hbSince
  pending := s.reconnectPending
  reconnectAt := s.reconnectAt
  backoff := s.backoff
  snapped := s.snapped
  mode := s.mode
  probe := s.probe
  rest := s.rest
  restNext := s.restNext
  restPollMs := s.restPollMs
  wasUp := s.wasUp
  downAt := s.downAt
  calls := s.log.filter Act.isCall
  changes := s.log.filter Act.isChange
  passes := (s.log.takeWhile fun a => !a.isChange).filter Act.isPassDone
  beats := (s.log.takeWhile fun a => !a.isChange).filter Act.isBeat

/-- What was there when the step began. -/
structure Past where
  now : ℕ
  losses : List ℕ
  snapped : Bool
  up : Bool
  held : Bool
  since : ℕ
  beatAt : ℕ

/-- What every function of the session keeps, `calls` being the calls of the step so far. -/
structure Base (p : Past) (calls : List Act) (c : Core) : Prop where
  quiet : c.rest = true ∨ c.mode = .off → c.pending = false
  pending : c.pending = true → c.active = true ∧ c.link = .down
  probing : c.probe = true → c.active = true
  idle : c.active = false → c.link = .down ∧ c.rest = false
  backoff : backoffMinMs ≤ c.backoff ∧ c.backoff ≤ backoffMaxMs
  beating : c.link = .up → c.hbOn = true
  clock : c.downAt ≤ c.now
  poll : c.restPollMs = 0 ∨ 60000 ≤ c.restPollMs
  cool : c.pending = true → c.wasUp = true → c.downAt + unitCooldownMs ≤ c.reconnectAt
  losses : ∀ t ∈ p.losses, c.wasUp = true ∧ t ≤ c.downAt
  lost : ∀ t, Act.linkDown t ∈ c.changes → c.wasUp = true ∧ t ≤ c.downAt
  read : c.snapped = true → c.link = .up ∧ ((p.snapped = true ∧ c.changes = []) ∨ c.passes ≠ [])
  since : c.hbSince ≤ c.now
  held : c.link = .up → c.mode = .hold →
    c.hbSince = c.now ∨ (p.held = true ∧ c.hbSince = p.since ∧ c.changes = [])
  /-- The next heartbeat is due, or one was written on this link at most a period before it. -/
  nextBeat : c.link = .up → c.hbNext ≤ c.now ∨
    (c.beats ≠ [] ∧ c.hbNext ≤ c.now + heartbeatPeriodMs) ∨
    (p.up = true ∧ c.hbNext = p.beatAt ∧ c.changes = [])
  calls : c.calls = calls
  time : c.now = p.now

/-- What holds between two calls of the session. -/
structure Ok (p : Past) (calls : List Act) (c : Core) : Prop extends Base p calls c where
  opened : c.rest = true ∨ c.mode = .off → c.link ≠ .down → c.probe = true
  linked : c.probe = true → c.link ≠ .down
  restCool : c.rest = true → c.wasUp = true → c.link = .down → c.restPollMs ≠ 0 →
    c.downAt + unitCooldownMs ≤ c.restNext
  waiting : c.active = true → c.link = .down → c.mode ≠ .off → c.rest = false → c.pending = true

/-- On the way to a lost link. -/
structure Losing (p : Past) (calls : List Act) (c : Core) : Prop extends Base p calls c where
  notPending : c.pending = false
  resting : c.rest = true → c.probe = true

/-- No probe runs, and a rest counts from now. -/
structure Ending (p : Past) (calls : List Act) (c : Core) : Prop extends Base p calls c where
  notPending : c.pending = false
  probe : c.probe = false
  stamped : c.rest = true → c.restPollMs ≠ 0 → c.now + 60000 ≤ c.restNext

variable {p : Past} {calls : List Act} {s : State} {e : Env}

theorem Ok.losing (h : Ok p calls s.core) (hl : s.link ≠ .down) : Losing p calls s.core where
  toBase := h.toBase
  notPending := by
    cases hp : s.core.pending with
    | false => rfl
    | true => exact absurd (h.pending hp).2 hl
  resting hr := h.opened (.inl hr) hl

theorem Ending.ok (h : Ending p calls s.core) (hl : s.link = .down)
    (hw : s.active = true → s.mode ≠ .off → s.rest = false → False) : Ok p calls s.core where
  toBase := h.toBase
  opened _ hn := absurd hl hn
  linked hp := absurd hp (by rw [h.probe]; exact Bool.false_ne_true)
  restCool hr _ _ hpoll := by
    have := h.stamped hr hpoll
    have := h.clock
    unfold unitCooldownMs
    omega
  waiting ha _ hm hr := (hw ha hm hr).elim

theorem linkClear_up (hl : s.link = .up) : s.linkClear.core =
    { s.core with
      link := .down
      hbOn := false
      snapped := false
      backoff := if s.now - s.upAt ≥ stableMs then backoffMinMs else s.backoff
      wasUp := true
      downAt := s.now
      changes := .linkDown s.now :: s.core.changes
      passes := []
      beats := [] } := by
  unfold State.linkClear
  rw [if_pos hl]
  rfl

theorem linkClear_notUp (hl : s.link ≠ .up) :
    s.linkClear.core = { s.core with link := .down, hbOn := false, snapped := false } := by
  unfold State.linkClear
  rw [if_neg hl]
  rfl

theorem linkClear_link (s : State) : s.linkClear.link = .down := rfl

theorem linkClear_rest (s : State) : s.linkClear.rest = s.rest := by
  unfold State.linkClear
  split_ifs <;> rfl

theorem linkClear_mode (s : State) : s.linkClear.mode = s.mode := by
  unfold State.linkClear
  split_ifs <;> rfl

theorem Base.linkClear (h : Base p calls s.core) : Base p calls s.linkClear.core := by
  by_cases hl : s.link = .up
  · have hnp : s.core.pending ≠ true := fun hp => by
      have := (h.pending hp).2
      rw [show s.core.link = .up from hl] at this
      cases this
    rw [linkClear_up hl]
    exact {
      quiet := h.quiet
      pending := fun hp => absurd hp hnp
      probing := h.probing
      idle := fun ha => ⟨rfl, (h.idle ha).2⟩
      backoff := by
        dsimp only
        split_ifs
        · decide
        · exact h.backoff
      beating := by rintro ⟨⟩
      clock := le_refl _
      poll := h.poll
      cool := fun hp => absurd hp hnp
      losses := fun t ht => ⟨rfl, (h.losses t ht).2.trans h.clock⟩
      lost := by
        intro t ht
        refine ⟨rfl, ?_⟩
        cases List.mem_cons.mp ht with
        | inl he => exact (Act.linkDown.inj he).le
        | inr ht => exact (h.lost t ht).2.trans h.clock
      read := by rintro ⟨⟩
      since := h.since
      held := by rintro ⟨⟩
      nextBeat := by rintro ⟨⟩
      calls := h.calls
      time := h.time }
  · rw [linkClear_notUp hl]
    exact { h with
      pending := fun hp => ⟨(h.pending hp).1, rfl⟩
      idle := fun ha => ⟨rfl, (h.idle ha).2⟩
      beating := by rintro ⟨⟩
      read := by rintro ⟨⟩
      held := by rintro ⟨⟩
      nextBeat := (by rintro ⟨⟩) }

theorem Ending.linkClear (h : Ending p calls s.core) : Ending p calls s.linkClear.core := by
  have hb := h.toBase.linkClear
  by_cases hl : s.link = .up
  · rw [linkClear_up hl] at hb ⊢
    exact ⟨hb, h.notPending, h.probe, h.stamped⟩
  · rw [linkClear_notUp hl] at hb ⊢
    exact ⟨hb, h.notPending, h.probe, h.stamped⟩

theorem restSet_core (s : State) (on : Bool) : (s.restSet on).core =
    if s.rest = on then s.core
    else { s.core with rest := on, restNext := s.now + s.restPollMs } := by
  unfold State.restSet
  cases on <;> cases hr : s.rest <;> simp [State.core, hr]

theorem restSet_link (s : State) (on : Bool) : (s.restSet on).link = s.link :=
  congrArg Core.link (restSet_core s on) |>.trans (by split_ifs <;> rfl)

theorem Base.restSet_false (h : Base p calls s.core) : Base p calls (s.restSet false).core := by
  rw [restSet_core]
  split_ifs with hr
  · exact h
  · exact { h with
      quiet := fun hq => h.quiet (hq.imp_left (by rintro ⟨⟩))
      idle := fun ha => ⟨(h.idle ha).1, rfl⟩ }

theorem restSet_false_rest (s : State) : (s.restSet false).core.rest = false := by
  rw [restSet_core]
  split_ifs with hr
  · exact hr
  · rfl

theorem Ending.restSet_false (h : Ending p calls s.core) :
    Ending p calls (s.restSet false).core := by
  have hb := h.toBase.restSet_false
  rw [restSet_core] at hb ⊢
  split_ifs at hb ⊢
  · exact h
  · exact ⟨hb, h.notPending, h.probe, (by rintro ⟨⟩)⟩

theorem Ending.restSet_true (h : Ending p calls s.core) (ha : s.active = true) :
    Ending p calls (s.restSet true).core := by
  rw [restSet_core]
  split_ifs with hr
  · exact h
  · exact { h with
      quiet := fun _ => h.notPending
      idle := fun hi => absurd ha (by rw [show s.active = false from hi]; exact Bool.false_ne_true)
      stamped := fun _ hpoll => by
        have := h.poll.resolve_left hpoll
        exact Nat.add_le_add_left this _ }

theorem probeEnd_false (s : State) (e : Env) : (s.probeEnd e false).core =
    { s.core with
      probe := false
      restNext := if s.rest then s.now + s.restPollMs else s.restNext } := by
  unfold State.probeEnd
  cases hr : s.rest <;> simp [State.core, hr]

/-- A probe that ends well, before it drops its link. -/
def State.probeOver (s : State) (e : Env) : State :=
  let s := { s with probe := false }
  if s.rest then
    let s := { s with restNext := s.now + s.restPollMs }
    if ¬ s.restConditions e then s.restSet false else s
  else s

theorem probeEnd_true (s : State) (e : Env) : s.probeEnd e true =
    if ((s.probeOver e).rest ∨ (s.probeOver e).mode = .off) ∧ (s.probeOver e).link ≠ .down then
      ((s.probeOver e).act .disconnect).linkClear
    else s.probeOver e := by
  unfold State.probeEnd State.probeOver
  simp only [true_and]

theorem Losing.probeEnd (h : Losing p calls s.core) (e : Env) :
    Ending p calls (if s.probe then s.probeEnd e false else s).core := by
  cases hp : s.probe with
  | true =>
    rw [if_pos rfl, probeEnd_false]
    exact { h with
      probing := by rintro ⟨⟩
      probe := rfl
      stamped := fun hr hpoll => by
        have hr' : s.rest = true := hr
        rw [if_pos hr']
        exact Nat.add_le_add_left (h.poll.resolve_left hpoll) _ }
  | false =>
    rw [if_neg Bool.false_ne_true]
    exact { h with
      probe := hp
      stamped := fun hr => absurd (h.resting hr) (by
        rw [show s.core.probe = false from hp]
        exact Bool.false_ne_true) }

theorem scheduleReconnect_core (s : State) (e : Env) : (s.scheduleReconnect e).core =
    if ¬ s.active ∨ s.mode = .off ∨ s.rest then s.core
    else if ¬ e.hasBond then { s.core with active := false }
    else { s.core with
      pending := true
      reconnectAt :=
        if s.wasUp ∧ s.now + s.backoff < s.downAt + unitCooldownMs then s.downAt + unitCooldownMs
        else s.now + s.backoff
      backoff := if s.backoff * 2 > backoffMaxMs then backoffMaxMs else s.backoff * 2 } := by
  unfold State.scheduleReconnect
  dsimp only
  split_ifs <;> rfl

theorem Ending.schedule (h : Ending p calls s.core) (hl : s.link = .down) :
    Ok p calls (s.scheduleReconnect e).core := by
  rw [scheduleReconnect_core]
  by_cases hc : ¬ s.active ∨ s.mode = .off ∨ s.rest
  · rw [if_pos hc]
    refine h.ok hl fun ha hm hr => ?_
    simp [ha, hm, hr] at hc
  rw [if_neg hc]
  simp only [not_or, Bool.not_eq_true] at hc
  obtain ⟨ha, hm, hr⟩ := hc
  have hnot : ¬ (s.rest = true ∨ s.mode = .off) := by
    rw [hr]
    rintro (h | h)
    · cases h
    · exact hm h
  by_cases hb : ¬ e.hasBond = true
  · rw [if_pos hb]
    exact { h with
      pending := fun hp => absurd hp (by rw [h.notPending]; exact Bool.false_ne_true)
      probing := fun hp => absurd hp (by rw [h.probe]; exact Bool.false_ne_true)
      idle := fun _ => ⟨hl, hr⟩
      opened := fun _ hn => absurd hl hn
      linked := fun hp => absurd hp (by rw [h.probe]; exact Bool.false_ne_true)
      restCool := fun hr' => absurd (Or.inl hr') hnot
      waiting := (by rintro ⟨⟩) }
  · rw [if_neg hb]
    exact { h with
      quiet := fun hq => absurd hq hnot
      pending := fun _ => ⟨show s.active = true by simpa using ha, hl⟩
      backoff := by
        have hb : backoffMinMs ≤ s.backoff ∧ s.backoff ≤ backoffMaxMs := h.backoff
        dsimp only
        unfold backoffMinMs backoffMaxMs at *
        split_ifs <;> omega
      cool := fun _ hw => by
        have hw' : s.wasUp = true := hw
        dsimp only
        split_ifs with hcool
        · exact le_refl _
        · exact Nat.le_of_not_lt fun hlt => hcool ⟨hw', hlt⟩
      opened := fun _ hn => absurd hl hn
      linked := fun hp => absurd hp (by rw [h.probe]; exact Bool.false_ne_true)
      restCool := fun hr' => absurd (Or.inl hr') hnot
      waiting := fun _ _ _ _ => rfl }

end OpenCalifornia.Session
