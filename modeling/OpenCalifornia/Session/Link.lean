import OpenCalifornia.Session.Core

/-! # The functions of the session keep its link in order

One lemma for each function, from the link part before it to the link part after it. -/

namespace OpenCalifornia.Session
open Lib Lib.Bits

variable {p : Past} {calls : List Act} {s : State} {e : Env}

theorem minBackoff : backoffMinMs ≤ backoffMinMs ∧ backoffMinMs ≤ backoffMaxMs := by decide

theorem Losing.not_pending {c : Core} (h : Losing p calls c) : ¬ c.pending = true := by
  rw [h.notPending]
  exact Bool.false_ne_true

theorem restAgain_cases (s : State) (e : Env) :
    (s.restAgain e).2 = s ∨ s.active = true ∧ (s.restAgain e).2 = s.restSet true := by
  unfold State.restAgain
  split_ifs with h
  · exact .inl rfl
  · refine .inr ⟨?_, rfl⟩
    simp only [not_or, Decidable.not_not] at h
    exact h.2.1

theorem Ending.restAgain (h : Ending p calls s.core) (e : Env) :
    Ending p calls (s.restAgain e).2.core := by
  obtain hr | ⟨ha, hr⟩ := restAgain_cases s e
  · rw [hr]
    exact h
  · rw [hr]
    exact h.restSet_true ha

theorem restAgain_link (s : State) (e : Env) : (s.restAgain e).2.link = s.link := by
  obtain hr | ⟨-, hr⟩ := restAgain_cases s e
  · rw [hr]
  · rw [hr, restSet_link]

/-- What `link_lost` decides once the link is closed: rest, or a planned redial. -/
def State.afterLoss (s : State) (e : Env) (why : String) (status : ℤ) : State :=
  let r := s.restAgain e
  let s := r.2
  let s :=
    if ¬ r.1 ∧ s.active ∧ s.mode ≠ .off ∧ why = "disconnected" ∧ peerHangup status ∧
        ¬ e.ctlBusy ∧ s.restConditions e then
      if s.viewerActive s.now then { s with redial := true, backoff := backoffMinMs }
      else s.restSet true
    else s
  s.scheduleReconnect e

theorem Ending.afterLoss (h : Ending p calls s.core) (hl : s.link = .down) (why : String)
    (status : ℤ) : Ok p calls (s.afterLoss e why status).core := by
  have hr := h.restAgain e
  have hd : (s.restAgain e).2.link = .down := (restAgain_link s e).trans hl
  unfold State.afterLoss
  dsimp only
  split_ifs with hc hv
  · refine Ending.schedule ?_ hd
    exact { hr with backoff := minBackoff }
  · exact (hr.restSet_true hc.2.1).schedule ((restSet_link _ _).trans hd)
  · exact hr.schedule hd

theorem Losing.linkLost (h : Losing p calls s.core) (e : Env) (why : String) (status : ℤ) :
    Ok p calls (s.linkLost e why status).core := by
  set s₁ : State := { s with redial := false } with hs₁
  have h₁ : Losing p calls s₁.core := h
  have h₂ := h₁.probeEnd e
  set s₂ : State := if s₁.probe then s₁.probeEnd e false else s₁ with hs₂
  have h₃ : Ending p calls (if s₂.rest ∧ s₂.liveUnitAwake then s₂.restSet false else s₂).core := by
    split_ifs
    · exact h₂.restSet_false
    · exact h₂
  set s₃ : State := if s₂.rest ∧ s₂.liveUnitAwake then s₂.restSet false else s₂ with hs₃
  have h₄ := h₃.linkClear
  have hend : s.linkLost e why status =
      (if s.link ≠ .down then s₃.linkClear.act .disconnect else s₃.linkClear).afterLoss e why
        status := rfl
  rw [hend]
  split_ifs
  · exact Ending.afterLoss (s := s₃.linkClear.act .disconnect) h₄ rfl why status
  · exact h₄.afterLoss (linkClear_link _) why status

theorem Losing.linkClear (h : Losing p calls s.core) : Losing p calls s.linkClear.core := by
  have hb := h.toBase.linkClear
  by_cases hl : s.link = .up
  · rw [linkClear_up hl] at hb ⊢
    exact ⟨hb, h.notPending, h.resting⟩
  · rw [linkClear_notUp hl] at hb ⊢
    exact ⟨hb, h.notPending, h.resting⟩

theorem Ok.linkLost (h : Ok p calls s.core) (hl : s.link ≠ .down) (why : String) (status : ℤ) :
    Ok p calls (s.linkLost e why status).core :=
  (h.losing hl).linkLost e why status

theorem Ok.lostEvent (h : Ok p calls s.core) (why : String) (status : ℤ) :
    Ok p calls (s.lostEvent e why status).core := by
  unfold State.lostEvent
  split_ifs with hd hw
  · exact h
  · exact h.linkLost hd why status
  · exact (h.losing hd).linkClear.linkLost e why status

/-- `connect_now` is called on a closed link of an active session with no reconnect pending, and at
rest or in mode off by a probe only. -/
theorem connectNow_ok (h : Losing p calls s.core) (ha : s.active = true) (hl : s.link = .down)
    (hoff : s.mode = .off → s.probe = true) :
    Ok p (.connect s.now (s.rest ∨ s.mode = .off) s.probe :: calls) (s.connectNow e).core := by
  set s₁ : State := s.act (.connect s.now (s.rest ∨ s.mode = .off) s.probe) with hs₁
  have h₁ : Losing p (.connect s.now (s.rest ∨ s.mode = .off) s.probe :: calls) s₁.core :=
    { h with calls := congrArg (_ :: ·) h.calls }
  have hsnap : s.snapped ≠ true := fun hs => by
    have := (h.read hs).1
    rw [show s.core.link = .down from hl] at this
    cases this
  unfold State.connectNow
  rw [← hs₁]
  dsimp only
  by_cases hc : e.connect = 0
  · rw [if_pos hc]
    exact { h₁ with
      pending := fun hp => absurd hp h₁.not_pending
      idle := fun hi => absurd ha (by rw [show s.active = false from hi]; exact Bool.false_ne_true)
      beating := by rintro ⟨⟩
      read := fun hs => absurd hs hsnap
      held := by rintro ⟨⟩
      nextBeat := by rintro ⟨⟩
      opened := fun hq _ => hq.elim h₁.resting hoff
      linked := fun _ => by rintro ⟨⟩
      restCool := by rintro _ _ ⟨⟩
      waiting := (by rintro _ ⟨⟩) }
  · rw [if_neg hc]
    set s₂ : State := { s₁ with redial := false } with hs₂
    have h₂ : Losing p _ s₂.core := h₁
    have h₃ := h₂.probeEnd e
    have hl₃ : (if s₂.probe then s₂.probeEnd e false else s₂).link = .down := by
      split_ifs
      · exact (congrArg Core.link (probeEnd_false s₂ e)).trans hl
      · exact hl
    exact (h₃.restAgain e).schedule ((restAgain_link _ _).trans hl₃)

theorem startProbe_ok (h : Ok p calls s.core) (e : Env) :
    Ok p (if s.active ∧ ¬ s.probe ∧ s.link = .down then
        .connect s.now (s.rest ∨ s.mode = .off) true :: calls else calls)
      (s.startProbe e).core := by
  unfold State.startProbe
  dsimp only
  by_cases hc : ¬ s.active ∨ s.probe
  · rw [if_pos hc, if_neg (by rintro ⟨ha, hp, -⟩; exact hc.elim (· ha) (hp ·))]
    exact h
  rw [if_neg hc]
  simp only [not_or, Decidable.not_not] at hc
  obtain ⟨ha, hp⟩ := hc
  by_cases hl : s.link = .down
  · rw [if_pos hl, if_pos ⟨ha, hp, hl⟩]
    exact connectNow_ok (s := { s with probe := true, reconnectPending := false })
      { h with
        quiet := fun _ => rfl
        pending := by rintro ⟨⟩
        probing := fun _ => ha
        cool := by rintro ⟨⟩
        notPending := rfl
        resting := fun _ => rfl } ha hl fun _ => rfl
  · rw [if_neg hl, if_neg (fun hc => hl hc.2.2)]
    have hprobe : Ok p calls { s.core with probe := true } :=
      { h with
        probing := fun _ => ha
        opened := fun _ _ => rfl
        linked := fun _ => hl }
    split_ifs <;> exact hprobe

theorem Ending.ok_open (h : Ending p calls s.core) (hl : s.link ≠ .down)
    (hq : ¬ (s.rest = true ∨ s.mode = .off)) : Ok p calls s.core where
  toBase := h.toBase
  opened hc := absurd hc hq
  linked hp := absurd hp (by rw [h.probe]; exact Bool.false_ne_true)
  restCool hr := absurd (Or.inl hr) hq
  waiting _ hd := absurd hd hl

theorem Losing.probeOver (h : Losing p calls s.core) (e : Env) :
    Ending p calls (s.probeOver e).core ∧ (s.probeOver e).link = s.link := by
  set s₁ : State := { s with probe := false } with hs₁
  set s₂ : State := { s₁ with restNext := s₁.now + s₁.restPollMs } with hs₂
  have hend : s.probeOver e =
      if s₁.rest then if ¬ s₂.restConditions e then s₂.restSet false else s₂ else s₁ := rfl
  rw [hend]
  by_cases hr : s₁.rest = true
  · have h₂ : Ending p calls s₂.core :=
      { h with
        probing := by rintro ⟨⟩
        probe := rfl
        stamped := fun _ hpoll => Nat.add_le_add_left (h.poll.resolve_left hpoll) _ }
    rw [if_pos hr]
    split_ifs
    · exact ⟨h₂, rfl⟩
    · exact ⟨h₂.restSet_false, restSet_link s₂ false⟩
  · rw [if_neg hr]
    exact ⟨{ h with
      probing := by rintro ⟨⟩
      probe := rfl
      stamped := fun hr' => absurd hr' hr }, rfl⟩

/-- A probe that ends well ends its rest where the unit is awake, else it drops its own link. -/
theorem Ok.probeEnd_true (h : Ok p calls s.core) (hl : s.link ≠ .down) (e : Env) :
    Ok p calls (s.probeEnd e true).core := by
  obtain ⟨hover, hlink⟩ := (h.losing hl).probeOver e
  rw [Session.probeEnd_true]
  split_ifs with hc
  · have hd : Ending p calls ((s.probeOver e).act .disconnect).core := hover
    refine hd.linkClear.ok (linkClear_link _) fun _ hm hr => ?_
    rw [linkClear_mode] at hm
    rw [linkClear_rest] at hr
    exact hc.1.elim (fun h => absurd (hr.symm.trans h) Bool.false_ne_true) hm
  · have hl' : (s.probeOver e).link ≠ .down := by rwa [hlink]
    exact hover.ok_open hl' fun hq => hc ⟨hq, hl'⟩

/-- The reads change nothing about the link, but they may complete the pass. -/
def Reads (e : Env) (s r : State) : Prop :=
  ∃ s₁ : State, s₁.core = s.core ∧ (r.core = s₁.core ∨ r.core = (s₁.passEnd e).core)

theorem Reads.same {r : State} (h : r.core = s.core) : Reads e s r := ⟨r, h, .inl rfl⟩

theorem Reads.of_core {r t : State} (h : Reads e t r) (hc : t.core = s.core) : Reads e s r := by
  obtain ⟨s₁, h₁, hr⟩ := h
  exact ⟨s₁, h₁.trans hc, hr⟩

theorem Reads.core_eq {r t : State} (h : Reads e s t) (hc : r.core = t.core) : Reads e s r := by
  obtain ⟨s₁, h₁, hr⟩ := h
  exact ⟨s₁, h₁, hr.imp hc.trans hc.trans⟩

theorem subscribeAndWarm_core (s : State) : s.subscribeAndWarm.core = s.core := by
  have fold : ∀ (chars : List (String × ℕ)) (s : State),
      (chars.foldl (fun s c => s.act (.subscribe c.2)) s).core = s.core := by
    intro chars
    induction chars with
    | nil => exact fun _ => rfl
    | cons c chars ih => exact fun s => (ih _).trans rfl
  exact (fold _ _).trans rfl

theorem onReadWith_reads {next : State → State} (hnext : ∀ s, Reads e s (next s)) (s : State)
    (char : ℕ) (status : ℤ) (data : List Byte) :
    Reads e s (s.onReadWith next char status data) := by
  unfold State.onReadWith
  by_cases hv : s.variantPending ∧ char = vehicleChar
  · rw [if_pos hv]
    refine .same ((subscribeAndWarm_core _).trans ?_)
    split_ifs <;> rfl
  rw [if_neg hv]
  by_cases hh : s.heaterReading ∧ char = heaterChar
  · rw [if_pos hh]
    dsimp only
    split_ifs <;> exact .same rfl
  rw [if_neg hh]
  by_cases hw : s.rereading ∧ char = waterChar
  · rw [if_pos hw]
    dsimp only
    split_ifs <;> exact .same rfl
  rw [if_neg hw]
  cases readOrder[s.readIdx]? with
  | none => exact .same rfl
  | some c =>
    dsimp only
    by_cases hr : ¬ s.reading ∨ char ≠ c.2
    · rw [if_pos hr]
      exact .same rfl
    · rw [if_neg hr]
      refine (hnext _).of_core ?_
      split_ifs <;> rfl

theorem readInside_reads {next : State → State} (hnext : ∀ s, Reads e s (next s)) (s : State)
    (asker : Asker) (char : ℕ) (answer : Answer (ℤ × List Byte)) :
    Reads e s (s.readInside next asker char answer) := by
  unfold State.readInside State.readEvent
  cases answer.inside with
  | none => exact .same rfl
  | some r =>
    dsimp only
    split_ifs
    · exact (onReadWith_reads hnext _ char r.1 r.2).of_core rfl
    · exact .same rfl
    · exact .same rfl

theorem readNext_reads (e : Env) (n : ℕ) (s : State) : Reads e s (State.readNext e n s) := by
  induction n generalizing s with
  | zero => exact .same rfl
  | succ n ih =>
    unfold State.readNext
    cases readOrder[s.readIdx]? with
    | none => exact ⟨s, rfl, .inr rfl⟩
    | some c =>
      dsimp only
      by_cases hp : ¬ s.passReads c
      · rw [if_pos hp]
        exact (ih _).of_core rfl
      rw [if_neg hp]
      split_ifs
      · exact (readInside_reads ih _ _ _ _).of_core rfl
      · exact (ih _).of_core rfl

theorem callRead_reads (s : State) (e : Env) (asker : Asker) (char : ℕ)
    (answer : Answer (ℤ × List Byte)) : Reads e s (s.callRead e asker char answer) :=
  (readInside_reads (readNext_reads e turns) _ _ _ _).of_core rfl

theorem Ok.reads {r : State} (h : Ok p calls s.core) (hl : s.link = .up) (hr : Reads e s r) :
    Ok p calls r.core := by
  obtain ⟨s₁, h₁, hr | hr⟩ := hr
  · rw [hr, h₁]
    exact h
  · have hl₁ : s₁.link = .up := (congrArg Core.link h₁).trans hl
    rw [← h₁] at h
    set s₂ : State := { s₁.act .passDone with
      reading := false
      vehiclePre := false
      snapped := true
      waterNext := s₁.now + waterRereadMs } with hs₂
    have h₂ : Ok p calls s₂.core :=
      { h with read := fun _ => ⟨hl₁, .inr (List.cons_ne_nil _ _)⟩ }
    have hend : s₁.passEnd e = if s₂.probe then s₂.probeEnd e true else s₂ := rfl
    rw [hr, hend]
    split_ifs
    · exact h₂.probeEnd_true (by rw [show s₂.link = .up from hl₁]; rintro ⟨⟩) e
    · exact h₂

theorem onDiscovered_ok (h : Ok p calls s.core) (hl : s.link = .up) (status : ℤ) :
    Ok p calls (s.onDiscovered e status).core := by
  unfold State.onDiscovered
  dsimp only
  split_ifs
  · exact h.linkLost (by rw [hl]; rintro ⟨⟩) _ _
  · rw [subscribeAndWarm_core]
    exact h
  · exact h.reads hl ((callRead_reads s e _ _ _).core_eq rfl)
  · exact h.reads hl ((callRead_reads s e _ _ _).core_eq (subscribeAndWarm_core _))

theorem Base.linkFresh (h : Base p calls s.core) (ha : s.active = true)
    (hq : s.rest = true ∨ s.mode = .off → s.probe = true) : Ok p calls s.linkFresh.core :=
  { h with
    quiet := fun _ => rfl
    pending := by rintro ⟨⟩
    idle := fun hi => absurd ha (by rw [show s.active = false from hi]; exact Bool.false_ne_true)
    beating := fun _ => rfl
    cool := by rintro ⟨⟩
    lost := fun t ht => h.lost t (by
      have ht' : Act.linkDown t ∈ Act.linkUp :: s.core.changes := ht
      simpa using ht')
    read := by rintro ⟨⟩
    since := le_refl _
    held := fun _ _ => .inl rfl
    nextBeat := fun _ => .inl (le_refl _)
    opened := fun hc _ => hq hc
    linked := fun _ => by rintro ⟨⟩
    restCool := fun _ _ => by rintro ⟨⟩
    waiting := fun _ => (by rintro ⟨⟩) }

/-- A new link before its discovery is answered. -/
def State.linkOpened (s : State) (e : Env) : State :=
  let s := s.linkFresh.unitCheck e
  { s with slots := fun c => { s.slots c with live := false } }.act .discover

theorem linkUp_cases (s : State) (e : Env) :
    s.linkUp e = (s.linkOpened e).linkLost e "discover" e.discover.rc ∨
      (∃ status, s.linkUp e = ((s.linkOpened e).act .discovered).discoveredEvent e status) ∨
      s.linkUp e = s.linkOpened e := by
  have hend : s.linkUp e =
      let t := e.discover.inside.elim (s.linkOpened e) fun status =>
        if e.discover.rc = 0 then ((s.linkOpened e).act .discovered).discoveredEvent e status
        else s.linkOpened e
      if e.discover.rc ≠ 0 then t.linkLost e "discover" e.discover.rc else t := by
    unfold State.linkUp
    cases e.discover.inside <;> rfl
  rw [hend]
  dsimp only
  by_cases hrc : e.discover.rc = 0
  · rw [if_neg (not_not_intro hrc)]
    cases e.discover.inside with
    | none => exact .inr (.inr rfl)
    | some status => exact .inr (.inl ⟨status, if_pos hrc⟩)
  · rw [if_pos hrc]
    refine .inl ?_
    cases e.discover.inside with
    | none => rfl
    | some status => rw [Option.elim_some, if_neg hrc]

theorem unitCheck_core (s : State) (e : Env) : (s.unitCheck e).core = s.core := by
  unfold State.unitCheck
  split_ifs <;> rfl

theorem Base.linkUp (h : Base p calls s.core) (ha : s.active = true)
    (hq : s.rest = true ∨ s.mode = .off → s.probe = true) (e : Env) :
    Ok p calls (s.linkUp e).core := by
  have hc : (s.linkOpened e).core = s.linkFresh.core := unitCheck_core s.linkFresh e
  have hok : Ok p calls (s.linkOpened e).core := hc ▸ h.linkFresh ha hq
  have hl : (s.linkOpened e).link = .up := congrArg Core.link hc
  obtain hlost | ⟨status, hdisc⟩ | hlater := linkUp_cases s e
  · rw [hlost]
    exact hok.linkLost (by rw [hl]; rintro ⟨⟩) _ _
  · rw [hdisc]
    unfold State.discoveredEvent
    split_ifs
    · exact onDiscovered_ok (s := (s.linkOpened e).act .discovered) hok hl status
    · exact hok
  · rw [hlater]
    exact hok

end OpenCalifornia.Session
