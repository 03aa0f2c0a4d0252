import OpenCalifornia.Wifi.Causes

/-! # The setup hotspot that is meant to be up

The machine starts the hotspot when it enters a state. A start that failed waits for the next one:
ticks bring it while the station retries, a forget always. -/

namespace OpenCalifornia.Wifi
open Lib Lib.Bits Lib.Machine

def Call.isApStart : Call → Bool
  | .apStart _ _ _ => true
  | _ => false

/-- The part of the runtime that runs the hotspot. -/
structure Spot where
  sm : Sm
  now : ℕ
  running : Bool
  starts : List Call

def State.spot (w : State) : Spot where
  sm := w.sm
  now := w.now
  running := w.apRunning
  starts := w.calls.filter Call.isApStart

namespace Spot

def apStart (s : Spot) (e : Env) : Spot :=
  if s.running then s
  else
    match e.identity with
    | none => s
    | some (ssid, psk) => { s with
        running := e.apStart
        starts := .apStart ssid psk e.apStart :: s.starts }

def run (e : Env) (s : Spot) (a : Action) : Spot :=
  match a with
  | .apStart => s.apStart e
  | .apStop => { s with running := false }
  | _ => s

def feed (s : Spot) (e : Env) (ev : Ev) : Spot :=
  (s.sm.step ev).2.foldl (run e) { s with sm := (s.sm.step ev).1 }

end Spot

variable {w w' : State} {e : Env} {s : Spot}

theorem setOk_spot (ok : Bool) : (w.setOk e ok).spot = w.spot := by
  unfold State.setOk
  split_ifs <;> rfl

theorem startScan_spot : (w.startScan e).spot = w.spot := by
  unfold State.startScan
  split_ifs <;> rfl

theorem apStart_spot : (w.apStart e).spot = w.spot.apStart e := by
  have hrunning : w.spot.running = w.apRunning := rfl
  unfold State.apStart Spot.apStart
  rw [startScan_spot, hrunning]
  split_ifs
  · rfl
  · unfold State.openAp
    cases e.identity with
    | none => rfl
    | some identity => rfl

theorem staStart_spot : (w.staStart e).spot = w.spot := by
  unfold State.staStart
  split <;> rfl

theorem clearCreds_spot : (w.clearCreds e).spot = w.spot := setOk_spot false

theorem restorePrev_spot : (w.restorePrev e).spot = w.spot := by
  unfold State.restorePrev
  split
  · rfl
  · exact setOk_spot true

theorem runAction_spot (a : Action) : (w.runAction e a).spot = w.spot.run e a := by
  cases a with
  | apStart => exact apStart_spot
  | staStart => exact staStart_spot
  | clearCreds => exact clearCreds_spot
  | restorePrev => exact restorePrev_spot
  | apStop | staStop | mdns | logReason => rfl

theorem actions_spot (acts : List Action) :
    (acts.foldl (State.runAction e) w).spot = acts.foldl (Spot.run e) w.spot := by
  induction acts generalizing w with
  | nil => rfl
  | cons a acts ih => rw [List.foldl_cons, List.foldl_cons, ih, runAction_spot]

theorem feed_spot (ev : Ev) : (w.feed e ev).spot = w.spot.feed e ev := by
  have hall : ((w.sm.step ev).2.filter fun a => some a ≠ none) = (w.sm.step ev).2 :=
    List.filter_eq_self.mpr fun _ _ => rfl
  show ((((w.sm.step ev).2.filter fun a => some a ≠ none)).foldl (State.runAction e) _).spot = _
  rw [hall]
  exact actions_spot _

theorem tickFailed_spot : (w.tickFailed e).spot =
    if w.joinFailed then w.spot.feed e (.failed .other) else w.spot := by
  unfold State.tickFailed
  split_ifs
  · exact feed_spot _
  · rfl

theorem tick_spot (now : ℕ) : (w.tick e now).spot =
    (({ w with now } : State).tickFailed e).spot.feed e (.tick now) := by
  have hrssi : ∀ w : State, (w.tickRssi e now).spot = w.spot := by
    intro w
    unfold State.tickRssi
    split_ifs <;> rfl
  unfold State.tick
  dsimp only
  rw [hrssi, ← feed_spot]
  split_ifs
  · exact startScan_spot
  · rfl

theorem Spot.feed_failed (s : Spot) (e : Env) (reason : Reason) :
    s.feed e (.failed reason) = s ∧ s.sm.st ≠ .connecting ∨
    s.sm.st = .connecting ∧ s.sm.joinedOnce = .no ∧
      s.feed e (.failed reason) = { s with sm := .setup } ∨
    s.sm.st = .connecting ∧ s.sm.joinedOnce ≠ .no ∧
      s.feed e (.failed reason) = { s with sm := {
        st := .retrying, apUp := s.sm.apUp, joinedOnce := .yes, retryMs := retryMinMs } } := by
  obtain ⟨⟨st, apUp, joinedOnce, retryMs, sinceMs, nextTryMs⟩, now, running, starts⟩ := s
  cases st with
  | connecting =>
    cases joinedOnce with
    | no => exact .inr (.inl ⟨rfl, rfl, rfl⟩)
    | yes => exact .inr (.inr ⟨rfl, (by rintro ⟨⟩), rfl⟩)
    | replacing => exact .inr (.inr ⟨rfl, (by rintro ⟨⟩), rfl⟩)
  | unprovisioned | setupAp | online | retrying | setupApRetrying =>
    exact .inl ⟨rfl, (by rintro ⟨⟩)⟩

/-- The machine of a station that retries: it stamps the time, waits, or opens the hotspot. -/
theorem Sm.tickRetrying_time {m : Sm} (hst : m.st = .retrying) (now : ℕ) :
    m.sinceMs = 0 ∧ (m.tickRetrying now).1.st = .retrying ∧ (m.tickRetrying now).1.sinceMs = now ∧
      (m.tickRetrying now).2 = [] ∨
    m.sinceMs ≠ 0 ∧ now - m.sinceMs < setupAfterMs ∧ (m.tickRetrying now).1.st = .retrying ∧
      (m.tickRetrying now).1.sinceMs = m.sinceMs ∧ (m.tickRetrying now).2 ∈ [[], [.staStart]] ∨
    m.sinceMs ≠ 0 ∧ (m.tickRetrying now).2 ∈ [[.apStart], [.staStart, .apStart]] := by
  unfold tickRetrying
  split_ifs with hzero hdue
  · exact .inl ⟨hzero, hst, rfl, rfl⟩
  · dsimp only
    split_ifs with hlate
    · exact .inr (.inr ⟨hzero, by simp⟩)
    · have hearly : now - m.sinceMs < setupAfterMs := Nat.lt_of_not_le fun h => hlate ⟨hst, h⟩
      exact .inr (.inl ⟨hzero, hearly, hst, rfl, by simp⟩)
  · dsimp only
    split_ifs with hlate
    · exact .inr (.inr ⟨hzero, by simp⟩)
    · have hearly : now - m.sinceMs < setupAfterMs := Nat.lt_of_not_le fun h => hlate ⟨hst, h⟩
      exact .inr (.inl ⟨hzero, hearly, hst, rfl, by simp⟩)

theorem Spot.starts_apStart (hrunning : s.running = false) (hid : e.identity.isSome = true) :
    ∃ ssid psk, (s.apStart e).starts = .apStart ssid psk e.apStart :: s.starts := by
  obtain ⟨⟨ssid, psk⟩, hid⟩ := Option.isSome_iff_exists.mp hid
  refine ⟨ssid, psk, ?_⟩
  unfold Spot.apStart
  rw [hrunning, hid]
  rfl

theorem Spot.apStart_sm : (s.apStart e).sm = s.sm ∧ (s.apStart e).now = s.now := by
  unfold Spot.apStart
  split_ifs
  · exact ⟨rfl, rfl⟩
  · split <;> exact ⟨rfl, rfl⟩

theorem Spot.run_sm (s : Spot) (a : Action) : (s.run e a).sm = s.sm ∧ (s.run e a).now = s.now := by
  cases a with
  | apStart => exact Spot.apStart_sm
  | staStart | clearCreds | restorePrev | apStop | staStop | mdns | logReason => exact ⟨rfl, rfl⟩

theorem Spot.actions_sm (acts : List Action) (s : Spot) :
    (acts.foldl (Spot.run e) s).sm = s.sm ∧ (acts.foldl (Spot.run e) s).now = s.now := by
  induction acts generalizing s with
  | nil => exact ⟨rfl, rfl⟩
  | cons a acts ih =>
    obtain ⟨hsm, hnow⟩ := ih (s.run e a)
    obtain ⟨hsm', hnow'⟩ := s.run_sm (e := e) a
    exact ⟨hsm.trans hsm', hnow.trans hnow'⟩

theorem Spot.feed_tick_retry {m : Sm} {now : ℕ}
    (hst : s.sm.st = .retrying ∨ s.sm.st = .setupApRetrying)
    (hm : (s.sm.tickRetrying now).1 = m) (hacts : (s.sm.tickRetrying now).2 ∈ [[], [.staStart]]) :
    s.feed e (.tick now) = { s with sm := m } := by
  unfold Spot.feed
  rw [Sm.step_tick_retrying hst, hm]
  generalize (s.sm.tickRetrying now).2 = acts at hacts
  simp only [List.mem_cons, List.not_mem_nil, or_false] at hacts
  rcases hacts with rfl | rfl <;> rfl

/-- A tick of a station that retries starts the hotspot that is not running, or waits on. -/
theorem Spot.feed_tick_retrying (hst : s.sm.st = .retrying) (hrunning : s.running = false)
    (hid : e.identity.isSome = true) (now : ℕ) :
    (∃ ssid psk, .apStart ssid psk e.apStart ∈ (s.feed e (.tick now)).starts) ∨
    (s.feed e (.tick now)).sm.st = .retrying ∧ (s.feed e (.tick now)).running = false ∧
      (s.sm.sinceMs = 0 ∧ (s.feed e (.tick now)).sm.sinceMs = now ∨
        s.sm.sinceMs ≠ 0 ∧ now - s.sm.sinceMs < setupAfterMs ∧
          (s.feed e (.tick now)).sm.sinceMs = s.sm.sinceMs) := by
  obtain ⟨hzero, hst', hsince, hacts⟩ | ⟨hzero, hearly, hst', hsince, hacts⟩ | ⟨-, hacts⟩ :=
    s.sm.tickRetrying_time hst now
  · rw [Spot.feed_tick_retry (.inl hst) rfl (hacts ▸ List.mem_cons_self)]
    exact .inr ⟨hst', hrunning, .inl ⟨hzero, hsince⟩⟩
  · rw [Spot.feed_tick_retry (.inl hst) rfl hacts]
    exact .inr ⟨hst', hrunning, .inr ⟨hzero, hearly, hsince⟩⟩
  · have hfeed : s.feed e (.tick now) =
        ({ s with sm := (s.sm.tickRetrying now).1 } : Spot).apStart e := by
      unfold Spot.feed
      rw [Sm.step_tick_retrying (.inl hst)]
      generalize (s.sm.tickRetrying now).2 = acts at hacts
      simp only [List.mem_cons, List.not_mem_nil, or_false] at hacts
      rcases hacts with rfl | rfl <;> rfl
    obtain ⟨ssid, psk, hstarts⟩ :=
      Spot.starts_apStart (s := { s with sm := (s.sm.tickRetrying now).1 }) hrunning hid
    rw [hfeed, hstarts]
    exact .inl ⟨ssid, psk, .head _⟩

theorem Spot.feed_tick_idle (honline : s.sm.st ≠ .online) (hretrying : s.sm.st ≠ .retrying)
    (now : ℕ) : (s.feed e (.tick now)).sm.st = s.sm.st ∧
    (s.feed e (.tick now)).starts = s.starts := by
  by_cases hst : s.sm.st = .setupApRetrying
  · obtain ⟨-, hmove, -⟩ := s.sm.tickRetrying_cases now
    have hacts : (s.sm.tickRetrying now).2 ∈ [[], [.staStart]] := by
      unfold Sm.tickRetrying
      split_ifs
      · simp
      · dsimp only
        rw [if_neg fun h => hretrying h.1]
        simp
      · dsimp only
        rw [if_neg fun h => hretrying h.1]
        simp
    rw [Spot.feed_tick_retry (.inr hst) rfl hacts]
    exact ⟨hmove.resolve_right fun h => hretrying h.1, rfl⟩
  · obtain ⟨⟨st, _, _, _, _, _⟩, _, _, _⟩ := s
    cases st with
    | unprovisioned | setupAp | connecting => exact ⟨rfl, rfl⟩
    | online => exact absurd rfl honline
    | retrying => exact absurd rfl hretrying
    | setupApRetrying => exact absurd rfl hst

/-- The station retries its join, or will from the next tick on. -/
def Retries (w : State) : Prop :=
  w.sm.st = .retrying ∨ w.sm.st = .connecting ∧ w.joinFailed = true ∧ w.sm.joinedOnce ≠ .no

def StartsHotspot (r : Rec) : Prop := ∃ ssid psk ok, .apStart ssid psk ok ∈ r.out

theorem startsHotspot_of {op : Op} {ssid psk : List Byte} {ok : Bool}
    (h : .apStart ssid psk ok ∈ w'.spot.starts) :
    StartsHotspot ⟨(op, e), w, w'.calls.reverse, w'⟩ :=
  ⟨ssid, psk, ok, List.mem_reverse.mpr (List.mem_filter.mp h).1⟩

theorem starts_of_startsHotspot {op : Op} (h : StartsHotspot ⟨(op, e), w, w'.calls.reverse, w'⟩) :
    w'.spot.starts ≠ [] := by
  obtain ⟨ssid, psk, ok, h⟩ := h
  exact List.ne_nil_of_mem (List.mem_filter.mpr ⟨List.mem_reverse.mp h, rfl⟩)

theorem tickFailed_now : (w.tickFailed e).now = w.now := by
  have hspot : (w.tickFailed e).spot.now = w.now := by
    rw [tickFailed_spot]
    split_ifs
    · exact (Spot.actions_sm _ _).2
    · rfl
  exact hspot

theorem tick_now (now : ℕ) : (w.tick e now).now = now := by
  have hnow : (({ w with now } : State).tickFailed e).now = now := tickFailed_now
  have hspot : (w.tick e now).spot.now = now := by
    rw [tick_spot]
    exact (Spot.actions_sm _ _).2.trans hnow
  exact hspot

/-- A tick of a station that retries starts the hotspot that is not running, or waits on. -/
theorem tick_retries (h : Retries w) (hrunning : w.apRunning = false)
    (hid : e.identity.isSome = true) (now : ℕ) :
    (∃ ssid psk, .apStart ssid psk e.apStart ∈ (w.tick e now).spot.starts) ∨
    (w.tick e now).sm.st = .retrying ∧ (w.tick e now).apRunning = false ∧
      (((w.tick e now).sm.sinceMs = now ∧ (w.sm.st = .retrying → w.sm.sinceMs = 0)) ∨
        w.sm.sinceMs ≠ 0 ∧ now - w.sm.sinceMs < setupAfterMs ∧
          (w.tick e now).sm.sinceMs = w.sm.sinceMs) := by
  have hspot := tick_spot (w := w) (e := e) now
  have hfailed := tickFailed_spot (w := { w with now }) (e := e)
  generalize (({ w with now } : State).tickFailed e).spot = s at hspot hfailed
  obtain ⟨hst, hoff, hsince⟩ : s.sm.st = .retrying ∧ s.running = false ∧
      (s.sm.sinceMs = 0 ∧ w.sm.st ≠ .retrying ∨ s.sm.sinceMs = w.sm.sinceMs) := by
    have hw : ({ w with now } : State).joinFailed = w.joinFailed := rfl
    rw [hw] at hfailed
    obtain ⟨hsame, hno⟩ | ⟨hst, hj, -⟩ | ⟨hst, -, hto⟩ :=
      ({ w with now } : State).spot.feed_failed e .other
    · rw [hsame, ite_self] at hfailed
      rw [hfailed]
      exact ⟨h.resolve_right fun h => hno h.1, hrunning, .inr rfl⟩
    · obtain hretrying | ⟨-, -, hj'⟩ := h
      · have hboth := hretrying.symm.trans hst
        cases hboth
      · exact absurd hj hj'
    · have hne : w.sm.st ≠ .retrying := fun hretrying => by
        have hboth := hretrying.symm.trans hst
        cases hboth
      obtain hretrying | ⟨-, hjf, -⟩ := h
      · exact absurd hretrying hne
      · rw [if_pos hjf, hto] at hfailed
        rw [hfailed]
        exact ⟨rfl, hrunning, .inl ⟨rfl, hne⟩⟩
  have hsm : (w.tick e now).sm = (s.feed e (.tick now)).sm := congrArg Spot.sm hspot
  have hrun : (w.tick e now).apRunning = (s.feed e (.tick now)).running :=
    congrArg Spot.running hspot
  rw [hsm, hrun, hspot]
  obtain hstarts | ⟨hst', hoff', htime⟩ := Spot.feed_tick_retrying hst hoff hid now
  · exact .inl hstarts
  · refine .inr ⟨hst', hoff', ?_⟩
    obtain ⟨hzero, hto⟩ | ⟨hzero, hearly, hto⟩ := htime
    · refine .inl ⟨hto, fun hretrying => ?_⟩
      obtain ⟨-, hne⟩ | hsame := hsince
      · exact absurd hretrying hne
      · exact hsame.symm.trans hzero
    · obtain ⟨hnone, -⟩ | hsame := hsince
      · exact absurd hnone hzero
      · rw [hsame] at hzero hearly hto
        exact .inr ⟨hzero, hearly, hto⟩

/-- Neither online nor retrying: nothing but a request or an event brings the hotspot. -/
def Idle (w : State) : Prop := w.sm.st ≠ .online ∧ ¬ Retries w

theorem tick_connecting (hst : w.sm.st = .connecting) (hjf : w.joinFailed = false) (now : ℕ) :
    (w.tick e now).joinFailed = false := by
  have hcore := tick_core (w := w) (e := e) now
  have hjf' : ¬ w.joinFailed = true := ne_true_of_eq_false hjf
  have hsame : (({ w with now } : State).tickFailed e).core = w.core :=
    tickFailed_core.trans (if_neg hjf')
  have hidle : w.core.sm.st ≠ .retrying ∧ w.core.sm.st ≠ .setupApRetrying := by
    have hst' : w.core.sm.st = .connecting := hst
    rw [hst']
    exact ⟨(by rintro ⟨⟩), (by rintro ⟨⟩)⟩
  obtain ⟨sm, hfeed, -⟩ := w.core.feed_tick_idle (e := e) hidle now
  rw [hsame, hfeed] at hcore
  exact (congrArg Core.joinFailed hcore).trans hjf

theorem Idle.tick (h : Idle w) (now : ℕ) :
    Idle (w.tick e now) ∧ (w.tick e now).spot.starts = w.spot.starts := by
  obtain ⟨honline, hretries⟩ := h
  have hretrying : w.sm.st ≠ .retrying := fun h => hretries (.inl h)
  have hspot := tick_spot (w := w) (e := e) now
  have hfailed := tickFailed_spot (w := { w with now }) (e := e)
  generalize (({ w with now } : State).tickFailed e).spot = s at hspot hfailed
  obtain ⟨hon, hre, hstarts, hconnecting⟩ : s.sm.st ≠ .online ∧ s.sm.st ≠ .retrying ∧
      s.starts = w.spot.starts ∧
      (s.sm.st = .connecting → w.sm.st = .connecting ∧ w.joinFailed = false) := by
    have hw : ({ w with now } : State).joinFailed = w.joinFailed := rfl
    rw [hw] at hfailed
    cases hjf : w.joinFailed with
    | false =>
      rw [hjf, if_neg (by rintro ⟨⟩)] at hfailed
      rw [hfailed]
      exact ⟨honline, hretrying, rfl, fun hst => ⟨hst, rfl⟩⟩
    | true =>
      rw [if_pos hjf] at hfailed
      rw [hfailed]
      obtain ⟨hsame, hno⟩ | ⟨-, -, hto⟩ | ⟨hst, hj, -⟩ :=
        ({ w with now } : State).spot.feed_failed e .other
      · rw [hsame]
        exact ⟨honline, hretrying, rfl, fun hst => absurd hst hno⟩
      · rw [hto]
        exact ⟨(by rintro ⟨⟩), (by rintro ⟨⟩), rfl, (by rintro ⟨⟩)⟩
      · exact absurd (.inr ⟨hst, hjf, hj⟩) hretries
  obtain ⟨hst, hkept⟩ := Spot.feed_tick_idle (e := e) hon hre now
  have hst' : (w.tick e now).sm.st = s.sm.st := (congrArg (·.sm.st) hspot).trans hst
  refine ⟨⟨hst' ▸ hon, ?_⟩, (congrArg Spot.starts hspot).trans (hkept.trans hstarts)⟩
  rintro (hnow | ⟨hnow, hjf, -⟩)
  · exact hre (hst'.symm.trans hnow)
  · obtain ⟨hbefore, hclear⟩ := hconnecting (hst'.symm.trans hnow)
    have hboth := (tick_connecting hbefore hclear now).symm.trans hjf
    cases hboth

/-- The clock of the ticks does not go back. -/
def Clocked (r : Rec) : Prop :=
  match r.inp.1 with
  | .tick now => r.pre.now ≤ now
  | _ => True

instance (r : Rec) : Decidable (Clocked r) := by unfold Clocked; split <;> infer_instance

def IsTick (r : Rec) : Prop := ∃ now, r.inp.1 = .tick now

/-- The hotspot's name and password are available. -/
def Named (r : Rec) : Prop := r.inp.2.identity.isSome = true

/-- From the first tick, at a time after the boot, to the last one. -/
def Spans (ms : ℕ) (tr : List Rec) : Prop :=
  ∃ first last, tr.getLast? = some first ∧ tr.head? = some last ∧ 0 < first.post.now ∧
    first.post.now + ms ≤ last.post.now

/-- A station that has been retrying since a time stamp, for too short a time. -/
structure Waits (t : ℕ) (w : State) : Prop where
  st : w.sm.st = .retrying
  off : w.apRunning = false
  stamped : w.sm.sinceMs ≠ 0
  since : w.sm.sinceMs ≤ t
  early : w.now - w.sm.sinceMs < setupAfterMs

theorem Sm.tickRetrying_since (m : Sm) (now : ℕ) :
    (m.tickRetrying now).1.sinceMs = m.sinceMs ∨ (m.tickRetrying now).1.sinceMs = now := by
  unfold tickRetrying
  split_ifs
  · exact .inr rfl
  · dsimp only
    split_ifs <;> exact .inl rfl
  · dsimp only
    split_ifs <;> exact .inl rfl

theorem Sm.step_since (m : Sm) (ev : Ev) : (m.step ev).1.sinceMs = m.sinceMs ∨
    (m.step ev).1.sinceMs = 0 ∨ ∃ now, ev = .tick now ∧ (m.step ev).1.sinceMs = now := by
  obtain ⟨st, apUp, joinedOnce, retryMs, sinceMs, nextTryMs⟩ := m
  cases ev with
  | credsForget => exact .inr (.inl rfl)
  | bootNoCreds | bootWithCreds | credsSet | gotIp | lost | apStarted =>
    cases st <;> first | exact .inl rfl | exact .inr (.inl rfl)
  | credsReplace =>
    unfold step
    dsimp only
    split_ifs
    · exact .inr (.inl rfl)
    · exact .inl rfl
  | failed reason =>
    cases st with
    | connecting =>
      unfold step
      dsimp only
      split_ifs <;> exact .inr (.inl rfl)
    | unprovisioned | setupAp | online | retrying | setupApRetrying => exact .inl rfl
  | tick now =>
    cases st with
    | unprovisioned | setupAp | connecting => exact .inl rfl
    | online =>
      unfold step
      dsimp only
      split_ifs
      · exact .inr (.inr ⟨now, rfl, rfl⟩)
      · exact .inl rfl
      · exact .inl rfl
    | retrying | setupApRetrying =>
      obtain hsame | hnow := tickRetrying_since ⟨_, apUp, joinedOnce, retryMs, sinceMs,
          nextTryMs⟩ now
      · exact .inl hsame
      · exact .inr (.inr ⟨now, rfl, hnow⟩)

/-- The time stamp of the machine is not in the future. -/
def Young (w : State) : Prop := w.sm.sinceMs ≤ w.now

theorem Young.of_spot (h : Young w) (hspot : w'.spot = w.spot) : Young w' := by
  have hsm : w'.sm = w.sm := congrArg Spot.sm hspot
  have hnow : w'.now = w.now := congrArg Spot.now hspot
  unfold Young
  rw [hsm, hnow]
  exact h

theorem Young.feedSkip {ev : Ev} (h : Young w) (hev : ∀ now, ev = .tick now → now ≤ w.now)
    (skip : Option Action) : Young (w.feedSkip e ev skip) := by
  have hspot : (w.feedSkip e ev skip).spot =
      ((w.sm.step ev).2.filter fun a => some a ≠ skip).foldl (Spot.run e)
        { w.spot with sm := (w.sm.step ev).1 } := actions_spot _
  obtain ⟨hsm, hnow⟩ := Spot.actions_sm (e := e)
    ((w.sm.step ev).2.filter fun a => some a ≠ skip) { w.spot with sm := (w.sm.step ev).1 }
  rw [← hspot] at hsm hnow
  have hsm' : (w.feedSkip e ev skip).sm = (w.sm.step ev).1 := hsm
  have hnow' : (w.feedSkip e ev skip).now = w.now := hnow
  unfold Young
  rw [hsm', hnow']
  obtain hsame | hzero | ⟨now, rfl, hto⟩ := w.sm.step_since ev
  · exact hsame.symm ▸ h
  · exact hzero.symm ▸ Nat.zero_le _
  · exact hto.symm ▸ hev now rfl

theorem Young.feed {ev : Ev} (h : Young w) (hev : ∀ now, ev ≠ .tick now) : Young (w.feed e ev) :=
  h.feedSkip (fun now he => absurd he (hev now)) none

theorem Young.onNet (h : Young w) (ev : NetEv) : Young (w.onNet e ev) := by
  cases ev with
  | gotIp ip =>
    have hfeed : Young (({ w with joining := none } : State).feed e .gotIp) :=
      Young.feed (w := { w with joining := none }) h (by rintro _ ⟨⟩)
    have honline : ∀ w : State, (w.online e ip).spot = w.spot := by
      intro w
      unfold State.online State.setOk
      split_ifs <;> rfl
    dsimp only [State.onNet]
    split_ifs
    · exact hfeed.of_spot (honline _)
    · exact hfeed
  | lost =>
    dsimp only [State.onNet]
    split_ifs
    · exact Young.feed (w := { w with ip := 0, rssi := 0 }) h (by rintro _ ⟨⟩)
    · exact h.feed (by rintro _ ⟨⟩)
  | failed reason => exact Young.feed (w := { w with joining := none }) h (by rintro _ ⟨⟩)
  | apStarted => exact h.feed (by rintro _ ⟨⟩)
  | scanDone list => cases list <;> exact h
  | apStopped => exact h

theorem Young.tick {now : ℕ} (h : Young w) (hnow : w.now ≤ now) : Young (w.tick e now) := by
  have hlater : Young { w with now } := Nat.le_trans h hnow
  have hfailed : Young (({ w with now } : State).tickFailed e) := by
    unfold State.tickFailed
    split_ifs
    · exact Young.feed (w := { w with now, joinFailed := false }) hlater (by rintro _ ⟨⟩)
    · exact hlater
  have hat : (({ w with now } : State).tickFailed e).now = now := tickFailed_now
  have hfeed : Young ((({ w with now } : State).tickFailed e).feed e (.tick now)) :=
    hfailed.feedSkip (fun t he => by
      cases he
      exact Nat.le_of_eq hat.symm) none
  exact hfeed.of_spot ((tick_spot now).trans (feed_spot _).symm)

theorem Young.feedCredsSet (h : Young w) : Young (w.feedCredsSet e) :=
  Young.feed (w := { w.newAttempt with prev := none }) h (by rintro _ ⟨⟩)

theorem Young.join (h : Young w) : Young (w.join e) := by
  unfold State.join
  split_ifs
  · exact h.feedCredsSet
  · exact Young.feed (w := ({ w with ip := 0, rssi := 0 } : State).newAttempt) h (by rintro _ ⟨⟩)
  · have hskip : Young (({ w with ip := 0, rssi := 0 } : State).feedSkip e .credsForget
        (some .clearCreds)) := Young.feedSkip (w := { w with ip := 0, rssi := 0 }) h
          (fun _ he => by cases he) _
    exact hskip.feedCredsSet
  · exact h

theorem Young.apply (h : Young w) {op : Op} (hop : ∀ now, op = .tick now → w.now ≤ now) :
    Young (op.apply e w) := by
  cases op with
  | boot =>
    have hboot : ∀ v : State, v.sm.sinceMs = 0 → Young v := fun v hv =>
      Nat.le_trans (Nat.le_of_eq hv) (Nat.zero_le v.now)
    show Young (State.boot w.kv e)
    unfold State.boot
    dsimp only
    split_ifs
    · exact Young.feedCredsSet (Young.feed (hboot _ rfl) (by rintro _ ⟨⟩))
    · exact Young.feed (hboot _ rfl) (by rintro _ ⟨⟩)
    · exact Young.feed (hboot _ rfl) (by rintro _ ⟨⟩)
  | net ev => exact h.onNet ev
  | tick now => exact h.tick (hop now rfl)
  | setCreds c =>
    show Young (State.setCreds { w with kv := w.kv.store c } e c.ssid c.psk)
    unfold State.setCreds
    split_ifs
    · exact h
    · rw [Creds.of?_eq]
      exact Young.join (Young.of_spot h (setOk_spot false))
  | forget =>
    exact Young.feed (w := { w with ip := 0, rssi := 0, reverted := false, prev := none }) h
      (by rintro _ ⟨⟩)
  | scan => exact h.of_spot startScan_spot
  | scanAuto =>
    show Young (w.scanAuto e)
    unfold State.scanAuto
    split_ifs
    · exact h.of_spot startScan_spot
    · exact h

theorem young_run {kv : Kv} {tr : List Rec} (h : Run step (start kv) tr w)
    (hclock : ∀ r ∈ tr, Clocked r) : Young w := by
  induction h with
  | nil => exact Nat.le_refl 0
  | @cons tr w w' i out hrun hs ih =>
    have hold : Young w := ih fun r hr => hclock r (.tail _ hr)
    obtain ⟨op, e⟩ := i
    obtain ⟨-, rfl⟩ := Prod.mk.inj (Option.some.inj hs)
    refine Young.apply (w := w.begin) hold fun now he => ?_
    have hnow : Clocked _ := hclock _ (.head _)
    cases he
    exact hnow

theorem Waits.first {now : ℕ} (h : Retries w) (hrunning : w.apRunning = false)
    (hid : e.identity.isSome = true) (hyoung : Young w) (hclock : w.now ≤ now) (hnow : 0 < now) :
    (∃ ssid psk, .apStart ssid psk e.apStart ∈ (w.tick e now).spot.starts) ∨
      Waits now (w.tick e now) := by
  refine (tick_retries h hrunning hid now).imp_right ?_
  rintro ⟨hst, hoff, htime⟩
  obtain ⟨hto, -⟩ | ⟨hzero, hearly, hto⟩ := htime
  · refine ⟨hst, hoff, fun hzero => Nat.ne_of_gt hnow (hto.symm.trans hzero), Nat.le_of_eq hto, ?_⟩
    rw [tick_now, hto, Nat.sub_self]
    decide
  · refine ⟨hst, hoff, hto ▸ hzero, hto ▸ Nat.le_trans hyoung hclock, ?_⟩
    rw [tick_now, hto]
    exact hearly

theorem Waits.tick {t : ℕ} (h : Waits t w) (hid : e.identity.isSome = true) (now : ℕ) :
    (∃ ssid psk, .apStart ssid psk e.apStart ∈ (w.tick e now).spot.starts) ∨
      Waits t (w.tick e now) := by
  refine (tick_retries (.inl h.st) h.off hid now).imp_right ?_
  rintro ⟨hst, hoff, htime⟩
  obtain ⟨-, hstamp⟩ | ⟨hzero, hearly, hto⟩ := htime
  · exact absurd (hstamp h.st) h.stamped
  · refine ⟨hst, hoff, hto ▸ hzero, hto ▸ h.since, ?_⟩
    rw [tick_now, hto]
    exact hearly

variable {tr : List Rec}

/-- The ticks so far started the hotspot, or the station waits since a time before the first. -/
theorem waits_run (h : Run step w tr w') (hretries : Retries w) (hoff : w.apRunning = false)
    (hyoung : Young w) (hticks : ∀ r ∈ tr, IsTick r ∧ Clocked r ∧ Named r) :
    (∃ r ∈ tr, StartsHotspot r) ∨ tr = [] ∧ w' = w ∨
      ∃ first, tr.getLast? = some first ∧ (0 < first.post.now → Waits first.post.now w') := by
  induction h with
  | nil => exact .inr (.inl ⟨rfl, rfl⟩)
  | @cons tr w₁ w₂ i out hrun hs ih =>
    obtain ⟨⟨now, hop⟩, hclock, hid⟩ := hticks _ (.head _)
    have hold := ih fun r hr => hticks r (.tail _ hr)
    obtain ⟨op, e⟩ := i
    obtain ⟨rfl, rfl⟩ := Prod.mk.inj (Option.some.inj hs)
    cases hop
    have hclock' : w₁.now ≤ now := hclock
    have hid' : e.identity.isSome = true := hid
    obtain ⟨r, hr, hstarts⟩ | ⟨rfl, rfl⟩ | ⟨first, hfirst, hwaits⟩ := hold
    · exact .inl ⟨r, .tail _ hr, hstarts⟩
    · by_cases hnow : 0 < now
      · obtain ⟨ssid, psk, hstarts⟩ | hwaits :=
          Waits.first (w := w₁.begin) hretries hoff hid' hyoung hclock' hnow
        · exact .inl ⟨_, .head _, startsHotspot_of hstarts⟩
        · refine .inr (.inr ⟨_, rfl, fun _ => ?_⟩)
          have hpost : (w₁.begin.tick e now).now = now := tick_now now
          show Waits (w₁.begin.tick e now).now (w₁.begin.tick e now)
          rw [hpost]
          exact hwaits
      · refine .inr (.inr ⟨_, rfl, fun hpos => absurd ?_ hnow⟩)
        have hpost : (w₁.begin.tick e now).now = now := tick_now now
        exact hpost ▸ hpos
    · have hlast : ∀ r : Rec, (r :: tr).getLast? = some first := fun r => by
        rw [List.getLast?_cons, hfirst]
        rfl
      by_cases hpos : 0 < first.post.now
      · have hwaits' : Waits first.post.now w₁.begin := ⟨(hwaits hpos).st, (hwaits hpos).off,
          (hwaits hpos).stamped, (hwaits hpos).since, (hwaits hpos).early⟩
        obtain ⟨ssid, psk, hstarts⟩ | hwaits := hwaits'.tick hid' now
        · exact .inl ⟨_, .head _, startsHotspot_of hstarts⟩
        · exact .inr (.inr ⟨first, hlast _, fun _ => hwaits⟩)
      · exact .inr (.inr ⟨first, hlast _, fun h => absurd h hpos⟩)

theorem idle_run (h : Run step w tr w') (hidle : Idle w) (hticks : ∀ r ∈ tr, IsTick r) :
    Idle w' ∧ ∀ r ∈ tr, ¬ StartsHotspot r := by
  induction h with
  | nil => exact ⟨hidle, List.forall_mem_nil _⟩
  | @cons tr w₁ w₂ i out hrun hs ih =>
    obtain ⟨now, hop⟩ := hticks _ (.head _)
    obtain ⟨hold, hnone⟩ := ih fun r hr => hticks r (.tail _ hr)
    obtain ⟨op, e⟩ := i
    obtain ⟨rfl, rfl⟩ := Prod.mk.inj (Option.some.inj hs)
    cases hop
    obtain ⟨hidle', hkept⟩ := Idle.tick (w := w₁.begin) (e := e) hold now
    refine ⟨hidle', List.forall_mem_cons.mpr ⟨fun h => ?_, hnone⟩⟩
    have hne : (w₁.begin.tick e now).spot.starts ≠ [] := starts_of_startsHotspot h
    exact hne hkept

theorem forget_starts (w : State) (hoff : w.apRunning = false) (hid : e.identity.isSome = true) :
    ∃ out w', step (.forget, e) w = some (out, w') ∧ StartsHotspot ⟨(.forget, e), w, out, w'⟩ := by
  have hspot : (w.begin.forget e).spot = ({ w.begin.spot with sm := .setup } : Spot).apStart e :=
    feed_spot _
  obtain ⟨ssid, psk, hstarts⟩ :=
    Spot.starts_apStart (s := { w.begin.spot with sm := .setup }) hoff hid
  have hmem : .apStart ssid psk e.apStart ∈ (w.begin.forget e).spot.starts := by
    rw [hspot, hstarts]
    exact .head _
  exact ⟨_, _, rfl, startsHotspot_of hmem⟩

/-- A hotspot that is not running, in any state reached: online none is needed. A station that
retries starts it within the time in which it would open it; else ticks never do. A forget does. -/
theorem hotspot_restarts {kv : Kv} (h : Run step (start kv) tr w) (hclock : ∀ r ∈ tr, Clocked r)
    (hoff : w.apRunning = false) :
    (Retries w → ∀ later w', Run step w later w' →
      (∀ r ∈ later, IsTick r ∧ Clocked r ∧ Named r) → Spans setupAfterMs later →
        ∃ r ∈ later, StartsHotspot r) ∧
    (w.sm.st ≠ .online → ¬ Retries w → ∀ later w', Run step w later w' →
      (∀ r ∈ later, IsTick r) → ∀ r ∈ later, ¬ StartsHotspot r) ∧
    ∀ e : Env, e.identity.isSome = true →
      ∃ out w', step (.forget, e) w = some (out, w') ∧
      StartsHotspot ⟨(.forget, e), w, out, w'⟩ := by
  refine ⟨fun hretries later w' hlater hticks hspan => ?_,
    fun honline hretries later w' hlater hticks => (idle_run hlater ⟨honline, hretries⟩ hticks).2,
    fun e => forget_starts w hoff⟩
  obtain ⟨first, last, hfirst, hlast, hpos, hlong⟩ := hspan
  obtain hstarts | ⟨rfl, -⟩ | ⟨first', hfirst', hwaits⟩ :=
    waits_run hlater hretries hoff (young_run h hclock) hticks
  · exact hstarts
  · cases hfirst
  · cases Option.some.inj (hfirst.symm.trans hfirst')
    obtain ⟨-, -, -, hsince, hearly⟩ := hwaits hpos
    cases hlater with
    | nil => cases hlast
    | cons hrun hs =>
      cases hlast
      have hnow : first.post.now + setupAfterMs ≤ w'.now := hlong
      omega

/-- The hotspot does not start. -/
def Env.noHotspot : Env := { Env.willing with apStart := false }

/-- A network lost after its setup, where the hotspot had not started. -/
theorem hotspot_restarts_lost : ∃ tr w later w', Run step (start {}) tr w ∧ w.sm.apUp = true ∧
    w.apRunning = false ∧ Run step w later w' ∧ ∃ r ∈ later, StartsHotspot r := by
  have hrun : Run step (start {}) [_, _, _, _] _ :=
    .cons (i := (.net .lost, .willing)) (.cons (i := (.net (.gotIp 1), .willing))
      (.cons (i := (.setCreds home, .willing)) (.cons (i := (.boot, .noHotspot)) .nil rfl)
        rfl) rfl) rfl
  refine ⟨_, _, [_, _], _, hrun, rfl, rfl, .cons (i := (.tick 300001, .willing))
    (.cons (i := (.tick 1, .willing)) .nil rfl) rfl, ?_⟩
  refine (hotspot_restarts hrun ?_ rfl).1 (.inl rfl) _ _ (.cons (.cons .nil rfl) rfl) ?_
    ⟨_, _, rfl, rfl, ?_, ?_⟩
  · simp [Clocked]
  · exact List.forall_mem_cons.mpr ⟨⟨⟨_, rfl⟩, by decide, rfl⟩,
      List.forall_mem_singleton.mpr ⟨⟨_, rfl⟩, by decide, rfl⟩⟩
  · decide
  · decide

/-- A hotspot that did not start at the first boot stays down, however long the ticks go on. -/
theorem setup_without_hotspot : ∃ tr w later w', Run step (start {}) tr w ∧ w.sm.apUp = true ∧
    w.apRunning = false ∧ Run step w later w' ∧
    (∀ r ∈ later, IsTick r ∧ Clocked r ∧ Named r) ∧ Spans setupAfterMs later ∧
    (∀ r ∈ later, ¬ StartsHotspot r) ∧ w'.sm.st ≠ .online := by
  have hrun : Run step (start {}) [_] _ := .cons (i := (.boot, .noHotspot)) .nil rfl
  refine ⟨_, _, [_, _], _, hrun, rfl, rfl, .cons (i := (.tick 300001, .willing))
    (.cons (i := (.tick 1, .willing)) .nil rfl) rfl, ?_, ⟨_, _, rfl, rfl, ?_, ?_⟩, ?_,
      (by rintro ⟨⟩)⟩
  · exact List.forall_mem_cons.mpr ⟨⟨⟨_, rfl⟩, by decide, rfl⟩,
      List.forall_mem_singleton.mpr ⟨⟨_, rfl⟩, by decide, rfl⟩⟩
  · decide
  · decide
  · refine List.forall_mem_cons.mpr ⟨?_, List.forall_mem_singleton.mpr ?_⟩
    · rintro ⟨_, _, _, h⟩; exact absurd h List.not_mem_nil
    · rintro ⟨_, _, _, h⟩; exact absurd h List.not_mem_nil

end OpenCalifornia.Wifi
