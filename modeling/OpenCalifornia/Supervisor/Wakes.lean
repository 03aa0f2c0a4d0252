import Mathlib
import OpenCalifornia.Supervisor.State

/-! # Wakes that are not lost, and sessions that are closed -/

namespace OpenCalifornia.Supervisor
open Lib.Machine

variable {c : Config} {s s' : State} {op : Op} {i : ℕ} {f : Sess → Sess}

/-- What holds between two steps. -/
structure Inv (s : State) : Prop where
  wake : s.due = true → s.wake = true
  ended : ∀ r i x, s.pc = .close .link r → s.session = some i → s.sessions[i]? = some x →
    x.beat ≠ .running
  starting : (s.pc = .connect ∨ ∃ i, s.pc = .subscribe i ∨ s.pc = .warm i) → s.session = none
  fresh : ∀ i x, s.pc = .subscribe i → s.sessions[i]? = some x → x.held = false
  closed : s.Closed

theorem getElem?_update {j : ℕ} {y : Sess} (h : (s.update i f).sessions[j]? = some y) :
    ∃ x, s.sessions[j]? = some x ∧ y = if i = j then f x else x := by
  rw [State.update, List.getElem?_modify] at h
  obtain ⟨x, hx, rfl⟩ := Option.map_eq_some_iff.mp h
  exact ⟨x, hx, rfl⟩

/-- A change of a session that opens nothing. -/
structure Tame (f : Sess → Sess) : Prop where
  held : ∀ x, (f x).held = true → x.held = true
  connected : ∀ x, x.connected = false → (f x).connected = false
  beat : ∀ x, x.beat ≠ .running → (f x).beat ≠ .running

theorem State.Closed.update (h : s.Closed) (hf : Tame f) (i : ℕ) : (s.update i f).Closed := by
  intro j y hy hheld hsession
  obtain ⟨x, hx, rfl⟩ := getElem?_update hy
  by_cases hij : i = j
  · rw [if_pos hij] at hheld ⊢
    obtain ⟨hconn, hbeat⟩ := h j x hx (hf.held x hheld) hsession
    exact ⟨hf.connected x hconn, hf.beat x hbeat⟩
  · rw [if_neg hij] at hheld ⊢
    exact h j x hx hheld hsession

theorem Inv.update (h : Inv s) (hf : Tame f) (i : ℕ) : Inv (s.update i f) := by
  refine ⟨h.wake, fun r j y hpc hsession hy => ?_, h.starting, fun j y hpc hy => ?_,
    h.closed.update hf i⟩
  · obtain ⟨x, hx, rfl⟩ := getElem?_update hy
    have hbeat := h.ended r j x hpc hsession hx
    split_ifs
    · exact hf.beat x hbeat
    · exact hbeat
  · obtain ⟨x, hx, rfl⟩ := getElem?_update hy
    have hheld := h.fresh j x hpc hx
    split_ifs
    · exact Bool.eq_false_iff.mpr fun ht => Bool.false_ne_true (hheld.symm.trans (hf.held x ht))
    · exact hheld

/-- A wait that is neither the end of a close nor part of a start. -/
def Pc.plain : Pc → Bool
  | .close .link _ | .connect | .subscribe _ | .warm _ => false
  | _ => true

theorem inv_plain (hwake : s.due = true → s.wake = true) (hclosed : s.Closed)
    (hpc : s.pc.plain = true) : Inv s where
  wake := hwake
  ended r _ _ hp := by
    rw [hp] at hpc
    cases hpc
  starting hp := by
    rcases hp with hp | ⟨i, hp | hp⟩ <;> rw [hp] at hpc <;> cases hpc
  fresh i _ hp := by
    rw [hp] at hpc
    cases hpc
  closed := hclosed

theorem evaluate_cases (c : Config) (s : State) :
    ∃ pc st, s.evaluate c = { s with due := false, sessionState := st, pc := pc } ∧
      (pc = .releaseLock ∨ (∃ d, pc = .idle d) ∨ (∃ d, pc = .sleep d) ∨ pc = .connectLock) := by
  unfold State.evaluate State.toIdle
  dsimp only
  split_ifs
  · exact ⟨_, s.sessionState, rfl, .inl rfl⟩
  · exact ⟨_, _, rfl, .inr (.inl ⟨_, rfl⟩)⟩
  · exact ⟨_, s.sessionState, rfl, .inr (.inr (.inl ⟨_, rfl⟩))⟩
  · exact ⟨_, s.sessionState, rfl, .inr (.inr (.inr rfl))⟩

theorem inv_evaluate (c : Config) (h : s.Closed) : Inv (s.evaluate c) := by
  obtain ⟨pc, st, heq, hpc⟩ := evaluate_cases c s
  rw [heq]
  refine inv_plain (fun hd => (by cases hd)) h ?_
  rcases hpc with rfl | ⟨d, rfl⟩ | ⟨d, rfl⟩ | rfl <;> rfl

theorem evaluate_due (c : Config) (s : State) : (s.evaluate c).due = false := by
  obtain ⟨pc, st, heq, -⟩ := evaluate_cases c s
  rw [heq]

theorem Inv.dropped (h : Inv s) {r : Bool} (hpc : s.pc = .close .link r) (hi : s.session = some i) :
    State.Closed { s.update i (fun x => { x with connected := false, client := false }) with
      session := none } := by
  intro j y hy hheld _
  obtain ⟨x, hx, rfl⟩ := getElem?_update hy
  by_cases hij : i = j
  · subst hij
    rw [if_pos rfl]
    exact ⟨rfl, h.ended r i x hpc hi hx⟩
  · rw [if_neg hij] at hheld ⊢
    exact h.closed j x hx hheld fun hj => hij (Option.some.inj (hi.symm.trans hj))

theorem Inv.failed (h : Inv s) (hs : s.session = none) : Inv s.failed := by
  have hclosed : State.Closed { s with session := none } := fun j x hx hheld _ =>
    h.closed j x hx hheld fun hj => by cases hs.symm.trans hj
  exact inv_plain h.wake hclosed rfl

theorem tame_stop : Tame fun x => { x with stop := true } :=
  ⟨fun _ h => h, fun _ h => h, fun _ h => h⟩

theorem tame_drop : Tame fun x => { x with isConnected := false } :=
  ⟨fun _ h => h, fun _ h => h, fun _ h => h⟩

theorem tame_beatEnds :
    Tame fun x => if x.stop ∧ x.beat = .running then { x with beat := .done } else x := by
  refine ⟨fun x h => ?_, fun x h => ?_, fun x h => ?_⟩
  · split_ifs at h <;> exact h
  · split_ifs <;> exact h
  · split_ifs with hb
    · exact absurd hb.2 h
    · exact h

theorem inv_resume {ok : Bool} (h : Inv s) (hs : s.resume c ok = some s') : Inv s' := by
  unfold State.resume at hs
  split at hs
  case h_1 hpc =>
    obtain ⟨-, hs⟩ := Option.ite_none_right_eq_some.mp hs
    obtain rfl := Option.some.inj hs
    exact inv_plain h.wake h.closed rfl
  case h_2 replace hpc =>
    obtain ⟨i, -, rfl⟩ := Option.map_eq_some_iff.mp hs
    exact inv_plain h.wake (h.closed.update tame_stop i) rfl
  case h_3 replace hpc =>
    obtain ⟨hbeat, hs⟩ := Option.ite_none_left_eq_some.mp hs
    obtain rfl := Option.some.inj hs
    refine ⟨h.wake, fun r i x _ hi hx hrun => ?_, fun hp => ?_, fun i x hp => ?_, h.closed⟩
    · refine hbeat ?_
      have hi : s.session = some i := hi
      have hx : s.sessions[i]? = some x := hx
      rw [hi, Option.bind_some, hx, Option.any_some, hrun]
      rfl
    · rcases hp with hp | ⟨i, hp | hp⟩ <;> cases hp
    · cases hp
  case h_4 replace hpc =>
    obtain ⟨i, hi, rfl⟩ := Option.map_eq_some_iff.mp hs
    have hclosed := h.dropped hpc hi
    dsimp only
    split_ifs
    · refine ⟨h.wake, fun r j x hp => ?_, fun _ => rfl, fun j x hp => ?_, hclosed⟩
      · cases hp
      · cases hp
    · exact inv_plain h.wake hclosed rfl
  case h_5 =>
    obtain ⟨-, hs⟩ := Option.ite_none_right_eq_some.mp hs
    obtain rfl := Option.some.inj hs
    exact inv_evaluate c h.closed
  case h_6 =>
    obtain ⟨-, hs⟩ := Option.ite_none_right_eq_some.mp hs
    obtain rfl := Option.some.inj hs
    exact inv_evaluate c h.closed
  case h_7 =>
    obtain ⟨-, hs⟩ := Option.ite_none_right_eq_some.mp hs
    obtain rfl := Option.some.inj hs
    refine ⟨h.wake, fun r i x hp => ?_, fun hp => ?_, fun i x hp => ?_, h.closed⟩
    · dsimp only at hp
      split_ifs at hp
      cases hp
    · cases hsess : s.session with
      | none => rfl
      | some j =>
        rw [hsess] at hp
        rcases hp with hp | ⟨i, hp | hp⟩ <;> cases hp
    · dsimp only at hp
      split_ifs at hp
  case h_8 hpc =>
    have hnone := h.starting (.inl hpc)
    cases ok with
    | false =>
      obtain rfl := Option.some.inj hs
      exact h.failed hnone
    | true =>
      obtain rfl := Option.some.inj hs
      refine ⟨h.wake, fun r i x hp => ?_, fun _ => hnone, fun i x hp hx => ?_,
        fun j x hx hheld hj => ?_⟩
      · cases hp
      · cases hp
        have hx : (s.sessions ++ [({} : Sess)])[s.sessions.length]? = some x := hx
        rw [List.getElem?_concat_length] at hx
        exact Option.some.inj hx ▸ rfl
      · have hx : (s.sessions ++ [({} : Sess)])[j]? = some x := hx
        rw [List.getElem?_append] at hx
        split_ifs at hx
        · exact h.closed j x hx hheld hj
        · obtain rfl := List.mem_singleton.mp (List.mem_of_getElem? hx)
          cases hheld
  case h_9 i hpc =>
    have hnone := h.starting (.inr ⟨i, .inl hpc⟩)
    cases ok with
    | false =>
      obtain rfl := Option.some.inj hs
      exact h.failed hnone
    | true =>
      obtain rfl := Option.some.inj hs
      refine ⟨h.wake, fun r j x hp => ?_, fun _ => hnone, fun j x hp => ?_,
        fun j y hy hheld hj => ?_⟩
      · cases hp
      · cases hp
      · obtain ⟨x, hx, rfl⟩ := getElem?_update hy
        by_cases hij : i = j
        · subst hij
          rw [if_pos rfl] at hheld
          exact absurd hheld (by rw [h.fresh i x hpc hx]; exact Bool.false_ne_true)
        · rw [if_neg hij] at hheld ⊢
          exact h.closed j x hx hheld hj
  case h_10 i hpc =>
    have hnone := h.starting (.inr ⟨i, .inr hpc⟩)
    obtain rfl := Option.some.inj hs
    refine inv_evaluate c fun j y hy hheld hj => ?_
    obtain ⟨x, hx, rfl⟩ := getElem?_update hy
    have hij : i ≠ j := fun h => hj (congrArg some h)
    rw [if_neg hij] at hheld ⊢
    exact h.closed j x hx hheld fun hj => by cases hnone.symm.trans hj
  case h_11 =>
    obtain ⟨-, hs⟩ := Option.ite_none_right_eq_some.mp hs
    obtain rfl := Option.some.inj hs
    exact inv_evaluate c h.closed

/-- What a request or the clock does while the supervisor waits. -/
structure Meanwhile (c : Config) (op : Op) (s s' : State) : Prop where
  pc : s'.pc = s.pc
  session : s'.session = s.session
  now : s.now ≤ s'.now
  woken : op.wakes c s = true → s'.wake = true ∧ s'.due = true ∧ s'.now = s.now
  quiet : op.wakes c s = false → s'.wake = s.wake ∧ s'.due = s.due

theorem meanwhile_quiet (hw : op.wakes c s = false) (hpc : s'.pc = s.pc)
    (hsession : s'.session = s.session) (hnow : s.now ≤ s'.now)
    (hwake : s'.wake = s.wake ∧ s'.due = s.due) : Meanwhile c op s s' :=
  ⟨hpc, hsession, hnow, fun hw' => absurd (hw.symm.trans hw') Bool.false_ne_true, fun _ => hwake⟩

/-- A step is one of the supervisor, or changes at most one session, and that tamely. -/
theorem step_cases {o : Unit} (hs : step c op s = some (o, s')) :
    (∃ ok, op = .resume ok ∧ s.resume c ok = some s') ∨
      Meanwhile c op s s' ∧
        (s'.sessions = s.sessions ∨ ∃ i f, Tame f ∧ s'.sessions = s.sessions.modify i f) := by
  cases op with
  | resume ok =>
    obtain ⟨t, ht, heq⟩ := Option.map_eq_some_iff.mp hs
    obtain ⟨-, rfl⟩ := Prod.mk.inj heq
    exact .inl ⟨ok, rfl, ht⟩
  | clock now wall =>
    obtain ⟨hle, hs⟩ := Option.ite_none_right_eq_some.mp hs
    obtain ⟨-, rfl⟩ := Prod.mk.inj (Option.some.inj hs)
    exact .inr ⟨meanwhile_quiet rfl rfl rfl hle ⟨rfl, rfl⟩, .inl rfl⟩
  | nudge | connect =>
    obtain ⟨-, rfl⟩ := Prod.mk.inj (Option.some.inj hs)
    unfold State.nudge
    split_ifs with hw
    · exact .inr ⟨⟨rfl, rfl, Nat.le_refl _, fun _ => ⟨rfl, rfl, rfl⟩,
        fun hw' => absurd hw (of_decide_eq_false hw')⟩, .inl rfl⟩
    · exact .inr ⟨meanwhile_quiet (decide_eq_false hw) rfl rfl (Nat.le_refl _) ⟨rfl, rfl⟩, .inl rfl⟩
  | disconnect =>
    obtain ⟨-, rfl⟩ := Prod.mk.inj (Option.some.inj hs)
    exact .inr ⟨⟨rfl, rfl, Nat.le_refl _, fun _ => ⟨rfl, rfl, rfl⟩, fun hw => (by cases hw)⟩,
      .inl rfl⟩
  | activity | claimIntent =>
    obtain ⟨-, rfl⟩ := Prod.mk.inj (Option.some.inj hs)
    exact .inr ⟨meanwhile_quiet rfl rfl rfl (Nat.le_refl _) ⟨rfl, rfl⟩, .inl rfl⟩
  | drop i =>
    obtain ⟨-, rfl⟩ := Prod.mk.inj (Option.some.inj hs)
    exact .inr ⟨meanwhile_quiet rfl rfl rfl (Nat.le_refl _) ⟨rfl, rfl⟩, .inr ⟨i, _, tame_drop, rfl⟩⟩
  | beatEnds i =>
    obtain ⟨-, rfl⟩ := Prod.mk.inj (Option.some.inj hs)
    exact .inr ⟨meanwhile_quiet rfl rfl rfl (Nat.le_refl _) ⟨rfl, rfl⟩,
      .inr ⟨i, _, tame_beatEnds, rfl⟩⟩
  | lock | unlock =>
    obtain ⟨-, hs⟩ := Option.ite_none_right_eq_some.mp hs
    obtain ⟨-, rfl⟩ := Prod.mk.inj (Option.some.inj hs)
    exact .inr ⟨meanwhile_quiet rfl rfl rfl (Nat.le_refl _) ⟨rfl, rfl⟩, .inl rfl⟩

theorem Meanwhile.wake (h : Meanwhile c op s s') (hwake : s.due = true → s.wake = true)
    (hdue : s'.due = true) : s'.wake = true := by
  cases hw : op.wakes c s with
  | true => exact (h.woken hw).1
  | false =>
    obtain ⟨hwake', hdue'⟩ := h.quiet hw
    exact hwake'.trans (hwake (hdue'.symm.trans hdue))

/-- Of the state the invariant tells only where the supervisor waits, its sessions and the wake. -/
theorem Inv.congr (h : Inv s) (hpc : s'.pc = s.pc) (hsession : s'.session = s.session)
    (hsessions : s'.sessions = s.sessions) (hwake : s'.due = true → s'.wake = true) : Inv s' := by
  refine ⟨hwake, ?_, ?_, ?_, ?_⟩
  · rw [hpc, hsession, hsessions]
    exact h.ended
  · rw [hpc, hsession]
    exact h.starting
  · rw [hpc, hsessions]
    exact h.fresh
  · rw [State.Closed, hsession, hsessions]
    exact h.closed

theorem inv_step {o : Unit} (h : Inv s) (hs : step c op s = some (o, s')) : Inv s' := by
  rcases step_cases hs with ⟨ok, -, ht⟩ | ⟨hmean, hsessions⟩
  · exact inv_resume h ht
  · have hwake := hmean.wake h.wake
    rcases hsessions with hsessions | ⟨i, f, hf, hsessions⟩
    · exact h.congr hmean.pc hmean.session hsessions hwake
    · exact (h.update hf i).congr hmean.pc hmean.session hsessions hwake

theorem inv_boot (c : Config) (wall : ℤ) : Inv (boot c wall) := by
  refine inv_evaluate c fun i x hx => ?_
  cases hx

/-- A wake that comes during that sleep has not long to wait. -/
def SleepsOut (s : State) : Prop := ∀ d, s.pc = .sleep d → s.due = true → d ≤ s.now

theorem resume_sleep {ok : Bool} {d : ℕ} (hs : s.resume c ok = some s') (hpc : s'.pc = .sleep d) :
    s'.due = false := by
  unfold State.resume at hs
  split at hs
  case h_1 =>
    obtain ⟨-, hs⟩ := Option.ite_none_right_eq_some.mp hs
    obtain rfl := Option.some.inj hs
    cases hpc
  case h_2 =>
    obtain ⟨i, -, rfl⟩ := Option.map_eq_some_iff.mp hs
    cases hpc
  case h_3 =>
    obtain ⟨-, hs⟩ := Option.ite_none_left_eq_some.mp hs
    obtain rfl := Option.some.inj hs
    cases hpc
  case h_4 =>
    obtain ⟨i, -, rfl⟩ := Option.map_eq_some_iff.mp hs
    dsimp only at hpc
    split_ifs at hpc
    cases hpc
  case h_5 =>
    obtain ⟨-, hs⟩ := Option.ite_none_right_eq_some.mp hs
    exact Option.some.inj hs ▸ evaluate_due c _
  case h_6 =>
    obtain ⟨-, hs⟩ := Option.ite_none_right_eq_some.mp hs
    exact Option.some.inj hs ▸ evaluate_due c _
  case h_7 =>
    obtain ⟨-, hs⟩ := Option.ite_none_right_eq_some.mp hs
    obtain rfl := Option.some.inj hs
    dsimp only at hpc
    split_ifs at hpc
  case h_8 =>
    cases ok <;> obtain rfl := Option.some.inj hs <;> cases hpc
  case h_9 =>
    cases ok <;> obtain rfl := Option.some.inj hs <;> cases hpc
  case h_10 => exact Option.some.inj hs ▸ evaluate_due c _
  case h_11 =>
    obtain ⟨-, hs⟩ := Option.ite_none_right_eq_some.mp hs
    exact Option.some.inj hs ▸ evaluate_due c _

theorem sleepsOut_step {o : Unit} (h : SleepsOut s) (hs : step c op s = some (o, s'))
    (hmiss : ¬ op.Missed c s) : SleepsOut s' := by
  intro d hpc hdue
  rcases step_cases hs with ⟨ok, -, ht⟩ | ⟨hmean, -⟩
  · rw [resume_sleep ht hpc] at hdue
    cases hdue
  · have hpc' := hmean.pc.symm.trans hpc
    cases hw : op.wakes c s with
    | true =>
      have hlt : ¬ s.now < d := fun hlt => hmiss ⟨hw, d, hpc', hlt⟩
      exact Nat.le_trans (Nat.le_of_not_lt hlt) hmean.now
    | false => exact Nat.le_trans (h d hpc' ((hmean.quiet hw).2.symm.trans hdue)) hmean.now

theorem served_of_inv (h : Inv s) (hsleep : SleepsOut s) : s.Served := by
  intro hasleep
  by_contra hdue
  rw [Bool.not_eq_false] at hdue
  unfold State.Asleep at hasleep
  split at hasleep
  · exact Bool.false_ne_true (hasleep.1.symm.trans (h.wake hdue))
  · exact Bool.false_ne_true (hasleep.1.symm.trans (h.wake hdue))
  · rename_i d hpc
    exact Nat.not_lt.mpr (hsleep d hpc hdue) hasleep
  · exact hasleep

theorem missed_not_served {o : Unit} (hmiss : op.Missed c s) (hs : step c op s = some (o, s')) :
    ¬ s'.Served := by
  obtain ⟨hw, d, hpc, hlt⟩ := hmiss
  rcases step_cases hs with ⟨ok, rfl, -⟩ | ⟨hmean, -⟩
  · cases hw
  · obtain ⟨-, hdue, hnow⟩ := hmean.woken hw
    have hasleep : s'.Asleep := by
      unfold State.Asleep
      rw [hmean.pc, hpc, hnow]
      exact hlt
    intro hserved
    rw [hserved hasleep] at hdue
    cases hdue

variable {wall : ℤ} {tr : List (Record Op Unit State)}

theorem run_inv (h : Run (step c) (boot c wall) tr s) : Inv s :=
  h.invariant (inv_boot c wall) fun _ _ _ _ hs => inv_step hs

theorem run_sleepsOut (h : Run (step c) (boot c wall) tr s)
    (hmiss : ∀ r ∈ tr, ¬ r.inp.Missed c r.pre) : SleepsOut s := by
  induction h with
  | nil =>
    intro d _ hdue
    rw [boot, evaluate_due] at hdue
    cases hdue
  | cons hr hs ih =>
    obtain ⟨hlast, hbefore⟩ := List.forall_mem_cons.mp hmiss
    exact sleepsOut_step (ih hbefore) hs hlast

/-- In a run the supervisor never waits for time with a wake that it has not looked into, just where
no wake is set while it sleeps beside a session that was up. Where it waits otherwise, such a wake
lets it look at once. A session that it gives up is closed and its heartbeat has ended, in every
run. -/
theorem wakes_served (h : Run (step c) (boot c wall) tr s) :
    ((∀ r ∈ tr, r.post.Served) ↔ ∀ r ∈ tr, ¬ r.inp.Missed c r.pre) ∧
      (s.due = true → (∃ d, s.pc = .idle d ∨ s.pc = .backoff d) →
        ∀ ok, s.resume c ok = some ({ s with wake := false }.evaluate c)) ∧
      s.Closed := by
  refine ⟨⟨fun hserved r hr hmiss => ?_, fun hmiss r hr => ?_⟩, fun hdue hpc ok => ?_,
    (run_inv h).closed⟩
  · obtain ⟨-, hstep⟩ := h.mem hr
    exact missed_not_served hmiss hstep (hserved r hr)
  · obtain ⟨newer, older, rfl⟩ := List.append_of_mem hr
    have hrun := (h.split newer).1
    have hstep := (h.split newer).2
    have holder : ∀ r' ∈ older, ¬ r'.inp.Missed c r'.pre := fun r' hr' =>
      hmiss r' (List.mem_append_right _ (List.mem_cons_of_mem _ hr'))
    have hsleep := sleepsOut_step (run_sleepsOut hrun holder) hstep (hmiss r hr)
    exact served_of_inv (inv_step (run_inv hrun) hstep) hsleep
  · have hwake := (run_inv h).wake hdue
    rcases hpc with ⟨d, hpc | hpc⟩ <;> rw [State.resume, hpc] <;> exact if_pos (Or.inl hwake)

def daemon : Config := ⟨300, 90, true⟩

instance (op : Op) (s : State) : Decidable (op.Missed c s) :=
  decidable_of_iff
    (op.wakes c s = true ∧
      (match s.pc with | .sleep d => decide (s.now < d) | _ => false) = true) <|
    and_congr_right fun _ => by cases s.pc <;> simp

/-- The user connects, and lets go while the session comes up. -/
def releaseOps : List Op :=
  [.resume true, .resume true, .resume true, .beatEnds 0, .resume true, .resume true, .resume true,
    .resume true, .disconnect, .resume true, .resume true, .resume true, .connect]

theorem wakes_served_release : ∃ tr s, Run (step daemon) (boot daemon 1000) tr s ∧
    s.sessionState = .off ∧ s.session = none ∧ (∀ r ∈ tr, r.post.Served) ∧ s.Closed := by
  have hview : (exec (step daemon) (boot daemon 1000) releaseOps).map
      (fun x => (x.2.sessionState, x.2.session, decide (∀ r ∈ x.1, ¬ r.inp.Missed daemon r.pre))) =
      some (.off, none, true) := by decide
  obtain ⟨tr, s, -, hrun, -, hview⟩ := run_of_view hview
  simp only [Prod.mk.injEq, decide_eq_true_eq] at hview
  obtain ⟨hstate, hsession, hmiss⟩ := hview
  obtain ⟨hserved, -, hclosed⟩ := wakes_served hrun
  exact ⟨tr, s, hrun, hstate, hsession, hserved.mpr hmiss, hclosed⟩

/-- The user connects, the session comes up, and ten seconds later the user lets go of it. -/
def disconnectOps : List Op :=
  [.disconnect, .clock 10 1010, .resume true, .resume true, .resume true, .resume true,
    .resume true, .connect]

theorem disconnect_waits : ∃ tr s, Run (step daemon) (boot daemon 1000) tr s ∧
    s.pc = .sleep 300 ∧ s.now = 10 ∧ s.session = some 0 ∧ s.release = true ∧ ¬ s.Served := by
  have hview : (exec (step daemon) (boot daemon 1000) disconnectOps).map
      (fun x => (x.2.pc, x.2.now, x.2.session, x.2.release, x.2.due)) =
      some (.sleep 300, 10, some 0, true, true) := by decide
  obtain ⟨tr, s, -, hrun, -, hview⟩ := run_of_view hview
  simp only [Prod.mk.injEq] at hview
  obtain ⟨hpc, hnow, hsession, hrelease, hdue⟩ := hview
  refine ⟨tr, s, hrun, hpc, hnow, hsession, hrelease, fun hserved => ?_⟩
  have hasleep : s.Asleep := by
    rw [State.Asleep, hpc, hnow]
    exact (by decide : 10 < 300)
  rw [hserved hasleep] at hdue
  cases hdue

end OpenCalifornia.Supervisor
