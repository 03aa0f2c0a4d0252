import OpenCalifornia.AutoCamper.Boots

/-! # One park over all boots -/

namespace OpenCalifornia.AutoCamper.Runner
open Lib Lib.Bits Lib.Machine Firmware

variable {s : Owner} {log : List Ev} {careful : Prop} {tr : List Rec}
  {kvOn kvState : Option (List Byte)}

/-- Nothing is owed and no restore goes out. -/
structure Owner.Cleared (s : Owner) : Prop where
  owe : s.st.owe = 0
  restoreUntil : s.st.restoreUntil = -1
  fails : s.st.fails = 0
  resume : s.resume = false
  chain : s.chain = []

/-- What holds over all boots. -/
structure Proper (tr : List Rec) (s : Owner) : Prop where
  packed : ∀ r ∈ tr, .write true ∈ r.out → unpack r.post.word = r.post.debt
  kept : (∀ r ∈ tr, .write false ∉ r.out) → Careful tr ∧ (boot s.kvOn s.kvState).debt = s.debt
  bounded : Careful tr → (since Ev.tries (events tr) : ℤ) ≤ acMaxFails ∧
    (since Ev.starts (events tr) : ℤ) ≤ acMaxFails
  expired : ∀ r ∈ tr, ∀ inp o, .stepped inp o ∈ r.out → 0 ≤ r.pre.st.restoreUntil →
    r.pre.st.restoreUntil < inp.now → r.pre.st.prevIgn ≤ 0 → inp.ign = 0 → 0 ≤ inp.master →
    r.post.st.owe = 0
  ended : Careful tr → ∀ newer r older, tr = newer ++ r :: older → r.post.st.owe = 0 →
    (∀ x ∈ newer, ∀ e ∈ x.out, ¬ e.drives) →
    s.st.owe = 0 ∧ ∀ x ∈ newer, ∀ e ∈ x.out, ¬ e.tries
  disabled : ∀ r ∈ tr, ∀ ok toggleOk, r.inp = .setEnabled false ok toggleOk →
    r.post.Cleared ∧ (.write false ∉ r.out → unpack r.post.word = r.post.debt)

theorem mem_writes {ok : Bool} {wrote : Option Bool} :
    .write ok ∈ writes wrote ↔ wrote = some ok := by
  cases wrote with
  | none => exact ⟨fun h => (by cases h), fun h => (by cases h)⟩
  | some ok' =>
    refine List.mem_singleton.trans ⟨fun h => ?_, fun h => ?_⟩
    · rw [Ev.write.inj h]
    · rw [Option.some.inj h]

theorem Inv.step_stored (h : Inv careful log s) (hidle : s.pend = 0) (f : Fields) (now : ℕ)
    (ok : Bool) (hok : .write false ∉ (s.step f now ok).2) :
    unpack (s.step f now ok).1.word = (s.step f now ok).1.debt := by
  rw [step_eq] at hok ⊢
  by_cases hon : s.on = true
  · rw [if_pos hon] at hok ⊢
    exact (h.decided hon hidle _ now).saved fun hfail =>
      hok (List.mem_cons_of_mem _ (mem_writes.mpr hfail))
  · rw [if_neg hon] at hok ⊢
    exact (h.tracked (eq_false_of_ne_true hon) f now).saved fun hfail =>
      hok (mem_writes.mpr hfail)

theorem Inv.setEnabled_stored (h : Inv careful log s) (on ok toggleOk : Bool)
    (hok : .write false ∉ (s.setEnabled on ok toggleOk).2) :
    unpack (s.setEnabled on ok toggleOk).1.word = (s.setEnabled on ok toggleOk).1.debt := by
  obtain ⟨kvOn, heq⟩ := setEnabled_eq s on ok toggleOk
  rw [heq] at hok ⊢
  exact (h.switched on).1.saved fun hfail => hok (mem_writes.mpr hfail)

theorem not_failed {ok : Bool} (s : Owner) (h : .write true ∈ writes (s.save ok).2) :
    .write false ∉ writes (s.save ok).2 := fun hfail =>
  (by cases (mem_writes.mp h).symm.trans (mem_writes.mp hfail))

theorem step_not_failed (s : Owner) (f : Fields) (now : ℕ) (ok : Bool)
    (h : .write true ∈ (s.step f now ok).2) : .write false ∉ (s.step f now ok).2 := by
  rw [step_eq] at h ⊢
  split_ifs at h ⊢ with hon
  · intro hfail
    refine not_failed _ ((List.mem_cons.mp h).resolve_left fun heq => (by cases heq)) ?_
    exact (List.mem_cons.mp hfail).resolve_left fun heq => by cases heq
  · exact not_failed _ h

theorem sent_not_write {sent : List Ev} (h : sent = [] ∨ ∃ what, sent = [.sent what]) (ok : Bool) :
    .write ok ∉ sent := by
  rcases h with rfl | ⟨what, rfl⟩
  · exact fun hm => by cases hm
  · exact fun hm => by cases List.mem_singleton.mp hm

theorem Inv.packed (h : Inv careful log s) (op : Op) (hw : .write true ∈ (s.apply op).2) :
    unpack (s.apply op).1.word = (s.apply op).1.debt := by
  cases op with
  | tick f now ready rc ok =>
    obtain ⟨sent, -, -, -, s₁, -, hsent, hinv, heq⟩ := h.tick_cases f now ready rc ok
    rcases heq with heq | ⟨hidle, heq⟩
    · simp only [Owner.apply, heq] at hw
      exact absurd hw (sent_not_write hsent true)
    · simp only [Owner.apply, heq] at hw ⊢
      have hstep := (List.mem_append.mp hw).resolve_left (sent_not_write hsent true)
      exact hinv.step_stored hidle f now ok (step_not_failed s₁ f now ok hstep)
  | done ok => cases hw
  | setEnabled on ok toggleOk =>
    refine h.setEnabled_stored on ok toggleOk ?_
    obtain ⟨kvOn, heq⟩ := setEnabled_eq s on ok toggleOk
    simp only [Owner.apply, heq] at hw
    rw [heq]
    exact not_failed _ hw
  | reboot => cases hw

theorem Inv.kept (h : Inv careful log s) (hword : unpack s.word = s.debt) (op : Op)
    (hok : .write false ∉ (s.apply op).2) : unpack (s.apply op).1.word = (s.apply op).1.debt := by
  cases op with
  | tick f now ready rc ok =>
    obtain ⟨sent, chain, wait, next, s₁, hs₁, hsent, hinv, heq⟩ := h.tick_cases f now ready rc ok
    rcases heq with heq | ⟨hidle, heq⟩
    · simp only [Owner.apply, heq]
      rw [hs₁]
      exact hword
    · simp only [Owner.apply, heq] at hok ⊢
      exact hinv.step_stored hidle f now ok fun hm => hok (List.mem_append_right _ hm)
  | done ok => cases ok <;> exact hword
  | setEnabled on ok toggleOk => exact h.setEnabled_stored on ok toggleOk hok
  | reboot => exact (boot_debt _ _).symm

theorem decided_rests (howe : s.st.owe = 0) (inp : AcIn) (now : ℕ) :
    (acDecide cfg (s.reopened inp.now) inp).1.actuate = 0 ∧
      ((s.decided inp now).st.owe = 0 ∨ 0 < inp.ign ∧ 0 ≤ inp.master) := by
  obtain ⟨restoreUntil, heq⟩ := reopened_frame s inp.now
  rw [decided_st, heq]
  rcases decided_or_unread { s.st with restoreUntil } inp with ⟨hm, hdec⟩ | ⟨-, hnone⟩
  · have hact : (acDecide cfg { s.st with restoreUntil } inp).1.actuate = 0 :=
      by_contra fun hact => (hdec.tries hact).2.1 howe
    refine ⟨hact, ?_⟩
    by_cases howe' : (acDecide cfg { s.st with restoreUntil } inp).2.owe = 0
    · exact Or.inl howe'
    · rcases hdec.owes hact howe' with hrun | ⟨hwas, -⟩
      · exact Or.inr ⟨hrun, hm⟩
      · exact absurd howe hwas
  · rw [hnone]
    exact ⟨rfl, Or.inl howe⟩

theorem save_st (s : Owner) (ok : Bool) : (s.save ok).1.st = s.st := by
  obtain ⟨saved, kvState, heq⟩ := save_frame s ok
  rw [heq]

theorem writes_quiet {wrote : Option Bool} {e : Ev} (he : e ∈ writes wrote) : ¬ e.tries := by
  cases wrote with
  | none => cases he
  | some ok =>
    rw [List.mem_singleton.mp he]
    exact Bool.false_ne_true

theorem step_rests (howe : s.st.owe = 0) (f : Fields) (now : ℕ) (ok : Bool) :
    (∀ e ∈ (s.step f now ok).2, ¬ e.tries) ∧
      ((s.step f now ok).1.st.owe = 0 ∨ ∃ e ∈ (s.step f now ok).2, e.drives) := by
  rw [step_eq]
  split_ifs with hon
  · dsimp only
    rw [save_st]
    obtain ⟨hact, hends⟩ := decided_rests howe (f.reading now) now
    refine ⟨fun e he => ?_, hends.imp_right fun hrun => ?_⟩
    · rcases List.mem_cons.mp he with rfl | he
      · exact fun htries => of_decide_eq_true htries hact
      · exact writes_quiet he
    · exact ⟨_, List.mem_cons_self, (drives_iff _ _).mpr hrun⟩
  · dsimp only
    rw [save_st]
    obtain ⟨_, _, _, _, heq, -⟩ := track_frame s.st (f.reading now)
    rw [heq]
    exact ⟨fun e he => writes_quiet he, Or.inl howe⟩

theorem switched_owe (s : Owner) (on : Bool) :
    (s.switched on).st.owe = s.st.owe ∨ (s.switched on).st.owe = 0 := by
  rw [Owner.switched]
  split_ifs
  · exact Or.inr rfl
  · exact Or.inl rfl

theorem Inv.rests (h : Inv careful log s) (howe : s.st.owe = 0) (op : Op)
    (hword : op = .reboot → unpack s.word = s.debt) :
    (∀ e ∈ (s.apply op).2, ¬ e.tries) ∧
      ((s.apply op).1.st.owe = 0 ∨ ∃ e ∈ (s.apply op).2, e.drives) := by
  cases op with
  | tick f now ready rc ok =>
    obtain ⟨sent, chain, wait, next, s₁, hs₁, hsent, -, heq⟩ := h.tick_cases f now ready rc ok
    have hquiet : ∀ e ∈ sent, ¬ e.tries := by
      rcases hsent with rfl | ⟨what, rfl⟩
      · exact fun e he => by cases he
      · intro e he
        rw [List.mem_singleton.mp he]
        exact Bool.false_ne_true
    have howe₁ : s₁.st.owe = 0 := by
      rw [hs₁]
      exact howe
    rcases heq with heq | ⟨-, heq⟩
    · simp only [Owner.apply, heq]
      exact ⟨hquiet, Or.inl howe₁⟩
    · simp only [Owner.apply, heq]
      obtain ⟨hstep, hends⟩ := step_rests howe₁ f now ok
      refine ⟨fun e he => ?_, hends.imp_right ?_⟩
      · exact (List.mem_append.mp he).elim (hquiet e) (hstep e)
      · rintro ⟨e, he, hrun⟩
        exact ⟨e, List.mem_append_right _ he, hrun⟩
  | done ok => cases ok <;> exact ⟨fun e he => (by cases he), Or.inl howe⟩
  | setEnabled on ok toggleOk =>
    obtain ⟨kvOn, heq⟩ := setEnabled_eq s on ok toggleOk
    simp only [Owner.apply, heq, save_st]
    refine ⟨fun e he => writes_quiet he, Or.inl ?_⟩
    rcases switched_owe s on with hsame | hzero
    · exact hsame.trans howe
    · exact hzero
  | reboot =>
    refine ⟨fun e he => (by cases he), Or.inl ?_⟩
    exact (congrArg (fun r => r.1.owe) (hword rfl)).trans howe

theorem late_ends {st : AcState} {inp : AcIn} (hopen : 0 ≤ st.restoreUntil)
    (hlate : st.restoreUntil < inp.now) (hprev : st.prevIgn ≤ 0) (hign : inp.ign = 0)
    (hm : 0 ≤ inp.master) : (acDecide cfg st inp).2.owe = 0 := by
  have harm : ∀ pm, acArm false false pm st = st := fun pm => if_neg fun h => by cases h.1
  have hpark : ∀ st, acPark cfg inp.now false false st = st := fun st =>
    if_neg fun h => by cases h.2.1
  rw [decide_known (Int.le_of_eq hign.symm) hm]
  simp only [hign, Int.lt_irrefl, decide_false, decide_eq_false (Int.not_lt.mpr hprev), harm, hpark]
  rw [acCancel]
  by_cases hcancel : ¬ false = true ∧ ¬ false = true ∧ decide (0 < st.prevMaster) = true ∧
      ¬ decide (0 < inp.master) = true
  · rw [if_pos hcancel, acRestoring, if_neg fun h => h.1 rfl]
  · rw [if_neg hcancel, acRestoring]
    by_cases howe : st.owe = 0
    · rw [if_neg fun h => h.1 howe]
      exact howe
    · rw [if_pos ⟨howe, hopen, Bool.false_ne_true⟩, if_pos hlate]

theorem Inv.expired (h : Inv careful log s) (op : Op) (inp : AcIn) (o : AcOut)
    (hmem : .stepped inp o ∈ (s.apply op).2) (hopen : 0 ≤ s.st.restoreUntil)
    (hlate : s.st.restoreUntil < inp.now) (hprev : s.st.prevIgn ≤ 0) (hign : inp.ign = 0)
    (hm : 0 ≤ inp.master) : (s.apply op).1.st.owe = 0 := by
  have hwrites : ∀ wrote, .stepped inp o ∉ writes wrote := fun wrote he => by
    cases wrote with
    | none => cases he
    | some ok => cases List.mem_singleton.mp he
  cases op with
  | tick f now ready rc ok =>
    obtain ⟨sent, chain, wait, next, s₁, hs₁, hsent, hinv, heq⟩ := h.tick_cases f now ready rc ok
    have hnot : .stepped inp o ∉ sent := by
      rcases hsent with rfl | ⟨what, rfl⟩
      · exact fun he => by cases he
      · exact fun he => by cases List.mem_singleton.mp he
    rcases heq with heq | ⟨-, heq⟩
    · simp only [Owner.apply, heq] at hmem
      exact absurd hmem hnot
    · simp only [Owner.apply, heq] at hmem ⊢
      have hstep := (List.mem_append.mp hmem).resolve_left hnot
      rw [step_eq] at hstep ⊢
      split_ifs at hstep ⊢
      · obtain ⟨rfl, -⟩ := Ev.stepped.inj ((List.mem_cons.mp hstep).resolve_right (hwrites _))
        have hst : s₁.st = s.st := by rw [hs₁]
        -- a window that is open is not a fresh one
        have hres : s₁.reopened (f.reading now).now = s.st := by
          rw [← hst, Owner.reopened, if_neg]
          intro hres
          have := hinv.fresh hres.1
          rw [hst] at this
          omega
        dsimp only
        rw [save_st, decided_st, hres]
        exact late_ends hopen hlate hprev hign hm
      · exact absurd hstep (hwrites _)
  | done ok => cases hmem
  | setEnabled on ok toggleOk =>
    obtain ⟨kvOn, heq⟩ := setEnabled_eq s on ok toggleOk
    simp only [Owner.apply, heq] at hmem
    exact absurd hmem (hwrites _)
  | reboot => cases hmem

theorem record_of_mem {r : Rec} (h : Run step (boot kvOn kvState) tr s) (hr : r ∈ tr) :
    ∃ older, Inv (Careful older) (events older) r.pre ∧ (r.pre.apply r.inp) = (r.post, r.out) := by
  obtain ⟨newer, older, rfl⟩ := List.append_of_mem hr
  obtain ⟨hrun, hstep⟩ := h.split newer
  obtain ⟨hout, hpost⟩ := Prod.mk.inj (Option.some.inj hstep)
  exact ⟨older, run_inv hrun, Prod.ext hpost hout⟩

theorem run_kept (h : Run step (boot kvOn kvState) tr s)
    (hok : ∀ r ∈ tr, .write false ∉ r.out) : Careful tr ∧ unpack s.word = s.debt := by
  induction h with
  | nil => exact ⟨fun r hr => (by cases hr), (boot_debt _ _).symm⟩
  | cons hr hs ih =>
    obtain ⟨rfl, rfl⟩ := Prod.mk.inj (Option.some.inj hs)
    obtain ⟨hcareful, hword⟩ := ih fun r hr => hok r (List.mem_cons_of_mem _ hr)
    refine ⟨fun r hr hreboot => ?_, (run_inv hr).kept hword _ (hok _ List.mem_cons_self)⟩
    rcases List.mem_cons.mp hr with rfl | hr
    · exact hword
    · exact hcareful r hr hreboot

theorem run_ended (newer : List Rec) {r : Rec} {older : List Rec}
    (h : Run step (boot kvOn kvState) (newer ++ r :: older) s)
    (hcareful : Careful (newer ++ r :: older)) (howe : r.post.st.owe = 0)
    (hpark : ∀ x ∈ newer, ∀ e ∈ x.out, ¬ e.drives) :
    s.st.owe = 0 ∧ ∀ x ∈ newer, ∀ e ∈ x.out, ¬ e.tries := by
  induction newer generalizing s with
  | nil =>
    cases h with
    | cons hr hs => exact ⟨howe, fun x hx => (by cases hx)⟩
  | cons x newer ih =>
    cases h with
    | cons hr hs =>
      obtain ⟨rfl, rfl⟩ := Prod.mk.inj (Option.some.inj hs)
      obtain ⟨howe', hquiet⟩ := ih hr (fun y hy => hcareful y (List.mem_cons_of_mem _ hy))
        fun y hy => hpark y (List.mem_cons_of_mem _ hy)
      obtain ⟨hno, hends⟩ := (run_inv hr).rests howe' _ (hcareful _ List.mem_cons_self)
      refine ⟨hends.resolve_right ?_, ?_⟩
      · rintro ⟨e, he, hrun⟩
        exact hpark _ List.mem_cons_self e he hrun
      · intro y hy
        rcases List.mem_cons.mp hy with rfl | hy
        · exact hno
        · exact hquiet y hy

theorem parks_proper (h : Run step (boot kvOn kvState) tr s) : Proper tr s where
  packed r hr hw := by
    obtain ⟨older, hinv, heq⟩ := record_of_mem h hr
    have hpacked := hinv.packed r.inp
    rw [heq] at hpacked
    exact hpacked hw
  kept hok := by
    obtain ⟨hcareful, hword⟩ := run_kept h hok
    exact ⟨hcareful, (boot_debt _ _).trans hword⟩
  bounded hcareful := by
    have hinv := run_inv h
    obtain ⟨hthree, -⟩ := hinv.tries hcareful
    have hstarts := Nat.le_trans (Nat.le_add_right _ _) hinv.starts
    exact ⟨Int.ofNat_le.mpr hthree, Int.ofNat_le.mpr (Nat.le_trans hstarts hthree)⟩
  expired r hr inp o hmem hopen hlate hprev hign hm := by
    obtain ⟨older, hinv, heq⟩ := record_of_mem h hr
    have hends := hinv.expired r.inp inp o
    rw [heq] at hends
    exact hends hmem hopen hlate hprev hign hm
  ended hcareful newer r older htr howe hpark := by
    subst htr
    exact run_ended newer h hcareful howe hpark
  disabled r hr ok toggleOk hinp := by
    obtain ⟨older, hinv, heq⟩ := record_of_mem h hr
    have hstored := hinv.setEnabled_stored false ok toggleOk
    rw [hinp] at heq
    rw [show r.pre.setEnabled false ok toggleOk = (r.post, r.out) from heq] at hstored
    refine ⟨?_, hstored⟩
    obtain ⟨kvOn, hset⟩ := setEnabled_eq r.pre false ok toggleOk
    obtain ⟨saved, kvState, hframe⟩ := save_frame (r.pre.switched false) ok
    have hpost := congrArg Prod.fst (hset.symm.trans heq)
    rw [hframe, Owner.switched, if_pos (Or.inl Bool.false_ne_true)] at hpost
    rw [show r.post = _ from hpost.symm]
    exact ⟨rfl, rfl, rfl, rfl, rfl⟩

/-- The camping mode is on, then the engine runs and sheds it. -/
def shedOps : List Op :=
  [.tick { terminalOneFive := 1, state := 1 } 30000 true .later true,
    .tick { terminalOneFive := 0, state := 1 } 0 true .later true]

def parked : Fields := { terminalOneFive := 0, state := 0 }

/-- A park that is tried, a reboot inside its window, and the second try. -/
theorem parks_proper_rebooted : ∃ tr s, Run step (boot none none) tr s ∧
    tr.map Record.inp = [.tick parked 90000 true .later true, .reboot, .done false,
      .tick parked 61000 true .pending true, .tick parked 60000 true .later true] ++ shedOps ∧
    since Ev.tries (events tr) = 2 ∧ Proper tr s := by
  have hrun := run_of_exec step (boot none none) ([.tick parked 90000 true .later true, .reboot,
    .done false, .tick parked 61000 true .pending true,
    .tick parked 60000 true .later true] ++ shedOps) rfl
  exact ⟨_, _, hrun.1, hrun.2, by decide, parks_proper hrun.1⟩

/-- A window that runs out while no step comes is opened again by a reboot. Where the state is not
written, each reboot sees the same park again, and a debt that was cleared is found again. -/
theorem tries_multiply :
    (∃ tr s x newer r older, Run step (boot none none) tr s ∧ tr = x :: newer ++ r :: older ∧
      (∀ y ∈ tr, .write false ∉ y.out) ∧ r.inp = .reboot ∧ 0 ≤ r.pre.st.restoreUntil ∧
      r.pre.st.restoreUntil < r.pre.now ∧ ∃ e ∈ x.out, e.tries) ∧
    (∃ tr s, Run step (boot none none) tr s ∧
      acMaxFails < (since Ev.tries (events tr) : ℤ)) ∧
    ∃ tr s r older, Run step (boot none none) tr s ∧ tr = r :: older ∧
      r.inp = .setEnabled false false true ∧ (unpack r.post.word).1.owe ≠ 0 := by
  refine ⟨?_, ?_, ?_⟩
  · have hrun := run_of_exec step (boot none none) ([.tick parked 330000 true .later true, .reboot,
      .tick parked 300000 false .failed true, .tick parked 60000 true .later true] ++ shedOps) rfl
    exact ⟨_, _, _, [], _, _, hrun.1, rfl, by decide, rfl, by decide, by decide, _,
      List.mem_cons_self, rfl⟩
  · have hrun := run_of_exec step (boot none none) ([.tick parked 63000 true .later false, .reboot,
      .tick parked 62000 true .later false, .reboot, .tick parked 61000 true .later false, .reboot,
      .tick parked 60000 true .later false] ++ shedOps) rfl
    exact ⟨_, _, hrun.1, by decide⟩
  · have hrun := run_of_exec step (boot none none)
      (.setEnabled false false true :: shedOps) rfl
    exact ⟨_, _, _, _, hrun.1, rfl, rfl, by decide⟩

end OpenCalifornia.AutoCamper.Runner
