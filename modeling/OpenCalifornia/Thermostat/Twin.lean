import OpenCalifornia.Thermostat.FirmwareReading
import OpenCalifornia.Thermostat.Invariant

/-! # The firmware's thermostat equals the Python one

Rule by rule the firmware's cascade does what the Python one does, on data that reads as
Python's; where Python raises, nothing is said. From it, the same holds of whole runs. -/

namespace OpenCalifornia.Thermostat
open Lib (Flow)
open Lib.Machine (Record Run Alike)
open Firmware (readNum whenSet thermoNone thermoNoneMs)

/-- A pending command as `pend` stores it: a level, or a switch with the value 1 or 0. -/
def Firmware.Pending.Sound (p : Firmware.Pending) : Prop :=
  p.what ≠ .runtime ∧ (p.what ≠ .level → p.value = 0 ∨ p.value = 1)

structure Firmware.State.Sound (st : Firmware.State) : Prop where
  pending : st.hasPending = true → st.pending.Sound
  stopWhy : st.hasStopSnapshot = true → st.stopWhy.isSome

def SameExit (x : Exit) (cx : Firmware.Exit) : Prop := x = cx.read ∧ cx.st.Sound

def SameWork (w : Work) (c : Firmware.Work) : Prop := w = c.read ∧ c.st.Sound

/-- The firmware's rule does what the Python rule does. -/
abbrev Same (m : Flow Exit Work) (m' : Flow Firmware.Exit Firmware.Work) : Prop :=
  Flow.Sim SameExit SameWork m m'

variable {cfg : Cfg} {inp : Firmware.Input} {cv : Firmware.View} {v : View}
  {c : Firmware.Work} {st : Firmware.State} {p : Firmware.Pending}

theorem pending_off (hp : p.Sound) : p.read.value = .off ↔ p.isOff = true := by
  obtain ⟨hr, hv⟩ := hp
  rcases hw : p.what with _ | _ | _ | _
  · exact absurd hw hr
  · simp [Firmware.Pending.read, Firmware.readValue, Firmware.Pending.isOff, hw,
      Value.ofLevel_ne_off]
  all_goals
    rcases hv (by simp [hw]) with h | h <;>
      simp [Firmware.Pending.read, Firmware.readValue, Firmware.Pending.isOff, hw, h]

theorem pending_isStart (hp : p.Sound) : p.read.isStart = p.isStart := by
  obtain ⟨_, hv⟩ := hp
  by_cases hw : p.what = .power
  · rcases hv (by simp [hw]) with h | h <;>
      simp [Firmware.Pending.read, Firmware.readValue, Firmware.Pending.isStart,
        Pending.isStart, hw, h]
  · simp [Firmware.Pending.read, Firmware.Pending.isStart, Pending.isStart, hw]

theorem applied_read (hp : p.Sound) (s : Firmware.Snap) :
    applied p.read s.read = Firmware.applied p s := by
  obtain ⟨hr, hv⟩ := hp
  rcases hw : p.what with _ | _ | _ | _
  · exact absurd hw hr
  · simp [applied, Firmware.applied, Firmware.Pending.read, Firmware.readValue, hw,
      Firmware.Snap.read]
  · rcases hv (by simp [hw]) with h | h <;>
      simp [applied, Firmware.applied, Firmware.Pending.read, Firmware.readValue, hw, h,
        Firmware.Snap.read]
  · cases hs : s.permanent <;>
      simp [applied, Firmware.applied, Firmware.Pending.read, hw, Firmware.Snap.read, hs]

theorem startRetryOk_read (cfg : Cfg) (inp : Firmware.Input) (p : Firmware.Pending) :
    startRetryOk cfg inp.read p.read = Firmware.startRetryOk cfg inp p := by
  have hv : valid cfg inp.read.ref = _ := valid_read cfg inp.ref
  have hi : inp.read.ignitionOn = some false ↔ _ := readFlag_off
  simp only [startRetryOk, Firmware.startRetryOk, hv, hi]
  rfl

theorem post_read (hv : SameView inp cv v) (p : Firmware.Pending) :
    post inp.read v p.read = whenSet (Firmware.post inp cv p) cv.snap.read := by
  by_cases hs : cv.hasSnap = true
  · have ha : inp.read.heaterAgeMs = some inp.heaterAgeMs := readNum_of_ne (hv.age hs)
    by_cases hn : inp.nowMs - inp.heaterAgeMs ≥ p.sinceMs
    · have hn' : readSince inp.read p.read.sinceMs = true := by
        simp only [readSince, ha]
        exact decide_eq_true hn
      simp [post, Firmware.post, hv.snap, hs, hn, hn']
    · have hn' : readSince inp.read p.read.sinceMs = false := by
        simp only [readSince, ha]
        exact decide_eq_false hn
      simp [post, Firmware.post, hv.snap, hs, hn, hn']
  · simp [post, Firmware.post, hv.snap, hs]

theorem ownerOff_read (inp : Firmware.Input) (mode : Mode) :
    ownerOff inp.read mode = Firmware.ownerOff inp mode := by
  simp only [ownerOff, Firmware.ownerOff, Mode.on_iff]
  rfl

theorem failReason_read (hp : p.Sound) : Firmware.failReason p = some (failReason p.read) := by
  simp only [Firmware.failReason, failReason, pending_isStart hp]

theorem resend_sim (hp : p.Sound) (full : Bool) :
    Flow.Sim SameExit (fun cmds ccmds => cmds = ccmds.map Firmware.Cmd.read)
      (resend inp.read p.read st.read.expect full)
      (.next (Firmware.resend inp p st full) : Flow Firmware.Exit _) := by
  simp only [resend, Firmware.resend, pending_isStart hp]
  by_cases h : full = true ∧ p.isStart = true
  · rw [if_pos h, if_pos h]
    refine .need fun e he => ?_
    obtain ⟨_, rfl⟩ := whenSet_eq_some.mp he
    simp [Firmware.Cmd.read, Firmware.readValue, Firmware.Snap.read, Cmd.powerOn,
      Firmware.Input.read]
  · rw [if_neg h, if_neg h]
    simp [Firmware.Cmd.read, Firmware.Pending.read]

theorem moved_sim (hv : SameView inp cv v) :
    Flow.Sim SameExit Eq (moved inp.read v p.read st.read.expect)
      (.next (Firmware.moved inp cv p st.expect) : Flow Firmware.Exit _) := by
  simp only [moved, post_read hv, Firmware.moved]
  by_cases hp : Firmware.post inp cv p = true
  · have hs : cv.hasSnap = true := by
      simp only [Firmware.post, decide_eq_true_eq] at hp
      exact hp.1
    simp only [hp, whenSet_true]
    by_cases hw : p.read.what ≠ .level ∨ v.hs.faulty = true
    · have hw' : ¬ (p.what = .level ∧ ¬ cv.hs.faulty = true) := by
        rw [hv.hs] at hw
        exact fun h => hw.elim (fun hn => hn h.1) h.2
      rw [if_pos hw]
      refine (decide_eq_false fun h => hw' ⟨h.1, h.2.2.2.1⟩).symm
    · rw [if_neg hw]
      rw [hv.hs] at hw
      obtain ⟨hl, hf⟩ := not_or.mp hw
      have hl' : p.what = .level := not_not.mp hl
      have hlev : (v.level ≠ none ∧ .ofLevel v.level ≠ p.read.value ∧ v.level ≠ p.read.before) ↔
          (cv.level ≠ thermoNone ∧ cv.level ≠ p.value ∧ cv.level ≠ p.before) := by
        simp [hv.level, Firmware.Pending.read, Firmware.readValue, hl']
      by_cases hm : v.level ≠ none ∧ .ofLevel v.level ≠ p.read.value ∧ v.level ≠ p.read.before
      · rw [if_pos hm]
        have hm' := hlev.mp hm
        simp [hl', hs, hf, hm']
      · rw [if_neg hm]
        have hm' : ¬ _ := fun h => hm (hlev.mpr h)
        refine .need fun e he => ?_
        obtain ⟨_, rfl⟩ := whenSet_eq_some.mp he
        exact decide_eq_decide.mpr (by simp [hl', hs, hf, hm', Firmware.Snap.read])
  · simp [hp]

theorem finish_read : st.finish.read = st.read.finish := by
  simp [Firmware.State.finish, State.finish, Firmware.State.read]

theorem Firmware.State.Sound.finish (h : st.Sound) : st.finish.Sound :=
  ⟨(by rintro ⟨⟩), h.stopWhy⟩

theorem workFinish_same (h : c.st.Sound) : SameWork c.read.finish c.finish :=
  ⟨by simp [Work.finish, Firmware.Work.finish, Firmware.Work.read, finish_read], h.finish⟩

theorem stopTarget_read : st.read.stopTarget = st.stopTarget := by
  by_cases he : st.hasExpect = true <;>
    simp [State.stopTarget, Firmware.State.stopTarget, Firmware.State.read, he, Firmware.Snap.read]

theorem stop_same (h : c.st.Sound) (can : Bool) (now : ℤ) (why : Reason) :
    SameWork (c.read.stop can now why) (c.stop can now (some why)) := by
  have ht : c.read.st.stopTarget = c.st.stopTarget := stopTarget_read
  rcases hs : c.st.stopTarget with _ | what
  · simp only [Work.stop, stop, Firmware.Work.stop, ht, hs]
    exact ⟨by simp [Firmware.Work.read, finish_read], h.finish⟩
  · simp only [Work.stop, stop, Firmware.Work.stop, ht, hs]
    have hw : what = .power ∨ what = .permanent := by
      simp only [Firmware.State.stopTarget] at hs
      split_ifs at hs <;> simp_all
    by_cases hc : can = true
    · simp only [if_pos hc]
      refine ⟨?_, fun _ => ?_, h.stopWhy⟩
      · rcases hw with rfl | rfl <;>
          simp [Firmware.Work.read, Firmware.State.read, Firmware.State.pend,
            Firmware.State.finish, pend, Firmware.Pending.read, Firmware.readValue,
            Firmware.Cmd.read]
      · rcases hw with rfl | rfl <;>
          simp [Firmware.State.pend, Firmware.Pending.Sound]
    · simp only [if_neg hc]
      refine ⟨?_, ⟨(by rintro ⟨⟩), fun _ => rfl⟩⟩
      by_cases he : c.st.hasExpect = true <;>
        simp [Firmware.Work.read, Firmware.State.read, Firmware.State.finish, he,
          Firmware.Snap.read]

theorem sendLevel_same (h : c.st.Sound) (he : c.st.hasExpect = true) {level : ℤ}
    (hl : level ≠ thermoNone) (now before : ℤ) :
    SameWork (c.read.sendLevel c.st.expect.read level now (readNum thermoNone before))
      (c.sendLevel level now before) := by
  refine ⟨?_, fun _ => ?_, h.stopWhy⟩
  · simp [Work.sendLevel, Firmware.Work.sendLevel, Firmware.Work.read, Firmware.State.read,
      Firmware.State.pend, pend, Firmware.Pending.read, Firmware.readValue, Firmware.Cmd.read,
      readNum_of_ne hl, Value.ofLevel, he, Firmware.Snap.read, Firmware.Ctl.read]
  · simp [Firmware.Work.sendLevel, Firmware.State.pend, Firmware.Pending.Sound]

theorem drop_same (h : c.st.Sound) :
    SameWork (c.read.put { c.read.st with pending := none })
      (c.put { c.st with hasPending := false }) :=
  ⟨rfl, (by rintro ⟨⟩), h.stopWhy⟩

theorem finish_put (hc : c.cmds = []) : c.read.put c.read.st.finish = c.finish.read := by
  simp [Work.put, Firmware.Work.finish, Firmware.Work.read, finish_read, hc]

theorem dropPending_same (h : c.st.Sound) (hp : p.Sound) (hc : c.cmds = []) :
    SameWork (c.read.put (dropPending p.read c.read.st)) (Firmware.dropPending p c) := by
  by_cases ho : p.isOff = true
  · simp only [dropPending, Firmware.dropPending, if_pos ((pending_off hp).mpr ho), if_pos ho]
    exact drop_same h
  · simp only [dropPending, Firmware.dropPending, if_neg ho,
      if_neg fun h => ho ((pending_off hp).mp h), finish_put hc]
    exact ⟨rfl, h.finish⟩

theorem ret_same {w : Work} (h : SameWork w c) (why : Reason) :
    Same (w.ret why) (c.ret (some why)) := by
  obtain ⟨rfl, hs⟩ := h
  exact ⟨rfl, hs⟩

theorem movedExit_same (h : c.st.Sound) (hc : c.cmds = []) (hv : SameView inp cv v)
    (hs : cv.hasSnap = true) : Same (movedExit v c.read) (Firmware.movedExit cv c) := by
  have hsnap : (v.snap.any fun s => !s.heating) = true ↔
      ¬ cv.snap.normal = true ∧ ¬ cv.snap.permanent = true := by
    simp [hv.snap, hs, Snap.heating, Firmware.Snap.read]
  refine .ite hsnap (fun _ _ => .need fun e he => ?_) fun _ _ => ?_
  · obtain ⟨_, rfl⟩ := whenSet_eq_some.mp he
    rw [finish_put hc]
    exact ret_same ⟨rfl, h.finish⟩ _
  · rw [finish_put hc]
    exact ret_same ⟨rfl, h.finish⟩ _

theorem resent_same (h : c.st.Sound) (hx : c.st.hasPending = true) (hp : p.Sound)
    (ccmds : List Firmware.Cmd) :
    SameWork (resent c.read p.read (ccmds.map Firmware.Cmd.read)) (Firmware.resent c p ccmds) := by
  have hr : (if p.read.value = .off then Reason.stopping else .autoOn) =
      if p.isOff = true then Reason.stopping else .autoOn := by
    simp only [pending_off hp]
  refine ⟨?_, fun _ => hp, h.stopWhy⟩
  simp [resent, Firmware.resent, Firmware.Work.read, Firmware.State.read, hx, hr]

theorem overtaken_sim (hp : p.Sound) (s : Firmware.Snap) :
    Flow.Sim SameExit Eq (overtaken p.read s.read st.read.expect)
      (.next (decide (p.isOff = true ∧ ¬ Firmware.same s st.expect = true)) :
        Flow Firmware.Exit _) := by
  rw [overtaken]
  by_cases ho : p.isOff = true
  · rw [if_pos ((pending_off hp).mpr ho)]
    refine .need fun e he => ?_
    obtain ⟨_, rfl⟩ := whenSet_eq_some.mp he
    simp [same_read, ho]
  · rw [if_neg fun h => ho ((pending_off hp).mp h)]
    simp [ho]

theorem unconfirmed_same (h : c.st.Sound) (hc : c.cmds = []) (hx : c.st.hasPending = true)
    (hp : p.Sound) :
    Same (unconfirmed cfg inp.read p.read cv.snap.read c.read)
      (Firmware.unconfirmed cfg inp cv p c) := by
  rw [unconfirmed, Firmware.unconfirmed, ite_not]
  refine .bind_next (overtaken_sim hp cv.snap) fun d hd => ?_
  refine .ite (by rw [hd, decide_eq_true_iff]) (fun _ _ => ?_) fun _ _ => ?_
  · exact ret_same (drop_same h) _
  refine .ite (by rw [pending_isStart hp, startRetryOk_read]; rfl) (fun _ _ => ?_) fun _ _ => ?_
  · refine .ite (by rw [ownerOff_read]; rfl) (fun _ _ => ⟨rfl, h⟩) fun _ _ => ?_
    rw [failReason_read hp]
    exact ret_same (dropPending_same h hp hc) _
  · refine .bind_next (resend_sim hp false) fun cmds hcmds => ?_
    rw [hcmds]
    exact resent_same (p := { p with sinceMs := inp.nowMs, tries := 2 }) h hx hp _

theorem result_read (hcmd : inp.cmdWhat.isSome = inp.cmdResult.isSome) :
    inp.read.cmd.map Attempt.result = inp.cmdResult := by
  rcases hw : inp.cmdWhat with _ | w <;> rcases hr : inp.cmdResult with _ | r <;>
    simp [hw, hr, Firmware.Input.read, Firmware.readAttempt] at hcmd ⊢

theorem what_read (hcmd : inp.cmdWhat.isSome = inp.cmdResult.isSome) :
    inp.read.cmd.map Attempt.what = inp.cmdWhat := by
  rcases hw : inp.cmdWhat with _ | w <;> rcases hr : inp.cmdResult with _ | r <;>
    simp [hw, hr, Firmware.Input.read, Firmware.readAttempt] at hcmd ⊢

theorem answer_same (h : c.st.Sound) (hc : c.cmds = []) (hx : c.st.hasPending = true)
    (hp : p.Sound) (hv : SameView inp cv v)
    (hcmd : inp.cmdWhat.isSome = inp.cmdResult.isSome) :
    Same (answer cfg inp.read v p.read c.read) (Firmware.answer cfg inp cv p c) := by
  have happ : ((post inp.read v p.read).any (applied p.read)) = true ↔
      cv.hasSnap = true ∧ Firmware.post inp cv p = true ∧ Firmware.applied p cv.snap = true := by
    rw [post_read hv]
    by_cases hps : Firmware.post inp cv p = true
    · have hs : cv.hasSnap = true := by
        simp only [Firmware.post, decide_eq_true_eq] at hps
        exact hps.1
      simp [hps, hs, applied_read hp]
    · simp [hps]
  simp only [answer, Firmware.answer, result_read hcmd, what_read hcmd]
  refine .ite happ (fun _ ha => ?_) fun _ _ =>
    .ite (by rw [hv.hs]) (fun _ _ => ⟨rfl, h⟩) fun _ _ => ?_
  · refine ⟨?_, (by rintro ⟨⟩), h.stopWhy⟩
    simp [hv.snap, ha.1, Work.put, Firmware.Work.read, Firmware.State.read, Firmware.Work.put]
  refine .ite (by rw [ownerOff_read]; rfl) (fun _ _ => ⟨rfl, h⟩) fun _ _ => ?_
  refine .ite Iff.rfl (fun _ _ => ?_) fun _ _ => .ite Iff.rfl (fun _ _ => ?_) fun _ _ => ?_
  · rw [failReason_read hp]
    exact ret_same (dropPending_same h hp hc) _
  · refine .ite (by rw [pending_isStart hp, startRetryOk_read]) (fun _ _ => ?_) fun _ _ => ?_
    · rw [failReason_read hp, finish_put hc]
      exact ret_same ⟨rfl, h.finish⟩ _
    · refine .bind_next (resend_sim hp _) fun cmds hcmds => ?_
      rw [hcmds]
      exact resent_same (p := { p with sinceMs := inp.nowMs }) h hx hp _
  · simp only [verify, post_read hv]
    by_cases hps : Firmware.post inp cv p = true
    · have hs : cv.hasSnap = true := by
        simp only [Firmware.post, decide_eq_true_eq] at hps
        exact hps.1
      simp only [hps, whenSet_true, hs, true_and]
      exact .ite Iff.rfl (fun _ _ => unconfirmed_same h hc hx hp) fun _ _ => ⟨rfl, h⟩
    · simp only [Bool.not_eq_true] at hps
      simp only [hps, whenSet_false, Bool.false_eq_true, false_and, and_false, if_false]
      exact ⟨rfl, h⟩

theorem presetDone_read (hv : SameView inp cv v) (hp : p.Sound)
    (hcmd : inp.cmdWhat.isSome = inp.cmdResult.isSome) :
    presetDone cfg inp.read v p.read = Firmware.presetDone cfg inp cv p := by
  have hres := result_read hcmd
  have happ : ((post inp.read v p.read).any (applied p.read)) = true ↔
      Firmware.post inp cv p = true ∧ Firmware.applied p cv.snap = true := by
    rw [post_read hv]
    by_cases hps : Firmware.post inp cv p = true <;> simp [hps, applied_read hp]
  have hbad : (inp.cmdResult.any (· ≠ .ok)) = true ↔
      inp.cmdResult ≠ none ∧ inp.cmdResult ≠ some .ok := by
    rcases inp.cmdResult with _ | r <;> simp
  rw [presetDone, Firmware.presetDone, hres]
  exact decide_eq_decide.mpr (by rw [happ, hbad]; rfl)

theorem pendingRule_same (h : c.st.Sound) (hc : c.cmds = []) (hv : SameView inp cv v)
    (hcmd : inp.cmdWhat.isSome = inp.cmdResult.isSome) :
    Same (pendingRule cfg inp.read v c.read) (Firmware.pendingRule cfg inp cv c) := by
  rw [pendingRule, Firmware.pendingRule]
  rcases hx : c.st.hasPending with _ | _
  · have hn : c.read.st.pending = none := by simp [Firmware.Work.read, Firmware.State.read, hx]
    simp only [hn]
    exact ⟨rfl, h⟩
  · have hn : c.read.st.pending = some c.st.pending.read := by
      simp [Firmware.Work.read, Firmware.State.read, hx]
    have hp := h.pending hx
    simp only [hn, true_and, if_true]
    refine .ite Iff.rfl (fun _ _ => ?_) fun _ _ => ?_
    · rw [presetDone_read hv hp hcmd]
      by_cases hd : Firmware.presetDone cfg inp cv c.st.pending = true
      · rw [if_pos hd, if_pos hd]
        exact drop_same h
      · rw [if_neg hd, if_neg hd]
        exact ⟨rfl, h⟩
    · refine .bind_next (moved_sim hv) fun m hm => ?_
      subst hm
      refine .ite Iff.rfl (fun _ hm => ?_) fun _ _ => answer_same h hc hx hp hv hcmd
      have hs : cv.hasSnap = true := by
        simp only [Firmware.moved, decide_eq_true_eq] at hm
        exact hm.2.1
      exact movedExit_same h hc hv hs

theorem startLevel_read (cfg : Cfg) (l : ℤ) :
    ((readNum thermoNone l).filter (· ≠ 0)).getD cfg.minLevel =
      if l = thermoNone ∨ l = 0 then cfg.minLevel else l := by
  by_cases hl : l = thermoNone
  · simp [hl]
  · by_cases h0 : l = 0
    · have hz : readNum thermoNone 0 = some 0 := readNum_of_ne (h0 ▸ hl)
      rw [h0, hz, if_pos (Or.inr rfl)]
      rfl
    · rw [readNum_of_ne hl, if_neg (by simp [hl, h0])]
      simp [Option.filter, h0]

theorem startLevel_ne (hc : cfg.Fits) (l : ℤ) :
    (if l = thermoNone ∨ l = 0 then cfg.minLevel else l) ≠ thermoNone := by
  have hmin := hc.minLevel
  split_ifs with h
  · omega
  · exact fun hl => h (Or.inl hl)

theorem startCtl_read (lastChange : ℤ) :
    (⟨0, lastChange, none, 0, some 0⟩ : Ctl) =
      (⟨0, lastChange, thermoNoneMs, 0, 0⟩ : Firmware.Ctl).read := by
  simp [Firmware.Ctl.read, readNum, thermoNone]

theorem control_start (hc : cfg.Fits) (hn : inp.nowMs ≠ thermoNoneMs) (hv : SameView inp cv v)
    (tRef lastChange : ℤ) :
    control cfg tRef v.tOut inp.read.target 0 ⟨0, lastChange, none, 0, some 0⟩ none
      inp.read.nowMs =
      readDemand (Firmware.control cfg tRef cv.tOut inp.target 0
        ⟨0, lastChange, thermoNoneMs, 0, 0⟩ thermoNone inp.nowMs) := by
  rw [startCtl_read, hv.tOut, ← control_read hc hn, readNum_missing]
  rfl

theorem takeover_sim (hc : cfg.Fits) (hn : inp.nowMs ≠ thermoNoneMs) (hv : SameView inp cv v)
    (h : c.st.Sound) (tRef : ℤ) :
    Flow.Sim SameExit SameWork (takeover cfg inp.read v (readNum thermoNone tRef) c.read)
      (.next (Firmware.takeover cfg inp cv tRef c) : Flow Firmware.Exit _) := by
  refine .need fun snap hs => ?_
  rw [hv.snap] at hs
  obtain ⟨_, rfl⟩ := whenSet_eq_some.mp hs
  have hnow : some inp.read.nowMs = readNum thermoNoneMs inp.nowMs := (readNum_of_ne hn).symm
  by_cases ht : tRef = thermoNone
  · simp only [ht, readNum_missing, Firmware.takeover, if_true, hnow]
    exact ⟨rfl, (by rintro ⟨⟩), h.stopWhy⟩
  · simp only [readNum_of_ne ht, Firmware.takeover, if_neg ht]
    generalize hx : Firmware.control cfg tRef cv.tOut inp.target 0
      ⟨0, c.st.ctl.lastChangeMs, thermoNoneMs, 0, 0⟩ thermoNone inp.nowMs = x
    have hcontrol := (control_start hc hn hv tRef c.st.ctl.lastChangeMs).trans (congrArg _ hx)
    obtain ⟨l, ctl, why⟩ := x
    have hctl : c.read.st.ctl.lastChangeMs = c.st.ctl.lastChangeMs := rfl
    simp only [hctl, hcontrol, readDemand, startLevel_read, hnow]
    have hlvl := startLevel_ne hc l
    generalize (if l = thermoNone ∨ l = 0 then cfg.minLevel else l) = lvl at hlvl
    have hq : some lvl = v.level ∨ ¬ inp.read.linkReady = true ↔
        lvl = cv.level ∨ ¬ inp.linkReady = true := by
      rw [hv.level, eq_comm, readNum_eq_some, eq_comm]
      exact or_congr_left (and_iff_left hlvl)
    by_cases hs : lvl = cv.level ∨ ¬ inp.linkReady = true
    · rw [if_pos (hq.mpr hs), if_pos hs]
      exact ⟨rfl, (by rintro ⟨⟩), h.stopWhy⟩
    · rw [if_neg fun h => hs (hq.mp h), if_neg hs, hv.level]
      exact sendLevel_same (c := ⟨{ c.st with
        hasPending := false, hasExpect := true, expect := cv.snap, lastCtlMs := inp.nowMs, ctl },
        [], c.reason⟩) ⟨(by rintro ⟨⟩), h.stopWhy⟩ rfl hlvl inp.nowMs cv.level

theorem seen_same (hv : SameView inp cv v) (h : c.st.Sound) :
    SameWork (seen v c.read) (Firmware.seen cv c) := by
  rcases hs : cv.hasSnap with _ | _
  · simp only [seen, Firmware.seen, hv.snap, hs, whenSet_false]
    exact ⟨rfl, h⟩
  · simp only [seen, Firmware.seen, hv.snap, hs, whenSet_true]
    exact ⟨rfl, h.pending, h.stopWhy⟩

theorem finishRet_same (h : c.st.Sound) (hc : c.cmds = []) (why : Reason) :
    Same ((c.read.put c.read.st.finish).ret why) (c.finish.ret (some why)) := by
  rw [finish_put hc]
  exact ret_same ⟨rfl, h.finish⟩ why

theorem waitOn_same (h : c.st.Sound) (hc : c.cmds = []) :
    Same (waitOn inp.read c.read) (Firmware.waitOn inp c) := by
  refine .need fun until_ hu => ?_
  obtain ⟨rfl, _⟩ := readNum_eq_some.mp hu
  have hput : c.read.put { c.read.st with contSinceMs := none } =
      (c.put { c.st with contSinceMs := thermoNoneMs }).read := by
    simp [Work.put, Firmware.Work.put, Firmware.Work.read, Firmware.State.read]
  rw [hput]
  refine .ite Iff.rfl (fun _ _ => ?_) fun _ _ => ?_
  · apply finishRet_same
    · exact ⟨h.pending, h.stopWhy⟩
    · exact hc
  · apply ret_same
    exact ⟨rfl, h.pending, h.stopWhy⟩

theorem validValue_read (cfg : Cfg) (s : Firmware.Sensor) :
    (if valid cfg s.read then s.read.bind Sensor.value else none) =
      readNum thermoNone (if Firmware.valid cfg s then s.value else thermoNone) := by
  by_cases hr : Firmware.valid cfg s = true
  · have hval := value_read cfg (by rwa [valid_read])
    rw [valid_read, if_pos hr, if_pos hr, hval.1, readNum_of_ne hval.2]
  · rw [valid_read, if_neg hr, if_neg hr, readNum_missing]

theorem confirmSince_same (hc : cfg.Fits) (hn : inp.nowMs ≠ thermoNoneMs)
    (hv : SameView inp cv v) (h : c.st.Sound) {since : ℤ} (hs : since ≠ thermoNoneMs) :
    Same (confirmSince cfg inp.read v since c.read) (Firmware.confirmSince cfg inp cv since c) := by
  rw [confirmSince, Firmware.confirmSince, ← readNum_of_ne hs]
  refine .need fun age ha => ?_
  obtain ⟨rfl, _⟩ := readNum_eq_some.mp ha
  refine .ite Iff.rfl (fun _ _ => ?_) fun _ _ => ?_
  · apply ret_same
    exact ⟨rfl, h.pending, h.stopWhy⟩
  · have href : inp.read.ref = inp.ref.read := rfl
    rw [href, validValue_read]
    refine .bind_next (takeover_sim hc hn hv (c := c.put { c.st with
      contSinceMs := since, mode := .auto }) ⟨h.pending, h.stopWhy⟩ _) fun w hw => ?_
    exact ret_same hw _

theorem confirm_same (hc : cfg.Fits) (hn : inp.nowMs ≠ thermoNoneMs) (hv : SameView inp cv v)
    (h : c.st.Sound) (hcm : c.cmds = []) :
    Same (confirm cfg inp.read v c.read) (Firmware.confirm cfg inp cv c) := by
  rw [confirm, contSince, Firmware.confirm]
  by_cases hs : c.st.contSinceMs = thermoNoneMs
  · have hs' : c.read.st.contSinceMs = none := readNum_eq_none.mpr hs
    rw [hs', if_pos hs]
    simp only
    rw [Flow.bind_assoc]
    refine .need fun until_ hu => ?_
    obtain ⟨rfl, _⟩ := readNum_eq_some.mp hu
    have hread : inp.read.nowMs = inp.nowMs := rfl
    rw [hread]
    by_cases hw : inp.nowMs ≥ c.st.waitUntilMs
    · rw [if_pos hw, if_pos hw]
      exact finishRet_same h hcm .nightWaitEnded
    · rw [if_neg hw, if_neg hw]
      exact confirmSince_same hc hn hv h hn
  · have hs' : c.read.st.contSinceMs = some c.st.contSinceMs := readNum_of_ne hs
    rw [hs', if_neg hs]
    exact confirmSince_same hc hn hv h hs

theorem stopRet_same (h : c.st.Sound) (can : Bool) (now : ℤ) (why : Reason) :
    Same ((c.read.stop can now why).ret why) ((c.stop can now (some why)).ret (some why)) :=
  ret_same (stop_same h can now why) why

theorem ownerStop_same (h : c.st.Sound) (can : Bool) (now : ℤ) (why r : Reason) :
    Same
      ((c.read.stop can now why).ret
        (if (c.read.stop can now why).st.mode = .stopping then .stopping else r))
      ((c.stop can now (some why)).ret
        (if (c.stop can now (some why)).st.mode = .stopping then some .stopping else some r)) := by
  obtain ⟨he, hs⟩ := stop_same h can now why
  have hm : (c.read.stop can now why).st.mode = (c.stop can now (some why)).st.mode := by
    rw [he]
    rfl
  by_cases hst : (c.stop can now (some why)).st.mode = .stopping
  · rw [hm, if_pos hst, if_pos hst]
    exact ret_same ⟨he, hs⟩ _
  · rw [hm, if_neg hst, if_neg hst]
    exact ret_same ⟨he, hs⟩ _

theorem snap_isSome (hv : SameView inp cv v) : v.snap.isSome = cv.hasSnap := by
  rw [hv.snap]
  cases cv.hasSnap <;> rfl

theorem waiting_same (hc : cfg.Fits) (hn : inp.nowMs ≠ thermoNoneMs) (hv : SameView inp cv v)
    (h : c.st.Sound) (hcm : c.cmds = []) :
    Same (waiting cfg inp.read v c.read) (Firmware.waiting cfg inp cv c) := by
  rw [waiting, Firmware.waiting, hv.hs, hv.code, snap_isSome hv]
  refine .ite Iff.rfl (fun _ _ => ?_) fun _ _ => .ite Iff.rfl (fun _ _ => ?_) fun _ _ => ?_
  · exact ownerStop_same h _ _ _ _
  · exact finishRet_same h hcm _
  · exact .ite Iff.rfl (fun _ _ => waitOn_same h hcm) fun _ _ => confirm_same hc hn hv h hcm

theorem waitingRule_same (hc : cfg.Fits) (hn : inp.nowMs ≠ thermoNoneMs) (hv : SameView inp cv v)
    (h : c.st.Sound) (hcm : c.st.mode = .waiting → c.cmds = []) :
    Same (waitingRule cfg inp.read v c.read) (Firmware.waitingRule cfg inp cv c) := by
  rw [waitingRule, Firmware.waitingRule, ite_not]
  refine .ite Iff.rfl (fun _ hm => ?_) fun _ _ => ⟨rfl, h⟩
  obtain ⟨he, hs⟩ := seen_same hv h
  have hcs : (Firmware.seen cv c).cmds = [] := by
    rw [Firmware.seen]
    split_ifs
    · exact hcm hm
    · exact hcm hm
  rw [he]
  exact waiting_same hc hn hv hs hcs

theorem stopSnapshot_read {s : StopSnapshot} (h : st.read.stopSnapshot = some s) :
    st.stopWhy = some s.why ∧ s.toSnap = st.stopSnapshot.read := by
  rcases hs : st.hasStopSnapshot with _ | _
  · simp [Firmware.State.read, hs] at h
  · rcases hw : st.stopWhy with _ | why
    · simp [Firmware.State.read, hs, hw] at h
    · simp only [Firmware.State.read, hs, hw, whenSet_true, Option.join_some, Option.map_some,
        Option.some.injEq] at h
      rw [← h]
      exact ⟨rfl, rfl⟩

theorem held_sim :
    Flow.Sim SameExit Eq (held st.read) (.next (Firmware.held st) : Flow Firmware.Exit _) := by
  rw [held, Firmware.held]
  rcases hp : st.hasPending with _ | _
  · have hp' : st.read.pending = none := by simp [Firmware.State.read, hp]
    rw [hp']
    simp only [Bool.false_eq_true, if_false]
    by_cases hm : st.mode = .stopping
    · rw [if_pos hm, if_pos (show st.read.mode = .stopping from hm)]
      refine .need fun s hs => ?_
      rw [(stopSnapshot_read hs).1]
      rfl
    · rw [if_neg hm, if_neg (show ¬ st.read.mode = .stopping from hm)]
      rfl
  · have hp' : st.read.pending = some st.pending.read := by simp [Firmware.State.read, hp]
    rw [hp']
    rfl

theorem entered_same (hn : inp.nowMs ≠ thermoNoneMs) :
    SameWork (entered inp.read c.read) (Firmware.entered inp c) := by
  have hnow : some inp.read.nowMs = readNum thermoNoneMs inp.nowMs := (readNum_of_ne hn).symm
  refine ⟨?_, (by rintro ⟨⟩), (by rintro ⟨⟩)⟩
  rw [entered, hnow]
  rcases hp : c.st.hasPending with _ | _ <;>
    simp [Firmware.entered, Firmware.Work.read, Firmware.State.read, hp, Firmware.Input.read]

theorem nightWait_same (hc : cfg.Fits) (hn : inp.nowMs ≠ thermoNoneMs)
    (hw : inp.nowMs + cfg.nightWaitMs ≠ thermoNoneMs) (hv : SameView inp cv v)
    (h : c.st.Sound) {t : ℤ} (ht : t ≠ thermoNone) :
    Same (nightWait cfg inp.read v t c.read) (Firmware.nightWait cfg inp cv t c) := by
  have huntil : some (inp.read.nowMs + cfg.nightWaitMs) =
      readNum thermoNoneMs (inp.nowMs + cfg.nightWaitMs) := (readNum_of_ne hw).symm
  rw [nightWait, huntil]
  refine .need fun snap hs => ?_
  rw [hv.snap] at hs
  obtain ⟨_, rfl⟩ := whenSet_eq_some.mp hs
  have hput : SameWork (c.read.put { c.read.st with
      mode := .waiting
      waitUntilMs := readNum thermoNoneMs (inp.nowMs + cfg.nightWaitMs)
      contSinceMs := none
      expect := some cv.snap.read }) (c.put { c.st with
      mode := .waiting
      waitUntilMs := inp.nowMs + cfg.nightWaitMs
      contSinceMs := thermoNoneMs
      hasExpect := true
      expect := cv.snap }) := ⟨rfl, h.pending, h.stopWhy⟩
  obtain ⟨he, hs⟩ := hput
  dsimp only at he ⊢
  rw [he, preset, hv.hs, Firmware.nightWait, ← readNum_of_ne ht]
  by_cases ho : cv.hs = .off
  · rw [if_pos ho, if_pos ho]
    exact .bind_next (takeover_sim hc hn hv hs t) fun w hw => ret_same hw _
  · rw [if_neg ho, if_neg ho]
    exact ret_same ⟨rfl, hs⟩ _

theorem startHeater_same (hc : cfg.Fits) (hn : inp.nowMs ≠ thermoNoneMs) (hv : SameView inp cv v)
    (h : c.st.Sound) (t : ℤ) :
    SameWork (startHeater cfg inp.read v t c.read) (Firmware.startHeater cfg inp cv t c) := by
  generalize hx : Firmware.control cfg t cv.tOut inp.target 0
    ⟨0, inp.nowMs, thermoNoneMs, 0, 0⟩ thermoNone inp.nowMs = x
  have hcontrol := (control_start hc hn hv t inp.nowMs).trans (congrArg _ hx)
  obtain ⟨l, ctl, why⟩ := x
  have hread : inp.read.nowMs = inp.nowMs := rfl
  have hlvl := startLevel_ne hc l
  rw [hread] at hcontrol
  simp only [startHeater, Firmware.startHeater, hx, hread, hcontrol, readDemand, startLevel_read]
  generalize (if l = thermoNone ∨ l = 0 then cfg.minLevel else l) = lvl at hlvl
  refine ⟨?_, fun _ => ?_, h.stopWhy⟩
  · simp [Firmware.Work.read, Firmware.State.read, Firmware.State.pend, pend,
      Firmware.Pending.read, Firmware.readValue, Firmware.Cmd.read, readNum_of_ne hlvl,
      Value.ofLevel, Firmware.Snap.read, Cmd.powerOn, Firmware.Input.read]
  · simp [Firmware.State.pend, Firmware.Pending.Sound]

theorem enter_same (hc : cfg.Fits) (hn : inp.nowMs ≠ thermoNoneMs)
    (hw : inp.nowMs + cfg.nightWaitMs ≠ thermoNoneMs) (hv : SameView inp cv v) :
    Same (enter cfg inp.read v c.read) (Firmware.enter cfg inp cv c) := by
  refine .need fun t ht => ?_
  obtain ⟨rfl, hne⟩ := value_of_read ht
  obtain ⟨he, hs⟩ := entered_same (c := c) hn
  rw [he, hv.hs]
  refine .ite Iff.rfl (fun _ _ => nightWait_same hc hn hw hv hs hne) fun _ _ => ?_
  refine .ite Iff.rfl (fun _ _ => ret_same (startHeater_same hc hn hv hs _) _) fun _ _ => ?_
  rw [← readNum_of_ne hne]
  refine .bind_next (takeover_sim hc hn hv hs _) fun w hw => ?_
  exact ret_same hw _

theorem backToRef_sim (hv : SameView inp cv v) (h : c.st.Sound) :
    Flow.Sim SameExit SameWork (backToRef cfg inp.read v c.read)
      (.next (Firmware.backToRef cfg inp cv c) : Flow Firmware.Exit _) := by
  have hval : valid cfg inp.read.ref = _ := valid_read cfg inp.ref
  rw [backToRef, Firmware.backToRef, hval]
  by_cases hb : inp.request = some .auto ∧ c.st.mode.on = true ∧ c.st.active = .backup ∧
      Firmware.valid cfg inp.ref = true
  · rw [if_pos hb]
    have hb' : inp.read.request = some .auto ∧ c.read.st.mode.on = true ∧
      c.read.st.active = .backup ∧ Firmware.valid cfg inp.ref = true := hb
    rw [if_pos hb', hv.level, Firmware.followed]
    by_cases hl : cv.level = thermoNone
    · simp only [hl, readNum_missing, ne_eq, not_true_eq_false, if_false]
      exact ⟨rfl, h.pending, h.stopWhy⟩
    · rw [readNum_of_ne hl, if_pos hl]
      refine .need fun t ht => ?_
      obtain ⟨rfl, _⟩ := value_of_read ht
      have htr : track cfg c.read.st.ctl cv.level inp.ref.value inp.read.target = _ :=
        track_read cfg c.st.ctl cv.level inp.ref.value inp.target
      rw [htr]
      exact ⟨rfl, h.pending, h.stopWhy⟩
  · rw [if_neg hb]
    have hb' : ¬ (inp.read.request = some .auto ∧ c.read.st.mode.on = true ∧
      c.read.st.active = .backup ∧ Firmware.valid cfg inp.ref = true) := hb
    rw [if_neg hb']
    exact ⟨rfl, h⟩

theorem off_iff {on on' : Prop} [Decidable on] (h : on ↔ on') {e : Bool} {r : Option Request} :
    ((if on ∧ ¬ e = true then some .off else r) = some .off ∧ on) ↔
      on' ∧ (r = some .off ∨ ¬ e = true) := by
  rw [← h]
  by_cases ho : on
  · cases e <;> simp [ho]
  · simp [ho]

theorem auto_iff {on on' : Prop} [Decidable on] (h : on ↔ on') {e : Bool} {r : Option Request} :
    ((if on ∧ ¬ e = true then some .off else r) = some .auto ∧ ¬ on) ↔ r = some .auto ∧ ¬ on' := by
  rw [← h]
  by_cases ho : on <;> simp [ho]

theorem requestRule_same (hc : cfg.Fits) (hn : inp.nowMs ≠ thermoNoneMs)
    (hw : inp.nowMs + cfg.nightWaitMs ≠ thermoNoneMs) (hv : SameView inp cv v)
    (h : c.st.Sound) :
    Same (requestRule cfg inp.read v c.read) (Firmware.requestRule cfg inp cv c) := by
  have hon : c.st.mode = .auto ∨ c.st.mode = .degraded ↔ c.read.st.mode.on = true :=
    Mode.on_iff.symm
  rw [requestRule, Firmware.requestRule, snap_isSome hv, refusal_read, hv.hs, hv.code]
  dsimp only
  refine .ite (off_iff hon).symm (fun _ _ => ownerStop_same h _ _ _ _) fun _ _ => ?_
  refine .bind_next held_sim fun why hwhy => ?_
  refine .ite (auto_iff hon).symm (fun _ _ => ?_) fun _ _ => backToRef_sim hv h
  have hheld : (why.any (· ≠ .userOff)) = true ↔
      Firmware.held c.st ≠ none ∧ Firmware.held c.st ≠ some .userOff := by
    rw [← hwhy]
    rcases why with _ | r <;> simp
  refine .ite hheld (fun _ _ => ⟨rfl, h⟩) fun _ _ => ?_
  rcases Firmware.refusal cfg inp cv.hs cv.code with _ | r
  · exact enter_same hc hn hw hv
  · exact ret_same ⟨rfl, h⟩ _

theorem stoppingRule_same (hv : SameView inp cv v) (h : c.st.Sound) :
    Same (stoppingRule inp.read v c.read) (Firmware.stoppingRule inp cv c) := by
  rw [stoppingRule, Firmware.stoppingRule]
  refine .ite Iff.rfl (fun _ _ => ?_) fun _ _ =>
    .ite Iff.rfl (fun _ _ => ⟨rfl, h⟩) fun _ _ => ⟨rfl, h⟩
  rw [hv.snap]
  rcases hs : cv.hasSnap with _ | _
  · simp only [whenSet_false, Bool.false_eq_true, not_false_eq_true, or_true, if_true]
    exact ret_same ⟨rfl, h⟩ _
  · simp only [whenSet_true, not_true_eq_false, or_false]
    refine .ite Iff.rfl (fun _ _ => ret_same ⟨rfl, h⟩ _) fun _ _ => .need fun s hss => ?_
    obtain ⟨hwhy, hsnap⟩ := stopSnapshot_read hss
    rw [hv.hs, hsnap, same_read]
    refine .ite Iff.rfl (fun _ _ => ?_) fun _ _ => .ite Iff.rfl (fun _ _ => ?_) fun _ _ => ?_
    · apply ret_same
      exact ⟨rfl, h.pending, (by rintro ⟨⟩)⟩
    · apply ret_same
      exact ⟨rfl, h.pending, (by rintro ⟨⟩)⟩
    · have hst := stop_same (c := c.put { c.st with
        mode := .off, hasStopSnapshot := false, hasExpect := true, expect := c.st.stopSnapshot })
        ⟨h.pending, (by rintro ⟨⟩)⟩ true inp.nowMs s.why
      rw [← hwhy] at hst
      exact ret_same hst _

theorem faultRule_same (hv : SameView inp cv v) (h : c.st.Sound) :
    Same (faultRule inp.read v c.read) (Firmware.faultRule inp cv c) := by
  have hsnap : v.snap = none ↔ ¬ cv.hasSnap = true := by
    rw [hv.snap]
    simp
  rw [faultRule, Firmware.faultRule, hv.hs, hv.code]
  refine .ite Iff.rfl (fun _ _ => ?_) fun _ _ => .ite Iff.rfl (fun _ _ => ?_) fun _ _ => ?_
  · exact stopRet_same h _ _ _
  · exact ret_same (workFinish_same h) _
  · refine .ite hsnap (fun _ _ => ?_) fun _ _ => ⟨rfl, h⟩
    apply ret_same
    exact ⟨rfl, h⟩

theorem noPending_read : c.read.st.pending = none ↔ ¬ c.st.hasPending = true := by
  simp [Firmware.Work.read, Firmware.State.read]

theorem foreignRule_same (hv : SameView inp cv v) (h : c.st.Sound) :
    Same (foreignRule v c.read) (Firmware.foreignRule cv c) := by
  rw [foreignRule, Firmware.foreignRule, hv.hs]
  refine .ite (and_congr_left' noPending_read) (fun _ _ => ?_) fun _ _ => ⟨rfl, h⟩
  refine .need fun s hs => .need fun e he => ?_
  rw [hv.snap] at hs
  obtain ⟨_, rfl⟩ := whenSet_eq_some.mp hs
  obtain ⟨hx, rfl⟩ := whenSet_eq_some.mp he
  rw [same_read]
  refine .ite Iff.rfl (fun _ _ => ret_same (workFinish_same h) _) fun _ _ => ?_
  refine .ite readNum_eq_none (fun _ _ => ?_) fun _ _ => ⟨rfl, h⟩
  refine ⟨?_, h.pending, h.stopWhy⟩
  simp [hv.level, Firmware.Work.read, Firmware.State.read, Firmware.Work.put, hx,
    Firmware.Snap.read]

theorem batteryRule_same (hn : inp.nowMs ≠ thermoNoneMs) (h : c.st.Sound) :
    Same (batteryRule cfg inp.read c.read) (Firmware.batteryRule cfg inp c) := by
  have hlow : (inp.read.batt2Dv.any (· < cfg.battMinDv)) = true ↔
      inp.batt2Dv ≠ thermoNone ∧ inp.batt2Dv < cfg.battMinDv := by
    have hb : inp.read.batt2Dv = readNum thermoNone inp.batt2Dv := rfl
    rw [hb, readNum_any]
    simp
  rw [batteryRule, Firmware.batteryRule]
  refine .ite hlow (fun _ _ => ?_) fun _ _ => ⟨rfl, h.pending, h.stopWhy⟩
  obtain ⟨since, hs⟩ : ∃ since, (if c.st.battLowSinceMs = thermoNoneMs then inp.nowMs
    else c.st.battLowSinceMs) = since := ⟨_, rfl⟩
  have hsince : c.read.st.battLowSinceMs.getD inp.read.nowMs = since := by
    rw [← hs]
    exact readNum_getD _
  have hne : since ≠ thermoNoneMs := by
    rw [← hs]
    split_ifs with hb
    · exact hn
    · exact hb
  dsimp only
  rw [hsince, hs, ← readNum_of_ne hne]
  have hput : (c.put { c.st with battLowSinceMs := since }).st.Sound := ⟨h.pending, h.stopWhy⟩
  refine .ite Iff.rfl (fun _ _ => ?_) fun _ _ => ⟨rfl, hput⟩
  exact stopRet_same hput _ _ _

theorem endedRule_same (hv : SameView inp cv v) (h : c.st.Sound) :
    Same (endedRule v c.read) (Firmware.endedRule cv c) := by
  rw [endedRule, Firmware.endedRule, hv.hs]
  refine .ite (and_congr_left' noPending_read) (fun _ _ => .need fun e he => ?_) fun _ _ => ⟨rfl, h⟩
  obtain ⟨_, rfl⟩ := whenSet_eq_some.mp he
  exact ret_same (workFinish_same h) _

theorem sensor_read (a : Active) : sensor inp.read a = (Firmware.sensor inp a).read := by
  cases a <;> rfl

theorem select_sim (hn : inp.nowMs ≠ thermoNoneMs) (hv : SameView inp cv v) (h : c.st.Sound)
    (a : Active) :
    Flow.Sim SameExit SameWork (select cfg inp.read v a c.read)
      (.next (Firmware.select cfg inp cv a c) : Flow Firmware.Exit _) := by
  have hnow : some inp.read.nowMs = readNum thermoNoneMs inp.nowMs := (readNum_of_ne hn).symm
  rw [select, Firmware.select, hnow, hv.level, Firmware.followed]
  by_cases hl : cv.level = thermoNone
  · simp only [hl, readNum_missing, ne_eq, not_true_eq_false, if_false]
    exact ⟨rfl, h.pending, h.stopWhy⟩
  · rw [readNum_of_ne hl, if_pos hl]
    refine .need fun t ht => ?_
    rw [sensor_read] at ht
    obtain ⟨rfl, _⟩ := value_of_read ht
    have htr : track cfg c.read.st.ctl cv.level (Firmware.sensor inp a).value inp.read.target = _ :=
      track_read cfg c.st.ctl cv.level (Firmware.sensor inp a).value inp.target
    dsimp only
    rw [htr]
    exact ⟨rfl, h.pending, h.stopWhy⟩

theorem minLevel_read (hc : cfg.Fits) (hv : SameView inp cv v) :
    v.level ≠ some cfg.minLevel ↔ cv.level ≠ cfg.minLevel := by
  have hmin := hc.minLevel
  rw [hv.level, ne_eq, readNum_eq_some]
  exact not_congr (and_iff_left (by omega))

theorem degrade_same (hc : cfg.Fits) (hv : SameView inp cv v) (h : c.st.Sound) :
    Same (degrade cfg inp.read v c.read) (Firmware.degrade cfg inp cv c) := by
  have hmin := hc.minLevel
  have hput : (c.put { c.st with mode := .degraded }).st.Sound := ⟨h.pending, h.stopWhy⟩
  rw [degrade, Firmware.degrade]
  refine .ite (and_congr (minLevel_read hc hv) (and_congr_left' noPending_read)) (fun _ _ => ?_)
    fun _ _ => ret_same ⟨rfl, hput⟩ _
  refine .need fun e he => ?_
  obtain ⟨hx, rfl⟩ := whenSet_eq_some.mp he
  rw [hv.level]
  apply ret_same
  exact sendLevel_same hput hx (by omega) inp.nowMs cv.level

theorem referenceRule_same (hc : cfg.Fits) (hn : inp.nowMs ≠ thermoNoneMs)
    (hv : SameView inp cv v) (h : c.st.Sound) :
    Same (referenceRule cfg inp.read v c.read) (Firmware.referenceRule cfg inp cv c) := by
  have hval : ∀ s : Firmware.Sensor, valid cfg s.read = true ↔ Firmware.valid cfg s = true := by
    intro s
    rw [valid_read]
  have hsel : ∀ a r, Same (do let w ← select cfg inp.read v a c.read; w.ret r)
      ((Firmware.select cfg inp cv a c).ret (some r)) := by
    intro a r
    exact .bind_next (select_sim hn hv h a) fun w hw => ret_same hw r
  rw [referenceRule, Firmware.referenceRule, sensor_read]
  refine .ite (not_congr (hval _)) (fun _ _ => ?_) fun _ _ => ?_
  · refine .ite (and_congr_right' (hval _)) (fun _ _ => hsel _ _) fun _ _ => ?_
    refine .ite (and_congr_right' (hval _)) (fun _ _ => hsel _ _) fun _ _ => ?_
    exact degrade_same hc hv h
  · exact .ite Iff.rfl (fun _ _ => hsel _ _) fun _ _ => ⟨rfl, h⟩

theorem keepLevel_same (hv : SameView inp cv v) (h : c.st.Sound) (oldChange : ℤ) :
    Same (keepLevel inp.read v c.read oldChange) (Firmware.keepLevel inp cv c oldChange) := by
  have hout : (inp.read.outsideOn = true ∧ v.tOut = none) ↔
      (inp.outsideOn = true ∧ cv.tOut = thermoNone) := by
    rw [hv.tOut, readNum_eq_none]
    rfl
  have hwhy : (if inp.read.outsideOn = true ∧ v.tOut = none then Reason.outsideInactive
      else .hold) = if inp.outsideOn = true ∧ cv.tOut = thermoNone then .outsideInactive
      else .hold := by
    simp only [hout]
  rw [keepLevel, Firmware.keepLevel, hwhy]
  apply ret_same
  exact ⟨rfl, h.pending, h.stopWhy⟩

theorem regulate_same (hc : cfg.Fits) (hn : inp.nowMs ≠ thermoNoneMs) (hv : SameView inp cv v)
    (h : c.st.Sound) (x : ℤ × Firmware.Ctl × Reason) :
    Same (regulate cfg inp.read v c.read (readNum thermoNone x.1) x.2.1.read x.2.2)
      (Firmware.regulate cfg inp cv c x.1 x.2.1 x.2.2) := by
  obtain ⟨lvl, ctl, why⟩ := x
  have hmin := hc.minLevel
  have hnow : some inp.read.nowMs = readNum thermoNoneMs inp.nowMs := (readNum_of_ne hn).symm
  have hput : (c.put { c.st with ctl, lastCtlMs := inp.nowMs }).st.Sound := ⟨h.pending, h.stopWhy⟩
  unfold regulate Firmware.regulate
  rw [hv.hs, hnow]
  refine .ite Iff.rfl (fun _ _ => ?_) fun _ _ => .ite Iff.rfl (fun _ _ => ?_) fun _ _ => ?_
  · refine .ite (and_congr_left' (minLevel_read hc hv)) (fun _ _ => ?_)
      fun _ _ => ret_same ⟨rfl, hput⟩ _
    refine .need fun e he => ?_
    obtain ⟨hx, rfl⟩ := whenSet_eq_some.mp he
    rw [hv.level]
    apply ret_same
    exact sendLevel_same hput hx (by omega) inp.nowMs cv.level
  · exact stopRet_same hput _ _ _
  · dsimp only
    by_cases hl : lvl = thermoNone
    · rw [hl, readNum_missing, if_neg (by simp)]
      exact keepLevel_same hv hput _
    · have hsend : (some lvl ≠ v.level ∧ inp.read.linkReady = true) ↔
          (lvl ≠ thermoNone ∧ lvl ≠ cv.level ∧ inp.linkReady = true) := by
        rw [hv.level, ne_comm, ne_eq, readNum_eq_some, and_iff_left hl, and_iff_right hl, eq_comm]
        rfl
      rw [readNum_of_ne hl]
      refine .ite hsend (fun _ _ => .need fun e he => ?_) fun _ _ => keepLevel_same hv hput _
      obtain ⟨hx, rfl⟩ := whenSet_eq_some.mp he
      rw [hv.level]
      apply ret_same
      exact sendLevel_same hput hx hl inp.nowMs cv.level

theorem controlRule_same (hc : cfg.Fits) (hn : inp.nowMs ≠ thermoNoneMs) (hv : SameView inp cv v)
    (h : c.st.Sound) :
    Same (controlRule cfg inp.read v c.read) (Firmware.controlRule cfg inp cv c) := by
  rw [controlRule, Firmware.controlRule]
  by_cases hp : c.st.hasPending = true
  · have hp' : c.read.st.pending ≠ none := fun hn => noPending_read.mp hn hp
    rw [if_pos hp', if_pos (Or.inl hp)]
    exact ret_same ⟨rfl, h⟩ _
  · rw [if_neg (fun hn => hn (noPending_read.mpr hp))]
    refine .need fun last hl => ?_
    obtain ⟨rfl, _⟩ := readNum_eq_some.mp hl
    refine .ite (or_iff_right hp).symm (fun _ _ => ret_same ⟨rfl, h⟩ _) fun _ _ => ?_
    refine .need fun t ht => ?_
    rw [sensor_read] at ht
    obtain ⟨rfl, _⟩ := value_of_read ht
    have hcontrol : control cfg (Firmware.sensor inp c.read.st.active).value v.tOut inp.read.target
        (inp.read.nowMs - c.st.lastCtlMs) c.read.st.ctl v.level inp.read.nowMs =
        readDemand (Firmware.control cfg (Firmware.sensor inp c.st.active).value cv.tOut inp.target
          (inp.nowMs - c.st.lastCtlMs) c.st.ctl cv.level inp.nowMs) := by
      rw [hv.tOut, hv.level]
      exact control_read hc hn
    rw [hcontrol]
    exact regulate_same hc hn hv h _

theorem onRules_same (hc : cfg.Fits) (hn : inp.nowMs ≠ thermoNoneMs) (hv : SameView inp cv v)
    (h : c.st.Sound) : Same (onRules cfg inp.read v c.read) (Firmware.onRules cfg inp cv c) := by
  refine (faultRule_same hv h).bind ?_
  rintro _ c₁ ⟨rfl, h₁⟩
  refine (foreignRule_same hv h₁).bind ?_
  rintro _ c₂ ⟨rfl, h₂⟩
  refine (batteryRule_same hn h₂).bind ?_
  rintro _ c₃ ⟨rfl, h₃⟩
  refine (endedRule_same hv h₃).bind ?_
  rintro _ c₄ ⟨rfl, h₄⟩
  refine (referenceRule_same hc hn hv h₄).bind ?_
  rintro _ c₅ ⟨rfl, h₅⟩
  exact controlRule_same hc hn hv h₅

/-- What the firmware is promised of a step's inputs: no time is the sentinel, the command text
and its result come together, and an alias fits its buffer. -/
structure Firmware.Input.Fits (cfg : Cfg) (inp : Firmware.Input) : Prop where
  now : inp.nowMs ≠ thermoNoneMs
  wait : inp.nowMs + cfg.nightWaitMs ≠ thermoNoneMs
  cmd : inp.cmdWhat.isSome = inp.cmdResult.isSome
  alias_ : ∀ a, (sensor inp a).present = true →
    (sensor inp a).alias_ ≠ "" ∧ (sensor inp a).alias_.length ≤ 16

theorem unconfirmed_mode :
    (Firmware.unconfirmed cfg inp cv p c).Meets (fun _ => True)
      (fun k => k.st.mode = c.st.mode) := by
  rw [Firmware.unconfirmed]
  refine .ite (fun _ => trivial) fun _ => .ite (fun _ => ?_) fun _ => rfl
  exact .ite (fun _ => trivial) fun _ => rfl

theorem answer_mode :
    (Firmware.answer cfg inp cv p c).Meets (fun _ => True) (fun k => k.st.mode = c.st.mode) := by
  rw [Firmware.answer]
  refine .ite (fun _ => rfl) fun _ => .ite (fun _ => rfl) fun _ => .ite (fun _ => rfl) fun _ => ?_
  refine .ite (fun _ => trivial) fun _ => .ite (fun _ => ?_) fun _ => ?_
  · exact .ite (fun _ => trivial) fun _ => rfl
  · exact .ite (fun _ => unconfirmed_mode) fun _ => rfl

theorem pendingRule_keeps :
    (Firmware.pendingRule cfg inp cv c).Meets (fun _ => True)
      (fun k => k.st.mode = .waiting → k.cmds = c.cmds) := by
  rw [Firmware.pendingRule]
  refine .ite (fun _ => ?_) fun hw => .ite (fun hp => ?_) fun _ _ => rfl
  · intro _
    split_ifs
    · rfl
    · rfl
  · refine .ite (fun _ => ?_) fun _ => ?_
    · rw [Firmware.movedExit]
      exact .ite (fun _ => trivial) fun _ => trivial
    · refine answer_mode.mono (fun _ hx => hx) fun k hk hm => ?_
      exact absurd ⟨hp, hk.symm.trans hm⟩ hw

theorem rules_same (hc : cfg.Fits) (hi : inp.Fits cfg) (hv : SameView inp cv v)
    (h : c.st.Sound) (hcm : c.cmds = []) :
    Same (rules cfg inp.read v c.read) (Firmware.rules cfg inp cv c) := by
  refine ((pendingRule_same h hcm hv hi.cmd).and_meets pendingRule_keeps).bind ?_
  rintro _ c₁ ⟨⟨rfl, h₁⟩, hk⟩
  refine (waitingRule_same hc hi.now hv h₁ fun hm => (hk hm).trans hcm).bind ?_
  rintro _ c₂ ⟨rfl, h₂⟩
  refine (requestRule_same hc hi.now hi.wait hv h₂).bind ?_
  rintro _ c₃ ⟨rfl, h₃⟩
  refine (stoppingRule_same hv h₃).bind ?_
  rintro _ c₄ ⟨rfl, h₄⟩
  exact onRules_same hc hi.now hv h₄

theorem waitLeft_read (u now : ℤ) :
    max 0 (-(Int.fdiv (now - u) 1000)) = Firmware.waitLeft u now := by
  rw [Firmware.waitLeft, Int.fdiv_eq_ediv_of_nonneg _ (by omega)]
  by_cases h : u - now ≤ 0
  · rw [if_pos h]
    omega
  · rw [if_neg h, Int.tdiv_eq_ediv_of_nonneg (by omega)]
    omega

theorem waitLeft_ne (u now : ℤ) : Firmware.waitLeft u now ≠ thermoNone := by
  rw [← waitLeft_read]
  simp only [thermoNone]
  omega

theorem waitLeftS_read (u now : ℤ) :
    ((readNum thermoNoneMs u).map fun u => max 0 (-(Int.fdiv (now - u) 1000))) =
      readNum thermoNone (if u = thermoNoneMs then thermoNone else Firmware.waitLeft u now) := by
  by_cases h : u = thermoNoneMs
  · simp [h]
  · rw [if_neg h, readNum_of_ne h, readNum_of_ne (waitLeft_ne u now), Option.map_some,
      waitLeft_read]

theorem alias_read {s : Firmware.Sensor}
    (h : s.present = true → s.alias_ ≠ "" ∧ s.alias_.length ≤ 16) :
    s.read.map Sensor.alias_ =
      Firmware.readAlias (if s.present then String.ofList (s.alias_.toList.take 16) else "") := by
  by_cases hp : s.present = true
  · obtain ⟨hne, hl⟩ := h hp
    have ht : String.ofList (s.alias_.toList.take 16) = s.alias_ := by
      rw [List.take_of_length_le (by rwa [String.length_toList])]
      simp
    simp [Firmware.Sensor.read, Firmware.readAlias, hp, ht, hne]
  · simp [Firmware.Sensor.read, Firmware.readAlias, hp]

theorem status_read (hv : SameView inp cv v) (hi : inp.Fits cfg) :
    status cfg inp.read v st.read = (Firmware.status cfg inp cv st).read := by
  have hact : st.read.active = st.active := rfl
  have hwait : st.read.waitUntilMs.map (fun u => max 0 (-(Int.fdiv (inp.read.nowMs - u) 1000))) =
      _ :=
    waitLeftS_read st.waitUntilMs inp.nowMs
  simp only [status, Firmware.status, Firmware.Status.read, sensor_read, hact, validValue_read,
    alias_read (hi.alias_ st.active), hv.hs, hv.level, hv.tOut, readNum_isSome,
    blocked_read, hwait]
  rfl

theorem settle_read : st.read.settle = st.settle.read := by
  rcases hm : st.mode <;> simp [State.settle, Firmware.State.settle, Firmware.State.read, hm]

theorem finish_out (hv : SameView inp cv v) (hi : inp.Fits cfg) (x : Firmware.Exit) :
    out cfg inp.read v x.read =
      ((Firmware.finish cfg inp cv x).1.read, (Firmware.finish cfg inp cv x).2.read) := by
  have hst : x.read.st.settle = x.st.settle.read := settle_read
  simp only [out, hst, status_read hv hi]
  rfl

theorem step_twin (hc : cfg.Fits) (hi : inp.Fits cfg) (h : st.Sound) {o : Out} {st' : State}
    (hs : step cfg inp.read st.read = some (o, st')) :
    ∃ p k, Firmware.step cfg inp st = some (p, k) ∧ o = p.read ∧ st' = k.read ∧ k.Sound := by
  have hv := view_sameView cfg inp
  have hrules : Flow.Sim SameExit SameExit
      (rules cfg inp.read (view cfg inp.read) ⟨st.read, [], none⟩ >>= fun w =>
        (.done ⟨w.st, w.cmds, w.reason⟩ : Flow Exit Exit))
      (Firmware.rules cfg inp (Firmware.view cfg inp) ⟨st, [], none⟩ >>= fun w =>
        (.done ⟨w.st, w.cmds, w.reason⟩ : Flow Firmware.Exit Firmware.Exit)) := by
    refine (rules_same (c := ⟨st, [], none⟩) hc hi hv h rfl).bind ?_
    rintro _ k ⟨rfl, hk⟩
    exact ⟨rfl, hk⟩
  simp only [step, Option.map_eq_some_iff] at hs
  obtain ⟨x, hx, hx'⟩ := hs
  obtain ⟨k, hk, rfl, hks⟩ := hrules.result hx
  rw [finish_out hv hi] at hx'
  refine ⟨_, _, ?_, (Prod.mk.inj hx').1.symm, (Prod.mk.inj hx').2.symm, ?_⟩
  · simp only [Firmware.step, hk]
    rfl
  · exact ⟨hks.pending, hks.stopWhy⟩

/-- The firmware's input, output or state reads as Python's, and keeps to its contract. -/
def TwinInput (cfg : Cfg) (i : Input) (k : Firmware.Input) : Prop := i = k.read ∧ k.Fits cfg

def TwinOut (o : Out) (k : Firmware.Out) : Prop := o = k.read

def TwinState (st : State) (k : Firmware.State) : Prop := st = k.read ∧ k.Sound

theorem init_twin : TwinState initialState Firmware.init := by
  refine ⟨?_, (by rintro ⟨⟩), (by rintro ⟨⟩)⟩
  simp [Firmware.init, Firmware.State.read, Firmware.Ctl.read, initialState]

/-- From related states, on related inputs: every run of the Python thermostat is a run of the
firmware's, with the same commands, reason, mode and status at every step. From a state in order
the Python thermostat runs every list of inputs to its end. -/
theorem firmware_twin {cfg : Cfg} (hc : cfg.Fits) {s₀ : State} {k₀ : Firmware.State}
    (h₀ : TwinState s₀ k₀) {is : List Input} {ks : List Firmware.Input}
    (hi : List.Forall₂ (TwinInput cfg) is ks) :
    (∀ tr s, Run (step cfg) s₀ tr s → tr.map Record.inp = is →
      ∃ tr' k, Run (Firmware.step cfg) k₀ tr' k ∧ tr'.map Record.inp = ks ∧
        List.Forall₂ (Alike (TwinInput cfg) TwinOut TwinState) tr tr' ∧ TwinState s k) ∧
    (WellFormed s₀ → ∃ tr s, Run (step cfg) s₀ tr s ∧ tr.map Record.inp = is) := by
  constructor
  · intro tr s hr htr
    refine hr.simulate h₀ (htr ▸ hi) ?_
    rintro _ i _ k o st ⟨rfl, hfit⟩ ⟨rfl, hk⟩ hs
    obtain ⟨p, k', hk', ho, hst, hsound⟩ := step_twin hc hfit hk hs
    exact ⟨p, k', hk', ho, hst, hsound⟩
  · intro hw
    obtain ⟨tr, s, hr, htr, _⟩ := Run.total hw (step_total cfg) is
    exact ⟨tr, s, hr, htr⟩

/-- An AUTO request after boot: the heater is off, the cabin at 15 °C. -/
def bootInput : Firmware.Input where
  nowMs := 0
  enabled := true
  request := some .auto
  target := 2000
  runtimeMin := 120
  ref := ⟨true, "cabin", 1500, 0⟩
  backup := ⟨false, "", 0, 0⟩
  out := ⟨false, "", 0, 0⟩
  outsideOn := false
  heater := some ⟨1, 0, thermoNone, thermoNone, thermoNone, thermoNone, thermoNone⟩
  heaterAgeMs := 0
  linkReady := true
  campingOn := true
  shoreOn := false
  ignitionOn := 0
  batt2Dv := thermoNone
  cmdWhat := none
  cmdResult := none
  night := false
  knownCampingOn := 1
  knownShoreOn := 0
  knownIgnitionOn := 0

example : (Firmware.step thermoDefaults bootInput Firmware.init).map
    (fun x => (x.1.reason, x.1.cmds)) =
    some (some .start, [⟨.runtime, 120⟩, ⟨.level, 8⟩, ⟨.power, 1⟩]) := by decide

theorem bootInput_fits : bootInput.Fits thermoDefaults := by
  refine ⟨by decide, by decide, rfl, ?_⟩
  intro a
  cases a <;> decide

theorem thermoDefaults_fits : thermoDefaults.Fits := ⟨by decide, by decide⟩

theorem firmware_twin_boot :
    ∃ tr s tr' k, Run (step thermoDefaults) initialState tr s ∧
      tr.map Record.inp = [bootInput.read] ∧
      Run (Firmware.step thermoDefaults) Firmware.init tr' k ∧ tr'.map Record.inp = [bootInput] ∧
      List.Forall₂ (Alike (TwinInput thermoDefaults) TwinOut TwinState) tr tr' ∧ TwinState s k := by
  obtain ⟨hrun, htotal⟩ := firmware_twin thermoDefaults_fits init_twin
    (.cons ⟨rfl, bootInput_fits⟩ .nil : List.Forall₂ (TwinInput thermoDefaults) [bootInput.read] _)
  obtain ⟨tr, s, hr, htr⟩ := htotal initialState_wellFormed
  obtain ⟨tr', k, hr', htr', hall, hs⟩ := hrun tr s hr htr
  exact ⟨tr, s, tr', k, hr, htr, hr', htr', hall, hs⟩

end OpenCalifornia.Thermostat
