import OpenCalifornia.Lib.Machine
import OpenCalifornia.Thermostat.Ranges

/-! # A run in its types

The clocks that the state keeps lie in the past, but for the end of the night wait, and the
integral in its bounds: every rule keeps it so, and finds every value it computes in range. -/

namespace OpenCalifornia.Thermostat.Firmware
open Lib (Flow)
open Lib.CInt
open Lib.Machine (Run Record)

variable {B : Budget} {spent now : ℤ} {cfg : Cfg} {inp : Input} {v : View} {st st' : State}
  {w w' : Work}

/-- What the arithmetic reads of the state. -/
structure Clocks where
  ctl : Ctl
  batt : ℤ
  cont : ℤ
  last : ℤ
  wait : ℤ
  since : ℤ
  first : ℤ

def State.clocks (st : State) : Clocks :=
  ⟨st.ctl, st.battLowSinceMs, st.contSinceMs, st.lastCtlMs, st.waitUntilMs, st.pending.sinceMs,
    st.pending.firstMs⟩

structure Clocks.Ok (B : Budget) (spent tOut now : ℤ) (c : Clocks) : Prop where
  ctl : CtlOk B spent tOut now c.ctl
  batt : Past now c.batt
  cont : Past now c.cont
  last : Past now c.last
  wait : c.wait = thermoNoneMs ∨ 0 ≤ c.wait ∧ c.wait ≤ now + 2147483647
  since : 0 ≤ c.since ∧ c.since ≤ now
  first : 0 ≤ c.first ∧ c.first ≤ now

/-- The control law has run before wherever it may be due. -/
def State.Timed (st : State) : Prop :=
  st.mode = .off ∨ st.mode = .stopping ∨ st.lastCtlMs ≠ thermoNoneMs

structure Sane (B : Budget) (spent tOut now : ℤ) (st : State) : Prop where
  clocks : st.clocks.Ok B spent tOut now
  timed : st.Timed

section State

variable {tOut : ℤ}

theorem Sane.congr (h : Sane B spent tOut now st) (hc : st'.clocks = st.clocks)
    (hm : st'.mode = st.mode ∨ st'.mode = .off ∨ st'.mode = .stopping ∨
      st'.lastCtlMs ≠ thermoNoneMs) : Sane B spent tOut now st' := by
  refine ⟨hc ▸ h.clocks, ?_⟩
  rcases hm with hm | hm
  · have hl : st'.lastCtlMs = st.lastCtlMs := congrArg Clocks.last hc
    have := h.timed
    simpa only [State.Timed, hm, hl] using this
  · exact hm

theorem Sane.finish (h : Sane B spent tOut now st) : Sane B spent tOut now st.finish :=
  h.congr rfl (.inr (.inl rfl))

theorem Sane.pend (h : Sane B spent tOut now st) (hn : 0 ≤ now) (what : What) (value before : ℤ)
    (why : Option Reason) : Sane B spent tOut now (st.pend what value now before why) :=
  ⟨{ h.clocks with since := ⟨hn, Int.le_refl _⟩, first := ⟨hn, Int.le_refl _⟩ }, h.timed⟩

theorem Sane.stop (h : Sane B spent tOut now w.st) (hn : 0 ≤ now) (canSend : Bool)
    (why : Option Reason) : Sane B spent tOut now (w.stop canSend now why).st := by
  simp only [Work.stop]
  split
  · exact h.finish
  · split
    · exact h.finish.pend hn _ _ _ _
    · exact h.congr rfl (.inr (.inr (.inl rfl)))

theorem Sane.sendLevel (h : Sane B spent tOut now w.st) (hn : 0 ≤ now) (level before : ℤ) :
    Sane B spent tOut now (w.sendLevel level now before).st := by
  have hp := h.pend hn .level level before none
  have hc : CtlOk B spent tOut now { w.st.ctl with lastChangeMs := now } :=
    { h.clocks.ctl with change := ⟨hn, Int.le_refl _⟩ }
  exact ⟨{ hp.clocks with ctl := hc }, h.timed⟩

theorem Sane.sendUnless {p : Prop} [Decidable p] (h : Sane B spent tOut now w.st) (hn : 0 ≤ now)
    (level before : ℤ) :
    Sane B spent tOut now (if p then w else w.sendLevel level now before).st := by
  split
  · exact h
  · exact h.sendLevel hn level before

theorem Clocks.Ok.control (h : st.clocks.Ok B spent tOut now) (hn : 0 ≤ now) {ctl : Ctl}
    (hc : CtlOk B spent tOut now ctl) (hs : st'.clocks = { st.clocks with ctl, last := now }) :
    Sane B spent tOut now st' := by
  have hl : st'.lastCtlMs = now := congrArg Clocks.last hs
  refine ⟨?_, .inr (.inr ?_)⟩
  · rw [hs]
    exact { h with ctl := hc, last := .inr ⟨hn, Int.le_refl _⟩ }
  · simp only [thermoNoneMs]
    omega

end State

/-- A valid reading, or none. -/
def Known (B : Budget) (cfg : Cfg) (target t : ℤ) : Prop :=
  reading t ∧ ErrorWithin B cfg (target - t)

theorem fresh_ok {tOut last : ℤ} (hs : 0 ≤ spent) (hl : 0 ≤ last ∧ last ≤ now) :
    CtlOk B spent tOut now ⟨0, last, thermoNoneMs, 0, 0⟩ := by
  have hw : (0 : ℤ) ≤ B.wind := (Int.natCast_nonneg B.prop).trans (le_max_left _ _)
  refine ⟨hl, .inl rfl, fun hn => absurd hn ?_, fun _ => ?_⟩
  · simp [thermoNone]
 
  dsimp only
  omega

variable (hf : Fair B spent cfg inp v)
include hf

theorem takeover_sane (h : w.st.clocks.Ok B spent v.tOut inp.nowMs) {tRef : ℤ}
    (ht : tRef ≠ thermoNone → Known B cfg inp.target tRef) :
    Sane B spent v.tOut inp.nowMs (takeover cfg inp v tRef w).st := by
  have hfresh : CtlOk B spent v.tOut inp.nowMs ⟨0, w.st.ctl.lastChangeMs, thermoNoneMs, 0, 0⟩ :=
    fresh_ok hf.paid h.ctl.change
  by_cases hn : tRef = thermoNone
  · simp only [takeover, if_pos hn]
    exact h.control hf.now.1 hfresh rfl
  · have hc := control_ok thermoNone hf (ht hn).2 hfresh (Int.le_refl 0)
    simp only [takeover, if_neg hn]
    exact Sane.sendUnless (h.control hf.now.1 hc rfl) hf.now.1 _ _

theorem takeoverVals_fit (h : w.st.clocks.Ok B spent v.tOut inp.nowMs) {tRef : ℤ}
    (ht : tRef ≠ thermoNone → Known B cfg inp.target tRef) :
    AllFit (takeoverVals cfg inp v tRef w) :=
  allFit_ite (fun _ => allFit_nil) fun hn => control_fit hf (ht hn).1 (ht hn).2
    (fresh_ok hf.paid h.ctl.change) (Int.le_refl 0) (.inl rfl)

theorem startHeater_sane (h : w.st.clocks.Ok B spent v.tOut inp.nowMs) {tRef : ℤ}
    (ht : Known B cfg inp.target tRef) (hl : w.st.lastCtlMs = inp.nowMs) :
    Sane B spent v.tOut inp.nowMs (startHeater cfg inp v tRef w).st := by
  have hfresh : CtlOk B spent v.tOut inp.nowMs ⟨0, inp.nowMs, thermoNoneMs, 0, 0⟩ :=
    fresh_ok hf.paid ⟨hf.now.1, Int.le_refl _⟩
  have hc : Sane B spent v.tOut inp.nowMs { w.st with ctl := (control cfg tRef v.tOut inp.target 0
      ⟨0, inp.nowMs, thermoNoneMs, 0, 0⟩ thermoNone inp.nowMs).2.1 } := by
    refine h.control hf.now.1 (control_ok thermoNone hf ht.2 hfresh (Int.le_refl 0)) ?_
    simp only [State.clocks, hl]
  exact (hc.pend hf.now.1 .power 1 thermoNone none).congr rfl (.inl rfl)

/-- A rule keeps the clocks and the integral, where it goes on and where it returns. -/
def Keeps (B : Budget) (spent : ℤ) (inp : Input) (v : View) (m : Flow Exit Work) : Prop :=
  m.Ends (fun x => Sane B spent v.tOut inp.nowMs x.st) fun w => Sane B spent v.tOut inp.nowMs w.st

theorem resent_sane (h : Sane B spent v.tOut inp.nowMs w.st) {p : Pending} (cmds : List Cmd)
    (hs : p.sinceMs = inp.nowMs) (hp : p.firstMs = w.st.pending.firstMs) :
    Sane B spent v.tOut inp.nowMs (resent w p cmds).st := by
  refine ⟨{ h.clocks with since := ?_, first := ?_ }, h.timed⟩
  · have := hf.now
    simp only [State.clocks, resent, hs]
    omega
  · simpa only [State.clocks, resent, hp] using h.clocks.first

omit hf in
theorem dropPending_sane {tOut : ℤ} (h : Sane B spent tOut now w.st) (p : Pending) :
    Sane B spent tOut now (dropPending p w).st := by
  simp only [dropPending]
  split_ifs
  · exact h.congr rfl (.inl rfl)
  · exact h.finish

theorem unconfirmed_keeps (h : Sane B spent v.tOut inp.nowMs w.st) :
    Keeps B spent inp v (unconfirmed cfg inp v w.st.pending w) := by
  refine .ite (fun _ => h.congr rfl (.inl rfl)) fun _ =>
    .ite (fun _ => .ite (fun _ => ?_) fun _ => h)
    fun _ => ?_
  · exact dropPending_sane h _
  · exact resent_sane hf h _ rfl rfl

theorem answer_keeps (h : Sane B spent v.tOut inp.nowMs w.st) :
    Keeps B spent inp v (answer cfg inp v w.st.pending w) := by
  refine .ite (fun _ => h.congr rfl (.inl rfl)) fun _ => .ite (fun _ => h) fun _ =>
    .ite (fun _ => h) fun _ => .ite (fun _ => dropPending_sane h _) fun _ =>
    .ite (fun _ => .ite (fun _ => h.finish) fun _ => ?_) fun _ =>
    .ite (fun _ => unconfirmed_keeps hf h) fun _ => h
  exact resent_sane hf h _ rfl rfl

theorem pendingRule_keeps (h : Sane B spent v.tOut inp.nowMs w.st) :
    Keeps B spent inp v (pendingRule cfg inp v w) := by
  refine .ite (fun _ => ?_) fun _ => .ite (fun _ => .ite (fun _ => ?_) fun _ => answer_keeps hf h)
    fun _ => h
  · simp only [Flow.pure_eq, Flow.ends_next]
    split_ifs
    · exact h.congr rfl (.inl rfl)
    · exact h
  · exact .ite (fun _ => h.finish) fun _ => h.finish

theorem pendingVals_fit (h : Sane B spent v.tOut inp.nowMs w.st) :
    AllFit (pendingVals inp v w) := by
  have hn := hf.now
  have hs := h.clocks.since
  have hp := h.clocks.first
  simp only [State.clocks] at hs hp
  refine allFit_ite (fun _ => allFit_append.2
    ⟨allFit_ite (fun hsnap => ?_) fun _ => allFit_nil, ?_⟩)
    fun _ => allFit_nil
  · have := hf.age hsnap
    simp only [allFit_cons, fits_i64, allFit_nil, and_true]
    omega
  · simp only [allFit_cons, fits_i64, allFit_nil, and_true]
    omega

omit hf in
theorem seen_sane {tOut : ℤ} (h : Sane B spent tOut now w.st) :
    Sane B spent tOut now (seen v w).st := by
  simp only [seen]
  split_ifs
  · exact h.congr rfl (.inl rfl)
  · exact h

theorem ref_known {t : ℤ} (ht : t = if valid cfg inp.ref then inp.ref.value else thermoNone)
    (hn : t ≠ thermoNone) : Known B cfg inp.target t := by
  by_cases hv : valid cfg inp.ref
  · rw [ht, if_pos hv]
    exact hf.ref hv
  · rw [ht, if_neg hv] at hn
    exact absurd rfl hn

theorem confirmSince_keeps (h : Sane B spent v.tOut inp.nowMs w.st) {since : ℤ}
    (hs : Past inp.nowMs since) : Keeps B spent inp v (confirmSince cfg inp v since w) := by
  have hc : Sane B spent v.tOut inp.nowMs (w.put { w.st with contSinceMs := since }).st :=
    ⟨{ h.clocks with cont := hs }, h.timed⟩
  refine .ite (fun _ => hc) fun _ => takeover_sane hf ?_ (ref_known hf rfl)
  exact hc.clocks

theorem confirm_keeps (h : Sane B spent v.tOut inp.nowMs w.st) :
    Keeps B spent inp v (confirm cfg inp v w) :=
  .ite (fun _ => .ite (fun _ => h.finish) fun _ =>
    confirmSince_keeps hf h (.inr ⟨hf.now.1, Int.le_refl _⟩)) fun _ =>
    confirmSince_keeps hf h h.clocks.cont

theorem waitingRule_keeps (h : Sane B spent v.tOut inp.nowMs w.st) :
    Keeps B spent inp v (waitingRule cfg inp v w) := by
  refine .ite (fun _ => ?_) fun _ => h
  have hs := seen_sane (v := v) h
  refine .ite (fun _ => hs.stop hf.now.1 _ _) fun _ => .ite (fun _ => hs.finish) fun _ =>
    .ite (fun _ => ?_) fun _ => confirm_keeps hf hs
  have hw : Sane B spent v.tOut inp.nowMs
      ((seen v w).put { (seen v w).st with contSinceMs := thermoNoneMs }).st :=
    ⟨{ hs.clocks with cont := .inl rfl }, hs.timed⟩
  exact .ite (fun _ => hw.finish) fun _ => hw

theorem confirmSinceVals_fit (h : Sane B spent v.tOut inp.nowMs w.st) {since : ℤ}
    (hs : 0 ≤ since ∧ since ≤ inp.nowMs) (hsnap : v.hasSnap) :
    AllFit (confirmSinceVals cfg inp v since w) := by
  have hn := hf.now
  have ha := hf.age hsnap
  refine allFit_append.2 ⟨?_, allFit_ite (fun _ => allFit_nil) fun _ =>
    takeoverVals_fit hf h.clocks (ref_known hf rfl)⟩
  simp only [allFit_cons, fits_i64, allFit_nil, and_true]
  omega

theorem waitingVals_fit (h : Sane B spent v.tOut inp.nowMs w.st)
    (hv : v.hs = .continuous → v.hasSnap) : AllFit (waitingVals cfg inp v w) := by
  refine allFit_ite (fun _ => allFit_ite (fun _ => allFit_nil) fun _ =>
    allFit_ite (fun _ => allFit_nil)
    fun _ => allFit_ite (fun _ => allFit_nil) fun hc => ?_) fun _ => allFit_nil
  have hsnap := hv (not_not.1 hc)
  refine allFit_ite (fun _ => allFit_ite (fun _ => allFit_nil) fun _ => ?_) fun hne => ?_
  · exact confirmSinceVals_fit hf h ⟨hf.now.1, Int.le_refl _⟩ hsnap
  · exact confirmSinceVals_fit hf h (h.clocks.cont.resolve_left hne) hsnap

omit hf in
theorem refusal_none {code : ℤ} (h : refusal cfg inp v.hs code = none) : valid cfg inp.ref := by
  by_contra hn
  simp only [refusal] at h
  split_ifs at h

omit hf in
theorem timed_of_now (hn : 0 ≤ inp.nowMs) (hl : st.lastCtlMs = inp.nowMs) : st.Timed := by
  refine .inr (.inr ?_)
  simp only [hl, thermoNoneMs]
  omega

theorem entered_sane (h : Sane B spent v.tOut inp.nowMs w.st) :
    Sane B spent v.tOut inp.nowMs (entered inp w).st :=
  ⟨{ h.clocks with batt := .inl rfl, last := .inr ⟨hf.now.1, Int.le_refl _⟩ },
    timed_of_now hf.now.1 rfl⟩

theorem enter_keeps (h : Sane B spent v.tOut inp.nowMs w.st) (hv : valid cfg inp.ref) :
    Keeps B spent inp v (enter cfg inp v w) := by
  have he := entered_sane hf h
  have hk : Known B cfg inp.target inp.ref.value := hf.ref hv
  refine .ite (fun _ => ?_) fun _ => .ite (fun _ => startHeater_sane hf he.clocks hk rfl) fun _ =>
    takeover_sane hf he.clocks fun _ => hk
  have hn := hf.now
  have hnw := hf.nightWait
  have hw : Sane B spent v.tOut inp.nowMs ((entered inp w).put { (entered inp w).st with
      mode := .waiting, waitUntilMs := inp.nowMs + cfg.nightWaitMs, contSinceMs := thermoNoneMs
      hasExpect := true, expect := v.snap }).st := by
    refine ⟨{ he.clocks with cont := .inl rfl, wait := .inr ?_ }, timed_of_now hn.1 rfl⟩
    simp only [State.clocks, Work.put]
    omega
  by_cases ho : v.hs = .off
  · simp only [nightWait, if_pos ho]
    exact takeover_sane hf hw.clocks fun _ => hk
  · simp only [nightWait, if_neg ho]
    exact hw

theorem followed_ok {t : ℤ} (hk : Known B cfg inp.target t) {ctl : Ctl}
    (hc : CtlOk B spent v.tOut inp.nowMs ctl) :
    CtlOk B spent v.tOut inp.nowMs (followed cfg inp v t ctl) := by
  simp only [followed]
  split_ifs with hl
  · exact track_ok hf hk.2 hc (hf.level.resolve_left hl)
  · exact hc

theorem followedVals_fit {t : ℤ} (hk : Known B cfg inp.target t) {ctl : Ctl}
    (hc : CtlOk B spent v.tOut inp.nowMs ctl) : AllFit (followedVals cfg inp v t ctl) :=
  allFit_ite (fun hl => trackVals_fit hf hk.1 hk.2 hc (hf.level.resolve_left hl)) fun _ =>
    allFit_nil

theorem requestRule_keeps (h : Sane B spent v.tOut inp.nowMs w.st) :
    Keeps B spent inp v (requestRule cfg inp v w) := by
  refine .ite (fun _ => h.stop hf.now.1 _ _) fun _ => .ite (fun _ => .ite (fun _ => h) fun _ => ?_)
    fun _ => ?_
  · rcases hr : refusal cfg inp v.hs v.code with _ | why
    · exact enter_keeps hf h (refusal_none hr)
    · exact h
  · simp only [Flow.pure_eq, Flow.ends_next, backToRef]
    split_ifs with hb
    · exact ⟨{ h.clocks with ctl := followed_ok hf (hf.ref hb.2.2.2) h.clocks.ctl }, h.timed⟩
    · exact h

theorem enterVals_fit (h : Sane B spent v.tOut inp.nowMs w.st) (hv : valid cfg inp.ref) :
    AllFit (enterVals cfg inp v w) := by
  have hn := hf.now
  have hnw := hf.nightWait
  have hk : Known B cfg inp.target inp.ref.value := hf.ref hv
  have htake : AllFit (takeoverVals cfg inp v inp.ref.value w) :=
    takeoverVals_fit hf h.clocks fun _ => hk
  refine allFit_ite (fun _ => ?_) fun _ => allFit_ite (fun _ => ?_) fun _ => htake
  · simp only [allFit_cons, fits_i64]
    exact ⟨by omega, allFit_ite (fun _ => htake) fun _ => allFit_nil⟩
  · exact control_fit hf hk.1 hk.2 (fresh_ok hf.paid ⟨hn.1, Int.le_refl _⟩)
      (Int.le_refl 0) (.inl rfl)

theorem requestVals_fit (h : Sane B spent v.tOut inp.nowMs w.st) :
    AllFit (requestVals cfg inp v w) := by
  have ht := hf.target
  have hb := hf.bandHi
  refine allFit_ite (fun _ => allFit_nil) fun _ =>
    allFit_ite (fun _ => allFit_ite (fun _ => allFit_nil) fun _ => ?_) fun _ =>
      allFit_ite (fun hb => ?_) fun _ => allFit_nil
  · simp only [allFit_cons, fits_i64]
    exact ⟨by omega, allFit_ite (fun hr => enterVals_fit hf (entered_sane hf h) (refusal_none hr))
      fun _ => allFit_nil⟩
  · exact followedVals_fit hf (hf.ref hb.2.2.2) h.clocks.ctl

/-- A rule as above, that goes on only while the thermostat is on. -/
def KeepsOn (B : Budget) (spent : ℤ) (inp : Input) (v : View) (m : Flow Exit Work) : Prop :=
  m.Ends (fun x => Sane B spent v.tOut inp.nowMs x.st) fun w =>
    Sane B spent v.tOut inp.nowMs w.st ∧ w.st.mode.on

theorem stoppingRule_keeps (h : Sane B spent v.tOut inp.nowMs w.st) :
    KeepsOn B spent inp v (stoppingRule inp v w) := by
  refine .ite (fun _ => .ite (fun _ => h) fun _ => ?_) fun _ => .ite (fun _ => h) fun hm => ?_
  · have ho : Sane B spent v.tOut inp.nowMs
        (w.put { w.st with mode := .off, hasStopSnapshot := false }).st :=
      h.congr rfl (.inr (.inl rfl))
    refine .ite (fun _ => ho) fun _ => .ite (fun _ => ho) fun _ => Sane.stop ?_ hf.now.1 _ _
    exact ho.congr rfl (.inl rfl)
  · exact ⟨h, not_not.1 hm⟩

theorem faultRule_keeps (h : Sane B spent v.tOut inp.nowMs w.st) (ho : w.st.mode.on) :
    KeepsOn B spent inp v (faultRule inp v w) :=
  .ite (fun _ => h.stop hf.now.1 _ _) fun _ => .ite (fun _ => h.finish) fun _ =>
    .ite (fun _ => h) fun _ => ⟨h, ho⟩

omit hf in
theorem foreignRule_keeps (h : Sane B spent v.tOut inp.nowMs w.st) (ho : w.st.mode.on) :
    KeepsOn B spent inp v (foreignRule v w) :=
  .ite (fun _ => .ite (fun _ => h.finish) fun _ => .ite (fun _ => ⟨h.congr rfl (.inl rfl), ho⟩)
    fun _ => ⟨h, ho⟩) fun _ => ⟨h, ho⟩

theorem batteryRule_keeps (h : Sane B spent v.tOut inp.nowMs w.st) (ho : w.st.mode.on) :
    KeepsOn B spent inp v (batteryRule cfg inp w) := by
  refine .ite (fun _ => ?_) fun _ => ⟨⟨{ h.clocks with batt := .inl rfl }, h.timed⟩, ho⟩
  have hb : Past inp.nowMs
      (if w.st.battLowSinceMs = thermoNoneMs then inp.nowMs else w.st.battLowSinceMs) := by
    split_ifs
    · exact .inr ⟨hf.now.1, Int.le_refl _⟩
    · exact h.clocks.batt
  have hw : Sane B spent v.tOut inp.nowMs (w.put { w.st with battLowSinceMs :=
      if w.st.battLowSinceMs = thermoNoneMs then inp.nowMs else w.st.battLowSinceMs }).st :=
    ⟨{ h.clocks with batt := hb }, h.timed⟩
  exact .ite (fun _ => hw.stop hf.now.1 _ _) fun _ => ⟨hw, ho⟩

theorem batteryVals_fit (h : Sane B spent v.tOut inp.nowMs w.st) :
    AllFit (batteryVals cfg inp w) := by
  have hn := hf.now
  refine allFit_ite (fun _ => ?_) fun _ => allFit_nil
  simp only [allFit_cons, fits_i64, allFit_nil, and_true]
  split_ifs with hb
  · omega
  · have := past_sub hn h.clocks.batt hb
    simp only [State.clocks] at this
    omega

omit hf in
theorem endedRule_keeps (h : Sane B spent v.tOut inp.nowMs w.st) (ho : w.st.mode.on) :
    KeepsOn B spent inp v (endedRule v w) :=
  .ite (fun _ => h.finish) fun _ => ⟨h, ho⟩

theorem sensor_known {active : Active} (hv : valid cfg (sensor inp active)) :
    Known B cfg inp.target (sensor inp active).value := by
  cases active with
  | ref => exact hf.ref hv
  | backup => exact hf.backup hv

theorem select_sane (h : Sane B spent v.tOut inp.nowMs w.st) (active : Active)
    (hv : valid cfg (sensor inp active)) :
    Sane B spent v.tOut inp.nowMs (select cfg inp v active w).st :=
  h.clocks.control hf.now.1 (followed_ok hf (sensor_known hf hv) h.clocks.ctl) rfl

theorem degrade_keeps {P : Work → Prop} (h : Sane B spent v.tOut inp.nowMs w.st)
    (ho : w.st.mode.on) :
    (degrade cfg inp v w).Ends (fun x => Sane B spent v.tOut inp.nowMs x.st) P := by
  have hd : Sane B spent v.tOut inp.nowMs (w.put { w.st with mode := .degraded }).st := by
    refine ⟨h.clocks, ?_⟩
    rcases h.timed with hm | hm | hl
    · simp [hm, Mode.on] at ho
    · simp [hm, Mode.on] at ho
    · exact .inr (.inr hl)
  exact .ite (fun _ => hd.sendLevel hf.now.1 _ _) fun _ => hd

theorem referenceRule_keeps (h : Sane B spent v.tOut inp.nowMs w.st) (ho : w.st.mode.on) :
    (referenceRule cfg inp v w).Ends (fun x => Sane B spent v.tOut inp.nowMs x.st) fun w =>
      (Sane B spent v.tOut inp.nowMs w.st ∧ w.st.mode.on) ∧ valid cfg (sensor inp w.st.active) := by
  refine .ite (fun _ => .ite (fun hb => ?_) fun _ => .ite (fun hr => ?_) fun _ => ?_) fun hv =>
    .ite (fun _ => ?_) fun _ => ⟨⟨h, ho⟩, not_not.1 hv⟩
  · exact select_sane hf h .backup hb.2
  · exact select_sane hf h .ref hr.2
  · exact degrade_keeps hf h ho
  · exact select_sane hf h _ (not_not.1 hv)

theorem referenceVals_fit (h : Sane B spent v.tOut inp.nowMs w.st) :
    AllFit (referenceVals cfg inp v w) :=
  allFit_ite (fun _ => allFit_ite (fun hb => followedVals_fit hf (hf.backup hb.2) h.clocks.ctl)
    fun _ => allFit_ite (fun hr => followedVals_fit hf (hf.ref hr.2) h.clocks.ctl)
    fun _ => allFit_nil) fun hv => allFit_ite
    (fun _ => followedVals_fit hf (sensor_known hf (not_not.1 hv)) h.clocks.ctl) fun _ => allFit_nil

theorem regulate_keeps {P : Work → Prop} (h : Sane B spent v.tOut inp.nowMs w.st) {ctl : Ctl}
    (hc : CtlOk B spent v.tOut inp.nowMs ctl) (lvl : ℤ) (why : Reason) :
    (regulate cfg inp v w lvl ctl why).Ends (fun x => Sane B spent v.tOut inp.nowMs x.st) P := by
  have hw : Sane B spent v.tOut inp.nowMs (w.put { w.st with ctl, lastCtlMs := inp.nowMs }).st :=
    h.clocks.control hf.now.1 hc rfl
  refine .ite (fun _ => .ite (fun _ => hw.sendLevel hf.now.1 _ _) fun _ => hw) fun _ =>
    .ite (fun _ => hw.stop hf.now.1 _ _) fun _ =>
      .ite (fun _ => hw.sendLevel hf.now.1 _ _) fun _ => ?_
  have hback : CtlOk B spent v.tOut inp.nowMs { ctl with lastChangeMs := w.st.ctl.lastChangeMs } :=
    { hc with change := h.clocks.ctl.change }
  exact h.clocks.control hf.now.1 hback rfl

theorem elapsed (h : Sane B spent v.tOut inp.nowMs st) (ho : st.mode.on) :
    0 ≤ inp.nowMs - st.lastCtlMs ∧ inp.nowMs - st.lastCtlMs ≤ 9223372036854775 := by
  rcases h.timed with hm | hm | hl
  · simp [hm, Mode.on] at ho
  · simp [hm, Mode.on] at ho
  · exact past_sub hf.now h.clocks.last hl

theorem controlRule_keeps {P : Work → Prop} (h : Sane B spent v.tOut inp.nowMs w.st)
    (ho : w.st.mode.on) (hv : valid cfg (sensor inp w.st.active)) :
    (controlRule cfg inp v w).Ends (fun x => Sane B spent v.tOut inp.nowMs x.st) P :=
  .ite (fun _ => h) fun _ => regulate_keeps hf h
    (control_ok _ hf (sensor_known hf hv).2 h.clocks.ctl (elapsed hf h ho).1) _ _

theorem lawVals_fit (h : Sane B spent v.tOut inp.nowMs w.st) (ho : w.st.mode.on)
    (hv : valid cfg (sensor inp w.st.active)) : AllFit (lawVals cfg inp v w) := by
  have hd := elapsed hf h ho
  have hk := sensor_known hf hv
  refine allFit_ite (fun _ => allFit_nil) fun _ =>
    allFit_cons.2 ⟨?_, allFit_ite (fun _ => allFit_nil) fun _ =>
      control_fit hf hk.1 hk.2 h.clocks.ctl hd.1 hf.level⟩
  simp only [fits_i64]
  omega

omit hf in
theorem thenVals_fit {R : Exit → Prop} {Q : Work → Prop} {here : List Val} {m : Flow Exit Work}
    {next : Work → List Val} (hh : AllFit here) (hm : m.Ends R Q)
    (hn : ∀ w, Q w → AllFit (next w)) : AllFit (thenVals here m next) := by
  refine allFit_append.2 ⟨hh, ?_⟩
  cases m with
  | next w => exact hn w hm
  | done x => exact allFit_nil
  | raise => exact allFit_nil

theorem ruleVals_fit (h : Sane B spent v.tOut inp.nowMs w.st)
    (hc : v.hs = .continuous → v.hasSnap) : AllFit (ruleVals cfg inp v w) :=
  thenVals_fit (pendingVals_fit hf h) (pendingRule_keeps hf h) fun _ h₁ =>
  thenVals_fit (waitingVals_fit hf h₁ hc) (waitingRule_keeps hf h₁) fun _ h₂ =>
  thenVals_fit (requestVals_fit hf h₂) (requestRule_keeps hf h₂) fun _ h₃ =>
  thenVals_fit allFit_nil (stoppingRule_keeps hf h₃) fun _ h₄ =>
  thenVals_fit allFit_nil (faultRule_keeps hf h₄.1 h₄.2) fun _ h₅ =>
  thenVals_fit allFit_nil (foreignRule_keeps h₅.1 h₅.2) fun _ h₆ =>
  thenVals_fit (batteryVals_fit hf h₆.1) (batteryRule_keeps hf h₆.1 h₆.2) fun _ h₇ =>
  thenVals_fit allFit_nil (endedRule_keeps h₇.1 h₇.2) fun _ h₈ =>
  thenVals_fit (referenceVals_fit hf h₈.1) (referenceRule_keeps hf h₈.1 h₈.2) fun _ h₉ =>
  lawVals_fit hf h₉.1.1 h₉.1.2 h₉.2

theorem rules_keep {P : Work → Prop} (h : Sane B spent v.tOut inp.nowMs w.st) :
    (rules cfg inp v w).Ends (fun x => Sane B spent v.tOut inp.nowMs x.st) P :=
  (pendingRule_keeps hf h).bind fun _ h₁ => (waitingRule_keeps hf h₁).bind fun _ h₂ =>
  (requestRule_keeps hf h₂).bind fun _ h₃ => (stoppingRule_keeps hf h₃).bind fun _ h₄ =>
  (faultRule_keeps hf h₄.1 h₄.2).bind fun _ h₅ => (foreignRule_keeps h₅.1 h₅.2).bind fun _ h₆ =>
  (batteryRule_keeps hf h₆.1 h₆.2).bind fun _ h₇ => (endedRule_keeps h₇.1 h₇.2).bind fun _ h₈ =>
  (referenceRule_keeps hf h₈.1 h₈.2).bind fun _ h₉ => controlRule_keeps hf h₉.1.1 h₉.1.2 h₉.2

omit hf in
theorem Sane.settle {tOut : ℤ} (h : Sane B spent tOut now st) :
    Sane B spent tOut now st.settle := by
  refine ⟨{ h.clocks with cont := ?_, wait := ?_ }, h.timed⟩
  · simp only [State.clocks, State.settle]
    split_ifs
    · exact h.clocks.cont
    · exact .inl rfl
  · simp only [State.clocks, State.settle]
    split_ifs
    · exact h.clocks.wait
    · exact .inl rfl

theorem statusVals_fit {tOut : ℤ} (h : Sane B spent tOut inp.nowMs st) :
    AllFit (statusVals inp st) := by
  refine allFit_ite (fun _ => allFit_nil) fun hne => ?_
  have hw := h.clocks.wait.resolve_left hne
  have hn := hf.now
  simp only [State.clocks] at hw
  refine allFit_cons.2 ⟨?_, allFit_ite (fun _ => allFit_nil) fun hl => ?_⟩
  · simp only [fits_i64]
    omega
  · simp only [waitLeft, if_neg hl, allFit_cons, fits_i64, fits_i32, allFit_nil, and_true,
      Int.tdiv_eq_ediv_of_nonneg (show 0 ≤ st.waitUntilMs - inp.nowMs + 999 by omega)]
    omega

omit hf in
theorem step_fit (hf : Fair B spent cfg inp (view cfg inp))
    (hc : (view cfg inp).hs = .continuous → (view cfg inp).hasSnap)
    (h : Sane B spent (view cfg inp).tOut inp.nowMs st) {o : Out}
    (hs : step cfg inp st = some (o, st')) :
    AllFit (stepVals cfg inp st) ∧ Sane B spent (view cfg inp).tOut inp.nowMs st' := by
  obtain ⟨x, hx, hx'⟩ := Option.map_eq_some_iff.1 hs
  obtain ⟨rfl, rfl⟩ := Prod.mk.inj hx'
  have hr := (rules_keep (w := ⟨st, [], none⟩) (P := fun _ => False) hf h).bind
    (f := fun w => (.done ⟨w.st, w.cmds, w.reason⟩ : Flow Exit Exit))
    (P := fun x => Sane B spent (view cfg inp).tOut inp.nowMs x.st) fun _ hf => hf.elim
  have hx : Sane B spent (view cfg inp).tOut inp.nowMs x.st.settle := (hr.result hx).settle
  refine ⟨allFit_append.2 ⟨ruleVals_fit (w := ⟨st, [], none⟩) hf h hc, ?_⟩, hx⟩
  rw [hs]
  exact statusVals_fit hf hx

end OpenCalifornia.Thermostat.Firmware
