import Mathlib
import OpenCalifornia.Thermostat.Runner
import OpenCalifornia.Thermostat.Twin

/-! # The batches of the thermostat's commands

What may happen next is a question about what happened so far. The functions of a log, the newest
act first, answer it. -/

namespace OpenCalifornia.Thermostat.Runner
open Lib.Machine

/-- The latest request that no step has been handed. -/
def latest : List Act → Option Request
  | [] | .step _ _ _ :: _ => none
  | .request r :: _ => some r
  | _ :: log => latest log

/-- The latest result that no step has seen. -/
def lastResult : List Act → Option Attempt
  | [] | .step _ _ _ :: _ => none
  | .result c rc :: _ => some ⟨c.what, rc.name⟩
  | _ :: log => lastResult log

/-- The switch of the feature, from its value at the boot. -/
def switchedOn (boot : Bool) : List Act → Bool
  | [] => boot
  | .switch on :: _ => on
  | _ :: log => switchedOn boot log

/-- The switch when the last step ran. -/
def onAtStep (boot : Bool) : List Act → Bool
  | [] => false
  | .step _ _ _ :: log => switchedOn boot log
  | _ :: log => onAtStep boot log

/-- The commands of the last step. -/
def batch : List Act → List Firmware.Cmd
  | [] => []
  | .step _ _ cmds :: _ => cmds
  | _ :: log => batch log

/-- The commands that were submitted since the last step. -/
def submits : List Act → List Firmware.Cmd
  | [] | .step _ _ _ :: _ => []
  | .submit c :: log => submits log ++ [c]
  | _ :: log => submits log

/-- The commands that were answered since the last step. -/
def results : List Act → List (Firmware.Cmd × Rc)
  | [] | .step _ _ _ :: _ => []
  | .result c rc :: log => results log ++ [(c, rc)]
  | _ :: log => results log

/-- The owner asked for OFF, or the feature that was on when the batch began is off. -/
def Withheld (boot : Bool) (log : List Act) : Prop :=
  latest log = some .off ∨ onAtStep boot log = true ∧ switchedOn boot log = false

/-- A command is out, or a command of the batch follows. -/
def GoingOut (boot : Bool) : List Act → Prop
  | [] => False
  | .step _ _ cmds :: _ => cmds ≠ []
  | .submit _ :: _ => True
  | .result _ rc :: log => rc = .ok ∧ submits log ≠ batch log ∧ ¬ Withheld boot log
  | _ :: log => GoingOut boot log

/-- What the acts so far allow. -/
def Allowed (boot : Bool) (log : List Act) : Act → Prop
  | .step request cmd _ => ¬ GoingOut boot log ∧ request = latest log ∧ cmd = lastResult log
  | .submit c =>
    (∃ later, batch log = submits log ++ c :: later) ∧ (results log).map Prod.fst = submits log ∧
      (∀ r ∈ results log, r.2 = .ok) ∧ (submits log ≠ [] → ¬ Withheld boot log)
  | .result c _ => submits log = (results log).map Prod.fst ++ [c]
  | _ => True

/-- Every act was allowed when it came. -/
def Sound (boot : Bool) : List Act → Prop
  | [] => True
  | a :: log => Sound boot log ∧ Allowed boot log a

variable {boot : Bool} {w w' : State} {e : Env}

/-- The runner keeps what the log says. -/
structure Follows (boot : Bool) (w : State) : Prop where
  on : w.on = switchedOn boot w.log
  req : w.req = latest w.log
  cmd : w.cmd = lastResult w.log
  batchOn : w.batchOn = onAtStep boot w.log
  sound : Sound boot w.log

/-- The commands `rest` are to be submitted now. -/
structure Ready (boot : Bool) (w : State) (rest : List Firmware.Cmd) : Prop
    extends Follows boot w where
  left : batch w.log = submits w.log ++ rest
  answered : (results w.log).map Prod.fst = submits w.log
  ok : ∀ r ∈ results w.log, r.2 = .ok
  wanted : submits w.log ≠ [] → ¬ Withheld boot w.log

/-- The command `c` is out, the commands `rest` follow. -/
structure Out (boot : Bool) (w : State) (c : Firmware.Cmd) (rest : List Firmware.Cmd) : Prop
    extends Follows boot w where
  left : batch w.log = submits w.log ++ rest
  sent : submits w.log = (results w.log).map Prod.fst ++ [c]
  ok : ∀ r ∈ results w.log, r.2 = .ok
  going : GoingOut boot w.log

/-- Between two calls of the runner: nothing goes out, or one command is with the sequencer. -/
structure Between (boot : Bool) (w : State) : Prop extends Follows boot w where
  idle : w.rest = [] → w.wait = false ∧ w.pending = false ∧ ¬ GoingOut boot w.log
  out : ∀ c rest, w.rest = c :: rest → w.wait = true ∧ w.pending = true ∧ Out boot w c rest

theorem Follows.wanted_iff (h : Follows boot w) : w.wanted ↔ ¬ Withheld boot w.log := by
  unfold State.wanted Withheld
  rw [h.on, h.req, h.batchOn]
  constructor
  · rintro ⟨hoff, hreq⟩ (hlate | hswitch)
    · exact hreq hlate
    · exact hoff hswitch
  · intro hnot
    exact ⟨fun hswitch => hnot (.inr hswitch), fun hlate => hnot (.inl hlate)⟩

theorem Ready.submit {c : Firmware.Cmd} {rest : List Firmware.Cmd} (h : Ready boot w (c :: rest)) :
    Out boot { w.act (.submit c) with wait := true, rest := c :: rest } c rest where
  on := h.on
  req := h.req
  cmd := h.cmd
  batchOn := h.batchOn
  sound := ⟨h.sound, ⟨rest, h.left⟩, h.answered, h.ok, h.wanted⟩
  left := h.left.trans (List.append_cons _ _ _)
  sent := congrArg (· ++ [c]) h.answered.symm
  ok := h.ok
  going := trivial

/-- The command that is out is answered: the next one goes out, or the batch is over. -/
theorem Out.ended {c : Firmware.Cmd} {rest : List Firmware.Cmd} (h : Out boot w c rest) (rc : Rc) :
    (rc = .ok ∧ rest ≠ [] ∧ (w.ended c rc).wanted → Ready boot (w.ended c rc) rest) ∧
    (¬ (rc = .ok ∧ rest ≠ [] ∧ (w.ended c rc).wanted) →
      Between boot ((w.ended c rc).stopBatch rc)) := by
  have hfollows : Follows boot (w.ended c rc) :=
    ⟨h.on, h.req, rfl, h.batchOn, h.sound, h.sent⟩
  have hwanted : (w.ended c rc).wanted ↔ ¬ Withheld boot w.log := hfollows.wanted_iff
  constructor
  · rintro ⟨rfl, -, hgo⟩
    refine { hfollows with
      left := h.left
      answered := ?_
      ok := ?_
      wanted := fun _ => hwanted.mp hgo }
    · show (results w.log ++ [(c, _)]).map Prod.fst = submits w.log
      rw [List.map_append, h.sent]
      rfl
    · intro r hr
      cases List.mem_append.mp hr with
      | inl hr => exact h.ok r hr
      | inr hr => exact List.mem_singleton.mp hr ▸ rfl
  · intro hstop
    refine ⟨⟨h.on, h.req, rfl, h.batchOn, h.sound, h.sent⟩, fun _ => ⟨rfl, rfl, ?_⟩,
      (by rintro _ _ ⟨⟩)⟩
    rintro ⟨hok, hmore, hnot⟩
    refine hstop ⟨hok, ?_, hwanted.mpr hnot⟩
    rintro rfl
    exact hmore (h.left.trans (List.append_nil _)).symm

theorem State.submitNext_nil {rest : List Firmware.Cmd} (h : rest = []) :
    w.submitNext e rest = w := by
  subst h
  rfl

theorem Ready.submitNext {rest : List Firmware.Cmd} (h : Ready boot w rest) (hrest : rest ≠ []) :
    Between boot (w.submitNext e rest) := by
  induction rest generalizing w with
  | nil => exact absurd rfl hrest
  | cons c rest ih =>
    have hout := h.submit
    unfold State.submitNext
    dsimp only
    cases e.answer rest.length with
    | none =>
      refine ⟨⟨hout.on, hout.req, hout.cmd, hout.batchOn, hout.sound⟩, (by rintro ⟨⟩),
        fun c' rest' he => ?_⟩
      cases he
      exact ⟨rfl, rfl, ⟨hout.on, hout.req, hout.cmd, hout.batchOn, hout.sound⟩, hout.left,
        hout.sent, hout.ok, hout.going⟩
    | some rc =>
      dsimp only
      split_ifs with hgo
      · exact ih ((hout.ended rc).1 hgo) hgo.2.1
      · exact (hout.ended rc).2 hgo

theorem Between.cmdDone (h : Between boot w) (rc : Rc) : Between boot (w.cmdDone e rc) := by
  unfold State.cmdDone
  split
  · exact h
  · next c rest hrest =>
    obtain ⟨-, -, hout⟩ := h.out c rest hrest
    dsimp only
    split_ifs with hgo
    · exact ((hout.ended rc).1 hgo).submitNext hgo.2.1
    · exact (hout.ended rc).2 hgo

/-- The log says the same about the batch. -/
structure SameBatch (boot : Bool) (log log' : List Act) : Prop where
  batch : batch log' = batch log
  submits : submits log' = submits log
  results : results log' = results log
  going : GoingOut boot log' = GoingOut boot log

theorem Between.congr (h : Between boot w) (hfollows : Follows boot w') (hrest : w'.rest = w.rest)
    (hwait : w'.wait = w.wait) (hpending : w'.pending = w.pending)
    (hsame : SameBatch boot w.log w'.log) : Between boot w' := by
  refine ⟨hfollows, fun hnone => ?_, fun c rest hc => ?_⟩
  · rw [hwait, hpending, hsame.going]
    exact h.idle (hrest.symm.trans hnone)
  · obtain ⟨hw, hp, hout⟩ := h.out c rest (hrest.symm.trans hc)
    refine ⟨hwait.trans hw, hpending.trans hp, { hfollows with
      left := ?_, sent := ?_, ok := ?_, going := hsame.going ▸ hout.going }⟩
    · rw [hsame.batch, hsame.submits]
      exact hout.left
    · rw [hsame.submits, hsame.results]
      exact hout.sent
    · rw [hsame.results]
      exact hout.ok

theorem Between.of_eq (h : Between boot w) (hon : w'.on = w.on) (hreq : w'.req = w.req)
    (hcmd : w'.cmd = w.cmd) (hbatch : w'.batchOn = w.batchOn) (hrest : w'.rest = w.rest)
    (hwait : w'.wait = w.wait) (hpending : w'.pending = w.pending) (hlog : w'.log = w.log) :
    Between boot w' := by
  refine h.congr ⟨?_, ?_, ?_, ?_, ?_⟩ hrest hwait hpending ?_
  · rw [hon, hlog]
    exact h.on
  · rw [hreq, hlog]
    exact h.req
  · rw [hcmd, hlog]
    exact h.cmd
  · rw [hbatch, hlog]
    exact h.batchOn
  · rw [hlog]
    exact h.sound
  · rw [hlog]
    exact ⟨rfl, rfl, rfl, rfl⟩

theorem Between.hold (h : Between boot w) (on : Bool) : Between boot (w.act (.hold on)) :=
  h.congr ⟨h.on, h.req, h.cmd, h.batchOn, h.sound, trivial⟩ rfl rfl rfl ⟨rfl, rfl, rfl, rfl⟩

theorem Between.connectNow (h : Between boot w) : Between boot (w.act .connectNow) :=
  h.congr ⟨h.on, h.req, h.cmd, h.batchOn, h.sound, trivial⟩ rfl rfl rfl ⟨rfl, rfl, rfl, rfl⟩

theorem Between.request (h : Between boot w) (r : Request) : Between boot (w.request r) := by
  have hasked : Between boot { w.act (.request r) with req := some r } :=
    h.congr ⟨h.on, rfl, h.cmd, h.batchOn, h.sound, trivial⟩ rfl rfl rfl ⟨rfl, rfl, rfl, rfl⟩
  unfold State.request
  dsimp only
  split_ifs
  · exact hasked.connectNow.of_eq rfl rfl rfl rfl rfl rfl rfl rfl
  · exact hasked.of_eq rfl rfl rfl rfl rfl rfl rfl rfl

theorem Between.setEnabled (h : Between boot w) (on : Bool) : Between boot (w.setEnabled on) :=
  h.congr ⟨rfl, h.req, h.cmd, h.batchOn, h.sound, trivial⟩ rfl rfl rfl ⟨rfl, rfl, rfl, rfl⟩

theorem Between.lookHeater (h : Between boot w) : Between boot (w.lookHeater e) := by
  unfold State.lookHeater
  by_cases hseen : e.frameMs = w.heaterSeen
  · rw [if_pos hseen]
    exact h
  · rw [if_neg hseen]
    exact h.of_eq rfl rfl rfl rfl rfl rfl rfl rfl

/-- A step is handed the request and the result; its commands are to be submitted. -/
theorem Between.step (h : Between boot w) (hrest : w.rest = []) {now : ℕ}
    (hs : w.step e now = some w') : Ready boot w' w'.rest ∧ w'.wait = false ∧ w'.pending = false ∧
      (w'.rest = [] → ¬ GoingOut boot w'.log) := by
  obtain ⟨hwait, hpending, hgoing⟩ := h.idle hrest
  unfold State.step at hs
  obtain ⟨⟨out, st⟩, -, rfl⟩ := Option.map_eq_some_iff.mp hs
  have hfollows : Follows boot { (w.act (.step w.req w.cmd out.cmds)).act
      (.hold (st.mode ≠ .off ∨ st.hasPending)) with
      req := none, cmd := none, st, rest := out.cmds, batchOn := w.on } :=
    ⟨h.on, rfl, rfl, h.on, ⟨h.sound, hgoing, h.req, h.cmd⟩, trivial⟩
  refine ⟨{ hfollows with
    left := rfl, answered := rfl, ok := (by rintro _ ⟨⟩), wanted :=
      fun h => absurd rfl h }, hwait, hpending, ?_⟩
  exact fun hnone hgo => hgo hnone

theorem Between.tickStep (h : Between boot w) (hrest : w.rest = []) {now : ℕ}
    (hs : w.tickStep e now = some w') : Between boot w' := by
  unfold State.tickStep at hs
  dsimp only at hs
  split_ifs at hs
  · cases hs
    exact h.of_eq rfl rfl rfl rfl rfl rfl rfl rfl
  · obtain ⟨w₁, hw₁, rfl⟩ := Option.map_eq_some_iff.mp hs
    have hready : Between boot { w with linkWait := 0, due := false } :=
      h.of_eq rfl rfl rfl rfl rfl rfl rfl rfl
    obtain ⟨hready, hwait, hpending, hidle⟩ := hready.step hrest hw₁
    have hready' : Ready boot { w₁ with next := nextStep e w₁ now } w₁.rest :=
      { on := hready.on, req := hready.req, cmd := hready.cmd, batchOn := hready.batchOn,
        sound := hready.sound, left := hready.left, answered := hready.answered, ok := hready.ok,
        wanted := hready.wanted }
    by_cases hnone : w₁.rest = []
    · have hbetween : Between boot { w₁ with next := nextStep e w₁ now } := by
        refine ⟨hready'.toFollows, fun _ => ⟨hwait, hpending, hidle hnone⟩, fun c rest hc => ?_⟩
        cases hnone.symm.trans hc
      exact (State.submitNext_nil hnone).symm ▸ hbetween
    · exact hready'.submitNext hnone

theorem Between.tick (h : Between boot w) {now : ℕ} (hs : w.tick e now = some w') :
    Between boot w' := by
  have hlook : Between boot (w.lookHeater e) := h.lookHeater
  unfold State.tick at hs
  dsimp only at hs
  generalize w.lookHeater e = w₁ at hlook hs
  split_ifs at hs with hbusy hawaits hlater
  · cases hs
    exact hlook
  · cases hs
    exact (hlook.hold true).of_eq rfl rfl rfl rfl rfl rfl rfl rfl
  · have hwaits : Between boot (w₁.awaitLink now) :=
      (hlook.hold true).of_eq rfl rfl rfl rfl rfl rfl rfl rfl
    exact hwaits.tickStep (not_not.mp (not_or.mp hbusy).2) hs
  · exact hlook.tickStep (not_not.mp (not_or.mp hbusy).2) hs

theorem Sound.allowed {newer older : List Act} {a : Act} (h : Sound boot (newer ++ a :: older)) :
    Allowed boot older a := by
  induction newer with
  | nil => exact h.2
  | cons b newer ih => exact ih h.1

end OpenCalifornia.Thermostat.Runner
