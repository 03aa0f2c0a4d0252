import OpenCalifornia.Thermostat.Step

/-! # What the pending command can do to a step

Rule (1) is the longest of the cascade. `Core` is the part of the session invariant that the
rules keep while a step runs, and `Pended` lists every way rule (1) can end on such a state,
with the guards of the source; the later proofs argue by cases on it. -/

namespace OpenCalifornia.Thermostat
open Lib (Flow)

/-- What the modes AUTO and DEGRADED rest on. -/
def Regulated (st : State) : Prop :=
  ∃ e, st.expect = some e ∧ st.lastCtlMs.isSome ∧
    ∀ p ∈ st.pending, p.isStart ∨ (p.what = .level ∧ p.value = .ofLevel e.level)

def Core (st : State) : Prop :=
  match st.mode with
  | .off => ∀ p ∈ st.pending, p.value = .off ∧ p.why.isSome ∧ st.expect.isSome
  | .auto | .degraded => Regulated st
  | .stopping => st.pending = none ∧ ∃ s ∈ st.stopSnapshot, s.heating
  | .waiting => st.expect.isSome ∧ st.waitUntilMs.isSome ∧ ∀ p ∈ st.pending, p.what = .level

variable {cfg : Cfg} {inp : Input} {v : View} {st : State} {p : Pending} {e : Snap}

theorem Pending.isStart_iff : p.isStart = true ↔ p.what = .power ∧ p.value = .on := by
  simp [Pending.isStart]

theorem Mode.on_iff {m : Mode} : m.on = true ↔ m = .auto ∨ m = .degraded := by
  cases m <;> simp [Mode.on]

theorem Core.regulated (h : Core st) (hon : st.mode.on) : Regulated st := by
  rcases Mode.on_iff.mp hon with hm | hm <;> simpa only [Core, hm] using h

theorem Regulated.core (h : Regulated st) (hon : st.mode.on) : Core st := by
  rcases Mode.on_iff.mp hon with hm | hm <;> simpa only [Core, hm] using h

theorem Value.ofLevel_ne_off (l : Option ℤ) : Value.ofLevel l ≠ .off := by
  cases l <;> simp [Value.ofLevel]

theorem Regulated.not_off (h : Regulated st) (hp : st.pending = some p) :
    p.isStart ∨ (p.what = .level ∧ p.value ≠ .off) := by
  obtain ⟨e, _, _, hq⟩ := h
  refine (hq p hp).imp_right ?_
  rintro ⟨h₁, h₂⟩
  exact ⟨h₁, h₂ ▸ Value.ofLevel_ne_off _⟩

/-- A command is pending in OFF or while on, and then an expected state is there. -/
theorem Core.expect_of_pending (h : Core st) (hp : st.pending = some p) :
    ∃ e, st.expect = some e := by
  rcases hm : st.mode with _ | _ | _ | _ | _ <;> simp only [Core, hm, hp] at h
  · exact Option.isSome_iff_exists.mp (h p rfl).2.2
  · exact ⟨_, h.choose_spec.1⟩
  · exact ⟨_, h.choose_spec.1⟩
  · cases h.1
  · exact Option.isSome_iff_exists.mp h.1

theorem Core.off_of_pending (h : Core st) (hp : st.pending = some p) (hw : st.mode ≠ .waiting) :
    st.mode = .off ∧ p.value = .off ∨
      st.mode.on ∧ (p.isStart ∨ (p.what = .level ∧ p.value ≠ .off)) := by
  rcases hm : st.mode with _ | _ | _ | _ | _ <;> simp only [Core, hm, hp] at h
  · exact Or.inl ⟨rfl, (h p rfl).1⟩
  · exact Or.inr ⟨rfl, h.not_off hp⟩
  · exact Or.inr ⟨rfl, h.not_off hp⟩
  · cases h.1
  · exact absurd hm hw

/-- `moved`, once the expected state is there. -/
def movedBy (inp : Input) (v : View) (p : Pending) (e : Snap) : Bool :=
  p.what = .level ∧ ¬ v.hs.faulty ∧ (post inp v p).any fun snap =>
    (v.level ≠ none ∧ .ofLevel v.level ≠ p.value ∧ v.level ≠ p.before) ∨
      snap.normal ≠ e.normal ∨ snap.permanent ≠ e.permanent

theorem moved_eq : moved inp v p (some e) = .next (movedBy inp v p e) := by
  rcases hp : post inp v p with _ | snap
  · simp [moved, movedBy, hp]
  · by_cases hl : p.what = .level
    · by_cases hf : v.hs.faulty = true
      · simp [moved, movedBy, hp, hf]
      · by_cases hv : v.level ≠ none ∧ .ofLevel v.level ≠ p.value ∧ v.level ≠ p.before
        · simp [moved, movedBy, hp, hl, hf, hv]
        · simp only [moved, movedBy, hp, hl, hf, hv]
          simp
    · simp [moved, movedBy, hp, hl]

def resendCmds (inp : Input) (p : Pending) (e : Snap) (full : Bool) : List Cmd :=
  if full ∧ p.isStart then
    [⟨.runtime, .num inp.runtimeMin⟩, ⟨.level, .ofLevel e.level⟩, .powerOn]
  else [⟨p.what, p.value⟩]

theorem resend_eq (full : Bool) :
    resend inp p (some e) full = .next (resendCmds inp p e full) := by
  simp only [resend, resendCmds]
  split_ifs <;> rfl

/-- The previous batch was answered busy or not ready. -/
def Input.busy (inp : Input) : Bool :=
  inp.cmd.map Attempt.result = some .busy ∨ inp.cmd.map Attempt.result = some .notReady

/-- Every end of rule (1) on a state of the session. -/
inductive Pended (cfg : Cfg) (inp : Input) (v : View) (st : State) : Flow Exit Work → Prop
  | idle (hp : st.pending = none) : Pended cfg inp v st (.next ⟨st, [], none⟩)
  | preset (hm : st.mode = .waiting) (q : Option Pending) (hq : q = none ∨ q = st.pending) :
      Pended cfg inp v st (.next ⟨{ st with pending := q }, [], none⟩)
  | moved {p : Pending} {e : Snap} (hm : st.mode ≠ .waiting) (hp : st.pending = some p)
      (he : st.expect = some e) (h : movedBy inp v p e) (why : Reason)
      (hw : why = .foreignChange ∨ why = .runEnded ∨ why = .continuousEnded) :
      Pended cfg inp v st (.done ⟨st.finish, [], some why⟩)
  | landed {p : Pending} {snap : Snap} (hm : st.mode ≠ .waiting) (hp : st.pending = some p)
      (hs : post inp v p = some snap) (ha : applied p snap) :
      Pended cfg inp v st (.next ⟨{ st with pending := none, expect := some snap }, [], none⟩)
  | keep {p : Pending} {e : Snap} (hm : st.mode ≠ .waiting) (hp : st.pending = some p)
      (he : st.expect = some e) (h : movedBy inp v p e = false)
      (hk : v.hs.faulty ∨ (p.what = .level ∧ ownerOff inp st.mode) ∨
        ¬ (inp.linkReady ∧ inp.nowMs - p.sinceMs ≥ cfg.verifyMs ∧ (post inp v p).isSome)) :
      Pended cfg inp v st (.next ⟨st, [], none⟩)
  | failed {p : Pending} (hm : st.mode ≠ .waiting) (hp : st.pending = some p)
      (ho : ¬ (p.what = .level ∧ ownerOff inp st.mode))
      (hf : inp.cmd.map Attempt.result = some .refused ∨ p.tries ≥ 2 ∨
        (p.isStart ∧ ¬ startRetryOk cfg inp p)) :
      Pended cfg inp v st (.done ⟨dropPending p st, [], some (failReason p)⟩)
  | dropped {p : Pending} (hm : st.mode ≠ .waiting) (hp : st.pending = some p)
      (hv : p.value = .off) :
      Pended cfg inp v st (.done ⟨{ st with pending := none }, [], some .stopDropped⟩)
  | busy {p : Pending} {e : Snap} (hm : st.mode ≠ .waiting) (hp : st.pending = some p)
      (he : st.expect = some e) (hb : inp.busy) (hl : inp.linkReady)
      (ho : p.isStart → startRetryOk cfg inp p) :
      Pended cfg inp v st (.next (resent ⟨st, [], none⟩ { p with sinceMs := inp.nowMs }
        (resendCmds inp p e (inp.cmd.map Attempt.what ≠ some .power))))
  | retry {p : Pending} {e snap : Snap} (hm : st.mode ≠ .waiting) (hp : st.pending = some p)
      (he : st.expect = some e) (hs : post inp v p = some snap) (ha : applied p snap = false)
      (hf : v.hs.faulty = false) (hr : inp.cmd.map Attempt.result ≠ some .refused)
      (hb : inp.busy = false) (hl : inp.linkReady)
      (hv : inp.nowMs - p.sinceMs ≥ cfg.verifyMs) (ht : p.tries < 2)
      (ho : p.isStart → startRetryOk cfg inp p) :
      Pended cfg inp v st (.next (resent ⟨st, [], none⟩
        { p with sinceMs := inp.nowMs, tries := 2 } [⟨p.what, p.value⟩]))

theorem post_eq_some {snap : Snap} (h : post inp v p = some snap) :
    v.snap = some snap ∧ readSince inp p.sinceMs := by
  simpa [post, Option.filter_eq_some_iff] using h

theorem movedExit_cases (hm : st.mode ≠ .waiting) (hp : st.pending = some p)
    (he : st.expect = some e) (h : movedBy inp v p e) :
    Pended cfg inp v st (movedExit v ⟨st, [], none⟩) := by
  simp only [movedExit, he]
  split_ifs
  · refine .moved hm hp he h _ ?_
    cases e.permanent <;> simp [endedReason]
  · exact .moved hm hp he h _ (Or.inl rfl)

theorem unconfirmed_cases {snap : Snap} (hm : st.mode ≠ .waiting) (hp : st.pending = some p)
    (he : st.expect = some e) (hn : movedBy inp v p e = false) (hs : post inp v p = some snap)
    (ha : applied p snap = false) (hf : v.hs.faulty = false)
    (hr : inp.cmd.map Attempt.result ≠ some .refused) (hb : inp.busy = false)
    (hl : inp.linkReady) (hv : inp.nowMs - p.sinceMs ≥ cfg.verifyMs) :
    Pended cfg inp v st (unconfirmed cfg inp p snap ⟨st, [], none⟩) := by
  have hd : ∀ b : Bool, (b = true → p.value = .off) →
      Pended cfg inp v st (if b then (Work.put ⟨st, [], none⟩ { st with pending := none }).ret
          .stopDropped
        else if p.tries ≥ 2 ∨ (p.isStart ∧ ¬ startRetryOk cfg inp p) then
          if p.what = .level ∧ ownerOff inp st.mode then pure ⟨st, [], none⟩
          else (Work.put ⟨st, [], none⟩ (dropPending p st)).ret (failReason p)
        else do
          let cmds ← resend inp p st.expect false
          pure (resent ⟨st, [], none⟩ { p with sinceMs := inp.nowMs, tries := 2 } cmds)) := by
    intro b hoff
    split_ifs with h₁ h₂ h₃
    · exact .dropped hm hp (hoff h₁)
    · exact .keep hm hp he hn (Or.inr (Or.inl h₃))
    · exact .failed hm hp h₃ (Or.inr h₂)
    · rw [he, resend_eq]
      simp only [not_or, not_and, not_not] at h₂
      have hr' := Pended.retry hm hp he hs ha hf hr hb hl hv (by omega) h₂.2
      simpa [resendCmds] using hr'
  by_cases ho : p.value = .off
  · simpa [unconfirmed, overtaken, ho, he] using hd (!same snap e) fun _ => ho
  · simpa [unconfirmed, overtaken, ho] using hd false fun h => absurd h (by simp)

theorem answer_cases (hm : st.mode ≠ .waiting) (hp : st.pending = some p)
    (he : st.expect = some e) (hn : movedBy inp v p e = false) :
    Pended cfg inp v st (answer cfg inp v p ⟨st, [], none⟩) := by
  simp only [answer]
  split_ifs with h₁ h₂ h₃ h₄ h₅ h₆
  · obtain ⟨snap, hs, ha⟩ := (Option.any_eq_true _ _).mp h₁
    rw [(post_eq_some hs).1]
    exact .landed hm hp hs ha
  · exact .keep hm hp he hn (Or.inl h₂)
  · exact .keep hm hp he hn (Or.inr (Or.inl ⟨h₃.1, h₃.2.2⟩))
  · exact .failed hm hp (fun ho => h₃ ⟨ho.1, h₄, ho.2⟩) (Or.inl h₄)
  · have hs := Pending.isStart_iff.mp h₆.1
    have hd : dropPending p st = st.finish := by simp [dropPending, hs.2]
    rw [← hd]
    exact .failed hm hp (fun ho => by simp [hs.1] at ho) (Or.inr (Or.inr h₆))
  · simp only [he, resend_eq]
    refine .busy hm hp he (by simpa [Input.busy] using h₅.1) h₅.2 fun hs => ?_
    simpa [hs] using h₆
  · have hb : inp.linkReady = true → inp.busy = false := by
      intro hl
      simpa [Input.busy, hl] using h₅
    rcases hs : post inp v p with _ | snap
    · simp only [verify, hs]
      exact .keep hm hp he hn (Or.inr (Or.inr (by simp [hs])))
    · simp only [verify, hs]
      split_ifs with h₆
      · refine unconfirmed_cases hm hp he hn hs ?_ (by simpa using h₂) h₄ (hb h₆.1) h₆.1 h₆.2
        simpa [hs] using h₁
      · exact .keep hm hp he hn (Or.inr (Or.inr fun h => h₆ ⟨h.1, h.2.1⟩))

theorem pendingRule_cases (cfg : Cfg) (inp : Input) (v : View) (hc : Core st) :
    Pended cfg inp v st (pendingRule cfg inp v ⟨st, [], none⟩) := by
  rcases hp : st.pending with _ | p
  · simp only [pendingRule, hp]
    exact .idle hp
  · by_cases hm : st.mode = .waiting
    · simp only [pendingRule, hp, if_pos hm]
      split_ifs
      · exact .preset hm none (Or.inl rfl)
      · exact .preset hm st.pending (Or.inr rfl)
    · obtain ⟨e, he⟩ := hc.expect_of_pending hp
      simp only [pendingRule, hp, hm, if_false, he, moved_eq, Flow.next_bind]
      split_ifs with h
      · exact movedExit_cases hm hp he h
      · exact answer_cases hm hp he (by simpa using h)

end OpenCalifornia.Thermostat
