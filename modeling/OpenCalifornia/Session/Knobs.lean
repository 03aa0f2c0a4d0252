import OpenCalifornia.Session.Step

/-! # The settings of the session

The mode, the interval of the reads at rest and the time of a warm-up. What happens to the link
leaves them alone. -/

namespace OpenCalifornia.Session

structure Knobs where
  mode : Mode
  restPollMs : ℕ
  warmMs : ℕ
  deriving DecidableEq

def State.knobs (s : State) : Knobs := ⟨s.mode, s.restPollMs, s.warmMs⟩

variable {s : State} {e : Env}

theorem linkClear_knobs : s.linkClear.knobs = s.knobs := by
  unfold State.linkClear
  by_cases h : s.link = .up <;> simp [h, State.knobs, State.act]

theorem restSet_knobs (on : Bool) : (s.restSet on).knobs = s.knobs := by
  unfold State.restSet
  cases on <;> simp only [Bool.false_eq_true, if_false, if_true] <;> split_ifs <;> rfl

theorem probeEnd_knobs (ok : Bool) : (s.probeEnd e ok).knobs = s.knobs := by
  have hrest : ∀ s : State, (if ok ∧ ¬ s.restConditions e then s.restSet false else s).knobs =
      s.knobs := by
    intro s
    split_ifs
    · exact restSet_knobs false
    · rfl
  have hdrop : ∀ s : State, (if ok ∧ (s.rest ∨ s.mode = .off) ∧ s.link ≠ .down then
      (s.act .disconnect).linkClear else s).knobs = s.knobs := by
    intro s
    split_ifs
    · exact linkClear_knobs
    · rfl
  unfold State.probeEnd
  dsimp only
  rw [hdrop]
  split_ifs
  · exact restSet_knobs false
  · rfl
  · rfl

theorem scheduleReconnect_knobs : (s.scheduleReconnect e).knobs = s.knobs := by
  unfold State.scheduleReconnect
  split_ifs <;> rfl

theorem restAgain_knobs : (s.restAgain e).2.knobs = s.knobs := by
  unfold State.restAgain
  split_ifs
  · rfl
  · exact restSet_knobs true

theorem connectNow_knobs : (s.connectNow e).knobs = s.knobs := by
  unfold State.connectNow
  dsimp only
  split_ifs
  · rfl
  · rw [scheduleReconnect_knobs, restAgain_knobs, probeEnd_knobs]
    rfl
  · rw [scheduleReconnect_knobs, restAgain_knobs]
    rfl

theorem setMode_knobs (mode : Mode) : (s.setMode e mode).knobs = { s.knobs with mode } := by
  have hdrop : ∀ (c : Prop) [Decidable c] (t : State),
      (if c then (t.act .disconnect).linkClear else t).knobs = t.knobs := by
    intro c _ t
    split_ifs
    · exact linkClear_knobs
    · rfl
  have hdial : ∀ (c : Prop) [Decidable c] (t : State),
      (if c then ({ t with backoff := backoffMinMs } : State).connectNow e else t).knobs =
        t.knobs := by
    intro c _ t
    split_ifs
    · exact connectNow_knobs
    · rfl
  unfold State.setMode
  by_cases h : mode = s.mode
  · rw [if_pos h, h]
    rfl
  rw [if_neg h]
  by_cases hactive : s.active = true
  · cases mode with
    | hold => exact (congrArg State.knobs (if_neg (not_not.mpr hactive))).trans (hdial _ _)
    | quiet => exact (congrArg State.knobs (if_neg (not_not.mpr hactive))).trans (hdial _ _)
    | off => exact (congrArg State.knobs (if_neg (not_not.mpr hactive))).trans (hdrop _ _)
  · exact congrArg State.knobs (if_pos hactive)

theorem startProbe_knobs : (s.startProbe e).knobs = s.knobs := by
  unfold State.startProbe
  dsimp only
  split_ifs
  · rfl
  · rw [connectNow_knobs]
    rfl
  · rfl
  · rfl

theorem reconnectSoon_knobs : (s.reconnectSoon e).knobs = s.knobs := by
  have hsoon : ∀ (s : State), (if s.active ∧ s.link = .down ∧ s.reconnectPending then
      { s with
        reconnectAt :=
          if s.wasUp ∧ s.now < s.downAt + unitCooldownMs then s.downAt + unitCooldownMs
          else s.now } else s).knobs = s.knobs := by
    intro s
    split_ifs <;> rfl
  unfold State.reconnectSoon
  dsimp only
  rw [hsoon]
  split_ifs
  · rw [scheduleReconnect_knobs]
    exact restSet_knobs false
  · exact restSet_knobs false
  · rfl

theorem wake_knobs : (s.wake e).knobs = { s.knobs with mode := .hold } := by
  unfold State.wake
  dsimp only
  rw [reconnectSoon_knobs]
  by_cases h : s.mode = .hold
  · rw [if_neg (not_not.mpr h), ← h]
    rfl
  · rw [if_pos h, setMode_knobs]
    rfl

theorem viewer_knobs (now : ℕ) : (s.viewer e now).knobs = s.knobs := by
  unfold State.viewer
  dsimp only
  split_ifs
  · exact reconnectSoon_knobs
  · rfl

theorem input_knobs (now : ℕ) : (s.input e now).knobs = s.knobs := viewer_knobs now

theorem setRestPoll_knobs (min : ℕ) :
    (s.setRestPoll min).knobs = { s.knobs with restPollMs := min * 60000 } := rfl

end OpenCalifornia.Session
