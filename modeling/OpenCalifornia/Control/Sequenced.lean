import OpenCalifornia.Control.Agreement
import OpenCalifornia.Control.Sequencer

/-! # One command at a time

The events keep a book of the last command. The sequencer's own state says the same as the book,
apart from a loss of the link that no tick has seen yet. -/

namespace OpenCalifornia.Control.Sequencer
open Lib Lib.Text Lib.Machine Firmware

/-- The first frame of a plan waits for nothing. -/
def Begun (f : List Write) : Prop := ∃ w rest, f = w :: rest ∧ w.delayMs = 0

theorem Begun.append {p : List Write} (h : p = [] ∨ Begun p) {w : Write} (hw : w.delayMs = 0) :
    Begun (p ++ [w]) := by
  rcases h with rfl | ⟨v, rest, rfl, hv⟩
  · exact ⟨w, [], rfl, hw⟩
  · exact ⟨v, rest ++ [w], rfl, hv⟩

def Begins (b : Built) : Prop := ∀ f, b = .ok f → Begun f

theorem begins_error (rc : Rc) : Begins (.error rc) := fun _ h => by cases h

theorem begins_bind {α : Type} {e : Except Rc α} {g : α → Built}
    (h : ∀ a, e = .ok a → Begins (g a)) : Begins (e >>= g) := by
  cases e with
  | error rc => exact begins_error rc
  | ok a => exact h a rfl

theorem begins_add {p : List Write} (h : p = [] ∨ Begun p) (fn : String) (v : Vals) :
    Begins (add p fn v 0) := by
  unfold add
  split
  · split_ifs
    · exact begins_error _
    · split
      · exact begins_error _
      · intro f hf
        obtain rfl := Except.ok.inj hf
        exact Begun.append h rfl
  · exact begins_error _

theorem begins_addLight {p : List Write} (h : p = [] ∨ Begun p) (v : Vals) :
    Begins (addLight p v) := by
  refine begins_bind fun q hq => ?_
  obtain ⟨w, rest, rfl, hw⟩ := begins_add h "lighting" v q hq
  unfold addCommit
  split_ifs
  · exact begins_error _
  · intro f hf
    obtain rfl := Except.ok.inj hf
    exact ⟨w, rest ++ [_], rfl, hw⟩

theorem begins_bCooler (what : String) (value : Text) (get : Get) :
    Begins (bCooler what value get) := by
  have hadd : ∀ v, Begins (addCooler v) := fun v => begins_add (.inl rfl) _ v
  unfold bCooler
  split_ifs
  · exact begins_bind fun _ _ => hadd _
  · exact begins_bind fun _ _ => hadd _
  · exact begins_bind fun _ _ => hadd _
  · exact begins_bind fun _ _ => hadd _
  · exact hadd _
  · exact hadd _
  · exact begins_bind fun _ _ => begins_bind fun _ _ => hadd _
  · exact begins_error _

theorem begins_bCamping (what : String) (value : Text) : Begins (bCamping what value) := by
  refine begins_bind fun on _ => ?_
  split_ifs
  · exact begins_add (.inl rfl) _ _
  · exact begins_add (.inl rfl) _ _
  · exact begins_add (.inl rfl) _ _
  · exact begins_add (.inl rfl) _ _
  · exact begins_error _

theorem begins_bEnergy (what : String) (value : Text) : Begins (bEnergy what value) := by
  unfold bEnergy
  split_ifs
  · exact begins_error _
  · exact begins_bind fun _ _ => begins_add (.inl rfl) _ _

theorem begins_bAirheater (what : String) (value : Text) : Begins (bAirheater what value) := by
  have hadd : ∀ es, Begins (addAirheater es) := fun es => begins_add (.inl rfl) _ _
  unfold bAirheater
  split_ifs
  · exact begins_bind fun _ _ => hadd _
  · exact begins_bind fun _ _ => hadd _
  · exact begins_bind fun _ _ => hadd _
  · exact begins_bind fun _ _ => hadd _
  · exact hadd _
  · exact hadd _
  · exact hadd _
  · exact begins_error _
  · exact begins_error _

theorem begins_bLighting (what : String) (value : Text) (get : Get) :
    Begins (bLighting what value get) := by
  have hlight : ∀ v, Begins (addLight [] v) := begins_addLight (.inl rfl)
  unfold bLighting
  split_ifs
  · exact begins_bind fun _ _ => hlight _
  · refine begins_bind fun _ _ => begins_bind fun p hp => begins_addLight ?_ _
    unfold addPreface at hp
    split at hp
    · exact .inr (hlight _ p hp)
    · exact .inl (Except.ok.inj hp).symm
  · exact begins_bind fun _ _ => hlight _
  · exact begins_bind fun _ _ => hlight _
  · exact begins_bind fun _ _ => hlight _
  · exact begins_error _
  · exact begins_bind fun _ _ => hlight _

theorem begins_builders (fn what : String) (value : Text) (get : Get) :
    Begins (builders fn what value get) := by
  unfold builders
  split_ifs
  · exact begins_bCooler _ _ _
  · exact begins_bCamping _ _
  · exact begins_bEnergy _ _
  · exact begins_bAirheater _ _
  · exact begins_bLighting _ _ _

/-- A plan that is accepted has a first frame, and it waits for nothing. -/
def Starts (p : Plan) : Prop := p.rc = .ok → Begun p.f

theorem starts_of {b : Built} (hb : Begins b) (hf : Fails b) : Starts (Plan.of b) := by
  intro h
  cases b with
  | error rc => exact absurd (congrArg Except.error h) hf
  | ok f => exact hb f rfl

theorem pWakeup_starts (value : Text) (now : ℤ) (get : Get) : Starts (pWakeup value now get) := by
  unfold pWakeup
  split
  · rintro ⟨⟩
  · split
    · rintro ⟨⟩
    · split_ifs
      · rintro ⟨⟩
      · rintro ⟨⟩
      · rintro ⟨⟩
      · rintro ⟨⟩
      · exact starts_of (begins_addLight (.inl rfl) _) (fails_addLight _ _)

theorem plan_starts (c : Cmd) (localNow : ℤ) (get : Get) : Starts (c.plan localNow get) := by
  unfold Cmd.plan Firmware.plan
  split
  · rintro ⟨⟩
  · split
    · split
      · rintro ⟨⟩
      · exact pWakeup_starts _ _ _
    · split
      · rintro ⟨⟩
      · split
        · rintro ⟨⟩
        · exact starts_of (begins_builders _ _ _ _) (fails_builders _ _ _ _)

theorem of_pull (b : Built) : (Plan.of b).pull = false := by
  cases b <;> rfl

theorem plan_pull {c : Cmd} {localNow : ℤ} {get : Get} (h : (c.plan localNow get).pull = true) :
    c.fn = "lighting" ∧ c.what = "wakeup" ∧ c.value.length < valueMax := by
  unfold Cmd.plan Firmware.plan at h
  split at h
  · cases h
  · split at h
    · rename_i hwake
      split at h
      · cases h
      · unfold pWakeup at h
        split at h
        · cases h
        · rename_i hlong
          exact ⟨hwake.1, hwake.2, Nat.lt_of_not_le hlong⟩
    · split at h
      · cases h
      · split at h
        · cases h
        · rw [of_pull] at h
          cases h

theorem kept_of_pull {c : Cmd} {localNow : ℤ} {get : Get}
    (h : (c.plan localNow get).pull = true) : c.kept = c := by
  obtain ⟨fn, what, value, n⟩ := c
  obtain ⟨rfl, rfl, hlen⟩ := plan_pull h
  have hvalue : copy valueMax value = value := List.take_of_length_le (by
    have : value.length < valueMax := hlen
    omega)
  have hfn : String.ofList (copy 24 "lighting".toList) = "lighting" := by decide
  have hwhat : String.ofList (copy 32 "wakeup".toList) = "wakeup" := by decide
  simp only [Cmd.kept, hfn, hwhat, hvalue]

/-- The book after some more events. -/
def after (b : Book) (es : List Event) : Book := es.foldr (fun e b => b.add e) b

theorem after_append (b : Book) (new old : List Event) :
    after b (new ++ old) = after (after b old) new := List.foldr_append

/-- Each of the events may come when it comes; `n` says that every loss of the link is noticed. -/
def Allowed (n : Prop) (b : Book) : List Event → Prop
  | [] => True
  | e :: es => (Legal (after b es) e ∧ (n → Confirms (after b es) e)) ∧ Allowed n b es

theorem allowed_append {n : Prop} {b : Book} {new old : List Event} (hold : Allowed n b old)
    (hnew : Allowed n (after b old) new) : Allowed n b (new ++ old) := by
  induction new with
  | nil => exact hold
  | cons e new ih =>
    obtain ⟨hhead, htail⟩ := hnew
    refine ⟨?_, ih htail⟩
    show Legal (after b (new ++ old)) e ∧ (n → Confirms (after b (new ++ old)) e)
    rw [after_append]
    exact hhead

variable {n : Prop} {b : Book} {s : State}

/-- What the book and the state say of the writes. -/
structure Wires (n : Prop) (b : Book) (s : State) : Prop where
  held : b.held = s.held
  inflight : s.held = true → s.ctl.inflight = true
  link : s.held = true → s.link = true
  out : n → s.ctl.inflight = true → s.held = true ∨ s.link = false
  tick : b.tickAt ≤ s.now

/-- What they say of a command that runs. -/
structure Runs (n : Prop) (b : Book) (s : State) : Prop where
  due : b.due = s.ctl.deadline
  late : s.now < s.ctl.deadline
  pull : b.pull = true ↔ s.ctl.pull ≠ .none
  f : b.f = s.ctl.plan.f
  acked : b.acked = s.ctl.i
  sent : b.sent = s.ctl.i + s.ctl.inflight.toNat
  waits : s.ctl.pull = .wait → s.ctl.inflight = false
  left : s.ctl.pull ≠ .wait → s.ctl.i < s.ctl.plan.f.length
  ackAt : ∀ t last w, b.ackAt = some (t, last) → s.ctl.plan.f[s.ctl.i]? = some w →
    w.delayMs ≠ 0 → last + w.delayMs + tickMs ≤ s.ctl.nextAt
  kept : s.ctl.pull ≠ .none → s.ctl.cmd = b.cmd
  own : n → (b.own = true ↔ s.ctl.pull = .none ∧ (s.ctl.inflight = true ∨ 0 < s.ctl.i))
  lost : n → (b.lost = true ↔ s.link = false ∧ b.own = true)

structure Inv (n : Prop) (b : Book) (s : State) : Prop extends Wires n b s where
  unfinished : b.unfinished = s.ctl.active
  runs : s.ctl.active = true → Runs n b s

/-- A function's events and the state after it. -/
structure Good (n : Prop) (b : Book) (r : List Event × State) : Prop where
  allowed : Allowed n b r.1
  inv : Inv n (after b r.1) r.2

theorem Good.refl (h : Inv n b s) : Good n b ([], s) := ⟨trivial, h⟩

theorem Good.trans {old new : List Event} {s' : State} (hold : Allowed n b old)
    (hnew : Good n (after b old) (new, s')) : Good n b (new ++ old, s') :=
  ⟨allowed_append hold hnew.allowed, by
    rw [after_append]
    exact hnew.inv⟩

/-- A command ended with its write out, and the loss of the link since then is not noticed. -/
def Stale (s : State) : Prop := s.link = false ∧ s.ctl.active = false ∧ s.ctl.inflight = true

theorem idle_of_busy (h : s.ctl.busy = false) : s.ctl.active = false ∧ s.ctl.inflight = false := by
  rw [Ctl.busy, decide_eq_false_iff_not, not_or, Bool.not_eq_true, Bool.not_eq_true] at h
  exact h

theorem accept_good (h : Inv n b s) (hidle : s.ctl.busy = false) {c : Cmd} {plan : Plan}
    {pulling : Bool} (hlink : s.link = true) (hbegun : Begun plan.f)
    (hplan : if pulling then plan.f = pullPlan.f
      else ∃ localNow get, (c.plan localNow get).rc = .ok ∧ plan.f = (c.plan localNow get).f)
    (hkept : pulling = true → c.kept = c) : Good n b (s.accept c plan pulling) := by
  obtain ⟨hactive, hinflight⟩ := idle_of_busy hidle
  have hheld : s.held = false := by
    by_contra hheld
    rw [h.inflight (Bool.eq_true_of_not_eq_false hheld)] at hinflight
    cases hinflight
  have hb : b.unfinished = false ∧ b.held = false :=
    ⟨h.unfinished.trans hactive, h.held.trans hheld⟩
  have hlen : 0 < plan.f.length := by
    obtain ⟨w, rest, hf, -⟩ := hbegun
    rw [hf]
    exact Nat.succ_pos _
  refine ⟨⟨⟨⟨rfl, hbegun, hplan⟩, fun _ => trivial⟩, ⟨hb, fun _ => trivial⟩, trivial⟩, ?_⟩
  refine ⟨⟨h.held, h.inflight, h.link, h.out, h.tick⟩, rfl, fun _ => ?_⟩
  refine ⟨rfl, ?_, ?_, rfl, rfl, ?_, ?_, fun _ => hlen, ?_, ?_, fun _ => ?_,
    fun _ => ?_⟩
  · show s.now < s.now + deadlineMs + _
    rw [deadlineMs]
    omega
  · show pulling = true ↔ (if pulling then Pull.out else Pull.none) ≠ .none
    cases pulling <;> decide
  · show 0 = 0 + s.ctl.inflight.toNat
    rw [hinflight]
    rfl
  · exact fun _ => hinflight
  · intro t last w ht
    cases ht
  · intro hpull
    refine hkept ?_
    by_contra hno
    rw [Bool.not_eq_true] at hno
    exact hpull (by rw [State.accept, hno]; rfl)
  · refine iff_of_false Bool.false_ne_true fun hown => ?_
    rcases hown.2 with hown | hown
    · exact Bool.false_ne_true (hinflight.symm.trans hown)
    · exact Nat.lt_irrefl 0 hown
  · refine iff_of_false Bool.false_ne_true fun hlost => ?_
    rw [show s.link = false from hlost.1] at hlink
    cases hlink

theorem submit_good (h : Inv n b s) (x : Submit) (hs : n → ¬ Stale s) : Good n b (s.submit x) := by
  have hanswer : ∀ r reason, (n → r = .busy → b.unfinished = true ∨ b.held = true) →
      Good n b ([.answered r reason], s) := fun r reason hbusy =>
    ⟨⟨⟨trivial, hbusy⟩, trivial⟩, h⟩
  unfold State.submit
  cases hbusy : s.ctl.busy with
  | true =>
    refine hanswer _ _ fun hn _ => ?_
    rw [h.unfinished, h.held]
    rw [Ctl.busy, decide_eq_true_eq] at hbusy
    rcases hbusy with hactive | hinflight
    · exact .inl hactive
    · rcases h.out hn hinflight with hheld | hlink
      · exact .inr hheld
      · refine .inl (by_contra fun hactive => hs hn ⟨hlink, ?_, hinflight⟩)
        exact Bool.eq_false_iff.mpr hactive
  | false =>
    rw [if_neg Bool.false_ne_true]
    dsimp only
    split_ifs with hready hok hpull
    · exact hanswer _ _ fun _ hr => by cases hr
    · have hlink : s.link = true := by
        by_contra hdown
        exact hready ⟨.inl hok, fun hup => hdown hup.1⟩
      exact accept_good h hbusy hlink (plan_starts _ _ _ hok) ⟨_, _, hok, rfl⟩ fun hp => by cases hp
    · have hlink : s.link = true := by
        by_contra hdown
        exact hready ⟨.inr hpull.1, fun hup => hdown hup.1⟩
      exact accept_good h hbusy hlink ⟨_, _, rfl, rfl⟩ rfl fun _ => kept_of_pull hpull.2
    · exact hanswer _ _ fun _ hr => by cases hr

theorem submit_wires (s : State) (x : Submit) :
    (s.submit x).2.link = s.link ∧ (s.submit x).2.ctl.inflight = s.ctl.inflight := by
  unfold State.submit
  dsimp only
  split_ifs <;> exact ⟨rfl, rfl⟩

theorem submits_good (h : Inv n b s) (inside : List Submit)
    (hs : s.link = true ∨ s.ctl.inflight = false) : Good n b (s.submits inside) := by
  induction inside generalizing b s with
  | nil => exact Good.refl h
  | cons x xs ih =>
    have hgood := submit_good h x fun _ hstale => by
      rcases hs with hs | hs
      · exact Bool.false_ne_true (hstale.1.symm.trans hs)
      · exact Bool.false_ne_true (hs.symm.trans hstale.2.2)
    obtain ⟨hlink, hinflight⟩ := submit_wires s x
    have hs' : (s.submit x).2.link = true ∨ (s.submit x).2.ctl.inflight = false := by
      rwa [hlink, hinflight]
    exact Good.trans hgood.allowed (ih hgood.inv hs')

theorem finish_good (h : Wires n b s) (hunfinished : b.unfinished = true) {r : Result}
    (hok : r = .plan .ok ↔ b.pull = false ∧ b.acked = b.f.length)
    (hlost : n → (r = .unconfirmed ↔ b.lost = true)) (hs : s.link = true ∨ s.ctl.inflight = false)
    (reason : Option String) (inside : List Submit) : Good n b (s.finish r reason inside) := by
  have hdone : Allowed n b [.done r reason] := ⟨⟨⟨hunfinished, hok⟩, hlost⟩, trivial⟩
  have hended : Inv n (after b [.done r reason])
      { s with ctl := { s.ctl with active := false, pull := .none } } :=
    ⟨⟨h.held, h.inflight, h.link, h.out, h.tick⟩, rfl, fun hactive => (by cases hactive)⟩
  exact Good.trans hdone (submits_good hended inside hs)

theorem Runs.unacked (h : Runs n b s) : ¬ (b.pull = false ∧ b.acked = b.f.length) := by
  rintro ⟨hpull, hacked⟩
  have hnone : s.ctl.pull = .none := by
    by_contra hne
    rw [h.pull.mpr hne] at hpull
    cases hpull
  have hleft := h.left (by rw [hnone]; decide)
  rw [h.acked, h.f] at hacked
  omega

theorem Runs.notLost (h : Runs n b s) (hlink : s.link = true) (hn : n) : b.lost ≠ true := by
  rw [Ne, h.lost hn, hlink]
  exact fun hlost => Bool.false_ne_true hlost.1.symm

theorem onWritten_good (h : Inv n b s) (hheld : s.held = true) (ok : Bool) (t : ℕ)
    (inside : List Submit) :
    Good n (b.add (.written ok t)) ({ s with held := false }.onWritten ok inside) := by
  have hinflight := h.inflight hheld
  have hlink := h.link hheld
  have hwires : ∀ ctl : Ctl, ctl.inflight = false →
      Wires n (b.add (.written ok t)) { s with ctl := ctl, held := false } := fun ctl hctl =>
    ⟨by cases ok <;> rfl, fun hh => absurd hh Bool.false_ne_true,
      fun hh => absurd hh Bool.false_ne_true,
      fun _ hi => absurd (hctl.symm.trans hi) Bool.false_ne_true,
      by cases ok <;> exact h.tick⟩
  have hunf : (b.add (.written ok t)).unfinished = s.ctl.active := by
    rw [← h.unfinished]
    cases ok <;> rfl
  unfold State.onWritten
  dsimp only
  rw [if_neg (by rw [hinflight]; exact Bool.noConfusion)]
  cases hactive : s.ctl.active with
  | false =>
    rw [if_pos rfl]
    exact Good.refl ⟨hwires _ rfl, hunf.trans hactive, fun ha => absurd ha Bool.false_ne_true⟩
  | true =>
    have hruns := h.runs hactive
    have hwait : s.ctl.pull ≠ .wait := fun hp =>
      Bool.false_ne_true ((hruns.waits hp).symm.trans hinflight)
    have hleft := hruns.left hwait
    rw [if_neg Bool.noConfusion]
    cases ok with
    | false =>
      rw [if_pos rfl]
      refine finish_good (hwires _ rfl) (hunf.trans hactive)
        (iff_of_false Result.noConfusion hruns.unacked) (fun hn => ?_) (.inl hlink) _ _
      exact iff_of_false Result.noConfusion (hruns.notLost hlink hn)
    | true =>
      rw [if_neg Bool.noConfusion]
      have hown : n → (b.own = true ↔ s.ctl.pull = .none) := fun hn =>
        (hruns.own hn).trans ⟨And.left, fun hp => ⟨hp, .inl hinflight⟩⟩
      have hsent : b.sent = s.ctl.i + 1 := by
        rw [hruns.sent, hinflight]
        rfl
      by_cases hlast : s.ctl.i + 1 = s.ctl.plan.f.length
      · rw [if_pos hlast]
        by_cases hpull : s.ctl.pull = .out
        · rw [if_pos hpull]
          refine Good.refl ⟨hwires _ rfl, hunf.trans hactive, fun _ => ?_⟩
          refine ⟨hruns.due, hruns.late, ?_, hruns.f, congrArg (· + 1) hruns.acked, hsent,
            fun _ => rfl, fun hp => absurd rfl hp, ?_, ?_, fun hn => ?_, hruns.lost⟩
          · exact iff_of_true (hruns.pull.mpr (by rw [hpull]; exact Pull.noConfusion))
              Pull.noConfusion
          · intro t' last w _ hw
            rw [List.getElem?_eq_none hlast.ge] at hw
            cases hw
          · exact fun _ => hruns.kept (by rw [hpull]; exact Pull.noConfusion)
          · refine iff_of_false (fun ho => ?_) (fun hp => (by cases hp.1))
            rw [(hown hn).mp ho] at hpull
            cases hpull
        · rw [if_neg hpull]
          refine finish_good (hwires _ rfl) (hunf.trans hactive) (iff_of_true rfl ⟨?_, ?_⟩)
            (fun hn => iff_of_false Result.noConfusion (hruns.notLost hlink hn)) (.inl hlink) _ _
          · refine Bool.eq_false_iff.mpr fun hp => ?_
            have hne := hruns.pull.mp hp
            cases hcase : s.ctl.pull with
            | none => exact hne hcase
            | out => exact hpull hcase
            | wait => exact hwait hcase
          · exact (congrArg (· + 1) hruns.acked).trans
              (hlast.trans (congrArg List.length hruns.f.symm))
      · rw [if_neg hlast]
        refine Good.refl ⟨hwires _ rfl, hunf.trans hactive, fun _ => ?_⟩
        refine ⟨hruns.due, hruns.late, hruns.pull, hruns.f, congrArg (· + 1) hruns.acked, hsent,
          fun _ => rfl, fun _ => ?_, ?_, hruns.kept, fun hn => ?_, hruns.lost⟩
        · exact lt_of_le_of_ne hleft hlast
        · intro t' last w htime hw hdelay
          obtain ⟨rfl, rfl⟩ := Prod.mk.inj (Option.some.inj htime)
          have htick := h.tick
          have hget : (s.ctl.plan.f[s.ctl.i + 1]?.map Write.delayMs).getD 0 = w.delayMs := by
            rw [show s.ctl.plan.f[s.ctl.i + 1]? = some w from hw]
            rfl
          show b.tickAt + w.delayMs + tickMs ≤
              if (s.ctl.plan.f[s.ctl.i + 1]?.map Write.delayMs).getD 0 ≠ 0 then
            s.now + (s.ctl.plan.f[s.ctl.i + 1]?.map Write.delayMs).getD 0 + tickMs else s.now
          rw [hget, if_pos hdelay]
          omega
        · exact (hown hn).trans ⟨fun hp => ⟨hp, .inr (Nat.succ_pos _)⟩, And.left⟩

theorem frame_eq_some {o : Ctl} {w : Write} (h : o.frame = some w) :
    o.plan.f[o.i]? = some w ∧ ∃ chr, w.chr = some chr ∧ writeOk chr w.data.length = true := by
  obtain ⟨hw, hok⟩ := Option.filter_eq_some_iff.mp h
  exact ⟨hw, (Option.any_eq_true _ _).mp hok⟩

theorem send_good (h : Inv n b s) (hactive : s.ctl.active = true) (hlink : s.link = true)
    (hwait : s.ctl.pull ≠ .wait) (reply : Reply) (inside : List Submit) :
    Good n b (s.send reply inside) := by
  have hruns := h.runs hactive
  have hfailed : ∀ t : State, Wires n b t → t.link = true →
      Good n b (t.finish .failed none inside) := fun t hwires ht =>
    finish_good hwires (h.unfinished.trans hactive) (iff_of_false Result.noConfusion hruns.unacked)
      (fun hn => iff_of_false Result.noConfusion (hruns.notLost hlink hn)) (.inl ht) _ _
  unfold State.send
  split_ifs with hbusy
  · exact Good.refl h
  · rw [not_or, Bool.not_eq_true, Nat.not_lt] at hbusy
    obtain ⟨hinflight, hnext⟩ := hbusy
    have hheld : s.held = false := by
      by_contra hheld
      rw [h.inflight (Bool.eq_true_of_not_eq_false hheld)] at hinflight
      cases hinflight
    cases hframe : s.ctl.frame with
    | none => exact hfailed s h.toWires hlink
    | some w =>
      obtain ⟨hw, hok⟩ := frame_eq_some hframe
      have hsent : b.sent = s.ctl.i := by
        rw [hruns.sent, hinflight]
        rfl
      have hpull : decide (s.ctl.pull ≠ .none) = b.pull := by
        cases hp : b.pull with
        | true => exact decide_eq_true (hruns.pull.mp hp)
        | false =>
          exact decide_eq_false fun hne => Bool.false_ne_true (hp.symm.trans (hruns.pull.mpr hne))
      have hlegal : Allowed n b [.write (s.ctl.pull ≠ .none) w s.now] := by
        refine ⟨⟨⟨h.unfinished.trans hactive, h.held.trans hheld, hpull, ?_, ?_, hok, ?_⟩,
          fun _ => trivial⟩, trivial⟩
        · show b.f[b.sent]? = some w
          rw [hruns.f, hsent]
          exact hw
        · exact hruns.acked.trans hsent.symm
        · intro t last ht hdelay
          have hlast := (hruns.ackAt t last w ht hw hdelay).trans hnext
          exact ⟨hlast, fun _ => by omega⟩
      have hout : Inv n (after b [.write (s.ctl.pull ≠ .none) w s.now])
          { s with ctl := { s.ctl with inflight := true }, held := true } := by
        refine ⟨⟨rfl, fun _ => rfl, fun _ => hlink, fun _ _ => .inl rfl, le_refl _⟩, h.unfinished,
          fun _ => ?_⟩
        refine ⟨hruns.due, hruns.late, hruns.pull, hruns.f, hruns.acked, congrArg (· + 1) hsent,
          fun hp => absurd hp hwait, hruns.left, hruns.ackAt, hruns.kept, fun hn => ?_,
            fun hn => ?_⟩
        · show (b.own || !decide (s.ctl.pull ≠ .none)) = true ↔ s.ctl.pull = .none ∧
              (true = true ∨ _)
          rw [Bool.or_eq_true, hruns.own hn]
          by_cases hp : s.ctl.pull = .none
          · simp [hp]
          · simp [hp]
        · refine iff_of_false (hruns.notLost hlink hn) fun hl => ?_
          exact Bool.false_ne_true (hl.1.symm.trans hlink)
      cases reply with
      | refused =>
        refine hfailed _ ?_ hlink
        exact ⟨h.held.trans hheld, fun hh => absurd hh Bool.false_ne_true,
          fun hh => absurd hh Bool.false_ne_true, fun _ hi => absurd hi Bool.false_ne_true, h.tick⟩
      | taken => exact ⟨hlegal, hout⟩
      | completed ok =>
        have hboth : Allowed n b [.written ok s.now, .write (s.ctl.pull ≠ .none) w s.now] :=
          ⟨⟨rfl, fun _ => trivial⟩, hlegal⟩
        have hback := onWritten_good hout rfl ok s.now inside
        exact ⟨allowed_append hboth hback.allowed, by rw [after_append]; exact hback.inv⟩

theorem tick_down (h : Inv n b s) (hlink : s.link = false) {now : ℕ} (hnow : s.now ≤ now)
    (get : Get) (reply : Reply) (inside : List Submit) :
    Good n b (s.tick now get reply inside) := by
  have hheld : s.held = false := by
    by_contra hheld
    rw [h.link (Bool.eq_true_of_not_eq_false hheld)] at hlink
    cases hlink
  have hwires : Wires n b { s with now, ctl := { s.ctl with inflight := false } } :=
    ⟨h.held, fun hh => absurd (hheld.symm.trans hh) Bool.false_ne_true, h.link,
      fun _ hi => absurd hi Bool.false_ne_true, h.tick.trans hnow⟩
  unfold State.tick
  dsimp only
  rw [if_pos hlink]
  by_cases hactive : s.ctl.active = true
  · have hruns := h.runs hactive
    rw [if_pos hactive]
    refine finish_good hwires (h.unfinished.trans hactive) (iff_of_false ?_ hruns.unacked)
      (fun hn => ?_) (.inr rfl) _ _
    · split_ifs <;> exact fun hr => by cases hr
    · rw [hruns.lost hn, hruns.own hn]
      split_ifs with hsent
      · exact iff_of_true rfl ⟨hlink, hsent⟩
      · exact iff_of_false (fun hr => (by cases hr)) fun hl => hsent hl.2
  · rw [if_neg hactive]
    exact Good.refl ⟨hwires, h.unfinished, fun ha => absurd ha hactive⟩

theorem Inv.clock (h : Inv n b s) {now : ℕ} (hnow : s.now ≤ now)
    (hlate : s.ctl.active = true → now < s.ctl.deadline) : Inv n b { s with now } :=
  ⟨⟨h.held, h.inflight, h.link, h.out, h.tick.trans hnow⟩, h.unfinished, fun ha =>
    { h.runs ha with late := hlate ha }⟩

theorem replanned_good (h : Inv n b s) (hactive : s.ctl.active = true) (hlink : s.link = true)
    (hwait : s.ctl.pull = .wait) {localNow : ℤ} {get : Get}
    (hok : (s.ctl.cmd.plan localNow get).rc = .ok) (reply : Reply) (inside : List Submit) :
    Good n (after b [.planned false (s.ctl.cmd.plan localNow get).f])
      ({ s with ctl := { s.ctl with
          pull := .none, plan := s.ctl.cmd.plan localNow get, i := 0, nextAt := s.now } }.send reply
        inside) ∧
      Allowed n b [.planned false (s.ctl.cmd.plan localNow get).f] := by
  have hruns := h.runs hactive
  have hinflight := hruns.waits hwait
  have hbegun := plan_starts s.ctl.cmd localNow get hok
  have hcmd : s.ctl.cmd = b.cmd := hruns.kept (by rw [hwait]; exact Pull.noConfusion)
  have hplanned : Inv n (after b [.planned false (s.ctl.cmd.plan localNow get).f])
      { s with ctl := { s.ctl with
          pull := .none, plan := s.ctl.cmd.plan localNow get, i := 0, nextAt := s.now } } := by
    refine ⟨⟨h.held, h.inflight, h.link, h.out, h.tick⟩, h.unfinished, fun _ => ?_⟩
    refine ⟨hruns.due, hruns.late, ?_, rfl, rfl, ?_, (fun hp => (by cases hp)), fun _ => ?_, ?_, ?_,
      fun hn => ?_, hruns.lost⟩
    · exact iff_of_false Bool.false_ne_true (fun hp => hp rfl)
    · show 0 = 0 + s.ctl.inflight.toNat
      rw [hinflight]
      rfl
    · obtain ⟨w, rest, hf, -⟩ := hbegun
      show 0 < (s.ctl.cmd.plan localNow get).f.length
      rw [hf]
      exact Nat.succ_pos _
    · intro t last w ht
      cases ht
    · exact fun hp => absurd rfl hp
    · refine (hruns.own hn).trans (iff_of_false (fun hp => ?_) fun hp => ?_)
      · rw [hp.1] at hwait
        cases hwait
      · rcases hp.2 with hi | hi
        · exact Bool.false_ne_true (hinflight.symm.trans hi)
        · exact Nat.lt_irrefl 0 hi
  refine ⟨send_good hplanned hactive hlink Pull.noConfusion reply inside, ?_⟩
  refine ⟨⟨⟨h.unfinished.trans hactive, hbegun, ?_⟩, fun _ => trivial⟩, trivial⟩
  show ∃ localNow' get', (b.cmd.plan localNow' get').rc = .ok ∧
    (s.ctl.cmd.plan localNow get).f = (b.cmd.plan localNow' get').f
  rw [← hcmd]
  exact ⟨localNow, get, hok, rfl⟩

theorem tick_good (h : Inv n b s) {now : ℕ} (hnow : s.now ≤ now) (get : Get) (reply : Reply)
    (inside : List Submit) : Good n b (s.tick now get reply inside) := by
  cases hlink : s.link with
  | false => exact tick_down h hlink hnow get reply inside
  | true =>
    have hwires : ∀ ctl : Ctl, ctl.inflight = s.ctl.inflight → Wires n b { s with now, ctl } :=
      fun ctl hi => ⟨h.held, fun hh => hi.trans (h.inflight hh), h.link,
        fun hn hh => h.out hn (hi.symm.trans hh), h.tick.trans hnow⟩
    unfold State.tick
    dsimp only
    rw [if_neg (by rw [hlink]; exact Bool.noConfusion)]
    by_cases hidle : s.ctl.active = false
    · rw [if_pos hidle]
      exact Good.refl (h.clock hnow fun ha => absurd (hidle.symm.trans ha) Bool.false_ne_true)
    · have hactive : s.ctl.active = true := Bool.eq_true_of_not_eq_false hidle
      have hruns := h.runs hactive
      have hends : ∀ (ctl : Ctl) (r : Result) (reason : Option String),
          ctl.inflight = s.ctl.inflight → r ≠ .plan .ok → r ≠ .unconfirmed →
          Good n b ({ s with now, ctl }.finish r reason inside) := fun ctl r reason hi hok hun =>
        finish_good (hwires ctl hi) (h.unfinished.trans hactive) (iff_of_false hok hruns.unacked)
          (fun hn => iff_of_false hun (hruns.notLost hlink hn)) (.inl hlink) _ _
      rw [if_neg hidle]
      by_cases hdue : s.ctl.deadline ≤ now
      · rw [if_pos hdue]
        exact hends _ _ _ rfl Result.noConfusion Result.noConfusion
      · have hclock : Inv n b { s with now } := h.clock hnow fun _ => Nat.lt_of_not_le hdue
        rw [if_neg hdue]
        by_cases hwait : s.ctl.pull = .wait
        · rw [if_pos hwait]
          split_ifs with hpulling hplan
          · exact Good.refl hclock
          · exact hends _ _ _ rfl (fun hr => hplan (Result.plan.inj hr)) Result.noConfusion
          · obtain ⟨hgood, hallowed⟩ := replanned_good hclock hactive hlink hwait
              (not_not.mp hplan) reply inside
            exact ⟨allowed_append hallowed hgood.allowed, by rw [after_append]; exact hgood.inv⟩
        · rw [if_neg hwait]
          exact send_good hclock hactive hlink hwait reply inside

theorem submits_now (s : State) (inside : List Submit) : (s.submits inside).2.now = s.now := by
  induction inside generalizing s with
  | nil => rfl
  | cons x xs ih =>
    refine (ih (s.submit x).2).trans ?_
    unfold State.submit
    dsimp only
    split_ifs <;> rfl

theorem finish_now (s : State) (r : Result) (reason : Option String) (inside : List Submit) :
    (s.finish r reason inside).2.now = s.now :=
  submits_now _ inside

theorem onWritten_now (s : State) (ok : Bool) (inside : List Submit) :
    (s.onWritten ok inside).2.now = s.now := by
  unfold State.onWritten
  dsimp only
  split_ifs
  all_goals first
    | rfl
    | exact finish_now _ _ _ _

theorem send_now (s : State) (reply : Reply) (inside : List Submit) :
    (s.send reply inside).2.now = s.now := by
  unfold State.send
  split_ifs
  · rfl
  · cases s.ctl.frame with
    | none => exact finish_now _ _ _ _
    | some w =>
      cases reply with
      | refused => exact finish_now _ _ _ _
      | taken => rfl
      | completed ok => exact onWritten_now _ _ _

theorem tick_now (s : State) (now : ℕ) (get : Get) (reply : Reply) (inside : List Submit) :
    (s.tick now get reply inside).2.now = now := by
  unfold State.tick
  dsimp only
  split_ifs
  all_goals first
    | rfl
    | exact finish_now _ _ _ _
    | exact send_now _ _ _

theorem drop_good (h : Inv n b s) (hlink : s.link = true) :
    Good n b ([.drop], { s with link := false, held := false }) := by
  refine ⟨⟨⟨trivial, fun _ => trivial⟩, trivial⟩, ?_⟩
  refine ⟨⟨rfl, fun hh => absurd hh Bool.false_ne_true, fun hh => absurd hh Bool.false_ne_true,
    fun _ _ => .inr rfl, h.tick⟩, h.unfinished, fun hactive => ?_⟩
  have hruns := h.runs hactive
  refine { hruns with lost := fun hn => ?_ }
  have hnot : b.lost = false := Bool.eq_false_iff.mpr (hruns.notLost hlink hn)
  show (b.lost || b.own) = true ↔ false = false ∧ b.own = true
  rw [hnot, Bool.false_or]
  exact ⟨fun hown => ⟨rfl, hown⟩, And.right⟩

theorem up_good (h : Inv n b s) (hn : n → ¬ Op.up.Unnoticed s) :
    Good n b ([.up], { s with link := true }) := by
  refine ⟨⟨⟨trivial, fun _ => trivial⟩, trivial⟩, ?_⟩
  refine ⟨⟨h.held, h.inflight, fun _ => rfl, fun hn' hi => absurd (.inl hi) (hn hn'), h.tick⟩,
    h.unfinished, fun hactive => ?_⟩
  have hruns := h.runs hactive
  refine { hruns with lost := fun hn' => ?_ }
  show b.lost = true ↔ true = false ∧ b.own = true
  refine iff_of_false (fun hlost => hn hn' ?_) fun hup => Bool.noConfusion hup.1
  obtain ⟨hpull, hsent⟩ := (hruns.own hn').mp ((hruns.lost hn').mp hlost).2
  exact hsent.imp_right fun hi => ⟨hactive, hpull, hi⟩

theorem step_good (h : Inv n b s) {i : Op} {es : List Event} {s' : State}
    (hn : n → ¬ i.Unnoticed s) (hs : step i s = some (es, s')) : Good n b (es, s') := by
  cases i with
  | submit x =>
    obtain hx := Option.some.inj hs
    rw [← hx]
    exact submit_good h x hn
  | written ok now inside =>
    obtain ⟨⟨hheld, -⟩, hs⟩ := Option.ite_none_right_eq_some.mp hs
    obtain ⟨rfl, rfl⟩ := Prod.mk.inj (Option.some.inj hs)
    have hlegal : Allowed n b [.written ok now] :=
      ⟨⟨h.held.trans hheld, fun _ => trivial⟩, trivial⟩
    exact Good.trans hlegal (onWritten_good h hheld ok now inside)
  | tick now get reply inside =>
    obtain ⟨hnow, hs⟩ := Option.ite_none_right_eq_some.mp hs
    obtain ⟨rfl, rfl⟩ := Prod.mk.inj (Option.some.inj hs)
    have hgood := tick_good h hnow get reply inside
    obtain ⟨⟨hheld, hinflight, hlink, hout, -⟩, hunfinished, hrun⟩ := hgood.inv
    refine ⟨⟨⟨fun hunf => ?_, fun _ => trivial⟩, hgood.allowed⟩,
      ⟨hheld, hinflight, hlink, hout, (tick_now s now get reply inside).ge⟩, hunfinished,
      fun ha => { hrun ha with }⟩
    have hruns := hgood.inv.runs (hgood.inv.unfinished.symm.trans hunf)
    calc now = (s.tick now get reply inside).2.now := (tick_now s now get reply inside).symm
      _ < _ := hruns.late
      _ = _ := hruns.due.symm
  | drop =>
    obtain ⟨hlink, hs⟩ := Option.ite_none_right_eq_some.mp hs
    obtain ⟨rfl, rfl⟩ := Prod.mk.inj (Option.some.inj hs)
    exact drop_good h hlink
  | up =>
    obtain ⟨-, hs⟩ := Option.ite_none_right_eq_some.mp hs
    obtain ⟨rfl, rfl⟩ := Prod.mk.inj (Option.some.inj hs)
    exact up_good h hn

theorem inv_init : Inv n {} {} :=
  ⟨⟨rfl, fun hh => absurd hh Bool.false_ne_true, fun hh => absurd hh Bool.false_ne_true,
    fun _ hi => absurd hi Bool.false_ne_true, le_refl _⟩, rfl,
    fun ha => absurd ha Bool.false_ne_true⟩

variable {tr : List (Record Op (List Event) State)}

/-- A run of which every loss of the link is noticed. -/
def Noticed (tr : List (Record Op (List Event) State)) : Prop := ∀ r ∈ tr, ¬ r.inp.Unnoticed r.pre

theorem run_good (h : Run step {} tr s) (hn : n → Noticed tr) : Good n {} (events tr, s) := by
  induction h with
  | nil => exact Good.refl inv_init
  | cons _ hs ih =>
    have hgood := ih fun hn' r hr => hn hn' r (List.mem_cons_of_mem _ hr)
    exact Good.trans hgood.allowed
      (step_good hgood.inv (fun hn' => hn hn' _ List.mem_cons_self) hs)

theorem Allowed.mem {new old : List Event} {e : Event} (h : Allowed n b (new ++ e :: old)) :
    Legal (after b old) e ∧ (n → Confirms (after b old) e) := by
  induction new with
  | nil => exact h.1
  | cons _ _ ih => exact ih h.2

/-- Every event of every run may come when it comes: one command at a time, its frames in their
order and each once, one write at a time, the done callback once and no later than the tick at the
deadline. -/
theorem run_legal (h : Run step {} tr s) {new old : List Event} {e : Event}
    (he : events tr = new ++ e :: old) : Legal (book old) e := by
  have hgood : Good False {} (events tr, s) := run_good h False.elim
  have hall := hgood.allowed
  rw [he] at hall
  exact hall.mem.1

def noFields : Get := fun _ _ => none

/-- The fridge is switched on over a link that holds: the newest step first. -/
def coolerOn : List Op :=
  [.written true 50 [], .tick 0 noFields .taken [],
    .submit ⟨⟨"cooler", "power", "on".toList, 0⟩, noFields, true, true⟩, .up]

/-- The link is lost with the frame out, and the next tick sees it. -/
def coolerLost : List Op := .tick 100 noFields .taken [] :: .drop :: coolerOn.tail

def executed (ops : List Op) : List (Record Op (List Event) State) × State :=
  (exec step {} ops).getD ([], {})

theorem run_legal_coolerOn :
    Legal (book (events (executed coolerOn).1).tail) (.done (.plan .ok) none) :=
  run_legal (run_of_exec step {} coolerOn rfl).1
    (show events (executed coolerOn).1 = [] ++ .done (.plan .ok) none :: _ from rfl)

/-- Where each loss of the link is seen by a tick before it returns, a command ends unconfirmed
exactly when the link was lost after a frame of its own, and only a command or a write that is out
answers busy. -/
theorem run_confirms (h : Run step {} tr s) (hn : Noticed tr) {new old : List Event} {e : Event}
    (he : events tr = new ++ e :: old) : Confirms (book old) e := by
  have hgood : Good True {} (events tr, s) := run_good h fun _ => hn
  have hall := hgood.allowed
  rw [he] at hall
  exact hall.mem.2 trivial

theorem run_confirms_coolerLost :
    Confirms (book (events (executed coolerLost).1).tail.tail) (.done .unconfirmed none) := by
  have hn : Noticed (executed coolerLost).1 := by
    refine List.forall_mem_cons.mpr ⟨id, List.forall_mem_cons.mpr ⟨id, List.forall_mem_cons.mpr
      ⟨id, List.forall_mem_cons.mpr ⟨fun h => ?_, List.forall_mem_cons.mpr ⟨fun h => ?_,
        List.forall_mem_nil _⟩⟩⟩⟩⟩
    · exact Bool.noConfusion h.1
    · rcases h with h | h
      · exact Bool.noConfusion h
      · exact Bool.noConfusion h.1
  exact run_confirms (run_of_exec step {} coolerLost rfl).1 hn
    (show events (executed coolerLost).1 = [_] ++ .done .unconfirmed none :: _ from rfl)

end OpenCalifornia.Control.Sequencer
