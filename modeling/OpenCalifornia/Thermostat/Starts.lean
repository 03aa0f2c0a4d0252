import OpenCalifornia.Thermostat.Reading

/-! # Starts of the heater

Every `power on` of a run is the entry into AUTO or a re-send of a start that is still
pending. A re-send reaches back over the run, so the invariant carries the record of the entry
along with the pending start. The readback of a start looks at normal operation only: a
heater switched to continuous operation at the panel is started again, and `PanelStart` says
exactly when. -/

namespace OpenCalifornia.Thermostat
open Lib (Flow)
open Lib.Machine (Run Record run_of_exec)

abbrev Rec := Record Input Out State

variable {cfg : Cfg} {inp : Input} {v : View} {st : State} {w : Work}

/-- The low second battery ends the run at this step. -/
def battExpired (cfg : Cfg) (inp : Input) (st : State) : Prop :=
  inp.batt2Dv.any (· < cfg.battMinDv) ∧
    inp.nowMs - st.battLowSinceMs.getD inp.nowMs ≥ cfg.battHoldMs

section Rules

theorem foreignRule_pending (hp : w.st.pending ≠ none) : foreignRule v w = .next w :=
  if_neg fun h => hp h.1

theorem endedRule_pending (hp : w.st.pending ≠ none) : endedRule v w = .next w :=
  if_neg fun h => hp h.1

theorem faultRule_fresh (hs : v.snap.isSome) (hf : v.hs.faulty = false) :
    faultRule inp v w = .next w := by
  have hn : v.snap ≠ none := Option.isSome_iff_ne_none.mp hs
  simp [faultRule, hf, hn]

theorem batteryRule_cases (cfg : Cfg) (inp : Input) (w : Work) :
    (batteryRule cfg inp w).Meets
      (fun x => battExpired cfg inp w.st ∧ Quiet x.st x.cmds)
      (fun w' => ¬ battExpired cfg inp w.st ∧ w'.cmds = w.cmds ∧
        w'.st.pending = w.st.pending) := by
  refine .ite (fun hlow => .ite (fun hold => ?_) fun hold => ?_) fun hlow => ?_
  · exact ⟨⟨hlow, hold⟩, stop_quiet _ _ _ _⟩
  · exact ⟨fun he => hold he.2, rfl, rfl⟩
  · exact ⟨fun he => hlow he.1, rfl, rfl⟩

theorem select_cmds {R : Exit → Prop} {active : Active} (hv : valid cfg (sensor inp active)) :
    (select cfg inp v active w).Meets R (fun w' => w'.cmds = w.cmds) := by
  simp only [select]
  rcases v.level with _ | level
  · rfl
  · exact .need (valid_value hv) fun t _ => rfl

/-- With the reference valid and a command pending, rules (7) and (8) only pass on. -/
theorem regulation_cmds {P : Work → Prop} (hp : w.st.pending ≠ none)
    (hv : valid cfg inp.ref) :
    (referenceRule cfg inp v w >>= controlRule cfg inp v).Meets
      (fun x => x.cmds = w.cmds) P := by
  have hcontrol : (controlRule cfg inp v w).Meets (fun x => x.cmds = w.cmds) P := by
    rw [controlRule, if_pos hp]
    rfl
  refine .bind (Q := fun w' => w' = w) ?_ fun w' hw' => hw' ▸ hcontrol
  refine .ite (fun hi => .ite (fun hb => ?_) fun _ => .ite (fun hr => ?_) fun hr => ?_) fun hi =>
    .ite (fun _ => ?_) fun _ => rfl
  · exact (select_cmds hb.2).bind fun w' hw' => hw'
  · exact (select_cmds hr.2).bind fun w' hw' => hw'
  · rcases ha : w.st.active
    · exact absurd hv (by simpa [ha, sensor] using hi)
    · exact absurd ⟨ha, hv⟩ hr
  · exact (select_cmds (by simpa using hi)).bind fun w' hw' => hw'

/-- What becomes of a command pending while the heater is fresh and without a fault: only the
owner's OFF and the battery put a stop in its place. -/
theorem sessionRules_pending {P : Work → Prop} (hon : w.st.mode.on)
    (hp : w.st.pending ≠ none) (hen : inp.enabled) (hv : valid cfg inp.ref)
    (hs : v.snap.isSome) (hf : v.hs.faulty = false) :
    (sessionRules cfg inp v w).Meets
      (fun x => (inp.request = some .off ∨ battExpired cfg inp w.st) ∧ Quiet x.st x.cmds ∨
        ¬ (inp.request = some .off ∨ battExpired cfg inp w.st) ∧ x.cmds = w.cmds) P := by
  simp only [sessionRules]
  by_cases hoff : inp.request = some .off
  · have hreq : requestRule cfg inp v w = _ := if_pos ⟨hon, Or.inl hoff⟩
    rw [hreq]
    exact Or.inl ⟨Or.inl hoff, stop_quiet _ _ _ _⟩
  · rw [requestRule_on hon (by simp [hoff, hen])]
    refine backToRef_spec.bind fun w₁ h₁ => ?_
    have hp₁ : w₁.st.pending ≠ none := by rwa [h₁.pending]
    have hon₁ : w₁.st.mode.on := by rwa [h₁.mode]
    rw [stoppingRule_on hon₁, Flow.next_bind, onRules, faultRule_fresh hs hf, Flow.next_bind,
      foreignRule_pending hp₁, Flow.next_bind]
    have hbatt := batteryRule_cases cfg inp w₁
    have heq : battExpired cfg inp w₁.st ↔ battExpired cfg inp w.st := by
      simp only [battExpired, h₁.battLow]
    refine (hbatt.weaken fun x hx => ?_).bind fun w₂ h₂ => ?_
    · exact Or.inl ⟨Or.inr (heq.mp hx.1), hx.2⟩
    · have hp₂ : w₂.st.pending ≠ none := by rwa [h₂.2.2]
      rw [endedRule_pending hp₂, Flow.next_bind]
      refine (regulation_cmds hp₂ hv).weaken fun x hx => Or.inr ⟨?_, ?_⟩
      · rintro (ho | hb)
        · exact hoff ho
        · exact h₂.1 (heq.mpr hb)
      · rw [hx, h₂.2.1, h₁.cmds]

end Rules

/-- The entry into AUTO with a start of the heater, and everything it needs. -/
structure Entry (cfg : Cfg) (r : Rec) : Prop where
  pre : r.pre.mode.on = false
  post : r.post.mode = .auto
  enabled : r.inp.enabled
  request : r.inp.request = some .auto
  link : r.inp.linkReady
  heater : ∃ d age, Reads cfg r.inp d age ∧ d.normal = false ∧ d.permanent = false ∧
    d.operationMode ≠ some 3
  supply : r.inp.campingOn ∨ r.inp.shoreOn
  ignition : r.inp.ignitionOn = some false
  reference : ∃ name t age, r.inp.ref = some ⟨name, some t, some age⟩ ∧
    age ≤ cfg.staleAfterMs ∧ t ≤ r.inp.target + cfg.bandHi
  cmds : ∃ lvl, r.out.cmds = [⟨.runtime, .num r.inp.runtimeMin⟩, ⟨.level, .num lvl⟩, .powerOn]

def Rec.starts (r : Rec) : Prop := Cmd.powerOn ∈ r.out.cmds

/-- The start sent at `first` is still pending. -/
def StartPending (first : ℤ) (st : State) : Prop :=
  ∃ p, st.pending = some p ∧ p.isStart ∧ p.firstMs = first

/-- The step sent a start, or kept the re-send of one back for want of a fresh reading. -/
def Rec.sends (cfg : Cfg) (r : Rec) : Prop :=
  r.starts ∨ r.inp.busy ∧ ∀ d age, ¬ Reads cfg r.inp d age

/-- `since` is the clock of a send among these, newest first, and none after it sent a start. -/
def LastSend (cfg : Cfg) (tr : List Rec) (since : ℤ) : Prop :=
  ∃ newer r older, tr = newer ++ r :: older ∧ r.sends cfg ∧ r.inp.nowMs = since ∧
    ∀ x ∈ newer, ¬ x.starts

/-- A fresh reading, taken after the last send, that still shows the heater off. -/
def ReadOff (cfg : Cfg) (inp : Input) (tr : List Rec) : Prop :=
  ∃ d age since, Reads cfg inp d age ∧ d.normal = false ∧ d.permanent = false ∧
    LastSend cfg tr since ∧ since ≤ inp.readAt age

/-- A re-send of the start sent at the record `start`; `between` are the steps since. -/
structure Resend (cfg : Cfg) (between : List Rec) (start r : Rec) : Prop where
  entry : Entry cfg start
  pending : StartPending start.inp.nowMs r.pre
  still : ∀ x ∈ between, StartPending start.inp.nowMs x.post
  soon : r.inp.nowMs - start.inp.nowMs ≤ cfg.heaterStaleMs
  enabled : r.inp.enabled
  supply : r.inp.campingOn ∨ r.inp.shoreOn
  ignition : r.inp.ignitionOn = some false
  reference : ∃ name t age, r.inp.ref = some ⟨name, some t, some age⟩ ∧ age ≤ cfg.staleAfterMs
  cause : r.inp.busy ∨ ReadOff cfg r.inp (between ++ [start]) ∧
    ∀ x ∈ between, x.starts → x.inp.busy

/-- A record whose `power on`, if it sends one, is an entry or a re-send. -/
def Justified (cfg : Cfg) (older : List Rec) (r : Rec) : Prop :=
  r.starts → Entry cfg r ∨
    ∃ between start rest, older = between ++ start :: rest ∧ Resend cfg between start r

/-- A pending start is re-sent on a reading of continuous operation that the panel started. -/
def PanelStart (cfg : Cfg) (inp : Input) (st : State) : Prop :=
  ∃ p d age, st.pending = some p ∧ p.isStart ∧ Reads cfg inp d age ∧ d.normal = false ∧
    d.permanent = true ∧ p.sinceMs ≤ inp.readAt age ∧
    inp.cmd.map Attempt.result ≠ some .refused ∧ inp.busy = false ∧ inp.linkReady ∧
    inp.nowMs - p.sinceMs ≥ cfg.verifyMs ∧ p.tries < 2 ∧ startRetryOk cfg inp p ∧
    inp.request ≠ some .off ∧ ¬ battExpired cfg inp st

theorem valid_reading {r : Option Sensor} (h : valid cfg r) :
    ∃ name t age, r = some ⟨name, some t, some age⟩ ∧ age ≤ cfg.staleAfterMs := by
  rcases r with _ | ⟨name, _ | t, _ | age⟩ <;> simp [valid] at h ⊢
  exact h

theorem entry_of_started {x : Exit} (he : Enters cfg inp (view cfg inp) st)
    (hs : Started inp x) :
    Entry cfg ⟨inp, st, (out cfg inp (view cfg inp) x).1, (out cfg inp (view cfg inp) x).2⟩ := by
  obtain ⟨hreq, hon, href, hoff, hnight⟩ := he
  obtain ⟨hen, hl, hu, _, hf, _, hsup, hig, hv, hwarm⟩ := refusal_eq_none href
  obtain ⟨lvl, hcmds, hmode, _⟩ := hs
  refine ⟨hon, hmode, hen, hreq, hl, ?_, hsup, hig, ?_, ⟨lvl, hcmds⟩⟩
  · obtain ⟨d, age, hr⟩ := view_reads hu hf
    have hhs := hr.hs
    rw [hoff] at hhs
    split_ifs at hhs with h₁ h₂ h₃
    exact ⟨d, age, hr, by simpa using h₂, by simpa using h₁, h₃⟩
  · obtain ⟨name, t, age, hr, ha⟩ := valid_reading hv
    obtain ⟨t', ht, hle⟩ := hwarm hnight hoff
    rw [hr] at ht
    obtain rfl : t = t' := by simpa using ht
    exact ⟨name, t, age, hr, ha, hle⟩

/-- The start that is pending in a state, seen in the records that led to it. -/
def Since (cfg : Cfg) (tr : List Rec) (p : Pending) : Prop :=
  ∃ between start rest, tr = between ++ start :: rest ∧ Entry cfg start ∧
    start.inp.nowMs = p.firstMs ∧ (∀ x ∈ between, StartPending p.firstMs x.post) ∧
    LastSend cfg (between ++ [start]) p.sinceMs ∧
    (p.tries < 2 → ∀ x ∈ between, x.starts → x.inp.busy)

def History (cfg : Cfg) (tr : List Rec) (st : State) : Prop :=
  ∀ p, st.pending = some p → p.isStart → Since cfg tr p

theorem LastSend.cons {tr : List Rec} {since : ℤ} (h : LastSend cfg tr since) {r : Rec}
    (hr : ¬ r.starts) : LastSend cfg (r :: tr) since := by
  obtain ⟨newer, x, older, rfl, hsends, hx, hn⟩ := h
  refine ⟨r :: newer, x, older, rfl, hsends, hx, ?_⟩
  intro y hy
  rcases List.mem_cons.mp hy with rfl | hy
  · exact hr
  · exact hn y hy

theorem Since.cons_kept {tr : List Rec} {p : Pending} (h : Since cfg tr p) {r : Rec}
    (hr : ¬ r.starts) (hpost : StartPending p.firstMs r.post) : Since cfg (r :: tr) p := by
  obtain ⟨between, start, rest, rfl, he, hf, hb, hl, ht⟩ := h
  refine ⟨r :: between, start, rest, rfl, he, hf, ?_, hl.cons hr, ?_⟩
  · intro x hx
    rcases List.mem_cons.mp hx with rfl | hx
    · exact hpost
    · exact hb x hx
  · intro hlt x hx hs
    rcases List.mem_cons.mp hx with rfl | hx
    · exact absurd hs hr
    · exact ht hlt x hx hs

theorem Since.cons_resent {tr : List Rec} {p : Pending} (h : Since cfg tr p) {r : Rec}
    {tries : ℤ} (hsends : r.sends cfg) (hpost : StartPending p.firstMs r.post)
    (ht : tries < 2 → p.tries < 2 ∧ r.inp.busy) :
    Since cfg (r :: tr) { p with sinceMs := r.inp.nowMs, tries := tries } := by
  obtain ⟨between, start, rest, rfl, he, hf, hb, hl, hbusy⟩ := h
  refine ⟨r :: between, start, rest, rfl, he, hf, ?_, ⟨[], r, _, rfl, hsends, rfl, by simp⟩, ?_⟩
  · intro x hx
    rcases List.mem_cons.mp hx with rfl | hx
    · exact hpost
    · exact hb x hx
  · intro hlt x hx hs
    rcases List.mem_cons.mp hx with rfl | hx
    · exact (ht hlt).2
    · exact hbusy (ht hlt).1 x hx hs

theorem Since.resend {tr : List Rec} {p : Pending} (h : Since cfg tr p) {r : Rec}
    (hp : r.pre.pending = some p) (hs : p.isStart) (ho : startRetryOk cfg r.inp p)
    (hc : r.inp.busy ∨ p.tries < 2 ∧ ∃ d age, Reads cfg r.inp d age ∧ d.normal = false ∧
      d.permanent = false ∧ p.sinceMs ≤ r.inp.readAt age) :
    ∃ between start rest, tr = between ++ start :: rest ∧ Resend cfg between start r := by
  obtain ⟨between, start, rest, rfl, he, hf, hb, hl, hbusy⟩ := h
  simp only [startRetryOk, decide_eq_true_eq] at ho
  obtain ⟨hsoon, hen, hsup, hig, hv⟩ := ho
  refine ⟨between, start, rest, rfl, he, ⟨p, hp, hs, hf.symm⟩, ?_, ?_, hen, hsup, hig,
    valid_reading hv, ?_⟩
  · simpa only [hf] using hb
  · simpa only [hf] using hsoon
  · refine hc.imp_right ?_
    rintro ⟨hlt, d, age, hr, hn, hpm, ha⟩
    exact ⟨⟨d, age, p.sinceMs, hr, hn, hpm, hl, ha⟩, hbusy hlt⟩

theorem powerOn_mem_resend {p : Pending} {e : Snap} {full : Bool} :
    Cmd.powerOn ∈ resendCmds inp p e full ↔ p.isStart := by
  simp only [resendCmds]
  split_ifs with h
  · simp [h.2]
  · rw [List.mem_singleton, Pending.isStart_iff, Cmd.powerOn, Cmd.mk.injEq]
    exact ⟨fun h => ⟨h.1.symm, h.2.symm⟩, fun h => ⟨h.1.symm, h.2.symm⟩⟩

theorem isStart_cases {p : Pending} (h : Core st) (hp : st.pending = some p) (hs : p.isStart) :
    st.mode.on ∧ st.mode ≠ .waiting := by
  have hv := Pending.isStart_iff.mp hs
  have hw : st.mode ≠ .waiting := by
    intro hm
    simp only [Core, hm] at h
    have hl := h.2.2 p hp
    rw [hv.1] at hl
    cases hl
  rcases h.off_of_pending hp hw with ⟨_, ho⟩ | ⟨hon, _⟩
  · rw [hv.2] at ho
    cases ho
  · exact ⟨hon, hw⟩

/-- The step that re-sends a start on its readback: only an owner OFF or the battery stop it
from sending. -/
theorem restart_step {p : Pending} (hc : Core st) (hp : st.pending = some p) (hs : p.isStart)
    (hr : pendingRule cfg inp (view cfg inp) ⟨st, [], none⟩ = .next (resent ⟨st, [], none⟩
      { p with sinceMs := inp.nowMs, tries := 2 } [⟨p.what, p.value⟩]))
    (ho : startRetryOk cfg inp p) (hf : (view cfg inp).hs.faulty = false)
    (hsnap : (view cfg inp).snap.isSome) :
    ∃ x, step cfg inp st = some (out cfg inp (view cfg inp) x) ∧
      ((inp.request = some .off ∨ battExpired cfg inp st) ∧ Quiet x.st x.cmds ∨
        ¬ (inp.request = some .off ∨ battExpired cfg inp st) ∧ x.cmds = [.powerOn]) := by
  obtain ⟨hon, hm⟩ := isStart_cases hc hp hs
  have hcmd : (⟨p.what, p.value⟩ : Cmd) = .powerOn := by
    rw [(Pending.isStart_iff.mp hs).1, (Pending.isStart_iff.mp hs).2]
    rfl
  simp only [startRetryOk, decide_eq_true_eq] at ho
  rw [hcmd] at hr
  exact step_of_sessionRules hr hm
    (sessionRules_pending hon (by simp [resent]) ho.2.1 ho.2.2.2.2 hsnap hf)

theorem applied_start {p : Pending} {snap : Snap} (h : p.isStart) :
    applied p snap = snap.normal := by
  obtain ⟨hw, hv⟩ := Pending.isStart_iff.mp h
  simp [applied, hw, hv]

theorem pendingRule_start {x : Exit} {tr : List Rec} (hw : WellFormed st)
    (hh : History cfg tr st) (hn : ¬ PanelStart cfg inp st)
    (hp : pendingRule cfg inp (view cfg inp) ⟨st, [], none⟩ = .next w)
    (hm : st.mode ≠ .waiting)
    (hcmds : x.cmds = w.cmds ∨ (view cfg inp).snap = none ∧ x.cmds = [])
    (hpend : x.st.pending = w.st.pending)
    (hx : step cfg inp st = some (out cfg inp (view cfg inp) x)) :
    let r : Rec := ⟨inp, st, (out cfg inp (view cfg inp) x).1, (out cfg inp (view cfg inp) x).2⟩
    History cfg (r :: tr) r.post ∧ Justified cfg tr r := by
  intro r
  have hmem {c : Cmd} (hc : c ∈ r.out.cmds) : c ∈ w.cmds := by
    change c ∈ x.cmds at hc
    rcases hcmds with hc' | ⟨-, hc'⟩ <;> rw [hc'] at hc
    · exact hc
    · cases hc
  have hpost : r.post.pending = w.st.pending := hpend
  have hc := pendingRule_cases cfg inp (view cfg inp) hw.core
  rw [hp] at hc
  cases hc with
  | idle hp₀ =>
    refine ⟨fun p hq => ?_, fun hs => absurd (hmem hs) (by simp)⟩
    rw [hpost, hp₀] at hq
    cases hq
  | preset hm' => exact absurd hm' hm
  | landed =>
    refine ⟨fun p hq => ?_, fun hs => absurd (hmem hs) (by simp)⟩
    rw [hpost] at hq
    cases hq
  | keep =>
    have hs : ¬ r.starts := fun hs => absurd (hmem hs) (by simp)
    refine ⟨fun p hq hst => ?_, fun h => absurd h hs⟩
    have hq' : st.pending = some p := hpost ▸ hq
    exact (hh p hq' hst).cons_kept hs ⟨p, hq, hst, rfl⟩
  | @busy p e hm' hp' he hb hl ho =>
    refine ⟨fun q hq hst => ?_, fun hs => Or.inr ?_⟩
    · have hq' : q = { p with sinceMs := inp.nowMs } := Option.some.inj (hq.symm.trans hpost)
      subst hq'
      have hsends : r.sends cfg := by
        rcases hcmds with hc' | ⟨hnone, -⟩
        · refine Or.inl (show Cmd.powerOn ∈ x.cmds from ?_)
          rw [hc']
          exact powerOn_mem_resend.mpr hst
        · refine Or.inr ⟨hb, fun d age hread => ?_⟩
          have hsome := hread.snap_isSome
          rw [hnone] at hsome
          cases hsome
      exact (hh p hp' hst).cons_resent (r := r) hsends ⟨_, hpost, hst, rfl⟩ fun hlt => ⟨hlt, hb⟩
    · have hst : p.isStart := powerOn_mem_resend.mp (hmem hs)
      exact (hh p hp' hst).resend (r := r) hp' hst (ho hst) (Or.inl hb)
  | @retry p e snap hm' hp' he hs ha hf hr hb hl hv ht ho =>
    refine ⟨fun q hq hst => ?_, fun hstarts => Or.inr ?_⟩
    · have hq' : q = { p with sinceMs := inp.nowMs, tries := 2 } :=
        Option.some.inj (hq.symm.trans hpost)
      subst hq'
      have hstarts : r.starts := by
        rcases hcmds with hc' | ⟨hnone, -⟩
        · show Cmd.powerOn ∈ x.cmds
          rw [hc', resent, List.mem_singleton, Cmd.powerOn, Cmd.mk.injEq]
          have hv := Pending.isStart_iff.mp hst
          exact ⟨hv.1.symm, hv.2.symm⟩
        · rw [(post_eq_some hs).1] at hnone
          cases hnone
      exact (hh p hp' hst).cons_resent (r := r) (Or.inl hstarts) ⟨_, hpost, hst, rfl⟩
        fun hlt => absurd hlt (by simp)
    · have hst : p.isStart := by
        have hc := hmem hstarts
        rw [resent, List.mem_singleton, Cmd.powerOn, Cmd.mk.injEq] at hc
        exact Pending.isStart_iff.mpr ⟨hc.1.symm, hc.2.symm⟩
      obtain ⟨hsnap, hsince⟩ := post_eq_some hs
      have hsome : (view cfg inp).snap.isSome := by simp [hsnap]
      obtain ⟨d, age, hread⟩ := snap_reads hsnap hf
      obtain ⟨hnorm, hperm⟩ := hread.snap hsnap
      have hnormal : d.normal = false := by rw [← hnorm, ← applied_start hst, ha]
      have hat : p.sinceMs ≤ inp.readAt age := hread.readSince.mp hsince
      obtain ⟨x', hx', hsent⟩ := restart_step hw.core hp' hst hp (ho hst) hf hsome
      have hcm : x'.cmds = x.cmds := by
        rw [hx, Option.some.injEq] at hx'
        exact congrArg (Out.cmds ∘ Prod.fst) hx'.symm
      rcases hsent with ⟨_, hq⟩ | ⟨hno, _⟩
      · exact absurd (hcm ▸ hstarts) hq.1
      · have hpermanent : d.permanent = false := by
          by_contra hpm
          refine hn ⟨p, d, age, hp', hst, hread, hnormal, by simpa using hpm, hat, hr, hb, hl, hv,
            ht, ho hst, fun h => hno (Or.inl h), fun h => hno (Or.inr h)⟩
        exact (hh p hp' hst).resend (r := r) hp' hst (ho hst)
          (Or.inr ⟨ht, d, age, hread, hnormal, hpermanent, hat⟩)

theorem step_history {tr : List Rec} {o : Out} {st' : State} (hw : WellFormed st)
    (hh : History cfg tr st) (hn : ¬ PanelStart cfg inp st)
    (hs : step cfg inp st = some (o, st')) :
    History cfg (⟨inp, st, o, st'⟩ :: tr) st' ∧ Justified cfg tr ⟨inp, st, o, st'⟩ := by
  obtain ⟨x, hx, hstep⟩ := step_spec cfg inp hw
  obtain ⟨rfl, rfl⟩ := Prod.mk.inj (Option.some.inj (hs.symm.trans hx))
  rcases hstep.start with hq | ⟨hen, hst⟩ | ⟨w, hp, hm, hcmds, hpend⟩
  · refine ⟨fun p hp hst => ?_, fun hs => absurd hs hq.1⟩
    have hns := hq.2 p hp
    rw [hst] at hns
    cases hns
  · have he := entry_of_started hen hst
    refine ⟨fun p hp _ => ?_, fun _ => Or.inl he⟩
    obtain ⟨lvl, hcmds, _, hpend⟩ := hst
    have hstarts : Cmd.powerOn ∈ x.cmds := by
      rw [hcmds]
      simp
    have hp' : p = pend .power .on inp.nowMs none none := Option.some.inj (hp.symm.trans hpend)
    subst hp'
    exact ⟨[], _, tr, rfl, he, rfl, by simp, ⟨[], _, [], rfl, Or.inl hstarts, rfl, by simp⟩,
      by simp⟩
  · exact pendingRule_start hw hh hn hp hm hcmds hpend hx

theorem panelStart_sends (hw : WellFormed st) (h : PanelStart cfg inp st) :
    ∃ x, step cfg inp st = some (out cfg inp (view cfg inp) x) ∧ x.cmds = [.powerOn] := by
  obtain ⟨p, d, age, hp, hs, hread, hnorm, hperm, hat, href, hb, hl, hv, ht, ho, hoff, hbatt⟩ := h
  have hc := hw.core
  obtain ⟨snap, hsnap⟩ := Option.isSome_iff_exists.mp hread.snap_isSome
  obtain ⟨hon, hm⟩ := isStart_cases hc hp hs
  have hwhat := (Pending.isStart_iff.mp hs).1
  have hval := (Pending.isStart_iff.mp hs).2
  have hpost : post inp (view cfg inp) p = some snap := by
    simp [post, hsnap, hread.readSince.mpr hat]
  have happ : applied p snap = false := by rw [applied_start hs, (hread.snap hsnap).1, hnorm]
  have hr : pendingRule cfg inp (view cfg inp) ⟨st, [], none⟩ = .next (resent ⟨st, [], none⟩
      { p with sinceMs := inp.nowMs, tries := 2 } [⟨p.what, p.value⟩]) := by
    have hcases := pendingRule_cases cfg inp (view cfg inp) hc
    generalize pendingRule cfg inp (view cfg inp) ⟨st, [], none⟩ = m at hcases
    cases hcases with
    | idle hp' => simp [hp] at hp'
    | preset hm' => exact absurd hm' hm
    | @moved q e hm' hp' he hmv =>
      obtain rfl : p = q := Option.some.inj (hp.symm.trans hp')
      simp [movedBy, hwhat] at hmv
    | @landed q s hm' hp' hs' ha =>
      obtain rfl : p = q := Option.some.inj (hp.symm.trans hp')
      obtain rfl : snap = s := Option.some.inj (hpost.symm.trans hs')
      rw [happ] at ha
      cases ha
    | @keep q e hm' hp' he hmv hk =>
      obtain rfl : p = q := Option.some.inj (hp.symm.trans hp')
      rcases hk with hk | hk | hk
      · rw [hread.faulty] at hk
        cases hk
      · rw [hwhat] at hk
        cases hk.1
      · exact absurd ⟨hl, hv, by simp [hpost]⟩ hk
    | @failed q hm' hp' ho' hf =>
      obtain rfl : p = q := Option.some.inj (hp.symm.trans hp')
      rcases hf with hf | hf | hf
      · exact absurd hf href
      · omega
      · exact absurd ho hf.2
    | @dropped q hm' hp' hv' =>
      obtain rfl : p = q := Option.some.inj (hp.symm.trans hp')
      rw [hval] at hv'
      cases hv'
    | busy hm' hp' he hb' =>
      rw [hb] at hb'
      cases hb'
    | @retry q e s hm' hp' =>
      obtain rfl : p = q := Option.some.inj (hp.symm.trans hp')
      rfl
  obtain ⟨x, hx, hsent⟩ := restart_step hc hp hs hr ho hread.faulty hread.snap_isSome
  rcases hsent with ⟨hno, _⟩ | ⟨_, hcmds⟩
  · rcases hno with hno | hno
    · exact absurd hno hoff
    · exact absurd hno hbatt
  · exact ⟨x, hx, hcmds⟩

theorem panelStart_unjustified {tr : List Rec} {o : Out} {st' : State} (hw : WellFormed st)
    (h : PanelStart cfg inp st) (hs : step cfg inp st = some (o, st')) :
    ¬ Justified cfg tr ⟨inp, st, o, st'⟩ := by
  intro hj
  obtain ⟨x, hx, hcmds⟩ := panelStart_sends hw h
  obtain ⟨rfl, rfl⟩ := Prod.mk.inj (Option.some.inj (hs.symm.trans hx))
  have hstarts : Cmd.powerOn ∈ x.cmds := by simp [hcmds]
  obtain ⟨p, d, age, hp, hst, hread, _, hperm, _, _, hb, _⟩ := h
  rcases hj hstarts with he | ⟨between, start, rest, _, hr⟩
  · have hon := (isStart_cases hw.core hp hst).1
    have hpre := he.pre
    rw [hon] at hpre
    cases hpre
  · rcases hr.cause with hbusy | ⟨⟨d', age', _, hread', _, hperm', _⟩, _⟩
    · rw [hb] at hbusy
      cases hbusy
    · obtain rfl : d = d' := Option.some.inj (hread.heater.symm.trans hread'.heater)
      rw [hperm] at hperm'
      cases hperm'

theorem run_history {tr : List Rec} (hr : Run (step cfg) initialState tr st)
    (hn : ∀ r ∈ tr, ¬ PanelStart cfg r.inp r.pre) :
    History cfg tr st ∧ ∀ newer r older, tr = newer ++ r :: older → Justified cfg older r := by
  induction hr with
  | nil =>
    refine ⟨fun p hp => ?_, fun newer r older h => ?_⟩
    · cases hp
    · simp at h
  | @cons tr s s' i o hr hs ih =>
    obtain ⟨hh, hj⟩ := ih fun r hr' => hn r (List.mem_cons_of_mem _ hr')
    have hw := reachable_wellFormed hr.reachable
    obtain ⟨hh', hj'⟩ := step_history hw hh (hn _ List.mem_cons_self) hs
    refine ⟨hh', fun newer r older h => ?_⟩
    rcases newer with _ | ⟨x, newer⟩
    · obtain ⟨rfl, rfl⟩ := List.cons.inj h
      exact hj'
    · exact hj newer r older (List.cons.inj h).2

/-- In a run every `power on` is an entry or a re-send of a start that still waits, exactly
as long as no step meets `PanelStart`. -/
theorem run_starts_justified (cfg : Cfg) (tr : List Rec) (st : State)
    (hr : Run (step cfg) initialState tr st) :
    (∀ newer r older, tr = newer ++ r :: older → Justified cfg older r) ↔
      ∀ r ∈ tr, ¬ PanelStart cfg r.inp r.pre := by
  refine ⟨fun hj r hmem hp => ?_, fun hn => (run_history hr hn).2⟩
  obtain ⟨newer, older, rfl⟩ := List.append_of_mem hmem
  obtain ⟨hold, hs⟩ := hr.split newer
  exact panelStart_unjustified (reachable_wellFormed hold.reachable) hp hs (hj newer r older rfl)

/-- A request to a cold cabin with the heater off: the start of the runs below. -/
def startInput : Input where
  nowMs := 0
  enabled := true
  request := some .auto
  target := 2000
  runtimeMin := 120
  ref := some ⟨"cabin", some 1500, some 0⟩
  backup := none
  out := none
  outsideOn := false
  heater := some ⟨some 1, some 0, none, none, none, none, none⟩
  heaterAgeMs := some 0
  linkReady := true
  campingOn := true
  shoreOn := false
  ignitionOn := some false
  batt2Dv := some 128
  cmd := none
  night := false
  known := ⟨true, false, some false⟩

/-- Ten seconds later the panel has switched the heater to continuous operation. -/
def panelInput : Input :=
  { startInput with
    nowMs := 10000
    request := none
    heater := some ⟨some 1, some 5, none, none, some 1, some 0, none⟩
    cmd := some ⟨.power, .ok⟩ }

theorem run_starts_justified_cold :
    ∃ tr st, Run (step thermoDefaults) initialState tr st ∧
      ((∀ newer r older, tr = newer ++ r :: older → Justified thermoDefaults older r) ↔
        ∀ r ∈ tr, ¬ PanelStart thermoDefaults r.inp r.pre) := by
  have hr := (run_of_exec (step thermoDefaults) initialState [startInput] rfl).1
  exact ⟨_, _, hr, run_starts_justified thermoDefaults _ _ hr⟩

/-- The panel's continuous operation draws a second `power on`. -/
theorem panel_restarted :
    ∃ tr st, Run (step thermoDefaults) initialState tr st ∧
      tr.map Record.inp = [panelInput, startInput] ∧
      ∃ newer r older, tr = newer ++ r :: older ∧ ¬ Justified thermoDefaults older r := by
  obtain ⟨hr, hi⟩ := run_of_exec (step thermoDefaults) initialState [panelInput, startInput] rfl
  obtain ⟨hold, hs⟩ := hr.split []
  refine ⟨_, _, hr, hi, [], _, _, rfl, ?_⟩
  have hread : Reads thermoDefaults panelInput ⟨some 1, some 5, none, none, some 1,
      some 0, none⟩ 0 :=
    ⟨rfl, rfl, by decide, by decide, rfl, rfl⟩
  refine panelStart_unjustified (reachable_wellFormed hold.reachable) ?_ hs
  refine ⟨_, _, 0, rfl, rfl, hread, rfl, rfl, ?_⟩
  simp only [battExpired]
  decide

end OpenCalifornia.Thermostat
