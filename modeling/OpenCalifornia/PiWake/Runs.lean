import OpenCalifornia.PiWake.State

/-! # What the two lines do along a run

The records of a run stand newest first, so that what came before one is behind it. -/

namespace OpenCalifornia.PiWake
open Lib Lib.Bits Lib.Machine

variable {s s' : State} {evs evs' : List Ev} {ign : Ign} {e : Energy} {now up : Time}

/-- Whether the wake line and the halt line are low after a call. -/
def Ev.set (l : Bool × Bool) : Ev → Bool × Bool
  | .wake _ => (true, l.2)
  | .wakeFree => (false, l.2)
  | .halt _ => (l.1, true)
  | .haltFree => (l.1, false)

def levels (l : Bool × Bool) (evs : List Ev) : Bool × Bool := evs.foldl Ev.set l

/-- At no point of `evs` both lines are low. -/
def Apart (l : Bool × Bool) (evs : List Ev) : Prop := ∀ p, p <+: evs → levels l p ≠ (true, true)

theorem levels_append (l : Bool × Bool) (evs evs' : List Ev) :
    levels l (evs ++ evs') = levels (levels l evs) evs' := List.foldl_append

theorem Apart.append {l : Bool × Bool} (h : Apart l evs) (h' : Apart (levels l evs) evs') :
    Apart l (evs ++ evs') := by
  intro p hp
  rcases List.prefix_or_prefix_of_prefix hp (List.prefix_append evs evs') with hp' | ⟨q, rfl⟩
  · exact h p hp'
  · rw [levels_append]
    exact h' q ((List.prefix_append_right_inj evs).mp hp)

theorem apart_single {l : Bool × Bool} (h : l ≠ (true, true)) (ev : Ev)
    (hev : ev.set l ≠ (true, true)) : Apart l [ev] := by
  rintro p ⟨rest, hrest⟩
  cases p with
  | nil => exact h
  | cons x p =>
    obtain ⟨rfl, hp⟩ := List.cons.inj hrest
    rw [(List.append_eq_nil_iff.mp hp).1]
    exact hev

def State.lines (s : State) : Bool × Bool := (s.low, s.hlow)

/-- The calls bring the lines to where the state has them, never both low. -/
structure Drives (s : State) (r : State × List Ev) : Prop where
  levels : levels s.lines r.2 = r.1.lines
  apart : s.lines ≠ (true, true) → Apart s.lines r.2

theorem drives_keep (h : s'.lines = s.lines) : Drives s (s', []) :=
  ⟨h.symm, fun hne p hp => by rwa [List.prefix_nil.mp hp]⟩

theorem Drives.ends (h : Drives s (s', evs)) (hne : s.lines ≠ (true, true)) :
    s'.lines ≠ (true, true) :=
  h.levels ▸ h.apart hne evs (List.prefix_refl evs)

theorem Drives.comp {s₁ s₂ : State} (h : Drives s (s₁, evs)) (h' : Drives s₁ (s₂, evs')) :
    Drives s (s₂, evs ++ evs') := by
  refine ⟨by rw [levels_append, h.levels, h'.levels], fun hne => (h.apart hne).append ?_⟩
  rw [h.levels]
  exact h'.apart (h.ends hne)

theorem wakePulse_eq {ms : BitVec 32} (h : s.wakePulse ms up = some s') :
    s.lines = (false, false) ∧ s' = { s with
      low := true
      releaseAt := up + ms.zeroExtend 64
      parkedAt := up
      halted := false } := by
  rw [State.wakePulse] at h
  split_ifs at h with hbusy
  rw [not_or, not_or] at hbusy
  exact ⟨by simp [State.lines, hbusy.1, hbusy.2.1], (Option.some.inj h).symm⟩

theorem haltPulse_eq {ms : BitVec 32} (h : s.haltPulse ms up = some s') :
    s.lines = (false, false) ∧ s' = { s with
      hlow := true
      hreleaseAt := up + ms.zeroExtend 64
      halted := true } := by
  rw [State.haltPulse] at h
  split_ifs at h with hbusy
  rw [not_or, not_or] at hbusy
  exact ⟨by simp [State.lines, hbusy.1, hbusy.2.1], (Option.some.inj h).symm⟩

theorem drives_wake {reason : WakeReason} (h : s.lines = (false, false))
    (h' : s'.lines = (true, false)) : Drives s (s', [.wake reason]) := by
  refine ⟨?_, fun hne => apart_single hne _ ?_⟩
  · rw [h, h']
    rfl
  · rw [h]
    simp [Ev.set]

theorem drives_halt {reason : HaltReason} (h : s.lines = (false, false))
    (h' : s'.lines = (false, true)) : Drives s (s', [.halt reason]) := by
  refine ⟨?_, fun hne => apart_single hne _ ?_⟩
  · rw [h, h']
    rfl
  · rw [h]
    simp [Ev.set]

theorem release_drives (s : State) (now : Time) : Drives s (s.release now) := by
  have hwake : Drives s (if s.low ∧ s.releaseAt ≤ now then ({ s with low := false }, [.wakeFree])
      else (s, [])) := by
    split_ifs with hdue
    · exact ⟨rfl, fun hne => apart_single hne _ (by simp [Ev.set])⟩
    · exact drives_keep rfl
  rw [State.release]
  generalize (if s.low ∧ s.releaseAt ≤ now then ({ s with low := false }, [Ev.wakeFree])
      else (s, [])) = r at hwake ⊢
  obtain ⟨s₁, freed⟩ := r
  dsimp only
  split_ifs with hdue
  · refine hwake.comp ⟨rfl, fun hne => apart_single hne _ (by simp [Ev.set])⟩
  · exact hwake

theorem look_lines (s : State) (ign : Ign) (e : Energy) (now : Time) :
    (s.look ign e now).lines = s.lines := by
  cases ign with
  | off =>
    rw [State.look]
    split_ifs <;> rfl
  | on | unknown => rfl

theorem onEdge_drives (s : State) (now up : Time) : Drives s (s.onEdge now up) := by
  rw [State.onEdge]
  split_ifs with hgap
  · exact drives_keep rfl
  · cases hpulse : s.wakePulse pulseMs up with
    | none => exact drives_keep rfl
    | some s' =>
      obtain ⟨hfree, rfl⟩ := wakePulse_eq hpulse
      refine drives_wake hfree ?_
      simp [State.lines, (Prod.mk.inj hfree).2]

theorem park_drives (s : State) (now up : Time) : Drives s (s.park now up) := by
  rw [State.park]
  split_ifs with hdue
  · cases hpulse : s.haltPulse haltPulseMs up with
    | none => exact drives_keep rfl
    | some s' =>
      obtain ⟨hfree, rfl⟩ := haltPulse_eq hpulse
      refine drives_halt hfree ?_
      simp [State.lines, (Prod.mk.inj hfree).1]
  · exact drives_keep rfl

theorem step_eq (s : State) (ign : Ign) (e : Energy) (now up : Time) :
    s.step ign e now up =
      let woke := if (ign = .on ∧ s.prev ≠ .on) ∧ (s.look ign e now).on
        then (s.look ign e now).onEdge now up else (s.look ign e now, [])
      ((woke.1.park now up).1, woke.2 ++ (woke.1.park now up).2) := rfl

theorem step_drives (s : State) (ign : Ign) (e : Energy) (now up : Time) :
    Drives s (s.step ign e now up) := by
  rw [step_eq]
  have hlook := drives_keep (look_lines s ign e now)
  dsimp only
  split_ifs
  · exact (hlook.comp (onEdge_drives _ now up)).comp (park_drives _ now up)
  · exact hlook.comp (park_drives _ now up)

theorem apply_drives (s : State) (op : Op) : Drives s (s.apply op) := by
  cases op with
  | tick ready ign e now up => exact (release_drives s now).comp (step_drives _ _ e now up)
  | wake ms up =>
    rw [State.apply]
    cases hpulse : s.wakePulse ms up with
    | none => exact drives_keep rfl
    | some s' =>
      obtain ⟨hfree, rfl⟩ := wakePulse_eq hpulse
      exact drives_wake hfree (by simp [State.lines, (Prod.mk.inj hfree).2])
  | halt ms up =>
    rw [State.apply]
    cases hpulse : s.haltPulse ms up with
    | none => exact drives_keep rfl
    | some s' =>
      obtain ⟨hfree, rfl⟩ := haltPulse_eq hpulse
      exact drives_halt hfree (by simp [State.lines, (Prod.mk.inj hfree).1])
  | setEnabled on saved =>
    rw [State.apply, State.setEnabled]
    split_ifs <;> exact drives_keep rfl
  | setMin min saved =>
    rw [State.apply, State.setMin]
    split_ifs <;> exact drives_keep rfl
  | setSoc pct saved =>
    rw [State.apply, State.setSoc]
    split_ifs <;> exact drives_keep rfl

/-- No line is low, or it is due. -/
def State.free (s : State) (now : Time) : Prop :=
  (s.low = true → s.releaseAt ≤ now) ∧ (s.hlow = true → s.hreleaseAt ≤ now)

def Ev.isAutoHalt (ev : Ev) : Bool := ev = .halt .timer ∨ ev = .halt .battery

/-- What a tick with this reading does. -/
structure Ticked (s : State) (reading : Ign) (now : Time) (r : State × List Ev) : Prop where
  prev : r.1.prev = if reading = .unknown then s.prev else reading
  driving : r.1.driving = true ↔ r.1.prev = .on
  auto : .wake .ignition ∈ r.2 ∧ r.1.autoEver = true ∧ r.1.autoAt = now ∨
    .wake .ignition ∉ r.2 ∧ r.1.autoEver = s.autoEver ∧ r.1.autoAt = s.autoAt
  halts : ∀ ev ∈ r.2, ev.isAutoHalt = true →
    s.halted = false ∧ r.1.halted = true ∧ r.1.driving = false
  once : r.2.countP Ev.isAutoHalt ≤ 1
  stands : s.halted = true → reading ≠ .on → r.1.halted = true
  woken : reading = .on → s.prev ≠ .on → s.on = true →
    (s.autoEver = true → minGapMs ≤ now - s.autoAt) → s.free now → .wake .ignition ∈ r.2

theorem release_eq (s : State) (now : Time) : ∃ low hlow freed,
    s.release now = ({ s with low, hlow }, freed) ∧
    (∀ ev ∈ freed, ev = .wakeFree ∨ ev = .haltFree) ∧
      (s.free now → low = false ∧ hlow = false) := by
  rw [State.release]
  by_cases hl : s.low = true ∧ s.releaseAt ≤ now
  · rw [if_pos hl]
    dsimp only
    split_ifs with hh
    · exact ⟨false, false, _, rfl, by simp, fun _ => ⟨rfl, rfl⟩⟩
    · exact ⟨false, s.hlow, _, rfl, by simp, fun hfree => ⟨rfl, by grind [State.free]⟩⟩
  · rw [if_neg hl]
    dsimp only
    split_ifs with hh
    · exact ⟨s.low, false, _, rfl, by simp, fun hfree => ⟨by grind [State.free], rfl⟩⟩
    · exact ⟨s.low, s.hlow, _, rfl, by simp, fun hfree => by grind [State.free]⟩

theorem park_cases (s : State) (now up : Time) : s.park now up = (s, []) ∨
    s.driving = false ∧ s.halted = false ∧ ∃ hreleaseAt ev, ev.isAutoHalt = true ∧
      s.park now up = ({ s with hlow := true, hreleaseAt, halted := true }, [ev]) := by
  rw [State.park]
  split_ifs with hdue
  · cases hpulse : s.haltPulse haltPulseMs up with
    | none => exact Or.inl rfl
    | some s' =>
      obtain ⟨-, rfl⟩ := haltPulse_eq hpulse
      refine Or.inr ⟨by simpa using hdue.1, by simpa using hdue.2.1, _, _, ?_, rfl⟩
      split_ifs <;> rfl
  · exact Or.inl rfl

theorem onEdge_cases (s : State) (now up : Time) :
    s.onEdge now up = (s, []) ∧
      ¬ ((s.autoEver = true → minGapMs ≤ now - s.autoAt) ∧ s.low = false ∧ s.hlow = false) ∨
    ∃ releaseAt, s.onEdge now up = ({ s with
      low := true
      releaseAt
      parkedAt := up
      halted := false
      autoEver := true
      autoAt := now }, [.wake .ignition]) := by
  rw [State.onEdge]
  split_ifs with hgap
  · refine Or.inl ⟨rfl, fun h => ?_⟩
    exact absurd (h.1 hgap.1) (BitVec.not_le.mpr hgap.2)
  · cases hpulse : s.wakePulse pulseMs up with
    | none =>
      refine Or.inl ⟨rfl, fun h => ?_⟩
      rw [State.wakePulse, h.2.1, h.2.2, if_neg (by decide)] at hpulse
      cases hpulse
    | some s' =>
      obtain ⟨-, rfl⟩ := wakePulse_eq hpulse
      exact Or.inr ⟨_, rfl⟩

theorem park_driving (h : s.driving = true) (now up : Time) : s.park now up = (s, []) := by
  rcases park_cases s now up with hpark | ⟨hoff, -⟩
  · exact hpark
  · rw [h] at hoff
    cases hoff

theorem parked_ticked {low hlow batt driving : Bool} {parkedAt : Time} {prev : Ign}
    {freed : List Ev} (hfreed : ∀ ev ∈ freed, ev = .wakeFree ∨ ev = .haltFree) {reading : Ign}
    (hreading : reading ≠ .on) (hprev : prev = if reading = .unknown then s.prev else reading)
    (hdriving : driving = true ↔ prev = .on) (now up : Time)
    (hs' : s' = { s with low, hlow, batt, driving, parkedAt, prev }) :
    Ticked s reading now ((s'.park now up).1, freed ++ (s'.park now up).2) := by
  have hnone : ∀ ev ∈ freed, ev.isAutoHalt = false ∧ ev ≠ .wake .ignition := by
    intro ev hev
    rcases hfreed ev hev with rfl | rfl <;> exact ⟨by decide, by decide⟩
  have hcount : freed.countP Ev.isAutoHalt = 0 :=
    List.countP_eq_zero.mpr fun ev hev => by simp [(hnone ev hev).1]
  have hwake : Ev.wake .ignition ∉ freed := fun hmem => (hnone _ hmem).2 rfl
  subst hs'
  rcases park_cases { s with low, hlow, batt, driving, parkedAt, prev } now up with hpark |
    ⟨hoff, hhalted, hreleaseAt, ev, hev, hpark⟩
  · rw [hpark, List.append_nil]
    refine ⟨hprev, hdriving, Or.inr ⟨hwake, rfl, rfl⟩, fun ev hev hauto => ?_, ?_,
      fun h _ => h, fun hon => absurd hon hreading⟩
    · exact absurd hauto (by simp [(hnone ev hev).1])
    · rw [hcount]
      exact Nat.zero_le 1
  · rw [hpark]
    have hne : ev ≠ .wake .ignition := by
      rintro rfl
      exact absurd hev (by decide)
    refine ⟨hprev, hdriving, Or.inr ⟨?_, rfl, rfl⟩, fun _ _ _ => ⟨hhalted, rfl, hoff⟩, ?_,
      fun _ _ => rfl, fun hon => absurd hon hreading⟩
    · rw [List.mem_append, List.mem_singleton]
      exact fun hmem => hmem.elim hwake fun heq => hne heq.symm
    · have hone : [ev].countP Ev.isAutoHalt = 1 := by simp [hev]
      simp only [List.countP_append, hcount, hone, Nat.zero_add, Nat.le_refl]

theorem driving_ticked {freed : List Ev} (hfreed : ∀ ev ∈ freed, ev = .wakeFree ∨ ev = .haltFree)
    (hprev : s'.prev = .on) (hdriving : s'.driving = true)
    (hauto : evs = [.wake .ignition] ∧ s'.autoEver = true ∧ s'.autoAt = now ∨
      evs = [] ∧ s'.autoEver = s.autoEver ∧ s'.autoAt = s.autoAt)
    (hwoken : s.prev ≠ .on → s.on = true → (s.autoEver = true → minGapMs ≤ now - s.autoAt) →
      s.free now → evs ≠ []) : Ticked s .on now (s', freed ++ evs) := by
  have hnone : ∀ ev ∈ freed, ev.isAutoHalt = false ∧ ev ≠ .wake .ignition := by
    intro ev hev
    rcases hfreed ev hev with rfl | rfl <;> exact ⟨by decide, by decide⟩
  have hno : ∀ ev ∈ freed ++ evs, ev.isAutoHalt = false := by
    intro ev hev
    rcases List.mem_append.mp hev with hev | hev
    · exact (hnone ev hev).1
    · rcases hauto with ⟨rfl, -⟩ | ⟨rfl, -⟩
      · rw [List.mem_singleton.mp hev]
        rfl
      · cases hev
  refine ⟨hprev, by rw [hdriving, hprev]; simp, ?_, fun ev hev h => ?_, ?_, fun _ h => absurd rfl h,
    fun _ hedge hon hgap hfree => ?_⟩
  · rcases hauto with ⟨rfl, hauto⟩ | ⟨rfl, hauto⟩
    · exact Or.inl ⟨by simp, hauto⟩
    · rw [List.append_nil]
      exact Or.inr ⟨fun hmem => (hnone _ hmem).2 rfl, hauto⟩
  · exact absurd h (by simp [hno ev hev])
  · rw [List.countP_eq_zero.mpr fun ev hev => by simp [hno ev hev]]
    exact Nat.zero_le 1
  · rcases hauto with ⟨rfl, -⟩ | ⟨rfl, -⟩
    · simp
    · exact absurd rfl (hwoken hedge hon hgap hfree)

theorem tick_ticked (h : s.driving = true ↔ s.prev = .on) (ready : Bool) (ign : Ign) (e : Energy)
    (now up : Time) :
    Ticked s (if ready then ign else .unknown) now (s.tick ready ign e now up) := by
  obtain ⟨low, hlow, freed, hrelease, hfreed, hfree⟩ := release_eq s now
  rw [State.tick, hrelease]
  dsimp only
  rw [step_eq]
  generalize (if ready = true then ign else .unknown) = reading
  cases reading with
  | unknown => exact parked_ticked hfreed (by decide) rfl h now up rfl
  | off =>
    rw [if_neg fun hcond => (by cases hcond.1.1)]
    have hlook : ∀ s : State, s.look .off e now = { s with
        driving := if s.prev = .off then s.driving else false
        parkedAt := if s.prev = .off then s.parkedAt else now
        prev := .off
        batt := battLow e s.phSoc } := by
      intro s
      rw [State.look]
      by_cases hprev : s.prev = .off
      · simp only [hprev, ne_eq, not_true_eq_false, if_false, if_true]
      · simp only [hprev, ne_eq, not_false_eq_true, if_true, if_false]
    rw [hlook]
    refine parked_ticked hfreed (by decide) rfl ?_ now up rfl
    dsimp only
    by_cases hprev : s.prev = .off
    · rw [if_pos hprev, h, hprev]
      simp
    · rw [if_neg hprev]
      simp
  | on =>
    have hlook : ∀ s : State, s.look .on e now = { s with
        driving := true
        halted := false
        prev := .on
        batt := battLow e s.phSoc } := fun s => rfl
    rw [hlook]
    split_ifs with hcond
    · rcases onEdge_cases { { s with low, hlow } with
        driving := true
        halted := false
        prev := .on
        batt := battLow e s.phSoc } now up with ⟨hquiet, hnot⟩ | ⟨releaseAt, hpulse⟩
      · dsimp only at hquiet hnot ⊢
        rw [hquiet]
        dsimp only
        rw [park_driving rfl]
        refine driving_ticked hfreed rfl rfl (Or.inr ⟨rfl, rfl, rfl⟩) fun _ _ hgap hf => ?_
        exact absurd ⟨hgap, hfree hf⟩ hnot
      · dsimp only at hpulse ⊢
        rw [hpulse]
        dsimp only
        rw [park_driving rfl]
        exact driving_ticked hfreed rfl rfl (Or.inl ⟨rfl, rfl, rfl⟩) fun _ _ _ _ => by simp
    · dsimp only
      rw [park_driving rfl]
      refine driving_ticked hfreed rfl rfl (Or.inr ⟨rfl, rfl, rfl⟩) fun hedge hon _ _ => ?_
      exact absurd ⟨⟨rfl, hedge⟩, hon⟩ hcond

def step (op : Op) (s : State) : Option (List Ev × State) := some ((s.apply op).2, (s.apply op).1)

abbrev Rec := Record Op (List Ev) State

/-- The ignition that is read; a session that is not ready knows none. -/
def Op.reading : Op → Ign
  | .tick ready ign _ _ _ => if ready then ign else .unknown
  | _ => .unknown

def Op.polled : Op → Option Time
  | .tick _ _ _ now _ => some now
  | _ => none

/-- The last known reading. -/
def known : List Rec → Ign
  | [] => .unknown
  | r :: older => if r.inp.reading = .unknown then known older else r.inp.reading

/-- The ignition comes on. -/
def Edge (r : Rec) (older : List Rec) : Prop := r.inp.reading = .on ∧ known older ≠ .on

def Wakes (r : Rec) : Prop := ∃ reason, .wake reason ∈ r.out

def AutoHalts (r : Rec) : Prop := ∃ ev ∈ r.out, ev.isAutoHalt = true

/-- When the last pulse of the ignition was. -/
def lastAuto : List Rec → Option Time
  | [] => none
  | r :: older => if .wake .ignition ∈ r.out then r.inp.polled else lastAuto older

/-- An edge while the wake is enabled and outside the minimum gap. -/
def Due (r : Rec) (older : List Rec) : Prop :=
  Edge r older ∧ r.pre.on = true ∧
    ∀ t now, lastAuto older = some t → r.inp.polled = some now → minGapMs ≤ now - t

/-- A tick that finds no line low, once those that are due are released. -/
def Free (r : Rec) : Prop := ∃ now, r.inp.polled = some now ∧ r.pre.free now

/-- Since the last automatic halt there was neither a wake pulse nor an edge. -/
def Halted : List Rec → Prop
  | [] => False
  | r :: older => AutoHalts r ∨ Halted older ∧ ¬ Wakes r ∧ ¬ Edge r older

/-- The calls of a run, the first one first. -/
def calls (tr : List Rec) : List Ev := tr.reverse.flatMap Record.out

/-- What the two wires are for. -/
structure Proper (tr : List Rec) : Prop where
  woken : ∀ newer r older, tr = newer ++ r :: older → Due r older →
    Wakes r ∨ ¬ Free r ∧ ((∃ r' ∈ newer, Wakes r') ∨ ∀ r' ∈ newer, ¬ Free r')
  lines : Apart (false, false) (calls tr)
  parked : ∀ newer r older, tr = newer ++ r :: older → AutoHalts r → known (r :: older) ≠ .on
  once : ∀ newer r older, tr = newer ++ r :: older → AutoHalts r →
    r.out.countP Ev.isAutoHalt ≤ 1 ∧ ¬ Halted older

/-- What the state knows of the run. -/
structure Inv (tr : List Rec) (s : State) : Prop where
  prev : s.prev = known tr
  driving : s.driving = true ↔ s.prev = .on
  auto : lastAuto tr = if s.autoEver then some s.autoAt else none
  lines : levels (false, false) (calls tr) = s.lines
  apart : Apart (false, false) (calls tr)
  halted : Halted tr → s.halted = true ∧ s.driving = false

theorem calls_cons (r : Rec) (tr : List Rec) : calls (r :: tr) = calls tr ++ r.out := by
  rw [calls, List.reverse_cons, List.flatMap_append, List.flatMap_singleton]
  rfl

/-- What a call from outside does. -/
structure Called (s : State) (r : State × List Ev) : Prop where
  prev : r.1.prev = s.prev
  driving : r.1.driving = s.driving
  auto : .wake .ignition ∉ r.2 ∧ r.1.autoEver = s.autoEver ∧ r.1.autoAt = s.autoAt
  halts : ∀ ev ∈ r.2, ev.isAutoHalt = false
  stands : s.halted = true → (∀ reason, .wake reason ∉ r.2) → r.1.halted = true

theorem called_same (h : s'.prev = s.prev ∧ s'.driving = s.driving ∧ s'.autoEver = s.autoEver ∧
    s'.autoAt = s.autoAt ∧ s'.halted = s.halted) : Called s (s', []) :=
  ⟨h.1, h.2.1, ⟨List.not_mem_nil, h.2.2.1, h.2.2.2.1⟩, fun _ hev => (by cases hev),
    fun hhalted _ => h.2.2.2.2.trans hhalted⟩

theorem apply_called (s : State) (op : Op) (hop : op.polled = none) : Called s (s.apply op) := by
  cases op with
  | tick ready ign e now up => cases hop
  | wake ms up =>
    rw [State.apply]
    cases hpulse : s.wakePulse ms up with
    | none => exact called_same ⟨rfl, rfl, rfl, rfl, rfl⟩
    | some s' =>
      obtain ⟨-, rfl⟩ := wakePulse_eq hpulse
      refine ⟨rfl, rfl, ⟨by simp, rfl, rfl⟩, fun ev hev => ?_, fun _ hno => ?_⟩
      · rw [List.mem_singleton.mp hev]
        rfl
      · exact absurd (List.mem_singleton_self _) (hno .manual)
  | halt ms up =>
    rw [State.apply]
    cases hpulse : s.haltPulse ms up with
    | none => exact called_same ⟨rfl, rfl, rfl, rfl, rfl⟩
    | some s' =>
      obtain ⟨-, rfl⟩ := haltPulse_eq hpulse
      refine ⟨rfl, rfl, ⟨by simp, rfl, rfl⟩, fun ev hev => ?_, fun _ _ => rfl⟩
      rw [List.mem_singleton.mp hev]
      rfl
  | setEnabled on saved =>
    rw [State.apply, State.setEnabled]
    split_ifs <;> exact called_same ⟨rfl, rfl, rfl, rfl, rfl⟩
  | setMin min saved =>
    rw [State.apply, State.setMin]
    split_ifs <;> exact called_same ⟨rfl, rfl, rfl, rfl, rfl⟩
  | setSoc pct saved =>
    rw [State.apply, State.setSoc]
    split_ifs <;> exact called_same ⟨rfl, rfl, rfl, rfl, rfl⟩

variable {tr : List Rec} {op : Op}

/-- The record of a call. -/
def record (op : Op) (s : State) : Rec := ⟨op, s, (s.apply op).2, (s.apply op).1⟩

theorem reading_called (hop : op.polled = none) : op.reading = .unknown := by
  cases op with
  | tick => cases hop
  | wake | halt | setEnabled | setMin | setSoc => rfl

theorem Inv.ticked (h : Inv tr s) {now : Time} (hop : op.polled = some now) :
    Ticked s op.reading now (s.apply op) := by
  cases op with
  | tick ready ign e now' up =>
    obtain rfl := Option.some.inj hop
    exact tick_ticked h.driving ready ign e _ up
  | wake | halt | setEnabled | setMin | setSoc => cases hop

theorem Inv.step (h : Inv tr s) (op : Op) : Inv (record op s :: tr) (s.apply op).1 := by
  have hdrives := apply_drives s op
  have hne : s.lines ≠ (true, true) := h.lines ▸ h.apart _ (List.prefix_refl _)
  have hlines : levels (false, false) (calls (record op s :: tr)) = (s.apply op).1.lines := by
    rw [calls_cons, levels_append, h.lines]
    exact hdrives.levels
  have hapart : Apart (false, false) (calls (record op s :: tr)) := by
    rw [calls_cons]
    refine h.apart.append ?_
    rw [h.lines]
    exact hdrives.apart hne
  cases hop : op.polled with
  | none =>
    have hcalled := apply_called s op hop
    have hreading := reading_called hop
    refine ⟨?_, ?_, ?_, hlines, hapart, ?_⟩
    · rw [known, record, if_pos hreading, hcalled.prev, h.prev]
    · rw [hcalled.driving, hcalled.prev]
      exact h.driving
    · rw [lastAuto, record, if_neg hcalled.auto.1, hcalled.auto.2.1, hcalled.auto.2.2]
      exact h.auto
    · rintro (⟨ev, hev, hauto⟩ | ⟨hhalted, hno, -⟩)
      · rw [hcalled.halts ev hev] at hauto
        cases hauto
      · obtain ⟨hstands, hoff⟩ := h.halted hhalted
        exact ⟨hcalled.stands hstands fun reason hmem => hno ⟨reason, hmem⟩,
          hcalled.driving.trans hoff⟩
  | some now =>
    have hticked := h.ticked hop
    refine ⟨?_, hticked.driving, ?_, hlines, hapart, ?_⟩
    · rw [known, ← h.prev]
      exact hticked.prev
    · rw [lastAuto]
      rcases hticked.auto with ⟨hmem, hever, hat⟩ | ⟨hmem, hever, hat⟩
      · rw [if_pos (show Ev.wake .ignition ∈ (record op s).out from hmem), hever, hat]
        exact hop
      · rw [if_neg (show Ev.wake .ignition ∉ (record op s).out from hmem), hever, hat]
        exact h.auto
    · rintro (⟨ev, hev, hauto⟩ | ⟨hhalted, -, hedge⟩)
      · exact (hticked.halts ev hev hauto).2
      · obtain ⟨hstands, hoff⟩ := h.halted hhalted
        have hprev : s.prev ≠ .on := fun hon => by
          rw [h.driving.mpr hon] at hoff
          cases hoff
        have hreading : op.reading ≠ .on := fun hon => hedge ⟨hon, h.prev ▸ hprev⟩
        refine ⟨hticked.stands hstands hreading, ?_⟩
        rw [← Bool.not_eq_true, hticked.driving, hticked.prev]
        split_ifs
        · exact hprev
        · exact hreading

theorem init_inv (pwIgn phMin phSoc : Option (List Byte)) (up : Time) :
    Inv [] (init pwIgn phMin phSoc up) :=
  ⟨rfl, by simp [init], rfl, rfl, fun p hp => by rw [List.prefix_nil.mp hp]; decide,
    fun h => (by cases h)⟩

theorem run_inv {pwIgn phMin phSoc : Option (List Byte)} {up : Time}
    (h : Run step (init pwIgn phMin phSoc up) tr s) : Inv tr s := by
  refine h.history (init_inv pwIgn phMin phSoc up) fun tr op s out s' _ hinv hstep => ?_
  obtain ⟨rfl, rfl⟩ := Prod.mk.inj (Option.some.inj hstep)
  exact hinv.step op

theorem Inv.parked (h : Inv tr s) (op : Op) (hauto : AutoHalts (record op s)) :
    known (record op s :: tr) ≠ .on ∧ (s.apply op).2.countP Ev.isAutoHalt ≤ 1 ∧ ¬ Halted tr := by
  obtain ⟨ev, hev, hauto⟩ := hauto
  cases hop : op.polled with
  | none =>
    rw [(apply_called s op hop).halts ev hev] at hauto
    cases hauto
  | some now =>
    have hticked := h.ticked hop
    obtain ⟨hopen, -, hoff⟩ := hticked.halts ev hev hauto
    refine ⟨?_, hticked.once, fun hhalted => ?_⟩
    · rw [← (h.step op).prev]
      intro hon
      rw [hticked.driving.mpr hon] at hoff
      cases hoff
    · rw [(h.halted hhalted).1] at hopen
      cases hopen

theorem Inv.woken (h : Inv tr s) (op : Op) (hdue : Due (record op s) tr)
    (hfree : Free (record op s)) : Wakes (record op s) := by
  obtain ⟨now, hop, hfree⟩ := hfree
  obtain ⟨⟨hreading, hknown⟩, hon, hgap⟩ := hdue
  have hticked := h.ticked hop
  refine ⟨.ignition, hticked.woken hreading (h.prev ▸ hknown) hon (fun hever => ?_) hfree⟩
  refine hgap s.autoAt now ?_ hop
  rw [h.auto, if_pos hever]

/-- The wires do what they are for as long as no line is still low at an edge that is due. -/
theorem wires_proper {pwIgn phMin phSoc : Option (List Byte)} {up : Time}
    (h : Run step (init pwIgn phMin phSoc up) tr s)
    (hfree : ∀ newer r older, tr = newer ++ r :: older → Due r older → Free r) : Proper tr := by
  have hrecord : ∀ newer r older, tr = newer ++ r :: older →
      Inv older r.pre ∧ r = record r.inp r.pre := by
    rintro newer r older rfl
    obtain ⟨hrun, hstep⟩ := h.split newer
    obtain ⟨hout, hpost⟩ := Prod.mk.inj (Option.some.inj hstep)
    refine ⟨run_inv hrun, ?_⟩
    rw [record, hout, hpost]
  refine ⟨fun newer r older htr hdue => Or.inl ?_, (run_inv h).apart,
    fun newer r older htr hauto => ?_, fun newer r older htr hauto => ?_⟩
  · obtain ⟨hinv, heq⟩ := hrecord newer r older htr
    have hline := hfree newer r older htr hdue
    rw [heq] at hdue hline ⊢
    exact hinv.woken r.inp hdue hline
  · obtain ⟨hinv, heq⟩ := hrecord newer r older htr
    rw [heq] at hauto ⊢
    exact (hinv.parked r.inp hauto).1
  · obtain ⟨hinv, heq⟩ := hrecord newer r older htr
    rw [heq] at hauto ⊢
    exact (hinv.parked r.inp hauto).2

instance (s : State) (now : Time) : Decidable (s.free now) := inferInstanceAs (Decidable (_ ∧ _))

instance (r : Rec) : Decidable (Free r) :=
  decidable_of_iff ((r.inp.polled.any fun now => r.pre.free now) = true)
    (by simp [Free, Option.any_eq_true])

/-- A tick with the session ready and an empty energy frame. -/
def tickAt (ign : Ign) (now : Time) : Op := .tick true ign {} now now

/-- A drive, half an hour of parking, a night and the next drive, the newest tick first. -/
def night : List Op :=
  [tickAt .on 30000000, tickAt .off 3602500, tickAt .off 1802500, tickAt .off 1802000,
    tickAt .off 2000, tickAt .on 1000]

/-- The Pi is woken, halted once when the parking time is over, and woken again. -/
theorem wires_proper_edge : ∃ tr s, Run step (init none none none 0) tr s ∧
    calls tr = [.wake .ignition, .wakeFree, .halt .timer, .haltFree, .wake .ignition] ∧
    Proper tr := by
  have hnight : ∃ tr s, exec step (init none none none 0) night = some (tr, s) ∧
      calls tr = [.wake .ignition, .wakeFree, .halt .timer, .haltFree, .wake .ignition] ∧
      ∀ r ∈ tr, Free r := ⟨_, _, rfl, by decide, by decide⟩
  obtain ⟨tr, s, hexec, hcalls, hfree⟩ := hnight
  have hrun := (run_of_exec step (init none none none 0) night hexec).1
  refine ⟨tr, s, hrun, hcalls, wires_proper hrun fun newer r older htr _ => ?_⟩
  exact hfree r (htr ▸ List.mem_append_right newer List.mem_cons_self)

/-- The ignition comes on while the halt line is low: at the next tick the line is free and the Pi
is not woken. -/
theorem edge_lost : ∃ tr s, Run step (init none none none 0) tr s ∧ ¬ Proper tr := by
  let ops : List Op :=
    [.tick true .on {} 1600 1600, .tick true .on {} 1100 1100, .halt 500 1000]
  refine ⟨_, _, (run_of_exec step (init none none none 0) ops rfl).1, fun h => ?_⟩
  have hdue := h.woken [_] _ [_] rfl ⟨⟨rfl, by decide⟩, rfl, fun t now ht => (by cases ht)⟩
  rcases hdue with ⟨reason, hmem⟩ | ⟨-, ⟨r', hr', reason, hmem⟩ | hall⟩
  · cases hmem
  · obtain rfl := List.mem_singleton.mp hr'
    revert hmem
    cases reason <;> decide
  · exact hall _ (List.mem_singleton_self _) ⟨1600, rfl, by decide, by decide⟩

end OpenCalifornia.PiWake
