import OpenCalifornia.Session.Runs

/-! # The bonded session's rules

What holds of the link in every reachable state, what the session asks for on the way there, and
what has happened when it reports ready. -/

namespace OpenCalifornia.Session
open Lib Lib.Bits Lib.Machine

variable {s s' : State} {i : Op × Env} {out : List Act} {tr : List Step}

/-- The link neither comes up nor goes down. -/
def Unchanged (out : List Act) : Prop := ∀ a ∈ out, a.isChange = false

/-- A read pass is completed, and the link does not change after it. -/
def Completes (out : List Act) : Prop :=
  ∃ later earlier, out = later ++ .passDone :: earlier ∧ Unchanged later

/-- The link's read pass is complete. -/
def HasRead (tr : List Step) : Prop :=
  ∃ newer r older, tr = newer ++ r :: older ∧ Completes r.out ∧ ∀ r' ∈ newer, Unchanged r'.out

/-- A heartbeat is written, and the link does not change after it. -/
def HasBeat (out : List Act) : Prop :=
  ∃ later n earlier, out = later ++ .heartbeat n :: earlier ∧ Unchanged later

/-- A heartbeat was written on the present link at the time `t`. -/
def BeatAt (tr : List Step) (t : ℕ) : Prop :=
  ∃ newer r older, tr = newer ++ r :: older ∧ HasBeat r.out ∧ r.post.now = t ∧
    ∀ r' ∈ newer, Unchanged r'.out

/-- The tick `r` writes a heartbeat, or one was written on the link less than a period before. -/
def Beating (r : Step) (older : List Step) : Prop :=
  ∃ t, BeatAt (r :: older) t ∧ r.pre.now < t + heartbeatPeriodMs

/-- From the time `since` on the link is up, the mode is hold and the heartbeat runs. -/
def BeatsSince (tr : List Step) (since : ℕ) : Prop :=
  ∃ newer r older, tr = newer ++ r :: older ∧ r.post.now = since ∧
    (∀ r' ∈ newer, Unchanged r'.out) ∧
    (∀ r' ∈ r :: newer, r'.post.link = .up ∧ r'.post.mode = .hold ∧ r'.post.hbOn = true) ∧
    ∀ later r' earlier, newer = later ++ r' :: earlier → r'.inp.1 = .tick →
      Beating r' (earlier ++ r :: older)

theorem unchanged_of_changes (h : s.core.changes = []) (hl : s.log = out) : Unchanged out := by
  intro a ha
  have hf := List.filter_eq_nil_iff.mp h a (hl ▸ ha)
  simpa using hf

theorem completes_of_passes (h : s.core.passes ≠ []) (hl : s.log = out) : Completes out := by
  obtain ⟨a, ha⟩ := List.exists_mem_of_ne_nil _ h
  obtain ⟨hmem, hdone⟩ := List.mem_filter.mp ha
  cases a with
  | passDone =>
    obtain ⟨later, earlier, hsplit⟩ := List.append_of_mem hmem
    refine ⟨later, earlier ++ out.dropWhile fun a => !a.isChange, ?_, fun a ha => ?_⟩
    · rw [← hl]
      calc s.log = s.log.takeWhile (fun a => !a.isChange) ++ s.log.dropWhile fun a => !a.isChange :=
            List.takeWhile_append_dropWhile.symm
        _ = _ := by rw [hsplit, List.append_assoc, List.cons_append]
    · have hin : a ∈ s.log.takeWhile fun a => !a.isChange :=
        hsplit ▸ List.mem_append.mpr (.inl ha)
      simpa using List.mem_takeWhile_imp hin
  | _ => cases hdone

theorem HasRead.cons (h : HasRead tr) {r : Step} (hr : Unchanged r.out) : HasRead (r :: tr) := by
  obtain ⟨newer, r', older, rfl, hc, hnew⟩ := h
  exact ⟨r :: newer, r', older, rfl, hc, List.forall_mem_cons.mpr ⟨hr, hnew⟩⟩

theorem hasBeat_of_beats (h : s.core.beats ≠ []) (hl : s.log = out) : HasBeat out := by
  obtain ⟨a, ha⟩ := List.exists_mem_of_ne_nil _ h
  obtain ⟨hmem, hbeat⟩ := List.mem_filter.mp ha
  obtain ⟨later, earlier, hsplit⟩ := List.append_of_mem hmem
  have hall : out = later ++ a :: (earlier ++ s.log.dropWhile fun a => !a.isChange) := by
    rw [← hl, ← List.cons_append, ← List.append_assoc, ← hsplit, List.takeWhile_append_dropWhile]
  have hlater : Unchanged later := by
    intro b hb
    have hin : b ∈ s.log.takeWhile fun a => !a.isChange := hsplit ▸ List.mem_append_left _ hb
    simpa using List.mem_takeWhile_imp hin
  cases a with
  | heartbeat n => exact ⟨later, n, _, hall, hlater⟩
  | _ => cases hbeat

theorem HasBeat.of_mem {n : ℕ} (hm : .heartbeat n ∈ out) (hu : Unchanged out) : HasBeat out := by
  obtain ⟨later, earlier, rfl⟩ := List.append_of_mem hm
  exact ⟨later, n, earlier, rfl, fun a ha => hu a (List.mem_append_left _ ha)⟩

theorem BeatAt.cons {t : ℕ} (h : BeatAt tr t) {r : Step} (hr : Unchanged r.out) :
    BeatAt (r :: tr) t := by
  obtain ⟨newer, r', older, rfl, hb, ht, hnew⟩ := h
  exact ⟨r :: newer, r', older, rfl, hb, ht, List.forall_mem_cons.mpr ⟨hr, hnew⟩⟩

theorem BeatsSince.cons {since : ℕ} (h : BeatsSince tr since) {r : Step} (hr : Unchanged r.out)
    (hp : r.post.link = .up ∧ r.post.mode = .hold ∧ r.post.hbOn = true)
    (hb : r.inp.1 = .tick → Beating r tr) : BeatsSince (r :: tr) since := by
  obtain ⟨newer, r', older, rfl, ht, hnew, hall, hticks⟩ := h
  refine ⟨r :: newer, r', older, rfl, ht, List.forall_mem_cons.mpr ⟨hr, hnew⟩, ?_, ?_⟩
  · intro x hx
    rcases List.mem_cons.mp hx with rfl | hx
    · exact hall _ List.mem_cons_self
    rcases List.mem_cons.mp hx with rfl | hx
    · exact hp
    · exact hall x (List.mem_cons_of_mem _ hx)
  · intro later x earlier hsplit hx
    cases later with
    | nil =>
      obtain ⟨rfl, rfl⟩ := List.cons.inj hsplit
      exact hb hx
    | cons y later => exact hticks later x earlier (List.cons.inj hsplit).2 hx

/-- What the flags of a link say about the run. -/
structure History (tr : List Step) (s : State) : Prop where
  read : s.snapped = true → HasRead tr
  next : s.link = .up → s.hbNext ≤ s.now ∨
    ∃ t, BeatAt tr t ∧ s.hbNext ≤ t + heartbeatPeriodMs
  beats : s.link = .up → s.mode = .hold → BeatsSince tr s.hbSince

theorem History.beating (h : History tr s) {p : Past} {asks beats : List Act}
    (hs : Sound tr ⟨i, s, out, s'⟩ p asks beats) (hup : s.link = .up) (hon : s.hbOn = true)
    (hm : s.mode = .hold) (hu : Unchanged out) (hi : i.1 = .tick) :
    Beating ⟨i, s, out, s'⟩ tr := by
  have hperiod : 0 < heartbeatPeriodMs := by decide
  by_cases hdue : s.hbNext ≤ s.now
  · have hne : beats ≠ [] :=
      hs.made.due hi ⟨hup, hon, decide_eq_true (.inl hm), hdue⟩
    obtain ⟨a, ha⟩ := List.exists_mem_of_ne_nil _ hne
    obtain ⟨n, rfl, -⟩ := hs.made.wanted a ha
    have hcall : Act.heartbeat n ∈ s'.core.calls := by
      rw [hs.ok.calls]
      exact List.mem_append_right _ ha
    have hbeat : HasBeat out := .of_mem (hs.log ▸ (List.mem_filter.mp hcall).1) hu
    have hclock : s.now ≤ s'.now := hs.clock
    exact ⟨s'.now, ⟨[], _, tr, rfl, hbeat, rfl, List.forall_mem_nil _⟩,
      Nat.lt_of_le_of_lt hclock (Nat.lt_add_of_pos_right hperiod)⟩
  · obtain ⟨t, hbeat, hnext⟩ := (h.next hup).resolve_left hdue
    exact ⟨t, hbeat.cons hu, Nat.lt_of_lt_of_le (Nat.lt_of_not_le hdue) hnext⟩

theorem History.step (h : History tr s) (hon : s.link = .up → s.hbOn = true) {p : Past}
    {asks beats : List Act} (hs : Sound tr ⟨i, s, out, s'⟩ p asks beats) :
    History (⟨i, s, out, s'⟩ :: tr) s' where
  read hr := by
    obtain ⟨-, ⟨hp, hc⟩ | hpass⟩ := hs.ok.read hr
    · exact (h.read (hs.snapped.symm.trans hp)).cons (unchanged_of_changes hc hs.log)
    · exact ⟨[], _, tr, rfl, completes_of_passes hpass hs.log, List.forall_mem_nil _⟩
  next hl := by
    obtain hdue | ⟨hbeats, hnext⟩ | ⟨hup, hsame, hc⟩ := hs.ok.nextBeat hl
    · exact .inl hdue
    · exact .inr ⟨s'.now, ⟨[], _, tr, rfl, hasBeat_of_beats hbeats hs.log, rfl,
        List.forall_mem_nil _⟩, hnext⟩
    · have hu := unchanged_of_changes hc hs.log
      have heq : s'.hbNext = s.hbNext := hsame.trans hs.beatAt
      rw [heq]
      have hclock : s.now ≤ s'.now := hs.clock
      obtain hdue | ⟨t, hbeat, ht⟩ := h.next (hs.up.mp hup)
      · exact .inl (hdue.trans hclock)
      · exact .inr ⟨t, hbeat.cons hu, ht⟩
  beats hl hm := by
    have hup : s'.link = .up ∧ s'.mode = .hold ∧ s'.hbOn = true := ⟨hl, hm, hs.ok.beating hl⟩
    obtain hnow | ⟨hheld, hsince, hc⟩ := hs.ok.held hl hm
    · refine ⟨[], _, tr, rfl, hnow.symm, List.forall_mem_nil _, fun r' hr' => ?_, ?_⟩
      · rw [List.mem_singleton.mp hr']
        exact hup
      · intro later r' earlier hsplit
        exact absurd hsplit (by simp)
    · obtain ⟨hl', hm'⟩ := hs.held.mp hheld
      have heq : s'.hbSince = s.hbSince := hsince.trans hs.since
      rw [heq]
      have hu := unchanged_of_changes hc hs.log
      exact (h.beats hl' hm').cons hu hup fun hi => h.beating hs hl' (hon hl') hm' hu hi

theorem run_history (h : Run step {} tr s) : History tr s := by
  apply @Run.history _ _ _ _ _ _ _ (fun tr s => History tr s) h
    ⟨(by rintro ⟨⟩), (by rintro ⟨⟩), (by rintro ⟨⟩)⟩
  intro tr i s out s' hr hs hstep
  have horder := run_inOrder hr
  obtain ⟨p, asks, beats, hsound⟩ := step_sound horder hstep
  obtain ⟨p₀, calls, hok, -⟩ := horder
  exact hs.step hok.beating hsound

end OpenCalifornia.Session
