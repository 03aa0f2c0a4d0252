import OpenCalifornia.Session.Attribution
import OpenCalifornia.Session.Runs

/-! # Runs of the session on its wire

The platform completes every accepted read once, with the characteristic of that read, and answers
one discovery for a link; a lost link takes its reads and its discovery with it. -/

namespace OpenCalifornia.Session
open Lib Lib.Bits Lib.Machine

variable {w₀ w : Wire} {s : State} {e : Env} {p : Past} {calls : List Act} {i : Op × Env}
  {x y : Wire × State} {out : List Act}

/-- What the platform delivers with an operation, if it may. -/
def Wire.delivers (w : Wire) : Op → Option (List Act)
  | .event (.read char status data) =>
    (w.outstanding.find? fun asker => asker.char = char).map fun asker =>
      [.complete asker status data]
  | .event (.discovered _) => if w.discovering then some [.discovered] else none
  | .event (.notify char data) => some [.notified char data]
  | _ => some []

/-- One operation of the session on its wire. -/
def wireStep (i : Op × Env) (x : Wire × State) : Option (List Act × Wire × State) :=
  if i.1.legal x.2 then
    (x.1.delivers i.1).map fun log =>
      let s := i.1.apply i.2 { x.2 with log := log }
      (s.log, Wire.monitor.after x.1 s.log, s)
  else none

abbrev WireStep := Record (Op × Env) (List Act) (Wire × State)

/-- Every act of the run meets the wire's rules; in the state reached every completed read was
credited, at most one read is outstanding, the session marks that one as running, and the frame of
each function is the last one that came of its characteristic. -/
structure ReadRules (tr : List WireStep) (x : Wire × State) : Prop where
  fits : ∀ r ∈ tr, Wire.monitor.Fits r.pre.1 r.out
  credited : x.1.due = none
  one : x.1.outstanding.length ≤ 1
  marked : x.2.running = x.1.outstanding
  stored : ∀ c, (x.2.slots c).frame = x.1.frames c

theorem Phase.relog (h : Phase s.part w) (log : List Act) :
    Phase ({ s with log := log } : State).part w := by
  have hw : ({ w with frames := s.part.frames } : Wire) = w := by rw [← h.frames]
  have hp := h.hears s.part.frames ({ s with log := log } : State).part.acts
  rwa [hw] at hp

theorem Phase.up_of_outstanding (h : Phase s.part w) {asker : Asker} (ha : asker ∈ w.outstanding) :
    s.link = .up := by
  cases h with
  | down => exact absurd ha List.not_mem_nil
  | fresh up => exact of_decide_eq_true up
  | variant up => exact of_decide_eq_true up
  | reading up => exact of_decide_eq_true up
  | idle up => exact of_decide_eq_true up

theorem Phase.fresh_of_discovering (h : Phase s.part w) (hd : w.discovering = true) :
    w = { s.part.wire with discovering := true } ∧ s.link = .up ∧ s.part.quiet := by
  cases h with
  | fresh up quiet => exact ⟨rfl, of_decide_eq_true up, quiet⟩
  | _ => cases hd

theorem Ok.active_of_up (h : Ok p calls s.core) (hup : s.link = .up) : s.active = true := by
  by_contra hna
  have hoff : s.active = false := by simpa using hna
  exact absurd (hup.symm.trans (h.idle hoff).1) (by rintro ⟨⟩)

theorem Tidy.onEvent (h : Tidy w₀ s.part) (hlate : e.Late) {ev : Event}
    (hread : ∀ char status data, ev ≠ .read char status data)
    (hdisc : ∀ status, ev ≠ .discovered status) (hnote : ∀ char data, ev ≠ .notify char data) :
    Tidy w₀ (s.onEvent e ev).part := by
  unfold State.onEvent
  by_cases ha : ¬ s.active
  · rw [if_pos ha]
    exact h
  rw [if_neg ha]
  cases ev with
  | connected =>
    dsimp only
    split_ifs with hl
    · have hpart : ({ s with link := .connected, connectedAt := s.now } : State).part = s.part := by
        have hup : s.part.up = false := decide_eq_false (by rw [hl]; rintro ⟨⟩)
        exact congrArg (fun up => { s.part with up := up }) hup.symm
      rw [hpart]
      exact h
    · exact h
  | encOk =>
    dsimp only
    split_ifs with hl
    · exact h.losable.linkUp hlate.variant
    · exact h
  | connectFail status => exact h.lostEvent _ _ _
  | encFail status => exact h.lostEvent _ _ _
  | disconnected status => exact h.lostEvent _ _ _
  | discovered status => exact absurd rfl (hdisc status)
  | read char status data => exact absurd rfl (hread char status data)
  | notify char data => exact absurd rfl (hnote char data)
  | heartbeat status => exact h.heartbeatEvent e status

theorem apply_tidy (h : Tidy w₀ s.part) (hok : Ok p [] s.core) (hlate : e.Late) {op : Op}
    (hl : op.legal s) (hread : ∀ char status data, op ≠ .event (.read char status data))
    (hdisc : ∀ status, op ≠ .event (.discovered status))
    (hnote : ∀ char data, op ≠ .event (.notify char data)) : Tidy w₀ (op.apply e s).part := by
  cases op with
  | boot =>
    have ha : s.active = false := by simpa [Op.legal] using hl
    exact h.boot (hok.idle ha).1 e
  | bonded =>
    have ha : s.active = false := by simpa [Op.legal] using hl
    exact h.onBonded ha hlate.variant
  | stop => exact h.stop e
  | clock now => exact h
  | tick => exact h.tick hok hlate
  | event ev =>
    exact h.onEvent hlate (fun c st d hev => hread c st d (congrArg _ hev))
      (fun st hev => hdisc st (congrArg _ hev)) fun c d hev => hnote c d (congrArg _ hev)
  | setMode mode => exact h.setMode e mode
  | probe => exact h.startProbe e
  | command => exact Tidy.intoHold (s := { s with inputAt := stamp s.now }) h e
  | connect =>
    show Tidy w₀ (s.connectButton e).part
    unfold State.connectButton
    split_ifs
    · exact Tidy.intoHold (s := { s with inputAt := stamp s.now }) h e
    · exact h
  | hold on => exact h.setHold e on
  | viewer now => exact viewer_part s e now ▸ h
  | input now => exact viewer_part { s with inputAt := stamp now } e now ▸ h
  | restPoll min => exact h
  | warm ms => exact h
  | heaterMs ms => exact h

theorem Tidy.phase (h : Tidy w₀ s.part) :
    Wire.monitor.Fits w₀ s.log ∧ Phase s.part (Wire.monitor.after w₀ s.log) := by
  obtain ⟨w, hat, hp⟩ := h
  have happly : ∀ (w : Wire) (a : Act), a.isPlain = true → w.apply a = w :=
    fun w _ => w.apply_plain
  have hallows : ∀ (w : Wire) (a : Act), a.isPlain = true → w.allows a :=
    fun w _ => w.allows_plain
  have hnow : Wire.monitor.after w₀ s.log = w :=
    (Monitor.after_filter happly w₀ s.log).symm.trans hat.now
  exact ⟨(Monitor.fits_filter happly hallows w₀ s.log).mp hat.fits, hnow ▸ hp⟩

/-- An operation on a wire keeps the rules, whatever the platform delivers with it. -/
theorem delivered_tidy (hx : Phase s.part w)
    (hok : Ok p [] ({ s with log := [] } : State).core) (hlate : e.Late) {op : Op}
    (hl : op.legal s) {log : List Act} (hd : w.delivers op = some log) :
    Tidy w (op.apply e { s with log := log }).part := by
  have hplain : ∀ log' : List Act, log' = [] → Tidy w ({ s with log := log' } : State).part := by
    rintro _ rfl
    exact ⟨w, .start, hx.relog []⟩
  unfold Wire.delivers at hd
  split at hd
  · rename_i char status data
    obtain ⟨asker, hfind, rfl⟩ := Option.map_eq_some_iff.mp hd
    have hmem := List.mem_of_find?_eq_some hfind
    have hchar : asker.char = char := by simpa using List.find?_some hfind
    have hup := hx.up_of_outstanding hmem
    have hact : s.active = true := hok.active_of_up (s := { s with log := [] }) hup
    have hstart : At w ({ s with log := [] } : State).part.acts w := .start
    have hdone := (hx.relog []).completed hstart hmem hact e status data
    have hrun : Op.apply e { s with log := [.complete asker status data] }
        (.event (.read char status data)) =
        (({ s with log := [] } : State).act (.complete asker status data)).onRead e
          asker.char status
          data := by
      rw [hchar]
      rw [Op.apply, State.onEvent, if_neg (not_not_intro hact)]
      exact if_pos hup
    rw [hrun]
    exact hdone
  · rename_i status
    split_ifs at hd with hdisc
    obtain rfl := Option.some.inj hd
    obtain ⟨rfl, hup, hquiet⟩ := hx.fresh_of_discovering hdisc
    have hact : s.active = true := hok.active_of_up (s := { s with log := [] }) hup
    set w₁ : Wire := { s.part.wire with discovering := true }
    have hstart : At w₁ ({ s with log := [] } : State).part.acts w₁ := .start
    obtain ⟨hw, hr, hs, hre, hh, hv, hpre⟩ := hquiet
    have hcalm : Calm w₁ none (({ s with log := [] } : State).act .discovered) := by
      refine ⟨hup, ⟨hr, hv, hre, hh⟩, ?_⟩
      show At w₁ _ { s.part.wire with pre := s.vehiclePre }
      rw [show s.vehiclePre = false from hpre]
      exact at_act (s := { s with log := [] }) hstart (a := .discovered) rfl rfl
    have hrun : Op.apply e { s with log := [.discovered] } (.event (.discovered status)) =
        (({ s with log := [] } : State).act .discovered).onDiscovered e status := by
      rw [Op.apply, State.onEvent, if_neg (not_not_intro hact)]
      exact if_pos hup
    rw [hrun]
    exact hcalm.onDiscovered ⟨hw, hs, hpre⟩ hlate.variant status
  · rename_i char data
    obtain rfl := Option.some.inj hd
    exact (hx.relog []).notified (s := { s with log := [] }) .start
      (hok.active_of_up (s := { s with log := [] })) e char data
  · rename_i hread hdisc hnote
    obtain rfl := Option.some.inj hd
    exact apply_tidy (hplain _ rfl) hok hlate hl hread hdisc hnote

/-- What a run keeps: a session in order, in a phase of its wire. -/
structure InPhase (x : Wire × State) : Prop where
  ok : ∃ p calls, Ok p calls x.2.core
  phase : Phase x.2.part x.1

theorem delivered_core (s : State) {op : Op} {log : List Act} (hd : w.delivers op = some log) :
    ({ s with log := log } : State).core = ({ s with log := [] } : State).core := by
  unfold Wire.delivers at hd
  split at hd
  · obtain ⟨asker, -, rfl⟩ := Option.map_eq_some_iff.mp hd
    rfl
  · split_ifs at hd
    obtain rfl := Option.some.inj hd
    rfl
  · obtain rfl := Option.some.inj hd
    rfl
  · obtain rfl := Option.some.inj hd
    rfl

theorem delivered_ok (hok : Ok p calls s.core) {op : Op} (hl : op.legal s) {log : List Act}
    (hd : w.delivers op = some log) (e : Env) :
    ∃ p calls, Ok p calls (op.apply e { s with log := log }).core := by
  by_cases hc : ∃ now, op = .clock now
  · obtain ⟨now, rfl⟩ := hc
    obtain rfl := Option.some.inj hd
    have hn : s.now ≤ now := of_decide_eq_true hl
    exact ⟨_, _, hok.next hn⟩
  · have hstart : Ok (p.next s s.now) [] ({ s with log := log } : State).core :=
      delivered_core s hd ▸ hok.next (le_refl _)
    have hl' : op.legal { s with log := log } = true := by
      cases op <;> exact hl
    obtain ⟨asks, beats, hdone, -⟩ := apply_ok hstart hl' (fun now hn => hc ⟨now, hn⟩) e
    exact ⟨_, _, hdone⟩

theorem wireStep_inPhase (hx : InPhase x) (hlate : i.2.Late) (h : wireStep i x = some (out, y)) :
    Wire.monitor.Fits x.1 out ∧ InPhase y := by
  obtain ⟨w, s⟩ := x
  obtain ⟨p, calls, hok⟩ := hx.ok
  unfold wireStep at h
  split_ifs at h with hl
  obtain ⟨log, hd, heq⟩ := Option.map_eq_some_iff.mp h
  obtain ⟨rfl, rfl⟩ := Prod.mk.inj heq
  have hstart : Ok (p.next s s.now) [] ({ s with log := [] } : State).core := hok.next (le_refl _)
  obtain ⟨hfits, hphase⟩ := (delivered_tidy hx.phase hstart hlate hl hd).phase
  exact ⟨hfits, delivered_ok hok hl hd i.2, hphase⟩

theorem inPhase_start : InPhase ({}, {}) := by
  obtain ⟨p, calls, hok, -⟩ := inOrder_start
  exact ⟨⟨p, calls, hok⟩, .down (c := ({} : State).part) rfl ⟨rfl, rfl, rfl, rfl, rfl, rfl, rfl⟩⟩

theorem Phase.marked (h : Phase s.part w) :
    s.running = w.outstanding ∧ w.outstanding.length ≤ 1 := by
  have hrun : s.running = (if s.part.variantPending then [.variant] else []) ++
      (if s.part.reading then [.pass s.part.readIdx] else []) ++
      (if s.part.rereading then [.water] else []) ++
      if s.part.heaterReading then [.heater] else [] := rfl
  rw [hrun]
  cases h with
  | down up quiet =>
    obtain ⟨-, hr, -, hre, hh, hv, -⟩ := quiet
    simp [hr, hre, hh, hv, Part.wire]
  | fresh up quiet =>
    obtain ⟨-, hr, -, hre, hh, hv, -⟩ := quiet
    simp [hr, hre, hh, hv, Part.wire]
  | variant up pending quiet =>
    obtain ⟨-, hr, -, hre, hh, -, -⟩ := quiet
    have hr' : s.part.reading = false := hr
    have hre' : s.part.rereading = false := hre
    have hh' : s.part.heaterReading = false := hh
    simp [pending, hr', hre', hh']
  | reading up runs more quiet =>
    obtain ⟨-, hre, hh, hv⟩ := quiet
    simp [runs, hre, hh, hv]
  | idle up quiet one again =>
    obtain ⟨hr, hv⟩ := quiet
    cases hre : s.part.rereading with
    | true => simp [hr, hv, one hre]
    | false => cases s.part.heaterReading <;> simp [hr, hv]

/-- In every run whose platform completes no variant, water or heater read inside its call, reads
are attributed to who asked for them. -/
theorem reads_attributed {tr : List WireStep} (h : Run wireStep ({}, {}) tr x)
    (hlate : ∀ r ∈ tr, r.inp.2.Late) : ReadRules tr x := by
  have hinv : InPhase x ∧ ∀ r ∈ tr, Wire.monitor.Fits r.pre.1 r.out := by
    induction h with
    | nil => exact ⟨inPhase_start, List.forall_mem_nil _⟩
    | cons hr hs ih =>
      obtain ⟨hx, hfits⟩ := ih fun r hr => hlate r (List.mem_cons_of_mem _ hr)
      obtain ⟨hfit, hy⟩ := wireStep_inPhase hx (hlate _ List.mem_cons_self) hs
      exact ⟨hy, List.forall_mem_cons.mpr ⟨hfit, hfits⟩⟩
  obtain ⟨hx, hfits⟩ := hinv
  obtain ⟨hmarked, hone⟩ := hx.phase.marked
  exact ⟨hfits, hx.phase.due, hone, hmarked, fun c => (congrFun hx.phase.frames c).symm⟩

/-- A vehicle of variant 1 names it, its pass is read (the last functions inside their calls, two of
them refused or failed), the cooler sends a frame, and the water is read again: the newest first. -/
def variantRun : List (Op × Env) :=
  [(.event (.read waterChar 0 [1, 20, 0, 0]), .refusing),
    (.tick, { Env.refusing with water := ⟨0, none⟩ }),
    (.clock 30000, .refusing),
    (.event (.notify 0x1102 [7]), .refusing),
    (.event (.read 0x1602 0 [1]), { Env.refusing with
      pass := fun i => if i = 3 then ⟨1, none⟩ else ⟨0, some (if i = 7 then 5 else 0, [9, 9])⟩ }),
    (.tick, { Env.refusing with pass := fun _ => ⟨0, none⟩ }),
    (.event (.read vehicleChar 0 [0x10]), .refusing),
    (.event (.discovered 0), { Env.refusing with variant := ⟨0, none⟩ }),
    (.event .encOk, .refusing),
    (.event .connected, .refusing),
    (.boot, .refusing)]

theorem reads_attributed_variant : ∃ tr x, Run wireStep ({}, {}) tr x ∧ x.2.snapped = true ∧
    x.1.variant = some 1 ∧ x.1.frames 0x1102 = some [7] ∧ x.1.frames 0x1302 = some [1, 20, 0, 0] ∧
    ReadRules tr x := by
  obtain ⟨hrun, hinp⟩ := run_of_exec wireStep ({}, {}) variantRun rfl
  refine ⟨_, _, hrun, by decide, by decide, by decide, by decide, reads_attributed hrun ?_⟩
  intro r hr
  have hmem : r.inp ∈ variantRun := hinp ▸ List.mem_map_of_mem hr
  have hlate : ∀ i ∈ variantRun, i.2.Late := by
    simp only [variantRun, List.forall_mem_cons]
    exact ⟨⟨rfl, rfl, rfl⟩, ⟨rfl, rfl, rfl⟩, ⟨rfl, rfl, rfl⟩, ⟨rfl, rfl, rfl⟩, ⟨rfl, rfl, rfl⟩,
      ⟨rfl, rfl, rfl⟩, ⟨rfl, rfl, rfl⟩, ⟨rfl, rfl, rfl⟩, ⟨rfl, rfl, rfl⟩, ⟨rfl, rfl, rfl⟩,
      ⟨rfl, rfl, rfl⟩, List.forall_mem_nil _⟩
  exact hlate _ hmem

/-- The unit lacks 1004: its read ends inside the call, and the session waits for it forever. -/
theorem variant_read_lost : ¬ ∀ (tr : List WireStep) (x : Wire × State),
    Run wireStep ({}, {}) tr x → ReadRules tr x := by
  intro hall
  have hrun : Run wireStep ({}, {}) _ _ :=
    .cons (i := (.event (.discovered 0), { Env.refusing with variant := ⟨0, some (1, [])⟩ }))
      (.cons (i := (.event .encOk, .refusing)) (.cons (i := (.event .connected, .refusing))
        (.cons (i := (.boot, .refusing)) .nil rfl) rfl) rfl) rfl
  have hmarked := (hall _ _ hrun).marked
  exact absurd hmarked (by decide)

end OpenCalifornia.Session
