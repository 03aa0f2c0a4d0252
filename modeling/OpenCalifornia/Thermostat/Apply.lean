import OpenCalifornia.Thermostat.Settings

/-! # A settings request, all or nothing

The configuration is written before the switch. When the second write fails the first one
stays, under the old revision. A switch that a failed write left in memory only stays so through a
request that does not name it. Every other request is applied whole or leaves everything. -/

namespace OpenCalifornia.Thermostat.Settings
open Lib.Machine (Run Reachable)

variable {w : State} {types : Sensors} {sv : Saves} {p : Patch} {c c' c'' : RunCfg} {k : Key}

/-- `c'` is `c` with exactly the settings that the request names. -/
structure Named (p : Patch) (c c' : RunCfg) : Prop where
  s : ∀ k, c'.s k = (p.value k).getD (c.s k)
  target : c'.target = p.target.getD c.target
  ref : c'.ref = (p.ref.map (·.1)).getD c.ref
  backup : c'.backup = (p.backup.map (·.1)).getD c.backup
  out : c'.out = (p.out.map (·.1)).getD c.out
  outsideOn : c'.outsideOn = (p.outsideOn.map flag).getD c.outsideOn
  night : c'.night = (p.night.map flag).getD c.night

/-- The stored record is the configuration, or the configuration is what a boot takes. -/
def Kv.holds (kv : Kv) (c : RunCfg) : Prop := kv.cfg = .v2 c ∨ kv.loaded = c

/-- The owner's request that a body names. -/
def Patch.request (p : Patch) : Option Request :=
  p.mode.map fun m => if m = "AUTO" then .auto else .off

/-- What an error leaves. -/
structure Kept (w w' : State) : Prop where
  cfg : w'.cfg = w.cfg
  stored : w'.kv.cfg = w.kv.cfg
  req : w'.run.req = w.run.req
  rev : w'.rev = w.rev
  on : w'.run.on = w.run.on ∨ w'.run.on = false

/-- The named settings are changed. -/
structure Changed (p : Patch) (w w' : State) : Prop where
  cfg : Named p w.cfg w'.cfg
  on : w'.run.on = p.enabled.getD w.run.on
  req : w'.run.req = p.request.or w.run.req
  stored : w'.kv.holds w'.cfg
  switch : w'.kv.on = (p.enabled.map fun on => [if on then 1 else 0]).or w.kv.on
  rev : w'.rev = w.rev + 1

/-- What a success does: the switch in memory, too, is the one that a boot would take. -/
structure Applied (p : Patch) (w w' : State) : Prop extends Changed p w w' where
  agrees : w'.kv.switch = w'.run.on

def AllOrNothing (p : Patch) (w : State) (r : Option Err × State) : Prop :=
  match r.1 with
  | some _ => Kept w r.2
  | none => Applied p w r.2

/-- An accepted request changes the configuration, which is written, and names the switch, which
is not. -/
structure Halfway (w : State) (types : Sensors) (sv : Saves) (p : Patch) : Prop where
  passes : w.refuses types p = none
  changes : ¬ Named p w.cfg w.cfg
  written : sv.cfg = true
  switch : p.enabled ≠ none
  fails : sv.on = false

/-- An accepted request that does not name the switch, while memory and store differ on it. -/
structure Parted (w : State) (types : Sensors) (sv : Saves) (p : Patch) : Prop where
  passes : w.refuses types p = none
  written : Named p w.cfg w.cfg ∨ sv.cfg = true
  switch : p.enabled = none
  differs : w.kv.switch ≠ w.run.on

theorem narrow_of_le {v : ℤ} (hl : -2 ^ 31 ≤ v) (hu : v < 2 ^ 31) : narrow v = v :=
  Int.bmod_eq_of_le (by omega) (by omega)

theorem narrow_of_cfgOk {v : ℤ} (h : cfgOk k v) : narrow v = v := by
  have hb : 0 ≤ k.lim.1 ∧ k.lim.2 ≤ i32 := by cases k <;> simp [Key.lim, i32]
  have hi : i32 = 2147483647 := rfl
  unfold cfgOk at h
  exact narrow_of_le (by omega) (by omega)

theorem narrow_of_targetOk {v : ℤ} (h : targetOk v) : narrow v = v := by
  unfold targetOk at h
  exact narrow_of_le (by omega) (by omega)

theorem copied_of_lt {a : Alias} (h : a.length < aliasLen) : copied a = a :=
  List.take_of_length_le (by unfold aliasLen at *; omega)

/-- The values of an accepted request are in their ranges. -/
structure InRange (p : Patch) : Prop where
  value : ∀ k, ∀ v ∈ p.value k, cfgOk k v
  target : ∀ v ∈ p.target, targetOk v

theorem inRange (h : w.refuses types p = none) : InRange p := by
  unfold State.refuses at h
  split at h
  · cases h
  split at h
  · cases h
  split at h
  · cases h
  rename_i ht
  split at h
  · cases h
  rename_i hc
  push Not at ht hc
  constructor
  · intro k v hv
    rcases Option.or_eq_some_iff.1 hv with hf | ⟨-, hr⟩
    · obtain ⟨f, hf, hk⟩ := Option.bind_eq_some_iff.1 hf
      exact hc f hf k v hk
    · split at hr
      · rename_i hk
        exact hk ▸ ht.2 v hr
      · cases hr
  · exact ht.1

theorem elim_eq_getD {α β : Type*} {o : Option α} {f g : α → β} (d : β)
    (h : ∀ a ∈ o, f a = g a) : o.elim d f = (o.map g).getD d := by
  cases o with
  | none => rfl
  | some a => exact h a rfl

theorem patched_named (h : InRange p) (c : RunCfg) : Named p c (c.patched p) where
  s k := by
    rw [← Option.map_id' (x := p.value k)]
    exact elim_eq_getD _ fun v hv => narrow_of_cfgOk (h.value k v hv)
  target := by
    rw [← Option.map_id' (x := p.target)]
    exact elim_eq_getD _ fun v hv => narrow_of_targetOk (h.target v hv)
  ref := elim_eq_getD _ fun a _ => copied_of_lt a.2
  backup := elim_eq_getD _ fun a _ => copied_of_lt a.2
  out := elim_eq_getD _ fun a _ => copied_of_lt a.2
  outsideOn := elim_eq_getD _ fun _ _ => rfl
  night := elim_eq_getD _ fun _ _ => rfl

theorem Named.unique (h : Named p c c') (h' : Named p c c'') : c' = c'' := by
  cases c'
  cases c''
  simp only [RunCfg.mk.injEq]
  exact ⟨funext fun k => (h.s k).trans (h'.s k).symm, h.target.trans h'.target.symm,
    h.ref.trans h'.ref.symm, h.backup.trans h'.backup.symm, h.out.trans h'.out.symm,
    h.outsideOn.trans h'.outsideOn.symm, h.night.trans h'.night.symm⟩

theorem patched_eq_iff (h : InRange p) : c.patched p = c ↔ Named p c c := by
  constructor
  · intro he
    have hn := patched_named h c
    rwa [he] at hn
  · exact fun hn => (patched_named h c).unique hn

@[simp] theorem take_cfg (w : State) (n : RunCfg) : (w.take n).cfg = n := by
  unfold State.take
  split
  · rename_i h
    exact h.symm
  · rfl

@[simp] theorem take_run (w : State) (n : RunCfg) : (w.take n).run = w.run := by
  unfold State.take
  split <;> rfl

@[simp] theorem take_rev (w : State) (n : RunCfg) : (w.take n).rev = w.rev := by
  unfold State.take
  split <;> rfl

@[simp] theorem take_kv_on (w : State) (n : RunCfg) : (w.take n).kv.on = w.kv.on := by
  unfold State.take
  split <;> rfl

@[simp] theorem take_self (w : State) : w.take w.cfg = w := if_pos rfl

theorem take_holds (h : w.kv.holds w.cfg) (n : RunCfg) : (w.take n).kv.holds n := by
  unfold State.take
  split
  · rename_i hn
    exact hn ▸ h
  · exact .inl rfl

/-- The parts that the switch and its write leave alone. -/
structure Aside (w w' : State) : Prop where
  cfg : w'.cfg = w.cfg
  stored : w'.kv.cfg = w.kv.cfg
  req : w'.run.req = w.run.req
  rev : w'.rev = w.rev

theorem setEnabled_aside (w : State) (on saved : Bool) : Aside w (w.setEnabled on saved).2 := by
  cases saved <;> exact ⟨rfl, rfl, rfl, rfl⟩

theorem Aside.trans {w₁ w₂ w₃ : State} (h : Aside w₁ w₂) (h' : Aside w₂ w₃) : Aside w₁ w₃ :=
  ⟨h'.cfg.trans h.cfg, h'.stored.trans h.stored, h'.req.trans h.req, h'.rev.trans h.rev⟩

theorem putSwitch_aside (w : State) (sv : Saves) (e : Option Bool) :
    Aside w (w.putSwitch sv e).2 := by
  rcases e with _ | on
  · exact ⟨rfl, rfl, rfl, rfl⟩
  · have h := setEnabled_aside w on sv.on
    unfold State.putSwitch
    cases hs : (w.setEnabled on sv.on).1
    · cases on
      · simpa [hs] using h
      · simpa [hs] using h.trans (setEnabled_aside _ false sv.off)
    · simpa [hs] using h

theorem putSwitch_fails_iff (w : State) (sv : Saves) (e : Option Bool) :
    (w.putSwitch sv e).1 = false ↔ e ≠ none ∧ sv.on = false := by
  rcases e with _ | on
  · simp [State.putSwitch]
  · cases hs : sv.on <;> simp [State.putSwitch, State.setEnabled, hs]

theorem putSwitch_failed {e : Option Bool} (h : (w.putSwitch sv e).1 = false) :
    (w.putSwitch sv e).2.run.on = false := by
  obtain ⟨he, hs⟩ := (putSwitch_fails_iff w sv e).1 h
  rcases e with _ | on
  · exact absurd rfl he
  · cases on <;> simp [State.putSwitch, State.setEnabled, hs, Runner.State.setEnabled]

theorem putSwitch_done {e : Option Bool} (h : (w.putSwitch sv e).1 = true) :
    (w.putSwitch sv e).2.run.on = e.getD w.run.on ∧
      (w.putSwitch sv e).2.kv.on = (e.map fun on => [if on then 1 else 0]).or w.kv.on := by
  rcases e with _ | on
  · exact ⟨rfl, rfl⟩
  · cases hs : sv.on
    · simp [State.putSwitch, State.setEnabled, hs] at h
    · simp [State.putSwitch, State.setEnabled, hs, Runner.State.setEnabled]

theorem putMode_aside (w : State) (p : Patch) :
    (w.putMode p).cfg = w.cfg ∧ (w.putMode p).kv = w.kv ∧ (w.putMode p).rev = w.rev ∧
      (w.putMode p).run.on = w.run.on := by
  unfold State.putMode
  split
  · by_cases ho : w.run.on <;> simp [Runner.State.request, Runner.State.act, ho]
  · split
    · simp [Runner.State.request, Runner.State.act]
    · simp

theorem putMode_req (w : State) (p : Patch) :
    (w.putMode p).run.req = p.request.or w.run.req := by
  rcases hm : p.mode with _ | m
  · simp [State.putMode, Patch.autoReq, Patch.request, hm]
  · by_cases ha : m = "AUTO"
    · simp [State.putMode, Patch.autoReq, Patch.request, hm, ha, Runner.State.request]
    · simp [State.putMode, Patch.autoReq, Patch.request, hm, ha, Runner.State.request]

theorem Kv.holds_congr {kv kv' : Kv} (h : kv'.cfg = kv.cfg) : kv'.holds c ↔ kv.holds c := by
  simp [Kv.holds, Kv.loaded, h]

theorem Kept.refl (w : State) : Kept w w := ⟨rfl, rfl, rfl, rfl, .inl rfl⟩

theorem apply_refused {e : Err} (h : w.refuses types p = some e) :
    w.apply types sv p = (some e, w) := by
  simp [State.apply, h]

theorem apply_unwritten (h : w.refuses types p = none) (hn : w.cfg.patched p ≠ w.cfg)
    (hs : sv.cfg = false) : w.apply types sv p = (some .store, w) := by
  simp [State.apply, h, hn, hs]

theorem apply_taken (h : w.refuses types p = none)
    (hn : w.cfg.patched p = w.cfg ∨ sv.cfg = true) :
    let r := (w.take (w.cfg.patched p)).putSwitch sv p.enabled
    w.apply types sv p = if r.1 then (none, { r.2.putMode p with rev := (r.2.putMode p).rev + 1 })
      else (some .store, r.2) := by
  have hc : ¬ (w.cfg.patched p ≠ w.cfg ∧ sv.cfg = false) := by
    rintro ⟨h₁, h₂⟩
    rcases hn with hn | hn
    · exact h₁ hn
    · rw [hn] at h₂
      cases h₂
  simp only [State.apply, h, if_neg hc]

theorem apply_changed (hw : w.kv.holds w.cfg) (h : w.refuses types p = none)
    (hn : w.cfg.patched p = w.cfg ∨ sv.cfg = true)
    (hs : ((w.take (w.cfg.patched p)).putSwitch sv p.enabled).1 = true) :
    (w.apply types sv p).1 = none ∧ Changed p w (w.apply types sv p).2 := by
  have ht := apply_taken h hn
  simp only [hs, if_true] at ht
  have ha := putSwitch_aside (w.take (w.cfg.patched p)) sv p.enabled
  have hd := putSwitch_done hs
  generalize (w.take (w.cfg.patched p)).putSwitch sv p.enabled = r at ha hd ht
  obtain ⟨hcfg, hkv, hrev, hon⟩ := putMode_aside r.2 p
  have hc : r.2.cfg = w.cfg.patched p := by rw [ha.cfg, take_cfg]
  rw [ht]
  refine ⟨rfl, ⟨?_, ?_, ?_, ?_, ?_, ?_⟩⟩
  · show Named p w.cfg (r.2.putMode p).cfg
    rw [hcfg, hc]
    exact patched_named (inRange h) w.cfg
  · show (r.2.putMode p).run.on = _
    rw [hon, hd.1, take_run]
  · show (r.2.putMode p).run.req = _
    rw [putMode_req, ha.req, take_run]
  · show (r.2.putMode p).kv.holds (r.2.putMode p).cfg
    rw [hcfg, hkv, hc, Kv.holds_congr ha.stored]
    exact take_holds hw _
  · show (r.2.putMode p).kv.on = _
    rw [hkv, hd.2, take_kv_on]
  · show (r.2.putMode p).rev + 1 = _
    rw [hrev, ha.rev, take_rev]

theorem Kv.switch_congr {kv kv' : Kv} (h : kv'.on = kv.on) : kv'.switch = kv.switch := by
  simp [Kv.switch, h]

/-- A success leaves one switch, if the request names it or there was one before. -/
theorem Changed.agrees_iff {w' : State} (h : Changed p w w') :
    w'.kv.switch = w'.run.on ↔ (p.enabled = none → w.kv.switch = w.run.on) := by
  have hon := h.on
  have hswitch := h.switch
  rcases he : p.enabled with _ | on
  · rw [he] at hon hswitch
    rw [Kv.switch_congr hswitch, hon]
    exact ⟨fun heq _ => heq, fun himp => himp rfl⟩
  · rw [he] at hon hswitch
    have heq : w'.kv.switch = on := by cases on <;> simp [Kv.switch, hswitch]
    exact iff_of_true (heq.trans hon.symm) (by rintro ⟨⟩)

theorem apply_unswitched (hw : w.kv.holds w.cfg) (h : w.refuses types p = none)
    (hn : w.cfg.patched p = w.cfg ∨ sv.cfg = true)
    (hs : ((w.take (w.cfg.patched p)).putSwitch sv p.enabled).1 = false) :
    (w.apply types sv p).1 = some .store ∧
      (w.apply types sv p).2.cfg = w.cfg.patched p ∧
      (w.apply types sv p).2.kv.holds (w.cfg.patched p) ∧
      (w.cfg.patched p = w.cfg → Kept w (w.apply types sv p).2) := by
  have ht := apply_taken h hn
  simp only [hs, Bool.false_eq_true, if_false] at ht
  have ha := putSwitch_aside (w.take (w.cfg.patched p)) sv p.enabled
  have hoff := putSwitch_failed hs
  rw [ht]
  refine ⟨rfl, by rw [ha.cfg, take_cfg], (Kv.holds_congr ha.stored).2 (take_holds hw _),
    fun he => ?_⟩
  rw [he, take_self] at ha hoff ⊢
  exact ⟨ha.cfg, ha.stored, ha.req, ha.rev, .inr hoff⟩

/-- In every state whose store has the configuration in memory, a request is all or nothing unless
the switch fails after the configuration was written, or was only in memory before. -/
theorem allOrNothing_iff (hw : w.kv.holds w.cfg) (types : Sensors) (sv : Saves) (p : Patch) :
    AllOrNothing p w (w.apply types sv p) ↔
      ¬ Halfway w types sv p ∧ ¬ Parted w types sv p := by
  rcases hr : w.refuses types p with _ | e
  · have hp := patched_eq_iff (c := w.cfg) (inRange hr)
    by_cases hn : w.cfg.patched p = w.cfg ∨ sv.cfg = true
    · rcases hs : ((w.take (w.cfg.patched p)).putSwitch sv p.enabled).1 with _ | _
      · obtain ⟨hstore, hcfg, -, hkept⟩ := apply_unswitched hw hr hn hs
        obtain ⟨he, hf⟩ := (putSwitch_fails_iff _ sv _).1 hs
        simp only [AllOrNothing, hstore]
        constructor
        · intro hk
          exact ⟨fun hh => hh.changes (hp.1 (hcfg.symm.trans hk.cfg)), fun hp => he hp.switch⟩
        · intro hh
          refine hkept (Classical.byContradiction fun hc => hh.1 ?_)
          exact ⟨hr, fun hnm => hc (hp.2 hnm), hn.resolve_left hc, he, hf⟩
      · obtain ⟨hnone, hch⟩ := apply_changed hw hr hn hs
        simp only [AllOrNothing, hnone]
        constructor
        · refine fun ha => ⟨fun hh => ?_, fun hh => ?_⟩
          · have hf := (putSwitch_fails_iff (w.take (w.cfg.patched p)) sv p.enabled).2
              ⟨hh.switch, hh.fails⟩
            rw [hs] at hf
            cases hf
          · exact hh.differs (hch.agrees_iff.1 ha.agrees hh.switch)
        · refine fun hh => ⟨hch, hch.agrees_iff.2 fun he => Classical.byContradiction fun hd => ?_⟩
          exact hh.2 ⟨hr, hn.imp_left hp.1, he, hd⟩
    · push Not at hn
      rw [apply_unwritten hr hn.1 (by simpa using hn.2)]
      refine iff_of_true (Kept.refl w) ⟨fun hh => hn.2 hh.written, fun hh => ?_⟩
      exact hh.written.elim (fun hnm => hn.1 (hp.2 hnm)) hn.2
  · rw [apply_refused hr]
    refine iff_of_true (Kept.refl w) ⟨fun hh => ?_, fun hh => ?_⟩
    · rw [hh.passes] at hr
      cases hr
    · rw [hh.passes] at hr
      cases hr

theorem apply_holds (h : w.kv.holds w.cfg) (types : Sensors) (sv : Saves) (p : Patch) :
    (w.apply types sv p).2.kv.holds (w.apply types sv p).2.cfg := by
  rcases hr : w.refuses types p with _ | e
  · by_cases hn : w.cfg.patched p = w.cfg ∨ sv.cfg = true
    · rcases hs : ((w.take (w.cfg.patched p)).putSwitch sv p.enabled).1 with _ | _
      · obtain ⟨-, hcfg, hh, -⟩ := apply_unswitched h hr hn hs
        rwa [hcfg]
      · exact (apply_changed h hr hn hs).2.stored
    · push Not at hn
      rwa [apply_unwritten hr hn.1 (by simpa using hn.2)]
  · rwa [apply_refused hr]

theorem step_holds {op : Op} {o : Option Err} {w' : State} (h : w.kv.holds w.cfg)
    (hs : step op w = some (o, w')) : w'.kv.holds w'.cfg := by
  cases op with
  | apply types sv p =>
    obtain ⟨-, rfl⟩ := Prod.mk.inj (Option.some.inj hs).symm
    exact apply_holds h types sv p
  | setEnabled on saved =>
    obtain ⟨-, rfl⟩ := Prod.mk.inj (Option.some.inj hs).symm
    exact (Kv.holds_congr (setEnabled_aside w on saved).stored).2 h
  | request r =>
    obtain ⟨-, rfl⟩ := Prod.mk.inj (Option.some.inj hs).symm
    exact h
  | tick e now eta etaFirst =>
    obtain ⟨run, -, hw⟩ := Option.map_eq_some_iff.1 hs
    obtain ⟨-, rfl⟩ := Prod.mk.inj hw
    exact h
  | done e rc =>
    obtain ⟨run, -, hw⟩ := Option.map_eq_some_iff.1 hs
    obtain ⟨-, rfl⟩ := Prod.mk.inj hw
    exact h

theorem init_holds (kv : Kv) : (init kv).kv.holds (init kv).cfg := .inr rfl

theorem reachable_holds {kv : Kv} (h : Reachable step (init kv) w) : w.kv.holds w.cfg :=
  h.invariant (init_holds kv) fun _ _ _ _ => step_holds

/-- Every request in every state that a run reaches. -/
theorem apply_whole {kv : Kv} (h : Reachable step (init kv) w) (types : Sensors) (sv : Saves)
    (p : Patch) : AllOrNothing p w (w.apply types sv p) ↔
      ¬ Halfway w types sv p ∧ ¬ Parted w types sv p :=
  allOrNothing_iff (reachable_holds h) types sv p

/-- A device that never stored anything. -/
def blank : Kv := ⟨none, .missing⟩

/-- A body that switches the thermostat on and names another target. -/
def warmer : Patch := { enabled := some true, target := some 2100, confirm := some true }

/-- Such a body, and then one that names a target only. -/
theorem apply_whole_blank :
    AllOrNothing warmer (init blank)
      ((init blank).apply (fun _ => none) ⟨true, true, true⟩ warmer) ∧
    ∃ w, Reachable step (init blank) w ∧ w.run.on = true ∧
      AllOrNothing { target := some 1900 } w
        (w.apply (fun _ => none) ⟨true, true, true⟩ { target := some 1900 }) := by
  refine ⟨(apply_whole ⟨[], .nil⟩ _ _ _).2 ⟨fun h => Bool.noConfusion h.fails, fun h => ?_⟩, ?_⟩
  · cases h.switch
  · have hrun : Lib.Machine.Run step (init blank) _ _ :=
      .cons (i := .apply (fun _ => none) ⟨true, true, true⟩ warmer) .nil rfl
    refine ⟨_, ⟨_, hrun⟩, by decide, (apply_whole ⟨_, hrun⟩ _ _ _).2
      ⟨fun h => Bool.noConfusion h.fails, fun h => h.differs (by decide)⟩⟩

/-- The target is changed and stored although the body is answered with an error. After a disable
that was not stored, a body is answered with a success while memory and store differ on the
switch. -/
theorem apply_not_whole :
    (∃ kv w types sv p, Reachable step (init kv) w ∧ Halfway w types sv p ∧
      (w.apply types sv p).1 = some .store ∧ (w.apply types sv p).2.cfg.target ≠ w.cfg.target ∧
      ¬ AllOrNothing p w (w.apply types sv p)) ∧
    ∃ kv w types sv p, Reachable step (init kv) w ∧ Parted w types sv p ∧
      (w.apply types sv p).1 = none ∧ (w.apply types sv p).2.run.on = false ∧
      (w.apply types sv p).2.kv.switch = true ∧ ¬ AllOrNothing p w (w.apply types sv p) := by
  constructor
  · have hhalf : Halfway (init blank) (fun _ => none) ⟨true, false, false⟩ warmer :=
      ⟨by decide, fun hn => absurd hn.target (by decide), rfl, by rintro ⟨⟩, rfl⟩
    refine ⟨blank, _, _, _, _, ⟨[], .nil⟩, hhalf, by decide, by decide, fun h => ?_⟩
    exact ((allOrNothing_iff (init_holds blank) _ _ _).1 h).1 hhalf
  · have hrun : Lib.Machine.Run step (init ⟨some [1], .missing⟩) _ _ :=
      .cons (i := .setEnabled false false) .nil rfl
    have hpart : Parted ((init ⟨some [1], .missing⟩).setEnabled false false).2 (fun _ => none)
        ⟨true, true, true⟩ { target := some 2100 } :=
      ⟨by decide, .inr rfl, rfl, by decide⟩
    refine ⟨_, _, _, _, _, ⟨_, hrun⟩, hpart, by decide, by decide, by decide, fun h => ?_⟩
    exact ((allOrNothing_iff (reachable_holds ⟨_, hrun⟩) _ _ _).1 h).2 hpart

end OpenCalifornia.Thermostat.Settings
