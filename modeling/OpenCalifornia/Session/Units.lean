import OpenCalifornia.Freshness.Firmware
import OpenCalifornia.Lighting.Firmware
import OpenCalifornia.Session.Step

/-! # Whose data the session shows

What `session.c` stores of the unit: its frames, the two latches of the lighting configuration and
the water baseline, which outlives a reboot. The link comes up and goes down at any time here, and
so do the bonds. -/

namespace OpenCalifornia.Session.Units
open Lib Lib.Bits Lib.Machine Control Control.Firmware Freshness.Firmware Lighting.Firmware

def lightingChar : ℕ := 0x1502

/-- A frame, with the unit that sent it. The session never looks at the sender. -/
structure Sent where
  bytes : List Byte
  sender : String
  deriving DecidableEq

/-- `s_fr[i]` -/
structure Stored where
  frame : Option Sent := none
  live : Bool := false
  stamp : ℕ := 0

/-- `s_lcfg[w]`, with the units whose frames went into it. -/
structure Latch where
  config : LightConfig := {}
  senders : List String := []

structure State where
  /-- `identity()`, "" without a bond. -/
  bond : String := ""
  /-- What the store holds under `WATER_GOOD_KEY`. -/
  flash : Option Sent := none
  now : ℕ := 0
  unit : String := ""
  /-- The unit at the other end of an up link. -/
  peer : Option String := none
  frames : ℕ → Stored := fun _ => {}
  shown : Latch := {}
  gated : Latch := {}
  lastUpdate : ℕ := 0
  wg : Option Sent := none
  wgAt : ℕ := 0
  wpend : FreshPending := ⟨0, 0, false, false, 0⟩
  /-- The units whose frames have the level that settles. -/
  wpendOf : List String := []
  waterHeld : Bool := false

def State.adoptWater (s : State) (f : Sent) : State :=
  { s with waterHeld := false, wg := some f, wgAt := stamp s.now, flash := some f }

/-- Whose level settles once the frame made `p` the candidate. -/
def State.settling (s : State) (f : Sent) (p : FreshPending) : List String :=
  if p.pending then
    if s.wpend.pending ∧ p = s.wpend then f.sender :: s.wpendOf else [f.sender]
  else []

/-- The water gate of `store`, and the frame that is stored. -/
def State.settle (s : State) (f : Sent) : Option Sent × State :=
  let r := waterSettle ⟨s.wg.map Sent.bytes, s.wpend, s.waterHeld⟩ f.bytes s.now
  let s := { s with wpend := r.2, wpendOf := s.settling f r.2 }
  if r.1 then (some f, s.adoptWater f) else (s.wg, { s with waterHeld := true })

/-- `latch_lighting`, one latch. Only frames of the lighting characteristic go there. -/
def Latch.take (l : Latch) (char : ℕ) (f : Sent) : Latch :=
  if char = lightingChar then
    ⟨lightCfg (lcfgGet l.config (lightKv f.bytes)), f.sender :: l.senders⟩
  else l

/-- A frame about the configuration leaves the lamps as they are. -/
def State.keeps (s : State) (char : ℕ) (f : Sent) : Bool :=
  char = lightingChar ∧ ¬ reportsState f.bytes ∧
    (s.frames char).frame.any fun old => reportsState old.bytes

/-- The end of `store`. -/
def State.put (s : State) (char : ℕ) (f : Sent) : State :=
  let frame := if s.keeps char f then (s.frames char).frame else some f
  { s with
    shown := s.shown.take char f
    gated := s.gated.take char f
    frames := Function.update s.frames char ⟨frame, true, Session.stamp s.now⟩
    lastUpdate := Session.stamp s.now }

def State.store (s : State) (char : ℕ) (f : Sent) : State :=
  let f : Sent := ⟨f.bytes.take frameMax, f.sender⟩
  if char = waterChar then
    let r := s.settle f
    match r.1 with
    | some f => r.2.put char f
    | none => r.2
  else s.put char f

/-- The baseline is what is shown of the water. -/
def State.seedWaterFrame (s : State) : State :=
  match s.wg with
  | some f =>
    { s with
      frames := Function.update s.frames waterChar
        { s.frames waterChar with frame := some f, live := false } }
  | none => s

def State.unitCheck (s : State) : State :=
  if s.bond = s.unit then s
  else
    let had : Bool := s.unit ≠ ""
    let s := { s with
      unit := s.bond, frames := fun _ => {}, shown := {}, gated := {}, lastUpdate := 0 }
    let s :=
      if had then
        { s with
          wg := none, wpend := ⟨0, 0, false, false, 0⟩, wpendOf := [], waterHeld := false
          wgAt := 0, flash := none }
      else s
    s.seedWaterFrame

/-- `link_up`, a link to the bonded unit. -/
def State.linkUp (s : State) : State :=
  let s := { s with peer := some s.bond }.unitCheck
  { s with frames := fun c => { s.frames c with live := false }, gated := {} }

/-- `cali_session_stop` -/
def State.stop (s : State) : State := { s with peer := none }.unitCheck

/-- The memory is lost, and `cali_session_init` runs. -/
def State.reboot (s : State) : State :=
  { bond := s.bond, flash := s.flash, wg := s.flash : State }.seedWaterFrame

inductive Op
  | reboot
  | bond (identity : String)
  | linkUp
  | linkDown
  | stop
  | frame (char : ℕ) (data : List Byte)
  | clock (now : ℕ)
  deriving DecidableEq

/-- A link comes up encrypted, so with a bond, and frames come over a link. -/
def Op.legal (s : State) : Op → Bool
  | .linkUp => s.bond ≠ ""
  | .frame char _ => s.peer.isSome ∧ char ∈ codecChars.map Prod.snd
  | _ => true

def Op.apply (s : State) : Op → State
  | .reboot => s.reboot
  | .bond identity => { s with bond := identity }
  | .linkUp => s.linkUp
  | .linkDown => { s with peer := none }
  | .stop => s.stop
  | .frame char data => s.store char ⟨data, s.peer.getD ""⟩
  | .clock now => { s with now := now }

def step (i : Op) (s : State) : Option (Unit × State) :=
  if i.legal s then some ((), i.apply s) else none

/-- The session is told of the bond. -/
def Op.tells : Op → Bool
  | .linkUp | .stop => true
  | _ => false

/-- The bond that the session was told of last, over all boots. -/
def told : List (Record Op Unit State) → String
  | [] => ""
  | r :: tr => if r.inp.tells then r.pre.bond else told tr

/-- Something that this unit sent is stored: a frame, a part of a latch, the baseline, or the level
that settles. -/
inductive State.Shows (s : State) (u : String) : Prop
  | frame (c : ℕ) (f : Sent) (h : (s.frames c).frame = some f) (hu : f.sender = u)
  | shown (h : u ∈ s.shown.senders)
  | gated (h : u ∈ s.gated.senders)
  | wg (f : Sent) (h : s.wg = some f) (hu : f.sender = u)
  | wpend (h : u ∈ s.wpendOf)
  | flash (f : Sent) (h : s.flash = some f) (hu : f.sender = u)

/-- Where a session that knows no identity is told of the bond, the persisted baseline is the
bonded unit's. -/
def FirstTold (r : Record Op Unit State) : Prop :=
  r.inp.tells = true → r.pre.unit = "" → ∀ f, r.pre.flash = some f → f.sender = r.pre.bond

variable {s s' : State} {u t : String}

theorem Latch.mem_take {l : Latch} {c : ℕ} {f : Sent} (h : u ∈ (l.take c f).senders) :
    u ∈ l.senders ∨ u = f.sender := by
  unfold Latch.take at h
  split_ifs at h
  · exact (List.mem_cons.mp h).symm
  · exact .inl h

theorem put_here (s : State) (c : ℕ) (f : Sent) :
    ((s.put c f).frames c).frame = if s.keeps c f then (s.frames c).frame else some f := by
  simp [State.put]

theorem put_elsewhere {c d : ℕ} (hd : d ≠ c) (f : Sent) :
    ((s.put c f).frames d).frame = (s.frames d).frame := by
  simp [State.put, hd]

theorem put_shows {c : ℕ} {f : Sent} (h : (s.put c f).Shows u) : s.Shows u ∨ u = f.sender := by
  cases h with
  | frame d g hg hu =>
    by_cases hd : d = c
    · subst hd
      rw [put_here] at hg
      split_ifs at hg
      · exact .inl (.frame d g hg hu)
      · exact .inr (by rw [← hu, Option.some.inj hg])
    · exact .inl (.frame d g (put_elsewhere hd f ▸ hg) hu)
  | shown h => exact (Latch.mem_take h).imp_left .shown
  | gated h => exact (Latch.mem_take h).imp_left .gated
  | wg g hg hu => exact .inl (.wg g hg hu)
  | wpend h => exact .inl (.wpend h)
  | flash g hg hu => exact .inl (.flash g hg hu)

theorem adopt_shows {f : Sent} (h : (s.adoptWater f).Shows u) : s.Shows u ∨ u = f.sender := by
  cases h with
  | frame d g hg hu => exact .inl (.frame d g hg hu)
  | shown h => exact .inl (.shown h)
  | gated h => exact .inl (.gated h)
  | wpend h => exact .inl (.wpend h)
  | wg g hg hu | flash g hg hu => exact .inr (by rw [← hu, ← Option.some.inj hg])

theorem settle_cases (s : State) (f : Sent) :
    ∃ p of, (∀ u ∈ of, u ∈ s.wpendOf ∨ u = f.sender) ∧
      (s.settle f = (some f, { s with wpend := p, wpendOf := of }.adoptWater f) ∨
        s.settle f = (s.wg, { s with wpend := p, wpendOf := of, waterHeld := true })) := by
  unfold State.settle
  set r := waterSettle ⟨s.wg.map Sent.bytes, s.wpend, s.waterHeld⟩ f.bytes s.now
  refine ⟨r.2, s.settling f r.2, fun u hu => ?_, ?_⟩
  · unfold State.settling at hu
    split_ifs at hu
    · exact (List.mem_cons.mp hu).symm
    · exact .inr (List.mem_singleton.mp hu)
    · exact absurd hu List.not_mem_nil
  · dsimp only
    split_ifs
    · exact .inl rfl
    · exact .inr rfl

/-- Everything stored was sent by `t`, the unit that the session was told of last. Before it is
told after a reboot, no more than the baseline is shown. -/
structure Owned (t : String) (s : State) : Prop where
  flash : s.flash = s.wg
  own : ∀ u, s.Shows u → u ≠ "" ∧ u = t
  unit : s.unit ≠ "" → s.unit = t
  fresh : s.unit = "" → (∀ c, c ≠ waterChar → (s.frames c).frame = none) ∧
    s.shown.senders = [] ∧ s.gated.senders = [] ∧ s.wpendOf = []
  peer : ∀ p, s.peer = some p → p ≠ "" ∧ p = s.unit

/-- Of the water, the baseline is shown. -/
def State.ShowsBaseline (s : State) : Prop := (s.frames waterChar).frame = s.wg

theorem Owned.put (h : Owned t s) {c : ℕ} {f : Sent} (hunit : s.unit ≠ "") (hf : f.sender = t) :
    Owned t (s.put c f) where
  flash := h.flash
  own u hu := by
    cases put_shows hu with
    | inl hu => exact h.own u hu
    | inr hu => exact ⟨hu ▸ hf ▸ h.unit hunit ▸ hunit, hu.trans hf⟩
  unit := h.unit
  fresh hnone := absurd hnone hunit
  peer := h.peer

theorem Owned.adopt (h : Owned t s) {f : Sent} (hunit : s.unit ≠ "") (hf : f.sender = t) :
    Owned t (s.adoptWater f) where
  flash := rfl
  own u hu := by
    cases adopt_shows hu with
    | inl hu => exact h.own u hu
    | inr hu => exact ⟨hu ▸ hf ▸ h.unit hunit ▸ hunit, hu.trans hf⟩
  unit := h.unit
  fresh hnone := absurd hnone hunit
  peer := h.peer

theorem State.Shows.congr (h : s'.Shows u) (hframes : ∀ c, (s'.frames c).frame = (s.frames c).frame)
    (hshown : s'.shown = s.shown) (hgated : ∀ v ∈ s'.gated.senders, v ∈ s.gated.senders)
    (hwg : s'.wg = s.wg) (hpend : ∀ v ∈ s'.wpendOf, v ∈ s.wpendOf) (hflash : s'.flash = s.flash) :
    s.Shows u := by
  cases h with
  | frame c f hf hu => exact .frame c f (hframes c ▸ hf) hu
  | shown h => exact .shown (hshown ▸ h)
  | gated h => exact .gated (hgated u h)
  | wg f hf hu => exact .wg f (hwg ▸ hf) hu
  | wpend h => exact .wpend (hpend u h)
  | flash f hf hu => exact .flash f (hflash ▸ hf) hu

theorem Owned.guard (h : Owned t s) {f : Sent} (hunit : s.unit ≠ "") (hf : f.sender = t)
    (p : FreshPending) {of : List String} (hof : ∀ u ∈ of, u ∈ s.wpendOf ∨ u = f.sender)
    (held : Bool) : Owned t { s with wpend := p, wpendOf := of, waterHeld := held } where
  flash := h.flash
  own u hu := by
    cases hu with
    | frame c g hg hu => exact h.own u (.frame c g hg hu)
    | shown hu => exact h.own u (.shown hu)
    | gated hu => exact h.own u (.gated hu)
    | wg g hg hu => exact h.own u (.wg g hg hu)
    | flash g hg hu => exact h.own u (.flash g hg hu)
    | wpend hu =>
      cases hof u hu with
      | inl hu => exact h.own u (.wpend hu)
      | inr hu => exact ⟨hu ▸ hf ▸ h.unit hunit ▸ hunit, hu.trans hf⟩
  unit := h.unit
  fresh hnone := absurd hnone hunit
  peer := h.peer

theorem put_water (s : State) (f : Sent) :
    ((s.put waterChar f).frames waterChar).frame = some f := by
  rw [put_here, if_neg]
  unfold State.keeps
  rw [decide_eq_true_eq]
  exact fun h => absurd h.1 (by decide)

theorem Owned.store (h : Owned t s) (hwater : s.ShowsBaseline) {p : String}
    (hpeer : s.peer = some p) (c : ℕ) (data : List Byte) :
    Owned t (s.store c ⟨data, p⟩) ∧ (s.store c ⟨data, p⟩).ShowsBaseline := by
  obtain ⟨hp, hunit⟩ := h.peer p hpeer
  have hne : s.unit ≠ "" := hunit ▸ hp
  have ht : p = t := hunit.trans (h.unit hne)
  unfold State.store
  dsimp only
  split_ifs with hc
  · subst hc
    obtain ⟨pend, of, hof, hs | hs⟩ := settle_cases s ⟨data.take frameMax, p⟩
    · rw [hs]
      exact ⟨((h.guard hne ht pend hof s.waterHeld).adopt hne ht).put hne ht, put_water _ _⟩
    · rw [hs]
      dsimp only
      split
      · rename_i g hwg
        exact ⟨(h.guard hne ht pend hof true).put hne (h.own _ (.wg g hwg rfl)).2,
          (put_water _ _).trans hwg.symm⟩
      · exact ⟨h.guard hne ht pend hof true, hwater⟩
  · refine ⟨h.put hne ht, ?_⟩
    exact (put_elsewhere (Ne.symm hc) _).trans hwater

theorem seed_rest (s : State) : s.seedWaterFrame.wg = s.wg ∧ s.seedWaterFrame.flash = s.flash ∧
    s.seedWaterFrame.shown = s.shown ∧ s.seedWaterFrame.gated = s.gated ∧
    s.seedWaterFrame.unit = s.unit ∧ s.seedWaterFrame.peer = s.peer ∧
    s.seedWaterFrame.wpendOf = s.wpendOf := by
  unfold State.seedWaterFrame
  split <;> exact ⟨rfl, rfl, rfl, rfl, rfl, rfl, rfl⟩

/-- A state that shows no frame yet shows its baseline after `seed_water_frame`, and no more. -/
theorem seed_blank (hframes : s.frames = fun _ => {}) (hshown : s.shown.senders = [])
    (hgated : s.gated.senders = []) (hpend : s.wpendOf = []) : s.seedWaterFrame.ShowsBaseline ∧
      (∀ c, c ≠ waterChar → (s.seedWaterFrame.frames c).frame = none) ∧
      ∀ u, s.seedWaterFrame.Shows u → ∃ f, (s.wg = some f ∨ s.flash = some f) ∧ f.sender = u := by
  have hseed : ∀ c, (s.seedWaterFrame.frames c).frame = if c = waterChar then s.wg else none := by
    intro c
    unfold State.seedWaterFrame
    split
    · rename_i f hwg
      by_cases hc : c = waterChar
      · simp [hc, hwg]
      · simp [hc, hframes]
    · rename_i hwg
      rw [hframes, hwg]
      split_ifs <;> rfl
  obtain ⟨hwg, hflash, hs, hg, -, -, hp⟩ := seed_rest s
  refine ⟨?_, fun c hc => (hseed c).trans (if_neg hc), fun u hu => ?_⟩
  · unfold State.ShowsBaseline
    rw [hseed, if_pos rfl, hwg]
  · cases hu with
    | frame c f hf hu =>
      rw [hseed] at hf
      split_ifs at hf
      exact ⟨f, .inl hf, hu⟩
    | shown h => rw [hs, hshown] at h; cases h
    | gated h => rw [hg, hgated] at h; cases h
    | wpend h => rw [hp, hpend] at h; cases h
    | wg f hf hu => exact ⟨f, .inl (hwg ▸ hf), hu⟩
    | flash f hf hu => exact ⟨f, .inr (hflash ▸ hf), hu⟩

theorem Owned.baseline (h : Owned t s) (hwater : s.ShowsBaseline) (hunit : s.unit = "")
    (hu : s.Shows u) : ∃ f, s.flash = some f ∧ f.sender = u := by
  obtain ⟨hframes, hshown, hgated, hpend⟩ := h.fresh hunit
  cases hu with
  | frame c f hf hu =>
    by_cases hc : c = waterChar
    · exact ⟨f, h.flash.trans (hwater.symm.trans (hc ▸ hf)), hu⟩
    · rw [hframes c hc] at hf
      cases hf
  | shown hu => rw [hshown] at hu; cases hu
  | gated hu => rw [hgated] at hu; cases hu
  | wpend hu => rw [hpend] at hu; cases hu
  | wg f hf hu => exact ⟨f, h.flash.trans hf, hu⟩
  | flash f hf hu => exact ⟨f, hf, hu⟩

/-- After a reboot, and after a change of the bond, no more than the baseline is left. -/
theorem Owned.seed (hframes : s.frames = fun _ => {}) (hshown : s.shown.senders = [])
    (hgated : s.gated.senders = []) (hpend : s.wpendOf = []) (hflash : s.flash = s.wg)
    (hwg : ∀ f, s.wg = some f → f.sender ≠ "" ∧ f.sender = t) (hunit : s.unit ≠ "" → s.unit = t)
    (hpeer : ∀ p, s.peer = some p → p ≠ "" ∧ p = s.unit) :
    Owned t s.seedWaterFrame ∧ s.seedWaterFrame.ShowsBaseline := by
  obtain ⟨hwater, hnone, hown⟩ := seed_blank hframes hshown hgated hpend
  obtain ⟨hw, hf, hs, hg, hu, hp, hl⟩ := seed_rest s
  refine ⟨⟨hf.trans (hflash.trans hw.symm), fun u hu => ?_, hu ▸ hunit,
    fun _ => ⟨hnone, hs ▸ hshown, hg ▸ hgated, hl ▸ hpend⟩, hu ▸ hp ▸ hpeer⟩, hwater⟩
  obtain ⟨f, hf, rfl⟩ := hown u hu
  exact hwg f (hf.elim id fun hf => hflash ▸ hf)

/-- The session is told of the bond, over a link to the bonded unit or without one. -/
theorem Owned.unitCheck (h : Owned t { s with peer := none }) (hwater : s.ShowsBaseline)
    (hpeer : ∀ p, s.peer = some p → p ≠ "" ∧ p = s.bond)
    (hfirst : s.unit = "" → ∀ f, s.flash = some f → f.sender = s.bond) :
    Owned s.bond s.unitCheck ∧ s.unitCheck.ShowsBaseline := by
  have hwg : s.unit = "" → ∀ f, s.wg = some f → f.sender ≠ "" ∧ f.sender = s.bond :=
    fun hunit f hf => ⟨(h.own _ (.wg f hf rfl)).1, hfirst hunit f (h.flash.trans hf)⟩
  unfold State.unitCheck
  split_ifs with hbond
  · refine ⟨⟨h.flash, fun u hu => ?_, fun _ => hbond.symm, h.fresh,
      fun p hp => hbond ▸ hpeer p hp⟩, hwater⟩
    have hu' : { s with peer := none : State }.Shows u :=
      hu.congr (fun _ => rfl) rfl (fun _ hv => hv) rfl (fun _ hv => hv) rfl
    by_cases hunit : s.unit = ""
    · obtain ⟨f, hf, rfl⟩ := h.baseline hwater hunit hu'
      exact hwg hunit f (h.flash.symm.trans hf)
    · obtain ⟨hne, ht⟩ := h.own u hu'
      exact ⟨hne, ht.trans ((h.unit hunit).symm.trans hbond.symm)⟩
  · dsimp only
    by_cases hunit : s.unit = ""
    · rw [hunit]
      have hpend : s.wpendOf = [] := (h.fresh hunit).2.2.2
      exact Owned.seed rfl rfl rfl hpend h.flash (hwg hunit) (fun _ => rfl) hpeer
    · rw [if_pos (decide_eq_true hunit)]
      exact Owned.seed rfl rfl rfl rfl rfl (fun _ hf => (by cases hf)) (fun _ => rfl) hpeer

theorem Owned.reboot (h : Owned t s) : Owned t s.reboot ∧ s.reboot.ShowsBaseline :=
  Owned.seed rfl rfl rfl rfl rfl (fun f hf => h.own _ (.flash f hf rfl)) (absurd rfl)
    fun _ hp => (by cases hp)

theorem Owned.unlinked (h : Owned t s) : Owned t { s with peer := none } where
  flash := h.flash
  own u hu := h.own u (hu.congr (fun _ => rfl) rfl (fun _ hv => hv) rfl (fun _ hv => hv) rfl)
  unit := h.unit
  fresh := h.fresh
  peer _ hp := by cases hp

theorem Owned.stop (h : Owned t s) (hwater : s.ShowsBaseline)
    (hfirst : s.unit = "" → ∀ f, s.flash = some f → f.sender = s.bond) :
    Owned s.bond s.stop ∧ s.stop.ShowsBaseline :=
  Owned.unitCheck (s := { s with peer := none }) h.unlinked hwater
    (fun _ hp => (by cases hp)) hfirst

theorem Owned.linkUp (h : Owned t s) (hwater : s.ShowsBaseline) (hbond : s.bond ≠ "")
    (hfirst : s.unit = "" → ∀ f, s.flash = some f → f.sender = s.bond) :
    Owned s.bond s.linkUp ∧ s.linkUp.ShowsBaseline := by
  obtain ⟨hown, hwater⟩ := Owned.unitCheck (s := { s with peer := some s.bond }) h.unlinked hwater
    (fun p hp => Option.some.inj hp ▸ ⟨hbond, rfl⟩) hfirst
  refine ⟨⟨hown.flash, fun u hu => hown.own u
    (hu.congr (fun _ => rfl) rfl ?_ rfl (fun _ hv => hv) rfl), hown.unit,
    fun hunit => ⟨(hown.fresh hunit).1, (hown.fresh hunit).2.1, rfl, (hown.fresh hunit).2.2.2⟩,
    hown.peer⟩, hwater⟩
  exact fun _ hv => by cases hv

theorem Owned.kept (h : Owned t { s with peer := none }) {f : Sent} (hf : s.wg = some f)
    (hbond : f.sender = s.bond) : s.unitCheck.wg = s.wg := by
  obtain ⟨hne, ht⟩ := h.own _ (.wg f hf rfl)
  unfold State.unitCheck
  split_ifs with hunit
  · rfl
  · have hnone : s.unit = "" := by
      by_contra hsome
      exact hunit (hbond.symm.trans (ht.trans (h.unit hsome).symm))
    dsimp only
    rw [hnone]
    exact (seed_rest _).1

/-- A reboot and a link to the bonded unit keep the baseline, and the level that is shown. -/
def Keeps (r : Record Op Unit State) : Prop :=
  (r.inp = .reboot ∨ r.inp.tells = true ∧ ∃ f, r.pre.wg = some f ∧ f.sender = r.pre.bond) →
    r.post.wg = r.pre.wg ∧ (r.post.frames waterChar).frame = r.pre.wg

variable {tr : List (Record Op Unit State)}

theorem step_owned {i : Op} {o : Unit} (h : Owned t s) (hwater : s.ShowsBaseline)
    (hs : step i s = some (o, s')) (hc : FirstTold ⟨i, s, o, s'⟩) :
    Owned (if i.tells then s.bond else t) s' ∧ s'.ShowsBaseline ∧ Keeps ⟨i, s, o, s'⟩ := by
  unfold step at hs
  obtain ⟨hlegal, hs⟩ := Option.ite_none_right_eq_some.mp hs
  obtain ⟨-, rfl⟩ := Prod.mk.inj (Option.some.inj hs)
  cases i with
  | reboot =>
    obtain ⟨hown, hbase⟩ := h.reboot
    have hwg : s.reboot.wg = s.wg := (seed_rest _).1.trans h.flash
    exact ⟨hown, hbase, fun _ => ⟨hwg, hbase.trans hwg⟩⟩
  | bond identity =>
    exact ⟨⟨h.flash, fun u hu => h.own u
      (hu.congr (fun _ => rfl) rfl (fun _ hv => hv) rfl (fun _ hv => hv) rfl),
      h.unit, h.fresh, h.peer⟩, hwater, fun hk => (by rcases hk with hk | ⟨hk, -⟩ <;> cases hk)⟩
  | linkUp =>
    obtain ⟨hown, hbase⟩ := h.linkUp hwater (of_decide_eq_true hlegal) (hc rfl)
    refine ⟨hown, hbase, fun hk => ?_⟩
    obtain ⟨f, hf, hbond⟩ := (hk.resolve_left Op.noConfusion).2
    have hwg : s.linkUp.wg = s.wg :=
      Owned.kept (s := { s with peer := some s.bond }) h.unlinked hf hbond
    exact ⟨hwg, hbase.trans hwg⟩
  | linkDown => exact ⟨h.unlinked, hwater, fun hk => (by rcases hk with hk | ⟨hk, -⟩ <;> cases hk)⟩
  | stop =>
    obtain ⟨hown, hbase⟩ := h.stop hwater (hc rfl)
    refine ⟨hown, hbase, fun hk => ?_⟩
    obtain ⟨f, hf, hbond⟩ := (hk.resolve_left Op.noConfusion).2
    have hwg : s.stop.wg = s.wg := Owned.kept (s := { s with peer := none }) h.unlinked hf hbond
    exact ⟨hwg, hbase.trans hwg⟩
  | frame char data =>
    obtain ⟨p, hp⟩ := Option.isSome_iff_exists.mp (of_decide_eq_true hlegal).1
    have hstore : (Op.frame char data).apply s = s.store char ⟨data, p⟩ := by
      show s.store char ⟨data, s.peer.getD ""⟩ = _
      rw [hp]
      rfl
    rw [hstore]
    obtain ⟨hown, hbase⟩ := h.store hwater hp char data
    exact ⟨hown, hbase, fun hk => (by rcases hk with hk | ⟨hk, -⟩ <;> cases hk)⟩
  | clock now =>
    exact ⟨⟨h.flash, fun u hu => h.own u
      (hu.congr (fun _ => rfl) rfl (fun _ hv => hv) rfl (fun _ hv => hv) rfl),
      h.unit, h.fresh, h.peer⟩, hwater, fun hk => (by rcases hk with hk | ⟨hk, -⟩ <;> cases hk)⟩

theorem run_owned (h : Run step {} tr s) (hc : ∀ r ∈ tr, FirstTold r) :
    Owned (told tr) s ∧ s.ShowsBaseline ∧ ∀ r ∈ tr, Keeps r := by
  induction h with
  | nil =>
    refine ⟨⟨rfl, fun u hu => ?_, absurd rfl, fun _ => ⟨fun _ _ => rfl, rfl, rfl, rfl⟩,
      fun _ hp => (by cases hp)⟩, rfl, List.forall_mem_nil _⟩
    cases hu with
    | frame _ _ hf | wg _ hf | flash _ hf => cases hf
    | shown hu | gated hu | wpend hu => cases hu
  | cons hr hs ih =>
    obtain ⟨hown, hwater, hkeeps⟩ := ih fun r hr => hc r (List.mem_cons_of_mem _ hr)
    obtain ⟨hown', hwater', hkeeps'⟩ := step_owned hown hwater hs (hc _ List.mem_cons_self)
    exact ⟨hown', hwater', List.forall_mem_cons.mpr ⟨hkeeps', hkeeps⟩⟩

/-- Where the baseline that a boot finds is the bonded unit's when the session of this boot is first
told of the bond: whatever is stored, served, gated on or persisted was sent by the unit that the
session was told of last, and a reboot or a link with the same bond drops nothing of the baseline.
-/
theorem units_apart (h : Run step {} tr s) (hc : ∀ r ∈ tr, FirstTold r) :
    (∀ u, s.Shows u → u ≠ "" ∧ u = told tr) ∧ ∀ r ∈ tr, Keeps r :=
  ⟨(run_owned h hc).1.own, (run_owned h hc).2.2⟩

/-- 17 litres. -/
def level : List Byte := [0x03, 17, 40, 0, 0, 40]

/-- A unit is bonded, its level settles on a link, and the satellite reboots. -/
def parked : List Op :=
  [.reboot, .frame waterChar level, .clock 5000, .frame waterChar level, .linkUp, .bond "A"]

theorem units_apart_reconnect : ∃ tr s, Run step {} tr s ∧
    tr.map Record.inp = .linkUp :: parked ∧ (∀ u, s.Shows u → u ≠ "" ∧ u = told tr) ∧
    ∀ r ∈ tr, Keeps r := by
  have hrun : Run step {} _ _ := .cons (i := .linkUp) (.cons (i := .reboot)
    (.cons (i := .frame waterChar level) (.cons (i := .clock 5000)
      (.cons (i := .frame waterChar level) (.cons (i := .linkUp) (.cons (i := .bond "A")
        .nil rfl) rfl) rfl) rfl) rfl) rfl) rfl
  have hquiet : ∀ r : Record Op Unit State, r.inp.tells = false → FirstTold r :=
    fun r hr ht => absurd (hr.symm.trans ht) Bool.noConfusion
  refine ⟨_, _, hrun, rfl, units_apart hrun ?_⟩
  simp only [List.forall_mem_cons]
  refine ⟨fun _ _ f hf => ?_, hquiet _ rfl, hquiet _ rfl, hquiet _ rfl, hquiet _ rfl,
    fun _ _ f hf => ?_, hquiet _ rfl, List.forall_mem_nil _⟩
  · rw [← Option.some.inj hf]
    rfl
  · cases hf

/-- The bond is forgotten before the first link of the boot. The session is told at once, and again
by the link to another unit, and shows the level of the first one. -/
theorem forgotten_level_shown : ∃ tr s, Run step {} tr s ∧
    tr.map Record.inp = [.linkUp, .bond "B", .stop, .bond ""] ++ parked ∧ told tr = "B" ∧
    (s.frames waterChar).frame = some ⟨level, "A"⟩ ∧ s.wg = some ⟨level, "A"⟩ :=
  ⟨_, _, .cons (.cons (.cons (.cons (.cons (.cons (.cons (.cons (.cons (.cons .nil rfl) rfl) rfl)
    rfl) rfl) rfl) rfl) rfl) rfl) rfl, rfl, rfl, rfl, rfl⟩

end OpenCalifornia.Session.Units
