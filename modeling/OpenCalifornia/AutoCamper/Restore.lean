import Mathlib
import OpenCalifornia.AutoCamper.Decide

/-! # Why a restore is due

Every actuation of a run points back at the engine start that armed its debt and at the park that
opened its window. Polls with a missing reading leave the state alone, so the history that counts
is the list of the complete ones. -/

namespace OpenCalifornia.AutoCamper

open OpenCalifornia.Lib.Machine

variable {τ : Type}

abbrev Rec (τ : Type) := Record (Poll τ) Decision (State τ)

/-- Both readings that the rule steps on are there. -/
def Poll.known (p : Poll τ) : Bool := p.ignitionOn.isSome && p.masterOn.isSome

def known (tr : List (Rec τ)) : List (Rec τ) := tr.filter fun r => r.inp.known

/-- Camping goes off between two polls with the ignition off at both. -/
def ManualOff (before after : Poll τ) : Prop :=
  before.ignitionOn = some false ∧ before.masterOn = some true ∧
    after.ignitionOn = some false ∧ after.masterOn = some false

/-- The engine starts, and camping was on at the poll before. -/
def EngineStart (before start : Poll τ) : Prop :=
  before.ignitionOn = some false ∧ before.masterOn = some true ∧ start.ignitionOn = some true

/-- Camping is on with the ignition off: a restore that is owed has succeeded. -/
def Back (p : Poll τ) : Prop := p.ignitionOn = some false ∧ p.masterOn = some true

/-- What a restore after this poll would bring back: camping, with USB and lights as they are. -/
def Poll.config (p : Poll τ) : Config := ⟨true, truth p.usbOn, truth p.lightsOn⟩

/-- The records, newest first, owe `c`: since the engine start that armed it nobody switched
camping off by hand, and no poll read camping on again while parked. -/
def Debt (ks : List (Rec τ)) (c : Config) : Prop :=
  ∃ since before rest start, ks = since ++ start :: before :: rest ∧
    EngineStart before.inp start.inp ∧ c = before.inp.config ∧
    List.IsChain (fun new old => ¬ ManualOff old.inp new.inp) (since ++ [start]) ∧
    ∀ r ∈ since ++ [start], ¬ Back r.inp ∧ r.out.restored = false

/-- The records, newest first, end in a stretch of ignition off that began at `park`. -/
structure Parked (ks stretch : List (Rec τ)) (park : Rec τ) : Prop where
  engine : ∃ on rest, ks = stretch ++ park :: on :: rest ∧ on.inp.ignitionOn = some true
  off : ∀ r ∈ stretch ++ [park], r.inp.ignitionOn = some false

def attempts (rs : List (Rec τ)) : ℤ := rs.countP fun r => r.out.actuate

/-- An actuation as the rule allows it, `ks` being the complete polls up to it. -/
structure Justified [Add τ] [LT τ] (cfg : Cfg τ) (ks : List (Rec τ)) (e : Rec τ) : Prop where
  off : e.inp.ignitionOn = some false
  shed : e.inp.masterOn = some false
  owed : ∃ c, e.out.restoreConfig = some c ∧ Debt ks c
  window : ∃ stretch park, Parked ks stretch park ∧ ¬ park.inp.now + cfg.windowS < e.inp.now ∧
    attempts (stretch ++ [park]) ≤ cfg.maxFails
  battery : ∀ v, e.inp.soc = some v → cfg.minSoc ≤ v
  calm : e.inp.warning = false

theorem attempts_cons (e : Rec τ) (rs : List (Rec τ)) :
    attempts (e :: rs) = attempts rs + if e.out.actuate then 1 else 0 := by
  unfold attempts
  rw [List.countP_cons]
  split_ifs <;> simp

theorem known_cons_of_known {e : Rec τ} (h : e.inp.known) (tr : List (Rec τ)) :
    known (e :: tr) = e :: known tr := List.filter_cons_of_pos h

theorem known_cons_of_not {e : Rec τ} (h : ¬ e.inp.known) (tr : List (Rec τ)) :
    known (e :: tr) = known tr := List.filter_cons_of_neg h

section Restoring

variable [Add τ] [LT τ] [DecidableLT τ] {cfg : Cfg τ} {ign m : Bool} {p : Poll τ} {s : State τ}

omit [Add τ] in
theorem restoring_owe (h : (restoring cfg ign m p s).2.oweRestore = true) :
    s.oweRestore = true ∧ (restoring cfg ign m p s).1.restored = false ∧
      (restoring cfg ign m p s).2.preDrive = s.preDrive ∧
      (restoring cfg ign m p s).2.restoreUntil = s.restoreUntil ∧
      (restoring cfg ign m p s).2.fails =
        s.fails + if (restoring cfg ign m p s).1.actuate then 1 else 0 := by
  unfold restoring at h ⊢
  cases hu : s.restoreUntil with
  | none => simp_all
  | some u =>
    simp only [hu] at h ⊢
    split_ifs at h ⊢ <;> simp_all [State.disarm]

omit [Add τ] in
theorem restoring_back (hu : s.restoreUntil.isSome) :
    (restoring cfg false true p s).2.oweRestore = false := by
  obtain ⟨u, hu⟩ := Option.isSome_iff_exists.mp hu
  unfold restoring
  rw [hu]
  dsimp only
  rw [if_pos rfl]
  by_cases howe : ¬ s.oweRestore
  · rw [if_pos (.inl howe)]
    simpa using howe
  rw [if_neg (by simpa using howe)]
  split_ifs with hlate
  · rfl
  · rfl

omit [Add τ] in
theorem restoring_actuate (h : (restoring cfg ign m p s).1.actuate = true) :
    ign = false ∧ (restoring cfg ign m p s).2.oweRestore = true ∧
      (restoring cfg ign m p s).1.restoreConfig = s.preDrive ∧ s.fails < cfg.maxFails ∧
      (∃ u, s.restoreUntil = some u ∧ ¬ u < p.now) ∧
      (∀ v, p.soc = some v → cfg.minSoc ≤ v) ∧ p.warning = false := by
  unfold restoring at h ⊢
  cases hu : s.restoreUntil with
  | none => simp [hu] at h
  | some u =>
    simp only [hu] at h ⊢
    split_ifs at h ⊢ with h₁ h₂ h₃ h₄ h₅
    simp only [not_or, Bool.not_eq_true] at h₁ h₄
    refine ⟨h₁.2, by simpa using h₁.1, rfl, Int.lt_of_not_ge h₅, ⟨u, rfl, h₂⟩, ?_, h₄.2⟩
    intro v hv
    have hs := h₄.1
    rw [hv, Option.any_some] at hs
    exact Int.not_lt.mp (of_decide_eq_false hs)

end Restoring

/-- The previous readings in the state are those of the newest complete poll. -/
def Prev (ks : List (Rec τ)) (s : State τ) : Prop :=
  match ks with
  | [] => s.prevIgnition = none ∧ s.prevMaster = none
  | r :: _ => ∃ ign m, r.inp.ignitionOn = some ign ∧ r.inp.masterOn = some m ∧
      s.prevIgnition = some ign ∧ s.prevMaster = some m ∧
      s.prevUsb = some (truth r.inp.usbOn) ∧ s.prevLights = some (truth r.inp.lightsOn)

/-- A window in the state is the one of the last park, while the ignition stays off. -/
def WindowOpen [Add τ] (cfg : Cfg τ) (ks : List (Rec τ)) (u : τ) (fails : ℤ) : Prop :=
  ∃ stretch park, Parked ks stretch park ∧ u = park.inp.now + cfg.windowS ∧
    fails = attempts (stretch ++ [park])

structure Inv [Add τ] (cfg : Cfg τ) (ks : List (Rec τ)) (s : State τ) : Prop where
  prev : Prev ks s
  debt : s.oweRestore = true → ∃ c, s.preDrive = some c ∧ Debt ks c
  waits : s.oweRestore = true → s.prevIgnition = some false → s.restoreUntil.isSome
  park : s.oweRestore = true → s.prevIgnition = some false →
    ∀ u, s.restoreUntil = some u → WindowOpen cfg ks u s.fails

theorem Debt.cons {ks : List (Rec τ)} {c : Config} (h : Debt ks c) {e : Rec τ}
    (hm : ∀ r ∈ ks.head?, ¬ ManualOff r.inp e.inp) (hb : ¬ Back e.inp)
    (hr : e.out.restored = false) : Debt (e :: ks) c := by
  obtain ⟨since, before, rest, start, rfl, hs, hc, hch, hres⟩ := h
  refine ⟨e :: since, before, rest, start, rfl, hs, hc, ?_, ?_⟩
  · apply List.IsChain.cons hch
    intro r hr
    apply hm r
    cases since <;> exact hr
  · intro r hmem
    rw [List.cons_append, List.mem_cons] at hmem
    cases hmem with
    | inl h => exact h ▸ ⟨hb, hr⟩
    | inr h => exact hres r h

theorem Debt.start {before start : Rec τ} {rest : List (Rec τ)}
    (h : EngineStart before.inp start.inp) (hr : start.out.restored = false) :
    Debt (start :: before :: rest) before.inp.config := by
  refine ⟨[], before, rest, start, rfl, h, rfl, .singleton start, ?_⟩
  intro r hmem
  rw [List.nil_append, List.mem_singleton] at hmem
  have hb : ¬ Back start.inp := fun hback => by
    have hon := h.2.2.symm.trans hback.1
    cases hon
  exact hmem ▸ ⟨hb, hr⟩

theorem Parked.cons {ks stretch : List (Rec τ)} {park e : Rec τ} (h : Parked ks stretch park)
    (he : e.inp.ignitionOn = some false) : Parked (e :: ks) (e :: stretch) park := by
  obtain ⟨on, rest, hks, hon⟩ := h.engine
  refine ⟨⟨on, rest, by rw [hks, List.cons_append], hon⟩, ?_⟩
  intro r hr
  rw [List.cons_append, List.mem_cons] at hr
  cases hr with
  | inl hr => exact hr ▸ he
  | inr hr => exact h.off r hr

theorem Parked.start {on park : Rec τ} {rest : List (Rec τ)}
    (hon : on.inp.ignitionOn = some true) (hp : park.inp.ignitionOn = some false) :
    Parked (park :: on :: rest) [] park := by
  refine ⟨⟨on, rest, rfl, hon⟩, ?_⟩
  intro r hr
  rw [List.nil_append, List.mem_singleton] at hr
  exact hr ▸ hp

section Step

variable [Add τ] {cfg : Cfg τ} {ks : List (Rec τ)} {s : State τ} {e : Rec τ} {ign m : Bool}

/-- The state that the restoring branch sees. -/
def beforeRestoring (cfg : Cfg τ) (ign m : Bool) (now : τ) (s : State τ) : State τ :=
  park cfg ign now (cancel ign m (arm ign s))

theorem beforeRestoring_on (now : τ) : beforeRestoring cfg true m now s = arm true s := by
  simp [beforeRestoring, park, cancel]

omit [Add τ] in
theorem arm_off : arm false s = s := by
  simp [arm]

theorem park_owe (now : τ) : (park cfg ign now s).oweRestore = s.oweRestore := by
  unfold park
  split_ifs <;> rfl

theorem park_preDrive (now : τ) : (park cfg ign now s).preDrive = s.preDrive := by
  unfold park
  split_ifs <;> rfl

omit [Add τ] in
theorem cancel_owe (h : (cancel false m s).oweRestore = true) :
    cancel false m s = s ∧ ¬ (truth s.prevIgnition = false ∧ truth s.prevMaster = true ∧
      m = false) := by
  have hn : ¬ (truth s.prevIgnition = false ∧ truth s.prevMaster = true ∧ m = false) := by
    rintro ⟨hi, hpm, rfl⟩
    simp [cancel, hi, hpm] at h
  refine ⟨if_neg ?_, hn⟩
  rintro ⟨-, hi, hpm, hm⟩
  exact hn ⟨by simpa using hi, hpm, by simpa using hm⟩

theorem Inv.owed (h : Inv cfg ks s) (hi : e.inp.ignitionOn = some ign)
    (hm : e.inp.masterOn = some m) {now : τ}
    (ht : (beforeRestoring cfg ign m now s).oweRestore = true)
    (hb : ¬ Back e.inp) (hr : e.out.restored = false) :
    ∃ c, (beforeRestoring cfg ign m now s).preDrive = some c ∧ Debt (e :: ks) c := by
  cases ign with
  | true =>
    rw [beforeRestoring_on] at ht ⊢
    unfold arm at ht ⊢
    split_ifs at ht ⊢ with ha
    · obtain ⟨-, hpi, hpm, -⟩ := ha
      have hp := h.prev
      cases ks with
      | nil => simp [truth, hp.2] at hpm
      | cons r rest =>
        obtain ⟨ign', m', hri, hrm, hsi, hsm, hsu, hsl⟩ := hp
        obtain rfl : ign' = false := by simpa [truth, hsi] using hpi
        obtain rfl : m' = true := by simpa [truth, hsm] using hpm
        refine ⟨_, rfl, ?_⟩
        have hd : Debt (e :: r :: rest) _ := Debt.start ⟨hri, hrm, hi⟩ hr
        simpa [truth, hsu, hsl, Poll.config] using hd
    · obtain ⟨c, hc, hd⟩ := h.debt ht
      refine ⟨c, hc, hd.cons ?_ hb hr⟩
      rintro r - ⟨-, -, hoff, -⟩
      rw [hi] at hoff
      cases hoff
  | false =>
    unfold beforeRestoring at ht ⊢
    rw [park_owe, arm_off] at ht
    rw [park_preDrive, arm_off]
    obtain ⟨hc, hn⟩ := cancel_owe ht
    rw [hc] at ht ⊢
    obtain ⟨c, hpre, hd⟩ := h.debt ht
    refine ⟨c, hpre, hd.cons ?_ hb hr⟩
    intro r hr' hoff
    have hp := h.prev
    cases ks with
    | nil => cases hr'
    | cons r' rest =>
      obtain rfl : r' = r := by simpa using hr'
      obtain ⟨ign', m', hri, hrm, hsi, hsm, -⟩ := hp
      obtain ⟨h₁, h₂, -, h₄⟩ := hoff
      rw [hri] at h₁
      rw [hrm] at h₂
      rw [hm] at h₄
      apply hn
      rw [hsi, hsm, h₁, h₂]
      exact ⟨rfl, rfl, Option.some.inj h₄⟩

theorem Inv.until (h : Inv cfg ks s) {now : τ}
    (ht : (beforeRestoring cfg false m now s).oweRestore = true) :
    (beforeRestoring cfg false m now s).restoreUntil.isSome := by
  unfold beforeRestoring at ht ⊢
  rw [park_owe, arm_off] at ht
  rw [arm_off]
  obtain ⟨hc, -⟩ := cancel_owe ht
  rw [hc] at ht ⊢
  unfold AutoCamper.park
  by_cases hfall : ¬ false = true ∧ truth s.prevIgnition = true ∧ s.oweRestore = true
  · rw [if_pos (by simpa using hfall)]
    rfl
  rw [if_neg (by simpa using hfall)]
  obtain ⟨c, -, since, before, rest, start, hks, -⟩ := h.debt ht
  have hp := h.prev
  cases ks with
  | nil => simp at hks
  | cons r ks =>
    obtain ⟨ign', m', -, -, hsi, -⟩ := hp
    have hoff : ign' = false := by
      by_contra hon
      rw [Bool.not_eq_false] at hon
      exact hfall (by simp [truth, hsi, hon, ht])
    exact h.waits ht (hoff ▸ hsi)

theorem Inv.window (h : Inv cfg ks s) (hi : e.inp.ignitionOn = some false) {now : τ}
    (hnow : now = e.inp.now) (ht : (beforeRestoring cfg false m now s).oweRestore = true) {u : τ}
    (hu : (beforeRestoring cfg false m now s).restoreUntil = some u) :
    ∃ stretch park, Parked (e :: ks) stretch park ∧ u = park.inp.now + cfg.windowS ∧
      attempts (stretch ++ [park]) =
        (beforeRestoring cfg false m now s).fails + if e.out.actuate then 1 else 0 := by
  unfold beforeRestoring at ht hu ⊢
  rw [park_owe, arm_off] at ht
  rw [arm_off] at hu ⊢
  obtain ⟨hc, -⟩ := cancel_owe ht
  rw [hc] at ht hu ⊢
  obtain ⟨c, -, hd⟩ := h.debt ht
  have hp := h.prev
  cases ks with
  | nil =>
    obtain ⟨since, before, rest, start, hks, -⟩ := hd
    simp at hks
  | cons r rest =>
    obtain ⟨ign', m', hri, hrm, hsi, hsm, -⟩ := hp
    cases ign' with
    | true =>
      -- the falling edge: this poll opens the window
      have hpark : AutoCamper.park cfg false now s =
          { s with restoreUntil := some (now + cfg.windowS), fails := 0 } :=
        if_pos ⟨by simp, by simp [truth, hsi], ht⟩
      rw [hpark] at hu ⊢
      refine ⟨[], e, .start hri hi, ?_, ?_⟩
      · rw [← hnow]
        exact (Option.some.inj hu).symm
      · rw [List.nil_append, attempts_cons]
        rfl
    | false =>
      have hpark : AutoCamper.park cfg false now s = s := if_neg (by simp [truth, hsi])
      rw [hpark] at hu ⊢
      obtain ⟨stretch, p, hst, hw, hf⟩ := h.park ht hsi u hu
      refine ⟨e :: stretch, p, hst.cons hi, hw, ?_⟩
      rw [List.cons_append, attempts_cons, hf]

omit [Add τ] in
theorem Prev.roll (hi : e.inp.ignitionOn = some ign) (hm : e.inp.masterOn = some m)
    (s : State τ) : Prev (e :: ks) (s.roll ign m e.inp) :=
  ⟨ign, m, hi, hm, rfl, rfl, rfl, rfl⟩

variable [LT τ] [DecidableLT τ]

theorem restoreDecide_known {p : Poll τ} (hi : p.ignitionOn = some ign)
    (hm : p.masterOn = some m) (s : State τ) :
    restoreDecide cfg s p =
      let r := restoring cfg ign m p (beforeRestoring cfg ign m p.now s)
      (r.1, r.2.roll ign m p) := by
  unfold restoreDecide
  rw [hi, hm]
  rfl

theorem restoreDecide_unknown {p : Poll τ} (h : ¬ p.known) (s : State τ) :
    restoreDecide cfg s p = ({}, s) := by
  unfold restoreDecide
  unfold Poll.known at h
  cases hi : p.ignitionOn with
  | none => rfl
  | some ign =>
    cases hm : p.masterOn with
    | none => rfl
    | some m => simp [hi, hm] at h

theorem Inv.step (h : Inv cfg ks e.pre) (hi : e.inp.ignitionOn = some ign)
    (hm : e.inp.masterOn = some m) (he : restoreDecide cfg e.pre e.inp = (e.out, e.post)) :
    Inv cfg (e :: ks) e.post ∧ (e.out.actuate = true → Justified cfg (e :: ks) e) := by
  rw [restoreDecide_known hi hm] at he
  obtain ⟨hout, hpost⟩ := Prod.mk.inj he
  have back : e.post.oweRestore = true → ¬ Back e.inp := by
    rintro ho ⟨hoff, hon⟩
    obtain rfl : ign = false := Option.some.inj (hi.symm.trans hoff)
    obtain rfl : m = true := Option.some.inj (hm.symm.trans hon)
    rw [← hpost] at ho
    obtain ⟨ht, -⟩ := restoring_owe ho
    exact Bool.noConfusion ((restoring_back (h.until ht)).symm.trans ho)
  have debt : e.post.oweRestore = true → ∃ c, e.post.preDrive = some c ∧ Debt (e :: ks) c := by
    intro ho
    have hb := back ho
    rw [← hpost] at ho ⊢
    obtain ⟨ht, hr, hp, -, -⟩ := restoring_owe ho
    obtain ⟨c, hc, hd⟩ := h.owed hi hm ht hb (hout ▸ hr)
    exact ⟨c, hp.trans hc, hd⟩
  have waits : e.post.oweRestore = true → e.post.prevIgnition = some false →
      e.post.restoreUntil.isSome := by
    intro ho hoff
    rw [← hpost] at ho hoff ⊢
    obtain rfl : ign = false := Option.some.inj hoff
    obtain ⟨ht, -, -, hw, -⟩ := restoring_owe ho
    exact hw ▸ h.until ht
  have window : e.post.oweRestore = true → e.inp.ignitionOn = some false →
      ∀ u, e.post.restoreUntil = some u → WindowOpen cfg (e :: ks) u e.post.fails := by
    intro ho hoff u hu
    obtain rfl : ign = false := Option.some.inj (hi.symm.trans hoff)
    rw [← hpost] at ho hu ⊢
    obtain ⟨ht, -, -, hw, hf⟩ := restoring_owe ho
    obtain ⟨stretch, p, hst, hpu, hpf⟩ := h.window hi rfl ht (hw.symm.trans hu)
    refine ⟨stretch, p, hst, hpu, ?_⟩
    rw [hpf, ← hout]
    exact hf
  refine ⟨⟨?_, debt, waits, ?_⟩, ?_⟩
  · rw [← hpost]
    exact .roll hi hm _
  · intro ho hoff
    rw [← hpost] at hoff
    exact window ho (hi.trans hoff)
  · intro ha
    rw [← hout] at ha
    obtain ⟨rfl, ho, hc, hf, ⟨u, hu, hlt⟩, hsoc, hwarn⟩ := restoring_actuate ha
    have howe : e.post.oweRestore = true := by
      rw [← hpost]
      exact ho
    obtain ⟨ht, -, hp, hw, hfails⟩ := restoring_owe ho
    obtain ⟨c, hpre, hd⟩ := debt howe
    obtain ⟨stretch, p, hst, hpu, hn⟩ := window howe hi u (by rw [← hpost]; exact hw.trans hu)
    have hshed : e.inp.masterOn = some false := by
      cases m with
      | true => exact absurd ⟨hi, hm⟩ (back howe)
      | false => exact hm
    refine ⟨hi, hshed, ⟨c, ?_, hd⟩, ⟨stretch, p, hst, hpu ▸ hlt, ?_⟩, hsoc, hwarn⟩
    · rw [← hout, hc, ← hpre, ← hpost]
      exact hp.symm
    · rw [← hn, ← hpost]
      change (restoring cfg false m e.inp (beforeRestoring cfg false m e.inp.now e.pre)).2.fails ≤ _
      rw [hfails, if_pos ha]
      omega

end Step

section Runs

variable [Add τ] [LT τ] [DecidableLT τ] {cfg : Cfg τ} {tr : List (Rec τ)} {s : State τ}

theorem run_inv (h : Run (step cfg) {} tr s) : Inv cfg (known tr) s := by
  have start : Inv cfg (known []) {} :=
    ⟨⟨rfl, rfl⟩, (by rintro ⟨⟩), (by rintro ⟨⟩), (by rintro ⟨⟩)⟩
  refine @Run.history _ _ _ _ _ _ _ (fun tr s => Inv cfg (known tr) s) h start ?_
  intro tr p s o s' _ hinv hs
  have he : restoreDecide cfg s p = (o, s') := Option.some.inj hs
  by_cases hk : p.known
  · rw [known_cons_of_known hk]
    obtain ⟨hi, hm⟩ := Bool.and_eq_true_iff.mp hk
    obtain ⟨ign, hi⟩ := Option.isSome_iff_exists.mp hi
    obtain ⟨m, hm⟩ := Option.isSome_iff_exists.mp hm
    exact (Inv.step (e := ⟨p, s, o, s'⟩) hinv hi hm he).1
  · rw [known_cons_of_not hk]
    rw [restoreDecide_unknown hk] at he
    exact (Prod.mk.inj he).2 ▸ hinv

theorem run_justified (newer : List (Rec τ)) {older : List (Rec τ)} {e : Rec τ}
    (h : Run (step cfg) {} (newer ++ e :: older) s) (ha : e.out.actuate = true) :
    Justified cfg (known (e :: older)) e := by
  obtain ⟨hrun, hs⟩ := h.split newer
  have he : restoreDecide cfg e.pre e.inp = (e.out, e.post) := Option.some.inj hs
  by_cases hk : e.inp.known
  · rw [known_cons_of_known hk]
    obtain ⟨hi, hm⟩ := Bool.and_eq_true_iff.mp hk
    obtain ⟨ign, hi⟩ := Option.isSome_iff_exists.mp hi
    obtain ⟨m, hm⟩ := Option.isSome_iff_exists.mp hm
    exact ((run_inv hrun).step hi hm he).2 ha
  · rw [restoreDecide_unknown hk] at he
    rw [← (Prod.mk.inj he).1] at ha
    cases ha

-- camping on, engine start, a poll without readings, parked with camping shed
example :
    ((exec (step (⟨20, 3, 120⟩ : Cfg ℤ)) {}
      [⟨some false, some false, none, none, some 80, false, 90⟩,
        ⟨none, none, none, none, none, false, 60⟩,
        ⟨some true, some false, some false, some false, some 80, false, 30⟩,
        ⟨some false, some true, some true, some false, some 80, false, 0⟩]).map
      fun r => r.1.map fun r => r.out.restoreConfig) =
        some [some ⟨true, true, false⟩, none, none, none] := by decide

theorem restoreConfig_eq {p : Poll τ} {s s' : State τ} {o : Decision}
    (h : restoreDecide cfg s p = (o, s')) (ha : o.actuate = true) :
    o.restoreConfig = s'.preDrive := by
  by_cases hk : p.known
  · obtain ⟨hi, hm⟩ := Bool.and_eq_true_iff.mp hk
    obtain ⟨ign, hi⟩ := Option.isSome_iff_exists.mp hi
    obtain ⟨m, hm⟩ := Option.isSome_iff_exists.mp hm
    rw [restoreDecide_known hi hm] at h
    obtain ⟨rfl, rfl⟩ := Prod.mk.inj h
    obtain ⟨-, ho, hc, -⟩ := restoring_actuate ha
    obtain ⟨-, -, hp, -⟩ := restoring_owe ho
    exact hc.trans hp.symm
  · rw [restoreDecide_unknown hk] at h
    obtain ⟨rfl, -⟩ := Prod.mk.inj h
    cases ha

end Runs

end OpenCalifornia.AutoCamper
