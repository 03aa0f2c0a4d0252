import OpenCalifornia.AutoCamper.Runner

/-! # Restores over boots

How often a park is tried, and what a reboot finds. The records of a run stand newest first. -/

namespace OpenCalifornia.AutoCamper.Runner
open Lib Lib.Bits Lib.Machine Firmware

variable {st : AcState} {s : Owner} {inp : AcIn}

/-- The fields fit their bytes. -/
structure Fits (st : AcState) : Prop where
  owe : 0 ≤ st.owe ∧ st.owe ≤ 255
  pre : 0 ≤ st.pre ∧ st.pre ≤ 255
  preUsb : 0 ≤ st.preUsb ∧ st.preUsb ≤ 255
  preLights : 0 ≤ st.preLights ∧ st.preLights ≤ 255
  fails : 0 ≤ st.fails ∧ st.fails ≤ 255
  prevIgn : -1 ≤ st.prevIgn ∧ st.prevIgn ≤ 254
  prevMaster : -1 ≤ st.prevMaster ∧ st.prevMaster ≤ 254
  prevUsb : -1 ≤ st.prevUsb ∧ st.prevUsb ≤ 254
  prevLights : -1 ≤ st.prevLights ∧ st.prevLights ≤ 254

theorem byte_ofInt {v : ℤ} (h : 0 ≤ v ∧ v ≤ 255) : ((BitVec.ofInt 8 v).toNat : ℤ) = v := by
  rw [BitVec.toNat_ofInt]
  omega

theorem byte_ne_zero {v : ℤ} (h : 0 ≤ v ∧ v ≤ 255) : BitVec.ofInt 8 v ≠ 0 ↔ v ≠ 0 := by
  have hv := byte_ofInt h
  refine not_congr ⟨fun h0 => ?_, fun h0 => by rw [h0]; rfl⟩
  rw [h0] at hv
  exact hv.symm

/-- The debt that the next boot finds: a window that is open will be a fresh one. -/
def Owner.debt (s : Owner) : AcState × Bool :=
  ({ s.st with restoreUntil := -1 }, (0 ≤ s.st.restoreUntil ∨ s.resume = true) ∧ s.st.owe ≠ 0)

theorem unpack_pack (h : Fits s.st) : unpack (pack s.st s.resume) = s.debt := by
  have hbit : 0 ≤ bit (0 ≤ s.st.restoreUntil ∨ s.resume = true) ∧
      bit (0 ≤ s.st.restoreUntil ∨ s.resume = true) ≤ 255 := by
    rw [bit]
    split_ifs <;> decide
  have hfails : (if 255 < s.st.fails then 255 else s.st.fails) = s.st.fails :=
    if_neg (Int.not_lt.mpr h.fails.2)
  rw [pack, unpack, Owner.debt, hfails]
  have hprev : ∀ v : ℤ, -1 ≤ v ∧ v ≤ 254 → ((BitVec.ofInt 8 (v + 1)).toNat : ℤ) - 1 = v :=
    fun v hv => by rw [byte_ofInt ⟨by omega, by omega⟩]; omega
  simp only [byte_ofInt h.owe, byte_ofInt h.pre, byte_ofInt h.preUsb, byte_ofInt h.preLights,
    byte_ofInt h.fails, hprev _ h.prevIgn, hprev _ h.prevMaster, hprev _ h.prevUsb,
    hprev _ h.prevLights, byte_ne_zero h.owe, byte_ne_zero hbit]
  refine Prod.ext rfl (decide_eq_decide.mpr (and_congr_left' ?_))
  rw [bit]
  split_ifs with hopen
  · exact ⟨fun _ => of_decide_eq_true hopen, fun _ => by decide⟩
  · exact ⟨fun h => absurd rfl h, fun h => absurd (decide_eq_true h) hopen⟩

theorem unpack_fits (word : List Byte) : Fits (unpack word).1 := by
  have hbyte : ∀ b : Byte, (0 : ℤ) ≤ b.toNat ∧ (b.toNat : ℤ) ≤ 255 := fun b => by omega
  have hprev : ∀ b : Byte, -1 ≤ (b.toNat : ℤ) - 1 ∧ (b.toNat : ℤ) - 1 ≤ 254 := fun b => by omega
  unfold unpack
  split
  · exact ⟨hbyte _, hbyte _, hbyte _, hbyte _, hbyte _, hprev _, hprev _, hprev _, hprev _⟩
  · exact ⟨by decide, by decide, by decide, by decide, by decide, by decide, by decide, by decide,
      by decide⟩

theorem restoring_on (cfg : AcCfg) (inp : AcIn) (m : Bool) (st : AcState) :
    acRestoring cfg inp true m st = ({}, st) :=
  if_neg fun h => h.2.2 rfl

theorem restoring_off (cfg : AcCfg) (inp : AcIn) (m : Bool) (st : AcState) :
    acRestoring cfg inp false m st = ({}, st) ∨
      (∃ o fails, acRestoring cfg inp false m st =
          (o, { st with owe := 0, restoreUntil := -1, fails }) ∧ o.actuate = 0 ∧
          (fails = st.fails ∨ fails = 0)) ∨
      st.owe ≠ 0 ∧ st.fails < cfg.maxFails ∧
        acRestoring cfg inp false m st = ({ actuate := 1 }, { st with fails := st.fails + 1 }) := by
  rw [acRestoring]
  by_cases howe : st.owe ≠ 0 ∧ 0 ≤ st.restoreUntil ∧ ¬ false = true
  · rw [if_pos howe]
    split_ifs with hlate hm hlow hfails
    · exact Or.inr (Or.inl ⟨_, _, rfl, rfl, Or.inl rfl⟩)
    · exact Or.inr (Or.inl ⟨_, _, rfl, rfl, Or.inr rfl⟩)
    · exact Or.inr (Or.inl ⟨_, _, rfl, rfl, Or.inl rfl⟩)
    · exact Or.inr (Or.inl ⟨_, _, rfl, rfl, Or.inl rfl⟩)
    · exact Or.inr (Or.inr ⟨howe.1, Int.not_le.mp hfails, rfl⟩)
  · rw [if_neg howe]
    exact Or.inl rfl

/-- What a decision does to the debt. -/
structure Decided (st : AcState) (inp : AcIn) (o : AcOut) (st' : AcState) : Prop where
  tries : o.actuate ≠ 0 → inp.ign ≤ 0 ∧ st.owe ≠ 0 ∧ st'.owe ≠ 0 ∧
    ∃ f, st'.fails = f + 1 ∧ f < acMaxFails ∧ (f = st.fails ∨ 0 < st.prevIgn ∧ f = 0)
  owes : o.actuate = 0 → st'.owe ≠ 0 → 0 < inp.ign ∨
    st.owe ≠ 0 ∧ (st'.fails = st.fails ∨ 0 < st.prevIgn ∧ st'.fails = 0)
  edge : st'.prevIgn = bit (0 < inp.ign)
  fits : Fits st → Fits st'

theorem bit_fits (b : Bool) : (0 ≤ bit b ∧ bit b ≤ 255) ∧ -1 ≤ bit b ∧ bit b ≤ 254 := by
  cases b <;> decide

theorem fits_roll {prevIgn prevMaster prevUsb prevLights : Bool} (h : Fits st) :
    Fits { st with
      prevIgn := bit prevIgn
      prevMaster := bit prevMaster
      prevUsb := bit prevUsb
      prevLights := bit prevLights } :=
  ⟨h.owe, h.pre, h.preUsb, h.preLights, h.fails, (bit_fits _).2, (bit_fits _).2, (bit_fits _).2,
    (bit_fits _).2⟩

theorem decide_known (hign : 0 ≤ inp.ign) (hm : 0 ≤ inp.master) (st : AcState) :
    acDecide cfg st inp =
      let r := acRestoring cfg inp (0 < inp.ign) (0 < inp.master)
        (acPark cfg inp.now (0 < inp.ign) (0 < st.prevIgn)
          (acCancel (0 < inp.ign) (0 < st.prevIgn) (0 < inp.master) (0 < st.prevMaster)
            (acArm (0 < inp.ign) (0 < st.prevIgn) (0 < st.prevMaster) st)))
      (r.1, { r.2 with
        prevIgn := bit (0 < inp.ign)
        prevMaster := bit (0 < inp.master)
        prevUsb := bit (0 < inp.usb)
        prevLights := bit (0 < inp.lights) }) :=
  if_neg (by omega)

theorem decide_on (hign : 0 < inp.ign) (hm : 0 ≤ inp.master) (st : AcState) :
    Decided st inp (acDecide cfg st inp).1 (acDecide cfg st inp).2 := by
  rw [decide_known (Int.le_of_lt hign) hm]
  simp only [hign, decide_true]
  rw [restoring_on, acPark, if_neg (fun h => h.1 rfl), acCancel, if_neg (fun h => h.1 rfl)]
  refine ⟨fun h => absurd rfl h, fun _ _ => Or.inl hign, by rw [decide_eq_true hign],
    fun h => fits_roll ?_⟩
  rw [acArm]
  split_ifs
  · exact ⟨(bit_fits true).1, (bit_fits true).1, (bit_fits _).1, (bit_fits _).1, (bit_fits false).1,
      h.prevIgn, h.prevMaster, h.prevUsb, h.prevLights⟩
  · exact h

/-- With the ignition off a debt is kept, cancelled or parked before it is tried. -/
theorem ready_off (inp : AcIn) (pign m : Bool) (st : AcState) : ∃ owe restoreUntil fails,
    acPark cfg inp.now false pign (acCancel false pign m (0 < st.prevMaster) st) =
        { st with owe, restoreUntil, fails } ∧
      (owe = st.owe ∧ (fails = st.fails ∨ pign = true ∧ fails = 0) ∨ owe = 0 ∧ fails = 0) := by
  cases pign with
  | true =>
    rw [acCancel, if_neg fun h => h.2.1 rfl, acPark]
    by_cases hpark : ¬ false = true ∧ true = true ∧ st.owe ≠ 0
    · rw [if_pos hpark]
      exact ⟨_, _, _, rfl, Or.inl ⟨rfl, Or.inr ⟨rfl, rfl⟩⟩⟩
    · rw [if_neg hpark]
      exact ⟨_, _, _, rfl, Or.inl ⟨rfl, Or.inl rfl⟩⟩
  | false =>
    have hpark : ∀ st, acPark cfg inp.now false false st = st := fun st =>
      if_neg fun h => by cases h.2.1
    rw [hpark, acCancel]
    by_cases hcancel : ¬ false = true ∧ ¬ false = true ∧
      decide (0 < st.prevMaster) = true ∧ ¬ m = true
    · rw [if_pos hcancel]
      exact ⟨_, _, _, rfl, Or.inr ⟨rfl, rfl⟩⟩
    · rw [if_neg hcancel]
      exact ⟨_, _, _, rfl, Or.inl ⟨rfl, Or.inl rfl⟩⟩

theorem decide_off (hign : inp.ign = 0) (hm : 0 ≤ inp.master) (st : AcState) :
    Decided st inp (acDecide cfg st inp).1 (acDecide cfg st inp).2 := by
  rw [decide_known (Int.le_of_eq hign.symm) hm]
  simp only [hign, Int.lt_irrefl, decide_false]
  have harm : ∀ pign pm, acArm false pign pm st = st :=
    fun pign pm => if_neg (fun h => (by cases h.1))
  obtain ⟨owe, restoreUntil, fails, heq, howe⟩ := ready_off inp (0 < st.prevIgn) (0 < inp.master) st
  have hfits : ∀ fails', 0 ≤ fails' ∧ fails' ≤ 255 → ∀ owe', 0 ≤ owe' ∧ owe' ≤ 255 → ∀ u, Fits st →
      Fits { st with owe := owe', restoreUntil := u, fails := fails' } :=
    fun _ hf _ ho _ h => ⟨ho, h.pre, h.preUsb, h.preLights, hf, h.prevIgn, h.prevMaster, h.prevUsb,
      h.prevLights⟩
  have hfails : Fits st → 0 ≤ fails ∧ fails ≤ 255 := fun h => by
    have := h.fails
    omega
  have howes : Fits st → 0 ≤ owe ∧ owe ≤ 255 := fun h => by
    have := h.owe
    omega
  rw [harm, heq]
  rcases restoring_off cfg inp (0 < inp.master) { st with owe, restoreUntil, fails } with hwait |
    ⟨o, fails', hend, hact, hfails'⟩ | ⟨howed, hless, htry⟩
  · rw [hwait]
    refine ⟨fun h => absurd rfl h, fun _ hne => Or.inr ?_, by rw [hign]; rfl,
      fun h => fits_roll (hfits _ (hfails h) _ (howes h) _ h)⟩
    rcases howe with ⟨rfl, hsame⟩ | ⟨hzero, -⟩
    · exact ⟨hne, hsame.imp_right fun h => ⟨of_decide_eq_true h.1, h.2⟩⟩
    · exact absurd hzero hne
  · rw [hend]
    refine ⟨fun h => absurd hact h, fun _ hne => absurd rfl hne, by rw [hign]; rfl,
      fun h => fits_roll (hfits _ ?_ _ (by decide) _ h)⟩
    rcases hfails' with rfl | rfl
    · exact hfails h
    · decide
  · rw [htry]
    dsimp only at howed hless
    have hless' : fails < 3 := hless
    refine ⟨fun _ => ⟨Int.le_of_eq hign, ?_, howed, fails, rfl, hless, ?_⟩, fun h => (by cases h),
      by rw [hign]; rfl, fun h => fits_roll (hfits _ ?_ _ (howes h) _ h)⟩
    · rcases howe with ⟨rfl, -⟩ | ⟨hzero, -⟩
      · exact howed
      · exact absurd hzero howed
    · rcases howe with ⟨-, hsame⟩ | ⟨hzero, -⟩
      · exact hsame.imp_right fun h => ⟨of_decide_eq_true h.1, h.2⟩
      · exact absurd hzero howed
    · have hbyte := hfails h
      exact ⟨by dsimp only; omega, by dsimp only; omega⟩

end OpenCalifornia.AutoCamper.Runner
