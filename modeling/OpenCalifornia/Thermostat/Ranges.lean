import Mathlib
import OpenCalifornia.Thermostat.Arithmetic

/-! # The arithmetic stays in its types

The integral is wound by the error at most up to the demand that freezes it, and by the outside
share each time the outside thermometer comes into use. Where the gains and that count leave room
in 32 bits, no value of a run leaves the range of its type. -/

namespace OpenCalifornia.Thermostat.Firmware
open Lib (Flow)
open Lib.CInt
open Lib.Machine (Run Record)

variable {cfg : Cfg} {inp : Input} {v : View} {st : State} {w : Work}

theorem rdiv_of_nonneg {a b : ℤ} (ha : 0 ≤ a) (hb : 0 < b) :
    2 * b * rdiv a b ≤ 2 * a + b ∧ 2 * a + b < 2 * b * rdiv a b + 2 * b := by
  have hda := Int.mul_ediv_add_emod a b
  have hr₀ := Int.emod_nonneg a (Int.ne_of_gt hb)
  have hr₁ := Int.emod_lt_of_pos a hb
  have ha' : ¬ a < 0 := by omega
  have hb' : ¬ b < 0 := by omega
  simp only [rdiv, ha', hb', if_false, Int.tdiv_eq_ediv_of_nonneg ha,
    Int.tmod_eq_emod_of_nonneg ha, if_true]
  generalize a / b = q at *
  generalize a % b = r at *
  split_ifs with h
  · constructor <;> nlinarith
  · constructor <;> nlinarith

theorem rdiv_neg {a b : ℤ} (ha : a < 0) (hb : 0 < b) : rdiv a b = -rdiv (-a) b := by
  have h₁ : ¬ -a < 0 := by omega
  have h₂ : ¬ b < 0 := by omega
  simp only [rdiv, ha, h₁, h₂, if_true, if_false, decide_true, decide_false, Bool.true_eq_false]

theorem rdiv_nonneg {a b : ℤ} (ha : 0 ≤ a) (hb : 0 < b) : 0 ≤ rdiv a b := by
  have h := (rdiv_of_nonneg ha hb).2
  by_contra hn
  nlinarith

theorem rdiv_mono {a a' b : ℤ} (ha : 0 ≤ a) (h : a ≤ a') (hb : 0 < b) : rdiv a b ≤ rdiv a' b := by
  have h₁ := (rdiv_of_nonneg ha hb).1
  have h₂ := (rdiv_of_nonneg (ha.trans h) hb).2
  by_contra hn
  nlinarith

theorem rdiv_nonpos {a b : ℤ} (ha : a ≤ 0) (hb : 0 < b) : rdiv a b ≤ 0 := by
  rcases ha.lt_or_eq with ha | rfl
  · rw [rdiv_neg ha hb]
    have := rdiv_nonneg (a := -a) (by omega) hb
    omega
  · have h₁ : ¬ b < 0 := by omega
    have h₂ : ¬ b ≤ 0 := by omega
    simp [rdiv, h₁, h₂]

theorem rdiv_abs_le {a b m : ℤ} (hl : -m ≤ a) (hu : a ≤ m) (hb : 0 < b) :
    -rdiv m b ≤ rdiv a b ∧ rdiv a b ≤ rdiv m b := by
  by_cases ha : a < 0
  · have h₁ : rdiv (-a) b ≤ rdiv m b := rdiv_mono (by omega) (by omega) hb
    have h₂ := rdiv_nonneg (a := -a) (by omega) hb
    rw [rdiv_neg ha hb]
    omega
  · have h₁ := rdiv_mono (by omega) hu hb
    have h₂ := rdiv_nonneg (a := a) (by omega) hb
    omega

theorem le_of_rdiv_le {a m : ℤ} (ha : 0 ≤ a) (h : rdiv a 6000000 ≤ m) :
    a ≤ 6000000 * (m + 1) := by
  have := (rdiv_of_nonneg ha (b := 6000000) (by omega)).2
  omega

theorem rdivVals_fit {a b : ℤ} (hl : -9000000000000000000 ≤ a) (hu : a ≤ 9000000000000000000)
    (hb : 0 < b) (hb' : b ≤ 2147483647) : AllFit (rdivVals a b) := by
  have hb₀ : ¬ b < 0 := by omega
  have haa : 0 ≤ (if a < 0 then -a else a) ∧ (if a < 0 then -a else a) ≤ 9000000000000000000 := by
    split_ifs <;> omega
  have hq : 0 ≤ (if a < 0 then -a else a) / b ∧
      (if a < 0 then -a else a) / b ≤ 9000000000000000000 :=
    ⟨Int.ediv_nonneg haa.1 hb.le, (Int.ediv_le_self b haa.1).trans haa.2⟩
  have hr₀ := Int.emod_nonneg (if a < 0 then -a else a) (Int.ne_of_gt hb)
  have hr₁ := Int.emod_lt_of_pos (if a < 0 then -a else a) hb
  simp only [rdivVals, rdiv, hb₀, if_false, Int.tdiv_eq_ediv_of_nonneg haa.1,
    Int.tmod_eq_emod_of_nonneg haa.1, allFit_cons, fits_i64, allFit_nil, and_true]
  generalize (if a < 0 then -a else a) / b = q at *
  generalize (if a < 0 then -a else a) % b = r at *
  refine ⟨by omega, by omega, by omega, by omega, by omega, ?_, ?_⟩
  · split_ifs <;> omega
  · split_ifs <;> omega

theorem mul_abs_le {a b m n : ℤ} (ha : 0 ≤ a) (ham : a ≤ m) (hl : -n ≤ b) (hu : b ≤ n) :
    -(m * n) ≤ a * b ∧ a * b ≤ m * n := by
  constructor <;> nlinarith

/-- The largest proportional share, growth of the integral in a step, and outside share. -/
structure Budget where
  prop : ℕ
  gain : ℕ
  share : ℕ

/-- Where the error, or a level set on it, can leave the integral around 0 to 10000. -/
def Budget.wind (B : Budget) : ℤ := max B.prop B.gain

/-- An error whose share and whose growth over three periods, the longest that counts, are in the
budget. -/
structure ErrorWithin (B : Budget) (cfg : Cfg) (e : ℤ) : Prop where
  prop : -B.prop ≤ rdiv (cfg.kp * e) 100 ∧ rdiv (cfg.kp * e) 100 ≤ B.prop
  gain : rdiv (cfg.ki * mx e (-e) * (3 * cfg.periodMs)) 6000000 ≤ B.gain

def reading (t : ℤ) : Prop := -4000 ≤ t ∧ t ≤ 6000

instance (t : ℤ) : Decidable (reading t) := inferInstanceAs (Decidable (_ ∧ _))

/-- What the law rests on in a step: settings in their ranges, plausible readings, a clock that the
timer can show, and the room that the budget leaves. -/
structure Fair (B : Budget) (spent : ℤ) (cfg : Cfg) (inp : Input) (v : View) : Prop where
  period : 1 ≤ cfg.periodMs ∧ cfg.periodMs ≤ 2147483647
  kp : 0 ≤ cfg.kp ∧ cfg.kp ≤ 2147483647
  ki : 0 ≤ cfg.ki ∧ cfg.ki ≤ 2147483647
  ka : 0 ≤ cfg.ka ∧ cfg.ka ≤ 2147483647
  uOutMax : 0 ≤ cfg.uOutMax ∧ cfg.uOutMax ≤ 2147483647
  hyst : 0 ≤ cfg.hyst ∧ cfg.hyst ≤ 2147483147
  bandHi : 1 ≤ cfg.bandHi ∧ cfg.bandHi ≤ 2147483647
  overheat : 1 ≤ cfg.overheat ∧ cfg.overheat ≤ 2147483647
  minLevel : 1 ≤ cfg.minLevel ∧ cfg.minLevel ≤ 10
  nightWait : 1 ≤ cfg.nightWaitMs ∧ cfg.nightWaitMs ≤ 2147483647
  target : 500 ≤ inp.target ∧ inp.target ≤ 3000
  now : 0 ≤ inp.nowMs ∧ inp.nowMs ≤ 9223372036854775
  age : v.hasSnap → 0 ≤ inp.heaterAgeMs ∧ inp.heaterAgeMs ≤ inp.nowMs
  level : v.level = thermoNone ∨ 1 ≤ v.level ∧ v.level ≤ 10
  ref : valid cfg inp.ref → reading inp.ref.value ∧ ErrorWithin B cfg (inp.target - inp.ref.value)
  backup : valid cfg inp.backup →
    reading inp.backup.value ∧ ErrorWithin B cfg (inp.target - inp.backup.value)
  out : v.tOut ≠ thermoNone →
    reading v.tOut ∧ outShare cfg v.tOut inp.target ≤ B.share ∧ B.share ≤ spent
  paid : 0 ≤ spent
  room : 10000 + (B.prop : ℤ) + B.wind + spent ≤ 2147483647

def Past (now t : ℤ) : Prop := t = thermoNoneMs ∨ 0 ≤ t ∧ t ≤ now

/-- The part of the outside shares that has come in by now. -/
def Budget.taken (B : Budget) (spent tOut : ℤ) : ℤ :=
  if tOut = thermoNone then spent else spent - B.share

/-- The integral is in its bounds: while no share is in it, those of the shares taken so far. -/
structure CtlOk (B : Budget) (spent tOut now : ℤ) (ctl : Ctl) : Prop where
  change : 0 ≤ ctl.lastChangeMs ∧ ctl.lastChangeMs ≤ now
  hot : Past now ctl.hotSinceMs
  bare : ctl.uOut = thermoNone →
    -B.wind - B.taken spent tOut ≤ ctl.i ∧ ctl.i ≤ 10000 + B.wind + B.taken spent tOut
  fed : ctl.uOut ≠ thermoNone → (0 ≤ ctl.uOut ∧ ctl.uOut ≤ B.share) ∧
    (0 < ctl.uOut → B.share ≤ spent) ∧
    -B.wind - spent ≤ ctl.i ∧ ctl.i ≤ 10000 + B.wind + max 0 (spent - B.share)

section Law

variable {B : Budget} {spent t tOut target dt cur now : ℤ} {ctl : Ctl}

theorem outShare_cases (tOut target : ℤ) (hm : 0 ≤ cfg.uOutMax)
    (ho : tOut ≠ thermoNone → outShare cfg tOut target ≤ B.share ∧ B.share ≤ spent) :
    (tOut = thermoNone ∧ outShare cfg tOut target = thermoNone) ∨
      (tOut ≠ thermoNone ∧ 0 ≤ outShare cfg tOut target ∧ outShare cfg tOut target ≤ B.share ∧
        B.share ≤ spent) := by
  by_cases ht : tOut = thermoNone
  · exact .inl ⟨ht, if_pos ht⟩
  · refine .inr ⟨ht, ?_, ho ht⟩
    simp only [outShare, if_neg ht, mn, mx]
    split_ifs <;> omega

theorem shareOf_of_nonneg {u : ℤ} (h : 0 ≤ u) : u ≠ thermoNone ∧ shareOf u = u := by
  have hu : u ≠ thermoNone := by
    simp only [thermoNone]
    omega
  exact ⟨hu, if_neg hu⟩

@[simp] theorem shareOf_none : shareOf thermoNone = 0 := rfl

theorem shifted_bounds (cur : ℤ) (hc : CtlOk B spent tOut now ctl) {uOut : ℤ} (hs : 0 ≤ spent)
    (hu : (tOut = thermoNone ∧ uOut = thermoNone) ∨
      (tOut ≠ thermoNone ∧ 0 ≤ uOut ∧ uOut ≤ B.share ∧ B.share ≤ spent)) :
    -B.wind - spent ≤ shifted ctl uOut cur ∧
      shifted ctl uOut cur ≤ 10000 + B.wind + B.taken spent tOut := by
  have hbare := hc.bare
  have hfed := hc.fed
  simp only [shifted, transfers, Budget.taken] at *
  rcases hu with ⟨rfl, rfl⟩ | ⟨ht, h₀, h₁, h₂⟩
  · by_cases hn : ctl.uOut = thermoNone
    · have := hbare hn
      simp only [hn, if_true] at *
      split_ifs <;> omega
    · obtain ⟨hp, -⟩ := hfed hn
      have := hfed hn
      simp only [hn, if_true, (shareOf_of_nonneg hp.1).2, shareOf_none] at *
      split_ifs <;> omega
  · obtain ⟨hne, hself⟩ := shareOf_of_nonneg h₀
    by_cases hn : ctl.uOut = thermoNone
    · have := hbare hn
      simp only [hn, ht, hne, if_false, hself, shareOf_none] at *
      split_ifs <;> omega
    · have := hfed hn
      simp only [hn, ht, hne, if_false, decide_false, ne_eq, not_true_eq_false, and_false] at *
      omega

theorem growth_bounds {e : ℤ} (he : ErrorWithin B cfg e) (hk : 0 ≤ cfg.ki) (hd : 0 ≤ dt)
    (hd' : dt ≤ 3 * cfg.periodMs) :
    (-(6000000 * ((B.gain : ℤ) + 1)) ≤ cfg.ki * e * dt ∧
      cfg.ki * e * dt ≤ 6000000 * ((B.gain : ℤ) + 1)) ∧
      -(B.gain : ℤ) ≤ rdiv (cfg.ki * e * dt) 6000000 ∧
      rdiv (cfg.ki * e * dt) 6000000 ≤ B.gain := by
  have hmx : 0 ≤ mx e (-e) ∧ e ≤ mx e (-e) ∧ -mx e (-e) ≤ e := by
    simp only [mx]
    split_ifs <;> omega
  have hke := mul_abs_le hk le_rfl hmx.2.2 hmx.2.1
  have hk₀ := mul_nonneg hk hmx.1
  have hm : 0 ≤ cfg.ki * mx e (-e) * (3 * cfg.periodMs) := mul_nonneg hk₀ (by omega)
  have hl : -(cfg.ki * mx e (-e) * (3 * cfg.periodMs)) ≤ cfg.ki * e * dt ∧
      cfg.ki * e * dt ≤ cfg.ki * mx e (-e) * (3 * cfg.periodMs) := by
    have := mul_abs_le hd hd' hke.1 hke.2
    constructor <;> linarith [mul_comm dt (cfg.ki * e),
      mul_comm (3 * cfg.periodMs) (cfg.ki * mx e (-e))]
  have hsize := le_of_rdiv_le hm he.gain
  have hr := rdiv_abs_le hl.1 hl.2 (b := 6000000) (by omega)
  have := he.gain
  omega

/-- An integral in its bounds stays there: it grows only below the demand of the highest level,
and shrinks only above that of the lowest. -/
theorem grown_bounds {e p i ff : ℤ} (he : ErrorWithin B cfg e) (hk : 0 ≤ cfg.ki)
    (hmin : 1 ≤ cfg.minLevel) (hd : 0 ≤ dt) (hp : (0 ≤ e → 0 ≤ p) ∧ (e ≤ 0 → p ≤ 0))
    (hf : 0 ≤ ff ∧ ff ≤ spent) (hs : 0 ≤ B.taken spent tOut)
    (hi : -B.wind - spent ≤ i ∧ i ≤ 10000 + B.wind + B.taken spent tOut) :
    -B.wind - spent ≤ grown cfg dt (p + i + ff) e i ∧
      grown cfg dt (p + i + ff) e i ≤ 10000 + B.wind + B.taken spent tOut := by
  have hw : (B.gain : ℤ) ≤ B.wind := le_max_right _ _
  by_cases hz : frozen cfg dt (p + i + ff) e
  · simpa only [grown, hz, not_true_eq_false, if_false] using hi
  · simp only [grown, hz, not_false_eq_true, if_true, Int.reduceMul]
    simp only [frozen, not_or, not_and] at hz
    obtain ⟨hlen, hlow, hhigh⟩ := hz
    obtain ⟨-, hg⟩ := growth_bounds he hk hd (by omega)
    rcases lt_trichotomy e 0 with hneg | rfl | hpos
    · have h₁ := hp.2 hneg.le
      have hle := rdiv_nonpos (a := cfg.ki * e * dt) (b := 6000000)
        (mul_nonpos_of_nonpos_of_nonneg (mul_nonpos_of_nonneg_of_nonpos hk hneg.le) hd) (by omega)
      have h₂ : ¬ p + i + ff < cfg.minLevel * 1000 := fun h => hlow h hneg
      omega
    · have h₀ : rdiv 0 6000000 = 0 := by decide
      simpa only [mul_zero, zero_mul, h₀, add_zero] using hi
    · have h₁ := hp.1 hpos.le
      have hge := rdiv_nonneg (a := cfg.ki * e * dt) (b := 6000000)
        (mul_nonneg (mul_nonneg hk hpos.le) hd) (by omega)
      have h₂ : ¬ p + i + ff > 10000 := fun h => hhigh h hpos
      omega

theorem answer_ctl {p q r s : Prop} [Decidable p] [Decidable q] [Decidable r] [Decidable s]
    (l₁ l₂ : ℤ) (y₁ y₂ y₃ y₄ y₅ : Reason) (new : Ctl) (last now : ℤ)
    (hn : new.lastChangeMs = last) :
    ∃ c, (c = last ∨ c = now) ∧
      (if p then (thermoNone, new, y₁) else if q then (thermoNone, new, y₂)
        else if r then (l₁, new, y₃) else if s then (thermoNone, new, y₄)
        else (l₂, { new with lastChangeMs := now }, y₅)).2.1 = { new with lastChangeMs := c } := by
  subst hn
  split_ifs
  · exact ⟨_, .inl rfl, rfl⟩
  · exact ⟨_, .inl rfl, rfl⟩
  · exact ⟨_, .inl rfl, rfl⟩
  · exact ⟨_, .inl rfl, rfl⟩
  · exact ⟨_, .inr rfl, rfl⟩

theorem control_ctl (cfg : Cfg) (t tOut target dt : ℤ) (ctl : Ctl) (cur now : ℤ) :
    ∃ u c, (c = ctl.lastChangeMs ∨ c = now) ∧
      (control cfg t tOut target dt ctl cur now).2.1 =
        ⟨grown cfg dt (rdiv (cfg.kp * (target - t)) 100 +
            shifted ctl (outShare cfg tOut target) cur + shareOf (outShare cfg tOut target))
            (target - t) (shifted ctl (outShare cfg tOut target) cur),
          c, hotSince cfg t target cur now ctl, u, outShare cfg tOut target⟩ :=
  ⟨_, answer_ctl _ _ _ _ _ _ _ ⟨_, ctl.lastChangeMs, _, _, _⟩ ctl.lastChangeMs now rfl⟩

theorem law_bounds (cur : ℤ) (hf : Fair B spent cfg inp v) (ht : ErrorWithin B cfg (inp.target - t))
    (hc : CtlOk B spent v.tOut now ctl) (hd : 0 ≤ dt) :
    let p := rdiv (cfg.kp * (inp.target - t)) 100
    let uOut := outShare cfg v.tOut inp.target
    let i := shifted ctl uOut cur
    let i' := grown cfg dt (p + i + shareOf uOut) (inp.target - t) i
    ((v.tOut = thermoNone ∧ uOut = thermoNone) ∨
      (v.tOut ≠ thermoNone ∧ 0 ≤ uOut ∧ uOut ≤ B.share ∧ B.share ≤ spent)) ∧
    (-B.wind - spent ≤ i ∧ i ≤ 10000 + B.wind + B.taken spent v.tOut) ∧
    (-B.wind - spent ≤ i' ∧ i' ≤ 10000 + B.wind + B.taken spent v.tOut) := by
  intro p uOut i i'
  have hu := outShare_cases v.tOut inp.target hf.uOutMax.1
    fun h => (hf.out h).2
  have hi := shifted_bounds cur hc hf.paid hu
  refine ⟨hu, hi, grown_bounds ht hf.ki.1 hf.minLevel.1 hd ⟨?_, ?_⟩ ?_ ?_ hi⟩
  · exact fun he => rdiv_nonneg (mul_nonneg hf.kp.1 he) (by omega)
  · exact fun he => rdiv_nonpos (mul_nonpos_of_nonneg_of_nonpos hf.kp.1 he) (by omega)
  · rcases hu with ⟨-, hn⟩ | ⟨-, h₀, h₁, h₂⟩
    · have : shareOf uOut = 0 := by rw [show uOut = thermoNone from hn, shareOf_none]
      exact ⟨this.ge, this.le.trans hf.paid⟩
    · rw [show shareOf uOut = uOut from (shareOf_of_nonneg h₀).2]
      exact ⟨h₀, h₁.trans h₂⟩
  · have := hf.paid
    simp only [Budget.taken]
    rcases hu with ⟨h, -⟩ | ⟨h, -, -, h₂⟩
    · rwa [if_pos h]
    · rw [if_neg h]
      omega

theorem hotSince_past (cfg : Cfg) (t target cur : ℤ) (hn : 0 ≤ now) (hc : Past now ctl.hotSinceMs) :
    Past now (hotSince cfg t target cur now ctl) := by
  simp only [hotSince]
  split_ifs
  · exact hc
  · exact .inr ⟨hn, le_rfl⟩
  · exact .inl rfl

theorem control_ok (cur : ℤ) (hf : Fair B spent cfg inp v) (ht : ErrorWithin B cfg (inp.target - t))
    (hc : CtlOk B spent v.tOut inp.nowMs ctl) (hd : 0 ≤ dt) :
    CtlOk B spent v.tOut inp.nowMs
      (control cfg t v.tOut inp.target dt ctl cur inp.nowMs).2.1 := by
  obtain ⟨u, c, hcu, he⟩ := control_ctl cfg t v.tOut inp.target dt ctl cur inp.nowMs
  obtain ⟨hu, -, hi⟩ := law_bounds cur hf ht hc hd
  rw [he]
  refine ⟨?_, hotSince_past _ _ _ _ hf.now.1 hc.hot, fun hn => ?_, fun hn => ?_⟩
  · have := hc.change
    have := hf.now
    dsimp only
    omega
  · rcases hu with ⟨h, -⟩ | ⟨-, h, -⟩
    · simpa only [Budget.taken, h, if_true] using hi
    · exact absurd hn (shareOf_of_nonneg h).1
  · rcases hu with ⟨-, h⟩ | ⟨ht, h₀, h₁, h₂⟩
    · exact absurd h hn
    · simp only [Budget.taken, if_neg ht] at hi
      refine ⟨⟨h₀, h₁⟩, fun _ => h₂, hi.1, ?_⟩
      dsimp only
      omega

theorem levelVals_fit {u last : ℤ} (hm : 1 ≤ cfg.minLevel ∧ cfg.minLevel ≤ 10)
    (hy : 0 ≤ cfg.hyst ∧ cfg.hyst ≤ 2147483147) (hu : -2147483648 ≤ u ∧ u ≤ 2147483647)
    (hc : cur = thermoNone ∨ 1 ≤ cur ∧ cur ≤ 10) (hl : 0 ≤ last ∧ last ≤ now)
    (hn : now ≤ 9223372036854775) : AllFit (levelVals cfg u cur now last) := by
  have hlevel : cfg.minLevel ≤ mn (mx (rdiv u 1000) cfg.minLevel) 10 ∧
      mn (mx (rdiv u 1000) cfg.minLevel) 10 ≤ 10 := by
    simp only [mn, mx]
    split_ifs <;> omega
  simp only [levelVals, allFit_append, allFit_cons, fits_i32]
  refine ⟨rdivVals_fit (by omega) (by omega) (by omega) (by omega), by omega, ?_⟩
  refine allFit_ite (fun _ => allFit_nil) fun hcur => ?_
  have hcur := hc.resolve_left hcur
  have hfar : 0 ≤ (if u - cur * 1000 < 0 then -(u - cur * 1000) else u - cur * 1000) ∧
      (if u - cur * 1000 < 0 then -(u - cur * 1000) else u - cur * 1000) ≤ 2147493648 := by
    split_ifs <;> omega
  simp only [allFit_append, allFit_cons, fits_i64, allFit_nil, and_true]
  refine ⟨⟨by omega, by omega, by omega⟩, allFit_ite (fun _ => allFit_nil) fun _ => ?_⟩
  simp only [allFit_cons, fits_i32]
  refine ⟨by omega, allFit_ite (fun _ => allFit_nil) fun _ => ?_⟩
  simp only [allFit_cons, fits_i64, allFit_nil, and_true]
  omega

theorem shareVals_fit (hk : 0 ≤ cfg.ka ∧ cfg.ka ≤ 2147483647) (ht : 500 ≤ target ∧ target ≤ 3000)
    (ho : tOut ≠ thermoNone → reading tOut) : AllFit (shareVals cfg tOut target) := by
  refine allFit_ite (fun _ => allFit_nil) fun hn => ?_
  have hr : -4000 ≤ tOut ∧ tOut ≤ 6000 := ho hn
  have hm : 0 ≤ mx 0 (target - tOut) ∧ mx 0 (target - tOut) ≤ 7000 := by
    simp only [mx]
    split_ifs <;> omega
  have hka := mul_abs_le hk.1 hk.2 (n := 7000) (by omega) hm.2
  simp only [allFit_append, allFit_cons, fits_i64, allFit_nil, and_true]
  refine ⟨⟨by omega, by omega⟩, rdivVals_fit ?_ ?_ ?_ ?_⟩ <;> omega

theorem shareOf_fed (hc : CtlOk B spent tOut now ctl) (hs : 0 ≤ spent) :
    0 ≤ shareOf ctl.uOut ∧ shareOf ctl.uOut ≤ spent := by
  by_cases hn : ctl.uOut = thermoNone
  · rw [hn, shareOf_none]
    omega
  · obtain ⟨h₀, h₁, -⟩ := hc.fed hn
    rw [(shareOf_of_nonneg h₀.1).2]
    omega

theorem growthVals_fit {e uOld i : ℤ} (he : ErrorWithin B cfg e) (hg : (B.gain : ℤ) ≤ 2147483647)
    (hk : 0 ≤ cfg.ki ∧ cfg.ki ≤ 2147483647) (hl : -7000 ≤ e ∧ e ≤ 7000) (hd : 0 ≤ dt)
    (hi : -4294967296 ≤ grown cfg dt uOld e i ∧ grown cfg dt uOld e i ≤ 4294967296) :
    AllFit (growthVals cfg dt uOld e i) := by
  refine allFit_ite (fun hz => ?_) fun _ => allFit_nil
  simp only [frozen, not_or] at hz
  obtain ⟨hs, -⟩ := growth_bounds he hk.1 hd (by omega)
  have hke := mul_abs_le hk.1 hk.2 hl.1 hl.2
  simp only [allFit_append, allFit_cons, fits_i64, allFit_nil, and_true]
  refine ⟨⟨⟨by omega, by omega⟩, rdivVals_fit ?_ ?_ ?_ ?_⟩, by omega⟩ <;> omega

theorem past_sub {since : ℤ} (hn : 0 ≤ now ∧ now ≤ 9223372036854775) (hs : Past now since)
    (hne : since ≠ thermoNoneMs) : 0 ≤ now - since ∧ now - since ≤ 9223372036854775 := by
  have := hs.resolve_left hne
  omega

theorem control_fit (hf : Fair B spent cfg inp v) (ht : reading t)
    (he : ErrorWithin B cfg (inp.target - t)) (hc : CtlOk B spent v.tOut inp.nowMs ctl)
    (hd : 0 ≤ dt) (hcur : cur = thermoNone ∨ 1 ≤ cur ∧ cur ≤ 10) :
    AllFit (controlVals cfg t v.tOut inp.target dt ctl cur inp.nowMs) := by
  obtain ⟨hu, hi, hi'⟩ := law_bounds cur hf he hc hd
  have hhot := hotSince_past cfg t inp.target cur hf.now.1 hc.hot
  have hfed := shareOf_fed hc hf.paid
  have hgain : (B.gain : ℤ) ≤ B.wind := le_max_right _ _
  have hprop := he.prop
  have hroom := hf.room
  have hpaid := hf.paid
  have hff : 0 ≤ shareOf (outShare cfg v.tOut inp.target) ∧
      B.taken spent v.tOut + shareOf (outShare cfg v.tOut inp.target) ≤ spent ∧
      0 ≤ B.taken spent v.tOut ∧ -2147483648 ≤ outShare cfg v.tOut inp.target ∧
      outShare cfg v.tOut inp.target ≤ spent := by
    simp only [Budget.taken]
    rcases hu with ⟨h₀, h₁⟩ | ⟨h₀, h₁, h₂, h₃⟩
    · rw [h₁, shareOf_none, if_pos h₀, thermoNone]
      omega
    · rw [(shareOf_of_nonneg h₁).2, if_neg h₀]
      omega
  have htarget := hf.target
  have herr : -7000 ≤ inp.target - t ∧ inp.target - t ≤ 7000 := by
    simp only [reading] at ht
    omega
  have hkp := mul_abs_le hf.kp.1 hf.kp.2 herr.1 herr.2
  have hperiod := hf.period
  have hmin := hf.minLevel
  have hband := hf.bandHi
  have hover := hf.overheat
  simp only [controlVals, List.flatten_cons, List.flatten_nil, List.append_nil, allFit_append,
    allFit_cons, fits_i64, fits_i32, allFit_nil, and_true]
  refine ⟨⟨by omega, by omega⟩, rdivVals_fit (by omega) (by omega) (by omega) (by omega),
    shareVals_fit hf.ka htarget fun h => (hf.out h).1, ?_, ?_, ?_, ?_, ?_⟩
  · refine allFit_ite (fun _ => ?_) fun _ => allFit_nil
    simp only [allFit_cons, fits_i64, allFit_nil, and_true]
    omega
  · omega
  · exact growthVals_fit he (by omega) hf.ki herr hd (by omega)
  · omega
  · refine allFit_ite (fun _ => allFit_nil) fun _ => allFit_append.2 ⟨?_, ?_⟩
    · refine allFit_ite (fun hn => ?_) fun _ => allFit_nil
      have := past_sub hf.now hhot hn
      simp only [allFit_cons, fits_i64, allFit_nil, and_true]
      omega
    · exact allFit_ite (fun _ => allFit_nil) fun _ =>
        levelVals_fit hmin hf.hyst (by omega) hcur hc.change hf.now.2

theorem track_ok (hf : Fair B spent cfg inp v) (he : ErrorWithin B cfg (inp.target - t))
    (hc : CtlOk B spent v.tOut now ctl) (hcur : 1 ≤ cur ∧ cur ≤ 10) :
    CtlOk B spent v.tOut now (track cfg ctl cur t inp.target) := by
  have hprop := he.prop
  have hpaid := hf.paid
  have hwind : (B.prop : ℤ) ≤ B.wind := le_max_left _ _
  refine ⟨hc.change, hc.hot, fun hn => ?_, fun hn => ?_⟩
  · have htaken : 0 ≤ B.taken spent v.tOut := by
      simp only [Budget.taken]
      split_ifs with h
      · exact hpaid
      · have := (hf.out h).2
        omega
    simp only [track] at hn ⊢
    rw [if_pos hn]
    omega
  · simp only [track] at hn ⊢
    obtain ⟨h₀, h₁, -⟩ := hc.fed hn
    rw [if_neg hn]
    refine ⟨h₀, h₁, ?_⟩
    omega

theorem trackVals_fit (hf : Fair B spent cfg inp v) (ht : reading t)
    (he : ErrorWithin B cfg (inp.target - t)) (hc : CtlOk B spent v.tOut now ctl)
    (hcur : 1 ≤ cur ∧ cur ≤ 10) : AllFit (trackVals cfg ctl cur t inp.target) := by
  have htarget := hf.target
  have herr : -7000 ≤ inp.target - t ∧ inp.target - t ≤ 7000 := by
    simp only [reading] at ht
    omega
  have hkp := mul_abs_le hf.kp.1 hf.kp.2 herr.1 herr.2
  have hprop := he.prop
  have hfed := shareOf_fed hc hf.paid
  have hroom := hf.room
  have hwind : (B.prop : ℤ) ≤ B.wind := le_max_left _ _
  simp only [shareOf] at hfed
  simp only [trackVals, track, allFit_append, allFit_cons, fits_i64, fits_i32, allFit_nil, and_true]
  refine ⟨⟨⟨by omega, by omega⟩, rdivVals_fit (by omega) (by omega) (by omega) (by omega)⟩, ?_⟩
  omega

end Law

end OpenCalifornia.Thermostat.Firmware
