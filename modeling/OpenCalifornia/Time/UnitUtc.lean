import OpenCalifornia.Time.Calendar

/-! # The unit's local time

`cali_time_unit_utc` and `cali_time_berlin_hour`. An instant is a number of seconds since 1970 in
UTC; the clock shows two hours more in summer time and one hour more in the rest of the year. -/

namespace OpenCalifornia.Time

/-- A local calendar time. -/
structure Civil where
  date : Date
  hour : ℤ
  min : ℤ
  sec : ℤ
  deriving DecidableEq, Repr

structure Civil.Valid (c : Civil) : Prop where
  date : c.date.Valid
  hour : 0 ≤ c.hour ∧ c.hour ≤ 23
  min : 0 ≤ c.min ∧ c.min ≤ 59
  sec : 0 ≤ c.sec ∧ c.sec ≤ 59

/-- `CALI_TIME_UNIT_TZ` by hand: the milliseconds, or -1. -/
def unitUtc (year month day hour min sec : ℤ) : Option ℤ :=
  if month < 1 ∨ month > 12 ∨ day < 1 ∨ day > monthDays year month ∨ hour < 0 ∨ hour > 23 ∨
      min < 0 ∨ min > 59 ∨ sec < 0 ∨ sec > 59 then none
  else
    let cest : Option Bool :=
      if month = 3 ∧ day = lastSunday year 3 then some (hour ≥ 3) -- 02:xx gap: CET
      else if month = 10 ∧ day = lastSunday year 10 then
        if hour = 2 then none -- 02:xx twice
        else some (hour < 2)
      else some ((month > 3 ∧ month < 10) ∨ (month = 3 ∧ day > lastSunday year 3) ∨
        (month = 10 ∧ day < lastSunday year 10))
    let local_ := daysFromCivil year month day * 86400 + hour * 3600 + min * 60 + sec
    cest.map fun cest => (local_ - if cest then 7200 else 3600) * 1000

/-- The first day of a year. -/
def newYear (y : ℤ) : ℤ := daysFromCivil y 1 1

theorem newYear_eq (y : ℤ) : newYear y = monthStart (12 * y) := by
  have hy : 12 * y / 12 = y := by omega
  have hm : 12 * y % 12 + 1 = 1 := by omega
  rw [newYear, monthStart, hy, hm]

theorem newYear_strictMono : StrictMono newYear := by
  intro y y' h
  rw [newYear_eq, newYear_eq]
  exact monthStart_strictMono (by omega)

/-- `while (days_from_civil(y + 1, 1, 1) * 86400 <= s) y++` -/
def yearUp (s y : ℤ) : ℤ :=
  if newYear (y + 1) * 86400 ≤ s then yearUp s (y + 1) else y
termination_by (s + 1 - newYear (y + 1) * 86400).toNat
decreasing_by
  have := newYear_strictMono (show y + 1 < y + 1 + 1 by omega)
  omega

/-- `while (days_from_civil(y, 1, 1) * 86400 > s) y--` -/
def yearDown (s y : ℤ) : ℤ :=
  if newYear y * 86400 > s then yearDown s (y - 1) else y
termination_by (newYear y * 86400 - s).toNat
decreasing_by
  have := newYear_strictMono (show y - 1 < y by omega)
  omega

/-- `cali_time_berlin_hour` -/
def berlinHour (epochMs : ℤ) : ℤ :=
  let s := Int.tdiv epochMs 1000
  let y := yearDown s (yearUp s (1970 + Int.tdiv s 31556952))
  let on := daysFromCivil y 3 (lastSunday y 3) * 86400 + 3600
  let off := daysFromCivil y 10 (lastSunday y 10) * 86400 + 3600
  let l := s + if s ≥ on ∧ s < off then 7200 else 3600
  Int.tdiv (Int.tmod (Int.tmod l 86400 + 86400) 86400) 3600

/-- The switch days of a year. -/
def springDay (y : ℤ) : ℤ := daysFromCivil y 3 (lastSunday y 3)

def autumnDay (y : ℤ) : ℤ := daysFromCivil y 10 (lastSunday y 10)

/-- From the last Sunday of a March, 01:00 UTC, to the last Sunday of its October, 01:00 UTC. -/
def Summer (t : ℤ) : Prop :=
  ∃ y d d', LastSunday y 3 d ∧ LastSunday y 10 d' ∧
    daysFromCivil y 3 d * 86400 + 3600 ≤ t ∧ t < daysFromCivil y 10 d' * 86400 + 3600

open Classical in
/-- What the clock shows at an instant, in seconds. -/
noncomputable def localOf (t : ℤ) : ℤ := t + if Summer t then 7200 else 3600

def Civil.seconds (c : Civil) : ℤ := c.date.days * 86400 + c.hour * 3600 + c.min * 60 + c.sec

/-- The instants at which the clock shows a local time. -/
def Civil.Shown (c : Civil) (t : ℤ) : Prop := localOf t = c.seconds

theorem summer_iff_exists (t : ℤ) :
    Summer t ↔ ∃ y, springDay y * 86400 + 3600 ≤ t ∧ t < autumnDay y * 86400 + 3600 := by
  constructor
  · rintro ⟨y, d, d', hd, hd', h⟩
    obtain rfl := hd.unique (lastSunday_spec y (by decide))
    obtain rfl := hd'.unique (lastSunday_spec y (by decide))
    exact ⟨y, h⟩
  · rintro ⟨y, h⟩
    exact ⟨y, _, _, lastSunday_spec y (by decide), lastSunday_spec y (by decide), h⟩

theorem switch_bounds (y : ℤ) :
    newYear y + 60 ≤ springDay y ∧ springDay y + 180 ≤ autumnDay y ∧
      autumnDay y + 60 ≤ newYear (y + 1) := by
  have hs := (lastSunday_spec y (m := 3) (by decide)).valid.day
  have hs' := (lastSunday_spec y (m := 3) (by decide)).last
  have ha := (lastSunday_spec y (m := 10) (by decide)).valid.day
  have ha' := (lastSunday_spec y (m := 10) (by decide)).last
  have h3 : monthDays y 3 = 31 := monthDays_other y (by decide)
  have h10 : monthDays y 10 = 31 := monthDays_other y (by decide)
  have hleap := march_succ (y - 1)
  rw [Int.sub_add_cancel] at hleap
  have hy : y + 1 - 1 = y := by omega
  simp only [springDay, autumnDay, newYear] at *
  rw [daysFromCivil_winter (y := y) (by omega) (by omega),
    daysFromCivil_winter (y := y + 1) (by omega) (by omega), daysFromCivil_march (by omega),
    daysFromCivil_march (by omega), hy]
  split_ifs at hleap <;> omega

theorem summer_iff {t y : ℤ} (h : newYear y * 86400 - 86400 ≤ t)
    (h' : t < newYear (y + 1) * 86400 + 86400) :
    Summer t ↔ springDay y * 86400 + 3600 ≤ t ∧ t < autumnDay y * 86400 + 3600 := by
  rw [summer_iff_exists]
  refine ⟨?_, fun h => ⟨y, h⟩⟩
  rintro ⟨y', hs, ha⟩
  have hb := switch_bounds y'
  rcases lt_trichotomy y' y with hlt | rfl | hlt
  · have := newYear_strictMono.monotone (show y' + 1 ≤ y from hlt)
    omega
  · exact ⟨hs, ha⟩
  · have := newYear_strictMono.monotone (show y + 1 ≤ y' from hlt)
    omega

def Civil.unitUtc (c : Civil) : Option ℤ :=
  Time.unitUtc c.date.year c.date.month c.date.day c.hour c.min c.sec

theorem unitUtc_invalid {c : Civil} (h : ¬ c.Valid) : c.unitUtc = none := by
  refine if_pos ?_
  by_contra hn
  refine h ⟨⟨?_, ?_⟩, ?_, ?_, ?_⟩ <;> omega

theorem switch_day_iff {c : Civil} (h : c.Valid) :
    (c.date.days = springDay c.date.year ↔
        c.date.month = 3 ∧ c.date.day = lastSunday c.date.year 3) ∧
      (c.date.days = autumnDay c.date.year ↔
        c.date.month = 10 ∧ c.date.day = lastSunday c.date.year 10) ∧
      (springDay c.date.year < c.date.days ∧ c.date.days < autumnDay c.date.year ↔
        (c.date.month > 3 ∧ c.date.month < 10) ∨
          (c.date.month = 3 ∧ c.date.day > lastSunday c.date.year 3) ∨
          (c.date.month = 10 ∧ c.date.day < lastSunday c.date.year 10)) := by
  have hs := (lastSunday_spec c.date.year (m := 3) (by decide)).valid
  have ha := (lastSunday_spec c.date.year (m := 10) (by decide)).valid
  have h₁ := Date.days_lt_iff hs h.date
  have h₂ := Date.days_lt_iff h.date hs
  have h₃ := Date.days_lt_iff ha h.date
  have h₄ := Date.days_lt_iff h.date ha
  have hsd : Date.days ⟨c.date.year, 3, lastSunday c.date.year 3⟩ = springDay c.date.year := rfl
  have had : Date.days ⟨c.date.year, 10, lastSunday c.date.year 10⟩ = autumnDay c.date.year := rfl
  simp only [Date.Before, lt_self_iff_false, false_or, true_and, hsd, had] at h₁ h₂ h₃ h₄
  refine ⟨?_, ?_, ?_⟩ <;> omega

/-- The conversion by the second of the year: refused in the hour that comes twice. -/
theorem unitUtc_eq {c : Civil} (h : c.Valid) :
    c.unitUtc =
      if autumnDay c.date.year * 86400 + 7200 ≤ c.seconds ∧
          c.seconds < autumnDay c.date.year * 86400 + 10800 then none
      else some ((c.seconds - if springDay c.date.year * 86400 + 10800 ≤ c.seconds ∧
        c.seconds < autumnDay c.date.year * 86400 + 7200 then 7200 else 3600) * 1000) := by
  obtain ⟨hs, ha, hb⟩ := switch_day_iff h
  have hbounds := switch_bounds c.date.year
  have hd := h.date
  have hmo := hd.month
  have hda := hd.day
  have hh := h.hour
  have hmi := h.min
  have hse := h.sec
  rw [Civil.unitUtc, Time.unitUtc, if_neg (by omega)]
  simp only [← hs, ← ha, ← hb]
  have hsec : c.seconds = c.date.days * 86400 + c.hour * 3600 + c.min * 60 + c.sec := rfl
  have hdays : daysFromCivil c.date.year c.date.month c.date.day = c.date.days := rfl
  rw [hdays, ← hsec]
  by_cases h₁ : c.date.days = springDay c.date.year
  · have hcest : (springDay c.date.year * 86400 + 10800 ≤ c.seconds ∧
        c.seconds < autumnDay c.date.year * 86400 + 7200) ↔ c.hour ≥ 3 := by omega
    rw [if_pos h₁, if_neg (by omega), Option.map_some]
    simp only [hcest, decide_eq_true_eq]
  by_cases h₂ : c.date.days = autumnDay c.date.year
  · rw [if_neg h₁, if_pos h₂]
    by_cases h₃ : c.hour = 2
    · rw [if_pos h₃, if_pos (by omega), Option.map_none]
    · have hcest : (springDay c.date.year * 86400 + 10800 ≤ c.seconds ∧
          c.seconds < autumnDay c.date.year * 86400 + 7200) ↔ c.hour < 2 := by omega
      rw [if_neg h₃, if_neg (by omega), Option.map_some]
      simp only [hcest, decide_eq_true_eq]
  · have hcest : (springDay c.date.year * 86400 + 10800 ≤ c.seconds ∧
        c.seconds < autumnDay c.date.year * 86400 + 7200) ↔
        springDay c.date.year < c.date.days ∧ c.date.days < autumnDay c.date.year := by omega
    rw [if_neg h₁, if_neg h₂, if_neg (by omega), Option.map_some]
    simp only [hcest, decide_eq_true_eq]

theorem year_bounds {c : Civil} (h : c.Valid) :
    newYear c.date.year * 86400 ≤ c.seconds ∧ c.seconds < newYear (c.date.year + 1) * 86400 := by
  have hd := h.date
  have hmo := hd.month
  have hda := hd.day
  have hh := h.hour
  have hmi := h.min
  have hse := h.sec
  have hlt := Date.days_lt_iff hd (Date.newYear_valid c.date.year)
  have hlt' := Date.days_lt_iff hd (Date.newYear_valid (c.date.year + 1))
  have hy : Date.days ⟨c.date.year, 1, 1⟩ = newYear c.date.year := rfl
  have hy' : Date.days ⟨c.date.year + 1, 1, 1⟩ = newYear (c.date.year + 1) := rfl
  simp only [Date.Before, hy, hy'] at hlt hlt'
  simp only [Civil.seconds]
  constructor <;> omega

/-- When the clock shows a local time: in summer time, in the other, in both or in neither. -/
theorem shown_iff {c : Civil} (h : c.Valid) (t : ℤ) :
    c.Shown t ↔
      (t = c.seconds - 7200 ∧ springDay c.date.year * 86400 + 10800 ≤ c.seconds ∧
        c.seconds < autumnDay c.date.year * 86400 + 10800) ∨
      (t = c.seconds - 3600 ∧ (c.seconds < springDay c.date.year * 86400 + 7200 ∨
        autumnDay c.date.year * 86400 + 7200 ≤ c.seconds)) := by
  obtain ⟨hlo, hhi⟩ := year_bounds h
  have hsummer : newYear c.date.year * 86400 - 86400 ≤ t →
      t < newYear (c.date.year + 1) * 86400 + 86400 → (Summer t ↔ _) := summer_iff
  rw [Civil.Shown, localOf]
  split_ifs with hs
  · constructor
    · intro he
      have := (hsummer (by omega) (by omega)).mp hs
      exact .inl ⟨by omega, by omega, by omega⟩
    · rintro (⟨rfl, -, -⟩ | ⟨rfl, hn⟩)
      · omega
      · have := (hsummer (by omega) (by omega)).mp hs
        omega
  · constructor
    · intro he
      have := (not_congr (hsummer (by omega) (by omega))).mp hs
      exact .inr ⟨by omega, by omega⟩
    · rintro (⟨rfl, hn⟩ | ⟨rfl, -⟩)
      · have := (not_congr (hsummer (by omega) (by omega))).mp hs
        omega
      · omega

/-- The clock shows the local time twice. -/
def Civil.Twice (c : Civil) : Prop := ∃ t t', t ≠ t' ∧ c.Shown t ∧ c.Shown t'

theorem twice_iff {c : Civil} (h : c.Valid) :
    c.Twice ↔ autumnDay c.date.year * 86400 + 7200 ≤ c.seconds ∧
      c.seconds < autumnDay c.date.year * 86400 + 10800 := by
  have hb := switch_bounds c.date.year
  constructor
  · rintro ⟨t, t', hne, hs, hs'⟩
    rw [shown_iff h] at hs hs'
    omega
  · intro hl
    refine ⟨c.seconds - 7200, c.seconds - 3600, by omega, ?_, ?_⟩
    · exact (shown_iff h _).mpr (.inl ⟨rfl, by omega, by omega⟩)
    · exact (shown_iff h _).mpr (.inr ⟨rfl, by omega⟩)

theorem unitUtc_eq_none_iff (c : Civil) : c.unitUtc = none ↔ ¬ c.Valid ∨ c.Twice := by
  by_cases h : c.Valid
  · rw [unitUtc_eq h, twice_iff h]
    split_ifs with hl
    · simp [hl]
    · simp [h, hl]
  · simp [unitUtc_invalid h, h]

theorem unitUtc_shown {c : Civil} {t : ℤ} (h : c.Valid) (hs : c.Shown t) (hn : ¬ c.Twice) :
    c.unitUtc = some (t * 1000) := by
  rw [twice_iff h] at hn
  rw [shown_iff h] at hs
  rw [unitUtc_eq h, if_neg hn, Option.some.injEq]
  split_ifs with hl <;> omega

theorem unitUtc_skipped {c : Civil} (h : c.Valid) (hs : ∀ t, ¬ c.Shown t) :
    c.unitUtc = some ((c.seconds - 3600) * 1000) := by
  have h₁ := hs (c.seconds - 7200)
  have h₂ := hs (c.seconds - 3600)
  have hb := switch_bounds c.date.year
  rw [shown_iff h] at h₁ h₂
  rw [unitUtc_eq h, if_neg (by omega), if_neg (by omega)]

theorem yearUp_spec (s y : ℤ) : s < newYear (yearUp s y + 1) * 86400 := by
  induction y using yearUp.induct s with
  | case1 y h ih => rwa [yearUp, if_pos h]
  | case2 y h =>
    rw [yearUp, if_neg h]
    omega

theorem yearDown_spec {s y : ℤ} (h : s < newYear (y + 1) * 86400) :
    newYear (yearDown s y) * 86400 ≤ s ∧ s < newYear (yearDown s y + 1) * 86400 := by
  induction y using yearDown.induct s with
  | case1 y hy ih =>
    rw [yearDown, if_pos hy]
    exact ih (by rwa [Int.sub_add_cancel])
  | case2 y hy =>
    rw [yearDown, if_neg hy]
    exact ⟨by omega, h⟩

theorem berlinHour_eq (t : ℤ) : berlinHour (t * 1000) = localOf t % 86400 / 3600 := by
  have hs : Int.tdiv (t * 1000) 1000 = t := Int.mul_tdiv_cancel t (by decide)
  obtain ⟨hlo, hhi⟩ := yearDown_spec (yearUp_spec t (1970 + Int.tdiv t 31556952))
  simp only [berlinHour, hs]
  generalize yearDown t (yearUp t (1970 + Int.tdiv t 31556952)) = y at *
  have hsummer : Summer t ↔ t ≥ daysFromCivil y 3 (lastSunday y 3) * 86400 + 3600 ∧
      t < daysFromCivil y 10 (lastSunday y 10) * 86400 + 3600 := summer_iff (by omega) (by omega)
  have hl : (t + if t ≥ daysFromCivil y 3 (lastSunday y 3) * 86400 + 3600 ∧
      t < daysFromCivil y 10 (lastSunday y 10) * 86400 + 3600 then 7200 else 3600) = localOf t := by
    rw [localOf]
    by_cases h : Summer t
    · rw [if_pos h, if_pos (hsummer.mp h)]
    · rw [if_neg h, if_neg fun h' => h (hsummer.mpr h')]
  rw [hl]
  have hr := Int.lt_tmod_of_pos (localOf t) (b := 86400) (by decide)
  have hm : Int.tmod (Int.tmod (localOf t) 86400 + 86400) 86400 = localOf t % 86400 := by
    rw [Int.tmod_eq_emod_of_nonneg (by omega), Int.tmod_eq_emod]
    split_ifs <;> omega
  rw [hm, Int.tdiv_eq_ediv_of_nonneg (by omega)]

theorem berlinHour_shown {c : Civil} {t : ℤ} (h : c.Valid) (hs : c.Shown t) :
    berlinHour (t * 1000) = c.hour := by
  have hh := h.hour
  have hmi := h.min
  have hse := h.sec
  rw [berlinHour_eq, hs, Civil.seconds]
  omega

def Civil.Before (c c' : Civil) : Prop :=
  c.date.Before c'.date ∨ c.date = c'.date ∧ (c.hour < c'.hour ∨ c.hour = c'.hour ∧
    (c.min < c'.min ∨ c.min = c'.min ∧ c.sec < c'.sec))

theorem seconds_lt {c c' : Civil} (h : c.Valid) (h' : c'.Valid) (hb : c.Before c') :
    c.seconds < c'.seconds := by
  have hh := h.hour
  have hmi := h.min
  have hse := h.sec
  have hh' := h'.hour
  have hmi' := h'.min
  have hse' := h'.sec
  simp only [Civil.seconds]
  rcases hb with hd | ⟨hd, ht⟩
  · have := Date.days_lt h.date h'.date hd
    omega
  · rw [hd]
    omega

theorem shown_lt {c c' : Civil} {t t' : ℤ} (h : c.Valid) (h' : c'.Valid) (hs : c.Shown t)
    (hs' : c'.Shown t') (hn : ¬ c.Twice) (hn' : ¬ c'.Twice) (hlt : c.seconds < c'.seconds) :
    t < t' := by
  have hy := year_bounds h
  have hy' := year_bounds h'
  have hb := switch_bounds c.date.year
  have hb' := switch_bounds c'.date.year
  rw [shown_iff h] at hs
  rw [shown_iff h'] at hs'
  rw [twice_iff h] at hn
  rw [twice_iff h'] at hn'
  rcases lt_trichotomy c.date.year c'.date.year with hyy | hyy | hyy
  · have := newYear_strictMono.monotone (show c.date.year + 1 ≤ c'.date.year from hyy)
    omega
  · have hsd : springDay c.date.year = springDay c'.date.year := by rw [hyy]
    have had : autumnDay c.date.year = autumnDay c'.date.year := by rw [hyy]
    omega
  · have := newYear_strictMono.monotone (show c'.date.year + 1 ≤ c.date.year from hyy)
    omega

/-- The conversion of local times: refused where there is no such date or the hour comes twice,
else the instant at which the clock shows the time; in order, and back to the hour. Dates are
counted one by one. -/
theorem unit_time :
    (Date.days ⟨1970, 1, 1⟩ = 0 ∧
      ∀ c : Date, c.Valid → c.next.Valid ∧ c.Before c.next ∧ c.next.days = c.days + 1) ∧
    (∀ c : Civil, c.unitUtc = none ↔ ¬ c.Valid ∨ c.Twice) ∧
    (∀ (c : Civil) (t : ℤ), c.Valid → c.Shown t → ¬ c.Twice →
      c.unitUtc = some (t * 1000) ∧ berlinHour (t * 1000) = c.hour) ∧
    (∀ c : Civil, c.Valid → (∀ t, ¬ c.Shown t) → c.unitUtc = some ((c.seconds - 3600) * 1000)) ∧
    (∀ (c c' : Civil) (t t' : ℤ), c.Valid → c'.Valid → c.Shown t → c'.Shown t' → ¬ c.Twice →
      ¬ c'.Twice → c.Before c' → ∃ u u', c.unitUtc = some u ∧ c'.unitUtc = some u' ∧ u < u') := by
  refine ⟨⟨by decide, fun c h => ⟨Date.next_valid h, ?_, Date.days_next h⟩⟩, unitUtc_eq_none_iff,
    fun c t h hs hn => ⟨unitUtc_shown h hs hn, berlinHour_shown h hs⟩,
    fun c h hs => unitUtc_skipped h hs, fun c c' t t' h h' hs hs' hn hn' hb => ?_⟩
  · rw [← Date.days_lt_iff h (Date.next_valid h), Date.days_next h]
    omega
  · refine ⟨_, _, unitUtc_shown h hs hn, unitUtc_shown h' hs' hn', ?_⟩
    have := shown_lt h h' hs hs' hn hn' (seconds_lt h h' hb)
    omega

end OpenCalifornia.Time
