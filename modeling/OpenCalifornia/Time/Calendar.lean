import Mathlib

/-! # The calendar of `time.c`

`days_from_civil`, `month_days` and `last_sunday`, with C's division. Day counts go up by one from
each date to the next, from 1970-01-01 on and before it. -/

namespace OpenCalifornia.Time

/-- Days since 1970-01-01 of a proleptic Gregorian date. -/
def daysFromCivil (y m d : ℤ) : ℤ :=
  let y := y - if m ≤ 2 then 1 else 0
  let era := Int.tdiv (if y ≥ 0 then y else y - 399) 400
  let yoe := y - era * 400
  let doy := Int.tdiv (153 * (m + if m > 2 then -3 else 9) + 2) 5 + d - 1
  era * 146097 + yoe * 365 + Int.tdiv yoe 4 - Int.tdiv yoe 100 + doy - 719468

def monthDays (y m : ℤ) : ℤ :=
  if m = 2 ∧ ((Int.tmod y 4 = 0 ∧ Int.tmod y 100 ≠ 0) ∨ Int.tmod y 400 = 0) then 29
  else [31, 28, 31, 30, 31, 30, 31, 31, 30, 31, 30, 31].getD (m - 1).toNat 0

/-- Day of month of the last Sunday of a month. -/
def lastSunday (y m : ℤ) : ℤ :=
  let last := monthDays y m
  let dow := Int.tmod (Int.tmod (daysFromCivil y m last) 7 + 11) 7
  last - dow

/-- The days up to the first of March, from which a year is counted. -/
def march (y : ℤ) : ℤ := 365 * y + y / 4 - y / 100 + y / 400 - 719468

def leap (y : ℤ) : Prop := (y % 4 = 0 ∧ y % 100 ≠ 0) ∨ y % 400 = 0

instance (y : ℤ) : Decidable (leap y) := inferInstanceAs (Decidable (_ ∨ _))

theorem era_eq (y : ℤ) : Int.tdiv (if y ≥ 0 then y else y - 399) 400 = y / 400 := by
  split_ifs with h
  · exact Int.tdiv_eq_ediv_of_nonneg h
  · rw [Int.tdiv_eq_ediv]
    split_ifs with hd
    · omega
    · have hs : Int.sign 400 = 1 := rfl
      omega

theorem march_eq (y : ℤ) :
    y / 400 * 146097 + (y - y / 400 * 400) * 365 + Int.tdiv (y - y / 400 * 400) 4 -
      Int.tdiv (y - y / 400 * 400) 100 - 719468 = march y := by
  rw [Int.tdiv_eq_ediv_of_nonneg (by omega), Int.tdiv_eq_ediv_of_nonneg (by omega), march]
  omega

theorem daysFromCivil_march {y m d : ℤ} (hm : 3 ≤ m) :
    daysFromCivil y m d = march y + (153 * (m - 3) + 2) / 5 + d - 1 := by
  have hdoy : Int.tdiv (153 * (m + -3) + 2) 5 = (153 * (m - 3) + 2) / 5 :=
    Int.tdiv_eq_ediv_of_nonneg (by omega)
  have h := march_eq y
  have h₂ : ¬ m ≤ 2 := by omega
  have h₃ : m > 2 := by omega
  simp only [daysFromCivil, if_neg h₂, if_pos h₃, Int.sub_zero, era_eq, hdoy]
  omega

theorem daysFromCivil_winter {y m d : ℤ} (hm : 1 ≤ m) (hm' : m ≤ 2) :
    daysFromCivil y m d = march (y - 1) + (153 * (m + 9) + 2) / 5 + d - 1 := by
  have hdoy : Int.tdiv (153 * (m + 9) + 2) 5 = (153 * (m + 9) + 2) / 5 :=
    Int.tdiv_eq_ediv_of_nonneg (by omega)
  have h := march_eq (y - 1)
  have h₃ : ¬ m > 2 := by omega
  simp only [daysFromCivil, if_pos hm', if_neg h₃, era_eq, hdoy]
  omega

theorem march_succ (y : ℤ) : march (y + 1) = march y + 365 + if leap (y + 1) then 1 else 0 := by
  simp only [march, leap]
  split_ifs <;> omega

theorem monthDays_feb (y : ℤ) : monthDays y 2 = if leap y then 29 else 28 := by
  have h : ((Int.tmod y 4 = 0 ∧ Int.tmod y 100 ≠ 0) ∨ Int.tmod y 400 = 0) ↔ leap y := by
    simp only [leap, ← Int.dvd_iff_tmod_eq_zero, ← Int.dvd_iff_emod_eq_zero, ne_eq]
  simp only [monthDays, true_and, h]
  split_ifs <;> rfl

theorem monthDays_other (y : ℤ) {m : ℤ} (hm : m ≠ 2) :
    monthDays y m = [31, 28, 31, 30, 31, 30, 31, 31, 30, 31, 30, 31].getD (m - 1).toNat 0 :=
  if_neg fun h => hm h.1

theorem daysFromCivil_next_month (y : ℤ) {m : ℤ} (hm : 1 ≤ m) (hm' : m < 12) :
    daysFromCivil y (m + 1) 1 = daysFromCivil y m 1 + monthDays y m := by
  have hleap := march_succ (y - 1)
  rw [Int.sub_add_cancel] at hleap
  by_cases h₁ : m = 1
  · subst h₁
    rw [daysFromCivil_winter (by omega) (by omega), daysFromCivil_winter (by omega) (by omega),
      monthDays_other y (by omega)]
    simp
    omega
  by_cases h₂ : m = 2
  · subst h₂
    rw [daysFromCivil_march (by omega), daysFromCivil_winter (by omega) (by omega), monthDays_feb]
    split_ifs at * <;> omega
  rw [daysFromCivil_march (by omega), daysFromCivil_march (by omega), monthDays_other y h₂]
  interval_cases m <;> simp <;> omega

theorem daysFromCivil_next_year (y : ℤ) :
    daysFromCivil (y + 1) 1 1 = daysFromCivil y 12 1 + monthDays y 12 := by
  rw [daysFromCivil_winter (by omega) (by omega), daysFromCivil_march (by omega),
    monthDays_other y (by omega), Int.add_sub_cancel]
  simp
  omega

theorem monthDays_bounds (y : ℤ) {m : ℤ} (hm : 1 ≤ m) (hm' : m ≤ 12) :
    28 ≤ monthDays y m ∧ monthDays y m ≤ 31 := by
  by_cases h₂ : m = 2
  · subst h₂
    rw [monthDays_feb]
    split_ifs <;> omega
  · rw [monthDays_other y h₂]
    interval_cases m <;> simp

theorem daysFromCivil_day (y m d : ℤ) : daysFromCivil y m d = daysFromCivil y m 1 + d - 1 := by
  simp only [daysFromCivil]
  omega

structure Date where
  year : ℤ
  month : ℤ
  day : ℤ
  deriving DecidableEq, Repr

structure Date.Valid (c : Date) : Prop where
  month : 1 ≤ c.month ∧ c.month ≤ 12
  day : 1 ≤ c.day ∧ c.day ≤ monthDays c.year c.month

def Date.days (c : Date) : ℤ := daysFromCivil c.year c.month c.day

/-- The date after a date. -/
def Date.next (c : Date) : Date :=
  if c.day < monthDays c.year c.month then ⟨c.year, c.month, c.day + 1⟩
  else if c.month < 12 then ⟨c.year, c.month + 1, 1⟩
  else ⟨c.year + 1, 1, 1⟩

theorem Date.days_next {c : Date} (h : c.Valid) : c.next.days = c.days + 1 := by
  obtain ⟨⟨hm, hm'⟩, -, hd⟩ := h
  have hday := daysFromCivil_day c.year c.month c.day
  simp only [Date.next, Date.days]
  split_ifs with h₁ h₂
  · have := daysFromCivil_day c.year c.month (c.day + 1)
    dsimp only
    omega
  · have := daysFromCivil_next_month c.year hm h₂
    dsimp only
    omega
  · have h₃ : c.month = 12 := by omega
    have := daysFromCivil_next_year c.year
    rw [h₃] at hd h₁ hday
    dsimp only
    rw [h₃]
    omega

theorem Date.next_valid {c : Date} (h : c.Valid) : c.next.Valid := by
  obtain ⟨⟨hm, hm'⟩, hd₁, hd⟩ := h
  simp only [Date.next]
  split_ifs with h₁ h₂
  · exact ⟨⟨hm, hm'⟩, by dsimp only; omega, h₁⟩
  · have := monthDays_bounds c.year (m := c.month + 1) (by omega) (by omega)
    refine ⟨⟨?_, ?_⟩, ?_, ?_⟩ <;> dsimp only <;> omega
  · have := monthDays_bounds (c.year + 1) (m := 1) (by omega) (by omega)
    refine ⟨⟨?_, ?_⟩, ?_, ?_⟩ <;> dsimp only <;> omega

theorem Date.newYear_valid (y : ℤ) : Date.Valid ⟨y, 1, 1⟩ := by
  have := monthDays_bounds y (m := 1) (by decide) (by decide)
  refine ⟨⟨?_, ?_⟩, ?_, ?_⟩ <;> dsimp only <;> omega

/-- The first day of the `k`-th month from the year 0 on. -/
def monthStart (k : ℤ) : ℤ := daysFromCivil (k / 12) (k % 12 + 1) 1

theorem monthStart_succ (k : ℤ) :
    monthStart (k + 1) = monthStart k + monthDays (k / 12) (k % 12 + 1) := by
  simp only [monthStart]
  by_cases h : k % 12 = 11
  · have hy : (k + 1) / 12 = k / 12 + 1 := by omega
    have hm : (k + 1) % 12 = 0 := by omega
    rw [hy, hm, h]
    exact daysFromCivil_next_year (k / 12)
  · have hy : (k + 1) / 12 = k / 12 := by omega
    have hm : (k + 1) % 12 = k % 12 + 1 := by omega
    rw [hy, hm]
    exact daysFromCivil_next_month (k / 12) (by omega) (by omega)

theorem monthStart_strictMono : StrictMono monthStart := by
  refine strictMono_int_of_lt_succ fun k => ?_
  have := (monthDays_bounds (k / 12) (m := k % 12 + 1) (by omega) (by omega)).1
  rw [monthStart_succ]
  omega

def Date.index (c : Date) : ℤ := 12 * c.year + c.month - 1

theorem Date.days_eq {c : Date} (h : c.Valid) :
    c.days = monthStart c.index + c.day - 1 ∧
      monthStart (c.index + 1) = monthStart c.index + monthDays c.year c.month := by
  have hm := h.month
  have hy : c.index / 12 = c.year := by
    simp only [Date.index]
    omega
  have hk : c.index % 12 + 1 = c.month := by
    simp only [Date.index]
    omega
  rw [monthStart_succ, hy, hk, Date.days, daysFromCivil_day, monthStart, hy, hk]
  exact ⟨rfl, rfl⟩

def Date.Before (c c' : Date) : Prop :=
  c.year < c'.year ∨ c.year = c'.year ∧ (c.month < c'.month ∨ c.month = c'.month ∧ c.day < c'.day)

theorem Date.days_lt {c c' : Date} (h : c.Valid) (h' : c'.Valid) (hlt : c.Before c') :
    c.days < c'.days := by
  obtain ⟨he, hs⟩ := days_eq h
  obtain ⟨he', hs'⟩ := days_eq h'
  have hd := h.day
  have hd' := h'.day
  have hm := h.month
  have hm' := h'.month
  by_cases hk : c.index = c'.index
  · rw [hk] at he
    simp only [Date.index] at hk
    have hday : c.day < c'.day := by
      rcases hlt with hy | ⟨hy, hmo | ⟨hmo, hday⟩⟩
      · omega
      · omega
      · exact hday
    omega
  · have hlt' : c.index + 1 ≤ c'.index := by
      simp only [Date.index] at *
      rcases hlt with hy | ⟨hy, hmo | ⟨hmo, -⟩⟩
      · omega
      · omega
      · omega
    have := monthStart_strictMono.monotone hlt'
    omega

theorem Date.days_lt_iff {c c' : Date} (h : c.Valid) (h' : c'.Valid) :
    c.days < c'.days ↔ c.Before c' := by
  refine ⟨fun hlt => ?_, days_lt h h'⟩
  by_contra hn
  by_cases he : c = c'
  · rw [he] at hlt
    exact lt_irrefl _ hlt
  · have hb : c'.Before c := by
      obtain ⟨y, m, d⟩ := c
      obtain ⟨y', m', d'⟩ := c'
      simp only [Date.Before, Date.mk.injEq] at *
      omega
    exact lt_asymm hlt (days_lt h' h hb)

/-- 1970-01-01 was a Thursday. -/
structure LastSunday (y m d : ℤ) : Prop where
  valid : Date.Valid ⟨y, m, d⟩
  last : monthDays y m < d + 7
  sunday : (daysFromCivil y m d + 4) % 7 = 0

theorem lastSunday_spec (y : ℤ) {m : ℤ} (hm : 1 ≤ m ∧ m ≤ 12) :
    LastSunday y m (lastSunday y m) := by
  have hb := monthDays_bounds y hm.1 hm.2
  have hdow : Int.tmod (Int.tmod (daysFromCivil y m (monthDays y m)) 7 + 11) 7 =
      (daysFromCivil y m (monthDays y m) + 4) % 7 := by
    rw [Int.tmod_eq_emod_of_nonneg, Int.tmod_eq_emod]
    · split_ifs <;> omega
    · have := Int.lt_tmod_of_pos (daysFromCivil y m (monthDays y m)) (b := 7) (by decide)
      omega
  have hday := daysFromCivil_day y m (monthDays y m)
  have hday' := daysFromCivil_day y m (lastSunday y m)
  simp only [lastSunday, hdow] at *
  refine ⟨⟨hm, ?_, ?_⟩, ?_, ?_⟩
  · dsimp only
    omega
  · dsimp only
    omega
  · omega
  · rw [hday']
    omega

theorem LastSunday.unique {y m d d' : ℤ} (h : LastSunday y m d) (h' : LastSunday y m d') :
    d = d' := by
  have hd := h.valid.day
  have hd' := h'.valid.day
  have hl := h.last
  have hl' := h'.last
  have hs := h.sunday
  have hs' := h'.sunday
  rw [daysFromCivil_day] at hs hs'
  dsimp only at hd hd'
  omega

end OpenCalifornia.Time
