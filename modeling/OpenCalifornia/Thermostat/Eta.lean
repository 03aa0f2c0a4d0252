import OpenCalifornia.Thermostat.Overflow
import OpenCalifornia.Thermostat.Runner

/-! # The time to the target

`eta_update` and `cali_thermo_eta`: while AUTO heats the runner keeps a reading a minute, each with
the time it was read at, and draws a line from the oldest of the last ten minutes to this step's. -/

namespace OpenCalifornia.Thermostat.Firmware.Eta
open Lib.CInt
open Lib.Machine (Run Record run_of_exec)
open Runner (u64)
open Settings (targetOk)

def etaN : ℕ := 12

def windowMs : ℤ := 600000

def minSpanMs : ℤ := 360000

def minRate : ℤ := 5

def near : ℤ := 50

/-- `cali_thermo_eta`: the seconds, `*ends_first` -/
def eta (spanMs rise gap remS : ℤ) : ℤ × Bool :=
  if spanMs < minSpanMs ∨ gap ≤ near ∨ rise * 60000 < minRate * spanMs then (thermoNone, false)
  else
    let s := (i32 (rdiv (gap * spanMs) (rise * 1000))).stored
    (s, decide (remS ≠ thermoNone ∧ s > remS))

/-- An element of `s_es` -/
structure Sample where
  at_ : ℕ
  t : ℤ
  deriving DecidableEq

/-- `s_es` up to `s_en`, the oldest first, and the estimate from it. -/
structure Track where
  es : List Sample := []
  /-- `s_eta_src`, the role of the samples: -1 is none -/
  src : Option Active := none
  eta : ℤ := thermoNone
  first : Bool := false
  deriving DecidableEq

def heating (mode : Mode) (s : Status) : Bool :=
  mode = .auto ∧ s.tRef ≠ thermoNone ∧ s.heater.heating

/-- `age` -/
def ageOf (r : Sensor) : ℕ := if r.ageMs > 0 ∧ r.ageMs ≠ thermoNoneMs then u64 r.ageMs else 0

def readAt (now age : ℕ) : ℕ := if now > age then u64 (now - age) else 0

/-- The samples that the thermometer in use keeps. -/
def kept (e : Track) (active : Active) : List Sample := if e.src = some active then e.es else []

/-- A reading's time does not run behind the newest sample's. -/
def stamp (es : List Sample) (read : ℕ) : ℕ :=
  match es.getLast? with
  | some s => if read < s.at_ then s.at_ else read
  | none => read

def sampled (es : List Sample) (now : ℕ) (t : ℤ) : List Sample :=
  match es.getLast? with
  | some s =>
    if u64 (now - s.at_) ≥ 60000 then (if es.length = etaN then es.tail else es) ++ [⟨now, t⟩]
    else es
  | none => [⟨now, t⟩]

/-- The samples of the window; the newest stays. -/
def trim (now : ℕ) : List Sample → List Sample
  | s :: s' :: es => if (u64 (now - s.at_) : ℤ) > windowMs then trim now (s' :: es)
    else s :: s' :: es
  | es => es

section Update

variable (inp : Input) (remMin : ℤ) (st : State) (out : Status) (e : Track)

/-- `at`, where the step heats -/
def stampOf : ℕ :=
  stamp (kept e st.active) (readAt (u64 inp.nowMs) (ageOf (sensor inp st.active)))

/-- The samples that the estimate finds. -/
def seriesOf : List Sample :=
  trim (stampOf inp st e) (sampled (kept e st.active) (stampOf inp st e) out.tRef)

/-- The heater's frame's age in seconds. -/
def frameAge : ℤ := if inp.heaterAgeMs = thermoNoneMs then 0 else inp.heaterAgeMs.tdiv 1000

/-- `rem_s`: the run time left in the heater's frame, less the frame's age -/
def runLeft : ℤ :=
  if out.night = false ∧ remMin ≠ thermoNone then
    let left := remMin * 60 - frameAge inp
    if left < 0 then 0 else (i32 left).stored
  else thermoNone

/-- The line from the oldest sample. -/
def estimate (old : Sample) : ℤ × Bool :=
  eta (u64 (stampOf inp st e - old.at_)) (out.tRef - old.t) (inp.target - out.tRef)
    (runLeft inp remMin out)

/-- `eta_update` -/
def update : Track :=
  if heating st.mode out then
    match seriesOf inp st out e with
    | old :: es =>
      ⟨old :: es, some st.active, (estimate inp remMin st out e old).1,
        (estimate inp remMin st out e old).2⟩
    | [] => ⟨[], some st.active, thermoNone, false⟩
  else ⟨[], some st.active, thermoNone, false⟩

end Update

def trimDiffs (now : ℕ) : List Sample → List ℤ
  | s :: s' :: es =>
    (now - s.at_) :: if (u64 (now - s.at_) : ℤ) > windowMs then trimDiffs now (s' :: es) else []
  | _ => []

section Values

variable (inp : Input) (remMin : ℤ) (st : State) (out : Status) (e : Track)

/-- What `eta_update` computes as a `uint64_t`, exactly. -/
def unsignedVals : List ℤ :=
  if heating st.mode out then
    let r := sensor inp st.active
    let es := kept e st.active
    let now := stampOf inp st e
    (if r.ageMs > 0 ∧ r.ageMs ≠ thermoNoneMs then [r.ageMs] else []) ++
      inp.nowMs :: (if u64 inp.nowMs > ageOf r then [(u64 inp.nowMs : ℤ) - ageOf r] else []) ++
      (es.getLast?.map fun s => (now - s.at_ : ℤ)).toList ++
      trimDiffs now (sampled es now out.tRef) ++
      ((seriesOf inp st out e).head?.map fun s => (now - s.at_ : ℤ)).toList
  else []

/-- `cali_thermo_eta` -/
def etaVals (spanMs rise gap : ℤ) : List Val :=
  if spanMs < minSpanMs ∨ gap ≤ near then []
  else [i64 (rise * 60000), i64 (minRate * spanMs)] ++
    if rise * 60000 < minRate * spanMs then []
    else [i64 (gap * spanMs), i64 (rise * 1000)] ++ rdivVals (gap * spanMs) (rise * 1000) ++
      [i32 (rdiv (gap * spanMs) (rise * 1000))]

def leftVals : List Val :=
  if out.night = false ∧ remMin ≠ thermoNone then
    [i64 (remMin * 60), i64 (frameAge inp), i64 (remMin * 60 - frameAge inp)] ++
      if remMin * 60 - frameAge inp < 0 then [] else [i32 (remMin * 60 - frameAge inp)]
  else []

def lineVals (old : Sample) : List Val :=
  let span := u64 (stampOf inp st e - old.at_)
  [i64 span, i32 (out.tRef - old.t), i32 (inp.target - out.tRef)] ++
    etaVals span (out.tRef - old.t) (inp.target - out.tRef)

/-- The signed ones, and what is narrowed. -/
def signedVals : List Val :=
  if heating st.mode out then
    leftVals inp remMin out ++
      ((seriesOf inp st out e).head?.map (lineVals inp st out e)).getD []
  else []

end Values

/-- A turn of the thermostat and `RunningTimeinAction` of the heater's frame. -/
abbrev Beat := Turn × ℤ

/-- `step`, as far as the estimate goes -/
def beat (x : Beat) (w : State × Track) : Option (Out × (State × Track)) :=
  (turn x.1 w.1).map fun r => (r.1, (r.2, update x.1.2 x.2 r.2 r.1.status w.2))

/-- `cali_thermo_run_init` -/
def start : State × Track := (Firmware.init, {})

abbrev BeatRec := Record Beat Out (State × Track)

theorem rdiv_le {a b k : ℤ} (ha : 0 ≤ a) (hb : 0 < b) (h : a ≤ k * b) : rdiv a b ≤ k := by
  have hr := (rdiv_of_nonneg ha hb).1
  by_contra hn
  nlinarith

theorem le_rdiv {a b k : ℤ} (ha : 0 ≤ a) (hb : 0 < b) (h : k * b ≤ a) : k ≤ rdiv a b := by
  have hr := (rdiv_of_nonneg ha hb).2
  by_contra hn
  nlinarith

theorem rdiv_anti {a b b' : ℤ} (ha : 0 ≤ a) (hb : 0 < b) (h : b ≤ b') : rdiv a b' ≤ rdiv a b := by
  have h₁ := (rdiv_of_nonneg ha hb).2
  have h₂ := (rdiv_of_nonneg ha (hb.trans_le h)).1
  have h₀ := rdiv_nonneg ha hb
  by_contra hn
  have hn' : rdiv a b + 1 ≤ rdiv a b' := by omega
  nlinarith

/-- The line is drawn. -/
def Drawn (spanMs rise gap : ℤ) : Prop :=
  minSpanMs ≤ spanMs ∧ near < gap ∧ minRate * spanMs ≤ rise * 60000

variable {spanMs rise gap remS : ℤ}

theorem eta_drawn (h : Drawn spanMs rise gap) :
    (eta spanMs rise gap remS).1 = (i32 (rdiv (gap * spanMs) (rise * 1000))).stored := by
  obtain ⟨h₁, h₂, h₃⟩ := h
  rw [eta, if_neg (by omega)]

theorem drawn_of_eta (h : (eta spanMs rise gap remS).1 ≠ thermoNone) : Drawn spanMs rise gap := by
  by_contra hn
  refine h ?_
  rw [eta, if_pos]
  simp only [Drawn] at hn
  omega

theorem Drawn.bounds (h : Drawn spanMs rise gap) :
    0 < rise * 1000 ∧ 0 ≤ gap * spanMs ∧ 0 ≤ rdiv (gap * spanMs) (rise * 1000) ∧
      rdiv (gap * spanMs) (rise * 1000) ≤ 12 * gap := by
  obtain ⟨h₁, h₂, h₃⟩ := h
  simp only [minSpanMs, near, minRate] at h₁ h₂ h₃
  have hb : 0 < rise * 1000 := by omega
  have ha : 0 ≤ gap * spanMs := mul_nonneg (by omega) (by omega)
  refine ⟨hb, ha, rdiv_nonneg ha hb, rdiv_le ha hb ?_⟩
  nlinarith

theorem Drawn.stored (h : Drawn spanMs rise gap) (hg : 12 * gap ≤ 2147483647) :
    (i32 (rdiv (gap * spanMs) (rise * 1000))).stored = rdiv (gap * spanMs) (rise * 1000) := by
  obtain ⟨-, -, h₀, h₁⟩ := h.bounds
  exact (fits_i32.2 ⟨by omega, by omega⟩ : (i32 (rdiv (gap * spanMs) (rise * 1000))).fits).stored_eq

theorem Drawn.eta_eq (h : Drawn spanMs rise gap) (hg : 12 * gap ≤ 2147483647) :
    (eta spanMs rise gap remS).1 = rdiv (gap * spanMs) (rise * 1000) := by
  rw [eta_drawn h, h.stored hg]

theorem Drawn.gap_mono (h : Drawn spanMs rise gap) {gap' : ℤ} (hg : gap ≤ gap')
    (hg' : 12 * gap' ≤ 2147483647) : Drawn spanMs rise gap' ∧
      (eta spanMs rise gap remS).1 ≤ (eta spanMs rise gap' remS).1 := by
  have h' : Drawn spanMs rise gap' := ⟨h.1, h.2.1.trans_le hg, h.2.2⟩
  obtain ⟨hb, ha, -, -⟩ := h.bounds
  have hs : minSpanMs ≤ spanMs := h.1
  simp only [minSpanMs] at hs
  rw [h.eta_eq (by omega), h'.eta_eq hg']
  exact ⟨h', rdiv_mono ha (mul_le_mul_of_nonneg_right hg (by omega)) hb⟩

theorem Drawn.rise_anti (h : Drawn spanMs rise gap) {rise' : ℤ} (hr : rise ≤ rise')
    (hg : 12 * gap ≤ 2147483647) : Drawn spanMs rise' gap ∧
      (eta spanMs rise' gap remS).1 ≤ (eta spanMs rise gap remS).1 := by
  have h' : Drawn spanMs rise' gap := ⟨h.1, h.2.1, h.2.2.trans (by omega)⟩
  obtain ⟨hb, ha, -, -⟩ := h.bounds
  rw [h.eta_eq hg, h'.eta_eq hg]
  exact ⟨h', rdiv_anti ha hb (by omega)⟩

theorem Drawn.pos (h : Drawn spanMs rise gap) (hr : rise ≤ 10000) (hg : 12 * gap ≤ 2147483647) :
    1 ≤ (eta spanMs rise gap remS).1 := by
  obtain ⟨hb, ha, -, -⟩ := h.bounds
  rw [h.eta_eq hg]
  obtain ⟨h₁, h₂, -⟩ := h
  simp only [minSpanMs, near] at h₁ h₂
  refine le_rdiv ha hb ?_
  nlinarith

/-- The last clock of `Plausible`. -/
def clockMax : ℕ := 9223372036854775

structure Series (es : List Sample) : Prop where
  len : es.length ≤ etaN
  order : es.Pairwise (·.at_ ≤ ·.at_)
  clock : ∀ s ∈ es, s.at_ ≤ clockMax
  reads : ∀ s ∈ es, reading s.t

theorem Series.nil : Series [] := ⟨Nat.zero_le _, .nil, by simp, by simp⟩

theorem Series.suffix {es es' : List Sample} (h : Series es) (hs : es' <:+ es) : Series es' where
  len := hs.length_le.trans h.len
  order := h.order.sublist hs.sublist
  clock s hm := h.clock s (hs.subset hm)
  reads s hm := h.reads s (hs.subset hm)

theorem u64_of_nonneg {z : ℤ} (h : 0 ≤ z) (h' : z < 18446744073709551616) : (u64 z : ℤ) = z := by
  rw [u64, Int.emod_eq_of_lt h (by omega), Int.toNat_of_nonneg h]

theorem u64_span {a b : ℕ} (h : b ≤ a) (ha : a ≤ clockMax) : (u64 ((a : ℤ) - b) : ℤ) = a - b := by
  have hm : clockMax = 9223372036854775 := rfl
  exact u64_of_nonneg (by omega) (by omega)

theorem u64_sub {a b : ℕ} (h : b ≤ a) (ha : a ≤ clockMax) : u64 ((a : ℤ) - b) = a - b := by
  have := u64_span h ha
  omega

theorem stamp_le {es : List Sample} (h : Series es) {read : ℕ} (hr : read ≤ clockMax) :
    stamp es read ≤ clockMax := by
  unfold stamp
  split
  · next s hs =>
    split_ifs
    · exact h.clock s (List.mem_of_getLast? hs)
    · exact hr
  · exact hr

theorem le_stamp {es : List Sample} (h : Series es) (read : ℕ) :
    ∀ s ∈ es, s.at_ ≤ stamp es read := by
  intro s hs
  cases hl : es.getLast? with
  | none => simp [List.getLast?_eq_none_iff.1 hl] at hs
  | some l =>
    obtain ⟨ys, rfl⟩ := List.getLast?_eq_some_iff.1 hl
    have hle : s.at_ ≤ l.at_ := by
      cases List.mem_append.1 hs with
      | inl hy => exact (List.pairwise_append.1 h.order).2.2 s hy l (by simp)
      | inr hy => rw [List.mem_singleton.1 hy]
    unfold stamp
    rw [hl]
    dsimp only
    split_ifs with hr
    · exact hle
    · omega

/-- A sample is pushed, the oldest one leaves a full buffer, or the newest is under a minute old. -/
theorem sampled_cases {es : List Sample} (h : Series es) {now : ℕ}
    (hle : ∀ s ∈ es, s.at_ ≤ now) (hn : now ≤ clockMax) (t : ℤ) :
    (∃ es', es' <:+ es ∧ es'.length < etaN ∧ sampled es now t = es' ++ [⟨now, t⟩]) ∨
      ∃ ys l, es = ys ++ [l] ∧ sampled es now t = es ∧ now - l.at_ < 60000 := by
  unfold sampled
  cases hl : es.getLast? with
  | none =>
    left
    exact ⟨[], List.nil_suffix, by decide, rfl⟩
  | some l =>
    have hm : l ∈ es := List.mem_of_getLast? hl
    obtain ⟨ys, hys⟩ := List.getLast?_eq_some_iff.1 hl
    dsimp only
    rw [u64_sub (hle l hm) hn]
    by_cases hold : now - l.at_ ≥ 60000
    · left
      rw [if_pos hold]
      have hlen := h.len
      by_cases hfull : es.length = etaN
      · rw [if_pos hfull]
        refine ⟨es.tail, List.tail_suffix es, ?_, rfl⟩
        rw [List.length_tail, hfull]
        decide
      · rw [if_neg hfull]
        exact ⟨es, List.suffix_rfl, by omega, rfl⟩
    · right
      rw [if_neg hold]
      exact ⟨ys, l, hys, rfl, by omega⟩

theorem Series.push {es : List Sample} (h : Series es) {now : ℕ} (hlen : es.length < etaN)
    (hle : ∀ s ∈ es, s.at_ ≤ now) (hn : now ≤ clockMax) {t : ℤ} (ht : reading t) :
    Series (es ++ [⟨now, t⟩]) where
  len := by
    rw [List.length_append, List.length_singleton]
    omega
  order := by
    refine List.pairwise_append.2 ⟨h.order, List.pairwise_singleton _ _, fun s hs s' hs' => ?_⟩
    rw [List.mem_singleton.1 hs']
    exact hle s hs
  clock s hs := by
    cases List.mem_append.1 hs with
    | inl hs => exact h.clock s hs
    | inr hs => rw [List.mem_singleton.1 hs]; exact hn
  reads s hs := by
    cases List.mem_append.1 hs with
    | inl hs => exact h.reads s hs
    | inr hs => rw [List.mem_singleton.1 hs]; exact ht

/-- What the trim finds: the newest sample is under a minute old. -/
structure Fresh (now : ℕ) (es : List Sample) : Prop where
  series : Series es
  past : ∀ s ∈ es, s.at_ ≤ now
  newest : ∃ ys l, es = ys ++ [l] ∧ now - l.at_ < 60000

theorem sampled_fresh {es : List Sample} (h : Series es) {now : ℕ}
    (hle : ∀ s ∈ es, s.at_ ≤ now) (hn : now ≤ clockMax) {t : ℤ} (ht : reading t) :
    Fresh now (sampled es now t) := by
  cases sampled_cases h hle hn t with
  | inl hp =>
    obtain ⟨es', hs, hlen, he⟩ := hp
    have hle' : ∀ s ∈ es', s.at_ ≤ now := fun s hm => hle s (hs.subset hm)
    rw [he]
    refine ⟨(h.suffix hs).push hlen hle' hn ht, fun s hm => ?_, es', _, rfl, by simp⟩
    cases List.mem_append.1 hm with
    | inl hm => exact hle' s hm
    | inr hm => rw [List.mem_singleton.1 hm]
  | inr hk =>
    obtain ⟨ys, l, hys, he, hl⟩ := hk
    rw [he]
    exact ⟨h, hle, ys, l, hys, hl⟩

theorem trim_suffix (now : ℕ) (es : List Sample) : trim now es <:+ es := by
  fun_induction trim now es with
  | case1 s s' es _ ih => exact ih.trans (List.suffix_cons s (s' :: es))
  | case2 => exact List.suffix_rfl
  | case3 => exact List.suffix_rfl

theorem Fresh.trim {now : ℕ} {es : List Sample} (h : Fresh now es) (hn : now ≤ clockMax) :
    ∃ old rest, Eta.trim now es = old :: rest ∧ (now - old.at_ : ℤ) ≤ windowMs := by
  have hw : windowMs = 600000 := rfl
  fun_induction Eta.trim now es with
  | case1 s s' es _ ih =>
    obtain ⟨hs, hle, ys, l, hys, hl⟩ := h
    refine ih ⟨hs.suffix (List.suffix_cons _ _), fun x hx => hle x (List.mem_cons_of_mem _ hx), ?_⟩
    cases ys with
    | nil => simp at hys
    | cons y ys => exact ⟨ys, l, (List.cons.inj hys).2, hl⟩
  | case2 s s' es hin =>
    have hs := h.past s (by simp)
    rw [u64_sub hs hn] at hin
    exact ⟨s, s' :: es, rfl, by omega⟩
  | case3 es hne =>
    obtain ⟨hs, hle, ys, l, rfl, hl⟩ := h
    cases ys with
    | nil => exact ⟨l, [], rfl, by omega⟩
    | cons y ys =>
      cases ys with
      | nil => exact (hne y l [] rfl).elim
      | cons z ys => exact (hne y z (ys ++ [l]) rfl).elim

theorem Fresh.trimDiffs {now : ℕ} {es : List Sample} (h : Fresh now es) :
    ∀ z ∈ Eta.trimDiffs now es, 0 ≤ z ∧ z ≤ now := by
  have hle := h.past
  clear h
  fun_induction Eta.trimDiffs now es with
  | case1 s s' es ih =>
    have hs := hle s (by simp)
    intro z hz
    cases List.mem_cons.1 hz with
    | inl hz => omega
    | inr hz =>
      split_ifs at hz
      · exact ih (fun x hx => hle x (List.mem_cons_of_mem _ hx)) z hz
      · simp at hz
  | case2 => simp

/-- What can come to a step: the ages of the readings are any, the run time left is of 8 bits. -/
structure Readable (x : Beat) : Prop where
  turn : Plausible x.1
  rem : x.2 = thermoNone ∨ 0 ≤ x.2 ∧ x.2 ≤ 255
  refAge : (i64 x.1.2.ref.ageMs).fits
  backupAge : (i64 x.1.2.backup.ageMs).fits

theorem turn_status {x : Turn} {st st' : State} {o : Out} (h : turn x st = some (o, st')) :
    o.status = status x.1.cfg x.2 (view x.1.cfg x.2) st' := by
  obtain ⟨r, -, hr⟩ := Option.map_eq_some_iff.1 h
  obtain ⟨rfl, rfl⟩ := Prod.mk.inj hr
  rfl

theorem reading_of_heating {x : Turn} (hp : Plausible x) {st st' : State} {o : Out}
    (h : turn x st = some (o, st')) (hh : heating st'.mode o.status) : reading o.status.tRef := by
  have hs := turn_status h
  have ht : o.status.tRef ≠ thermoNone := by
    simp only [heating, decide_eq_true_eq] at hh
    exact hh.2.1
  rw [hs, status] at ht ⊢
  dsimp only at ht ⊢
  by_cases hv : valid x.1.cfg (sensor x.2 st'.active) = true
  · rw [if_pos hv] at ht ⊢
    cases ha : st'.active with
    | ref => rw [ha] at ht; exact hp.ref.resolve_left ht
    | backup => rw [ha] at ht; exact hp.backup.resolve_left ht
  · rw [if_neg hv] at ht
    exact absurd rfl ht

section Step

variable {inp : Input} {remMin : ℤ} {st : State} {out : Status} {e : Track}

theorem Series.kept (h : Series e.es) (active : Active) : Series (Eta.kept e active) := by
  unfold Eta.kept
  split_ifs
  · exact h
  · exact .nil

theorem u64_now (hn : 0 ≤ inp.nowMs ∧ inp.nowMs ≤ 9223372036854775) :
    (u64 inp.nowMs : ℤ) = inp.nowMs := u64_of_nonneg hn.1 (by omega)

theorem stampOf_le (st : State) (hn : 0 ≤ inp.nowMs ∧ inp.nowMs ≤ 9223372036854775)
    (h : Series e.es) : stampOf inp st e ≤ clockMax := by
  have hm : clockMax = 9223372036854775 := rfl
  have hu := u64_now hn
  refine stamp_le (h.kept _) ?_
  unfold readAt
  split_ifs with hage
  · rw [u64_sub hage.le (by omega)]
    omega
  · omega

theorem fresh_series (st : State) (hn : 0 ≤ inp.nowMs ∧ inp.nowMs ≤ 9223372036854775)
    (h : Series e.es) (ht : reading out.tRef) :
    Fresh (stampOf inp st e) (sampled (kept e st.active) (stampOf inp st e) out.tRef) :=
  sampled_fresh (h.kept _) (le_stamp (h.kept _) _) (stampOf_le st hn h) ht

theorem oldest (st : State) (hn : 0 ≤ inp.nowMs ∧ inp.nowMs ≤ 9223372036854775) (h : Series e.es)
    (ht : reading out.tRef) : ∃ old rest, seriesOf inp st out e = old :: rest ∧
      old.at_ ≤ stampOf inp st e ∧ (stampOf inp st e - old.at_ : ℤ) ≤ windowMs ∧ reading old.t ∧
      Series (old :: rest) := by
  have hf := fresh_series st hn h ht
  obtain ⟨old, rest, he, hw⟩ := hf.trim (stampOf_le st hn h)
  have hsuf := trim_suffix (stampOf inp st e)
    (sampled (kept e st.active) (stampOf inp st e) out.tRef)
  have hs : Series (old :: rest) := he ▸ hf.series.suffix hsuf
  refine ⟨old, rest, he, hf.past old (hsuf.subset (he ▸ List.mem_cons_self)), hw,
    hs.reads old List.mem_cons_self, hs⟩

theorem update_series (hn : 0 ≤ inp.nowMs ∧ inp.nowMs ≤ 9223372036854775) (h : Series e.es)
    (ht : heating st.mode out → reading out.tRef) :
    Series (update inp remMin st out e).es := by
  unfold update
  by_cases hh : heating st.mode out = true
  · obtain ⟨old, rest, he, -, -, -, hs⟩ := oldest st hn h (ht hh)
    rw [if_pos hh, he]
    exact hs
  · rw [if_neg hh]
    exact .nil

/-- The line of a step: from its oldest sample to its reading. -/
structure Line (inp : Input) (remMin : ℤ) (st : State) (out : Status) (e : Track) (old : Sample) :
    Prop where
  window : 0 ≤ (stampOf inp st e - old.at_ : ℤ) ∧ (stampOf inp st e - old.at_ : ℤ) ≤ windowMs
  seconds : (update inp remMin st out e).eta =
    (eta (stampOf inp st e - old.at_) (out.tRef - old.t) (inp.target - out.tRef)
      (runLeft inp remMin out)).1
  drawn : (update inp remMin st out e).eta ≠ thermoNone →
    Drawn (stampOf inp st e - old.at_) (out.tRef - old.t) (inp.target - out.tRef) ∧
      (update inp remMin st out e).eta ≤ 12 * (inp.target - out.tRef) ∧
      (out.tRef - old.t ≤ 10000 → 1 ≤ (update inp remMin st out e).eta)
  gap : (update inp remMin st out e).eta ≠ thermoNone → ∀ gap, inp.target - out.tRef ≤ gap →
    12 * gap ≤ 2147483647 → (update inp remMin st out e).eta ≤
      (eta (stampOf inp st e - old.at_) (out.tRef - old.t) gap (runLeft inp remMin out)).1
  rise : (update inp remMin st out e).eta ≠ thermoNone → ∀ rise, out.tRef - old.t ≤ rise →
    (eta (stampOf inp st e - old.at_) rise (inp.target - out.tRef)
      (runLeft inp remMin out)).1 ≤ (update inp remMin st out e).eta

theorem update_heating (remMin : ℤ) (hn : 0 ≤ inp.nowMs ∧ inp.nowMs ≤ 9223372036854775)
    (h : Series e.es) (hh : heating st.mode out) {old : Sample} {rest : List Sample}
    (he : seriesOf inp st out e = old :: rest) (hle : old.at_ ≤ stampOf inp st e) :
    (update inp remMin st out e).es = old :: rest ∧ (update inp remMin st out e).eta =
      (eta (stampOf inp st e - old.at_) (out.tRef - old.t) (inp.target - out.tRef)
        (runLeft inp remMin out)).1 := by
  have hspan := u64_span hle (stampOf_le st hn h)
  have hest : estimate inp remMin st out e old =
      eta (stampOf inp st e - old.at_) (out.tRef - old.t) (inp.target - out.tRef)
        (runLeft inp remMin out) := by
    rw [estimate, hspan]
  simp only [update, if_pos hh, he, hest, and_self]

theorem update_line (hn : 0 ≤ inp.nowMs ∧ inp.nowMs ≤ 9223372036854775) (h : Series e.es)
    (htarget : targetOk inp.target) (hh : heating st.mode out) (ht : reading out.tRef) :
    ∃ old rest, (update inp remMin st out e).es = old :: rest ∧
      Line inp remMin st out e old := by
  obtain ⟨old, rest, he, hle, hw, hold, -⟩ := oldest st hn h ht
  obtain ⟨hes, heta⟩ := update_heating remMin hn h hh he hle
  have hgap : 12 * (inp.target - out.tRef) ≤ 2147483647 := by
    simp only [targetOk, reading] at htarget ht
    omega
  refine ⟨old, rest, hes, ⟨by omega, hw⟩, heta, fun hne => ?_, fun hne gap hg hmax => ?_,
    fun hne rise hr => ?_⟩
  · rw [heta] at hne ⊢
    have hd := drawn_of_eta hne
    refine ⟨hd, ?_, fun hr => hd.pos hr hgap⟩
    rw [hd.eta_eq hgap]
    exact hd.bounds.2.2.2
  · rw [heta] at hne ⊢
    exact ((drawn_of_eta hne).gap_mono hg hmax).2
  · rw [heta] at hne ⊢
    exact ((drawn_of_eta hne).rise_anti hr hgap).2

theorem frameAge_bounds (hage : inp.heaterAgeMs = thermoNoneMs ∨
      0 ≤ inp.heaterAgeMs ∧ inp.heaterAgeMs ≤ 9223372036854775) :
    0 ≤ frameAge inp ∧ frameAge inp ≤ 9223372036854775 := by
  unfold frameAge
  by_cases hn : inp.heaterAgeMs = thermoNoneMs
  · rw [if_pos hn]
    omega
  · obtain ⟨h₀, h₁⟩ := hage.resolve_left hn
    rw [if_neg hn, Int.tdiv_eq_ediv_of_nonneg h₀]
    omega

theorem leftVals_fit (hrem : remMin = thermoNone ∨ 0 ≤ remMin ∧ remMin ≤ 255)
    (hage : inp.heaterAgeMs = thermoNoneMs ∨
      0 ≤ inp.heaterAgeMs ∧ inp.heaterAgeMs ≤ 9223372036854775) :
    AllFit (leftVals inp remMin out) := by
  obtain ⟨ha, ha'⟩ := frameAge_bounds hage
  unfold leftVals
  by_cases hr : out.night = false ∧ remMin ≠ thermoNone
  · obtain ⟨h₀, h₁⟩ := hrem.resolve_left hr.2
    rw [if_pos hr]
    simp only [allFit_append, allFit_cons, allFit_nil, fits_i64, and_true]
    refine ⟨⟨by omega, by omega, by omega⟩, ?_⟩
    split_ifs
    · exact allFit_nil
    · simp only [allFit_cons, allFit_nil, fits_i32, and_true]
      omega
  · rw [if_neg hr]
    exact allFit_nil

theorem etaVals_fit {spanMs rise gap : ℤ} (hs : 0 ≤ spanMs ∧ spanMs ≤ windowMs)
    (hr : -10000 ≤ rise ∧ rise ≤ 10000) (hg : -7000 ≤ gap ∧ gap ≤ 7000) :
    AllFit (etaVals spanMs rise gap) := by
  have hw : windowMs = 600000 := rfl
  have hmin : minRate = 5 := rfl
  unfold etaVals
  split_ifs with hno hslow
  · exact allFit_nil
  · simp only [allFit_append, allFit_cons, allFit_nil, fits_i64, and_true, hmin]
    omega
  · have hd : Drawn spanMs rise gap := ⟨by omega, by omega, by omega⟩
    obtain ⟨hb, ha, h₀, h₁⟩ := hd.bounds
    have hp : gap * spanMs ≤ 7000 * 600000 :=
      mul_le_mul hg.2 (by omega) hs.1 (by omega)
    have hdiv := @rdivVals_fit (gap * spanMs) (rise * 1000) (by omega) (by omega) hb
      (by omega)
    simp only [allFit_append, allFit_cons, allFit_nil, fits_i64, fits_i32, and_true, hmin]
    exact ⟨⟨by omega, by omega⟩, ⟨⟨by omega, by omega⟩, hdiv⟩, by omega⟩

theorem signedVals_fit (hn : 0 ≤ inp.nowMs ∧ inp.nowMs ≤ 9223372036854775) (h : Series e.es)
    (htarget : targetOk inp.target) (ht : heating st.mode out → reading out.tRef)
    (hrem : remMin = thermoNone ∨ 0 ≤ remMin ∧ remMin ≤ 255)
    (hage : inp.heaterAgeMs = thermoNoneMs ∨
      0 ≤ inp.heaterAgeMs ∧ inp.heaterAgeMs ≤ 9223372036854775) :
    AllFit (signedVals inp remMin st out e) := by
  have hw : windowMs = 600000 := rfl
  unfold signedVals
  by_cases hh : heating st.mode out = true
  · obtain ⟨old, rest, he, hle, hwin, hold, -⟩ := oldest st hn h (ht hh)
    have hr := ht hh
    have hspan := u64_span hle (stampOf_le st hn h)
    simp only [targetOk, reading] at htarget hr hold
    rw [if_pos hh, he]
    simp only [List.head?_cons, Option.map_some, Option.getD_some, lineVals, hspan, allFit_append,
      allFit_cons, allFit_nil, fits_i64, fits_i32, and_true]
    exact ⟨leftVals_fit hrem hage, ⟨by omega, by omega, by omega⟩,
      etaVals_fit ⟨by omega, hwin⟩ (by omega) (by omega)⟩
  · rw [if_neg hh]
    exact allFit_nil

theorem unsignedVals_fit (hn : 0 ≤ inp.nowMs ∧ inp.nowMs ≤ 9223372036854775) (h : Series e.es)
    (ht : heating st.mode out → reading out.tRef)
    (hage : (i64 (sensor inp st.active).ageMs).fits) :
    ∀ z ∈ unsignedVals inp st out e, (u64 z : ℤ) = z := by
  have hm : clockMax = 9223372036854775 := rfl
  suffices hz : ∀ z ∈ unsignedVals inp st out e, 0 ≤ z ∧ z ≤ 9223372036854775807 from
    fun z hz' => u64_of_nonneg (hz z hz').1 (by have := (hz z hz').2; omega)
  rw [fits_i64] at hage
  have hnow := u64_now hn
  unfold unsignedVals
  by_cases hh : heating st.mode out = true
  · have hst := stampOf_le st hn h
    have hf := fresh_series st hn h (ht hh)
    obtain ⟨old, rest, he, hle, -, -, -⟩ := oldest st hn h (ht hh)
    rw [if_pos hh, he]
    simp only [List.mem_append, List.mem_cons, List.head?_cons, Option.map_some,
      Option.toList_some, List.not_mem_nil, or_false]
    intro z hz
    rcases hz with (((hz | hz | hz) | hz) | hz) | hz
    · split_ifs at hz
      · rw [List.mem_singleton] at hz
        omega
      · simp at hz
    · omega
    · split_ifs at hz
      · rw [List.mem_singleton] at hz
        omega
      · simp at hz
    · cases hl : (kept e st.active).getLast? with
      | none => simp [hl] at hz
      | some l =>
        have hll : l.at_ ≤ stampOf inp st e :=
          le_stamp (h.kept _) _ l (List.mem_of_getLast? hl)
        simp only [hl, Option.map_some, Option.toList_some, List.mem_singleton] at hz
        omega
    · have := hf.trimDiffs z hz
      omega
    · omega
  · rw [if_neg hh]
    simp

end Step

/-- One step as it should be, from the buffer it found. -/
structure Sound (r : BeatRec) : Prop where
  buffer : Series r.post.2.es
  /-- No subtraction wraps: exact and machine's value are one. -/
  unsigned : ∀ z ∈ unsignedVals r.inp.1.2 r.post.1 r.out.status r.pre.2, (u64 z : ℤ) = z
  signed : AllFit (signedVals r.inp.1.2 r.inp.2 r.post.1 r.out.status r.pre.2)
  idle : heating r.post.1.mode r.out.status = false →
    r.post.2.es = [] ∧ r.post.2.eta = thermoNone
  heats : heating r.post.1.mode r.out.status = true → ∃ old rest, r.post.2.es = old :: rest ∧
    Line r.inp.1.2 r.inp.2 r.post.1 r.out.status r.pre.2 old

theorem beat_cases {x : Beat} {w w' : State × Track} {o : Out} (h : beat x w = some (o, w')) :
    turn x.1 w.1 = some (o, w'.1) ∧ w'.2 = update x.1.2 x.2 w'.1 o.status w.2 := by
  obtain ⟨r, hr, he⟩ := Option.map_eq_some_iff.1 h
  obtain ⟨rfl, rfl⟩ := Prod.mk.inj he
  exact ⟨hr, rfl⟩

theorem beat_sound {x : Beat} (hx : Readable x) {w w' : State × Track} {o : Out}
    (hw : Series w.2.es) (h : beat x w = some (o, w')) : Sound ⟨x, w, o, w'⟩ := by
  obtain ⟨hturn, he⟩ := beat_cases h
  have hn := hx.turn.now
  have ht : heating w'.1.mode o.status → reading o.status.tRef := reading_of_heating hx.turn hturn
  constructor
  · rw [he]
    exact update_series hn hw ht
  · refine unsignedVals_fit hn hw ht ?_
    cases w'.1.active with
    | ref => exact hx.refAge
    | backup => exact hx.backupAge
  · refine signedVals_fit hn hw hx.turn.target ht hx.rem (hx.turn.age.imp id fun ha => ?_)
    exact ⟨ha.1, ha.2.trans hn.2⟩
  · intro hh
    have hh' : ¬ heating w'.1.mode o.status = true := by simpa using hh
    dsimp only
    rw [he, update, if_neg hh']
    exact ⟨rfl, rfl⟩
  · intro hh
    dsimp only
    rw [he]
    exact update_line hn hw hx.turn.target hh (ht hh)

theorem run_sound {tr : List BeatRec} {w : State × Track} (hr : Run beat start tr w)
    (hx : ∀ r ∈ tr, Readable r.inp) : Series w.2.es ∧ ∀ r ∈ tr, Sound r := by
  induction hr with
  | nil => exact ⟨.nil, by simp⟩
  | cons _ hs ih =>
    simp only [List.mem_cons, forall_eq_or_imp] at hx ⊢
    obtain ⟨hw, ih⟩ := ih hx.2
    have h := beat_sound hx.1 hw hs
    exact ⟨h.buffer, h, ih⟩

def heats (r : BeatRec) : Prop := heating r.post.1.mode r.out.status = true

/-- The thermometer that a step reads: the role, and the alias that has it. -/
def thermometer (r : BeatRec) : Active × String :=
  (r.post.1.active, (sensor r.inp.1.2 r.post.1.active).alias_)

/-- The sample is of a step since which every step heats, by that step's thermometer. -/
def Taken (tr : List BeatRec) (s : Sample) : Prop :=
  ∃ newer r older, tr = newer ++ r :: older ∧ s.t = r.out.status.tRef ∧
    ∀ q ∈ newer ++ [r], heats q ∧ thermometer q = thermometer r

/-- While a role heats it keeps its alias from step to step. -/
def SameAlias (tr : List BeatRec) : Prop :=
  tr.IsChain fun q p => heats q → heats p → q.post.1.active = p.post.1.active →
    thermometer q = thermometer p

theorem mem_sampled {es : List Sample} {now : ℕ} {t : ℤ} {s : Sample}
    (h : s ∈ sampled es now t) : s ∈ es ∨ s.t = t := by
  unfold sampled at h
  cases hl : es.getLast? with
  | none =>
    simp only [hl, List.mem_singleton] at h
    exact .inr (h ▸ rfl)
  | some l =>
    simp only [hl] at h
    by_cases hold : u64 (now - l.at_) ≥ 60000
    · rw [if_pos hold] at h
      cases List.mem_append.1 h with
      | inl h =>
        split_ifs at h
        · exact .inl (List.mem_of_mem_tail h)
        · exact .inl h
      | inr h => exact .inr (List.mem_singleton.1 h ▸ rfl)
    · rw [if_neg hold] at h
      exact .inl h

/-- A sample after a step is one of the thermometer in use, or the step's own reading. -/
theorem mem_update {inp : Input} {remMin : ℤ} {st : State} {out : Status} {e : Track} {s : Sample}
    (h : s ∈ (update inp remMin st out e).es) : heating st.mode out = true ∧
      (update inp remMin st out e).src = some st.active ∧
      (e.src = some st.active ∧ s ∈ e.es ∨ s.t = out.tRef) := by
  by_cases hh : heating st.mode out = true
  · have hsub : (update inp remMin st out e).es = seriesOf inp st out e ∧
        (update inp remMin st out e).src = some st.active := by
      rw [update, if_pos hh]
      split
      · next hs => exact ⟨hs.symm, rfl⟩
      · next hs => exact ⟨hs.symm, rfl⟩
    rw [hsub.1] at h
    refine ⟨hh, hsub.2, ?_⟩
    cases mem_sampled ((trim_suffix _ _).subset h) with
    | inl hk =>
      unfold kept at hk
      split_ifs at hk with hsrc
      · exact .inl ⟨hsrc, hk⟩
      · simp at hk
    | inr ht => exact .inr ht
  · rw [update, if_neg hh] at h
    simp at h

theorem Taken.cons {tr : List BeatRec} {q p : BeatRec} {s : Sample} (h : Taken (p :: tr) s)
    (hq : heats q) (ht : thermometer q = thermometer p) : Taken (q :: p :: tr) s := by
  obtain ⟨newer, r, older, he, hs, hall⟩ := h
  have hp : p ∈ newer ++ [r] := by
    cases newer with
    | nil => simp [(List.cons.inj he).1]
    | cons n newer => simp [(List.cons.inj he).1]
  refine ⟨q :: newer, r, older, by rw [he]; rfl, hs, fun x hx => ?_⟩
  cases List.mem_cons.1 hx with
  | inl hx => exact hx ▸ ⟨hq, ht.trans (hall p hp).2⟩
  | inr hx => exact hall x hx

/-- Where the roles in use keep their aliases the samples are of one thermometer. -/
theorem run_taken {tr : List BeatRec} {w : State × Track} (hr : Run beat start tr w)
    (hsame : SameAlias tr) : ∀ s ∈ w.2.es, Taken tr s ∧
      ∃ r older, tr = r :: older ∧ heats r ∧ w.2.src = some r.post.1.active := by
  induction hr with
  | nil => simp [start]
  | @cons tr w w' x o hr hs ih =>
    obtain ⟨-, he⟩ := beat_cases hs
    intro s hm
    rw [he] at hm
    obtain ⟨hh, hsrc, hm⟩ := mem_update hm
    have hq : heats ⟨x, w, o, w'⟩ := hh
    refine ⟨?_, _, tr, rfl, hq, by rw [he]; exact hsrc⟩
    cases hm with
    | inl hm =>
      obtain ⟨ht, p, older, rfl, hp, hps⟩ := ih hsame.tail s hm.2
      have hact : w'.1.active = p.post.1.active := Option.some.inj (hm.1.symm.trans hps)
      have hsame' := (List.isChain_cons_cons.1 hsame).1 hq hp hact
      exact ht.cons hq hsame'
    | inr ht =>
      refine ⟨[], _, tr, rfl, ht, fun x' hx' => ?_⟩
      rw [List.nil_append, List.mem_singleton] at hx'
      rw [hx']
      exact ⟨hq, rfl⟩

/-- The buffer and the estimate are right in every run; where a role that heats keeps its alias the
samples are those of one thermometer. -/
theorem run_estimate (tr : List BeatRec) (w : State × Track) (hr : Run beat start tr w)
    (hx : ∀ r ∈ tr, Readable r.inp) :
    (∀ r ∈ tr, Sound r) ∧ (SameAlias tr → ∀ s ∈ w.2.es, Taken tr s) :=
  ⟨(run_sound hr hx).2, fun hsame s hs => (run_taken hr hsame s hs).1⟩

def beats (is : List Input) : List Beat := is.map fun i => ((.default, i), 60)

theorem readable_beats {is : List Input} (h : ∀ i ∈ is, targetOk i.target ∧ reading i.ref.value ∧
      i.backup.value = thermoNone ∧ i.out.value = thermoNone ∧
      (0 ≤ i.nowMs ∧ i.nowMs ≤ 9223372036854775) ∧ (0 ≤ i.heaterAgeMs ∧ i.heaterAgeMs ≤ i.nowMs) ∧
      (i64 i.ref.ageMs).fits ∧ (i64 i.backup.ageMs).fits) :
    ∀ x ∈ beats is, Readable x := by
  intro x hx
  obtain ⟨i, hi, rfl⟩ := List.mem_map.1 hx
  obtain ⟨ht, hr, hb, ho, hn, ha, href, hback⟩ := h i hi
  have hc : Settings.RunCfg.default.valid := by decide
  have hrem : (0 : ℤ) ≤ 60 ∧ (60 : ℤ) ≤ 255 := by decide
  exact ⟨⟨hc, ht, .inr hr, .inl hb, .inl ho, hn, .inr ha⟩, .inr hrem, href, hback⟩

theorem run_estimate_cozy : ∃ tr w, Run beat start tr w ∧
    tr.map Record.inp = beats cozyRun ∧ w.2.es.length = 2 ∧
      (∀ r ∈ tr, Sound r) ∧ (SameAlias tr → ∀ s ∈ w.2.es, Taken tr s) := by
  obtain ⟨hr, hi⟩ := run_of_exec beat start (beats cozyRun) rfl
  refine ⟨_, _, hr, hi, rfl, run_estimate _ _ hr fun r hr' => ?_⟩
  exact readable_beats (by decide) _ (hi ▸ List.mem_map_of_mem hr')

/-- A minute later the reference is another thermometer. -/
def otherInput : Input := { heatingInput with nowMs := 70000, ref := ⟨true, "bed", 1400, 0⟩ }

def otherRun : List Input := [otherInput, heatingInput, coldInput]

theorem Taken.mem {tr : List BeatRec} {s : Sample} (h : Taken tr s) : ∃ r ∈ tr,
    s.t = r.out.status.tRef ∧ ∀ q ∈ tr.head?, thermometer q = thermometer r := by
  obtain ⟨newer, r, older, rfl, hs, hall⟩ := h
  refine ⟨r, by simp, hs, fun q hq => (hall q ?_).2⟩
  cases newer with
  | nil => simpa using hq.symm
  | cons n newer => simp [Option.some.inj hq]

/-- Two thermometers of one role in one buffer. -/
theorem two_thermometers : ∃ tr w, Run beat start tr w ∧ tr.map Record.inp = beats otherRun ∧
    (∀ r ∈ tr, Readable r.inp) ∧ ¬ ∀ s ∈ w.2.es, Taken tr s := by
  obtain ⟨hr, hi⟩ := run_of_exec beat start (beats otherRun) rfl
  refine ⟨_, _, hr, hi, fun r hr' => ?_, fun h => ?_⟩
  · exact readable_beats (by decide) _ (hi ▸ List.mem_map_of_mem hr')
  · obtain ⟨r, hm, hs, hq⟩ := (h ⟨10000, 1500⟩ (by decide)).mem
    revert hs hq
    revert r
    decide

end OpenCalifornia.Thermostat.Firmware.Eta
