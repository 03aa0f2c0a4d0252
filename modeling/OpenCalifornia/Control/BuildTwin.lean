import OpenCalifornia.Control.CodecTwin
import OpenCalifornia.Control.Wake

/-! # The builders agree

On a value without separators and shorter than the buffer each builder of the planner plans the
frames that the Python builder returns, or neither does. -/

namespace OpenCalifornia.Control.Firmware
open Lib Lib.Bits Lib.Text

theorem length_set {β : Type} (d : Dict β) (k : String) (v : β) :
    (d.set k v).length ≤ d.length + 1 := by
  induction d with
  | nil => exact le_refl _
  | cons kv d ih =>
    unfold Dict.set
    split_ifs
    · exact Nat.le_succ _
    · exact Nat.succ_le_succ ih

theorem puts_append (v : Vals) (es es' : Dict ℕ) :
    v.puts (es ++ es') = (v.puts es).puts es' := List.foldl_append

theorem puts_eq {es : Dict ℕ} {kv : Dict ℕ} (h : kv.length + es.length ≤ kvMax) :
    Vals.puts ⟨kv, false⟩ es = ⟨kv.update es, false⟩ := by
  induction es generalizing kv with
  | nil => rfl
  | cons e es ih =>
    rw [List.length_cons] at h
    have hput : Vals.put ⟨kv, false⟩ e.1 e.2 = ⟨kv.set e.1 e.2, false⟩ := by
      have hfull : ¬ ((kv.get e.1).isNone ∧ kv.length = kvMax) := fun hc => by omega
      exact if_neg hfull
    have hlen := length_set kv e.1 e.2
    show Vals.puts (Vals.put ⟨kv, false⟩ e.1 e.2) es = _
    rw [hput, ih (by omega)]
    rfl

/-- Both sides give every control field of the function the same value. -/
def Same (func : Function) (kv : Dict ℕ) (values : Dict ℤ) : Prop :=
  ∀ p ∈ func.controlFields, given values p = given (ints kv) p

variable {func : Function} {kv : Dict ℕ} {values : Dict ℤ}

theorem get_ints (d : Dict ℕ) (k : String) : (ints d).get k = (d.get k).map (↑) :=
  Dict.get_map _ d k

theorem Same.set (h : Same func kv values) (k : String) (v : ℕ) :
    Same func (kv.set k v) (values.set k (v : ℤ)) := by
  intro p hp
  have hp := h p hp
  unfold given at hp ⊢
  rw [get_ints] at hp ⊢
  rw [Dict.get_set, Dict.get_set]
  by_cases hk : k = p.name
  · rw [if_pos hk, if_pos hk]
    rfl
  · rw [if_neg hk, if_neg hk]
    exact hp

theorem Same.update (h : Same func kv values) (es : Dict ℕ) :
    Same func (kv.update es) (values.update (ints es)) := by
  induction es generalizing kv values with
  | nil => exact h
  | cons e es ih => exact ih (h.set e.1 e.2)

theorem Same.ints {es : Dict ℕ} (h : (es.map Prod.fst).Nodup) :
    Same func (Dict.update [] es) (ints es) := by
  intro p _
  unfold given
  rw [get_ints, get_ints, Dict.get_update h, Dict.get_nil, Option.or_none]

/-- The two encoders on the same values. Only a field of 32 bits could hold a value too large. -/
theorem codecEncode_same {f : CodecFunc} (hs : SameTable f func) (hne : f.ctrlFields ≠ []) {n : ℕ}
    (hn : 0 < n ∧ n ≤ frameMax) (h : Same func kv values)
    (h32 : ∀ c ∈ f.ctrlFields, c.width = 32 → ∀ v, c.value kv = some v → v < 2 ^ 32) :
    (codecEncode f kv n).toOption = (encode func values n).toOption := by
  apply codecEncode_eq hne hn
  · rw [hs.control, CodecFunc.fields, List.forall₂_map_right_iff, List.forall₂_same]
    intro c hc
    have hp : c.field ∈ f.fields := List.mem_map_of_mem hc
    refine ⟨sameField_field (hs.width c.field hp).2, ?_, h32 c hc⟩
    have hgiven := h c.field (hs.control ▸ hp)
    exact hgiven.trans (given_field (fun k => get_ints kv k) c)
  · rw [hs.control]
    exact hs.apart

/-- One of the five functions, with its row of the generated table. -/
structure Ctl (fn : String) (func : Function) (c : CtlChar) : Prop where
  char : ctlChar fn = some c
  name : func.name = fn
  mem : func ∈ funcs
  size : controlFrameBytes.get fn = some c.frameBytes
  place : func.controlChar = some c.controlShort
  fields : func.controlFields ≠ []
  bytes : 0 < c.frameBytes ∧ c.frameBytes ≤ frameMax

/-- The frame of a builder, if it returns one. -/
def got (m : Py (Option (List Byte))) : Option (List Byte) := m.toOption.bind id

theorem got_encodeFor (func : Function) (values : Dict ℤ) {n : ℕ}
    (hn : controlFrameBytes.get func.name = some n) :
    got (encodeFor func values) = (encode func values n).toOption := by
  unfold encodeFor got
  rw [hn, Option.getD_some]
  cases encode func values n <;> rfl

theorem got_bind {α : Type} (m : Py α) (k : α → Py (Option (List Byte))) :
    got (m >>= k) = m.toOption.bind fun a => got (k a) := by
  cases m <;> rfl

variable {fn : String} {c : CtlChar}

theorem add_eq (h : Ctl fn func c) {p : List Write} (hp : p.length ≠ maxFrames)
    (hs : Same func kv values) (h32 : ∀ f, codecFuncByName fn = some f → ∀ c ∈ f.ctrlFields,
      c.width = 32 → ∀ v, c.value kv = some v → v < 2 ^ 32) (delay : ℕ) :
    (add p fn ⟨kv, false⟩ delay).toOption = (got (encodeFor func values)).map fun data =>
      p ++ [⟨c.controlShort, delay, data⟩] := by
  obtain ⟨f, hf, hsame⟩ := tables_twin h.mem
  rw [h.name] at hf
  have hne : f.ctrlFields ≠ [] := by
    intro hnil
    have hfields := h.fields
    rw [hsame.control, CodecFunc.fields, hnil] at hfields
    exact hfields rfl
  have hn : ¬ (p.length = maxFrames ∨ (false : Bool) = true) := fun hc => hc.elim hp (by rintro ⟨⟩)
  have hencode := codecEncode_same hsame hne h.bytes hs (h32 f hf)
  rw [got_encodeFor func values (h.name.symm ▸ h.size), ← hencode]
  unfold add
  rw [h.char, hf]
  dsimp only
  rw [if_neg hn]
  cases codecEncode f kv c.frameBytes <;> rfl

theorem add_puts (h : Ctl fn func c) (hs : Same func kv values)
    (h32 : ∀ p ∈ func.controlFields, p.width ≠ 32) (es : Dict ℕ)
    (hl : kv.length + es.length ≤ kvMax) :
    (add [] fn (Vals.puts ⟨kv, false⟩ es) 0).toOption =
      (got (encodeFor func (values.update (ints es)))).map fun data =>
        [⟨c.controlShort, 0, data⟩] := by
  rw [puts_eq hl]
  refine add_eq h (by decide) (hs.update es) (fun f hf c hc hw => ?_) 0
  obtain ⟨f', hf', hsame⟩ := tables_twin h.mem
  rw [h.name, hf] at hf'
  obtain rfl := Option.some.inj hf'
  have hp : c.field ∈ func.controlFields := hsame.control ▸ List.mem_map_of_mem hc
  exact absurd hw (h32 _ hp)

theorem orBad_bind {α β : Type} (v : Option α) (k : α → Except Rc β) :
    (orBad v >>= k).toOption = v.bind fun a => (k a).toOption := by
  cases v <;> rfl

theorem orNone_bind {α β : Type} (v : Option α) (k : α → Except Rc β) :
    (orNone v >>= k).toOption = v.bind fun a => (k a).toOption := by
  cases v <;> rfl

theorem ints_one {k : String} {a : ℤ} (ha : 0 ≤ a) : ints [(k, a.toNat)] = [(k, a)] :=
  congrArg (fun x => [(k, x)]) (Int.toNat_of_nonneg ha)

theorem ctl_campingmode : Ctl "campingmode" campingmode ⟨"campingmode", 0x1201, 1⟩ := by
  constructor <;> decide

def campingBase : Dict ℕ :=
  [("State", caliSentinel), ("UsbCharger", caliSentinel), ("InteriorLight", caliSentinel),
    ("OutsideLight", caliSentinel)]

theorem camping_puts {es : Dict ℕ} (hl : es.length ≤ 2) :
    (add [] "campingmode" (campingVals.puts es) 0).toOption =
      (got (encodeFor campingmode (campingValues (ints es)))).map fun data =>
        [⟨some 0x1201, 0, data⟩] := by
  have hbase : Same campingmode (Dict.update [] campingBase) (ints campingBase) :=
    .ints (by decide)
  have hlen : (Dict.update [] campingBase).length = 4 := by decide
  have hmax : kvMax = 64 := rfl
  have hvals : campingVals = ⟨Dict.update [] campingBase, false⟩ := puts_eq (by decide)
  rw [hvals]
  exact add_puts ctl_campingmode hbase (by decide) es (by omega)

theorem bCamping_eq {what : String} {value : Text} (hc : Clean value) (hl : value.length < valueMax)
    (last : Dict ℕ) : (bCamping what value).toOption =
      (got (buildCamping what value last)).map fun data => [⟨some 0x1201, 0, data⟩] := by
  unfold bCamping buildCamping
  rw [orBad_bind, got_bind, onoff_eq hc hl]
  cases (truthy value).toOption with
  | none => rfl
  | some on =>
    simp only [Option.bind_some]
    by_cases h₁ : what = "lights"
    · rw [if_pos h₁, if_pos h₁, camping_puts (by simp)]
      cases on <;> rfl
    rw [if_neg h₁, if_neg h₁]
    by_cases h₂ : what = "usb"
    · rw [if_pos h₂, if_pos h₂, camping_puts (by simp)]
      cases on <;> rfl
    rw [if_neg h₂, if_neg h₂]
    by_cases h₃ : what = "master"
    · rw [if_pos h₃, if_pos h₃, camping_puts (by simp)]
      cases on <;> rfl
    rw [if_neg h₃, if_neg h₃]
    rfl

theorem ctl_energy : Ctl "energy" energy ⟨"energy", 0x1601, 1⟩ := by
  constructor <;> decide

theorem bEnergy_eq {what : String} {value : Text} (hc : Clean value) (hl : value.length < valueMax)
    (last : Dict ℕ) : (bEnergy what value).toOption =
      (got (buildEnergy what value last)).map fun data => [⟨some 0x1601, 0, data⟩] := by
  unfold bEnergy buildEnergy
  by_cases hw : what ≠ "mode"
  · rw [if_pos hw, if_pos hw]
    rfl
  rw [if_neg hw, if_neg hw, orNone_bind, norm_eq_key hc hl, energyModes_lookup]
  cases caliEnergyModes.lookup (key value) with
  | none => rfl
  | some m =>
    have hsame : Same energy [] [] := fun _ _ => rfl
    have hadd := add_puts ctl_energy hsame (by decide) [("EnergyModeSet", m), ("DisplayRefresh", 0)]
      (Nat.le_of_ble_eq_true rfl)
    exact hadd

theorem ctl_cooler : Ctl "cooler" cooler ⟨"cooler", 0x1101, 6⟩ := by
  constructor <;> decide

theorem same_coolerNeutral : Same cooler [] coolerNeutral := by
  have hneutral : ∀ p ∈ cooler.controlFields, coolerNeutral.get p.name = p.default := by
    decide
  intro p hp
  unfold given
  rw [hneutral p hp]
  cases p.default <;> rfl

theorem cooler_puts {es : Dict ℕ} (hl : es.length ≤ 2) :
    (addCooler (reset.puts es)).toOption =
      (got (encodeCooler (ints es))).map fun data => [⟨some 0x1101, 0, data⟩] := by
  have hmax : kvMax = 64 := rfl
  refine add_puts ctl_cooler same_coolerNeutral (by decide) es ?_
  rw [List.length_nil]
  omega

theorem length_update {β : Type} (d e : Dict β) : (d.update e).length ≤ d.length + e.length := by
  induction e generalizing d with
  | nil => exact le_refl _
  | cons kv e ih =>
    have hset := length_set d kv.1 kv.2
    have hrest := ih (d.set kv.1 kv.2)
    rw [List.length_cons]
    exact hrest.trans (by omega)

/-- The current state and schedule, as the night commands write them again. -/
def nightBase (st : String → ℕ → ℕ) : Dict ℕ :=
  [("State", st "State" 1), ("Mode", st "Mode" 4), ("Level", st "Level" 3),
    ("TimerStart", caliSentinel), ("TimerCancel", caliSentinel),
    ("NightTimerSet", st "NightTimerSet" 0), ("NightTimerHourOn", st "NightTimerHourOn" 0),
    ("NightTimerHourOff", st "NightTimerHourOff" 0), ("TimerHour", st "TimerHourSet" 0),
    ("TimerMin", st "TimerMinSet" 0)]

theorem nodup_nightBase (st : String → ℕ → ℕ) : ((nightBase st).map Prod.fst).Nodup := by
  have hkeys : (nightBase st).map Prod.fst = ["State", "Mode", "Level", "TimerStart",
    "TimerCancel", "NightTimerSet", "NightTimerHourOn", "NightTimerHourOff", "TimerHour",
    "TimerMin"] := rfl
  rw [hkeys]
  decide

theorem coolerNightValues_eq (get : Get) (what : String) (a : ℤ) :
    coolerNightValues get what a =
      (reset.puts (nightBase (get.st "cooler"))).puts [(coolerNight what, a.toNat)] := by
  rw [← puts_append]
  unfold coolerNightValues
  exact congrArg (Vals.puts reset) rfl

theorem coolerValues_eq (last : Dict ℕ) (changes : Dict ℤ) : coolerValues last changes =
    Dict.update (ints (nightBase fun k d => (last.get k).getD d)) changes := rfl

theorem night_puts {get : Get} {last : Dict ℕ} (hget : ∀ k, get "cooler" k = last.get k)
    {a : ℤ} (ha : 0 ≤ a) (what : String) :
    (addCooler (coolerNightValues get what a)).toOption =
      (got (encodeFor cooler (coolerValues last [(coolerNight what, a)]))).map fun data =>
        [⟨some 0x1101, 0, data⟩] := by
  set base := nightBase fun k d => (last.get k).getD d with hdef
  have hst : get.st "cooler" = fun k d => (last.get k).getD d := by
    funext k d
    exact congrArg (Option.getD · d) (hget k)
  have hlen : base.length = 10 := rfl
  have hmax : kvMax = 64 := rfl
  have hupdate := length_update [] base
  rw [List.length_nil] at hupdate
  have hsame : Same cooler (Dict.update [] base) (ints base) := .ints (nodup_nightBase _)
  have hvals : coolerNightValues get what a =
      Vals.puts ⟨Dict.update [] base, false⟩ [(coolerNight what, a.toNat)] := by
    have hreset : reset.puts base = ⟨Dict.update [] base, false⟩ :=
      puts_eq (by rw [List.length_nil]; omega)
    rw [coolerNightValues_eq, hst, ← hdef, hreset]
  have hadd := add_puts ctl_cooler hsame (by decide) [(coolerNight what, a.toNat)]
    (by rw [List.length_singleton]; omega)
  rw [hvals, coolerValues_eq, ← hdef, ← ints_one ha]
  exact hadd

theorem bCooler_eq {what : String} {value : Text} (hc : Clean value) (hl : value.length < valueMax)
    {get : Get} {last : Dict ℕ} (hget : ∀ k, get "cooler" k = last.get k)
    (hstate : last.get "State" = none ↔ last = []) : (bCooler what value get).toOption =
      (got (buildCooler what value last)).map fun data => [⟨some 0x1101, 0, data⟩] := by
  unfold bCooler buildCooler
  by_cases h₁ : what = "power"
  · rw [if_pos h₁, if_pos h₁, orBad_bind, got_bind, onoff_eq hc hl]
    cases (truthy value).toOption with
    | none => rfl
    | some on =>
      simp only [Option.bind_some]
      rw [cooler_puts (by simp)]
      cases on <;> rfl
  rw [if_neg h₁, if_neg h₁]
  by_cases h₂ : what = "level"
  · rw [if_pos h₂, if_pos h₂, orBad_bind, got_bind,
      intRange_eq "cooler level" hl (by decide) (by decide)]
    cases hr : intRange value 1 5 with
    | none => rfl
    | some a =>
      have ha : 0 ≤ a := (intRange_bounds hr).1.trans' (by decide)
      simp only [Option.bind_some]
      rw [cooler_puts (by simp), ints_one ha]
  rw [if_neg h₂, if_neg h₂]
  by_cases h₃ : what = "mode"
  · rw [if_pos h₃, if_pos h₃, orNone_bind, norm_eq_key hc hl, coolerModes_lookup]
    cases caliCoolerModes.lookup (key value) with
    | none => rfl
    | some m => exact cooler_puts (Nat.le_of_ble_eq_true rfl)
  rw [if_neg h₃, if_neg h₃]
  by_cases h₄ : what = "timer_set"
  · rw [if_pos h₄, if_pos h₄, orBad_bind, got_bind, hhmm_eq hc hl]
    cases (Control.hhmm value).toOption with
    | none => rfl
    | some hm => exact cooler_puts (Nat.le_of_ble_eq_true rfl)
  rw [if_neg h₄, if_neg h₄]
  by_cases h₅ : what = "timer_start"
  · rw [if_pos h₅, if_pos h₅]
    exact cooler_puts (Nat.le_of_ble_eq_true rfl)
  rw [if_neg h₅, if_neg h₅]
  by_cases h₆ : what = "timer_cancel"
  · rw [if_pos h₆, if_pos h₆]
    exact cooler_puts (Nat.le_of_ble_eq_true rfl)
  rw [if_neg h₆, if_neg h₆]
  by_cases h₇ : what = "night_on" ∨ what = "night_off"
  · rw [if_pos h₇, if_pos h₇, orBad_bind, got_bind,
      intRange_eq "night timer hour" hl (by decide) (by decide)]
    cases hr : intRange value 0 23 with
    | none => rfl
    | some a =>
      simp only [Option.bind_some]
      rw [orBad_bind, hget "State"]
      by_cases hnil : last = []
      · rw [if_pos hnil, hstate.mpr hnil]
        rfl
      · rw [if_neg hnil]
        cases hs : last.get "State" with
        | none => exact absurd (hstate.mp hs) hnil
        | some x =>
          rw [Option.bind_some]
          exact night_puts hget (intRange_bounds hr).1 what
  rw [if_neg h₇, if_neg h₇]
  rfl

theorem ctl_airheater : Ctl "airheater" airheater ⟨"airheater", 0x1701, 6⟩ := by
  constructor <;> decide

def airheaterBase : Dict ℕ :=
  [("NormalOperationRequest", caliSentinel), ("PermanentOperationRequest", caliSentinel),
    ("PermanentOperationConfirmation", caliSentinel), ("AirDistribution", 0),
    ("OperationModeAirHeater", 7), ("HeatingLevel", 11), ("OperationModeCombined", 0),
    ("RunningTime", 127), ("TimerHour", 31), ("TimerMin", 63)]

theorem airheater_puts {es : Dict ℕ} (hl : es.length ≤ 2) :
    (addAirheater es).toOption =
      (got (encodeFor airheater (airheaterValues (ints es)))).map fun data =>
        [⟨some 0x1701, 0, data⟩] := by
  have hbase : Same airheater (Dict.update [] airheaterBase) (ints airheaterBase) :=
    .ints (by decide)
  have hlen : (Dict.update [] airheaterBase).length = 10 := by decide
  have hmax : kvMax = 64 := rfl
  have hvals : airheaterVals = ⟨Dict.update [] airheaterBase, false⟩ := puts_eq (by decide)
  unfold addAirheater
  rw [hvals]
  exact add_puts ctl_airheater hbase (by decide) es (by omega)

theorem bAirheater_eq {what : String} {value : Text} (hc : Clean value)
    (hl : value.length < valueMax) (last : Dict ℕ) : (bAirheater what value).toOption =
      (got (buildAirheater what value last)).map fun data => [⟨some 0x1701, 0, data⟩] := by
  have hlevel : ∀ (k label : String) (lo hi : ℤ), 0 ≤ lo → longMin < lo → hi < longMax →
      (orBad (intRange value lo hi) >>= fun a => addAirheater [(k, a.toNat)]).toOption =
        (got (Control.intRange value lo hi label >>= fun a =>
          encodeFor airheater (airheaterValues [(k, a)]))).map fun data =>
            [⟨some 0x1701, 0, data⟩] := by
    intro k label lo hi hlo hmin hmax
    rw [orBad_bind, got_bind, intRange_eq label hl hmin hmax]
    cases hr : intRange value lo hi with
    | none => rfl
    | some a =>
      rw [Option.bind_some, Option.bind_some, airheater_puts (by simp),
        ints_one (hlo.trans (intRange_bounds hr).1)]
  unfold bAirheater buildAirheater
  by_cases h₁ : what = "power"
  · rw [if_pos h₁, if_pos h₁, orBad_bind, got_bind, onoff_eq hc hl]
    cases (truthy value).toOption with
    | none => rfl
    | some on =>
      simp only [Option.bind_some]
      rw [airheater_puts (by simp)]
      cases on <;> rfl
  rw [if_neg h₁, if_neg h₁]
  by_cases h₂ : what = "level"
  · rw [if_pos h₂, if_pos h₂]
    exact hlevel _ _ 1 10 (by decide) (by decide) (by decide)
  rw [if_neg h₂, if_neg h₂]
  by_cases h₃ : what = "runtime"
  · rw [if_pos h₃, if_pos h₃]
    exact hlevel _ _ 10 120 (by decide) (by decide) (by decide)
  rw [if_neg h₃, if_neg h₃]
  by_cases h₄ : what = "timer"
  · rw [if_pos h₄, if_pos h₄, orBad_bind, got_bind, hhmm_eq hc hl]
    cases (Control.hhmm value).toOption with
    | none => rfl
    | some hm => exact airheater_puts (Nat.le_of_ble_eq_true rfl)
  rw [if_neg h₄, if_neg h₄]
  by_cases h₅ : what = "timer_start"
  · rw [if_pos h₅, if_pos h₅]
    exact airheater_puts (Nat.le_of_ble_eq_true rfl)
  rw [if_neg h₅, if_neg h₅]
  by_cases h₆ : what = "timer_cancel"
  · rw [if_pos h₆, if_pos h₆]
    exact airheater_puts (Nat.le_of_ble_eq_true rfl)
  rw [if_neg h₆, if_neg h₆]
  by_cases h₇ : what = "permanent"
  · rw [if_pos h₇, if_pos h₇, norm_eq_key hc hl]
    by_cases hoff : key value ∈ offWords
    · have hoff' : ¬ key value ∉ offTokens := not_not_intro hoff
      rw [if_neg hoff', if_neg (not_not_intro hoff)]
      exact airheater_puts (Nat.le_of_ble_eq_true rfl)
    · have hoff' : key value ∉ offTokens := hoff
      rw [if_pos hoff', if_pos hoff]
      rfl
  rw [if_neg h₇, if_neg h₇]
  rfl

end OpenCalifornia.Control.Firmware
