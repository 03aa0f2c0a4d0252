import OpenCalifornia.Control.Agreement

/-! # What a built frame carries

Which fields a command names, and what the other fields of its frame are. -/

namespace OpenCalifornia.Control
open Lib Lib.Bits Lib.Text Firmware

variable {func : Function} {values : Dict ℤ} {raw : List Byte} {f : Field}

theorem ok_of_bind {α β : Type} {m : Py α} {k : α → Py β} {b : β} (h : m >>= k = .ok b) :
    ∃ a, m = .ok a ∧ k a = .ok b := by
  cases m with
  | error e => cases h
  | ok a => exact ⟨a, rfl, h⟩

/-- Every control field of a built frame holds what it was given, and reads back as that. -/
theorem built_bits (hfunc : func ∈ funcs) (h : encodeFor func values = .ok (some raw))
    (hf : f ∈ func.controlFields) : ∃ v, given values f = some v ∧ 0 ≤ v ∧
      f.offset + f.width ≤ (toBits raw).length ∧
      getField (toBits raw) f.offset f.width = v.toNat ∧
      (decodeControl func.table raw).get f.name = some v.toNat := by
  have hsized : ∀ func ∈ funcs, func.controlFields ≠ [] →
      (controlFrameBytes.get func.name).getD 0 ≠ 0 := by decide
  have hnamed : ∀ func ∈ funcs, (func.controlFields.map (·.name)).Nodup := by decide
  have hplaced : placed func.table = func.controlFields := placed_entries _
  rw [encodeFor, encode_eq_encodeTable _ _ (hsized func hfunc (List.ne_nil_of_mem hf))] at h
  obtain ⟨frame, henc, h⟩ := ok_of_bind h
  cases h
  have hap : (placed func.table).Pairwise Apart := hplaced ▸ (funcs_layout func hfunc).apart
  have hgiven : ∀ g ∈ placed func.table, (given values g).isSome := fun g hg => by
    obtain ⟨v, hv, -⟩ := encoded_field henc hap hg
    rw [hv]
    rfl
  obtain ⟨v, hv, hfit, hin, hbits⟩ := encoded_field henc hap (hplaced.symm ▸ hf)
  refine ⟨v, hv, hfit.1.1, hin, hbits, ?_⟩
  have hnodup : ((placed func.table).map (·.name)).Nodup := hplaced ▸ hnamed func hfunc
  rw [decodeControl_encoded henc hap, Dict.get_update (keys_assigned hgiven ▸ hnodup),
    get_assigned hnodup (hplaced.symm ▸ hf) hv]
  rfl

theorem built_field (hfunc : func ∈ funcs) (h : encodeFor func values = .ok (some raw))
    (hf : f ∈ func.controlFields) : ∃ v, given values f = some v ∧ 0 ≤ v ∧
      (decodeControl func.table raw).get f.name = some v.toNat := by
  obtain ⟨v, hv, hpos, -, -, hget⟩ := built_bits hfunc h hf
  exact ⟨v, hv, hpos, hget⟩

/-- The fields that are not named are at their defaults, which leave them unchanged. -/
def Untouched (func : Function) (names : List String) (raw : List Byte) : Prop :=
  ∀ f ∈ func.controlFields, f.name ∉ names →
    (decodeControl func.table raw).get f.name = f.default.map Int.toNat

theorem untouched_update {base changes : Dict ℤ} (hfunc : func ∈ funcs)
    (hbase : ∀ f ∈ func.controlFields, given base f = f.default)
    (h : encodeFor func (base.update changes) = .ok (some raw)) :
    Untouched func (changes.map Prod.fst) raw := by
  intro f hf hno
  obtain ⟨v, hv, -, hget⟩ := built_field hfunc h hf
  rw [given, get_update_of_not_mem hno] at hv
  rw [hget, ← hbase f hf, given, hv]
  rfl

def coolerNames : Dict (List String) :=
  [("power", ["State"]), ("level", ["Level"]), ("mode", ["Mode"]),
    ("timer_set", ["TimerHour", "TimerMin"]), ("timer_start", ["TimerStart"]),
    ("timer_cancel", ["TimerCancel"])]

def campingNames : Dict (List String) :=
  [("lights", ["InteriorLight", "OutsideLight"]), ("usb", ["UsbCharger"]), ("master", ["State"])]

def energyNames : Dict (List String) := [("mode", ["EnergyModeSet"])]

def airheaterNames : Dict (List String) :=
  [("power", ["NormalOperationRequest"]), ("level", ["HeatingLevel"]),
    ("runtime", ["RunningTime"]), ("timer", ["TimerHour", "TimerMin"]),
    ("timer_start", ["OperationModeAirHeater", "OperationModeCombined"]),
    ("timer_cancel", ["OperationModeAirHeater"]), ("permanent", ["PermanentOperationRequest"])]

variable {what : String} {value : Text} {last : Dict ℕ}

theorem encodeCooler_untouched {changes : Dict ℤ} (h : encodeCooler changes = .ok (some raw)) :
    Untouched cooler (changes.map Prod.fst) raw :=
  untouched_update (by decide) (by decide) h

/-- The night commands. -/
abbrev Night (what : String) : Prop := what = "night_on" ∨ what = "night_off"

theorem cooler_untouched (h : buildCooler what value last = .ok (some raw))
    (hnight : ¬ Night what) : Untouched cooler ((coolerNames.get what).getD []) raw := by
  unfold buildCooler at h
  by_cases h₁ : what = "power"
  · subst h₁
    obtain ⟨on, -, h⟩ := ok_of_bind h
    exact encodeCooler_untouched h
  by_cases h₂ : what = "level"
  · subst h₂
    obtain ⟨lvl, -, h⟩ := ok_of_bind h
    exact encodeCooler_untouched h
  by_cases h₃ : what = "mode"
  · subst h₃
    cases hm : coolerModes.lookup (key value) with
    | none =>
      rw [if_neg (by decide), if_neg (by decide), if_pos rfl, hm] at h
      cases h
    | some m =>
      rw [if_neg (by decide), if_neg (by decide), if_pos rfl, hm] at h
      exact encodeCooler_untouched h
  by_cases h₄ : what = "timer_set"
  · subst h₄
    obtain ⟨hm, -, h⟩ := ok_of_bind h
    exact encodeCooler_untouched h
  by_cases h₅ : what = "timer_start"
  · subst h₅
    exact encodeCooler_untouched h
  by_cases h₆ : what = "timer_cancel"
  · subst h₆
    exact encodeCooler_untouched h
  rw [if_neg h₁, if_neg h₂, if_neg h₃, if_neg h₄, if_neg h₅, if_neg h₆, if_neg hnight] at h
  cases h

theorem camping_untouched (h : buildCamping what value last = .ok (some raw)) :
    Untouched campingmode ((campingNames.get what).getD []) raw := by
  obtain ⟨on, -, h⟩ := ok_of_bind h
  have hencode : ∀ {changes : Dict ℤ},
      encodeFor campingmode (campingValues changes) = .ok (some raw) →
        Untouched campingmode (changes.map Prod.fst) raw := fun h =>
    untouched_update (by decide) (by decide) h
  by_cases h₁ : what = "lights"
  · subst h₁
    exact hencode h
  by_cases h₂ : what = "usb"
  · subst h₂
    exact hencode h
  by_cases h₃ : what = "master"
  · subst h₃
    exact hencode h
  rw [if_neg h₁, if_neg h₂, if_neg h₃] at h
  cases h

theorem energy_untouched (h : buildEnergy what value last = .ok (some raw)) :
    Untouched energy ((energyNames.get what).getD []) raw := by
  unfold buildEnergy at h
  by_cases hmode : what = "mode"
  · subst hmode
    cases hm : energyModes.lookup (key value) with
    | none =>
      rw [if_neg (by decide), hm] at h
      cases h
    | some m =>
      rw [if_neg (by decide), hm] at h
      intro f hf hno
      have hone : ∀ f ∈ energy.controlFields, f.name ∉ ["EnergyModeSet"] →
          f = ⟨"DisplayRefresh", 7, 1, some 0, none⟩ := by decide
      obtain rfl := hone f hf hno
      obtain ⟨v, hv, -, hget⟩ := built_field (by decide) h hf
      obtain rfl := Option.some.inj hv
      exact hget
  · rw [if_pos hmode] at h
    cases h

theorem airheater_untouched (h : buildAirheater what value last = .ok (some raw)) :
    Untouched airheater ((airheaterNames.get what).getD []) raw := by
  have hencode : ∀ {changes : Dict ℤ},
      encodeFor airheater (airheaterValues changes) = .ok (some raw) →
        Untouched airheater (changes.map Prod.fst) raw := fun h =>
    untouched_update (by decide) (by decide) h
  unfold buildAirheater at h
  by_cases h₁ : what = "power"
  · subst h₁
    obtain ⟨on, -, h⟩ := ok_of_bind h
    exact hencode h
  by_cases h₂ : what = "level"
  · subst h₂
    obtain ⟨lvl, -, h⟩ := ok_of_bind h
    exact hencode h
  by_cases h₃ : what = "runtime"
  · subst h₃
    obtain ⟨rt, -, h⟩ := ok_of_bind h
    exact hencode h
  by_cases h₄ : what = "timer"
  · subst h₄
    obtain ⟨hm, -, h⟩ := ok_of_bind h
    exact hencode h
  by_cases h₅ : what = "timer_start"
  · subst h₅
    exact hencode h
  by_cases h₆ : what = "timer_cancel"
  · subst h₆
    exact hencode h
  by_cases h₇ : what = "permanent"
  · subst h₇
    by_cases hoff : key value ∉ offWords
    · rw [if_neg (by decide), if_neg (by decide), if_neg (by decide), if_neg (by decide),
        if_neg (by decide), if_neg (by decide), if_pos rfl, if_pos hoff] at h
      cases h
    · rw [if_neg (by decide), if_neg (by decide), if_neg (by decide), if_neg (by decide),
        if_neg (by decide), if_neg (by decide), if_pos rfl, if_neg hoff] at h
      exact hencode h
  rw [if_neg h₁, if_neg h₂, if_neg h₃, if_neg h₄, if_neg h₅, if_neg h₆, if_neg h₇] at h
  cases h

/-- What the fields of a lighting frame are. -/
structure LightReads (raw : List Byte) (pn mode timestamp lightValue : ℤ) (zones : Dict ℤ) :
    Prop where
  pn : 0 ≤ pn ∧ (decodeControl lighting.table raw).get "ProfileNumber" = some pn.toNat
  mode : 0 ≤ mode ∧ (decodeControl lighting.table raw).get "Mode" = some mode.toNat
  timestamp : 0 ≤ timestamp ∧
    (decodeControl lighting.table raw).get "Timestamp" = some timestamp.toNat
  lightValue : 0 ≤ lightValue ∧
    (decodeControl lighting.table raw).get "LightValue" = some lightValue.toNat
  zones : ∀ z ∈ zoneFields, ∃ v, zones.get z = some v ∧
    (decodeControl lighting.table raw).get z = some v.toNat

theorem light_reads {pn mode timestamp lightValue : ℤ} {zones : Dict ℤ}
    (hz : zones.map Prod.fst = zoneFields)
    (h : lightFrame pn mode timestamp lightValue zones = .ok (some raw)) :
    LightReads raw pn mode timestamp lightValue zones := by
  have hnodup : (zones.map Prod.fst).Nodup := by
    rw [hz]
    decide
  have hmem : lighting ∈ funcs := by decide
  have hhead : ∀ f ∈ lighting.controlFields, f.name ∉ zoneFields → ∀ v,
      (Dict.get [("ProfileNumber", pn), ("Mode", mode), ("Timestamp", timestamp),
        ("LightValue", lightValue)] f.name) = some v →
      0 ≤ v ∧ (decodeControl lighting.table raw).get f.name = some v.toNat := by
    intro f hf hno v hv
    obtain ⟨w, hw, hpos, hget⟩ := built_field hmem h hf
    rw [given, get_update_of_not_mem (hz ▸ hno), hv] at hw
    obtain rfl := Option.some.inj hw
    exact ⟨hpos, hget⟩
  refine ⟨hhead ⟨"ProfileNumber", 4, 4, some 14, none⟩ (by decide) (by decide) _ rfl,
    hhead ⟨"Mode", 8, 8, some 0, some (.oneOf [0, 4, 6, 8, 12, 16, 20, 24, 28])⟩ (by decide)
      (by decide) _ rfl,
    hhead ⟨"Timestamp", 16, 32, some 0, none⟩ (by decide) (by decide) _ rfl,
    hhead ⟨"LightValue", 48, 16, some 0, none⟩ (by decide) (by decide) _ rfl, fun z hz' => ?_⟩
  have hfield : ∀ z ∈ zoneFields, ∃ f ∈ lighting.controlFields, f.name = z := by decide
  obtain ⟨f, hf, rfl⟩ := hfield z hz'
  obtain ⟨v, hv, -, hget⟩ := built_field hmem h hf
  have hsome : (zones.get f.name).isSome = true := by
    rw [Option.isSome_iff_ne_none]
    exact fun hnone => (Dict.get_eq_none.mp hnone) (hz.symm ▸ hz')
  obtain ⟨w, hw⟩ := Option.isSome_iff_exists.mp hsome
  rw [given, Dict.get_update hnodup, hw] at hv
  obtain rfl := Option.some.inj hv
  exact ⟨w, hw, hget⟩

/-- A lighting frame touches its heads that are not at their defaults, and its zones that are
not 14. -/
theorem light_untouched {pn mode timestamp lightValue : ℤ} {zones : Dict ℤ} {names : List String}
    (h : LightReads raw pn mode timestamp lightValue zones)
    (hpn : "ProfileNumber" ∈ names ∨ pn = 14) (hmode : "Mode" ∈ names)
    (hts : "Timestamp" ∈ names ∨ timestamp = 0) (hlv : "LightValue" ∈ names ∨ lightValue = 0)
    (hz : ∀ z ∈ zoneFields, z ∉ names → zones.get z = some lightUnchanged) :
    Untouched lighting names raw := by
  intro f hf hno
  have hcases : ∀ f ∈ lighting.controlFields, f.name = "ProfileNumber" ∧ f.default = some 14 ∨
      f.name = "Mode" ∨ f.name = "Timestamp" ∧ f.default = some 0 ∨
      f.name = "LightValue" ∧ f.default = some 0 ∨
      f.name ∈ zoneFields ∧ f.default = some lightUnchanged := by decide
  rcases hcases f hf with ⟨hname, hdef⟩ | hname | ⟨hname, hdef⟩ | ⟨hname, hdef⟩ | ⟨hzone, hdef⟩
  · rw [hname, hdef, h.pn.2, hpn.resolve_left (hname ▸ hno)]
    rfl
  · exact absurd hmode (hname ▸ hno)
  · rw [hname, hdef, h.timestamp.2, hts.resolve_left (hname ▸ hno)]
    rfl
  · rw [hname, hdef, h.lightValue.2, hlv.resolve_left (hname ▸ hno)]
    rfl
  · obtain ⟨v, hv, hget⟩ := h.zones f.name hzone
    rw [hz f.name hzone hno] at hv
    rw [hget, hdef, Option.some.inj hv]
    rfl

def lightingNames (what : String) : List String :=
  if what = "profile" ∨ what = "power" then ["ProfileNumber", "Mode"]
  else if what = "door_contact" then ["ProfileNumber", "Mode", "LightValue"]
  else if what = "wakeup" then ["Mode", "Timestamp", "LightValue"]
  else if what = "all" ∨ what = "brightness" then "ProfileNumber" :: "Mode" :: realZones
  else ["ProfileNumber", "Mode", (lightZones.get what).getD what]

theorem keys_tabulated (g : String → ℤ) :
    (zoneFields.map fun z => (z, g z)).map Prod.fst = zoneFields := by
  rw [List.map_map]
  exact List.map_id _

theorem get_allZones (b : ℤ) : ∀ z ∈ zoneFields, (allZones b).get z = some b := fun _ hz =>
  Dict.get_tabulate (fun _ => b) hz

variable {now : DateTime}

theorem unzoned_untouched {pn mode timestamp lightValue : ℤ} {names : List String}
    (h : lightFrame pn mode timestamp lightValue (allZones lightUnchanged) = .ok (some raw))
    (hpn : "ProfileNumber" ∈ names ∨ pn = 14) (hmode : "Mode" ∈ names)
    (hts : "Timestamp" ∈ names ∨ timestamp = 0) (hlv : "LightValue" ∈ names ∨ lightValue = 0) :
    Untouched lighting names raw :=
  light_untouched (light_reads (keys_tabulated _) h) hpn hmode hts hlv fun z hz _ =>
    get_allZones _ z hz

theorem lighting_untouched (h : buildLighting now what value last = .ok (some raw))
    (hsave : what ≠ "save_profile") : Untouched lighting (lightingNames what) raw := by
  unfold buildLighting at h
  by_cases h₁ : what = "profile"
  · subst h₁
    obtain ⟨n, -, h⟩ := ok_of_bind h
    by_cases h8 : n = lightProfileDoorContact
    · rw [if_pos h8] at h
      cases h
    · rw [if_neg h8] at h
      exact unzoned_untouched h (.inl (by decide)) (by decide) (.inr rfl) (.inr rfl)
  rw [if_neg h₁, if_neg hsave] at h
  by_cases h₂ : what = "door_contact"
  · subst h₂
    obtain ⟨on, -, h⟩ := ok_of_bind h
    exact unzoned_untouched h (.inl (by decide)) (by decide) (.inr rfl) (.inl (by decide))
  rw [if_neg h₂] at h
  by_cases h₃ : what = "wakeup"
  · subst h₃
    obtain ⟨c, -, h⟩ := ok_of_bind h
    obtain ⟨ts, -, h⟩ := ok_of_bind h
    exact unzoned_untouched h (.inr rfl) (by decide) (.inl (by decide)) (.inl (by decide))
  rw [if_neg h₃] at h
  by_cases h₄ : what = "power"
  · subst h₄
    obtain ⟨on, -, h⟩ := ok_of_bind h
    exact unzoned_untouched h (.inl (by decide)) (by decide) (.inr rfl) (.inr rfl)
  rw [if_neg h₄] at h
  by_cases h₅ : what = "all" ∨ what = "brightness"
  · rw [if_pos h₅] at h
    obtain ⟨b, -, h⟩ := ok_of_bind h
    have hnames : lightingNames what = "ProfileNumber" :: "Mode" :: realZones := by
      rcases h₅ with rfl | rfl <;> rfl
    rw [hnames]
    refine light_untouched (light_reads (keys_tabulated _) h) (.inl (by decide)) (by decide)
      (.inr rfl) (.inr rfl) fun z hz hno => ?_
    have hreal : z ∉ realZones := fun hr =>
      hno (List.mem_cons_of_mem _ (List.mem_cons_of_mem _ hr))
    exact (Dict.get_tabulate _ hz).trans (congrArg some (if_neg hreal))
  rw [if_neg h₅] at h
  by_cases h₆ : what = "color"
  · rw [if_pos h₆] at h
    cases h
  rw [if_neg h₆] at h
  dsimp only at h
  by_cases h₇ : (lightZones.get what).getD what ∉ zoneFields
  · rw [if_pos h₇] at h
    cases h
  · rw [if_neg h₇] at h
    obtain ⟨b, -, h⟩ := ok_of_bind h
    have hkey : (lightZones.get what).getD what ∈ (allZones lightUnchanged).map Prod.fst := by
      rw [allZones, keys_tabulated]
      exact not_not.mp h₇
    have hkeys : (Dict.update (allZones lightUnchanged)
        [((lightZones.get what).getD what, b)]).map Prod.fst = zoneFields :=
      (keys_set hkey b).trans (keys_tabulated _)
    have hnames : lightingNames what =
        ["ProfileNumber", "Mode", (lightZones.get what).getD what] := by
      rw [lightingNames, if_neg fun ho => ho.elim h₁ h₄, if_neg h₂, if_neg h₃, if_neg h₅]
    rw [hnames]
    refine light_untouched (light_reads hkeys h) (.inl List.mem_cons_self)
      (List.mem_cons_of_mem _ List.mem_cons_self) (.inr rfl) (.inr rfl) fun z hz hno => ?_
    rw [get_update_of_not_mem, get_allZones _ z hz]
    intro hz'
    exact hno (List.mem_cons_of_mem _ (List.mem_cons_of_mem _ hz'))

/-- The commands that carry the state over: the night schedule, the save of a profile. -/
def Carries (fn what : String) : Prop :=
  fn = "cooler" ∧ Night what ∨ fn = "lighting" ∧ what = "save_profile"

theorem build_same (fn : String) (hcarries : ¬ Carries fn what)
    (hwake : ¬ (fn = "lighting" ∧ what = "wakeup")) (value : Text) (last last' : Dict ℕ) :
    build now fn what value last = build now fn what value last' := by
  unfold build builder
  by_cases h₁ : fn = "campingmode"
  · rw [if_pos h₁]
    rfl
  rw [if_neg h₁]
  by_cases h₂ : fn = "cooler"
  · rw [if_pos h₂]
    have hnight : ¬ (what = "night_on" ∨ what = "night_off") := fun hn => hcarries (.inl ⟨h₂, hn⟩)
    dsimp only
    unfold buildCooler
    rw [if_neg hnight, if_neg hnight]
  rw [if_neg h₂]
  by_cases h₃ : fn = "lighting"
  · rw [if_pos h₃]
    have hsave : ¬ what = "save_profile" := fun hs => hcarries (.inr ⟨h₃, hs⟩)
    have hwake' : ¬ what = "wakeup" := fun hw => hwake ⟨h₃, hw⟩
    dsimp only
    unfold buildLighting
    rw [if_neg hsave, if_neg hsave, if_neg hwake', if_neg hwake']
  rw [if_neg h₃]
  by_cases h₄ : fn = "airheater"
  · rw [if_pos h₄]
    rfl
  rw [if_neg h₄]
  by_cases h₅ : fn = "energy"
  · rw [if_pos h₅]
    rfl
  · rw [if_neg h₅]

/-- The schedule of the cooler: the control field, its state field and what an unread one is. -/
def coolerSchedule : List (String × String × ℕ) :=
  [("State", "State", 1), ("Mode", "Mode", 4), ("Level", "Level", 3),
    ("NightTimerSet", "NightTimerSet", 0), ("NightTimerHourOn", "NightTimerHourOn", 0),
    ("NightTimerHourOff", "NightTimerHourOff", 0), ("TimerHour", "TimerHourSet", 0),
    ("TimerMin", "TimerMinSet", 0)]

/-- A night command carries the schedule and changes its hour. -/
structure NightCarried (what : String) (value : Text) (last : Dict ℕ) (raw : List Byte) : Prop where
  known : last ≠ []
  hour : ∃ hr, intRange value 0 23 "night timer hour" = .ok hr ∧
    (decodeControl cooler.table raw).get (coolerNight what) = some hr.toNat
  schedule : ∀ e ∈ coolerSchedule, e.1 ≠ coolerNight what →
    (decodeControl cooler.table raw).get e.1 = some ((last.get e.2.1).getD e.2.2)
  actions : ∀ name ∈ ["TimerStart", "TimerCancel"],
    (decodeControl cooler.table raw).get name = some 3

theorem night_carried (h : buildCooler what value last = .ok (some raw)) (hnight : Night what) :
    NightCarried what value last raw := by
  have hbuild : buildCooler what value last = (intRange value 0 23 "night timer hour" >>= fun hr =>
      if last = [] then .error (.commandError .coolerUnknown)
      else encodeFor cooler (coolerValues last [(coolerNight what, hr)])) := by
    rcases hnight with rfl | rfl <;> rfl
  rw [hbuild] at h
  obtain ⟨hr, hhour, h⟩ := ok_of_bind h
  by_cases hlast : last = []
  · rw [if_pos hlast] at h
    cases h
  rw [if_neg hlast] at h
  have hmem : cooler ∈ funcs := by decide
  have hother : ∀ f ∈ cooler.controlFields, f.name ≠ coolerNight what → ∀ v : ℕ,
      (coolerValues last []).get f.name = some (v : ℤ) →
      (decodeControl cooler.table raw).get f.name = some v := by
    intro f hf hne v hv
    obtain ⟨w, hw, -, hget⟩ := built_field hmem h hf
    have hno : f.name ∉ List.map Prod.fst [(coolerNight what, hr)] := fun hm =>
      hne (List.mem_singleton.mp hm)
    have hkeep : (coolerValues last [(coolerNight what, hr)]).get f.name = some (v : ℤ) :=
      (get_update_of_not_mem hno _).trans hv
    rw [given, hkeep] at hw
    obtain rfl := Option.some.inj hw
    exact hget
  have hrow : ∀ e ∈ coolerSchedule, ∃ f ∈ cooler.controlFields, f.name = e.1 := by decide
  have hbase : ∀ e ∈ coolerSchedule, (coolerValues last []).get e.1 =
      some (((last.get e.2.1).getD e.2.2 : ℕ) : ℤ) := by
    simp only [coolerSchedule, List.forall_mem_cons]
    exact ⟨rfl, rfl, rfl, rfl, rfl, rfl, rfl, rfl, fun e he => absurd he List.not_mem_nil⟩
  refine ⟨hlast, ⟨hr, hhour, ?_⟩, fun e he hne => ?_, fun name hname => ?_⟩
  · obtain ⟨f, hf, hname⟩ : ∃ f ∈ cooler.controlFields, f.name = coolerNight what := by
      rcases hnight with rfl | rfl <;> decide
    obtain ⟨w, hw, -, hget⟩ := built_field hmem h hf
    have hset : (coolerValues last [(coolerNight what, hr)]).get f.name = some hr := by
      rw [hname]
      exact (Dict.get_set _ _ _ _).trans (if_pos rfl)
    rw [given, hset] at hw
    obtain rfl := Option.some.inj hw
    exact hname ▸ hget
  · obtain ⟨f, hf, hname⟩ := hrow e he
    rw [← hname] at hne ⊢
    exact hother f hf hne _ (hname ▸ hbase e he)
  · have hactions : ∀ name ∈ ["TimerStart", "TimerCancel"],
        ∃ f ∈ cooler.controlFields, f.name = name := by decide
    have hthree : ∀ name ∈ ["TimerStart", "TimerCancel"],
        (coolerValues last []).get name = some ((3 : ℕ) : ℤ) := by
      simp only [List.forall_mem_cons]
      exact ⟨rfl, rfl, fun e he => absurd he List.not_mem_nil⟩
    have hne : name ≠ coolerNight what := by
      rcases hnight with rfl | rfl <;> revert name <;> decide
    obtain ⟨f, hf, rfl⟩ := hactions name hname
    exact hother f hf hne 3 (hthree f.name hname)

/-- What a frame that saves a profile carries. -/
structure SaveCarried (value : Text) (last : Dict ℕ) (raw : List Byte) : Prop where
  profile : ∃ args, saveProfileArgs value = .ok args ∧
    (decodeControl lighting.table raw).get "ProfileNumber" = some args.1.toNat
  timestamp : (decodeControl lighting.table raw).get "Timestamp" = some 0
  level : ∀ z ∈ realZones, ∀ x, last.get z = some x → (x : ℤ) ≤ lightMaxSet →
    (decodeControl lighting.table raw).get z = some x
  other : ∀ z ∈ zoneFields, (z ∈ realZones → ∀ x, last.get z = some x → lightMaxSet < (x : ℤ)) →
    (decodeControl lighting.table raw).get z = some 14

theorem saved_carried {pn mode lightValue : ℤ}
    (h : lightFrame pn mode 0 lightValue (savedZones last) = .ok (some raw))
    (hargs : ∃ args, saveProfileArgs value = .ok args ∧ args.1 = pn) :
    SaveCarried value last raw := by
  have hreads := light_reads (keys_tabulated _) h
  have hreal : ∀ z ∈ realZones, z ∈ zoneFields := by decide
  have hzone : ∀ z ∈ zoneFields,
      (decodeControl lighting.table raw).get z = some (savedZone last z).toNat := fun z hz => by
    obtain ⟨v, hv, hget⟩ := hreads.zones z hz
    rw [Dict.get_tabulate _ hz] at hv
    obtain rfl := Option.some.inj hv
    exact hget
  obtain ⟨args, hsave, rfl⟩ := hargs
  refine ⟨⟨args, hsave, hreads.pn.2⟩, hreads.timestamp.2, fun z hz x hx hle => ?_,
    fun z hz hno => ?_⟩
  · have hlevel : savedZone last z = x := by
      rw [savedZone, hx]
      exact if_pos ⟨hz, hle⟩
    rw [hzone z (hreal z hz), hlevel]
    rfl
  · have hunchanged : savedZone last z = lightUnchanged := by
      rw [savedZone]
      cases hx : last.get z with
      | none => rfl
      | some x => exact if_neg fun hc => absurd (hno hc.1 x hx) (Int.not_lt.mpr hc.2)
    rw [hzone z hz, hunchanged]
    rfl

theorem save_carried (h : buildLighting now "save_profile" value last = .ok (some raw)) :
    SaveCarried value last raw := by
  have hbuild : buildLighting now "save_profile" value last =
      (saveProfileArgs value >>= fun args => lightFrame args.1 4 0 0 (savedZones last)) := rfl
  rw [hbuild] at h
  obtain ⟨args, hargs, h⟩ := ok_of_bind h
  exact saved_carried h ⟨args, hargs, rfl⟩

theorem preface_carried {fn : String} (h : prefaceFor fn what value last = .ok (some raw)) :
    SaveCarried value last raw := by
  unfold prefaceFor at h
  by_cases hplain : fn ≠ "lighting" ∨ what ≠ "save_profile"
  · rw [if_pos hplain] at h
    cases h
  · rw [if_neg hplain] at h
    obtain ⟨args, hargs, h⟩ := ok_of_bind h
    cases hcolour : args.2 with
    | none =>
      rw [hcolour] at h
      cases h
    | some idx =>
      rw [hcolour] at h
      exact saved_carried h ⟨args, hargs, rfl⟩

def named (fn what : String) : List String :=
  if fn = "lighting" then lightingNames what
  else
    (Dict.get (if fn = "cooler" then coolerNames
      else if fn = "campingmode" then campingNames
      else if fn = "energy" then energyNames
      else airheaterNames) what).getD []

/-- A frame that a command writes: its own one or the one before it. -/
def Emits (now : DateTime) (fn what : String) (value : Text) (last : Dict ℕ) (raw : List Byte) :
    Prop :=
  build now fn what value last = .ok (some raw) ∨ prefaceFor fn what value last = .ok (some raw)

theorem ok_of_asCommandError {m : Py (Option (List Byte))} {o : Option (List Byte)}
    (h : asCommandError m = .ok o) : m = .ok o := by
  unfold asCommandError at h
  split at h
  · cases h
  · exact h

theorem build_cases {fn : String} (h : build now fn what value last = .ok (some raw)) :
    ∃ b, builder now fn = some b ∧ b what value last = .ok (some raw) := by
  unfold build at h
  cases hb : builder now fn with
  | none =>
    rw [hb] at h
    cases h
  | some b =>
    rw [hb] at h
    exact ⟨b, rfl, ok_of_asCommandError h⟩

theorem build_untouched {fn : String} (h : build now fn what value last = .ok (some raw))
    (hcarries : ¬ Carries fn what) :
    ∀ func ∈ funcs, func.name = fn → Untouched func (named fn what) raw := by
  have hfind : ∀ func ∈ funcs, ∀ g ∈ funcs, func.name = g.name → func = g := by decide
  obtain ⟨b, hb, hbuilt⟩ := build_cases h
  intro func hfunc hname
  unfold builder at hb
  split_ifs at hb with h₁ h₂ h₃ h₄ h₅
  · obtain rfl := Option.some.inj hb
    obtain rfl := hfind func hfunc campingmode (by decide) (hname.trans h₁)
    subst h₁
    exact camping_untouched hbuilt
  · obtain rfl := Option.some.inj hb
    obtain rfl := hfind func hfunc cooler (by decide) (hname.trans h₂)
    subst h₂
    exact cooler_untouched hbuilt fun hn => hcarries (.inl ⟨rfl, hn⟩)
  · obtain rfl := Option.some.inj hb
    obtain rfl := hfind func hfunc lighting (by decide) (hname.trans h₃)
    subst h₃
    exact lighting_untouched hbuilt fun hs => hcarries (.inr ⟨rfl, hs⟩)
  · obtain rfl := Option.some.inj hb
    obtain rfl := hfind func hfunc airheater (by decide) (hname.trans h₄)
    subst h₄
    exact airheater_untouched hbuilt
  · obtain rfl := Option.some.inj hb
    obtain rfl := hfind func hfunc energy (by decide) (hname.trans h₅)
    subst h₅
    exact energy_untouched hbuilt

/-- What a planned command writes is the neutral frame or a frame of the reference. -/
theorem planned_emits (r : Reading) (now : DateTime) (fn what : String) (value : Text)
    (localNow : ℤ) (hnow : 0 ≤ localNow → localNow = now.epoch)
    (h : (plan fn what value localNow (get r)).rc = .ok) :
    ∀ w ∈ (plan fn what value localNow (get r)).f,
      w.data = lightCommit ∨ Emits now fn what value (r.last fn) w.data := by
  obtain ⟨-, hwritten⟩ := written_of_plan r now fn what value localNow hnow h
  intro w hw
  rw [written_eq_some] at hwritten
  unfold command at hwritten
  split at hwritten
  · cases hwritten
  · split at hwritten
    · cases hwritten
    · cases hwritten
    · cases hwritten
    · cases hwritten
    · next frame preface func hbuild hpreface hfunc =>
      rw [← Outcome.write.inj hwritten] at hw
      obtain ⟨data, hdata, hw⟩ := List.mem_flatMap.mp hw
      rcases List.mem_cons.mp hw with rfl | hw
      · rcases List.mem_append.mp hdata with hpre | hframe
        · cases preface with
          | none => exact absurd hpre List.not_mem_nil
          | some p => exact .inr (.inr (List.mem_singleton.mp hpre ▸ hpreface))
        · exact .inr (.inl (List.mem_singleton.mp hframe ▸ hbuild))
      · have hcommit : commitFor fn = none ∨ commitFor fn = some lightCommit := by
          unfold commitFor
          split_ifs
          · exact .inr rfl
          · exact .inl rfl
        rcases hcommit with hnone | hsome
        · rw [hnone] at hw
          exact absurd hw List.not_mem_nil
        · rw [hsome] at hw
          rw [List.mem_singleton.mp hw]
          exact .inl rfl

/-- What the frames of the commands carry. -/
structure Targeted : Prop where
  untouched : ∀ now fn what value last raw, build now fn what value last = .ok (some raw) →
    ¬ Carries fn what → ∀ func ∈ funcs, func.name = fn → Untouched func (named fn what) raw
  same : ∀ now fn what value last last', ¬ Carries fn what →
    ¬ (fn = "lighting" ∧ what = "wakeup") →
    build now fn what value last = build now fn what value last'
  night : ∀ now what value last raw, Night what →
    build now "cooler" what value last = .ok (some raw) → NightCarried what value last raw
  save : ∀ now value last raw, Emits now "lighting" "save_profile" value last raw →
    SaveCarried value last raw
  neutral : Untouched lighting [] lightCommit
  planned : ∀ r now fn what value localNow, (0 ≤ localNow → localNow = now.epoch) →
    (plan fn what value localNow (get r)).rc = .ok →
    ∀ w ∈ (plan fn what value localNow (get r)).f,
      w.data = lightCommit ∨ Emits now fn what value (r.last fn) w.data

theorem frames_targeted : Targeted where
  untouched _ _ _ _ _ _ h hcarries := build_untouched h hcarries
  same _ fn _ value last last' hcarries hwake := build_same fn hcarries hwake value last last'
  night now what value last raw hnight h := by
    obtain ⟨b, hb, h⟩ := build_cases h
    obtain rfl := Option.some.inj hb
    exact night_carried h hnight
  save now value last raw h := by
    rcases h with h | h
    · obtain ⟨b, hb, h⟩ := build_cases h
      obtain rfl := Option.some.inj hb
      exact save_carried h
    · exact preface_carried h
  neutral := by
    rw [Untouched]
    decide +kernel
  planned r now fn what value localNow hnow h :=
    planned_emits r now fn what value localNow hnow h

/-- A wake-up edit carries the areas that the unit reported. -/
theorem wakeup_carries :
    build epochStart "lighting" "wakeup" "07:00 on".toList [("WakeupTimestamp", 0),
        ("WakeupLightValue", 0x1200)] =
      .ok (some [0x0e, 0x14, 0, 0, 0x62, 0x70, 0x12, 0x01, 0xee, 0xee, 0xee, 0xee, 0xee, 0xee, 0xee,
        0xee]) ∧
    build epochStart "lighting" "wakeup" "07:00 on".toList [("WakeupTimestamp", 0),
        ("WakeupLightValue", 0x1300)] =
      .ok (some [0x0e, 0x14, 0, 0, 0x62, 0x70, 0x13, 0x01, 0xee, 0xee, 0xee, 0xee, 0xee, 0xee, 0xee,
        0xee]) := by
  decide +kernel

end OpenCalifornia.Control
