import OpenCalifornia.Control.Carried

/-! # The wake-up frame and back

A wake-up request goes into two fields of the frame, which the reader of the lighting state takes
apart again. The clock is in microseconds. -/

namespace OpenCalifornia.Control
open Lib Lib.Bits Lib.Text Firmware

variable {c : Wakeup}

/-- A configuration that the two fields can hold. -/
structure Wakeup.Sound (c : Wakeup) : Prop where
  hour : c.hour < 24
  minute : c.minute < 60
  colour : c.colour < 16
  areas : ∃ p : ℕ → Bool, c.areas = [1, 2, 3, 4].filter p
  brightness : c.brightness < 16
  ramp : ∃ k < 8, c.ramp = k * 10

theorem shift_or {a b : ℕ} (k : ℕ) (h : b < 2 ^ k) : a <<< k ||| b = a * 2 ^ k + b := by
  rw [← Nat.shiftLeft_add_eq_or_of_lt h, Nat.shiftLeft_eq]

theorem areaBits_filter_lt (p : ℕ → Bool) : areaBits ([1, 2, 3, 4].filter p) < 16 := by
  simp only [List.filter_cons, List.filter_nil]
  generalize p 1 = a
  generalize p 2 = b
  generalize p 3 = c
  generalize p 4 = d
  revert a b c d
  decide

theorem shift_shift_or {a b k m : ℕ} (h : b <<< m < 2 ^ (k + m)) :
    a <<< (k + m) ||| b <<< m = (a * 2 ^ k + b) <<< m := by
  rw [shift_or _ h, Nat.shiftLeft_eq, Nat.shiftLeft_eq, Nat.add_mul, Nat.mul_assoc, Nat.pow_add]

theorem lightValue_eq (h : c.Sound) : wakeupLightValue c =
    (((c.colour * 16 + areaBits c.areas) * 16 + c.brightness) * 8 + c.ramp / 10) * 2 +
      c.enabled.toNat := by
  obtain ⟨p, hp⟩ := h.areas
  obtain ⟨k, hk, hramp⟩ := h.ramp
  have hareas : areaBits c.areas < 16 := by
    rw [hp]
    exact areaBits_filter_lt p
  have hb := h.brightness
  have hon : c.enabled.toNat < 2 ^ 1 := Bool.toNat_lt _
  have h₁ : c.colour <<< (4 + 8) ||| areaBits c.areas <<< 8 =
      (c.colour * 2 ^ 4 + areaBits c.areas) <<< 8 :=
    shift_shift_or (by rw [Nat.shiftLeft_eq]; omega)
  have h₂ : (c.colour * 2 ^ 4 + areaBits c.areas) <<< (4 + 4) ||| c.brightness <<< 4 =
      ((c.colour * 2 ^ 4 + areaBits c.areas) * 2 ^ 4 + c.brightness) <<< 4 :=
    shift_shift_or (by rw [Nat.shiftLeft_eq]; omega)
  have h₃ : ((c.colour * 2 ^ 4 + areaBits c.areas) * 2 ^ 4 + c.brightness) <<< (3 + 1) |||
      (c.ramp / 10) <<< 1 =
      (((c.colour * 2 ^ 4 + areaBits c.areas) * 2 ^ 4 + c.brightness) * 2 ^ 3 + c.ramp / 10) <<<
        1 :=
    shift_shift_or (by rw [Nat.shiftLeft_eq]; omega)
  show c.colour <<< (4 + 8) ||| areaBits c.areas <<< 8 ||| c.brightness <<< 4 |||
    (c.ramp / 10) <<< 1 ||| c.enabled.toNat = _
  rw [h₁]
  show (c.colour * 2 ^ 4 + areaBits c.areas) <<< (4 + 4) ||| c.brightness <<< 4 |||
    (c.ramp / 10) <<< 1 ||| c.enabled.toNat = _
  rw [h₂]
  show ((c.colour * 2 ^ 4 + areaBits c.areas) * 2 ^ 4 + c.brightness) <<< (3 + 1) |||
    (c.ramp / 10) <<< 1 ||| c.enabled.toNat = _
  rw [h₃, shift_or 1 hon]
  rfl

theorem areas_of_nibble (p : ℕ → Bool) {lv : ℕ}
    (h : lv >>> 8 &&& 0xf = areaBits ([1, 2, 3, 4].filter p)) :
    ([1, 2, 3, 4].filter fun a => lv >>> (7 + a) &&& 1 ≠ 0) = [1, 2, 3, 4].filter p := by
  have h1 := shifted_bit lv 0 (by decide)
  have h2 := shifted_bit lv 1 (by decide)
  have h3 := shifted_bit lv 2 (by decide)
  have h4 := shifted_bit lv 3 (by decide)
  rw [h] at h1 h2 h3 h4
  simp only [List.filter_cons, List.filter_nil, Nat.reduceAdd] at h1 h2 h3 h4 ⊢
  rw [h1, h2, h3, h4]
  generalize p 1 = a
  generalize p 2 = b
  generalize p 3 = c
  generalize p 4 = d
  revert a b c d
  decide

/-- The reader takes a light value and a time apart into the configuration they are of. -/
theorem config_of_packed (h : c.Sound) {ts : ℕ} (hts : ts % 86400 = c.hour * 3600 + c.minute * 60)
    (cfg : LightConfig) :
    wakeupConfig { cfg with
      wakeupTimestamp := some ts
      wakeupLightValue := some (wakeupLightValue c) } = some c := by
  obtain ⟨p, hp⟩ := h.areas
  obtain ⟨k, hk, hramp⟩ := h.ramp
  have hareas : areaBits c.areas < 16 := by
    rw [hp]
    exact areaBits_filter_lt p
  have hlv := lightValue_eq h
  have hbright := h.brightness
  have hcolour := h.colour
  have hhour := h.hour
  have hminute := h.minute
  have hon : c.enabled.toNat < 2 := Bool.toNat_lt _
  generalize wakeupLightValue c = lv at hlv
  have hnibble : lv >>> 8 &&& 0xf = areaBits c.areas := by
    rw [Nat.and_two_pow_sub_one_eq_mod _ 4, Nat.shiftRight_eq_div_pow]
    omega
  have henabled : decide (lv &&& 1 ≠ 0) = c.enabled := by
    have hbit : lv &&& 1 = c.enabled.toNat := by
      rw [Nat.and_one_is_mod]
      omega
    rw [hbit]
    cases c.enabled <;> rfl
  have hrampv : (lv &&& 0xf) >>> 1 * 10 = c.ramp := by
    rw [Nat.and_two_pow_sub_one_eq_mod _ 4, Nat.shiftRight_eq_div_pow]
    omega
  have hbrightv : lv >>> 4 &&& 0xf = c.brightness := by
    rw [Nat.and_two_pow_sub_one_eq_mod _ 4, Nat.shiftRight_eq_div_pow]
    omega
  have hcolourv : lv >>> 12 &&& 0xf = c.colour := by
    rw [Nat.and_two_pow_sub_one_eq_mod _ 4, Nat.shiftRight_eq_div_pow]
    omega
  have hareasv : ([1, 2, 3, 4].filter fun a => lv >>> (7 + a) &&& 1 ≠ 0) = c.areas :=
    (areas_of_nibble p (hnibble.trans (congrArg areaBits hp))).trans hp.symm
  have hhourv : ts / 3600 % 24 = c.hour := by omega
  have hminutev : ts / 60 % 60 = c.minute := by omega
  unfold wakeupConfig
  dsimp only
  rw [henabled, hrampv, hbrightv, hcolourv, hareasv, hhourv, hminutev]

theorem sound_config {cfg : LightConfig} (h : wakeupConfig cfg = some c) : c.Sound := by
  have hnibble : ∀ lv : ℕ, lv &&& 0xf < 16 := fun lv => by
    rw [Nat.and_two_pow_sub_one_eq_mod _ 4]
    exact Nat.mod_lt _ (by decide)
  unfold wakeupConfig at h
  split at h
  · next ts lv _ _ =>
    obtain rfl := Option.some.inj h
    refine ⟨Nat.mod_lt _ (by decide), Nat.mod_lt _ (by decide), hnibble _,
      ⟨fun a => lv >>> (7 + a) &&& 1 ≠ 0, rfl⟩, hnibble _, (lv &&& 0xf) >>> 1, ?_, rfl⟩
    rw [Nat.shiftRight_eq_div_pow]
    have hlow := hnibble lv
    omega
  · cases h

theorem sound_default : wakeupDefault.Sound :=
  ⟨by decide, by decide, by decide, ⟨(· = 1), by decide⟩, by decide, 0, by decide, rfl⟩

theorem sound_word {w w' : Control.Words} {tok : Text} (h : wakeupWord w tok = .ok w')
    (hw : w.hour < 24 ∧ w.minute < 60) : w'.hour < 24 ∧ w'.minute < 60 := by
  unfold wakeupWord at h
  split_ifs at h
  · cases h
    exact hw
  · obtain ⟨hm, htime, h⟩ := ok_of_bind h
    cases h
    unfold Control.hhmm at htime
    split at htime
    · obtain ⟨hh, -, htime⟩ := ok_of_bind htime
      obtain ⟨mm, -, htime⟩ := ok_of_bind htime
      split_ifs at htime with hrange
      cases htime
      exact ⟨by dsimp only; omega, by dsimp only; omega⟩
    · cases htime
  · cases h
    exact hw

theorem sound_words {toks : List Text} {w w' : Control.Words}
    (h : toks.foldlM wakeupWord w = .ok w') (hw : w.hour < 24 ∧ w.minute < 60) :
    w'.hour < 24 ∧ w'.minute < 60 := by
  induction toks generalizing w with
  | nil =>
    cases h
    exact hw
  | cons tok toks ih =>
    rw [List.foldlM_cons] at h
    obtain ⟨w₁, hs, h⟩ := ok_of_bind h
    exact ih h (sound_word hs hw)

theorem sortedSet_eq {l : List ℤ} (h : ∀ a ∈ l, 1 ≤ a ∧ a ≤ 4) :
    sortedSet l = [1, 2, 3, 4].filter fun x => l.elem x := by
  refine (sortedSet_perm h).eq_of_pairwise' (r := (· ≤ ·)) ?_ ?_
  · exact List.pairwise_insertionSort _ _
  · exact List.Pairwise.filter _ (by decide)

theorem range_of_ok {value : Text} {lo hi v : ℤ} {label : String}
    (h : Control.intRange value lo hi label = .ok v) : lo ≤ v ∧ v ≤ hi := by
  obtain ⟨w, -, h⟩ := ok_of_bind h
  split_ifs at h with hrange
  cases h
  exact hrange

theorem mapM_range {ss : List Text} {l : List ℤ} {lo hi : ℤ} {label : String}
    (h : ss.mapM (fun a => Control.intRange a lo hi label) = .ok l) : ∀ a ∈ l, lo ≤ a ∧ a ≤ hi := by
  induction ss generalizing l with
  | nil =>
    cases h
    exact fun a ha => absurd ha List.not_mem_nil
  | cons s ss ih =>
    rw [List.mapM_cons] at h
    obtain ⟨a, ha, h⟩ := ok_of_bind h
    obtain ⟨as, has, h⟩ := ok_of_bind h
    cases h
    exact List.forall_mem_cons.mpr ⟨range_of_ok ha, ih has⟩

theorem sound_areas {word : Text} {areas : List ℕ} (h : wakeupAreas word = .ok areas) :
    ∃ p : ℕ → Bool, areas = [1, 2, 3, 4].filter p := by
  obtain ⟨l, hl, h⟩ := ok_of_bind h
  cases h
  refine ⟨fun a => l.elem (a : ℤ), ?_⟩
  rw [sortedSet_eq (mapM_range hl)]
  simp only [List.filter_cons, List.filter_nil]
  rw [show ((1 : ℕ) : ℤ) = 1 from rfl, show ((2 : ℕ) : ℤ) = 2 from rfl,
    show ((3 : ℕ) : ℤ) = 3 from rfl, show ((4 : ℕ) : ℤ) = 4 from rfl]
  generalize l.elem 1 = a
  generalize l.elem 2 = b
  generalize l.elem 3 = c
  generalize l.elem 4 = d
  revert a b c d
  decide

theorem sound_ramp {word : Text} {ramp : ℕ} (h : wakeupRamp word = .ok ramp) :
    ∃ k < 8, ramp = k * 10 := by
  obtain ⟨v, -, h⟩ := ok_of_bind h
  split_ifs at h with hmem
  cases h
  have hcases : v = 0 ∨ v = 10 ∨ v = 20 ∨ v = 30 := by simpa using hmem
  exact ⟨v.toNat / 10, by omega, by omega⟩

theorem sound_positionals {pos : List Text} {c' : Wakeup} (hc : c.Sound)
    (h : wakeupPositionals c pos = .ok c') : c'.Sound := by
  cases pos with
  | nil =>
    cases h
    exact hc
  | cons a pos =>
    obtain ⟨areas, hareas, h⟩ := ok_of_bind h
    have ha := sound_areas hareas
    cases pos with
    | nil =>
      cases h
      exact { hc with areas := ha }
    | cons b pos =>
      obtain ⟨bright, hbright, h⟩ := ok_of_bind h
      have hb : bright.toNat < 16 := by
        have hrange := range_of_ok hbright
        omega
      cases pos with
      | nil =>
        cases h
        exact { hc with areas := ha, brightness := hb }
      | cons r pos =>
        obtain ⟨ramp, hramp, h⟩ := ok_of_bind h
        cases h
        exact { hc with areas := ha, brightness := hb, ramp := sound_ramp hramp }

theorem sound_request {value : Text} {last : Dict ℕ} (h : wakeupRequest value last = .ok c) :
    c.Sound := by
  have hbase : ((wakeupConfig (lightingConfig last)).getD wakeupDefault).Sound := by
    cases hcfg : wakeupConfig (lightingConfig last) with
    | none => exact sound_default
    | some c => exact sound_config hcfg
  unfold wakeupRequest at h
  dsimp only at h
  split_ifs at h
  obtain ⟨w, hw, h⟩ := ok_of_bind h
  obtain ⟨hhour, hminute⟩ := sound_words hw ⟨hbase.hour, hbase.minute⟩
  split_ifs at h
  refine sound_positionals ?_ h
  exact ⟨hhour, hminute, hbase.colour, hbase.areas, hbase.brightness, hbase.ramp⟩

/-- The instant, in microseconds. -/
def DateTime.instant (t : DateTime) : ℤ := t.epoch * 1000000 + t.micro

/-- The next time of day after an instant. -/
structure Next (now : DateTime) (hour minute : ℕ) (ts : ℤ) : Prop where
  time : ts % 86400 = hour * 3600 + minute * 60
  after : now.instant < ts * 1000000
  soon : ts * 1000000 ≤ now.instant + 86400 * 1000000
  first : ∀ t : ℤ, t % 86400 = hour * 3600 + minute * 60 → now.instant < t * 1000000 → ts ≤ t

variable {now : DateTime} {ts : ℤ}

theorem next_of_epoch (hh : c.hour < 24) (hm : c.minute < 60)
    (h : nextWakeupEpoch c.hour c.minute now = .ok ts) : Next now c.hour c.minute ts := by
  have hsecond := now.second_lt
  have hmicro := now.micro_lt
  have hpast : now.past c.hour c.minute = true ↔ c.hour * 3600 + c.minute * 60 ≤ now.second := by
    unfold DateTime.past
    rw [decide_eq_true_iff]
    omega
  have hts : (ts = now.day * 86400 + c.hour * 3600 + c.minute * 60 ∧
        now.second < c.hour * 3600 + c.minute * 60) ∨
      ts = (now.day + 1) * 86400 + c.hour * 3600 + c.minute * 60 ∧
        c.hour * 3600 + c.minute * 60 ≤ now.second := by
    unfold nextWakeupEpoch at h
    split_ifs at h with hp hmax
    · cases h
      exact .inr ⟨rfl, hpast.mp hp⟩
    · cases h
      exact .inl ⟨rfl, Nat.not_le.mp fun hle => hp (hpast.mpr hle)⟩
  have hinstant : now.instant = (now.day * 86400 + now.second) * 1000000 + now.micro := rfl
  refine ⟨by omega, by omega, by omega, fun t ht hafter => ?_⟩
  omega

/-- The firmware's time is the same where the frame can hold it, whatever the clock says. -/
theorem nextWakeup_eq (hnext : Next now c.hour c.minute ts) (hpos : 0 ≤ ts) :
    nextWakeup c.hour c.minute now.epoch = ts := by
  have hsecond := now.second_lt
  have hmicro := now.micro_lt
  have htime := hnext.time
  have hafter := hnext.after
  have hsoon := hnext.soon
  have hinstant : now.instant = now.epoch * 1000000 + now.micro := rfl
  have hmod : now.epoch.tmod 86400 = now.epoch % 86400 ∧ (0 ≤ now.epoch ∨ 86400 ∣ now.epoch) ∨
      now.epoch.tmod 86400 = now.epoch % 86400 - 86400 ∧ now.epoch < 0 := by
    rw [Int.tmod_eq_emod]
    split_ifs with hc
    · exact .inl ⟨Int.sub_zero _, hc⟩
    · exact .inr ⟨rfl, Int.not_le.mp (not_or.mp hc).1⟩
  unfold nextWakeup
  dsimp only
  split_ifs with hle
  · omega
  · omega

theorem get_fields {fields : List Field} (hnames : (fields.map (·.name)).Nodup) {g : Field}
    (hg : g ∈ fields) {p : Field → Bool} (hp : p g = true) (q : Field → ℕ) :
    Dict.get ((fields.filter p).map fun f => (f.name, q f)) g.name = some (q g) := by
  induction fields with
  | nil => exact absurd hg List.not_mem_nil
  | cons f fields ih =>
    rw [List.map_cons, List.nodup_cons] at hnames
    rcases List.mem_cons.mp hg with rfl | hg
    · rw [List.filter_cons, if_pos hp, List.map_cons, Dict.get_cons, if_pos rfl]
    · have hne : f.name ≠ g.name := fun he => hnames.1 (he ▸ List.mem_map_of_mem hg)
      rw [List.filter_cons]
      split_ifs
      · rw [List.map_cons, Dict.get_cons, if_neg hne]
        exact ih hnames.2 hg
      · exact ih hnames.2 hg

theorem state_of_control {values : Dict ℤ} {raw : List Byte}
    (h : encodeFor lighting values = .ok (some raw)) {f : Field} (hf : f ∈ lighting.controlFields) :
    (decode lighting raw).get f.name = (decodeControl lighting.table raw).get f.name := by
  have hplace : ∀ f ∈ lighting.controlFields, ∃ g ∈ lighting.stateFields,
      g.name = f.name ∧ g.offset = f.offset ∧ g.width = f.width := by decide
  obtain ⟨g, hg, hname, hoffset, hwidth⟩ := hplace f hf
  obtain ⟨v, -, -, hfit, hbits, hget⟩ := built_bits (by decide) h hf
  rw [hget, ← hname, decode, get_fields (by decide) hg, hoffset, hwidth, hbits]
  rw [hoffset, hwidth]
  exact decide_eq_true hfit

/-- The frame of a wake-up request reads back as what was requested, at the next such time. -/
theorem wakeup_returns {value : Text} {last : Dict ℕ} {raw : List Byte}
    (h : build now "lighting" "wakeup" value last = .ok (some raw)) :
    ∃ c, ∃ ts : ℕ, wakeupRequest value last = .ok c ∧
      (∀ d ∈ [decode lighting raw, decodeControl lighting.table raw],
        wakeupConfig (lightingConfig d) = some c ∧ d.get "Timestamp" = some ts) ∧
      Next now c.hour c.minute ts ∧ nextWakeup c.hour c.minute now.epoch = ts := by
  obtain ⟨b, hb, h⟩ := build_cases h
  obtain rfl := Option.some.inj hb
  have hbuild : buildLighting now "wakeup" value last = (wakeupRequest value last >>= fun c =>
      nextWakeupEpoch c.hour c.minute now >>= fun ts =>
        lightFrame lightUnchanged 20 ts (wakeupLightValue c) (allZones lightUnchanged)) := rfl
  rw [hbuild] at h
  obtain ⟨c, hreq, h⟩ := ok_of_bind h
  obtain ⟨ts, htime, h⟩ := ok_of_bind h
  have hsound := sound_request hreq
  have hnext := next_of_epoch hsound.hour hsound.minute htime
  have hreads := light_reads (keys_tabulated _) h
  obtain ⟨hpos, hts⟩ := hreads.timestamp
  have hcast : (ts.toNat : ℤ) = ts := Int.toNat_of_nonneg hpos
  have hmod : ts.toNat % 86400 = c.hour * 3600 + c.minute * 60 := by
    have htime := hnext.time
    omega
  have hread : ∀ d : Dict ℕ, d.get "Mode" = some 20 → d.get "Timestamp" = some ts.toNat →
      d.get "LightValue" = some (wakeupLightValue c) →
      wakeupConfig (lightingConfig d) = some c ∧ d.get "Timestamp" = some ts.toNat := by
    intro d hmode hts hlv
    have hcfg : lightingConfig d = { latched d with
        wakeupTimestamp := some ts.toNat
        wakeupLightValue := some (wakeupLightValue c) } := by
      unfold lightingConfig
      dsimp only
      rw [hmode, hts, hlv]
      exact if_pos ⟨rfl, rfl, rfl⟩
    exact ⟨hcfg ▸ config_of_packed hsound hmod _, hts⟩
  have hcontrol := hread _ hreads.mode.2 hts hreads.lightValue.2
  refine ⟨c, ts.toNat, hreq, fun d hd => ?_, hcast.symm ▸ hnext,
    (nextWakeup_eq hnext hpos).trans hcast.symm⟩
  rcases List.mem_cons.mp hd with rfl | hd
  · refine hread _ ?_ ?_ ?_
    · exact (state_of_control h (f := ⟨"Mode", 8, 8, some 0,
        some (.oneOf [0, 4, 6, 8, 12, 16, 20, 24, 28])⟩) (by decide)).trans hreads.mode.2
    · exact (state_of_control h (f := ⟨"Timestamp", 16, 32, some 0, none⟩) (by decide)).trans hts
    · exact (state_of_control h (f := ⟨"LightValue", 48, 16, some 0, none⟩) (by decide)).trans
        hreads.lightValue.2
  · rw [List.mem_singleton.mp hd]
    exact hcontrol

/-- A wake-up at seven, asked for on the first midnight. -/
theorem wakeup_returns_seven : ∃ raw,
    build epochStart "lighting" "wakeup" "07:00 on".toList [] = .ok (some raw) ∧
    ∃ c, ∃ ts : ℕ, wakeupRequest "07:00 on".toList [] = .ok c ∧
      (∀ d ∈ [decode lighting raw, decodeControl lighting.table raw],
        wakeupConfig (lightingConfig d) = some c ∧ d.get "Timestamp" = some ts) ∧
      Next epochStart c.hour c.minute ts ∧ nextWakeup c.hour c.minute epochStart.epoch = ts := by
  have hbuild : build epochStart "lighting" "wakeup" "07:00 on".toList [] =
      .ok (some [0x0e, 0x14, 0, 0, 0x62, 0x70, 0x11, 0x01, 0xee, 0xee, 0xee, 0xee, 0xee, 0xee, 0xee,
        0xee]) := by
    decide +kernel
  exact ⟨_, hbuild, wakeup_returns hbuild⟩

end OpenCalifornia.Control
