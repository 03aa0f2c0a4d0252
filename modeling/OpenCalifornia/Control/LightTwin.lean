import OpenCalifornia.Control.BuildTwin

/-! # The lighting builder agrees

The zones of a lighting frame, the preface of a save with a colour, and the commit after each
frame. -/

namespace OpenCalifornia.Control.Firmware
open Lib Lib.Bits Lib.Text

variable {get : Get} {last : Dict ℕ}

theorem zoneFields_eq : zoneFields = caliZoneFields := by decide

theorem realZones_eq : realZones = caliRealZoneFields := by decide

theorem ints_zonesAll (b : ℕ) : ints (zonesAll b) = allZones b := by
  unfold allZones
  rw [zoneFields_eq]
  exact List.map_map

theorem ints_zonesReal (b : ℕ) : ints (zonesReal b) = allRealZones b := by
  unfold allRealZones zonesReal ints
  rw [zoneFields_eq, realZones_eq, List.map_map]
  apply List.map_congr_left
  intro z _
  by_cases hz : z ∈ caliRealZoneFields
  · simp only [Function.comp_apply, if_pos hz]
  · simp only [Function.comp_apply, if_neg hz]
    rfl

theorem zoneSaved_eq (hget : ∀ k, get "lighting" k = last.get k) (z : String) :
    (zoneSaved get z : ℤ) = savedZone last z := by
  unfold zoneSaved savedZone
  rw [hget, realZones_eq]
  cases last.get z with
  | none => rfl
  | some x =>
    have hmax : (x : ℤ) ≤ lightMaxSet ↔ x ≤ caliMaxSet := Int.ofNat_le (n := 11)
    dsimp only
    by_cases hx : z ∈ caliRealZoneFields ∧ x ≤ caliMaxSet
    · have hx' : z ∈ caliRealZoneFields ∧ (x : ℤ) ≤ lightMaxSet := ⟨hx.1, hmax.mpr hx.2⟩
      rw [if_pos hx, if_pos hx']
    · have hx' : ¬ (z ∈ caliRealZoneFields ∧ (x : ℤ) ≤ lightMaxSet) :=
        fun h => hx ⟨h.1, hmax.mp h.2⟩
      rw [if_neg hx, if_neg hx']
      rfl

theorem ints_zonesSaved (hget : ∀ k, get "lighting" k = last.get k) :
    ints (zonesSaved get) = savedZones last := by
  unfold savedZones zonesSaved ints
  rw [zoneFields_eq, List.map_map]
  apply List.map_congr_left
  intro z _
  exact congrArg (Prod.mk z) (zoneSaved_eq hget z)

theorem ctl_lighting : Ctl "lighting" lighting ⟨"lighting", 0x1501, 16⟩ := by
  constructor <;> decide

theorem get_update_of_not_mem {β : Type} {e : Dict β} {k : String} (h : k ∉ e.map Prod.fst)
    (d : Dict β) : (d.update e).get k = d.get k := by
  induction e generalizing d with
  | nil => rfl
  | cons kv e ih =>
    rw [List.map_cons, List.mem_cons, not_or] at h
    have hset : (d.set kv.1 kv.2).get k = d.get k := by rw [Dict.get_set, if_neg (Ne.symm h.1)]
    exact (ih h.2 (d.set kv.1 kv.2)).trans hset

/-- The frame and the commit after it. -/
def committed (data : List Byte) : List Write :=
  [⟨some 0x1501, 0, data⟩, ⟨some 0x1501, followDelay, lightCommit⟩]

theorem addLight_eq {p : List Write} (hp : p.length ≤ 2) {kv : Dict ℕ} {values : Dict ℤ}
    (hs : Same lighting kv values) (hts : ∀ v, kv.get "Timestamp" = some v → v < 2 ^ 32) :
    (addLight p ⟨kv, false⟩).toOption =
      (got (encodeFor lighting values)).map fun data => p ++ committed data := by
  have hmax : maxFrames = 4 := rfl
  have hwide : ∀ c ∈ lightingFunc.ctrlFields, c.width = 32 →
      c.name = "Timestamp" ∧ c.default < 2 ^ 32 := by decide
  have hword : ∀ f, codecFuncByName "lighting" = some f → ∀ c ∈ f.ctrlFields,
      c.width = 32 → ∀ v, c.value kv = some v → v < 2 ^ 32 := by
    intro f hf c hc hw v hv
    have hfunc : codecFuncByName "lighting" = some lightingFunc := by decide
    obtain rfl := Option.some.inj (hf.symm.trans hfunc)
    obtain ⟨hname, hdefault⟩ := hwide c hc hw
    unfold CodecField.value at hv
    rw [hname] at hv
    cases hk : kv.get "Timestamp" with
    | some w =>
      rw [hk] at hv
      exact Option.some.inj hv ▸ hts w hk
    | none =>
      rw [hk] at hv
      obtain ⟨-, hv⟩ := Option.ite_none_right_eq_some.mp hv
      exact Option.some.inj hv ▸ hdefault
  have hp4 : p.length ≠ maxFrames := by
    rw [hmax]
    omega
  have hp3 : ∀ w : Write, (p ++ [w]).length ≠ maxFrames := by
    intro w
    rw [hmax, List.length_append, List.length_singleton]
    omega
  have hadd := add_eq ctl_lighting hp4 hs hword 0
  unfold addLight
  rw [toOption_bind, hadd]
  cases got (encodeFor lighting values) with
  | none => rfl
  | some data =>
    rw [Option.map_some, Option.bind_some]
    unfold addCommit
    rw [if_neg (hp3 _), List.append_assoc]
    rfl

def lightHead (pn mode timestamp lightValue : ℕ) : Dict ℕ :=
  [("ProfileNumber", pn), ("Mode", mode), ("Timestamp", timestamp), ("LightValue", lightValue)]

theorem lightFrame_eq (pn mode timestamp lightValue : ℕ) (zones : Dict ℤ) :
    lightFrame pn mode timestamp lightValue zones =
      encodeFor lighting (Dict.update (ints (lightHead pn mode timestamp lightValue)) zones) := rfl

theorem same_lightHead (pn mode timestamp lightValue : ℕ) :
    Same lighting (Dict.update [] (lightHead pn mode timestamp lightValue))
      (ints (lightHead pn mode timestamp lightValue)) := by
  have hkeys : (lightHead pn mode timestamp lightValue).map Prod.fst =
      ["ProfileNumber", "Mode", "Timestamp", "LightValue"] := rfl
  apply Same.ints
  rw [hkeys]
  decide

theorem lightVals_eq (pn mode timestamp lightValue : ℕ) {zones : Dict ℕ} (hz : zones.length ≤ 16) :
    lightVals pn mode timestamp lightValue zones =
      ⟨(Dict.update [] (lightHead pn mode timestamp lightValue)).update zones, false⟩ := by
  have hmax : kvMax = 64 := rfl
  have hlen := length_update [] (lightHead pn mode timestamp lightValue)
  have hfour : ([] : Dict ℕ).length + (lightHead pn mode timestamp lightValue).length = 4 := rfl
  have hhead : reset.puts (lightHead pn mode timestamp lightValue) =
      ⟨Dict.update [] (lightHead pn mode timestamp lightValue), false⟩ := puts_eq (by omega)
  show (reset.puts (lightHead pn mode timestamp lightValue)).puts zones = _
  rw [hhead]
  exact puts_eq (by omega)

theorem get_lightHead (pn mode lightValue : ℕ) {timestamp : ℕ} {zones : Dict ℕ}
    (hz : zones.map Prod.fst = caliZoneFields) {v : ℕ}
    (hv : ((Dict.update [] (lightHead pn mode timestamp lightValue)).update zones).get
      "Timestamp" = some v) : v = timestamp := by
  have hno : "Timestamp" ∉ zones.map Prod.fst := by
    rw [hz]
    decide
  rw [get_update_of_not_mem hno] at hv
  have hhead : (Dict.update [] (lightHead pn mode timestamp lightValue)).get "Timestamp" =
      some timestamp := rfl
  exact (Option.some.inj (hhead.symm.trans hv)).symm

theorem light_eq {p : List Write} (hp : p.length ≤ 2) (pn mode lightValue : ℕ) {timestamp : ℕ}
    (hts : timestamp < 2 ^ 32) {zones : Dict ℕ} (hz : zones.map Prod.fst = caliZoneFields) :
    (addLight p (lightVals pn mode timestamp lightValue zones)).toOption =
      (got (lightFrame pn mode timestamp lightValue (ints zones))).map fun data =>
        p ++ committed data := by
  have hlen : zones.length = 16 := (List.length_map _).symm.trans (congrArg List.length hz)
  rw [lightVals_eq _ _ _ _ hlen.le, lightFrame_eq]
  exact addLight_eq hp ((same_lightHead _ _ _ _).update zones) fun v hv =>
    get_lightHead pn mode lightValue hz hv ▸ hts

theorem keys_zonesAll (b : ℕ) : (zonesAll b).map Prod.fst = caliZoneFields := List.map_map

theorem keys_zonesReal (b : ℕ) : (zonesReal b).map Prod.fst = caliZoneFields := List.map_map

theorem keys_zonesSaved (get : Get) : (zonesSaved get).map Prod.fst = caliZoneFields := List.map_map

theorem brightness_eq {value : Text} (hl : value.length < valueMax) :
    (brightness value).toOption = intRange value 0 caliMaxSet := by
  rw [← intRange_eq "" hl (by decide) (by decide)]
  unfold brightness Control.intRange
  rw [toOption_bind, toOption_bind]
  congr 1
  funext b
  have hmax : lightMaxSet = (caliMaxSet : ℤ) := rfl
  rw [hmax]
  split_ifs <;> rfl

theorem saveArgs_bounds {value : Text} {r : ℤ × Option ℕ} (h : saveArgs value = some r) :
    1 ≤ r.1 ∧ r.1 ≤ 7 := by
  unfold saveArgs at h
  split at h
  · cases h
  split at h
  · obtain ⟨n, hn, rfl⟩ := Option.map_eq_some_iff.mp h
    exact intRange_bounds hn
  · split_ifs at h
    obtain ⟨n, hn, h⟩ := Option.bind_eq_some_iff.mp h
    obtain ⟨colour, -, h⟩ := Option.bind_eq_some_iff.mp h
    cases h
    exact intRange_bounds hn

theorem zoneField_eq (what : String) : zoneField what = (lightZones.get what).getD what := rfl

theorem keys_set {β : Type} {d : Dict β} {k : String} (h : k ∈ d.map Prod.fst) (v : β) :
    (d.set k v).map Prod.fst = d.map Prod.fst := by
  induction d with
  | nil => exact absurd h List.not_mem_nil
  | cons kv d ih =>
    obtain ⟨k', w⟩ := kv
    by_cases hk : k' = k
    · simp [Dict.set, hk]
    · have hm : k ∈ d.map Prod.fst := by
        cases List.mem_cons.mp h with
        | inl he => exact absurd he.symm hk
        | inr hm => exact hm
      simp [Dict.set, hk, ih hm]

theorem zone_eq {what : String} (hz : zoneField what ∈ caliZoneFields) {n : ℤ} (hn : 0 ≤ n) :
    (addLight [] ((lightVals 9 4 0 0 (zonesAll caliUnchanged)).puts
      [(zoneField what, n.toNat)])).toOption =
      (got (lightFrame 9 4 0 0 (Dict.update (allZones lightUnchanged)
        [(zoneField what, n)]))).map committed := by
  set z := zoneField what with hzdef
  set head := lightHead 9 4 0 0 with hhead
  set zones := zonesAll caliUnchanged with hzones
  have hkeys : zones.map Prod.fst = caliZoneFields := keys_zonesAll _
  have hlen : zones.length = 16 := (List.length_map _).symm.trans (congrArg List.length hkeys)
  have hints : ints zones = allZones lightUnchanged := ints_zonesAll caliUnchanged
  have hnodup : ((allZones lightUnchanged).map Prod.fst).Nodup := by decide
  have hmem : z ∈ (allZones lightUnchanged).map Prod.fst := by
    rw [← hints]
    have hsame : (ints zones).map Prod.fst = zones.map Prod.fst := List.map_map
    rw [hsame, hkeys]
    exact hz
  have hsame : Same lighting (((Dict.update [] head).update zones).update [(z, n.toNat)])
      ((ints head).update (Dict.update (allZones lightUnchanged) [(z, n)])) := by
    intro p hp
    rw [← ((same_lightHead 9 4 0 0).update zones).update [(z, n.toNat)] p hp, ints_one hn, hints]
    have hset : ((Dict.update (allZones lightUnchanged) [(z, n)]).map Prod.fst).Nodup := by
      have hk := keys_set hmem n
      exact (congrArg List.Nodup hk).mpr hnodup
    have hone : (([(z, n)] : Dict ℤ).map Prod.fst).Nodup := List.nodup_singleton z
    unfold given
    rw [Dict.get_update hset, Dict.get_update hone, Dict.get_update hone, Dict.get_update hnodup,
      ← hhead]
    simp only [Option.or_assoc]
  have hts : ∀ v, (((Dict.update [] head).update zones).update [(z, n.toNat)]).get "Timestamp" =
      some v → v < 2 ^ 32 := by
    intro v hv
    have hno : "Timestamp" ∉ ([(z, n.toNat)] : Dict ℕ).map Prod.fst := by
      intro hm
      have he : "Timestamp" = z := List.mem_singleton.mp hm
      exact absurd (he ▸ hz) (by decide)
    rw [get_update_of_not_mem hno] at hv
    rw [get_lightHead 9 4 0 hkeys hv]
    decide
  have hvals : (lightVals 9 4 0 0 zones).puts [(z, n.toNat)] =
      ⟨((Dict.update [] head).update zones).update [(z, n.toNat)], false⟩ := by
    have hmax : kvMax = 64 := rfl
    have h₁ := length_update [] head
    have h₂ := length_update (Dict.update [] head) zones
    have hfour : ([] : Dict ℕ).length + head.length = 4 := rfl
    rw [lightVals_eq _ _ _ _ hlen.le, ← hhead]
    exact puts_eq (by rw [List.length_singleton, hmax]; omega)
  rw [hvals]
  exact addLight_eq (Nat.zero_le _) hsame hts

/-- What the Python side writes for a lighting command. -/
def lightWrites (now : DateTime) (what : String) (value : Text) (last : Dict ℕ) :
    Option (List Write) :=
  (got (buildLighting now what value last)).bind fun frame =>
    (prefaceFor "lighting" what value last).toOption.map fun preface =>
      actuate lighting frame (commitFor "lighting") preface

theorem lightWrites_plain {now : DateTime} {what : String} (h : what ≠ "save_profile")
    (value : Text) (last : Dict ℕ) : lightWrites now what value last =
      (got (buildLighting now what value last)).map committed := by
  have hpre : prefaceFor "lighting" what value last = .ok none := if_pos (.inr h)
  unfold lightWrites
  rw [hpre]
  cases got (buildLighting now what value last) <;> rfl

theorem unchanged_eq {pn mode lightValue : ℕ} {p : List Write} (hp : p.length ≤ 2) {timestamp : ℕ}
    (hts : timestamp < 2 ^ 32) :
    (addLight p (lightVals pn mode timestamp lightValue (zonesAll caliUnchanged))).toOption =
      (got (lightFrame pn mode timestamp lightValue (allZones lightUnchanged))).map fun data =>
        p ++ committed data := by
  have hlight := light_eq hp pn mode lightValue hts (keys_zonesAll caliUnchanged)
  rw [ints_zonesAll] at hlight
  exact hlight

theorem toNat_cast {n : ℤ} (hn : 0 ≤ n) : (n.toNat : ℤ) = n := Int.toNat_of_nonneg hn

theorem lightFrame_toOption (pn mode timestamp lightValue : ℤ) (zones : Dict ℤ) :
    (lightFrame pn mode timestamp lightValue zones).toOption =
      (got (lightFrame pn mode timestamp lightValue zones)).map some := by
  unfold lightFrame
  rw [got_encodeFor lighting _ (n := 16) (by decide)]
  unfold encodeFor
  have hsize : (controlFrameBytes.get lighting.name).getD 0 = 16 := by decide
  rw [hsize]
  cases encode lighting _ 16 <;> rfl

theorem saveProfile_eq {now : DateTime} {value : Text} (hc : Clean value)
    (hl : value.length < valueMax) (hget : ∀ k, get "lighting" k = last.get k) :
    (bLighting "save_profile" value get).toOption = lightWrites now "save_profile" value last := by
  have hbuild : buildLighting now "save_profile" value last =
      (saveProfileArgs value >>= fun args => lightFrame args.1 4 0 0 (savedZones last)) := rfl
  have hpre : prefaceFor "lighting" "save_profile" value last =
      (saveProfileArgs value >>= fun args =>
        args.2.elim (.ok none) fun idx => lightFrame args.1 6 0 idx (savedZones last)) := by
    refine congrArg (saveProfileArgs value >>= ·) (funext fun args => ?_)
    cases args.2 <;> rfl
  have hplan : bLighting "save_profile" value get = (orBad (saveArgs value) >>= fun args =>
      addPreface args.1 args.2 get >>= fun p =>
        addLight p (lightVals args.1.toNat 4 0 0 (zonesSaved get))) := rfl
  unfold lightWrites
  rw [hplan, hbuild, hpre, orBad_bind, got_bind, toOption_bind, saveArgs_eq hc hl]
  cases hargs : saveArgs value with
  | none => rfl
  | some args =>
    obtain ⟨n, colour⟩ := args
    have hn : 0 ≤ n := (saveArgs_bounds hargs).1.trans' (by decide)
    have hframe : ∀ {p : List Write}, p.length ≤ 2 → ∀ mode lightValue : ℕ,
        (addLight p (lightVals n.toNat mode 0 lightValue (zonesSaved get))).toOption =
          (got (lightFrame n mode 0 lightValue (savedZones last))).map fun data =>
            p ++ committed data := by
      intro p hp mode lightValue
      have hlight := light_eq hp n.toNat mode lightValue (by decide : 0 < 2 ^ 32)
        (keys_zonesSaved get)
      rw [ints_zonesSaved hget, toNat_cast hn] at hlight
      exact hlight
    simp only [Option.map_some, Option.bind_some]
    rw [toOption_bind]
    cases colour with
    | none =>
      have hnone : (addPreface n none get).toOption = some [] := rfl
      rw [hnone, Option.bind_some, hframe (Nat.zero_le _) 4 0]
      simp only [Option.map_none]
      cases got (lightFrame n _ 0 _ (savedZones last)) <;> rfl
    | some idx =>
      have hsome : (addPreface n (some idx) get).toOption =
          (got (lightFrame n 6 0 idx (savedZones last))).map committed :=
        hframe (Nat.zero_le _) 6 idx
      rw [hsome]
      simp only [Option.map_some, Option.elim_some]
      rw [lightFrame_toOption]
      cases got (lightFrame n 6 0 idx (savedZones last)) with
      | none =>
        rw [Option.map_none, Option.bind_none]
        cases got (lightFrame n 4 0 0 (savedZones last)) <;> rfl
      | some preface =>
        rw [Option.map_some, Option.bind_some, hframe (le_refl 2) 4 0]
        cases got (lightFrame n _ 0 _ (savedZones last)) <;> rfl

theorem bLighting_eq {now : DateTime} {what : String} {value : Text} (hc : Clean value)
    (hl : value.length < valueMax) (hget : ∀ k, get "lighting" k = last.get k)
    (hb : what ≠ "brightness") (hw : what ≠ "wakeup") :
    (bLighting what value get).toOption = lightWrites now what value last := by
  by_cases h₁ : what = "save_profile"
  · rw [h₁]
    exact saveProfile_eq hc hl hget
  have hempty : ([] : List Write).length ≤ 2 := Nat.zero_le 2
  have hzero : 0 < 2 ^ 32 := by decide
  rw [lightWrites_plain h₁]
  unfold bLighting buildLighting
  by_cases h₂ : what = "profile"
  · rw [if_pos h₂, if_pos h₂, orBad_bind, got_bind,
      intRange_eq "lighting profile" hl (by decide) (by decide)]
    cases hr : intRange value 0 13 with
    | none => rfl
    | some n =>
      have hn : 0 ≤ n := (intRange_bounds hr).1
      rw [Option.bind_some]
      by_cases h8 : n = lightProfileDoorContact
      · have hfalse : ¬ decide (n ≠ (caliDoorContact : ℤ)) = true := by
          rw [h8]
          decide
        rw [if_pos h8, Option.filter_some, if_neg hfalse]
        rfl
      · have htrue : decide (n ≠ (caliDoorContact : ℤ)) = true := decide_eq_true h8
        have hlight : (addLight [] (lightVals n.toNat 16 0 0 (zonesAll caliUnchanged))).toOption =
            (got (lightFrame n.toNat 16 0 0 (allZones lightUnchanged))).map committed :=
          unchanged_eq hempty hzero
        rw [toNat_cast hn] at hlight
        rw [if_neg h8, Option.filter_some, if_pos htrue, Option.bind_some]
        exact hlight
  rw [if_neg h₂, if_neg h₂, if_neg h₁, if_neg h₁]
  by_cases h₃ : what = "door_contact"
  · rw [if_pos h₃, if_pos h₃, orBad_bind, got_bind, onoff_eq hc hl]
    cases (truthy value).toOption with
    | none => rfl
    | some on =>
      rw [Option.bind_some, Option.bind_some]
      refine (unchanged_eq hempty hzero).trans ?_
      cases on <;> rfl
  rw [if_neg h₃, if_neg h₃, if_neg hw]
  by_cases h₄ : what = "power"
  · rw [if_pos h₄, if_pos h₄, orBad_bind, got_bind, onoff_eq hc hl]
    cases (truthy value).toOption with
    | none => rfl
    | some on =>
      rw [Option.bind_some, Option.bind_some]
      refine (unchanged_eq hempty hzero).trans ?_
      cases on <;> rfl
  rw [if_neg h₄, if_neg h₄]
  by_cases h₅ : what = "all"
  · have hall : what = "all" ∨ what = "brightness" := .inl h₅
    rw [if_pos h₅, if_pos hall, orBad_bind, got_bind, brightness_eq hl]
    cases hr : intRange value 0 caliMaxSet with
    | none => rfl
    | some n =>
      have hlight := light_eq hempty 9 4 0 hzero (keys_zonesReal n.toNat)
      rw [ints_zonesReal, toNat_cast (intRange_bounds hr).1] at hlight
      rw [Option.bind_some, Option.bind_some]
      exact hlight
  have hall : ¬ (what = "all" ∨ what = "brightness") := fun h => h.elim h₅ hb
  rw [if_neg h₅, if_neg hall]
  by_cases h₆ : what = "color"
  · have hcolor : what = "color" ∨ zoneField what ∉ caliZoneFields := .inl h₆
    rw [if_pos hcolor, if_pos h₆]
    rfl
  dsimp only
  rw [if_neg h₆, ← zoneField_eq, zoneFields_eq]
  by_cases h₇ : zoneField what ∉ caliZoneFields
  · have hcolor : what = "color" ∨ zoneField what ∉ caliZoneFields := .inr h₇
    rw [if_pos hcolor, if_pos h₇]
    rfl
  · have hcolor : ¬ (what = "color" ∨ zoneField what ∉ caliZoneFields) := fun h => h.elim h₆ h₇
    rw [if_neg hcolor, if_neg h₇, orBad_bind, got_bind, brightness_eq hl]
    cases hr : intRange value 0 caliMaxSet with
    | none => rfl
    | some n => exact zone_eq (not_not.mp h₇) (intRange_bounds hr).1

end OpenCalifornia.Control.Firmware
