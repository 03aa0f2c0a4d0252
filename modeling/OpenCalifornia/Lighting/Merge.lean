import OpenCalifornia.Control.Semantics

/-! # The served lighting state

A 1502 frame is either a report of the lamps or a message about the configuration. The daemon
folds the frames into one decode: the lamps of the last report, and the configuration keys of all
frames. -/

namespace OpenCalifornia.Lighting
open Lib Lib.Bits Control

/-- What a frame itself configures, over the carried keys. -/
def ownConfig (out : LightConfig) (frame : Dict ℕ) : LightConfig :=
  let mode := frame.get "Mode"
  let pn := frame.get "ProfileNumber"
  let lv := frame.get "LightValue"
  let ts := frame.get "Timestamp"
  if mode = some 20 ∧ lv.isSome ∧ ts.isSome then
    { out with wakeupTimestamp := ts, wakeupLightValue := lv }
  else if mode = some 16 ∧ pn = some 8 ∧ lv.isSome then { out with doorContact := lv }
  else if mode = some 12 ∧ lv.isSome ∧ pn ≠ some 13 then
    { out with favouritesStored := lv.map (· &&& 0x7f) }
  else if mode = some 4 ∧ pn.any (fun n => 1 ≤ n ∧ n ≤ 7) ∧ out.favouritesStored.isSome then
    { out with favouritesStored := out.favouritesStored.map (· ||| 1 <<< (pn.getD 0 - 1)) }
  else out

/-- The known keys of two decodes, the second one's first. -/
def carried (prev frame : Dict ℕ) : LightConfig where
  wakeupTimestamp := (frame.get "WakeupTimestamp").or (prev.get "WakeupTimestamp")
  wakeupLightValue := (frame.get "WakeupLightValue").or (prev.get "WakeupLightValue")
  doorContact := (frame.get "DoorContact").or (prev.get "DoorContact")
  favouritesStored := (frame.get "FavouritesStored").or (prev.get "FavouritesStored")

def lightingConfig (prev : Option (Dict ℕ)) (frame : Dict ℕ) : LightConfig :=
  ownConfig (carried (prev.getD []) frame) frame

def lightingReportsState (frame : Dict ℕ) : Bool :=
  let mode := frame.get "Mode"
  let pn := frame.get "ProfileNumber"
  if mode = some 4 then ¬ pn.any fun n => 1 ≤ n ∧ n ≤ 7
  else mode = some 16 ∧ pn ≠ some 8

def lightingMerge (prev : Option (Dict ℕ)) (frame : Dict ℕ) : Dict ℕ :=
  let base :=
    match prev with
    | some p =>
      if p ≠ [] ∧ lightingReportsState p ∧ ¬ lightingReportsState frame then p else frame
    | none => frame
  base.update (lightingConfig prev frame).keys

/-- One frame into the served decode, as `interpret_frames` does. -/
def serve (prev : Option (Dict ℕ)) (raw : List Byte) : Option (Dict ℕ) :=
  some (lightingMerge prev (decode lighting raw))

theorem get_entry (k k' : String) (v : Option ℕ) :
    Dict.get (entry k v) k' = if k = k' then v else none := by
  cases v with
  | none => simp [entry]
  | some x => simp [entry]

def lightConfigKeys : List String :=
  ["WakeupTimestamp", "WakeupLightValue", "DoorContact", "FavouritesStored"]

theorem get_keys_eq_none {k : String} (h : k ∉ lightConfigKeys) (c : LightConfig) :
    c.keys.get k = none := by
  simp only [lightConfigKeys, List.mem_cons, not_or] at h
  obtain ⟨h₁, h₂, h₃, h₄, -⟩ := h
  simp [LightConfig.keys, Dict.get_append, get_entry, Ne.symm h₁, Ne.symm h₂, Ne.symm h₃,
    Ne.symm h₄]

@[simp] theorem latched_keys (c : LightConfig) : latched c.keys = c := by
  simp [latched, LightConfig.keys, Dict.get_append, get_entry]

theorem keys_get {c : LightConfig} {d : Dict ℕ} (h : latched d = c) {k : String}
    (hk : k ∈ lightConfigKeys) : c.keys.get k = d.get k := by
  subst h
  simp only [lightConfigKeys, List.mem_cons, List.not_mem_nil, or_false] at hk
  rcases hk with rfl | rfl | rfl | rfl <;>
    simp [LightConfig.keys, Dict.get_append, get_entry, latched]

theorem keys_nodup (c : LightConfig) : (c.keys.map Prod.fst).Nodup := by
  obtain ⟨a, b, d, e⟩ := c
  cases a <;> cases b <;> cases d <;> cases e <;> simp [LightConfig.keys, entry]

theorem not_mem_names {raw : List Byte} {k : String} (hk : k ∈ lightConfigKeys) :
    (decode lighting raw).get k = none := by
  rw [Dict.get_eq_none]
  intro h
  have hname : k ∈ lighting.stateFields.map (·.name) := by
    obtain ⟨kv, hkv, rfl⟩ := List.mem_map.mp h
    obtain ⟨f, hf, rfl⟩ := List.mem_map.mp hkv
    exact List.mem_map.mpr ⟨f, List.mem_of_mem_filter hf, rfl⟩
  have hnot : ∀ k ∈ lightConfigKeys, k ∉ lighting.stateFields.map (·.name) := by decide
  exact hnot k hk hname

theorem ownConfig_none (out : LightConfig) (frame : Dict ℕ) :
    ((ownConfig out frame).wakeupTimestamp = none → out.wakeupTimestamp = none) ∧
    ((ownConfig out frame).wakeupLightValue = none → out.wakeupLightValue = none) ∧
    ((ownConfig out frame).doorContact = none → out.doorContact = none) ∧
    ((ownConfig out frame).favouritesStored = none → out.favouritesStored = none) := by
  unfold ownConfig
  dsimp only
  split_ifs with h₁ h₂ h₃ h₄
  · obtain ⟨-, hl, ht⟩ := h₁
    refine ⟨fun h => ?_, fun h => ?_, id, id⟩
    · exact absurd ht (Option.not_isSome_iff_eq_none.mpr h)
    · exact absurd hl (Option.not_isSome_iff_eq_none.mpr h)
  · obtain ⟨-, -, hl⟩ := h₂
    refine ⟨id, id, fun h => ?_, id⟩
    exact absurd hl (Option.not_isSome_iff_eq_none.mpr h)
  · obtain ⟨-, hl, -⟩ := h₃
    refine ⟨id, id, id, fun h => ?_⟩
    exact absurd hl (Option.not_isSome_iff_eq_none.mpr (Option.map_eq_none_iff.mp h))
  · exact ⟨id, id, id, fun h => Option.map_eq_none_iff.mp h⟩
  · exact ⟨id, id, id, id⟩

theorem latched_congr {d e : Dict ℕ} (h : ∀ k ∈ lightConfigKeys, d.get k = e.get k) :
    latched d = latched e := by
  unfold latched
  rw [h "WakeupTimestamp" (by decide), h "WakeupLightValue" (by decide),
    h "DoorContact" (by decide), h "FavouritesStored" (by decide)]

theorem config_keeps (prev : Option (Dict ℕ)) (frame : Dict ℕ) {k : String}
    (hk : k ∈ lightConfigKeys) (h : (lightingConfig prev frame).keys.get k = none) :
    (prev.getD []).get k = none ∧ frame.get k = none := by
  obtain ⟨h₁, h₂, h₃, h₄⟩ := ownConfig_none (carried (prev.getD []) frame) frame
  simp only [lightConfigKeys, List.mem_cons, List.not_mem_nil, or_false] at hk
  rcases hk with rfl | rfl | rfl | rfl <;>
    simp [LightConfig.keys, Dict.get_append, get_entry] at h
  · exact (Option.or_eq_none_iff.mp (h₁ h)).symm
  · exact (Option.or_eq_none_iff.mp (h₂ h)).symm
  · exact (Option.or_eq_none_iff.mp (h₃ h)).symm
  · exact (Option.or_eq_none_iff.mp (h₄ h)).symm

theorem latched_merge (prev : Option (Dict ℕ)) (frame : Dict ℕ) :
    latched (lightingMerge prev frame) = lightingConfig prev frame := by
  rw [← latched_keys (lightingConfig prev frame)]
  apply latched_congr
  intro k hk
  unfold lightingMerge
  rw [Dict.get_update (keys_nodup _)]
  cases hc : (lightingConfig prev frame).keys.get k with
  | some v => rfl
  | none =>
    obtain ⟨hp, hf⟩ := config_keeps prev frame hk hc
    cases prev with
    | none => exact hf
    | some p =>
      dsimp only [Option.getD_some] at hp ⊢
      split_ifs
      · exact hp
      · exact hf

theorem get_merge (prev : Option (Dict ℕ)) (frame : Dict ℕ) {k : String}
    (hk : k ∉ lightConfigKeys) :
    (lightingMerge prev frame).get k =
      if lightingReportsState (prev.getD []) ∧ ¬ lightingReportsState frame
      then (prev.getD []).get k else frame.get k := by
  unfold lightingMerge
  rw [Dict.get_update (keys_nodup _), get_keys_eq_none hk, Option.none_or]
  cases prev with
  | none => simp [lightingReportsState]
  | some p =>
    dsimp only [Option.getD_some]
    cases p with
    | nil => simp [lightingReportsState]
    | cons kv p =>
      simp only [ne_eq, reduceCtorEq, not_false_eq_true, true_and]
      split_ifs <;> rfl

theorem lightingReportsState_congr {d e : Dict ℕ} (hm : d.get "Mode" = e.get "Mode")
    (hp : d.get "ProfileNumber" = e.get "ProfileNumber") :
    lightingReportsState d = lightingReportsState e := by
  unfold lightingReportsState
  rw [hm, hp]

end OpenCalifornia.Lighting
