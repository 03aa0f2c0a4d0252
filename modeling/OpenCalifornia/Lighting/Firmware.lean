import OpenCalifornia.Control.CodecTwin
import OpenCalifornia.Control.Planner
import OpenCalifornia.Lighting.Merge

/-! # The satellite's lighting frames

The session keeps one raw 1502 frame and two latches of the configuration, one across links and
one for this link. Together they stand for the decode that the daemon serves. -/

namespace OpenCalifornia.Lighting.Firmware
open Lib Lib.Bits Control Control.Firmware

/-- What the session stores of the lighting function. -/
structure LightStore where
  frame : Option (List Byte) := none
  live : Bool := false
  shown : LightConfig := {}
  gated : LightConfig := {}
  deriving DecidableEq, Repr

/-- The fields of a frame. -/
def lightKv (raw : List Byte) : Dict ℕ :=
  match codecFuncByName "lighting" with
  | some f => codecDecode f raw
  | none => []

/-- `lcfg_get`: the previous latch, then the new frame. -/
def lcfgGet (prev : LightConfig) (kv : Dict ℕ) : Get :=
  fun _ field => (prev.keys.get field).or (kv.get field)

def caliLightReportsState (get : Get) : Bool :=
  match get "lighting" "Mode" with
  | none => false
  | some mode =>
    let pn := get "lighting" "ProfileNumber"
    if mode = 4 then ¬ pn.any fun n => 1 ≤ n ∧ n ≤ 7
    else mode = 16 ∧ pn ≠ some caliDoorContact

/-- `lkv_get` over a frame, and the verdict on it. -/
def reportsState (raw : List Byte) : Bool :=
  caliLightReportsState fun _ field => (lightKv raw).get field

/-- `latch_lighting`, the two latches. -/
def latchLighting (data : List Byte) (s : LightStore) : LightStore :=
  { s with
    shown := lightCfg (lcfgGet s.shown (lightKv data))
    gated := lightCfg (lcfgGet s.gated (lightKv data)) }

/-- The frame that is stored after `data`. -/
def keptFrame (stored : Option (List Byte)) (data : List Byte) : Option (List Byte) :=
  if ¬ reportsState data ∧ stored.any reportsState then stored else some data

/-- `store`, for the lighting characteristic. -/
def storeLighting (raw : List Byte) (s : LightStore) : LightStore :=
  let data := raw.take frameMax
  { latchLighting data s with frame := keptFrame s.frame data, live := true }

/-- `link_up`: what an earlier link left stays shown, never gated on. -/
def linkUp (s : LightStore) : LightStore := { s with live := false, gated := {} }

inductive LightEvent
  | linkUp
  | frame (raw : List Byte)

def LightEvent.apply (s : LightStore) : LightEvent → LightStore
  | .linkUp => Firmware.linkUp s
  | .frame raw => storeLighting raw s

def run (evs : List LightEvent) : LightStore := evs.foldl LightEvent.apply {}

/-- The lighting object of `cali_snapshot_fn`. -/
def snapshot (s : LightStore) : Dict ℕ :=
  match s.frame with
  | some raw => lightKv raw ++ s.shown.keys
  | none => []

/-- `get_field` of `control_run.c`, for the lighting function. -/
def ctlGet (s : LightStore) : Get := fun _ field =>
  match s.gated.keys.get field with
  | some v => some v
  | none => if s.live then s.frame.bind fun raw => (lightKv raw).get field else none

/-- The 1502 frames among the events. -/
def frames (evs : List LightEvent) : List (List Byte) :=
  evs.filterMap fun
    | .frame raw => some raw
    | .linkUp => none

/-- The decode that the daemon serves after these frames. -/
def served (raws : List (List Byte)) : Dict ℕ := (raws.foldl serve none).getD []

theorem lightKv_eq (raw : List Byte) : lightKv raw = decode lighting raw := by
  obtain ⟨f, hf, hsame⟩ := @tables_twin lighting (by decide)
  have hname : codecFuncByName "lighting" = some f := hf
  unfold lightKv
  rw [hname]
  exact codecDecode_eq raw hsame.state

/-- The buffer of the session holds all of a lighting frame that the decoders read. -/
theorem lightKv_take (raw : List Byte) : lightKv (raw.take frameMax) = decode lighting raw := by
  rw [lightKv_eq]
  exact decode_take lighting (by decide) raw

theorem lightCfg_eq {get : Get} {d : Dict ℕ} (h : ∀ k, get "lighting" k = d.get k) :
    lightCfg get = Control.lightingConfig d := by
  unfold lightCfg Control.lightingConfig
  simp only [h, latched]
  cases d.get "Mode" with
  | none => simp
  | some mode => simp [caliDoorContact]

theorem lightingConfig_eq_own (d : Dict ℕ) :
    Control.lightingConfig d = ownConfig (latched d) d := rfl

theorem lightingConfig_none (d : Dict ℕ) : lightingConfig none d = Control.lightingConfig d := by
  rw [lightingConfig_eq_own, lightingConfig]
  congr 1
  simp [carried, latched]

theorem ownConfig_congr (out : LightConfig) {d e : Dict ℕ}
    (h : ∀ k, k ∉ lightConfigKeys → d.get k = e.get k) : ownConfig out d = ownConfig out e := by
  unfold ownConfig
  rw [h "Mode" (by decide), h "ProfileNumber" (by decide), h "LightValue" (by decide),
    h "Timestamp" (by decide)]

theorem lightCfg_lcfgGet {c : LightConfig} {prev : Option (Dict ℕ)}
    (hc : latched (prev.getD []) = c) (raw : List Byte) :
    lightCfg (lcfgGet c (decode lighting raw)) = lightingConfig prev (decode lighting raw) := by
  have hget : ∀ k, lcfgGet c (decode lighting raw) "lighting" k =
      Dict.get (c.keys ++ decode lighting raw) k := fun k => (Dict.get_append _ _ _).symm
  have hkeys : ∀ k ∈ lightConfigKeys,
      Dict.get (c.keys ++ decode lighting raw) k = c.keys.get k := by
    intro k hk
    rw [Dict.get_append, not_mem_names hk, Option.or_none]
  have hrest : ∀ k, k ∉ lightConfigKeys →
      Dict.get (c.keys ++ decode lighting raw) k = (decode lighting raw).get k := by
    intro k hk
    rw [Dict.get_append, get_keys_eq_none hk, Option.none_or]
  have hcarried : carried (prev.getD []) (decode lighting raw) = c := by
    rw [← hc]
    unfold carried latched
    rw [not_mem_names (k := "WakeupTimestamp") (by decide),
      not_mem_names (k := "WakeupLightValue") (by decide),
      not_mem_names (k := "DoorContact") (by decide),
      not_mem_names (k := "FavouritesStored") (by decide)]
    rfl
  rw [lightCfg_eq hget, lightingConfig_eq_own, latched_congr hkeys, latched_keys,
    ownConfig_congr c hrest, lightingConfig, hcarried]

theorem reportsState_eq (raw : List Byte) :
    reportsState raw = lightingReportsState (decode lighting raw) := by
  unfold reportsState caliLightReportsState lightingReportsState
  rw [lightKv_eq]
  dsimp only
  cases (decode lighting raw).get "Mode" with
  | none => rfl
  | some mode =>
    dsimp only
    by_cases h₄ : mode = 4
    · rw [if_pos h₄, if_pos (congrArg some h₄)]
    · rw [if_neg h₄, if_neg (mt Option.some.inj h₄)]
      exact decide_eq_decide.mpr (and_congr_left' (Option.some_inj.symm))

theorem reportsState_take (raw : List Byte) :
    reportsState (raw.take frameMax) = lightingReportsState (decode lighting raw) := by
  rw [reportsState_eq, ← lightKv_eq, lightKv_take]

/-- A stored frame and a latch that stand for a served decode. -/
structure Stands (frame : Option (List Byte)) (latch : LightConfig) (d : Option (Dict ℕ)) :
    Prop where
  have_frame : frame.isSome = d.isSome
  fields : ∀ raw ∈ frame, ∀ k, k ∉ lightConfigKeys →
    (decode lighting raw).get k = (d.getD []).get k
  config : latched (d.getD []) = latch

theorem Stands.reports {frame : Option (List Byte)} {latch : LightConfig} {d : Option (Dict ℕ)}
    (h : Stands frame latch d) : frame.any reportsState = lightingReportsState (d.getD []) := by
  cases frame with
  | none =>
    have hd : d = none := by simpa using h.have_frame.symm
    simp [hd, lightingReportsState]
  | some raw =>
    rw [Option.any_some, reportsState_eq]
    exact lightingReportsState_congr (h.fields raw rfl "Mode" (by decide))
      (h.fields raw rfl "ProfileNumber" (by decide))

theorem Stands.step {frame : Option (List Byte)} {latch : LightConfig} {d : Option (Dict ℕ)}
    (h : Stands frame latch d) (raw : List Byte) :
    Stands (keptFrame frame (raw.take frameMax))
      (lightCfg (lcfgGet latch (lightKv (raw.take frameMax)))) (serve d raw) := by
  have hkeep : (¬ reportsState (raw.take frameMax) = true ∧ frame.any reportsState = true) ↔
      lightingReportsState (d.getD []) = true ∧
        ¬ lightingReportsState (decode lighting raw) = true := by
    rw [reportsState_take, h.reports, and_comm]
  refine ⟨?_, ?_, ?_⟩
  · unfold keptFrame serve
    split_ifs with hk
    · cases frame with
      | none => simp at hk
      | some raw' => rfl
    · rfl
  · intro kept hkept k hk
    rw [serve, Option.getD_some, get_merge d _ hk]
    unfold keptFrame at hkept
    split_ifs at hkept with hc
    · rw [if_pos (hkeep.mp hc)]
      exact h.fields kept hkept k hk
    · rw [if_neg (mt hkeep.mpr hc), ← Option.some.inj hkept, ← lightKv_eq, lightKv_take]
  · rw [serve, Option.getD_some, latched_merge, lightKv_take]
    exact (lightCfg_lcfgGet h.config raw).symm

theorem stands_run (evs : List LightEvent) {s : LightStore} {d : Option (Dict ℕ)}
    (h : Stands s.frame s.shown d) :
    Stands (evs.foldl LightEvent.apply s).frame (evs.foldl LightEvent.apply s).shown
      ((frames evs).foldl serve d) := by
  induction evs generalizing s d with
  | nil => exact h
  | cons ev evs ih =>
    cases ev with
    | linkUp => exact ih (s := linkUp s) h
    | frame raw => exact ih (s := storeLighting raw s) (h.step raw)

theorem stands_gated (raws : List (List Byte)) {s : LightStore} {d : Option (Dict ℕ)}
    (h : Stands s.frame s.gated d) :
    Stands ((raws.map LightEvent.frame).foldl LightEvent.apply s).frame
      ((raws.map LightEvent.frame).foldl LightEvent.apply s).gated (raws.foldl serve d) := by
  induction raws generalizing s d with
  | nil => exact h
  | cons raw raws ih => exact ih (s := storeLighting raw s) (h.step raw)

theorem stands_boot : Stands none {} none := ⟨rfl, by simp, rfl⟩

/-- The frame that a new link finds, without the configuration of the links before. -/
theorem stands_linkUp (frame : Option (List Byte)) : Stands frame {} (frame.map lightKv) := by
  refine ⟨by simp, ?_, ?_⟩
  · intro raw hraw k _
    rw [Option.mem_def.mp hraw, Option.map_some, Option.getD_some, lightKv_eq]
  · have hnil : latched [] = {} := rfl
    rw [← hnil]
    apply latched_congr
    intro k hk
    cases frame with
    | none => rfl
    | some raw =>
      rw [Option.map_some, Option.getD_some, lightKv_eq, not_mem_names hk]
      rfl

theorem Stands.snapshot {s : LightStore} {d : Option (Dict ℕ)} (h : Stands s.frame s.shown d)
    (k : String) : (Firmware.snapshot s).get k = (d.getD []).get k := by
  unfold Firmware.snapshot
  cases hf : s.frame with
  | none =>
    have hd : d = none := by simpa [hf] using h.have_frame.symm
    rw [hd]
    rfl
  | some raw =>
    dsimp only
    rw [Dict.get_append, lightKv_eq]
    by_cases hk : k ∈ lightConfigKeys
    · rw [not_mem_names hk, Option.none_or, keys_get h.config hk]
    · rw [get_keys_eq_none hk, Option.or_none]
      exact h.fields raw hf k hk

theorem Stands.ctlGet {s : LightStore} {d : Option (Dict ℕ)} (h : Stands s.frame s.gated d)
    (hlive : s.live = s.frame.isSome) (k : String) :
    Firmware.ctlGet s "lighting" k = (d.getD []).get k := by
  unfold Firmware.ctlGet
  by_cases hk : k ∈ lightConfigKeys
  · rw [keys_get h.config hk]
    cases hd : (d.getD []).get k with
    | some v => rfl
    | none =>
      dsimp only
      cases hf : s.frame with
      | none => simp
      | some raw => simp [lightKv_eq, not_mem_names hk]
  · rw [get_keys_eq_none hk]
    dsimp only
    cases hf : s.frame with
    | none =>
      have hd : d = none := by simpa [hf] using h.have_frame.symm
      simp [hd]
    | some raw =>
      rw [hlive, hf, Option.isSome_some, if_pos rfl, Option.bind_some, lightKv_eq]
      exact h.fields raw hf k hk

theorem keptFrame_isSome (stored : Option (List Byte)) (data : List Byte) :
    (keptFrame stored data).isSome := by
  unfold keptFrame
  split_ifs with h
  · cases stored with
    | none => simp at h
    | some raw => rfl
  · rfl

theorem live_of_frames {raws : List (List Byte)} (hne : raws ≠ []) (s : LightStore) :
    ((raws.map LightEvent.frame).foldl LightEvent.apply s).live = true ∧
      ((raws.map LightEvent.frame).foldl LightEvent.apply s).frame.isSome := by
  obtain ⟨raws, raw, rfl⟩ := List.eq_nil_or_concat raws |>.resolve_left hne
  rw [List.concat_eq_append, List.map_append, List.foldl_append]
  exact ⟨rfl, keptFrame_isSome _ _⟩

theorem reports_of_seen (raws : List (List Byte)) (d : Option (Dict ℕ))
    (h : lightingReportsState (d.getD []) = true ∨
      ∃ raw ∈ raws, lightingReportsState (decode lighting raw) = true) :
    lightingReportsState ((raws.foldl serve d).getD []) = true := by
  induction raws generalizing d with
  | nil => simpa using h
  | cons raw raws ih =>
    apply ih
    have hserve : lightingReportsState ((serve d raw).getD []) =
        (lightingReportsState (d.getD []) || lightingReportsState (decode lighting raw)) := by
      have hget : ∀ k, k ∉ lightConfigKeys → ((serve d raw).getD []).get k =
          if lightingReportsState (d.getD []) ∧ ¬ lightingReportsState (decode lighting raw)
          then (d.getD []).get k else (decode lighting raw).get k := fun k hk => get_merge d _ hk
      by_cases hk : lightingReportsState (d.getD []) = true ∧
          ¬ lightingReportsState (decode lighting raw) = true
      · simp only [if_pos hk] at hget
        rw [lightingReportsState_congr (hget "Mode" (by decide))
          (hget "ProfileNumber" (by decide)), hk.1, Bool.true_or]
      · simp only [if_neg hk] at hget
        rw [lightingReportsState_congr (hget "Mode" (by decide))
          (hget "ProfileNumber" (by decide))]
        revert hk
        cases lightingReportsState (d.getD []) <;>
          cases lightingReportsState (decode lighting raw) <;> simp
    rw [hserve]
    obtain hd | ⟨raw', hmem, hr⟩ := h
    · exact .inl (by rw [hd, Bool.true_or])
    · cases List.mem_cons.mp hmem with
      | inl he => exact .inl (by rw [← he, hr, Bool.or_true])
      | inr hmem => exact .inr ⟨raw', hmem, hr⟩

theorem frames_append (evs : List LightEvent) (raw : List Byte) :
    frames (evs ++ [.frame raw]) = frames evs ++ [raw] := by
  simp [frames]

theorem config_frame_keeps (evs : List LightEvent) {raw : List Byte}
    (hseen : ∃ old ∈ frames evs, lightingReportsState (decode lighting old) = true)
    (hraw : lightingReportsState (decode lighting raw) = false) :
    (run (evs ++ [.frame raw])).frame = (run evs).frame ∧
      ∀ k, k ∉ lightConfigKeys →
        (served (frames (evs ++ [.frame raw]))).get k = (served (frames evs)).get k := by
  have hst := stands_run evs (s := {}) stands_boot
  have hrep := reports_of_seen (frames evs) none (.inr hseen)
  have hkeep : ¬ reportsState (raw.take frameMax) = true ∧
      (run evs).frame.any reportsState = true := by
    rw [reportsState_take, hraw]
    exact ⟨Bool.false_ne_true, hst.reports.trans hrep⟩
  refine ⟨?_, ?_⟩
  · rw [run, List.foldl_append]
    exact if_pos hkeep
  · intro k hk
    rw [frames_append, served, List.foldl_append, List.foldl_cons, List.foldl_nil, serve,
      Option.getD_some, get_merge _ _ hk, if_pos ⟨hrep, by rw [hraw]; exact Bool.false_ne_true⟩]
    rfl

/-- The two sides fold the lighting frames alike: what is shown, after any frames over any links;
what the control gates see, after any frames of a link (a link's first frame finds the frame that
is kept, not the configuration of earlier links); and once the lamps were reported, a message
about the configuration does not change what is served of them. -/
theorem lighting_folds :
    (∀ evs k, (snapshot (run evs)).get k = (served (frames evs)).get k) ∧
    (∀ raws, (∀ k, ctlGet (run (raws.map .frame)) "lighting" k = (served raws).get k) ∧
      lightCfg (ctlGet (run (raws.map .frame))) = lightingConfig none (served raws)) ∧
    (∀ evs raws, raws ≠ [] → ∀ k, ctlGet (run (evs ++ .linkUp :: raws.map .frame)) "lighting" k =
      ((raws.foldl serve ((run evs).frame.map lightKv)).getD []).get k) ∧
    (∀ evs raw, (∃ old ∈ frames evs, lightingReportsState (decode lighting old) = true) →
      lightingReportsState (decode lighting raw) = false →
      (run (evs ++ [.frame raw])).frame = (run evs).frame ∧
        ∀ k, k ∉ lightConfigKeys →
          (served (frames (evs ++ [.frame raw]))).get k = (served (frames evs)).get k) := by
  refine ⟨fun evs k => (stands_run evs stands_boot).snapshot k, ?_, ?_,
    fun evs raw => config_frame_keeps evs⟩
  · intro raws
    have hst := stands_gated raws (s := {}) stands_boot
    have hlive : (run (raws.map .frame)).live = (run (raws.map .frame)).frame.isSome := by
      by_cases hne : raws = []
      · rw [hne]
        rfl
      · obtain ⟨h₁, h₂⟩ := live_of_frames hne {}
        exact h₁.trans h₂.symm
    have hget := hst.ctlGet hlive
    exact ⟨hget, (lightCfg_eq hget).trans (lightingConfig_none _).symm⟩
  · intro evs raws hne k
    have hrun : run (evs ++ .linkUp :: raws.map .frame) =
        (raws.map LightEvent.frame).foldl LightEvent.apply (linkUp (run evs)) := by
      rw [run, List.foldl_append]
      rfl
    have hst := stands_gated raws (s := linkUp (run evs)) (stands_linkUp (run evs).frame)
    obtain ⟨h₁, h₂⟩ := live_of_frames hne (linkUp (run evs))
    rw [hrun]
    exact hst.ctlGet (h₁.trans h₂.symm) k

-- a report, then the echo of a wake-up edit: the profile stays, the alarm is latched
example :
    let s := run [.frame [0x0a, 0x04, 0, 0, 0, 0, 0, 0, 0x53],
      .frame [0x0e, 20, 0, 0, 0x0e, 0x10, 0x02, 0x31]]
    ((snapshot s).get "ProfileNumber", (snapshot s).get "Mode",
      (snapshot s).get "WakeupTimestamp") = (some 10, some 4, some 3600) := by decide

end OpenCalifornia.Lighting.Firmware
