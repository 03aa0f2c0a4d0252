import OpenCalifornia.Control.LightTwin
import OpenCalifornia.Lighting.Firmware

/-! # The planner and the Python reference agree

The reader behind a plan answers as the decoded states do, the gate refuses what the precondition
refuses, and an accepted command is planned as the frames of `actuate`. -/

namespace OpenCalifornia.Control.Firmware
open Lib Lib.Bits Lib.Text

variable {r : Reading} {fn what : String} {value : Text}

theorem get_last (r : Reading) (fn : String) (h : (funcs.find? (·.name = fn)).isSome = true)
    (k : String) : get r fn k = (r.last fn).get k := by
  obtain ⟨func, hfunc⟩ := Option.isSome_iff_exists.mp h
  have hname : func.name = fn := by simpa using List.find?_some hfunc
  obtain ⟨f, hf, hsame⟩ := tables_twin (List.mem_of_find?_eq_some hfunc)
  rw [hname] at hf
  unfold get Reading.last Reading.state
  rw [hf, hfunc]
  cases r.frame fn with
  | none => rfl
  | some raw =>
    dsimp only
    rw [Option.map_some, Option.getD_some, codecDecode_eq raw hsame.state]
    by_cases hl : fn = "lighting"
    · have hlight : func = lighting := by
        have hfind : funcs.find? (·.name = "lighting") = some lighting := by decide
        rw [hl] at hfunc
        exact Option.some.inj (hfunc.symm.trans hfind)
      rw [if_pos hl, if_pos hl, hlight, Dict.get_append]
      by_cases hk : k ∈ Lighting.lightConfigKeys
      · rw [Lighting.not_mem_names hk, Option.or_none, Option.none_or]
      · rw [Lighting.get_keys_eq_none hk, Option.or_none, Option.none_or]
    · rw [if_neg hl, if_neg hl]

theorem get_lighting (r : Reading) (k : String) :
    get r "lighting" k = (r.last "lighting").get k := get_last r "lighting" (by decide) k

theorem lightCfg_last (r : Reading) : lightCfg (get r) = lightingConfig (r.last "lighting") :=
  Lighting.Firmware.lightCfg_eq (get_lighting r)

theorem cooler_state (r : Reading) :
    (r.last "cooler").get "State" = none ↔ r.last "cooler" = [] := by
  have hfind : funcs.find? (·.name = "cooler") = some cooler := by decide
  unfold Reading.last Reading.state
  rw [hfind]
  cases r.frame "cooler" with
  | none => exact ⟨fun _ => rfl, fun _ => rfl⟩
  | some raw =>
    show (decode cooler raw).get "State" = none ↔ decode cooler raw = []
    cases raw with
    | nil => exact ⟨fun _ => by decide, fun _ => by decide⟩
    | cons b raw =>
      have hfield : (⟨"State", 7, 1, none, none⟩ : Field) ∈ cooler.stateFields := by decide
      have hlen : 7 + 1 ≤ (toBits (b :: raw)).length := by
        rw [length_toBits, List.length_cons]
        omega
      have hmem : ("State", getField (toBits (b :: raw)) 7 1) ∈ decode cooler (b :: raw) :=
        List.mem_map.mpr ⟨_, List.mem_filter.mpr ⟨hfield, decide_eq_true hlen⟩, rfl⟩
      have hsome := Dict.get_isSome_of_mem hmem
      exact iff_of_false (fun hn => by rw [hn] at hsome; cases hsome)
        (List.ne_nil_of_mem hmem)

theorem refuse_congr {c d : Prop} [Decidable c] [Decidable d] (h : c ↔ d) (why : String) :
    refuse c why = refuse d why := by
  unfold refuse
  by_cases hd : d
  · rw [if_pos hd, if_pos (h.mpr hd)]
  · rw [if_neg hd, if_neg fun hc => hd (h.mp hc)]

theorem refuse_pos {c : Prop} [Decidable c] (h : c) (why : String) : refuse c why = some why :=
  if_pos h

theorem refuse_neg {c : Prop} [Decidable c] (h : ¬ c) (why : String) : refuse c why = none :=
  if_neg h

theorem isOnoffCommand_iff (fn what : String) :
    isOnoffCommand fn what = true ↔ (fn, what) ∈ onoffCommands := by
  unfold isOnoffCommand onoffCommands
  simp only [List.mem_cons, Prod.mk.injEq, List.not_mem_nil, or_false]
  by_cases h₁ : fn = "cooler" ∨ fn = "airheater"
  · rw [if_pos h₁]
    rcases h₁ with rfl | rfl <;> simp
  rw [if_neg h₁]
  obtain ⟨hcooler, hair⟩ := not_or.mp h₁
  by_cases h₂ : fn = "campingmode"
  · rw [if_pos h₂, h₂]
    simp
  rw [if_neg h₂]
  by_cases h₃ : fn = "lighting"
  · rw [if_pos h₃, h₃]
    simp
  rw [if_neg h₃]
  simp [hcooler, hair, h₂, h₃]

theorem onoff_gate (hc : Clean value) (hl : value.length < valueMax) :
    refuse (isOnoffCommand fn what ∧ onoff value = none) caliReasonNotOnoff =
      refuse ((fn, what) ∈ onoffCommands ∧ ¬ isOnoff value) reasonNotOnoff := by
  have hoff : onoff value = none ↔ ¬ isOnoff value = true := by
    rw [isOnoff_eq hc hl]
    cases onoff value <;> simp
  exact refuse_congr (and_congr (isOnoffCommand_iff fn what) hoff) _

theorem pyInt_any (hl : value.length < valueMax) {p : ℤ → Bool} (hp : ∀ z, p (clamp z) = p z) :
    (pyInt value).any p = (int? value).any p := by
  rw [pyInt_eq (hl.le.trans valueMax_le)]
  cases int? value with
  | none => rfl
  | some z => exact hp z

theorem clamp_pos (z : ℤ) : (0 < clamp z) = (0 < z) := by
  have hM : longMax = 2147483647 := rfl
  have hm : longMin = -2147483648 := rfl
  unfold clamp
  rw [eq_iff_iff]
  omega

theorem roof_gate (r : Reading) (hl : value.length < valueMax) :
    refuse (fn = "lighting" ∧ what = "roof-reading" ∧ (pyInt value).any (0 < ·) ∧
      (get r "roof" "Position").any (· ∈ [0, 14])) caliReasonRoofReading =
      roofReadingRefusal r fn what value := by
  have hint := pyInt_any hl (p := (0 < ·)) fun z => by rw [decide_eq_decide, clamp_pos]
  have hroof := get_last r "roof" (by decide) "Position"
  unfold roofReadingRefusal
  rw [hint, hroof]
  rfl

theorem cooler_gate (r : Reading) : gateCooler fn what (get r) = coolerRefusal r fn what := by
  have hstate := get_last r "cooler" (by decide) "State"
  unfold gateCooler coolerRefusal
  rw [hstate]
  refine congrArg₂ Option.or (refuse_congr ?_ _)
    (congrArg₂ Option.or (refuse_congr ?_ _) (refuse_congr ?_ _))
  · simp
  · simp
  · rw [cooler_state]
    simp

theorem camping_gate (r : Reading) :
    refuse (fn = "campingmode" ∧ (what = "lights" ∨ what = "usb") ∧
      get r "campingmode" "State" = some 0) caliReasonCampingNeedsMaster =
      campingRefusal r fn what := by
  have hstate := get_last r "campingmode" (by decide) "State"
  unfold campingRefusal
  rw [hstate]
  refine refuse_congr ?_ _
  simp

theorem airheater_gate (r : Reading) (hc : Clean value) (hl : value.length < valueMax) :
    gateAirheater fn what value (get r) = airheaterRefusal r fn what value := by
  have hget := get_last r "airheater" (by decide)
  have hon : onoff value = some true ↔ truthy value = .ok true := by
    rw [onoff_eq hc hl]
    cases truthy value <;> simp [Except.toOption]
  unfold gateAirheater airheaterRefusal
  simp only [hget]
  refine congrArg₂ Option.or (refuse_congr ?_ _) rfl
  rw [hon]

theorem energy_gate (r : Reading) (hc : Clean value) (hl : value.length < valueMax) :
    gateEnergy fn what value (get r) = energyRefusal r fn what value := by
  have hget := get_last r "energy" (by decide)
  unfold gateEnergy energyRefusal
  simp only [hget, norm_eq_key hc hl]
  rfl

theorem slotEmpty_eq (favs : Option ℕ) (z : ℤ) :
    slotEmpty favs (clamp z) = favouriteEmpty favs z := by
  have hM : longMax = 2147483647 := rfl
  have hm : longMin = -2147483648 := rfl
  unfold slotEmpty favouriteEmpty
  by_cases h : 1 ≤ z ∧ z ≤ 7
  · have hz : clamp z = z := by
      unfold clamp
      omega
    rw [hz]
  · have hz : ¬ (clamp z ≥ 1 ∧ clamp z ≤ 7) := by
      unfold clamp
      omega
    rw [decide_eq_false fun hc => hz hc.1, decide_eq_false fun hc => h hc.1]

theorem favourite_gate (r : Reading) (hl : value.length < valueMax) :
    refuse (fn = "lighting" ∧ what = "profile" ∧ (pyInt value).any
      (slotEmpty (lightCfg (get r)).favouritesStored)) caliReasonFavouriteEmpty =
      favouriteRefusal r fn what value := by
  unfold favouriteRefusal
  rw [lightCfg_last, pyInt_eq (hl.le.trans valueMax_le)]
  refine refuse_congr (and_congr_right fun _ => and_congr_right fun _ => ?_) _
  cases int? value with
  | none => exact Iff.rfl
  | some z =>
    show slotEmpty _ (clamp z) = true ↔ favouriteEmpty _ z = true
    rw [slotEmpty_eq]

theorem gate_eq (r : Reading) (hc : Clean value) (hl : value.length < valueMax)
    (hw : ¬ (fn = "lighting" ∧ what = "wakeup")) :
    gate fn what value (get r) = commandPrecondition r fn what value := by
  have hwake : wakeupRefusal r fn what value = none := if_neg hw
  unfold gate commandPrecondition
  rw [onoff_gate hc hl, roof_gate r hl, cooler_gate, camping_gate, airheater_gate r hc hl,
    energy_gate r hc hl, favourite_gate r hl, hwake, Option.or_none]

theorem isSpace_toLower (c : Char) : isSpace c.toLower = isSpace c := by
  by_cases h : 'A' ≤ c ∧ c ≤ 'Z'
  · have h1 : 65 ≤ c.toNat := h.1
    have hn := toNat_toLower h
    rw [isSpace, isSpace, decide_eq_decide]
    omega
  · rw [toLower_of_not h]

theorem split_lower (value : Text) : split (Control.lower value) =
    (split value).map Control.lower := by
  have hspace : isSpace ∘ Char.toLower = isSpace := funext isSpace_toLower
  unfold split Control.lower
  rw [words_map, hspace]

theorem no_switch (value : Text) : ("on".toList ∉ split (Control.lower value) ∧
    "off".toList ∉ split (Control.lower value)) ↔ ¬ (split value).any isSwitch = true := by
  rw [split_lower, List.any_eq_true, ← not_or]
  refine not_congr ⟨fun h => ?_, fun h => ?_⟩
  · obtain hm | hm := h
    · obtain ⟨t, ht, he⟩ := List.mem_map.mp hm
      exact ⟨t, ht, decide_eq_true (he ▸ List.mem_cons_self)⟩
    · obtain ⟨t, ht, he⟩ := List.mem_map.mp hm
      exact ⟨t, ht, decide_eq_true (he ▸ List.mem_cons_of_mem _ List.mem_cons_self)⟩
  · obtain ⟨t, ht, hs⟩ := h
    have hmem : Control.lower t ∈ ["on".toList, "off".toList] := of_decide_eq_true hs
    cases List.mem_cons.mp hmem with
    | inl he => exact .inl (he ▸ List.mem_map_of_mem ht)
    | inr he => exact .inr (List.mem_singleton.mp he ▸ List.mem_map_of_mem ht)

theorem wakeup_precondition (r : Reading) (value : Text) :
    commandPrecondition r "lighting" "wakeup" value =
      wakeupRefusal r "lighting" "wakeup" value := by
  unfold commandPrecondition roofReadingRefusal coolerRefusal campingRefusal airheaterRefusal
    energyRefusal favouriteRefusal
  simp [refuse, onoffCommands]

theorem epoch_mod (now : DateTime) : now.epoch % 86400 = now.second := by
  have hlt := now.second_lt
  unfold DateTime.epoch
  omega

theorem nextWakeup_gt (hour minute : ℕ) (now : ℤ) : now < nextWakeup hour minute now := by
  have hmod := Int.tmod_lt_of_pos now (by decide : (0 : ℤ) < 86400)
  unfold nextWakeup
  dsimp only
  split_ifs <;> omega

theorem nextWakeup_cases (hour minute : ℕ) {now : DateTime} (hn : 0 ≤ now.epoch) :
    nextWakeupEpoch hour minute now = .ok (nextWakeup hour minute now.epoch) ∨
      nextWakeupEpoch hour minute now = .error .overflowError ∧
        uint32Max < nextWakeup hour minute now.epoch := by
  have hmax : uint32Max = 4294967295 := rfl
  have hday : maxDay = 2932896 := rfl
  have hmod := epoch_mod now
  have hepoch : now.epoch = now.day * 86400 + now.second := rfl
  have hpast : now.past hour minute = true ↔
      now.epoch - now.epoch % 86400 + hour * 3600 + minute * 60 ≤ now.epoch := by
    unfold DateTime.past
    rw [decide_eq_true_iff]
    omega
  unfold nextWakeupEpoch nextWakeup
  rw [Int.tmod_eq_emod_of_nonneg hn]
  dsimp only
  by_cases hp : now.past hour minute = true
  · rw [if_pos hp, if_pos (hpast.mp hp)]
    by_cases hd : now.day + 1 ≤ maxDay
    · rw [if_pos hd]
      refine .inl (congrArg Except.ok ?_)
      omega
    · rw [if_neg hd]
      refine .inr ⟨rfl, ?_⟩
      omega
  · rw [if_neg hp, if_neg fun h => hp (hpast.mpr h)]
    refine .inl (congrArg Except.ok ?_)
    omega

theorem lightFrame_late {timestamp : ℤ} (h : uint32Max < timestamp) (lightValue : ℤ) :
    got (lightFrame lightUnchanged 20 timestamp lightValue (allZones lightUnchanged)) = none := by
  have hmax : uint32Max = 4294967295 := rfl
  unfold lightFrame
  rw [got_encodeFor lighting _ (n := 16) (by decide)]
  set values := Dict.update [("ProfileNumber", lightUnchanged), ("Mode", 20),
    ("Timestamp", timestamp), ("LightValue", lightValue)] (allZones lightUnchanged) with hvalues
  have hgiven : given values ⟨"Timestamp", 16, 32, some 0, none⟩ = some timestamp := by
    have hno : "Timestamp" ∉ (allZones lightUnchanged).map Prod.fst := by decide
    unfold given
    rw [hvalues, get_update_of_not_mem hno]
    rfl
  have hfield : (⟨"Timestamp", 16, 32, some 0, none⟩ : Field) ∈ lighting.controlFields := by
    decide
  unfold encode
  cases hloop : lighting.controlFields.foldlM (placeField values (16 * 8))
      (List.replicate (16 * 8) false) with
  | error e => rfl
  | ok out =>
    obtain ⟨-, v, hv, hfits⟩ := encode_loop_ok.mp ⟨out, hloop⟩ _ hfield
    obtain rfl := Option.some.inj (hgiven.symm.trans hv)
    have hle : timestamp ≤ 2 ^ 32 - 1 := hfits.1.2
    omega

/-- What the planner plans, if it accepts. -/
def planned (p : Plan) : Option (List Write) := if p.rc = .ok then some p.f else none

/-- A failure has its own code. -/
def Fails {α : Type} (b : Except Rc α) : Prop := b ≠ .error .ok

theorem Fails.bind {α β : Type} {m : Except Rc α} (hm : Fails m) {k : α → Except Rc β}
    (hk : ∀ a, Fails (k a)) : Fails (m >>= k) := by
  cases m with
  | ok a => exact hk a
  | error rc => exact fun h => hm (congrArg Except.error (Except.error.inj h))

theorem Fails.ite {α : Type} {p : Prop} [Decidable p] {m m' : Except Rc α} (hm : Fails m)
    (hm' : Fails m') : Fails (if p then m else m') := by
  split
  · exact hm
  · exact hm'

theorem fails_orBad {α : Type} (v : Option α) : Fails (orBad v) := by
  cases v <;> rintro ⟨⟩

theorem fails_orNone {α : Type} (v : Option α) : Fails (orNone v) := by
  cases v <;> rintro ⟨⟩

theorem fails_add (p : List Write) (fn : String) (v : Vals) (delay : ℕ) :
    Fails (add p fn v delay) := by
  unfold add
  split
  · split_ifs
    · rintro ⟨⟩
    · split <;> rintro ⟨⟩
  · rintro ⟨⟩

theorem fails_addLight (p : List Write) (v : Vals) : Fails (addLight p v) := by
  apply (fails_add p "lighting" v 0).bind
  intro p
  unfold addCommit
  split_ifs <;> rintro ⟨⟩

theorem planned_of {b : Built} (h : Fails b) : planned (Plan.of b) = b.toOption := by
  cases b with
  | ok f => rfl
  | error rc => exact if_neg fun hrc => h (congrArg Except.error hrc)

/-- The two sides on one command: the same refusal, or the same writes. -/
structure Agrees (why : Option String) (writes : Option (List Write)) (p : Plan) : Prop where
  refused : ∀ text, why = some text → p.rc = .refused ∧ p.reason = some text
  planned : why = none → planned p = writes

theorem ok_bind {ε α β : Type} (a : α) (k : α → Option β) :
    (Except.ok a : Except ε α).toOption.bind k = k a := rfl

theorem wakeFrame_eq (c : Wakeup) {timestamp : ℤ} (h : 0 ≤ timestamp)
    (hmax : timestamp ≤ uint32Max) :
    (addLight [] (lightVals caliUnchanged 20 timestamp.toNat (wakeLightValue (wakeOf c))
      (zonesAll caliUnchanged))).toOption =
      (got (lightFrame lightUnchanged 20 timestamp (wakeupLightValue c)
        (allZones lightUnchanged))).map committed := by
  have h32 : uint32Max = 4294967295 := rfl
  have hts : timestamp.toNat < 2 ^ 32 := by omega
  have hlight := light_eq (p := []) (Nat.zero_le 2) caliUnchanged 20 (wakeLightValue (wakeOf c)) hts
    (keys_zonesAll caliUnchanged)
  rw [ints_zonesAll, toNat_cast h] at hlight
  exact hlight

theorem wakeup_agrees (r : Reading) (hc : Clean value) (hl : value.length < valueMax)
    {now : DateTime} (hn : 0 ≤ now.epoch) :
    Agrees (commandPrecondition r "lighting" "wakeup" value)
      (lightWrites now "wakeup" value (r.last "lighting")) (pWakeup value now.epoch (get r)) := by
  have hshort : ¬ valueMax ≤ value.length := by omega
  have hmax : uint32Max = 4294967295 := rfl
  have hbuild : buildLighting now "wakeup" value (r.last "lighting") =
      (wakeupRequest value (r.last "lighting") >>= fun c =>
        nextWakeupEpoch c.hour c.minute now >>= fun ts =>
          lightFrame lightUnchanged 20 ts (wakeupLightValue c) (allZones lightUnchanged)) := rfl
  unfold pWakeup
  rw [wakeup_precondition, wakeupRefusal, if_pos ⟨rfl, rfl⟩, if_neg hshort, lightCfg_last,
    wakeRequest_eq hc hl, lightWrites_plain (by decide), hbuild, got_bind]
  cases hreq : wakeupRequest value (r.last "lighting") with
  | error e => exact ⟨(by rintro _ ⟨⟩), fun _ => rfl⟩
  | ok c =>
    have hareas : (wakeOf c).areas = 0 ↔ c.areas = [] := areaBits_eq_zero
    have hknown := wakeKnown_eq (lightingConfig (r.last "lighting"))
    dsimp only [Except.toOption, Option.map_some, Option.bind_some]
    by_cases harea : c.enabled = true ∧ c.areas = []
    · have harea' : (wakeOf c).enabled = true ∧ (wakeOf c).areas = 0 :=
        ⟨harea.1, hareas.mpr harea.2⟩
      rw [refuse_pos harea, if_pos harea']
      exact ⟨fun text h => ⟨rfl, h⟩, (by rintro ⟨⟩)⟩
    have harea' : ¬ ((wakeOf c).enabled = true ∧ (wakeOf c).areas = 0) :=
      fun h => harea ⟨h.1, hareas.mp h.2⟩
    have hiff : "on".toList ∉ split (Control.lower value) ∧
        "off".toList ∉ split (Control.lower value) ∧
          wakeupConfig (lightingConfig (r.last "lighting")) = none ↔
        ¬ (split value).any isSwitch = true ∧
          ¬ (wakeupConfig (lightingConfig (r.last "lighting"))).isSome = true := by
      rw [← and_assoc, no_switch, Option.not_isSome_iff_eq_none]
    rw [refuse_neg harea, if_neg harea', Option.none_or, hknown, refuse_congr hiff]
    by_cases hunknown : ¬ (split value).any isSwitch = true ∧
        ¬ (wakeupConfig (lightingConfig (r.last "lighting"))).isSome = true
    · rw [if_pos hunknown, refuse_pos hunknown]
      exact ⟨fun text h => ⟨rfl, h⟩, (by rintro ⟨⟩)⟩
    rw [if_neg hunknown, refuse_neg hunknown]
    refine ⟨(by rintro _ ⟨⟩), fun _ => ?_⟩
    rw [got_bind]
    have hgt := nextWakeup_gt c.hour c.minute now.epoch
    by_cases hlate : nextWakeup c.hour c.minute now.epoch > uint32Max
    · have hbad : planned (if now.epoch > uint32Max then { rc := .badValue } else
          if nextWakeup (wakeOf c).hour (wakeOf c).minute now.epoch > uint32Max then
            { rc := .badValue }
          else Plan.of (addLight [] (lightVals caliUnchanged 20
            (nextWakeup (wakeOf c).hour (wakeOf c).minute now.epoch).toNat
              (wakeLightValue (wakeOf c)) (zonesAll caliUnchanged)))) = none := by
        by_cases hnow : now.epoch > uint32Max
        · rw [if_pos hnow]
          rfl
        · have hlate' : nextWakeup (wakeOf c).hour (wakeOf c).minute now.epoch > uint32Max := hlate
          rw [if_neg hnow, if_pos hlate']
          rfl
      rw [hbad]
      obtain hts | ⟨hts, -⟩ := nextWakeup_cases c.hour c.minute hn
      · rw [hts, ok_bind, lightFrame_late hlate]
        rfl
      · rw [hts]
        rfl
    · have hnow : ¬ now.epoch > uint32Max := by omega
      have hlate' : ¬ nextWakeup (wakeOf c).hour (wakeOf c).minute now.epoch > uint32Max := hlate
      have hts := (nextWakeup_cases c.hour c.minute hn).resolve_right fun h => hlate h.2
      rw [if_neg hnow, if_neg hlate', planned_of (fails_addLight _ _), hts, ok_bind]
      exact wakeFrame_eq c (hn.trans hgt.le) (not_lt.mp hlate)

end OpenCalifornia.Control.Firmware
