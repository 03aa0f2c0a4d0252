import OpenCalifornia.Control.PlanTwin

/-! # An accepted command is the reference's command

The planner accepts a command only if the reference writes the same frames, and refuses with the
reference's reason. A value that the builder does not look at may hold any characters. -/

namespace OpenCalifornia.Control.Firmware
open Lib Lib.Bits Lib.Text

variable {r : Reading} {now : DateTime} {fn what : String} {value : Text}

def written (o : Outcome) : Option (List Write) :=
  match o with
  | .write writes => some writes
  | _ => none

theorem written_eq_some {o : Outcome} {writes : List Write} :
    written o = some writes ↔ o = .write writes := by
  cases o <;> simp [written]

theorem got_asCommandError (m : Py (Option (List Byte))) : got (asCommandError m) = got m := by
  unfold asCommandError
  split <;> rfl

theorem command_written {func : Function} (hfunc : funcs.find? (·.name = fn) = some func)
    (hpre : commandPrecondition r fn what value = none) :
    written (command r now fn what value) =
      (got (build now fn what value (r.last fn))).bind fun frame =>
        (prefaceFor fn what value (r.last fn)).toOption.map fun preface =>
          actuate func frame (commitFor fn) preface := by
  unfold command
  rw [hpre, hfunc]
  cases build now fn what value (r.last fn) with
  | error e => rfl
  | ok frame =>
    cases frame with
    | none => rfl
    | some frame => cases prefaceFor fn what value (r.last fn) <;> rfl

theorem command_plain {func : Function} (hfunc : funcs.find? (·.name = fn) = some func)
    (hfn : fn ≠ "lighting") {b : Builder} (hb : builder now fn = some b)
    (hpre : commandPrecondition r fn what value = none) :
    written (command r now fn what value) =
      (got (b what value (r.last fn))).map fun data => [⟨func.controlChar, 0, data⟩] := by
  have hpreface : prefaceFor fn what value (r.last fn) = .ok none := if_pos (.inl hfn)
  have hcommit : commitFor fn = none := if_neg hfn
  have hbuild : build now fn what value (r.last fn) =
      asCommandError (b what value (r.last fn)) := by
    unfold build
    rw [hb]
  rw [command_written hfunc hpre, hpreface, hcommit, hbuild, got_asCommandError]
  cases got (b what value (r.last fn)) <;> rfl

theorem command_lighting (hpre : commandPrecondition r "lighting" what value = none) :
    written (command r now "lighting" what value) =
      lightWrites now what value (r.last "lighting") := by
  have hfunc : funcs.find? (·.name = "lighting") = some lighting := by decide
  have hbuild : build now "lighting" what value (r.last "lighting") =
      asCommandError (buildLighting now what value (r.last "lighting")) := rfl
  rw [command_written hfunc hpre, hbuild, got_asCommandError]
  rfl

theorem builders_eq (r : Reading) (hctl : (ctlChar fn).isSome = true) (hc : Clean value)
    (hl : value.length < valueMax) (hb : ¬ (fn = "lighting" ∧ what = "brightness"))
    (hw : ¬ (fn = "lighting" ∧ what = "wakeup"))
    (hpre : commandPrecondition r fn what value = none) :
    (builders fn what value (get r)).toOption = written (command r now fn what value) := by
  have hget : ∀ {g : String}, (funcs.find? (·.name = g)).isSome = true →
      ∀ k, get r g k = (r.last g).get k := fun h k => get_last r _ h k
  unfold builders
  by_cases h₁ : fn = "cooler"
  · subst h₁
    have hfunc : funcs.find? (·.name = "cooler") = some cooler := by decide
    rw [if_pos rfl, command_plain hfunc (by decide) rfl hpre]
    exact bCooler_eq hc hl (hget (by decide)) (cooler_state r)
  rw [if_neg h₁]
  by_cases h₂ : fn = "campingmode"
  · subst h₂
    have hfunc : funcs.find? (·.name = "campingmode") = some campingmode := by decide
    rw [if_pos rfl, command_plain hfunc (by decide) rfl hpre]
    exact bCamping_eq hc hl _
  rw [if_neg h₂]
  by_cases h₃ : fn = "energy"
  · subst h₃
    have hfunc : funcs.find? (·.name = "energy") = some energy := by decide
    rw [if_pos rfl, command_plain hfunc (by decide) rfl hpre]
    exact bEnergy_eq hc hl _
  rw [if_neg h₃]
  by_cases h₄ : fn = "airheater"
  · subst h₄
    have hfunc : funcs.find? (·.name = "airheater") = some airheater := by decide
    rw [if_pos rfl, command_plain hfunc (by decide) rfl hpre]
    exact bAirheater_eq hc hl _
  rw [if_neg h₄]
  have h₅ : fn = "lighting" := by
    obtain ⟨c, hc⟩ := Option.isSome_iff_exists.mp hctl
    have hname : c.function = fn := by simpa using List.find?_some hc
    have hmem : c.function ∈ ctlChars.map CtlChar.function :=
      List.mem_map_of_mem (List.mem_of_find?_eq_some hc)
    have hfive : ctlChars.map CtlChar.function =
      ["airheater", "campingmode", "cooler", "energy", "lighting"] := rfl
    rw [hname, hfive] at hmem
    simpa [h₁, h₂, h₃, h₄] using hmem
  subst h₅
  rw [command_lighting hpre]
  exact bLighting_eq hc hl (get_lighting r) (fun h => hb ⟨rfl, h⟩) (fun h => hw ⟨rfl, h⟩)

theorem fails_addEntries (es : Dict ℕ) : Fails (addAirheater es) := fails_add _ _ _ _

theorem fails_bCooler (what : String) (value : Text) (get : Get) :
    Fails (bCooler what value get) := by
  have hadd : ∀ v, Fails (addCooler v) := fun v => fails_add _ _ v _
  have hbad {α : Type} (m : Option α) (k : α → Vals) :
      Fails (orBad m >>= fun a => addCooler (k a)) :=
    (fails_orBad m).bind fun _ => hadd _
  unfold bCooler
  apply (hbad _ _).ite
  apply (hbad _ _).ite
  apply ((fails_orNone _).bind fun _ => hadd _).ite
  apply (hbad _ _).ite
  apply (hadd _).ite
  apply (hadd _).ite
  exact ((fails_orBad _).bind fun _ => hbad _ _).ite (by rintro ⟨⟩)

theorem fails_bCamping (what : String) (value : Text) : Fails (bCamping what value) := by
  apply (fails_orBad _).bind
  intro on
  split_ifs
  · exact fails_add _ _ _ _
  · exact fails_add _ _ _ _
  · exact fails_add _ _ _ _
  · exact fails_add _ _ _ _
  · rintro ⟨⟩

theorem fails_bEnergy (what : String) (value : Text) : Fails (bEnergy what value) := by
  unfold bEnergy
  split_ifs
  · rintro ⟨⟩
  · exact (fails_orNone _).bind fun _ => fails_add _ _ _ _

theorem fails_bAirheater (what : String) (value : Text) : Fails (bAirheater what value) := by
  have hbad {α : Type} (m : Option α) (k : α → Dict ℕ) :
      Fails (orBad m >>= fun a => addAirheater (k a)) :=
    (fails_orBad m).bind fun _ => fails_addEntries _
  unfold bAirheater
  apply (hbad _ _).ite
  apply (hbad _ _).ite
  apply (hbad _ _).ite
  apply (hbad _ _).ite
  apply (fails_addEntries _).ite
  apply (fails_addEntries _).ite
  refine Fails.ite (Fails.ite ?_ (fails_addEntries _)) ?_
  · rintro ⟨⟩
  · rintro ⟨⟩

theorem fails_addPreface (n : ℤ) (colour : Option ℕ) (get : Get) :
    Fails (addPreface n colour get) := by
  cases colour with
  | none => rintro ⟨⟩
  | some idx => exact fails_addLight _ _

theorem fails_bLighting (what : String) (value : Text) (get : Get) :
    Fails (bLighting what value get) := by
  unfold bLighting
  split_ifs
  · exact (fails_orBad _).bind fun _ => fails_addLight _ _
  · exact (fails_orBad _).bind fun _ => (fails_addPreface _ _ _).bind fun _ => fails_addLight _ _
  · exact (fails_orBad _).bind fun _ => fails_addLight _ _
  · exact (fails_orBad _).bind fun _ => fails_addLight _ _
  · exact (fails_orBad _).bind fun _ => fails_addLight _ _
  · rintro ⟨⟩
  · exact (fails_orBad _).bind fun _ => fails_addLight _ _

theorem fails_builders (fn what : String) (value : Text) (get : Get) :
    Fails (builders fn what value get) := by
  unfold builders
  split_ifs
  · exact fails_bCooler _ _ _
  · exact fails_bCamping _ _
  · exact fails_bEnergy _ _
  · exact fails_bAirheater _ _
  · exact fails_bLighting _ _ _

theorem plan_wakeup {localNow : ℤ} (hnow : 0 ≤ localNow) (value : Text) (get : Get) :
    plan "lighting" "wakeup" value localNow get = pWakeup value localNow get := by
  have hctl : ¬ ctlChar "lighting" = none := by decide
  unfold plan
  rw [if_neg hctl, if_pos ⟨rfl, rfl⟩, if_neg (not_lt.mpr hnow)]

theorem plan_gated (hctl : (ctlChar fn).isSome = true)
    (hw : ¬ (fn = "lighting" ∧ what = "wakeup")) (value : Text) (localNow : ℤ) (get : Get) :
    plan fn what value localNow get =
      match gate fn what value get with
      | some why => { rc := .refused, reason := some why }
      | none =>
        if valueMax ≤ value.length then { rc := .badValue }
        else Plan.of (builders fn what value get) := by
  have hsome : ¬ ctlChar fn = none := fun h => by
    rw [h] at hctl
    cases hctl
  exact (if_neg hsome).trans (if_neg hw)

theorem plan_agrees (r : Reading) (hctl : (ctlChar fn).isSome = true) (hc : Clean value)
    (hl : value.length < valueMax) (hb : ¬ (fn = "lighting" ∧ what = "brightness"))
    {localNow : ℤ}
    (hnow : fn = "lighting" ∧ what = "wakeup" → 0 ≤ localNow ∧ localNow = now.epoch) :
    Agrees (commandPrecondition r fn what value) (written (command r now fn what value))
      (plan fn what value localNow (get r)) := by
  by_cases hw : fn = "lighting" ∧ what = "wakeup"
  · obtain ⟨hpos, hepoch⟩ := hnow hw
    obtain ⟨rfl, rfl⟩ := hw
    subst hepoch
    have hagrees := wakeup_agrees r hc hl hpos
    rw [plan_wakeup hpos]
    exact ⟨hagrees.refused, fun hpre => (hagrees.planned hpre).trans (command_lighting hpre).symm⟩
  · have hlong : ¬ valueMax ≤ value.length := not_le.mpr hl
    rw [plan_gated hctl hw, gate_eq r hc hl hw]
    cases hpre : commandPrecondition r fn what value with
    | some why => exact ⟨fun text h => ⟨rfl, h⟩, (by rintro ⟨⟩)⟩
    | none =>
      refine ⟨(by rintro _ ⟨⟩), fun _ => ?_⟩
      dsimp only
      rw [if_neg hlong, planned_of (fails_builders _ _ _ _)]
      exact builders_eq r hctl hc hl hb hw hpre

/-- The timer commands without an argument. -/
def Ignores (fn what : String) : Prop :=
  (fn = "cooler" ∨ fn = "airheater") ∧ (what = "timer_start" ∨ what = "timer_cancel")

theorem Ignores.precondition (h : Ignores fn what) (r : Reading) (value : Text) :
    commandPrecondition r fn what value = commandPrecondition r fn what [] := by
  obtain ⟨hfn, hwhat⟩ := h
  have hlight : fn ≠ "lighting" := by rcases hfn with rfl | rfl <;> decide
  have honoff : (fn, what) ∉ onoffCommands := by
    rcases hfn with rfl | rfl <;> rcases hwhat with rfl | rfl <;> decide
  have hpower : what ≠ "power" := by rcases hwhat with rfl | rfl <;> decide
  have henergy : fn ≠ "energy" := by rcases hfn with rfl | rfl <;> decide
  unfold commandPrecondition roofReadingRefusal airheaterRefusal energyRefusal favouriteRefusal
    wakeupRefusal
  simp only [hlight, honoff, hpower, henergy, refuse, false_and, and_false, if_false]

theorem Ignores.build (h : Ignores fn what) (now : DateTime) (value : Text) (last : Dict ℕ) :
    build now fn what value last = build now fn what [] last := by
  obtain ⟨hfn, hwhat⟩ := h
  have hcooler : ∀ value, buildCooler what value last = buildCooler what [] last := by
    rcases hwhat with rfl | rfl <;> exact fun _ => rfl
  have hair : ∀ value, buildAirheater what value last = buildAirheater what [] last := by
    rcases hwhat with rfl | rfl <;> exact fun _ => rfl
  unfold Control.build
  rcases hfn with rfl | rfl
  · exact congrArg asCommandError (hcooler value)
  · exact congrArg asCommandError (hair value)

theorem Ignores.command (h : Ignores fn what) (r : Reading) (now : DateTime) (value : Text) :
    command r now fn what value = command r now fn what [] := by
  have hlight : fn ≠ "lighting" := by rcases h.1 with rfl | rfl <;> decide
  have hpreface : ∀ value, prefaceFor fn what value (r.last fn) = .ok none :=
    fun _ => if_pos (.inl hlight)
  unfold Control.command
  rw [h.precondition r value, h.build now value, hpreface, hpreface]

theorem Ignores.plan (h : Ignores fn what) (hl : value.length < valueMax) (localNow : ℤ)
    (get : Get) : plan fn what value localNow get = plan fn what [] localNow get := by
  obtain ⟨hfn, hwhat⟩ := h
  have hlong : ¬ valueMax ≤ value.length := not_le.mpr hl
  have hnil : ¬ valueMax ≤ ([] : Text).length := by decide
  have hctl : (ctlChar fn).isSome = true := by rcases hfn with rfl | rfl <;> decide
  have hlight : fn ≠ "lighting" := by rcases hfn with rfl | rfl <;> decide
  have hw : ¬ (fn = "lighting" ∧ what = "wakeup") := fun h => hlight h.1
  have honoff : isOnoffCommand fn what = false := by
    rcases hfn with rfl | rfl <;> rcases hwhat with rfl | rfl <;> decide
  have hpower : what ≠ "power" := by rcases hwhat with rfl | rfl <;> decide
  have henergy : fn ≠ "energy" := by rcases hfn with rfl | rfl <;> decide
  have hgate : gate fn what value get = gate fn what [] get := by
    unfold gate gateAirheater gateEnergy
    simp only [hlight, honoff, hpower, henergy, refuse, Bool.false_eq_true, false_and, and_false,
      if_false]
  have hcooler : bCooler what value get = bCooler what [] get := by
    rcases hwhat with rfl | rfl <;> rfl
  have hair : bAirheater what value = bAirheater what [] := by
    rcases hwhat with rfl | rfl <;> rfl
  have hbuild : builders fn what value get = builders fn what [] get := by
    rcases hfn with rfl | rfl
    · exact hcooler
    · exact hair
  rw [plan_gated hctl hw, plan_gated hctl hw, hgate, if_neg hlong, if_neg hnil, hbuild]

theorem some_of_orBad {α β : Type} {v : Option α} {k : α → Except Rc β} {b : β}
    (h : (orBad v >>= k) = .ok b) : ∃ a, v = some a := by
  cases v with
  | none => cases h
  | some a => exact ⟨a, rfl⟩

theorem some_of_orNone {α β : Type} {v : Option α} {k : α → Except Rc β} {b : β}
    (h : (orNone v >>= k) = .ok b) : ∃ a, v = some a := by
  cases v with
  | none => cases h
  | some a => exact ⟨a, rfl⟩

theorem clean_of_range {lo hi : ℤ} {k : ℤ → Built} {f : List Write}
    (hl : value.length < valueMax) (h : (orBad (intRange value lo hi) >>= k) = .ok f) :
    Clean value := by
  obtain ⟨a, ha⟩ := some_of_orBad h
  exact clean_of_intRange hl ha

theorem clean_of_switched {k : Bool → Built} {f : List Write}
    (hl : value.length < valueMax) (h : (orBad (onoff value) >>= k) = .ok f) : Clean value := by
  obtain ⟨on, hon⟩ := some_of_orBad h
  exact clean_of_onoff hl hon

theorem clean_of_time {k : ℤ × ℤ → Built} {f : List Write}
    (hl : value.length < valueMax) (h : (orBad (hhmm value) >>= k) = .ok f) : Clean value := by
  obtain ⟨hm, hhm⟩ := some_of_orBad h
  exact clean_of_hhmm hl hhm

theorem clean_of_bCooler {what : String} {get : Get} {f : List Write}
    (hl : value.length < valueMax) (h : bCooler what value get = .ok f) :
    Clean value ∨ what = "timer_start" ∨ what = "timer_cancel" := by
  have hmodes : ∀ t ∈ caliCoolerModes.map (·.1), Clean t := by decide
  rw [bCooler] at h
  rcases ite_eq_iff.mp h with ⟨-, h⟩ | ⟨-, h⟩
  · exact .inl (clean_of_switched hl h)
  rcases ite_eq_iff.mp h with ⟨-, h⟩ | ⟨-, h⟩
  · exact .inl (clean_of_range hl h)
  rcases ite_eq_iff.mp h with ⟨-, h⟩ | ⟨-, h⟩
  · obtain ⟨m, hm⟩ := some_of_orNone h
    exact .inl (clean_of_lookup hl hmodes hm)
  rcases ite_eq_iff.mp h with ⟨-, h⟩ | ⟨-, h⟩
  · exact .inl (clean_of_time hl h)
  rcases ite_eq_iff.mp h with ⟨h₅, -⟩ | ⟨-, h⟩
  · exact .inr (.inl h₅)
  rcases ite_eq_iff.mp h with ⟨h₆, -⟩ | ⟨-, h⟩
  · exact .inr (.inr h₆)
  rcases ite_eq_iff.mp h with ⟨-, h⟩ | ⟨-, h⟩
  · exact .inl (clean_of_range hl h)
  · cases h

theorem clean_of_bAirheater {what : String} {f : List Write} (hl : value.length < valueMax)
    (h : bAirheater what value = .ok f) :
    Clean value ∨ what = "timer_start" ∨ what = "timer_cancel" := by
  have hoff : ∀ t ∈ offTokens, Clean t := by decide
  rw [bAirheater] at h
  rcases ite_eq_iff.mp h with ⟨-, h⟩ | ⟨-, h⟩
  · exact .inl (clean_of_switched hl h)
  rcases ite_eq_iff.mp h with ⟨-, h⟩ | ⟨-, h⟩
  · exact .inl (clean_of_range hl h)
  rcases ite_eq_iff.mp h with ⟨-, h⟩ | ⟨-, h⟩
  · exact .inl (clean_of_range hl h)
  rcases ite_eq_iff.mp h with ⟨-, h⟩ | ⟨-, h⟩
  · exact .inl (clean_of_time hl h)
  rcases ite_eq_iff.mp h with ⟨h₅, -⟩ | ⟨-, h⟩
  · exact .inr (.inl h₅)
  rcases ite_eq_iff.mp h with ⟨h₆, -⟩ | ⟨-, h⟩
  · exact .inr (.inr h₆)
  rcases ite_eq_iff.mp h with ⟨-, h⟩ | ⟨-, h⟩
  · by_cases h₈ : norm value valueMax ∈ offTokens
    · exact .inl (clean_of_norm hl rfl (hoff _ h₈))
    · rw [if_pos h₈] at h
      cases h
  · cases h

theorem clean_of_bEnergy {what : String} {f : List Write} (hl : value.length < valueMax)
    (h : bEnergy what value = .ok f) : Clean value := by
  have hmodes : ∀ t ∈ caliEnergyModes.map (·.1), Clean t := by decide
  unfold bEnergy at h
  split_ifs at h
  obtain ⟨m, hm⟩ := some_of_orNone h
  exact clean_of_lookup hl hmodes hm

theorem clean_of_bLighting {what : String} {get : Get} {f : List Write}
    (hl : value.length < valueMax) (h : bLighting what value get = .ok f) :
    Clean value ∧ what ≠ "brightness" := by
  have hbright : zoneField "brightness" ∉ caliZoneFields := by decide
  have hne : ∀ {k : String}, k ≠ "brightness" → what = k → what ≠ "brightness" :=
    fun hk he => he ▸ hk
  unfold bLighting at h
  split_ifs at h with h₁ h₂ h₃ h₄ h₅ h₆
  · obtain ⟨n, hn⟩ := some_of_orBad h
    exact ⟨clean_of_intRange hl (Option.filter_eq_some_iff.mp hn).1, hne (by decide) h₁⟩
  · obtain ⟨args, hargs⟩ := some_of_orBad h
    exact ⟨clean_of_saveArgs hl hargs, hne (by decide) h₂⟩
  · exact ⟨clean_of_switched hl h, hne (by decide) h₃⟩
  · exact ⟨clean_of_switched hl h, hne (by decide) h₄⟩
  · exact ⟨clean_of_range hl h, hne (by decide) h₅⟩
  · refine ⟨clean_of_range hl h, ?_⟩
    rintro rfl
    exact h₆ (.inr hbright)

theorem plan_of_ok {b : Built} (h : (Plan.of b).rc = .ok) (hb : Fails b) : ∃ f, b = .ok f := by
  cases b with
  | ok f => exact ⟨f, rfl⟩
  | error rc =>
    have hrc : rc = .ok := h
    exact absurd (congrArg Except.error hrc) hb

theorem ctl_of_plan {localNow : ℤ} {get : Get}
    (h : (plan fn what value localNow get).rc = .ok) : (ctlChar fn).isSome = true := by
  cases hctl : ctlChar fn with
  | some c => rfl
  | none =>
    unfold plan at h
    rw [if_pos hctl] at h
    cases h

theorem clean_of_pWakeup {localNow : ℤ} {get : Get}
    (h : (pWakeup value localNow get).rc = .ok) : value.length < valueMax ∧ Clean value := by
  unfold pWakeup at h
  by_cases hl : valueMax ≤ value.length
  · rw [if_pos hl] at h
    cases h
  rw [if_neg hl] at h
  cases hreq : wakeRequest value (lightCfg get) with
  | none =>
    rw [hreq] at h
    cases h
  | some req => exact ⟨not_le.mp hl, clean_of_wakeRequest (not_le.mp hl) hreq⟩

theorem clean_of_plan {localNow : ℤ} {get : Get} (h : (plan fn what value localNow get).rc = .ok) :
    value.length < valueMax ∧ (Clean value ∨ Ignores fn what) ∧
      ¬ (fn = "lighting" ∧ what = "brightness") ∧
      (fn = "lighting" ∧ what = "wakeup" → 0 ≤ localNow) := by
  have hctl := ctl_of_plan h
  by_cases hw : fn = "lighting" ∧ what = "wakeup"
  · obtain ⟨rfl, rfl⟩ := hw
    by_cases hnow : 0 ≤ localNow
    · rw [plan_wakeup hnow] at h
      obtain ⟨hl, hc⟩ := clean_of_pWakeup h
      exact ⟨hl, .inl hc, by decide, fun _ => hnow⟩
    · have hctl : ¬ ctlChar "lighting" = none := by decide
      unfold plan at h
      rw [if_neg hctl, if_pos ⟨rfl, rfl⟩, if_pos (not_le.mp hnow)] at h
      cases h
  rw [plan_gated hctl hw] at h
  cases hgate : gate fn what value get with
  | some why =>
    rw [hgate] at h
    cases h
  | none =>
    rw [hgate] at h
    dsimp only at h
    by_cases hl : valueMax ≤ value.length
    · rw [if_pos hl] at h
      cases h
    rw [if_neg hl] at h
    replace hl := not_le.mp hl
    obtain ⟨f, hf⟩ := plan_of_ok h (fails_builders _ _ _ _)
    have hno : ∀ {g : String}, fn = g → g ≠ "lighting" →
        ¬ (fn = "lighting" ∧ what = "brightness") :=
      fun hg hne h => hne (hg.symm.trans h.1)
    have hvalue : (Clean value ∨ Ignores fn what) ∧ ¬ (fn = "lighting" ∧ what = "brightness") := by
      unfold builders at hf
      split_ifs at hf with h₁ h₂ h₃ h₄
      · exact ⟨(clean_of_bCooler hl hf).imp_right fun hwhat => ⟨.inl h₁, hwhat⟩,
          hno h₁ (by decide)⟩
      · exact ⟨.inl (clean_of_switched hl hf), hno h₂ (by decide)⟩
      · exact ⟨.inl (clean_of_bEnergy hl hf), hno h₃ (by decide)⟩
      · exact ⟨(clean_of_bAirheater hl hf).imp_right fun hwhat => ⟨.inr h₄, hwhat⟩,
          hno h₄ (by decide)⟩
      · obtain ⟨hc, hwhat⟩ := clean_of_bLighting hl hf
        exact ⟨.inl hc, fun h => hwhat h.2⟩
    exact ⟨hl, hvalue.1, hvalue.2, fun hlight => absurd hlight hw⟩

theorem plan_agrees_of (r : Reading) (now : DateTime) (hctl : (ctlChar fn).isSome = true)
    (hl : value.length < valueMax) (hc : Clean value ∨ Ignores fn what)
    (hb : ¬ (fn = "lighting" ∧ what = "brightness")) {localNow : ℤ}
    (hnow : fn = "lighting" ∧ what = "wakeup" → 0 ≤ localNow ∧ localNow = now.epoch) :
    Agrees (commandPrecondition r fn what value) (written (command r now fn what value))
      (plan fn what value localNow (get r)) := by
  cases hc with
  | inl hc => exact plan_agrees r hctl hc hl hb hnow
  | inr hi =>
    rw [hi.precondition r value, hi.command r now value, hi.plan hl]
    exact plan_agrees r hctl (List.forall_mem_nil _) (by decide) hb hnow

theorem written_of_plan (r : Reading) (now : DateTime) (fn what : String) (value : Text)
    (localNow : ℤ) (hnow : 0 ≤ localNow → localNow = now.epoch)
    (h : (plan fn what value localNow (get r)).rc = .ok) :
    commandPrecondition r fn what value = none ∧
      written (command r now fn what value) = some (plan fn what value localNow (get r)).f := by
  obtain ⟨hl, hc, hb, hpos⟩ := clean_of_plan h
  have hagrees := plan_agrees_of r now (ctl_of_plan h) hl hc hb
    fun hw => ⟨hpos hw, hnow (hpos hw)⟩
  cases hpre : commandPrecondition r fn what value with
  | some why =>
    have hrefused := (hagrees.refused why hpre).1
    rw [h] at hrefused
    cases hrefused
  | none =>
    have hplanned := hagrees.planned hpre
    rw [planned, if_pos h] at hplanned
    exact ⟨rfl, hplanned.symm⟩

theorem plan_sound (r : Reading) (now : DateTime) (fn what : String) (value : Text) (localNow : ℤ)
    (hnow : 0 ≤ localNow → localNow = now.epoch)
    (h : (plan fn what value localNow (get r)).rc = .ok) :
    commandPrecondition r fn what value = none ∧
      command r now fn what value = .write (plan fn what value localNow (get r)).f := by
  obtain ⟨hpre, hwritten⟩ := written_of_plan r now fn what value localNow hnow h
  exact ⟨hpre, written_eq_some.mp hwritten⟩

/-- Midnight on the first day, with nothing read. -/
def unread : Reading := ⟨fun _ => none, {}⟩

def epochStart : DateTime := ⟨0, 0, 0, by decide, by decide⟩

theorem plan_sound_power :
    commandPrecondition unread "cooler" "power" "on".toList = none ∧
      command unread epochStart "cooler" "power" "on".toList =
        .write (plan "cooler" "power" "on".toList 0 (get unread)).f :=
  plan_sound unread epochStart "cooler" "power" "on".toList 0 (fun _ => rfl) (by decide)

/-- A frame that encodes still does when the values that change fit their fields. -/
theorem encode_of_fits {func : Function} {values values' : Dict ℤ} {n : ℕ} {frame : List Byte}
    (h : (encode func values n).toOption = some frame)
    (hv : ∀ f ∈ func.controlFields,
      given values' f = given values f ∨ ∃ v, given values' f = some v ∧ Fits f v) :
    ∃ frame', (encode func values' n).toOption = some frame' := by
  unfold encode at h ⊢
  rw [toOption_bind] at h ⊢
  obtain ⟨out, hout, -⟩ := Option.bind_eq_some_iff.mp h
  have hloop : ∀ f ∈ func.controlFields, Encodable values (n * 8) f := by
    apply encode_loop_ok.mp
    cases hl : func.controlFields.foldlM (placeField values (n * 8))
        (List.replicate (n * 8) false) with
    | ok out => exact ⟨out, rfl⟩
    | error e =>
      rw [hl] at hout
      cases hout
  have hloop' : ∀ f ∈ func.controlFields, Encodable values' (n * 8) f := by
    intro f hf
    obtain ⟨hle, v, hgiven, hfits⟩ := hloop f hf
    cases hv f hf with
    | inl hsame => exact ⟨hle, v, hsame.trans hgiven, hfits⟩
    | inr hnew => exact ⟨hle, hnew⟩
  have hsome : ∃ out', func.controlFields.foldlM (placeField values' (n * 8))
      (List.replicate (n * 8) false) = .ok out' := encode_loop_ok.mpr hloop'
  obtain ⟨out', hout'⟩ := hsome
  rw [hout']
  exact ⟨pack out', rfl⟩

def lightHeadOf (n mode lightValue : ℤ) : Dict ℤ :=
  [("ProfileNumber", n), ("Mode", mode), ("Timestamp", 0), ("LightValue", lightValue)]

theorem get_lightHeadOf {k : String} (hm : k ≠ "Mode") (hv : k ≠ "LightValue")
    (n mode mode' lv lv' : ℤ) :
    (lightHeadOf n mode lv).get k = (lightHeadOf n mode' lv').get k := by
  unfold lightHeadOf Dict.get
  simp [hm.symm, hv.symm]

/-- The preface of a save differs from its frame in two fields, and both values fit. -/
theorem preface_encodes {n : ℤ} {idx : ℕ} (hidx : idx ≤ 10) {last : Dict ℕ} {frame : List Byte}
    (h : got (lightFrame n 4 0 0 (savedZones last)) = some frame) :
    ∃ preface, got (lightFrame n 6 0 idx (savedZones last)) = some preface := by
  have hkeys : (savedZones last).map Prod.fst = zoneFields := List.map_map
  have hnodup : ((savedZones last).map Prod.fst).Nodup := by
    rw [hkeys]
    decide
  have hno : ∀ k ∈ ["Mode", "LightValue"], k ∉ (savedZones last).map Prod.fst := by
    rw [hkeys]
    decide
  have hmode : ∀ f ∈ lighting.controlFields, f.name = "Mode" → Fits f 6 := by decide
  have hvalue : ∀ f ∈ lighting.controlFields, f.name = "LightValue" →
      ∀ v < 11, Fits f (v : ℕ) := by decide
  have hencode : ∀ mode lv, got (lightFrame n mode 0 lv (savedZones last)) =
      (encode lighting ((lightHeadOf n mode lv).update (savedZones last)) 16).toOption :=
    fun mode lv => got_encodeFor lighting _ (n := 16) (by decide)
  rw [hencode] at h ⊢
  apply encode_of_fits h
  intro f hf
  by_cases hm : f.name = "Mode"
  · have hget : given ((lightHeadOf n 6 idx).update (savedZones last)) f = some 6 := by
      unfold given
      rw [hm, get_update_of_not_mem (hno _ List.mem_cons_self)]
      rfl
    exact .inr ⟨6, hget, hmode f hf hm⟩
  by_cases hv : f.name = "LightValue"
  · have hget : given ((lightHeadOf n 6 idx).update (savedZones last)) f = some (idx : ℤ) := by
      unfold given
      rw [hv, get_update_of_not_mem (hno _ (List.mem_cons_of_mem _ List.mem_cons_self))]
      rfl
    exact .inr ⟨idx, hget, hvalue f hf hv idx (Nat.lt_succ_of_le hidx)⟩
  refine .inl ?_
  unfold given
  rw [Dict.get_update hnodup, Dict.get_update hnodup, get_lightHeadOf hm hv]

theorem colour_le {value : Text} {n : ℤ} {idx : ℕ} (h : saveArgs value = some (n, some idx)) :
    idx ≤ 10 := by
  have hall : ∀ e ∈ caliLightColors, e.2 ≤ 10 := by decide
  have hlookup : ∀ {k : Text} {l : List (Text × ℕ)}, (∀ e ∈ l, e.2 ≤ 10) →
      ∀ {v : ℕ}, l.lookup k = some v → v ≤ 10 := by
    intro k l
    induction l with
    | nil => exact fun _ _ hv => by cases hv
    | cons e l ih =>
      intro hle v hv
      obtain ⟨hhead, htail⟩ := List.forall_mem_cons.mp hle
      rw [List.lookup_cons] at hv
      cases hk : k == e.1 with
      | true =>
        rw [hk] at hv
        exact Option.some.inj hv ▸ hhead
      | false =>
        rw [hk] at hv
        exact ih htail hv
  unfold saveArgs at h
  split at h
  · cases h
  split at h
  · obtain ⟨m, -, hm⟩ := Option.map_eq_some_iff.mp h
    cases hm
  · split_ifs at h
    obtain ⟨m, -, h⟩ := Option.bind_eq_some_iff.mp h
    obtain ⟨colour, hcolour, h⟩ := Option.bind_eq_some_iff.mp h
    cases h
    exact hlookup hall hcolour

theorem ok_of_toOption {ε α : Type} {m : Except ε α} {a : α} (h : m.toOption = some a) :
    m = .ok a := by
  cases m with
  | error e => cases h
  | ok b => exact congrArg Except.ok (Option.some.inj h)

theorem prefaceFor_save {value : Text} {args : ℤ × Option ℤ}
    (h : saveProfileArgs value = .ok args) (last : Dict ℕ) :
    prefaceFor "lighting" "save_profile" value last =
      match args.2 with
      | none => .ok none
      | some idx => lightFrame args.1 6 0 idx (savedZones last) := by
  have hno : ¬ ("lighting" ≠ "lighting" ∨ "save_profile" ≠ "save_profile") := by decide
  unfold prefaceFor
  rw [if_neg hno, h]
  rfl

theorem preface_of_build {now : DateTime} {last : Dict ℕ} {frame : List Byte} (hc : Clean value)
    (hl : value.length < valueMax) (h : got (buildLighting now what value last) = some frame) :
    ∃ preface, prefaceFor "lighting" what value last = .ok preface := by
  by_cases hw : what = "save_profile"
  · subst hw
    have hbuild : buildLighting now "save_profile" value last =
        (saveProfileArgs value >>= fun args => lightFrame args.1 4 0 0 (savedZones last)) := rfl
    have hargs := saveArgs_eq hc hl
    rw [hbuild, got_bind] at h
    obtain ⟨args, hsave, h⟩ := Option.bind_eq_some_iff.mp h
    rw [hsave] at hargs
    obtain ⟨⟨n, colour⟩, hplan, rfl⟩ := Option.map_eq_some_iff.mp hargs.symm
    have hpre := prefaceFor_save (ok_of_toOption hsave) last
    cases colour with
    | none => exact ⟨none, hpre⟩
    | some idx =>
      obtain ⟨preface, hpreface⟩ := preface_encodes (colour_le hplan) h
      have hframe := lightFrame_toOption n 6 0 idx (savedZones last)
      rw [hpreface] at hframe
      exact ⟨some preface, hpre.trans (ok_of_toOption hframe)⟩
  · exact ⟨none, if_pos (.inr hw)⟩

theorem written_of_build {func : Function} (hfunc : funcs.find? (·.name = fn) = some func)
    (hl : value.length < valueMax) (hc : Clean value ∨ Ignores fn what)
    (hpre : commandPrecondition r fn what value = none) {frame : List Byte}
    (hbuild : build now fn what value (r.last fn) = .ok (some frame)) :
    ∃ writes, written (command r now fn what value) = some writes := by
  have hgot : got (build now fn what value (r.last fn)) = some frame := by
    rw [hbuild]
    rfl
  have hpreface : ∃ preface, prefaceFor fn what value (r.last fn) = .ok preface := by
    by_cases hlight : fn = "lighting"
    · subst hlight
      have hclean : Clean value := hc.resolve_right fun hi => by
        rcases hi.1 with h | h <;> exact absurd h (by decide)
      have hasked : build now "lighting" what value (r.last "lighting") =
          asCommandError (buildLighting now what value (r.last "lighting")) := rfl
      rw [hasked, got_asCommandError] at hgot
      exact preface_of_build hclean hl hgot
    · exact ⟨none, if_pos (.inl hlight)⟩
  obtain ⟨preface, hpreface⟩ := hpreface
  rw [command_written hfunc hpre, hgot, hpreface]
  exact ⟨_, rfl⟩

/-- A brightness for all lights at once is a parameter of the reference only. -/
theorem plan_lacks_brightness :
    commandPrecondition unread "lighting" "brightness" "5".toList = none ∧
      (∃ frame, build epochStart "lighting" "brightness" "5".toList (unread.last "lighting") =
        .ok (some frame)) ∧
      (plan "lighting" "brightness" "5".toList 0 (get unread)).rc = .badValue := by
  refine ⟨by decide +kernel, ⟨[0x09, 0x04, 0, 0, 0, 0, 0, 0, 0x55, 0x55, 0x55, 0x55, 0xe5, 0x5e,
    0xee, 0xee], ?_⟩, by decide +kernel⟩
  decide +kernel

/-- The planner accepts what the reference accepts, and refuses with the reference's reason. -/
theorem plan_complete (r : Reading) (now : DateTime) (fn what : String) (value : Text)
    (localNow : ℤ) (hctl : fn ∈ ctlChars.map CtlChar.function) (hl : value.length < valueMax)
    (hc : Clean value ∨ Ignores fn what) (hb : ¬ (fn = "lighting" ∧ what = "brightness"))
    (hnow : fn = "lighting" ∧ what = "wakeup" → 0 ≤ localNow ∧ localNow = now.epoch) :
    (commandPrecondition r fn what value = none →
      (∃ frame, build now fn what value (r.last fn) = .ok (some frame)) →
        (plan fn what value localNow (get r)).rc = .ok) ∧
    ∀ why, commandPrecondition r fn what value = some why →
      (plan fn what value localNow (get r)).rc = .refused ∧
        (plan fn what value localNow (get r)).reason = some why := by
  have hrow : ∀ fn ∈ ctlChars.map CtlChar.function, (ctlChar fn).isSome = true ∧
      (funcs.find? (·.name = fn)).isSome = true := by decide
  obtain ⟨hchar, hfound⟩ := hrow fn hctl
  obtain ⟨func, hfunc⟩ := Option.isSome_iff_exists.mp hfound
  have hagrees := plan_agrees_of r now hchar hl hc hb hnow
  refine ⟨?_, hagrees.refused⟩
  rintro hpre ⟨frame, hbuild⟩
  obtain ⟨writes, hwritten⟩ := written_of_build hfunc hl hc hpre hbuild
  have hplanned := (hagrees.planned hpre).trans hwritten
  by_contra hrc
  rw [planned, if_neg hrc] at hplanned
  cases hplanned

theorem plan_complete_power :
    ((commandPrecondition unread "cooler" "power" "on".toList = none →
      (∃ frame, build epochStart "cooler" "power" "on".toList (unread.last "cooler") =
        .ok (some frame)) → (plan "cooler" "power" "on".toList 0 (get unread)).rc = .ok) ∧
    ∀ why, commandPrecondition unread "cooler" "power" "on".toList = some why →
      (plan "cooler" "power" "on".toList 0 (get unread)).rc = .refused ∧
        (plan "cooler" "power" "on".toList 0 (get unread)).reason = some why) ∧
    commandPrecondition unread "cooler" "power" "on".toList = none ∧
    ∃ frame, build epochStart "cooler" "power" "on".toList (unread.last "cooler") =
      .ok (some frame) :=
  ⟨plan_complete unread epochStart "cooler" "power" "on".toList 0 (by decide) (by decide)
    (.inl (by decide)) (by decide) (fun h => absurd h.1 (by decide)), by decide,
    ⟨[0xfd, 0x77, 0x1e, 0x3e, 0x1f, 0x1f], by decide⟩⟩

end OpenCalifornia.Control.Firmware
