import OpenCalifornia.Lora.Telemetry

/-! # The formatter undoes the packing

What the formatter shows of a snapshot that was packed for the ports 2, 3 and 4. -/

namespace OpenCalifornia.Lora
open Lib Lib.Bits Control Control.Firmware

/-- The data holds exactly those of the functions that have a frame, as they are decoded. -/
structure Shows (fns : List Function) (s : Snap) (d : Dict (Dict ℕ)) : Prop where
  only : ∀ k, d.get k ≠ none → ∃ fn ∈ fns, fn.name = k
  each : ∀ fn ∈ fns, ShowsSlot fn s d

/-- The counter of a number of steps, with its sign. -/
def counter (v : ℤ) : ℚ := (Int.bmod v (2 ^ 24) : ℤ) / 10

structure UndoneEnergy (s : Snap) (d : EnergyData) : Prop where
  boot : d.boot = s.boot % 2 ^ 16
  fn : Shows [energy, water] s d.fn
  batteryCurrent : d.batteryCurrent = shown (s.mppt 0) 10
  pvPower : d.pvPower = shown (s.mppt 5) 1
  yieldTodayKwh : d.yieldTodayKwh = shown (s.mppt 6) 100
  chargeState : d.chargeState = shown (s.mppt 2) 1
  errorCode : d.errorCode = shown (s.mppt 3) 1
  batteryVoltage : d.batteryVoltage = shown (s.bsense 0) 100
  solarWh : d.solarWh = ((s.solarDwh % 2 ^ 24 : ℕ) : ℚ) / 10
  loadWh : d.loadWh = ((s.loadDwh % 2 ^ 24 : ℕ) : ℚ) / 10
  battNetWh : d.battNetWh = counter s.battNetDwh

structure UndoneDaily (s : Snap) (fw : List Byte) (d : DailyData) : Prop where
  boot : d.boot = s.boot % 2 ^ 16
  uptimeS : d.uptimeS = s.uptimeS % 2 ^ 32
  fn : Shows [general] s d.fn
  fw : d.fw = textOf fw

/-- The functions of the bits in `*picked`. -/
def pickedFunctions (picked : ℕ) : List Function :=
  (List.finRange nchars).filterMap fun i : Fin nchars =>
    if picked.testBit i then functions[i.val]? else none

/-- The formatter shows a packed snapshot as it is, on all three ports. -/
structure Undone (s : Snap) (fw : List Byte) : Prop where
  energy : ∃ d, decodeEnergy (packEnergy s) = .ok d ∧ UndoneEnergy s d
  changed : ∀ t max, ∃ d, decodeChanged (packChanged t s max).1 = .ok d ∧
    Shows (pickedFunctions (packChanged t s max).2) s d
  daily : ∃ d, decodeDaily (packDaily s fw) = .ok d ∧ UndoneDaily s fw d

/-- The readings are in the ranges of their fields, as the sensors send them. -/
structure InRange (s : Snap) : Prop where
  batteryCurrent : ∀ v, s.mppt 0 = some v → -2 ^ 15 ≤ v ∧ v < 2 ^ 15 - 1
  pvPower : ∀ v, s.mppt 5 = some v → 0 ≤ v ∧ v < 2 ^ 16 - 1
  yieldTodayKwh : ∀ v, s.mppt 6 = some v → 0 ≤ v ∧ v < 2 ^ 16 - 1
  chargeState : ∀ v, s.mppt 2 = some v → 0 ≤ v ∧ v < 2 ^ 8
  errorCode : ∀ v, s.mppt 3 = some v → 0 ≤ v ∧ v < 2 ^ 8
  batteryVoltage : ∀ v, s.bsense 0 = some v → -2 ^ 15 ≤ v ∧ v < 2 ^ 15 - 1

/-- What the layouts can carry: frames that fill their slots, and readings that are neither taken
for the fill nor for numbers without a sign. -/
structure Carried (s : Snap) : Prop where
  energy : Fills energy 22 s
  water : Fills water 6 s
  general : Fills general 9 s
  batteryCurrent : s.mppt 0 ≠ some (-1)
  chargeState : s.mppt 2 ≠ some 255
  errorCode : s.mppt 3 ≠ some 255
  batteryVoltage : ∀ v, s.bsense 0 = some v → 0 ≤ v

variable {s : Snap} {fw : List Byte}

theorem length_packEnergy (s : Snap) : (packEnergy s).length = 50 := by
  simp [packEnergy, energyParts, length_beBytes, length_putFrame]

/-- The lengths of the parts. -/
def energyLens : List ℕ := [1, 2, 22, 6, 2, 2, 2, 1, 1, 2, 3, 3, 3]

theorem length_energyParts (s : Snap) : (energyParts s).map List.length = energyLens := by
  simp [energyParts, energyLens, length_beBytes, length_putFrame]

theorem seg_energy (j : ℕ) {a : List Byte} {i n : ℕ} (hget : (energyParts s)[j]? = some a)
    (hi : (energyLens.take j).sum = i) (hn : a.length = n) : seg (packEnergy s) i n = a := by
  refine seg_part j hget ?_ hn
  rw [List.length_flatten, List.map_take, length_energyParts, hi]

theorem be_energy (j : ℕ) {i n v : ℕ} (hget : (energyParts s)[j]? = some (beBytes n v))
    (hi : (energyLens.take j).sum = i) (hfit : i + n ≤ 50) :
    be (packEnergy s) i n = v % 256 ^ n := by
  rw [be_eq (length_packEnergy s ▸ hfit), seg_energy j hget hi (length_beBytes n v), val_beBytes]

theorem window_energy (j : ℕ) {r : ℕ → Option ℤ} {field none' i n : ℕ}
    (hget : (energyParts s)[j]? = some (beBytes n (scaled r field none')))
    (hi : (energyLens.take j).sum = i) (hfit : i + n ≤ 50) (hn : n ≤ 4)
    (hnone : none' = 256 ^ n - 1) : Window (packEnergy s) i n (r field) :=
  window (length_packEnergy s ▸ hfit) hn (seg_energy j hget hi (length_beBytes _ _)) hnone

theorem slotFn_energy {fn : Function} {slot : ℕ} (j : ℕ) {i : ℕ} (hnames : Function.Named fn)
    (hget : (energyParts s)[j]? = some (putFrame slot s fn.name))
    (hi : (energyLens.take j).sum = i) (hfit : i + slot ≤ 50) :
    (if allFF (packEnergy s) i slot then []
      else [(fn.name, slice fn (packEnergy s) i slot)]) = slotFn fn slot s := by
  have hseg := seg_energy j hget hi (length_putFrame _ _ _)
  have hlen : i + slot ≤ (packEnergy s).length := length_packEnergy s ▸ hfit
  rw [allFF_eq hlen, slice_eq hnames hlen, hseg]
  rfl

theorem energyMask_natCast (v : ℕ) : energyMask v % 256 ^ 3 = v % 2 ^ 24 := by
  unfold energyMask
  omega

theorem battNet_eq (v : ℤ) (net : ℕ) (hnet : net = energyMask v % 256 ^ 3) :
    (if net ≥ 0x800000 then (net : ℚ) - 0x1000000 else net) / 10 = counter v := by
  have hmod : Int.bmod v (2 ^ 24) = if net ≥ 0x800000 then (net : ℤ) - 0x1000000 else net := by
    unfold energyMask at hnet
    rw [Int.bmod_def]
    split_ifs <;> omega
  unfold counter
  rw [hmod]
  split_ifs <;> simp

theorem decode_energy (s : Snap) : ∃ d, decodeEnergy (packEnergy s) = .ok d ∧
    d.boot = s.boot % 2 ^ 16 ∧ d.fn = slotFn energy 22 s ++ slotFn water 6 s ∧
    d.batteryCurrent = opt (packEnergy s) 31 2 10 true ∧
    d.pvPower = opt (packEnergy s) 33 2 1 false ∧
    d.yieldTodayKwh = opt (packEnergy s) 35 2 100 false ∧
    d.chargeState = opt (packEnergy s) 37 1 1 false ∧
    d.errorCode = opt (packEnergy s) 38 1 1 false ∧
    d.batteryVoltage = opt (packEnergy s) 39 2 100 false ∧
    d.solarWh = ((s.solarDwh % 2 ^ 24 : ℕ) : ℚ) / 10 ∧
    d.loadWh = ((s.loadDwh % 2 ^ 24 : ℕ) : ℚ) / 10 ∧ d.battNetWh = counter s.battNetDwh := by
  have hhead : ¬ ((packEnergy s).length ≠ 50 ∨ byteAt (packEnergy s) 0 ≠ 1) :=
    fun h => h.elim (· (length_packEnergy s)) (· rfl)
  refine ⟨_, if_neg hhead, ?_, ?_, rfl, rfl, rfl, rfl, rfl, rfl, ?_, ?_, ?_⟩
  · exact be_energy 1 rfl rfl (by decide)
  · exact congrArg₂ _ (slotFn_energy 2 energy_slot.named rfl rfl (by decide))
      (slotFn_energy 3 water_slot.named rfl rfl (by decide))
  · dsimp only
    rw [be_energy (i := 41) 10 rfl rfl (by decide), energyMask_natCast]
  · dsimp only
    rw [be_energy (i := 44) 11 rfl rfl (by decide), energyMask_natCast]
  · exact battNet_eq _ _ (be_energy 12 rfl rfl (by decide))

theorem slotFn_keys {fn : Function} {slot : ℕ} {k : String} (h : (slotFn fn slot s).get k ≠ none) :
    fn.name = k := by
  unfold slotFn at h
  by_contra hk
  refine h ?_
  split_ifs <;> simp [hk]

theorem ShowsSlot.congr {fn : Function} {d d' : Dict (Dict ℕ)}
    (h : d.get fn.name = d'.get fn.name) : ShowsSlot fn s d ↔ ShowsSlot fn s d' := by
  unfold ShowsSlot
  rw [h]

theorem shows_energy : Shows [energy, water] s (slotFn energy 22 s ++ slotFn water 6 s) ↔
    Fills energy 22 s ∧ Fills water 6 s := by
  have hfirst : ShowsSlot energy s (slotFn energy 22 s ++ slotFn water 6 s) ↔
      Fills energy 22 s := by
    rw [← slot_iff energy_slot]
    refine ShowsSlot.congr ?_
    have hnone : (slotFn water 6 s).get energy.name = none := by
      by_contra h
      exact absurd (slotFn_keys h) (by decide)
    rw [Dict.get_append, hnone, Option.or_none]
  have hsecond : ShowsSlot water s (slotFn energy 22 s ++ slotFn water 6 s) ↔
      Fills water 6 s := by
    rw [← slot_iff water_slot]
    refine ShowsSlot.congr ?_
    have hnone : (slotFn energy 22 s).get water.name = none := by
      by_contra h
      exact absurd (slotFn_keys h) (by decide)
    rw [Dict.get_append, hnone, Option.none_or]
  constructor
  · intro h
    exact ⟨hfirst.mp (h.each _ (by simp)), hsecond.mp (h.each _ (by simp))⟩
  · rintro ⟨he, hw⟩
    refine ⟨fun k hk => ?_, ?_⟩
    · rw [Dict.get_append, ne_eq, Option.or_eq_none_iff, not_and_or] at hk
      cases hk with
      | inl hk => exact ⟨energy, by simp, slotFn_keys hk⟩
      | inr hk => exact ⟨water, by simp, slotFn_keys hk⟩
    · intro fn hfn
      obtain rfl | rfl : fn = energy ∨ fn = water := by simpa using hfn
      · exact hfirst.mpr he
      · exact hsecond.mpr hw

theorem shows_general : Shows [general] s (slotFn general 9 s) ↔ Fills general 9 s := by
  rw [← slot_iff general_slot]
  constructor
  · intro h
    exact h.each _ (by simp)
  · intro h
    refine ⟨fun k hk => ⟨general, by simp, slotFn_keys hk⟩, fun fn hfn => ?_⟩
    rw [List.mem_singleton.mp hfn]
    exact h

theorem length_textOf (fw : List Byte) : (textOf fw).length ≤ 8 :=
  ((List.takeWhile_prefix _).length_le).trans (List.length_take_le _ _)

theorem length_packDaily (s : Snap) (fw : List Byte) : (packDaily s fw).length = 24 := by
  have hfw := length_textOf fw
  simp [packDaily, dailyParts, length_beBytes, length_putFrame]
  omega

theorem textOf_fill (fw : List Byte) (n : ℕ) :
    (textOf fw ++ List.replicate n 0).takeWhile (· ≠ 0) = textOf fw := by
  have hall : ∀ x ∈ textOf fw, decide (x ≠ 0) = true := 
    fun x hx => List.mem_takeWhile_imp (p := fun x => decide (x ≠ 0)) hx
  rw [List.takeWhile_append_of_pos hall]
  cases n <;> simp

theorem decode_daily (s : Snap) (fw : List Byte) : ∃ d, decodeDaily (packDaily s fw) = .ok d ∧
    d.boot = s.boot % 2 ^ 16 ∧ d.uptimeS = s.uptimeS % 2 ^ 32 ∧ d.fn = slotFn general 9 s ∧
    d.fw = textOf fw := by
  have hlens : ((dailyParts s fw).take 4).map List.length = [1, 2, 4, 9] := by
    simp [dailyParts, length_beBytes, length_putFrame]
  have hseg : ∀ j (a : List Byte) i, (dailyParts s fw)[j]? = some a → j ≤ 4 →
      (([1, 2, 4, 9] : List ℕ).take j).sum = i → seg (packDaily s fw) i a.length = a := by
    intro j a i hget hj hi
    refine seg_part j hget ?_ rfl
    rw [List.length_flatten, ← hi, ← hlens, ← List.map_take, List.take_take, Nat.min_eq_left hj]
  have hhead : ¬ ((packDaily s fw).length ≠ 24 ∨ byteAt (packDaily s fw) 0 ≠ 1) :=
    fun h => h.elim (· (length_packDaily s fw)) (· rfl)
  have hbe : ∀ j i n v, (dailyParts s fw)[j]? = some (beBytes n v) → j ≤ 4 →
      (([1, 2, 4, 9] : List ℕ).take j).sum = i → i + n ≤ 24 →
      be (packDaily s fw) i n = v % 256 ^ n := by
    intro j i n v hget hj hi hfit
    have hpart := hseg j _ i hget hj hi
    rw [length_beBytes] at hpart
    rw [be_eq (length_packDaily s fw ▸ hfit), hpart, val_beBytes]
  have hslot := hseg 3 _ 7 rfl (by decide) rfl
  rw [length_putFrame] at hslot
  have hfit : 7 + 9 ≤ (packDaily s fw).length := length_packDaily s fw ▸ (by decide)
  refine ⟨_, if_neg hhead, hbe 1 1 2 _ rfl (by decide) rfl (by decide),
    hbe 2 3 4 _ rfl (by decide) rfl (by decide), ?_, ?_⟩
  · dsimp only
    rw [allFF_eq hfit, slice_eq general_slot.named hfit, hslot]
    rfl
  · have htail : packDaily s fw = ((dailyParts s fw).take 4).flatten ++
        (textOf fw ++ List.replicate (8 - (textOf fw).length) 0) := by
      simp [packDaily, dailyParts]
    have hlen : ((dailyParts s fw).take 4).flatten.length = 16 := by
      rw [List.length_flatten, hlens]
      rfl
    have hfull : (textOf fw ++ List.replicate (8 - (textOf fw).length) (0 : Byte)).length = 8 := by
      have hfw := length_textOf fw
      rw [List.length_append, List.length_replicate]
      omega
    dsimp only
    rw [htail, ← hlen, List.drop_left, List.take_of_length_le hfull.le, textOf_fill]

theorem charIndex_charName (i : Fin nchars) : charIndex (charName i) = some i := by
  revert i
  decide

theorem frameOf_charName (s : Snap) (i : Fin nchars) : s.frameOf (charName i) = s.frame i := by
  unfold Snap.frameOf
  rw [charIndex_charName]
  rfl

/-- The function of an index, of the table of the formatter. -/
def functionAt (i : Fin nchars) : Function := functions.get i

theorem functions_at (i : Fin nchars) : functions[i.val]? = some (functionAt i) :=
  List.getElem?_eq_getElem i.isLt

theorem functionAt_name (i : Fin nchars) : (functionAt i).name = charName i := by
  revert i
  decide

theorem functionAt_mem (i : Fin nchars) : functionAt i ∈ functions := List.get_mem _ _

/-- The functions of whole entries. -/
def shownEntries (es : List Entry) (d : Dict (Dict ℕ)) : Dict (Dict ℕ) :=
  es.foldl (fun d e => d.set (charName e.1) (decode (functionAt e.1) e.2)) d

theorem decodeChangedFrom_entries (n : ℕ) (front b : List Byte) (es : List Entry)
    (d : Dict (Dict ℕ)) (h : parse n b = some es) :
    decodeChangedFrom (front ++ b) n front.length d = .ok (shownEntries es d) := by
  induction n generalizing front b es d with
  | zero =>
    cases b with
    | nil => cases h; rfl
    | cons c b => cases b <;> cases (show none = some es from h)
  | succ n ih =>
    match b with
    | [] =>
      cases h
      rw [decodeChangedFrom, List.append_nil, if_neg (Nat.lt_irrefl _)]
      rfl
    | [c] => cases (show none = some es from h)
    | c :: len :: rest =>
      rw [parse] at h
      by_cases hc : c.toNat < nchars
      · rw [dif_pos hc] at h
        by_cases hlen : len.toNat ≤ rest.length
        · rw [if_pos hlen, Option.map_eq_some_iff] at h
          obtain ⟨es', hparse, rfl⟩ := h
          have hb : front ++ c :: len :: rest = (front ++ [c, len] ++ rest.take len.toNat) ++
              rest.drop len.toNat := by simp
          have hfront : (front ++ [c, len] ++ rest.take len.toNat).length =
              front.length + 2 + len.toNat := by
            simp
            omega
          have hlong : (front ++ c :: len :: rest).length = front.length + 2 + rest.length := by
            simp
            omega
          have hchar : byteAt (front ++ c :: len :: rest) front.length = c := by
            simp [byteAt]
          have hbyte : byteAt (front ++ c :: len :: rest) (front.length + 1) = len := by
            simp [byteAt]
          have hseg : seg (front ++ c :: len :: rest) (front.length + 2) len.toNat =
              rest.take len.toNat := by
            unfold seg
            rw [List.drop_length_add_append]
            rfl
          have hok : ¬ (front.length + 2 > (front ++ c :: len :: rest).length ∨
              c.toNat ≥ functions.length ∨
              front.length + 2 + len.toNat > (front ++ c :: len :: rest).length) := by
            have hn : functions.length = nchars := rfl
            omega
          have hf := functions_at ⟨c.toNat, hc⟩
          rw [decodeChangedFrom, if_pos (by omega), hchar, hbyte, if_neg hok, hf]
          dsimp only
          rw [slice_eq (functions_named _ (functionAt_mem _)) (by omega), hseg, functionAt_name,
            ← hfront, hb, ih _ _ es' _ hparse]
          rfl
        · rw [if_neg hlen] at h
          cases h
      · rw [dif_neg hc] at h
        cases h

theorem charName_inj {i j : Fin nchars} (h : charName i = charName j) : i = j := by
  have hi := charIndex_charName i
  rw [h, charIndex_charName] at hi
  exact (Option.some.inj hi).symm

theorem shownEntries_get (es : List (Fin nchars)) (d : Dict (Dict ℕ)) (k : String) :
    (shownEntries (es.map s.entry) d).get k =
      match es.find? fun i => charName i = k with
      | some i => some (decode (functionAt i) (s.frame i))
      | none => d.get k := by
  induction es generalizing d with
  | nil => rfl
  | cons i es ih =>
    have hcons : shownEntries ((i :: es).map s.entry) d =
        shownEntries (es.map s.entry) (d.set (charName i) (decode (functionAt i) (s.frame i))) :=
          rfl
    rw [hcons, ih, Dict.get_set]
    by_cases hk : charName i = k
    · rw [List.find?_cons_of_pos (by simpa using hk), if_pos hk]
      cases hfind : es.find? fun i => charName i = k with
      | none => rfl
      | some j =>
        have hj : charName j = k := by simpa using List.find?_some hfind
        rw [charName_inj (hj.trans hk.symm)]
    · rw [List.find?_cons_of_neg (by simpa using hk), if_neg hk]

theorem mem_pickedFunctions {picked : ℕ} {fn : Function} :
    fn ∈ pickedFunctions picked ↔
      ∃ i : Fin nchars, picked.testBit i = true ∧ fn = functionAt i := by
  unfold pickedFunctions
  rw [List.mem_filterMap]
  constructor
  · rintro ⟨i, -, hi⟩
    rw [functions_at] at hi
    split_ifs at hi with hbit
    exact ⟨i, hbit, (Option.some.inj hi).symm⟩
  · rintro ⟨i, hbit, rfl⟩
    exact ⟨i, List.mem_finRange i, by rw [if_pos hbit, functions_at]⟩

/-- Whatever the tracker and the limit are, the formatter shows the picked functions. -/
theorem shows_changed (t : Tracker) (s : Snap) (max : ℕ) :
    ∃ d, decodeChanged (packChanged t s max).1 = .ok d ∧
      Shows (pickedFunctions (packChanged t s max).2) s d := by
  obtain ⟨es, hes⟩ := packed t s max
  have hparse : parse (packChanged t s max).1.length (packChanged t s max).1 =
      some (es.map s.entry) := hes.parses
  have hpicked : ∀ i : Fin nchars, (packChanged t s max).2.testBit i = true ↔ i ∈ es := by
    intro i
    rw [hes.picked]
    constructor
    · rintro ⟨j, hj, hji⟩
      exact Fin.ext hji ▸ hj
    · intro hi
      exact ⟨i, hi, rfl⟩
  have hget : ∀ i ∈ es, (shownEntries (es.map s.entry) []).get (charName i) =
      some (decode (functionAt i) (s.frame i)) := by
    intro i hi
    rw [shownEntries_get]
    cases hfind : es.find? fun j => charName j = charName i with
    | none =>
      have hno := List.find?_eq_none.mp hfind i hi
      simp at hno
    | some j =>
      have hj : charName j = charName i := by simpa using List.find?_some hfind
      rw [charName_inj hj]
  refine ⟨_, decodeChangedFrom_entries _ [] _ _ [] hparse, fun k hk => ?_, fun fn hfn => ?_⟩
  · rw [shownEntries_get] at hk
    cases hfind : es.find? fun i => charName i = k with
    | none =>
      rw [hfind] at hk
      exact absurd rfl hk
    | some i =>
      have hi : charName i = k := by simpa using List.find?_some hfind
      exact ⟨functionAt i, mem_pickedFunctions.mpr
        ⟨i, (hpicked i).mpr (List.mem_of_find?_eq_some hfind), rfl⟩, (functionAt_name i).trans hi⟩
  · obtain ⟨i, hbit, rfl⟩ := mem_pickedFunctions.mp hfn
    have hi := (hpicked i).mp hbit
    unfold ShowsSlot
    rw [functionAt_name, hget i hi, frameOf_charName]
    refine ⟨⟨fun _ => (hes.due i hi).2, fun _ => rfl⟩, fun e he k => ?_⟩
    rw [← Option.some.inj he]

theorem current_iff (h : InRange s) :
    opt (packEnergy s) 31 2 10 true = shown (s.mppt 0) 10 ↔ s.mppt 0 ≠ some (-1) := by
  refine opt_signed (window_energy 4 rfl rfl (by decide) (by decide) rfl) fun v hv => ?_
  have hrange := h.batteryCurrent v hv
  omega

theorem word_shown {r : Option ℤ} {i : ℕ} {k : ℚ} (hw : Window (packEnergy s) i 2 r) (hk : k ≠ 0)
    (hr : ∀ v, r = some v → 0 ≤ v ∧ v < 2 ^ 16 - 1) :
    opt (packEnergy s) i 2 k false = shown r k := by
  refine (opt_unsigned hw hk fun v hv => ?_).mpr fun v hv => ?_
  all_goals
    have hrange := hr v hv
    omega

theorem byte_iff {r : Option ℤ} {i : ℕ} (hw : Window (packEnergy s) i 1 r)
    (hr : ∀ v, r = some v → 0 ≤ v ∧ v < 2 ^ 8) :
    opt (packEnergy s) i 1 1 false = shown r 1 ↔ r ≠ some 255 := by
  rw [opt_unsigned hw one_ne_zero fun v hv => by have hrange := hr v hv; omega]
  constructor
  · rintro hall rfl
    exact (hall 255 rfl).2 rfl
  · intro hne v hv
    refine ⟨(hr v hv).1, fun hmax => hne ?_⟩
    rw [hv, hmax]
    rfl

theorem voltage_iff (h : InRange s) : opt (packEnergy s) 39 2 100 false = shown (s.bsense 0) 100 ↔
    ∀ v, s.bsense 0 = some v → 0 ≤ v := by
  refine (opt_unsigned (window_energy 9 rfl rfl (by decide) (by decide) rfl) (by norm_num)
    fun v hv => by have hrange := h.batteryVoltage v hv; omega).trans ?_
  refine forall_congr' fun v => forall_congr' fun hv => ?_
  have hrange := h.batteryVoltage v hv
  omega

theorem carried_of_undone (h : InRange s) (hundone : Undone s fw) : Carried s := by
  obtain ⟨e, he, -, hfn, hcurrent, -, -, hstate, herror, hvoltage, -⟩ := decode_energy s
  obtain ⟨d, hd, -, -, hdfn, -⟩ := decode_daily s fw
  obtain ⟨⟨e', he', ue⟩, -, d', hd', ud⟩ := hundone
  obtain rfl : e = e' := Except.ok.inj (he.symm.trans he')
  obtain rfl : d = d' := Except.ok.inj (hd.symm.trans hd')
  obtain ⟨henergy, hwater⟩ := shows_energy.mp (hfn ▸ ue.fn)
  exact {
    energy := henergy
    water := hwater
    general := shows_general.mp (hdfn ▸ ud.fn)
    batteryCurrent := (current_iff h).mp (hcurrent ▸ ue.batteryCurrent)
    chargeState := (byte_iff (window_energy 7 rfl rfl (by decide) (by decide) rfl)
      h.chargeState).mp (hstate ▸ ue.chargeState)
    errorCode := (byte_iff (window_energy 8 rfl rfl (by decide) (by decide) rfl)
      h.errorCode).mp (herror ▸ ue.errorCode)
    batteryVoltage := (voltage_iff h).mp (hvoltage ▸ ue.batteryVoltage) }

theorem undone_of_carried (h : InRange s) (c : Carried s) : Undone s fw := by
  obtain ⟨e, he, hboot, hfn, hcurrent, hpv, hyield, hstate, herror, hvoltage, hsolar,
      hload, hnet⟩ :=
    decode_energy s
  obtain ⟨d, hd, hdboot, huptime, hdfn, hfw⟩ := decode_daily s fw
  refine ⟨⟨e, he, ?_⟩, fun t max => shows_changed t s max, d, hd, hdboot, huptime,
    hdfn ▸ shows_general.mpr c.general, hfw⟩
  exact {
    boot := hboot
    fn := hfn ▸ shows_energy.mpr ⟨c.energy, c.water⟩
    batteryCurrent := hcurrent.trans ((current_iff h).mpr c.batteryCurrent)
    pvPower := hpv.trans
      (word_shown (window_energy 5 rfl rfl (by decide) (by decide) rfl) (by norm_num) h.pvPower)
    yieldTodayKwh := hyield.trans (word_shown
      (window_energy 6 rfl rfl (by decide) (by decide) rfl) (by norm_num) h.yieldTodayKwh)
    chargeState := hstate.trans ((byte_iff
      (window_energy 7 rfl rfl (by decide) (by decide) rfl) h.chargeState).mpr c.chargeState)
    errorCode := herror.trans ((byte_iff
      (window_energy 8 rfl rfl (by decide) (by decide) rfl) h.errorCode).mpr c.errorCode)
    batteryVoltage := hvoltage.trans ((voltage_iff h).mpr c.batteryVoltage)
    solarWh := hsolar
    loadWh := hload
    battNetWh := hnet }

/-- The formatter undoes the packing of exactly those snapshots that the layouts can carry. -/
theorem undone_iff (s : Snap) (fw : List Byte) (h : InRange s) : Undone s fw ↔ Carried s :=
  ⟨carried_of_undone h, undone_of_carried h⟩

/-- A snapshot of an energy frame of `bytes` and of a battery current. -/
def energySnap (bytes : List Byte) (h : bytes.length ≤ frameMax) (current : ℤ) : Snap where
  frame i := if charName i = "energy" then bytes else []
  frame_le i := by split_ifs; exacts [h, Nat.zero_le _]
  mppt field := if field = 0 then some current else none
  bsense _ := none
  solarDwh := 0
  loadDwh := 0
  battNetDwh := 0
  boot := 1
  uptimeS := 0

theorem energySnap_inRange (bytes : List Byte) (h : bytes.length ≤ frameMax) {current : ℤ}
    (hc : -2 ^ 15 ≤ current ∧ current < 2 ^ 15 - 1) : InRange (energySnap bytes h current) := by
  constructor <;> intro v hv <;> simp [energySnap] at hv
  exact hv ▸ hc

/-- A frame of 22 bytes and a current of 1.2 A come back. -/
theorem undone_whole : InRange (energySnap (List.replicate 22 0) (by decide) 12) ∧
    Undone (energySnap (List.replicate 22 0) (by decide) 12) [] := by
  have hrange : InRange (energySnap (List.replicate 22 0) (by decide) 12) :=
    energySnap_inRange _ _ (by decide)
  refine ⟨hrange, (undone_iff _ _ hrange).mpr ⟨.inr ⟨by decide, 0, by decide, by decide⟩,
    .inl (by decide), .inl (by decide), by decide, by decide, by decide, ?_⟩⟩
  intro v hv
  cases hv

/-- A frame of ten bytes comes back with fields that it does not have. -/
theorem short_frame_grows : InRange (energySnap (List.replicate 10 0) (by decide) 12) ∧
    ¬ Undone (energySnap (List.replicate 10 0) (by decide) 12) [] := by
  have hrange : InRange (energySnap (List.replicate 10 0) (by decide) 12) :=
    energySnap_inRange _ _ (by decide)
  refine ⟨hrange, fun hundone => ?_⟩
  cases (carried_of_undone hrange hundone).energy with
  | inl hnone => exact absurd hnone (by decide)
  | inr hfull => exact absurd hfull.1 (by decide)

end OpenCalifornia.Lora
