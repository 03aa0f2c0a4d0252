import Mathlib
import OpenCalifornia.Control.CodecTwin
import OpenCalifornia.Lora.Pack

/-! # The telemetry of the uplinks

Ports 2 and 4 of `lora.c`, and the formatter that The Things Stack applies to ports 2, 3 and 4
(the template of `gen_lora_dict.py`). 0xFF stands for what is absent. -/

namespace OpenCalifornia.Lora
open Lib Lib.Bits Control Control.Firmware

/-- `be` of the satellite: the low bytes of a number, the highest first. -/
def beBytes : ℕ → ℕ → List Byte
  | 0, _ => []
  | n + 1, v => beBytes n (v / 256) ++ [BitVec.ofNat 8 v]

def charIndex (fn : String) : Option (Fin nchars) :=
  (List.finRange nchars).find? fun i => charName i = fn

/-- The stored frame of a function, without bytes where there is none. -/
def Snap.frameOf (s : Snap) (fn : String) : List Byte := ((charIndex fn).map s.frame).getD []

def putFrame (slot : ℕ) (s : Snap) (fn : String) : List Byte :=
  let frame := (s.frameOf fn).take slot
  frame ++ List.replicate (slot - frame.length) 255

/-- A reading in its steps, a `uint32_t`. -/
def scaled (r : ℕ → Option ℤ) (field none' : ℕ) : ℕ :=
  match r field with
  | none => none'
  | some v => (v % 2 ^ 32).toNat

/-- `CALI_ENERGY_MASK` -/
def energyMask (v : ℤ) : ℕ := (v % 2 ^ 24).toNat

def energyParts (s : Snap) : List (List Byte) :=
  [[1], beBytes 2 s.boot, putFrame 22 s "energy", putFrame 6 s "water",
    beBytes 2 (scaled s.mppt 0 0xFFFF), beBytes 2 (scaled s.mppt 5 0xFFFF),
    beBytes 2 (scaled s.mppt 6 0xFFFF), beBytes 1 (scaled s.mppt 2 0xFF),
    beBytes 1 (scaled s.mppt 3 0xFF), beBytes 2 (scaled s.bsense 0 0xFFFF),
    beBytes 3 (energyMask s.solarDwh), beBytes 3 (energyMask s.loadDwh),
    beBytes 3 (energyMask s.battNetDwh)]

def packEnergy (s : Snap) : List Byte := (energyParts s).flatten

/-- The text in `fw`, up to its NUL. -/
def textOf (fw : List Byte) : List Byte := (fw.take 8).takeWhile (· ≠ 0)

def dailyParts (s : Snap) (fw : List Byte) : List (List Byte) :=
  [[1], beBytes 2 s.boot, beBytes 4 s.uptimeS, putFrame 9 s "general", textOf fw,
    List.replicate (8 - (textOf fw).length) 0]

def packDaily (s : Snap) (fw : List Byte) : List Byte := (dailyParts s fw).flatten

/-- `FUNCTIONS` -/
def functions : List Function :=
  [airheater, campingmode, cooler, energy, general, generalpurposesignals, lighting,
    livingroomheater, roof, roofaircondition, satelliteantenna, stairs, vehicle, water]

def byteAt (b : List Byte) (i : ℕ) : Byte := b.getD i 0

def be (b : List Byte) (i n : ℕ) : ℕ :=
  (List.range n).foldl (fun v k => v * 256 + (byteAt b (i + k)).toNat) 0

def sbe (b : List Byte) (i n : ℕ) : ℤ :=
  if (be b i n : ℤ) ≥ 2 ^ (8 * n) / 2 then be b i n - 2 ^ (8 * n) else be b i n

def allFF (b : List Byte) (i n : ℕ) : Bool := (List.range n).all fun k => byteAt b (i + k) = 255

/-- A field of `slice`, bit by bit. -/
def sliceField (b : List Byte) (start offset width : ℕ) : ℕ :=
  (List.range width).foldl (fun v i =>
    v * 2 + ((byteAt b (start + (offset + i) / 8)).getLsbD (7 - (offset + i) % 8)).toNat) 0

def slice (fn : Function) (b : List Byte) (start len : ℕ) : Dict ℕ :=
  fn.stateFields.foldl (fun out f =>
    if f.offset + f.width > len * 8 then out
    else out.set f.name (sliceField b start f.offset f.width)) []

def opt (b : List Byte) (i n : ℕ) (k : ℚ) (signed : Bool) : Option ℚ :=
  if allFF b i n then none else some ((if signed then (sbe b i n : ℚ) else (be b i n : ℚ)) / k)

structure EnergyData where
  boot : ℕ
  fn : Dict (Dict ℕ)
  batteryCurrent : Option ℚ
  pvPower : Option ℚ
  yieldTodayKwh : Option ℚ
  chargeState : Option ℚ
  errorCode : Option ℚ
  batteryVoltage : Option ℚ
  solarWh : ℚ
  loadWh : ℚ
  battNetWh : ℚ

def decodeEnergy (b : List Byte) : Except String EnergyData :=
  if b.length ≠ 50 ∨ byteAt b 0 ≠ 1 then .error "port 2 needs 50 bytes, version 1"
  else
    let net := be b 47 3
    .ok {
      boot := be b 1 2
      fn := (if allFF b 3 22 then [] else [("energy", slice energy b 3 22)]) ++
        (if allFF b 25 6 then [] else [("water", slice water b 25 6)])
      batteryCurrent := opt b 31 2 10 true
      pvPower := opt b 33 2 1 false
      yieldTodayKwh := opt b 35 2 100 false
      chargeState := opt b 37 1 1 false
      errorCode := opt b 38 1 1 false
      batteryVoltage := opt b 39 2 100 false
      solarWh := be b 41 3 / 10
      loadWh := be b 44 3 / 10
      battNetWh := (if net ≥ 0x800000 then (net : ℚ) - 0x1000000 else net) / 10 }

/-- `decodeChanged` from byte `i` on. Every entry takes two bytes at least. -/
def decodeChangedFrom (b : List Byte) : ℕ → ℕ → Dict (Dict ℕ) → Except String (Dict (Dict ℕ))
  | 0, _, fn => .ok fn
  | n + 1, i, fn =>
    if i < b.length then
      if i + 2 > b.length ∨ (byteAt b i).toNat ≥ functions.length ∨
          i + 2 + (byteAt b (i + 1)).toNat > b.length then
        .error ("port 3: bad entry at byte " ++ toString i)
      else
        match functions[(byteAt b i).toNat]? with
        | some f =>
          let len := (byteAt b (i + 1)).toNat
          decodeChangedFrom b n (i + 2 + len) (fn.set f.name (slice f b (i + 2) len))
        | none => .ok fn
    else .ok fn

def decodeChanged (b : List Byte) : Except String (Dict (Dict ℕ)) :=
  decodeChangedFrom b b.length 0 []

structure DailyData where
  boot : ℕ
  uptimeS : ℕ
  fn : Dict (Dict ℕ)
  fw : List Byte

def decodeDaily (b : List Byte) : Except String DailyData :=
  if b.length ≠ 24 ∨ byteAt b 0 ≠ 1 then .error "port 4 needs 24 bytes, version 1"
  else
    .ok {
      boot := be b 1 2
      uptimeS := be b 3 4
      fn := if allFF b 7 9 then [] else [("general", slice general b 7 9)]
      fw := ((b.drop 16).take 8).takeWhile (· ≠ 0) }

/-- The `n` bytes from `i` on. -/
def seg (b : List Byte) (i n : ℕ) : List Byte := (b.drop i).take n

variable {b : List Byte} {i n : ℕ}

theorem seg_part {parts : List (List Byte)} {a : List Byte} (j : ℕ) (hget : parts[j]? = some a)
    (hi : (parts.take j).flatten.length = i) (hn : a.length = n) : seg parts.flatten i n = a := by
  obtain ⟨hj, ha⟩ := List.getElem?_eq_some_iff.mp hget
  have hsplit : parts.flatten = (parts.take j).flatten ++ (a ++ (parts.drop (j + 1)).flatten) := by
    rw [← ha, ← List.flatten_cons, ← List.drop_eq_getElem_cons hj, ← List.flatten_append,
      List.take_append_drop]
  unfold seg
  rw [hsplit, ← hi, List.drop_left, List.take_left' hn]

theorem length_seg (h : i + n ≤ b.length) : (seg b i n).length = n := by
  unfold seg
  rw [List.length_take, List.length_drop]
  omega

theorem byteAt_seg {k : ℕ} (hk : k < n) : byteAt (seg b i n) k = byteAt b (i + k) := by
  unfold seg byteAt
  rw [List.getD_eq_getElem?_getD, List.getD_eq_getElem?_getD, List.getElem?_take_of_lt hk,
    List.getElem?_drop]

/-- The number that bytes spell. -/
def val (l : List Byte) : ℕ := l.foldl (fun v x => v * 256 + x.toNat) 0

theorem seg_eq_map (h : i + n ≤ b.length) :
    seg b i n = (List.range n).map fun k => byteAt b (i + k) := by
  refine List.ext_getElem (by rw [length_seg h, List.length_map, List.length_range]) ?_
  intro k h₁ h₂
  have hk : k < n := by simpa using h₂
  rw [List.getElem_map, List.getElem_range, ← byteAt_seg (n := n) hk, byteAt,
    List.getD_eq_getElem _ _ h₁]

theorem be_eq (h : i + n ≤ b.length) : be b i n = val (seg b i n) := by
  unfold be val
  rw [seg_eq_map h, List.foldl_map]

theorem allFF_eq (h : i + n ≤ b.length) : allFF b i n = (seg b i n).all (· = 255) := by
  unfold allFF
  rw [seg_eq_map h, List.all_map]
  rfl

theorem length_beBytes (n v : ℕ) : (beBytes n v).length = n := by
  induction n generalizing v with
  | zero => rfl
  | succ n ih => rw [beBytes, List.length_append, ih, List.length_singleton]

theorem val_beBytes (n v : ℕ) : val (beBytes n v) = v % 256 ^ n := by
  induction n generalizing v with
  | zero => rw [Nat.pow_zero, Nat.mod_one]; rfl
  | succ n ih =>
    have hval : val (beBytes (n + 1) v) = val (beBytes n (v / 256)) * 256 + v % 256 := by
      rw [beBytes, val, List.foldl_append, ← val, List.foldl_cons, List.foldl_nil,
        BitVec.toNat_ofNat]
    rw [hval, ih, Nat.pow_succ', Nat.mod_mul]
    omega

theorem all_beBytes (n v : ℕ) :
    (beBytes n v).all (· = 255) = true ↔ v % 256 ^ n = 256 ^ n - 1 := by
  induction n generalizing v with
  | zero => simp [beBytes, Nat.mod_one]
  | succ n ih =>
    have hlow : BitVec.ofNat 8 v = 255 ↔ v % 256 = 255 := by
      rw [← BitVec.toNat_inj, BitVec.toNat_ofNat]
      rfl
    have hpos : 0 < 256 ^ n := Nat.pow_pos (by decide)
    rw [beBytes, List.all_append, Bool.and_eq_true, ih, List.all_cons, List.all_nil, Bool.and_true,
      decide_eq_true_iff, hlow, Nat.pow_succ', Nat.mod_mul]
    have hlt := Nat.mod_lt (v / 256) hpos
    omega

theorem sliceField_eq {start len offset width : ℕ} (hfit : start + len ≤ b.length)
    (h : offset + width ≤ 8 * len) :
    sliceField b start offset width = getField (toBits (seg b start len)) offset width := by
  have hlen : (seg b start len).length = len := length_seg hfit
  have hbits : sliceField b start offset width =
      ofBits ((List.range width).map fun k => bitAt (seg b start len) (offset + k)) := by
    unfold sliceField
    have hall : ∀ w, w ≤ width → (List.range w).foldl (fun v i => v * 2 +
        ((byteAt b (start + (offset + i) / 8)).getLsbD (7 - (offset + i) % 8)).toNat) 0 =
        ofBits ((List.range w).map fun k => bitAt (seg b start len) (offset + k)) := by
      intro w hw
      induction w with
      | zero => rfl
      | succ w ih =>
        rw [List.range_succ, List.foldl_append, List.map_append, ih (by omega), List.map_singleton,
          ofBits_concat, List.foldl_cons, List.foldl_nil, Nat.mul_comm]
        congr 2
        show (byteAt b _).getLsbD _ = (byteAt (seg b start len) _).getLsbD _
        rw [byteAt_seg (by omega)]
    exact hall width (Nat.le_refl _)
  rw [hbits, getField, window_toBits _ (by omega)]

theorem set_new {β : Type} {d : Dict β} {k : String} (h : k ∉ d.map Prod.fst) (v : β) :
    d.set k v = d ++ [(k, v)] := by
  induction d with
  | nil => rfl
  | cons kv d ih =>
    obtain ⟨k', v'⟩ := kv
    rw [List.map_cons, List.mem_cons, not_or] at h
    rw [Dict.set, if_neg (Ne.symm h.1), ih h.2, List.cons_append]

/-- The names of the fields of a function differ. -/
def Function.Named (fn : Function) : Prop := (fn.stateFields.map Field.name).Nodup

theorem functions_named : ∀ fn ∈ functions, Function.Named fn := by
  unfold Function.Named
  decide

theorem slice_eq {fn : Function} (hnames : Function.Named fn) {start len : ℕ}
    (hfit : start + len ≤ b.length) : slice fn b start len = decode fn (seg b start len) := by
  have hbits : (toBits (seg b start len)).length = 8 * len := by
    rw [length_toBits, length_seg hfit]
  have hall : ∀ (fs : List Field) (d : Dict ℕ), (fs.map Field.name).Nodup →
      (∀ f ∈ fs, f.name ∉ d.map Prod.fst) →
      fs.foldl (fun out f => if f.offset + f.width > len * 8 then out
        else out.set f.name (sliceField b start f.offset f.width)) d =
      d ++ (fs.filter fun f => f.offset + f.width ≤ (toBits (seg b start len)).length).map fun f =>
        (f.name, getField (toBits (seg b start len)) f.offset f.width) := by
    intro fs
    induction fs with
    | nil => intro d _ _; simp
    | cons f fs ih =>
      intro d hnodup hnew
      rw [List.map_cons, List.nodup_cons] at hnodup
      obtain ⟨hf, hfs⟩ := List.forall_mem_cons.mp hnew
      rw [List.foldl_cons, List.filter_cons]
      by_cases hlong : f.offset + f.width > len * 8
      · rw [if_pos hlong, if_neg (by rw [hbits, decide_eq_true_iff]; omega)]
        exact ih d hnodup.2 hfs
      · rw [if_neg hlong, if_pos (by rw [hbits, decide_eq_true_iff]; omega),
          sliceField_eq hfit (by omega), set_new hf, ih _ hnodup.2 ?_]
        · simp
        · intro g hg hmem
          rw [List.map_append, List.mem_append] at hmem
          cases hmem with
          | inl hmem => exact hfs g hg hmem
          | inr hmem =>
            have hname : g.name = f.name := by simpa using hmem
            exact hnodup.1 (hname ▸ List.mem_map_of_mem hg)
  exact (hall fn.stateFields [] hnames fun _ _ hmem => (by cases hmem))

theorem length_putFrame (slot : ℕ) (s : Snap) (fn : String) :
    (putFrame slot s fn).length = slot := by
  unfold putFrame
  dsimp only
  rw [List.length_append, List.length_replicate, List.length_take]
  omega

theorem all_putFrame (slot : ℕ) (s : Snap) (fn : String) :
    (putFrame slot s fn).all (· = 255) = ((s.frameOf fn).take slot).all (· = 255) := by
  unfold putFrame
  dsimp only
  rw [List.all_append]
  have hfill : ∀ k, (List.replicate k (255 : Byte)).all (· = 255) = true := by
    intro k
    simp
  rw [hfill, Bool.and_true]

/-- A slot that a function's fields end with. -/
structure SlotOf (fn : Function) (slot : ℕ) : Prop where
  named : Function.Named fn
  fits : ∀ f ∈ fn.stateFields, f.offset + f.width ≤ 8 * slot
  ends : ∃ f ∈ fn.stateFields, 8 * slot < f.offset + f.width + 8

theorem energy_slot : SlotOf energy 22 := ⟨functions_named _ (by decide), by decide, by decide⟩
theorem water_slot : SlotOf water 6 := ⟨functions_named _ (by decide), by decide, by decide⟩
theorem general_slot : SlotOf general 9 := ⟨functions_named _ (by decide), by decide, by decide⟩

/-- What the formatter shows of a slot. -/
def slotFn (fn : Function) (slot : Nat) (s : Snap) : Dict (Dict ℕ) :=
  if (putFrame slot s fn.name).all (· = 255) then []
  else [(fn.name, decode fn (putFrame slot s fn.name))]

/-- The frame is none, or it fills its slot with something else than the fill. -/
def Fills (fn : Function) (slot : ℕ) (s : Snap) : Prop :=
  s.frameOf fn.name = [] ∨
    slot ≤ (s.frameOf fn.name).length ∧ ∃ x ∈ (s.frameOf fn.name).take slot, x ≠ 255

/-- The formatter shows the function exactly as it is decoded from its frame. -/
def ShowsSlot (fn : Function) (s : Snap) (d : Dict (Dict ℕ)) : Prop :=
  ((d.get fn.name).isSome = true ↔ s.frameOf fn.name ≠ []) ∧
    ∀ e, d.get fn.name = some e → ∀ k, e.get k = (decode fn (s.frameOf fn.name)).get k

variable {fn : Function} {slot : ℕ} {s : Snap}

theorem decode_names (fn : Function) (raw : List Byte) (k : String) :
    (decode fn raw).get k ≠ none ↔
      ∃ f ∈ fn.stateFields, f.name = k ∧ f.offset + f.width ≤ 8 * raw.length := by
  rw [ne_eq, Dict.get_eq_none, not_not, decode]
  simp [length_toBits, and_comm, and_left_comm]

theorem slot_iff (h : SlotOf fn slot) : ShowsSlot fn s (slotFn fn slot s) ↔ Fills fn slot s := by
  have hget : (slotFn fn slot s).get fn.name =
      if ((s.frameOf fn.name).take slot).all (· = 255) then none
      else some (decode fn (putFrame slot s fn.name)) := by
    unfold slotFn
    rw [all_putFrame]
    split_ifs <;> simp
  unfold ShowsSlot Fills
  rw [hget]
  cases hframe : s.frameOf fn.name with
  | nil => simp
  | cons x xs =>
    rw [← hframe]
    have hne : s.frameOf fn.name ≠ [] := by simp [hframe]
    simp only [hne, ne_eq, not_false_eq_true, iff_true, false_or]
    by_cases hall : ((s.frameOf fn.name).take slot).all (· = 255) = true
    · rw [if_pos hall]
      constructor
      · rintro ⟨hnone, -⟩
        cases hnone
      · rintro ⟨-, x, hx, hx'⟩
        exact absurd (of_decide_eq_true (List.all_eq_true.mp hall x hx)) hx'
    · rw [if_neg hall]
      have hother : ∃ x ∈ (s.frameOf fn.name).take slot, x ≠ 255 := by simpa using hall
      simp only [Option.isSome_some, true_and, Option.some.injEq, forall_eq', hother, and_true]
      constructor
      · intro hsame
        by_contra hshort
        obtain ⟨f, hf, hend⟩ := h.ends
        have hslot : (decode fn (putFrame slot s fn.name)).get f.name ≠ none :=
          (decode_names _ _ _).mpr ⟨f, hf, rfl, by rw [length_putFrame]; exact h.fits f hf⟩
        rw [hsame, decode_names] at hslot
        obtain ⟨g, hg, hname, hfit⟩ := hslot
        have hfg : g = f := List.inj_on_of_nodup_map h.named hg hf hname
        rw [hfg] at hfit
        omega
      · intro hlen k
        have hput : putFrame slot s fn.name = (s.frameOf fn.name).take slot := by
          unfold putFrame
          dsimp only
          rw [List.length_take_of_le hlen, Nat.sub_self, List.replicate_zero, List.append_nil]
        rw [hput, decode_take fn h.fits]

theorem scaled_mod {r : ℕ → Option ℤ} {field none' : ℕ} {v : ℤ} (hv : r field = some v) {n : ℕ}
    (hn : n ≤ 4) : scaled r field none' % 256 ^ n = (v % 256 ^ n).toNat := by
  have hdvd : (256 ^ n : ℤ) ∣ 2 ^ 32 := by
    have h32 : (2 ^ 32 : ℤ) = 256 ^ 4 := by norm_num
    rw [h32]
    exact pow_dvd_pow 256 hn
  have hpos : (0 : ℤ) < 256 ^ n := by positivity
  unfold scaled
  rw [hv]
  dsimp only
  zify
  rw [Int.toNat_of_nonneg (Int.emod_nonneg _ (by norm_num)),
    Int.toNat_of_nonneg (Int.emod_nonneg _ hpos.ne')]
  exact Int.emod_emod_of_dvd v hdvd

/-- The window holds a reading, or 0xFF bytes without one. -/
structure Window (b : List Byte) (i n : ℕ) (r : Option ℤ) : Prop where
  absent : r = none → allFF b i n = true
  value : ∀ v, r = some v → be b i n = (v % 256 ^ n).toNat ∧
    (allFF b i n = true ↔ (v % 256 ^ n).toNat = 256 ^ n - 1)

theorem window {r : ℕ → Option ℤ} {field none' : ℕ} (hfit : i + n ≤ b.length) (hn : n ≤ 4)
    (hseg : seg b i n = beBytes n (scaled r field none')) (hnone : none' = 256 ^ n - 1) :
    Window b i n (r field) where
  absent hr := by
    have hpos : 0 < 256 ^ n := by positivity
    rw [allFF_eq hfit, hseg, all_beBytes]
    unfold scaled
    rw [hr]
    dsimp only
    rw [hnone, Nat.mod_eq_of_lt (by omega)]
  value v hv := by
    rw [be_eq hfit, allFF_eq hfit, hseg, val_beBytes, all_beBytes, scaled_mod hv hn]
    exact ⟨rfl, Iff.rfl⟩

/-- What the formatter shows of a reading of `k` steps to the unit. -/
def shown (r : Option ℤ) (k : ℚ) : Option ℚ := r.map fun v : ℤ => (v : ℚ) / k

variable {r : Option ℤ} {k : ℚ}

theorem opt_signed (h : Window b i 2 r)
    (hr : ∀ v, r = some v → -2 ^ 15 ≤ v ∧ v < 2 ^ 15) :
    opt b i 2 k true = shown r k ↔ r ≠ some (-1) := by
  unfold opt shown
  cases r with
  | none => simp [h.absent rfl]
  | some v =>
    obtain ⟨hbe, hff⟩ := h.value v rfl
    obtain ⟨hlo, hhi⟩ := hr v rfl
    have hminus : allFF b i 2 = true ↔ v = -1 := by
      rw [hff]
      omega
    by_cases hv : v = -1
    · rw [if_pos (hminus.mpr hv)]
      simp [hv]
    · have hsbe : sbe b i 2 = v := by
        unfold sbe
        rw [hbe]
        split_ifs <;> omega
      rw [if_neg (mt hminus.mp hv), if_pos rfl, hsbe]
      simp [hv]

/-- An unsigned reading of `n` bytes is shown, unless it is negative or the largest number. -/
theorem opt_unsigned (h : Window b i n r) (hk : k ≠ 0)
    (hr : ∀ v, r = some v → -256 ^ n < v ∧ v < 256 ^ n) :
    opt b i n k false = shown r k ↔ ∀ v, r = some v → 0 ≤ v ∧ v ≠ 256 ^ n - 1 := by
  unfold opt shown
  cases r with
  | none => simp [h.absent rfl]
  | some v =>
    obtain ⟨hbe, hff⟩ := h.value v rfl
    obtain ⟨hlo, hhi⟩ := hr v rfl
    have hpos : (0 : ℤ) < 256 ^ n := by positivity
    have hcast : ((256 ^ n - 1 : ℕ) : ℤ) = 256 ^ n - 1 := by
      rw [Nat.cast_sub (Nat.one_le_pow _ _ (by decide))]
      norm_num
    have hall : allFF b i n = true ↔ v % 256 ^ n = 256 ^ n - 1 := by
      rw [hff, ← Nat.cast_inj (R := ℤ), Int.toNat_of_nonneg (Int.emod_nonneg v hpos.ne'), hcast]
    have hmod : v % 256 ^ n = v ↔ 0 ≤ v :=
      ⟨fun h => h ▸ Int.emod_nonneg v hpos.ne', fun h => Int.emod_eq_of_lt h hhi⟩
    rw [hbe]
    simp only [Option.some.injEq, forall_eq']
    by_cases hff' : allFF b i n = true
    · rw [if_pos hff']
      refine ⟨fun h => (by cases h), fun hv => absurd (hall.mp hff') ?_⟩
      rw [hmod.mpr hv.1]
      exact hv.2
    · have hne := mt hall.mpr hff'
      rw [if_neg hff', if_neg Bool.false_ne_true]
      simp only [Option.map_some, Option.some.injEq]
      rw [div_left_inj' hk]
      have hval : (((v % 256 ^ n).toNat : ℕ) : ℚ) = (v : ℚ) ↔ v % 256 ^ n = v := by
        rw [← Int.cast_natCast, Int.cast_inj, Int.toNat_of_nonneg (Int.emod_nonneg v hpos.ne')]
      rw [hval, hmod]
      refine ⟨fun hv => ⟨hv, fun hmax => hne ?_⟩, And.left⟩
      rw [hmod.mpr hv]
      exact hmax

end OpenCalifornia.Lora
