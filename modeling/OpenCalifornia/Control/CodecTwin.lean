import OpenCalifornia.Control.RoundTrip

/-! # The generated tables

A row of a C table stands for a field of the dictionary: its bit mask is the set of allowed
values. Over any C table the two encoders agree, so what holds of `encode` holds of
`codec_encode`; and the tables of `codec_dict.h` are those of the dictionary. -/

namespace OpenCalifornia.Control.Firmware
open Lib Lib.Bits

def maskValues (mask : ℕ) : List ℤ :=
  ((List.range 32).filter fun v => mask >>> v &&& 1 ≠ 0).map (↑)

/-- The dictionary field of a row. -/
def CodecField.field (c : CodecField) : Field where
  name := c.name
  offset := c.offset
  width := c.width
  default := if c.hasDefault then some c.default else none
  valid := if c.hasValid then some (.oneOf (maskValues c.validMask)) else none

def CodecFunc.fields (f : CodecFunc) : List Field := f.ctrlFields.map CodecField.field

theorem mem_maskValues {mask v : ℕ} :
    (v : ℤ) ∈ maskValues mask ↔ v < 32 ∧ mask >>> v &&& 1 ≠ 0 := by
  rw [maskValues, List.mem_map]
  constructor
  · rintro ⟨a, ha, hav⟩
    have hv : a = v := by exact_mod_cast hav
    rw [List.mem_filter, List.mem_range, decide_eq_true_eq, hv] at ha
    exact ha
  · intro h
    refine ⟨v, ?_, rfl⟩
    rw [List.mem_filter, List.mem_range, decide_eq_true_eq]
    exact h

theorem sameField_field {c : CodecField} (h : c.width ≤ 32) : SameField c c.field where
  place := ⟨rfl, rfl, rfl⟩
  width_le := h
  default_eq := rfl
  valid_eq := by
    intro v
    by_cases hv : c.hasValid = true
    · have hmem : (v ≥ 32 ∨ c.validMask >>> v &&& 1 = 0) ↔ ¬ (v : ℤ) ∈ maskValues c.validMask := by
        rw [mem_maskValues]
        omega
      simp only [hv, true_and, hmem, CodecField.field, if_true, Option.all_some, Valid.holds,
        decide_eq_false_iff_not]
    · simp [hv, CodecField.field]

/-- The values and the defaults of a 32-bit machine. -/
structure Words (f : CodecFunc) (kv : Dict ℕ) : Prop where
  value : ∀ k v, kv.get k = some v → v < 2 ^ 32
  default : ∀ c ∈ f.ctrlFields, c.default < 2 ^ 32

theorem Words.value_lt {f : CodecFunc} {kv : Dict ℕ} (h : Words f kv) {c : CodecField}
    (hc : c ∈ f.ctrlFields) {v : ℕ} (hv : c.value kv = some v) : v < 2 ^ 32 := by
  unfold CodecField.value at hv
  cases hg : kv.get c.name with
  | some w =>
    rw [hg] at hv
    cases hv
    exact h.value _ _ hg
  | none =>
    rw [hg] at hv
    by_cases hd : c.hasDefault = true
    · simp only [hd, if_true, Option.some.injEq] at hv
      exact hv ▸ h.default c hc
    · simp [hd] at hv

theorem given_field {kv : Dict ℕ} {values : Dict ℤ}
    (hval : ∀ k, values.get k = (kv.get k).map (↑)) (c : CodecField) :
    given values c.field = (c.value kv).map (↑) := by
  rw [given, CodecField.field, CodecField.value, hval]
  cases kv.get c.name with
  | some v => rfl
  | none => by_cases hd : c.hasDefault = true <;> simp [hd]

theorem codecEncode_fields {f : CodecFunc} {func : Function} {n : ℕ} {kv : Dict ℕ}
    {values : Dict ℤ} (hf : func.controlFields = f.fields) (hne : f.ctrlFields ≠ [])
    (hn : 0 < n ∧ n ≤ frameMax) (hap : f.fields.Pairwise Apart)
    (hwidth : ∀ p ∈ f.fields, 1 ≤ p.width ∧ p.width ≤ 32) (hw : Words f kv)
    (hval : ∀ k, values.get k = (kv.get k).map (↑)) :
    (codecEncode f kv n).toOption = (encode func values n).toOption := by
  apply codecEncode_eq hne hn
  · rw [hf, CodecFunc.fields, List.forall₂_map_right_iff, List.forall₂_same]
    intro c hc
    have hle := hwidth c.field (List.mem_map_of_mem hc)
    refine ⟨sameField_field hle.2, given_field hval c, fun _ v hv => hw.value_lt hc hv⟩
  · rw [hf]
    exact hap

theorem placed_entries (fields : List Field) : placed (fields.map Field.entry) = fields := by
  induction fields with
  | nil => rfl
  | cons f fields ih =>
    rw [placed] at ih
    simp [placed, Entry.field, Field.entry, ih]

theorem encode_eq_encodeTable (func : Function) (values : Dict ℤ) {n : ℕ} (hn : n ≠ 0) :
    encode func values n = encodeTable func.table values (some n) := by
  have hm : missing func.table values = [] := by
    apply missing_of_placed
    intro e he
    obtain ⟨f, -, rfl⟩ := List.mem_map.mp he
    simp [Entry.field, Field.entry]
  have hbits : frameBits (placed func.table) (some n) = n * 8 := if_pos hn
  rw [encodeTable, if_neg (not_not.mpr hm), hbits, Function.table, placed_entries]
  rfl

/-- The row of a C table that a function of the dictionary has. -/
structure SameTable (f : CodecFunc) (func : Function) : Prop where
  state : List.Forall₂ SamePlace f.stateFields func.stateFields
  control : func.controlFields = f.fields
  apart : f.fields.Pairwise Apart
  width : ∀ p ∈ f.fields, 1 ≤ p.width ∧ p.width ≤ 32
  default : ∀ c ∈ f.ctrlFields, c.default < 2 ^ 32

instance (p q : Field) : Decidable (Apart p q) := by unfold Apart; infer_instance

/-- `SameTable`, as a test of two tables. -/
def sameTable (f : CodecFunc) (func : Function) : Bool :=
  f.stateFields.map (fun c => (c.name, c.offset, c.width)) =
      func.stateFields.map (fun p => (p.name, p.offset, p.width)) ∧
    func.controlFields = f.fields ∧ f.fields.Pairwise Apart ∧
    (∀ p ∈ f.fields, 1 ≤ p.width ∧ p.width ≤ 32) ∧ ∀ c ∈ f.ctrlFields, c.default < 2 ^ 32

theorem SameTable.of_test {f : CodecFunc} {func : Function} (h : sameTable f func = true) :
    SameTable f func := by
  obtain ⟨hstate, hcontrol, hap, hwidth, hdefault⟩ := of_decide_eq_true h
  refine ⟨?_, hcontrol, hap, hwidth, hdefault⟩
  rw [← List.forall₂_eq_eq_eq, List.forall₂_map_left_iff, List.forall₂_map_right_iff] at hstate
  exact hstate.imp fun c p hcp => by simpa [SamePlace] using hcp

theorem tables_test : ∀ func ∈ funcs,
    (codecFuncByName func.name).any (fun f => sameTable f func) = true := by
  decide

theorem tables_twin {func : Function} (h : func ∈ funcs) :
    ∃ f, codecFuncByName func.name = some f ∧ SameTable f func := by
  have ht := tables_test func h
  rw [Option.any_eq_true] at ht
  obtain ⟨f, hf, hsame⟩ := ht
  exact ⟨f, hf, SameTable.of_test hsame⟩

theorem layout_iff {fields : List Field} {total : ℕ} : Layout fields total ↔
    (∀ f ∈ fields, f.offset + f.width ≤ total) ∧ fields.Pairwise Apart ∧
      ∀ f ∈ fields, 1 ≤ f.width ∧ f.width ≤ 32 :=
  ⟨fun h => ⟨h.inside, h.apart, h.width⟩, fun h => ⟨h.1, h.2.1, h.2.2⟩⟩

instance (fields : List Field) (total : ℕ) : Decidable (Layout fields total) :=
  decidable_of_iff _ layout_iff.symm

theorem funcs_layout : ∀ func ∈ funcs,
    Layout func.controlFields ((controlFrameBytes.get func.name).getD 0 * 8) := by
  decide

theorem codecFuncs_layout : ∀ f ∈ codecFuncs, Layout f.fields (f.frameBytes * 8) := by
  decide

/-- The function of the dictionary that a C table makes up. -/
def CodecFunc.function (f : CodecFunc) : Function := ⟨f.name, none, [], f.fields⟩

theorem codecEncode_eq_ok {f : CodecFunc} {kv : Dict ℕ} {n : ℕ} {out : List Byte}
    (h : codecEncode f kv n = .ok out) : f.ctrlFields ≠ [] ∧ (0 < n ∧ n ≤ frameMax) ∧
      f.ctrlFields.foldlM (encodeField kv (n * 8)) (blank n) = .ok out := by
  unfold codecEncode at h
  by_cases hne : f.ctrlFields = []
  · rw [if_pos hne] at h
    cases h
  · by_cases hn : n = 0 ∨ n > frameMax
    · rw [if_neg hne, if_pos hn] at h
      cases h
    · rw [if_neg hne, if_neg hn] at h
      exact ⟨hne, by omega, h⟩

section Table

variable {f : CodecFunc} {kv : Dict ℕ} {n : ℕ}

theorem codecEncode_table (hne : f.ctrlFields ≠ []) (hn : 0 < n ∧ n ≤ frameMax)
    (hap : f.fields.Pairwise Apart) (hwidth : ∀ p ∈ f.fields, 1 ≤ p.width ∧ p.width ≤ 32)
    (hw : Words f kv) : (codecEncode f kv n).toOption =
      (encodeTable (f.fields.map Field.entry) (ints kv) (some n)).toOption := by
  rw [@codecEncode_fields f f.function n kv (ints kv) rfl hne hn hap hwidth hw (get_ints kv),
    encode_eq_encodeTable _ _ (by omega)]
  rfl

theorem fits_field {c : CodecField} {v : ℕ} : Fits c.field (v : ℤ) ↔ Allowed c.field v := by
  have hpos : 0 < 2 ^ c.field.width := Nat.two_pow_pos _
  have hcast : ((2 : ℤ) ^ c.field.width) = ((2 ^ c.field.width : ℕ) : ℤ) := by push_cast; rfl
  have hle : (0 ≤ (v : ℤ) ∧ (v : ℤ) ≤ 2 ^ c.field.width - 1) ↔ v ≤ 2 ^ c.field.width - 1 := by
    omega
  unfold Fits Allowed
  rw [hle]

theorem codecEncode_read {out : List Byte} (h : codecEncode f kv n = .ok out)
    (hap : f.fields.Pairwise Apart) (hwidth : ∀ p ∈ f.fields, 1 ≤ p.width ∧ p.width ≤ 32)
    (hw : Words f kv) :
    (∀ c ∈ f.ctrlFields, ∃ v, c.value kv = some v ∧ getBits out c.offset c.width = v) ∧
      ∀ i, (∀ p ∈ f.fields, ¬ Covers p i) → bitAt out i = false := by
  obtain ⟨hne, hn, -⟩ := codecEncode_eq_ok h
  have htwin := codecEncode_table hne hn hap hwidth hw
  rw [h] at htwin
  have htable := toOption_eq_some htwin.symm
  rw [← placed_entries f.fields] at hap ⊢
  refine ⟨?_, fun i hi => encoded_rest htable hap hi⟩
  intro c hc
  have hmem : c.field ∈ placed (f.fields.map Field.entry) := by
    rw [placed_entries]
    exact List.mem_map_of_mem hc
  obtain ⟨v, hv, -, hfit, hget⟩ := encoded_field htable hap hmem
  rw [given_field (fun k => get_ints kv k)] at hv
  cases hval : c.value kv with
  | none => simp [hval] at hv
  | some w =>
    rw [hval, Option.map_some, Option.some.injEq] at hv
    rw [length_toBits] at hfit
    have hbits : getBits out c.offset c.width = getField (toBits out) c.offset c.width :=
      getBits_eq out hfit
    refine ⟨w, rfl, ?_⟩
    rw [hbits, ← Int.toNat_natCast w, hv]
    exact hget

theorem encodeField_congr {kv' : Dict ℕ} {cs : List CodecField}
    (h : ∀ c ∈ cs, c.value kv' = c.value kv) (buf : List Byte) :
    cs.foldlM (encodeField kv' (n * 8)) buf = cs.foldlM (encodeField kv (n * 8)) buf := by
  induction cs generalizing buf with
  | nil => rfl
  | cons c cs ih =>
    rw [List.forall_mem_cons] at h
    have hc : encodeField kv' (n * 8) buf c = encodeField kv (n * 8) buf c := by
      unfold encodeField
      rw [h.1]
    rw [List.foldlM_cons, List.foldlM_cons, hc]
    cases encodeField kv (n * 8) buf c with
    | error e => rfl
    | ok next => exact ih h.2 next

theorem codecEncode_again {kv' : Dict ℕ} {out : List Byte} (h : codecEncode f kv n = .ok out)
    (hap : f.fields.Pairwise Apart) (hwidth : ∀ p ∈ f.fields, 1 ≤ p.width ∧ p.width ≤ 32)
    (hw : Words f kv)
    (hread : ∀ c ∈ f.ctrlFields, kv'.get c.name = some (getBits out c.offset c.width)) :
    codecEncode f kv' n = .ok out := by
  obtain ⟨hne, hn, hl⟩ := codecEncode_eq_ok h
  have hsame : ∀ c ∈ f.ctrlFields, c.value kv' = c.value kv := by
    intro c hc
    obtain ⟨v, hv, hget⟩ := (codecEncode_read h hap hwidth hw).1 c hc
    unfold CodecField.value at hv ⊢
    rw [hread c hc, hget, hv]
  have hbad : ¬ (n = 0 ∨ n > frameMax) := by omega
  rw [codecEncode, if_neg hne, if_neg hbad, encodeField_congr hsame, hl]

/-- A row that `codec_encode` refuses. -/
def RefusedRow (kv : Dict ℕ) (total : ℕ) (c : CodecField) : Prop :=
  c.offset + c.width > total ∨ c.value kv = none ∨ ∃ v, c.value kv = some v ∧ ¬ Allowed c.field v

theorem refusedRow_iff {total : ℕ} {c : CodecField} :
    Refused (ints kv) total c.field ↔ RefusedRow kv total c := by
  unfold Refused RefusedRow
  rw [given_field (fun k => get_ints kv k)]
  cases c.value kv with
  | none => simp [CodecField.field]
  | some v =>
    have hfit := fits_field (c := c) (v := v)
    simp only [Option.map_some, Option.some.injEq, exists_eq_left', hfit, reduceCtorEq, false_or]
    rfl

theorem codecEncode_error_iff (hne : f.ctrlFields ≠ []) (hn : 0 < n ∧ n ≤ frameMax)
    (hap : f.fields.Pairwise Apart) (hwidth : ∀ p ∈ f.fields, 1 ≤ p.width ∧ p.width ≤ 32)
    (hw : Words f kv) : (∃ e, codecEncode f kv n = .error e) ↔
      ∃ c ∈ f.ctrlFields, RefusedRow kv (n * 8) c := by
  have htwin := codecEncode_table hne hn hap hwidth hw
  have herr : (∃ e, codecEncode f kv n = .error e) ↔
      ∃ e, encodeTable (f.fields.map Field.entry) (ints kv) (some n) = .error e := by
    constructor
    · rintro ⟨e, he⟩
      rw [he] at htwin
      exact toOption_eq_none htwin.symm
    · rintro ⟨e, he⟩
      rw [he] at htwin
      exact toOption_eq_none htwin
  have hm : missing (f.fields.map Field.entry) (ints kv) = [] := by
    apply missing_of_placed
    intro e he
    obtain ⟨p, -, rfl⟩ := List.mem_map.mp he
    simp [Entry.field, Field.entry]
  have hn0 : n ≠ 0 := by omega
  have hbits : frameBits f.fields (some n) = n * 8 := if_pos hn0
  rw [herr, encodeTable_error_iff, placed_entries, hbits, hm]
  simp only [ne_eq, not_true_eq_false, false_or, CodecFunc.fields, List.mem_map,
    exists_exists_and_eq_and, refusedRow_iff]

end Table

/-- What a round trip through a control table keeps. -/
structure RoundTrip (table : List Entry) (values : Dict ℤ) (frameBytes : Option ℕ) : Prop where
  decoded : missing table values = [] →
    (∀ f ∈ placed table, ∃ v, given values f = some v ∧ Fits f v) →
    ∃ raw, encodeTable table values frameBytes = .ok raw ∧
      decodeControl table raw = Dict.update [] (assigned values (placed table)) ∧
      ∀ i, (∀ f ∈ placed table, ¬ Covers f i) → bitAt raw i = false
  again : (∀ e ∈ table, e.field ≠ none) → ((placed table).map (·.name)).Nodup →
    ∀ raw, encodeTable table values frameBytes = .ok raw →
      encodeTable table (ints (decodeControl table raw)) frameBytes = .ok raw

/-- The same of a C table. -/
structure CodecRoundTrip (f : CodecFunc) (kv : Dict ℕ) (n : ℕ) : Prop where
  decoded : (∀ c ∈ f.ctrlFields, ∃ v, c.value kv = some v ∧ Allowed c.field v) →
    ∃ out, codecEncode f kv n = .ok out ∧
      (∀ c ∈ f.ctrlFields, ∃ v, c.value kv = some v ∧ getBits out c.offset c.width = v) ∧
      ∀ i, (∀ p ∈ f.fields, ¬ Covers p i) → bitAt out i = false
  again : ∀ out kv', codecEncode f kv n = .ok out →
    (∀ c ∈ f.ctrlFields, kv'.get c.name = some (getBits out c.offset c.width)) →
    codecEncode f kv' n = .ok out

theorem roundTrip {table : List Entry} {frameBytes : Option ℕ}
    (h : Layout (placed table) (frameBits (placed table) frameBytes)) (values : Dict ℤ) :
    RoundTrip table values frameBytes where
  decoded := by
    intro hm hok
    obtain ⟨raw, hraw⟩ := encodeTable_ok_iff.mpr ⟨hm, fun f hf => ⟨h.inside f hf, hok f hf⟩⟩
    exact ⟨raw, hraw, decodeControl_encoded hraw h.apart, fun i hi => encoded_rest hraw h.apart hi⟩
  again := fun hplaced hnames raw hraw => encode_decoded hraw h.apart hplaced hnames

theorem codecRoundTrip {f : CodecFunc} {kv : Dict ℕ} {n : ℕ} (hne : f.ctrlFields ≠ [])
    (hn : 0 < n ∧ n ≤ frameMax) (h : Layout f.fields (n * 8)) (hw : Words f kv) :
    CodecRoundTrip f kv n where
  decoded := by
    intro hok
    have hno : ¬ ∃ e, codecEncode f kv n = .error e := by
      rw [codecEncode_error_iff hne hn h.apart h.width hw]
      rintro ⟨c, hc, hbad⟩
      obtain ⟨v, hv, ha⟩ := hok c hc
      have hin : c.offset + c.width ≤ n * 8 := h.inside c.field (List.mem_map_of_mem hc)
      rcases hbad with hbad | hbad | ⟨w, hw', hbad⟩
      · omega
      · rw [hv] at hbad
        cases hbad
      · rw [hv] at hw'
        cases hw'
        exact hbad ha
    cases hout : codecEncode f kv n with
    | error e => exact absurd ⟨e, hout⟩ hno
    | ok out => exact ⟨out, rfl, codecEncode_read hout h.apart h.width hw⟩
  again := fun _ _ hout hread => codecEncode_again hout h.apart h.width hw hread

/-- The round trip of both codecs: the generated tables are laid out as it needs, and encoding
fails for the stated reasons only. -/
theorem codec_roundTrip :
    (∀ func ∈ funcs, Layout func.controlFields ((controlFrameBytes.get func.name).getD 0 * 8)) ∧
    (∀ f ∈ codecFuncs, Layout f.fields (f.frameBytes * 8)) ∧
    (∀ table values frameBytes, Layout (placed table) (frameBits (placed table) frameBytes) →
      RoundTrip table values frameBytes) ∧
    (∀ table values frameBytes, (∃ e, encodeTable table values frameBytes = .error e) ↔
      missing table values ≠ [] ∨
        ∃ f ∈ placed table, Refused values (frameBits (placed table) frameBytes) f) ∧
    ∀ f kv n, f.ctrlFields ≠ [] → 0 < n ∧ n ≤ frameMax → Words f kv →
      (Layout f.fields (n * 8) → CodecRoundTrip f kv n) ∧
      (f.fields.Pairwise Apart → (∀ p ∈ f.fields, 1 ≤ p.width ∧ p.width ≤ 32) →
        ((∃ e, codecEncode f kv n = .error e) ↔ ∃ c ∈ f.ctrlFields, RefusedRow kv (n * 8) c)) :=
  ⟨funcs_layout, codecFuncs_layout, fun _ values _ h => roundTrip h values,
    fun _ _ _ => encodeTable_error_iff, fun _ _ _ hne hn hw =>
    ⟨fun h => codecRoundTrip hne hn h hw, fun hap hwidth =>
      codecEncode_error_iff hne hn hap hwidth hw⟩⟩

/-- A cooler frame with the power on, decoded: the rest is left unchanged. -/
theorem codec_roundTrip_cooler : ∃ raw, encodeTable cooler.table [("State", 1)] (some 6) = .ok raw ∧
    decodeControl cooler.table raw = [("State", 1), ("TimerStart", 3), ("TimerCancel", 3),
      ("NightTimerSet", 3), ("Level", 7), ("Mode", 7), ("TimerHour", 30), ("TimerMin", 62),
      ("NightTimerHourOn", 31), ("NightTimerHourOff", 31)] := by
  have hlayout : Layout (placed cooler.table) (frameBits (placed cooler.table) (some 6)) := by
    decide
  have hok : ∀ f ∈ placed cooler.table, ∃ v, given [("State", 1)] f = some v ∧ Fits f v := by
    have htest : ∀ f ∈ placed cooler.table,
        (given [("State", 1)] f).any (fun v => decide (Fits f v)) = true := by decide
    intro f hf
    have hany := htest f hf
    rw [Option.any_eq_true] at hany
    obtain ⟨v, hv, hfit⟩ := hany
    exact ⟨v, hv, of_decide_eq_true hfit⟩
  obtain ⟨raw, hraw, hdec, -⟩ := (codec_roundTrip.2.2.1 cooler.table [("State", 1)] (some 6)
    hlayout).decoded (by decide) hok
  refine ⟨raw, hraw, hdec.trans ?_⟩
  decide

/-- The fields of the satellite antenna are placed and inside its frame, and two of them have no
default: a frame that names neither is refused. Nor does a frame keep a value supplied for an
unplaced field, or two values of one name. -/
theorem codec_roundTrip_limits :
    (Layout satelliteantenna.controlFields 16 ∧
      (∀ f ∈ placed satelliteantenna.table, ∀ v, given [] f = some v → Fits f v) ∧
      missing satelliteantenna.table [] = [] ∧
      encodeTable satelliteantenna.table [] (some 2) = .error (.valueError (.noValue "DishStop"))) ∧
    (∃ table values raw, Layout (placed table) 8 ∧ encodeTable table values (some 1) = .ok raw ∧
      ∃ e, encodeTable table (ints (decodeControl table raw)) (some 1) = .error e) ∧
    ∃ table raw raw', Layout (placed table) 8 ∧ encodeTable table [] (some 1) = .ok raw ∧
      encodeTable table (ints (decodeControl table raw)) (some 1) = .ok raw' ∧ raw ≠ raw' := by
  refine ⟨⟨by decide, ?_, by decide, by decide⟩, ?_, ?_⟩
  · have htest : ∀ f ∈ placed satelliteantenna.table,
        (given [] f).all (fun v => decide (Fits f v)) = true := by decide
    intro f hf v hv
    have := htest f hf
    rw [hv] at this
    exact of_decide_eq_true this
  · exact ⟨[⟨"A", some 0, some 8, some 1, none⟩, ⟨"B", none, some 8, some 1, none⟩],
      [("B", 0)], [1], by decide, by decide, _, rfl⟩
  · exact ⟨[⟨"A", some 0, some 4, some 0, none⟩, ⟨"A", some 4, some 4, some 1, none⟩], [1], [0x11],
      by decide, by decide, by decide, by decide⟩

theorem decode_take (func : Function) {n : ℕ}
    (h : ∀ f ∈ func.stateFields, f.offset + f.width ≤ 8 * n) (raw : List Byte) :
    decode func (raw.take n) = decode func raw := by
  unfold decode
  have hfit : ∀ f ∈ func.stateFields,
      decide (f.offset + f.width ≤ (toBits (raw.take n)).length) =
        decide (f.offset + f.width ≤ (toBits raw).length) := by
    intro f hf
    have := h f hf
    rw [toBits_take, List.length_take, decide_eq_decide]
    omega
  rw [List.filter_congr hfit]
  apply List.map_congr_left
  intro f hf
  have := h f (List.mem_of_mem_filter hf)
  rw [getField, getField, toBits_take, List.drop_take, List.take_take,
    Nat.min_eq_left (by omega)]

/-- `codec_decode` is `decode`, and `codec_encode` is `encode` wherever the function has a control
table and the frame a length the C buffer takes. -/
theorem codec_twin : ∀ func ∈ funcs, ∃ f, codecFuncByName func.name = some f ∧
    (∀ raw, codecDecode f raw = decode func raw) ∧
    ∀ n kv values, func.controlFields ≠ [] → 0 < n ∧ n ≤ frameMax →
      (∀ k v, kv.get k = some v → v < 2 ^ 32) → (∀ k, values.get k = (kv.get k).map (↑)) →
      (codecEncode f kv n).toOption = (encode func values n).toOption := by
  intro func hfunc
  obtain ⟨f, hf, hsame⟩ := tables_twin hfunc
  refine ⟨f, hf, fun raw => codecDecode_eq raw hsame.state, ?_⟩
  intro n kv values hne hn hword hval
  have hne' : f.ctrlFields ≠ [] := by
    intro h
    rw [hsame.control, CodecFunc.fields, h] at hne
    exact hne rfl
  exact codecEncode_fields hsame.control hne' hn hsame.apart hsame.width ⟨hword, hsame.default⟩ hval

/-- The cooler's codec, at its table. -/
theorem codec_twin_cooler :
    codecDecode coolerFunc [0x09, 0x43] = decode cooler [0x09, 0x43] ∧
      (codecEncode coolerFunc [("State", 1)] 6).toOption =
        (encode cooler [("State", 1)] 6).toOption := by
  obtain ⟨f, hf, hdecode, hencode⟩ := codec_twin cooler (by decide)
  have hcooler : codecFuncByName cooler.name = some coolerFunc := by decide
  rw [hcooler, Option.some.injEq] at hf
  subst hf
  refine ⟨hdecode _, hencode 6 _ _ (by decide) (by decide) ?_ ?_⟩
  · intro k v h
    rw [Dict.get_cons] at h
    split_ifs at h
    · cases h
      decide
    · cases h
  · intro k
    rw [Dict.get_cons, Dict.get_cons]
    split_ifs <;> rfl

/-- A function without control fields, at the frame length of its table, and a frame longer than
the C buffer. -/
theorem codec_twin_limits : (codecFuncByName "general" = some generalFunc ∧
      codecEncode generalFunc [] generalFunc.frameBytes = .error .noFunc ∧
      encode general [] generalFunc.frameBytes = .ok []) ∧
    codecEncode coolerFunc [] 33 = .error .frame ∧ (encode cooler [] 33).toOption.isSome := by
  decide

end OpenCalifornia.Control.Firmware
