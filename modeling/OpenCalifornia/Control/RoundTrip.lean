import OpenCalifornia.Control.Frames

/-! # The round trip of the field codec

What the loop of `encode` leaves in the frame, bit by bit: the value of every placed field in its
window, zero elsewhere. Reading the windows back gives the values, over any table whose fields do
not overlap. -/

namespace OpenCalifornia.Control
open Lib Lib.Bits Firmware

/-- The value `encode` takes for a field. -/
def given (values : Dict ℤ) (f : Field) : Option ℤ := (values.get f.name).or f.default

/-- What `check_value` lets through. -/
def Fits (f : Field) (v : ℤ) : Prop :=
  (0 ≤ v ∧ v ≤ 2 ^ f.width - 1) ∧ f.valid.all (·.holds v) = true

instance (f : Field) (v : ℤ) : Decidable (Fits f v) := by unfold Fits; infer_instance

/-- The fields lie inside the frame, next to each other, and are 1 to 32 bits wide. -/
structure Layout (fields : List Field) (total : ℕ) : Prop where
  inside : ∀ f ∈ fields, f.offset + f.width ≤ total
  apart : fields.Pairwise Apart
  width : ∀ f ∈ fields, 1 ≤ f.width ∧ f.width ≤ 32

theorem checkValue_eq_ok {f : Field} {v : ℤ} :
    checkValue f.name f.width v f.valid = .ok () ↔ Fits f v := by
  unfold checkValue Fits
  by_cases hr : 0 ≤ v ∧ v ≤ 2 ^ f.width - 1
  · rw [if_neg (not_not.mpr hr)]
    by_cases hv : f.valid.all (·.holds v) = true
    · simp [hr, hv]
    · simp [hv]
  · rw [if_pos hr]
    constructor
    · intro h
      cases h
    · intro h
      exact absurd h.1 hr

theorem placeField_eq_ok {values : Dict ℤ} {total : ℕ} {frame out : List Bool} {f : Field} :
    placeField values total frame f = .ok out ↔ f.offset + f.width ≤ total ∧
      ∃ v, given values f = some v ∧ Fits f v ∧ out = overwrite frame f v.toNat := by
  unfold placeField
  by_cases hfit : f.offset + f.width > total
  · rw [if_pos hfit]
    constructor
    · intro h
      cases h
    · intro h
      omega
  · rw [if_neg hfit]
    have hle : f.offset + f.width ≤ total := by omega
    rw [show (values.get f.name).or f.default = given values f from rfl]
    cases hg : given values f with
    | none => simp
    | some v =>
      dsimp only
      have hck := checkValue_eq_ok (f := f) (v := v)
      cases hc : checkValue f.name f.width v f.valid with
      | error e =>
        rw [hc] at hck
        have hno : ¬ Fits f v := fun h => by cases hck.mpr h
        simp [bind, Except.bind, hno]
      | ok u =>
        have hyes : Fits f v := hck.mp hc
        simp [bind, Except.bind, hle, hyes, overwrite, eq_comm]

theorem length_overwrite {frame : List Bool} {f : Field} (v : ℕ)
    (h : f.offset + f.width ≤ frame.length) : (overwrite frame f v).length = frame.length := by
  simp only [overwrite, List.length_append, List.length_take, List.length_drop, length_bitsOf]
  omega

/-- A field the loop of `encode` gets past. -/
def Encodable (values : Dict ℤ) (total : ℕ) (f : Field) : Prop :=
  f.offset + f.width ≤ total ∧ ∃ v, given values f = some v ∧ Fits f v

theorem encode_loop_ok {values : Dict ℤ} {total : ℕ} {fields : List Field} {frame : List Bool} :
    (∃ out, fields.foldlM (placeField values total) frame = .ok out) ↔
      ∀ f ∈ fields, Encodable values total f := by
  induction fields generalizing frame with
  | nil => simp [pure, Except.pure]
  | cons f fields ih =>
    rw [List.foldlM_cons, List.forall_mem_cons]
    cases hp : placeField values total frame f with
    | error e =>
      constructor
      · rintro ⟨out, h⟩
        cases h
      · rintro ⟨⟨hfit, v, hv, hok⟩, -⟩
        have hplace : placeField values total frame f = .ok (overwrite frame f v.toNat) :=
          placeField_eq_ok.mpr ⟨hfit, v, hv, hok, rfl⟩
        rw [hp] at hplace
        cases hplace
    | ok out =>
      obtain ⟨hfit, v, hv, hok, -⟩ := placeField_eq_ok.mp hp
      have hf : Encodable values total f := ⟨hfit, v, hv, hok⟩
      simp only [hf, true_and]
      exact ih

/-- The bits the loop leaves: outside the fields those it began with, in each field its value. -/
theorem encode_loop_bits {values : Dict ℤ} {total : ℕ} {fields : List Field}
    {frame out : List Bool} (h : fields.foldlM (placeField values total) frame = .ok out)
    (hap : fields.Pairwise Apart) (hlen : frame.length = total) :
    out.length = total ∧
      (∀ i, (∀ f ∈ fields, ¬ Covers f i) → out.getD i false = frame.getD i false) ∧
      ∀ f ∈ fields, ∃ v, given values f = some v ∧ Fits f v ∧ ∀ k < f.width,
        out.getD (f.offset + k) false = v.toNat.testBit (f.width - 1 - k) := by
  induction fields generalizing frame with
  | nil =>
    cases h
    exact ⟨hlen, fun _ _ => rfl, by simp⟩
  | cons f fields ih =>
    rw [List.foldlM_cons] at h
    cases hp : placeField values total frame f with
    | error e =>
      rw [hp] at h
      cases h
    | ok next =>
      rw [hp] at h
      obtain ⟨hfit, v, hv, hok, rfl⟩ := placeField_eq_ok.mp hp
      have hin : f.offset + f.width ≤ frame.length := by omega
      obtain ⟨hout, hrest, hfields⟩ := ih h (List.pairwise_cons.mp hap).2
        (by rw [length_overwrite _ hin, hlen])
      refine ⟨hout, ?_, ?_⟩
      · intro i hi
        have hcov : ¬ (f.offset ≤ i ∧ i < f.offset + f.width) := hi f (by simp)
        rw [hrest i fun g hg => hi g (by simp [hg]), getD_overwrite _ _ hin, if_neg hcov]
      · rw [List.forall_mem_cons]
        refine ⟨⟨v, hv, hok, ?_⟩, hfields⟩
        intro k hk
        -- the fields written later leave the window of `f` alone
        have hlater : ∀ g ∈ fields, ¬ Covers g (f.offset + k) := by
          intro g hg
          have := (List.pairwise_cons.mp hap).1 g hg
          unfold Apart at this
          unfold Covers
          omega
        have hpos : f.offset ≤ f.offset + k ∧ f.offset + k < f.offset + f.width := by omega
        rw [hrest _ hlater, getD_overwrite _ _ hin, if_pos hpos, Nat.add_sub_cancel_left]

theorem getField_pack {bits : List Bool} {offset width v : ℕ}
    (hfit : offset + width ≤ bits.length) (hv : v < 2 ^ width)
    (hbits : ∀ k < width, bits.getD (offset + k) false = v.testBit (width - 1 - k)) :
    getField (toBits (pack bits)) offset width = v := by
  have hlen : offset + width ≤ 8 * (pack bits).length := by
    simp [pack]
    omega
  have hwin : (List.range width).map (fun k => bitAt (pack bits) (offset + k)) =
      (List.range width).map fun k => v.testBit (width - 1 - k) := by
    apply List.map_congr_left
    intro k hk
    rw [bitAt_pack, hbits k (List.mem_range.mp hk)]
  rw [getField, window_toBits _ hlen, hwin, ofBits_testBits, Nat.mod_eq_of_lt hv]

theorem Fits.toNat_lt {f : Field} {v : ℤ} (h : Fits f v) : v.toNat < 2 ^ f.width := by
  have hpos : 0 < 2 ^ f.width := Nat.two_pow_pos _
  have hcast : ((2 : ℤ) ^ f.width) = ((2 ^ f.width : ℕ) : ℤ) := by push_cast; rfl
  have := h.1
  omega

theorem Fits.cast_toNat {f : Field} {v : ℤ} (h : Fits f v) : (v.toNat : ℤ) = v :=
  Int.toNat_of_nonneg h.1.1

/-- What the fields of a frame are written with. -/
def assigned (values : Dict ℤ) (fields : List Field) : Dict ℕ :=
  fields.filterMap fun f => (given values f).map fun v => (f.name, v.toNat)

theorem encodeTable_eq_ok {table : List Entry} {values : Dict ℤ} {frameBytes : Option ℕ}
    {raw : List Byte} (h : encodeTable table values frameBytes = .ok raw) :
    missing table values = [] ∧ ∃ out, raw = pack out ∧
      (placed table).foldlM (placeField values (frameBits (placed table) frameBytes))
        (List.replicate (frameBits (placed table) frameBytes) false) = .ok out := by
  unfold encodeTable at h
  by_cases hm : missing table values = []
  · rw [if_neg (not_not.mpr hm)] at h
    refine ⟨hm, ?_⟩
    cases hl : (placed table).foldlM (placeField values (frameBits (placed table) frameBytes))
        (List.replicate (frameBits (placed table) frameBytes) false) with
    | error e =>
      rw [hl] at h
      cases h
    | ok out =>
      rw [hl] at h
      cases h
      exact ⟨out, rfl, rfl⟩
  · rw [if_pos hm] at h
    cases h

/-- `encode` succeeds exactly when it gets past its check of the unplaced fields and past every
placed one. -/
theorem encodeTable_ok_iff {table : List Entry} {values : Dict ℤ} {frameBytes : Option ℕ} :
    (∃ raw, encodeTable table values frameBytes = .ok raw) ↔ missing table values = [] ∧
      ∀ f ∈ placed table, Encodable values (frameBits (placed table) frameBytes) f := by
  constructor
  · rintro ⟨raw, h⟩
    obtain ⟨hm, out, -, hl⟩ := encodeTable_eq_ok h
    exact ⟨hm, encode_loop_ok.mp ⟨out, hl⟩⟩
  · rintro ⟨hm, hf⟩
    have hloop : ∃ out, (placed table).foldlM
        (placeField values (frameBits (placed table) frameBytes))
        (List.replicate (frameBits (placed table) frameBytes) false) = .ok out :=
      encode_loop_ok.mpr hf
    obtain ⟨out, hl⟩ := hloop
    refine ⟨pack out, ?_⟩
    unfold encodeTable
    rw [if_neg (not_not.mpr hm), hl]
    rfl

section Encoded

variable {table : List Entry} {values : Dict ℤ} {frameBytes : Option ℕ} {raw : List Byte}

theorem encoded_field (h : encodeTable table values frameBytes = .ok raw)
    (hap : (placed table).Pairwise Apart) {f : Field} (hf : f ∈ placed table) :
    ∃ v, given values f = some v ∧ Fits f v ∧ f.offset + f.width ≤ (toBits raw).length ∧
      getField (toBits raw) f.offset f.width = v.toNat := by
  obtain ⟨-, out, rfl, hl⟩ := encodeTable_eq_ok h
  obtain ⟨hlen, -, hfields⟩ := encode_loop_bits hl hap List.length_replicate
  obtain ⟨v, hv, hok, hbits⟩ := hfields f hf
  have hin : f.offset + f.width ≤ out.length := by
    rw [hlen]
    exact (encode_loop_ok.mp ⟨out, hl⟩ f hf).1
  refine ⟨v, hv, hok, ?_, getField_pack hin hok.toNat_lt hbits⟩
  rw [length_toBits]
  simp [pack]
  omega

theorem encoded_rest (h : encodeTable table values frameBytes = .ok raw)
    (hap : (placed table).Pairwise Apart) {i : ℕ} (hi : ∀ f ∈ placed table, ¬ Covers f i) :
    bitAt raw i = false := by
  obtain ⟨-, out, rfl, hl⟩ := encodeTable_eq_ok h
  obtain ⟨-, hrest, -⟩ := encode_loop_bits hl hap List.length_replicate
  rw [bitAt_pack, hrest i hi]
  by_cases hlt : i < frameBits (placed table) frameBytes <;> simp [List.getD, hlt]

theorem decodeControl_encoded (h : encodeTable table values frameBytes = .ok raw)
    (hap : (placed table).Pairwise Apart) :
    decodeControl table raw = Dict.update [] (assigned values (placed table)) := by
  have hall : ∀ f ∈ placed table, f.offset + f.width ≤ (toBits raw).length := fun f hf =>
    (encoded_field h hap hf).choose_spec.2.2.1
  rw [decodeControl, List.filter_eq_self.mpr (by simpa using hall), assigned]
  congr 1
  rw [← List.filterMap_eq_map]
  apply List.filterMap_congr
  intro f hf
  obtain ⟨v, hv, -, -, hget⟩ := encoded_field h hap hf
  simp [hv, hget]

end Encoded

/-- Decoded numbers as values of `encode`. -/
def ints (d : Dict ℕ) : Dict ℤ := d.map fun kv => (kv.1, (kv.2 : ℤ))

@[simp] theorem get_ints (d : Dict ℕ) (k : String) : (ints d).get k = (d.get k).map (↑) :=
  Dict.get_map _ d k

theorem keys_assigned {values : Dict ℤ} {fields : List Field}
    (h : ∀ f ∈ fields, (given values f).isSome) :
    (assigned values fields).map Prod.fst = fields.map (·.name) := by
  induction fields with
  | nil => rfl
  | cons f fields ih =>
    rw [List.forall_mem_cons] at h
    obtain ⟨v, hv⟩ := Option.isSome_iff_exists.mp h.1
    simp only [assigned, List.filterMap_cons, hv, Option.map_some, List.map_cons] at ih ⊢
    rw [ih h.2]

theorem get_assigned {values : Dict ℤ} {fields : List Field}
    (hnames : (fields.map (·.name)).Nodup) {f : Field} (hf : f ∈ fields) {v : ℤ}
    (hv : given values f = some v) : (assigned values fields).get f.name = some v.toNat := by
  induction fields with
  | nil => cases hf
  | cons g fields ih =>
    rw [List.map_cons, List.nodup_cons] at hnames
    cases List.mem_cons.mp hf with
    | inl h =>
      subst h
      simp [assigned, hv]
    | inr h =>
      have hne : g.name ≠ f.name := by
        intro he
        exact hnames.1 (he ▸ List.mem_map_of_mem h)
      cases hg : given values g with
      | none => simpa [assigned, hg] using ih hnames.2 h
      | some w => simpa [assigned, hg, hne] using ih hnames.2 h

theorem encode_loop_congr {values values' : Dict ℤ} {total : ℕ} {fields : List Field}
    (h : ∀ f ∈ fields, given values f = given values' f) (frame : List Bool) :
    fields.foldlM (placeField values total) frame =
      fields.foldlM (placeField values' total) frame := by
  induction fields generalizing frame with
  | nil => rfl
  | cons f fields ih =>
    rw [List.forall_mem_cons] at h
    have hf : placeField values total frame f = placeField values' total frame f := by
      have h1 := h.1
      unfold given at h1
      unfold placeField
      rw [h1]
    rw [List.foldlM_cons, List.foldlM_cons, hf]
    cases placeField values' total frame f with
    | error e => rfl
    | ok next => exact ih h.2 next

theorem missing_of_placed {table : List Entry} (h : ∀ e ∈ table, e.field ≠ none)
    (values : Dict ℤ) : missing table values = [] := by
  rw [missing, List.map_eq_nil_iff, List.filter_eq_nil_iff]
  intro e he
  simp [h e he]

theorem encode_decoded {table : List Entry} {values : Dict ℤ} {frameBytes : Option ℕ}
    {raw : List Byte} (h : encodeTable table values frameBytes = .ok raw)
    (hap : (placed table).Pairwise Apart) (hplaced : ∀ e ∈ table, e.field ≠ none)
    (hnames : ((placed table).map (·.name)).Nodup) :
    encodeTable table (ints (decodeControl table raw)) frameBytes = .ok raw := by
  obtain ⟨-, out, hraw, hl⟩ := encodeTable_eq_ok h
  have hgiven : ∀ f ∈ placed table, given (ints (decodeControl table raw)) f = given values f := by
    intro f hf
    obtain ⟨v, hv, hok, -, -⟩ := encoded_field h hap hf
    have hsome : ∀ g ∈ placed table, (given values g).isSome := by
      intro g hg
      obtain ⟨w, hw, -⟩ := encoded_field h hap hg
      simp [hw]
    have hkeys : ((assigned values (placed table)).map Prod.fst).Nodup := by
      rw [keys_assigned hsome]
      exact hnames
    have hget : (decodeControl table raw).get f.name = some v.toNat := by
      rw [decodeControl_encoded h hap, Dict.get_update hkeys, get_assigned hnames hf hv]
      rfl
    rw [given, get_ints, hget, hv]
    simp [hok.cast_toNat]
  unfold encodeTable
  rw [if_neg (not_not.mpr (missing_of_placed hplaced _)), encode_loop_congr hgiven, hl, hraw]
  rfl

/-- A control field that `encode` refuses: past the end, without a value, or unfit. -/
def Refused (values : Dict ℤ) (total : ℕ) (f : Field) : Prop :=
  f.offset + f.width > total ∨ given values f = none ∨ ∃ v, given values f = some v ∧ ¬ Fits f v

theorem not_encodable {values : Dict ℤ} {total : ℕ} {f : Field} :
    ¬ Encodable values total f ↔ Refused values total f := by
  unfold Encodable Refused
  cases hg : given values f with
  | none => simp
  | some v =>
    simp only [Option.some.injEq, exists_eq_left', reduceCtorEq, false_or, not_and_or, not_le]

theorem encodeTable_error_iff {table : List Entry} {values : Dict ℤ} {frameBytes : Option ℕ} :
    (∃ e, encodeTable table values frameBytes = .error e) ↔ missing table values ≠ [] ∨
      ∃ f ∈ placed table, Refused values (frameBits (placed table) frameBytes) f := by
  have hok := @encodeTable_ok_iff table values frameBytes
  have hcases : (∃ e, encodeTable table values frameBytes = .error e) ↔
      ¬ ∃ raw, encodeTable table values frameBytes = .ok raw := by
    cases encodeTable table values frameBytes <;> simp
  rw [hcases, hok, not_and_or]
  apply or_congr_right
  simp only [not_forall, exists_prop, not_encodable]

end OpenCalifornia.Control
