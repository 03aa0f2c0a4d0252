import Mathlib
import OpenCalifornia.Control.Planner

/-! # The two codecs agree

The C tables are those of the dictionary. On matching tables `codec_decode` reads what `decode`
reads, and `codec_encode` writes the frame `encode` writes, or both refuse it. -/

namespace OpenCalifornia.Control.Firmware
open Lib Lib.Bits

theorem getBits_eq (raw : List Byte) {offset width : ℕ} (h : offset + width ≤ 8 * raw.length) :
    getBits raw offset width = getField (toBits raw) offset width := by
  rw [getBits, getField, window_toBits raw h]

/-- A state field of the C table is the one of the dictionary. -/
def SamePlace (c : CodecField) (p : Field) : Prop :=
  c.name = p.name ∧ c.offset = p.offset ∧ c.width = p.width

theorem codecDecode_eq {f : CodecFunc} {func : Function} (raw : List Byte)
    (h : List.Forall₂ SamePlace f.stateFields func.stateFields) :
    codecDecode f raw = decode func raw := by
  rw [codecDecode, decode, length_toBits, Nat.mul_comm]
  generalize f.stateFields = cs at h ⊢
  generalize func.stateFields = ps at h ⊢
  induction h with
  | nil => rfl
  | @cons c p cs ps hcp _ ih =>
    obtain ⟨hn, ho, hw⟩ := hcp
    by_cases hfit : p.offset + p.width ≤ 8 * raw.length
    · simp only [List.filter_cons, hn, ho, hw, hfit, decide_true, if_true, List.map_cons,
        getBits_eq raw hfit, ih]
    · simp only [List.filter_cons, ho, hw, hfit, decide_false, Bool.false_eq_true, if_false, ih]

/-- A control field of the C table is the one of the dictionary, its allowed values included. -/
structure SameField (c : CodecField) (p : Field) : Prop where
  place : SamePlace c p
  width_le : c.width ≤ 32
  default_eq : p.default = if c.hasDefault then some (c.default : ℤ) else none
  valid_eq : ∀ v : ℕ, (c.hasValid = true ∧ (v ≥ 32 ∨ c.validMask >>> v &&& 1 = 0)) ↔
    p.valid.all (·.holds (v : ℤ)) = false

/-- The two value tables say the same about a field, its default included. -/
structure SameValue (kv : Dict ℕ) (values : Dict ℤ) (c : CodecField) (p : Field) : Prop where
  value_eq : (values.get p.name).or p.default = (c.value kv).map (Nat.cast : ℕ → ℤ)
  fits : c.width = 32 → ∀ v, c.value kv = some v → v < 2 ^ 32

def Covers (p : Field) (i : ℕ) : Prop := p.offset ≤ i ∧ i < p.offset + p.width

def Apart (p q : Field) : Prop := p.offset + p.width ≤ q.offset ∨ q.offset + q.width ≤ p.offset

theorem getElem_bitsOf {value width j : ℕ} (h : j < width) :
    (bitsOf value width)[j]? = some (value.testBit (width - 1 - j)) := by
  have hj : width - 1 - j < width := by omega
  rw [bitsOf, List.getElem?_reverse (by simpa using h)]
  simp [hj]

theorem length_bitsOf (value width : ℕ) : (bitsOf value width).length = width := by
  simp [bitsOf]

/-- The bit string with one field written over it. -/
def overwrite (frame : List Bool) (p : Field) (v : ℕ) : List Bool :=
  frame.take p.offset ++ bitsOf v p.width ++ frame.drop (p.offset + p.width)

theorem getD_overwrite {frame : List Bool} {p : Field} (v i : ℕ)
    (h : p.offset + p.width ≤ frame.length) :
    (overwrite frame p v).getD i false =
      if p.offset ≤ i ∧ i < p.offset + p.width then v.testBit (p.width - 1 - (i - p.offset))
      else frame.getD i false := by
  have hmin : min p.offset frame.length = p.offset := by omega
  by_cases h1 : i < p.offset
  · have hn : ¬ (p.offset ≤ i ∧ i < p.offset + p.width) := by omega
    have hb : i < (frame.take p.offset ++ bitsOf v p.width).length := by
      simp [length_bitsOf]
      omega
    rw [if_neg hn, overwrite, List.getD_append _ _ _ _ hb,
      List.getD_append _ _ _ _ (by simp; omega)]
    simp [List.getD, h1]
  · by_cases h2 : i < p.offset + p.width
    · have hj : i - p.offset < p.width := by omega
      have hb : i < (frame.take p.offset ++ bitsOf v p.width).length := by
        simp [length_bitsOf]
        omega
      rw [if_pos ⟨by omega, h2⟩, overwrite, List.getD_append _ _ _ _ hb,
        List.getD_append_right _ _ _ _ (by simp; omega)]
      simp [List.getD, hmin, getElem_bitsOf hj]
    · have hn : ¬ (p.offset ≤ i ∧ i < p.offset + p.width) := by omega
      rw [if_neg hn, overwrite, List.getD_append_right _ _ _ _ (by simp [length_bitsOf]; omega)]
      have hlen : (frame.take p.offset ++ bitsOf v p.width).length = p.offset + p.width := by
        simp [length_bitsOf, hmin]
      rw [hlen]
      simp only [List.getD, List.getElem?_drop]
      congr 2
      omega

theorem bitAt_putBits {buf : List Byte} {offset width : ℕ} (v i : ℕ)
    (h : offset + width ≤ 8 * buf.length) :
    bitAt (putBits buf offset width v) i = (bitAt buf i ||
      decide (offset ≤ i ∧ i < offset + width) && v.testBit (width - 1 - (i - offset))) := by
  have hin : ∀ k ∈ List.range width, offset + k < 8 * buf.length := by
    intro k hk
    have := List.mem_range.mp hk
    omega
  rw [Bool.eq_iff_iff, putBits, bitAt_setWhere hin, Bool.or_eq_true, Bool.and_eq_true,
    decide_eq_true_eq]
  apply or_congr_right
  constructor
  · rintro ⟨k, hk, hv, rfl⟩
    have := List.mem_range.mp hk
    exact ⟨by omega, by simpa using hv⟩
  · rintro ⟨hi, hv⟩
    exact ⟨i - offset, List.mem_range.mpr (by omega), hv, by omega⟩

theorem bitAt_pack (bits : List Bool) (i : ℕ) : bitAt (pack bits) i = bits.getD i false := by
  have hin : ∀ x ∈ bits.zipIdx, x.2 < 8 * (blank ((bits.length + 7) / 8)).length := by
    intro x hx
    have := List.snd_lt_of_mem_zipIdx hx
    simp
    omega
  rw [Bool.eq_iff_iff, pack, bitAt_setWhere hin, bitAt_blank]
  constructor
  · rintro (h | ⟨⟨b, k⟩, hx, hb, rfl⟩)
    · simp at h
    · have := List.mem_zipIdx_iff_getElem?.mp hx
      simp only at hb this
      simp [List.getD, this, hb]
  · intro h
    have hs : bits[i]? = some true := by
      cases hb : bits[i]? with
      | none => simp [List.getD, hb] at h
      | some b => simpa [List.getD, hb] using h
    exact Or.inr ⟨(true, i), List.mem_zipIdx_iff_getElem?.mpr hs, rfl, rfl⟩

/-- The buffer of `codec_encode` holds the bit string of `encode`. -/
structure SameFrame (n : ℕ) (buf : List Byte) (frame : List Bool) : Prop where
  length_buf : buf.length = n
  length_frame : frame.length = n * 8
  bits : ∀ i, bitAt buf i = frame.getD i false

theorem SameFrame.eq_pack {n : ℕ} {buf : List Byte} {frame : List Bool}
    (h : SameFrame n buf frame) : buf = pack frame := by
  apply eq_of_bitAt
  · rw [h.length_buf, pack, length_setWhere, length_blank, h.length_frame]
    omega
  · intro i
    rw [h.bits, bitAt_pack]

theorem SameFrame.place {n : ℕ} {buf : List Byte} {frame : List Bool} {p : Field}
    (h : SameFrame n buf frame) (hfit : p.offset + p.width ≤ n * 8)
    (hzero : ∀ i, Covers p i → frame.getD i false = false) (v : ℕ) :
    SameFrame n (putBits buf p.offset p.width v) (overwrite frame p v) where
  length_buf := by rw [putBits, length_setWhere, h.length_buf]
  length_frame := by
    have := h.length_frame
    simp only [overwrite, List.length_append, List.length_take, List.length_drop, length_bitsOf]
    omega
  bits := by
    intro i
    have hb : p.offset + p.width ≤ 8 * buf.length := by rw [h.length_buf]; omega
    have hf : p.offset + p.width ≤ frame.length := by rw [h.length_frame]; omega
    rw [bitAt_putBits v i hb, getD_overwrite v i hf, h.bits]
    by_cases hi : p.offset ≤ i ∧ i < p.offset + p.width
    · rw [hzero i hi, if_pos hi]
      simp [hi]
    · rw [if_neg hi]
      simp [hi]

/-- The value is within the width of the field and one of its allowed values. -/
def Allowed (p : Field) (v : ℕ) : Prop :=
  v ≤ 2 ^ p.width - 1 ∧ p.valid.all (·.holds (v : ℤ)) = true

instance (p : Field) (v : ℕ) : Decidable (Allowed p v) := by unfold Allowed; infer_instance

theorem checkValue_toOption (p : Field) (v : ℕ) :
    (checkValue p.name p.width v p.valid).toOption = if Allowed p v then some () else none := by
  have hpos : 0 < 2 ^ p.width := Nat.two_pow_pos _
  have hcast : ((2 : ℤ) ^ p.width) = ((2 ^ p.width : ℕ) : ℤ) := by push_cast; rfl
  have hle : (0 ≤ (v : ℤ) ∧ (v : ℤ) ≤ 2 ^ p.width - 1) ↔ v ≤ 2 ^ p.width - 1 := by omega
  unfold checkValue
  by_cases h : v ≤ 2 ^ p.width - 1
  · rw [if_neg (not_not.mpr (hle.mpr h))]
    by_cases hv : p.valid.all (·.holds (v : ℤ)) = true
    · have ha : Allowed p v := ⟨h, hv⟩
      rw [if_pos hv, if_pos ha]
      rfl
    · have ha : ¬ Allowed p v := fun h' => hv h'.2
      rw [if_neg hv, if_neg ha]
      rfl
  · have ha : ¬ Allowed p v := fun h' => h h'.1
    rw [if_pos fun h' => h (hle.mp h'), if_neg ha]
    rfl

theorem placeField_toOption {values : Dict ℤ} {total : ℕ} {frame : List Bool} {p : Field} {v : ℕ}
    (hfit : p.offset + p.width ≤ total) (hv : (values.get p.name).or p.default = some (v : ℤ)) :
    (placeField values total frame p).toOption =
      if Allowed p v then some (overwrite frame p v) else none := by
  have hck := checkValue_toOption p v
  unfold placeField
  rw [if_neg (by omega), hv]
  by_cases h : Allowed p v
  · rw [if_pos h] at hck ⊢
    cases hc : checkValue p.name p.width v p.valid with
    | error e => simp [hc, Except.toOption] at hck
    | ok u => simp [hc, Except.toOption, bind, Except.bind, overwrite]
  · rw [if_neg h] at hck ⊢
    cases hc : checkValue p.name p.width v p.valid with
    | error e => simp [hc, Except.toOption, bind, Except.bind]
    | ok u => simp [hc, Except.toOption] at hck

theorem encodeField_toOption {kv : Dict ℕ} {total : ℕ} {buf : List Byte} {c : CodecField}
    {p : Field} {v : ℕ} (hcp : SameField c p) (hfit : p.offset + p.width ≤ total)
    (hv : c.value kv = some v) (h32 : c.width = 32 → v < 2 ^ 32) :
    (encodeField kv total buf c).toOption =
      if Allowed p v then some (putBits buf p.offset p.width v) else none := by
  obtain ⟨-, ho, hw⟩ := hcp.place
  have hle := hcp.width_le
  rw [hw] at h32 hle
  have hpos : 0 < 2 ^ p.width := Nat.two_pow_pos _
  have hwidth : (p.width < 32 ∧ v > 1 <<< p.width - 1) ↔ ¬ v ≤ 2 ^ p.width - 1 := by
    rw [Nat.one_shiftLeft]
    by_cases h : p.width = 32
    · have := h32 h
      rw [h]
      omega
    · omega
  have hvalid := hcp.valid_eq v
  unfold encodeField
  rw [ho, hw, if_neg (by omega), hv]
  dsimp only
  by_cases h1 : v ≤ 2 ^ p.width - 1
  · rw [if_neg fun h => (hwidth.mp h) h1]
    cases h2 : p.valid.all (·.holds (v : ℤ)) with
    | true =>
      have ha : Allowed p v := ⟨h1, h2⟩
      rw [if_neg (by rw [hvalid, h2]; simp), if_pos ha]
      rfl
    | false =>
      have ha : ¬ Allowed p v := fun h => by simp [h.2] at h2
      rw [if_pos (hvalid.mpr h2), if_neg ha]
      rfl
  · have ha : ¬ Allowed p v := fun h => h1 h.1
    rw [if_pos (hwidth.mpr h1), if_neg ha]
    rfl

theorem encodeField_spec {n : ℕ} {buf : List Byte} {frame : List Bool} {kv : Dict ℕ}
    {values : Dict ℤ} {c : CodecField} {p : Field} (hcp : SameField c p)
    (hv : SameValue kv values c p) (h : SameFrame n buf frame)
    (hzero : ∀ i, Covers p i → frame.getD i false = false) :
    (∃ v, (encodeField kv (n * 8) buf c).toOption = some (putBits buf p.offset p.width v) ∧
      (placeField values (n * 8) frame p).toOption = some (overwrite frame p v) ∧
      SameFrame n (putBits buf p.offset p.width v) (overwrite frame p v)) ∨
    ((encodeField kv (n * 8) buf c).toOption = none ∧
      (placeField values (n * 8) frame p).toOption = none) := by
  obtain ⟨-, ho, hw⟩ := hcp.place
  by_cases hfit : p.offset + p.width ≤ n * 8
  · cases hval : c.value kv with
    | none =>
      right
      have hp := hv.value_eq
      rw [hval, Option.map_none] at hp
      unfold encodeField placeField
      rw [ho, hw, if_neg (by omega), if_neg (by omega), hval, hp]
      exact ⟨rfl, rfl⟩
    | some v =>
      have hp := hv.value_eq
      rw [hval, Option.map_some] at hp
      rw [encodeField_toOption hcp hfit hval fun h32 => hv.fits h32 v hval,
        placeField_toOption hfit hp]
      by_cases ha : Allowed p v
      · exact Or.inl ⟨v, if_pos ha, if_pos ha, h.place hfit hzero v⟩
      · exact Or.inr ⟨if_neg ha, if_neg ha⟩
  · right
    unfold encodeField placeField
    rw [ho, hw, if_pos (by omega), if_pos (by omega)]
    exact ⟨rfl, rfl⟩

theorem toOption_eq_some {ε α : Type} {m : Except ε α} {a : α} (h : m.toOption = some a) :
    m = .ok a := by
  cases m with
  | error e => simp [Except.toOption] at h
  | ok b => simpa [Except.toOption] using h

theorem toOption_eq_none {ε α : Type} {m : Except ε α} (h : m.toOption = none) :
    ∃ e, m = .error e := by
  cases m with
  | error e => exact ⟨e, rfl⟩
  | ok b => simp [Except.toOption] at h

theorem encode_loop {n : ℕ} {kv : Dict ℕ} {values : Dict ℤ} {cs : List CodecField}
    {ps : List Field} (hs : List.Forall₂ (fun c p => SameField c p ∧ SameValue kv values c p) cs ps)
    (hap : ps.Pairwise Apart) {buf : List Byte} {frame : List Bool} (h : SameFrame n buf frame)
    (hzero : ∀ p ∈ ps, ∀ i, Covers p i → frame.getD i false = false) :
    (cs.foldlM (encodeField kv (n * 8)) buf).toOption =
      ((ps.foldlM (placeField values (n * 8)) frame).toOption).map pack := by
  induction hs generalizing buf frame with
  | nil =>
    rw [List.foldlM_nil, List.foldlM_nil]
    simp [pure, Except.pure, Except.toOption, h.eq_pack]
  | @cons c p cs ps hcp hs ih =>
    rw [List.foldlM_cons, List.foldlM_cons]
    cases encodeField_spec hcp.1 hcp.2 h (hzero p (by simp)) with
    | inr hn =>
      obtain ⟨e, he⟩ := toOption_eq_none hn.1
      obtain ⟨e', he'⟩ := toOption_eq_none hn.2
      rw [he, he']
      rfl
    | inl hv =>
      obtain ⟨v, hc, hp, hsame⟩ := hv
      rw [toOption_eq_some hc, toOption_eq_some hp]
      apply ih (List.pairwise_cons.mp hap).2 hsame
      intro q hq i hi
      have hapart := (List.pairwise_cons.mp hap).1 q hq
      have hlen : p.offset + p.width ≤ frame.length := by
        by_contra hlt
        unfold placeField at hp
        rw [h.length_frame] at hlt
        rw [if_pos (by omega)] at hp
        simp [Except.toOption] at hp
      have hout : ¬ (p.offset ≤ i ∧ i < p.offset + p.width) := by
        unfold Apart at hapart
        unfold Covers at hi
        omega
      rw [getD_overwrite v i hlen, if_neg hout]
      exact hzero q (by simp [hq]) i hi

theorem codecEncode_eq {f : CodecFunc} {func : Function} {n : ℕ} {kv : Dict ℕ} {values : Dict ℤ}
    (hne : f.ctrlFields ≠ []) (hn : 0 < n ∧ n ≤ frameMax)
    (hs : List.Forall₂ (fun c p => SameField c p ∧ SameValue kv values c p) f.ctrlFields
      func.controlFields) (hap : func.controlFields.Pairwise Apart) :
    (codecEncode f kv n).toOption = (encode func values n).toOption := by
  have hstart : SameFrame n (blank n) (List.replicate (n * 8) false) := {
    length_buf := length_blank n
    length_frame := List.length_replicate
    bits := fun i => by
      rw [bitAt_blank]
      by_cases hi : i < n * 8 <;> simp [List.getD, hi] }
  have hloop := encode_loop hs hap hstart fun p _ i _ => by
    by_cases hi : i < n * 8 <;> simp [List.getD, hi]
  have hbad : ¬ (n = 0 ∨ n > frameMax) := by omega
  rw [codecEncode, if_neg hne, if_neg hbad, hloop, encode]
  cases func.controlFields.foldlM (placeField values (n * 8)) (List.replicate (n * 8) false) with
  | error e => rfl
  | ok frame => rfl

end OpenCalifornia.Control.Firmware
