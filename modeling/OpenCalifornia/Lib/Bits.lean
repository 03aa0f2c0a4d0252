import Mathlib

/-! Bit frames, most significant bit first: bit `i` of a frame is bit `7 - i % 8` of its byte
`i / 8`. A frame is determined by its length and its bits, so two ways of writing one are
compared bit by bit. -/

namespace OpenCalifornia.Lib.Bits

abbrev Byte := BitVec 8

instance : LawfulBEq Byte := inferInstance

def bitAt (raw : List Byte) (i : Nat) : Bool := (raw.getD (i / 8) 0).getLsbD (7 - i % 8)

def setBit (buf : List Byte) (i : Nat) : List Byte :=
  buf.modify (i / 8) (· ||| 1#8 <<< (7 - i % 8))

/-- Set bit `g x` for every `x` of the list that `p` selects. -/
def setWhere {α : Type} (p : α → Bool) (g : α → Nat) (l : List α) (buf : List Byte) : List Byte :=
  l.foldl (fun buf x => if p x then setBit buf (g x) else buf) buf

/-- The number a bit string spells. -/
def ofBits (bits : List Bool) : Nat := bits.foldl (fun v b => v <<< 1 ||| b.toNat) 0

def toBits (raw : List Byte) : List Bool :=
  raw.flatMap fun b => (List.range 8).map fun k => b.getLsbD (7 - k)

def blank (n : Nat) : List Byte := List.replicate n 0

@[simp] theorem length_setBit (buf : List Byte) (i : Nat) :
    (setBit buf i).length = buf.length := by
  simp [setBit]

@[simp] theorem length_setWhere {α : Type} (p : α → Bool) (g : α → Nat) (l : List α)
    (buf : List Byte) : (setWhere p g l buf).length = buf.length := by
  induction l generalizing buf with
  | nil => rfl
  | cons x l ih =>
    rw [setWhere, List.foldl_cons, ← setWhere, ih]
    by_cases h : p x <;> simp [h]

@[simp] theorem length_blank (n : Nat) : (blank n).length = n := by
  simp [blank]

@[simp] theorem bitAt_blank (n i : Nat) : bitAt (blank n) i = false := by
  by_cases h : i / 8 < n <;> simp [bitAt, blank, List.getD, h]

theorem getLsbD_one_shiftLeft {j k : Nat} (hk : k < 8) :
    (1#8 <<< k).getLsbD j = decide (j = k) := by
  by_cases h : j = k
  · subst h
    simp [hk]
  · by_cases hj : j < k
    · simp [BitVec.getLsbD_shiftLeft, hj, h]
    · have h1 : j - k ≠ 0 := by omega
      simp [BitVec.getLsbD_shiftLeft, h, h1]

theorem bitAt_setBit {buf : List Byte} {i j : Nat} (h : i < 8 * buf.length) :
    bitAt (setBit buf i) j = (bitAt buf j || decide (j = i)) := by
  have hi : i / 8 < buf.length := by omega
  have hk : 7 - i % 8 < 8 := by omega
  by_cases hb : j / 8 = i / 8
  · have hj : j = i ↔ 7 - j % 8 = 7 - i % 8 := by omega
    simp [bitAt, setBit, List.getD, hb, hi, getLsbD_one_shiftLeft hk, hj]
  · have hj : j ≠ i := by
      intro h'
      exact hb (by rw [h'])
    have hb' : i / 8 ≠ j / 8 := fun h' => hb h'.symm
    simp [bitAt, setBit, List.getD, hb', hj]

theorem bitAt_setWhere {α : Type} {p : α → Bool} {g : α → Nat} {l : List α} {buf : List Byte}
    (h : ∀ x ∈ l, g x < 8 * buf.length) (j : Nat) :
    bitAt (setWhere p g l buf) j = true ↔
      bitAt buf j = true ∨ ∃ x ∈ l, p x = true ∧ g x = j := by
  induction l generalizing buf with
  | nil => simp [setWhere]
  | cons x l ih =>
    have hx : g x < 8 * buf.length := h x (by simp)
    have hl : ∀ y ∈ l, g y < 8 * buf.length := fun y hy => h y (by simp [hy])
    rw [setWhere, List.foldl_cons, ← setWhere]
    by_cases hp : p x = true
    · rw [if_pos hp, ih (by simpa using hl), bitAt_setBit hx]
      simp only [Bool.or_eq_true, decide_eq_true_eq, List.mem_cons, exists_eq_or_imp, hp, true_and,
        or_assoc, @eq_comm _ j]
    · rw [if_neg hp, ih hl]
      simp [hp]

theorem eq_of_bitAt {a b : List Byte} (hl : a.length = b.length)
    (h : ∀ i, bitAt a i = bitAt b i) : a = b := by
  apply List.ext_getElem hl
  intro n ha hb
  apply BitVec.eq_of_getLsbD_eq
  intro k hk
  have hn : (8 * n + (7 - k)) / 8 = n := by omega
  have hm : 7 - (8 * n + (7 - k)) % 8 = k := by omega
  have hi := h (8 * n + (7 - k))
  rw [bitAt, bitAt, hn, hm] at hi
  simpa [List.getD, ha, hb] using hi

theorem length_toBits (raw : List Byte) : (toBits raw).length = 8 * raw.length := by
  induction raw with
  | nil => rfl
  | cons b raw ih =>
    rw [toBits, List.flatMap_cons, List.length_append, ← toBits, ih]
    simp
    omega

theorem getElem_toBits (raw : List Byte) {i : Nat} (h : i < (toBits raw).length) :
    (toBits raw)[i] = bitAt raw i := by
  induction raw generalizing i with
  | nil => simp [toBits] at h
  | cons b raw ih =>
    have hc : toBits (b :: raw) = ((List.range 8).map fun k => b.getLsbD (7 - k)) ++
        toBits raw := by
      simp [toBits]
    by_cases hi : i < 8
    · have h0 : i / 8 = 0 := by omega
      have hm : i % 8 = i := by omega
      simp [hc, hi, bitAt, h0, hm]
    · have h1 : i / 8 = (i - 8) / 8 + 1 := by omega
      have hm : i % 8 = (i - 8) % 8 := by omega
      have hlt : i - 8 < (toBits raw).length := by
        rw [length_toBits] at h ⊢
        simp at h
        omega
      simp [hc, List.getElem_append, hi, ih hlt, bitAt, h1, hm]

theorem toBits_append (a b : List Byte) : toBits (a ++ b) = toBits a ++ toBits b := by
  simp [toBits]

theorem toBits_take (raw : List Byte) (n : Nat) :
    toBits (raw.take n) = (toBits raw).take (8 * n) := by
  by_cases hn : n ≤ raw.length
  · have hlen : (toBits (raw.take n)).length = 8 * n := by
      rw [length_toBits, List.length_take_of_le hn]
    conv_rhs => rw [← List.take_append_drop n raw, toBits_append, ← hlen]
    exact List.take_left.symm
  · have hlen : (toBits raw).length ≤ 8 * n := by
      rw [length_toBits]
      omega
    rw [List.take_of_length_le (by omega), List.take_of_length_le hlen]

theorem window_toBits (raw : List Byte) {offset width : Nat} (h : offset + width ≤ 8 * raw.length) :
    ((toBits raw).drop offset).take width =
      (List.range width).map fun k => bitAt raw (offset + k) := by
  apply List.ext_getElem
  · simp [length_toBits]
    omega
  · intro n h1 h2
    simp [getElem_toBits]

theorem ofBits_concat (bits : List Bool) (b : Bool) :
    ofBits (bits ++ [b]) = 2 * ofBits bits + b.toNat := by
  rw [ofBits, List.foldl_append, ← ofBits]
  have h : b.toNat < 2 ^ 1 := by cases b <;> decide
  rw [List.foldl_cons, List.foldl_nil, ← Nat.shiftLeft_add_eq_or_of_lt h, Nat.shiftLeft_eq]
  omega

theorem ofBits_testBits (v width : Nat) :
    ofBits ((List.range width).map fun k => v.testBit (width - 1 - k)) = v % 2 ^ width := by
  induction width generalizing v with
  | zero =>
    rw [Nat.pow_zero, Nat.mod_one]
    rfl
  | succ width ih =>
    have hhigh : (List.range width).map (fun k => v.testBit (width + 1 - 1 - k)) =
        (List.range width).map fun k => (v / 2).testBit (width - 1 - k) := by
      apply List.map_congr_left
      intro k hk
      have hk' : width + 1 - 1 - k = (width - 1 - k) + 1 := by
        have := List.mem_range.mp hk
        omega
      rw [hk', Nat.testBit_succ]
    rw [List.range_succ, List.map_append, List.map_singleton, ofBits_concat, hhigh, ih]
    have hlow : (v.testBit (width + 1 - 1 - width)).toNat = v % 2 := by
      rw [Nat.add_sub_cancel, Nat.sub_self, Nat.testBit_zero]
      cases Nat.mod_two_eq_zero_or_one v with
      | inl h => simp [h]
      | inr h => simp [h]
    rw [hlow, Nat.pow_succ, Nat.mul_comm (2 ^ width) 2, Nat.mod_mul]
    omega

end OpenCalifornia.Lib.Bits
