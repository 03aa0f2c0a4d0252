import OpenCalifornia.Lib.Bits

/-! # Reflected cyclic redundancy checks

The register takes a byte into its low end and moves down eight places. A register that differs
stays different, and no two texts differ within so many bytes as fill the register and leave it the
same. -/

namespace OpenCalifornia.Lib.Crc
open Bits

variable {w : ℕ}

def shift (poly c : BitVec w) : BitVec w := if c.getLsbD 0 then (c >>> 1) ^^^ poly else c >>> 1

def shifts (poly : BitVec w) : ℕ → BitVec w → BitVec w
  | 0, c => c
  | n + 1, c => shifts poly n (shift poly c)

def byte (poly c : BitVec w) (b : Byte) : BitVec w := shifts poly 8 (c ^^^ b.setWidth w)

def run (poly : BitVec w) (c : BitVec w) (bs : List Byte) : BitVec w := bs.foldl (byte poly) c

/-- The bits from `k` on are clear. -/
def Low (k : ℕ) (c : BitVec w) : Prop := ∀ i, k ≤ i → c.getLsbD i = false

variable {poly c d : BitVec w} {k n : ℕ}

theorem run_append (c : BitVec w) (bs bs' : List Byte) :
    run poly c (bs ++ bs') = run poly (run poly c bs) bs' := List.foldl_append

theorem shift_xor (c d : BitVec w) : shift poly (c ^^^ d) = shift poly c ^^^ shift poly d := by
  unfold shift
  rw [BitVec.getLsbD_xor, BitVec.ushiftRight_xor_distrib]
  cases c.getLsbD 0 with
  | false =>
    cases d.getLsbD 0 with
    | false => rfl
    | true => exact BitVec.xor_assoc _ _ _
  | true =>
    cases d.getLsbD 0 with
    | false =>
      show c >>> 1 ^^^ d >>> 1 ^^^ poly = c >>> 1 ^^^ poly ^^^ d >>> 1
      rw [BitVec.xor_assoc, BitVec.xor_comm (d >>> 1), BitVec.xor_assoc]
    | true =>
      show c >>> 1 ^^^ d >>> 1 = c >>> 1 ^^^ poly ^^^ (d >>> 1 ^^^ poly)
      rw [BitVec.xor_comm (d >>> 1) poly, BitVec.xor_assoc, ← BitVec.xor_assoc poly,
        BitVec.xor_self, BitVec.zero_xor]

theorem shifts_xor (n : ℕ) (c d : BitVec w) :
    shifts poly n (c ^^^ d) = shifts poly n c ^^^ shifts poly n d := by
  induction n generalizing c d with
  | zero => rfl
  | succ n ih => rw [shifts, shift_xor, ih, shifts, shifts]

/-- Where the polynomial has its top bit, the bit that went out at the low end is the top bit. -/
theorem low_of_shift (hp : poly.msb = true) (hk : k < w) (h : Low k (shift poly c)) :
    c.getLsbD 0 = false ∧ Low (k + 1) c := by
  have hout : c.getLsbD 0 = false := by
    by_contra hone
    have htop := h (w - 1) (Nat.le_sub_one_of_lt hk)
    have hpoly : poly.getLsbD (w - 1) = true := by rwa [← BitVec.msb_eq_getLsbD_last]
    have hpast : c.getLsbD (1 + (w - 1)) = false := BitVec.getLsbD_of_ge _ _ (by omega)
    rw [shift, if_pos (by simpa using hone), BitVec.getLsbD_xor, BitVec.getLsbD_ushiftRight, hpast,
      hpoly] at htop
    cases htop
  refine ⟨hout, fun i hi => ?_⟩
  have hbit := h (i - 1) (Nat.le_sub_one_of_lt hi)
  rw [shift, hout, if_neg Bool.false_ne_true, BitVec.getLsbD_ushiftRight] at hbit
  rwa [Nat.add_sub_cancel' (Nat.one_le_of_lt hi)] at hbit

theorem low_of_shifts (hp : poly.msb = true) (hk : k + n ≤ w) (h : Low k (shifts poly n c)) :
    (∀ i < n, c.getLsbD i = false) ∧ Low (k + n) c := by
  induction n generalizing c with
  | zero => exact ⟨fun i hi => absurd hi i.not_lt_zero, h⟩
  | succ n ih =>
    obtain ⟨hzero, hlow⟩ := ih (by omega) h
    obtain ⟨hout, hnext⟩ := low_of_shift hp (by omega) hlow
    have hmoved : shift poly c = c >>> 1 := by rw [shift, hout, if_neg Bool.false_ne_true]
    refine ⟨fun i hi => ?_, hnext⟩
    cases i with
    | zero => exact hout
    | succ i =>
      have hbit := hzero i (Nat.lt_of_succ_lt_succ hi)
      rw [hmoved, BitVec.getLsbD_ushiftRight, Nat.add_comm] at hbit
      exact hbit

theorem eq_zero_of_low (h : Low 0 c) : c = 0#w :=
  BitVec.eq_of_getLsbD_eq fun i _ => (h i i.zero_le).trans BitVec.getLsbD_zero.symm

theorem xor_eq_zero (h : c ^^^ d = 0#w) : c = d := by
  have hxor : c ^^^ d ^^^ d = 0#w ^^^ d := by rw [h]
  rwa [BitVec.xor_assoc, BitVec.xor_self, BitVec.xor_zero, BitVec.zero_xor] at hxor

theorem low_byte (b : Byte) : Low 8 (b.setWidth w) := fun i hi => by
  rw [BitVec.getLsbD_setWidth, BitVec.getLsbD_of_ge b i hi, Bool.and_false]

theorem Low.xor (hc : Low k c) (hd : Low k d) : Low k (c ^^^ d) := fun i hi => by
  rw [BitVec.getLsbD_xor, hc i hi, hd i hi]
  rfl

theorem Low.mono (h : Low k c) (hn : k ≤ n) : Low n c := fun i hi => h i (hn.trans hi)

/-- Registers that end alike after so many bytes were alike above these bytes, and of one register
the bytes were the same. -/
theorem run_window (hp : poly.msb = true) {bs bs' : List Byte} (hlen : bs.length = bs'.length)
    (hw : 8 * bs.length ≤ w) (h : run poly c bs = run poly d bs') :
    Low (8 * bs.length) (c ^^^ d) ∧ (c = d → bs = bs') := by
  induction bs generalizing c d bs' with
  | nil =>
    obtain rfl := List.length_eq_zero_iff.mp hlen.symm
    have heq : c = d := h
    refine ⟨fun i _ => ?_, fun _ => rfl⟩
    rw [heq, BitVec.xor_self, BitVec.getLsbD_zero]
  | cons b bs ih =>
    obtain ⟨b', bs', rfl⟩ : ∃ b' t, bs' = b' :: t := by
      cases bs' with
      | nil => cases hlen
      | cons b' t => exact ⟨b', t, rfl⟩
    rw [List.length_cons] at hw
    obtain ⟨hlow, hrest⟩ := ih (c := byte poly c b) (d := byte poly d b')
      (Nat.succ.inj hlen) (by omega) h
    unfold byte at hlow
    rw [← shifts_xor] at hlow
    obtain ⟨hzero, hall⟩ := low_of_shifts hp (by omega) hlow
    have hregs : c ^^^ d =
        c ^^^ b.setWidth w ^^^ (d ^^^ b'.setWidth w) ^^^ (b.setWidth w ^^^ b'.setWidth w) := by
      rw [BitVec.xor_assoc c, BitVec.xor_comm (b.setWidth w), BitVec.xor_assoc d,
        BitVec.xor_assoc c, BitVec.xor_assoc d, BitVec.xor_comm (b'.setWidth w) (b.setWidth w),
        BitVec.xor_self, BitVec.xor_zero]
    refine ⟨?_, fun hcd => ?_⟩
    · rw [hregs]
      exact hall.xor (((low_byte b).xor (low_byte b')).mono (Nat.le_add_left _ _))
    · subst hcd
      have hbyte : b = b' := by
        refine BitVec.eq_of_getLsbD_eq fun i hi => ?_
        have hbit := hzero i hi
        simp only [BitVec.getLsbD_xor, BitVec.getLsbD_setWidth] at hbit
        have hiw : i < w := by omega
        rw [decide_eq_true hiw] at hbit
        revert hbit
        cases c.getLsbD i <;> cases b.getLsbD i <;> cases b'.getLsbD i <;> simp
      subst hbyte
      rw [hrest rfl]

theorem run_injective (hp : poly.msb = true) (hw : 8 ≤ w) {bs : List Byte}
    (h : run poly c bs = run poly d bs) : c = d := by
  induction bs generalizing c d with
  | nil => exact h
  | cons b bs ih =>
    have hbyte : byte poly c b = byte poly d b := ih h
    unfold byte at hbyte
    have hsame : shifts poly 8 (c ^^^ b.setWidth w ^^^ (d ^^^ b.setWidth w)) = 0#w := by
      rw [shifts_xor, hbyte, BitVec.xor_self]
    have hzero : Low 0 (shifts poly 8 (c ^^^ b.setWidth w ^^^ (d ^^^ b.setWidth w))) := by
      rw [hsame]
      exact fun i _ => BitVec.getLsbD_zero
    obtain ⟨hlow, hhigh⟩ := low_of_shifts hp (by omega) hzero
    have hregs : c ^^^ b.setWidth w ^^^ (d ^^^ b.setWidth w) = 0#w := by
      refine eq_zero_of_low fun i _ => ?_
      rcases Nat.lt_or_ge i 8 with hi | hi
      · exact hlow i hi
      · exact hhigh i (by omega)
    have hcb := xor_eq_zero hregs
    have hback : c ^^^ b.setWidth w ^^^ b.setWidth w = d ^^^ b.setWidth w ^^^ b.setWidth w := by
      rw [hcb]
    rwa [BitVec.xor_assoc, BitVec.xor_self, BitVec.xor_zero, BitVec.xor_assoc, BitVec.xor_self,
      BitVec.xor_zero] at hback

/-- No two texts that differ within one register's width of bytes leave the same register. -/
theorem run_burst (hp : poly.msb = true) (hw : 8 ≤ w) {pre bs bs' post : List Byte}
    (hlen : bs.length = bs'.length) (hbs : 8 * bs.length ≤ w)
    (h : run poly c (pre ++ (bs ++ post)) = run poly c (pre ++ (bs' ++ post))) : bs = bs' := by
  rw [run_append, run_append, run_append, run_append] at h
  exact (run_window hp hlen hbs (run_injective hp hw h)).2 rfl

end OpenCalifornia.Lib.Crc
