import Mathlib

/-! Values of C's integer types. A computation lists the exact values of its subexpressions with
their types; where all of them fit, what the machine stores is the exact value. -/

namespace OpenCalifornia.Lib.CInt

inductive Ty
  | i32 | i64
deriving DecidableEq

def Ty.width : Ty → ℕ
  | .i32 => 32
  | .i64 => 64

/-- The exact value of an expression of a type. -/
structure Val where
  ty : Ty
  exact : ℤ
deriving DecidableEq

def i32 (z : ℤ) : Val := ⟨.i32, z⟩

def i64 (z : ℤ) : Val := ⟨.i64, z⟩

def Val.fits (x : Val) : Prop :=
  -2 ^ (x.ty.width - 1) ≤ x.exact ∧ x.exact < 2 ^ (x.ty.width - 1)

instance (x : Val) : Decidable x.fits := inferInstanceAs (Decidable (_ ∧ _))

/-- What a two's complement machine keeps of it. -/
def Val.stored (x : Val) : ℤ := x.exact.bmod (2 ^ x.ty.width)

@[simp] theorem fits_i32 {z : ℤ} : (i32 z).fits ↔ -2147483648 ≤ z ∧ z ≤ 2147483647 := by
  simp only [Val.fits, i32, Ty.width]
  omega

@[simp] theorem fits_i64 {z : ℤ} :
    (i64 z).fits ↔ -9223372036854775808 ≤ z ∧ z ≤ 9223372036854775807 := by
  simp only [Val.fits, i64, Ty.width]
  omega

theorem Val.fits.stored_eq {x : Val} (h : x.fits) : x.stored = x.exact := by
  obtain ⟨ty, z⟩ := x
  simp only [Val.fits] at h
  cases ty
  · exact Int.bmod_eq_of_le (by simp only [Ty.width] at *; omega)
      (by simp only [Ty.width] at *; omega)
  · exact Int.bmod_eq_of_le (by simp only [Ty.width] at *; omega)
      (by simp only [Ty.width] at *; omega)

theorem Val.stored_eq_iff {x : Val} : x.stored = x.exact ↔ x.fits := by
  refine ⟨fun h => ?_, Val.fits.stored_eq⟩
  have hpos : 0 < 2 ^ x.ty.width := Nat.two_pow_pos _
  have hlo := Int.le_bmod (x := x.exact) hpos
  have hhi := Int.bmod_lt (x := x.exact) hpos
  rw [Val.stored] at h
  rw [h] at hlo hhi
  obtain ⟨ty, z⟩ := x
  cases ty <;> simp only [Val.fits, Ty.width] at * <;> omega

def AllFit (xs : List Val) : Prop := ∀ x ∈ xs, x.fits

instance (xs : List Val) : Decidable (AllFit xs) := inferInstanceAs (Decidable (∀ x ∈ xs, x.fits))

@[simp] theorem allFit_nil : AllFit [] := by simp [AllFit]

@[simp] theorem allFit_cons {x : Val} {xs : List Val} :
    AllFit (x :: xs) ↔ x.fits ∧ AllFit xs := by
  simp [AllFit]

@[simp] theorem allFit_append {xs ys : List Val} :
    AllFit (xs ++ ys) ↔ AllFit xs ∧ AllFit ys := by
  simp [AllFit, or_imp, forall_and]

theorem allFit_ite {p : Prop} [Decidable p] {xs ys : List Val} (h : p → AllFit xs)
    (h' : ¬ p → AllFit ys) : AllFit (if p then xs else ys) := by
  by_cases hp : p
  · rw [if_pos hp]
    exact h hp
  · rw [if_neg hp]
    exact h' hp

end OpenCalifornia.Lib.CInt
