import Mathlib

/-! Times that stand a gap apart, and how many of them a window holds. -/

namespace OpenCalifornia.Lib

variable {g D w n : ℕ} {t : ℕ} {ts : List ℕ}

/-- Times with a gap, the newest first. -/
abbrev Spaced (g : ℕ) (ts : List ℕ) : Prop := ts.Pairwise fun newer older => older + g ≤ newer

theorem Spaced.le (h : Spaced g (t :: ts)) (hw : ∀ x ∈ t :: ts, w ≤ x) : w + ts.length * g ≤ t := by
  induction ts generalizing t with
  | nil => simpa using hw t List.mem_cons_self
  | cons x ts ih =>
    obtain ⟨hgap, hrest⟩ := List.pairwise_cons.mp h
    have hle := ih hrest fun y hy => hw y (List.mem_cons_of_mem _ hy)
    have hx := hgap x List.mem_cons_self
    rw [List.length_cons, Nat.add_one_mul]
    omega

/-- A window of length `D` holds no more than `n` times that stand `D / n` apart. -/
theorem Spaced.length_le (h : Spaced g ts) (hw : ∀ x ∈ ts, w ≤ x ∧ x < w + D) (hD : D ≤ n * g) :
    ts.length ≤ n := by
  cases ts with
  | nil => exact Nat.zero_le _
  | cons t ts =>
    have hle := h.le fun x hx => (hw x hx).1
    have hlt := (hw t List.mem_cons_self).2
    have hmul : ts.length * g < n * g := by omega
    exact Nat.lt_of_mul_lt_mul_right hmul

end OpenCalifornia.Lib
