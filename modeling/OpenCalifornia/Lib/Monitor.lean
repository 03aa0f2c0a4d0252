import Mathlib

/-! A monitor follows the actions of a program and says of each whether it is allowed. A log has
the newest action first. -/

namespace OpenCalifornia.Lib

universe u v

structure Monitor (W : Type u) (A : Type v) where
  apply : W → A → W
  allows : W → A → Prop

namespace Monitor

variable {W : Type u} {A : Type v} (m : Monitor W A)

/-- The monitor after the actions of a log. -/
def after (w : W) (log : List A) : W := log.foldr (fun a w => m.apply w a) w

/-- Every action of the log was allowed when it came. -/
def Fits (w : W) : List A → Prop
  | [] => True
  | a :: log => Fits w log ∧ m.allows (m.after w log) a

/-- The actions of a log were allowed, and they lead from `w₀` to `w`. -/
structure At (w₀ : W) (log : List A) (w : W) : Prop where
  fits : m.Fits w₀ log
  now : m.after w₀ log = w

variable {m} {w₀ w : W} {log : List A}

theorem At.start : m.At w [] w := ⟨trivial, rfl⟩

theorem At.cons (h : m.At w₀ log w) {a : A} (ha : m.allows w a) :
    m.At w₀ (a :: log) (m.apply w a) :=
  ⟨⟨h.fits, h.now.symm ▸ ha⟩, congrArg (m.apply · a) h.now⟩

theorem At.append (h : m.At w₀ log w) {w' : W} {log' : List A} (h' : m.At w log' w') :
    m.At w₀ (log' ++ log) w' := by
  induction log' generalizing w' with
  | nil => exact h'.now ▸ h
  | cons a log' ih =>
    have hmid := ih ⟨h'.fits.1, rfl⟩
    exact h'.now ▸ hmid.cons h'.fits.2

/-! Actions that the monitor does not look at can be left out of the log. -/

section Plain

variable {plain : A → Bool} (happly : ∀ w a, plain a = true → m.apply w a = w)
  (hallows : ∀ w a, plain a = true → m.allows w a)

include happly

theorem after_filter (w : W) (log : List A) :
    m.after w (log.filter fun a => !plain a) = m.after w log := by
  induction log with
  | nil => rfl
  | cons a log ih =>
    cases ha : plain a with
    | true =>
      rw [List.filter_cons_of_neg (by rw [ha]; exact Bool.false_ne_true), ih]
      exact (happly _ a ha).symm
    | false =>
      rw [List.filter_cons_of_pos (by rw [ha]; rfl)]
      exact congrArg (m.apply · a) ih

include hallows

theorem fits_filter (w : W) (log : List A) :
    m.Fits w (log.filter fun a => !plain a) ↔ m.Fits w log := by
  induction log with
  | nil => rfl
  | cons a log ih =>
    cases ha : plain a with
    | true =>
      rw [List.filter_cons_of_neg (by rw [ha]; exact Bool.false_ne_true), ih]
      exact ⟨fun h => ⟨h, hallows _ a ha⟩, And.left⟩
    | false =>
      rw [List.filter_cons_of_pos (by rw [ha]; rfl)]
      unfold Fits
      rw [ih, after_filter happly]

end Plain

end Monitor

end OpenCalifornia.Lib
