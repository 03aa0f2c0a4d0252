import Mathlib

/-! A cascade of ordered rules with early return. A rule goes on to the next one, returns a
final result at once, or raises. `Meets` is the total Hoare rule of such a cascade, `Ends` the
partial one, and `Sim` compares two cascades that run rule by rule. -/

namespace OpenCalifornia.Lib

universe u v

inductive Flow (β : Type u) (α : Type v)
  | next (a : α)
  | done (b : β)
  | raise

namespace Flow

variable {β β' : Type u} {α α' γ γ' : Type v}

def bind (m : Flow β α) (f : α → Flow β γ) : Flow β γ :=
  match m with
  | next a => f a
  | done b => done b
  | raise => raise

instance : Monad (Flow β) where
  pure := next
  bind := bind

/-- Read a value that has to be there. -/
def need : Option α → Flow β α
  | some a => next a
  | none => raise

/-- What a finished cascade returns, or nothing after an exception. -/
def result : Flow β β → Option β
  | next b => some b
  | done b => some b
  | raise => none

@[simp] theorem pure_eq (a : α) : (pure a : Flow β α) = next a := rfl

@[simp] theorem next_bind (a : α) (f : α → Flow β γ) : (next a >>= f : Flow β γ) = f a := rfl

@[simp] theorem done_bind (b : β) (f : α → Flow β γ) : (done b >>= f : Flow β γ) = done b := rfl

@[simp] theorem raise_bind (f : α → Flow β γ) : (raise >>= f : Flow β γ) = raise := rfl

theorem bind_assoc (m : Flow β α) (f : α → Flow β γ) (g : γ → Flow β γ') :
    (m >>= f) >>= g = m >>= fun a => f a >>= g := by
  cases m <;> rfl

@[simp] theorem need_some (a : α) : (need (some a) : Flow β α) = next a := rfl

@[simp] theorem need_none : (need none : Flow β α) = raise := rfl

/-- Total correctness: no exception, `R` of a returned result, `Q` of a value passed on. -/
def Meets (m : Flow β α) (R : β → Prop) (Q : α → Prop) : Prop :=
  match m with
  | next a => Q a
  | done b => R b
  | raise => False

section Meets

variable {R R' : β → Prop} {Q Q' : α → Prop} {P : γ → Prop}

@[simp] theorem meets_next {a : α} : (next a : Flow β α).Meets R Q ↔ Q a := Iff.rfl

@[simp] theorem meets_done {b : β} : (done b : Flow β α).Meets R Q ↔ R b := Iff.rfl

@[simp] theorem meets_raise : (raise : Flow β α).Meets R Q ↔ False := Iff.rfl

theorem Meets.mono {m : Flow β α} (h : m.Meets R Q) (hR : ∀ b, R b → R' b)
    (hQ : ∀ a, Q a → Q' a) : m.Meets R' Q' := by
  cases m with
  | next a => exact hQ a h
  | done b => exact hR b h
  | raise => exact h

theorem Meets.weaken {m : Flow β α} (h : m.Meets R Q) (hR : ∀ b, R b → R' b) : m.Meets R' Q :=
  h.mono hR fun _ ha => ha

theorem Meets.bind {m : Flow β α} {f : α → Flow β γ} (h : m.Meets R Q)
    (hf : ∀ a, Q a → (f a).Meets R P) : (m >>= f).Meets R P := by
  cases m with
  | next a => exact hf a h
  | done b => exact h
  | raise => exact h

theorem Meets.need {o : Option α} {f : α → Flow β γ} (h : o.isSome)
    (hf : ∀ a, o = some a → (f a).Meets R P) : (Flow.need o >>= f).Meets R P := by
  cases o with
  | none => cases h
  | some a => exact hf a rfl

theorem Meets.ite {c : Prop} [Decidable c] {m m' : Flow β α} (ht : c → m.Meets R Q)
    (hf : ¬ c → m'.Meets R Q) : (if c then m else m').Meets R Q := by
  split_ifs with h
  · exact ht h
  · exact hf h

end Meets

/-- Partial correctness: as `Meets`, but an exception is allowed. -/
def Ends (m : Flow β α) (R : β → Prop) (Q : α → Prop) : Prop :=
  match m with
  | next a => Q a
  | done b => R b
  | raise => True

section Ends

variable {R : β → Prop} {Q Q' : α → Prop} {P : γ → Prop}

@[simp] theorem ends_next {a : α} : (next a : Flow β α).Ends R Q ↔ Q a := Iff.rfl

@[simp] theorem ends_done {b : β} : (done b : Flow β α).Ends R Q ↔ R b := Iff.rfl

@[simp] theorem ends_raise : (raise : Flow β α).Ends R Q := trivial

theorem Ends.bind {m : Flow β α} {f : α → Flow β γ} (h : m.Ends R Q)
    (hf : ∀ a, Q a → (f a).Ends R P) : (m >>= f).Ends R P := by
  cases m with
  | next a => exact hf a h
  | done b => exact h
  | raise => exact h

theorem Ends.need {o : Option α} {f : α → Flow β γ} (hf : ∀ a, o = some a → (f a).Ends R P) :
    (Flow.need o >>= f).Ends R P := by
  cases o with
  | none => trivial
  | some a => exact hf a rfl

theorem Ends.ite {c : Prop} [Decidable c] {m m' : Flow β α} (ht : c → m.Ends R Q)
    (hf : ¬ c → m'.Ends R Q) : (if c then m else m').Ends R Q := by
  split_ifs with h
  · exact ht h
  · exact hf h

theorem Ends.result {m : Flow β β} {S : β → Prop} (h : m.Ends S S) {b : β}
    (hb : m.result = some b) : S b := by
  cases m with
  | next a => exact Option.some.inj hb ▸ h
  | done a => exact Option.some.inj hb ▸ h
  | raise => cases hb

end Ends

/-- Two cascades in step: where the first does not raise, the second ends the same way. -/
def Sim (R : β → β' → Prop) (Q : α → α' → Prop) (m : Flow β α) (m' : Flow β' α') : Prop :=
  match m, m' with
  | next a, next a' => Q a a'
  | done b, done b' => R b b'
  | raise, _ => True
  | _, _ => False

section Sim

variable {R : β → β' → Prop} {Q : α → α' → Prop} {P : γ → γ' → Prop}

@[simp] theorem sim_next {a : α} {a' : α'} :
    Sim R Q (next a) (next a' : Flow β' α') ↔ Q a a' := Iff.rfl

@[simp] theorem sim_done {b : β} {b' : β'} :
    Sim R Q (done b : Flow β α) (done b' : Flow β' α') ↔ R b b' := Iff.rfl

@[simp] theorem sim_raise {m' : Flow β' α'} : Sim R Q (raise : Flow β α) m' := by
  cases m' <;> trivial

theorem Sim.bind {m : Flow β α} {m' : Flow β' α'} {f : α → Flow β γ} {f' : α' → Flow β' γ'}
    (h : Sim R Q m m') (hf : ∀ a a', Q a a' → Sim R P (f a) (f' a')) :
    Sim R P (m >>= f) (m' >>= f') := by
  cases m with
  | next a =>
    cases m' with
    | next a' => exact hf a a' h
    | done b' => exact h.elim
    | raise => exact h.elim
  | done b =>
    cases m' with
    | next a' => exact h.elim
    | done b' => exact h
    | raise => exact h.elim
  | raise => exact sim_raise

theorem Sim.and_meets {m : Flow β α} {m' : Flow β' α'} {Q' : α' → Prop} (h : Sim R Q m m')
    (h' : m'.Meets (fun _ => True) Q') : Sim R (fun a a' => Q a a' ∧ Q' a') m m' := by
  cases m with
  | next a =>
    cases m' with
    | next a' => exact ⟨h, h'⟩
    | done b' => exact h.elim
    | raise => exact h.elim
  | done b =>
    cases m' with
    | next a' => exact h.elim
    | done b' => exact h
    | raise => exact h.elim
  | raise => exact sim_raise

theorem Sim.bind_next {m : Flow β α} {a' : α'} {f : α → Flow β γ} {m' : Flow β' γ'}
    (h : Sim R Q m (next a')) (hf : ∀ a, Q a a' → Sim R P (f a) m') : Sim R P (m >>= f) m' := by
  cases m with
  | next a => exact hf a h
  | done b => exact h.elim
  | raise => exact sim_raise

theorem Sim.need {o : Option α} {f : α → Flow β γ} {m' : Flow β' γ'}
    (hf : ∀ a, o = some a → Sim R P (f a) m') : Sim R P (Flow.need o >>= f) m' := by
  cases o with
  | none => exact sim_raise
  | some a => exact hf a rfl

theorem Sim.ite {c c' : Prop} [Decidable c] [Decidable c'] {m n : Flow β α} {m' n' : Flow β' α'}
    (hc : c ↔ c') (ht : c → c' → Sim R Q m m') (hf : ¬ c → ¬ c' → Sim R Q n n') :
    Sim R Q (if c then m else n) (if c' then m' else n') := by
  by_cases h : c
  · rw [if_pos h, if_pos (hc.mp h)]
    exact ht h (hc.mp h)
  · rw [if_neg h, if_neg fun h' => h (hc.mpr h')]
    exact hf h fun h' => h (hc.mpr h')

theorem Sim.result {S : β → β' → Prop} {m : Flow β β} {m' : Flow β' β'} (h : Sim S S m m')
    {b : β} (hb : m.result = some b) : ∃ b', m'.result = some b' ∧ S b b' := by
  cases m with
  | next a =>
    obtain rfl : a = b := by simpa [Flow.result] using hb
    cases m' with
    | next a' => exact ⟨a', rfl, h⟩
    | done b' => exact h.elim
    | raise => exact h.elim
  | done a =>
    obtain rfl : a = b := by simpa [Flow.result] using hb
    cases m' with
    | next a' => exact h.elim
    | done b' => exact ⟨b', rfl, h⟩
    | raise => exact h.elim
  | raise => simp [Flow.result] at hb

end Sim

end Flow

end OpenCalifornia.Lib
