import Mathlib

/-! # Settings saved one by one

Each setting is stored and then used; the first that cannot be stored ends the request. -/

namespace OpenCalifornia.Lib.Saves

variable {α σ τ : Type*} (saved : α → Bool) (put : α → σ → σ)

def run : List α → σ → Bool × σ
  | [], s => (true, s)
  | a :: l, s => if saved a then run l (put a s) else (false, s)

/-- All of them. -/
def applyAll (l : List α) (s : σ) : σ := l.foldl (fun s a => put a s) s

variable {saved put}

theorem run_cases (l : List α) (s : σ) :
    run saved put l s = (true, applyAll put l s) ∧ (∀ a ∈ l, saved a = true) ∨
      ∃ done a rest, l = done ++ a :: rest ∧ (∀ b ∈ done, saved b = true) ∧ saved a = false ∧
        run saved put l s = (false, applyAll put done s) := by
  induction l generalizing s with
  | nil => exact .inl ⟨rfl, List.forall_mem_nil _⟩
  | cons a l ih =>
    by_cases ha : saved a = true
    · rw [run, if_pos ha]
      obtain ⟨hrun, hall⟩ | ⟨done, b, rest, rfl, hdone, hb, hrun⟩ := ih (put a s)
      · exact .inl ⟨hrun, List.forall_mem_cons.mpr ⟨ha, hall⟩⟩
      · exact .inr ⟨a :: done, b, rest, rfl, List.forall_mem_cons.mpr ⟨ha, hdone⟩, hb, hrun⟩
    · rw [run, if_neg ha]
      exact .inr ⟨[], a, l, rfl, List.forall_mem_nil _, eq_false_of_ne_true ha, rfl⟩

theorem applyAll_view {view : σ → τ} {apply : α → τ → τ} {l : List α}
    (h : ∀ a ∈ l, ∀ s, view (put a s) = apply a (view s)) (s : σ) :
    view (applyAll put l s) = applyAll apply l (view s) := by
  induction l generalizing s with
  | nil => rfl
  | cons a l ih =>
    obtain ⟨ha, hl⟩ := List.forall_mem_cons.mp h
    exact (ih hl (put a s)).trans (congrArg (applyAll apply l) (ha s))

end OpenCalifornia.Lib.Saves
