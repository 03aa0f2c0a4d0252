import Mathlib

/-! Logs that grow at their end. A rule says which entry may stand behind which entries, and a log
keeps it when each of its entries does. -/

namespace OpenCalifornia.Lib

universe u

variable {α : Type u}

/-- Every entry stands behind entries that allow it. -/
def Keeps (rule : List α → α → Prop) (log : List α) : Prop :=
  ∀ pre x post, log = pre ++ x :: post → rule pre x

namespace Keeps

variable {rule : List α → α → Prop} {log more : List α} {x : α}

theorem nil : Keeps rule ([] : List α) := by
  intro pre x post h
  simp at h

theorem before (h : Keeps rule (log ++ more)) : Keeps rule log := by
  intro pre x post hlog
  exact h pre x (post ++ more) (by simp [hlog])

theorem append (h : Keeps rule log) (hx : rule log x) : Keeps rule (log ++ [x]) := by
  intro pre y post hlog
  induction post using List.reverseRecOn with
  | nil =>
    obtain ⟨hpre, hy⟩ := List.append_inj' hlog rfl
    rwa [← hpre, ← (List.cons.inj hy).1]
  | append_singleton post z _ =>
    have hsplit : log ++ [x] = (pre ++ y :: post) ++ [z] := by simpa using hlog
    exact h pre y post (List.append_inj' hsplit rfl).1

theorem free (h : Keeps rule log) (hmore : ∀ x ∈ more, ∀ pre, rule pre x) :
    Keeps rule (log ++ more) := by
  induction more generalizing log with
  | nil => rwa [List.append_nil]
  | cons x more ih =>
    obtain ⟨hx, hmore⟩ := List.forall_mem_cons.mp hmore
    have hone := ih (h.append (hx log)) hmore
    rwa [List.append_assoc] at hone

end Keeps

def sinceNext (p : α → Bool) (l : List α) (x : α) : List α := if p x then [] else l ++ [x]

/-- The entries behind the last one that `p` marks. -/
def since (p : α → Bool) (log : List α) : List α := log.foldl (sinceNext p) []

variable {p : α → Bool}

theorem since_append (p : α → Bool) (log more : List α) :
    since p (log ++ more) = more.foldl (sinceNext p) (since p log) := List.foldl_append

theorem since_mark (pre : List α) {x : α} {l : List α} (hx : p x = true)
    (hl : ∀ y ∈ l, p y = false) : since p (pre ++ x :: l) = l := by
  have hall : ∀ l₀ : List α, l.foldl (sinceNext p) l₀ = l₀ ++ l := by
    intro l₀
    induction l generalizing l₀ with
    | nil => rw [List.foldl_nil, List.append_nil]
    | cons y l ih =>
      obtain ⟨hy, hl⟩ := List.forall_mem_cons.mp hl
      rw [List.foldl_cons, sinceNext, hy, if_neg Bool.false_ne_true, ih hl, List.append_assoc]
      rfl
  rw [since_append, List.foldl_cons, sinceNext, hx, if_pos rfl, hall, List.nil_append]

end OpenCalifornia.Lib
