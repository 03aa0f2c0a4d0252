import Mathlib

/-! Runs of a partial deterministic machine. A run keeps a record of every step, the newest
record first, so that a property of one step can look back at the steps before it. -/

namespace OpenCalifornia.Lib.Machine

universe u v w

variable {I : Type u} {O : Type v} {S : Type w}

/-- One step as it happened: the input, the state before it, the output, the state after it. -/
structure Record (I : Type u) (O : Type v) (S : Type w) where
  inp : I
  pre : S
  out : O
  post : S

/-- The runs of `step` from `s₀`: the records so far, newest first, and the state reached. -/
inductive Run (step : I → S → Option (O × S)) (s₀ : S) : List (Record I O S) → S → Prop
  | nil : Run step s₀ [] s₀
  | cons {tr : List (Record I O S)} {s s' : S} {i : I} {o : O} (h : Run step s₀ tr s)
      (hs : step i s = some (o, s')) : Run step s₀ (⟨i, s, o, s'⟩ :: tr) s'

def Reachable (step : I → S → Option (O × S)) (s₀ s : S) : Prop :=
  ∃ tr, Run step s₀ tr s

variable {step : I → S → Option (O × S)} {s₀ s : S} {tr : List (Record I O S)}

theorem Run.reachable (h : Run step s₀ tr s) : Reachable step s₀ s := ⟨tr, h⟩

/-- What holds at the start and is kept by every step holds in every state of a run. -/
theorem Run.invariant {Inv : S → Prop} (h : Run step s₀ tr s) (h₀ : Inv s₀)
    (keep : ∀ i s o s', Inv s → step i s = some (o, s') → Inv s') : Inv s := by
  induction h with
  | nil => exact h₀
  | cons _ hs ih => exact keep _ _ _ _ ih hs

theorem Reachable.invariant {Inv : S → Prop} (h : Reachable step s₀ s) (h₀ : Inv s₀)
    (keep : ∀ i s o s', Inv s → step i s = some (o, s') → Inv s') : Inv s := by
  obtain ⟨tr, hr⟩ := h
  exact hr.invariant h₀ keep

/-- An invariant that also speaks of the records: each step extends it by its own record. -/
theorem Run.history {Inv : List (Record I O S) → S → Prop} (h : Run step s₀ tr s)
    (h₀ : Inv [] s₀)
    (keep : ∀ tr i s o s', Run step s₀ tr s → Inv tr s → step i s = some (o, s') →
      Inv (⟨i, s, o, s'⟩ :: tr) s') : Inv tr s := by
  induction h with
  | nil => exact h₀
  | cons hr hs ih => exact keep _ _ _ _ _ hr ih hs

/-- Every record of a run is a step taken from a state that the older records reach. -/
theorem Run.split (newer : List (Record I O S)) {older : List (Record I O S)}
    {r : Record I O S} (h : Run step s₀ (newer ++ r :: older) s) :
    Run step s₀ older r.pre ∧ step r.inp r.pre = some (r.out, r.post) := by
  induction newer generalizing s with
  | nil =>
    cases h with
    | cons hr hs => exact ⟨hr, hs⟩
  | cons x newer ih =>
    cases h with
    | cons hr hs => exact ih hr

theorem Run.mem {r : Record I O S} (h : Run step s₀ tr s) (hr : r ∈ tr) :
    Reachable step s₀ r.pre ∧ step r.inp r.pre = some (r.out, r.post) := by
  obtain ⟨newer, older, rfl⟩ := List.append_of_mem hr
  exact ⟨(h.split newer).1.reachable, (h.split newer).2⟩

/-- Run a list of inputs, the newest first. -/
def exec (step : I → S → Option (O × S)) (s₀ : S) : List I → Option (List (Record I O S) × S)
  | [] => some ([], s₀)
  | i :: is =>
    (exec step s₀ is).bind fun (tr, s) => (step i s).map fun (o, s') => (⟨i, s, o, s'⟩ :: tr, s')

theorem run_of_exec (step : I → S → Option (O × S)) (s₀ : S) (is : List I)
    (h : exec step s₀ is = some (tr, s)) : Run step s₀ tr s ∧ tr.map Record.inp = is := by
  induction is generalizing tr s with
  | nil =>
    obtain ⟨rfl, rfl⟩ := Prod.mk.inj (Option.some.inj h)
    exact ⟨.nil, rfl⟩
  | cons i is ih =>
    simp only [exec, Option.bind_eq_some_iff, Option.map_eq_some_iff, Prod.exists,
      Prod.mk.injEq] at h
    obtain ⟨tr₀, s₁, he, o, s₂, hs, rfl, rfl⟩ := h
    obtain ⟨hr, hi⟩ := ih he
    exact ⟨.cons hr hs, by simp [hi]⟩

theorem run_of_view {β : Type*} {is : List I} {view : List (Record I O S) × S → β} {x : β}
    (h : (exec step s₀ is).map view = some x) :
    ∃ tr s, exec step s₀ is = some (tr, s) ∧ Run step s₀ tr s ∧ tr.map Record.inp = is ∧
      view (tr, s) = x := by
  obtain ⟨⟨tr, s⟩, hexec, hview⟩ := Option.map_eq_some_iff.mp h
  obtain ⟨hrun, hinp⟩ := run_of_exec step s₀ is hexec
  exact ⟨tr, s, hexec, hrun, hinp, hview⟩

theorem Run.total {Inv : S → Prop} (h₀ : Inv s₀)
    (prog : ∀ i s, Inv s → ∃ o s', step i s = some (o, s') ∧ Inv s') (is : List I) :
    ∃ tr s, Run step s₀ tr s ∧ tr.map Record.inp = is ∧ Inv s := by
  induction is with
  | nil => exact ⟨[], s₀, .nil, rfl, h₀⟩
  | cons i is ih =>
    obtain ⟨tr, s, hr, hi, hs⟩ := ih
    obtain ⟨o, s', he, hs'⟩ := prog i s hs
    exact ⟨⟨i, s, o, s'⟩ :: tr, s', .cons hr he, by simp [hi], hs'⟩

section Simulation

variable {I' : Type u} {O' : Type v} {S' : Type w} {step' : I' → S' → Option (O' × S')}
  {RI : I → I' → Prop} {RO : O → O' → Prop} {RS : S → S' → Prop}

/-- Two steps side by side. -/
structure Alike (RI : I → I' → Prop) (RO : O → O' → Prop) (RS : S → S' → Prop)
    (r : Record I O S) (r' : Record I' O' S') : Prop where
  inp : RI r.inp r'.inp
  pre : RS r.pre r'.pre
  out : RO r.out r'.out
  post : RS r.post r'.post

theorem Run.simulate {s₀' : S'} {is' : List I'} (h : Run step s₀ tr s) (h₀ : RS s₀ s₀')
    (hi : List.Forall₂ RI (tr.map Record.inp) is')
    (sim : ∀ i i' t t' o t₁, RI i i' → RS t t' → step i t = some (o, t₁) →
      ∃ o' t₁', step' i' t' = some (o', t₁') ∧ RO o o' ∧ RS t₁ t₁') :
    ∃ tr' s', Run step' s₀' tr' s' ∧ tr'.map Record.inp = is' ∧
      List.Forall₂ (Alike RI RO RS) tr tr' ∧ RS s s' := by
  induction h generalizing is' with
  | nil =>
    cases hi
    exact ⟨[], s₀', .nil, rfl, .nil, h₀⟩
  | cons hr hs ih =>
    rw [List.map_cons] at hi
    cases hi with
    | cons hij his =>
      obtain ⟨tr', t', hr', hi', hall, ht⟩ := ih his
      obtain ⟨o', t₁', hs', ho, ht₁⟩ := sim _ _ _ _ _ _ hij ht hs
      exact ⟨_ :: tr', t₁', .cons hr' hs', by rw [List.map_cons, hi'],
        .cons ⟨hij, ht, ho, ht₁⟩ hall, ht₁⟩

end Simulation

end OpenCalifornia.Lib.Machine
