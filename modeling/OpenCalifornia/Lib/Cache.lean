import Mathlib

/-! A table of a fixed number of rows, some of them in use, each of these for one key. A row for a
key is the one that has it, else a free one, else the oldest. -/

namespace OpenCalifornia.Lib

universe u v

structure Cache (ρ : Type u) (κ : Type v) where
  used : ρ → Bool
  key : ρ → κ
  age : ρ → ℕ

namespace Cache

variable {ρ : Type u} {κ : Type v} (c : Cache ρ κ)

/-- A row in use for the key. -/
def Hit (k : κ) (r : ρ) : Prop := c.used r = true ∧ c.key r = k

instance [DecidableEq κ] (k : κ) (r : ρ) : Decidable (c.Hit k r) :=
  inferInstanceAs (Decidable (_ ∧ _))

/-- The scan behind the rows before `i`: `row` is the pick of these, and `x` what it holds. -/
def scan [DecidableEq κ] (k : κ) : List ρ → ℕ → ℕ → ρ → ℕ
  | [], _, row, _ => row
  | r :: rs, i, row, x =>
    if c.Hit k r then i
    else if c.used x = true ∧ (c.used r = false ∨ c.age r < c.age x) then scan k rs (i + 1) i r
    else scan k rs (i + 1) row x

/-- The rows for different places have different keys. -/
def Unique (rows : List ρ) : Prop :=
  ∀ (i j : ℕ) (a b : ρ), rows[i]? = some a → rows[j]? = some b → c.used a = true →
    c.Hit (c.key a) b → i = j

/-- No row is better than this one for a key that no row has. -/
def Best (rows : List ρ) (x : ρ) : Prop :=
  c.used x = false ∨ ∀ r ∈ rows, c.used r = true ∧ c.age x ≤ c.age r

/-- The row to write for a key. -/
def Place (k : κ) (rows : List ρ) (x : ρ) : Prop :=
  c.Hit k x ∨ (∀ r ∈ rows, ¬ c.Hit k r) ∧ c.Best rows x

variable {c} {k : κ} {rows pre rs : List ρ} {x r : ρ} {row : ℕ}

theorem Best.append_same (h : c.Best pre x)
    (hr : ¬ (c.used x = true ∧ (c.used r = false ∨ c.age r < c.age x))) :
    c.Best (pre ++ [r]) x := by
  by_cases hx : c.used x = true
  · refine Or.inr fun y hy => ?_
    rcases h with h | h
    · rw [h] at hx
      cases hx
    · rw [List.mem_append, List.mem_singleton] at hy
      rcases hy with hy | rfl
      · exact h y hy
      · rw [not_and, not_or, Bool.not_eq_false, Nat.not_lt] at hr
        exact hr hx
  · exact Or.inl (by simpa using hx)

theorem Best.append_new (h : c.Best pre x)
    (hr : c.used x = true ∧ (c.used r = false ∨ c.age r < c.age x)) :
    c.Best (pre ++ [r]) r := by
  obtain ⟨hx, hfree | hage⟩ := hr
  · exact Or.inl hfree
  · by_cases hused : c.used r = true
    · refine Or.inr fun y hy => ?_
      rcases h with h | h
      · rw [h] at hx
        cases hx
      · rw [List.mem_append, List.mem_singleton] at hy
        rcases hy with hy | rfl
        · exact ⟨(h y hy).1, Nat.le_trans (Nat.le_of_lt hage) (h y hy).2⟩
        · exact ⟨hused, Nat.le_refl _⟩
    · exact Or.inl (by simpa using hused)

/-- The scan ends at the key's row or, where there is none, at the best of all rows. -/
theorem scan_spec [DecidableEq κ] (hpre : ∀ r ∈ pre, ¬ c.Hit k r) (hrow : pre[row]? = some x)
    (hbest : c.Best pre x) :
    ∃ y, (pre ++ rs)[c.scan k rs pre.length row x]? = some y ∧ c.Place k (pre ++ rs) y := by
  induction rs generalizing pre row x with
  | nil =>
    rw [List.append_nil]
    exact ⟨x, hrow, Or.inr ⟨hpre, hbest⟩⟩
  | cons r rs ih =>
    have hat : (pre ++ r :: rs)[pre.length]? = some r := by simp
    rw [scan]
    by_cases hhit : c.Hit k r
    · rw [if_pos hhit]
      exact ⟨r, hat, Or.inl hhit⟩
    · have hpre' : ∀ y ∈ pre ++ [r], ¬ c.Hit k y := by
        intro y hy
        rw [List.mem_append, List.mem_singleton] at hy
        rcases hy with hy | rfl
        · exact hpre y hy
        · exact hhit
      have happ : pre ++ r :: rs = pre ++ [r] ++ rs := by simp
      have hlen : pre.length + 1 = (pre ++ [r]).length := by simp
      rw [if_neg hhit, happ, hlen]
      by_cases hr : c.used x = true ∧ (c.used r = false ∨ c.age r < c.age x)
      · rw [if_pos hr]
        exact ih hpre' (by simp) (hbest.append_new hr)
      · rw [if_neg hr]
        refine ih hpre' ?_ (hbest.append_same hr)
        rw [List.getElem?_append_left (List.getElem?_eq_some_iff.mp hrow).1]
        exact hrow

/-- The row to write for a key: the scan starts at the first row. -/
def pick [DecidableEq κ] (c : Cache ρ κ) (k : κ) (rows : List ρ) : ℕ :=
  match rows with
  | [] => 0
  | r :: rs => c.scan k (r :: rs) 0 0 r

theorem pick_spec [DecidableEq κ] (hrows : rows ≠ []) :
    ∃ y, rows[c.pick k rows]? = some y ∧ c.Place k rows y := by
  cases rows with
  | nil => exact absurd rfl hrows
  | cons r rs =>
    rw [pick, scan]
    by_cases hhit : c.Hit k r
    · rw [if_pos hhit]
      exact ⟨r, rfl, Or.inl hhit⟩
    · have hself : ¬ (c.used r = true ∧ (c.used r = false ∨ c.age r < c.age r)) := by
        rintro ⟨hu, hf | hlt⟩
        · rw [hu] at hf
          cases hf
        · exact Nat.lt_irrefl _ hlt
      have hbest : c.Best [r] r := by
        by_cases hu : c.used r = true
        · exact Or.inr (by simp [hu])
        · exact Or.inl (by simpa using hu)
      rw [if_neg hhit, if_neg hself]
      have hpre : ∀ x ∈ [r], ¬ c.Hit k x := by simpa using hhit
      exact scan_spec hpre rfl hbest

theorem getElem?_set_cases {i j : ℕ} {a b : ρ} (h : (rows.set i a)[j]? = some b) :
    j = i ∧ b = a ∨ j ≠ i ∧ rows[j]? = some b := by
  rw [List.getElem?_set] at h
  by_cases hij : i = j
  · rw [if_pos hij] at h
    split_ifs at h
    exact Or.inl ⟨hij.symm, (Option.some.inj h).symm⟩
  · rw [if_neg hij] at h
    exact Or.inr ⟨fun h => hij h.symm, h⟩

theorem Unique.set_place (h : c.Unique rows) {i : ℕ} (hi : rows[i]? = some x)
    (hx : c.Place k rows x) (hr : c.key r = k) : c.Unique (rows.set i r) := by
  have hother : ∀ j b, j ≠ i → rows[j]? = some b → ¬ c.Hit k b := by
    rintro j b hji hb hhit
    rcases hx with hx | ⟨hx, -⟩
    · exact hji (h i j x b hi hb hx.1 ⟨hhit.1, hhit.2.trans hx.2.symm⟩).symm
    · exact hx b (List.mem_of_getElem? hb) hhit
  intro j l a b ha hb hused hhit
  rcases getElem?_set_cases ha with ⟨rfl, rfl⟩ | ⟨hji, ha'⟩ <;>
    rcases getElem?_set_cases hb with ⟨rfl, rfl⟩ | ⟨hli, hb'⟩
  · rfl
  · exact absurd ⟨hhit.1, hhit.2.trans hr⟩ (hother l b hli hb')
  · exact absurd ⟨hused, hhit.2.symm.trans hr⟩ (hother j a hji ha')
  · exact h j l a b ha' hb' hused hhit

theorem Unique.set_free (h : c.Unique rows) (i : ℕ) (hr : c.used r = false) :
    c.Unique (rows.set i r) := by
  intro j l a b ha hb hused hhit
  rcases getElem?_set_cases ha with ⟨rfl, rfl⟩ | ⟨hji, ha⟩
  · rw [hr] at hused
    cases hused
  · rcases getElem?_set_cases hb with ⟨rfl, rfl⟩ | ⟨hli, hb⟩
    · rw [Hit, hr] at hhit
      cases hhit.1
    · exact h j l a b ha hb hused hhit

theorem unique_free (h : ∀ r ∈ rows, c.used r = false) : c.Unique rows := by
  intro i _ a _ ha _ hused
  rw [h a (List.mem_of_getElem? ha)] at hused
  cases hused

end Cache

end OpenCalifornia.Lib
