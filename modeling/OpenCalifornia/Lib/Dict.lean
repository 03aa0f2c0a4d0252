import Mathlib

/-! Insertion-ordered dictionaries: assigning to a key that is there replaces its value in
place, assigning to a new one appends it. -/

namespace OpenCalifornia.Lib

abbrev Dict (β : Type) := List (String × β)

namespace Dict

variable {β : Type}

def get (d : Dict β) (k : String) : Option β :=
  match d with
  | [] => none
  | (k', v) :: d => if k' = k then some v else get d k

def set (d : Dict β) (k : String) (v : β) : Dict β :=
  match d with
  | [] => [(k, v)]
  | (k', v') :: d => if k' = k then (k, v) :: d else (k', v') :: set d k v

/-- `pop`, without its value. -/
def del (d : Dict β) (k : String) : Dict β := d.filter fun kv => kv.1 ≠ k

/-- Equality of dictionaries: the same keys with the same values, in any order. -/
def same [DecidableEq β] (d e : Dict β) : Bool :=
  d.all (fun kv => d.get kv.1 = e.get kv.1) && e.all (fun kv => d.get kv.1 = e.get kv.1)

/-- Assign every entry of the second dictionary. -/
def update (d e : Dict β) : Dict β := e.foldl (fun d kv => d.set kv.1 kv.2) d

@[simp] theorem get_nil (k : String) : get ([] : Dict β) k = none := rfl

@[simp] theorem get_cons (k k' : String) (v : β) (d : Dict β) :
    get ((k', v) :: d) k = if k' = k then some v else get d k := rfl

@[simp] theorem get_set (d : Dict β) (k k' : String) (v : β) :
    (d.set k v).get k' = if k = k' then some v else d.get k' := by
  induction d with
  | nil => rfl
  | cons kv d ih =>
    obtain ⟨key, w⟩ := kv
    by_cases hk : key = k
    · by_cases hk' : k = k'
      · simp [set, hk, hk']
      · simp [set, hk, hk']
    · by_cases hk' : k = k'
      · simp only [set, if_neg hk, get_cons, ih, if_pos hk', ite_eq_right_iff]
        exact fun h => absurd (h.trans hk'.symm) hk
      · simp only [set, if_neg hk, get_cons, ih, if_neg hk']

theorem get_filter (p : String → Bool) (d : Dict β) (k : String) :
    get (d.filter fun kv => p kv.1) k = if p k then get d k else none := by
  induction d with
  | nil => exact (ite_self none).symm
  | cons kv d ih =>
    obtain ⟨key, w⟩ := kv
    by_cases hp : p key = true
    · rw [List.filter_cons, if_pos hp, get_cons, get_cons, ih]
      by_cases hk : key = k
      · rw [if_pos hk, if_pos hk, if_pos (hk ▸ hp)]
      · rw [if_neg hk, if_neg hk]
    · rw [List.filter_cons, if_neg hp, ih, get_cons]
      by_cases hk : key = k
      · rw [if_neg (hk ▸ hp), if_neg (hk ▸ hp)]
      · rw [if_neg hk]

@[simp] theorem get_del (d : Dict β) (k k' : String) :
    (d.del k).get k' = if k = k' then none else d.get k' := by
  rw [del, get_filter fun key => key ≠ k]
  by_cases hk : k = k'
  · simp [hk]
  · simp [hk, Ne.symm hk]

theorem get_append (d e : Dict β) (k : String) : get (d ++ e) k = (get d k).or (get e k) := by
  induction d with
  | nil => rfl
  | cons kv d ih =>
    obtain ⟨key, w⟩ := kv
    by_cases h : key = k
    · simp [h]
    · simp [h, ih]

theorem get_eq_none {d : Dict β} {k : String} : get d k = none ↔ k ∉ d.map Prod.fst := by
  induction d with
  | nil => simp
  | cons kv d ih =>
    obtain ⟨key, w⟩ := kv
    by_cases h : key = k
    · simp [h]
    · simp [h, ih, Ne.symm h]

theorem get_map {γ : Type} (g : β → γ) (d : Dict β) (k : String) :
    get (d.map fun kv => (kv.1, g kv.2)) k = (get d k).map g := by
  induction d with
  | nil => rfl
  | cons kv d ih =>
    obtain ⟨key, w⟩ := kv
    by_cases h : key = k <;> simp [h, ih]

theorem get_tabulate (g : String → β) {l : List String} {k : String} (h : k ∈ l) :
    get (l.map fun k => (k, g k)) k = some (g k) := by
  induction l with
  | nil => exact absurd h List.not_mem_nil
  | cons key l ih =>
    by_cases hk : key = k
    · rw [List.map_cons, get_cons, if_pos hk, hk]
    · rw [List.map_cons, get_cons, if_neg hk]
      exact ih ((List.mem_cons.mp h).resolve_left fun he => hk he.symm)

theorem get_update {e : Dict β} (h : (e.map Prod.fst).Nodup) (d : Dict β) (k : String) :
    (d.update e).get k = (get e k).or (d.get k) := by
  induction e generalizing d with
  | nil => rfl
  | cons kv e ih =>
    obtain ⟨key, w⟩ := kv
    rw [List.map_cons, List.nodup_cons] at h
    rw [update, List.foldl_cons, ← update, ih h.2, get_set, get_cons]
    by_cases hk : key = k
    · have hnone : get e k = none := by
        rw [get_eq_none, ← hk]
        exact h.1
      simp [hk, hnone]
    · simp [hk]

theorem get_isSome_of_mem {d : Dict β} {k : String} {v : β} (h : (k, v) ∈ d) :
    (d.get k).isSome := by
  induction d with
  | nil => simp at h
  | cons kv d ih =>
    obtain ⟨key, w⟩ := kv
    by_cases hk : key = k
    · simp [hk]
    · cases List.mem_cons.mp h with
      | inl h => exact absurd (Prod.mk.inj h).1.symm hk
      | inr h => simpa [hk] using ih h

end Dict
end OpenCalifornia.Lib
