import Mathlib

/-! A list of entries with pairwise different valid names and room for so many of them. -/

namespace OpenCalifornia.Lib

universe u v

structure Registry {α : Type u} {κ : Type v} (name : α → κ) (valid : κ → Prop) (cap : ℕ) where
  entries : List α
  valid_name : ∀ a ∈ entries, valid (name a)
  nodup : (entries.map name).Nodup
  length_le : entries.length ≤ cap

namespace Registry

variable {α : Type u} {κ : Type v} {name : α → κ} {valid : κ → Prop} {cap : ℕ}

def empty : Registry name valid cap where
  entries := []
  valid_name := by simp
  nodup := List.nodup_nil
  length_le := Nat.zero_le _

def push (r : Registry name valid cap) (a : α) (hv : valid (name a))
    (hfresh : ∀ b ∈ r.entries, name b ≠ name a) (hroom : r.entries.length < cap) :
    Registry name valid cap where
  entries := r.entries ++ [a]
  valid_name := by
    intro b hb
    rw [List.mem_append, List.mem_singleton] at hb
    rcases hb with hb | rfl
    · exact r.valid_name b hb
    · exact hv
  nodup := by
    rw [List.map_append, List.nodup_append]
    refine ⟨r.nodup, List.nodup_singleton _, ?_⟩
    intro x hx y hy
    obtain ⟨b, hb, rfl⟩ := List.mem_map.mp hx
    rw [List.map_singleton, List.mem_singleton] at hy
    rw [hy]
    exact hfresh b hb
  length_le := by
    rw [List.length_append, List.length_singleton]
    exact hroom

def remove (r : Registry name valid cap) (i : ℕ) : Registry name valid cap where
  entries := r.entries.eraseIdx i
  valid_name a ha := r.valid_name a (List.mem_of_mem_eraseIdx ha)
  nodup := r.nodup.sublist ((List.eraseIdx_sublist _ i).map name)
  length_le := Nat.le_trans (List.eraseIdx_sublist _ i).length_le r.length_le

/-- The entry at `i` goes over to `a`. -/
def replace (r : Registry name valid cap) (i : ℕ) (a : α) (hv : valid (name a))
    (hfresh : ∀ j b, r.entries[j]? = some b → j ≠ i → name b ≠ name a) :
    Registry name valid cap where
  entries := r.entries.set i a
  valid_name := by
    intro b hb
    rcases List.mem_or_eq_of_mem_set hb with hb | rfl
    · exact r.valid_name b hb
    · exact hv
  nodup := by
    have hset : ∀ j b, (r.entries.set i a)[j]? = some b →
        b = a ∧ j = i ∨ r.entries[j]? = some b ∧ j ≠ i := by
      intro j b hb
      rw [List.getElem?_set] at hb
      by_cases hji : i = j
      · rw [if_pos hji] at hb
        split_ifs at hb
        exact Or.inl ⟨(Option.some.inj hb).symm, hji.symm⟩
      · rw [if_neg hji] at hb
        exact Or.inr ⟨hb, fun h => hji h.symm⟩
    rw [List.nodup_iff_getElem?_ne_getElem?]
    intro j k hjk hk heq
    rw [List.length_map] at hk
    obtain ⟨c, hc⟩ : ∃ c, (r.entries.set i a)[k]? = some c := ⟨_, List.getElem?_eq_getElem hk⟩
    obtain ⟨b, hb⟩ : ∃ b, (r.entries.set i a)[j]? = some b :=
      ⟨_, List.getElem?_eq_getElem (Nat.lt_trans hjk hk)⟩
    rw [List.getElem?_map, List.getElem?_map, hb, hc, Option.map_some, Option.map_some,
      Option.some.injEq] at heq
    rcases hset j b hb with ⟨rfl, rfl⟩ | ⟨hb', hji⟩ <;>
      rcases hset k c hc with ⟨rfl, rfl⟩ | ⟨hc', hki⟩
    · omega
    · exact hfresh k c hc' hki heq.symm
    · exact hfresh j b hb' hji heq
    · have hn := List.nodup_iff_getElem?_ne_getElem?.mp r.nodup j k hjk
        (by rw [List.length_map]; exact (List.getElem?_eq_some_iff.mp hc').1)
      rw [List.getElem?_map, List.getElem?_map, hb', hc', Option.map_some, Option.map_some] at hn
      exact hn (by rw [heq])
  length_le := by
    rw [List.length_set]
    exact r.length_le

end Registry

end OpenCalifornia.Lib
