import Mathlib

/-! A ring buffer of a fixed capacity, as the list of its entries, the oldest first. -/

namespace OpenCalifornia.Lib

universe u

structure Ring (α : Type u) (cap : ℕ) where
  cells : ℕ → α
  head : ℕ
  n : ℕ
  head_lt : head < cap
  n_le : n ≤ cap

namespace Ring

variable {α : Type u} {cap : ℕ}

def empty (x : α) (h : 0 < cap) : Ring α cap := ⟨fun _ => x, 0, 0, h, Nat.zero_le _⟩

def toList (r : Ring α cap) : List α :=
  (List.range r.n).map fun k => r.cells ((r.head + k) % cap)

/-- The oldest entry goes. -/
def pop (r : Ring α cap) : Ring α cap :=
  { r with
    head := (r.head + 1) % cap
    n := r.n - 1
    head_lt := Nat.mod_lt _ (Nat.zero_lt_of_lt r.head_lt)
    n_le := (Nat.sub_le _ _).trans r.n_le }

/-- A new entry where there is room. -/
def put (r : Ring α cap) (x : α) (h : r.n < cap) : Ring α cap :=
  { r with
    cells := fun i => if i = (r.head + r.n) % cap then x else r.cells i
    n := r.n + 1
    n_le := h }

/-- A new entry, in the place of the oldest one where the ring is full. -/
def push (r : Ring α cap) (x : α) : Ring α cap :=
  if h : r.n < cap then r.put x h
  else r.pop.put x (by
    have hcap := r.head_lt
    have hle := r.n_le
    show r.n - 1 < cap
    omega)

/-- The oldest entries go while `p` holds of them, at most so many. -/
def drop (p : α → Bool) : ℕ → Ring α cap → Ring α cap
  | 0, r => r
  | k + 1, r => if p (r.cells r.head) then drop p k r.pop else r

def dropWhile (p : α → Bool) (r : Ring α cap) : Ring α cap := drop p r.n r

@[simp] theorem length_toList (r : Ring α cap) : r.toList.length = r.n := by
  simp [toList]

@[simp] theorem toList_empty (x : α) (h : 0 < cap) : (empty x h).toList = [] := rfl

theorem toList_pop (r : Ring α cap) : r.pop.toList = r.toList.tail := by
  show (List.range (r.n - 1)).map (fun k => r.cells (((r.head + 1) % cap + k) % cap)) = _
  unfold toList
  cases r.n with
  | zero => rfl
  | succ n =>
    rw [List.range_succ_eq_map, List.map_cons, List.tail_cons, List.map_map]
    refine List.map_congr_left fun k _ => ?_
    simp only [Function.comp_apply, Nat.mod_add_mod]
    congr 2
    omega

theorem toList_put (r : Ring α cap) (x : α) (h : r.n < cap) :
    (r.put x h).toList = r.toList ++ [x] := by
  unfold toList put
  dsimp only
  rw [List.range_succ, List.map_append]
  congr 1
  · refine List.map_congr_left fun k hk => if_neg fun heq => ?_
    have hk := List.mem_range.mp hk
    have hmod : k ≡ r.n [MOD cap] := Nat.ModEq.add_left_cancel' r.head heq
    exact absurd (hmod.eq_of_lt_of_lt (hk.trans h) h) hk.ne
  · simp

theorem toList_push (r : Ring α cap) (x : α) :
    (r.push x).toList = (if r.n < cap then r.toList else r.toList.tail) ++ [x] := by
  unfold push
  split_ifs with h
  · exact toList_put r x h
  · rw [toList_put, toList_pop]

theorem toList_drop (p : α → Bool) (k : ℕ) (r : Ring α cap) (h : r.n = k) :
    (drop p k r).toList = r.toList.dropWhile p := by
  induction k generalizing r with
  | zero =>
    have hnil : r.toList = [] := List.length_eq_zero_iff.mp (by simp [h])
    rw [drop, hnil, List.dropWhile_nil]
  | succ k ih =>
    have hlist : r.toList = r.cells r.head :: r.pop.toList := by
      rw [toList_pop]
      unfold toList
      rw [h, List.range_succ_eq_map, List.map_cons, List.tail_cons, Nat.add_zero,
        Nat.mod_eq_of_lt r.head_lt]
    rw [drop, hlist, List.dropWhile_cons]
    split_ifs
    · exact ih r.pop (Nat.sub_eq_of_eq_add h)
    · exact hlist

theorem toList_dropWhile (p : α → Bool) (r : Ring α cap) :
    (r.dropWhile p).toList = r.toList.dropWhile p :=
  toList_drop p r.n r rfl

end Ring

end OpenCalifornia.Lib
