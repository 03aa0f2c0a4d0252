import Mathlib

/-! # Records in numbered slots

A table of records with different keys, kept in slots that are written one at a time from the first
one on. Of the records with one key the first slot's counts. A change that is cut short has written
a prefix of the slots. -/

namespace OpenCalifornia.Lib.Slots

universe u v

variable {α : Type u} {κ : Type v} [DecidableEq κ] (key : α → κ)

/-- The first record with the key. -/
def get (k : κ) (l : List α) : Option α := l.find? fun a => key a = k

/-- A record is taken unless there is one with its key. -/
def push (l : List α) (a : α) : List α := if l.any fun b => key b = key a then l else l ++ [a]

/-- The first record of each key. -/
def firsts (l : List α) : List α := l.foldl (push key) []

/-- The records of the slots from `i` up to `m`. -/
def between (s : ℕ → Option α) (i m : ℕ) : List α := (List.range' i (m - i)).filterMap s

def records (s : ℕ → Option α) (m : ℕ) : List α := (List.range m).filterMap s

/-- The first `j` slots are written. -/
def written (s : ℕ → Option α) (l : List α) (j : ℕ) : ℕ → Option α := fun n =>
  if n < j then l[n]? else s n

/-- What a table and its slots have in common: they say the same of each key, and no record has
moved up. -/
structure Mirrors (s : ℕ → Option α) (m : ℕ) (l : List α) : Prop where
  get_eq : ∀ k, get key k (records s m) = get key k l
  early : ∀ n < m, ∀ a, s n = some a → ∃ b ∈ l.take (n + 1), key b = key a

variable {key} {k : κ} {l : List α} {a : α} {s : ℕ → Option α} {m j : ℕ}

theorem get_append (l l' : List α) : get key k (l ++ l') = (get key k l).or (get key k l') :=
  List.find?_append

theorem get_singleton (a : α) : get key k [a] = if key a = k then some a else none := by
  by_cases h : key a = k
  · rw [if_pos h]
    exact List.find?_cons_of_pos (decide_eq_true h)
  · rw [if_neg h]
    exact List.find?_cons_of_neg (by simpa using h)

theorem get_eq_none : get key k l = none ↔ ∀ b ∈ l, key b ≠ k := by
  simp [get]

theorem get_isSome : (get key k l).isSome ↔ ∃ b ∈ l, key b = k := by
  simp [get]

theorem mem_of_get (h : get key k l = some a) : a ∈ l ∧ key a = k :=
  ⟨List.mem_of_find?_eq_some h, by simpa using List.find?_some h⟩

theorem get_of_mem (hl : (l.map key).Nodup) (ha : a ∈ l) : get key (key a) l = some a := by
  have hsome : (get key (key a) l).isSome := get_isSome.mpr ⟨a, ha, rfl⟩
  obtain ⟨b, hb⟩ := Option.isSome_iff_exists.mp hsome
  obtain ⟨hmem, hkey⟩ := mem_of_get hb
  rw [hb, List.inj_on_of_nodup_map hl hmem ha hkey]

theorem get_push (l : List α) (a : α) :
    get key k (push key l a) = (get key k l).or (get key k [a]) := by
  unfold push
  split_ifs with h
  · obtain ⟨b, hb, hkey⟩ := List.any_eq_true.mp h
    rw [get_singleton]
    split_ifs with hk
    · have hsome : (get key k l).isSome :=
        get_isSome.mpr ⟨b, hb, (of_decide_eq_true hkey).trans hk⟩
      obtain ⟨c, hc⟩ := Option.isSome_iff_exists.mp hsome
      rw [hc]
      rfl
    · exact (Option.or_none).symm
  · exact get_append l [a]

theorem get_foldl_push (l acc : List α) :
    get key k (l.foldl (push key) acc) = (get key k acc).or (get key k l) := by
  induction l generalizing acc with
  | nil => exact (Option.or_none).symm
  | cons a l ih =>
    rw [List.foldl_cons, ih, get_push, Option.or_assoc, ← get_append]
    rfl

theorem get_firsts (l : List α) : get key k (firsts key l) = get key k l :=
  get_foldl_push l []

theorem nodup_push (hl : (l.map key).Nodup) (a : α) : ((push key l a).map key).Nodup := by
  unfold push
  split_ifs with h
  · exact hl
  · rw [List.map_append, List.map_singleton, List.nodup_append]
    refine ⟨hl, List.nodup_singleton _, fun x hx y hy heq => h ?_⟩
    obtain ⟨b, hb, rfl⟩ := List.mem_map.mp hx
    rw [List.mem_singleton.mp hy] at heq
    exact List.any_eq_true.mpr ⟨b, hb, decide_eq_true heq⟩

theorem nodup_firsts (l : List α) : ((firsts key l).map key).Nodup := by
  have hfold : ∀ (l acc : List α), (acc.map key).Nodup →
      ((l.foldl (push key) acc).map key).Nodup := by
    intro l
    induction l with
    | nil => exact fun acc h => h
    | cons a l ih => exact fun acc h => ih _ (nodup_push h a)
  exact hfold l [] List.nodup_nil

theorem push_extends (l : List α) (a : α) : l <+: push key l a := by
  unfold push
  split_ifs
  · exact List.prefix_rfl
  · exact List.prefix_append l [a]

theorem firsts_append_prefix (l l' : List α) : firsts key l <+: firsts key (l ++ l') := by
  have hfold : ∀ (l' acc : List α), acc <+: l'.foldl (push key) acc := by
    intro l'
    induction l' with
    | nil => exact fun acc => List.prefix_rfl
    | cons a l' ih => exact fun acc => (push_extends acc a).trans (ih _)
  unfold firsts
  rw [List.foldl_append]
  exact hfold l' _

theorem length_firsts_le (l : List α) : (firsts key l).length ≤ l.length := by
  have hfold : ∀ (l acc : List α), (l.foldl (push key) acc).length ≤ acc.length + l.length := by
    intro l
    induction l with
    | nil => exact fun acc => le_rfl
    | cons a l ih =>
      intro acc
      refine (ih _).trans ?_
      have hpush : (push key acc a).length ≤ acc.length + 1 := by
        unfold push
        split_ifs <;> simp
      rw [List.length_cons]
      omega
  have hlen := hfold l []
  rwa [List.length_nil, Nat.zero_add] at hlen

theorem firsts_of_nodup (hl : (l.map key).Nodup) : firsts key l = l := by
  have hfold : ∀ (l acc : List α), ((acc ++ l).map key).Nodup →
      l.foldl (push key) acc = acc ++ l := by
    intro l
    induction l with
    | nil => exact fun acc _ => (List.append_nil acc).symm
    | cons a l ih =>
      intro acc h
      have hpush : push key acc a = acc ++ [a] := by
        refine if_neg fun hany => ?_
        obtain ⟨b, hb, hkey⟩ := List.any_eq_true.mp hany
        rw [List.map_append, List.nodup_append] at h
        exact h.2.2 (key b) (List.mem_map_of_mem hb) (key a)
          (List.mem_map_of_mem List.mem_cons_self)
          (of_decide_eq_true hkey)
      rw [← List.singleton_append, ← List.append_assoc] at h
      rw [List.foldl_cons, hpush, ih _ h, List.append_assoc, List.singleton_append]
  exact hfold l [] hl

theorem records_split (h : j ≤ m) : records s m = records s j ++ between s j m := by
  have hrange : List.range m = List.range j ++ List.range' j (m - j) := by
    have happend := List.range'_append_1 (s := 0) (m := j) (n := m - j)
    rw [Nat.zero_add, Nat.add_sub_cancel' h] at happend
    rw [List.range_eq_range', List.range_eq_range', happend]
  rw [records, hrange, List.filterMap_append]
  rfl

theorem records_succ (s : ℕ → Option α) (m : ℕ) :
    records s (m + 1) = records s m ++ (s m).toList := by
  rw [records, List.range_succ, List.filterMap_append]
  cases hs : s m <;> simp [records, hs]

theorem length_records_le (s : ℕ → Option α) (m : ℕ) : (records s m).length ≤ m := by
  simpa [records] using List.length_filterMap_le s (List.range m)

theorem mem_records : a ∈ records s m ↔ ∃ n < m, s n = some a := by
  simp [records]

theorem records_congr {s' : ℕ → Option α} (h : ∀ n < m, s n = s' n) : records s m = records s' m :=
  List.filterMap_congr fun n hn => h n (List.mem_range.mp hn)

theorem between_congr {s' : ℕ → Option α} (h : ∀ n, j ≤ n → s n = s' n) :
    between s j m = between s' j m :=
  List.filterMap_congr fun n hn => h n (List.mem_range'_1.mp hn).1

theorem records_getElem (l : List α) (m : ℕ) : records (fun n => l[n]?) m = l.take m := by
  induction m with
  | zero => rfl
  | succ m ih => rw [records_succ, ih, List.take_add_one]

theorem mirrors_firsts (s : ℕ → Option α) (m : ℕ) : Mirrors key s m (firsts key (records s m)) := by
  refine ⟨fun k => (get_firsts _).symm, fun n hn a ha => ?_⟩
  have hsome : (get key (key a) (records s (n + 1))).isSome :=
    get_isSome.mpr ⟨a, mem_records.mpr ⟨n, n.lt_succ_self, ha⟩, rfl⟩
  rw [← get_firsts] at hsome
  obtain ⟨b, hb, hkey⟩ := get_isSome.mp hsome
  refine ⟨b, ?_, hkey⟩
  have hpre : firsts key (records s (n + 1)) <+: firsts key (records s m) := by
    rw [records_split (Nat.succ_le_of_lt hn)]
    exact firsts_append_prefix _ _
  have hlen : (firsts key (records s (n + 1))).length ≤ n + 1 :=
    (length_firsts_le _).trans (length_records_le s _)
  exact (List.prefix_take_iff.mpr ⟨hpre, hlen⟩).subset hb

theorem mirrors_written (s : ℕ → Option α) (h : l.length ≤ m) :
    Mirrors key (written s l m) m l := by
  have hslot : ∀ n < m, written s l m n = l[n]? := fun n hn => if_pos hn
  constructor
  · intro k
    rw [records_congr hslot, records_getElem, List.take_of_length_le h]
  · intro n hn a ha
    rw [hslot n hn] at ha
    exact ⟨a, List.mem_of_getElem? (by rw [List.getElem?_take_of_lt n.lt_succ_self, ha]), rfl⟩

theorem get_written (h : j ≤ m) : get key k (records (written s l j) m) =
    (get key k (l.take j)).or (get key k (between s j m)) := by
  have hold : ∀ n, j ≤ n → written s l j n = s n := fun n hn => if_neg (Nat.not_lt.mpr hn)
  rw [records_split h, get_append, between_congr hold,
    records_congr fun n hn => show written s l j n = l[n]? from if_pos hn, records_getElem]

/-- The slots behind a prefix say what the table says of a key that its own prefix does not have. -/
theorem Mirrors.get_between (h : Mirrors key s m l) (hj : j ≤ m)
    (hk : get key k (l.take j) = none) : get key k (between s j m) = get key k l := by
  have hnone : get key k (records s j) = none := by
    refine get_eq_none.mpr fun a ha hkey => ?_
    obtain ⟨n, hn, hs⟩ := mem_records.mp ha
    obtain ⟨b, hb, hbk⟩ := h.early n (hn.trans_le hj) a hs
    refine get_eq_none.mp hk b ?_ (hbk.trans hkey)
    exact (List.take_subset_take_left l (Nat.succ_le_of_lt hn)) hb
  rw [← h.get_eq, records_split hj, get_append, hnone, Option.none_or]

theorem get_of_take {b : α} (h : get key k (l.take j) = some b) : get key k l = some b := by
  rw [← List.take_append_drop j l, get_append, h]
  rfl

/-- A key that the changed table has no other record for is as it was, however far the slots are
written. -/
theorem Mirrors.get_written_of {l' : List α} {i : ℕ} (h : Mirrors key s m l) (hj : j ≤ m)
    (hi : j ≤ i) (hget : get key k (l'.take j) = get key k (l.take i)) :
    get key k (records (written s l' j) m) = get key k l := by
  rw [get_written hj, hget]
  cases hk : get key k (l.take i) with
  | some b => exact (get_of_take hk).symm
  | none =>
    rw [Option.none_or]
    refine h.get_between hj (get_eq_none.mpr fun b hb => get_eq_none.mp hk b ?_)
    exact List.take_subset_take_left l hi hb

/-- The record of `k` is replaced, added or taken out. -/
inductive Edit (key : α → κ) (l : List α) (k : κ) : List α → Prop
  | set {i : ℕ} {a b : α} (hi : l[i]? = some b) (hb : key b = k) (ha : key a = k) :
      Edit key l k (l.set i a)
  | add {a : α} (ha : key a = k) (hl : ∀ b ∈ l, key b ≠ k) : Edit key l k (l ++ [a])
  | del {i : ℕ} {b : α} (hi : l[i]? = some b) (hb : key b = k) : Edit key l k (l.eraseIdx i)

variable {k' : κ} {l' : List α}

theorem get_set_of_ne {i : ℕ} {a b : α} (hi : l[i]? = some b) (hb : key b ≠ k') (ha : key a ≠ k') :
    get key k' (l.set i a) = get key k' l := by
  induction l generalizing i with
  | nil => cases hi
  | cons c l ih =>
    cases i with
    | zero =>
      obtain rfl := Option.some.inj hi
      rw [List.set_cons_zero, ← List.singleton_append, get_append, ← List.singleton_append (l := l),
        get_append, get_singleton, get_singleton, if_neg ha, if_neg hb]
    | succ i =>
      rw [List.set_cons_succ, ← List.singleton_append, get_append, ih hi,
        ← List.singleton_append (l := l), get_append]

theorem get_eraseIdx_of_ne {i : ℕ} {b : α} (hi : l[i]? = some b) (hb : key b ≠ k') :
    get key k' (l.eraseIdx i) = get key k' l := by
  induction l generalizing i with
  | nil => cases hi
  | cons c l ih =>
    cases i with
    | zero =>
      obtain rfl := Option.some.inj hi
      rw [List.eraseIdx_cons_zero, ← List.singleton_append (l := l), get_append, get_singleton,
        if_neg hb, Option.none_or]
    | succ i =>
      rw [List.eraseIdx_cons_succ, ← List.singleton_append, get_append, ih hi,
        ← List.singleton_append (l := l), get_append]

/-- Of another key, a prefix of the changed table says what a prefix of the table says that is no
shorter. -/
theorem Edit.get_take (h : Edit key l k l') (hk : k' ≠ k) (j : ℕ) :
    ∃ i, j ≤ i ∧ get key k' (l'.take j) = get key k' (l.take i) := by
  cases h with
  | @set i a b hi hb ha =>
    refine ⟨j, le_rfl, ?_⟩
    rw [List.take_set]
    rcases Nat.lt_or_ge i j with hij | hij
    · have hi' : (l.take j)[i]? = some b := by rw [List.getElem?_take_of_lt hij, hi]
      exact get_set_of_ne hi' (fun h => hk (h.symm.trans hb)) fun h => hk (h.symm.trans ha)
    · rw [List.set_eq_of_length_le ((List.length_take_le j l).trans hij)]
  | @add a ha hl =>
    refine ⟨j, le_rfl, ?_⟩
    rw [List.take_append, get_append]
    cases hn : j - l.length with
    | zero => exact Option.or_none
    | succ n =>
      rw [List.take_of_length_le (l := [a]) (by simp), get_singleton,
        if_neg fun h => hk (h.symm.trans ha), Option.or_none]
  | @del i b hi hb =>
    rcases Nat.lt_or_ge i j with hij | hij
    · refine ⟨j + 1, j.le_succ, ?_⟩
      have hi' : (l.take (j + 1))[i]? = some b := by
        rw [List.getElem?_take_of_lt (hij.trans j.lt_succ_self), hi]
      have htake : (l.eraseIdx i).take j = (l.take (j + 1)).eraseIdx i :=
        List.ext_getElem? fun n => by grind
      rw [htake, get_eraseIdx_of_ne hi' fun h => hk (h.symm.trans hb)]
    · exact ⟨j, le_rfl, by rw [List.take_eraseIdx_eq_take_of_le l j i hij]⟩

/-- However far a change was written, the slots say of another key what the table said. -/
theorem Mirrors.get_cut_of_ne (h : Mirrors key s m l) (he : Edit key l k l') (hk : k' ≠ k)
    (hj : j ≤ m) : get key k' (records (written s l' j) m) = get key k' l := by
  obtain ⟨i, hi, hget⟩ := he.get_take hk j
  exact h.get_written_of hj hi hget

theorem Edit.get_of_ne (h : Edit key l k l') (hk : k' ≠ k) : get key k' l' = get key k' l := by
  obtain ⟨i, hi, hget⟩ := h.get_take hk (l.length + l'.length)
  rwa [List.take_of_length_le (Nat.le_add_left _ _),
    List.take_of_length_le ((Nat.le_add_right _ _).trans hi)] at hget

omit [DecidableEq κ] in
theorem Edit.nodup (h : Edit key l k l') (hl : (l.map key).Nodup) : (l'.map key).Nodup := by
  cases h with
  | @set i a b hi hb ha =>
    obtain ⟨hlt, rfl⟩ := List.getElem?_eq_some_iff.mp hi
    rwa [List.map_set, ha, ← hb, ← List.map_set, List.set_getElem_self]
  | @add a ha hl' =>
    rw [List.map_append, List.map_singleton, List.nodup_append]
    refine ⟨hl, List.nodup_singleton _, fun x hx y hy heq => ?_⟩
    obtain ⟨b, hb, rfl⟩ := List.mem_map.mp hx
    rw [List.mem_singleton.mp hy, ha] at heq
    exact hl' b hb heq
  | del hi hb => exact hl.sublist ((List.eraseIdx_sublist l _).map key)

/-- The slots that have a record of one key have the same one. -/
def Alike (key : α → κ) (s : ℕ → Option α) (m : ℕ) : Prop :=
  ∀ n < m, ∀ n' < m, ∀ a b, s n = some a → s n' = some b → key a = key b → a = b

theorem get_eraseIdx_self {i : ℕ} {b : α} (hl : (l.map key).Nodup) (hi : l[i]? = some b) :
    get key (key b) (l.eraseIdx i) = none := by
  refine get_eq_none.mpr fun c hc hkey => ?_
  obtain ⟨n, hn, hc⟩ := List.mem_eraseIdx_iff_getElem?.mp hc
  obtain ⟨hlt, rfl⟩ := List.getElem?_eq_some_iff.mp hi
  obtain ⟨hlt', rfl⟩ := List.getElem?_eq_some_iff.mp hc
  have hn' : n < (l.map key).length := by simpa using hlt'
  have hi' : i < (l.map key).length := by simpa using hlt
  refine hn ((@List.Nodup.getElem_inj_iff _ _ hl n hn' i hi').mp ?_)
  simpa using hkey

/-- Only a record that is taken out is in a prefix of the table and not in that of the changed one.
-/
theorem Edit.get_take_self (h : Edit key l k l') {j : ℕ} (hnone : get key k (l'.take j) = none) :
    get key k (l.take j) = none ∨ ∃ i b, l[i]? = some b ∧ key b = k ∧ l' = l.eraseIdx i := by
  cases h with
  | @set i a b hi hb ha =>
    refine .inl ?_
    rcases Nat.lt_or_ge i j with hij | hij
    · refine absurd ha (get_eq_none.mp hnone a ?_)
      obtain ⟨hlt, -⟩ := List.getElem?_eq_some_iff.mp hi
      refine List.mem_of_getElem? (i := i) ?_
      rw [List.getElem?_take_of_lt hij, List.getElem?_set_self hlt]
    · rwa [List.take_set, List.set_eq_of_length_le ((List.length_take_le j l).trans hij)] at hnone
  | @add a ha hl => exact .inl (get_eq_none.mpr fun b hb => hl b (List.mem_of_mem_take hb))
  | @del i b hi hb => exact .inr ⟨i, b, hi, hb, rfl⟩

/-- Where equal keys have equal records, a change that is cut short leaves the table before it or
the table after it. -/
theorem Mirrors.cut_atomic (h : Mirrors key s m l) (hs : Alike key s m) (he : Edit key l k l')
    (hl : (l.map key).Nodup) (hj : j ≤ m) :
    (∀ k', get key k' (records (written s l' j) m) = get key k' l) ∨
      ∀ k', get key k' (records (written s l' j) m) = get key k' l' := by
  have hother : ∀ k', k' ≠ k → get key k' (records (written s l' j) m) = get key k' l :=
    fun k' hk => h.get_cut_of_ne he hk hj
  have hself : get key k (records (written s l' j) m) = get key k l ∨
      get key k (records (written s l' j) m) = get key k l' := by
    rw [get_written hj]
    cases hk : get key k (l'.take j) with
    | some b => exact .inr (get_of_take hk).symm
    | none =>
      rw [Option.none_or]
      rcases he.get_take_self hk with hold | ⟨i, b, hi, rfl, rfl⟩
      · exact .inl (h.get_between hj hold)
      · have hb : get key (key b) l = some b := get_of_mem hl (List.mem_of_getElem? hi)
        cases hc : get key (key b) (between s j m) with
        | none => exact .inr (get_eraseIdx_self hl hi).symm
        | some c =>
          -- a copy that is left over is the record that was read
          obtain ⟨hmem, hkey⟩ := mem_of_get hc
          have hmem' : c ∈ records s m := by
            rw [records_split hj]
            exact List.mem_append_right _ hmem
          obtain ⟨n, hn, hsn⟩ := mem_records.mp hmem'
          obtain ⟨hbm, -⟩ := mem_of_get ((h.get_eq (key b)).trans hb)
          obtain ⟨n', hn', hsn'⟩ := mem_records.mp hbm
          rw [hb, hs n hn n' hn' c b hsn hsn' hkey]
          exact .inl rfl
  refine hself.imp (fun h' k' => ?_) fun h' k' => ?_
  · by_cases hk : k' = k
    · rw [hk, h']
    · exact hother k' hk
  · by_cases hk : k' = k
    · rw [hk, h']
    · rw [hother k' hk, he.get_of_ne hk]

end OpenCalifornia.Lib.Slots
