import Mathlib

/-! # Reading a log page by page

A reader holds the key of the last item it has, and asks for the next page from there. A page is a
first part of what there is above that key. -/

namespace OpenCalifornia.Lib.Paging

universe u v

variable {α : Type u} {β : Type v} {key : α → ℕ} {n m bound : ℕ} {a : α} {l pre post : List α}

/-- What a reader at `n` takes from a log: every item above all that it has so far. -/
def climb (key : α → ℕ) : ℕ → List α → List α
  | _, [] => []
  | n, a :: l => if n < key a then a :: climb key (key a) l else climb key n l

/-- The highest key once the log was read. -/
def top (key : α → ℕ) (n : ℕ) (l : List α) : ℕ := l.foldl (fun n a => max n (key a)) n

theorem climb_above (n : ℕ) (l : List α) : ∀ a ∈ climb key n l, n < key a := by
  induction l generalizing n with
  | nil => exact fun a h => by cases h
  | cons b l ih =>
    rw [climb]
    by_cases hb : n < key b
    · rw [if_pos hb]
      exact List.forall_mem_cons.mpr ⟨hb, fun a ha => hb.trans (ih (key b) a ha)⟩
    · rw [if_neg hb]
      exact ih n

theorem climb_sorted (n : ℕ) (l : List α) : (climb key n l).Pairwise (key · < key ·) := by
  induction l generalizing n with
  | nil => exact List.Pairwise.nil
  | cons b l ih =>
    rw [climb]
    by_cases hb : n < key b
    · rw [if_pos hb]
      exact List.pairwise_cons.mpr ⟨climb_above (key b) l, ih (key b)⟩
    · rw [if_neg hb]
      exact ih n

theorem climb_sublist (n : ℕ) (l : List α) : (climb key n l).Sublist l := by
  induction l generalizing n with
  | nil => exact List.Sublist.slnil
  | cons b l ih =>
    rw [climb]
    by_cases hb : n < key b
    · rw [if_pos hb]
      exact (ih (key b)).cons_cons b
    · rw [if_neg hb]
      exact (ih n).cons b

theorem climb_append (n : ℕ) (pre post : List α) :
    climb key n (pre ++ post) = climb key n pre ++ climb key (top key n pre) post := by
  induction pre generalizing n with
  | nil => rfl
  | cons b pre ih =>
    rw [List.cons_append, climb, climb, top, List.foldl_cons, ← top]
    by_cases hb : n < key b
    · rw [if_pos hb, if_pos hb, ih, Nat.max_eq_right hb.le, List.cons_append]
    · rw [if_neg hb, if_neg hb, ih, Nat.max_eq_left (by omega)]

theorem le_top (n : ℕ) (l : List α) : n ≤ top key n l := by
  induction l generalizing n with
  | nil => exact le_rfl
  | cons b l ih => exact (Nat.le_max_left n (key b)).trans (ih _)

theorem key_le_top (n : ℕ) (ha : a ∈ l) : key a ≤ top key n l := by
  induction l generalizing n with
  | nil => cases ha
  | cons b l ih =>
    cases ha with
    | head => exact (Nat.le_max_right n (key a)).trans (le_top _ l)
    | tail _ ha => exact ih _ ha

theorem top_lt (hn : n < m) (hl : ∀ a ∈ l, key a < m) : top key n l < m := by
  induction l generalizing n with
  | nil => exact hn
  | cons b l ih =>
    obtain ⟨hb, hl⟩ := List.forall_mem_cons.mp hl
    exact ih (Nat.max_lt.mpr ⟨hn, hb⟩) hl

theorem mem_climb (hn : n < key a) (hpre : ∀ b ∈ pre, key b < key a) (post : List α) :
    a ∈ climb key n (pre ++ a :: post) := by
  rw [climb_append, climb, if_pos (top_lt hn hpre)]
  exact List.mem_append_right _ List.mem_cons_self

theorem climb_eq_filter (hl : l.Pairwise (key · < key ·)) (n : ℕ) :
    climb key n l = l.filter (n < key ·) := by
  induction l generalizing n with
  | nil => rfl
  | cons b l ih =>
    obtain ⟨hb, hl⟩ := List.pairwise_cons.mp hl
    rw [climb]
    by_cases hn : n < key b
    · rw [if_pos hn, List.filter_cons_of_pos (by simpa using hn), ih hl, List.filter_eq_self.mpr,
        List.filter_eq_self.mpr]
      · exact fun c hc => by simpa using hn.trans (hb c hc)
      · exact fun c hc => by simpa using hb c hc
    · rw [if_neg hn, List.filter_cons_of_neg (by simpa using hn), ih hl]

theorem climb_skip (hpre : ∀ a ∈ pre, key a ≤ n) (post : List α) :
    climb key n (pre ++ post) = climb key n post := by
  induction pre with
  | nil => rfl
  | cons b pre ih =>
    obtain ⟨hb, hpre⟩ := List.forall_mem_cons.mp hpre
    rw [List.cons_append, climb, if_neg (by omega), ih hpre]

theorem length_climb (hl : ∀ a ∈ l, key a ≤ bound) : (climb key n l).length ≤ bound - n := by
  induction l generalizing n with
  | nil => exact Nat.zero_le _
  | cons b l ih =>
    obtain ⟨hb, hl⟩ := List.forall_mem_cons.mp hl
    rw [climb]
    by_cases hn : n < key b
    · have hrest := @ih (key b) hl
      rw [if_pos hn, List.length_cons]
      omega
    · rw [if_neg hn]
      exact ih hl

theorem eq_of_mem_climb {b : α} (ha : a ∈ climb key n l) (hb : b ∈ climb key n l)
    (heq : key a = key b) : a = b := by
  have hnodup : ((climb key n l).map key).Nodup :=
    List.pairwise_map.mpr ((climb_sorted n l).imp fun h => h.ne)
  exact List.inj_on_of_nodup_map hnodup ha hb heq

/-- `info` is what else a page says. -/
structure Page (α : Type u) (β : Type v) where
  items : List α
  next : ℕ
  more : Bool
  info : β

/-- The page of a reader at `n` for whom there is `all`. -/
structure Page.Of (key : α → ℕ) (p : Page α β) (n : ℕ) (all : List α) : Prop where
  items : p.items <+: all
  next : p.next = top key n p.items
  more : p.more = true ↔ p.items ≠ all
  progress : all ≠ [] → p.items ≠ []

variable {page : ℕ → Option (Page α β)} {p : Page α β} {ps : List (Page α β)} {all : List α}

theorem Page.Of.lt_next (h : p.Of key n all) (hall : ∀ a ∈ all, n < key a) (hmore : p.more = true) :
    n < p.next := by
  obtain ⟨rest, hrest⟩ := h.items
  have hne : all ≠ [] := by
    rintro rfl
    exact h.more.mp hmore (List.prefix_nil.mp h.items)
  obtain ⟨b, hb⟩ := List.exists_mem_of_ne_nil _ (h.progress hne)
  rw [h.next]
  exact (hall b (h.items.subset hb)).trans_le (key_le_top n hb)

theorem Page.Of.next_lt (h : p.Of key n all) (hall : ∀ a ∈ all, n < key a)
    (hsorted : all.Pairwise (key · < key ·)) (hmore : p.more = true) :
    ∃ a ∈ all, p.next < key a := by
  obtain ⟨rest, rfl⟩ := h.items
  have hne : rest ≠ [] := by
    rintro rfl
    exact h.more.mp hmore (List.append_nil _).symm
  obtain ⟨a, ha⟩ := List.exists_mem_of_ne_nil _ hne
  refine ⟨a, List.mem_append_right _ ha, ?_⟩
  rw [h.next]
  exact top_lt (hall a (List.mem_append_right _ ha)) fun b hb =>
    (List.pairwise_append.mp hsorted).2.2 b hb a ha

/-- The reader asks again from the key it was given while there is more. -/
inductive Run (page : ℕ → Option (Page α β)) : ℕ → List (Page α β) → Prop
  | last {n : ℕ} {p : Page α β} (hp : page n = some p) (hmore : p.more = false) : Run page n [p]
  | more {n : ℕ} {p : Page α β} {ps : List (Page α β)} (hp : page n = some p)
    (hmore : p.more = true) (hps : Run page p.next ps) :
      Run page n (p :: ps)

/-- The reader gets the item, on this page or a later one. -/
inductive Returned (page : ℕ → Option (Page α β)) (a : α) : ℕ → Prop
  | here {n : ℕ} {p : Page α β} (hp : page n = some p) (ha : a ∈ p.items) : Returned page a n
  | later {n : ℕ} {p : Page α β} (hp : page n = some p) (hmore : p.more = true)
    (h : Returned page a p.next) :
      Returned page a n

theorem top_le (hn : n ≤ bound) (hl : ∀ a ∈ l, key a ≤ bound) : top key n l ≤ bound :=
  Nat.lt_succ_iff.mp (top_lt (Nat.lt_succ_iff.mpr hn) fun a ha => Nat.lt_succ_iff.mpr (hl a ha))

theorem returned_of_ahead
    (h : ∀ n < key a, ∃ p all, page n = some p ∧ p.Of key n all ∧ a ∈ all ∧
      (∀ b ∈ all, n < key b) ∧ all.Pairwise (key · < key ·)) (hn : n < key a) :
    Returned page a n := by
  induction hk : key a - n using Nat.strong_induction_on generalizing n with
  | _ k ih =>
    obtain ⟨p, all, hp, hof, ha, habove, hsorted⟩ := h n hn
    by_cases hmem : a ∈ p.items
    · exact Returned.here hp hmem
    have hmore : p.more = true := hof.more.mpr fun heq => hmem (heq ▸ ha)
    have hlt := hof.lt_next habove hmore
    have hnext : p.next < key a := by
      rw [hof.next]
      refine top_lt hn fun b hb => ?_
      obtain ⟨rest, hrest⟩ := hof.items
      rw [← hrest] at ha hsorted
      have harest := (List.mem_append.mp ha).resolve_left hmem
      exact (List.pairwise_append.mp hsorted).2.2 b hb a harest
    exact Returned.later hp hmore (ih (key a - p.next) (by omega) hnext rfl)

theorem filter_of_prefix (hl : l.Pairwise (key · < key ·)) (h : pre <+: l.filter (n < key ·)) :
    l.filter (n < key ·) = pre ++ l.filter (top key n pre < key ·) := by
  obtain ⟨rest, hrest⟩ := h
  have hsorted : (pre ++ rest).Pairwise (key · < key ·) := hrest ▸ hl.filter _
  have habove : ∀ a ∈ pre ++ rest, n < key a := fun a ha => by
    rw [hrest] at ha
    simpa using (List.mem_filter.mp ha).2
  have hsame : l.filter (top key n pre < key ·) =
      (l.filter (n < key ·)).filter (top key n pre < key ·) := by
    rw [List.filter_filter]
    refine List.filter_congr fun a _ => ?_
    have hle : n ≤ top key n pre := le_top n pre
    rw [← Bool.decide_and, decide_eq_decide]
    omega
  have hpre : pre.filter (top key n pre < key ·) = [] :=
    List.filter_eq_nil_iff.mpr fun a ha => by simpa using key_le_top n ha
  have htail : rest.filter (top key n pre < key ·) = rest := by
    refine List.filter_eq_self.mpr fun a ha => ?_
    have hlt := top_lt (habove a (List.mem_append_right _ ha)) fun b hb =>
      (List.pairwise_append.mp hsorted).2.2 b hb a ha
    simpa using hlt
  rw [hsame, ← hrest, List.filter_append, hpre, htail, List.nil_append]

/-- Page by page a reader gets all that is above its key, each item once and in order. -/
theorem exists_run (hl : l.Pairwise (key · < key ·)) (hbound : ∀ a ∈ l, key a ≤ bound)
    (h : ∀ n ≤ bound, ∃ p, page n = some p ∧ p.Of key n (l.filter (n < key ·))) (hn : n ≤ bound) :
    ∃ ps, Run page n ps ∧ ps.flatMap Page.items = l.filter (n < key ·) := by
  induction hk : bound - n using Nat.strong_induction_on generalizing n with
  | _ k ih =>
    obtain ⟨p, hp, hof⟩ := h n hn
    cases hmore : p.more with
    | false =>
      have hall : p.items = l.filter (n < key ·) := by
        by_contra hne
        rw [hof.more.mpr hne] at hmore
        cases hmore
      exact ⟨[p], Run.last hp hmore, by simpa using hall⟩
    | true =>
      have hlt := hof.lt_next (fun a ha => by simpa using (List.mem_filter.mp ha).2) hmore
      have hle : p.next ≤ bound := by
        rw [hof.next]
        exact top_le hn fun a ha => hbound a (List.mem_filter.mp (hof.items.subset ha)).1
      obtain ⟨ps, hrun, hitems⟩ := ih (bound - p.next) (by omega) hle rfl
      refine ⟨p :: ps, Run.more hp hmore hrun, ?_⟩
      rw [List.flatMap_cons, hitems, filter_of_prefix hl hof.items, hof.next]

end OpenCalifornia.Lib.Paging
