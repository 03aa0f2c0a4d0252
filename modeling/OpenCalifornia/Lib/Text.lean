import Mathlib

/-! Text as a list of characters: cutting blanks at both ends, cutting at a separator and
reading word by word. `tokens` reads the words one by one, and `tokens_eq_words` says that these
are the non-empty pieces between blanks. -/

namespace OpenCalifornia.Lib.Text

variable {α : Type} {p q : α → Bool}

def strip (p : α → Bool) (s : List α) : List α := (s.dropWhile p).rdropWhile p

/-- The non-empty pieces between blanks. -/
def words (p : α → Bool) (s : List α) : List (List α) := (s.splitOnP p).filter (!·.isEmpty)

/-- Skip blanks, cut one word and the blank after it. -/
def nextToken (p : α → Bool) (s : List α) : Option (List α × List α) :=
  match s.dropWhile p with
  | [] => none
  | c :: t => some (c :: t.takeWhile (!p ·), (t.dropWhile (!p ·)).tail)

/-- Everything before the first `c` and everything after it. -/
def cut [DecidableEq α] (c : α) : List α → Option (List α × List α)
  | [] => none
  | x :: s => if x = c then some ([], s) else (cut c s).map fun ab => (x :: ab.1, ab.2)

theorem mem_dropWhile_or {s : List α} {c : α} (h : c ∈ s) : p c = true ∨ c ∈ s.dropWhile p := by
  rw [← List.takeWhile_append_dropWhile (p := p) (l := s), List.mem_append] at h
  cases h with
  | inl h => exact Or.inl (List.mem_takeWhile_imp h)
  | inr h => exact Or.inr h

theorem mem_strip_or {s : List α} {c : α} (h : c ∈ s) : p c = true ∨ c ∈ strip p s := by
  cases mem_dropWhile_or (p := p) h with
  | inl h => exact Or.inl h
  | inr h =>
    have hr : c ∈ (s.dropWhile p).reverse := List.mem_reverse.mpr h
    cases mem_dropWhile_or (p := p) hr with
    | inl h => exact Or.inl h
    | inr h => exact Or.inr (List.mem_reverse.mpr h)

theorem dropWhile_congr {s : List α} (h : ∀ c ∈ s, p c = q c) : s.dropWhile p = s.dropWhile q := by
  induction s with
  | nil => rfl
  | cons c s ih =>
    have hc := h c (by simp)
    by_cases hp : p c = true
    · have hq : q c = true := hc ▸ hp
      rw [List.dropWhile_cons_of_pos hp, List.dropWhile_cons_of_pos hq]
      exact ih fun x hx => h x (by simp [hx])
    · have hq : ¬ q c = true := hc ▸ hp
      rw [List.dropWhile_cons_of_neg hp, List.dropWhile_cons_of_neg hq]

theorem strip_congr {s : List α} (h : ∀ c ∈ s, p c = q c) : strip p s = strip q s := by
  have hd : ∀ c ∈ (s.dropWhile q).reverse, p c = q c := fun c hc =>
    h c ((List.dropWhile_suffix q).subset (List.mem_reverse.mp hc))
  rw [strip, strip, dropWhile_congr h, List.rdropWhile, List.rdropWhile, dropWhile_congr hd]

theorem dropWhile_append_cons {a b : List α} {c : α} (h : p c = false) :
    (a ++ c :: b).dropWhile p = a.dropWhile p ++ c :: b := by
  induction a with
  | nil => exact List.dropWhile_cons_of_neg (by simp [h])
  | cons x a ih =>
    by_cases hx : p x = true
    · rw [List.cons_append, List.dropWhile_cons_of_pos hx, List.dropWhile_cons_of_pos hx, ih]
    · rw [List.cons_append, List.dropWhile_cons_of_neg hx, List.dropWhile_cons_of_neg hx]
      rfl

theorem strip_append_cons {a b : List α} {c : α} (h : p c = false) :
    strip p (a ++ c :: b) = a.dropWhile p ++ c :: b.rdropWhile p := by
  rw [strip, dropWhile_append_cons h, List.rdropWhile, List.reverse_append, List.reverse_cons,
    List.append_assoc, List.singleton_append, dropWhile_append_cons h]
  simp [List.rdropWhile]

theorem splitOnP_congr {s : List α} (h : ∀ c ∈ s, p c = q c) : s.splitOnP p = s.splitOnP q := by
  induction s with
  | nil => rfl
  | cons c s ih =>
    rw [List.splitOnP_cons_eq_if_modifyHead, List.splitOnP_cons_eq_if_modifyHead, h c (by simp),
      ih fun x hx => h x (by simp [hx])]

theorem words_congr {s : List α} (h : ∀ c ∈ s, p c = q c) : words p s = words q s := by
  rw [words, words, splitOnP_congr h]

theorem length_nextToken {s t rest : List α} (h : nextToken p s = some (t, rest)) :
    rest.length < s.length := by
  have hd : (s.dropWhile p).length ≤ s.length := (List.dropWhile_suffix p).length_le
  cases hs : s.dropWhile p with
  | nil => simp [nextToken, hs] at h
  | cons c u =>
    have hu : (u.dropWhile (!p ·)).length ≤ u.length := (List.dropWhile_suffix _).length_le
    simp only [nextToken, hs, Option.some.injEq, Prod.mk.injEq] at h
    rw [hs, List.length_cons] at hd
    rw [← h.2, List.length_tail]
    omega

/-- All words, read one by one. -/
def tokens (p : α → Bool) (s : List α) : List (List α) :=
  match h : nextToken p s with
  | none => []
  | some (t, rest) =>
    have := length_nextToken h
    t :: tokens p rest
termination_by s.length

theorem tokens_of_none {s : List α} (h : nextToken p s = none) : tokens p s = [] := by
  rw [tokens]
  split
  · rfl
  · simp_all

theorem tokens_of_some {s t rest : List α} (h : nextToken p s = some (t, rest)) :
    tokens p s = t :: tokens p rest := by
  rw [tokens]
  split
  · simp_all
  · simp_all

theorem words_cons_of_pos {c : α} {s : List α} (h : p c = true) : words p (c :: s) = words p s := by
  rw [words, List.splitOnP_cons_eq_if_modifyHead, if_pos h]
  rfl

theorem words_dropWhile (s : List α) : words p (s.dropWhile p) = words p s := by
  induction s with
  | nil => rfl
  | cons c s ih =>
    by_cases h : p c = true
    · rw [List.dropWhile_cons_of_pos h, ih, words_cons_of_pos h]
    · rw [List.dropWhile_cons_of_neg h]

theorem words_word {c : α} {s : List α} (h : p c = false) :
    words p (c :: s) = (c :: s.takeWhile (!p ·)) :: words p (s.dropWhile (!p ·)).tail := by
  have hw : ∀ x ∈ c :: s.takeWhile (!p ·), p x = false := by
    intro x hx
    cases List.mem_cons.mp hx with
    | inl hx => rw [hx, h]
    | inr hx => simpa using List.mem_takeWhile_imp hx
  have hs : c :: s = (c :: s.takeWhile (!p ·)) ++ s.dropWhile (!p ·) := by
    rw [List.cons_append, List.takeWhile_append_dropWhile]
  cases hd : s.dropWhile (!p ·) with
  | nil =>
    rw [hs, hd, List.append_nil, words, List.splitOnP_eq_singleton hw]
    rfl
  | cons sep t =>
    have hsep : p sep = true := by
      have := List.head_dropWhile_not (!p ·) (l := s) (by simp [hd])
      simpa [hd] using this
    rw [hs, hd, words, List.splitOnP_append_cons_of_forall_mem hw sep hsep]
    rfl

theorem tokens_eq_words (s : List α) : tokens p s = words p s := by
  induction hn : s.length using Nat.strong_induction_on generalizing s with
  | _ n ih =>
    cases hd : s.dropWhile p with
    | nil =>
      have hnone : nextToken p s = none := by rw [nextToken, hd]
      rw [tokens_of_none hnone, ← words_dropWhile, hd]
      rfl
    | cons c t =>
      have hc : p c = false := by
        have := List.head_dropWhile_not p (l := s) (by simp [hd])
        simpa [hd] using this
      have hsome : nextToken p s =
          some (c :: t.takeWhile (!p ·), (t.dropWhile (!p ·)).tail) := by rw [nextToken, hd]
      rw [tokens_of_some hsome, ih _ (hn ▸ length_nextToken hsome) _ rfl, ← words_dropWhile s, hd,
        words_word hc]

theorem mem_splitOnP_or {s : List α} {c : α} (h : c ∈ s) :
    p c = true ∨ ∃ w ∈ s.splitOnP p, c ∈ w := by
  induction s with
  | nil => simp at h
  | cons x s ih =>
    rw [List.splitOnP_cons_eq_if_modifyHead]
    by_cases hx : p x = true
    · rw [if_pos hx]
      cases List.mem_cons.mp h with
      | inl h => exact Or.inl (h ▸ hx)
      | inr h =>
        exact (ih h).imp_right fun h => h.imp fun w hw => ⟨List.mem_cons_of_mem _ hw.1, hw.2⟩
    · obtain ⟨w, ws, hs⟩ := List.exists_cons_of_ne_nil (List.splitOnP_ne_nil p s)
      rw [if_neg hx, hs, List.modifyHead_cons]
      cases List.mem_cons.mp h with
      | inl h => exact Or.inr ⟨x :: w, by simp, by simp [h]⟩
      | inr h =>
        apply (ih h).imp_right
        rintro ⟨u, hu, hc⟩
        rw [hs] at hu
        cases List.mem_cons.mp hu with
        | inl hu => exact ⟨x :: w, by simp, List.mem_cons_of_mem _ (hu ▸ hc)⟩
        | inr hu => exact ⟨u, List.mem_cons_of_mem _ hu, hc⟩

theorem mem_words_or {s : List α} {c : α} (h : c ∈ s) : p c = true ∨ ∃ w ∈ words p s, c ∈ w := by
  apply (mem_splitOnP_or h).imp_right
  rintro ⟨w, hw, hc⟩
  cases w with
  | nil => simp at hc
  | cons x w => exact ⟨x :: w, List.mem_filter.mpr ⟨hw, rfl⟩, hc⟩

theorem mem_splitOnP {s w : List α} (h : w ∈ s.splitOnP p) :
    w.length ≤ s.length ∧ ∀ c ∈ w, p c = false := by
  induction s generalizing w with
  | nil => simp_all
  | cons x s ih =>
    rw [List.splitOnP_cons_eq_if_modifyHead] at h
    by_cases hx : p x = true
    · rw [if_pos hx] at h
      cases List.mem_cons.mp h with
      | inl h => simp [h]
      | inr h => exact ⟨(ih h).1.trans (by simp), (ih h).2⟩
    · obtain ⟨u, us, hs⟩ := List.exists_cons_of_ne_nil (List.splitOnP_ne_nil p s)
      rw [if_neg hx, hs, List.modifyHead_cons] at h
      have hu := ih (w := u) (by simp [hs])
      cases List.mem_cons.mp h with
      | inl h =>
        subst h
        exact ⟨by simp [hu.1], by simpa [hx] using hu.2⟩
      | inr h =>
        have hw := ih (w := w) (by simp [hs, h])
        exact ⟨hw.1.trans (by simp), hw.2⟩

theorem splitOnP_subset {s w : List α} (h : w ∈ s.splitOnP p) : ∀ c ∈ w, c ∈ s := by
  induction s generalizing w with
  | nil => simp_all
  | cons x s ih =>
    rw [List.splitOnP_cons_eq_if_modifyHead] at h
    by_cases hx : p x = true
    · rw [if_pos hx] at h
      cases List.mem_cons.mp h with
      | inl h => simp [h]
      | inr h => exact fun c hc => List.mem_cons_of_mem _ (ih h c hc)
    · obtain ⟨u, us, hs⟩ := List.exists_cons_of_ne_nil (List.splitOnP_ne_nil p s)
      rw [if_neg hx, hs, List.modifyHead_cons] at h
      have hu := ih (w := u) (by simp [hs])
      cases List.mem_cons.mp h with
      | inl h =>
        subst h
        intro c hc
        exact (List.mem_cons.mp hc).elim (fun he => he ▸ List.mem_cons_self)
          fun hc => List.mem_cons_of_mem _ (hu c hc)
      | inr h => exact fun c hc => List.mem_cons_of_mem _ (ih (w := w) (by simp [hs, h]) c hc)

theorem words_subset {s w : List α} (h : w ∈ words p s) : ∀ c ∈ w, c ∈ s :=
  splitOnP_subset (List.mem_filter.mp h).1

theorem mem_words {s w : List α} (h : w ∈ words p s) :
    w.length ≤ s.length ∧ ∀ c ∈ w, p c = false :=
  mem_splitOnP (List.mem_filter.mp h).1

theorem splitOnP_map {β : Type} (f : α → β) (r : β → Bool) (s : List α) :
    (s.map f).splitOnP r = (s.splitOnP (r ∘ f)).map (List.map f) := by
  induction s with
  | nil => rfl
  | cons x s ih =>
    rw [List.map_cons, List.splitOnP_cons_eq_if_modifyHead, List.splitOnP_cons_eq_if_modifyHead, ih]
    by_cases hx : r (f x) = true
    · rw [if_pos hx, if_pos (by simpa using hx)]
      rfl
    · obtain ⟨u, us, hs⟩ := List.exists_cons_of_ne_nil (List.splitOnP_ne_nil (r ∘ f) s)
      rw [if_neg hx, if_neg (by simpa using hx), hs]
      rfl

theorem words_map {β : Type} (f : α → β) (r : β → Bool) (s : List α) :
    words r (s.map f) = (words (r ∘ f) s).map (List.map f) := by
  rw [words, words, splitOnP_map, List.filter_map]
  congr 1
  apply List.filter_congr
  intro w _
  cases w <;> rfl

theorem strip_of_forall {s : List α} (h : ∀ c ∈ s, p c = false) : strip p s = s := by
  have hd : s.dropWhile p = s := by
    cases s with
    | nil => rfl
    | cons c s => exact List.dropWhile_cons_of_neg (by simp [h c])
  have hr : s.reverse.dropWhile p = s.reverse := by
    cases hs : s.reverse with
    | nil => rfl
    | cons c t =>
      have hc : c ∈ s := List.mem_reverse.mp (by simp [hs])
      exact List.dropWhile_cons_of_neg (by simp [h c hc])
  rw [strip, hd, List.rdropWhile, hr, List.reverse_reverse]

section Cut

variable [DecidableEq α]

theorem cut_eq_some {c : α} {s a b : List α} (h : cut c s = some (a, b)) :
    s = a ++ c :: b ∧ c ∉ a := by
  induction s generalizing a b with
  | nil => simp [cut] at h
  | cons x s ih =>
    by_cases hx : x = c
    · simp only [cut, hx, if_true, Option.some.injEq, Prod.mk.injEq] at h
      simp [← h.1, ← h.2, hx]
    · simp only [cut, hx, if_false, Option.map_eq_some_iff, Prod.mk.injEq] at h
      obtain ⟨⟨a', b'⟩, hab, ha, hb⟩ := h
      obtain ⟨hs, hc⟩ := ih hab
      subst ha hb
      simp [hs, hc, Ne.symm hx]

theorem cut_iff {c : α} {s a b : List α} : cut c s = some (a, b) ↔ s = a ++ c :: b ∧ c ∉ a := by
  refine ⟨cut_eq_some, ?_⟩
  rintro ⟨rfl, hc⟩
  induction a with
  | nil => rw [List.nil_append, cut, if_pos rfl]
  | cons x a ih =>
    rw [List.mem_cons, not_or] at hc
    rw [List.cons_append, cut, if_neg (Ne.symm hc.1), ih hc.2]
    rfl

theorem cut_eq_none {c : α} {s : List α} : cut c s = none ↔ c ∉ s := by
  induction s with
  | nil => simp [cut]
  | cons x s ih =>
    by_cases hx : x = c
    · simp [cut, hx]
    · simp [cut, hx, ih, Ne.symm hx]

theorem length_cut {c : α} {s a b : List α} (h : cut c s = some (a, b)) :
    b.length < s.length := by
  rw [(cut_eq_some h).1, List.length_append, List.length_cons]
  omega

theorem splitOn_of_cut_none {c : α} {s : List α} (h : cut c s = none) : s.splitOn c = [s] := by
  apply List.splitOnP_eq_singleton
  intro x hx
  have hne : x ≠ c := fun he => cut_eq_none.mp h (he ▸ hx)
  simpa using hne

theorem splitOn_of_cut_some {c : α} {s a b : List α} (h : cut c s = some (a, b)) :
    s.splitOn c = a :: b.splitOn c := by
  obtain ⟨hs, hc⟩ := cut_eq_some h
  rw [hs]
  apply List.splitOnP_append_cons_of_forall_mem _ _ (by simp)
  intro x hx
  have hne : x ≠ c := fun he => hc (he ▸ hx)
  simpa using hne

end Cut

end OpenCalifornia.Lib.Text
